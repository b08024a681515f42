import AgentEngine.Anet.ChannelIds
import AgentEngine.Anet.ChannelInvariant
import AgentEngine.Anet.Connection

/-!
Where a request is while it waits to be completed.

Every request that `postPacket` accepted owns one channel until its handler is called. The
channel is that of a packet in the output queue, that of a packet which the connection holds
in its hands (`flight`), one that waits for a reply, or one that `getTimeoutList` detached and
whose handler is still to be called (`calling`). There is one more place, from which there is
no way out: a channel that was written without an expire time neither waits nor belongs to a
packet any more (`lost`). `Ledger` says that these are all, each step below says what it moves
from one place to another, and the handlers called so far together with the places make up
exactly what was accepted.
-/

namespace AgentEngine.Anet

open Lib TimeUtil List Function
open ChannelPool (low tick lowWords)

namespace OrderedPacketQueue

theorem push_perm (queue : List Outgoing) (packet : Outgoing) :
    (push queue packet).Perm (packet :: queue) := by
  unfold push
  split
  · split
    · exact perm_append_singleton packet queue
    · split
      · exact .refl _
      · refine perm_middle.trans (.cons packet ?_)
        rw [takeWhile_append_dropWhile]
  · rename_i h
    cases queue with
    | nil => exact .refl _
    | cons p ps => exact absurd (getLast?_eq_some_getLast (cons_ne_nil p ps)) (h p _ rfl)

theorem moveBack_perm (queue src : List Outgoing) : (moveBack queue src).Perm (queue ++ src) := by
  unfold moveBack
  split
  · rename_i h
    rw [getLast?_eq_none_iff.mp h, append_nil]
  · rename_i h _
    rw [head?_eq_none_iff.mp h, nil_append]
  · split
    · exact perm_append_comm
    · exact merge_perm_append _

end OrderedPacketQueue

/-- The low word of an id goes through a packet of either kind. -/
theorem low_wireId (advance : Bool) (chid : BitVec 64) : low (wireId advance chid) = low chid := by
  cases advance with
  | false =>
    simp only [wireId, low, Bool.false_eq_true, if_false, BitVec.toNat_setWidth]
    omega
  | true =>
    simp only [wireId, low, if_true, BitVec.toNat_add, BitVec.toNat_setWidth,
      BitVec.toNat_shiftLeft, BitVec.toNat_sub, Nat.shiftLeft_eq]
    omega

namespace Connection

variable {η α : Type}

/-- The channels of some packets. -/
def channels (packets : List Outgoing) : List ChannelRef := packets.filterMap (·.channel)

end Connection

/-- Whom the owner of a channel wants to be called. -/
def ChannelPool.callback {η α : Type} (p : ChannelPool η α) (c : ChannelRef) : Callback η α :=
  ((p.channel c).handler, (p.channel c).args)

namespace Connection

variable {η α : Type}

/-- The places of the accepted requests. Ids were given out since the counter was `start`, to
the channel `r` as the one with the number `number r`. -/
structure Ledger (c : Connection η α) (start : BitVec 64) (flight : List Outgoing)
    (lost calling : List ChannelRef) (h : Holdings) (number : ChannelRef → Nat) : Prop where
  holds : c.pool.Holds h
  owned : h.handed.Perm (channels (c.outputQueue ++ flight) ++ h.waiting ++ lost)
  detached : ∀ r ∈ calling, r ∈ h.detached.flatten
  handlers : ∀ r, r ∈ h.handed ∨ r ∈ calling → (c.pool.channel r).handler.isSome
  expiry : ∀ r ∈ h.waiting, 0 < c.pool.getExpireTime r ∧ c.pool.getExpireTime r ≤ PRE_MAX
  accounted : c.accepted.Perm
    (c.invoked.map Prod.fst ++ (h.handed ++ calling).map c.pool.callback)
  counter : c.counter = tick^[c.allocations] start
  ids : ∀ r ∈ h.handed, 1 ≤ number r ∧ number r ≤ c.allocations ∧
    low (c.pool.channel r).id = low (tick^[number r] start)
  numbers : ∀ r ∈ h.handed, ∀ r' ∈ h.handed, number r = number r' → r = r'

namespace Ledger

variable {c c' : Connection η α} {start : BitVec 64} {flight : List Outgoing}
  {lost calling : List ChannelRef} {h : Holdings} {number : ChannelRef → Nat}

/-- Only some fields of a connection matter here. -/
theorem congr (l : c.Ledger start flight lost calling h number) (pool : c'.pool = c.pool)
    (queue : c'.outputQueue = c.outputQueue) (accepted : c'.accepted = c.accepted)
    (invoked : c'.invoked = c.invoked) (counter : c'.counter = c.counter)
    (allocations : c'.allocations = c.allocations) :
    c'.Ledger start flight lost calling h number := by
  constructor
  · exact pool ▸ l.holds
  · exact queue ▸ l.owned
  · exact l.detached
  · exact pool ▸ l.handlers
  · exact pool ▸ l.expiry
  · rw [pool, accepted, invoked]
    exact l.accounted
  · rw [counter, allocations]
    exact l.counter
  · rw [pool, allocations]
    exact l.ids
  · exact l.numbers

variable (l : c.Ledger start flight lost calling h number)

include l

variable {r : ChannelRef}

/-- A packet's channel is handed out and does not wait. -/
theorem of_channel (hr : r ∈ channels (c.outputQueue ++ flight)) :
    r ∈ h.handed ∧ r ∉ h.waiting := by
  have handed := l.owned.mem_iff.mpr (mem_append_left _ (mem_append_left _ hr))
  refine ⟨handed, fun waits => ?_⟩
  have nodup := l.owned.nodup_iff.mp l.holds.handed_nodup
  exact (nodup_append.mp (nodup_append.mp nodup).1).2.2 r hr r waits rfl

/-- A channel that is handed out can be freed. -/
theorem expire_nonneg (hr : r ∈ h.handed) : 0 ≤ c.pool.getExpireTime r := by
  by_cases waits : r ∈ h.waiting
  · exact Int.le_of_lt (l.expiry r waits).1
  · have zero := not_not.mp (mt (l.holds.expire r hr).mpr waits)
    exact Int.le_of_eq zero.symm

/-- As long as few ids were given out, nobody else waits under the id of a channel. -/
theorem id_unused (hr : r ∈ h.handed) (out : r ∉ h.waiting)
    (few : c.allocations ≤ lowWords) : c.pool.findChannel (c.pool.channel r).id = none := by
  rw [Option.eq_none_iff_forall_ne_some]
  intro x found
  obtain ⟨waits, same⟩ := l.holds.findChannel_eq_some.mp found
  have hx := l.holds.handedOut x waits
  obtain ⟨hx₁, hx₂, hx₃⟩ := l.ids x hx
  obtain ⟨hr₁, hr₂, hr₃⟩ := l.ids r hr
  have words : low (tick^[number x] start) = low (tick^[number r] start) := by
    rw [← hx₃, ← hr₃, same]
  have := ChannelPool.tick_injective hx₁ hr₁ (hx₂.trans few) (hr₂.trans few) words
  exact out (l.numbers x hx r hr this ▸ waits)

/-- An accepted request gets a channel of its own. -/
theorem accept {p : Post η α} (handler : p.handler.isSome) :
    ∃ h' number', (c.accept p).Ledger start flight lost calling h' number' ∧
      h'.waiting = h.waiting ∧ h'.detached = h.detached := by
  obtain ⟨r, free, first, holds, new, same⟩ := l.holds.allocChannel 0 c.counter
  obtain ⟨pool, hpool⟩ : ∃ pool, pool = (c.pool.allocChannel 0 c.counter).2.1 := ⟨_, rfl⟩
  rw [← hpool] at holds new same
  have fresh : r ∉ h.handed := (nodup_cons.mp holds.handed_nodup).1
  have fresh' : r ∉ h.detached.flatten := by
    intro hr
    obtain ⟨d, hd, hr⟩ := mem_flatten.mp hr
    exact holds.not_detached_of_handed hd mem_cons_self hr
  have out : r ∉ h.waiting := fun hr => fresh (l.holds.handedOut r hr)
  obtain ⟨f, hf⟩ : ∃ f : Channel η α → Channel η α, f = fun ch =>
      { ch with handler := p.handler, args := p.args, id := wireId p.packet.advance ch.id } :=
    ⟨_, rfl⟩
  have self : (pool.modify r f).channel r = f (pool.channel r) := update_self ..
  have other : ∀ x, x ∈ h.handed ∨ x ∈ h.detached.flatten →
      (pool.modify r f).channel x = c.pool.channel x := by
    intro x hx
    have ne : x ≠ r := by
      rintro rfl
      exact hx.elim fresh fresh'
    exact (update_of_ne ne ..).trans (same x hx)
  have callback_self : (pool.modify r f).callback r = (p.handler, p.args) := by
    rw [ChannelPool.callback, self, hf]
  have callback_other : ∀ xs : List ChannelRef, (∀ x ∈ xs, x ∈ h.handed ∨ x ∈ h.detached.flatten) →
      xs.map (pool.modify r f).callback = xs.map c.pool.callback := by
    intro xs hxs
    apply map_congr_left
    intro x hx
    rw [ChannelPool.callback, other x (hxs x hx)]
    rfl
  have accepted : c.accept p =
      { c with
        pool := pool.modify r f
        counter := tick c.counter
        outputQueue := OrderedPacketQueue.push c.outputQueue { p.packet with channel := some r }
        accepted := c.accepted ++ [(p.handler, p.args)]
        allocations := c.allocations + 1 } := by
    rw [Connection.accept, hpool, hf]
    simp only [first]
    rfl
  rw [accepted]
  refine ⟨_, update number r (c.allocations + 1), ⟨holds.modify out ?_, ?_, l.detached,
    ?_, ?_, ?_, ?_, ?_, ?_⟩, rfl, rfl⟩
  · rw [hf, new]
  · have pushed := ((OrderedPacketQueue.push_perm c.outputQueue
      { p.packet with channel := some r }).append_right flight).filterMap (·.channel)
    exact (l.owned.cons r).trans ((pushed.append_right h.waiting).append_right lost).symm
  · rintro x (hx | hx)
    · rcases mem_cons.mp hx with rfl | hx
      · change ((pool.modify x f).channel x).handler.isSome
        rw [self, hf]
        exact handler
      · change ((pool.modify r f).channel x).handler.isSome
        rw [other x (.inl hx)]
        exact l.handlers x (.inl hx)
    · change ((pool.modify r f).channel x).handler.isSome
      rw [other x (.inr (l.detached x hx))]
      exact l.handlers x (.inr hx)
  · intro x hx
    simp only [ChannelPool.getExpireTime, other x (.inl (l.holds.handedOut x hx))]
    exact l.expiry x hx
  · have others := callback_other (h.handed ++ calling) fun x hx =>
      (mem_append.mp hx).imp id (l.detached x)
    change (c.accepted ++ [(p.handler, p.args)]).Perm (c.invoked.map Prod.fst ++
      ((pool.modify r f).callback r :: (h.handed ++ calling).map (pool.modify r f).callback))
    rw [others, callback_self]
    exact (perm_append_singleton ..).trans ((l.accounted.cons _).trans perm_middle.symm)
  · change tick c.counter = tick^[c.allocations + 1] start
    rw [iterate_succ_apply', l.counter]
  · intro x hx
    change 1 ≤ update number r (c.allocations + 1) x ∧
      update number r (c.allocations + 1) x ≤ c.allocations + 1 ∧
      low ((pool.modify r f).channel x).id = low (tick^[_] start)
    rcases mem_cons.mp hx with rfl | hx
    · obtain ⟨id_low, tick_low⟩ := ChannelPool.createChannelId_low c.counter
      rw [update_self, self, hf, new, low_wireId, id_low, ← tick_low, l.counter,
        iterate_succ_apply']
      exact ⟨Nat.succ_pos _, le_rfl, rfl⟩
    · have ne : x ≠ r := fun e => fresh (e ▸ hx)
      obtain ⟨first, last, word⟩ := l.ids x hx
      rw [update_of_ne ne, other x (.inl hx)]
      exact ⟨first, Nat.le_succ_of_le last, word⟩
  · have old : ∀ x ∈ h.handed, update number r (c.allocations + 1) x = number x := by
      intro x hx
      have ne : x ≠ r := fun e => fresh (e ▸ hx)
      exact update_of_ne ne ..
    have newest : ∀ x ∈ h.handed, number x ≠ c.allocations + 1 := by
      intro x hx
      have := (l.ids x hx).2.1
      omega
    intro x hx y hy same
    rcases mem_cons.mp hx with rfl | hx'
    · rcases mem_cons.mp hy with rfl | hy'
      · rfl
      · rw [update_self, old y hy'] at same
        exact absurd same.symm (newest y hy')
    · rcases mem_cons.mp hy with rfl | hy'
      · rw [update_self, old x hx'] at same
        exact absurd same (newest x hx')
      · rw [old x hx', old y hy'] at same
        exact l.numbers x hx' y hy' same

omit l in
/-- One packet of those in flight, and the others. -/
theorem channels_cons (queue : List Outgoing) (packet : Outgoing) (flight : List Outgoing) :
    (channels (queue ++ packet :: flight)).Perm
      (packet.channel.toList ++ channels (queue ++ flight)) := by
  have front : (queue ++ packet :: flight).Perm (packet :: (queue ++ flight)) := perm_middle
  refine (front.filterMap _).trans ?_
  cases e : packet.channel <;> simp [channels, e]

omit l in
/-- The branch of `writeData` for a packet whose handler expects a reply. -/
theorem dequeue_eq {packet : Outgoing} (e : packet.channel = some r)
    (handler : (c.pool.channel r).handler.isSome) :
    c.dequeue packet =
      { c with
        output := c.output + packet.size
        pool := (c.pool.modify r fun ch =>
          { ch with expireTime := packet.expireTime, timeoutMs := packet.timeoutMs }).addToWaitingList
            r } := by
  have expects : ¬ (c.defaultPacketHandler.isNone ∧ (c.pool.channel r).handler.isNone) := by
    rintro ⟨-, nobody⟩
    rw [Option.isNone_iff_eq_none] at nobody
    simp [nobody] at handler
  simp only [Connection.dequeue, e, if_neg expects]

/-- What all other steps have in common: requests move from one place to another, and some
are completed. -/
theorem moves {pool : ChannelPool η α} {queue : List Outgoing}
    {invoked : List (Callback η α × Delivered)} {h' : Holdings} {flight' : List Outgoing}
    {lost' calling' : List ChannelRef} (holds : pool.Holds h')
    (same : ∀ x, (pool.channel x).handler = (c.pool.channel x).handler ∧
      (pool.channel x).args = (c.pool.channel x).args ∧ (pool.channel x).id = (c.pool.channel x).id)
    (handed : ∀ x ∈ h'.handed, x ∈ h.handed)
    (owned : h'.handed.Perm (channels (queue ++ flight') ++ h'.waiting ++ lost'))
    (sub : ∀ x ∈ calling', x ∈ h.handed ++ calling)
    (detached : ∀ r ∈ calling', r ∈ h'.detached.flatten)
    (expiry : ∀ r ∈ h'.waiting, 0 < pool.getExpireTime r ∧ pool.getExpireTime r ≤ PRE_MAX)
    (calls : (c.invoked.map Prod.fst ++ (h.handed ++ calling).map c.pool.callback).Perm
      (invoked.map Prod.fst ++ (h'.handed ++ calling').map c.pool.callback)) :
    { c with pool, outputQueue := queue, invoked }.Ledger start flight' lost'
      calling' h' number := by
  have callback : pool.callback = c.pool.callback := by
    funext x
    rw [ChannelPool.callback, ChannelPool.callback, (same x).1, (same x).2.1]
  refine ⟨holds, owned, detached, ?_, expiry, ?_, l.counter, ?_, ?_⟩
  · intro x hx
    change (pool.channel x).handler.isSome
    rw [(same x).1]
    exact l.handlers x (hx.elim (fun hx => .inl (handed x hx)) fun hx =>
      mem_append.mp (sub x hx))
  · change c.accepted.Perm (invoked.map Prod.fst ++ (h'.handed ++ calling').map pool.callback)
    rw [callback]
    exact l.accounted.trans calls
  · intro x hx
    change _ ∧ _ ∧ low (pool.channel x).id = _
    rw [(same x).2.2]
    exact l.ids x (handed x hx)
  · exact fun x hx y hy => l.numbers x (handed x hx) y (handed y hy)

/-- The packets in flight and those in the queue may change places. -/
theorem requeue {queue flight' : List Outgoing}
    (same : (queue ++ flight').Perm (c.outputQueue ++ flight)) :
    { c with outputQueue := queue }.Ledger start flight' lost calling h number := by
  refine l.moves l.holds (fun _ => ⟨rfl, rfl, rfl⟩) (fun _ hx => hx) ?_
    (fun x hx => mem_append_right _ hx) l.detached l.expiry (.refl _)
  exact l.owned.trans (((same.symm.filterMap _).append_right _).append_right _)

/-- The handler of a channel that is freed is called. -/
theorem complete (hr : r ∈ h.handed) {flight' : List Outgoing} {queue : List Outgoing}
    (owned : (h.handed.erase r).Perm (channels (queue ++ flight') ++ h.waiting.erase r ++ lost))
    (packet : Delivered) :
    { c with
      pool := (c.pool.freeChannel (some r)).2
      outputQueue := queue
      invoked := c.invoked ++ [(c.pool.callback r, packet)] }.Ledger start flight' lost calling
        (h.recycle r) number := by
  refine l.moves (l.holds.freeChannel hr (l.expire_nonneg hr)) ?_ ?_ owned ?_ l.detached ?_ ?_
  · intro x
    rw [ChannelPool.freeChannel_channel]
    exact ⟨rfl, rfl, rfl⟩
  · exact fun x hx => mem_of_mem_erase hx
  · exact fun x hx => mem_append_right _ hx
  · intro x hx
    rw [ChannelPool.getExpireTime, ChannelPool.freeChannel_channel]
    exact l.expiry x (mem_of_mem_erase hx)
  · have taken : (h.handed ++ calling).Perm (r :: (h.handed.erase r ++ calling)) :=
      (perm_cons_erase hr).append_right calling
    refine ((taken.map c.pool.callback).append_left _).trans ?_
    rw [map_append, append_assoc]
    exact .refl _

omit l in
/-- A packet is written. Its channel starts to wait, unless the packet has no expire time. -/
theorem dequeue {packet : Outgoing}
    (l : c.Ledger start (packet :: flight) lost calling h number)
    (few : c.allocations ≤ lowWords) :
    ∃ h', (c.dequeue packet).Ledger start flight
      (if packet.expireTime = 0 then packet.channel.toList ++ lost else lost) calling h' number ∧
      h'.detached = h.detached := by
  have split := channels_cons c.outputQueue packet flight
  have owned := l.owned.trans ((split.append_right h.waiting).append_right lost)
  cases e : packet.channel with
  | none =>
    rw [e] at owned
    have unlisted : (if packet.expireTime = 0 then (none : Option ChannelRef).toList ++ lost
        else lost) = lost := by
      split_ifs <;> rfl
    have written : c.dequeue packet = { c with output := c.output + packet.size } := by
      simp only [Connection.dequeue, e]
    rw [unlisted, written]
    exact ⟨h, { l with owned }, rfl⟩
  | some r =>
    rw [e] at split owned
    obtain ⟨hr, out⟩ := l.of_channel (split.mem_iff.mpr mem_cons_self)
    obtain ⟨f, hf⟩ : ∃ f : Channel η α → Channel η α, f = fun ch =>
        { ch with expireTime := packet.expireTime, timeoutMs := packet.timeoutMs } := ⟨_, rfl⟩
    have written := dequeue_eq e (l.handlers r (.inl hr))
    rw [← hf] at written
    have self : (c.pool.modify r f).channel r = f (c.pool.channel r) := update_self ..
    have other : ∀ x ≠ r, (c.pool.modify r f).channel x = c.pool.channel x := fun x ne =>
      update_of_ne ne ..
    have same : ∀ x, (((c.pool.modify r f).addToWaitingList r).channel x).handler =
          (c.pool.channel x).handler ∧
        (((c.pool.modify r f).addToWaitingList r).channel x).args = (c.pool.channel x).args ∧
        (((c.pool.modify r f).addToWaitingList r).channel x).id = (c.pool.channel x).id := by
      intro x
      rw [ChannelPool.addToWaitingList_channel]
      by_cases eq : x = r
      · subst eq
        rw [self, hf]
        exact ⟨rfl, rfl, rfl⟩
      · rw [other x eq]
        exact ⟨rfl, rfl, rfl⟩
    have expire_other : ∀ x ∈ h.waiting,
        ((c.pool.modify r f).addToWaitingList r).getExpireTime x = c.pool.getExpireTime x := by
      intro x hx
      have ne : x ≠ r := fun e => out (e ▸ hx)
      rw [ChannelPool.getExpireTime, ChannelPool.addToWaitingList_channel, other x ne]
      rfl
    rw [written]
    by_cases zero : packet.expireTime = 0
    · -- `addToWaitingList` returns at once, and nobody knows of the channel any more
      have unseen : (c.pool.modify r f).addToWaitingList r = c.pool.modify r f := by
        rw [ChannelPool.addToWaitingList, if_pos]
        rw [ChannelPool.getExpireTime, self, hf]
        exact zero
      have holds : ((c.pool.modify r f).addToWaitingList r).Holds h := by
        rw [unseen]
        exact l.holds.modify out (by rw [hf]; exact zero)
      have owned' : h.handed.Perm
          (channels (c.outputQueue ++ flight) ++ h.waiting ++ ([r] ++ lost)) :=
        owned.trans perm_middle.symm
      rw [if_pos zero]
      refine ⟨h, (l.moves holds same (fun _ hx => hx) owned' (fun x hx => mem_append_right _ hx)
        l.detached ?_ (.refl _)).congr rfl rfl rfl rfl rfl rfl, rfl⟩
      intro x hx
      rw [expire_other x hx]
      exact l.expiry x hx
    · have expires : (f (c.pool.channel r)).expireTime ≠ 0 := by
        rw [hf]
        exact zero
      have holds := l.holds.addToWaitingList (f := f) hr out (l.id_unused hr out few)
        (by rw [hf]) expires
      have waiting := (c.pool.modify r f).queued_perm r h.waiting
      have owned' : h.handed.Perm (channels (c.outputQueue ++ flight) ++
          (c.pool.modify r f).queued r h.waiting ++ lost) := by
        refine owned.trans (List.Perm.append_right lost ?_)
        exact perm_middle.symm.trans (waiting.symm.append_left _)
      rw [if_neg zero]
      refine ⟨_, (l.moves holds same (fun _ hx => hx) owned' (fun x hx => mem_append_right _ hx)
        l.detached ?_ (.refl _)).congr rfl rfl rfl rfl rfl rfl, rfl⟩
      intro x hx
      rcases ChannelPool.mem_queued.mp hx with rfl | hx
      · rw [ChannelPool.getExpireTime, ChannelPool.addToWaitingList_channel, self, hf]
        exact ⟨Int.lt_iff_le_and_ne.mpr ⟨packet.valid.1, Ne.symm zero⟩, packet.valid.2⟩
      · rw [expire_other x hx]
        exact l.expiry x hx

omit l in
/-- The channels that have expired are detached, with their handlers still to be called. -/
theorem detach (l : c.Ledger start flight lost [] h number) (now : Int) :
    { c with pool := (c.pool.getTimeoutList now).2 }.Ledger start flight lost
      (c.pool.expired now h.waiting)
      (h.detach (c.pool.expired now h.waiting) (c.pool.remaining now h.waiting)) number := by
  obtain ⟨-, holds, channel⟩ := l.holds.getTimeoutList now
  have whole : h.waiting = c.pool.expired now h.waiting ++ c.pool.remaining now h.waiting :=
    (takeWhile_append_dropWhile ..).symm
  have handed := l.holds.handed_perm whole
  refine l.moves holds ?_ (fun x hx => (mem_filter.mp hx).1) ?_ ?_ ?_ ?_ ?_
  · intro x
    rw [channel]
    exact ⟨rfl, rfl, rfl⟩
  · have owned : h.handed.Perm (channels (c.outputQueue ++ flight) ++
        (c.pool.expired now h.waiting ++ c.pool.remaining now h.waiting) ++ lost) := by
      rw [← whole]
      exact l.owned
    refine (perm_append_left_iff (c.pool.expired now h.waiting)).mp
      ((handed.symm.trans owned).trans ?_)
    rw [← append_assoc, ← append_assoc, ← append_assoc]
    exact (perm_append_comm.append_right _).append_right _
  · intro x hx
    rw [append_nil]
    exact l.holds.handed_of_passed whole x hx
  · intro x hx
    have some_passed : c.pool.expired now h.waiting ≠ [] := ne_nil_of_mem hx
    simp only [Holdings.detach, if_neg some_passed, flatten_cons]
    exact mem_append_left _ hx
  · intro x hx
    rw [ChannelPool.getExpireTime, channel]
    apply l.expiry
    rw [whole]
    exact mem_append_right _ hx
  · rw [append_nil]
    exact ((handed.trans perm_append_comm).map _).append_left _

omit l in
/-- The handler of a detached channel is called. -/
theorem callNext {rest : List ChannelRef}
    (l : c.Ledger start flight lost (r :: rest) h number) (packet : Delivered) :
    { c with invoked := c.invoked ++ [(c.pool.callback r, packet)] }.Ledger start flight lost rest
      h number := by
  refine l.moves l.holds (fun _ => ⟨rfl, rfl, rfl⟩) (fun _ hx => hx) l.owned ?_ ?_ l.expiry ?_
  · exact fun x hx => mem_append_right _ (mem_cons_of_mem r hx)
  · exact fun x hx => l.detached x (mem_cons_of_mem r hx)
  · have called : (c.invoked ++ [(c.pool.callback r, packet)]).map Prod.fst =
        c.invoked.map Prod.fst ++ [c.pool.callback r] := map_append ..
    rw [called, append_assoc]
    exact (perm_middle.map c.pool.callback).append_left _

omit l in
/-- The detached channels are given back once their handlers were called. -/
theorem giveBack {d : List ChannelRef} (l : c.Ledger start flight lost [] h number)
    (hd : d ∈ h.detached) :
    { c with pool := c.pool.appendFreeList d.head? }.Ledger start flight lost [] (h.giveBack d)
      number := by
  refine l.moves (l.holds.appendFreeList hd) ?_ (fun _ hx => hx) l.owned nofun
    nofun ?_ (.refl _)
  · intro x
    rw [ChannelPool.appendFreeList_channel]
    exact ⟨rfl, rfl, rfl⟩
  · intro x hx
    rw [ChannelPool.getExpireTime, ChannelPool.appendFreeList_channel]
    exact l.expiry x hx

end Ledger

end Connection

end AgentEngine.Anet
