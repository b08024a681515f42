import AgentEngine.Anet.ChannelOperations
import AgentEngine.Lib.Transitions
import Mathlib.Data.List.TakeWhile

/-!
The representation invariant of `ChannelPool`, along every sequence of calls.

`PoolUse` is a pool together with what its callers know: which channels they were handed,
which lists `getTimeoutList` gave them, and in which order they added channels to the waiting
list. A call is `Legal` if it keeps to the contract of the pool. The pool then stays
`Consistent` as long as no channel with a negative expire time is freed while it waits:
`addToWaitingList` lets such a channel in, and `freeChannel` takes it for one that does not
wait.
-/

namespace AgentEngine.Anet

open Lib List Function ChannelPool

namespace ChannelPool

variable {η α : Type}

variable (p : ChannelPool η α)

/-- The channels that are linked from a head on. -/
def listFrom (head : Option ChannelRef) : List ChannelRef :=
  (p.links.walk (fun _ => false) p.rounds head).1

def freeChannels : List ChannelRef := p.listFrom p.freeListHead

def waitingChannels : List ChannelRef := p.listFrom p.waitReplyHead

theorem listFrom_eq {p : ChannelPool η α} {before : Option ChannelRef} {xs : List ChannelRef}
    (span : p.links.Span before xs none) (short : xs.length < p.rounds) :
    p.listFrom xs.head? = xs := by
  rw [listFrom, span.walk_eq _ short]
  have all : ∀ ys : List ChannelRef, ys.takeWhile (fun _ => !false) = ys := by
    intro ys
    induction ys with
    | nil => rfl
    | cons y ys ih => exact congrArg (cons y) ih
  exact all xs

theorem Holds.waitingChannels_eq {p : ChannelPool η α} {h : Holdings} (hp : p.Holds h) :
    p.waitingChannels = h.waiting := by
  rw [waitingChannels, hp.waitReplyHead_eq]
  exact listFrom_eq hp.waitingList.span hp.waiting_lt_rounds

theorem Holds.freeChannels_eq {p : ChannelPool η α} {h : Holdings} (hp : p.Holds h) :
    p.freeChannels = h.free := by
  rw [freeChannels, hp.freeList.head]
  apply listFrom_eq hp.freeList.span
  apply hp.length_lt_rounds hp.freeList.nodup
  intro c hc
  exact mem_append_left _ (mem_append_left _ hc)

end ChannelPool

/-- A pool and what its callers did with it. `stamp` numbers the channels in the order in
which they were added to the waiting list. -/
structure PoolUse (η α : Type) where
  pool : ChannelPool η α := {}
  handed : List ChannelRef := []
  detached : List (List ChannelRef) := []
  stamp : ChannelRef → Nat := fun _ => 0
  clock : Nat := 0

/-- The calls of the pool. `counter` is the value that `_globalChannelId` has at the call, and
`setExpireTime` is called right before `addToWaitingList`. -/
inductive PoolCall where
  | allocChannel (chid counter : BitVec 64)
  | freeChannel (channel : Option ChannelRef)
  | findChannel (id : BitVec 64)
  | getTimeoutList (now : Int)
  | appendFreeList (list : Option ChannelRef)
  | addToWaitingList (channel : ChannelRef) (expireTime : Int)

namespace PoolUse

variable {η α : Type}

def step (u : PoolUse η α) : PoolCall → PoolUse η α
  | .allocChannel chid counter =>
      let (c, pool, _) := u.pool.allocChannel chid counter
      { u with pool, handed := c :: u.handed }
  | .freeChannel none => { u with pool := (u.pool.freeChannel none).2 }
  | .freeChannel (some c) =>
      { u with pool := (u.pool.freeChannel (some c)).2, handed := u.handed.erase c }
  | .findChannel _ => u
  | .getTimeoutList now =>
      let (list, pool) := u.pool.getTimeoutList now
      let passed := pool.listFrom list
      { u with
        pool
        handed := u.handed.filter (· ∉ passed)
        detached := if passed = [] then u.detached else passed :: u.detached }
  | .appendFreeList list =>
      { u with
        pool := u.pool.appendFreeList list
        detached := match u.detached.find? (fun d => d.head? = list) with
          | none => u.detached
          | some d => u.detached.erase d }
  | .addToWaitingList c expireTime =>
      { u with
        pool := (u.pool.setExpireTime c expireTime).addToWaitingList c
        stamp := Function.update u.stamp c u.clock
        clock := u.clock + 1 }

/-- The contract of the pool: only a channel that is handed out is freed or added to the
waiting list, and it is added once and under an id that no waiting channel has; only a list
that `getTimeoutList` gave is appended. -/
def Legal (u : PoolUse η α) : PoolCall → Prop
  | .freeChannel (some c) => c ∈ u.handed
  | .appendFreeList (some list) => ∃ d ∈ u.detached, d.head? = some list
  | .addToWaitingList c expireTime =>
      c ∈ u.handed ∧ c ∉ u.pool.waitingChannels ∧
        (expireTime ≠ 0 →
          ∀ x ∈ u.pool.waitingChannels, (u.pool.channel x).id ≠ (u.pool.channel c).id)
  | _ => True

/-- No channel is freed that has a negative expire time. -/
def Safe (u : PoolUse η α) : PoolCall → Prop
  | .freeChannel (some c) => 0 ≤ u.pool.getExpireTime c
  | _ => True

instance (u : PoolUse η α) : (call : PoolCall) → Decidable (u.Legal call)
  | .freeChannel (some c) => inferInstanceAs (Decidable (c ∈ u.handed))
  | .appendFreeList (some list) =>
      inferInstanceAs (Decidable (∃ d ∈ u.detached, d.head? = some list))
  | .addToWaitingList _ _ => inferInstanceAs (Decidable (_ ∧ _ ∧ (_ → _)))
  | .allocChannel _ _ | .freeChannel none | .findChannel _ | .getTimeoutList _
  | .appendFreeList none => .isTrue trivial

instance (u : PoolUse η α) : (call : PoolCall) → Decidable (u.Safe call)
  | .freeChannel (some c) => inferInstanceAs (Decidable (0 ≤ u.pool.getExpireTime c))
  | .allocChannel _ _ | .freeChannel none | .findChannel _ | .getTimeoutList _
  | .appendFreeList _ | .addToWaitingList _ _ => .isTrue trivial

/-- Waiting channels are in the order of their expire times and, if these are equal, in the
order in which they were added. -/
def Before (u : PoolUse η α) (a b : ChannelRef) : Prop :=
  u.pool.getExpireTime a < u.pool.getExpireTime b ∨
    u.pool.getExpireTime a = u.pool.getExpireTime b ∧ u.stamp a < u.stamp b

/-- The representation invariant. -/
structure Consistent (u : PoolUse η α) : Prop where
  freeList : u.pool.links.DList u.pool.freeListHead u.pool.freeListTail u.pool.freeChannels
  waitingList :
    u.pool.links.DList u.pool.waitReplyHead u.pool.waitReplyTail u.pool.waitingChannels
  nodup : (u.pool.freeChannels ++ u.pool.waitingChannels).Nodup
  order : u.pool.waitingChannels.Pairwise u.Before
  map : ∀ id c, u.pool.waitReplyMap id = some c ↔
    c ∈ u.pool.waitingChannels ∧ (u.pool.channel c).id = id
  useCount : u.pool.useCount = .ofNat 32 u.handed.length
  everyChannel : (u.pool.freeChannels ++ u.handed ++ u.detached.flatten).Perm
    (List.range (ChannelPool.CHANNEL_CLUSTER_SIZE * u.pool.clusters))

/-- What holds along every run: the pool represents what its callers know. -/
structure Inv (u : PoolUse η α) (free waiting : List ChannelRef) : Prop where
  holds : u.pool.Holds ⟨free, u.handed, waiting, u.detached⟩
  order : waiting.Pairwise u.Before
  stamps : ∀ c ∈ waiting, u.stamp c < u.clock

theorem Inv.consistent {u : PoolUse η α} {free waiting : List ChannelRef}
    (inv : u.Inv free waiting) : u.Consistent := by
  have hp := inv.holds
  have free_eq := hp.freeChannels_eq
  have waiting_eq := hp.waitingChannels_eq
  constructor
  · rw [free_eq]
    exact hp.freeList
  · rw [waiting_eq]
    exact hp.waitingList
  · rw [free_eq, waiting_eq]
    refine nodup_append.mpr ⟨hp.freeList.nodup, hp.waitingList.nodup, ?_⟩
    rintro c hc c' hc' rfl
    exact hp.not_waiting_of_free hc hc'
  · rw [waiting_eq]
    exact inv.order
  · rw [waiting_eq]
    exact hp.map
  · exact hp.useCount
  · rw [free_eq]
    exact hp.everyChannel

/-! ### One call -/

/-- The order does not change for channels that keep their expire times and stamps. -/
theorem order_congr {u u' : PoolUse η α} {waiting waiting' : List ChannelRef}
    (order : waiting.Pairwise u.Before) (sub : waiting'.Sublist waiting)
    (expire : ∀ c ∈ waiting', u'.pool.getExpireTime c = u.pool.getExpireTime c)
    (stamp : ∀ c ∈ waiting', u'.stamp c = u.stamp c) : waiting'.Pairwise u'.Before := by
  refine (order.sublist sub).imp_of_mem ?_
  intro a b ha hb before
  unfold Before at *
  rw [expire a ha, expire b hb, stamp a ha, stamp b hb]
  exact before

/-- Behind the waiting channels that expire no later, all others expire later. -/
theorem later_of_order {u : PoolUse η α} {waiting : List ChannelRef}
    (order : waiting.Pairwise u.Before) (e : Int) :
    ∀ x ∈ waiting.dropWhile (fun x => !decide (u.pool.getExpireTime x > e)),
      u.pool.getExpireTime x > e := by
  induction waiting with
  | nil => exact nofun
  | cons y ys ih =>
    obtain ⟨first, rest⟩ := pairwise_cons.mp order
    rw [dropWhile_cons]
    by_cases later : u.pool.getExpireTime y > e
    · simp only [later, decide_true, Bool.not_true, Bool.false_eq_true, if_false]
      intro x hx
      rcases mem_cons.mp hx with rfl | hx
      · exact later
      · rcases first x hx with before | ⟨before, -⟩
        · omega
        · omega
    · simp only [later, decide_false, Bool.not_false, if_true]
      exact ih rest

/-- A channel with the latest stamp is put in its place. -/
theorem order_queued {u : PoolUse η α} {waiting : List ChannelRef} {c : ChannelRef}
    (order : waiting.Pairwise u.Before) (newest : ∀ x ∈ waiting, u.stamp x < u.stamp c) :
    (u.pool.queued c waiting).Pairwise u.Before := by
  have whole := takeWhile_append_dropWhile
    (p := fun x => !decide (u.pool.getExpireTime x > u.pool.getExpireTime c)) (l := waiting)
  have later := later_of_order order (u.pool.getExpireTime c)
  have split := order
  rw [← whole] at split
  obtain ⟨front, back, across⟩ := pairwise_append.mp split
  refine pairwise_append.mpr ⟨front, pairwise_cons.mpr ⟨?_, back⟩, ?_⟩
  · exact fun x hx => .inl (later x hx)
  · intro x hx y hy
    rcases mem_cons.mp hy with rfl | hy
    · have sooner := mem_takeWhile_imp hx
      have le : u.pool.getExpireTime x ≤ u.pool.getExpireTime y := by simpa using sooner
      rcases Int.lt_or_eq_of_le le with lt | eq
      · exact .inl lt
      · exact .inr ⟨eq, newest x ((takeWhile_sublist _).mem hx)⟩
    · exact across x hx y hy

section Step

variable {u : PoolUse η α} {free waiting : List ChannelRef} (inv : u.Inv free waiting)

include inv

theorem inv_allocChannel (chid counter : BitVec 64) :
    ∃ free, (u.step (.allocChannel chid counter)).Inv free waiting := by
  obtain ⟨c, free', first, holds, -, same⟩ := inv.holds.allocChannel chid counter
  refine ⟨free', ?_, ?_, inv.stamps⟩
  · simp only [step, first]
    exact holds
  · refine order_congr inv.order (List.Sublist.refl _) ?_ fun _ _ => rfl
    intro x hx
    exact congrArg Channel.expireTime (same x (.inl (inv.holds.handedOut x hx)))

variable {c : ChannelRef}

theorem inv_freeChannel (hc : c ∈ u.handed) (safe : 0 ≤ u.pool.getExpireTime c) :
    (u.step (.freeChannel (some c))).Inv (free ++ [c]) (waiting.erase c) := by
  have holds := inv.holds.freeChannel hc safe
  refine ⟨holds, order_congr inv.order (erase_sublist ..) ?_ fun _ _ => rfl, ?_⟩
  · intro x _
    simp only [step, getExpireTime, freeChannel_channel]
  · intro x hx
    exact inv.stamps x (mem_of_mem_erase hx)

theorem inv_getTimeoutList (now : Int) :
    (u.step (.getTimeoutList now)).Inv free (u.pool.remaining now waiting) := by
  obtain ⟨first, holds, channel⟩ := inv.holds.getTimeoutList now
  have passed : (u.pool.getTimeoutList now).2.listFrom (u.pool.getTimeoutList now).1 =
      u.pool.expired now waiting := by
    rw [first]
    by_cases none_passed : u.pool.expired now waiting = []
    · rw [none_passed]
      exact listFrom_eq
        (show (u.pool.getTimeoutList now).2.links.Span none [] none from trivial) (Nat.succ_pos _)
    · have mem : u.pool.expired now waiting ∈
          (Holdings.detach ⟨free, u.handed, waiting, u.detached⟩ (u.pool.expired now waiting)
            (u.pool.remaining now waiting)).detached := by
        simp [Holdings.detach, none_passed]
      exact listFrom_eq (holds.detachedList _ mem).2 (holds.detached_lt_rounds mem)
  have sub : (u.pool.remaining now waiting).Sublist waiting := dropWhile_sublist _
  refine ⟨?_, order_congr inv.order sub ?_ fun _ _ => rfl, fun x hx => inv.stamps x (sub.mem hx)⟩
  · simp only [step, passed]
    exact holds
  · intro x _
    simp only [step, getExpireTime, channel]

theorem inv_appendFreeList {list : Option ChannelRef} (legal : u.Legal (.appendFreeList list)) :
    ∃ free, (u.step (.appendFreeList list)).Inv free waiting := by
  cases list with
  | none =>
    have nothing : u.detached.find? (fun d => d.head? = none) = none := by
      rw [find?_eq_none]
      intro d hd
      have := (inv.holds.detachedList d hd).1
      simpa using this
    refine ⟨free, ?_, inv.order, inv.stamps⟩
    simp only [step, nothing]
    exact inv.holds
  | some list =>
    cases found : u.detached.find? (fun d => d.head? = some list) with
    | none =>
      obtain ⟨d, hd, head⟩ := legal
      exact absurd (decide_eq_true head) (find?_eq_none.mp found d hd)
    | some d =>
      have head : d.head? = some list := by simpa using find?_some found
      have holds := inv.holds.appendFreeList (mem_of_find?_eq_some found)
      rw [head] at holds
      refine ⟨free ++ d, ?_, inv.order, inv.stamps⟩
      simp only [step, found]
      exact holds

theorem inv_addToWaitingList {e : Int} (legal : u.Legal (.addToWaitingList c e)) :
    ∃ waiting', (u.step (.addToWaitingList c e)).Inv free waiting' := by
  obtain ⟨hc, out, fresh⟩ := legal
  rw [inv.holds.waitingChannels_eq] at out fresh
  have other : ∀ x ∈ waiting, x ≠ c := fun x hx e => out (e ▸ hx)
  have expire_self : (u.pool.setExpireTime c e).getExpireTime c = e :=
    congrArg Channel.expireTime (update_self (f := u.pool.channel) ..)
  have expire_other : ∀ x ∈ waiting,
      (u.pool.setExpireTime c e).getExpireTime x = u.pool.getExpireTime x := fun x hx =>
    congrArg Channel.expireTime (update_of_ne (other x hx) ..)
  have stamp_self : update u.stamp c u.clock c = u.clock := update_self ..
  have stamp_other : ∀ x ∈ waiting, update u.stamp c u.clock x = u.stamp x := fun x hx =>
    update_of_ne (other x hx) ..
  have older : ∀ x ∈ waiting, update u.stamp c u.clock x < u.clock := fun x hx => by
    rw [stamp_other x hx]
    exact inv.stamps x hx
  by_cases expires : e = 0
  · have nothing : (u.pool.setExpireTime c e).addToWaitingList c = u.pool.setExpireTime c e := by
      rw [addToWaitingList, if_pos (expire_self.trans expires)]
    refine ⟨waiting, ?_, ?_, fun x hx => Nat.lt_succ_of_lt (older x hx)⟩
    · simp only [step, nothing]
      exact inv.holds.modify out expires
    · refine order_congr inv.order (List.Sublist.refl _) ?_ stamp_other
      simp only [step, nothing]
      exact expire_other
  · have unused : u.pool.findChannel (u.pool.channel c).id = none := by
      rw [Option.eq_none_iff_forall_ne_some]
      intro x found
      have found := inv.holds.findChannel_eq_some.mp found
      exact fresh expires x found.1 found.2
    have holds := inv.holds.addToWaitingList (f := fun ch => { ch with expireTime := e }) hc out
      unused rfl expires
    refine ⟨_, holds, ?_, ?_⟩
    · have queued := order_queued (c := c)
        (u := { u with
                pool := u.pool.setExpireTime c e, stamp := update u.stamp c u.clock })
        (order_congr inv.order (List.Sublist.refl _) expire_other stamp_other)
        (fun x hx => (older x hx).trans_eq stamp_self.symm)
      refine order_congr queued (List.Sublist.refl _) ?_ fun _ _ => rfl
      intro x _
      simp only [step, getExpireTime, addToWaitingList_channel]
    · intro x hx
      rcases mem_queued.mp hx with rfl | hx
      · exact stamp_self.trans_lt (Nat.lt_succ_self _)
      · exact Nat.lt_succ_of_lt (older x hx)

theorem inv_step {call : PoolCall} (legal : u.Legal call) (safe : u.Safe call) :
    ∃ free waiting, (u.step call).Inv free waiting := by
  cases call with
  | allocChannel chid counter =>
    obtain ⟨free', inv'⟩ := inv_allocChannel inv chid counter
    exact ⟨free', waiting, inv'⟩
  | freeChannel channel =>
    cases channel with
    | none => exact ⟨free, waiting, inv⟩
    | some c => exact ⟨_, _, inv_freeChannel inv legal safe⟩
  | findChannel id => exact ⟨free, waiting, inv⟩
  | getTimeoutList now => exact ⟨_, _, inv_getTimeoutList inv now⟩
  | appendFreeList list =>
    obtain ⟨free', inv'⟩ := inv_appendFreeList inv legal
    exact ⟨free', waiting, inv'⟩
  | addToWaitingList c e =>
    obtain ⟨waiting', inv'⟩ := inv_addToWaitingList inv legal
    exact ⟨free, waiting', inv'⟩

/-- A waiting channel with a negative expire time is put on the free list as it is: the map
still has it, and so it would have to be in both lists. -/
theorem not_consistent_of_negative (hc : c ∈ u.handed) (negative : u.pool.getExpireTime c < 0) :
    ¬ (u.step (.freeChannel (some c))).Consistent := by
  intro after
  have hp := inv.holds
  have waits : c ∈ waiting := (hp.expire c hc).mpr (Int.ne_of_lt negative)
  have kept : ¬ u.pool.getExpireTime c > 0 := Int.not_lt.mpr (Int.le_of_lt negative)
  have found : (u.step (.freeChannel (some c))).pool.waitReplyMap (u.pool.channel c).id = some c := by
    simp only [step, freeChannel, if_neg kept]
    exact (hp.map _ c).mpr ⟨waits, rfl⟩
  have clusters : (u.step (.freeChannel (some c))).pool.clusters = u.pool.clusters := by
    simp only [step, freeChannel, if_neg kept, recycleChannel]
  have some_place : c ∈ (u.step (.freeChannel (some c))).pool.freeChannels ++
      u.handed.erase c ++ u.detached.flatten := by
    refine after.everyChannel.mem_iff.mpr ?_
    rw [clusters, mem_range, ← hp.mem_all]
    exact mem_append_left _ (mem_append_right _ hc)
  have free : c ∈ (u.step (.freeChannel (some c))).pool.freeChannels := by
    rcases mem_append.mp some_place with place | detached
    · rcases mem_append.mp place with free | handed
      · exact free
      · exact absurd handed hp.handed_nodup.not_mem_erase
    · obtain ⟨d, hd, hx⟩ := mem_flatten.mp detached
      exact absurd hx (hp.not_detached_of_handed hd hc)
  exact (nodup_append.mp after.nodup).2.2 c free c ((after.map _ c).mp found).1 rfl

end Step

/-! ### All runs -/

theorem inv_start : ({} : PoolUse η α).Inv [] [] :=
  ⟨holds_new, List.Pairwise.nil, nofun⟩

/-- Along every run that keeps to the contract of the pool, the representation invariant holds
after every call if and only if no channel with a negative expire time was freed. -/
theorem consistent_iff_safe {calls : List PoolCall}
    (legal : Along step Legal ({} : PoolUse η α) calls) :
    (∀ pre, pre <+: calls → (pre.foldl step ({} : PoolUse η α)).Consistent) ↔
      Along step Safe ({} : PoolUse η α) calls := by
  apply along_iff fun u : PoolUse η α => ∃ free waiting, u.Inv free waiting
  · rintro u ⟨free, waiting, inv⟩
    exact inv.consistent
  · rintro u call ⟨free, waiting, inv⟩ legal safe
    exact inv_step inv legal safe
  · rintro u call ⟨free, waiting, inv⟩ legal violated
    match call with
    | .freeChannel (some c) =>
      exact not_consistent_of_negative inv legal (Int.not_le.mp violated)
    | .allocChannel .. | .freeChannel none | .findChannel _ | .getTimeoutList _
    | .appendFreeList _ | .addToWaitingList .. => exact absurd trivial violated
  · exact ⟨[], [], inv_start⟩
  · exact legal

/-- A channel that expired before time zero is given back, and one that waits is freed. -/
theorem consistent_iff_safe_sample :
    Along step Legal ({} : PoolUse Unit Unit) [.allocChannel 0 0, .allocChannel 0 1,
        .addToWaitingList 0 (-7), .addToWaitingList 1 5, .getTimeoutList 0,
        .appendFreeList (some 0), .freeChannel (some 1)] ∧
      ∀ pre, pre <+: [.allocChannel 0 0, .allocChannel 0 1, .addToWaitingList 0 (-7),
        .addToWaitingList 1 5, .getTimeoutList 0, .appendFreeList (some 0),
        .freeChannel (some 1)] →
      (pre.foldl step ({} : PoolUse Unit Unit)).Consistent := by
  constructor
  · decide
  · exact (consistent_iff_safe (by decide)).mpr (by decide)

/-- A channel that waits with expire time -1 is freed: it is then in both lists. -/
theorem negative_expire_in_both_lists : Along step Legal ({} : PoolUse Unit Unit)
        [.allocChannel 0 0, .addToWaitingList 0 (-1), .freeChannel (some 0)] ∧
      ¬ ([.allocChannel 0 0, .addToWaitingList 0 (-1), .freeChannel (some 0)].foldl step
        ({} : PoolUse Unit Unit)).Consistent := by
  refine ⟨by decide, ?_⟩
  intro consistent
  have waits := ((consistent.map 1 0).mp (by decide)).1
  have free : (0 : ChannelRef) ∈ ([.allocChannel 0 0, .addToWaitingList 0 (-1),
      .freeChannel (some 0)].foldl step ({} : PoolUse Unit Unit)).pool.freeChannels := by
    decide +kernel
  exact (nodup_append.mp consistent.nodup).2.2 0 free 0 waits rfl

end PoolUse

end AgentEngine.Anet
