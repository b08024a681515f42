import AgentEngine.Anet.ConnectionLedger

/-!
Every accepted request is completed exactly once, unless it is written without an expire time.

`Complete c` says that the handlers called so far and the requests still pending, in the
output queue or in the waiting list under their ids, are exactly the requests that
`postPacket` accepted.
-/

namespace AgentEngine.Anet

open Lib TimeUtil List Connection
open ChannelPool (low tick lowWords)

namespace Connection

variable {η α : Type}

/-! ### What is promised -/

/-- The requests that are not completed yet: their packets are in the output queue, or their
channels wait under their ids. -/
def pending (c : Connection η α) : List (Callback η α) :=
  (channels c.outputQueue ++ c.pool.waitingChannels.filter fun r =>
    c.pool.findChannel (c.pool.channel r).id = some r).map c.pool.callback

def Complete (c : Connection η α) : Prop :=
  (c.invoked.map Prod.fst ++ c.pending).Perm c.accepted

instance Complete.decidable [DecidableEq η] [DecidableEq α] (c : Connection η α) :
    Decidable c.Complete :=
  inferInstanceAs (Decidable (List.Perm _ _))

namespace Other

/-- The request has a handler. -/
def Legal : Other η α → Prop
  | .post p => p.handler.isSome
  | _ => True

/-- The request has an expire time, its own or that of the connection. -/
def Dated (queueTimeout : BitVec 32) : Other η α → Prop
  | .post p => p.packet.expireTime ≠ 0 ∨ queueTimeout ≠ 0
  | _ => True

end Other

variable (P : Other η α → Prop)

/-- `P` holds of all that other threads do in an event. -/
def Event.All : Event η α → Prop
  | .other o => P o
  | .writeData w =>
      (∀ n, ∀ o ∈ w.atPop n, P o) ∧ (∀ n, ∀ o ∈ w.atWrite n, P o) ∧ ∀ o ∈ w.atEnd, P o
  | .checkTimeout t _ | .closeHook t =>
      (∀ n, ∀ o ∈ t.atChannel n, P o) ∧ (∀ o ∈ t.atQueue, P o) ∧ ∀ n, ∀ o ∈ t.atPacket n, P o
  | .setQueueTimeout _ | .setQueueLimit _ | .handlePacket _ | .openHook => True

/-- Nobody else is around during these calls. -/
theorem Event.all_writeData (socket : Nat → Int × Int) :
    (Event.writeData { socket }).All P :=
  ⟨nofun, nofun, nofun⟩

theorem Event.all_closeHook : (Event.closeHook {}).All P :=
  ⟨nofun, nofun, nofun⟩

theorem setExpireTime_eq_zero (p : Outgoing) (milliseconds : BitVec 32) (now : Clock) :
    (p.setExpireTime milliseconds now).expireTime = 0 ↔ milliseconds = 0 := by
  have zero : milliseconds.toInt = 0 ↔ milliseconds = 0 := by
    rw [← BitVec.toInt_inj]
    rfl
  unfold Outgoing.setExpireTime
  split_ifs with negative none
  · refine ⟨(fun e => absurd (show PRE_MAX = 0 from e) (by decide)), fun e => ?_⟩
    rw [zero.mpr e] at negative
    exact absurd negative (by decide)
  · exact ⟨fun _ => zero.mp none, fun _ => rfl⟩
  · rw [← zero]
    dsimp only
    omega

section

variable (c : Connection η α)
include c

/-- When a packet has an expire time once it is posted. -/
theorem stamp_dated (p : Post η α) :
    (c.stamp p).packet.expireTime ≠ 0 ↔ (Other.post p).Dated c.queueTimeout := by
  unfold stamp Other.Dated
  split_ifs with unset
  · rw [Ne, setExpireTime_eq_zero]
    exact ⟨.inr, fun dated => dated.resolve_left (fun set => set unset)⟩
  · exact ⟨.inl, fun _ => unset⟩

theorem stamp_handler (p : Post η α) : (c.stamp p).handler = p.handler := by
  unfold stamp
  split_ifs <;> rfl

theorem dequeue_fields (packet : Outgoing) : c.dequeue packet =
      { c with output := (c.dequeue packet).output, pool := (c.dequeue packet).pool } := by
  unfold dequeue
  dsimp only
  split
  · rfl
  · split_ifs <;> rfl

theorem invoke_fields (handler : Option η) (args : Option α) (packet : Delivered) :
    c.invoke handler args packet =
      { c with invoked := (c.invoke handler args packet).invoked } := by
  unfold invoke
  dsimp only
  split_ifs <;> rfl

end

theorem invoke_eq {c : Connection η α} {handler : Option η} {args : Option α}
    {packet : Delivered} (h : handler.isSome) :
    c.invoke handler args packet =
      { c with invoked := c.invoked ++ [((handler, args), packet)] } := by
  obtain ⟨handler, rfl⟩ := Option.isSome_iff_exists.mp h
  rfl

/-! ### What holds at every point -/

/-- The ledger of a connection that has no request without an expire time, at a point where the
packets in `flight` and the channels in `calling` are in its hands. `Q` is about the waiting
channels and the detached lists. Once too many ids were given out, nothing is said. -/
structure Sound (c : Connection η α) (start : BitVec 64) (timeout : BitVec 32)
    (flight : List Outgoing) (lost calling : List ChannelRef)
    (Q : List ChannelRef → List (List ChannelRef) → Prop) : Prop where
  timeout : c.queueTimeout = timeout
  buffer : 0 < c.readWriteBufSize
  dated : ∀ p ∈ c.outputQueue ++ flight, p.expireTime ≠ 0
  blocked : ∀ p ∈ c.blocked, p.handler.isSome ∧ p.packet.expireTime ≠ 0
  ledger : lowWords < c.allocations ∨
    ∃ h number, c.Ledger start flight lost calling h number ∧ Q h.waiting h.detached

namespace Sound

variable {c c' : Connection η α} {start : BitVec 64} {timeout : BitVec 32}
  {flight : List Outgoing} {lost calling : List ChannelRef}
  {Q : List ChannelRef → List (List ChannelRef) → Prop}

/-- Only some fields of a connection matter here. -/
theorem congr (s : c.Sound start timeout flight lost calling Q) (pool : c'.pool = c.pool)
    (queue : c'.outputQueue = c.outputQueue) (accepted : c'.accepted = c.accepted)
    (invoked : c'.invoked = c.invoked) (counter : c'.counter = c.counter)
    (allocations : c'.allocations = c.allocations) (blocked : c'.blocked = c.blocked)
    (same : c'.queueTimeout = c.queueTimeout) (buffer : c'.readWriteBufSize = c.readWriteBufSize) :
    c'.Sound start timeout flight lost calling Q := by
  refine ⟨same.trans s.timeout, buffer ▸ s.buffer, queue ▸ s.dated, blocked ▸ s.blocked, ?_⟩
  refine s.ledger.imp (fun many => allocations ▸ many) ?_
  rintro ⟨h, number, l, q⟩
  exact ⟨h, number, l.congr pool queue accepted invoked counter allocations, q⟩

section Others

variable (s : c.Sound start timeout flight lost calling Q)

include s

variable {p : Post η α}

section

variable (handler : p.handler.isSome)
include handler

section

variable (dated : p.packet.expireTime ≠ 0)
include dated

theorem accept : (c.accept p).Sound start timeout flight lost calling Q := by
  have queue : ((c.accept p).outputQueue ++ flight).Perm
      ({ p.packet with channel := some (c.pool.allocChannel 0 c.counter).1 } ::
        (c.outputQueue ++ flight)) :=
    (OrderedPacketQueue.push_perm ..).append_right flight
  refine ⟨s.timeout, s.buffer, ?_, s.blocked, ?_⟩
  · intro p' hp
    rcases mem_cons.mp (queue.mem_iff.mp hp) with rfl | hp
    · exact dated
    · exact s.dated p' hp
  · refine s.ledger.imp (fun many => Nat.lt_succ_of_lt many) ?_
    rintro ⟨h, number, l, q⟩
    obtain ⟨h', number', l', waiting, detached⟩ := l.accept handler
    exact ⟨h', number', l', by rw [waiting, detached]; exact q⟩

theorem whenRoom : (c.whenRoom p).2.Sound start timeout flight lost calling Q := by
  unfold Connection.whenRoom
  split
  · refine ⟨s.timeout, s.buffer, s.dated, ?_, ?_⟩
    · intro p' hp
      rcases mem_append.mp hp with hp | hp
      · exact s.blocked p' hp
      · rw [mem_singleton.mp hp]
        exact ⟨handler, dated⟩
    · refine s.ledger.imp id ?_
      rintro ⟨h, number, l, q⟩
      exact ⟨h, number, l.congr rfl rfl rfl rfl rfl rfl, q⟩
  · split
    · exact s
    · exact s.accept handler dated

theorem enterQueue : (c.enterQueue p).2.Sound start timeout flight lost calling Q := by
  unfold Connection.enterQueue
  split
  · split
    · exact s
    · exact s.whenRoom handler dated
  · exact s.accept handler dated

end

theorem postPacket (dated : (Other.post p).Dated timeout) :
    (c.postPacket p).2.Sound start timeout flight lost calling Q := by
  have handler' : (c.stamp p).handler.isSome := by
    rw [stamp_handler]
    exact handler
  have dated' : (c.stamp p).packet.expireTime ≠ 0 := by
    rw [stamp_dated, s.timeout]
    exact dated
  unfold Connection.postPacket
  dsimp only
  split
  · exact s
  · split
    · exact s
    · apply enterQueue _ handler' dated'
      split
      · exact s.congr rfl rfl rfl rfl rfl rfl rfl rfl rfl
      · exact s

end

theorem act {o : Other η α} (legal : o.Legal) (dated : o.Dated timeout) :
    (c.act o).Sound start timeout flight lost calling Q := by
  cases o with
  | post p => exact s.postPacket legal dated
  | wakeUp k =>
    unfold Connection.act
    dsimp only
    split
    · exact s
    · rename_i p found
      have sub : ∀ p' ∈ c.blocked.eraseIdx k, p' ∈ c.blocked := fun p' hp =>
        (eraseIdx_sublist ..).mem hp
      have mem : p ∈ c.blocked := mem_of_getElem? found
      have woken : { c with blocked := c.blocked.eraseIdx k }.Sound start timeout flight lost
          calling Q := by
        refine ⟨s.timeout, s.buffer, s.dated, fun p' hp => s.blocked p' (sub p' hp), s.ledger.imp id ?_⟩
        rintro ⟨h, number, l, q⟩
        exact ⟨h, number, l.congr rfl rfl rfl rfl rfl rfl, q⟩
      exact woken.whenRoom (s.blocked p mem).1 (s.blocked p mem).2
  | allocChannelId =>
    refine { s with ledger := s.ledger.imp (fun many => Nat.lt_succ_of_lt many) ?_ }
    rintro ⟨h, number, l, q⟩
    refine ⟨h, number, { l with counter := ?_, ids := ?_ }, q⟩
    · change tick c.counter = tick^[c.allocations + 1] start
      rw [Function.iterate_succ_apply', l.counter]
    · intro r hr
      obtain ⟨first, last, word⟩ := l.ids r hr
      exact ⟨first, Nat.le_succ_of_le last, word⟩

theorem yield {others : List (Other η α)} (ok : ∀ o ∈ others, o.Legal ∧ o.Dated timeout) :
    (c.yield others).Sound start timeout flight lost calling Q := by
  induction others generalizing c with
  | nil => exact s
  | cons o others ih =>
    have first := ok o mem_cons_self
    exact ih (s.act first.1 first.2) fun o' ho => ok o' (mem_cons_of_mem o ho)

end Others

/-! ### Writing -/

/-- Nothing is detached between the calls of `checkTimeout`. -/
abbrev Idle (_ : List ChannelRef) (detached : List (List ChannelRef)) : Prop := detached = []

theorem dequeue {packet : Outgoing}
    (s : c.Sound start timeout (packet :: flight) lost calling Idle) :
    (c.dequeue packet).Sound start timeout flight lost calling Idle := by
  have dated : packet.expireTime ≠ 0 :=
    s.dated packet (mem_append_right _ mem_cons_self)
  have fields := c.dequeue_fields packet
  refine ⟨?_, ?_, ?_, ?_, ?_⟩
  · rw [fields]
    exact s.timeout
  · rw [fields]
    exact s.buffer
  · rw [fields]
    intro p hp
    rcases mem_append.mp hp with hp | hp
    · exact s.dated p (mem_append_left _ hp)
    · exact s.dated p (mem_append_right _ (mem_cons_of_mem packet hp))
  · rw [fields]
    exact s.blocked
  · by_cases few : c.allocations ≤ lowWords
    · rcases s.ledger with many | ⟨h, number, l, idle⟩
      · omega
      · obtain ⟨h', l', detached⟩ := l.dequeue few
        rw [if_neg dated] at l'
        exact .inr ⟨h', number, l', detached.trans idle⟩
    · left
      rw [fields]
      exact Nat.lt_of_not_le few

variable {Q' : List ChannelRef → List (List ChannelRef) → Prop}

/-- Requests move from one place to another. -/
theorem move {pool : ChannelPool η α} {queue flight' : List Outgoing}
    {invoked : List (Callback η α × Delivered)} {calling' : List ChannelRef}
    (s : c.Sound start timeout flight lost calling Q)
    (sub : ∀ p ∈ queue ++ flight', p ∈ c.outputQueue ++ flight)
    (moved : ∀ h number, c.Ledger start flight lost calling h number → Q h.waiting h.detached →
      ∃ h', { c with pool, outputQueue := queue, invoked }.Ledger start flight'
        lost calling' h' number ∧ Q' h'.waiting h'.detached) :
    { c with pool, outputQueue := queue, invoked }.Sound start timeout flight'
      lost calling' Q' := by
  refine ⟨s.timeout, s.buffer, fun p hp => s.dated p (sub p hp), s.blocked, s.ledger.imp id ?_⟩
  rintro ⟨h, number, l, q⟩
  obtain ⟨h', l', q'⟩ := moved h number l q
  exact ⟨h', number, l', q'⟩

section Write

variable {w : Writing η α} {myQueue : List Outgoing}

theorem fill (ok : ∀ n, ∀ o ∈ w.atPop n, o.Legal ∧ o.Dated timeout)
    (s : c.Sound start timeout myQueue lost calling Idle) :
    (Connection.fill w myQueue c).2.Sound start timeout (Connection.fill w myQueue c).1 lost calling
      Idle := by
  induction myQueue generalizing c with
  | nil => exact s
  | cons packet rest ih =>
    unfold fill
    split
    · exact ih (s.yield (ok _)).dequeue
    · exact s

theorem flush (ok : (∀ n, ∀ o ∈ w.atPop n, o.Legal ∧ o.Dated timeout) ∧
      ∀ n, ∀ o ∈ w.atWrite n, o.Legal ∧ o.Dated timeout) (rounds : Nat)
    (s : c.Sound start timeout myQueue lost calling Idle) :
    (Connection.flush w rounds myQueue c).2.2.Sound start timeout
      (Connection.flush w rounds myQueue c).2.1 lost calling Idle := by
  induction rounds generalizing c myQueue with
  | zero => exact s
  | succ rounds ih =>
    have filled := s.fill ok.1
    have waited := filled.yield (ok.2 rounds)
    unfold flush
    dsimp only
    split
    · exact filled
    · split
      · split
        · exact ih (waited.congr rfl rfl rfl rfl rfl rfl rfl rfl rfl)
        · exact waited.congr rfl rfl rfl rfl rfl rfl rfl rfl rfl
      · exact waited

/-- The packets in flight and those in the queue may change places. -/
theorem requeue {queue flight' : List Outgoing} (s : c.Sound start timeout flight lost calling Q)
    (same : (queue ++ flight').Perm (c.outputQueue ++ flight)) :
    { c with outputQueue := queue }.Sound start timeout flight' lost calling Q := by
  refine s.move (fun p hp => same.mem_iff.mp hp) ?_
  intro h number l q
  exact ⟨h, l.requeue same, q⟩

theorem written (error : Int) (s : c.Sound start timeout flight lost calling Q) :
    (c.written error).2.Sound start timeout flight lost calling Q := by
  unfold Connection.written
  split_ifs <;> first | exact s | exact s.congr rfl rfl rfl rfl rfl rfl rfl rfl rfl

/-- The end of `writeData`: what is left goes back into the queue. -/
theorem putBack (error : Int) (s : c.Sound start timeout myQueue lost calling Q) :
    ({ c with outputQueue := OrderedPacketQueue.moveBack c.outputQueue myQueue }.written
      error).2.Sound start timeout [] lost calling Q := by
  apply written
  apply s.requeue
  rw [append_nil]
  exact OrderedPacketQueue.moveBack_perm ..

theorem writeData (ok : (Event.writeData w).All fun o => o.Legal ∧ o.Dated timeout)
    (s : c.Sound start timeout [] lost [] Idle) :
    (Connection.writeData w c).2.Sound start timeout [] lost [] Idle := by
  have taken : { c with outputQueue := [] }.Sound start timeout
      (OrderedPacketQueue.moveBack [] c.outputQueue) lost [] Idle := by
    apply s.requeue
    rw [append_nil]
    exact OrderedPacketQueue.moveBack_perm [] c.outputQueue
  unfold Connection.writeData
  dsimp only
  split
  · rename_i nothing
    rw [eq_nil_of_length_eq_zero nothing.1] at taken
    exact taken
  · have begun : { c with outputQueue := [], lasttime := w.now.val }.Sound start timeout
        (OrderedPacketQueue.moveBack [] c.outputQueue) lost [] Idle :=
      taken.congr rfl rfl rfl rfl rfl rfl rfl rfl rfl
    have flushed := begun.flush ⟨ok.1, ok.2.1⟩ 10
    exact (flushed.yield ok.2.2).putBack _

end Write

/-! ### Completing requests -/

theorem mono (s : c.Sound start timeout flight lost calling Q) (imp : ∀ w ds, Q w ds → Q' w ds) :
    c.Sound start timeout flight lost calling Q' := by
  refine { s with ledger := s.ledger.imp id ?_ }
  rintro ⟨h, number, l, q⟩
  exact ⟨h, number, l, imp _ _ q⟩

theorem tooMany (s : c.Sound start timeout flight lost calling Q)
    (many : lowWords < c.allocations) :
    c.Sound start timeout flight lost calling fun _ _ => False :=
  { s with ledger := .inl many }

/-- Once too many ids were given out, the places do not matter. -/
theorem anywhere {lost' calling' : List ChannelRef}
    (s : c.Sound start timeout flight lost calling fun _ _ => False) :
    c.Sound start timeout flight lost' calling' Q := by
  refine { s with ledger := .inl ?_ }
  rcases s.ledger with many | ⟨h, number, l, never⟩
  · exact many
  · exact never.elim

/-- The handler of a channel is called when the channel is freed. -/
theorem complete {r : ChannelRef} {queue flight' : List Outgoing} (packet : Delivered)
    (s : c.Sound start timeout flight lost calling Q)
    (sub : ∀ p ∈ queue ++ flight', p ∈ c.outputQueue ++ flight)
    (free : ∀ h number, c.Ledger start flight lost calling h number → Q h.waiting h.detached →
      r ∈ h.handed ∧ Q' (h.waiting.erase r) h.detached ∧ (h.handed.erase r).Perm
        (channels (queue ++ flight') ++ h.waiting.erase r ++ lost)) :
    ({ c with pool := (c.pool.freeChannel (some r)).2, outputQueue := queue }.invoke
      (c.pool.channel r).handler (c.pool.channel r).args packet).Sound start timeout flight' lost
        calling Q' := by
  rw [invoke_fields]
  refine s.move sub ?_
  intro h number l q
  obtain ⟨hr, q', owned⟩ := free h number l q
  refine ⟨h.recycle r, ?_, q'⟩
  rw [invoke_eq (l.handlers r (.inl hr))]
  exact l.complete hr owned packet

theorem handlePacket (chid : BitVec 64) (s : c.Sound start timeout [] lost [] Idle) :
    (c.handlePacket chid).2.Sound start timeout [] lost [] Idle := by
  unfold Connection.handlePacket
  split
  · exact s
  · rename_i r found
    refine s.complete .reply (fun p hp => hp) ?_
    intro h number l idle
    have waits := (l.holds.findChannel_eq_some.mp found).1
    have out : r ∉ channels (c.outputQueue ++ []) := fun hr => (l.of_channel hr).2 waits
    refine ⟨l.holds.handedOut r waits, idle, ?_⟩
    have erased := l.owned.erase r
    rw [append_assoc, erase_append_right _ out, erase_append_left _ waits, ← append_assoc] at erased
    exact erased

section Check

variable {t : Checking η α} (cmdPacket : Delivered)

section

variable (ok : ∀ n, ∀ o ∈ t.atChannel n, o.Legal ∧ o.Dated timeout)
include ok

/-- The loop over detached channels, if nothing is known about them. -/
theorem callChannels_many (fuel : Nat)
    (channel : Option ChannelRef) (s : c.Sound start timeout flight lost calling fun _ _ => False) :
    (callChannels t cmdPacket fuel channel c).Sound start timeout flight lost calling
      fun _ _ => False := by
  induction fuel generalizing c channel with
  | zero => exact s
  | succ fuel ih =>
    cases channel with
    | none => exact s
    | some r =>
      apply ih
      apply yield _ (ok fuel)
      rw [invoke_fields]
      exact s.move (fun p hp => hp) fun _ _ _ never => never.elim

/-- The handlers of the detached channels are called one after the other. -/
theorem callChannels {fuel : Nat} (done : List ChannelRef) (enough : calling.length ≤ fuel)
    (here : ∀ w ds, Q w ds → calling ≠ [] → done ++ calling ∈ ds)
    (s : c.Sound start timeout flight lost calling Q) :
    (callChannels t cmdPacket fuel calling.head? c).Sound start timeout flight lost [] Q := by
  induction calling generalizing c fuel done with
  | nil =>
    cases fuel <;> exact s
  | cons r rest ih =>
    cases fuel with
    | zero => exact absurd enough (Nat.not_succ_le_zero _)
    | succ fuel =>
      have called : (c.invoke (c.pool.channel r).handler (c.pool.channel r).args cmdPacket).Sound
          start timeout flight lost rest Q := by
        rw [invoke_fields]
        refine s.move (fun p hp => hp) ?_
        intro h number l q
        rw [invoke_eq (l.handlers r (.inr mem_cons_self))]
        exact ⟨h, l.callNext cmdPacket, q⟩
      have yielded := called.yield (ok fuel)
      simp only [head?_cons, callChannels]
      rcases yielded.ledger with many | ⟨h, number, l, q⟩
      · exact (callChannels_many cmdPacket ok fuel _ (yielded.tooMany many)).anywhere
      · -- posting does not touch the links of the detached list
        have span := (l.holds.detachedList _ (here _ _ q (cons_ne_nil r rest))).2
        have next := (Links.Span.suffix span).2.1
        rw [Option.or_none] at next
        rw [next]
        refine ih (done ++ [r]) (Nat.le_of_succ_le_succ enough) ?_ yielded
        intro w ds q' _
        rw [append_assoc]
        exact here w ds q' (cons_ne_nil r rest)

theorem checkChannels_many (now : Int)
    (s : c.Sound start timeout flight lost calling fun _ _ => False) :
    (checkChannels t now cmdPacket c).Sound start timeout flight lost calling
      fun _ _ => False := by
  have detached : { c with pool := (c.pool.getTimeoutList now).2 }.Sound start timeout flight lost
      calling fun _ _ => False := s.move (fun p hp => hp) fun _ _ _ never => never.elim
  exact (callChannels_many cmdPacket ok _ _ detached).move (fun p hp => hp) fun _ _ _ never => never.elim

end

/-- Nothing is left waiting when the connection is closed. -/
theorem remaining_MAX {h : Holdings} {number : ChannelRef → Nat}
    (l : c.Ledger start flight lost calling h number) : c.pool.remaining MAX h.waiting = [] := by
  rw [ChannelPool.remaining, dropWhile_eq_nil_iff]
  intro r hr
  have positive := (l.expiry r hr).1
  have before : c.pool.getExpireTime r < MAX := Int.lt_of_le_of_lt (l.expiry r hr).2 (by decide)
  simp only [ChannelPool.notExpired, Bool.not_eq_true', Bool.or_eq_false_iff, beq_eq_false_iff_ne,
    decide_eq_false_iff_not]
  omega

/-- The detached list is given back to the pool. -/
theorem giveBack {passed rest : List ChannelRef}
    (s : c.Sound start timeout flight lost [] fun w ds =>
      w = rest ∧ ds = if passed = [] then [] else [passed]) :
    { c with pool := c.pool.appendFreeList passed.head? }.Sound start timeout flight lost []
      fun w ds => w = rest ∧ ds = [] := by
  refine s.move (fun p hp => hp) ?_
  rintro h number l ⟨waiting, detached⟩
  cases passed with
  | nil => exact ⟨h, l.congr rfl rfl rfl rfl rfl rfl, waiting, detached⟩
  | cons r rs =>
    rw [if_neg (cons_ne_nil r rs)] at detached
    have mem : r :: rs ∈ h.detached := by
      rw [detached]
      exact mem_singleton_self _
    refine ⟨h.giveBack (r :: rs), l.giveBack mem, waiting, ?_⟩
    rw [Holdings.giveBack, detached, erase_cons_head]

theorem checkChannels (ok : ∀ n, ∀ o ∈ t.atChannel n, o.Legal ∧ o.Dated timeout) (now : Int)
    (s : c.Sound start timeout flight lost [] Idle) :
    (checkChannels t now cmdPacket c).Sound start timeout flight lost []
      fun w ds => ds = [] ∧ (now = MAX → w = []) := by
  rcases s.ledger with many | ⟨h, number, l, idle⟩
  · exact (checkChannels_many cmdPacket ok now (s.tooMany many)).anywhere
  · obtain ⟨first, holds, -⟩ := l.holds.getTimeoutList now
    obtain ⟨passed, hpassed⟩ : ∃ xs, xs = c.pool.expired now h.waiting := ⟨_, rfl⟩
    have ds : (h.detach (c.pool.expired now h.waiting) (c.pool.remaining now h.waiting)).detached =
        if passed = [] then [] else [passed] := by
      rw [Holdings.detach, idle, hpassed]
    have detached : { c with pool := (c.pool.getTimeoutList now).2 }.Sound start timeout flight
        lost passed fun w ds => w = c.pool.remaining now h.waiting ∧
          ds = if passed = [] then [] else [passed] :=
      { s with ledger := .inr ⟨_, number, hpassed ▸ l.detach now, rfl, ds⟩ }
    have enough : passed.length ≤ (c.pool.getTimeoutList now).2.rounds := by
      by_cases none_passed : passed = []
      · rw [none_passed]
        exact Nat.zero_le _
      · have mem : passed ∈ (h.detach (c.pool.expired now h.waiting)
            (c.pool.remaining now h.waiting)).detached := by
          rw [ds, if_neg none_passed]
          exact mem_singleton_self passed
        exact le_of_lt (holds.detached_lt_rounds mem)
    have called := detached.callChannels cmdPacket ok [] enough (by
      rintro w ds ⟨-, rfl⟩ some_passed
      rw [if_neg some_passed]
      exact mem_singleton_self passed)
    unfold Connection.checkChannels
    dsimp only
    rw [first, ← hpassed]
    refine called.giveBack.mono ?_
    rintro w ds ⟨rfl, rfl⟩
    exact ⟨rfl, fun e => e ▸ remaining_MAX l⟩

section

variable (ok : ∀ n, ∀ o ∈ t.atPacket n, o.Legal ∧ o.Dated timeout)
include ok

/-- The handlers of packets that were taken out of the queue are called. -/
theorem callPackets {packets : List Outgoing} (s : c.Sound start timeout packets lost calling Q) :
    (callPackets t cmdPacket packets c).Sound start timeout [] lost calling Q := by
  induction packets generalizing c with
  | nil => exact s
  | cons packet rest ih =>
    have sub : ∀ p ∈ c.outputQueue ++ rest, p ∈ c.outputQueue ++ packet :: rest := by
      intro p hp
      exact (mem_append.mp hp).elim (mem_append_left _) fun hp =>
        mem_append_right _ (mem_cons_of_mem packet hp)
    unfold callPackets
    apply ih
    have split := Ledger.channels_cons c.outputQueue packet rest
    cases e : packet.channel with
    | none =>
      rw [e] at split
      refine s.move sub ?_
      intro h number l q
      refine ⟨h, l.moves l.holds (fun _ => ⟨rfl, rfl, rfl⟩) (fun _ hx => hx) ?_
        (fun x hx => mem_append_right _ hx) l.detached l.expiry (.refl _), q⟩
      exact l.owned.trans ((split.append_right h.waiting).append_right lost)
    | some r =>
      rw [e] at split
      refine yield (s.complete cmdPacket sub ?_) (ok _)
      intro h number l q
      obtain ⟨hr, out⟩ := l.of_channel (split.mem_iff.mpr mem_cons_self)
      have owned := (l.owned.trans ((split.append_right h.waiting).append_right lost)).erase r
      rw [erase_of_not_mem out]
      refine ⟨hr, q, owned.trans (.of_eq ?_)⟩
      exact erase_cons_head ..

theorem checkQueue (now : Int) (s : c.Sound start timeout [] lost calling Q) :
    (checkQueue t now cmdPacket c).Sound start timeout [] lost calling Q := by
  apply callPackets cmdPacket ok
  apply s.requeue
  rw [append_nil]
  refine perm_append_comm.trans (.of_eq ?_)
  exact takeWhile_append_dropWhile ..

end

theorem checkTimeout (now : Int)
    (ok : (Event.checkTimeout t now).All fun o => o.Legal ∧ o.Dated timeout)
    (s : c.Sound start timeout [] lost [] Idle) :
    (checkTimeout t now c).Sound start timeout [] lost []
      fun w ds => ds = [] ∧ (now = MAX → w = []) :=
  checkQueue _ ok.2.2 now ((s.checkChannels _ ok.1 now).yield ok.2.1)

end Check

/-- Every event keeps the ledger. -/
theorem step {e : Event η α} (ok : e.All fun o => o.Legal ∧ o.Dated timeout)
    (s : c.Sound start timeout [] lost [] Idle) :
    (c.step e).Sound start (c.step e).queueTimeout [] lost [] Idle := by
  have same : ∀ {c' : Connection η α}, c'.Sound start timeout [] lost [] Idle →
      c'.Sound start c'.queueTimeout [] lost [] Idle := by
    intro c' s'
    rw [s'.timeout]
    exact s'
  cases e with
  | other o => exact same (s.act ok.1 ok.2)
  | setQueueTimeout queueTimeout => exact ⟨rfl, s.buffer, s.dated, s.blocked, s.ledger.imp id fun
      ⟨h, number, l, q⟩ => ⟨h, number, l.congr rfl rfl rfl rfl rfl rfl, q⟩⟩
  | setQueueLimit limit | openHook => exact same (s.congr rfl rfl rfl rfl rfl rfl rfl rfl rfl)
  | writeData w => exact same (s.writeData ok)
  | handlePacket chid => exact same (s.handlePacket chid)
  | checkTimeout t now => exact same ((s.checkTimeout now ok).mono fun _ _ q => q.1)
  | closeHook t =>
    have closed : { c with closed := true }.Sound start timeout [] lost [] Idle :=
      s.congr rfl rfl rfl rfl rfl rfl rfl rfl rfl
    exact same ((closed.checkTimeout MAX ok).mono fun _ _ q => q.1)

/-- A connection keeps its promise as long as nothing was lost. -/
theorem complete_iff (s : c.Sound start timeout [] lost [] Idle)
    (few : c.allocations ≤ lowWords) : c.Complete ↔ lost = [] := by
  rcases s.ledger with many | ⟨h, number, l, -⟩
  · omega
  have listed : h.waiting.filter (fun r => c.pool.findChannel (c.pool.channel r).id = some r) =
      h.waiting := by
    rw [filter_eq_self]
    intro r hr
    exact decide_eq_true (l.holds.findChannel_eq_some.mpr ⟨hr, rfl⟩)
  have pending : c.pending = (channels c.outputQueue ++ h.waiting).map c.pool.callback := by
    rw [pending, l.holds.waitingChannels_eq, listed]
  have accepted : c.accepted.Perm
      (c.invoked.map Prod.fst ++ c.pending ++ lost.map c.pool.callback) := by
    have owned := l.owned
    rw [append_nil] at owned
    have accounted := l.accounted
    rw [append_nil] at accounted
    rw [pending, append_assoc, ← map_append]
    exact accounted.trans ((owned.map _).append_left _)
  constructor
  · intro complete
    have same := (complete.trans accepted).length_eq
    simp only [length_append, length_map] at same
    exact eq_nil_of_length_eq_zero (by omega)
  · rintro rfl
    rw [map_nil, append_nil] at accepted
    exact accepted.symm

end Sound

end Connection

end AgentEngine.Anet
