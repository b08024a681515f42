import AgentEngine.Anet.ConnectionCompletion

/-!
Whole runs of a connection: closing it completes all requests that are left, and a request
that is posted without any expire time is lost when its packet is written.
-/

namespace AgentEngine.Anet

open Lib TimeUtil
open ChannelPool (lowWords)

namespace Connection

variable {η α : Type}

/-! ### Closing -/

section

variable (c : Connection η α)
include c

theorem whenRoom_closed (p : Post η α) : (c.whenRoom p).2.closed = c.closed ∧
      (c.closed = true → (c.whenRoom p).2.outputQueue = c.outputQueue) := by
  unfold whenRoom
  split
  · exact ⟨rfl, fun _ => rfl⟩
  · split
    · exact ⟨rfl, fun _ => rfl⟩
    · rename_i opened
      exact ⟨rfl, fun closed => absurd closed opened⟩

theorem enterQueue_closed (p : Post η α) : (c.enterQueue p).2.closed = c.closed := by
  unfold enterQueue
  split
  · split
    · rfl
    · exact (whenRoom_closed c p).1
  · rfl

theorem postPacket_closed (p : Post η α) : (c.postPacket p).2.closed = c.closed ∧
      (c.closed = true → (c.postPacket p).2.outputQueue = c.outputQueue) := by
  unfold postPacket
  dsimp only
  split
  · exact ⟨rfl, fun _ => rfl⟩
  · rename_i opened
    refine ⟨?_, fun closed => absurd closed opened⟩
    split
    · rfl
    · refine (enterQueue_closed _ _).trans ?_
      split <;> rfl

/-- Other threads do not close the connection, and they cannot post once it is closed. -/
theorem act_closed (o : Other η α) : (c.act o).closed = c.closed ∧
    (c.closed = true → (c.act o).outputQueue = c.outputQueue) := by
  cases o with
  | post p => exact postPacket_closed c p
  | wakeUp k =>
    unfold act
    dsimp only
    split
    · exact ⟨rfl, fun _ => rfl⟩
    · exact whenRoom_closed _ _
  | allocChannelId => exact ⟨rfl, fun _ => rfl⟩

theorem yield_closed (others : List (Other η α)) : (c.yield others).closed = c.closed ∧
      (c.closed = true → (c.yield others).outputQueue = c.outputQueue) := by
  induction others generalizing c with
  | nil => exact ⟨rfl, fun _ => rfl⟩
  | cons o others ih =>
    obtain ⟨closed, queue⟩ := act_closed c o
    obtain ⟨closed', queue'⟩ := ih (c.act o)
    exact ⟨closed'.trans closed, fun h => (queue' (closed.trans h)).trans (queue h)⟩

end

variable (t : Checking η α)

theorem callChannels_closed (cmdPacket : Delivered) (fuel : Nat)
    (channel : Option ChannelRef) (c : Connection η α) :
    (callChannels t cmdPacket fuel channel c).closed = c.closed := by
  induction fuel generalizing c channel with
  | zero => rfl
  | succ fuel ih =>
    cases channel with
    | none => rfl
    | some r =>
      refine (ih _ _).trans ((yield_closed _ _).1.trans ?_)
      rw [invoke_fields]

theorem callPackets_closed (cmdPacket : Delivered) (packets : List Outgoing)
    {c : Connection η α} (closed : c.closed = true) :
    (callPackets t cmdPacket packets c).outputQueue = c.outputQueue := by
  induction packets generalizing c with
  | nil => rfl
  | cons packet rest ih =>
    unfold callPackets
    cases e : packet.channel with
    | none => exact ih closed
    | some r =>
      have invoked := ({ c with pool := (c.pool.freeChannel (some r)).2 } :
        Connection η α).invoke_fields (c.pool.channel r).handler (c.pool.channel r).args cmdPacket
      have same : (({ c with pool := (c.pool.freeChannel (some r)).2 } : Connection η α).invoke
          (c.pool.channel r).handler (c.pool.channel r).args cmdPacket).closed = true := by
        rw [invoked]
        exact closed
      obtain ⟨closed', queue⟩ := yield_closed _ (t.atPacket rest.length)
      refine (ih (closed'.trans same)).trans ((queue same).trans ?_)
      rw [invoked]

/-- No packet is left in the queue of a connection that was closed. -/
theorem closeHook_outputQueue (c : Connection η α) : (closeHook t c).outputQueue = [] := by
  unfold closeHook checkTimeout checkQueue
  dsimp only
  rw [callPackets_closed]
  · apply List.dropWhile_eq_nil_iff.mpr
    intro p _
    exact decide_eq_true (Int.lt_of_le_of_lt p.valid.2 (by decide))
  · refine (yield_closed _ _).1.trans ?_
    unfold checkChannels
    exact callChannels_closed ..

theorem closeHook_pending {c : Connection η α} {start : BitVec 64} {timeout : BitVec 32}
    {t : Checking η α} (ok : (Event.closeHook t).All fun o => o.Legal ∧ o.Dated timeout)
    (s : c.Sound start timeout [] [] [] Sound.Idle)
    (few : (closeHook t c).allocations ≤ lowWords) : (closeHook t c).pending = [] := by
  have closed : { c with closed := true }.Sound start timeout [] [] [] Sound.Idle :=
    s.congr rfl rfl rfl rfl rfl rfl rfl rfl rfl
  have after := closed.checkTimeout MAX ok
  rcases after.ledger with many | ⟨h, number, l, -, waiting⟩
  · exact absurd few (not_le.mpr many)
  · rw [pending, closeHook_outputQueue, closeHook, l.holds.waitingChannels_eq, waiting rfl]
    rfl

/-! ### Losing a request -/

/-- `writeData` again and again, with nobody else around; only the results of the socket
differ. -/
def writes (c : Connection η α) (sockets : List (Nat → Int × Int)) : Connection η α :=
  sockets.foldl (fun c socket => (writeData { socket } c).2) c

section Quiet

variable {c : Connection η α} (socket : Nat → Int × Int)

theorem fill_allocations (myQueue : List Outgoing) :
    (fill { socket } myQueue c).2.allocations = c.allocations := by
  induction myQueue generalizing c with
  | nil => rfl
  | cons packet rest ih =>
    unfold fill
    split
    · refine ih.trans ?_
      rw [dequeue_fields]
      rfl
    · rfl

theorem flush_allocations (rounds : Nat) (myQueue : List Outgoing) :
    (flush { socket } rounds myQueue c).2.2.allocations = c.allocations := by
  induction rounds generalizing c myQueue with
  | zero => rfl
  | succ rounds ih =>
    have filled := fill_allocations (c := c) socket myQueue
    unfold flush
    dsimp only
    split
    · exact filled
    · split
      · split
        · exact (ih _).trans filled
        · exact filled
      · exact filled

theorem writeData_allocations :
    (writeData { socket } c).2.allocations = c.allocations := by
  unfold writeData
  dsimp only
  split
  · rfl
  · refine Eq.trans ?_ (flush_allocations (c := { c with outputQueue := [], lasttime := 0 }) socket
      10 (OrderedPacketQueue.moveBack [] c.outputQueue))
    unfold written
    split_ifs <;> rfl

theorem writes_allocations (sockets : List (Nat → Int × Int)) :
    (c.writes sockets).allocations = c.allocations := by
  induction sockets generalizing c with
  | nil => rfl
  | cons socket sockets ih => exact ih.trans (writeData_allocations socket)

end Quiet

/-- Where the queue is not held, nobody else does anything in a quiet call. -/
theorem fill_quiet {c : Connection η α} (socket : Nat → Int × Int) {packet : Outgoing}
    {rest : List Outgoing} (room : c.output < c.readWriteBufSize) :
    fill { socket } (packet :: rest) c =
      fill { socket } rest (c.dequeue packet) := by
  rw [fill, if_pos room]
  rfl

/-- A quiet call that gets rid of the old output takes the first packet. -/
theorem flush_first {c : Connection η α} (size : 0 < c.readWriteBufSize) (packet : Outgoing)
    (rest : List Outgoing) (rounds : Nat) :
    ∃ n c', (c' = c ∨ c' = { c with output := 0 }) ∧
      flush { socket := fun _ => (c.output, 0) } (rounds + 2) (packet :: rest) c =
        flush { socket := fun _ => (c.output, 0) } n rest (c'.dequeue packet) := by
  by_cases room : c.output < c.readWriteBufSize
  · refine ⟨rounds + 2, c, .inl rfl, ?_⟩
    simp only [flush, fill_quiet _ room]
  · refine ⟨rounds + 1, { c with output := 0 }, .inr rfl, ?_⟩
    have some_output : c.output ≠ 0 := by omega
    have sent : (c.output : Int) > 0 := by omega
    have filled : fill { socket := fun _ => ((c.output : Int), 0) } (packet :: rest) c =
        (packet :: rest, c) := by
      rw [fill, if_neg room]
    have emptied : c.output - ((c.output : Int)).toNat = 0 := by
      rw [Int.toNat_natCast, Nat.sub_self]
    have again : flush { socket := fun _ => ((c.output : Int), 0) } (rounds + 2) (packet :: rest) c =
        flush { socket := fun _ => ((c.output : Int), 0) } (rounds + 1) (packet :: rest)
          { c with output := 0 } := by
      rw [flush, filled]
      simp only [if_neg some_output, if_pos sent, yield, List.foldl_nil, emptied,
        List.length_cons, Nat.succ_pos, gt_iff_lt, and_self, if_true]
    rw [again]
    have room' : ({ c with output := 0 } : Connection η α).output <
        ({ c with output := 0 } : Connection η α).readWriteBufSize := size
    simp only [flush, fill_quiet _ room']

/-- A packet without an expire time overtakes all those that have one. -/
theorem push_undated {queue : List Outgoing} {packet : Outgoing}
    (dated : ∀ p ∈ queue, p.expireTime ≠ 0) (undated : packet.expireTime = 0) :
    OrderedPacketQueue.push queue packet = packet :: queue := by
  have positive : ∀ p ∈ queue, packet.expireTime < p.expireTime := by
    intro p hp
    rw [undated]
    exact Int.lt_iff_le_and_ne.mpr ⟨p.valid.1, (dated p hp).symm⟩
  unfold OrderedPacketQueue.push
  split
  · rename_i head tail first last
    rw [if_neg (Int.not_le.mpr (positive tail (List.mem_of_getLast? last))),
      if_pos (positive head (List.mem_of_head? first))]
  · rename_i h
    cases queue with
    | nil => rfl
    | cons p ps => exact absurd (List.getLast?_eq_some_getLast (List.cons_ne_nil p ps)) (h p _ rfl)

variable {p : Post η α}

theorem enterQueue_accepted {c : Connection η α}
    (accepted : (c.enterQueue p).1 = some true) : (c.enterQueue p).2 = c.accept p := by
  unfold enterQueue whenRoom at accepted ⊢
  split_ifs at accepted ⊢ <;> first | rfl | simp at accepted

theorem postPacket_accepted {c : Connection η α} (accepted : (c.postPacket p).1 = some true) :
    ∃ lasttime, (c.postPacket p).2 = { c with lasttime }.accept (c.stamp p) := by
  unfold postPacket at accepted ⊢
  dsimp only at accepted ⊢
  split at accepted
  · simp at accepted
  · rename_i opened
    rw [if_neg opened]
    split at accepted
    · simp at accepted
    · rename_i recent
      rw [if_neg recent]
      have entered := enterQueue_accepted accepted
      split at entered
      · rename_i empty
        refine ⟨(c.stamp p).now.val, ?_⟩
        rw [if_pos empty]
        exact entered
      · rename_i some_queue
        refine ⟨c.lasttime, ?_⟩
        rw [if_neg some_queue]
        exact entered

namespace Sound

variable {c : Connection η α} {start : BitVec 64} {timeout : BitVec 32}

theorem writes {lost : List ChannelRef} (s : c.Sound start timeout [] lost [] Idle)
    (sockets : List (Nat → Int × Int)) :
    (c.writes sockets).Sound start timeout [] lost [] Idle := by
  induction sockets generalizing c with
  | nil => exact s
  | cons socket sockets ih =>
    exact ih (s.writeData (Event.all_writeData _ socket))

/-- A packet without an expire time is written. -/
theorem lose {packet : Outgoing} {rest : List Outgoing} {h : Holdings} {number : ChannelRef → Nat}
    {r : ChannelRef} (l : c.Ledger start (packet :: rest) [] [] h number) (idle : h.detached = [])
    (channel : packet.channel = some r) (undated : packet.expireTime = 0)
    (few : c.allocations ≤ lowWords) (same : c.queueTimeout = timeout)
    (buffer : 0 < c.readWriteBufSize)
    (dated : ∀ p ∈ c.outputQueue ++ rest, p.expireTime ≠ 0)
    (blocked : ∀ p ∈ c.blocked, p.handler.isSome ∧ p.packet.expireTime ≠ 0) :
    (c.dequeue packet).Sound start timeout rest [r] [] Idle := by
  obtain ⟨h', l', detached⟩ := l.dequeue few
  rw [if_pos undated, channel] at l'
  rw [dequeue_fields] at l' ⊢
  exact ⟨same, buffer, dated, blocked, .inr ⟨h', number, l', detached.trans idle⟩⟩

/-- A quiet call that gets rid of the old output writes the first packet. -/
theorem writeData_first {packet : Outgoing} {rest : List Outgoing} {lost : List ChannelRef}
    (size : 0 < c.readWriteBufSize) (queue : c.outputQueue = packet :: rest)
    (first : ∀ output, ({ c with outputQueue := [], lasttime := 0, output }.dequeue
      packet).Sound start timeout rest lost [] Idle) :
    (Connection.writeData { socket := fun _ => (c.output, 0) } c).2.Sound start timeout [] lost []
      Idle := by
  have moved : OrderedPacketQueue.moveBack [] c.outputQueue = packet :: rest := by
    rw [queue]
    rfl
  have flushed : ∀ c' : Connection η α, c' = { c with outputQueue := [], lasttime := 0 } →
      (Connection.flush { socket := fun _ => (c'.output, 0) } 10 (packet :: rest) c').2.2.Sound
        start timeout
        (Connection.flush { socket := fun _ => (c'.output, 0) } 10 (packet :: rest) c').2.1 lost []
        Idle := by
    rintro c' rfl
    obtain ⟨n, c', old, flushed⟩ := flush_first
      (c := { c with outputQueue := [], lasttime := 0 }) size packet rest 8
    rw [flushed]
    have quiet := Event.all_writeData (fun o : Other η α => o.Legal ∧ o.Dated timeout)
      fun _ => (c.output, 0)
    apply flush ⟨quiet.1, quiet.2.1⟩
    rcases old with rfl | rfl
    · exact first c.output
    · exact first 0
  unfold Connection.writeData
  dsimp only
  rw [moved, if_neg (fun nothing => absurd nothing.1 (Nat.succ_ne_zero _))]
  exact (flushed _ rfl).putBack _

/-- A request without an expire time is lost as soon as its packet is written. -/
theorem lost_of_undated (s : c.Sound start timeout [] [] [] Idle) {p : Post η α} (handler : p.handler.isSome) (undated : p.packet.expireTime = 0)
    (few : (c.accept p).allocations ≤ lowWords) :
    ∃ r, (Connection.writeData { socket := fun _ => ((c.accept p).output, 0) }
      (c.accept p)).2.Sound start timeout [] [r] [] Idle := by
  have few' : c.allocations < lowWords := few
  rcases s.ledger with many | ⟨h, number, l, idle⟩
  · omega
  obtain ⟨h', number', l', -, detached⟩ := l.accept handler
  have dated : ∀ p ∈ c.outputQueue, p.expireTime ≠ 0 := fun p hp =>
    s.dated p (List.mem_append_left _ hp)
  have queue : (c.accept p).outputQueue =
      { p.packet with channel := some (c.pool.allocChannel 0 c.counter).1 } :: c.outputQueue :=
    push_undated dated undated
  refine ⟨(c.pool.allocChannel 0 c.counter).1, writeData_first s.buffer queue ?_⟩
  intro output
  have taken : { c.accept p with outputQueue := [] }.Ledger start (c.accept p).outputQueue [] [] h'
      number' := l'.requeue (by rw [List.append_nil, List.nil_append])
  rw [queue] at taken
  exact lose (taken.congr rfl rfl rfl rfl rfl rfl) (detached.trans idle) rfl undated few s.timeout
    s.buffer dated s.blocked

end Sound

/-! ### All runs -/

/-- A connection that has not been used yet. -/
structure Unused (c : Connection η α) : Prop where
  pool : c.pool = {}
  outputQueue : c.outputQueue = []
  blocked : c.blocked = []
  accepted : c.accepted = []
  invoked : c.invoked = []
  allocations : c.allocations = 0

theorem Unused.sound {c : Connection η α} (u : c.Unused) (buffer : 0 < c.readWriteBufSize) :
    c.Sound c.counter c.queueTimeout [] [] [] Sound.Idle := by
  refine ⟨rfl, buffer, ?_, ?_, .inr ⟨⟨[], [], [], []⟩, fun _ => 0, ?_, rfl⟩⟩
  · intro p hp
    rw [u.outputQueue] at hp
    exact nomatch hp
  · intro p hp
    rw [u.blocked] at hp
    exact nomatch hp
  · constructor
    · rw [u.pool]
      exact ChannelPool.holds_new
    · rw [u.outputQueue]
      exact .refl _
    · exact nofun
    · exact fun _ h => (h.elim nofun nofun)
    · exact nofun
    · rw [u.accepted, u.invoked]
      exact .refl _
    · rw [u.allocations]
      rfl
    · exact nofun
    · exact nofun

/-- Every request has a handler. -/
def Legal (_ : Connection η α) (e : Event η α) : Prop := e.All Other.Legal

/-- Every request has an expire time, its own or that of the connection. -/
def Dated (c : Connection η α) (e : Event η α) : Prop := e.All (Other.Dated c.queueTimeout)

theorem Event.All.and {P Q : Other η α → Prop} {e : Event η α} (hp : e.All P) (hq : e.All Q) :
    e.All fun o => P o ∧ Q o := by
  cases e with
  | other o => exact ⟨hp, hq⟩
  | writeData w =>
    exact ⟨fun n o h => ⟨hp.1 n o h, hq.1 n o h⟩, fun n o h => ⟨hp.2.1 n o h, hq.2.1 n o h⟩,
      fun o h => ⟨hp.2.2 o h, hq.2.2 o h⟩⟩
  | checkTimeout | closeHook =>
    exact ⟨fun n o h => ⟨hp.1 n o h, hq.1 n o h⟩, fun o h => ⟨hp.2.1 o h, hq.2.1 o h⟩,
      fun n o h => ⟨hp.2.2 n o h, hq.2.2 n o h⟩⟩
  | setQueueTimeout | setQueueLimit | handlePacket | openHook => trivial

/-- Nothing is lost along a run in which every request has an expire time. -/
theorem sound_run {c : Connection η α} (u : c.Unused) (buffer : 0 < c.readWriteBufSize)
    {events : List (Event η α)} (legal : Along step Legal c events) (dated : Along step Dated c events) :
    (events.foldl step c).Sound c.counter (events.foldl step c).queueTimeout [] [] []
      Sound.Idle := by
  refine Along.inv (fun c' : Connection η α => c'.Sound c.counter c'.queueTimeout [] [] [] Sound.Idle)
    ?_ (u.sound buffer) legal dated
  intro c' e s legal dated
  exact s.step (legal.and dated)

/-- A request that is posted where nothing was lost so far stays completed or pending, however
the socket takes it, if and only if it has an expire time. -/
theorem writes_complete_iff {c : Connection η α} {start : BitVec 64}
    (s : c.Sound start c.queueTimeout [] [] [] Sound.Idle)
    (handler : p.handler.isSome) (accepted : (c.postPacket p).1 = some true)
    (few : (c.postPacket p).2.allocations ≤ lowWords) :
    (∀ sockets, ((c.postPacket p).2.writes sockets).Complete) ↔
      p.packet.expireTime ≠ 0 ∨ c.queueTimeout ≠ 0 := by
  constructor
  · intro complete
    by_contra never
    have undated : (c.stamp p).packet.expireTime = 0 := by
      by_contra dated
      exact never ((stamp_dated c p).mp dated)
    have handler' : (c.stamp p).handler.isSome := by
      rw [stamp_handler]
      exact handler
    obtain ⟨lasttime, eq⟩ := postPacket_accepted accepted
    rw [eq] at complete few
    have now : { c with lasttime }.Sound start c.queueTimeout [] [] [] Sound.Idle :=
      s.congr rfl rfl rfl rfl rfl rfl rfl rfl rfl
    obtain ⟨r, lost⟩ := now.lost_of_undated handler' undated few
    have still := complete [fun _ => (({ c with lasttime }.accept (c.stamp p)).output, 0)]
    exact absurd ((lost.complete_iff ((writeData_allocations _).trans_le few)).mp still)
      (List.cons_ne_nil r [])
  · intro dated sockets
    have after := (s.postPacket handler dated).writes sockets
    exact (after.complete_iff ((writes_allocations sockets).trans_le few)).mpr rfl

/-- Along every run in which each request has an expire time, its own or the queue timeout,
each request is completed exactly once, at the latest when the connection is closed. One that
has none is lost when it is written. -/
theorem completed_exactly_once_iff {c : Connection η α} (u : c.Unused)
    (buffer : 0 < c.readWriteBufSize) (events : List (Event η α))
    (legal : Along step Legal c events) (dated : Along step Dated c events)
    (few : (events.foldl step c).allocations ≤ lowWords) :
    (events.foldl step c).Complete ∧
    (∀ t, (events.foldl step c).Legal (.closeHook t) → (events.foldl step c).Dated (.closeHook t) →
      (closeHook t (events.foldl step c)).allocations ≤ lowWords →
      (closeHook t (events.foldl step c)).pending = []) ∧
    ∀ p, p.handler.isSome → ((events.foldl step c).postPacket p).1 = some true →
      ((events.foldl step c).postPacket p).2.allocations ≤ lowWords →
      ((∀ sockets, (((events.foldl step c).postPacket p).2.writes sockets).Complete) ↔
        p.packet.expireTime ≠ 0 ∨ (events.foldl step c).queueTimeout ≠ 0) := by
  have s := sound_run u buffer legal dated
  refine ⟨(s.complete_iff few).mpr rfl, ?_, ?_⟩
  · intro t legal' dated' few'
    exact closeHook_pending (legal'.and dated') s few'
  · intro p handler accepted few'
    exact writes_complete_iff s handler accepted few'

/-- One request is written while there is a queue timeout, and the next one comes when there is
none. -/
def sampleRun : List (Event Unit Unit) :=
  [.other (.post { packet := { advance := false, size := 16 }, handler := some () }),
    .writeData { socket := fun _ => (16, 0) }, .setQueueTimeout 0]

theorem completed_exactly_once_iff_sample :
    (sampleRun.foldl step {}).Complete ∧ (closeHook {} (sampleRun.foldl step {})).pending = [] ∧
      ¬ ∀ sockets, (((sampleRun.foldl step {}).postPacket
        { packet := { advance := true, size := 16 }, handler := some () }).2.writes
          sockets).Complete := by
  obtain ⟨complete, closing, posting⟩ := completed_exactly_once_iff (c := {})
    ⟨rfl, rfl, rfl, rfl, rfl, rfl⟩ (by decide) sampleRun
    ⟨rfl, Event.all_writeData _ _, trivial, trivial⟩
    ⟨.inr (by decide), Event.all_writeData _ _, trivial, trivial⟩ (by decide +kernel)
  refine ⟨complete, ?_, ?_⟩
  · exact closing {} (Event.all_closeHook _) (Event.all_closeHook _) (by decide +kernel)
  · rw [posting _ rfl (by decide +kernel) (by decide +kernel)]
    decide +kernel

/-- A request without an expire time is written to a connection without a queue timeout. -/
def undatedRun : List (Event Unit Unit) :=
  [.setQueueTimeout 0,
    .other (.post { packet := { advance := false, size := 16 }, handler := some () }),
    .writeData { socket := fun _ => (16, 0) }, .closeHook {}]

/-- Its handler is not even called when the connection is closed. -/
theorem undated_request_lost :
    Along step Legal {} undatedRun ∧ (undatedRun.foldl step {}).accepted = [(some (), none)] ∧
      (undatedRun.foldl step {}).invoked = [] ∧ (undatedRun.foldl step {}).pending = [] ∧
      ¬ (undatedRun.foldl step {}).Complete := by
  refine ⟨⟨trivial, rfl, Event.all_writeData _ _, Event.all_closeHook _, trivial⟩, ?_⟩
  decide +kernel

end Connection

end AgentEngine.Anet
