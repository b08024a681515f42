import AgentEngine.Arpc.PyFraming
import Mathlib.Data.List.Nodup

/-!
How often the Python client completes a request.

What has happened so far is a list of events, the latest first. The bytes received, the ids posted,
whether the poller is in its loop and which packet comes next are functions of these events and of
the frames of the received stream. As long as no head announces a negative length, a connection is
always in the state that they say (`Matches.step`), and a request is completed once for each packet
of its channel and for each failure after its post (`atMostOnce_iff`).
-/

namespace AgentEngine.Arpc.Python

open List

/-! ### The stream -/

/-- The heads and bodies of the successive frames of a stream. -/
def frames (stream : List UInt8) : List (Header × List UInt8) :=
  let n := (announced stream).toNat
  if headLen + n ≤ stream.length ∧ 0 ≤ announced stream then
    (unpack (stream.take headLen), (stream.drop headLen).take n) ::
      frames (stream.drop (headLen + n))
  else []
termination_by stream.length
decreasing_by
  have : 0 < headLen := by decide
  rw [length_drop]
  omega

theorem frames_of_complete {stream : List UInt8} {n : Nat} (complete : headLen + n ≤ stream.length)
    (length : announced stream = n) :
    frames stream = (unpack (stream.take headLen), (stream.drop headLen).take n) ::
      frames (stream.drop (headLen + n)) := by
  rw [frames, length]
  simp [complete]

theorem frames_append {handled : List Handled} (isFrame : ∀ p ∈ handled, p.IsFrame)
    (rest : List UInt8) : frames (handled.flatMap Handled.bytes ++ rest) =
      (handled.map fun p => (unpack p.headBuf, p.body)) ++ frames rest := by
  induction handled with
  | nil => rfl
  | cons p handled ih =>
    have frame := isFrame p mem_cons_self
    rw [flatMap_cons, append_assoc, map_cons, cons_append,
      ← ih fun q mem => isFrame q (mem_cons_of_mem p mem)]
    generalize handled.flatMap Handled.bytes ++ rest = rest
    have length : p.bytes.length = headLen + p.body.length := by
      rw [Handled.bytes, length_append, frame.head]
    have head : (p.bytes ++ rest).take headLen = p.headBuf := by
      rw [Handled.bytes, append_assoc, ← frame.head, take_left]
    have body : ((p.bytes ++ rest).drop headLen).take p.body.length = p.body := by
      rw [Handled.bytes, append_assoc, ← frame.head, drop_left, take_left]
    have announces : announced (p.bytes ++ rest) = p.body.length := by
      rw [announced, head, frame.body]
    rw [frames_of_complete (by rw [length_append]; omega) announces, head, body, ← length, drop_left]

/-- A packet that is complete is the first frame, if its length is not negative. -/
theorem readPacket_cases {inbuf : List UInt8} (clear : ¬ NegativeAhead inbuf) :
    (readPacket inbuf = none ∧ frames inbuf = []) ∨
    ∃ n, headLen + n ≤ inbuf.length ∧ announced inbuf = (n : Nat) ∧
      readPacket inbuf = some ⟨inbuf.take headLen, (inbuf.drop headLen).take n,
        inbuf.drop (headLen + n)⟩ := by
  by_cases incomplete : inbuf.length < headLen ∨ (inbuf.length : Int) < headLen + announced inbuf
  · refine .inl ⟨(readPacket_none_iff inbuf).mpr incomplete, ?_⟩
    rw [frames, if_neg]
    omega
  · rw [not_or] at incomplete
    have positive : 0 ≤ announced inbuf := by
      by_contra negative
      exact clear (.here (by omega) (by omega))
    obtain ⟨n, length⟩ := Int.eq_ofNat_of_zero_le positive
    have complete : headLen + n ≤ inbuf.length := by omega
    exact .inr ⟨n, complete, length, readPacket_frame complete length⟩

namespace Connection

/-! ### The events so far -/

def received : List Event → List UInt8
  | [] => []
  | .handleRead (.received buf) :: before => received before ++ buf
  | _ :: before => received before

/-- The ids that were given out. -/
def given : List Event → Nat
  | [] => 0
  | .atomicGetGlobalChannelId :: before => given before + 1
  | _ :: before => given before

def posted : List Event → List Nat
  | [] => []
  | .postPacket channelId _ :: before => posted before ++ [channelId]
  | _ :: before => posted before

/-- The number of bytes that wait to be sent. -/
def unsent : List Event → Nat
  | [] => 0
  | .postPacket _ packet :: before => unsent before + packet.length
  | .handleWrite (.sent sendLen) :: before => unsent before - sendLen
  | _ :: before => unsent before

/-- The remote side has closed the connection. -/
def Closed (before : List Event) : Prop := .handleRead (.received []) ∈ before

/-- The number of frames that were handled. -/
def taken : List Event → Nat
  | [] => 0
  | .handlePacket _ :: before => min (taken before + 1) (frames (received before)).length
  | _ :: before => taken before

/-- The frame that is handled next, if it is complete. -/
def next (before : List Event) : Option (Header × List UInt8) :=
  (frames (received before))[taken before]?

/-- The poller is in the loop of `handleRead`: an incomplete packet or an exception ends it. -/
def looping : List Event → Bool
  | [] => false
  | .handleRead _ :: _ => true
  | .handlePacket outcome :: before => outcome = .returned ∧ (next before).isSome
  | _ :: before => looping before

/-- What can happen next: ids are posted once, after they were given out; the poller does one thing
at a time; a closed socket only gives errors; and exceptions come from callbacks that are called
and bodies that are parsed. -/
def CanHappen (before : List Event) : Event → Prop
  | .atomicGetGlobalChannelId => True
  | .postPacket channelId _ =>
      0 < channelId ∧ channelId ≤ given before ∧ channelId ∉ posted before ∧ channelId < 2 ^ 31
  | .handleRead result => looping before = false ∧ (Closed before → result = .error)
  | .handlePacket outcome => looping before = true ∧
      (outcome = .returned ∨ ∃ frame ∈ next before, ∃ k ∈ posted before, frame.1.channelId = (k : Nat) ∧
        (outcome = .parseRaised → frame.1.pcode = 0 ∧ frame.2 ≠ []))
  | .handleWrite result => Closed before → unsent before ≠ 0 → result = .error

instance (before : List Event) (e : Event) : Decidable (CanHappen before e) := by
  unfold CanHappen Closed
  split <;> infer_instance

def Possible : (before : List Event) → List Event → Prop
  | _, [] => True
  | before, e :: es => CanHappen before e ∧ Possible (e :: before) es

instance Possible.decide : (before es : List Event) → Decidable (Possible before es)
  | _, [] => .isTrue trivial
  | before, e :: es => @instDecidableAnd _ _ _ (Possible.decide (e :: before) es)

/-- An event that completes a request which was posted: a packet of its channel, the end of the
connection, or an error. -/
def Completes (channelId : Nat) (before : List Event) : Event → Prop
  | .handleRead (.received buf) => buf = []
  | .handleRead .error => True
  | .handleWrite .error => unsent before ≠ 0
  | .handlePacket outcome =>
      outcome ≠ .parseRaised ∧ ∃ frame ∈ next before, frame.1.channelId = channelId
  | _ => False

instance (channelId : Nat) (before : List Event) (e : Event) :
    Decidable (Completes channelId before e) := by
  unfold Completes
  split <;> infer_instance

/-! ### The state of a connection -/

/-- A connection is in the state that the events so far say. -/
structure Matches (before : List Event) (c : Connection) : Prop where
  framed : ∃ handled, Framed (received before) ⟨c.inbuf, handled⟩ ∧ handled.length = taken before
  reading : c.reading = looping before
  closed : c.isClosed = true ↔ Closed before
  outbuf : c.outbuf.length = unsent before
  packetMap : c.packetMap = posted before
  posts : (posted before).Nodup
  maxChannelId : c.maxChannelId = given before
  bounded : ∀ k ∈ posted before, k ≤ given before
  pending : ∀ k, k ∈ c.pending ↔ 0 < k ∧ k ≤ given before ∧ k ∉ posted before
  waiting : c.pending.Nodup

theorem Matches.init : Matches [] {} where
  framed := ⟨[], ⟨nofun, rfl⟩, rfl⟩
  reading := rfl
  closed := by simp [Closed]
  outbuf := rfl
  packetMap := rfl
  posts := nodup_nil
  maxChannelId := rfl
  bounded := nofun
  pending := fun k => iff_of_false not_mem_nil fun h => absurd h.1 (not_lt.mpr h.2.1)
  waiting := nodup_nil

variable {before : List Event} {c : Connection}

/-- What a step has to do: the state goes on, and posted requests are completed as the event says. -/
def Steps (before : List Event) (c : Connection) (e : Event) : Prop :=
  Matches (e :: before) (c.step e).1 ∧
    ∀ k, (k ∈ posted before → Completes k before e → (c.calls e).count k = 1) ∧
      ((k ∉ posted before ∨ ¬ Completes k before e) → (c.calls e).count k = 0)

namespace Matches

variable (h : Matches before c)
include h

theorem atomicGetGlobalChannelId : Steps before c .atomicGetGlobalChannelId := by
  refine ⟨⟨h.framed, h.reading, ?_, h.outbuf, h.packetMap, h.posts, ?_, ?_, ?_, ?_⟩, ?_⟩
  · exact h.closed.trans (by simp [Closed])
  · exact congrArg (· + 1) h.maxChannelId
  · exact fun k mem => Nat.le_succ_of_le (h.bounded k mem)
  · intro k
    have new : given before + 1 ∉ posted before := fun old => by
      have := h.bounded _ old
      omega
    simp only [step, mem_cons, h.pending, h.maxChannelId, posted, given]
    constructor
    · rintro (rfl | ⟨pos, le, free⟩)
      · exact ⟨by omega, le_rfl, new⟩
      · exact ⟨pos, by omega, free⟩
    · rintro ⟨pos, le, free⟩
      by_cases last : k = given before + 1
      · exact .inl last
      · exact .inr ⟨pos, by omega, free⟩
  · refine nodup_cons.mpr ⟨?_, h.waiting⟩
    rw [h.pending, h.maxChannelId]
    omega
  · exact fun k => ⟨fun _ => False.elim, fun _ => rfl⟩

theorem postPacket {channelId : Nat} (packet : List UInt8)
    (can : CanHappen before (.postPacket channelId packet)) :
    Steps before c (.postPacket channelId packet) := by
  obtain ⟨pos, le, free, int⟩ := can
  have mem : channelId ∈ c.pending := (h.pending _).mpr ⟨pos, le, free⟩
  rw [Steps, calls, step, if_pos ⟨mem, int⟩]
  refine ⟨⟨h.framed, h.reading, ?_, ?_, ?_, ?_, h.maxChannelId, ?_, ?_, h.waiting.erase _⟩, ?_⟩
  · exact h.closed.trans (by simp [Closed])
  · simp only [unsent, length_append, h.outbuf]
  · exact congrArg (· ++ [channelId]) h.packetMap
  · exact nodup_append.mpr ⟨h.posts, nodup_singleton _, by
      rintro a memA b memB rfl
      exact free (mem_singleton.mp memB ▸ memA)⟩
  · intro k mem
    rcases mem_append.mp mem with old | new
    · exact h.bounded k old
    · exact mem_singleton.mp new ▸ le
  · intro k
    simp only [h.waiting.mem_erase_iff, h.pending, posted, given, mem_append, mem_singleton, not_or]
    tauto
  · exact fun k => ⟨fun _ => False.elim, fun _ => rfl⟩

/-- A failure completes every request that was posted. -/
theorem count_packetMap (k : Nat) :
    (k ∈ posted before → c.packetMap.count k = 1) ∧
      (k ∉ posted before → c.packetMap.count k = 0) := by
  rw [h.packetMap]
  exact ⟨count_eq_one_of_mem h.posts, count_eq_zero_of_not_mem⟩

theorem handleRead {result : Recv} (can : CanHappen before (.handleRead result)) :
    Steps before c (.handleRead result) := by
  obtain ⟨idle, closes⟩ := can
  have given : (if c.isClosed then .error else result) = result := by
    split_ifs with closed
    · exact (closes (h.closed.mp closed)).symm
    · rfl
  obtain ⟨handled, framed, count⟩ := h.framed
  rw [Steps, calls, step, h.reading, idle, if_neg Bool.false_ne_true, readDataToInBuffer, given]
  cases result with
  | received buf =>
    by_cases empty : buf = []
    · subst empty
      simp only [length_nil, if_true]
      refine ⟨{ h with framed := ⟨handled, ?_, count⟩, reading := rfl, closed := ?_ }, fun k => ?_⟩
      · simpa only [received, append_nil] using framed
      · simp [Closed]
      · simpa [Completes, invoked] using h.count_packetMap k
    · simp only [length_eq_zero_iff, empty, if_false]
      refine ⟨{ h with framed := ⟨handled, framed.receive buf, count⟩, reading := rfl, closed := ?_ }, fun k => ?_⟩
      · exact h.closed.trans (by simp [Closed, Ne.symm empty])
      · exact ⟨fun _ completes => absurd completes empty, fun _ => rfl⟩
  | again =>
    refine ⟨{ h with framed := ⟨handled, framed, count⟩, reading := rfl, closed := ?_ }, fun k => ?_⟩
    · exact h.closed.trans (by simp [Closed])
    · exact ⟨fun _ => False.elim, fun _ => rfl⟩
  | error =>
    refine ⟨{ h with framed := ⟨handled, framed, count⟩, reading := rfl, closed := ?_ }, fun k => ?_⟩
    · exact h.closed.trans (by simp [Closed])
    · simpa [Completes, invoked] using h.count_packetMap k

theorem handleWrite {result : Send} (can : CanHappen before (.handleWrite result)) :
    Steps before c (.handleWrite result) := by
  have closed : c.isClosed = true ↔ Closed (.handleWrite result :: before) :=
    h.closed.trans (by simp [Closed])
  rw [Steps, calls, step, writeDataFromOutBuffer, h.outbuf]
  by_cases waits : unsent before = 0
  · rw [if_neg (not_not.mpr waits)]
    refine ⟨{ h with closed, outbuf := ?_ }, fun k => ?_⟩
    · cases result with
      | sent sendLen => simp [unsent, h.outbuf, waits]
      | again | error => exact h.outbuf
    · cases result with
      | sent sendLen | again => exact ⟨fun _ => False.elim, fun _ => rfl⟩
      | error => exact ⟨fun _ completes => absurd waits completes, fun _ => rfl⟩
  · have given : (if c.isClosed then .error else result) = result := by
      split_ifs with isClosed
      · exact (can (h.closed.mp isClosed) waits).symm
      · rfl
    rw [if_pos waits, given]
    cases result with
    | sent sendLen =>
      refine ⟨{ h with closed, outbuf := ?_ }, fun k => ⟨fun _ => False.elim, fun _ => rfl⟩⟩
      have nonneg : ¬ (sendLen : Int) < 0 := by omega
      simp only [sliceFrom, bound, if_neg nonneg, Int.toNat_natCast, length_drop, h.outbuf, unsent]
      omega
    | again =>
      exact ⟨{ h with closed }, fun k => ⟨fun _ => False.elim, fun _ => rfl⟩⟩
    | error =>
      refine ⟨{ h with closed }, fun k => ?_⟩
      simpa [Completes, invoked, waits] using h.count_packetMap k

theorem handlePacket {outcome : Outcome} (can : CanHappen before (.handlePacket outcome))
    (clear : ¬ NegativeAhead (received before)) : Steps before c (.handlePacket outcome) := by
  obtain ⟨loops, fits⟩ := can
  obtain ⟨handled, framed, count⟩ := h.framed
  have closed : c.isClosed = true ↔ Closed (.handlePacket outcome :: before) :=
    h.closed.trans (by simp [Closed])
  have ahead : ¬ NegativeAhead c.inbuf := by
    rwa [← framed.stream, negativeAhead_frames framed.frames] at clear
  have all : frames (received before) =
      (handled.map fun p => (unpack p.headBuf, p.body)) ++ frames c.inbuf := by
    rw [← framed.stream, frames_append framed.frames]
  have first : next before = (frames c.inbuf)[0]? := by
    rw [next, all, getElem?_append_right (by simp [count])]
    simp [count]
  have length : (frames (received before)).length = taken before + (frames c.inbuf).length := by
    rw [all, length_append, length_map, count]
  rw [Steps, calls, step, h.reading, loops, if_pos rfl, Connection.handlePacket]
  obtain ⟨none, empty⟩ | ⟨n, complete, announces, read⟩ := readPacket_cases ahead
  · rw [empty] at first length
    rw [none]
    refine ⟨{ h with framed := ⟨handled, framed, ?_⟩, reading := ?_, closed }, fun k => ⟨?_, fun _ => rfl⟩⟩
    · simp [taken, length, count]
    · simp [looping, first]
    · rintro - ⟨-, frame, mem, -⟩
      simp [first] at mem
  · rw [frames_of_complete complete announces] at first length
    have next_eq : next before = some (unpack (c.inbuf.take headLen),
        (c.inbuf.drop headLen).take n) := first
    have framed' := framed.frame complete announces
    have count' : (handled ++ [firstFrame c.inbuf n]).length =
        taken (.handlePacket outcome :: before) := by
      simp [taken, length, count]
    have completes_iff {k : Nat} : Completes k before (.handlePacket outcome) ↔
        outcome ≠ .parseRaised ∧ (unpack (c.inbuf.take headLen)).channelId = k := by
      simp [Completes, next_eq]
    rw [read]
    dsimp only
    cases found : c.packetMap.find? fun k : Nat =>
        (k : Int) = (unpack (c.inbuf.take headLen)).channelId with
    | none =>
      have unknown (k : Nat) (mem : k ∈ posted before) :
          (unpack (c.inbuf.take headLen)).channelId ≠ k := by
        intro same
        rw [← h.packetMap] at mem
        simpa [same] using find?_eq_none.mp found k mem
      have returned : outcome = .returned := by
        refine fits.resolve_right ?_
        rintro ⟨frame, mem, k, known, same, -⟩
        cases next_eq.symm.trans mem
        exact unknown k known same
      refine ⟨{ h with framed := ⟨_, framed', count'⟩, reading := ?_, closed }, fun k => ⟨?_, fun _ => rfl⟩⟩
      · simp [looping, returned, next_eq, h.reading, loops]
      · intro known completes
        exact absurd (completes_iff.mp completes).2 (unknown k known)
    | some channelId =>
      have known : channelId ∈ posted before := h.packetMap ▸ mem_of_find?_eq_some found
      have same : (channelId : Int) = (unpack (c.inbuf.take headLen)).channelId := by
        simpa using find?_some found
      rw [← same] at completes_iff
      have replied (answered : outcome ≠ .parseRaised) (k : Nat) :
          (k ∈ posted before → Completes k before (.handlePacket outcome) →
            [channelId].count k = 1) ∧
          (k ∉ posted before ∨ ¬ Completes k before (.handlePacket outcome) →
            [channelId].count k = 0) := by
        rw [completes_iff, Int.natCast_inj, count_singleton]
        by_cases eq : channelId = k
        · subst eq
          simp [answered, known]
        · simp [eq]
      cases outcome with
      | returned =>
        refine ⟨{ h with framed := ⟨_, framed', count'⟩, reading := ?_, closed }, replied (fun e => by cases e)⟩
        simp [looping, next_eq, h.reading, loops]
      | callbackRaised =>
        exact ⟨{ h with framed := ⟨_, framed', count'⟩, reading := rfl, closed }, replied (fun e => by cases e)⟩
      | parseRaised =>
        obtain ⟨frame, mem, -, -, -, parsed⟩ := fits.resolve_left fun e => by cases e
        cases next_eq.symm.trans mem
        obtain ⟨pcode, body⟩ := parsed rfl
        have parses : (unpack (c.inbuf.take headLen)).pcode = 0 ∧
            ((c.inbuf.drop headLen).take n).length ≠ 0 := ⟨pcode, mt length_eq_zero_iff.mp body⟩
        simp only [if_pos parses]
        refine ⟨{ h with framed := ⟨_, framed', count'⟩, reading := rfl, closed }, fun k => ⟨?_, fun _ => rfl⟩⟩
        intro _ completes
        exact absurd rfl (completes_iff.mp completes).1

theorem step {e : Event} (can : CanHappen before e) (clear : ¬ NegativeAhead (received before)) :
    Steps before c e := by
  cases e with
  | atomicGetGlobalChannelId => exact h.atomicGetGlobalChannelId
  | postPacket channelId packet => exact h.postPacket packet can
  | handleRead result => exact h.handleRead can
  | handlePacket outcome => exact h.handlePacket can clear
  | handleWrite result => exact h.handleWrite can

end Matches

/-! ### Runs -/

/-- How many of the events complete a request. -/
def later (channelId : Nat) : (before : List Event) → List Event → Nat
  | _, [] => 0
  | before, e :: es =>
      (if Completes channelId before e then 1 else 0) + later channelId (e :: before) es

theorem received_initial (before es : List Event) :
    received before <+: received (es.reverse ++ before) := by
  induction es generalizing before with
  | nil => exact prefix_rfl
  | cons e es ih =>
    have first : received before <+: received (e :: before) := by
      cases e with
      | handleRead result =>
        cases result with
        | received buf => exact prefix_append ..
        | again | error => exact prefix_rfl
      | atomicGetGlobalChannelId | postPacket | handlePacket | handleWrite => exact prefix_rfl
    rw [reverse_cons, append_assoc, singleton_append]
    exact first.trans (ih (e :: before))

theorem mem_posted_cons {e : Event} {k : Nat} :
    k ∈ posted (e :: before) ↔ k ∈ posted before ∨ ∃ packet, e = .postPacket k packet := by
  cases e with
  | postPacket channelId packet =>
    rw [posted, mem_append, mem_singleton]
    simp [eq_comm]
  | atomicGetGlobalChannelId | handleRead | handlePacket | handleWrite => simp [posted]

variable {es : List Event} {k : Nat}

/-- No id is posted twice. -/
theorem not_posted_of_possible {packet : List UInt8} {pre post : List Event}
    (possible : Possible before (pre ++ .postPacket k packet :: post)) : k ∉ posted before := by
  induction pre generalizing before with
  | nil => exact possible.1.2.2.1
  | cons e pre ih => exact fun mem => ih possible.2 (mem_posted_cons.mpr (.inl mem))

/-- A request that was posted is completed by the events that say so. -/
theorem count_completions (h : Matches before c) (possible : Possible before es)
    (clear : ¬ NegativeAhead (received (es.reverse ++ before))) (mem : k ∈ posted before) :
    (c.completions es).count k = later k before es := by
  induction es generalizing before c with
  | nil => rfl
  | cons e es ih =>
    obtain ⟨can, possible⟩ := possible
    obtain ⟨next, called⟩ := h.step can fun ahead => clear (ahead.of_initial (received_initial ..))
    rw [reverse_cons, append_assoc, singleton_append] at clear
    have rest := ih next possible clear (mem_posted_cons.mpr (.inl mem))
    rw [completions, count_append, rest, later]
    congr 1
    split_ifs with completes
    · exact (called k).1 mem completes
    · exact (called k).2 (.inr completes)

/-- A request that is yet to be posted is completed by events after its post. -/
theorem count_le_one_iff (h : Matches before c) (possible : Possible before es)
    (clear : ¬ NegativeAhead (received (es.reverse ++ before))) (new : k ∉ posted before) :
    (c.completions es).count k ≤ 1 ↔
      ∀ pre packet post, es = pre ++ .postPacket k packet :: post →
        later k (.postPacket k packet :: (pre.reverse ++ before)) post ≤ 1 := by
  induction es generalizing before c with
  | nil => simp [completions]
  | cons e es ih =>
    obtain ⟨can, possible⟩ := possible
    obtain ⟨next, called⟩ := h.step can fun ahead => clear (ahead.of_initial (received_initial ..))
    rw [reverse_cons, append_assoc, singleton_append] at clear
    rw [completions, count_append, (called k).2 (.inl new), zero_add]
    by_cases here : ∃ packet, e = .postPacket k packet
    · obtain ⟨packet, rfl⟩ := here
      have mem : k ∈ posted (.postPacket k packet :: before) :=
        mem_posted_cons.mpr (.inr ⟨packet, rfl⟩)
      rw [count_completions next possible clear mem]
      constructor
      · intro once pre packet' post split
        cases pre with
        | nil =>
          cases split
          exact once
        | cons _ pre =>
          obtain ⟨rfl, rfl⟩ := cons.inj split
          exact absurd mem (not_posted_of_possible possible)
      · exact fun once => once [] packet es rfl
    · have still : k ∉ posted (e :: before) := fun mem => (mem_posted_cons.mp mem).elim new here
      rw [ih next possible clear still]
      constructor
      · intro once pre packet post split
        cases pre with
        | nil =>
          cases split
          exact absurd ⟨packet, rfl⟩ here
        | cons _ pre =>
          obtain ⟨rfl, rfl⟩ := cons.inj split
          simpa using once pre packet post rfl
      · intro once pre packet post split
        simpa using once (e :: pre) packet post (by rw [split]; rfl)

/-- Every request is completed at most once. -/
def AtMostOnce (es : List Event) : Prop :=
  ∀ channelId, (completions {} es).count channelId ≤ 1

/-- A run in which no head announces a negative length completes every request at most once iff after
its post there is at most one packet of its channel, end of the connection or error. -/
theorem atMostOnce_iff (possible : Possible [] es)
    (clear : ¬ NegativeAhead (received es.reverse)) :
    AtMostOnce es ↔ ∀ pre channelId packet post,
      es = pre ++ .postPacket channelId packet :: post →
        later channelId (.postPacket channelId packet :: pre.reverse) post ≤ 1 := by
  have once_iff (k : Nat) := count_le_one_iff (k := k) Matches.init possible
    (by rwa [append_nil]) not_mem_nil
  simp only [append_nil] at once_iff
  constructor
  · intro once pre channelId packet post split
    exact (once_iff channelId).mp (once channelId) pre packet post split
  · intro once channelId
    exact (once_iff channelId).mpr fun pre packet post => once pre channelId packet post

/-- Two requests, of which the second is answered first and the answer to the first comes in two
chunks. -/
def bothAnswered : List Event :=
  [.atomicGetGlobalChannelId, .atomicGetGlobalChannelId, .postPacket 2 [7], .postPacket 1 [8, 9],
    .handleWrite (.sent 3),
    .handleRead (.received [0x41, 0x6e, 0x45, 0x74, 0, 0, 0, 2, 0, 0, 0, 0, 0, 0, 0, 1, 5, 0x41]),
    .handlePacket .returned, .handlePacket .returned,
    .handleRead (.received [0x6e, 0x45, 0x74, 0, 0, 0, 1, 0, 0, 0, 3, 0, 0, 0, 0]),
    .handlePacket .returned, .handlePacket .returned]

theorem atMostOnce_iff_bothAnswered : Possible [] bothAnswered ∧
    ¬ NegativeAhead (received bothAnswered.reverse) ∧ AtMostOnce bothAnswered := by
  have possible : Possible [] bothAnswered := by decide +kernel
  have clear : ¬ NegativeAhead (received bothAnswered.reverse) := by
    have stream : received bothAnswered.reverse =
        [⟨[0x41, 0x6e, 0x45, 0x74, 0, 0, 0, 2, 0, 0, 0, 0, 0, 0, 0, 1], [5], 17⟩,
          ⟨[0x41, 0x6e, 0x45, 0x74, 0, 0, 0, 1, 0, 0, 0, 3, 0, 0, 0, 0], [], 16⟩].flatMap
            Handled.bytes ++ [] := rfl
    rw [stream, negativeAhead_frames]
    · rintro (⟨complete, -⟩ | ⟨n, complete, -⟩)
      · exact absurd complete (by decide)
      · exact absurd complete (by simp [headLen])
    · intro p mem
      rcases mem_pair.mp mem with rfl | rfl
      · exact ⟨rfl, by decide, rfl⟩
      · exact ⟨rfl, by decide, rfl⟩
  refine ⟨possible, clear, (atMostOnce_iff possible clear).mpr ?_⟩
  intro pre channelId packet post split
  rcases pre with _ | ⟨_, _ | ⟨_, _ | ⟨_, _ | ⟨_, pre⟩⟩⟩⟩
  · cases split
  · cases split
  · cases split
    decide +kernel
  · cases split
    decide +kernel
  · have last : Event.postPacket channelId packet ∈ bothAnswered.drop 4 := by
      rw [split]
      simp
    simp [bothAnswered] at last

/-- A reply and then the end of the connection. -/
def repliedThenClosed : List Event :=
  [.atomicGetGlobalChannelId, .postPacket 1 [],
    .handleRead (.received [0x41, 0x6e, 0x45, 0x74, 0, 0, 0, 1, 0, 0, 0, 0, 0, 0, 0, 0]),
    .handlePacket .returned, .handlePacket .returned, .handleRead (.received [])]

/-- The request that was answered fails as well. -/
theorem not_atMostOnce_closed : ¬ AtMostOnce repliedThenClosed := by
  intro once
  have twice : (completions {} repliedThenClosed).count 1 = 2 := by decide
  have := once 1
  omega

end Connection

end AgentEngine.Arpc.Python
