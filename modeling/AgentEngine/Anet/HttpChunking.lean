import AgentEngine.Anet.HttpReading

/-!
When it makes no difference how a stream of HTTP messages is cut into reads.

It makes none as long as no read ends between a carriage return behind the data of a chunk and a
second carriage return: the parser drops the first one and takes the second one for it, where it
would have rejected the two together (`received_alike_iff`).
-/

namespace AgentEngine.Anet

open Lib List

namespace HTTPMachine

open HTTPStreamer TCPConnection

/-- Behind the bytes, the machine has seen the carriage return after the data of a chunk, and
waits for the line feed. -/
def HoldsCR (limit : Nat) (phase : HTTPPhase) (bytes : List UInt8) : Prop :=
  ((httpMachine limit).run phase bytes).failed = false ∧ ∃ p drained count,
    ((httpMachine limit).run phase bytes).state = .chunkEnd p true drained count

/-- No cut comes between the carriage return after the data of a chunk and another one, with the
`unread` bytes before the first piece. -/
def Clean (limit : Nat) (phase : HTTPPhase) (unread : List UInt8) (pieces : List (List UInt8)) :
    Prop :=
  ∀ before piece after, pieces = before ++ piece :: after →
    HoldsCR limit phase (unread ++ before.flatten) → piece.head? ≠ some 13

/-- What a connection receives in the pieces that the reads give: the packets, and whether the
context is broken in the end. A read at the end of the file gives no bytes. -/
def received (pkgLimit : Nat) (c : Reading HTTPPacket HTTPFields) (pieces : List (List UInt8))
    (eof : Bool) : List HTTPPacket × Bool :=
  let r := (readData (streamer pkgLimit)).feedAll (pieces ++ if eof then [[]] else []) c
  (r.items, r.halted)

/-- What the machine makes of bytes that are all there. -/
def meaning (limit : Nat) (phase : HTTPPhase) (bytes : List UInt8) (eof : Bool) :
    List HTTPPacket × Bool :=
  let o := (httpMachine limit).run phase bytes
  if o.failed || !eof then (o.items, o.failed)
  else (o.items ++ (ends o.state).1, (ends o.state).2)

section Cuts

variable {limit pkgLimit : Nat} {c : Reading HTTPPacket HTTPFields} {phase : HTTPPhase}
  {r : Report (Reading HTTPPacket HTTPFields) HTTPPacket}

theorem unread_of_waits {p : HTTPPacket} {heldCR : Bool} {drained count : Nat} {data : List UInt8}
    (waits : step limit (.chunkEnd p heldCR drained count) data = .wait) : data = [] := by
  cases data with
  | nil => rfl
  | cons x data =>
    simp only [step, onByte] at waits
    split at waits <;> cases waits

/-- The machine goes on alike from two phases. -/
structure Alike (o o' : Outcome HTTPPhase HTTPPacket UInt8) : Prop where
  items : o.items = o'.items
  failed : o.failed = o'.failed
  same : o'.failed = false → o = o'

theorem Alike.rfl {o : Outcome HTTPPhase HTTPPacket UInt8} : Alike o o :=
  ⟨Eq.refl _, Eq.refl _, fun _ => Eq.refl _⟩

theorem Reports.of_alike {o o' : Outcome HTTPPhase HTTPPacket UInt8} (h : Reports limit o r)
    (alike : Alike o o') : Reports limit o' r := by
  refine ⟨h.items.trans alike.items, h.halted.trans alike.failed, ?_, ?_⟩
  · intro running
    rw [← alike.same running]
    exact h.stands (alike.failed.trans running)
  · intro running
    rw [← alike.same running]
    exact h.rest (alike.failed.trans running)

/-- The parser goes on as the machine does, unless a second carriage return comes. -/
theorem run_resumed {data piece : List UInt8} (waits : step limit phase data = .wait)
    (some_byte : piece ≠ [])
    (clean : ∀ p drained count, phase = .chunkEnd p true drained count → piece.head? ≠ some 13) :
    Alike ((httpMachine limit).run phase.resumed (data ++ piece))
      ((httpMachine limit).run phase (data ++ piece)) := by
  cases phase with
  | chunkEnd p heldCR drained count =>
    cases heldCR with
    | false => exact .rfl
    | true =>
      cases unread_of_waits waits
      cases piece with
      | nil => exact absurd rfl some_byte
      | cons x piece =>
        change Alike ((httpMachine limit).run (.chunkEnd p false drained count) (x :: piece))
          ((httpMachine limit).run (.chunkEnd p true drained count) (x :: piece))
        by_cases isLF : x = 10
        · subst isLF
          have take : ∀ heldCR,
              (httpMachine limit).run (.chunkEnd p heldCR drained count) (10 :: piece) =
                (httpMachine limit).run (.chunkSize p (drained + 1) count) piece :=
            fun heldCR => run_take (n := 1) rfl
          rw [take, take]
          exact .rfl
        · have notCR : x ≠ 13 := fun e => clean p drained count rfl (by rw [e]; rfl)
          have fail : ∀ heldCR,
              (httpMachine limit).run (.chunkEnd p heldCR drained count) (x :: piece) =
                ⟨[], .chunkEnd p heldCR drained count, x :: piece, true⟩ := by
            intro heldCR
            apply Machine.run_fail
            simp only [httpMachine_step, step, onByte, endByte, if_neg isLF, notCR, false_and,
              if_false]
          rw [fail, fail]
          exact ⟨rfl, rfl, fun running => (by cases running)⟩
  | startLine | headers | lengthBody | chunkSize | chunkData | eofBody | complete => exact .rfl

variable {pieces : List (List UInt8)}

/-- The pieces after the first one are clean, too. -/
theorem Clean.tail {unread piece : List UInt8} (clean : Clean limit phase unread (piece :: pieces))
    (running : ((httpMachine limit).run phase (unread ++ piece)).failed = false) :
    Clean limit ((httpMachine limit).run phase (unread ++ piece)).state
      ((httpMachine limit).run phase (unread ++ piece)).rest pieces := by
  rintro before piece' after rfl ⟨running', p, drained, count, held⟩
  apply clean (piece :: before) piece' after rfl
  rw [flatten_cons, ← append_assoc, HoldsCR, Machine.run_append_running running]
  exact ⟨running', p, drained, count, held⟩

/-- Pieces without a bad cut are received as the machine takes the whole stream. -/
theorem feedAll_at (h : Stands (getPkgLimit pkgLimit) c phase) (nonempty : ∀ p ∈ pieces, p ≠ [])
    (clean : Clean (getPkgLimit pkgLimit) phase c.input.unread pieces) :
    Reports (getPkgLimit pkgLimit)
      ((httpMachine (getPkgLimit pkgLimit)).run phase (c.input.unread ++ pieces.flatten))
      ((readData (streamer pkgLimit)).feedAll pieces c) := by
  induction pieces generalizing c phase with
  | nil =>
    rw [flatten_nil, append_nil, h.run]
    exact ⟨rfl, rfl, fun _ => h, fun _ => rfl⟩
  | cons piece pieces ih =>
    have some_byte := nonempty piece mem_cons_self
    have first := (feed_at h some_byte).of_alike (run_resumed h.waits some_byte (by
      rintro p drained count rfl
      apply clean [] piece pieces rfl
      rw [flatten_nil, append_nil, HoldsCR, h.run]
      exact ⟨rfl, p, drained, count, rfl⟩))
    simp only [flatten_cons, ← append_assoc, Reader.feedAll]
    cases failed : ((httpMachine (getPkgLimit pkgLimit)).run phase (c.input.unread ++ piece)).failed
      with
    | true =>
      rw [if_pos (first.halted.trans failed), Machine.run_append_failed failed]
      exact ⟨first.items, first.halted, fun running => (by cases failed.symm.trans running),
        fun running => (by cases failed.symm.trans running)⟩
    | false =>
      have later := ih (first.stands failed)
        (fun p hp => nonempty p (mem_cons_of_mem _ hp)) (by
          rw [first.rest failed]
          exact clean.tail failed)
      rw [first.rest failed] at later
      rw [if_neg (ne_true_of_eq_false (first.halted.trans failed)),
        Machine.run_append_running failed]
      refine ⟨?_, later.halted, later.stands, later.rest⟩
      rw [Report.before_items, first.items, later.items]
      rfl

/-- With the end of the file or without it: what is received is what the bytes mean. -/
theorem received_eq (h : Stands (getPkgLimit pkgLimit) c phase) (nonempty : ∀ p ∈ pieces, p ≠ [])
    (clean : Clean (getPkgLimit pkgLimit) phase c.input.unread pieces) (eof : Bool) :
    received pkgLimit c pieces eof =
      meaning (getPkgLimit pkgLimit) phase (c.input.unread ++ pieces.flatten) eof := by
  have reports := feedAll_at h nonempty clean
  generalize bytes : c.input.unread ++ pieces.flatten = stream at reports
  cases eof with
  | false =>
    simp only [received, meaning, Bool.not_false, Bool.or_true, if_true, Bool.false_eq_true, if_false,
      append_nil]
    rw [reports.items, reports.halted]
  | true =>
    simp only [received, meaning, Bool.not_true, Bool.or_false, if_true, Reader.feedAll_append]
    cases failed : ((httpMachine (getPkgLimit pkgLimit)).run phase stream).failed with
    | true =>
      rw [if_pos (reports.halted.trans failed), if_pos rfl, reports.items, reports.halted, failed]
    | false =>
      obtain ⟨items, halted⟩ := feed_end (reports.stands failed)
      rw [if_neg (ne_true_of_eq_false (reports.halted.trans failed)), if_neg Bool.false_ne_true,
        ← items, ← halted, ← reports.items, Reader.feedAll_singleton]
      rfl

/-- On a new connection. -/
theorem received_start (slack : Nat → UInt8) (nonempty : ∀ p ∈ pieces, p ≠ [])
    (clean : Clean (getPkgLimit pkgLimit) .startLine [] pieces) (eof : Bool) :
    received pkgLimit (start (streamer pkgLimit) slack) pieces eof =
      meaning (getPkgLimit pkgLimit) .startLine pieces.flatten eof :=
  received_eq (stands_start pkgLimit (getPkgLimit pkgLimit) slack) nonempty clean eof

/-- Bytes that come in one piece are clean, if no carriage return is held before them. -/
theorem Stands.clean (h : Stands limit c phase) (resumable : Resumable phase)
    (bytes : List UInt8) : Clean limit phase c.input.unread [bytes] := by
  rintro before piece after e ⟨-, p, drained, count, held⟩
  cases before with
  | nil =>
    rw [flatten_nil, append_nil, h.run] at held
    obtain rfl : phase = .chunkEnd p true drained count := held
    cases resumable
  | cons first before => simp at e

theorem clean_singleton (stream : List UInt8) : Clean limit .startLine [] [stream] :=
  (stands_start 0 limit fun _ => 0).clean trivial stream

theorem Clean.concat {piece : List UInt8} (clean : Clean limit .startLine [] pieces)
    (last : HoldsCR limit .startLine pieces.flatten → piece.head? ≠ some 13) :
    Clean limit .startLine [] (pieces ++ [piece]) := by
  rintro before piece' after e held
  rcases eq_nil_or_concat after with rfl | ⟨after, final, rfl⟩
  · obtain ⟨rfl, rfl⟩ := append_inj' e rfl |>.imp_right fun e => (cons.inj e).1
    exact last held
  · rw [concat_eq_append, ← cons_append, ← append_assoc] at e
    exact clean before piece' after (append_inj' e rfl).1 held

/-- Where the machine waits for the line feed, the parser takes a second carriage return and the
machine does not. -/
theorem received_second_CR (slack : Nat → UInt8) (nonempty : ∀ p ∈ pieces, p ≠ [])
    (clean : Clean (getPkgLimit pkgLimit) .startLine [] pieces)
    (held : HoldsCR (getPkgLimit pkgLimit) .startLine pieces.flatten) :
    (received pkgLimit (start (streamer pkgLimit) slack) (pieces ++ [[13]]) false).2 = false ∧
      (received pkgLimit (start (streamer pkgLimit) slack) [pieces.flatten ++ [13]] false).2 =
        true := by
  obtain ⟨running, p, drained, count, state⟩ := held
  have reports := feedAll_at (stands_start pkgLimit (getPkgLimit pkgLimit) slack) nonempty clean
  change Reports _ ((httpMachine _).run .startLine pieces.flatten) _ at reports
  have stands := reports.stands running
  have rest := reports.rest running
  rw [state] at stands
  have empty := unread_of_waits stands.waits
  constructor
  · have later := feed_at stands (cons_ne_nil 13 [])
    have takes : (httpMachine (getPkgLimit pkgLimit)).run (.chunkEnd p false drained count) [13] =
        ⟨[], .chunkEnd p true (drained + 1) count, [], false⟩ :=
      (run_take (n := 1) rfl).trans (Machine.run_wait rfl)
    simp only [received, Bool.false_eq_true, if_false, append_nil, Reader.feedAll_append]
    rw [if_neg (ne_true_of_eq_false (reports.halted.trans running)), Reader.feedAll_singleton,
      Report.before_halted, later.halted, empty]
    exact congrArg (·.failed) takes
  · rw [received_start slack (by simp) (clean_singleton _)]
    have fails : (httpMachine (getPkgLimit pkgLimit)).run (.chunkEnd p true drained count) [13] =
        ⟨[], .chunkEnd p true drained count, [13], true⟩ := Machine.run_fail rfl
    simp only [meaning, Bool.not_false, Bool.or_true, if_true, flatten_singleton]
    rw [Machine.run_append_running running, state, ← rest, empty]
    exact congrArg (·.failed) fails

/-- Streams are received alike however they are cut, as long as the cuts are clean. A cut before
the byte `b` is harmless whatever comes after it, unless `b` is a second carriage return. -/
theorem received_alike_iff (pkgLimit : Nat) :
    (∀ (slack slack' : Nat → UInt8) (pieces pieces' : List (List UInt8)) (eof : Bool),
      (∀ p ∈ pieces, p ≠ []) → (∀ p ∈ pieces', p ≠ []) → pieces.flatten = pieces'.flatten →
      Clean (getPkgLimit pkgLimit) .startLine [] pieces →
      Clean (getPkgLimit pkgLimit) .startLine [] pieces' →
      received pkgLimit (start (streamer pkgLimit) slack) pieces eof =
        received pkgLimit (start (streamer pkgLimit) slack') pieces' eof) ∧
    ∀ (slack : Nat → UInt8) (pieces : List (List UInt8)) (b : UInt8),
      (∀ p ∈ pieces, p ≠ []) → Clean (getPkgLimit pkgLimit) .startLine [] pieces →
      ((∀ (rest : List UInt8) (eof : Bool),
        received pkgLimit (start (streamer pkgLimit) slack) (pieces ++ [b :: rest]) eof =
          received pkgLimit (start (streamer pkgLimit) slack) [pieces.flatten ++ b :: rest] eof) ↔
        ¬ (HoldsCR (getPkgLimit pkgLimit) .startLine pieces.flatten ∧ b = 13)) := by
  constructor
  · intro slack slack' pieces pieces' eof nonempty nonempty' same clean clean'
    rw [received_start slack nonempty clean, received_start slack' nonempty' clean', same]
  · intro slack pieces b nonempty clean
    constructor
    · rintro alike ⟨held, rfl⟩
      obtain ⟨cut, whole⟩ := received_second_CR slack nonempty clean held
      have := congrArg (·.2) (alike [] false)
      rw [cut, whole] at this
      cases this
    · intro harmless rest eof
      rw [received_start slack (by simp) (clean_singleton _), received_start slack]
      · rw [flatten_append, flatten_singleton, flatten_singleton]
      · intro p hp
        rcases mem_append.mp hp with hp | hp
        · exact nonempty p hp
        · rw [mem_singleton.mp hp]
          exact cons_ne_nil b rest
      · apply clean.concat
        intro held isCR
        exact harmless ⟨held, Option.some.inj isCR⟩

theorem received_alike_request :
    received 0 (start (streamer 0) fun _ => 0) [ascii "GET / HT", ascii "TP/1.1\n\n"] true =
      received 0 (start (streamer 0) fun _ => 0) [ascii "GET / HTTP/1.1\n\n"] true := by
  refine (received_alike_iff 0).1 _ _ _ _ _ (by decide) (by decide) (by decide) ?_
    (clean_singleton _)
  refine Clean.concat (clean_singleton (ascii "GET / HT")) fun _ => ?_
  decide

/-- A chunk whose line end is a carriage return too many. -/
theorem second_CR_accepted :
    received 0 (start (streamer 0) fun _ => 0)
        [ascii "HTTP/1.1 200 OK\r\nTransfer-Encoding: chunked\r\n\r\n3\r\nabc\r",
          ascii "\r\n0\r\n\r\n"] false ≠
      received 0 (start (streamer 0) fun _ => 0)
        [ascii "HTTP/1.1 200 OK\r\nTransfer-Encoding: chunked\r\n\r\n3\r\nabc\r" ++
          ascii "\r\n0\r\n\r\n"] false := by
  decide +kernel

end Cuts

end HTTPMachine

end AgentEngine.Anet
