import AgentEngine.Anet.HttpBodies

/-!
The read loop of `TCPConnection` over `HTTPStreamer` follows the machine.

`Stands` says that the loop has stopped where the machine waits. `feed_at` is about one piece of
input, `feed_end` about the end of the file.
-/

namespace AgentEngine.Anet

open Lib

/-- How the parser goes on in a phase: it does not know any more that it dropped a carriage
return. -/
def HTTPPhase.resumed : HTTPPhase → HTTPPhase
  | .chunkEnd packet _ drained count => .chunkEnd packet false drained count
  | phase => phase

namespace HTTPMachine

open HTTPStreamer HTTPStreamingContext TCPConnection

/-! ### The loop ends -/

section Productive

variable {limit : Nat} {b : DataBuffer} {c : HTTPStreamingContext}

theorem length_fromHeader (limit : Nat) (b : DataBuffer) (c : HTTPStreamingContext) :
    (fromHeader limit b c).1.unread.length ≤ b.unread.length := by
  have headers : (processHeaders limit b c).2.1.unread.length ≤ b.unread.length := by
    have := (onward_headers limit b c).length_le
    unfold processHeaders
    dsimp only
    split <;> exact this
  unfold fromHeader
  dsimp only
  split
  · exact (onward_fromBody limit _ _).length_le.trans headers
  · exact headers

theorem length_fromStart (limit : Nat) (b : DataBuffer) (c : HTTPStreamingContext) :
    (fromStart limit b c).1.unread.length ≤ b.unread.length := by
  have start : (processStartLine limit b c).2.1.unread.length ≤ b.unread.length := by
    unfold processStartLine
    split
    · exact le_rfl
    · split
      · exact le_rfl
      · exact length_drainData b _
  unfold fromStart
  dsimp only
  split
  · exact (length_fromHeader limit _ _).trans start
  · exact start

theorem completed_parseStartLine (line : List UInt8) (c : HTTPStreamingContext) :
    (parseStartLine line c).2.completed = c.completed := by
  obtain ⟨f, -, h | ⟨errorNo, h⟩⟩ := uniform_startLine line
  · rw [h]
    rfl
  · rw [h]
    rfl

/-- A start line that is complete takes some byte; one that is not completes nothing. -/
theorem fromStart_completes (fresh : c.completed = false)
    (completed : (fromStart limit b c).2.completed = true) :
    (fromStart limit b c).1.unread.length < b.unread.length := by
  have start : ((processStartLine limit b c).1 = true →
      (processStartLine limit b c).2.1.unread.length < b.unread.length) ∧
      (processStartLine limit b c).2.2.completed = false := by
    unfold processStartLine
    split
    · refine ⟨fun e => (by cases e), ?_⟩
      dsimp only
      split <;> exact fresh
    · rename_i line length found
      have taken := findCRLF_length found
      split
      · exact ⟨fun e => (by cases e), fresh⟩
      · refine ⟨fun _ => ?_, (completed_parseStartLine line _).trans fresh⟩
        change (b.drainData length).unread.length < _
        rw [DataBuffer.unread_drainData, List.length_drop]
        omega
  unfold fromStart at completed ⊢
  dsimp only at completed ⊢
  split at completed
  · rename_i finished
    rw [if_pos finished]
    exact (length_fromHeader limit _ _).trans_lt (start.1 finished)
  · cases completed.symm.trans start.2

theorem productive (pkgLimit : Nat) : (readData (streamer pkgLimit)).Productive := by
  intro c item c' h
  obtain ⟨packet, context, processed, completed, -, -, fresh⟩ := pass_deliver h
  change processData (getPkgLimit pkgLimit) c.input c.context = _ at processed
  have input : (advance (getPkgLimit pkgLimit) c.input c.context).1 = c'.input :=
    congrArg (·.2.1) processed
  have flag : (advance (getPkgLimit pkgLimit) c.input c.context).2.completed = true := by
    have same : (atEndOfFile (advance (getPkgLimit pkgLimit) c.input c.context).2) = context :=
      congrArg (·.2.2) processed
    rw [← same, atEndOfFile] at completed
    split at completed <;> exact completed
  change quota c'.input.unread.length c'.context < quota c.input.unread.length c.context
  rw [← input, fresh, quota, if_pos ⟨rfl, rfl⟩, quota]
  split
  · rename_i start
    unfold advance at flag ⊢
    rw [start.1] at flag ⊢
    exact fromStart_completes start.2 flag
  · refine Nat.lt_succ_of_le ?_
    unfold advance
    split
    · exact length_fromStart _ _ _
    · exact length_fromHeader _ _ _
    · exact (onward_fromBody _ _ _).length_le

end Productive

/-! ### Passes -/

section Passes

variable {pkgLimit limit : Nat} {c : Reading HTTPPacket HTTPFields} {phase s₀ : HTTPPhase}
  {bytes : List UInt8}

/-- The read loop has stopped where the machine waits. -/
structure Stands (limit : Nat) (c : Reading HTTPPacket HTTPFields) (phase : HTTPPhase) : Prop where
  intact : Intact c.context false
  inside : c.input.pdata ≤ c.input.mem.length
  showing : Shows c.context phase
  waits : step limit phase c.input.unread = .wait

theorem Stands.run (h : Stands limit c phase) :
    (httpMachine limit).run phase c.input.unread = ⟨[], phase, c.input.unread, false⟩ :=
  Machine.run_wait h.waits

theorem stands_start (pkgLimit limit : Nat) (slack : Nat → UInt8) :
    Stands limit (start (streamer pkgLimit) slack) .startLine := by
  refine ⟨⟨rfl, rfl, rfl⟩, le_rfl, ⟨rfl, rfl, rfl, rfl⟩, ?_⟩
  change (if 0 > limit then Move.fail else Move.wait) = _
  exact if_neg (Nat.not_lt_zero limit)

theorem run_startLine_nil (limit : Nat) :
    (httpMachine limit).run .startLine [] = ⟨[], .startLine, [], false⟩ :=
  (stands_start 0 limit fun _ => 0).run

/-- How a pass ends, and where the machine gets. -/
inductive PassAt (limit : Nat) (s₀ : HTTPPhase) (bytes : List UInt8) :
    Pass (Reading HTTPPacket HTTPFields) HTTPPacket → Prop where
  | deliver {c : Reading HTTPPacket HTTPFields} {p : HTTPPacket}
      (reach : (httpMachine limit).Reaches s₀ bytes (.complete p) c.input.unread)
      (fresh : At limit false .startLine c.input.unread c.input c.context .startLine) :
      PassAt limit s₀ bytes (.deliver p c)
  | starve {c : Reading HTTPPacket HTTPFields} {phase : HTTPPhase}
      (reach : (httpMachine limit).Reaches s₀ bytes phase c.input.unread)
      (stands : Stands limit c phase) : PassAt limit s₀ bytes (.starve c)
  | halt {c : Reading HTTPPacket HTTPFields} {phase : HTTPPhase} {data : List UInt8}
      (reach : (httpMachine limit).Reaches s₀ bytes phase data)
      (failed : step limit phase data = .fail) : PassAt limit s₀ bytes (.halt c)

section Round

variable {b : DataBuffer} {context : HTTPStreamingContext}
  (advanced : advance (getPkgLimit pkgLimit) c.input c.context = (b, context))

include advanced

theorem processData_eq : (streamer pkgLimit).processData c.input c.context =
    (!(atEndOfFile context).broken, b, atEndOfFile context) := by
  change processData _ _ _ = _
  rw [processData, advanced]

theorem pass_broken (broken : (atEndOfFile context).broken = true) :
    (readData (streamer pkgLimit)).pass c = .halt ⟨b, atEndOfFile context⟩ := by
  change readRound (streamer pkgLimit) c = _
  simp only [readRound, processData_eq advanced, broken, Bool.not_true, Bool.false_and,
    Bool.false_eq_true, if_false, if_true]

variable (intact : (atEndOfFile context).broken = false)
include intact

theorem pass_complete {p : HTTPPacket} (completed : (atEndOfFile context).completed = true)
    (held : (atEndOfFile context).packet = some p) :
    (readData (streamer pkgLimit)).pass c = .deliver p ⟨b, { ext := {} }⟩ := by
  change readRound (streamer pkgLimit) c = _
  simp only [readRound, processData_eq advanced, intact, completed, held, Bool.not_false,
    Bool.true_and, if_true]
  rfl

theorem pass_waits (completed : (atEndOfFile context).completed = false) :
    (readData (streamer pkgLimit)).pass c = .starve ⟨b, atEndOfFile context⟩ := by
  change readRound (streamer pkgLimit) c = _
  simp only [readRound, processData_eq advanced, intact, completed, Bool.and_false,
    Bool.false_eq_true, if_false]

end Round

theorem atEndOfFile_running {context : HTTPStreamingContext} (running : context.eof = false) :
    atEndOfFile context = context := by
  rw [atEndOfFile, if_neg]
  rintro ⟨end_, -⟩
  cases running.symm.trans end_

theorem broken_atEndOfFile {context : HTTPStreamingContext} (broken : context.broken = true) :
    (atEndOfFile context).broken = true := by
  unfold atEndOfFile
  split
  · rfl
  · exact broken

theorem pass_at (resumable : Resumable phase)
    (h : At (getPkgLimit pkgLimit) false s₀ bytes c.input c.context phase) :
    PassAt (getPkgLimit pkgLimit) s₀ bytes ((readData (streamer pkgLimit)).pass c) := by
  have arrives := advance_at resumable h
  generalize advanced : advance (getPkgLimit pkgLimit) c.input c.context = r at arrives
  cases arrives with
  | broken broken reach failed =>
    rw [pass_broken advanced (broken_atEndOfFile broken)]
    exact .halt reach failed
  | @complete b context p intact inside held reach =>
    have running : atEndOfFile { context with completed := true } =
        { context with completed := true } := atEndOfFile_running intact.eof
    rw [pass_complete (p := p) advanced]
    · exact .deliver reach ⟨⟨rfl, rfl, rfl⟩, inside, ⟨rfl, rfl, rfl, rfl⟩, .refl _ _⟩
    · rw [running]
      exact intact.broken
    · rw [running]
    · rw [running]
      exact held
  | closes intact inside end_ => cases end_
  | waits phase intact inside showing reach waits =>
    have running := atEndOfFile_running intact.eof
    rw [pass_waits advanced (by rw [running, intact.broken]) (by rw [running, intact.completed]),
      running]
    exact .starve reach ⟨intact, inside, showing, waits⟩

/-- At the end of the file, only a body that it ends is completed. -/
def ends : HTTPPhase → List HTTPPacket × Bool
  | .eofBody p => if p.type = .request then ([], true) else ([p], false)
  | _ => ([], true)

theorem advance_eofBody (limit : Nat) (b : DataBuffer) {context : HTTPStreamingContext}
    {p : HTTPPacket} (showing : context.Shows (.eofBody p)) (end_ : context.eof = true) :
    (advance limit b context).2.completed = true := by
  obtain ⟨-, hstep, encodingType⟩ := showing
  simp only [advance, hstep, fromBody, processBody, encodingType, processEOFBody, end_, if_true]

/-- The end of the file for a machine that waits: the loop halts, or it delivers the packet whose
body ends here and waits for a start line. -/
theorem pass_end (resumable : Resumable phase)
    (h : At (getPkgLimit pkgLimit) true phase c.input.unread c.input c.context phase)
    (waits : step (getPkgLimit pkgLimit) phase c.input.unread = .wait) :
    (ends phase = ([], true) ∧ ∃ c', (readData (streamer pkgLimit)).pass c = .halt c') ∨
      ∃ p c', ends phase = ([p], false) ∧ (readData (streamer pkgLimit)).pass c = .deliver p c' ∧
        c'.input.unread = [] ∧
        At (getPkgLimit pkgLimit) false .startLine c'.input.unread c'.input c'.context .startLine := by
  have arrives := advance_at resumable h
  have stays : ∀ {t data}, (httpMachine (getPkgLimit pkgLimit)).Reaches phase c.input.unread t data →
      t = phase ∧ data = c.input.unread := by
    intro t data reach
    cases reach with
    | refl => exact ⟨rfl, rfl⟩
    | take first => cases waits.symm.trans first
  generalize advanced : advance (getPkgLimit pkgLimit) c.input c.context = r at arrives
  cases arrives with
  | broken _ reach failed =>
    obtain ⟨rfl, rfl⟩ := stays reach
    cases waits.symm.trans failed
  | complete _ _ _ reach =>
    obtain ⟨rfl, -⟩ := stays reach
    cases waits
  | @waits b context phase' intact inside showing reach =>
    have closed : (atEndOfFile context).broken = true := by
      rw [atEndOfFile, if_pos ⟨intact.eof, .inr ⟨intact.completed, intact.broken⟩⟩]
      rfl
    refine .inl ⟨?_, _, pass_broken advanced closed⟩
    cases phase with
    | eofBody p =>
      have completed := advance_eofBody (getPkgLimit pkgLimit) c.input h.showing h.intact.eof
      rw [advanced] at completed
      cases intact.completed.symm.trans completed
    | startLine | headers | lengthBody | chunkSize | chunkData | chunkEnd | complete => rfl
  | @closes b context p intact inside end_ held reach used =>
    obtain ⟨rfl, -⟩ := stays reach
    by_cases request : p.type = .request
    · refine .inl ⟨if_pos request, _, pass_broken advanced ?_⟩
      rw [atEndOfFile, if_pos ⟨intact.eof, .inl (by rw [held, Option.map_some, request])⟩]
      rfl
    · have kept : atEndOfFile { context with completed := true } =
          { context with completed := true } := by
        rw [atEndOfFile, if_neg]
        rintro ⟨-, type | ⟨open_, -⟩⟩
        · rw [held, Option.map_some, Option.some.injEq] at type
          exact request type
        · cases open_
      refine .inr ⟨p, ⟨b, { ext := {} }⟩, if_neg request, ?_, used,
        ⟨⟨rfl, rfl, rfl⟩, inside, ⟨rfl, rfl, rfl, rfl⟩, .refl _ _⟩⟩
      apply pass_complete advanced
      · rw [kept]
        exact intact.broken
      · rw [kept]
      · rw [kept]
        exact held

end Passes

/-! ### Pieces of input -/

section Pieces

variable {pkgLimit limit : Nat} {c : Reading HTTPPacket HTTPFields} {phase s₀ : HTTPPhase}
  {bytes : List UInt8}

/-- What the read loop reports is what the machine comes to. -/
structure Reports (limit : Nat) (o : Outcome HTTPPhase HTTPPacket UInt8)
    (r : Report (Reading HTTPPacket HTTPFields) HTTPPacket) : Prop where
  items : r.items = o.items
  halted : r.halted = o.failed
  stands : o.failed = false → Stands limit r.state o.state
  rest : o.failed = false → r.state.input.unread = o.rest

theorem exhaust_at (resumable : Resumable phase)
    (h : At (getPkgLimit pkgLimit) false s₀ bytes c.input c.context phase) :
    Reports (getPkgLimit pkgLimit) ((httpMachine (getPkgLimit pkgLimit)).run s₀ bytes)
      ((readData (streamer pkgLimit)).exhaust c) := by
  have prod := productive pkgLimit
  induction c using Reader.exhaust_induction prod generalizing s₀ bytes phase with
      have at_ := pass_at resumable h
  | deliver c item c' hp ih =>
    rw [hp] at at_
    rw [Reader.exhaust_deliver prod hp]
    cases at_ with
    | deliver reach fresh =>
      have reports := ih (show Resumable .startLine from trivial) fresh
      rw [reach.run, run_complete]
      exact ⟨congrArg ([item] ++ ·) reports.items, reports.halted, reports.stands, reports.rest⟩
  | starve c c' hp =>
    rw [hp] at at_
    rw [Reader.exhaust_starve hp]
    cases at_ with
    | starve reach stands =>
      rw [reach.run, stands.run]
      exact ⟨rfl, rfl, fun _ => stands, fun _ => rfl⟩
  | halt c c' hp =>
    rw [hp] at at_
    rw [Reader.exhaust_halt hp]
    cases at_ with
    | halt reach failed =>
      rw [reach.run, run_fail failed]
      exact ⟨rfl, rfl, nofun, nofun⟩

theorem shows_resumed {context : HTTPStreamingContext} (h : context.Shows phase) :
    context.Shows phase.resumed := by
  cases phase <;> exact h

theorem resumable_resumed (phase : HTTPPhase) : Resumable phase.resumed := by
  cases phase <;> trivial

theorem feed_at (h : Stands (getPkgLimit pkgLimit) c phase) {piece : List UInt8}
    (some_byte : piece ≠ []) :
    Reports (getPkgLimit pkgLimit)
      ((httpMachine (getPkgLimit pkgLimit)).run phase.resumed (c.input.unread ++ piece))
      ((readData (streamer pkgLimit)).feed piece c) := by
  refine exhaust_at (resumable_resumed phase) ⟨?_, ?_, ?_, ?_⟩
  · refine ⟨h.intact.broken, h.intact.completed, ?_⟩
    change (c.context.eof || piece.isEmpty) = false
    rw [h.intact.eof, Bool.false_or, List.isEmpty_eq_false_iff]
    exact some_byte
  · exact DataBuffer.pourData_inside h.inside piece
  · cases phase <;> exact shows_resumed h.showing
  · change (httpMachine _).Reaches _ _ _ (c.input.pourData piece).unread
    rw [DataBuffer.unread_pourData h.inside]
    exact .refl _ _

/-- What it was that the parser forgot plays no role as long as no byte comes. -/
theorem step_resumed {data : List UInt8} (h : step limit phase data = .wait) :
    step limit phase.resumed data = .wait := by
  cases phase with
  | chunkEnd p heldCR drained count =>
    cases data with
    | nil => rfl
    | cons x data =>
      simp only [step, onByte] at h
      split at h <;> cases h
  | startLine | headers | lengthBody | chunkSize | chunkData | eofBody | complete => exact h

theorem feed_end (h : Stands (getPkgLimit pkgLimit) c phase) :
    ((readData (streamer pkgLimit)).feed [] c).items = (ends phase).1 ∧
      ((readData (streamer pkgLimit)).feed [] c).halted = (ends phase).2 := by
  have prod := productive pkgLimit
  have same : ends phase.resumed = ends phase := by cases phase <;> rfl
  have unread : (receive [] c).input.unread = c.input.unread := by
    change (c.input.pourData []).unread = _
    rw [DataBuffer.unread_pourData h.inside, List.append_nil]
  have waits := step_resumed h.waits
  rw [← unread] at waits
  have at_ : At (getPkgLimit pkgLimit) true phase.resumed (receive [] c).input.unread
      (receive [] c).input (receive [] c).context phase.resumed := by
    refine ⟨⟨h.intact.broken, h.intact.completed, Bool.or_true _⟩,
      DataBuffer.pourData_inside h.inside [], ?_, .refl _ _⟩
    cases phase <;> exact shows_resumed h.showing
  change ((readData (streamer pkgLimit)).exhaust (receive [] c)).items = _ ∧
    ((readData (streamer pkgLimit)).exhaust (receive [] c)).halted = _
  rw [← same]
  rcases pass_end (resumable_resumed phase) at_ waits with
    ⟨e, c', halts⟩ | ⟨p, c', e, delivers, used, next⟩
  · rw [e, Reader.exhaust_halt halts]
    exact ⟨rfl, rfl⟩
  · have reports := exhaust_at (show Resumable .startLine from trivial) next
    rw [used] at reports
    rw [e, Reader.exhaust_deliver prod delivers, Report.before_items,
      Report.before_halted, reports.items, reports.halted, run_startLine_nil]
    exact ⟨rfl, rfl⟩

end Pieces

end HTTPMachine

end AgentEngine.Anet
