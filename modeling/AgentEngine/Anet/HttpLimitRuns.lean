import AgentEngine.Anet.HttpLimits

/-!
The package limit along whole runs of the read loop.

`Run` follows the loop read by read and packet by packet; it notes where in the stream the message
at hand began, and how many bytes each delivered packet took. `within_limit_iff` is the result:
messages stay within the limit, unless their body lasts until the end of the file.
-/

namespace AgentEngine.Anet

open Lib List DataBuffer

namespace HTTPStreamer

open HTTPStreamingContext TCPConnection HTTPMachine

/-- What the read loop is doing: waiting for a read, working on what was read, or finished because
the context is broken. -/
inductive Stage where
  | idle
  | busy
  | halted
deriving DecidableEq

/-- The read loop on any stream, cut in any way; a read of no bytes is the end of the file. The
message at hand began at `origin`, and `log` has the delivered packets with their sizes. -/
inductive Run (pkgLimit : Nat) (slack : Nat → UInt8) :
    Stage → Reading HTTPPacket HTTPFields → Nat → List (HTTPPacket × Nat) → Prop where
  | start : Run pkgLimit slack .idle (start (streamer pkgLimit) slack) 0 []
  | read (piece : List UInt8) {c : Reading HTTPPacket HTTPFields} {origin : Nat}
      {log : List (HTTPPacket × Nat)} (before : Run pkgLimit slack .idle c origin log) :
      Run pkgLimit slack .busy (receive piece c) origin log
  | deliver {c c' : Reading HTTPPacket HTTPFields} {origin : Nat} {log : List (HTTPPacket × Nat)}
      {p : HTTPPacket} (before : Run pkgLimit slack .busy c origin log)
      (pass : (readData (streamer pkgLimit)).pass c = .deliver p c') :
      Run pkgLimit slack .busy c' c'.input.pdata (log ++ [(p, c'.input.pdata - origin)])
  | starve {c c' : Reading HTTPPacket HTTPFields} {origin : Nat} {log : List (HTTPPacket × Nat)}
      (before : Run pkgLimit slack .busy c origin log)
      (pass : (readData (streamer pkgLimit)).pass c = .starve c') :
      Run pkgLimit slack .idle c' origin log
  | halt {c c' : Reading HTTPPacket HTTPFields} {origin : Nat} {log : List (HTTPPacket × Nat)}
      (before : Run pkgLimit slack .busy c origin log)
      (pass : (readData (streamer pkgLimit)).pass c = .halt c') :
      Run pkgLimit slack .halted c' origin log

/-! ### Steps of the loop -/

section Steps

variable {limit origin : Nat} {b : DataBuffer} {c : HTTPStreamingContext}

/-- More bytes in the buffer change nothing of what was counted. -/
theorem Accounted.receive (h : Accounted limit origin b c) (bytes : List UInt8) (eof : Bool) :
    Accounted limit origin (b.pourData bytes) { c with eof } := by
  have counted : Counted limit origin b c →
      Counted limit origin (b.pourData bytes) { c with eof } :=
    fun h => ⟨pourData_inside h.inside bytes, h.offset, h.body⟩
  unfold Accounted at h ⊢
  dsimp only at h ⊢
  split at h
  · exact ⟨counted h.1, h.2⟩
  · exact ⟨counted h.1, h.2⟩
  · unfold InBody at h ⊢
    dsimp only at h ⊢
    split at h
    · exact ⟨counted h.1, h.2⟩
    · exact ⟨counted h.1, h.2⟩
    · exact ⟨counted h.1, h.2⟩
    · exact ⟨pourData_inside h.1 bytes, h.2⟩

theorem accounted_fresh (inside : b.pdata ≤ b.mem.length) :
    Accounted limit b.pdata b { ext := {} } :=
  ⟨⟨inside, rfl, fun _ held => (nomatch held)⟩, rfl⟩

theorem Finished.inside (h : Finished limit origin b c) : b.pdata ≤ b.mem.length := by
  unfold Finished at h
  split at h
  · exact h.1
  · exact h.1.inside

/-- A message that is complete is within the limit, unless the end of the file delimits it. -/
theorem Finished.size (h : Finished limit origin b c) {p : HTTPPacket} (held : c.packet = some p)
    (other : ¬ EofDelimited p) : p.body.length ≤ limit ∧ b.pdata - origin ≤ limit := by
  unfold Finished at h
  split at h
  · obtain ⟨-, p', held', delimited, -⟩ := h
    cases held.symm.trans held'
    exact absurd delimited other
  · refine ⟨(h.1.body p held).2, ?_⟩
    rw [h.1.offset, Nat.add_sub_cancel_left]
    exact h.2

theorem atEndOfFile_intact (intact : (atEndOfFile c).broken = false) : atEndOfFile c = c := by
  unfold atEndOfFile at intact ⊢
  split at intact
  · cases intact
  · rename_i other
    exact if_neg other

theorem packet_atEndOfFile (c : HTTPStreamingContext) : (atEndOfFile c).packet = c.packet := by
  unfold atEndOfFile
  split <;> rfl

end Steps

/-- What holds in every state of a run. -/
structure Sound (limit : Nat) (stage : Stage) (c : Reading HTTPPacket HTTPFields) (origin : Nat)
    (log : List (HTTPPacket × Nat)) : Prop where
  bounded : Bounded limit c.context
  log : ∀ entry ∈ log, ¬ EofDelimited entry.1 → entry.1.body.length ≤ limit ∧ entry.2 ≤ limit
  accounted : stage ≠ .halted → Accounted limit origin c.input c.context ∧
    c.context.completed = false
  idle : stage = .idle → ∃ phase, Stands limit c phase
  busy : stage = .busy → ∃ phase, Resumable phase ∧
    At limit c.context.eof phase c.input.unread c.input c.context phase ∧
    (c.context.eof = true → step limit phase c.input.unread = .wait)

section Runs

variable {pkgLimit origin : Nat} {slack : Nat → UInt8} {c c' : Reading HTTPPacket HTTPFields}
  {log : List (HTTPPacket × Nat)}

theorem Accounted.bounded {limit : Nat} {b : DataBuffer} {c : HTTPStreamingContext}
    (h : Accounted limit origin b c) : Bounded limit c := by
  unfold Accounted at h
  split at h
  · exact h.1.bounded
  · exact h.1.bounded
  · exact h.bounded

theorem sound_start : Sound (getPkgLimit pkgLimit) .idle (start (streamer pkgLimit) slack) 0 [] :=
  ⟨fun _ held => (nomatch held), fun _ h => absurd h not_mem_nil,
    fun _ => ⟨⟨⟨Nat.le_refl 0, rfl, fun _ held => (nomatch held)⟩, rfl⟩, rfl⟩,
    fun _ => ⟨.startLine, stands_start pkgLimit _ slack⟩, fun e => (nomatch e)⟩

theorem Sound.read (h : Sound (getPkgLimit pkgLimit) .idle c origin log) (piece : List UInt8) :
    Sound (getPkgLimit pkgLimit) .busy (receive piece c) origin log := by
  obtain ⟨accounted, fresh⟩ := h.accounted (fun e => (nomatch e))
  obtain ⟨phase, stands⟩ := h.idle rfl
  refine ⟨h.bounded, h.log, fun _ => ⟨accounted.receive piece _, fresh⟩, fun e => (nomatch e),
    fun _ => ⟨phase.resumed, resumable_resumed phase, ⟨?_, ?_, ?_, .refl _ _⟩, ?_⟩⟩
  · exact ⟨stands.intact.broken, stands.intact.completed, rfl⟩
  · exact pourData_inside stands.inside piece
  · cases phase <;> exact shows_resumed stands.showing
  · intro end_
    change (c.context.eof || piece.isEmpty) = true at end_
    rw [stands.intact.eof, Bool.false_or, List.isEmpty_iff] at end_
    subst end_
    change step _ _ (c.input.pourData []).unread = _
    rw [unread_pourData stands.inside, List.append_nil]
    exact step_resumed stands.waits

section

variable (h : Sound (getPkgLimit pkgLimit) .busy c origin log)
include h

/-- What a pass makes of the message at hand. -/
theorem Sound.advanced {ok : Bool} {b : DataBuffer} {context : HTTPStreamingContext}
    (processed : (streamer pkgLimit).processData c.input c.context = (ok, b, context)) :
    ∃ context', Advanced (getPkgLimit pkgLimit) origin (b, context') ∧
      context = atEndOfFile context' ∧ ok = !context.broken := by
  obtain ⟨accounted, fresh⟩ := h.accounted (fun e => (nomatch e))
  have advanced := advanced_of_accounted accounted fresh
  generalize e : advance (getPkgLimit pkgLimit) c.input c.context = r at advanced
  obtain ⟨b', context'⟩ := r
  cases (processData_eq e).symm.trans processed
  exact ⟨context', advanced, rfl, rfl⟩

theorem Sound.deliver {p : HTTPPacket}
    (pass : (readData (streamer pkgLimit)).pass c = .deliver p c') :
    Sound (getPkgLimit pkgLimit) .busy c' c'.input.pdata (log ++ [(p, c'.input.pdata - origin)]) := by
  obtain ⟨packet, context, processed, completed, held, rfl, new⟩ := pass_deliver pass
  obtain ⟨context', advanced, rfl, ok⟩ := h.advanced processed
  have same := atEndOfFile_intact (Bool.not_eq_true' _ ▸ ok.symm)
  rw [same] at completed held
  have finished := advanced.finished completed
  obtain ⟨b, fresh⟩ := c'
  obtain rfl : fresh = { ext := {} } := new
  refine ⟨fun _ held => (nomatch held), ?_, fun _ => ⟨accounted_fresh finished.inside, rfl⟩,
    fun e => (nomatch e), fun _ => ⟨.startLine, trivial, ⟨⟨rfl, rfl, rfl⟩, finished.inside,
      ⟨rfl, rfl, rfl, rfl⟩, .refl _ _⟩, fun e => (nomatch e)⟩⟩
  intro entry mem other
  rcases mem_append.mp mem with mem | mem
  · exact h.log entry mem other
  · cases mem_singleton.mp mem
    exact finished.size held other

theorem Sound.starve (pass : (readData (streamer pkgLimit)).pass c = .starve c') :
    Sound (getPkgLimit pkgLimit) .idle c' origin log := by
  obtain ⟨ok, processed, unfinished, intact⟩ := pass_starve pass
  obtain ⟨context', advanced, e, rfl⟩ := h.advanced processed
  have completed := unfinished (by rw [intact]; rfl)
  have same : context' = c'.context := by
    rw [e] at intact ⊢
    exact (atEndOfFile_intact intact).symm
  subst same
  have accounted := advanced.unfinished completed intact
  refine ⟨accounted.bounded, h.log, fun _ => ⟨accounted, completed⟩, fun _ => ?_, fun e => (nomatch e)⟩
  obtain ⟨phase, resumable, at_, waits⟩ := h.busy rfl
  cases eof : c.context.eof with
  | false =>
    rw [eof] at at_
    have passAt := pass_at resumable at_
    rw [pass] at passAt
    cases passAt with
    | starve reach stands => exact ⟨_, stands⟩
  | true =>
    rw [eof] at at_
    rcases pass_end resumable at_ (waits eof) with ⟨-, c'', halts⟩ | ⟨p, c'', -, delivers, -⟩
    · cases pass.symm.trans halts
    · cases pass.symm.trans delivers

theorem Sound.halt (pass : (readData (streamer pkgLimit)).pass c = .halt c') :
    Sound (getPkgLimit pkgLimit) .halted c' origin log := by
  obtain ⟨ok, processed⟩ := pass_halt pass
  obtain ⟨context', advanced, e, -⟩ := h.advanced processed
  refine ⟨?_, h.log, fun e => absurd rfl e, fun e => (nomatch e), fun e => (nomatch e)⟩
  intro p held
  rw [e, packet_atEndOfFile] at held
  exact advanced.bounded p held

end

theorem Run.sound {stage : Stage} (run : Run pkgLimit slack stage c origin log) :
    Sound (getPkgLimit pkgLimit) stage c origin log := by
  induction run with
  | start => exact sound_start
  | read piece _ ih => exact ih.read piece
  | deliver _ pass ih => exact ih.deliver pass
  | starve _ pass ih => exact ih.starve pass
  | halt _ pass ih => exact ih.halt pass

/-- A read that gives no packet. -/
theorem Run.feed (before : Run pkgLimit slack .idle c origin log) {piece : List UInt8}
    (nothing : ((readData (streamer pkgLimit)).feed piece c).items = [])
    (running : ((readData (streamer pkgLimit)).feed piece c).halted = false) :
    Run pkgLimit slack .idle ((readData (streamer pkgLimit)).feed piece c).state origin log := by
  have prod := productive pkgLimit
  change ((readData (streamer pkgLimit)).exhaust (receive piece c)).items = [] at nothing
  change ((readData (streamer pkgLimit)).exhaust (receive piece c)).halted = false at running
  change Run _ _ _ ((readData (streamer pkgLimit)).exhaust (receive piece c)).state _ _
  cases pass : (readData (streamer pkgLimit)).pass (receive piece c) with
  | deliver p c' =>
    rw [Reader.exhaust_deliver prod pass] at nothing
    cases nothing
  | starve c' =>
    rw [Reader.exhaust_starve pass]
    exact (before.read piece).starve pass
  | halt c' =>
    rw [Reader.exhaust_halt pass] at running
    cases running

end Runs

/-! ### Bodies until the end of the file -/

section EndOfFile

variable {pkgLimit : Nat} {c : Reading HTTPPacket HTTPFields} {p : HTTPPacket}

/-- The loop waits for more of a body that lasts until the end of the file. -/
structure AtEofBody (c : Reading HTTPPacket HTTPFields) (p : HTTPPacket) : Prop where
  intact : Intact c.context false
  inside : c.input.pdata ≤ c.input.mem.length
  showing : Shows c.context (.eofBody p)
  used : c.input.unread = []

theorem atEofBody {limit : Nat} {phase : HTTPPhase} (h : Stands limit c phase)
    (hstep : c.context.ext.step = .messageBody) (encodingType : c.context.ext.encodingType = .eof)
    (held : c.context.packet = some p) : AtEofBody c p := by
  refine ⟨h.intact, h.inside, ⟨held, hstep, encodingType⟩, ?_⟩
  have showing := h.showing
  have waits := h.waits
  cases phase with
  | eofBody p' =>
    cases unread : c.input.unread with
    | nil => rfl
    | cons x rest =>
      rw [unread] at waits
      cases waits
  | startLine => cases showing.1.symm.trans hstep
  | headers trailer p' drained count =>
    cases trailer with
    | false => cases showing.2.1.symm.trans hstep
    | true => cases showing.2.2.1.symm.trans encodingType
  | lengthBody | chunkSize | chunkData | chunkEnd => cases showing.2.2.1.symm.trans encodingType
  | complete => cases showing.2.2.symm.trans encodingType

variable (pkgLimit : Nat)

/-- All bytes that come are appended to the body. -/
theorem feed_eofBody (h : AtEofBody c p) {piece : List UInt8} (some_byte : piece ≠ []) :
    ∃ c', (readData (streamer pkgLimit)).feed piece c = ⟨[], c', false⟩ ∧
      AtEofBody c' (p.appendBody piece) ∧ c'.input.pdata = c.input.pdata + piece.length := by
  obtain ⟨held, hstep, encodingType⟩ := h.showing
  have eof : (c.context.eof || piece.isEmpty) = false := by
    rw [h.intact.eof, Bool.false_or, isEmpty_eq_false_iff]
    exact some_byte
  have unread : (c.input.pourData piece).unread = piece := by
    rw [unread_pourData h.inside, h.used, nil_append]
  have length : c.input.unread.length = c.input.mem.length - c.input.pdata := length_drop
  rw [h.used, length_nil] at length
  have advanced : advance (getPkgLimit pkgLimit) (receive piece c).input (receive piece c).context =
      ((c.input.pourData piece).clear,
        { c.context with packet := some (p.appendBody piece), eof := false }) := by
    simp only [advance, receive, DataBuffer.ensureFree_eq, hstep, fromBody, processBody, encodingType, processEOFBody, eof,
      modifyPacket, held, unread, Option.map_some, Bool.false_eq_true, if_false]
  have running : atEndOfFile { c.context with packet := some (p.appendBody piece), eof := false } =
      { c.context with packet := some (p.appendBody piece), eof := false } := atEndOfFile_running rfl
  have pass : (readData (streamer pkgLimit)).pass (receive piece c) = .starve _ :=
    pass_waits advanced (by rw [running]; exact h.intact.broken)
      (by rw [running]; exact h.intact.completed)
  rw [running] at pass
  refine ⟨_, Reader.exhaust_starve pass, ⟨⟨h.intact.broken, h.intact.completed, rfl⟩,
    clear_inside _, ⟨rfl, hstep, encodingType⟩, unread_clear _⟩, ?_⟩
  change (c.input.mem ++ piece).length = _
  rw [length_append]
  have inside := h.inside
  omega

theorem feedAll_eofBody (h : AtEofBody c p) {pieces : List (List UInt8)}
    (nonempty : ∀ piece ∈ pieces, piece ≠ []) :
    ∃ c', (readData (streamer pkgLimit)).feedAll pieces c = ⟨[], c', false⟩ ∧
      AtEofBody c' (p.appendBody pieces.flatten) ∧
      c'.input.pdata = c.input.pdata + pieces.flatten.length := by
  induction pieces generalizing c p with
  | nil =>
    refine ⟨c, rfl, ?_, rfl⟩
    rwa [flatten_nil, HTTPPacket.appendBody_nil]
  | cons piece pieces ih =>
    obtain ⟨c₁, first, at₁, offset₁⟩ :=
      feed_eofBody pkgLimit h (nonempty piece mem_cons_self)
    obtain ⟨c₂, later, at₂, offset₂⟩ := ih at₁ fun q hq => nonempty q (mem_cons_of_mem _ hq)
    refine ⟨c₂, ?_, ?_, ?_⟩
    · simp only [Reader.feedAll, first, Bool.false_eq_true, if_false, later]
      rfl
    · rwa [HTTPPacket.appendBody_appendBody] at at₂
    · rw [offset₂, offset₁, flatten_cons, length_append, add_assoc]

/-- A new message of which no byte is there yet. -/
theorem exhaust_fresh {b : DataBuffer} (empty : b.unread = []) :
    (readData (streamer pkgLimit)).exhaust ⟨b, { ext := {} }⟩ =
      ⟨[], ⟨b, { ext := {} }⟩, false⟩ := by
  have advanced : advance (getPkgLimit pkgLimit) b { ext := {} } = (b, { ext := {} }) := by
    have short : ¬ 0 > getPkgLimit pkgLimit := Nat.not_lt_zero _
    have nothing : findCRLF [] = none := rfl
    simp only [advance, fromStart, processStartLine, empty, nothing, length_nil, if_neg short,
      Bool.false_eq_true, if_false]
  apply Reader.exhaust_starve
  exact pass_waits (c := ⟨b, { ext := {} }⟩) advanced rfl rfl

/-- At the end of the file the packet is delivered, without another byte being used up. -/
theorem feed_end_eofBody (h : AtEofBody c p) (response : p.type = .response) :
    ∃ c', (readData (streamer pkgLimit)).feed [] c = ⟨[p], c', false⟩ ∧
      c'.input.pdata = c.input.pdata := by
  obtain ⟨held, hstep, encodingType⟩ := h.showing
  have unread : (c.input.pourData []).unread = [] := by
    rw [unread_pourData h.inside, h.used, nil_append]
  have advanced : advance (getPkgLimit pkgLimit) (receive [] c).input (receive [] c).context =
      ((c.input.pourData []).clear,
        { c.context with packet := some p, eof := true, completed := true }) := by
    simp only [advance, receive, DataBuffer.ensureFree_eq, hstep, fromBody, processBody, encodingType, processEOFBody,
      modifyPacket, held, unread, Option.map_some, isEmpty_nil, Bool.or_true, if_true,
      HTTPPacket.appendBody_nil]
  have kept : atEndOfFile { c.context with packet := some p, eof := true, completed := true } =
      { c.context with packet := some p, eof := true, completed := true } := by
    rw [atEndOfFile, if_neg]
    rintro ⟨-, type | ⟨open_, -⟩⟩
    · rw [Option.map_some, response] at type
      cases type
    · cases open_
  have pass : (readData (streamer pkgLimit)).pass (receive [] c) =
      .deliver p ⟨(c.input.pourData []).clear, { ext := {} }⟩ :=
    pass_complete advanced (by rw [kept]; exact h.intact.broken) (by rw [kept]) (by rw [kept])
  have rest := exhaust_fresh pkgLimit (unread_clear (c.input.pourData []))
  refine ⟨⟨(c.input.pourData []).clear, { ext := {} }⟩, ?_, ?_⟩
  · change (readData (streamer pkgLimit)).exhaust (receive [] c) = _
    rw [Reader.exhaust_deliver (productive pkgLimit) pass, rest]
    rfl
  · change (c.input.mem ++ []).length = _
    have length : c.input.unread.length = c.input.mem.length - c.input.pdata := length_drop
    rw [h.used, length_nil] at length
    rw [append_nil]
    have inside := h.inside
    omega

end EndOfFile

/-- Along every run, the body of a packet and the bytes of a delivered packet are within the limit,
if the end of the file does not delimit it. For one that it does delimit they are, while `more`
bytes come and then the end of the file, if and only if all bytes of the message are. -/
theorem within_limit_iff (pkgLimit : Nat) (slack : Nat → UInt8) {stage : Stage}
    {c : Reading HTTPPacket HTTPFields} {origin : Nat} {log : List (HTTPPacket × Nat)}
    (run : Run pkgLimit slack stage c origin log) :
    (∀ p, c.context.packet = some p → ¬ EofDelimited p →
      p.body.length ≤ getPkgLimit pkgLimit) ∧
    (∀ entry ∈ log, ¬ EofDelimited entry.1 →
      entry.1.body.length ≤ getPkgLimit pkgLimit ∧ entry.2 ≤ getPkgLimit pkgLimit) ∧
    (stage = .idle → c.context.ext.step = .messageBody → c.context.ext.encodingType = .eof →
      ∀ more : List (List UInt8), (∀ piece ∈ more, piece ≠ []) →
      let reader := readData (streamer pkgLimit)
      let whole := reader.feedAll (more ++ [[]]) c
      ((∀ n p, (reader.feedAll (more.take n) c).state.context.packet = some p →
          p.body.length ≤ getPkgLimit pkgLimit) ∧
        (∀ p ∈ whole.items, whole.state.input.pdata - origin ≤ getPkgLimit pkgLimit) ↔
        c.input.pdata - origin + more.flatten.length ≤ getPkgLimit pkgLimit)) := by
  have sound := run.sound
  refine ⟨sound.bounded, sound.log, ?_⟩
  rintro rfl hstep encodingType more nonempty reader whole
  obtain ⟨phase, stands⟩ := sound.idle rfl
  obtain ⟨accounted, -⟩ := sound.accounted (fun e => (nomatch e))
  rw [Accounted, hstep] at accounted
  change InBody _ _ _ _ at accounted
  rw [InBody, encodingType] at accounted
  obtain ⟨-, p, held, ⟨response, -, -⟩, offset⟩ := accounted
  have at_ := atEofBody stands hstep encodingType held
  obtain ⟨c₁, fed, at₁, offset₁⟩ := feedAll_eofBody pkgLimit at_ nonempty
  obtain ⟨c₂, ended, offset₂⟩ := feed_end_eofBody pkgLimit at₁ response
  have result : whole = ⟨[p.appendBody more.flatten], c₂, false⟩ := by
    change reader.feedAll (more ++ [[]]) c = _
    rw [Reader.feedAll_append, fed, if_neg Bool.false_ne_true, Reader.feedAll_singleton, ended]
    rfl
  rw [result]
  constructor
  · rintro ⟨-, size⟩
    have size := size _ (mem_singleton_self _)
    dsimp only at size
    omega
  · intro within
    constructor
    · intro n p' held'
      have pieces : ∀ piece ∈ more.take n, piece ≠ [] :=
        fun piece hp => nonempty piece (mem_of_mem_take hp)
      obtain ⟨c₃, fed₃, at₃, -⟩ := feedAll_eofBody pkgLimit at_ pieces
      rw [fed₃] at held'
      cases at₃.showing.1.symm.trans held'
      have part : (more.take n).flatten.length ≤ more.flatten.length :=
        (take_sublist n more).flatten.length_le
      rw [HTTPPacket.appendBody, length_append]
      omega
    · intro p' _
      dsimp only
      omega

/-- The state after the head of a response without a length. -/
def afterHead : Reading HTTPPacket HTTPFields :=
  ((readData (streamer 25)).feed (ascii "HTTP/1.1 200 OK\r\n\r\n")
    (start (streamer 25) fun _ => 0)).state

theorem within_limit_afterHead :
    let reader := readData (streamer 25)
    (∀ n p, (reader.feedAll ([[97, 98], [99]].take n) afterHead).state.context.packet = some p →
      p.body.length ≤ 25) ∧
    ∀ p ∈ (reader.feedAll [[97, 98], [99], []] afterHead).items,
      (reader.feedAll [[97, 98], [99], []] afterHead).state.input.pdata - 0 ≤ 25 := by
  have run : Run 25 (fun _ => 0) .idle afterHead 0 [] :=
    Run.start.feed (by decide +kernel) (by decide +kernel)
  exact ((within_limit_iff 25 (fun _ => 0) run).2.2 rfl (by decide +kernel) (by decide +kernel)
    [[97, 98], [99]] (by decide)).mpr (by decide +kernel)

theorem eof_body_over_limit :
    getPkgLimit 20 = 20 ∧
    (received 20 (start (streamer 20) fun _ => 0)
      [ascii "HTTP/1.1 200 OK\r\n\r\n", List.replicate 30 97] true).1.map (·.body.length) =
        [30] := by
  decide +kernel

end HTTPStreamer

end AgentEngine.Anet
