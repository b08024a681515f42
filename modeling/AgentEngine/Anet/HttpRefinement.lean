import AgentEngine.Anet.HttpMachine

/-!
`HTTPStreamer` follows the machine of `HttpMachine`.

`Shows` relates a context to the phase that it stands for. Each function of the parser, on a
context that shows a phase, gets to where the machine gets from this phase on the unread bytes
(`Follows`): it is broken if the machine fails, it completes the packet, or it waits with a
context that shows the phase in which the machine waits. A context does not show whether a
carriage return behind a chunk has been dropped: the parser then goes on as if there was none
(`Resumable`).
-/

namespace AgentEngine.Anet

open Lib

namespace DataBuffer

variable (b : DataBuffer)

theorem drainData_inside (len : Int) :
    (b.drainData len).pdata ≤ (b.drainData len).mem.length := Nat.min_le_right ..

theorem clear_inside : b.clear.pdata ≤ b.clear.mem.length := le_rfl

@[simp] theorem unread_clear : b.clear.unread = [] := List.drop_length

end DataBuffer

namespace HTTPPacket

@[simp] theorem appendBody_nil (p : HTTPPacket) : p.appendBody [] = p := by
  rw [appendBody, List.append_nil]

@[simp] theorem appendBody_appendBody (p : HTTPPacket) (xs ys : List UInt8) :
    (p.appendBody xs).appendBody ys = p.appendBody (xs ++ ys) := by
  simp only [appendBody, List.append_assoc]

end HTTPPacket

namespace HTTPStreamingContext

/-- The phase that a context stands for. A carriage return that was dropped does not show. -/
def Shows (c : HTTPStreamingContext) : HTTPPhase → Prop
  | .startLine =>
      c.ext.step = .startLine ∧ c.ext.chunkState = .chunkSize ∧ c.ext.drainedLength = 0 ∧
        c.ext.headersCount = 0
  | .headers false p drained count =>
      c.packet = some p ∧ c.ext.step = .messageHeader ∧ c.ext.chunkState = .chunkSize ∧
        c.ext.drainedLength = drained ∧ c.ext.headersCount = count
  | .headers true p drained count =>
      c.packet = some p ∧ c.ext.step = .messageBody ∧ c.ext.encodingType = .chunked ∧
        c.ext.chunkState = .trailer ∧ c.ext.drainedLength = drained ∧ c.ext.headersCount = count
  | .lengthBody p left =>
      c.packet = some p ∧ c.ext.step = .messageBody ∧ c.ext.encodingType = .length ∧
        c.ext.dataLength = left
  | .chunkSize p drained count =>
      c.packet = some p ∧ c.ext.step = .messageBody ∧ c.ext.encodingType = .chunked ∧
        c.ext.chunkState = .chunkSize ∧ c.ext.drainedLength = drained ∧ c.ext.headersCount = count
  | .chunkData p left drained count =>
      c.packet = some p ∧ c.ext.step = .messageBody ∧ c.ext.encodingType = .chunked ∧
        c.ext.chunkState = .chunkData ∧ c.ext.dataLength = left ∧ c.ext.drainedLength = drained ∧
        c.ext.headersCount = count
  | .chunkEnd p _ drained count =>
      c.packet = some p ∧ c.ext.step = .messageBody ∧ c.ext.encodingType = .chunked ∧
        c.ext.chunkState = .chunkDataCRLF ∧ c.ext.drainedLength = drained ∧
        c.ext.headersCount = count
  | .eofBody p =>
      c.packet = some p ∧ c.ext.step = .messageBody ∧ c.ext.encodingType = .eof
  | .complete p =>
      c.packet = some p ∧ c.ext.step = .messageBody ∧ c.ext.encodingType = .noBody

/-- A context that is being worked on. -/
structure Intact (c : HTTPStreamingContext) (eof : Bool) : Prop where
  broken : c.broken = false
  completed : c.completed = false
  eof : c.eof = eof

end HTTPStreamingContext

namespace HTTPMachine

open HTTPStreamer HTTPStreamingContext

variable {limit : Nat} {b : DataBuffer} {c : HTTPStreamingContext} {eof : Bool}

variable {s₀ : HTTPPhase} {bytes : List UInt8}

/-- What a function of the parser leaves behind, and where the machine gets from the phase `s₀` on
the `bytes`. -/
inductive Follows (limit : Nat) (eof : Bool) (s₀ : HTTPPhase) (bytes : List UInt8) :
    Bool × DataBuffer × HTTPStreamingContext → Prop where
  | broken {finished : Bool} {b : DataBuffer} {c : HTTPStreamingContext} {phase : HTTPPhase}
      {data : List UInt8} (broken : c.broken = true)
      (reach : (httpMachine limit).Reaches s₀ bytes phase data)
      (failed : step limit phase data = .fail) : Follows limit eof s₀ bytes (finished, b, c)
  | complete {b : DataBuffer} {c : HTTPStreamingContext} {p : HTTPPacket} (intact : c.Intact eof)
      (inside : b.pdata ≤ b.mem.length) (held : c.packet = some p)
      (reach : (httpMachine limit).Reaches s₀ bytes (.complete p) b.unread) :
      Follows limit eof s₀ bytes (true, b, c)
  | waits {b : DataBuffer} {c : HTTPStreamingContext} (phase : HTTPPhase) (intact : c.Intact eof)
      (inside : b.pdata ≤ b.mem.length) (shows_ : c.Shows phase)
      (reach : (httpMachine limit).Reaches s₀ bytes phase b.unread)
      (waits : step limit phase b.unread = .wait) : Follows limit eof s₀ bytes (false, b, c)
  | closes {b : DataBuffer} {c : HTTPStreamingContext} {p : HTTPPacket} (intact : c.Intact eof)
      (inside : b.pdata ≤ b.mem.length) (end_ : eof = true) (held : c.packet = some p)
      (reach : (httpMachine limit).Reaches s₀ bytes (.eofBody p) b.unread) (used : b.unread = []) :
      Follows limit eof s₀ bytes (true, b, c)

variable {data : List UInt8}

theorem run_take {phase s : HTTPPhase} {n : Nat} (h : step limit phase data = .take n s) :
    (httpMachine limit).run phase data = (httpMachine limit).run s (data.drop n) :=
  Machine.run_take h

variable {phase : HTTPPhase}

theorem run_wait (h : step limit phase data = .wait) :
    (httpMachine limit).run phase data = ⟨[], phase, data, false⟩ := Machine.run_wait h

theorem run_fail (h : step limit phase data = .fail) :
    (httpMachine limit).run phase data = ⟨[], phase, data, true⟩ := Machine.run_fail h

theorem run_complete (p : HTTPPacket) (data : List UInt8) :
    (httpMachine limit).run (.complete p) data =
      ((httpMachine limit).run .startLine data).before [p] := Machine.run_emit rfl

/-! ### What is not undone -/

section Onward

/-- On the way to the second buffer and context bytes were only used up, and a broken context has
stayed so. -/
structure Onward (s s' : DataBuffer × HTTPStreamingContext) : Prop where
  length_le : s'.1.unread.length ≤ s.1.unread.length
  broken : s.2.broken = true → s'.2.broken = true

theorem Onward.trans {s s' s'' : DataBuffer × HTTPStreamingContext} (h : Onward s s')
    (h' : Onward s' s'') : Onward s s'' :=
  ⟨h'.length_le.trans h.length_le, fun broken => h'.broken (h.broken broken)⟩

variable (b : DataBuffer)

theorem length_drainData (n : Nat) : (b.drainData n).unread.length ≤ b.unread.length := by
  rw [DataBuffer.unread_drainData, List.length_drop]
  exact Nat.sub_le _ _

theorem length_clear : b.clear.unread.length ≤ b.unread.length := by
  rw [DataBuffer.unread_clear]
  exact Nat.zero_le _

theorem broken_tooLarge {test : Prop} [Decidable test] (broken : c.broken = true) :
    (if test then c.setErrorNo .pkgTooLarge else c).broken = true := by
  split
  · rfl
  · exact broken

variable (limit : Nat) (b : DataBuffer)

theorem onward_headers (c : HTTPStreamingContext) :
    Onward (b, c) (processHeadersOrTrailers limit b c).2 := by
  refine Loop.run_rel (L := headerLoop limit) (R := Onward) Onward.trans ?_ (b, c)
  intro s
  change (headerRound limit s).Sat _ _
  unfold headerRound
  dsimp only
  split
  · exact ⟨le_rfl, broken_tooLarge⟩
  · split_ifs
    · exact ⟨le_rfl, fun _ => rfl⟩
    · exact ⟨length_drainData _ _, id⟩
    · refine ⟨length_drainData _ _, fun broken => ?_⟩
      unfold addHeaderLine
      dsimp only
      split
      · rfl
      · exact broken

theorem broken_messageHeadersEnd {c : HTTPStreamingContext} (broken : c.broken = true) :
    (messageHeadersEnd limit c).2.broken = true := by
  unfold messageHeadersEnd contentLengthEnd
  split
  · split
    · exact broken
    · dsimp only
      split_ifs
      · rfl
      · rfl
      · exact broken
      · exact broken
  · split_ifs
    · exact broken
    · rfl

theorem onward_lengthBody (c : HTTPStreamingContext) : Onward (b, c) (processLengthBody b c).2 := by
  unfold processLengthBody
  dsimp only
  split
  · exact ⟨length_drainData _ _, id⟩
  · exact ⟨length_clear _, id⟩

theorem onward_chunkSize (c : HTTPStreamingContext) :
    Onward (b, c) (processChunkSize limit b c).2 := by
  unfold processChunkSize chunkSizeLine
  split
  · exact ⟨le_rfl, broken_tooLarge⟩
  · dsimp only
    split_ifs
    · exact ⟨le_rfl, fun _ => rfl⟩
    · exact ⟨le_rfl, fun _ => rfl⟩
    · exact ⟨length_drainData _ _, id⟩
    · exact ⟨length_drainData _ _, fun _ => rfl⟩
    · exact ⟨length_drainData _ _, id⟩

theorem onward_getCRLF (c : HTTPStreamingContext) : Onward (b, c) (getCRLF b c).2 := by
  unfold getCRLF
  split
  · exact ⟨le_rfl, id⟩
  · split_ifs
    · exact ⟨length_drainData _ 1, id⟩
    · exact ⟨le_rfl, fun _ => rfl⟩
    · exact ⟨length_clear _, id⟩
  · split_ifs
    · exact ⟨length_drainData _ 1, id⟩
    · exact ⟨length_drainData _ 2, id⟩
    · exact ⟨le_rfl, fun _ => rfl⟩

theorem onward_chunkedBody (c : HTTPStreamingContext) :
    Onward (b, c) (processChunkedBody limit b c).2 := by
  have part {s r} {f : HTTPStreamingContext → HTTPStreamingContext} (h : Onward s r.2)
      (kept : (f r.2.2).broken = r.2.2.broken) :
      (nextPart r f).Sat (Onward s) fun r => Onward s r.2 :=
    nextPart_sat (fun _ => h.trans ⟨le_rfl, kept.trans⟩) fun _ => h
  refine Loop.run_rel (L := chunkLoop limit) (R := Onward) Onward.trans ?_ (b, c)
  intro s
  change (chunkRound limit s).Sat _ _
  unfold chunkRound
  dsimp only
  split
  · exact part (onward_chunkSize limit _ _) rfl
  · exact part (onward_lengthBody _ _) rfl
  · exact part (onward_getCRLF _ _) rfl
  · exact onward_headers limit _ _

theorem onward_fromBody (c : HTTPStreamingContext) : Onward (b, c) (fromBody limit b c) := by
  have body : Onward (b, c) (processBody limit b c).2 := by
    unfold processBody
    split
    · exact ⟨le_rfl, id⟩
    · exact onward_lengthBody b c
    · exact onward_chunkedBody limit b c
    · exact ⟨length_clear _, id⟩
  unfold fromBody
  dsimp only
  split
  · exact body.trans ⟨le_rfl, id⟩
  · exact body

end Onward

/-! ### The start line -/

/-- Parsing that changes the packet in some way or is broken, whatever the context is; the body of
the packet stays the same. -/
def Uniform (parse : HTTPStreamingContext → Bool × HTTPStreamingContext) : Prop :=
  ∃ f : HTTPPacket → HTTPPacket, (∀ p, (f p).body = p.body) ∧
    ((∀ c, parse c = (true, c.modifyPacket f)) ∨
      ∃ errorNo, ∀ c, parse c = (false, (c.modifyPacket f).setErrorNo errorNo))

theorem modifyPacket_id (c : HTTPStreamingContext) : c.modifyPacket id = c := by
  rw [modifyPacket, Option.map_id]
  rfl

theorem modifyPacket_modifyPacket (c : HTTPStreamingContext) (f g : HTTPPacket → HTTPPacket) :
    (c.modifyPacket f).modifyPacket g = c.modifyPacket (g ∘ f) := by
  simp only [modifyPacket, Option.map_map]

variable {parse parse' : HTTPStreamingContext → Bool × HTTPStreamingContext}

theorem Uniform.congr (h : Uniform parse) (same : ∀ c, parse' c = parse c) : Uniform parse' := by
  rwa [funext same]

variable {f : HTTPPacket → HTTPPacket}

/-- The packet is changed before something else is parsed. -/
theorem Uniform.after {parse : HTTPStreamingContext → Bool × HTTPStreamingContext}
    (h : Uniform parse) (kept : ∀ p, (f p).body = p.body) :
    Uniform fun c => parse (c.modifyPacket f) := by
  obtain ⟨g, kept', h⟩ := h
  refine ⟨g ∘ f, fun p => (kept' (f p)).trans (kept p), ?_⟩
  rcases h with h | ⟨errorNo, h⟩
  · exact .inl fun c => (h _).trans (by rw [modifyPacket_modifyPacket])
  · exact .inr ⟨errorNo, fun c => (h _).trans (by rw [modifyPacket_modifyPacket])⟩

/-- The packet is changed in some way, and then nothing else is parsed. -/
theorem uniform_modify (kept : ∀ p, (f p).body = p.body) :
    Uniform fun c => (true, c.modifyPacket f) := ⟨f, kept, .inl fun _ => rfl⟩

theorem uniform_error (errorNo : AnetError) : Uniform fun c => (false, c.setErrorNo errorNo) :=
  ⟨id, fun _ => rfl, .inr ⟨errorNo, fun c => by rw [modifyPacket_id]⟩⟩

theorem Uniform.ite {test : Prop} [Decidable test] (h : Uniform parse)
    (h' : Uniform parse') : Uniform fun c => if test then parse c else parse' c := by
  split_ifs
  · exact h
  · exact h'

theorem uniform_version (token : List UInt8) : Uniform (processVersion · token) := by
  unfold processVersion
  refine .ite (uniform_modify fun _ => rfl) (.ite (uniform_modify fun _ => rfl) ?_)
  exact (uniform_error _).after fun _ => rfl

variable (line : List UInt8)

theorem uniform_request : Uniform (processRequestLine · line) := by
  have method : ∀ p : HTTPPacket,
      ({ p with type := .request }.setMethod (findNextWhiteSpace line).1).body = p.body :=
    fun p => HTTPPacket.body_setMethod _ _
  have uri : ∀ uri, ∀ p : HTTPPacket, (p.setURI uri).body = p.body := fun _ _ => rfl
  unfold processRequestLine
  refine .ite (uniform_error _) (.ite (uniform_error _) (.ite ((uniform_error _).after method) ?_))
  refine .ite ((uniform_error _).after method) (.ite ((uniform_error _).after method) ?_)
  exact ((uniform_version _).after (uri _)).after method

theorem uniform_status : Uniform (processStatusLine · line) := by
  have response : ∀ p : HTTPPacket, ({ p with type := .response } : HTTPPacket).body = p.body :=
    fun _ => rfl
  have status : ∀ code, ∀ p : HTTPPacket, (p.setStatusCode code).body = p.body :=
    fun code p => HTTPPacket.body_setStatusCode p code
  have phrase : ∀ reason, ∀ p : HTTPPacket, (p.setReasonPhrase reason).body = p.body :=
    fun _ _ => rfl
  unfold processStatusLine
  rcases findNextWhiteSpace line with ⟨token, rest⟩
  refine .ite (uniform_error _) ?_
  rcases uniform_version token with ⟨f, kept, version | ⟨errorNo, version⟩⟩
  · simp only [version, Bool.not_true, Bool.false_eq_true, if_false, apply_ite (Prod.mk true)]
    refine .ite (((uniform_error _).after kept).after response) ?_
    refine .ite (((uniform_error _).after kept).after response) ?_
    refine .ite (((uniform_modify (status _)).after kept).after response) ?_
    exact (((uniform_modify (phrase _)).after (status _)).after kept).after response
  · simp only [version, Bool.not_false, if_true]
    exact ((uniform_error errorNo).after kept).after response

/-- The parsing of a start line, of either kind. -/
def parseStartLine (c : HTTPStreamingContext) : Bool × HTTPStreamingContext :=
  if line.take 5 = ascii "HTTP/" then processStatusLine c line else processRequestLine c line

theorem uniform_startLine : Uniform (parseStartLine line) := by
  by_cases status : line.take 5 = ascii "HTTP/"
  · exact (uniform_status line).congr fun c => if_pos status
  · exact (uniform_request line).congr fun c => if_neg status

theorem startLinePacket_eq : startLinePacket line =
      if (parseStartLine line { packet := some {}, ext := {} }).1 then
        (parseStartLine line { packet := some {}, ext := {} }).2.packet
      else none := rfl

/-- The functions and the machine agree on start lines. -/
theorem parseStartLine_eq : (∃ p, startLinePacket line = some p ∧ ∀ c : HTTPStreamingContext,
      parseStartLine line { c with packet := some {} } = (true, { c with packet := some p })) ∨
    (startLinePacket line = none ∧ ∀ c : HTTPStreamingContext,
      (parseStartLine line c).1 = false ∧ (parseStartLine line c).2.broken = true) := by
  obtain ⟨f, -, h | ⟨errorNo, h⟩⟩ := uniform_startLine line
  · refine .inl ⟨f {}, ?_, fun c => h _⟩
    rw [startLinePacket_eq, h]
    rfl
  · refine .inr ⟨?_, fun c => by rw [h]; exact ⟨rfl, rfl⟩⟩
    rw [startLinePacket_eq, h]
    rfl

/-- The parser is where the machine has got to. -/
structure At (limit : Nat) (eof : Bool) (s₀ : HTTPPhase) (bytes : List UInt8) (b : DataBuffer)
    (c : HTTPStreamingContext) (phase : HTTPPhase) : Prop where
  intact : c.Intact eof
  inside : b.pdata ≤ b.mem.length
  showing : c.Shows phase
  reach : (httpMachine limit).Reaches s₀ bytes phase b.unread

variable {c' : HTTPStreamingContext}

theorem At.fail (h : At limit eof s₀ bytes b c phase)
    (failed : step limit phase b.unread = .fail) {finished : Bool} {b' : DataBuffer}
    (broken : c'.broken = true) :
    Follows limit eof s₀ bytes (finished, b', c') := .broken broken h.reach failed

theorem At.wait (h : At limit eof s₀ bytes b c phase)
    (waits : step limit phase b.unread = .wait) : Follows limit eof s₀ bytes (false, b, c) :=
  .waits phase h.intact h.inside h.showing h.reach waits

/-- The machine takes bytes, and so does the parser. -/
theorem At.take {phase phase' : HTTPPhase} {n : Nat} (h : At limit eof s₀ bytes b c phase)
    (taken : step limit phase b.unread = .take n phase') {b' : DataBuffer}
    (drained : b'.unread = b.unread.drop n)
    (inside : b'.pdata ≤ b'.mem.length) (intact : c'.Intact eof) (showing : c'.Shows phase') :
    At limit eof s₀ bytes b' c' phase' := by
  refine ⟨intact, inside, showing, ?_⟩
  rw [drained]
  exact h.reach.step taken

theorem processStartLine_at (h : At limit eof s₀ bytes b c .startLine) :
    ((processStartLine limit b c).1 = true → ∃ p drained, At limit eof s₀ bytes
      (processStartLine limit b c).2.1 ((processStartLine limit b c).2.2.setStep .messageHeader)
      (.headers false p drained 0)) ∧
    ((processStartLine limit b c).1 = false → Follows limit eof s₀ bytes (processStartLine limit b c)) := by
  unfold processStartLine
  cases found : findCRLF b.unread with
  | none =>
    refine ⟨fun e => (by cases e), fun _ => ?_⟩
    by_cases long : b.unread.length > limit
    · rw [if_pos long]
      refine h.fail ?_ rfl
      simp only [step, onLine, found, Nat.add_zero, if_pos long]
    · rw [if_neg long]
      apply h.wait
      simp only [step, onLine, found, Nat.add_zero, if_neg long]
  | some r =>
    obtain ⟨line, length⟩ := r
    dsimp only
    by_cases long : length > limit
    · rw [if_pos long]
      refine ⟨fun e => (by cases e), fun _ => h.fail ?_ rfl⟩
      simp only [step, onLine, found, Nat.zero_add, if_pos long]
    · rw [if_neg long]
      have moved : step limit .startLine b.unread =
          decided length
            ((startLinePacket line).map fun packet => HTTPPhase.headers false packet length 0) := by
        simp only [step, onLine, found, Nat.zero_add]
        exact if_neg long
      unfold decided at moved
      change ((parseStartLine line { c with packet := some {} }).1 = true → ∃ p drained,
          At limit eof s₀ bytes (b.drainData length)
            (((parseStartLine line { c with packet := some {} }).2.addDrained length).setStep
              .messageHeader) (.headers false p drained 0)) ∧
        ((parseStartLine line { c with packet := some {} }).1 = false → Follows limit eof s₀ bytes
          ((parseStartLine line { c with packet := some {} }).1, b.drainData length,
            (parseStartLine line { c with packet := some {} }).2.addDrained length))
      rcases parseStartLine_eq line with ⟨p, packet, parsed⟩ | ⟨packet, parsed⟩
      · rw [packet] at moved
        rw [parsed]
        refine ⟨fun _ => ⟨p, length, h.take moved (DataBuffer.unread_drainData b length)
          (DataBuffer.drainData_inside b length) ?_ ?_⟩, fun e => (by cases e)⟩
        · exact ⟨h.intact.broken, h.intact.completed, h.intact.eof⟩
        · obtain ⟨-, chunkState, drained, count⟩ := h.showing
          refine ⟨rfl, rfl, chunkState, ?_, count⟩
          simp only [setStep, addDrained, drained, Nat.zero_add]
      · rw [packet] at moved
        obtain ⟨bad, broken⟩ := parsed { c with packet := some {} }
        exact ⟨fun ok => absurd (ok.symm.trans bad) (by decide), fun _ => h.fail moved broken⟩

/-! ### Headers -/

/-- The context after some lines of headers. -/
def withHeaders (c : HTTPStreamingContext) (p : HTTPPacket) (drained count : Nat) :
    HTTPStreamingContext :=
  { c with
    packet := some p
    ext := { c.ext with drainedLength := drained, headersCount := count } }

/-- The phase after the empty line. -/
def afterHeaders (limit : Nat) (trailer : Bool) (p : HTTPPacket) (drained count : Nat) :
    Option HTTPPhase :=
  if trailer then some (.complete p) else headersEnd limit p drained count

/-- Where the loop over the headers gets to. -/
inductive HeadersAt (limit : Nat) (trailer : Bool) (s₀ : HTTPPhase) (bytes : List UInt8)
    (c : HTTPStreamingContext) : Bool × DataBuffer × HTTPStreamingContext → Prop where
  | broken {finished : Bool} {b : DataBuffer} {c' : HTTPStreamingContext} {phase : HTTPPhase}
      {data : List UInt8} (broken : c'.broken = true)
      (reach : (httpMachine limit).Reaches s₀ bytes phase data)
      (failed : step limit phase data = .fail) : HeadersAt limit trailer s₀ bytes c (finished, b, c')
  | rejected {b : DataBuffer} {phase : HTTPPhase} {data : List UInt8} (p : HTTPPacket)
      (drained count : Nat) (bad : afterHeaders limit trailer p drained count = none)
      (reach : (httpMachine limit).Reaches s₀ bytes phase data)
      (failed : step limit phase data = .fail) :
      HeadersAt limit trailer s₀ bytes c (true, b, withHeaders c p drained count)
  | ended {b : DataBuffer} (p : HTTPPacket) (drained count : Nat) {phase : HTTPPhase}
      (inside : b.pdata ≤ b.mem.length)
      (next : afterHeaders limit trailer p drained count = some phase)
      (reach : (httpMachine limit).Reaches s₀ bytes phase b.unread) :
      HeadersAt limit trailer s₀ bytes c (true, b, withHeaders c p drained count)
  | waits {b : DataBuffer} (p : HTTPPacket) (drained count : Nat)
      (inside : b.pdata ≤ b.mem.length)
      (reach : (httpMachine limit).Reaches s₀ bytes (.headers trailer p drained count) b.unread)
      (waits : step limit (.headers trailer p drained count) b.unread = .wait) :
      HeadersAt limit trailer s₀ bytes c (false, b, withHeaders c p drained count)

/-- What a round of the loop over the headers can do, and what the machine then does. -/
inductive HeaderRoundAt (limit : Nat) (trailer : Bool) (b : DataBuffer) (c : HTTPStreamingContext)
    (p : HTTPPacket) (drained count : Nat) : Move HTTPPhase HTTPPacket →
    Round (DataBuffer × HTTPStreamingContext) (Bool × DataBuffer × HTTPStreamingContext) → Prop where
  | waits : HeaderRoundAt limit trailer b c p drained count .wait
      (.leave (false, b, withHeaders c p drained count))
  | broken {r : Bool × DataBuffer × HTTPStreamingContext} (broken : r.2.2.broken = true) :
      HeaderRoundAt limit trailer b c p drained count .fail (.leave r)
  | rejected (length : Nat) (bad : afterHeaders limit trailer p (drained + length) count = none) :
      HeaderRoundAt limit trailer b c p drained count .fail
        (.leave (true, b.drainData length, withHeaders c p (drained + length) count))
  | ended (length : Nat) {phase : HTTPPhase}
      (next : afterHeaders limit trailer p (drained + length) count = some phase) :
      HeaderRoundAt limit trailer b c p drained count (.take length phase)
        (.leave (true, b.drainData length, withHeaders c p (drained + length) count))
  | line (length : Nat) (p' : HTTPPacket) : HeaderRoundAt limit trailer b c p drained count
      (.take length (.headers trailer p' (drained + length) (count + 1)))
      (.again (b.drainData length, withHeaders c p' (drained + length) (count + 1)))
  | tooMany {s : DataBuffer × HTTPStreamingContext} (broken : s.2.broken = true) :
      HeaderRoundAt limit trailer b c p drained count .fail (.again s)

theorem headerRound_at (limit : Nat) (trailer : Bool) (b : DataBuffer) (c : HTTPStreamingContext)
    (p : HTTPPacket) (drained count : Nat) :
    HeaderRoundAt limit trailer b c p drained count
      (step limit (.headers trailer p drained count) b.unread)
      (headerRound limit (b, withHeaders c p drained count)) := by
  have same : (withHeaders c p drained count).ext.drainedLength = drained := rfl
  cases found : findCRLF b.unread with
  | none =>
    simp only [step, onLine, headerRound, found, same]
    split
    · exact .broken rfl
    · exact .waits
  | some lineEnd =>
    obtain ⟨line, length⟩ := lineEnd
    simp only [step, onLine, headerRound, found, same]
    split
    · exact .broken rfl
    · by_cases empty : line = []
      · have next : headerLine limit trailer p drained count line length =
            afterHeaders limit trailer p (drained + length) count := by
          rw [headerLine, if_pos empty]
          rfl
        rw [if_pos empty, next]
        cases after : afterHeaders limit trailer p (drained + length) count with
        | none => exact .rejected length after
        | some phase => exact .ended length after
      · rw [if_neg empty]
        by_cases many : count + 1 > HEADERS_LIMIT
        · rw [headerLine, if_neg empty, if_pos many]
          refine .tooMany ?_
          have counted : (withHeaders c p drained count).ext.headersCount + 1 > HEADERS_LIMIT := many
          simp only [addHeaderLine, modifyPacket, counted, if_true]
          rfl
        · rw [headerLine, if_neg empty, if_neg many]
          have added : addHeaderLine (withHeaders c p drained count) line length =
              withHeaders c (processPerHeaderLine line p) (drained + length) (count + 1) := by
            have counted : ¬ (withHeaders c p drained count).ext.headersCount + 1 > HEADERS_LIMIT :=
              many
            simp only [addHeaderLine, modifyPacket, counted, if_false]
            rfl
          rw [added]
          exact .line length _

theorem processHeadersOrTrailers_at (limit : Nat) (trailer : Bool) (c : HTTPStreamingContext)
    (p : HTTPPacket) (drained count : Nat) (inside : b.pdata ≤ b.mem.length)
    (reach : (httpMachine limit).Reaches s₀ bytes (.headers trailer p drained count) b.unread) :
    HeadersAt limit trailer s₀ bytes c
      (processHeadersOrTrailers limit b (withHeaders c p drained count)) := by
  suffices key : ∀ s : DataBuffer × HTTPStreamingContext, ∀ p drained count,
      s.2 = withHeaders c p drained count → s.1.pdata ≤ s.1.mem.length →
      (httpMachine limit).Reaches s₀ bytes (.headers trailer p drained count) s.1.unread →
      HeadersAt limit trailer s₀ bytes c ((headerLoop limit).run s) from
    key (b, _) p drained count rfl inside reach
  intro s
  induction s using Loop.run_induction (L := headerLoop limit) with
  | leave s r h =>
    obtain ⟨b, c'⟩ := s
    rintro p drained count rfl inside reach
    have here := headerRound_at limit trailer b c p drained count
    rw [Loop.run_leave h]
    generalize moved : step limit (.headers trailer p drained count) b.unread = move at here
    rw [show headerRound limit (b, withHeaders c p drained count) = _ from h] at here
    cases here with
    | waits => exact .waits p drained count inside reach moved
    | broken broken =>
      obtain ⟨finished, b', c'⟩ := r
      exact .broken broken reach moved
    | rejected length bad => exact .rejected p (drained + length) count bad reach moved
    | ended length next =>
      refine .ended p (drained + length) count (DataBuffer.drainData_inside _ _) next ?_
      rw [DataBuffer.unread_drainData]
      exact reach.step moved
  | again s s' h ih =>
    obtain ⟨b, c'⟩ := s
    rintro p drained count rfl inside reach
    have here := headerRound_at limit trailer b c p drained count
    rw [Loop.run_again h]
    generalize moved : step limit (.headers trailer p drained count) b.unread = move at here
    rw [show headerRound limit (b, withHeaders c p drained count) = _ from h] at here
    cases here with
    | line length p' =>
      refine ih p' _ _ rfl (DataBuffer.drainData_inside _ _) ?_
      rw [DataBuffer.unread_drainData]
      exact reach.step moved
    | tooMany broken =>
      obtain ⟨b', c'⟩ := s'
      exact .broken ((onward_headers limit b' _).broken broken) reach moved

/-- The parser and the machine agree on what the headers of a message say about its body. -/
theorem messageHeadersEnd_at (limit : Nat) {c : HTTPStreamingContext} {p : HTTPPacket}
    {drained count : Nat} (intact : c.Intact eof) (chunkState : c.ext.chunkState = .chunkSize) :
    (headersEnd limit p drained count = none →
      (messageHeadersEnd limit (withHeaders c p drained count)).1 = false ∧
      (messageHeadersEnd limit (withHeaders c p drained count)).2.broken = true) ∧
    ∀ phase, headersEnd limit p drained count = some phase →
      (messageHeadersEnd limit (withHeaders c p drained count)).1 = true ∧
      (messageHeadersEnd limit (withHeaders c p drained count)).2.Intact eof ∧
      ((messageHeadersEnd limit (withHeaders c p drained count)).2.setStep .messageBody).Shows
        phase := by
  have kept : ∀ e : HTTPEncodingType,
      ((withHeaders c p drained count).setEncodingType e).Intact eof :=
    fun e => ⟨intact.broken, intact.completed, intact.eof⟩
  have held : (withHeaders c p drained count).packet = some p := rfl
  unfold messageHeadersEnd headersEnd
  simp only [held, Option.bind_some, Option.map_some, Option.some.injEq]
  cases p.getHeader (ascii "Transfer-Encoding") with
  | some encodingType =>
    dsimp only
    split
    · refine ⟨fun bad => (by cases bad), fun phase next => ⟨rfl, kept _, ?_⟩⟩
      cases next
      exact ⟨rfl, rfl, rfl, chunkState, rfl, rfl⟩
    · exact ⟨fun _ => ⟨rfl, rfl⟩, fun phase bad => (by cases bad)⟩
  | none =>
    cases p.getHeader (ascii "Content-Length") with
    | none =>
      refine ⟨fun bad => (by cases bad), fun phase next => ⟨rfl, kept _, ?_⟩⟩
      dsimp only at next ⊢
      cases next
      split
      · exact ⟨rfl, rfl, rfl⟩
      · exact ⟨rfl, rfl, rfl⟩
    | some contentLength =>
      have same : (withHeaders c p drained count).ext.drainedLength = drained := rfl
      simp only [contentLengthEnd, setDataLength, setEncodingType, same]
      split
      · exact ⟨fun _ => ⟨rfl, rfl⟩, fun phase bad => (by cases bad)⟩
      · split
        · split
          · exact ⟨fun _ => ⟨rfl, rfl⟩, fun phase bad => (by cases bad)⟩
          · refine ⟨fun bad => (by cases bad), fun phase next =>
              ⟨rfl, ⟨intact.broken, intact.completed, intact.eof⟩, ?_⟩⟩
            cases next
            exact ⟨rfl, rfl, rfl, rfl⟩
        · refine ⟨fun bad => (by cases bad), fun phase next => ⟨rfl, kept .noBody, ?_⟩⟩
          cases next
          exact ⟨rfl, rfl, rfl⟩

end HTTPMachine

end AgentEngine.Anet
