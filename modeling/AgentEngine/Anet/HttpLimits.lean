import AgentEngine.Anet.HttpLengths

/-!
The package limit of `HTTPStreamer`.

`_drainedLength` counts the bytes of the message that were taken off the buffer, and every check
against the limit is made with it. `Counted` says so, together with the bound on the body that
follows. It holds of every message but those whose body lasts until the end of the file: their
body is neither counted nor checked (`within_limit_iff`).
-/

namespace AgentEngine.Anet

open Lib Option HTTPMachine

namespace HTTPStreamer

open HTTPStreamingContext TCPConnection

/-- A message whose body lasts until the end of the file. -/
def EofDelimited (p : HTTPPacket) : Prop :=
  p.type = .response ∧ p.getHeader (ascii "Transfer-Encoding") = none ∧
    p.getHeader (ascii "Content-Length") = none

/-- The message began at `origin` in the stream, `_drainedLength` counts its bytes, and its body is
within the limit. -/
structure Counted (limit origin : Nat) (b : DataBuffer) (c : HTTPStreamingContext) : Prop where
  inside : b.pdata ≤ b.mem.length
  offset : b.pdata = origin + c.ext.drainedLength
  body : ∀ p, c.packet = some p → p.body.length ≤ c.ext.drainedLength ∧ p.body.length ≤ limit

/-- What does not change while a body is read. -/
structure SameMode (c c' : HTTPStreamingContext) : Prop where
  step : c'.ext.step = c.ext.step
  encodingType : c'.ext.encodingType = c.ext.encodingType
  completed : c'.completed = c.completed

/-- What does not change while headers are read. -/
structure SameState (c c' : HTTPStreamingContext) : Prop extends SameMode c c' where
  chunkState : c'.ext.chunkState = c.ext.chunkState

theorem SameMode.trans {c c' c'' : HTTPStreamingContext} (h : SameMode c c')
    (h' : SameMode c' c'') : SameMode c c'' :=
  ⟨h'.step.trans h.step, h'.encodingType.trans h.encodingType, h'.completed.trans h.completed⟩

theorem SameState.trans {c c' c'' : HTTPStreamingContext} (h : SameState c c')
    (h' : SameState c' c'') : SameState c c'' :=
  ⟨h.toSameMode.trans h'.toSameMode, h'.chunkState.trans h.chunkState⟩

variable {limit origin : Nat} {b : DataBuffer} {c c' : HTTPStreamingContext}

/-- A change that leaves the packet and the count alone. -/
theorem Counted.congr (h : Counted limit origin b c) (packet : c'.packet = c.packet)
    (drained : c'.ext.drainedLength = c.ext.drainedLength) : Counted limit origin b c' := by
  refine ⟨h.inside, by rw [drained]; exact h.offset, ?_⟩
  rw [packet, drained]
  exact h.body

/-- Bytes are taken off the buffer and counted, and the body grows by some of them. -/
theorem Counted.drain (h : Counted limit origin b c) {n : Nat} (enough : n ≤ b.unread.length)
    (drained : c'.ext.drainedLength = c.ext.drainedLength + n)
    (body : ∀ p', c'.packet = some p' → p'.body.length ≤ c'.ext.drainedLength ∧
      p'.body.length ≤ limit) : Counted limit origin (b.drainData n) c' := by
  have length : b.unread.length = b.mem.length - b.pdata := List.length_drop
  have inside := h.inside
  have pdata : (b.drainData n).pdata = b.pdata + n := by
    change min ((b.pdata : Int) + n).toNat b.mem.length = _
    omega
  refine ⟨DataBuffer.drainData_inside b n, ?_, body⟩
  rw [pdata, h.offset, drained, add_assoc]

/-- Bytes are taken off the buffer and counted, and the body stays. -/
theorem Counted.drains (h : Counted limit origin b c) {n : Nat} (enough : n ≤ b.unread.length)
    (drained : c'.ext.drainedLength = c.ext.drainedLength + n)
    (bodies : c'.packet.map (·.body) = c.packet.map (·.body)) :
    Counted limit origin (b.drainData n) c' := by
  refine h.drain enough drained fun p' held => ?_
  rw [held, map_some] at bodies
  obtain ⟨p, held, same⟩ := map_eq_some_iff.mp bodies.symm
  obtain ⟨counted, small⟩ := h.body p held
  rw [← same, drained]
  exact ⟨counted.trans (Nat.le_add_right _ _), small⟩

theorem clear_eq (inside : b.pdata ≤ b.mem.length) : b.clear = b.drainData b.unread.length := by
  have length : b.unread.length = b.mem.length - b.pdata := List.length_drop
  rw [DataBuffer.clear, DataBuffer.drainData, length]
  congr 1
  omega

/-! ### The start line and the headers -/

theorem body_processPerHeaderLine (line : List UInt8) (p : HTTPPacket) :
    (processPerHeaderLine line p).body = p.body := by
  unfold processPerHeaderLine
  dsimp only
  split <;> rfl

/-- The lines of headers are counted, and the body stays. -/
def HeadersRead (limit origin : Nat) (c : HTTPStreamingContext)
    (s : DataBuffer × HTTPStreamingContext) : Prop :=
  Counted limit origin s.1 s.2 ∧ SameState c s.2 ∧ s.2.packet.map (·.body) = c.packet.map (·.body)

section

variable (h : Counted limit origin b c)
include h

theorem counted_headerRound : (headerRound limit (b, c)).Sat (HeadersRead limit origin c) fun r =>
      HeadersRead limit origin c r.2 ∧ (r.1 = true → r.2.2.ext.drainedLength ≤ limit) := by
  unfold headerRound
  dsimp only
  cases found : findCRLF b.unread with
  | none =>
    refine ⟨⟨?_, ?_, ?_⟩, nofun⟩ <;> dsimp only
    · split <;> exact h.congr rfl rfl
    · split <;> exact ⟨⟨rfl, rfl, rfl⟩, rfl⟩
    · split <;> rfl
  | some lineEnd =>
    obtain ⟨line, length⟩ := lineEnd
    have enough := (findCRLF_length found).2
    dsimp only
    split_ifs with long empty
    · exact ⟨⟨h.congr rfl rfl, ⟨⟨rfl, rfl, rfl⟩, rfl⟩, rfl⟩, nofun⟩
    · exact ⟨⟨h.drains enough rfl rfl, ⟨⟨rfl, rfl, rfl⟩, rfl⟩, rfl⟩, fun _ => not_lt.mp long⟩
    · have added : (addHeaderLine c line length).packet = c.packet.map (processPerHeaderLine line) ∧
          (addHeaderLine c line length).ext.drainedLength = c.ext.drainedLength + length ∧
          SameState c (addHeaderLine c line length) := by
        unfold addHeaderLine
        dsimp only
        split <;> exact ⟨rfl, rfl, ⟨⟨rfl, rfl, rfl⟩, rfl⟩⟩
      have bodies : (addHeaderLine c line length).packet.map (·.body) = c.packet.map (·.body) := by
        rw [added.1, map_map]
        exact congrArg (c.packet.map ·) (funext (body_processPerHeaderLine line))
      exact ⟨h.drains enough added.2.1 bodies, added.2.2, bodies⟩

theorem counted_headers : HeadersRead limit origin c (processHeadersOrTrailers limit b c).2 ∧
      ((processHeadersOrTrailers limit b c).1 = true →
        (processHeadersOrTrailers limit b c).2.2.ext.drainedLength ≤ limit) := by
  apply Loop.run_inv (L := headerLoop limit) (I := HeadersRead limit origin c)
    (Q := fun r => HeadersRead limit origin c r.2 ∧ (r.1 = true → r.2.2.ext.drainedLength ≤ limit))
  swap
  · exact ⟨h, ⟨⟨rfl, rfl, rfl⟩, rfl⟩, rfl⟩
  rintro s ⟨counted, mode, bodies⟩
  have onward {s'} : HeadersRead limit origin s.2 s' → HeadersRead limit origin c s' :=
    fun later => ⟨later.1, mode.trans later.2.1, later.2.2.trans bodies⟩
  exact (counted_headerRound counted).mono (fun _ => onward) fun _ => And.imp_left onward

/-- A start line that is complete gives a new packet, without a body. -/
theorem counted_startLine :
    Counted limit origin (processStartLine limit b c).2.1 (processStartLine limit b c).2.2 ∧
      (processStartLine limit b c).2.2.completed = c.completed ∧
      (processStartLine limit b c).2.2.ext.chunkState = c.ext.chunkState ∧
      ((processStartLine limit b c).1 = true →
        (processStartLine limit b c).2.2.packet.map (·.body) = some []) ∧
      ((processStartLine limit b c).1 = false → (processStartLine limit b c).2.2.broken = true ∨
        (processStartLine limit b c).2 = (b, c)) := by
  unfold processStartLine
  cases found : findCRLF b.unread with
  | none =>
    dsimp only
    refine ⟨?_, ?_, ?_, nofun, fun _ => ?_⟩
    · split <;> exact h.congr rfl rfl
    · split <;> rfl
    · split <;> rfl
    · split
      · exact .inl rfl
      · exact .inr rfl
  | some lineEnd =>
    obtain ⟨line, length⟩ := lineEnd
    have enough := (findCRLF_length found).2
    dsimp only
    by_cases long : length > limit
    · rw [if_pos long]
      exact ⟨h.congr rfl rfl, rfl, rfl, nofun, fun _ => .inl rfl⟩
    · rw [if_neg long]
      obtain ⟨f, kept, parsed⟩ := uniform_startLine line
      have counted : Counted limit origin (b.drainData length)
          (addDrained { c with packet := some (f {}) } length) := by
        refine h.drain enough rfl ?_
        rintro p ⟨⟩
        rw [kept]
        exact ⟨Nat.zero_le _, Nat.zero_le _⟩
      change Counted limit origin (b.drainData length)
          ((parseStartLine line { c with packet := some {} }).2.addDrained length) ∧
        (parseStartLine line { c with packet := some {} }).2.completed = c.completed ∧
        (parseStartLine line { c with packet := some {} }).2.ext.chunkState =
          c.ext.chunkState ∧
        ((parseStartLine line { c with packet := some {} }).1 = true →
          (parseStartLine line { c with packet := some {} }).2.packet.map (·.body) =
            some []) ∧
        ((parseStartLine line { c with packet := some {} }).1 = false →
          (parseStartLine line { c with packet := some {} }).2.broken = true ∨ _)
      rcases parsed with parsed | ⟨errorNo, parsed⟩
      · rw [parsed]
        exact ⟨counted.congr rfl rfl, rfl, rfl, fun _ => congrArg some (kept {}),
          nofun⟩
      · rw [parsed]
        exact ⟨counted.congr rfl rfl, rfl, rfl, nofun, fun _ => .inl rfl⟩

end

/-! ### Bodies -/

/-- The accounting within a body, for each way to delimit it. -/
def InBody (limit origin : Nat) (b : DataBuffer) (c : HTTPStreamingContext) : Prop :=
  match c.ext.encodingType with
  | .noBody => Counted limit origin b c ∧ c.ext.drainedLength ≤ limit
  | .length => Counted limit origin b c ∧ c.ext.drainedLength + c.ext.dataLength ≤ limit
  | .chunked => Counted limit origin b c ∧
      (c.ext.chunkState = .chunkData → c.ext.drainedLength + c.ext.dataLength ≤ limit)
  | .eof => b.pdata ≤ b.mem.length ∧ ∃ p, c.packet = some p ∧ EofDelimited p ∧
      b.pdata = origin + c.ext.drainedLength + p.body.length

section

variable (h : Counted limit origin b c)
include h

theorem inBody_messageHeadersEnd (small : c.ext.drainedLength ≤ limit) (held : c.packet.isSome)
    (empty : ∀ p, c.packet = some p → p.body = [])
    (chunkState : c.ext.chunkState = .chunkSize) :
    Counted limit origin b (messageHeadersEnd limit c).2 ∧
      (messageHeadersEnd limit c).2.completed = c.completed ∧
      ((messageHeadersEnd limit c).1 = true →
        InBody limit origin b ((messageHeadersEnd limit c).2.setStep .messageBody)) ∧
      ((messageHeadersEnd limit c).1 = false → (messageHeadersEnd limit c).2.broken = true) := by
  obtain ⟨p, held⟩ := isSome_iff_exists.mp held
  unfold messageHeadersEnd
  simp only [held, bind_some, map_some, some.injEq]
  cases encoding : p.getHeader (ascii "Transfer-Encoding") with
  | some encodingType =>
    dsimp only
    split
    · refine ⟨h.congr rfl rfl, rfl, fun _ => ⟨h.congr rfl rfl, fun e => ?_⟩, nofun⟩
      cases chunkState.symm.trans e
    · exact ⟨h.congr rfl rfl, rfl, nofun, fun _ => rfl⟩
  | none =>
    cases length : p.getHeader (ascii "Content-Length") with
    | none =>
      refine ⟨h.congr rfl rfl, rfl, fun _ => ?_, nofun⟩
      dsimp only
      split
      · rename_i response
        refine ⟨h.inside, p, held, ⟨response, encoding, length⟩, ?_⟩
        rw [empty p held]
        exact h.offset
      · exact ⟨h.congr rfl rfl, small⟩
    | some contentLength =>
      dsimp only
      unfold contentLengthEnd
      dsimp only
      split_ifs with invalid positive large
      · exact ⟨h.congr rfl rfl, rfl, nofun, fun _ => rfl⟩
      · exact ⟨h.congr rfl rfl, rfl, nofun, fun _ => rfl⟩
      · refine ⟨h.congr rfl rfl, rfl, fun _ => ⟨h.congr rfl rfl, ?_⟩, nofun⟩
        simp only [setDataLength, setEncodingType, setStep] at large ⊢
        omega
      · exact ⟨h.congr rfl rfl, rfl, fun _ => ⟨h.congr rfl rfl, small⟩, nofun⟩

/-- Data of a known length is counted as it is appended to the body. -/
theorem counted_lengthBody (small : c.ext.drainedLength + c.ext.dataLength ≤ limit) :
    Counted limit origin (processLengthBody b c).2.1 (processLengthBody b c).2.2 ∧
      SameState c (processLengthBody b c).2.2 ∧
      ((processLengthBody b c).1 = true →
        (processLengthBody b c).2.2.ext.drainedLength ≤ limit) ∧
      ((processLengthBody b c).1 = false →
        (processLengthBody b c).2.2.ext.drainedLength +
          (processLengthBody b c).2.2.ext.dataLength ≤ limit) := by
  -- the body and the count grow by the same bytes
  have grows : ∀ n p', n ≤ c.ext.dataLength → n ≤ b.unread.length →
      c.packet.map (·.appendBody (b.unread.take n)) = some p' →
      p'.body.length ≤ c.ext.drainedLength + n ∧ p'.body.length ≤ limit := by
    intro n p' few enough held
    obtain ⟨p, hp, rfl⟩ := map_eq_some_iff.mp held
    have body := (h.body p hp).1
    have length : (p.appendBody (b.unread.take n)).body.length = p.body.length + n := by
      rw [HTTPPacket.appendBody, List.length_append, List.length_take_of_le enough]
    rw [length]
    omega
  unfold processLengthBody
  dsimp only
  split
  · rename_i enough
    refine ⟨h.drain enough rfl fun p' held => grows _ p' le_rfl enough held,
      ⟨⟨rfl, rfl, rfl⟩, rfl⟩, fun _ => small, fun e => (by cases e)⟩
  · rename_i few
    rw [clear_eq h.inside]
    refine ⟨h.drain le_rfl rfl fun p' held => grows _ p' (by omega) le_rfl ?_,
      ⟨⟨rfl, rfl, rfl⟩, rfl⟩, fun e => (by cases e), fun _ => ?_⟩
    · rw [List.take_length]
      exact held
    · simp only [addDrained, setDataLength, modifyPacket]
      omega

theorem counted_chunkSize :
    Counted limit origin (processChunkSize limit b c).2.1 (processChunkSize limit b c).2.2 ∧
      SameMode c (processChunkSize limit b c).2.2 ∧
      ((processChunkSize limit b c).1 = true →
        (processChunkSize limit b c).2.2.ext.chunkState = .chunkData →
        (processChunkSize limit b c).2.2.ext.drainedLength +
          (processChunkSize limit b c).2.2.ext.dataLength ≤ limit) ∧
      ((processChunkSize limit b c).1 = false →
        (processChunkSize limit b c).2.2.ext.chunkState = c.ext.chunkState) := by
  unfold processChunkSize
  cases found : findCRLF b.unread with
  | none =>
    dsimp only
    refine ⟨?_, ?_, nofun, fun _ => ?_⟩
    · split <;> exact h.congr rfl rfl
    · split <;> exact ⟨rfl, rfl, rfl⟩
    · split <;> rfl
  | some lineEnd =>
    obtain ⟨line, length⟩ := lineEnd
    have enough := (findCRLF_length found).2
    have counted : Counted limit origin (b.drainData length) (c.addDrained length) :=
      h.drains enough rfl rfl
    unfold chunkSizeLine
    dsimp only
    split_ifs with long bad last large
    · exact ⟨h.congr rfl rfl, ⟨rfl, rfl, rfl⟩, nofun, fun _ => rfl⟩
    · exact ⟨h.congr rfl rfl, ⟨rfl, rfl, rfl⟩, nofun, fun _ => rfl⟩
    · exact ⟨counted.congr rfl rfl, ⟨rfl, rfl, rfl⟩, nofun, nofun⟩
    · exact ⟨counted.congr rfl rfl, ⟨rfl, rfl, rfl⟩, nofun, fun _ => rfl⟩
    · exact ⟨counted.congr rfl rfl, ⟨rfl, rfl, rfl⟩, fun _ _ => not_lt.mp large,
        nofun⟩

theorem counted_getCRLF :
    Counted limit origin (getCRLF b c).2.1 (getCRLF b c).2.2 ∧ SameState c (getCRLF b c).2.2 := by
  have drains : ∀ n, n ≤ b.unread.length →
      Counted limit origin (b.drainData n) (c.addDrained n) :=
    fun n enough => h.drains enough rfl rfl
  unfold getCRLF
  split
  · exact ⟨h, ⟨⟨rfl, rfl, rfl⟩, rfl⟩⟩
  · rename_i x e
    have one : b.unread.length = 1 := congrArg List.length e
    split_ifs
    · exact ⟨drains 1 one.ge, ⟨⟨rfl, rfl, rfl⟩, rfl⟩⟩
    · exact ⟨h.congr rfl rfl, ⟨⟨rfl, rfl, rfl⟩, rfl⟩⟩
    · rw [clear_eq h.inside, one]
      exact ⟨drains 1 one.ge, ⟨⟨rfl, rfl, rfl⟩, rfl⟩⟩
  · rename_i x y rest e
    have two : 2 ≤ b.unread.length := by
      rw [e]
      exact Nat.le_add_left 2 rest.length
    split_ifs
    · exact ⟨drains 1 (by omega), ⟨⟨rfl, rfl, rfl⟩, rfl⟩⟩
    · exact ⟨drains 2 two, ⟨⟨rfl, rfl, rfl⟩, rfl⟩⟩
    · exact ⟨h.congr rfl rfl, ⟨⟨rfl, rfl, rfl⟩, rfl⟩⟩

end

/-- Data of a chunk that is expected is within the limit. -/
def ChunkSmall (limit : Nat) (c : HTTPStreamingContext) : Prop :=
  c.ext.chunkState = .chunkData → c.ext.drainedLength + c.ext.dataLength ≤ limit

/-- The parts of chunks are counted. -/
def ChunksRead (limit origin : Nat) (c : HTTPStreamingContext)
    (s : DataBuffer × HTTPStreamingContext) : Prop :=
  Counted limit origin s.1 s.2 ∧ ChunkSmall limit s.2 ∧ SameMode c s.2

theorem counted_chunkRound (h : Counted limit origin b c) (small : ChunkSmall limit c) :
    (chunkRound limit (b, c)).Sat (ChunksRead limit origin c) fun r =>
      ChunksRead limit origin c r.2 ∧ (r.1 = true → r.2.2.ext.drainedLength ≤ limit) := by
  unfold chunkRound nextPart
  dsimp only
  cases state : c.ext.chunkState with
  | chunkSize =>
    obtain ⟨counted, mode, finished, unfinished⟩ := counted_chunkSize h
    dsimp only
    split_ifs with done
    · exact ⟨counted, finished done, mode⟩
    · refine ⟨⟨counted, ?_, mode⟩, nofun⟩
      intro e
      cases state.symm.trans ((unfinished (eq_false_of_ne_true done)).symm.trans e)
  | chunkData =>
    obtain ⟨counted, mode, -, unfinished⟩ := counted_lengthBody h (small state)
    dsimp only
    split_ifs with done
    · exact ⟨counted.congr rfl rfl, nofun, ⟨mode.step, mode.encodingType, mode.completed⟩⟩
    · exact ⟨⟨counted, fun _ => unfinished (eq_false_of_ne_true done), mode.toSameMode⟩,
        nofun⟩
  | chunkDataCRLF =>
    obtain ⟨counted, mode⟩ := counted_getCRLF h
    dsimp only
    split_ifs with done
    · exact ⟨counted.congr rfl rfl, nofun, ⟨mode.step, mode.encodingType, mode.completed⟩⟩
    · refine ⟨⟨counted, ?_, mode.toSameMode⟩, nofun⟩
      intro e
      cases state.symm.trans (mode.chunkState.symm.trans e)
  | trailer =>
    obtain ⟨⟨counted, mode, -⟩, finished⟩ := counted_headers h
    refine ⟨⟨counted, ?_, mode.toSameMode⟩, finished⟩
    intro e
    cases state.symm.trans (mode.chunkState.symm.trans e)

theorem counted_chunkedBody (h : Counted limit origin b c) (small : ChunkSmall limit c) :
    ChunksRead limit origin c (processChunkedBody limit b c).2 ∧
      ((processChunkedBody limit b c).1 = true →
        (processChunkedBody limit b c).2.2.ext.drainedLength ≤ limit) := by
  apply Loop.run_inv (L := chunkLoop limit) (I := ChunksRead limit origin c)
    (Q := fun r => ChunksRead limit origin c r.2 ∧ (r.1 = true → r.2.2.ext.drainedLength ≤ limit))
  swap
  · exact ⟨h, small, rfl, rfl, rfl⟩
  rintro s ⟨counted, small, mode⟩
  have onward {s'} : ChunksRead limit origin s.2 s' → ChunksRead limit origin c s' :=
    fun later => ⟨later.1, later.2.1, mode.trans later.2.2⟩
  exact (counted_chunkRound counted small).mono (fun _ => onward) fun _ => And.imp_left onward

/-- The accounting of a body that lasts until the end of the file: its bytes are not counted. -/
def EofCounted (origin : Nat) (b : DataBuffer) (c : HTTPStreamingContext) : Prop :=
  b.pdata ≤ b.mem.length ∧ ∃ p, c.packet = some p ∧ EofDelimited p ∧
    b.pdata = origin + c.ext.drainedLength + p.body.length

/-- The accounting of a message that is complete. -/
def Finished (limit origin : Nat) (b : DataBuffer) (c : HTTPStreamingContext) : Prop :=
  if c.ext.encodingType = .eof then EofCounted origin b c
  else Counted limit origin b c ∧ c.ext.drainedLength ≤ limit

theorem Finished.congr (h : Finished limit origin b c) (packet : c'.packet = c.packet)
    (ext : c'.ext = c.ext) : Finished limit origin b c' := by
  unfold Finished EofCounted at h ⊢
  rw [ext, packet]
  split at h
  · rename_i eof
    rwa [if_pos eof]
  · rename_i other
    rw [if_neg other]
    exact ⟨h.1.congr packet (by rw [ext]), h.2⟩

theorem eofCounted_eofBody (h : EofCounted origin b c) :
    EofCounted origin b.clear (c.modifyPacket (·.appendBody b.unread)) := by
  obtain ⟨inside, p, held, delimited, offset⟩ := h
  refine ⟨b.clear_inside, p.appendBody b.unread, ?_, delimited, ?_⟩
  · simp only [modifyPacket, held, map_some]
  · have length : b.unread.length = b.mem.length - b.pdata := List.length_drop
    change b.mem.length = origin + c.ext.drainedLength + (p.body ++ b.unread).length
    rw [List.length_append, length]
    omega

theorem accounted_processBody (h : InBody limit origin b c) :
    SameMode c (processBody limit b c).2.2 ∧
      ((processBody limit b c).1 = true →
        Finished limit origin (processBody limit b c).2.1 (processBody limit b c).2.2) ∧
      ((processBody limit b c).1 = false →
        InBody limit origin (processBody limit b c).2.1 (processBody limit b c).2.2) := by
  unfold InBody at h
  unfold processBody
  cases encodingType : c.ext.encodingType with rw [encodingType] at h
  | noBody =>
    refine ⟨⟨rfl, rfl, rfl⟩, fun _ => ?_, nofun⟩
    rw [Finished, encodingType, if_neg nofun]
    exact h
  | length =>
    obtain ⟨counted, mode, finished, unfinished⟩ := counted_lengthBody h.1 h.2
    have same := mode.encodingType.trans encodingType
    refine ⟨mode.toSameMode, fun done => ?_, fun going => ?_⟩
    · dsimp only
      rw [Finished, same, if_neg nofun]
      exact ⟨counted, finished done⟩
    · dsimp only
      rw [InBody, same]
      exact ⟨counted, unfinished going⟩
  | chunked =>
    obtain ⟨⟨counted, small, mode⟩, finished⟩ := counted_chunkedBody h.1 h.2
    have same := mode.encodingType.trans encodingType
    refine ⟨mode, fun done => ?_, fun going => ?_⟩
    · dsimp only
      rw [Finished, same, if_neg nofun]
      exact ⟨counted, finished done⟩
    · dsimp only
      rw [InBody, same]
      exact ⟨counted, small⟩
  | eof =>
    have counted := eofCounted_eofBody h
    refine ⟨⟨rfl, rfl, rfl⟩, fun _ => ?_, fun _ => ?_⟩
    · exact (if_pos encodingType).mpr counted
    · change InBody limit origin b.clear (c.modifyPacket (·.appendBody b.unread))
      rw [InBody, show (c.modifyPacket (·.appendBody b.unread)).ext.encodingType = _ from
        encodingType]
      exact counted

/-! ### processData -/

/-- The accounting of a message that is not complete. -/
def Accounted (limit origin : Nat) (b : DataBuffer) (c : HTTPStreamingContext) : Prop :=
  match c.ext.step with
  | .startLine => Counted limit origin b c ∧ c.ext.chunkState = .chunkSize
  | .messageHeader => Counted limit origin b c ∧ c.packet.map (·.body) = some [] ∧
      c.ext.chunkState = .chunkSize
  | .messageBody => InBody limit origin b c

/-- The bound on the body, whatever the message has come to. -/
def Bounded (limit : Nat) (c : HTTPStreamingContext) : Prop :=
  ∀ p, c.packet = some p → ¬ EofDelimited p → p.body.length ≤ limit

theorem Counted.bounded (h : Counted limit origin b c) : Bounded limit c :=
  fun p held _ => (h.body p held).2

theorem EofCounted.bounded (h : EofCounted origin b c) : Bounded limit c := by
  obtain ⟨-, p, held, delimited, -⟩ := h
  intro p' held' other
  cases held.symm.trans held'
  exact absurd delimited other

theorem InBody.bounded (h : InBody limit origin b c) : Bounded limit c := by
  unfold InBody at h
  split at h
  · exact h.1.bounded
  · exact h.1.bounded
  · exact h.1.bounded
  · exact EofCounted.bounded h

theorem Finished.bounded (h : Finished limit origin b c) : Bounded limit c := by
  unfold Finished at h
  split at h
  · exact h.bounded
  · exact h.1.bounded

/-- What `processData` leaves behind, before it looks at the end of the file. -/
structure Advanced (limit origin : Nat) (r : DataBuffer × HTTPStreamingContext) : Prop where
  bounded : Bounded limit r.2
  finished : r.2.completed = true → Finished limit origin r.1 r.2
  unfinished : r.2.completed = false → r.2.broken = false → Accounted limit origin r.1 r.2

theorem advanced_fromBody (h : InBody limit origin b c) (step : c.ext.step = .messageBody)
    (fresh : c.completed = false) : Advanced limit origin (fromBody limit b c) := by
  obtain ⟨mode, finished, unfinished⟩ := accounted_processBody h
  unfold fromBody
  generalize processBody limit b c = r at mode finished unfinished
  obtain ⟨done, b', c'⟩ := r
  cases done with
  | true =>
    have complete : Finished limit origin b' { c' with completed := true } :=
      (finished rfl).congr rfl rfl
    exact ⟨complete.bounded, fun _ => complete, nofun⟩
  | false =>
    have going := unfinished rfl
    refine ⟨going.bounded, fun e => (nomatch e.symm.trans (mode.completed.trans fresh)), fun _ _ => ?_⟩
    change Accounted limit origin b' c'
    rw [Accounted, show c'.ext.step = _ from mode.step.trans step]
    exact going

theorem advanced_fromHeader (h : Counted limit origin b c)
    (empty : c.packet.map (·.body) = some []) (chunkState : c.ext.chunkState = .chunkSize)
    (step : c.ext.step = .messageHeader) (fresh : c.completed = false) :
    Advanced limit origin (fromHeader limit b c) := by
  obtain ⟨⟨counted, mode, bodies⟩, finished⟩ := counted_headers h
  have empty := bodies.trans empty
  unfold fromHeader processHeaders
  generalize processHeadersOrTrailers limit b c = r at counted mode finished empty
  obtain ⟨done, b', c'⟩ := r
  have fresh' : c'.completed = false := mode.completed.trans fresh
  have chunkState' : c'.ext.chunkState = .chunkSize := mode.chunkState.trans chunkState
  cases done with
  | false =>
    refine ⟨counted.bounded, fun e => (nomatch e.symm.trans fresh'), fun _ _ => ?_⟩
    change Accounted limit origin b' c'
    rw [Accounted, show c'.ext.step = _ from mode.step.trans step]
    exact ⟨counted, empty, chunkState'⟩
  | true =>
    obtain ⟨p, held, body⟩ := map_eq_some_iff.mp empty
    obtain ⟨counted', completed, body, rejected⟩ := inBody_messageHeadersEnd counted (finished rfl)
      (isSome_iff_exists.mpr ⟨p, held⟩) (by
        intro p' held'
        cases held.symm.trans held'
        exact body) chunkState'
    dsimp only [if_true]
    generalize messageHeadersEnd limit c' = m at counted' completed body rejected
    obtain ⟨ok, c''⟩ := m
    cases ok with
    | true => exact advanced_fromBody (body rfl) rfl (completed.trans fresh')
    | false =>
      refine ⟨counted'.bounded, fun e => (nomatch e.symm.trans (completed.trans fresh')),
        fun _ intact => ?_⟩
      cases intact.symm.trans (rejected rfl)

theorem advanced_fromStart (h : Counted limit origin b c)
    (chunkState : c.ext.chunkState = .chunkSize) (step : c.ext.step = .startLine)
    (fresh : c.completed = false) : Advanced limit origin (fromStart limit b c) := by
  obtain ⟨counted, completed, sameChunk, bodies, unfinished⟩ := counted_startLine h
  unfold fromStart
  generalize processStartLine limit b c = r at counted completed unfinished bodies sameChunk
  obtain ⟨done, b', c'⟩ := r
  have fresh' : c'.completed = false := completed.trans fresh
  cases done with
  | true =>
    exact advanced_fromHeader (counted.congr rfl rfl) (bodies rfl) (sameChunk.trans chunkState) rfl
      fresh'
  | false =>
    refine ⟨counted.bounded, fun e => (nomatch e.symm.trans fresh'), fun _ intact => ?_⟩
    rcases unfinished rfl with broken | same
    · cases intact.symm.trans broken
    · cases same
      change Accounted limit origin b c
      rw [Accounted, step]
      exact ⟨h, chunkState⟩

theorem advanced_of_accounted (h : Accounted limit origin b c) (fresh : c.completed = false) :
    Advanced limit origin (advance limit b c) := by
  unfold Accounted at h
  unfold advance
  cases step : c.ext.step with rw [step] at h
  | startLine =>
    exact advanced_fromStart h.1 h.2 step fresh
  | messageHeader =>
    exact advanced_fromHeader h.1 h.2.1 h.2.2 step fresh
  | messageBody =>
    exact advanced_fromBody h step fresh

end HTTPStreamer

end AgentEngine.Anet
