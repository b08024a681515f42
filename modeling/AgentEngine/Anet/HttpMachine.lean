import AgentEngine.Anet.HttpStreamer
import AgentEngine.Lib.Machine

/-!
What `HTTPStreamer` is for, as a machine on the byte stream.

The machine knows the phase of the message that it is in. It decides on whole lines and on
single bytes, so that it cannot matter how the stream was cut: this is the parser that
`HTTPStreamer` would be if it kept the carriage return after the data of a chunk in mind.
`Shows` says which phase a context is in, and `HttpRefinement` that the parser follows the
machine.
-/

namespace AgentEngine.Anet

open Lib

/-- Where in a message the parser is. The numbers of a phase are the bytes of the message used
up so far and the headers counted so far; a body also has the bytes that are left of it. -/
inductive HTTPPhase where
  | startLine
  | headers (trailer : Bool) (packet : HTTPPacket) (drained count : Nat)
  | lengthBody (packet : HTTPPacket) (left : Nat)
  | chunkSize (packet : HTTPPacket) (drained count : Nat)
  | chunkData (packet : HTTPPacket) (left drained count : Nat)
  | chunkEnd (packet : HTTPPacket) (heldCR : Bool) (drained count : Nat)
  | eofBody (packet : HTTPPacket)
  | complete (packet : HTTPPacket)
deriving DecidableEq

namespace HTTPMachine

open HTTPStreamer

/-! ### Moves -/

/-- Decide on the next line, if it is there. Together with the `drained` bytes before it, it has
to be within the limit. -/
def onLine (limit drained : Nat) (data : List UInt8) (next : List UInt8 → Nat → Option HTTPPhase) :
    Move HTTPPhase HTTPPacket :=
  match findCRLF data with
  | none => if data.length + drained > limit then .fail else .wait
  | some (line, length) =>
      if drained + length > limit then .fail
      else
        match next line length with
        | none => .fail
        | some phase => .take length phase

/-- The move that `onLine` makes after a line. -/
def decided (length : Nat) (next : Option HTTPPhase) : Move HTTPPhase HTTPPacket :=
  match next with
  | none => .fail
  | some phase => .take length phase

/-- Decide on the next byte, if it is there. -/
def onByte (data : List UInt8) (next : UInt8 → Option HTTPPhase) : Move HTTPPhase HTTPPacket :=
  match data with
  | [] => .wait
  | c :: _ =>
      match next c with
      | none => .fail
      | some phase => .take 1 phase

/-- Take the next byte of data of which `left` bytes are left. -/
def onData (left : Nat) (data : List UInt8) (full : HTTPPhase) (next : UInt8 → HTTPPhase) :
    Move HTTPPhase HTTPPacket :=
  if left = 0 then .take 0 full else onByte data fun c => some (next c)

/-- The packet that a start line gives. -/
def startLinePacket (line : List UInt8) : Option HTTPPacket :=
  let context : HTTPStreamingContext := { packet := some {}, ext := {} }
  let (rc, context) :=
    if line.take 5 = ascii "HTTP/" then processStatusLine context line
    else processRequestLine context line
  if rc then context.packet else none

variable (more : List UInt8) (limit : Nat) (packet : HTTPPacket)

/-- The phase after the headers of a message. -/
def headersEnd (drained count : Nat) : Option HTTPPhase :=
  match packet.getHeader (ascii "Transfer-Encoding") with
  | none =>
      match packet.getHeader (ascii "Content-Length") with
      | none => some (if packet.type = .response then .eofBody packet else .complete packet)
      | some contentLength =>
          if !isValidDigits contentLength then none
          else if (atoi contentLength).toInt > 0 then
            if (atoi contentLength).toInt.toNat + drained > limit then none
            else some (.lengthBody packet (atoi contentLength).toInt.toNat)
          else some (.complete packet)
  | some encodingType =>
      if encodingType = ascii "chunked" then some (.chunkSize packet drained count) else none

/-- The phase after a line of headers or trailers. -/
def headerLine (trailer : Bool) (packet : HTTPPacket) (drained count : Nat)
    (line : List UInt8) (length : Nat) : Option HTTPPhase :=
  if line = [] then
    if trailer then some (.complete packet) else headersEnd limit packet (drained + length) count
  else if count + 1 > HEADERS_LIMIT then none
  else some (.headers trailer (processPerHeaderLine line packet) (drained + length) (count + 1))

/-- The phase after the size of a chunk. -/
def sizeLine (drained count : Nat) (line : List UInt8) (length : Nat) : Option HTTPPhase :=
  let (chunkSize, c) := scanChunkSize (skipWhiteSpaces line)
  if chunkSize < 0 ∨ (c ≠ 0 ∧ c ≠ 59) then none
  else if chunkSize.toNat = 0 then some (.headers true packet (drained + length) count)
  else if drained + length + chunkSize.toNat > limit then none
  else some (.chunkData packet chunkSize.toNat (drained + length) count)

/-- The phase after a byte of the line end behind the data of a chunk. -/
def endByte (heldCR : Bool) (drained count : Nat) (c : UInt8) : Option HTTPPhase :=
  if c = 10 then some (.chunkSize packet (drained + 1) count)
  else if c = 13 ∧ heldCR = false then some (.chunkEnd packet true (drained + 1) count)
  else none

def step (phase : HTTPPhase) (data : List UInt8) : Move HTTPPhase HTTPPacket :=
  match phase with
  | .startLine =>
      onLine limit 0 data fun line length =>
        (startLinePacket line).map fun packet => .headers false packet length 0
  | .headers trailer packet drained count =>
      onLine limit drained data (headerLine limit trailer packet drained count)
  | .lengthBody packet left =>
      onData left data (.complete packet) fun c => .lengthBody (packet.appendBody [c]) (left - 1)
  | .chunkSize packet drained count =>
      onLine limit drained data (sizeLine limit packet drained count)
  | .chunkData packet left drained count =>
      onData left data (.chunkEnd packet false drained count) fun c =>
        .chunkData (packet.appendBody [c]) (left - 1) (drained + 1) count
  | .chunkEnd packet heldCR drained count => onByte data (endByte packet heldCR drained count)
  | .eofBody packet => onByte data fun c => some (.eofBody (packet.appendBody [c]))
  | .complete packet => .emit packet .startLine

/-! ### It is a machine -/

variable {data : List UInt8}

theorem findCRLF_append {r : List UInt8 × Nat} (h : findCRLF data = some r)
    (more : List UInt8) : findCRLF (data ++ more) = some r := by
  unfold findCRLF at h ⊢
  dsimp only at h ⊢
  split at h
  · cases h
  · rename_i some_end
    have shorter := (List.takeWhile_prefix (l := data) (· ≠ 10)).length_le
    rw [List.takeWhile_append, if_neg some_end, List.length_append, if_neg (by omega)]
    exact h

/-- A line that ends later is longer. -/
theorem length_of_findCRLF {data more line : List UInt8} {length : Nat} (h : findCRLF data = none)
    (later : findCRLF (data ++ more) = some (line, length)) : data.length < length := by
  unfold findCRLF at h later
  dsimp only at h later
  split at h
  · rename_i no_end
    split at later
    · cases later
    · rw [List.takeWhile_append, if_pos no_end] at later
      cases later
      rw [List.length_append]
      omega
  · cases h

theorem onLine_settled {limit drained : Nat} {next : List UInt8 → Nat → Option HTTPPhase}
    (h : onLine limit drained data next ≠ .wait) :
    onLine limit drained (data ++ more) next = onLine limit drained data next := by
  unfold onLine at h ⊢
  cases found : findCRLF data with
  | some r => rw [findCRLF_append found more]
  | none =>
    rw [found] at h
    have long : data.length + drained > limit := by
      by_contra short
      exact h (if_neg short)
    dsimp only
    rw [if_pos long]
    cases later : findCRLF (data ++ more) with
    | none =>
      refine if_pos ?_
      rw [List.length_append]
      omega
    | some r =>
      have := length_of_findCRLF found later
      exact if_pos (by omega)

variable {phase : HTTPPhase}

theorem onLine_take {limit drained n : Nat} {next : List UInt8 → Nat → Option HTTPPhase}
    (h : onLine limit drained data next = .take n phase) :
    ∃ line, findCRLF data = some (line, n) ∧ drained + n ≤ limit ∧ next line n = some phase := by
  unfold onLine at h
  split at h
  · split at h <;> cases h
  · rename_i line length found
    split at h
    · cases h
    · rename_i within
      split at h
      · cases h
      · rename_i phase' e
        cases h
        exact ⟨line, found, not_lt.mp within, e⟩

variable {item : HTTPPacket}

theorem onLine_ne_emit {limit drained : Nat} {next : List UInt8 → Nat → Option HTTPPhase} :
    onLine limit drained data next ≠ .emit item phase := by
  unfold onLine
  split
  · split <;> exact nofun
  · split
    · exact nofun
    · split <;> exact nofun

theorem onByte_settled {next : UInt8 → Option HTTPPhase}
    (h : onByte data next ≠ .wait) : onByte (data ++ more) next = onByte data next := by
  cases data with
  | nil => exact absurd rfl h
  | cons c rest => rfl

theorem onByte_take {n : Nat}
    {next : UInt8 → Option HTTPPhase} (h : onByte data next = .take n phase) :
    n = 1 ∧ ∃ c rest, data = c :: rest ∧ next c = some phase := by
  unfold onByte at h
  split at h
  · cases h
  · rename_i c rest
    split at h
    · cases h
    · rename_i phase' e
      cases h
      exact ⟨rfl, c, rest, rfl, e⟩

theorem onByte_ne_emit {next : UInt8 → Option HTTPPhase} : onByte data next ≠ .emit item phase := by
  unfold onByte
  split
  · exact nofun
  · split <;> exact nofun

theorem onData_settled {left : Nat} {full : HTTPPhase}
    {next : UInt8 → HTTPPhase} (h : onData left data full next ≠ .wait) :
    onData left (data ++ more) full next = onData left data full next := by
  unfold onData at h ⊢
  split_ifs at h ⊢
  · rfl
  · exact onByte_settled more h

theorem onData_take {left n : Nat} {full phase : HTTPPhase}
    {next : UInt8 → HTTPPhase} (h : onData left data full next = .take n phase) :
    (n = 0 ∧ left = 0 ∧ phase = full) ∨
      (n = 1 ∧ left ≠ 0 ∧ ∃ c rest, data = c :: rest ∧ phase = next c) := by
  unfold onData at h
  split_ifs at h with none_left
  · cases h
    exact .inl ⟨rfl, none_left, rfl⟩
  · obtain ⟨one, c, rest, e, same⟩ := onByte_take h
    exact .inr ⟨one, none_left, c, rest, e, (Option.some.inj same).symm⟩

theorem onData_ne_emit {left : Nat} {full phase : HTTPPhase} {next : UInt8 → HTTPPhase} :
    onData left data full next ≠ .emit item phase := by
  unfold onData
  split_ifs
  · exact nofun
  · exact onByte_ne_emit

/-- The steps that a phase can make without using up a byte. -/
def weight : HTTPPhase → Nat
  | .lengthBody .. | .chunkData .. => 2
  | .complete _ => 1
  | _ => 0

theorem weight_le (phase : HTTPPhase) : weight phase ≤ 2 := by
  cases phase <;> simp [weight]

/-- What a move that takes bytes has taken. -/
theorem step_take {limit n : Nat} {phase phase' : HTTPPhase}
    (h : step limit phase data = .take n phase') :
    (0 < n ∧ n ≤ data.length) ∨ (n = 0 ∧ weight phase' < weight phase) := by
  unfold step at h
  have line : ∀ {drained next}, onLine limit drained data next = .take n phase' →
      0 < n ∧ n ≤ data.length := by
    intro drained next h
    obtain ⟨line, found, -⟩ := onLine_take h
    exact findCRLF_length found
  have byte : ∀ {next}, onByte data next = .take n phase' → 0 < n ∧ n ≤ data.length := by
    intro next h
    obtain ⟨rfl, c, rest, rfl, -⟩ := onByte_take h
    exact ⟨Nat.one_pos, Nat.succ_le_succ (Nat.zero_le _)⟩
  have data : ∀ {left full next}, onData left data full next = .take n phase' →
      weight full < weight phase → (0 < n ∧ n ≤ data.length) ∨
        (n = 0 ∧ weight phase' < weight phase) := by
    intro left full next h lighter
    rcases onData_take h with ⟨rfl, -, rfl⟩ | ⟨rfl, -, c, rest, rfl, -⟩
    · exact .inr ⟨rfl, lighter⟩
    · exact .inl ⟨Nat.one_pos, Nat.succ_le_succ (Nat.zero_le _)⟩
  cases phase with
  | startLine | headers | chunkSize => exact .inl (line h)
  | chunkEnd | eofBody => exact .inl (byte h)
  | complete => cases h
  | lengthBody => exact data h (Nat.lt_succ_self 1)
  | chunkData => exact data h Nat.two_pos

theorem step_emit {limit : Nat} {phase phase' : HTTPPhase}
    (h : step limit phase data = .emit item phase') :
    phase = .complete item ∧ phase' = .startLine := by
  unfold step at h
  cases phase with
  | startLine | headers | chunkSize => exact absurd h onLine_ne_emit
  | chunkEnd | eofBody => exact absurd h onByte_ne_emit
  | lengthBody | chunkData => exact absurd h onData_ne_emit
  | complete =>
    cases h
    exact ⟨rfl, rfl⟩

theorem step_settled {limit : Nat} (h : step limit phase data ≠ .wait) :
    step limit phase (data ++ more) = step limit phase data := by
  unfold step at h ⊢
  cases phase with
  | startLine | headers | chunkSize => exact onLine_settled more h
  | chunkEnd | eofBody => exact onByte_settled more h
  | lengthBody | chunkData => exact onData_settled more h
  | complete => rfl

end HTTPMachine

open HTTPMachine in
/-- The machine for a package limit. -/
def httpMachine (limit : Nat) : Machine HTTPPhase HTTPPacket UInt8 where
  step := step limit
  size phase data := 3 * data.length + weight phase
  fits _ _ _ _ h := by
    rcases step_take h with taken | taken <;> omega
  settled _ _ more h := step_settled more h
  take_smaller _ _ _ phase h := by
    have := weight_le phase
    rw [List.length_drop]
    rcases step_take h with taken | taken <;> omega
  emit_smaller _ _ _ _ h := by
    obtain ⟨rfl, rfl⟩ := step_emit h
    exact Nat.lt_succ_self _

@[simp] theorem httpMachine_step (limit : Nat) :
    (httpMachine limit).step = HTTPMachine.step limit := rfl

end AgentEngine.Anet
