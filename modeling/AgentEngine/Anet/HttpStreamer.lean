import AgentEngine.Anet.HttpPacket
import AgentEngine.Anet.PacketStreamer
import AgentEngine.Lib.Loops

/-!
`HTTPStreamer` (`httpstreamer.cpp`) and its context (`httpstreamingcontext.cpp`): the resumable
parser of HTTP messages, as a streamer for the read loop of `TCPConnection`.

The parser writes NULs into the line that it looks at, to make C strings of its parts. It takes
the line off the buffer right afterwards or sets the context to broken, so the stores are not
seen by later calls, and a part is simply the list of its bytes here; the functions that take C
strings stop at a NUL within. Sizes are natural numbers: no stream is `2 ^ 64` bytes long.
-/

namespace AgentEngine.Anet

open Lib

inductive AnetError where
  | invalidData
  | connectionClosed
  | pkgTooLarge
  | uriTooLarge
  | versionNotSupport
  | tooManyHeaders
deriving DecidableEq, Repr

inductive HTTPStreamingStep where
  | startLine
  | messageHeader
  | messageBody
deriving DecidableEq, Repr

inductive HTTPEncodingType where
  | noBody
  | length
  | chunked
  | eof
deriving DecidableEq, Repr

inductive HTTPChunkedState where
  | chunkSize
  | chunkData
  | chunkDataCRLF
  | trailer
deriving DecidableEq, Repr

/-- The fields that `HTTPStreamingContext` adds. -/
structure HTTPFields where
  step : HTTPStreamingStep := .startLine
  chunkState : HTTPChunkedState := .chunkSize
  encodingType : HTTPEncodingType := .noBody
  dataLength : Nat := 0
  drainedLength : Nat := 0
  headersCount : Nat := 0
  errorNo : Option AnetError := none
deriving DecidableEq, Repr

abbrev HTTPStreamingContext := StreamingContext HTTPPacket HTTPFields

namespace HTTPStreamingContext

variable (context : HTTPStreamingContext)

/-- `setErrorNo`, which also sets the context to broken. -/
def setErrorNo (errorNo : AnetError) : HTTPStreamingContext :=
  { context with broken := true, ext := { context.ext with errorNo := some errorNo } }

/-- `_drainedLength += length`. -/
def addDrained (length : Nat) : HTTPStreamingContext :=
  { context with ext := { context.ext with drainedLength := context.ext.drainedLength + length } }

/-- Change the packet, which the functions that do so assert to be there. -/
def modifyPacket (f : HTTPPacket → HTTPPacket) : HTTPStreamingContext :=
  { context with packet := context.packet.map f }

def setStep (step : HTTPStreamingStep) : HTTPStreamingContext :=
  { context with ext := { context.ext with step } }

def setChunkState (chunkState : HTTPChunkedState) : HTTPStreamingContext :=
  { context with ext := { context.ext with chunkState } }

def setEncodingType (encodingType : HTTPEncodingType) : HTTPStreamingContext :=
  { context with ext := { context.ext with encodingType } }

def setDataLength (dataLength : Nat) : HTTPStreamingContext :=
  { context with ext := { context.ext with dataLength } }

end HTTPStreamingContext

namespace HTTPStreamer

open HTTPStreamingContext

def URI_LIMIT : Nat := 1024 * 64
def PKG_LIMIT : Nat := 67108864
def HEADERS_LIMIT : Nat := 128

def getPkgLimit (pkgLimit : Nat) : Nat := if pkgLimit = 0 then PKG_LIMIT else pkgLimit

/-! ### Bytes -/

/-- The bytes that `_table` marks. -/
def tokenCharacters : List UInt8 :=
  ascii "!#$%&'*+-.0123456789ABCDEFGHIJKLMNOPQRSTUVWXYZ^_`abcdefghijklmnopqrstuvwxyz|~"

def isTokenCharacter (c : UInt8) : Bool := tokenCharacters.contains c

def isValidToken (token : List UInt8) : Bool := token.all isTokenCharacter

def isValidStatusCode (code : List UInt8) : Bool :=
  (cstr code).length == 3 && (cstr code).all isdigit

def isValidDigits (digits : List UInt8) : Bool := (cstr digits).all isdigit

def isWhiteSpace (c : UInt8) : Bool := c == 32 || c == 9

variable (limit : Nat) (input : DataBuffer) (context : HTTPStreamingContext) (line : List UInt8)
  (s : DataBuffer × HTTPStreamingContext) (data : List UInt8)

/-- `findNextWhiteSpace`: what comes before the next white space, and the rest from there on. -/
def findNextWhiteSpace : List UInt8 × List UInt8 :=
  (data.takeWhile fun c => !isWhiteSpace c, data.dropWhile fun c => !isWhiteSpace c)

def skipWhiteSpaces : List UInt8 := data.dropWhile isWhiteSpace

def replaceZero : List UInt8 := data.map fun c => if c = 0 then 32 else c

/-- `trim`, on both sides. -/
def trim : List UInt8 := (data.dropWhile isWhiteSpace).rdropWhile isWhiteSpace

/-- `findCRLF`: the line without its end, and the number of bytes up to that end. -/
def findCRLF : Option (List UInt8 × Nat) :=
  let line := data.takeWhile (· ≠ 10)
  if line.length = data.length then none
  else some (if line.getLast? = some 13 then line.dropLast else line, line.length + 1)

/-! ### The start line -/

/-- What both start lines do with their version. -/
def processVersion (token : List UInt8) : Bool × HTTPStreamingContext :=
  if cstr token = ascii "HTTP/1.0" then
    (true, context.modifyPacket fun p => { p with version := .http10 })
  else if cstr token = ascii "HTTP/1.1" then
    (true, context.modifyPacket fun p => { p with version := .http11 })
  else
    (false, (context.modifyPacket fun p => { p with version := .unsupported }).setErrorNo
      .versionNotSupport)

def processRequestLine : Bool × HTTPStreamingContext :=
  let (method, rest) := findNextWhiteSpace line
  if rest = [] then (false, context.setErrorNo .invalidData)
  else if !isValidToken method then (false, context.setErrorNo .invalidData)
  else
    let context := context.modifyPacket fun p => { p with type := .request }.setMethod method
    let start := skipWhiteSpaces rest.tail
    if start = [] then (false, context.setErrorNo .invalidData)
    else
      let (uri, rest) := findNextWhiteSpace start
      if rest = [] then (false, context.setErrorNo .invalidData)
      else if uri.length > URI_LIMIT then (false, context.setErrorNo .uriTooLarge)
      else
        let context := context.modifyPacket (·.setURI (some (replaceZero uri)))
        processVersion context (skipWhiteSpaces rest.tail)

def processStatusLine : Bool × HTTPStreamingContext :=
  let (version, rest) := findNextWhiteSpace line
  if rest = [] then (false, context.setErrorNo .invalidData)
  else
    let context := context.modifyPacket fun p => { p with type := .response }
    let (supported, context) := processVersion context version
    if !supported then (false, context)
    else
      let start := skipWhiteSpaces rest.tail
      if start = [] then (false, context.setErrorNo .invalidData)
      else
        let (code, rest) := findNextWhiteSpace start
        if !isValidStatusCode code then (false, context.setErrorNo .invalidData)
        else
          let context := context.modifyPacket (·.setStatusCode (atoi code).toInt)
          let start := skipWhiteSpaces rest.tail
          (true,
            if start = [] then context else context.modifyPacket (·.setReasonPhrase (some start)))

def processStartLine : Bool × DataBuffer × HTTPStreamingContext :=
  match findCRLF input.unread with
  | none =>
      (false, input,
        if input.unread.length > limit then context.setErrorNo .pkgTooLarge else context)
  | some (line, length) =>
      if length > limit then (false, input, context.setErrorNo .pkgTooLarge)
      else
        let context : HTTPStreamingContext := { context with packet := some {} }
        let (rc, context) :=
          if line.take 5 = ascii "HTTP/" then processStatusLine context line
          else processRequestLine context line
        (rc, input.drainData length, context.addDrained length)

/-! ### Headers -/

/-- `processPerHeaderLine`; a line without a colon is passed over. -/
def processPerHeaderLine (packet : HTTPPacket) : HTTPPacket :=
  let key := line.takeWhile (· ≠ 58)
  let rest := line.dropWhile (· ≠ 58)
  if rest = [] then packet else packet.addHeader key (replaceZero (trim rest.tail))

/-- What the loop does with a line that is not empty. Too many headers do not end it. -/
def addHeaderLine (drainLength : Nat) : HTTPStreamingContext :=
  let context := context.modifyPacket (processPerHeaderLine line)
  let context : HTTPStreamingContext :=
    { context with ext := { context.ext with headersCount := context.ext.headersCount + 1 } }
  let context :=
    if context.ext.headersCount > HEADERS_LIMIT then context.setErrorNo .tooManyHeaders
    else context
  context.addDrained drainLength

/-- A round of the loop of `processHeadersOrTrailers`. -/
def headerRound :
    Round (DataBuffer × HTTPStreamingContext) (Bool × DataBuffer × HTTPStreamingContext) :=
  let (input, context) := s
  match findCRLF input.unread with
  | none =>
      .leave (false, input,
        if input.unread.length + context.ext.drainedLength > limit then
          context.setErrorNo .pkgTooLarge
        else context)
  | some (line, drainLength) =>
      if context.ext.drainedLength + drainLength > limit then
        .leave (false, input, context.setErrorNo .pkgTooLarge)
      else if line = [] then
        .leave (true, input.drainData drainLength, context.addDrained drainLength)
      else .again (input.drainData drainLength, addHeaderLine context line drainLength)

theorem findCRLF_length {data line : List UInt8} {length : Nat}
    (h : findCRLF data = some (line, length)) : 0 < length ∧ length ≤ data.length := by
  unfold findCRLF at h
  dsimp only at h
  split at h
  · cases h
  · rename_i some_end
    cases h
    have := (List.takeWhile_prefix (l := data) (· ≠ 10)).length_le
    omega

theorem headerRound_smaller {s s' : DataBuffer × HTTPStreamingContext}
    (h : headerRound limit s = .again s') : s'.1.unread.length < s.1.unread.length := by
  unfold headerRound at h
  dsimp only at h
  split at h
  · cases h
  · rename_i line drainLength found
    split at h
    · cases h
    · split at h
      · cases h
      · cases h
        have length := findCRLF_length found
        rw [DataBuffer.unread_drainData, List.length_drop]
        omega

def headerLoop :
    Loop (DataBuffer × HTTPStreamingContext) (Bool × DataBuffer × HTTPStreamingContext) where
  body := headerRound limit
  size s := s.1.unread.length
  smaller _ _ := headerRound_smaller limit

def processHeadersOrTrailers : Bool × DataBuffer × HTTPStreamingContext :=
  (headerLoop limit).run (input, context)

/-- The end of the headers of a message with a `Content-Length`. -/
def contentLengthEnd (contentLength : List UInt8) : Bool × HTTPStreamingContext :=
  if !isValidDigits contentLength then (false, context.setErrorNo .invalidData)
  else
    let length := (atoi contentLength).toInt
    if length > 0 then
      let context := (context.setEncodingType .length).setDataLength length.toNat
      if length.toNat + context.ext.drainedLength > limit then
        (false, context.setErrorNo .pkgTooLarge)
      else (true, context)
    else (true, context.setEncodingType .noBody)

def messageHeadersEnd : Bool × HTTPStreamingContext :=
  match context.packet.bind (·.getHeader (ascii "Transfer-Encoding")) with
  | none =>
      match context.packet.bind (·.getHeader (ascii "Content-Length")) with
      | none =>
          (true, context.setEncodingType
            (if context.packet.map (·.type) = some .response then .eof else .noBody))
      | some contentLength => contentLengthEnd limit context contentLength
  | some encodingType =>
      if encodingType = ascii "chunked" then (true, context.setEncodingType .chunked)
      else (false, context.setErrorNo .invalidData)

def processHeaders : Bool × DataBuffer × HTTPStreamingContext :=
  let (ended, input, context) := processHeadersOrTrailers limit input context
  if ended then
    let (ok, context) := messageHeadersEnd limit context
    (ok, input, context)
  else (false, input, context)

/-! ### Bodies -/

def processLengthBody : Bool × DataBuffer × HTTPStreamingContext :=
  let dataLength := context.ext.dataLength
  let bufferLength := input.unread.length
  if bufferLength ≥ dataLength then
    (true, input.drainData dataLength,
      (context.modifyPacket (·.appendBody (input.unread.take dataLength))).addDrained dataLength)
  else
    (false, input.clear,
      ((context.modifyPacket (·.appendBody input.unread)).setDataLength
        (dataLength - bufferLength)).addDrained bufferLength)

def processEOFBody : Bool × DataBuffer × HTTPStreamingContext :=
  (context.eof, input.clear, context.modifyPacket (·.appendBody input.unread))

/-- `sscanf(line, "%x%c", &chunkSize, &c)`, where `chunkSize` is -1 and `c` is 0 before. -/
def scanChunkSize : Int × UInt8 :=
  match scanHex line with
  | none => (-1, 0)
  | some (chunkSize, rest) => (chunkSize.toInt, rest.headD 0)

/-- `processChunkSize` on a line that is complete and within the limit. -/
def chunkSizeLine (drainLength : Nat) (input : DataBuffer)
    (context : HTTPStreamingContext) : Bool × DataBuffer × HTTPStreamingContext :=
  let (chunkSize, c) := scanChunkSize (skipWhiteSpaces line)
  if chunkSize < 0 ∨ (c ≠ 0 ∧ c ≠ 59) then (false, input, context.setErrorNo .invalidData)
  else
    let dataLength := chunkSize.toNat
    let input := input.drainData drainLength
    let context := (context.setDataLength dataLength).addDrained drainLength
    if dataLength = 0 then (true, input, context.setChunkState .trailer)
    else if context.ext.drainedLength + dataLength > limit then
      (false, input, context.setErrorNo .pkgTooLarge)
    else (true, input, context.setChunkState .chunkData)

def processChunkSize : Bool × DataBuffer × HTTPStreamingContext :=
  match findCRLF input.unread with
  | none =>
      (false, input,
        if input.unread.length + context.ext.drainedLength > limit then
          context.setErrorNo .pkgTooLarge
        else context)
  | some (line, drainLength) =>
      if context.ext.drainedLength + drainLength > limit then
        (false, input, context.setErrorNo .pkgTooLarge)
      else chunkSizeLine limit line drainLength input context

/-- `getCRLF`. A carriage return at the end of the buffer is dropped, and nothing tells later
that it was there. -/
def getCRLF : Bool × DataBuffer × HTTPStreamingContext :=
  match input.unread with
  | [] => (false, input, context)
  | [c] =>
      if c = 10 then (true, input.drainData 1, context.addDrained 1)
      else if c ≠ 13 then (false, input, context.setErrorNo .invalidData)
      else (false, input.clear, context.addDrained 1)
  | c :: c' :: _ =>
      if c = 10 then (true, input.drainData 1, context.addDrained 1)
      else if c = 13 ∧ c' = 10 then
        (true, input.drainData 2, context.addDrained 2)
      else (false, input, context.setErrorNo .invalidData)

/-- Go on in the loop of `processChunkedBody` if a part of a chunk is complete. -/
def nextPart (r : Bool × DataBuffer × HTTPStreamingContext)
    (f : HTTPStreamingContext → HTTPStreamingContext) :
    Round (DataBuffer × HTTPStreamingContext) (Bool × DataBuffer × HTTPStreamingContext) :=
  if r.1 then .again (r.2.1, f r.2.2) else .leave (false, r.2.1, r.2.2)

/-- A round of the loop of `processChunkedBody`. -/
def chunkRound :
    Round (DataBuffer × HTTPStreamingContext) (Bool × DataBuffer × HTTPStreamingContext) :=
  let (input, context) := s
  match context.ext.chunkState with
  | .chunkSize => nextPart (processChunkSize limit input context) id
  | .chunkData => nextPart (processLengthBody input context) (·.setChunkState .chunkDataCRLF)
  | .chunkDataCRLF => nextPart (getCRLF input context) (·.setChunkState .chunkSize)
  | .trailer => .leave (processHeadersOrTrailers limit input context)

/-- Each part but the data of a chunk takes some byte. -/
def chunkLoopSize : Nat :=
  2 * s.1.unread.length + if s.2.ext.chunkState = .chunkData then 1 else 0

variable {f : HTTPStreamingContext → HTTPStreamingContext}
  {r : Bool × DataBuffer × HTTPStreamingContext}

theorem nextPart_again {s : DataBuffer × HTTPStreamingContext}
    (h : nextPart r f = .again s) : r.1 = true ∧ s = (r.2.1, f r.2.2) := by
  unfold nextPart at h
  split at h
  · rename_i complete
    cases h
    exact ⟨complete, rfl⟩
  · cases h

theorem nextPart_sat {P : DataBuffer × HTTPStreamingContext → Prop}
    {Q : Bool × DataBuffer × HTTPStreamingContext → Prop}
    (again : r.1 = true → P (r.2.1, f r.2.2)) (leave : r.1 = false → Q r) :
    (nextPart r f).Sat P Q := by
  obtain ⟨complete, input, context⟩ := r
  cases complete with
  | true => exact again rfl
  | false => exact leave rfl

theorem processChunkSize_length {input : DataBuffer} {context : HTTPStreamingContext}
    (complete : (processChunkSize limit input context).1 = true) :
    (processChunkSize limit input context).2.1.unread.length < input.unread.length := by
  unfold processChunkSize chunkSizeLine at complete ⊢
  split at complete
  · cases complete
  · rename_i line drainLength found
    have length := findCRLF_length found
    have shorter : (input.drainData drainLength).unread.length < input.unread.length := by
      rw [DataBuffer.unread_drainData, List.length_drop]
      omega
    dsimp only at complete ⊢
    split_ifs at complete ⊢ <;> exact shorter

theorem getCRLF_length {input : DataBuffer} {context : HTTPStreamingContext}
    (complete : (getCRLF input context).1 = true) :
    (getCRLF input context).2.1.unread.length < input.unread.length := by
  have shorter : ∀ n : Nat, 0 < n → input.unread ≠ [] →
      (input.drainData n).unread.length < input.unread.length := by
    intro n positive some_byte
    have := List.length_pos_iff.mpr some_byte
    rw [DataBuffer.unread_drainData, List.length_drop]
    omega
  unfold getCRLF at complete ⊢
  split at complete
  · cases complete
  · rename_i c e
    have some_byte : input.unread ≠ [] := by
      rw [e]
      exact List.cons_ne_nil _ _
    rw [e]
    split_ifs at complete ⊢
    rw [← e]
    exact shorter 1 Nat.one_pos some_byte
  · rename_i c c' rest e
    have some_byte : input.unread ≠ [] := by
      rw [e]
      exact List.cons_ne_nil _ _
    rw [e]
    split_ifs at complete ⊢
    · rw [← e]
      exact shorter 1 Nat.one_pos some_byte
    · rw [← e]
      exact shorter 2 Nat.two_pos some_byte

theorem chunkRound_smaller {s s' : DataBuffer × HTTPStreamingContext}
    (h : chunkRound limit s = .again s') : chunkLoopSize s' < chunkLoopSize s := by
  obtain ⟨input, context⟩ := s
  unfold chunkRound at h
  dsimp only at h
  unfold chunkLoopSize
  split at h
  · rename_i state
    obtain ⟨complete, rfl⟩ := nextPart_again h
    have := processChunkSize_length limit complete
    dsimp only
    split_ifs <;> omega
  · rename_i state
    obtain ⟨complete, rfl⟩ := nextPart_again h
    have shorter : (processLengthBody input context).2.1.unread.length ≤ input.unread.length := by
      unfold processLengthBody
      dsimp only
      split
      · rw [DataBuffer.unread_drainData, List.length_drop]
        omega
      · rw [DataBuffer.unread, DataBuffer.clear, List.drop_length]
        exact Nat.zero_le _
    rw [if_pos state, if_neg (fun same => by cases same)]
    dsimp only
    omega
  · rename_i state
    obtain ⟨complete, rfl⟩ := nextPart_again h
    have := getCRLF_length complete
    rw [if_neg (fun same => by cases same)]
    dsimp only
    omega
  · cases h

def chunkLoop :
    Loop (DataBuffer × HTTPStreamingContext) (Bool × DataBuffer × HTTPStreamingContext) where
  body := chunkRound limit
  size := chunkLoopSize
  smaller _ _ := chunkRound_smaller limit

def processChunkedBody : Bool × DataBuffer × HTTPStreamingContext :=
  (chunkLoop limit).run (input, context)

def processBody : Bool × DataBuffer × HTTPStreamingContext :=
  match context.ext.encodingType with
  | .noBody => (true, input, context)
  | .length => processLengthBody input context
  | .chunked => processChunkedBody limit input context
  | .eof => processEOFBody input context

/-! ### processData -/

/-- `processData` from the case `HSS_MESSAGE_BODY` on. -/
def fromBody : DataBuffer × HTTPStreamingContext :=
  let (finished, input, context) := processBody limit input context
  (input, if finished then { context with completed := true } else context)

/-- `processData` from the case `HSS_MESSAGE_HEADER` on. -/
def fromHeader : DataBuffer × HTTPStreamingContext :=
  let (finished, input, context) := processHeaders limit input context
  if finished then fromBody limit input (context.setStep .messageBody) else (input, context)

/-- `processData` from the case `HSS_START_LINE` on. -/
def fromStart : DataBuffer × HTTPStreamingContext :=
  let (finished, input, context) := processStartLine limit input context
  if finished then fromHeader limit input (context.setStep .messageHeader) else (input, context)

/-- The `switch` of `processData`. -/
def advance : DataBuffer × HTTPStreamingContext :=
  match context.ext.step with
  | .startLine => fromStart limit input context
  | .messageHeader => fromHeader limit input context
  | .messageBody => fromBody limit input context

/-- What `processData` does at the end of the file. -/
def atEndOfFile : HTTPStreamingContext :=
  if context.eof ∧ (context.packet.map (·.type) = some .request ∨
      (context.completed = false ∧ context.broken = false)) then
    context.setErrorNo .connectionClosed
  else context

def processData : Bool × DataBuffer × HTTPStreamingContext :=
  let (input, context) := advance limit input context
  let context := atEndOfFile context
  (!context.broken, input, context)

/-- A packet of which nothing has been read takes at least one byte. -/
def quota (unread : Nat) (context : HTTPStreamingContext) : Nat :=
  if context.ext.step = .startLine ∧ context.completed = false then unread else unread + 1

/-- The streamer with `_pkgLimit` as `setPkgLimit` left it. -/
def streamer (pkgLimit : Nat) : IPacketStreamer HTTPPacket HTTPFields where
  processData := processData (getPkgLimit pkgLimit)
  cleanupFlags := id
  fresh := {}
  quota := quota

end HTTPStreamer

end AgentEngine.Anet
