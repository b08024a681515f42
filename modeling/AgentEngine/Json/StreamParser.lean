import AgentEngine.Json.StringParser

/-!
The parser of JSON in streams and the printer into streams (`json.cpp`), with the stream version
of `UnquoteString` (`string_conversion.cpp`) and the streams over strings that they are used with
(`astream.h`).

* `writes_toStream`: the printer writes into a stream what the printer of strings appends.
-/

namespace AgentEngine.Json

open Lib List

/-! ### Input -/

/-- `a_IstreamBuffer`, with `mSize` bytes, which is an `int`. -/
structure IstreamBuffer where
  data : List UInt8
  curPos : Nat := 0
  lastGetFail : Bool := false
  size : data.length < 2 ^ 31
deriving DecidableEq

namespace IstreamBuffer

variable {ε : Type}

/-- `a_IstreamBuffer(b)`. There is no memory for a size that has become negative, and copying as many
bytes fails. -/
def ofString (b : List UInt8) : Option IstreamBuffer :=
  let size := (BitVec.ofNat 32 b.length).toInt
  if 0 ≤ size then
    some
      { data := b.take size.toNat
        size := by
          have lt := BitVec.toInt_lt (x := BitVec.ofNat 32 b.length)
          rw [List.length_take]
          omega }
  else none

theorem ofString_of_lt {b : List UInt8} (short : b.length < 2 ^ 31) :
    ofString b = some { data := b, size := short } := by
  have size : (BitVec.ofNat 32 b.length).toInt = b.length := by
    rw [BitVec.toInt_ofNat', Int.bmod_eq_of_le] <;> omega
  simp only [ofString, size, Int.toNat_natCast, List.take_length, if_pos (Int.natCast_nonneg _)]

theorem ofString_of_le {b : List UInt8} (long : 2 ^ 31 ≤ b.length) (fits : b.length < 2 ^ 32) :
    ofString b = none := by
  have size : (BitVec.ofNat 32 b.length).toInt < 0 := by
    rw [BitVec.toInt_ofNat', Int.bmod_def]
    omega
  exact if_neg (not_le.mpr size)

def peek : Parser IstreamBuffer ε Int := fun is =>
  match is.data[is.curPos]? with
  | some b => .ok (b.toNat, is)
  | none => .ok (-1, { is with lastGetFail := true })

def get : Parser IstreamBuffer ε Int := fun is =>
  match is.data[is.curPos]? with
  | some b => .ok (b.toNat, { is with curPos := is.curPos + 1 })
  | none => .ok (-1, { is with lastGetFail := true })

/-- `is.get()`, for the byte that was peeked at. -/
def advance : Parser IstreamBuffer ε Unit := do
  let _ ← IstreamBuffer.get
  pure ()

/-- `bad` and `fail` are never set, so that only `eof` counts. -/
def good : Parser IstreamBuffer ε Bool := fun is => .ok (!is.lastGetFail, is)

/-- `static_cast<char>` -/
def toChar (c : Int) : UInt8 := UInt8.ofBitVec (BitVec.ofInt 8 c)

/-- `byte = static_cast<char>(is.peek())`, if `is.good()` then. -/
def next : Parser IstreamBuffer ε (Option UInt8) := do
  let byte ← peek
  if ← good then pure (some (toChar byte)) else pure none

def left (is : IstreamBuffer) : Nat := is.data.length - is.curPos

end IstreamBuffer

/-! ### The parser -/

namespace StreamParser

open IstreamBuffer

abbrev Parse (α : Type) := Parser IstreamBuffer JsonError α

/-- The digits behind `\u`. The exception for a byte that is no digit is made but not thrown. -/
def unicodeDigits : (j : Nat) → (data : UInt16) → Parser IstreamBuffer BadQuoteString UInt16
  | 0, data => pure data
  | j + 1, data => do
      advance
      match ← next with
      | none => Parser.fail ⟨ascii "\\u needs 4 digits"⟩
      | some b =>
          match hexValue b with
          | some value => unicodeDigits j (data <<< 4 ||| value)
          | none => unicodeDigits j data

/-- A round of the loop of `UnquoteString(is)`, over whether a backslash came before and what the
string is so far. -/
def unquoteRound : Bool × List UInt8 →
    Parser IstreamBuffer BadQuoteString (Round (Bool × List UInt8) (List UInt8)) :=
  fun (escaped, str) => do
    match ← next with
    | none =>
        if escaped then Parser.fail ⟨ascii "Missing char after \\"⟩ else pure (.leave str)
    | some byte =>
        if escaped then
          if byte = 117 then do
            let data ← unicodeDigits 4 0
            advance
            pure (.again (false, str ++ unicodeToUtf8 data))
          else
            match unescape byte with
            | some byte => do
                advance
                pure (.again (false, str ++ [byte]))
            | none => Parser.fail ⟨ascii "unknown char after \\"⟩
        else if byte = 92 then do
          advance
          pure (.again (true, str))
        else if byte = 34 then pure (.leave str)
        else do
          advance
          pure (.again (false, str ++ [byte]))

def unquoteString : Parser IstreamBuffer BadQuoteString (List UInt8) :=
  Parser.loop left unquoteRound (false, [])

/-- A round of the loop of `SkipMultiLineComment`. -/
def multiLineRound (prevIsStar : Bool) : Parse (Round Bool Unit) := do
  match ← next with
  | none => Parser.fail (.parser (ascii "Expect end of comment"))
  | some b =>
      if b = 42 then do
        advance
        pure (.again true)
      else if prevIsStar && b = 47 then do
        advance
        pure (.leave ())
      else do
        advance
        pure (.again false)

def skipMultiLineComment : Parse Unit := Parser.loop left multiLineRound false

/-- A round of the loop of `SkipSingleLineComment`. -/
def singleLineRound (_ : Unit) : Parse (Round Unit Unit) := do
  match ← next with
  | none => pure (.leave ())
  | some b =>
      if b = 13 ∨ b = 10 then do
        advance
        pure (.leave ())
      else do
        advance
        pure (.again ())

def skipSingleLineComment : Parse Unit := Parser.loop left singleLineRound ()

def skipComment : Parse Unit := do
  match ← next with
  | none => Parser.fail (.parser (ascii "expect / or * to begin a comment block after /"))
  | some b => do
      trueThenThrow (decide (b ≠ 42 ∧ b ≠ 47))
        (ascii "expect / or * to begin a comment block after /")
      advance
      if b = 42 then skipMultiLineComment else skipSingleLineComment

/-- A round of the loop of `SkipSpace`. -/
def spaceRound (_ : Unit) : Parse (Round Unit Unit) := do
  match ← next with
  | none => pure (.leave ())
  | some b =>
      if b = 32 ∨ b = 9 ∨ b = 13 ∨ b = 10 then do
        advance
        pure (.again ())
      else if b = 47 then do
        advance
        skipComment
        pure (.again ())
      else pure (.leave ())

def skipSpace : Parse Unit := Parser.loop left spaceRound ()

/-- The loop of `SkipExact`, over what is still expected of `str`. Even behind its last byte the
stream is looked at once more. -/
def skipExactFrom (str : List UInt8) : (expected : List UInt8) → Parse Unit
  | [] => do
      let _ ← next
      pure ()
  | c :: expected => do
      match ← next with
      | none => Parser.fail (.parser (ascii "expected " ++ str))
      | some byte =>
          if byte = c then do
            advance
            skipExactFrom str expected
          else Parser.fail (.parser (ascii "expected " ++ str))

def skipExact (str : List UInt8) : Parse Unit := skipExactFrom str str

def parseJsonString : Parse (List UInt8) := do
  skipExact [34]
  let str ← unquoteString.rethrow .badQuoteString
  skipExact [34]
  pure str

/-- A round of the loop of `ParseJsonNum`, over its state and the text so far. -/
def numRound : NumState × List UInt8 → Parse (Round (NumState × List UInt8) (List UInt8)) :=
  fun (state, s) => do
    match ← next with
    | none => pure (.leave s)
    | some byte =>
        match state.step byte with
        | .error e => Parser.fail e
        | .ok none => pure (.leave s)
        | .ok (some state) => do
            advance
            pure (.again (state, s ++ [byte]))

def parseJsonNum : Parse Any := do
  let s ← Parser.loop left numRound ({}, [])
  trueThenThrow (openEnd s || s = ascii "+." || s = ascii "-.") (ascii "unexpected end: " ++ s)
  pure (.number s)

/-- A round of the loop of `ParseJsonMap`, with `parseJson` for the values. -/
def mapRound (parseJson : Parse Any) : JsonMap × Bool → Parse (Round (JsonMap × Bool) Any) :=
  fun (dict, expectComma) => do
    match ← next with
    | none => Parser.fail (.parser (125 :: ascii " expected"))
    | some byte =>
        if byte = 125 then do
          trueThenThrow (!expectComma && decide (0 < dict.entries.length))
            (ascii "element required after , in dict")
          advance
          pure (.leave (.map dict.entries))
        else if byte = 44 then do
          trueThenThrow (!expectComma) (ascii ", not expected")
          advance
          skipSpace
          pure (.again (dict, false))
        else do
          trueThenThrow expectComma (ascii ", expected in a dict")
          let name ← parseJsonString
          skipSpace
          skipExact [58]
          let value ← parseJson.rethrow fun e =>
            match e with
            | .nothing => .parser (ascii "Expect value in map for key " ++ name)
            | e => e
          trueThenThrow (decide ((dict.insert name value).entries.length = dict.entries.length))
            (ascii "name not unique: " ++ name)
          skipSpace
          pure (.again (dict.insert name value, true))

def parseJsonMap (parseJson : Parse Any) : Parse Any := do
  skipExact [123]
  skipSpace
  Parser.loop left (mapRound parseJson) ({ sorted := JsonMap.sorted_nil }, false)

/-- A round of the loop of `ParseJsonArray`, with `parseJson` for the items. -/
def arrayRound (parseJson : Parse Any) : List Any × Bool → Parse (Round (List Any × Bool) Any) :=
  fun (array, expectComma) => do
    match ← next with
    | none => Parser.fail (.parser (ascii "] expected for an array"))
    | some byte =>
        if byte = 44 then do
          trueThenThrow (!expectComma) (ascii ", unexpected in array")
          advance
          skipSpace
          pure (.again (array, false))
        else if byte = 93 then do
          trueThenThrow (!expectComma && decide (0 < array.length))
            (ascii "item missing between , and ]")
          advance
          pure (.leave (.array array))
        else do
          trueThenThrow expectComma (ascii ", or ] expected")
          let item ← parseJson
          skipSpace
          pure (.again (array ++ [item], true))

def parseJsonArray (parseJson : Parse Any) : Parse Any := do
  skipExact [91]
  skipSpace
  Parser.loop left (arrayRound parseJson) ([], false)

/-- The `switch` of `ParseJson`, with `parseJson` for what is inside a value. -/
def parseValue (parseJson : Parse Any) (byte : UInt8) : Parse Any :=
  if byte = 91 then parseJsonArray parseJson
  else if byte = 123 then parseJsonMap parseJson
  else if byte = 34 then do
    let str ← parseJsonString
    pure (.string str)
  else if byte = 116 then do
    skipExact (ascii "true")
    pure (.bool true)
  else if byte = 102 then do
    skipExact (ascii "false")
    pure (.bool false)
  else if byte = 110 then do
    skipExact (ascii "null")
    pure .null
  else if beginsNumber byte then parseJsonNum
  else Parser.fail (.parser (ascii "unknown char " ++ [byte]))

def parseJson : (calls : Nat) → Parse Any
  | 0 => Parser.unfinished
  | calls + 1 => do
      skipSpace
      match ← next with
      | none => Parser.fail .nothing
      | some byte => parseValue (parseJson calls) byte

end StreamParser

/-- `ParseJson(is)` -/
def parseJsonStream (is : IstreamBuffer) : Except (Stop JsonError) (Any × IstreamBuffer) :=
  StreamParser.parseJson (is.left + 1) is

/-! ### Output -/

/-- `a_OstreamBuffer`: what is in the small buffer comes behind the rest. -/
structure OstreamBuffer where
  buf : List UInt8 := []
  buffer : List UInt8 := []
  short : buf.length < 4 := by decide

namespace OstreamBuffer

def str (os : OstreamBuffer) : List UInt8 := os.buffer ++ os.buf

def put (os : OstreamBuffer) (data : UInt8) : OstreamBuffer :=
  if h : (os.buf ++ [data]).length = 4 then { buffer := os.buffer ++ (os.buf ++ [data]) }
  else
    { os with
      buf := os.buf ++ [data]
      short := by
        have := os.short
        rw [length_append, length_singleton] at h ⊢
        omega }

/-- `write(d, len)`, where there are `len` bytes. -/
def write (os : OstreamBuffer) (d : List UInt8) (len : UInt32) : OstreamBuffer :=
  if h : len.toNat < 4 - os.buf.length then
    { os with
      buf := os.buf ++ d.take len.toNat
      short := by
        rw [length_append, length_take]
        omega }
  else { buffer := os.buffer ++ os.buf ++ d.take len.toNat }

/-- `os << in`: of a longer string, a length of 32 bits counts some of the bytes only. -/
def insert (os : OstreamBuffer) (str : List UInt8) : OstreamBuffer :=
  os.write str (.ofNat str.length)

@[simp] theorem str_put (os : OstreamBuffer) (data : UInt8) :
    (os.put data).str = os.str ++ [data] := by
  unfold put
  split_ifs
  · simp only [str, append_nil, append_assoc]
  · exact (append_assoc ..).symm

theorem str_write (os : OstreamBuffer) (d : List UInt8) (len : UInt32) :
    (os.write d len).str = os.str ++ d.take len.toNat := by
  unfold write
  split_ifs
  · exact (append_assoc ..).symm
  · simp only [str, append_nil]

/-- What is inserted of a string. -/
def inserted (str : List UInt8) : List UInt8 := str.take (str.length % 2 ^ 32)

theorem str_insert (os : OstreamBuffer) (str : List UInt8) :
    (os.insert str).str = os.str ++ inserted str := by
  rw [insert, str_write, UInt32.toNat_ofNat', inserted]

end OstreamBuffer

def putNewline (isCompact : Bool) (os : OstreamBuffer) : OstreamBuffer :=
  if isCompact then os else os.put 10

mutual

def toStream (isCompact : Bool) :
    (pre : List UInt8) → Any → OstreamBuffer → Except Exception OstreamBuffer
  | pre, .null, os => .ok ((os.insert pre).insert (ascii "null"))
  | pre, .array items, os => do
      let os ← toStreamItems isCompact pre true items ((os.insert pre).insert [91])
      .ok (((putNewline isCompact os).insert pre).insert [93])
  | pre, .map entries, os => do
      let os ← toStreamEntries isCompact pre true entries ((os.insert pre).insert [123])
      .ok (((putNewline isCompact os).insert pre).insert [125])
  | pre, .string s, os =>
      .ok ((((os.insert pre).insert [34]).insert (quoteString s)).insert [34])
  | pre, .bool b, os => .ok ((os.insert pre).insert (toStringBool b))
  | pre, .integer n, os => .ok ((os.insert pre).insert (toStringInt n.value))
  | pre, .number text, os => .ok ((os.insert pre).insert text)
  | _, .other typeName, _ => .error (unsupported typeName)

def toStreamItems (isCompact : Bool) (pre : List UInt8) :
    (first : Bool) → List Any → OstreamBuffer → Except Exception OstreamBuffer
  | _, [], os => .ok os
  | first, a :: items, os => do
      let os := putNewline isCompact (if first then os else os.insert [44])
      let os ← toStream isCompact (deeper isCompact pre) a os
      toStreamItems isCompact pre false items os

def toStreamEntries (isCompact : Bool) (pre : List UInt8) :
    (first : Bool) → List (List UInt8 × Any) → OstreamBuffer → Except Exception OstreamBuffer
  | _, [], os => .ok os
  | first, (key, a) :: entries, os => do
      let os := putNewline isCompact (if first then os else os.insert [44])
      let os := (((os.insert pre).insert [34]).insert (quoteString key)).insert [34, 58]
      let os ← toStream isCompact (deeper isCompact pre) a (putNewline isCompact os)
      toStreamEntries isCompact pre false entries os

end

/-! ### What is printed into a stream -/

/-- All of a text has been sent; or some is missing. -/
def Sent (sent text : List UInt8) (whole : Prop) : Prop :=
  whole ∧ sent = text ∨ ¬ whole ∧ sent.length < text.length

namespace Sent

variable {sent text sent' text' : List UInt8} {whole whole' : Prop}

theorem refl (text : List UInt8) : Sent text text True := .inl ⟨trivial, rfl⟩

theorem inserted (str : List UInt8) :
    Sent (OstreamBuffer.inserted str) str (str.length < 2 ^ 32) := by
  unfold OstreamBuffer.inserted
  by_cases short : str.length < 2 ^ 32
  · exact .inl ⟨short, by rw [Nat.mod_eq_of_lt short, take_length]⟩
  · refine .inr ⟨short, ?_⟩
    have lt := Nat.mod_lt str.length (Nat.two_pow_pos 32)
    rw [length_take]
    omega

theorem length_le (h : Sent sent text whole) : sent.length ≤ text.length := by
  rcases h with ⟨-, rfl⟩ | ⟨-, less⟩
  · exact le_rfl
  · exact less.le

theorem append (h : Sent sent text whole) (h' : Sent sent' text' whole') :
    Sent (sent ++ sent') (text ++ text') (whole ∧ whole') := by
  have le := h.length_le
  have le' := h'.length_le
  rcases h with ⟨all, rfl⟩ | ⟨part, less⟩
  · rcases h' with ⟨all', rfl⟩ | ⟨part', less'⟩
    · exact .inl ⟨⟨all, all'⟩, rfl⟩
    · refine .inr ⟨fun both => part' both.2, ?_⟩
      simp only [length_append]
      omega
  · refine .inr ⟨fun both => part both.1, ?_⟩
    simp only [length_append]
    omega

theorem congr (h : Sent sent text whole) (same : whole ↔ whole') : Sent sent text whole' := by
  rwa [← propext same]

theorem eq_iff (h : Sent sent text whole) : sent = text ↔ whole := by
  rcases h with ⟨all, same⟩ | ⟨part, less⟩
  · exact iff_of_true same all
  · refine iff_of_false ?_ part
    rintro rfl
    exact lt_irrefl _ less

end Sent

mutual

/-- The texts and prefixes that are printed of a value have lengths of 32 bits. -/
def Short (isCompact : Bool) : (pre : List UInt8) → Any → Prop
  | pre, .array items => pre.length < 2 ^ 32 ∧ ShortItems isCompact pre items
  | pre, .map entries => pre.length < 2 ^ 32 ∧ ShortEntries isCompact pre entries
  | pre, .string s => pre.length < 2 ^ 32 ∧ (quoteString s).length < 2 ^ 32
  | pre, .integer n => pre.length < 2 ^ 32 ∧ (toStringInt n.value).length < 2 ^ 32
  | pre, .number text => pre.length < 2 ^ 32 ∧ text.length < 2 ^ 32
  | pre, _ => pre.length < 2 ^ 32

def ShortItems (isCompact : Bool) (pre : List UInt8) : List Any → Prop
  | [] => True
  | a :: items => Short isCompact (deeper isCompact pre) a ∧ ShortItems isCompact pre items

def ShortEntries (isCompact : Bool) (pre : List UInt8) : List (List UInt8 × Any) → Prop
  | [] => True
  | (key, a) :: entries => pre.length < 2 ^ 32 ∧ (quoteString key).length < 2 ^ 32 ∧
      Short isCompact (deeper isCompact pre) a ∧ ShortEntries isCompact pre entries

end

/-- A printer into a stream that held `before` sends what a printer of strings appends. -/
def Writes (before : List UInt8) (r : Except Exception OstreamBuffer)
    (t : Except Exception (List UInt8)) (whole : Prop) : Prop :=
  (∃ e, r = .error e ∧ t = .error e) ∨
  ∃ os sent text, r = .ok os ∧ t = .ok text ∧ os.str = before ++ sent ∧ Sent sent text whole

theorem Writes.bind {before : List UInt8} {r : Except Exception OstreamBuffer}
    {t : Except Exception (List UInt8)} {f : OstreamBuffer → Except Exception OstreamBuffer}
    {g : List UInt8 → Except Exception (List UInt8)} {before' : List UInt8} {whole whole' : Prop}
    (h : Writes before r t whole)
    (hf : ∀ os sent text, os.str = before ++ sent → Sent sent text whole →
      Writes before' (f os) (g text) whole') : Writes before' (r >>= f) (t >>= g) whole' := by
  obtain ⟨e, rfl, rfl⟩ | ⟨os, sent, text, rfl, rfl, str, all⟩ := h
  · exact .inl ⟨e, rfl, rfl⟩
  · exact hf os sent text str all

theorem Writes.ok {before sent text : List UInt8} {whole : Prop} {os : OstreamBuffer}
    (str : os.str = before ++ sent) (h : Sent sent text whole) :
    Writes before (.ok os) (.ok text) whole :=
  .inr ⟨os, sent, text, rfl, rfl, str, h⟩

theorem str_putNewline (isCompact : Bool) (os : OstreamBuffer) :
    (putNewline isCompact os).str = os.str ++ newline isCompact := by
  cases isCompact with
  | true => exact (append_nil _).symm
  | false => exact OstreamBuffer.str_put os 10

theorem str_comma (first : Bool) (os : OstreamBuffer) :
    (if first then os else os.insert [44]).str = os.str ++ if first then [] else [44] := by
  cases first with
  | true => exact (append_nil _).symm
  | false => exact OstreamBuffer.str_insert os [44]

/-- A short text behind a prefix. -/
theorem writes_text (pre text : List UInt8) (os : OstreamBuffer) :
    Writes os.str (.ok ((os.insert pre).insert text)) (.ok (pre ++ text))
      (pre.length < 2 ^ 32 ∧ text.length < 2 ^ 32) :=
  .ok (by rw [OstreamBuffer.str_insert, OstreamBuffer.str_insert, append_assoc])
    ((Sent.inserted pre).append (Sent.inserted text))

theorem Writes.congr {before : List UInt8} {r : Except Exception OstreamBuffer}
    {t : Except Exception (List UInt8)} {whole whole' : Prop} (h : Writes before r t whole)
    (same : whole ↔ whole') : Writes before r t whole' := by
  rwa [← propext same]

open OstreamBuffer (str_insert)

mutual

theorem writes_toStream (isCompact : Bool) : ∀ (pre : List UInt8) (a : Any) (os : OstreamBuffer),
    Writes os.str (toStream isCompact pre a os) (toString isCompact pre a) (Short isCompact pre a)
  | pre, .null, os => (writes_text pre (ascii "null") os).congr (by simp [Short, ascii])
  | pre, .array items, os => by
    unfold toStream toString
    apply Writes.bind (writes_toStreamItems isCompact pre true items _)
    intro os' sent text str all
    have whole := ((((Sent.inserted pre).append (.inserted [91])).append all).append
      (.refl (newline isCompact))).append ((Sent.inserted pre).append (.inserted [93]))
    rw [← append_assoc, ← append_assoc] at whole
    refine .ok ?_ (whole.congr ?_)
    · simp only [str_insert, str_putNewline, str, append_assoc]
    · simp [Short]
      tauto
  | pre, .map entries, os => by
    unfold toStream toString
    apply Writes.bind (writes_toStreamEntries isCompact pre true entries _)
    intro os' sent text str all
    have whole := ((((Sent.inserted pre).append (.inserted [123])).append all).append
      (.refl (newline isCompact))).append ((Sent.inserted pre).append (.inserted [125]))
    rw [← append_assoc, ← append_assoc] at whole
    refine .ok ?_ (whole.congr ?_)
    · simp only [str_insert, str_putNewline, str, append_assoc]
    · simp [Short]
      tauto
  | pre, .string s, os => by
    have whole := (((Sent.inserted pre).append (.inserted [34])).append
      (.inserted (quoteString s))).append (.inserted [34])
    exact .ok (by simp only [str_insert, append_assoc]) (whole.congr (by simp [Short]))
  | pre, .bool b, os =>
    (writes_text pre (toStringBool b) os).congr (by cases b <;> simp [Short, toStringBool, ascii])
  | pre, .integer n, os => writes_text pre (toStringInt n.value) os
  | pre, .number text, os => writes_text pre text os
  | pre, .other typeName, os => .inl ⟨_, rfl, rfl⟩

theorem writes_toStreamItems (isCompact : Bool) (pre : List UInt8) :
    ∀ (first : Bool) (items : List Any) (os : OstreamBuffer),
    Writes os.str (toStreamItems isCompact pre first items os)
      (toStringItems isCompact pre first items) (ShortItems isCompact pre items)
  | first, [], os => .ok (append_nil _).symm (.refl [])
  | first, a :: items, os => by
    unfold toStreamItems toStringItems
    apply Writes.bind (writes_toStream isCompact _ a _)
    intro os' sent text str all
    rw [← bind_pure (toStreamItems isCompact pre false items os')]
    apply Writes.bind (writes_toStreamItems isCompact pre false items os')
    intro os'' sent' text' str' all'
    have whole := ((Sent.refl ((if first then [] else [44]) ++ newline isCompact)).append
      all).append all'
    refine .ok ?_ (whole.congr (by simp [ShortItems]))
    rw [str', str, str_putNewline, str_comma]
    simp only [append_assoc]

theorem writes_toStreamEntries (isCompact : Bool) (pre : List UInt8) :
    ∀ (first : Bool) (entries : List (List UInt8 × Any)) (os : OstreamBuffer),
    Writes os.str (toStreamEntries isCompact pre first entries os)
      (toStringEntries isCompact pre first entries) (ShortEntries isCompact pre entries)
  | first, [], os => .ok (append_nil _).symm (.refl [])
  | first, (key, a) :: entries, os => by
    unfold toStreamEntries toStringEntries
    apply Writes.bind (writes_toStream isCompact _ a _)
    intro os' sent text str all
    rw [← bind_pure (toStreamEntries isCompact pre false entries os')]
    apply Writes.bind (writes_toStreamEntries isCompact pre false entries os')
    intro os'' sent' text' str' all'
    have whole := (((((((Sent.refl ((if first then [] else [44]) ++ newline isCompact)).append
      (.inserted pre)).append (.inserted [34])).append (.inserted (quoteString key))).append
      (.inserted [34, 58])).append (.refl (newline isCompact))).append all).append all'
    refine .ok ?_ (whole.congr (by simp [ShortEntries, and_assoc]))
    rw [str', str]
    simp only [str_putNewline, str_comma, str_insert, append_assoc]

end

end AgentEngine.Json
