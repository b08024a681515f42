import AgentEngine.Json.Any

/-!
The parser of JSON in strings (`json_string_enhanced.cpp`).

The parser goes through the text from a position on. Its calls of itself are counted down from a
number that is larger than the bytes at hand, so that they are never used up.
-/

namespace AgentEngine.Json

open Lib

/-- What the parsers throw. -/
inductive JsonError where
  /-- `JsonParserError` -/
  | parser (message : List UInt8)
  /-- `JsonParserError` in the place of a `BadQuoteString`. -/
  | badQuoteString (e : BadQuoteString)
  /-- `JsonNothingError` -/
  | nothing
deriving DecidableEq

def trueThenThrow {σ : Type} (test : Bool) (s : List UInt8) : Parser σ JsonError Unit :=
  if test then Parser.fail (.parser s) else pure ()

/-! ### Numbers -/

/-- What the scanner of numbers accepts next. -/
structure NumState where
  signOk : Bool := true
  dotOk : Bool := true
  eOk : Bool := false
  ed : Bool := false
deriving DecidableEq

/-- One byte of a number, or nothing if the number ends before it. The two parsers have the same
`switch`. -/
def NumState.step (state : NumState) (byte : UInt8) : Except JsonError (Option NumState) :=
  if byte = 43 ∨ byte = 45 then
    if !state.signOk then .error (.parser (ascii "unexpected sign +/-"))
    else .ok (some { state with signOk := false, eOk := false, dotOk := !state.ed })
  else if byte = 46 then
    if !state.dotOk then .error (.parser (ascii "unexpected ."))
    else .ok (some { state with signOk := false, dotOk := false })
  else if byte = 101 ∨ byte = 69 then
    if !state.eOk then .error (.parser (ascii "unexpected e/E"))
    else .ok (some ⟨true, false, false, true⟩)
  else if isdigit byte then .ok (some { state with signOk := false, eOk := !state.ed })
  else .ok none

section

variable {byte : UInt8} (state : NumState)

theorem NumState.step_sign (sign : byte = 43 ∨ byte = 45) (ok : state.signOk) :
    state.step byte =
      .ok (some { state with signOk := false, eOk := false, dotOk := !state.ed }) := by
  rw [step, if_pos sign, ok]
  rfl

theorem NumState.step_point (ok : state.dotOk) :
    state.step 46 = .ok (some { state with signOk := false, dotOk := false }) := by
  rw [step, if_neg (by decide), if_pos rfl, ok]
  rfl

theorem NumState.step_exponent (letter : byte = 101 ∨ byte = 69) (ok : state.eOk) :
    state.step byte = .ok (some ⟨true, false, false, true⟩) := by
  have other : ¬(byte = 43 ∨ byte = 45) ∧ byte ≠ 46 := by
    rcases letter with rfl | rfl <;> decide
  rw [step, if_neg other.1, if_neg other.2, if_pos letter, ok]
  rfl

theorem not_mark_of_isdigit (byte : UInt8) : isdigit byte →
    ¬(byte = 43 ∨ byte = 45) ∧ byte ≠ 46 ∧ ¬(byte = 101 ∨ byte = 69) := by
  revert byte
  apply forall_byte
  decide +kernel

theorem NumState.step_digit (digit : isdigit byte) :
    state.step byte = .ok (some { state with signOk := false, eOk := !state.ed }) := by
  obtain ⟨sign, point, letter⟩ := not_mark_of_isdigit byte digit
  rw [step, if_neg sign, if_neg point, if_neg letter, if_pos digit]

end

/-- A number does not end like this. -/
def openEnd (text : List UInt8) : Bool :=
  text.getLast? = some 101 || text.getLast? = some 69 || text.getLast? = some 43 ||
    text.getLast? = some 45

/-- The byte begins a number. -/
def beginsNumber (byte : UInt8) : Bool := byte = 43 || byte = 45 || byte = 46 || isdigit byte

/-! ### The parser -/

namespace StringParser

abbrev Parse (α : Type) := Parser (List UInt8) JsonError α

/-- The byte at the position, unless this is the end. -/
def peek {ε : Type} : Parser (List UInt8) ε (Option UInt8) := fun is => .ok (is.head?, is)

/-- `++pos` -/
def advance {ε : Type} : Parser (List UInt8) ε Unit := fun is => .ok ((), is.tail)

/-- A round of the loop of `SkipMultiLineComment`. -/
def multiLineRound (previsstar : Bool) : Parse (Round Bool Unit) := do
  match ← peek with
  | none => Parser.fail (.parser (ascii "expect end of comment"))
  | some b =>
      if b = 42 then do
        advance
        pure (.again true)
      else if previsstar && b = 47 then do
        advance
        pure (.leave ())
      else do
        advance
        pure (.again false)

def skipMultiLineComment : Parse Unit := Parser.loop List.length multiLineRound false

/-- A round of the loop of `SkipSingleLineComment`. -/
def singleLineRound (_ : Unit) : Parse (Round Unit Unit) := do
  match ← peek with
  | none => pure (.leave ())
  | some b =>
      if b = 13 ∨ b = 10 then do
        advance
        pure (.leave ())
      else do
        advance
        pure (.again ())

def skipSingleLineComment : Parse Unit := Parser.loop List.length singleLineRound ()

def skipComment : Parse Unit := do
  match ← peek with
  | none => Parser.fail (.parser (ascii "expect / or * to begin a comment block after /"))
  | some b =>
      if b = 42 then do
        advance
        skipMultiLineComment
      else if b = 47 then do
        advance
        skipSingleLineComment
      else Parser.fail (.parser (ascii "expect / or * to begin a comment block after /"))

/-- A round of the loop of `SkipSpace`. -/
def spaceRound (_ : Unit) : Parse (Round Unit Unit) := do
  match ← peek with
  | none => pure (.leave ())
  | some b =>
      if b = 32 ∨ b = 9 ∨ b = 13 ∨ b = 10 then do
        advance
        pure (.again ())
      else if b = 47 then do
        advance
        skipComment
        pure (.again ())
      else pure (.leave ())

def skipSpace : Parse Unit := Parser.loop List.length spaceRound ()

def skipExact (str : List UInt8) : Parse Unit := fun is =>
  if is.take str.length = str then .ok ((), is.drop str.length)
  else .error (.thrown (.parser (cstr (ascii "expected " ++ str))))

def parseJsonString : Parse (List UInt8) := do
  skipExact [34]
  let ret ← unquoteString.rethrow .badQuoteString
  skipExact [34]
  pure ret

/-- The loop of `ParseJsonNum`; the text begins at the position where the number began. -/
def scanNum (state : NumState) (text : List UInt8) :
    List UInt8 → Except (Stop JsonError) (List UInt8 × List UInt8)
  | [] => .ok (text, [])
  | byte :: is =>
      match state.step byte with
      | .error e => .error (.thrown e)
      | .ok none => .ok (text, byte :: is)
      | .ok (some state) => scanNum state (text ++ [byte]) is

def parseJsonNum : Parse Any := do
  let text ← (scanNum {} [] : Parse (List UInt8))
  trueThenThrow
    (openEnd text || (text.length = 2 && text.getLast? = some 46 &&
      (text.head? = some 43 || text.head? = some 45)))
    (ascii "unexpected end")
  pure (.number text)

/-- A round of the loop of `ParseJsonMap`, with `parseJson` for the values. The entry that is made
for a name before its value is read gets the value in the end. -/
def mapRound (parseJson : Parse Any) :
    JsonMap × Bool → Parse (Round (JsonMap × Bool) Any) := fun (ret, expectComma) => do
  match ← peek with
  | none => Parser.fail (.parser (125 :: ascii " expected"))
  | some byte =>
      if byte = 125 then do
        trueThenThrow (!expectComma && decide (0 < ret.entries.length))
          (ascii "element required after ,")
        advance
        pure (.leave (.map ret.entries))
      else if byte = 44 then do
        trueThenThrow (!expectComma) (ascii ", not expected")
        advance
        skipSpace
        pure (.again (ret, false))
      else do
        trueThenThrow expectComma (ascii ", expected")
        let name ← parseJsonString
        trueThenThrow (decide ((ret.insert name .null).entries.length = ret.entries.length))
          (cstr (ascii "name not unique:" ++ name))
        skipSpace
        skipExact [58]
        let value ← parseJson.rethrow fun e =>
          match e with
          | .nothing => .parser (cstr (ascii "Expect value in map for key " ++ name))
          | e => e
        skipSpace
        pure (.again (ret.insert name value, true))

def parseJsonMap (parseJson : Parse Any) : Parse Any := do
  skipExact [123]
  skipSpace
  Parser.loop List.length (mapRound parseJson) ({}, false)

/-- A round of the loop of `ParseJsonArray`, with `parseJson` for the items. -/
def arrayRound (parseJson : Parse Any) :
    List Any × Bool → Parse (Round (List Any × Bool) Any) := fun (ret, expectComma) => do
  match ← peek with
  | none => Parser.fail (.parser (ascii "] expected for an array"))
  | some byte =>
      if byte = 44 then do
        trueThenThrow (!expectComma) (ascii ", unexpected")
        advance
        skipSpace
        pure (.again (ret, false))
      else if byte = 93 then do
        trueThenThrow (!expectComma && decide (0 < ret.length))
          (ascii "item missing between , and ]")
        advance
        pure (.leave (.array ret))
      else do
        trueThenThrow expectComma (ascii ", or ] expected")
        let item ← parseJson
        skipSpace
        pure (.again (ret ++ [item], true))

def parseJsonArray (parseJson : Parse Any) : Parse Any := do
  skipExact [91]
  skipSpace
  Parser.loop List.length (arrayRound parseJson) ([], false)

/-- The `switch` of `ParseJson`, with `parseJson` for what is inside a value. -/
def parseValue (parseJson : Parse Any) (byte : UInt8) : Parse Any :=
  if byte = 91 then parseJsonArray parseJson
  else if byte = 123 then parseJsonMap parseJson
  else if byte = 34 then do
    let ret ← parseJsonString
    pure (.string ret)
  else if byte = 116 then do
    skipExact (ascii "true")
    pure (.bool true)
  else if byte = 102 then do
    skipExact (ascii "false")
    pure (.bool false)
  else if byte = 110 then do
    skipExact (ascii "null")
    pure .null
  else if beginsNumber byte then parseJsonNum
  else Parser.fail (.parser (cstr (ascii "unknown char " ++ [byte])))

def parseJson : (calls : Nat) → Parse Any
  | 0 => Parser.unfinished
  | calls + 1 => do
      skipSpace
      match ← peek with
      | none => Parser.fail .nothing
      | some byte => parseValue (parseJson calls) byte

end StringParser

/-- `ParseJson(is, pos, ret)`: the value and where the position is then. -/
def parseJsonAt (is : List UInt8) (pos : Nat) : Except (Stop JsonError) (Any × Nat) := do
  let (ret, rest) ← StringParser.parseJson (is.length - pos + 1) (is.drop pos)
  .ok (ret, is.length - rest.length)

/-- `ParseJson(is, ret)` -/
def parseJson (is : List UInt8) : Except (Stop JsonError) Any := do
  let (ret, pos) ← parseJsonAt is 0
  let (_, rest) ← StringParser.skipSpace (is.drop pos)
  if rest ≠ [] then .error (.thrown (.parser (ascii "Expect EOF but see more chars")))
  else .ok ret

end AgentEngine.Json
