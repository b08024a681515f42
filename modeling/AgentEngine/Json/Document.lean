import AgentEngine.Json.StringParser

/-!
What a text says as JSON, with the escapes `\u` that it contains.

The reader `document` takes the four bytes behind `\u` for a number whatever they are, and notes
them. It shares with the parser of strings what is skipped and how numbers are scanned.

* `implements_parseJson`: the parser of strings reads the document if the bytes behind every `\u`
  in it are hexadecimal digits, and throws if they are not or if there is no document.
* `document_finishes`: the reader always comes to an end.
-/

namespace AgentEngine.Json

open Lib List Nat

/-- Four hexadecimal digits follow. -/
def IsHex (quad : List UInt8) : Prop := ∀ b ∈ quad, (hexValue b).isSome

instance (quad : List UInt8) : Decidable (IsHex quad) :=
  inferInstanceAs (Decidable (∀ b ∈ quad, (hexValue b).isSome))

namespace Document

abbrev Read (α : Type) := Noting (List UInt8) (List UInt8) α

/-- The number that digits denote; other bytes do not count. -/
def looseDigits (data : UInt16) : List UInt8 → UInt16
  | [] => data
  | b :: digits =>
      match hexValue b with
      | some value => looseDigits (data <<< 4 ||| value) digits
      | none => looseDigits data digits

def literalFrom : (escaped : Bool) → (str text : List UInt8) →
    Except (Stop Unit) (List UInt8 × List (List UInt8) × List UInt8)
  | escaped, str, [] => if escaped then .error (.thrown ()) else .ok (str, [], [])
  | true, str, byte :: rest =>
      if byte = 117 then
        match rest with
        | a :: b :: c :: d :: rest =>
            Noting.noted [[a, b, c, d]]
              (literalFrom false (str ++ unicodeToUtf8 (looseDigits 0 [a, b, c, d])) rest)
        | _ => .error (.thrown ())
      else
        match unescape byte with
        | some byte => literalFrom false (str ++ [byte]) rest
        | none => .error (.thrown ())
  | false, str, byte :: rest =>
      if byte = 92 then literalFrom true str rest
      else if byte = 34 then .ok (str, [], byte :: rest)
      else literalFrom false (str ++ [byte]) rest

/-- The content of a string. -/
def literal : Read (List UInt8) := literalFrom false []

def peek : Read (Option UInt8) := Noting.ofParser (StringParser.peek : Parser _ JsonError _)

def advance : Read Unit := Noting.ofParser (StringParser.advance : Parser _ JsonError _)

def space : Read Unit := Noting.ofParser StringParser.skipSpace

def exactly (str : List UInt8) : Read Unit := Noting.ofParser (StringParser.skipExact str)

def number : Read Any := Noting.ofParser StringParser.parseJsonNum

def refuse (test : Bool) : Read Unit := if test then Noting.fail else pure ()

def quoted : Read (List UInt8) := do
  exactly [34]
  let str ← literal
  exactly [34]
  pure str

def mapRound (value : Read Any) : JsonMap × Bool → Read (Round (JsonMap × Bool) Any) :=
  fun (map, expectComma) => do
    match ← peek with
    | none => Noting.fail
    | some byte =>
        if byte = 125 then do
          refuse (!expectComma && decide (0 < map.entries.length))
          advance
          pure (.leave (.map map.entries))
        else if byte = 44 then do
          refuse (!expectComma)
          advance
          space
          pure (.again (map, false))
        else do
          refuse expectComma
          let name ← quoted
          space
          exactly [58]
          let value ← value
          refuse (decide ((map.insert name value).entries.length = map.entries.length))
          space
          pure (.again (map.insert name value, true))

def arrayRound (value : Read Any) : List Any × Bool → Read (Round (List Any × Bool) Any) :=
  fun (array, expectComma) => do
    match ← peek with
    | none => Noting.fail
    | some byte =>
        if byte = 44 then do
          refuse (!expectComma)
          advance
          space
          pure (.again (array, false))
        else if byte = 93 then do
          refuse (!expectComma && decide (0 < array.length))
          advance
          pure (.leave (.array array))
        else do
          refuse expectComma
          let item ← value
          space
          pure (.again (array ++ [item], true))

def map (value : Read Any) : Read Any := do
  exactly [123]
  space
  Noting.loop List.length (mapRound value) ({ sorted := JsonMap.sorted_nil }, false)

def array (value : Read Any) : Read Any := do
  exactly [91]
  space
  Noting.loop List.length (arrayRound value) ([], false)

/-- A value that begins with this byte, with `value` for what is inside it. -/
def valueFrom (value : Read Any) (byte : UInt8) : Read Any :=
  if byte = 91 then array value
  else if byte = 123 then map value
  else if byte = 34 then do
    let str ← quoted
    pure (.string str)
  else if byte = 116 then do
    exactly (ascii "true")
    pure (.bool true)
  else if byte = 102 then do
    exactly (ascii "false")
    pure (.bool false)
  else if byte = 110 then do
    exactly (ascii "null")
    pure .null
  else if beginsNumber byte then number
  else Noting.fail

def value : (depth : Nat) → Read Any
  | 0 => Noting.unfinished
  | depth + 1 => do
      space
      match ← peek with
      | none => Noting.fail
      | some byte => valueFrom (value depth) byte

end Document

/-- The document that a text begins with: its value, the bytes behind each `\u` in it, and the
rest of the text. -/
def document (text : List UInt8) : Except (Stop Unit) (Any × List (List UInt8) × List UInt8) :=
  Document.value (text.length + 1) text

/-! ### The parser of strings -/

section StringParser

/-- Of the same text. -/
abbrev Strictly {ε α : Type} (x : Document.Read α) (y : Parser (List UInt8) ε α) : Prop :=
  Implements IsHex (· = ·) x y

theorem implements_trueThenThrow {τ : Type} {sound : List UInt8 → Prop}
    {held : τ → List UInt8 → Prop} (test : Bool) (s : List UInt8) :
    Implements sound held (Document.refuse test) (trueThenThrow test s) := by
  unfold Document.refuse trueThenThrow
  cases test with
  | true => exact Implements.fail _
  | false => exact Implements.pure ()

theorem trueThenThrow_false {σ : Type} (s : List UInt8) :
    (trueThenThrow false s : Parser σ JsonError Unit) = pure () := rfl

theorem unicodeDigits_of_isHex {quad : List UInt8} (hex : IsHex quad) (data : UInt16) :
    unicodeDigits data quad = .ok (Document.looseDigits data quad) := by
  induction quad generalizing data with
  | nil => rfl
  | cons b quad ih =>
    obtain ⟨value, found⟩ := Option.isSome_iff_exists.mp (hex b mem_cons_self)
    rw [unicodeDigits, Document.looseDigits, found]
    exact ih (fun c mem => hex c (mem_cons_of_mem b mem)) _

theorem unicodeDigits_of_not_isHex {quad : List UInt8} (other : ¬IsHex quad) (data : UInt16) :
    ∃ e, unicodeDigits data quad = .error e := by
  induction quad generalizing data with
  | nil => exact absurd (fun b mem => absurd mem not_mem_nil) other
  | cons b quad ih =>
    rw [unicodeDigits]
    cases found : hexValue b with
    | none => exact ⟨_, rfl⟩
    | some value =>
      apply ih
      intro hex
      apply other
      intro c mem
      rcases mem_cons.mp mem with rfl | mem
      · rw [found]
        rfl
      · exact hex c mem

theorem agrees_literalFrom (escaped : Bool) (str text : List UInt8) :
    Agrees IsHex (· = ·) (Document.literalFrom escaped str text)
      ((unquoteFrom escaped str text).mapError Stop.thrown) := by
  fun_induction Document.literalFrom escaped str text with
  | case1 str => exact .thrown _
  | case2 escaped str no =>
    rw [Bool.not_eq_true] at no
    subst no
    exact .read (fun _ none => absurd none not_mem_nil) rfl
  | case3 str a b c d rest ih =>
    rw [unquoteFrom_unicode]
    by_cases hex : IsHex [a, b, c, d]
    · rw [unicodeDigits_of_isHex hex]
      exact ih.noted (forall_mem_singleton.mpr hex)
    · obtain ⟨e, error⟩ := unicodeDigits_of_not_isHex hex 0
      rw [error]
      exact Agrees.noted_unsound (fun all => hex (forall_mem_singleton.mp all)) e
  | case4 str rest few =>
    rw [unquoteFrom.eq_def]
    simp only [if_true]
    exact .thrown _
  | case5 str byte rest other byte' known ih =>
    rw [unquoteFrom_escaped other, known]
    exact ih
  | case6 str byte rest other unknown =>
    rw [unquoteFrom_escaped other, unknown]
    exact .thrown _
  | case7 str rest ih => exact ih
  | case8 str rest other => exact .read (fun _ none => absurd none not_mem_nil) rfl
  | case9 str byte rest other other' ih =>
    rw [unquoteFrom, if_neg other, if_neg other']
    exact ih

theorem strictly_unquoteString :
    Strictly Document.literal (unquoteString.rethrow JsonError.badQuoteString) := by
  apply Implements.rethrow
  rintro _ text rfl
  exact agrees_literalFrom false [] text

theorem strictly_parseJsonString : Strictly Document.quoted StringParser.parseJsonString :=
  (Implements.ofParser _).bind fun _ => strictly_unquoteString.bind fun str =>
    (Implements.ofParser _).bind fun _ => Implements.pure str

open Implements

variable {value : Document.Read Any} {parse : StringParser.Parse Any}

theorem strictly_arrayRound (h : Strictly value parse) (state : List Any × Bool) :
    Strictly (Document.arrayRound value state) (StringParser.arrayRound parse state) := by
  obtain ⟨array, expectComma⟩ := state
  apply bind (ofParser _)
  rintro (_ | byte)
  · exact fail _
  · simp only
    split_ifs
    · exact (implements_trueThenThrow _ _).bind fun _ => (ofParser _).bind fun _ =>
        (ofParser _).bind fun _ => pure _
    · exact (implements_trueThenThrow _ _).bind fun _ => (ofParser _).bind fun _ =>
        pure _
    · exact (implements_trueThenThrow _ _).bind fun _ => h.bind fun item =>
        (ofParser _).bind fun _ => pure _

theorem length_insert_value (map : JsonMap) (name : List UInt8) (a b : Any) :
    (map.insert name a).entries.length = (map.insert name b).entries.length := by
  change (SortedMap.insertInto name a _ map.entries).length =
    (SortedMap.insertInto name b _ map.entries).length
  induction map.entries with
  | nil => rfl
  | cons e es ih =>
    unfold SortedMap.insertInto
    split_ifs
    · rfl
    · exact congrArg succ ih
    · rfl

/-- The parser finds out before it reads the value that a name is there already. -/
theorem strictly_entry (h : Strictly value parse) (map : JsonMap) (name : List UInt8) : Strictly (do
        Document.space
        Document.exactly [58]
        let value ← value
        Document.refuse (decide ((map.insert name value).entries.length = map.entries.length))
        Document.space
        pure (.again (map.insert name value, true) : Round (JsonMap × Bool) Any))
      (do
        trueThenThrow (decide ((map.insert name .null).entries.length = map.entries.length))
          (cstr (ascii "name not unique:" ++ name))
        StringParser.skipSpace
        StringParser.skipExact [58]
        let value ← parse.rethrow fun e =>
          match e with
          | .nothing => .parser (cstr (ascii "Expect value in map for key " ++ name))
          | e => e
        StringParser.skipSpace
        pure (.again (map.insert name value, true) : Round (JsonMap × Bool) Any)) := by
  by_cases dup : (map.insert name .null).entries.length = map.entries.length
  · simp only [decide_eq_true dup]
    apply of_barren
    apply Noting.barren_bind
    intro _
    apply Noting.barren_bind
    intro _
    apply Noting.barren_bind
    intro value
    rw [length_insert_value map name value .null, decide_eq_true dup]
    exact Noting.barren_bind_left Noting.barren_fail _
  · simp only [decide_eq_false dup]
    rw [trueThenThrow_false, LawfulMonad.pure_bind]
    refine bind (ofParser _) fun _ =>
      (ofParser _).bind fun _ => (h.rethrow _).bind fun value => ?_
    rw [length_insert_value map name value .null, decide_eq_false dup]
    exact pure_bind () ((ofParser _).bind fun _ => pure _)

theorem strictly_mapRound (h : Strictly value parse) (state : JsonMap × Bool) :
    Strictly (Document.mapRound value state) (StringParser.mapRound parse state) := by
  obtain ⟨map, expectComma⟩ := state
  apply bind (ofParser _)
  rintro (_ | byte)
  · exact fail _
  · simp only
    split_ifs
    · exact (implements_trueThenThrow _ _).bind fun _ => (ofParser _).bind fun _ =>
        pure _
    · exact (implements_trueThenThrow _ _).bind fun _ => (ofParser _).bind fun _ =>
        (ofParser _).bind fun _ => pure _
    · exact (implements_trueThenThrow _ _).bind fun _ => strictly_parseJsonString.bind fun name =>
        strictly_entry h map name

theorem strictly_parseValue (h : Strictly value parse) (byte : UInt8) :
    Strictly (Document.valueFrom value byte) (StringParser.parseValue parse byte) := by
  have same : ∀ s t : List UInt8, t = s → t.length = s.length := fun _ _ => congrArg length
  unfold Document.valueFrom StringParser.parseValue
  split_ifs
  · exact (ofParser _).bind fun _ => (ofParser _).bind fun _ =>
      loop same (strictly_arrayRound h) _
  · exact (ofParser _).bind fun _ => (ofParser _).bind fun _ =>
      loop same (strictly_mapRound h) _
  · exact strictly_parseJsonString.bind fun str => pure _
  · exact (ofParser _).bind fun _ => pure _
  · exact (ofParser _).bind fun _ => pure _
  · exact (ofParser _).bind fun _ => pure _
  · exact ofParser _
  · exact fail _

/-- The parser of strings reads the document unless some `\u` in it has other bytes behind it than
hexadecimal digits. -/
theorem strictly_parseJson (calls : Nat) :
    Strictly (Document.value calls) (StringParser.parseJson calls) := by
  induction calls with
  | zero => exact unfinished
  | succ calls ih =>
    apply bind (ofParser _)
    intro _
    apply bind (ofParser _)
    rintro (_ | byte)
    · exact fail _
    · exact strictly_parseValue ih byte

end StringParser

/-! ### The reader comes to an end -/

section Finishes

open Noting StringParser

/-- No more than `n` bytes are left then. -/
abbrev Leaves {α : Type} (n : Nat) (r : Except (Stop Unit) (α × List (List UInt8) × List UInt8)) :
    Prop :=
  Within List.length n r

/-- A round that leaves a byte fewer than there were, or ends the loop. -/
abbrev Spends {α β : Type} (n : Nat)
    (r : Except (Stop Unit) (Round β α × List (List UInt8) × List UInt8)) : Prop :=
  Uses List.length n r

variable (s : List UInt8)

theorem leaves_skipMultiLineComment : Leaves s.length (ofParser skipMultiLineComment s) := by
  rw [skipMultiLineComment, ofParser_loop]
  refine within_loop ?_ _ le_rfl
  intro previsstar s _
  cases s with
  | nil => trivial
  | cons b s =>
    change Spends (s.length + 1) (ofParser (if b = 42 then _ else _) (b :: s))
    split_ifs
    · exact lt_succ_self _
    · exact le_succ _
    · exact lt_succ_self _

theorem leaves_skipSingleLineComment : Leaves s.length (ofParser skipSingleLineComment s) := by
  rw [skipSingleLineComment, ofParser_loop]
  refine within_loop ?_ _ le_rfl
  intro _ s _
  cases s with
  | nil => exact le_rfl
  | cons b s =>
    change Spends (s.length + 1) (ofParser (if b = 13 ∨ b = 10 then _ else _) (b :: s))
    split_ifs
    · exact le_succ _
    · exact lt_succ_self _

theorem leaves_skipComment : Leaves s.length (ofParser skipComment s) := by
  cases s with
  | nil => trivial
  | cons b s =>
    change Leaves (s.length + 1) (ofParser (if b = 42 then _ else _) (b :: s))
    split_ifs
    · exact (leaves_skipMultiLineComment s).mono (le_succ _)
    · exact (leaves_skipSingleLineComment s).mono (le_succ _)
    · trivial

theorem leaves_space : Leaves s.length (Document.space s) := by
  rw [Document.space, skipSpace, ofParser_loop]
  refine within_loop ?_ _ le_rfl
  intro _ s _
  cases s with
  | nil => exact le_rfl
  | cons b s =>
    change Spends (s.length + 1)
      (ofParser (if b = 32 ∨ b = 9 ∨ b = 13 ∨ b = 10 then _ else _) (b :: s))
    split_ifs
    · exact lt_succ_self _
    · change Spends (s.length + 1) (ofParser (skipComment >>= fun _ => pure (.again ())) s)
      rw [ofParser_bind]
      exact uses_bind (leaves_skipComment s) fun _ _ le => uses_again (lt_succ_of_le le)
    · exact le_rfl

theorem leaves_advance : Leaves (s.length - 1) (Document.advance s) :=
  le_of_eq length_tail

theorem leaves_refuse (test : Bool) (s : List UInt8) :
    Leaves s.length (Document.refuse test s) := by
  cases test with
  | true => trivial
  | false => exact le_rfl

theorem leaves_exactly (str s : List UInt8) :
    Leaves (s.length - str.length) (Document.exactly str s) := by
  unfold Document.exactly ofParser skipExact
  by_cases h : s.take str.length = str
  · simp only [if_pos h]
    exact le_of_eq length_drop
  · simp only [if_neg h]
    trivial

theorem leaves_literal : Leaves s.length (Document.literal s) := by
  suffices key : ∀ escaped str, Leaves s.length (Document.literalFrom escaped str s) from
    key false []
  intro escaped str
  fun_induction Document.literalFrom escaped str s with
  | case1 | case4 | case6 => trivial
  | case2 | case8 => exact le_rfl
  | case3 str a b c d rest ih =>
    refine within_noted _ (ih.mono ?_)
    simp only [length_cons]
    omega
  | case5 str byte rest other byte' known ih | case7 str rest ih
  | case9 str byte rest other other' ih => exact ih.mono (le_succ _)

theorem leaves_quoted : Leaves (s.length - 1) (Document.quoted s) := by
  apply within_bind (leaves_exactly [34] s)
  intro _ s le
  apply within_bind ((leaves_literal s).mono le)
  intro str s le
  apply within_bind ((leaves_exactly [34] s).mono (sub_le_of_le_add (le_add_right_of_le le)))
  exact fun _ s le => le

theorem length_scanNum {state : NumState} {text is text' rest : List UInt8}
    (h : scanNum state text is = .ok (text', rest)) : rest.length ≤ is.length := by
  induction is generalizing state text with
  | nil =>
    cases h
    exact le_rfl
  | cons byte is ih =>
    unfold scanNum at h
    split at h
    · cases h
    · cases h
      exact le_rfl
    · exact le_succ_of_le (ih h)

theorem scanNum_finishes (state : NumState) (text is : List UInt8) :
    scanNum state text is ≠ .error .unfinished := by
  induction is generalizing state text with
  | nil => exact nofun
  | cons byte is ih =>
    unfold scanNum
    split
    · exact nofun
    · exact nofun
    · exact ih _ _

/-- What begins a number is a part of it. -/
theorem step_of_beginsNumber {byte : UInt8} (begins : beginsNumber byte) :
    ∃ state, NumState.step {} byte = .ok (some state) := by
  unfold beginsNumber at begins
  simp only [Bool.or_eq_true, decide_eq_true_eq] at begins
  rcases begins with ((rfl | rfl) | rfl) | digit
  · exact ⟨_, NumState.step_sign {} (.inl rfl) rfl⟩
  · exact ⟨_, NumState.step_sign {} (.inr rfl) rfl⟩
  · exact ⟨_, NumState.step_point {} rfl⟩
  · exact ⟨_, NumState.step_digit {} digit⟩

theorem leaves_number {byte : UInt8} (begins : beginsNumber byte) (s : List UInt8) :
    Leaves s.length (Document.number (byte :: s)) := by
  obtain ⟨state, step⟩ := step_of_beginsNumber begins
  have scan : scanNum {} [] (byte :: s) = scanNum state [byte] s := by
    rw [scanNum, step]
    rfl
  rw [Document.number, parseJsonNum, ofParser_bind]
  refine within_bind (m := s.length) ?_ ?_
  · unfold ofParser
    rw [scan]
    have finishes := scanNum_finishes state [byte] s
    cases h : scanNum state [byte] s with
    | error stop =>
      cases stop with
      | thrown e => trivial
      | unfinished => exact absurd h finishes
    | ok r => exact length_scanNum h
  · intro text s' le
    rw [ofParser_bind]
    refine within_bind (m := s.length) ?_ fun _ _ le => le
    unfold trueThenThrow
    split_ifs
    · trivial
    · exact le

section

variable {value : Document.Read Any} {depth : Nat}
  (h : ∀ s : List UInt8, s.length < depth → Leaves (s.length - 1) (value s))

include h

theorem spends_arrayRound (state : List Any × Bool) {s : List UInt8} (le : s.length < depth) :
    Spends s.length (Document.arrayRound value state s) := by
  obtain ⟨array, expectComma⟩ := state
  cases s with
  | nil => trivial
  | cons byte s =>
    rw [Document.arrayRound, Noting.bind_silent (a := some byte) _ rfl]
    simp only
    rw [length_cons] at le ⊢
    split_ifs
    · refine uses_bind (leaves_refuse _ _) fun _ s₁ le₁ => ?_
      refine uses_bind (leaves_advance s₁) fun _ s₂ le₂ => ?_
      refine uses_bind (leaves_space s₂) fun _ s₃ le₃ => uses_again ?_
      rw [length_cons] at le₁
      omega
    · refine uses_bind (leaves_refuse _ _) fun _ s₁ le₁ => ?_
      refine uses_bind (leaves_advance s₁) fun _ s₂ le₂ => uses_leave ?_
      rw [length_cons] at le₁
      omega
    · refine uses_bind (leaves_refuse _ _) fun _ s₁ le₁ => ?_
      rw [length_cons] at le₁
      refine uses_bind (h s₁ (by omega)) fun item s₂ le₂ => ?_
      refine uses_bind (leaves_space s₂) fun _ s₃ le₃ => uses_again ?_
      omega

theorem spends_mapRound (state : JsonMap × Bool) {s : List UInt8} (le : s.length < depth) :
    Spends s.length (Document.mapRound value state s) := by
  obtain ⟨map, expectComma⟩ := state
  cases s with
  | nil => trivial
  | cons byte s =>
    rw [Document.mapRound, Noting.bind_silent (a := some byte) _ rfl]
    simp only
    rw [length_cons] at le ⊢
    split_ifs
    · refine uses_bind (leaves_refuse _ _) fun _ s₁ le₁ => ?_
      refine uses_bind (leaves_advance s₁) fun _ s₂ le₂ => uses_leave ?_
      rw [length_cons] at le₁
      omega
    · refine uses_bind (leaves_refuse _ _) fun _ s₁ le₁ => ?_
      refine uses_bind (leaves_advance s₁) fun _ s₂ le₂ => ?_
      refine uses_bind (leaves_space s₂) fun _ s₃ le₃ => uses_again ?_
      rw [length_cons] at le₁
      omega
    · refine uses_bind (leaves_refuse _ _) fun _ s₁ le₁ => ?_
      refine uses_bind (leaves_quoted s₁) fun name s₂ le₂ => ?_
      refine uses_bind (leaves_space s₂) fun _ s₃ le₃ => ?_
      refine uses_bind (leaves_exactly [58] s₃) fun _ s₄ le₄ => ?_
      rw [length_cons] at le₁
      rw [length_singleton] at le₄
      refine uses_bind (h s₄ (by omega)) fun item s₅ le₅ => ?_
      refine uses_bind (leaves_refuse _ _) fun _ s₆ le₆ => ?_
      refine uses_bind (leaves_space s₆) fun _ s₇ le₇ => uses_again ?_
      omega

theorem leaves_valueFrom (byte : UInt8) {s : List UInt8} (le : s.length < depth) :
    Leaves s.length (Document.valueFrom value byte (byte :: s)) := by
  have opening (str : List UInt8) (one : str.length = 1) :
      Leaves s.length (Document.exactly str (byte :: s)) := by
    refine (leaves_exactly str (byte :: s)).mono ?_
    rw [length_cons, one]
    exact le_rfl
  have word (str : List UInt8) (ne : 1 ≤ str.length) (a : Any) :
      Leaves s.length ((Document.exactly str >>= fun _ => pure a) (byte :: s)) := by
    refine within_bind ((leaves_exactly str (byte :: s)).mono ?_) fun _ _ le => le
    rw [length_cons]
    omega
  unfold Document.valueFrom
  split_ifs
  · refine within_bind (opening [91] rfl) fun _ s₁ le₁ => ?_
    refine within_bind (leaves_space s₁) fun _ s₂ le₂ => ?_
    have rounds : ∀ state (s' : List UInt8), s'.length ≤ s.length →
        Spends s'.length (Document.arrayRound value state s') :=
      fun state s' le' => spends_arrayRound h state (lt_of_le_of_lt le' le)
    exact (within_loop rounds _ (by omega)).mono (by omega)
  · refine within_bind (opening [123] rfl) fun _ s₁ le₁ => ?_
    refine within_bind (leaves_space s₁) fun _ s₂ le₂ => ?_
    have rounds : ∀ state (s' : List UInt8), s'.length ≤ s.length →
        Spends s'.length (Document.mapRound value state s') :=
      fun state s' le' => spends_mapRound h state (lt_of_le_of_lt le' le)
    exact (within_loop rounds _ (by omega)).mono (by omega)
  · exact within_bind (leaves_quoted (byte :: s)) fun _ _ le => le
  · exact word _ (by decide) _
  · exact word _ (by decide) _
  · exact word _ (by decide) _
  · exact leaves_number (by assumption) s
  · trivial

end

theorem leaves_value (depth : Nat) {s : List UInt8} (le : s.length < depth) :
    Leaves (s.length - 1) (Document.value depth s) := by
  induction depth generalizing s with
  | zero => exact absurd le (not_lt_zero _)
  | succ depth ih =>
    refine within_bind (leaves_space s) fun _ s' le' => ?_
    cases s' with
    | nil => trivial
    | cons byte s' =>
      rw [length_cons] at le'
      have inner : Leaves s'.length (Document.valueFrom (Document.value depth) byte (byte :: s')) :=
        leaves_valueFrom (fun t lt => ih lt) byte (by omega)
      exact within_noted [] (inner.mono (by omega))

theorem document_finishes (text : List UInt8) : document text ≠ .error .unfinished := by
  intro unfinished
  have finished := leaves_value (text.length + 1) (lt_succ_self text.length)
  rw [show Document.value (text.length + 1) text = document text from rfl, unfinished] at finished
  exact finished

end Finishes

end AgentEngine.Json
