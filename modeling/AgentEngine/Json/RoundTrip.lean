import AgentEngine.Json.Document
import AgentEngine.Json.StreamParser

/-!
What is printed for a JSON value is parsed to a value that is equal to it.

The text that is printed is taken apart along the value. `Reads` says what the reader of documents
makes of the text of a value wherever it stands; a number must not be followed by what could
belong to it.

* `printed_of_isJson`: a value is printed as a text that is read as an equal value.
* `json_round_trip`: the parser of strings makes of that text an equal value.
-/

namespace AgentEngine.Json

open Lib List Document Noting UInt8

/-! ### Blanks -/

def IsBlank (c : UInt8) : Prop := c = 32 ∨ c = 9 ∨ c = 10

/-- Nothing that is skipped stands here. -/
def Solid (s : List UInt8) : Prop :=
  ∀ c ∈ s.head?, ¬(c = 32 ∨ c = 9 ∨ c = 13 ∨ c = 10) ∧ c ≠ 47

theorem isBlank_deeper {isCompact : Bool} {pre : List UInt8} (blank : ∀ c ∈ pre, IsBlank c) :
    ∀ c ∈ deeper isCompact pre, IsBlank c := by
  intro c mem
  rcases mem_append.mp mem with mem | mem
  · exact blank c mem
  · cases isCompact with
    | true => cases mem
    | false =>
      rcases mem_pair.mp mem with rfl | rfl
      · exact .inl rfl
      · exact .inl rfl

theorem isBlank_newline (isCompact : Bool) : ∀ c ∈ newline isCompact, IsBlank c := by
  intro c mem
  cases isCompact with
  | true => cases mem
  | false =>
    cases mem_singleton.mp mem
    exact .inr (.inr rfl)

theorem rounds_space {pre s : List UInt8} (blank : ∀ c ∈ pre, IsBlank c) (solid : Solid s) :
    ∃ n, rounds Noting.unfinished (fun b => (Noting.ofParser (StringParser.spaceRound b) :
      Document.Read _)) n () (pre ++ s) = .ok ((), [], s) := by
  induction pre with
  | nil =>
    refine ⟨1, rounds_leave ?_⟩
    cases s with
    | nil => rfl
    | cons b s =>
      obtain ⟨other, other'⟩ := solid b rfl
      change ofParser (if b = 32 ∨ b = 9 ∨ b = 13 ∨ b = 10 then _ else _) (b :: s) = _
      rw [if_neg other, if_neg other']
      rfl
  | cons c pre ih =>
    obtain ⟨n, rest⟩ := ih fun c mem => blank c (mem_cons_of_mem _ mem)
    refine ⟨n + 1, (rounds_again ?_).trans rest⟩
    have skipped : c = 32 ∨ c = 9 ∨ c = 13 ∨ c = 10 := by
      rcases blank c mem_cons_self with space | tab | line
      · exact .inl space
      · exact .inr (.inl tab)
      · exact .inr (.inr (.inr line))
    change ofParser (if c = 32 ∨ c = 9 ∨ c = 13 ∨ c = 10 then _ else _) (c :: (pre ++ s)) = _
    rw [if_pos skipped]
    rfl

theorem space_blank {pre s : List UInt8} (blank : ∀ c ∈ pre, IsBlank c) (solid : Solid s) :
    Document.space (pre ++ s) = .ok ((), [], s) := by
  obtain ⟨n, read⟩ := rounds_space blank solid
  have finished : space (pre ++ s) ≠ .error .unfinished := by
    intro stuck
    have leaves := leaves_space (pre ++ s)
    rw [stuck] at leaves
    exact leaves
  rw [space, StringParser.skipSpace, ofParser_loop] at finished ⊢
  exact loop_eq read finished

theorem space_solid {s : List UInt8} (solid : Solid s) : Document.space s = .ok ((), [], s) :=
  space_blank (forall_mem_nil _) solid

theorem exactly_append (str s : List UInt8) :
    Document.exactly str (str ++ s) = .ok ((), [], s) := by
  apply ofParser_ok
  rw [StringParser.skipExact, take_left, if_pos rfl, drop_left]

/-! ### Strings -/

variable {byte : UInt8}

theorem literalFrom_escaped (ne : byte ≠ 117) (str rest : List UInt8) :
    Document.literalFrom true str (byte :: rest) =
      match unescape byte with
      | some byte => Document.literalFrom false (str ++ [byte]) rest
      | none => .error (.thrown ()) := by
  rw [literalFrom.eq_def]
  exact if_neg ne

theorem literalFrom_quoteString (str s rest : List UInt8) :
    Document.literalFrom false str (quoteString s ++ 34 :: rest) = .ok (str ++ s, [], 34 :: rest) := by
  induction s generalizing str with
  | nil =>
    rw [append_nil]
    rfl
  | cons byte s ih =>
    rw [quoteString, flatMap_cons, append_assoc]
    change literalFrom false str (_ ++ (quoteString s ++ 34 :: rest)) = _
    cases h : escapeOf byte with
    | some escape =>
      obtain ⟨ne, back⟩ := unescape_escapeOf h
      change literalFrom true str (escape :: (quoteString s ++ 34 :: rest)) = _
      rw [literalFrom_escaped ne, back]
      simp only
      rw [ih, append_assoc]
      rfl
    | none =>
      obtain ⟨ne, ne'⟩ := ne_of_escapeOf_eq_none h
      change literalFrom false str (byte :: (quoteString s ++ 34 :: rest)) = _
      rw [literalFrom, if_neg ne, if_neg ne', ih, append_assoc]
      rfl

theorem quoted_quoteString (s rest : List UInt8) :
    Document.quoted (34 :: (quoteString s ++ 34 :: rest)) = .ok (s, [], rest) := by
  have content : literal (quoteString s ++ 34 :: rest) = .ok (s, [], 34 :: rest) :=
    literalFrom_quoteString [] s rest
  have opening : exactly [34] (34 :: (quoteString s ++ 34 :: rest)) =
      .ok ((), [], quoteString s ++ 34 :: rest) := exactly_append [34] _
  have closing : exactly [34] (34 :: rest) = .ok ((), [], rest) := exactly_append [34] _
  rw [quoted, bind_silent _ opening, bind_silent _ content, bind_silent _ closing]
  rfl

/-! ### Numbers -/

/-- What may follow a value: nothing that could belong to a number. -/
def Follows (rest : List UInt8) : Prop :=
  ∀ c ∈ rest.head?, IsBlank c ∨ c = 44 ∨ c = 93 ∨ c = 125

theorem step_of_follows {c : UInt8} (h : IsBlank c ∨ c = 44 ∨ c = 93 ∨ c = 125)
    (state : NumState) : state.step c = .ok none := by
  rcases h with (rfl | rfl | rfl) | rfl | rfl | rfl <;> rfl

theorem scanNum_follows {rest : List UInt8} (follows : Follows rest) (state : NumState)
    (text : List UInt8) : StringParser.scanNum state text rest = .ok (text, rest) := by
  cases rest with
  | nil => rfl
  | cons c rest =>
    rw [StringParser.scanNum, step_of_follows (follows c rfl)]

/-- The scanner behind digits. -/
def NumState.behind (state : NumState) (digits : List UInt8) : NumState :=
  if digits = [] then state else { state with signOk := false, eOk := !state.ed }

theorem scanNum_digits (state : NumState) (text : List UInt8) {digits : List UInt8}
    (all : ∀ c ∈ digits, isdigit c) (s : List UInt8) :
    StringParser.scanNum state text (digits ++ s) =
      StringParser.scanNum (state.behind digits) (text ++ digits) s := by
  induction digits generalizing state text with
  | nil =>
    rw [append_nil]
    rfl
  | cons c digits ih =>
    rw [cons_append, StringParser.scanNum, NumState.step_digit state (all c mem_cons_self)]
    simp only
    rw [ih _ _ fun d mem => all d (mem_cons_of_mem c mem), append_assoc]
    congr 1
    unfold NumState.behind
    rw [if_neg (cons_ne_nil _ _)]
    split_ifs <;> rfl

theorem scanNum_sign {sign : List UInt8} (signed : SignText sign) (state : NumState)
    (ok : state.signOk) (text s : List UInt8) :
    ∃ signOk eOk dotOk, StringParser.scanNum state text (sign ++ s) =
        StringParser.scanNum ⟨signOk, dotOk, eOk, state.ed⟩ (text ++ sign) s ∧
      (state.ed = false → state.dotOk → dotOk) := by
  cases signed with
  | none =>
    refine ⟨state.signOk, state.eOk, state.dotOk, ?_, fun _ ok => ok⟩
    rw [append_nil]
    rfl
  | plus =>
    refine ⟨false, false, !state.ed, ?_, fun no _ => by rw [no]; rfl⟩
    rw [singleton_append, StringParser.scanNum, state.step_sign (.inl rfl) ok]
  | minus =>
    refine ⟨false, false, !state.ed, ?_, fun no _ => by rw [no]; rfl⟩
    rw [singleton_append, StringParser.scanNum, state.step_sign (.inr rfl) ok]

theorem scanNum_mantissa {mantissa : List UInt8} (value : MantissaText mantissa) (state : NumState)
    (fresh : state.ed = false) (ok : state.dotOk) (text s : List UInt8) :
    ∃ signOk dotOk, StringParser.scanNum state text (mantissa ++ s) =
      StringParser.scanNum ⟨signOk, dotOk, true, false⟩ (text ++ mantissa) s := by
  cases value with
  | whole ne all =>
    refine ⟨false, state.dotOk, ?_⟩
    rw [scanNum_digits state text all, NumState.behind, if_neg ne, fresh]
    rfl
  | @point digits fraction ne all all' =>
    have point : (state.behind digits).dotOk := by
      unfold NumState.behind
      split_ifs
      · exact ok
      · exact ok
    refine ⟨false, false, ?_⟩
    rw [append_assoc, scanNum_digits state text all, cons_append, StringParser.scanNum,
      NumState.step_point _ point]
    simp only
    rw [scanNum_digits _ _ all', append_assoc, append_assoc]
    congr 1
    unfold NumState.behind
    by_cases none : digits = []
    · rw [if_neg (ne.resolve_left (not_not.mpr none)), if_pos none, fresh]
      rfl
    · rw [if_neg none, fresh]
      split_ifs <;> rfl

theorem scanNum_exponent {exponent : List UInt8} (power : ExponentText exponent) {state : NumState}
    (ok : state.eOk) {rest : List UInt8} (follows : Follows rest) (text : List UInt8) :
    StringParser.scanNum state text (exponent ++ rest) = .ok (text ++ exponent, rest) := by
  cases power with
  | none =>
    rw [append_nil]
    exact scanNum_follows follows state text
  | @power e sign digits letter signed ne all =>
    rw [cons_append, StringParser.scanNum, state.step_exponent letter ok]
    simp only
    obtain ⟨signOk, eOk, dotOk, scan, -⟩ :=
      scanNum_sign signed ⟨true, false, false, true⟩ rfl (text ++ [e]) (digits ++ rest)
    rw [append_assoc, scan, scanNum_digits _ _ all, scanNum_follows follows]
    simp only [append_assoc, cons_append, nil_append]

/-- The scanner goes through a number and stops behind it. -/
theorem scanNum_number {text rest : List UInt8} (h : NumberText text) (follows : Follows rest) :
    StringParser.scanNum {} [] (text ++ rest) = .ok (text, rest) := by
  obtain ⟨signed, value, power⟩ := h
  rename_i sign mantissa exponent
  obtain ⟨signOk, eOk, dotOk, scan, dot⟩ :=
    scanNum_sign signed {} rfl [] (mantissa ++ (exponent ++ rest))
  obtain ⟨signOk', dotOk', scan'⟩ := scanNum_mantissa value ⟨signOk, dotOk, eOk, false⟩ rfl (dot rfl rfl) ([] ++ sign) (exponent ++ rest)
  rw [append_assoc, append_assoc, scan, scan', scanNum_exponent power rfl follows]
  simp only [nil_append]

variable {text : List UInt8}

/-- A number ends with a digit, or with a point that digits stand before. -/
theorem NumberText.last (h : NumberText text) :
    ∃ init last, text = init ++ [last] ∧ (isdigit last ∨ last = 46 ∧ ∃ c ∈ init, isdigit c) := by
  have ending {pre digits : List UInt8} (ne : digits ≠ []) (all : ∀ c ∈ digits, isdigit c) :
      ∃ init last, pre ++ digits = init ++ [last] ∧
        (isdigit last ∨ last = 46 ∧ ∃ c ∈ init, isdigit c) := by
    refine ⟨pre ++ digits.dropLast, digits.getLast ne, ?_, .inl (all _ (getLast_mem ne))⟩
    rw [append_assoc, dropLast_append_getLast]
  obtain ⟨signed, value, power⟩ := h
  rename_i sign mantissa exponent
  cases power with
  | power letter signed' ne all =>
    rw [← cons_append, ← append_assoc]
    exact ending ne all
  | none =>
    rw [append_nil]
    cases value with
    | whole ne all => exact ending ne all
    | @point digits fraction ne all all' =>
      by_cases none : fraction = []
      · obtain ⟨c, mem⟩ := exists_mem_of_ne_nil digits (ne.resolve_right (not_not.mpr none))
        refine ⟨sign ++ digits, 46, ?_, .inr ⟨rfl, c, mem_append_right _ mem, all c mem⟩⟩
        rw [none, append_assoc]
      · rw [show sign ++ (digits ++ 46 :: fraction) = sign ++ digits ++ [46] ++ fraction by simp]
        exact ending none all'

theorem NumberText.not_openEnd (h : NumberText text) :
    (openEnd text || (decide (text.length = 2) && decide (text.getLast? = some 46) &&
      (decide (text.head? = some 43) || decide (text.head? = some 45)))) = false := by
  obtain ⟨init, last, rfl, ends⟩ := h.last
  have other : last ≠ 101 ∧ last ≠ 69 ∧ last ≠ 43 ∧ last ≠ 45 := by
    rcases ends with digit | ⟨rfl, -⟩
    · obtain ⟨sign, -, letter⟩ := not_mark_of_isdigit last digit
      exact ⟨fun h => letter (.inl h), fun h => letter (.inr h), fun h => sign (.inl h),
        fun h => sign (.inr h)⟩
    · decide
  have closed : openEnd (init ++ [last]) = false := by
    simp only [openEnd, getLast?_concat, Option.some.injEq, other.1, other.2.1, other.2.2.1,
      other.2.2.2, decide_false, Bool.or_false]
  rw [closed, Bool.false_or]
  by_contra both
  rw [Bool.not_eq_false, Bool.and_eq_true, Bool.and_eq_true, Bool.or_eq_true] at both
  simp only [decide_eq_true_eq, getLast?_concat, Option.some.injEq] at both
  obtain ⟨⟨two, point⟩, sign⟩ := both
  rcases ends with digit | ⟨-, c, mem, digit⟩
  · exact (not_mark_of_isdigit last digit).2.1 point
  · obtain ⟨x, rfl⟩ : ∃ x, init = [x] := by
      rw [length_append, length_singleton] at two
      exact length_eq_one_iff.mp (Nat.succ.inj two)
    cases mem_singleton.mp mem
    exact (not_mark_of_isdigit c digit).1 (sign.imp Option.some.inj Option.some.inj)

theorem number_text {text rest : List UInt8} (h : NumberText text) (follows : Follows rest) :
    Document.number (text ++ rest) = .ok (.number text, [], rest) := by
  apply ofParser_ok
  rw [StringParser.parseJsonNum, Parser.bind_ok _ (scanNum_number h follows), h.not_openEnd]
  rfl

theorem NumberText.beginsNumber (h : NumberText text) :
    ∃ byte tail, text = byte :: tail ∧ beginsNumber byte := by
  have digits {digits tail : List UInt8} (ne : digits ≠ []) (all : ∀ c ∈ digits, isdigit c) :
      ∃ byte tail', digits ++ tail = byte :: tail' ∧ Json.beginsNumber byte := by
    obtain ⟨c, cs, rfl⟩ := exists_cons_of_ne_nil ne
    exact ⟨c, cs ++ tail, rfl, by simp [Json.beginsNumber, all c mem_cons_self]⟩
  obtain ⟨signed, value, -⟩ := h
  cases signed with
  | plus => exact ⟨43, _, rfl, rfl⟩
  | minus => exact ⟨45, _, rfl, rfl⟩
  | none =>
    cases value with
    | whole ne all => exact digits ne all
    | @point ds fraction _ all _ =>
      by_cases none : ds = []
      · rw [none]
        exact ⟨46, _, rfl, rfl⟩
      · rw [nil_append, append_assoc]
        exact digits none all

theorem numberText_toStringInt (n : Int) : NumberText (toStringInt n) := by
  have whole := MantissaText.whole (decimal_ne_nil n.natAbs) (isdigit_decimal n.natAbs)
  unfold toStringInt
  split_ifs
  · have text := NumberText.mk SignText.minus whole ExponentText.none
    rwa [append_nil] at text
  · have text := NumberText.mk SignText.none whole ExponentText.none
    rwa [append_nil] at text

/-! ### Values -/

/-- What a value begins with: nothing that is skipped, that separates values or that closes. -/
def Begins (byte : UInt8) : Prop :=
  (¬(byte = 32 ∨ byte = 9 ∨ byte = 13 ∨ byte = 10) ∧ byte ≠ 47) ∧ byte ≠ 44 ∧ byte ≠ 93 ∧
    byte ≠ 125

instance (byte : UInt8) : Decidable (Begins byte) := inferInstanceAs (Decidable (_ ∧ _))

theorem Begins.solid (h : Begins byte) (s : List UInt8) : Solid (byte :: s) := by
  rintro _ ⟨⟩
  exact h.1

theorem begins_of_beginsNumber (byte : UInt8) : beginsNumber byte → Begins byte ∧
    byte ≠ 91 ∧ byte ≠ 123 ∧ byte ≠ 34 ∧ byte ≠ 116 ∧ byte ≠ 102 ∧ byte ≠ 110 := by
  revert byte
  apply forall_byte
  decide +kernel

/-- The text is read as this value wherever something follows that may. -/
structure Reads (text : List UInt8) (a : Any) : Prop where
  begins : ∃ byte tail, text = byte :: tail ∧ Begins byte
  read : ∀ depth rest, Follows rest → (text ++ rest).length < depth →
    Document.value depth (text ++ rest) = .ok (a, [], rest)

variable {a : Any}

/-- A value that begins like this. -/
theorem reads_of_valueFrom {tail : List UInt8} (begins : Begins byte)
    (h : ∀ depth rest, Follows rest → (tail ++ rest).length < depth →
      Document.valueFrom (Document.value depth) byte (byte :: (tail ++ rest)) = .ok (a, [], rest)) :
    Reads (byte :: tail) a := by
  refine ⟨⟨byte, tail, rfl, begins⟩, ?_⟩
  intro depth rest follows enough
  obtain ⟨depth, rfl⟩ := Nat.exists_eq_succ_of_ne_zero (ne_of_gt (Nat.zero_lt_of_lt enough))
  have space : space (byte :: (tail ++ rest)) = .ok ((), [], byte :: (tail ++ rest)) :=
    space_solid (begins.solid _)
  have byte' : peek (byte :: (tail ++ rest)) =
      .ok (some byte, [], byte :: (tail ++ rest)) := rfl
  rw [cons_append, value, bind_silent _ space, bind_silent _ byte']
  exact h depth rest follows (Nat.lt_of_succ_lt_succ enough)

/-- Blanks before a value do not count. -/
theorem Reads.blank {text rest pre : List UInt8} (h : Reads text a)
    (blank : ∀ c ∈ pre, IsBlank c) (follows : Follows rest) {depth : Nat}
    (enough : (text ++ rest).length < depth) :
    Document.value depth (pre ++ (text ++ rest)) = .ok (a, [], rest) := by
  rw [← h.read depth rest follows enough]
  obtain ⟨byte, tail, rfl, begins⟩ := h.begins
  obtain ⟨depth, rfl⟩ := Nat.exists_eq_succ_of_ne_zero (ne_of_gt (Nat.zero_lt_of_lt enough))
  have solid : Solid (byte :: tail ++ rest) := begins.solid _
  rw [value, bind_silent _ (space_blank blank solid), bind_silent _ (space_solid solid)]

theorem reads_word {tail : List UInt8} (begins : Begins byte)
    (h : ∀ value : Document.Read Any, Document.valueFrom value byte =
      Document.exactly (byte :: tail) >>= fun _ => pure a) : Reads (byte :: tail) a := by
  apply reads_of_valueFrom begins
  intro depth rest _ _
  have word : exactly (byte :: tail) (byte :: (tail ++ rest)) = .ok ((), [], rest) :=
    exactly_append (byte :: tail) rest
  rw [h, bind_silent _ word]
  rfl

theorem reads_null : Reads (ascii "null") .null := by
  have word : ascii "null" = [110, 117, 108, 108] := by decide
  rw [word]
  refine reads_word (by decide) fun value => ?_
  rw [valueFrom, word]
  rfl

theorem reads_bool (b : Bool) : Reads (toStringBool b) (.bool b) := by
  have yes : ascii "true" = [116, 114, 117, 101] := by decide
  have no : ascii "false" = [102, 97, 108, 115, 101] := by decide
  cases b with
  | true =>
    rw [toStringBool, if_pos rfl, yes]
    refine reads_word (by decide) fun value => ?_
    rw [valueFrom, yes]
    rfl
  | false =>
    rw [toStringBool, if_neg (by decide), no]
    refine reads_word (by decide) fun value => ?_
    rw [valueFrom, no]
    rfl

theorem reads_string (s : List UInt8) : Reads (34 :: (quoteString s ++ [34])) (.string s) := by
  apply reads_of_valueFrom (by decide)
  intro depth rest _ _
  have quoted : Document.quoted (34 :: (quoteString s ++ [34] ++ rest)) = .ok (s, [], rest) := by
    rw [append_assoc]
    exact quoted_quoteString s rest
  change (Document.quoted >>= fun str => pure (Any.string str)) _ = _
  rw [bind_silent _ quoted]
  rfl

theorem reads_number (h : NumberText text) : Reads text (.number text) := by
  obtain ⟨byte, tail, rfl, begins⟩ := h.beginsNumber
  obtain ⟨begins', bracket, brace, quote, t, f, n⟩ := begins_of_beginsNumber byte begins
  apply reads_of_valueFrom begins'
  intro depth rest follows _
  rw [valueFrom, if_neg bracket, if_neg brace, if_neg quote, if_neg t, if_neg f, if_neg n,
    if_pos begins]
  exact number_text h follows

/-! ### Arrays and maps -/

theorem follows_blank {pre rest : List UInt8} (blank : ∀ c ∈ pre, IsBlank c)
    (closes : byte = 93 ∨ byte = 125) : Follows (pre ++ byte :: rest) := by
  intro c head
  cases pre with
  | nil =>
    cases head
    exact .inr (.inr closes)
  | cons c' pre =>
    cases head
    exact .inl (blank _ mem_cons_self)

theorem solid_close (closes : byte = 44 ∨ byte = 93 ∨ byte = 125)
    (rest : List UInt8) : Solid (byte :: rest) := by
  rintro _ ⟨⟩
  rcases closes with rfl | rfl | rfl <;> decide

/-- How the loops go on from a place where blanks may stand. -/
def goOn {β : Type} (body : β → Document.Read (Round β Any)) (n : Nat) (b : β) :
    Document.Read Any := do
  Document.space
  rounds Noting.unfinished body n b

theorem goOn_of_space {β : Type} {body : β → Document.Read (Round β Any)} {n : Nat} {b : β}
    {s s' : List UInt8} (h : Document.space s = .ok ((), [], s')) :
    goOn body n b s = rounds Noting.unfinished body n b s' := bind_silent _ h

section Array

variable {value : Document.Read Any} {n : Nat} {acc : List Any} {pre rest : List UInt8}

theorem array_close (blank : ∀ c ∈ pre, IsBlank c) {expectComma : Bool}
    (allowed : expectComma = true ∨ acc = []) :
    goOn (Document.arrayRound value) (n + 1) (acc, expectComma) (pre ++ 93 :: rest) =
      .ok (.array acc, [], rest) := by
  rw [goOn_of_space (space_blank blank (solid_close (.inr (.inl rfl)) rest))]
  apply rounds_leave
  have fine : (!expectComma && decide (0 < acc.length)) = false := by
    rcases allowed with rfl | rfl
    · rfl
    · exact Bool.and_false _
  rw [arrayRound, bind_silent (a := some 93) _ rfl]
  change (refuse (!expectComma && decide (0 < acc.length)) >>= _) _ = _
  rw [fine]
  rfl

theorem array_comma :
    goOn (Document.arrayRound value) (n + 1) (acc, true) (44 :: rest) =
      goOn (Document.arrayRound value) n (acc, false) rest := by
  rw [goOn_of_space (space_solid (solid_close (.inl rfl) rest))]
  apply rounds_then
  rw [arrayRound, bind_silent (a := some 44) _ rfl]
  simp only [if_true]
  rw [bind_silent (a := ()) _ rfl, bind_silent (a := ()) _ rfl]
  rfl

theorem array_item {text : List UInt8} {a : Any} (blank : ∀ c ∈ pre, IsBlank c)
    (begins : ∃ byte tail, text = byte :: tail ∧ Begins byte)
    (read : value (text ++ rest) = .ok (a, [], rest)) :
    goOn (Document.arrayRound value) (n + 1) (acc, false) (pre ++ (text ++ rest)) =
      goOn (Document.arrayRound value) n (acc ++ [a], true) rest := by
  obtain ⟨byte, tail, rfl, begins⟩ := begins
  have solid : Solid (byte :: tail ++ rest) := begins.solid _
  rw [goOn_of_space (space_blank blank solid)]
  apply rounds_then
  rw [arrayRound, bind_silent (a := some byte) _ rfl]
  simp only [if_neg begins.2.1, if_neg begins.2.2.1]
  rw [bind_silent (a := ()) _ rfl, bind_silent _ read]

end Array

section Map

variable {value : Document.Read Any} {n : Nat} {dict : JsonMap} {pre rest : List UInt8}

theorem map_close (blank : ∀ c ∈ pre, IsBlank c) {expectComma : Bool}
    (allowed : expectComma = true ∨ dict.entries = []) :
    goOn (Document.mapRound value) (n + 1) (dict, expectComma) (pre ++ 125 :: rest) =
      .ok (.map dict.entries, [], rest) := by
  rw [goOn_of_space (space_blank blank (solid_close (.inr (.inr rfl)) rest))]
  apply rounds_leave
  have fine : (!expectComma && decide (0 < dict.entries.length)) = false := by
    rcases allowed with rfl | none
    · rfl
    · rw [none]
      exact Bool.and_false _
  rw [mapRound, bind_silent (a := some 125) _ rfl]
  change (refuse (!expectComma && decide (0 < dict.entries.length)) >>= _) _ = _
  rw [fine]
  rfl

theorem map_comma :
    goOn (Document.mapRound value) (n + 1) (dict, true) (44 :: rest) =
      goOn (Document.mapRound value) n (dict, false) rest := by
  rw [goOn_of_space (space_solid (solid_close (.inl rfl) rest))]
  apply rounds_then
  rw [mapRound, bind_silent (a := some 44) _ rfl]
  simp only [show (44 : UInt8) ≠ 125 by decide, if_false, if_true]
  rw [bind_silent (a := ()) _ rfl, bind_silent (a := ()) _ rfl]
  rfl

theorem map_entry {key text : List UInt8} {a : Any} (blank : ∀ c ∈ pre, IsBlank c)
    (last : ∀ e ∈ dict.entries, e.1.map toNat < key.map toNat)
    (read : value text = .ok (a, [], rest)) :
    goOn (Document.mapRound value) (n + 1) (dict, false)
        (pre ++ 34 :: (quoteString key ++ 34 :: 58 :: text)) =
      goOn (Document.mapRound value) n (dict.insert key a, true) rest := by
  have solid : Solid (34 :: (quoteString key ++ 34 :: 58 :: text)) := by
    rintro _ ⟨⟩
    decide
  have solid' : Solid (58 :: text) := by
    rintro _ ⟨⟩
    decide
  have colon : exactly [58] (58 :: text) = .ok ((), [], text) := exactly_append [58] text
  have unique : decide ((dict.insert key a).entries.length = dict.entries.length) = false := by
    rw [SortedMap.insert_of_lt a last, length_append, length_singleton]
    exact decide_eq_false (Nat.succ_ne_self _)
  rw [goOn_of_space (space_blank blank solid)]
  apply rounds_then
  rw [mapRound, bind_silent (a := some 34) _ rfl]
  change (refuse false >>= _) _ = _
  rw [bind_silent (a := ()) _ rfl, bind_silent _ (quoted_quoteString key (58 :: text)),
    bind_silent _ (space_solid solid'), bind_silent _ colon,
    bind_silent _ read, unique, bind_silent (a := ()) _ rfl]

end Map

/-- The value is printed as a text that is read as an equal value. -/
def Printed (isCompact : Bool) (a : Any) : Prop :=
  ∀ pre : List UInt8, (∀ c ∈ pre, IsBlank c) → ∃ text b,
    toString isCompact pre a = .ok (pre ++ text) ∧ Reads text b ∧ equal b a = .ok true

/-- The loop over an array reads on to its end, behind which the text is `rest`. -/
def ItemsRead (bs : List Any) (first : Bool) (text rest : List UInt8) : Prop :=
  ∀ (acc : List Any) (depth : Nat), (first = true → acc = []) → text.length < depth →
    ∃ n, goOn (Document.arrayRound (Document.value depth)) n (acc, !first) text =
      .ok (.array (acc ++ bs), [], rest)

/-- The loop over a map reads on to its end, behind which the text is `rest`. -/
def EntriesRead (es : List (List UInt8 × Any)) (first : Bool) (text rest : List UInt8) : Prop :=
  ∀ (dict : JsonMap) (depth : Nat), (first = true → dict.entries = []) → text.length < depth →
    (∀ e ∈ dict.entries, ∀ e' ∈ es, e.1.map toNat < e'.1.map toNat) →
    ∃ n, goOn (Document.mapRound (Document.value depth)) n (dict, !first) text =
      .ok (.map (dict.entries ++ es), [], rest)

section Printed

variable {isCompact : Bool} {pre : List UInt8} (blank : ∀ c ∈ pre, IsBlank c)

include blank

/-- What stands before the closing bracket. -/
theorem isBlank_close : ∀ c ∈ newline isCompact ++ pre, IsBlank c := by
  intro c mem
  exact (mem_append.mp mem).elim (isBlank_newline isCompact c) (blank c)

theorem itemsRead_cons {text body rest : List UInt8} {b : Any} {bs : List Any} (read : Reads text b)
    (follows : Follows (body ++ rest)) {rest' : List UInt8}
    (h : ItemsRead bs false (body ++ rest) rest') (first : Bool) :
    ItemsRead (b :: bs) first
      ((if first then [] else [44]) ++ newline isCompact ++ (pre ++ text) ++ body ++ rest) rest' := by
  intro acc depth empty enough
  have shape : (if first then [] else [44]) ++ newline isCompact ++ (pre ++ text) ++ body ++ rest =
      (if first then [] else [44]) ++ (newline isCompact ++ pre ++ (text ++ (body ++ rest))) := by
    simp only [append_assoc]
  rw [shape] at enough ⊢
  generalize body ++ rest = tail at *
  simp only [length_append] at enough
  obtain ⟨n, done⟩ := h (acc ++ [b]) depth nofun (by omega)
  rw [append_assoc] at done
  have item : goOn (arrayRound (value depth)) (n + 1) (acc, false)
      (newline isCompact ++ pre ++ (text ++ tail)) = .ok (.array (acc ++ b :: bs), [], rest') := by
    rw [array_item (isBlank_close blank) read.begins
      (read.read depth tail follows (by rw [length_append]; omega))]
    exact done
  cases first with
  | true => exact ⟨n + 1, item⟩
  | false => exact ⟨n + 2, array_comma.trans item⟩

theorem printed_items {items : List Any} (h : ∀ a ∈ items, Printed isCompact a) (first : Bool) :
    ∃ body bs, toStringItems isCompact pre first items = .ok body ∧
      bs.length = items.length ∧ equalItems bs items = .ok true ∧
      ∀ rest, (first = false → Follows (body ++ (newline isCompact ++ pre ++ 93 :: rest))) ∧
        ItemsRead bs first (body ++ (newline isCompact ++ pre ++ 93 :: rest)) rest := by
  induction items generalizing first with
  | nil =>
    refine ⟨[], [], rfl, rfl, rfl, fun rest => ⟨fun _ => ?_, ?_⟩⟩
    · exact follows_blank (isBlank_close blank) (.inl rfl)
    · intro acc depth empty _
      refine ⟨1, ?_⟩
      rw [append_nil]
      apply array_close (isBlank_close blank)
      cases first with
      | true => exact .inr (empty rfl)
      | false => exact .inl rfl
  | cons a items ih =>
    obtain ⟨body, bs, printed, len, same, reads⟩ :=
      ih (fun b mem => h b (mem_cons_of_mem a mem)) false
    obtain ⟨text, b, printed', read, same'⟩ :=
      h a mem_cons_self (deeper isCompact pre) (isBlank_deeper blank)
    refine ⟨(if first then [] else [44]) ++ newline isCompact ++ (deeper isCompact pre ++ text) ++
      body, b :: bs, ?_, congrArg Nat.succ len, ?_, fun rest => ⟨?_, ?_⟩⟩
    · rw [toStringItems, printed', printed]
      rfl
    · rw [equalItems, same']
      exact same
    · rintro rfl c ⟨⟩
      exact .inr (.inl rfl)
    · exact itemsRead_cons (isBlank_deeper blank) read ((reads rest).1 rfl) (reads rest).2 first

theorem entriesRead_cons {key text body rest : List UInt8} {b : Any} {es : List (List UInt8 × Any)}
    (read : Reads text b) (follows : Follows (body ++ rest)) {rest' : List UInt8}
    (sorted : ∀ e ∈ es, key.map toNat < e.1.map toNat)
    (h : EntriesRead es false (body ++ rest) rest') (first : Bool) :
    EntriesRead ((key, b) :: es) first
      ((if first then [] else [44]) ++ newline isCompact ++ pre ++ [34] ++ quoteString key ++
        [34, 58] ++ newline isCompact ++ (deeper isCompact pre ++ text) ++ body ++ rest) rest' := by
  intro dict depth empty enough last
  have shape : (if first then [] else [44]) ++ newline isCompact ++ pre ++ [34] ++
      quoteString key ++ [34, 58] ++ newline isCompact ++ (deeper isCompact pre ++ text) ++ body ++
        rest =
      (if first then [] else [44]) ++ (newline isCompact ++ pre ++ 34 :: (quoteString key ++
        34 :: 58 :: (newline isCompact ++ deeper isCompact pre ++ (text ++ (body ++ rest))))) := by
    simp only [append_assoc, cons_append, nil_append]
  rw [shape] at enough ⊢
  generalize body ++ rest = tail at *
  simp only [length_append, length_cons] at enough
  have before : ∀ e ∈ dict.entries, e.1.map toNat < key.map toNat := fun e mem =>
    last e mem (key, b) mem_cons_self
  have entries := SortedMap.insert_of_lt b before
  obtain ⟨n, done⟩ := h (dict.insert key b) depth nofun (by omega) (by
    rw [entries]
    intro e mem e' mem'
    rcases mem_append.mp mem with old | new
    · exact last e old e' (mem_cons_of_mem _ mem')
    · cases mem_singleton.mp new
      exact sorted e' mem')
  rw [entries, append_assoc] at done
  have item : goOn (mapRound (value depth)) (n + 1) (dict, false)
      (newline isCompact ++ pre ++ 34 :: (quoteString key ++ 34 :: 58 ::
        (newline isCompact ++ deeper isCompact pre ++ (text ++ tail)))) =
        .ok (.map (dict.entries ++ (key, b) :: es), [], rest') := by
    have value : value depth
        (newline isCompact ++ deeper isCompact pre ++ (text ++ tail)) = .ok (b, [], tail) :=
      read.blank (isBlank_close (isBlank_deeper blank)) follows (by rw [length_append]; omega)
    rw [map_entry (isBlank_close blank) before value]
    exact done
  cases first with
  | true => exact ⟨n + 1, item⟩
  | false => exact ⟨n + 2, map_comma.trans item⟩

theorem printed_entries {entries : List (List UInt8 × Any)}
    (h : ∀ e ∈ entries, Printed isCompact e.2)
    (sorted : entries.Pairwise fun e e' => e.1.map toNat < e'.1.map toNat)
    (first : Bool) :
    ∃ body es, toStringEntries isCompact pre first entries = .ok body ∧
      es.map Prod.fst = entries.map Prod.fst ∧ equalEntries es entries = .ok true ∧
      ∀ rest, (first = false → Follows (body ++ (newline isCompact ++ pre ++ 125 :: rest))) ∧
        EntriesRead es first (body ++ (newline isCompact ++ pre ++ 125 :: rest)) rest := by
  induction entries generalizing first with
  | nil =>
    refine ⟨[], [], rfl, rfl, rfl, fun rest => ⟨fun _ => ?_, ?_⟩⟩
    · exact follows_blank (isBlank_close blank) (.inr rfl)
    · intro dict depth empty _ _
      refine ⟨1, ?_⟩
      rw [append_nil]
      apply map_close (isBlank_close blank)
      cases first with
      | true => exact .inr (empty rfl)
      | false => exact .inl rfl
  | cons e entries ih =>
    obtain ⟨key, a⟩ := e
    obtain ⟨least, sorted⟩ := pairwise_cons.mp sorted
    obtain ⟨body, es, printed, keys, same, reads⟩ :=
      ih (fun e mem => h e (mem_cons_of_mem _ mem)) sorted false
    obtain ⟨text, b, printed', read, same'⟩ :=
      h (key, a) mem_cons_self (deeper isCompact pre) (isBlank_deeper blank)
    have least' : ∀ e ∈ es, key.map toNat < e.1.map toNat := by
      intro e mem
      obtain ⟨e', mem', same⟩ := mem_map.mp (keys ▸ mem_map_of_mem mem)
      exact same ▸ least e' mem'
    refine ⟨(if first then [] else [44]) ++ newline isCompact ++ pre ++ [34] ++ quoteString key ++
      [34, 58] ++ newline isCompact ++ (deeper isCompact pre ++ text) ++ body, (key, b) :: es, ?_,
      congrArg (cons key) keys, ?_, fun rest => ⟨?_, ?_⟩⟩
    · rw [toStringEntries, printed', printed]
      rfl
    · rw [equalEntries, if_neg (not_not.mpr rfl), same']
      exact same
    · rintro rfl c ⟨⟩
      exact .inr (.inl rfl)
    · exact entriesRead_cons blank read ((reads rest).1 rfl) least' (reads rest).2 first

end Printed

/-- Where a loop comes to an end with some number of rounds, it does so with its own. -/
theorem loop_of_goOn {β : Type} {body : β → Document.Read (Round β Any)} {n : Nat} {b : β}
    {s rest : List UInt8} (h : goOn body n b s = .ok (a, [], rest))
    (spends : ∀ b (s' : List UInt8), s'.length ≤ s.length → Spends s'.length (body b s')) :
    (Document.space >>= fun _ => Noting.loop List.length body b) s = .ok (a, [], rest) := by
  have leaves := leaves_space s
  unfold goOn at h
  cases hs : space s with
  | error stop =>
    rw [bind_error _ hs] at h
    cases h
  | ok r =>
    obtain ⟨_, notes, s'⟩ := r
    rw [hs] at leaves
    rw [bind_ok _ hs] at h
    rw [bind_ok _ hs, ← h]
    have ends := within_loop spends b leaves
    have finished : loop length body b s' ≠ .error .unfinished := by
      intro stuck
      rw [stuck] at ends
      exact ends
    cases hr : rounds unfinished body n b s' with
    | error stop =>
      rw [hr] at h
      cases h
    | ok r => rw [loop_eq hr finished]

theorem reads_array {body pre : List UInt8} {bs : List Any}
    (h : ∀ rest, ItemsRead bs true (body ++ (pre ++ 93 :: rest)) rest) :
    Reads (91 :: (body ++ (pre ++ [93]))) (.array bs) := by
  apply reads_of_valueFrom (by decide)
  intro depth rest _ enough
  rw [append_assoc, append_assoc, singleton_append] at enough ⊢
  obtain ⟨n, done⟩ := h rest [] depth (fun _ => rfl) enough
  have opening : exactly [91] (91 :: (body ++ (pre ++ 93 :: rest))) =
      .ok ((), [], body ++ (pre ++ 93 :: rest)) := exactly_append [91] _
  change array _ _ = _
  rw [array, bind_silent _ opening]
  exact loop_of_goOn done fun state s' le =>
    spends_arrayRound (fun _ => leaves_value depth) state (by omega)

theorem reads_map {body pre : List UInt8} {es : List (List UInt8 × Any)}
    (h : ∀ rest, EntriesRead es true (body ++ (pre ++ 125 :: rest)) rest) :
    Reads (123 :: (body ++ (pre ++ [125]))) (.map es) := by
  apply reads_of_valueFrom (by decide)
  intro depth rest _ enough
  rw [append_assoc, append_assoc, singleton_append] at enough ⊢
  obtain ⟨n, done⟩ := h rest {} depth (fun _ => rfl) enough (forall_mem_nil _)
  have opening : Document.exactly [123] (123 :: (body ++ (pre ++ 125 :: rest))) =
      .ok ((), [], body ++ (pre ++ 125 :: rest)) := exactly_append [123] _
  change Document.map _ _ = _
  rw [Document.map, bind_silent _ opening]
  exact loop_of_goOn done fun state s' le =>
    spends_mapRound (fun _ => leaves_value depth) state (by omega)

/-- JSON values are printed as texts that are read as equal values. -/
theorem printed_of_isJson (json : IsJson a) (isCompact : Bool) : Printed isCompact a := by
  induction json with
  | null => exact fun pre _ => ⟨_, .null, rfl, reads_null, rfl⟩
  | bool b =>
    refine fun pre _ => ⟨_, .bool b, rfl, reads_bool b, ?_⟩
    rw [equal, beq_self_eq_true]
  | string s =>
    refine fun pre _ => ⟨34 :: (quoteString s ++ [34]), .string s, ?_, reads_string s, ?_⟩
    · simp only [toString, append_assoc, cons_append, nil_append]
    · rw [equal, beq_self_eq_true]
  | integer n =>
    refine fun pre _ => ⟨_, .number _, rfl, reads_number (numberText_toStringInt n.value), ?_⟩
    rw [equal, numberEqual_toStringInt]
  | @number text h =>
    refine fun pre _ => ⟨text, .number text, rfl, reads_number h, ?_⟩
    rw [equal, numberEqual, beq_self_eq_true]
  | @array items _ ih =>
    intro pre blank
    obtain ⟨body, bs, printed, len, same, reads⟩ := printed_items blank ih true
    refine ⟨91 :: (body ++ (newline isCompact ++ pre ++ [93])), .array bs, ?_,
      reads_array fun rest => (reads rest).2, ?_⟩
    · rw [toString, printed]
      change Except.ok _ = Except.ok _
      simp only [append_assoc, cons_append, nil_append]
    · rw [equal, if_neg (not_not.mpr len), same]
  | map m _ ih =>
    intro pre blank
    obtain ⟨body, es, printed, keys, same, reads⟩ := printed_entries blank ih m.sorted true
    refine ⟨123 :: (body ++ (newline isCompact ++ pre ++ [125])), .map es, ?_,
      reads_map fun rest => (reads rest).2, ?_⟩
    · rw [toString, printed]
      change Except.ok _ = Except.ok _
      simp only [append_assoc, cons_append, nil_append]
    · have len := congrArg length keys
      rw [length_map, length_map] at len
      rw [equal, if_neg (not_not.mpr len), same]

/-- A text that is read to its end is parsed, and all of it is used up. -/
theorem parseJson_of_reads {pre text : List UInt8} (blank : ∀ c ∈ pre, IsBlank c) {b : Any}
    (h : Reads text b) : parseJsonAt (pre ++ text) 0 = .ok (b, (pre ++ text).length) ∧
      parseJson (pre ++ text) = .ok b := by
  have read : document (pre ++ text) = .ok (b, [], []) := by
    have all : value ((pre ++ text).length + 1) (pre ++ (text ++ [])) = .ok (b, [], []) :=
      h.blank blank (fun _ none => absurd none (by simp))
        (by simp only [length_append, length_nil]; omega)
    rwa [append_nil] at all
  have parsed : parseJsonAt (pre ++ text) 0 = .ok (b, (pre ++ text).length) := by
    have finished := document_finishes (pre ++ text)
    rw [parseJsonAt, drop_zero, Nat.sub_zero]
    rcases (strictly_parseJson ((pre ++ text).length + 1)).of_finished rfl finished with
      ⟨a, escapes, rest, _, found, -, parsed, rfl⟩ | ⟨none, -⟩
    · rw [show value _ (pre ++ text) = document (pre ++ text) from rfl, read] at found
      cases found
      rw [parsed]
      rfl
    · exact absurd (fun _ none => absurd none not_mem_nil) (none b [] [] read)
  refine ⟨parsed, ?_⟩
  rw [parseJson, parsed]
  change (StringParser.skipSpace ((pre ++ text).drop (pre ++ text).length) >>= _) = _
  rw [drop_length]
  rfl

/-- Printing a JSON value and parsing the text gives an equal value; the stream gets the same text iff
what is inserted has lengths of 32 bits. -/
theorem json_round_trip_iff {a : Any} (json : IsJson a) (isCompact : Bool) {pre : List UInt8}
    (blank : ∀ c ∈ pre, IsBlank c) :
    ∃ text, toString isCompact pre a = .ok text ∧
      (∃ b, parseJsonAt text 0 = .ok (b, text.length) ∧ parseJson text = .ok b ∧
        equal b a = .ok true) ∧
      ∀ os : OstreamBuffer, ∃ os', toStream isCompact pre a os = .ok os' ∧
        (os'.str = os.str ++ text ↔ Short isCompact pre a) := by
  obtain ⟨text, b, printed, reads, same⟩ := printed_of_isJson json isCompact pre blank
  obtain ⟨parsed, whole⟩ := parseJson_of_reads blank reads
  refine ⟨pre ++ text, printed, ⟨b, parsed, whole, same⟩, ?_⟩
  intro os
  have writes := writes_toStream isCompact pre a os
  rw [printed] at writes
  obtain ⟨e, -, failed⟩ | ⟨os', sent, text', streamed, ok, str, all⟩ := writes
  · cases failed
  · cases ok
    refine ⟨os', streamed, ?_⟩
    rw [str, append_right_inj, all.eq_iff]

/-- An array with a number and a string with a line break in it, indented. -/
theorem json_round_trip_array :
    ∃ text, toString false [32] (.array [.number [49, 46], .string [10]]) = .ok text ∧
      (∃ b, parseJsonAt text 0 = .ok (b, text.length) ∧ parseJson text = .ok b ∧
        equal b (.array [.number [49, 46], .string [10]]) = .ok true) ∧
      ∀ os : OstreamBuffer, ∃ os',
        toStream false [32] (.array [.number [49, 46], .string [10]]) os = .ok os' ∧
          os'.str = os.str ++ text := by
  have whole : NumberText [49, 46] := by
    have digit : ∀ c ∈ [(49 : UInt8)], isdigit c := all_eq_true.mp rfl
    exact NumberText.mk SignText.none
      (MantissaText.point (.inl (cons_ne_nil _ _)) digit (forall_mem_nil _))
      ExponentText.none
  have json : IsJson (.array [.number [49, 46], .string [10]]) := by
    apply IsJson.array
    intro a mem
    rcases mem_pair.mp mem with rfl | rfl
    · exact IsJson.number whole
    · exact IsJson.string _
  have short : Short false [32] (.array [.number [49, 46], .string [10]]) := by
    simp [Short, ShortItems, deeper, quoteString, escapeOf]
  obtain ⟨text, printed, parsed, streamed⟩ :=
    json_round_trip_iff json false (forall_mem_singleton.mpr (.inl rfl))
  refine ⟨text, printed, parsed, fun os => ?_⟩
  obtain ⟨os', streamed, same⟩ := streamed os
  exact ⟨os', streamed, same.mpr short⟩

theorem quoteString_replicate (n : Nat) : quoteString (replicate n 97) = replicate n 97 := by
  induction n with
  | zero => rfl
  | succ n ih =>
    rw [replicate_succ, quoteString, flatMap_cons]
    exact congrArg (97 :: ·) ih

/-- Of a string of 4 GB, the stream gets the quotation marks. -/
theorem large_string_lost :
    ∃ os text, toStream true [] (.string (replicate (2 ^ 32) 97)) {} = .ok os ∧ os.str = [34, 34] ∧
      toString true [] (.string (replicate (2 ^ 32) 97)) = .ok text ∧ text.length = 2 ^ 32 + 2 := by
  refine ⟨_, _, rfl, ?_, rfl, ?_⟩
  · simp only [OstreamBuffer.str_insert, OstreamBuffer.inserted, quoteString_replicate,
      length_replicate]
    rfl
  · simp only [quoteString_replicate, length_append, length_replicate]
    rfl

end AgentEngine.Json
