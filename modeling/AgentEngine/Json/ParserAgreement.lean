import AgentEngine.Json.Document
import AgentEngine.Json.StreamParser

/-!
The parser of JSON in streams and the parser of JSON in strings.

Both read the document that a text begins with, but the parser of streams takes whatever stands
behind `\u` for digits.
-/

namespace AgentEngine.Json

open Lib IstreamBuffer Implements Noting StreamParser Nat

/-- The stream over `data` stands before `rest`. -/
structure At (data : List UInt8) (is : IstreamBuffer) (rest : List UInt8) : Prop where
  same : is.data = data
  drop : data.drop is.curPos = rest
  le : is.curPos ≤ data.length
  failed : is.lastGetFail → rest = []

section Stream

variable {data : List UInt8} {is : IstreamBuffer} {rest : List UInt8} {b : UInt8} {ε : Type}

theorem At.left_eq (here : At data is rest) : is.left = rest.length := by
  rw [left, here.same, ← here.drop, List.length_drop]

theorem At.curPos_eq (here : At data is rest) : is.curPos = data.length - rest.length := by
  have le := here.le
  rw [← here.drop, List.length_drop]
  omega

theorem At.get?_eq (here : At data is rest) : is.data[is.curPos]? = rest.head? := by
  rw [← here.drop, here.same, List.head?_drop]

theorem toChar_toNat (b : UInt8) : toChar b.toNat = b := by
  rw [toChar, BitVec.ofInt_natCast]
  exact UInt8.ofNat_toNat

/-- The stream behind the byte that it stands before. -/
def moved (is : IstreamBuffer) : IstreamBuffer := { is with curPos := is.curPos + 1 }

def exhausted (is : IstreamBuffer) : IstreamBuffer := { is with lastGetFail := true }

theorem At.moved (here : At data is (b :: rest)) : At data (moved is) rest where
  same := here.same
  drop := by
    change data.drop (is.curPos + 1) = rest
    rw [← List.tail_drop, here.drop]
    rfl
  le := by
    change is.curPos + 1 ≤ data.length
    have some := congrArg List.length here.drop
    rw [List.length_drop, List.length_cons] at some
    omega
  failed := fun failed => nomatch here.failed failed

theorem At.exhausted (here : At data is []) : At data (exhausted is) [] :=
  ⟨here.same, here.drop, here.le, fun _ => rfl⟩

theorem next_nil (here : At data is []) :
    (next is : Except (Stop ε) _) = .ok (none, exhausted is) := by
  have failed : (peek is : Except (Stop ε) _) = .ok (-1, exhausted is) := by
    rw [peek, here.get?_eq]
    rfl
  rw [next, Parser.bind_ok _ failed]
  rfl

theorem next_cons (here : At data is (b :: rest)) :
    (next is : Except (Stop ε) _) = .ok (some b, is) := by
  have byte : (peek is : Except (Stop ε) _) = .ok ((b.toNat : Int), is) := by
    rw [peek, here.get?_eq]
    rfl
  have fine : is.lastGetFail = false := by
    by_contra failed
    exact nomatch here.failed (Bool.eq_true_of_not_eq_false failed)
  have good : (good is : Except (Stop ε) _) = .ok (true, is) := by
    rw [good, fine]
    rfl
  rw [next, Parser.bind_ok _ byte, Parser.bind_ok _ good, if_pos rfl, toChar_toNat]
  rfl

theorem advance_cons (here : At data is (b :: rest)) :
    (advance is : Except (Stop ε) _) = .ok ((), moved is) := by
  rw [advance, Parser.bind_ok _ (show IstreamBuffer.get is = .ok ((b.toNat : Int), moved is) by
    rw [IstreamBuffer.get, here.get?_eq]
    rfl)]
  rfl

theorem advance_nil (here : At data is []) :
    (advance is : Except (Stop ε) _) = .ok ((), exhausted is) := by
  rw [advance, Parser.bind_ok _ (show IstreamBuffer.get is = .ok (-1, exhausted is) by
    rw [IstreamBuffer.get, here.get?_eq]
    rfl)]
  rfl

end Stream

section StreamParser

variable {data : List UInt8} {ε α : Type}

/-- Of the text of the stream, whatever stands behind `\u`. -/
abbrev Loosely (data : List UInt8) (x : Document.Read α) (y : Parser IstreamBuffer ε α) : Prop :=
  Implements (fun _ => True) (At data) x y

theorem left_eq_length (s : List UInt8) (is : IstreamBuffer) (here : At data is s) :
    is.left = s.length := here.left_eq

theorem loosely_next : Loosely data Document.peek (next : Parser IstreamBuffer ε _) := by
  intro s is here
  cases s with
  | nil =>
    rw [next_nil here]
    exact .read (fun _ _ => trivial) here.exhausted
  | cons b s =>
    rw [next_cons here]
    exact .read (fun _ _ => trivial) here

theorem loosely_advance : Loosely data Document.advance (advance : Parser IstreamBuffer ε _) := by
  intro s is here
  cases s with
  | nil =>
    rw [advance_nil here]
    exact .read (fun _ _ => trivial) here.exhausted
  | cons b s =>
    rw [advance_cons here]
    exact .read (fun _ _ => trivial) here.moved

theorem loosely_skipMultiLineComment :
    Loosely data (Noting.ofParser StringParser.skipMultiLineComment)
      StreamParser.skipMultiLineComment := by
  rw [StringParser.skipMultiLineComment, ofParser_loop]
  apply loop left_eq_length
  intro prevIsStar
  rw [StringParser.multiLineRound, ofParser_bind]
  apply bind loosely_next
  rintro (_ | b)
  · exact fail _
  · simp only
    split_ifs
    all_goals
      rw [ofParser_bind]
      exact loosely_advance.bind fun _ => pure _

theorem loosely_skipSingleLineComment :
    Loosely data (Noting.ofParser StringParser.skipSingleLineComment)
      StreamParser.skipSingleLineComment := by
  rw [StringParser.skipSingleLineComment, ofParser_loop]
  apply loop left_eq_length
  intro _
  rw [StringParser.singleLineRound, ofParser_bind]
  apply bind loosely_next
  rintro (_ | b)
  · exact pure _
  · simp only
    split_ifs
    all_goals
      rw [ofParser_bind]
      exact loosely_advance.bind fun _ => pure _

theorem loosely_skipComment :
    Loosely data (Noting.ofParser StringParser.skipComment) StreamParser.skipComment := by
  rw [StringParser.skipComment, ofParser_bind]
  apply bind loosely_next
  rintro (_ | b)
  · exact fail _
  · simp only
    by_cases star : b = 42
    · subst star
      rw [if_pos rfl, ofParser_bind]
      exact loosely_advance.bind fun _ => loosely_skipMultiLineComment
    · by_cases slash : b = 47
      · subst slash
        rw [if_neg star, if_pos rfl, ofParser_bind]
        exact loosely_advance.bind fun _ => loosely_skipSingleLineComment
      · rw [if_neg star, if_neg slash, decide_eq_true ⟨star, slash⟩]
        exact fail _

theorem loosely_skipSpace : Loosely data Document.space StreamParser.skipSpace := by
  rw [Document.space, StringParser.skipSpace, ofParser_loop]
  apply loop left_eq_length
  intro _
  rw [StringParser.spaceRound, ofParser_bind]
  apply bind loosely_next
  rintro (_ | b)
  · exact pure _
  · simp only
    split_ifs
    · rw [ofParser_bind]
      exact loosely_advance.bind fun _ => pure _
    · rw [ofParser_bind]
      apply bind loosely_advance
      intro _
      rw [ofParser_bind]
      exact loosely_skipComment.bind fun _ => pure _
    · exact pure _

theorem agrees_skipExactFrom (str expected : List UInt8) {is : IstreamBuffer} {s : List UInt8}
    (here : At data is s) :
    Agrees (fun _ => True) (At data) (Document.exactly expected s)
      (StreamParser.skipExactFrom str expected is) := by
  induction expected generalizing is s with
  | nil =>
    change Agrees _ _ (.ok ((), [], s)) ((next >>= fun _ => pure ()) is)
    cases s with
    | nil =>
      rw [Parser.bind_ok _ (next_nil here)]
      exact .read (fun _ _ => trivial) here.exhausted
    | cons b s =>
      rw [Parser.bind_ok _ (next_cons here)]
      exact .read (fun _ _ => trivial) here
  | cons c expected ih =>
    cases s with
    | nil =>
      rw [skipExactFrom, Parser.bind_ok _ (next_nil here)]
      exact .thrown _
    | cons b s =>
      rw [skipExactFrom, Parser.bind_ok _ (next_cons here)]
      simp only
      split_ifs with same
      · subst same
        rw [Parser.bind_ok _ (advance_cons here)]
        have rest := ih here.moved
        unfold Document.exactly Noting.ofParser StringParser.skipExact at rest ⊢
        by_cases h : s.take expected.length = expected
        · simpa only [List.length_cons, List.take_succ_cons, List.drop_succ_cons, h, if_true]
            using rest
        · have h' : ¬ b :: s.take expected.length = b :: expected := fun e =>
            h (List.cons.inj e).2
          rw [if_neg h] at rest
          rw [List.length_cons, List.take_succ_cons, if_neg h']
          exact rest
      · have other : ¬(b :: s).take (c :: expected).length = c :: expected := by
          rw [List.length_cons, List.take_succ_cons]
          exact fun e => same (List.cons.inj e).1
        unfold Document.exactly Noting.ofParser StringParser.skipExact
        rw [if_neg other]
        exact .thrown _

theorem loosely_skipExact (str : List UInt8) :
    Loosely data (Document.exactly str) (StreamParser.skipExact str) :=
  fun _ _ here => agrees_skipExactFrom str str here

/-- Before the byte `x`, of which the parser knows already, the digits behind it are read, up to
the last one. -/
theorem unicodeDigits_eq (j : Nat) (number : UInt16) {x : UInt8} {is : IstreamBuffer}
    {s : List UInt8} (here : At data is (x :: s)) (enough : j ≤ s.length) :
    ∃ is', StreamParser.unicodeDigits j number is =
        .ok (Document.looseDigits number (s.take j), is') ∧
      At data is' ((x :: s).drop j) := by
  induction j generalizing number x is s with
  | zero => exact ⟨is, rfl, here⟩
  | succ j ih =>
    cases s with
    | nil => exact absurd enough (not_succ_le_zero _)
    | cons b s =>
      rw [StreamParser.unicodeDigits, Parser.bind_ok _ (advance_cons here),
        Parser.bind_ok _ (next_cons here.moved), List.take_succ_cons, Document.looseDigits]
      cases h : hexValue b with
      | none =>
        simp only [h]
        exact ih number here.moved (le_of_succ_le_succ enough)
      | some value =>
        simp only [h]
        exact ih (number <<< 4 ||| value) here.moved (le_of_succ_le_succ enough)

theorem unicodeDigits_few (j : Nat) (number : UInt16) {x : UInt8} {is : IstreamBuffer}
    {s : List UInt8} (here : At data is (x :: s)) (few : s.length < j) :
    ∃ e, StreamParser.unicodeDigits j number is = .error (.thrown e) := by
  induction j generalizing number x is s with
  | zero => exact absurd few (not_lt_zero _)
  | succ j ih =>
    rw [StreamParser.unicodeDigits, Parser.bind_ok _ (advance_cons here)]
    cases s with
    | nil =>
      rw [Parser.bind_ok _ (next_nil here.moved)]
      exact ⟨_, rfl⟩
    | cons b s =>
      have few' := lt_of_succ_lt_succ few
      rw [Parser.bind_ok _ (next_cons here.moved)]
      simp only
      cases h : hexValue b with
      | none => exact ih number here.moved few'
      | some value => exact ih _ here.moved few'

/-- The loop over a string literal reads what the reader reads. -/
theorem agrees_unquoteRound (escaped : Bool) (str s : List UInt8) (n : Nat) {is : IstreamBuffer}
    (here : At data is s) (enough : s.length < n) :
    Agrees (fun _ => True) (At data) (Document.literalFrom escaped str s)
      (rounds Parser.unfinished StreamParser.unquoteRound n (escaped, str) is) := by
  fun_induction Document.literalFrom escaped str s generalizing n is with
      obtain ⟨n, rfl⟩ := exists_eq_succ_of_ne_zero (ne_of_gt (zero_lt_of_lt enough))
  | case1 str =>
    rw [Parser.rounds_error (by rw [unquoteRound, Parser.bind_ok _ (next_nil here)]; rfl)]
    exact .thrown _
  | case2 escaped str no =>
    rw [Bool.not_eq_true] at no
    subst no
    rw [Parser.rounds_leave (by rw [unquoteRound, Parser.bind_ok _ (next_nil here)]; rfl)]
    exact .read (fun _ _ => trivial) here.exhausted
  | case3 str a b c d rest ih =>
    obtain ⟨is', digits, here'⟩ := unicodeDigits_eq 4 0 here (by simp)
    have round : unquoteRound (true, str) is = .ok (.again (false,
        str ++ unicodeToUtf8 (Document.looseDigits 0 [a, b, c, d])), moved is') := by
      rw [unquoteRound, Parser.bind_ok _ (next_cons here)]
      simp only [if_true]
      rw [Parser.bind_ok _ digits, Parser.bind_ok _ (advance_cons here')]
      rfl
    rw [Parser.rounds_again round]
    refine (ih n here'.moved ?_).noted fun _ _ => trivial
    simp only [List.length_cons] at enough
    omega
  | case4 str rest few =>
    have short : rest.length < 4 := by
      match rest with
      | [] | [_] | [_, _] | [_, _, _] => simp
      | a :: b :: c :: d :: rest => exact absurd rfl (few a b c d rest)
    obtain ⟨e, digits⟩ := unicodeDigits_few 4 0 here short
    have round : unquoteRound (true, str) is = .error (.thrown e) := by
      rw [unquoteRound, Parser.bind_ok _ (next_cons here)]
      simp only [if_true]
      rw [Parser.bind_error _ digits]
    rw [Parser.rounds_error round]
    exact .thrown e
  | case5 str byte rest other byte' known ih =>
    have round : unquoteRound (true, str) is =
        .ok (.again (false, str ++ [byte']), moved is) := by
      rw [unquoteRound, Parser.bind_ok _ (next_cons here)]
      simp only [if_true, if_neg other, known]
      rw [Parser.bind_ok _ (advance_cons here)]
      rfl
    rw [Parser.rounds_again round]
    exact ih n here.moved (lt_of_succ_lt_succ enough)
  | case6 str byte rest other unknown =>
    rw [Parser.rounds_error (by
      rw [unquoteRound, Parser.bind_ok _ (next_cons here)]
      simp only [if_true, if_neg other, unknown]
      rfl)]
    exact .thrown _
  | case7 str rest ih =>
    have round : unquoteRound (false, str) is = .ok (.again (true, str), moved is) := by
      rw [unquoteRound, Parser.bind_ok _ (next_cons here)]
      simp only [Bool.false_eq_true, if_false, if_true]
      rw [Parser.bind_ok _ (advance_cons here)]
      rfl
    rw [Parser.rounds_again round]
    exact ih n here.moved (lt_of_succ_lt_succ enough)
  | case8 str rest other =>
    rw [Parser.rounds_leave (by
      rw [unquoteRound, Parser.bind_ok _ (next_cons here)]
      simp only [Bool.false_eq_true, if_false, if_neg other, if_true]
      rfl)]
    exact .read (fun _ _ => trivial) here
  | case9 str byte rest other other' ih =>
    have round : unquoteRound (false, str) is =
        .ok (.again (false, str ++ [byte]), moved is) := by
      rw [unquoteRound, Parser.bind_ok _ (next_cons here)]
      simp only [Bool.false_eq_true, if_false, if_neg other, if_neg other']
      rw [Parser.bind_ok _ (advance_cons here)]
      rfl
    rw [Parser.rounds_again round]
    exact ih n here.moved (lt_of_succ_lt_succ enough)

theorem loosely_unquoteString :
    Loosely data Document.literal
      (StreamParser.unquoteString.rethrow JsonError.badQuoteString) := by
  apply rethrow
  intro s is here
  rw [StreamParser.unquoteString, Parser.loop, here.left_eq]
  exact agrees_unquoteRound false [] s _ here (lt_succ_self _)

theorem loosely_parseJsonString : Loosely data Document.quoted StreamParser.parseJsonString :=
  (loosely_skipExact _).bind fun _ => loosely_unquoteString.bind fun str =>
    (loosely_skipExact _).bind fun _ => pure str

/-- The loop over a number ends where the number ends. -/
theorem agrees_numRound (state : NumState) (text s : List UInt8) (n : Nat) {is : IstreamBuffer}
    (here : At data is s) (enough : s.length < n) :
    Agrees (fun _ : List UInt8 => True) (At data)
      (Noting.ofParser (StringParser.scanNum state text : StringParser.Parse _) s)
      (rounds Parser.unfinished StreamParser.numRound n (state, text) is) := by
  induction s generalizing state text n is with
  | nil =>
    obtain ⟨n, rfl⟩ := exists_eq_succ_of_ne_zero (ne_of_gt enough)
    rw [Parser.rounds_leave (by rw [numRound, Parser.bind_ok _ (next_nil here)]; rfl)]
    exact .read (fun _ _ => trivial) here.exhausted
  | cons byte s ih =>
    obtain ⟨n, rfl⟩ := exists_eq_succ_of_ne_zero (ne_of_gt (zero_lt_of_lt enough))
    unfold Noting.ofParser
    rw [StringParser.scanNum]
    cases step : state.step byte with
    | error e =>
      rw [Parser.rounds_error (by
        rw [numRound, Parser.bind_ok _ (next_cons here)]
        simp only [step]
        rfl)]
      exact .thrown e
    | ok next =>
      cases next with
      | none =>
        rw [Parser.rounds_leave (by
          rw [numRound, Parser.bind_ok _ (next_cons here)]
          simp only [step]
          rfl)]
        exact .read (fun _ _ => trivial) here
      | some state' =>
        rw [Parser.rounds_again (by
          rw [numRound, Parser.bind_ok _ (next_cons here)]
          simp only [step]
          exact Parser.bind_ok _ (advance_cons here))]
        exact ih state' (text ++ [byte]) n here.moved (lt_of_succ_lt_succ enough)

/-- The two parsers write the same condition on a number in two ways. -/
theorem signedPoint_iff (s : List UInt8) :
    (s = ascii "+." || s = ascii "-.") =
      (decide (s.length = 2) && decide (s.getLast? = some 46) &&
        (decide (s.head? = some 43) || decide (s.head? = some 45))) := by
  have plus : ascii "+." = [43, 46] := by decide
  have minus : ascii "-." = [45, 46] := by decide
  rw [plus, minus]
  match s with
  | [] => rfl
  | [_] => simp
  | [a, b] =>
    by_cases last : b = 46
    · subst last
      simp
    · simp [last]
  | _ :: _ :: _ :: _ => simp

theorem loosely_parseJsonNum : Loosely data Document.number StreamParser.parseJsonNum := by
  rw [Document.number, StringParser.parseJsonNum, ofParser_bind]
  apply Implements.bind
  · intro s is here
    rw [Parser.loop, here.left_eq]
    exact agrees_numRound {} [] s _ here (lt_succ_self _)
  · intro text
    rw [Bool.or_assoc, signedPoint_iff, ofParser_bind]
    refine Implements.bind ?_ fun _ => Implements.pure _
    cases openEnd text || _ with
    | true => exact Implements.fail _
    | false => exact Implements.pure ()

section

variable {value : Document.Read Any} {parse : StreamParser.Parse Any}

variable (h : Loosely data value parse)
include h

theorem loosely_arrayRound (state : List Any × Bool) :
    Loosely data (Document.arrayRound value state) (StreamParser.arrayRound parse state) := by
  obtain ⟨array, expectComma⟩ := state
  apply bind loosely_next
  rintro (_ | byte)
  · exact fail _
  · simp only
    split_ifs
    · exact (implements_trueThenThrow _ _).bind fun _ => loosely_advance.bind fun _ =>
        loosely_skipSpace.bind fun _ => pure _
    · exact (implements_trueThenThrow _ _).bind fun _ => loosely_advance.bind fun _ =>
        pure _
    · exact (implements_trueThenThrow _ _).bind fun _ => h.bind fun item =>
        loosely_skipSpace.bind fun _ => pure _

theorem loosely_mapRound (state : JsonMap × Bool) :
    Loosely data (Document.mapRound value state) (StreamParser.mapRound parse state) := by
  obtain ⟨dict, expectComma⟩ := state
  apply bind loosely_next
  rintro (_ | byte)
  · exact fail _
  · simp only
    split_ifs
    · exact (implements_trueThenThrow _ _).bind fun _ => loosely_advance.bind fun _ =>
        pure _
    · exact (implements_trueThenThrow _ _).bind fun _ => loosely_advance.bind fun _ =>
        loosely_skipSpace.bind fun _ => pure _
    · exact (implements_trueThenThrow _ _).bind fun _ => loosely_parseJsonString.bind fun name =>
        loosely_skipSpace.bind fun _ => (loosely_skipExact _).bind fun _ =>
          (h.rethrow _).bind fun value => (implements_trueThenThrow _ _).bind fun _ =>
            loosely_skipSpace.bind fun _ => pure _

theorem loosely_parseValue (byte : UInt8) :
    Loosely data (Document.valueFrom value byte) (StreamParser.parseValue parse byte) := by
  unfold Document.valueFrom parseValue
  split_ifs
  · exact (loosely_skipExact _).bind fun _ => loosely_skipSpace.bind fun _ =>
      loop left_eq_length (loosely_arrayRound h) _
  · exact (loosely_skipExact _).bind fun _ => loosely_skipSpace.bind fun _ =>
      loop left_eq_length (loosely_mapRound h) _
  · exact loosely_parseJsonString.bind fun str => pure _
  · exact (loosely_skipExact _).bind fun _ => pure _
  · exact (loosely_skipExact _).bind fun _ => pure _
  · exact (loosely_skipExact _).bind fun _ => pure _
  · exact loosely_parseJsonNum
  · exact fail _

end

/-- The parser of streams reads the document of its stream. -/
theorem loosely_parseJson (calls : Nat) :
    Loosely data (Document.value calls) (StreamParser.parseJson calls) := by
  induction calls with
  | zero => exact unfinished
  | succ calls ih =>
    apply bind loosely_skipSpace
    intro _
    apply bind loosely_next
    rintro (_ | byte)
    · exact fail _
    · exact loosely_parseValue ih byte

end StreamParser

/-! ### The two parsers -/

section Agreement

variable (s : List UInt8)

/-- Both parsers throw, or both come to the same value and have read as much of the text. -/
def ParsersAgree : Prop :=
  ∃ start, IstreamBuffer.ofString s = some start ∧
    ((∃ e e', parseJsonStream start = .error (.thrown e) ∧
        parseJsonAt s 0 = .error (.thrown e')) ∨
      ∃ a is pos, parseJsonStream start = .ok (a, is) ∧ parseJsonAt s 0 = .ok (a, pos) ∧
        is.curPos = pos)

variable {s}

theorem parseJsonAt_zero :
    parseJsonAt s 0 = (StringParser.parseJson (s.length + 1) s).map fun r =>
      (r.1, s.length - r.2.length) := by
  rw [parseJsonAt, List.drop_zero, Nat.sub_zero]
  rcases StringParser.parseJson (s.length + 1) s with stop | ⟨a, rest⟩
  · rfl
  · rfl

/-- What the parser of strings comes to. -/
theorem parseJsonAt_cases :
    (∃ a escapes rest, document s = .ok (a, escapes, rest) ∧ (∀ quad ∈ escapes, IsHex quad) ∧
        parseJsonAt s 0 = .ok (a, s.length - rest.length)) ∨
      ((∀ a escapes rest, document s = .ok (a, escapes, rest) → ¬∀ quad ∈ escapes, IsHex quad) ∧
        ∃ e, parseJsonAt s 0 = .error (.thrown e)) := by
  rw [parseJsonAt_zero]
  rcases (strictly_parseJson (s.length + 1)).of_finished rfl (document_finishes s) with
    ⟨a, escapes, rest, _, read, hex, parsed, rfl⟩ | ⟨none, e, parsed⟩
  · refine .inl ⟨a, escapes, _, read, hex, ?_⟩
    rw [parsed]
    rfl
  · refine .inr ⟨none, e, ?_⟩
    rw [parsed]
    rfl

/-- What the parser of streams comes to. -/
theorem parseJsonStream_cases (size : s.length < 2 ^ 31) :
    (∃ a escapes rest is, document s = .ok (a, escapes, rest) ∧
        parseJsonStream { data := s, size } = .ok (a, is) ∧ is.curPos = s.length - rest.length) ∨
      ((∀ a escapes rest, document s ≠ .ok (a, escapes, rest)) ∧
        ∃ e, parseJsonStream { data := s, size } = .error (.thrown e)) := by
  have start : At s { data := s, size } s :=
    ⟨rfl, rfl, zero_le _, nofun⟩
  rcases (loosely_parseJson (s.length + 1)).of_finished start (document_finishes s) with
    ⟨a, escapes, rest, is, read, -, parsed, here⟩ | ⟨none, e, parsed⟩
  · exact .inl ⟨a, escapes, rest, is, read, parsed, here.curPos_eq⟩
  · exact .inr ⟨fun a escapes rest read => none a escapes rest read fun _ _ => trivial, e, parsed⟩

/-- The parsers agree on a text of less than 2 GB unless it begins with a document in which some `\u`
is followed by four bytes that are not all hexadecimal digits. With one more byte it does not get
into the stream. -/
theorem parsersAgree_iff (fits : s.length < 2 ^ 32) : ParsersAgree s ↔ s.length < 2 ^ 31 ∧
    ∀ a escapes rest, document s = .ok (a, escapes, rest) → ∀ quad ∈ escapes, IsHex quad := by
  by_cases size : s.length < 2 ^ 31
  swap
  · refine iff_of_false ?_ fun h => size h.1
    rintro ⟨start, made, -⟩
    cases made.symm.trans (ofString_of_le (not_lt.mp size) fits)
  rw [and_iff_right size, ParsersAgree, ofString_of_lt size]
  constructor
  · rintro ⟨_, ⟨⟩, agree⟩ a escapes rest read
    by_contra bad
    obtain ⟨e, thrown⟩ : ∃ e, parseJsonAt s 0 = .error (.thrown e) := by
      rcases parseJsonAt_cases (s := s) with ⟨a', escapes', rest', read', hex, -⟩ | ⟨-, thrown⟩
      · rw [read] at read'
        cases read'
        exact absurd hex bad
      · exact thrown
    obtain ⟨a', is, parsed⟩ : ∃ a is, parseJsonStream { data := s, size } = .ok (a, is) := by
      rcases parseJsonStream_cases size with ⟨a', _, _, is, -, parsed, -⟩ | ⟨none, -⟩
      · exact ⟨a', is, parsed⟩
      · exact absurd read (none a escapes rest)
    rcases agree with ⟨e', e'', thrown', -⟩ | ⟨a'', is', pos, -, parsed', -⟩
    · rw [parsed] at thrown'
      cases thrown'
    · rw [thrown] at parsed'
      cases parsed'
  · intro hex
    refine ⟨_, rfl, ?_⟩
    rcases parseJsonStream_cases size with ⟨a, escapes, rest, is, read, parsed, pos⟩ |
        ⟨none, e, thrown⟩
    · rcases parseJsonAt_cases (s := s) with ⟨a', escapes', rest', read', -, parsed'⟩ | ⟨bad, -⟩
      · rw [read] at read'
        cases read'
        exact .inr ⟨a, is, _, parsed, parsed', pos⟩
      · exact absurd (hex a escapes rest read) (bad a escapes rest read)
    · rcases parseJsonAt_cases (s := s) with ⟨a, escapes, rest, read, -⟩ | ⟨-, e', thrown'⟩
      · exact absurd read (none a escapes rest)
      · exact .inl ⟨e, e', thrown, thrown'⟩

/-- A document with an escape and bytes behind it. -/
theorem parsersAgree_iff_escape :
    ([34, 92, 117, 48, 48, 65, 57, 34, 120] : List UInt8).length < 2 ^ 32 ∧
      ParsersAgree [34, 92, 117, 48, 48, 65, 57, 34, 120] := by
  refine ⟨by decide, (parsersAgree_iff (by decide)).mpr ⟨by decide, ?_⟩⟩
  have read : document [34, 92, 117, 48, 48, 65, 57, 34, 120] =
      .ok (.string [194, 169], [[48, 48, 65, 57]], [120]) := rfl
  intro a escapes rest read'
  cases read.symm.trans read'
  decide +kernel

/-- The stream parser takes `"\uzzzz"` for a string, and the string parser throws. -/
theorem not_parsersAgree_loose : ¬ParsersAgree [34, 92, 117, 122, 122, 122, 122, 34] := by
  rw [ParsersAgree, ofString_of_lt (by decide)]
  have refused : (match parseJsonAt [34, 92, 117, 122, 122, 122, 122, 34] 0 with
      | .ok _ => false
      | .error _ => true) = true := by decide +kernel
  have accepted : (match parseJsonStream
        { data := [34, 92, 117, 122, 122, 122, 122, 34], size := by decide } with
      | .ok _ => true
      | .error _ => false) = true := by decide +kernel
  rintro ⟨_, ⟨⟩, ⟨e, e', thrown, -⟩ | ⟨a, is, pos, -, parsed, -⟩⟩
  · rw [thrown] at accepted
    cases accepted
  · rw [parsed] at refused
    cases refused

end Agreement

end AgentEngine.Json
