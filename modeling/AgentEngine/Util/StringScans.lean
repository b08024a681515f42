import AgentEngine.Lib.CString
import AgentEngine.Lib.Loops
import AgentEngine.Lib.Pieces
import Mathlib.Data.List.DropRight

/-!
Splitting and replacing: `StringUtil` (`string_util.cc`), `StringTokenizer` and the functions of
`legacy/string_conversion.cpp`. All of them scan a text for a string and stop at its first occurrence
behind the last one.

* `split_agrees`, `replace_agrees`: the versions do the same.
* `ends_iff`: the loops of three of them do not end for the empty string.
-/

namespace AgentEngine.Util

open Lib List

/-- `str.find(sub, pos)`; `none` is `npos`. -/
def find (str sub : List UInt8) (pos : Nat) : Option Nat :=
  (List.range (str.length + 1)).find? fun k => pos ≤ k ∧ sub <+: str.drop k

/-- `str.substr(start, stop - start)`. -/
def substr (str : List UInt8) (start stop : Nat) : List UInt8 := (str.drop start).take (stop - start)

/-- A round of the loops of `Split`, `Tokenize` and `ReplaceString`: from `old` to the next
separator, or to the end. -/
def scanRound {β : Type} (str sep : List UInt8) (piece last : Nat → Nat → β → β) :
    Nat × β → Round (Nat × β) β
  | (old, out) =>
      match find str sep old with
      | some n => .again (n + sep.length, piece old n out)
      | none => .leave (last old str.length out)

def Split (text sepStr : List UInt8) (ignoreEmpty : Bool) : List (List UInt8) → Prop :=
  let push old n vec := vec ++ [substr text old n]
  Returns (scanRound text sepStr
    (fun old n vec => if !ignoreEmpty || n ≠ old then push old n vec else vec)
    (fun old n vec => if !ignoreEmpty || old < n then push old n vec else vec)) (0, [])

def Join (array : List (List UInt8)) (seperator : List UInt8) : List UInt8 :=
  match array with
  | [] => []
  | [s] => s
  | s :: array => s ++ seperator ++ Join array seperator

def kTokenIgnoreEmpty : BitVec 32 := 1
def kTokenTrim : BitVec 32 := 2
def kTokenLeaveAs : BitVec 32 := 4

/-- `StringTokenizer::IsSpace`, for a signed character. -/
def isSpace (ch : UInt8) : Bool := ch < 128 && isspace ch

def addToken (token : List UInt8) (opt : BitVec 32) (target : List (List UInt8)) :
    List (List UInt8) :=
  if opt &&& kTokenLeaveAs ≠ 0 then
    if opt &&& kTokenIgnoreEmpty = 0 then target ++ [token]
    else if 0 < token.length then target ++ [token]
    else target
  else if opt &&& kTokenTrim ≠ 0 then
    let trimmed := (token.dropWhile isSpace).rdropWhile isSpace
    if 0 < trimmed.length then target ++ [trimmed]
    else if opt &&& kTokenIgnoreEmpty = 0 then target ++ [[]]
    else target
  else if 0 < token.length then target ++ [token]
  else target

def Tokenize (str sep : List UInt8) (opt : BitVec 32) : List (List UInt8) → Prop :=
  Returns (scanRound str sep
    (fun old n => addToken (if n ≠ old then substr str old n else []) opt)
    (fun old n => addToken (substr str old n) opt)) (0, [])

/-- A round of the loop of `StringSpliter`, and what is behind it. -/
def spliterRound (str delim : List UInt8) :
    Nat × List (List UInt8) → Round (Nat × List (List UInt8)) (List (List UInt8))
  | (pos, v) =>
      if pos ≤ str.length - delim.length then
        let pos2 := (find str delim pos).getD str.length
        .again (pos2 + delim.length, if pos2 ≠ pos then v ++ [substr str pos pos2] else v)
      else .leave (if pos < str.length then v ++ [str.drop pos] else v)

def StringSpliter (str delim : List UInt8) (v : List (List UInt8)) : Prop :=
  if str = [] then v = []
  else if delim = [] then v = [str]
  else if str.length < delim.length then v = [str]
  else Returns (spliterRound str delim) (0, []) v

/-- A round of the loop of `ReplaceAll`, with the search before it. -/
def replaceRound (oldStr newStr : List UInt8) :
    List UInt8 × Nat → Round (List UInt8 × Nat) (List UInt8)
  | (str, pos) =>
      match find str oldStr pos with
      | some pos =>
          .again (str.take pos ++ newStr ++ str.drop (pos + oldStr.length), pos + newStr.length)
      | none => .leave str

def ReplaceAll (str oldStr newStr : List UInt8) : List UInt8 → Prop :=
  Returns (replaceRound oldStr newStr) (str, 0)

/-- `ReplaceString`; `none` is the exception. -/
def ReplaceString (originString oldValue newValue : List UInt8) : Option (List UInt8) → Prop
  | none => oldValue = []
  | some s => oldValue ≠ [] ∧ Returns (scanRound originString oldValue
      (fun previous pos s =>
        (if previous < pos then s ++ substr originString previous pos else s) ++ newValue)
      (fun previous length s =>
        if previous + 1 ≤ length then s ++ originString.drop previous else s)) (0, []) s

/-! ### What the searches find -/

variable {text done p rest sep : List UInt8} {ps : List (List UInt8)}

/-- The text behind the place that is reached holds no separator. -/
theorem find_eq_none (here : done ++ rest = text) (absent : ¬ sep <:+: rest) :
    find text sep done.length = none := by
  simp only [find, find?_range_eq_none, Bool.not_eq_true', decide_eq_false_iff_not, ← here]
  rintro k - ⟨behind, back, at'⟩
  refine absent ⟨rest.take (k - done.length), back, ?_⟩
  rw [append_assoc, at', drop_append, drop_eq_nil_of_le behind, nil_append, take_append_drop]

theorem find_eq_some (here : done ++ (p ++ (sep ++ rest)) = text)
    (first : ∀ k < p.length, ¬ sep <+: (p ++ (sep ++ rest)).drop k) :
    find text sep done.length = some (done.length + p.length) := by
  simp only [find, find?_range_eq_some, decide_eq_true_eq, Bool.not_eq_true',
    decide_eq_false_iff_not, ← here]
  refine ⟨⟨Nat.le_add_right _ _, ?_⟩, ?_, ?_⟩
  · simp
  · simp
  · rintro k before ⟨behind, occurs⟩
    rw [drop_append, drop_eq_nil_of_le behind, nil_append] at occurs
    exact first (k - done.length) (by omega) occurs

theorem find_nil {pos : Nat} (inside : pos ≤ text.length) : find text [] pos = some pos := by
  rw [find, find?_range_eq_some]
  simp
  omega

theorem length_substr {start stop : Nat} (inside : stop ≤ text.length) :
    (substr text start stop).length = stop - start := by
  simp [substr]
  omega

theorem substr_append (here : done ++ (p ++ rest) = text) :
    substr text done.length (done.length + p.length) = p := by
  simp [substr, ← here]

theorem substr_rest (here : done ++ rest = text) : substr text done.length text.length = rest := by
  simp [substr, ← here]

/-! ### What the loops return -/

theorem scan_returns {β : Type} {piece last : Nat → Nat → β → β} {F : β → List (List UInt8) → β}
    (atLast : ∀ old ≤ text.length, ∀ out,
      last old text.length out = F out [substr text old text.length])
    (atCut : ∀ old n, old ≤ n → n ≤ text.length → ∀ out ps, ps ≠ [] →
      F (piece old n out) ps = F out (substr text old n :: ps))
    (h : Pieces sep rest ps) (done : List UInt8) (here : done ++ rest = text) (out : β) :
    Returns (scanRound text sep piece last) (done.length, out) (F out ps) := by
  induction h generalizing done out with
  | @last rest absent =>
    have inside : done.length ≤ text.length := by simp [← here]
    apply Returns.leave
    rw [scanRound, find_eq_none here absent, atLast _ inside, substr_rest here]
  | @cut p rest ps first more ih =>
    have inside : done.length + p.length ≤ text.length := by simp [← here]
    have next := ih (done ++ p ++ sep) (by simp [← here])
      (piece done.length (done.length + p.length) out)
    rw [atCut _ _ (Nat.le_add_right _ _) inside _ _ more.ne_nil, substr_append here] at next
    refine Returns.again ?_ next
    rw [scanRound, find_eq_some here first]
    simp [Nat.add_assoc]

/-- Every piece is added in the same way. -/
theorem scan_foldl {piece last : Nat → Nat → List (List UInt8) → List (List UInt8)}
    {add : List (List UInt8) → List UInt8 → List (List UInt8)}
    (adds : ∀ old n, old ≤ n → n ≤ text.length → ∀ vec,
      piece old n vec = add vec (substr text old n) ∧ last old n vec = add vec (substr text old n))
    (h : Pieces sep text ps) : Returns (scanRound text sep piece last) (0, []) (ps.foldl add []) := by
  refine scan_returns (F := fun vec ps => ps.foldl add vec) ?_ ?_ h [] (nil_append text) []
  · intro old inside vec
    exact (adds old text.length inside (Nat.le_refl _) vec).2
  · intro old n le inside vec ps _
    rw [(adds old n le inside vec).1]
    rfl

theorem foldl_keep (keep : List UInt8 → Bool) (vec : List (List UInt8)) :
    ps.foldl (fun vec p => if keep p then vec ++ [p] else vec) vec = vec ++ ps.filter keep := by
  induction ps generalizing vec with
  | nil => exact (append_nil vec).symm
  | cons p ps ih =>
    rw [foldl_cons, ih, filter_cons]
    split_ifs <;> simp

theorem split_returns (ignoreEmpty : Bool) (h : Pieces sep text ps) :
    Split text sep ignoreEmpty (ps.filter fun p => !ignoreEmpty || p ≠ []) := by
  rw [← nil_append (ps.filter _), ← foldl_keep]
  refine scan_foldl ?_ h
  intro old n le inside vec
  have empty : substr text old n = [] ↔ n = old := by
    rw [← length_eq_zero_iff, length_substr inside]
    omega
  have before : old < n ↔ n ≠ old := by omega
  simp only [empty, before, ne_eq, and_self]

theorem tokenize_returns (opt : BitVec 32) (h : Pieces sep text ps) :
    Tokenize text sep opt (ps.foldl (fun target token => addToken token opt target) []) := by
  refine scan_foldl ?_ h
  intro old n le inside vec
  have part : (if n ≠ old then substr text old n else []) = substr text old n := by
    split_ifs with some_
    · rfl
    · rw [not_not.mp some_]
      simp [substr]
  simp only [part, and_self]

theorem tokenize_filter {opt : BitVec 32} (keep : List UInt8 → Bool)
    (adds : (fun vec p => addToken p opt vec) = fun vec p => if keep p then vec ++ [p] else vec)
    (h : Pieces sep text ps) : Tokenize text sep opt (ps.filter keep) := by
  have tokens := tokenize_returns opt h
  rwa [adds, foldl_keep, nil_append] at tokens

theorem replaceString_returns (new : List UInt8) (ne : sep ≠ []) (h : Pieces sep text ps) :
    ReplaceString text sep new (some (new.intercalate ps)) := by
  refine ⟨ne, ?_⟩
  refine scan_returns (F := fun s ps => s ++ new.intercalate ps) ?_ ?_ h [] (nil_append text) []
  · intro old inside s
    split_ifs with more
    · simp [substr]
    · simp [substr, show old = text.length by omega]
  · intro old n le inside s ps some_
    rw [intercalate_cons_of_ne_nil some_]
    split_ifs with more
    · simp
    · simp [substr, show old = n by omega]

theorem replaceAll_returns (new : List UInt8) (h : Pieces sep rest ps) (done : List UInt8) :
    Returns (replaceRound sep new) (done ++ rest, done.length) (done ++ new.intercalate ps) := by
  induction h generalizing done with
  | last absent =>
    apply Returns.leave
    rw [replaceRound, find_eq_none rfl absent, intercalate_singleton]
  | @cut p rest ps first more ih =>
    have next := ih (done ++ p ++ new)
    rw [intercalate_cons_of_ne_nil more.ne_nil]
    simp only [append_assoc] at next ⊢
    have front : (done ++ (p ++ (sep ++ rest))).take (done.length + p.length) = done ++ p := by
      rw [← append_assoc, ← length_append, take_left]
    refine Returns.again ?_ next
    rw [replaceRound, find_eq_some rfl first]
    simp [front, Nat.add_assoc]

theorem spliter_returns (ne : sep ≠ []) (fits : sep.length ≤ text.length) (h : Pieces sep rest ps)
    (done : List UInt8) (here : done ++ rest = text) (v : List (List UInt8)) :
    Returns (spliterRound text sep) (done.length, v) (v ++ ps.filter (· ≠ [])) := by
  have some_ := length_pos_iff.mpr ne
  induction h generalizing done v with
  | @last rest absent =>
    have size : done.length + rest.length = text.length := by simp [← here]
    by_cases more : done.length ≤ text.length - sep.length
    · have rest_ne : rest ≠ [] := by
        rw [← length_pos_iff]
        omega
      apply Returns.again
      · rw [spliterRound, if_pos more, find_eq_none here absent]
      · apply Returns.leave
        rw [spliterRound, if_neg (by simp; omega), if_neg (by simp)]
        simp [substr_rest here, rest_ne, show ¬ text.length = done.length by omega]
    · apply Returns.leave
      rw [spliterRound, if_neg more]
      have whole : text.drop done.length = rest := by simp [← here]
      by_cases empty : rest = []
      · simp [empty, ← here]
      · have := length_pos_iff.mpr empty
        rw [if_pos (by omega), whole]
        simp [empty]
  | @cut p rest ps first more ih =>
    have size := congrArg length here
    simp only [length_append] at size
    apply Returns.again
    · rw [spliterRound, if_pos (by omega), find_eq_some here first]
    · have next := ih (done ++ p ++ sep) (by simp [← here])
        (if done.length + p.length ≠ done.length then v ++ [p] else v)
      simp only [Option.getD_some, substr_append here]
      by_cases empty : p = []
      · simpa [empty] using next
      · simpa [empty, Nat.add_assoc] using next

theorem stringSpliter_returns (ne : sep ≠ []) (h : Pieces sep text ps) :
    StringSpliter text sep (ps.filter (· ≠ [])) := by
  unfold StringSpliter
  split_ifs with empty short
  · rw [h.eq_singleton (by simpa [empty] using length_pos_iff.mpr ne), empty]
    rfl
  · simp [h.eq_singleton short, empty]
  · simpa using spliter_returns ne (Nat.le_of_not_lt short) h [] (nil_append text) []

theorem not_returns_scan {β : Type} (piece last : Nat → Nat → β → β) (out : β) (r : β) :
    ¬ Returns (scanRound text [] piece last) (0, out) r := by
  apply not_returns (I := fun s => s.1 ≤ text.length) _ (Nat.zero_le _)
  rintro ⟨old, out⟩ inside
  refine ⟨(old, piece old old out), ?_, inside⟩
  rw [scanRound, find_nil inside]
  rfl

theorem not_returns_replace (str new r : List UInt8) :
    ¬ Returns (replaceRound [] new) (str, 0) r := by
  apply not_returns (I := fun s => s.2 ≤ s.1.length) _ (Nat.zero_le _)
  rintro ⟨str, pos⟩ inside
  refine ⟨_, by rw [replaceRound, find_nil inside], ?_⟩
  simp only [length_append, length_take, length_drop] at inside ⊢
  omega

theorem join_eq_intercalate : Join ps sep = sep.intercalate ps := by
  fun_induction Join ps sep with
  | case1 => rfl
  | case2 => exact intercalate_singleton.symm
  | case3 s array some_ ih =>
    rw [ih, intercalate_cons_of_ne_nil fun none_ => some_ (by rw [none_])]

/-- All ways of splitting a text agree, but for the empty pieces. -/
theorem split_agrees (text sep : List UInt8) (ne : sep ≠ []) :
    ∃ pieces, Split text sep false pieces ∧ Join pieces sep = text ∧
      (∀ p ∈ pieces, ¬ sep <:+: p) ∧ Tokenize text sep kTokenLeaveAs pieces ∧
      let filled := pieces.filter (· ≠ [])
      Split text sep true filled ∧ Tokenize text sep kTokenIgnoreEmpty filled ∧
        StringSpliter text sep filled := by
  obtain ⟨ps, h⟩ := exists_pieces ne text
  refine ⟨ps, ?_, join_eq_intercalate.trans h.intercalate_eq, h.not_infix ne, ?_, ?_, ?_,
    stringSpliter_returns ne h⟩
  · simpa using split_returns false h
  · simpa using tokenize_filter (fun _ => true) rfl h
  · simpa using split_returns true h
  · apply tokenize_filter _ _ h
    simp [addToken, kTokenIgnoreEmpty, kTokenLeaveAs, kTokenTrim, length_pos_iff]

theorem split_agrees_overlapping : ∃ pieces, Split (ascii "aaa") (ascii "aa") false pieces ∧
    Join pieces (ascii "aa") = ascii "aaa" := by
  obtain ⟨pieces, returned, joined, -⟩ := split_agrees (ascii "aaa") (ascii "aa") (by decide)
  exact ⟨pieces, returned, joined⟩

/-- Both ways of replacing replace the same occurrences. -/
theorem replace_agrees (text oldStr newStr : List UInt8) (ne : oldStr ≠ []) :
    ∃ pieces, Pieces oldStr text pieces ∧ ReplaceAll text oldStr newStr (newStr.intercalate pieces) ∧
      ReplaceString text oldStr newStr (some (newStr.intercalate pieces)) := by
  obtain ⟨ps, h⟩ := exists_pieces ne text
  exact ⟨ps, h, replaceAll_returns newStr h [], replaceString_returns newStr ne h⟩

theorem replace_agrees_growing : ∃ r, ReplaceAll (ascii "aab") (ascii "a") (ascii "aa") r ∧
    ReplaceString (ascii "aab") (ascii "a") (ascii "aa") (some r) := by
  obtain ⟨_, -, agree⟩ := replace_agrees (ascii "aab") (ascii "a") (ascii "aa") (by decide)
  exact ⟨_, agree⟩

/-- An empty separator is found wherever it is looked for. -/
theorem ends_iff (text sep oldStr newStr : List UInt8) (ignoreEmpty : Bool) (opt : BitVec 32) :
    ((∃ vec, Split text sep ignoreEmpty vec) ↔ sep ≠ []) ∧
    ((∃ results, Tokenize text sep opt results) ↔ sep ≠ []) ∧
    ((∃ str, ReplaceAll text oldStr newStr str) ↔ oldStr ≠ []) ∧
    (∃ v, StringSpliter text sep v) ∧ ∃ s, ReplaceString text oldStr newStr s := by
  have some_ {sep : List UInt8} (ne : sep ≠ []) := exists_pieces ne text
  refine ⟨⟨?_, fun ne => ?_⟩, ⟨?_, fun ne => ?_⟩, ⟨?_, fun ne => ?_⟩, ?_, ?_⟩
  · rintro ⟨vec, returned⟩ rfl
    exact not_returns_scan _ _ _ _ returned
  · exact (some_ ne).imp' _ fun _ => split_returns ignoreEmpty
  · rintro ⟨results, returned⟩ rfl
    exact not_returns_scan _ _ _ _ returned
  · exact (some_ ne).imp' _ fun _ => tokenize_returns opt
  · rintro ⟨str, returned⟩ rfl
    exact not_returns_replace _ _ _ returned
  · exact (some_ ne).imp' _ fun _ h => replaceAll_returns newStr h []
  · by_cases empty : sep = []
    · by_cases none_ : text = []
      · exact ⟨[], by simp [StringSpliter, none_]⟩
      · exact ⟨[text], by simp [StringSpliter, none_, empty]⟩
    · exact (some_ empty).imp' _ fun _ => stringSpliter_returns empty
  · by_cases empty : oldStr = []
    · exact ⟨none, empty⟩
    · exact (some_ empty).imp' _ fun _ => replaceString_returns newStr empty

theorem split_endless : ¬ ∃ vec, Split (ascii "a") [] true vec := by
  rintro ⟨vec, returned⟩
  exact not_returns_scan _ _ _ _ returned

end AgentEngine.Util
