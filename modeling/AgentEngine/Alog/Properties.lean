import AgentEngine.Lib.CString
import AgentEngine.Lib.SortedMap

/-!
Configuration texts: `StringUtil`, and `Properties` with how it is loaded (`StringUtil.h`,
`Properties.cpp`).

A property map is ordered by the bytes of its keys. The variables of the environment are a
parameter.
-/

namespace AgentEngine.Alog

open Lib List

namespace StringUtil

/-- The blanks that `Trim` takes off. -/
def isBlank (c : UInt8) : Bool := c = 32 || c = 9 || c = 13 || c = 10

def trim (s : List UInt8) : List UInt8 :=
  ((s.dropWhile isBlank).reverse.dropWhile isBlank).reverse

/-- `Split` behind a part that has been read; the last part is dropped if it is empty. -/
def splitFrom (delimiter : UInt8) (part : List UInt8) : List UInt8 → List (List UInt8)
  | [] => if part = [] then [] else [part]
  | c :: s =>
      if c = delimiter then part :: splitFrom delimiter [] s
      else splitFrom delimiter (part ++ [c]) s

def split (s : List UInt8) (delimiter : UInt8) : List (List UInt8) := splitFrom delimiter [] s

variable {delimiter : UInt8} {s : List UInt8}

theorem splitFrom_append (free : delimiter ∉ s) (part rest : List UInt8) :
    splitFrom delimiter part (s ++ rest) = splitFrom delimiter (part ++ s) rest := by
  induction s generalizing part with
  | nil => rw [nil_append, append_nil]
  | cons c s ih =>
    have other : c ≠ delimiter := fun e => free (e ▸ mem_cons_self)
    rw [cons_append, splitFrom, if_neg other, ih fun mem => free (mem_cons_of_mem c mem),
      append_assoc, singleton_append]

theorem split_part (free : delimiter ∉ s)
    (rest : List UInt8) : split (s ++ delimiter :: rest) delimiter = s :: split rest delimiter := by
  rw [split, splitFrom_append free, nil_append, splitFrom, if_pos rfl, split]

theorem split_last (free : delimiter ∉ s) (ne : s ≠ []) : split s delimiter = [s] := by
  have whole := splitFrom_append free [] []
  rw [append_nil, nil_append] at whole
  rw [split, whole, splitFrom, if_neg ne]

theorem splitFrom_ne_nil {part s : List UInt8} (ne : part ++ s ≠ []) :
    splitFrom delimiter part s ≠ [] := by
  induction s generalizing part with
  | nil =>
    rw [append_nil] at ne
    rw [splitFrom, if_neg ne]
    exact cons_ne_nil _ _
  | cons c s ih =>
    unfold splitFrom
    split_ifs
    · exact cons_ne_nil _ _
    · exact ih (by simp)

theorem split_eq_nil : split s delimiter = [] ↔ s = [] := by
  constructor
  · intro none
    by_contra ne
    exact splitFrom_ne_nil (by simpa using ne) none
  · rintro rfl
    rfl

end StringUtil

/-- `std::string` compares bytes. -/
def byteOrder (s : List UInt8) : List Nat := s.map UInt8.toNat

abbrev Properties := SortedMap (List UInt8) (List UInt8) byteOrder

theorem byteOrder_inj {s t : List UInt8} : byteOrder s = byteOrder t ↔ s = t :=
  ⟨fun same => map_injective_iff.mpr (fun _ _ => UInt8.toNat_inj.mp) same, congrArg _⟩

theorem byteOrder_append (s t : List UInt8) : byteOrder (s ++ t) = byteOrder s ++ byteOrder t :=
  map_append

/-- What the order says about two strings with a common prefix is about what follows it. -/
theorem byteOrder_append_lt {s t u : List UInt8} :
    byteOrder (s ++ t) < byteOrder (s ++ u) ↔ byteOrder t < byteOrder u := by
  rw [byteOrder_append, byteOrder_append, append_lt_append_iff]

theorem byteOrder_nil_lt {s : List UInt8} (ne : s ≠ []) : byteOrder [] < byteOrder s := by
  obtain ⟨c, s, rfl⟩ := exists_cons_of_ne_nil ne
  exact nil_lt_cons _ _

/-- What lies between a string and an extension of it extends the string, too. -/
theorem exists_append_of_between {s t u : List UInt8} (low : byteOrder s ≤ byteOrder t)
    (high : byteOrder t < byteOrder (s ++ u)) : ∃ rest, t = s ++ rest := by
  rw [byteOrder_append] at high
  obtain ⟨rest, split⟩ := prefix_of_between low high
  obtain ⟨s', rest', rfl, same, -⟩ := map_eq_append_iff.mp split.symm
  exact ⟨rest', by rw [byteOrder_inj.mp same]⟩

theorem byteOrder_cons_lt {c d : UInt8} {s t : List UInt8} :
    byteOrder (c :: s) < byteOrder (d :: t) ↔ c < d ∨ c = d ∧ byteOrder s < byteOrder t := by
  simp only [byteOrder, map_cons, cons_lt_cons_iff, UInt8.toNat_inj, UInt8.lt_iff_toNat_lt]

namespace Properties

variable (p : Properties)

def getInt (property : List UInt8) (defaultValue : BitVec 32) : BitVec 32 :=
  match p.find property with
  | some value => atoi value
  | none => defaultValue

def getBool (property : List UInt8) (defaultValue : Bool) : Bool :=
  match p.find property with
  | some value => value = ascii "true"
  | none => defaultValue

def getString (property defaultValue : List UInt8) : List UInt8 :=
  (p.find property).getD defaultValue

/-! ### Loading -/

/-- What stands before the first `${` and after it. -/
def cutOpen : List UInt8 → Option (List UInt8 × List UInt8)
  | 36 :: 123 :: rest => some ([], rest)
  | c :: rest => (cutOpen rest).map fun (before, after) => (c :: before, after)
  | [] => none

/-- What stands before the first `}` and after it. -/
def cutClose : List UInt8 → Option (List UInt8 × List UInt8)
  | [] => none
  | c :: rest =>
      if c = 125 then some ([], rest)
      else (cutClose rest).map fun (before, after) => (c :: before, after)

/-- `_substituteVariables`: a variable is one of the environment or an earlier property. Each
round takes more than two bytes, so that there are fewer of them than bytes. -/
def substituteVariables (getenv : List UInt8 → Option (List UInt8)) (p : Properties) :
    (rounds : Nat) → List UInt8 → List UInt8
  | 0, value => value
  | rounds + 1, value =>
      match cutOpen value with
      | none => value
      | some (before, after) =>
          match cutClose after with
          | none => before ++ [36, 123] ++ after
          | some (key, rest) =>
              let expansion :=
                if key = [36, 123] then [36, 123]
                else (getenv key).getD ((p.find key).getD [])
              before ++ expansion ++ substituteVariables getenv p rounds rest

/-- One line of a configuration. -/
def loadLine (getenv : List UInt8 → Option (List UInt8)) (p : Properties) (line : List UInt8) :
    Properties :=
  -- the string ends at the first NUL of the buffer
  let command := (cstr line).takeWhile (· ≠ 35)
  if 61 ∈ command then
    let leftSide := StringUtil.trim (command.takeWhile (· ≠ 61))
    let rightSide := StringUtil.trim (command.dropWhile (· ≠ 61)).tail
    let rightSide := substituteVariables getenv p (rightSide.length + 1) rightSide
    -- strip off the "alog"; without a dot behind it there is nothing to strip
    let leftSide :=
      if leftSide.takeWhile (· ≠ 46) = ascii "alog" ∧ 46 ∈ leftSide then
        (leftSide.dropWhile (· ≠ 46)).tail
      else leftSide
    p.insert leftSide rightSide
  else p

/-- The lines that `getline` reads into a buffer of 1024 bytes: it fails at a longer one. -/
def lines (part : List UInt8) : List UInt8 → List (List UInt8)
  | [] => if part = [] ∨ 1024 ≤ part.length then [] else [part]
  | c :: text =>
      if c = 10 then if 1024 ≤ part.length then [] else part :: lines [] text
      else lines (part ++ [c]) text

def load (getenv : List UInt8 → Option (List UInt8)) (text : List UInt8) : Properties :=
  (lines [] text).foldl (loadLine getenv) {}

/-! ### Keys of a group -/

/-- The entries from `lower_bound(group + '.')` to `lower_bound(group + ('.' + 1))`. -/
def group (name : List UInt8) : List (List UInt8 × List UInt8) :=
  p.entries.filter fun e =>
    byteOrder (name ++ [46]) ≤ byteOrder e.1 ∧ byteOrder e.1 < byteOrder (name ++ [47])

/-- They are those whose keys begin with the group and a dot. -/
theorem mem_group {p : Properties} {name : List UInt8} {e : List UInt8 × List UInt8} :
    e ∈ p.group name ↔ e ∈ p.entries ∧ ∃ rest, e.1 = name ++ 46 :: rest := by
  unfold group
  rw [mem_filter, decide_eq_true_iff]
  refine and_congr_right fun _ => ?_
  constructor
  · rintro ⟨low, high⟩
    have above : byteOrder name ≤ byteOrder e.1 := by
      refine le_trans (le_of_lt ?_) low
      rw [byteOrder_append]
      exact lt_append_of_ne_nil _ (by decide)
    obtain ⟨rest, split⟩ := exists_append_of_between above high
    rw [split, byteOrder_append_lt] at high
    rw [split, ← not_lt, byteOrder_append_lt] at low
    cases rest with
    | nil => exact absurd (nil_lt_cons _ _) low
    | cons c rest =>
      rw [byteOrder_cons_lt] at high low
      have here : c = 46 := by
        rcases high with less | ⟨-, less⟩
        · have notLess : ¬ c < 46 := fun lt => low (.inl lt)
          rw [UInt8.lt_iff_toNat_lt] at less notLess
          apply UInt8.toNat_inj.mp
          change c.toNat = 46
          change c.toNat < 47 at less
          change ¬ c.toNat < 46 at notLess
          omega
        · exact absurd less (not_lt_nil _)
      exact ⟨rest, by rw [split, here]⟩
  · rintro ⟨rest, split⟩
    rw [split, ← not_lt, byteOrder_append_lt, byteOrder_append_lt, byteOrder_cons_lt,
      byteOrder_cons_lt]
    refine ⟨?_, .inl (by decide)⟩
    rintro (less | ⟨-, less⟩)
    · exact absurd less (by decide)
    · exact absurd less (not_lt_nil _)

end Properties

end AgentEngine.Alog
