import AgentEngine.Alog.Properties

/-!
What the texts of a configuration come to: the segments of `Split` (`StringUtil.h`), and the lines
that `Properties::load` keeps.

* `keepsContract_iff`: the segments and their number are as the header has them, except behind a
  delimiter at the end.
* `keepsLines_iff`: each key has the value of its first line, unless a line up to there is too long
  for the buffer, or this one has a NUL in it.
-/

namespace AgentEngine.Alog

open Lib List

namespace StringUtil

/-- `Split` from its segment `i` on, where `more` segments may follow that one. -/
def splitSegments (delimiter : UInt8) : (more i : Nat) → List UInt8 → List (List UInt8) × Nat
  | 0, i, rest => (if rest = [] then [] else [rest], i)
  | more + 1, i, rest =>
      if delimiter ∈ rest then
        let (segments, count) :=
          splitSegments delimiter more (i + 1) (rest.dropWhile (· ≠ delimiter)).tail
        (rest.takeWhile (· ≠ delimiter) :: segments, count)
      else (if rest = [] then [] else [rest], i)

variable (s : List UInt8) (delimiter : UInt8) (maxSegments : BitVec 32)

/-- `Split`: the segments that are assigned, and the number that is returned. -/
def Split : List (List UInt8) × Nat :=
  splitSegments delimiter (maxSegments.toNat - 1) 1 s

/-- What the header says of `Split`. -/
def KeepsContract : Prop :=
  let (segments, count) := Split s delimiter maxSegments
  count = segments.length ∧ count ≤ maxSegments.toNat ∧
    (∀ segment ∈ segments.dropLast, delimiter ∉ segment) ∧
    [delimiter].intercalate segments = s

instance : Decidable (KeepsContract s delimiter maxSegments) :=
  inferInstanceAs (Decidable (_ ∧ _ ∧ _ ∧ _))

variable {s delimiter maxSegments}

/-- With a limit that is not reached, the segments are those of `split`. -/
theorem splitSegments_eq_split {more : Nat} (i : Nat) (few : s.count delimiter ≤ more) :
    (splitSegments delimiter more i s).1 = split s delimiter := by
  have last {s : List UInt8} (free : delimiter ∉ s) :
      (if s = [] then [] else [s]) = split s delimiter := by
    split_ifs with empty
    · rw [empty]
      rfl
    · exact (split_last free empty).symm
  induction more generalizing i s with
  | zero => exact last (count_eq_zero.mp (Nat.le_zero.mp few))
  | succ more ih =>
    unfold splitSegments
    by_cases mem : delimiter ∈ s
    · obtain ⟨part, rest, rfl, free⟩ := eq_append_cons_of_mem mem
      rw [count_append, count_eq_zero.mpr free, count_cons_self] at few
      rw [if_pos mem, (cut_append free rest).1, (cut_append free rest).2, tail_cons,
        split_part free rest]
      exact congrArg (part :: ·) (ih (i + 1) (by omega))
    · rw [if_neg mem]
      exact last mem

theorem split_eq_segments (few : s.count delimiter < maxSegments.toNat) :
    (Split s delimiter maxSegments).1 = split s delimiter :=
  splitSegments_eq_split 1 (by omega)

/-- The text is what the segments before the last one take, with the delimiters behind them, and
the last one, which is assigned if it is not empty. -/
theorem exists_segments (delimiter : UInt8) (more i : Nat) (s : List UInt8) :
    ∃ (front : List (List UInt8)) (done last : List UInt8),
      splitSegments delimiter more i s =
        (front ++ (if last = [] then [] else [last]), i + front.length) ∧
      s = done ++ last ∧ [delimiter].intercalate (front ++ [last]) = s ∧
      (∀ segment ∈ front, delimiter ∉ segment) ∧ front.length ≤ more ∧
      (front.length < more → delimiter ∉ last) ∧ done.count delimiter = front.length ∧
      (done ≠ [] → done.getLast? = some delimiter) := by
  induction more generalizing i s with
  | zero =>
    exact ⟨[], [], s, rfl, rfl, intercalate_singleton, by simp, le_rfl, by simp, rfl, by simp⟩
  | succ more ih =>
    unfold splitSegments
    by_cases mem : delimiter ∈ s
    · obtain ⟨part, rest, rfl, free⟩ := eq_append_cons_of_mem mem
      obtain ⟨front, done, last, segments, whole, joined, frees, few, stops, counts, ends⟩ :=
        ih (i + 1) rest
      refine ⟨part :: front, part ++ delimiter :: done, last, ?_, ?_, ?_, ?_, ?_, ?_, ?_, ?_⟩
      · rw [if_pos mem, (cut_append free rest).1, (cut_append free rest).2, tail_cons, segments]
        simp [add_assoc, add_comm 1]
      · simp [whole]
      · rw [cons_append, intercalate_cons_of_ne_nil (by simp), joined]
        simp
      · exact forall_mem_cons.mpr ⟨free, frees⟩
      · exact Nat.succ_le_succ few
      · exact fun lt => stops (Nat.lt_of_succ_lt_succ lt)
      · rw [count_append, count_eq_zero.mpr free, count_cons_self, counts]
        simp
      · intro _
        cases empty : done with
        | nil => simp
        | cons c rest' => simpa [empty] using ends (by simp [empty])
    · rw [if_neg mem]
      exact ⟨[], [], s, rfl, rfl, intercalate_singleton, by simp, Nat.zero_le _, fun _ => mem, rfl,
        by simp⟩

/-- An empty last segment is counted but not assigned. -/
theorem keepsContract_iff (pos : 1 ≤ maxSegments.toNat) : KeepsContract s delimiter maxSegments ↔
      s ≠ [] ∧ (s.getLast? = some delimiter → maxSegments.toNat ≤ s.count delimiter) := by
  obtain ⟨front, done, last, segments, whole, joined, frees, few, stops, counts, ends⟩ :=
    exists_segments delimiter (maxSegments.toNat - 1) 1 s
  rw [KeepsContract, Split, segments]
  have total : s.count delimiter = front.length + last.count delimiter := by
    rw [whole, count_append, counts]
  by_cases empty : last = []
  · -- the number is one more than there are segments
    rw [empty, append_nil] at whole
    refine iff_of_false ?_ ?_
    · rintro ⟨number, -⟩
      simp [empty] at number
    · rintro ⟨some_, trailing⟩
      have := trailing (by rw [whole]; exact ends (whole ▸ some_))
      rw [total, empty, count_nil] at this
      omega
  · refine iff_of_true ?_ ⟨by simp [whole, empty], ?_⟩
    · rw [if_neg empty]
      refine ⟨by simp [add_comm], by omega, ?_, joined⟩
      rwa [dropLast_concat]
    · intro trailing
      have mem : delimiter ∈ last := by
        rw [whole, getLast?_append_of_ne_nil _ empty] at trailing
        exact mem_of_getLast? trailing
      have := count_pos_iff.mpr mem
      have full : ¬ front.length < maxSegments.toNat - 1 := fun lt => stops lt mem
      omega

theorem keepsContract_iff_limited : KeepsContract (ascii "a,b,c,") 44 2 ↔
    ascii "a,b,c," ≠ [] ∧ ((ascii "a,b,c,").getLast? = some 44 →
      (2 : BitVec 32).toNat ≤ (ascii "a,b,c,").count 44) :=
  keepsContract_iff (by decide)

/-- With the default limit. -/
theorem not_keepsContract_trailing : ¬ KeepsContract (ascii "a,") 44 0x7fffffff := by
  decide +kernel

end StringUtil

namespace Properties

/-- A line of a text. -/
structure Line where
  bytes : List UInt8
  noFeed : 10 ∉ bytes

namespace Line

/-- The line as `load` sees it, which takes its buffer for a C string. -/
def seen (line : Line) : Line :=
  ⟨cstr line.bytes, fun mem => line.noFeed ((takeWhile_sublist _).mem mem)⟩

def keyOf (leftSide : List UInt8) : List UInt8 :=
  let leftSide := StringUtil.trim leftSide
  if ascii "alog." <+: leftSide then leftSide.drop 5 else leftSide

/-- The key and the value of a command, which has a `=`. -/
def entryOf (command : List UInt8) : Option (List UInt8 × List UInt8) :=
  if 61 ∈ command then
    some (keyOf (command.takeWhile (· ≠ 61)), StringUtil.trim (command.dropWhile (· ≠ 61)).tail)
  else none

/-- The entry of a line that has a `=` before any `#`. -/
def entry (line : Line) : Option (List UInt8 × List UInt8) :=
  entryOf (line.bytes.takeWhile (· ≠ 35))

/-- The line has an entry under the key. -/
def Keyed (line : Line) (key : List UInt8) : Prop := ∃ value, line.entry = some (key, value)

/-- The line fits into the buffer of `load`. -/
def Fits (line : Line) : Prop := line.bytes.length < 1024
deriving Decidable

end Line

/-- The text that is made of lines. -/
def text (lines : List Line) : List UInt8 := [10].intercalate (lines.map Line.bytes)

/-- The first line that has a key, with those before it. -/
structure First (lines : List Line) (key : List UInt8) (before : List Line) (line : Line) :
    Prop where
  split : ∃ after, lines = before ++ line :: after
  silent : ∀ l ∈ before, ¬ l.Keyed key

variable (getenv : List UInt8 → Option (List UInt8))

/-- `load` keeps the lines: under each key there is the value of the first line that has it, with
the variables replaced by what the lines before that one have left; there is nothing else. -/
def KeepsLines (lines : List Line) : Prop :=
  ∀ key, (∀ before line value, First lines key before line → line.entry = some (key, value) →
      (load getenv (text lines)).find key =
        some (substituteVariables getenv (load getenv (text before)) (value.length + 1) value)) ∧
    ((∀ line ∈ lines, ¬ line.Keyed key) → (load getenv (text lines)).find key = none)

/-! ### One line -/

/-- A name with a dot behind `alog` is one that begins with `alog.`. -/
theorem strip_alog (name : List UInt8) :
    (if name.takeWhile (· ≠ 46) = ascii "alog" ∧ 46 ∈ name then (name.dropWhile (· ≠ 46)).tail
      else name) = if ascii "alog." <+: name then name.drop 5 else name := by
  have dotted : ascii "alog." = ascii "alog" ++ [46] := by decide
  by_cases leading : ascii "alog." <+: name
  · rw [if_pos leading]
    obtain ⟨key, rfl⟩ := leading
    have free : 46 ∉ ascii "alog" := by decide
    have cut := cut_append free key
    rw [dotted, append_assoc, singleton_append, cut.1, cut.2, if_pos ⟨rfl, by simp⟩]
    rfl
  · rw [if_neg leading]
    refine if_neg ?_
    rintro ⟨first, dot⟩
    obtain ⟨part, rest, rfl, free⟩ := eq_append_cons_of_mem dot
    rw [(cut_append free rest).1] at first
    exact leading ⟨rest, by rw [dotted, ← first, append_assoc, singleton_append]⟩

theorem loadLine_eq (line : Line) (p : Properties) : loadLine getenv p line.bytes =
    match line.seen.entry with
    | some (key, value) => p.insert key (substituteVariables getenv p (value.length + 1) value)
    | none => p := by
  unfold loadLine Line.entry Line.entryOf Line.keyOf Line.seen
  simp only [strip_alog]
  split_ifs <;> rfl

variable {line : Line} {key value : List UInt8}

theorem find_loadLine (given : line.seen.entry = some (key, value)) (p : Properties) :
    (loadLine getenv p line.bytes).find key =
      some ((p.find key).getD (substituteVariables getenv p (value.length + 1) value)) := by
  rw [loadLine_eq, given]
  exact SortedMap.find_insert _

theorem find_loadLine_silent (silent : ¬ line.seen.Keyed key) (p : Properties) :
    (loadLine getenv p line.bytes).find key = p.find key := by
  rw [loadLine_eq]
  cases given : line.seen.entry with
  | none => rfl
  | some e =>
    refine SortedMap.find_insert_of_ne _ fun same => silent ⟨e.2, ?_⟩
    rw [given, ← byteOrder_inj.mp same]

/-! ### NUL -/

theorem mem_trim {c : UInt8} (solid : StringUtil.isBlank c = false) {s : List UInt8} :
    c ∈ StringUtil.trim s ↔ c ∈ s := by
  have kept : ∀ s : List UInt8, c ∈ s.dropWhile StringUtil.isBlank ↔ c ∈ s := by
    intro s
    refine ⟨(dropWhile_sublist _).mem, fun mem => ?_⟩
    rw [← takeWhile_append_dropWhile (p := StringUtil.isBlank) (l := s), mem_append] at mem
    refine mem.resolve_left fun blank => ?_
    rw [mem_takeWhile_imp blank] at solid
    cases solid
  rw [StringUtil.trim, mem_reverse, kept, mem_reverse, kept]

theorem nul_mem_keyOf (left : List UInt8) : 0 ∈ Line.keyOf left ↔ 0 ∈ left := by
  rw [Line.keyOf, ← mem_trim (by decide : StringUtil.isBlank 0 = false) (s := left)]
  split_ifs with leading
  · obtain ⟨key, trimmed⟩ := leading
    have free : 0 ∉ ascii "alog." := by decide
    rw [← trimmed, show (ascii "alog." ++ key).drop 5 = key from rfl, mem_append, or_iff_right free]
  · rfl

variable {left : List UInt8} (free : 61 ∉ left) (right : List UInt8)
include free

theorem entryOf_append :
    Line.entryOf (left ++ 61 :: right) = some (Line.keyOf left, StringUtil.trim right) := by
  rw [Line.entryOf, if_pos (by simp), (cut_append free right).1, (cut_append free right).2, tail_cons]

/-- A NUL before the `=` hides the entry, and one behind it cuts the value. -/
theorem entryOf_cstr_append : Line.entryOf (cstr (left ++ 61 :: right)) =
    if 0 ∈ left then none else some (Line.keyOf left, StringUtil.trim (cstr right)) := by
  split_ifs with nul
  · obtain ⟨start, rest, rfl, clean⟩ := eq_append_cons_of_mem nul
    rw [append_assoc, cons_append, cstr, (cut_append clean _).1]
    exact if_neg fun mem => free (mem_append_left _ mem)
  · have cut : cstr (left ++ 61 :: right) = left ++ 61 :: cstr right := by
      rw [cstr, takeWhile_append_of_pos fun c mem => decide_eq_true (ne_of_mem_of_not_mem mem nul)]
      rfl
    rw [cut, entryOf_append free]

omit free

/-- An entry that is seen has its own key, in which there is no NUL; one that is not seen has a NUL
in its key. -/
theorem seen_entry (line : Line) :
    match line.entry, line.seen.entry with
    | none, seen => seen = none
    | some (key, _), none => 0 ∈ key
    | some (key, _), some (key', _) => key' = key ∧ 0 ∉ key := by
  have command : line.seen.bytes.takeWhile (· ≠ 35) = cstr (line.bytes.takeWhile (· ≠ 35)) := by
    change (cstr line.bytes).takeWhile _ = _
    rw [cstr, cstr, takeWhile_takeWhile, takeWhile_takeWhile]
    simp only [and_comm]
  rw [Line.entry, Line.entry, command]
  generalize line.bytes.takeWhile (· ≠ 35) = command
  by_cases equals : 61 ∈ command
  · obtain ⟨left, right, rfl, free⟩ := eq_append_cons_of_mem equals
    rw [entryOf_append free, entryOf_cstr_append free]
    by_cases nul : 0 ∈ left
    · rw [if_pos nul]
      exact (nul_mem_keyOf left).mpr nul
    · rw [if_neg nul]
      exact ⟨rfl, (nul_mem_keyOf left).not.mpr nul⟩
  · have absent : 61 ∉ cstr command := fun mem => equals ((takeWhile_sublist _).mem mem)
    rw [Line.entryOf, if_neg equals, Line.entryOf, if_neg absent]

theorem keyed_of_seen (sees : line.seen.Keyed key) : line.Keyed key ∧ 0 ∉ key := by
  obtain ⟨value, sees⟩ := sees
  have spec := seen_entry line
  rw [sees] at spec
  cases given : line.entry with
  | none =>
    rw [given] at spec
    cases spec
  | some e =>
    rw [given] at spec
    obtain ⟨rfl, clean⟩ := spec
    exact ⟨⟨e.2, given⟩, clean⟩

/-! ### Whole texts -/

/-- The lines are loaded one after another. -/
def loadLines (p : Properties) (lines : List Line) : Properties :=
  lines.foldl (fun p line => loadLine getenv p line.bytes) p

variable {lines before : List Line}

theorem find_loadLines_silent (silent : ∀ line ∈ lines, ¬ line.seen.Keyed key) (p : Properties) :
    (loadLines getenv p lines).find key = p.find key := by
  induction lines generalizing p with
  | nil => rfl
  | cons line lines ih =>
    obtain ⟨here, later⟩ := forall_mem_cons.mp silent
    exact (ih later _).trans (find_loadLine_silent getenv here p)

theorem find_loadLines_some {p : Properties} (found : p.find key = some value) (lines : List Line) :
    (loadLines getenv p lines).find key = some value := by
  induction lines generalizing p with
  | nil => exact found
  | cons line lines ih =>
    apply ih
    by_cases keyed : line.seen.Keyed key
    · obtain ⟨value', given⟩ := keyed
      rw [find_loadLine getenv given, found, Option.getD_some]
    · rw [find_loadLine_silent getenv keyed, found]

/-- The first line that has a key decides, if its entry is seen. -/
theorem find_loadLines_first (first : First lines key before line)
    (given : line.seen.entry = some (key, value)) : (loadLines getenv {} lines).find key =
      some (substituteVariables getenv (loadLines getenv {} before) (value.length + 1) value) := by
  obtain ⟨⟨after, rfl⟩, silent⟩ := first
  have none := find_loadLines_silent getenv (fun l mem sees => silent l mem (keyed_of_seen sees).1) {}
  rw [loadLines, foldl_append, foldl_cons]
  apply find_loadLines_some
  rw [find_loadLine getenv given]
  change some (((loadLines getenv {} before).find key).getD _) = _
  rw [none]
  rfl

theorem lines_append {s : List UInt8} (free : 10 ∉ s) (part rest : List UInt8) :
    Properties.lines part (s ++ rest) = Properties.lines (part ++ s) rest := by
  induction s generalizing part with
  | nil => rw [nil_append, append_nil]
  | cons c s ih =>
    obtain ⟨other, free⟩ := not_or.mp (mem_cons.not.mp free)
    rw [cons_append, Properties.lines, if_neg (Ne.symm other), ih free, append_assoc,
      singleton_append]

/-- What is loaded is the lines up to the first one that does not fit into the buffer. -/
theorem load_text (lines : List Line) :
    load getenv (text lines) = loadLines getenv {} (lines.takeWhile (·.Fits)) := by
  rw [load]
  generalize ({} : Properties) = p
  induction lines generalizing p with
  | nil => rfl
  | cons line rest ih =>
    rw [takeWhile_cons]
    cases rest with
    | nil =>
      have whole : text [line] = line.bytes ++ [] := intercalate_singleton.trans (append_nil _).symm
      rw [whole, lines_append line.noFeed, nil_append, Properties.lines]
      by_cases fits : line.Fits
      · rw [if_pos (decide_eq_true fits)]
        split_ifs with none
        · -- an empty line has no entry
          have empty := none.resolve_right (Nat.not_le_of_lt fits)
          exact (if_neg (by simp [empty, cstr])).symm
        · rfl
      · rw [if_pos (.inr (not_lt.mp fits)), if_neg (by simpa using fits)]
        rfl
    | cons next rest =>
      have whole : text (line :: next :: rest) = line.bytes ++ 10 :: text (next :: rest) := by
        simp [text, intercalate_cons_cons]
      rw [whole, lines_append line.noFeed, nil_append, Properties.lines, if_pos rfl]
      by_cases fits : line.Fits
      · rw [if_neg (Nat.not_le_of_lt fits), if_pos (decide_eq_true fits)]
        exact ih _
      · rw [if_pos (not_lt.mp fits), if_neg (by simpa using fits)]
        rfl

/-- If all lines up to the first one that has a key fit, its entry is what `load` sees of it. -/
theorem find_load_first (first : First lines key before line) (given : line.entry = some (key, value))
    (fits : ∀ l ∈ before ++ [line], l.Fits) : (load getenv (text lines)).find key =
      line.seen.entry.map fun e =>
        substituteVariables getenv (load getenv (text before)) (e.2.length + 1) e.2 := by
  have all : before.takeWhile (·.Fits) = before :=
    takeWhile_eq_self_iff.mpr fun l mem => decide_eq_true (fits l (mem_append_left _ mem))
  have here : line.Fits := fits line (by simp)
  have spec := seen_entry line
  rw [given] at spec
  rw [load_text, load_text, all]
  cases seen : line.seen.entry with
  | none =>
    -- the key has a NUL, and no line is seen to have such a key
    rw [seen] at spec
    exact find_loadLines_silent getenv (fun l _ sees => (keyed_of_seen sees).2 spec) {}
  | some e =>
    rw [seen] at spec
    obtain ⟨rfl, -⟩ := spec
    obtain ⟨⟨after, rfl⟩, silent⟩ := first
    apply find_loadLines_first getenv _ seen
    refine ⟨⟨after.takeWhile (·.Fits), ?_⟩, silent⟩
    rw [takeWhile_append_of_pos (takeWhile_eq_self_iff.mp all),
      takeWhile_cons_of_pos (p := fun l : Line => decide l.Fits) (decide_eq_true here)]

/-- A line that does not fit ends the loading, and a NUL cuts its line. -/
theorem keepsLines_iff (lines : List Line) : KeepsLines getenv lines ↔
    ∀ key before line value, First lines key before line → line.entry = some (key, value) →
      (∀ l ∈ before ++ [line], l.bytes.length < 1024) ∧
      (0 ∈ line.bytes → ∃ value', line.seen.entry = some (key, value') ∧
        substituteVariables getenv (load getenv (text before)) (value'.length + 1) value' =
          substituteVariables getenv (load getenv (text before)) (value.length + 1) value) := by
  constructor
  · intro keeps key before line value first given
    have found := (keeps key).1 before line value first given
    have fits : ∀ l ∈ before ++ [line], l.Fits := by
      rw [load_text] at found
      obtain ⟨⟨after, rfl⟩, silent⟩ := first
      -- if one of the lines does not fit, only lines before this one are loaded
      by_contra long
      have early : ∀ l ∈ (before ++ line :: after).takeWhile (·.Fits), l ∈ before := by
        intro l mem
        rw [takeWhile_append] at mem
        split_ifs at mem with all
        · have fits := takeWhile_eq_self_iff.mp ((takeWhile_sublist _).eq_of_length all)
          have stops : ¬ line.Fits := by
            intro here
            refine long fun l mem => ?_
            rcases mem_append.mp mem with mem | mem
            · exact of_decide_eq_true (fits l mem)
            · rwa [mem_singleton.mp mem]
          simpa [takeWhile_cons, stops] using mem
        · exact (takeWhile_sublist _).mem mem
      rw [find_loadLines_silent getenv fun l mem sees =>
        silent l (early l mem) (keyed_of_seen sees).1] at found
      cases found
    refine ⟨fits, fun _ => ?_⟩
    rw [find_load_first getenv first given fits] at found
    obtain ⟨e, seen, same⟩ := Option.map_eq_some_iff.mp found
    have spec := seen_entry line
    rw [given, seen] at spec
    obtain ⟨rfl, -⟩ := spec
    exact ⟨e.2, seen, same⟩
  · intro condition key
    constructor
    · intro before line value first given
      obtain ⟨fits, survives⟩ := condition key before line value first given
      rw [find_load_first getenv first given fits]
      by_cases nul : 0 ∈ line.bytes
      · obtain ⟨value', seen, same⟩ := survives nul
        rw [seen, Option.map_some, same]
      · have whole : line.seen.entry = line.entry := by
          change Line.entryOf ((cstr line.bytes).takeWhile _) = _
          rw [cstr_eq_self nul]
          rfl
        rw [whole, given, Option.map_some]
    · intro silent
      rw [load_text]
      exact find_loadLines_silent getenv (fun l mem sees =>
        silent l ((takeWhile_sublist _).mem mem) (keyed_of_seen sees).1) {}

/-- A line that is a comment. -/
def comment (length : Nat) : Line where
  bytes := replicate length 35
  noFeed mem := absurd (eq_of_mem_replicate mem) (by decide)

theorem entry_comment (n : Nat) : (comment (n + 1)).entry = none := by
  have empty : (comment (n + 1)).bytes.takeWhile (· ≠ 35) = [] := by simp [comment, replicate_succ]
  rw [Line.entry, empty]
  rfl

/-- A long comment hides the next line. -/
theorem not_keepsLines_long : ¬ KeepsLines (fun _ => none)
    [comment 1024, ⟨ascii "a=b", by decide⟩] := by
  intro keeps
  have long : ¬ (comment 1024).Fits := by
    rw [Line.Fits, comment, length_replicate]
    decide
  have first : First [comment 1024, ⟨ascii "a=b", by decide⟩] (ascii "a") [comment 1024]
      ⟨ascii "a=b", by decide⟩ := by
    refine ⟨⟨[], rfl⟩, ?_⟩
    intro l mem
    rw [mem_singleton.mp mem, Line.Keyed, entry_comment]
    simp
  have found := (keeps (ascii "a")).1 _ _ (ascii "b") first (by decide)
  rw [load_text, takeWhile_cons_of_neg (by simpa using long)] at found
  cases found

end Properties

end AgentEngine.Alog
