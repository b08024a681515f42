import AgentEngine.Alog.Properties
import AgentEngine.Lib.Ranking

/-!
Rotation of a log file, and how many of the rotated files are kept (`FileAppender`).

Files are told apart by their names: what begins with the name of the log and is longer counts as
its history, and what comes first in the order of the bytes counts as older.

* `removeHistoryLogFile_entries`: which entries stay, by the names above them.
* `computeLastLogFileName_spec`: the first suffix that is free.
* `retains_iff`: the directories in which the right files are removed.
* `retains_of_short_suffixes`: as long as the suffixes have three digits, the order of the bytes is
  that of the rotations.
* `mem_rotateLog_burst`: what is left of a log after many rotations in one second.
-/

namespace AgentEngine.Alog

open Lib List

/-! ### Directories -/

structure DirEntry where
  name : List UInt8
  /-- `S_ISREG` of its mode. -/
  regular : Bool
  deriving DecidableEq, Repr

structure Directory where
  entries : List DirEntry
  nodup : (entries.map DirEntry.name).Nodup

namespace Directory

variable (dir : Directory)

def names : List (List UInt8) := dir.entries.map DirEntry.name

def remove (gone : List (List UInt8)) : Directory where
  entries := dir.entries.filter fun e => e.name ∉ gone
  nodup := dir.nodup.sublist (List.filter_sublist.map _)

/-- `fopen` for appending makes a file that is not there. -/
def create (name : List UInt8) : Directory :=
  if there : name ∈ dir.names then dir
  else
    { entries := dir.entries ++ [⟨name, true⟩]
      nodup := by
        rw [List.map_append]
        exact List.nodup_append'.mpr
          ⟨dir.nodup, List.nodup_singleton _, List.disjoint_singleton.mpr there⟩ }

/-- The entry under its new name. -/
def renamed (old new : List UInt8) (e : DirEntry) : DirEntry :=
  if e.name = old then { e with name := new } else e

/-- `rename`, which replaces what has the new name. -/
def rename (old new : List UInt8) : Directory :=
  if old ∉ dir.names ∨ old = new then dir
  else
    { entries := (dir.entries.filter fun e => e.name ≠ new).map (renamed old new)
      nodup := by
        rw [List.map_map]
        refine List.Nodup.map_on ?_ (List.Nodup.of_map _ dir.nodup |>.filter _)
        intro e mem e' mem' same
        obtain ⟨mem, ne⟩ := List.mem_filter.mp mem
        obtain ⟨mem', ne'⟩ := List.mem_filter.mp mem'
        have ne := of_decide_eq_true ne
        have ne' := of_decide_eq_true ne'
        apply List.inj_on_of_nodup_map dir.nodup mem mem'
        simp only [Function.comp, renamed] at same
        split_ifs at same with h h'
        · exact h.trans h'.symm
        · exact absurd same.symm ne'
        · exact absurd same ne
        · exact same }

theorem mem_create {name : List UInt8} (new : name ∉ dir.names) {e : DirEntry} :
    e ∈ (dir.create name).entries ↔ e ∈ dir.entries ∨ e = ⟨name, true⟩ := by
  rw [create, dif_neg new]
  simp

theorem mem_rename {old new : List UInt8} (there : old ∈ dir.names) (free : new ∉ dir.names)
    {e : DirEntry} : e ∈ (dir.rename old new).entries ↔
      e ∈ dir.entries ∧ e.name ≠ old ∨ ∃ regular, ⟨old, regular⟩ ∈ dir.entries ∧ e = ⟨new, regular⟩ := by
  have ne : old ≠ new := fun same => free (same ▸ there)
  have all : (dir.entries.filter fun e => e.name ≠ new) = dir.entries := by
    rw [filter_eq_self]
    exact fun e mem => decide_eq_true fun same => free (mem_map.mpr ⟨e, mem, same⟩)
  rw [rename, if_neg (by simp [there, ne])]
  simp only [all, mem_map]
  constructor
  · rintro ⟨e', mem, rfl⟩
    rw [renamed]
    split_ifs with moved
    · exact .inr ⟨e'.regular, moved ▸ mem, rfl⟩
    · exact .inl ⟨mem, moved⟩
  · rintro (⟨mem, other⟩ | ⟨regular, mem, rfl⟩)
    · exact ⟨e, mem, if_neg other⟩
    · exact ⟨_, mem, if_pos rfl⟩

end Directory

/-! ### Rotated files -/

/-- The name of a rotated file. -/
def lastLogFileName (pureFileName stamp : List UInt8) (suffixCount : Nat) : List UInt8 :=
  pureFileName ++ 46 :: stamp ++ 45 :: padded 3 suffixCount

/-- The loop of `computeLastLogFileName`, for so many rounds at most. -/
def firstFree (pureFileName stamp : List UInt8) (dir : Directory) :
    (rounds suffixCount : Nat) → List UInt8
  | 0, suffixCount => lastLogFileName pureFileName stamp suffixCount
  | rounds + 1, suffixCount =>
      let oldLogFile := lastLogFileName pureFileName stamp suffixCount
      if oldLogFile ∈ dir.names ∨ oldLogFile ++ ascii ".gz" ∈ dir.names then
        firstFree pureFileName stamp dir rounds (suffixCount + 1)
      else oldLogFile

/-- The stamp is the local time. No more names can be taken than there are entries. -/
def computeLastLogFileName (pureFileName stamp : List UInt8) (dir : Directory) : List UInt8 :=
  firstFree pureFileName stamp dir (dir.entries.length + 1) 1

/-- What `removeHistoryLogFile` takes for the history of the log. -/
def filteredEntrys (pureFileName : List UInt8) (dir : Directory) : List (List UInt8) :=
  (dir.entries.filter fun e => pureFileName.isPrefixOf e.name &&
    decide (pureFileName.length < e.name.length) && e.regular).map DirEntry.name

def removeHistoryLogFile (pureFileName : List UInt8) (keepFileCount : BitVec 32)
    (dir : Directory) : Nat × Directory :=
  if (dir.entries.length : Int) ≤ keepFileCount.toInt then (0, dir)
  else
    let entrys := filteredEntrys pureFileName dir
    if keepFileCount.toNat < entrys.length then
      let removedFileCount := entrys.length - keepFileCount.toNat
      (removedFileCount, dir.remove ((sortBy byteOrder entrys).take removedFileCount))
    else (0, dir)

def rotateLog (pureFileName stamp : List UInt8) (keepFileCount : BitVec 32) (dir : Directory) :
    Directory :=
  let dir := dir.rename pureFileName (computeLastLogFileName pureFileName stamp dir)
  let dir := if keepFileCount = 0 then dir else (removeHistoryLogFile pureFileName keepFileCount dir).2
  dir.create pureFileName

/-! ### Names of rotated files -/

section Names

variable (pureFileName stamp : List UInt8)

theorem lastLogFileName_inj {n n' : Nat}
    (same : lastLogFileName pureFileName stamp n = lastLogFileName pureFileName stamp n') :
    n = n' := by
  have suffixes : 45 :: padded 3 n = 45 :: padded 3 n' := append_cancel_left same
  rw [← numeral_padded 3 n, ← numeral_padded 3 n', (cons.inj suffixes).2]

/-- A compressed file is not taken for one that is not. -/
theorem lastLogFileName_ne_gz (n n' : Nat) :
    lastLogFileName pureFileName stamp n ≠ lastLogFileName pureFileName stamp n' ++ ascii ".gz" := by
  intro same
  have suffixes : 45 :: padded 3 n = 45 :: padded 3 n' ++ ascii ".gz" := by
    rw [lastLogFileName, lastLogFileName, append_assoc _ _ (ascii ".gz")] at same
    exact append_cancel_left same
  have dot : (46 : UInt8) ∈ padded 3 n := by
    rw [(cons.inj suffixes).2]
    simp [ascii]
  exact absurd (isdigit_padded 3 n 46 dot) (by decide)

variable (dir : Directory)

/-- A file has this suffix, compressed or not. -/
def Taken (n : Nat) : Prop :=
  lastLogFileName pureFileName stamp n ∈ dir.names ∨
    lastLogFileName pureFileName stamp n ++ ascii ".gz" ∈ dir.names

instance (n : Nat) : Decidable (Taken pureFileName stamp dir n) :=
  inferInstanceAs (Decidable (_ ∨ _))

/-- No more suffixes are taken than there are entries. -/
theorem exists_not_taken :
    ∃ n, 1 ≤ n ∧ n ≤ dir.entries.length + 1 ∧ ¬ Taken pureFileName stamp dir n := by
  by_contra! all
  let file (n : Nat) : List UInt8 :=
    if lastLogFileName pureFileName stamp n ∈ dir.names then lastLogFileName pureFileName stamp n
    else lastLogFileName pureFileName stamp n ++ ascii ".gz"
  have inj : Function.Injective file := by
    intro n n' same
    simp only [file] at same
    split_ifs at same
    · exact lastLogFileName_inj pureFileName stamp same
    · exact absurd same (lastLogFileName_ne_gz pureFileName stamp n n')
    · exact absurd same.symm (lastLogFileName_ne_gz pureFileName stamp n' n)
    · exact lastLogFileName_inj pureFileName stamp (append_cancel_right same)
  have files : (range' 1 (dir.entries.length + 1)).map file ⊆ dir.names := by
    intro name mem
    obtain ⟨n, here, rfl⟩ := mem_map.mp mem
    obtain ⟨low, high⟩ := mem_range'_1.mp here
    simp only [file]
    split_ifs with plain
    · exact plain
    · exact (all n low (by omega)).resolve_left plain
  have count := (subperm_of_subset ((nodup_range' (s := 1)).map inj) files).length_le
  simp [Directory.names] at count

theorem firstFree_spec (rounds n : Nat) (free : ∃ m, n ≤ m ∧ m < n + rounds ∧
    ¬ Taken pureFileName stamp dir m) :
    ∃ m, n ≤ m ∧ firstFree pureFileName stamp dir rounds n = lastLogFileName pureFileName stamp m ∧
      ¬ Taken pureFileName stamp dir m ∧ ∀ i, n ≤ i → i < m → Taken pureFileName stamp dir i := by
  induction rounds generalizing n with
  | zero =>
    obtain ⟨m, low, high, -⟩ := free
    omega
  | succ rounds ih =>
    by_cases taken : Taken pureFileName stamp dir n
    · have next : firstFree pureFileName stamp dir (rounds + 1) n =
          firstFree pureFileName stamp dir rounds (n + 1) := if_pos taken
      obtain ⟨m, low, high, here⟩ := free
      have ne : m ≠ n := fun e => here (e ▸ taken)
      obtain ⟨m', low', found, free', busy⟩ := ih (n + 1) ⟨m, by omega, by omega, here⟩
      refine ⟨m', by omega, next.trans found, free', ?_⟩
      intro i le lt
      rcases le.eq_or_lt with rfl | less
      · exact taken
      · exact busy i less lt
    · exact ⟨n, le_refl n, if_neg taken, taken, fun i le lt => absurd lt (not_lt.mpr le)⟩

/-- The file gets the first suffix that is free. -/
theorem computeLastLogFileName_spec :
    ∃ n, 1 ≤ n ∧ computeLastLogFileName pureFileName stamp dir = lastLogFileName pureFileName stamp n ∧
      ¬ Taken pureFileName stamp dir n ∧ ∀ i, 1 ≤ i → i < n → Taken pureFileName stamp dir i := by
  obtain ⟨n, low, high, free⟩ := exists_not_taken pureFileName stamp dir
  exact firstFree_spec pureFileName stamp dir _ 1 ⟨n, low, by omega, free⟩

end Names

/-! ### What is removed -/

section Removal

variable (pureFileName : List UInt8) (keepFileCount : BitVec 32) (dir : Directory)

theorem nodup_filteredEntrys : (filteredEntrys pureFileName dir).Nodup :=
  dir.nodup.sublist (filter_sublist.map _)

theorem length_filteredEntrys_le : (filteredEntrys pureFileName dir).length ≤ dir.entries.length := by
  rw [filteredEntrys, length_map]
  exact length_filter_le _ _

variable {pureFileName dir} in
theorem mem_filteredEntrys {name : List UInt8} : name ∈ filteredEntrys pureFileName dir ↔
    (⟨name, true⟩ : DirEntry) ∈ dir.entries ∧ ∃ rest ≠ [], name = pureFileName ++ rest := by
  simp only [filteredEntrys, mem_map, mem_filter, Bool.and_eq_true, isPrefixOf_iff_prefix,
    decide_eq_true_eq]
  constructor
  · rintro ⟨⟨_, _⟩, ⟨mem, ⟨⟨rest, rfl⟩, longer⟩, rfl⟩, rfl⟩
    refine ⟨mem, rest, ?_, rfl⟩
    rintro rfl
    simp at longer
  · rintro ⟨mem, rest, ne, rfl⟩
    refine ⟨_, ⟨mem, ⟨⟨rest, rfl⟩, ?_⟩, rfl⟩, rfl⟩
    simpa using length_pos_iff.mpr ne

/-- There are enough files of the history with greater names. -/
def Outdated (name : List UInt8) : Prop :=
  name ∈ filteredEntrys pureFileName dir ∧
    keepFileCount.toNat ≤ above byteOrder (filteredEntrys pureFileName dir) name

instance (name : List UInt8) : Decidable (Outdated pureFileName keepFileCount dir name) :=
  inferInstanceAs (Decidable (_ ∧ _))

theorem byteOrder_injective : Function.Injective byteOrder := fun _ _ => byteOrder_inj.mp

variable {pureFileName keepFileCount dir} in
theorem not_outdated (few : (filteredEntrys pureFileName dir).length ≤ keepFileCount.toNat)
    (name : List UInt8) : ¬ Outdated pureFileName keepFileCount dir name := by
  rintro ⟨mem, many⟩
  have below : above byteOrder (filteredEntrys pureFileName dir) name < _ := above_lt_length mem
  omega

/-- Exactly the outdated files are removed. -/
theorem removeHistoryLogFile_entries :
    (removeHistoryLogFile pureFileName keepFileCount dir).2.entries =
      dir.entries.filter fun e => ¬ Outdated pureFileName keepFileCount dir e.name := by
  have all (few : (filteredEntrys pureFileName dir).length ≤ keepFileCount.toNat) :
      dir.entries = dir.entries.filter fun e => ¬ Outdated pureFileName keepFileCount dir e.name := by
    rw [eq_comm, filter_eq_self]
    exact fun e _ => decide_eq_true (not_outdated few e.name)
  unfold removeHistoryLogFile
  split_ifs with early
  · have count := length_filteredEntrys_le pureFileName dir
    have signed := keepFileCount.toInt_eq_toNat_cond
    exact all (by split_ifs at signed <;> omega)
  · simp only
    split_ifs with many
    · apply filter_congr
      intro e _
      rw [decide_eq_decide, not_iff_not]
      have perm : (sortBy byteOrder (filteredEntrys pureFileName dir)).Perm _ :=
        perm_insertionSort _ _
      have cut {name : List UInt8} (mem : name ∈ filteredEntrys pureFileName dir) :=
        mem_take_sort byteOrder_injective (nodup_filteredEntrys pureFileName dir) many.le mem
      constructor
      · intro low
        have mem := perm.mem_iff.mp (mem_of_mem_take low)
        exact ⟨mem, (cut mem).mp low⟩
      · rintro ⟨mem, enough⟩
        exact (cut mem).mpr enough
    · exact all (not_lt.mp many)

end Removal

/-! ### The history of a log -/

/-- What the name of a rotated file says: when it was rotated, which file of that second it is, and
whether it has been compressed. -/
structure Rotation where
  stamp : List UInt8
  suffix : List UInt8
  gz : Bool
  stamp_length : stamp.length = 14
  stamp_digits : ∀ c ∈ stamp, isdigit c
  suffix_length : 3 ≤ suffix.length
  suffix_digits : ∀ c ∈ suffix, isdigit c

namespace Rotation

def tail (r : Rotation) : List UInt8 :=
  r.stamp ++ 45 :: r.suffix ++ if r.gz then ascii ".gz" else []

def name (r : Rotation) (pureFileName : List UInt8) : List UInt8 := pureFileName ++ 46 :: r.tail

/-- Later seconds are more recent, and greater suffixes within a second. -/
def recency (r : Rotation) : Nat ×ₗ Nat := toLex (numeral 10 r.stamp, numeral 10 r.suffix)

end Rotation

/-- Whether this is what follows the dot in the name of a rotated file. -/
def isTail (s : List UInt8) : Bool :=
  (s.take 14).length = 14 && (s.take 14).all isdigit &&
    match s.drop 14 with
    | 45 :: more =>
        3 ≤ (more.takeWhile isdigit).length &&
          (more.dropWhile isdigit = [] || more.dropWhile isdigit = ascii ".gz")
    | _ => false

theorem isTail_iff {s : List UInt8} : isTail s ↔ ∃ r : Rotation, r.tail = s := by
  constructor
  · intro tail
    rw [isTail, Bool.and_eq_true, Bool.and_eq_true, decide_eq_true_eq, all_eq_true] at tail
    obtain ⟨⟨length, digits⟩, rest⟩ := tail
    have parts := take_append_drop 14 s
    split at rest
    · rename_i more dash
      rw [Bool.and_eq_true, decide_eq_true_eq, Bool.or_eq_true, decide_eq_true_eq,
        decide_eq_true_eq] at rest
      obtain ⟨long, ends⟩ := rest
      have digits' : ∀ c ∈ more.takeWhile isdigit, isdigit c := fun c => mem_takeWhile_imp
      have parts' : more.takeWhile isdigit ++ more.dropWhile isdigit = more :=
        takeWhile_append_dropWhile
      rcases ends with plain | gz
      · refine ⟨⟨_, _, false, length, digits, long, digits'⟩, ?_⟩
        rw [plain, append_nil] at parts'
        simp [Rotation.tail, parts', ← dash, parts]
      · refine ⟨⟨_, _, true, length, digits, long, digits'⟩, ?_⟩
        rw [gz] at parts'
        simp only [Rotation.tail, if_true, append_assoc, cons_append, parts', ← dash, parts]
    · exact nomatch rest
  · rintro ⟨r, rfl⟩
    have stamp : r.tail.take 14 = r.stamp := by
      rw [Rotation.tail, append_assoc, take_left' r.stamp_length]
    have rest : r.tail.drop 14 = 45 :: (r.suffix ++ if r.gz then ascii ".gz" else []) := by
      rw [Rotation.tail, append_assoc, drop_left' r.stamp_length, cons_append]
    have stops : (if r.gz then ascii ".gz" else []).takeWhile isdigit = [] ∧
        (if r.gz then ascii ".gz" else []).dropWhile isdigit = if r.gz then ascii ".gz" else [] := by
      cases r.gz <;> decide
    have suffix : (r.suffix ++ if r.gz then ascii ".gz" else []).takeWhile isdigit = r.suffix := by
      rw [takeWhile_append_of_pos r.suffix_digits, stops.1, append_nil]
    have ends : (r.suffix ++ if r.gz then ascii ".gz" else []).dropWhile isdigit =
        if r.gz then ascii ".gz" else [] := by
      rw [dropWhile_append_of_pos r.suffix_digits, stops.2]
    simp only [isTail, stamp, rest, suffix, ends, r.stamp_length, decide_true, Bool.true_and,
      all_eq_true.mpr r.stamp_digits, decide_eq_true r.suffix_length]
    cases r.gz <;> decide

/-- Whether this is the name of a rotated file of the log. -/
def isRotated (pureFileName name : List UInt8) : Bool :=
  pureFileName.isPrefixOf name &&
    match name.drop pureFileName.length with
    | 46 :: s => isTail s
    | _ => false

theorem isRotated_iff {pureFileName name : List UInt8} :
    isRotated pureFileName name ↔ ∃ r : Rotation, r.name pureFileName = name := by
  rw [isRotated, Bool.and_eq_true, isPrefixOf_iff_prefix]
  constructor
  · rintro ⟨⟨rest, rfl⟩, tail⟩
    rw [drop_left] at tail
    split at tail
    · obtain ⟨r, rfl⟩ := isTail_iff.mp tail
      exact ⟨r, rfl⟩
    · exact nomatch tail
  · rintro ⟨r, rfl⟩
    refine ⟨⟨46 :: r.tail, rfl⟩, ?_⟩
    rw [Rotation.name, drop_left]
    exact isTail_iff.mpr ⟨r, rfl⟩

section History

variable (pureFileName : List UInt8) (logs : List (List UInt8))

/-- The rotated files of a log that no log is writing to. -/
def history (dir : Directory) : List (List UInt8) :=
  (dir.entries.filter fun e => e.regular && isRotated pureFileName e.name &&
    decide (e.name ∉ logs)).map DirEntry.name

variable {pureFileName logs}

theorem mem_history {dir : Directory} {name : List UInt8} : name ∈ history pureFileName logs dir ↔
    (⟨name, true⟩ : DirEntry) ∈ dir.entries ∧ isRotated pureFileName name ∧ name ∉ logs := by
  simp only [history, mem_map, mem_filter, Bool.and_eq_true, decide_eq_true_eq]
  constructor
  · rintro ⟨⟨_, _⟩, ⟨mem, ⟨rfl, rotated⟩, free⟩, rfl⟩
    exact ⟨mem, rotated, free⟩
  · rintro ⟨mem, rotated, free⟩
    exact ⟨_, ⟨mem, ⟨rfl, rotated⟩, free⟩, rfl⟩

variable (dir : Directory)

theorem nodup_history : (history pureFileName logs dir).Nodup :=
  dir.nodup.sublist (filter_sublist.map _)

theorem history_subset : history pureFileName logs dir ⊆ filteredEntrys pureFileName dir := by
  intro name mem
  obtain ⟨there, rotated, -⟩ := mem_history.mp mem
  obtain ⟨r, rfl⟩ := isRotated_iff.mp rotated
  exact mem_filteredEntrys.mpr ⟨there, _, cons_ne_nil _ _, rfl⟩

variable (pureFileName logs) in
theorem history_subperm :
    (history pureFileName logs dir).Subperm (filteredEntrys pureFileName dir) :=
  subperm_of_subset (nodup_history dir) (history_subset dir)

variable (pureFileName logs) in
/-- The right files are removed: rotated files of this very log which no log is writing to, so many
that `keep` are left, and none that is more recent than one of those. -/
structure Retains (keep : Nat) (before after : Directory) : Prop where
  only : ∀ e ∈ before.entries, e ∉ after.entries →
    e.regular ∧ (∃ r : Rotation, r.name pureFileName = e.name) ∧ e.name ∉ logs
  rest : ∀ e ∈ after.entries, e ∈ before.entries
  count : (history pureFileName logs after).length =
    min keep (history pureFileName logs before).length
  recent : ∀ r s : Rotation, r.name pureFileName ∈ history pureFileName logs before →
    r.name pureFileName ∉ history pureFileName logs after →
    s.name pureFileName ∈ history pureFileName logs after → r.recency ≤ s.recency

variable (pureFileName logs) in
theorem history_removeHistoryLogFile (keepFileCount : BitVec 32) (dir : Directory) :
    history pureFileName logs (removeHistoryLogFile pureFileName keepFileCount dir).2 =
      (history pureFileName logs dir).filter fun name =>
        ¬ Outdated pureFileName keepFileCount dir name := by
  rw [history, history, removeHistoryLogFile_entries, filter_map, filter_filter, filter_filter]
  congr 1
  apply filter_congr
  intro e _
  exact Bool.and_comm _ _

/-- A full history is cut down to what is to be kept. -/
theorem length_history (keepFileCount : BitVec 32) {dir : Directory}
    (enough : keepFileCount.toNat ≤ (filteredEntrys pureFileName dir).length)
    (gone : ∀ name, Outdated pureFileName keepFileCount dir name →
      name ∈ history pureFileName logs dir) :
    (history pureFileName logs (removeHistoryLogFile pureFileName keepFileCount dir).2).length +
      ((filteredEntrys pureFileName dir).length - keepFileCount.toNat) =
      (history pureFileName logs dir).length := by
  have removed : ((history pureFileName logs dir).filter fun name =>
      Outdated pureFileName keepFileCount dir name).Perm
      ((filteredEntrys pureFileName dir).filter fun name =>
        keepFileCount.toNat ≤ above byteOrder (filteredEntrys pureFileName dir) name) := by
    apply (perm_ext_iff_of_nodup ((nodup_history dir).filter _)
      ((nodup_filteredEntrys pureFileName dir).filter _)).mpr
    intro name
    simp only [mem_filter, decide_eq_true_eq]
    constructor
    · rintro ⟨-, outdated⟩
      exact outdated
    · intro outdated
      exact ⟨gone name outdated, outdated⟩
  have count := length_filter_above byteOrder_injective (nodup_filteredEntrys pureFileName dir) enough
  rw [history_removeHistoryLogFile, ← count, ← removed.length_eq]
  have parts := length_eq_length_filter_add (l := history pureFileName logs dir)
    (fun name => decide (Outdated pureFileName keepFileCount dir name))
  simp only [decide_not]
  omega

/-- The recent files have the greater names, as far as the cut between them goes. -/
def OrderedAtCut (pureFileName : List UInt8) (keep : Nat) (dir : Directory) : Prop :=
  ∀ r s : Rotation, r.name pureFileName ∈ filteredEntrys pureFileName dir →
    s.name pureFileName ∈ filteredEntrys pureFileName dir →
    keep ≤ above byteOrder (filteredEntrys pureFileName dir) (r.name pureFileName) →
    above byteOrder (filteredEntrys pureFileName dir) (s.name pureFileName) < keep →
    r.recency ≤ s.recency

variable {keepFileCount : BitVec 32} {dir : Directory}

theorem retains_of_few (few : (filteredEntrys pureFileName dir).length ≤ keepFileCount.toNat) :
    Retains pureFileName logs keepFileCount.toNat dir
      (removeHistoryLogFile pureFileName keepFileCount dir).2 := by
  have same : (removeHistoryLogFile pureFileName keepFileCount dir).2.entries = dir.entries := by
    rw [removeHistoryLogFile_entries, filter_eq_self]
    exact fun e _ => decide_eq_true (not_outdated few e.name)
  have files : history pureFileName logs (removeHistoryLogFile pureFileName keepFileCount dir).2 =
      history pureFileName logs dir := by
    rw [history, same, history]
  have count := (history_subperm pureFileName logs dir).length_le
  refine ⟨?_, ?_, ?_, ?_⟩
  · exact fun e mem gone => absurd (same ▸ mem) gone
  · exact fun e mem => same ▸ mem
  · rw [files, min_eq_right (count.trans few)]
  · exact fun r s mem gone => absurd (files ▸ mem) gone

theorem retains_of_all_rotated
    (many : keepFileCount.toNat ≤ (filteredEntrys pureFileName dir).length)
    (rotated : ∀ name ∈ filteredEntrys pureFileName dir,
      isRotated pureFileName name ∧ name ∉ logs)
    (ordered : OrderedAtCut pureFileName keepFileCount.toNat dir) :
    Retains pureFileName logs keepFileCount.toNat dir
      (removeHistoryLogFile pureFileName keepFileCount dir).2 := by
  have all {name : List UInt8} (mem : name ∈ filteredEntrys pureFileName dir) :
      name ∈ history pureFileName logs dir :=
    mem_history.mpr ⟨(mem_filteredEntrys.mp mem).1, rotated name mem⟩
  have perm : (history pureFileName logs dir).Perm (filteredEntrys pureFileName dir) :=
    (perm_ext_iff_of_nodup (nodup_history dir) (nodup_filteredEntrys pureFileName dir)).mpr
      fun name => ⟨fun mem => history_subset dir mem, all⟩
  refine ⟨?_, ?_, ?_, ?_⟩
  · intro e mem gone
    have outdated : Outdated pureFileName keepFileCount dir e.name := by
      by_contra stays
      rw [removeHistoryLogFile_entries] at gone
      exact gone (mem_filter.mpr ⟨mem, decide_eq_true stays⟩)
    obtain ⟨there, rotated, free⟩ := mem_history.mp (all outdated.1)
    have same := inj_on_of_nodup_map dir.nodup mem there rfl
    exact ⟨by rw [same], isRotated_iff.mp rotated, free⟩
  · intro e mem
    rw [removeHistoryLogFile_entries] at mem
    exact (mem_filter.mp mem).1
  · have count := length_history keepFileCount many fun name outdated => all outdated.1
    have size := perm.length_eq
    omega
  · intro r s mem gone stays
    rw [history_removeHistoryLogFile, mem_filter, decide_eq_true_iff] at gone stays
    have outdated : Outdated pureFileName keepFileCount dir (r.name pureFileName) := by
      by_contra current
      exact gone ⟨mem, current⟩
    have there := history_subset dir stays.1
    exact ordered r s outdated.1 there outdated.2 (not_le.mp fun more => stays.2 ⟨there, more⟩)

/-- The right files are removed iff none have to be, or the files that begin with the name of the
log are all rotated files of it and the cut separates the older ones from the more recent. -/
theorem retains_iff (pureFileName : List UInt8) (logs : List (List UInt8))
    (keepFileCount : BitVec 32) (dir : Directory) :
    Retains pureFileName logs keepFileCount.toNat dir
        (removeHistoryLogFile pureFileName keepFileCount dir).2 ↔
      (filteredEntrys pureFileName dir).length ≤ keepFileCount.toNat ∨
      (∀ name ∈ filteredEntrys pureFileName dir, isRotated pureFileName name ∧ name ∉ logs) ∧
        OrderedAtCut pureFileName keepFileCount.toNat dir := by
  constructor
  · intro h
    by_cases few : (filteredEntrys pureFileName dir).length ≤ keepFileCount.toNat
    · exact .inl few
    have many := (not_le.mp few).le
    have gone (name : List UInt8) (outdated : Outdated pureFileName keepFileCount dir name) :
        name ∈ history pureFileName logs dir := by
      have there := (mem_filteredEntrys.mp outdated.1).1
      obtain ⟨-, rotated, free⟩ := h.only _ there (by
        rw [removeHistoryLogFile_entries, mem_filter, decide_eq_true_iff]
        exact fun stays => stays.2 outdated)
      exact mem_history.mpr ⟨there, isRotated_iff.mpr rotated, free⟩
    have sub := history_subperm pureFileName logs dir
    -- as many files are missing as the list is longer than it should be
    have size : (filteredEntrys pureFileName dir).length ≤ (history pureFileName logs dir).length := by
      have left := length_history keepFileCount many gone
      have count := h.count
      have le := sub.length_le
      omega
    have perm := sub.perm_of_length_le size
    refine .inr ⟨fun name mem => (mem_history.mp (perm.mem_iff.mpr mem)).2, ?_⟩
    intro r s mem mem' older newer
    apply h.recent r s (perm.mem_iff.mpr mem)
    · rw [history_removeHistoryLogFile, mem_filter, decide_eq_true_iff]
      exact fun stays => stays.2 ⟨mem, older⟩
    · rw [history_removeHistoryLogFile, mem_filter, decide_eq_true_iff]
      exact ⟨perm.mem_iff.mpr mem', fun outdated => not_le.mpr newer outdated.2⟩
  · rintro (few | ⟨rotated, ordered⟩)
    · exact retains_of_few few
    · by_cases few : (filteredEntrys pureFileName dir).length ≤ keepFileCount.toNat
      · exact retains_of_few few
      · exact retains_of_all_rotated (not_le.mp few).le rotated ordered

/-- Of two strings that begin with parts of one length, these decide unless they are equal. -/
theorem byteOrder_append_lt_append {s s' t t' : List UInt8} (len : s.length = s'.length) :
    byteOrder (s ++ t) < byteOrder (s' ++ t') ↔
      byteOrder s < byteOrder s' ∨ s = s' ∧ byteOrder t < byteOrder t' := by
  induction s generalizing s' with
  | nil =>
    obtain rfl := length_eq_zero_iff.mp len.symm
    simp
  | cons c s ih =>
    cases s' with
    | nil => cases len
    | cons d s' =>
      simp only [cons_append, byteOrder_cons_lt, cons.injEq, ih (Nat.succ.inj len)]
      tauto

/-- Suffixes of one length sort as the rotations do. -/
theorem Rotation.recency_le {r s : Rotation} (len : r.suffix.length = s.suffix.length)
    (lt : byteOrder (r.name pureFileName) < byteOrder (s.name pureFileName)) :
    r.recency ≤ s.recency := by
  have stamps : r.stamp.length = s.stamp.length := by rw [r.stamp_length, s.stamp_length]
  have lt : byteOrder ([46] ++ r.tail) < byteOrder ([46] ++ s.tail) := byteOrder_append_lt.mp lt
  rw [byteOrder_append_lt, tail, tail, append_assoc, append_assoc,
    byteOrder_append_lt_append stamps] at lt
  rw [recency, recency, Prod.Lex.toLex_le_toLex]
  rcases lt with earlier | ⟨same, lt⟩
  · exact .inl (numeral_lt_numeral stamps r.stamp_digits s.stamp_digits earlier)
  · refine .inr ⟨by rw [same], ?_⟩
    have lt : byteOrder ([45] ++ (r.suffix ++ _)) < byteOrder ([45] ++ (s.suffix ++ _)) := lt
    rw [byteOrder_append_lt, byteOrder_append_lt_append len] at lt
    rcases lt with earlier | ⟨same, -⟩
    · exact (numeral_lt_numeral len r.suffix_digits s.suffix_digits earlier).le
    · rw [same]

/-- Nothing goes wrong as long as no other file begins with the name of the log and no more than 999
files are rotated within a second. -/
theorem retains_of_short_suffixes
    (rotated : ∀ name ∈ filteredEntrys pureFileName dir,
      isRotated pureFileName name ∧ name ∉ logs)
    (short : ∀ r : Rotation, r.name pureFileName ∈ filteredEntrys pureFileName dir →
      r.suffix.length = 3) :
    Retains pureFileName logs keepFileCount.toNat dir
      (removeHistoryLogFile pureFileName keepFileCount dir).2 := by
  by_cases few : (filteredEntrys pureFileName dir).length ≤ keepFileCount.toNat
  · exact retains_of_few few
  · apply retains_of_all_rotated (not_le.mp few).le rotated
    intro r s mem mem' older newer
    have lt : byteOrder (r.name pureFileName) < byteOrder (s.name pureFileName) := by
      by_contra ge
      have fewer := above_anti (not_lt.mp ge) (filteredEntrys pureFileName dir)
      omega
    exact Rotation.recency_le (by rw [short r mem, short s mem']) lt

/-- Of four rotated files the two of the earlier seconds are removed. -/
theorem retains_of_short_suffixes_four :
    let file (name : String) : DirEntry := ⟨ascii name, true⟩
    let dir : Directory := ⟨[file "a.20260102000000-002", file "a", file "a.20260101235959-001",
      file "b", file "a.20260102000000-001", file "a.20251231000000-003"], by decide +kernel⟩
    let dir' := (removeHistoryLogFile (ascii "a") 2 dir).2
    Retains (ascii "a") [ascii "a", ascii "b"] (2 : BitVec 32).toNat dir dir' ∧
      dir'.entries = [file "a.20260102000000-002", file "a", file "b",
        file "a.20260102000000-001"] := by
  intro file dir dir'
  have history : filteredEntrys (ascii "a") dir = [ascii "a.20260102000000-002",
      ascii "a.20260101235959-001", ascii "a.20260102000000-001",
      ascii "a.20251231000000-003"] := by decide +kernel
  refine ⟨retains_of_short_suffixes ?_ ?_, by decide +kernel⟩
  · rw [history]
    decide +kernel
  · intro r mem
    have lengths : ∀ name ∈ filteredEntrys (ascii "a") dir, name.length = 20 := by
      rw [history]
      decide +kernel
    have len := lengths _ mem
    have := r.suffix_length
    simp [Rotation.name, Rotation.tail, r.stamp_length, ascii] at len
    omega

end History

/-! ### Many rotations in one second -/

section Burst

variable (pureFileName stamp : List UInt8)

/-- The directory of a log that has been rotated so many times within a second, with no limit set to
its history. -/
def burst : Nat → Directory
  | 0 => ⟨[⟨pureFileName, true⟩], List.nodup_singleton _⟩
  | n + 1 => rotateLog pureFileName stamp 0 (burst n)

theorem pure_ne_lastLogFileName (n : Nat) : pureFileName ≠ lastLogFileName pureFileName stamp n := by
  intro same
  rw [lastLogFileName, append_assoc] at same
  exact absurd (self_eq_append_right.mp same) (by simp)

variable {pureFileName stamp} in
/-- The next file gets the next suffix. -/
theorem computeLastLogFileName_next {dir : Directory} {n : Nat}
    (all : ∀ e, e ∈ dir.entries ↔ e = ⟨pureFileName, true⟩ ∨
      ∃ i, 1 ≤ i ∧ i ≤ n ∧ e = ⟨lastLogFileName pureFileName stamp i, true⟩) :
    computeLastLogFileName pureFileName stamp dir = lastLogFileName pureFileName stamp (n + 1) ∧
      lastLogFileName pureFileName stamp (n + 1) ∉ dir.names := by
  have names {name : List UInt8} : name ∈ dir.names ↔ name = pureFileName ∨
      ∃ i, 1 ≤ i ∧ i ≤ n ∧ name = lastLogFileName pureFileName stamp i := by
    rw [Directory.names, mem_map]
    constructor
    · rintro ⟨e, mem, rfl⟩
      obtain rfl | ⟨i, low, high, rfl⟩ := (all e).mp mem
      · exact .inl rfl
      · exact .inr ⟨i, low, high, rfl⟩
    · rintro (rfl | ⟨i, low, high, rfl⟩)
      · exact ⟨_, (all _).mpr (.inl rfl), rfl⟩
      · exact ⟨_, (all _).mpr (.inr ⟨i, low, high, rfl⟩), rfl⟩
  have taken_iff {i : Nat} (low : 1 ≤ i) : Taken pureFileName stamp dir i ↔ i ≤ n := by
    constructor
    · rintro (plain | gz)
      · rcases names.mp plain with same | ⟨j, -, high, same⟩
        · exact absurd same.symm (pure_ne_lastLogFileName pureFileName stamp i)
        · exact lastLogFileName_inj pureFileName stamp same ▸ high
      · rcases names.mp gz with same | ⟨j, -, -, same⟩
        · rw [lastLogFileName, append_assoc, append_assoc] at same
          exact absurd (self_eq_append_right.mp same.symm) (by simp)
        · exact absurd same.symm (lastLogFileName_ne_gz pureFileName stamp j i)
    · exact fun high => .inl (names.mpr (.inr ⟨i, low, high, rfl⟩))
  obtain ⟨m, low, found, free, busy⟩ := computeLastLogFileName_spec pureFileName stamp dir
  have next : m = n + 1 := by
    rw [taken_iff low] at free
    by_contra ne
    have more := (taken_iff (i := n + 1) (by omega)).mp (busy (n + 1) (by omega) (by omega))
    omega
  subst next
  exact ⟨found, fun mem => free (.inl mem)⟩

variable {pureFileName stamp} in
/-- What is there between the renaming and the opening of the new file. -/
theorem mem_rename_next {dir : Directory} {n : Nat}
    (all : ∀ e, e ∈ dir.entries ↔ e = ⟨pureFileName, true⟩ ∨
      ∃ i, 1 ≤ i ∧ i ≤ n ∧ e = ⟨lastLogFileName pureFileName stamp i, true⟩) (e : DirEntry) :
    e ∈ (dir.rename pureFileName (computeLastLogFileName pureFileName stamp dir)).entries ↔
      ∃ i, 1 ≤ i ∧ i ≤ n + 1 ∧ e = ⟨lastLogFileName pureFileName stamp i, true⟩ := by
  obtain ⟨next, free⟩ := computeLastLogFileName_next all
  have there : pureFileName ∈ dir.names := mem_map.mpr ⟨_, (all _).mpr (.inl rfl), rfl⟩
  rw [next, dir.mem_rename there free]
  constructor
  · rintro (⟨mem, other⟩ | ⟨regular, mem, rfl⟩)
    · obtain rfl | ⟨i, low, high, rfl⟩ := (all e).mp mem
      · exact absurd rfl other
      · exact ⟨i, low, by omega, rfl⟩
    · obtain same | ⟨i, -, -, same⟩ := (all _).mp mem
      · exact ⟨n + 1, by omega, le_rfl, by rw [(DirEntry.mk.inj same).2]⟩
      · exact absurd (DirEntry.mk.inj same).1 (pure_ne_lastLogFileName pureFileName stamp i)
  · rintro ⟨i, low, high, rfl⟩
    rcases high.eq_or_lt with rfl | less
    · exact .inr ⟨true, (all _).mpr (.inl rfl), rfl⟩
    · exact .inl ⟨(all _).mpr (.inr ⟨i, low, by omega, rfl⟩),
        (pure_ne_lastLogFileName pureFileName stamp i).symm⟩

theorem mem_burst (n : Nat) (e : DirEntry) :
    e ∈ (burst pureFileName stamp n).entries ↔ e = ⟨pureFileName, true⟩ ∨
      ∃ i, 1 ≤ i ∧ i ≤ n ∧ e = ⟨lastLogFileName pureFileName stamp i, true⟩ := by
  induction n generalizing e with
  | zero =>
    rw [burst, mem_singleton]
    constructor
    · exact .inl
    · rintro (same | ⟨i, low, high, -⟩)
      · exact same
      · omega
  | succ n ih =>
    have renamed := mem_rename_next ih
    have closed : pureFileName ∉ ((burst pureFileName stamp n).rename pureFileName
        (computeLastLogFileName pureFileName stamp (burst pureFileName stamp n))).names := by
      rw [Directory.names, mem_map]
      rintro ⟨e, mem, same⟩
      obtain ⟨i, -, -, rfl⟩ := (renamed e).mp mem
      exact pure_ne_lastLogFileName pureFileName stamp i same.symm
    rw [burst, rotateLog, if_pos rfl, Directory.mem_create _ closed, renamed, or_comm]

/-- With more than 999 of them, the order of the names is no longer that of the files. -/
theorem thousand_lt :
    byteOrder (lastLogFileName pureFileName stamp 1000) <
      byteOrder (lastLogFileName pureFileName stamp 999) := by
  have thousand : Nat.digits 10 1000 = [0, 0, 0, 1] := by norm_num
  have before : Nat.digits 10 999 = [9, 9, 9] := by norm_num
  rw [lastLogFileName, lastLogFileName, byteOrder_append_lt, padded, padded, decimal, decimal,
    if_neg (by decide), if_neg (by decide), thousand, before]
  decide

theorem le_of_le_thousand {i : Nat} (high : i ≤ 1000) :
    byteOrder (lastLogFileName pureFileName stamp i) ≤
      byteOrder (lastLogFileName pureFileName stamp 999) := by
  rcases high.eq_or_lt with rfl | less
  · exact (thousand_lt pureFileName stamp).le
  · rw [← not_lt]
    intro lt
    have lt : byteOrder ([45] ++ padded 3 999) < byteOrder ([45] ++ padded 3 i) :=
      byteOrder_append_lt.mp lt
    rw [byteOrder_append_lt] at lt
    have len : (padded 3 999).length = (padded 3 i).length := by
      rw [length_padded (by decide) (by decide), length_padded (by decide) less]
    have numbers := numeral_lt_numeral len (isdigit_padded 3 999) (isdigit_padded 3 i) lt
    rw [numeral_padded, numeral_padded] at numbers
    omega

/-- Once more, with a limit. -/
theorem mem_rotateLog_burst (n : Nat) (keepFileCount : BitVec 32) (limit : keepFileCount ≠ 0) :
    ∃ files : List (List UInt8),
      (∀ name, name ∈ files ↔ ∃ i, 1 ≤ i ∧ i ≤ n + 1 ∧ name = lastLogFileName pureFileName stamp i) ∧
      ∀ i, 1 ≤ i → i ≤ n + 1 →
        ((⟨lastLogFileName pureFileName stamp i, true⟩ : DirEntry) ∈
          (rotateLog pureFileName stamp keepFileCount (burst pureFileName stamp n)).entries ↔
          above byteOrder files (lastLogFileName pureFileName stamp i) < keepFileCount.toNat) := by
  have renamed := mem_rename_next (mem_burst pureFileName stamp n)
  generalize dirEq : (burst pureFileName stamp n).rename pureFileName
    (computeLastLogFileName pureFileName stamp (burst pureFileName stamp n)) = dir at renamed
  have files (name : List UInt8) : name ∈ filteredEntrys pureFileName dir ↔
      ∃ i, 1 ≤ i ∧ i ≤ n + 1 ∧ name = lastLogFileName pureFileName stamp i := by
    rw [mem_filteredEntrys, renamed]
    constructor
    · rintro ⟨⟨i, low, high, same⟩, -⟩
      exact ⟨i, low, high, (DirEntry.mk.inj same).1⟩
    · rintro ⟨i, low, high, rfl⟩
      refine ⟨⟨i, low, high, rfl⟩, 46 :: stamp ++ 45 :: padded 3 i, by simp, ?_⟩
      rw [lastLogFileName, append_assoc]
  have closed : pureFileName ∉ (removeHistoryLogFile pureFileName keepFileCount dir).2.names := by
    rw [Directory.names, mem_map, removeHistoryLogFile_entries]
    rintro ⟨e, mem, same⟩
    obtain ⟨i, -, -, rfl⟩ := (renamed e).mp (mem_filter.mp mem).1
    exact pure_ne_lastLogFileName pureFileName stamp i same.symm
  refine ⟨_, files, ?_⟩
  intro i low high
  have here := (files _).mpr ⟨i, low, high, rfl⟩
  rw [rotateLog, dirEq, if_neg limit, Directory.mem_create _ closed, removeHistoryLogFile_entries,
    mem_filter, renamed, decide_eq_true_iff]
  constructor
  · rintro (⟨-, stays⟩ | same)
    · exact not_le.mp fun more => stays ⟨here, more⟩
    · exact absurd (DirEntry.mk.inj same).1.symm (pure_ne_lastLogFileName pureFileName stamp i)
  · exact fun few => .inl ⟨⟨i, low, high, rfl⟩, fun outdated => not_lt.mpr outdated.2 few⟩

end Burst

/-- A directory that two logs write to: the limit of one removes the file of the other. And a log
that is rotated a thousand times within a second: with one file to be kept, it is the last but one. -/
theorem wrong_files_removed :
    (⟨ascii "app.log-audit", true⟩ : DirEntry) ∉
      (removeHistoryLogFile (ascii "app.log") 1
        ⟨[⟨ascii "app.log", true⟩, ⟨ascii "app.log-audit", true⟩,
          ⟨ascii "app.log.20260101000000-001", true⟩], by decide⟩).2.entries ∧
    (⟨lastLogFileName (ascii "app.log") (ascii "20260101000000") 1000, true⟩ : DirEntry) ∉
      (rotateLog (ascii "app.log") (ascii "20260101000000") 1
        (burst (ascii "app.log") (ascii "20260101000000") 999)).entries ∧
    (⟨lastLogFileName (ascii "app.log") (ascii "20260101000000") 999, true⟩ : DirEntry) ∈
      (rotateLog (ascii "app.log") (ascii "20260101000000") 1
        (burst (ascii "app.log") (ascii "20260101000000") 999)).entries := by
  refine ⟨by decide, ?_⟩
  obtain ⟨files, all, stays⟩ := mem_rotateLog_burst (ascii "app.log") (ascii "20260101000000")
    999 1 (by decide)
  constructor
  · rw [stays 1000 (by decide) (by decide), not_lt]
    exact countP_pos_iff.mpr
      ⟨_, (all _).mpr ⟨999, by decide, by decide, rfl⟩, decide_eq_true (thousand_lt _ _)⟩
  · have none : above byteOrder files
        (lastLogFileName (ascii "app.log") (ascii "20260101000000") 999) = 0 := by
      apply above_eq_zero
      intro name mem
      obtain ⟨i, -, high, rfl⟩ := (all name).mp mem
      exact le_of_le_thousand _ _ high
    rw [stays 999 (by decide) (by decide), none]
    decide

end AgentEngine.Alog
