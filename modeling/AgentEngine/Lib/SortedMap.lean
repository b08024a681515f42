import Mathlib

/-!
Maps that are kept sorted by their keys, under a comparison that may hold two different keys to
be equal: `std::map` with a comparator.

* `insert_of_lt`: a key behind all others goes to the end.
* `foldl_insert`: a map is built up again from its entries.
* `append_lt_append_iff`, `prefix_of_between`: the order of lists around a common prefix.
-/

namespace AgentEngine.Lib

open List

/-- A map from `κ` to `ν` whose keys are compared by their images under `rank`. -/
structure SortedMap (κ ν : Type) {β : Type} [LinearOrder β] (rank : κ → β) where
  entries : List (κ × ν) := []
  sorted : entries.Pairwise (fun e e' => rank e.1 < rank e'.1) := by exact .nil
deriving DecidableEq

namespace SortedMap

variable {κ ν β : Type} [LinearOrder β] {rank : κ → β}

@[ext] theorem ext {m m' : SortedMap κ ν rank} (h : m.entries = m'.entries) : m = m' := by
  cases m
  cases m'
  cases h
  rfl

variable (m : SortedMap κ ν rank)

def find (k : κ) : Option ν :=
  (m.entries.find? fun e => rank e.1 = rank k).map Prod.snd

def erase (k : κ) : SortedMap κ ν rank where
  entries := m.entries.filter fun e => rank e.1 ≠ rank k
  sorted := m.sorted.filter _

/-- `std::map::insert`: an entry that is there already stays. -/
def insertInto (k : κ) (v : ν) (rank : κ → β) : List (κ × ν) → List (κ × ν)
  | [] => [(k, v)]
  | e :: es =>
      if rank k < rank e.1 then (k, v) :: e :: es
      else if rank e.1 < rank k then e :: insertInto k v rank es
      else e :: es

variable {k : κ}

theorem mem_insertInto {v : ν} {es : List (κ × ν)} {e : κ × ν}
    (h : e ∈ insertInto k v rank es) : e = (k, v) ∨ e ∈ es := by
  induction es with
  | nil => exact .inl (mem_singleton.mp h)
  | cons e' es ih =>
    unfold insertInto at h
    split_ifs at h
    · exact mem_cons.mp h
    · rcases mem_cons.mp h with rfl | h
      · exact .inr mem_cons_self
      · exact (ih h).imp id (mem_cons_of_mem e')
    · exact .inr h

theorem sorted_insertInto (k : κ) (v : ν) {es : List (κ × ν)}
    (sorted : es.Pairwise fun e e' => rank e.1 < rank e'.1) :
    (insertInto k v rank es).Pairwise fun e e' => rank e.1 < rank e'.1 := by
  induction es with
  | nil => exact pairwise_singleton ..
  | cons e es ih =>
    obtain ⟨first, rest⟩ := pairwise_cons.mp sorted
    unfold insertInto
    split_ifs with before behind
    · refine pairwise_cons.mpr ⟨?_, sorted⟩
      intro e' he
      rcases mem_cons.mp he with rfl | he
      · exact before
      · exact lt_trans before (first e' he)
    · refine pairwise_cons.mpr ⟨?_, ih rest⟩
      intro e' he
      rcases mem_insertInto he with rfl | he
      · exact behind
      · exact first e' he
    · exact sorted

def insert (k : κ) (v : ν) : SortedMap κ ν rank where
  entries := insertInto k v rank m.entries
  sorted := sorted_insertInto k v m.sorted

variable (v : ν)

theorem insert_of_lt {m : SortedMap κ ν rank} (last : ∀ e ∈ m.entries, rank e.1 < rank k) :
    (m.insert k v).entries = m.entries ++ [(k, v)] := by
  change insertInto k v rank m.entries = _
  generalize m.entries = es at last
  induction es with
  | nil => rfl
  | cons e es ih =>
    have behind := last e mem_cons_self
    rw [insertInto, if_neg (lt_asymm behind), if_pos behind,
      ih fun e' he => last e' (mem_cons_of_mem e he)]
    rfl

theorem find_eq_none {m : SortedMap κ ν rank}
    (absent : ∀ e ∈ m.entries, rank e.1 ≠ rank k) : m.find k = none := by
  rw [find, find?_eq_none.mpr, Option.map_none]
  intro e he same
  exact absent e he (of_decide_eq_true same)

/-- With keys that compare equal only if they are, what is found is what is there. -/
theorem find_eq_some (inj : Function.Injective rank) {m : SortedMap κ ν rank} {v : ν} :
    m.find k = some v ↔ (k, v) ∈ m.entries := by
  constructor
  · intro found
    obtain ⟨e, first, rfl⟩ := Option.map_eq_some_iff.mp found
    have here := find?_some first
    have same := inj (of_decide_eq_true here)
    exact same ▸ mem_of_find?_eq_some first
  · intro mem
    cases first : m.entries.find? fun e => rank e.1 = rank k with
    | none => exact absurd (decide_eq_true rfl) (find?_eq_none.mp first (k, v) mem)
    | some e =>
      have here := find?_some first
      have same := of_decide_eq_true here
      have apart : m.entries.Pairwise fun e e' => rank e.1 ≠ rank e'.1 :=
        m.sorted.imp fun lt => ne_of_lt lt
      have unique : e = (k, v) := by
        by_contra ne
        have : Std.Symm fun e e' : κ × ν => rank e.1 ≠ rank e'.1 := ⟨fun _ _ => Ne.symm⟩
        exact apart.forall (mem_of_find?_eq_some first) mem ne same
      rw [find, first, unique]
      rfl

theorem find?_insertInto_of_ne {k k' : κ} (other : rank k ≠ rank k') (es : List (κ × ν)) :
    (insertInto k v rank es).find? (fun e => rank e.1 = rank k') =
      es.find? fun e => rank e.1 = rank k' := by
  have skip : ∀ es' : List (κ × ν), ((k, v) :: es').find? (fun e => rank e.1 = rank k') =
      es'.find? fun e => rank e.1 = rank k' := fun es' =>
    find?_cons_of_neg (fun same => other (of_decide_eq_true same))
  induction es with
  | nil => exact skip []
  | cons e es ih =>
    unfold insertInto
    split_ifs
    · exact skip _
    · rw [find?_cons, find?_cons, ih]
    · rfl

theorem find_insert_of_ne {m : SortedMap κ ν rank} {k k' : κ} (other : rank k ≠ rank k') :
    (m.insert k v).find k' = m.find k' :=
  congrArg (Option.map Prod.snd) (find?_insertInto_of_ne v other m.entries)

/-- What is there already is found again. -/
theorem find_insert {m : SortedMap κ ν rank} :
    (m.insert k v).find k = some ((m.find k).getD v) := by
  change ((insertInto k v rank m.entries).find? fun e => rank e.1 = rank k).map Prod.snd =
    some (((m.entries.find? fun e => rank e.1 = rank k).map Prod.snd).getD v)
  have sorted := m.sorted
  generalize m.entries = es at sorted
  induction es with
  | nil => simp [insertInto]
  | cons e es ih =>
    obtain ⟨first, rest⟩ := pairwise_cons.mp sorted
    unfold insertInto
    split_ifs with before behind
    · have absent : ∀ e' ∈ e :: es, ¬ rank e'.1 = rank k := by
        intro e' mem
        rcases mem_cons.mp mem with rfl | mem
        · exact (ne_of_lt before).symm
        · exact (ne_of_lt (before.trans (first e' mem))).symm
      have none : (e :: es).find? (fun e => rank e.1 = rank k) = none := by
        rw [find?_eq_none]
        exact fun e' mem => by simpa using absent e' mem
      rw [none, find?_cons_of_pos (by simp)]
      rfl
    · simpa [find?_cons, ne_of_lt behind] using ih rest
    · simp [le_antisymm (not_lt.mp before) (not_lt.mp behind)]

end SortedMap

/-! ### Lists as keys -/

variable {α : Type} [LinearOrder α] {l m p : List α}

theorem append_lt_append_iff : l ++ m < l ++ p ↔ m < p := by
  induction l with
  | nil => rfl
  | cons a l ih => simp [ih]

theorem lt_append_of_ne_nil (l : List α) (ne : m ≠ []) : l < l ++ m := by
  cases m with
  | nil => exact absurd rfl ne
  | cons a m =>
    have below : l ++ [] < l ++ a :: m := append_lt_append_iff.mpr (nil_lt_cons a m)
    rwa [append_nil] at below

theorem prefix_of_between (low : l ≤ p) (high : p < l ++ m) : l <+: p := by
  induction l generalizing p with
  | nil => exact nil_prefix
  | cons a l ih =>
    cases p with
    | nil => exact absurd (nil_lt_cons a l) (not_lt.mpr low)
    | cons b p =>
      rw [cons_append, cons_lt_cons_iff] at high
      rcases high with less | ⟨rfl, shorter⟩
      · exact absurd (cons_lt_cons_iff.mpr (.inl less)) (not_lt.mpr low)
      · rw [cons_prefix_cons]
        refine ⟨rfl, ih (not_lt.mp ?_) shorter⟩
        exact fun above => absurd (cons_lt_cons_iff.mpr (.inr ⟨rfl, above⟩)) (not_lt.mpr low)

end AgentEngine.Lib
