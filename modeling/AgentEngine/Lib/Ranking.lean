import Mathlib.Data.List.Sort

/-!
Cutting a list in two by rank.

* `mem_take_sort`: the lower part of a sorted list is made of the elements with enough others above
  them.
* `length_filter_above`: how many these are.
-/

namespace AgentEngine.Lib

open List

variable {α β : Type} [LinearOrder β] (rank : α → β)

/-- The elements in the order of their ranks. -/
def sortBy (l : List α) : List α := l.insertionSort fun a b => rank a ≤ rank b

/-- How many elements are ranked above one. -/
def above (l : List α) (a : α) : Nat := l.countP fun b => rank a < rank b

variable {rank} {l : List α} {a : α}

theorem above_perm {l' : List α} (perm : l.Perm l') (a : α) : above rank l a = above rank l' a :=
  perm.countP_eq _

theorem above_lt_length (mem : a ∈ l) : above rank l a < l.length := by
  apply lt_of_le_of_ne countP_le_length
  intro all
  rw [countP_eq_length] at all
  exact lt_irrefl _ (of_decide_eq_true (all a mem))

theorem above_append (l l' : List α) (a : α) :
    above rank (l ++ l') a = above rank l a + above rank l' a :=
  countP_append

theorem above_eq_length (all : ∀ b ∈ l, rank a < rank b) : above rank l a = l.length := by
  rw [above, countP_eq_length]
  exact fun b mem => decide_eq_true (all b mem)

theorem above_eq_zero (all : ∀ b ∈ l, rank b ≤ rank a) : above rank l a = 0 := by
  rw [above, countP_eq_zero]
  exact fun b mem here => not_lt.mpr (all b mem) (of_decide_eq_true here)

theorem sortBy_strict (inj : Function.Injective rank) (nodup : l.Nodup) :
    (sortBy rank l).Pairwise fun a b => rank a < rank b := by
  have : Std.Total fun a b : α => rank a ≤ rank b := ⟨fun a b => le_total (rank a) (rank b)⟩
  have : IsTrans α fun a b : α => rank a ≤ rank b := ⟨fun _ _ _ h h' => h.trans h'⟩
  have sorted : (sortBy rank l).Pairwise fun a b => rank a ≤ rank b := pairwise_insertionSort _ l
  have distinct : (sortBy rank l).Nodup := (perm_insertionSort _ l).nodup_iff.mpr nodup
  exact sorted.imp₂ (fun a b le ne => lt_of_le_of_ne le fun same => ne (inj same)) distinct

/-- The lower part of a list in order is made of the elements with the whole upper part above. -/
theorem mem_lower_iff {low high : List α}
    (strict : (low ++ high).Pairwise fun a b => rank a < rank b) (mem : a ∈ low ++ high) :
    a ∈ low ↔ high.length ≤ above rank (low ++ high) a := by
  obtain ⟨-, -, between⟩ := pairwise_append.mp strict
  rw [above_append]
  constructor
  · intro here
    rw [above_eq_length fun b there => between a here b there]
    omega
  · intro many
    rcases mem_append.mp mem with here | there
    · exact here
    · have none := above_eq_zero fun b here => (between b here a there).le
      have few : above rank high a < high.length := above_lt_length there
      omega

/-- Of a list in order, the elements before the last `k` are those with at least `k` above. -/
theorem mem_take_sort (inj : Function.Injective rank) (nodup : l.Nodup) {k : Nat}
    (enough : k ≤ l.length) (mem : a ∈ l) :
    a ∈ (sortBy rank l).take (l.length - k) ↔ k ≤ above rank l a := by
  have perm : (sortBy rank l).Perm l := perm_insertionSort _ l
  have parts := take_append_drop (l.length - k) (sortBy rank l)
  have tail : ((sortBy rank l).drop (l.length - k)).length = k := by
    rw [length_drop, perm.length_eq]
    omega
  have cut := mem_lower_iff (parts.symm ▸ sortBy_strict inj nodup)
    (parts.symm ▸ perm.mem_iff.mpr mem)
  rwa [tail, parts, above_perm perm] at cut

theorem length_filter_above (inj : Function.Injective rank) (nodup : l.Nodup) {k : Nat}
    (enough : k ≤ l.length) : (l.filter fun a => k ≤ above rank l a).length = l.length - k := by
  have perm : (sortBy rank l).Perm l := perm_insertionSort _ l
  have same : (l.filter fun a => k ≤ above rank l a).Perm ((sortBy rank l).take (l.length - k)) := by
    apply (perm_ext_iff_of_nodup (nodup.filter _) _).mpr
    · intro a
      rw [mem_filter, decide_eq_true_iff]
      constructor
      · rintro ⟨mem, many⟩
        exact (mem_take_sort inj nodup enough mem).mpr many
      · intro low
        have mem := perm.mem_iff.mp (mem_of_mem_take low)
        exact ⟨mem, (mem_take_sort inj nodup enough mem).mp low⟩
    · exact (perm.nodup_iff.mpr nodup).sublist (take_sublist _ _)
  rw [same.length_eq, length_take, perm.length_eq]
  omega

/-- Fewer are above what is ranked higher. -/
theorem above_anti {b : α} (le : rank a ≤ rank b) (l : List α) : above rank l b ≤ above rank l a := by
  apply countP_mono_left
  intro c _ higher
  exact decide_eq_true (lt_of_le_of_lt le (of_decide_eq_true higher))

end AgentEngine.Lib
