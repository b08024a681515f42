import Mathlib.Data.List.Sort
import Mathlib.Data.List.TakeWhile

/-!
Queues that are kept in the order of a key, where elements of the same key stay in the order in
which they came: as lists.

`enqueue` puts an element behind all that have no larger key, and `combine` merges a list into a
queue, before the elements of the same key. Whether a relation holds along the result comes down to
whether it holds along the parts and between elements of the two (`pairwise_enqueue`,
`pairwise_combine_iff`).
-/

namespace AgentEngine.Lib

open List

variable {ρ β : Type} [LinearOrder β] (key : ρ → β)

/-- No key is smaller than one before it. -/
def Ordered (xs : List ρ) : Prop := xs.Pairwise fun x y => key x ≤ key y

/-- Put an element behind all that have no larger key. -/
def enqueue (xs : List ρ) (x : ρ) : List ρ :=
  xs.takeWhile (fun y => key y ≤ key x) ++ x :: xs.dropWhile fun y => key y ≤ key x

/-- Merge `ys` into `xs`, with the elements of `ys` before those of `xs` that have the same key. -/
def combine (xs ys : List ρ) : List ρ := xs.merge ys fun x y => key x < key y

/-- Take out the elements whose keys are below a bound, from the front on. -/
def below (bound : β) (xs : List ρ) : List ρ × List ρ :=
  (xs.takeWhile fun x => key x < bound, xs.dropWhile fun x => key x < bound)

variable {key} {xs ys : List ρ} {x y : ρ} {R : ρ → ρ → Prop}

/-! ### enqueue -/

theorem enqueue_perm : (enqueue key xs x).Perm (x :: xs) := by
  refine perm_middle.trans (.cons x ?_)
  rw [takeWhile_append_dropWhile]

theorem mem_enqueue : y ∈ enqueue key xs x ↔ y = x ∨ y ∈ xs :=
  enqueue_perm.mem_iff.trans mem_cons

/-- The elements behind the first one with a larger key have larger keys, too. -/
theorem Ordered.lt_of_mem_dropWhile (sorted : Ordered key xs)
    (h : y ∈ xs.dropWhile fun y => key y ≤ key x) : key x < key y := by
  induction xs with
  | nil => cases h
  | cons z xs ih =>
    obtain ⟨first, rest⟩ := pairwise_cons.mp sorted
    rw [dropWhile_cons] at h
    split at h
    · exact ih rest h
    · rename_i large
      have small : ¬ key z ≤ key x := by simpa using large
      rcases mem_cons.mp h with rfl | h
      · exact lt_of_not_ge small
      · exact lt_of_lt_of_le (lt_of_not_ge small) (first y h)

theorem pairwise_enqueue (sorted : Ordered key xs) (along : xs.Pairwise R)
    (before : ∀ y ∈ xs, key y ≤ key x → R y x) (behind : ∀ y ∈ xs, key x < key y → R x y) :
    (enqueue key xs x).Pairwise R := by
  have split := takeWhile_append_dropWhile (p := fun y => decide (key y ≤ key x)) (l := xs)
  rw [← split] at along
  obtain ⟨front, back, across⟩ := pairwise_append.mp along
  refine pairwise_append.mpr ⟨front, pairwise_cons.mpr ⟨?_, back⟩, ?_⟩
  · intro y hy
    exact behind y ((dropWhile_sublist _).mem hy) (sorted.lt_of_mem_dropWhile hy)
  · intro y hy z hz
    rcases mem_cons.mp hz with rfl | hz
    · have small := mem_takeWhile_imp hy
      exact before y ((takeWhile_sublist _).mem hy) (of_decide_eq_true small)
    · exact across y hy z hz

theorem Ordered.enqueue (sorted : Ordered key xs) : Ordered key (enqueue key xs x) :=
  pairwise_enqueue sorted sorted (fun _ _ small => small) fun _ _ large => le_of_lt large

theorem enqueue_last (all : ∀ y ∈ xs, key y ≤ key x) : enqueue key xs x = xs ++ [x] := by
  have small : ∀ y ∈ xs, decide (key y ≤ key x) = true := fun y hy => decide_eq_true (all y hy)
  rw [enqueue, takeWhile_eq_self_iff.mpr small, dropWhile_eq_nil_iff.mpr small]

theorem enqueue_first (first : key x < key y) : enqueue key (y :: xs) x = x :: y :: xs := by
  have large : ¬ key y ≤ key x := not_le_of_gt first
  simp only [enqueue, takeWhile_cons, dropWhile_cons, large, decide_false,
    Bool.false_eq_true, if_false, nil_append]

/-- The place of an element is given by those that it is put behind. -/
theorem enqueue_eq {before behind : List ρ}
    (taken : (before ++ behind).takeWhile (fun y => key y ≤ key x) = before) :
    enqueue key (before ++ behind) x = before ++ x :: behind := by
  have whole := takeWhile_append_dropWhile
    (p := fun y => decide (key y ≤ key x)) (l := before ++ behind)
  rw [taken] at whole
  rw [enqueue, taken, append_cancel_left whole]

/-! ### combine -/

theorem combine_perm : (combine key xs ys).Perm (xs ++ ys) := merge_perm_append _

theorem mem_combine {z : ρ} : z ∈ combine key xs ys ↔ z ∈ xs ∨ z ∈ ys := mem_merge

theorem combine_ne_nil (h : xs ≠ [] ∨ ys ≠ []) : combine key xs ys ≠ [] := by
  intro none_left
  have empty := append_eq_nil_iff.mp (nil_perm.mp (none_left ▸ combine_perm))
  rcases h with h | h
  · exact h empty.1
  · exact h empty.2

@[simp] theorem combine_nil_left : combine key [] ys = ys := nil_merge ys

@[simp] theorem combine_nil_right : combine key xs [] = xs := merge_right xs

theorem combine_cons_cons : combine key (x :: xs) (y :: ys) =
    if key x < key y then x :: combine key xs (y :: ys) else y :: combine key (x :: xs) ys := by
  rw [combine, cons_merge_cons]
  simp only [decide_eq_true_eq]
  rfl

/-- A relation holds along the result if it holds along the two lists and between elements of
them, in the order that they come in. -/
theorem pairwise_combine_iff (sorted : Ordered key xs) (sorted' : Ordered key ys) :
    (combine key xs ys).Pairwise R ↔
      xs.Pairwise R ∧ ys.Pairwise R ∧
        ∀ x ∈ xs, ∀ y ∈ ys, (key x < key y → R x y) ∧ (key y ≤ key x → R y x) := by
  induction xs generalizing ys with
  | nil => simp
  | cons x xs ihx =>
    induction ys with
    | nil => simp
    | cons y ys ihy =>
      obtain ⟨firstx, restx⟩ := pairwise_cons.mp sorted
      obtain ⟨firsty, resty⟩ := pairwise_cons.mp sorted'
      rw [combine_cons_cons]
      split_ifs with smaller
      · rw [pairwise_cons, pairwise_cons, ihx restx sorted', forall_mem_cons]
        have behind : ∀ y' ∈ y :: ys, key x < key y' := by
          intro y' hy
          rcases mem_cons.mp hy with rfl | hy
          · exact smaller
          · exact lt_of_lt_of_le smaller (firsty y' hy)
        constructor
        · rintro ⟨first, alongx, alongy, across⟩
          refine ⟨⟨fun x' hx => first x' (mem_combine.mpr (.inl hx)), alongx⟩, alongy, ?_, across⟩
          intro y' hy
          exact ⟨fun _ => first y' (mem_combine.mpr (.inr hy)),
            fun le => absurd (behind y' hy) (not_lt_of_ge le)⟩
        · rintro ⟨⟨first, alongx⟩, alongy, here, across⟩
          refine ⟨?_, alongx, alongy, across⟩
          intro z hz
          rcases mem_combine.mp hz with hz | hz
          · exact first z hz
          · exact (here z hz).1 (behind z hz)
      · have behind : ∀ x' ∈ x :: xs, key y ≤ key x' := by
          intro x' hx
          rcases mem_cons.mp hx with rfl | hx
          · exact le_of_not_gt smaller
          · exact le_trans (le_of_not_gt smaller) (firstx x' hx)
        rw [pairwise_cons, ihy resty, pairwise_cons (a := y)]
        constructor
        · rintro ⟨first, alongx, alongy, across⟩
          refine ⟨alongx, ⟨fun y' hy => first y' (mem_combine.mpr (.inr hy)), alongy⟩, ?_⟩
          intro x' hx
          rw [forall_mem_cons]
          exact ⟨⟨fun lt => absurd (behind x' hx) (not_le_of_gt lt),
            fun _ => first x' (mem_combine.mpr (.inl hx))⟩, across x' hx⟩
        · rintro ⟨alongx, ⟨first, alongy⟩, across⟩
          refine ⟨?_, alongx, alongy, fun x' hx y' hy => across x' hx y' (mem_cons_of_mem _ hy)⟩
          intro z hz
          rcases mem_combine.mp hz with hz | hz
          · exact (across z hz y mem_cons_self).2 (behind z hz)
          · exact first z hz

theorem Ordered.combine (sorted : Ordered key xs) (sorted' : Ordered key ys) :
    Ordered key (combine key xs ys) :=
  (pairwise_combine_iff sorted sorted').mpr
    ⟨sorted, sorted', fun _ _ _ _ => ⟨le_of_lt, id⟩⟩

/-- What has no larger keys goes to the front as it is. -/
theorem combine_of_le (before : ∀ x ∈ xs, ∀ y ∈ ys, key y ≤ key x) :
    combine key xs ys = ys ++ xs := by
  induction ys with
  | nil => simp
  | cons y ys ih =>
    have rest := ih fun x hx y' hy => before x hx y' (mem_cons_of_mem y hy)
    cases xs with
    | nil => simp
    | cons x xs =>
      have first := before x mem_cons_self y mem_cons_self
      rw [combine_cons_cons, if_neg (not_lt_of_ge first), rest]
      rfl

/-- The last element is the first one below which everything is. -/
theorem Ordered.le_getLast? (sorted : Ordered key xs) (last : xs.getLast? = some y) :
    ∀ x ∈ xs, key x ≤ key y := by
  obtain ⟨before, rfl⟩ := getLast?_eq_some_iff.mp last
  intro x hx
  rcases mem_append.mp hx with hx | hx
  · exact (pairwise_append.mp sorted).2.2 x hx y (mem_singleton_self y)
  · rw [mem_singleton.mp hx]

theorem Ordered.head?_le (sorted : Ordered key xs) (first : xs.head? = some y) :
    ∀ x ∈ xs, key y ≤ key x := by
  cases xs with
  | nil => cases first
  | cons z xs =>
    cases first
    intro x hx
    rcases mem_cons.mp hx with rfl | hx
    · exact le_rfl
    · exact (pairwise_cons.mp sorted).1 x hx

/-! ### below -/

theorem below_append (key : ρ → β) (bound : β) (xs : List ρ) :
    (below key bound xs).1 ++ (below key bound xs).2 = xs := takeWhile_append_dropWhile

theorem below_cons_of_lt {bound : β} (small : key x < bound) :
    below key bound (x :: xs) = (x :: (below key bound xs).1, (below key bound xs).2) := by
  simp only [below, takeWhile_cons, dropWhile_cons, small, decide_true, if_true]

theorem below_cons_of_ge {bound : β} (large : ¬ key x < bound) :
    below key bound (x :: xs) = ([], x :: xs) := by
  simp only [below, takeWhile_cons, dropWhile_cons, large, decide_false,
    Bool.false_eq_true, if_false]

/-- Along a list in order, what is taken out is everything below the bound. -/
theorem Ordered.below_eq_filter (sorted : Ordered key xs) (bound : β) :
    below key bound xs =
      (xs.filter fun x => key x < bound, xs.filter fun x => !decide (key x < bound)) := by
  induction xs with
  | nil => rfl
  | cons x xs ih =>
    obtain ⟨first, rest⟩ := pairwise_cons.mp sorted
    have tail := ih rest
    simp only [below, Prod.mk.injEq] at tail ⊢
    by_cases small : key x < bound
    · simp only [takeWhile_cons, dropWhile_cons, filter_cons, small, decide_true,
        if_true, Bool.not_true, Bool.false_eq_true, if_false, tail, and_self]
    · have large : ∀ y ∈ xs, ¬ key y < bound := fun y hy lt =>
        small (lt_of_le_of_lt (first y hy) lt)
      have none_small : xs.filter (fun y => decide (key y < bound)) = [] :=
        filter_eq_nil_iff.mpr fun y hy => by simpa using large y hy
      have all_large : xs.filter (fun y => !decide (key y < bound)) = xs :=
        filter_eq_self.mpr fun y hy => by simpa using large y hy
      simp only [takeWhile_cons, dropWhile_cons, filter_cons, small, decide_false,
        Bool.false_eq_true, if_false, Bool.not_false, if_true, none_small, all_large, and_self]

end AgentEngine.Lib
