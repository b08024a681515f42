import AgentEngine.Lib.Transitions
import Mathlib.Data.Nat.ModEq

/-!
`CircularQueue` (`circular_queue.h`), a queue in an array of fixed length, and `CircularPoolQueue`
(`workitem_queue.h`), which makes it the default queue of a thread pool.

The array is read from `front_` on and around its end. That `back_` is where this reading ends, and
that no more items are in it than it has room for, are part of the type; the operations then are
those of a list (`toList_pushBack`, `toList_popFront`), and runs of them are those of a double-ended
queue (`refines_deque`, `keeps_bounded_deque`).
-/

namespace AgentEngine.Util

open Lib List Function

structure CircularQueue (α : Type) (capacity : Nat) where
  items : Nat → α
  size : Nat
  front : Nat
  back : Nat
  size_le : size ≤ capacity
  front_lt : size ≠ 0 → front < capacity
  back_eq : size ≠ 0 → back = (front + (size - 1)) % capacity

namespace CircularQueue

variable {α : Type} {capacity : Nat}

/-- The constructor; the slots of `items_` hold anything. -/
def new (capacity : Nat) (items : Nat → α) : CircularQueue α capacity where
  items := items
  size := 0
  front := 0
  back := 0
  size_le := Nat.zero_le _
  front_lt some_item := absurd rfl some_item
  back_eq some_item := absurd rfl some_item

/-- An index after `++`, which goes around the end of the array. -/
def next (capacity index : Nat) : Nat := if index + 1 = capacity then 0 else index + 1

theorem next_eq_mod {index : Nat} (inside : index < capacity) :
    next capacity index = (index + 1) % capacity := by
  unfold next
  split_ifs with last
  · rw [last, Nat.mod_self]
  · rw [Nat.mod_eq_of_lt (by omega)]

theorem next_lt {index : Nat} (inside : index < capacity) : next capacity index < capacity := by
  rw [next_eq_mod inside]
  exact Nat.mod_lt _ (by omega)

/-- An index after `--`. -/
def prev (capacity index : Nat) : Nat := if index = 0 then capacity - 1 else index - 1

theorem prev_lt {index : Nat} (inside : index < capacity) : prev capacity index < capacity := by
  unfold prev
  split_ifs <;> omega

theorem prev_next (index : Nat) : prev capacity (next capacity index) = index := by
  grind [prev, next]

theorem next_prev {index : Nat} (inside : index < capacity) :
    next capacity (prev capacity index) = index := by
  unfold next prev
  split_ifs <;> omega

variable (q : CircularQueue α capacity)

theorem next_back (some_item : q.size ≠ 0) :
    next capacity q.back = (q.front + q.size) % capacity := by
  have inside : q.back < capacity := by
    rw [q.back_eq some_item]
    exact Nat.mod_lt _ ((Nat.pos_of_ne_zero some_item).trans_le q.size_le)
  rw [next_eq_mod inside, q.back_eq some_item, Nat.mod_add_mod]
  congr 1
  omega

/-- `push_back`. -/
def pushBack (room : q.size < capacity) (t : α) : CircularQueue α capacity :=
  if empty : q.size = 0 then
    { items := update q.items 0 t
      size := 1
      front := 0
      back := 0
      size_le := by omega
      front_lt := fun _ => by omega
      back_eq := fun _ => (Nat.zero_mod _).symm }
  else
    { items := update q.items (next capacity q.back) t
      size := q.size + 1
      front := q.front
      back := next capacity q.back
      size_le := room
      front_lt := fun _ => q.front_lt empty
      back_eq := fun _ => q.next_back empty }

/-- `pop_front`, which leaves the item where it is. -/
def popFront (some_item : q.size ≠ 0) : CircularQueue α capacity where
  items := q.items
  size := q.size - 1
  front := next capacity q.front
  back := q.back
  size_le := by
    have := q.size_le
    omega
  front_lt _ := next_lt (q.front_lt some_item)
  back_eq more := by
    rw [next_eq_mod (q.front_lt some_item), Nat.mod_add_mod, q.back_eq some_item]
    congr 1
    omega

theorem prev_front (some_item : q.size ≠ 0) (i : Nat) :
    (q.front + i) % capacity = (prev capacity q.front + (i + 1)) % capacity := by
  have inside := q.front_lt some_item
  conv_lhs => rw [← next_prev inside, next_eq_mod (prev_lt inside), Nat.mod_add_mod]
  congr 1
  omega

/-- `push_front`. -/
def pushFront (room : q.size < capacity) (t : α) : CircularQueue α capacity :=
  if empty : q.size = 0 then q.pushBack room t
  else
    { items := update q.items (prev capacity q.front) t
      size := q.size + 1
      front := prev capacity q.front
      back := q.back
      size_le := room
      front_lt := fun _ => prev_lt (q.front_lt empty)
      back_eq := fun _ => by
        rw [q.back_eq empty, q.prev_front empty]
        congr 1
        omega }

/-- `pop_back`, which leaves the item where it is. -/
def popBack (some_item : q.size ≠ 0) : CircularQueue α capacity where
  items := q.items
  size := q.size - 1
  front := q.front
  back := prev capacity q.back
  size_le := (Nat.sub_le _ _).trans q.size_le
  front_lt _ := q.front_lt some_item
  back_eq more := by
    have last : q.front + (q.size - 1) = q.front + (q.size - 1 - 1) + 1 := by omega
    have inside := Nat.mod_lt (q.front + (q.size - 1 - 1)) (q.front_lt some_item).pos
    rw [q.back_eq some_item, last, ← Nat.mod_add_mod, ← next_eq_mod inside, prev_next]

/-- The items from `front_` to `back_`. -/
def toList : List α :=
  (range q.size).map fun i => q.items ((q.front + i) % capacity)

@[simp]
theorem length_toList : q.toList.length = q.size := by
  simp [toList]

theorem toList_eq_nil {q : CircularQueue α capacity} (empty : q.size = 0) : q.toList = [] :=
  eq_nil_of_length_eq_zero (q.length_toList.trans empty)

/-- Different items of the queue are in different slots. -/
theorem slot_ne {front i j : Nat} (less : i < j) (inside : j < capacity) :
    (front + i) % capacity ≠ (front + j) % capacity := by
  intro same
  have i_eq := Nat.ModEq.add_left_cancel' front (same : front + i ≡ front + j [MOD capacity])
  have := Nat.ModEq.eq_of_lt_of_lt i_eq (by omega) inside
  omega

theorem toList_pushBack (room : q.size < capacity) (t : α) :
    (q.pushBack room t).toList = q.toList ++ [t] := by
  unfold pushBack
  split_ifs with empty
  · rw [toList_eq_nil empty]
    simp [toList]
  · simp only [toList, range_succ, map_append, map_cons, map_nil,
      q.next_back empty, update_self]
    congr 1
    -- the other slots keep their items
    apply map_congr_left
    intro i before
    exact update_of_ne (slot_ne (mem_range.mp before) room) _ _

theorem toList_popFront (some_item : q.size ≠ 0) :
    q.toList = q.items q.front :: (q.popFront some_item).toList := by
  obtain ⟨rest, size⟩ := Nat.exists_eq_succ_of_ne_zero some_item
  simp only [toList, popFront, size, range_succ_eq_map, map_cons, map_map,
    Nat.add_zero, Nat.mod_eq_of_lt (q.front_lt some_item), Nat.succ_sub_one]
  congr 1
  apply map_congr_left
  intro i _
  simp only [Function.comp_apply]
  rw [next_eq_mod (q.front_lt some_item), Nat.mod_add_mod, Nat.succ_eq_add_one]
  congr 2
  omega

theorem toList_pushFront (room : q.size < capacity) (t : α) :
    (q.pushFront room t).toList = t :: q.toList := by
  unfold pushFront
  split_ifs with empty
  · rw [toList_pushBack, toList_eq_nil empty]
    rfl
  · have first : prev capacity q.front % capacity = prev capacity q.front :=
      Nat.mod_eq_of_lt (prev_lt (q.front_lt empty))
    simp only [toList, range_succ_eq_map, map_cons, map_map, Nat.add_zero, first, update_self]
    congr 1
    apply map_congr_left
    intro i before
    rw [q.prev_front empty]
    -- the new item is in a slot of its own
    have other : (prev capacity q.front + 0) % capacity ≠ _ :=
      slot_ne i.succ_pos (Nat.lt_of_le_of_lt (mem_range.mp before) room)
    rw [Nat.add_zero, first] at other
    exact update_of_ne other.symm _ _

theorem toList_popBack (some_item : q.size ≠ 0) :
    q.toList = (q.popBack some_item).toList ++ [q.items q.back] := by
  obtain ⟨rest, size⟩ := Nat.exists_eq_succ_of_ne_zero some_item
  simp only [toList, popBack, q.back_eq some_item, size, Nat.succ_sub_one, range_succ, map_append,
    map_cons, map_nil]

/-- `CircularPoolQueue::push`; a full queue does not take the item. -/
def push (item : α) : Option (CircularQueue α capacity) :=
  if room : q.size < capacity then some (q.pushBack room item) else none

/-- `CircularPoolQueue::pop`; an empty queue has none. -/
def pop : Option (α × CircularQueue α capacity) :=
  if some_item : q.size ≠ 0 then some (q.items q.front, q.popFront some_item) else none

variable {q} {q' : CircularQueue α capacity} {item : α}

theorem toList_of_push (pushed : q.push item = some q') : q'.toList = q.toList ++ [item] := by
  unfold push at pushed
  split_ifs at pushed with room
  cases pushed
  exact q.toList_pushBack room item

theorem toList_of_pop (popped : q.pop = some (item, q')) : q.toList = item :: q'.toList := by
  unfold pop at popped
  split_ifs at popped with some_item
  cases popped
  exact q.toList_popFront some_item

theorem size_eq_zero_of_pop (none_left : q.pop = none) : q.size = 0 := by
  unfold pop at none_left
  split_ifs at none_left with some_item
  exact not_not.mp some_item

/-! ### Runs -/

variable (q)

inductive Operation (α : Type) where
  | pushFront (t : α)
  | pushBack (t : α)
  | popFront
  | popBack

/-- An operation whose assertion holds. -/
def step : Operation α → Option (CircularQueue α capacity)
  | .pushFront t => if room : q.size < capacity then some (q.pushFront room t) else none
  | .pushBack t => if room : q.size < capacity then some (q.pushBack room t) else none
  | .popFront => if some_item : q.size ≠ 0 then some (q.popFront some_item) else none
  | .popBack => if some_item : q.size ≠ 0 then some (q.popBack some_item) else none

/-- The same operation of a double-ended queue. -/
def ideal (l : List α) : Operation α → List α
  | .pushFront t => t :: l
  | .pushBack t => l ++ [t]
  | .popFront => l.tail
  | .popBack => l.dropLast

/-- What the queue shows are the items `l`, and its indices are those of slots, also when it is
empty. -/
structure Shows (l : List α) : Prop where
  toList : q.toList = l
  front : q.front < capacity
  back : q.back < capacity

variable {q} {l : List α} {ops : List (Operation α)}

theorem Shows.step (h : q.Shows l) {op : Operation α} (moved : q.step op = some q') :
    q'.Shows (ideal l op) := by
  obtain ⟨rfl, front, back⟩ := h
  cases op <;> simp only [CircularQueue.step] at moved <;> split_ifs at moved with ok <;>
    cases moved
  · refine ⟨q.toList_pushFront ok _, ?_, ?_⟩ <;> grind [pushFront, pushBack, next, prev]
  · refine ⟨q.toList_pushBack ok _, ?_, ?_⟩ <;> grind [pushBack, next]
  · refine ⟨?_, next_lt front, back⟩
    rw [ideal, q.toList_popFront ok, tail_cons]
  · refine ⟨?_, front, prev_lt back⟩
    rw [ideal, q.toList_popBack ok, dropLast_concat]

theorem Shows.run (h : q.Shows l) (run : after CircularQueue.step q ops = some q') :
    q'.Shows (ops.foldl ideal l) := by
  induction ops generalizing q l with
  | nil =>
    cases run
    exact h
  | cons op ops ih =>
    obtain ⟨t, first, rest⟩ := after_cons.mp run
    exact ih (h.step first) rest

/-- `front()` and `back()` are the ends of what the queue shows. -/
theorem Shows.ends (h : q.Shows l) (some_item : q.size ≠ 0) :
    l.head? = some (q.items q.front) ∧ l.getLast? = some (q.items q.back) := by
  rw [← h.toList]
  constructor
  · rw [q.toList_popFront some_item]
    rfl
  · rw [q.toList_popBack some_item]
    exact getLast?_concat

/-- Along every run of operations whose assertions hold the queue holds what a double-ended queue
holds, and its indices stay inside the array. -/
theorem refines_deque (pos : 0 < capacity) (items : Nat → α)
    (run : after step (new capacity items) ops = some q) :
    q.toList = ops.foldl ideal [] ∧ q.size = (ops.foldl ideal []).length ∧
    (q.size ≠ 0 → (ops.foldl ideal []).head? = some (q.items q.front) ∧
      (ops.foldl ideal []).getLast? = some (q.items q.back)) ∧
    q.front < capacity ∧ q.back < capacity := by
  have start : (new capacity items).Shows [] := ⟨rfl, pos, pos⟩
  have shows_ := start.run run
  refine ⟨shows_.toList, ?_, shows_.ends, shows_.front, shows_.back⟩
  rw [← shows_.toList, length_toList]

/-- Four operations on two slots; the front goes around the start of the array. -/
theorem refines_deque_wrapped :
    let ops := [.pushBack 1, .pushFront 2, .popBack, .pushFront 3]
    ∃ q : CircularQueue Nat 2, after step (new 2 id) ops = some q ∧ q.toList = [3, 2] := by
  intro ops
  obtain ⟨q, run⟩ := Option.isSome_iff_exists.mp
    (by decide : (after step (new 2 id : CircularQueue Nat 2) ops).isSome)
  exact ⟨q, run, (refines_deque (by decide) id run).1⟩

/-- A double-ended queue of bounded length has room for the items that are pushed, and has the items
that are popped. -/
def Admissible (capacity : Nat) : List α → List (Operation α) → Prop
  | _, [] => True
  | l, op :: ops =>
      (match op with
        | .pushFront _ | .pushBack _ => l.length < capacity
        | .popFront | .popBack => l ≠ []) ∧ Admissible capacity (ideal l op) ops

theorem Shows.run_admissible (h : q.Shows l) (admissible : Admissible capacity l ops) :
    ∃ q', after CircularQueue.step q ops = some q' := by
  induction ops generalizing q l with
  | nil => exact ⟨q, rfl⟩
  | cons op ops ih =>
    obtain ⟨here, rest⟩ := admissible
    have size : q.size = l.length := by rw [← h.toList, length_toList]
    obtain ⟨t, first⟩ : ∃ t, q.step op = some t := by
      cases op with
      | pushFront t | pushBack t => exact ⟨_, dif_pos (size.trans_lt here)⟩
      | popFront | popBack =>
        exact ⟨_, dif_pos (size.trans_ne (mt eq_nil_of_length_eq_zero here))⟩
    obtain ⟨q', run⟩ := ih (h.step first) rest
    exact ⟨q', after_cons.mpr ⟨t, first, run⟩⟩

/-- No assertion fails while a bounded double-ended queue does the same; `size`, `empty`, `front` and
`back` are its own, and the indices are those of slots. -/
theorem keeps_bounded_deque (pos : 0 < capacity) (items : Nat → α)
    (admissible : Admissible capacity [] ops) :
    ∃ q, after step (new capacity items) ops = some q ∧ q.size = (ops.foldl ideal []).length ∧
      (q.size = 0 ↔ ops.foldl ideal [] = []) ∧
      (q.size ≠ 0 → (ops.foldl ideal []).head? = some (q.items q.front) ∧
        (ops.foldl ideal []).getLast? = some (q.items q.back)) ∧
      q.front < capacity ∧ q.back < capacity := by
  have start : (new capacity items).Shows [] := ⟨rfl, pos, pos⟩
  obtain ⟨q, run⟩ := start.run_admissible admissible
  have shows_ := start.run run
  have size : q.size = (ops.foldl ideal []).length := by rw [← shows_.toList, length_toList]
  refine ⟨q, run, size, ?_, shows_.ends, shows_.front, shows_.back⟩
  rw [size, length_eq_zero_iff]

theorem keeps_bounded_deque_full :
    let ops := [.pushFront 1, .pushFront 2, .pushBack 3, .popBack]
    ∃ q : CircularQueue Nat 3, after step (new 3 id) ops = some q ∧ q.size = 2 ∧
      some 2 = some (q.items q.front) ∧ some 1 = some (q.items q.back) := by
  intro ops
  have admissible : Admissible 3 [] ops := ⟨by decide, by decide, by decide, by decide, trivial⟩
  obtain ⟨q, run, size, -, ends, -⟩ := keeps_bounded_deque (by decide) id admissible
  have two : q.size = 2 := size
  exact ⟨q, run, two, ends (by omega)⟩

end CircularQueue

end AgentEngine.Util
