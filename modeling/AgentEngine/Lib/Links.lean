import AgentEngine.Lib.SinglyLinked

/-!
Doubly linked lists in a heap of nodes with two link fields.

`Span l p xs n` says that the nodes `xs` are linked to each other in this order, the first
one back to `p` and the last one on to `n`: they make a list along `next`, and the same list in
reverse along `prev` (`span_iff`). Every operation on such lists changes the links
at the two ends of some spans and leaves the other nodes alone, so that each of its results
is put together from `span_append`, the frame rules and the two rules `relinkPrev` and
`relinkNext`.

* `DList.pushBack`, `DList.popFront`, `DList.insert`, `DList.remove`, `DList.append`,
  `DList.splitAt`: the operations on a list that is given by a head and a tail.
* `Span.walk_eq`, `Span.last_eq`: what loops that follow the links come to.
* `Span.nodup`: a list that ends has no node twice.
-/

namespace AgentEngine.Lib

open List Function Option

/-- The link fields of all nodes. -/
structure Links (ρ : Type) where
  next : ρ → Option ρ
  prev : ρ → Option ρ

namespace Links

variable {ρ : Type}

/-- The nodes `xs` are linked in this order, with `p` before and `n` behind them. -/
def Span (l : Links ρ) : Option ρ → List ρ → Option ρ → Prop
  | _, [], _ => True
  | p, x :: xs, n => l.prev x = p ∧ l.next x = xs.head?.or n ∧ Span l (some x) xs n

variable (l : Links ρ)

theorem span_iff (p : Option ρ) (xs : List ρ) (n : Option ρ) :
    l.Span p xs n ↔ Linked l.next xs n ∧ Linked l.prev xs.reverse p := by
  induction xs generalizing p with
  | nil => exact ⟨fun _ => ⟨trivial, trivial⟩, fun _ => trivial⟩
  | cons x xs ih =>
    simp only [Span, Linked, ih, reverse_cons, linked_append, head?_cons, some_or,
      head?_nil, none_or, and_true]
    tauto

theorem span_append (p : Option ρ) (xs ys : List ρ) (n : Option ρ) : l.Span p (xs ++ ys) n ↔
      l.Span p xs (ys.head?.or n) ∧ l.Span (xs.getLast?.or p) ys n := by
  simp only [span_iff, reverse_append, linked_append, head?_reverse]
  tauto

/-- The links of other nodes do not matter. -/
theorem Span.congr {l l' : Links ρ} {p n : Option ρ} {xs : List ρ}
    (same : ∀ x ∈ xs, l'.prev x = l.prev x ∧ l'.next x = l.next x) (h : l.Span p xs n) :
    l'.Span p xs n := by
  obtain ⟨forth, back⟩ := (span_iff ..).mp h
  exact (span_iff ..).mpr ⟨forth.congr fun x mem => (same x mem).2,
    back.congr fun x mem => (same x (mem_reverse.mp mem)).1⟩

/-- Only the links of the nodes `s` differ. -/
def Touches (l l' : Links ρ) (s : List ρ) : Prop :=
  ∀ x ∉ s, l'.prev x = l.prev x ∧ l'.next x = l.next x

theorem Touches.refl (s : List ρ) : l.Touches l s := fun _ _ => ⟨rfl, rfl⟩

theorem Touches.trans {l l' l'' : Links ρ} {s : List ρ} (h : l.Touches l' s)
    (h' : l'.Touches l'' s) : l.Touches l'' s := fun x hx =>
  ⟨(h' x hx).1.trans (h x hx).1, (h' x hx).2.trans (h x hx).2⟩

theorem Touches.mono {l l' : Links ρ} {s s' : List ρ} (h : l.Touches l' s)
    (sub : ∀ x ∈ s, x ∈ s') : l.Touches l' s' := fun x hx => h x fun hx' => hx (sub x hx')

theorem Span.of_touches {l l' : Links ρ} {p n : Option ρ} {xs s : List ρ} (h : l.Span p xs n)
    (t : l.Touches l' s) (out : ∀ x ∈ xs, x ∉ s) : l'.Span p xs n :=
  h.congr fun x hx => t x (out x hx)

/-! ### Loops along the links -/

/-- Follow `next` from a node until there is none or `stop` holds; the nodes that were
passed and the one where the loop stopped. -/
def walk (l : Links ρ) (stop : ρ → Bool) : Nat → Option ρ → List ρ × Option ρ
  | 0, x => ([], x)
  | _ + 1, none => ([], none)
  | fuel + 1, some x =>
      if stop x then ([], some x)
      else
        let r := walk l stop fuel (l.next x)
        (x :: r.1, r.2)

theorem Span.walk_eq {l : Links ρ} {p : Option ρ} {xs : List ρ} (h : l.Span p xs none)
    (stop : ρ → Bool) {fuel : Nat} (enough : xs.length < fuel) :
    l.walk stop fuel xs.head? =
      (xs.takeWhile (fun x => !stop x), (xs.dropWhile fun x => !stop x).head?) := by
  induction xs generalizing p fuel with
  | nil =>
    cases fuel with
    | zero => omega
    | succ fuel => rfl
  | cons x xs ih =>
    cases fuel with
    | zero => omega
    | succ fuel =>
      obtain ⟨-, next, rest⟩ := h
      rw [or_none] at next
      simp only [head?_cons, walk, takeWhile_cons, dropWhile_cons]
      cases hs : stop x with
      | true => simp
      | false =>
        have := ih rest (show xs.length < fuel by simpa using enough)
        simp [next, this]

/-- Follow `next` to the last node. -/
def last (l : Links ρ) : Nat → ρ → ρ
  | 0, x => x
  | fuel + 1, x =>
      match l.next x with
      | none => x
      | some y => last l fuel y

theorem Span.last_eq {l : Links ρ} {p : Option ρ} {x : ρ} {xs : List ρ}
    (h : l.Span p (x :: xs) none) {fuel : Nat} (enough : xs.length ≤ fuel) :
    some (l.last fuel x) = (x :: xs).getLast? := by
  induction xs generalizing p x fuel with
  | nil =>
    obtain ⟨-, next, -⟩ := h
    have ends : l.next x = none := by simpa using next
    cases fuel with
    | zero => rfl
    | succ fuel => simp [last, ends]
  | cons y ys ih =>
    obtain ⟨-, next, rest⟩ := h
    cases fuel with
    | zero => simp at enough
    | succ fuel =>
      have goesOn : l.next x = some y := by simpa using next
      rw [last, goesOn, getLast?_cons_cons]
      exact ih rest (by simpa using enough)

theorem Span.suffix {l : Links ρ} {p n : Option ρ} {xs ys : List ρ} (h : l.Span p (xs ++ ys) n) :
    l.Span (xs.getLast?.or p) ys n :=
  ((span_append l p xs ys n).mp h).2

theorem Span.nodup {l : Links ρ} {p : Option ρ} {xs : List ρ} (h : l.Span p xs none) :
    xs.Nodup := ((span_iff ..).mp h).1.nodup

/-- A list from `head` to `tail`. -/
structure DList (l : Links ρ) (head tail : Option ρ) (xs : List ρ) : Prop where
  head : head = xs.head?
  tail : tail = xs.getLast?
  span : l.Span none xs none

theorem DList.nil {l : Links ρ} : l.DList none none [] := ⟨rfl, rfl, trivial⟩

theorem DList.nodup {l : Links ρ} {head tail : Option ρ} {xs : List ρ}
    (h : l.DList head tail xs) : xs.Nodup := h.span.nodup

theorem DList.of_touches {l l' : Links ρ} {head tail : Option ρ} {xs s : List ρ}
    (h : l.DList head tail xs) (t : l.Touches l' s) (out : ∀ x ∈ xs, x ∉ s) :
    l'.DList head tail xs := ⟨h.head, h.tail, h.span.of_touches t out⟩

/-! ### Updates -/

variable [DecidableEq ρ]

def setNext (l : Links ρ) (x : ρ) (v : Option ρ) : Links ρ :=
  { l with next := Function.update l.next x v }

def setPrev (l : Links ρ) (x : ρ) (v : Option ρ) : Links ρ :=
  { l with prev := Function.update l.prev x v }

/-- Update `next` of a node if there is one. -/
def setNextOf (l : Links ρ) (x v : Option ρ) : Links ρ :=
  match x with
  | none => l
  | some x => l.setNext x v

/-- Update `prev` of a node if there is one. -/
def setPrevOf (l : Links ρ) (x v : Option ρ) : Links ρ :=
  match x with
  | none => l
  | some x => l.setPrev x v

/-- Link the two neighbours of a node to each other. -/
def unlink (l : Links ρ) (x : ρ) : Links ρ :=
  (l.setNextOf (l.prev x) (l.next x)).setPrevOf (l.next x) (l.prev x)

/-- Link nodes one behind the other, the first of them behind `x`; the second result is the
last node. -/
def chain (l : Links ρ) (x : ρ) : List ρ → Links ρ × ρ
  | [] => (l, x)
  | y :: ys => chain ((l.setNext x (some y)).setPrev y (some x)) y ys

section Frame

variable {l : Links ρ} {p n : Option ρ} {xs : List ρ} {s : List ρ}

theorem touches_setNext (l : Links ρ) {x : ρ} (hx : x ∈ s) (v : Option ρ) :
    l.Touches (l.setNext x v) s := by
  intro y hy
  have ne : y ≠ x := fun e => hy (e ▸ hx)
  exact ⟨rfl, update_of_ne ne ..⟩

theorem touches_setPrev (l : Links ρ) {x : ρ} (hx : x ∈ s) (v : Option ρ) :
    l.Touches (l.setPrev x v) s := by
  intro y hy
  have ne : y ≠ x := fun e => hy (e ▸ hx)
  exact ⟨update_of_ne ne .., rfl⟩

theorem touches_setNextOf (l : Links ρ) {x : Option ρ} (hx : ∀ y ∈ x, y ∈ s)
    (v : Option ρ) : l.Touches (l.setNextOf x v) s := by
  cases x with
  | none => exact .refl l s
  | some x => exact l.touches_setNext (hx x rfl) v

theorem touches_setPrevOf (l : Links ρ) {x : Option ρ} (hx : ∀ y ∈ x, y ∈ s)
    (v : Option ρ) : l.Touches (l.setPrevOf x v) s := by
  cases x with
  | none => exact .refl l s
  | some x => exact l.touches_setPrev (hx x rfl) v

section

variable (h : l.Span p xs n)
include h

theorem Span.setNext {x : ρ} (out : x ∉ xs) (v : Option ρ) : (l.setNext x v).Span p xs n :=
  h.of_touches (l.touches_setNext (mem_singleton_self x) v) fun _ hy e =>
    out (mem_singleton.mp e ▸ hy)

theorem Span.setPrev {x : ρ} (out : x ∉ xs) (v : Option ρ) : (l.setPrev x v).Span p xs n :=
  h.of_touches (l.touches_setPrev (mem_singleton_self x) v) fun _ hy e =>
    out (mem_singleton.mp e ▸ hy)

theorem Span.setNextOf {x : Option ρ} (out : ∀ y ∈ x, y ∉ xs) (v : Option ρ) :
    (l.setNextOf x v).Span p xs n := by
  cases x with
  | none => exact h
  | some x => exact h.setNext (out x rfl) v

theorem Span.setPrevOf {x : Option ρ} (out : ∀ y ∈ x, y ∉ xs) (v : Option ρ) :
    (l.setPrevOf x v).Span p xs n := by
  cases x with
  | none => exact h
  | some x => exact h.setPrev (out x rfl) v

/-- Link the first node of a span back to something else. -/
theorem Span.relinkPrev (nodup : xs.Nodup) (p' : Option ρ) :
    (l.setPrevOf xs.head? p').Span p' xs n := by
  cases xs with
  | nil => trivial
  | cons x xs =>
    obtain ⟨-, next, rest⟩ := h
    exact ⟨update_self .., next, rest.setPrev (nodup_cons.mp nodup).1 p'⟩

/-- Link the last node of a span on to something else. -/
theorem Span.relinkNext (nodup : xs.Nodup) (n' : Option ρ) :
    (l.setNextOf xs.getLast? n').Span p xs n' := by
  rcases eq_nil_or_concat xs with rfl | ⟨init, x, rfl⟩
  · trivial
  · rw [concat_eq_append] at *
    rw [getLast?_append, getLast?_singleton, some_or]
    obtain ⟨first, last⟩ := (span_append l p init [x] n).mp h
    obtain ⟨prev, -, -⟩ := last
    have out : x ∉ init := by
      have := (nodup_append.mp nodup).2.2
      exact fun hx => this x hx x (mem_singleton_self x) rfl
    apply (span_append ..).mpr
    refine ⟨first.setNext out n', prev, ?_, trivial⟩
    simp [Links.setNextOf, Links.setNext]

end

theorem Span.single (l : Links ρ) (x : ρ) (p n : Option ρ) :
    ((l.setPrev x p).setNext x n).Span p [x] n :=
  ⟨by simp [Links.setPrev, Links.setNext], by simp [Links.setNext], trivial⟩

/-- What `chain` links, and that it links nothing else. -/
theorem chain_span (l : Links ρ) (x : ρ) (xs : List ρ) (nodup : (x :: xs).Nodup) :
    l.Touches (l.chain x xs).1 (x :: xs) ∧
      some (l.chain x xs).2 = (x :: xs).getLast? ∧
      (l.chain x xs).1.Span (l.prev x) (x :: xs) ((l.chain x xs).1.next (l.chain x xs).2) := by
  induction xs generalizing l x with
  | nil => exact ⟨fun _ _ => ⟨rfl, rfl⟩, rfl, rfl, rfl, trivial⟩
  | cons y ys ih =>
    obtain ⟨out, nodup'⟩ := nodup_cons.mp nodup
    obtain ⟨frame, last, span⟩ := ih ((l.setNext x (some y)).setPrev y (some x)) y nodup'
    have ne : x ≠ y := fun e => out (e ▸ mem_cons_self)
    refine ⟨?_, last, ?_, ?_, ?_⟩
    · have behind := frame.mono fun z hz => mem_cons_of_mem x hz
      exact ((l.touches_setNext mem_cons_self _).trans
        (touches_setPrev _ (by simp) _)).trans behind
    · exact (frame x out).1.trans (update_of_ne ne ..)
    · exact (frame x out).2.trans (update_self ..)
    · have linked : ((l.setNext x (some y)).setPrev y (some x)).prev y = some x :=
        update_self ..
      rw [linked] at span
      exact span

end Frame

/-! ### Operations on lists -/

namespace DList

variable {l : Links ρ} {head tail : Option ρ}

/-- Put a list behind another one. -/
theorem append {xs zs : List ρ} (h : l.DList head tail xs) (hz : l.Span none zs none)
    (disjoint : ∀ z ∈ zs, z ∉ xs) :
    ((l.setPrevOf zs.head? tail).setNextOf tail zs.head?).DList
      (if tail = none then zs.head? else head) (zs.getLast?.or tail) (xs ++ zs) := by
  have zs_out : ∀ y ∈ zs.head?, y ∉ xs := fun y hy => disjoint y (mem_of_head? hy)
  have xs_out : ∀ y ∈ xs.getLast?, y ∉ zs := fun y hy hz => disjoint y hz (mem_of_getLast? hy)
  obtain ⟨rfl, rfl, span⟩ := h
  refine ⟨?_, by rw [getLast?_append], ?_⟩
  · cases xs <;> simp
  apply (span_append ..).mpr
  rw [or_none, or_none]
  constructor
  · exact (span.setPrevOf zs_out _).relinkNext span.nodup _
  · exact (hz.relinkPrev hz.nodup _).setNextOf xs_out _

/-- Put a node behind the list. -/
theorem pushBack {xs : List ρ} (h : l.DList head tail xs) {x : ρ} (out : x ∉ xs) :
    (((l.setPrev x tail).setNext x none).setNextOf tail (some x)).DList
      (if tail = none then some x else head) (some x) (xs ++ [x]) := by
  have same : (((l.setPrev x none).setNext x none).setPrevOf [x].head? tail) =
      (l.setPrev x tail).setNext x none := by
    simp [setPrevOf, setPrev, setNext]
  have list : ((l.setPrev x none).setNext x none).DList head tail xs :=
    ⟨h.head, h.tail, (h.span.setPrev out _).setNext out _⟩
  have := list.append (Span.single l x none none) (by simpa using out)
  rwa [same] at this

/-- Take the first node off. -/
theorem popFront {x : ρ} {xs : List ρ} (h : l.DList head tail (x :: xs)) :
    head = some x ∧
      (l.setPrevOf (l.next x) none).DList (l.next x) (if l.next x = none then none else tail) xs := by
  obtain ⟨rfl, rfl, prev, next, rest⟩ := h
  rw [or_none] at next
  refine ⟨rfl, next, ?_, ?_⟩
  · rw [next]
    cases xs with
    | nil => rfl
    | cons y ys => simp
  · rw [next]
    exact rest.relinkPrev rest.nodup none

section Middle

variable {xs ys : List ρ} {y : ρ} (h : l.DList head tail (xs ++ y :: ys))

include h

omit [DecidableEq ρ] in
/-- What a list says about a node in its middle. -/
theorem at_node :
    l.Span none xs (some y) ∧ l.Span xs.getLast? (y :: ys) none ∧ y ∉ xs ∧ y ∉ ys ∧
      ∀ z ∈ xs, z ∉ y :: ys := by
  obtain ⟨first, rest⟩ := (span_append ..).mp h.span
  have nodup := nodup_append.mp h.nodup
  have disjoint : ∀ z ∈ xs, z ∉ y :: ys := fun z hz hz' => nodup.2.2 z hz z hz' rfl
  rw [or_none] at rest
  refine ⟨first, rest, ?_, (nodup_cons.mp nodup.2.1).1, disjoint⟩
  exact fun hy => disjoint y hy mem_cons_self

/-- Put a node in front of another one. -/
theorem insert {x : ρ} (out : x ∉ xs ++ y :: ys) :
    ((((l.setPrev x (l.prev y)).setNext x (some y)).setNextOf (l.prev y) (some x)).setPrev y
      (some x)).DList (if xs = [] then some x else head) tail (xs ++ x :: y :: ys) := by
  obtain ⟨first, rest, yx, yy, disjoint⟩ := h.at_node
  obtain ⟨outx, outy⟩ := not_or.mp (mt mem_append.mpr out)
  have ne : y ≠ x := fun e => outy (e ▸ mem_cons_self)
  have xs_out : ∀ z ∈ xs.getLast?, z ∉ y :: ys := fun z hz => disjoint z (mem_of_getLast? hz)
  have x_out : ∀ z ∈ xs.getLast?, z ∉ [x] := fun z hz hx =>
    outx (mem_singleton.mp hx ▸ mem_of_getLast? hz)
  refine ⟨?_, ?_, ?_⟩
  · rw [h.head]
    cases xs <;> simp
  · rw [h.tail, getLast?_append_cons, getLast?_append_cons, getLast?_cons_cons]
  · rw [rest.1]
    apply (span_append ..).mpr
    rw [head?_cons, some_or, or_none]
    constructor
    · exact (((first.setPrev outx _).setNext outx _).relinkNext (nodup_append.mp h.nodup).1 _).setPrev yx _
    · have node := ((Span.single l x xs.getLast? (some y)).setNextOf x_out (some x)).setPrev
        (by simpa using ne) (some x)
      have behind := (((rest.setPrev outy xs.getLast?).setNext outy (some y)).setNextOf xs_out
        (some x)).relinkPrev rest.nodup (some x)
      exact ⟨node.1, node.2.1, behind⟩

/-- Take a node out. -/
theorem remove :
    (l.unlink y).DList (if head = some y then l.next y else head)
      (if tail = some y then l.prev y else tail) (xs ++ ys) := by
  obtain ⟨first, ⟨prev, next, rest⟩, yx, yy, disjoint⟩ := h.at_node
  rw [or_none] at next
  have xs_out : ∀ z ∈ xs.getLast?, z ∉ ys := fun z hz hy =>
    disjoint z (mem_of_getLast? hz) (mem_cons_of_mem _ hy)
  have ys_out : ∀ z ∈ ys.head?, z ∉ xs := fun z hz hx =>
    disjoint z hx (mem_cons_of_mem _ (mem_of_head? hz))
  refine ⟨?_, ?_, ?_⟩
  · rw [h.head, next]
    cases xs with
    | nil => simp
    | cons a as =>
      have : a ≠ y := fun e => yx (e ▸ mem_cons_self)
      simp [this]
  · rw [h.tail, prev, getLast?_append_cons]
    cases ys with
    | nil => simp
    | cons z zs =>
      have : (z :: zs).getLast? ≠ some y := fun e => yy (mem_of_getLast? e)
      rw [getLast?_cons_cons, if_neg this, getLast?_append_cons]
  · rw [unlink, prev, next]
    apply (span_append ..).mpr
    rw [or_none, or_none]
    constructor
    · exact (first.relinkNext (nodup_append.mp h.nodup).1 _).setPrevOf ys_out _
    · exact (rest.setNextOf xs_out _).relinkPrev rest.nodup _

/-- Cut the list in front of a node. -/
theorem splitAt :
    ((l.setNextOf (l.prev y) none).setPrev y none).Span none xs none ∧
      ((l.setNextOf (l.prev y) none).setPrev y none).DList (some y) tail (y :: ys) := by
  obtain ⟨first, rest, yx, yy, disjoint⟩ := h.at_node
  have xs_out : ∀ z ∈ xs.getLast?, z ∉ y :: ys := fun z hz => disjoint z (mem_of_getLast? hz)
  rw [rest.1]
  refine ⟨(first.relinkNext (nodup_append.mp h.nodup).1 _).setPrev yx _, rfl, ?_, ?_⟩
  · rw [h.tail, getLast?_append_cons]
  · exact (rest.setNextOf xs_out _).relinkPrev rest.nodup none

end Middle

end DList

end Links

/-! ### Two link fields that are given apart -/

variable {ρ : Type} {next prev next' prev' : ρ → Option ρ} {xs ys : List ρ} {head tail : Option ρ}

section Store

variable [DecidableEq ρ]

/-- Store to the link of a node, if there is one. -/
def storeAt (next : ρ → Option ρ) (y : Option ρ) (n : Option ρ) : ρ → Option ρ :=
  match y with
  | none => next
  | some y => update next y n

theorem storeAt_of_ne {x : ρ} {y n : Option ρ} (other : y ≠ some x) : storeAt next y n x = next x := by
  cases y with
  | none => rfl
  | some y =>
    apply update_of_ne
    rintro rfl
    exact other rfl

end Store

/-- A list from `head` to `tail`, which can be read both ways. -/
structure DList (next prev : ρ → Option ρ) (head tail : Option ρ) (xs : List ρ) : Prop where
  head : head = xs.head?
  tail : tail = xs.getLast?
  forth : Linked next xs none
  back : Linked prev xs.reverse none

namespace DList

theorem iff_links {l : Links ρ} : DList l.next l.prev head tail xs ↔ l.DList head tail xs := by
  constructor
  · rintro ⟨head, tail, forth, back⟩
    exact ⟨head, tail, (l.span_iff ..).mpr ⟨forth, back⟩⟩
  · rintro ⟨head, tail, span⟩
    obtain ⟨forth, back⟩ := (l.span_iff ..).mp span
    exact ⟨head, tail, forth, back⟩

theorem nil : DList next prev none none [] := ⟨rfl, rfl, trivial, trivial⟩

theorem congr (h : DList next prev head tail xs) (forth : ∀ x ∈ xs, next' x = next x)
    (back : ∀ x ∈ xs, prev' x = prev x) : DList next' prev' head tail xs :=
  ⟨h.head, h.tail, h.forth.congr forth, h.back.congr fun x mem => back x (mem_reverse.mp mem)⟩

/-- What a node of the list is linked to. -/
theorem links {x : ρ} (h : DList next prev head tail (xs ++ x :: ys)) :
    next x = ys.head? ∧ prev x = xs.getLast? := by
  have list := iff_links (l := ⟨next, prev⟩).mp h
  obtain ⟨-, ⟨back, forth, -⟩, -⟩ := list.at_node
  rw [or_none] at forth
  exact ⟨forth, back⟩

variable [DecidableEq ρ]

/-- A node is put behind the last one. -/
theorem pushBack {x : ρ} (h : DList next prev head tail xs) (out : x ∉ xs) :
    DList (storeAt (update next x none) tail (some x)) (update prev x tail)
      (if tail = none then some x else head) (some x) (xs ++ [x]) := by
  have list := iff_links.mpr ((iff_links (l := ⟨next, prev⟩).mp h).pushBack out)
  cases tail <;> exact list

/-- A node is taken out. -/
theorem remove {x : ρ} (h : DList next prev head tail (xs ++ x :: ys)) :
    DList (storeAt next (prev x) (next x)) (storeAt prev (next x) (prev x))
      (if some x = head then next x else head) (if some x = tail then prev x else tail) (xs ++ ys) := by
  have list := iff_links.mpr (iff_links (l := ⟨next, prev⟩).mp h).remove
  simp only [eq_comm (a := some x)]
  unfold Links.unlink at list
  cases before : prev x <;> cases behind : next x <;> simp only [before, behind] at list <;>
    exact list

end DList

end AgentEngine.Lib
