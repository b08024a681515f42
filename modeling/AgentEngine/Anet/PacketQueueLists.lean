import AgentEngine.Anet.PacketQueue
import AgentEngine.Lib.OrderedQueue

/-!
What the operations on packet queues do to the lists that the queues stand for.

`Represents s c` says that in the state `s` every queue `q` is a well-formed list of the packets
`c q`, and that no packet is in two queues. Each operation is then an operation on `c`: `push`
enqueues, `moveBack` combines, `getTimeoutList` splits.
-/

namespace AgentEngine.Anet

open Lib List Function Option

namespace PacketQueues

variable {κ ρ : Type} [DecidableEq κ] [DecidableEq ρ] {s s' : PacketQueues κ ρ} {c : κ → List ρ}
  {q src : κ}

omit [DecidableEq κ] [DecidableEq ρ] in
/-- A queue is a list of these packets. -/
structure Holds (next : ρ → Option ρ) (queue : PacketQueue ρ) (xs : List ρ) : Prop where
  slist : SList next queue.head queue.tail xs
  size : queue.size = xs.length

structure Represents (s : PacketQueues κ ρ) (c : κ → List ρ) : Prop where
  holds : ∀ q, Holds s.next (s.queue q) (c q)
  apart : ∀ q q' x, x ∈ c q → x ∈ c q' → q = q'

omit [DecidableEq ρ] in
theorem Holds.follow_eq {next : ρ → Option ρ} {queue : PacketQueue ρ} {xs : List ρ}
    (h : Holds next queue xs) : follow next queue.size queue.head = xs := by
  rw [h.size, h.slist.head, h.slist.linked.follow_eq]

omit [DecidableEq κ] [DecidableEq ρ] in
theorem Represents.contents_eq (h : Represents s c) : s.contents = c :=
  funext fun q => (h.holds q).follow_eq

omit [DecidableEq ρ] in
/-- A change that concerns only one queue: the packets of the others keep their links. -/
theorem Represents.update (h : Represents s c) {xs : List ρ} (queue : PacketQueue ρ)
    (next : ρ → Option ρ) (holds : Holds next queue xs)
    (frame : ∀ q' ≠ q, ∀ x ∈ c q', next x = s.next x)
    (fresh : ∀ q' ≠ q, ∀ x ∈ c q', x ∉ xs) :
    Represents { s with next, queue := Function.update s.queue q queue }
      (Function.update c q xs) := by
  constructor
  · intro q'
    by_cases same : q' = q
    · subst same
      simp only [update_self]
      exact holds
    · simp only [update_of_ne same]
      exact ⟨(h.holds q').slist.congr (frame q' same), (h.holds q').size⟩
  · intro q₁ q₂ x h₁ h₂
    by_cases same₁ : q₁ = q <;> by_cases same₂ : q₂ = q
    · rw [same₁, same₂]
    · subst same₁
      rw [update_self] at h₁
      rw [update_of_ne same₂] at h₂
      exact absurd h₁ (fresh q₂ same₂ x h₂)
    · subst same₂
      rw [update_self] at h₂
      rw [update_of_ne same₁] at h₁
      exact absurd h₂ (fresh q₁ same₁ x h₁)
    · rw [update_of_ne same₁] at h₁
      rw [update_of_ne same₂] at h₂
      exact h.apart q₁ q₂ x h₁ h₂

/-! ### pop -/

omit [DecidableEq ρ] in
theorem pop_spec (h : Represents s c) (q : κ) :
    (s.pop q).1 = (c q).head? ∧ Represents (s.pop q).2 (Function.update c q (c q).tail) ∧
      (s.pop q).2.expireTime = s.expireTime := by
  have holds := h.holds q
  unfold pop
  cases packets : c q with
  | nil =>
    have empty : (s.queue q).head = none := by rw [holds.slist.head, packets]; rfl
    simp only [empty]
    refine ⟨rfl, ?_, trivial⟩
    rw [tail_nil, ← packets, update_eq_self]
    exact h
  | cons x xs =>
    rw [packets] at holds
    have first : (s.queue q).head = some x := holds.slist.head
    simp only [first]
    refine ⟨rfl, ?_, rfl⟩
    refine h.update _ s.next ⟨holds.slist.popFront, ?_⟩ (fun _ _ _ _ => rfl) ?_
    · simp only [holds.size, length_cons, Nat.add_sub_cancel, tail_cons]
    · intro q' other x' hx hx'
      exact other (h.apart q' q x' hx (by rw [packets]; exact mem_cons_of_mem x hx'))

/-! ### push -/

omit [DecidableEq κ] [DecidableEq ρ] in
theorem findPlace_eq {ys : List ρ} {p1 : ρ} (p2 : ρ) {expireTime : Int}
    (linked : Linked s.next (p1 :: ys) none) (later : ∃ y ∈ p1 :: ys, expireTime < s.expireTime y)
    {fuel : Nat} (enough : ys.length < fuel) :
    ∃ before y behind, p1 :: ys = before ++ y :: behind ∧
      (p1 :: ys).takeWhile (fun y => s.expireTime y ≤ expireTime) = before ∧
      s.findPlace expireTime fuel p1 p2 = some (y, before.getLast?.getD p2) := by
  induction ys generalizing p1 p2 fuel with
  | nil =>
    obtain ⟨y, hy, later⟩ := later
    rw [mem_singleton.mp hy] at later
    cases fuel with
    | zero => omega
    | succ fuel =>
      refine ⟨[], p1, [], rfl, ?_, ?_⟩
      · exact takeWhile_cons_of_neg (by simpa using later)
      · rw [findPlace, if_neg (Int.not_le.mpr later)]
        rfl
  | cons p ys ih =>
    cases fuel with
    | zero => omega
    | succ fuel =>
      obtain ⟨next, rest⟩ := linked
      by_cases early : s.expireTime p1 ≤ expireTime
      · have later' : ∃ y ∈ p :: ys, expireTime < s.expireTime y := by
          obtain ⟨y, hy, later⟩ := later
          rcases mem_cons.mp hy with rfl | hy
          · omega
          · exact ⟨y, hy, later⟩
        obtain ⟨before, y, behind, split, taken, found⟩ := ih p1 rest later' (by simpa using enough)
        refine ⟨p1 :: before, y, behind, by rw [split]; rfl, ?_, ?_⟩
        · rw [takeWhile_cons_of_pos (by simpa using early), taken]
        · rw [findPlace, if_pos early, next]
          change s.findPlace expireTime fuel p p1 = _
          rw [found, getLast?_cons]
          rfl
      · refine ⟨[], p1, p :: ys, rfl, ?_, ?_⟩
        · exact takeWhile_cons_of_neg (by simpa using early)
        · rw [findPlace, if_neg early]
          rfl

/-- `push` puts the packet behind all that do not expire later. -/
theorem push_spec (h : Represents s c) (sorted : Ordered s.expireTime (c q)) {x : ρ}
    (fresh : ∀ q', x ∉ c q') :
    ∃ s', s.push q x = some s' ∧
      Represents s' (Function.update c q (enqueue s.expireTime (c q) x)) ∧
      s'.expireTime = s.expireTime := by
  have holds := h.holds q
  have frame : ∀ next : ρ → Option ρ, (∀ y ≠ x, y ∉ c q → next y = s.next y) →
      ∀ q' ≠ q, ∀ y ∈ c q', next y = s.next y := by
    intro next same q' other y hy
    apply same y
    · rintro rfl
      exact fresh q' hy
    · exact fun hy' => other (h.apart q' q y hy hy')
  have elsewhere : ∀ q' ≠ q, ∀ y ∈ c q', y ∉ enqueue s.expireTime (c q) x := by
    intro q' other y hy hy'
    rcases mem_enqueue.mp hy' with rfl | hy'
    · exact fresh q' hy
    · exact other (h.apart q' q y hy hy')
  have length : (enqueue s.expireTime (c q) x).length = (s.queue q).size + 1 := by
    rw [enqueue_perm.length_eq, length_cons, holds.size]
  have cut : ∀ y ≠ x, update s.next x none y = s.next y := fun y other =>
    update_of_ne other ..
  have list : SList (update s.next x none) (s.queue q).head (s.queue q).tail (c q) :=
    holds.slist.congr fun y hy => cut y (fun e => fresh q (e ▸ hy))
  have alone : SList (update s.next x none) (some x) (some x) [x] :=
    .single (update_self ..)
  unfold push
  simp only [setNext, setQueue]
  cases packets : c q with
  | nil =>
    have empty : (s.queue q).head = none := by rw [holds.slist.head, packets]; rfl
    simp only [empty]
    refine ⟨_, rfl, h.update _ _ ⟨alone, ?_⟩ (frame _ fun y other _ => cut y other) ?_, rfl⟩
    · rw [packets] at length
      exact length.symm
    · rw [packets] at elsewhere
      exact elsewhere
  | cons head rest =>
    obtain ⟨tail, last⟩ : ∃ tail, (c q).getLast? = some tail := by
      rw [packets]
      exact ⟨_, getLast?_cons⟩
    have first : (s.queue q).head = some head := by rw [holds.slist.head, packets]; rfl
    have hlast : (s.queue q).tail = some tail := holds.slist.tail.trans last
    simp only [first, hlast, bind_eq_bind, bind_some, ge_iff_le]
    have tailMem : tail ∈ c q := mem_of_getLast? last
    have headMem : head ∈ c q := by rw [packets]; exact mem_cons_self
    rw [← packets]
    by_cases atEnd : s.expireTime tail ≤ s.expireTime x
    · have all : enqueue s.expireTime (c q) x = c q ++ [x] :=
        enqueue_last fun y hy => (sorted.le_getLast? last y hy).trans atEnd
      simp only [if_pos atEnd]
      refine ⟨_, rfl, h.update _ _ ⟨?_, by rw [length]⟩ (frame _ ?_) elsewhere, rfl⟩
      · rw [all]
        rw [hlast] at list
        have := list.append alone (fun hx => fresh q (mem_singleton.mp hx ▸ tailMem))
        rwa [first] at this
      · intro y other hy
        have notTail : y ≠ tail := by
          rintro rfl
          exact hy tailMem
        rw [update_of_ne notTail, cut y other]
    · simp only [if_neg atEnd]
      by_cases atFront : s.expireTime x < s.expireTime head
      · have all : enqueue s.expireTime (c q) x = x :: c q := by
          rw [packets]
          exact enqueue_first atFront
        simp only [if_pos atFront]
        refine ⟨_, rfl, h.update _ _ ⟨?_, by rw [length]⟩ (frame _ ?_) elsewhere, rfl⟩
        · rw [all]
          rw [first] at list
          have := alone.append list (fresh q)
          rwa [hlast] at this
        · intro y other hy
          rw [update_of_ne other, cut y other]
      · simp only [if_neg atFront]
        have later : ∃ y ∈ head :: rest, s.expireTime x < s.expireTime y :=
          ⟨tail, packets ▸ tailMem, Int.not_le.mp atEnd⟩
        have linked := list.linked
        rw [packets] at linked
        obtain ⟨before, y, behind, split, taken, found⟩ :=
          findPlace_eq (s := { s with next := update s.next x none }) head linked later
            (by rw [holds.size, packets, length_cons]; omega : _ < (s.queue q).size + 1)
        simp only [found, bind_some]
        rw [← packets] at split taken
        obtain ⟨before, p2, rfl⟩ : ∃ before' p2, before = before' ++ [p2] := by
          rcases eq_nil_or_concat before with rfl | ⟨before', p2, e⟩
          · rw [packets, takeWhile_cons_of_pos (by simpa using atFront)] at taken
            cases taken
          · exact ⟨before', p2, by rw [e, concat_eq_append]⟩
        have fresh' := fresh q
        have p2Mem : p2 ∈ c q := by
          rw [split]
          simp
        simp only [getLast?_concat, getD_some]
        refine ⟨_, rfl, h.update _ _ ⟨?_, by rw [length]⟩ (frame _ ?_) elsewhere, rfl⟩
        · rw [split] at taken fresh' ⊢
          rw [enqueue_eq taken]
          rw [split, first, hlast] at list
          have := list.insert fresh'
          rwa [update_idem] at this ⊢
        · intro z other hz
          have notP2 : z ≠ p2 := by
            rintro rfl
            exact hz p2Mem
          rw [update_of_ne notP2, update_of_ne other, cut z other]

/-! ### moveBack -/

omit [DecidableEq κ] in
/-- The merge of two lists that are left over behind the packet `curr`. -/
theorem mergeLoop_spec {expireTime : ρ → Int} {next : ρ → Option ρ} {ls rs : List ρ} {curr : ρ}
    {fuel : Nat} (left : Linked next ls none) (right : Linked next rs none)
    (nodup : (curr :: (ls ++ rs)).Nodup) (enough : ls.length + rs.length ≤ fuel)
    (some_left : ls ≠ [] ∨ rs ≠ []) :
    ∃ next' lasts, mergeLoop expireTime fuel next ls.head? rs.head? curr = some (next', lasts) ∧
      Linked next' (curr :: combine expireTime ls rs) none ∧
      (combine expireTime ls rs).getLast? = (if lasts then ls.getLast? else rs.getLast?) ∧
      (if lasts then ls ≠ [] else rs ≠ []) ∧ ∀ y, y ∉ curr :: (ls ++ rs) → next' y = next y := by
  -- along the rounds; `curr` is the packet behind which the next one is linked
  induction fuel generalizing next ls rs curr with
  | zero =>
    have none_left : ls.length + rs.length = 0 := by omega
    rw [length_eq_zero_iff.mp (by omega : ls.length = 0),
      length_eq_zero_iff.mp (by omega : rs.length = 0)] at some_left
    simp at some_left
  | succ fuel ih =>
    have relinked : ∀ {xs : List ρ}, Linked next xs none → curr ∉ xs →
        Linked (update next curr xs.head?) (curr :: xs) none := by
      intro xs linked out
      refine ⟨?_, linked.update out _⟩
      rw [update_self, or_none]
    have others : ∀ (v : Option ρ) (y : ρ), y ∉ curr :: (ls ++ rs) →
        update next curr v y = next y := by
      intro v y hy
      apply update_of_ne
      rintro rfl
      exact hy mem_cons_self
    obtain ⟨notIn, nodup'⟩ := nodup_cons.mp nodup
    cases ls with
    | nil =>
      refine ⟨_, _, rfl, ?_, by rw [combine_nil_left]; rfl, by simpa using some_left, others _⟩
      rw [combine_nil_left]
      exact relinked right (by simpa using notIn)
    | cons l ls =>
      cases rs with
      | nil =>
        refine ⟨_, _, rfl, ?_, by rw [combine_nil_right]; rfl, cons_ne_nil _ _, others _⟩
        rw [combine_nil_right]
        exact relinked left (by simpa using notIn)
      | cons r rs =>
        have notL : l ≠ curr := by
          rintro rfl
          exact notIn (by simp)
        have notR : r ≠ curr := by
          rintro rfl
          exact notIn (by simp)
        have linkedL : ∀ v, Linked (update next curr v) (l :: ls) none := fun v =>
          left.update (fun hx => notIn (mem_append_left _ hx)) v
        have linkedR : ∀ v, Linked (update next curr v) (r :: rs) none := fun v =>
          right.update (fun hx => notIn (mem_append_right _ hx)) v
        simp only [head?_cons, mergeLoop, combine_cons_cons]
        split_ifs with earlier
        · obtain ⟨here, rest⟩ := linkedL (some l)
          rw [or_none] at here
          obtain ⟨next', lasts, run, linked, last, some_left', frame⟩ :=
            ih rest (linkedR (some l)) nodup' (by simp at enough ⊢; omega) (.inr (cons_ne_nil _ _))
          rw [here]
          refine ⟨next', lasts, run, ⟨?_, linked⟩, ?_, ?_, ?_⟩
          · rw [frame curr notIn, update_self]
            rfl
          · rw [getLast?_cons_of_ne_nil l (combine_ne_nil (.inr (cons_ne_nil _ _))), last]
            cases lasts with
            | true => exact (getLast?_cons_of_ne_nil l some_left').symm
            | false => rfl
          · split_ifs <;> exact cons_ne_nil _ _
          · intro y hy
            rw [frame y (fun hy' => hy (mem_cons_of_mem _ hy')), others _ y hy]
        · obtain ⟨here, rest⟩ := linkedR (some r)
          rw [or_none] at here
          have nodup'' : (r :: (l :: ls ++ rs)).Nodup :=
            (perm_middle.nodup_iff).mp nodup'
          obtain ⟨next', lasts, run, linked, last, some_left', frame⟩ :=
            ih (linkedL (some r)) rest nodup'' (by simp at enough ⊢; omega)
              (.inl (cons_ne_nil _ _))
          have same : ∀ y, y ∉ curr :: (l :: ls ++ r :: rs) → y ∉ r :: (l :: ls ++ rs) :=
            fun y hy hy' => hy (mem_cons_of_mem _ (perm_middle.mem_iff.mpr hy'))
          rw [here]
          refine ⟨next', lasts, run, ⟨?_, linked⟩, ?_, ?_, ?_⟩
          · rw [frame curr (fun h => notIn (perm_middle.mem_iff.mpr h)), update_self]
            rfl
          · rw [getLast?_cons_of_ne_nil r (combine_ne_nil (.inl (cons_ne_nil _ _))), last]
            cases lasts with
            | true => rfl
            | false => exact (getLast?_cons_of_ne_nil r some_left').symm
          · split_ifs <;> exact cons_ne_nil _ _
          · intro y hy
            rw [frame y (same y hy), others _ y hy]

omit [DecidableEq κ] in
/-- The merge of two lists, from their first packets on. -/
theorem merge_spec {expireTime : ρ → Int} {next : ρ → Option ρ} {l r : ρ} {ls rs : List ρ}
    {fuel : Nat} (left : Linked next (l :: ls) none) (right : Linked next (r :: rs) none)
    (apart : ∀ x ∈ l :: ls, x ∉ r :: rs) (enough : (l :: ls).length + (r :: rs).length ≤ fuel)
    {start : ρ × Option ρ × Option ρ}
    (first : start = if expireTime l < expireTime r then (l, next l, some r) else (r, some l, next r)) :
    ∃ next' lasts, mergeLoop expireTime fuel next start.2.1 start.2.2 start.1 =
        some (next', lasts) ∧
      SList next' (some start.1) (if lasts then (l :: ls).getLast? else (r :: rs).getLast?)
        (combine expireTime (l :: ls) (r :: rs)) ∧
      ∀ y, y ∉ l :: ls → y ∉ r :: rs → next' y = next y := by
  have nodup : ((l :: ls) ++ (r :: rs)).Nodup :=
    nodup_append.mpr ⟨left.nodup, right.nodup, fun x hx y hy e => apart x hx (e ▸ hy)⟩
  rw [first, combine_cons_cons]
  obtain ⟨nextL, restL⟩ := left
  obtain ⟨nextR, restR⟩ := right
  rw [or_none] at nextL nextR
  split_ifs
  · obtain ⟨next', lasts, run, linked, last, some_left, frame⟩ := mergeLoop_spec restL
      (show Linked next (r :: rs) none from ⟨by rw [nextR, or_none], restR⟩) nodup
      (show _ ≤ fuel by simp at enough ⊢; omega) (.inr (cons_ne_nil _ _))
    rw [nextL]
    refine ⟨next', lasts, run, ⟨rfl, ?_, linked⟩, ?_⟩
    · rw [getLast?_cons_of_ne_nil l (combine_ne_nil (.inr (cons_ne_nil _ _))), last]
      cases lasts with
      | true => exact getLast?_cons_of_ne_nil l some_left
      | false => rfl
    · intro y hl hr
      apply frame y
      simp only [mem_cons, mem_append, not_or] at hl hr ⊢
      exact ⟨hl.1, hl.2, hr⟩
  · obtain ⟨next', lasts, run, linked, last, some_left, frame⟩ := mergeLoop_spec
      (show Linked next (l :: ls) none from ⟨by rw [nextL, or_none], restL⟩) restR
      (perm_middle.nodup_iff.mp nodup) (show _ ≤ fuel by simp at enough ⊢; omega)
      (.inl (cons_ne_nil _ _))
    rw [nextR]
    refine ⟨next', lasts, run, ⟨rfl, ?_, linked⟩, ?_⟩
    · rw [getLast?_cons_of_ne_nil r (combine_ne_nil (.inl (cons_ne_nil _ _))), last]
      cases lasts with
      | true => rfl
      | false => exact getLast?_cons_of_ne_nil r some_left
    · intro y hl hr
      apply frame y
      simp only [mem_cons, mem_append, not_or] at hl hr ⊢
      exact ⟨hr.1, hl, hr.2⟩

omit [DecidableEq ρ] in
/-- A change that moves the packets of one queue to another. -/
theorem Represents.move (h : Represents s c) (other : q ≠ src) {xs : List ρ}
    {next : ρ → Option ρ} {queue : PacketQueue ρ} (holds : Holds next queue xs)
    (frame : ∀ x, x ∉ c q → x ∉ c src → next x = s.next x)
    (members : ∀ x ∈ xs, x ∈ c q ∨ x ∈ c src) :
    Represents
      { s with next, queue := Function.update (Function.update s.queue q queue) src {} }
      (Function.update (Function.update c q xs) src []) := by
  have there : ∀ q' ≠ q, q' ≠ src →
      Function.update (Function.update c q xs) src [] q' = c q' := fun q' notQ notSrc => by
    rw [Function.update_of_ne notSrc, Function.update_of_ne notQ]
  have atQ : Function.update (Function.update c q xs) src [] q = xs := by
    rw [Function.update_of_ne other, Function.update_self]
  have atSrc : Function.update (Function.update c q xs) src [] src = [] := Function.update_self ..
  constructor
  · intro q'
    by_cases isSrc : q' = src
    · rw [isSrc, atSrc]
      simp only [Function.update_self]
      exact ⟨.nil, rfl⟩
    · by_cases isQ : q' = q
      · rw [isQ, atQ]
        simp only [Function.update_of_ne other, Function.update_self]
        exact holds
      · rw [there q' isQ isSrc]
        simp only [Function.update_of_ne isSrc, Function.update_of_ne isQ]
        refine ⟨(h.holds q').slist.congr fun x hx => frame x ?_ ?_, (h.holds q').size⟩
        · exact fun hx' => isQ (h.apart q' q x hx hx')
        · exact fun hx' => isSrc (h.apart q' src x hx hx')
  · -- a packet of `xs` was in one of the two queues, and so in no third one
    have moved : ∀ q' x, q' ≠ q → q' ≠ src → x ∈ c q' → x ∉ xs := by
      intro q' x notQ notSrc hx hx'
      rcases members x hx' with hx' | hx'
      · exact notQ (h.apart q' q x hx hx')
      · exact notSrc (h.apart q' src x hx hx')
    intro q₁ q₂ x h₁ h₂
    by_cases src₁ : q₁ = src
    · rw [src₁, atSrc] at h₁
      cases h₁
    by_cases src₂ : q₂ = src
    · rw [src₂, atSrc] at h₂
      cases h₂
    by_cases is₁ : q₁ = q <;> by_cases is₂ : q₂ = q
    · rw [is₁, is₂]
    · rw [is₁, atQ] at h₁
      rw [there q₂ is₂ src₂] at h₂
      exact absurd h₁ (moved q₂ x is₂ src₂ h₂)
    · rw [is₂, atQ] at h₂
      rw [there q₁ is₁ src₁] at h₁
      exact absurd h₂ (moved q₁ x is₁ src₁ h₁)
    · rw [there q₁ is₁ src₁] at h₁
      rw [there q₂ is₂ src₂] at h₂
      exact h.apart q₁ q₂ x h₁ h₂

/-- `moveBack` merges the packets of the other queue in, before those that expire at the same
time. -/
theorem moveBack_spec (h : Represents s c) (other : q ≠ src) (sorted : Ordered s.expireTime (c q))
    (sorted' : Ordered s.expireTime (c src)) :
    ∃ s', s.moveBack q src = some s' ∧
      Represents s' (Function.update (Function.update c q (combine s.expireTime (c q) (c src)))
        src []) ∧ s'.expireTime = s.expireTime := by
  have holds := h.holds q
  have holds' := h.holds src
  have size : (s.queue q).size + (s.queue src).size = (combine s.expireTime (c q) (c src)).length := by
    rw [combine_perm.length_eq, length_append, holds.size, holds'.size]
  have move : ∀ {next : ρ → Option ρ} {queue : PacketQueue ρ},
      SList next queue.head queue.tail (combine s.expireTime (c q) (c src)) →
      queue.size = (s.queue q).size + (s.queue src).size →
      (∀ x, x ∉ c q → x ∉ c src → next x = s.next x) →
      Represents { s with next, queue := update (update s.queue q queue) src {} }
        (update (update c q (combine s.expireTime (c q) (c src))) src []) :=
    fun list sum frame =>
      h.move other ⟨list, sum.trans size⟩ frame fun x hx => mem_combine.mp hx
  have updates : ∀ (A B C D : PacketQueue ρ), update (update (update
      (update s.queue q A) src B) q C) src D =
        update (update s.queue q C) src D := by
    intro A B C D
    rw [update_comm other, update_idem, update_comm other, update_idem, update_comm other.symm]
  have cases_list : ∀ xs : List ρ, xs = [] ∨ ∃ y ys, xs = y :: ys := by
    intro xs
    cases xs with
    | nil => exact .inl rfl
    | cons y ys => exact .inr ⟨y, ys, rfl⟩
  unfold moveBack
  rcases cases_list (c src) with right | ⟨r, rs, right⟩
  · have empty : (s.queue src).head = none := by rw [holds'.slist.head, right]; rfl
    simp only [empty]
    refine ⟨s, rfl, ?_, rfl⟩
    rw [right, combine_nil_right, update_eq_self, ← right, update_eq_self]
    exact h
  · have firstR : (s.queue src).head = some r := by rw [holds'.slist.head, right]; rfl
    obtain ⟨tail, lastR⟩ : ∃ tail, (c src).getLast? = some tail := by
      rw [right]
      exact ⟨_, getLast?_cons⟩
    have tailR : (s.queue src).tail = some tail := holds'.slist.tail.trans lastR
    have tailMem : tail ∈ c src := mem_of_getLast? lastR
    have list' := holds'.slist
    rw [firstR, tailR] at list'
    simp only [firstR, setQueue, setNext, update_of_ne other, update_of_ne other.symm,
      update_self, tailR, bind_eq_bind, bind_some]
    rcases cases_list (c q) with left | ⟨l, ls, left⟩
    · have empty : (s.queue q).head = none := by rw [holds.slist.head, left]; rfl
      simp only [empty, updates]
      refine ⟨_, rfl, move ?_ rfl (fun _ _ _ => rfl), rfl⟩
      rw [left, combine_nil_left]
      exact list'
    · have firstL : (s.queue q).head = some l := by rw [holds.slist.head, left]; rfl
      have list := holds.slist
      rw [firstL] at list
      simp only [firstL]
      have apart : ∀ x ∈ c q, x ∉ c src := fun x hx hx' => other (h.apart q src x hx hx')
      by_cases before : s.expireTime tail ≤ s.expireTime l
      · have all : combine s.expireTime (c q) (c src) = c src ++ c q := by
          apply combine_of_le
          intro x hx y hy
          exact (sorted'.le_getLast? lastR y hy).trans
            (before.trans (sorted.head?_le (by rw [left]; rfl) x hx))
        simp only [if_pos before, updates]
        refine ⟨_, rfl, move ?_ rfl ?_, rfl⟩
        · rw [all]
          exact list'.append list fun hx => apart tail hx tailMem
        · intro x _ hx
          apply update_of_ne
          rintro rfl
          exact hx tailMem
      · simp only [if_neg before]
        have enough : (l :: ls).length + (r :: rs).length ≤
            (s.queue q).size + (s.queue src).size := by
          rw [holds.size, holds'.size, left, right]
        generalize first : (if s.expireTime l < s.expireTime r then (l, s.next l, some r)
          else (r, some l, s.next r)) = start
        obtain ⟨next, lasts, run, merged, frame⟩ := merge_spec (left ▸ list.linked)
          (right ▸ list'.linked) (left ▸ right ▸ apart) enough first.symm
        rw [← left, ← right, ← holds.slist.tail, ← list'.tail] at merged
        rw [← left, ← right] at frame
        cases lasts with
        | true =>
          simp only [run, bind_some, if_true, update_of_ne other, update_self, updates]
          exact ⟨_, rfl, move merged rfl frame, rfl⟩
        | false =>
          simp only [run, bind_some, Bool.false_eq_true, if_false, update_idem,
            update_of_ne other.symm, update_self, updates]
          exact ⟨_, rfl, move merged rfl frame, rfl⟩

/-- The links of these packets lead to none but them. -/
def Closed (next : ρ → Option ρ) (S : List ρ) : Prop := ∀ x ∈ S, ∀ y ∈ next x, y ∈ S

omit [DecidableEq κ] in
theorem Closed.update {next : ρ → Option ρ} {S : List ρ} (h : Closed next S) (curr : ρ) {v : Option ρ}
    (hv : ∀ x ∈ v, x ∈ S) : Closed (Function.update next curr v) S := by
  intro x hx y hy
  by_cases same : x = curr
  · rw [same, update_self] at hy
    exact hv y hy
  · rw [update_of_ne same] at hy
    exact h x hx y hy

omit [DecidableEq κ] [DecidableEq ρ] in
theorem closed_of_linked {next : ρ → Option ρ} {xs : List ρ} (h : Linked next xs none) :
    Closed next xs := by
  intro x hx y hy
  obtain ⟨before, behind, rfl⟩ := append_of_mem hx
  obtain ⟨here, -⟩ := (linked_append.mp h).2
  rw [or_none] at here
  rw [here] at hy
  exact mem_append_right _ (mem_cons_of_mem x (mem_of_mem_head? hy))

omit [DecidableEq κ] in
/-- The merge stores only to packets that it can get to. -/
theorem mergeLoop_frame {expireTime : ρ → Int} {S : List ρ} {fuel : Nat}
    {next next' : ρ → Option ρ} {l r : Option ρ} {curr : ρ} {lasts : Bool} (closed : Closed next S)
    (hl : ∀ x ∈ l, x ∈ S) (hr : ∀ x ∈ r, x ∈ S) (hc : curr ∈ S)
    (run : mergeLoop expireTime fuel next l r curr = some (next', lasts)) {y : ρ} (hy : y ∉ S) :
    next' y = next y := by
  have outside : ∀ (next : ρ → Option ρ) {curr : ρ} (v : Option ρ), curr ∈ S →
      update next curr v y = next y := by
    intro next curr v hc
    apply update_of_ne
    rintro rfl
    exact hy hc
  induction fuel generalizing next l r curr with
  | zero =>
    cases l with
    | none =>
      cases run
      exact outside next r hc
    | some l =>
      cases r with
      | none =>
        cases run
        exact outside next (some l) hc
      | some r => cases run
  | succ fuel ih =>
    cases l with
    | none =>
      cases run
      exact outside next r hc
    | some l =>
      cases r with
      | none =>
        cases run
        exact outside next (some l) hc
      | some r =>
        have memL := hl l rfl
        have memR := hr r rfl
        rw [mergeLoop] at run
        split at run
        · have closed' := closed.update curr hl
          rw [ih closed' (closed' l memL) hr memL run, outside next _ hc]
        · have closed' := closed.update curr hr
          rw [ih closed' hl (closed' r memR) memR run, outside next _ hc]

/-- A queue that is moved back to itself loses its packets. -/
theorem moveBack_self (h : Represents s c) (some_packet : c q ≠ []) (moved : s.moveBack q q = some s') :
    s'.contents = Function.update c q [] := by
  have holds := h.holds q
  obtain ⟨x, xs, packets⟩ := exists_cons_of_ne_nil some_packet
  have first : (s.queue q).head = some x := by rw [holds.slist.head, packets]; rfl
  have memX : x ∈ c q := by rw [packets]; exact mem_cons_self
  have linked := holds.slist.linked
  -- whatever is stored, it is stored to packets of this queue, and the queue is empty in the end
  suffices key : s'.queue q = { size := 0 } ∧ (∀ q' ≠ q, s'.queue q' = s.queue q') ∧
      ∀ y, y ∉ c q → s'.next y = s.next y by
    obtain ⟨empty, same, frame⟩ := key
    funext q'
    by_cases isQ : q' = q
    · rw [isQ, update_self, contents, empty]
      rfl
    · rw [update_of_ne isQ]
      have holds' := h.holds q'
      rw [← same q' isQ] at holds'
      refine Holds.follow_eq ⟨holds'.slist.congr fun y hy => ?_, holds'.size⟩
      exact frame y fun hy' => isQ (h.apart q' q y hy hy')
  unfold moveBack at moved
  simp only [first, setQueue, setNext, update_self, update_idem, bind_eq_bind] at moved
  obtain ⟨tail, last, moved⟩ := bind_eq_some_iff.mp moved
  have memTail : tail ∈ c q := mem_of_getLast? (holds.slist.tail.symm.trans last)
  split at moved
  · cases moved
    refine ⟨update_self .., fun q' other => update_of_ne other .., ?_⟩
    intro y hy
    apply update_of_ne
    rintro rfl
    exact hy memTail
  · simp only [lt_irrefl, if_false] at moved
    obtain ⟨⟨next, lasts⟩, run, moved⟩ := bind_eq_some_iff.mp moved
    have frame : ∀ y, y ∉ c q → next y = s.next y := fun y hy =>
      mergeLoop_frame (closed_of_linked linked) (fun z hz => mem_some.mp hz ▸ memX)
        (closed_of_linked linked x memX) memX run hy
    simp only [ite_self, update_self, update_idem] at moved
    cases moved
    exact ⟨update_self .., fun q' other => update_of_ne other .., frame⟩

/-! ### getTimeoutList -/

omit [DecidableEq κ] in
/-- The loop changes no link: the packets that it takes are linked to each other already. -/
theorem timeoutLoop_eq (expireTime : ρ → Int) (now : Int) {next : ρ → Option ρ} {taken xs : List ρ}
    {fuel : Nat} (linked : Linked next (taken ++ xs) none) (enough : xs.length < fuel) :
    timeoutLoop expireTime now fuel
        { next, head := xs.head?, size := xs.length, list := taken.head?, tail := taken.getLast? } =
      some { next, head := (below expireTime now xs).2.head?,
             size := (below expireTime now xs).2.length,
             list := (taken ++ (below expireTime now xs).1).head?,
             tail := (taken ++ (below expireTime now xs).1).getLast? } := by
  induction xs generalizing taken fuel with
  | nil =>
    cases fuel with
    | zero => omega
    | succ fuel =>
      rw [timeoutLoop]
      simp [below]
  | cons x xs ih =>
    cases fuel with
    | zero => omega
    | succ fuel =>
      rw [timeoutLoop]
      simp only [head?_cons]
      by_cases expired : expireTime x < now
      · rw [if_neg (by omega), below_cons_of_lt expired]
        have moved := ih (by rwa [append_assoc] : Linked next (taken ++ [x] ++ xs) none)
          (by simpa using enough : xs.length < fuel)
        have here : next x = xs.head? := by
          have := (linked_append.mp linked).2.1
          rwa [or_none] at this
        rw [append_assoc, singleton_append] at moved
        rcases eq_nil_or_concat taken with rfl | ⟨before, y, e⟩
        · simpa only [head?_nil, getLast?_nil, nil_append, head?_cons,
            getLast?_singleton, here, length_cons, Nat.add_sub_cancel] using moved
        · rw [concat_eq_append] at e
          subst e
          have already : next y = some x := by
            have := (linked_append.mp (linked_append.mp linked).1).2.1
            simpa using this
          have same : update next y (some x) = next := by
            rw [← already, update_eq_self]
          have first : (before ++ [y] ++ [x]).head? = (before ++ [y]).head? := by
            cases before <;> rfl
          simp only [getLast?_concat, same, here, length_cons, Nat.add_sub_cancel]
          rw [getLast?_concat, first] at moved
          exact moved
      · rw [if_pos (by omega), below_cons_of_ge expired, append_nil]
        rfl

/-- `getTimeoutList` cuts the packets that have expired off the front of the queue. -/
theorem getTimeoutList_spec (h : Represents s c) (q : κ) (now : Int) :
    ∃ s', s.getTimeoutList q now = some ((below s.expireTime now (c q)).1.head?, s') ∧
      Linked s'.next (below s.expireTime now (c q)).1 none ∧
      Represents s' (Function.update c q (below s.expireTime now (c q)).2) ∧
      s'.expireTime = s.expireTime := by
  have holds := h.holds q
  have loop := timeoutLoop_eq s.expireTime now (show Linked s.next ([] ++ c q) none from
    holds.slist.linked) (Nat.lt_succ_self _)
  simp only [nil_append, head?_nil, getLast?_nil] at loop
  have whole := below_append s.expireTime now (c q)
  have linked := holds.slist.linked
  have last := holds.slist.tail
  rw [← whole] at linked last
  have inQueue : ∀ x ∈ (below s.expireTime now (c q)).2, x ∈ c q := fun x hx => by
    rw [← whole]
    exact mem_append_right _ hx
  have inQueue' : ∀ x ∈ (below s.expireTime now (c q)).1, x ∈ c q := fun x hx => by
    rw [← whole]
    exact mem_append_left _ hx
  unfold getTimeoutList
  simp only [holds.slist.head, holds.size, loop, bind_eq_bind, bind_some]
  generalize (below s.expireTime now (c q)).1 = expired, (below s.expireTime now (c q)).2 = rest
    at whole linked last inQueue inQueue' ⊢
  have apart : ∀ x ∈ expired, x ∉ rest := fun x hx hx' =>
    (nodup_append.mp linked.nodup).2.2 x hx x hx' rfl
  obtain ⟨before, behind⟩ := linked_append.mp linked
  have tail : (if rest.head? = none then none else (s.queue q).tail) = rest.getLast? := by
    rw [last, getLast?_append]
    cases rest with
    | nil => rfl
    | cons y ys => rw [getLast?_cons]; rfl
  have fresh : ∀ q' ≠ q, ∀ x ∈ c q', x ∉ rest := fun q' other x hx hx' =>
    other (h.apart q' q x hx (inQueue x hx'))
  rcases eq_nil_or_concat expired with rfl | ⟨front, y, e⟩
  · refine ⟨_, rfl, trivial, ?_, rfl⟩
    exact h.update _ _ ⟨⟨rfl, tail, behind⟩, rfl⟩ (fun _ _ _ _ => rfl) fresh
  · rw [concat_eq_append] at e
    subst e
    have yMem : y ∈ front ++ [y] := mem_append_right _ (mem_singleton_self y)
    have notFront : y ∉ front := fun hy =>
      (nodup_append.mp (nodup_append.mp linked.nodup).1).2.2 y hy y
        (mem_singleton_self y) rfl
    simp only [getLast?_concat]
    refine ⟨_, rfl, before.relink notFront none, ?_, rfl⟩
    refine h.update _ _ ⟨⟨rfl, tail, behind.update (apart y yMem) none⟩, rfl⟩ ?_ fresh
    intro q' other x hx
    apply update_of_ne
    rintro rfl
    exact other (h.apart q' q x hx (inQueue' x yMem))

end PacketQueues

end AgentEngine.Anet
