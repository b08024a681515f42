import Mathlib.Algebra.BigOperators.Fin
import Mathlib.Algebra.Order.BigOperators.Group.Finset

/-!
Systems that take one step after another, some of which are blocked.

`after step s as` is where the actions `as` lead from `s`, if none of them is blocked.

* `after_inv`: what every step keeps holds after every run.
* `throughout_iff`: a run stays good exactly as long as every action of it is safe.
* `along_iff`: the same for steps that are never blocked, by a caller that keeps a contract.
* `after_map`, `Throughout.map`: a map that the steps respect takes runs to runs.
* `tally_update`: when one of several threads moves, a tally over all of them changes by what that
  thread contributes.
-/

namespace AgentEngine.Lib

open Finset

section After

variable {σ ι : Type} (step : σ → ι → Option σ)

/-- The state after a run; `none` if an action of it is blocked. -/
def after (s : σ) : List ι → Option σ
  | [] => some s
  | a :: as => (step s a).bind fun s => after s as

variable {step} {s s' : σ} {as : List ι}

theorem after_cons {a : ι} :
    after step s (a :: as) = some s' ↔ ∃ t, step s a = some t ∧ after step t as = some s' :=
  Option.bind_eq_some_iff

theorem after_append {as bs : List ι} :
    after step s (as ++ bs) = some s' ↔ ∃ t, after step s as = some t ∧ after step t bs = some s' := by
  induction as generalizing s with
  | nil =>
    constructor
    · intro run
      exact ⟨s, rfl, run⟩
    · rintro ⟨t, ⟨⟩, run⟩
      exact run
  | cons a as ih =>
    rw [List.cons_append, after_cons]
    constructor
    · rintro ⟨u, first, rest⟩
      obtain ⟨t, left, right⟩ := ih.mp rest
      exact ⟨t, after_cons.mpr ⟨u, first, left⟩, right⟩
    · rintro ⟨t, left, right⟩
      obtain ⟨u, first, rest⟩ := after_cons.mp left
      exact ⟨u, first, ih.mpr ⟨t, rest, right⟩⟩

variable {Inv : σ → Prop}

/-- What the steps of these actions keep holds after a run of them. -/
theorem after_inv_of_mem
    (keeps : ∀ s, ∀ a ∈ as, ∀ s', Inv s → step s a = some s' → Inv s') (start : Inv s)
    (run : after step s as = some s') : Inv s' := by
  induction as generalizing s with
  | nil =>
    cases run
    exact start
  | cons a as ih =>
    obtain ⟨t, first, rest⟩ := after_cons.mp run
    refine ih ?_ (keeps s a List.mem_cons_self t start first) rest
    exact fun s b mem => keeps s b (List.mem_cons_of_mem a mem)

/-- What every step keeps holds after every run. -/
theorem after_inv (keeps : ∀ s a s', Inv s → step s a = some s' → Inv s')
    (start : Inv s) (run : after step s as = some s') : Inv s' :=
  after_inv_of_mem (fun s a _ => keeps s a) start run

variable (step) in
/-- `P` holds of every action of a run in the state where it is taken. -/
def Throughout (P : σ → ι → Prop) (s : σ) : List ι → Prop
  | [] => True
  | a :: as => ∀ t ∈ step s a, P s a ∧ Throughout P t as

instance Throughout.decidable (P : σ → ι → Prop) [∀ s a, Decidable (P s a)] :
    (s : σ) → (as : List ι) → Decidable (Throughout step P s as)
  | _, [] => .isTrue trivial
  | s, a :: as => by
      have rest : ∀ t, Decidable (Throughout step P t as) := fun t => Throughout.decidable P t as
      unfold Throughout
      infer_instance

variable {Safe : σ → ι → Prop}

/-- A run is good all the way exactly if every action of it is safe, where the safe actions are
those that lead to good states, and keep the invariant on which this rests. -/
theorem throughout_iff_of_inv {Inv Good : σ → Prop}
    (inv : ∀ s, ∀ a ∈ as, ∀ s', Inv s → step s a = some s' → Safe s a → Inv s')
    (keeps : ∀ s, ∀ a ∈ as, ∀ s', Inv s → step s a = some s' → (Good s' ↔ Safe s a)) (start : Inv s)
    (good : Good s) :
    (∀ pre, pre <+: as → ∀ t, after step s pre = some t → Good t) ↔ Throughout step Safe s as := by
  induction as generalizing s with
  | nil =>
    constructor
    · exact fun _ => trivial
    · intro _ pre le t run
      rw [List.prefix_nil.mp le] at run
      cases run
      exact good
  | cons a as ih =>
    have inv' := fun s b mem => inv s b (List.mem_cons_of_mem a mem)
    have keeps' := fun s b mem => keeps s b (List.mem_cons_of_mem a mem)
    constructor
    · intro all t first
      have goodT : Good t := all [a] ⟨as, rfl⟩ t (after_cons.mpr ⟨t, first, rfl⟩)
      have safe := (keeps s a List.mem_cons_self t start first).mp goodT
      refine ⟨safe, (ih inv' keeps' (inv s a List.mem_cons_self t start first safe) goodT).mp ?_⟩
      intro pre le u run
      exact all (a :: pre) (List.cons_prefix_cons.mpr ⟨rfl, le⟩) u (after_cons.mpr ⟨t, first, run⟩)
    · intro safe pre le u run
      cases pre with
      | nil =>
        cases run
        exact good
      | cons b pre =>
        obtain ⟨rfl, shorter⟩ := List.cons_prefix_cons.mp le
        obtain ⟨t, first, rest⟩ := after_cons.mp run
        obtain ⟨safeHere, safeThere⟩ := safe t first
        have goodT := (keeps s b List.mem_cons_self t start first).mpr safeHere
        exact (ih inv' keeps' (inv s b List.mem_cons_self t start first safeHere) goodT).mpr safeThere
          pre shorter u rest

/-- The case in which what is good is all that the safe actions rest on. -/
theorem throughout_iff {Good : σ → Prop}
    (keeps : ∀ s a s', Good s → step s a = some s' → (Good s' ↔ Safe s a))
    (start : Good s) :
    (∀ pre, pre <+: as → ∀ t, after step s pre = some t → Good t) ↔ Throughout step Safe s as :=
  throughout_iff_of_inv (fun s a _ s' good first safe => (keeps s a s' good first).mpr safe)
    (fun s a _ => keeps s a) start start

/-- What every step keeps holds after every run whose actions all satisfy `P`. -/
theorem Throughout.inv {P : σ → ι → Prop}
    (keeps : ∀ s a s', Inv s → P s a → step s a = some s' → Inv s')
    (along : Throughout step P s as) (start : Inv s) (run : after step s as = some s') : Inv s' := by
  induction as generalizing s with
  | nil =>
    cases run
    exact start
  | cons a as ih =>
    obtain ⟨t, first, rest⟩ := after_cons.mp run
    obtain ⟨here, there⟩ := along t first
    exact ih there (keeps s a t start here first) rest

theorem Throughout.and {P R : σ → ι → Prop} (left : Throughout step P s as)
    (right : Throughout step R s as) : Throughout step (fun s a => P s a ∧ R s a) s as := by
  induction as generalizing s with
  | nil => trivial
  | cons a as ih =>
    intro t first
    obtain ⟨p, left⟩ := left t first
    obtain ⟨r, right⟩ := right t first
    exact ⟨⟨p, r⟩, ih left right⟩

section Map

variable {τ : Type} {step' : τ → ι → Option τ} {f : σ → τ}
  (respects : ∀ s a, (step s a).map f = step' (f s) a)

include respects

theorem after_map : (after step s as).map f = after step' (f s) as := by
  induction as generalizing s with
  | nil => rfl
  | cons a as ih =>
    rw [after, after, ← respects, Option.map_bind, Option.bind_map]
    exact congrArg _ (funext fun _ => ih)

theorem Throughout.map {P : σ → ι → Prop} {Q : τ → ι → Prop} (same : ∀ s a, P s a → Q (f s) a)
    (along : Throughout step P s as) : Throughout step' Q (f s) as := by
  induction as generalizing s with
  | nil => trivial
  | cons a as ih =>
    intro t first
    rw [← respects] at first
    obtain ⟨u, taken, rfl⟩ := Option.map_eq_some_iff.mp first
    obtain ⟨here, there⟩ := along u taken
    exact ⟨same s a here, ih there⟩

end Map

end After

section Tally

variable {τ β : Type} [Fintype τ]

/-- What all threads contribute together. -/
def tally (f : β → Nat) (threads : τ → β) : Nat := ∑ t, f (threads t)

/-- When one thread moves, a tally loses what it contributed and gains what it contributes now. -/
theorem tally_update [DecidableEq τ] (f : β → Nat) (threads : τ → β) (t : τ) (b : β) :
    tally f (Function.update threads t b) + f (threads t) = tally f threads + f b := by
  unfold tally
  have others : ∑ u ∈ univ.erase t, f (Function.update threads t b u) =
      ∑ u ∈ univ.erase t, f (threads u) := by
    apply sum_congr rfl
    intro u hu
    rw [Function.update_of_ne (ne_of_mem_erase hu)]
  have new := add_sum_erase univ (fun u => f (Function.update threads t b u))
    (mem_univ t)
  have old := add_sum_erase univ (fun u => f (threads u)) (mem_univ t)
  rw [Function.update_self] at new
  omega

theorem le_tally (f : β → Nat) (threads : τ → β) (t : τ) : f (threads t) ≤ tally f threads :=
  single_le_sum (f := fun u => f (threads u)) (fun _ _ => Nat.zero_le _) (mem_univ t)

variable {f : β → Nat} {threads : τ → β}

theorem tally_eq_zero (zero : ∀ t, f (threads t) = 0) :
    tally f threads = 0 := sum_eq_zero fun t _ => zero t

theorem tally_const_eq_zero {b : β} (zero : f b = 0) :
    tally f (fun _ : τ => b) = 0 := tally_eq_zero fun _ => zero

theorem tally_eq_card (one : ∀ t, f (threads t) = 1) : tally f threads = Fintype.card τ := by
  rw [tally, sum_congr rfl fun t _ => one t, sum_const, card_univ, smul_eq_mul, mul_one]

theorem exists_of_tally_pos (pos : 0 < tally f threads) : ∃ t, 0 < f (threads t) := by
  by_contra none_pos
  push Not at none_pos
  rw [tally_eq_zero fun t => Nat.le_zero.mp (none_pos t)] at pos
  exact lt_irrefl 0 pos

end Tally

/-! ### Steps that are never blocked -/

variable {σ ι : Type} (step : σ → ι → σ)

/-- `P` holds of every input of a run in the state where it is given. -/
def Along (P : σ → ι → Prop) : σ → List ι → Prop
  | _, [] => True
  | s, i :: is => P s i ∧ Along P (step s i) is

instance Along.decidable (P : σ → ι → Prop) [∀ s i, Decidable (P s i)] :
    (s : σ) → (is : List ι) → Decidable (Along step P s is)
  | _, [] => .isTrue trivial
  | s, i :: is => @instDecidableAnd _ _ _ (Along.decidable P (step s i) is)

variable {step} {Legal Safe : σ → ι → Prop} {Inv Good : σ → Prop}

/-- The invariant holds at the end of a run of legal and safe inputs. -/
theorem Along.inv (Inv : σ → Prop) (keeps : ∀ s i, Inv s → Legal s i → Safe s i → Inv (step s i)) {s : σ}
    (start : Inv s) {is : List ι} (legal : Along step Legal s is) (safe : Along step Safe s is) :
    Inv (is.foldl step s) := by
  induction is generalizing s with
  | nil => exact start
  | cons i is ih => exact ih (keeps s i start legal.1 safe.1) legal.2 safe.2

theorem Along.initial {P : σ → ι → Prop} {s : σ} {is pre : List ι} (h : Along step P s is)
    (le : pre <+: is) : Along step P s pre := by
  induction pre generalizing s is with
  | nil => trivial
  | cons i pre ih =>
    obtain ⟨rest, rfl⟩ := le
    exact ⟨h.1, ih h.2 ⟨rest, rfl⟩⟩

theorem along_iff (Inv : σ → Prop) (good : ∀ s, Inv s → Good s)
    (keeps : ∀ s i, Inv s → Legal s i → Safe s i → Inv (step s i))
    (breaks : ∀ s i, Inv s → Legal s i → ¬ Safe s i → ¬ Good (step s i)) {s : σ} (start : Inv s)
    {is : List ι} (legal : Along step Legal s is) :
    (∀ pre, pre <+: is → Good (pre.foldl step s)) ↔ Along step Safe s is := by
  constructor
  · intro all
    induction is generalizing s with
    | nil => trivial
    | cons i is ih =>
      have safe : Safe s i := by
        by_contra hs
        exact breaks s i start legal.1 hs (all [i] ⟨is, rfl⟩)
      refine ⟨safe, ih (keeps s i start legal.1 safe) legal.2 ?_⟩
      intro pre le
      exact all (i :: pre) (List.cons_prefix_cons.mpr ⟨rfl, le⟩)
  · intro safe pre le
    exact good _ (Along.inv Inv keeps start (legal.initial le) (safe.initial le))

end AgentEngine.Lib
