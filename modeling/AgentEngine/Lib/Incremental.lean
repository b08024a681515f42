import Mathlib.Tactic.Cases

/-!
Readers that take their input piece by piece.

A `Reader` keeps what it has not used yet in its state. One `pass` over that state either
delivers an item, starves until more input is poured in, or halts for good; the read loop
repeats the pass while it delivers.

* `drain_of_lt`: the loop ends by itself when every delivery uses up some input.
* `Reach.inv`: invariants of the states between the passes of a run.
-/

namespace AgentEngine.Lib

open List

/-- What one pass over the buffered input ends with. -/
inductive Pass (σ π : Type) where
  | deliver (item : π) (s : σ)
  | starve (s : σ)
  | halt (s : σ)

/-- A reader: its pass, how input is added, and a bound on the deliveries left. -/
structure Reader (σ π α : Type) where
  pass : σ → Pass σ π
  pour : List α → σ → σ
  pending : σ → Nat

/-- What a loop over passes has delivered, where it stopped, and whether it halted. -/
structure Report (σ π : Type) where
  items : List π
  state : σ
  halted : Bool

namespace Report

variable {σ π : Type}

variable (items : List π) (r : Report σ π)

def before : Report σ π :=
  { r with items := items ++ r.items }

@[simp] theorem before_before (items items' : List π) (r : Report σ π) :
    (r.before items').before items = r.before (items ++ items') := by
  simp only [before, append_assoc]

@[simp] theorem before_items : (r.before items).items = items ++ r.items := Eq.refl _

@[simp] theorem before_state : (r.before items).state = r.state := Eq.refl _

@[simp] theorem before_halted : (r.before items).halted = r.halted := Eq.refl _

end Report

namespace Reader

variable {σ π α : Type} (R : Reader σ π α)

/-- Repeat the pass while it delivers, at most `fuel` times. -/
def drain : Nat → σ → Report σ π
  | 0, s => ⟨[], s, false⟩
  | fuel + 1, s =>
      match R.pass s with
      | .deliver item s' => (drain fuel s').before [item]
      | .starve s' => ⟨[], s', false⟩
      | .halt s' => ⟨[], s', true⟩

/-- The loop with the fuel that its state allows for. -/
def exhaust (s : σ) : Report σ π := R.drain (R.pending s + 1) s

/-- Add a piece of input and run the loop. -/
def feed (piece : List α) (s : σ) : Report σ π := R.exhaust (R.pour piece s)

/-- Feed one piece after the other until the reader halts. -/
def feedAll : List (List α) → σ → Report σ π
  | [], s => ⟨[], s, false⟩
  | piece :: pieces, s =>
      let r := R.feed piece s
      if r.halted then r else (feedAll pieces r.state).before r.items

/-- Every delivery uses up some of the input that is there. -/
def Productive : Prop :=
  ∀ ⦃s item s'⦄, R.pass s = .deliver item s' → R.pending s' < R.pending s

variable {R}

/-! ### The loop ends by itself -/

theorem drain_of_lt (prod : R.Productive) {fuel : Nat} {s : σ} (enough : R.pending s < fuel) :
    R.drain fuel s = R.exhaust s := by
  -- both amounts of fuel shrink together, the delivery moves to a smaller state
  suffices key : ∀ n m s, R.pending s < n → R.pending s < m → R.drain n s = R.drain m s from
    key _ _ s enough (Nat.lt_succ_self _)
  intro n
  induction n with
  | zero => intro m s hn; omega
  | succ n ih =>
    intro m s hn hm
    cases m with
    | zero => omega
    | succ m =>
      cases hp : R.pass s with
      | deliver item s' =>
        have smaller := prod hp
        simp only [drain, hp]
        rw [ih m s' (by omega) (by omega)]
      | starve s' | halt s' => simp only [drain, hp]

theorem exhaust_deliver (prod : R.Productive) {s s' : σ} {item : π}
    (h : R.pass s = .deliver item s') : R.exhaust s = (R.exhaust s').before [item] := by
  have smaller := prod h
  rw [← drain_of_lt prod smaller]
  simp only [exhaust, drain, h]

theorem exhaust_starve {s s' : σ} (h : R.pass s = .starve s') : R.exhaust s = ⟨[], s', false⟩ := by
  rw [exhaust, drain, h]

theorem exhaust_halt {s s' : σ} (h : R.pass s = .halt s') : R.exhaust s = ⟨[], s', true⟩ := by
  rw [exhaust, drain, h]

/-- Induction along the loop: one case for each way a pass can end. -/
theorem exhaust_induction (prod : R.Productive) {motive : σ → Prop}
    (deliver : ∀ s item s', R.pass s = .deliver item s' → motive s' → motive s)
    (starve : ∀ s s', R.pass s = .starve s' → motive s)
    (halt : ∀ s s', R.pass s = .halt s' → motive s) (s : σ) : motive s := by
  induction hn : R.pending s using Nat.strongRecOn generalizing s with
  | _ n ih =>
    cases hp : R.pass s with
    | deliver item s' => exact deliver s item s' hp (ih _ (hn ▸ prod hp) s' rfl)
    | starve s' => exact starve s s' hp
    | halt s' => exact halt s s' hp

/-! ### Feeding pieces -/

@[simp] theorem feedAll_singleton (piece : List α) (s : σ) : R.feedAll [piece] s = R.feed piece s := by
  simp only [feedAll]
  split
  · rfl
  · rename_i running
    simp only [Report.before, append_nil, ← eq_false_of_ne_true running]

theorem feedAll_append (pieces more : List (List α)) (s : σ) : R.feedAll (pieces ++ more) s =
      if (R.feedAll pieces s).halted then R.feedAll pieces s
      else (R.feedAll more (R.feedAll pieces s).state).before (R.feedAll pieces s).items := by
  induction pieces generalizing s with
  | nil => rfl
  | cons piece pieces ih =>
    simp only [cons_append, feedAll, ih]
    by_cases halted : (R.feed piece s).halted = true
    · simp only [if_pos halted]
    · simp only [if_neg halted, Report.before_halted, Report.before_state, Report.before_items]
      split
      · rfl
      · rw [Report.before_before]

/-! ### Invariants along a run -/

/-- The states between two passes of a run from `s₀`, whatever input comes and when. -/
inductive Reach (R : Reader σ π α) (s₀ : σ) : σ → Prop where
  | start : Reach R s₀ s₀
  | pour (piece : List α) {s : σ} : Reach R s₀ s → Reach R s₀ (R.pour piece s)
  | deliver {s s' : σ} {item : π} :
      Reach R s₀ s → R.pass s = .deliver item s' → Reach R s₀ s'
  | starve {s s' : σ} : Reach R s₀ s → R.pass s = .starve s' → Reach R s₀ s'

theorem Reach.inv {Inv : σ → Prop} {s₀ s : σ} (reach : R.Reach s₀ s) (start : Inv s₀)
    (pour : ∀ piece s, Inv s → Inv (R.pour piece s))
    (deliver : ∀ s item s', Inv s → R.pass s = .deliver item s' → Inv s')
    (starve : ∀ s s', Inv s → R.pass s = .starve s' → Inv s') : Inv s := by
  induction reach with
  | start => exact start
  | pour piece _ ih => exact pour piece _ ih
  | deliver _ hp ih => exact deliver _ _ _ ih hp
  | starve _ hp ih => exact starve _ _ ih hp

end Reader

end AgentEngine.Lib
