/-!
Loops whose rounds shrink their state.

A `Loop` runs its body until the body leaves it. Every round after which it goes on makes the
state smaller, so that the loop ends; `run_eq` unrolls it once, and `run_induction` is the rule
for what holds of every run. A body alone may run on forever: `Returns` is that it does not.
-/

namespace AgentEngine.Lib

/-- How a round of a loop ends. -/
inductive Round (σ ρ : Type) where
  | again (s : σ)
  | leave (r : ρ)

/-- One property of the state to go on with, and another one of the result. -/
def Round.Sat {σ ρ : Type} (onAgain : σ → Prop) (onLeave : ρ → Prop) : Round σ ρ → Prop
  | .again s => onAgain s
  | .leave r => onLeave r

theorem Round.Sat.mono {σ ρ : Type} {P P' : σ → Prop} {Q Q' : ρ → Prop} {x : Round σ ρ}
    (h : x.Sat P Q) (again : ∀ s, P s → P' s) (leave : ∀ r, Q r → Q' r) : x.Sat P' Q' := by
  cases x with
  | again s => exact again s h
  | leave r => exact leave r h

/-- A loop of at most so many rounds. -/
def rounds {m : Type → Type} [Monad m] {β α : Type} (out : m α) (body : β → m (Round β α)) :
    Nat → β → m α
  | 0, _ => out
  | n + 1, b => do
      match ← body b with
      | .again b => rounds out body n b
      | .leave a => pure a

section Returns

variable {σ ρ : Type} {body : σ → Round σ ρ} {s s' : σ} {r : ρ}

/-- A loop that may run on forever comes to its end. -/
def Returns (body : σ → Round σ ρ) (s : σ) (r : ρ) : Prop :=
  ∃ n, rounds none (fun s => some (body s)) n s = some r

theorem Returns.leave (left : body s = .leave r) : Returns body s r := ⟨1, by simp [rounds, left]⟩

theorem Returns.again (next : body s = .again s') : Returns body s' r → Returns body s r := by
  rintro ⟨n, later⟩
  exact ⟨n + 1, by simpa [rounds, next] using later⟩

/-- A loop that keeps to states in which it goes on does not return. -/
theorem not_returns {I : σ → Prop} (goesOn : ∀ s, I s → ∃ s', body s = .again s' ∧ I s') (start : I s) :
    ¬ Returns body s r := by
  rintro ⟨n, returned⟩
  induction n generalizing s with
  | zero => cases returned
  | succ n ih =>
    obtain ⟨s', next, inv⟩ := goesOn s start
    simp only [rounds, next] at returned
    exact ih inv returned

end Returns

structure Loop (σ ρ : Type) where
  body : σ → Round σ ρ
  size : σ → Nat
  smaller : ∀ ⦃s s'⦄, body s = .again s' → size s' < size s

namespace Loop

variable {σ ρ : Type} (L : Loop σ ρ)

/-- The loop, with more rounds at hand than it can make. -/
def runFor : (rounds : Nat) → (s : σ) → L.size s < rounds → ρ
  | 0, _, enough => absurd enough (Nat.not_lt_zero _)
  | rounds + 1, s, enough =>
      match e : L.body s with
      | .again s' => runFor rounds s' (Nat.lt_of_lt_of_le (L.smaller e) (Nat.le_of_lt_succ enough))
      | .leave r => r

def run (s : σ) : ρ := L.runFor (L.size s + 1) s (Nat.lt_succ_self _)

variable {L}

theorem runFor_leave {rounds : Nat} {s : σ} (enough : L.size s < rounds + 1) {r : ρ}
    (h : L.body s = .leave r) : L.runFor (rounds + 1) s enough = r := by
  unfold runFor
  split
  · rename_i e
    rw [h] at e
    cases e
  · rename_i e
    rw [h] at e
    cases e
    rfl

theorem runFor_again {rounds : Nat} {s s' : σ} (enough : L.size s < rounds + 1)
    (h : L.body s = .again s') : ∃ enough', L.runFor (rounds + 1) s enough =
      L.runFor rounds s' enough' := by
  refine ⟨Nat.lt_of_lt_of_le (L.smaller h) (Nat.le_of_lt_succ enough), ?_⟩
  conv => lhs; unfold runFor
  split
  · rename_i e
    rw [h] at e
    cases e
    rfl
  · rename_i e
    rw [h] at e
    cases e

/-- Rounds that are not needed make no difference. -/
theorem runFor_eq (m n : Nat) (s : σ) (hm : L.size s < m) (hn : L.size s < n) :
    L.runFor m s hm = L.runFor n s hn := by
  induction m generalizing n s with
  | zero => exact absurd hm (Nat.not_lt_zero _)
  | succ m ih =>
    cases n with
    | zero => exact absurd hn (Nat.not_lt_zero _)
    | succ n =>
      cases h : L.body s with
      | leave r => rw [runFor_leave hm h, runFor_leave hn h]
      | again s' =>
        obtain ⟨hm', em⟩ := runFor_again hm h
        obtain ⟨hn', en⟩ := runFor_again hn h
        rw [em, en]
        exact ih n s' hm' hn'

theorem run_leave {s : σ} {r : ρ} (h : L.body s = .leave r) : L.run s = r := runFor_leave _ h

theorem run_again {s s' : σ} (h : L.body s = .again s') : L.run s = L.run s' := by
  obtain ⟨enough, e⟩ := runFor_again (Nat.lt_succ_self _) h
  exact e.trans (runFor_eq _ _ s' enough _)

/-- Induction along a run of the loop. -/
theorem run_induction {motive : σ → Prop}
    (leave : ∀ s r, L.body s = .leave r → motive s)
    (again : ∀ s s', L.body s = .again s' → motive s' → motive s) (s : σ) : motive s := by
  induction hn : L.size s using Nat.strongRecOn generalizing s with
  | _ n ih =>
    cases h : L.body s with
    | leave r => exact leave s r h
    | again s' => exact again s s' h (ih _ (hn ▸ L.smaller h) s' rfl)

/-- An invariant of the rounds, and what they leave the loop with. -/
theorem run_inv {I : σ → Prop} {Q : ρ → Prop} (round : ∀ s, I s → (L.body s).Sat I Q) (s : σ) :
    I s → Q (L.run s) := by
  induction s using run_induction (L := L) with
  | leave s r h =>
    intro inv
    have here := round s inv
    rw [h] at here
    rw [run_leave h]
    exact here
  | again s s' h ih =>
    intro inv
    have here := round s inv
    rw [h] at here
    rw [run_again h]
    exact ih here

/-- What every round keeps to, the loop keeps to. -/
theorem run_rel {κ : Type} {L : Loop σ (κ × σ)} {R : σ → σ → Prop}
    (trans : ∀ {s s' s''}, R s s' → R s' s'' → R s s'')
    (round : ∀ s, (L.body s).Sat (R s) fun r => R s r.2) (s : σ) : R s (L.run s).2 := by
  refine run_inv (I := fun s' => ∀ t, R s' t → R s t) (Q := fun r : κ × σ => R s r.2) ?_ s fun _ here => here
  intro s' inv
  exact (round s').mono (fun _ here t later => inv t (trans here later)) fun r here => inv r.2 here

end Loop

end AgentEngine.Lib
