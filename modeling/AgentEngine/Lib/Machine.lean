import AgentEngine.Lib.Loops

/-!
Machines that use up their input in steps and never take back a decision.

A `Machine` looks at the input that it has: it waits for more, takes some of it, emits an item
or fails. Whatever it decides except to wait, it would decide just so with more input at hand.
`run_append` is what this gives: it makes no difference whether input is there at once or comes
later.
-/

namespace AgentEngine.Lib

inductive Move (σ π : Type) where
  | wait
  | take (n : Nat) (s : σ)
  | emit (item : π) (s : σ)
  | fail

structure Machine (σ π α : Type) where
  step : σ → List α → Move σ π
  size : σ → List α → Nat
  fits : ∀ ⦃s xs n s'⦄, step s xs = .take n s' → n ≤ xs.length
  settled : ∀ ⦃s xs⦄ ys, step s xs ≠ .wait → step s (xs ++ ys) = step s xs
  take_smaller : ∀ ⦃s xs n s'⦄, step s xs = .take n s' → size s' (xs.drop n) < size s xs
  emit_smaller : ∀ ⦃s xs item s'⦄, step s xs = .emit item s' → size s' xs < size s xs

/-- Where a run has come to: what was emitted, the state, the input that is left, and whether
the machine has failed. -/
structure Outcome (σ π α : Type) where
  items : List π
  state : σ
  rest : List α
  failed : Bool

def Outcome.before {σ π α : Type} (items : List π) (r : Outcome σ π α) : Outcome σ π α :=
  { r with items := items ++ r.items }

namespace Machine

variable {σ π α : Type} (M : Machine σ π α)

/-- A round of a run. -/
def round (r : List π × σ × List α) : Round (List π × σ × List α) (Outcome σ π α) :=
  match M.step r.2.1 r.2.2 with
  | .wait => .leave ⟨r.1, r.2.1, r.2.2, false⟩
  | .take n s => .again (r.1, s, r.2.2.drop n)
  | .emit item s => .again (r.1 ++ [item], s, r.2.2)
  | .fail => .leave ⟨r.1, r.2.1, r.2.2, true⟩

theorem round_smaller {r r' : List π × σ × List α} (h : M.round r = .again r') :
    M.size r'.2.1 r'.2.2 < M.size r.2.1 r.2.2 := by
  unfold round at h
  split at h
  · cases h
  · rename_i step
    cases h
    exact M.take_smaller step
  · rename_i step
    cases h
    exact M.emit_smaller step
  · cases h

def loop : Loop (List π × σ × List α) (Outcome σ π α) where
  body := M.round
  size r := M.size r.2.1 r.2.2
  smaller _ _ h := M.round_smaller h

/-- Run the machine on some input until it waits or fails. -/
def run (s : σ) (xs : List α) : Outcome σ π α := M.loop.run ([], s, xs)

variable {M}

/-- What was emitted before plays no role. -/
theorem loop_run (items : List π) (s : σ) (xs : List α) :
    M.loop.run (items, s, xs) = (M.run s xs).before items := by
  suffices key : ∀ r : List π × σ × List α, ∀ items,
      M.loop.run (items ++ r.1, r.2) = (M.loop.run r).before items by
    have := key ([], s, xs) items
    rwa [List.append_nil] at this
  intro r
  induction r using Loop.run_induction (L := M.loop) with
  | leave r o h =>
    intro items
    have same : M.loop.body (items ++ r.1, r.2) = .leave (o.before items) := by
      change M.round _ = _
      change M.round r = _ at h
      unfold round at h ⊢
      split at h
      · rename_i step
        cases h
        simp only [step]
        rfl
      · cases h
      · cases h
      · rename_i step
        cases h
        simp only [step]
        rfl
    rw [Loop.run_leave h, Loop.run_leave same]
  | again r r' h ih =>
    intro items
    have same : M.loop.body (items ++ r.1, r.2) = .again (items ++ r'.1, r'.2) := by
      change M.round _ = _
      change M.round r = _ at h
      unfold round at h ⊢
      split at h
      · cases h
      · rename_i step
        cases h
        simp only [step]
      · rename_i step
        cases h
        simp only [step, List.append_assoc]
      · cases h
    rw [Loop.run_again h, Loop.run_again same, ih]

section Run

variable {s s' : σ} {xs : List α}

theorem run_wait (h : M.step s xs = .wait) : M.run s xs = ⟨[], s, xs, false⟩ := by
  apply Loop.run_leave
  change M.round _ = _
  simp only [round, h]

theorem run_fail (h : M.step s xs = .fail) : M.run s xs = ⟨[], s, xs, true⟩ := by
  apply Loop.run_leave
  change M.round _ = _
  simp only [round, h]

theorem run_take {n : Nat} (h : M.step s xs = .take n s') : M.run s xs = M.run s' (xs.drop n) := by
  apply Loop.run_again
  change M.round _ = _
  simp only [round, h]

theorem run_emit {item : π} (h : M.step s xs = .emit item s') :
    M.run s xs = (M.run s' xs).before [item] := by
  rw [← loop_run]
  apply Loop.run_again
  change M.round _ = _
  simp only [round, h, List.nil_append]

/-- Induction along a run: one case for each move. -/
theorem run_cases {motive : σ → List α → Prop}
    (wait : ∀ s xs, M.step s xs = .wait → motive s xs)
    (fail : ∀ s xs, M.step s xs = .fail → motive s xs)
    (take : ∀ s xs n s', M.step s xs = .take n s' → motive s' (xs.drop n) → motive s xs)
    (emit : ∀ s xs item s', M.step s xs = .emit item s' → motive s' xs → motive s xs)
    (s : σ) (xs : List α) : motive s xs := by
  induction hn : M.size s xs using Nat.strongRecOn generalizing s xs with
  | _ n ih =>
    cases h : M.step s xs with
    | wait => exact wait s xs h
    | fail => exact fail s xs h
    | take n s' => exact take s xs n s' h (ih _ (hn ▸ M.take_smaller h) s' _ rfl)
    | emit item s' => exact emit s xs item s' h (ih _ (hn ▸ M.emit_smaller h) s' xs rfl)

end Run

/-! ### Steps -/

/-- The machine gets from one state to another without emitting anything. -/
inductive Reaches (M : Machine σ π α) : σ → List α → σ → List α → Prop where
  | refl (s : σ) (xs : List α) : Reaches M s xs s xs
  | take {s s' t : σ} {xs ys : List α} {n : Nat} (first : M.step s xs = .take n s')
      (rest : Reaches M s' (xs.drop n) t ys) : Reaches M s xs t ys

namespace Reaches

variable {s t u : σ} {xs ys zs : List α}

section

variable (h : M.Reaches s xs t ys)
include h

theorem trans (h' : M.Reaches t ys u zs) : M.Reaches s xs u zs := by
  induction h with
  | refl s xs => exact h'
  | take first _ ih => exact .take first (ih h')

theorem step {n : Nat} (last : M.step t ys = .take n u) :
    M.Reaches s xs u (ys.drop n) := h.trans (.take last (.refl _ _))

theorem run : M.run s xs = M.run t ys := by
  induction h with
  | refl s xs => rfl
  | take first _ ih => rw [run_take first, ih]

/-- An invariant of the state. -/
theorem inv {Inv : σ → Prop} (start : Inv s)
    (step : ∀ s xs n s', M.step s xs = .take n s' → Inv s → Inv s') : Inv t := by
  induction h with
  | refl s xs => exact start
  | take first _ ih => exact ih (step _ _ _ _ first start)

end

end Reaches

/-- Input that comes later is used just as if it had been there from the start. -/
theorem run_append (s : σ) (xs ys : List α) :
    M.run s (xs ++ ys) =
      if (M.run s xs).failed then { M.run s xs with rest := (M.run s xs).rest ++ ys }
      else (M.run (M.run s xs).state ((M.run s xs).rest ++ ys)).before (M.run s xs).items := by
  induction s, xs using run_cases (M := M) with
  | wait s xs h =>
    rw [run_wait h]
    rfl
  | fail s xs h =>
    have more := M.settled ys (by rw [h]; exact nofun)
    rw [run_fail h, run_fail (more.trans h)]
    rfl
  | take s xs n s' h ih =>
    have more := M.settled ys (by rw [h]; exact nofun)
    rw [run_take h, run_take (more.trans h), List.drop_append_of_le_length (M.fits h), ih]
  | emit s xs item s' h ih =>
    have more := M.settled ys (by rw [h]; exact nofun)
    rw [run_emit h, run_emit (more.trans h), ih]
    cases failed : (M.run s' xs).failed <;>
      simp [Outcome.before, failed]

theorem run_append_failed {s : σ} {xs : List α} (failed : (M.run s xs).failed = true)
    (ys : List α) : M.run s (xs ++ ys) = { M.run s xs with rest := (M.run s xs).rest ++ ys } := by
  rw [run_append, if_pos failed]

theorem run_append_running {s : σ} {xs : List α} (running : (M.run s xs).failed = false)
    (ys : List α) : M.run s (xs ++ ys) =
      (M.run (M.run s xs).state ((M.run s xs).rest ++ ys)).before (M.run s xs).items := by
  rw [run_append, if_neg (ne_true_of_eq_false running)]

end Machine

end AgentEngine.Lib
