import Mathlib.Data.List.Chain

/-!
Failing loops and depth-bounded traversals over an explicit state.

`runAll` is a loop that stops at the first failing body, and `Walk.visit` is the
recursion that settles the successors of a node before it acts on the node itself.
Successors already settled are skipped, an absent successor fails, and so does the
depth bound. Nothing here fixes the state, the nodes or the action; a client
instantiates `Walk` and discharges `Walk.Sound` once per action.

* `runAll_inv`, `runAll_all`, `runAll_fails` are the loop rules.
* `Walk.Sound.visit` is the traversal rule: the invariant is kept, settled nodes
  stay settled, and a visit that returns true has settled its node.
* `Walk.Total.visit_fails` reads a failed visit of a total walk as a chain of
  successors that is longer than the depth bound.
-/

namespace AgentEngine.Lib

section Loop

variable {α σ : Type}

/-- Run the body on each element in turn; the first `false` ends the loop. -/
def runAll (body : α → σ → Bool × σ) : List α → σ → Bool × σ
  | [], s => (true, s)
  | x :: xs, s =>
      match body x s with
      | (false, s') => (false, s')
      | (true, s') => runAll body xs s'

variable {body : α → σ → Bool × σ} (Inv : σ → Prop) {xs : List α}

/-- An invariant of the body is an invariant of the loop, wherever it stops. -/
theorem runAll_inv {s : σ} (start : Inv s)
    (step : ∀ x ∈ xs, ∀ s, Inv s → Inv (body x s).2) : Inv (runAll body xs s).2 := by
  induction xs generalizing s with
  | nil => exact start
  | cons x xs ih =>
      have first := step x (by simp) s start
      have rest := fun y hy => step y (List.mem_cons_of_mem x hy)
      rw [runAll]
      split
      · rename_i s' heq
        simpa [heq] using first
      · rename_i s' heq
        exact ih (by simpa [heq] using first) rest

/-- A loop that ran to its end has established the postcondition of every body,
provided later bodies do not undo it. -/
theorem runAll_all (Post : α → σ → Prop) {s : σ} (start : Inv s)
    (step : ∀ x ∈ xs, ∀ s, Inv s → Inv (body x s).2)
    (post : ∀ x ∈ xs, ∀ s, Inv s → (body x s).1 = true → Post x (body x s).2)
    (keep : ∀ x ∈ xs, ∀ y s, Inv s → Post y s → Post y (body x s).2)
    (done : (runAll body xs s).1 = true) : ∀ x ∈ xs, Post x (runAll body xs s).2 := by
  induction xs generalizing s with
  | nil => simp
  | cons x xs ih =>
      have first := step x (by simp) s start
      have posted := post x (by simp) s start
      have stepRest := fun y hy => step y (List.mem_cons_of_mem x hy)
      have keepRest := fun y hy => keep y (List.mem_cons_of_mem x hy)
      rw [runAll] at done ⊢
      split at done
      · simp at done
      · rename_i s' heq
        rw [heq] at first posted
        intro y hy
        rcases List.mem_cons.mp hy with rfl | hy
        · -- The head's postcondition travels through the rest of the loop.
          exact (runAll_inv (fun t => Inv t ∧ Post y t) ⟨first, posted rfl⟩
            fun z hz t ht => ⟨stepRest z hz t ht.1, keepRest z hz y t ht.1 ht.2⟩).2
        · exact ih first stepRest (fun z hz => post z (List.mem_cons_of_mem x hz))
            keepRest done y hy

/-- A loop that ran to its end, by an invariant over the elements done so far. -/
theorem runAll_done (Done : List α → σ → Prop) {s t : σ} (start : Done [] s)
    (step : ∀ done x todo s t, xs = done ++ x :: todo → Done done s →
      body x s = (true, t) → Done (done ++ [x]) t)
    (ran : runAll body xs s = (true, t)) : Done xs t := by
  suffices rest : ∀ todo done s, xs = done ++ todo → Done done s →
      runAll body todo s = (true, t) → Done xs t from rest xs [] s rfl start ran
  intro todo
  induction todo with
  | nil =>
      intro done s split inv ran
      obtain rfl : s = t := (Prod.mk.inj ran).2
      simpa [split] using inv
  | cons x todo ih =>
      intro done s split inv ran
      rw [runAll] at ran
      split at ran
      · simp at ran
      · rename_i s' heq
        exact ih (done ++ [x]) s' (by simp [split]) (step done x todo s s' split inv heq) ran

/-- A loop fails only through one of its bodies, run in an invariant state. -/
theorem runAll_fails {s : σ} (start : Inv s) (step : ∀ x ∈ xs, ∀ s, Inv s → Inv (body x s).2)
    (failed : (runAll body xs s).1 = false) :
    ∃ x ∈ xs, ∃ s, Inv s ∧ (body x s).1 = false := by
  induction xs generalizing s with
  | nil => simp [runAll] at failed
  | cons x xs ih =>
      have first := step x (by simp) s start
      rw [runAll] at failed
      split at failed
      · rename_i s' heq
        exact ⟨x, by simp, s, start, by rw [heq]⟩
      · rename_i s' heq
        rw [heq] at first
        obtain ⟨y, hy, t, ht, hfail⟩ :=
          ih first (fun y hy => step y (List.mem_cons_of_mem x hy)) failed
        exact ⟨y, List.mem_cons_of_mem x hy, t, ht, hfail⟩

end Loop

/-- A traversal: which nodes are settled, the successors of a node in visiting order
(`none` for a successor that does not exist), and the action that settles a node. -/
structure Walk (σ ν : Type) where
  settled : σ → ν → Bool
  next : σ → ν → List (Option ν)
  act : ν → σ → Bool × σ

namespace Walk

variable {σ ν : Type}

/-- The loop body over one successor: absent fails, settled is skipped. -/
def visitNext (w : Walk σ ν) (visit : ν → σ → Bool × σ) : Option ν → σ → Bool × σ
  | none, s => (false, s)
  | some m, s => if w.settled s m then (true, s) else visit m s

/-- Settle the successors of a node, then act on it. The first argument is what is
left of the depth bound. -/
def visit (w : Walk σ ν) : Nat → ν → σ → Bool × σ
  | 0, _, s => (false, s)
  | depth + 1, n, s =>
      match runAll (w.visitNext (w.visit depth)) (w.next s n) s with
      | (false, s') => (false, s')
      | (true, s') => w.act n s'

/-- What the action owes the traversal: it leaves the successor lists alone, keeps
settled nodes settled, settles its own node when it succeeds, and keeps the invariant
whenever every successor of its node is settled. -/
structure Sound (w : Walk σ ν) (Inv : σ → Prop) : Prop where
  next_act : ∀ n s, w.next (w.act n s).2 = w.next s
  settled_act : ∀ n m s, w.settled s m = true → w.settled (w.act n s).2 m = true
  act_settles : ∀ n s, (w.act n s).1 = true → w.settled (w.act n s).2 n = true
  inv_act : ∀ n s, Inv s → (∀ m ∈ w.next s n, ∃ m', m = some m' ∧ w.settled s m' = true) →
    Inv (w.act n s).2

/-- What a traversal started in `s` has kept when it stops in `t`. -/
structure Kept (w : Walk σ ν) (Inv : σ → Prop) (s t : σ) : Prop where
  inv : Inv t
  next : w.next t = w.next s
  settled : ∀ m, w.settled s m = true → w.settled t m = true

theorem Kept.refl {w : Walk σ ν} {Inv : σ → Prop} {s : σ} (inv : Inv s) : w.Kept Inv s s :=
  ⟨inv, rfl, fun _ h => h⟩

theorem Kept.trans {w : Walk σ ν} {Inv : σ → Prop} {s t u : σ} (first : w.Kept Inv s t)
    (second : w.Kept Inv t u) : w.Kept Inv s u :=
  ⟨second.inv, second.next.trans first.next, fun m h => second.settled m (first.settled m h)⟩

section Rules

variable {w : Walk σ ν} {Inv : σ → Prop}

/-- One successor: kept, and settled when the body returns true. -/
theorem visitNext_spec {visit : ν → σ → Bool × σ}
    (spec : ∀ n s, Inv s → w.Kept Inv s (visit n s).2 ∧
      ((visit n s).1 = true → w.settled (visit n s).2 n = true))
    (m : Option ν) {s : σ} (inv : Inv s) :
    w.Kept Inv s (w.visitNext visit m s).2 ∧
      ((w.visitNext visit m s).1 = true →
        ∃ m', m = some m' ∧ w.settled (w.visitNext visit m s).2 m' = true) := by
  cases m with
  | none => exact ⟨.refl inv, by simp [visitNext]⟩
  | some m =>
      rw [visitNext]
      split
      · rename_i skip
        exact ⟨.refl inv, fun _ => ⟨m, rfl, skip⟩⟩
      · obtain ⟨kept, settles⟩ := spec m s inv
        exact ⟨kept, fun h => ⟨m, rfl, settles h⟩⟩

/-- **The traversal rule.** A visit keeps the invariant wherever it stops, and has
settled its node when it returns true. -/
theorem Sound.visit (sound : w.Sound Inv) (depth : Nat) :
    ∀ n s, Inv s → w.Kept Inv s (w.visit depth n s).2 ∧
      ((w.visit depth n s).1 = true → w.settled (w.visit depth n s).2 n = true) := by
  induction depth with
  | zero => exact fun n s inv => ⟨.refl inv, by simp [Walk.visit]⟩
  | succ depth ih =>
      intro n s inv
      have one := fun m t (ht : w.Kept Inv s t) => visitNext_spec ih m ht.inv
      have step : ∀ m ∈ w.next s n, ∀ t, w.Kept Inv s t →
          w.Kept Inv s (w.visitNext (w.visit depth) m t).2 :=
        fun m _ t ht => ht.trans (one m t ht).1
      have kept := runAll_inv _ (Kept.refl inv) step
      rw [Walk.visit]
      split
      · rename_i s' heq
        exact ⟨by simpa [heq] using kept, by simp⟩
      · rename_i s' heq
        have all := runAll_all (w.Kept Inv s)
          (fun m t => ∃ m', m = some m' ∧ w.settled t m' = true) (.refl inv) step
          (fun m _ t ht => (one m t ht).2)
          (fun m _ m' t ht => fun ⟨k, hk, hset⟩ => ⟨k, hk, (one m t ht).1.settled k hset⟩)
          (by rw [heq])
        rw [heq] at kept all
        rw [← kept.next] at all
        refine ⟨kept.trans ⟨sound.inv_act n s' kept.inv all, sound.next_act n s',
          fun m => sound.settled_act n m s'⟩, sound.act_settles n s'⟩

/-- The top-level loop over a list of nodes, each visited with the full depth. -/
theorem Sound.visitAll (sound : w.Sound Inv) (depth : Nat) (ns : List ν) {s : σ} (inv : Inv s) :
    w.Kept Inv s (runAll (w.visit depth) ns s).2 ∧
      ((runAll (w.visit depth) ns s).1 = true →
        ∀ n ∈ ns, w.settled (runAll (w.visit depth) ns s).2 n = true) := by
  have step : ∀ n ∈ ns, ∀ t, w.Kept Inv s t → w.Kept Inv s (w.visit depth n t).2 :=
    fun n _ t ht => ht.trans (sound.visit depth n t ht.inv).1
  refine ⟨runAll_inv _ (.refl inv) step,
    runAll_all (w.Kept Inv s) (fun n t => w.settled t n = true) (.refl inv) step ?_ ?_⟩
  · exact fun n _ t ht => (sound.visit depth n t ht.inv).2
  · exact fun n _ m t ht => (sound.visit depth n t ht.inv).1.settled m

/-- A property that no action disturbs can be added to the invariant. -/
theorem Sound.and {Static : σ → Prop} (sound : w.Sound Inv)
    (keep : ∀ n s, Static s → Static (w.act n s).2) : w.Sound fun s => Inv s ∧ Static s where
  next_act := sound.next_act
  settled_act := sound.settled_act
  act_settles := sound.act_settles
  inv_act n s inv settled := ⟨sound.inv_act n s inv.1 settled, keep n s inv.2⟩

/-- A walk whose actions never fail and whose successors all exist. -/
structure Total (w : Walk σ ν) (Inv : σ → Prop) : Prop extends w.Sound Inv where
  act_succeeds : ∀ n s, Inv s → (w.act n s).1 = true
  next_some : ∀ n s, Inv s → none ∉ w.next s n

/-- **A failed visit of a total walk is a long chain.** Only the depth bound can fail
it, so the successors followed down to the bound form a chain from the visited node
with one node more than the bound. -/
theorem Total.visit_fails (total : w.Total Inv) (depth : Nat) :
    ∀ n s, Inv s → (w.visit depth n s).1 = false →
      ∃ chain : List ν, (n :: chain).IsChain (fun a b => some b ∈ w.next s a) ∧
        chain.length = depth := by
  induction depth with
  | zero => exact fun n s _ _ => ⟨[], by simp, rfl⟩
  | succ depth ih =>
      intro n s inv failed
      have visitSpec := total.toSound.visit depth
      have step : ∀ m ∈ w.next s n, ∀ t, w.Kept Inv s t →
          w.Kept Inv s (w.visitNext (w.visit depth) m t).2 :=
        fun m _ t ht => ht.trans (visitNext_spec visitSpec m ht.inv).1
      rw [Walk.visit] at failed
      split at failed
      · rename_i s' heq
        obtain ⟨m, hm, t, ht, hfail⟩ :=
          runAll_fails _ (Kept.refl inv) step (show (runAll _ _ s).1 = false by rw [heq])
        cases m with
        | none => exact absurd hm (total.next_some n s inv)
        | some m =>
            rw [visitNext] at hfail
            split at hfail
            · simp at hfail
            · obtain ⟨chain, hchain, hlen⟩ := ih m t ht.inv hfail
              rw [ht.next] at hchain
              exact ⟨m :: chain, List.isChain_cons_cons.mpr ⟨hm, hchain⟩, by simp [hlen]⟩
      · rename_i s' heq
        -- The loop ended, so the failure would be the action's.
        have kept := runAll_inv _ (Kept.refl inv) step
        rw [heq] at kept
        rw [total.act_succeeds n s' kept.inv] at failed
        simp at failed

/-- The top-level loop of a total walk over chains within the depth bound never fails. -/
theorem Total.visitAll_succeeds (total : w.Total Inv) {depth : Nat} (ns : List ν) {s : σ}
    (inv : Inv s)
    (short : ∀ t, Inv t → ∀ chain : List ν,
      chain.IsChain (fun a b => some b ∈ w.next t a) → chain.length ≤ depth) :
    (runAll (w.visit depth) ns s).1 = true := by
  by_contra failed
  obtain ⟨n, -, t, ht, hfail⟩ := runAll_fails Inv inv
    (fun n _ t ht => (total.toSound.visit depth n t ht).1.inv) (by simpa using failed)
  obtain ⟨chain, hchain, hlen⟩ := total.visit_fails depth n t ht hfail
  have bounded := short t ht _ hchain
  rw [List.length_cons, hlen] at bounded
  omega

end Rules

end Walk

end AgentEngine.Lib
