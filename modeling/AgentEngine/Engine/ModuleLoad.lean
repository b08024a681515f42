import AgentEngine.Engine.ModuleBinding

/-!
Loading and unloading along the dependency graph.

The invariant `DependsLoaded` says that a loaded module has all its dependencies loaded.
It holds at every point of every run of `Start` and `Stop` calls, also inside a call and
after a failed one (`loaded_depends_throughout`): `Load` acts on a module once its
dependencies are loaded, `Unload` once its dependents are unloaded, and the second is
enough because the two relations are inverse.

`Start` and `Stop` each return at once when `stopped_` says there is nothing to do, but a
call that fails midway changes modules and leaves `stopped_` alone. A returned `true`
therefore means what it says exactly when that early return was taken in a state where
the sweep would have had nothing to do (`call_honest_iff`).
-/

namespace AgentEngine.Engine

open Lib

namespace ModuleManager

/-- Every module flagged as loaded has every module of its `depend_modules_` flagged. -/
def DependsLoaded (depends : ModuleRef → ModuleMap) (flags : ModuleRef → Bool) : Prop :=
  ∀ m, flags m = true → ∀ n e, (depends m).lookup n = some e → ∃ d, e = some d ∧ flags d = true

/-- The invariant of a run: the modules bound by `Init`, the two relations inverse to one
another, and `DependsLoaded` now and at every recorded point. -/
structure Inv (mods : UMap String ModuleRef) (s : ModuleManager) : Prop where
  modules : s.modules = mods
  back : ∀ m n d, (s.dependModules m).lookup n = some (some d) →
    ∃ k, (s.beDependedModules d).lookup k = some (some m)
  now : DependsLoaded s.dependModules s.loaded
  past : ∀ flags ∈ s.trace, DependsLoaded s.dependModules flags

theorem inv_of_bound {funcs : ModuleCreatorFuncMap} {s : ModuleManager} (bound : Bound funcs s) :
    Inv s.modules s where
  modules := rfl
  back m n d h := by
    obtain ⟨hd, dep⟩ := (bound.edges.depends m n (some d)).mp h
    obtain rfl := Option.some.inj hd
    exact ⟨m, (bound.edges.dependents d m (some m)).mpr ⟨rfl, dep⟩⟩
  now m hm := by simp [bound.loaded] at hm
  past flags hflags := by simp [bound.trace] at hflags

/-! ### One module -/

section Switch

variable {target : Bool} {callback : Nat → ModuleRef → Bool} {m : ModuleRef} {s : ModuleManager}

/-- Everything `BaseModule::Load` and `Unload` can do: nothing, a callback that failed, or
a callback followed by the change of the flag. -/
theorem switchTo_cases (target : Bool) (callback : Nat → ModuleRef → Bool) (m : ModuleRef)
    (s : ModuleManager) :
    (s.loaded m = target ∧ switchTo target callback m s = (true, s)) ∨
    (s.loaded m ≠ target ∧ callback s.calls m = false ∧
      switchTo target callback m s = (false, s.enterCallback)) ∨
    (s.loaded m ≠ target ∧ callback s.calls m = true ∧
      switchTo target callback m s = (true, s.enterCallback.setLoaded m target)) := by
  unfold switchTo
  by_cases already : s.loaded m = target
  · exact Or.inl ⟨already, by rw [if_pos already]⟩
  · rw [if_neg already]
    cases outcome : callback s.calls m with
    | false => exact Or.inr (Or.inl ⟨already, rfl, by simp⟩)
    | true => exact Or.inr (Or.inr ⟨already, rfl, by simp⟩)

@[simp] theorem switchTo_dependModules :
    (switchTo target callback m s).2.dependModules = s.dependModules := by
  obtain ⟨-, h⟩ | ⟨-, -, h⟩ | ⟨-, -, h⟩ := switchTo_cases target callback m s <;> rw [h] <;> rfl

@[simp] theorem switchTo_beDependedModules :
    (switchTo target callback m s).2.beDependedModules = s.beDependedModules := by
  obtain ⟨-, h⟩ | ⟨-, -, h⟩ | ⟨-, -, h⟩ := switchTo_cases target callback m s <;> rw [h] <;> rfl

/-- A success leaves the flag at its target. -/
theorem switchTo_reaches (ok : (switchTo target callback m s).1 = true) :
    (switchTo target callback m s).2.loaded m = target := by
  obtain ⟨h, e⟩ | ⟨-, -, e⟩ | ⟨-, -, e⟩ := switchTo_cases target callback m s
  · rw [e]
    exact h
  · rw [e] at ok
    simp at ok
  · rw [e]
    simp [setLoaded, enterCallback]

/-- A flag already at the target stays there. -/
theorem switchTo_keeps {m' : ModuleRef} (h : s.loaded m' = target) :
    (switchTo target callback m s).2.loaded m' = target := by
  obtain ⟨-, e⟩ | ⟨-, -, e⟩ | ⟨-, -, e⟩ := switchTo_cases target callback m s
  · rw [e]
    exact h
  · rw [e]
    exact h
  · rw [e]
    by_cases same : m' = m <;> simp [setLoaded, enterCallback, same, h]

/-- Changing one flag keeps the invariant when the changed flags still satisfy it. -/
theorem Inv.switchTo {mods : UMap String ModuleRef} (inv : Inv mods s)
    (closed : DependsLoaded s.dependModules (Function.update s.loaded m target)) :
    Inv mods (switchTo target callback m s).2 := by
  obtain ⟨-, e⟩ | ⟨-, -, e⟩ | ⟨-, -, e⟩ := switchTo_cases target callback m s
  · rw [e]
    exact inv
  · rw [e]
    refine ⟨inv.modules, inv.back, inv.now, fun flags hflags => ?_⟩
    rcases List.mem_append.mp hflags with h | h
    · exact inv.past flags h
    · rw [List.mem_singleton.mp h]
      exact inv.now
  · rw [e]
    refine ⟨inv.modules, inv.back, closed, fun flags hflags => ?_⟩
    simp only [setLoaded, enterCallback, List.mem_append, List.mem_singleton] at hflags
    rcases hflags with (h | h) | h
    · exact inv.past flags h
    · rw [h]
      exact inv.now
    · rw [h]
      exact closed

end Switch

/-! ### The two recursions -/

section Walks

variable (o : IterOrder MapId String) (cb : Callbacks) (mods : UMap String ModuleRef)

/-- `Load` acts on a module whose dependencies are all loaded. -/
theorem loadWalk_sound : (loadWalk o cb).Sound (Inv mods) where
  next_act n s := by
    funext m
    simp [loadWalk, moduleLoad]
  settled_act n m s h := switchTo_keeps h
  act_settles n s h := switchTo_reaches h
  inv_act n s inv settled := by
    refine inv.switchTo fun m hm k e he => ?_
    by_cases same : m = n
    · subst same
      obtain ⟨d, rfl, hd⟩ := settled e ((o.mem_values _ _).mpr ⟨k, he⟩)
      have hd : s.loaded d = true := hd
      refine ⟨d, rfl, ?_⟩
      by_cases hdm : d = m <;> simp [hdm, hd]
    · rw [Function.update_of_ne same] at hm
      obtain ⟨d, rfl, hd⟩ := inv.now m hm k e he
      refine ⟨d, rfl, ?_⟩
      by_cases hdn : d = n <;> simp [hdn, hd]

@[simp] theorem unloadWalk_settled (s : ModuleManager) (m : ModuleRef) :
    ((unloadWalk o cb).settled s m = true) = (s.loaded m = false) := by
  simp [unloadWalk]

/-- `Unload` acts on a module whose dependents are all unloaded, so no loaded module
depends on it. -/
theorem unloadWalk_sound : (unloadWalk o cb).Sound (Inv mods) where
  next_act n s := by
    funext m
    simp [unloadWalk, moduleUnload]
  settled_act n m s h := by
    rw [unloadWalk_settled] at h ⊢
    exact switchTo_keeps h
  act_settles n s h := by
    rw [unloadWalk_settled]
    exact switchTo_reaches h
  inv_act n s inv settled := by
    refine inv.switchTo fun m hm k e he => ?_
    have ne : m ≠ n := fun same => by simp [same] at hm
    rw [Function.update_of_ne ne] at hm
    obtain ⟨d, rfl, hd⟩ := inv.now m hm k e he
    refine ⟨d, rfl, ?_⟩
    by_cases hdn : d = n
    · subst hdn
      obtain ⟨k', hk'⟩ := inv.back m k d he
      obtain ⟨m', hm', unloaded⟩ := settled (some m) ((o.mem_values _ _).mpr ⟨k', hk'⟩)
      obtain rfl := Option.some.inj hm'
      rw [unloadWalk_settled] at unloaded
      rw [unloaded] at hm
      simp at hm
    · simp [hdn, hd]

end Walks

/-! ### Start and stop -/

section Calls

variable {o : IterOrder MapId String} {cb : Callbacks} {mods : UMap String ModuleRef}
  {s : ModuleManager}

/-- Everything `Start` and `Stop` can do: return at once, fail midway, or finish the sweep
and flip `stopped_`. -/
theorem sweep_cases (target : Bool) (body : ModuleRef → ModuleManager → Bool × ModuleManager)
    (s : ModuleManager) :
    (s.stopped = target ∧ sweep o target body s = (true, s)) ∨
    (s.stopped ≠ target ∧ ∃ s', runAll body ((o.entries .modules s.modules).map Prod.snd) s =
      (false, s') ∧ sweep o target body s = (false, s')) ∨
    (s.stopped ≠ target ∧ ∃ s', runAll body ((o.entries .modules s.modules).map Prod.snd) s =
      (true, s') ∧ sweep o target body s = (true, { s' with stopped := target })) := by
  unfold sweep
  by_cases already : s.stopped = target
  · exact Or.inl ⟨already, by rw [if_pos already]⟩
  · rw [if_neg already]
    cases ran : runAll body ((o.entries .modules s.modules).map Prod.snd) s with
    | mk ok s' =>
        cases ok with
        | false => exact Or.inr (Or.inl ⟨already, s', rfl, rfl⟩)
        | true => exact Or.inr (Or.inr ⟨already, s', rfl, rfl⟩)

/-- A walk and an invariant that do not look at `stopped_`. -/
structure IgnoresStopped (w : Walk ModuleManager ModuleRef) (I : ModuleManager → Prop) : Prop where
  settled : ∀ s b m, w.settled { s with stopped := b } m = w.settled s m
  inv : ∀ s b, I s → I { s with stopped := b }

variable {w : Walk ModuleManager ModuleRef} {I : ModuleManager → Prop}

/-- A sweep by a sound walk keeps the invariant, and a sweep that ran to its end has
settled every module. -/
theorem sweep_spec (sound : w.Sound I) (frame : IgnoresStopped w I) (target : Bool) (inv : I s) :
    I (sweep o target (w.visit maxDepth) s).2 ∧
      (s.stopped ≠ target → (sweep o target (w.visit maxDepth) s).1 = true →
        ∀ n m, s.modules.lookup n = some m →
          w.settled (sweep o target (w.visit maxDepth) s).2 m = true) := by
  have all := sound.visitAll maxDepth ((o.entries .modules s.modules).map Prod.snd) inv
  obtain ⟨h, e⟩ | ⟨-, s', ran, e⟩ | ⟨-, s', ran, e⟩ :=
    sweep_cases (o := o) target (w.visit maxDepth) s
  · rw [e]
    exact ⟨inv, fun ne => absurd h ne⟩
  · rw [e]
    rw [ran] at all
    exact ⟨all.1.inv, by simp⟩
  · rw [e]
    rw [ran] at all
    refine ⟨frame.inv s' target all.1.inv, fun _ _ n m hm => ?_⟩
    rw [frame.settled]
    exact all.2 rfl m ((o.mem_values _ _).mpr ⟨n, hm⟩)

/-- Whether a returned `true` means that every module is settled depends on the early
return alone: it must have been taken where every module was settled already. -/
theorem sweep_settled_iff
    (sound : w.Sound I) (frame : IgnoresStopped w I) (target : Bool) (inv : I s) :
    ((sweep o target (w.visit maxDepth) s).1 = true → ∀ n m, s.modules.lookup n = some m →
        w.settled (sweep o target (w.visit maxDepth) s).2 m = true) ↔
      (s.stopped = target → ∀ n m, s.modules.lookup n = some m → w.settled s m = true) := by
  by_cases early : s.stopped = target
  · have returned : sweep o target (w.visit maxDepth) s = (true, s) := by simp [sweep, early]
    simp [returned, early]
  · refine ⟨fun _ h => absurd h early, fun _ => ?_⟩
    exact (sweep_spec sound frame target inv).2 early

theorem Inv.setStopped (inv : Inv mods s) (b : Bool) : Inv mods { s with stopped := b } :=
  ⟨inv.modules, inv.back, inv.now, inv.past⟩

theorem loadWalk_ignoresStopped : IgnoresStopped (loadWalk o cb) (Inv mods) :=
  ⟨fun _ _ _ => rfl, fun _ b inv => inv.setStopped b⟩

theorem unloadWalk_ignoresStopped : IgnoresStopped (unloadWalk o cb) (Inv mods) :=
  ⟨fun _ _ _ => rfl, fun _ b inv => inv.setStopped b⟩

/-- **One call keeps the invariant**, whether it returns early, fails midway or finishes. -/
theorem Inv.call (inv : Inv mods s) (c : Call) : Inv mods (call o cb c s).2 := by
  cases c with
  | start => exact (sweep_spec (loadWalk_sound o cb mods) loadWalk_ignoresStopped false inv).1
  | stop => exact (sweep_spec (unloadWalk_sound o cb mods) unloadWalk_ignoresStopped true inv).1

theorem Inv.run (inv : Inv mods s) (calls : List Call) : Inv mods (run o cb calls s) := by
  induction calls generalizing s with
  | nil => exact inv
  | cons c cs ih => exact ih (inv.call c)

theorem Inv.steps (inv : Inv mods s) {calls : List Call} {st : Step}
    (mem : st ∈ steps o cb calls s) :
    Inv mods st.before ∧ st.result = (ModuleManager.call o cb st.call st.before).1 ∧
      st.after = (ModuleManager.call o cb st.call st.before).2 := by
  induction calls generalizing s with
  | nil => simp [ModuleManager.steps] at mem
  | cons c cs ih =>
      rw [ModuleManager.steps] at mem
      rcases List.mem_cons.mp mem with rfl | mem
      · exact ⟨inv, rfl, rfl⟩
      · exact ih (inv.call c) mem

end Calls

/-- **At every point of every run, a loaded module has its dependencies loaded.** The
points are the state after the last call and every state in which some callback ran or
some flag had just changed, from a successful `Init` on. -/
theorem loaded_depends_throughout (o : IterOrder MapId String) (cb : Callbacks)
    (funcs : ModuleCreatorFuncMap) (s : ModuleManager) (ran : init o funcs {} = (true, s))
    (calls : List Call) :
    ∀ flags ∈ (run o cb calls s).loaded :: (run o cb calls s).trace,
      DependsLoaded (run o cb calls s).dependModules flags := by
  have inv : Inv s.modules (run o cb calls s) := (inv_of_bound (init_bound ran).2).run calls
  intro flags hflags
  rcases List.mem_cons.mp hflags with rfl | h
  · exact inv.now
  · exact inv.past flags h

/-- Two registered classes, `b` depending on `a`. -/
def pairFuncs : ModuleCreatorFuncMap :=
  [("a", .create ⟨true, []⟩), ("b", .create ⟨true, ["a"]⟩)].foldl addCreatorFunc ∅

/-- Callbacks that succeed but for one module's `DoLoad`. -/
def loadFailsFor (name : ModuleRef) : Callbacks :=
  ⟨fun _ m => decide (m ≠ name), fun _ _ => true⟩

/-- Callbacks that succeed but for one module's `DoUnload`. -/
def unloadFailsFor (name : ModuleRef) : Callbacks :=
  ⟨fun _ _ => true, fun _ m => decide (m ≠ name)⟩

/-- The state after `calls`, `Init` having succeeded on the two classes. -/
def pairRun (cb : Callbacks) (calls : List Call) : ModuleManager :=
  run .stored cb calls (init .stored pairFuncs {}).2

theorem loaded_depends_throughout_pair :
    (init .stored pairFuncs {}).1 = true ∧
      ∀ flags ∈ (pairRun (unloadFailsFor "a") [.start, .stop, .start]).loaded ::
        (pairRun (unloadFailsFor "a") [.start, .stop, .start]).trace,
        DependsLoaded (pairRun (unloadFailsFor "a") [.start, .stop, .start]).dependModules flags :=
  ⟨by decide, loaded_depends_throughout .stored (unloadFailsFor "a") pairFuncs _
    (Prod.ext (by decide) rfl) [.start, .stop, .start]⟩

/-! ### What a returned `true` means -/

/-- `Start() == true` means that every module is loaded, `Stop() == true` that none is. -/
def Step.Honest (st : Step) : Prop :=
  match st.call with
  | .start => st.result = true → ∀ n m, st.after.modules.lookup n = some m →
      st.after.loaded m = true
  | .stop => st.result = true → ∀ n m, st.after.modules.lookup n = some m →
      st.after.loaded m = false

/-- The early return on `stopped_` is taken only where nothing is left to do: `Start()` is
not called with `stopped_` clear and a module unloaded, `Stop()` not with `stopped_` set
and a module loaded. -/
def Step.GuardExact (st : Step) : Prop :=
  match st.call with
  | .start => st.before.stopped = false → ∀ n m, st.before.modules.lookup n = some m →
      st.before.loaded m = true
  | .stop => st.before.stopped = true → ∀ n m, st.before.modules.lookup n = some m →
      st.before.loaded m = false

/-- **In every run, a call is honest exactly when its early return was.** -/
theorem call_honest_iff (o : IterOrder MapId String) (cb : Callbacks)
    (funcs : ModuleCreatorFuncMap) (s : ModuleManager) (ran : init o funcs {} = (true, s))
    (calls : List Call) : ∀ st ∈ steps o cb calls s, st.Honest ↔ st.GuardExact := by
  intro st mem
  obtain ⟨inv, hresult, hafter⟩ := (inv_of_bound (init_bound ran).2).steps mem
  have invAfter : Inv s.modules st.after := hafter ▸ inv.call st.call
  unfold Step.Honest Step.GuardExact
  rw [invAfter.modules, ← inv.modules, hresult, hafter]
  cases st.call with
  | start => exact sweep_settled_iff (loadWalk_sound o cb _) loadWalk_ignoresStopped false inv
  | stop =>
      have swept := sweep_settled_iff (o := o) (unloadWalk_sound o cb _)
        unloadWalk_ignoresStopped true inv
      simp only [unloadWalk_settled] at swept
      exact swept

theorem call_honest_iff_pair :
    (init .stored pairFuncs {}).1 = true ∧
      ∀ st ∈ steps .stored (loadFailsFor "b") [.start, .start] (init .stored pairFuncs {}).2,
        st.Honest ↔ st.GuardExact :=
  ⟨by decide, call_honest_iff .stored (loadFailsFor "b") pairFuncs _ (Prod.ext (by decide) rfl)
    [.start, .start]⟩

/-- `Stop()` after a `Start()` that failed on `b` returns `true` with `a` still loaded, and
`Start()` after a `Stop()` that failed on `a` returns `true` with `b` still unloaded. -/
theorem early_return_dishonest :
    (∃ st ∈ steps .stored (loadFailsFor "b") [.start, .stop] (init .stored pairFuncs {}).2,
      ¬ st.Honest) ∧
    ∃ st ∈ steps .stored (unloadFailsFor "a") [.start, .stop, .start]
      (init .stored pairFuncs {}).2, ¬ st.Honest := by
  refine ⟨⟨_, List.mem_of_getElem? (i := 1) rfl, fun honest => ?_⟩,
    ⟨_, List.mem_of_getElem? (i := 2) rfl, fun honest => ?_⟩⟩
  · have unloaded := honest (by decide) "a" "a" (by decide)
    revert unloaded
    decide
  · have loaded := honest (by decide) "b" "b" (by decide)
    revert loaded
    decide

end ModuleManager

end AgentEngine.Engine
