import AgentEngine.Engine.ModuleLoad

/-!
Independence of the iteration order.

The recursion of `Load` and `Unload` gives up at depth `MaxDepth`. How deep it goes
depends on which modules were already loaded, and so on the order in which the hash maps
are walked: a chain of 65 modules loads when the walk starts at its far end and fails when
it starts at its head (`session_depends_on_order`). Below that length no order can reach
the bound, and every order gives the same results (`session_order_independent`).
-/

namespace AgentEngine.Engine

open Lib

/-- Every callback succeeds. -/
structure Callbacks.Succeed (cb : Callbacks) : Prop where
  doLoad : ∀ k m, cb.doLoad k m = true
  doUnload : ∀ k m, cb.doUnload k m = true

namespace ModuleManager

/-- The modules of `modules_` whose flag is set. -/
def loadedModules (s : ModuleManager) (m : ModuleRef) : Bool :=
  (s.modules.lookup m).isSome && s.loaded m

/-- `Init(); Start(); Stop()`: each result with the modules loaded after the call. A failed
`Init` ends the session. -/
def session (o : IterOrder MapId String) (cb : Callbacks) (funcs : ModuleCreatorFuncMap) :
    List (Bool × (ModuleRef → Bool)) :=
  match init o funcs {} with
  | (false, s) => [(false, s.loadedModules)]
  | (true, s) =>
      let started := start o cb s
      let stopped := stop o cb started.2
      [(true, s.loadedModules), (started.1, started.2.loadedModules),
        (stopped.1, stopped.2.loadedModules)]

section Order

variable {o : IterOrder MapId String} {cb : Callbacks} {funcs : ModuleCreatorFuncMap}
  {mods : UMap String ModuleRef} {s : ModuleManager}

/-! ### Init loads nothing -/

theorem createOne_loaded (entry : String × ModuleCreatorFunc) (s : ModuleManager) :
    (createOne entry s).2.loaded = s.loaded := by
  unfold createOne
  split
  · rfl
  · rfl
  · split <;> rfl

theorem init_loaded (o : IterOrder MapId String) (funcs : ModuleCreatorFuncMap) :
    (init o funcs {}).2.loaded = fun _ => false := by
  have created : (createModule o { moduleCreatorFuncs := funcs }).2.loaded = fun _ => false :=
    runAll_inv (fun t : ModuleManager => t.loaded = fun _ => false) rfl
      fun entry _ t ht => by rw [createOne_loaded, ht]
  have bound : ∀ c, (bindDependModule o c).2.loaded = c.loaded := by
    intro c
    refine runAll_inv (fun t : ModuleManager => t.loaded = c.loaded) rfl fun entry _ t ht => ?_
    refine runAll_inv (fun u : ModuleManager => u.loaded = c.loaded) ?_ fun e _ u hu => ?_
    · exact (initDepends_same t entry.2).loaded.trans ht
    · unfold bindOne
      split
      · exact hu
      · exact hu
  unfold init
  split
  · rename_i c hcreate
    rw [← created, hcreate]
  · rename_i c hcreate
    rw [bound, ← created, hcreate]

/-! ### No order reaches the depth bound -/

variable {callback : Nat → ModuleRef → Bool} {target : Bool}

theorem switchTo_edges {E : ModuleRef → ModuleRef → Prop}
    (m : ModuleRef) (s : ModuleManager) (edges : Edges E s) :
    Edges E (switchTo target callback m s).2 :=
  ⟨by simpa using edges.depends, by simpa using edges.dependents⟩

theorem switchTo_succeeds (ok : ∀ k m, callback k m = true) (m : ModuleRef) (s : ModuleManager) :
    (switchTo target callback m s).1 = true := by
  obtain ⟨-, h⟩ | ⟨-, hno, h⟩ | ⟨-, -, h⟩ := switchTo_cases target callback m s
  · rw [h]
  · rw [ok] at hno
    simp at hno
  · rw [h]

/-- The invariant of a run over a bound graph. -/
def GraphInv (funcs : ModuleCreatorFuncMap) (mods : UMap String ModuleRef) (s : ModuleManager) :
    Prop :=
  Inv mods s ∧ Edges (DependsOn funcs) s

theorem loadWalk_total (o : IterOrder MapId String) (ok : cb.Succeed) :
    (loadWalk o cb).Total (GraphInv funcs mods) where
  toSound := (loadWalk_sound o cb mods).and switchTo_edges
  act_succeeds n s _ := switchTo_succeeds ok.doLoad n s
  next_some n s inv hnone := by
    obtain ⟨k, hk⟩ := (o.mem_values _ _).mp hnone
    simpa using ((inv.2.depends n k none).mp hk).1

theorem unloadWalk_total (o : IterOrder MapId String) (ok : cb.Succeed) :
    (unloadWalk o cb).Total (GraphInv funcs mods) where
  toSound := (unloadWalk_sound o cb mods).and switchTo_edges
  act_succeeds n s _ := switchTo_succeeds ok.doUnload n s
  next_some n s inv hnone := by
    obtain ⟨k, hk⟩ := (o.mem_values _ _).mp hnone
    simpa using ((inv.2.dependents n k none).mp hk).1

theorem loadWalk_next (inv : GraphInv funcs mods s) (a b : ModuleRef)
    (h : some b ∈ (loadWalk o cb).next s a) : DependsOn funcs a b := by
  obtain ⟨k, hk⟩ := (o.mem_values _ _).mp h
  obtain ⟨hb, dep⟩ := (inv.2.depends a k (some b)).mp hk
  obtain rfl := Option.some.inj hb
  exact dep

theorem unloadWalk_next (inv : GraphInv funcs mods s) (a b : ModuleRef)
    (h : some b ∈ (unloadWalk o cb).next s a) : DependsOn funcs b a := by
  obtain ⟨k, hk⟩ := (o.mem_values _ _).mp h
  obtain ⟨hb, dep⟩ := (inv.2.dependents a k (some b)).mp hk
  obtain rfl := Option.some.inj hb
  exact dep

/-- A sweep of a total walk whose chains fit the depth bound returns `true` with every
module settled, and keeps the graph. -/
theorem sweep_total {w : Walk ModuleManager ModuleRef} (total : w.Total (GraphInv funcs mods))
    (frame : IgnoresStopped w (GraphInv funcs mods)) (idle : s.stopped ≠ target)
    (inv : GraphInv funcs mods s)
    (short : ∀ t, GraphInv funcs mods t → ∀ chain : List ModuleRef,
      chain.IsChain (fun a b => some b ∈ w.next t a) → chain.length ≤ maxDepth) :
    (sweep o target (w.visit maxDepth) s).1 = true ∧
      (sweep o target (w.visit maxDepth) s).2.stopped = target ∧
      GraphInv funcs mods (sweep o target (w.visit maxDepth) s).2 ∧
      ∀ n m, mods.lookup n = some m →
        w.settled (sweep o target (w.visit maxDepth) s).2 m = true := by
  have spec := sweep_spec (o := o) total.toSound frame target inv
  have succeeds := total.visitAll_succeeds ((o.entries .modules s.modules).map Prod.snd) inv short
  obtain ⟨h, -⟩ | ⟨-, s', ran, -⟩ | ⟨-, s', -, e⟩ :=
    sweep_cases (o := o) target (w.visit maxDepth) s
  · exact absurd h idle
  · rw [ran] at succeeds
    simp at succeeds
  · rw [inv.1.modules] at spec
    exact ⟨by rw [e], by rw [e], spec.1, spec.2 idle (by rw [e])⟩

/-- The flags of `modules_` after a sweep that settled all of it. -/
theorem loadedModules_of_all {flag : Bool} (modules : ∀ n m, s.modules.lookup n = some m ↔ m = n ∧ n ∈ funcs)
    (all : ∀ n m, s.modules.lookup n = some m → s.loaded m = flag) :
    s.loadedModules = fun m => decide (m ∈ funcs) && flag := by
  funext m
  unfold loadedModules
  by_cases hm : m ∈ funcs
  · have found := (modules m m).mpr ⟨rfl, hm⟩
    simp [found, hm, all m m found]
  · have absent : s.modules.lookup m = none := by
      by_contra h
      obtain ⟨m', hm'⟩ := Option.ne_none_iff_exists'.mp h
      exact hm ((modules m m').mp hm').2
    simp [absent, hm]

/-- What a session gives in any order, once no chain reaches the bound. -/
theorem session_eq (o : IterOrder MapId String) (ok : cb.Succeed)
    (short : ∀ chain : List String, chain.IsChain (DependsOn funcs) → chain.length ≤ maxDepth) :
    session o cb funcs =
      if (init o funcs {}).1 then
        [(true, fun _ => false), (true, fun m => decide (m ∈ funcs)), (true, fun _ => false)]
      else [(false, fun _ => false)] := by
  have nothing := init_loaded o funcs
  unfold session
  split
  · rename_i s hinit
    rw [hinit] at nothing ⊢
    have none : s.loadedModules = fun _ => false := by
      funext m
      simp [loadedModules, show s.loaded = _ from nothing]
    simp [none]
  · rename_i s hinit
    rw [hinit] at nothing ⊢
    have bound := (init_bound hinit).2
    have inv : GraphInv funcs s.modules s := ⟨inv_of_bound bound, bound.edges⟩
    have none : s.loadedModules = fun _ => false := by
      funext m
      simp [loadedModules, show s.loaded = _ from nothing]
    have ignores : ∀ t b, GraphInv funcs s.modules t →
        GraphInv funcs s.modules { t with stopped := b } :=
      fun t b h => ⟨h.1.setStopped b, h.2.depends, h.2.dependents⟩
    obtain ⟨startOk, running, startInv, allLoaded⟩ := sweep_total (o := o) (loadWalk_total o ok)
      ⟨fun _ _ _ => rfl, ignores⟩ (show s.stopped ≠ false by simp [bound.stopped]) inv
      fun t ht chain hchain => short chain (hchain.imp (loadWalk_next ht))
    obtain ⟨stopOk, -, stopInv, allUnloaded⟩ := sweep_total (o := o) (unloadWalk_total o ok)
      ⟨fun _ _ _ => rfl, ignores⟩ (show (start o cb s).2.stopped ≠ true from by
        rw [show (start o cb s).2.stopped = false from running]; simp) startInv
      fun t ht chain hchain => by
        -- Dependents are followed upwards, so the chain is a dependency chain backwards.
        have backwards := List.isChain_reverse.mpr (hchain.imp (unloadWalk_next ht))
        simpa using short chain.reverse backwards
    have loadedAll : (start o cb s).2.loadedModules = fun m => decide (m ∈ funcs) && true :=
      loadedModules_of_all (startInv.1.modules ▸ bound.modules)
        fun n m hm => allLoaded n m (startInv.1.modules ▸ hm)
    have loadedNone : (stop o cb (start o cb s).2).2.loadedModules =
        fun m => decide (m ∈ funcs) && false :=
      loadedModules_of_all (stopInv.1.modules ▸ bound.modules) fun n m hm => by
        have unloaded := allUnloaded n m (stopInv.1.modules ▸ hm)
        rw [unloadWalk_settled] at unloaded
        exact unloaded
    have startOk : (start o cb s).1 = true := startOk
    have stopOk : (stop o cb (start o cb s).2).1 = true := stopOk
    simp only [none, startOk, loadedAll, stopOk, loadedNone, if_true, Bool.and_true, Bool.and_false]

/-- **Below the depth bound the iteration order does not matter.** For a registration in
which no dependency chain has more than `maxDepth` modules (so the graph is acyclic) and
callbacks that succeed, any two families of orders give the same results and the same
loaded modules after each call. -/
theorem session_order_independent (cb : Callbacks) (funcs : ModuleCreatorFuncMap)
    (ok : cb.Succeed)
    (short : ∀ chain : List String, chain.IsChain (DependsOn funcs) → chain.length ≤ maxDepth)
    (o₁ o₂ : IterOrder MapId String) : session o₁ cb funcs = session o₂ cb funcs := by
  have same : (init o₁ funcs {}).1 = (init o₂ funcs {}).1 :=
    Bool.eq_iff_iff.mpr ((init_succeeds_iff o₁ funcs).trans (init_succeeds_iff o₂ funcs).symm)
  rw [session_eq o₁ ok short, session_eq o₂ ok short, same]

end Order

/-! ### Registrations written out -/

theorem mem_of_lookup_registered {entries : List (String × ModuleCreatorFunc)} {n : String}
    {f : ModuleCreatorFunc} (found : (entries.foldl addCreatorFunc ∅).lookup n = some f) :
    (n, f) ∈ entries := by
  suffices general : ∀ (entries : List (String × ModuleCreatorFunc)) (funcs : ModuleCreatorFuncMap),
      (entries.foldl addCreatorFunc funcs).lookup n = some f →
      (n, f) ∈ entries ∨ funcs.lookup n = some f by simpa using general entries ∅ found
  intro entries
  induction entries with
  | nil => exact fun funcs h => Or.inr h
  | cons e es ih =>
      intro funcs h
      rcases ih (addCreatorFunc funcs e) h with h | h
      · exact Or.inl (List.mem_cons_of_mem e h)
      · by_cases same : n = e.1
        · subst same
          simp only [addCreatorFunc, AList.lookup_insert, Option.some.injEq] at h
          exact Or.inl (by simp [← h])
        · rw [addCreatorFunc, AList.lookup_insert_ne same] at h
          exact Or.inr h

/-- Callbacks that all succeed. -/
def allSucceed : Callbacks := ⟨fun _ _ => true, fun _ _ => true⟩

theorem pairFuncs_depends {a b : String} (dep : DependsOn pairFuncs a b) : a = "b" ∧ b = "a" := by
  obtain ⟨cls, found, hb⟩ := dep
  have mem := mem_of_lookup_registered found
  simp only [List.mem_cons, Prod.mk.injEq, ModuleCreatorFunc.create.injEq, List.not_mem_nil,
    or_false] at mem
  rcases mem with ⟨rfl, rfl⟩ | ⟨rfl, rfl⟩
  · simp at hb
  · exact ⟨rfl, by simpa using hb⟩

theorem session_order_independent_pair :
    session .stored allSucceed pairFuncs =
      session (.reversed fun _ => true) allSucceed pairFuncs := by
  refine session_order_independent allSucceed pairFuncs ⟨fun _ _ => rfl, fun _ _ => rfl⟩ ?_ _ _
  intro chain hchain
  match chain, hchain with
  | [], _ => simp
  | [_], _ => simp [maxDepth]
  | [_, _], _ => simp [maxDepth]
  | a :: b :: c :: rest, hchain =>
      have first := pairFuncs_depends (List.isChain_cons_cons.mp hchain).1
      have second := pairFuncs_depends
        (List.isChain_cons_cons.mp (List.isChain_cons_cons.mp hchain).2).1
      simp [first.2] at second

/-- The `i`-th module of a chain, depending on the next one of `n`. -/
def chainEntry (n i : Nat) : String × ModuleCreatorFunc :=
  (String.ofList (List.replicate i 'm'),
    .create ⟨true, if i + 1 < n then [String.ofList (List.replicate (i + 1) 'm')] else []⟩)

def chainFuncs (n : Nat) : ModuleCreatorFuncMap :=
  ((List.range n).map (chainEntry n)).foldl addCreatorFunc ∅

theorem chainFuncs_depends {n : Nat} {a b : String} (dep : DependsOn (chainFuncs n) a b) :
    a.length < b.length := by
  obtain ⟨cls, found, hb⟩ := dep
  obtain ⟨i, -, hi⟩ := List.mem_map.mp (mem_of_lookup_registered found)
  simp only [chainEntry, Prod.mk.injEq, ModuleCreatorFunc.create.injEq] at hi
  obtain ⟨rfl, rfl⟩ := hi
  simp only at hb
  split at hb
  · simp [List.mem_singleton.mp hb]
  · simp at hb

/-- An acyclic chain of 65 modules, all callbacks succeeding: `Start()` fails when the
modules are walked from the head of the chain and succeeds when they are walked backwards. -/
theorem session_depends_on_order :
    (∀ m, ¬ Relation.TransGen (DependsOn (chainFuncs 65)) m m) ∧ allSucceed.Succeed ∧
      session .stored allSucceed (chainFuncs 65) ≠
        session (.reversed fun i => decide (i = .modules)) allSucceed (chainFuncs 65) := by
  refine ⟨fun m cycle => ?_, ⟨fun _ _ => rfl, fun _ _ => rfl⟩, fun same => ?_⟩
  · have longer : ∀ {a b}, Relation.TransGen (DependsOn (chainFuncs 65)) a b → a.length < b.length := by
      intro a b path
      induction path with
      | single dep => exact chainFuncs_depends dep
      | tail _ dep ih => exact ih.trans (chainFuncs_depends dep)
    exact lt_irrefl _ (longer cycle)
  · have started := congrArg (fun results => (results[1]?).map Prod.fst) same
    revert started
    decide +kernel

end ModuleManager

end AgentEngine.Engine
