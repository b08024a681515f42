import AgentEngine.Engine.ModuleManager

/-!
What `Init` builds.

The dependency graph of a creator map is `DependsOn`: an edge for every `DEPEND_ON`
declaration of a registered class. `Init` succeeds exactly on a complete registration
(`init_succeeds_iff`), whatever the iteration orders, and then the two relations held by
the module objects are that graph and its inverse (`init_bound`).
-/

namespace AgentEngine.Engine

open Lib ModuleManager List
open Prod (ext fst mk)

/-- `m`'s class declares a dependency on `d`. -/
def DependsOn (funcs : ModuleCreatorFuncMap) (m d : String) : Prop :=
  ∃ cls, funcs.lookup m = some (.create cls) ∧ d ∈ cls.dependOn

/-- A complete registration: every creator makes a module that initialises, and every
declared dependency is registered too. -/
structure Registered (funcs : ModuleCreatorFuncMap) : Prop where
  creates : ∀ n f, funcs.lookup n = some f → ∃ cls, f = .create cls ∧ cls.doInit = true
  present : ∀ m d, DependsOn funcs m d → d ∈ funcs

/-- The two relations held by the module objects are the edges `E`, keyed by name. -/
structure Edges (E : ModuleRef → ModuleRef → Prop) (s : ModuleManager) : Prop where
  depends : ∀ m n e, (s.dependModules m).lookup n = some e ↔ e = some n ∧ E m n
  dependents : ∀ d n e, (s.beDependedModules d).lookup n = some e ↔ e = some n ∧ E n d

/-- The fields that binding leaves alone. -/
structure SameModules (s t : ModuleManager) : Prop where
  stopped : t.stopped = s.stopped
  modules : t.modules = s.modules
  funcs : t.moduleCreatorFuncs = s.moduleCreatorFuncs
  loaded : t.loaded = s.loaded
  trace : t.trace = s.trace

theorem SameModules.trans {s t u : ModuleManager} (first : SameModules s t)
    (second : SameModules t u) : SameModules s u :=
  ⟨second.stopped.trans first.stopped, second.modules.trans first.modules,
    second.funcs.trans first.funcs, second.loaded.trans first.loaded,
    second.trace.trans first.trace⟩

/-! ### Creating the modules -/

/-- The state of `CreateModule` after the entries `done`. -/
structure Created (funcs : ModuleCreatorFuncMap) (done : List (String × ModuleCreatorFunc))
    (s : ModuleManager) : Prop where
  fresh : s = { modules := s.modules, moduleCreatorFuncs := funcs }
  creates : ∀ entry ∈ done, ∃ cls, entry.2 = .create cls ∧ cls.doInit = true
  modules : ∀ n m, s.modules.lookup n = some m ↔ m = n ∧ n ∈ done.map fst

theorem createOne_eq_true {entry : String × ModuleCreatorFunc} {s t : ModuleManager}
    (ran : createOne entry s = (true, t)) :
    (∃ cls, entry.2 = .create cls ∧ cls.doInit = true) ∧
      t = { s with modules := emplace s.modules entry.1 entry.1 } := by
  unfold createOne at ran
  split at ran
  · simp at ran
  · simp at ran
  · rename_i cls hcls
    split at ran
    · rename_i hinit
      exact ⟨⟨cls, hcls, hinit⟩, (mk.inj ran).2.symm⟩
    · simp at ran

theorem Created.step {funcs : ModuleCreatorFuncMap} {done : List (String × ModuleCreatorFunc)}
    {entry : String × ModuleCreatorFunc} {s t : ModuleManager} (inv : Created funcs done s)
    (ran : createOne entry s = (true, t)) : Created funcs (done ++ [entry]) t := by
  obtain ⟨creates, rfl⟩ := createOne_eq_true ran
  refine ⟨by rw [inv.fresh], ?_, ?_⟩
  · intro e he
    rcases mem_append.mp he with h | h
    · exact inv.creates e h
    · rw [mem_singleton.mp h]
      exact creates
  · intro n m
    by_cases same : n = entry.1
    · subst same
      have found := lookup_emplace_self_of_agree
        (fun v' hv' => ((inv.modules entry.1 v').mp hv').1)
      simp [found, eq_comm]
    · simp [lookup_emplace_ne _ same, inv.modules, same]

theorem createModule_created {o : IterOrder MapId String} {funcs : ModuleCreatorFuncMap}
    {s : ModuleManager}
    (ran : createModule o { moduleCreatorFuncs := funcs } = (true, s)) :
    Created funcs (o.entries .moduleCreatorFuncs funcs) s :=
  runAll_done (Created funcs) ⟨rfl, by simp, by simp⟩
    (fun _ _ _ _ _ _ inv body => inv.step body) ran

/-! ### Binding the dependencies -/

/-- The bind functions of a class are keyed by the type names it declares. -/
theorem lookup_defineDepends (names : List String) (funcs : UMap String String) (k v : String) :
    (names.foldl (fun fs name => fs.insert name name) funcs).lookup k = some v ↔
      if k ∈ names then v = k else funcs.lookup k = some v := by
  induction names generalizing funcs with
  | nil => simp
  | cons name names ih =>
      rw [foldl_cons, ih]
      by_cases later : k ∈ names
      · simp [later]
      · by_cases here : k = name
        · subst here
          simp [later, eq_comm]
        · simp [later, here, AList.lookup_insert_ne here]

variable {E : ModuleRef → ModuleRef → Prop}

/-- One bind function adds one edge, in both directions. -/
theorem Edges.bind {s : ModuleManager} (edges : Edges E s) (m d : ModuleRef) :
    Edges (fun a b => E a b ∨ a = m ∧ b = d) ((s.bindFunc m d d).beDepended d m m) := by
  constructor
  · intro a n e
    by_cases ha : a = m
    · subst ha
      by_cases hn : n = d
      · subst hn
        have found := lookup_emplace_self_of_agree
          (fun v' hv' => ((edges.depends a n v').mp hv').1)
        simp [bindFunc, beDepended, found, eq_comm]
      · simp [bindFunc, beDepended, lookup_emplace_ne _ hn, edges.depends, hn]
    · simp [bindFunc, beDepended, ha, edges.depends]
  · intro b n e
    by_cases hb : b = d
    · subst hb
      by_cases hn : n = m
      · subst hn
        simp [bindFunc, beDepended, eq_comm]
      · simp [bindFunc, beDepended, AList.lookup_insert_ne hn, edges.dependents, hn]
    · simp [bindFunc, beDepended, hb, edges.dependents]

/-- The inner loop of `BindDependModule` over the bind functions `done` of `m`. -/
structure InnerBound (E : ModuleRef → ModuleRef → Prop) (s : ModuleManager) (m : ModuleRef)
    (done : List (String × String)) (t : ModuleManager) : Prop where
  same : SameModules s t
  bindFuncs : t.bindFuncs = s.bindFuncs
  edges : Edges (fun a b => E a b ∨ a = m ∧ b ∈ done.map fst) t
  present : ∀ entry ∈ done, entry.1 ∈ s.modules

theorem bindOne_eq_true {name : String} {m : ModuleRef} {entry : String × String}
    {s t : ModuleManager} (ran : bindOne name m entry s = (true, t)) :
    ∃ d, s.modules.lookup entry.1 = some d ∧ t = (s.bindFunc m entry.2 d).beDepended d name m := by
  unfold bindOne getModule at ran
  split at ran
  · simp at ran
  · rename_i d hd
    exact ⟨d, hd, (mk.inj ran).2.symm⟩

theorem InnerBound.step {s t u : ModuleManager} {m : ModuleRef}
    {done : List (String × String)} {name : String} (named : ∀ n d, s.modules.lookup n = some d → d = n)
    (inv : InnerBound E s m done t) (ran : bindOne m m (name, name) t = (true, u)) :
    InnerBound E s m (done ++ [(name, name)]) u := by
  obtain ⟨d, found, rfl⟩ := bindOne_eq_true ran
  rw [inv.same.modules] at found
  obtain rfl : d = name := named name d found
  refine ⟨inv.same.trans ⟨rfl, rfl, rfl, rfl, rfl⟩, inv.bindFuncs, ?_, ?_⟩
  · have added := inv.edges.bind m d
    have same : (fun a b => (E a b ∨ a = m ∧ b ∈ done.map fst) ∨ a = m ∧ b = d) =
        fun a b => E a b ∨ a = m ∧ b ∈ (done ++ [(d, d)]).map fst := by
      funext a b
      simp only [map_append, map_cons, map_nil, mem_append, mem_singleton, eq_iff_iff]
      tauto
    rwa [same] at added
  · intro entry he
    rcases mem_append.mp he with h | h
    · exact inv.present entry h
    · rw [mem_singleton.mp h]
      exact AList.lookup_isSome.mp (by rw [found]; rfl)

/-- The state of `BindDependModule` after the modules `done`. -/
structure OuterBound (funcs : ModuleCreatorFuncMap) (s : ModuleManager)
    (done : List (String × ModuleRef)) (t : ModuleManager) : Prop where
  same : SameModules s t
  bindFuncs : ∀ m, m ∉ done.map fst → t.bindFuncs m = ∅
  edges : Edges (fun a b => a ∈ done.map fst ∧ DependsOn funcs a b) t
  present : ∀ m d, m ∈ done.map fst → DependsOn funcs m d → d ∈ s.modules

section Bind

variable {o : IterOrder MapId String} {funcs : ModuleCreatorFuncMap} {s : ModuleManager}

theorem initDepends_same (s : ModuleManager) (m : ModuleRef) : SameModules s (s.initDepends m) := by
  unfold initDepends
  split <;> exact ⟨rfl, rfl, rfl, rfl, rfl⟩

theorem initDepends_edges {E : ModuleRef → ModuleRef → Prop} {t : ModuleManager} (m : ModuleRef)
    (edges : Edges E t) : Edges E (t.initDepends m) := by
  unfold initDepends
  split
  · exact ⟨edges.depends, edges.dependents⟩
  · exact edges

theorem initDepends_bindFuncs_ne {t : ModuleManager} {m m' : ModuleRef} (ne : m' ≠ m) :
    (t.initDepends m).bindFuncs m' = t.bindFuncs m' := by
  unfold initDepends
  split
  · simp [ne]
  · rfl

/-- A module with no bind functions yet gets one for each declared dependency. -/
theorem lookup_initDepends_bindFuncs {t : ModuleManager} {m : ModuleRef} {k v : String}
    (fresh : t.bindFuncs m = ∅) :
    ((t.initDepends m).bindFuncs m).lookup k = some v ↔
      v = k ∧ DependsOn t.moduleCreatorFuncs m k := by
  unfold initDepends DependsOn
  split
  · rename_i cls hcls
    simp only [Function.update_self]
    rw [lookup_defineDepends, fresh, hcls]
    by_cases hk : k ∈ cls.dependOn <;> simp [hk]
  · rename_i hnot
    rw [fresh]
    simp only [AList.lookup_empty, reduceCtorEq, false_iff, not_and, not_exists]
    exact fun _ cls hcls => absurd hcls (hnot cls)

theorem OuterBound.step {done todo : List (String × ModuleRef)} {entry : String × ModuleRef}
    {t u : ModuleManager} (hfuncs : s.moduleCreatorFuncs = funcs)
    (named : ∀ n d, s.modules.lookup n = some d → d = n)
    (split : o.entries .modules s.modules = done ++ entry :: todo)
    (inv : OuterBound funcs s done t) (ran : bindModule o entry t = (true, u)) :
    OuterBound funcs s (done ++ [entry]) u := by
  obtain ⟨name, m⟩ := entry
  obtain rfl : m = name := named name m ((o.mem_entries .modules s.modules).mp (by simp [split]))
  -- Each key is met once, so the module's bind functions are still empty.
  have fresh : m ∉ done.map fst := by
    have nodup : ((o.entries .modules s.modules).map fst).Nodup := by
      refine ((o.perm .modules s.modules).map fst).nodup_iff.mpr ?_
      rw [map_map]
      exact s.modules.nodupKeys
    rw [split, map_append, map_cons] at nodup
    exact fun h => (disjoint_of_nodup_append nodup) h (by simp)
  have tfuncs : t.moduleCreatorFuncs = funcs := inv.same.funcs.trans hfuncs
  have lookups : ∀ k v, ((t.initDepends m).bindFuncs m).lookup k = some v ↔
      v = k ∧ DependsOn funcs m k :=
    fun k v => by rw [lookup_initDepends_bindFuncs (inv.bindFuncs m fresh), tfuncs]
  have tnamed : ∀ n d, (t.initDepends m).modules.lookup n = some d → d = n := by
    rw [((inv.same.trans (initDepends_same t m))).modules]
    exact named
  have inner : InnerBound (fun a b => a ∈ done.map fst ∧ DependsOn funcs a b)
      (t.initDepends m) m (o.entries (.bindFuncs m) ((t.initDepends m).bindFuncs m)) u := by
    refine runAll_done (InnerBound _ (t.initDepends m) m) ?_ ?_ ran
    · exact ⟨⟨rfl, rfl, rfl, rfl, rfl⟩, rfl, by simpa using initDepends_edges m inv.edges, by simp⟩
    · rintro innerDone ⟨k, v⟩ innerTodo a b innerSplit innerInv body
      have hkv := (o.mem_entries (.bindFuncs m) ((t.initDepends m).bindFuncs m)
        (k := k) (v := v)).mp (by simp [innerSplit])
      obtain ⟨rfl, -⟩ := (lookups k v).mp hkv
      exact innerInv.step tnamed body
  have keys : ∀ k, k ∈ (o.entries (.bindFuncs m) ((t.initDepends m).bindFuncs m)).map fst ↔
      DependsOn funcs m k := by
    intro k
    rw [mem_map]
    constructor
    · rintro ⟨⟨k', v⟩, hmem, rfl⟩
      exact ((lookups k' v).mp ((o.mem_entries _ _).mp hmem)).2
    · intro hdep
      exact ⟨(k, k), (o.mem_entries _ _).mpr ((lookups k k).mpr ⟨rfl, hdep⟩), rfl⟩
  refine ⟨(inv.same.trans (initDepends_same t m)).trans inner.same, ?_, ?_, ?_⟩
  · intro m' hm'
    simp only [map_append, map_cons, map_nil, mem_append, mem_singleton, not_or] at hm'
    rw [inner.bindFuncs, initDepends_bindFuncs_ne hm'.2]
    exact inv.bindFuncs m' hm'.1
  · have same : (fun a b => (a ∈ done.map fst ∧ DependsOn funcs a b) ∨ a = m ∧
        b ∈ (o.entries (.bindFuncs m) ((t.initDepends m).bindFuncs m)).map fst) =
        fun a b => a ∈ (done ++ [(m, m)]).map fst ∧ DependsOn funcs a b := by
      funext a b
      rw [keys]
      simp only [map_append, map_cons, map_nil, mem_append, mem_singleton, eq_iff_iff]
      constructor
      · rintro (h | ⟨rfl, h⟩)
        · exact ⟨Or.inl h.1, h.2⟩
        · exact ⟨Or.inr rfl, h⟩
      · rintro ⟨h | rfl, hdep⟩
        · exact Or.inl ⟨h, hdep⟩
        · exact Or.inr ⟨rfl, hdep⟩
    rw [← same]
    exact inner.edges
  · intro a d ha hdep
    simp only [map_append, map_cons, map_nil, mem_append, mem_singleton] at ha
    rcases ha with ha | rfl
    · exact inv.present a d ha hdep
    · obtain ⟨entry, hentry, rfl⟩ := mem_map.mp ((keys d).mpr hdep)
      have := inner.present entry hentry
      rwa [(inv.same.trans (initDepends_same t a)).modules] at this

/-! ### The whole of `Init` -/

/-- The state a successful `Init` leaves: nothing loaded, one module per creator, and the
dependency graph in both directions. -/
structure Bound (funcs : ModuleCreatorFuncMap) (s : ModuleManager) : Prop where
  stopped : s.stopped = true
  loaded : s.loaded = fun _ => false
  trace : s.trace = []
  modules : ∀ n m, s.modules.lookup n = some m ↔ m = n ∧ n ∈ funcs
  edges : Edges (DependsOn funcs) s

/-- The keys met by a loop over a map are the keys of the map. -/
theorem mem_keys_entries {α : Type} (i : MapId) (m : UMap String α) (k : String) :
    k ∈ (o.entries i m).map fst ↔ k ∈ m := by
  rw [mem_map, ← AList.lookup_isSome, Option.isSome_iff_exists]
  constructor
  · rintro ⟨⟨k, v⟩, hmem, rfl⟩
    exact ⟨v, (o.mem_entries i m).mp hmem⟩
  · rintro ⟨v, hv⟩
    exact ⟨(k, v), (o.mem_entries i m).mpr hv, rfl⟩

/-- **A successful `Init` binds the dependency graph and its inverse.** -/
theorem init_bound (ran : init o funcs {} = (true, s)) : Registered funcs ∧ Bound funcs s := by
  unfold init at ran
  split at ran
  · simp at ran
  · rename_i c hcreate
    have created := createModule_created hcreate
    have cmodules : ∀ n m, c.modules.lookup n = some m ↔ m = n ∧ n ∈ funcs :=
      fun n m => by rw [created.modules, mem_keys_entries]
    have named : ∀ n d, c.modules.lookup n = some d → d = n := fun n d h => ((cmodules n d).mp h).1
    have cfuncs : c.moduleCreatorFuncs = funcs := by rw [created.fresh]
    have bound : OuterBound funcs c (o.entries .modules c.modules) s := by
      refine runAll_done (OuterBound funcs c) ?_ ?_ ran
      · exact ⟨⟨rfl, rfl, rfl, rfl, rfl⟩, fun m _ => by rw [created.fresh],
          by rw [created.fresh]; exact ⟨by simp, by simp⟩, by simp⟩
      · exact fun done entry todo t u split inv body => inv.step cfuncs named split body
    have inModules : ∀ m d, DependsOn funcs m d → m ∈ (o.entries .modules c.modules).map fst := by
      rintro m d ⟨cls, hcls, -⟩
      rw [mem_keys_entries, ← AList.lookup_isSome, (cmodules m m).mpr ⟨rfl, ?_⟩]
      · rfl
      · exact AList.lookup_isSome.mp (by rw [hcls]; rfl)
    refine ⟨⟨?_, ?_⟩, ?_, ?_, ?_, ?_, ?_⟩
    · intro n f hf
      exact created.creates (n, f) ((o.mem_entries _ _).mpr hf)
    · intro m d hdep
      have hd := bound.present m d (inModules m d hdep) hdep
      obtain ⟨d', hd'⟩ := Option.isSome_iff_exists.mp (AList.lookup_isSome.mpr hd)
      exact ((cmodules d d').mp hd').2
    · rw [bound.same.stopped, created.fresh]
    · rw [bound.same.loaded, created.fresh]
    · rw [bound.same.trace, created.fresh]
    · rw [bound.same.modules]
      exact cmodules
    · have same : (fun a b => a ∈ (o.entries .modules c.modules).map fst ∧ DependsOn funcs a b)
          = DependsOn funcs := by
        funext a b
        exact eq_iff_iff.mpr ⟨And.right, fun h => ⟨inModules a b h, h⟩⟩
      rw [← same]
      exact bound.edges

/-- What every state of the binding loops has: the modules of `c` and bind functions for
declared dependencies only. -/
def Binding (funcs : ModuleCreatorFuncMap) (c t : ModuleManager) : Prop :=
  SameModules c t ∧ ∀ m k v, (t.bindFuncs m).lookup k = some v → DependsOn funcs m k

variable {c t : ModuleManager}

theorem Binding.initDepends (cfuncs : c.moduleCreatorFuncs = funcs)
    (inv : Binding funcs c t) (m : ModuleRef) : Binding funcs c (t.initDepends m) := by
  refine ⟨inv.1.trans (initDepends_same t m), ?_⟩
  intro m' k v hk
  by_cases same : m' = m
  · subst same
    unfold ModuleManager.initDepends at hk
    split at hk
    · rename_i cls hcls
      simp only [Function.update_self] at hk
      rw [lookup_defineDepends] at hk
      split at hk
      · exact ⟨cls, by rw [← cfuncs, ← inv.1.funcs]; exact hcls, ‹_›⟩
      · exact inv.2 m' k v hk
    · exact inv.2 m' k v hk
  · rw [initDepends_bindFuncs_ne same] at hk
    exact inv.2 m' k v hk

theorem Binding.bindOne (inv : Binding funcs c t) (name : String)
    (m : ModuleRef) (entry : String × String) : Binding funcs c (bindOne name m entry t).2 := by
  unfold ModuleManager.bindOne
  split
  · exact inv
  · exact ⟨inv.1.trans ⟨rfl, rfl, rfl, rfl, rfl⟩, inv.2⟩

/-- A complete registration never fails to bind. -/
theorem bindModule_succeeds (cfuncs : c.moduleCreatorFuncs = funcs)
    (cmodules : ∀ n ∈ funcs, n ∈ c.modules) (reg : Registered funcs)
    (inv : Binding funcs c t) (entry : String × ModuleRef) :
    (bindModule o entry t).1 = true := by
  by_contra failed
  have start := inv.initDepends cfuncs entry.2
  obtain ⟨⟨k, v⟩, hkv, u, hu, hfail⟩ := runAll_fails (Binding funcs c) start
    (fun e _ _ h => h.bindOne entry.1 entry.2 e) (by simpa [bindModule] using failed)
  have dep := start.2 entry.2 k v ((o.mem_entries _ _).mp hkv)
  have present := cmodules k (reg.present entry.2 k dep)
  rw [← hu.1.modules, ← AList.lookup_isSome] at present
  unfold ModuleManager.bindOne getModule at hfail
  split at hfail
  · rename_i hnone
    simp [hnone] at present
  · simp at hfail

theorem bindModule_binding (cfuncs : c.moduleCreatorFuncs = funcs)
    (inv : Binding funcs c t) (entry : String × ModuleRef) :
    Binding funcs c (bindModule o entry t).2 :=
  runAll_inv (Binding funcs c) (inv.initDepends cfuncs entry.2)
    fun e _ _ h => h.bindOne entry.1 entry.2 e

/-- **`Init` succeeds exactly on a complete registration**, in whatever orders it walks
its maps. -/
theorem init_succeeds_iff (o : IterOrder MapId String) (funcs : ModuleCreatorFuncMap) :
    (init o funcs {}).1 = true ↔ Registered funcs := by
  constructor
  · intro ok
    exact (init_bound (o := o) (ext ok rfl)).1
  · intro reg
    have createOk : (createModule o { moduleCreatorFuncs := funcs }).1 = true := by
      by_contra failed
      obtain ⟨⟨n, f⟩, hmem, t, -, hfail⟩ := runAll_fails (fun _ => True) trivial
        (fun _ _ _ _ => trivial) (by simpa [createModule] using failed)
      obtain ⟨cls, rfl, hinit⟩ := reg.creates n f ((o.mem_entries _ _).mp hmem)
      simp [createOne, hinit] at hfail
    unfold init
    split
    · rename_i c hcreate
      simp [hcreate] at createOk
    · rename_i c hcreate
      have created := createModule_created hcreate
      have cfuncs : c.moduleCreatorFuncs = funcs := by rw [created.fresh]
      have cmodules : ∀ n ∈ funcs, n ∈ c.modules := by
        intro n hn
        rw [← AList.lookup_isSome, (created.modules n n).mpr ⟨rfl, (mem_keys_entries _ _ _).mpr hn⟩]
        rfl
      have start : Binding funcs c c := by
        refine ⟨⟨rfl, rfl, rfl, rfl, rfl⟩, fun m k v hk => ?_⟩
        rw [created.fresh] at hk
        simp at hk
      by_contra failed
      obtain ⟨entry, -, t, ht, hfail⟩ := runAll_fails (Binding funcs c) start
        (fun e _ _ h => bindModule_binding cfuncs h e) (by simpa [bindDependModule] using failed)
      rw [bindModule_succeeds cfuncs cmodules reg ht entry] at hfail
      simp at hfail

end Bind

end AgentEngine.Engine
