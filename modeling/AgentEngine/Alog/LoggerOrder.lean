import AgentEngine.Alog.LoggerLevels

/-!
Loggers that are asked for in different orders.

`getLogger` makes the loggers above a name that are missing, and they inherit. A later request that
one of them should not inherit finds it there and changes nothing. This is the only way in which
the order of the requests shows in the tree (`orderFree_iff`).
-/

namespace AgentEngine.Alog.Loggers

open Lib List

variable (s : Loggers) (requests : List Request)

/-- Requests `getLogger(name, bInherit)` are served one after another. -/
def serve : Loggers :=
  requests.foldl (fun s request => (s.getLogger request.1 request.2).2) s

/-- The parent of a logger, which is named unless it is the root, its flag and its level. -/
def describe (name : List UInt8) : Option (Option (Option (List UInt8)) × Bool × Nat) :=
  (s.loggerMap.lookup name).map fun i =>
    ((s.heap i).parent.map fun p => if p = root then none else some (s.heap p).loggerName,
      (s.heap i).inherit, (s.heap i).loggerLevel)

/-- Any two orders of the requests build the same tree. -/
def OrderFree : Prop :=
  ∀ order order', order ~ requests → order' ~ requests →
    ∀ name, (s.serve order).describe name = (s.serve order').describe name

/-- The level of the nearest logger at or above a name. -/
def levelAt : List UInt8 → Nat :=
  levelOf (fun key => key.elim (some (s.heap root).loggerLevel) fun name =>
    (s.loggerMap.lookup name).map fun i => (s.heap i).loggerLevel) fun _ => true

/-- The flag of a logger that is there, or that it is asked for with. -/
def flagAt (name : List UInt8) : Bool :=
  ((s.loggerMap.lookup name).map fun i => (s.heap i).inherit).getD ((name, false) ∉ requests)

/-- All loggers have the levels and flags that are foreseen. -/
structure Foreseen (t : Loggers) : Prop where
  known : ∀ name ∈ s.loggerMap, name ∈ t.loggerMap
  base : (t.heap root).loggerLevel = (s.heap root).loggerLevel
  each : ∀ name i, t.loggerMap.lookup name = some i →
    (t.heap i).loggerLevel = s.levelAt name ∧ (t.heap i).inherit = s.flagAt requests name

theorem foreseen_refl : Foreseen s requests s := by
  refine ⟨fun _ mem => mem, rfl, ?_⟩
  intro name i found
  rw [levelAt, levelOf_unfold, flagAt]
  simp [found]

variable {s requests} {t t' : Loggers} {name up : List UInt8} {i parent : Nat} {inherit : Bool}

/-- What making one logger for one of the requests preserves, serving all of them does. -/
theorem serve_induction {P : Loggers → Prop} (tree : Tree s) (start : P s)
    (requests : List Request)
    (make : ∀ request ∈ requests, ∀ t t' name parent inherit, Tree t → P t →
      Made t name parent inherit t' → MadeFor request name inherit → P t') :
    Tree (s.serve requests) ∧ P (s.serve requests) := by
  induction requests generalizing s with
  | nil => exact ⟨tree, start⟩
  | cons request requests ih =>
    obtain ⟨now, later⟩ := forall_mem_cons.mp make
    obtain ⟨tree', start', -⟩ :=
      getLoggerIn_induction tree start _ request.1 request.2 (Nat.lt_succ_self _) now
    exact ih tree' start' later

/-! ### The names in the tree -/

theorem Made.mem (made : Made t name parent inherit t') {other : List UInt8}
    (mem : other ∈ t.loggerMap) : other ∈ t'.loggerMap := by
  obtain ⟨i, found⟩ := exists_lookup_of_mem mem
  exact mem_of_lookup (made.kept found)

theorem Tree.mem_parent (tree : Tree t) (mem : name ∈ t.loggerMap)
    (above : parentName name = some up) : up ∈ t.loggerMap := by
  obtain ⟨i, found⟩ := exists_lookup_of_mem mem
  obtain ⟨here, child, called⟩ := (tree.mapped name i).mp found
  obtain ⟨p, parent, -⟩ := tree.parents i here child
  have named := tree.named i here p parent
  rw [called, above] at named
  exact mem_of_lookup named

/-- With a logger, those above it are there. -/
theorem Tree.mem_above (tree : Tree t) (above : Above up name) (mem : name ∈ t.loggerMap) :
    up ∈ t.loggerMap := by
  obtain ⟨rest, rfl⟩ := above
  induction length : rest.length using Nat.strong_induction_on generalizing rest with
  | _ n ih =>
    cases last : parentName rest with
    | none =>
      have noDot := parentName_eq_none.mp last
      exact tree.mem_parent mem (parentName_eq_some.mpr ⟨rest, by simp, noDot⟩)
    | some upper =>
      obtain ⟨tail, rfl, noDot⟩ := parentName_eq_some.mp last
      have next := tree.mem_parent mem
        (parentName_eq_some.mpr ⟨tail, (append_assoc (up ++ [46]) upper _).symm, noDot⟩)
      exact ih _ (length ▸ length_parentName last) upper next rfl

theorem getLogger_names (tree : Tree s) (request : Request) :
    Tree (s.getLogger request.1 request.2).2 ∧
      ∀ name, name ∈ (s.getLogger request.1 request.2).2.loggerMap ↔
        name ∈ s.loggerMap ∨ name = request.1 ∨ Above name request.1 := by
  obtain ⟨tree', ⟨kept, new⟩, found, -⟩ := getLoggerIn_induction
    (P := fun t => (∀ name ∈ s.loggerMap, name ∈ t.loggerMap) ∧
      ∀ name ∈ t.loggerMap, name ∈ s.loggerMap ∨ name = request.1 ∨ Above name request.1) tree
    ⟨fun _ => id, fun _ => .inl⟩ _ request.1 request.2 (Nat.lt_succ_self _) (by
      rintro t t' _ _ _ - ⟨kept, new⟩ made for'
      refine ⟨fun name mem => made.mem (kept name mem), fun name mem => ?_⟩
      obtain ⟨i, found⟩ := exists_lookup_of_mem mem
      rcases made.found found with found | ⟨rfl, -⟩
      · exact new name (mem_of_lookup found)
      · exact .inr (for'.imp And.left And.left))
  have here := mem_of_lookup found
  refine ⟨tree', fun name => ⟨new name, ?_⟩⟩
  rintro (mem | rfl | above)
  · exact kept name mem
  · exact here
  · exact tree'.mem_above above here

/-- The loggers that are there are those that are asked for and those above them. -/
theorem serve_names (tree : Tree s) (requests : List Request) :
    Tree (s.serve requests) ∧ ∀ name, name ∈ (s.serve requests).loggerMap ↔
      name ∈ s.loggerMap ∨ ∃ request ∈ requests, name = request.1 ∨ Above name request.1 := by
  induction requests generalizing s with
  | nil => exact ⟨tree, by simp [serve]⟩
  | cons request requests ih =>
    obtain ⟨tree', names⟩ := getLogger_names tree request
    obtain ⟨tree'', later⟩ := ih tree'
    refine ⟨tree'', fun name => (later name).trans ?_⟩
    simp [names, or_assoc]

theorem describe_eq (tree : Tree t) (found : t.loggerMap.lookup name = some i) :
    t.describe name =
      some (some (parentName name), (t.heap i).inherit, (t.heap i).loggerLevel) := by
  obtain ⟨here, child, called⟩ := (tree.mapped name i).mp found
  obtain ⟨p, parent, -⟩ := tree.parents i here child
  have named := tree.named i here p parent
  rw [describe, found, Option.map_some, parent, Option.map_some]
  rw [called] at named
  cases above : parentName name with
  | none =>
    rw [above] at named
    rw [if_pos named]
  | some up =>
    rw [above] at named
    obtain ⟨-, ne, called⟩ := (tree.mapped up p).mp named
    rw [if_neg ne, called]

/-! ### Flags and levels -/

/-- A logger keeps the flag that it was made with. -/
theorem serve_flag (tree : Tree s) (absent : name ∉ s.loggerMap) (request : Request)
    (asked : name = request.1 ∨ Above name request.1) (requests : List Request) :
    ∃ i, (s.serve (request :: requests)).loggerMap.lookup name = some i ∧
      MadeFor request name ((s.serve (request :: requests)).heap i).inherit := by
  obtain ⟨tree', names⟩ := getLogger_names tree request
  -- it is made for the first request, and stays
  have first : ∀ i, (s.getLogger request.1 request.2).2.loggerMap.lookup name = some i →
      MadeFor request name ((s.getLogger request.1 request.2).2.heap i).inherit := by
    refine (getLoggerIn_induction (P := fun t => ∀ i, t.loggerMap.lookup name = some i →
      MadeFor request name (t.heap i).inherit) tree
      (fun _ found => absurd (mem_of_lookup found) absent) _ _ _ (Nat.lt_succ_self _) ?_).2.1
    intro t t' made' parent inherit treeT flag made for' i found
    rcases made.found found with found | ⟨rfl, rfl⟩
    · rw [made.old i ((treeT.mapped name i).mp found).1]
      exact flag i found
    · rwa [made.new]
  obtain ⟨i, found⟩ := exists_lookup_of_mem ((names name).mpr (.inr asked))
  refine (serve_induction (P := fun t => ∃ i, t.loggerMap.lookup name = some i ∧
    MadeFor request name (t.heap i).inherit) tree' ⟨i, found, first i found⟩ requests ?_).2
  rintro _ - t t' _ _ _ treeT ⟨i, found, flag⟩ made -
  refine ⟨i, made.kept found, ?_⟩
  rwa [made.old i ((treeT.mapped name i).mp found).1]

theorem Foreseen.made (h : Foreseen s requests t) (tree : Tree t)
    (made : Made t name parent inherit t') (flag : inherit = decide ((name, false) ∉ requests)) :
    Foreseen s requests t' := by
  have absent : s.loggerMap.lookup name = none :=
    AList.lookup_eq_none.mpr fun mem => made.absent (h.known name mem)
  refine ⟨fun other mem => made.mem (h.known other mem), ?_, ?_⟩
  · rw [made.old root tree.made]
    exact h.base
  · intro other i found
    rcases made.found found with found | ⟨rfl, rfl⟩
    · rw [made.old i ((tree.mapped other i).mp found).1]
      exact h.each other i found
    · have under := made.under
      unfold Under at under
      rw [made.new, levelAt, levelOf_unfold, flagAt, absent]
      refine ⟨?_, flag⟩
      cases above : parentName other with
      | none =>
        rw [above] at under
        simp [absent, under, h.base]
      | some up =>
        rw [above] at under
        simp only [Option.elim_some, absent, Option.map_none, Option.getD_none, if_true]
        exact (h.each up parent under).1

theorem Above.ne (above : Above up name) : up ≠ name := by
  rintro rfl
  have := above.length_le
  simp at this

/-- The order shows exactly if a logger that is not there yet is asked for without inheriting, and
another one below it is asked for. -/
theorem orderFree_iff (tree : Tree s) (distinct : (requests.map Prod.fst).Nodup) :
    OrderFree s requests ↔ ∀ name, (name, false) ∈ requests → name ∉ s.loggerMap →
      ∀ request ∈ requests, ¬ Above name request.1 := by
  constructor
  · intro free name mem absent request mem' above
    have orders := free _ _ (perm_cons_erase mem).symm (perm_cons_erase mem').symm name
    obtain ⟨i, found, flag⟩ :=
      serve_flag tree absent (name, false) (.inl rfl) (requests.erase (name, false))
    obtain ⟨j, found', flag'⟩ :=
      serve_flag tree absent request (.inr above) (requests.erase request)
    rw [describe_eq (serve_names tree _).1 found,
      describe_eq (serve_names tree _).1 found'] at orders
    have flags := congrArg (fun d => d.map fun e => e.2.1) orders
    rcases flag with ⟨-, own⟩ | ⟨self, -⟩
    · rcases flag' with ⟨same, -⟩ | ⟨-, own'⟩
      · exact above.ne same
      · simp [own, own'] at flags
    · exact self.ne rfl
  · intro apart order order' perm perm'
    have foreseen {order : List Request} (perm : order ~ requests) :
        Foreseen s requests (s.serve order) := by
      refine (serve_induction tree (foreseen_refl s requests) order ?_).2
      intro request mem t t' name parent inherit treeT here made for'
      have absent : name ∉ s.loggerMap := fun known => made.absent (here.known name known)
      have mem := perm.mem_iff.mp mem
      refine here.made treeT made ?_
      symm
      rcases for' with ⟨rfl, rfl⟩ | ⟨above, rfl⟩
      · cases flag : request.2 with
        | false =>
          exact decide_eq_false (not_not.mpr (by rw [← flag]; exact mem))
        | true =>
          apply decide_eq_true
          intro mem'
          rw [inj_on_of_nodup_map distinct mem mem' rfl] at flag
          cases flag
      · apply decide_eq_true
        exact fun mem' => apart name mem' absent request mem above
    intro name
    have same : name ∈ (s.serve order).loggerMap ↔ name ∈ (s.serve order').loggerMap := by
      simp only [(serve_names tree _).2, perm.mem_iff, perm'.mem_iff]
    by_cases mem : name ∈ (s.serve order).loggerMap
    · obtain ⟨i, found⟩ := exists_lookup_of_mem mem
      obtain ⟨j, found'⟩ := exists_lookup_of_mem (same.mp mem)
      obtain ⟨level, flag⟩ := (foreseen perm).each name i found
      obtain ⟨level', flag'⟩ := (foreseen perm').each name j found'
      rw [describe_eq (serve_names tree _).1 found, describe_eq (serve_names tree _).1 found',
        level, flag, level', flag']
    · rw [describe, describe, AList.lookup_eq_none.mpr mem,
        AList.lookup_eq_none.mpr fun known => mem (same.mpr known)]
      rfl

theorem orderFree_iff_siblings : OrderFree start [([97, 46, 98], false), ([97, 46, 99], true)] ↔
    ∀ name, (name, false) ∈ [([97, 46, 98], false), ([97, 46, 99], true)] → name ∉ start.loggerMap →
      ∀ request ∈ [([97, 46, 98], false), ([97, 46, 99], true)], ¬ Above name request.1 :=
  orderFree_iff tree_start (by decide)

theorem not_orderFree_child : ¬ OrderFree start [([97, 46, 98], true), ([97], false)] := by
  intro free
  have orders := free _ _ (.refl _) (.swap _ _ _) [97]
  revert orders
  decide

end AgentEngine.Alog.Loggers
