import AgentEngine.Alog.Logger

/-!
The levels of the loggers over whole runs.

Loggers are asked for and told their levels and whether to inherit, in any order. After every run
the tree is the one that the names describe, and a logger has the level that the last settings call
for, no matter when it was made (`levels_of_run`).
-/

namespace AgentEngine.Alog

open Lib Loggers

/-- What is done with loggers. A logger is meant by its name, which it was asked for with. -/
inductive LoggerOp where
  | getLogger (name : List UInt8)
  | setLevel (name : List UInt8) (level : Nat)
  | setInheritFlag (name : List UInt8) (inherit : Bool)
  | setRootLevel (level : Nat)
  deriving DecidableEq, Repr

/-- One operation; only a logger that is there can be told something. -/
def Loggers.step (s : Loggers) : LoggerOp → Option Loggers
  | .getLogger name => some (s.getLogger name).2
  | .setLevel name level => (s.loggerMap.lookup name).map fun i => s.setLevel i level
  | .setInheritFlag name inherit =>
      (s.loggerMap.lookup name).bind fun i => s.setInheritFlag i inherit
  | .setRootLevel level => some (s.setLevel root level)

/-! ### What the settings call for -/

/-- The logger that an operation gives a level to; the root has no name. -/
def LoggerOp.levelSetting : LoggerOp → Option (Option (List UInt8) × Nat)
  | .setLevel name level => some (some name, level)
  | .setRootLevel level => some (none, level)
  | _ => none

/-- The level that a logger is given explicitly, after one more operation. -/
def LoggerOp.explicit (op : LoggerOp) (explicit : Option (List UInt8) → Option Nat)
    (key : Option (List UInt8)) : Option Nat :=
  match op.levelSetting with
  | some (key', level) =>
      if key = key' ∧ level < LOG_LEVEL_COUNT then
        if level = LOG_LEVEL_NOTSET then none else some level
      else explicit key
  | none => explicit key

/-- Whether a logger inherits, after one more operation. -/
def LoggerOp.inherits (op : LoggerOp) (inherits : List UInt8 → Bool) (name : List UInt8) : Bool :=
  match op with
  | .setInheritFlag name' inherit => if name = name' then inherit else inherits name
  | _ => inherits name

/-- The level that was last set on each logger, if that was explicit. -/
def explicitLevel (ops : List LoggerOp) : Option (List UInt8) → Option Nat :=
  ops.foldl (fun explicit op => op.explicit explicit) fun _ => none

/-- The flag that was last set on each logger. -/
def inheritFlag (ops : List LoggerOp) : List UInt8 → Bool :=
  ops.foldl (fun inherits op => op.inherits inherits) fun _ => true

/-- The level of a logger in terms of the settings alone. -/
def levelOf (explicit : Option (List UInt8) → Option Nat) (inherits : List UInt8 → Bool)
    (name : List UInt8) : Nat :=
  (explicit (some name)).getD <|
    if inherits name then
      match _above : parentName name with
      | none => (explicit none).getD LOG_LEVEL_INFO
      | some up => levelOf explicit inherits up
    else LOG_LEVEL_INFO
termination_by name.length
decreasing_by exact length_parentName _above

theorem levelOf_unfold (explicit : Option (List UInt8) → Option Nat) (inherits : List UInt8 → Bool)
    (name : List UInt8) :
    levelOf explicit inherits name = (explicit (some name)).getD
      (if inherits name then
        match parentName name with
        | none => (explicit none).getD LOG_LEVEL_INFO
        | some up => levelOf explicit inherits up
      else LOG_LEVEL_INFO) := by
  rw [levelOf]
  congr 2
  split
  · rename_i above
    rw [above]
  · rename_i up above
    rw [above]

/-! ### What the loggers record of the settings -/

/-- The address of a logger. -/
def Loggers.At (s : Loggers) : Option (List UInt8) → Nat → Prop
  | none, i => i = root
  | some name, i => s.loggerMap.lookup name = some i

/-- The loggers are a settled tree that has recorded the settings. -/
structure Records (s : Loggers) (explicit : Option (List UInt8) → Option Nat)
    (inherits : List UInt8 → Bool) : Prop where
  tree : Tree s
  settled : SettledBut s ∅
  levels : ∀ key i, s.At key i → (s.heap i).levelSet = (explicit key).isSome ∧
    ∀ level, explicit key = some level → (s.heap i).loggerLevel = level
  flags : ∀ name i, s.loggerMap.lookup name = some i → (s.heap i).inherit = inherits name
  fresh : ∀ name ∉ s.loggerMap, explicit (some name) = none ∧ inherits name = true

theorem records_start : Records .start (fun _ => none) fun _ => true where
  tree := tree_start
  settled := ⟨fun _ _ _ _ => rfl, fun _ _ => info_lt_notset⟩
  levels := fun _ _ _ => ⟨rfl, nofun⟩
  flags := nofun
  fresh := fun _ _ => ⟨rfl, rfl⟩

section Steps

variable {s s' : Loggers} {explicit : Option (List UInt8) → Option Nat}
  {inherits : List UInt8 → Bool} {i : Nat}

theorem Loggers.Tree.at_inj (tree : Tree s) {key key' : Option (List UInt8)} (at' : s.At key i)
    (at'' : s.At key' i) : key = key' := by
  have named {name : List UInt8} (found : s.loggerMap.lookup name = some i) :
      i ≠ root ∧ (s.heap i).loggerName = name := ((tree.mapped name i).mp found).2
  match key, key', at', at'' with
  | none, none, _, _ => rfl
  | none, some _, isRoot, found => exact absurd isRoot (named found).1
  | some _, none, found, isRoot => exact absurd isRoot (named found).1
  | some _, some _, found, found' => rw [← (named found).2, ← (named found').2]

variable {key : Option (List UInt8)}

theorem Loggers.Tree.at_lt (tree : Tree s) (at' : s.At key i) : i < s.size := by
  cases key with
  | none =>
    cases at'
    exact tree.made
  | some name => exact ((tree.mapped name i).mp at').1

theorem Loggers.Touches.at_iff (h : Touches i s s') {j : Nat} : s'.At key j ↔ s.At key j := by
  cases key with
  | none => exact Iff.rfl
  | some name =>
    simp only [Loggers.At]
    rw [h.loggerMap]

variable (records : Records s explicit inherits)
include records

theorem Records.setLevel (at' : s.At key i) (op : LoggerOp) {level : Nat}
    (setting : op.levelSetting = some (key, level)) :
    Records (s.setLevel i level) (op.explicit explicit) inherits := by
  have explicit_eq (key' : Option (List UInt8)) : op.explicit explicit key' =
      if key' = key ∧ level < LOG_LEVEL_COUNT then
        if level = LOG_LEVEL_NOTSET then none else some level
      else explicit key' := by
    unfold LoggerOp.explicit
    rw [setting]
  by_cases valid : level < LOG_LEVEL_COUNT
  · obtain ⟨touches, settled, inherit, levelSet, own⟩ :=
      setLevel_spec records.tree (records.tree.at_lt at') records.settled valid
    refine ⟨touches.tree records.tree, settled, ?_, ?_, ?_⟩
    · intro key' j atJ
      rw [touches.at_iff] at atJ
      rw [explicit_eq]
      by_cases same : key' = key
      · subst same
        have here : j = i := by
          cases key' with
          | none => rw [atJ, at']
          | some name => exact Option.some.inj (atJ.symm.trans at')
        subst here
        rw [if_pos ⟨rfl, valid⟩, levelSet]
        by_cases notset : level = LOG_LEVEL_NOTSET
        · simp [notset]
        · rw [if_neg notset, decide_eq_true notset]
          refine ⟨rfl, ?_⟩
          intro l given
          cases given
          exact own notset
      · have other : j ≠ i := by
          rintro rfl
          exact same (records.tree.at_inj atJ at')
        obtain ⟨set, value⟩ := records.levels key' j atJ
        rw [if_neg fun both => same both.1, touches.levelSet j other]
        refine ⟨set, ?_⟩
        intro l given
        rw [touches.own j other (by rw [set, given]; rfl)]
        exact value l given
    · intro name j found
      rw [touches.loggerMap] at found
      by_cases here : j = i
      · rw [here, inherit, ← here]
        exact records.flags name j found
      · rw [touches.inherit j here]
        exact records.flags name j found
    · intro name absent
      rw [touches.loggerMap] at absent
      have other : some name ≠ key := by
        rintro rfl
        exact absent (mem_of_lookup at')
      rw [explicit_eq, if_neg fun both => other both.1]
      exact records.fresh name absent
  · have same : op.explicit explicit = explicit := by
      funext key'
      rw [explicit_eq, if_neg fun both => valid both.2]
    rw [setLevel_of_ge s i (not_lt.mp valid), same]
    exact records

/-- Loggers that are made on the way are as if they had been there without a setting. -/
theorem Records.extend (tree : Tree s')
    (settled : SettledBut s' ∅) (grown : Extends s s') : Records s' explicit inherits := by
  -- a name that was not known before is that of a new logger
  have new {name : List UInt8} {i : Nat} (absent : name ∉ s.loggerMap)
      (found : s'.loggerMap.lookup name = some i) :
      (s'.heap i).levelSet = false ∧ (s'.heap i).inherit = true := by
    obtain ⟨lt, child, named⟩ := (tree.mapped name i).mp found
    apply grown.new i _ lt
    by_contra early
    have before := not_le.mp early
    obtain ⟨_, e⟩ := grown.old i before
    rw [e] at named
    exact absent (mem_of_lookup ((records.tree.mapped name i).mpr ⟨before, child, named⟩))
  have old {name : List UInt8} {i : Nat} (known : name ∈ s.loggerMap)
      (found : s'.loggerMap.lookup name = some i) : s.loggerMap.lookup name = some i := by
    obtain ⟨j, foundJ⟩ := exists_lookup_of_mem known
    cases (grown.loggerMap name j foundJ).symm.trans found
    exact foundJ
  have kept {key : Option (List UInt8)} {i : Nat} (at' : s.At key i) :
      (s'.heap i).levelSet = (explicit key).isSome ∧
        ∀ level, explicit key = some level → (s'.heap i).loggerLevel = level := by
    obtain ⟨_, e⟩ := grown.old i (records.tree.at_lt at')
    rw [e]
    exact records.levels key i at'
  refine ⟨tree, settled, ?_, ?_, ?_⟩
  · intro key i at'
    cases key with
    | none => exact kept (show s.At none i from at')
    | some name =>
      by_cases known : name ∈ s.loggerMap
      · exact kept (show s.At (some name) i from old known at')
      · rw [(records.fresh name known).1]
        exact ⟨(new known at').1, nofun⟩
  · intro name i found
    by_cases known : name ∈ s.loggerMap
    · have before := old known found
      obtain ⟨_, e⟩ := grown.old i ((records.tree.mapped name i).mp before).1
      rw [e]
      exact records.flags name i before
    · rw [(records.fresh name known).2]
      exact (new known found).2
  · intro name absent
    apply records.fresh name
    intro known
    obtain ⟨i, found⟩ := exists_lookup_of_mem known
    exact absent (mem_of_lookup (grown.loggerMap name i found))

theorem Records.step {op : LoggerOp}
    (moved : s.step op = some s') : Records s' (op.explicit explicit) (op.inherits inherits) := by
  cases op with
  | setRootLevel level =>
    cases moved
    exact records.setLevel (show s.At none root from rfl) (.setRootLevel level) rfl
  | setLevel name level =>
    obtain ⟨i, found, rfl⟩ := Option.map_eq_some_iff.mp moved
    exact records.setLevel (show s.At (some name) i from found) (.setLevel name level) rfl
  | setInheritFlag name inherit =>
    obtain ⟨i, found, moved⟩ := Option.bind_eq_some_iff.mp moved
    obtain ⟨here, child, -⟩ := (records.tree.mapped name i).mp found
    obtain ⟨s'', moved', touches, settled, flag, levelSet, own⟩ :=
      setInheritFlag_spec inherit records.tree here records.settled child
    cases moved.symm.trans moved'
    refine ⟨touches.tree records.tree, settled, ?_, ?_, ?_⟩
    · intro key j atJ
      rw [touches.at_iff] at atJ
      obtain ⟨set, value⟩ := records.levels key j atJ
      by_cases same : j = i
      · subst same
        rw [levelSet]
        refine ⟨set, ?_⟩
        intro l given
        rw [own (by rw [set]; exact congrArg Option.isSome given)]
        exact value l given
      · rw [touches.levelSet j same]
        refine ⟨set, ?_⟩
        intro l given
        rw [touches.own j same (by rw [set]; exact congrArg Option.isSome given)]
        exact value l given
    · intro name' j found'
      rw [touches.loggerMap] at found'
      simp only [LoggerOp.inherits]
      by_cases same : name' = name
      · subst same
        cases found.symm.trans found'
        rw [if_pos rfl, flag]
      · have other : j ≠ i := by
          rintro rfl
          have atJ : s.At (some name') j := found'
          exact same (Option.some.inj (records.tree.at_inj atJ (show s.At (some name) j from found)))
        rw [if_neg same, touches.inherit j other]
        exact records.flags name' j found'
    · intro name' absent
      rw [touches.loggerMap] at absent
      have other : name' ≠ name := by
        rintro rfl
        exact absent (mem_of_lookup found)
      simp only [LoggerOp.inherits, if_neg other]
      exact records.fresh name' absent
  | getLogger name =>
    cases moved
    obtain ⟨tree, settled, grown, -⟩ := getLogger_spec records.tree name
    exact records.extend tree (settled records.settled) grown

end Steps

/-! ### Whole runs -/

variable {s s' : Loggers} {explicit : Option (List UInt8) → Option Nat} {inherits : List UInt8 → Bool}

section

variable (records : Records s explicit inherits)
include records

theorem Records.run {ops : List LoggerOp} (run : after Loggers.step s ops = some s') :
    Records s' (ops.foldl (fun explicit op => op.explicit explicit) explicit)
      (ops.foldl (fun inherits op => op.inherits inherits) inherits) := by
  induction ops generalizing s explicit inherits with
  | nil =>
    cases run
    exact records
  | cons op ops ih =>
    obtain ⟨t, first, rest⟩ := after_cons.mp run
    exact ih (records.step first) rest

theorem Records.rootLevel : (s.heap root).loggerLevel = (explicit none).getD LOG_LEVEL_INFO := by
  obtain ⟨set, value⟩ := records.levels none root rfl
  cases given : explicit none with
  | some level => exact value level given
  | none =>
    rw [given] at set
    have settled := records.settled.settled root records.tree.made nofun set
    rw [records.tree.orphan] at settled
    exact settled

/-- The level of a logger in terms of its own setting and its parent's level. -/
theorem Records.level {name : List UInt8}
    {i p : Nat} (found : s.loggerMap.lookup name = some i) (above : (s.heap i).parent = some p) :
    (s.heap i).loggerLevel = (explicit (some name)).getD
      (if inherits name then (s.heap p).loggerLevel else LOG_LEVEL_INFO) := by
  obtain ⟨set, value⟩ := records.levels (some name) i found
  cases given : explicit (some name) with
  | some level => exact value level given
  | none =>
    rw [given] at set
    obtain ⟨here, -⟩ := (records.tree.mapped name i).mp found
    have settled := records.settled.settled i here nofun set
    rw [above] at settled
    rw [settled, records.flags name i found]
    rfl

/-- By induction on the name: the parent's is shorter. -/
theorem Records.levelOf_eq {name : List UInt8}
    {i : Nat} (found : s.loggerMap.lookup name = some i) :
    (s.heap i).loggerLevel = levelOf explicit inherits name := by
  induction length : name.length using Nat.strong_induction_on generalizing name i with
  | _ n ih =>
    subst length
    obtain ⟨here, child, named⟩ := (records.tree.mapped name i).mp found
    obtain ⟨p, above, -⟩ := records.tree.parents i here child
    have up := records.tree.named i here p above
    rw [named] at up
    have parent : (s.heap p).loggerLevel =
        match parentName name with
        | none => (explicit none).getD LOG_LEVEL_INFO
        | some up => levelOf explicit inherits up := by
      cases longest : parentName name with
      | none =>
        rw [longest] at up
        rw [up]
        exact records.rootLevel
      | some up' =>
        rw [longest] at up
        exact ih _ (length_parentName longest) up rfl
    rw [records.level found above, parent, levelOf_unfold]

end

/-- After every run: the tree is the one of the names, each logger is in its parent's list and in
no other, and the levels are those that the settings call for. -/
theorem levels_of_run {ops : List LoggerOp} {s : Loggers}
    (run : after Loggers.step .start ops = some s) :
    (∀ i < s.size, i = root ∨ ∃ name, s.loggerMap.lookup name = some i) ∧
      (s.heap root).loggerLevel = (explicitLevel ops none).getD LOG_LEVEL_INFO ∧
      ∀ name i, s.loggerMap.lookup name = some i →
        (∃ p, (s.heap i).parent = some p ∧
          (∀ up rest, name = up ++ 46 :: rest → 46 ∉ rest → s.loggerMap.lookup up = some p) ∧
          (46 ∉ name → p = root) ∧
          (∀ q < s.size, (s.heap q).children.count i = if q = p then 1 else 0) ∧
          (s.heap i).loggerLevel =
            (explicitLevel ops (some name)).getD
              (if inheritFlag ops name then (s.heap p).loggerLevel else LOG_LEVEL_INFO)) ∧
        (s.heap i).loggerLevel = levelOf (explicitLevel ops) (inheritFlag ops) name := by
  have records : Records s (explicitLevel ops) (inheritFlag ops) := records_start.run run
  have tree := records.tree
  refine ⟨?_, records.rootLevel, ?_⟩
  · intro i lt
    by_cases child : i = root
    · exact .inl child
    · exact .inr ⟨_, (tree.mapped _ i).mpr ⟨lt, child, rfl⟩⟩
  · intro name i found
    refine ⟨?_, records.levelOf_eq found⟩
    obtain ⟨here, child, named⟩ := (tree.mapped name i).mp found
    obtain ⟨p, above, lower⟩ := tree.parents i here child
    have up := tree.named i here p above
    rw [named] at up
    refine ⟨p, above, ?_, ?_, ?_, records.level found above⟩
    · intro up' rest split noDot
      rw [parentName_eq_some.mpr ⟨rest, split, noDot⟩] at up
      exact up
    · intro noDot
      rw [parentName_eq_none.mpr noDot] at up
      exact up
    · intro q lt
      split_ifs with same
      · subst same
        exact List.count_eq_one_of_mem (tree.nodup q lt) ((tree.children q lt i).mpr ⟨here, above⟩)
      · rw [List.count_eq_zero]
        intro mem
        have above' := ((tree.children q lt i).mp mem).2
        exact same (Option.some.inj (above'.symm.trans above))

theorem levels_of_run_late_child :
    ∃ s, after Loggers.step .start
        [.setRootLevel 2, .getLogger [97, 46, 98], .setLevel [97] 7, .setInheritFlag [97] false,
          .getLogger [97, 46, 99]] = some s ∧
      ∀ name i, s.loggerMap.lookup name = some i → (s.heap i).loggerLevel =
        levelOf (explicitLevel [.setRootLevel 2, .getLogger [97, 46, 98], .setLevel [97] 7,
          .setInheritFlag [97] false, .getLogger [97, 46, 99]])
          (inheritFlag [.setRootLevel 2, .getLogger [97, 46, 98], .setLevel [97] 7,
          .setInheritFlag [97] false, .getLogger [97, 46, 99]]) name := by
  have legal : (after Loggers.step .start
      [.setRootLevel 2, .getLogger [97, 46, 98], .setLevel [97] 7, .setInheritFlag [97] false,
        .getLogger [97, 46, 99]]).isSome := by decide
  obtain ⟨s, run⟩ := Option.isSome_iff_exists.mp legal
  refine ⟨s, run, ?_⟩
  intro name i found
  exact ((levels_of_run run).2.2 name i found).2

end AgentEngine.Alog
