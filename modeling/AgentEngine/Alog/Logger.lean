import AgentEngine.Alog.Appenders

/-!
The tree of loggers (`Logger.h`, `Logger.cpp`).

A logger is an address; the root has the first one, and every other logger is made after its
parent. `getRootLogger` makes the root when it is first asked for, always with the same values, so
that it may as well be there from the start.

Each logger keeps its own copy of the level. A change is pushed down to the children by
`setLevelByParent`, which stops at loggers that do not inherit or have a level of their own. The
recursion is given as many rounds as there are loggers, which is enough (`setLevelByParent_spec`).

* `Tree`: how parents, children and names hang together.
* `Settled`: a logger's level is the one that its own setting and its parent's level call for.
* `setLevel_spec`, `setInheritFlag_spec`, `getLogger_spec`: one for each operation.
-/

namespace AgentEngine.Alog

open Lib List Function

abbrev LOG_LEVEL_DISABLE : Nat := 0
abbrev LOG_LEVEL_FATAL : Nat := 1
abbrev LOG_LEVEL_ERROR : Nat := 2
abbrev LOG_LEVEL_WARN : Nat := 3
abbrev LOG_LEVEL_INFO : Nat := 4
abbrev LOG_LEVEL_DEBUG : Nat := 5
abbrev LOG_LEVEL_TRACE1 : Nat := 6
abbrev LOG_LEVEL_TRACE2 : Nat := 7
abbrev LOG_LEVEL_TRACE3 : Nat := 8
abbrev LOG_LEVEL_NOTSET : Nat := 9
abbrev LOG_LEVEL_COUNT : Nat := 10

theorem info_lt_notset : LOG_LEVEL_INFO < LOG_LEVEL_NOTSET := by decide

structure Logger where
  loggerName : List UInt8
  loggerLevel : Nat
  levelSet : Bool
  /-- `m_parent`; the root has none. -/
  parent : Option Nat
  children : List Nat
  inherit : Bool
  appenderSet : Finset Key

structure Loggers where
  /-- The loggers at their addresses; those from `size` on are not made yet. -/
  heap : Nat → Logger
  size : Nat
  loggerMap : UMap (List UInt8) Nat

namespace Loggers

/-- The address of the root. -/
def root : Nat := 0

def newRoot : Logger := ⟨[], LOG_LEVEL_INFO, false, none, [], true, ∅⟩

def start : Loggers := ⟨fun _ => newRoot, 1, ∅⟩

def write (s : Loggers) (i : Nat) (logger : Logger) : Loggers :=
  { s with heap := Function.update s.heap i logger }

/-! ### Levels -/

def setLevelByParent (s : Loggers) : (rounds : Nat) → (i level : Nat) → Loggers
  | 0, _, _ => s
  | rounds + 1, i, level =>
      let logger := s.heap i
      if LOG_LEVEL_COUNT ≤ level then s
      else if !logger.inherit || logger.levelSet then s
      else
        let loggerLevel := if level = LOG_LEVEL_NOTSET then LOG_LEVEL_INFO else level
        logger.children.foldl (fun s child => s.setLevelByParent rounds child loggerLevel)
          (s.write i { logger with loggerLevel })

/-- The loops over `m_children`. -/
def pushLevel (s : Loggers) (i level : Nat) : Loggers :=
  let rounds := s.size
  (s.heap i).children.foldl (fun s child => s.setLevelByParent rounds child level) s

/-- The level that a logger takes when it is set to `level`. -/
def levelFor (s : Loggers) (logger : Logger) (level : Nat) : Nat :=
  let given :=
    match logger.parent with
    | some p =>
        if level = LOG_LEVEL_NOTSET && logger.inherit then (s.heap p).loggerLevel else level
    | none => level
  if given = LOG_LEVEL_NOTSET then LOG_LEVEL_INFO else given

def setLevel (s : Loggers) (i level : Nat) : Loggers :=
  if LOG_LEVEL_COUNT ≤ level then s
  else
    let logger := s.heap i
    let loggerLevel := s.levelFor logger level
    let levelSet := decide (level ≠ LOG_LEVEL_NOTSET)
    pushLevel (s.write i { logger with loggerLevel, levelSet }) i loggerLevel

/-- Nothing comes back where the source follows a null `m_parent`. -/
def setInheritFlag (s : Loggers) (i : Nat) (inherit : Bool) : Option Loggers :=
  let logger := { s.heap i with inherit }
  if logger.levelSet then some (s.write i logger)
  else if inherit then
    match logger.parent with
    | none => none
    | some p =>
        let loggerLevel := (s.heap p).loggerLevel
        some (pushLevel (s.write i { logger with loggerLevel }) i loggerLevel)
  else some (pushLevel (s.write i { logger with loggerLevel := LOG_LEVEL_INFO }) i LOG_LEVEL_INFO)

/-! ### Lookup -/

/-- What stands before the last dot of a name. -/
def parentName : List UInt8 → Option (List UInt8)
  | [] => none
  | c :: name =>
      match parentName name with
      | some up => some (c :: up)
      | none => if c = 46 then some [] else none

/-- A new logger under its parent. -/
def addLogger (s : Loggers) (name : List UInt8) (parent : Nat) (inherit : Bool) : Loggers :=
  let result := s.size
  let s := s.write result
    ⟨name, (s.heap parent).loggerLevel, false, some parent, [], inherit, ∅⟩
  let s := s.write parent
    { s.heap parent with children := (s.heap parent).children ++ [result] }
  { s with size := result + 1, loggerMap := emplace s.loggerMap name result }

/-- `_getLogger`, which makes the missing ancestors first. A name has fewer ancestors than
characters, plus the name itself. -/
def getLoggerIn (s : Loggers) : (rounds : Nat) → (name : List UInt8) → (inherit : Bool) →
    Nat × Loggers
  | 0, _, _ => (root, s)
  | rounds + 1, name, inherit =>
      match s.loggerMap.lookup name with
      | some i => (i, s)
      | none =>
          let (parent, s) :=
            match parentName name with
            | none => (root, s)
            | some up => s.getLoggerIn rounds up true
          (s.size, s.addLogger name parent inherit)

def getLogger (s : Loggers) (name : List UInt8) (inherit : Bool := true) : Nat × Loggers :=
  s.getLoggerIn (name.length + 1) name inherit

/-! ### Appenders -/

def removeAllAppenders (s : Loggers) (i : Nat) : Loggers :=
  s.write i { s.heap i with appenderSet := ∅ }

def addAppender (s : Loggers) (i : Nat) (appender : Key) : Loggers :=
  s.write i { s.heap i with appenderSet := insert appender (s.heap i).appenderSet }

/-! ### The shape of the tree -/

theorem parentName_of_notMem {name : List UInt8} (noDot : 46 ∉ name) : parentName name = none := by
  induction name with
  | nil => rfl
  | cons c name ih =>
    obtain ⟨other, rest⟩ := not_or.mp (mem_cons.not.mp noDot)
    rw [parentName, ih rest, if_neg (Ne.symm other)]

theorem parentName_append (up : List UInt8) {rest : List UInt8} (noDot : 46 ∉ rest) :
    parentName (up ++ 46 :: rest) = some up := by
  induction up with
  | nil => rw [nil_append, parentName, parentName_of_notMem noDot, if_pos rfl]
  | cons c up ih => rw [cons_append, parentName, ih]

theorem exists_last_dot {name : List UInt8} (mem : 46 ∈ name) :
    ∃ up rest, name = up ++ 46 :: rest ∧ 46 ∉ rest := by
  obtain ⟨rest, up, split, noDot⟩ := eq_append_cons_of_mem (mem_reverse.mpr mem)
  exact ⟨up.reverse, rest.reverse, by simpa using congrArg reverse split, by simpa using noDot⟩

theorem parentName_eq_none {name : List UInt8} : parentName name = none ↔ 46 ∉ name := by
  refine ⟨fun none mem => ?_, parentName_of_notMem⟩
  obtain ⟨up, rest, rfl, noDot⟩ := exists_last_dot mem
  rw [parentName_append up noDot] at none
  cases none

/-- The parent's name is the longest proper prefix that ends before a dot. -/
theorem parentName_eq_some {name up : List UInt8} :
    parentName name = some up ↔ ∃ rest, name = up ++ 46 :: rest ∧ 46 ∉ rest := by
  constructor
  · intro found
    have mem : 46 ∈ name := by
      by_contra noDot
      rw [parentName_of_notMem noDot] at found
      cases found
    obtain ⟨up', rest, rfl, noDot⟩ := exists_last_dot mem
    rw [parentName_append up' noDot] at found
    cases found
    exact ⟨rest, rfl, noDot⟩
  · rintro ⟨rest, rfl, noDot⟩
    exact parentName_append up noDot

theorem length_parentName {name up : List UInt8} (above : parentName name = some up) :
    up.length < name.length := by
  obtain ⟨rest, rfl, -⟩ := parentName_eq_some.mp above
  simp

/-- How parents, children and names hang together. -/
structure Tree (s : Loggers) : Prop where
  made : root < s.size
  orphan : (s.heap root).parent = none
  parents : ∀ i < s.size, i ≠ root → ∃ p, (s.heap i).parent = some p ∧ p < i
  children : ∀ p < s.size, ∀ c, c ∈ (s.heap p).children ↔ c < s.size ∧ (s.heap c).parent = some p
  nodup : ∀ p < s.size, (s.heap p).children.Nodup
  mapped : ∀ name i, s.loggerMap.lookup name = some i ↔
    i < s.size ∧ i ≠ root ∧ (s.heap i).loggerName = name
  named : ∀ i < s.size, ∀ p, (s.heap i).parent = some p →
    match parentName (s.heap i).loggerName with
    | none => p = root
    | some up => s.loggerMap.lookup up = some p

theorem tree_start : Tree start where
  made := Nat.one_pos
  orphan := rfl
  parents := fun _ lt ne => absurd (Nat.lt_one_iff.mp lt) ne
  children := by
    intro p _ c
    simp [start, newRoot]
  nodup := fun _ _ => nodup_nil
  mapped := by
    intro name i
    constructor
    · exact nofun
    · rintro ⟨lt, ne, -⟩
      exact absurd (Nat.lt_one_iff.mp lt) ne
  named := nofun

/-- A logger has the level that its own setting and its parent's level call for. -/
def Settled (s : Loggers) (i : Nat) : Prop :=
  (s.heap i).levelSet = false → (s.heap i).loggerLevel =
    match (s.heap i).parent with
    | some p => if (s.heap i).inherit then (s.heap p).loggerLevel else LOG_LEVEL_INFO
    | none => LOG_LEVEL_INFO

/-- The level that a logger without a level of its own should have. -/
def due (s : Loggers) (logger : Logger) : Nat :=
  match logger.parent with
  | some p => if logger.inherit then (s.heap p).loggerLevel else LOG_LEVEL_INFO
  | none => LOG_LEVEL_INFO

/-- Every logger is settled, but for those of `open'` that inherit. -/
structure SettledBut (s : Loggers) (open' : Set Nat) : Prop where
  settled : ∀ i < s.size, (i ∈ open' → (s.heap i).inherit = false) → Settled s i
  bounded : ∀ i < s.size, (s.heap i).loggerLevel < LOG_LEVEL_NOTSET

/-- Nothing has changed but the levels of loggers from an address on that have none of their
own. -/
structure LevelsFrom (first : Nat) (s s' : Loggers) : Prop where
  size : s'.size = s.size
  loggerMap : s'.loggerMap = s.loggerMap
  levels : ∀ i, ∃ level, s'.heap i = { s.heap i with loggerLevel := level }
  before : ∀ i < first, s'.heap i = s.heap i
  own : ∀ i, (s.heap i).levelSet = true → s'.heap i = s.heap i

namespace LevelsFrom

variable {first : Nat} {s s' s'' : Loggers}

theorem refl (first : Nat) (s : Loggers) : LevelsFrom first s s :=
  ⟨rfl, rfl, fun _ => ⟨_, rfl⟩, fun _ _ => rfl, fun _ _ => rfl⟩

theorem trans (h : LevelsFrom first s s') (h' : LevelsFrom first s' s'') :
    LevelsFrom first s s'' := by
  refine ⟨h'.size.trans h.size, h'.loggerMap.trans h.loggerMap, ?_, ?_, ?_⟩
  · intro i
    obtain ⟨level, e⟩ := h.levels i
    obtain ⟨level', e'⟩ := h'.levels i
    exact ⟨level', by rw [e', e]⟩
  · intro i lt
    rw [h'.before i lt, h.before i lt]
  · intro i set
    rw [h'.own i (by rw [h.own i set]; exact set), h.own i set]

theorem mono {first' : Nat} (le : first' ≤ first) (h : LevelsFrom first s s') :
    LevelsFrom first' s s' :=
  ⟨h.size, h.loggerMap, h.levels, fun i lt => h.before i (lt_of_lt_of_le lt le), h.own⟩

variable (h : LevelsFrom first s s') (i : Nat)
include h

theorem loggerName : (s'.heap i).loggerName = (s.heap i).loggerName := by
  obtain ⟨_, e⟩ := h.levels i
  rw [e]

theorem levelSet : (s'.heap i).levelSet = (s.heap i).levelSet := by
  obtain ⟨_, e⟩ := h.levels i
  rw [e]

theorem parent : (s'.heap i).parent = (s.heap i).parent := by
  obtain ⟨_, e⟩ := h.levels i
  rw [e]

theorem children : (s'.heap i).children = (s.heap i).children := by
  obtain ⟨_, e⟩ := h.levels i
  rw [e]

theorem inherit : (s'.heap i).inherit = (s.heap i).inherit := by
  obtain ⟨_, e⟩ := h.levels i
  rw [e]

end LevelsFrom

/-- The tree does not depend on what the loggers are set to. -/
theorem Tree.congr {s s' : Loggers} (tree : Tree s) (size : s'.size = s.size)
    (loggerMap : s'.loggerMap = s.loggerMap)
    (loggerName : ∀ i, (s'.heap i).loggerName = (s.heap i).loggerName)
    (parent : ∀ i, (s'.heap i).parent = (s.heap i).parent)
    (children : ∀ i, (s'.heap i).children = (s.heap i).children) : Tree s' where
  made := by
    rw [size]
    exact tree.made
  orphan := by
    rw [parent]
    exact tree.orphan
  parents := by
    simp only [size, parent]
    exact tree.parents
  children := by
    simp only [size, parent, children]
    exact tree.children
  nodup := by
    simp only [size, children]
    exact tree.nodup
  mapped := by
    simp only [size, loggerMap, loggerName]
    exact tree.mapped
  named := by
    simp only [size, loggerMap, loggerName, parent]
    exact tree.named

theorem Tree.parent_lt {s : Loggers} (tree : Tree s) {p c : Nat} (here : c < s.size)
    (above : (s.heap c).parent = some p) : p < c := by
  have ne : c ≠ root := by
    rintro rfl
    exact nomatch above.symm.trans tree.orphan
  obtain ⟨q, above', lower⟩ := tree.parents c here ne
  cases above.symm.trans above'
  exact lower

theorem Tree.child {s : Loggers} (tree : Tree s) {p c : Nat} (here : p < s.size)
    (mem : c ∈ (s.heap p).children) : p < c ∧ c < s.size ∧ (s.heap c).parent = some p := by
  obtain ⟨lt, above⟩ := (tree.children p here c).mp mem
  exact ⟨tree.parent_lt lt above, lt, above⟩

theorem LevelsFrom.tree {first : Nat} {s s' : Loggers} (h : LevelsFrom first s s') (tree : Tree s) :
    Tree s' :=
  tree.congr h.size h.loggerMap h.loggerName h.parent h.children

/-! ### Pushing a level down -/

@[simp] theorem write_self (s : Loggers) (i : Nat) (logger : Logger) :
    (s.write i logger).heap i = logger := update_self ..

theorem write_of_ne (s : Loggers) {i j : Nat} (logger : Logger) (ne : j ≠ i) :
    (s.write i logger).heap j = s.heap j := update_of_ne ne ..

theorem levelsFrom_write {s : Loggers} {i : Nat} (level : Nat)
    (unset : (s.heap i).levelSet = false) :
    LevelsFrom i s (s.write i { s.heap i with loggerLevel := level }) := by
  refine ⟨rfl, rfl, ?_, fun j lt => write_of_ne s _ (ne_of_lt lt), ?_⟩
  · intro j
    by_cases here : j = i
    · subst here
      exact ⟨level, write_self ..⟩
    · exact ⟨_, write_of_ne s _ here⟩
  · intro j set
    refine write_of_ne s _ ?_
    rintro rfl
    exact nomatch unset.symm.trans set

variable {s : Loggers} {i level : Nat} {open' : Set Nat}

theorem SettledBut.mono {more : Set Nat} (settled : SettledBut s open') (le : open' ⊆ more) :
    SettledBut s more :=
  ⟨fun j lt closed => settled.settled j lt fun mem => closed (le mem), settled.bounded⟩

/-- Writing a logger that is settled leaves only its children open, and those only if its level
is a new one. -/
theorem SettledBut.write (tree : Tree s) (here : i < s.size)
    (settled : SettledBut s (insert i open')) (logger : Logger)
    (parent : logger.parent = (s.heap i).parent) (small : logger.loggerLevel < LOG_LEVEL_NOTSET)
    (own : logger.levelSet = false → logger.loggerLevel = s.due logger) :
    SettledBut (s.write i logger)
      ({c | c ∈ (s.heap i).children ∧ logger.loggerLevel ≠ (s.heap i).loggerLevel} ∪ open') := by
  constructor
  · intro j lt closed
    by_cases same : j = i
    · subst same
      intro unset
      simp only [write_self] at unset ⊢
      rw [own unset, due]
      cases above : logger.parent with
      | none => rfl
      | some p =>
        have lower := tree.parent_lt here (parent.symm.trans above)
        simp only [write_of_ne s _ (ne_of_lt lower)]
    · simp only [Settled, write_of_ne s _ same] at closed ⊢
      have was : Settled s j := by
        apply settled.settled j lt
        rintro (eq | mem)
        · exact absurd eq same
        · exact closed (.inr mem)
      intro unset
      rw [was unset]
      cases above : (s.heap j).parent with
      | none => rfl
      | some p =>
        by_cases at' : p = i
        · subst at'
          have child : j ∈ (s.heap p).children := (tree.children p here j).mpr ⟨lt, above⟩
          by_cases level : logger.loggerLevel = (s.heap p).loggerLevel
          · simp only [write_self, level]
          · simp only [closed (.inl ⟨child, level⟩), Bool.false_eq_true, if_false]
        · simp only [write_of_ne s _ at']
  · intro j lt
    by_cases same : j = i
    · subst same
      simpa using small
    · rw [write_of_ne s _ same]
      exact settled.bounded j lt

/-- With so many rounds, `setLevelByParent` settles any child of a logger. -/
def Settles (rounds size p level : Nat) : Prop :=
  ∀ (s : Loggers) (c : Nat) (open' : Set Nat), Tree s → s.size = size → p < c → c < size →
    (s.heap c).parent = some p → level = (s.heap p).loggerLevel → SettledBut s (insert c open') →
    LevelsFrom c s (s.setLevelByParent rounds c level) ∧
      SettledBut (s.setLevelByParent rounds c level) open'

/-- The loop over some children of a logger. -/
theorem foldl_settles {rounds p size : Nat} (each : Settles rounds size p level) :
    ∀ (cs : List Nat) (s : Loggers), Tree s → s.size = size →
      (∀ c ∈ cs, p < c ∧ c < size ∧ (s.heap c).parent = some p) →
      level = (s.heap p).loggerLevel → SettledBut s ({c | c ∈ cs} ∪ open') →
      LevelsFrom (p + 1) s (cs.foldl (fun s c => s.setLevelByParent rounds c level) s) ∧
        SettledBut (cs.foldl (fun s c => s.setLevelByParent rounds c level) s) open' := by
  intro cs
  induction cs with
  | nil =>
    intro s tree sized kin same settled
    refine ⟨.refl (p + 1) s, ?_⟩
    simpa using settled
  | cons c cs ih =>
    intro s tree sized kin same settled
    obtain ⟨lower, lt, parent⟩ := kin c mem_cons_self
    have first : SettledBut s (insert c ({c | c ∈ cs} ∪ open')) := by
      have sets : insert c ({c | c ∈ cs} ∪ open') = {d | d ∈ c :: cs} ∪ open' := by
        ext d
        simp [or_assoc]
      rwa [sets]
    obtain ⟨changed, settled'⟩ := each s c _ tree sized lower lt parent same first
    have kin' : ∀ d ∈ cs, p < d ∧ d < size ∧
        ((s.setLevelByParent rounds c level).heap d).parent = some p := by
      intro d mem
      rw [changed.parent]
      exact kin d (mem_cons_of_mem c mem)
    have same' : level = ((s.setLevelByParent rounds c level).heap p).loggerLevel := by
      rw [changed.before p lower]
      exact same
    obtain ⟨rest, done⟩ := ih _ (changed.tree tree) (changed.size.trans sized) kin' same' settled'
    exact ⟨(changed.mono lower).trans rest, done⟩

/-- `setLevelByParent` settles a logger and all below it, given the level of its parent and as many
rounds as there are loggers from it on. -/
theorem setLevelByParent_spec (rounds : Nat) :
    ∀ (s : Loggers) (i level p : Nat) (open' : Set Nat), Tree s → i < s.size → s.size - i ≤ rounds →
      (s.heap i).parent = some p → level = (s.heap p).loggerLevel →
      SettledBut s (insert i open') →
      LevelsFrom i s (s.setLevelByParent rounds i level) ∧
        SettledBut (s.setLevelByParent rounds i level) open' := by
  induction rounds with
  | zero =>
    intro s i level p open' _ here enough
    omega
  | succ rounds ih =>
    intro s i level p open' tree here enough parent same settled
    have lower := tree.parent_lt here parent
    have small : level < LOG_LEVEL_NOTSET := by
      rw [same]
      exact settled.bounded p (by omega)
    unfold setLevelByParent
    rw [if_neg (not_le.mpr (small.trans (by decide)))]
    split_ifs with stops notset
    · -- it does not inherit or has its own level, so that it was settled before
      refine ⟨.refl i s, ?_, settled.bounded⟩
      intro j lt closed
      by_cases at' : j = i
      · subst at'
        simp only [Bool.or_eq_true, Bool.not_eq_true'] at stops
        rcases stops with free | own
        · exact settled.settled j lt fun _ => free
        · intro unset
          exact nomatch own.symm.trans unset
      · apply settled.settled j lt
        rintro (eq | mem)
        · exact absurd eq at'
        · exact closed mem
    · exact absurd notset (ne_of_lt small)
    · simp only [Bool.or_eq_true, Bool.not_eq_true', not_or, Bool.not_eq_false,
        Bool.not_eq_true] at stops
      have levels := levelsFrom_write level stops.2
      have tree' : Tree (s.write i { s.heap i with loggerLevel := level }) := levels.tree tree
      have write : SettledBut (s.write i { s.heap i with loggerLevel := level })
          ({c | c ∈ (s.heap i).children} ∪ open') := by
        apply SettledBut.mono
          (settled.write tree here { s.heap i with loggerLevel := level } rfl small ?_)
        · exact Set.union_subset_union_left _ fun _ mem => mem.1
        · intro _
          simp only [due, parent, stops.1, if_true]
          exact same
      have each : Settles rounds s.size i level := by
        intro t c open' treeT sized lower lt
        exact ih t c level i open' treeT (by omega) (by omega)
      have kin : ∀ c ∈ (s.heap i).children, i < c ∧ c < s.size ∧
          ((s.write i { s.heap i with loggerLevel := level }).heap c).parent = some i := by
        intro c mem
        rw [levels.parent]
        exact tree.child here mem
      obtain ⟨changed, done⟩ := foldl_settles each (s.heap i).children _ tree' rfl kin (by simp) write
      exact ⟨levels.trans (changed.mono (Nat.le_succ i)), done⟩

/-- Whatever the levels were before, only levels change. -/
theorem levels_setLevelByParent (rounds : Nat) :
    ∀ (s : Loggers) (i level : Nat), LevelsFrom 0 s (s.setLevelByParent rounds i level) := by
  induction rounds with
  | zero => exact fun s _ _ => .refl 0 s
  | succ rounds ih =>
    intro s i level
    unfold setLevelByParent
    by_cases large : LOG_LEVEL_COUNT ≤ level
    · rw [if_pos large]
      exact .refl 0 s
    rw [if_neg large]
    by_cases stops : (!(s.heap i).inherit || (s.heap i).levelSet) = true
    · rw [if_pos stops]
      exact .refl 0 s
    rw [if_neg stops]
    simp only [Bool.or_eq_true, Bool.not_eq_true', not_or, Bool.not_eq_true] at stops
    exact foldlRecOn _ _ ((levelsFrom_write _ stops.2).mono (Nat.zero_le i))
      fun t changed c _ => changed.trans (ih t c _)

theorem levels_pushLevel (s : Loggers) (i level : Nat) : LevelsFrom 0 s (s.pushLevel i level) :=
  foldlRecOn _ _ (.refl 0 s) fun t changed c _ =>
    changed.trans (levels_setLevelByParent s.size t c level)

theorem pushLevel_spec (tree : Tree s) (here : i < s.size)
    (settled : SettledBut s {c | c ∈ (s.heap i).children}) :
    LevelsFrom (i + 1) s (s.pushLevel i (s.heap i).loggerLevel) ∧
      SettledBut (s.pushLevel i (s.heap i).loggerLevel) ∅ := by
  have each : Settles s.size s.size i (s.heap i).loggerLevel := by
    intro t c open' treeT sized _ lt
    exact setLevelByParent_spec s.size t c _ i open' treeT (by omega) (by omega)
  have kin : ∀ c ∈ (s.heap i).children, i < c ∧ c < s.size ∧ (s.heap c).parent = some i :=
    fun c mem => tree.child here mem
  exact foldl_settles each (s.heap i).children s tree rfl kin rfl (by simpa using settled)

/-! ### The operations -/

/-- What an operation on the logger at `i` leaves as it was. -/
structure Touches (i : Nat) (s s' : Loggers) : Prop where
  size : s'.size = s.size
  loggerMap : s'.loggerMap = s.loggerMap
  loggerName : ∀ j, (s'.heap j).loggerName = (s.heap j).loggerName
  parent : ∀ j, (s'.heap j).parent = (s.heap j).parent
  children : ∀ j, (s'.heap j).children = (s.heap j).children
  levelSet : ∀ j ≠ i, (s'.heap j).levelSet = (s.heap j).levelSet
  inherit : ∀ j ≠ i, (s'.heap j).inherit = (s.heap j).inherit
  own : ∀ j ≠ i, (s.heap j).levelSet = true → (s'.heap j).loggerLevel = (s.heap j).loggerLevel

theorem Touches.tree {s' : Loggers} (h : Touches i s s') (tree : Tree s) : Tree s' :=
  tree.congr h.size h.loggerMap h.loggerName h.parent h.children

/-- The logger has kept its place in the tree. -/
structure SamePlace (old new : Logger) : Prop where
  loggerName : new.loggerName = old.loggerName
  parent : new.parent = old.parent
  children : new.children = old.children

theorem touches_write {logger : Logger} (place : SamePlace (s.heap i) logger) :
    Touches i s (s.write i logger) := by
  have field {β : Type} (f : Logger → β) (same : f logger = f (s.heap i)) (j : Nat) :
      f ((s.write i logger).heap j) = f (s.heap j) := by
    by_cases at' : j = i
    · rw [at', write_self, same]
    · rw [write_of_ne s _ at']
  have other {j : Nat} (ne : j ≠ i) : (s.write i logger).heap j = s.heap j := write_of_ne s _ ne
  exact ⟨rfl, rfl, field _ place.loggerName, field _ place.parent, field _ place.children,
    fun j ne => by rw [other ne], fun j ne => by rw [other ne], fun j ne _ => by rw [other ne]⟩

theorem LevelsFrom.touches {t s' : Loggers} (h : Touches i s t) (pushed : LevelsFrom (i + 1) t s') :
    Touches i s s' where
  size := pushed.size.trans h.size
  loggerMap := pushed.loggerMap.trans h.loggerMap
  loggerName := fun j => (pushed.loggerName j).trans (h.loggerName j)
  parent := fun j => (pushed.parent j).trans (h.parent j)
  children := fun j => (pushed.children j).trans (h.children j)
  levelSet := fun j ne => (pushed.levelSet j).trans (h.levelSet j ne)
  inherit := fun j ne => (pushed.inherit j).trans (h.inherit j ne)
  own := by
    intro j ne set
    rw [pushed.own j ((h.levelSet j ne).trans set)]
    exact h.own j ne set

/-- A logger is written and its level is pushed down. -/
theorem write_push_spec (tree : Tree s) (here : i < s.size) (settled : SettledBut s ∅)
    (logger : Logger) (place : SamePlace (s.heap i) logger)
    (small : logger.loggerLevel < LOG_LEVEL_NOTSET)
    (own : logger.levelSet = false → logger.loggerLevel = s.due logger) :
    Touches i s ((s.write i logger).pushLevel i logger.loggerLevel) ∧
      SettledBut ((s.write i logger).pushLevel i logger.loggerLevel) ∅ ∧
      ((s.write i logger).pushLevel i logger.loggerLevel).heap i = logger := by
  have settled' : SettledBut (s.write i logger)
      {c | c ∈ ((s.write i logger).heap i).children} := by
    have open' := (settled.mono (Set.empty_subset (insert i ∅))).write tree here logger place.parent small own
    apply open'.mono
    rw [write_self, place.children, Set.union_empty]
    exact fun c mem => mem.1
  have touches := touches_write place
  obtain ⟨pushed, done⟩ := pushLevel_spec (touches.tree tree) here settled'
  rw [write_self] at pushed done
  refine ⟨pushed.touches touches, done, ?_⟩
  rw [pushed.before i (Nat.lt_succ_self i), write_self]

theorem setLevel_of_ge (s : Loggers) (i : Nat) (large : LOG_LEVEL_COUNT ≤ level) :
    s.setLevel i level = s := if_pos large

theorem levelFor_spec (tree : Tree s) (here : i < s.size) (settled : SettledBut s ∅)
    (valid : level < LOG_LEVEL_COUNT) :
    s.levelFor (s.heap i) level < LOG_LEVEL_NOTSET ∧
      (level ≠ LOG_LEVEL_NOTSET → s.levelFor (s.heap i) level = level) ∧
      (level = LOG_LEVEL_NOTSET → s.levelFor (s.heap i) level = s.due (s.heap i)) := by
  have info := info_lt_notset
  by_cases unset : level = LOG_LEVEL_NOTSET
  · subst unset
    unfold levelFor due
    cases above : (s.heap i).parent with
    | none => simp [info]
    | some p =>
      have small := settled.bounded p ((tree.parent_lt here above).trans here)
      cases inherits : (s.heap i).inherit with
      | false => simp [info]
      | true => simp [ne_of_lt small, small]
  · have small : level < LOG_LEVEL_NOTSET := lt_of_le_of_ne (Nat.le_of_lt_succ valid) unset
    have same : s.levelFor (s.heap i) level = level := by
      unfold levelFor
      cases (s.heap i).parent <;> simp [unset]
    exact ⟨by rw [same]; exact small, fun _ => same, fun eq => absurd eq unset⟩

theorem setLevel_spec (tree : Tree s) (here : i < s.size) (settled : SettledBut s ∅)
    (valid : level < LOG_LEVEL_COUNT) :
    Touches i s (s.setLevel i level) ∧ SettledBut (s.setLevel i level) ∅ ∧
      ((s.setLevel i level).heap i).inherit = (s.heap i).inherit ∧
      ((s.setLevel i level).heap i).levelSet = decide (level ≠ LOG_LEVEL_NOTSET) ∧
      (level ≠ LOG_LEVEL_NOTSET → ((s.setLevel i level).heap i).loggerLevel = level) := by
  obtain ⟨small, explicit, inherited⟩ := levelFor_spec tree here settled valid
  obtain ⟨touches, done, result⟩ := write_push_spec tree here settled
    { s.heap i with
      loggerLevel := s.levelFor (s.heap i) level, levelSet := decide (level ≠ LOG_LEVEL_NOTSET) }
    ⟨rfl, rfl, rfl⟩ small (fun unset => inherited (by simpa using unset))
  rw [setLevel, if_neg (not_le.mpr valid)]
  refine ⟨touches, done, ?_⟩
  rw [result]
  exact ⟨rfl, rfl, explicit⟩

section SetInheritFlag

variable (inherit : Bool)

theorem setInheritFlag_of_set (set : (s.heap i).levelSet = true) :
    s.setInheritFlag i inherit = some (s.write i { s.heap i with inherit }) := if_pos set

theorem setInheritFlag_true {p : Nat} (unset : (s.heap i).levelSet = false)
    (above : (s.heap i).parent = some p) :
    s.setInheritFlag i true = some (pushLevel
      (s.write i { s.heap i with inherit := true, loggerLevel := (s.heap p).loggerLevel }) i
        (s.heap p).loggerLevel) := by
  rw [setInheritFlag, if_neg (by simp [unset]), if_pos rfl]
  simp only [above]

theorem setInheritFlag_false (unset : (s.heap i).levelSet = false) :
    s.setInheritFlag i false = some (pushLevel
      (s.write i { s.heap i with inherit := false, loggerLevel := LOG_LEVEL_INFO }) i
        LOG_LEVEL_INFO) := by
  rw [setInheritFlag, if_neg (by simp [unset]), if_neg Bool.false_ne_true]

/-- A logger other than the root can be told whether to inherit. -/
theorem setInheritFlag_spec (tree : Tree s) (here : i < s.size) (settled : SettledBut s ∅)
    (child : i ≠ root) :
    ∃ s', s.setInheritFlag i inherit = some s' ∧ Touches i s s' ∧ SettledBut s' ∅ ∧
      (s'.heap i).inherit = inherit ∧ (s'.heap i).levelSet = (s.heap i).levelSet ∧
      ((s.heap i).levelSet = true → (s'.heap i).loggerLevel = (s.heap i).loggerLevel) := by
  cases set : (s.heap i).levelSet with
  | true =>
    have written := (settled.mono (Set.empty_subset (insert i ∅))).write tree here
      { s.heap i with inherit } rfl (settled.bounded i here)
      (fun unset => nomatch set.symm.trans unset)
    refine ⟨_, setInheritFlag_of_set inherit set, touches_write ⟨rfl, rfl, rfl⟩, ?_, ?_⟩
    · apply written.mono
      simp
    · simp [set]
  | false =>
    obtain ⟨p, above, lower⟩ := tree.parents i here child
    cases inherit with
    | true =>
      obtain ⟨touches, done, result⟩ := write_push_spec tree here settled
        { s.heap i with inherit := true, loggerLevel := (s.heap p).loggerLevel }
        ⟨rfl, rfl, rfl⟩ (settled.bounded p (lower.trans here)) (fun _ => by simp [due, above])
      refine ⟨_, setInheritFlag_true set above, touches, done, ?_⟩
      rw [result]
      exact ⟨rfl, set, nofun⟩
    | false =>
      obtain ⟨touches, done, result⟩ := write_push_spec tree here settled
        { s.heap i with inherit := false, loggerLevel := LOG_LEVEL_INFO }
        ⟨rfl, rfl, rfl⟩ info_lt_notset (fun _ => by simp [due, above])
      refine ⟨_, setInheritFlag_false set, touches, done, ?_⟩
      rw [result]
      exact ⟨rfl, set, nofun⟩

end SetInheritFlag

/-! ### The operations on any tree, settled or not -/

theorem tree_write (tree : Tree s) {logger : Logger} (place : SamePlace (s.heap i) logger) :
    Tree (s.write i logger) :=
  (touches_write place).tree tree

theorem tree_setLevel (tree : Tree s) (i level : Nat) : Tree (s.setLevel i level) := by
  by_cases valid : level < LOG_LEVEL_COUNT
  · rw [setLevel, if_neg (not_le.mpr valid)]
    exact (levels_pushLevel _ _ _).tree (tree_write tree ⟨rfl, rfl, rfl⟩)
  · rw [setLevel_of_ge s i (not_lt.mp valid)]
    exact tree

theorem levelSet_setLevel (s : Loggers) (i : Nat) (valid : level < LOG_LEVEL_COUNT) :
    ((s.setLevel i level).heap i).levelSet = decide (level ≠ LOG_LEVEL_NOTSET) := by
  rw [setLevel, if_neg (not_le.mpr valid), (levels_pushLevel _ _ _).levelSet, write_self]

theorem parent_setLevel (s : Loggers) (i level : Nat) :
    ((s.setLevel i level).heap i).parent = (s.heap i).parent := by
  by_cases valid : level < LOG_LEVEL_COUNT
  · rw [setLevel, if_neg (not_le.mpr valid), (levels_pushLevel _ _ _).parent, write_self]
  · rw [setLevel_of_ge s i (not_lt.mp valid)]

/-- A null `m_parent` is followed iff a logger without parent and without a level of its own is to
inherit. -/
theorem setInheritFlag_eq_none {inherit : Bool} : s.setInheritFlag i inherit = none ↔
    (s.heap i).levelSet = false ∧ inherit = true ∧ (s.heap i).parent = none := by
  cases set : (s.heap i).levelSet with
  | true => simp [setInheritFlag_of_set inherit set]
  | false =>
    cases inherit with
    | false => simp [setInheritFlag_false set]
    | true =>
      cases above : (s.heap i).parent with
      | some p => simp [setInheritFlag_true set above]
      | none =>
        rw [setInheritFlag, if_neg (by simp [set]), if_pos rfl]
        simp [above]

theorem tree_setInheritFlag (tree : Tree s) {inherit : Bool} {s' : Loggers}
    (moved : s.setInheritFlag i inherit = some s') : Tree s' := by
  cases set : (s.heap i).levelSet with
  | true =>
    rw [setInheritFlag_of_set inherit set] at moved
    cases moved
    exact tree_write tree ⟨rfl, rfl, rfl⟩
  | false =>
    cases inherit with
    | false =>
      rw [setInheritFlag_false set] at moved
      cases moved
      exact (levels_pushLevel _ _ _).tree (tree_write tree ⟨rfl, rfl, rfl⟩)
    | true =>
      cases above : (s.heap i).parent with
      | none => exact nomatch (setInheritFlag_eq_none.mpr ⟨set, rfl, above⟩).symm.trans moved
      | some p =>
        rw [setInheritFlag_true set above] at moved
        cases moved
        exact (levels_pushLevel _ _ _).tree (tree_write tree ⟨rfl, rfl, rfl⟩)

/-! ### Finding and making loggers -/

/-- Loggers are added, which inherit and have no level of their own. Of the others only the
children have changed. -/
structure Extends (s s' : Loggers) : Prop where
  size : s.size ≤ s'.size
  loggerMap : ∀ name i, s.loggerMap.lookup name = some i → s'.loggerMap.lookup name = some i
  old : ∀ i < s.size, ∃ children, s'.heap i = { s.heap i with children }
  new : ∀ i, s.size ≤ i → i < s'.size →
    (s'.heap i).levelSet = false ∧ (s'.heap i).inherit = true

theorem Extends.refl (s : Loggers) : Extends s s :=
  ⟨le_rfl, fun _ _ found => found, fun _ _ => ⟨_, rfl⟩, fun _ le lt => absurd lt (not_lt.mpr le)⟩

theorem Extends.trans {s s' s'' : Loggers} (h : Extends s s') (h' : Extends s' s'') :
    Extends s s'' := by
  refine ⟨h.size.trans h'.size, ?_, ?_, ?_⟩
  · exact fun name i found => h'.loggerMap name i (h.loggerMap name i found)
  · intro i lt
    obtain ⟨children, e⟩ := h.old i lt
    obtain ⟨children', e'⟩ := h'.old i (lt_of_lt_of_le lt h.size)
    exact ⟨children', by rw [e', e]⟩
  · intro i le lt
    by_cases early : i < s'.size
    · obtain ⟨_, e⟩ := h'.old i early
      rw [e]
      exact h.new i le early
    · exact h'.new i (not_lt.mp early) lt

/-- The logger that one of this name hangs under. -/
def Under (s : Loggers) (name : List UInt8) (parent : Nat) : Prop :=
  match parentName name with
  | none => parent = root
  | some up => s.loggerMap.lookup up = some parent

/-- A logger is made under its parent. -/
structure Made (s : Loggers) (name : List UInt8) (parent : Nat) (inherit : Bool) (s' : Loggers) :
    Prop where
  absent : name ∉ s.loggerMap
  under : s.Under name parent
  size : s'.size = s.size + 1
  lookup : ∀ other, s'.loggerMap.lookup other =
    if other = name then some s.size else s.loggerMap.lookup other
  old : ∀ i < s.size, s'.heap i = { s.heap i with
    children := (s.heap i).children ++ if i = parent then [s.size] else [] }
  new : s'.heap s.size = ⟨name, (s.heap parent).loggerLevel, false, some parent, [], inherit, ∅⟩

section Made

variable {name : List UInt8} {parent : Nat} {inherit : Bool} {s' : Loggers}

theorem Under.lt (under : s.Under name parent) (tree : Tree s) : parent < s.size := by
  unfold Under at under
  cases above : parentName name with
  | none =>
    rw [above] at under
    exact under ▸ tree.made
  | some up =>
    rw [above] at under
    exact ((tree.mapped up parent).mp under).1

theorem made_addLogger (tree : Tree s) (inherit : Bool) (absent : name ∉ s.loggerMap)
    (under : s.Under name parent) : Made s name parent inherit (s.addLogger name parent inherit) := by
  have below := under.lt tree
  refine ⟨absent, under, rfl, ?_, ?_, ?_⟩
  · intro other
    split_ifs with same
    · subst same
      exact lookup_emplace_self _ absent
    · exact lookup_emplace_ne _ same
  · intro i lt
    split_ifs with up
    · subst up
      simp only [addLogger, write, update_of_ne (ne_of_lt lt), update_self]
    · simp only [addLogger, write, update_of_ne (ne_of_lt lt), update_of_ne up, append_nil]
  · simp only [addLogger, write, update_of_ne (ne_of_gt below), update_self]

variable (made : Made s name parent inherit s')
include made

theorem Made.kept {other : List UInt8} {i : Nat} (found : s.loggerMap.lookup other = some i) :
    s'.loggerMap.lookup other = some i := by
  have ne : other ≠ name := by
    rintro rfl
    exact made.absent (mem_of_lookup found)
  rw [made.lookup, if_neg ne, found]

theorem Made.found {other : List UInt8} {i : Nat} (found : s'.loggerMap.lookup other = some i) :
    s.loggerMap.lookup other = some i ∨ other = name ∧ i = s.size := by
  rw [made.lookup] at found
  split_ifs at found with same
  · exact .inr ⟨same, (Option.some.inj found).symm⟩
  · exact .inl found

theorem Made.lt_or_eq {i : Nat} (lt : i < s'.size) : i < s.size ∨ i = s.size :=
  Nat.lt_succ_iff_lt_or_eq.mp (lt.trans_eq made.size)

theorem Made.extends (inherits : inherit = true) : Extends s s' := by
  refine ⟨made.size ▸ Nat.le_succ _, fun _ _ => made.kept, fun i lt => ⟨_, made.old i lt⟩, ?_⟩
  intro i le lt
  rw [(made.lt_or_eq lt).resolve_left (not_lt.mpr le), made.new]
  exact ⟨rfl, inherits⟩

theorem Made.tree (tree : Tree s) : Tree s' := by
  have below := made.under.lt tree
  have old {i : Nat} (lt : i < s.size) : (s'.heap i).parent = (s.heap i).parent ∧
      (s'.heap i).loggerName = (s.heap i).loggerName := by
    rw [made.old i lt]
    exact ⟨rfl, rfl⟩
  have grows {i : Nat} (lt : i < s.size) : i < s'.size := made.size ▸ Nat.lt_succ_of_lt lt
  have notRoot : s.size ≠ root := ne_of_gt tree.made
  -- the parent of every logger, the new one included, is one of the old ones
  have parent_lt {c p : Nat} (lt : c < s'.size) (above : (s'.heap c).parent = some p) :
      p < s.size := by
    rcases made.lt_or_eq lt with before | rfl
    · rw [(old before).1] at above
      exact (tree.parent_lt before above).trans before
    · rw [made.new] at above
      cases above
      exact below
  refine ⟨grows tree.made, ?_, ?_, ?_, ?_, ?_, ?_⟩
  · rw [(old tree.made).1]
    exact tree.orphan
  · intro i lt ne
    rcases made.lt_or_eq lt with before | rfl
    · rw [(old before).1]
      exact tree.parents i before ne
    · exact ⟨parent, by rw [made.new], below⟩
  · intro p lt c
    rcases made.lt_or_eq lt with before | rfl
    · rw [made.old p before, mem_append, tree.children p before c]
      constructor
      · rintro (⟨ltC, above⟩ | mem)
        · exact ⟨grows ltC, by rw [(old ltC).1, above]⟩
        · split_ifs at mem with up
          · rw [mem_singleton.mp mem, made.new, up, made.size]
            exact ⟨Nat.lt_succ_self _, rfl⟩
          · cases mem
      · rintro ⟨ltC, above⟩
        rcases made.lt_or_eq ltC with beforeC | rfl
        · exact .inl ⟨beforeC, by rw [← (old beforeC).1, above]⟩
        · rw [made.new] at above
          rw [if_pos (Option.some.inj above).symm]
          exact .inr (mem_singleton_self _)
    · rw [made.new]
      refine iff_of_false not_mem_nil ?_
      rintro ⟨ltC, above⟩
      exact absurd (parent_lt ltC above) (lt_irrefl _)
  · intro p lt
    rcases made.lt_or_eq lt with before | rfl
    · rw [made.old p before]
      split_ifs
      · have fresh : s.size ∉ (s.heap p).children := by
          intro mem
          exact absurd ((tree.children p before s.size).mp mem).1 (lt_irrefl _)
        exact (tree.nodup p before).append (nodup_singleton _) (by simpa using fresh)
      · rw [append_nil]
        exact tree.nodup p before
    · rw [made.new]
      exact nodup_nil
  · intro other i
    constructor
    · intro found
      rcases made.found found with found | ⟨rfl, rfl⟩
      · obtain ⟨before, ne, called⟩ := (tree.mapped other i).mp found
        exact ⟨grows before, ne, by rw [(old before).2, called]⟩
      · exact ⟨made.size ▸ Nat.lt_succ_self _, notRoot, by rw [made.new]⟩
    · rintro ⟨lt, ne, called⟩
      rcases made.lt_or_eq lt with before | rfl
      · rw [(old before).2] at called
        exact made.kept ((tree.mapped other i).mpr ⟨before, ne, called⟩)
      · rw [made.new] at called
        rw [made.lookup, if_pos called.symm]
  · intro i lt p above
    have kept {other : List UInt8} (own : s.Under other p) : s'.Under other p := by
      unfold Under at own ⊢
      cases up : parentName other with
      | none =>
        rw [up] at own
        exact own
      | some up' =>
        rw [up] at own
        exact made.kept own
    rcases made.lt_or_eq lt with before | rfl
    · rw [(old before).2]
      rw [(old before).1] at above
      exact kept (tree.named i before p above)
    · rw [made.new] at above ⊢
      cases above
      exact kept made.under

theorem Made.settled (inherits : inherit = true) (tree : Tree s) (settled : SettledBut s ∅) :
    SettledBut s' ∅ := by
  have below := made.under.lt tree
  have level {i : Nat} (lt : i < s.size) : (s'.heap i).loggerLevel = (s.heap i).loggerLevel := by
    rw [made.old i lt]
  constructor
  · intro i lt _ unset
    rcases made.lt_or_eq lt with before | rfl
    · rw [made.old i before] at unset ⊢
      have was := settled.settled i before (fun mem => absurd mem (Set.notMem_empty i)) unset
      simp only [was]
      cases above : (s.heap i).parent with
      | none => rfl
      | some p => simp only [level ((tree.parent_lt before above).trans before)]
    · simp only [made.new, inherits, if_true, level below]
  · intro i lt
    rcases made.lt_or_eq lt with before | rfl
    · rw [level before]
      exact settled.bounded i before
    · rw [made.new]
      exact settled.bounded parent below

end Made

/-- The name is that of a logger above another one. -/
def Above (up name : List UInt8) : Prop := up ++ [46] <+: name

/-- The arguments of `getLogger`. -/
abbrev Request := List UInt8 × Bool

/-- A logger is made for a request: it is the one that is asked for, or one above it, which
inherits. -/
def MadeFor (request : Request) (name : List UInt8) (inherit : Bool) : Prop :=
  name = request.1 ∧ inherit = request.2 ∨ Above name request.1 ∧ inherit = true

/-- `_getLogger` finds or makes the logger of a name, and makes those above it that are missing.
What making one of them preserves, it preserves. Their names are shorter, so that none of them is
mistaken for the one that was asked for. -/
theorem getLoggerIn_induction {P : Loggers → Prop} (tree : Tree s) (start : P s) (rounds : Nat) :
    ∀ (name : List UInt8) (inherit : Bool), name.length < rounds →
      (∀ t t' made parent inherits, Tree t → P t → Made t made parent inherits t' →
        MadeFor (name, inherit) made inherits → P t') →
      Tree (s.getLoggerIn rounds name inherit).2 ∧ P (s.getLoggerIn rounds name inherit).2 ∧
        (s.getLoggerIn rounds name inherit).2.loggerMap.lookup name =
          some (s.getLoggerIn rounds name inherit).1 ∧
        ∀ other ∈ (s.getLoggerIn rounds name inherit).2.loggerMap,
          other ∈ s.loggerMap ∨ other.length ≤ name.length := by
  induction rounds with
  | zero =>
    intro name inherit enough
    omega
  | succ rounds ih =>
    intro name inherit enough make
    -- the last one that is made is the one that was asked for
    have last (t : Loggers) (parent : Nat) (treeT : Tree t) (here : P t) (under : t.Under name parent)
        (absent : name ∉ t.loggerMap)
        (short : ∀ other ∈ t.loggerMap, other ∈ s.loggerMap ∨ other.length ≤ name.length) :
        Tree (t.addLogger name parent inherit) ∧ P (t.addLogger name parent inherit) ∧
          (t.addLogger name parent inherit).loggerMap.lookup name = some t.size ∧
          ∀ other ∈ (t.addLogger name parent inherit).loggerMap,
            other ∈ s.loggerMap ∨ other.length ≤ name.length := by
      have made := made_addLogger treeT inherit absent under
      refine ⟨made.tree treeT, make t _ name parent inherit treeT here made (.inl ⟨rfl, rfl⟩),
        lookup_emplace_self _ absent, ?_⟩
      intro other mem
      rcases mem_emplace.mp mem with old | rfl
      · exact short other old
      · exact .inr le_rfl
    unfold getLoggerIn
    cases found : s.loggerMap.lookup name with
    | some i => exact ⟨tree, start, found, fun _ mem => .inl mem⟩
    | none =>
      have absent : name ∉ s.loggerMap := AList.lookup_eq_none.mp found
      cases above : parentName name with
      | none => exact last s root tree start (by simp [Under, above]) absent fun _ mem => .inl mem
      | some up =>
        have shorter := length_parentName above
        obtain ⟨rest, split, -⟩ := parentName_eq_some.mp above
        have upper : Above up name := ⟨rest, by rw [split, append_assoc, singleton_append]⟩
        obtain ⟨tree', start', found', short⟩ := ih up true (by omega) (by
          intro t t' made parent inherits treeT here isMade for'
          apply make t t' made parent inherits treeT here isMade
          rcases for' with ⟨rfl, rfl⟩ | ⟨higher, rfl⟩
          · exact .inr ⟨upper, rfl⟩
          · exact .inr ⟨higher.trans ((prefix_append up [46]).trans upper), rfl⟩)
        refine last _ _ tree' start' (by simpa [Under, above] using found') ?_ fun other mem =>
          (short other mem).imp_right fun le => by omega
        intro mem
        rcases short name mem with old | le
        · exact absent old
        · omega

theorem getLogger_spec (tree : Tree s) (name : List UInt8) :
    Tree (s.getLogger name).2 ∧ (SettledBut s ∅ → SettledBut (s.getLogger name).2 ∅) ∧
      Extends s (s.getLogger name).2 ∧
      (s.getLogger name).2.loggerMap.lookup name = some (s.getLogger name).1 := by
  obtain ⟨tree', ⟨settled', grown⟩, found, -⟩ := getLoggerIn_induction
    (P := fun t => (SettledBut s ∅ → SettledBut t ∅) ∧ Extends s t) tree ⟨id, .refl s⟩
    (name.length + 1) name true (Nat.lt_succ_self _) (by
      rintro t t' _ _ inherit treeT ⟨settledT, grown⟩ made for'
      have inherits : inherit = true := by
        rcases for' with ⟨-, rfl⟩ | ⟨-, rfl⟩ <;> rfl
      exact ⟨fun settled => made.settled inherits treeT (settledT settled),
        grown.trans (made.extends inherits)⟩)
  exact ⟨tree', settled', grown, found⟩

end Loggers

end AgentEngine.Alog
