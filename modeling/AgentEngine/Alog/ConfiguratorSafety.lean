import AgentEngine.Alog.AppenderKeys

/-!
What can go wrong in a configuration, apart from the errors that are thrown.

The root logger goes through the same steps as the others. With no level of its own it is told to
inherit, unless a property says otherwise, and then asks its parent, which it does not have. The
other steps that are not guarded are the scan of a log pattern and the look-up of a home directory.

* `configureAt_cases`: a null parent is followed, or the outcome is one the callers expect.
* `configureLoggers_cases`: the same for the list of all loggers.
* `configure_safe_iff`: the texts that are configured or refused, and nothing else.
-/

namespace AgentEngine.Alog

open Lib Loggers

namespace StringUtil

theorem split_head {s : List UInt8} (delimiter : UInt8) (ne : s ≠ []) :
    ∃ rest, split s delimiter = s.takeWhile (· ≠ delimiter) :: rest := by
  by_cases mem : delimiter ∈ s
  · obtain ⟨part, rest, rfl, free⟩ := List.eq_append_cons_of_mem mem
    exact ⟨split rest delimiter, by rw [(cut_append free rest).1, split_part free rest]⟩
  · have whole : s.takeWhile (· ≠ delimiter) = s :=
      List.takeWhile_eq_self_iff.mpr fun c here => decide_eq_true fun e => mem (e ▸ here)
    exact ⟨[], by rw [whole, split_last mem ne]⟩

end StringUtil

namespace Configurator

/-- The level field of a logger's value is missing or empty. -/
def BlankLevel (value : List UInt8) : Prop := StringUtil.trim (value.takeWhile (· ≠ 44)) = []

instance (value : List UInt8) : Decidable (BlankLevel value) :=
  inferInstanceAs (Decidable (_ = []))

theorem levelField_blank (loggerName : List UInt8) {value : List UInt8} (blank : BlankLevel value) :
    levelField loggerName (StringUtil.split value 44) = .ok LOG_LEVEL_NOTSET := by
  by_cases empty : value = []
  · subst empty
    rfl
  · obtain ⟨rest, parts⟩ := StringUtil.split_head 44 empty
    rw [BlankLevel] at blank
    rw [parts, levelField, if_pos blank]

theorem levelField_given (loggerName : List UInt8) {value : List UInt8} (given : ¬ BlankLevel value) :
    (∃ level, levelField loggerName (StringUtil.split value 44) = .ok level ∧
      level < LOG_LEVEL_NOTSET) ∨
    ∃ what, levelField loggerName (StringUtil.split value 44) = .error (.runtimeError what) := by
  have ne : value ≠ [] := by
    rintro rfl
    exact given rfl
  obtain ⟨rest, parts⟩ := StringUtil.split_head 44 ne
  rw [BlankLevel] at given
  rw [parts, levelField, if_neg given]
  by_cases unknown :
      LOG_LEVEL_NOTSET ≤ getLevelByString (StringUtil.trim (value.takeWhile (· ≠ 44)))
  · exact .inr ⟨_, if_pos unknown⟩
  · exact .inl ⟨_, if_neg unknown, not_le.mp unknown⟩

/-- An outcome that the callers are prepared for. -/
def Sound (r : Except Failure Loggers) : Prop :=
  (∃ loggers, r = .ok loggers ∧ Loggers.Tree loggers) ∨ ∃ what, r = .error (.runtimeError what)

section Loggers

variable (loggerName : List UInt8) (allAppenders : UMap (List UInt8) Key) (p : Properties)
  {loggers : Loggers}

theorem sound_addAppenders (tree : Loggers.Tree loggers) (i : Nat) (tokens : List (List UInt8)) :
    Sound (addAppenders loggerName allAppenders i loggers tokens) := by
  induction tokens generalizing loggers with
  | nil => exact .inl ⟨loggers, rfl, tree⟩
  | cons token tokens ih =>
    unfold addAppenders
    cases allAppenders.lookup (StringUtil.trim token) with
    | none => exact .inr ⟨_, rfl⟩
    | some appender => exact ih (tree_write tree ⟨rfl, rfl, rfl⟩)

/-- What is done with a logger once it has been found. -/
def configureAt (value : List UInt8) (i : Nat) (loggers : Loggers) : Except Failure Loggers := do
  let tokens := StringUtil.split value 44
  let level ← levelField loggerName tokens
  let inherit := p.getBool (ascii "inherit." ++ loggerName) true
  match (loggers.setLevel i level).setInheritFlag i inherit with
  | none => .error .nullParent
  | some loggers => addAppenders loggerName allAppenders i (loggers.removeAllAppenders i) tokens.tail

/-- The logger asks for its parent's level, and has no parent. -/
def AsksParent (value : List UInt8) (i : Nat) (loggers : Loggers) : Prop :=
  BlankLevel value ∧ p.getBool (ascii "inherit." ++ loggerName) true = true ∧
    (loggers.heap i).parent = none

theorem configureAt_level (tree : Loggers.Tree loggers) (value : List UInt8) (i : Nat) {level : Nat}
    (read : levelField loggerName (StringUtil.split value 44) = .ok level)
    (valid : level < LOG_LEVEL_COUNT) :
    (Sound (configureAt loggerName allAppenders p value i loggers) ∧
      ¬ (level = LOG_LEVEL_NOTSET ∧ p.getBool (ascii "inherit." ++ loggerName) true = true ∧
        (loggers.heap i).parent = none)) ∨
    (configureAt loggerName allAppenders p value i loggers = .error .nullParent ∧
      level = LOG_LEVEL_NOTSET ∧ p.getBool (ascii "inherit." ++ loggerName) true = true ∧
        (loggers.heap i).parent = none) := by
  have unset := levelSet_setLevel loggers i valid
  have above := parent_setLevel loggers i level
  cases moved : (loggers.setLevel i level).setInheritFlag i
      (p.getBool (ascii "inherit." ++ loggerName) true) with
  | none =>
    obtain ⟨notset, inherits, orphan⟩ := setInheritFlag_eq_none.mp moved
    refine .inr ⟨?_, by simpa [unset] using notset, inherits, above ▸ orphan⟩
    simp only [configureAt, read, bind, Except.bind, moved]
  | some loggers' =>
    refine .inl ⟨?_, ?_⟩
    · have tree' := tree_setInheritFlag (tree_setLevel tree i level) moved
      have emptied : Loggers.Tree (loggers'.removeAllAppenders i) :=
        tree_write tree' ⟨rfl, rfl, rfl⟩
      simp only [configureAt, read, bind, Except.bind, moved]
      exact sound_addAppenders _ _ emptied _ _
    · rintro ⟨notset, inherits, orphan⟩
      have follows := setInheritFlag_eq_none.mpr
        ⟨unset.trans (decide_eq_false (not_not.mpr notset)), inherits, above.trans orphan⟩
      exact nomatch moved.symm.trans follows

theorem configureAt_cases (tree : Loggers.Tree loggers) (value : List UInt8) (i : Nat) :
    (Sound (configureAt loggerName allAppenders p value i loggers) ∧
      ¬ AsksParent loggerName p value i loggers) ∨
    (configureAt loggerName allAppenders p value i loggers = .error .nullParent ∧
      AsksParent loggerName p value i loggers) := by
  by_cases blank : BlankLevel value
  · have read := levelField_blank loggerName blank
    obtain ⟨sound, never⟩ | ⟨follows, -, asks⟩ :=
      configureAt_level loggerName allAppenders p tree value i read (by decide)
    · exact .inl ⟨sound, fun asks => never ⟨rfl, asks.2⟩⟩
    · exact .inr ⟨follows, blank, asks⟩
  · obtain ⟨level, read, valid⟩ | ⟨what, read⟩ := levelField_given loggerName blank
    · obtain ⟨sound, -⟩ | ⟨-, notset, -⟩ := configureAt_level loggerName allAppenders p tree value i
        read (valid.trans (by decide))
      · exact .inl ⟨sound, fun asks => blank asks.1⟩
      · exact absurd notset valid.ne
    · refine .inl ⟨.inr ⟨what, ?_⟩, fun asks => blank asks.1⟩
      simp only [configureAt, read, bind, Except.bind]

/-- The value of the root logger has no level, and the root is to inherit one. -/
def RootBlank : Prop :=
  ∃ value, p.find (ascii "rootLogger") = some value ∧ BlankLevel value ∧
    p.getBool (ascii "inherit.rootLogger") true = true

variable (tree : Loggers.Tree loggers)
include tree

theorem configureLogger_root :
    (Sound (configureLogger (ascii "rootLogger") allAppenders p loggers) ∧ ¬ RootBlank p) ∨
    (configureLogger (ascii "rootLogger") allAppenders p loggers = .error .nullParent ∧
      RootBlank p) := by
  cases found : p.find (ascii "rootLogger") with
  | none =>
    refine .inl ⟨.inl ⟨loggers, ?_, tree⟩, ?_⟩
    · unfold configureLogger
      simp [found]
    · rintro ⟨value, found', -⟩
      cases found.symm.trans found'
  | some value =>
    have step : configureLogger (ascii "rootLogger") allAppenders p loggers =
        configureAt (ascii "rootLogger") allAppenders p value root loggers := by
      unfold configureLogger
      simp only [decide_true, if_true, found]
      rfl
    rw [step]
    have asks_iff : AsksParent (ascii "rootLogger") p value root loggers ↔ RootBlank p := by
      simp only [AsksParent, RootBlank, found, tree.orphan, and_true, Option.some.injEq,
        exists_eq_left']
      rfl
    rw [← asks_iff]
    exact configureAt_cases _ allAppenders p tree value root

theorem sound_configureLogger (child : loggerName ≠ ascii "rootLogger") :
    Sound (configureLogger loggerName allAppenders p loggers) := by
  unfold configureLogger
  simp only [child, decide_false, Bool.false_eq_true, if_false]
  cases found : p.find (ascii "logger." ++ loggerName) with
  | none =>
    refine .inr ⟨_, if_neg ?_⟩
    simp [ascii]
  | some value =>
    obtain ⟨tree', -, -, mapped⟩ := getLogger_spec tree loggerName
    obtain ⟨here, below, -⟩ := (tree'.mapped _ _).mp mapped
    obtain ⟨up, parent, -⟩ := tree'.parents _ here below
    obtain ⟨sound, -⟩ | ⟨-, -, -, orphan⟩ :=
      configureAt_cases loggerName allAppenders p tree' value (loggers.getLogger loggerName).1
    · exact sound
    · exact nomatch parent.symm.trans orphan

variable {p}

theorem sound_configureLoggers (given : ¬ RootBlank p) (loggerList : List (List UInt8)) :
    Sound (configureLoggers allAppenders p loggers loggerList) := by
  induction loggerList generalizing loggers with
  | nil => exact .inl ⟨loggers, rfl, tree⟩
  | cons name loggerList ih =>
    have sound : Sound (configureLogger name allAppenders p loggers) := by
      by_cases root : name = ascii "rootLogger"
      · subst root
        exact ((configureLogger_root allAppenders p tree).resolve_right fun h => given h.2).1
      · exact sound_configureLogger name allAppenders p tree root
    obtain ⟨loggers', next, tree'⟩ | ⟨what, next⟩ := sound
    · simp only [configureLoggers, next, bind, Except.bind]
      exact ih tree'
    · simp only [configureLoggers, next, bind, Except.bind]
      exact .inr ⟨what, rfl⟩

variable (p)

/-- The root comes first, so that it decides for all of them. -/
theorem configureLoggers_cases :
    (Sound (configureLoggers allAppenders p loggers (initLoggers p)) ∧ ¬ RootBlank p) ∨
    (configureLoggers allAppenders p loggers (initLoggers p) = .error .nullParent ∧
      RootBlank p) := by
  by_cases blank : RootBlank p
  · obtain ⟨-, given⟩ | ⟨follows, -⟩ := configureLogger_root allAppenders p tree
    · exact absurd blank given
    · refine .inr ⟨?_, blank⟩
      simp only [initLoggers, configureLoggers, follows, bind, Except.bind]
  · exact .inl ⟨sound_configureLoggers allAppenders tree blank _, blank⟩

end Loggers

/-- The configuration completes, or it throws an error of the library. -/
def Safe {α : Type} (r : Except Failure α) : Prop :=
  (∃ a, r = .ok a) ∨ ∃ what, r = .error (.runtimeError what)

theorem globalInit_loggers (p : Properties) (sys : System) :
    (globalInit p sys).loggers = sys.loggers := by
  simp only [globalInit]
  split <;> rfl

theorem initAppenders_loggers {env : Environment} {p : Properties} {previous : List UInt8}
    {allAppenders : UMap (List UInt8) Key} {sys : System} {keys : List (List UInt8)}
    {result : UMap (List UInt8) Key × System}
    (done : initAppenders env p previous allAppenders sys keys = .ok result) :
    result.2.loggers = sys.loggers := by
  induction keys generalizing previous allAppenders sys with
  | nil =>
    cases done
    rfl
  | cons key keys ih =>
    obtain ⟨-, next⟩ | ⟨_, plan, -, -, -, -, -, -, next⟩ | ⟨-, -, f, -, next⟩ | ⟨-, -, what, next⟩ :=
      initAppenders_cons env p previous allAppenders sys key keys
    · exact ih (next.symm.trans done)
    · have same : (plan.apply sys).loggers = sys.loggers := by
        unfold AppenderPlan.apply
        rfl
      exact (ih (next.symm.trans done)).trans same
    · exact nomatch next.symm.trans done
    · exact nomatch next.symm.trans done

/-- A configuration goes wrong at an appender, which the keys before it do not keep the walk from,
whose log pattern is scanned over its end or whose file name asks for a home directory that nobody
knows; or, with all the appenders accepted, at a root logger that is given no level and is to
inherit one. -/
theorem configure_safe_iff (env : Environment) (fileContent : List UInt8) (sys : System)
    (tree : Loggers.Tree sys.loggers) :
    Safe (configureLoggerFromString env fileContent sys) ↔
      (∀ pre key post,
        appenderKeys (Properties.load env.getenv (cstr fileContent)) = pre ++ key :: post →
        Accepted env (Properties.load env.getenv (cstr fileContent)) [] pre →
        ¬ HazardAt env (Properties.load env.getenv (cstr fileContent)) (lastName [] pre) key) ∧
      (Accepted env (Properties.load env.getenv (cstr fileContent)) []
          (appenderKeys (Properties.load env.getenv (cstr fileContent))) →
        ¬ RootBlank (Properties.load env.getenv (cstr fileContent))) := by
  unfold configureLoggerFromString innerConfigureLogger initAllAppenders
  generalize Properties.load env.getenv (cstr fileContent) = p
  have used_iff : (∀ pre key post, appenderKeys p = pre ++ key :: post →
      Accepted env p [] pre → ¬ HazardAt env p (lastName [] pre) key) ↔
      ¬ ∃ f : Failure, f.Misuse ∧
        initAppenders env p [] ∅ (globalInit p sys) (appenderKeys p) = .error f := by
    rw [initAppenders_misuse]
    push Not
    rfl
  have accepted_iff :
      (∃ result, initAppenders env p [] ∅ (globalInit p sys) (appenderKeys p) = .ok result) ↔
        Accepted env p [] (appenderKeys p) := initAppenders_ok env p
  rw [used_iff, ← accepted_iff]
  cases walk : initAppenders env p [] ∅ (globalInit p sys) (appenderKeys p) with
  | error f =>
    simp only [bind, Except.bind]
    by_cases misuse : f.Misuse
    · refine iff_of_false ?_ fun h => h.1 ⟨f, misuse, rfl⟩
      rintro (⟨_, h⟩ | ⟨what, h⟩) <;> cases h
      exact misuse what rfl
    · obtain ⟨what, rfl⟩ := not_forall_not.mp misuse
      refine iff_of_true (.inr ⟨what, rfl⟩) ⟨?_, ?_⟩
      · rintro ⟨f, misuse', same⟩
        cases same
        exact misuse misuse'
      · rintro ⟨_, h⟩
        cases h
  | ok result =>
    have tree' : Loggers.Tree result.2.loggers := by
      rw [initAppenders_loggers walk, globalInit_loggers]
      exact tree
    have used : ¬ ∃ f : Failure, f.Misuse ∧ Except.ok result = .error f := by
      rintro ⟨f, -, h⟩
      cases h
    simp only [bind, Except.bind]
    obtain ⟨⟨loggers, done, -⟩ | ⟨what, refused⟩, given⟩ | ⟨follows, blank⟩ :=
      configureLoggers_cases result.1 p tree'
    · rw [done]
      exact iff_of_true (.inl ⟨_, rfl⟩) ⟨used, fun _ => given⟩
    · rw [refused]
      exact iff_of_true (.inr ⟨what, rfl⟩) ⟨used, fun _ => given⟩
    · rw [follows]
      refine iff_of_false ?_ fun h => h.2 ⟨result, rfl⟩ blank
      rintro (⟨_, h⟩ | ⟨_, h⟩) <;> cases h

/-- A text that gives the root and another logger a file with a pattern of its own. -/
def loggersText : List UInt8 :=
  ascii "appender.A=FileAppender\n" ++ ascii "appender.A.fileName=%p.log\n" ++
    ascii "appender.A.layout=PatternLayout\n" ++ ascii "appender.A.layout.LogPattern=%%m\n" ++
    ascii "rootLogger=INFO,A\n" ++ ascii "logger.x.y=,A\n"

/-- A process that has asked for a logger. -/
def askedSystem : System := { newSystem with loggers := (Loggers.start.getLogger (ascii "x")).2 }

theorem configure_safe_iff_sample :
    Loggers.Tree askedSystem.loggers ∧
      Safe (configureLoggerFromString plainEnvironment loggersText askedSystem) := by
  have tree : Loggers.Tree askedSystem.loggers := (Loggers.getLogger_spec tree_start (ascii "x")).1
  have keys : ∀ key ∈ appenderKeys (Properties.load plainEnvironment.getenv (cstr loggersText)),
      keyName key = some (ascii "A") := by
    decide +kernel
  have fileName : (Properties.load plainEnvironment.getenv (cstr loggersText)).getString
      (ascii "appender." ++ ascii "A" ++ ascii ".fileName") (ascii "default.log") = ascii "%p.log" := by
    decide +kernel
  have pattern : (Properties.load plainEnvironment.getenv (cstr loggersText)).find
      (ascii "appender." ++ ascii "A" ++ ascii ".layout.LogPattern") = some (ascii "%%m") := by
    decide +kernel
  have root : (Properties.load plainEnvironment.getenv (cstr loggersText)).find
      (ascii "rootLogger") = some (ascii "INFO,A") := by
    decide +kernel
  refine ⟨tree, (configure_safe_iff _ _ _ tree).mpr ⟨?_, ?_⟩⟩
  · rintro pre key post split - ⟨name, named, -, -, hazard⟩
    cases named.symm.trans (keys key (by simp [split]))
    obtain ⟨-, -, logPattern, -, -, found, ends⟩ | ⟨-, -, -, stops⟩ := hazard
    · cases pattern.symm.trans found
      exact absurd ends (by decide)
    · rw [fileName] at stops
      obtain ⟨home, -⟩ | ⟨-, none⟩ := stops
      · exact absurd home (by decide)
      · exact none
  · rintro - ⟨value, found, blank, -⟩
    cases root.symm.trans found
    exact absurd blank (by decide)

/-- A root logger without a level, a log pattern that is a single percent sign, and a file in the home
directory of nobody. -/
theorem root_without_level :
    configureLoggerFromString plainEnvironment (ascii "rootLogger=") newSystem =
      .error .nullParent ∧
    configureLoggerFromString plainEnvironment
      (ascii "appender.A=ConsoleAppender\n" ++ ascii "appender.A.layout=PatternLayout\n" ++
        ascii "appender.A.layout.LogPattern=%") newSystem = .error .outOfBounds ∧
    configureLoggerFromString plainEnvironment
      (ascii "appender.A=FileAppender\n" ++ ascii "appender.A.fileName=%~/a.log") newSystem =
        .error .nullPasswd :=
  ⟨rfl, rfl, rfl⟩

end Configurator

end AgentEngine.Alog
