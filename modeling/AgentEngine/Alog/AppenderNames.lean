import AgentEngine.Alog.AppenderKeys

/-!
Which sets of appenders are accepted, and what becomes of them.

The walk over the sorted keys takes a key with a third part as belonging to the name before it. The
keys of another name come between a definition and its properties if that name goes on with a
character below the dot.

* `accepted_of_undivided`, `undivided_of_accepted`: what the order of the keys has to be.
* `initAppenders_invariant`: the rule for what holds along the walk.
* `appenders_configured_iff`: the well-formed sets that are configured as they say.
-/

namespace AgentEngine.Alog.Configurator

open Lib List AppenderPlan StringUtil
open Option (getD_some isSome_iff_exists some)

/-! ### Keys of well-formed sets -/

/-- The key that defines an appender. -/
def definition (name : List UInt8) : List UInt8 := ascii "appender." ++ name

theorem definition_eq (name : List UInt8) : definition name = ascii "appender" ++ 46 :: name := rfl

section Keys

variable {name : List UInt8} (free : 46 ∉ name)

include free

theorem split_definition (ne : name ≠ []) :
    split (definition name) 46 = [ascii "appender", name] := by
  rw [definition_eq, split_part (by decide), split_last free ne]

theorem split_property (rest : List UInt8) :
    split (definition name ++ 46 :: rest) 46 =
      ascii "appender" :: name :: split rest 46 := by
  rw [definition_eq, append_assoc, cons_append, split_part (by decide),
    split_part free]

theorem keyName_definition (ne : name ≠ []) : keyName (definition name) = some name := by
  rw [keyName, split_definition free ne]
  rfl

theorem keyName_property (rest : List UInt8) :
    keyName (definition name ++ 46 :: rest) = some name := by
  rw [keyName, split_property free]
  rfl

theorem isDefinition_definition (ne : name ≠ []) : IsDefinition (definition name) := by
  rw [IsDefinition, split_definition free ne]
  exact le_refl 2

theorem isDefinition_property {rest : List UInt8} :
    IsDefinition (definition name ++ 46 :: rest) ↔ rest = [] := by
  have empty : split rest 46 = [] ↔ rest = [] := split_eq_nil
  rw [IsDefinition, split_property free, ← empty]
  simp

end Keys

variable {p : Properties}

theorem mem_appenderKeys {key : List UInt8} :
    key ∈ appenderKeys p ↔ (∃ value, p.find key = some value) ∧ ∃ name, key = definition name := by
  have inj : Function.Injective byteOrder := fun _ _ => byteOrder_inj.mp
  simp only [appenderKeys, mem_map, Properties.mem_group, SortedMap.find_eq_some inj]
  constructor
  · rintro ⟨e, ⟨mem, rest, begins⟩, rfl⟩
    exact ⟨⟨e.2, mem⟩, rest, begins⟩
  · rintro ⟨⟨value, mem⟩, name, begins⟩
    exact ⟨(key, value), ⟨mem, name, begins⟩, rfl⟩

theorem sorted_appenderKeys (p : Properties) :
    (appenderKeys p).Pairwise fun key key' => byteOrder key < byteOrder key' := by
  rw [appenderKeys, pairwise_map]
  exact p.sorted.filter _

/-- Every key names an appender or a property of one that is named, and the types of the appenders
and of their layouts are known. -/
structure WellFormed (p : Properties) : Prop where
  keys : ∀ key ∈ appenderKeys p, ∃ name ≠ [], 46 ∉ name ∧ definition name ∈ appenderKeys p ∧
    (key = definition name ∨ ∃ rest, key = definition name ++ 46 :: rest)
  types : ∀ name value, 46 ∉ name → p.find (definition name) = some value →
    (appenderType value).isSome
  layouts : ∀ name value, 46 ∉ name → p.find (definition name ++ ascii ".layout") = some value →
    (layoutType value).isSome

/-- The properties define an appender of this name. -/
def IsName (p : Properties) (name : List UInt8) : Prop :=
  name ≠ [] ∧ 46 ∉ name ∧ definition name ∈ appenderKeys p

theorem WellFormed.keyName_of_mem (wf : WellFormed p) {key : List UInt8}
    (mem : key ∈ appenderKeys p) : ∃ name, keyName key = some name ∧ IsName p name := by
  obtain ⟨name, ne, free, defined, rfl | ⟨rest, rfl⟩⟩ := wf.keys key mem
  · exact ⟨name, keyName_definition free ne, ne, free, defined⟩
  · exact ⟨name, keyName_property free rest, ne, free, defined⟩

/-! ### The order of the keys -/

/-- No key comes between the definition of an appender and its properties. -/
def Undivided (p : Properties) : Prop :=
  ∀ name rest, 46 ∉ name → rest ≠ [] → definition name ++ 46 :: rest ∈ appenderKeys p →
    definition name ++ [46] ∈ appenderKeys p ∨
    ∀ c t, c < 46 → definition name ++ c :: t ∉ appenderKeys p

theorem lastName_append_singleton (previous key : List UInt8) (keys : List (List UInt8)) :
    lastName previous (keys ++ [key]) = (keyName key).getD (lastName previous keys) := by
  simp [lastName, foldl_append]

/-- Before a key comes the largest of the smaller ones. -/
theorem exists_last {keys pre post : List (List UInt8)} {key low : List UInt8}
    (sorted : keys.Pairwise fun key key' => byteOrder key < byteOrder key')
    (split : keys = pre ++ key :: post) (mem : low ∈ keys) (lt : byteOrder low < byteOrder key) :
    ∃ init last, pre = init ++ [last] ∧ byteOrder last < byteOrder key ∧
      ∀ k ∈ keys, byteOrder k < byteOrder key → byteOrder k ≤ byteOrder last := by
  subst split
  obtain ⟨sortedPre, sortedPost, between⟩ := pairwise_append.mp sorted
  obtain ⟨behind, -⟩ := pairwise_cons.mp sortedPost
  have before {k : List UInt8} (mem : k ∈ pre ++ key :: post) (lt : byteOrder k < byteOrder key) :
      k ∈ pre := by
    rcases mem_append.mp mem with here | here
    · exact here
    · rcases mem_cons.mp here with rfl | later
      · exact absurd lt (lt_irrefl _)
      · exact absurd lt (lt_asymm (behind k later))
  obtain rfl | ⟨init, last, rfl⟩ := eq_nil_or_concat pre
  · exact absurd (before mem lt) not_mem_nil
  · rw [concat_eq_append] at *
    refine ⟨init, last, rfl, between last (by simp) key (by simp), ?_⟩
    intro k mem' lt'
    rcases mem_append.mp (before mem' lt') with earlier | here
    · exact ((pairwise_append.mp sortedPre).2.2 k earlier last (by simp)).le
    · rw [mem_singleton.mp here]

theorem exists_first {α : Type} {l : List α} {a : α} (P : α → Prop) [DecidablePred P] (mem : a ∈ l)
    (here : P a) : ∃ pre b post, l = pre ++ b :: post ∧ P b ∧ ∀ c ∈ pre, ¬ P c := by
  have found : (l.find? fun b => decide (P b)).isSome :=
    find?_isSome.mpr ⟨a, mem, decide_eq_true here⟩
  obtain ⟨b, first⟩ := isSome_iff_exists.mp found
  obtain ⟨holds, pre, post, split, earlier⟩ := find?_eq_some_iff_append.mp first
  refine ⟨pre, b, post, split, of_decide_eq_true holds, ?_⟩
  intro c mem' holds'
  simpa [holds'] using earlier c mem'

/-- What lies between a definition and a property, and sorts as the name does. -/
theorem between_property {name rest key : List UInt8} (low : byteOrder (definition name) ≤ byteOrder key)
    (high : byteOrder key < byteOrder (definition name ++ 46 :: rest)) :
    key = definition name ∨ (∃ more, key = definition name ++ 46 :: more) ∨
      ∃ c t, c < 46 ∧ key = definition name ++ c :: t := by
  obtain ⟨more, rfl⟩ := exists_append_of_between low high
  rw [byteOrder_append_lt] at high
  cases more with
  | nil => exact .inl (append_nil _)
  | cons c t =>
    rcases byteOrder_cons_lt.mp high with below | ⟨rfl, -⟩
    · exact .inr (.inr ⟨c, t, below, rfl⟩)
    · exact .inr (.inl ⟨t, rfl⟩)

theorem lt_definition_append (name : List UInt8) {more : List UInt8} (ne : more ≠ []) :
    byteOrder (definition name) < byteOrder (definition name ++ more) := by
  have below : byteOrder (definition name ++ []) < byteOrder (definition name ++ more) :=
    byteOrder_append_lt.mpr (byteOrder_nil_lt ne)
  rwa [append_nil] at below

variable {env : Environment}

theorem accepted_of_undivided (wf : WellFormed p) (undivided : Undivided p)
    (defined : ∀ name, IsName p name → Defined env p name ∧ ¬ OpenPattern p name) :
    Accepted env p [] (appenderKeys p) := by
  rw [accepted_iff]
  intro pre key post split
  have mem : key ∈ appenderKeys p := by
    rw [split]
    exact mem_append_right _ mem_cons_self
  obtain ⟨name, ne, free, named, rfl | ⟨rest, rfl⟩⟩ := wf.keys key mem
  · exact ⟨name, keyName_definition free ne,
      .inr ⟨isDefinition_definition free ne, defined name ⟨ne, free, named⟩⟩⟩
  refine ⟨name, keyName_property free rest, ?_⟩
  by_cases empty : rest = []
  · exact .inr ⟨(isDefinition_property free).mpr empty, defined name ⟨ne, free, named⟩⟩
  -- the key before this one lies behind the definition
  left
  obtain ⟨init, last, rfl, lt, largest⟩ := exists_last (sorted_appenderKeys p) split named
    (lt_definition_append name (cons_ne_nil _ _))
  have lastMem : last ∈ appenderKeys p := by simp [split]
  have above := largest _ named (lt_definition_append name (cons_ne_nil _ _))
  rw [lastName_append_singleton]
  obtain rfl | ⟨more, rfl⟩ | ⟨c, t, below, rfl⟩ := between_property above lt
  · rw [keyName_definition free ne]
    rfl
  · rw [keyName_property free]
    rfl
  · rcases undivided name rest free empty mem with dotted | none
    · have later := largest _ dotted
        (byteOrder_append_lt.mpr (byteOrder_cons_lt.mpr (.inr ⟨rfl, byteOrder_nil_lt empty⟩)))
      rw [← not_lt, byteOrder_append_lt, byteOrder_cons_lt] at later
      exact absurd (.inl below) later
    · exact absurd lastMem (none c t below)

theorem undivided_of_accepted (wf : WellFormed p) (accepted : Accepted env p [] (appenderKeys p)) :
    Undivided p := by
  rw [accepted_iff] at accepted
  intro name rest free ne mem
  by_contra! divided
  obtain ⟨dotless, c, t, below, other⟩ := divided
  have dotted_le (more : List UInt8) :
      byteOrder (definition name ++ [46]) ≤ byteOrder (definition name ++ 46 :: more) := by
    rw [← not_lt, byteOrder_append_lt, byteOrder_cons_lt]
    simp [byteOrder]
  -- the first key that is not below the name and a dot
  obtain ⟨pre, key, post, split, low, smaller⟩ :=
    exists_first (fun k => byteOrder (definition name ++ [46]) ≤ byteOrder k) mem (dotted_le rest)
  have le : byteOrder key ≤ byteOrder (definition name ++ 46 :: rest) := by
    have sorted := sorted_appenderKeys p
    rw [split] at mem sorted
    rcases mem_append.mp mem with earlier | here
    · exact absurd (dotted_le rest) (smaller _ earlier)
    · rcases mem_cons.mp here with rfl | later
      · exact le_rfl
      · exact ((pairwise_cons.mp (pairwise_append.mp sorted).2.1).1 _ later).le
  obtain ⟨more, rfl⟩ : ∃ more, key = definition name ++ 46 :: more := by
    rcases le.eq_or_lt with same | lt
    · exact ⟨rest, byteOrder_inj.mp same⟩
    · have behind := (lt_definition_append name (cons_ne_nil 46 [])).trans_le low
      obtain rfl | dotted | ⟨d, u, less, rfl⟩ := between_property behind.le lt
      · exact absurd behind (lt_irrefl _)
      · exact dotted
      · exact absurd (byteOrder_append_lt.mpr (byteOrder_cons_lt.mpr (.inl less))) (not_lt.mpr low)
  have keyMem : definition name ++ 46 :: more ∈ appenderKeys p := by simp [split]
  have long : more ≠ [] := by
    rintro rfl
    exact dotless keyMem
  -- it belongs to the name before it, which must be this one
  obtain ⟨name', named, same | ⟨defines, -⟩⟩ := accepted pre _ post split
  swap
  · exact long ((isDefinition_property free).mp defines)
  rw [keyName_property free, some.injEq] at named
  subst named
  have before : byteOrder (definition name ++ c :: t) < byteOrder (definition name ++ 46 :: more) :=
    byteOrder_append_lt.mpr (byteOrder_cons_lt.mpr (.inl below))
  obtain ⟨init, last, rfl, -, largest⟩ := exists_last (sorted_appenderKeys p) split other before
  have lastMem : last ∈ appenderKeys p := by simp [split]
  rw [lastName_append_singleton] at same
  have above := largest _ other before
  obtain ⟨lastName', ne', free', -, rfl | ⟨rest', rfl⟩⟩ := wf.keys last lastMem
  · rw [keyName_definition free' ne', getD_some] at same
    subst same
    exact absurd (lt_definition_append name (cons_ne_nil c t)) (not_lt.mpr above)
  · rw [keyName_property free', getD_some] at same
    subst same
    exact smaller _ (by simp) (dotted_le rest')

/-! ### What the properties ask for -/

section Asking

variable (env : Environment) (p : Properties) (name : List UInt8)

/-- The text of a property of an appender. -/
def setting (suffix default : String) : List UInt8 :=
  (p.find (definition name ++ ascii suffix)).getD (ascii default)

/-- The definition of the appender ends with a type. -/
def Typed (type : String) : Prop :=
  ∃ value, p.find (definition name) = some value ∧ afterLastDot value = ascii type

/-- Which appender a name leads to. -/
def AsksKey : Key → Prop
  | .console => Typed p name "ConsoleAppender"
  | .file fileName => Typed p name "FileAppender" ∧
      transformPattern env (setting p name ".fileName" "default.log") = .ok fileName
  | .syslog ident => Typed p name "SyslogAppender" ∧ ident = setting p name ".ident" "syslog"
  | .pipe fileName => Typed p name "PipeAppender" ∧
      fileName = setting p name ".fileName" "default.log"

/-- How the file of an appender is written, rotated and flushed. -/
structure AsksFile (file : FileSettings) : Prop where
  maxSize : file.maxSize = (atoi (setting p name ".max_file_size" "0")).toNat * 2 ^ 20
  maxDelayTime : file.maxDelayTime = translateDelayTime (setting p name ".delay_time" "0")
  compress : file.compress = true ↔ setting p name ".compress" "false" = ascii "true"
  cacheLimit : file.cacheLimit = (atoi (setting p name ".cache_limit" "0")).toNat * 2 ^ 20
  keepFileCount : file.keepFileCount = atoi (setting p name ".log_keep_count" "0")
  asyncFlush : file.asyncFlush = true ↔ setting p name ".async_flush" "true" = ascii "true" ∧
    setting p name ".flush" "false" ≠ ascii "true"
  flushThreshold : file.flushThreshold =
    if atoi (setting p name ".flush_threshold" "1024") = 0 then 1024
    else atoi (setting p name ".flush_threshold" "1024") * 1024
  flushInterval : file.flushInterval =
    if atoi (setting p name ".flush_interval" "1000") = 0 then 1000
    else atoi (setting p name ".flush_interval" "1000")

/-- Which layout an appender is given, if any. -/
def AsksLayout : Option Layout → Prop
  | none => p.find (definition name ++ ascii ".layout") = none
  | some layout =>
      ∃ value, p.find (definition name ++ ascii ".layout") = some value ∧
        match layout with
        | .basic => afterLastDot value = ascii "BasicLayout"
        | .simple => afterLastDot value = ascii "SimpleLayout"
        | .binary => afterLastDot value = ascii "BinaryLayout"
        | .pattern components => afterLastDot value = ascii "PatternLayout" ∧
            setLogPattern (setting p name ".layout.LogPattern" "%%d %%l %%c (%%p/%%t) : %%m") =
              some components

/-- What the properties of a name ask for, property by property. -/
structure Asked (plan : AppenderPlan) : Prop where
  key : AsksKey env p name plan.key
  autoFlush : plan.autoFlush =
    match plan.key with
    | .console => some (setting p name ".flush" "true" = ascii "true")
    | .file _ => some (setting p name ".flush" "false" = ascii "true")
    | _ => none
  file :
    match plan.key with
    | .file _ => ∃ file, plan.file = some file ∧ AsksFile p name file
    | _ => plan.file = none
  facility : plan.facility =
    match plan.key with
    | .syslog _ => atoi (setting p name ".facility" "1") <<< 3
    | _ => 0
  layout : AsksLayout p name plan.layout

variable {p name}

theorem getInt_eq_setting {suffix : String} {defaultValue : BitVec 32} (default : String)
    (same : atoi (ascii default) = defaultValue) :
    p.getInt (definition name ++ ascii suffix) defaultValue = atoi (setting p name suffix default) := by
  unfold Properties.getInt setting
  cases p.find (definition name ++ ascii suffix) with
  | none => exact same.symm
  | some value => rfl

theorem getBool_eq_setting {suffix : String} {defaultValue : Bool} (default : String)
    (same : decide (ascii default = ascii "true") = defaultValue) :
    p.getBool (definition name ++ ascii suffix) defaultValue =
      decide (setting p name suffix default = ascii "true") := by
  unfold Properties.getBool setting
  cases p.find (definition name ++ ascii suffix) with
  | none => exact same.symm
  | some value => rfl

theorem asksFile_iff {file : FileSettings} :
    AsksFile p name file ↔ fileSettings p (definition name) = file := by
  have settings : AsksFile p name (fileSettings p (definition name)) := by
    constructor <;> dsimp only [fileSettings]
    · rw [getInt_eq_setting "0" (by decide), mul_assoc]
      rfl
    · rfl
    · rw [getBool_eq_setting "false" (by decide), decide_eq_true_iff]
    · rw [getInt_eq_setting "0" (by decide), mul_assoc]
      rfl
    · rw [getInt_eq_setting "0" (by decide)]
    · rw [getBool_eq_setting "true" (by decide),
        getBool_eq_setting "false" (by decide)]
      simp
    · rw [getInt_eq_setting "1024" (by decide)]
      rfl
    · rw [getInt_eq_setting "1000" (by decide)]
      rfl
  constructor
  · intro asks
    cases file
    cases same : fileSettings p (definition name)
    rw [same] at settings
    congr
    · exact settings.maxSize.trans asks.maxSize.symm
    · exact settings.maxDelayTime.trans asks.maxDelayTime.symm
    · exact Bool.eq_iff_iff.mpr (settings.compress.trans asks.compress.symm)
    · exact settings.cacheLimit.trans asks.cacheLimit.symm
    · exact settings.keepFileCount.trans asks.keepFileCount.symm
    · exact Bool.eq_iff_iff.mpr (settings.asyncFlush.trans asks.asyncFlush.symm)
    · exact settings.flushThreshold.trans asks.flushThreshold.symm
    · exact settings.flushInterval.trans asks.flushInterval.symm
  · rintro rfl
    exact settings

def layoutName : LayoutType → String
  | .basicLayout => "BasicLayout"
  | .simpleLayout => "SimpleLayout"
  | .binaryLayout => "BinaryLayout"
  | .patternLayout => "PatternLayout"

def typeName : AppenderType → String
  | .consoleAppender => "ConsoleAppender"
  | .fileAppender => "FileAppender"
  | .syslogAppender => "SyslogAppender"
  | .pipeAppender => "PipeAppender"

variable {value : List UInt8}

theorem layoutType_eq_some {type : LayoutType} :
    layoutType value = some type ↔ afterLastDot value = ascii (layoutName type) := by
  constructor
  · intro h
    simp only [layoutType] at h
    split_ifs at h <;> cases h <;> assumption
  · intro h
    simp only [layoutType, h]
    cases type <;> decide

theorem appenderType_eq_some {type : AppenderType} :
    appenderType value = some type ↔ afterLastDot value = ascii (typeName type) := by
  constructor
  · intro h
    simp only [appenderType] at h
    split_ifs at h <;> cases h <;> assumption
  · intro h
    simp only [appenderType, h]
    cases type <;> decide

theorem asksLayout_iff {layout : Option Layout} :
    AsksLayout p name layout ↔ layoutFor p name = .ok layout := by
  have standard : setLogPattern (ascii "%%d %%l %%c (%%p/%%t) : %%m") = some defaultPattern := by
    decide
  unfold layoutFor
  cases named : p.find (ascii "appender." ++ name ++ ascii ".layout") with
  | none =>
    cases layout with
    | none => exact iff_of_true named rfl
    | some layout =>
      refine iff_of_false ?_ nofun
      rintro ⟨value, found, -⟩
      cases named.symm.trans found
  | some value =>
    have found_iff {P : List UInt8 → Prop} : (∃ value', p.find (definition name ++ ascii ".layout") =
        some value' ∧ P value') ↔ P value := by
      rw [show p.find (definition name ++ ascii ".layout") = some value from named]
      simp
    cases layout with
    | none =>
      refine iff_of_false ?_ ?_
      · intro none
        cases named.symm.trans none
      · dsimp only
        repeat' split
        all_goals nofun
    | some layout =>
      have typed (type : LayoutType) : afterLastDot value = ascii (layoutName type) ↔
          layoutType value = some type := layoutType_eq_some.symm
      have basic : afterLastDot value = ascii "BasicLayout" ↔ _ := typed .basicLayout
      have simple : afterLastDot value = ascii "SimpleLayout" ↔ _ := typed .simpleLayout
      have binary : afterLastDot value = ascii "BinaryLayout" ↔ _ := typed .binaryLayout
      have pattern : afterLastDot value = ascii "PatternLayout" ↔ _ := typed .patternLayout
      simp only [AsksLayout, found_iff, basic, simple, binary, pattern]
      cases layoutType value with
      | none => cases layout <;> simp
      | some kind =>
        cases kind with
        | basicLayout | simpleLayout | binaryLayout => cases layout <;> simp
        | patternLayout =>
          unfold setting definition
          cases p.find (ascii "appender." ++ name ++ ascii ".layout.LogPattern") with
          | none =>
            simp only [Option.getD_none, standard]
            cases layout <;> simp
          | some logPattern =>
            simp only [Option.getD_some]
            cases setLogPattern logPattern <;> cases layout <;> simp

variable {env} {plan : AppenderPlan}

theorem readAppender_eq_ok :
    readAppender env p name = .ok plan ↔ ∃ value type plan₀ layout,
      p.find (definition name) = some value ∧ afterLastDot value = ascii (typeName type) ∧
      appenderPlan env p (definition name) type = .ok plan₀ ∧ AsksLayout p name layout ∧
      plan = { plan₀ with layout } := by
  simp only [← appenderType_eq_some, asksLayout_iff]
  unfold readAppender definition
  constructor
  · intro read
    cases named : p.find (ascii "appender." ++ name) with
    | none =>
      simp only [named] at read
      cases read
    | some value =>
      simp only [named] at read
      cases type : appenderType value with
      | none =>
        simp only [type] at read
        cases read
      | some kind =>
        simp only [type] at read
        cases planned : appenderPlan env p (ascii "appender." ++ name) kind with
        | error f =>
          rw [planned] at read
          cases read
        | ok plan₀ =>
          cases made : layoutFor p name with
          | error f =>
            rw [planned, made] at read
            cases read
          | ok layout =>
            rw [planned, made] at read
            cases read
            exact ⟨value, kind, plan₀, layout, rfl, type, planned, rfl, rfl⟩
  · rintro ⟨value, type, plan₀, layout, named, typed, planned, made, rfl⟩
    simp only [named, typed, planned, made]
    rfl

/-- The reader of the source reads what is asked for. -/
theorem asked_iff : readAppender env p name = .ok plan ↔ Asked env p name plan := by
  rw [readAppender_eq_ok]
  constructor
  · rintro ⟨value, type, plan₀, layout, named, typed, planned, asks, rfl⟩
    cases type with
    | consoleAppender =>
      cases planned
      exact ⟨⟨value, named, typed⟩, by rw [getBool_eq_setting "true" (by decide)], rfl, rfl, asks⟩
    | syslogAppender =>
      cases planned
      refine ⟨⟨⟨value, named, typed⟩, rfl⟩, rfl, rfl, ?_, asks⟩
      rw [getInt_eq_setting "1" (by decide)]
    | pipeAppender =>
      cases planned
      exact ⟨⟨⟨value, named, typed⟩, rfl⟩, rfl, rfl, rfl, asks⟩
    | fileAppender =>
      unfold appenderPlan at planned
      cases expanded : transformPattern env
          (p.getString (definition name ++ ascii ".fileName") (ascii "default.log")) with
      | error f =>
        rw [expanded] at planned
        cases planned
      | ok fileName =>
        rw [expanded] at planned
        cases planned
        exact ⟨⟨⟨value, named, typed⟩, expanded⟩, by rw [getBool_eq_setting "false" (by decide)],
          ⟨_, rfl, asksFile_iff.mpr rfl⟩, rfl, asks⟩
  · rintro ⟨key, flushes, filed, facility, asks⟩
    obtain ⟨k, fac, flush, file, layout⟩ := plan
    cases k with
    | console =>
      obtain ⟨value, named, typed⟩ := key
      refine ⟨value, .consoleAppender, _, layout, named, typed, rfl, asks, ?_⟩
      simp only at flushes filed facility
      rw [getBool_eq_setting "true" (by decide), flushes, filed, facility]
    | syslog ident =>
      obtain ⟨⟨value, named, typed⟩, rfl⟩ := key
      refine ⟨value, .syslogAppender, _, layout, named, typed, rfl, asks, ?_⟩
      simp only at flushes filed facility
      rw [getInt_eq_setting "1" (by decide), flushes, filed, facility]
      rfl
    | pipe fileName =>
      obtain ⟨⟨value, named, typed⟩, rfl⟩ := key
      refine ⟨value, .pipeAppender, _, layout, named, typed, rfl, asks, ?_⟩
      simp only at flushes filed facility
      rw [flushes, filed, facility]
      rfl
    | file fileName =>
      obtain ⟨⟨value, named, typed⟩, expanded⟩ := key
      obtain ⟨file', filed, asksFile⟩ := filed
      obtain rfl := asksFile_iff.mp asksFile
      have planned : appenderPlan env p (definition name) .fileAppender = .ok ⟨.file fileName, 0,
          some (p.getBool (definition name ++ ascii ".flush") false),
          some (fileSettings p (definition name)), none⟩ := by
        unfold setting at expanded
        rw [appenderPlan, Properties.getString, expanded]
        rfl
      refine ⟨value, .fileAppender, _, layout, named, typed, planned, asks, ?_⟩
      simp only at flushes filed facility
      rw [getBool_eq_setting "false" (by decide), flushes, filed, facility]

theorem Asked.unique {plan' : AppenderPlan} (asks : Asked env p name plan)
    (asks' : Asked env p name plan') : plan = plan' :=
  Except.ok.inj ((asked_iff.mpr asks).symm.trans (asked_iff.mpr asks'))

end Asking

/-! ### What holds along the walk -/

variable {result : UMap (List UInt8) Key × System} {allAppenders : UMap (List UInt8) Key}
  {sys : System} {keys : List (List UInt8)}

/-- A property of the keys that have been seen, the last name, the appenders that are named and the
system, which every step keeps, holds at the end. -/
theorem initAppenders_invariant
    (I : List (List UInt8) → List UInt8 → UMap (List UInt8) Key → System → Prop)
    (seen : List (List UInt8)) {previous : List UInt8}
    (again : ∀ seen previous allAppenders sys, ∀ key ∈ keys, keyName key = some previous →
      I seen previous allAppenders sys → I (seen ++ [key]) previous allAppenders sys)
    (define : ∀ seen previous allAppenders sys, ∀ key ∈ keys, ∀ name plan, keyName key = some name →
      Asked env p name plan → I seen previous allAppenders sys →
      I (seen ++ [key]) name (allAppenders.insert name plan.key) (plan.apply sys))
    (done : initAppenders env p previous allAppenders sys keys = .ok result)
    (start : I seen previous allAppenders sys) :
    ∃ last, I (seen ++ keys) last result.1 result.2 := by
  induction keys generalizing seen previous allAppenders sys with
  | nil =>
    cases done
    exact ⟨previous, by rwa [append_nil]⟩
  | cons key keys ih =>
    rw [append_cons]
    have again' := fun seen previous all sys k mem =>
      again seen previous all sys k (mem_cons_of_mem key mem)
    have define' := fun seen previous all sys k mem =>
      define seen previous all sys k (mem_cons_of_mem key mem)
    obtain ⟨named, next⟩ | ⟨name, plan, named, -, -, read, -, -, next⟩ | ⟨-, -, f, -, next⟩ |
      ⟨-, -, what, next⟩ := initAppenders_cons env p previous allAppenders sys key keys
    · exact ih _ again' define' (next.symm.trans done)
        (again _ _ _ _ key mem_cons_self named start)
    · exact ih _ again' define' (next.symm.trans done)
        (define _ _ _ _ key mem_cons_self name plan named (asked_iff.mp read) start)
    · exact nomatch next.symm.trans done
    · exact nomatch next.symm.trans done

/-- The appenders that are named so far. -/
structure NamedBy (env : Environment) (p : Properties) (seen : List (List UInt8))
    (previous : List UInt8) (allAppenders : UMap (List UInt8) Key) : Prop where
  previous : previous = [] ∨ previous ∈ allAppenders
  named : ∀ key ∈ seen, ∀ name, keyName key = some name → name = [] ∨ name ∈ allAppenders
  seen : ∀ name ∈ allAppenders, ∃ key ∈ seen, keyName key = some name
  asked : ∀ name key, allAppenders.lookup name = some key →
    ∃ plan, Asked env p name plan ∧ plan.key = key

theorem NamedBy.again {seen : List (List UInt8)} {previous key : List UInt8}
    (h : NamedBy env p seen previous allAppenders)
    (same : keyName key = some previous) : NamedBy env p (seen ++ [key]) previous allAppenders where
  previous := h.previous
  named := by
    intro k mem name named
    rcases mem_append.mp mem with earlier | here
    · exact h.named k earlier name named
    · rw [mem_singleton.mp here, same, some.injEq] at named
      exact named ▸ h.previous
  seen := by
    intro name mem
    obtain ⟨k, earlier, named⟩ := h.seen name mem
    exact ⟨k, mem_append_left _ earlier, named⟩
  asked := h.asked

variable {plan : AppenderPlan}

theorem NamedBy.define {seen : List (List UInt8)} {previous key name : List UInt8}
    (h : NamedBy env p seen previous allAppenders) (here : keyName key = some name)
    (asks : Asked env p name plan) :
    NamedBy env p (seen ++ [key]) name (allAppenders.insert name plan.key) where
  previous := .inr ((AList.mem_insert _).mpr (.inl rfl))
  named := by
    intro k mem name' named
    rcases mem_append.mp mem with earlier | last
    · exact (h.named k earlier name' named).imp id fun mem => (AList.mem_insert _).mpr (.inr mem)
    · rw [mem_singleton.mp last, here, some.injEq] at named
      exact .inr ((AList.mem_insert _).mpr (.inl named.symm))
  seen := by
    intro name' mem
    rcases (AList.mem_insert _).mp mem with rfl | old
    · exact ⟨key, by simp, here⟩
    · obtain ⟨k, earlier, named⟩ := h.seen name' old
      exact ⟨k, mem_append_left _ earlier, named⟩
  asked := by
    intro name' key' found
    rcases lookup_insert_eq_some.mp found with ⟨rfl, rfl⟩ | ⟨-, old⟩
    · exact ⟨plan, asks, rfl⟩
    · exact h.asked name' key' old

theorem initAppenders_names (done : initAppenders env p [] ∅ sys keys = .ok result) :
    ∃ last, NamedBy env p keys last result.1 := by
  have start : NamedBy env p [] [] ∅ := ⟨.inl rfl, by simp, by simp, by simp⟩
  exact initAppenders_invariant
    (fun seen previous allAppenders _ => NamedBy env p seen previous allAppenders) []
    (fun _ _ _ _ _ _ same h => h.again same) (fun _ _ _ _ _ _ _ _ here asks h => h.define here asks)
    done start

/-- Under a well-formed set, the names are those that are defined. -/
theorem WellFormed.mem_iff (wf : WellFormed p)
    (done : initAllAppenders env p sys = .ok result) (name : List UInt8) :
    name ∈ result.1 ↔ IsName p name := by
  obtain ⟨last, names⟩ := initAppenders_names done
  constructor
  · intro mem
    obtain ⟨key, key_mem, named⟩ := names.seen name mem
    obtain ⟨name', named', defined⟩ := wf.keyName_of_mem key_mem
    cases named.symm.trans named'
    exact defined
  · rintro ⟨ne, free, defined⟩
    exact (names.named _ defined name (keyName_definition free ne)).resolve_left ne

/-! ### Settings -/

/-- The settings of an appender are what a plan asks for. -/
structure Meets (plan : AppenderPlan) (settings : AppenderSettings) : Prop where
  autoFlush : ∀ flush, plan.autoFlush = some flush → settings.autoFlush = flush
  file : ∀ file, plan.file = some file → settings.file = file
  layout : ∀ layout, plan.layout = some layout → settings.layout = some layout
  facility : ∀ ident, plan.key = .syslog ident → settings.facility = plan.facility

/-- Two plans do not contradict each other. -/
structure Agree (plan plan' : AppenderPlan) : Prop where
  autoFlush : plan.autoFlush = plan'.autoFlush
  file : plan.file = plan'.file
  layout : ∀ layout layout', plan.layout = some layout → plan'.layout = some layout' →
    layout = layout'
  facility : plan.facility = plan'.facility

variable {old : AppenderSettings}

theorem meets_settings
    (facility : ∀ ident, plan.key = .syslog ident → old.facility = plan.facility) :
    Meets plan (plan.settings old) where
  autoFlush := fun flush asked => by rw [settings, asked, getD_some]
  file := fun file asked => by rw [settings, asked, getD_some]
  layout := fun layout asked => by rw [settings, asked, Option.some_or]
  facility := facility

/-- A plan that agrees does not undo what has been set. -/
theorem Meets.settings {plan plan' : AppenderPlan} (h : Meets plan old)
    (agree : Agree plan plan') : Meets plan (plan'.settings old) where
  autoFlush := fun flush asked => by
    rw [AppenderPlan.settings, ← agree.autoFlush, asked, getD_some]
  file := fun file asked => by
    rw [AppenderPlan.settings, ← agree.file, asked, getD_some]
  layout := fun layout asked => by
    cases asked' : plan'.layout with
    | none => simp [AppenderPlan.settings, asked', h.layout layout asked]
    | some layout' => simp [AppenderPlan.settings, asked', agree.layout layout layout' asked asked']
  facility := h.facility

/-- What is agreed on when one appender is what two plans ask for. -/
theorem Meets.agree {name name' : List UInt8} {plan plan' : AppenderPlan}
    {settings : AppenderSettings} (h : Meets plan settings) (h' : Meets plan' settings)
    (asks : Asked env p name plan) (asks' : Asked env p name' plan')
    (same : plan.key = plan'.key) : Agree plan plan' := by
  obtain ⟨-, flushes, filed, facility, -⟩ := asks
  obtain ⟨-, flushes', filed', facility', -⟩ := asks'
  have layout : ∀ layout layout', plan.layout = some layout → plan'.layout = some layout' →
      layout = layout' := by
    intro layout layout' asked asked'
    exact some.inj ((h.layout layout asked).symm.trans (h'.layout layout' asked'))
  have flush {flush flush' : Bool} (asked : plan.autoFlush = some flush)
      (asked' : plan'.autoFlush = some flush') : plan.autoFlush = plan'.autoFlush := by
    rw [asked, asked', ← h.autoFlush flush asked, ← h'.autoFlush flush' asked']
  rw [← same] at flushes' filed' facility'
  cases key : plan.key with simp only [key] at flushes filed facility flushes' filed' facility'
  | console =>
    exact ⟨flush flushes flushes', filed.trans filed'.symm, layout, facility.trans facility'.symm⟩
  | file fileName =>
    obtain ⟨file, asked, -⟩ := filed
    obtain ⟨file', asked', -⟩ := filed'
    refine ⟨flush flushes flushes', ?_, layout, facility.trans facility'.symm⟩
    rw [asked, asked', ← h.file file asked, ← h'.file file' asked']
  | syslog ident =>
    refine ⟨flushes.trans flushes'.symm, filed.trans filed'.symm, layout, ?_⟩
    rw [← h.facility ident key, ← h'.facility ident (same.symm.trans key)]
  | pipe fileName =>
    exact ⟨flushes.trans flushes'.symm, filed.trans filed'.symm, layout,
      facility.trans facility'.symm⟩

theorem lookup_apply_self (plan : AppenderPlan) (sys : System) :
    (plan.apply sys).appenders.lookup plan.key =
      some (plan.settings ((sys.appenders.lookup plan.key).getD
        (newAppender plan.key plan.facility))) := by
  unfold apply
  exact AList.lookup_insert _

theorem lookup_apply_of_ne (plan : AppenderPlan) (sys : System) {key : Key} (ne : key ≠ plan.key) :
    (plan.apply sys).appenders.lookup key = sys.appenders.lookup key := by
  unfold apply
  exact AList.lookup_insert_ne ne

/-- An appender keeps the facility that it was made with. -/
theorem facility_kept (done : initAppenders env p [] ∅ sys keys = .ok result) {key : Key}
    (there : sys.appenders.lookup key = some old) :
    ∃ new, result.2.appenders.lookup key = some new ∧ new.facility = old.facility := by
  have kept := initAppenders_invariant
    (fun _ _ _ sys => ∃ new, sys.appenders.lookup key = some new ∧ new.facility = old.facility) []
    (fun _ _ _ _ _ _ _ h => h) ?_ done ⟨old, there, rfl⟩
  · obtain ⟨-, h⟩ := kept
    exact h
  · rintro - - - sys' - - - plan - - ⟨new, found, same⟩
    by_cases here : key = plan.key
    · subst here
      refine ⟨_, lookup_apply_self plan sys', ?_⟩
      rw [found]
      exact same
    · exact ⟨new, (lookup_apply_of_ne plan sys' here).trans found, same⟩

/-- Names that lead to one appender ask for the same. -/
def Shared (env : Environment) (p : Properties) : Prop :=
  ∀ name name' plan plan', IsName p name → IsName p name' → Asked env p name plan →
    Asked env p name' plan' → plan.key = plan'.key → Agree plan plan'

/-- A system log that is open has the facility that is asked for. -/
def Kept (env : Environment) (p : Properties) (sys : System) : Prop :=
  ∀ name plan ident settings, IsName p name → Asked env p name plan →
    plan.key = .syslog ident → sys.appenders.lookup plan.key = some settings →
    settings.facility = plan.facility

/-- The appenders that are named so far are what their plans ask for. -/
structure MetBy (env : Environment) (p : Properties) (allAppenders : UMap (List UInt8) Key)
    (sys : System) : Prop where
  names : ∀ name ∈ allAppenders, IsName p name
  kept : Kept env p sys
  met : ∀ name ∈ allAppenders, ∀ plan, Asked env p name plan →
    ∃ settings, sys.appenders.lookup plan.key = some settings ∧ Meets plan settings

theorem MetBy.define {name : List UInt8} (h : MetBy env p allAppenders sys) (shared : Shared env p)
    (defined : IsName p name) (asks : Asked env p name plan) :
    MetBy env p (allAppenders.insert name plan.key) (plan.apply sys) where
  names := by
    intro name' mem
    rcases (AList.mem_insert _).mp mem with rfl | old
    · exact defined
    · exact h.names name' old
  kept := by
    intro name' plan' ident settings defined' asks' syslog found
    by_cases same : plan'.key = plan.key
    · rw [same, lookup_apply_self, some.injEq] at found
      subst found
      cases there : sys.appenders.lookup plan.key with
      | none => exact (shared name name' plan plan' defined defined' asks asks' same.symm).facility
      | some old => exact h.kept name' plan' ident old defined' asks' syslog (same ▸ there)
    · rw [lookup_apply_of_ne plan sys same] at found
      exact h.kept name' plan' ident settings defined' asks' syslog found
  met := by
    intro name' mem plan' asks'
    rcases (AList.mem_insert _).mp mem with rfl | old
    · cases asks.unique asks'
      refine ⟨_, lookup_apply_self plan sys, meets_settings ?_⟩
      intro ident syslog
      cases there : sys.appenders.lookup plan.key with
      | none => rfl
      | some old => exact h.kept name' plan ident old defined asks syslog there
    · obtain ⟨settings, found, meets⟩ := h.met name' old plan' asks'
      by_cases same : plan'.key = plan.key
      · refine ⟨_, same ▸ lookup_apply_self plan sys, ?_⟩
        rw [found, getD_some]
        exact meets.settings (shared name' name plan' plan (h.names name' old) defined asks' asks same)
      · exact ⟨settings, (lookup_apply_of_ne plan sys same).trans found, meets⟩

/-! ### Well-formed sets -/

/-- There is one appender for each name, and it is what the properties of the name ask for. -/
structure Configured (env : Environment) (p : Properties)
    (result : UMap (List UInt8) Key × System) : Prop where
  names : ∀ name, name ∈ result.1 ↔ IsName p name
  met : ∀ name key, result.1.lookup name = some key → ∃ plan settings,
    Asked env p name plan ∧ plan.key = key ∧
    result.2.appenders.lookup key = some settings ∧ Meets plan settings

/-- What it takes, beyond being well-formed. -/
structure Configurable (env : Environment) (p : Properties) (sys : System) : Prop where
  undivided : Undivided p
  closed : ∀ name, IsName p name → ¬ OpenPattern p name
  known : ∀ name value, IsName p name → p.find (definition name) = some value →
    appenderType value = some .fileAppender → ∀ letter ∈ patternLetters
      (p.getString (definition name ++ ascii ".fileName") (ascii "default.log")), Known env letter
  shared : Shared env p
  kept : Kept env p sys

theorem Configurable.defined (h : Configurable env p sys) (wf : WellFormed p)
    {name : List UInt8} (named : IsName p name) : Defined env p name := by
  have ⟨_, free, mem⟩ := named
  obtain ⟨⟨value, found⟩, -⟩ := mem_appenderKeys.mp mem
  obtain ⟨type, known⟩ := isSome_iff_exists.mp (wf.types name value free found)
  refine ⟨value, type, found, known, ?_, fun layout => wf.layouts name layout free⟩
  rintro rfl
  exact h.known name value named found known

/-- A well-formed set of appenders is configured as it says iff no other key comes between a
definition and its properties, the log patterns end where their scan does, the system tells what
the file names ask for, and names that share an appender, with each other or with an earlier
configuration, do not contradict each other. -/
theorem appenders_configured_iff (wf : WellFormed p) (sys : System) :
    (∃ result, initAllAppenders env p sys = .ok result ∧ Configured env p result) ↔
      Configurable env p sys := by
  constructor
  · rintro ⟨result, done, configured⟩
    have asked {name : List UInt8} (named : IsName p name) : ∃ plan settings,
        Asked env p name plan ∧ result.2.appenders.lookup plan.key = some settings ∧
          Meets plan settings := by
      obtain ⟨key, found⟩ := exists_lookup_of_mem ((configured.names name).mpr named)
      obtain ⟨plan, settings, asks, rfl, there, meets⟩ := configured.met name key found
      exact ⟨plan, settings, asks, there, meets⟩
    have fine {name : List UInt8} (named : IsName p name) :
        Defined env p name ∧ ¬ OpenPattern p name := by
      obtain ⟨plan, -, asks, -⟩ := asked named
      have read := asked_iff.mpr asks
      obtain ⟨-, -, fine⟩ | ⟨f, -, bad, -⟩ | ⟨what, bad, -⟩ := readAppender_cases env p name
      · exact fine
      · exact nomatch read.symm.trans bad
      · exact nomatch read.symm.trans bad
    refine ⟨undivided_of_accepted wf ((initAppenders_ok env p).mp ⟨result, done⟩),
      fun name named => (fine named).2, ?_, ?_, ?_⟩
    · intro name value named found type
      obtain ⟨⟨value', type', found', known', known, -⟩, -⟩ := fine named
      cases found.symm.trans found'
      cases type.symm.trans known'
      exact known rfl
    · intro name name' plan plan' named named' asks asks' same
      obtain ⟨_, settings, asks₂, there, meets⟩ := asked named
      obtain ⟨_, settings', asks₂', there', meets'⟩ := asked named'
      cases asks.unique asks₂
      cases asks'.unique asks₂'
      rw [same] at there
      cases there.symm.trans there'
      exact meets.agree meets' asks asks' same
    · intro name plan ident settings named asks syslog there
      obtain ⟨_, settings', asks', there', meets⟩ := asked named
      cases asks.unique asks'
      obtain ⟨new, found, same⟩ := facility_kept done there
      cases there'.symm.trans found
      exact same.symm.trans (meets.facility ident syslog)
  · intro h
    have fine (name : List UInt8) (named : IsName p name) := And.intro (h.defined wf named)
      (h.closed name named)
    obtain ⟨result, done⟩ := (initAppenders_ok env p).mpr (accepted_of_undivided wf h.undivided fine)
    have start : MetBy env p ∅ sys := ⟨by simp, h.kept, by simp⟩
    obtain ⟨-, met⟩ := initAppenders_invariant
      (fun _ _ allAppenders sys => MetBy env p allAppenders sys) [] (fun _ _ _ _ _ _ _ met => met)
      (by
        intro _ _ _ _ key mem name plan named asks met
        obtain ⟨name', named', defined⟩ := wf.keyName_of_mem mem
        cases named.symm.trans named'
        exact met.define h.shared defined asks) done start
    obtain ⟨last, names⟩ := initAppenders_names done
    refine ⟨result, done, wf.mem_iff done, ?_⟩
    intro name key found
    obtain ⟨plan, asks, rfl⟩ := names.asked name key found
    obtain ⟨settings, there, meets⟩ := met.met name (mem_of_lookup found) plan asks
    exact ⟨plan, settings, asks, rfl, there, meets⟩

/-- A check, entry by entry. -/
theorem wellFormed_of_entries (entries : List (List UInt8 × List UInt8))
    (all : p.entries = entries.map fun e => (definition e.1, e.2))
    (check : ∀ e ∈ entries, (46 ∉ e.1 → (appenderType e.2).isSome) ∧
      (ascii ".layout" <:+ e.1 → (layoutType e.2).isSome) ∧
      ∃ e' ∈ entries, e'.1 ≠ [] ∧ 46 ∉ e'.1 ∧ (e.1 = e'.1 ∨ e'.1 ++ [46] <+: e.1)) :
    WellFormed p := by
  have find_iff {key value : List UInt8} : p.find key = some value ↔
      ∃ e ∈ entries, definition e.1 = key ∧ e.2 = value := by
    rw [SortedMap.find_eq_some fun _ _ => byteOrder_inj.mp, all]
    simp
  have named {e : List UInt8 × List UInt8} (mem : e ∈ entries) : definition e.1 ∈ appenderKeys p :=
    mem_appenderKeys.mpr ⟨⟨e.2, find_iff.mpr ⟨e, mem, rfl, rfl⟩⟩, e.1, rfl⟩
  constructor
  · intro key mem
    obtain ⟨⟨value, found⟩, -⟩ := mem_appenderKeys.mp mem
    obtain ⟨e, here, rfl, rfl⟩ := find_iff.mp found
    obtain ⟨-, -, e', mem', ne, free, same | ⟨rest, longer⟩⟩ := check e here
    · exact ⟨e'.1, ne, free, named mem', .inl (by rw [same])⟩
    · refine ⟨e'.1, ne, free, named mem', .inr ⟨rest, ?_⟩⟩
      rw [← longer, definition, definition, append_assoc, append_assoc, singleton_append]
  · intro name value free found
    obtain ⟨e, mem, same, rfl⟩ := find_iff.mp found
    obtain rfl := append_cancel_left same
    exact (check e mem).1 free
  · intro name value _ found
    obtain ⟨e, mem, same, rfl⟩ := find_iff.mp found
    rw [definition, definition, append_assoc] at same
    exact (check e mem).2.1 ⟨name, (append_cancel_left same).symm⟩

/-- A file and a system log, each with properties of its own. -/
def sampleAppenders : List (List UInt8 × List UInt8) :=
  [(ascii "a", ascii "FileAppender"), (ascii "a.fileName", ascii "a.log"),
    (ascii "a.flush", ascii "true"), (ascii "a.max_file_size", ascii "4"),
    (ascii "b", ascii "SyslogAppender"), (ascii "b.facility", ascii "2"),
    (ascii "b.layout", ascii "SimpleLayout")]

def appendersText : List UInt8 :=
  sampleAppenders.flatMap fun e => definition e.1 ++ ascii "=" ++ e.2 ++ ascii "\n"

theorem appenders_configured_iff_sample :
    WellFormed (.load plainEnvironment.getenv appendersText) ∧
      ∃ result, initAllAppenders plainEnvironment (.load plainEnvironment.getenv appendersText)
          newSystem = .ok result ∧
        Configured plainEnvironment (.load plainEnvironment.getenv appendersText) result := by
  have entries : (Properties.load plainEnvironment.getenv appendersText).entries =
      sampleAppenders.map fun e => (definition e.1, e.2) := by
    decide +kernel
  have readA : readAppender plainEnvironment (.load plainEnvironment.getenv appendersText)
      (ascii "a") = .ok ⟨.file (ascii "a.log"), 0, true,
        some { newFileSettings with maxSize := 4 * 2 ^ 20 }, none⟩ := rfl
  have readB : readAppender plainEnvironment (.load plainEnvironment.getenv appendersText)
      (ascii "b") = .ok ⟨.syslog (ascii "syslog"), 16, none, none, some .simple⟩ := rfl
  generalize Properties.load plainEnvironment.getenv appendersText = p at entries readA readB
  have wf : WellFormed p := wellFormed_of_entries sampleAppenders entries (by decide)
  have of_found {name value : List UInt8} (found : p.find (definition name) = some value) :
      (name, value) ∈ sampleAppenders := by
    rw [SortedMap.find_eq_some fun _ _ => byteOrder_inj.mp, entries] at found
    obtain ⟨e, mem, same⟩ := mem_map.mp found
    obtain ⟨name_eq, rfl⟩ := Prod.mk.inj same
    rwa [← append_cancel_left name_eq]
  have of_key {name : List UInt8} (mem : definition name ∈ appenderKeys p) :
      ∃ value, (name, value) ∈ sampleAppenders := by
    obtain ⟨⟨value, found⟩, -⟩ := mem_appenderKeys.mp mem
    exact ⟨value, of_found found⟩
  have name_cases {name : List UInt8} (named : IsName p name) :
      name = ascii "a" ∨ name = ascii "b" := by
    obtain ⟨-, free, mem⟩ := named
    obtain ⟨value, mem⟩ := of_key mem
    have plain : ∀ e ∈ sampleAppenders, 46 ∉ e.1 → e.1 = ascii "a" ∨ e.1 = ascii "b" := by decide
    exact plain _ mem free
  refine ⟨wf, (appenders_configured_iff wf newSystem).mpr ⟨?_, ?_, ?_, ?_, ?_⟩⟩
  · intro name rest _ _ _
    refine .inr fun c t below mem => ?_
    rw [definition, append_assoc] at mem
    obtain ⟨value, mem⟩ := of_key mem
    have above : ∀ e ∈ sampleAppenders, ∀ c ∈ e.1, ¬ c < 46 := by decide +kernel
    exact above _ mem c (by simp) below
  · rintro name - ⟨_, logPattern, -, -, found, -⟩
    rw [append_assoc] at found
    have none : ∀ e ∈ sampleAppenders, ¬ ascii ".layout.LogPattern" <:+ e.1 := by decide
    exact none _ (of_found found) (suffix_append ..)
  · intro name value named found type
    have plain : patternLetters (p.getString (definition (ascii "a") ++ ascii ".fileName")
        (ascii "default.log")) = [] := by
      rw [Properties.getString, (SortedMap.find_eq_some fun _ _ => byteOrder_inj.mp).mpr
        (entries ▸ mem_map_of_mem (a := (ascii "a.fileName", ascii "a.log")) (by decide))]
      decide
    rcases name_cases named with rfl | rfl
    · rw [plain]
      exact forall_mem_nil _
    · have syslog : ∀ e ∈ sampleAppenders, e.1 = ascii "b" → e.2 = ascii "SyslogAppender" := by decide
      rw [show value = ascii "SyslogAppender" from syslog _ (of_found found) rfl] at type
      exact absurd type (by decide)
  · intro name name' plan plan' named named' asks asks' same
    have reflexive (plan : AppenderPlan) : Agree plan plan :=
      ⟨rfl, rfl, fun _ _ asked asked' => some.inj (asked.symm.trans asked'), rfl⟩
    rcases name_cases named with rfl | rfl <;> rcases name_cases named' with rfl | rfl
    · exact asks.unique asks' ▸ reflexive plan
    · cases readA.symm.trans (asked_iff.mpr asks)
      cases readB.symm.trans (asked_iff.mpr asks')
      cases same
    · cases readB.symm.trans (asked_iff.mpr asks)
      cases readA.symm.trans (asked_iff.mpr asks')
      cases same
    · exact asks.unique asks' ▸ reflexive plan
  · intro name plan ident settings _ _ _ found
    exact nomatch found

/-- A well-formed set that is refused: the key `appender.a-b` comes between `appender.a` and
`appender.a.flush`. -/
theorem divided_refused :
    WellFormed (.load plainEnvironment.getenv (ascii "appender.a=ConsoleAppender\n" ++
      ascii "appender.a-b=ConsoleAppender\n" ++ ascii "appender.a.flush=true")) ∧
    initAllAppenders plainEnvironment (.load plainEnvironment.getenv
      (ascii "appender.a=ConsoleAppender\n" ++ ascii "appender.a-b=ConsoleAppender\n" ++
        ascii "appender.a.flush=true")) newSystem =
      .error (.runtimeError (ascii "partial appender definition : appender.a.flush")) := by
  refine ⟨wellFormed_of_entries [(ascii "a", ascii "ConsoleAppender"),
    (ascii "a-b", ascii "ConsoleAppender"), (ascii "a.flush", ascii "true")] ?_ (by decide), rfl⟩
  decide

end AgentEngine.Alog.Configurator
