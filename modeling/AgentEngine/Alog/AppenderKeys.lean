import AgentEngine.Alog.Configurator

/-!
How `initAllAppenders` walks over the keys of the appenders.

It goes through them in order and compares each with the one before. A key whose name is that of
the key before is passed over; any other key has to be the definition of an appender.

* `patternKept_iff`: the log patterns that are scanned to their end.
* `readAppender_cases`: what instantiating an appender comes to, read off from its properties.
* `initAppenders_ok`, `initAppenders_misuse`: when the walk gets through, and when it runs over the
  end of a log pattern or follows a null result of `getpwuid`.
-/

namespace AgentEngine.Alog.Configurator

open Lib

/-! ### What can be read -/

/-- The scan of a log pattern comes to a percent sign at the very end. -/
def openPercent : List UInt8 → Bool
  | [] => false
  | 37 :: rest =>
      match rest with
      | [] => true
      | [c] => openPercent [c]
      | 37 :: _ :: rest => openPercent rest
      | _ :: c' :: rest => openPercent (c' :: rest)
  | _ :: rest => openPercent rest

theorem setLogPatternFrom_eq_none (literal logPattern : List UInt8) :
    setLogPatternFrom literal logPattern = none ↔ openPercent logPattern = true := by
  fun_induction setLogPatternFrom literal logPattern with
  | case1 | case2 => simp [openPercent]
  | case3 _ c ih | case4 _ letter rest component found ih | case5 _ letter rest found ih =>
    simpa [openPercent] using ih
  | case6 _ c c' rest ne ih | case7 _ c rest ne ih =>
    rw [ih]
    simp [openPercent]

/-- The part of a log pattern that a component comes from. -/
def source : FormatComponent → List UInt8
  | .string literal => literal
  | .message => ascii "%%m"
  | .name => ascii "%%c"
  | .date => ascii "%%d"
  | .zoneDate => ascii "%%z"
  | .level => ascii "%%l"
  | .processId => ascii "%%p"
  | .threadId => ascii "%%t"
  | .file => ascii "%%F"
  | .function => ascii "%%f"
  | .line => ascii "%%n"

variable {letter : UInt8}

theorem source_formatComponent {component : FormatComponent}
    (found : formatComponent letter = some component) : source component = [37, 37, letter] := by
  unfold formatComponent at found
  split_ifs at found
  all_goals
    cases found
    subst_vars
    rfl

theorem source_literalComponent (literal : List UInt8) :
    (literalComponent literal).flatMap source = literal := by
  unfold literalComponent
  split_ifs with empty
  · exact empty.symm
  · exact List.append_nil _

theorem source_setLogPatternFrom (literal logPattern : List UInt8) :
    ∀ components ∈ setLogPatternFrom literal logPattern,
      components.flatMap source = literal ++ logPattern := by
  fun_induction setLogPatternFrom literal logPattern with
  | case1 literal => simp [source_literalComponent]
  | case2 => simp
  | case3 _ c ih | case5 _ letter rest found ih | case6 _ c c' rest ne ih | case7 _ c rest ne ih =>
    simpa using ih
  | case4 literal letter rest component found ih =>
    intro components mem
    obtain ⟨others, scanned, rfl⟩ := Option.mem_map.mp mem
    simp [source_literalComponent, source_formatComponent found, ih others scanned]

/-- How many percent signs a log pattern ends with. -/
def percentsAtEnd (logPattern : List UInt8) : Nat :=
  (logPattern.reverse.takeWhile (· = 37)).length

theorem percentsAtEnd_append {front : List UInt8} (threes : percentsAtEnd front % 3 = 0)
    (rest : List UInt8) : percentsAtEnd (front ++ rest) % 3 = percentsAtEnd rest % 3 := by
  unfold percentsAtEnd at threes ⊢
  rw [List.reverse_append, List.takeWhile_append]
  split_ifs with all
  · rw [List.length_append, ← all]
    omega
  · rfl

/-- The scan takes the percent signs at the end three at a time. -/
theorem openPercent_iff (logPattern : List UInt8) :
    openPercent logPattern = true ↔ percentsAtEnd logPattern % 3 ≠ 0 := by
  fun_induction openPercent logPattern with
  | case1 | case2 => decide
  | case3 c ih =>
    by_cases percent : c = 37
    · subst percent
      decide
    · rw [ih]
      simp [percentsAtEnd, percent]
  | case4 letter rest ih =>
    have threes : percentsAtEnd [37, 37, letter] % 3 = 0 := by
      by_cases percent : letter = 37 <;> simp [percentsAtEnd, percent]
    rw [ih, ← percentsAtEnd_append threes]
    rfl
  | case5 c c' rest ne ih =>
    have none_ : percentsAtEnd [37, c] % 3 = 0 := by simp [percentsAtEnd, show c ≠ 37 from ne]
    rw [ih, ← percentsAtEnd_append none_]
    rfl
  | case6 c rest ne ih =>
    have none_ : percentsAtEnd [c] % 3 = 0 := by simp [percentsAtEnd, show c ≠ 37 from ne]
    rw [ih, ← percentsAtEnd_append none_]
    rfl

/-- The scan of the pattern stays inside it, and its components come from the whole of it. -/
def PatternKept (logPattern : List UInt8) : Prop :=
  ∃ components, setLogPattern logPattern = some components ∧ components.flatMap source = logPattern

theorem patternKept_iff (logPattern : List UInt8) :
    PatternKept logPattern ↔ percentsAtEnd logPattern % 3 = 0 := by
  have failed := (setLogPatternFrom_eq_none [] logPattern).trans (openPercent_iff logPattern)
  constructor
  · rintro ⟨components, scanned, -⟩
    by_contra percents
    cases scanned.symm.trans (failed.mpr percents)
  · intro threes
    have scans : setLogPattern logPattern ≠ none := fun fails => failed.mp fails threes
    obtain ⟨components, scanned⟩ := Option.ne_none_iff_exists'.mp scans
    exact ⟨components, scanned, source_setLogPatternFrom [] logPattern components scanned⟩

/-- A percent sign behind a component is stepped over, and the end with it. -/
theorem not_patternKept : ¬ PatternKept (ascii "%%m%") := by
  rintro ⟨components, scanned, -⟩
  cases scanned

/-- The letters behind the percent signs of a file name. -/
def patternLetters : List UInt8 → List UInt8
  | [] => []
  | [_] => []
  | c :: letter :: rest =>
      if c ≠ 37 then patternLetters (letter :: rest) else letter :: patternLetters rest

/-- Neither the environment nor the user database has a home directory. -/
def Homeless (env : Environment) : Prop := env.getenv (ascii "HOME") = none ∧ env.getpwuid = none

/-- The system tells what a letter stands for. -/
def Known (env : Environment) (letter : UInt8) : Prop :=
  (letter = 101 → env.cmdline.isSome) ∧ (letter = 99 ∨ letter = 67 → env.getcwd.isSome) ∧
    (letter = 126 → ¬ Homeless env)

/-- The first of the letters that the system does not tell is the one for the home directory. -/
def StopsAtHome (env : Environment) : List UInt8 → Prop
  | [] => False
  | letter :: letters =>
      letter = 126 ∧ Homeless env ∨ Known env letter ∧ StopsAtHome env letters

variable (env : Environment)

theorem expandLetter_cases (letter : UInt8) :
    (∃ part, expandLetter env letter = .ok part ∧ Known env letter) ∨
    (expandLetter env letter = .error .nullPasswd ∧ letter = 126 ∧ Homeless env) ∨
    ∃ what, expandLetter env letter = .error (.runtimeError what) ∧ ¬ Known env letter ∧
      letter ≠ 126 := by
  unfold expandLetter Known
  by_cases e : letter = 101
  · subst e
    cases env.cmdline <;> simp
  by_cases c : letter = 99 ∨ letter = 67
  · have other : letter ≠ 37 ∧ letter ≠ 112 ∧ letter ≠ 126 := by
      rcases c with rfl | rfl <;> decide
    cases env.getcwd <;> simp [e, c, other]
  by_cases home : letter = 126
  · subst home
    unfold getHomeDirectory Homeless
    cases env.getenv (ascii "HOME") <;> cases env.getpwuid <;> simp
  · left
    simp only [e, c, home, if_false, false_implies, and_self, and_true]
    split_ifs <;> exact ⟨_, rfl⟩

/-- A file name is transformed iff the system tells what its letters stand for; if not, it depends
on the first of the others what happens. -/
theorem transformPattern_cases (pattern : List UInt8) :
    (∃ result, transformPattern env pattern = .ok result ∧
      ∀ letter ∈ patternLetters pattern, Known env letter) ∨
    (transformPattern env pattern = .error .nullPasswd ∧
      StopsAtHome env (patternLetters pattern) ∧
      ¬ ∀ letter ∈ patternLetters pattern, Known env letter) ∨
    ∃ what, transformPattern env pattern = .error (.runtimeError what) ∧
      (¬ ∀ letter ∈ patternLetters pattern, Known env letter) ∧
      ¬ StopsAtHome env (patternLetters pattern) := by
  fun_induction transformPattern env pattern with
  | case1 | case2 => simp [patternLetters]
  | case3 c letter rest plain ih =>
    rw [patternLetters, if_pos plain]
    obtain ⟨result, done, known⟩ | ⟨failed, stops⟩ | ⟨what, failed, unknown⟩ := ih
    · rw [done]
      exact .inl ⟨_, rfl, known⟩
    · rw [failed]
      exact .inr (.inl ⟨rfl, stops⟩)
    · rw [failed]
      exact .inr (.inr ⟨what, rfl, unknown⟩)
  | case4 c letter rest percent ih =>
    rw [patternLetters, if_neg percent, StopsAtHome, List.forall_mem_cons]
    obtain ⟨part, done, here⟩ | ⟨failed, home, homeless⟩ | ⟨what, failed, unknown, other⟩ :=
      expandLetter_cases env letter
    · have there : ¬ (letter = 126 ∧ Homeless env) := fun h => here.2.2 h.1 h.2
      simp only [done, here, there, true_and, false_or]
      obtain ⟨result, done, known⟩ | ⟨failed, stops⟩ | ⟨what, failed, unknown⟩ := ih
      · rw [done]
        exact .inl ⟨_, rfl, known⟩
      · rw [failed]
        exact .inr (.inl ⟨rfl, stops⟩)
      · rw [failed]
        exact .inr (.inr ⟨what, rfl, unknown⟩)
    · rw [failed]
      exact .inr (.inl ⟨rfl, .inl ⟨home, homeless⟩, fun all => all.1.2.2 home homeless⟩)
    · rw [failed]
      refine .inr (.inr ⟨what, rfl, fun all => unknown all.1, ?_⟩)
      rintro (⟨home, -⟩ | ⟨known, -⟩)
      · exact other home
      · exact unknown known

variable {env} in
theorem not_stopsAtHome {letters : List UInt8} (known : ∀ letter ∈ letters, Known env letter) :
    ¬ StopsAtHome env letters := by
  induction letters with
  | nil => exact id
  | cons letter letters ih =>
    obtain ⟨here, later⟩ := List.forall_mem_cons.mp known
    rintro (⟨home, homeless⟩ | ⟨-, stops⟩)
    · exact here.2.2 home homeless
    · exact ih later stops

section Reading

variable (env : Environment) (p : Properties) (appenderName : List UInt8)

/-- The properties name an appender and, if at all, a layout of a known type, and the system tells
what its file name asks for. -/
def Defined : Prop :=
  ∃ value type, p.find (ascii "appender." ++ appenderName) = some value ∧
    appenderType value = some type ∧
    (type = .fileAppender → ∀ letter ∈ patternLetters
      (p.getString (ascii "appender." ++ appenderName ++ ascii ".fileName") (ascii "default.log")),
      Known env letter) ∧
    ∀ layout, p.find (ascii "appender." ++ appenderName ++ ascii ".layout") = some layout →
      (layoutType layout).isSome

/-- The appender has a log pattern that is scanned over its end. -/
def OpenPattern : Prop :=
  ∃ layout logPattern, p.find (ascii "appender." ++ appenderName ++ ascii ".layout") = some layout ∧
    layoutType layout = some .patternLayout ∧
    p.find (ascii "appender." ++ appenderName ++ ascii ".layout.LogPattern") = some logPattern ∧
    openPercent logPattern = true

/-- The appender has a file name that asks for a home directory where there is none. -/
def AsksHome : Prop :=
  ∃ value, p.find (ascii "appender." ++ appenderName) = some value ∧
    appenderType value = some .fileAppender ∧ StopsAtHome env (patternLetters
      (p.getString (ascii "appender." ++ appenderName ++ ascii ".fileName") (ascii "default.log")))

/-- Instantiating the appender goes wrong. -/
def Hazard : Prop :=
  Defined env p appenderName ∧ OpenPattern p appenderName ∨ AsksHome env p appenderName

/-- The three ways in which a layout is made or not. -/
theorem layoutFor_cases :
    (∃ layout, layoutFor p appenderName = .ok layout ∧ ¬ OpenPattern p appenderName ∧
      ∀ value, p.find (ascii "appender." ++ appenderName ++ ascii ".layout") = some value →
        (layoutType value).isSome) ∨
    (layoutFor p appenderName = .error .outOfBounds ∧ OpenPattern p appenderName ∧
      ∀ value, p.find (ascii "appender." ++ appenderName ++ ascii ".layout") = some value →
        (layoutType value).isSome) ∨
    ∃ what value, layoutFor p appenderName = .error (.runtimeError what) ∧
      p.find (ascii "appender." ++ appenderName ++ ascii ".layout") = some value ∧
      layoutType value = none := by
  unfold layoutFor OpenPattern
  cases named : p.find (ascii "appender." ++ appenderName ++ ascii ".layout") with
  | none => exact .inl ⟨none, rfl, by simp, by simp⟩
  | some value =>
    cases type : layoutType value with
    | none =>
      simp only [type]
      exact .inr (.inr ⟨_, value, rfl, rfl, type⟩)
    | some known =>
      simp only [type]
      cases known with
      | basicLayout | simpleLayout | binaryLayout =>
        exact .inl ⟨_, rfl, by simp [type], by simp [type]⟩
      | patternLayout =>
        cases pattern : p.find (ascii "appender." ++ appenderName ++ ascii ".layout.LogPattern") with
        | none => exact .inl ⟨_, rfl, by simp, by simp [type]⟩
        | some logPattern =>
          have scan := setLogPatternFrom_eq_none [] logPattern
          cases components : setLogPattern logPattern with
          | none =>
            have ends := scan.mp components
            simp only [components]
            exact .inr (.inl ⟨trivial, by simp [type, ends], by simp [type]⟩)
          | some made =>
            have ends : ¬ openPercent logPattern = true := by
              rw [← scan]
              exact fun none => nomatch none.symm.trans components
            simp only [components]
            exact .inl ⟨_, rfl, by simp [ends], by simp [type]⟩

theorem appenderPlan_cases (appenderPrefix : List UInt8) (type : AppenderType) :
    let letters :=
      patternLetters (p.getString (appenderPrefix ++ ascii ".fileName") (ascii "default.log"))
    (∃ plan, appenderPlan env p appenderPrefix type = .ok plan ∧
      (type = .fileAppender → ∀ letter ∈ letters, Known env letter)) ∨
    (appenderPlan env p appenderPrefix type = .error .nullPasswd ∧ type = .fileAppender ∧
      StopsAtHome env letters ∧ ¬ ∀ letter ∈ letters, Known env letter) ∨
    ∃ what, appenderPlan env p appenderPrefix type = .error (.runtimeError what) ∧
      type = .fileAppender ∧ (¬ ∀ letter ∈ letters, Known env letter) ∧
      ¬ StopsAtHome env letters := by
  cases type with
  | consoleAppender | syslogAppender | pipeAppender =>
    exact .inl ⟨_, rfl, nofun⟩
  | fileAppender =>
    unfold appenderPlan
    obtain ⟨result, done, known⟩ | ⟨failed, stops⟩ | ⟨what, failed, unknown⟩ :=
      transformPattern_cases env
        (p.getString (appenderPrefix ++ ascii ".fileName") (ascii "default.log"))
    · rw [done]
      exact .inl ⟨_, rfl, fun _ => known⟩
    · rw [failed]
      exact .inr (.inl ⟨rfl, rfl, stops⟩)
    · rw [failed]
      exact .inr (.inr ⟨what, rfl, rfl, unknown⟩)

variable {env p appenderName} in
theorem not_asksHome (defined : Defined env p appenderName) : ¬ AsksHome env p appenderName := by
  obtain ⟨value, kind, named, type, known, -⟩ := defined
  rintro ⟨value', named', type', stops⟩
  cases named.symm.trans named'
  cases type.symm.trans type'
  exact not_stopsAtHome (known rfl) stops

/-- The three ways in which the properties of an appender are read. -/
theorem readAppender_cases :
    (∃ plan, readAppender env p appenderName = .ok plan ∧ Defined env p appenderName ∧
      ¬ OpenPattern p appenderName) ∨
    (∃ f, f.Misuse ∧ readAppender env p appenderName = .error f ∧ Hazard env p appenderName ∧
      ¬ (Defined env p appenderName ∧ ¬ OpenPattern p appenderName)) ∨
    ∃ what, readAppender env p appenderName = .error (.runtimeError what) ∧
      ¬ Defined env p appenderName ∧ ¬ Hazard env p appenderName := by
  have refused (undefined : ¬ Defined env p appenderName) (housed : ¬ AsksHome env p appenderName) :
      ¬ Hazard env p appenderName := by
    rintro (⟨defined, -⟩ | asks)
    · exact undefined defined
    · exact housed asks
  unfold readAppender
  cases named : p.find (ascii "appender." ++ appenderName) with
  | none =>
    have undefined : ¬ Defined env p appenderName := by simp [Defined, named]
    simp only [named]
    exact .inr (.inr ⟨_, rfl, undefined, refused undefined (by simp [AsksHome, named])⟩)
  | some value =>
    simp only [named]
    cases type : appenderType value with
    | none =>
      have undefined : ¬ Defined env p appenderName := by simp [Defined, named, type]
      exact .inr (.inr ⟨_, rfl, undefined, refused undefined (by simp [AsksHome, named, type])⟩)
    | some kind =>
      -- what a file appender must know
      have defines : Defined env p appenderName → kind = .fileAppender → ∀ letter ∈ patternLetters
          (p.getString (ascii "appender." ++ appenderName ++ ascii ".fileName")
            (ascii "default.log")), Known env letter := by
        rintro ⟨value', kind', named', type', known, -⟩
        cases named.symm.trans named'
        cases type.symm.trans type'
        exact known
      simp only
      obtain ⟨plan, read, known⟩ | ⟨read, rfl, stops, unknown⟩ | ⟨what, read, rfl, unknown, goes⟩ :=
        appenderPlan_cases env p (ascii "appender." ++ appenderName) kind
      · rw [read]
        obtain ⟨layout, made, closed, types⟩ | ⟨made, opened, types⟩ | ⟨what, layout, made, found, bad⟩ :=
          layoutFor_cases p appenderName
        · rw [made]
          exact .inl ⟨_, rfl, ⟨value, kind, named, type, known, types⟩, closed⟩
        · rw [made]
          exact .inr (.inl ⟨.outOfBounds, fun _ => nofun, rfl, .inl ⟨⟨value, kind, named, type, known, types⟩, opened⟩,
            fun fine => fine.2 opened⟩)
        · rw [made]
          have undefined : ¬ Defined env p appenderName := by
            rintro ⟨_, _, -, -, -, types⟩
            have some := types layout found
            rw [bad] at some
            exact nomatch some
          refine .inr (.inr ⟨what, rfl, undefined, refused undefined ?_⟩)
          rintro ⟨value', named', type', stops⟩
          cases named.symm.trans named'
          cases type.symm.trans type'
          exact not_stopsAtHome (known rfl) stops
      · rw [read]
        exact .inr (.inl ⟨.nullPasswd, fun _ => nofun, rfl, .inr ⟨value, named, type, stops⟩,
          fun fine => unknown (defines fine.1 rfl)⟩)
      · rw [read]
        have undefined : ¬ Defined env p appenderName := fun h => unknown (defines h rfl)
        refine .inr (.inr ⟨what, rfl, undefined, refused undefined ?_⟩)
        rintro ⟨value', named', -, stops⟩
        exact goes stops

end Reading

/-! ### The walk -/

/-- The second part of a key. -/
def keyName (key : List UInt8) : Option (List UInt8) := (StringUtil.split key 46)[1]?

/-- There is no third part. -/
def IsDefinition (key : List UInt8) : Prop := (StringUtil.split key 46).length ≤ 2

/-- The name that the walk has seen last. -/
def lastName (previous : List UInt8) (keys : List (List UInt8)) : List UInt8 :=
  keys.foldl (fun previous key => (keyName key).getD previous) previous

section Walk

variable (env : Environment) (p : Properties)

/-- A key is passed over, or it defines an appender. -/
def FineAt (previous key : List UInt8) : Prop :=
  ∃ name, keyName key = some name ∧
    (name = previous ∨ IsDefinition key ∧ Defined env p name ∧ ¬ OpenPattern p name)

/-- A key defines an appender that goes wrong. -/
def HazardAt (previous key : List UInt8) : Prop :=
  ∃ name, keyName key = some name ∧ name ≠ previous ∧ IsDefinition key ∧ Hazard env p name

/-- Every key is passed over or defines an appender. -/
def Accepted : (previous : List UInt8) → List (List UInt8) → Prop
  | _, [] => True
  | previous, key :: keys =>
      FineAt env p previous key ∧ Accepted ((keyName key).getD previous) keys

theorem accepted_iff {previous : List UInt8} {keys : List (List UInt8)} :
    Accepted env p previous keys ↔ ∀ pre key post, keys = pre ++ key :: post →
      FineAt env p (lastName previous pre) key := by
  induction keys generalizing previous with
  | nil => simp [Accepted]
  | cons key keys ih =>
    rw [Accepted, ih]
    constructor
    · rintro ⟨fine, later⟩ pre key' post split
      cases pre with
      | nil =>
        obtain ⟨rfl, -⟩ := List.cons.inj split
        exact fine
      | cons first pre =>
        obtain ⟨rfl, shorter⟩ := List.cons.inj split
        exact later pre key' post shorter
    · intro all
      refine ⟨all [] key keys rfl, ?_⟩
      intro pre key' post split
      exact all (key :: pre) key' post (by rw [split]; rfl)

variable (previous : List UInt8) (allAppenders : UMap (List UInt8) Key) (sys : System)
  (key : List UInt8) (keys : List (List UInt8))

/-- What the walk does at one key. -/
theorem initAppenders_cons :
    (keyName key = some previous ∧
      initAppenders env p previous allAppenders sys (key :: keys) =
        initAppenders env p previous allAppenders sys keys) ∨
    (∃ name plan, keyName key = some name ∧ name ≠ previous ∧ IsDefinition key ∧
      readAppender env p name = .ok plan ∧ Defined env p name ∧ ¬ OpenPattern p name ∧
      initAppenders env p previous allAppenders sys (key :: keys) =
        initAppenders env p name (allAppenders.insert name plan.key) (plan.apply sys) keys) ∨
    (HazardAt env p previous key ∧ ¬ FineAt env p previous key ∧ ∃ f : Failure, f.Misuse ∧
      initAppenders env p previous allAppenders sys (key :: keys) = .error f) ∨
    (¬ FineAt env p previous key ∧ ¬ HazardAt env p previous key ∧
      ∃ what, initAppenders env p previous allAppenders sys (key :: keys) =
        .error (.runtimeError what)) := by
  have fine_name (none : keyName key = none) : ¬ FineAt env p previous key := by
    rintro ⟨name, named, -⟩
    exact nomatch none.symm.trans named
  have hazard_name (none : keyName key = none) : ¬ HazardAt env p previous key := by
    rintro ⟨name, named, -⟩
    exact nomatch none.symm.trans named
  rw [initAppenders.eq_2]
  match parts : StringUtil.split key 46 with
  | [] =>
    have none : keyName key = none := by simp [keyName, parts]
    exact .inr (.inr (.inr ⟨fine_name none, hazard_name none, _, rfl⟩))
  | [_] =>
    have none : keyName key = none := by simp [keyName, parts]
    exact .inr (.inr (.inr ⟨fine_name none, hazard_name none, _, rfl⟩))
  | first :: name :: more =>
    have named : keyName key = some name := by simp [keyName, parts]
    have defines : IsDefinition key ↔ more = [] := by simp [IsDefinition, parts]
    simp only
    by_cases same : name = previous
    · subst same
      rw [if_pos rfl]
      exact .inl ⟨named, rfl⟩
    rw [if_neg same]
    have fine_iff : FineAt env p previous key ↔
        more = [] ∧ Defined env p name ∧ ¬ OpenPattern p name := by
      simp [FineAt, named, same, defines]
    have hazard_iff : HazardAt env p previous key ↔ more = [] ∧ Hazard env p name := by
      simp [HazardAt, named, same, defines]
    rw [fine_iff, hazard_iff]
    by_cases last : more = []
    · rw [if_pos last]
      obtain ⟨plan, read, defined, closed⟩ | ⟨f, misuse, read, hazard, bad⟩ |
        ⟨what, read, undefined, safe⟩ := readAppender_cases env p name
      · refine .inr (.inl ⟨name, plan, named, same, defines.mpr last, read, defined, closed, ?_⟩)
        simp only [instantiateAppender, read]
        rfl
      · refine .inr (.inr (.inl ⟨⟨last, hazard⟩, fun fine => bad fine.2, f, misuse, ?_⟩))
        simp only [instantiateAppender, read]
        rfl
      · refine .inr (.inr (.inr ⟨fun fine => undefined fine.2.1, fun h => safe h.2, what, ?_⟩))
        simp only [instantiateAppender, read]
        rfl
    · rw [if_neg last]
      exact .inr (.inr (.inr ⟨fun fine => last fine.1, fun h => last h.1, _, rfl⟩))

variable {previous allAppenders sys keys}

/-- The walk gets through iff every key is accepted. -/
theorem initAppenders_ok :
    (∃ result, initAppenders env p previous allAppenders sys keys = .ok result) ↔
      Accepted env p previous keys := by
  induction keys generalizing previous allAppenders sys with
  | nil => exact iff_of_true ⟨_, rfl⟩ trivial
  | cons key keys ih =>
    rw [Accepted]
    obtain ⟨named, next⟩ | ⟨name, plan, named, -, defines, -, defined, closed, next⟩ |
      ⟨-, bad, f, -, next⟩ | ⟨bad, -, what, next⟩ :=
      initAppenders_cons env p previous allAppenders sys key keys
    · rw [next, ih, named]
      exact (and_iff_right ⟨previous, named, .inl rfl⟩).symm
    · rw [next, ih, named]
      exact (and_iff_right ⟨name, named, .inr ⟨defines, defined, closed⟩⟩).symm
    · rw [next]
      simp [bad]
    · rw [next]
      simp [bad]

/-- The walk goes wrong iff that happens at a key which it comes to. -/
theorem initAppenders_misuse :
    (∃ f : Failure, f.Misuse ∧ initAppenders env p previous allAppenders sys keys = .error f) ↔
      ∃ pre key post, keys = pre ++ key :: post ∧ Accepted env p previous pre ∧
        HazardAt env p (lastName previous pre) key := by
  induction keys generalizing previous allAppenders sys with
  | nil => simp [initAppenders]
  | cons key keys ih =>
    -- where the walk goes on behind the first key
    have later {next : List UInt8} (named : (keyName key).getD previous = next)
        (fine : FineAt env p previous key) (safe : ¬ HazardAt env p previous key) :
        (∃ pre key' post, keys = pre ++ key' :: post ∧ Accepted env p next pre ∧
          HazardAt env p (lastName next pre) key') ↔
        ∃ pre key' post, key :: keys = pre ++ key' :: post ∧ Accepted env p previous pre ∧
          HazardAt env p (lastName previous pre) key' := by
      subst named
      constructor
      · rintro ⟨pre, key', post, split, accepted, hazard⟩
        exact ⟨key :: pre, key', post, by rw [split]; rfl, ⟨fine, accepted⟩, hazard⟩
      · rintro ⟨pre, key', post, split, accepted, hazard⟩
        cases pre with
        | nil =>
          obtain ⟨rfl, -⟩ := List.cons.inj split
          exact absurd hazard safe
        | cons first pre =>
          obtain ⟨rfl, shorter⟩ := List.cons.inj split
          exact ⟨pre, key', post, shorter, accepted.2, hazard⟩
    obtain ⟨named, next⟩ | ⟨name, plan, named, other, defines, read, defined, closed, next⟩ |
      ⟨hazard, -, f, misuse, next⟩ | ⟨bad, safe, what, next⟩ :=
      initAppenders_cons env p previous allAppenders sys key keys
    · rw [next, ih]
      refine later (by rw [named]; rfl) ⟨previous, named, .inl rfl⟩ ?_
      rintro ⟨name, named', other, -⟩
      cases named.symm.trans named'
      exact other rfl
    · rw [next, ih]
      refine later (by rw [named]; rfl) ⟨name, named, .inr ⟨defines, defined, closed⟩⟩ ?_
      rintro ⟨name', named', -, -, hazard⟩
      cases named.symm.trans named'
      obtain ⟨-, opened⟩ | asks := hazard
      · exact closed opened
      · exact not_asksHome defined asks
    · exact iff_of_true ⟨f, misuse, next⟩ ⟨[], key, keys, rfl, trivial, hazard⟩
    · rw [next]
      refine iff_of_false ?_ ?_
      · rintro ⟨f, misuse, same⟩
        cases same
        exact misuse what rfl
      · rintro ⟨pre, key', post, split, accepted, hazard⟩
        cases pre with
        | nil =>
          obtain ⟨rfl, -⟩ := List.cons.inj split
          exact safe hazard
        | cons first pre =>
          obtain ⟨rfl, -⟩ := List.cons.inj split
          exact bad accepted.1

end Walk

end AgentEngine.Alog.Configurator
