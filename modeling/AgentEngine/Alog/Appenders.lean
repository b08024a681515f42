import AgentEngine.Lib.Transitions
import AgentEngine.Lib.UMap

/-!
Who owns the appenders (`Appender.cpp`), and who else knows them.

`s_appenders` owns every appender. Each kind keeps its own registry, by the name that the appender
was asked for with; `Logger::shutdown`, after it has stopped the flushing and deleted the loggers,
deletes the appenders and empties the registries. That of the pipes is left out:
`PipeAppender::release` is declared and never defined nor called.

An appender is its address, of a type `α` that is left open. The memory for a new one comes with
the call; it may be any that no appender lives in, also that of a deleted one.

* `Entered`: what a request returns, and what it changes in the registries.
* `alive_throughout_iff`: the runs in which every appender that is known or was handed out lives.
-/

namespace AgentEngine.Alog

open Lib

variable {α : Type} [DecidableEq α]

/-- The static members of the appender classes. -/
structure Registries (α : Type) where
  appenders : Finset α
  consoleAppender : Option α
  fileAppenders : UMap (List UInt8) α
  syslogAppenders : UMap (List UInt8) α
  pipeAppenders : UMap (List UInt8) α

def Registries.empty : Registries α := ⟨∅, none, ∅, ∅, ∅⟩

def ConsoleAppender.getAppender (r : Registries α) (fresh : α) : α × Registries α :=
  match r.consoleAppender with
  | some appender => (appender, r)
  | none =>
      (fresh, { r with consoleAppender := some fresh, appenders := insert fresh r.appenders })

/-- Look a name up in a registry, or enter a new appender there. -/
def findOrEnter (registry : UMap (List UInt8) α) (appenders : Finset α) (name : List UInt8)
    (fresh : α) : α × UMap (List UInt8) α × Finset α :=
  match registry.lookup name with
  | some appender => (appender, registry, appenders)
  | none => (fresh, registry.insert name fresh, insert fresh appenders)

def FileAppender.getAppender (r : Registries α) (filename : List UInt8) (fresh : α) :
    α × Registries α :=
  let (appender, fileAppenders, appenders) := findOrEnter r.fileAppenders r.appenders filename fresh
  (appender, { r with fileAppenders, appenders })

/-- The facility counts only for a new appender, which does not show here. -/
def SyslogAppender.getAppender (r : Registries α) (ident : List UInt8) (_facility : Int)
    (fresh : α) : α × Registries α :=
  let (appender, syslogAppenders, appenders) :=
    findOrEnter r.syslogAppenders r.appenders ident fresh
  (appender, { r with syslogAppenders, appenders })

def PipeAppender.getAppender (r : Registries α) (filename : List UInt8) (fresh : α) :
    α × Registries α :=
  let (appender, pipeAppenders, appenders) := findOrEnter r.pipeAppenders r.appenders filename fresh
  (appender, { r with pipeAppenders, appenders })

def ConsoleAppender.release (r : Registries α) : Registries α := { r with consoleAppender := none }
def FileAppender.release (r : Registries α) : Registries α := { r with fileAppenders := ∅ }
def SyslogAppender.release (r : Registries α) : Registries α := { r with syslogAppenders := ∅ }

/-- The appenders are deleted, and three of the four registries emptied. -/
def Appender.release (r : Registries α) : Registries α :=
  let r := { r with appenders := ∅ }
  SyslogAppender.release (FileAppender.release (ConsoleAppender.release r))

/-! ### Runs -/

inductive Call (α : Type) where
  | console (fresh : α)
  | file (filename : List UInt8) (fresh : α)
  | syslog (ident : List UInt8) (facility : Int) (fresh : α)
  | pipe (filename : List UInt8) (fresh : α)
  | shutdown
  deriving DecidableEq, Repr

/-- Under what an appender is known: its kind and its name. -/
inductive Key where
  | console
  | file (filename : List UInt8)
  | syslog (ident : List UInt8)
  | pipe (filename : List UInt8)
  deriving DecidableEq, Repr

def Registries.find (r : Registries α) : Key → Option α
  | .console => r.consoleAppender
  | .file filename => r.fileAppenders.lookup filename
  | .syslog ident => r.syslogAppenders.lookup ident
  | .pipe filename => r.pipeAppenders.lookup filename

/-- The registries, and what was handed out since the last shutdown. -/
structure Session (α : Type) where
  registries : Registries α
  returned : List (Key × α)

def Session.start : Session α := ⟨.empty, []⟩

/-- A request; it cannot be that the memory for a new appender is in use by another. -/
def Session.request (s : Session α) (key : Key) (fresh : α) (got : α × Registries α) :
    Option (Session α) :=
  if s.registries.find key = none ∧ fresh ∈ s.registries.appenders then none
  else some ⟨got.2, (key, got.1) :: s.returned⟩

def Session.step (s : Session α) : Call α → Option (Session α)
  | .console fresh => s.request .console fresh (ConsoleAppender.getAppender s.registries fresh)
  | .file filename fresh =>
      s.request (.file filename) fresh (FileAppender.getAppender s.registries filename fresh)
  | .syslog ident facility fresh =>
      s.request (.syslog ident) fresh
        (SyslogAppender.getAppender s.registries ident facility fresh)
  | .pipe filename fresh =>
      s.request (.pipe filename) fresh (PipeAppender.getAppender s.registries filename fresh)
  | .shutdown => some ⟨Appender.release s.registries, []⟩

/-- Every appender that is known or was handed out lives, and there is one for each key. -/
structure Alive (s : Session α) : Prop where
  reachable : ∀ key a, s.registries.find key = some a → a ∈ s.registries.appenders
  returned : ∀ key a, (key, a) ∈ s.returned → a ∈ s.registries.appenders
  same : ∀ key a a', (key, a) ∈ s.returned → (key, a') ∈ s.returned → a = a'

/-- What a request does to the registries. -/
structure Entered (r : Registries α) (key : Key) (fresh : α) (got : α × Registries α) : Prop where
  result : got.1 = (r.find key).getD fresh
  here : got.2.find key = some got.1
  others : ∀ other ≠ key, got.2.find other = r.find other
  appenders : got.2.appenders =
    if r.find key = none then insert fresh r.appenders else r.appenders

section Requests

variable (r : Registries α) (fresh : α)

theorem entered_console : Entered r .console fresh (ConsoleAppender.getAppender r fresh) := by
  unfold ConsoleAppender.getAppender
  cases found : r.consoleAppender with
  | some appender =>
    refine ⟨?_, found, fun _ _ => rfl, ?_⟩ <;> simp [Registries.find, found]
  | none =>
    refine ⟨?_, rfl, ?_, ?_⟩
    · simp [Registries.find, found]
    · intro other ne
      cases other with
      | console => exact absurd rfl ne
      | file _ | syslog _ | pipe _ => rfl
    · simp [Registries.find, found]

theorem findOrEnter_spec (registry : UMap (List UInt8) α) (appenders : Finset α)
    (name : List UInt8) :
    (findOrEnter registry appenders name fresh).1 = (registry.lookup name).getD fresh ∧
      (findOrEnter registry appenders name fresh).2.1.lookup name =
        some (findOrEnter registry appenders name fresh).1 ∧
      (∀ other, other ≠ name →
        (findOrEnter registry appenders name fresh).2.1.lookup other = registry.lookup other) ∧
      (findOrEnter registry appenders name fresh).2.2 =
        if registry.lookup name = none then insert fresh appenders else appenders := by
  unfold findOrEnter
  cases found : registry.lookup name with
  | some appender => exact ⟨rfl, found, fun _ _ => rfl, rfl⟩
  | none =>
    exact ⟨rfl, AList.lookup_insert _, fun _ ne => AList.lookup_insert_ne ne, rfl⟩

theorem entered_file (filename : List UInt8) :
    Entered r (.file filename) fresh (FileAppender.getAppender r filename fresh) := by
  obtain ⟨result, here, others, appenders⟩ :=
    findOrEnter_spec fresh r.fileAppenders r.appenders filename
  refine ⟨result, here, ?_, appenders⟩
  intro other ne
  cases other with
  | file name => exact others name fun same => ne (congrArg Key.file same)
  | console | syslog _ | pipe _ => rfl

theorem entered_syslog (ident : List UInt8) (facility : Int) :
    Entered r (.syslog ident) fresh (SyslogAppender.getAppender r ident facility fresh) := by
  obtain ⟨result, here, others, appenders⟩ :=
    findOrEnter_spec fresh r.syslogAppenders r.appenders ident
  refine ⟨result, here, ?_, appenders⟩
  intro other ne
  cases other with
  | syslog name => exact others name fun same => ne (congrArg Key.syslog same)
  | console | file _ | pipe _ => rfl

theorem entered_pipe (filename : List UInt8) :
    Entered r (.pipe filename) fresh (PipeAppender.getAppender r filename fresh) := by
  obtain ⟨result, here, others, appenders⟩ :=
    findOrEnter_spec fresh r.pipeAppenders r.appenders filename
  refine ⟨result, here, ?_, appenders⟩
  intro other ne
  cases other with
  | pipe name => exact others name fun same => ne (congrArg Key.pipe same)
  | console | file _ | syslog _ => rfl

end Requests

/-! ### Steps -/

/-- The key that a call asks for; none if it is a shutdown. -/
def Call.key : Call α → Option Key
  | .console _ => some .console
  | .file filename _ => some (.file filename)
  | .syslog ident _ _ => some (.syslog ident)
  | .pipe filename _ => some (.pipe filename)
  | .shutdown => none

/-- The call asks for a pipe. -/
def Call.IsPipe (call : Call α) : Prop := ∃ filename, call.key = some (.pipe filename)

variable {s s' : Session α} {call : Call α}

/-- A step is a request or a shutdown. -/
theorem step_cases (moved : s.step call = some s') :
    (∃ key fresh got, call.key = some key ∧ Entered s.registries key fresh got ∧
      s' = ⟨got.2, (key, got.1) :: s.returned⟩) ∨
    (call = .shutdown ∧ s' = ⟨Appender.release s.registries, []⟩) := by
  have request {key : Key} {fresh : α} {got : α × Registries α}
      (entered : Entered s.registries key fresh got) (asked : call.key = some key)
      (moved : s.request key fresh got = some s') :
      ∃ key fresh got, call.key = some key ∧ Entered s.registries key fresh got ∧
        s' = ⟨got.2, (key, got.1) :: s.returned⟩ := by
    unfold Session.request at moved
    split_ifs at moved
    exact ⟨key, fresh, got, asked, entered, (Option.some.inj moved).symm⟩
  cases call with
  | console fresh => exact .inl (request (entered_console _ fresh) rfl moved)
  | file filename fresh => exact .inl (request (entered_file _ fresh filename) rfl moved)
  | syslog ident facility fresh =>
    exact .inl (request (entered_syslog _ fresh ident facility) rfl moved)
  | pipe filename fresh => exact .inl (request (entered_pipe _ fresh filename) rfl moved)
  | shutdown => exact .inr ⟨rfl, (Option.some.inj moved).symm⟩

/-- What was handed out since the last shutdown is still what the registries know. -/
def Known (s : Session α) : Prop :=
  ∀ key a, (key, a) ∈ s.returned → s.registries.find key = some a

omit [DecidableEq α] in
theorem Known.alive (known : Known s)
    (reachable : ∀ key a, s.registries.find key = some a → a ∈ s.registries.appenders) :
    Alive s := by
  refine ⟨reachable, fun key a out => reachable key a (known key a out), ?_⟩
  intro key a a' out out'
  exact Option.some.inj ((known key a out).symm.trans (known key a' out'))

theorem known_step (known : Known s) (moved : s.step call = some s') : Known s' := by
  obtain ⟨key, fresh, got, -, entered, rfl⟩ | ⟨-, rfl⟩ := step_cases moved
  · intro other a out
    rcases List.mem_cons.mp out with first | old
    · cases first
      exact entered.here
    · have before := known other a old
      by_cases same : other = key
      · subst same
        rw [entered.here, entered.result, before, Option.getD_some]
      · rw [entered.others other same, before]
  · intro key a out
    exact nomatch out

/-- A shutdown that leaves no pipe behind. -/
def Tidy (s : Session α) (call : Call α) : Prop :=
  call = .shutdown → ∀ filename, s.registries.find (.pipe filename) = none

/-- The appenders stay alive over a step iff it is not a shutdown that leaves a pipe behind. -/
theorem alive_step_iff (known : Known s) (alive : Alive s) (moved : s.step call = some s') :
    Alive s' ↔ Tidy s call := by
  have known' := known_step known moved
  obtain ⟨key, fresh, got, asked, entered, rfl⟩ | ⟨rfl, rfl⟩ := step_cases moved
  · have request : Tidy s call := by
      rintro rfl
      exact nomatch asked
    refine iff_of_true (known'.alive ?_) request
    intro other a found
    rw [entered.appenders]
    by_cases same : other = key
    · subst same
      rw [entered.here, entered.result] at found
      cases before : s.registries.find other with
      | none =>
        rw [before] at found
        cases found
        exact (if_pos rfl).symm ▸ Finset.mem_insert_self _ _
      | some b =>
        rw [before] at found
        cases found
        exact alive.reachable other _ before
    · rw [entered.others other same] at found
      have lives := alive.reachable other a found
      split_ifs
      · exact Finset.mem_insert_of_mem lives
      · exact lives
  · constructor
    · intro alive' _ filename
      -- nothing lives, so that no pipe can be known
      cases found : s.registries.find (.pipe filename) with
      | none => rfl
      | some a => exact absurd (alive'.reachable (.pipe filename) a found) (Finset.notMem_empty a)
    · intro tidy
      refine known'.alive ?_
      intro key a found
      cases key with
      | console | file _ | syslog _ => exact nomatch found
      | pipe filename =>
        have gone := tidy rfl filename
        exact nomatch gone.symm.trans found

/-! ### Whole runs -/

/-- Whether a step leaves pipes behind, in terms of the calls before. -/
theorem pipes_step (moved : s.step call = some s') :
    (∀ filename, s'.registries.find (.pipe filename) = none) ↔
      (∀ filename, s.registries.find (.pipe filename) = none) ∧ ¬ call.IsPipe := by
  obtain ⟨key, fresh, got, asked, entered, rfl⟩ | ⟨rfl, rfl⟩ := step_cases moved
  · constructor
    · intro none
      have other (filename : List UInt8) : Key.pipe filename ≠ key := by
        rintro rfl
        exact nomatch (none filename).symm.trans entered.here
      refine ⟨fun filename => ?_, ?_⟩
      · rw [← entered.others _ (other filename), none filename]
      · rintro ⟨filename, pipe⟩
        exact other filename (Option.some.inj (pipe.symm.trans asked))
    · rintro ⟨none, noPipe⟩ filename
      have other : Key.pipe filename ≠ key := by
        rintro rfl
        exact noPipe ⟨filename, asked⟩
      rw [entered.others _ other, none filename]
  · refine (and_iff_left ?_).symm
    rintro ⟨filename, asked⟩
    exact nomatch asked

theorem tidy_throughout_iff {calls : List (Call α)} (run : after Session.step s calls = some s') :
    Throughout Session.step Tidy s calls ↔
      ∀ pre post, calls = pre ++ .shutdown :: post →
        (∀ filename, s.registries.find (.pipe filename) = none) ∧ ∀ call ∈ pre, ¬ call.IsPipe := by
  induction calls generalizing s with
  | nil =>
    refine iff_of_true trivial ?_
    intro pre post split
    exact absurd split.symm (by simp)
  | cons call calls ih =>
    obtain ⟨t, first, rest⟩ := after_cons.mp run
    have here : Throughout Session.step Tidy s (call :: calls) ↔
        Tidy s call ∧ Throughout Session.step Tidy t calls := by
      constructor
      · intro along
        exact along t first
      · intro both u second
        cases first.symm.trans second
        exact both
    rw [here, ih rest]
    constructor
    · rintro ⟨tidy, later⟩ pre post split
      cases pre with
      | nil =>
        obtain ⟨rfl, -⟩ := List.cons.inj split
        exact ⟨tidy rfl, nofun⟩
      | cons call' pre =>
        obtain ⟨rfl, shorter⟩ := List.cons.inj split
        obtain ⟨none, noPipe⟩ := later pre post shorter
        obtain ⟨before, notThis⟩ := (pipes_step first).mp none
        refine ⟨before, ?_⟩
        intro c mem
        rcases List.mem_cons.mp mem with rfl | old
        · exact notThis
        · exact noPipe c old
    · intro all
      refine ⟨?_, ?_⟩
      · rintro rfl
        exact (all [] calls rfl).1
      · intro pre post split
        obtain ⟨none, noPipe⟩ := all (call :: pre) post (by rw [split]; rfl)
        have notThis := noPipe call List.mem_cons_self
        refine ⟨(pipes_step first).mpr ⟨none, notThis⟩, ?_⟩
        exact fun c mem => noPipe c (List.mem_cons_of_mem call mem)

omit [DecidableEq α] in
theorem alive_start : Alive (Session.start : Session α) := by
  have known : Known (Session.start : Session α) := nofun
  apply known.alive
  intro key a found
  cases key <;> exact (nomatch found)

/-- Every appender that is known or was handed out lives, at every moment of a run, iff no pipe
was asked for before a shutdown. -/
theorem alive_throughout_iff {calls : List (Call α)} {s : Session α}
    (run : after Session.step .start calls = some s) :
    (∀ pre, pre <+: calls → ∀ t, after Session.step .start pre = some t → Alive t) ↔
      ∀ pre post, calls = pre ++ .shutdown :: post → ∀ call ∈ pre, ¬ call.IsPipe := by
  have kept : ∀ s : Session α, ∀ call ∈ calls, ∀ s', Known s ∧ Alive s → s.step call = some s' →
      Tidy s call → Known s' ∧ Alive s' := by
    rintro s call - s' ⟨known, alive⟩ moved tidy
    exact ⟨known_step known moved, (alive_step_iff known alive moved).mpr tidy⟩
  have exact' : ∀ s : Session α, ∀ call ∈ calls, ∀ s', Known s ∧ Alive s → s.step call = some s' →
      (Alive s' ↔ Tidy s call) := by
    rintro s call - s' ⟨known, alive⟩ moved
    exact alive_step_iff known alive moved
  have known : Known (Session.start : Session α) := nofun
  rw [throughout_iff_of_inv kept exact' ⟨known, alive_start⟩ alive_start, tidy_throughout_iff run]
  constructor
  · intro all pre post split
    exact (all pre post split).2
  · intro all pre post split
    exact ⟨fun _ => rfl, all pre post split⟩

theorem alive_throughout_iff_late_pipe :
    (after Session.step .start [Call.console 0, .shutdown, .pipe [112] 0, .console 1]).isSome ∧
      ∀ pre, pre <+: [Call.console 0, .shutdown, .pipe [112] 0, .console 1] →
        ∀ t, after Session.step .start pre = some t → Alive t := by
  have legal : (after Session.step .start
      [Call.console 0, .shutdown, .pipe [112] 0, .console 1]).isSome := by decide
  refine ⟨legal, ?_⟩
  obtain ⟨s, run⟩ := Option.isSome_iff_exists.mp legal
  rw [alive_throughout_iff run]
  rintro pre post split call mem ⟨filename, pipe⟩
  -- the shutdown comes right after the first call
  match pre, split with
  | [], _ => exact nomatch mem
  | [first], split =>
    obtain ⟨rfl, -⟩ := List.cons.inj split
    rw [List.mem_singleton.mp mem] at pipe
    exact nomatch pipe
  | [_, _], split => exact absurd split (by simp)
  | [_, _, _], split => exact absurd split (by simp)
  | _ :: _ :: _ :: _ :: _, split => exact absurd split (by simp)

/-- A pipe is asked for, everything is shut down, and the same pipe is asked for again: the one
that comes back was deleted. -/
theorem pipe_returned_dead :
    ∃ s : Session Nat,
      after Session.step .start [.pipe [112] 0, .shutdown, .pipe [112] 1] = some s ∧
        s.returned = [(.pipe [112], 0)] ∧ s.registries.appenders = ∅ ∧ ¬ Alive s := by
  have legal : (after Session.step (.start : Session Nat)
      [.pipe [112] 0, .shutdown, .pipe [112] 1]).map (fun s => (s.returned, s.registries.appenders)) =
        some ([(.pipe [112], 0)], ∅) := by decide
  obtain ⟨s, run, ends⟩ := Option.map_eq_some_iff.mp legal
  obtain ⟨returned, appenders⟩ := Prod.mk.inj ends
  refine ⟨s, run, returned, appenders, ?_⟩
  intro alive
  have lives := alive.returned (.pipe [112]) 0 (by rw [returned]; exact List.mem_cons_self)
  rw [appenders] at lives
  exact absurd lives (Finset.notMem_empty 0)

end AgentEngine.Alog
