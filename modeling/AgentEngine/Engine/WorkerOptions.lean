import AgentEngine.Util.OptionParser

/-!
The command line of a worker (`WorkerBase::InitOptions`, `worker_base.cc`).

The numbers of threads and the size of the queue are registered with the names of their settings
as default values (`common.h`). These are arrays of characters, so that the overload for strings
is taken: what is given for them is kept as text, and `GetOptionValue` into a `uint32_t` finds
nothing. `initOptions_numbers_iff` says what that leaves of a command line: the ports are read,
and the other numbers stay what they were.
-/

namespace AgentEngine.Engine

open Lib Util OptionParser

def kRpcServerThreadNum : List UInt8 := ascii "rpc_server_thread_num"
def kRpcServerIoThreadNum : List UInt8 := ascii "rpc_server_io_thread_num"
def kRpcServerQueueSize : List UInt8 := ascii "rpc_server_queue_size"

/-- The members that `InitOptions` uses. The constructor leaves the numbers uninitialised. -/
structure WorkerBase where
  threadNum : BitVec 32
  ioThreadNum : BitVec 32
  queueSize : BitVec 32
  port : BitVec 32
  httpPort : BitVec 32
  optionParser : OptionParser
  logConfigFile : List UInt8
  cwdPath : List UInt8

namespace WorkerBase

/-- The calls of `AddOption`, with the overload that each selects. -/
def addOptions (p : OptionParser) : OptionParser :=
  ((((((p.addTypedOption (ascii "-l") (ascii "--logConf") (ascii "logConf") .kOptString false)
    |>.addTypedOption (ascii "-w") (ascii "--workDir") (ascii "workDir") .kOptString false)
    |>.addOption (ascii "-t") (ascii "--threadNum") (ascii "threadNum") (.text kRpcServerThreadNum))
    |>.addOption (ascii "-i") (ascii "--ioThreadNum") (ascii "ioThreadNum")
        (.text kRpcServerIoThreadNum))
    |>.addOption (ascii "-q") (ascii "--queueSize") (ascii "queueSize") (.text kRpcServerQueueSize))
    |>.addOption (ascii "-p") (ascii "--port") (ascii "port") (.int32 0))
    |>.addOption (ascii "") (ascii "--httpPort") (ascii "httpPort") (.int32 0)

def initOptions (worker : WorkerBase) (argv : List (List UInt8)) : Bool × WorkerBase :=
  match (addOptions worker.optionParser).parseArgs argv with
  | (.error _, parser) => (false, { worker with optionParser := parser })
  | (.ok (), parser) =>
      (true,
        { logConfigFile := (parser.getString (ascii "logConf")).getD worker.logConfigFile
          cwdPath := (parser.getString (ascii "workDir")).getD worker.cwdPath
          threadNum := (parser.getUint32 (ascii "threadNum")).getD worker.threadNum
          ioThreadNum := (parser.getUint32 (ascii "ioThreadNum")).getD worker.ioThreadNum
          queueSize := (parser.getUint32 (ascii "queueSize")).getD worker.queueSize
          port := (parser.getInt32 (ascii "port")).getD worker.port
          httpPort := (parser.getInt32 (ascii "httpPort")).getD worker.httpPort
          optionParser := parser })

end WorkerBase

/-! ### Command lines with numbers -/

/-- The settings that are numbers. -/
inductive Setting where
  | threadNum
  | ioThreadNum
  | queueSize
  | port
  | httpPort
  deriving DecidableEq, Repr

namespace Setting

/-- The words that announce a setting. -/
def words : Setting → List (List UInt8)
  | threadNum => [ascii "-t", ascii "--threadNum"]
  | ioThreadNum => [ascii "-i", ascii "--ioThreadNum"]
  | queueSize => [ascii "-q", ascii "--queueSize"]
  | port => [ascii "-p", ascii "--port"]
  | httpPort => [ascii "--httpPort"]

/-- The settings that are signed, as opposed to the counts. -/
def isPort : Setting → Bool
  | threadNum | ioThreadNum | queueSize => false
  | port | httpPort => true

/-- The values of the type of a setting. -/
def InRange (s : Setting) (n : Int) : Prop :=
  if s.isPort then -2 ^ 31 ≤ n ∧ n < 2 ^ 31 else 0 ≤ n ∧ n < 2 ^ 32

end Setting

/-- The words that announce other options. -/
def otherWords : List (List UInt8) :=
  [ascii "-l", ascii "--logConf", ascii "-w", ascii "--workDir"]

/-- Argument vectors of settings, each followed by a numeral of its type, and of words that are no
options; with the numbers that they give. -/
inductive Gives : List (List UInt8) → List (Setting × Int) → Prop where
  | nil : Gives [] []
  | word {word argv given} (noSetting : ∀ s : Setting, word ∉ s.words) (noOther : word ∉ otherWords)
      (rest : Gives argv given) : Gives (word :: argv) given
  | setting {s word text n argv given} (announced : word ∈ Setting.words s) (numeral : Numeral text n)
      (range : s.InRange n) (rest : Gives argv given) :
      Gives (word :: text :: argv) ((s, n) :: given)

/-- The number that is given last for a setting. -/
def lastGiven (s : Setting) : List (Setting × Int) → Option Int
  | [] => none
  | (s', n) :: given => (lastGiven s given).or (if s = s' then some n else none)

/-- The number that a worker holds for a setting. -/
def WorkerBase.number (worker : WorkerBase) : Setting → Int
  | .threadNum => worker.threadNum.toNat
  | .ioThreadNum => worker.ioThreadNum.toNat
  | .queueSize => worker.queueSize.toNat
  | .port => worker.port.toInt
  | .httpPort => worker.httpPort.toInt

/-- The worker holds the numbers given. -/
def WorkerBase.Holds (worker : WorkerBase) (given : List (Setting × Int)) : Prop :=
  ∀ s n, lastGiven s given = some n → worker.number s = n

/-! ### The registered options -/

/-- The name under which a setting is registered. -/
def Setting.optName : Setting → List UInt8
  | threadNum => ascii "threadNum"
  | ioThreadNum => ascii "ioThreadNum"
  | queueSize => ascii "queueSize"
  | port => ascii "port"
  | httpPort => ascii "httpPort"

/-- A setting as it is registered. -/
def Setting.info (s : Setting) : OptionInfo :=
  ⟨s.optName, if s.isPort then .kOptInt32 else .kOptString, .kStore, false, false, false⟩

/-- The parser of a worker once its options are registered. -/
def registered : OptionParser := WorkerBase.addOptions (.new [])

theorem option_words {s : Setting} {word : List UInt8} (mem : word ∈ s.words) :
    registered.option word = some s.info := by
  rw [option_eq]
  revert mem word
  cases s <;> decide

theorem registered_keys :
    registered.shortOpt2infoMap.keys =
        [ascii "-p", ascii "-q", ascii "-i", ascii "-t", ascii "-w", ascii "-l"] ∧
      registered.longOpt2infoMap.keys =
        [ascii "--httpPort", ascii "--port", ascii "--queueSize", ascii "--ioThreadNum",
          ascii "--threadNum", ascii "--workDir", ascii "--logConf"] := by
  decide

theorem option_stray {word : List UInt8} (noSetting : ∀ s : Setting, word ∉ s.words)
    (noOther : word ∉ otherWords) : registered.option word = none := by
  have t := noSetting .threadNum
  have i := noSetting .ioThreadNum
  have q := noSetting .queueSize
  have p := noSetting .port
  have h := noSetting .httpPort
  simp only [Setting.words, otherWords, List.mem_cons, List.not_mem_nil, or_false, not_or]
    at t i q p h noOther
  apply option_eq_none
  · rw [AList.mem_keys, registered_keys.1]
    simp [t, i, q, p, noOther]
  · rw [AList.mem_keys, registered_keys.2]
    simp [t, i, q, p, h, noOther]

theorem registered_optional : registered.Optional := by
  unfold OptionParser.Optional
  decide

/-- A numeral is no option: behind its first character there are digits only. -/
theorem option_numeral {text : List UInt8} {n : Int} (h : Numeral text n) :
    registered.option text = none := by
  have digits := h.isdigit_tail
  have names : ∀ word ∈ registered.shortOpt2infoMap.keys ++ registered.longOpt2infoMap.keys,
      ¬ ∀ c ∈ word.tail, isdigit c := by
    rw [registered_keys.1, registered_keys.2]
    simp only [← List.all_eq_true]
    decide
  apply option_eq_none
  · intro mem
    exact names text (List.mem_append_left _ mem) digits
  · intro mem
    exact names text (List.mem_append_right _ mem) digits

variable {argv : List (List UInt8)} {given : List (Setting × Int)}

/-- The vector is one that the parser accepts, and the integers it stores are the ports. -/
theorem Gives.accepts (gives : Gives argv given) :
    ∃ options, registered.Accepts argv options ∧ ∀ s : Setting,
      OptionParser.lastInt s.optName options =
        if s.isPort then (lastGiven s given).map (BitVec.ofInt 32) else none := by
  induction gives with
  | nil => exact ⟨[], .nil, fun s => by simp [lastInt, lastGiven]⟩
  | word noSetting noOther _ ih =>
    obtain ⟨options, accepts, ints⟩ := ih
    exact ⟨options, .word (option_stray noSetting noOther) accepts, ints⟩
  | @setting s word text n argv given announced numeral range _ ih =>
    obtain ⟨options, accepts, ints⟩ := ih
    have same (s' : Setting) : s'.optName = s.info.optionName ↔ s' = s := by
      cases s <;> cases s' <;> decide
    have value : intValue s.info text =
        if s.isPort then some (BitVec.ofInt 32 n) else none := by
      unfold intValue Setting.info
      cases port : s.isPort with
      | false => rfl
      | true =>
        rw [Setting.InRange, port] at range
        exact StringUtil.strToInt32_numeral numeral range.1 range.2
    have takes : OptionParser.Takes s.info text := by
      cases port : s.isPort with
      | false => simp [OptionParser.Takes, Setting.info, port]
      | true =>
        rw [Setting.InRange, port] at range
        simp [OptionParser.Takes, Setting.info, port,
          StringUtil.strToInt32_numeral numeral range.1 range.2]
    refine ⟨(s.info, text) :: options,
      .option (option_words announced) rfl (option_numeral numeral) takes accepts, ?_⟩
    intro s'
    rw [lastInt, ints, value, lastGiven]
    simp only [same]
    by_cases here : s' = s
    · subst here
      cases s'.isPort <;> cases lastGiven s' given <;> simp
    · simp [here]

theorem Gives.inRange (gives : Gives argv given) {s : Setting} {n : Int} (last : lastGiven s given = some n) :
    s.InRange n := by
  induction gives with
  | nil => exact nomatch last
  | word _ _ _ ih => exact ih last
  | setting _ _ range _ ih =>
    rw [lastGiven, Option.or_eq_some_iff] at last
    rcases last with later | ⟨-, here⟩
    · exact ih later
    · split_ifs at here with same
      subst same
      cases here
      exact range

/-- What such a command line makes of a worker: it is accepted, the counts stay as they are, and
a port is what was given last for it. -/
theorem initOptions_gives {worker : WorkerBase} (constructed : worker.optionParser = .new [])
    (gives : Gives argv given) :
    ∃ worker', worker.initOptions argv = (true, worker') ∧
      (∀ s : Setting, s.isPort = false → worker'.number s = worker.number s) ∧
      ∀ s : Setting, s.isPort = true → worker'.number s = (lastGiven s given).getD 0 := by
  obtain ⟨options, accepts, ints⟩ := gives.accepts
  obtain ⟨parser, parsed, found⟩ := parseArgs_accepts accepts registered_optional
  have stored (s : Setting) : parser.intOptMap.lookup s.optName =
      if s.isPort then some (((lastGiven s given).map (BitVec.ofInt 32)).getD 0) else none := by
    have start : registered.intOptMap.lookup s.optName = if s.isPort then some 0 else none := by
      cases s <;> decide
    rw [found, ints, start]
    cases s.isPort <;> cases lastGiven s given <;> rfl
  have number (s : Setting) (port : s.isPort = true) :
      (((lastGiven s given).map (BitVec.ofInt 32)).getD 0).toInt = (lastGiven s given).getD 0 := by
    cases last : lastGiven s given with
    | none => rfl
    | some n =>
      have range := gives.inRange last
      rw [Setting.InRange, if_pos port] at range
      exact BitVec.toInt_ofInt_eq_self (by decide) range.1 range.2
  have parsed' : (WorkerBase.addOptions worker.optionParser).parseArgs argv = (.ok (), parser) := by
    rw [constructed]
    exact parsed
  have t := stored .threadNum
  have i := stored .ioThreadNum
  have q := stored .queueSize
  have p := stored .port
  have h := stored .httpPort
  simp only [Setting.optName, Setting.isPort, Bool.false_eq_true, if_false, if_true] at t i q p h
  refine ⟨_, by rw [WorkerBase.initOptions, parsed'], ?_, ?_⟩
  · intro s count
    cases s with
    | threadNum => simp only [WorkerBase.number, getUint32, t, Option.getD_none]
    | ioThreadNum => simp only [WorkerBase.number, getUint32, i, Option.getD_none]
    | queueSize => simp only [WorkerBase.number, getUint32, q, Option.getD_none]
    | port | httpPort => exact absurd count (by decide)
  · intro s port
    rw [← number s port]
    cases s with
    | port => simp only [WorkerBase.number, getInt32, p, Option.getD_some]
    | httpPort => simp only [WorkerBase.number, getInt32, h, Option.getD_some]
    | threadNum | ioThreadNum | queueSize => exact absurd port (by decide)

theorem initOptions_numbers_iff {worker : WorkerBase} (constructed : worker.optionParser = .new [])
    {argv : List (List UInt8)} {given : List (Setting × Int)} (gives : Gives argv given) :
    (∃ worker', worker.initOptions argv = (true, worker') ∧ worker'.Holds given) ↔
      ∀ s : Setting, s.isPort = false → ∀ n, lastGiven s given = some n → worker.number s = n := by
  obtain ⟨worker', parsed, counts, ports⟩ := initOptions_gives constructed gives
  constructor
  · rintro ⟨worker'', parsed'', holds⟩ s count n last
    have same : worker'' = worker' := congrArg Prod.snd (parsed''.symm.trans parsed)
    rw [← counts s count, ← same]
    exact holds s n last
  · intro before
    refine ⟨worker', parsed, ?_⟩
    intro s n last
    cases kind : s.isPort with
    | false => rw [counts s kind, before s kind n last]
    | true => rw [ports s kind, last, Option.getD_some]

/-- A worker whose members all happen to be zero. -/
def zeroWorker : WorkerBase where
  threadNum := 0
  ioThreadNum := 0
  queueSize := 0
  port := 0
  httpPort := 0
  optionParser := .new []
  logConfigFile := []
  cwdPath := []

/-- `worker --port -1 -t` with a count. -/
theorem gives_port_and_threads {text : List UInt8} {n : Nat} (numeral : Numeral text n)
    (small : n < 2 ^ 32) :
    Gives [ascii "worker", ascii "--port", ascii "-1", ascii "-t", text]
      [(.port, -1), (.threadNum, n)] := by
  have minusOne : Numeral (ascii "-1") (-1) := .minus (by decide : ascii "1" ≠ []) (List.all_eq_true.mp rfl)
  have port : Setting.InRange .port (-1) := by
    unfold Setting.InRange
    decide
  have threads : Setting.InRange .threadNum n := by
    show 0 ≤ (n : Int) ∧ (n : Int) < 2 ^ 32
    omega
  apply Gives.word
  · intro s
    cases s <;> decide
  · decide
  · exact .setting (by decide) minusOne port (.setting (by decide) numeral threads .nil)

theorem initOptions_numbers_iff_zero :
    zeroWorker.optionParser = .new [] ∧
      ∃ worker', zeroWorker.initOptions
        [ascii "worker", ascii "--port", ascii "-1", ascii "-t", ascii "0"] = (true, worker') ∧
        worker'.Holds [(.port, -1), (.threadNum, 0)] := by
  refine ⟨rfl, ?_⟩
  have zero : Numeral (ascii "0") (0 : Nat) := .plain (by decide) (List.all_eq_true.mp rfl)
  apply (initOptions_numbers_iff rfl (gives_port_and_threads zero (by decide))).mpr
  intro s count n last
  cases s with
  | threadNum => exact Option.some.inj last
  | ioThreadNum | queueSize => exact nomatch last
  | port | httpPort => exact absurd count (by decide)

/-- With four threads asked for, the worker still has what was in its memory. -/
theorem threads_not_set :
    Gives [ascii "worker", ascii "--port", ascii "-1", ascii "-t", ascii "4"]
        [(.port, -1), (.threadNum, 4)] ∧
      ∃ worker', zeroWorker.initOptions
        [ascii "worker", ascii "--port", ascii "-1", ascii "-t", ascii "4"] = (true, worker') ∧
        worker'.number .port = -1 ∧ worker'.number .threadNum = 0 ∧
        ¬ worker'.Holds [(.port, -1), (.threadNum, 4)] := by
  have four : Numeral (ascii "4") (4 : Nat) := .plain (by decide) (List.all_eq_true.mp rfl)
  have gives := gives_port_and_threads four (by decide)
  have zeroParser : zeroWorker.optionParser = .new [] := rfl
  refine ⟨gives, ?_⟩
  obtain ⟨worker', parsed, counts, ports⟩ := initOptions_gives zeroParser gives
  have threads : worker'.number .threadNum = 0 := counts .threadNum rfl
  refine ⟨worker', parsed, ports .port rfl, threads, ?_⟩
  intro holds
  have asked := holds .threadNum 4 rfl
  rw [threads] at asked
  exact absurd asked (by decide)

end AgentEngine.Engine
