import AgentEngine.Alog.Logger
import AgentEngine.Alog.Properties

/-!
How loggers and appenders are configured from a text (`Configurator.cpp`, `Layout.cpp`).

A step that cannot go on ends in a `Failure`: a `std::runtime_error`, or what the source does not
guard against, which is a read behind the end of a log pattern, and a null `m_parent` or a null
result of `getpwuid` that is followed. What a failure leaves of the state is not looked at.

An appender is known by its key, and its settings are kept under it; appenders that were made
before are still there. What comes from the system is a parameter (`Environment`).
-/

namespace AgentEngine.Alog

open Lib

inductive Failure where
  | runtimeError (what : List UInt8)
  | outOfBounds
  | nullParent
  | nullPasswd
  deriving DecidableEq, Repr

/-- A failure that is no error of the library. -/
def Failure.Misuse (f : Failure) : Prop := ∀ what, f ≠ .runtimeError what

/-- What the configuration asks of the system. -/
structure Environment where
  getenv : List UInt8 → Option (List UInt8)
  getpid : Nat
  /-- The first line of `/proc/PID/cmdline`, unless it cannot be read. -/
  cmdline : Option (List UInt8)
  /-- `getcwd`, unless it fails. -/
  getcwd : Option (List UInt8)
  /-- `pw_dir` of what `getpwuid(getuid())` points to, unless one of them is null. -/
  getpwuid : Option (Option (List UInt8))

/-! ### Layouts -/

inductive FormatComponent where
  | string (literal : List UInt8)
  | message
  | name
  | date
  | zoneDate
  | level
  | processId
  | threadId
  | file
  | function
  | line
  deriving DecidableEq, Repr

/-- The component for the letter behind `%%`. -/
def formatComponent (letter : UInt8) : Option FormatComponent :=
  if letter = 109 then some .message
  else if letter = 99 then some .name
  else if letter = 100 then some .date
  else if letter = 122 then some .zoneDate
  else if letter = 108 then some .level
  else if letter = 112 then some .processId
  else if letter = 116 then some .threadId
  else if letter = 70 then some .file
  else if letter = 102 then some .function
  else if letter = 110 then some .line
  else none

/-- The literal read so far, if there is any. -/
def literalComponent (literal : List UInt8) : List FormatComponent :=
  if literal = [] then [] else [.string literal]

/-- `PatternLayout::setLogPattern`, behind a literal that has been read. A percent sign that is the
last character passes the test `i + 2 != end`: the loop steps over the end and runs on. -/
def setLogPatternFrom (literal : List UInt8) : List UInt8 → Option (List FormatComponent)
  | [] => some (literalComponent literal)
  | 37 :: rest =>
      match rest with
      | [] => none
      | [c] => setLogPatternFrom (literal ++ [37]) [c]
      | 37 :: letter :: rest =>
          match formatComponent letter with
          | some component =>
              (setLogPatternFrom [] rest).map fun components =>
                literalComponent literal ++ component :: components
          | none => setLogPatternFrom (literal ++ [37, 37, letter]) rest
      | c :: c' :: rest => setLogPatternFrom (literal ++ [37, c]) (c' :: rest)
  | c :: rest => setLogPatternFrom (literal ++ [c]) rest

def setLogPattern (logPattern : List UInt8) : Option (List FormatComponent) :=
  setLogPatternFrom [] logPattern

inductive Layout where
  | basic
  | simple
  | binary
  | pattern (components : List FormatComponent)
  deriving DecidableEq, Repr

/-- The components of a new `PatternLayout`. -/
def defaultPattern : List FormatComponent :=
  [.date, .string [32], .level, .string [32], .name, .string (ascii " ("), .processId,
    .string (ascii "/"), .threadId, .string (ascii ") : "), .message]

example : setLogPattern (ascii "%%d %%l %%c (%%p/%%t) : %%m") = some defaultPattern := by decide

/-! ### Appenders -/

/-- What is set on a `FileAppender`. -/
structure FileSettings where
  maxSize : Nat
  maxDelayTime : BitVec 32
  compress : Bool
  cacheLimit : Nat
  keepFileCount : BitVec 32
  asyncFlush : Bool
  flushThreshold : BitVec 32
  flushInterval : BitVec 32
  deriving DecidableEq, Repr

def DEFAULT_FLUSH_THRESHOLD_IN_KB : BitVec 32 := 1024
def DEFAULT_FLUSH_INTERVAL_IN_MS : BitVec 32 := 1000

structure AppenderSettings where
  autoFlush : Bool
  /-- `m_layout`; a pipe has none until it needs one. -/
  layout : Option Layout
  /-- The facility of a `SyslogAppender`. -/
  facility : BitVec 32
  file : FileSettings
  deriving DecidableEq, Repr

def newFileSettings : FileSettings :=
  ⟨0, 0, false, 0, 0, false, DEFAULT_FLUSH_THRESHOLD_IN_KB * 1024, DEFAULT_FLUSH_INTERVAL_IN_MS⟩

/-- A new appender. -/
def newAppender (key : Key) (facility : BitVec 32) : AppenderSettings where
  autoFlush := false
  layout := match key with
    | .pipe _ => none
    | _ => some .basic
  facility := facility
  file := newFileSettings

/-- What is configured. -/
structure System where
  loggers : Loggers
  appenders : UMap Key AppenderSettings
  /-- `gEventBase.m_pendingFileAppenders`. -/
  pendingFileAppenders : List Key
  /-- `Logger::MAX_MESSAGE_LENGTH`. -/
  maxMessageLength : BitVec 32

/-- What the properties of an appender ask for: which appender, and what is to be set on it. -/
structure AppenderPlan where
  key : Key
  facility : BitVec 32
  autoFlush : Option Bool
  file : Option FileSettings
  layout : Option Layout
  deriving DecidableEq, Repr

/-- What is set on an appender, be it new or not. -/
def AppenderPlan.settings (plan : AppenderPlan) (old : AppenderSettings) : AppenderSettings where
  autoFlush := plan.autoFlush.getD old.autoFlush
  layout := plan.layout.or old.layout
  facility := old.facility
  file := plan.file.getD old.file

/-- Get the appender, set what is to be set, and have it flushed if it does not do so itself. -/
def AppenderPlan.apply (plan : AppenderPlan) (sys : System) : System :=
  let old := (sys.appenders.lookup plan.key).getD (newAppender plan.key plan.facility)
  let asyncFlush := match plan.file with
    | some file => file.asyncFlush
    | none => false
  { sys with
    appenders := sys.appenders.insert plan.key (plan.settings old)
    pendingFileAppenders :=
      if asyncFlush then sys.pendingFileAppenders ++ [plan.key] else sys.pendingFileAppenders }

namespace Configurator

variable (env : Environment) (p : Properties) (appenderName : List UInt8) (sys : System)
  (value : List UInt8)

/-- What follows the last dot. -/
def afterLastDot : List UInt8 := (value.reverse.takeWhile (· ≠ 46)).reverse

inductive AppenderType where
  | consoleAppender
  | fileAppender
  | syslogAppender
  | pipeAppender
  deriving DecidableEq, Repr

def appenderType : Option AppenderType :=
  let type := afterLastDot value
  if type = ascii "ConsoleAppender" then some .consoleAppender
  else if type = ascii "FileAppender" then some .fileAppender
  else if type = ascii "SyslogAppender" then some .syslogAppender
  else if type = ascii "PipeAppender" then some .pipeAppender
  else none

/-- `getProgressName` from the command line: what follows the last slash of the first argument. -/
def getProgressName (line : List UInt8) : List UInt8 :=
  ((cstr line).reverse.takeWhile (· ≠ 47)).reverse

/-- `path.rfind('/', start - 1)`, where `none` is `npos`; so is `start - 1` for a `start` of 0. -/
def rfindSlash (path : List UInt8) (start : Option Nat) : Option Nat :=
  let searched := match start with
    | none | some 0 => path
    | some (last + 1) => path.take (last + 1)
  (searched.reverse.idxOf? 47).map fun i => searched.length - 1 - i

/-- The loop of `getLastDirectory`. -/
def lastSlash (path : List UInt8) : (layers : Nat) → (start : Option Nat) → Option Nat
  | 0, start => start
  | layers + 1, start =>
      let start := rfindSlash path start
      if start = some 0 then start else lastSlash path layers start

/-- `getLastDirectory` from the working directory. -/
def getLastDirectory (layers : Nat) (cwdPath : List UInt8) : List UInt8 :=
  let path := if cwdPath.getLast? = some 47 then cwdPath.dropLast else cwdPath
  match lastSlash path layers (if path = [] then none else some (path.length - 1)) with
  | none | some 0 => path
  | some start => path.drop (start + 1)

example : getLastDirectory 1 (ascii "/home/user/") = ascii "user" ∧
    getLastDirectory 2 (ascii "/srv/home/user") = ascii "home/user" ∧
    getLastDirectory 2 (ascii "/home/user") = ascii "/home/user" := by
  decide

def getHomeDirectory : Except Failure (List UInt8) :=
  match env.getenv (ascii "HOME") with
  | some directory => .ok directory
  | none =>
      match env.getpwuid with
      | some directory => .ok (directory.getD [])
      | none => .error .nullPasswd

/-- What a letter behind a percent sign stands for. -/
def expandLetter (letter : UInt8) : Except Failure (List UInt8) :=
  if letter = 37 then .ok [37]
  else if letter = 101 then
    match env.cmdline with
    | some line => .ok (getProgressName line)
    | none =>
        .error (.runtimeError (ascii "get line failed: filename[/proc/" ++ decimal env.getpid ++
          ascii "/cmdline]"))
  else if letter = 112 then .ok (decimal env.getpid)
  else if letter = 99 ∨ letter = 67 then
    match env.getcwd with
    | some path => .ok (getLastDirectory (if letter = 99 then 1 else 2) path)
    | none => .error (.runtimeError (ascii "getcwd failed."))
  else if letter = 126 then getHomeDirectory env
  else .ok [37, letter]

def transformPattern (env : Environment) : List UInt8 → Except Failure (List UInt8)
  | [] => .ok []
  | [c] => .ok [c]
  | c :: letter :: rest =>
      if c ≠ 37 then do
        let result ← transformPattern env (letter :: rest)
        return c :: result
      else do
        let part ← expandLetter env letter
        let result ← transformPattern env rest
        return part ++ result

/-- `translateDelayTime`; products wrap around. -/
def translateDelayTime (str : List UInt8) : BitVec 32 :=
  let delay :=
    match str.getLast? with
    | none => 0
    | some unit =>
        if unit = 115 ∨ unit = 83 then atoi str
        else if unit = 109 ∨ unit = 77 then atoi str * 60
        else if unit = 100 ∨ unit = 68 then atoi str * (24 * 3600)
        else atoi str * 3600
  if delay.toInt < 0 then 0 else delay

/-- What the properties say about a file. -/
def fileSettings (appenderPrefix : List UInt8) : FileSettings where
  maxSize := (p.getInt (appenderPrefix ++ ascii ".max_file_size") 0).toNat * 1024 * 1024
  maxDelayTime :=
    translateDelayTime (p.getString (appenderPrefix ++ ascii ".delay_time") (ascii "0"))
  compress := p.getBool (appenderPrefix ++ ascii ".compress") false
  cacheLimit := (p.getInt (appenderPrefix ++ ascii ".cache_limit") 0).toNat * 1024 * 1024
  keepFileCount := p.getInt (appenderPrefix ++ ascii ".log_keep_count") 0
  -- an appender that flushes by itself is not flushed by others
  asyncFlush := p.getBool (appenderPrefix ++ ascii ".async_flush") true &&
    !p.getBool (appenderPrefix ++ ascii ".flush") false
  flushThreshold :=
    let inKB := p.getInt (appenderPrefix ++ ascii ".flush_threshold") DEFAULT_FLUSH_THRESHOLD_IN_KB
    if inKB = 0 then DEFAULT_FLUSH_THRESHOLD_IN_KB else inKB * 1024
  flushInterval :=
    let interval :=
      p.getInt (appenderPrefix ++ ascii ".flush_interval") DEFAULT_FLUSH_INTERVAL_IN_MS
    if interval = 0 then DEFAULT_FLUSH_INTERVAL_IN_MS else interval

/-- What the properties of an appender ask for, its layout apart. -/
def appenderPlan (appenderPrefix : List UInt8) : AppenderType → Except Failure AppenderPlan
  | .consoleAppender =>
      .ok ⟨.console, 0, some (p.getBool (appenderPrefix ++ ascii ".flush") true), none, none⟩
  | .fileAppender => do
      let fileName ← transformPattern env
        (p.getString (appenderPrefix ++ ascii ".fileName") (ascii "default.log"))
      return ⟨.file fileName, 0, some (p.getBool (appenderPrefix ++ ascii ".flush") false),
        some (fileSettings p appenderPrefix), none⟩
  | .syslogAppender =>
      let ident := p.getString (appenderPrefix ++ ascii ".ident") (ascii "syslog")
      let facility := p.getInt (appenderPrefix ++ ascii ".facility") 1 <<< 3
      .ok ⟨.syslog ident, facility, none, none, none⟩
  | .pipeAppender =>
      let fileName := p.getString (appenderPrefix ++ ascii ".fileName") (ascii "default.log")
      .ok ⟨.pipe fileName, 0, none, none, none⟩

inductive LayoutType where
  | basicLayout
  | simpleLayout
  | binaryLayout
  | patternLayout
  deriving DecidableEq, Repr

def layoutType : Option LayoutType :=
  let type := afterLastDot value
  if type = ascii "BasicLayout" then some .basicLayout
  else if type = ascii "SimpleLayout" then some .simpleLayout
  else if type = ascii "BinaryLayout" then some .binaryLayout
  else if type = ascii "PatternLayout" then some .patternLayout
  else none

/-- The layout that `setLayout` makes, if the properties name one. -/
def layoutFor : Except Failure (Option Layout) :=
  match p.find (ascii "appender." ++ appenderName ++ ascii ".layout") with
  | none => .ok none
  | some value =>
      match layoutType value with
      | some .basicLayout => .ok (some .basic)
      | some .simpleLayout => .ok (some .simple)
      | some .binaryLayout => .ok (some .binary)
      | some .patternLayout =>
          match p.find (ascii "appender." ++ appenderName ++ ascii ".layout.LogPattern") with
          | none => .ok (some (.pattern defaultPattern))
          | some logPattern =>
              match setLogPattern logPattern with
              | some components => .ok (some (.pattern components))
              | none => .error .outOfBounds
      | none =>
          .error (.runtimeError (ascii "Unknown layout type '" ++ afterLastDot value ++
            ascii "' for appender '" ++ appenderName ++ ascii "'"))

/-- What `instantiateAppender` reads. -/
def readAppender : Except Failure AppenderPlan :=
  let appenderPrefix := ascii "appender." ++ appenderName
  match p.find appenderPrefix with
  | none =>
      .error (.runtimeError (ascii "Appender '" ++ appenderName ++ ascii "' not defined"))
  | some value =>
      match appenderType value with
      | none =>
          .error (.runtimeError (ascii "Appender '" ++ appenderName ++ ascii "' has unknown type '" ++
            afterLastDot value ++ ascii "'"))
      | some type => do
          let plan ← appenderPlan env p appenderPrefix type
          let layout ← layoutFor p appenderName
          return { plan with layout }

/-- Reads the properties and sets what they say. -/
def instantiateAppender : Except Failure (Key × System) := do
  let plan ← readAppender env p appenderName
  return (plan.key, plan.apply sys)

/-- The loop of `initAllAppenders` over the keys that begin with `appender.`. -/
def initAppenders (env : Environment) (p : Properties) (currentAppender : List UInt8)
    (allAppenders : UMap (List UInt8) Key) (sys : System) :
    List (List UInt8) → Except Failure (UMap (List UInt8) Key × System)
  | [] => .ok (allAppenders, sys)
  | key :: keys =>
      match StringUtil.split key 46 with
      | _ :: appenderName :: more =>
          if appenderName = currentAppender then
            initAppenders env p currentAppender allAppenders sys keys
          else if more = [] then do
            let (appender, sys) ← instantiateAppender env p appenderName sys
            initAppenders env p appenderName (allAppenders.insert appenderName appender) sys keys
          else .error (.runtimeError (ascii "partial appender definition : " ++ key))
      | _ => .error (.runtimeError (ascii "missing appender name"))

def appenderKeys : List (List UInt8) :=
  (p.group (ascii "appender")).map Prod.fst

def initAllAppenders : Except Failure (UMap (List UInt8) Key × System) :=
  initAppenders env p [] ∅ sys (appenderKeys p)

/-! ### Loggers -/

def getLevelByString (levelStr : List UInt8) : Nat :=
  if levelStr = ascii "DISABLE" then LOG_LEVEL_DISABLE
  else if levelStr = ascii "FATAL" then LOG_LEVEL_FATAL
  else if levelStr = ascii "ERROR" then LOG_LEVEL_ERROR
  else if levelStr = ascii "WARN" then LOG_LEVEL_WARN
  else if levelStr = ascii "INFO" then LOG_LEVEL_INFO
  else if levelStr = ascii "DEBUG" then LOG_LEVEL_DEBUG
  else if levelStr = ascii "TRACE1" then LOG_LEVEL_TRACE1
  else if levelStr = ascii "TRACE2" then LOG_LEVEL_TRACE2
  else if levelStr = ascii "TRACE3" then LOG_LEVEL_TRACE3
  else LOG_LEVEL_NOTSET

/-- The level in the first field of a logger's value. -/
def levelField (loggerName : List UInt8) (tokens : List (List UInt8)) : Except Failure Nat :=
  match tokens with
  | [] => .ok LOG_LEVEL_NOTSET
  | first :: _ =>
      let levelStr := StringUtil.trim first
      if levelStr = [] then .ok LOG_LEVEL_NOTSET
      else
        let level := getLevelByString levelStr
        if LOG_LEVEL_NOTSET ≤ level then
          .error (.runtimeError (ascii "Unknow level  for logger '" ++ loggerName ++ ascii "'"))
        else .ok level

/-- The loop over the other fields, which are appenders. -/
def addAppenders (loggerName : List UInt8) (allAppenders : UMap (List UInt8) Key) (i : Nat)
    (loggers : Loggers) : List (List UInt8) → Except Failure Loggers
  | [] => .ok loggers
  | token :: tokens =>
      match allAppenders.lookup (StringUtil.trim token) with
      | none =>
          .error (.runtimeError (ascii "Appender '" ++ StringUtil.trim token ++
            ascii "' not found for logger '" ++ loggerName ++ ascii "'"))
      | some appender =>
          addAppenders loggerName allAppenders i (loggers.addAppender i appender) tokens

def configureLogger (loggerName : List UInt8) (allAppenders : UMap (List UInt8) Key)
    (p : Properties) (loggers : Loggers) : Except Failure Loggers :=
  let isRoot := decide (loggerName = ascii "rootLogger")
  let tempLoggerName := if isRoot then loggerName else ascii "logger." ++ loggerName
  match p.find tempLoggerName with
  | none =>
      if tempLoggerName = ascii "rootLogger" then .ok loggers
      else .error (.runtimeError (ascii "Unable to find logger: " ++ tempLoggerName))
  | some value => do
      let (i, loggers) := if isRoot then (Loggers.root, loggers) else loggers.getLogger loggerName
      let tokens := StringUtil.split value 44
      let level ← levelField loggerName tokens
      let inherit := p.getBool (ascii "inherit." ++ loggerName) true
      match (loggers.setLevel i level).setInheritFlag i inherit with
      | none => .error .nullParent
      | some loggers =>
          addAppenders loggerName allAppenders i (loggers.removeAllAppenders i) tokens.tail

def initLoggers : List (List UInt8) :=
  ascii "rootLogger" :: (p.group (ascii "logger")).map fun e => e.1.drop 7

def configureLoggers (allAppenders : UMap (List UInt8) Key) (p : Properties) (loggers : Loggers) :
    List (List UInt8) → Except Failure Loggers
  | [] => .ok loggers
  | loggerName :: loggerList => do
      let loggers ← configureLogger loggerName allAppenders p loggers
      configureLoggers allAppenders p loggers loggerList

def globalInit : System :=
  let value := p.getInt (ascii "max_msg_len") 1024
  if 0 < value.toInt then { sys with maxMessageLength := value } else sys

def innerConfigureLogger : Except Failure System := do
  let (allAppenders, sys) ← initAllAppenders env p (globalInit p sys)
  let loggers ← configureLoggers allAppenders p sys.loggers (initLoggers p)
  return { sys with loggers }

def configureLoggerFromString (fileContent : List UInt8) (sys : System) : Except Failure System :=
  innerConfigureLogger env (Properties.load env.getenv (cstr fileContent)) sys

/-- A process with nothing in its environment. -/
def plainEnvironment : Environment :=
  { getenv := fun _ => none, getpid := 1, cmdline := none, getcwd := none, getpwuid := none }

/-- A process that has not configured anything. -/
def newSystem : System :=
  { loggers := Loggers.start, appenders := ∅, pendingFileAppenders := [], maxMessageLength := 1024 }

end Configurator

end AgentEngine.Alog
