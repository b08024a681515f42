import AgentEngine.Lib.CString
import AgentEngine.Lib.UMap

/-!
The command line parser `OptionParser` (`option_parser.h`, `option_parser.cc`).

An option is registered under a short and a long word, with the type that its default value
selects among the overloads of `AddOption`. `ParseArgs` stores what it reads in the map of that
type, and the getters read the map of the type they are asked for. What the parser prints before
it gives up is the error of its result.

* `parseArgs_accepts`: a vector of stray words and of options with a value of their type is
  accepted, and an integer is found under a name iff an integer option of that name was given or
  had a default.
-/

namespace AgentEngine.Util

open Lib

namespace StringUtil

/-- `StrToInt32` with a 64 bit `long`. -/
def strToInt32 (str : List UInt8) : Option (BitVec 32) :=
  if cstr str = [] then none
  else
    let value64 := strtol str
    if value64 < -2 ^ 31 ∨ 2 ^ 31 - 1 < value64 then none
    else if strtolRange str = false ∧ strtolEnd str = [] then some (BitVec.ofInt 32 value64)
    else none

def strToInt64 (str : List UInt8) : Option Int :=
  if cstr str = [] then none
  else if strtolRange str = false ∧ strtolEnd str = [] then some (strtol str)
  else none

theorem strToInt32_numeral {text : List UInt8} {n : Int} (h : Numeral text n) (low : -2 ^ 31 ≤ n)
    (high : n < 2 ^ 31) : strToInt32 text = some (BitVec.ofInt 32 n) := by
  obtain ⟨value, range⟩ := h.strtol_eq (by omega) (by omega)
  rw [strToInt32, if_neg h.cstr_ne_nil]
  simp only [value, range, h.strtolEnd_eq_nil, and_self, if_true]
  rw [if_neg (by omega)]

end StringUtil

inductive OptionType where
  | kOptString
  | kOptInt32
  | kOptUint32
  | kOptBool
  | kOptHelp
  deriving DecidableEq, Repr

inductive OptionAction where
  | kStore
  | kStoreTrue
  | kStoreFalse
  deriving DecidableEq, Repr

structure OptionInfo where
  optionName : List UInt8
  optionType : OptionType
  optionAction : OptionAction
  isRequired : Bool
  isMultiValue : Bool := false
  isSet : Bool := false
  deriving DecidableEq, Repr

def OptionInfo.hasValue (info : OptionInfo) : Bool := info.optionAction = .kStore

/-- An option as it was registered: parsing changes nothing of it but `isSet`. -/
def OptionInfo.registered (info : OptionInfo) : OptionInfo := { info with isSet := false }

/-- The default values, one constructor for each overload of `AddOption` that takes one. A string
literal and an array of characters are taken as `text`. -/
inductive DefaultValue where
  | text (value : List UInt8)
  | uint32 (value : BitVec 32)
  | int32 (value : BitVec 32)
  | bool (value : Bool)
  deriving DecidableEq, Repr

structure OptionParser where
  usageDescription : List UInt8
  strOptMap : UMap (List UInt8) (List UInt8)
  intOptMap : UMap (List UInt8) (BitVec 32)
  boolOptMap : UMap (List UInt8) Bool
  multiValueStrOptMap : UMap (List UInt8) (List (List UInt8))
  shortOpt2infoMap : UMap (List UInt8) Nat
  longOpt2infoMap : UMap (List UInt8) Nat
  optionInfos : List OptionInfo
  shortIndexed : ∀ opt index, shortOpt2infoMap.lookup opt = some index → index < optionInfos.length
  longIndexed : ∀ opt index, longOpt2infoMap.lookup opt = some index → index < optionInfos.length

namespace OptionParser

def new (usageDescription : List UInt8) : OptionParser where
  usageDescription := usageDescription
  strOptMap := ∅
  intOptMap := ∅
  boolOptMap := ∅
  multiValueStrOptMap := ∅
  shortOpt2infoMap := ∅
  longOpt2infoMap := ∅
  optionInfos := []
  shortIndexed := nofun
  longIndexed := nofun

/-! ### Registration -/

/-- An option gets an index unless its word is empty; a word that is taken keeps its option. -/
def addIndex (m : UMap (List UInt8) Nat) (opt : List UInt8) (index : Nat) :
    UMap (List UInt8) Nat :=
  if opt = [] then m else emplace m opt index

theorem addIndex_lt {m : UMap (List UInt8) Nat} {opt : List UInt8} {n : Nat}
    (indexed : ∀ o i, m.lookup o = some i → i < n) :
    ∀ o i, (addIndex m opt n).lookup o = some i → i < n + 1 := by
  intro o i found
  unfold addIndex emplace at found
  split_ifs at found
  · exact Nat.lt_succ_of_lt (indexed o i found)
  · exact Nat.lt_succ_of_lt (indexed o i found)
  · rcases lookup_insert_eq_some.mp found with ⟨-, rfl⟩ | ⟨-, old⟩
    · exact Nat.lt_succ_self _
    · exact Nat.lt_succ_of_lt (indexed o i old)

def addOptionInfo (p : OptionParser) (optionInfo : OptionInfo) (shortOpt longOpt : List UInt8) :
    OptionParser :=
  { p with
    shortOpt2infoMap := addIndex p.shortOpt2infoMap shortOpt p.optionInfos.length
    longOpt2infoMap := addIndex p.longOpt2infoMap longOpt p.optionInfos.length
    optionInfos := p.optionInfos ++ [optionInfo]
    shortIndexed := by
      rw [List.length_append]
      exact addIndex_lt p.shortIndexed
    longIndexed := by
      rw [List.length_append]
      exact addIndex_lt p.longIndexed }

/-- `AddOption` with a default value. -/
def addOption (p : OptionParser) (shortOpt longOpt optName : List UInt8) :
    DefaultValue → OptionParser
  | .text value =>
      let p := p.addOptionInfo ⟨optName, .kOptString, .kStore, false, false, false⟩ shortOpt longOpt
      { p with strOptMap := p.strOptMap.insert optName value }
  | .uint32 value =>
      let p := p.addOptionInfo ⟨optName, .kOptUint32, .kStore, false, false, false⟩ shortOpt longOpt
      { p with intOptMap := p.intOptMap.insert optName value }
  | .int32 value =>
      let p := p.addOptionInfo ⟨optName, .kOptInt32, .kStore, false, false, false⟩ shortOpt longOpt
      { p with intOptMap := p.intOptMap.insert optName value }
  | .bool value =>
      let p := p.addOptionInfo ⟨optName, .kOptBool, .kStoreTrue, false, false, false⟩ shortOpt longOpt
      { p with boolOptMap := p.boolOptMap.insert optName value }

/-- `AddOption` with a type. -/
def addTypedOption (p : OptionParser) (shortOpt longOpt optName : List UInt8)
    (type : OptionType := .kOptString) (isRequired : Bool := false) : OptionParser :=
  p.addOptionInfo ⟨optName, type, .kStore, isRequired, false, false⟩ shortOpt longOpt

/-! ### Parsing -/

/-- The option that a word names, a short one before a long one, and its index. -/
def findInfo (p : OptionParser) (word : List UInt8) : Option (Nat × OptionInfo) :=
  match short : p.shortOpt2infoMap.lookup word with
  | some index => some (index, p.optionInfos.get ⟨index, p.shortIndexed word index short⟩)
  | none =>
    match long : p.longOpt2infoMap.lookup word with
    | some index => some (index, p.optionInfos.get ⟨index, p.longIndexed word index long⟩)
    | none => none

/-- `info.isSet = true`. -/
def mark (p : OptionParser) (index : Nat) : OptionParser :=
  { p with
    optionInfos := p.optionInfos.modify index fun info => { info with isSet := true }
    shortIndexed := by
      rw [List.length_modify]
      exact p.shortIndexed
    longIndexed := by
      rw [List.length_modify]
      exact p.longIndexed }

def mustHaveValue (optName : List UInt8) : List UInt8 :=
  ascii "Option parse error: option [" ++ optName ++ ascii "] must have value!\n"

def invalidValue (type : String) (optarg optName : List UInt8) : List UInt8 :=
  ascii ("Option parse error: invalid " ++ type ++ " value[") ++ optarg ++ ascii "] for option [" ++
    optName ++ ascii "]\n"

/-- The `switch` over the type of an option. -/
def store (p : OptionParser) (info : OptionInfo) (optName optarg : List UInt8) :
    Except (List UInt8) OptionParser :=
  match info.optionType with
  | .kOptString =>
      if info.isMultiValue then
        let values := (p.multiValueStrOptMap.lookup info.optionName).getD []
        .ok { p with
          multiValueStrOptMap := p.multiValueStrOptMap.insert info.optionName (values ++ [optarg]) }
      else .ok { p with strOptMap := p.strOptMap.insert info.optionName optarg }
  | .kOptInt32 =>
      match StringUtil.strToInt32 optarg with
      | none => .error (invalidValue "int32" optarg optName)
      | some value => .ok { p with intOptMap := p.intOptMap.insert info.optionName value }
  | .kOptUint32 =>
      match StringUtil.strToInt64 optarg with
      | none => .error (invalidValue "uint32" optarg optName)
      | some value =>
          if value < 0 ∨ 2 ^ 32 - 1 < value then .error (invalidValue "uint32" optarg optName)
          else
            .ok { p with
              intOptMap := p.intOptMap.insert info.optionName (BitVec.ofInt 32 value) }
  | .kOptBool =>
      .ok { p with
        boolOptMap := p.boolOptMap.insert info.optionName (info.optionAction = .kStoreTrue) }
  | .kOptHelp => .ok p

def isValidArgs (p : OptionParser) : Except (List UInt8) Unit :=
  match p.optionInfos.find? fun info => info.isRequired && !info.isSet with
  | some info =>
      .error (ascii "Option parse error: missing required option [" ++ info.optionName ++
        ascii "]\n")
  | none => .ok ()

def parseArgs (p : OptionParser) : List (List UInt8) → Except (List UInt8) Unit × OptionParser
  | [] => (p.isValidArgs, p)
  | optName :: argv =>
      match p.findInfo optName with
      | none => p.parseArgs argv
      | some (index, info) =>
          if info.optionType = .kOptHelp then (.error (p.usageDescription ++ ascii "\n"), p)
          else if info.hasValue then
            match argv with
            | [] => (.error (mustHaveValue optName), p)
            | optarg :: argv =>
                if (p.findInfo optarg).isSome then (.error (mustHaveValue optName), p)
                else
                  match (p.mark index).store info optName optarg with
                  | .error text => (.error text, p.mark index)
                  | .ok p => p.parseArgs argv
          else
            match (p.mark index).store info optName [] with
            | .error text => (.error text, p.mark index)
            | .ok p => p.parseArgs argv

/-! ### The overloads of `GetOptionValue` -/

def getString (p : OptionParser) (optName : List UInt8) : Option (List UInt8) :=
  p.strOptMap.lookup optName

def getInt32 (p : OptionParser) (optName : List UInt8) : Option (BitVec 32) :=
  p.intOptMap.lookup optName

/-- The same map, read as `uint32_t`. -/
def getUint32 (p : OptionParser) (optName : List UInt8) : Option (BitVec 32) :=
  p.intOptMap.lookup optName

/-! ### What the parser accepts -/

/-- The option that a word names, as it was registered. -/
def option (p : OptionParser) (word : List UInt8) : Option OptionInfo :=
  (p.findInfo word).map fun found => found.2.registered

theorem option_eq (p : OptionParser) (word : List UInt8) :
    p.option word = ((p.shortOpt2infoMap.lookup word).or (p.longOpt2infoMap.lookup word)).bind
      fun index => (p.optionInfos.map OptionInfo.registered)[index]? := by
  unfold option findInfo
  split
  · rename_i index short
    have here := p.shortIndexed word index short
    simp [short, List.getElem?_eq_getElem here]
  · rename_i short
    split
    · rename_i index long
      have here := p.longIndexed word index long
      simp [short, long, List.getElem?_eq_getElem here]
    · rename_i long
      simp [short, long]

variable {word : List UInt8}

theorem option_eq_none {p : OptionParser} (short : word ∉ p.shortOpt2infoMap)
    (long : word ∉ p.longOpt2infoMap) : p.option word = none := by
  rw [option_eq, AList.lookup_eq_none.mpr short, AList.lookup_eq_none.mpr long]
  rfl

/-- The options are the same but for what was set. -/
structure Keeps (p q : OptionParser) : Prop where
  short : q.shortOpt2infoMap = p.shortOpt2infoMap
  long : q.longOpt2infoMap = p.longOpt2infoMap
  infos : q.optionInfos.map OptionInfo.registered = p.optionInfos.map OptionInfo.registered

variable {p q r : OptionParser}

theorem Keeps.trans (pq : Keeps p q) (qr : Keeps q r) : Keeps p r :=
  ⟨qr.short.trans pq.short, qr.long.trans pq.long, qr.infos.trans pq.infos⟩

theorem Keeps.option_eq (keeps : Keeps p q) : q.option = p.option := by
  funext word
  rw [OptionParser.option_eq, OptionParser.option_eq, keeps.short, keeps.long, keeps.infos]

theorem keeps_mark (p : OptionParser) (index : Nat) : Keeps p (p.mark index) := by
  refine ⟨rfl, rfl, ?_⟩
  apply List.ext_getElem?
  intro i
  simp only [mark, List.getElem?_map, List.getElem?_modify]
  cases p.optionInfos[i]? with
  | none => rfl
  | some info => by_cases here : index = i <;> simp [here, OptionInfo.registered]

variable {info : OptionInfo} {optName optarg : List UInt8}

theorem keeps_store (stored : p.store info optName optarg = .ok q) : Keeps p q := by
  unfold store at stored
  split at stored
  · split_ifs at stored <;> cases stored <;> exact ⟨rfl, rfl, rfl⟩
  · split at stored
    · cases stored
    · cases stored
      exact ⟨rfl, rfl, rfl⟩
  · split at stored
    · cases stored
    · split_ifs at stored
      cases stored
      exact ⟨rfl, rfl, rfl⟩
  · cases stored
    exact ⟨rfl, rfl, rfl⟩
  · cases stored
    exact ⟨rfl, rfl, rfl⟩

/-- No option is required. -/
def Optional (p : OptionParser) : Prop :=
  ∀ info ∈ p.optionInfos.map OptionInfo.registered, info.isRequired = false

theorem isValidArgs_of_optional (optional : Optional p) : p.isValidArgs = .ok () := by
  have none : p.optionInfos.find? (fun info => info.isRequired && !info.isSet) = none := by
    rw [List.find?_eq_none]
    intro info mem
    have free := optional _ (List.mem_map_of_mem mem)
    simp only [OptionInfo.registered] at free
    simp [free]
  rw [isValidArgs, none]


/-- The integer that an option writes for a value, if it writes one. -/
def intValue (info : OptionInfo) (optarg : List UInt8) : Option (BitVec 32) :=
  match info.optionType with
  | .kOptInt32 => StringUtil.strToInt32 optarg
  | .kOptUint32 => (StringUtil.strToInt64 optarg).map (BitVec.ofInt 32)
  | _ => none

/-- The value is one of the option's type. -/
def Takes (info : OptionInfo) (optarg : List UInt8) : Prop :=
  match info.optionType with
  | .kOptString => True
  | .kOptInt32 => (StringUtil.strToInt32 optarg).isSome
  | .kOptUint32 => ∃ value, StringUtil.strToInt64 optarg = some value ∧ 0 ≤ value ∧ value < 2 ^ 32
  | .kOptBool => True
  | .kOptHelp => False

/-- A value of the option's type is stored, and of the integers it changes at most the one under
the option's name. -/
theorem store_takes (takes : Takes info optarg) :
    ∃ q, p.store info optName optarg = .ok q ∧ ∀ name, q.intOptMap.lookup name =
      (if name = info.optionName then intValue info optarg else none).or
        (p.intOptMap.lookup name) := by
  have written (value : BitVec 32) (name : List UInt8) :
      (p.intOptMap.insert info.optionName value).lookup name =
        (if name = info.optionName then some value else none).or (p.intOptMap.lookup name) := by
    by_cases same : name = info.optionName
    · rw [same, AList.lookup_insert, if_pos rfl]
      rfl
    · rw [AList.lookup_insert_ne same, if_neg same]
      rfl
  cases type : info.optionType with
  | kOptString =>
    simp only [store, intValue, type, ite_self, Option.none_or]
    split_ifs <;> exact ⟨_, rfl, fun _ => rfl⟩
  | kOptInt32 =>
    simp only [Takes, type] at takes
    obtain ⟨value, read⟩ := Option.isSome_iff_exists.mp takes
    simp only [store, intValue, type, read]
    exact ⟨_, rfl, written value⟩
  | kOptUint32 =>
    simp only [Takes, type] at takes
    obtain ⟨value, read, low, high⟩ := takes
    simp only [store, intValue, type, read, Option.map_some]
    rw [if_neg (by omega)]
    exact ⟨_, rfl, written _⟩
  | kOptBool =>
    simp only [store, intValue, type, ite_self, Option.none_or]
    exact ⟨_, rfl, fun _ => rfl⟩
  | kOptHelp =>
    simp only [Takes, type] at takes

/-- Vectors of stray words and of options that are followed by a value of their type, with the
options and values. -/
inductive Accepts (p : OptionParser) :
    List (List UInt8) → List (OptionInfo × List UInt8) → Prop where
  | nil : Accepts p [] []
  | word {word argv given} (stray : p.option word = none) (rest : Accepts p argv given) :
      Accepts p (word :: argv) given
  | option {opt optarg info argv given} (named : p.option opt = some info) (value : info.hasValue)
      (stray : p.option optarg = none) (takes : Takes info optarg) (rest : Accepts p argv given) :
      Accepts p (opt :: optarg :: argv) ((info, optarg) :: given)

/-- The integer that is given last under a name. -/
def lastInt (name : List UInt8) : List (OptionInfo × List UInt8) → Option (BitVec 32)
  | [] => none
  | (info, optarg) :: given =>
      (lastInt name given).or (if name = info.optionName then intValue info optarg else none)

theorem option_eq_none_iff : p.option word = none ↔ p.findInfo word = none :=
  Option.map_eq_none_iff

variable {argv : List (List UInt8)}

theorem parseArgs_word (stray : p.option word = none) :
    p.parseArgs (word :: argv) = p.parseArgs argv := by
  rw [parseArgs, option_eq_none_iff.mp stray]

/-- One option with its value: nothing else is looked at before the parser goes on. -/
theorem parseArgs_option {opt optarg : List UInt8}
    (named : p.option opt = some info) (value : info.hasValue) (stray : p.option optarg = none)
    (takes : Takes info optarg) :
    ∃ q, Keeps p q ∧ p.parseArgs (opt :: optarg :: argv) = q.parseArgs argv ∧
      ∀ name, q.intOptMap.lookup name =
        (if name = info.optionName then intValue info optarg else none).or
          (p.intOptMap.lookup name) := by
  obtain ⟨⟨index, found⟩, isFound, rfl⟩ := Option.map_eq_some_iff.mp named
  -- neither the value nor the switch looks at whether the option was set before
  have takes' : Takes found optarg := takes
  have value' : found.hasValue := value
  obtain ⟨q, stored, ints⟩ := (store_takes takes' : ∃ q, (p.mark index).store found opt optarg = .ok q ∧ _)
  refine ⟨q, (keeps_mark p index).trans (keeps_store stored), ?_, ints⟩
  have noHelp : found.optionType ≠ .kOptHelp := by
    intro help
    rw [Takes, help] at takes'
    exact takes'
  rw [parseArgs, isFound]
  simp only [if_neg noHelp, value', if_true, option_eq_none_iff.mp stray, Option.isSome_none,
    Bool.false_eq_true, if_false, stored]

theorem parseArgs_accepts {p : OptionParser}
    {given : List (OptionInfo × List UInt8)} (accepts : Accepts p argv given)
    (optional : Optional p) :
    ∃ q, p.parseArgs argv = (.ok (), q) ∧
      ∀ name, q.intOptMap.lookup name = (lastInt name given).or (p.intOptMap.lookup name) := by
  -- the parser changes on the way; what it accepts does not
  have run : ∀ q, Keeps p q → ∃ r, q.parseArgs argv = (.ok (), r) ∧
      ∀ name, r.intOptMap.lookup name = (lastInt name given).or (q.intOptMap.lookup name) := by
    induction accepts with
    | nil =>
      intro q keeps
      have valid : q.isValidArgs = .ok () := by
        apply isValidArgs_of_optional
        rw [Optional, keeps.infos]
        exact optional
      exact ⟨q, by rw [parseArgs, valid], fun _ => rfl⟩
    | word stray _ ih =>
      intro q keeps
      rw [parseArgs_word (by rw [keeps.option_eq, stray])]
      exact ih q keeps
    | option named value stray takes _ ih =>
      intro q keeps
      obtain ⟨q', keeps', parsed, ints⟩ := parseArgs_option (by rw [keeps.option_eq, named]) value
        (by rw [keeps.option_eq, stray]) takes
      obtain ⟨r, ends, last⟩ := ih q' (keeps.trans keeps')
      refine ⟨r, by rw [parsed, ends], ?_⟩
      intro name
      rw [last, ints, lastInt, Option.or_assoc]
  exact run p ⟨rfl, rfl, rfl⟩

end OptionParser

end AgentEngine.Util
