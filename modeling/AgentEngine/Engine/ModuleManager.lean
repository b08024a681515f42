import AgentEngine.Lib.DepthFirst
import AgentEngine.Lib.UMap

/-!
The module manager of the worker process (`engine/common/module_manager.cc`,
`base_module.cc`, the `DEPEND_ON` macros of `common.h` and `creator_factory.h`).

`Init` creates one module per registered creator and binds every declared dependency in
both directions; `Start` and `Stop` load and unload the modules by a depth-bounded
recursion over the two relations. The fields of the module objects are kept as one map
per field from object to value, and the iteration order of every hash map, the outcome
of every callback and the sequence of calls are parameters.
-/

namespace AgentEngine.Engine

open Lib

/-- A module object, named by the key its creator is registered under. `CreateModule`
calls each creator once, so the key and the object determine each other. -/
abbrev ModuleRef := String

/-- The class a creator instantiates: the outcome of its `DoInit` and the type names of
its `DEPEND_ON` declarations in index order. -/
structure ModuleClass where
  doInit : Bool
  dependOn : List String
deriving DecidableEq, Repr

/-- A `ModuleCreatorFunc`: an empty `std::function`, one that returns a null pointer, or
one that makes an object of a class. -/
inductive ModuleCreatorFunc where
  | empty
  | null
  | create (cls : ModuleClass)
deriving DecidableEq, Repr

abbrev ModuleCreatorFuncMap := UMap String ModuleCreatorFunc

/-- `ModuleMap`; its values are shared pointers, which may be null. -/
abbrev ModuleMap := UMap String (Option ModuleRef)

/-- `CreatorFactory::AddCreatorFunc`, one call per `REGISTER_MODULE`. -/
def addCreatorFunc (funcs : ModuleCreatorFuncMap) (entry : String × ModuleCreatorFunc) :
    ModuleCreatorFuncMap :=
  funcs.insert entry.1 entry.2

/-- The maps that some loop of the manager iterates over. -/
inductive MapId where
  | moduleCreatorFuncs
  | modules
  | bindFuncs (m : ModuleRef)
  | dependModules (m : ModuleRef)
  | beDependedModules (m : ModuleRef)
deriving DecidableEq, Repr

/-- What the virtual callbacks return, by the number of callbacks made before. -/
structure Callbacks where
  doLoad : Nat → ModuleRef → Bool
  doUnload : Nat → ModuleRef → Bool

/-- The manager together with the fields of the module objects it owns. `calls` and
`trace` are ghost state: how many callbacks were made, and the `loaded_` flags at every
callback and after every change. -/
structure ModuleManager where
  stopped : Bool := true
  modules : UMap String ModuleRef := ∅
  moduleCreatorFuncs : ModuleCreatorFuncMap := ∅
  loaded : ModuleRef → Bool := fun _ => false
  bindFuncs : ModuleRef → UMap String String := fun _ => ∅
  dependModules : ModuleRef → ModuleMap := fun _ => ∅
  beDependedModules : ModuleRef → ModuleMap := fun _ => ∅
  calls : Nat := 0
  trace : List (ModuleRef → Bool) := []

namespace ModuleManager

/-- `MaxDepth`. -/
def maxDepth : Nat := 64

/-! ### Module objects -/

variable (s : ModuleManager) (m : ModuleRef)

/-- The callback runs now, with the flags as they stand. -/
def enterCallback : ModuleManager :=
  { s with calls := s.calls + 1, trace := s.trace ++ [s.loaded] }

/-- `loaded_ = flag`. -/
def setLoaded (flag : Bool) : ModuleManager :=
  { s with
    loaded := Function.update s.loaded m flag
    trace := s.trace ++ [Function.update s.loaded m flag] }

/-- The common shape of `BaseModule::Load` and `BaseModule::Unload`: nothing to do when
the flag already has its target, otherwise the callback decides. -/
def switchTo (target : Bool) (callback : Nat → ModuleRef → Bool) (m : ModuleRef)
    (s : ModuleManager) : Bool × ModuleManager :=
  if s.loaded m = target then (true, s)
  else if callback s.calls m then (true, s.enterCallback.setLoaded m target)
  else (false, s.enterCallback)

/-- `BaseModule::Load`. -/
def moduleLoad (cb : Callbacks) : ModuleRef → ModuleManager → Bool × ModuleManager :=
  switchTo true cb.doLoad

/-- `BaseModule::Unload`. -/
def moduleUnload (cb : Callbacks) : ModuleRef → ModuleManager → Bool × ModuleManager :=
  switchTo false cb.doUnload

/-- `InitDepends`: `DefineDependModule` runs the `DEPEND_ON` helpers in index order, each
of which assigns the bind function that captures its own type name. -/
def initDepends : ModuleManager :=
  match s.moduleCreatorFuncs.lookup m with
  | some (.create cls) =>
      { s with
        bindFuncs := Function.update s.bindFuncs m
          (cls.dependOn.foldl (fun funcs name => funcs.insert name name) (s.bindFuncs m)) }
  | _ => s

/-- Calling a bind function: `depend_modules_.emplace(name, base_module)`. -/
def bindFunc (name : String) (base : ModuleRef) : ModuleManager :=
  { s with
    dependModules := Function.update s.dependModules m
      (emplace (s.dependModules m) name (some base)) }

/-- `BaseModule::BeDepended`: `be_depended_modules_[name] = module`. -/
def beDepended (d : ModuleRef) (name : String) (m : ModuleRef) : ModuleManager :=
  { s with
    beDependedModules := Function.update s.beDependedModules d
      ((s.beDependedModules d).insert name (some m)) }

section Operations

variable (o : IterOrder MapId String) (cb : Callbacks)

/-! ### Init -/

/-- `GetModule(name)`. -/
def getModule (s : ModuleManager) (name : String) : Option ModuleRef :=
  s.modules.lookup name

/-- The loop body of `CreateModule`. -/
def createOne (entry : String × ModuleCreatorFunc) (s : ModuleManager) : Bool × ModuleManager :=
  match entry.2 with
  | .empty => (false, s)
  | .null => (false, s)
  | .create cls =>
      if cls.doInit then (true, { s with modules := emplace s.modules entry.1 entry.1 })
      else (false, s)

def createModule (s : ModuleManager) : Bool × ModuleManager :=
  runAll createOne (o.entries .moduleCreatorFuncs s.moduleCreatorFuncs) s

/-- The inner loop body of `BindDependModule`. -/
def bindOne (name : String) (m : ModuleRef) (entry : String × String) (s : ModuleManager) :
    Bool × ModuleManager :=
  match s.getModule entry.1 with
  | none => (false, s)
  | some d => (true, (s.bindFunc m entry.2 d).beDepended d name m)

/-- The outer loop body of `BindDependModule`. -/
def bindModule (entry : String × ModuleRef) (s : ModuleManager) : Bool × ModuleManager :=
  let s := s.initDepends entry.2
  runAll (bindOne entry.1 entry.2) (o.entries (.bindFuncs entry.2) (s.bindFuncs entry.2)) s

def bindDependModule (s : ModuleManager) : Bool × ModuleManager :=
  runAll (bindModule o) (o.entries .modules s.modules) s

/-- `Init`, with the creator map of the process. -/
def init (funcs : ModuleCreatorFuncMap) (s : ModuleManager) : Bool × ModuleManager :=
  match createModule o { s with moduleCreatorFuncs := funcs } with
  | (false, s') => (false, s')
  | (true, s') => bindDependModule o s'

/-! ### Load and unload -/

/-- The recursion of `Load`: over the modules depended on, skipping the loaded ones. -/
def loadWalk : Walk ModuleManager ModuleRef where
  settled s m := s.loaded m
  next s m := (o.entries (.dependModules m) (s.dependModules m)).map Prod.snd
  act := moduleLoad cb

/-- The recursion of `Unload`: over the dependent modules, skipping the unloaded ones. -/
def unloadWalk : Walk ModuleManager ModuleRef where
  settled s m := !s.loaded m
  next s m := (o.entries (.beDependedModules m) (s.beDependedModules m)).map Prod.snd
  act := moduleUnload cb

/-- `Load(module, depth)`, which fails from depth `maxDepth` on. -/
def load (depth : Nat) : ModuleRef → ModuleManager → Bool × ModuleManager :=
  (loadWalk o cb).visit (maxDepth - depth)

/-- `Unload(module, depth)`. -/
def unload (depth : Nat) : ModuleRef → ModuleManager → Bool × ModuleManager :=
  (unloadWalk o cb).visit (maxDepth - depth)

/-! ### Start and stop -/

/-- The common shape of `Start` and `Stop`: return at once when `stopped_` already has
its target, otherwise run over all modules and flip `stopped_` only at the end. -/
def sweep (target : Bool) (body : ModuleRef → ModuleManager → Bool × ModuleManager)
    (s : ModuleManager) : Bool × ModuleManager :=
  if s.stopped = target then (true, s)
  else
    match runAll body ((o.entries .modules s.modules).map Prod.snd) s with
    | (false, s') => (false, s')
    | (true, s') => (true, { s' with stopped := target })

def start : ModuleManager → Bool × ModuleManager :=
  sweep o false (load o cb 0)

def stop : ModuleManager → Bool × ModuleManager :=
  sweep o true (unload o cb 0)

/-- The public calls after `Init`; the destructor is one more `stop`. -/
inductive Call where
  | start
  | stop
deriving DecidableEq, Repr

def call : Call → ModuleManager → Bool × ModuleManager
  | .start => start o cb
  | .stop => stop o cb

/-- One executed call: the state before, the result and the state after. -/
structure Step where
  call : Call
  before : ModuleManager
  result : Bool
  after : ModuleManager

/-- Run a sequence of calls, recording each of them. -/
def steps : List Call → ModuleManager → List Step
  | [], _ => []
  | c :: cs, s =>
      let out := call o cb c s
      ⟨c, s, out.1, out.2⟩ :: steps cs out.2

/-- The state a sequence of calls ends in. -/
def run : List Call → ModuleManager → ModuleManager
  | [], s => s
  | c :: cs, s => run cs (call o cb c s).2

end Operations

end ModuleManager

end AgentEngine.Engine
