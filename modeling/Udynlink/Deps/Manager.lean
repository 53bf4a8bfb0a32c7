import Mathlib

/-!
# The dependency manager

Registry and loading stack of `udynlink_deps`, and the calls that load and unload
modules through it. A load hands control to the host, which may load and unload
further modules before it returns.
-/

namespace Udynlink.Deps

/-- Address of a module handle; 0 is NULL. -/
abbrev Handle := UInt32

abbrev ModName := List UInt8

structure DepEntry where
  pMod : Handle
  gateway : UInt32
deriving DecidableEq, Repr

/-- `entries` and `loadingStack` are the parts in use, `count` and `loading_depth`
their lengths. -/
structure DepMgr where
  entries : List DepEntry
  capacity : Nat
  loadingStack : List ModName
deriving DecidableEq, Repr

def maxDepth : Nat := 8

namespace DepMgr

/-- `udynlink_dep_mgr_init`. -/
def init (capacity : Nat) : DepMgr := ⟨[], capacity, []⟩

def isLoading (mgr : DepMgr) (name : ModName) : Bool := mgr.loadingStack.contains name

/-- A full stack takes no further name. -/
def pushLoading (mgr : DepMgr) (name : ModName) : DepMgr :=
  if mgr.loadingStack.length < maxDepth then
    { mgr with loadingStack := mgr.loadingStack ++ [name] }
  else mgr

def popLoading (mgr : DepMgr) : DepMgr :=
  { mgr with loadingStack := mgr.loadingStack.dropLast }

/-- A full registry takes no further module; no caller looks at the result. -/
def registerModule (mgr : DepMgr) (pMod : Handle) : DepMgr :=
  if mgr.entries.length ≥ mgr.capacity then mgr
  else { mgr with entries := mgr.entries ++ [⟨pMod, 0⟩] }

/-- The last entry takes the place of the first one with the handle. -/
def unregisterModule (mgr : DepMgr) (pMod : Handle) : DepMgr :=
  match mgr.entries.findIdx? fun e => e.pMod = pMod with
  | none => mgr
  | some i =>
    { mgr with entries := (mgr.entries.set i (mgr.entries.getLastD ⟨0, 0⟩)).dropLast }

/-- `nameOf` reads the name behind a handle's header. -/
def depFind (mgr : DepMgr) (nameOf : Handle → Option ModName) (name : ModName) : Option Handle :=
  (mgr.entries.find? fun e => e.pMod ≠ 0 ∧ nameOf e.pMod = some name).map DepEntry.pMod

end DepMgr

/-- The manager, and the modules that are loaded with their names, if they have one. -/
structure DepState where
  mgr : DepMgr
  modules : Handle → Option (Option ModName)

namespace DepState

def initial (capacity : Nat) : DepState := ⟨.init capacity, fun _ => none⟩

def nameOf (s : DepState) (pMod : Handle) : Option ModName := (s.modules pMod).join

def withMgr (s : DepState) (f : DepMgr → DepMgr) : DepState := { s with mgr := f s.mgr }

def setModule (s : DepState) (pMod : Handle) (m : Option (Option ModName)) : DepState :=
  { s with modules := Function.update s.modules pMod m }

def pushName (s : DepState) (name : Option ModName) : DepState :=
  match name with
  | some n => s.withMgr fun mgr => mgr.pushLoading n
  | none => s

def popName (s : DepState) (name : Option ModName) : DepState :=
  match name with
  | some _ => s.withMgr DepMgr.popLoading
  | none => s

/-- The load is refused: its module is on the stack. -/
def refuses (s : DepState) (name : Option ModName) : Bool :=
  match name with
  | some n => s.mgr.isLoading n
  | none => false

/-- `udynlink_dep_unload`: the registry first, then the module, if it is loaded. -/
def depUnload (s : DepState) (pMod : Handle) : DepState :=
  if pMod = 0 then s
  else (s.withMgr fun mgr => mgr.unregisterModule pMod).setModule pMod none

end DepState

/-! ## Calls -/

/-- The calls of a host, one after the other. A load comes with the calls the host
makes while the image is loaded, whether that succeeds, and the calls it makes while
the thunks are generated. -/
inductive Calls where
  | done
  | load (pMod : Handle) (name : Option ModName) (nested : Calls) (ok : Bool) (after rest : Calls)
  | unload (pMod : Handle) (rest : Calls)
deriving DecidableEq, Repr

/-- A load in progress. -/
abbrev Flight := Handle × Option ModName

/-- What can be looked at between two calls. -/
structure Moment where
  inFlight : List Flight
  state : DepState

namespace DepState

/-- The head of `udynlink_dep_load`; the handle is in use from here on. -/
def startLoad (s : DepState) (pMod : Handle) (name : Option ModName) : DepState :=
  (s.pushName name).setModule pMod none

/-- The module is loaded and registered. -/
def finishLoad (s : DepState) (pMod : Handle) (name : Option ModName) : DepState :=
  (s.setModule pMod (some name)).withMgr fun mgr => mgr.registerModule pMod

/-- The load has failed: the handle is marked free. -/
def abortLoad (s : DepState) (pMod : Handle) (name : Option ModName) : DepState :=
  (s.setModule pMod none).popName name

end DepState

/-- The calls in order: the state behind them, and every moment between two calls. -/
def exec : Calls → List Flight → DepState → DepState × List Moment
  | .done, flight, s => (s, [⟨flight, s⟩])
  | .unload pMod rest, flight, s =>
    let r := exec rest flight (s.depUnload pMod)
    (r.1, ⟨flight, s⟩ :: r.2)
  | .load pMod name nested ok after rest, flight, s =>
    if pMod = 0 ∨ s.refuses name then
      let r := exec rest flight s
      (r.1, ⟨flight, s⟩ :: r.2)
    else
      let inner := flight ++ [(pMod, name)]
      let r1 := exec nested inner (s.startLoad pMod name)
      if ok then
        let r2 := exec after inner (r1.1.finishLoad pMod name)
        let r := exec rest flight (r2.1.popName name)
        (r.1, ⟨flight, s⟩ :: (r1.2 ++ (r2.2 ++ r.2)))
      else
        let r := exec rest flight (r1.1.abortLoad pMod name)
        (r.1, ⟨flight, s⟩ :: (r1.2 ++ r.2))

end Udynlink.Deps
