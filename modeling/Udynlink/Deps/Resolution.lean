import Udynlink.Host
import Udynlink.Deps.Manager
import Udynlink.Deps.Thunk

/-!
# Symbol resolution across modules

The callback of the host asks the resolvers of the dependency manager, these look the
name up in the registered modules, and the lookup of a weak symbol asks the callback.
The recursion is cut off by a number of nested callbacks; `none` is a resolution that
has not come to its end by then.
-/

namespace Udynlink.Deps

open Machine

/-- A symbol as the lookup hands it out, the load address folded in. -/
structure ModSym where
  name : ModName
  val : UInt32
  type : UInt8
  location : SymLocation
deriving DecidableEq, Repr

/-- The entries of the symbol table from 1 on. -/
structure LoadedModule where
  name : Option ModName
  ramBase : UInt32
  syms : List ModSym
deriving DecidableEq, Repr

/-- The first entry with the name; nameless entries have none. -/
def LoadedModule.find (m : LoadedModule) (name : ModName) : Option ModSym :=
  m.syms.find? fun sym => sym.type ≠ symTypeInternal ∧ sym.name = name

/-- What does not change during a resolution: the registry, the loaded modules, the
first halfwords of their thunk slots, and the answers of the host's own functions. -/
structure Env where
  mgr : DepMgr
  modules : Handle → LoadedModule
  slot : Addr → UInt16
  externalDepLoad : ModName → Handle
  hostSymbol : ModName → UInt32

/-- The thunks, and the gateways of the registry's entries by index. -/
structure ResState where
  thunks : Thunks
  gateways : Nat → Addr

abbrev Resolver := ModName → ResState → Option (UInt32 × ResState)

def depPrefix : ModName := ".udynlink.mod.requires.".toUTF8.toList

def thunkExportPrefix : ModName := ".udynlink.thunk_export.".toUTF8.toList

def depMaxName : Nat := 64

/-- `udynlink_dep_get_name`. -/
def depGetName (name : ModName) : Option ModName :=
  if depPrefix.isPrefixOf name then some (name.drop depPrefix.length) else none

namespace Env

variable (env : Env)

def handles : List Handle := env.mgr.entries.map DepEntry.pMod

def resolveDependency (name : ModName) : UInt32 :=
  match depGetName name with
  | none => 0
  | some depName =>
    if env.mgr.isLoading depName then symDeferred
    else
      match env.mgr.depFind (fun h => (env.modules h).name) depName with
      | some pMod => pMod
      | none => env.externalDepLoad depName

end Env

/-- A weak symbol is open to override. -/
def ModSym.override (sym : ModSym) (symAddr : UInt32) : ModSym :=
  if symAddr = symDeferred then sym
  else if symAddr > 0 then { sym with val := symAddr }
  else sym

theorem ModSym.override_type (sym : ModSym) (a : UInt32) : (sym.override a).type = sym.type := by
  unfold ModSym.override
  split
  · rfl
  · split <;> rfl

theorem ModSym.override_location (sym : ModSym) (a : UInt32) :
    (sym.override a).location = sym.location := by
  unfold ModSym.override
  split
  · rfl
  · split <;> rfl

/-- `udynlink_lookup_symbol` on a loaded module. -/
def lookupSymbol (resolve : Resolver) (m : LoadedModule) (name : ModName) (s : ResState) :
    Option (Option ModSym × ResState) :=
  match m.find name with
  | none => some (none, s)
  | some sym =>
    if sym.type = symTypeWeak then
      (resolve name s).map fun r => (some (sym.override r.1), r.2)
    else some (some sym, s)

/-- A stub from the pool for entry `i`. -/
def dynamicStub (i : Nat) (ramBase funcAddr : UInt32) (s : ResState) : UInt32 × ResState :=
  let existing := findStub s.thunks.mem s.thunks.pool funcAddr
  if existing ≠ 0 then (existing, s)
  else if s.gateways i ≠ 0 then
    let r := s.thunks.allocStub funcAddr (s.gateways i)
    (r.1, { s with thunks := r.2 })
  else
    let g := s.thunks.allocGateway ramBase
    let s := ⟨g.2, Function.update s.gateways i g.1⟩
    if g.1 = 0 then (0, s)
    else
      let r := s.thunks.allocStub funcAddr g.1
      (r.1, { s with thunks := r.2 })

namespace Env

variable (env : Env) (resolve : Resolver)

/-- The stub of a function in entry `i`: the one in the module, if it has one, or one
from the pool. -/
def serveFunc (i : Nat) (m : LoadedModule) (sym : ModSym) (name : ModName) (s : ResState) :
    Option (UInt32 × ResState) :=
  if name.length > 0 ∧ name.length ≤ depMaxName then
    (lookupSymbol resolve m (thunkExportPrefix ++ name) s).bind fun r =>
      match r.1 with
      | some tsym =>
        if tsym.type = symTypeExported ∧ tsym.location = .data ∧ env.slot tsym.val ≠ 0 then
          some (tsym.val ||| 1, r.2)
        else some (dynamicStub i m.ramBase sym.val r.2)
      | none => some (dynamicStub i m.ramBase sym.val r.2)
  else some (dynamicStub i m.ramBase sym.val s)

/-- The entries of `udynlink_dep_resolve_func` from index `i` on. -/
def resolveFuncFrom (name : ModName) : Nat → List Handle → ResState → Option (UInt32 × ResState)
  | _, [], s => some (0, s)
  | i, h :: hs, s =>
    if h = 0 then resolveFuncFrom name (i + 1) hs s
    else
      (lookupSymbol resolve (env.modules h) name s).bind fun r =>
        match r.1 with
        | none => resolveFuncFrom name (i + 1) hs r.2
        | some sym =>
          if sym.location = .data then resolveFuncFrom name (i + 1) hs r.2
          else env.serveFunc resolve i (env.modules h) sym name r.2

def resolveFunc (name : ModName) (s : ResState) : Option (UInt32 × ResState) :=
  env.resolveFuncFrom resolve name 0 env.handles s

def resolveDataFrom (name : ModName) : List Handle → ResState → Option (UInt32 × ResState)
  | [], s => some (0, s)
  | h :: hs, s =>
    if h = 0 then resolveDataFrom name hs s
    else
      (lookupSymbol resolve (env.modules h) name s).bind fun r =>
        match r.1 with
        | none => resolveDataFrom name hs r.2
        | some sym =>
          if sym.location = .data then some (sym.val, r.2) else resolveDataFrom name hs r.2

def resolveData (name : ModName) (s : ResState) : Option (UInt32 × ResState) :=
  env.resolveDataFrom resolve name env.handles s

end Env

/-- The host's callback, with at most `n` callbacks nested. -/
def externalResolveSymbol (env : Env) : Nat → Resolver
  | 0, _, _ => none
  | n + 1, name, s =>
    if env.resolveDependency name ≠ 0 then some (env.resolveDependency name, s)
    else
      (env.resolveFunc (externalResolveSymbol env n) name s).bind fun thunk =>
        if thunk.1 ≠ 0 then some thunk
        else
          (env.resolveData (externalResolveSymbol env n) name thunk.2).bind fun data =>
            if data.1 ≠ 0 then some data else some (env.hostSymbol name, data.2)

/-! ## The first symbol that decides -/

def ModSym.isWeak (sym : ModSym) : Bool := sym.type = symTypeWeak

def ModSym.isIn (location : SymLocation) (sym : ModSym) : Bool := sym.location = location

/-- Whether the module behind a handle has a symbol of the name with the property. -/
def Env.defines (env : Env) (p : ModSym → Bool) (name : ModName) (h : Handle) : Bool :=
  h ≠ 0 && ((env.modules h).find name).any p

end Udynlink.Deps
