import Udynlink.Deps.ThunkSlots

/-!
# Loading, unloading and handing out stubs

A world is the registry, the loaded instances, and the memory with the pool. A load or an
unload comes with the memory it leaves behind.
-/

namespace Udynlink.Deps

open Machine

/-- A loaded module. What the host answered to weak symbols when the slots were filled is
kept for the specification; no operation reads it. -/
structure Instance where
  mod : LoadedModule
  told : ModName → UInt32

def Instance.area (i : Instance) : List Span := i.mod.thunkArea i.told

structure World where
  mgr : DepMgr
  modules : Handle → Option Instance
  thunks : Thunks

def DepMgr.pushName (mgr : DepMgr) : Option ModName → DepMgr
  | some n => mgr.pushLoading n
  | none => mgr

def DepMgr.popName (mgr : DepMgr) : Option ModName → DepMgr
  | some _ => mgr.popLoading
  | none => mgr

/-- The load is refused: its module is on the stack. -/
def DepMgr.refuses (mgr : DepMgr) : Option ModName → Bool
  | some n => mgr.isLoading n
  | none => false

namespace World

def initial (capacity : Nat) (mem : Mem) (buf : Addr) (sz : UInt32) : World :=
  ⟨.init capacity, fun _ => none, ⟨mem, .init buf sz⟩⟩

/-- Nothing is found in a module that is not loaded. -/
def module (w : World) (pMod : Handle) : LoadedModule :=
  match w.modules pMod with
  | some i => i.mod
  | none => ⟨none, 0, []⟩

def setModule (w : World) (pMod : Handle) (i : Option Instance) (mem : Mem) : World :=
  { w with modules := Function.update w.modules pMod i, thunks := ⟨mem, w.thunks.pool⟩ }

/-- `udynlink_load_module` on its own: the slots stay as the image has them. -/
def loadModule (w : World) (pMod : Handle) (result : Option LoadedModule) (mem : Mem) : World :=
  if pMod = 0 then w else w.setModule pMod (result.map fun m => ⟨m, fun _ => 0⟩) mem

/-- `udynlink_dep_load`. -/
def depLoad (w : World) (pMod : Handle) (name : Option ModName) (result : Option LoadedModule)
    (answer : ModName → UInt32) (mem : Mem) : World :=
  if pMod = 0 ∨ w.mgr.refuses name then w
  else
    match result with
    | none => { w.setModule pMod none mem with mgr := (w.mgr.pushName name).popName name }
    | some m =>
      { w.setModule pMod (some ⟨m, answer⟩) (m.generateThunks answer mem) with
        mgr := ((w.mgr.pushName name).registerModule pMod).popName name }

def depUnload (w : World) (pMod : Handle) (mem : Mem) : World :=
  if pMod = 0 then w
  else { w.setModule pMod none mem with mgr := w.mgr.unregisterModule pMod }

end World

/-- `udynlink_thunk_make_call`, from where the function is found. -/
def Thunks.makeCall (t : Thunks) (ramBase funcAddr : UInt32) : UInt32 × Thunks :=
  let existing := findStub t.mem t.pool funcAddr
  if existing ≠ 0 then (existing, t)
  else
    let gateway := thunkFindGateway t.mem t.pool ramBase
    if gateway ≠ 0 then t.allocStub funcAddr gateway
    else
      let r := t.allocGateway ramBase
      if r.1 = 0 then (0, r.2) else r.2.allocStub funcAddr r.1

namespace World

variable (w : World) (answer : ModName → UInt32)

def makeCall (pMod : Handle) (name : ModName) : UInt32 × World :=
  match (w.module pMod).lookup answer name with
  | none => (0, w)
  | some sym =>
    if sym.location = .data then (0, w)
    else
      let r := w.thunks.makeCall (w.module pMod).ramBase sym.val
      (r.1, { w with thunks := r.2 })

/-- The registry and the modules, as the resolvers see them. -/
def env : Env := ⟨w.mgr, w.module, w.thunks.mem.u16, fun _ => 0, fun _ => 0⟩

def resState : ResState := ⟨w.thunks, fun i => (w.mgr.entries.getD i ⟨0, 0⟩).gateway⟩

def withState (s : ResState) : World :=
  { w with
    thunks := s.thunks
    mgr := { w.mgr with
      entries := w.mgr.entries.mapIdx fun i e => { e with gateway := s.gateways i } } }

/-- `udynlink_dep_resolve_func`. -/
def resolveFunc (name : ModName) : UInt32 × World :=
  match w.env.resolveFunc (answering answer) name w.resState with
  | some r => (r.1, w.withState r.2)
  | none => (0, w)

end World

/-! ## Steps -/

inductive ThunkStep where
  | load (pMod : Handle) (result : Option LoadedModule) (mem : Mem)
  | depLoad (pMod : Handle) (name : Option ModName) (result : Option LoadedModule)
      (answer : ModName → UInt32) (mem : Mem)
  | depUnload (pMod : Handle) (mem : Mem)
  | makeCall (answer : ModName → UInt32) (pMod : Handle) (name : ModName)
  | resolveFunc (answer : ModName → UInt32) (name : ModName)

/-- The stub that is handed out, and the world behind the step. -/
def World.exec (w : World) : ThunkStep → UInt32 × World
  | .load pMod result mem => (0, w.loadModule pMod result mem)
  | .depLoad pMod name result answer mem => (0, w.depLoad pMod name result answer mem)
  | .depUnload pMod mem => (0, w.depUnload pMod mem)
  | .makeCall answer pMod name => w.makeCall answer pMod name
  | .resolveFunc answer name => w.resolveFunc answer name

/-! ## Requests -/

/-- A function of an instance that a step asks for, and its slot, if that serves. -/
structure Request where
  pMod : Handle
  inst : Instance
  name : ModName
  func : UInt32
  slot : Option Addr

namespace Env

variable (env : Env) (answer : ModName → UInt32) (name : ModName)

/-- The first entry with a function of the name. -/
def owner : Nat → List Handle → Option (Nat × Handle × ModSym)
  | _, [] => none
  | i, h :: hs =>
    if h = 0 then owner (i + 1) hs
    else
      match (env.modules h).lookup answer name with
      | none => owner (i + 1) hs
      | some sym => if sym.location = .data then owner (i + 1) hs else some (i, h, sym)

/-- The slot of a function, when it is filled. -/
def slotFor (m : LoadedModule) : Option Addr :=
  if name.length > 0 ∧ name.length ≤ depMaxName then
    match m.lookup answer (thunkExportPrefix ++ name) with
    | some tsym =>
      if tsym.type = symTypeExported ∧ tsym.location = .data ∧ env.slot tsym.val ≠ 0 then
        some tsym.val
      else none
    | none => none
  else none

theorem slotFor_some {m : LoadedModule} {a : Addr} (h : env.slotFor answer name m = some a) :
    ∃ tsym, m.lookup answer (thunkExportPrefix ++ name) = some tsym ∧
      tsym.type = symTypeExported ∧ tsym.location = .data ∧ env.slot tsym.val ≠ 0 ∧
      tsym.val = a := by
  unfold slotFor at h
  split at h
  · split at h
    · rename_i tsym ht
      split at h
      · rename_i hall
        exact ⟨tsym, ht, hall.1, hall.2.1, hall.2.2, Option.some.inj h⟩
      · cases h
    · cases h
  · cases h

/-- How a function is served. -/
theorem serveFunc_answering (i : Nat) (m : LoadedModule) (sym : ModSym) (s : ResState) :
    env.serveFunc (answering answer) i m sym name s =
      some (match env.slotFor answer name m with
        | some a => (a ||| 1, s)
        | none => dynamicStub i m.ramBase sym.val s) := by
  unfold serveFunc slotFor
  split
  · rw [LoadedModule.lookupSymbol_answering]
    dsimp only [Option.bind_some]
    cases m.lookup answer (thunkExportPrefix ++ name) with
    | none => rfl
    | some tsym =>
      dsimp only
      split <;> rfl
  · rfl

/-- The scan stops at the owner. -/
theorem resolveFuncFrom_owner (hs : List Handle) (i : Nat) (s : ResState) :
    env.resolveFuncFrom (answering answer) name i hs s =
      match env.owner answer name i hs with
      | none => some (0, s)
      | some o => env.serveFunc (answering answer) o.1 (env.modules o.2.1) o.2.2 name s := by
  induction hs generalizing i with
  | nil => rfl
  | cons h hs ih =>
    unfold resolveFuncFrom owner
    split
    · exact ih (i + 1)
    · rw [LoadedModule.lookupSymbol_answering]
      dsimp only [Option.bind_some]
      cases (env.modules h).lookup answer name with
      | none => exact ih (i + 1)
      | some sym =>
        dsimp only
        split
        · exact ih (i + 1)
        · rfl

theorem owner_some {hs : List Handle} {i j : Nat} {h : Handle} {sym : ModSym}
    (ho : env.owner answer name i hs = some (j, h, sym)) :
    i ≤ j ∧ hs[j - i]? = some h ∧ (env.modules h).lookup answer name = some sym ∧
      sym.location = .code := by
  induction hs generalizing i with
  | nil => cases ho
  | cons h' hs ih =>
    have hnext : env.owner answer name (i + 1) hs = some (j, h, sym) →
        i ≤ j ∧ (h' :: hs)[j - i]? = some h ∧ (env.modules h).lookup answer name = some sym ∧
          sym.location = .code := by
      intro hn
      obtain ⟨hij, hget, hrest⟩ := ih hn
      refine ⟨by omega, ?_, hrest⟩
      rw [show j - i = (j - (i + 1)) + 1 by omega, List.getElem?_cons_succ]
      exact hget
    unfold owner at ho
    split at ho
    · exact hnext ho
    · cases hl : (env.modules h').lookup answer name with
      | none =>
        rw [hl] at ho
        exact hnext ho
      | some sym' =>
        rw [hl] at ho
        dsimp only at ho
        split at ho
        · exact hnext ho
        · rename_i hd
          obtain ⟨rfl, rfl, rfl⟩ : i = j ∧ h' = h ∧ sym' = sym := by
            simpa only [Option.some.injEq, Prod.mk.injEq] using ho
          refine ⟨Nat.le_refl _, by rw [Nat.sub_self]; rfl, hl, ?_⟩
          cases hc : sym'.location with
          | code => rfl
          | data => exact absurd hc hd

end Env

/-- What a step asks for. -/
def World.request (w : World) : ThunkStep → Option Request
  | .makeCall answer pMod name =>
    match w.modules pMod, (w.module pMod).lookup answer name with
    | some i, some sym => if sym.location = .data then none else some ⟨pMod, i, name, sym.val, none⟩
    | _, _ => none
  | .resolveFunc answer name =>
    match w.env.owner answer name 0 w.env.handles with
    | some o =>
      (w.modules o.2.1).map fun i =>
        ⟨o.2.1, i, name, o.2.2.val, w.env.slotFor answer name i.mod⟩
    | none => none
  | _ => none

/-! ## Histories -/

/-- A stub that was handed out for a function of the instance behind a handle. -/
structure Held where
  pMod : Handle
  entry : UInt32
  func : UInt32
  ramBase : UInt32
deriving DecidableEq, Repr

/-- What the pool was asked for, and the stubs of instances that are still there. -/
structure History where
  served : List (UInt32 × UInt32)
  held : List Held

namespace World

/-- The instance behind the handle goes with the step. -/
def replaces (w : World) (pMod : Handle) : ThunkStep → Bool
  | .load h _ _ => h ≠ 0 && pMod = h
  | .depLoad h name _ _ _ => !(h = 0 ∨ w.mgr.refuses name) && pMod = h
  | .depUnload h _ => h ≠ 0 && pMod = h
  | _ => false

/-- The stubs handed out from the pool. -/
def record (w : World) (s : ThunkStep) (served : List (UInt32 × UInt32)) :
    List (UInt32 × UInt32) :=
  match w.request s with
  | some q =>
    if q.slot.isSome ∨ (w.exec s).1 = 0 then served else (q.func, q.inst.mod.ramBase) :: served
  | none => served

/-- What a step hands out; a stub that nothing was asked for belongs to no instance. -/
def handed (w : World) (s : ThunkStep) : List Held :=
  if (w.exec s).1 = 0 then []
  else
    match w.request s with
    | some q => [⟨q.pMod, (w.exec s).1, q.func, q.inst.mod.ramBase⟩]
    | none => [⟨0, (w.exec s).1, 0, 0⟩]

/-- The steps one after the other. -/
def run : List ThunkStep → World × History → World × History
  | [], p => p
  | s :: steps, (w, hist) =>
    run steps ((w.exec s).2, ⟨w.record s hist.served,
      w.handed s ++ hist.held.filter fun x => !w.replaces x.pMod s⟩)

end World

/-- The stub calls its function with the RAM base that the instance has now. -/
def Held.Right (x : Held) (w : World) : Prop :=
  ∃ i, w.modules x.pMod = some i ∧ CallsWith w.thunks.mem x.entry x.func i.mod.ramBase

end Udynlink.Deps
