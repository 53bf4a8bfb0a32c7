import Udynlink.LoadStages

/-!
# Objects of class `udynlink::Module`

An object holds a handle by value and a flag. Every object of a run works on the same memory,
through the loader's own functions. Beside them a run keeps the handle that each successful load
has left and the calls of `udynlink_unload_module`; the number of a load travels with the handle.
-/

namespace Udynlink.Cpp

open Machine

/-- `mod_`, `loaded_`, and the load that has filled `mod_`, if any. -/
structure ModuleObject where
  mod : Module
  loaded : Bool
  origin : Option Nat

def ModuleObject.empty : ModuleObject := ⟨Module.free, false, none⟩

/-- A call of `udynlink_unload_module` that has returned: the load whose module it is, the world
it was called in with the handle it was given, and what it has done there. -/
structure Unloading where
  load : Nat
  before : State
  events : List (Event HostEvent)

/-- What the objects share, the handles that successful loads have left, and the calls that have
unloaded a module, the last one first. -/
structure Shared where
  mem : Mem
  trace : List (Event HostEvent)
  loads : List Module
  unloads : List Unloading

/-- The host, and what a call of module code makes of the memory. -/
structure Env where
  host : Host
  call : Addr → Mem → Mem

/-- `__init_array` -/
def initArrayName : List UInt8 :=
  [0x5F, 0x5F, 0x69, 0x6E, 0x69, 0x74, 0x5F, 0x61, 0x72, 0x72, 0x61, 0x79]

def udynlinkCppInit (env : Env) (w : State) : State :=
  match (udynlinkLookupSymbol env.host initArrayName).run w with
  | (.ok (some sym), w') => { w' with mem := env.call sym.val w'.mem }
  | (_, w') => w'

namespace ModuleObject

/-- The object is empty afterwards, whatever the loader has answered. -/
def unload (obj : ModuleObject) (s : Shared) : Except Error Unit × ModuleObject × Shared :=
  if !obj.loaded then (.ok (), obj, s)
  else
    match udynlinkUnloadModule.run ⟨s.mem, obj.mod, s.trace⟩ with
    | (.ok (), w) =>
      (.ok (), .empty, ⟨w.mem, w.trace, s.loads, (obj.origin.toList.map fun n =>
        ⟨n, ⟨s.mem, obj.mod, s.trace⟩, w.trace.drop s.trace.length⟩) ++ s.unloads⟩)
    | (.error e, w) => (.error e, .empty, ⟨w.mem, w.trace, s.loads, s.unloads⟩)

/-- The load itself, into a handle that has been cleared. -/
def fill (env : Env) (base loadAddr : Addr) (loadSize : UInt32) (mode : LoadMode) (s : Shared) :
    Except Error Unit × ModuleObject × Shared :=
  match (udynlinkLoadModule env.host base loadAddr loadSize mode).run
      ⟨s.mem, Module.free, s.trace⟩ with
  | (.ok (), w) =>
    let w := udynlinkCppInit env w
    (.ok (), ⟨w.handle, true, some s.loads.length⟩,
      ⟨w.mem, w.trace, s.loads ++ [w.handle], s.unloads⟩)
  | (.error e, w) => (.error e, ⟨w.handle, false, none⟩, ⟨w.mem, w.trace, s.loads, s.unloads⟩)

def load (env : Env) (base loadAddr : Addr) (loadSize : UInt32) (mode : LoadMode)
    (obj : ModuleObject) (s : Shared) : Except Error Unit × ModuleObject × Shared :=
  if obj.loaded then
    match obj.unload s with
    | (.error e, obj, s) => (.error e, obj, s)
    | (.ok (), _, s) => fill env base loadAddr loadSize mode s
  else fill env base loadAddr loadSize mode s

end ModuleObject

/-! ## Runs -/

/-- The objects that are alive, and what they share. -/
structure Sys where
  objs : Nat → Option ModuleObject
  shared : Shared

def Sys.boot (mem : Mem) : Sys := ⟨fun _ => none, ⟨mem, [], [], []⟩⟩

def Sys.put (s : Sys) (o : Nat) (obj : Option ModuleObject) : Sys :=
  { s with objs := Function.update s.objs o obj }

inductive Op where
  | construct (o : Nat)
  | moveConstruct (o other : Nat)
  | moveAssign (o other : Nat)
  | load (o : Nat) (base loadAddr : Addr) (loadSize : UInt32) (mode : LoadMode)
  | unload (o : Nat)
  | swap (o other : Nat)
  | destroy (o : Nat)
  | runs (mem : Mem)

/-- One operation; there is none on an object that is not alive, and no construction over one
that is. Between the operations, module code and host may write anywhere. -/
def step (env : Env) (s : Sys) : Op → Option Sys
  | .construct o =>
    match s.objs o with
    | none => some (s.put o (some .empty))
    | some _ => none
  | .moveConstruct o other =>
    match s.objs o, s.objs other with
    | none, some src => some ((s.put o (some src)).put other (some .empty))
    | _, _ => none
  | .moveAssign o other =>
    match s.objs o, s.objs other with
    | some obj, some src =>
      if o = other then some s
      else
        let shared := if obj.loaded then (obj.unload s.shared).2.2 else s.shared
        some ((({ s with shared } : Sys).put o (some src)).put other (some .empty))
    | _, _ => none
  | .load o base loadAddr loadSize mode =>
    match s.objs o with
    | some obj =>
      let r := obj.load env base loadAddr loadSize mode s.shared
      some (({ s with shared := r.2.2 } : Sys).put o (some r.2.1))
    | none => none
  | .unload o =>
    match s.objs o with
    | some obj =>
      let r := obj.unload s.shared
      some (({ s with shared := r.2.2 } : Sys).put o (some r.2.1))
    | none => none
  | .swap o other =>
    match s.objs o, s.objs other with
    | some obj, some src =>
      if o = other then some s else some ((s.put o (some src)).put other (some obj))
    | _, _ => none
  | .destroy o =>
    match s.objs o with
    | some obj =>
      let shared := if obj.loaded then (obj.unload s.shared).2.2 else s.shared
      some (({ s with shared } : Sys).put o none)
    | none => none
  | .runs mem => some { s with shared := { s.shared with mem } }

def run (env : Env) (s : Sys) : List Op → Option Sys
  | [] => some s
  | op :: ops => (step env s op).bind fun s' => run env s' ops

/-- The loads whose modules have been unloaded. -/
def Shared.unloaded (s : Shared) : List Nat := s.unloads.map Unloading.load

/-- The handle of the object comes from that load. -/
def Refers (s : Sys) (o n : Nat) : Prop := ∃ obj, s.objs o = some obj ∧ obj.origin = some n

/-- The object says that it is loaded, and holds the handle which that load has left. -/
def Reports (s : Sys) (o n : Nat) : Prop :=
  ∃ obj, s.objs o = some obj ∧ obj.origin = some n ∧ obj.loaded = true ∧
    s.shared.loads[n]? = some obj.mod

def offNull : Event HostEvent → Bool
  | .read s => (0 : Addr) ∉ s
  | .write s => (0 : Addr) ∉ s
  | .host _ => true

/-- No access to address 0: there is nothing behind a null pointer. -/
def NullFree (trace : List (Event HostEvent)) : Prop := ∀ ev ∈ trace, offNull ev = true

/-! ## Programs that leave the handle as it is -/

section

variable {σ ε κ α β : Type}

def KeepsHandle (p : Prog σ ε κ α) : Prop := ∀ w, (p.run w).2.handle = w.handle

theorem keepsHandle_pure (x : α) : KeepsHandle (pure x : Prog σ ε κ α) := fun _ => rfl

theorem keepsHandle_lift (r : Reader α) : KeepsHandle (liftM r : Prog σ ε κ α) := fun _ => rfl

theorem keepsHandle_host (f : World σ ε → ε × α) : KeepsHandle (Prog.host f : Prog σ ε κ α) :=
  fun _ => rfl

theorem keepsHandle_bind {p : Prog σ ε κ α} {f : α → Prog σ ε κ β} (h : KeepsHandle p)
    (hf : ∀ x, KeepsHandle (f x)) : KeepsHandle (p >>= f) := by
  intro w
  have hp := h w
  rcases hr : p.run w with ⟨_ | x, w'⟩
  · rw [Prog.run_bind_of_error hr]
    rw [hr] at hp
    exact hp
  · rw [Prog.run_bind_of_ok hr]
    rw [hr] at hp
    exact (hf x w').trans hp

theorem keepsHandle_ite {c : Prop} [Decidable c] {p q : Prog σ ε κ α} (hp : KeepsHandle p)
    (hq : KeepsHandle q) : KeepsHandle (if c then p else q) := by
  split
  · exact hp
  · exact hq

end

section

variable (host : Host) (mod : Module) (name : List UInt8)

theorem finishLookup_keepsHandle (sym : Sym) : KeepsHandle (finishLookup host mod name sym) := by
  refine keepsHandle_bind (keepsHandle_lift _) fun sym => ?_
  refine keepsHandle_ite (keepsHandle_bind (keepsHandle_host _) fun symAddr => ?_)
    (keepsHandle_pure _)
  exact keepsHandle_ite (keepsHandle_pure _)
    (keepsHandle_ite (keepsHandle_pure _) (keepsHandle_pure _))

theorem foundLookup_keepsHandle (sym : Sym) :
    KeepsHandle (do let sym ← finishLookup host mod name sym; pure (some sym)) :=
  keepsHandle_bind (finishLookup_keepsHandle host mod name sym) fun _ => keepsHandle_pure _

theorem lookupBinary_keepsHandle (n lo hi : Nat) :
    KeepsHandle (lookupBinary host mod name n lo hi) := by
  induction n generalizing lo hi with
  | zero => exact keepsHandle_pure _
  | succ n ih =>
    refine keepsHandle_ite (keepsHandle_pure _) ?_
    refine keepsHandle_bind (keepsHandle_lift _) fun sym? => ?_
    cases sym? with
    | none => exact keepsHandle_pure _
    | some sym =>
      refine keepsHandle_bind (keepsHandle_lift _) fun cmp => ?_
      cases cmp with
      | eq => exact foundLookup_keepsHandle host mod name sym
      | lt => exact ih _ _
      | gt => exact ih _ _

theorem lookupLinear_keepsHandle (n : Nat) (idx : UInt32) :
    KeepsHandle (lookupLinear host mod name n idx) := by
  induction n generalizing idx with
  | zero => exact keepsHandle_pure _
  | succ n ih =>
    refine keepsHandle_bind (keepsHandle_lift _) fun sym? => ?_
    cases sym? with
    | none => exact keepsHandle_pure _
    | some sym =>
      refine keepsHandle_ite (ih _) (keepsHandle_bind (keepsHandle_lift _) fun cmp => ?_)
      exact keepsHandle_ite (foundLookup_keepsHandle host mod name sym) (ih _)

theorem lookupSymbol_keepsHandle (w : State) :
    ((udynlinkLookupSymbol host name).run w).2.handle = w.handle := by
  unfold udynlinkLookupSymbol
  rw [Prog.run_getHandle_bind, Prog.run_ite]
  split
  · exact lookupBinary_keepsHandle host w.handle name _ _ _ w
  · exact lookupLinear_keepsHandle host w.handle name _ _ w

end

theorem cppInit_handle (env : Env) (w : State) : (udynlinkCppInit env w).handle = w.handle := by
  have hkeep := lookupSymbol_keepsHandle env.host initArrayName w
  unfold udynlinkCppInit
  split
  next h =>
    rw [h] at hkeep
    exact hkeep
  next h =>
    rw [h] at hkeep
    exact hkeep

theorem cppInit_prefix (env : Env) (w : State) : w.trace <+: (udynlinkCppInit env w).trace := by
  obtain ⟨evs, he⟩ := (udynlinkLookupSymbol env.host initArrayName).traced w
  refine ⟨evs, Eq.symm ?_⟩
  unfold udynlinkCppInit
  split
  next h =>
    rw [h] at he
    exact he.1
  next h =>
    rw [h] at he
    exact he.1

end Udynlink.Cpp
