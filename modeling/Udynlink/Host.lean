import Udynlink.Machine.Prog
import Udynlink.Runtime

/-!
# Host callbacks

The host is a pair of arbitrary functions of the whole world. A callback that
is handed a name reads it up to its terminator, and that read is logged like
any other; what it was asked and what it answered is an event.
-/

namespace Udynlink

open Machine

/-- What an allocation and its release have to agree on. -/
structure BlockTag where
  sect : Option (List UInt8)
  align : UInt32
  flags : UInt32
deriving DecidableEq, Repr

inductive HostEvent where
  | malloc (size : UInt32) (tag : BlockTag) (p : Addr)
  | free (tag : BlockTag) (p : Addr)
  | resolve (name : List UInt8) (ans : Addr)
deriving DecidableEq, Repr

abbrev State := World Module HostEvent

abbrev Loader := Prog Module HostEvent Error

structure Host where
  malloc : State → UInt32 → BlockTag → Addr
  resolve : State → List UInt8 → Addr

/-- A C string is read to its terminator, wherever that is. -/
def readCString (p : Addr) : Reader (List UInt8) := .cstr (2 ^ 32) p

def readSectName : Option Addr → Reader (Option (List UInt8))
  | none => pure none
  | some p => do
    let name ← readCString p
    pure (some name)

/-- The literal `"(N/A)"` of a nameless symbol. -/
def notAvailableName : List UInt8 := [0x28, 0x4E, 0x2F, 0x41, 0x29]

def readSymName : SymName → Reader (List UInt8)
  | .notAvailable => pure notAvailableName
  | .pool p => readCString p

/-- `udynlink_external_malloc` -/
def externalMalloc (host : Host) (size : UInt32) (sect : Option Addr) (align flags : UInt32) :
    Loader Addr := do
  let name ← readSectName sect
  let tag : BlockTag := ⟨name, align, flags⟩
  Prog.host fun w => (.malloc size tag (host.malloc w size tag), host.malloc w size tag)

/-- A request: the answer, and its record behind the read of the name. -/
theorem externalMalloc_run {host : Host} {size : UInt32} {sect : Option Addr}
    {align flags : UInt32} {w w' : State} {p : Addr}
    (h : (externalMalloc host size sect align flags).run w = (.ok p, w')) :
    w' = w.log (readEvents ((readSectName sect).reads w.mem) ++
      [.host (.malloc size ⟨(readSectName sect).run w.mem, align, flags⟩ p)]) := by
  rw [externalMalloc, Prog.run_lift_bind, Prog.run_host, Prod.mk.injEq, Except.ok.injEq,
    World.log_log] at h
  obtain ⟨rfl, rfl⟩ := h
  rfl

theorem externalMalloc_total (host : Host) (size : UInt32) (sect : Option Addr)
    (align flags : UInt32) : (externalMalloc host size sect align flags).Total :=
  Prog.total_bind (Prog.total_lift _) fun _ => Prog.total_host _

/-- `udynlink_external_free` -/
def externalFree (p : Addr) (sect : Option Addr) (align flags : UInt32) : Loader Unit := do
  let name ← readSectName sect
  Prog.host fun _ => (.free ⟨name, align, flags⟩ p, ())

/-- `resolve_symbol` around `udynlink_external_resolve_symbol`. -/
def resolveName (host : Host) (name : List UInt8) : Loader Addr :=
  Prog.host fun w => (.resolve name (host.resolve w name), host.resolve w name)

def resolveSymbol (host : Host) (name : SymName) : Loader Addr := do
  let s ← readSymName name
  resolveName host s

/-! ## A host that never reuses memory -/

/-- First address past every block handed out so far. -/
def bumpNext (base : Addr) (trace : List (Event HostEvent)) : Addr :=
  trace.foldl (fun next ev => match ev with
    | .host (.malloc size _ p) => if p = 0 then next else max next (p + size)
    | _ => next) base

/-- Blocks are cut off the memory from `base` on, aligned as asked. -/
def Host.bump (base : Addr) (resolve : List UInt8 → Addr) : Host where
  malloc w _ tag := alignUp (bumpNext base w.trace) tag.align
  resolve _ name := resolve name

/-! ## The base array -/

def setSectionBaseIdx (ordinal : Nat) (base : Addr) : Loader Unit := do
  let mod ← Prog.getHandle
  let h ← readHeader mod.pHeader
  Prog.set32 (baseSlot mod h (ordinal + 3)) base

/-- The loop of `freeNonmainSections` over `n` more sections from `k` on. -/
def freeSectionsLoop (tab : SectView) : Nat → Nat → Loader Unit
  | 0, _ => pure ()
  | n + 1, k => do
    let e ← sectEntryAt tab k
    if e.size = 0 then freeSectionsLoop tab n (k + 1)
    else do
      let mod ← Prog.getHandle
      let base ← getSectionBaseIdx mod tab k
      -- sections are allocated in order: the first gap ends the recorded run
      if base = 0 then pure ()
      else do
        externalFree base (sectName tab e) e.align (sectHostFlags e)
        freeSectionsLoop tab n (k + 1)

def freeNonmainSections (tab : SectView) : Loader Unit := do
  let mod ← Prog.getHandle
  if mod.pRam = 0 ∨ tab.num ≤ 3 then pure ()
  else freeSectionsLoop tab (tab.num - 3) 3

/-- The main block goes back to the host unless the caller supplied it. -/
def freeMainBlock (mainAlign : UInt32) : Loader Unit := do
  let mod ← Prog.getHandle
  if mod.pRam ≠ 0 ∧ !mod.isForeignRam then externalFree mod.pRam none mainAlign 0
  else pure ()

end Udynlink
