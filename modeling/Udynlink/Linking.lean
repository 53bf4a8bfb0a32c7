import Udynlink.LoadRelocs
import Udynlink.LoadStages
import Udynlink.Lookup

/-!
# Linking after the load

`apply_extern_relocations_impl` asks the host again for the extern slots of a loaded
module, `udynlink_link_symbol` patches the slots of one name. Whether a symbol is resolved
is asked of the symbol table.
-/

namespace Udynlink

open Machine

/-! ## The functions -/

/-- The test that leaves a slot out of an incremental pass. -/
def slotLinked (incremental : Bool) (p : Addr) : Reader Bool :=
  if incremental then do
    let word ← Reader.u32 p
    pure (word != 0)
  else pure false

def storeResolved (host : Host) (name : SymName) (p : Addr) : Loader Unit := do
  let symAddr ← resolveSymbol host name
  if symAddr = symDeferred then Prog.set32 p 0
  else if symAddr > 0 then Prog.set32 p symAddr
  else Prog.set32 p 0

/-- The body of the loop of `apply_extern_relocations_impl`. -/
def linkExtern (host : Host) (tab : SectView) (incremental : Bool) (rel : UInt32 × UInt32) :
    Loader Unit := do
  let mod ← Prog.getHandle
  if isBaseRelocation rel.2 then pure ()
  else do
    let sym? ← getSymAt mod.pHeader rel.2
    match sym? with
    | none => pure ()
    | some sym =>
      if sym.type ≠ symTypeExtern then pure ()
      else do
        let p ← getRelocTarget mod tab rel.1
        if p = 0 then pure ()
        else do
          let linked ← slotLinked incremental p
          if linked then pure () else storeResolved host sym.name p

def linkExternLoop (host : Host) (pRels : Addr) (tab : SectView) (incremental : Bool) :
    Nat → Nat → Loader Unit
  | 0, _ => pure ()
  | n + 1, i => do
    let rel ← readRelocation pRels i
    linkExtern host tab incremental rel
    linkExternLoop host pRels tab incremental n (i + 1)

def applyExternRelocationsImpl (host : Host) (incremental : Bool) : Loader Unit := do
  let mod ← Prog.getHandle
  let h ← readHeader mod.pHeader
  let (_, tab) ← getSectab mod.pHeader false
  linkExternLoop host (getRelocsPointer mod.pHeader h) tab incremental h.numRels.toNat 0

def udynlinkLinkIncremental (host : Host) : Loader Unit := do
  let mod ← Prog.getHandle
  if mod.pHeader = 0 then Prog.fail .invalidModule else applyExternRelocationsImpl host true

def udynlinkRelinkAll (host : Host) : Loader Unit := do
  let mod ← Prog.getHandle
  if mod.pHeader = 0 then Prog.fail .invalidModule else applyExternRelocationsImpl host false

/-- The body of the loop of `udynlinkLinkSymbol`: whether a slot was patched. -/
def patchSlot (tab : SectView) (symName : List UInt8) (symAddr : Addr) (rel : UInt32 × UInt32) :
    Loader Bool := do
  let mod ← Prog.getHandle
  if isBaseRelocation rel.2 then pure false
  else do
    let sym? ← getSymAt mod.pHeader rel.2
    match sym? with
    | none => pure false
    | some sym => do
      let cmp ← strcmpName sym.name symName
      if cmp ≠ .eq then pure false
      else do
        let p ← getRelocTarget mod tab rel.1
        if p = 0 then pure false
        else do
          Prog.set32 p symAddr
          pure true

def patchSlots (pRels : Addr) (tab : SectView) (symName : List UInt8) (symAddr : Addr) :
    Nat → Nat → Bool → Loader Bool
  | 0, _, found => pure found
  | n + 1, i, found => do
    let rel ← readRelocation pRels i
    let patched ← patchSlot tab symName symAddr rel
    patchSlots pRels tab symName symAddr n (i + 1) (found || patched)

def udynlinkLinkSymbol (symName : List UInt8) (symAddr : Addr) : Loader Unit := do
  let mod ← Prog.getHandle
  if mod.pHeader = 0 then Prog.fail .invalidModule
  else do
    let h ← readHeader mod.pHeader
    let (_, tab) ← getSectab mod.pHeader false
    let found ← patchSlots (getRelocsPointer mod.pHeader h) tab symName symAddr h.numRels.toNat 0
      false
    if found then pure () else Prog.fail .loadUnknownSymbol

/-- `none` and `false` are the result 0. -/
def udynlinkIsSymbolResolved (host : Host) (symName : List UInt8) : Loader Bool := do
  let sym? ← udynlinkLookupSymbol host symName
  match sym? with
  | none => pure false
  | some sym => pure (sym.val != 0)

/-! ## The relocations of a loaded module -/

/-- The tables behind the handle. -/
def ownSource (w : State) : RelocSource :=
  ⟨w.handle.pHeader, getRelocsPointer w.handle.pHeader (decodeHeader w.mem w.handle.pHeader),
    getSymTablePointer w.handle.pHeader (decodeHeader w.mem w.handle.pHeader)⟩

def ownView (w : State) : SectView := ((getSectab w.handle.pHeader false).run w.mem).2

def numLinks (w : State) : Nat := (decodeHeader w.mem w.handle.pHeader).numRels.toNat

def linkEntry (w : State) (k : Nat) : UInt32 × UInt32 :=
  (readRelocation (ownSource w).pRelocations k).run w.mem

def linkSlot (w : State) (k : Nat) : Addr := relocSlot w.handle (ownView w) (ownSource w) w.mem k

/-- No relocation slot holds the address. -/
def BesideSlots (w : State) (a : Addr) : Prop :=
  ∀ k, k < numLinks w → a ∉ (⟨linkSlot w k, 4⟩ : Span)

/-- The slots lie apart from the tables. -/
structure LinkTables (w : State) : Prop where
  walk : WalkIn (BesideSlots w) w.handle (ownView w) (ownSource w) (numLinks w) w.mem
  view : (getSectab w.handle.pHeader false).Within (BesideSlots w) w.mem

/-- The slots of symbol `j` lie apart from the others too; the names of the table end in it and
are distinct, and its count is not cut. -/
structure LinkLayout (w : State) (j : UInt32) : Prop extends LinkTables w where
  named : (symTable w.mem w.handle.pHeader).WellNamed
  counted : ¬ Overcounted (symTable w.mem w.handle.pHeader)
  apart : ∀ i k, i < numLinks w → k < numLinks w → (linkEntry w i).2 = j →
    Span.Disjoint ⟨linkSlot w k, 4⟩ ⟨linkSlot w i, 4⟩ ∨
      linkSlot w k = linkSlot w i ∧ (linkEntry w k).2 = j

/-- Entry `j` of the symbol table is an extern symbol of that name. -/
structure ExternAt (w : State) (j : UInt32) (sym : Sym) (name : List UInt8) : Prop where
  base : isBaseRelocation j = false
  found : relocSym (ownSource w) w.mem j = some sym
  type : sym.type = symTypeExtern
  named : (readSymName sym.name).run w.mem = name

/-- The slots of symbol `j` among the first `n` are filled exactly when `val` is not 0. -/
def SlotsTold (w : State) (j val : UInt32) (m : Mem) (n : Nat) : Prop :=
  ∀ i, i < n → (linkEntry w i).2 = j → (m.u32 (linkSlot w i) ≠ 0 ↔ val ≠ 0)

/-- The host has answered to the name, since `w`, with an address exactly when `val` is not
0. -/
def AnswersFit (w : State) (name : List UInt8) (val : UInt32) (v : State) : Prop :=
  ∀ ans, Event.host (.resolve name ans) ∈ v.trace.drop w.trace.length →
    (externWord ans ≠ 0 ↔ val ≠ 0)

/-- The section table of the image that a load walks. -/
def srcView (w : State) (src : RelocSource) : SectView :=
  ((getSectab src.pHeader false).run w.mem).2

/-- The tables a load walks lie apart from the slots and say what the module's own say. -/
structure Carried (w : State) (src : RelocSource) (j : UInt32) (name : List UInt8) : Prop where
  walk : WalkIn (BesideSlots w) w.handle (srcView w src) src (numLinks w) w.mem
  accepted : ((getSectab src.pHeader false).run w.mem).1 = .ok ()
  links : (decodeHeader w.mem src.pHeader).numRels.toNat = numLinks w
  entry : ∀ k, k < numLinks w → (readRelocation src.pRelocations k).run w.mem = linkEntry w k
  slot : ∀ k, k < numLinks w → relocSlot w.handle (srcView w src) src w.mem k = linkSlot w k
  sym : ∃ s, relocSym src w.mem j = some s ∧ s.type = symTypeExtern ∧
    (readSymName s.name).Within (BesideSlots w) w.mem ∧ (readSymName s.name).run w.mem = name

/-! ## A load in front of its relocations -/

/-- The stages of a load up to its relocations. -/
def loadPlaced (host : Host) (image : Image) (loadAddr : Addr) (loadSize : UInt32)
    (loadMode : LoadMode) : Loader Unit := do
  Prog.modifyHandle fun mod => ({ mod with pHeader := image.pHeader }).setMode loadMode
  let _ ← readHeader image.pHeader
  let (_, tab) ← getSectab image.pHeader true
  let mainAlign ← getMainAlign tab
  let ramSize ← checkSizes image tab loadMode
  let ramAddr ← provisionRam host image tab mainAlign ramSize loadAddr loadSize
  placeImage host image tab loadMode ramAddr

def placedWorld (host : Host) (image : Image) (loadAddr : Addr) (loadSize : UInt32)
    (loadMode : LoadMode) (w : State) : State :=
  ((loadPlaced host image loadAddr loadSize loadMode).run w).2

/-! ## Calls -/

inductive LinkCall where
  | linkIncremental (host : Host)
  | relinkAll (host : Host)
  | linkSymbol (symName : List UInt8) (symAddr : Addr)

def LinkCall.exec : LinkCall → Loader Unit
  | .linkIncremental host => udynlinkLinkIncremental host
  | .relinkAll host => udynlinkRelinkAll host
  | .linkSymbol symName symAddr => udynlinkLinkSymbol symName symAddr

/-- The state behind the calls, whatever they returned. -/
def runCalls : List LinkCall → State → State
  | [], w => w
  | c :: cs, w => runCalls cs (c.exec.run w).2

/-- A symbol is linked by name to an address exactly when `val` is not 0. -/
def LinkCall.Fits (name : List UInt8) (val : UInt32) : LinkCall → Prop
  | .linkSymbol symName symAddr => 0 ∉ symName ∧ (symName = name → (symAddr ≠ 0 ↔ val ≠ 0))
  | _ => True

/-- The module of `w`, in a world where only slots have changed. -/
structure SameModule (w w' : State) : Prop where
  handle : w'.handle = w.handle
  agree : ∀ a, BesideSlots w a → w.mem a = w'.mem a

end Udynlink
