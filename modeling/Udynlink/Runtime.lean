import Udynlink.Layout
import Udynlink.Symbols

/-!
# The module handle and runtime addresses

Everything here is read through the handle: the header and table wherever
`pHeader` points, the base array in the main block.
-/

namespace Udynlink

open Machine

/-- `udynlink_module_t`; the two reserved fields are left out. -/
structure Module where
  pHeader : Addr
  pRam : Addr
  info : UInt8
  numNamedSyms : UInt16
  userCtx : Addr
deriving DecidableEq, Repr

def loadModeMask : UInt8 := 0x03

def loadForeignRamMask : UInt8 := 0x04

def LoadMode.bits : LoadMode → UInt8
  | .copyAll => 0
  | .copyTextData => 1
  | .xip => 2

namespace Module

/-- Nothing but the three values of the enumeration is ever stored. -/
def mode (mod : Module) : LoadMode :=
  if mod.info &&& loadModeMask = 0 then .copyAll
  else if mod.info &&& loadModeMask = 1 then .copyTextData
  else .xip

def setMode (mod : Module) (m : LoadMode) : Module :=
  { mod with info := (mod.info &&& ~~~loadModeMask) ||| m.bits }

def isForeignRam (mod : Module) : Bool := (mod.info &&& loadForeignRamMask) ≠ 0

def setForeignRam (mod : Module) : Module := { mod with info := mod.info ||| loadForeignRamMask }

def clrForeignRam (mod : Module) : Module := { mod with info := mod.info &&& ~~~loadForeignRamMask }

private theorem mode_bits (b : BitVec 8) :
    (b ||| 4#8) &&& 3#8 = b &&& 3#8 ∧ (b &&& ~~~4#8) &&& 3#8 = b &&& 3#8 ∧
      (b &&& ~~~3#8 ||| 0#8) &&& 3#8 = 0#8 ∧ (b &&& ~~~3#8 ||| 1#8) &&& 3#8 = 1#8 ∧
      (b &&& ~~~3#8 ||| 2#8) &&& 3#8 = 2#8 := by
  revert b
  decide +kernel

private theorem foreign_bits (b : BitVec 8) :
    (b ||| 4#8) &&& 4#8 ≠ 0#8 ∧ (b &&& ~~~4#8) &&& 4#8 = 0#8 := by
  revert b
  decide +kernel

@[simp] theorem mode_setForeignRam (mod : Module) : mod.setForeignRam.mode = mod.mode := by
  have hb : (mod.info ||| 4) &&& 3 = mod.info &&& 3 :=
    UInt8.toBitVec_inj.mp (mode_bits mod.info.toBitVec).1
  rw [mode, mode, setForeignRam, loadForeignRamMask, loadModeMask, hb]

@[simp] theorem mode_clrForeignRam (mod : Module) : mod.clrForeignRam.mode = mod.mode := by
  have hb : (mod.info &&& ~~~4) &&& 3 = mod.info &&& 3 :=
    UInt8.toBitVec_inj.mp (mode_bits mod.info.toBitVec).2.1
  rw [mode, mode, clrForeignRam, loadForeignRamMask, loadModeMask, hb]

@[simp] theorem mode_setMode (mod : Module) (m : LoadMode) : (mod.setMode m).mode = m := by
  have hb := (mode_bits mod.info.toBitVec).2.2
  cases m with
  | copyAll =>
    have h : (mod.info &&& ~~~3 ||| 0) &&& 3 = 0 := UInt8.toBitVec_inj.mp hb.1
    rw [mode, setMode, loadModeMask, LoadMode.bits, h, if_pos rfl]
  | copyTextData =>
    have h : (mod.info &&& ~~~3 ||| 1) &&& 3 = 1 := UInt8.toBitVec_inj.mp hb.2.1
    rw [mode, setMode, loadModeMask, LoadMode.bits, h, if_neg (by decide), if_pos rfl]
  | xip =>
    have h : (mod.info &&& ~~~3 ||| 2) &&& 3 = 2 := UInt8.toBitVec_inj.mp hb.2.2
    rw [mode, setMode, loadModeMask, LoadMode.bits, h, if_neg (by decide), if_neg (by decide)]

@[simp] theorem isForeignRam_setForeignRam (mod : Module) :
    mod.setForeignRam.isForeignRam = true := by
  have hb := (foreign_bits mod.info.toBitVec).1
  rw [isForeignRam, setForeignRam, loadForeignRamMask, decide_eq_true_iff, ne_eq,
    ← UInt8.toBitVec_inj]
  exact hb

@[simp] theorem isForeignRam_clrForeignRam (mod : Module) :
    mod.clrForeignRam.isForeignRam = false := by
  have hb := (foreign_bits mod.info.toBitVec).2
  rw [isForeignRam, clrForeignRam, loadForeignRamMask, decide_eq_false_iff_not, not_not,
    ← UInt8.toBitVec_inj]
  exact hb

/-- `mark_module_free`, and the state a handle must be in before its first load. -/
def free : Module := ⟨0, 0, 0, 0, 0⟩

end Module

def getCodePointer (mod : Module) : Reader Addr := do
  let h ← readHeader mod.pHeader
  if isSectioned h then do
    let (_, tab) ← getSectab mod.pHeader false
    if mod.mode = .xip then pure (mod.pHeader + getCodeOffsetFromHeader h)
    else do
      let off ← getMainSectionOffset h tab mod.mode 0
      pure (mod.pRam + off)
  else if mod.mode = .copyTextData then pure (mod.pRam + h.numLot.toUInt32 * 4)
  else pure (mod.pHeader + getCodeOffsetFromHeader h)

def getDataPointer (mod : Module) : Reader Addr := do
  let h ← readHeader mod.pHeader
  if isSectioned h then do
    let (_, tab) ← getSectab mod.pHeader false
    let off ← getMainSectionOffset h tab mod.mode 1
    pure (mod.pRam + off)
  else match mod.mode with
    | .xip => pure (mod.pRam + h.numLot.toUInt32 * 4)
    | .copyTextData => pure (mod.pRam + h.numLot.toUInt32 * 4 + h.codeSize)
    | .copyAll => pure (mod.pHeader + getCodeOffsetFromHeader h + h.codeSize)

def getRelocsPointer (p : Addr) (h : Header) : Addr := p + getHeaderSize h / 4 * 4

def getSymAt (p : Addr) (index : UInt32) : Reader (Option Sym) := do
  let h ← readHeader p
  getSymAtRaw (getSymTablePointer p h) index h.symtSize

def computeNumNamedSyms (p : Addr) : Reader UInt16 := do
  let h ← readHeader p
  computeNumNamedSymsRaw (getSymTablePointer p h) h.symtSize

/-- Where the base array keeps the base of section `idx`. -/
def baseSlot (mod : Module) (h : Header) (idx : Nat) : Addr :=
  mod.pRam + h.numLot.toUInt32 * 4 + UInt32.ofNat (4 * (idx - 3))

/-- Main sections follow from the block; the others are in the base array. -/
def getSectionBaseIdx (mod : Module) (tab : SectView) (idx : Nat) : Reader Addr :=
  if idx < 3 then do
    let h ← readHeader mod.pHeader
    if idx = 0 ∧ mod.mode = .xip then pure (mod.pHeader + getCodeOffsetFromHeader h)
    else do
      let off ← getMainSectionOffset h tab mod.mode idx
      pure (mod.pRam + off)
  else if mod.pRam = 0 then pure 0
  else do
    let h ← readHeader mod.pHeader
    .u32 (baseSlot mod h idx)

/-- Runtime address of a link-time VA, `none` when no section contains it. -/
def resolveRuntimeVa (mod : Module) (tab : SectView) (va : UInt32) : Reader (Option Addr) := do
  let idx ← sectFindByVa tab va
  match idx with
  | none => pure none
  | some idx => do
    let e ← sectEntryAt tab idx
    let base ← getSectionBaseIdx mod tab idx
    pure (some (base + (va - e.va)))

/-- The link-time VA a relocation of data word `lotOffset` addresses. -/
def relocVa (h : Header) (lotOffset : UInt32) : UInt32 :=
  h.codeSize + 4 * (lotOffset - h.numLot.toUInt32)

/-- Word a relocation writes; NULL when the offset is out of range. -/
def getRelocTarget (mod : Module) (tab : SectView) (lotOffset : UInt32) : Reader Addr := do
  let h ← readHeader mod.pHeader
  if lotOffset < h.numLot.toUInt32 then
    if mod.pRam = 0 then pure 0 else pure (mod.pRam + lotOffset * 4)
  else if tab.num = 0 then
    let wordIdx := lotOffset - h.numLot.toUInt32
    if wordIdx ≥ h.dataSize / 4 then pure 0
    else do
      let data ← getDataPointer mod
      pure (data + wordIdx * 4)
  else do
    let idx ← sectFindByVa tab (relocVa h lotOffset)
    match idx with
    | none => pure 0
    | some idx => do
      let e ← sectEntryAt tab idx
      if e.cls ≠ secClassCode ∧ e.cls ≠ secClassData then pure 0
      else do
        let base ← getSectionBaseIdx mod tab idx
        pure (base + (relocVa h lotOffset - e.va))

/-- Symbols the module defines. -/
def isOwnSymbol (sym : Sym) : Prop :=
  sym.type = symTypeInternal ∨ sym.type = symTypeExported ∨ sym.type = symTypeWeak

instance (sym : Sym) : Decidable (isOwnSymbol sym) :=
  inferInstanceAs (Decidable (_ ∨ _ ∨ _))

/-- Fold the load address into the value of a symbol the module defines. -/
def offsetSym (mod : Module) (sym : Sym) : Reader Sym :=
  if isOwnSymbol sym then do
    let h ← readHeader mod.pHeader
    if isSectioned h then do
      let (res, tab) ← getSectab mod.pHeader false
      if res = .ok () then do
        let va ← resolveRuntimeVa mod tab sym.val
        pure { sym with val := va.getD 0 }
      else pure { sym with val := 0 }
    else if sym.location = .code then do
      let code ← getCodePointer mod
      pure { sym with val := sym.val + code }
    else do
      let data ← getDataPointer mod
      pure { sym with val := sym.val + data }
  else pure sym

end Udynlink
