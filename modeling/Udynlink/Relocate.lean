import Udynlink.Loader

/-!
# Moving a loaded module

The untagged walk shifts each slot by a delta. The sectioned walk maps the old
word back to a section, or derives the new one from the image. Neither fails.
-/

namespace Udynlink

open Machine

/-! ## Untagged modules -/

def locationDelta (loc : SymLocation) (codeDelta dataDelta : UInt32) : UInt32 :=
  match loc with
  | .code => codeDelta
  | .data => dataDelta

/-- Slot of an untagged relocation; no range is checked here. -/
def untaggedSlot (mod : Module) (pData : Addr) (numLot : UInt16) (lotOffset : UInt32) : Addr :=
  if lotOffset < numLot.toUInt32 then mod.pRam + lotOffset * 4
  else pData + (lotOffset - numLot.toUInt32) * 4

/-- `*p += delta` -/
def shiftWord (p : Addr) (delta : UInt32) : Loader Unit := do
  let word ← Reader.u32 p
  Prog.set32 p (word + delta)

def rebaseRelocation (numLot : UInt16) (pData codeDelta dataDelta oldCode oldData : UInt32)
    (lotOffset symtOffset : UInt32) : Loader Unit := do
  let mod ← Prog.getHandle
  if symtOffset &&& relDataBase ≠ 0 then
    shiftWord (pData + (lotOffset - numLot.toUInt32) * 4) dataDelta
  else if symtOffset &&& relCodeBase ≠ 0 then
    shiftWord (pData + (lotOffset - numLot.toUInt32) * 4) codeDelta
  else do
    let sym? ← getSymAt mod.pHeader symtOffset
    match sym? with
    | none => pure ()
    | some sym =>
      let p := untaggedSlot mod pData numLot lotOffset
      if sym.type = symTypeInternal ∨ sym.type = symTypeExported then
        shiftWord p (locationDelta sym.location codeDelta dataDelta)
      else if sym.type = symTypeWeak then do
        let defaultOld := locationDelta sym.location oldCode oldData + sym.val
        let word ← Reader.u32 p
        if word = defaultOld then shiftWord p (locationDelta sym.location codeDelta dataDelta)
        else pure ()
      else pure ()

def rebaseLoop (pRels : Addr) (numLot : UInt16)
    (pData codeDelta dataDelta oldCode oldData : UInt32) : Nat → Nat → Loader Unit
  | 0, _ => pure ()
  | n + 1, i => do
    let (lotOffset, symtOffset) ← readRelocation pRels i
    rebaseRelocation numLot pData codeDelta dataDelta oldCode oldData lotOffset symtOffset
    rebaseLoop pRels numLot pData codeDelta dataDelta oldCode oldData n (i + 1)

def rebaseModulePointers (codeDelta dataDelta oldCode oldData : UInt32) : Loader Unit := do
  let mod ← Prog.getHandle
  let h ← readHeader mod.pHeader
  let pData ← getDataPointer mod
  rebaseLoop (getRelocsPointer mod.pHeader h) h.numLot pData codeDelta dataDelta oldCode oldData
    h.numRels.toNat 0

def udynlinkGetRamSize (mod : Module) : Reader UInt32 := getRamSizeForHeader mod.pHeader mod.mode

/-- The ownership flag changes before the destination is known to be good. -/
def provisionUntagged (host : Host) (ramSize : UInt32) (newRam : Addr) (newSize : UInt32) :
    Loader Addr :=
  if newRam = 0 then do
    Prog.modifyHandle Module.clrForeignRam
    let dest ← externalMalloc host ramSize none 4 0
    if dest = 0 then Prog.fail .loadOutOfMemory else pure dest
  else do
    Prog.modifyHandle Module.setForeignRam
    if newSize < ramSize then Prog.fail .loadRamLenLow else pure newRam

def freeOldBlock (oldForeign : Bool) (oldRam : Addr) (mainAlign : UInt32) : Loader Unit :=
  if oldForeign = false then externalFree oldRam none mainAlign 0 else pure ()

/-- The header of a COPY_ALL module moves with the block. -/
def moveHandle (dest : Addr) (headerOff : UInt32) (mod : Module) : Module :=
  { mod with
    pRam := dest
    pHeader := if mod.mode = .copyAll then dest + headerOff else mod.pHeader }

def relocateUntagged (host : Host) (ramSize : UInt32) (newRam : Addr) (newSize : UInt32) :
    Loader Unit := do
  let old ← Prog.getHandle
  if ramSize = 0 then pure ()
  else do
    let dest ← provisionUntagged host ramSize newRam newSize
    let oldCode ← getCodePointer old
    let oldData ← getDataPointer old
    if dest = old.pRam then freeOldBlock old.isForeignRam old.pRam 4
    else do
      let dataDelta := dest - old.pRam
      let codeDelta := if old.mode = .xip then 0 else dataDelta
      Prog.copy dest old.pRam ramSize.toNat
      let h ← readHeader old.pHeader
      Prog.modifyHandle (moveHandle dest (h.numLot.toUInt32 * 4))
      rebaseModulePointers codeDelta dataDelta oldCode oldData
      freeOldBlock old.isForeignRam old.pRam 4

/-! ## Sectioned modules -/

/-- `udynlink_section_move_t` -/
structure SectionMove where
  idx : UInt32
  newBase : Addr
deriving DecidableEq, Repr

/-- `sect_rebase_t` without the handle, which is the current one. -/
structure SectRebase where
  tab : SectView
  oldRam : Addr
  moves : List SectionMove

def sectBaseOld (ctx : SectRebase) (mod : Module) (idx : Nat) : Reader Addr :=
  if idx < 3 then do
    let h ← readHeader mod.pHeader
    if idx = 0 ∧ mod.mode = .xip then pure (mod.pHeader + getCodeOffsetFromHeader h)
    else do
      let block := if ctx.oldRam ≠ 0 then ctx.oldRam else mod.pRam
      let off ← getMainSectionOffset h ctx.tab mod.mode idx
      pure (block + off)
  else getSectionBaseIdx mod ctx.tab idx

def sectBaseNew (ctx : SectRebase) (mod : Module) (idx : Nat) : Reader Addr :=
  match ctx.moves.find? fun mv => mv.idx.toNat == idx with
  | some mv => pure mv.newBase
  | none => getSectionBaseIdx mod ctx.tab idx

/-- The scan of `sectFindByRuntime` over `n` more sections from `i` on. -/
def sectFindByRuntimeLoop (ctx : SectRebase) (mod : Module) (addr : Addr) :
    Nat → Nat → Reader (Option Nat)
  | 0, _ => pure none
  | n + 1, i => do
    let e ← sectEntryAt ctx.tab i
    let base ← sectBaseOld ctx mod i
    if addr ≥ base ∧ addr - base < e.size then pure (some i)
    else sectFindByRuntimeLoop ctx mod addr n (i + 1)

/-- Section whose old range contains a runtime address. -/
def sectFindByRuntime (ctx : SectRebase) (mod : Module) (addr : Addr) : Reader (Option Nat) :=
  sectFindByRuntimeLoop ctx mod addr ctx.tab.num 0

/-- Slot of a relocation behind the LOT, at its address after the move; `none`
when no code or data section contains it. -/
def sectionedSlot (ctx : SectRebase) (mod : Module) (h : Header) (lotOffset : UInt32) :
    Reader (Option Addr) := do
  let va := relocVa h lotOffset
  let ti ← sectFindByVa ctx.tab va
  match ti with
  | none => pure none
  | some ti => do
    let te ← sectEntryAt ctx.tab ti
    if te.cls = secClassBss then pure none
    else do
      let base ← sectBaseNew ctx mod ti
      pure (some (base + (va - te.va)))

/-- Slot of a symbol relocation: a LOT word, or one behind the LOT. -/
def symSlot (ctx : SectRebase) (mod : Module) (h : Header) (lotOffset : UInt32) :
    Reader (Option Addr) :=
  if lotOffset < h.numLot.toUInt32 then pure (some (mod.pRam + lotOffset * 4))
  else sectionedSlot ctx mod h lotOffset

/-- The word holds a runtime address; it follows the section it points into. -/
def rebaseSectionedBase (ctx : SectRebase) (lotOffset : UInt32) : Loader Unit := do
  let mod ← Prog.getHandle
  let h ← readHeader mod.pHeader
  if lotOffset < h.numLot.toUInt32 then pure ()
  else do
    let slot ← sectionedSlot ctx mod h lotOffset
    match slot with
    | none => pure ()
    | some p => do
      let word ← Reader.u32 p
      let si ← sectFindByRuntime ctx mod word
      match si with
      | none => pure ()
      | some si => do
        let new ← sectBaseNew ctx mod si
        let old ← sectBaseOld ctx mod si
        Prog.set32 p (word + (new - old))

def rebaseSectionedSym (ctx : SectRebase) (p : Addr) (sym : Sym) : Loader Unit := do
  let mod ← Prog.getHandle
  if sym.type = symTypeInternal ∨ sym.type = symTypeExported ∨ sym.type = symTypeWeak then do
    let si ← sectFindByVa ctx.tab sym.val
    match si with
    | none => pure ()
    | some si => do
      let se ← sectEntryAt ctx.tab si
      let new ← sectBaseNew ctx mod si
      if sym.type = symTypeWeak then do
        -- only the module's own default follows the section
        let word ← Reader.u32 p
        let old ← sectBaseOld ctx mod si
        if word = old + (sym.val - se.va) then Prog.set32 p (new + (sym.val - se.va))
        else pure ()
      else Prog.set32 p (new + (sym.val - se.va))
  else pure ()

def rebaseSectionedRelocation (ctx : SectRebase) (lotOffset symtOffset : UInt32) :
    Loader Unit := do
  let mod ← Prog.getHandle
  let h ← readHeader mod.pHeader
  if isBaseRelocation symtOffset then rebaseSectionedBase ctx lotOffset
  else do
    let sym? ← getSymAt mod.pHeader symtOffset
    match sym? with
    | none => pure ()
    | some sym => do
      let slot ← symSlot ctx mod h lotOffset
      match slot with
      | none => pure ()
      | some p => rebaseSectionedSym ctx p sym

def rebaseSectionsLoop (ctx : SectRebase) (pRels : Addr) : Nat → Nat → Loader Unit
  | 0, _ => pure ()
  | n + 1, i => do
    let (lotOffset, symtOffset) ← readRelocation pRels i
    rebaseSectionedRelocation ctx lotOffset symtOffset
    rebaseSectionsLoop ctx pRels n (i + 1)

def rebaseSectionsPointers (ctx : SectRebase) : Loader Unit := do
  let mod ← Prog.getHandle
  let h ← readHeader mod.pHeader
  rebaseSectionsLoop ctx (getRelocsPointer mod.pHeader h) h.numRels.toNat 0

/-- Every check runs before the ownership flag changes; an empty block needs no
destination. -/
def provisionSectioned (host : Host) (ramSize mainAlign : UInt32) (newRam : Addr)
    (newSize : UInt32) : Loader Addr :=
  if ramSize = 0 then pure 0
  else if newRam = 0 then do
    let dest ← externalMalloc host ramSize none mainAlign 0
    if dest = 0 then Prog.fail .loadOutOfMemory
    else do
      Prog.modifyHandle Module.clrForeignRam
      pure dest
  else if newSize < ramSize then Prog.fail .loadRamLenLow
  else if (newRam &&& (mainAlign - 1)) ≠ 0 then Prog.fail .loadRamUnaligned
  else do
    Prog.modifyHandle Module.setForeignRam
    pure newRam

def publishMoves : List SectionMove → Loader Unit
  | [] => pure ()
  | mv :: moves => do
    setSectionBaseIdx (mv.idx.toNat - 3) mv.newBase
    publishMoves moves

/-- Copy the block and repoint the handle; nothing to do for an empty block. -/
def moveSectionedBlock (tab : SectView) (ramSize : UInt32) (dest : Addr) (old : Module) :
    Loader Unit :=
  if ramSize > 0 then do
    Prog.copy dest old.pRam ramSize.toNat
    let h ← readHeader old.pHeader
    Prog.modifyHandle (moveHandle dest (h.numLot.toUInt32 * 4 + getNonmainBasesSize tab))
  else pure ()

def relocateSectioned (host : Host) (ramSize : UInt32) (newRam : Addr) (newSize : UInt32)
    (moves : List SectionMove) : Loader Unit := do
  let old ← Prog.getHandle
  let (res, tab) ← getSectab old.pHeader false
  if res ≠ .ok () ∨ tab.num = 0 then Prog.fail .loadBadSectionTable
  else do
    let mainAlign ← getMainAlign tab
    if ramSize = 0 ∧ moves = [] then pure ()
    else if ramSize > 0 ∧ newRam = old.pRam then pure ()
    else do
      let dest ← provisionSectioned host ramSize mainAlign newRam newSize
      moveSectionedBlock tab ramSize dest old
      rebaseSectionsPointers { tab, oldRam := old.pRam, moves }
      publishMoves moves
      if ramSize > 0 then freeOldBlock old.isForeignRam old.pRam mainAlign else pure ()

/-! ## Public interface -/

/-- Without a table the three sections of an untagged module are at the formula
bases the loader uses. -/
def udynlinkGetSectionBase (mod : Module) (idx : Nat) : Reader Addr :=
  if mod.pHeader = 0 then pure 0
  else do
    let (res, tab) ← getSectab mod.pHeader false
    if res ≠ .ok () then pure 0
    else if idx ≥ (if tab.num > 0 then tab.num else 3) then pure 0
    else if tab.num = 0 then
      if idx = 0 then getCodePointer mod
      else if idx = 1 then getDataPointer mod
      else do
        let data ← getDataPointer mod
        let h ← readHeader mod.pHeader
        pure (data + h.dataSize)
    else getSectionBaseIdx mod tab idx

def relocateMainBlock (host : Host) (newRam : Addr) (newSize : UInt32)
    (moves : List SectionMove) : Loader Unit := do
  let mod ← Prog.getHandle
  let ramSize ← udynlinkGetRamSize mod
  let h ← readHeader mod.pHeader
  if !isSectioned h then relocateUntagged host ramSize newRam newSize
  else relocateSectioned host ramSize newRam newSize moves

def udynlinkRelocateModule (host : Host) (newRam : Addr) (newSize : UInt32) : Loader Unit := do
  let mod ← Prog.getHandle
  if mod.pHeader = 0 then Prog.fail .invalidModule
  else relocateMainBlock host newRam newSize []

/-- The tests on each move, in order; `seen` holds the indices before it. -/
def checkMoves (tab : SectView) : List SectionMove → List UInt32 → Loader Unit
  | [], _ => pure ()
  | mv :: moves, seen =>
    if mv.idx < 3 ∨ mv.idx.toNat ≥ tab.num then Prog.fail .invalidModule
    else if seen.contains mv.idx then Prog.fail .invalidModule
    else if mv.newBase = 0 then Prog.fail .loadSectionUnresolved
    else do
      let e ← sectEntryAt tab mv.idx.toNat
      if (mv.newBase &&& (e.align - 1)) ≠ 0 then Prog.fail .loadSectionUnaligned
      else checkMoves tab moves (mv.idx :: seen)

/-- A NULL `moves` with a positive count is `none`. -/
def udynlinkRelocateModuleSections (host : Host) (newRam : Addr) (newSize : UInt32)
    (moves : Option (List SectionMove)) : Loader Unit := do
  let mod ← Prog.getHandle
  if mod.pHeader = 0 then Prog.fail .invalidModule
  else match moves with
    | none => Prog.fail .invalidModule
    | some [] => relocateMainBlock host newRam newSize []
    | some moves => do
      let h ← readHeader mod.pHeader
      if !isSectioned h then Prog.fail .invalidModule
      else do
        let (res, tab) ← getSectab mod.pHeader false
        if res ≠ .ok () ∨ tab.num = 0 then Prog.fail .loadBadSectionTable
        else do
          checkMoves tab moves []
          relocateMainBlock host newRam newSize moves

/-- The two entry points of a move. -/
inductive RelocateCall where
  | module (newRam : Addr) (newSize : UInt32)
  | sections (newRam : Addr) (newSize : UInt32) (moves : Option (List SectionMove))
deriving DecidableEq, Repr

namespace RelocateCall

def exec (host : Host) : RelocateCall → Loader Unit
  | module newRam newSize => udynlinkRelocateModule host newRam newSize
  | sections newRam newSize moves => udynlinkRelocateModuleSections host newRam newSize moves

def newRam : RelocateCall → Addr
  | module newRam _ => newRam
  | sections newRam _ _ => newRam

def newSize : RelocateCall → UInt32
  | module _ newSize => newSize
  | sections _ newSize _ => newSize

def moves : RelocateCall → Option (List SectionMove)
  | module _ _ => some []
  | sections _ _ moves => moves

end RelocateCall

end Udynlink
