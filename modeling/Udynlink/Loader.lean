import Udynlink.Host

/-!
# Loading, unloading and symbol lookup

`udynlinkLoadModuleImage` is cut at the points where the C function can leave
for its error path. The path runs with the section table and the block
alignment known at that point.
-/

namespace Udynlink

open Machine

/-- `udynlink_module_image_t`; the parts may lie anywhere. -/
structure Image where
  pHeader : Addr
  pRelocations : Addr
  pSymtab : Addr
  pCode : Addr
  pData : Addr
deriving DecidableEq, Repr

def udynlinkImageFromMemory (base : Addr) : Reader Image := do
  let h ← readHeader base
  let pRelocations := base + getHeaderSize h / 4 * 4
  let pCode := base + getCodeOffsetFromHeader h
  let out : Image :=
    { pHeader := base
      pRelocations
      pSymtab := pRelocations + h.numRels.toUInt32 * 2 * 4
      pCode
      pData := pCode + h.codeSize }
  if isSectioned h then do
    let (res, tab) ← getSectab base false
    if res = .ok () then do
      let payload ← getCodePayloadSize h tab
      pure { out with pData := pCode + payload }
    else pure out
  else pure out

theorem imageFromMemory_pHeader (base : Addr) (m : Mem) :
    ((udynlinkImageFromMemory base).run m).pHeader = base := by
  rw [udynlinkImageFromMemory, Reader.run_bind]
  dsimp only
  rw [Reader.run_ite]
  split
  · rw [Reader.run_bind]
    generalize (getSectab base false).run m = r
    obtain ⟨res, tab⟩ := r
    dsimp only
    rw [Reader.run_ite]
    split
    · rw [Reader.run_bind]
      rfl
    · rfl
  · rfl

/-! ## Relocations -/

def relDataBase : UInt32 := 0x80000000

def relCodeBase : UInt32 := 0x40000000

/-- The bit-31 and bit-30 entries: the word in place is rebased. -/
def applyBaseRelocation (pHeader : Addr) (tab : SectView) (sectioned : Bool)
    (lotOffset symtOffset : UInt32) : Loader Unit := do
  let mod ← Prog.getHandle
  let h ← readHeader pHeader
  if lotOffset < h.numLot.toUInt32 then Prog.fail .loadBadRelocationTable
  else do
    let p ← getRelocTarget mod tab lotOffset
    if p = 0 then Prog.fail .loadBadRelocationTable
    else do
      let word ← Reader.u32 p
      if sectioned then do
        -- the word is a link-time VA; the low bits of the entry are ignored
        let target ← resolveRuntimeVa mod tab word
        match target with
        | none => Prog.fail .loadBadRelocationTable
        | some target => Prog.set32 p target
      else if symtOffset &&& relDataBase ≠ 0 then do
        let data ← getDataPointer mod
        Prog.set32 p (word + (data - (symtOffset &&& 0x7FFFFFFF)))
      else do
        let code ← getCodePointer mod
        Prog.set32 p (code + word)

/-- The module's own address of a symbol, as a load writes it. -/
def ownAddress (mod : Module) (tab : SectView) (sectioned : Bool) (sym : Sym) :
    Reader (Option Addr) :=
  if sectioned then resolveRuntimeVa mod tab sym.val
  else do
    let sym' ← offsetSym mod sym
    pure (some sym'.val)

def applySymRelocation (host : Host) (pHeader pSymtab : Addr) (tab : SectView) (sectioned : Bool)
    (lotOffset symtOffset : UInt32) : Loader Unit := do
  let mod ← Prog.getHandle
  let h ← readHeader pHeader
  let sym? ← getSymAtRaw pSymtab symtOffset h.symtSize
  match sym? with
  | none => Prog.fail .loadBadRelocationTable
  | some sym => do
    let p ← getRelocTarget mod tab lotOffset
    if p = 0 then Prog.fail .loadBadRelocationTable
    else if sym.type = symTypeInternal ∨ sym.type = symTypeExported then do
      let target ← ownAddress mod tab sectioned sym
      match target with
      | none => Prog.fail .loadBadRelocationTable
      | some target => Prog.set32 p target
    else if sym.type = symTypeWeak then do
      let target ← ownAddress mod tab sectioned sym
      match target with
      | none => Prog.fail .loadBadRelocationTable
      | some target => do
        Prog.set32 p target
        let symAddr ← resolveSymbol host sym.name
        if symAddr = symDeferred then pure ()
        else if symAddr > 0 then Prog.set32 p symAddr
        else pure ()
    else if sym.type = symTypeExtern then do
      let symAddr ← resolveSymbol host sym.name
      if symAddr = symDeferred then Prog.set32 p 0
      else if symAddr > 0 then Prog.set32 p symAddr
      else Prog.fail .loadUnknownSymbol
    else if sym.type = symTypeModuleName then Prog.fail .loadBadRelocationTable
    else pure ()

/-- Entry `i` of a relocation table: `lot_offset`, then the symbol or kind. -/
def readRelocation (pRelocations : Addr) (i : Nat) : Reader (UInt32 × UInt32) := do
  let lotOffset ← Reader.u32 (pRelocations + UInt32.ofNat (8 * i))
  let symtOffset ← Reader.u32 (pRelocations + UInt32.ofNat (8 * i + 4))
  pure (lotOffset, symtOffset)

def isBaseRelocation (symtOffset : UInt32) : Bool :=
  (symtOffset &&& relDataBase) != 0 || (symtOffset &&& relCodeBase) != 0

def applyRelocation (host : Host) (pHeader pRelocations pSymtab : Addr) (tab : SectView)
    (sectioned : Bool) (i : Nat) : Loader Unit := do
  let (lotOffset, symtOffset) ← readRelocation pRelocations i
  if isBaseRelocation symtOffset then
    applyBaseRelocation pHeader tab sectioned lotOffset symtOffset
  else applySymRelocation host pHeader pSymtab tab sectioned lotOffset symtOffset

def applyRelocationsLoop (host : Host) (pHeader pRelocations pSymtab : Addr) (tab : SectView)
    (sectioned : Bool) : Nat → Nat → Loader Unit
  | 0, _ => pure ()
  | n + 1, i => do
    applyRelocation host pHeader pRelocations pSymtab tab sectioned i
    applyRelocationsLoop host pHeader pRelocations pSymtab tab sectioned n (i + 1)

/-- The count is read once: no store of the loop goes through a `uint16_t`. -/
def udynlinkLoadApplyRelocations (host : Host) (pHeader pRelocations pSymtab : Addr) :
    Loader Unit := do
  let h ← readHeader pHeader
  let (res, tab) ← getSectab pHeader false
  if res ≠ .ok () ∧ isSectioned h then Prog.fail .loadBadSectionTable
  else do
    let sectioned : Bool := res = .ok () ∧ tab.num > 0
    applyRelocationsLoop host pHeader pRelocations pSymtab tab sectioned h.numRels.toNat 0

/-! ## The stages of a load -/

def taggedSizes (tab : SectView) (clsMask : UInt32) : Reader Nat :=
  if tab.num > 0 then sumTaggedSizes tab clsMask else pure 0

def getLoadRamSize (pHeader : Addr) (tab : SectView) (loadMode : LoadMode) : Reader UInt32 := do
  let h ← readHeader pHeader
  if tab.num > 0 then getRamSizeSections h tab loadMode
  else getRamSizeForHeader pHeader loadMode

/-- Size caps, before any derived length is used as a copy size. -/
def checkSizes (image : Image) (tab : SectView) (loadMode : LoadMode) : Loader UInt32 := do
  let h ← readHeader image.pHeader
  let tagged ← taggedSizes tab 3
  let imageExtent :=
    (getCodeOffsetFromHeader h).toNat + h.codeSize.toNat + h.dataSize.toNat + tagged
  if imageExtent > maxImageSize.toNat then
    Prog.fail (if tab.num > 0 then .loadBadSectionTable else .loadBadRelocationTable)
  else do
    let ramSize ← getLoadRamSize image.pHeader tab loadMode
    if ramSize > maxRamSize then Prog.fail .loadBadRelocationTable
    else do
      let allocTotal ← taggedSizes tab 0xFF
      if ramSize.toNat + allocTotal > maxRamSize.toNat then Prog.fail .loadBadSectionTable
      else pure ramSize

/-- Where the block comes from; its owner is recorded in the handle. -/
def provisionAddr (host : Host) (mainAlign ramSize : UInt32) (loadAddr : Addr)
    (loadSize : UInt32) : Loader Addr :=
  if loadAddr = 0 then do
    Prog.modifyHandle Module.clrForeignRam
    let p ← externalMalloc host ramSize none mainAlign 0
    if p = 0 then Prog.fail .loadOutOfMemory else pure p
  else do
    Prog.modifyHandle Module.setForeignRam
    if loadSize < ramSize then Prog.fail .loadRamLenLow else pure loadAddr

/-- An unaligned block is not in the handle yet, so it goes back here. -/
def rejectUnaligned (mainAlign : UInt32) (ramAddr loadAddr : Addr) : Loader Addr :=
  if loadAddr = 0 then do
    externalFree ramAddr none mainAlign 0
    Prog.fail .loadRamUnaligned
  else Prog.fail .loadRamUnaligned

/-- The error paths only ever see bases the loader recorded. -/
def zeroBaseArray (image : Image) (tab : SectView) (ramAddr : Addr) : Loader Unit :=
  if tab.num > 0 then do
    let h ← readHeader image.pHeader
    Prog.zero (ramAddr + h.numLot.toUInt32 * 4) (getNonmainBasesSize tab).toNat
  else pure ()

/-- The main block, allocated or taken from the caller; NULL for an empty one. -/
def provisionRam (host : Host) (image : Image) (tab : SectView) (mainAlign ramSize : UInt32)
    (loadAddr : Addr) (loadSize : UInt32) : Loader Addr :=
  if ramSize > 0 then do
    let ramAddr ← provisionAddr host mainAlign ramSize loadAddr loadSize
    if (ramAddr &&& (mainAlign - 1)) ≠ 0 then rejectUnaligned mainAlign ramAddr loadAddr
    else do
      Prog.modifyHandle fun mod => { mod with pRam := ramAddr }
      zeroBaseArray image tab ramAddr
      pure ramAddr
  else do
    Prog.modifyHandle fun mod => { mod with pRam := 0 }
    pure 0

/-- `memcpy` behind a test for a non-zero size. -/
def copyNonempty (dst src : Addr) (size : UInt32) : Loader Unit :=
  if size > 0 then Prog.copy dst src size.toNat else pure ()

/-- Destination of main section `idx`, from the image's own header and table. -/
def mainSectionDest (image : Image) (tab : SectView) (loadMode : LoadMode) (idx : Nat) :
    Loader Addr := do
  let mod ← Prog.getHandle
  let h ← readHeader image.pHeader
  let off ← getMainSectionOffset h tab loadMode idx
  pure (mod.pRam + off)

def copyMainData (image : Image) (tab : SectView) (loadMode : LoadMode) : Loader Unit := do
  let me ← sectEntryAt tab 1
  if me.size > 0 then do
    let dst ← mainSectionDest image tab loadMode 1
    Prog.copy dst image.pData me.size.toNat
  else pure ()

def copyMainText (image : Image) (tab : SectView) (loadMode : LoadMode) : Loader Unit := do
  let h ← readHeader image.pHeader
  let codePayload ← getCodePayloadSize h tab
  if codePayload > 0 then do
    let dst ← mainSectionDest image tab loadMode 0
    Prog.copy dst image.pCode codePayload.toNat
  else pure ()

def copyMainSections (image : Image) (tab : SectView) (loadMode : LoadMode) (pTemp8 : Addr) :
    Loader Unit := do
  let h ← readHeader image.pHeader
  match loadMode with
  | .copyAll => do
    -- one region: header, relocations, symbol table, section table, padding
    Prog.copy pTemp8 image.pHeader (getCodeOffsetFromHeader h).toNat
    Prog.modifyHandle fun mod => { mod with pHeader := pTemp8 }
    let dst ← mainSectionDest image tab loadMode 0
    let codePayload ← getCodePayloadSize h tab
    Prog.copy dst image.pCode codePayload.toNat
    copyMainData image tab loadMode
  | .copyTextData => do
    copyMainText image tab loadMode
    copyMainData image tab loadMode
  | .xip => copyMainData image tab loadMode

/-- One host allocation for each non-empty tagged section, in every mode. -/
def loadTaggedLoop (host : Host) (image : Image) (tab : SectView) :
    Nat → Nat → UInt32 → Loader Unit
  | 0, _, _ => pure ()
  | n + 1, k, payloadOff => do
    let e ← sectEntryAt tab k
    if e.size = 0 then loadTaggedLoop host image tab n (k + 1) payloadOff
    else do
      let sec ← externalMalloc host e.size (sectName tab e) e.align (sectHostFlags e)
      if sec = 0 then Prog.fail .loadSectionUnresolved
      else do
        -- recorded first, so that the error path frees it
        setSectionBaseIdx (k - 3) sec
        if (sec &&& (e.align - 1)) ≠ 0 then Prog.fail .loadSectionUnaligned
        else if e.cls = secClassBss then do
          Prog.zero sec e.size.toNat
          loadTaggedLoop host image tab n (k + 1) payloadOff
        else do
          Prog.copy sec (image.pCode + payloadOff) e.size.toNat
          loadTaggedLoop host image tab n (k + 1) (payloadOff + e.size)

def zeroMainBss (image : Image) (tab : SectView) (loadMode : LoadMode) : Loader Unit := do
  let me ← sectEntryAt tab 2
  if me.size > 0 then do
    let dst ← mainSectionDest image tab loadMode 2
    Prog.zero dst me.size.toNat
  else pure ()

def placeSectioned (host : Host) (image : Image) (tab : SectView) (loadMode : LoadMode)
    (pTemp8 : Addr) : Loader Unit := do
  copyMainSections image tab loadMode pTemp8
  let h ← readHeader image.pHeader
  let codePayload ← getCodePayloadSize h tab
  loadTaggedLoop host image tab (tab.num - 3) 3 (codePayload + h.dataSize)
  zeroMainBss image tab loadMode

/-- The gap between the symbol table and the code. -/
def zeroMetadataPad (h : Header) (pEnd : Addr) : Loader Unit :=
  let pad := getCodeOffsetFromHeader h -
    (getHeaderSize h + h.numRels.toUInt32 * 2 * 4 + h.symtSize)
  if pad > 0 ∧ pad < 4 then Prog.zero pEnd pad.toNat else pure ()

def copyWholeImage (image : Image) (h : Header) (pTemp8 : Addr) : Loader Unit := do
  let hs := getHeaderSize h
  let rels := h.numRels.toUInt32 * 2 * 4
  let codeOffset := getCodeOffsetFromHeader h
  Prog.copy pTemp8 image.pHeader hs.toNat
  Prog.copy (pTemp8 + hs) image.pRelocations rels.toNat
  Prog.copy (pTemp8 + hs + rels) image.pSymtab h.symtSize.toNat
  zeroMetadataPad h (pTemp8 + hs + rels + h.symtSize)
  Prog.copy (pTemp8 + codeOffset) image.pCode h.codeSize.toNat
  Prog.copy (pTemp8 + codeOffset + h.codeSize) image.pData h.dataSize.toNat
  Prog.modifyHandle fun mod => { mod with pHeader := pTemp8 }

def copyUntagged (image : Image) (loadMode : LoadMode) (pTemp8 : Addr) : Loader Unit := do
  let h ← readHeader image.pHeader
  match loadMode with
  | .copyAll => copyWholeImage image h pTemp8
  | .copyTextData => copyNonempty pTemp8 image.pCode (h.codeSize + h.dataSize)
  | .xip => copyNonempty pTemp8 image.pData h.dataSize

def zeroBss (image : Image) : Loader Unit := do
  let h ← readHeader image.pHeader
  if h.bssSize > 0 then do
    let mod ← Prog.getHandle
    let data ← getDataPointer mod
    Prog.zero (data + h.dataSize) h.bssSize.toNat
  else pure ()

def placeUntagged (image : Image) (loadMode : LoadMode) (pTemp8 : Addr) : Loader Unit := do
  copyUntagged image loadMode pTemp8
  zeroBss image

def placeImage (host : Host) (image : Image) (tab : SectView) (loadMode : LoadMode)
    (ramAddr : Addr) : Loader Unit := do
  let h ← readHeader image.pHeader
  let pTemp8 := ramAddr + h.numLot.toUInt32 * 4 + getNonmainBasesSize tab
  if tab.num > 0 then placeSectioned host image tab loadMode pTemp8
  else placeUntagged image loadMode pTemp8

/-- Everything between a validated table and the error path. -/
def loadBody (host : Host) (image : Image) (tab : SectView) (mainAlign : UInt32) (loadAddr : Addr)
    (loadSize : UInt32) (loadMode : LoadMode) : Loader Unit := do
  let ramSize ← checkSizes image tab loadMode
  let ramAddr ← provisionRam host image tab mainAlign ramSize loadAddr loadSize
  placeImage host image tab loadMode ramAddr
  udynlinkLoadApplyRelocations host image.pHeader image.pRelocations image.pSymtab
  let mod ← Prog.getHandle
  let numNamedSyms ← computeNumNamedSyms mod.pHeader
  Prog.modifyHandle fun mod => { mod with numNamedSyms }

/-- The error path: tagged sections first, their bases live in the main block. -/
def loadExit (tab : SectView) (mainAlign : UInt32) (res : Error) : Loader Unit := do
  freeNonmainSections tab
  freeMainBlock mainAlign
  Prog.modifyHandle fun _ => Module.free
  Prog.fail res

def udynlinkLoadModuleImage (host : Host) (image : Image) (loadAddr : Addr) (loadSize : UInt32)
    (loadMode : LoadMode) : Loader Unit := do
  Prog.modifyHandle fun mod => ({ mod with pHeader := image.pHeader }).setMode loadMode
  let h ← readHeader image.pHeader
  match udynlinkValidateHeader h with
  | .error e => loadExit ⟨0, 0, 0⟩ 4 e
  | .ok () => do
    let (res, tab) ← getSectab image.pHeader true
    match res with
    | .error e => loadExit tab 4 e
    | .ok () => do
      let mainAlign ← getMainAlign tab
      let done ← (loadBody host image tab mainAlign loadAddr loadSize loadMode).attempt
      match done with
      | .error e => loadExit tab mainAlign e
      | .ok () => pure ()

def udynlinkLoadModule (host : Host) (base loadAddr : Addr) (loadSize : UInt32)
    (loadMode : LoadMode) : Loader Unit := do
  let image ← udynlinkImageFromMemory base
  udynlinkLoadModuleImage host image loadAddr loadSize loadMode

/-! ## Unloading -/

def releaseHandle (mainAlign : UInt32) : Loader Unit := do
  freeMainBlock mainAlign
  Prog.modifyHandle fun _ => Module.free

def udynlinkUnloadModule : Loader Unit := do
  let mod ← Prog.getHandle
  if mod.pHeader = 0 then Prog.fail .invalidModule
  else do
    let (res, tab) ← getSectab mod.pHeader false
    if res = .ok () then do
      let mainAlign ← getMainAlign tab
      -- the base array lives in the main block, so the sections go first
      freeNonmainSections tab
      releaseHandle mainAlign
    else releaseHandle 4

/-! ## Lookup -/

/-- `strcmp` with a host string looks at no byte past its end. -/
def strcmpName (name : SymName) (q : List UInt8) : Reader Ordering :=
  match name with
  | .pool p => .strcmp (q.length + 1) p q
  | .notAvailable => pure (compare notAvailableName q)

/-- A found symbol: the load address folded in, a weak one open to override. -/
def finishLookup (host : Host) (mod : Module) (name : List UInt8) (sym : Sym) : Loader Sym := do
  let sym ← offsetSym mod sym
  if sym.type = symTypeWeak then do
    let symAddr ← resolveName host name
    if symAddr = symDeferred then pure sym
    else if symAddr > 0 then pure { sym with val := symAddr }
    else pure sym
  else pure sym

/-- The binary search; the interval shrinks at every step. -/
def lookupBinary (host : Host) (mod : Module) (name : List UInt8) :
    Nat → Nat → Nat → Loader (Option Sym)
  | 0, _, _ => pure none
  | n + 1, lo, hi =>
    if ¬ lo ≤ hi then pure none
    else do
      let mid := lo + (hi - lo) / 2
      let sym? ← getSymAt mod.pHeader (UInt32.ofNat mid)
      match sym? with
      | none => pure none
      | some sym => do
        let cmp ← strcmpName sym.name name
        match cmp with
        | .eq => do
          let sym ← finishLookup host mod name sym
          pure (some sym)
        | .lt => lookupBinary host mod name n (mid + 1) hi
        | .gt => lookupBinary host mod name n lo (mid - 1)

/-- The linear search over at most `n` more entries from `idx` on. -/
def lookupLinear (host : Host) (mod : Module) (name : List UInt8) :
    Nat → UInt32 → Loader (Option Sym)
  | 0, _ => pure none
  | n + 1, idx => do
    let sym? ← getSymAt mod.pHeader idx
    match sym? with
    | none => pure none
    | some sym =>
      if sym.type = symTypeInternal then lookupLinear host mod name n (idx + 1)
      else do
        let cmp ← strcmpName sym.name name
        if cmp = .eq then do
          let sym ← finishLookup host mod name sym
          pure (some sym)
        else lookupLinear host mod name n (idx + 1)

def udynlinkLookupSymbol (host : Host) (name : List UInt8) : Loader (Option Sym) := do
  let mod ← Prog.getHandle
  if mod.numNamedSyms > 0 then
    lookupBinary host mod name mod.numNamedSyms.toNat 1 mod.numNamedSyms.toNat
  else lookupLinear host mod name (2 ^ 32) 1

def udynlinkGetSymbol (index : UInt32) : Loader (Option Sym) := do
  let mod ← Prog.getHandle
  if mod.pHeader = 0 then pure none
  else do
    let sym? ← getSymAt mod.pHeader index
    match sym? with
    | none => pure none
    | some sym => do
      let sym ← offsetSym mod sym
      pure (some sym)

end Udynlink
