import Udynlink.SectionTable

/-!
# Sizes and placement inside the main block

All offsets are `size_t` and wrap. The total and the section offsets come from
separate walks over the same entries, as in the source.
-/

namespace Udynlink

open Machine

/-- LOT, base array and, in COPY_ALL, the metadata. -/
def getMainSectionsStart (h : Header) (tab : SectView) (mode : LoadMode) : UInt32 :=
  let off := h.numLot.toUInt32 * 4 + getNonmainBasesSize tab
  if mode = .copyAll then off + getCodeOffsetFromHeader h else off

/-- Under XIP the main `.text` stays in the image. -/
def firstPlaced (mode : LoadMode) : Nat := if mode = .xip then 1 else 0

/-- The walk of `getMainSectionOffset` over `n` more sections from `i` on. -/
def mainOffsetLoop (tab : SectView) (idx : Nat) : Nat → Nat → UInt32 → Reader UInt32
  | 0, _, off => pure off
  | n + 1, i, off => do
    let e ← sectEntryAt tab i
    let off := alignUp off e.align
    if i = idx then pure off else mainOffsetLoop tab idx n (i + 1) (off + e.size)

/-- In-block offset of main section `idx`; 0 for a view without that entry. -/
def getMainSectionOffset (h : Header) (tab : SectView) (mode : LoadMode) (idx : Nat) :
    Reader UInt32 :=
  if tab.num ≤ idx then pure 0
  else mainOffsetLoop tab idx (idx + 1 - firstPlaced mode) (firstPlaced mode)
    (getMainSectionsStart h tab mode)

/-- Bytes of main `.text` payload in the image: up to the VA of `.data`. -/
def getCodePayloadSize (h : Header) (tab : SectView) : Reader UInt32 :=
  if tab.num > 1 then do
    let e ← sectEntryAt tab 1
    pure e.va
  else pure h.codeSize

/-- The maximum over the main sections, at least the word size. -/
def getMainAlign (tab : SectView) : Reader UInt32 :=
  if tab.num > 0 then do
    let e0 ← sectEntryAt tab 0
    let e1 ← sectEntryAt tab 1
    let e2 ← sectEntryAt tab 2
    let align : UInt32 := 4
    let align := if e0.align > align then e0.align else align
    let align := if e1.align > align then e1.align else align
    let align := if e2.align > align then e2.align else align
    pure align
  else pure 4

/-- The walk of `getRamSizeSections` over `n` more sections from `i` on. -/
def ramSizeLoop (tab : SectView) : Nat → Nat → UInt32 → Reader UInt32
  | 0, _, totSize => pure totSize
  | n + 1, i, totSize => do
    let e ← sectEntryAt tab i
    ramSizeLoop tab n (i + 1) (alignUp totSize e.align + e.size)

def getRamSizeSections (h : Header) (tab : SectView) (mode : LoadMode) : Reader UInt32 :=
  ramSizeLoop tab (3 - firstPlaced mode) (firstPlaced mode) (getMainSectionsStart h tab mode)

/-- The header-only arithmetic of an untagged module. -/
def getRamSizeUntagged (h : Header) (mode : LoadMode) : UInt32 :=
  let totSize := h.numLot.toUInt32 * 4 + h.dataSize + h.bssSize
  match mode with
  | .copyTextData => totSize + h.codeSize
  | .copyAll => totSize + (getCodeOffsetFromHeader h + h.codeSize)
  | .xip => totSize

/-- `get_ram_size_for_header`, which is also `udynlink_compute_ram_size`. -/
def getRamSizeForHeader (p : Addr) (mode : LoadMode) : Reader UInt32 := do
  let h ← readHeader p
  if isSectioned h then do
    let (res, tab) ← getSectab p false
    if res = .ok () ∧ tab.num > 0 then getRamSizeSections h tab mode
    else pure (getRamSizeUntagged h mode)
  else pure (getRamSizeUntagged h mode)

/-! ## The extent of an image -/

def udynlinkGetImageSize (p : Addr) : Reader UInt32 := do
  let h ← readHeader p
  if h.sign ≠ moduleSign then pure 0
  else pure (getCodeOffsetFromHeader h + h.codeSize + h.dataSize)

/-- Tagged payloads of `n` entries from index `k` on, in `size_t`. -/
def addPayloadSizes (tab : SectView) : Nat → Nat → UInt32 → Reader UInt32
  | 0, _, totSize => pure totSize
  | n + 1, k, totSize => do
    let e ← sectEntryAt tab k
    addPayloadSizes tab n (k + 1) (if e.cls ≠ secClassBss then totSize + e.size else totSize)

def udynlinkGetImageSizeBounded (p : Addr) (avail : UInt32) : Reader UInt32 :=
  if p = 0 ∨ avail < 32 then pure 0
  else do
    let totSize ← udynlinkGetImageSize p
    if totSize = 0 then pure 0
    else if totSize > avail then pure 0
    else do
      let h ← readHeader p
      if !isSectioned h then pure totSize
      else do
        let (res, tab) ← getSectab p false
        if res ≠ .ok () then pure 0
        else addPayloadSizes tab (tab.num - 3) 3 totSize

end Udynlink
