import Udynlink.Layout

/-!
# The layout over unbounded integers

The same sums and roundings as in the layout functions, without a word size.
Every layout function returns its exact value modulo the word, whatever the
header and the table hold.
-/

namespace Udynlink

open Machine

/-! ## Offsets in the image -/

def exactSymtabEnd (h : Header) : Nat :=
  exactAlignUp ((getHeaderSize h).toNat + 8 * h.numRels.toNat + h.symtSize.toNat) 4

def exactCodeOffset (h : Header) : Nat :=
  exactAlignUp (exactSymtabEnd h + 24 * (getNumSectionsRaw h).toNat) 4

theorem alignUp_ofNat (n : Nat) (a : UInt32) :
    alignUp (UInt32.ofNat n) a = UInt32.ofNat (exactAlignUp n a.toNat) := by
  apply UInt32.toNat_inj.mp
  rw [alignUp_toNat UInt32.toNat_ofNat', UInt32.toNat_ofNat']

/-- The loader spells the rounding to words with constants. -/
theorem word_round_ofNat (n : Nat) :
    (UInt32.ofNat n + 3) &&& ~~~3 = UInt32.ofNat (exactAlignUp n 4) := by
  rw [← show (4 : UInt32).toNat = 4 from rfl, ← alignUp_ofNat, alignUp,
    show (4 : UInt32) - 1 = 3 from rfl, show UInt32.ofNat n + 3 = UInt32.ofNat n + 4 - 1 from ?_]
  rw [show (3 : UInt32) = 4 - 1 from rfl]
  abel

theorem uint16_ofNat (x : UInt16) : x.toUInt32 = UInt32.ofNat x.toNat := by
  apply UInt32.toNat_inj.mp
  have hx := x.toNat_lt
  rw [UInt16.toNat_toUInt32, UInt32.toNat_ofNat', Nat.mod_eq_of_lt (by omega)]

theorem relBytes (h : Header) : h.numRels.toUInt32 * 2 * 4 = UInt32.ofNat (8 * h.numRels.toNat) := by
  rw [uint16_ofNat, UInt32.ofNat_mul, UInt32.mul_assoc, UInt32.mul_comm]
  rfl

theorem relBytes_toNat (h : Header) : (h.numRels.toUInt32 * 2 * 4).toNat = 8 * h.numRels.toNat := by
  have hn := h.numRels.toNat_lt
  rw [relBytes, toNat_ofNat_of_lt (by omega)]

theorem getHeaderSize_ge (h : Header) : 32 ≤ (getHeaderSize h).toNat := by
  rw [getHeaderSize]
  split_ifs <;> decide

theorem getHeaderSize_le (h : Header) : (getHeaderSize h).toNat ≤ 36 := by
  rw [getHeaderSize]
  split_ifs <;> decide

/-- The header is a number of words. -/
theorem getHeaderSize_words (h : Header) : getHeaderSize h / 4 * 4 = getHeaderSize h := by
  rw [getHeaderSize]
  split_ifs <;> rfl

theorem getSymTablePointer_eq (p : Addr) (h : Header) : getSymTablePointer p h =
    p + UInt32.ofNat ((getHeaderSize h).toNat + 8 * h.numRels.toNat) := by
  rw [getSymTablePointer, getHeaderSize_words, relBytes, UInt32.ofNat_add, UInt32.ofNat_toNat,
    UInt32.add_assoc]

theorem getSymtabEndOffset_eq (h : Header) :
    getSymtabEndOffset h = UInt32.ofNat (exactSymtabEnd h) := by
  have hsum : getHeaderSize h + h.numRels.toUInt32 * 2 * 4 + h.symtSize =
      UInt32.ofNat ((getHeaderSize h).toNat + 8 * h.numRels.toNat + h.symtSize.toNat) := by
    rw [UInt32.ofNat_add, UInt32.ofNat_add, UInt32.ofNat_toNat, UInt32.ofNat_toNat, uint16_ofNat,
      UInt32.ofNat_mul, UInt32.mul_assoc, UInt32.mul_comm]
    rfl
  rw [getSymtabEndOffset, exactSymtabEnd, ← word_round_ofNat, ← hsum]

theorem getCodeOffsetFromHeader_eq (h : Header) :
    getCodeOffsetFromHeader h = UInt32.ofNat (exactCodeOffset h) := by
  have hsum : getSymtabEndOffset h + getNumSectionsRaw h * 6 * 4 =
      UInt32.ofNat (exactSymtabEnd h + 24 * (getNumSectionsRaw h).toNat) := by
    rw [getSymtabEndOffset_eq, UInt32.ofNat_add, UInt32.ofNat_mul, UInt32.ofNat_toNat,
      UInt32.mul_assoc, UInt32.mul_comm]
    rfl
  rw [getCodeOffsetFromHeader, exactCodeOffset, ← word_round_ofNat, ← hsum]

/-! ## Placement in the main block -/

/-- End of `n` sections placed one after the other, from section `i` at `off`. -/
def placedEnd (es : Nat → SectEntry) : Nat → Nat → Nat → Nat
  | 0, _, off => off
  | n + 1, i, off =>
    placedEnd es n (i + 1) (exactAlignUp off (es i).align.toNat + (es i).size.toNat)

/-- Offset of the section after those. -/
def placedAt (es : Nat → SectEntry) (n i off : Nat) : Nat :=
  exactAlignUp (placedEnd es n i off) (es (i + n)).align.toNat

def exactStart (h : Header) (num : Nat) (mode : LoadMode) : Nat :=
  4 * h.numLot.toNat + 4 * (num - 3) + if mode = .copyAll then exactCodeOffset h else 0

def exactMainOffset (h : Header) (num : Nat) (es : Nat → SectEntry) (mode : LoadMode)
    (idx : Nat) : Nat :=
  placedAt es (idx - firstPlaced mode) (firstPlaced mode) (exactStart h num mode)

def exactRamSections (h : Header) (num : Nat) (es : Nat → SectEntry) (mode : LoadMode) : Nat :=
  placedEnd es (3 - firstPlaced mode) (firstPlaced mode) (exactStart h num mode)

theorem placedEnd_succ (es : Nat → SectEntry) (n i off : Nat) :
    placedEnd es (n + 1) i off = placedAt es n i off + (es (i + n)).size.toNat := by
  induction n generalizing i off with
  | zero => rfl
  | succ n ih =>
    rw [placedEnd, ih, placedAt, placedAt, placedEnd, Nat.add_right_comm i 1 n, Nat.add_assoc i n 1]

theorem getNonmainBasesSize_eq (tab : SectView) :
    getNonmainBasesSize tab = UInt32.ofNat (4 * (tab.num - 3)) := by
  rw [getNonmainBasesSize]
  split
  next hn =>
    have hs : UInt32.ofNat tab.num - 3 = UInt32.ofNat (tab.num - 3) := by
      have he : UInt32.ofNat tab.num = UInt32.ofNat (tab.num - 3) + 3 := by
        rw [show (3 : UInt32) = UInt32.ofNat 3 from rfl, ← UInt32.ofNat_add]
        congr 1
        omega
      rw [he, UInt32.add_sub_cancel]
    rw [hs, UInt32.ofNat_mul, UInt32.mul_comm]
    rfl
  next hn =>
    rw [show tab.num - 3 = 0 by omega]
    rfl

theorem getMainSectionsStart_eq (h : Header) (tab : SectView) (mode : LoadMode) :
    getMainSectionsStart h tab mode = UInt32.ofNat (exactStart h tab.num mode) := by
  have hlot : h.numLot.toUInt32 * 4 = UInt32.ofNat (4 * h.numLot.toNat) := by
    rw [uint16_ofNat, UInt32.ofNat_mul, UInt32.mul_comm]
    rfl
  rw [getMainSectionsStart, exactStart, hlot, getNonmainBasesSize_eq, getCodeOffsetFromHeader_eq,
    ← UInt32.ofNat_add]
  split
  · rw [UInt32.ofNat_add (4 * h.numLot.toNat + _)]
  · rw [Nat.add_zero]

private theorem placed_step (off : Nat) (e : SectEntry) :
    UInt32.ofNat (exactAlignUp off e.align.toNat) + e.size =
      UInt32.ofNat (exactAlignUp off e.align.toNat + e.size.toNat) := by
  rw [UInt32.ofNat_add, UInt32.ofNat_toNat]

theorem ramSizeLoop_run (tab : SectView) (m : Mem) (n i off : Nat) :
    (ramSizeLoop tab n i (UInt32.ofNat off)).run m =
      UInt32.ofNat (placedEnd (entriesAt m tab.pEntries) n i off) := by
  induction n generalizing i off with
  | zero => rfl
  | succ n ih =>
    rw [ramSizeLoop, Reader.run_bind, sectEntryAt_run, alignUp_ofNat, placed_step, ih, placedEnd]

theorem getRamSizeSections_run (h : Header) (tab : SectView) (mode : LoadMode) (m : Mem) :
    (getRamSizeSections h tab mode).run m =
      UInt32.ofNat (exactRamSections h tab.num (entriesAt m tab.pEntries) mode) := by
  rw [getRamSizeSections, getMainSectionsStart_eq, ramSizeLoop_run, exactRamSections]

/-- The walk stops at `idx`, having placed everything before it. -/
theorem mainOffsetLoop_run (tab : SectView) (m : Mem) (idx n i off : Nat) (hn : idx = i + n) :
    (mainOffsetLoop tab idx (n + 1) i (UInt32.ofNat off)).run m =
      UInt32.ofNat (placedAt (entriesAt m tab.pEntries) n i off) := by
  induction n generalizing i off with
  | zero =>
    rw [mainOffsetLoop, Reader.run_bind, sectEntryAt_run, alignUp_ofNat]
    dsimp only
    rw [if_pos (by omega), Reader.run_pure]
    rfl
  | succ n ih =>
    rw [mainOffsetLoop, Reader.run_bind, sectEntryAt_run, alignUp_ofNat]
    dsimp only
    rw [if_neg (by omega), placed_step, ih (i + 1) _ (by omega), placedAt, placedAt, placedEnd,
      Nat.add_right_comm i 1 n, Nat.add_assoc i n 1]

theorem getMainSectionOffset_run (h : Header) (tab : SectView) (mode : LoadMode) (m : Mem)
    {idx : Nat} (hnum : idx < tab.num) (hfirst : firstPlaced mode ≤ idx) :
    (getMainSectionOffset h tab mode idx).run m =
      UInt32.ofNat (exactMainOffset h tab.num (entriesAt m tab.pEntries) mode idx) := by
  rw [getMainSectionOffset, if_neg (by omega), getMainSectionsStart_eq,
    show idx + 1 - firstPlaced mode = idx - firstPlaced mode + 1 by omega,
    mainOffsetLoop_run _ _ _ _ _ _ (by omega), exactMainOffset]

/-! ## Totals -/

def exactRamUntagged (h : Header) (mode : LoadMode) : Nat :=
  4 * h.numLot.toNat + h.dataSize.toNat + h.bssSize.toNat +
    match mode with
    | .copyTextData => h.codeSize.toNat
    | .copyAll => exactCodeOffset h + h.codeSize.toNat
    | .xip => 0

/-- The RAM requirement of the main block. -/
def exactRam (h : Header) (num : Nat) (es : Nat → SectEntry) (mode : LoadMode) : Nat :=
  if num > 0 then exactRamSections h num es mode else exactRamUntagged h mode

theorem getRamSizeUntagged_eq (h : Header) (mode : LoadMode) :
    getRamSizeUntagged h mode = UInt32.ofNat (exactRamUntagged h mode) := by
  have hlot : h.numLot.toUInt32 * 4 = UInt32.ofNat (4 * h.numLot.toNat) := by
    rw [uint16_ofNat, UInt32.ofNat_mul, UInt32.mul_comm]
    rfl
  have hbase : h.numLot.toUInt32 * 4 + h.dataSize + h.bssSize =
      UInt32.ofNat (4 * h.numLot.toNat + h.dataSize.toNat + h.bssSize.toNat) := by
    rw [hlot, UInt32.ofNat_add, UInt32.ofNat_add, UInt32.ofNat_toNat, UInt32.ofNat_toNat]
  unfold getRamSizeUntagged exactRamUntagged
  rw [hbase]
  cases mode with
  | copyTextData => dsimp only; rw [UInt32.ofNat_add _ h.codeSize.toNat, UInt32.ofNat_toNat]
  | copyAll =>
    dsimp only
    rw [getCodeOffsetFromHeader_eq, UInt32.ofNat_add _ (exactCodeOffset h + _),
      UInt32.ofNat_add (exactCodeOffset h), UInt32.ofNat_toNat]
  | xip => rfl

/-- Sizes of `n` entries from `k` on whose class is in the mask. -/
def classSizes (es : Nat → SectEntry) (clsMask : UInt32) : Nat → Nat → Nat
  | 0, _ => 0
  | n + 1, k =>
    (if (clsMask &&& (1 <<< (es k).cls)) ≠ 0 then (es k).size.toNat else 0) +
      classSizes es clsMask n (k + 1)

/-- The classes with a payload are those in front of the BSS class. -/
theorem classSizes_payload {es : Nat → SectEntry} {k n : Nat} (hc : (es k).cls ≤ secClassBss) :
    classSizes es 3 (n + 1) k =
      (if (es k).cls = secClassBss then 0 else (es k).size.toNat) + classSizes es 3 n (k + 1) := by
  have hle : (es k).cls.toNat ≤ 2 := UInt32.le_iff_toNat_le.mp hc
  have hcase : (es k).cls = 0 ∨ (es k).cls = 1 ∨ (es k).cls = 2 := by
    rw [← UInt32.toNat_inj, ← UInt32.toNat_inj, ← UInt32.toNat_inj]
    show (es k).cls.toNat = 0 ∨ (es k).cls.toNat = 1 ∨ (es k).cls.toNat = 2
    omega
  rw [classSizes]
  rcases hcase with hk | hk | hk <;> rw [hk]
  · rw [if_pos (by decide), if_neg (by decide)]
  · rw [if_pos (by decide), if_neg (by decide)]
  · rw [if_neg (by decide), if_pos (by decide)]

theorem sumSectionSizes_run (tab : SectView) (clsMask : UInt32) (m : Mem) (n k : Nat) :
    (sumSectionSizes tab clsMask n k).run m =
      classSizes (entriesAt m tab.pEntries) clsMask n k := by
  induction n generalizing k with
  | zero => rfl
  | succ n ih =>
    rw [sumSectionSizes, Reader.run_bind, sectEntryAt_run, Reader.run_bind, ih, Reader.run_pure,
      classSizes]

/-- Bytes of main `.text` in the image, the gap before `.data` included. -/
def exactCodePayload (h : Header) (num : Nat) (es : Nat → SectEntry) : Nat :=
  if num > 1 then (es 1).va.toNat else h.codeSize.toNat

/-- Everything the image holds: metadata, main payloads, tagged payloads. -/
def exactExtent (h : Header) (num : Nat) (es : Nat → SectEntry) : Nat :=
  exactCodeOffset h + exactCodePayload h num es + h.dataSize.toNat + classSizes es 3 (num - 3) 3

end Udynlink
