import Udynlink.LoadPlace

/-!
# The block of an untagged module

The LOT, the metadata of a COPY_ALL load, the code of a copying load, the data
and the zeroed data, one after the other. The offsets are unbounded integers;
the pointers of the loader are these offsets as long as the handle and the
header behind it are consistent.
-/

namespace Udynlink

open Machine

/-- Offset of the code behind the LOT. -/
def untaggedCodeOff (h : Header) (mode : LoadMode) : Nat :=
  4 * h.numLot.toNat + if mode = .copyAll then exactCodeOffset h else 0

def untaggedDataOff (h : Header) (mode : LoadMode) : Nat :=
  untaggedCodeOff h mode + if mode = .xip then 0 else h.codeSize.toNat

theorem lot_le_codeOff (h : Header) (mode : LoadMode) :
    4 * h.numLot.toNat ≤ untaggedCodeOff h mode := Nat.le_add_right _ _

theorem codeOff_le_dataOff (h : Header) (mode : LoadMode) :
    untaggedCodeOff h mode ≤ untaggedDataOff h mode := Nat.le_add_right _ _

theorem exactRamUntagged_eq (h : Header) (mode : LoadMode) :
    exactRamUntagged h mode = untaggedDataOff h mode + h.dataSize.toNat + h.bssSize.toNat := by
  cases mode with
  | copyAll =>
    simp only [exactRamUntagged, untaggedDataOff, untaggedCodeOff, if_true, reduceCtorEq, if_false]
    omega
  | copyTextData =>
    simp only [exactRamUntagged, untaggedDataOff, untaggedCodeOff, reduceCtorEq, if_false]
    omega
  | xip =>
    simp only [exactRamUntagged, untaggedDataOff, untaggedCodeOff, if_true, reduceCtorEq, if_false]
    omega

theorem lotBytes (h : Header) : h.numLot.toUInt32 * 4 = UInt32.ofNat (4 * h.numLot.toNat) := by
  rw [uint16_ofNat, UInt32.ofNat_mul, UInt32.mul_comm]
  rfl

/-- Without a section table the metadata ends at the rounded symbol table. -/
theorem exactCodeOffset_untagged {h : Header} (hu : isSectioned h = false) :
    exactCodeOffset h =
      exactAlignUp ((getHeaderSize h).toNat + 8 * h.numRels.toNat + h.symtSize.toNat) 4 := by
  have h4 : (4 : Nat).isPowerOfTwo := ⟨2, rfl⟩
  rw [exactCodeOffset, getNumSectionsRaw_untagged hu]
  change exactAlignUp (exactSymtabEnd h + 24 * 0) 4 = _
  rw [Nat.mul_zero, Nat.add_zero, exactSymtabEnd,
    exactAlignUp_of_dvd h4 (dvd_exactAlignUp h4)]

/-- A handle whose own header, if it was copied, is behind the LOT of its block. -/
def HeaderInBlock (mod : Module) (h : Header) : Prop :=
  mod.mode = .copyAll → mod.pHeader = mod.pRam + UInt32.ofNat (4 * h.numLot.toNat)

variable {mod : Module} {m : Mem} {h : Header}

theorem getDataPointer_untagged (hh : decodeHeader m mod.pHeader = h)
    (hu : isSectioned h = false) (hb : HeaderInBlock mod h) :
    (getDataPointer mod).run m = mod.pRam + UInt32.ofNat (untaggedDataOff h mod.mode) := by
  rw [getDataPointer, Reader.run_bind, readHeader_run, hh, hu, if_neg Bool.false_ne_true,
    untaggedDataOff, untaggedCodeOff]
  cases hm : mod.mode with
  | copyAll =>
    rw [hb hm, getCodeOffsetFromHeader_eq]
    simp only [reduceCtorEq, if_false, if_true, Reader.run_pure, UInt32.ofNat_add,
      UInt32.ofNat_toNat, UInt32.add_assoc]
  | copyTextData =>
    simp only [reduceCtorEq, if_false, Reader.run_pure, UInt32.ofNat_add, UInt32.ofNat_toNat,
      UInt32.add_assoc, lotBytes, Nat.add_zero]
  | xip =>
    simp only [reduceCtorEq, if_false, if_true, Reader.run_pure, lotBytes, Nat.add_zero]

/-- Under XIP the code is where the header says it is in the image. -/
theorem getCodePointer_untagged (hh : decodeHeader m mod.pHeader = h)
    (hu : isSectioned h = false) (hb : HeaderInBlock mod h) :
    (getCodePointer mod).run m =
      if mod.mode = .xip then mod.pHeader + UInt32.ofNat (exactCodeOffset h)
      else mod.pRam + UInt32.ofNat (untaggedCodeOff h mod.mode) := by
  rw [getCodePointer, Reader.run_bind, readHeader_run, hh, hu, if_neg Bool.false_ne_true,
    untaggedCodeOff, getCodeOffsetFromHeader_eq]
  cases hm : mod.mode with
  | copyAll =>
    rw [hb hm]
    simp only [reduceCtorEq, if_false, if_true, Reader.run_pure, UInt32.ofNat_add,
      UInt32.add_assoc]
  | copyTextData =>
    simp only [reduceCtorEq, if_false, if_true, Reader.run_pure, lotBytes, Nat.add_zero]
  | xip => simp only [reduceCtorEq, if_false, if_true, Reader.run_pure]

/-! ## Slots -/

/-- Offset in the block of the word an entry names. -/
def untaggedSlotOff (h : Header) (mode : LoadMode) (lotOffset : UInt32) : Nat :=
  if lotOffset < h.numLot.toUInt32 then 4 * lotOffset.toNat
  else untaggedDataOff h mode + 4 * (lotOffset - h.numLot.toUInt32).toNat

/-- A slot the target computation lets pass. -/
def SlotInRange (h : Header) (lotOffset : UInt32) : Prop :=
  lotOffset < h.numLot.toUInt32 ∨ lotOffset - h.numLot.toUInt32 < h.dataSize / 4

theorem mul_four_ofNat (x : UInt32) : x * 4 = UInt32.ofNat (4 * x.toNat) := by
  rw [UInt32.ofNat_mul, UInt32.ofNat_toNat, UInt32.mul_comm]
  rfl

theorem getRelocTarget_untagged {tab : SectView} {lotOffset : UInt32}
    (hh : decodeHeader m mod.pHeader = h) (hu : isSectioned h = false)
    (hb : HeaderInBlock mod h) (ht : tab.num = 0)
    (hne : (getRelocTarget mod tab lotOffset).run m ≠ 0) :
    SlotInRange h lotOffset ∧ (getRelocTarget mod tab lotOffset).run m =
      mod.pRam + UInt32.ofNat (untaggedSlotOff h mod.mode lotOffset) := by
  rw [getRelocTarget, Reader.run_bind, readHeader_run, hh, Reader.run_ite] at hne ⊢
  by_cases hlot : lotOffset < h.numLot.toUInt32
  · rw [if_pos hlot, Reader.run_ite] at hne ⊢
    by_cases hp : mod.pRam = 0
    · rw [if_pos hp] at hne
      exact absurd rfl hne
    · rw [if_neg hp, untaggedSlotOff, if_pos hlot, mul_four_ofNat]
      exact ⟨Or.inl hlot, rfl⟩
  · rw [if_neg hlot, if_pos ht] at hne ⊢
    dsimp only at hne ⊢
    rw [Reader.run_ite] at hne ⊢
    by_cases hr : lotOffset - h.numLot.toUInt32 ≥ h.dataSize / 4
    · rw [if_pos hr] at hne
      exact absurd rfl hne
    · rw [if_neg hr, Reader.run_bind, getDataPointer_untagged hh hu hb, Reader.run_pure,
        untaggedSlotOff, if_neg hlot, mul_four_ofNat, off_off]
      exact ⟨Or.inr (UInt32.not_le.mp hr), rfl⟩

/-- A slot is a word of the LOT or a word of the data. -/
theorem untaggedSlotOff_range (mode : LoadMode) {lotOffset : UInt32}
    (hr : SlotInRange h lotOffset) :
    untaggedSlotOff h mode lotOffset + 4 ≤ 4 * h.numLot.toNat ∨
      untaggedDataOff h mode ≤ untaggedSlotOff h mode lotOffset ∧
        untaggedSlotOff h mode lotOffset + 4 ≤ untaggedDataOff h mode + h.dataSize.toNat := by
  rw [untaggedSlotOff]
  by_cases hlot : lotOffset < h.numLot.toUInt32
  · rw [if_pos hlot]
    rw [UInt32.lt_iff_toNat_lt, UInt16.toNat_toUInt32] at hlot
    omega
  · rw [if_neg hlot]
    have hd := hr.resolve_left hlot
    rw [UInt32.lt_iff_toNat_lt, UInt32.toNat_div, show (4 : UInt32).toNat = 4 from rfl] at hd
    omega

/-- Different entries of the LOT and the data have different words. -/
theorem untaggedSlotOff_inj (mode : LoadMode) {x y : UInt32} (hxy : x ≠ y) :
    untaggedSlotOff h mode x + 4 ≤ untaggedSlotOff h mode y ∨
      untaggedSlotOff h mode y + 4 ≤ untaggedSlotOff h mode x := by
  have hn : x.toNat ≠ y.toNat := fun he => hxy (UInt32.toNat_inj.mp he)
  have hl : h.numLot.toUInt32.toNat = h.numLot.toNat := UInt16.toNat_toUInt32 _
  have hoff := (lot_le_codeOff h mode).trans (codeOff_le_dataOff h mode)
  rw [untaggedSlotOff, untaggedSlotOff]
  by_cases hx : x < h.numLot.toUInt32
  · rw [if_pos hx]
    rw [UInt32.lt_iff_toNat_lt, hl] at hx
    by_cases hy : y < h.numLot.toUInt32
    · rw [if_pos hy]
      omega
    · rw [if_neg hy]
      omega
  · rw [if_neg hx]
    have hxs := UInt32.toNat_sub_of_le _ _ (UInt32.not_lt.mp hx)
    rw [UInt32.lt_iff_toNat_lt, hl] at hx
    by_cases hy : y < h.numLot.toUInt32
    · rw [if_pos hy]
      rw [UInt32.lt_iff_toNat_lt, hl] at hy
      omega
    · rw [if_neg hy]
      have hys := UInt32.toNat_sub_of_le _ _ (UInt32.not_lt.mp hy)
      rw [UInt32.lt_iff_toNat_lt, hl] at hy
      omega

end Udynlink
