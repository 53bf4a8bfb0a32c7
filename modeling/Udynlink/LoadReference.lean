import Udynlink.UntaggedReference

/-!
# An untagged load against the reference

The placed image is described part by part, the relocation walk of the placed
image is the patches of the reference, and distinct target words make the
patches independent of each other.
-/

namespace Udynlink

open Machine

def placedBlits (image : Image) (h : Header) (mode : LoadMode) (p : Addr) : List Blit :=
  copyUntaggedBlits image h mode (p + UInt32.ofNat (4 * h.numLot.toNat)) ++
    bssBlits h (p + UInt32.ofNat (untaggedDataOff h mode))

/-- Where COPY_TEXT_DATA finds the data: behind the code. -/
def dataSource (image : Image) (h : Header) (mode : LoadMode) : Addr :=
  if mode = .copyTextData then image.pCode + UInt32.ofNat h.codeSize.toNat else image.pData

namespace UntaggedImage

variable {u : UntaggedImage} {p : Addr}

/-- The memory with the image placed at `p` and nothing relocated. -/
def placed (u : UntaggedImage) (p : Addr) : Mem :=
  Blit.applyAll (placedBlits u.image u.header u.mode p) u.m

theorem placed_part (hf : UntaggedFits u.header u.mode)
    (hc : SourceClear u.image u.header u.mode p) {b : Blit}
    (hb : b ∈ copyUntaggedBlits u.image u.header u.mode
      (p + UInt32.ofNat (4 * u.header.numLot.toNat))) {i : Nat} (hi : i < b.len) :
    u.placed p (b.dst + UInt32.ofNat i) = b.bytes u.m i :=
  placed_byte hf hc bssBlits_laid (fun c hc' => by
    rw [List.mem_singleton.mp hc']
    exact Blit.zero_readsFrom _ _ _) hb hi

theorem placed_text (hf : UntaggedFits u.header u.mode)
    (hc : SourceClear u.image u.header u.mode p) (hm : u.mode ≠ .xip) {j : Nat}
    (hj : j < u.header.codeSize.toNat) :
    u.placed p (p + UInt32.ofNat (untaggedCodeOff u.header u.mode + j)) =
      u.m (u.image.pCode + UInt32.ofNat j) := by
  have hpay := hf.payload
  cases hmode : u.mode with
  | copyAll =>
    have hb : Blit.copy (p + UInt32.ofNat (4 * u.header.numLot.toNat) +
        getCodeOffsetFromHeader u.header) u.image.pCode u.header.codeSize.toNat ∈
        copyUntaggedBlits u.image u.header u.mode
          (p + UInt32.ofNat (4 * u.header.numLot.toNat)) := by
      rw [hmode, copyUntaggedBlits]
      exact List.mem_append_right _ List.mem_cons_self
    have hbyte := placed_part hf hc hb (i := j) hj
    rw [Blit.copy, getCodeOffsetFromHeader_eq, off_off, off_off, ← Nat.add_assoc] at hbyte
    exact hbyte
  | copyTextData =>
    have hb : Blit.copy (p + UInt32.ofNat (4 * u.header.numLot.toNat)) u.image.pCode
        (u.header.codeSize + u.header.dataSize).toNat ∈
        copyUntaggedBlits u.image u.header u.mode
          (p + UInt32.ofNat (4 * u.header.numLot.toNat)) := by
      rw [hmode, copyUntaggedBlits]
      exact List.mem_cons_self
    have hlen : j < (u.header.codeSize + u.header.dataSize).toNat := by
      rw [UInt32.toNat_add, Nat.mod_eq_of_lt hpay]
      omega
    have hbyte := placed_part hf hc hb (i := j) hlen
    rw [Blit.copy, off_off] at hbyte
    exact hbyte
  | xip => exact absurd hmode hm

theorem placed_data (hf : UntaggedFits u.header u.mode)
    (hc : SourceClear u.image u.header u.mode p) {j : Nat} (hj : j < u.header.dataSize.toNat) :
    u.placed p (u.dataBase p + UInt32.ofNat j) =
      u.m (dataSource u.image u.header u.mode + UInt32.ofNat j) := by
  have hpay := hf.payload
  rw [dataBase, dataSource]
  cases hmode : u.mode with
  | copyAll =>
    have hb : Blit.copy (p + UInt32.ofNat (4 * u.header.numLot.toNat) +
        getCodeOffsetFromHeader u.header + u.header.codeSize) u.image.pData
        u.header.dataSize.toNat ∈
        copyUntaggedBlits u.image u.header u.mode
          (p + UInt32.ofNat (4 * u.header.numLot.toNat)) := by
      rw [hmode, copyUntaggedBlits]
      exact List.mem_append_right _ (List.mem_cons_of_mem _ List.mem_cons_self)
    have hbyte := placed_part hf hc hb (i := j) hj
    rw [Blit.copy, getCodeOffsetFromHeader_eq, off_off, off_word] at hbyte
    exact hbyte
  | copyTextData =>
    have hb : Blit.copy (p + UInt32.ofNat (4 * u.header.numLot.toNat)) u.image.pCode
        (u.header.codeSize + u.header.dataSize).toNat ∈
        copyUntaggedBlits u.image u.header u.mode
          (p + UInt32.ofNat (4 * u.header.numLot.toNat)) := by
      rw [hmode, copyUntaggedBlits]
      exact List.mem_cons_self
    have hlen : u.header.codeSize.toNat + j < (u.header.codeSize + u.header.dataSize).toNat := by
      rw [UInt32.toNat_add, Nat.mod_eq_of_lt hpay]
      omega
    have hbyte := placed_part hf hc hb (i := u.header.codeSize.toNat + j) hlen
    rw [Blit.copy, off_off] at hbyte
    rw [if_pos rfl, off_off, off_off]
    rw [← Nat.add_assoc] at hbyte
    exact hbyte
  | xip =>
    have hb : Blit.copy (p + UInt32.ofNat (4 * u.header.numLot.toNat)) u.image.pData
        u.header.dataSize.toNat ∈ copyUntaggedBlits u.image u.header u.mode
          (p + UInt32.ofNat (4 * u.header.numLot.toNat)) := by
      rw [hmode, copyUntaggedBlits]
      exact List.mem_cons_self
    have hbyte := placed_part hf hc hb (i := j) hj
    exact hbyte

theorem placed_bss (hf : UntaggedFits u.header u.mode) {j : Nat}
    (hj : j < u.header.bssSize.toNat) :
    u.placed p (u.dataBase p + UInt32.ofNat (u.header.dataSize.toNat + j)) = 0 := by
  have hram := hf.ram
  rw [exactRamUntagged_eq] at hram
  rw [placed, placedBlits, Blit.applyAll_append, dataBase, off_off, ← Nat.add_assoc, ← off_off,
    ← off_word]
  exact store_off hj (Nat.le_of_lt u.header.bssSize.toNat_lt)

theorem placed_lot (hf : UntaggedFits u.header u.mode) {i : Nat}
    (hi : i < 4 * u.header.numLot.toNat) :
    u.placed p (p + UInt32.ofNat i) = u.m (p + UInt32.ofNat i) := by
  have hram := hf.ram
  exact ((copyUntaggedBlits_laid u.image p hf).append bssBlits_laid).applyAll_before (by omega) hi u.m

theorem placed_notMem (hf : UntaggedFits u.header u.mode) {a : Addr}
    (ha : a ∉ (⟨p, exactRamUntagged u.header u.mode⟩ : Span)) : u.placed p a = u.m a :=
  placed_outside hf bssBlits_laid ha

theorem placed_metadata (hf : UntaggedFits u.header u.mode)
    (hc : SourceClear u.image u.header u.mode p) (hm : u.mode = .copyAll) :
    u.MetadataAt p (u.placed p) := by
  have hpart : ∀ b, b ∈ metadataBlits u.image u.header
      (p + UInt32.ofNat (4 * u.header.numLot.toNat)) → ∀ i, i < b.len →
        u.placed p (b.dst + UInt32.ofNat i) = b.bytes u.m i := by
    intro b hb i hi
    refine placed_part hf hc ?_ hi
    rw [hm, copyUntaggedBlits]
    exact List.mem_append_left _ hb
  constructor
  · intro i hi
    have hb := hpart (.copy (p + UInt32.ofNat (4 * u.header.numLot.toNat)) u.image.pHeader
      (getHeaderSize u.header).toNat) (by simp [metadataBlits]) i hi
    rw [Blit.copy, off_off] at hb
    exact hb
  · intro i hi
    have hb := hpart (.copy (p + UInt32.ofNat (4 * u.header.numLot.toNat) +
      getHeaderSize u.header) u.image.pRelocations (u.header.numRels.toUInt32 * 2 * 4).toNat)
      (by simp [metadataBlits]) i (by rw [Blit.copy, relBytes_toNat]; exact hi)
    rw [Blit.copy, off_word, off_off] at hb
    exact hb
  · intro i hi
    have hb := hpart (.copy (p + UInt32.ofNat (4 * u.header.numLot.toNat) +
      getHeaderSize u.header + u.header.numRels.toUInt32 * 2 * 4) u.image.pSymtab
      u.header.symtSize.toNat) (by simp [metadataBlits]) i hi
    rw [Blit.copy, off_word, off_word, off_off, relBytes_toNat] at hb
    exact hb
  · intro i hlo hhi
    have hcode : exactCodeOffset u.header < 2 ^ 32 := by
      have hram := hf.ram
      rw [exactRamUntagged_eq, untaggedDataOff, untaggedCodeOff, if_pos hm] at hram
      omega
    obtain ⟨-, ⟨heq, -⟩ | hp⟩ := padBlits_eq hf.untagged
      (p + UInt32.ofNat (4 * u.header.numLot.toNat) + getHeaderSize u.header +
        u.header.numRels.toUInt32 * 2 * 4 + u.header.symtSize)
    · omega
    · have hb := hpart _ (by rw [metadataBlits, hp]; exact List.mem_append_right _ List.mem_cons_self)
        (i - symtabEnd u.header) (by change _ < _ - _; omega)
      have hend : 4 * u.header.numLot.toNat + (getHeaderSize u.header).toNat +
          8 * u.header.numRels.toNat + u.header.symtSize.toNat + (i - symtabEnd u.header) =
            4 * u.header.numLot.toNat + i := by
        rw [symtabEnd] at hlo ⊢
        omega
      rw [Blit.zero, off_word, off_word, off_word, off_off, relBytes_toNat, hend] at hb
      exact hb

/-! ## The walk over the placed image -/

/-- What the walk may write: the LOT and the data. Everything else is fixed. -/
def Fixed (u : UntaggedImage) (p : Addr) (a : Addr) : Prop :=
  a ∉ (⟨p, 4 * u.header.numLot.toNat⟩ : Span) ∧
    a ∉ (⟨u.dataBase p, u.header.dataSize.toNat⟩ : Span)

theorem fixed_of_notMem (hf : UntaggedFits u.header u.mode) {a : Addr}
    (ha : a ∉ (⟨p, exactRamUntagged u.header u.mode⟩ : Span)) : u.Fixed p a := by
  have hram := hf.ram
  have hoff := (lot_le_codeOff u.header u.mode).trans (codeOff_le_dataOff u.header u.mode)
  rw [exactRamUntagged_eq] at ha hram
  exact ⟨fun hmem => ha (prefix_subset (by omega) a hmem),
    fun hmem => ha (off_subset (by omega) (by omega) a hmem)⟩

/-- Between the LOT and the data, and behind the data, nothing is patched. -/
theorem fixed_off (hf : UntaggedFits u.header u.mode) {i : Nat}
    (hlo : 4 * u.header.numLot.toNat ≤ i)
    (hhi : i < untaggedDataOff u.header u.mode ∨
      untaggedDataOff u.header u.mode + u.header.dataSize.toNat ≤ i)
    (hi : i < exactRamUntagged u.header u.mode) : u.Fixed p (p + UInt32.ofNat i) := by
  have hram := hf.ram
  constructor
  · intro hmem
    obtain ⟨j, hj, he⟩ := exists_off hmem
    have := off_inj (by omega) (by omega) he
    omega
  · intro hmem
    obtain ⟨j, hj, he⟩ := exists_off hmem
    rw [exactRamUntagged_eq] at hram hi
    rw [dataBase, off_off] at he
    have := off_inj (by omega) (by omega) he
    omega

theorem dataOff_copyAll (hm : u.mode = .copyAll) : untaggedDataOff u.header u.mode =
    4 * u.header.numLot.toNat + exactCodeOffset u.header + u.header.codeSize.toNat := by
  rw [hm]
  rfl

theorem symtabEnd_le (hu : isSectioned u.header = false) :
    symtabEnd u.header ≤ exactCodeOffset u.header := by
  have h4 : (4 : Nat).isPowerOfTwo := ⟨2, rfl⟩
  have hle := le_exactAlignUp (x := symtabEnd u.header) h4
  have heq : exactCodeOffset u.header = exactAlignUp (symtabEnd u.header) 4 :=
    exactCodeOffset_untagged hu
  omega

/-- The header of a COPY_ALL module is not in the LOT and not in the data. -/
theorem fixed_header (hf : UntaggedFits u.header u.mode) (hm : u.mode = .copyAll) {a : Addr}
    (ha : a ∈ (⟨p + UInt32.ofNat (4 * u.header.numLot.toNat), 32⟩ : Span)) : u.Fixed p a := by
  have hge := getHeaderSize_ge u.header
  have hcode := symtabEnd_le hf.untagged
  have hdata := dataOff_copyAll hm
  have heq := exactRamUntagged_eq u.header u.mode
  rw [symtabEnd] at hcode
  obtain ⟨i, hi, rfl⟩ := exists_off ha
  rw [off_off]
  exact fixed_off hf (by omega) (Or.inl (by omega)) (by omega)

/-- A slot that passed the range check is written nowhere else. -/
theorem not_fixed_slot (hf : UntaggedFits u.header u.mode) {e : RelocEntry}
    (hr : SlotInRange u.header e.1) {a : Addr} (ha : a ∈ (⟨u.slot p e, 4⟩ : Span)) :
    ¬ u.Fixed p a := by
  have hram := hf.ram
  have hoff := (lot_le_codeOff u.header u.mode).trans (codeOff_le_dataOff u.header u.mode)
  rw [exactRamUntagged_eq] at hram
  rintro ⟨hlot, hdata⟩
  rcases untaggedSlotOff_range u.mode hr with hle | ⟨hlo, hhi⟩
  · exact hlot (off_subset hle (by omega) a ha)
  · refine hdata ?_
    rw [slot] at ha
    rw [dataBase]
    obtain ⟨i, hi, rfl⟩ := exists_off ha
    rw [off_off, show untaggedSlotOff u.header u.mode e.1 + i =
      untaggedDataOff u.header u.mode +
        (untaggedSlotOff u.header u.mode e.1 + i - untaggedDataOff u.header u.mode) by omega,
      ← off_off]
    exact off_mem (by omega) (by omega)

/-- The handle of a placed module. -/
structure PlacedHandle (u : UntaggedImage) (p : Addr) (mod : Module) : Prop where
  pRam : mod.pRam = p
  mode : mod.mode = u.mode
  pHeader : mod.pHeader =
    if u.mode = .copyAll then p + UInt32.ofNat (4 * u.header.numLot.toNat) else u.image.pHeader

theorem PlacedHandle.headerInBlock {mod : Module} (h : u.PlacedHandle p mod) :
    HeaderInBlock mod u.header := by
  intro hm
  rw [h.mode] at hm
  rw [h.pHeader, if_pos hm, h.pRam]

/-- Entry `i` of the relocation table of the image. -/
def entry (u : UntaggedImage) (i : Nat) : RelocEntry :=
  (readRelocation u.image.pRelocations i).run u.m

section

variable {mod : Module} {tab : SectView} {i : Nat}

theorem covers_source (hc : SourceClear u.image u.header u.mode p) {s : Span}
    (hs : s ∈ untaggedSource u.image u.header) :
    Covers (fun a => a ∉ (⟨p, exactRamUntagged u.header u.mode⟩ : Span)) s :=
  fun a ha => hc s hs a ha

theorem placed_sourceHeader (hf : UntaggedFits u.header u.mode)
    (hc : SourceClear u.image u.header u.mode p) :
    decodeHeader (u.placed p) u.image.pHeader = u.header := by
  have hsrc := covers_source hc (s := ⟨u.image.pHeader, (getHeaderSize u.header).toNat⟩)
    (by simp [untaggedSource])
  exact decodeHeader_congr fun a ha => (placed_notMem hf
    (hsrc a (Nat.lt_of_lt_of_le ha (getHeaderSize_ge u.header)))).symm

theorem placed_ownHeader (hf : UntaggedFits u.header u.mode)
    (hc : SourceClear u.image u.header u.mode p) (hp : u.PlacedHandle p mod) :
    decodeHeader (u.placed p) mod.pHeader = u.header := by
  rw [hp.pHeader]
  by_cases hm : u.mode = .copyAll
  · rw [if_pos hm]
    refine decodeHeader_eq_of_bytes (fun i hi => ?_)
    rw [off_off]
    exact (placed_metadata hf hc hm).header i (Nat.lt_of_lt_of_le hi (getHeaderSize_ge u.header))
  · rw [if_neg hm]
    exact placed_sourceHeader hf hc

theorem placed_walkIn (hf : UntaggedFits u.header u.mode)
    (hc : SourceClear u.image u.header u.mode p) (hp : u.PlacedHandle p mod)
    (ht : tab.num = 0) :
    WalkIn (u.Fixed p) mod tab u.image.relocSource u.header.numRels.toNat (u.placed p) := by
  have hcover : ∀ s ∈ untaggedSource u.image u.header, Covers (u.Fixed p) s :=
    fun s hs a ha => fixed_of_notMem hf (hc s hs a ha)
  have hheader : Covers (u.Fixed p) ⟨u.image.pHeader, 32⟩ :=
    (hcover ⟨u.image.pHeader, (getHeaderSize u.header).toNat⟩ (by simp [untaggedSource])).mono
      (prefix_subset (getHeaderSize_ge u.header))
  refine ⟨⟨fun hn => absurd ht hn⟩, ⟨?_, fun k _ hk => absurd hk (by omega)⟩, hheader,
    hcover _ (by simp [untaggedSource, Image.relocSource]), ?_, fun _ => ?_⟩
  · rw [hp.pHeader]
    by_cases hm : u.mode = .copyAll
    · rw [if_pos hm]
      exact fun a ha => fixed_header hf hm ha
    · rw [if_neg hm]
      exact hheader
  · have hh : decodeHeader (u.placed p) u.image.relocSource.pHeader = u.header :=
      placed_sourceHeader hf hc
    rw [hh]
    exact hcover _ (by simp [untaggedSource, Image.relocSource])
  · rw [placed_ownHeader hf hc hp]
    exact hf.untagged

theorem placed_entry (hf : UntaggedFits u.header u.mode)
    (hc : SourceClear u.image u.header u.mode p) (hi : i < u.header.numRels.toNat) :
    (readRelocation u.image.pRelocations i).run (u.placed p) = u.entry i := by
  have hn := u.header.numRels.toNat_lt
  have hsrc := covers_source hc (s := ⟨u.image.pRelocations, 8 * u.header.numRels.toNat⟩)
    (by simp [untaggedSource])
  have hw := within_readRelocation hsrc hi (by omega) u.m
  exact hw.congr fun a ha => (placed_notMem hf ha).symm

theorem placed_sym (hf : UntaggedFits u.header u.mode)
    (hc : SourceClear u.image u.header u.mode p) {e : RelocEntry}
    (hb : isBaseRelocation e.2 = false) :
    relocSym u.image.relocSource (u.placed p) e.2 = u.sym e := by
  have hlt := isBaseRelocation_eq_false hb
  have hsrc := covers_source hc (s := ⟨u.image.pSymtab, u.header.symtSize.toNat⟩)
    (by simp [untaggedSource])
  have hw := within_getSymAtRaw hsrc (show e.2.toNat < 2 ^ 31 - 1 by omega) u.m
  have hh : decodeHeader (u.placed p) u.image.relocSource.pHeader = u.header :=
    placed_sourceHeader hf hc
  rw [relocSym, hh]
  exact hw.congr fun a ha => (placed_notMem hf ha).symm

theorem placed_slot (hf : UntaggedFits u.header u.mode)
    (hc : SourceClear u.image u.header u.mode p) (hp : u.PlacedHandle p mod) (ht : tab.num = 0)
    (hi : i < u.header.numRels.toNat)
    (hne : relocSlot mod tab u.image.relocSource (u.placed p) i ≠ 0) :
    SlotInRange u.header (u.entry i).1 ∧
      relocSlot mod tab u.image.relocSource (u.placed p) i = u.slot p (u.entry i) := by
  have he : (readRelocation u.image.relocSource.pRelocations i).run (u.placed p) = u.entry i :=
    placed_entry hf hc hi
  rw [relocSlot, he] at hne ⊢
  obtain ⟨hr, heq⟩ := getRelocTarget_untagged (placed_ownHeader hf hc hp) hf.untagged
    hp.headerInBlock ht hne
  refine ⟨hr, heq.trans ?_⟩
  rw [hp.pRam, hp.mode, slot]

theorem placed_placement (hf : UntaggedFits u.header u.mode)
    (hc : SourceClear u.image u.header u.mode p) (hp : u.PlacedHandle p mod) :
    placementOf mod tab false (u.placed p) = untaggedPlacement
      (if u.mode = .xip then u.image.pHeader + UInt32.ofNat (exactCodeOffset u.header)
        else p + UInt32.ofNat (untaggedCodeOff u.header u.mode)) (u.dataBase p) := by
  have ho := placed_ownHeader hf hc hp
  rw [placementOf, if_neg Bool.false_ne_true,
    getCodePointer_untagged ho hf.untagged hp.headerInBlock,
    getDataPointer_untagged ho hf.untagged hp.headerInBlock, hp.mode, hp.pRam, dataBase]
  by_cases hm : u.mode = .xip
  · rw [if_pos hm, if_pos hm, hp.pHeader, if_neg (by rw [hm]; decide)]
  · rw [if_neg hm, if_neg hm]

end

/-! ## The relocated memory -/

/-- What the image has to satisfy for the loader to follow the reference. -/
structure Faithful (u : UntaggedImage) : Prop where
  ram : exactRamUntagged u.header u.mode < 2 ^ 32
  data : u.mode = .copyTextData → ∀ j, j < u.header.dataSize.toNat →
    u.m (u.image.pCode + UInt32.ofNat (u.header.codeSize.toNat + j)) =
      u.m (u.image.pData + UInt32.ofNat j)
  code : u.mode = .xip → ∀ e ∈ u.entries, UsesCodeBase e.2 (u.sym e) →
    u.image.pCode = u.image.pHeader + UInt32.ofNat (exactCodeOffset u.header)
  names : ∀ e ∈ u.entries, isBaseRelocation e.2 = false → ∀ sym, u.sym e = some sym →
    sym.type = symTypeWeak ∨ sym.type = symTypeExtern →
      NameTerminated u.image.pSymtab u.header.symtSize u.m sym.name

/-- An entry the walk has accepted, as the reference sees it. -/
structure Accepted (u : UntaggedImage) (p : Addr) (patch : Patch) (e : RelocEntry) : Prop where
  inRange : SlotInRange u.header e.1
  baseLot : isBaseRelocation e.2 = true → ¬ e.1 < u.header.numLot.toUInt32
  slot : patch.slot = u.slot p e
  value : patch.value ((u.placed p).u32 patch.slot) = u.entryWord p e

section

variable {mod : Module} {tab : SectView} {host : Host} {ans : UInt32} {i : Nat} {m : Mem}

theorem mem_entries {e : RelocEntry} :
    e ∈ u.entries ↔ ∃ i, i < u.header.numRels.toNat ∧ u.entry i = e := by
  simp only [entries, entry, List.mem_map, List.mem_range]

theorem entry_mem (hi : i < u.header.numRels.toNat) : u.entry i ∈ u.entries :=
  mem_entries.mpr ⟨i, hi, rfl⟩

/-- The host's answer is the answer of the reference. -/
theorem answer_eq (hf : UntaggedFits u.header u.mode)
    (hc : SourceClear u.image u.header u.mode p) (hq : u.Faithful)
    (hres : ∀ v name, host.resolve v name = u.resolve name) (hi : i < u.header.numRels.toNat)
    (hok : EntryOk host (u.Fixed p) mod tab false u.image.relocSource (u.placed p) m i ans)
    (hb : isBaseRelocation (u.entry i).2 = false) {sym : Sym} (hs : u.sym (u.entry i) = some sym)
    (ht : sym.type = symTypeWeak ∨ sym.type = symTypeExtern) : ans = u.answer sym.name := by
  have he : (readRelocation u.image.relocSource.pRelocations i).run (u.placed p) = u.entry i :=
    placed_entry hf hc hi
  have hans := hok.answered
  rw [he, placed_sym hf hc hb] at hans
  obtain ⟨v, m', hag, rfl⟩ := hans hb sym hs ht
  rw [hres, answer]
  have hsrc := covers_source hc (s := ⟨u.image.pSymtab, u.header.symtSize.toNat⟩)
    (by simp [untaggedSource])
  have hw := within_readSymName hs (hq.names _ (entry_mem hi) hb sym hs ht) hsrc
  have hsame : (readSymName sym.name).run m' = (readSymName sym.name).run u.m :=
    hw.congr fun a ha => (placed_notMem hf ha).symm.trans (hag a (fixed_of_notMem hf ha))
  rw [hsame]

/-- A word of the data is the word of the image. -/
theorem placed_word (hf : UntaggedFits u.header u.mode)
    (hc : SourceClear u.image u.header u.mode p) (hq : u.Faithful) {e : RelocEntry}
    (hr : SlotInRange u.header e.1) (hlot : ¬ e.1 < u.header.numLot.toUInt32) :
    (u.placed p).u32 (u.slot p e) = u.imageWord e := by
  have hrange := hr.resolve_left hlot
  rw [UInt32.lt_iff_toNat_lt, UInt32.toNat_div, show (4 : UInt32).toNat = 4 from rfl] at hrange
  rw [imageWord, slot, untaggedSlotOff, if_neg hlot, ← off_off]
  refine u32_eq_of_bytes fun i hi => ?_
  have hd := placed_data hf hc (j := 4 * (e.1 - u.header.numLot.toUInt32).toNat + i) (by omega)
  rw [dataBase, off_off] at hd
  rw [off_off, off_off, off_off, hd, dataSource]
  split
  next hm =>
    rw [off_off]
    exact hq.data hm _ (by omega)
  next => rfl

theorem accepted (hf : UntaggedFits u.header u.mode)
    (hc : SourceClear u.image u.header u.mode p) (hp : u.PlacedHandle p mod) (ht : tab.num = 0)
    (hq : u.Faithful) (hres : ∀ v name, host.resolve v name = u.resolve name)
    (hi : i < u.header.numRels.toNat)
    (hok : EntryOk host (u.Fixed p) mod tab false u.image.relocSource (u.placed p) m i ans) :
    u.Accepted p (relocPatch (fun _ => ans) mod tab false u.image.relocSource (u.placed p) i)
      (u.entry i) := by
  have he : (readRelocation u.image.relocSource.pRelocations i).run (u.placed p) = u.entry i :=
    placed_entry hf hc hi
  obtain ⟨hr, hslot⟩ := placed_slot hf hc hp ht hi hok.ok.slot_ne
  have hbase : isBaseRelocation (u.entry i).2 = true →
      ¬ (u.entry i).1 < u.header.numLot.toUInt32 := by
    have hbl := hok.ok.base_lot
    have hh : decodeHeader (u.placed p) u.image.relocSource.pHeader = u.header :=
      placed_sourceHeader hf hc
    rw [he, hh] at hbl
    exact hbl
  refine ⟨hr, hbase, hslot, ?_⟩
  rw [relocPatch, entryWord, codeBase]
  dsimp only
  rw [he, placed_placement hf hc hp, hslot]
  have hcode : UsesCodeBase (u.entry i).2 (u.sym (u.entry i)) →
      (if u.mode = .xip then u.image.pHeader + UInt32.ofNat (exactCodeOffset u.header)
        else p + UInt32.ofNat (untaggedCodeOff u.header u.mode)) =
      if u.mode = .xip then u.image.pCode
        else p + UInt32.ofNat (untaggedCodeOff u.header u.mode) := by
    intro huse
    by_cases hm : u.mode = .xip
    · rw [if_pos hm, if_pos hm, hq.code hm _ (entry_mem hi) huse]
    · rw [if_neg hm, if_neg hm]
  cases hb : isBaseRelocation (u.entry i).2 with
  | true =>
    rw [placed_word hf hc hq hr (hbase hb), refWord_base _ hb, ← refWord_codeBase u.answer _ hcode, refWord_base _ hb]
  | false =>
    rw [placed_sym hf hc hb, refWord_codeBase _ _ hcode]
    have hansw : refWord (untaggedPlacement (if u.mode = .xip then u.image.pCode
        else p + UInt32.ofNat (untaggedCodeOff u.header u.mode)) (u.dataBase p)) (fun _ => ans)
        (u.entry i).2 (u.sym (u.entry i)) ((u.placed p).u32 (u.slot p (u.entry i))) =
        refWord (untaggedPlacement (if u.mode = .xip then u.image.pCode
        else p + UInt32.ofNat (untaggedCodeOff u.header u.mode)) (u.dataBase p)) u.answer
        (u.entry i).2 (u.sym (u.entry i)) ((u.placed p).u32 (u.slot p (u.entry i))) :=
      refWord_congr fun _ sym hs ht' => answer_eq hf hc hq hres hi hok hb hs ht'
    rw [hansw]
    exact refWord_word hb

theorem slot_disjoint (hf : UntaggedFits u.header u.mode) {e e' : RelocEntry}
    (hr : SlotInRange u.header e.1) (hr' : SlotInRange u.header e'.1) (hne : e.1 ≠ e'.1) :
    Span.Disjoint ⟨u.slot p e, 4⟩ ⟨u.slot p e', 4⟩ := by
  have hram := hf.ram
  have hoff := (lot_le_codeOff u.header u.mode).trans (codeOff_le_dataOff u.header u.mode)
  rw [exactRamUntagged_eq] at hram
  have hb := untaggedSlotOff_range u.mode hr
  have hb' := untaggedSlotOff_range u.mode hr'
  rcases untaggedSlotOff_inj (h := u.header) u.mode hne with hle | hle
  · exact off_disjoint hle (by omega)
  · exact (off_disjoint hle (by omega)).symm

/-- The walk's patches, one for each entry of the table. -/
structure Patched (u : UntaggedImage) (p : Addr) (patch : Nat → Patch) (m' : Mem) : Prop where
  accepted : ∀ i, i < u.header.numRels.toNat → u.Accepted p (patch i) (u.entry i)
  disjoint : ((List.range' 0 u.header.numRels.toNat).map patch).Pairwise
    fun a b => a.span.Disjoint b.span
  mem : m' = Patch.applyAll ((List.range' 0 u.header.numRels.toNat).map patch) (u.placed p)

/-- Distinct target words make the patches of a walk disjoint. -/
theorem slots_pairwise (hf : UntaggedFits u.header u.mode) {patch : Nat → Patch}
    (hslot : ∀ i, i < u.header.numRels.toNat → (patch i).slot = u.slot p (u.entry i))
    (hr : ∀ i, i < u.header.numRels.toNat → SlotInRange u.header (u.entry i).1)
    (hd : (u.entries.map Prod.fst).Nodup) :
    ((List.range' 0 u.header.numRels.toNat).map patch).Pairwise
      fun a b => a.span.Disjoint b.span := by
  rw [List.pairwise_map]
  refine List.Pairwise.imp_of_mem ?_ List.pairwise_lt_range'
  intro i j hi hj hlt
  have hi' : i < u.header.numRels.toNat := by
    have := (List.mem_range'_1.mp hi).2
    omega
  have hj' : j < u.header.numRels.toNat := by
    have := (List.mem_range'_1.mp hj).2
    omega
  have hne : (u.entry i).1 ≠ (u.entry j).1 := by
    intro he
    rw [entries, List.map_map] at hd
    have := List.inj_on_of_nodup_map hd (List.mem_range.mpr hi') (List.mem_range.mpr hj') he
    omega
  rw [Patch.span, Patch.span, hslot i hi', hslot j hj']
  exact slot_disjoint hf (hr i hi') (hr j hj') hne

namespace Patched

variable {patch : Nat → Patch} {m' : Mem}

theorem fixed (h : u.Patched p patch m') (hf : UntaggedFits u.header u.mode) {a : Addr}
    (ha : u.Fixed p a) : m' a = u.placed p a := by
  rw [h.mem]
  refine Patch.applyAll_notMem (fun q hq hmem => ?_) _
  obtain ⟨i, hi, rfl⟩ := List.mem_map.mp hq
  have hacc := h.accepted i (by have := (List.mem_range'_1.mp hi).2; omega)
  rw [Patch.span, hacc.slot] at hmem
  exact not_fixed_slot hf hacc.inRange hmem ha

theorem written (h : u.Patched p patch m') {i : Nat} (hi : i < u.header.numRels.toNat)
    {v : UInt32} (hv : u.entryWord p (u.entry i) = some v) :
    m'.u32 (u.slot p (u.entry i)) = v := by
  have hacc := h.accepted i hi
  have hmem : patch i ∈ (List.range' 0 u.header.numRels.toNat).map patch :=
    List.mem_map.mpr ⟨i, List.mem_range'_1.mpr ⟨by omega, by omega⟩, rfl⟩
  have hword := Patch.applyAll_word h.disjoint hmem (u.placed p)
  rw [hacc.value, hv, Option.getD_some, hacc.slot, ← h.mem] at hword
  exact hword

theorem unwritten (h : u.Patched p patch m') {a : Addr}
    (ha : ∀ e ∈ u.entries, (u.entryWord p e).isSome = true → a ∉ (⟨u.slot p e, 4⟩ : Span)) :
    m' a = u.placed p a := by
  rw [h.mem]
  refine Patch.applyAll_unwritten h.disjoint fun q hq hmem => ?_
  obtain ⟨i, hi, rfl⟩ := List.mem_map.mp hq
  have hi' : i < u.header.numRels.toNat := by
    have := (List.mem_range'_1.mp hi).2
    omega
  have hacc := h.accepted i hi'
  rw [hacc.value]
  rw [Patch.span, hacc.slot] at hmem
  by_contra hn
  exact ha _ (entry_mem hi') (Option.isSome_iff_ne_none.mpr hn) hmem

/-- The relocated memory is the reference, and the rest of the LOT is as it was. -/
theorem reference (h : u.Patched p patch m') (hf : UntaggedFits u.header u.mode)
    (hc : SourceClear u.image u.header u.mode p) (hq : u.Faithful) :
    u.Reference u.entries p m' ∧ u.LotKept u.entries p u.m m' := by
  have heq := exactRamUntagged_eq u.header u.mode
  have hlot := lot_le_codeOff u.header u.mode
  have hoff := codeOff_le_dataOff u.header u.mode
  refine ⟨⟨?_, ?_, ?_, ?_, ?_⟩, ?_⟩
  · intro e he v hv
    obtain ⟨i, hi, rfl⟩ := mem_entries.mp he
    exact h.written hi hv
  · intro hm j hj
    have hdata : untaggedDataOff u.header u.mode =
        untaggedCodeOff u.header u.mode + u.header.codeSize.toNat := by
      rw [untaggedDataOff, if_neg hm]
    rw [← placed_text hf hc hm hj]
    exact h.fixed hf (fixed_off hf (by omega) (Or.inl (by omega)) (by omega))
  · intro j hj hn
    rw [h.unwritten hn, placed_data hf hc hj, dataSource]
    split
    next hm =>
      rw [off_off]
      exact hq.data hm j hj
    next => rfl
  · intro j hj
    rw [← placed_bss (p := p) hf hj, dataBase, off_off]
    exact h.fixed hf (fixed_off hf (by omega) (Or.inr (by omega)) (by omega))
  · intro hm
    have hdata := dataOff_copyAll hm
    have hcode := symtabEnd_le hf.untagged
    have hmeta := placed_metadata hf hc hm
    rw [symtabEnd] at hcode
    have hsame : ∀ i, i < exactCodeOffset u.header →
        m' (p + UInt32.ofNat (4 * u.header.numLot.toNat + i)) =
          u.placed p (p + UInt32.ofNat (4 * u.header.numLot.toNat + i)) := fun i hi =>
      h.fixed hf (fixed_off hf (by omega) (Or.inl (by omega)) (by omega))
    refine ⟨fun i hi => ?_, fun i hi => ?_, fun i hi => ?_, fun i hlo hhi => ?_⟩
    · rw [hsame i (by omega), hmeta.header i hi]
    · have hs := hsame ((getHeaderSize u.header).toNat + i) (by omega)
      rw [← Nat.add_assoc] at hs
      rw [hs, hmeta.relocs i hi]
    · have hs := hsame ((getHeaderSize u.header).toNat + 8 * u.header.numRels.toNat + i) (by omega)
      rw [← Nat.add_assoc, ← Nat.add_assoc] at hs
      rw [hs, hmeta.symtab i hi]
    · rw [hsame i hhi, hmeta.pad i hlo hhi]
  · intro k hk hn
    refine u32_eq_of_bytes fun i hi => ?_
    rw [off_off, ← placed_lot hf (p := p) (i := 4 * k + i) (by omega)]
    refine h.unwritten fun e he hs hmem => ?_
    have hne := hn e he hs
    obtain ⟨j, hj, rfl⟩ := mem_entries.mp he
    have hacc := h.accepted j hj
    have hram := hf.ram
    obtain ⟨x, hx, hxe⟩ := exists_off hmem
    have hrange := untaggedSlotOff_range u.mode hacc.inRange
    rw [slot, off_off] at hxe
    have hoffs := off_inj (by omega) (by omega) hxe
    rw [untaggedSlotOff] at hoffs hrange
    split at hoffs
    · have : (u.entry j).1.toNat ≠ k := hne
      omega
    · omega

end Patched

end

end UntaggedImage

end Udynlink
