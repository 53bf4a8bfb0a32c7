import Udynlink.SectionedLoad

/-!
# A sectioned module in memory

What the readers of the runtime see of a module whose header, table and bases
are in place, and where the words are that its relocations name.
-/

namespace Udynlink

open Machine

/-- Header, table and recorded bases of a module, as its readers see them. -/
structure SectionedAt (h : Header) (es : Nat → SectEntry) (mode : LoadMode) (secs : Nat → Addr)
    (p : Addr) (mod : Module) (tab : SectView) (m : Mem) : Prop where
  pRam : mod.pRam = p
  mode : mod.mode = mode
  header : decodeHeader m mod.pHeader = h
  entries : ∀ i, i < tab.num → entriesAt m tab.pEntries i = es i
  bases : ∀ j, 3 ≤ j → j < tab.num → (es j).size ≠ 0 → m.u32 (baseWord h p j) = secs j

section

variable {h : Header} {es : Nat → SectEntry} {mode : LoadMode} {secs : Nat → Addr} {p : Addr}
  {mod : Module} {tab : SectView} {m : Mem}

/-- A section in RAM: a main one behind the bases, or a block of its own. -/
theorem SectionedAt.base_run (hs : SectionedAt h es mode secs p mod tab m)
    (hf : SectionedFits h tab.num es mode) {idx : Nat} (hi : idx < tab.num)
    (hfirst : firstPlaced mode ≤ idx) :
    (idx < 3 → (getSectionBaseIdx mod tab idx).run m = mainDest h tab.num es mode p idx) ∧
      (3 ≤ idx → p ≠ 0 → (es idx).size ≠ 0 → (getSectionBaseIdx mod tab idx).run m = secs idx) := by
  have hnum := hf.main
  rw [getSectionBaseIdx]
  constructor
  · intro h3
    have hx : ¬ (idx = 0 ∧ mod.mode = .xip) := by
      rw [hs.mode]
      rintro ⟨rfl, rfl⟩
      exact absurd hfirst (by decide)
    have hoff : exactMainOffset h tab.num (entriesAt m tab.pEntries) mode idx =
        exactMainOffset h tab.num es mode idx :=
      exactMainOffset_congr hfirst fun j hj => hs.entries j (by omega)
    rw [if_pos h3, Reader.run_bind, readHeader_run, hs.header, if_neg hx, Reader.run_bind, hs.mode,
      getMainSectionOffset_run _ _ _ _ hi hfirst, hoff, Reader.run_pure, hs.pRam, mainDest]
  · intro h3 hp hne
    rw [if_neg (by omega), if_neg (by rw [hs.pRam]; exact hp), Reader.run_bind, readHeader_run,
      hs.header, baseSlot_eq, hs.pRam]
    exact hs.bases idx h3 hi hne

/-! ## Slots -/

/-- The word an entry names, when a section holds it in RAM: in the LOT, in a main
section up to the end of the block, or in a tagged section up to its own end. -/
def TargetContained (h : Header) (num : Nat) (es : Nat → SectEntry) (mode : LoadMode)
    (found : Option Nat) (lotOffset : UInt32) : Prop :=
  lotOffset < h.numLot.toUInt32 ∨ ∀ idx, found = some idx →
    (es idx).cls = secClassCode ∨ (es idx).cls = secClassData →
      firstPlaced mode ≤ idx ∧
      (idx < 3 → exactMainOffset h num es mode idx +
        (relocVa h lotOffset - (es idx).va).toNat + 4 ≤ exactRamSections h num es mode) ∧
      (3 ≤ idx → (relocVa h lotOffset - (es idx).va).toNat + 4 ≤ (es idx).size.toNat)

/-- A word of the module: in the LOT, behind the metadata in the block, or in a
tagged section. -/
inductive SlotAt (h : Header) (num : Nat) (es : Nat → SectEntry) (mode : LoadMode)
    (secs : Nat → Addr) (p x : Addr) : Prop where
  | lot (i : Nat) (hi : i < h.numLot.toNat) (hx : x = p + UInt32.ofNat (4 * i))
  | main (o : Nat) (hlo : exactStart h num mode ≤ o) (hhi : o + 4 ≤ exactRamSections h num es mode)
    (hx : x = p + UInt32.ofNat o)
  | tagged (j o : Nat) (hj : 3 ≤ j) (hj' : j < num) (hne : (es j).size ≠ 0)
    (ho : o + 4 ≤ (es j).size.toNat) (hx : x = secs j + UInt32.ofNat o)

theorem SectionedAt.slotAt (hs : SectionedAt h es mode secs p mod tab m)
    (hf : SectionedFits h tab.num es mode) (hp : 3 < tab.num → p ≠ 0) {lotOffset : UInt32}
    (hc : TargetContained h tab.num es mode ((sectFindByVa tab (relocVa h lotOffset)).run m)
      lotOffset)
    (hne : (getRelocTarget mod tab lotOffset).run m ≠ 0) :
    SlotAt h tab.num es mode secs p ((getRelocTarget mod tab lotOffset).run m) := by
  have hnum := hf.main
  rw [getRelocTarget, Reader.run_bind, readHeader_run, hs.header, Reader.run_ite] at hne ⊢
  by_cases hlot : lotOffset < h.numLot.toUInt32
  · rw [if_pos hlot, Reader.run_ite] at hne ⊢
    split at hne
    next => exact absurd rfl hne
    next hz =>
      rw [UInt32.lt_iff_toNat_lt, UInt16.toNat_toUInt32] at hlot
      rw [if_neg hz, hs.pRam]
      exact .lot lotOffset.toNat hlot (by rw [mul_four_ofNat]; rfl)
  · rw [if_neg hlot, if_neg (by omega), Reader.run_bind] at hne ⊢
    cases hfind : (sectFindByVa tab (relocVa h lotOffset)).run m with
    | none =>
      rw [hfind] at hne
      exact absurd rfl hne
    | some idx =>
      have hi := sectFindByVa_lt hfind
      rw [hfind] at hne
      dsimp only at hne ⊢
      rw [Reader.run_bind, sectEntryAt_run, hs.entries idx hi, Reader.run_ite] at hne ⊢
      split at hne
      next => exact absurd rfl hne
      next hcls =>
        rw [if_neg hcls, Reader.run_bind, Reader.run_pure]
        obtain ⟨hfirst, hmain, htag⟩ := (hc.resolve_left hlot) idx hfind (by tauto)
        obtain ⟨hb1, hb2⟩ := hs.base_run hf hi hfirst
        by_cases h3 : idx < 3
        · have hlo := hf.start_le hfirst h3
          rw [hb1 h3, mainDest]
          exact .main (exactMainOffset h tab.num es mode idx +
              (relocVa h lotOffset - (es idx).va).toNat) (by omega) (hmain h3)
            (by rw [UInt32.ofNat_add, UInt32.ofNat_toNat, UInt32.add_assoc])
        · have hle := htag (by omega)
          have hsz : (es idx).size ≠ 0 := by
            rintro hz
            rw [hz] at hle
            exact absurd hle (by simp)
          rw [hb2 (by omega) (hp (by omega)) hsz]
          exact .tagged idx (relocVa h lotOffset - (es idx).va).toNat (by omega) hi hsz hle
            (by rw [UInt32.ofNat_toNat])

/-! ## What no slot touches -/

/-- Outside the blocks, or between the LOT and the main sections. -/
def SectionedFixed (h : Header) (num : Nat) (es : Nat → SectEntry) (mode : LoadMode)
    (secs : Nat → Addr) (p a : Addr) : Prop :=
  (a ∉ (⟨p, exactRamSections h num es mode⟩ : Span) ∧
    ∀ j, 3 ≤ j → j < num → (es j).size ≠ 0 → a ∉ (⟨secs j, (es j).size.toNat⟩ : Span)) ∨
  a ∈ (⟨p + UInt32.ofNat (4 * h.numLot.toNat), exactStart h num mode - 4 * h.numLot.toNat⟩ : Span)

variable {num : Nat} {x : Addr}

theorem lot_le_ram (hf : SectionedFits h num es mode) :
    4 * h.numLot.toNat ≤ exactStart h num mode ∧
      exactStart h num mode ≤ exactRamSections h num es mode := by
  have hb := bases_le_start h num mode
  exact ⟨by omega, hf.start_le_ram⟩

/-- Between the LOT and the main sections. -/
theorem fixed_block (hf : SectionedFits h num es mode) {o n : Nat} (hlo : 4 * h.numLot.toNat ≤ o)
    (hhi : o + n ≤ exactStart h num mode) :
    Covers (SectionedFixed h num es mode secs p) ⟨p + UInt32.ofNat o, n⟩ := by
  have hram := hf.ram
  have hstart := hf.start_le_ram
  intro a ha
  have hsub : (⟨p + UInt32.ofNat o, n⟩ : Span) ⊆ ⟨p + UInt32.ofNat (4 * h.numLot.toNat),
      exactStart h num mode - 4 * h.numLot.toNat⟩ := by
    rw [show o = 4 * h.numLot.toNat + (o - 4 * h.numLot.toNat) by omega, ← off_off]
    exact off_subset (by omega) (by omega)
  exact Or.inr (Span.subset_def.mp hsub a ha)

/-- A word of the module lies in one of its blocks. -/
theorem SlotAt.subset (hf : SectionedFits h num es mode) (hs : SlotAt h num es mode secs p x) :
    (⟨x, 4⟩ : Span) ⊆ ⟨p, exactRamSections h num es mode⟩ ∨
      ∃ j, 3 ≤ j ∧ j < num ∧ (es j).size ≠ 0 ∧ (⟨x, 4⟩ : Span) ⊆ ⟨secs j, (es j).size.toNat⟩ := by
  have hram := hf.ram
  obtain ⟨hlot, hstart⟩ := lot_le_ram hf
  cases hs with
  | lot i hi hx =>
    rw [hx]
    exact Or.inl (off_subset (by omega) (by omega))
  | main o hlo hhi hx =>
    rw [hx]
    exact Or.inl (off_subset hhi (by omega))
  | tagged j o hj hj' hne ho hx =>
    have hlt := (es j).size.toNat_lt
    rw [hx]
    exact Or.inr ⟨j, hj, hj', hne, off_subset ho (by omega)⟩

theorem SlotAt.clear (hf : SectionedFits h num es mode)
    (hroom : TaggedRoom es secs num ⟨p, exactRamSections h num es mode⟩)
    (hs : SlotAt h num es mode secs p x) {a : Addr} (ha : SectionedFixed h num es mode secs p a) :
    a ∉ (⟨x, 4⟩ : Span) := by
  have hram := hf.ram
  obtain ⟨hlot, hstart⟩ := lot_le_ram hf
  intro hmem
  cases ha with
  | inl ha =>
    cases hs.subset hf with
    | inl hsub => exact ha.1 (Span.subset_def.mp hsub a hmem)
    | inr hsub =>
      obtain ⟨j, hj, hj', hne, hsub⟩ := hsub
      exact ha.2 j hj hj' hne (Span.subset_def.mp hsub a hmem)
  | inr ha =>
    cases hs with
    | lot i hi hx =>
      rw [hx] at hmem
      exact off_disjoint (by omega) (by omega) a hmem ha
    | main o hlo hhi hx =>
      rw [hx] at hmem
      exact off_disjoint (by omega) (by omega) a ha hmem
    | tagged j o hj hj' hne ho hx =>
      have hlt := (es j).size.toNat_lt
      rw [hx] at hmem
      have hin : a ∈ (⟨secs j, (es j).size.toNat⟩ : Span) :=
        Span.subset_def.mp (off_subset ho (by omega)) a hmem
      refine hroom.block j hj hj' hne a hin ?_
      exact Span.subset_def.mp (off_subset (by omega) (by omega)) a ha

/-- Where the image is, and no block. -/
def sectionedSource (image : Image) (h : Header) (num : Nat) (es : Nat → SectEntry) : List Span :=
  [metaSpan image h, ⟨image.pRelocations, 8 * h.numRels.toNat⟩, ⟨image.pSymtab, h.symtSize.toNat⟩,
    ⟨image.pCode, (es 1).va.toNat⟩, ⟨image.pData, (es 1).size.toNat⟩,
    ⟨image.pCode + ((es 1).va + h.dataSize), classSizes es 3 (num - 3) 3⟩]

/-- The image is clear of the blocks. -/
structure SectionedClear (image : Image) (h : Header) (num : Nat) (es : Nat → SectEntry)
    (mode : LoadMode) (secs : Nat → Addr) (p : Addr) : Prop where
  block : ∀ s ∈ sectionedSource image h num es,
    s.Disjoint ⟨p, exactRamSections h num es mode⟩
  tagged : ∀ s ∈ sectionedSource image h num es, ∀ j, 3 ≤ j → j < num → (es j).size ≠ 0 →
    s.Disjoint ⟨secs j, (es j).size.toNat⟩

variable {image : Image}

theorem SectionedClear.covers (hc : SectionedClear image h num es mode secs p) {s : Span}
    (hs : s ∈ sectionedSource image h num es) : Covers (SectionedFixed h num es mode secs p) s :=
  fun a ha => Or.inl ⟨hc.block s hs a ha, fun j hj hj' hne => hc.tagged s hs j hj hj' hne a ha⟩

/-- The walk looks at no word an entry can name. -/
theorem SectionedAt.walkIn (hs : SectionedAt h es mode secs p mod tab m)
    (hf : SectionedFits h tab.num es mode) (htab : tab = sectView image.pHeader h)
    (hsrc : decodeHeader m image.pHeader = h)
    (hc : SectionedClear image h tab.num es mode secs p)
    (hown : mod.pHeader = if mode = .copyAll then metadataAddr h tab.num p else image.pHeader) :
    WalkIn (SectionedFixed h tab.num es mode secs p) mod tab image.relocSource h.numRels.toNat m := by
  have hram := hf.ram
  have hnum := hf.main
  obtain ⟨hlot, hstart⟩ := lot_le_ram hf
  have hP := placeIn_meta htab hf
  have hmeta : Covers (SectionedFixed h tab.num es mode secs p) (metaSpan image h) :=
    hc.covers (by simp [sectionedSource])
  have hblock : ∀ o n, 4 * h.numLot.toNat ≤ o → o + n ≤ exactStart h tab.num mode →
      Covers (SectionedFixed h tab.num es mode secs p) ⟨p + UInt32.ofNat o, n⟩ :=
    fun o n hlo hhi => fixed_block hf hlo hhi
  refine ⟨⟨fun hn i hi a ha => hmeta a (hP.view.entries hn i hi a ha)⟩, ⟨?_, fun k hk hk' => ?_⟩, ?_,
    hc.covers (by simp [sectionedSource, Image.relocSource]), ?_, fun hz => absurd hz (by omega)⟩
  · rw [hown]
    split
    next hm =>
      have hle := header_le_codeOffset (h := h) (by have := hf.table.count; omega)
      refine hblock _ 32 (by omega) ?_
      rw [exactStart, if_pos hm]
      omega
    next => exact fun a ha => hmeta a (hP.header a ha)
  · rw [hs.header, baseSlot_eq, hs.pRam]
    refine hblock _ 4 (by omega) ?_
    have hb := bases_le_start h tab.num mode
    omega
  · exact fun a ha => hmeta a (hP.header a ha)
  · have hsrc' : decodeHeader m image.relocSource.pHeader = h := hsrc
    rw [hsrc']
    exact hc.covers (by simp [sectionedSource, Image.relocSource])

end

end Udynlink
