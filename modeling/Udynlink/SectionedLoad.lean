import Udynlink.SectionedLayout

/-!
# A sectioned load up to its relocations

The stage leaves the source metadata where it was, the handle on a header that
decodes to the same, and every tagged base in the slot the relocations read.
-/

namespace Udynlink

open Machine

/-- Header, relocations, symbols and section table, the padding included. -/
def metaSpan (image : Image) (h : Header) : Span := ⟨image.pHeader, exactCodeOffset h⟩

section

variable {image : Image} {h : Header} {num : Nat} {es : Nat → SectEntry} {mode : LoadMode}
  {p : Addr} {tab : SectView}

theorem table_le_codeOffset {i : Nat} (hi : i < (getNumSectionsRaw h).toNat) :
    exactSymtabEnd h + 24 * i + 24 ≤ exactCodeOffset h := by
  have hle := le_exactAlignUp (x := exactSymtabEnd h + 24 * (getNumSectionsRaw h).toNat)
    (show (4 : Nat).isPowerOfTwo from ⟨2, rfl⟩)
  rw [exactCodeOffset]
  omega

theorem header_le_codeOffset (hn : 0 < (getNumSectionsRaw h).toNat) : 32 ≤ exactCodeOffset h := by
  have ht := table_le_codeOffset (h := h) hn
  have hle := le_exactAlignUp (x := (getHeaderSize h).toNat + 8 * h.numRels.toNat + h.symtSize.toNat)
    (show (4 : Nat).isPowerOfTwo from ⟨2, rfl⟩)
  have hge := getHeaderSize_ge h
  rw [← exactSymtabEnd] at hle
  omega

/-- The stage looks at nothing but the metadata. -/
theorem placeIn_meta (htab : tab = sectView image.pHeader h) (hf : SectionedFits h tab.num es mode) :
    PlaceIn (· ∈ metaSpan image h) image tab := by
  have hlt := hf.table.exactCodeOffset_lt
  have hnum := hf.main
  have hcount := hf.table.count
  refine ⟨⟨fun _ i hi => ?_⟩, ?_, hnum⟩
  · have hle := table_le_codeOffset (h := h) (i := i) (by omega)
    have hp : tab.pEntries = image.pHeader + UInt32.ofNat (exactSymtabEnd h) := by
      rw [htab, ← getSymtabEndOffset_eq]
      rfl
    rw [hp, off_off]
    exact off_subset (by omega) (by omega)
  · have hle := header_le_codeOffset (h := h) (by omega)
    exact prefix_subset hle

theorem pTemp8_eq (h : Header) (tab : SectView) (p : Addr) :
    p + h.numLot.toUInt32 * 4 + getNonmainBasesSize tab = metadataAddr h tab.num p := by
  rw [metadataAddr, lotBytes, getNonmainBasesSize_eq, off_off]

/-- Own header of the module behind the stage. -/
theorem ownHeader_span {mod : Module} (hheader : mod.pHeader = image.pHeader) :
    (⟨(placedHandle mode (metadataAddr h num p) mod).pHeader, 32⟩ : Span) =
      if mode = .copyAll then ⟨metadataAddr h num p, 32⟩ else ⟨image.pHeader, 32⟩ := by
  rw [placedHandle]
  split
  · rfl
  · rw [hheader]

/-- The copied header lies in the block behind the base array. -/
theorem metadata_in_block (hf : SectionedFits h num es mode) (hm : mode = .copyAll) :
    4 * h.numLot.toNat + 4 * (num - 3) + 32 ≤ exactRamSections h num es mode := by
  have hs := hf.start_le_ram
  have hnum := hf.main
  have hcount := hf.table.count
  have hle := header_le_codeOffset (h := h) (by omega)
  rw [exactStart, if_pos hm] at hs
  omega

/-- The metadata behind the base array is the image's. -/
theorem copied_metadata (hf : SectionedFits h num es mode) (hm : mode = .copyAll)
    {bs : List Blit} (hbs : (mainBlits image h num es mode p ++ bs).Pairwise
      fun b c => b.span.Disjoint c.span) (m : Mem) {i : Nat} (hi : i < exactCodeOffset h) :
    Blit.applyAll (mainBlits image h num es mode p ++ bs) m
      (metadataAddr h num p + UInt32.ofNat i) = m (image.pHeader + UInt32.ofNat i) := by
  have hcode := hf.table.exactCodeOffset_lt
  subst hm
  exact Blit.applyAll_head_byte (List.pairwise_cons.mp hbs).1 hi
    (show exactCodeOffset h ≤ 2 ^ 32 by omega) m

/-- The module's own header is the image's, wherever the mode puts it. -/
theorem own_header (hf : SectionedFits h num es mode) {mod : Module}
    (hheader : mod.pHeader = image.pHeader) {bs : List Blit}
    (hbs : (mainBlits image h num es mode p ++ bs).Pairwise fun b c => b.span.Disjoint c.span)
    {m : Mem} (hh : decodeHeader m image.pHeader = h)
    (hsame : mode ≠ .copyAll → decodeHeader (Blit.applyAll (mainBlits image h num es mode p ++ bs) m)
      image.pHeader = h) :
    decodeHeader (Blit.applyAll (mainBlits image h num es mode p ++ bs) m)
      (placedHandle mode (metadataAddr h num p) mod).pHeader = h := by
  rw [placedHandle]
  split
  next hm =>
    have hnum := hf.main
    have hcount := hf.table.count
    have hle := header_le_codeOffset (h := h) (by omega)
    rw [← hh]
    refine decodeHeader_eq_of_bytes fun i hi => ?_
    rw [hh]
    exact copied_metadata hf hm hbs m (by omega)
  next hm =>
    rw [hheader]
    exact hsame hm

/-- The main sections go inside the block, off the metadata. -/
theorem mainBlits_clear (hf : SectionedFits h num es mode)
    (hclear : (metaSpan image h).Disjoint ⟨p, exactRamSections h num es mode⟩) :
    ∀ b ∈ mainBlits image h num es mode p, ∀ a, a ∈ metaSpan image h → a ∉ b.span := by
  have hlt := hf.ram
  have hlaid := mainBlits_laid image p hf
  have hend := (bssBlit_laid (p := p) hf).le
  intro b hb a ha hmem
  exact hclear a ha (Span.subset_def.mp (Span.subset_trans (hlaid.subset (by omega) hb)
    (prefix_subset hend)) a hmem)

/-- So do the slots of the tagged bases, and the payloads go to the granted blocks. -/
theorem taggedBlits_clear (hf : SectionedFits h num es mode) {secs : Nat → Addr} {off : UInt32}
    (hclear : (metaSpan image h).Disjoint ⟨p, exactRamSections h num es mode⟩)
    (hgr : ∀ s ∈ taggedSpans es secs (num - 3) 3, (metaSpan image h).Disjoint s) :
    ∀ b ∈ taggedBlits image h es p secs (num - 3) 3 off,
      ∀ a, a ∈ metaSpan image h → a ∉ b.span := by
  have hlt := hf.ram
  have hnum := hf.main
  have hstart := hf.start_le_ram
  have hbases := bases_le_start h num mode
  intro b hb a ha
  obtain ⟨j, hj, hj', hne, hx⟩ := taggedBlits_mem hb
  cases hx with
  | inl he =>
    rw [he]
    have hsub := baseWord_subset (h := h) (p := p) hj (show j < num by omega) (by omega)
    exact (hclear.mono (Span.subset_refl _)
      (Span.subset_trans hsub (prefix_subset (by omega)))) a ha
  | inr he =>
    rw [he]
    exact hgr _ (mem_taggedSpans hj hj' hne) a ha

variable {host : Host} {w w' : State}

/-- What the allocator grants during the stage stays off the metadata and the block. -/
def Granted (image : Image) (h : Header) (block : Span) (w w' : State) : Prop :=
  ∀ evs, w.Extends w' evs → ∀ s ∈ (hostEvents evs).filterMap grantedSpan,
    (metaSpan image h).Disjoint s ∧ s.Disjoint block

theorem placeSectioned_ok (htab : tab = sectView image.pHeader h)
    (hf : SectionedFits h tab.num es mode) (hh : decodeHeader w.mem image.pHeader = h)
    (hes : ∀ i, i < tab.num → entriesAt w.mem tab.pEntries i = es i) (hram : w.handle.pRam = p)
    (hheader : w.handle.pHeader = image.pHeader)
    (hclear : (metaSpan image h).Disjoint ⟨p, exactRamSections h tab.num es mode⟩)
    (hgrant : Granted image h ⟨p, exactRamSections h tab.num es mode⟩ w w')
    (hr : (placeSectioned host image tab mode (metadataAddr h tab.num p)).run w = (.ok (), w')) :
    ∃ secs names, SecsOk es secs (tab.num - 3) 3 ∧
      w'.handle = placedHandle mode (metadataAddr h tab.num p) w.handle ∧
      Did w w' (Blit.applyAll (placeBlits image h tab.num es mode p secs))
        ((placeBlits image h tab.num es mode p secs).map Blit.span)
        (taggedHost es secs names (tab.num - 3) 3) := by
  have hP := placeIn_meta htab hf
  have hlt := hf.ram
  have hnum := hf.main
  have hcode := hf.table.exactCodeOffset_lt
  have hstart := hf.start_le_ram
  have hbases := bases_le_start h tab.num mode
  rw [placeSectioned, Prog.run_bind_ok] at hr
  obtain ⟨⟨⟩, w1, hmain, hr⟩ := hr
  have hlaid := mainBlits_laid image p hf
  have hend := (bssBlit_laid (p := p) hf).le
  have hmainClear := mainBlits_clear hf hclear
  have hag0 : ∀ a, a ∈ metaSpan image h → w.mem a = w.mem a := fun _ _ => rfl
  have hms := @PlaceIn.copyMainSections_ok _ _ _ mode _ _ w1 hP hag0
  rw [hh, mainBlits_congr fun j hj => hes j (by omega), hram] at hms
  obtain ⟨hh1, hd1⟩ := hms (by omega) hmainClear hmain
  have hag1 := did_agree hd1 hmainClear hag0
  have hhdr1 := hP.header_run hag1
  rw [hh] at hhdr1
  rw [Prog.run_lift_bind, readHeader_run, hhdr1, Prog.run_lift_bind, World.log_mem,
    hP.payload_run hag1, hes 1 (by omega), World.log_log, ← readEvents_append, Prog.run_bind_ok] at hr
  obtain ⟨⟨⟩, w2, hloop, hbss⟩ := hr
  let mod := placedHandle mode (metadataAddr h tab.num p) w.handle
  have hpw : (mainBlits image h tab.num es mode p ++ []).Pairwise
      fun (b c : Blit) => b.span.Disjoint c.span := by
    rw [List.append_nil]
    exact hlaid.pairwise (by omega)
  have hown : decodeHeader w1.mem mod.pHeader = h := by
    have ho := own_header hf hheader hpw hh fun _ => by
      rw [List.append_nil, ← hd1.mem]
      exact hhdr1
    rw [List.append_nil, ← hd1.mem] at ho
    exact ho
  have hpram : mod.pRam = p := (placedHandle_pRam _ _ _).trans hram
  -- the loop also looks at the module's own header
  have hP' : PlaceIn (fun a => a ∈ metaSpan image h ∨ a ∈ (⟨mod.pHeader, 32⟩ : Span)) image tab :=
    ⟨⟨fun hn i hi a ha => Or.inl (hP.view.entries hn i hi a ha)⟩,
      fun a ha => Or.inl (hP.header a ha), hP.num⟩
  have hownBlock : mode = .copyAll →
      (⟨mod.pHeader, 32⟩ : Span) = ⟨metadataAddr h tab.num p, 32⟩ := fun hm => by
    rw [ownHeader_span hheader, if_pos hm]
  have hownMeta : mode ≠ .copyAll → (⟨mod.pHeader, 32⟩ : Span) = ⟨image.pHeader, 32⟩ := fun hm => by
    rw [ownHeader_span hheader, if_neg hm]
  have hmiss : ∀ s : Span, (metaSpan image h).Disjoint s →
      (mode = .copyAll → Span.Disjoint ⟨metadataAddr h tab.num p, 32⟩ s) →
      ∀ a, a ∈ metaSpan image h ∨ a ∈ (⟨mod.pHeader, 32⟩ : Span) → a ∉ s := by
    intro s hs hcopy a ha
    cases ha with
    | inl ha => exact hs a ha
    | inr ha =>
      by_cases hm : mode = .copyAll
      · rw [hownBlock hm] at ha
        exact hcopy hm a ha
      · rw [hownMeta hm] at ha
        exact hs a (hP.header a ha)
  obtain ⟨e1, he1, hev1, -⟩ := hd1.events
  obtain ⟨e3, he3⟩ := Prog.extends_of_run hbss
  have hag1' : ∀ a, a ∈ metaSpan image h ∨ a ∈ (⟨mod.pHeader, 32⟩ : Span) → w1.mem a = w1.mem a :=
    fun _ _ => rfl
  obtain ⟨secs, names, hok, hfill⟩ := loadTaggedLoop_ok hloop hag1' hh1 hP'
    (fun a ha => Or.inr ha) hown (fun i hi => (hP.entry_run hag1 hi).trans (hes i hi))
    (fun j hj hj' => by
      rw [hpram]
      have hsub := baseWord_subset (h := h) (p := p) hj hj' (by omega)
      refine hmiss _ (hclear.mono (Span.subset_refl _)
        (Span.subset_trans hsub (prefix_subset (by omega)))) fun hm => ?_
      have hle := metadata_in_block hf hm
      exact (off_disjoint (k := 4 * h.numLot.toNat + 4 * (j - 3)) (n := 4) (by omega)
        (by omega)).symm)
    (Nat.le_refl 3) (by omega)
    (fun evs he s hs => by
      obtain ⟨hm, hb⟩ := hgrant _ (he1.trans ((World.extends_log _ _).trans (he.trans he3))) s (by
        rw [hostEvents_append, hostEvents_append, hostEvents_append, hostEvents_readEvents,
          List.nil_append, List.filterMap_append, List.filterMap_append]
        exact List.mem_append_right _ (List.mem_append_left _ hs))
      refine hmiss s hm fun hc => hb.symm.mono ?_ (Span.subset_refl _)
      exact off_subset (metadata_in_block hf hc) (by omega))
  rw [hpram] at hfill
  have htag := Filled.of_log hfill
  obtain ⟨e2, he2, hev2, -⟩ := htag.did.events
  have hspans := @taggedBlits_clear image h tab.num es mode p hf secs ((es 1).va + h.dataSize)
    hclear fun s hs => by
    refine (hgrant _ (he1.trans (he2.trans he3)) s ?_).1
    rw [hostEvents_append, hostEvents_append, hev2, List.filterMap_append,
      List.filterMap_append, taggedHost_granted hok]
    exact List.mem_append_right _ (List.mem_append_left _ hs)
  have hag2 := did_agree htag.did hspans hag1
  have hb := hP.zeroMainBss_ok hag2 hbss
  rw [hh, bssBlit_congr (by have := firstPlaced_le mode; omega) fun j hj => hes j (by omega),
    htag.handle, hh1, placedHandle_pRam, hram] at hb
  refine ⟨secs, names, hok, ?_, ?_⟩
  · rw [hb.handle, htag.handle, hh1]
  · have hall := hd1.transfers_append ((htag.trans hb).did)
    rw [List.nil_append, List.append_nil] at hall
    exact hall

end

end Udynlink
