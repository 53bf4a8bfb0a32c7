import Udynlink.SectionedWalk

/-!
# A sectioned load

From the stages of a load that returns, for an image whose entries name words
that its sections hold in RAM: what was asked of the host, every write inside
the blocks, and the module in memory as its readers see it.
-/

namespace Udynlink

open Machine

/-! ## Fair blocks -/

section

variable {source : List Span} {mainAlign ramSize : UInt32} {loadAddr p : Addr} {loadSize : UInt32}
  {hs : List HostEvent}

theorem loadBlocks_append (loadAddr : Addr) (loadSize : UInt32) (hs hs' : List HostEvent) :
    loadBlocks loadAddr loadSize (hs ++ hs') =
      loadBlocks loadAddr loadSize hs ++ hs'.filterMap grantedSpan := by
  rw [loadBlocks, loadBlocks, List.filterMap_append, List.append_assoc]

/-- The main block of a fair load is clear of the image and of the other blocks. -/
theorem FairBlocks.block (hfair : FairBlocks source loadAddr loadSize
      (mainHost mainAlign ramSize loadAddr p ++ hs))
    (hb : BlockOk mainAlign ramSize loadAddr loadSize p) :
    (∀ t ∈ source, t.Disjoint ⟨p, ramSize.toNat⟩) ∧
      ∀ s ∈ hs.filterMap grantedSpan, s.Disjoint ⟨p, ramSize.toNat⟩ := by
  by_cases hz : ramSize = 0
  · rw [hz]
    exact ⟨fun t _ a _ => Span.not_mem_zero _ _, fun s _ a _ => Span.not_mem_zero _ _⟩
  · obtain ⟨b, hmem, hsub⟩ := hb.subset hz []
    rw [List.append_nil] at hmem
    have hpw := hfair.pairwise
    have hclear := hfair.clear
    rw [loadBlocks_append] at hpw hclear
    refine ⟨fun t ht => ?_, fun s hs => ?_⟩
    · exact (hclear t ht b (List.mem_append_left _ hmem)).mono (Span.subset_refl t) hsub
    · exact ((List.pairwise_append.mp hpw).2.2 b hmem s hs).symm.mono (Span.subset_refl s) hsub

theorem FairBlocks.granted (hfair : FairBlocks source loadAddr loadSize
      (mainHost mainAlign ramSize loadAddr p ++ hs)) :
    (hs.filterMap grantedSpan).Pairwise Span.Disjoint ∧
      ∀ t ∈ source, ∀ s ∈ hs.filterMap grantedSpan, t.Disjoint s := by
  have hpw := hfair.pairwise
  have hclear := hfair.clear
  rw [loadBlocks_append] at hpw hclear
  exact ⟨(List.pairwise_append.mp hpw).2.1,
    fun t ht s hs => hclear t ht s (List.mem_append_right _ hs)⟩

end

/-! ## The module behind the stages -/

section

variable {image : Image} {h : Header} {es : Nat → SectEntry} {mode : LoadMode} {secs : Nat → Addr}
  {p : Addr} {tab : SectView} {mod : Module} {m : Mem}

/-- No transfer of the stage goes into the image. -/
theorem placeBlits_clear (hf : SectionedFits h tab.num es mode)
    (hc : SectionedClear image h tab.num es mode secs p) {s : Span}
    (hs : s ∈ sectionedSource image h tab.num es) {b : Blit}
    (hb : b ∈ placeBlits image h tab.num es mode p secs) {a : Addr} (ha : a ∈ s) : a ∉ b.span := by
  have hram := hf.ram
  have hstart := hf.start_le_ram
  have hbases := bases_le_start h tab.num mode
  cases placeBlits_mem hf hb with
  | inl hx =>
    obtain ⟨k, hd, hk, hle⟩ := hx
    rw [Blit.span, hd]
    exact (hc.block s hs).mono (Span.subset_refl s) (off_subset hle (by omega)) a ha
  | inr hx =>
    obtain ⟨j, hj, hj', hne, hx⟩ := hx
    cases hx with
    | inl he =>
      rw [he]
      have hsub := baseWord_subset (h := h) (p := p) hj hj' (by omega)
      exact (hc.block s hs).mono (Span.subset_refl s)
        (Span.subset_trans hsub (prefix_subset (by omega))) a ha
    | inr he =>
      rw [he]
      exact hc.tagged s hs j hj hj' hne a ha

theorem placeBlits_subset (hf : SectionedFits h tab.num es mode) {b : Blit}
    (hb : b ∈ placeBlits image h tab.num es mode p secs) :
    b.span ⊆ ⟨p, exactRamSections h tab.num es mode⟩ ∨
      ∃ j, 3 ≤ j ∧ j < tab.num ∧ (es j).size ≠ 0 ∧ b.span ⊆ ⟨secs j, (es j).size.toNat⟩ := by
  have hram := hf.ram
  have hstart := hf.start_le_ram
  have hbases := bases_le_start h tab.num mode
  cases placeBlits_mem hf hb with
  | inl hx =>
    obtain ⟨k, hd, -, hle⟩ := hx
    rw [Blit.span, hd]
    exact Or.inl (off_subset hle (by omega))
  | inr hx =>
    obtain ⟨j, hj, hj', hne, hx⟩ := hx
    cases hx with
    | inl he =>
      rw [he]
      exact Or.inl (Span.subset_trans (baseWord_subset (h := h) hj hj' (by omega))
        (prefix_subset (by omega)))
    | inr he =>
      rw [he]
      exact Or.inr ⟨j, hj, hj', hne, Span.subset_refl _⟩

theorem placed_sectionedAt (hf : SectionedFits h tab.num es mode)
    (htab : tab = sectView image.pHeader h)
    (hroom : TaggedRoom es secs tab.num ⟨p, exactRamSections h tab.num es mode⟩)
    (hc : SectionedClear image h tab.num es mode secs p)
    (hh : decodeHeader m image.pHeader = h)
    (hes : ∀ i, i < tab.num → entriesAt m tab.pEntries i = es i)
    (hheader : mod.pHeader = image.pHeader) (hram : mod.pRam = p) (hmode : mod.mode = mode) :
    decodeHeader (Blit.applyAll (placeBlits image h tab.num es mode p secs) m) image.pHeader = h ∧
      SectionedAt h es mode secs p (placedHandle mode (metadataAddr h tab.num p) mod) tab
        (Blit.applyAll (placeBlits image h tab.num es mode p secs) m) := by
  have hP := placeIn_meta htab hf
  have hpw := placeBlits_pairwise image hf hroom
  have hsame : ∀ a, a ∈ metaSpan image h →
      m a = Blit.applyAll (placeBlits image h tab.num es mode p secs) m a := fun a ha =>
    (Blit.applyAll_notMem (fun b hb => placeBlits_clear hf hc (by simp [sectionedSource]) hb ha)
      m).symm
  have hsrc : decodeHeader (Blit.applyAll (placeBlits image h tab.num es mode p secs) m)
      image.pHeader = h := ((within_readHeader hP.header m).congr hsame).trans hh
  refine ⟨hsrc, ?_, ?_, ?_, fun i hi => ?_, fun j hj hj' hne => ?_⟩
  · rw [placedHandle_pRam, hram]
  · rw [placedHandle_mode, hmode]
  · exact own_header hf hheader hpw hh fun _ => hsrc
  · have hrun := (within_sectEntryAt hP.view (by have := hf.main; omega) (Or.inl hi) m).congr hsame
    exact hrun.trans (hes i hi)
  · refine Blit.applyAll_word hpw ?_ m
    rw [placeBlits]
    exact List.mem_append_right _ (List.mem_append_left _
      (word_mem_taggedBlits hj (by omega) hne))

/-- The table is accepted again wherever header and entries are the same. -/
theorem getSectab_of_table {q : Addr} (hh : decodeHeader m q = h)
    (ht : TableOk h (sectView q h).num (entriesAt m (sectView q h).pEntries)) :
    (getSectab q false).run m = (.ok (), sectView q h) := by
  have hsec : isSectioned (decodeHeader m q) = true := by
    rw [hh]
    exact ht.sectioned
  cases getSectab_sectioned false hsec with
  | inl hx =>
    rw [hh] at hx
    exact hx.2.2
  | inr hx =>
    rw [hh] at hx
    exact absurd ⟨ht, namesOk_false _ _ _⟩ hx.1

theorem baseBlits_subset (hf : SectionedFits h tab.num es mode) {ramSize : UInt32} {b : Blit}
    (hb : b ∈ baseBlits h tab ramSize p) :
    b.span ⊆ ⟨p, exactRamSections h tab.num es mode⟩ := by
  have hram := hf.ram
  have hstart := hf.start_le_ram
  have hbases := bases_le_start h tab.num mode
  rw [baseBlits] at hb
  split at hb
  next => exact absurd hb List.not_mem_nil
  next =>
    have hsub : (⟨p + h.numLot.toUInt32 * 4, (getNonmainBasesSize tab).toNat⟩ : Span) ⊆
        ⟨p, exactRamSections h tab.num es mode⟩ := by
      rw [lotBytes, getNonmainBasesSize_eq, toNat_ofNat_of_lt (by omega)]
      exact off_subset (by omega) (by omega)
    rw [List.mem_singleton.mp hb]
    exact hsub

/-- The walk keeps the module as its readers see it. -/
theorem SectionedAt.transfer {m' : Mem} {src : RelocSource} {P : Addr → Prop} {n : Nat}
    (hs : SectionedAt h es mode secs p mod tab m) (hW : WalkIn P mod tab src n m)
    (hnum : tab.num ≠ 0) (hag : ∀ a, P a → m a = m' a) :
    SectionedAt h es mode secs p mod tab m' := by
  refine ⟨hs.pRam, hs.mode, (hW.ownHeader hag).trans hs.header, fun i hi => ?_,
    fun j hj hj' hne => ?_⟩
  · exact ((within_sectEntryAt hW.view hnum (Or.inl hi) m).congr hag).trans (hs.entries i hi)
  · have hb := hW.own.bases j hj hj'
    rw [hs.header, baseSlot_eq, hs.pRam] at hb
    exact ((Reader.within_u32.mpr hb).congr hag).trans (hs.bases j hj hj' hne)

end

/-! ## The stages -/

/-- Entry `i` stores a word. -/
def entryWrites (src : RelocSource) (m : Mem) (i : Nat) : Bool :=
  isBaseRelocation ((readRelocation src.pRelocations i).run m).2 ||
    match relocSym src m ((readRelocation src.pRelocations i).run m).2 with
    | some sym => writesSym sym
    | none => false

/-- Every word a relocation stores is one the module holds in RAM. -/
def RelocsContained (image : Image) (tab : SectView) (mode : LoadMode) (m : Mem) : Prop :=
  ∀ i, i < (decodeHeader m image.pHeader).numRels.toNat →
    entryWrites image.relocSource m i = true →
    TargetContained (decodeHeader m image.pHeader) tab.num (entriesAt m tab.pEntries) mode
      ((sectFindByVa tab (relocVa (decodeHeader m image.pHeader)
        ((readRelocation image.pRelocations i).run m).1)).run m)
      ((readRelocation image.pRelocations i).run m).1

theorem relocSpans_writes {mod : Module} {tab : SectView} {src : RelocSource} {m : Mem} {i : Nat}
    {s : Span} (hs : s ∈ relocSpans mod tab src m i) : entryWrites src m i = true := by
  rw [relocSpans] at hs
  rw [entryWrites]
  cases hb : isBaseRelocation ((readRelocation src.pRelocations i).run m).2 with
  | true => rfl
  | false =>
    rw [hb, if_neg Bool.false_ne_true] at hs
    rw [Bool.false_or]
    split at hs
    next sym hsym =>
      rw [symSpans] at hs
      split at hs
      next hw => simpa only [hsym] using hw
      next => exact absurd hs List.not_mem_nil
    next => exact absurd hs List.not_mem_nil

theorem entryWrites_congr {image : Image} {m m' : Mem} {h : Header} {num : Nat}
    {es : Nat → SectEntry} (hh : decodeHeader m image.pHeader = h)
    (hh' : decodeHeader m' image.pHeader = h)
    (hsame : ∀ s ∈ sectionedSource image h num es, AgreeOn s m m') {i : Nat}
    (hi : i < h.numRels.toNat) :
    (readRelocation image.pRelocations i).run m' = (readRelocation image.pRelocations i).run m ∧
      entryWrites image.relocSource m' i = entryWrites image.relocSource m i := by
  have hn := h.numRels.toNat_lt
  have hrel : (readRelocation image.pRelocations i).run m' =
      (readRelocation image.pRelocations i).run m :=
    (within_readRelocation (P := (· ∈ (⟨image.pRelocations, 8 * h.numRels.toNat⟩ : Span)))
      (fun a ha => ha) hi (by omega) m).congr (hsame _ (by simp [sectionedSource]))
  refine ⟨hrel, ?_⟩
  have hsrc : image.relocSource.pRelocations = image.pRelocations := rfl
  rw [entryWrites, entryWrites, hsrc, hrel]
  cases hb : isBaseRelocation ((readRelocation image.pRelocations i).run m).2 with
  | true => rfl
  | false =>
    have hlt := isBaseRelocation_eq_false hb
    have hsym : relocSym image.relocSource m' ((readRelocation image.pRelocations i).run m).2 =
        relocSym image.relocSource m ((readRelocation image.pRelocations i).run m).2 := by
      have hw : (getSymAtRaw image.pSymtab ((readRelocation image.pRelocations i).run m).2
          h.symtSize).Within (· ∈ (⟨image.pSymtab, h.symtSize.toNat⟩ : Span)) m :=
        within_getSymAtRaw (fun a ha => ha) (by omega) m
      have hs : image.relocSource.pHeader = image.pHeader := rfl
      rw [relocSym, relocSym, hs, hh, hh']
      exact hw.congr (hsame _ (by simp [sectionedSource]))
    rw [hsym]

/-- The words behind a load: those of the payloads, patched by every entry. -/
structure SectionedWords (host : Host) (image : Image) (mode : LoadMode) (tab : SectView)
    (h : Header) (es : Nat → SectEntry) (p : Addr) (secs : Nat → Addr) (mod : Module)
    (ans : Nat → UInt32) (m3 m' : Mem) : Prop where
  placed : SectionedAt h es mode secs p mod tab m3
  entries : ∀ k, k < h.numRels.toNat → EntryOk host (SectionedFixed h tab.num es mode secs p) mod tab
    (decide (tab.num > 0)) image.relocSource m3
    (Patch.applyAll (relocPatches ans mod tab (decide (tab.num > 0)) image.relocSource m3 0 k) m3) k
    (ans k)
  mem : m' = Patch.applyAll (relocPatches ans mod tab (decide (tab.num > 0)) image.relocSource m3 0
    h.numRels.toNat) m3
  source : ∀ s ∈ sectionedSource image h tab.num es, AgreeOn s m3 m'

/-- A sectioned module behind a load from `w` to `w'`. -/
structure SectionedLoaded (host : Host) (image : Image) (mode : LoadMode) (tab : SectView) (h : Header)
    (es : Nat → SectEntry) (loadAddr : Addr) (mainAlign ramSize : UInt32) (w w' : State) (p : Addr)
    (secs : Nat → Addr) (names : Nat → Option (List UInt8)) : Prop where
  aligned : p &&& (mainAlign - 1) = 0
  ne_zero : 3 < tab.num → p ≠ 0
  granted : SecsOk es secs (tab.num - 3) 3
  room : TaggedRoom es secs tab.num ⟨p, exactRamSections h tab.num es mode⟩
  clear : SectionedClear image h tab.num es mode secs p
  placed : SectionedAt h es mode secs p w'.handle tab w'.mem
  pHeader : w'.handle.pHeader = if mode = .copyAll then metadataAddr h tab.num p else image.pHeader
  source : ∀ s ∈ sectionedSource image h tab.num es, AgreeOn s w.mem w'.mem
  copied : mode = .copyAll → ∀ i, i < exactCodeOffset h →
    w'.mem (metadataAddr h tab.num p + UInt32.ofNat i) = w.mem (image.pHeader + UInt32.ofNat i)
  walk : ∃ mod ans m3, SectionedWords host image mode tab h es p secs mod ans m3 w'.mem ∧
    w'.handle = { mod with numNamedSyms := w'.handle.numNamedSyms }
  writes : ∀ evs, w.Extends w' evs → ∀ s, Event.write s ∈ evs →
    s ⊆ ⟨p, exactRamSections h tab.num es mode⟩ ∨
      ∃ j, 3 ≤ j ∧ j < tab.num ∧ (es j).size ≠ 0 ∧ s ⊆ ⟨secs j, (es j).size.toNat⟩
  callbacks : ∃ hs, OnlyResolves hs ∧ ∀ evs, w.Extends w' evs →
    hostEvents evs = mainHost mainAlign ramSize loadAddr p ++
      (taggedHost es secs names (tab.num - 3) 3 ++ hs)

/-- The module with its payloads in place, before the relocations, from `w2` to `w3`. -/
structure SectionedPlaced (image : Image) (mode : LoadMode) (tab : SectView) (h : Header)
    (es : Nat → SectEntry) (p : Addr) (secs : Nat → Addr) (names : Nat → Option (List UInt8))
    (w2 w3 : State) : Prop where
  granted : SecsOk es secs (tab.num - 3) 3
  room : TaggedRoom es secs tab.num ⟨p, exactRamSections h tab.num es mode⟩
  clear : SectionedClear image h tab.num es mode secs p
  header : decodeHeader w3.mem image.pHeader = h
  placed : SectionedAt h es mode secs p w3.handle tab w3.mem
  pHeader : w3.handle.pHeader =
    if mode = .copyAll then metadataAddr h tab.num p else image.pHeader
  source : ∀ s ∈ sectionedSource image h tab.num es, AgreeOn s w2.mem w3.mem
  did : Did w2 w3 (Blit.applyAll (placeBlits image h tab.num es mode p secs))
    ((placeBlits image h tab.num es mode p secs).map Blit.span)
    (taggedHost es secs names (tab.num - 3) 3)

section

variable {host : Host} {image : Image} {loadAddr : Addr} {loadSize : UInt32} {mode : LoadMode}
  {w w' : State} {tab : SectView} {ramSize : UInt32} {ramAddr : Addr} {w1 w2 w3 w4 : State}
  {h : Header} {es : Nat → SectEntry}

theorem table_of_stages
    (hs : LoadStages host image loadAddr loadSize mode w w' tab ramSize ramAddr w1 w2 w3 w4)
    (hh : decodeHeader w.mem image.pHeader = h) (hf : SectionedFits h tab.num es mode) :
    tab = sectView image.pHeader h := by
  cases getSectab_ok hs.sectab with
  | inl hx =>
    rw [hh, hf.table.sectioned] at hx
    exact absurd hx.1 (by decide)
  | inr hx =>
    rw [hh] at hx
    exact hx.1

theorem ramSize_of_stages
    (hs : LoadStages host image loadAddr loadSize mode w w' tab ramSize ramAddr w1 w2 w3 w4)
    (hh : decodeHeader w.mem image.pHeader = h) (hes : entriesAt w.mem tab.pEntries = es)
    (hf : SectionedFits h tab.num es mode) :
    ramSize.toNat = exactRamSections h tab.num es mode := by
  have hnum := hf.main
  rw [hs.caps.ram, hh, hes, exactRam, if_pos (by omega), toNat_ofNat_of_lt hf.ram]

/-- The payloads go where the host granted room, clear of the image and of each other. -/
theorem sectionedPlaced_of_run {w2 w3 : State} {e2 : List (Event HostEvent)} {p : Addr}
    (htab : tab = sectView image.pHeader h) (hf : SectionedFits h tab.num es mode)
    (hh : decodeHeader w2.mem image.pHeader = h)
    (hes : ∀ i, i < tab.num → entriesAt w2.mem tab.pEntries i = es i) (hram : w2.handle.pRam = p)
    (hpheader : w2.handle.pHeader = image.pHeader) (hmode : w2.handle.mode = mode)
    (hblock : ∀ t ∈ sectionedSource image h tab.num es,
      t.Disjoint ⟨p, exactRamSections h tab.num es mode⟩) (he2 : w2.Extends w3 e2)
    (hgrant : ∀ s ∈ (hostEvents e2).filterMap grantedSpan,
      s.Disjoint ⟨p, exactRamSections h tab.num es mode⟩)
    (hpair : ((hostEvents e2).filterMap grantedSpan).Pairwise Span.Disjoint)
    (hclearGr : ∀ t ∈ sectionedSource image h tab.num es,
      ∀ s ∈ (hostEvents e2).filterMap grantedSpan, t.Disjoint s)
    (hrun : (placeImage host image tab mode p).run w2 = (.ok (), w3)) :
    ∃ secs names, SectionedPlaced image mode tab h es p secs names w2 w3 := by
  have hnum := hf.main
  rw [placeImage, Prog.run_lift_bind, readHeader_run, hh] at hrun
  dsimp only at hrun
  rw [if_pos (by omega), pTemp8_eq] at hrun
  have hgranted : Granted image h ⟨p, exactRamSections h tab.num es mode⟩
      (w2.log (readEvents ((readHeader image.pHeader).reads w2.mem))) w3 := by
    intro evs he s hsp
    have hsame := he2.unique ((World.extends_log _ _).trans he)
    have hin : s ∈ (hostEvents e2).filterMap grantedSpan := by
      rw [hsame, hostEvents_append, hostEvents_readEvents, List.nil_append]
      exact hsp
    exact ⟨hclearGr _ (by simp [sectionedSource]) s hin, hgrant s hin⟩
  obtain ⟨secs, names, hok, hhandle, hdid⟩ := placeSectioned_ok
    (w := w2.log (readEvents ((readHeader image.pHeader).reads w2.mem))) htab hf hh hes hram
    hpheader (hblock _ (by simp [sectionedSource])) hgranted hrun
  rw [World.log_handle] at hhandle
  have hdid' := Did.of_log hdid
  rw [(hdid'.of_extends he2).1, taggedHost_granted hok] at hgrant hpair hclearGr
  have hroom : TaggedRoom es secs tab.num ⟨p, exactRamSections h tab.num es mode⟩ :=
    ⟨fun i j hi hij hj hni hnj => taggedSpans_pairwise hpair hi hij (by omega) hni hnj,
      fun j hj hj' hne => hgrant _ (mem_taggedSpans hj (by omega) hne)⟩
  have hclear : SectionedClear image h tab.num es mode secs p :=
    ⟨hblock, fun s hs j hj hj' hne => hclearGr s hs _ (mem_taggedSpans hj (by omega) hne)⟩
  obtain ⟨hhdr, hat⟩ := placed_sectionedAt hf htab hroom hclear hh hes hpheader hram hmode
  rw [← hhandle, ← hdid'.mem] at hat
  rw [← hdid'.mem] at hhdr
  refine ⟨secs, names, hok, hroom, hclear, hhdr, hat, ?_, fun s hs a ha => ?_, hdid'⟩
  · rw [hhandle, placedHandle]
    split
    · rfl
    · exact hpheader
  · refine (hdid'.notMem fun t ht => ?_).symm
    obtain ⟨b, hb, rfl⟩ := List.mem_map.mp ht
    exact placeBlits_clear hf hclear hs hb ha

/-- Before the relocations, a slot an entry names is one of a section held in RAM. -/
theorem SectionedAt.relocSpans_slotAt {mod : Module} {p : Addr} {secs : Nat → Addr} {m m3 : Mem}
    (hat : SectionedAt h es mode secs p mod tab m3) (hf : SectionedFits h tab.num es mode)
    (htab : tab = sectView image.pHeader h) (hp : 3 < tab.num → p ≠ 0)
    (hcont : RelocsContained image tab mode m) (hh : decodeHeader m image.pHeader = h)
    (hes : entriesAt m tab.pEntries = es) (hh3 : decodeHeader m3 image.pHeader = h)
    (hsame : ∀ s ∈ sectionedSource image h tab.num es, AgreeOn s m m3) {k : Nat}
    (hk : k < h.numRels.toNat) (hne : relocSlot mod tab image.relocSource m3 k ≠ 0) {s : Span}
    (hs : s ∈ relocSpans mod tab image.relocSource m3 k) :
    SlotAt h tab.num es mode secs p s.base ∧ s = ⟨s.base, 4⟩ := by
  have hP := placeIn_meta htab hf
  have hmeta : ∀ a, a ∈ metaSpan image h → m a = m3 a := hsame _ (by simp [sectionedSource])
  have hsub := relocSpans_sub hs
  obtain ⟨hrel, hwrites⟩ := entryWrites_congr hh hh3 hsame hk
  have hc := hcont k (by rw [hh]; exact hk) (by rw [← hwrites]; exact relocSpans_writes hs)
  rw [hh, hes, ← (within_sectFindByVa hP.view _ m).congr hmeta, ← hrel] at hc
  rw [hsub]
  exact ⟨hat.slotAt hf hp hc hne, rfl⟩

/-- The relocations of a placed module write slots, and only slots. -/
theorem SectionedAt.relocated {p : Addr} {secs : Nat → Addr}
    (hat : SectionedAt h es mode secs p w3.handle tab w3.mem)
    (hf : SectionedFits h tab.num es mode) (htab : tab = sectView image.pHeader h)
    (hroom : TaggedRoom es secs tab.num ⟨p, exactRamSections h tab.num es mode⟩)
    (hclear : SectionedClear image h tab.num es mode secs p) (hp : 3 < tab.num → p ≠ 0)
    (hpheader : w3.handle.pHeader =
      if mode = .copyAll then metadataAddr h tab.num p else image.pHeader)
    (hcont : RelocsContained image tab mode w.mem) (hh : decodeHeader w.mem image.pHeader = h)
    (hes : entriesAt w.mem tab.pEntries = es) (hh3 : decodeHeader w3.mem image.pHeader = h)
    (hsame : ∀ s ∈ sectionedSource image h tab.num es, AgreeOn s w.mem w3.mem)
    (hrun : (udynlinkLoadApplyRelocations host image.pHeader image.pRelocations image.pSymtab).run
      w3 = (.ok (), w4)) :
    w4.handle = w3.handle ∧ ∃ ans rs, OnlyResolves rs ∧
      Did w3 w4 (Patch.applyAll (relocPatches ans w3.handle tab (decide (tab.num > 0))
          image.relocSource w3.mem 0 h.numRels.toNat))
        ((List.range' 0 h.numRels.toNat).flatMap
          (relocSpans w3.handle tab image.relocSource w3.mem)) rs ∧
      (∀ k, k < h.numRels.toNat → EntryOk host (SectionedFixed h tab.num es mode secs p) w3.handle
        tab (decide (tab.num > 0)) image.relocSource w3.mem
        (Patch.applyAll (relocPatches ans w3.handle tab (decide (tab.num > 0)) image.relocSource
          w3.mem 0 k) w3.mem) k (ans k)) ∧
      ∀ s ∈ (List.range' 0 h.numRels.toNat).flatMap
          (relocSpans w3.handle tab image.relocSource w3.mem),
        SlotAt h tab.num es mode secs p s.base ∧ s = ⟨s.base, 4⟩ := by
  have hnum := hf.main
  have hP := placeIn_meta htab hf
  have hmeta : ∀ a, a ∈ metaSpan image h → w.mem a = w3.mem a :=
    hsame _ (by simp [sectionedSource])
  have htab3 : (getSectab image.pHeader false).run w3.mem = (.ok (), tab) := by
    have ht3 : TableOk h tab.num (entriesAt w3.mem tab.pEntries) :=
      hf.table.congr hnum fun i hi => (hP.entry_run hmeta hi).trans (congrFun hes i)
    rw [htab] at ht3 ⊢
    exact getSectab_of_table hh3 ht3
  obtain ⟨cs, hloop⟩ := loadApplyRelocations_ok image.relocSource htab3 hrun
  have hnumRels : decodeHeader w3.mem image.relocSource.pHeader = h := hh3
  rw [hnumRels] at hloop
  have hslot : ∀ k, k < h.numRels.toNat →
      relocSlot w3.handle tab image.relocSource w3.mem k ≠ 0 →
      ∀ s ∈ relocSpans w3.handle tab image.relocSource w3.mem k,
        SlotAt h tab.num es mode secs p s.base ∧ s = ⟨s.base, 4⟩ := fun k hk hne s hsp =>
    hat.relocSpans_slotAt hf htab hp hcont hh hes hh3 hsame hk hne hsp
  have hclearWalk : ∀ k, k < h.numRels.toNat →
      relocSlot w3.handle tab image.relocSource w3.mem k ≠ 0 →
      ∀ s ∈ relocSpans w3.handle tab image.relocSource w3.mem k,
        ∀ a, SectionedFixed h tab.num es mode secs p a → a ∉ s := by
    intro k hk hne s hsp a ha
    obtain ⟨hsa, hspan⟩ := hslot k hk hne s hsp
    rw [hspan]
    exact hsa.clear hf hroom ha
  have hsec : decide (tab.num > 0) = false → tab.num = 0 := fun hd => by
    have hpos := of_decide_eq_false hd
    omega
  obtain ⟨hhandle, ans, rs, hres, hdid, hall⟩ := applyRelocationsLoop_ok
    (w := w3.log (readEvents cs)) (hat.walkIn hf htab hh3 hclear hpheader) h.numRels.toNat_lt hsec
    hclearWalk (Nat.le_of_eq (Nat.zero_add _)) rfl (fun a _ => rfl) hloop
  have hentry : ∀ k, k < h.numRels.toNat → EntryOk host (SectionedFixed h tab.num es mode secs p)
      w3.handle tab (decide (tab.num > 0)) image.relocSource w3.mem
      (Patch.applyAll (relocPatches ans w3.handle tab (decide (tab.num > 0)) image.relocSource
        w3.mem 0 k) w3.mem) k (ans k) := by
    intro k hk
    have hentry := hall k hk
    rw [Nat.zero_add] at hentry
    exact hentry
  refine ⟨hhandle, ans, rs, hres, Did.of_log hdid, hentry, fun s hsp => ?_⟩
  obtain ⟨k, hk, hsp⟩ := List.mem_flatMap.mp hsp
  have hlt : k < h.numRels.toNat := by
    have := (List.mem_range'_1.mp hk).2
    omega
  exact hslot k hlt (hentry k hlt).ok.slot_ne s hsp

theorem sectioned_of_stages
    (hs : LoadStages host image loadAddr loadSize mode w w' tab ramSize ramAddr w1 w2 w3 w4)
    (hh : decodeHeader w.mem image.pHeader = h) (hes : entriesAt w.mem tab.pEntries = es)
    (hf : SectionedFits h tab.num es mode) (hcont : RelocsContained image tab mode w.mem)
    (hfair : ∀ evs, w.Extends w' evs →
      FairBlocks (sectionedSource image h tab.num es) loadAddr loadSize (hostEvents evs)) :
    ∃ secs names, SectionedLoaded host image mode tab h es loadAddr ((getMainAlign tab).run w.mem)
      ramSize w w' ramAddr secs names := by
  have htab := table_of_stages hs hh hf
  have hsize := ramSize_of_stages hs hh hes hf
  have hnum := hf.main
  have hP := placeIn_meta htab hf
  -- the callbacks, with what the stages add to the main request
  obtain ⟨e2, he2⟩ := Prog.extends_of_run hs.place
  obtain ⟨e3, he3⟩ := Prog.extends_of_run hs.relocate
  obtain ⟨as, hw1⟩ := hs.checked
  obtain ⟨bs, hw'⟩ := hs.finished
  obtain ⟨hblock, hhandle2, hdid2⟩ := provisionRam_ok hs.provision
  have hstart1 : w.Extends w1 (readEvents as) := hw1 ▸ ⟨rfl, fun _ _ => rfl⟩
  have hend : w4.Extends w' (readEvents bs) := hw' ▸ ⟨rfl, fun _ _ => rfl⟩
  obtain ⟨e1, he1, hh1, hwr1⟩ := hdid2.events
  have hev := hstart1.trans (he1.trans (he2.trans (he3.trans hend)))
  have hcall := hs.callbacks hev he2 he3
  have hfr := hfair _ hev
  rw [hcall] at hfr
  obtain ⟨hsrcBlock, hgrBlock⟩ := hfr.block hblock
  obtain ⟨hgrPair, hsrcGr⟩ := hfr.granted
  rw [hsize] at hsrcBlock hgrBlock
  rw [List.filterMap_append] at hgrBlock hgrPair hsrcGr
  -- the block
  have hmem1 : w1.mem = w.mem := by rw [hw1, World.log_mem]
  have hhandle1 : w1.handle = startHandle image mode w.handle := by rw [hw1, World.log_handle]
  rw [hmem1, hh] at hdid2
  rw [hhandle1] at hhandle2
  have hsame2 : ∀ s ∈ sectionedSource image h tab.num es, AgreeOn s w.mem w2.mem := by
    intro s hs a ha
    rw [← hmem1]
    refine (hdid2.notMem fun t ht => ?_).symm
    obtain ⟨b, hb, rfl⟩ := List.mem_map.mp ht
    exact (hsrcBlock s hs).mono (Span.subset_refl s) (baseBlits_subset hf hb) a ha
  have hmeta2 : ∀ a, a ∈ metaSpan image h → w.mem a = w2.mem a :=
    hsame2 _ (by simp [sectionedSource])
  have hhdr2 : decodeHeader w2.mem image.pHeader = h := (hP.header_run hmeta2).trans hh
  have hes2 : ∀ i, i < tab.num → entriesAt w2.mem tab.pEntries i = es i := fun i hi =>
    (hP.entry_run hmeta2 hi).trans (congrFun hes i)
  have hpram2 : w2.handle.pRam = ramAddr := by
    rw [hhandle2, provisionHandle_pRam hblock.empty]
  have hpheader2 : w2.handle.pHeader = image.pHeader := by
    rw [hhandle2, provisionHandle_pHeader]
    rfl
  have hmode2 : w2.handle.mode = mode := by
    rw [hhandle2, provisionHandle_mode, startHandle, Module.mode_setMode]
  -- the payloads
  obtain ⟨hgrPlace, -⟩ := List.forall_mem_append.mp hgrBlock
  obtain ⟨secs, names, hp⟩ := sectionedPlaced_of_run htab hf hhdr2 hes2 hpram2 hpheader2 hmode2
    hsrcBlock he2 hgrPlace (List.pairwise_append.mp hgrPair).1
    (fun t ht s hs => hsrcGr t ht s (List.mem_append_left _ hs)) hs.place
  obtain ⟨hev2, hwr2⟩ := hp.did.of_extends he2
  have hsame3 : ∀ s ∈ sectionedSource image h tab.num es, AgreeOn s w.mem w3.mem :=
    fun s hs a ha => (hsame2 s hs a ha).trans (hp.source s hs a ha)
  -- the relocations
  have hramNe : 3 < tab.num → ramAddr ≠ 0 := fun h3 => by
    have hstart := hf.start_le_ram
    have hbases := bases_le_start h tab.num mode
    refine hblock.ne_zero fun hz => ?_
    rw [hz] at hsize
    have hz0 : (0 : UInt32).toNat = 0 := rfl
    omega
  obtain ⟨hhandle4, ans, rs, hres, hdid4, hall, hspans4⟩ := hp.placed.relocated hf htab hp.room
    hp.clear hramNe hp.pHeader hcont hh hes hp.header hsame3 hs.relocate
  have hfixed4 : ∀ a, SectionedFixed h tab.num es mode secs ramAddr a → w3.mem a = w4.mem a :=
    fun a ha => (hdid4.notMem fun s hsp => by
      obtain ⟨hsa, hspan⟩ := hspans4 s hsp
      rw [hspan]
      exact hsa.clear hf hp.room ha).symm
  have hat4 := hp.placed.transfer
    (hp.placed.walkIn hf htab hp.header hp.clear hp.pHeader) (by omega) hfixed4
  have hmem' : w'.mem = w4.mem := by
    rw [hw']
    rfl
  have hhandle' : w'.handle = { w3.handle with
      numNamedSyms := (computeNumNamedSyms w3.handle.pHeader).run w4.mem } := by
    rw [hw', World.log_handle, hhandle4]
  have hsource : ∀ s ∈ sectionedSource image h tab.num es, AgreeOn s w3.mem w4.mem :=
    fun s hsrc a ha => hfixed4 a (hp.clear.covers hsrc a ha)
  refine ⟨secs, names, hblock.aligned, hramNe, hp.granted, hp.room, hp.clear, ?_, ?_,
    fun s hsrc a ha => ?_, fun hm i hi => ?_, ?_, fun evs he s hsp => ?_, rs, hres,
    fun evs he => ?_⟩
  · rw [hmem', hhandle']
    exact ⟨hat4.pRam, hat4.mode, hat4.header, hat4.entries, hat4.bases⟩
  · rw [hhandle']
    exact hp.pHeader
  · rw [hmem']
    exact (hsame3 s hsrc a ha).trans (hsource s hsrc a ha)
  · have hlt := hf.table.exactCodeOffset_lt
    have hfix : Covers (SectionedFixed h tab.num es mode secs ramAddr)
        ⟨metadataAddr h tab.num ramAddr, exactCodeOffset h⟩ :=
      fixed_block hf (by omega) (by rw [exactStart, if_pos hm])
    have hpw := placeBlits_pairwise image hf hp.room
    rw [hmem', ← hfixed4 _ (hfix _ (off_mem hi (by omega))), hp.did.mem,
      hmeta2 _ (off_mem hi (by omega))]
    exact copied_metadata hf hm hpw w2.mem hi
  · refine ⟨w3.handle, ans, w3.mem, ⟨hp.placed, hall, ?_, ?_⟩, ?_⟩
    · rw [hmem', hdid4.mem]
    · rw [hmem']
      exact hsource
    · rw [hhandle']
  · rw [he.unique hev, List.mem_append, List.mem_append, List.mem_append, List.mem_append] at hsp
    rcases hsp with hsp | hsp | hsp | hsp | hsp
    · exact absurd hsp Did.readEvent_not_write
    · obtain ⟨b, hb, rfl⟩ := List.mem_map.mp ((hdid2.of_extends he1).2 s hsp)
      exact Or.inl (baseBlits_subset hf hb)
    · obtain ⟨b, hb, rfl⟩ := List.mem_map.mp (hwr2 s hsp)
      exact placeBlits_subset hf hb
    · obtain ⟨hsa, hspan⟩ := hspans4 s ((hdid4.of_extends he3).2 s hsp)
      rw [hspan]
      exact hsa.subset hf
    · exact absurd hsp Did.readEvent_not_write
  · rw [he.unique hev, hcall, hev2, (hdid4.of_extends he3).1]

end

end Udynlink
