import Udynlink.LoadSectioned
import Udynlink.UntaggedLoad

/-!
# Where a load writes

With blocks that overlap neither each other nor the image, every write of a load
stays in the main block and in the sections' own blocks as soon as the block
size has not wrapped, a table has its three main entries and the words that the
relocations name are words a section holds in RAM.
-/

namespace Udynlink

open Machine

section

variable {host : Host} {image : Image} {loadAddr : Addr} {loadSize : UInt32} {mode : LoadMode}
  {w w' : State} {tab : SectView} {ramSize : UInt32} {ramAddr : Addr} {w1 w2 w3 w4 : State}

namespace UntaggedImage

variable {u : UntaggedImage} {ans : Nat → UInt32} {rs : List HostEvent}

theorem placedBlits_subset {p : Addr} (hf : UntaggedFits u.header u.mode) {b : Blit}
    (hb : b ∈ placedBlits u.image u.header u.mode p) :
    b.span ⊆ ⟨p, exactRamUntagged u.header u.mode⟩ := by
  have hram := hf.ram
  have hlaid := (copyUntaggedBlits_laid u.image p hf).append (bssBlits_laid (p := p))
  exact hlaid.subset (by omega) hb

/-- Payloads and relocated words of an untagged module are in its block. -/
theorem Walked.writes (hf : UntaggedFits u.header u.mode)
    (hc : SourceClear u.image u.header u.mode ramAddr) (ht : tab.num = 0) {mod : Module}
    (hp : u.PlacedHandle ramAddr mod)
    (hw : u.Walked host mod tab ramAddr w2 w3 w4 ans rs) {e2 e3 : List (Event HostEvent)}
    (he2 : w2.Extends w3 e2) (he3 : w3.Extends w4 e3) {s : Span}
    (hs : Event.write s ∈ e2 ++ e3) : s ⊆ ⟨ramAddr, exactRamUntagged u.header u.mode⟩ := by
  have hram := hf.ram
  cases List.mem_append.mp hs with
  | inl hs =>
    obtain ⟨b, hb, rfl⟩ := List.mem_map.mp ((hw.placed.of_extends he2).2 s hs)
    exact placedBlits_subset hf hb
  | inr hs =>
    obtain ⟨k, hk, hsp⟩ := List.mem_flatMap.mp ((hw.patched.of_extends he3).2 s hs)
    have hlt : k < u.header.numRels.toNat := by
      have := (List.mem_range'_1.mp hk).2
      omega
    obtain ⟨hr, hslot⟩ := placed_slot hf hc hp ht hlt (hw.entries k hlt).ok.slot_ne
    have hrange := untaggedSlotOff_range u.mode hr
    have heq := exactRamUntagged_eq u.header u.mode
    have hlot := lot_le_codeOff u.header u.mode
    have hoff := codeOff_le_dataOff u.header u.mode
    rw [relocSpans_sub hsp, hslot, slot]
    exact off_subset (by omega) (by omega)

end UntaggedImage

/-! ## The image -/

/-- The view an image declares. -/
def imageView (image : Image) (m : Mem) : SectView := ((getSectab image.pHeader true).run m).2

/-- Every byte the image consists of. -/
def imageSource (image : Image) (m : Mem) : List Span :=
  if (imageView image m).num = 0 then untaggedSource image (decodeHeader m image.pHeader)
  else sectionedSource image (decodeHeader m image.pHeader) (imageView image m).num
    (entriesAt m (imageView image m).pEntries)

/-- RAM requirement of the main block, over unbounded integers. -/
def imageRam (image : Image) (mode : LoadMode) (m : Mem) : Nat :=
  exactRam (decodeHeader m image.pHeader) (imageView image m).num
    (entriesAt m (imageView image m).pEntries) mode

/-- The size has not wrapped, the main sections are there, and every word a
relocation stores is one a section holds in RAM. -/
structure LoadContained (image : Image) (mode : LoadMode) (m : Mem) : Prop where
  ram : imageRam image mode m < 2 ^ 32
  main : (imageView image m).num ≠ 0 → 3 ≤ (imageView image m).num
  relocs : (imageView image m).num ≠ 0 → RelocsContained image (imageView image m) mode m

/-- A span of the main block as the loader sizes it, or of the block of a tagged
section. -/
def InModule (image : Image) (mode : LoadMode) (m : Mem) (mod : Module) (hs : List HostEvent)
    (s : Span) : Prop :=
  s ⊆ ⟨mod.pRam, ((getLoadRamSize image.pHeader (imageView image m) mode).run m).toNat⟩ ∨
    ∃ j name q, 3 ≤ j ∧ j < (imageView image m).num ∧
      HostEvent.malloc (entriesAt m (imageView image m).pEntries j).size
        ⟨name, (entriesAt m (imageView image m).pEntries j).align,
          sectHostFlags (entriesAt m (imageView image m).pEntries j)⟩ q ∈ hs ∧
      s ⊆ ⟨q, (entriesAt m (imageView image m).pEntries j).size.toNat⟩

/-- No write of the run leaves the module, and none goes into the image. -/
def WritesInside (image : Image) (mode : LoadMode) (m : Mem) (mod : Module)
    (evs : List (Event HostEvent)) : Prop :=
  ∀ s, Event.write s ∈ evs →
    InModule image mode m mod (hostEvents evs) s ∧ ∀ t ∈ imageSource image m, t.Disjoint s

theorem mem_taggedHost {es : Nat → SectEntry} {secs : Nat → Addr}
    {names : Nat → Option (List UInt8)} {n k j : Nat} (hj : k ≤ j) (hj' : j < k + n)
    (hne : (es j).size ≠ 0) :
    HostEvent.malloc (es j).size ⟨names j, (es j).align, sectHostFlags (es j)⟩ (secs j) ∈
      taggedHost es secs names n k := by
  induction n generalizing k with
  | zero => exact absurd hj' (by omega)
  | succ n ih =>
    rw [taggedHost]
    split
    next hsz =>
      refine ih ?_ (by omega)
      cases Nat.eq_or_lt_of_le hj with
      | inl he => exact absurd (he ▸ hsz) hne
      | inr hlt => exact hlt
    next =>
      cases Nat.eq_or_lt_of_le hj with
      | inl he =>
        rw [he]
        exact List.mem_cons_self
      | inr hlt => exact List.mem_cons_of_mem _ (ih hlt (by omega))

theorem imageView_of_sectab (h : (getSectab image.pHeader true).run w.mem = (.ok (), tab)) :
    imageView image w.mem = tab := by rw [imageView, h]

theorem loadRamSize_toNat (hst : (getSectab image.pHeader true).run w.mem = (.ok (), tab))
    (hram : imageRam image mode w.mem < 2 ^ 32) :
    ((getLoadRamSize image.pHeader tab mode).run w.mem).toNat = imageRam image mode w.mem := by
  rw [getLoadRamSize_run fun hz => (view_untagged hst).mp hz]
  rw [imageRam, imageView_of_sectab hst] at hram ⊢
  exact toNat_ofNat_of_lt hram

theorem untagged_writes_inside
    (hs : LoadStages host image loadAddr loadSize mode w w' tab ramSize ramAddr w1 w2 w3 w4)
    (ht : tab.num = 0) (hram : imageRam image mode w.mem < 2 ^ 32) {evs : List (Event HostEvent)}
    (he : w.Extends w' evs)
    (hfair : FairBlocks (imageSource image w.mem) loadAddr loadSize (hostEvents evs)) :
    WritesInside image mode w.mem w'.handle evs := by
  have hview := imageView_of_sectab hs.sectab
  have hsize := loadRamSize_toNat hs.sectab hram
  let u : UntaggedImage := ⟨image, w.mem, mode, fun _ => 0⟩
  have hexact : imageRam image mode w.mem = exactRamUntagged u.header u.mode := by
    rw [imageRam, hview, exactRam, if_neg (by omega)]
    rfl
  rw [hexact] at hram hsize
  obtain ⟨hblock, -, hdid2⟩ := provisionRam_ok hs.provision
  obtain ⟨e2, he2⟩ := Prog.extends_of_run hs.place
  obtain ⟨e3, he3⟩ := Prog.extends_of_run hs.relocate
  rw [imageSource, hview, if_pos ht] at hfair
  obtain ⟨hf, hc, -⟩ := UntaggedImage.fits_of_stages (u := u) hs rfl ht hram he hfair
  obtain ⟨ans, rs, hw⟩ := UntaggedImage.walked_of_stages (u := u) hs rfl hf hc
  have hp : u.PlacedHandle ramAddr (u.loadedHandle ramSize loadAddr ramAddr w.handle) :=
    UntaggedImage.loadedHandle_placed hblock.empty
  obtain ⟨as, hw1⟩ := hs.checked
  obtain ⟨bs, hw'⟩ := hs.finished
  obtain ⟨e1, he1, -, hwr1⟩ := hdid2.events
  have hstart1 : w.Extends w1 (readEvents as) := hw1 ▸ ⟨rfl, fun _ _ => rfl⟩
  have hend : w4.Extends w' (readEvents bs) := hw' ▸ ⟨rfl, fun _ _ => rfl⟩
  have hpram : w'.handle.pRam = ramAddr := by
    rw [hw', World.log_handle, hw.handle]
    exact hp.pRam
  intro s hsp
  rw [he.unique (hstart1.trans (he1.trans (he2.trans (he3.trans hend))))] at hsp
  have hin : s ⊆ ⟨ramAddr, exactRamUntagged u.header u.mode⟩ := by
    rw [List.mem_append, List.mem_append, ← List.append_assoc, List.mem_append] at hsp
    rcases hsp with hsp | hsp | hsp | hsp
    · exact absurd hsp Did.readEvent_not_write
    · have hnone := hwr1 s hsp
      rw [baseBlits, if_pos (Or.inr ht)] at hnone
      exact absurd hnone List.not_mem_nil
    · exact hw.writes hf hc ht hp he2 he3 hsp
    · exact absurd hsp Did.readEvent_not_write
  refine ⟨Or.inl ?_, fun t hsrc => ?_⟩
  · rw [hview, hsize, hpram]
    exact hin
  · rw [imageSource, hview, if_pos ht] at hsrc
    exact (hc t hsrc).mono (Span.subset_refl t) hin

theorem sectioned_writes_inside
    (hs : LoadStages host image loadAddr loadSize mode w w' tab ramSize ramAddr w1 w2 w3 w4)
    (ht : tab.num ≠ 0) (hcont : LoadContained image mode w.mem) {evs : List (Event HostEvent)}
    (he : w.Extends w' evs)
    (hfair : FairBlocks (imageSource image w.mem) loadAddr loadSize (hostEvents evs)) :
    WritesInside image mode w.mem w'.handle evs := by
  have hview := imageView_of_sectab hs.sectab
  have hsize := loadRamSize_toNat hs.sectab hcont.ram
  have hram := hcont.ram
  have hmain := hcont.main
  have hrel := hcont.relocs
  rw [hview] at hmain hrel
  rw [imageRam, hview, exactRam, if_pos (by omega)] at hram hsize
  have htable : TableOk (decodeHeader w.mem image.pHeader) tab.num
      (entriesAt w.mem tab.pEntries) := by
    cases getSectab_ok hs.sectab with
    | inl hx =>
      rw [hx.2] at ht
      exact absurd rfl ht
    | inr hx => exact hx.2.1
  have hf : SectionedFits (decodeHeader w.mem image.pHeader) tab.num
      (entriesAt w.mem tab.pEntries) mode := ⟨htable, hmain ht, hram⟩
  rw [imageSource, hview, if_neg ht] at hfair
  obtain ⟨secs, names, hl⟩ := sectioned_of_stages hs rfl rfl hf (hrel ht)
    fun evs' he' => he'.unique he ▸ hfair
  obtain ⟨rs, -, hcall⟩ := hl.callbacks
  intro s hsp
  have hin := hl.writes evs he s hsp
  refine ⟨?_, fun t hsrc => ?_⟩
  · rw [InModule, hview, hsize, hl.placed.pRam]
    cases hin with
    | inl hin => exact Or.inl hin
    | inr hin =>
      obtain ⟨j, hj, hj', hne, hsub⟩ := hin
      refine Or.inr ⟨j, names j, secs j, hj, hj', ?_, hsub⟩
      rw [hcall evs he]
      exact List.mem_append_right _ (List.mem_append_left _ (mem_taggedHost hj (by omega) hne))
  · rw [imageSource, hview, if_neg ht] at hsrc
    cases hin with
    | inl hin => exact (hl.clear.block t hsrc).mono (Span.subset_refl t) hin
    | inr hin =>
      obtain ⟨j, hj, hj', hne, hsub⟩ := hin
      exact (hl.clear.tagged t hsrc j hj hj' hne).mono (Span.subset_refl t) hsub

/-- A load whose words are all held in RAM writes into its own blocks only. -/
theorem load_writes_inside
    (hload : (udynlinkLoadModuleImage host image loadAddr loadSize mode).run w = (.ok (), w'))
    (hcont : LoadContained image mode w.mem) {evs : List (Event HostEvent)}
    (he : w.Extends w' evs)
    (hfair : FairBlocks (imageSource image w.mem) loadAddr loadSize (hostEvents evs)) :
    WritesInside image mode w.mem w'.handle evs := by
  obtain ⟨tab, ramSize, ramAddr, w1, w2, w3, w4, hs⟩ := loadStages_of_ok hload
  by_cases ht : tab.num = 0
  · exact untagged_writes_inside hs ht hcont.ram he hfair
  · exact sectioned_writes_inside hs ht hcont he hfair

end

/-! ## A module with a section of its own -/

/-- One word in each section; the word of `.data` is the VA of section `x`. -/
def ownSectionRom : Mem := .ofWords 0x1000
  [0x4D4C4455, 0x03010000, 0x00010000, 0x00090001, 8, 4, 4, 4, 1, 0x80000000, 0, 0x78,
    0, 0, 4, 4, 0, 0x80000000, 0, 4, 4, 4, 1, 0x80000000, 0, 8, 4, 4, 2, 0x80000000,
    4, 12, 4, 4, 1, 0, 0x47704770, 12, 0xAABBCCDD]

def ownSectionImage : Image := ⟨0x1000, 0x1020, 0x1028, 0x1090, 0x1094⟩

def ownSectionHost : Host := .bump 0x20000000 fun _ => 0

def ownSectionLoaded : State :=
  ((udynlinkLoadModuleImage ownSectionHost ownSectionImage 0 0 .copyTextData).run
    ⟨ownSectionRom, Module.free, []⟩).2

theorem ownSection_contained : LoadContained ownSectionImage .copyTextData ownSectionRom := by
  refine ⟨by decide +kernel, fun _ => by decide +kernel, fun _ i hi _ => ?_⟩
  have hn : (decodeHeader ownSectionRom ownSectionImage.pHeader).numRels.toNat = 1 := by
    decide +kernel
  obtain rfl : i = 0 := by omega
  refine Or.inr fun idx hfound _ => ?_
  have h1 : (sectFindByVa (imageView ownSectionImage ownSectionRom)
      (relocVa (decodeHeader ownSectionRom ownSectionImage.pHeader)
        ((readRelocation ownSectionImage.pRelocations 0).run ownSectionRom).1)).run ownSectionRom =
      some 1 := by decide +kernel
  rw [h1, Option.some.injEq] at hfound
  subst hfound
  exact ⟨by decide, fun _ => by decide +kernel, fun h => absurd h (by decide)⟩

theorem ownSection_table : (imageView ownSectionImage ownSectionRom).num ≠ 0 := by decide +kernel

/-- The answer, the handle and the grants. -/
theorem ownSection_load :
    ((udynlinkLoadModuleImage ownSectionHost ownSectionImage 0 0 .copyTextData).run
        ⟨ownSectionRom, Module.free, []⟩).1 = .ok () ∧
      ownSectionLoaded.handle = ⟨0x1000, 0x20000000, 1, 0, 0⟩ ∧
      loadBlocks 0 0 (hostEvents ownSectionLoaded.trace) =
        [⟨0x20000000, 20⟩, ⟨0x20000014, 4⟩] := by
  decide +kernel

theorem ownSection_loads :
    (udynlinkLoadModuleImage ownSectionHost ownSectionImage 0 0 .copyTextData).run
      ⟨ownSectionRom, Module.free, []⟩ = (.ok (), ownSectionLoaded) :=
  Prod.ext ownSection_load.1 (by rw [ownSectionLoaded])

theorem ownSection_extends : World.Extends ⟨ownSectionRom, Module.free, []⟩ ownSectionLoaded
    ownSectionLoaded.trace := by
  obtain ⟨evs, he⟩ := Prog.extends_of_run ownSection_loads
  have htrace : ownSectionLoaded.trace = evs := he.1
  rwa [htrace]

theorem ownSection_fairBlocks : FairBlocks (imageSource ownSectionImage ownSectionRom) 0 0
    (hostEvents ownSectionLoaded.trace) :=
  fairBlocks_ascending ownSection_load.2.2 (by decide +kernel) (by decide +kernel)

theorem load_writes_inside_ownSection :
    WritesInside ownSectionImage .copyTextData ownSectionRom ownSectionLoaded.handle
      ownSectionLoaded.trace :=
  load_writes_inside (w := ⟨ownSectionRom, Module.free, []⟩) ownSection_loads ownSection_contained
    ownSection_extends ownSection_fairBlocks

/-- An entry for the word of `.text`, which holds the VA of `.text`. -/
def textWordRom : Mem := .ofWords 0x1000
  [0x4D4C4455, 0x03010000, 0, 0x00070001, 4, 4, 0, 0, 0xFFFFFFFF, 0x80000000, 0,
    0, 0, 4, 4, 0, 0x80000000, 0, 4, 0, 4, 1, 0x80000000, 0, 4, 0, 4, 2, 0x80000000, 0]

def textWordImage : Image := ⟨0x1000, 0x1020, 0x1028, 0x1074, 0x1078⟩

def textWordLoaded : State :=
  ((udynlinkLoadModuleImage ownSectionHost textWordImage 0 0 .xip).run
    ⟨textWordRom, Module.free, []⟩).2

/-- Under XIP the loader relocates `.text` where it is, in the image. -/
theorem text_word_written :
    ((udynlinkLoadModuleImage ownSectionHost textWordImage 0 0 .xip).run
        ⟨textWordRom, Module.free, []⟩).1 = .ok () ∧
      FairBlocks (imageSource textWordImage textWordRom) 0 0 (hostEvents textWordLoaded.trace) ∧
      ¬ WritesInside textWordImage .xip textWordRom textWordLoaded.handle textWordLoaded.trace := by
  have hrun : ((udynlinkLoadModuleImage ownSectionHost textWordImage 0 0 .xip).run
      ⟨textWordRom, Module.free, []⟩).1 = .ok () ∧
      loadBlocks 0 0 (hostEvents textWordLoaded.trace) = [] ∧
      Event.write ⟨0x1074, 4⟩ ∈ textWordLoaded.trace := by decide +kernel
  obtain ⟨hok, hblocks, hwrite⟩ := hrun
  have hsrc : (⟨0x1074, 4⟩ : Span) ∈ imageSource textWordImage textWordRom := by decide +kernel
  refine ⟨hok, fairBlocks_ascending hblocks List.Pairwise.nil
    fun _ _ b hb => absurd hb List.not_mem_nil, fun h => ?_⟩
  exact (h _ hwrite).2 _ hsrc 0x1074 (by decide) (by decide)

end Udynlink
