import Udynlink.LoadWrites
import Udynlink.SectionedCalls

/-!
# Where a module stays aligned

A load checks the alignment of every block it is given. A move checks the block
a caller supplies to a sectioned module, and no other: as long as the blocks that
nobody checks are aligned, and no block overlaps what is in use, the module stays
aligned over any number of moves, with its header where the mode puts it.
-/

namespace Udynlink

open Machine

/-- The alignment an image asks for its main block. -/
def imageMainAlign (image : Image) (m : Mem) : UInt32 := (getMainAlign (imageView image m)).run m

/-- The block, every section with contents and the header of a module whose image
was `m` when it was loaded. -/
structure Settled (image : Image) (mode : LoadMode) (m : Mem) (w : State) : Prop where
  word : 4 ≤ (imageMainAlign image m).toNat
  ram : (imageMainAlign image m).toNat ∣ w.handle.pRam.toNat
  sections : ∀ i, i < (imageView image m).num →
    (entriesAt m (imageView image m).pEntries i).size ≠ 0 →
    (entriesAt m (imageView image m).pEntries i).align.toNat ∣
      ((udynlinkGetSectionBase w.handle i).run w.mem).toNat
  header : w.handle.pHeader = if mode = .copyAll then
    w.handle.pRam + UInt32.ofNat (4 * (decodeHeader m image.pHeader).numLot.toNat +
      4 * ((imageView image m).num - 3)) else image.pHeader

/-! ## The main alignment -/

section

variable {h : Header} {tab : SectView} {m : Mem}

theorem getMainAlign_run (hn : tab.num > 0) :
    (getMainAlign tab).run m = [0, 1, 2].foldl (fun align i =>
      if (entriesAt m tab.pEntries i).align > align then (entriesAt m tab.pEntries i).align
      else align) 4 := by
  rw [getMainAlign, if_pos hn]
  rfl

/-- The larger of two powers of two. -/
theorem larger_isPowerOfTwo {a b : UInt32} (ha : a.toNat.isPowerOfTwo) (hb : b.toNat.isPowerOfTwo) :
    (if b > a then b else a).toNat.isPowerOfTwo ∧
      a.toNat ≤ (if b > a then b else a).toNat ∧ b.toNat ≤ (if b > a then b else a).toNat := by
  split
  next hgt => exact ⟨hb, Nat.le_of_lt (UInt32.lt_iff_toNat_lt.mp hgt), Nat.le_refl _⟩
  next hle => exact ⟨ha, Nat.le_refl _, UInt32.le_iff_toNat_le.mp (UInt32.not_lt.mp hle)⟩

/-- The main alignment is a power of two that every main section's divides. -/
theorem mainAlign_spec (ht : TableOk h tab.num (entriesAt m tab.pEntries)) (h3 : 3 ≤ tab.num) :
    ((getMainAlign tab).run m).toNat.isPowerOfTwo ∧ 4 ≤ ((getMainAlign tab).run m).toNat ∧
      ∀ i, i < 3 → (entriesAt m tab.pEntries i).align.toNat ∣ ((getMainAlign tab).run m).toNat := by
  rw [getMainAlign_run (by omega)]
  simp only [List.foldl_cons, List.foldl_nil]
  have ha0 := (ht.align_isPowerOfTwo (i := 0) (by omega)).1
  have ha1 := (ht.align_isPowerOfTwo (i := 1) (by omega)).1
  have ha2 := (ht.align_isPowerOfTwo (i := 2) (by omega)).1
  obtain ⟨hp0, h4, hle0⟩ := larger_isPowerOfTwo (a := 4) ⟨2, rfl⟩ ha0
  obtain ⟨hp1, h01, hle1⟩ := larger_isPowerOfTwo hp0 ha1
  obtain ⟨hp2, h12, hle2⟩ := larger_isPowerOfTwo hp1 ha2
  refine ⟨hp2, h4.trans (h01.trans h12), fun i hi => ?_⟩
  match i, hi with
  | 0, _ => exact dvd_of_isPowerOfTwo_le ha0 hp2 (hle0.trans (h01.trans h12))
  | 1, _ => exact dvd_of_isPowerOfTwo_le ha1 hp2 (hle1.trans h12)
  | 2, _ => exact dvd_of_isPowerOfTwo_le ha2 hp2 hle2

theorem getMainAlign_empty (hn : tab.num = 0) : (getMainAlign tab).run m = 4 := by
  rw [getMainAlign, if_neg (by omega), Reader.run_pure]

end

/-! ## Sectioned modules -/

namespace SectionedImage

variable {u : SectionedImage} {secs : Nat → Addr} {p : Addr} {w w' : State} {host : Host}

/-- A module in place, at an aligned block with aligned sections. -/
structure AlignedAt (u : SectionedImage) (secs : Nat → Addr) (p : Addr) (w : State) : Prop where
  placed : u.Placed secs p w.handle w.mem
  ne_zero : 3 < u.num → p ≠ 0
  ram : u.mainAlign.toNat ∣ p.toNat
  tagged : ∀ j, 3 ≤ j → j < u.num → (u.es j).size ≠ 0 → (u.es j).align.toNat ∣ (secs j).toNat

/-- The text an image is run from has to be aligned where it is. -/
def TextAligned (u : SectionedImage) : Prop :=
  u.mode = .xip → (u.es 0).size ≠ 0 →
    (u.es 0).align.toNat ∣ (u.pHeader + getCodeOffsetFromHeader u.header).toNat

theorem Placed.sectionBase_run {mod : Module} {m : Mem} (h : u.Placed secs p mod m) (hf : u.Fits)
    {i : Nat} (hi : i < u.num) : (udynlinkGetSectionBase mod i).run m =
      if mod.pHeader = 0 then 0
      else (getSectionBaseIdx mod (sectView mod.pHeader u.header) i).run m := by
  have hnum := hf.main
  have hpos : (sectView mod.pHeader u.header).num > 0 := Nat.lt_of_lt_of_le (by decide) hnum
  have hlt : i < (sectView mod.pHeader u.header).num := hi
  rw [udynlinkGetSectionBase, Reader.run_ite]
  split
  next => rfl
  next =>
    rw [Reader.run_bind, h.getSectab_run hf]
    dsimp only
    rw [if_neg (fun hx => hx rfl), if_pos hpos, if_neg (by omega), if_neg (by omega)]

theorem AlignedAt.settled {image : Image} {m : Mem} {mode : LoadMode}
    (hu : u = ⟨image.pHeader, m, mode⟩) (hview : imageView image m = u.tab) (hf : u.Fits)
    (htext : u.TextAligned) (h : u.AlignedAt secs p w) : Settled image mode m w := by
  have hp : u.pHeader = image.pHeader := by rw [hu]
  have hmem : u.m = m := by rw [hu]
  have hmode : u.mode = mode := by rw [hu]
  have hes : entriesAt m (imageView image m).pEntries = u.es := by
    rw [hview, ← hmem]
    rfl
  have hcount : (imageView image m).num = u.num := by
    rw [hview]
    rfl
  have halign : imageMainAlign image m = u.mainAlign := by
    rw [imageMainAlign, hview, ← hmem]
    rfl
  have hhdr : decodeHeader m image.pHeader = u.header := by
    rw [← hp, ← hmem]
    rfl
  have hnum := hf.main
  obtain ⟨-, h4, hdvd⟩ := mainAlign_spec hf.table hnum
  have hat := h.placed.sectionedAt hf
  refine ⟨?_, ?_, fun i hi hne => ?_, ?_⟩
  · rw [halign]
    exact h4
  · rw [halign, h.placed.pRam]
    exact h.ram
  · rw [hcount] at hi
    rw [hes] at hne ⊢
    rw [h.placed.sectionBase_run hf hi]
    split
    next => exact Nat.dvd_zero _
    next =>
      have hal := (hf.table.align_isPowerOfTwo hi).1
      by_cases hfirst : firstPlaced u.mode ≤ i
      · obtain ⟨hb1, hb2⟩ := hat.base_run hf hi hfirst
        by_cases h3 : i < 3
        · rw [hb1 h3, mainDest]
          exact dvd_off (isPowerOfTwo_dvd hal) ((hdvd i h3).trans h.ram)
            (SectionedFits.dvd_mainOffset hf hfirst h3)
        · have hge : 3 ≤ i := Nat.le_of_not_lt h3
          rw [hb2 hge (h.ne_zero (Nat.lt_of_le_of_lt hge hi)) hne]
          exact h.tagged i hge hi hne
      · -- only the text of a module that runs in place is not in RAM
        have hxip : u.mode = .xip := by
          by_contra hx
          rw [firstPlaced, if_neg hx] at hfirst
          omega
        have hzero : i = 0 := by
          rw [firstPlaced, if_pos hxip] at hfirst
          omega
        have hhead := h.placed.pHeader
        rw [hxip, if_neg (by decide)] at hhead
        subst hzero
        rw [getSectionBaseIdx, if_pos (by decide), Reader.run_bind, readHeader_run,
          h.placed.header hf, if_pos ⟨rfl, h.placed.mode.trans hxip⟩, Reader.run_pure, hhead]
        exact htext hxip hne
  · rw [hcount, hhdr, h.placed.pHeader, h.placed.pRam, hmode, hp]
    rfl

/-- A caller's block and moved sections apart from what is in use; the same, and
aligned, for a block of the host. -/
def FairCall (u : SectionedImage) (newRam : Addr) (moves : Option (List SectionMove))
    (w w' : State) : Prop :=
  ∀ evs q, w.Extends w' evs → DestOf newRam (hostEvents evs) q →
    newRam = 0 ∨ newRam ≠ w.handle.pRam →
    (newRam = 0 → u.mainAlign.toNat ∣ q.toNat) ∧
      ∀ mvs, moves = some mvs → u.FairMove (u.recorded w) w.handle.pRam mvs q

theorem AlignedAt.recorded (h : u.AlignedAt secs p w) :
    u.AlignedAt (u.recorded w) w.handle.pRam w := by
  have hpram := h.placed.pRam
  refine ⟨h.placed.inPlace, fun h3 => ?_, ?_, fun j hj hj' hne => ?_⟩
  · rw [hpram]
    exact h.ne_zero h3
  · rw [hpram]
    exact h.ram
  · rw [h.placed.recorded_eq hj hj' hne]
    exact h.tagged j hj hj' hne

/-- A fair move keeps the alignment. -/
theorem AlignedAt.exec (h : u.AlignedAt (u.recorded w) w.handle.pRam w) (hf : u.Fits)
    (hc : u.Contained) {call : RelocateCall} (hr : (call.exec host).run w = (.ok (), w'))
    (hfair : u.FairCall call.newRam call.moves w w') :
    u.AlignedAt (u.recorded w') w'.handle.pRam w' := by
  have hpow := (mainAlign_spec hf.table hf.main).1
  obtain ⟨moves, hmoves, hm, hbases, hdone⟩ := h.placed.exec_ok hf hc hr
  rcases hdone with ⟨hh, hmem, -⟩ | ⟨q, ⟨evs, he, hdest⟩, hne, h0, hal, hgo⟩
  · have hsame : u.recorded w' = u.recorded w := by
      funext j
      rw [SectionedImage.recorded, SectionedImage.recorded, hmem, hh]
    rw [hsame, hh]
    exact ⟨hmem ▸ hh ▸ h.placed, h.ne_zero, h.ram, h.tagged⟩
  · have hnew : call.newRam = 0 ∨ call.newRam ≠ w.handle.pRam := Or.inr hne
    obtain ⟨hhost, hfm⟩ := hfair evs q he hdest hnew
    obtain ⟨hplaced, -, -⟩ := hgo (hfm moves hmoves)
    refine AlignedAt.recorded ⟨hplaced, fun _ => h0, ?_, fun j hj hj' hsz => ?_⟩
    · by_cases hz : call.newRam = 0
      · exact hhost hz
      · rw [DestOf, if_neg hz] at hdest
        rw [hdest]
        exact dvd_of_and_sub_one hpow (hal hz)
    · rw [movedBase]
      cases hfind : moves.find? fun mv => mv.idx.toNat == j with
      | none => exact h.tagged j hj hj' hsz
      | some mv =>
        have hidx := List.find?_some hfind
        rw [beq_iff_eq] at hidx
        obtain ⟨-, hand⟩ := hbases mv (List.mem_of_find?_eq_some hfind)
        rw [hidx] at hand
        exact dvd_of_and_sub_one (hf.table.align_isPowerOfTwo hj').1 hand

end SectionedImage

/-- A sectioned load leaves the module at the blocks it was granted. -/
theorem SectionedLoaded.alignedAt {host : Host} {image : Image} {mode : LoadMode} {loadAddr : Addr}
    {ramSize p : UInt32} {w w' : State} {secs : Nat → Addr} {names : Nat → Option (List UInt8)}
    {u : SectionedImage} (hu : u = ⟨image.pHeader, w.mem, mode⟩) (hf : u.Fits)
    (hl : SectionedLoaded host image mode u.tab u.header u.es loadAddr u.mainAlign ramSize w w' p
      secs names) : u.AlignedAt secs p w' := by
  have hp : u.pHeader = image.pHeader := by rw [hu]
  have hmem : u.m = w.mem := by rw [hu]
  have hmode : u.mode = mode := by rw [hu]
  have hlt := hf.table.exactCodeOffset_lt
  have hhead := hl.pHeader
  refine ⟨⟨hl.placed.pRam, hl.placed.mode.trans hmode.symm, ?_, fun i hi => ?_, hl.placed.bases⟩,
    hl.ne_zero, ?_, fun j hj hj' hne => ?_⟩
  · rw [hhead, hmode, hp]
    rfl
  · rw [hmem, hp]
    by_cases hm : mode = .copyAll
    · rw [hhead, if_pos hm]
      exact hl.copied hm i hi
    · rw [hhead, if_neg hm]
      exact (hl.source (metaSpan image u.header) (by simp [sectionedSource]) _
        (off_mem hi (by omega))).symm
  · exact dvd_of_and_sub_one (mainAlign_spec hf.table hf.main).1 hl.aligned
  · have hn : u.num = u.tab.num := rfl
    obtain ⟨-, hand⟩ := hl.granted j hj (by omega) hne
    exact dvd_of_and_sub_one (hf.table.align_isPowerOfTwo hj').1 hand

/-! ## Untagged modules -/

namespace UntaggedImage

variable {u : UntaggedImage} {p : Addr} {w w' : State} {host : Host}

/-- The entries behind the module's own header name words of its LOT or data. -/
def OwnEntriesBehind (w : State) : Prop :=
  ∀ k, k < (decodeHeader w.mem w.handle.pHeader).numRels.toNat →
    SlotInRange (decodeHeader w.mem w.handle.pHeader)
        ((readRelocation (getRelocsPointer w.handle.pHeader
          (decodeHeader w.mem w.handle.pHeader)) k).run w.mem).1 ∧
      (isBaseRelocation ((readRelocation (getRelocsPointer w.handle.pHeader
          (decodeHeader w.mem w.handle.pHeader)) k).run w.mem).2 = true →
        ¬ ((readRelocation (getRelocsPointer w.handle.pHeader
          (decodeHeader w.mem w.handle.pHeader)) k).run w.mem).1 <
            (decodeHeader w.mem w.handle.pHeader).numLot.toUInt32)

/-- A destination that is aligned, whoever supplies it, and apart from what is in use. -/
def FairCall (h : Header) (pHeader : Addr) (mode : LoadMode) (newRam : Addr) (w w' : State) : Prop :=
  OwnEntriesBehind w ∧ ∀ evs q, w.Extends w' evs → DestOf newRam (hostEvents evs) q →
    newRam = 0 ∨ newRam ≠ w.handle.pRam → exactRamUntagged h mode ≠ 0 →
    4 ∣ q.toNat ∧
      Span.Disjoint ⟨w.handle.pRam, exactRamUntagged h mode⟩ ⟨q, exactRamUntagged h mode⟩ ∧
      (mode ≠ .copyAll → Span.Disjoint ⟨pHeader, symtabEnd h⟩ ⟨q, exactRamUntagged h mode⟩)

theorem Kept.entriesBehind (h : u.Kept p w) (hcon : u.Contiguous)
    (hf : UntaggedFits u.header u.mode) (hend : symtabEnd u.header < 2 ^ 32)
    (hown : OwnEntriesBehind w) : u.EntriesBehind := by
  have hheader := Kept.header h
  rw [OwnEntriesBehind, hheader] at hown
  have hrels : getRelocsPointer w.handle.pHeader u.header =
      u.image.pRelocations + u.metadataShift p := by
    rw [getRelocsPointer, getHeaderSize_words, h.handle.pHeader_eq, (image_eq hcon hf.untagged).1,
      UInt32.ofNat_toNat, add_right_comm]
  rw [hrels] at hown
  have hentry : ∀ k, k < u.header.numRels.toNat →
      (readRelocation (u.image.pRelocations + u.metadataShift p) k).run w.mem = u.entry k :=
    fun k hk => metadata_entry hcon hf.untagged hend h.metadata hk
  refine ⟨fun e he => ?_, fun e he => ?_⟩
  · obtain ⟨k, hk, rfl⟩ := mem_entries.mp he
    have := (hown k hk).1
    rwa [hentry k hk] at this
  · obtain ⟨k, hk, rfl⟩ := mem_entries.mp he
    have := (hown k hk).2
    rwa [hentry k hk] at this

/-- A call that returns has moved the main block. -/
theorem Kept.exec_main (h : u.Kept p w) (hf : UntaggedFits u.header u.mode) {call : RelocateCall}
    (hr : (call.exec host).run w = (.ok (), w')) : ∃ newSize moves,
      (relocateMainBlock host call.newRam newSize moves).run w = (.ok (), w') := by
  have hheader := Kept.header h
  cases call with
  | module newRam newSize =>
    rw [RelocateCall.exec, udynlinkRelocateModule, Prog.run_getHandle_bind] at hr
    split at hr
    next => simp at hr
    next => exact ⟨newSize, [], hr⟩
  | sections newRam newSize moves? =>
    rw [RelocateCall.exec, udynlinkRelocateModuleSections, Prog.run_getHandle_bind] at hr
    split at hr
    next => simp at hr
    next =>
      cases moves? with
      | none => simp at hr
      | some moves =>
        cases moves with
        | nil => exact ⟨newSize, [], hr⟩
        | cons mv moves =>
          dsimp only at hr
          rw [Prog.run_lift_bind, readHeader_run, hheader, hf.untagged, Bool.not_false,
            if_pos rfl] at hr
          simp at hr

/-- A fair move keeps the alignment. -/
theorem Kept.exec (h : u.Kept w.handle.pRam w) (hcon : u.Contiguous)
    (hf : UntaggedFits u.header u.mode) (hend : symtabEnd u.header < 2 ^ 32)
    (hal : 4 ∣ w.handle.pRam.toNat) {call : RelocateCall}
    (hr : (call.exec host).run w = (.ok (), w'))
    (hfair : FairCall u.header u.image.pHeader u.mode call.newRam w w') :
    u.Kept w'.handle.pRam w' ∧ 4 ∣ w'.handle.pRam.toNat := by
  obtain ⟨newSize, moves, hrun⟩ := h.exec_main hf hr
  obtain ⟨hown, hdst⟩ := hfair
  have hclaim := claimOwnership_same call.newRam w.handle
  rcases Kept.relocate_ok hcon hf hend h (h.entriesBehind hcon hf hend hown) hrun with
    ⟨hm, hh⟩ | ⟨hne, q, ⟨evs, he, hdest⟩, hout, hpram, hgo⟩
  · have hsame : w'.handle.pRam = w.handle.pRam ∧ w'.handle.mode = w.handle.mode ∧
        w'.handle.pHeader = w.handle.pHeader := by
      rcases hh with hh | ⟨-, hh⟩
      · rw [hh]
        exact ⟨rfl, rfl, rfl⟩
      · rw [hh]
        exact ⟨hclaim.1, hclaim.2.1, hclaim.2.2.1⟩
    rw [hsame.1]
    refine ⟨⟨⟨hsame.1, hsame.2.1.trans h.handle.mode, hsame.2.2.trans h.handle.pHeader⟩, ?_⟩, hal⟩
    rw [hm]
    exact h.metadata
  · have hnew : call.newRam = 0 ∨ call.newRam ≠ w.handle.pRam := by
      by_cases hz : call.newRam = 0
      · exact Or.inl hz
      · rw [DestOf, if_neg hz] at hdest
        exact Or.inr (hdest ▸ hout)
    obtain ⟨h4, hdisj, hclear⟩ := hdst evs q he hdest hnew hne
    rw [hpram]
    exact ⟨(hgo hdisj hclear).kept, h4⟩

/-- The metadata a loaded module keeps, as an image in one piece. -/
def ofLoaded (pHeader : Addr) (mode : LoadMode) (w : State) : UntaggedImage where
  image := { (udynlinkImageFromMemory pHeader).run (w.mem.shift (w.handle.pHeader - pHeader)) with
    pHeader }
  m := w.mem.shift (w.handle.pHeader - pHeader)
  mode := mode
  resolve := fun _ => 0

theorem ofLoaded_contiguous (pHeader : Addr) (mode : LoadMode) (w : State) :
    (ofLoaded pHeader mode w).Contiguous := by
  have h := imageFromMemory_pHeader pHeader (w.mem.shift (w.handle.pHeader - pHeader))
  unfold Contiguous ofLoaded
  dsimp only
  generalize (udynlinkImageFromMemory pHeader).run (w.mem.shift (w.handle.pHeader - pHeader)) = x
    at h ⊢
  rw [← h]

theorem ofLoaded_header (pHeader : Addr) (mode : LoadMode) (w : State) :
    (ofLoaded pHeader mode w).header = decodeHeader w.mem w.handle.pHeader := by
  unfold header ofLoaded
  refine decodeHeader_eq_of_bytes fun i _ => ?_
  show w.mem (pHeader + UInt32.ofNat i + (w.handle.pHeader - pHeader)) = _
  have hq : pHeader + UInt32.ofNat i + (w.handle.pHeader - pHeader) =
      w.handle.pHeader + UInt32.ofNat i := by abel
  rw [hq]

theorem ofLoaded_kept {pHeader : Addr} {mode : LoadMode} {h : Header}
    (hh : decodeHeader w.mem w.handle.pHeader = h) (hmode : w.handle.mode = mode)
    (hhead : w.handle.pHeader = if mode = .copyAll then
      w.handle.pRam + UInt32.ofNat (4 * h.numLot.toNat) else pHeader) :
    (ofLoaded pHeader mode w).Kept w.handle.pRam w := by
  have hheader : (ofLoaded pHeader mode w).header = h := (ofLoaded_header pHeader mode w).trans hh
  have hplaced : (ofLoaded pHeader mode w).PlacedHandle w.handle.pRam w.handle := by
    refine ⟨rfl, hmode, ?_⟩
    rw [hheader]
    exact hhead
  refine ⟨hplaced, fun i _ => ?_⟩
  have hd : (ofLoaded pHeader mode w).metadataShift w.handle.pRam = w.handle.pHeader - pHeader := by
    have heq : w.handle.pHeader = pHeader + (ofLoaded pHeader mode w).metadataShift w.handle.pRam :=
      hplaced.pHeader_eq
    rw [heq, off_sub]
  rw [hd]
  rfl

variable {loadAddr : Addr} {loadSize : UInt32} {tab : SectView} {ramSize : UInt32} {ramAddr : Addr}
  {w1 w2 w3 w4 : State}

/-- An untagged load keeps the header it has read. -/
theorem loaded_header
    (hs : LoadStages host u.image loadAddr loadSize u.mode w w' tab ramSize ramAddr w1 w2 w3 w4)
    (hm : w.mem = u.m) (ht : tab.num = 0) (hf : UntaggedFits u.header u.mode)
    (hc : SourceClear u.image u.header u.mode ramAddr) :
    u.PlacedHandle ramAddr w'.handle ∧ decodeHeader w'.mem w'.handle.pHeader = u.header := by
  have hp : u.PlacedHandle ramAddr (u.loadedHandle ramSize loadAddr ramAddr w.handle) :=
    loadedHandle_placed (provisionRam_ok hs.provision).1.empty
  obtain ⟨ans, rs, hw⟩ := walked_of_stages hs hm hf hc
  obtain ⟨bs, hw'⟩ := hs.finished
  have hhandle : u.PlacedHandle ramAddr w'.handle := by
    rw [hw', World.log_handle, hw.handle]
    exact ⟨hp.pRam, hp.mode, hp.pHeader⟩
  refine ⟨hhandle, ?_⟩
  have hspan : ∀ a ∈ (⟨w'.handle.pHeader, 32⟩ : Span), u.Fixed ramAddr a := by
    intro a ha
    rw [hhandle.pHeader] at ha
    by_cases hm : u.mode = .copyAll
    · rw [if_pos hm] at ha
      exact fixed_header hf hm ha
    · rw [if_neg hm] at ha
      exact fixed_of_notMem hf (hc ⟨u.image.pHeader, (getHeaderSize u.header).toNat⟩
        (by simp [untaggedSource]) a (prefix_subset (getHeaderSize_ge u.header) a ha))
  have hsame : ∀ a ∈ (⟨w'.handle.pHeader, 32⟩ : Span), u.placed ramAddr a = w'.mem a := by
    intro a ha
    rw [← hw.mem, hw', World.log_mem]
    refine (hw.patched.notMem fun s hsp hmem => ?_).symm
    obtain ⟨k, hk, hsp⟩ := List.mem_flatMap.mp hsp
    have hlt : k < u.header.numRels.toNat := by
      have := (List.mem_range'_1.mp hk).2
      omega
    obtain ⟨hr, hslot⟩ := placed_slot hf hc hp ht hlt (hw.entries k hlt).ok.slot_ne
    rw [relocSpans_sub hsp, hslot] at hmem
    exact not_fixed_slot hf hr hmem (hspan a ha)
  rw [decodeHeader_congr hsame]
  exact placed_ownHeader hf hc hhandle

end UntaggedImage

/-! ## Runs -/

/-- What a run of moves takes for granted of the image: no size wraps, the words
its entries name are the module's, as the load reads the entries and as the moves
do, and code that is run in place is aligned there. -/
structure FairImage (image : Image) (mode : LoadMode) (m : Mem) : Prop where
  offset : exactCodeOffset (decodeHeader m image.pHeader) < 2 ^ 32
  contained : LoadContained image mode m
  moved : (imageView image m).num ≠ 0 → SectionedImage.Contained ⟨image.pHeader, m, mode⟩
  text : (imageView image m).num ≠ 0 → SectionedImage.TextAligned ⟨image.pHeader, m, mode⟩

/-- A successful move whose destinations are fair. -/
def FairMove (host : Host) (image : Image) (mode : LoadMode) (m : Mem) (w w' : State) : Prop :=
  ∃ call : RelocateCall, (call.exec host).run w = (.ok (), w') ∧
    if (imageView image m).num = 0 then
      UntaggedImage.FairCall (decodeHeader m image.pHeader) image.pHeader mode call.newRam w w'
    else SectionedImage.FairCall ⟨image.pHeader, m, mode⟩ call.newRam call.moves w w'

section

variable {host : Host} {image : Image} {mode : LoadMode} {loadAddr : Addr} {loadSize : UInt32}
  {w w₁ w₂ : State} {tab : SectView} {ramSize : UInt32} {ramAddr : Addr} {w1 w2 w3 w4 : State}
  {evs : List (Event HostEvent)}

/-- The table of a sectioned load, and the module as it was loaded. -/
theorem sectioned_loaded
    (hs : LoadStages host image loadAddr loadSize mode w w₁ tab ramSize ramAddr w1 w2 w3 w4)
    (ht : tab.num ≠ 0) (hcont : LoadContained image mode w.mem) (he : w.Extends w₁ evs)
    (hfair : FairBlocks (imageSource image w.mem) loadAddr loadSize (hostEvents evs)) :
    tab = SectionedImage.tab ⟨image.pHeader, w.mem, mode⟩ ∧
      SectionedImage.Fits ⟨image.pHeader, w.mem, mode⟩ ∧
      ∃ secs names, SectionedLoaded host image mode tab (decodeHeader w.mem image.pHeader)
        (entriesAt w.mem tab.pEntries) loadAddr ((getMainAlign tab).run w.mem) ramSize w w₁ ramAddr
        secs names := by
  have hview := imageView_of_sectab hs.sectab
  have hne : (imageView image w.mem).num ≠ 0 := by rw [hview]; exact ht
  obtain ⟨htab, htable⟩ : tab = SectionedImage.tab ⟨image.pHeader, w.mem, mode⟩ ∧
      TableOk (decodeHeader w.mem image.pHeader) tab.num (entriesAt w.mem tab.pEntries) := by
    cases getSectab_ok hs.sectab with
    | inl hx =>
      rw [hx.2] at ht
      exact absurd rfl ht
    | inr hx => exact ⟨hx.1, hx.2.1⟩
  have hram := hcont.ram
  rw [imageRam, hview, exactRam, if_pos (by omega)] at hram
  have hmain := hcont.main hne
  rw [hview] at hmain
  have hf : SectionedFits (decodeHeader w.mem image.pHeader) tab.num
      (entriesAt w.mem tab.pEntries) mode := ⟨htable, hmain, hram⟩
  have hrel := hcont.relocs hne
  rw [imageSource, hview, if_neg ht] at hfair
  rw [hview] at hrel
  refine ⟨htab, ?_, sectioned_of_stages hs rfl rfl hf hrel fun evs' he' => he'.unique he ▸ hfair⟩
  rw [htab] at hf
  exact hf

theorem sectioned_settled
    (hs : LoadStages host image loadAddr loadSize mode w w₁ tab ramSize ramAddr w1 w2 w3 w4)
    (ht : tab.num ≠ 0) (himg : FairImage image mode w.mem) (he : w.Extends w₁ evs)
    (hfair : FairBlocks (imageSource image w.mem) loadAddr loadSize (hostEvents evs))
    (hmoves : Relation.ReflTransGen (FairMove host image mode w.mem) w₁ w₂) :
    Settled image mode w.mem w₂ := by
  have hview := imageView_of_sectab hs.sectab
  have hne : (imageView image w.mem).num ≠ 0 := by rw [hview]; exact ht
  let u : SectionedImage := ⟨image.pHeader, w.mem, mode⟩
  obtain ⟨htab, hf, secs, names, hl⟩ := sectioned_loaded hs ht himg.contained he hfair
  rw [htab] at hl
  have hload : u.AlignedAt secs ramAddr w₁ := SectionedLoaded.alignedAt rfl hf hl
  have hrun : u.AlignedAt (u.recorded w₂) w₂.handle.pRam w₂ := by
    induction hmoves with
    | refl => exact hload.recorded
    | tail _ hstep ih =>
      obtain ⟨call, hr, hcall⟩ := hstep
      rw [if_neg hne] at hcall
      exact ih.exec hf (himg.moved hne) hr hcall
  exact hrun.settled rfl (hview.trans htab) hf (himg.text hne)

/-- An untagged load, as the image in one piece that the module keeps. -/
theorem untagged_loaded
    (hs : LoadStages host image loadAddr loadSize mode w w₁ tab ramSize ramAddr w1 w2 w3 w4)
    (ht : tab.num = 0) (hram : imageRam image mode w.mem < 2 ^ 32) (he : w.Extends w₁ evs)
    (hfair : FairBlocks (imageSource image w.mem) loadAddr loadSize (hostEvents evs)) :
    let v := UntaggedImage.ofLoaded image.pHeader mode w₁
    v.header = decodeHeader w.mem image.pHeader ∧ UntaggedFits v.header v.mode ∧
      v.Kept w₁.handle.pRam w₁ ∧ w₁.handle.pRam = ramAddr := by
  have hview := imageView_of_sectab hs.sectab
  let u : UntaggedImage := ⟨image, w.mem, mode, fun _ => 0⟩
  rw [imageRam, hview, exactRam, if_neg (by omega)] at hram
  rw [imageSource, hview, if_pos ht] at hfair
  obtain ⟨hf, hc, -⟩ := UntaggedImage.fits_of_stages (u := u) hs rfl ht hram he hfair
  obtain ⟨hplaced, hheader⟩ := UntaggedImage.loaded_header (u := u) hs rfl ht hf hc
  have hv : (UntaggedImage.ofLoaded image.pHeader mode w₁).header =
      decodeHeader w.mem image.pHeader :=
    (UntaggedImage.ofLoaded_header image.pHeader mode w₁).trans hheader
  refine ⟨hv, ?_, UntaggedImage.ofLoaded_kept hheader hplaced.mode ?_, hplaced.pRam⟩
  · rw [hv]
    exact hf
  · rw [hplaced.pHeader, hplaced.pRam]

theorem untagged_settled
    (hs : LoadStages host image loadAddr loadSize mode w w₁ tab ramSize ramAddr w1 w2 w3 w4)
    (ht : tab.num = 0) (himg : FairImage image mode w.mem) (he : w.Extends w₁ evs)
    (hfair : FairBlocks (imageSource image w.mem) loadAddr loadSize (hostEvents evs))
    (hmoves : Relation.ReflTransGen (FairMove host image mode w.mem) w₁ w₂) :
    Settled image mode w.mem w₂ := by
  have hview := imageView_of_sectab hs.sectab
  have hzero : (imageView image w.mem).num = 0 := by rw [hview]; exact ht
  obtain ⟨hv, hvf, hload, hpram⟩ := untagged_loaded hs ht himg.contained.ram he hfair
  let v := UntaggedImage.ofLoaded image.pHeader mode w₁
  have hvp : v.image.pHeader = image.pHeader := rfl
  have hvc : v.Contiguous := UntaggedImage.ofLoaded_contiguous image.pHeader mode w₁
  have halign : imageMainAlign image w.mem = 4 := by
    rw [imageMainAlign, hview]
    exact getMainAlign_empty ht
  have hend : symtabEnd v.header < 2 ^ 32 := by
    have hle := UntaggedImage.symtabEnd_le hvf.untagged
    rw [hv] at hle ⊢
    exact Nat.lt_of_le_of_lt hle himg.offset
  have hal : 4 ∣ w₁.handle.pRam.toNat := by
    have hb := (provisionRam_ok hs.provision).1.aligned
    rw [getMainAlign_empty ht] at hb
    rw [hpram]
    exact dvd_of_and_sub_one (a := 4) ⟨2, rfl⟩ hb
  have hrun : v.Kept w₂.handle.pRam w₂ ∧ 4 ∣ w₂.handle.pRam.toNat := by
    induction hmoves with
    | refl => exact ⟨hload, hal⟩
    | tail _ hstep ih =>
      obtain ⟨call, hr, hcall⟩ := hstep
      rw [if_pos hzero, ← hv, ← hvp] at hcall
      exact ih.1.exec hvc hvf hend ih.2 hr hcall
  have hhead := hrun.1.handle.pHeader
  refine ⟨?_, ?_, fun i hi => absurd hi (by omega), ?_⟩
  · rw [halign]
    decide
  · rw [halign]
    exact hrun.2
  · rw [hhead, hv, hvp, hzero]
    rfl

/-- A load and any number of moves whose steps are fair. -/
theorem moves_settled
    (hload : (udynlinkLoadModuleImage host image loadAddr loadSize mode).run w = (.ok (), w₁))
    (himg : FairImage image mode w.mem) (he : w.Extends w₁ evs)
    (hfair : FairBlocks (imageSource image w.mem) loadAddr loadSize (hostEvents evs))
    (hmoves : Relation.ReflTransGen (FairMove host image mode w.mem) w₁ w₂) :
    Settled image mode w.mem w₂ := by
  obtain ⟨tab, ramSize, ramAddr, w1, w2, w3, w4, hs⟩ := loadStages_of_ok hload
  by_cases ht : tab.num = 0
  · exact untagged_settled hs ht himg he hfair hmoves
  · exact sectioned_settled hs ht himg he hfair hmoves

end

/-! ## Two modules -/

/-- The module of `ownSectionImage` with its block at `0x30000000` and section `x`
behind it. -/
def ownSectionMoved : State :=
  ((udynlinkRelocateModuleSections ownSectionHost 0x30000000 20 (some [⟨3, 0x30000100⟩])).run
    ownSectionLoaded).2

theorem ownSection_fair : FairImage ownSectionImage .copyTextData ownSectionRom := by
  refine ⟨by decide +kernel, ownSection_contained, fun _ k hk _ => ?_, fun _ hm => ?_⟩
  · have hn : (decodeHeader ownSectionRom ownSectionImage.pHeader).numRels.toNat = 1 := by
      decide +kernel
    have hk' : k < (decodeHeader ownSectionRom ownSectionImage.pHeader).numRels.toNat := hk
    obtain rfl : k = 0 := by omega
    refine Or.inr fun idx hfound _ => ?_
    have h1 : (sectFindByVa
        (SectionedImage.tab ⟨ownSectionImage.pHeader, ownSectionRom, .copyTextData⟩)
        (relocVa (SectionedImage.header ⟨ownSectionImage.pHeader, ownSectionRom, .copyTextData⟩)
          ((readRelocation (SectionedImage.source
            ⟨ownSectionImage.pHeader, ownSectionRom, .copyTextData⟩).pRelocations 0).run
              ownSectionRom).1)).run ownSectionRom = some 1 := by decide +kernel
    rw [h1, Option.some.injEq] at hfound
    subst hfound
    exact ⟨by decide, fun _ => by decide +kernel, fun h => absurd h (by decide)⟩
  · exact absurd hm (by decide)

/-- A block at `0x30000000` and section `x` at `0x30000100` are apart from the old block. -/
theorem ownSection_apart (secs : Nat → Addr) : SectionedImage.FairMove
    ⟨ownSectionImage.pHeader, ownSectionRom, .copyTextData⟩ secs 0x20000000 [⟨3, 0x30000100⟩]
    0x30000000 := by
  have hnum : (SectionedImage.num ⟨ownSectionImage.pHeader, ownSectionRom, .copyTextData⟩) = 4 := by
    decide +kernel
  have hone : ∀ j, 3 ≤ j → j < 4 → j = 3 := fun j h3 h4 => by omega
  have hbase : movedBase secs [⟨3, 0x30000100⟩] 3 = 0x30000100 := rfl
  refine ⟨⟨⟨fun i j hi hij hj => ?_, fun j hj hj' _ => ?_⟩, fun _ => ?_, fun _ j hj hj' _ => ?_⟩, ?_,
    fun j hj hj' _ => ?_⟩
  · rw [hnum] at hj
    omega
  · rw [hnum] at hj'
    obtain rfl := hone j hj hj'
    rw [hbase]
    exact (disjoint_of_le (by decide +kernel) (by decide +kernel)).symm
  · exact disjoint_of_le (by decide +kernel) (by decide +kernel)
  · rw [hnum] at hj'
    obtain rfl := hone j hj hj'
    rw [hbase]
    exact disjoint_of_le (by decide +kernel) (by decide +kernel)
  · exact disjoint_of_le (by decide +kernel) (by decide +kernel)
  · rw [hnum] at hj'
    obtain rfl := hone j hj hj'
    rw [hbase]
    exact disjoint_of_le (by decide +kernel) (by decide +kernel)

theorem ownSection_fairMove :
    FairMove ownSectionHost ownSectionImage .copyTextData ownSectionRom ownSectionLoaded
      ownSectionMoved := by
  have hrun : (udynlinkRelocateModuleSections ownSectionHost 0x30000000 20
      (some [⟨3, 0x30000100⟩])).run ownSectionLoaded = (.ok (), ownSectionMoved) :=
    Prod.ext (by decide +kernel) (by rw [ownSectionMoved])
  refine ⟨.sections 0x30000000 20 (some [⟨3, 0x30000100⟩]), hrun, ?_⟩
  rw [if_neg ownSection_table]
  intro evs q _ hdest _
  refine ⟨fun hz => absurd hz (by decide), fun mvs hm => ?_⟩
  have hq : q = 0x30000000 := by
    rw [DestOf, if_neg (by decide)] at hdest
    exact hdest
  obtain rfl : [⟨3, 0x30000100⟩] = mvs := Option.some.inj hm
  rw [hq, ownSection_load.2.1]
  exact ownSection_apart _

theorem moves_settled_ownSection :
    Settled ownSectionImage .copyTextData ownSectionRom ownSectionMoved :=
  moves_settled (w := ⟨ownSectionRom, Module.free, []⟩) ownSection_loads ownSection_fair
    ownSection_extends ownSection_fairBlocks (.single ownSection_fairMove)

/-- The module of `pointersImage` at a caller's block that starts between words. -/
def pointersAstray : State :=
  ((udynlinkRelocateModule pointersHost 0x30000002 16).run pointersLoaded).2

theorem untagged_move_unaligned :
    ((udynlinkLoadModuleImage pointersHost pointersImage.image 0 0 .copyTextData).run
        ⟨pointersRom, Module.free, []⟩).1 = .ok () ∧
      ((udynlinkRelocateModule pointersHost 0x30000002 16).run pointersLoaded).1 = .ok () ∧
      ¬ Settled pointersImage.image .copyTextData pointersRom pointersAstray := by
  refine ⟨by decide +kernel, by decide +kernel, fun h => ?_⟩
  exact absurd h.ram (by decide +kernel)

end Udynlink
