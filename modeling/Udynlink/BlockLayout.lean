import Udynlink.Settled

/-!
# The parts of the block

What the loader puts into the main block of a sectioned module, part after part,
as it computes them from the header a module carries; and the size of the block,
asked for before a load, during it and after any number of moves.
-/

namespace Udynlink

open Machine

/-- The view behind the header at `q`. -/
def ownTable (m : Mem) (q : Addr) : SectView := ((getSectab q false).run m).2

/-- Offset of a main section, as the loader finds it. -/
def ownOffset (mode : LoadMode) (m : Mem) (q : Addr) (i : Nat) : UInt32 :=
  (getMainSectionOffset (decodeHeader m q) (ownTable m q) mode i).run m

/-- LOT, base array, metadata and main sections: offset and length. -/
def blockParts (mode : LoadMode) (m : Mem) (q : Addr) : List (Nat × Nat) :=
  let lot := (decodeHeader m q).numLot.toUInt32 * 4
  let bases := getNonmainBasesSize (ownTable m q)
  let part := fun i =>
    ((ownOffset mode m q i).toNat, (entriesAt m (ownTable m q).pEntries i).size.toNat)
  [(0, lot.toNat), (lot.toNat, bases.toNat)] ++
    (if mode = .copyAll then
      [((lot + bases).toNat, (getCodeOffsetFromHeader (decodeHeader m q)).toNat)] else []) ++
    (if mode = .xip then [] else [part 0]) ++ [part 1, part 2]

/-- The parts are in order, start where their sections have to, and fill the block
up to its end. -/
structure BlockLayout (mode : LoadMode) (m : Mem) (q : Addr) : Prop where
  ordered : (blockParts mode m q).Pairwise fun a b => a.1 + a.2 ≤ b.1
  aligned : ∀ p : Addr, ((getMainAlign (ownTable m q)).run m).toNat ∣ p.toNat →
    ∀ i, firstPlaced mode ≤ i → i < 3 →
      (entriesAt m (ownTable m q).pEntries i).align.toNat ∣ (p + ownOffset mode m q i).toNat
  last : ∀ a, (blockParts mode m q).getLast? = some a →
    a.1 + a.2 = ((getRamSizeForHeader q mode).run m).toNat

section

variable {mode : LoadMode} {m : Mem} {q : Addr} {tab : SectView}

theorem ramSizeForHeader_run (hs : (getSectab q false).run m = (.ok (), tab))
    (hf : SectionedFits (decodeHeader m q) tab.num (entriesAt m tab.pEntries) mode) :
    (getRamSizeForHeader q mode).run m =
      UInt32.ofNat (exactRamSections (decodeHeader m q) tab.num (entriesAt m tab.pEntries) mode) := by
  have hnum := hf.main
  rw [getRamSizeForHeader, Reader.run_bind, readHeader_run, hf.table.sectioned, if_pos rfl,
    Reader.run_bind, hs]
  dsimp only
  rw [if_pos ⟨rfl, by omega⟩, getRamSizeSections_run]

/-- The offset the loader computes is the exact one. -/
theorem ownOffset_toNat (hs : (getSectab q false).run m = (.ok (), tab))
    (hf : SectionedFits (decodeHeader m q) tab.num (entriesAt m tab.pEntries) mode) {i : Nat}
    (hi : firstPlaced mode ≤ i) (h3 : i < 3) :
    (ownOffset mode m q i).toNat =
      exactMainOffset (decodeHeader m q) tab.num (entriesAt m tab.pEntries) mode i := by
  have hnum := hf.main
  have hram := hf.ram
  have hle := hf.main_le_ram hi h3
  rw [ownOffset, ownTable, hs]
  dsimp only
  rw [getMainSectionOffset_run _ _ _ _ (by omega) hi, toNat_ofNat_of_lt (by omega)]

theorem blockLayout_of_fits (hs : (getSectab q false).run m = (.ok (), tab))
    (hf : SectionedFits (decodeHeader m q) tab.num (entriesAt m tab.pEntries) mode) :
    BlockLayout mode m q := by
  have hnum := hf.main
  have hram := hf.ram
  have hfirst := firstPlaced_le mode
  have htab : ownTable m q = tab := by rw [ownTable, hs]
  have hcode := hf.table.exactCodeOffset_lt
  have hlotLt := (decodeHeader m q).numLot.toNat_lt
  have hnumLt := hf.table.num_le
  have hstart := hf.start_le (i := 1) hfirst (by omega)
  have h12 : exactMainOffset (decodeHeader m q) tab.num (entriesAt m tab.pEntries) mode 1 +
      (entriesAt m tab.pEntries 1).size.toNat ≤
        exactMainOffset (decodeHeader m q) tab.num (entriesAt m tab.pEntries) mode 2 :=
    hf.main_le_succ hfirst (by omega)
  have h2 := ownOffset_toNat hs hf (i := 2) (by omega) (by omega)
  have h1 := ownOffset_toNat hs hf (i := 1) hfirst (by omega)
  have hlot : ((decodeHeader m q).numLot.toUInt32 * 4).toNat = 4 * (decodeHeader m q).numLot.toNat := by
    rw [lotBytes, toNat_ofNat_of_lt (by omega)]
  have hbases : (getNonmainBasesSize tab).toNat = 4 * (tab.num - 3) := by
    rw [getNonmainBasesSize_eq, toNat_ofNat_of_lt (by omega)]
  have hmeta : ((decodeHeader m q).numLot.toUInt32 * 4 + getNonmainBasesSize tab).toNat =
      4 * (decodeHeader m q).numLot.toNat + 4 * (tab.num - 3) := by
    rw [lotBytes, getNonmainBasesSize_eq, ← UInt32.ofNat_add, toNat_ofNat_of_lt (by omega)]
  have hoff : (getCodeOffsetFromHeader (decodeHeader m q)).toNat =
      exactCodeOffset (decodeHeader m q) := by
    rw [getCodeOffsetFromHeader_eq, toNat_ofNat_of_lt (by omega)]
  obtain ⟨hpow, -, hdvd⟩ := mainAlign_spec hf.table hnum
  refine ⟨?_, fun p hp i hi h3 => ?_, fun a ha => ?_⟩
  · rw [blockParts, htab]
    dsimp only
    rw [hlot, hbases, hmeta, hoff, h1, h2]
    cases mode with
    | xip =>
      rw [exactStart, if_neg (by decide)] at hstart
      simp [List.pairwise_cons]
      omega
    | copyTextData =>
      have h0 := ownOffset_toNat hs hf (i := 0) (by decide) (by omega)
      have hstart0 := hf.start_le (i := 0) (by decide) (by omega)
      have h01 : exactMainOffset (decodeHeader m q) tab.num (entriesAt m tab.pEntries)
          .copyTextData 0 + (entriesAt m tab.pEntries 0).size.toNat ≤
            exactMainOffset (decodeHeader m q) tab.num (entriesAt m tab.pEntries) .copyTextData 1 :=
        hf.main_le_succ (by decide) (by omega)
      rw [exactStart, if_neg (by decide)] at hstart0
      rw [h0]
      simp [List.pairwise_cons]
      omega
    | copyAll =>
      have h0 := ownOffset_toNat hs hf (i := 0) (by decide) (by omega)
      have hstart0 := hf.start_le (i := 0) (by decide) (by omega)
      have h01 : exactMainOffset (decodeHeader m q) tab.num (entriesAt m tab.pEntries)
          .copyAll 0 + (entriesAt m tab.pEntries 0).size.toNat ≤
            exactMainOffset (decodeHeader m q) tab.num (entriesAt m tab.pEntries) .copyAll 1 :=
        hf.main_le_succ (by decide) (by omega)
      rw [exactStart, if_pos rfl] at hstart0
      rw [h0]
      simp [List.pairwise_cons]
      omega
  · have hal := (hf.table.align_isPowerOfTwo (i := i) (by omega)).1
    have hoffset : ownOffset mode m q i = UInt32.ofNat
        (exactMainOffset (decodeHeader m q) tab.num (entriesAt m tab.pEntries) mode i) := by
      rw [← ownOffset_toNat hs hf hi h3, UInt32.ofNat_toNat]
    rw [htab] at hp ⊢
    rw [hoffset]
    exact dvd_off (isPowerOfTwo_dvd hal) ((hdvd i h3).trans hp) (hf.dvd_mainOffset hi h3)
  · have hlast : a = ((ownOffset mode m q 2).toNat, (entriesAt m tab.pEntries 2).size.toNat) := by
      rw [blockParts, htab, List.getLast?_append_of_ne_nil _ (by simp)] at ha
      exact (Option.some.inj ha).symm
    rw [hlast, h2, ramSizeForHeader_run hs hf, toNat_ofNat_of_lt hram]
    exact (exactRamSections_eq _ _ _ _).symm

end

/-! ## Runs -/

def udynlinkComputeRamSize (pHeader : Addr) (mode : LoadMode) : Reader UInt32 :=
  getRamSizeForHeader pHeader mode

/-- The parts lie in the block as they were laid out for the image; the size is the
one asked for before the load, of the host and of the module. -/
structure Sized (image : Image) (mode : LoadMode) (m : Mem) (loadAddr : Addr)
    (hs : List HostEvent) (w : State) : Prop where
  layout : BlockLayout mode m image.pHeader
  parts : blockParts mode w.mem w.handle.pHeader = blockParts mode m image.pHeader
  requested : loadAddr = 0 → (udynlinkComputeRamSize image.pHeader mode).run m ≠ 0 →
    ∃ tag p rest, hs = .malloc ((udynlinkComputeRamSize image.pHeader mode).run m) tag p :: rest
  current : (udynlinkGetRamSize w.handle).run w.mem =
    (udynlinkComputeRamSize image.pHeader mode).run m

namespace SectionedImage

variable {u : SectionedImage} {w w' : State} {host : Host}

/-- A caller's block and moved sections apart from what is in use. -/
def ApartCall (u : SectionedImage) (newRam : Addr) (moves : Option (List SectionMove))
    (w w' : State) : Prop :=
  ∀ evs q, w.Extends w' evs → DestOf newRam (hostEvents evs) q →
    newRam = 0 ∨ newRam ≠ w.handle.pRam →
    ∀ mvs, moves = some mvs → u.FairMove (u.recorded w) w.handle.pRam mvs q

theorem FairCall.apart {newRam : Addr} {moves : Option (List SectionMove)}
    (h : u.FairCall newRam moves w w') : u.ApartCall newRam moves w w' :=
  fun evs q he hd hnew => (h evs q he hd hnew).2

/-- A move whose destinations are apart keeps the module in place. -/
theorem InPlace.exec (h : u.InPlace w) (hf : u.Fits) (hc : u.Contained) {call : RelocateCall}
    (hr : (call.exec host).run w = (.ok (), w')) (hapart : u.ApartCall call.newRam call.moves w w') :
    u.InPlace w' := by
  obtain ⟨moves, hmoves, -, -, hdone⟩ := Placed.exec_ok h hf hc hr
  cases hdone with
  | inl hx =>
    have hp : u.Placed (u.recorded w) w.handle.pRam w'.handle w'.mem := hx.1.symm ▸ hx.2.1.symm ▸ h
    exact hp.inPlace
  | inr hx =>
    obtain ⟨q, ⟨evs, he, hdest⟩, hne, -, -, hgo⟩ := hx
    exact (hgo (hapart evs q he hdest (Or.inr hne) moves hmoves)).placed.inPlace

theorem ramSize_eq (hf : u.Fits) :
    (udynlinkComputeRamSize u.pHeader u.mode).run u.m = UInt32.ofNat u.ram :=
  ramSizeForHeader_run (getSectab_of_table rfl hf.table) hf

theorem InPlace.parts_eq (h : u.InPlace w) (hf : u.Fits) :
    blockParts u.mode w.mem w.handle.pHeader = blockParts u.mode u.m u.pHeader := by
  have hnum := hf.main
  have hown : (getSectab w.handle.pHeader false).run w.mem =
      (.ok (), sectView w.handle.pHeader u.header) := Placed.getSectab_run h hf
  have hsrc : (getSectab u.pHeader false).run u.m = (.ok (), u.tab) :=
    getSectab_of_table rfl hf.table
  have hheader : decodeHeader w.mem w.handle.pHeader = u.header := Placed.header h hf
  have hentry : ∀ j, j < 3 →
      entriesAt w.mem (sectView w.handle.pHeader u.header).pEntries j = u.es j :=
    fun j hj => Placed.entries h hf (by omega)
  have hfown : SectionedFits (decodeHeader w.mem w.handle.pHeader)
      (sectView w.handle.pHeader u.header).num
      (entriesAt w.mem (sectView w.handle.pHeader u.header).pEntries) u.mode := by
    rw [hheader]
    refine ⟨hf.table.congr hnum fun i hi => Placed.entries h hf hi, hnum, ?_⟩
    rw [exactRamSections, placedEnd_congr fun j _ hj =>
      hentry j (by have := firstPlaced_le u.mode; omega)]
    exact hf.ram
  have hoff : ∀ i, firstPlaced u.mode ≤ i → i < 3 →
      (ownOffset u.mode w.mem w.handle.pHeader i).toNat =
        (ownOffset u.mode u.m u.pHeader i).toNat := by
    intro i hi h3
    rw [ownOffset_toNat hown hfown hi h3, ownOffset_toNat hsrc hf hi h3, hheader]
    exact exactMainOffset_congr hi fun j hj => hentry j (by omega)
  have hfirst := firstPlaced_le u.mode
  have htab : ownTable w.mem w.handle.pHeader = sectView w.handle.pHeader u.header := by
    rw [ownTable, hown]
  have htab' : ownTable u.m u.pHeader = u.tab := by rw [ownTable, hsrc]
  have hcount : getNonmainBasesSize (sectView w.handle.pHeader u.header) =
      getNonmainBasesSize u.tab := rfl
  have hheader' : decodeHeader u.m u.pHeader = u.header := rfl
  have hes : ∀ j, entriesAt u.m u.tab.pEntries j = u.es j := fun _ => rfl
  unfold blockParts
  rw [htab, htab', hheader, hheader', hcount]
  dsimp only
  rw [hoff 1 hfirst (by omega), hoff 2 (by omega) (by omega), hentry 1 (by omega),
    hentry 2 (by omega), hes 1, hes 2]
  by_cases hx : u.mode = .xip
  · rw [if_pos hx, if_pos hx]
  · rw [if_neg hx, if_neg hx, hoff 0 (by rw [firstPlaced, if_neg hx]) (by omega),
      hentry 0 (by omega), hes 0]

end SectionedImage

/-- What the sizes take for granted of the image: they do not wrap, and the words its
entries name are the module's. -/
structure SizedImage (image : Image) (mode : LoadMode) (m : Mem) : Prop where
  contained : LoadContained image mode m
  moved : SectionedImage.Contained ⟨image.pHeader, m, mode⟩

/-- A successful move whose destinations are apart from what is in use. -/
def ApartMove (host : Host) (image : Image) (mode : LoadMode) (m : Mem) (w w' : State) : Prop :=
  ∃ call : RelocateCall, (call.exec host).run w = (.ok (), w') ∧
    SectionedImage.ApartCall ⟨image.pHeader, m, mode⟩ call.newRam call.moves w w'

theorem moves_sized {host : Host} {image : Image} {mode : LoadMode} {loadAddr : Addr}
    {loadSize : UInt32} {w w₁ w₂ : State} {evs : List (Event HostEvent)}
    (hload : (udynlinkLoadModuleImage host image loadAddr loadSize mode).run w = (.ok (), w₁))
    (hnum : 3 ≤ (imageView image w.mem).num) (himg : SizedImage image mode w.mem)
    (he : w.Extends w₁ evs)
    (hfair : FairBlocks (imageSource image w.mem) loadAddr loadSize (hostEvents evs))
    (hmoves : Relation.ReflTransGen (ApartMove host image mode w.mem) w₁ w₂) :
    Sized image mode w.mem loadAddr (hostEvents evs) w₂ := by
  obtain ⟨tab, ramSize, ramAddr, w1, w2, w3, w4, hs⟩ := loadStages_of_ok hload
  have hview := imageView_of_sectab hs.sectab
  have ht : tab.num ≠ 0 := by
    rw [hview] at hnum
    omega
  obtain ⟨htab, hf, secs, names, hl⟩ := sectioned_loaded hs ht himg.contained he hfair
  let u : SectionedImage := ⟨image.pHeader, w.mem, mode⟩
  have hsize : ramSize = UInt32.ofNat u.ram := by
    have hram := ramSize_of_stages hs rfl rfl (htab ▸ hf)
    rw [← UInt32.ofNat_toNat (x := ramSize), hram, htab]
    rfl
  obtain ⟨rs, -, hcall⟩ := hl.callbacks
  rw [htab] at hl
  have hplaced : u.Placed secs ramAddr w₁.handle w₁.mem :=
    (SectionedLoaded.alignedAt (u := u) rfl hf hl).placed
  have hrun : u.InPlace w₂ := by
    induction hmoves with
    | refl => exact hplaced.inPlace
    | tail _ hstep ih =>
      obtain ⟨call, hr, happ⟩ := hstep
      exact ih.exec hf himg.moved hr happ
  have hcomputed : (udynlinkComputeRamSize image.pHeader mode).run w.mem = UInt32.ofNat u.ram :=
    SectionedImage.ramSize_eq (u := u) hf
  refine ⟨blockLayout_of_fits (getSectab_of_table rfl hf.table) hf, ?_, fun hz hne => ?_, ?_⟩
  · exact SectionedImage.InPlace.parts_eq hrun hf
  · rw [hcomputed] at hne ⊢
    rw [hcall evs he, mainHost, hsize, if_neg (by simp [hne, hz])]
    exact ⟨_, _, _, rfl⟩
  · rw [hcomputed]
    exact SectionedImage.Placed.ramSize_run hrun hf

/-! ## Two images -/

theorem moves_sized_ownSection :
    Sized ownSectionImage .copyTextData ownSectionRom 0 (hostEvents ownSectionLoaded.trace)
      ownSectionMoved := by
  obtain ⟨call, hr, hfairCall⟩ := ownSection_fairMove
  rw [if_neg ownSection_table] at hfairCall
  exact moves_sized (w := ⟨ownSectionRom, Module.free, []⟩) ownSection_loads (by decide +kernel)
    ⟨ownSection_contained, ownSection_fair.moved ownSection_table⟩ ownSection_extends
    ownSection_fairBlocks (.single ⟨call, hr, hfairCall.apart⟩)

/-- An image behind the block the host grants: its entry names a word between `.data`
and `.bss`, and the word is the one with the code size. -/
def overHeaderRom : Mem := .ofWords 0x1000
  [0x4D4C4455, 0x03010000, 0x00060000, 0x00070001, 24, 4, 4, 0, 12, 1, 2, 0x18000014, 0, 0x40000000,
    0, 0x6D, 0, 0, 4, 4, 0, 0x80000000, 0, 4, 4, 4, 1, 0x80000000, 0, 32, 0, 32, 2, 0x80000000,
    0x47704770, 7]

def overHeaderImage : Image := ⟨0x1000, 0x1020, 0x1028, 0x1088, 0x108C⟩

def overHeaderHost : Host := .bump 0xFE0 fun _ => 0

def overHeaderLoaded : State :=
  ((udynlinkLoadModuleImage overHeaderHost overHeaderImage 0 0 .copyTextData).run
    ⟨overHeaderRom, Module.free, []⟩).2

theorem load_resizes :
    ((udynlinkLoadModuleImage overHeaderHost overHeaderImage 0 0 .copyTextData).run
        ⟨overHeaderRom, Module.free, []⟩).1 = .ok () ∧
      (imageView overHeaderImage overHeaderRom).num = 3 ∧
      imageRam overHeaderImage .copyTextData overHeaderRom = 32 ∧
      ¬ Sized overHeaderImage .copyTextData overHeaderRom 0 (hostEvents overHeaderLoaded.trace)
        overHeaderLoaded := by
  refine ⟨by decide +kernel, by decide +kernel, by decide +kernel, fun h => ?_⟩
  exact absurd h.current (by decide +kernel)

end Udynlink
