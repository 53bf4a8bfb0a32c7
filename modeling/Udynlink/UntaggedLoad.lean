import Udynlink.LoadReference

/-!
# Untagged loads

A load that returns OK has placed and relocated the image as the reference
says, whenever the image is faithful to its description. The result does not
depend on the order of the relocation entries.
-/

namespace Udynlink

open Machine

variable {host : Host} {image : Image} {loadAddr : Addr} {loadSize : UInt32} {mode : LoadMode}
  {w w' : State} {tab : SectView} {ramSize : UInt32} {ramAddr : Addr} {w1 w2 w3 w4 : State}
  {resolve : List UInt8 → Addr}

namespace UntaggedImage

/-- The handle a load leaves. -/
def loadedHandle (u : UntaggedImage) (ramSize : UInt32) (loadAddr ramAddr : Addr)
    (mod : Module) : Module :=
  placedHandle u.mode (ramAddr + UInt32.ofNat (4 * u.header.numLot.toNat))
    (provisionHandle ramSize loadAddr ramAddr (startHandle u.image u.mode mod))

theorem loadedHandle_placed {u : UntaggedImage} {mod : Module}
    (hempty : ramSize = 0 → ramAddr = 0) :
    u.PlacedHandle ramAddr (u.loadedHandle ramSize loadAddr ramAddr mod) := by
  refine ⟨?_, ?_, ?_⟩
  · rw [loadedHandle, placedHandle_pRam, provisionHandle_pRam hempty]
  · rw [loadedHandle, placedHandle_mode, provisionHandle_mode, startHandle, Module.mode_setMode]
  · rw [loadedHandle, placedHandle]
    split
    · rfl
    · rw [provisionHandle_pHeader]
      rfl

/-- The payload and relocation stages of a load, whatever its entries are. -/
structure Walked (u : UntaggedImage) (host : Host) (mod : Module) (tab : SectView) (p : Addr)
    (w2 w3 w4 : State) (ans : Nat → UInt32) (rs : List HostEvent) : Prop where
  placed : Did w2 w3 (Blit.applyAll (placedBlits u.image u.header u.mode p))
    ((placedBlits u.image u.header u.mode p).map Blit.span) []
  mem : w3.mem = u.placed p
  handle : w4.handle = mod
  resolves : OnlyResolves rs
  patched : Did w3 w4 (Patch.applyAll (relocPatches ans mod tab false u.image.relocSource
      (u.placed p) 0 u.header.numRels.toNat))
    ((List.range' 0 u.header.numRels.toNat).flatMap
      (relocSpans mod tab u.image.relocSource (u.placed p))) rs
  entries : ∀ i, i < u.header.numRels.toNat → EntryOk host (u.Fixed p) mod tab false
    u.image.relocSource (u.placed p) (Patch.applyAll (relocPatches ans mod tab false
      u.image.relocSource (u.placed p) 0 i) (u.placed p)) i (ans i)

theorem walked_of_stages {u : UntaggedImage}
    (hs : LoadStages host u.image loadAddr loadSize u.mode w w' tab ramSize ramAddr w1 w2 w3 w4)
    (hm : w.mem = u.m) (hf : UntaggedFits u.header u.mode)
    (hc : SourceClear u.image u.header u.mode ramAddr) :
    ∃ ans rs, u.Walked host (u.loadedHandle ramSize loadAddr ramAddr w.handle) tab ramAddr w2 w3 w4
      ans rs := by
  have hu := hf.untagged
  have hh : decodeHeader w.mem u.image.pHeader = u.header := by rw [hm, header]
  have ht : tab.num = 0 := (view_untagged hs.sectab).mpr (by rw [hh, hu])
  obtain ⟨as, hw1⟩ := hs.checked
  have hmem1 : w1.mem = u.m := by rw [hw1, World.log_mem, hm]
  have hhandle1 : w1.handle = startHandle u.image u.mode w.handle := by
    rw [hw1, World.log_handle]
  obtain ⟨hblock, hhandle2, hdid2⟩ := provisionRam_ok hs.provision
  have hmem2 : w2.mem = u.m := by
    rw [hdid2.mem, baseBlits, if_pos (Or.inr ht), hmem1]
    rfl
  have hp : u.PlacedHandle ramAddr (u.loadedHandle ramSize loadAddr ramAddr w.handle) :=
    loadedHandle_placed hblock.empty
  -- the place stage
  have hplace := hs.place
  rw [placeImage, Prog.run_lift_bind, readHeader_run, hmem2,
    show decodeHeader u.m u.image.pHeader = u.header from rfl] at hplace
  dsimp only at hplace
  rw [if_neg (by omega), lotBytes, getNonmainBasesSize, if_neg (by omega), UInt32.add_zero]
    at hplace
  obtain ⟨hhandle3, hdid3⟩ := placeUntagged_ok (h := u.header)
    (by rw [World.log_mem, hmem2, header]) hf hc
    (by rw [World.log_handle, hhandle2, provisionHandle_pRam hblock.empty])
    (by rw [World.log_handle, hhandle2, provisionHandle_pHeader, hhandle1]; rfl)
    (by rw [World.log_handle, hhandle2, provisionHandle_mode, hhandle1, startHandle,
      Module.mode_setMode]) hplace
  have hmem3 : w3.mem = u.placed ramAddr := by
    rw [hdid3.mem, World.log_mem, hmem2]
    rfl
  rw [World.log_handle, hhandle2, hhandle1] at hhandle3
  -- the relocation stage
  have hsrc := placed_sourceHeader hf hc
  have htab : (getSectab u.image.pHeader false).run w3.mem = (.ok (), tab) := by
    have hfirst := getSectab_unnamed hs.sectab
    rw [getSectab_untagged (by rw [hh, hu]), hh] at hfirst
    rw [getSectab_untagged (by rw [hmem3, hsrc, hu]), hmem3, hsrc]
    exact hfirst
  obtain ⟨bs, hloop⟩ := loadApplyRelocations_ok u.image.relocSource htab hs.relocate
  have hnum : decodeHeader w3.mem u.image.relocSource.pHeader = u.header := by
    rw [hmem3]
    exact hsrc
  rw [hnum, show decide (tab.num > 0) = false by rw [ht]; rfl] at hloop
  have hn := u.header.numRels.toNat_lt
  have hW := placed_walkIn hf hc hp ht
  have hclear : ∀ k, k < u.header.numRels.toNat →
      relocSlot (u.loadedHandle ramSize loadAddr ramAddr w.handle) tab u.image.relocSource
        (u.placed ramAddr) k ≠ 0 →
      ∀ s ∈ relocSpans (u.loadedHandle ramSize loadAddr ramAddr w.handle) tab u.image.relocSource
        (u.placed ramAddr) k, ∀ a, u.Fixed ramAddr a → a ∉ s := by
    intro k hk hne s hsp a ha hmem
    obtain ⟨hr, hslot⟩ := placed_slot hf hc hp ht hk hne
    have hsub := relocSpans_sub hsp
    rw [hsub, hslot] at hmem
    exact not_fixed_slot hf hr hmem ha
  obtain ⟨hhandle4, ans, es, hres, hdid4, hall⟩ := applyRelocationsLoop_ok hW hn (fun _ => ht) hclear
    (n := u.header.numRels.toNat) (i := 0) (by omega) (w := w3.log (readEvents bs)) hhandle3
    (fun a _ => by rw [World.log_mem, hmem3]) hloop
  refine ⟨ans, es, Did.of_log hdid3, hmem3, hhandle4, hres, Did.of_log hdid4, fun i hi => ?_⟩
  have hk := hall i hi
  rw [Nat.zero_add, World.log_mem, hmem3] at hk
  exact hk

/-- The stages of a load of a faithful image. -/
theorem patched_of_stages {u : UntaggedImage}
    (hs : LoadStages host u.image loadAddr loadSize u.mode w w' tab ramSize ramAddr w1 w2 w3 w4)
    (hm : w.mem = u.m) (hu : isSectioned u.header = false) (hq : u.Faithful)
    (hres : ∀ v name, host.resolve v name = u.resolve name)
    (hd : (u.entries.map Prod.fst).Nodup)
    (hc : SourceClear u.image u.header u.mode ramAddr) :
    w4.handle = u.loadedHandle ramSize loadAddr ramAddr w.handle ∧
      ∃ patch, u.Patched ramAddr patch w4.mem := by
  have hh : decodeHeader w.mem u.image.pHeader = u.header := by rw [hm, header]
  have ht : tab.num = 0 := (view_untagged hs.sectab).mpr (by rw [hh, hu])
  have hcaps := hs.caps.extent
  rw [hh] at hcaps
  have hmax : maxImageSize.toNat < 2 ^ 32 := by decide
  have hf : UntaggedFits u.header u.mode := ⟨hu, by omega, hq.ram⟩
  have hp : u.PlacedHandle ramAddr (u.loadedHandle ramSize loadAddr ramAddr w.handle) :=
    loadedHandle_placed (provisionRam_ok hs.provision).1.empty
  obtain ⟨ans, rs, hw⟩ := walked_of_stages hs hm hf hc
  refine ⟨hw.handle, fun k => relocPatch (fun _ => ans k)
    (u.loadedHandle ramSize loadAddr ramAddr w.handle) tab false u.image.relocSource
    (u.placed ramAddr) k, ?_⟩
  have hacc : ∀ i, i < u.header.numRels.toNat → u.Accepted ramAddr (relocPatch (fun _ => ans i)
      (u.loadedHandle ramSize loadAddr ramAddr w.handle) tab false u.image.relocSource
      (u.placed ramAddr) i) (u.entry i) := by
    intro i hi
    exact accepted hf hc hp ht hq hres hi (hw.entries i hi)
  refine ⟨hacc, slots_pairwise hf (fun i hi => (hacc i hi).slot) (fun i hi => (hacc i hi).inRange) hd,
    ?_⟩
  rw [hw.patched.mem, hw.mem]
  rfl

/-- Fair blocks leave the image alone. -/
theorem sourceClear_of_fair {u : UntaggedImage} {mainAlign : UInt32} {hs : List HostEvent}
    (hb : BlockOk mainAlign ramSize loadAddr loadSize ramAddr)
    (hsize : ramSize.toNat = exactRamUntagged u.header u.mode)
    (hfair : FairBlocks (untaggedSource u.image u.header) loadAddr loadSize
      (mainHost mainAlign ramSize loadAddr ramAddr ++ hs)) :
    SourceClear u.image u.header u.mode ramAddr := by
  intro s hsrc a ha hmem
  by_cases hz : ramSize = 0
  · rw [← hsize, hz] at hmem
    exact Span.not_mem_zero _ _ hmem
  · obtain ⟨b, hbm, hsub⟩ := hb.subset hz hs
    rw [← hsize] at hmem
    exact hfair.clear s hsrc b hbm a ha (hsub a hmem)

/-- A load with fair blocks has a layout that fits, clear of the image. -/
theorem fits_of_stages {u : UntaggedImage}
    (hs : LoadStages host u.image loadAddr loadSize u.mode w w' tab ramSize ramAddr w1 w2 w3 w4)
    (hm : w.mem = u.m) (ht : tab.num = 0) (hram : exactRamUntagged u.header u.mode < 2 ^ 32)
    {evs : List (Event HostEvent)} (he : w.Extends w' evs)
    (hfair : FairBlocks (untaggedSource u.image u.header) loadAddr loadSize (hostEvents evs)) :
    UntaggedFits u.header u.mode ∧ SourceClear u.image u.header u.mode ramAddr ∧
      ramSize.toNat = exactRamUntagged u.header u.mode := by
  have hh : decodeHeader w.mem u.image.pHeader = u.header := by rw [hm, header]
  have hu : isSectioned u.header = false := hh ▸ (view_untagged hs.sectab).mp ht
  have hblock := (provisionRam_ok hs.provision).1
  obtain ⟨e2, h2⟩ := Prog.extends_of_run hs.place
  obtain ⟨e3, h3⟩ := Prog.extends_of_run hs.relocate
  rw [hs.callbacks he h2 h3] at hfair
  have hsize : ramSize.toNat = exactRamUntagged u.header u.mode := by
    have hr := hs.caps.ram
    rw [hh, exactRam, if_neg (by omega)] at hr
    rw [hr, toNat_ofNat_of_lt hram]
  have hmax : maxImageSize.toNat < 2 ^ 32 := by decide
  have hcaps := hs.caps.extent
  rw [hh] at hcaps
  exact ⟨⟨hu, by omega, hram⟩, sourceClear_of_fair hblock hsize hfair, hsize⟩

/-- What a load leaves at `p`. -/
structure Loaded (u : UntaggedImage) (p : Addr) (w' : State) : Prop where
  fits : UntaggedFits u.header u.mode
  clear : SourceClear u.image u.header u.mode p
  handle : u.PlacedHandle p w'.handle
  patched : ∃ patch, u.Patched p patch w'.mem
  named : w'.handle.numNamedSyms = (computeNumNamedSyms w'.handle.pHeader).run w'.mem

theorem loaded_of_ok {u : UntaggedImage} (hm : w.mem = u.m)
    (hrun : (udynlinkLoadModuleImage host u.image loadAddr loadSize u.mode).run w = (.ok (), w'))
    (hu : isSectioned u.header = false) (hres : ∀ v name, host.resolve v name = u.resolve name)
    (hd : (u.entries.map Prod.fst).Nodup) {evs : List (Event HostEvent)} (he : w.Extends w' evs)
    (hfair : FairBlocks (untaggedSource u.image u.header) loadAddr loadSize (hostEvents evs))
    (hq : u.Faithful) : u.Loaded w'.handle.pRam w' := by
  obtain ⟨tab, ramSize, ramAddr, w1, w2, w3, w4, hs⟩ := loadStages_of_ok hrun
  have hh : decodeHeader w.mem u.image.pHeader = u.header := by rw [hm, header]
  have ht : tab.num = 0 := (view_untagged hs.sectab).mpr (by rw [hh, hu])
  have hblock := (provisionRam_ok hs.provision).1
  obtain ⟨hf, hc, -⟩ := fits_of_stages hs hm ht hq.ram he hfair
  obtain ⟨hhandle, patch, hp⟩ := patched_of_stages hs hm hu hq hres hd hc
  obtain ⟨bs, hw'⟩ := hs.finished
  have hplaced : u.PlacedHandle ramAddr w4.handle := hhandle ▸ loadedHandle_placed hblock.empty
  have hfinal : u.PlacedHandle ramAddr w'.handle := by
    rw [hw', World.log_handle]
    exact ⟨hplaced.pRam, hplaced.mode, hplaced.pHeader⟩
  rw [hfinal.pRam]
  refine ⟨hf, hc, hfinal, ⟨patch, ?_⟩, ?_⟩
  · rw [hw', World.log_mem]
    exact hp
  · rw [hw', World.log_handle, World.log_mem]

end UntaggedImage

/-- An untagged load that returns OK leaves the reference, and no memory that
fits the reference for another order of the entries differs from it. -/
theorem untagged_load_reference {u : UntaggedImage} (hm : w.mem = u.m)
    (hrun : (udynlinkLoadModuleImage host u.image loadAddr loadSize u.mode).run w = (.ok (), w'))
    (hu : isSectioned u.header = false) (hres : ∀ v name, host.resolve v name = u.resolve name)
    (hd : (u.entries.map Prod.fst).Nodup) {evs : List (Event HostEvent)} (he : w.Extends w' evs)
    (hfair : FairBlocks (untaggedSource u.image u.header) loadAddr loadSize (hostEvents evs))
    (hq : u.Faithful) :
    u.Reference u.entries w'.handle.pRam w'.mem ∧
      u.LotKept u.entries w'.handle.pRam w.mem w'.mem ∧
      ∀ es m', es.Perm u.entries → u.Reference es w'.handle.pRam m' →
        u.LotKept es w'.handle.pRam w.mem m' →
        ∀ i, i < exactRamUntagged u.header u.mode →
          i < 4 * u.header.numLot.toNat ∨ untaggedCodeOff u.header u.mode ≤ i →
          m' (w'.handle.pRam + UInt32.ofNat i) = w'.mem (w'.handle.pRam + UInt32.ofNat i) := by
  have hl := UntaggedImage.loaded_of_ok hm hrun hu hres hd he hfair hq
  obtain ⟨patch, hp⟩ := hl.patched
  obtain ⟨href, hlot⟩ := hp.reference hl.fits hl.clear hq
  rw [hm]
  refine ⟨href, hlot, fun es m' hperm hr hl i hi hregion => ?_⟩
  have hr' := hr.perm hperm.symm
  have hl' := hl.perm hperm.symm
  rcases hregion with hlo | hhi
  · exact href.agree_lotKept hr' hlot hl' hlo
  · exact href.agree_behind hr' hhi hi

/-! ## Two images -/

/-- A LOT word for a function of the module, and a data word with its offset. -/
def pointersRom : Mem := .ofWords 0x1000
  [0x4D4C4455, 0x03010000, 0x00010000, 2, 24, 4, 4, 4, 0, 1, 1, 0x40000000,
    2, 0x18000014, 0, 0x40000000, 0, 0x6D, 0x47704770, 2]

def pointersImage : UntaggedImage :=
  ⟨⟨0x1000, 0x1020, 0x1030, 0x1048, 0x104C⟩, pointersRom, .copyTextData, fun _ => 0⟩

def pointersHost : Host := .bump 0x20000000 fun _ => 0

def pointersLoaded : State :=
  ((udynlinkLoadModuleImage pointersHost pointersImage.image 0 0 .copyTextData).run
    ⟨pointersRom, Module.free, []⟩).2

/-- The answer, the block and the grant. -/
theorem pointers_load :
    ((udynlinkLoadModuleImage pointersHost pointersImage.image 0 0 .copyTextData).run
        ⟨pointersRom, Module.free, []⟩).1 = .ok () ∧
      pointersLoaded.handle.pRam = 0x20000000 ∧
      loadBlocks 0 0 (hostEvents pointersLoaded.trace) = [⟨0x20000000, 16⟩] := by
  decide +kernel

theorem pointers_loads :
    (udynlinkLoadModuleImage pointersHost pointersImage.image 0 0 pointersImage.mode).run
      ⟨pointersRom, Module.free, []⟩ = (.ok (), pointersLoaded) := by
  have hmode : pointersImage.mode = .copyTextData := rfl
  rw [hmode]
  exact Prod.ext pointers_load.1 (by rw [pointersLoaded])

theorem pointers_extends :
    World.Extends ⟨pointersRom, Module.free, []⟩ pointersLoaded pointersLoaded.trace := by
  obtain ⟨evs, he⟩ := Prog.extends_of_run pointers_loads
  have htrace : pointersLoaded.trace = evs := he.1
  rwa [htrace]

theorem pointers_fairBlocks : FairBlocks (untaggedSource pointersImage.image pointersImage.header)
    0 0 (hostEvents pointersLoaded.trace) :=
  fairBlocks_above pointers_load.2.2 (by decide +kernel) (by decide)

/-- The entries, and the symbol that the first one names. -/
theorem pointers_entries : pointersImage.entries = [(0, 1), (1, 0x40000000)] ∧
    pointersImage.sym (0, 1) = some ⟨.notAvailable, 0, 0, .code⟩ := by
  decide +kernel

/-- Entries name symbols of the module. -/
theorem pointers_own {e : RelocEntry} (hmem : e ∈ pointersImage.entries)
    (hb : isBaseRelocation e.2 = false) {sym : Sym} (hs : pointersImage.sym e = some sym) :
    ¬ (sym.type = symTypeWeak ∨ sym.type = symTypeExtern) := by
  obtain ⟨hentries, hsym⟩ := pointers_entries
  rw [hentries] at hmem
  simp only [List.mem_cons, List.not_mem_nil, or_false] at hmem
  rcases hmem with rfl | rfl
  · rw [hsym, Option.some.injEq] at hs
    subst hs
    decide
  · exact absurd hb (by decide)

theorem untagged_load_reference_pointers :
    pointersImage.Reference pointersImage.entries pointersLoaded.handle.pRam pointersLoaded.mem := by
  have hq : pointersImage.Faithful := by
    refine ⟨by decide +kernel, fun _ => by decide +kernel, fun hm => ?_, fun e hmem hb sym hs ht =>
      absurd ht (pointers_own hmem hb hs)⟩
    exact absurd hm (by decide)
  exact (untagged_load_reference rfl pointers_loads (by decide +kernel) (fun _ _ => rfl)
    (by decide +kernel) pointers_extends pointers_fairBlocks hq).1

/-- Four bytes of code and, apart from them, four bytes of data. -/
def scatteredRom : Mem := .ofWords 0x1000
  [0x4D4C4455, 0x03010000, 0, 0, 0, 4, 4, 0, 0x47704770, 0x11111111, 0x22222222]

def scatteredImage : UntaggedImage :=
  ⟨⟨0x1000, 0x1020, 0x1020, 0x1020, 0x1028⟩, scatteredRom, .copyTextData, fun _ => 0⟩

def scatteredLoaded : State :=
  ((udynlinkLoadModuleImage pointersHost scatteredImage.image 0 0 .copyTextData).run
    ⟨scatteredRom, Module.free, []⟩).2

/-- COPY_TEXT_DATA takes the data from behind the code, wherever it is. -/
theorem scattered_data_not_copied :
    ((udynlinkLoadModuleImage pointersHost scatteredImage.image 0 0 .copyTextData).run
        ⟨scatteredRom, Module.free, []⟩).1 = .ok () ∧
      ¬ scatteredImage.Reference scatteredImage.entries scatteredLoaded.handle.pRam
        scatteredLoaded.mem := by
  refine ⟨by decide +kernel, fun h => ?_⟩
  have hent : scatteredImage.entries = [] := by decide +kernel
  have hbyte := h.data 0 (by decide +kernel) fun e he => absurd he (by rw [hent]; exact List.not_mem_nil)
  exact absurd hbyte (by decide +kernel)

end Udynlink
