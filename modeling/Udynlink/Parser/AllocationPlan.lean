import Udynlink.Parser.RuntimeLayout

/-!
# What the tool expects a load to ask for

`allocation_plan` lists the calls of the allocator that a load makes. A load that is
given no block makes these calls, in this order, but for those of size 0.
-/

namespace Udynlink.Parser

open Machine

/-! ## Names of sections -/

/-- A string that is terminated in `n` bytes, up to its terminator. -/
theorem cstr_takeWhile {m : Mem} {p : Addr} {n k : Nat} (hz : (Reader.memchr0 n p).run m = true)
    (hk : n ≤ k) : (Reader.cstr k p).run m =
      ((List.range n).map fun i => m (p + UInt32.ofNat i)).takeWhile fun b => decide (b ≠ 0) := by
  induction n generalizing p k with
  | zero => simp [Reader.memchr0] at hz
  | succ n ih =>
    obtain ⟨k, rfl⟩ : ∃ k', k = k' + 1 := ⟨k - 1, by omega⟩
    rw [Reader.memchr0, Reader.run_bind, Reader.run_ite] at hz
    rw [Reader.cstr, Reader.run_bind, Reader.run_ite, List.range_succ_eq_map, List.map_cons,
      List.map_map, List.takeWhile_cons, off_zero]
    have hnext : ((fun i => m (p + UInt32.ofNat i)) ∘ Nat.succ) =
        fun i => m (p + 1 + UInt32.ofNat i) := by
      funext i
      rw [Function.comp_apply, show p + 1 = p + UInt32.ofNat 1 from rfl, off_off, Nat.add_comm 1 i]
    by_cases h0 : (Reader.byte p).run m = 0
    · have hb : m p = 0 := h0
      rw [if_pos h0, hb]
      rfl
    · have hb : ¬ m p = 0 := h0
      rw [if_neg h0] at hz
      rw [if_neg h0, Reader.run_bind, Reader.run_pure, ih hz (by omega), hnext,
        if_pos (by simp [hb])]
      rfl

section

variable {m : Mem} {p : Addr} {data : Bytes} {h : Header} {es : Nat → SectEntry} {n i j : Nat}

theorem tableFrom_name {symtabBytes : Bytes} {symtSize off : Nat} {e : ImageSection}
    (he : e ∈ tableFrom data symtabBytes symtSize off n i) :
    e.name = if e.nameOff ≠ 0 then poolName symtabBytes e.nameOff symtSize else none := by
  induction n generalizing i with
  | zero => simp [tableFrom] at he
  | succ n ih =>
    rcases List.mem_cons.mp he with rfl | he
    · rfl
    · exact ih he

/-- The name of a section in the pool, to the parser and to the loader. -/
theorem poolName_same {e : SectEntry} (hb : HasBytes m p data)
    (hs : SameHeader (ModuleHeader.ofBytes data) h)
    (hn : (ModuleHeader.ofBytes data).numSections = (getNumSectionsRaw h).toNat)
    (hlen : (ModuleHeader.ofBytes data).codeOffset ≤ data.length)
    (hname : (entryNamed h (getSymTablePointer p h) true e).run m = true) (h0 : e.nameOff ≠ 0) :
    poolName (symtabOf data) e.nameOff.toNat (ModuleHeader.ofBytes data).symtSize =
      ((readSectName (some (getSymTablePointer p h + e.nameOff))).run m).map decodeUtf8 := by
  obtain ⟨hsym, hsectab, hcode⟩ := hs.offsets hn
  rw [entryNamed, if_pos (by simp [h0]), entryNameOk, Reader.run_ite] at hname
  split at hname
  next => simp at hname
  next hlt =>
    have hoff : e.nameOff.toNat < h.symtSize.toNat :=
      UInt32.lt_iff_toNat_lt.mp (UInt32.not_le.mp hlt)
    have hle := SectionedImage.symtabEnd_le_codeOffset h
    rw [UInt32.toNat_sub_of_le _ _ (UInt32.le_of_lt (UInt32.not_le.mp hlt))] at hname
    have hsize := hs.symtSize
    have hpool : (symtabOf data).drop e.nameOff.toNat =
        (List.range (h.symtSize.toNat - e.nameOff.toNat)).map fun i =>
          m (getSymTablePointer p h + e.nameOff + UInt32.ofNat i) := by
      rw [symtabOf, hsize, slice, List.drop_take, List.drop_drop]
      have hslice : slice data ((ModuleHeader.ofBytes data).symtabOffset + e.nameOff.toNat)
          (h.symtSize.toNat - e.nameOff.toNat) = _ := hb.slice (by omega)
      rw [slice] at hslice
      rw [hslice]
      have hstart : getSymTablePointer p h + e.nameOff =
          p + UInt32.ofNat ((ModuleHeader.ofBytes data).symtabOffset + e.nameOff.toNat) := by
        have hoffs := off_off p ((getHeaderSize h).toNat + 8 * h.numRels.toNat) e.nameOff.toNat
        rw [UInt32.ofNat_toNat] at hoffs
        rw [getSymTablePointer_eq, hsym, hoffs]
      exact List.map_congr_left fun i _ => by rw [hstart, off_off]
    have hlim : h.symtSize.toNat - e.nameOff.toNat ≤ 2 ^ 32 := by
      have := h.symtSize.toNat_lt
      omega
    rw [poolName, if_neg (by omega), hpool, readSectName, Reader.run_bind, Reader.run_pure,
      readCString, cstr_takeWhile hname hlim]
    rfl

end

/-! ## The calls -/

/-- A request as the tool writes it down. -/
def AllocationCall.ofEvent : HostEvent → Option AllocationCall
  | .malloc size tag _ =>
    some ⟨size.toNat, tag.sect.map decodeUtf8, tag.align.toNat, tag.flags.toNat⟩
  | _ => none

/-- The requests among the callbacks. -/
def requests (hs : List HostEvent) : List AllocationCall := hs.filterMap AllocationCall.ofEvent

theorem requests_append (hs hs' : List HostEvent) :
    requests (hs ++ hs') = requests hs ++ requests hs' := List.filterMap_append

theorem requests_onlyResolves {hs : List HostEvent} (h : OnlyResolves hs) : requests hs = [] := by
  refine List.filterMap_eq_nil_iff.mpr fun e he => ?_
  obtain ⟨name, ans, rfl⟩ := h e he
  rfl

/-- Calls for something. -/
def sizedCalls (calls : List AllocationCall) : List AllocationCall :=
  calls.filter fun c => c.size ≠ 0

section

variable {h : Header} {es : Nat → SectEntry} {secs : Nat → Addr}
  {names : Nat → Option (List UInt8)} {l : List ImageSection} {n k : Nat}

theorem hostFlags_same {e : ImageSection} {s : SectEntry} (he : SameEntry e s) :
    e.hostFlags = (sectHostFlags s).toNat := by
  rw [ImageSection.hostFlags, sectHostFlags, toNat_and_not, he.flags]
  apply Nat.eq_of_testBit_eq
  intro i
  simp only [Nat.testBit_ldiff, UInt32.toNat_or, Nat.testBit_or, Bool.not_or, Bool.and_assoc]
  rfl

theorem requests_taggedHost (hl : List.Forall₂ (EntryAt es) l (List.range' k n))
    (hn : ∀ e ∈ l, ∀ j, k ≤ j → j < k + n → EntryAt es e j → e.name = (names j).map decodeUtf8) :
    requests (taggedHost es secs names n k) =
      sizedCalls (l.map fun sec => ⟨sec.size, sec.name, sec.align, sec.hostFlags⟩) := by
  induction n generalizing k l with
  | zero =>
    cases hl
    rfl
  | succ n ih =>
    rw [List.range'_succ] at hl
    cases hl with
    | @cons sec _ rest _ he hrest =>
      have htail := ih hrest fun e hmem j hj hj' hat =>
        hn e (List.mem_cons_of_mem _ hmem) j (by omega) (by omega) hat
      have hsize : sec.size = 0 ↔ (es k).size = 0 := by
        rw [he.same.size, ← UInt32.toNat_inj]
        rfl
      rw [taggedHost, List.map_cons, sizedCalls, List.filter_cons]
      by_cases hz : (es k).size = 0
      · rw [if_pos hz, htail, if_neg (by simp [hsize.mpr hz])]
        rfl
      · rw [if_neg hz, if_pos (by simp [mt hsize.mp hz]), requests,
          List.filterMap_cons_some (b := ⟨sec.size, sec.name, sec.align, sec.hostFlags⟩) (by
            rw [AllocationCall.ofEvent, ← hn sec List.mem_cons_self k (by omega) (by omega) he,
              ← hostFlags_same he.same, he.same.size, he.same.align])]
        exact congrArg _ htail

end

/-- Without a table the sizes have to be whole words, since the walk of the tool rounds
each section up and the loader does not. -/
def WholeWords (h : Header) (mode : LoadMode) : Prop :=
  (mode ≠ .xip → 4 ∣ h.codeSize.toNat) ∧ 4 ∣ h.dataSize.toNat

section

variable {lay : RuntimeLayout} {h : Header} {es : Nat → SectEntry}

/-- The sections of an image without a table are all main ones. -/
theorem untagged_sections (hs : SameImage lay.image h 0 es) :
    lay.mainSections = synthesizedSections lay.image.header ∧ lay.nonmainSections = [] := by
  have hsyn := hs.synthesized rfl
  constructor
  · simp [RuntimeLayout.mainSections, hsyn, synthesizedSections, ImageSection.isMain, secFlagMain]
  · simp [RuntimeLayout.nonmainSections, hsyn, synthesizedSections, ImageSection.isMain,
      secFlagMain]

theorem untagged_mainAlign (hs : SameImage lay.image h 0 es) : lay.mainAlign = 4 := by
  rw [RuntimeLayout.mainAlign, (untagged_sections hs).1]
  rfl

theorem untagged_ramSize_iff (hs : SameImage lay.image h 0 es) :
    lay.ramSize = exactRamUntagged h lay.mode ↔ WholeWords h lay.mode := by
  have hcode : 4 ∣ exactCodeOffset h := dvd_exactAlignUp ⟨2, rfl⟩
  obtain ⟨hmain, htagged⟩ := untagged_sections hs
  unfold exactRamUntagged
  rw [RuntimeLayout.ramSize, RuntimeLayout.mainBlockWalk, hmain, RuntimeLayout.nonmainBasesSize,
    htagged, WholeWords, synthesizedSections, hs.header.numLot, hs.codeOffset, hs.header.codeSize,
    hs.header.dataSize, hs.header.bssSize]
  cases hm : lay.mode with
  | copyTextData =>
    simp [RuntimeLayout.mainBlockLoop, hm, alignUp]
    omega
  | copyAll =>
    simp [RuntimeLayout.mainBlockLoop, hm, alignUp]
    omega
  | xip =>
    simp [RuntimeLayout.mainBlockLoop, hm, alignUp, secClassCode, secClassData, secClassBss]
    omega

end

/-! ## The requests of a load -/

theorem requests_mainHost (mainAlign ramSize : UInt32) (loadAddr ramAddr : Addr) :
    requests (mainHost mainAlign ramSize loadAddr ramAddr) =
      sizedCalls (if loadAddr = 0 then [⟨ramSize.toNat, none, mainAlign.toNat, 0⟩] else []) := by
  have hz : ramSize.toNat = 0 ↔ ramSize = 0 := by
    rw [← UInt32.toNat_inj]
    rfl
  rw [mainHost]
  by_cases hl : loadAddr = 0
  · by_cases hr : ramSize = 0
    · simp [hl, hr, requests, sizedCalls]
    · simp [hl, hr, hz, requests, sizedCalls, AllocationCall.ofEvent]
  · simp [hl, requests, sizedCalls]

section

variable {host : Host} {image : Image} {mode : LoadMode} {loadAddr : Addr} {loadSize : UInt32}
  {w w₁ : State} {evs : List (Event HostEvent)} {tab : SectView} {ramSize ramAddr : UInt32}
  {w1 w2 w3 w4 : State} {data : Bytes} {img : ModuleImage}

/-- Without tagged sections only the main block is asked for. -/
theorem requests_untagged
    (hs : LoadStages host image loadAddr loadSize mode w w₁ tab ramSize ramAddr w1 w2 w3 w4)
    (h3 : tab.num ≤ 3) (he : w.Extends w₁ evs) : requests (hostEvents evs) =
      requests (mainHost ((getMainAlign tab).run w.mem) ramSize loadAddr ramAddr) := by
  obtain ⟨as, hlast⟩ := hs.finished
  obtain ⟨e2, he2, hev2⟩ := hs.front
  obtain ⟨e3, he3⟩ := Prog.extends_of_run hs.place
  obtain ⟨e4, he4⟩ := Prog.extends_of_run hs.relocate
  have he5 : w4.Extends w₁ (readEvents as) := hlast ▸ ⟨rfl, fun _ _ => rfl⟩
  have hplace := (placeImage_calm (A := IsResolve) host image mode ramAddr h3).run hs.place
  have hrel := (loadApplyRelocations_calm (f := blockOf) host image.pHeader image.pRelocations
    image.pSymtab).run hs.relocate
  rw [he.unique (((he2.trans he3).trans he4).trans he5), hostEvents_append, hostEvents_append,
    hostEvents_append, hostEvents_readEvents, List.append_nil, requests_append, requests_append,
    hev2, requests_onlyResolves (hplace.2 e3 he3), requests_onlyResolves (hrel.2 e4 he4),
    List.append_nil, List.append_nil]

/-- The names of the sections, to the tool and to the load. -/
theorem imageSectName_same (hsect : (getSectab image.pHeader true).run w.mem = (.ok (), tab))
    (ht : tab.num ≠ 0) (hb : HasBytes w.mem image.pHeader data)
    (hcode : (ModuleHeader.ofBytes data).codeOffset ≤ data.length)
    (hs : SameImage img (decodeHeader w.mem image.pHeader) tab.num (entriesAt w.mem tab.pEntries))
    (hheader : img.header = ModuleHeader.ofBytes data) (hsections : img.sections = sectionsOf data)
    {e : ImageSection} (hmem : e ∈ img.sections) {j : Nat} (hj : j < tab.num)
    (hat : EntryAt (imageEntry image w.mem) e j) :
    e.name = (imageSectName image w.mem j).map decodeUtf8 := by
  have hview := imageView_of_sectab hsect
  have hh : SameHeader (ModuleHeader.ofBytes data) (decodeHeader w.mem image.pHeader) :=
    hheader ▸ hs.header
  obtain ⟨hnum, hcount, -⟩ := numSections_accepted hsect hh
  have hsec : (ModuleHeader.ofBytes data).hasSections = true := by
    by_contra hno
    rw [hh.hasSections, Bool.not_eq_true] at hno
    exact ht ((view_untagged hsect).mpr hno)
  rw [hsections, sectionsOf, if_pos hsec] at hmem
  have hname := tableFrom_name hmem
  have hoff := hat.same.nameOff
  rw [imageEntry, hview] at hoff
  rcases getSectab_ok hsect with ⟨-, hx⟩ | ⟨htab, -, hnames⟩
  · rw [hx] at ht
    exact absurd rfl ht
  · have hpool : tab.pPool =
        getSymTablePointer image.pHeader (decodeHeader w.mem image.pHeader) := by
      rw [htab]
      rfl
    have hentries : tab.pEntries =
        image.pHeader + getSectabOffset (decodeHeader w.mem image.pHeader) := by
      rw [htab]
      rfl
    have hnamed := hnames j (by omega)
    rw [← hentries] at hnamed
    rw [imageSectName, imageEntry, hview, sectName, hname, hoff]
    by_cases h0 : (entriesAt w.mem tab.pEntries j).nameOff = 0
    · rw [if_neg (by simp [h0]), if_neg (by simp [h0])]
      rfl
    · have h0' : (entriesAt w.mem tab.pEntries j).nameOff.toNat ≠ 0 := fun hz =>
        h0 (UInt32.toNat_inj.mp hz)
      rw [if_pos h0', if_pos h0, hpool]
      exact poolName_same hb hh hnum hcode hnamed h0

/-- Only the size of the main block may differ from the plan. -/
theorem requests_split (lay : RuntimeLayout) (himg : lay.image = img) (hmode : lay.mode = mode)
    (hs : LoadStages host image loadAddr loadSize mode w w₁ tab ramSize ramAddr w1 w2 w3 w4)
    (hcont : LoadContained image mode w.mem) (he : w.Extends w₁ evs)
    (hfair : FairBlocks (imageSource image w.mem) loadAddr loadSize (hostEvents evs))
    (hb : HasBytes w.mem image.pHeader data) (hp : parseModule data true = .ok img) :
    requests (hostEvents evs) =
        sizedCalls (if loadAddr = 0 then [⟨ramSize.toNat, none, lay.mainAlign, 0⟩] else []) ++
          sizedCalls lay.allocationPlan.tail ∧
      (lay.ramSize = ramSize.toNat ↔
        (tab.num = 0 → WholeWords (decodeHeader w.mem image.pHeader) mode)) := by
  have hview := imageView_of_sectab hs.sectab
  obtain ⟨hsame, hheader, hsections⟩ := sameImage_of_accepted (acceptedAt_of_stages hs) hb hp
  have hsize : ramSize.toNat = exactRam (decodeHeader w.mem image.pHeader) tab.num
      (entriesAt w.mem tab.pEntries) mode := by
    have hram := hcont.ram
    rw [imageRam, hview] at hram
    rw [hs.caps.ram, toNat_ofNat_of_lt hram]
  have htail : lay.allocationPlan.tail =
      lay.nonmainSections.map fun sec => ⟨sec.size, sec.name, sec.align, sec.hostFlags⟩ := rfl
  rw [← himg] at hsame hsections
  by_cases ht : tab.num = 0
  · rw [ht] at hsame
    have halign : lay.mainAlign = ((getMainAlign tab).run w.mem).toNat := by
      rw [untagged_mainAlign hsame, getMainAlign_empty ht]
      rfl
    refine ⟨?_, ?_⟩
    · rw [requests_untagged hs (by omega) he, requests_mainHost, halign, htail,
        (untagged_sections hsame).2]
      exact (List.append_nil _).symm
    · rw [hsize, exactRam, if_neg (by omega), ← hmode, untagged_ramSize_iff hsame]
      exact ⟨fun hw _ => hw, fun hw => hw ht⟩
  · obtain ⟨htab, hf, -⟩ := sectioned_loaded hs ht hcont he hfair
    have hnum : 3 ≤ tab.num := htab ▸ hf.main
    have htable : TableOk (decodeHeader w.mem image.pHeader) tab.num
        (entriesAt w.mem tab.pEntries) := by
      have := hf.table
      rw [htab]
      exact this
    have halign := mainAlign_same hsame htable hnum
    obtain ⟨-, htagged⟩ := hsame.parts htable hnum
    refine ⟨?_, ?_⟩
    · rw [halign, ← requests_mainHost _ _ _ ramAddr, htail]
      by_cases h3 : tab.num ≤ 3
      · rw [show tab.num - 3 = 0 by omega] at htagged
        have hnone : lay.nonmainSections = [] := List.forall₂_nil_right_iff.mp htagged
        rw [requests_untagged hs h3 he, hnone]
        exact (List.append_nil _).symm
      · have hes : imageEntry image w.mem = entriesAt w.mem tab.pEntries := by
          funext j
          rw [imageEntry, hview]
        obtain ⟨-, secs, hrs, hres, hev, -, -⟩ := hs.tagged_calls (by omega) hcont he hfair
        rw [← hes] at htagged
        rw [hev, requests_append, requests_append, requests_onlyResolves hres, List.append_nil,
          requests_taggedHost htagged fun e hmem j hj hj' hat =>
            imageSectName_same hs.sectab ht hb (parse_present hp).2 hsame (himg ▸ hheader) hsections
              (List.mem_of_mem_filter hmem) (by omega) hat]
        rfl
    · rw [hsize, exactRam, if_pos (by omega), ← hmode]
      exact iff_of_true (walk_placed hsame htable hnum).1 fun hz => absurd hz ht

theorem sizedCalls_inj {a b align : Nat} :
    sizedCalls [⟨a, none, align, 0⟩] = sizedCalls [⟨b, none, align, 0⟩] ↔ a = b := by
  by_cases ha : a = 0 <;> by_cases hb : b = 0 <;> simp [sizedCalls, ha, hb]
  exact Ne.symm hb

/-- A load asks the host for the blocks of the plan, in its order, by the names, sizes,
alignments and flags of the plan, and for nothing else; the blocks without bytes are
left out. Where the caller has a main block the plan is served but for that. Where it
has none, an image without a table has to have sizes of whole words. -/
theorem allocation_plan_served
    (hload : (udynlinkLoadModuleImage host image loadAddr loadSize mode).run w = (.ok (), w₁))
    (hcont : LoadContained image mode w.mem) (he : w.Extends w₁ evs)
    (hfair : FairBlocks (imageSource image w.mem) loadAddr loadSize (hostEvents evs))
    (hb : HasBytes w.mem image.pHeader data) (hp : parseModule data true = .ok img)
    (ramBase : Nat) (bases : Nat → Option Nat) :
    let plan := RuntimeLayout.allocationPlan ⟨img, mode, ramBase, bases⟩
    (loadAddr ≠ 0 → requests (hostEvents evs) = sizedCalls plan.tail) ∧
      (loadAddr = 0 → (requests (hostEvents evs) = sizedCalls plan ↔
        ((imageView image w.mem).num = 0 →
          WholeWords (decodeHeader w.mem image.pHeader) mode))) := by
  intro plan
  let lay : RuntimeLayout := ⟨img, mode, ramBase, bases⟩
  obtain ⟨tab, ramSize, ramAddr, w1, w2, w3, w4, hs⟩ := loadStages_of_ok hload
  obtain ⟨hcalls, hsize⟩ := requests_split lay rfl rfl hs hcont he hfair hb hp
  have hplan : sizedCalls plan =
      sizedCalls [⟨lay.ramSize, none, lay.mainAlign, 0⟩] ++ sizedCalls plan.tail :=
    List.filter_append [_] plan.tail
  refine ⟨fun hz => ?_, fun hz => ?_⟩
  · rw [if_neg hz] at hcalls
    exact hcalls
  · rw [if_pos hz] at hcalls
    rw [imageView_of_sectab hs.sectab, ← hsize, hcalls, hplan]
    change _ ++ sizedCalls plan.tail = _ ↔ _
    rw [List.append_left_inj, sizedCalls_inj]
    exact eq_comm

end

/-! ## Section `x`: one call more -/

theorem allocation_plan_served_ownSection : ∃ img, parseModule ownSectionBytes true = .ok img ∧
    requests (hostEvents ownSectionLoaded.trace) =
      sizedCalls (RuntimeLayout.allocationPlan ⟨img, .copyTextData, 0, fun _ => none⟩) := by
  obtain ⟨img, hp⟩ := ownSection_parsed
  have hserved := allocation_plan_served (w := ⟨ownSectionRom, Module.free, []⟩) ownSection_loads
    ownSection_contained ownSection_extends ownSection_fairBlocks
    (romBytes_hasBytes ownSectionRom 0x1000 156) hp 0 fun _ => none
  exact ⟨img, hp, (hserved.2 rfl).mpr fun hz => absurd hz ownSection_table⟩

end Udynlink.Parser
