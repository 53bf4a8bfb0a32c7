import Udynlink.LoadFailures

/-!
# The balance of a failed load

At every point where a load can fail, the handle and the base array describe
exactly what the host has handed out. The payloads of a module with tagged
sections are followed up to the section that failed, the relocations up to the
entry that failed; none of them touches the base array behind the loop.
-/

namespace Udynlink

open Machine

/-! ## Names of tagged sections -/

section

variable {image : Image} {tab : SectView} {h : Header} {es : Nat → SectEntry} {mode : LoadMode}
  {m : Mem}

/-- A name that was checked is read inside the metadata. -/
theorem within_sectName (htab : tab = sectView image.pHeader h)
    (hf : SectionedFits h tab.num es mode) (hn : NamesOk m image.pHeader h true)
    (hes : ∀ i, i < tab.num → entriesAt m tab.pEntries i = es i) {j : Nat} (hj : j < tab.num) :
    (readSectName (sectName tab (es j))).Within (· ∈ metaSpan image h) m := by
  rw [sectName]
  split
  next hne =>
    have hnum : tab.num = (getNumSectionsRaw h).toNat := by rw [htab]; rfl
    have hentries : image.pHeader + getSectabOffset h = tab.pEntries := by rw [htab]; rfl
    have hpool : tab.pPool = getSymTablePointer image.pHeader h := by rw [htab]; rfl
    have hnamed := hn j (by omega)
    rw [hentries, hes j hj, entryNamed, if_pos (by simp [hne]), entryNameOk,
      Reader.run_ite] at hnamed
    split at hnamed
    next => simp at hnamed
    next hlt =>
      have hoff : (es j).nameOff.toNat < h.symtSize.toNat :=
        UInt32.lt_iff_toNat_lt.mp (UInt32.not_le.mp hlt)
      have hle : exactSymtabEnd h ≤ exactCodeOffset h := by
        have hx := table_le_codeOffset (h := h) (i := j) (by omega)
        omega
      have hend := le_exactAlignUp
        (x := (getHeaderSize h).toNat + 8 * h.numRels.toNat + h.symtSize.toNat)
        (show (4 : Nat).isPowerOfTwo from ⟨2, rfl⟩)
      rw [← exactSymtabEnd] at hend
      have hcode := hf.table.exactCodeOffset_lt
      rw [readSectName, Reader.within_bind]
      refine ⟨?_, Reader.within_pure _ _ m⟩
      rw [hpool]
      refine Reader.within_cstr hnamed fun i hi => ?_
      rw [UInt32.toNat_sub_of_le _ _ (UInt32.le_of_lt (UInt32.not_le.mp hlt))] at hi
      rw [getSymTablePointer_eq, show (es j).nameOff = UInt32.ofNat (es j).nameOff.toNat by simp,
        off_off, off_off]
      exact off_mem (by omega) (by omega)
  next => exact Reader.within_pure _ _ m

end

/-! ## Debts -/

/-- Behind the run from `w` to `w'` the module owes what the callbacks have handed out. -/
def InDebt (tab : SectView) (mainAlign : UInt32) (w w' : State) : Prop :=
  ∃ es secs names c, Owes tab es secs names w'.handle w'.mem c ∧
    ∀ evs, w.Extends w' evs → settle 0 (deeds (hostEvents evs)) =
      some ((taggedKeys es secs names c 3 ++ mainKeys w'.handle mainAlign :
        List (BlockTag × Addr)) : Multiset (BlockTag × Addr))

section

variable {tab : SectView} {mainAlign : UInt32} {w w1 w' : State}

theorem owes_none {es : Nat → SectEntry} {secs : Nat → Addr} {names : Nat → Option (List UInt8)}
    {mod : Module} {m : Mem} (h : mod.pRam = 0 ∨ tab.num ≤ 3) :
    Owes tab es secs names mod m 0 :=
  ⟨fun _ => rfl, Nat.zero_le _, fun hp hn => absurd h (not_or.mpr ⟨hp, by omega⟩)⟩

/-- A module without a block owes nothing. -/
theorem InDebt.of_empty (h : w'.handle.pRam = 0)
    (hs : ∀ evs, w.Extends w' evs → settle 0 (deeds (hostEvents evs)) = some 0) :
    InDebt tab mainAlign w w' := by
  refine ⟨entriesAt w'.mem tab.pEntries, fun _ => 0, fun _ => none, 0, owes_none (Or.inl h),
    fun evs he => ?_⟩
  rw [hs evs he, mainKeys, if_neg (by simp [h])]
  rfl

/-- Without tagged sections the block alone is owed. -/
theorem InDebt.of_main (hnum : tab.num ≤ 3)
    (hs : ∀ evs, w.Extends w' evs → settle 0 (deeds (hostEvents evs)) =
      some (mainKeys w'.handle mainAlign : Multiset (BlockTag × Addr))) :
    InDebt tab mainAlign w w' :=
  ⟨entriesAt w'.mem tab.pEntries, fun _ => 0, fun _ => none, 0, owes_none (Or.inr hnum), hs⟩

/-- The error path pays the debt. -/
theorem InDebt.exit {e : Error} {r : Except Error Unit} (h : InDebt tab mainAlign w w1)
    (hw : ∃ evs, w.Extends w1 evs) (hr : (loadExit tab mainAlign e).run w1 = (r, w')) :
    w'.handle = Module.free ∧
      ∀ evs, w.Extends w' evs → settle 0 (deeds (hostEvents evs)) = some 0 := by
  obtain ⟨es, secs, names, c, howes, hs⟩ := h
  obtain ⟨e1, he1⟩ := hw
  obtain ⟨⟨⟩, w2, hsect⟩ := (show (freeNonmainSections tab).Total from
    Prog.total_bind Prog.total_getHandle fun _ =>
      Prog.total_ite (Prog.total_pure ()) (freeSectionsLoop_total _ _ _)) w1
  obtain ⟨⟨⟩, w3, hmain⟩ := (show (freeMainBlock mainAlign).Total from
    Prog.total_bind Prog.total_getHandle fun _ =>
      Prog.total_ite (externalFree_total _ _ _ _) (Prog.total_pure ())) w2
  rw [loadExit, Prog.run_bind_of_ok hsect, Prog.run_bind_of_ok hmain, Prog.run_modifyHandle_bind,
    Prog.run_fail, Prod.mk.injEq] at hr
  obtain ⟨e2, he2⟩ := Prog.extends_of_run hsect
  obtain ⟨e3, he3⟩ := Prog.extends_of_run hmain
  have hend : w3.Extends w' [] := by
    rw [← hr.2]
    exact ⟨(List.append_nil _).symm, fun _ _ => rfl⟩
  refine ⟨by rw [← hr.2], fun evs he => ?_⟩
  rw [he.unique (he1.trans ((he2.trans he3).trans hend)), List.append_nil, hostEvents_append,
    deeds_append]
  refine settle_trans (hs e1 he1) ?_
  rw [releaseAll_ok hsect howes hmain (he2.trans he3)]
  have hrel := settle_releases (taggedKeys es secs names c 3 ++ mainKeys w1.handle mainAlign) 0
  rw [add_zero] at hrel
  exact hrel

/-- A stage that asks for no block leaves the debt of a module without tagged sections. -/
theorem InDebt.calm {p : Loader Unit} {r : Except Error Unit} (h : InDebt tab mainAlign w w1)
    (hnum : tab.num ≤ 3) (hw : ∃ evs, w.Extends w1 evs) (hp : p.Calm blockOf IsResolve)
    (hr : p.run w1 = (r, w')) : InDebt tab mainAlign w w' := by
  obtain ⟨es, secs, names, c, howes, hs⟩ := h
  obtain ⟨e1, he1⟩ := hw
  obtain ⟨e2, he2⟩ := Prog.extends_of_run hr
  obtain ⟨hblock, hres⟩ := hp.run hr
  rw [howes.none (Or.inr hnum)] at hs
  refine InDebt.of_main hnum fun evs he => ?_
  rw [he.unique (he1.trans he2), hostEvents_append, deeds_append,
    deeds_onlyResolves (hres e2 he2), List.append_nil, hs e1 he1, mainKeys_congr hblock]
  rfl

end

/-! ## Payloads -/

section

variable {host : Host} {image : Image} {tab : SectView} {mode : LoadMode} {h : Header}
  {es : Nat → SectEntry} {p : Addr} {secs : Nat → Addr} {w w' : State}

theorem mainSectionDest_total (image : Image) (tab : SectView) (mode : LoadMode) (idx : Nat) :
    (mainSectionDest image tab mode idx).Total :=
  Prog.total_bind Prog.total_getHandle fun _ => Prog.total_bind (Prog.total_lift _) fun _ =>
    Prog.total_bind (Prog.total_lift _) fun _ => Prog.total_pure _

theorem copyMainData_total (image : Image) (tab : SectView) (mode : LoadMode) :
    (copyMainData image tab mode).Total :=
  Prog.total_bind (Prog.total_lift _) fun _ => Prog.total_ite
    (Prog.total_bind (mainSectionDest_total _ _ _ _) fun _ => Prog.total_copy _ _ _)
    (Prog.total_pure ())

theorem copyMainText_total (image : Image) (tab : SectView) (mode : LoadMode) :
    (copyMainText image tab mode).Total :=
  Prog.total_bind (Prog.total_lift _) fun _ => Prog.total_bind (Prog.total_lift _) fun _ =>
    Prog.total_ite
      (Prog.total_bind (mainSectionDest_total _ _ _ _) fun _ => Prog.total_copy _ _ _)
      (Prog.total_pure ())

theorem copyMainSections_total (image : Image) (tab : SectView) (mode : LoadMode) (pTemp8 : Addr) :
    (copyMainSections image tab mode pTemp8).Total := by
  refine Prog.total_bind (Prog.total_lift _) fun h => ?_
  cases mode with
  | xip => exact copyMainData_total _ _ _
  | copyTextData =>
    exact Prog.total_bind (copyMainText_total _ _ _) fun _ => copyMainData_total _ _ _
  | copyAll =>
    refine Prog.total_bind (Prog.total_copy _ _ _) fun _ => ?_
    refine Prog.total_bind (Prog.total_modifyHandle _) fun _ => ?_
    refine Prog.total_bind (mainSectionDest_total _ _ _ _) fun _ => ?_
    refine Prog.total_bind (Prog.total_lift _) fun _ => ?_
    exact Prog.total_bind (Prog.total_copy _ _ _) fun _ => copyMainData_total _ _ _

theorem zeroMainBss_total (image : Image) (tab : SectView) (mode : LoadMode) :
    (zeroMainBss image tab mode).Total :=
  Prog.total_bind (Prog.total_lift _) fun _ => Prog.total_ite
    (Prog.total_bind (mainSectionDest_total _ _ _ _) fun _ _ => ⟨_, _, rfl⟩) (Prog.total_pure ())

/-- The block is there, its base array is empty, and the image is clear of it. -/
structure Provisioned (image : Image) (mode : LoadMode) (tab : SectView) (h : Header)
    (es : Nat → SectEntry) (p : Addr) (w : State) : Prop where
  header : decodeHeader w.mem image.pHeader = h
  entries : ∀ i, i < tab.num → entriesAt w.mem tab.pEntries i = es i
  names : ∀ j, j < tab.num →
    (readSectName (sectName tab (es j))).Within (· ∈ metaSpan image h) w.mem
  pRam : w.handle.pRam = p
  pHeader : w.handle.pHeader = image.pHeader
  cleared : ∀ j, 3 ≤ j → j < tab.num → w.mem.u32 (baseWord h p j) = 0
  block : ∀ t ∈ sectionedSource image h tab.num es,
    t.Disjoint ⟨p, exactRamSections h tab.num es mode⟩
  mode : w.handle.mode = mode

/-- The name of section `j` behind the block. -/
def sectNames (tab : SectView) (es : Nat → SectEntry) (w : State) (j : Nat) : Option (List UInt8) :=
  (readSectName (sectName tab (es j))).run w.mem

theorem taggedBase_run {mod : Module} {m : Mem} {j : Nat} (hj : 3 ≤ j) (hp : mod.pRam ≠ 0)
    (hh : decodeHeader m mod.pHeader = h) :
    (getSectionBaseIdx mod tab j).run m = m.u32 (baseWord h mod.pRam j) := by
  rw [getSectionBaseIdx, if_neg (by omega), if_neg hp, Reader.run_bind, readHeader_run, hh,
    baseSlot_eq]
  rfl

/-- Where the loop stopped, the base array records what was granted. -/
theorem TaggedRun.recorded {P : Addr → Prop} {m0 : Mem} {names names' : Nat → Option (List UInt8)}
    {mod : Module} {c : Nat} (hs : TaggedStage P image tab m0 mod h es)
    (hrun : TaggedRun tab P m0 h es secs names' 3 c w w') (hmod : w.handle = mod)
    (hc : c ≤ tab.num - 3) (hp : mod.pRam ≠ 0)
    (hzero : ∀ j, 3 ≤ j → j < tab.num → w.mem.u32 (baseWord h mod.pRam j) = 0)
    (hnames : ∀ j, j < tab.num → (es j).size ≠ 0 →
      (readSectName (sectName tab (es j))).run m0 = names j) :
    Recorded tab es secs names w'.handle w'.mem (tab.num - 3) 3 c := by
  have hh : w'.handle = mod := hrun.handle.trans hmod
  have hown : decodeHeader w'.mem w'.handle.pHeader = h := by
    rw [hh]
    exact ((within_readHeader hs.own m0).congr hrun.kept).trans hs.header
  have hpram : w'.handle.pRam = mod.pRam := by rw [hh]
  refine ⟨fun j hj hj' => ?_, fun j hj hj' hne => ?_, fun j hj hj' hne => ⟨?_, ?_⟩,
    fun j hj hj' hne => ?_⟩
  · exact (hs.place.entry_run hrun.kept (by omega)).trans (hs.entries j (by omega))
  · exact ((hs.names j (by omega) hne).congr hrun.kept).trans (hnames j (by omega) hne)
  · have hb := hrun.bases j hj hj' hne
    rw [hmod] at hb
    rw [taggedBase_run hj (by rw [hpram]; exact hp) hown, hpram]
    exact hb
  · exact hrun.granted j hj hj' hne
  · have hag := hrun.rest j (by omega) (by omega) (Or.inr hj)
    rw [hmod] at hag
    rw [taggedBase_run (by omega) (by rw [hpram]; exact hp) hown, hpram, ← hag.u32]
    exact hzero j (by omega) (by omega)

/-- The transfers of the main sections start behind the base array. -/
theorem mainBlits_base (hf : SectionedFits h tab.num es mode) {b : Blit}
    (hb : b ∈ mainBlits image h tab.num es mode p) {j : Nat} (hj : 3 ≤ j) (hj' : j < tab.num) :
    Span.Disjoint ⟨baseWord h p j, 4⟩ b.span := by
  have hram := hf.ram
  have hend := (bssBlit_laid (p := p) hf).le
  obtain ⟨k, hd, hk, hle⟩ := (mainBlits_laid image p hf).mem hb
  rw [Blit.span, hd, baseWord]
  exact off_disjoint (by omega) (by omega)

/-- What the loop over the tagged sections looks at: the image and the module's own header. -/
def StageSpan (image : Image) (h : Header) (mod : Module) (a : Addr) : Prop :=
  a ∈ metaSpan image h ∨ a ∈ (⟨mod.pHeader, 32⟩ : Span)

/-- A span that misses the image and the block misses all of it. -/
theorem stageSpan_miss (htab : tab = sectView image.pHeader h)
    (hf : SectionedFits h tab.num es mode) {mod : Module} (hheader : mod.pHeader = image.pHeader)
    {s : Span} (hs : (metaSpan image h).Disjoint s)
    (hcopy : mode = .copyAll → Span.Disjoint ⟨metadataAddr h tab.num p, 32⟩ s) (a : Addr)
    (ha : StageSpan image h (placedHandle mode (metadataAddr h tab.num p) mod) a) : a ∉ s := by
  cases ha with
  | inl ha => exact hs a ha
  | inr ha =>
    rw [ownHeader_span hheader] at ha
    split at ha
    next hm => exact hcopy hm a ha
    next => exact hs a ((placeIn_meta htab hf).header a ha)

/-- Behind the main sections the loop finds what it looks for, and an empty base array. -/
theorem Provisioned.taggedStage (hw : Provisioned image mode tab h es p w)
    (htab : tab = sectView image.pHeader h) (hf : SectionedFits h tab.num es mode) {w1 : State}
    (hmain : (copyMainSections image tab mode (metadataAddr h tab.num p)).run w = (.ok (), w1)) :
    w1.handle = placedHandle mode (metadataAddr h tab.num p) w.handle ∧
      (∀ evs, w.Extends w1 evs → hostEvents evs = []) ∧
      (∀ a, a ∈ metaSpan image h → w.mem a = w1.mem a) ∧
      TaggedStage (StageSpan image h w1.handle) image tab w1.mem w1.handle h es ∧
      ∀ j, 3 ≤ j → j < tab.num → w1.mem.u32 (baseWord h p j) = 0 := by
  have hP := placeIn_meta htab hf
  have hlt := hf.ram
  have hnum := hf.main
  have hcode := hf.table.exactCodeOffset_lt
  have hstart := hf.start_le_ram
  have hbases := bases_le_start h tab.num mode
  have hclear := hw.block (metaSpan image h) (by simp [sectionedSource])
  have hmainClear := mainBlits_clear hf hclear
  have hag0 : ∀ a, a ∈ metaSpan image h → w.mem a = w.mem a := fun _ _ => rfl
  have hms := @PlaceIn.copyMainSections_ok _ _ _ mode _ _ w1 hP hag0
  rw [hw.header, mainBlits_congr fun j hj => hw.entries j (by omega), hw.pRam] at hms
  obtain ⟨hh1, hd1⟩ := hms (by omega) hmainClear hmain
  have hag1 := did_agree hd1 hmainClear hag0
  have hhdr1 := hP.header_run hag1
  rw [hw.header] at hhdr1
  have hpw : (mainBlits image h tab.num es mode p ++ []).Pairwise
      fun (b c : Blit) => b.span.Disjoint c.span := by
    have hend := (bssBlit_laid (p := p) hf).le
    rw [List.append_nil]
    exact (mainBlits_laid image p hf).pairwise (by omega)
  have hown : decodeHeader w1.mem w1.handle.pHeader = h := by
    have ho := own_header hf hw.pHeader hpw hw.header fun _ => by
      rw [List.append_nil, ← hd1.mem]
      exact hhdr1
    rw [List.append_nil, ← hd1.mem] at ho
    rw [hh1]
    exact ho
  have hpram : w1.handle.pRam = p := by
    rw [hh1, placedHandle_pRam]
    exact hw.pRam
  refine ⟨hh1, fun evs he => (hd1.of_extends he).1, hag1, ⟨?_, fun a ha => Or.inr ha, hown,
    fun i hi => (hP.entry_run hag1 hi).trans (hw.entries i hi), fun j hj _ => ?_,
    fun j hj hj' a ha => ?_, fun i j hi hi' hj hj' hij => ?_⟩, fun j hj hj' => ?_⟩
  · exact ⟨⟨fun hn i hi a ha => Or.inl (hP.view.entries hn i hi a ha)⟩,
      fun a ha => Or.inl (hP.header a ha), hP.num⟩
  · exact ((hw.names j hj).transfer hag1).mono fun a ha => Or.inl ha
  · rw [hpram]
    rw [hh1] at ha
    have hsub := baseWord_subset (h := h) (p := p) hj hj' (by omega)
    refine stageSpan_miss htab hf hw.pHeader (hclear.mono (Span.subset_refl _)
      (Span.subset_trans hsub (prefix_subset (by omega)))) (fun hm => ?_) a ha
    have hle := metadata_in_block hf hm
    exact (off_disjoint (k := 4 * h.numLot.toNat + 4 * (j - 3)) (n := 4) (by omega)
      (by omega)).symm
  · rw [hpram]
    cases Nat.lt_or_gt_of_ne hij with
    | inl hlt => exact baseWord_disjoint hi hlt hj' (by omega)
    | inr hgt => exact (baseWord_disjoint hj hgt hi' (by omega)).symm
  · rw [← hw.cleared j hj hj']
    refine (AgreeOn.u32 fun a ha => (hd1.notMem fun s hs => ?_).symm).symm
    obtain ⟨b, hb, rfl⟩ := List.mem_map.mp hs
    exact mainBlits_base hf hb hj hj' a ha

/-- However the stage ends, what it was granted is counted; where it fails, it is recorded. -/
theorem placeSectioned_run (htab : tab = sectView image.pHeader h)
    (hf : SectionedFits h tab.num es mode) (hw : Provisioned image mode tab h es p w) (hp : p ≠ 0)
    (hgrant : Granted image h ⟨p, exactRamSections h tab.num es mode⟩ w w')
    {r : Except Error Unit}
    (hr : (placeSectioned host image tab mode (metadataAddr h tab.num p)).run w = (r, w')) :
    ∃ secs c, c ≤ tab.num - 3 ∧ (r = .ok () → c = tab.num - 3) ∧
      (∀ evs, w.Extends w' evs →
        deeds (hostEvents evs) = (taggedKeys es secs (sectNames tab es w) c 3).map .grant) ∧
      w'.handle = placedHandle mode (metadataAddr h tab.num p) w.handle ∧
      ∀ e, r = .error e →
        Recorded tab es secs (sectNames tab es w) w'.handle w'.mem (tab.num - 3) 3 c := by
  have hlt := hf.ram
  have hnum := hf.main
  have hstart := hf.start_le_ram
  have hbases := bases_le_start h tab.num mode
  obtain ⟨⟨⟩, w1, hmain⟩ :=
    copyMainSections_total image tab mode (metadataAddr h tab.num p) w
  rw [placeSectioned, Prog.run_bind_of_ok hmain] at hr
  obtain ⟨hh1, hev1, hag1, hstage, hzero⟩ := hw.taggedStage htab hf hmain
  obtain ⟨e1, he1⟩ := Prog.extends_of_run hmain
  have hpram : w1.handle.pRam = p := by
    rw [hh1, placedHandle_pRam]
    exact hw.pRam
  have hnames : ∀ j, j < tab.num →
      (readSectName (sectName tab (es j))).run w1.mem = sectNames tab es w j := fun j hj =>
    (hw.names j hj).congr hag1
  rw [Prog.run_lift_bind, Prog.run_lift_bind, World.log_mem, World.log_log,
    ← readEvents_append] at hr
  generalize hw1 : w1.log _ = w1' at hr
  have hmem1 : w1'.mem = w1.mem := hw1 ▸ rfl
  have hhandle1 : w1'.handle = w1.handle := hw1 ▸ rfl
  obtain ⟨e1', he1', hh1'⟩ : ∃ evs, w1.Extends w1' evs ∧ hostEvents evs = [] :=
    ⟨_, hw1 ▸ World.extends_log _ _, by simp⟩
  -- the loop, however it ends
  generalize (_ + _ : UInt32) = off at hr
  rcases hloop : (loadTaggedLoop host image tab (tab.num - 3) 3 off).run w1' with ⟨r2, w2⟩
  obtain ⟨e2, he2⟩ := Prog.extends_of_run hloop
  obtain ⟨e3, he3, hh3, hid, hr3⟩ : ∃ evs, w2.Extends w' evs ∧ hostEvents evs = [] ∧
      w'.handle = w2.handle ∧
      ((∃ e, r2 = .error e ∧ r = .error e ∧ w' = w2) ∨ r2 = .ok () ∧ r = .ok ()) := by
    cases r2 with
    | error e =>
      rw [Prog.run_bind_of_error hloop, Prod.mk.injEq] at hr
      exact ⟨[], hr.2 ▸ World.Extends.refl w2, rfl, by rw [hr.2],
        Or.inl ⟨e, rfl, hr.1.symm, hr.2.symm⟩⟩
    | ok u =>
      rw [Prog.run_bind_of_ok hloop] at hr
      obtain ⟨⟨⟩, w3, hbss⟩ := zeroMainBss_total image tab mode w2
      rw [hbss, Prod.mk.injEq] at hr
      rw [← hr.2, ← hr.1]
      obtain ⟨evs, he⟩ := Prog.extends_of_run hbss
      obtain ⟨hid, hnone⟩ := (zeroMainBss_calm (f := id) (A := fun _ => False) image tab mode).run hbss
      exact ⟨evs, he, List.eq_nil_iff_forall_not_mem.mpr fun e => hnone evs he e, hid,
        Or.inr ⟨rfl, rfl⟩⟩
  have hall := (he1.trans he1').trans (he2.trans he3)
  have hgrants : ClearGrants (StageSpan image h w1.handle) tab h w1.handle.pRam w1' w2 := by
    intro evs he s hs
    obtain ⟨hm, hb⟩ := hgrant _ ((he1.trans he1').trans (he.trans he3)) s (by
      rw [hostEvents_append, hostEvents_append, hostEvents_append, hev1 e1 he1, hh1', hh3,
        List.nil_append, List.nil_append, List.append_nil]
      exact hs)
    rw [hpram]
    refine ⟨fun a ha => ?_, fun j hj hj' => hb.symm.mono (Span.subset_trans
      (baseWord_subset (h := h) hj hj' (by omega)) (prefix_subset (by omega))) (Span.subset_refl _)⟩
    rw [hh1] at ha
    refine stageSpan_miss htab hf hw.pHeader hm (fun hc => hb.symm.mono ?_ (Span.subset_refl _)) a ha
    exact off_subset (metadata_in_block hf hc) (by omega)
  obtain ⟨secs, c, hc, hok, hrun⟩ := loadTaggedLoop_run hloop hstage hhandle1
    (fun a _ => by rw [hmem1]) (Nat.le_refl 3) (by omega) hgrants
  have hsame : taggedKeys es secs (fun j => (readSectName (sectName tab (es j))).run w1.mem) c 3 =
      taggedKeys es secs (sectNames tab es w) c 3 :=
    taggedKeys_congr (fun _ _ _ _ => rfl) fun j _ hj' _ => hnames j (by omega)
  refine ⟨secs, c, hc, fun hr' => ?_, fun evs he => ?_,
    hid.trans (hrun.handle.trans (hhandle1.trans hh1)), fun e hr' => ?_⟩
  · rcases hr3 with ⟨e, -, hr3, -⟩ | ⟨hr2, -⟩
    · rw [hr3] at hr'
      simp at hr'
    · exact hok hr2
  · obtain ⟨e2', he2', hd2⟩ := hrun.calls
    rw [he.unique hall, hostEvents_append, hostEvents_append, hostEvents_append, hev1 e1 he1, hh1',
      hh3, List.nil_append, List.nil_append, List.append_nil, he2.unique he2', hd2, hsame]
  · rcases hr3 with ⟨e', -, -, hw'⟩ | ⟨-, hr3⟩
    · rw [hw']
      exact hrun.recorded hstage hhandle1 hc (by rw [hpram]; exact hp)
        (fun j hj hj' => by rw [hpram, hmem1]; exact hzero j hj hj') fun j hj _ => hnames j hj
    · rw [hr3] at hr'
      simp at hr'

end

/-! ## Relocations -/

section

variable {host : Host} {tab : SectView} {sectioned : Bool} {w w' : State}

theorem applyBaseRelocation_failsClean (pHeader : Addr) (tab : SectView) (sectioned : Bool)
    (lotOffset symtOffset : UInt32) :
    (applyBaseRelocation pHeader tab sectioned lotOffset symtOffset).FailsClean := by
  refine Prog.failsClean_bind (fun _ => rfl) fun mod => Prog.failsClean_bind (fun _ => rfl) fun h => ?_
  refine Prog.failsClean_ite (Prog.failsClean_fail _) (Prog.failsClean_bind (fun _ => rfl) fun p => ?_)
  refine Prog.failsClean_ite (Prog.failsClean_fail _)
    (Prog.failsClean_bind (fun _ => rfl) fun word => ?_)
  refine Prog.failsClean_ite ?_ (Prog.failsClean_ite ?_ ?_)
  · refine Prog.failsClean_bind (fun _ => rfl) fun target => ?_
    cases target with
    | none => exact Prog.failsClean_fail _
    | some target => exact (Prog.total_set32 _ _).failsClean
  · exact Prog.failsClean_bind (fun _ => rfl) fun data => (Prog.total_set32 _ _).failsClean
  · exact Prog.failsClean_bind (fun _ => rfl) fun code => (Prog.total_set32 _ _).failsClean

/-- The word of a weak symbol is written before the host is asked, and asking does not fail. -/
theorem applySymRelocation_failsClean (host : Host) (pHeader pSymtab : Addr) (tab : SectView)
    (sectioned : Bool) (lotOffset symtOffset : UInt32) :
    (applySymRelocation host pHeader pSymtab tab sectioned lotOffset symtOffset).FailsClean := by
  refine Prog.failsClean_bind (fun _ => rfl) fun mod => Prog.failsClean_bind (fun _ => rfl) fun h => ?_
  refine Prog.failsClean_bind (fun _ => rfl) fun sym? => ?_
  cases sym? with
  | none => exact Prog.failsClean_fail _
  | some sym =>
    refine Prog.failsClean_bind (fun _ => rfl) fun p => ?_
    refine Prog.failsClean_ite (Prog.failsClean_fail _) (Prog.failsClean_ite ?_ ?_)
    · refine Prog.failsClean_bind (fun _ => rfl) fun target => ?_
      cases target with
      | none => exact Prog.failsClean_fail _
      | some target => exact (Prog.total_set32 _ _).failsClean
    refine Prog.failsClean_ite ?_ (Prog.failsClean_ite ?_ (Prog.failsClean_ite ?_ ?_))
    · refine Prog.failsClean_bind (fun _ => rfl) fun target => ?_
      cases target with
      | none => exact Prog.failsClean_fail _
      | some target =>
        refine (Prog.total_bind (Prog.total_set32 _ _) fun _ => Prog.total_bind ?_ fun ans =>
          Prog.total_ite (Prog.total_pure ()) (Prog.total_ite (Prog.total_set32 _ _)
            (Prog.total_pure ()))).failsClean
        exact Prog.total_bind (Prog.total_lift _) fun _ => Prog.total_host _
    · refine Prog.failsClean_bind (fun _ => rfl) fun ans => ?_
      exact Prog.failsClean_ite (Prog.total_set32 _ _).failsClean
        (Prog.failsClean_ite (Prog.total_set32 _ _).failsClean (Prog.failsClean_fail _))
    · exact Prog.failsClean_fail _
    · exact (Prog.total_pure ()).failsClean

theorem applyRelocation_failsClean (host : Host) (pHeader pRelocations pSymtab : Addr)
    (tab : SectView) (sectioned : Bool) (i : Nat) :
    (applyRelocation host pHeader pRelocations pSymtab tab sectioned i).FailsClean :=
  Prog.failsClean_bind (fun _ => rfl) fun _ => Prog.failsClean_ite
    (applyBaseRelocation_failsClean _ _ _ _ _) (applySymRelocation_failsClean _ _ _ _ _ _ _)

/-- The walk leaves what it reads alone, up to the entry it fails at. -/
theorem applyRelocationsLoop_fixed {P : Addr → Prop} {mod : Module} {src : RelocSource}
    {numRels : Nat} {m0 : Mem} (hW : WalkIn P mod tab src numRels m0) (hn : numRels < 2 ^ 16)
    (hs : sectioned = false → tab.num = 0)
    (hclear : ∀ k, k < numRels → relocSlot mod tab src m0 k ≠ 0 →
      ∀ s ∈ relocSpans mod tab src m0 k, ∀ a, P a → a ∉ s)
    {n i : Nat} (hi : i + n ≤ numRels) (hmod : w.handle = mod) (hag : ∀ a, P a → m0 a = w.mem a)
    {r : Except Error Unit}
    (h : (applyRelocationsLoop host src.pHeader src.pRelocations src.pSymtab tab sectioned n
      i).run w = (r, w')) (a : Addr) (ha : P a) : m0 a = w'.mem a := by
  induction n generalizing i w with
  | zero =>
    rw [applyRelocationsLoop, Prog.run_pure, Prod.mk.injEq] at h
    rw [← h.2]
    exact hag a ha
  | succ n ih =>
    have hlt : i < numRels := by omega
    rw [applyRelocationsLoop] at h
    rcases hone : (applyRelocation host src.pHeader src.pRelocations src.pSymtab tab sectioned
      i).run w with ⟨e | ⟨⟨⟩⟩, w1⟩
    · rw [Prog.run_bind_of_error hone, Prod.mk.injEq] at h
      rw [← h.2, applyRelocation_failsClean _ _ _ _ _ _ _ _ _ _ hone]
      exact hag a ha
    · rw [Prog.run_bind_of_ok hone] at h
      have hWw := hW.transfer hag
      obtain ⟨hh, hok, ans, hs1, -, -, hd1⟩ := applyRelocation_ok
        (fun hf => hmod ▸ hWw.untagged (hs hf)) hone
      rw [hmod] at hh hok hd1
      rw [hW.entry hn hag hlt, hW.slot hn hag hlt, hW.placement hag hs, hW.sourceHeader hag] at hok
      rw [hW.patch hn hag hs _ hlt, hW.spans hn hag hlt] at hd1
      have hclr := hclear i hlt hok.slot_ne
      exact ih (by omega) hh (fun x hx => (hag x hx).trans
        (hd1.notMem fun s hs => hclr s hs x hx).symm) h

end

/-! ## Modules with tagged sections -/

section

variable {host : Host} {image : Image} {tab : SectView} {mode : LoadMode} {h : Header}
  {es : Nat → SectEntry} {p : Addr} {secs : Nat → Addr} {names : Nat → Option (List UInt8)}
  {w w2 w3 w4 : State} {mainAlign : UInt32}

theorem deeds_taggedHost {n k : Nat} (hok : SecsOk es secs n k) :
    deeds (taggedHost es secs names n k) = (taggedKeys es secs names n k).map .grant := by
  induction n generalizing k with
  | zero => rfl
  | succ n ih =>
    have hrest := ih (k := k + 1) fun j hj hj' => hok j (by omega) (by omega)
    rw [taggedHost, taggedKeys, taggedIdx_succ]
    split
    next => exact hrest
    next hsz =>
      have hne := (hok k (Nat.le_refl k) (by omega) hsz).1
      rw [deeds, List.filterMap_cons_some (b := .grant (taggedKey es secs names k))
        (by rw [HostEvent.deed, if_neg hne]; rfl), List.map_cons, List.map_cons]
      exact congrArg _ hrest

/-- A word that no relocation may write is as it was, however the relocations end. -/
theorem SectionedPlaced.walked (hp : SectionedPlaced image mode tab h es p secs names w2 w3)
    (hf : SectionedFits h tab.num es mode) (htab : tab = sectView image.pHeader h) (hne : p ≠ 0)
    (hcont : RelocsContained image tab mode w.mem) (hh : decodeHeader w.mem image.pHeader = h)
    (hes : entriesAt w.mem tab.pEntries = es)
    (hsame : ∀ s ∈ sectionedSource image h tab.num es, AgreeOn s w.mem w3.mem)
    {r : Except Error Unit}
    (hrun : (udynlinkLoadApplyRelocations host image.pHeader image.pRelocations image.pSymtab).run
      w3 = (r, w4)) (a : Addr) (ha : SectionedFixed h tab.num es mode secs p a) :
    w3.mem a = w4.mem a := by
  have hnum := hf.main
  have hmeta : ∀ a, a ∈ metaSpan image h → w.mem a = w3.mem a :=
    hsame _ (by simp [sectionedSource])
  have htab3 : (getSectab image.pHeader false).run w3.mem = (.ok (), tab) := by
    have ht3 : TableOk h tab.num (entriesAt w3.mem tab.pEntries) :=
      hf.table.congr hnum fun i hi =>
        ((placeIn_meta htab hf).entry_run hmeta hi).trans (congrFun hes i)
    rw [htab] at ht3 ⊢
    exact getSectab_of_table hp.header ht3
  rw [udynlinkLoadApplyRelocations, Prog.run_lift_bind, readHeader_run, Prog.run_lift_bind,
    World.log_mem, htab3, World.log_log, ← readEvents_append, hp.header] at hrun
  dsimp only at hrun
  rw [if_neg (by simp)] at hrun
  simp only [true_and] at hrun
  generalize (_ ++ _ : List Addr) = cs at hrun
  have hsrc : (applyRelocationsLoop host image.relocSource.pHeader image.relocSource.pRelocations
      image.relocSource.pSymtab tab (decide (tab.num > 0)) h.numRels.toNat 0).run
        (w3.log (readEvents cs)) = (r, w4) := hrun
  refine applyRelocationsLoop_fixed (w := w3.log (readEvents cs))
    (hp.placed.walkIn hf htab hp.header hp.clear hp.pHeader) h.numRels.toNat_lt (fun hd => ?_)
    (fun k hk hslot s hsp x hx => ?_) (Nat.le_of_eq (Nat.zero_add _)) rfl (fun _ _ => rfl) hsrc a ha
  · have hpos := of_decide_eq_false hd
    omega
  · obtain ⟨hsa, hspan⟩ := hp.placed.relocSpans_slotAt hf htab (fun _ => hne) hcont hh hes hp.header
      hsame hk hslot hsp
    rw [hspan]
    exact hsa.clear hf hp.room hx

/-- The bases stay recorded while the relocations are applied. -/
theorem SectionedPlaced.recorded (hp : SectionedPlaced image mode tab h es p secs names w2 w3)
    (hf : SectionedFits h tab.num es mode) (htab : tab = sectView image.pHeader h) (hne : p ≠ 0)
    (hw2 : Provisioned image mode tab h es p w2) (hhandle : w4.handle = w3.handle)
    (hfixed : ∀ a, SectionedFixed h tab.num es mode secs p a → w3.mem a = w4.mem a) :
    Recorded tab es secs (sectNames tab es w2) w4.handle w4.mem (tab.num - 3) 3 (tab.num - 3) := by
  have hnum := hf.main
  have hat := hp.placed.transfer (hp.placed.walkIn hf htab hp.header hp.clear hp.pHeader)
    (by omega) hfixed
  rw [← hhandle] at hat
  have hmeta : ∀ a, a ∈ metaSpan image h → w2.mem a = w4.mem a := fun a ha =>
    (hp.source _ (by simp [sectionedSource]) a ha).trans
      (hfixed a (hp.clear.covers (by simp [sectionedSource]) a ha))
  refine ⟨fun j hj hj' => hat.entries j (by omega), fun j hj hj' _ => ?_,
    fun j hj hj' hsz => ⟨?_, ?_⟩, fun j hj hj' => absurd hj' (by omega)⟩
  · exact (hw2.names j (by omega)).congr hmeta
  · exact (hat.base_run hf (by omega) (by have := firstPlaced_le mode; omega)).2 hj hne hsz
  · exact (hp.granted j hj hj' hsz).1

/-- Payloads or relocations that fail leave exactly what was granted on record. -/
theorem Provisioned.debt (hw2 : Provisioned image mode tab h es p w2)
    (htab : tab = sectView image.pHeader h) (hf : SectionedFits h tab.num es mode)
    (h3 : 3 < tab.num) (hne : p ≠ 0) (hcont : RelocsContained image tab mode w.mem)
    (hh : decodeHeader w.mem image.pHeader = h) (hes : entriesAt w.mem tab.pEntries = es)
    (hsame : ∀ s ∈ sectionedSource image h tab.num es, AgreeOn s w.mem w2.mem)
    {e1 : List (Event HostEvent)} (he1 : w.Extends w2 e1)
    (hmain : deeds (hostEvents e1) = (mainKeys w2.handle mainAlign).map .grant)
    (hgr : ∀ evs, w2.Extends w4 evs →
      (∀ s ∈ (hostEvents evs).filterMap grantedSpan,
        s.Disjoint ⟨p, exactRamSections h tab.num es mode⟩) ∧
      ((hostEvents evs).filterMap grantedSpan).Pairwise Span.Disjoint ∧
      ∀ t ∈ sectionedSource image h tab.num es,
        ∀ s ∈ (hostEvents evs).filterMap grantedSpan, t.Disjoint s) {e : Error}
    (hr : (do
      placeImage host image tab mode p
      udynlinkLoadApplyRelocations host image.pHeader image.pRelocations image.pSymtab :
        Loader Unit).run w2 = (.error e, w4)) : InDebt tab mainAlign w w4 := by
  have hnum := hf.main
  -- what is known of the payloads, however they end
  rcases hplace : (placeImage host image tab mode p).run w2 with ⟨r, w3⟩
  obtain ⟨e2, he2⟩ := Prog.extends_of_run hplace
  obtain ⟨e3, he3, hres, hend⟩ : ∃ evs, w3.Extends w4 evs ∧ OnlyResolves (hostEvents evs) ∧
      ((r = .error e ∧ w4 = w3) ∨ r = .ok () ∧ w4.handle = w3.handle ∧
        (udynlinkLoadApplyRelocations host image.pHeader image.pRelocations image.pSymtab).run w3 =
          (.error e, w4)) := by
    cases r with
    | error e' =>
      rw [Prog.run_bind_of_error hplace, Prod.mk.injEq, Except.error.injEq] at hr
      exact ⟨[], hr.2 ▸ World.Extends.refl w3, onlyResolves_nil,
        Or.inl ⟨by rw [hr.1], hr.2.symm⟩⟩
    | ok u =>
      rw [Prog.run_bind_of_ok hplace] at hr
      obtain ⟨hid, hcalls⟩ :=
        (loadApplyRelocations_calm (f := id) host image.pHeader image.pRelocations
          image.pSymtab).run hr
      obtain ⟨evs, he⟩ := Prog.extends_of_run hr
      exact ⟨evs, he, hcalls evs he, Or.inr ⟨rfl, hid, hr⟩⟩
  obtain ⟨hblock, hpair, hsrc⟩ := hgr _ (he2.trans he3)
  rw [hostEvents_append, List.filterMap_append] at hblock hpair hsrc
  have hgranted : Granted image h ⟨p, exactRamSections h tab.num es mode⟩ w2 w3 := by
    intro evs he s hs
    rw [he.unique he2] at hs
    exact ⟨hsrc _ (by simp [sectionedSource]) s (List.mem_append_left _ hs),
      hblock s (List.mem_append_left _ hs)⟩
  have hrun := hplace
  rw [placeImage, Prog.run_lift_bind, readHeader_run, hw2.header] at hrun
  dsimp only at hrun
  rw [if_pos (by omega), pTemp8_eq] at hrun
  have hw2' : Provisioned image mode tab h es p
      (w2.log (readEvents ((readHeader image.pHeader).reads w2.mem))) :=
    ⟨hw2.header, hw2.entries, hw2.names, hw2.pRam, hw2.pHeader, hw2.cleared, hw2.block, hw2.mode⟩
  obtain ⟨secs, c, hc, hcok, hcount, hplaced, hfail⟩ := placeSectioned_run htab hf hw2' hne
    (fun evs he s hs => hgranted _ ((World.extends_log _ _).trans he) s (by
      rw [hostEvents_append, hostEvents_readEvents, List.nil_append]
      exact hs)) hrun
  have hd2 : deeds (hostEvents e2) = (taggedKeys es secs (sectNames tab es w2) c 3).map .grant := by
    obtain ⟨e2', he2'⟩ := Prog.extends_of_run hrun
    rw [he2.unique ((World.extends_log _ _).trans he2'), hostEvents_append, hostEvents_readEvents,
      List.nil_append]
    exact hcount e2' he2'
  have hblockOf : blockOf w4.handle = blockOf w2.handle := by
    have hh4 : w4.handle = w3.handle := by
      rcases hend with ⟨-, hw4⟩ | ⟨-, hh4, -⟩
      · rw [hw4]
      · exact hh4
    rw [hh4, hplaced, placedHandle]
    split <;> rfl
  refine ⟨es, secs, sectNames tab es w2, c, ⟨fun hx => ?_, hc, fun _ _ => ?_⟩, fun evs he => ?_⟩
  · rw [(Prod.mk.inj hblockOf).1, hw2.pRam] at hx
    exact absurd hx (not_or.mpr ⟨hne, by omega⟩)
  · rcases hend with ⟨hre, hw4⟩ | ⟨hro, hh4, hwalk⟩
    · rw [hw4]
      exact hfail e hre
    · rw [hro] at hplace
      obtain ⟨secs', names', hp⟩ := sectionedPlaced_of_run htab hf hw2.header hw2.entries hw2.pRam
        hw2.pHeader hw2.mode hw2.block he2 (fun s hs => hblock s (List.mem_append_left _ hs))
        (List.pairwise_append.mp hpair).1
        (fun t ht s hs => hsrc t ht s (List.mem_append_left _ hs)) hplace
      -- the same requests, so the same blocks
      have hkeys : taggedKeys es secs (sectNames tab es w2) (tab.num - 3) 3 =
          taggedKeys es secs' names' (tab.num - 3) 3 := by
        have hx := hd2
        rw [hcok hro, (hp.did.of_extends he2).1, deeds_taggedHost hp.granted] at hx
        exact (List.map_injective_iff.mpr (fun a b hab => by simpa using hab) hx).symm
      have hsecs : ∀ j, 3 ≤ j → j < 3 + (tab.num - 3) → (es j).size ≠ 0 → secs' j = secs j :=
        fun j hj hj' hsz => (congrArg Prod.snd
          (List.map_inj_left.mp hkeys j (mem_taggedIdx.mpr ⟨hj, hj', hsz⟩))).symm
      have hrec := hp.recorded hf htab hne hw2 hh4 (hp.walked hf htab hne hcont hh hes
        (fun s hs a ha => (hsame s hs a ha).trans (hp.source s hs a ha)) hwalk)
      rw [hcok hro]
      refine ⟨hrec.entries, hrec.names, fun j hj hj' hsz => ?_, hrec.rest⟩
      rw [← hsecs j hj hj' hsz]
      exact hrec.bases j hj hj' hsz
  · rw [he.unique (he1.trans (he2.trans he3)), hostEvents_append, hostEvents_append, deeds_append,
      deeds_append, hmain, hd2, deeds_onlyResolves hres, List.append_nil, ← List.map_append,
      settle_grants, add_zero, mainKeys_congr hblockOf]
    exact congrArg some (Multiset.coe_eq_coe.mpr List.perm_append_comm)

end

/-! ## The whole load -/

section

variable {host : Host} {image : Image} {loadAddr : Addr} {loadSize : UInt32} {mode : LoadMode}
  {tab : SectView} {w w1 w2 w4 w' : State} {ramSize p : UInt32} {e : Error}

/-- The base array is empty as soon as the block is there. -/
theorem baseBlits_cleared {h : Header} {es : Nat → SectEntry} (hf : SectionedFits h tab.num es mode)
    (hne : ramSize ≠ 0) (m : Mem) {j : Nat} (hj : 3 ≤ j) (hj' : j < tab.num) :
    (Blit.applyAll (baseBlits h tab ramSize p) m).u32 (baseWord h p j) = 0 := by
  have hram := hf.ram
  have hstart := hf.start_le_ram
  have hbases := bases_le_start h tab.num mode
  rw [baseBlits, if_neg (by rw [not_or]; exact ⟨hne, by omega⟩), lotBytes, getNonmainBasesSize_eq,
    toNat_ofNat_of_lt (by omega), baseWord]
  have hbytes : ∀ i, i < 4 → Blit.applyAll
      [.zero (p + UInt32.ofNat (4 * h.numLot.toNat)) (4 * (tab.num - 3))] m
        (p + UInt32.ofNat (4 * h.numLot.toNat + 4 * (j - 3)) + UInt32.ofNat i) =
      (fun _ => 0 : Mem) (p + UInt32.ofNat (4 * h.numLot.toNat + 4 * (j - 3)) + UInt32.ofNat i) := by
    intro i hi
    rw [off_off, Nat.add_assoc, ← off_off]
    exact store_off (n := 4 * (tab.num - 3)) (by omega) (by omega)
  have hzero : Mem.u32 (fun _ => 0) (p + UInt32.ofNat (4 * h.numLot.toNat + 4 * (j - 3))) = 0 := rfl
  exact (u32_eq_of_bytes hbytes).trans hzero

/-- The state behind a block that was provided. -/
theorem provisioned_of_run {mainAlign : UInt32} {h : Header} {es : Nat → SectEntry}
    (hst : (getSectab image.pHeader true).run w.mem = (.ok (), tab))
    (htab : tab = sectView image.pHeader h) (hf : SectionedFits h tab.num es mode)
    (hh : decodeHeader w.mem image.pHeader = h) (hes : entriesAt w.mem tab.pEntries = es)
    (hmem : w1.mem = w.mem) (hhandle : w1.handle = startHandle image mode w.handle)
    (hne : ramSize ≠ 0)
    (hblock : ∀ t ∈ sectionedSource image h tab.num es,
      t.Disjoint ⟨p, exactRamSections h tab.num es mode⟩)
    (hrun : (provisionRam host image tab mainAlign ramSize loadAddr loadSize).run w1 =
      (.ok p, w2)) :
    Provisioned image mode tab h es p w2 ∧
      ∀ s ∈ sectionedSource image h tab.num es, AgreeOn s w.mem w2.mem := by
  obtain ⟨hb, hhandle2, hdid⟩ := provisionRam_ok hrun
  rw [hmem, hh] at hdid
  rw [hhandle] at hhandle2
  have hP := placeIn_meta htab hf
  have hsame : ∀ s ∈ sectionedSource image h tab.num es, AgreeOn s w.mem w2.mem := by
    intro s hs a ha
    rw [← hmem]
    refine (hdid.notMem fun t ht => ?_).symm
    obtain ⟨b, hbm, rfl⟩ := List.mem_map.mp ht
    exact (hblock s hs).mono (Span.subset_refl s) (baseBlits_subset hf hbm) a ha
  have hmeta : ∀ a, a ∈ metaSpan image h → w.mem a = w2.mem a := hsame _ (by simp [sectionedSource])
  have hes' : ∀ i, i < tab.num → entriesAt w.mem tab.pEntries i = es i := fun i _ => congrFun hes i
  have hnamed : NamesOk w.mem image.pHeader h true := by
    cases getSectab_ok hst with
    | inl hx =>
      rw [hh, hf.table.sectioned] at hx
      exact absurd hx.1 (by decide)
    | inr hx =>
      rw [hh] at hx
      exact hx.2.2
  refine ⟨⟨(hP.header_run hmeta).trans hh, fun i hi => (hP.entry_run hmeta hi).trans (hes' i hi),
    fun j hj => (within_sectName htab hf hnamed hes' hj).transfer hmeta, ?_, ?_, fun j hj hj' => ?_,
    hblock, ?_⟩, hsame⟩
  · rw [hhandle2, provisionHandle_pRam hb.empty]
  · rw [hhandle2, provisionHandle_pHeader]
    rfl
  · rw [hdid.mem]
    exact baseBlits_cleared hf hne w1.mem hj hj'
  · rw [hhandle2, provisionHandle_mode, startHandle, Module.mode_setMode]

/-- The blocks of a fair load, without those of the last stage. -/
theorem FairBlocks.front {source : List Span} {hs hs' : List HostEvent}
    (h : FairBlocks source loadAddr loadSize (hs ++ hs')) :
    FairBlocks source loadAddr loadSize hs := by
  have hpw := h.pairwise
  have hclear := h.clear
  rw [loadBlocks_append] at hpw hclear
  exact ⟨(List.pairwise_append.mp hpw).1,
    fun s hs b hb => hclear s hs b (List.mem_append_left _ hb)⟩

/-- A stage that only looks fails without a debt. -/
theorem InDebt.of_silent {α : Type} {q : Loader α} {mainAlign : UInt32} (hq : q.Silent)
    (hmod : w1.handle.pRam = 0) {e0 : List (Event HostEvent)} (he0 : w.Extends w1 e0)
    (hev0 : hostEvents e0 = []) (hr : q.run w1 = (.error e, w')) : InDebt tab mainAlign w w' := by
  obtain ⟨as, ha⟩ := hq w1
  rw [hr] at ha
  dsimp only at ha
  refine InDebt.of_empty (by rw [ha, World.log_handle]; exact hmod) fun evs he => ?_
  rw [ha] at he
  rw [he.unique (he0.trans (World.extends_log _ _)), hostEvents_append, hev0, hostEvents_readEvents]
  rfl

/-- Where the checks, the block, the payloads or the relocations fail, the debt is on record. -/
theorem loadBody_debt (hst : (getSectab image.pHeader true).run w.mem = (.ok (), tab))
    (hmem : w1.mem = w.mem) (hhandle : w1.handle = startHandle image mode w.handle)
    (hfree : w.handle.pRam = 0) {e0 : List (Event HostEvent)} (he0 : w.Extends w1 e0)
    (hev0 : hostEvents e0 = [])
    (hb : (loadBody host image tab ((getMainAlign tab).run w.mem) loadAddr loadSize mode).run w1 =
      (.error e, w'))
    (htagged : 3 < tab.num → LoadContained image mode w.mem ∧ ∀ evs, w.Extends w' evs →
      FairBlocks (imageSource image w.mem) loadAddr loadSize (hostEvents evs)) :
    InDebt tab ((getMainAlign tab).run w.mem) w w' := by
  have hpram1 : w1.handle.pRam = 0 := by
    rw [hhandle]
    exact hfree
  rw [loadBody] at hb
  rcases Prog.run_bind_error.mp hb with hc | ⟨ramSize, w1', hc, hb⟩
  · exact .of_silent (checkSizes_silent image tab mode) hpram1 he0 hev0 hc
  obtain ⟨as, hlog⟩ := checkSizes_silent image tab mode w1
  rw [hc] at hlog
  dsimp only at hlog
  have he1 : w.Extends w1' (e0 ++ readEvents as) := hlog ▸ he0.trans (World.extends_log _ _)
  have hev1 : hostEvents (e0 ++ readEvents (ε := HostEvent) as) = [] := by
    rw [hostEvents_append, hev0, hostEvents_readEvents]
    rfl
  have hhandle1 : w1'.handle = startHandle image mode w.handle := by
    rw [hlog, World.log_handle, hhandle]
  have hmem1 : w1'.mem = w.mem := by rw [hlog, World.log_mem, hmem]
  rcases Prog.run_bind_error.mp hb with hp | ⟨p, w2, hp, hb⟩
  · obtain ⟨e2, he2⟩ := Prog.extends_of_run hp
    obtain ⟨hpram, hset⟩ := provisionRam_error hp he2
    refine InDebt.of_empty (hpram.trans (by rw [hlog]; exact hpram1)) fun evs he => ?_
    rw [he.unique (he1.trans he2), hostEvents_append, hev1]
    exact hset
  obtain ⟨e2, he2⟩ := Prog.extends_of_run hp
  obtain ⟨hblock, hhandle2, hdid2⟩ := provisionRam_ok hp
  have hev2 : hostEvents (e0 ++ readEvents as ++ e2) =
      mainHost ((getMainAlign tab).run w.mem) ramSize loadAddr p := by
    rw [hostEvents_append, hev1, (hdid2.of_extends he2).1]
    rfl
  have hmain : deeds (hostEvents (e0 ++ readEvents as ++ e2)) =
      (mainKeys w2.handle ((getMainAlign tab).run w.mem)).map .grant := by
    rw [hev2, hhandle2]
    exact deeds_mainHost hblock.ne_zero
  -- counting the names is the only stage behind the relocations, and cannot fail
  have hrest : (do
      placeImage host image tab mode p
      udynlinkLoadApplyRelocations host image.pHeader image.pRelocations image.pSymtab :
        Loader Unit).run w2 = (.error e, w') := by
    rcases Prog.run_bind_error.mp hb with h | ⟨⟨⟩, w3, h3, h⟩
    · exact Prog.run_bind_error.mpr (Or.inl h)
    rcases Prog.run_bind_error.mp h with h | ⟨⟨⟩, w4, -, h⟩
    · exact Prog.run_bind_error.mpr (Or.inr ⟨(), w3, h3, h⟩)
    · exact absurd h (Prog.total_bind Prog.total_getHandle fun _ =>
        Prog.total_bind (Prog.total_lift _) fun _ => Prog.total_modifyHandle _).not_error
  by_cases h3 : 3 < tab.num
  · obtain ⟨hcont, hfair⟩ := htagged h3
    have hview := imageView_of_sectab hst
    have hcaps := checkSizes_ok (fun hz => by rw [hmem]; exact (view_untagged hst).mp hz) hc
    have hram := hcont.ram
    have hrel := hcont.relocs
    rw [hview] at hrel
    rw [imageRam, hview, exactRam, if_pos (by omega)] at hram
    obtain ⟨htab, htable, -⟩ : tab = sectView image.pHeader (decodeHeader w.mem image.pHeader) ∧
        TableOk (decodeHeader w.mem image.pHeader) tab.num (entriesAt w.mem tab.pEntries) ∧
        NamesOk w.mem image.pHeader (decodeHeader w.mem image.pHeader) true := by
      cases getSectab_ok hst with
      | inl hx =>
        have hnum : tab.num = 0 := by rw [hx.2]
        omega
      | inr hx => exact hx
    have hf : SectionedFits (decodeHeader w.mem image.pHeader) tab.num
        (entriesAt w.mem tab.pEntries) mode := ⟨htable, by omega, hram⟩
    have hsize : ramSize.toNat = exactRamSections (decodeHeader w.mem image.pHeader) tab.num
        (entriesAt w.mem tab.pEntries) mode := by
      rw [hcaps.ram, hmem, exactRam, if_pos (by omega), toNat_ofNat_of_lt hram]
    have hne : ramSize ≠ 0 := by
      have hstart := hf.start_le_ram
      have hbases := bases_le_start (decodeHeader w.mem image.pHeader) tab.num mode
      rintro rfl
      have hz : (0 : UInt32).toNat = 0 := rfl
      omega
    obtain ⟨e3, he3⟩ := Prog.extends_of_run hrest
    have hfr := hfair _ ((he1.trans he2).trans he3)
    rw [imageSource, hview, if_neg (by omega), hostEvents_append, hev2] at hfr
    obtain ⟨hsrcBlock, hgrBlock⟩ := hfr.block hblock
    obtain ⟨hgrPair, hsrcGr⟩ := hfr.granted
    rw [hsize] at hsrcBlock hgrBlock
    obtain ⟨hprov, hsame⟩ := provisioned_of_run hst htab hf rfl rfl hmem1 hhandle1 hne hsrcBlock hp
    exact hprov.debt htab hf h3 (hblock.ne_zero hne) (hrel (by omega)) rfl rfl hsame (he1.trans he2)
      hmain (fun evs he => he.unique he3 ▸ ⟨hgrBlock, hgrPair, hsrcGr⟩) hrest
  · have hcalm : (do
        placeImage host image tab mode p
        udynlinkLoadApplyRelocations host image.pHeader image.pRelocations image.pSymtab :
          Loader Unit).Calm blockOf IsResolve :=
      Prog.calm_bind (placeImage_calm host image mode p (by omega))
        fun _ => loadApplyRelocations_calm _ _ _ _
    refine InDebt.calm (InDebt.of_main (by omega) fun evs he => ?_) (by omega) ⟨_, he1.trans he2⟩
      hcalm hrest
    rw [he.unique (he1.trans he2), hmain, settle_grants, add_zero]

/-- A failed load frees the handle and gives back exactly what it was granted. -/
theorem failed_load_balanced
    (hload : (udynlinkLoadModuleImage host image loadAddr loadSize mode).run w = (.error e, w'))
    (hfree : w.handle.pRam = 0) {evs : List (Event HostEvent)} (he : w.Extends w' evs)
    (htagged : 3 < (imageView image w.mem).num → LoadContained image mode w.mem ∧
      FairBlocks (imageSource image w.mem) loadAddr loadSize (hostEvents evs)) :
    w'.handle = Module.free ∧ ∀ held, settle held (deeds (hostEvents evs)) = some held := by
  suffices hexit : w'.handle = Module.free ∧
      ∀ evs, w.Extends w' evs → settle 0 (deeds (hostEvents evs)) = some 0 by
    refine ⟨hexit.1, fun held => ?_⟩
    have hall := settle_add (hexit.2 evs he) held
    rwa [zero_add] at hall
  rw [udynlinkLoadModuleImage] at hload
  simp only [Prog.run_lift_bind, Prog.run_modifyHandle_bind, readHeader_run] at hload
  have hpram0 : (startHandle image mode w.handle).pRam = 0 := hfree
  have hsilent : ∀ {tab : SectView} {mainAlign : UInt32} {as : List Addr},
      InDebt tab mainAlign w
        ((({ w with handle := startHandle image mode w.handle } : State)).log (readEvents as)) := by
    intro tab mainAlign as
    refine InDebt.of_empty hpram0 fun evs he => ?_
    rw [he.unique ⟨rfl, fun _ _ => rfl⟩, hostEvents_readEvents]
    rfl
  split at hload
  next => exact hsilent.exit ⟨_, rfl, fun _ _ => rfl⟩ hload
  next hval =>
    rw [Prog.run_lift_bind] at hload
    rcases hst : (getSectab image.pHeader true).run w.mem with ⟨res, tab⟩
    simp only [World.log_mem, hst, World.log_log, ← readEvents_append] at hload
    cases res with
    | error e' => exact hsilent.exit ⟨_, rfl, fun _ _ => rfl⟩ hload
    | ok u =>
      simp only [Prog.run_lift_bind, Prog.run_attempt_bind, World.log_mem, World.log_log,
        ← readEvents_append] at hload
      rw [imageView_of_sectab hst] at htagged
      generalize hw1 : World.log _ _ = w1 at hload
      obtain ⟨e0, he0, hev0⟩ : ∃ e0, w.Extends w1 e0 ∧ hostEvents e0 = [] := by
        rw [← hw1]
        exact ⟨_, ⟨rfl, fun _ _ => rfl⟩, hostEvents_readEvents _⟩
      rcases hb : (loadBody host image tab ((getMainAlign tab).run w.mem) loadAddr loadSize
        mode).run w1 with ⟨done, w5⟩
      rw [hb] at hload
      cases done with
      | ok u' => simp at hload
      | error e' =>
        obtain ⟨e5, he5⟩ := Prog.extends_of_run hb
        obtain ⟨e6, he6⟩ := Prog.extends_of_run hload
        refine InDebt.exit ?_ ⟨_, he0.trans he5⟩ hload
        refine loadBody_debt hst (hw1 ▸ rfl) (hw1 ▸ rfl) hfree he0 hev0 hb fun h3 => ?_
        obtain ⟨hcont, hfair⟩ := htagged h3
        refine ⟨hcont, fun evs' he' => ?_⟩
        rw [he.unique (he'.trans he6), hostEvents_append] at hfair
        exact hfair.front

end

/-! ## A module whose relocation fails -/

/-- The module with a section of its own, its data word the VA of no section. -/
def strayWordRom : Mem := .ofWords 0x1000
  [0x4D4C4455, 0x03010000, 0x00010000, 0x00090001, 8, 4, 4, 4, 1, 0x80000000, 0, 0x78,
    0, 0, 4, 4, 0, 0x80000000, 0, 4, 4, 4, 1, 0x80000000, 0, 8, 4, 4, 2, 0x80000000,
    4, 12, 4, 4, 1, 0, 0x47704770, 0x40, 0xAABBCCDD]

def strayWordFailed : State :=
  ((udynlinkLoadModuleImage ownSectionHost ownSectionImage 0 0 .copyTextData).run
    ⟨strayWordRom, Module.free, []⟩).2

theorem strayWord_contained : LoadContained ownSectionImage .copyTextData strayWordRom := by
  refine ⟨by decide +kernel, fun _ => by decide +kernel, fun _ i hi _ => ?_⟩
  have hn : (decodeHeader strayWordRom ownSectionImage.pHeader).numRels.toNat = 1 := by
    decide +kernel
  obtain rfl : i = 0 := by omega
  refine Or.inr fun idx hfound _ => ?_
  have h1 : (sectFindByVa (imageView ownSectionImage strayWordRom)
      (relocVa (decodeHeader strayWordRom ownSectionImage.pHeader)
        ((readRelocation ownSectionImage.pRelocations 0).run strayWordRom).1)).run strayWordRom =
      some 1 := by decide +kernel
  rw [h1, Option.some.injEq] at hfound
  subst hfound
  exact ⟨by decide, fun _ => by decide +kernel, fun h => absurd h (by decide)⟩

theorem failed_load_balanced_strayWord :
    strayWordFailed.handle = Module.free ∧
      ∀ held, settle held (deeds (hostEvents strayWordFailed.trace)) = some held := by
  obtain ⟨herror, hblocks⟩ :
      ((udynlinkLoadModuleImage ownSectionHost ownSectionImage 0 0 .copyTextData).run
        ⟨strayWordRom, Module.free, []⟩).1 = .error .loadBadRelocationTable ∧
      loadBlocks 0 0 (hostEvents strayWordFailed.trace) =
        [⟨0x20000000, 20⟩, ⟨0x20000014, 4⟩] := by
    decide +kernel
  have hload : (udynlinkLoadModuleImage ownSectionHost ownSectionImage 0 0 .copyTextData).run
      ⟨strayWordRom, Module.free, []⟩ = (.error .loadBadRelocationTable, strayWordFailed) :=
    Prod.ext herror (by rw [strayWordFailed])
  obtain ⟨evs, he⟩ := Prog.extends_of_run hload
  have htrace : strayWordFailed.trace = evs := he.1
  rw [htrace] at hblocks ⊢
  exact failed_load_balanced (w := ⟨strayWordRom, Module.free, []⟩) hload rfl he fun _ =>
    ⟨strayWord_contained, fairBlocks_ascending hblocks (by decide +kernel) (by decide +kernel)⟩

end Udynlink
