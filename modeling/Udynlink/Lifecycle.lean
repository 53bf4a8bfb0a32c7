import Udynlink.LiveMoves
import Udynlink.MoveDeeds

/-!
# The life of a module

Between its load and its unload a module is written to and moved. The blocks it
holds are the ones its base array and its handle name, each under the tag it was
asked for: loads and moves hand out exactly these, and the unload gives them back.
-/

namespace Udynlink

open Machine

/-! ## What a module holds -/

/-- The base of section `j` as the module has recorded it. -/
def recordedBase (w : State) (j : Nat) : Addr :=
  (getSectionBaseIdx w.handle (moduleView w) j).run w.mem

section

variable (image : Image) (m : Mem)

def imageEntry (j : Nat) : SectEntry := entriesAt m (imageView image m).pEntries j

def imageSectName (j : Nat) : Option (List UInt8) :=
  (readSectName (sectName (imageView image m) (imageEntry image m j))).run m

/-- The tagged sections with a block of their own. -/
def boundSections : List Nat := taggedIdx (imageEntry image m) ((imageView image m).num - 3) 3

/-- The tag section `j` was asked for under, and where it is. -/
def sectionKey (w : State) (j : Nat) : BlockTag × Addr :=
  taggedKey (imageEntry image m) (recordedBase w) (imageSectName image m) j

/-- The blocks of the tagged sections, and the main block where the loader owns it. -/
def heldKeys (w : State) : List (BlockTag × Addr) :=
  (boundSections image m).map (sectionKey image m w) ++ mainKeys w.handle (imageMainAlign image m)

end

/-- What happens to a module between load and unload, with the deeds: stores beside
its metadata, calls that are refused and leave the owner of the block, and moves. The
storage of a section that is moved is the host's, before and after. -/
inductive Lived (host : Host) (image : Image) (mode : LoadMode) (m : Mem) (w : State) :
    List (Deed (BlockTag × Addr)) → State → Prop where
  | start : Lived host image mode m w [] w
  | write {ds : List (Deed (BlockTag × Addr))} {w₁ w₂ : State}
      (h : Lived host image mode m w ds w₁) (hs : Lives (fun _ _ => False) image m w₁ w₂) :
      Lived host image mode m w ds w₂
  | refused {ds : List (Deed (BlockTag × Addr))} {w₁ w₂ : State} {call : RelocateCall} {e : Error}
      {evs : List (Event HostEvent)} (h : Lived host image mode m w ds w₁)
      (hr : (call.exec host).run w₁ = (.error e, w₂)) (hk : KeepsOwnership call w₁)
      (he : w₁.Extends w₂ evs) : Lived host image mode m w (ds ++ deeds (hostEvents evs)) w₂
  | moved {ds : List (Deed (BlockTag × Addr))} {w₁ w₂ : State} {call : RelocateCall}
      {evs : List (Event HostEvent)} (h : Lived host image mode m w ds w₁)
      (hr : (call.exec host).run w₁ = (.ok (), w₂)) (hapart : CallApart image mode m call w₁ w₂)
      (he : w₁.Extends w₂ evs) : Lived host image mode m w
        (ds ++ (deeds (hostEvents evs) ++
          exchange (boundSections image m) (sectionKey image m w₁) (sectionKey image m w₂))) w₂

/-! ## One step -/

section

variable {host : Host} {image : Image} {mode : LoadMode} {m : Mem} {w w₁ w₂ : State}
  {call : RelocateCall} {e : Error}

/-- A refused call that keeps the owner keeps everything. -/
theorem refused_untouched (hr : (call.exec host).run w = (.error e, w₁))
    (hk : KeepsOwnership call w) : Untouched w w₁ := by
  have hmain : ∀ {newRam : Addr} {newSize : UInt32},
      call.newRam = newRam → call.moves = some [] → w.handle.pHeader ≠ 0 →
      (relocateMainBlock host newRam newSize []).run w = (.error e, w₁) → Untouched w w₁ := by
    intro newRam newSize hnew hmoves hne h
    refine (relocateMainBlock_untouched_iff h).mpr ?_
    rcases hk with hx | hx | hx | hx
    · exact absurd hx hne
    · exact Or.inl hx
    · exact absurd hmoves hx
    · exact Or.inr (hnew ▸ hx)
  cases call with
  | module newRam newSize =>
    rw [RelocateCall.exec, udynlinkRelocateModule, Prog.run_getHandle_bind] at hr
    split at hr
    next =>
      rw [Prog.run_fail, Prod.mk.injEq] at hr
      exact hr.2 ▸ Untouched.refl w
    next hne => exact hmain rfl rfl hne hr
  | sections newRam newSize moves =>
    by_cases hm : moves = some []
    · subst hm
      rw [RelocateCall.exec, udynlinkRelocateModuleSections, Prog.run_getHandle_bind] at hr
      split at hr
      next =>
        rw [Prog.run_fail, Prod.mk.injEq] at hr
        exact hr.2 ▸ Untouched.refl w
      next hne => exact hmain rfl rfl hne hr
    · exact sectionMoves_untouched hm hr

/-- What the steps of a life leave of a module, however it is laid out. -/
structure Steady (host : Host) (image : Image) (mode : LoadMode) (m : Mem) (ram : Nat)
    (I : State → Prop) : Prop where
  ram : ∀ w, I w → moduleRam w = ram
  align : ∀ w, I w → (getMainAlign (moduleView w)).run w.mem = imageMainAlign image m
  write : ∀ w w', I w → Lives (fun _ _ => False) image m w w' →
    I w' ∧ ∀ j ∈ boundSections image m, recordedBase w' j = recordedBase w j
  moved : ∀ call w w', I w → (RelocateCall.exec host call).run w = (.ok (), w') →
    CallApart image mode m call w w' → I w'
  table : ∀ w, I w → (getSectab w.handle.pHeader false).run w.mem = (.ok (), moduleView w)
  owes : ∀ w, I w → Owes (moduleView w) (imageEntry image m) (recordedBase w)
    (imageSectName image m) w.handle w.mem ((imageView image m).num - 3)

/-- Deeds that turn one main block into another, whatever else is held. -/
theorem MainMoved.settle {mainAlign : UInt32} (h : MainMoved mainAlign w₁ w₂)
    {evs : List (Event HostEvent)} (he : w₁.Extends w₂ evs) (sects rest : Multiset (BlockTag × Addr)) :
    Machine.settle (sects + ((mainKeys w₁.handle mainAlign : Multiset (BlockTag × Addr)) + rest))
        (deeds (hostEvents evs)) =
      some (sects + ((mainKeys w₂.handle mainAlign : Multiset (BlockTag × Addr)) + rest)) := by
  rcases h with ⟨hd, hb⟩ | ⟨-, hd⟩
  · rw [hd.deeds_eq he, mainKeys_congr hb]
    rfl
  · rw [hd.deeds_eq he]
    have hnew := settle_grants (mainKeys w₂.handle mainAlign)
      (sects + ((mainKeys w₁.handle mainAlign : Multiset (BlockTag × Addr)) + rest))
    have hold := settle_releases (mainKeys w₁.handle mainAlign)
      (sects + ((mainKeys w₂.handle mainAlign : Multiset (BlockTag × Addr)) + rest))
    refine settle_trans hnew ?_
    rw [← hold]
    congr 1
    ac_rfl

/-- The same sections under other bases. -/
theorem heldKeys_congr (hb : ∀ j ∈ boundSections image m, recordedBase w₂ j = recordedBase w₁ j)
    (hblock : blockOf w₂.handle = blockOf w₁.handle) :
    heldKeys image m w₂ = heldKeys image m w₁ := by
  rw [heldKeys, heldKeys, mainKeys_congr hblock]
  congr 1
  refine List.map_congr_left fun j hj => ?_
  rw [sectionKey, sectionKey, taggedKey, taggedKey, hb j hj]

theorem heldKeys_add (w : State) (rest : Multiset (BlockTag × Addr)) :
    (heldKeys image m w : Multiset (BlockTag × Addr)) + rest =
      ((boundSections image m).map (sectionKey image m w) : Multiset (BlockTag × Addr)) +
        ((mainKeys w.handle (imageMainAlign image m) : Multiset (BlockTag × Addr)) + rest) := by
  rw [heldKeys, ← Multiset.coe_add, add_assoc]

/-- The run lemma: over any life what is held is what the handle and the array name. -/
theorem Steady.lived {ram : Nat} {I : State → Prop} {ds : List (Deed (BlockTag × Addr))}
    (hst : Steady host image mode m ram I) (h0 : I w₁) (hp : ram ≠ 0 → w₁.handle.pRam ≠ 0)
    (hl : Lived host image mode m w₁ ds w₂) :
    I w₂ ∧ (ram ≠ 0 → w₂.handle.pRam ≠ 0) ∧ ∀ rest : Multiset (BlockTag × Addr),
      settle ((heldKeys image m w₁ : Multiset _) + rest) ds =
        some ((heldKeys image m w₂ : Multiset _) + rest) := by
  induction hl with
  | start => exact ⟨h0, hp, fun rest => rfl⟩
  | write h hs ih =>
    obtain ⟨hi, hpi, hset⟩ := ih
    obtain ⟨hi', hbases⟩ := hst.write _ _ hi hs
    have hh : blockOf _ = blockOf _ := congrArg blockOf (by
      cases hs with
      | move hx => exact absurd hx not_false
      | write handle _ _ => exact handle)
    refine ⟨hi', fun hne => ?_, fun rest => ?_⟩
    · rw [(Prod.mk.inj hh).1]
      exact hpi hne
    · rw [hset rest, heldKeys_congr hbases hh]
  | refused h hr hk he ih =>
    obtain ⟨hi, hpi, hset⟩ := ih
    have hu := refused_untouched hr hk
    have hs : Lives (fun _ _ => False) image m _ _ :=
      .write hu.handle (fun a _ => by rw [hu.mem]) (fun a _ => by rw [hu.mem])
    obtain ⟨hi', hbases⟩ := hst.write _ _ hi hs
    refine ⟨hi', fun hne => ?_, fun rest => ?_⟩
    · rw [hu.handle]
      exact hpi hne
    · refine settle_trans (hset rest) ?_
      rw [(RelocateCall.exec_failsDry host _ _ _ _ hr).deeds_eq he,
        heldKeys_congr hbases (congrArg blockOf hu.handle)]
      rfl
  | @moved _ w₃ _ _ _ h hr hapart he ih =>
    obtain ⟨hi, hpi, hset⟩ := ih
    have hi' := hst.moved _ _ _ hi hr hapart
    have hmain := RelocateCall.exec_moved (fun hne => hpi (by rw [← hst.ram _ hi]; exact hne)) hr
    rw [hst.align _ hi] at hmain
    refine ⟨hi', fun hne => ?_, fun rest => settle_trans (hset rest) ?_⟩
    · rcases hmain with ⟨-, hb⟩ | ⟨hne', -⟩
      · rw [(Prod.mk.inj hb).1]
        exact hpi hne
      · exact hne'
    · rw [heldKeys_add, heldKeys_add]
      exact settle_trans (hmain.settle he _ rest) (settle_exchange _ _ _ _)

/-! ## Untagged modules -/

theorem boundSections_empty (hn : (imageView image m).num = 0) : boundSections image m = [] := by
  rw [boundSections, hn]
  rfl

theorem UntaggedImage.Kept.steady {u : UntaggedImage} (hcon : u.Contiguous)
    (hf : UntaggedFits u.header u.mode) (hcode : exactCodeOffset u.header < 2 ^ 32)
    (hok : u.EntriesBehind) (hn : (imageView image m).num = 0)
    (hheader : u.header = decodeHeader m image.pHeader) (hp : u.image.pHeader = image.pHeader)
    (hmode : u.mode = mode) (hmask : ¬ u.header.flags &&& hdrSectionsMask ≠ 0) :
    Steady host image mode m (exactRamUntagged u.header u.mode)
      (fun w => u.Kept w.handle.pRam w) := by
  have hend : symtabEnd u.header < 2 ^ 32 :=
    Nat.lt_of_le_of_lt (UntaggedImage.symtabEnd_le hf.untagged) hcode
  have hempty := boundSections_empty hn
  refine ⟨fun w h => UntaggedImage.Kept.moduleRam_eq hf h, fun w h => ?_,
    fun w w' h hs => ?_, fun call w w' h hr hc => ?_, fun w h => ?_, fun w h => ?_⟩
  · rw [imageMainAlign, getMainAlign_empty hn,
      getMainAlign_empty (UntaggedImage.Kept.moduleView_num hf h)]
  · cases hs with
    | move hx => exact absurd hx not_false
    | write hh hmeta _ =>
      rw [← hheader] at hmeta
      have hw := UntaggedImage.Kept.write h hf.untagged hcode hh hmeta
      rw [← hh] at hw
      exact ⟨hw, by simp [hempty]⟩
  · rw [CallApart, if_pos hn, ← hheader, ← hp, ← hmode] at hc
    exact UntaggedImage.Kept.step hcon hf hend h hok hr hc
  · have hown := UntaggedImage.Kept.header h
    rw [moduleView, getSectab_untagged (by rw [hown]; exact hf.untagged), hown, if_neg hmask]
  · rw [hn]
    exact owes_none (Or.inr (by rw [UntaggedImage.Kept.moduleView_num hf h]; decide))

/-! ## Modules with a section table -/

theorem Machine.Reader.cstr_shift (m : Mem) (d : Addr) (n : Nat) (p : Addr) :
    (Reader.cstr n (p + d)).run m = (Reader.cstr n p).run (m.shift d) := by
  induction n generalizing p with
  | zero => rfl
  | succ n ih =>
    simp only [Reader.cstr, Reader.run_bind, Reader.run_ite, Reader.run_pure]
    rw [add_right_comm, ih]
    rfl

theorem readCString_shift (m : Mem) (d p : Addr) :
    (readCString (p + d)).run m = (readCString p).run (m.shift d) :=
  Machine.Reader.cstr_shift m d _ p

namespace SectionedImage

variable {u : SectionedImage} {secs : Nat → Addr} {p : Addr} {mod : Module} {j : Nat}

/-- A name moves with the metadata. -/
theorem Placed.name_run (h : u.Placed secs p mod m)
    (hw : (readSectName (sectName u.tab (u.es j))).Within
      (· ∈ (⟨u.pHeader, exactCodeOffset u.header⟩ : Span)) u.m) :
    (readSectName (sectName (sectView mod.pHeader u.header) (u.es j))).run m =
      (readSectName (sectName u.tab (u.es j))).run u.m := by
  have hpool : (sectView mod.pHeader u.header).pPool = u.tab.pPool + (mod.pHeader - u.pHeader) := by
    rw [sectView, tab, sectView, getSymTablePointer_eq, getSymTablePointer_eq]
    exact rebased _ _ _
  have hcongr := hw.congr fun a ha => h.shift ha
  rw [← hcongr, sectName, sectName]
  split
  next =>
    rw [hpool, add_right_comm]
    simp only [readSectName, Reader.run_bind, Reader.run_pure, readCString_shift]
  next => rfl

/-- A module in its place, with a base for each tagged section. -/
structure Bound (u : SectionedImage) (w : State) : Prop where
  standing : u.Standing w
  bases : ∀ j, 3 ≤ j → j < u.num → (u.es j).size ≠ 0 → u.recorded w j ≠ 0

theorem Bound.exec (h : u.Bound w) (hf : u.Fits) (hc : u.Contained)
    (hr : (call.exec host).run w = (.ok (), w₁))
    (hapart : u.ApartCall call.newRam call.moves w w₁) : u.Bound w₁ := by
  refine ⟨h.standing.exec hf hc hr hapart, fun j hj hj' hne => ?_⟩
  obtain ⟨moves, hmoves, -, hbases, hdone⟩ := h.standing.placed.exec_ok hf hc hr
  rcases hdone with ⟨hh, hmem, -⟩ | ⟨q, ⟨evs, he, hdest⟩, hnew, -, -, hgo⟩
  · rw [recorded, hh, hmem]
    exact h.bases j hj hj' hne
  · have hplaced := (hgo (hapart evs q he hdest (Or.inr hnew) moves hmoves)).placed
    rw [hplaced.recorded_eq hj hj' hne, movedBase]
    cases hfind : moves.find? fun mv => mv.idx.toNat == j with
    | none => exact h.bases j hj hj' hne
    | some mv => exact (hbases mv (List.mem_of_find?_eq_some hfind)).1

theorem Standing.recordedBase_eq (h : u.Standing w) (hf : u.Fits) (hj : 3 ≤ j) (hj' : j < u.num)
    (hne : (u.es j).size ≠ 0) : recordedBase w j = u.recorded w j := by
  have hfirst := firstPlaced_le u.mode
  rw [recordedBase, h.placed.moduleView_eq hf]
  exact ((h.placed.sectionedAt hf).base_run hf hj' (by omega)).2 hj (h.ne_zero (by omega)) hne

/-- Stores beside the base array leave what it has recorded. -/
theorem recorded_write (hf : u.Fits) (hh : w₁.handle = w.handle)
    (hbases : AgreeOn ⟨w.handle.pRam + UInt32.ofNat (4 * u.header.numLot.toNat), 4 * (u.num - 3)⟩
      w.mem w₁.mem) (hj : 3 ≤ j) (hj' : j < u.num) : u.recorded w₁ j = u.recorded w j := by
  have hram : u.ram < 2 ^ 32 := hf.ram
  have hb := bases_le_start u.header u.num u.mode
  have hstart : exactStart u.header u.num u.mode ≤ u.ram := hf.start_le_ram
  rw [recorded, recorded, hh]
  refine ((hbases.mono ?_).u32).symm
  rw [baseWord, ← off_off]
  exact off_subset (by omega) (by omega)

/-- The array is what the unload takes it for. -/
theorem Bound.owes (h : u.Bound w) (hf : u.Fits) {names : Nat → Option (List UInt8)}
    (hn : ∀ j, 3 ≤ j → j < u.num → (u.es j).size ≠ 0 →
      (readSectName (sectName u.tab (u.es j))).Within
        (· ∈ (⟨u.pHeader, exactCodeOffset u.header⟩ : Span)) u.m ∧
      (readSectName (sectName u.tab (u.es j))).run u.m = names j) :
    Owes (moduleView w) u.es (recordedBase w) names w.handle w.mem (u.num - 3) := by
  have hp := h.standing.placed
  have hnum := hp.moduleView_num hf
  refine ⟨fun hx => ?_, by rw [hnum], fun _ _ => ⟨fun j _ hj => ?_, fun j hj hj' hne => ?_,
    fun j hj hj' hne => ⟨rfl, ?_⟩, fun j hj hj' => absurd hj' (by omega)⟩⟩
  · rw [hnum] at hx
    have hne := h.standing.ne_zero
    by_contra hpos
    exact hx.elim (hne (by omega)) (by omega)
  · rw [hnum] at hj
    rw [hp.moduleView_eq hf]
    exact hp.entries hf (by omega)
  · rw [hnum] at hj'
    obtain ⟨hw, hname⟩ := hn j hj (by omega) hne
    rw [hp.moduleView_eq hf, hp.name_run hw, hname]
  · rw [h.standing.recordedBase_eq hf hj (by omega) hne]
    exact h.bases j hj (by omega) hne

theorem Bound.steady (hu : u = ⟨image.pHeader, m, mode⟩) (hf : u.Fits) (hc : u.Contained)
    (hview : imageView image m = u.tab)
    (hn : ∀ j, j < u.num → (readSectName (sectName u.tab (u.es j))).Within
      (· ∈ (⟨u.pHeader, exactCodeOffset u.header⟩ : Span)) u.m) :
    Steady host image mode m u.ram u.Bound := by
  have hmem : u.m = m := by rw [hu]
  have hes : imageEntry image m = u.es := by
    funext j
    rw [imageEntry, hview, es, hmem]
  have hnum : (imageView image m).num = u.num := by rw [hview, num]
  have hpos : (imageView image m).num ≠ 0 := by
    have := hf.main
    omega
  have hhdr : decodeHeader m image.pHeader = u.header := by rw [hu, header]
  have hkeep : ∀ {w w' : State}, u.Standing w → u.Standing w' →
      (∀ j, 3 ≤ j → j < u.num → (u.es j).size ≠ 0 → u.recorded w' j = u.recorded w j) →
      ∀ j ∈ boundSections image m, recordedBase w' j = recordedBase w j := by
    intro w w' h h' hsame j hj
    rw [boundSections, hes, hnum] at hj
    obtain ⟨h3, hlt, hne⟩ := mem_taggedIdx.mp hj
    rw [h.recordedBase_eq hf h3 (by omega) hne, h'.recordedBase_eq hf h3 (by omega) hne]
    exact hsame j h3 (by omega) hne
  refine ⟨fun w h => h.standing.placed.moduleRam_eq hf, fun w h => ?_, fun w w' h hs => ?_,
    fun call w w' h hr hca => ?_, fun w h => ?_, fun w h => ?_⟩
  · rw [h.standing.placed.moduleView_eq hf, h.standing.placed.mainAlign_run hf, imageMainAlign, hview,
      ← hmem]
    rfl
  · cases hs with
    | move hx => exact absurd hx not_false
    | write hh hmeta hbases =>
      rw [hhdr] at hmeta
      rw [hhdr, hnum] at hbases
      have hst := h.standing.write hf hh hmeta hbases
      have hsame : ∀ j, 3 ≤ j → j < u.num → (u.es j).size ≠ 0 →
          u.recorded w' j = u.recorded w j := fun j hj hj' _ =>
        recorded_write hf hh hbases hj hj'
      exact ⟨⟨hst, fun j hj hj' hne => hsame j hj hj' hne ▸ h.bases j hj hj' hne⟩,
        hkeep h.standing hst hsame⟩
  · rw [CallApart, if_neg hpos, ← hu] at hca
    exact h.exec hf hc hr hca
  · rw [h.standing.placed.moduleView_eq hf]
    exact h.standing.placed.getSectab_run hf
  · rw [hes, hnum]
    refine h.owes hf fun j hj hj' hne => ⟨hn j hj', ?_⟩
    rw [imageSectName, hview, hes, hmem]

end SectionedImage

end

/-! ## What a load hands out -/

/-- Only the names of the sections that are asked for matter. -/
theorem taggedHost_names {es : Nat → SectEntry} {secs : Nat → Addr}
    {names names' : Nat → Option (List UInt8)} {n k : Nat}
    (hn : ∀ j, k ≤ j → j < k + n → (es j).size ≠ 0 → names j = names' j) :
    taggedHost es secs names n k = taggedHost es secs names' n k := by
  induction n generalizing k with
  | zero => rfl
  | succ n ih =>
    rw [taggedHost, taggedHost, ih fun j hj hj' => hn j (by omega) (by omega)]
    split
    next => rfl
    next hne => rw [hn k (Nat.le_refl k) (by omega) hne]

section

variable {host : Host} {image : Image} {mode : LoadMode} {loadAddr : Addr} {loadSize : UInt32}
  {w w₁ w₂ w₃ : State} {tab : SectView} {ramSize : UInt32} {ramAddr : Addr} {w1 w2 w3 w4 : State}
  {evs evs' : List (Event HostEvent)}
  (hs : LoadStages host image loadAddr loadSize mode w w₁ tab ramSize ramAddr w1 w2 w3 w4)

include hs

theorem LoadStages.front : ∃ e2, w.Extends w2 e2 ∧
    hostEvents e2 = mainHost ((getMainAlign tab).run w.mem) ramSize loadAddr ramAddr := by
  obtain ⟨as, hw1⟩ := hs.checked
  obtain ⟨-, -, hdid⟩ := provisionRam_ok hs.provision
  obtain ⟨e2, he2⟩ := Prog.extends_of_run hs.provision
  have he1 : w.Extends w1 (readEvents as) := hw1 ▸ ⟨rfl, fun _ _ => rfl⟩
  refine ⟨_, he1.trans he2, ?_⟩
  rw [hostEvents_append, hostEvents_readEvents, List.nil_append, (hdid.of_extends he2).1]

theorem LoadStages.main_deeds :
    deeds (mainHost ((getMainAlign tab).run w.mem) ramSize loadAddr ramAddr) =
      (mainKeys w2.handle ((getMainAlign tab).run w.mem)).map .grant := by
  obtain ⟨hb, hh, -⟩ := provisionRam_ok hs.provision
  rw [hh]
  exact deeds_mainHost hb.ne_zero

theorem LoadStages.front_dealt :
    Dealt w w2 ((mainKeys w2.handle ((getMainAlign tab).run w.mem)).map .grant) := by
  obtain ⟨e2, he2, hev⟩ := hs.front
  exact ⟨e2, he2, by rw [hev, hs.main_deeds]⟩

/-- The relocations and the count of the names deal in nothing. -/
theorem LoadStages.back_dealt : Dealt w3 w₁ [] ∧ blockOf w₁.handle = blockOf w3.handle := by
  obtain ⟨as, hw⟩ := hs.finished
  have hcalm := loadApplyRelocations_calm (f := blockOf) host image.pHeader image.pRelocations
    image.pSymtab
  have hlast : Dealt w4 w₁ [] :=
    ⟨readEvents as, hw ▸ ⟨rfl, fun _ _ => rfl⟩, by rw [hostEvents_readEvents, deeds_nil]⟩
  refine ⟨(Dealt.of_calm hcalm hs.relocate).trans hlast, ?_⟩
  rw [hw]
  exact (hcalm.run hs.relocate).1

/-- Without tagged sections the block is all. -/
theorem LoadStages.main_dealt (h3 : tab.num ≤ 3) :
    Dealt w w₁ ((mainKeys w₁.handle ((getMainAlign tab).run w.mem)).map .grant) := by
  have hcalm := placeImage_calm (A := IsResolve) host image mode ramAddr h3
  obtain ⟨hback, hblock⟩ := hs.back_dealt
  have hall := hs.front_dealt.trans ((Dealt.of_calm hcalm hs.place).trans hback)
  rw [List.append_nil, List.append_nil] at hall
  rw [mainKeys_congr (hblock.trans (hcalm.run hs.place).1)]
  exact hall

/-- The tagged sections are asked for by the names the image has for them. -/
theorem LoadStages.tagged_dealt (h3 : 3 < tab.num) (hcont : LoadContained image mode w.mem)
    (he : w.Extends w₁ evs)
    (hfair : FairBlocks (imageSource image w.mem) loadAddr loadSize (hostEvents evs)) :
    blockOf w₁.handle = blockOf w2.handle ∧ ∃ secs, Dealt w w₁
      ((mainKeys w2.handle ((getMainAlign tab).run w.mem)).map .grant ++ (taggedKeys
        (imageEntry image w.mem) secs (imageSectName image w.mem) (tab.num - 3) 3).map .grant) := by
  have hview := imageView_of_sectab hs.sectab
  have hes : imageEntry image w.mem = entriesAt w.mem tab.pEntries := by
    funext j
    rw [imageEntry, hview]
  obtain ⟨htab, htable, hnamed⟩ : tab = sectView image.pHeader (decodeHeader w.mem image.pHeader) ∧
      TableOk (decodeHeader w.mem image.pHeader) tab.num (entriesAt w.mem tab.pEntries) ∧
      NamesOk w.mem image.pHeader (decodeHeader w.mem image.pHeader) true := by
    cases getSectab_ok hs.sectab with
    | inl hx =>
      have hnum : tab.num = 0 := by rw [hx.2]
      omega
    | inr hx => exact hx
  have hram := hcont.ram
  rw [imageRam, hview, exactRam, if_pos (by omega)] at hram
  have hf : SectionedFits (decodeHeader w.mem image.pHeader) tab.num
      (entriesAt w.mem tab.pEntries) mode := ⟨htable, by omega, hram⟩
  have hsize : ramSize.toNat = exactRamSections (decodeHeader w.mem image.pHeader) tab.num
      (entriesAt w.mem tab.pEntries) mode := by
    rw [hs.caps.ram, exactRam, if_pos (by omega), toNat_ofNat_of_lt hram]
  have hne : ramSize ≠ 0 := by
    have hstart := hf.start_le_ram
    have hbases := bases_le_start (decodeHeader w.mem image.pHeader) tab.num mode
    rintro rfl
    have hz : (0 : UInt32).toNat = 0 := rfl
    omega
  obtain ⟨hb, -, -⟩ := provisionRam_ok hs.provision
  obtain ⟨as, hw1⟩ := hs.checked
  obtain ⟨e2, he2, hev2⟩ := hs.front
  obtain ⟨hback, hblockBack⟩ := hs.back_dealt
  obtain ⟨e4, he4, -⟩ := id hback
  obtain ⟨e3, he3⟩ := Prog.extends_of_run hs.place
  rw [he.unique (he2.trans (he3.trans he4)), imageSource, hview, if_neg (by omega), hostEvents_append,
    hev2] at hfair
  obtain ⟨hsrcBlock, hgrBlock⟩ := hfair.block hb
  obtain ⟨-, hsrcGr⟩ := hfair.granted
  rw [hsize] at hsrcBlock hgrBlock
  rw [hostEvents_append, List.filterMap_append] at hgrBlock hsrcGr
  obtain ⟨hprov, hsame⟩ := provisioned_of_run hs.sectab htab hf rfl rfl (hw1 ▸ rfl) (hw1 ▸ rfl) hne
    hsrcBlock hs.provision
  have hrun := hs.place
  rw [placeImage, Prog.run_lift_bind, readHeader_run, hprov.header] at hrun
  dsimp only at hrun
  rw [if_pos (by omega), pTemp8_eq] at hrun
  have hprov' : Provisioned image mode tab (decodeHeader w.mem image.pHeader)
      (entriesAt w.mem tab.pEntries) ramAddr
      (w2.log (readEvents ((readHeader image.pHeader).reads w2.mem))) :=
    ⟨hprov.header, hprov.entries, hprov.names, hprov.pRam, hprov.pHeader, hprov.cleared, hprov.block,
      hprov.mode⟩
  obtain ⟨e3', he3'⟩ := Prog.extends_of_run hrun
  have hev3 : hostEvents e3 = hostEvents e3' := by
    rw [he3.unique ((World.extends_log _ _).trans he3'), hostEvents_append, hostEvents_readEvents,
      List.nil_append]
  obtain ⟨secs, c, hc, hcok, hcount, hplaced, -⟩ := placeSectioned_run htab hf hprov'
    (hb.ne_zero hne) (fun evs he s hs => by
      rw [he.unique he3', ← hev3] at hs
      exact ⟨hsrcGr _ (by simp [sectionedSource]) s (List.mem_append_left _ hs),
        hgrBlock s (List.mem_append_left _ hs)⟩) hrun
  have hnames : ∀ j, 3 ≤ j → j < 3 + (tab.num - 3) → (entriesAt w.mem tab.pEntries j).size ≠ 0 →
      sectNames tab (entriesAt w.mem tab.pEntries) w2 j = imageSectName image w.mem j := by
    intro j hj hj' _
    rw [imageSectName, hview, hes]
    exact (within_sectName htab hf hnamed (fun _ _ => rfl) (by omega)).congr
      (hsame _ (by simp [sectionedSource]))
  have hd3 : Dealt w2 w3 ((taggedKeys (imageEntry image w.mem) secs (imageSectName image w.mem)
      (tab.num - 3) 3).map .grant) := by
    refine ⟨e3, he3, ?_⟩
    rw [hev3, hcount e3' he3', hcok rfl, hes]
    exact congrArg _ (taggedKeys_congr (fun _ _ _ _ => rfl) hnames)
  have hall := hs.front_dealt.trans (hd3.trans hback)
  rw [List.append_nil] at hall
  refine ⟨?_, secs, hall⟩
  rw [hblockBack, hplaced, placedHandle]
  split <;> rfl

/-- Every tagged section of a loaded module has a base, at the block it was granted. -/
theorem LoadStages.bound (ht : tab.num ≠ 0) (hcont : LoadContained image mode w.mem)
    (he : w.Extends w₁ evs)
    (hfair : FairBlocks (imageSource image w.mem) loadAddr loadSize (hostEvents evs)) :
    SectionedImage.Bound ⟨image.pHeader, w.mem, mode⟩ w₁ ∧ ∃ secs names hrs, OnlyResolves hrs ∧
      hostEvents evs = mainHost ((getMainAlign tab).run w.mem) ramSize loadAddr ramAddr ++
        (taggedHost (imageEntry image w.mem) secs names (tab.num - 3) 3 ++ hrs) ∧
      SecsOk (imageEntry image w.mem) secs (tab.num - 3) 3 ∧
      ∀ j ∈ boundSections image w.mem, recordedBase w₁ j = secs j := by
  have hview := imageView_of_sectab hs.sectab
  let u : SectionedImage := ⟨image.pHeader, w.mem, mode⟩
  obtain ⟨htab, hf, secs, names, hl⟩ := sectioned_loaded hs ht hcont he hfair
  rw [htab] at hl
  have hnum : tab.num = u.num := by rw [htab]; rfl
  have hes : imageEntry image w.mem = u.es := by
    funext j
    rw [imageEntry, hview, htab]
    rfl
  have hplaced := (SectionedLoaded.alignedAt rfl hf hl).placed
  have hstand : u.Standing w₁ := SectionedLoaded.standing rfl hf hl
  obtain ⟨hrs, hres, hcalls⟩ := hl.callbacks
  refine ⟨⟨hstand, fun j hj hj' hne => ?_⟩, secs, names, hrs, hres, ?_, ?_, fun j hj => ?_⟩
  · have hlt : j < u.num := hj'
    have hlt' : j < 3 + (u.num - 3) := by omega
    rw [hplaced.recorded_eq hj hj' hne]
    exact (hl.granted j hj hlt' hne).1
  · rw [hcalls evs he, hes, htab]
    rfl
  · rw [hes, htab]
    exact hl.granted
  · rw [boundSections, hview, hes, hnum] at hj
    obtain ⟨h3, hlt, hne⟩ := mem_taggedIdx.mp hj
    have hlt' : j < u.num := by omega
    rw [hstand.recordedBase_eq hf h3 hlt' hne, hplaced.recorded_eq h3 hlt' hne]

/-- The tagged sections are asked for in the order of the table. -/
theorem LoadStages.tagged_calls (h3 : 3 < tab.num) (hcont : LoadContained image mode w.mem)
    (he : w.Extends w₁ evs)
    (hfair : FairBlocks (imageSource image w.mem) loadAddr loadSize (hostEvents evs)) :
    blockOf w₁.handle = blockOf w2.handle ∧ ∃ secs hrs, OnlyResolves hrs ∧
      hostEvents evs = mainHost ((getMainAlign tab).run w.mem) ramSize loadAddr ramAddr ++
        (taggedHost (imageEntry image w.mem) secs (imageSectName image w.mem) (tab.num - 3) 3 ++
          hrs) ∧
      SecsOk (imageEntry image w.mem) secs (tab.num - 3) 3 ∧
      ∀ j ∈ boundSections image w.mem, recordedBase w₁ j = secs j := by
  obtain ⟨-, secs, names, hrs, hres, hev, hok, hrec⟩ := hs.bound (by omega) hcont he hfair
  obtain ⟨hblock, secs', hd⟩ := hs.tagged_dealt h3 hcont he hfair
  have hdeeds := hd.deeds_eq he
  rw [hev, deeds_append, deeds_append, deeds_taggedHost hok, deeds_onlyResolves hres,
    hs.main_deeds, List.append_nil] at hdeeds
  have hkeys : taggedKeys (imageEntry image w.mem) secs names (tab.num - 3) 3 =
      taggedKeys (imageEntry image w.mem) secs' (imageSectName image w.mem) (tab.num - 3) 3 :=
    List.map_injective_iff.mpr (fun a b hab => by simpa using hab) (List.append_cancel_left hdeeds)
  have hnames : ∀ j, 3 ≤ j → j < 3 + (tab.num - 3) → (imageEntry image w.mem j).size ≠ 0 →
      names j = imageSectName image w.mem j := by
    intro j hj hj' hne
    exact congrArg (fun key : BlockTag × Addr => key.1.sect)
      (List.map_inj_left.mp hkeys j (mem_taggedIdx.mpr ⟨hj, hj', hne⟩))
  exact ⟨hblock, secs, hrs, hres, by rw [hev, taggedHost_names hnames], hok, hrec⟩

/-- Behind a load the handle and the array name what has been handed out. -/
theorem LoadStages.loaded_keys (hcont : LoadContained image mode w.mem) (he : w.Extends w₁ evs)
    (hfair : FairBlocks (imageSource image w.mem) loadAddr loadSize (hostEvents evs)) :
    settle 0 (deeds (hostEvents evs)) = some (heldKeys image w.mem w₁ : Multiset _) := by
  have hview := imageView_of_sectab hs.sectab
  by_cases h3 : tab.num ≤ 3
  · have hempty : boundSections image w.mem = [] := by
      rw [boundSections, hview, show tab.num - 3 = 0 by omega]
      rfl
    rw [(hs.main_dealt h3).deeds_eq he, settle_grants, add_zero, heldKeys, hempty, imageMainAlign,
      hview]
    rfl
  · obtain ⟨hblock, secs, hrs, hres, hev, hok, hrec⟩ := hs.tagged_calls (by omega) hcont he hfair
    have hmap : taggedKeys (imageEntry image w.mem) secs (imageSectName image w.mem) (tab.num - 3) 3 =
        (boundSections image w.mem).map (sectionKey image w.mem w₁) := by
      rw [taggedKeys, boundSections, hview]
      refine List.map_congr_left fun j hj => ?_
      rw [sectionKey, taggedKey, taggedKey, hrec j (by rwa [boundSections, hview])]
    rw [hev, deeds_append, deeds_append, deeds_taggedHost hok, deeds_onlyResolves hres,
      hs.main_deeds, List.append_nil, hmap, ← List.map_append, settle_grants, add_zero, heldKeys,
      mainKeys_congr hblock, imageMainAlign, hview]
    exact congrArg some (Multiset.coe_eq_coe.mpr List.perm_append_comm)

theorem LoadStages.ramAddr_ne (hram : imageRam image mode w.mem < 2 ^ 32)
    (hne : imageRam image mode w.mem ≠ 0) : ramAddr ≠ 0 := by
  obtain ⟨hb, -, -⟩ := provisionRam_ok hs.provision
  have hview := imageView_of_sectab hs.sectab
  have hsize := hs.caps.ram
  refine hb.ne_zero fun hz => hne ?_
  rw [hz, eq_comm, ← UInt32.toNat_inj] at hsize
  rw [imageRam, hview] at hram ⊢
  rwa [toNat_ofNat_of_lt hram] at hsize

/-- A loaded module with a section table is steady. -/
theorem LoadStages.sectioned_steady (ht : tab.num ≠ 0) (himg : MovableImage image mode w.mem)
    (he : w.Extends w₁ evs)
    (hfair : FairBlocks (imageSource image w.mem) loadAddr loadSize (hostEvents evs)) :
    SectionedImage.Fits ⟨image.pHeader, w.mem, mode⟩ ∧
      Steady host image mode w.mem (SectionedImage.ram ⟨image.pHeader, w.mem, mode⟩)
        (SectionedImage.Bound ⟨image.pHeader, w.mem, mode⟩) ∧
      SectionedImage.Bound ⟨image.pHeader, w.mem, mode⟩ w₁ ∧
      (SectionedImage.ram ⟨image.pHeader, w.mem, mode⟩ ≠ 0 → w₁.handle.pRam ≠ 0) := by
  have hview := imageView_of_sectab hs.sectab
  have hne : (imageView image w.mem).num ≠ 0 := by rw [hview]; exact ht
  obtain ⟨hbound, -⟩ := hs.bound ht himg.contained he hfair
  obtain ⟨htab, hf, secs, names, hl⟩ := sectioned_loaded hs ht himg.contained he hfair
  have hnamed : NamesOk w.mem image.pHeader (decodeHeader w.mem image.pHeader) true := by
    cases getSectab_ok hs.sectab with
    | inl hx =>
      rw [hx.2] at ht
      exact absurd rfl ht
    | inr hx => exact hx.2.2
  refine ⟨hf, SectionedImage.Bound.steady rfl hf (himg.moved hne) (hview.trans htab)
    (fun j hj => within_sectName rfl hf hnamed (fun _ _ => rfl) hj), hbound, fun hz => ?_⟩
  rw [hl.placed.pRam]
  refine hs.ramAddr_ne himg.contained.ram ?_
  rw [imageRam, hview, exactRam, if_pos (by omega), htab]
  exact hz

end

/-! ## From load to unload -/

section

variable {host : Host} {image : Image} {mode : LoadMode} {loadAddr : Addr} {loadSize : UInt32}
  {w w₁ w₂ w₃ : State} {m : Mem} {evs evs' : List (Event HostEvent)}
  {ds : List (Deed (BlockTag × Addr))}

/-- An unload gives back what the handle and the array name. -/
theorem Steady.unloaded {ram : Nat} {I : State → Prop} (hst : Steady host image mode m ram I)
    (h : I w₂) (hunload : udynlinkUnloadModule.run w₂ = (.ok (), w₃)) (he : w₂.Extends w₃ evs) :
    w₃.handle = Module.free ∧
      deeds (hostEvents evs) = (heldKeys image m w₂).map .release := by
  rw [udynlinkUnloadModule, Prog.run_getHandle_bind] at hunload
  split at hunload
  next => simp at hunload
  next =>
    rw [Prog.run_lift_bind, hst.table w₂ h] at hunload
    dsimp only at hunload
    rw [if_pos rfl, Prog.run_lift_bind, World.log_mem, hst.align w₂ h, World.log_log,
      ← readEvents_append, Prog.run_bind_ok] at hunload
    obtain ⟨⟨⟩, w3, hsect, hunload⟩ := hunload
    rw [releaseHandle, Prog.run_bind_ok] at hunload
    obtain ⟨⟨⟩, w4, hmain, hfree⟩ := hunload
    rw [Prog.run_modifyHandle, Prod.mk.injEq] at hfree
    obtain ⟨e3, he3⟩ := Prog.extends_of_run hsect
    obtain ⟨e4, he4⟩ := Prog.extends_of_run hmain
    have hlast : w4.Extends w₃ [] := hfree.2 ▸ ⟨(List.append_nil _).symm, fun _ _ => rfl⟩
    refine ⟨by rw [← hfree.2], ?_⟩
    rw [he.unique ((World.extends_log _ _).trans ((he3.trans he4).trans hlast)), List.append_nil,
      hostEvents_append, hostEvents_readEvents, List.nil_append,
      releaseAll_ok hsect (hst.owes w₂ h) hmain (he3.trans he4)]
    rfl

/-- A loaded module is steady, whatever its kind. -/
theorem loaded_steady
    (hload : (udynlinkLoadModuleImage host image loadAddr loadSize mode).run w = (.ok (), w₁))
    (himg : MovableImage image mode w.mem)
    (hown : (imageView image w.mem).num = 0 → UntaggedImage.OwnEntriesBehind w₁)
    (he : w.Extends w₁ evs)
    (hfair : FairBlocks (imageSource image w.mem) loadAddr loadSize (hostEvents evs)) :
    ∃ ram I, Steady host image mode w.mem ram I ∧ I w₁ ∧ (ram ≠ 0 → w₁.handle.pRam ≠ 0) ∧
      settle 0 (deeds (hostEvents evs)) = some (heldKeys image w.mem w₁ : Multiset _) := by
  obtain ⟨tab, ramSize, ramAddr, w1, w2, w3, w4, hs⟩ := loadStages_of_ok hload
  have hview := imageView_of_sectab hs.sectab
  have hkeys := hs.loaded_keys himg.contained he hfair
  have hram := himg.contained.ram
  by_cases ht : tab.num = 0
  · have hzero : (imageView image w.mem).num = 0 := by rw [hview]; exact ht
    obtain ⟨hv, hf, hkept, hpram⟩ := untagged_loaded hs ht hram he hfair
    let v := UntaggedImage.ofLoaded image.pHeader mode w₁
    have hvp : v.image.pHeader = image.pHeader := rfl
    have hvm : v.mode = mode := rfl
    have hcon : v.Contiguous := UntaggedImage.ofLoaded_contiguous image.pHeader mode w₁
    have hcode : exactCodeOffset v.header < 2 ^ 32 := by
      rw [hv]
      exact himg.offset
    have hend : symtabEnd v.header < 2 ^ 32 :=
      Nat.lt_of_le_of_lt (UntaggedImage.symtabEnd_le hf.untagged) hcode
    have hmask : ¬ v.header.flags &&& hdrSectionsMask ≠ 0 := by
      have hst := hs.sectab
      have hun := hf.untagged
      rw [hv] at hun ⊢
      rw [getSectab_untagged hun] at hst
      intro hx
      rw [if_pos hx] at hst
      simp at hst
    refine ⟨_, _, UntaggedImage.Kept.steady hcon hf hcode
      (UntaggedImage.Kept.entriesBehind hkept hcon hf hend (hown hzero)) hzero hv hvp hvm hmask, hkept,
      fun hne => ?_, hkeys⟩
    rw [hpram]
    refine hs.ramAddr_ne hram ?_
    rw [imageRam, hview, exactRam, if_neg (by omega), ← hv, ← hvm]
    exact hne
  · obtain ⟨-, hst, hbound, hp⟩ := hs.sectioned_steady ht himg he hfair
    exact ⟨_, _, hst, hbound, hp, hkeys⟩

/-- A module is written to and moved, and unloaded in the end: over its whole life the
host is given back exactly what it has handed out. -/
theorem lifecycle_balanced
    (hload : (udynlinkLoadModuleImage host image loadAddr loadSize mode).run w = (.ok (), w₁))
    (himg : MovableImage image mode w.mem)
    (hown : (imageView image w.mem).num = 0 → UntaggedImage.OwnEntriesBehind w₁)
    (he : w.Extends w₁ evs)
    (hfair : FairBlocks (imageSource image w.mem) loadAddr loadSize (hostEvents evs))
    (hlived : Lived host image mode w.mem w₁ ds w₂)
    (hunload : udynlinkUnloadModule.run w₂ = (.ok (), w₃)) (he' : w₂.Extends w₃ evs') :
    w₃.handle = Module.free ∧ ∀ held,
      settle held (deeds (hostEvents evs) ++ (ds ++ deeds (hostEvents evs'))) = some held := by
  obtain ⟨ram, I, hst, h1, hp, hkeys⟩ := loaded_steady hload himg hown he hfair
  obtain ⟨h2, -, hset⟩ := hst.lived h1 hp hlived
  obtain ⟨hfree, hrel⟩ := hst.unloaded h2 hunload he'
  refine ⟨hfree, fun held => ?_⟩
  have hgot := settle_add hkeys held
  rw [zero_add] at hgot
  refine settle_trans hgot (settle_trans (hset held) ?_)
  rw [hrel]
  exact settle_releases _ _

end

/-! ## Section `x` moved and unloaded -/

def ownSectionUnloaded : State := (udynlinkUnloadModule.run (ownSectionMove 0x30000000).2).2

theorem ownSection_lived : ∃ ds, Lived ownSectionHost ownSectionImage .copyTextData ownSectionRom
    ownSectionLoaded ds (ownSectionMove 0x30000000).2 := by
  obtain ⟨evs, he⟩ := Prog.extends_of_run ownSection_call
  exact ⟨_, .moved (.write .start ownSection_lives) ownSection_call ownSection_callApart he⟩

theorem lifecycle_balanced_ownSection :
    ∃ ds evs, Lived ownSectionHost ownSectionImage .copyTextData ownSectionRom ownSectionLoaded ds
        (ownSectionMove 0x30000000).2 ∧
      (ownSectionMove 0x30000000).2.Extends ownSectionUnloaded evs ∧
      ∀ held, settle held (deeds (hostEvents ownSectionLoaded.trace) ++
        (ds ++ deeds (hostEvents evs))) = some held := by
  have hunload : udynlinkUnloadModule.run (ownSectionMove 0x30000000).2 =
      (.ok (), ownSectionUnloaded) := Prod.ext (by decide +kernel) (by rw [ownSectionUnloaded])
  obtain ⟨evs, he⟩ := Prog.extends_of_run hunload
  obtain ⟨ds, hlived⟩ := ownSection_lived
  exact ⟨ds, evs, hlived, he, (lifecycle_balanced (w := ⟨ownSectionRom, Module.free, []⟩)
    ownSection_loads ownSection_movable (fun hz => absurd hz ownSection_table) ownSection_extends
    ownSection_fairBlocks hlived hunload he).2⟩

end Udynlink
