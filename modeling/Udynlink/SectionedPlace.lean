import Udynlink.LoadUntagged

/-!
# The payloads of a sectioned load

Every transfer of the stage, with the source metadata as the only memory it
looks at: main sections into the block, one block for each tagged section with
its base recorded, then the zeroed `.bss`. Nothing is assumed about where the
blocks are but that they miss the addresses `P` the stage reads.
-/

namespace Udynlink

open Machine

/-! ## Transfers -/

/-- The address of main section `idx` in the block at `p`. -/
def mainDest (h : Header) (num : Nat) (es : Nat → SectEntry) (mode : LoadMode) (p : Addr)
    (idx : Nat) : Addr := p + UInt32.ofNat (exactMainOffset h num es mode idx)

section

variable (image : Image) (h : Header) (num : Nat) (es : Nat → SectEntry) (mode : LoadMode)
  (p : Addr)

def textBlit : Blit := .copy (mainDest h num es mode p 0) image.pCode (es 1).va.toNat

def dataBlit : Blit := .copy (mainDest h num es mode p 1) image.pData (es 1).size.toNat

def bssBlit : Blit := .zero (mainDest h num es mode p 2) (es 2).size.toNat

/-- Behind the LOT and the base array. -/
def metadataAddr : Addr := p + UInt32.ofNat (4 * h.numLot.toNat + 4 * (num - 3))

def mainBlits : List Blit :=
  match mode with
  | .copyAll => [.copy (metadataAddr h num p) image.pHeader (exactCodeOffset h),
      textBlit image h num es .copyAll p, dataBlit image h num es .copyAll p]
  | .copyTextData =>
    [textBlit image h num es .copyTextData p, dataBlit image h num es .copyTextData p]
  | .xip => [dataBlit image h num es .xip p]

end

theorem placedEnd_congr {es es' : Nat → SectEntry} {n i off : Nat}
    (h : ∀ j, i ≤ j → j < i + n → es j = es' j) : placedEnd es n i off = placedEnd es' n i off := by
  induction n generalizing i off with
  | zero => rfl
  | succ n ih =>
    rw [placedEnd, placedEnd, h i (Nat.le_refl i) (by omega)]
    exact ih fun j hj hj' => h j (by omega) (by omega)

/-- Only the main entries count. -/
theorem exactMainOffset_congr {h : Header} {num : Nat} {es es' : Nat → SectEntry} {mode : LoadMode}
    {idx : Nat} (hidx : firstPlaced mode ≤ idx) (he : ∀ j, j ≤ idx → es j = es' j) :
    exactMainOffset h num es mode idx = exactMainOffset h num es' mode idx := by
  rw [exactMainOffset, exactMainOffset, placedAt, placedAt,
    show firstPlaced mode + (idx - firstPlaced mode) = idx by omega, he idx (Nat.le_refl idx),
    placedEnd_congr fun j _ hj => he j (by omega)]

theorem mainBlits_congr {image : Image} {h : Header} {num : Nat} {es es' : Nat → SectEntry}
    {mode : LoadMode} {p : Addr} (he : ∀ j, j ≤ 1 → es j = es' j) :
    mainBlits image h num es mode p = mainBlits image h num es' mode p := by
  have h1 (hm : firstPlaced mode ≤ 1) : dataBlit image h num es mode p =
      dataBlit image h num es' mode p := by
    rw [dataBlit, dataBlit, mainDest, mainDest, exactMainOffset_congr hm he, he 1 (by omega)]
  have h0 (hm : firstPlaced mode ≤ 0) : textBlit image h num es mode p =
      textBlit image h num es' mode p := by
    rw [textBlit, textBlit, mainDest, mainDest,
      exactMainOffset_congr hm fun j hj => he j (by omega), he 1 (by omega)]
  cases mode with
  | xip => rw [mainBlits, mainBlits, h1 (by decide)]
  | copyTextData => rw [mainBlits, mainBlits, h0 (by decide), h1 (by decide)]
  | copyAll => rw [mainBlits, mainBlits, h0 (by decide), h1 (by decide)]

theorem bssBlit_congr {h : Header} {num : Nat} {es es' : Nat → SectEntry} {mode : LoadMode}
    {p : Addr} (hm : firstPlaced mode ≤ 2) (he : ∀ j, j ≤ 2 → es j = es' j) :
    bssBlit h num es mode p = bssBlit h num es' mode p := by
  rw [bssBlit, bssBlit, mainDest, mainDest, exactMainOffset_congr hm he, he 2 (by omega)]

/-- The slot of section `k` in the base array of the block at `p`. -/
def baseWord (h : Header) (p : Addr) (k : Nat) : Addr :=
  p + UInt32.ofNat (4 * h.numLot.toNat + 4 * (k - 3))

/-- The contents of a tagged section. -/
def taggedBlit (e : SectEntry) (sec src : Addr) : Blit :=
  if e.cls = secClassBss then .zero sec e.size.toNat else .copy sec src e.size.toNat

/-- Payload offset behind a tagged section. -/
def nextPayload (e : SectEntry) (off : UInt32) : UInt32 :=
  if e.cls = secClassBss then off else off + e.size

/-- A base and its contents for every non-empty one of `n` sections from `k` on. -/
def taggedBlits (image : Image) (h : Header) (es : Nat → SectEntry) (p : Addr)
    (secs : Nat → Addr) : Nat → Nat → UInt32 → List Blit
  | 0, _, _ => []
  | n + 1, k, off =>
    if (es k).size = 0 then taggedBlits image h es p secs n (k + 1) off
    else .word (baseWord h p k) (secs k) :: taggedBlit (es k) (secs k) (image.pCode + off) ::
      taggedBlits image h es p secs n (k + 1) (nextPayload (es k) off)

/-- The blocks of the non-empty ones of `n` sections from `k` on. -/
def taggedSpans (es : Nat → SectEntry) (secs : Nat → Addr) : Nat → Nat → List Span
  | 0, _ => []
  | n + 1, k =>
    if (es k).size = 0 then taggedSpans es secs n (k + 1)
    else ⟨secs k, (es k).size.toNat⟩ :: taggedSpans es secs n (k + 1)

/-- The requests for them. -/
def taggedHost (es : Nat → SectEntry) (secs : Nat → Addr) (names : Nat → Option (List UInt8)) :
    Nat → Nat → List HostEvent
  | 0, _ => []
  | n + 1, k =>
    if (es k).size = 0 then taggedHost es secs names n (k + 1)
    else .malloc (es k).size ⟨names k, (es k).align, sectHostFlags (es k)⟩ (secs k) ::
      taggedHost es secs names n (k + 1)

/-- The blocks of the non-empty ones are there, and aligned. -/
def SecsOk (es : Nat → SectEntry) (secs : Nat → Addr) (n k : Nat) : Prop :=
  ∀ j, k ≤ j → j < k + n → (es j).size ≠ 0 → secs j ≠ 0 ∧ secs j &&& ((es j).align - 1) = 0

theorem baseSlot_eq (mod : Module) (h : Header) (k : Nat) :
    baseSlot mod h k = baseWord h mod.pRam k := by
  rw [baseSlot, baseWord, lotBytes, off_off]

theorem eq_zero_of_not_pos {x : UInt32} (h : ¬ x > 0) : x = 0 := by
  by_contra hne
  exact h (UInt32.pos_iff_ne_zero.mpr hne)

theorem taggedBlit_span (e : SectEntry) (sec src : Addr) :
    (taggedBlit e sec src).span = ⟨sec, e.size.toNat⟩ := by
  rw [taggedBlit]
  split <;> rfl

/-! ## Main sections -/

/-- What the stage looks at. -/
structure PlaceIn (P : Addr → Prop) (image : Image) (tab : SectView) : Prop where
  view : ViewIn P tab
  header : Covers P ⟨image.pHeader, 32⟩
  num : 3 ≤ tab.num

variable {P : Addr → Prop} {image : Image} {tab : SectView} {mode : LoadMode} {m0 : Mem}
  {w w' : State}

/-- Transfers that miss `P` leave what is read there alone. -/
theorem did_agree {bs : List Blit} {hs : List HostEvent}
    (hd : Did w w' (Blit.applyAll bs) (bs.map Blit.span) hs)
    (hclear : ∀ b ∈ bs, ∀ a, P a → a ∉ b.span) (hag : ∀ a, P a → m0 a = w.mem a) (a : Addr)
    (ha : P a) : m0 a = w'.mem a := by
  refine (hag a ha).trans (hd.notMem fun s hs => ?_).symm
  obtain ⟨b, hb, rfl⟩ := List.mem_map.mp hs
  exact hclear b hb a ha

namespace PlaceIn

variable (hP : PlaceIn P image tab) (hag : ∀ a, P a → m0 a = w.mem a)

include hP hag

theorem header_run : decodeHeader w.mem image.pHeader = decodeHeader m0 image.pHeader :=
  (within_readHeader hP.header m0).congr hag

theorem entry_run {i : Nat} (hi : i < tab.num) :
    entriesAt w.mem tab.pEntries i = entriesAt m0 tab.pEntries i :=
  (within_sectEntryAt hP.view (by have := hP.num; omega) (Or.inl hi) m0).congr hag

theorem payload_run (h : Header) :
    (getCodePayloadSize h tab).run w.mem = (entriesAt m0 tab.pEntries 1).va := by
  have hnum := hP.num
  rw [getCodePayloadSize, if_pos (by omega), Reader.run_bind, sectEntryAt_run, Reader.run_pure,
    hP.entry_run hag (by omega)]

theorem mainSectionDest_run (idx : Nat) (mode : LoadMode) (hi : idx < 3)
    (hf : firstPlaced mode ≤ idx) :
    ∃ as, (mainSectionDest image tab mode idx).run w =
      (.ok (mainDest (decodeHeader m0 image.pHeader) tab.num (entriesAt m0 tab.pEntries) mode
        w.handle.pRam idx), w.log (readEvents as)) := by
  have hnum := hP.num
  have hoff : (getMainSectionOffset (decodeHeader m0 image.pHeader) tab mode idx).run w.mem =
      (getMainSectionOffset (decodeHeader m0 image.pHeader) tab mode idx).run m0 :=
    (within_getMainSectionOffset hP.view _ _ hi m0).congr hag
  rw [mainSectionDest, Prog.run_getHandle_bind, Prog.run_lift_bind, readHeader_run,
    Prog.run_lift_bind, World.log_mem, hP.header_run hag, hoff,
    getMainSectionOffset_run _ _ _ _ (by omega) hf, World.log_log, ← readEvents_append, mainDest]
  exact ⟨_, rfl⟩

theorem copyMainData_ok (h : (copyMainData image tab mode).run w = (.ok (), w')) :
    Filled w w' [dataBlit image (decodeHeader m0 image.pHeader) tab.num
      (entriesAt m0 tab.pEntries) mode w.handle.pRam] [] := by
  have hnum := hP.num
  rw [copyMainData, Prog.run_lift_bind, sectEntryAt_run, hP.entry_run hag (by omega)] at h
  split at h
  next =>
    obtain ⟨as, hdst⟩ := hP.mainSectionDest_run (w := w.log (readEvents
      ((sectEntryAt tab 1).reads w.mem))) hag 1 mode (by decide)
      (show firstPlaced mode ≤ 1 by rw [firstPlaced]; split <;> decide)
    rw [Prog.run_bind_of_ok hdst] at h
    exact Filled.of_log (Filled.of_log (Filled.of_copy h))
  next hz =>
    rw [Prog.run_pure, Prod.mk.injEq] at h
    rw [← h.2]
    refine (Filled.log w _).trans (Filled.of_empty _ ?_)
    exact congrArg UInt32.toNat (eq_zero_of_not_pos hz)

theorem zeroMainBss_ok (h : (zeroMainBss image tab mode).run w = (.ok (), w')) :
    Filled w w' [bssBlit (decodeHeader m0 image.pHeader) tab.num
      (entriesAt m0 tab.pEntries) mode w.handle.pRam] [] := by
  have hnum := hP.num
  rw [zeroMainBss, Prog.run_lift_bind, sectEntryAt_run, hP.entry_run hag (by omega)] at h
  split at h
  next =>
    obtain ⟨as, hdst⟩ := hP.mainSectionDest_run (w := w.log (readEvents
      ((sectEntryAt tab 2).reads w.mem))) hag 2 mode (by decide)
      (show firstPlaced mode ≤ 2 by rw [firstPlaced]; split <;> decide)
    rw [Prog.run_bind_of_ok hdst] at h
    exact Filled.of_log (Filled.of_log (Filled.of_zero h))
  next hz =>
    rw [Prog.run_pure, Prod.mk.injEq] at h
    rw [← h.2]
    refine (Filled.log w _).trans (Filled.of_empty _ ?_)
    exact congrArg UInt32.toNat (eq_zero_of_not_pos hz)

theorem copyMainText_ok (hm : mode ≠ .xip)
    (h : (copyMainText image tab mode).run w = (.ok (), w')) :
    Filled w w' [textBlit image (decodeHeader m0 image.pHeader) tab.num
      (entriesAt m0 tab.pEntries) mode w.handle.pRam] [] := by
  rw [copyMainText, Prog.run_lift_bind, readHeader_run, Prog.run_lift_bind, World.log_mem,
    hP.payload_run hag, World.log_log, ← readEvents_append] at h
  split at h
  next =>
    obtain ⟨as, hdst⟩ := hP.mainSectionDest_run (w := w.log (readEvents _))
      hag 0 mode (by decide) (by rw [firstPlaced, if_neg hm])
    rw [Prog.run_bind_of_ok hdst] at h
    exact Filled.of_log (Filled.of_log (Filled.of_copy h))
  next hz =>
    rw [Prog.run_pure, Prod.mk.injEq] at h
    rw [← h.2]
    refine (Filled.log w _).trans (Filled.of_empty _ ?_)
    exact congrArg UInt32.toNat (eq_zero_of_not_pos hz)

theorem copyMainSections_ok (hcode : exactCodeOffset (decodeHeader m0 image.pHeader) < 2 ^ 32)
    (hclear : ∀ b ∈ mainBlits image (decodeHeader m0 image.pHeader) tab.num
      (entriesAt m0 tab.pEntries) mode w.handle.pRam, ∀ a, P a → a ∉ b.span)
    (h : (copyMainSections image tab mode
      (metadataAddr (decodeHeader m0 image.pHeader) tab.num w.handle.pRam)).run w = (.ok (), w')) :
    w'.handle = placedHandle mode
        (metadataAddr (decodeHeader m0 image.pHeader) tab.num w.handle.pRam) w.handle ∧
      Did w w' (Blit.applyAll (mainBlits image (decodeHeader m0 image.pHeader) tab.num
          (entriesAt m0 tab.pEntries) mode w.handle.pRam))
        ((mainBlits image (decodeHeader m0 image.pHeader) tab.num
          (entriesAt m0 tab.pEntries) mode w.handle.pRam).map Blit.span) [] := by
  rw [copyMainSections, Prog.run_lift_bind, readHeader_run, hP.header_run hag] at h
  cases mode with
  | xip =>
    have hf := Filled.of_log (hP.copyMainData_ok hag h)
    exact ⟨hf.handle, hf.did⟩
  | copyTextData =>
    dsimp only at h
    rw [Prog.run_bind_ok] at h
    obtain ⟨⟨⟩, w1, h1, h2⟩ := h
    have ht := Filled.of_log (hP.copyMainText_ok hag (by decide) h1)
    have hag1 := did_agree ht.did (fun b hb => hclear b (by
      rw [List.mem_singleton.mp hb]
      exact List.mem_cons_self)) hag
    have hd := hP.copyMainData_ok hag1 h2
    rw [ht.handle] at hd
    have hf := ht.trans hd
    exact ⟨hf.handle, hf.did⟩
  | copyAll =>
    dsimp only at h
    rw [Prog.run_bind_ok] at h
    obtain ⟨⟨⟩, w1, h1, h⟩ := h
    have hmeta := Filled.of_log (Filled.of_copy h1)
    rw [getCodeOffsetFromHeader_eq, toNat_ofNat_of_lt hcode] at hmeta
    have hag1 := did_agree hmeta.did (fun b hb => hclear b (by
      rw [List.mem_singleton.mp hb]
      exact List.mem_cons_self)) hag
    have hh1 : w1.handle = w.handle := hmeta.handle
    rw [Prog.run_modifyHandle_bind, hh1] at h
    obtain ⟨as, hdst⟩ := hP.mainSectionDest_run (w := { w1 with handle := { w.handle with
        pHeader := metadataAddr (decodeHeader m0 image.pHeader) tab.num w.handle.pRam } })
      hag1 0 .copyAll (by decide) (by decide)
    rw [Prog.run_bind_of_ok hdst, Prog.run_lift_bind, World.log_mem, hP.payload_run hag1,
      World.log_log, ← readEvents_append, Prog.run_bind_ok] at h
    obtain ⟨⟨⟩, w2, h2, h3⟩ := h
    have ht := Filled.of_log (Filled.of_copy h2)
    have hag2 := did_agree ht.did (fun b hb => hclear b (by
      rw [List.mem_singleton.mp hb]
      exact List.mem_cons_of_mem _ List.mem_cons_self)) hag1
    have hd := hP.copyMainData_ok hag2 h3
    rw [ht.handle] at hd
    have hf := ht.trans hd
    exact ⟨hf.handle, hmeta.did.transfers_append (Did.of_handle hf.did)⟩

end PlaceIn

/-! ## Tagged sections -/

section

variable {es : Nat → SectEntry} {secs secs' : Nat → Addr} {names names' : Nat → Option (List UInt8)}
  {h : Header} {p : Addr}

theorem taggedBlits_congr {n k : Nat} {off : UInt32}
    (hs : ∀ j, k ≤ j → j < k + n → secs j = secs' j) :
    taggedBlits image h es p secs n k off = taggedBlits image h es p secs' n k off := by
  induction n generalizing k off with
  | zero => rfl
  | succ n ih =>
    have hrest := fun off => @ih (k + 1) off fun j hj hj' => hs j (by omega) (by omega)
    rw [taggedBlits, taggedBlits, hrest, hrest, hs k (Nat.le_refl k) (by omega)]

theorem taggedHost_congr {n k : Nat} (hs : ∀ j, k ≤ j → j < k + n → secs j = secs' j)
    (hn : ∀ j, k ≤ j → j < k + n → names j = names' j) :
    taggedHost es secs names n k = taggedHost es secs' names' n k := by
  induction n generalizing k with
  | zero => rfl
  | succ n ih =>
    rw [taggedHost, taggedHost, ih (fun j hj hj' => hs j (by omega) (by omega))
      (fun j hj hj' => hn j (by omega) (by omega)), hs k (Nat.le_refl k) (by omega),
      hn k (Nat.le_refl k) (by omega)]

theorem SecsOk.skip {n k : Nat} (hsz : (es k).size = 0) (hok : SecsOk es secs n (k + 1)) :
    SecsOk es secs (n + 1) k := by
  intro j hj hj' hne
  cases Nat.eq_or_lt_of_le hj with
  | inl he => exact absurd (he ▸ hsz) hne
  | inr hlt => exact hok j hlt (by omega) hne

theorem SecsOk.update {n k : Nat} {sec : Addr} (hne : sec ≠ 0)
    (hal : sec &&& ((es k).align - 1) = 0) (hok : SecsOk es secs n (k + 1)) :
    SecsOk es (Function.update secs k sec) (n + 1) k := by
  intro j hj hj' hnz
  cases Nat.eq_or_lt_of_le hj with
  | inl he =>
    rw [← he, Function.update_self]
    exact ⟨hne, hal⟩
  | inr hlt =>
    rw [Function.update_of_ne (by omega)]
    exact hok j hlt (by omega) hnz

theorem taggedBlits_update {n k : Nat} {off : UInt32} {sec : Addr} (hsz : ¬ (es k).size = 0) :
    taggedBlits image h es p (Function.update secs k sec) (n + 1) k off =
      .word (baseWord h p k) sec :: taggedBlit (es k) sec (image.pCode + off) ::
        taggedBlits image h es p secs n (k + 1) (nextPayload (es k) off) := by
  have hs : ∀ j, k + 1 ≤ j → j < k + 1 + n → Function.update secs k sec j = secs j :=
    fun j hj _ => by rw [Function.update_of_ne (by omega)]
  rw [taggedBlits, if_neg hsz, Function.update_self, taggedBlits_congr hs]

theorem taggedHost_update {n k : Nat} {sec : Addr} {name : Option (List UInt8)}
    (hsz : ¬ (es k).size = 0) :
    taggedHost es (Function.update secs k sec) (Function.update names k name) (n + 1) k =
      .malloc (es k).size ⟨name, (es k).align, sectHostFlags (es k)⟩ sec ::
        taggedHost es secs names n (k + 1) := by
  have hs : ∀ j, k + 1 ≤ j → j < k + 1 + n → Function.update secs k sec j = secs j :=
    fun j hj _ => by rw [Function.update_of_ne (by omega)]
  have hn : ∀ j, k + 1 ≤ j → j < k + 1 + n → Function.update names k name j = names j :=
    fun j hj _ => by rw [Function.update_of_ne (by omega)]
  rw [taggedHost, if_neg hsz, Function.update_self, Function.update_self, taggedHost_congr hs hn]

theorem taggedHost_granted {n k : Nat} (hok : SecsOk es secs n k) :
    (taggedHost es secs names n k).filterMap grantedSpan = taggedSpans es secs n k := by
  induction n generalizing k with
  | zero => rfl
  | succ n ih =>
    have hrest := ih (k := k + 1) fun j hj hj' => hok j (by omega) (by omega)
    rw [taggedHost, taggedSpans]
    split
    next => exact hrest
    next hsz =>
      have hne := (hok k (Nat.le_refl k) (by omega) hsz).1
      rw [List.filterMap_cons_some (b := ⟨secs k, (es k).size.toNat⟩)
        (by rw [grantedSpan, if_neg hne]), hrest]

end

theorem externalMalloc_filled {host : Host} {size : UInt32} {sect : Option Addr}
    {align flags : UInt32} {p : Addr}
    (h : (externalMalloc host size sect align flags).run w = (.ok p, w')) :
    Filled w w' [] [.malloc size ⟨(readSectName sect).run w.mem, align, flags⟩ p] := by
  rw [externalMalloc_run h]
  refine ⟨rfl, rfl, _, World.extends_log _ _, ?_, fun s hs => ?_⟩
  · rw [hostEvents_append, hostEvents_readEvents]
    rfl
  · cases List.mem_append.mp hs with
    | inl hr => exact absurd hr Did.readEvent_not_write
    | inr hm => exact absurd (List.mem_singleton.mp hm) (by simp)

theorem setSectionBaseIdx_ok {h : Header} {ordinal : Nat} {base : Addr}
    (hh : decodeHeader w.mem w.handle.pHeader = h)
    (hr : (setSectionBaseIdx ordinal base).run w = (.ok (), w')) :
    Filled w w' [.word (baseWord h w.handle.pRam (ordinal + 3)) base] [] := by
  rw [setSectionBaseIdx, Prog.run_getHandle_bind, Prog.run_lift_bind, readHeader_run, hh,
    baseSlot_eq] at hr
  exact Filled.of_log (Filled.of_set32 hr)

/-- A section is zeroed or copied, and the loop goes on behind its payload. -/
theorem fillTagged_ok {host : Host} {n k : Nat} {off : UInt32} {e : SectEntry} {sec : Addr}
    (h : (if e.cls = secClassBss then do
        Prog.zero sec e.size.toNat
        loadTaggedLoop host image tab n (k + 1) off
      else do
        Prog.copy sec (image.pCode + off) e.size.toNat
        loadTaggedLoop host image tab n (k + 1) (off + e.size) : Loader Unit).run w =
          (.ok (), w')) :
    ∃ w1, Filled w w1 [taggedBlit e sec (image.pCode + off)] [] ∧
      (loadTaggedLoop host image tab n (k + 1) (nextPayload e off)).run w1 = (.ok (), w') := by
  rw [taggedBlit, nextPayload]
  split at h
  next hb =>
    rw [Prog.run_bind_ok] at h
    obtain ⟨⟨⟩, w1, hz, h⟩ := h
    rw [if_pos hb, if_pos hb]
    exact ⟨w1, Filled.of_zero hz, h⟩
  next hb =>
    rw [Prog.run_bind_ok] at h
    obtain ⟨⟨⟩, w1, hc, h⟩ := h
    rw [if_neg hb, if_neg hb]
    exact ⟨w1, Filled.of_copy hc, h⟩

theorem loadTaggedLoop_ok {host : Host} {mod : Module} {h0 : Header} {n k : Nat} {off : UInt32}
    (h : (loadTaggedLoop host image tab n k off).run w = (.ok (), w'))
    (hag : ∀ a, P a → m0 a = w.mem a) (hmod : w.handle = mod) (hP : PlaceIn P image tab)
    (hown : Covers P ⟨mod.pHeader, 32⟩) (hh : decodeHeader m0 mod.pHeader = h0)
    {es : Nat → SectEntry} (hes : ∀ i, i < tab.num → entriesAt m0 tab.pEntries i = es i)
    (hslots : ∀ j, 3 ≤ j → j < tab.num → ∀ a, P a → a ∉ (⟨baseWord h0 mod.pRam j, 4⟩ : Span))
    (hk : 3 ≤ k) (hn : k + n ≤ tab.num)
    (hgrant : ∀ evs, w.Extends w' evs → ∀ s ∈ (hostEvents evs).filterMap grantedSpan,
      ∀ a, P a → a ∉ s) :
    ∃ secs names, SecsOk es secs n k ∧
      Filled w w' (taggedBlits image h0 es mod.pRam secs n k off)
        (taggedHost es secs names n k) := by
  induction n generalizing k off w with
  | zero =>
    rw [loadTaggedLoop, Prog.run_pure, Prod.mk.injEq] at h
    rw [← h.2]
    exact ⟨fun _ => 0, fun _ => none, fun j hj hj' => absurd hj' (by omega), Filled.refl w⟩
  | succ n ih =>
    rw [loadTaggedLoop, Prog.run_lift_bind, sectEntryAt_run, hP.entry_run hag (by omega),
      hes k (by omega)] at h
    split at h
    next hsz =>
      obtain ⟨secs, names, hok, hf⟩ := ih h hag hmod (by omega) (by omega) fun evs he => by
        have hall := hgrant _ ((World.extends_log _ _).trans he)
        rw [hostEvents_append, hostEvents_readEvents, List.nil_append] at hall
        exact hall
      refine ⟨secs, names, hok.skip hsz, ?_⟩
      rw [taggedBlits, taggedHost, if_pos hsz, if_pos hsz]
      exact Filled.of_log hf
    next hsz =>
      rw [Prog.run_bind_ok] at h
      obtain ⟨sec, w1, hm, h⟩ := h
      have hf1 := Filled.of_log (externalMalloc_filled hm)
      generalize (readSectName _).run _ = name at hf1
      split at h
      next => simp at h
      next hne =>
        rw [Prog.run_bind_ok] at h
        obtain ⟨⟨⟩, w2, hset, h⟩ := h
        have hag1 := did_agree hf1.did (fun b hb => absurd hb List.not_mem_nil) hag
        have hh1 : w1.handle = mod := hf1.handle.trans hmod
        have hf2 := setSectionBaseIdx_ok (h := h0)
          ((congrArg (decodeHeader w1.mem) (congrArg Module.pHeader hh1)).trans
            (((within_readHeader hown m0).congr hag1).trans hh)) hset
        rw [hh1, Nat.sub_add_cancel hk] at hf2
        have hag2 := did_agree hf2.did (fun b hb => by
          rw [List.mem_singleton.mp hb]
          exact hslots k hk (by omega)) hag1
        split at h
        next => simp at h
        next hal =>
          obtain ⟨w3, hf3, hrest⟩ := fillTagged_ok h
          have hf := hf1.trans (hf2.trans hf3)
          obtain ⟨e1, he1, hev1, -⟩ := hf.did.events
          rw [List.append_nil, List.append_nil] at hev1
          have hall : ∀ evs, w3.Extends w' evs → ∀ s ∈
              ⟨sec, (es k).size.toNat⟩ ::
                (hostEvents evs).filterMap grantedSpan, ∀ a, P a → a ∉ s := by
            intro evs he
            have hg := hgrant _ (he1.trans he)
            rw [hostEvents_append, hev1, List.cons_append, List.nil_append,
              List.filterMap_cons_some (b := ⟨sec, (es k).size.toNat⟩)
                (by rw [grantedSpan, if_neg hne])] at hg
            exact hg
          obtain ⟨e2, he2⟩ := Prog.extends_of_run hrest
          have hag3 := did_agree hf3.did (fun b hb => by
            rw [List.mem_singleton.mp hb, taggedBlit_span]
            exact hall e2 he2 _ List.mem_cons_self) hag2
          obtain ⟨secs, names, hok, hfr⟩ := ih hrest hag3 (hf.handle.trans hmod) (by omega)
            (by omega) fun evs he s hs => hall evs he s (List.mem_cons_of_mem _ hs)
          refine ⟨Function.update secs k sec, Function.update names k name,
            hok.update hne (not_not.mp hal), ?_⟩
          rw [taggedBlits_update hsz, taggedHost_update hsz]
          exact hf.trans hfr

end Udynlink
