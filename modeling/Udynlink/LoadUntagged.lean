import Udynlink.Untagged

/-!
# Placing an untagged image

The copies of the three modes as transfers laid out in the block, and the
memory they leave: every part of the image at its offset, zeros behind the
data, the LOT as it was.
-/

namespace Udynlink

open Machine

/-! ## The transfers -/

def padBlits (h : Header) (pEnd : Addr) : List Blit :=
  let pad := getCodeOffsetFromHeader h -
    (getHeaderSize h + h.numRels.toUInt32 * 2 * 4 + h.symtSize)
  if pad > 0 ∧ pad < 4 then [.zero pEnd pad.toNat] else []

def metadataBlits (image : Image) (h : Header) (pTemp8 : Addr) : List Blit :=
  let hs := getHeaderSize h
  let rels := h.numRels.toUInt32 * 2 * 4
  [.copy pTemp8 image.pHeader hs.toNat, .copy (pTemp8 + hs) image.pRelocations rels.toNat,
    .copy (pTemp8 + hs + rels) image.pSymtab h.symtSize.toNat] ++
    padBlits h (pTemp8 + hs + rels + h.symtSize)

def copyUntaggedBlits (image : Image) (h : Header) (mode : LoadMode) (pTemp8 : Addr) :
    List Blit :=
  match mode with
  | .copyAll => metadataBlits image h pTemp8 ++
      [.copy (pTemp8 + getCodeOffsetFromHeader h) image.pCode h.codeSize.toNat,
        .copy (pTemp8 + getCodeOffsetFromHeader h + h.codeSize) image.pData h.dataSize.toNat]
  | .copyTextData => [.copy pTemp8 image.pCode (h.codeSize + h.dataSize).toNat]
  | .xip => [.copy pTemp8 image.pData h.dataSize.toNat]

def bssBlits (h : Header) (data : Addr) : List Blit :=
  [.zero (data + h.dataSize) h.bssSize.toNat]

variable {image : Image} {h : Header} {mode : LoadMode} {pTemp8 : Addr} {w w' : State}

theorem copyNonempty_ok {dst src : Addr} {size : UInt32}
    (hr : (copyNonempty dst src size).run w = (.ok (), w')) :
    Filled w w' [Blit.copy dst src size.toNat] [] := by
  rw [copyNonempty] at hr
  split at hr
  next => exact Filled.of_copy hr
  next hz =>
    rw [Prog.run_pure, Prod.mk.injEq] at hr
    rw [← hr.2]
    refine Filled.of_empty w ?_
    have h0 : size = 0 := by
      by_contra hne
      exact hz (UInt32.pos_iff_ne_zero.mpr hne)
    rw [h0]
    rfl

theorem zeroMetadataPad_ok {pEnd : Addr} (hr : (zeroMetadataPad h pEnd).run w = (.ok (), w')) :
    Filled w w' (padBlits h pEnd) [] := by
  rw [zeroMetadataPad] at hr
  rw [padBlits]
  split at hr
  next hp =>
    rw [if_pos hp]
    exact Filled.of_zero hr
  next hp =>
    rw [Prog.run_pure, Prod.mk.injEq] at hr
    rw [if_neg hp, ← hr.2]
    exact Filled.refl w

/-- Of the copies only COPY_ALL touches the handle. -/
def placedHandle (mode : LoadMode) (pTemp8 : Addr) (mod : Module) : Module :=
  if mode = .copyAll then { mod with pHeader := pTemp8 } else mod

@[simp] theorem placedHandle_pRam (mode : LoadMode) (pTemp8 : Addr) (mod : Module) :
    (placedHandle mode pTemp8 mod).pRam = mod.pRam := by
  rw [placedHandle]
  split <;> rfl

@[simp] theorem placedHandle_mode (mode : LoadMode) (pTemp8 : Addr) (mod : Module) :
    (placedHandle mode pTemp8 mod).mode = mod.mode := by
  rw [placedHandle]
  split <;> rfl

theorem headerInBlock_placed {mod : Module} (hmode : mod.mode = mode) :
    HeaderInBlock (placedHandle mode (mod.pRam + UInt32.ofNat (4 * h.numLot.toNat)) mod) h := by
  intro hm
  rw [placedHandle_mode, hmode] at hm
  rw [placedHandle_pRam, placedHandle, if_pos hm]

theorem copyWholeImage_ok (hr : (copyWholeImage image h pTemp8).run w = (.ok (), w')) :
    w'.handle = { w.handle with pHeader := pTemp8 } ∧
      Did w w' (Blit.applyAll (copyUntaggedBlits image h .copyAll pTemp8))
        ((copyUntaggedBlits image h .copyAll pTemp8).map Blit.span) [] := by
  rw [copyWholeImage] at hr
  simp only [Prog.run_bind_ok] at hr
  obtain ⟨⟨⟩, w1, h1, ⟨⟩, w2, h2, ⟨⟩, w3, h3, ⟨⟩, w4, h4, ⟨⟩, w5, h5, ⟨⟩, w6, h6, h7⟩ := hr
  have hmeta := (((Filled.of_copy h1).trans (Filled.of_copy h2)).trans (Filled.of_copy h3)).trans
    (zeroMetadataPad_ok h4)
  have hall := hmeta.trans ((Filled.of_copy h5).trans (Filled.of_copy h6))
  rw [Prog.run_modifyHandle, Prod.mk.injEq] at h7
  obtain ⟨-, rfl⟩ := h7
  exact ⟨congrArg (fun mod : Module => { mod with pHeader := pTemp8 }) hall.handle,
    hall.did.mem, hall.did.events⟩

theorem copyUntagged_ok (hr : (copyUntagged image mode pTemp8).run w = (.ok (), w')) :
    w'.handle = placedHandle mode pTemp8 w.handle ∧
      Did w w'
        (Blit.applyAll (copyUntaggedBlits image (decodeHeader w.mem image.pHeader) mode pTemp8))
        ((copyUntaggedBlits image (decodeHeader w.mem image.pHeader) mode pTemp8).map Blit.span)
        [] := by
  rw [copyUntagged, Prog.run_lift_bind, readHeader_run] at hr
  cases mode with
  | copyAll =>
    obtain ⟨hh, hd⟩ := copyWholeImage_ok hr
    exact ⟨hh, Did.of_log hd⟩
  | copyTextData =>
    have hf := Filled.of_log (copyNonempty_ok hr)
    exact ⟨hf.handle, hf.did⟩
  | xip =>
    have hf := Filled.of_log (copyNonempty_ok hr)
    exact ⟨hf.handle, hf.did⟩

/-- The zeroed data is found through the handle, after the copies. -/
theorem zeroBss_ok (hr : (zeroBss image).run w = (.ok (), w')) :
    Filled w w' (bssBlits (decodeHeader w.mem image.pHeader) ((getDataPointer w.handle).run w.mem))
      [] := by
  rw [zeroBss, Prog.run_lift_bind, readHeader_run] at hr
  split at hr
  next =>
    rw [Prog.run_getHandle_bind, Prog.run_lift_bind] at hr
    exact Filled.of_log (Filled.of_log (Filled.of_zero hr))
  next hz =>
    rw [Prog.run_pure, Prod.mk.injEq] at hr
    rw [← hr.2]
    refine (Filled.log w _).trans (Filled.of_empty _ ?_)
    have h0 : (decodeHeader w.mem image.pHeader).bssSize = 0 := by
      by_contra hne
      exact hz (UInt32.pos_iff_ne_zero.mpr hne)
    rw [h0]
    rfl

/-! ## Where they go -/

/-- Sizes that have not wrapped: the caps bound the image, and the requirement of
the block is below the word. -/
structure UntaggedFits (h : Header) (mode : LoadMode) : Prop where
  untagged : isSectioned h = false
  payload : h.codeSize.toNat + h.dataSize.toNat < 2 ^ 32
  ram : exactRamUntagged h mode < 2 ^ 32

/-- End of the symbol table behind the header. -/
def symtabEnd (h : Header) : Nat :=
  (getHeaderSize h).toNat + 8 * h.numRels.toNat + h.symtSize.toNat

/-- The pad is at most three bytes, so it is zeroed whenever there is one. -/
theorem padBlits_eq (hu : isSectioned h = false) (pEnd : Addr) :
    symtabEnd h ≤ exactCodeOffset h ∧
      (exactCodeOffset h = symtabEnd h ∧ padBlits h pEnd = [] ∨
        padBlits h pEnd = [.zero pEnd (exactCodeOffset h - symtabEnd h)]) := by
  have h4 : (4 : Nat).isPowerOfTwo := ⟨2, rfl⟩
  have hle := le_exactAlignUp (x := symtabEnd h) h4
  have hlt := exactAlignUp_lt (x := symtabEnd h) h4
  have hcode : exactCodeOffset h = exactAlignUp (symtabEnd h) 4 := exactCodeOffset_untagged hu
  rw [← hcode] at hle hlt
  have hpad : getCodeOffsetFromHeader h -
      (getHeaderSize h + h.numRels.toUInt32 * 2 * 4 + h.symtSize) =
        UInt32.ofNat (exactCodeOffset h - symtabEnd h) := by
    have hend : getHeaderSize h + h.numRels.toUInt32 * 2 * 4 + h.symtSize =
        UInt32.ofNat (symtabEnd h) := by
      rw [symtabEnd, UInt32.ofNat_add, UInt32.ofNat_add, UInt32.ofNat_toNat, UInt32.ofNat_toNat,
        relBytes]
    rw [hend, getCodeOffsetFromHeader_eq,
      show exactCodeOffset h = exactCodeOffset h - symtabEnd h + symtabEnd h by omega,
      UInt32.ofNat_add, UInt32.add_sub_cancel, Nat.add_sub_cancel]
  have hval : (UInt32.ofNat (exactCodeOffset h - symtabEnd h)).toNat =
      exactCodeOffset h - symtabEnd h := toNat_ofNat_of_lt (by omega)
  refine ⟨hle, ?_⟩
  rw [padBlits, hpad]
  by_cases hz : exactCodeOffset h = symtabEnd h
  · refine Or.inl ⟨hz, if_neg ?_⟩
    rw [hz, Nat.sub_self]
    decide
  · refine Or.inr ?_
    rw [if_pos, hval]
    constructor
    · rw [gt_iff_lt, UInt32.lt_iff_toNat_lt, hval]
      change 0 < _
      omega
    · rw [UInt32.lt_iff_toNat_lt, hval]
      change _ < 4
      omega

theorem padBlits_laid {p : Addr} (hu : isSectioned h = false) {k : Nat} :
    Blit.Laid p (k + symtabEnd h) (k + exactCodeOffset h)
      (padBlits h (p + UInt32.ofNat (k + symtabEnd h))) := by
  obtain ⟨hle, ⟨-, hp⟩ | hp⟩ := padBlits_eq hu (p + UInt32.ofNat (k + symtabEnd h))
  · rw [hp]
    exact Nat.add_le_add_left hle k
  · rw [hp]
    refine ⟨_, rfl, Nat.le_refl _, ?_⟩
    change k + symtabEnd h + (exactCodeOffset h - symtabEnd h) ≤ _
    omega

theorem metadataBlits_laid {p : Addr} (hu : isSectioned h = false) {k : Nat} :
    Blit.Laid p k (k + exactCodeOffset h) (metadataBlits image h (p + UInt32.ofNat k)) := by
  have hcopies : Blit.Laid p k (k + symtabEnd h)
      [.copy (p + UInt32.ofNat k) image.pHeader (getHeaderSize h).toNat,
        .copy (p + UInt32.ofNat k + getHeaderSize h) image.pRelocations
          (h.numRels.toUInt32 * 2 * 4).toNat,
        .copy (p + UInt32.ofNat k + getHeaderSize h + h.numRels.toUInt32 * 2 * 4) image.pSymtab
          h.symtSize.toNat] := by
    refine ⟨_, rfl, Nat.le_refl _, _, off_word _ _ _, Nat.le_refl _,
      k + (getHeaderSize h).toNat + (h.numRels.toUInt32 * 2 * 4).toNat, ?_, Nat.le_refl _, ?_⟩
    · rw [Blit.copy, off_word, off_word]
    · change k + (getHeaderSize h).toNat + (h.numRels.toUInt32 * 2 * 4).toNat + h.symtSize.toNat ≤ _
      rw [relBytes_toNat, symtabEnd]
      omega
  have hpad := padBlits_laid (p := p) (k := k) hu
  rw [metadataBlits]
  refine Blit.Laid.append hcopies ?_
  have hend : k + (getHeaderSize h).toNat + 8 * h.numRels.toNat + h.symtSize.toNat =
      k + symtabEnd h := by
    rw [symtabEnd]
    omega
  rw [off_word, off_word, off_word, relBytes_toNat, hend]
  exact hpad

/-- The parts of the image, from the LOT to the end of the data. -/
theorem copyUntaggedBlits_laid (image : Image) (p : Addr) (hf : UntaggedFits h mode) :
    Blit.Laid p (4 * h.numLot.toNat) (untaggedDataOff h mode + h.dataSize.toNat)
      (copyUntaggedBlits image h mode (p + UInt32.ofNat (4 * h.numLot.toNat))) := by
  have hram := hf.ram
  have hpay := hf.payload
  rw [exactRamUntagged_eq] at hram
  cases mode with
  | copyAll =>
    have hdata : untaggedDataOff h .copyAll =
        4 * h.numLot.toNat + exactCodeOffset h + h.codeSize.toNat := rfl
    rw [hdata] at hram ⊢
    rw [copyUntaggedBlits]
    refine Blit.Laid.append (metadataBlits_laid hf.untagged) ?_
    refine ⟨4 * h.numLot.toNat + exactCodeOffset h, ?_, Nat.le_refl _,
      4 * h.numLot.toNat + exactCodeOffset h + h.codeSize.toNat, ?_, Nat.le_refl _, ?_⟩
    · rw [Blit.copy, getCodeOffsetFromHeader_eq, off_off]
    · rw [Blit.copy, getCodeOffsetFromHeader_eq, off_off, off_word]
    · change _ ≤ _
      exact Nat.le_refl _
  | copyTextData =>
    refine ⟨_, rfl, Nat.le_refl _, ?_⟩
    change 4 * h.numLot.toNat + (h.codeSize + h.dataSize).toNat ≤
      4 * h.numLot.toNat + 0 + h.codeSize.toNat + h.dataSize.toNat
    rw [UInt32.toNat_add, Nat.mod_eq_of_lt hpay]
    omega
  | xip =>
    refine ⟨_, rfl, Nat.le_refl _, ?_⟩
    change _ ≤ _
    exact Nat.le_refl _

theorem bssBlits_laid {p : Addr} :
    Blit.Laid p (untaggedDataOff h mode + h.dataSize.toNat) (exactRamUntagged h mode)
      (bssBlits h (p + UInt32.ofNat (untaggedDataOff h mode))) := by
  refine ⟨_, off_word _ _ _, Nat.le_refl _, ?_⟩
  rw [exactRamUntagged_eq]
  change _ ≤ _
  exact Nat.le_refl _

/-! ## What they leave -/

/-- Every byte of the image a load reads. -/
def untaggedSource (image : Image) (h : Header) : List Span :=
  [⟨image.pHeader, (getHeaderSize h).toNat⟩, ⟨image.pRelocations, 8 * h.numRels.toNat⟩,
    ⟨image.pSymtab, h.symtSize.toNat⟩, ⟨image.pCode, h.codeSize.toNat⟩,
    ⟨image.pData, h.dataSize.toNat⟩]

/-- The image lies outside the block. -/
def SourceClear (image : Image) (h : Header) (mode : LoadMode) (p : Addr) : Prop :=
  ∀ s ∈ untaggedSource image h, s.Disjoint ⟨p, exactRamUntagged h mode⟩

section

variable {p : Addr} {m : Mem} {tail : List Blit}

theorem metadata_readsFrom (hc : SourceClear image h mode p) {b : Blit}
    (hb : b ∈ copyUntaggedBlits image h .copyAll pTemp8) :
    b.ReadsFrom fun a => a ∉ (⟨p, exactRamUntagged h mode⟩ : Span) := by
  have hcopy : ∀ (dst src : Addr) (n : Nat), (⟨src, n⟩ : Span) ∈ untaggedSource image h →
      n ≤ 2 ^ 32 → (Blit.copy dst src n).ReadsFrom
        fun a => a ∉ (⟨p, exactRamUntagged h mode⟩ : Span) :=
    fun dst src n hs hn => Blit.copy_readsFrom fun i hi => hc _ hs _ (off_mem hi hn)
  have hle : ∀ x : UInt32, x.toNat ≤ 2 ^ 32 := fun x => Nat.le_of_lt x.toNat_lt
  rw [copyUntaggedBlits, metadataBlits] at hb
  simp only [List.mem_append, List.mem_cons, List.not_mem_nil, or_false] at hb
  rcases hb with ((rfl | rfl | rfl) | hb) | rfl | rfl
  · exact hcopy _ _ _ (by simp [untaggedSource]) (hle _)
  · refine hcopy _ _ _ ?_ (hle _)
    rw [relBytes_toNat]
    simp [untaggedSource]
  · exact hcopy _ _ _ (by simp [untaggedSource]) (hle _)
  · rw [padBlits] at hb
    split at hb
    · rw [List.mem_singleton.mp hb]
      exact Blit.zero_readsFrom _ _ _
    · exact absurd hb List.not_mem_nil
  · exact hcopy _ _ _ (by simp [untaggedSource]) (hle _)
  · exact hcopy _ _ _ (by simp [untaggedSource]) (hle _)

/-- A byte of a copied part is the byte of the image, whatever is zeroed behind. -/
theorem placed_byte (hf : UntaggedFits h mode) (hc : SourceClear image h mode p)
    (ht : Blit.Laid p (untaggedDataOff h mode + h.dataSize.toNat) (exactRamUntagged h mode) tail)
    (hz : ∀ b ∈ tail, b.ReadsFrom fun a => a ∉ (⟨p, exactRamUntagged h mode⟩ : Span)) {b : Blit}
    (hb : b ∈ copyUntaggedBlits image h mode (p + UInt32.ofNat (4 * h.numLot.toNat))) {i : Nat}
    (hi : i < b.len) :
    Blit.applyAll (copyUntaggedBlits image h mode (p + UInt32.ofNat (4 * h.numLot.toNat)) ++ tail)
      m (b.dst + UInt32.ofNat i) = b.bytes m i := by
  have hram := hf.ram
  have hlaid := (copyUntaggedBlits_laid image p hf).append ht
  have hpair := hlaid.pairwise (by omega)
  have hlen : b.len ≤ 2 ^ 32 := by
    obtain ⟨k, -, -, hle⟩ := hlaid.mem (List.mem_append_left tail hb)
    omega
  cases mode with
  | copyAll =>
    have hreads : ∀ c ∈ copyUntaggedBlits image h .copyAll
        (p + UInt32.ofNat (4 * h.numLot.toNat)) ++ tail,
        c.ReadsFrom fun a => a ∉ (⟨p, exactRamUntagged h .copyAll⟩ : Span) := by
      intro c hc'
      rcases List.mem_append.mp hc' with hc' | hc'
      · exact metadata_readsFrom hc hc'
      · exact hz c hc'
    exact Blit.applyAll_byte hpair hreads
      (fun c hc' a ha hmem => ha (hlaid.subset (by omega) hc' a hmem))
      (List.mem_append_left tail hb) hi hlen m
  | copyTextData =>
    rw [List.mem_singleton.mp hb] at hi hlen ⊢
    exact Blit.applyAll_head_byte (List.pairwise_cons.mp hpair).1 hi hlen m
  | xip =>
    rw [List.mem_singleton.mp hb] at hi hlen ⊢
    exact Blit.applyAll_head_byte (List.pairwise_cons.mp hpair).1 hi hlen m

/-- Outside the block nothing has changed. -/
theorem placed_outside (hf : UntaggedFits h mode)
    (ht : Blit.Laid p (untaggedDataOff h mode + h.dataSize.toNat) (exactRamUntagged h mode) tail)
    {a : Addr} (ha : a ∉ (⟨p, exactRamUntagged h mode⟩ : Span)) :
    Blit.applyAll (copyUntaggedBlits image h mode (p + UInt32.ofNat (4 * h.numLot.toNat)) ++ tail)
      m a = m a := by
  have hram := hf.ram
  have hlaid := (copyUntaggedBlits_laid image p hf).append ht
  exact Blit.applyAll_notMem (fun b hb hmem => ha (hlaid.subset (by omega) hb a hmem)) m

/-- The header behind the handle is the header of the image. -/
theorem placed_header (hf : UntaggedFits h mode) (hc : SourceClear image h mode p)
    (ht : Blit.Laid p (untaggedDataOff h mode + h.dataSize.toNat) (exactRamUntagged h mode) tail)
    (hz : ∀ b ∈ tail, b.ReadsFrom fun a => a ∉ (⟨p, exactRamUntagged h mode⟩ : Span))
    (hh : decodeHeader m image.pHeader = h) {mod : Module} (hmod : mod.pHeader = image.pHeader) :
    decodeHeader (Blit.applyAll
        (copyUntaggedBlits image h mode (p + UInt32.ofNat (4 * h.numLot.toNat)) ++ tail) m)
      (placedHandle mode (p + UInt32.ofNat (4 * h.numLot.toNat)) mod).pHeader = h := by
  have hge := getHeaderSize_ge h
  have hlt := (getHeaderSize h).toNat_lt
  rw [placedHandle]
  by_cases hm : mode = .copyAll
  · subst hm
    rw [if_pos rfl]
    refine Eq.trans (decodeHeader_eq_of_bytes fun i hi => ?_) hh
    have hb : Blit.copy (p + UInt32.ofNat (4 * h.numLot.toNat)) image.pHeader
        (getHeaderSize h).toNat ∈ copyUntaggedBlits image h .copyAll
          (p + UInt32.ofNat (4 * h.numLot.toNat)) := List.mem_cons_self
    exact placed_byte hf hc ht hz hb (i := i) (Nat.lt_of_lt_of_le hi hge)
  · rw [if_neg hm, hmod]
    refine Eq.trans (decodeHeader_congr fun a ha => ?_) hh
    have hsrc := hc ⟨image.pHeader, (getHeaderSize h).toNat⟩ (by simp [untaggedSource])
    exact (placed_outside hf ht (hsrc a (Nat.lt_of_lt_of_le ha hge))).symm

/-- The place stage of an untagged image. -/
theorem placeUntagged_ok (hh : decodeHeader w.mem image.pHeader = h) (hf : UntaggedFits h mode)
    (hc : SourceClear image h mode p) (hram : w.handle.pRam = p)
    (hheader : w.handle.pHeader = image.pHeader) (hmode : w.handle.mode = mode)
    (hr : (placeUntagged image mode (p + UInt32.ofNat (4 * h.numLot.toNat))).run w = (.ok (), w')) :
    w'.handle = placedHandle mode (p + UInt32.ofNat (4 * h.numLot.toNat)) w.handle ∧
      Did w w' (Blit.applyAll (copyUntaggedBlits image h mode (p + UInt32.ofNat (4 * h.numLot.toNat)) ++
          bssBlits h (p + UInt32.ofNat (untaggedDataOff h mode))))
        ((copyUntaggedBlits image h mode (p + UInt32.ofNat (4 * h.numLot.toNat)) ++
          bssBlits h (p + UInt32.ofNat (untaggedDataOff h mode))).map Blit.span) [] := by
  rw [placeUntagged, Prog.run_bind_ok] at hr
  obtain ⟨⟨⟩, w1, hcopy, hbss⟩ := hr
  obtain ⟨hh1, hd1⟩ := copyUntagged_ok hcopy
  rw [hh] at hd1
  have hmem := hd1.mem
  have ht : Blit.Laid p (untaggedDataOff h mode + h.dataSize.toNat) (exactRamUntagged h mode) [] := by
    rw [exactRamUntagged_eq]
    exact Nat.le_add_right _ _
  rw [← List.append_nil (copyUntaggedBlits _ _ _ _)] at hmem
  have hf2 := zeroBss_ok hbss
  have hsrc : decodeHeader w1.mem image.pHeader = h := by
    refine Eq.trans (decodeHeader_congr fun a ha => ?_) hh
    have hs := hc ⟨image.pHeader, (getHeaderSize h).toNat⟩ (by simp [untaggedSource])
    rw [hmem]
    exact (placed_outside hf ht (hs a (Nat.lt_of_lt_of_le ha (getHeaderSize_ge h)))).symm
  have hown : decodeHeader w1.mem w1.handle.pHeader = h := by
    rw [hh1, hmem]
    exact placed_header hf hc ht (fun b hb => absurd hb List.not_mem_nil) hh hheader
  have hdata : (getDataPointer w1.handle).run w1.mem =
      p + UInt32.ofNat (untaggedDataOff h mode) := by
    have hin : HeaderInBlock w1.handle h := by
      rw [hh1, ← hram]
      exact headerInBlock_placed hmode
    rw [getDataPointer_untagged hown hf.untagged hin, hh1, placedHandle_pRam, placedHandle_mode,
      hram, hmode]
  rw [hsrc, hdata] at hf2
  exact ⟨hf2.handle.trans hh1, hd1.transfers_append hf2.did⟩

end

end Udynlink
