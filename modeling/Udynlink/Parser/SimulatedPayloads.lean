import Udynlink.Parser.SimulatedRelocs

/-!
# The payloads of a simulated load

In front of the relocations the buffers have the payloads of the image in the places
where the loader copies them, and zeros for the sections without a payload.
-/

namespace Udynlink.Parser

open Machine

/-! ## What the parser keeps -/

section

variable {data : Bytes} {img : ModuleImage} {off : Nat}

theorem unpackU32_eq {v : Nat} (h : unpackU32 data off = .ok v) :
    off + 4 ≤ data.length ∧ v = word data off 4 := by
  rw [unpackU32] at h
  split at h
  next hle => exact ⟨hle, (Except.ok.inj h).symm⟩
  next => cases h

/-- What the parser keeps of the buffer. -/
structure Parsed (data : Bytes) (img : ModuleImage) : Prop where
  relocations : parseRelocations data img.header.relocsOffset img.header.numRels 0 =
    .ok img.relocations
  symtab : img.symtabBytes = slice data img.header.symtabOffset img.header.symtSize
  symbols : ∃ n, parseSymbols img.symtabBytes img.header.symtSize n 0 = .ok img.symbols
  payloads : img.payloads = parsePayloads data img.sections img.header.codeOffset
  codeOffset : img.codeOffset = img.header.codeOffset
  length : img.header.codeOffset + payloadSize img.sections ≤ data.length

theorem parsed_of_parse (h : parseModule data true = .ok img) : Parsed data img := by
  simp only [parseModule, except_bind_ok] at h
  obtain ⟨⟨⟩, -, header, -, ⟨⟩, -, ⟨⟩, -, rels, hrels, n, -, symbols, hsyms, sections, -, ⟨⟩, hpay,
    himg⟩ := h
  rw [Except.ok.injEq] at himg
  subst himg
  exact ⟨hrels, rfl, ⟨n, hsyms⟩, rfl, rfl, checkLength_ok hpay⟩

end

/-! ## The buffers at the start -/

section

variable {buf buf' buf'' data : Bytes} {i N : Nat} {img : ModuleImage} {lay : RuntimeLayout}

/-- The buffers differ in front of `N` only. -/
structure SameTail (N : Nat) (buf buf' : Bytes) : Prop where
  length : buf'.length = buf.length
  byte : ∀ b, N ≤ b → buf'[b]? = buf[b]?

namespace SameTail

theorem refl (N : Nat) (buf : Bytes) : SameTail N buf buf := ⟨rfl, fun _ _ => rfl⟩

theorem mono {M : Nat} (h : SameTail N buf buf') (hN : N ≤ M) : SameTail M buf buf' :=
  ⟨h.length, fun b hb => h.byte b (by omega)⟩

theorem trans (h : SameTail N buf buf') (h' : SameTail N buf' buf'') : SameTail N buf buf'' :=
  ⟨h'.length.trans h.length, fun b hb => (h'.byte b hb).trans (h.byte b hb)⟩

/-- An assignment in front of `N`. -/
theorem assign (h : SameTail N buf buf') (off : Nat) (bs : Bytes) (hs : off + bs.length ≤ N)
    (hN : N ≤ buf.length) : SameTail N buf (assignSlice buf' off (off + bs.length) bs) := by
  have hl := h.length
  refine ⟨(length_assignSlice (by omega)).trans hl, fun b hb => ?_⟩
  rw [assignSlice_out (by omega) (Or.inr (by omega)), h.byte b hb]

theorem pack (off v : Nat) (hs : off + 4 ≤ N) (hN : N ≤ buf.length) :
    SameTail N buf (packInto buf off v) :=
  ⟨length_packInto v (by omega), fun b hb => packInto_out v (by omega) (Or.inr (by omega))⟩

end SameTail

/-- The metadata has the sizes of the header. -/
structure MetadataFits (img : ModuleImage) : Prop where
  header : img.header.pack.length = img.header.headerSize
  relocs : (img.relocations.map Relocation.pack).flatten.length = img.header.relocsSize
  symtab : img.symtabBytes.length = img.header.symtSize
  symtabEnd : img.header.symtabOffset + img.header.symtSize ≤ img.codeOffset
  sectab : img.sectabOffset + img.sectabBytes.length ≤ img.codeOffset

theorem metadataFits_of_parse (hr : Readable data) (hp : parseModule data true = .ok img)
    (hsize : (ModuleHeader.ofBytes data).headerSize = headerSizeBytes) : MetadataFits img := by
  obtain ⟨rels, symbols, sectab, hparsed, hrels, hsectab⟩ := hr.parsed hsize
  rw [hp] at hparsed
  obtain ⟨-, -, himg⟩ := except_bind_ok.mp hparsed.symm
  rw [Except.ok.injEq] at himg
  obtain ⟨hle, hcode, hlen⟩ := hr.metadata
  have hoff : (ModuleHeader.ofBytes data).symtabOffset =
      headerSizeBytes + (ModuleHeader.ofBytes data).numRels * 2 * 4 := by
    rw [ModuleHeader.symtabOffset, ModuleHeader.relocsOffset, hsize]
    rfl
  have hrelOff : (ModuleHeader.ofBytes data).relocsOffset = headerSizeBytes := hsize
  subst himg
  refine ⟨?_, ?_, hr.symtab_length, ?_, ?_⟩
  · change (ModuleHeader.ofBytes data).pack.length = (ModuleHeader.ofBytes data).headerSize
    rw [ofBytes_pack hr.header, List.length_take, hsize, Nat.min_eq_left hr.header]
  · change (rels.map Relocation.pack).flatten.length = (ModuleHeader.ofBytes data).relocsSize
    rw [hrels, length_slice (by omega), ModuleHeader.relocsSize]
    omega
  · change _ ≤ (ModuleHeader.ofBytes data).codeOffset
    change (ModuleHeader.ofBytes data).symtabOffset + (ModuleHeader.ofBytes data).symtSize ≤ _
    omega
  · change (if (ModuleHeader.ofBytes data).hasSections = true then _ else 0) + sectab.length ≤
      (ModuleHeader.ofBytes data).codeOffset
    rw [hsectab, length_slice (by omega), hcode]
    split <;> omega

theorem copyMetadata_keeps (hm : MetadataFits lay.image)
    (h : lay.image.header.numLot * 4 + lay.nonmainBasesSize + lay.image.codeOffset ≤ buf.length) :
    SameTail (lay.image.header.numLot * 4 + lay.nonmainBasesSize + lay.image.codeOffset) buf
      (lay.copyMetadata buf) := by
  have hheader := hm.header
  have hrelocs := hm.relocs
  have hsymtab := hm.symtab
  have hend := hm.symtabEnd
  have hsect := hm.sectab
  have hsym : lay.image.header.symtabOffset =
      lay.image.header.headerSize + lay.image.header.relocsSize := rfl
  have hrel : lay.image.header.relocsOffset = lay.image.header.headerSize := rfl
  rw [RuntimeLayout.copyMetadata, ← hm.header, ← hm.relocs, ← hm.symtab]
  have h1 := (SameTail.refl _ buf).assign (lay.image.header.numLot * 4 + lay.nonmainBasesSize)
    lay.image.header.pack (by omega) h
  have h2 := h1.assign (lay.image.header.numLot * 4 + lay.nonmainBasesSize +
    lay.image.header.relocsOffset) (lay.image.relocations.map Relocation.pack).flatten (by omega) h
  have h3 := h2.assign (lay.image.header.numLot * 4 + lay.nonmainBasesSize +
    lay.image.header.symtabOffset) lay.image.symtabBytes (by omega) h
  split
  · exact h3
  · exact h3.assign (lay.image.header.numLot * 4 + lay.nonmainBasesSize + lay.image.sectabOffset)
      lay.image.sectabBytes (by omega) h

theorem packBases_keeps {arrOff : Nat} {l : List ImageSection}
    (h : arrOff + 4 * (i + l.length) ≤ buf.length) :
    SameTail (arrOff + 4 * (i + l.length)) buf (lay.packBases arrOff l i buf) := by
  induction l generalizing i buf with
  | nil => exact SameTail.refl _ _
  | cons sec rest ih =>
    rw [List.length_cons] at h ⊢
    have hskip := @ih buf (i + 1) (by omega)
    rw [show i + 1 + rest.length = i + (rest.length + 1) by omega] at hskip
    rw [RuntimeLayout.packBases]
    split
    next => exact hskip
    next base _ =>
      split
      next => exact hskip
      next =>
        have hput : SameTail (arrOff + 4 * (i + (rest.length + 1))) buf
          (packInto buf (arrOff + 4 * i) base) := SameTail.pack _ base (by omega) h
        have hrest := @ih (packInto buf (arrOff + 4 * i) base) (i + 1) (by
          rw [hput.length]
          omega)
        exact hput.trans (hrest.mono (by omega))

end

section

variable {buf : Bytes} {lay : RuntimeLayout} {h : Header} {num : Nat} {es : Nat → SectEntry}
  {mode : LoadMode} {l : List ImageSection} {i j k n : Nat} {e : ImageSection}

theorem EntryAt.isBss (he : EntryAt es e j) :
    e.isBss = true ↔ (es j).cls = Udynlink.secClassBss := by
  rw [ImageSection.isBss, decide_eq_true_iff, he.same.cls, ← UInt32.toNat_inj]
  rfl

/-- Main sections in RAM do not overlap. -/
theorem main_le_main (hf : SectionedFits h num es mode) (hi : firstPlaced mode ≤ i) (hij : i < j)
    (h3 : j < 3) : exactMainOffset h num es mode i + (es i).size.toNat ≤
      exactMainOffset h num es mode j := by
  have hnext := hf.main_le_succ hi (by omega)
  rcases Nat.eq_or_lt_of_le hij with rfl | hlt
  · exact hnext
  · have hlast := hf.main_le_succ (i := i + 1) (by omega) (by omega)
    rw [show j = i + 1 + 1 by omega]
    omega

/-- The payloads of the main sections fill the buffer. -/
structure MainPayloads (lay : RuntimeLayout) (h : Header) (num : Nat) (es : Nat → SectEntry)
    (mode : LoadMode) : Prop where
  fits : SectionedFits h num es mode
  base : ∀ j, firstPlaced mode ≤ j → j < 3 →
    lay.mainBases j = some (lay.ramBase + exactMainOffset h num es mode j)
  skipped : ∀ j, j < firstPlaced mode → lay.mainBases j = none
  payload : ∀ j, j < 3 → (es j).cls ≠ Udynlink.secClassBss →
    (lay.image.sectionPayload j).length = (es j).size.toNat

theorem copyMain_spec (hp : MainPayloads lay h num es mode)
    (hl : List.Forall₂ (EntryAt es) l (List.range' i n)) (hin : i + n = 3)
    (hlen : buf.length = exactRamSections h num es mode) :
    (lay.copyMain l buf).length = buf.length ∧
      (∀ b, (∀ j, i ≤ j → j < 3 → firstPlaced mode ≤ j → b < exactMainOffset h num es mode j) →
        (lay.copyMain l buf)[b]? = buf[b]?) ∧
      ∀ j, i ≤ j → j < 3 → firstPlaced mode ≤ j → ∀ k, k < (es j).size.toNat →
        (lay.copyMain l buf)[exactMainOffset h num es mode j + k]? =
          if (es j).cls = Udynlink.secClassBss then buf[exactMainOffset h num es mode j + k]?
          else (lay.image.sectionPayload j)[k]? := by
  induction n generalizing i l buf with
  | zero =>
    cases hl
    exact ⟨rfl, fun _ _ => rfl, fun j hj hj' => absurd hj' (by omega)⟩
  | succ n ih =>
    rw [List.range'_succ] at hl
    cases hl with
    | @cons sec _ rest _ he hrest =>
      have hskip := @ih buf rest (i + 1) hrest (by omega) hlen
      rw [RuntimeLayout.copyMain, he.index]
      by_cases hi : firstPlaced mode ≤ i
      · rw [hp.base i hi (by omega)]
        dsimp only
        by_cases hb : (es i).cls = Udynlink.secClassBss
        · rw [if_pos (he.isBss.mpr hb)]
          obtain ⟨hl, hkeep, hput⟩ := hskip
          refine ⟨hl, fun b hlt => hkeep b fun j hj => hlt j (by omega),
            fun j hj h3 hfirst k hk => ?_⟩
          rcases Nat.eq_or_lt_of_le hj with rfl | hlt
          · rw [if_pos hb]
            refine hkeep _ fun j hj h3 hfirst => ?_
            have := main_le_main hp.fits hi (show i < j by omega) h3
            omega
          · exact hput j hlt h3 hfirst k hk
        · rw [if_neg (mt he.isBss.mp hb), Nat.add_sub_cancel_left, he.same.size,
            ← hp.payload i (by omega) hb]
          have hpay := hp.payload i (by omega) hb
          have hroom := hp.fits.main_le_ram hi (show i < 3 by omega)
          have hput : (assignSlice buf (exactMainOffset h num es mode i)
              (exactMainOffset h num es mode i + (lay.image.sectionPayload i).length)
              (lay.image.sectionPayload i)).length = buf.length := length_assignSlice (by omega)
          obtain ⟨hl, hkeep, hfill⟩ := @ih _ rest (i + 1) hrest (by omega) (hput.trans hlen)
          refine ⟨hl.trans hput, fun b hlt => ?_, fun j hj h3 hfirst k hk => ?_⟩
          · rw [hkeep b fun j hj => hlt j (by omega)]
            exact assignSlice_out (by omega) (Or.inl (hlt i (Nat.le_refl i) (by omega) hi))
          · rcases Nat.eq_or_lt_of_le hj with rfl | hlt
            · rw [if_neg hb, hkeep _ fun j hj h3 hfirst => by
                have := main_le_main hp.fits hi (show i < j by omega) h3
                omega]
              exact assignSlice_in (by omega) (by omega)
            · rw [hfill j hlt h3 hfirst k hk]
              split
              next =>
                have := main_le_main hp.fits hi hlt h3
                exact assignSlice_out (by omega) (Or.inr (by omega))
              next => rfl
      · rw [hp.skipped i (by omega)]
        obtain ⟨hl, hkeep, hput⟩ := hskip
        exact ⟨hl, fun b hlt => hkeep b fun j hj => hlt j (by omega),
          fun j hj h3 hfirst k hk => hput j (by omega) h3 hfirst k hk⟩

/-- The buffer of the main block has the payloads, and zeros for the BSS sections. -/
theorem buildRam_spec (hs : SameImage lay.image h num es) (hmode : lay.mode = mode)
    (hp : MainPayloads lay h num es mode) (hm : MetadataFits lay.image) :
    lay.buildRam.length = exactRamSections h num es mode ∧
      ∀ j, firstPlaced mode ≤ j → j < 3 → ∀ k, k < (es j).size.toNat →
        lay.buildRam[exactMainOffset h num es mode j + k]? =
          if (es j).cls = Udynlink.secClassBss then some 0
          else (lay.image.sectionPayload j)[k]? := by
  subst hmode
  have hnum := hp.fits.main
  have hstart := hp.fits.start_le_ram
  obtain ⟨hram, -, -⟩ := walk_placed hs hp.fits.table hnum
  obtain ⟨hmain, htagged⟩ := hs.parts hp.fits.table hnum
  have hcount : lay.nonmainSections.length = num - 3 := by
    rw [RuntimeLayout.nonmainSections, htagged.length_eq, List.length_range']
  have hbases : lay.nonmainBasesSize = 4 * (num - 3) := by
    rw [RuntimeLayout.nonmainBasesSize, hcount]
  have hlot := hs.header.numLot
  rw [exactStart] at hstart
  -- the buffer in front of the main sections
  have hfront : ∀ buf : Bytes, buf.length = exactRamSections h num es lay.mode →
      SameTail (exactStart h num lay.mode) buf (if lay.nonmainBasesSize = 0 then buf
        else lay.packBases (lay.image.header.numLot * 4) lay.nonmainSections 0 buf) := by
    intro buf hlen
    split
    next => exact SameTail.refl _ _
    next =>
      refine (packBases_keeps (by omega)).mono ?_
      rw [exactStart]
      omega
  have hmeta : ∀ buf : Bytes, buf.length = exactRamSections h num es lay.mode →
      SameTail (exactStart h num lay.mode) buf
        (if lay.mode = .copyAll then lay.copyMetadata buf else buf) := by
    intro buf hlen
    have hcode := hs.codeOffset
    split
    next hall =>
      rw [if_pos hall] at hstart
      refine (copyMetadata_keeps hm (by omega)).mono ?_
      rw [exactStart, if_pos hall]
      omega
    next => exact SameTail.refl _ _
  have hzero : (List.replicate lay.ramSize (0 : UInt8)).length =
      exactRamSections h num es lay.mode := by
    rw [List.length_replicate, hram]
  have hbases' := hfront _ hzero
  have hall := hbases'.trans (hmeta _ (hbases'.length.trans hzero))
  obtain ⟨hlen, -, hput⟩ := copyMain_spec hp hmain (by omega) (hall.length.trans hzero)
  refine ⟨hlen.trans (hall.length.trans hzero), fun j hfirst h3 k hk => ?_⟩
  have hat : lay.buildRam[exactMainOffset h num es lay.mode j + k]? = _ :=
    hput j (Nat.zero_le j) h3 hfirst k hk
  rw [hat]
  split
  next =>
    have hlo := hp.fits.start_le hfirst h3
    have hhi := hp.fits.main_le_ram hfirst h3
    rw [hall.byte _ (by omega), List.getElem?_replicate, if_pos (by omega)]
  next => rfl

end

/-! ## The payloads in the image -/

section

variable {es : Nat → SectEntry} {l : List ImageSection} {data : Bytes} {i j n off : Nat}

theorem classSizes_add (es : Nat → SectEntry) (a b k : Nat) :
    classSizes es 3 (a + b) k = classSizes es 3 a k + classSizes es 3 b (k + a) := by
  induction a generalizing k with
  | zero => rw [Nat.zero_add, Nat.add_zero]; exact (Nat.zero_add _).symm
  | succ a ih =>
    rw [show a + 1 + b = a + b + 1 by omega, classSizes, classSizes, ih, show k + 1 + a =
      k + (a + 1) by omega, Nat.add_assoc]

/-- The payloads in front of a section, and its own. -/
theorem classSizes_le {num : Nat} (hj : i ≤ j) (hj' : j < i + num)
    (hc : (es j).cls ≤ Udynlink.secClassBss) (hb : (es j).cls ≠ Udynlink.secClassBss) :
    classSizes es 3 (j - i) i + (es j).size.toNat ≤ classSizes es 3 num i := by
  obtain ⟨r, rfl⟩ : ∃ r, num = (j - i) + (r + 1) := ⟨num - (j - i) - 1, by omega⟩
  rw [classSizes_add es (j - i) (r + 1) i, show i + (j - i) = j by omega, classSizes_payload hc,
    if_neg hb]
  omega

theorem parsePayloads_at (hl : List.Forall₂ (EntryAt es) l (List.range' i n))
    (hc : ∀ j, i ≤ j → j < i + n → (es j).cls ≤ Udynlink.secClassBss) (hj : i ≤ j)
    (hj' : j < i + n) (hb : (es j).cls ≠ Udynlink.secClassBss) :
    (parsePayloads data l off).getD (j - i) [] =
      slice data (off + classSizes es 3 (j - i) i) (es j).size.toNat := by
  induction n generalizing i l off with
  | zero => omega
  | succ n ih =>
    rw [List.range'_succ] at hl
    cases hl with
    | @cons sec _ rest _ he hrest =>
      have hci := hc i (Nat.le_refl i) (by omega)
      rw [parsePayloads]
      rcases Nat.eq_or_lt_of_le hj with rfl | hlt
      · rw [if_neg (mt he.isBss.mp hb), Nat.sub_self, he.same.size]
        rfl
      · rw [show j - i = j - (i + 1) + 1 by omega, classSizes_payload hci]
        have hnext : ∀ off, (parsePayloads data rest off).getD (j - (i + 1)) [] =
            slice data (off + classSizes es 3 (j - (i + 1)) (i + 1)) (es j).size.toNat := fun off =>
          ih hrest (fun j hj hj' => hc j (by omega) (by omega)) hlt (by omega)
        by_cases hbi : (es i).cls = Udynlink.secClassBss
        · rw [if_pos (he.isBss.mpr hbi), if_pos hbi, List.getD_cons_succ, hnext, Nat.zero_add]
        · rw [if_neg (mt he.isBss.mp hbi), if_neg hbi, List.getD_cons_succ, hnext, he.same.size,
            Nat.add_assoc]

theorem sameEntries_map (hl : List.Forall₂ (EntryAt es) l (List.range' i n)) :
    List.Forall₂ SameEntry l ((List.range' i n).map es) :=
  List.forall₂_map_right_iff.mpr (hl.imp fun _ _ he => he.same)

end

section

variable {img : ModuleImage} {data : Bytes} {h : Header} {num j : Nat} {es : Nat → SectEntry}

/-- The payload of a section, as the parser cuts it out of the image. -/
theorem Parsed.payload (hp : Parsed data img) (hs : SameImage img h num es) (ht : TableOk h num es)
    (hj : j < num) (hb : (es j).cls ≠ Udynlink.secClassBss) :
    img.sectionPayload j =
        slice data (exactCodeOffset h + classSizes es 3 j 0) (es j).size.toNat ∧
      exactCodeOffset h + classSizes es 3 j 0 + (es j).size.toNat ≤ data.length := by
  have hpos := ht.num_pos
  have hall := hs.entries (by omega)
  have hc : ∀ k, 0 ≤ k → k < 0 + num → (es k).cls ≤ Udynlink.secClassBss :=
    fun k _ hk => ht.cls_le (by omega)
  have hcode : img.header.codeOffset = exactCodeOffset h :=
    hs.codeOffset ▸ hp.codeOffset.symm
  have htotal := payloadSize_same num (sameEntries_map hall) hc
  have hle := classSizes_le (Nat.zero_le j) (show j < 0 + num by omega) (ht.cls_le hj) hb
  have hlen := hp.length
  rw [htotal, hcode] at hlen
  rw [Nat.sub_zero] at hle
  refine ⟨?_, by omega⟩
  have hat : (parsePayloads data img.sections (exactCodeOffset h)).getD (j - 0) [] = _ :=
    parsePayloads_at hall hc (Nat.zero_le j) (by omega) hb
  rw [Nat.sub_zero] at hat
  rw [ModuleImage.sectionPayload, hp.payloads, hcode]
  exact hat

end

/-! ## The payloads in RAM -/

section

variable {image : Image} {h : Header} {num : Nat} {es : Nat → SectEntry} {mode : LoadMode}
  {secs : Nat → Addr} {p : Addr} {tab : SectView} {off : UInt32} {n k : Nat} {b : Blit}

/-- The transfers of the tagged loop, with the payloads they read. -/
theorem taggedBlits_payload (hc : ∀ j, k ≤ j → j < k + n → (es j).cls ≤ Udynlink.secClassBss) :
    (∀ b ∈ taggedBlits image h es p secs n k off, (∃ a v, b = .word a v) ∨
      ∃ j, k ≤ j ∧ j < k + n ∧ b = taggedBlit (es j) (secs j)
        (image.pCode + (off + UInt32.ofNat (classSizes es 3 (j - k) k)))) ∧
      ∀ j, k ≤ j → j < k + n → (es j).size ≠ 0 → taggedBlit (es j) (secs j)
        (image.pCode + (off + UInt32.ofNat (classSizes es 3 (j - k) k))) ∈
          taggedBlits image h es p secs n k off := by
  induction n generalizing k off with
  | zero => exact ⟨fun b hb => absurd hb List.not_mem_nil, fun j hj hj' => absurd hj' (by omega)⟩
  | succ n ih =>
    have hcrest : ∀ j, k + 1 ≤ j → j < k + 1 + n → (es j).cls ≤ Udynlink.secClassBss :=
      fun j hj hj' => hc j (by omega) (by omega)
    have hck := hc k (Nat.le_refl k) (by omega)
    -- the offset of the rest
    have hsrc : ∀ j, k + 1 ≤ j →
        nextPayload (es k) off + UInt32.ofNat (classSizes es 3 (j - (k + 1)) (k + 1)) =
          off + UInt32.ofNat (classSizes es 3 (j - k) k) := by
      intro j hj
      rw [show j - k = j - (k + 1) + 1 by omega, classSizes_payload hck, nextPayload]
      split
      next => rw [Nat.zero_add]
      next => rw [UInt32.ofNat_add, UInt32.ofNat_toNat, UInt32.add_assoc]
    rw [taggedBlits]
    split
    next hz =>
      have hoff : nextPayload (es k) off = off := by
        rw [nextPayload, hz]
        split
        · rfl
        · exact UInt32.add_zero off
      obtain ⟨hform, hmem⟩ := @ih off (k + 1) hcrest
      refine ⟨fun b hb => (hform b hb).imp id ?_, fun j hj hj' hne => ?_⟩
      · rintro ⟨j, hj, hj', rfl⟩
        refine ⟨j, by omega, by omega, ?_⟩
        rw [← hsrc j hj, hoff]
      · have hlt : k + 1 ≤ j := by
          rcases Nat.eq_or_lt_of_le hj with rfl | hlt
          · exact absurd hz hne
          · exact hlt
        have hat := hmem j hlt (by omega) hne
        rw [← hsrc j hlt, hoff]
        exact hat
    next =>
      obtain ⟨hform, hmem⟩ := @ih (nextPayload (es k) off) (k + 1) hcrest
      have hown : off = off + UInt32.ofNat (classSizes es 3 (k - k) k) := by
        rw [Nat.sub_self]
        exact (UInt32.add_zero off).symm
      refine ⟨fun b hb => ?_, fun j hj hj' hne => ?_⟩
      · rcases List.mem_cons.mp hb with rfl | hb
        · exact Or.inl ⟨_, _, rfl⟩
        · rcases List.mem_cons.mp hb with rfl | hb
          · exact Or.inr ⟨k, Nat.le_refl k, by omega, by rw [← hown]⟩
          · refine (hform b hb).imp id ?_
            rintro ⟨j, hj, hj', rfl⟩
            exact ⟨j, by omega, by omega, by rw [hsrc j hj]⟩
      · rcases Nat.eq_or_lt_of_le hj with rfl | hlt
        · rw [← hown]
          exact List.mem_cons_of_mem _ List.mem_cons_self
        · have hat := hmem j hlt (by omega) hne
          rw [hsrc j hlt] at hat
          exact List.mem_cons_of_mem _ (List.mem_cons_of_mem _ hat)

/-- What the transfers read is in the image. -/
theorem placeBlits_reads (hf : SectionedFits h num es mode)
    (hext : classSizes es 3 (num - 3) 3 ≤ 2 ^ 32) (hb : b ∈ placeBlits image h num es mode p secs) :
    b.ReadsFrom fun a => ∃ s ∈ sectionedSource image h num es, a ∈ s := by
  have hnum := hf.main
  have hcode := hf.table.exactCodeOffset_lt
  have hcopy : ∀ dst src n, (⟨src, n⟩ : Span) ∈ sectionedSource image h num es → n ≤ 2 ^ 32 →
      (Blit.copy dst src n).ReadsFrom fun a => ∃ s ∈ sectionedSource image h num es, a ∈ s :=
    fun dst src n hs hn => Blit.copy_readsFrom fun i hi => ⟨_, hs, off_mem hi hn⟩
  have htext : (textBlit image h num es mode p).ReadsFrom _ := hcopy _ image.pCode (es 1).va.toNat
    (by simp [sectionedSource]) (Nat.le_of_lt (es 1).va.toNat_lt)
  have hdata : (dataBlit image h num es mode p).ReadsFrom _ := hcopy _ image.pData
    (es 1).size.toNat (by simp [sectionedSource]) (Nat.le_of_lt (es 1).size.toNat_lt)
  rw [placeBlits, List.mem_append, List.mem_append] at hb
  rcases hb with hb | hb | hb
  · cases mode with
    | xip =>
      rw [List.mem_singleton.mp hb]
      exact hdata
    | copyTextData =>
      rcases List.mem_cons.mp hb with rfl | hb
      · exact htext
      · rw [List.mem_singleton.mp hb]
        exact hdata
    | copyAll =>
      rcases List.mem_cons.mp hb with rfl | hb
      · exact hcopy _ image.pHeader (exactCodeOffset h) (by simp [sectionedSource, metaSpan])
          (by omega)
      · rcases List.mem_cons.mp hb with rfl | hb
        · exact htext
        · rw [List.mem_singleton.mp hb]
          exact hdata
  · obtain ⟨hform, -⟩ := @taggedBlits_payload image h es secs p ((es 1).va + h.dataSize) (num - 3) 3
      fun j _ hj => hf.table.cls_le (show j < num by omega)
    rcases hform b hb with ⟨a, v, rfl⟩ | ⟨j, hj, hj', rfl⟩
    · exact fun _ _ _ _ _ => rfl
    · rw [taggedBlit]
      split
      next => exact Blit.zero_readsFrom _ _ _
      next hcls =>
        have hle := classSizes_le hj hj' (hf.table.cls_le (by omega)) hcls
        refine Blit.copy_readsFrom fun i hi => ⟨⟨image.pCode + ((es 1).va + h.dataSize),
          classSizes es 3 (num - 3) 3⟩, by simp [sectionedSource], ?_⟩
        have hat : image.pCode + ((es 1).va + h.dataSize +
            UInt32.ofNat (classSizes es 3 (j - 3) 3)) + UInt32.ofNat i =
            image.pCode + ((es 1).va + h.dataSize) +
              UInt32.ofNat (classSizes es 3 (j - 3) 3 + i) := by
          rw [UInt32.ofNat_add]
          simp only [UInt32.add_assoc]
        rw [hat]
        exact off_mem (by omega) hext
  · rw [List.mem_singleton.mp hb]
    exact Blit.zero_readsFrom _ _ _

/-- Where the payload of a section is in an image. -/
def payloadAddr (image : Image) (h : Header) (es : Nat → SectEntry) (j : Nat) : Addr :=
  if j = 0 then image.pCode
  else if j = 1 then image.pData
  else image.pCode + ((es 1).va + h.dataSize + UInt32.ofNat (classSizes es 3 (j - 3) 3))

/-- Where a section is in RAM. -/
def sectionDest (h : Header) (num : Nat) (es : Nat → SectEntry) (mode : LoadMode)
    (secs : Nat → Addr) (p : Addr) (j : Nat) : Addr :=
  if j < 3 then mainDest h num es mode p j else secs j

/-- The sections in RAM have the payloads of the image, or zeros. -/
theorem placed_payload (hf : SectionedFits h tab.num es mode)
    (hclear : SectionedClear image h tab.num es mode secs p)
    (hroom : TaggedRoom es secs tab.num ⟨p, exactRamSections h tab.num es mode⟩)
    (hext : classSizes es 3 (tab.num - 3) 3 ≤ 2 ^ 32) {m m0 : Mem}
    (hsame : ∀ s ∈ sectionedSource image h tab.num es, AgreeOn s m0 m) {j : Nat}
    (hfirst : firstPlaced mode ≤ j) (hj : j < tab.num) {i : Nat} (hi : i < (es j).size.toNat) :
    Blit.applyAll (placeBlits image h tab.num es mode p secs) m
        (sectionDest h tab.num es mode secs p j + UInt32.ofNat i) =
      if (es j).cls = Udynlink.secClassBss then 0
      else m0 (payloadAddr image h es j + UInt32.ofNat i) := by
  have hnum := hf.main
  have hbyte : ∀ b : Blit, b ∈ placeBlits image h tab.num es mode p secs → i < b.len →
      b.len ≤ 2 ^ 32 → Blit.applyAll (placeBlits image h tab.num es mode p secs) m
        (b.dst + UInt32.ofNat i) = b.bytes m0 i := fun b hb hi hlen =>
    (Blit.applyAll_byte (placeBlits_pairwise image hf hroom)
      (fun c hc => placeBlits_reads hf hext hc)
      (fun c hc a ⟨s, hs, ha⟩ => placeBlits_clear hf hclear hs hc ha) hb hi hlen m).trans
      (placeBlits_reads hf hext hb m m0 (fun a ⟨s, hs, ha⟩ => (hsame s hs a ha).symm) i hi)
  have hsize := (es j).size.toNat_lt
  have hcls : j < 3 → (es j).cls = UInt32.ofNat j := fun h3 => hf.table.cls_main hj h3
  match j, hj with
  | 0, _ =>
    have hmem : textBlit image h tab.num es mode p ∈ placeBlits image h tab.num es mode p secs := by
      cases mode with
      | xip => exact absurd hfirst (by decide)
      | copyTextData => exact List.mem_cons_self
      | copyAll => exact List.mem_cons_of_mem _ List.mem_cons_self
    rw [if_neg (by rw [hcls (by decide)]; decide)]
    rw [hf.table.text_size] at hi
    exact hbyte _ hmem hi (Nat.le_of_lt (es 1).va.toNat_lt)
  | 1, _ =>
    have hmem : dataBlit image h tab.num es mode p ∈ placeBlits image h tab.num es mode p secs := by
      cases mode with
      | xip => exact List.mem_cons_self
      | copyTextData => exact List.mem_cons_of_mem _ List.mem_cons_self
      | copyAll => exact List.mem_cons_of_mem _ (List.mem_cons_of_mem _ List.mem_cons_self)
    rw [if_neg (by rw [hcls (by decide)]; decide)]
    exact hbyte _ hmem hi (Nat.le_of_lt hsize)
  | 2, _ =>
    have hmem : bssBlit h tab.num es mode p ∈ placeBlits image h tab.num es mode p secs :=
      List.mem_append_right _ (List.mem_append_right _ (List.mem_singleton.mpr rfl))
    rw [if_pos (by rw [hcls (by decide)]; rfl)]
    exact hbyte _ hmem hi (Nat.le_of_lt hsize)
  | j + 3, hj =>
    have hne : (es (j + 3)).size ≠ 0 := fun hz => by
      rw [hz, UInt32.toNat_zero] at hi
      omega
    obtain ⟨-, hmem⟩ := @taggedBlits_payload image h es secs p ((es 1).va + h.dataSize)
      (tab.num - 3) 3 fun j _ hj => hf.table.cls_le (show j < tab.num by omega)
    have hin := List.mem_append_right (mainBlits image h tab.num es mode p)
      (List.mem_append_left [bssBlit h tab.num es mode p] (hmem (j + 3) (by omega) (by omega) hne))
    rw [sectionDest, if_neg (by omega)]
    by_cases hb : (es (j + 3)).cls = Udynlink.secClassBss
    · rw [taggedBlit, if_pos hb] at hin
      rw [if_pos hb]
      exact hbyte _ hin hi (Nat.le_of_lt hsize)
    · rw [taggedBlit, if_neg hb] at hin
      rw [if_neg hb, payloadAddr, if_neg (by omega), if_neg (by omega)]
      exact hbyte _ hin hi (Nat.le_of_lt hsize)

end

section

variable {image : Image} {h : Header} {num : Nat} {es : Nat → SectEntry} {j : Nat}

/-- The payloads of an image in one piece follow each other. -/
theorem payloadAddr_eq (ht : TableOk h num es) (hnum : 3 ≤ num) (hj : j < num)
    (hb : (es j).cls ≠ Udynlink.secClassBss)
    (hcode : image.pCode = image.pHeader + UInt32.ofNat (exactCodeOffset h))
    (hdata : image.pData = image.pCode + UInt32.ofNat (exactCodePayload h num es)) :
    payloadAddr image h es j =
      image.pHeader + UInt32.ofNat (exactCodeOffset h + classSizes es 3 j 0) := by
  have hcls : ∀ i, i < 3 → (es i).cls = UInt32.ofNat i := fun i hi => ht.cls_main (by omega) hi
  have htext : ∀ r, classSizes es 3 (r + 1) 0 = (es 1).va.toNat + classSizes es 3 r 1 := fun r => by
    rw [classSizes_payload (ht.cls_le (by omega)), if_neg (by rw [hcls 0 (by decide)]; decide),
      ht.text_size]
  match j, hj with
  | 0, _ =>
    rw [payloadAddr, if_pos rfl, hcode]
    rfl
  | 1, _ =>
    rw [payloadAddr, if_neg (by decide), if_pos rfl, hdata, hcode, exactCodePayload,
      if_pos (by omega), off_off, htext 0]
    rfl
  | 2, _ =>
    rw [hcls 2 (by decide)] at hb
    exact absurd rfl hb
  | r + 3, hj =>
    have hsizes : classSizes es 3 (r + 3) 0 =
        (es 1).va.toNat + h.dataSize.toNat + classSizes es 3 r 3 := by
      rw [htext, classSizes_payload (ht.cls_le (show 1 < num by omega)),
        if_neg (by rw [hcls 1 (by decide)]; decide), ht.data_size,
        classSizes_payload (ht.cls_le (show 2 < num by omega)),
        if_pos (by rw [hcls 2 (by decide)]; rfl), Nat.zero_add, Nat.add_assoc]
    rw [payloadAddr, if_neg (by omega), if_neg (by omega), hsizes, hcode, Nat.add_sub_cancel]
    simp only [UInt32.ofNat_add, UInt32.ofNat_toNat, UInt32.add_assoc]

end

section

variable {image : Image} {h : Header} {tab : SectView} {es : Nat → SectEntry} {mode : LoadMode}
  {secs : Nat → Addr} {p : Addr} {mod : Module} {m m0 : Mem} {data : Bytes} {lay : RuntimeLayout}
  {j k : Nat}

/-- The payloads of the parser, byte by byte where the loader reads them. -/
structure SamePayloads (image : Image) (h : Header) (num : Nat) (es : Nat → SectEntry) (m0 : Mem)
    (img : ModuleImage) : Prop where
  length : ∀ j, j < num → (es j).cls ≠ Udynlink.secClassBss →
    (img.sectionPayload j).length = (es j).size.toNat
  byte : ∀ j, j < num → (es j).cls ≠ Udynlink.secClassBss → ∀ k, k < (es j).size.toNat →
    (img.sectionPayload j)[k]? = some (m0 (payloadAddr image h es j + UInt32.ofNat k))

theorem samePayloads {img : ModuleImage} {num : Nat} (hp : Parsed data img)
    (hs : SameImage img h num es) (ht : TableOk h num es) (hnum : 3 ≤ num)
    (hb : HasBytes m0 image.pHeader data)
    (hcode : image.pCode = image.pHeader + UInt32.ofNat (exactCodeOffset h))
    (hdata : image.pData = image.pCode + UInt32.ofNat (exactCodePayload h num es)) :
    SamePayloads image h num es m0 img := by
  refine ⟨fun j hj hcls => ?_, fun j hj hcls k hk => ?_⟩
  · obtain ⟨hpay, hle⟩ := hp.payload hs ht hj hcls
    rw [hpay, length_slice hle]
  · obtain ⟨hpay, hle⟩ := hp.payload hs ht hj hcls
    rw [hpay, getElem?_slice data hk, hb _ (by omega), payloadAddr_eq ht hnum hj hcls hcode hdata,
      off_off]

/-- The block of a tagged section. -/
theorem blocks_spec (hl : SameLayout lay h tab es mode secs p mod m) (hj : 3 ≤ j)
    (hj' : j < tab.num) (hne : (es j).size ≠ 0) (hsec : secs j ≠ 0)
    (hlen : (es j).cls ≠ Udynlink.secClassBss →
      (lay.image.sectionPayload j).length = (es j).size.toNat) :
    ∃ bs, lay.blocks j = some bs ∧ bs.length = (es j).size.toNat ∧
      ∀ k, k < (es j).size.toNat → bs[k]? =
        if (es j).cls = Udynlink.secClassBss then some 0 else (lay.image.sectionPayload j)[k]? := by
  have hnum := hl.fits.main
  obtain ⟨-, htagged⟩ := hl.image.parts hl.fits.table hnum
  obtain ⟨e, hmem, hat⟩ := exists_entryAt htagged hj (by omega)
  -- the section that is found
  obtain ⟨sec, hfind, hsat⟩ : ∃ sec, lay.nonmainSections.find? (fun s => s.index = j) = some sec ∧
      EntryAt es sec j := by
    cases hx : lay.nonmainSections.find? fun s => s.index = j with
    | none =>
      have hno := List.find?_eq_none.mp hx e hmem
      exact absurd (decide_eq_true hat.index) hno
    | some sec =>
      obtain ⟨i, -, -, hsat⟩ := entryAt_of_mem htagged (List.mem_of_find?_eq_some hx)
      have hidx : sec.index = j := of_decide_eq_true
        (List.find?_some (p := fun s : ImageSection => decide (s.index = j)) hx)
      obtain rfl : i = j := hsat.index.symm.trans hidx
      exact ⟨sec, rfl, hsat⟩
  have hbase : (lay.sectionBases j).getD 0 ≠ 0 := by
    rw [hl.bases j hj hj' hne, Option.getD_some]
    exact fun hz => hsec (UInt32.toNat_inj.mp hz)
  refine ⟨lay.sectionBlock sec, ?_, ?_⟩
  · rw [RuntimeLayout.blocks, hfind]
    exact if_neg hbase
  · rw [RuntimeLayout.sectionBlock, hsat.same.size, hsat.index]
    dsimp only
    by_cases hb : (es j).cls = Udynlink.secClassBss
    · rw [if_pos (hsat.isBss.mpr hb)]
      refine ⟨List.length_replicate, fun k hk => ?_⟩
      rw [if_pos hb, List.getElem?_replicate, if_pos hk]
    · have hpay := hlen hb
      have hwhole : assignSlice (List.replicate (es j).size.toNat 0) 0
          (lay.image.sectionPayload j).length (lay.image.sectionPayload j) =
          lay.image.sectionPayload j := by
        rw [assignSlice, List.take_zero, List.nil_append, Nat.zero_max,
          List.drop_eq_nil_of_le (by rw [List.length_replicate]; omega), List.append_nil]
      rw [if_neg (mt hsat.isBss.mp hb), hwhole]
      exact ⟨hpay, fun k _ => (if_neg hb).symm⟩

/-- In front of the relocations, the buffers have the bytes that the loader has placed. -/
theorem shown_start (hl : SameLayout lay h tab es mode secs p mod m) (hm : MetadataFits lay.image)
    (hp : SamePayloads image h tab.num es m0 lay.image)
    (hsecs : ∀ j, 3 ≤ j → j < tab.num → (es j).size ≠ 0 → secs j ≠ 0)
    (hplaced : ∀ j, firstPlaced mode ≤ j → j < tab.num → ∀ k, k < (es j).size.toNat →
      m (sectionDest h tab.num es mode secs p j + UInt32.ofNat k) =
        if (es j).cls = Udynlink.secClassBss then 0
        else m0 (payloadAddr image h es j + UInt32.ofNat k)) :
    Shown h tab.num es mode secs p (MainByte h tab.num es mode) ⟨lay.buildRam, lay.blocks⟩ m := by
  have hnum := hl.fits.main
  have hfirst := firstPlaced_le mode
  obtain ⟨-, hmain, hxip⟩ := walk_placed hl.image hl.fits.table hnum
  rw [hl.sameMode] at hmain hxip
  have hmp : MainPayloads lay h tab.num es mode := by
    refine ⟨hl.fits, hmain, fun j hj => ?_, fun j hj hb => hp.length j (by omega) hb⟩
    rw [firstPlaced] at hj
    split at hj
    next hx =>
      obtain rfl : j = 0 := by omega
      exact hxip hx
    next => omega
  obtain ⟨hlen, hram⟩ := buildRam_spec hl.image hl.sameMode hmp hm
  -- the byte of a section, in a buffer and in RAM
  have hbyte : ∀ j, firstPlaced mode ≤ j → j < tab.num → ∀ k, k < (es j).size.toNat →
      (if (es j).cls = Udynlink.secClassBss then some 0 else (lay.image.sectionPayload j)[k]?) =
        some (m (sectionDest h tab.num es mode secs p j + UInt32.ofNat k)) := by
    intro j hj hj' k hk
    rw [hplaced j hj hj' k hk]
    split
    next => rfl
    next hb => exact hp.byte j hj' hb k hk
  refine ⟨hlen, ?_, fun j hj hj' hne => ?_⟩
  · rintro i ⟨j, hj, h3, hlo, hhi⟩
    obtain ⟨k, rfl⟩ : ∃ k, i = exactMainOffset h tab.num es mode j + k :=
      ⟨i - exactMainOffset h tab.num es mode j, by omega⟩
    have hat := hbyte j hj (by omega) k (by omega)
    rw [sectionDest, if_pos h3, mainDest, off_off] at hat
    exact (hram j hj h3 k (by omega)).trans hat
  · obtain ⟨bs, hbs, hl', hfill⟩ := blocks_spec hl hj hj' hne (hsecs j hj hj' hne)
      fun hb => hp.length j hj' hb
    refine ⟨bs, hbs, hl', fun k hk => ?_⟩
    rw [hl'] at hk
    have hdest : sectionDest h tab.num es mode secs p j = secs j := if_neg (by omega)
    rw [hfill k hk, hbyte j (by omega) hj' k hk, hdest]

end

end Udynlink.Parser
