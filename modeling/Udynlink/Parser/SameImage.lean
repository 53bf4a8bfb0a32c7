import Udynlink.LoadPlace
import Udynlink.LoadSizes
import Udynlink.Parser.RoundTrip
import Udynlink.Validator

/-!
# One image, read by the loader and by the parser

The loader reads the words of an image from memory, the parser from a string of bytes.
On an image that the loader accepts both see the same header and the same sections.
-/

namespace Udynlink.Parser

open Machine

/-- The bytes are those at `p`. -/
def HasBytes (m : Mem) (p : Addr) (data : Bytes) : Prop :=
  ∀ i, i < data.length → data[i]? = some (m (p + UInt32.ofNat i))

section

variable {m : Mem} {p : Addr} {data : Bytes}

/-! ## Words -/

theorem HasBytes.slice (hb : HasBytes m p data) {off n : Nat} (h : off + n ≤ data.length) :
    slice data off n = (List.range n).map fun i => m (p + UInt32.ofNat (off + i)) := by
  apply List.ext_getElem?
  intro i
  by_cases hi : i < n
  · rw [getElem?_slice data hi, hb _ (by omega), List.getElem?_map, List.getElem?_range hi]
    rfl
  · rw [List.getElem?_eq_none (by rw [length_slice h]; omega),
      List.getElem?_eq_none (by rw [List.length_map, List.length_range]; omega)]

theorem HasBytes.word2 (hb : HasBytes m p data) {off : Nat} (h : off + 2 ≤ data.length) :
    word data off 2 = (m.u16 (p + UInt32.ofNat off)).toNat := by
  have h1 : p + UInt32.ofNat off + 1 = p + UInt32.ofNat (off + 1) := off_off p off 1
  have b0 := (m (p + UInt32.ofNat off)).toNat_lt
  have b1 := (m (p + UInt32.ofNat (off + 1))).toNat_lt
  unfold word Mem.u16
  rw [hb.slice h, h1, UInt16.toNat_ofNat']
  show (m (p + UInt32.ofNat off)).toNat + 256 * ((m (p + UInt32.ofNat (off + 1))).toNat +
    256 * 0) = _
  omega

theorem HasBytes.word4 (hb : HasBytes m p data) {off : Nat} (h : off + 4 ≤ data.length) :
    word data off 4 = (m.u32 (p + UInt32.ofNat off)).toNat := by
  have h1 : p + UInt32.ofNat off + 1 = p + UInt32.ofNat (off + 1) := off_off p off 1
  have h2 : p + UInt32.ofNat off + 2 = p + UInt32.ofNat (off + 2) := off_off p off 2
  have h3 : p + UInt32.ofNat off + 3 = p + UInt32.ofNat (off + 3) := off_off p off 3
  have b0 := (m (p + UInt32.ofNat off)).toNat_lt
  have b1 := (m (p + UInt32.ofNat (off + 1))).toNat_lt
  have b2 := (m (p + UInt32.ofNat (off + 2))).toNat_lt
  have b3 := (m (p + UInt32.ofNat (off + 3))).toNat_lt
  unfold word Mem.u32
  rw [hb.slice h, h1, h2, h3, UInt32.toNat_ofNat']
  show (m (p + UInt32.ofNat off)).toNat + 256 * ((m (p + UInt32.ofNat (off + 1))).toNat +
    256 * ((m (p + UInt32.ofNat (off + 2))).toNat +
      256 * ((m (p + UInt32.ofNat (off + 3))).toNat + 256 * 0))) = _
  omega

/-! ## The header -/

/-- The two decoded headers of one image. -/
structure SameHeader (hp : ModuleHeader) (h : Header) : Prop where
  version : hp.udynlinkVersion = h.udynlinkVersion.toNat
  numLot : hp.numLot = h.numLot.toNat
  numRels : hp.numRels = h.numRels.toNat
  flags : hp.flags = h.flags.toNat
  symtSize : hp.symtSize = h.symtSize.toNat
  codeSize : hp.codeSize = h.codeSize.toNat
  dataSize : hp.dataSize = h.dataSize.toNat
  bssSize : hp.bssSize = h.bssSize.toNat
  sign : h.sign = moduleSign → hp.sign = moduleSignature

theorem HasBytes.header (hb : HasBytes m p data) (hlen : headerSizeBytes ≤ data.length) :
    SameHeader (ModuleHeader.ofBytes data) (decodeHeader m p) := by
  unfold headerSizeBytes at hlen
  have hsign : word data 0 4 = (m.u32 p).toNat := by
    have h0 := @HasBytes.word4 m p data hb 0 (by omega)
    rwa [off_zero] at h0
  refine ⟨hb.word2 (by omega), hb.word2 (by omega), hb.word2 (by omega), hb.word2 (by omega),
    hb.word4 (by omega), hb.word4 (by omega), hb.word4 (by omega), hb.word4 (by omega),
    fun hs => ?_⟩
  have hbytes : leBytes 4 (word data 0 4) = Machine.slice data 0 4 := leBytes_word (by omega)
  rw [hsign, show m.u32 p = moduleSign from hs] at hbytes
  exact hbytes.symm

variable {hp : ModuleHeader} {h : Header}

theorem align4_exact (n : Nat) : align4 n = exactAlignUp n 4 := by
  have h2 := exactAlignUp_two_pow n 2
  rw [align4_eq]
  exact h2.symm

theorem SameHeader.headerSize (hs : SameHeader hp h) : hp.headerSize = (getHeaderSize h).toNat := by
  have h3 : h.udynlinkVersion ≥ makeVersion 3 0 ↔ hp.udynlinkVersion ≥ packVersion 3 0 := by
    rw [hs.version, ge_iff_le, UInt16.le_iff_toNat_le]
    rfl
  have h2 : h.udynlinkVersion ≥ makeVersion 2 0 ↔ hp.udynlinkVersion ≥ packVersion 2 0 := by
    rw [hs.version, ge_iff_le, UInt16.le_iff_toNat_le]
    rfl
  unfold ModuleHeader.headerSize getHeaderSize
  by_cases ha : hp.udynlinkVersion ≥ packVersion 3 0
  · rw [if_pos ha, if_pos (h3.mpr ha)]
    rfl
  · rw [if_neg ha, if_neg (mt h3.mp ha)]
    by_cases hc : hp.udynlinkVersion ≥ packVersion 2 0
    · rw [if_pos hc, if_pos (h2.mpr hc)]
      rfl
    · rw [if_neg hc, if_neg (mt h2.mp hc)]
      rfl

theorem SameHeader.hasSections (hs : SameHeader hp h) : hp.hasSections = isSectioned h := by
  have hz : (h.flags &&& 1) = 0 ↔ (hp.flags &&& 1) = 0 := by
    rw [hs.flags, ← UInt16.toNat_inj, UInt16.toNat_and]
    rfl
  unfold ModuleHeader.hasSections isSectioned hdrFlagSections
  exact decide_eq_decide.mpr (not_congr hz.symm)

theorem SameHeader.numSections (hs : SameHeader hp h) :
    hp.numSections = ((h.flags &&& hdrSectionsMask) >>> 1).toUInt32.toNat := by
  unfold ModuleHeader.numSections
  rw [hs.flags, UInt16.toNat_toUInt32, UInt16.toNat_shiftRight, UInt16.toNat_and]
  rfl

/-- The offsets agree, as far as the loader counts the sections as the header has them. -/
theorem SameHeader.offsets (hs : SameHeader hp h)
    (hn : hp.numSections = (getNumSectionsRaw h).toNat) :
    hp.symtabOffset = (getHeaderSize h).toNat + 8 * h.numRels.toNat ∧
      hp.sectabOffset = exactSymtabEnd h ∧ hp.codeOffset = exactCodeOffset h := by
  have hsym : hp.symtabOffset = (getHeaderSize h).toNat + 8 * h.numRels.toNat := by
    unfold ModuleHeader.symtabOffset ModuleHeader.relocsOffset ModuleHeader.relocsSize
    rw [hs.headerSize, hs.numRels]
    omega
  have htab : hp.sectabOffset = exactSymtabEnd h := by
    unfold ModuleHeader.sectabOffset exactSymtabEnd
    rw [hsym, hs.symtSize, align4_exact]
  refine ⟨hsym, htab, ?_⟩
  unfold ModuleHeader.codeOffset ModuleHeader.sectabSize exactCodeOffset
  rw [htab, hn, align4_exact, Nat.mul_comm]

/-! ## Sections -/

/-- The two decoded entries of one section. -/
structure SameEntry (e : ImageSection) (s : SectEntry) : Prop where
  nameOff : e.nameOff = s.nameOff.toNat
  va : e.va = s.va.toNat
  size : e.size = s.size.toNat
  align : e.align = s.align.toNat
  cls : e.cls = s.cls.toNat
  flags : e.flags = s.flags.toNat

theorem HasBytes.entry (hb : HasBytes m p data) {symtabBytes : Bytes} {symtSize i off : Nat}
    (h : off + sectionEntrySize ≤ data.length) :
    SameEntry (entryOf data symtabBytes symtSize i off)
      (decodeEntry m (p + UInt32.ofNat off)) := by
  unfold sectionEntrySize at h
  have hw : ∀ k : Nat, off + k + 4 ≤ data.length →
      word data (off + k) 4 = (m.u32 (p + UInt32.ofNat off + UInt32.ofNat k)).toNat := by
    intro k hk
    rw [off_off]
    exact hb.word4 hk
  exact ⟨hb.word4 (by omega), hw 4 (by omega), hw 8 (by omega), hw 12 (by omega),
    hw 16 (by omega), hw 20 (by omega)⟩

/-- The table, entry by entry. -/
theorem HasBytes.table (hb : HasBytes m p data) {symtabBytes : Bytes} {symtSize off : Nat}
    (n : Nat) {i : Nat} (h : off + (i + n) * sectionEntrySize ≤ data.length) :
    List.Forall₂ SameEntry (tableFrom data symtabBytes symtSize off n i)
      ((List.range' i n).map (entriesAt m (p + UInt32.ofNat off))) := by
  unfold sectionEntrySize at h
  induction n generalizing i with
  | zero => exact List.Forall₂.nil
  | succ n ih =>
    rw [List.range'_succ, List.map_cons]
    refine List.Forall₂.cons ?_ (ih (by omega))
    have he : SameEntry (entryOf data symtabBytes symtSize i (off + i * sectionEntrySize))
        (decodeEntry m (p + UInt32.ofNat (off + i * sectionEntrySize))) :=
      hb.entry (by unfold sectionEntrySize; omega)
    unfold entriesAt
    rwa [off_off, show 24 * i = i * sectionEntrySize from Nat.mul_comm 24 i]

theorem sameEntries_mem {es : Nat → SectEntry} (n : Nat) {i : Nat} {l : List ImageSection}
    (h : List.Forall₂ SameEntry l ((List.range' i n).map es)) {e : ImageSection} (he : e ∈ l) :
    ∃ j, j < i + n ∧ SameEntry e (es j) := by
  induction n generalizing i l with
  | zero =>
    cases h
    cases he
  | succ n ih =>
    rw [List.range'_succ, List.map_cons] at h
    cases h with
    | cons hsame hrest =>
      rcases List.mem_cons.mp he with rfl | he
      · exact ⟨i, by omega, hsame⟩
      · obtain ⟨j, hj, he'⟩ := ih hrest he
        exact ⟨j, by omega, he'⟩

theorem sameEntries_order {es : Nat → SectEntry} (n : Nat) {i : Nat} {l : List ImageSection}
    (h : List.Forall₂ SameEntry l ((List.range' i n).map es))
    (ho : ∀ j, j + 1 < i + n → (es j).va.toNat + (es j).size.toNat ≤ (es (j + 1)).va.toNat) :
    l.IsChain fun prev cur => prev.va + prev.size ≤ cur.va := by
  induction n generalizing i l with
  | zero =>
    cases h
    exact List.IsChain.nil
  | succ n ih =>
    rw [List.range'_succ, List.map_cons] at h
    cases h with
    | cons hsame hrest =>
      have hnext := ih hrest fun j hj => ho j (by omega)
      cases n with
      | zero =>
        cases hrest
        exact List.IsChain.singleton _
      | succ n =>
        rw [List.range'_succ, List.map_cons] at hrest
        cases hrest with
        | cons hsame' hrest' =>
          refine List.IsChain.cons_cons ?_ hnext
          rw [hsame.va, hsame.size, hsame'.va]
          exact ho i (by omega)

/-- Payload of the sections by class. -/
theorem payloadSize_same {es : Nat → SectEntry} (n : Nat) {i : Nat} {l : List ImageSection}
    (h : List.Forall₂ SameEntry l ((List.range' i n).map es))
    (hc : ∀ j, i ≤ j → j < i + n → (es j).cls ≤ Udynlink.secClassBss) :
    payloadSize l = classSizes es 3 n i := by
  induction n generalizing i l with
  | zero =>
    cases h
    rfl
  | succ n ih =>
    rw [List.range'_succ, List.map_cons] at h
    cases h with
    | cons he hrest =>
      rename_i e rest
      have hpay : e.containsPayload = !decide ((es i).cls = Udynlink.secClassBss) := by
        unfold ImageSection.containsPayload ImageSection.isBss
        rw [he.cls]
        exact congrArg not (decide_eq_decide.mpr (@UInt32.toNat_inj (es i).cls Udynlink.secClassBss))
      rw [payloadSize, classSizes_payload (hc i (Nat.le_refl i) (by omega)),
        ih hrest fun j hj hj' => hc j (by omega) (by omega), hpay, he.size]
      by_cases hb : (es i).cls = Udynlink.secClassBss
      · simp [hb]
      · simp [hb]

end

/-! ## What the loader accepts -/

section

variable {m : Mem} {p : Addr} {data : Bytes} {tab : SectView} {hp : ModuleHeader}

/-- The loader counts the sections as the parser does. -/
theorem numSections_accepted (htab : (getSectab p true).run m = (.ok (), tab))
    (hs : SameHeader hp (decodeHeader m p)) :
    hp.numSections = (getNumSectionsRaw (decodeHeader m p)).toNat ∧
      tab.num = (getNumSectionsRaw (decodeHeader m p)).toNat ∧
      (hp.hasSections = true → 1 ≤ hp.numSections) := by
  have hnum := hs.numSections
  rcases getSectab_ok htab with ⟨hu, rfl⟩ | ⟨rfl, ht, -⟩
  · have hmask : (decodeHeader m p).flags &&& hdrSectionsMask = 0 := by
      rw [getSectab_untagged hu] at htab
      by_contra hne
      rw [if_pos hne] at htab
      cases congrArg Prod.fst htab
    rw [hs.hasSections, hu, getNumSectionsRaw_untagged hu, hnum, hmask]
    exact ⟨rfl, rfl, fun h => by cases h⟩
  · have hpos := ht.num_pos
    have hraw : (getNumSectionsRaw (decodeHeader m p)).toNat = hp.numSections := by
      rw [hnum]
      rw [ht.count] at hpos
      unfold getNumSectionsRaw at hpos ⊢
      dsimp only at hpos ⊢
      split at hpos
      · exact absurd hpos (by decide)
      · rename_i hno
        rw [if_neg hno]
    exact ⟨hraw.symm, rfl, fun _ => by rw [← hraw, ← ht.count]; exact hpos⟩

/-- An entry that passes the loader's tests passes the parser's. -/
theorem entryOk_accepted {e : ImageSection} {es : Nat → SectEntry} {h : Header} {num i : Nat}
    (he : SameEntry e (es i)) (ht : TableOk h num es) (hi : i < num)
    (hname : (es i).nameOff ≠ 0 → (es i).nameOff < h.symtSize) :
    EntryOk h.symtSize.toNat e := by
  have hf := ht.fields i hi
  simp only [entryFieldsOk, Bool.and_eq_true, Bool.not_eq_true', Bool.or_eq_false_iff,
    decide_eq_false_iff_not, bne_eq_false_iff_eq, beq_iff_eq] at hf
  obtain ⟨⟨⟨⟨⟨hge, hand⟩, -⟩, -⟩, hflags⟩, -⟩ := hf
  have h4 : 4 ≤ (es i).align.toNat := UInt32.not_lt.mp hge
  have hone : ((es i).align - 1).toNat = (es i).align.toNat - 1 := by
    rw [UInt32.toNat_sub_of_le _ _ (UInt32.le_iff_toNat_le.mpr (by
      rw [UInt32.toNat_one]; omega))]
    rfl
  refine ⟨fun h0 => ?_, by rw [he.size]; exact ht.size_mod hi, ?_, ?_, ?_⟩
  · rw [he.nameOff] at h0 ⊢
    exact UInt32.lt_iff_toNat_lt.mp (hname fun hz => h0 (by rw [hz]; rfl))
  · rw [he.align]
    refine ⟨h4, ?_⟩
    rw [← hone, ← UInt32.toNat_and, hand]
    rfl
  · rw [he.cls]
    exact UInt32.le_iff_toNat_le.mp (ht.cls_le hi)
  · rw [he.flags]
    have hz := congrArg UInt32.toNat hflags
    rwa [UInt32.toNat_and] at hz

/-- Names that were checked start in the symbol table. -/
theorem nameOff_accepted {h : Header} {pPool : Addr} {e : SectEntry}
    (hn : (entryNamed h pPool true e).run m = true) (h0 : e.nameOff ≠ 0) :
    e.nameOff < h.symtSize := by
  unfold entryNamed at hn
  rw [if_pos (by simp [h0])] at hn
  unfold entryNameOk at hn
  by_contra hge
  rw [if_pos (UInt32.not_lt.mp hge)] at hn
  cases hn

end

end Udynlink.Parser
