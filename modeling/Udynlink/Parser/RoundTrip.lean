import Udynlink.Parser.Image

/-!
# The round trip of the parser

Every part of an image is a slice of its bytes, and the parts come one after the other.
-/

namespace Udynlink.Parser

open Machine

/-! ## Well-formed images -/

/-- The `n` table entries from index `i` on. -/
def tableFrom (data symtabBytes : Bytes) (symtSize sectabOff : Nat) :
    Nat → Nat → List ImageSection
  | 0, _ => []
  | n + 1, i => entryOf data symtabBytes symtSize i (sectabOff + i * sectionEntrySize) ::
    tableFrom data symtabBytes symtSize sectabOff n (i + 1)

def symtabOf (b : Bytes) : Bytes :=
  slice b (ModuleHeader.ofBytes b).symtabOffset (ModuleHeader.ofBytes b).symtSize

def sectionsOf (b : Bytes) : List ImageSection :=
  let h := ModuleHeader.ofBytes b
  if h.hasSections then tableFrom b (symtabOf b) h.symtSize h.sectabOffset h.numSections 0
  else synthesizedSections h

structure EntryOk (symtSize : Nat) (e : ImageSection) : Prop where
  name : e.nameOff ≠ 0 → e.nameOff < symtSize
  size : e.size % 4 = 0
  align : 4 ≤ e.align ∧ (e.align &&& (e.align - 1)) = 0
  cls : e.cls ≤ secClassBss
  flags : (e.flags &&& secFlagReservedMask) = 0

/-- What the format asks of the bytes. -/
structure Readable (b : Bytes) : Prop where
  header : headerSizeBytes ≤ b.length
  signature : (ModuleHeader.ofBytes b).sign = moduleSignature
  flags : ((ModuleHeader.ofBytes b).flags &&& 0xFF00) = 0
  counted : (ModuleHeader.ofBytes b).hasSections = true →
    1 ≤ (ModuleHeader.ofBytes b).numSections ∧
      (ModuleHeader.ofBytes b).numSections ≤ maxSectionCount
  uncounted : (ModuleHeader.ofBytes b).hasSections = false →
    (ModuleHeader.ofBytes b).numSections = 0
  version : (ModuleHeader.ofBytes b).hasSections = true →
    packVersion 3 1 ≤ (ModuleHeader.ofBytes b).udynlinkVersion
  entries : (ModuleHeader.ofBytes b).hasSections = true →
    ∀ e ∈ sectionsOf b, EntryOk (ModuleHeader.ofBytes b).symtSize e
  order : (ModuleHeader.ofBytes b).hasSections = true →
    (sectionsOf b).IsChain fun prev cur => prev.va + prev.size ≤ cur.va
  present : (ModuleHeader.ofBytes b).codeOffset ≤ b.length

/-- An image of exact length, padded with zeros. -/
structure WellFormed (b : Bytes) : Prop extends Readable b where
  exact : b.length = (ModuleHeader.ofBytes b).codeOffset + payloadSize (sectionsOf b)
  padding : ∀ i, (ModuleHeader.ofBytes b).symtabOffset + (ModuleHeader.ofBytes b).symtSize ≤ i →
    i < (ModuleHeader.ofBytes b).sectabOffset → b[i]? = some 0

/-! ## Parts of an image -/

theorem ofBytes_pack {b : Bytes} (h : headerSizeBytes ≤ b.length) :
    (ModuleHeader.ofBytes b).pack = b.take headerSizeBytes := by
  unfold headerSizeBytes at h
  have hsign : (slice b 0 4 ++ List.replicate 4 0).take 4 = slice b 0 4 := by
    have hl : (slice b 0 4).length = 4 := length_slice (by omega)
    rw [List.take_append_of_le_length (by omega), List.take_of_length_le (by omega)]
  unfold ModuleHeader.pack ModuleHeader.ofBytes
  dsimp only
  rw [hsign, leBytes_word (by omega), leBytes_word (by omega), leBytes_word (by omega),
    leBytes_word (by omega), leBytes_word (by omega), leBytes_word (by omega),
    leBytes_word (by omega), leBytes_word (by omega), leBytes_word (by omega),
    leBytes_word (by omega), slice_append b 0 4 2, slice_append b 0 _ 2, slice_append b 0 _ 2,
    slice_append b 0 _ 2, slice_append b 0 _ 2, slice_append b 0 _ 2, slice_append b 0 _ 4,
    slice_append b 0 _ 4, slice_append b 0 _ 4, slice_append b 0 _ 4]
  rfl

theorem unpackU32_ok {data : Bytes} {off : Nat} (h : off + 4 ≤ data.length) :
    unpackU32 data off = .ok (word data off 4) := if_pos h

/-- The relocations are the bytes of their table. -/
theorem parseRelocations_ok {data : Bytes} {relocsOff : Nat} (n : Nat) {i : Nat}
    (h : relocsOff + (i + n) * 8 ≤ data.length) :
    ∃ rels, parseRelocations data relocsOff n i = .ok rels ∧
      (rels.map Relocation.pack).flatten = slice data (relocsOff + i * 8) (n * 8) := by
  induction n generalizing i with
  | zero => exact ⟨[], rfl, by rw [Nat.zero_mul]; simp [slice]⟩
  | succ n ih =>
    obtain ⟨rels, hp, hb⟩ := @ih (i + 1) (by omega)
    unfold parseRelocations
    rw [unpackU32_ok (by omega), unpackU32_ok (by omega), hp]
    refine ⟨_, rfl, ?_⟩
    rw [List.map_cons, List.flatten_cons, hb, Relocation.pack, leBytes_word (by omega),
      leBytes_word (by omega), slice_append, show relocsOff + (i + 1) * 8 =
        relocsOff + i * 8 + (4 + 4) by omega, slice_append,
      show 4 + 4 + n * 8 = (n + 1) * 8 by omega]

theorem parseSymbols_ok {symtabBytes : Bytes} {symtSize : Nat}
    (h : symtabBytes.length = symtSize) (n i : Nat) :
    ∃ symbols, parseSymbols symtabBytes symtSize n i = .ok symbols := by
  induction n generalizing i with
  | zero => exact ⟨[], rfl⟩
  | succ n ih =>
    unfold parseSymbols
    split
    · exact ⟨[], rfl⟩
    · rename_i hfit
      obtain ⟨rest, hr⟩ := ih (i + 1)
      rw [unpackU32_ok (by omega), unpackU32_ok (by omega), hr]
      exact ⟨_, rfl⟩

theorem symbolCount_ok {symtabBytes : Bytes} {symtSize : Nat}
    (h : symtabBytes.length = symtSize) : ∃ n, symbolCount symtabBytes symtSize = .ok n := by
  unfold symbolCount
  split
  · exact ⟨_, unpackU32_ok (by omega)⟩
  · exact ⟨_, rfl⟩

theorem checkEntry_ok {data symtabBytes : Bytes} {symtSize i off : Nat}
    (h : EntryOk symtSize (entryOf data symtabBytes symtSize i off)) :
    checkEntry symtSize (entryOf data symtabBytes symtSize i off) = .ok () := by
  have hname : ¬ ((entryOf data symtabBytes symtSize i off).nameOff ≠ 0 ∧
      (entryOf data symtabBytes symtSize i off).name = none) := by
    rintro ⟨h0, hn⟩
    have hlt := h.name h0
    unfold entryOf at h0 hn hlt
    dsimp only at h0 hn hlt
    rw [if_pos h0, poolName, if_neg (by omega)] at hn
    cases hn
  unfold checkEntry
  rw [if_neg hname, if_neg (not_not.mpr h.size), if_neg (by
      rintro (hx | hx)
      · have := h.align.1
        omega
      · exact hx h.align.2), if_neg (by
      have := h.cls
      omega), if_neg (not_not.mpr h.flags)]

theorem entryOf_pack {data symtabBytes : Bytes} {symtSize i off : Nat}
    (h : off + sectionEntrySize ≤ data.length) :
    (entryOf data symtabBytes symtSize i off).pack = slice data off sectionEntrySize := by
  unfold sectionEntrySize at h ⊢
  unfold ImageSection.pack entryOf
  dsimp only
  rw [leBytes_word (by omega), leBytes_word (by omega), leBytes_word (by omega),
    leBytes_word (by omega), leBytes_word (by omega), leBytes_word (by omega), slice_append,
    slice_append data off _ 4, slice_append data off _ 4, slice_append data off _ 4,
    slice_append data off _ 4]

/-- A table whose entries pass the tests is parsed to its end. -/
theorem parseEntries_ok {data symtabBytes : Bytes} {symtSize sectabOff : Nat} (n : Nat) {i : Nat}
    (h : sectabOff + (i + n) * sectionEntrySize ≤ data.length)
    (he : ∀ e ∈ tableFrom data symtabBytes symtSize sectabOff n i, EntryOk symtSize e) :
    parseEntries data symtabBytes symtSize sectabOff true n i =
      .ok (tableFrom data symtabBytes symtSize sectabOff n i,
        slice data (sectabOff + i * sectionEntrySize) (n * sectionEntrySize)) := by
  induction n generalizing i with
  | zero => rw [Nat.zero_mul]; simp [parseEntries, tableFrom, slice]
  | succ n ih =>
    unfold sectionEntrySize at h
    have hnext := @ih (i + 1) (by unfold sectionEntrySize; omega)
      fun e hmem => he e (List.mem_cons_of_mem _ hmem)
    unfold parseEntries
    dsimp only
    rw [if_neg (by unfold sectionEntrySize; omega), validating, if_pos rfl,
      checkEntry_ok (he _ List.mem_cons_self), ok_bind, hnext, ok_bind]
    dsimp only
    rw [entryOf_pack (by unfold sectionEntrySize; omega), show sectabOff + (i + 1) *
      sectionEntrySize = sectabOff + i * sectionEntrySize + sectionEntrySize by
        unfold sectionEntrySize; omega, slice_append, show sectionEntrySize + n * sectionEntrySize =
      (n + 1) * sectionEntrySize by unfold sectionEntrySize; omega]
    rfl

theorem checkOrder_ok {l : List ImageSection}
    (h : l.IsChain fun prev cur => prev.va + prev.size ≤ cur.va) : checkOrder l = .ok () := by
  induction l with
  | nil => rfl
  | cons prev l ih =>
    cases l with
    | nil => rfl
    | cons cur rest =>
      obtain ⟨hle, hrest⟩ := List.isChain_cons_cons.mp h
      unfold checkOrder
      rw [if_neg (by omega)]
      exact ih hrest

/-! ## Payloads -/

theorem payloadSize_append (pre ss : List ImageSection) :
    payloadSize (pre ++ ss) = payloadSize pre + payloadSize ss := by
  induction pre with
  | nil => rw [List.nil_append, payloadSize, Nat.zero_add]
  | cons s pre ih => rw [List.cons_append, payloadSize, payloadSize, ih, Nat.add_assoc]

/-- The sections are numbered in order. -/
def Numbered (ss : List ImageSection) : Prop := ss.Pairwise fun a b => a.index < b.index

theorem tableFrom_numbered {data symtabBytes : Bytes} {symtSize sectabOff : Nat} (n i : Nat) :
    Numbered (tableFrom data symtabBytes symtSize sectabOff n i) ∧
      ∀ e ∈ tableFrom data symtabBytes symtSize sectabOff n i, i ≤ e.index := by
  induction n generalizing i with
  | zero =>
    refine ⟨List.Pairwise.nil, fun e he => ?_⟩
    cases he
  | succ n ih =>
    obtain ⟨hn, hle⟩ := ih (i + 1)
    refine ⟨List.Pairwise.cons (fun e he => hle e he) hn, fun e he => ?_⟩
    rcases List.mem_cons.mp he with rfl | he
    · exact Nat.le_refl i
    · exact Nat.le_trans (Nat.le_succ i) (hle e he)

theorem sectionsOf_numbered (b : Bytes) : Numbered (sectionsOf b) := by
  unfold sectionsOf
  dsimp only
  split
  · exact (tableFrom_numbered _ 0).1
  · unfold synthesizedSections Numbered
    simp

theorem payloadOffsetLoop_append {idx : Nat} {s : ImageSection} {ss : List ImageSection}
    (hs : s.index = idx) (pre : List ImageSection) (hpre : ∀ x ∈ pre, x.index < idx) (off : Nat) :
    ModuleImage.payloadOffsetLoop idx (pre ++ s :: ss) off = off + payloadSize pre := by
  induction pre generalizing off with
  | nil =>
    rw [List.nil_append, ModuleImage.payloadOffsetLoop, if_pos (by omega), payloadSize,
      Nat.add_zero]
  | cons x pre ih =>
    have hx := hpre x List.mem_cons_self
    rw [List.cons_append, ModuleImage.payloadOffsetLoop, if_neg (by omega),
      ih (fun y hy => hpre y (List.mem_cons_of_mem _ hy)), payloadSize]
    split <;> omega

theorem payloadImageOffset_eq {img : ModuleImage} (hn : Numbered img.sections)
    {pre ss : List ImageSection} {s : ImageSection} (h : img.sections = pre ++ s :: ss) :
    img.payloadImageOffset s.index = img.codeOffset + payloadSize pre := by
  rw [h] at hn
  unfold ModuleImage.payloadImageOffset
  rw [h]
  exact payloadOffsetLoop_append rfl pre
    (fun x hx => (List.pairwise_append.mp hn).2.2 x hx s List.mem_cons_self) _

/-- A payload extends the part that is already right. -/
theorem splice_payload {b : Bytes} {off n : Nat} (h : off + n ≤ b.length) :
    ModuleImage.splice (b.take off ++ List.replicate (b.length - off) 0) off (slice b off n) =
      b.take (off + n) ++ List.replicate (b.length - (off + n)) 0 := by
  have hl : (b.take off).length = off := by rw [List.length_take, Nat.min_eq_left (by omega)]
  unfold ModuleImage.splice
  rw [length_slice h, List.take_append_of_le_length (by omega),
    List.take_of_length_le (by omega), take_append_slice, List.drop_append,
    List.drop_eq_nil_of_le (by omega), hl, List.nil_append, List.drop_replicate,
    show b.length - off - (off + n - off) = b.length - (off + n) by omega]

/-- The loop fills in the payloads one after the other. -/
theorem placePayloads_ok {img : ModuleImage} {b : Bytes} (hn : Numbered img.sections)
    (hlen : b.length = img.codeOffset + payloadSize img.sections) (ss : List ImageSection)
    {pre : List ImageSection} (h : img.sections = pre ++ ss) {off : Nat}
    (hoff : off = img.codeOffset + payloadSize pre) :
    img.placePayloads (ss.zip (parsePayloads b ss off))
      (b.take off ++ List.replicate (b.length - off) 0) = b := by
  induction ss generalizing pre off with
  | nil =>
    rw [List.append_nil] at h
    rw [h] at hlen
    rw [List.take_of_length_le (by omega), show b.length - off = 0 by omega]
    exact List.append_nil b
  | cons s ss ih =>
    have hsucc : img.sections = (pre ++ [s]) ++ ss := by rw [h, List.append_assoc]; rfl
    have hpre : payloadSize (pre ++ [s]) =
        payloadSize pre + if s.containsPayload then s.size else 0 := by
      rw [payloadSize_append, payloadSize, payloadSize, Nat.add_zero]
    have htotal : payloadSize img.sections = payloadSize (pre ++ [s]) + payloadSize ss := by
      rw [hsucc, payloadSize_append]
    unfold parsePayloads
    by_cases hb : s.isBss = true
    · have hno : s.containsPayload = false := by rw [ImageSection.containsPayload, hb]; rfl
      rw [if_pos hb, List.zip_cons_cons, ModuleImage.placePayloads, if_neg (by simp [hno])]
      refine ih hsucc ?_
      rw [hpre, hno, hoff]
      simp
    · have hyes : s.containsPayload = true := by
        rw [ImageSection.containsPayload]
        simpa using hb
      rw [hyes, if_pos rfl] at hpre
      rw [if_neg hb, List.zip_cons_cons, ModuleImage.placePayloads, if_pos hyes,
        payloadImageOffset_eq hn h, ← hoff, splice_payload (by omega)]
      exact ih hsucc (by omega)

/-! ## The image -/

section

variable {b : Bytes}

theorem align4_eq (n : Nat) : align4 n = (n + 3) / 4 * 4 := rfl

/-- The metadata is in the image. -/
theorem Readable.metadata (h : Readable b) :
    (ModuleHeader.ofBytes b).symtabOffset + (ModuleHeader.ofBytes b).symtSize ≤
        (ModuleHeader.ofBytes b).sectabOffset ∧
      (ModuleHeader.ofBytes b).codeOffset =
        (ModuleHeader.ofBytes b).sectabOffset + (ModuleHeader.ofBytes b).sectabSize ∧
      (ModuleHeader.ofBytes b).codeOffset ≤ b.length := by
  have hlen := h.present
  unfold ModuleHeader.codeOffset ModuleHeader.sectabOffset ModuleHeader.sectabSize at *
  rw [align4_eq, align4_eq] at *
  omega

theorem Readable.checkHeader_ok (h : Readable b)
    (hsize : (ModuleHeader.ofBytes b).headerSize = headerSizeBytes) :
    checkHeader (ModuleHeader.ofBytes b) = .ok () := by
  unfold checkHeader
  rw [if_neg (not_not.mpr h.signature), if_neg (not_not.mpr hsize),
    if_neg (not_not.mpr h.flags), if_neg fun hx => hx.2 (h.counted hx.1),
    if_neg fun hx => hx.2 (h.uncounted hx.1), if_neg fun hx => by
      have := h.version hx.1
      omega]

theorem Readable.symtab_length (h : Readable b) :
    (symtabOf b).length = (ModuleHeader.ofBytes b).symtSize := by
  obtain ⟨h1, h2, h3⟩ := h.metadata
  exact length_slice (by omega)

theorem Readable.parseSections_ok (h : Readable b) :
    ∃ sectab, parseSections b (ModuleHeader.ofBytes b) (symtabOf b) true =
        .ok (sectionsOf b, sectab) ∧
      sectab = slice b (ModuleHeader.ofBytes b).sectabOffset (ModuleHeader.ofBytes b).sectabSize := by
  obtain ⟨-, hcode, hlen⟩ := h.metadata
  unfold parseSections
  by_cases hs : (ModuleHeader.ofBytes b).hasSections = true
  · have hentries := h.entries hs
    have horder := h.order hs
    have hsec : sectionsOf b = tableFrom b (symtabOf b) (ModuleHeader.ofBytes b).symtSize
        (ModuleHeader.ofBytes b).sectabOffset (ModuleHeader.ofBytes b).numSections 0 := by
      unfold sectionsOf
      rw [if_pos hs]
    have hfit : (ModuleHeader.ofBytes b).sectabOffset +
        (ModuleHeader.ofBytes b).numSections * sectionEntrySize ≤ b.length := by
      unfold ModuleHeader.sectabSize at hcode
      unfold sectionEntrySize
      omega
    rw [hsec] at hentries horder ⊢
    unfold parseSectionTable
    rw [if_pos hs, if_neg (by rintro ⟨-, hx⟩; omega),
      parseEntries_ok _ (by rwa [Nat.zero_add]) hentries, ok_bind, validating, if_pos rfl,
      checkOrder_ok horder, ok_bind, Nat.zero_mul]
    exact ⟨_, rfl, rfl⟩
  · have hn : (ModuleHeader.ofBytes b).numSections = 0 := h.uncounted (by simpa using hs)
    rw [if_neg hs]
    unfold sectionsOf ModuleHeader.sectabSize
    rw [if_neg hs, hn]
    exact ⟨[], rfl, rfl⟩

/-- Zeros up to an offset. -/
theorem padTo_take {n k : Nat} (hn : n ≤ k) (hk : k ≤ b.length)
    (hz : ∀ i, n ≤ i → i < k → b[i]? = some 0) : ModuleImage.padTo (b.take n) k = b.take k := by
  have hl : (b.take n).length = n := by rw [List.length_take, Nat.min_eq_left (by omega)]
  have hzero : slice b n (k - n) = List.replicate (k - n) 0 := by
    apply List.ext_getElem?
    intro i
    by_cases hi : i < k - n
    · rw [getElem?_slice b hi, hz _ (by omega) (by omega), List.getElem?_replicate, if_pos hi]
    · rw [List.getElem?_eq_none (by rw [length_slice (by omega)]; omega),
        List.getElem?_eq_none (by rw [List.length_replicate]; omega)]
  unfold ModuleImage.padTo
  rw [hl, ← hzero, take_append_slice, show n + (k - n) = k by omega]

/-- Header, relocations and symbols in front of the section table. -/
theorem Readable.front (h : Readable b)
    (hsize : (ModuleHeader.ofBytes b).headerSize = headerSizeBytes) {rels : List Relocation}
    (hr : (rels.map Relocation.pack).flatten = slice b (ModuleHeader.ofBytes b).relocsOffset
      ((ModuleHeader.ofBytes b).numRels * 8)) :
    (ModuleHeader.ofBytes b).pack ++ (rels.map Relocation.pack).flatten ++ symtabOf b =
      b.take ((ModuleHeader.ofBytes b).symtabOffset + (ModuleHeader.ofBytes b).symtSize) := by
  have hrel : (ModuleHeader.ofBytes b).relocsOffset = headerSizeBytes := hsize
  have hsym : (ModuleHeader.ofBytes b).symtabOffset =
      headerSizeBytes + (ModuleHeader.ofBytes b).numRels * 8 := by
    unfold ModuleHeader.symtabOffset ModuleHeader.relocsSize
    rw [hrel]
    omega
  unfold symtabOf
  rw [ofBytes_pack h.header, hr, hrel, take_append_slice, hsym, take_append_slice]

/-- All metadata, written out in the two ways `to_bytes` pads it. -/
theorem WellFormed.metadata_bytes (h : WellFormed b) {sectab : Bytes}
    (hs : sectab = slice b (ModuleHeader.ofBytes b).sectabOffset
      (ModuleHeader.ofBytes b).sectabSize) :
    ModuleImage.padTo (ModuleImage.padTo (b.take ((ModuleHeader.ofBytes b).symtabOffset +
        (ModuleHeader.ofBytes b).symtSize))
      (if (ModuleHeader.ofBytes b).hasSections then (ModuleHeader.ofBytes b).sectabOffset else 0) ++
        sectab) (ModuleHeader.ofBytes b).codeOffset =
      b.take (ModuleHeader.ofBytes b).codeOffset := by
  obtain ⟨hle, hcode, hlen⟩ := h.metadata
  subst hs
  by_cases ht : (ModuleHeader.ofBytes b).hasSections = true
  · rw [if_pos ht, padTo_take hle (by omega) h.padding, take_append_slice, ← hcode]
    exact padTo_take (Nat.le_refl _) hlen fun i hi hi' => by omega
  · have hn : (ModuleHeader.ofBytes b).numSections = 0 := h.uncounted (by simpa using ht)
    have h0 : (ModuleHeader.ofBytes b).sectabSize = 0 := by
      unfold ModuleHeader.sectabSize
      rw [hn]
    have hnone : ModuleImage.padTo (b.take ((ModuleHeader.ofBytes b).symtabOffset +
        (ModuleHeader.ofBytes b).symtSize)) 0 = b.take ((ModuleHeader.ofBytes b).symtabOffset +
          (ModuleHeader.ofBytes b).symtSize) := by
      unfold ModuleImage.padTo
      rw [Nat.zero_sub]
      exact List.append_nil _
    rw [if_neg ht, hnone, h0, show slice b (ModuleHeader.ofBytes b).sectabOffset 0 = [] by
      unfold slice; exact List.take_zero, List.append_nil]
    exact padTo_take (by omega) hlen fun i hi hi' => h.padding i hi (by omega)

/-- The image with the parts that follow from the bytes. -/
def imageOf (b : Bytes) (rels : List Relocation) (symbols : List Symbol) (sectab : Bytes) :
    ModuleImage where
  header := ModuleHeader.ofBytes b
  relocations := rels
  symbols
  code := (parsePayloads b (sectionsOf b) (ModuleHeader.ofBytes b).codeOffset).getD 0 []
  data := (parsePayloads b (sectionsOf b) (ModuleHeader.ofBytes b).codeOffset).getD 1 []
  relocsOffset := (ModuleHeader.ofBytes b).relocsOffset
  symtabOffset := (ModuleHeader.ofBytes b).symtabOffset
  codeOffset := (ModuleHeader.ofBytes b).codeOffset
  dataOffset := (ModuleHeader.ofBytes b).codeOffset + (ModuleHeader.ofBytes b).codeSize
  sections := sectionsOf b
  payloads := parsePayloads b (sectionsOf b) (ModuleHeader.ofBytes b).codeOffset
  sectabOffset := if (ModuleHeader.ofBytes b).hasSections then
    (ModuleHeader.ofBytes b).sectabOffset else 0
  symtabBytes := symtabOf b
  sectabBytes := sectab

/-- Of what can fail only the length of the payloads is left. -/
theorem Readable.parsed (h : Readable b)
    (hsize : (ModuleHeader.ofBytes b).headerSize = headerSizeBytes) :
    ∃ rels symbols sectab, parseModule b true =
        (checkLength ((ModuleHeader.ofBytes b).codeOffset + payloadSize (sectionsOf b)) b.length >>=
          fun _ => .ok (imageOf b rels symbols sectab)) ∧
      (rels.map Relocation.pack).flatten = slice b (ModuleHeader.ofBytes b).relocsOffset
        ((ModuleHeader.ofBytes b).numRels * 8) ∧
      sectab = slice b (ModuleHeader.ofBytes b).sectabOffset
        (ModuleHeader.ofBytes b).sectabSize := by
  obtain ⟨hle, hcode, hlen⟩ := h.metadata
  obtain ⟨rels, hrels, hrelBytes⟩ := @parseRelocations_ok b (ModuleHeader.ofBytes b).relocsOffset
    (ModuleHeader.ofBytes b).numRels 0 (by
      unfold ModuleHeader.symtabOffset ModuleHeader.relocsSize at hle
      omega)
  rw [Nat.zero_mul, Nat.add_zero] at hrelBytes
  obtain ⟨numEntries, hcount⟩ := symbolCount_ok h.symtab_length
  obtain ⟨symbols, hsyms⟩ := parseSymbols_ok h.symtab_length numEntries 0
  obtain ⟨sectab, hsections, hsectab⟩ := h.parseSections_ok
  refine ⟨rels, symbols, sectab, ?_, hrelBytes, hsectab⟩
  have hshort : checkHeaderLength b.length = .ok () := if_neg (Nat.not_lt.mpr h.header)
  have hunpack : ModuleHeader.unpack b = .ok (ModuleHeader.ofBytes b) :=
    if_neg (Nat.not_lt.mpr h.header)
  have hneed : ∀ need, need ≤ b.length → validating true (checkLength need b.length) = .ok () :=
    fun need hle => if_neg (Nat.not_lt.mpr hle)
  have hheader : validating true (checkHeader (ModuleHeader.ofBytes b)) = .ok () :=
    h.checkHeader_ok hsize
  unfold parseModule
  rw [hshort, ok_bind, hunpack, ok_bind, hheader, ok_bind, hneed _ (by omega), ok_bind, hrels,
    ok_bind]
  dsimp only
  rw [show slice b (ModuleHeader.ofBytes b).symtabOffset (ModuleHeader.ofBytes b).symtSize =
    symtabOf b from rfl, hcount, ok_bind, hsyms, ok_bind, hsections, ok_bind]
  rfl

/-- What the parser makes of an image, written out, is the image. -/
theorem WellFormed.roundTrip (h : WellFormed b)
    (hsize : (ModuleHeader.ofBytes b).headerSize = headerSizeBytes) :
    ∃ img, parseModule b true = .ok img ∧ img.toBytes = b := by
  obtain ⟨-, -, hlen⟩ := h.metadata
  obtain ⟨rels, symbols, sectab, hp, hrels, hsectab⟩ := h.parsed hsize
  rw [checkLength, if_neg (Nat.not_lt.mpr (Nat.le_of_eq h.exact.symm)), ok_bind] at hp
  refine ⟨_, hp, ?_⟩
  have hsize' : (imageOf b rels symbols sectab).imageSize = b.length := h.exact.symm
  unfold ModuleImage.toBytes
  rw [hsize']
  unfold imageOf
  dsimp only
  rw [h.front hsize hrels, h.metadata_bytes hsectab, List.drop_replicate, List.length_take,
    Nat.min_eq_left hlen]
  have hnil : sectionsOf b = [] ++ sectionsOf b := rfl
  exact placePayloads_ok (sectionsOf_numbered b) h.exact (sectionsOf b) hnil rfl

/-- Parsing and writing are inverse on well-formed images with a 32-byte header, and what
was written is parsed to the same image. -/
theorem parse_toBytes (h : WellFormed b)
    (hsize : (ModuleHeader.ofBytes b).headerSize = headerSizeBytes) :
    ∃ img, parseModule b true = .ok img ∧ img.toBytes = b ∧
      parseModule img.toBytes true = .ok img := by
  obtain ⟨img, hp, hb⟩ := h.roundTrip hsize
  refine ⟨img, hp, hb, ?_⟩
  rw [hb]
  exact hp

end

/-! ## An image with all its parts -/

instance (symtSize : Nat) (e : ImageSection) : Decidable (EntryOk symtSize e) :=
  decidable_of_iff ((e.nameOff ≠ 0 → e.nameOff < symtSize) ∧ e.size % 4 = 0 ∧
      (4 ≤ e.align ∧ (e.align &&& (e.align - 1)) = 0) ∧ e.cls ≤ secClassBss ∧
      (e.flags &&& secFlagReservedMask) = 0)
    ⟨fun ⟨h1, h2, h3, h4, h5⟩ => ⟨h1, h2, h3, h4, h5⟩,
      fun h => ⟨h.name, h.size, h.align, h.cls, h.flags⟩⟩

/-- Module `m` with an exported function `f`, a relocation against it, and a data section `x`
behind the three main ones. -/
def exportImage : Bytes :=
  [0x4D4C4455, 0x03010000, 0x00010000, 0x00090001, 26, 8, 4, 4].flatMap (leBytes 4) ++
    [0, 1].flatMap (leBytes 4) ++
    [2, 0x18000014, 0, 0x48000016, 0].flatMap (leBytes 4) ++ [0x6D, 0, 0x66, 0, 0x78, 0] ++ [0, 0] ++
    [0, 0, 8, 4, 0, 0x80000000, 0, 8, 4, 4, 1, 0x80000000, 0, 12, 4, 4, 2, 0x80000000,
      24, 16, 8, 16, 1, 0].flatMap (leBytes 4) ++
    [0x47704770, 0xBF00BF00, 16, 0xAABBCCDD, 0x11223344].flatMap (leBytes 4)

theorem exportImage_wellFormed : WellFormed exportImage where
  header := by decide +kernel
  signature := by decide +kernel
  flags := by decide +kernel
  counted := by decide +kernel
  uncounted := by decide +kernel
  version := by decide +kernel
  entries := by decide +kernel
  order := by decide +kernel
  present := by decide +kernel
  exact := by decide +kernel
  padding i hi hi' := by
    have hoff : (ModuleHeader.ofBytes exportImage).symtabOffset +
        (ModuleHeader.ofBytes exportImage).symtSize = 66 ∧
        (ModuleHeader.ofBytes exportImage).sectabOffset = 68 := by decide +kernel
    rw [hoff.1] at hi
    rw [hoff.2] at hi'
    obtain rfl | rfl : i = 66 ∨ i = 67 := by omega
    · decide +kernel
    · decide +kernel

theorem parse_toBytes_export : ∃ img, parseModule exportImage true = .ok img ∧
    img.toBytes = exportImage ∧ parseModule img.toBytes true = .ok img :=
  parse_toBytes exportImage_wellFormed (by decide +kernel)

/-! ## Header versions -/

/-- An image of version 2.0, with the 36-byte header and an empty symbol table. -/
def version20Image : Bytes :=
  [0x4D4C4455, 0x02000000, 0, 0, 4, 0, 0, 0, 0, 0].flatMap (leBytes 4)

theorem version20_wellFormed : WellFormed version20Image where
  header := by decide +kernel
  signature := by decide +kernel
  flags := by decide +kernel
  counted := by decide +kernel
  uncounted := by decide +kernel
  version := by decide +kernel
  entries := by decide +kernel
  order := by decide +kernel
  present := by decide +kernel
  exact := by decide +kernel
  padding i hi hi' := by
    have hoff : (ModuleHeader.ofBytes version20Image).symtabOffset +
        (ModuleHeader.ofBytes version20Image).symtSize =
          (ModuleHeader.ofBytes version20Image).sectabOffset := by decide +kernel
    omega

/-- The parser refuses the 36-byte header of version 2.0. -/
theorem parse_version20 : ¬ ∀ b, WellFormed b → ∃ img, parseModule b true = .ok img ∧
    img.toBytes = b ∧ parseModule img.toBytes true = .ok img := by
  intro h
  obtain ⟨img, hp, -⟩ := h version20Image version20_wellFormed
  have herr : parseModule version20Image true = .error (.unsupportedHeaderSize 36) := by
    decide +kernel
  rw [herr] at hp
  cases hp

end Udynlink.Parser
