import Udynlink.Parser.SameLookups
import Udynlink.Parser.SimulatedPayloads

/-!
# A simulated load and a load

The simulation reads the same tables as the loader and starts with the same payloads,
so where it has a value for every relocation it ends with the bytes that a load leaves
in RAM.
-/

namespace Udynlink.Parser

open Machine

/-! ## The tables of the parser -/

section

variable {m : Mem} {p : Addr} {data symtab : Bytes} {i n off size : Nat}

theorem parseRelocations_at {rels : List Relocation} (hb : HasBytes m p data)
    (h : parseRelocations data off n i = .ok rels) :
    List.Forall₂ (fun r k => r.lotOffset = (m.u32 (p + UInt32.ofNat (off + k * 8))).toNat ∧
      r.value = (m.u32 (p + UInt32.ofNat (off + k * 8 + 4))).toNat) rels (List.range' i n) := by
  induction n generalizing i rels with
  | zero =>
    cases h
    exact List.Forall₂.nil
  | succ n ih =>
    simp only [parseRelocations, except_bind_ok] at h
    obtain ⟨lot, hlot, value, hvalue, rest, hrest, hcons⟩ := h
    obtain ⟨hle, rfl⟩ := unpackU32_eq hlot
    obtain ⟨hle', rfl⟩ := unpackU32_eq hvalue
    rw [Except.ok.injEq] at hcons
    rw [← hcons, List.range'_succ]
    exact List.Forall₂.cons ⟨hb.word4 hle, hb.word4 hle'⟩ (ih hrest)

theorem parseSymbols_at {symbols : List Symbol} {k : Nat} {ps : Symbol}
    (h : parseSymbols symtab size n i = .ok symbols) (hk : symbols[k]? = some ps) :
    4 + (i + k) * 8 + 8 ≤ symtab.length ∧ ps = symbolOf symtab size (i + k)
      (word symtab (4 + (i + k) * 8) 4) (word symtab (4 + (i + k) * 8 + 4) 4) := by
  induction n generalizing i k symbols with
  | zero =>
    cases h
    simp at hk
  | succ n ih =>
    rw [parseSymbols] at h
    split at h
    next =>
      cases h
      simp at hk
    next =>
      simp only [except_bind_ok] at h
      obtain ⟨raw, hraw, val, hval, rest, hrest, hcons⟩ := h
      obtain ⟨-, rfl⟩ := unpackU32_eq hraw
      obtain ⟨hle, rfl⟩ := unpackU32_eq hval
      rw [Except.ok.injEq] at hcons
      rw [← hcons] at hk
      cases k with
      | zero =>
        rw [List.getElem?_cons_zero, Option.some.injEq] at hk
        exact ⟨by omega, hk.symm⟩
      | succ k =>
        rw [List.getElem?_cons_succ] at hk
        have hnext := ih hrest hk
        rwa [show i + 1 + k = i + (k + 1) by omega] at hnext

end

/-- The symbols are of the types that the loader knows, and the names end in the table. -/
structure ModuleImage.SymbolsOk (img : ModuleImage) : Prop where
  known : ∀ s ∈ img.symbols, s.type ≤ symTypeWeak
  terminated : ∀ s ∈ img.symbols, s.type ≠ symTypeInternal →
    0 ∈ img.symtabBytes.drop (s.nameOffRaw &&& 0x07FFFFFF)

section

variable {m : Mem} {p : Addr} {symtab : Bytes}

/-- A name in the table, as the loader reads it. -/
theorem cstr_symtab {off : Nat} (hb : HasBytes m p symtab) (hlen : symtab.length < 2 ^ 32)
    (h0 : 0 ∈ symtab.drop off) : (readCString (p + UInt32.ofNat off)).run m =
      (symtab.drop off).takeWhile (· ≠ 0) := by
  have hdrop : symtab.drop off = (List.range (symtab.length - off)).map fun i =>
      m (p + UInt32.ofNat off + UInt32.ofNat i) := by
    have hle : off + (symtab.length - off) ≤ symtab.length := by
      by_contra hlt
      rw [List.drop_eq_nil_of_le (by omega)] at h0
      exact List.not_mem_nil h0
    have hall : slice symtab off (symtab.length - off) = _ := hb.slice hle
    rw [slice, List.take_of_length_le (by rw [List.length_drop])] at hall
    rw [hall]
    exact List.map_congr_left fun i _ => by rw [off_off]
  have hz : (Reader.memchr0 (symtab.length - off) (p + UInt32.ofNat off)).run m = true := by
    rw [hdrop, List.mem_map] at h0
    obtain ⟨i, hi, hzero⟩ := h0
    exact Reader.memchr0_iff.mpr ⟨i, List.mem_range.mp hi, hzero⟩
  rw [readCString, cstr_takeWhile hz (by omega), hdrop]

end

section

variable {host : Host} {img : ModuleImage} {src : RelocSource} {m : Mem} {h : Header}
  {Q : Addr → Prop} {f : Str → Nat} {n : Nat}

/-- The tables agree on the symbols, and on their names for as long as the table stays. -/
theorem sameAnswers (hb : HasBytes m src.pSymtab img.symtabBytes)
    (hlen : img.symtabBytes.length = h.symtSize.toNat) (hh : decodeHeader m src.pHeader = h)
    (hsize : img.header.symtSize = h.symtSize.toNat)
    (hsyms : parseSymbols img.symtabBytes img.header.symtSize n 0 = .ok img.symbols)
    (hok : img.SymbolsOk) (hQ : ∀ a, a ∈ (⟨src.pSymtab, h.symtSize.toNat⟩ : Span) → Q a)
    (hans : ∀ w name, (host.resolve w name).toNat = f (decodeUtf8 name)) :
    SameAnswers host img src m Q f := by
  have hlt := h.symtSize.toNat_lt
  -- entry `i` in both
  have hentry : ∀ {i : UInt32} {cs : Sym} {ps : Symbol}, isBaseRelocation i = false →
      relocSym src m i = some cs → img.symbols[i.toNat]? = some ps →
      ∃ info : UInt32, ps.nameOffRaw = info.toNat ∧ ps.type = (symTypeOf info).toNat ∧
        SameSym ps cs ∧ (ps.type ≠ symTypeInternal →
          ps.name = some (decodeUtf8
            ((img.symtabBytes.drop (info.toNat &&& 0x07FFFFFF)).takeWhile (· ≠ 0))) ∧
          cs.name = .pool (src.pSymtab + UInt32.ofNat (info.toNat &&& 0x07FFFFFF))) := by
    intro i cs ps hbase hcs hps
    let t : SymTable := ⟨m, src.pSymtab, h.symtSize⟩
    have hraw : (getSymAtRaw t.base (UInt32.ofNat i.toNat) t.size).run t.mem = some cs := by
      rw [relocSym, hh] at hcs
      rw [UInt32.ofNat_toNat]
      exact hcs
    have hi := isBaseRelocation_eq_false hbase
    obtain ⟨-, hcs', -⟩ := SymTable.getSymAtRaw_some hi hraw
    obtain ⟨hle, hps'⟩ := parseSymbols_at hsyms hps
    rw [Nat.zero_add] at hle hps'
    have hmem : ps ∈ img.symbols := List.mem_of_getElem? hps
    have hinfo : word img.symtabBytes (4 + i.toNat * 8) 4 = (t.info i.toNat).toNat := by
      have hw : word img.symtabBytes (4 + i.toNat * 8) 4 = _ := hb.word4 (by omega)
      rw [hw, SymTable.info, symtWord, mul_four_ofNat, toNat_ofNat_of_lt (by omega),
        show 4 * (i.toNat * 2 + 1) = 4 + i.toNat * 8 by omega]
      rfl
    have hval : word img.symtabBytes (4 + i.toNat * 8 + 4) 4 = (t.val i.toNat).toNat := by
      have hw : word img.symtabBytes (4 + i.toNat * 8 + 4) 4 = _ := hb.word4 (by omega)
      rw [hw, SymTable.val, symtWord, mul_four_ofNat, toNat_ofNat_of_lt (by omega),
        show 4 * (i.toNat * 2 + 2) = 4 + i.toNat * 8 + 4 by omega]
      rfl
    have hrawOff : ps.nameOffRaw = (t.info i.toNat).toNat := by rw [hps', ← hinfo]; rfl
    have htype : ps.type = (symTypeOf (t.info i.toNat)).toNat := by
      rw [symTypeOf_toNat, ← hinfo, hps']
      rfl
    have hknown := hok.known ps hmem
    refine ⟨t.info i.toNat, hrawOff, htype, ⟨?_, hknown, ?_⟩, fun hne => ⟨?_, ?_⟩⟩
    · rw [htype, hcs']
      rfl
    · rw [hcs', SymTable.entry]
      dsimp only
      rw [← hval, hps']
      rfl
    · have hterm := hok.terminated ps hmem hne
      have hin : (t.info i.toNat).toNat &&& 0x07FFFFFF < img.symtabBytes.length := by
        by_contra hge
        rw [hrawOff, List.drop_eq_nil_of_le (by omega)] at hterm
        exact List.not_mem_nil hterm
      have hmark : (t.info i.toNat).toNat ≠ 0xFFFFFFFF := fun hx => by
        rw [symTypeOf_toNat, hx] at htype
        rw [htype] at hknown
        exact absurd hknown (by decide)
      have hname : ps.name = if ps.type = symTypeInternal ∨ (t.info i.toNat).toNat = 0xFFFFFFFF
          then none
          else poolName img.symtabBytes ((t.info i.toNat).toNat &&& 0x07FFFFFF)
            img.header.symtSize := by
        rw [hps', ← hinfo]
        rfl
      rw [hname, if_neg (by rintro (hx | hx); exacts [hne hx, hmark hx]), poolName,
        if_neg (by omega)]
    · have hnamed : t.Named i.toNat := fun hx => hne (by rw [htype, hx]; rfl)
      have hoff : t.nameOff i.toNat =
          UInt32.ofNat ((t.info i.toNat).toNat &&& 0x07FFFFFF) := by
        rw [SymTable.nameOff, ← UInt32.ofNat_toNat (x := t.info i.toNat &&& symOffsetMask),
          UInt32.toNat_and]
        rfl
      rw [hcs', SymTable.entry]
      dsimp only
      rw [if_pos hnamed, hoff]
  refine ⟨fun hbase hcs hps => ?_, fun {i cs ps} hbase hcs hps htype w m' hag => ?_⟩
  · obtain ⟨info, -, -, hsame, -⟩ := hentry hbase hcs hps
    exact hsame
  · obtain ⟨info, hraw, -, hsame, hnames⟩ := hentry hbase hcs hps
    have hne : ps.type ≠ symTypeInternal := fun hx => by
      rw [hsame.type] at hx
      rcases htype with ht | ht
      · rw [ht] at hx
        exact absurd hx (by decide)
      · rw [ht] at hx
        exact absurd hx (by decide)
    obtain ⟨hps', hcs'⟩ := hnames hne
    have hb' : HasBytes m' src.pSymtab img.symtabBytes := by
      intro k hk
      rw [hb k hk, hag _ (hQ _ (off_mem (by omega) (by omega)))]
    have hterm := hok.terminated ps (List.mem_of_getElem? hps) hne
    rw [hraw] at hterm
    rw [hans, hps', Option.getD_some, hcs', readSymName, cstr_symtab hb' (by omega) hterm]

end

/-! ## The load -/

/-- What a load of an image with a table does to memory: payloads, then patches. -/
structure WalkedLoad (host : Host) (image : Image) (mode : LoadMode) (tab : SectView) (h : Header)
    (es : Nat → SectEntry) (p : Addr) (w w2 w3 w₁ : State) (secs : Nat → Addr)
    (names : Nat → Option (List UInt8)) (ans : Nat → UInt32) : Prop where
  place : SectionedPlaced image mode tab h es p secs names w2 w3
  same : ∀ s ∈ sectionedSource image h tab.num es, AgreeOn s w.mem w2.mem
  ne_zero : 3 < tab.num → p ≠ 0
  entries : ∀ k, k < h.numRels.toNat → Udynlink.EntryOk host
    (SectionedFixed h tab.num es mode secs p) w3.handle tab (decide (tab.num > 0))
    image.relocSource w3.mem (Patch.applyAll (relocPatches ans w3.handle tab (decide (tab.num > 0))
      image.relocSource w3.mem 0 k) w3.mem) k (ans k)
  mem : w₁.mem = Patch.applyAll (relocPatches ans w3.handle tab (decide (tab.num > 0))
    image.relocSource w3.mem 0 h.numRels.toNat) w3.mem
  bases : ∀ j, 3 ≤ j → j < tab.num → (es j).size ≠ 0 → w₁.mem.u32 (baseWord h p j) = secs j

section

variable {host : Host} {image : Image} {mode : LoadMode} {loadAddr : Addr} {loadSize : UInt32}
  {w w₁ : State} {evs : List (Event HostEvent)} {tab : SectView} {ramSize ramAddr : UInt32}
  {w1 w2 w3 w4 : State} {h : Header} {es : Nat → SectEntry}

theorem walkedLoad_of_stages
    (hs : LoadStages host image loadAddr loadSize mode w w₁ tab ramSize ramAddr w1 w2 w3 w4)
    (hh : decodeHeader w.mem image.pHeader = h) (hes : entriesAt w.mem tab.pEntries = es)
    (hf : SectionedFits h tab.num es mode) (hcont : RelocsContained image tab mode w.mem)
    (he : w.Extends w₁ evs)
    (hfair : FairBlocks (sectionedSource image h tab.num es) loadAddr loadSize (hostEvents evs)) :
    ∃ secs names ans, WalkedLoad host image mode tab h es ramAddr w w2 w3 w₁ secs names ans := by
  have htab := table_of_stages hs hh hf
  have hsize := ramSize_of_stages hs hh hes hf
  have hnum := hf.main
  have hstart := hf.start_le_ram
  have hbases := bases_le_start h tab.num mode
  have hP := placeIn_meta htab hf
  obtain ⟨e2, he2⟩ := Prog.extends_of_run hs.place
  obtain ⟨e3, he3⟩ := Prog.extends_of_run hs.relocate
  obtain ⟨as, hw1⟩ := hs.checked
  obtain ⟨bs, hlast⟩ := hs.finished
  obtain ⟨hblock, hhandle2, hdid2⟩ := provisionRam_ok hs.provision
  rw [hs.callbacks he he2 he3] at hfair
  obtain ⟨hsrcBlock, hgrBlock⟩ := hfair.block hblock
  obtain ⟨hgrPair, hsrcGr⟩ := hfair.granted
  rw [hsize] at hsrcBlock hgrBlock
  rw [List.filterMap_append] at hgrBlock hgrPair hsrcGr
  -- the block
  have hmem1 : w1.mem = w.mem := by rw [hw1, World.log_mem]
  have hhandle1 : w1.handle = startHandle image mode w.handle := by rw [hw1, World.log_handle]
  rw [hmem1, hh] at hdid2
  rw [hhandle1] at hhandle2
  have hsame2 : ∀ s ∈ sectionedSource image h tab.num es, AgreeOn s w.mem w2.mem := by
    intro s hs a ha
    rw [← hmem1]
    refine (hdid2.notMem fun t ht => ?_).symm
    obtain ⟨b, hb, rfl⟩ := List.mem_map.mp ht
    exact (hsrcBlock s hs).mono (Span.subset_refl s) (baseBlits_subset hf hb) a ha
  have hmeta2 : ∀ a, a ∈ metaSpan image h → w.mem a = w2.mem a :=
    hsame2 _ (by simp [sectionedSource])
  have hes2 : ∀ i, i < tab.num → entriesAt w2.mem tab.pEntries i = es i := fun i hi =>
    (hP.entry_run hmeta2 hi).trans (congrFun hes i)
  -- the payloads
  obtain ⟨hgrPlace, -⟩ := List.forall_mem_append.mp hgrBlock
  obtain ⟨secs, names, hp⟩ := sectionedPlaced_of_run htab hf ((hP.header_run hmeta2).trans hh) hes2
    (by rw [hhandle2, provisionHandle_pRam hblock.empty])
    (by rw [hhandle2, provisionHandle_pHeader]; rfl)
    (by rw [hhandle2, provisionHandle_mode, startHandle, Module.mode_setMode]) hsrcBlock he2
    hgrPlace (List.pairwise_append.mp hgrPair).1
    (fun t ht s hs => hsrcGr t ht s (List.mem_append_left _ hs)) hs.place
  -- the relocations
  have hramNe : 3 < tab.num → ramAddr ≠ 0 := fun h3 => by
    refine hblock.ne_zero fun hz => ?_
    rw [hz] at hsize
    have hz0 : (0 : UInt32).toNat = 0 := rfl
    omega
  obtain ⟨-, ans, rs, -, hdid4, hall, hspans4⟩ := hp.placed.relocated hf htab hp.room hp.clear
    hramNe hp.pHeader hcont hh hes hp.header
    (fun s hs a ha => (hsame2 s hs a ha).trans (hp.source s hs a ha)) hs.relocate
  have hat4 := hp.placed.transfer (hp.placed.walkIn hf htab hp.header hp.clear hp.pHeader)
    (by omega) fun a ha => (hdid4.notMem fun s hsp => by
      obtain ⟨hsa, hspan⟩ := hspans4 s hsp
      rw [hspan]
      exact hsa.clear hf hp.room ha).symm
  have hmem4 : w₁.mem = w4.mem := by
    rw [hlast]
    rfl
  refine ⟨secs, names, ans, hp, hsame2, hramNe, hall, hmem4.trans hdid4.mem, ?_⟩
  rw [hmem4]
  exact hat4.bases

end

/-- The tables of an image in one piece. -/
theorem imageFromMemory_tables (base : Addr) (m : Mem) :
    ((udynlinkImageFromMemory base).run m).pRelocations =
        base + getHeaderSize (decodeHeader m base) / 4 * 4 ∧
      ((udynlinkImageFromMemory base).run m).pSymtab =
        ((udynlinkImageFromMemory base).run m).pRelocations +
          (decodeHeader m base).numRels.toUInt32 * 2 * 4 := by
  rw [udynlinkImageFromMemory, Reader.run_bind, readHeader_run]
  dsimp only
  rw [Reader.run_ite]
  split
  · rw [Reader.run_bind]
    generalize (getSectab base false).run m = r
    obtain ⟨res, tab⟩ := r
    dsimp only
    rw [Reader.run_ite]
    split
    · exact ⟨rfl, rfl⟩
    · exact ⟨rfl, rfl⟩
  · exact ⟨rfl, rfl⟩

/-- Where the buffers have the byte of a VA. -/
def RuntimeLayout.byteAt (lay : RuntimeLayout) (ram : Ram) (va : Nat) : Option UInt8 :=
  match lay.image.findSectionByVa va, lay.runtimeAddress va with
  | some sec, some addr =>
    if sec.isMain then ram.main[addr - lay.ramBase]?
    else (ram.blocks sec.index).bind fun bs => bs[addr - (lay.sectionBases sec.index).getD 0]?
  | _, _ => none

/-- Buffers that are shown have the byte of every VA in RAM. -/
theorem SameLayout.byteAt {lay : RuntimeLayout} {h : Header} {tab : SectView}
    {es : Nat → SectEntry} {mode : LoadMode} {secs : Nat → Addr} {p : Addr} {mod : Module}
    {m mc : Mem} {S : Nat → Prop} {ram : Ram} {va a : Nat}
    (hl : SameLayout lay h tab es mode secs p mod m)
    (hshown : Shown h tab.num es mode secs p S ram mc)
    (hS : ∀ i, MainByte h tab.num es mode i → S i) (ha : lay.runtimeAddress va = some a) :
    lay.byteAt ram va = some (mc (UInt32.ofNat a)) := by
  have hnum := hl.fits.main
  obtain ⟨sec, j, b, hfound, hat, hj, hin, hb, hab⟩ := hl.address ha
  obtain ⟨hfirst, hmain, htagged, -⟩ := hl.base hat hj hin.size_ne hb
  obtain ⟨hlo, hhi⟩ := id hin
  rw [RuntimeLayout.byteAt, hfound, ha]
  dsimp only
  rw [hat.isMain hl.fits.table hj, hat.index, hl.ramBase]
  by_cases h3 : j < 3
  · have hoff : a - p.toNat =
        exactMainOffset h tab.num es mode j + (va - (es j).va.toNat) := by
      rw [hab, hmain h3]
      omega
    have haddr : UInt32.ofNat a = p + UInt32.ofNat (a - p.toNat) := by
      rw [hoff, hab, hmain h3, Nat.add_assoc, UInt32.ofNat_add, UInt32.ofNat_toNat]
    rw [decide_eq_true h3, if_pos rfl, haddr]
    exact hshown.main _ (hS _ ⟨j, hfirst, h3, by omega, by omega⟩)
  · obtain ⟨bs, hbs, hlen, hbytes⟩ := hshown.blocks j (by omega) hj hin.size_ne
    have hoff : a - (secs j).toNat = va - (es j).va.toNat := by
      rw [hab, htagged (by omega)]
      omega
    have haddr : UInt32.ofNat a = secs j + UInt32.ofNat (a - (secs j).toNat) := by
      rw [hoff, hab, htagged (by omega), UInt32.ofNat_add, UInt32.ofNat_toNat]
    rw [decide_eq_false h3, if_neg Bool.false_ne_true, hbs, Option.bind_some,
      hl.bases j (by omega) hj hin.size_ne, Option.getD_some, haddr]
    exact hbytes _ (by omega)

section

variable {host : Host} {image : Image} {mode : LoadMode} {loadAddr : Addr} {loadSize : UInt32}
  {w w₁ : State} {evs : List (Event HostEvent)} {tab : SectView} {ramSize ramAddr : UInt32}
  {w1 w2 w3 w4 : State} {h : Header} {es : Nat → SectEntry} {data : Bytes} {img : ModuleImage}
  {f : Str → Nat}

/-- The entries of the loader's table are those of the parser. -/
theorem relocs_same {m : Mem} (himage : image = (udynlinkImageFromMemory image.pHeader).run w.mem)
    (hh : decodeHeader w.mem image.pHeader = h) (hs : SameHeader img.header h)
    (hsize : img.header.headerSize = headerSizeBytes) (hp : Parsed data img)
    (hb : HasBytes w.mem image.pHeader data)
    (hsame : AgreeOn ⟨image.pRelocations, 8 * h.numRels.toNat⟩ w.mem m) :
    List.Forall₂ (RelocAt image.relocSource m) img.relocations
      (List.range' 0 h.numRels.toNat) := by
  have hn := h.numRels.toNat_lt
  have h32 : (getHeaderSize h).toNat = 32 := hs.headerSize.symm.trans hsize
  have hrels : image.pRelocations = image.pHeader + UInt32.ofNat img.header.relocsOffset := by
    rw [himage, (imageFromMemory_tables _ _).1, imageFromMemory_pHeader, hh,
      ModuleHeader.relocsOffset, hsize,
      show getHeaderSize h = 32 from UInt32.toNat_inj.mp h32]
    rfl
  have hall := parseRelocations_at hb hp.relocations
  rw [hs.numRels] at hall
  refine List.forall₂_iff_get.mpr ⟨hall.length_eq, fun i hi hi' => ?_⟩
  obtain ⟨hlot, hvalue⟩ := List.forall₂_iff_get.mp hall |>.2 i hi hi'
  rw [List.length_range'] at hi'
  have hat : (List.range' 0 h.numRels.toNat).get ⟨i, by rwa [List.length_range']⟩ = i := by simp
  rw [hat] at hlot hvalue ⊢
  have hread : (readRelocation image.pRelocations i).run m =
      (readRelocation image.pRelocations i).run w.mem :=
    (within_readRelocation (P := (· ∈ (⟨image.pRelocations, 8 * h.numRels.toNat⟩ : Span)))
      (fun a ha => ha) hi' (by omega) w.mem).congr hsame
  have hentry : (readRelocation image.relocSource.pRelocations i).run m =
      (w.mem.u32 (image.pRelocations + UInt32.ofNat (8 * i)),
        w.mem.u32 (image.pRelocations + UInt32.ofNat (8 * i + 4))) := hread
  rw [hrels, off_off, off_off] at hentry
  refine ⟨?_, ?_⟩
  · rw [hlot, hentry, Nat.mul_comm i 8]
  · rw [hvalue, hentry, Nat.mul_comm i 8, Nat.add_assoc]

/-- The symbol table in one piece with the header. -/
theorem symtab_same {m : Mem} (himage : image = (udynlinkImageFromMemory image.pHeader).run w.mem)
    (hh : decodeHeader w.mem image.pHeader = h) (hs : SameHeader img.header h)
    (hsize : img.header.headerSize = headerSizeBytes) (hp : Parsed data img)
    (hm : MetadataFits img) (hb : HasBytes w.mem image.pHeader data)
    (hsame : AgreeOn ⟨image.pSymtab, h.symtSize.toNat⟩ w.mem m) :
    HasBytes m image.pSymtab img.symtabBytes := by
  have hlt := h.symtSize.toNat_lt
  have h32 : (getHeaderSize h).toNat = 32 := hs.headerSize.symm.trans hsize
  have hoff : img.header.symtabOffset = 32 + 8 * h.numRels.toNat := by
    rw [ModuleHeader.symtabOffset, ModuleHeader.relocsOffset, ModuleHeader.relocsSize, hsize,
      hs.numRels, headerSizeBytes]
    omega
  have hsym : image.pSymtab = image.pHeader + UInt32.ofNat img.header.symtabOffset := by
    have hn : h.numRels.toUInt32 * 2 * 4 = UInt32.ofNat (8 * h.numRels.toNat) := by
      rw [UInt32.ofNat_mul, ← UInt16.toNat_toUInt32, UInt32.ofNat_toNat, UInt32.mul_assoc,
        UInt32.mul_comm]
      rfl
    rw [himage, (imageFromMemory_tables _ _).2, (imageFromMemory_tables _ _).1,
      imageFromMemory_pHeader, hh, show getHeaderSize h = 32 from UInt32.toNat_inj.mp h32, hn, hoff,
      ← off_off]
    rfl
  have hlen := hp.length
  have hend := hm.symtabEnd
  have hcode := hp.codeOffset
  intro k hk
  rw [hm.symtab, hs.symtSize] at hk
  rw [← hsame _ (off_mem hk (by omega)), hp.symtab, hs.symtSize, getElem?_slice data hk,
    hb _ (by rw [hs.symtSize] at hend; omega), hsym, off_off]

end

section

variable {host : Host} {image : Image} {mode : LoadMode} {loadAddr : Addr} {loadSize : UInt32}
  {w w₁ : State} {evs : List (Event HostEvent)} {tab : SectView} {ramSize ramAddr : UInt32}
  {w1 w2 w3 w4 : State} {data : Bytes} {img : ModuleImage} {f : Str → Nat}

/-- A resolved load of an image in one piece: with the answers of the host, and every
relocation reported with a value, the simulation has the bytes that the load leaves in
RAM: those of all sections held there, and of the LOT the words that are filled. -/
theorem simulated_load_agrees
    (hload : (udynlinkLoadModuleImage host image loadAddr loadSize mode).run w = (.ok (), w₁))
    (himage : image = (udynlinkImageFromMemory image.pHeader).run w.mem)
    (hcont : LoadContained image mode w.mem) (hne : (imageView image w.mem).num ≠ 0)
    (hvas : ∀ j, j < (imageView image w.mem).num →
      (imageEntry image w.mem j).va.toNat + (imageEntry image w.mem j).size.toNat ≤ 2 ^ 32)
    (he : w.Extends w₁ evs)
    (hfair : FairBlocks (imageSource image w.mem) loadAddr loadSize (hostEvents evs))
    (hb : HasBytes w.mem image.pHeader data) (hp : parseModule data true = .ok img)
    (hsyms : img.SymbolsOk)
    (hans : ∀ v name, (host.resolve v name).toNat = f (decodeUtf8 name))
    {bases : Nat → Option Nat}
    (hbases : ∀ j ∈ boundSections image w.mem, bases j = some (recordedBase w₁ j).toNat) :
    let lay : RuntimeLayout := ⟨img, mode, w₁.handle.pRam.toNat, bases⟩
    let sim := lay.simulateLoad (some f)
    (∀ value ∈ sim.2, value ≠ none) →
      (∀ va a, lay.runtimeAddress va = some a →
        lay.byteAt sim.1 va = some (w₁.mem (UInt32.ofNat a))) ∧
      ∀ i, LotByte (decodeHeader w.mem image.pHeader) img.relocations i →
        sim.1.main[i]? = some (w₁.mem (w₁.handle.pRam + UInt32.ofNat i)) := by
  intro lay sim hall
  obtain ⟨tab, ramSize, ramAddr, w1, w2, w3, w4, hs⟩ := loadStages_of_ok hload
  have hview := imageView_of_sectab hs.sectab
  have ht : tab.num ≠ 0 := hview ▸ hne
  have hes : imageEntry image w.mem = entriesAt w.mem tab.pEntries := by
    funext j
    rw [imageEntry, hview]
  obtain ⟨htab, hfu, secs', names', hl⟩ := sectioned_loaded hs ht hcont he hfair
  have hf : SectionedFits (decodeHeader w.mem image.pHeader) tab.num
      (entriesAt w.mem tab.pEntries) mode := by
    rw [htab]
    exact hfu
  have hnum := hf.main
  have hrel := hcont.relocs hne
  have hblocks := hfair
  rw [hview] at hrel
  rw [imageSource, hview, if_neg ht] at hblocks
  obtain ⟨secs, names, ans, hw⟩ := walkedLoad_of_stages hs rfl rfl hf hrel he hblocks
  -- the parsed image
  have hacc := acceptedAt_of_stages hs
  have hext := hacc.extent
  have hparsed := parsed_of_parse hp
  obtain ⟨hsame, hheader, -⟩ := sameImage_of_accepted hacc hb hp
  obtain ⟨h32, hcode⟩ := parse_present hp
  obtain ⟨hsize, hflags⟩ := checkHeader_of_parse hp h32
  have hmask : (decodeHeader w.mem image.pHeader).flags &&& 0xFF00 = 0 := by
    rw [← UInt16.toNat_inj, UInt16.toNat_and, ← hsame.header.flags, hheader]
    exact hflags
  obtain ⟨hreadable, -, -⟩ := hacc.readable hb
    (by rw [← hsame.codeOffset, hparsed.codeOffset, hheader]; exact hcode) hmask
  have hmeta := metadataFits_of_parse hreadable hp hsize
  rw [← hheader] at hsize
  obtain ⟨-, hpCode, hpData⟩ := imageFromMemory_parts hs.sectab
  rw [← himage] at hpCode hpData
  rw [getCodeOffsetFromHeader_eq] at hpCode
  have hpay := samePayloads hparsed hsame hf.table hnum hb hpCode hpData
  -- the layout
  have hrecorded : ∀ j, 3 ≤ j → j < tab.num → (entriesAt w.mem tab.pEntries j).size ≠ 0 →
      lay.sectionBases j = some (secs j).toNat := by
    intro j hj hj' hsz
    have hmem : j ∈ boundSections image w.mem := by
      rw [boundSections, hview, hes]
      exact mem_taggedIdx.mpr ⟨hj, by omega, hsz⟩
    have hsec : secs' j = secs j :=
      (hl.placed.bases j hj hj' hsz).symm.trans (hw.bases j hj hj' hsz)
    rw [htab] at hl hj' hsz
    have hrec : recordedBase w₁ j = secs' j :=
      ((SectionedLoaded.standing rfl hfu hl).recordedBase_eq hfu hj hj' hsz).trans
        ((SectionedLoaded.alignedAt rfl hfu hl).placed.recorded_eq hj hj' hsz)
    exact (hbases j hmem).trans (by rw [hrec, hsec])
  have hlay : SameLayout lay (decodeHeader w.mem image.pHeader) tab (entriesAt w.mem tab.pEntries)
      mode secs ramAddr w3.handle w3.mem :=
    ⟨hf, hw.place.placed, hsame, rfl, congrArg UInt32.toNat hl.placed.pRam, hrecorded, hw.ne_zero,
      fun j hj => hes ▸ hvas j (hview ▸ hj)⟩
  -- the buffers in front of the relocations
  have hshown := shown_start hlay hmeta hpay (fun j hj hj' hsz => (hw.place.granted j hj (by omega)
    hsz).1) fun j hfirst hj k hk => by
      rw [hw.place.did.mem]
      exact placed_payload hf hw.place.clear hw.place.room (by
        have hmax : maxImageSize.toNat ≤ 2 ^ 32 := by decide
        omega) hw.same hfirst hj hk
  -- the relocations
  have hsource : ∀ s ∈ sectionedSource image (decodeHeader w.mem image.pHeader) tab.num
      (entriesAt w.mem tab.pEntries), AgreeOn s w.mem w3.mem :=
    fun s hs a ha => (hw.same s hs a ha).trans (hw.place.source s hs a ha)
  have hrels := relocs_same himage rfl hsame.header hsize hparsed hb
    (hsource _ (by simp [sectionedSource]))
  have hsymtab := symtab_same himage rfl hsame.header hsize hparsed hmeta hb
    (hsource _ (by simp [sectionedSource]))
  obtain ⟨n, hentries⟩ := hparsed.symbols
  have hanswers : SameAnswers host lay.image image.relocSource w3.mem
      (SectionedFixed (decodeHeader w.mem image.pHeader) tab.num (entriesAt w.mem tab.pEntries) mode
        secs ramAddr) f :=
    sameAnswers hsymtab (hmeta.symtab.trans hsame.header.symtSize) hw.place.header
      hsame.header.symtSize hentries hsyms
      (hw.place.clear.covers (by simp [sectionedSource, Image.relocSource])) hans
  have hsec : decide (tab.num > 0) = true := decide_eq_true (by omega)
  have hpatched := hw.mem
  have hok := hw.entries
  rw [hsec] at hpatched hok
  have hend := hlay.run hanswers hw.place.room (fun _ hb => hb) hrels hshown
    (fun k hk => by rw [Nat.zero_add]; exact hok k hk) (Prod.eta sim).symm hall
  rw [← hpatched] at hend
  refine ⟨fun va a ha => hlay.byteAt hend (fun i hi => Or.inl hi) ha, fun i hi => ?_⟩
  rw [hl.placed.pRam]
  exact hend.main i (Or.inr hi)

end

/-! ## Section `x`: the word of `.data` in the buffer -/

/-- No symbols, and a value for the one relocation. -/
theorem ownSection_simulated {img : ModuleImage} (hp : parseModule ownSectionBytes true = .ok img) :
    img.symbols = [] ∧ ∀ value ∈ (RuntimeLayout.simulateLoad
      ⟨img, .copyTextData, 0x20000000, fun _ => some 0x20000014⟩ (some fun _ => 0)).2,
        value ≠ none := by
  have hcheck : (parseModule ownSectionBytes true).toOption.any (fun img =>
      decide (img.symbols = [] ∧ ∀ value ∈ (RuntimeLayout.simulateLoad
        ⟨img, .copyTextData, 0x20000000, fun _ => some 0x20000014⟩ (some fun _ => 0)).2,
          value ≠ none)) = true := by decide +kernel
  rw [hp] at hcheck
  exact of_decide_eq_true hcheck

theorem simulated_load_agrees_ownSection : ∃ img, parseModule ownSectionBytes true = .ok img ∧
    let lay : RuntimeLayout := ⟨img, .copyTextData, ownSectionLoaded.handle.pRam.toNat,
      fun _ => some 0x20000014⟩
    let sim := lay.simulateLoad (some fun _ => 0)
    (∀ va a, lay.runtimeAddress va = some a →
      lay.byteAt sim.1 va = some (ownSectionLoaded.mem (UInt32.ofNat a))) ∧
    ∀ i, LotByte (decodeHeader ownSectionRom ownSectionImage.pHeader) img.relocations i →
      sim.1.main[i]? =
        some (ownSectionLoaded.mem (ownSectionLoaded.handle.pRam + UInt32.ofNat i)) := by
  have hvas : ∀ j, j < (imageView ownSectionImage ownSectionRom).num →
      (imageEntry ownSectionImage ownSectionRom j).va.toNat +
        (imageEntry ownSectionImage ownSectionRom j).size.toNat ≤ 2 ^ 32 := by decide +kernel
  have hbound : boundSections ownSectionImage ownSectionRom = [3] := by decide +kernel
  have hbase : recordedBase ownSectionLoaded 3 = 0x20000014 := by decide +kernel
  obtain ⟨img, hp⟩ := ownSection_parsed
  obtain ⟨hnone, hvalues⟩ := ownSection_simulated hp
  refine ⟨img, hp, simulated_load_agrees (w := ⟨ownSectionRom, Module.free, []⟩) ownSection_loads
    (by decide +kernel) ownSection_contained ownSection_table hvas ownSection_extends
    ownSection_fairBlocks (romBytes_hasBytes ownSectionRom 0x1000 156) hp
    ⟨by simp [hnone], by simp [hnone]⟩ (fun _ _ => rfl) (fun j hj => ?_) ?_⟩
  · rw [hbound, List.mem_singleton] at hj
    rw [hj, hbase]
    rfl
  · rw [ownSection_load.2.1]
    exact hvalues

end Udynlink.Parser
