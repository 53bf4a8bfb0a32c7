import Udynlink.Parser.SameImage
import Udynlink.Parser.Utf8
import Udynlink.SearchRuns

/-!
# Lookup in the loader and in the parser

The parser scans every entry for a name, the first one too, and takes the first that has
it. The loader starts behind the module name, and it bisects where the names are in order.
-/

namespace Udynlink.Parser

open Machine

/-! ## Tables of text -/

/-- Within the size cap, every name is UTF-8 and ends inside the table. -/
structure TextNames (t : SymTable) : Prop where
  cap : t.size.toNat ≤ maxImageSize.toNat
  text : ∀ i, i < t.scanned → t.Named i → ∃ s : Str, IsText s ∧
    StrAt t.mem (t.base + t.nameOff i) (encodeUtf8 s) ∧
      (t.nameOff i).toNat + (encodeUtf8 s).length < t.size.toNat

/-- The name of entry `i`, decoded. -/
def textOf (t : SymTable) (i : Nat) : Str := decodeUtf8 (t.name i)

section

variable {t : SymTable} {i L : Nat}

theorem TextNames.decoded (hw : TextNames t) (hi : i < t.scanned) (hn : t.Named i) :
    IsText (textOf t i) ∧ encodeUtf8 (textOf t i) = t.name i ∧ t.NameEnds i := by
  obtain ⟨s, hs, hstr, hlen⟩ := hw.text i hi hn
  have hsize := t.size.toNat_lt
  have hname : t.name i = encodeUtf8 s := run_cstr hstr (by omega)
  have htext : textOf t i = s := by rw [textOf, hname, decode_encode hs]
  rw [htext, SymTable.NameEnds, hname]
  exact ⟨hs, rfl, hstr, hlen⟩

theorem TextNames.namesEnd (hw : TextNames t) : t.NamesEnd := by
  intro i _ hr hn
  have hle := @SymTable.readable_le_scanned t
  exact (hw.decoded (by omega) hn).2.2

theorem name_gt_iff (hw : TextNames t) {j : Nat} (hi : i < t.scanned) (hni : t.Named i)
    (hj : j < t.scanned) (hnj : t.Named j) :
    compare (t.name i) (t.name j) = .gt ↔ textOf t j < textOf t i := by
  obtain ⟨hti, hei, -⟩ := hw.decoded hi hni
  obtain ⟨htj, hej, -⟩ := hw.decoded hj hnj
  rw [← hei, ← hej, encode_gt_iff hti htj]

end

/-! ## The symbols of the parser -/

section

variable {t : SymTable} {symtab : Bytes} {i n : Nat}

def tableSymbol (t : SymTable) (symtab : Bytes) (i : Nat) : Symbol :=
  symbolOf symtab t.size.toNat i (t.info i).toNat (t.val i).toNat

theorem unpackU32_symtWord (hb : HasBytes t.mem t.base symtab) {k : Nat}
    (h : k * 4 + 4 ≤ symtab.length) : unpackU32 symtab (k * 4) =
      .ok ((symtWord t.base (UInt32.ofNat k)).run t.mem).toNat := by
  rw [unpackU32_ok h, hb.word4 h, UInt32.ofNat_mul]
  rfl

/-- The parser reads the entries that the loader reads. -/
theorem parseSymbols_run (hb : HasBytes t.mem t.base symtab)
    (hlen : symtab.length = t.size.toNat) : parseSymbols symtab t.size.toNat n i =
      .ok ((List.range' i (min (i + n) ((t.words - 1) / 2) - i)).map (tableSymbol t symtab)) := by
  have hwords : t.words = t.size.toNat / 4 := rfl
  induction n generalizing i with
  | zero =>
    rw [show min (i + 0) ((t.words - 1) / 2) - i = 0 by omega]
    rfl
  | succ n ih =>
    rw [parseSymbols]
    split
    · rw [show min (i + (n + 1)) ((t.words - 1) / 2) - i = 0 by omega]
      rfl
    · rw [show 4 + i * 8 = (i * 2 + 1) * 4 by omega,
        unpackU32_symtWord hb (by omega), ok_bind,
        show (i * 2 + 1) * 4 + 4 = (i * 2 + 2) * 4 by omega,
        unpackU32_symtWord hb (by omega), ok_bind, ih, ok_bind,
        show min (i + (n + 1)) ((t.words - 1) / 2) - i =
          min (i + 1 + n) ((t.words - 1) / 2) - (i + 1) + 1 by omega, List.range'_succ]
      rfl

theorem symbols_of_table {symbols : List Symbol} (hb : HasBytes t.mem t.base symtab)
    (hlen : symtab.length = t.size.toNat) (hcount : symbolCount symtab t.size.toNat = .ok n)
    (hsyms : parseSymbols symtab t.size.toNat n 0 = .ok symbols) :
    symbols = (List.range' 0 t.readable).map (tableSymbol t symtab) := by
  rw [parseSymbols_run hb hlen] at hsyms
  have hr : min (0 + n) ((t.words - 1) / 2) - 0 = t.readable := by
    unfold symbolCount at hcount
    unfold SymTable.readable
    split at hcount
    · rw [show (0 : Nat) = 0 * 4 from rfl, unpackU32_symtWord hb (by omega)] at hcount
      have hn : t.count = n := Except.ok.inj hcount
      omega
    · have hwords : t.words = t.size.toNat / 4 := rfl
      omega
  rw [hr] at hsyms
  exact (Except.ok.inj hsyms).symm

theorem symTypeOf_toNat (info : UInt32) : (symTypeOf info).toNat = (info.toNat >>> 27) &&& 7 := by
  have hlt : (info.toNat >>> 27) &&& 7 ≤ 7 := Nat.and_le_right
  unfold symTypeOf
  rw [UInt32.toNat_toUInt8, UInt32.toNat_and, UInt32.toNat_shiftRight]
  show (info.toNat >>> 27 &&& 7) % 256 = _
  omega

theorem tableSymbol_type : (tableSymbol t symtab i).type = symTypeInternal ↔ ¬ t.Named i := by
  have htype : (tableSymbol t symtab i).type = (symTypeOf (t.info i)).toNat :=
    (symTypeOf_toNat _).symm
  rw [htype, SymTable.Named, not_not, ← UInt8.toNat_inj]
  rfl

theorem tableSymbol_isLocal : (tableSymbol t symtab i).isLocal = !decide (t.Named i) := by
  rw [Symbol.isLocal, ← decide_not]
  exact decide_eq_decide.mpr tableSymbol_type

/-- A name in the bytes, up to its NUL. -/
theorem takeWhile_strAt {m : Mem} {p : Addr} {s : List UInt8} {off : Nat} (hb : HasBytes m p symtab)
    (h : StrAt m (p + UInt32.ofNat off) s) (hlt : off + s.length < symtab.length) :
    (symtab.drop off).takeWhile (· ≠ 0) = s := by
  have hoff : off < symtab.length := by omega
  have hbyte : symtab[off] = m (p + UInt32.ofNat off) := by
    have hget := hb off hoff
    rw [List.getElem?_eq_getElem hoff] at hget
    exact Option.some.inj hget
  rw [List.drop_eq_getElem_cons hoff, hbyte]
  induction s generalizing off with
  | nil => rw [List.takeWhile_cons_of_neg (by rw [show m _ = 0 from h]; decide)]
  | cons c s ih =>
    obtain ⟨⟨hc, hne⟩, hrest⟩ := h
    rw [List.length_cons] at hlt
    have hnext : p + UInt32.ofNat off + 1 = p + UInt32.ofNat (off + 1) := off_off p off 1
    rw [hnext] at hrest
    have hoff' : off + 1 < symtab.length := by omega
    have hbyte' : symtab[off + 1] = m (p + UInt32.ofNat (off + 1)) := by
      have hget := hb (off + 1) hoff'
      rw [List.getElem?_eq_getElem hoff'] at hget
      exact Option.some.inj hget
    rw [hc, List.takeWhile_cons_of_pos (by simpa using hne), List.drop_eq_getElem_cons hoff', hbyte',
      ih hrest (by omega) hoff' hbyte']

theorem tableSymbol_name (hw : TextNames t) (hb : HasBytes t.mem t.base symtab)
    (hlen : symtab.length = t.size.toNat) (hi : i < t.scanned) (hn : t.Named i) :
    (tableSymbol t symtab i).name = some (textOf t i) ∧
      (tableSymbol t symtab i).isLastEntryMarker = false := by
  obtain ⟨-, -, hstr, hin⟩ := hw.decoded hi hn
  have hcap := hw.cap
  have hmax : maxImageSize.toNat = 4194304 := rfl
  have hoff : (t.nameOff i).toNat = (t.info i).toNat &&& 0x07FFFFFF := by
    unfold SymTable.nameOff
    rw [UInt32.toNat_and]
    rfl
  -- the mask of the marker is beyond the cap
  have hraw : (t.info i).toNat ≠ 0xFFFFFFFF := by
    intro hx
    rw [hx] at hoff
    have h27 : 0xFFFFFFFF &&& 0x07FFFFFF = 134217727 := rfl
    omega
  refine ⟨?_, decide_eq_false hraw⟩
  have htype : ¬ (tableSymbol t symtab i).type = symTypeInternal := fun h =>
    tableSymbol_type.mp h hn
  unfold tableSymbol symbolOf at htype ⊢
  dsimp only at htype ⊢
  rw [if_neg (by rintro (hx | hx); exacts [htype hx, hraw hx]), ← hoff, poolName,
    if_neg (by omega), takeWhile_strAt hb (by rw [UInt32.ofNat_toNat]; exact hstr) (by omega)]
  rfl

end

/-! ## Lookup and count of the parser -/

section

variable {t : SymTable} {symtab : Bytes} {img : ModuleImage}

/-- The parser finds the first entry of the name, from entry 0 on. -/
theorem lookupSymbol_index (hw : TextNames t) (hb : HasBytes t.mem t.base symtab)
    (hlen : symtab.length = t.size.toNat)
    (hs : img.symbols = (List.range' 0 t.readable).map (tableSymbol t symtab)) {name : Str}
    (hname : IsText name) : (img.lookupSymbol name).map Symbol.index =
      (List.range' 0 (t.readable - 0)).find? fun i =>
        t.Named i ∧ t.name i = encodeUtf8 name := by
  have hle := @SymTable.readable_le_scanned t
  rw [ModuleImage.lookupSymbol, hs, List.find?_map, Option.map_map, Nat.sub_zero]
  have hindex : Symbol.index ∘ tableSymbol t symtab = id := rfl
  rw [hindex, Option.map_id]
  apply List.find?_congr
  intro i hi
  rw [List.mem_range'_1] at hi
  dsimp only [Function.comp]
  rw [tableSymbol_isLocal, Bool.not_not]
  by_cases hn : t.Named i
  · obtain ⟨htext, henc, -⟩ := hw.decoded (by omega) hn
    rw [(tableSymbol_name hw hb hlen (by omega) hn).1, ← henc, decide_eq_true hn, Bool.true_and]
    refine decide_eq_decide.mpr ⟨fun h => ⟨hn, ?_⟩, fun h => ?_⟩
    · rw [Option.some.inj h]
    · rw [encode_injective htext hname h.2]
  · rw [decide_eq_false hn, Bool.false_and, decide_eq_false fun h => hn h.1]

theorem lastNamed_leading {L : Nat} (hL : t.Leading t.readable L) {k i : Nat} (hi : 1 ≤ i)
    (hiL : i ≤ L + 1) (hk : t.readable - i = k) : ModuleImage.lastNamed
      ((List.range' i k).map (tableSymbol t symtab)) i (i - 1) = L := by
  have hb := hL.bound
  induction k generalizing i with
  | zero =>
    show i - 1 = L
    omega
  | succ k ih =>
    rw [List.range'_succ, List.map_cons, ModuleImage.lastNamed]
    by_cases hn : t.Named i
    · have hlt : i ≤ L := by
        by_contra hgt
        obtain rfl : i = L + 1 := by omega
        exact hL.ends (by omega) hn
      rw [if_neg fun h => tableSymbol_type.mp h hn]
      exact ih (Nat.le_add_left 1 i) (by omega) (by omega)
    · have hend : ¬ i ≤ L := fun h => hn (hL.named i hi h)
      rw [if_pos (tableSymbol_type.mpr hn)]
      omega

theorem namesSorted_iff (hw : TextNames t) {k i : Nat}
    (hin : ∀ j, i ≤ j → j < i + k → j < t.scanned ∧ t.Named j) :
    ModuleImage.namesSorted ((List.range' i k).map (textOf t)) = true ↔
      ∀ j, i ≤ j → j + 1 < i + k → compare (t.name j) (t.name (j + 1)) ≠ .gt := by
  induction k generalizing i with
  | zero => exact iff_of_true rfl fun j h1 h2 => by omega
  | succ k ih =>
    cases k with
    | zero => exact iff_of_true rfl fun j h1 h2 => by omega
    | succ k =>
      have hrest := @ih (i + 1) fun j h1 h2 => hin j (by omega) (by omega)
      obtain ⟨hs, hn⟩ := hin i (Nat.le_refl i) (by omega)
      obtain ⟨hs', hn'⟩ := hin (i + 1) (by omega) (by omega)
      rw [List.range'_succ, List.map_cons] at hrest ⊢
      rw [List.range'_succ, List.map_cons, ModuleImage.namesSorted, Bool.and_eq_true, hrest,
        Bool.not_eq_true', decide_eq_false_iff_not, ← name_gt_iff hw hs hn hs' hn']
      constructor
      · rintro ⟨hfirst, hall⟩ j h1 h2
        by_cases he : j = i
        · rw [he]
          exact hfirst
        · exact hall j (by omega) (by omega)
      · exact fun h => ⟨h i (Nat.le_refl i) (by omega), fun j h1 h2 => h j (by omega) (by omega)⟩

/-- The parser counts the leading names, if they are in order. -/
theorem numNamedSymbols_leading (hw : TextNames t) (hb : HasBytes t.mem t.base symtab)
    (hlen : symtab.length = t.size.toNat)
    (hs : img.symbols = (List.range' 0 t.readable).map (tableSymbol t symtab)) {L : Nat}
    (hL : t.Leading t.readable L) :
    (t.Counted L → img.numNamedSymbols = L) ∧ (¬ t.Counted L → img.numNamedSymbols = 0) := by
  have hle := @SymTable.readable_le_scanned t
  have hbound := hL.bound
  have hlength : img.symbols.length = t.readable := by
    rw [hs, List.length_map, List.length_range']
  unfold ModuleImage.numNamedSymbols
  rw [hlength]
  by_cases hone : t.readable ≤ 1
  · rw [if_pos hone]
    exact ⟨fun h => absurd h.1 (by omega), fun _ => rfl⟩
  · rw [if_neg hone]
    have hdrop : img.symbols.drop 1 =
        (List.range' 1 (t.readable - 1)).map (tableSymbol t symtab) := by
      rw [hs, List.map_drop.symm, List.drop_range']
    have hlast : ModuleImage.lastNamed (img.symbols.drop 1) 1 0 = L := by
      rw [hdrop]
      exact lastNamed_leading hL (Nat.le_refl 1) (by omega) rfl
    dsimp only
    rw [hlast]
    have hslice : slice img.symbols 1 L = (List.range' 1 L).map (tableSymbol t symtab) := by
      rw [slice, hdrop, ← List.map_take, List.take_range'_of_length_ge (by omega)]
    have hin : ∀ j, 1 ≤ j → j < 1 + L → j < t.scanned ∧ t.Named j := fun j h1 h2 =>
      ⟨by omega, hL.named j h1 (by omega)⟩
    have hname : ∀ j ∈ List.range' 1 L, (tableSymbol t symtab j).name = some (textOf t j) ∧
        (tableSymbol t symtab j).isLastEntryMarker = false := by
      intro j hj
      rw [List.mem_range'_1] at hj
      obtain ⟨hjs, hjn⟩ := hin j hj.1 hj.2
      exact tableSymbol_name hw hb hlen hjs hjn
    have hfilter : (slice img.symbols 1 L).filter (fun s => !s.isLastEntryMarker) =
        (List.range' 1 L).map (tableSymbol t symtab) := by
      rw [hslice, List.filter_eq_self]
      intro s hs'
      obtain ⟨j, hj, rfl⟩ := List.mem_map.mp hs'
      rw [(hname j hj).2]
      rfl
    have hnames : ((List.range' 1 L).map (tableSymbol t symtab)).map (fun s => s.name.getD []) =
        (List.range' 1 L).map (textOf t) := by
      rw [List.map_map]
      refine List.map_congr_left fun j hj => ?_
      rw [Function.comp, (hname j hj).1, Option.getD_some]
    have hsorted : ModuleImage.namesSorted ((List.range' 1 L).map (textOf t)) = true ↔
        t.Ascending L := by
      rw [namesSorted_iff hw hin]
      exact ⟨fun h i h1 h2 => h i h1 (by omega), fun h j h1 h2 => h j h1 (by omega)⟩
    rw [hfilter, hnames]
    refine ⟨fun h => if_pos (hsorted.mpr h.2), fun h => ?_⟩
    by_cases ha : t.Ascending L
    · have hz : L = 0 := by
        by_contra hne
        exact h ⟨hne, ha⟩
      rw [hz]
      exact ite_self 0
    · exact if_neg (mt hsorted.mp ha)

end

/-! ## Tables that are searched alike -/

/-- Leading names in order are counted by both if they are fewer than `2 ^ 16`, no entry is
cut off and nothing named comes behind them; any others by neither. -/
structure CountedAlike (t : SymTable) (L N : Nat) : Prop where
  ordered : t.Counted L → N = L ∧ L < 2 ^ 16 ∧ ¬ t.NamedBehind L
  other : ¬ t.Counted L → t.NamedBehind N ∨ N % 2 ^ 16 = 0 ∨ ¬ t.Ascending (N % 2 ^ 16)

/-- Of the entries of one name the loader stops at this one: the one where halving `1..L`
lands, or the first one from 1 on. -/
def Met (t : SymTable) (L i : Nat) : Prop :=
  (t.Counted L → ∃ a b, t.Run L a b ∧ i = landing a b L) ∧ (¬ t.Counted L → t.FirstFrom 1 i)

/-- A named entry 0, and the first entry of a run, are copied where the loader stops. -/
structure FoundAlike (t : SymTable) (L : Nat) : Prop where
  first : 0 < t.readable → t.Named 0 → ∃ i, Met t L i ∧ t.entry i = t.entry 0
  runs : t.Counted L → ∀ a b, t.Run L a b → ¬ (t.Named 0 ∧ t.name 0 = t.name a) →
    t.entry (landing a b L) = t.entry a

def SearchedAlike (t : SymTable) : Prop :=
  ∃ L N, t.Leading t.readable L ∧ t.Leading t.scanned N ∧ CountedAlike t L N ∧ FoundAlike t L

section

variable {t : SymTable} {L N k i : Nat} {name : List UInt8}

theorem countedAlike_iff (hw : TextNames t) (hL : t.Leading t.readable L)
    (hN : t.Leading t.scanned N) {p : Nat} (hp : (t.Counted L → p = L) ∧ (¬ t.Counted L → p = 0)) :
    ((computeNumNamedSymsRaw t.base t.size).run t.mem).toNat = p ↔ CountedAlike t L N := by
  obtain ⟨hbehind, hunsorted, hsorted⟩ :=
    SymTable.count_leading (fun i _ hs hn => (hw.decoded hs hn).2.2) hN
  have hboth := hL.both hN
  by_cases hc : t.Counted L
  · rw [hp.1 hc]
    refine ⟨fun h => ⟨fun _ => ?_, fun hno => absurd hc hno⟩, fun h => ?_⟩
    · have hzero : ¬ (computeNumNamedSymsRaw t.base t.size).run t.mem = 0 := by
        intro hz
        rw [hz] at h
        exact hc.1 h.symm
      have hb : ¬ t.NamedBehind N := fun hb => hzero (hbehind hb)
      have ha : t.Ascending (N % 2 ^ 16) := by
        by_contra ha
        exact hzero (hunsorted hb ha)
      have hN' := (hsorted hb ha).symm.trans h
      obtain rfl : N = L := by omega
      exact ⟨rfl, by omega, hb⟩
    · obtain ⟨rfl, hlt, hb⟩ := h.ordered hc
      have hmod : N % 2 ^ 16 = N := Nat.mod_eq_of_lt hlt
      rw [hsorted hb (by rw [hmod]; exact hc.2), hmod]
  · rw [hp.2 hc]
    refine ⟨fun h => ⟨fun hno => absurd hno hc, fun _ => ?_⟩, fun h => ?_⟩
    · by_cases hb : t.NamedBehind N
      · exact .inl hb
      · by_cases ha : t.Ascending (N % 2 ^ 16)
        · exact .inr (.inl ((hsorted hb ha).symm.trans h))
        · exact .inr (.inr ha)
    · by_cases hb : t.NamedBehind N
      · rw [hbehind hb]
        rfl
      · by_cases ha : t.Ascending (N % 2 ^ 16)
        · rw [hsorted hb ha]
          exact ((h.other hc).resolve_left hb).resolve_right (not_not_intro ha)
        · rw [hunsorted hb ha]
          rfl

/-! ## The first entry of a name -/

theorem first_zero (h0 : 0 < t.readable) (hn : t.Named 0) :
    ((List.range' 0 (t.readable - 0)).find? fun i => t.Named i ∧ t.name i = t.name 0) = some 0 :=
  SymTable.find_firstFrom.mpr ⟨⟨Nat.le_refl 0, h0, hn, fun j _ hj => absurd hj (Nat.not_lt_zero j)⟩, rfl⟩

theorem first_later (h : ¬ (0 < t.readable ∧ t.Named 0 ∧ t.name 0 = name)) :
    ((List.range' 0 (t.readable - 0)).find? fun i => t.Named i ∧ t.name i = name) =
      t.scan name := by
  apply Option.ext
  intro i
  rw [SymTable.find_firstFrom, SymTable.scan_eq_some]
  refine and_congr_left fun hname => ⟨fun hf => ?_, fun hf => ?_⟩
  · have hr := hf.readable
    refine ⟨?_, hr, hf.named, fun j _ => hf.first j (Nat.zero_le j)⟩
    by_contra hlt
    obtain rfl : i = 0 := by omega
    exact h ⟨hr, hf.named, hname⟩
  · refine ⟨Nat.zero_le i, hf.readable, hf.named, fun j _ hj hn he => ?_⟩
    cases j with
    | zero => exact h ⟨Nat.lt_trans hj hf.readable, hn, he.trans hname⟩
    | succ j => exact hf.first (j + 1) (Nat.le_add_left 1 j) hj hn he

theorem firstFrom_of_run (hL : t.Leading t.readable L) {a b : Nat} (hr : t.Run L a b) :
    t.FirstFrom 1 a := by
  have hbound := hL.bound
  have h1 := hr.low
  have h2 := hr.le
  have h3 := hr.high
  refine ⟨h1, by omega, hL.named a h1 (by omega), fun j hj hlt _ he => ?_⟩
  have hin := (hr.same j hj (by omega)).mp he
  omega

/-! ## Where the loader stops -/

theorem search_met (hL : t.Leading t.readable L)
    (hk : (t.Counted L → k = L) ∧ (¬ t.Counted L → k = 0)) :
    t.search name k = some i ↔ Met t L i ∧ t.name i = name := by
  by_cases hc : t.Counted L
  · have hbound := hL.bound
    have hpos : 0 < L := Nat.pos_of_ne_zero hc.1
    rw [hk.1 hc]
    constructor
    · intro h
      have hone : ∃ j, 1 ≤ j ∧ j ≤ L ∧ t.name j = name := by
        by_contra hno
        rw [SymTable.search_missed hpos hL.named fun j h1 h2 he => hno ⟨j, h1, h2, he⟩] at h
        cases h
      obtain ⟨j, h1, h2, hj⟩ := hone
      obtain ⟨a, b, hr, h3, h4⟩ := SymTable.exists_run hc.2 h1 h2
      have ha : t.name a = name := ((hr.same j h1 h2).mpr ⟨h3, h4⟩).symm.trans hj
      obtain ⟨hsearch, -, -, hland⟩ := SymTable.search_run hc.2 (by omega) hr
      rw [ha, h, Option.some.injEq] at hsearch
      rw [hsearch]
      exact ⟨⟨fun _ => ⟨a, b, hr, rfl⟩, fun hno => absurd hc hno⟩, hland.trans ha⟩
    · rintro ⟨hm, hname⟩
      obtain ⟨a, b, hr, rfl⟩ := hm.1 hc
      obtain ⟨hsearch, -, -, hland⟩ := SymTable.search_run hc.2 (by omega) hr
      rw [← hname, hland, hsearch]
  · rw [hk.2 hc, SymTable.search, if_neg (Nat.lt_irrefl 0), SymTable.scan_eq_some]
    exact and_congr_left fun _ => ⟨fun hf => ⟨fun h => absurd h hc, fun _ => hf⟩, fun h => h.2 hc⟩

theorem entry_name (hn : t.Named 0) (h : t.entry i = t.entry 0) : t.name i = t.name 0 := by
  have htype : symTypeOf (t.info i) = symTypeOf (t.info 0) := congrArg Sym.type h
  have hni : t.Named i := by
    unfold SymTable.Named
    rw [htype]
    exact hn
  have hname : (t.entry i).name = (t.entry 0).name := congrArg Sym.name h
  unfold SymTable.entry at hname
  dsimp only at hname
  rw [if_pos hni, if_pos hn, SymName.pool.injEq] at hname
  unfold SymTable.name
  rw [hname]

theorem foundAlike_iff (hw : TextNames t) (hL : t.Leading t.readable L)
    (hlast : t.Counted L → ¬ t.NamedBehind L)
    (hk : (t.Counted L → k = L) ∧ (¬ t.Counted L → k = 0)) :
    (∀ name : Str, IsText name → ((List.range' 0 (t.readable - 0)).find? fun i =>
      t.Named i ∧ t.name i = encodeUtf8 name).map t.entry =
        (t.search (encodeUtf8 name) k).map t.entry) ↔ FoundAlike t L := by
  have hle := @SymTable.readable_le_scanned t
  have hbound := hL.bound
  constructor
  · intro h
    constructor
    · intro h0 hn
      obtain ⟨htext, henc, -⟩ := hw.decoded (by omega) hn
      have hsame := h _ htext
      rw [henc, first_zero h0 hn] at hsame
      cases hsearch : t.search (t.name 0) k with
      | none =>
        rw [hsearch] at hsame
        cases hsame
      | some i =>
        rw [hsearch] at hsame
        exact ⟨i, ((search_met hL hk).mp hsearch).1, (Option.some.inj hsame).symm⟩
    · intro hc a b hr hno
      have hf := firstFrom_of_run hL hr
      have hra := hf.readable
      obtain ⟨htext, henc, -⟩ := hw.decoded (by omega) hf.named
      have hsame := h _ htext
      have hbound' := hr.low.trans (hr.le.trans hr.high)
      rw [henc, first_later fun h0 => hno h0.2, SymTable.scan_eq_some.mpr ⟨hf, rfl⟩, hk.1 hc,
        (SymTable.search_run hc.2 (by omega) hr).1] at hsame
      exact (Option.some.inj hsame).symm
  · intro h name _
    by_cases h0 : 0 < t.readable ∧ t.Named 0 ∧ t.name 0 = encodeUtf8 name
    · obtain ⟨hr0, hn0, hname⟩ := h0
      obtain ⟨i, hm, he⟩ := h.first hr0 hn0
      rw [← hname, first_zero hr0 hn0, (search_met hL hk).mpr ⟨hm, entry_name hn0 he⟩,
        Option.map_some, Option.map_some, he]
    · rw [first_later h0]
      by_cases hc : t.Counted L
      · cases hsearch : t.search (encodeUtf8 name) k with
        | none =>
          cases hscan : t.scan (encodeUtf8 name) with
          | none => rfl
          | some i =>
            obtain ⟨hf, hname⟩ := SymTable.scan_eq_some.mp hscan
            have hr := hf.readable
            -- nothing named comes behind the leading names
            have hiL : i ≤ L := by
              by_contra hgt
              exact hlast hc ⟨i, by omega, by omega, hf.named⟩
            obtain ⟨a, b, hrun, h1, h2⟩ := SymTable.exists_run hc.2 hf.low hiL
            have ha := (hrun.same i hf.low hiL).mpr ⟨h1, h2⟩
            rw [← hname, ha, hk.1 hc, (SymTable.search_run hc.2 (by omega) hrun).1] at hsearch
            cases hsearch
        | some i =>
          obtain ⟨hm, hname⟩ := (search_met hL hk).mp hsearch
          obtain ⟨a, b, hr, rfl⟩ := hm.1 hc
          have hf := firstFrom_of_run hL hr
          have hra := hf.readable
          have ha := (SymTable.search_run hc.2 (by omega) hr).2.2.2.symm.trans hname
          rw [SymTable.scan_eq_some.mpr ⟨hf, ha⟩, Option.map_some, Option.map_some,
            h.runs hc a b hr fun hno => h0 ⟨by omega, hno.1, hno.2.trans ha⟩]
      · rw [hk.2 hc, SymTable.search, if_neg (Nat.lt_irrefl 0)]

end

/-! ## Main result -/

/-- The parser counts the names as the loader does, and for a lookup of any text the first
entry of the parser is the entry that the loader goes on with, or there is none in both. -/
structure SameLookups (w : State) (img : ModuleImage) : Prop where
  count : ((computeNumNamedSyms w.handle.pHeader).run w.mem).toNat = img.numNamedSymbols
  lookup : ∀ name : Str, IsText name →
    (img.lookupSymbol name).map (fun s => (symTable w.mem w.handle.pHeader).entry s.index) =
      ((symTable w.mem w.handle.pHeader).search (encodeUtf8 name)
        w.handle.numNamedSyms.toNat).map (symTable w.mem w.handle.pHeader).entry

theorem sameLookups_iff {w : State} {img : ModuleImage} {symtab : Bytes} {n : Nat}
    (hw : TextNames (symTable w.mem w.handle.pHeader))
    (hc : w.handle.numNamedSyms = (computeNumNamedSyms w.handle.pHeader).run w.mem)
    (hb : HasBytes w.mem (symTable w.mem w.handle.pHeader).base symtab)
    (hlen : symtab.length = (symTable w.mem w.handle.pHeader).size.toNat)
    (hcount : symbolCount symtab (symTable w.mem w.handle.pHeader).size.toNat = .ok n)
    (hsyms : parseSymbols symtab (symTable w.mem w.handle.pHeader).size.toNat n 0 =
      .ok img.symbols) :
    SameLookups w img ↔ SearchedAlike (symTable w.mem w.handle.pHeader) := by
  have hs := symbols_of_table hb hlen hcount hsyms
  have hrun : (computeNumNamedSyms w.handle.pHeader).run w.mem = (computeNumNamedSymsRaw
      (symTable w.mem w.handle.pHeader).base (symTable w.mem w.handle.pHeader).size).run
        (symTable w.mem w.handle.pHeader).mem := rfl
  have hlookup : ∀ name : Str, IsText name →
      (img.lookupSymbol name).map (fun s => (symTable w.mem w.handle.pHeader).entry s.index) =
        ((List.range' 0 ((symTable w.mem w.handle.pHeader).readable - 0)).find? fun i =>
          (symTable w.mem w.handle.pHeader).Named i ∧
            (symTable w.mem w.handle.pHeader).name i = encodeUtf8 name).map
              (symTable w.mem w.handle.pHeader).entry := by
    intro name hname
    rw [← lookupSymbol_index hw hb hlen hs hname, Option.map_map]
    rfl
  constructor
  · intro h
    obtain ⟨L, hL⟩ := SymTable.exists_leading (symTable w.mem w.handle.pHeader)
      (symTable w.mem w.handle.pHeader).readable
    obtain ⟨N, hN⟩ := SymTable.exists_leading (symTable w.mem w.handle.pHeader)
      (symTable w.mem w.handle.pHeader).scanned
    have hp := numNamedSymbols_leading hw hb hlen hs hL
    have hcounted := (countedAlike_iff hw hL hN hp).mp (hrun ▸ h.count)
    have hk : w.handle.numNamedSyms.toNat = img.numNamedSymbols := by rw [hc, h.count]
    refine ⟨L, N, hL, hN, hcounted, (foundAlike_iff hw hL (fun hC => (hcounted.ordered hC).2.2)
      (hk ▸ hp)).mp fun name hname => ?_⟩
    rw [← hlookup name hname, h.lookup name hname]
  · rintro ⟨L, N, hL, hN, hcounted, hfound⟩
    have hp := numNamedSymbols_leading hw hb hlen hs hL
    have hcnt := (countedAlike_iff hw hL hN hp).mpr hcounted
    have hk : w.handle.numNamedSyms.toNat = img.numNamedSymbols := by rw [hc, hrun, hcnt]
    refine ⟨hcnt, fun name hname => ?_⟩
    rw [hlookup name hname]
    exact (foundAlike_iff hw hL (fun hC => (hcounted.ordered hC).2.2) (hk ▸ hp)).mpr hfound name hname

/-- The loader goes on with the entry that `search` names, and the parser has the same
counts and entries exactly on the tables that are searched alike. -/
theorem lookups_agree_iff {w : State} {img : ModuleImage} {symtab : Bytes} {n : Nat}
    (hw : TextNames (symTable w.mem w.handle.pHeader))
    (hc : w.handle.numNamedSyms = (computeNumNamedSyms w.handle.pHeader).run w.mem)
    (hb : HasBytes w.mem (symTable w.mem w.handle.pHeader).base symtab)
    (hlen : symtab.length = (symTable w.mem w.handle.pHeader).size.toNat)
    (hcount : symbolCount symtab (symTable w.mem w.handle.pHeader).size.toNat = .ok n)
    (hsyms : parseSymbols symtab (symTable w.mem w.handle.pHeader).size.toNat n 0 =
      .ok img.symbols) :
    (∀ host name, IsText name → Answers host w.handle (encodeUtf8 name)
      (((symTable w.mem w.handle.pHeader).search (encodeUtf8 name)
        w.handle.numNamedSyms.toNat).map (symTable w.mem w.handle.pHeader).entry)
      (udynlinkLookupSymbol host (encodeUtf8 name)) w) ∧
    (SameLookups w img ↔ SearchedAlike (symTable w.mem w.handle.pHeader)) :=
  ⟨fun _ _ hname => lookup_search hw.namesEnd (encodeUtf8_ne hname) hc,
    sameLookups_iff hw hc hb hlen hcount hsyms⟩

/-! ## A table that is searched alike -/

/-- Two nameless entries around `f`, twice `g` and `h`. -/
def packedRom : Mem := .ofWords 0x1000
  [0x4D4C4455, 0x03010000, 0, 0, 60, 0, 0, 0,
    6, 0, 0x10, 0x48000034, 0, 0x60000036, 4, 0x08000036, 8, 0x10000038, 0, 0, 0xC,
    0x00670066, 0x68]

def packed : State := ⟨packedRom, ⟨0x1000, 0x20000000, LoadMode.xip.bits, 4, 0⟩, []⟩

/-- The table behind the header. -/
def packedBytes : Bytes :=
  [6, 0, 0, 0, 0, 0, 0, 0, 0x10, 0, 0, 0, 0x34, 0, 0, 0x48, 0, 0, 0, 0, 0x36, 0, 0, 0x60, 4, 0, 0, 0,
    0x36, 0, 0, 0x08, 8, 0, 0, 0, 0x38, 0, 0, 0x10, 0, 0, 0, 0, 0, 0, 0, 0, 0xC, 0, 0, 0,
    0x66, 0, 0x67, 0, 0x68, 0, 0, 0]

def packedImage : ModuleImage := imageOf packedBytes []
  [symbolOf packedBytes 60 0 0 0x10, symbolOf packedBytes 60 1 0x48000034 0,
    symbolOf packedBytes 60 2 0x60000036 4, symbolOf packedBytes 60 3 0x08000036 8,
    symbolOf packedBytes 60 4 0x10000038 0, symbolOf packedBytes 60 5 0 0xC] []

abbrev packedTable : SymTable := symTable packed.mem packed.handle.pHeader

/-- What the searches read of it. -/
theorem packed_reads :
    (packedTable.size = 60 ∧ packedTable.scanned = 6 ∧ packedTable.readable = 6) ∧
      (packedTable.Named 1 ∧ packedTable.Named 2 ∧ packedTable.Named 3 ∧ packedTable.Named 4 ∧
        ¬ packedTable.Named 0 ∧ ¬ packedTable.Named 5) ∧
      (packedTable.nameOff 1 = 52 ∧ packedTable.nameOff 2 = 54 ∧ packedTable.nameOff 3 = 54 ∧
        packedTable.nameOff 4 = 56) ∧
      (StrAt packedTable.mem (packedTable.base + packedTable.nameOff 1) [0x66] ∧
        StrAt packedTable.mem (packedTable.base + packedTable.nameOff 2) [0x67] ∧
        StrAt packedTable.mem (packedTable.base + packedTable.nameOff 3) [0x67] ∧
        StrAt packedTable.mem (packedTable.base + packedTable.nameOff 4) [0x68]) := by
  unfold StrAt StrAt
  decide +kernel

theorem packed_names : packedTable.name 1 = [0x66] ∧ packedTable.name 2 = [0x67] ∧
    packedTable.name 3 = [0x67] ∧ packedTable.name 4 = [0x68] := by
  obtain ⟨-, -, -, h1, h2, h3, h4⟩ := packed_reads
  exact ⟨run_cstr h1 (by decide), run_cstr h2 (by decide), run_cstr h3 (by decide),
    run_cstr h4 (by decide)⟩

theorem packed_textNames : TextNames packedTable := by
  obtain ⟨⟨hsize, hscanned, -⟩, ⟨-, -, -, -, h0, h5⟩, ⟨o1, o2, o3, o4⟩, h1, h2, h3, h4⟩ :=
    packed_reads
  refine ⟨?_, fun i hi hn => ?_⟩
  · rw [hsize]
    decide
  · rw [hscanned] at hi
    rw [hsize]
    obtain rfl | rfl | rfl | rfl | rfl | rfl :
      i = 0 ∨ i = 1 ∨ i = 2 ∨ i = 3 ∨ i = 4 ∨ i = 5 := by omega
    · exact absurd hn h0
    · exact ⟨[0x66], by decide, h1, by rw [o1]; decide⟩
    · exact ⟨[0x67], by decide, h2, by rw [o2]; decide⟩
    · exact ⟨[0x67], by decide, h3, by rw [o3]; decide⟩
    · exact ⟨[0x68], by decide, h4, by rw [o4]; decide⟩
    · exact absurd hn h5

theorem packed_searchedAlike : SearchedAlike packedTable := by
  obtain ⟨⟨-, hs, hr⟩, ⟨n1, n2, n3, n4, n0, n5⟩, -⟩ := packed_reads
  obtain ⟨e1, e2, e3, e4⟩ := packed_names
  have hnamed : ∀ i, 1 ≤ i → i ≤ 4 → packedTable.Named i := by
    intro i h1 h2
    obtain rfl | rfl | rfl | rfl : i = 1 ∨ i = 2 ∨ i = 3 ∨ i = 4 := by omega
    exacts [n1, n2, n3, n4]
  have hascending : packedTable.Ascending 4 := by
    intro i h1 h2
    obtain rfl | rfl | rfl : i = 1 ∨ i = 2 ∨ i = 3 := by omega
    · rw [e1, e2]
      decide
    · rw [e2, e3]
      decide
    · rw [e3, e4]
      decide
  have hcounted : packedTable.Counted 4 := ⟨by decide, hascending⟩
  have hbehind : ¬ packedTable.NamedBehind 4 := by
    rintro ⟨i, h1, h2, h3⟩
    obtain rfl : i = 5 := by omega
    exact n5 h3
  refine ⟨4, 4, ⟨by omega, hnamed, fun _ => n5⟩, ⟨by omega, hnamed, fun _ => n5⟩,
    ⟨fun _ => ⟨rfl, by decide, hbehind⟩, fun h => absurd hcounted h⟩,
    ⟨fun _ h => absurd h n0, fun _ a b hrun _ => ?_⟩⟩
  have h1 := hrun.low
  have h2 := hrun.le
  have h3 := hrun.high
  have hab := (hrun.same b (by omega) h3).mpr ⟨h2, Nat.le_refl b⟩
  by_cases he : a = b
  · rw [← he, landing_self h1 (by omega)]
  · -- the only run of two is met at its first entry
    obtain ⟨rfl, rfl⟩ : a = 2 ∧ b = 3 := by
      obtain rfl | rfl | rfl : a = 1 ∨ a = 2 ∨ a = 3 := by omega
      · obtain rfl | rfl | rfl : b = 2 ∨ b = 3 ∨ b = 4 := by omega
        all_goals
          simp only [e1, e2, e3, e4] at hab
          exact absurd hab (by decide)
      · obtain rfl | rfl : b = 3 ∨ b = 4 := by omega
        · exact ⟨rfl, rfl⟩
        · rw [e2, e4] at hab
          exact absurd hab (by decide)
      · obtain rfl : b = 4 := by omega
        rw [e3, e4] at hab
        exact absurd hab (by decide)
    rfl

/-- On a packed table both find the same, twice a name included. -/
theorem lookups_agree_packed : SearchedAlike packedTable ∧ SameLookups packed packedImage ∧
    ∀ host name, IsText name → Answers host packed.handle (encodeUtf8 name)
      ((packedTable.search (encodeUtf8 name) packed.handle.numNamedSyms.toNat).map
        packedTable.entry) (udynlinkLookupSymbol host (encodeUtf8 name)) packed := by
  obtain ⟨hbytes, hcount, hsyms⟩ :
      HasBytes packed.mem packedTable.base packedBytes ∧
        packed.handle.numNamedSyms = (computeNumNamedSyms packed.handle.pHeader).run packed.mem ∧
        parseSymbols packedBytes packedTable.size.toNat 6 0 = .ok packedImage.symbols := by
    unfold HasBytes
    decide +kernel
  have hlen : packedBytes.length = packedTable.size.toNat := by
    rw [packed_reads.1.1]
    rfl
  obtain ⟨hsearch, hiff⟩ := @lookups_agree_iff packed packedImage packedBytes 6 packed_textNames
    hcount hbytes hlen rfl hsyms
  exact ⟨packed_searchedAlike, hiff.mpr packed_searchedAlike, hsearch⟩

/-! ## A module name -/

/-- A module that is called `m`, and nothing else. -/
def namedOnlyRom : Mem := .ofWords 0x1000
  [0x4D4C4455, 0x03010000, 0, 0, 16, 0, 0, 0, 1, 0x1800000C, 0, 0x6D]

def namedOnly : State := ⟨namedOnlyRom, ⟨0x1000, 0, LoadMode.xip.bits, 0, 0⟩, []⟩

def namedOnlyBytes : Bytes := [1, 0, 0, 0, 12, 0, 0, 0x18, 0, 0, 0, 0, 0x6D, 0, 0, 0]

def namedOnlyImage : ModuleImage :=
  imageOf namedOnlyBytes [] [symbolOf namedOnlyBytes 16 0 0x1800000C 0] []

abbrev namedOnlyTable : SymTable := symTable namedOnly.mem namedOnly.handle.pHeader

theorem namedOnly_reads :
    (namedOnlyTable.size = 16 ∧ namedOnlyTable.scanned = 1 ∧ namedOnlyTable.readable = 1) ∧
      namedOnlyTable.Named 0 ∧ namedOnlyTable.nameOff 0 = 12 ∧
      StrAt namedOnlyTable.mem (namedOnlyTable.base + namedOnlyTable.nameOff 0) [0x6D] := by
  unfold StrAt StrAt
  decide +kernel

theorem namedOnly_textNames : TextNames namedOnlyTable := by
  obtain ⟨⟨hsize, hscanned, -⟩, -, hoff, hstr⟩ := namedOnly_reads
  refine ⟨?_, fun i hi _ => ?_⟩
  · rw [hsize]
    decide
  · obtain rfl : i = 0 := by omega
    exact ⟨[0x6D], by decide, hstr, by rw [hoff, hsize]; decide⟩

/-- The loader never stops at the name of the module. -/
theorem namedOnly_not_searchedAlike : ¬ SearchedAlike namedOnlyTable := by
  obtain ⟨⟨-, -, hr⟩, hnamed, -⟩ := namedOnly_reads
  rintro ⟨L, N, hL, -, -, hfound⟩
  have hbound := hL.bound
  obtain ⟨i, hm, -⟩ := hfound.first (by omega) hnamed
  have hf := hm.2 fun hc => hc.1 (by omega)
  have hlow := hf.low
  have hread := hf.readable
  omega

theorem module_name_lost_named : ¬ ∀ (w : State) (img : ModuleImage) (symtab : Bytes) (n : Nat),
    TextNames (symTable w.mem w.handle.pHeader) →
    w.handle.numNamedSyms = (computeNumNamedSyms w.handle.pHeader).run w.mem →
    HasBytes w.mem (symTable w.mem w.handle.pHeader).base symtab →
    symtab.length = (symTable w.mem w.handle.pHeader).size.toNat →
    symbolCount symtab (symTable w.mem w.handle.pHeader).size.toNat = .ok n →
    parseSymbols symtab (symTable w.mem w.handle.pHeader).size.toNat n 0 = .ok img.symbols →
    SameLookups w img := by
  intro hall
  obtain ⟨hbytes, hcount, hsyms⟩ :
      HasBytes namedOnly.mem namedOnlyTable.base namedOnlyBytes ∧
        namedOnly.handle.numNamedSyms =
          (computeNumNamedSyms namedOnly.handle.pHeader).run namedOnly.mem ∧
        parseSymbols namedOnlyBytes namedOnlyTable.size.toNat 1 0 =
          .ok namedOnlyImage.symbols := by
    unfold HasBytes
    decide +kernel
  have hlen : namedOnlyBytes.length = namedOnlyTable.size.toNat := by
    rw [namedOnly_reads.1.1]
    rfl
  have h := hall namedOnly namedOnlyImage namedOnlyBytes 1 namedOnly_textNames hcount hbytes hlen
    rfl hsyms
  exact namedOnly_not_searchedAlike ((sameLookups_iff namedOnly_textNames hcount hbytes hlen rfl
    hsyms).mp h)

end Udynlink.Parser
