import Udynlink.Footprints

/-!
# The validator against the format

What a section table has to satisfy is said over unbounded integers, apart from
how `getSectab` finds out. The two differ in two places: entries 1 and 2 of a
shorter table are read behind it, and the main sections are compared with the
header after the rounded addresses are cut to 32 bits.
-/

namespace Udynlink

open Machine

/-! ## The format -/

/-- The count in bits 7 to 1 of the flags. -/
def declaredSections (h : Header) : Nat := (h.flags &&& hdrSectionsMask).toNat / 2

structure HeaderFieldsValid (h : Header) : Prop where
  reserved : h.flags &&& 0xFF00 = 0
  version : makeVersion 3 1 ≤ h.udynlinkVersion
  count_pos : 0 < declaredSections h
  count_le : declaredSections h ≤ 63
  symtSize : h.symtSize.toNat ≤ maxImageSize.toNat

structure EntryValid (i : Nat) (e : SectEntry) : Prop where
  align : e.align.toNat.isPowerOfTwo ∧ 4 ≤ e.align.toNat
  size : 4 ∣ e.size.toNat
  cls : e.cls.toNat ≤ 2
  reserved : e.flags &&& 0x00FF0000 = 0
  main : e.flags &&& secFlagMain ≠ 0 ↔ i < 3
  ordered : i < 3 → e.cls.toNat = i
  named : 3 ≤ i → e.nameOff ≠ 0

/-- The name has a terminator inside the symbol table. -/
def NameEnds (m : Mem) (pPool : Addr) (symtSize nameOff : UInt32) : Prop :=
  ∃ k, nameOff.toNat + k < symtSize.toNat ∧ m (pPool + nameOff + UInt32.ofNat k) = 0

/-- Each entry by itself, and in order. -/
structure EntriesValid (m : Mem) (pPool : Addr) (symtSize : UInt32) (checkNames : Bool) (num : Nat)
    (es : Nat → SectEntry) : Prop where
  fields : ∀ i, i < num → EntryValid i (es i)
  names : checkNames = true → ∀ i, i < num → (es i).nameOff ≠ 0 →
    NameEnds m pPool symtSize (es i).nameOff
  first : (es 0).va = 0
  ascending : ∀ i, i + 1 < num →
    (es i).va.toNat + (es i).size.toNat ≤ (es (i + 1)).va.toNat

/-- `code_size` rounded up to the alignment of `.data`. -/
def exactDataVa (h : Header) (es : Nat → SectEntry) : Nat :=
  exactAlignUp h.codeSize.toNat (es 1).align.toNat

def exactBssVa (h : Header) (es : Nat → SectEntry) : Nat :=
  exactAlignUp (exactDataVa h es + h.dataSize.toNat) (es 2).align.toNat

structure MainSizesValid (h : Header) (es : Nat → SectEntry) : Prop where
  text : (es 0).size.toNat = exactDataVa h es
  dataVa : (es 1).va.toNat = exactDataVa h es
  data : (es 1).size = h.dataSize
  bssVa : (es 2).va.toNat = exactBssVa h es
  bss : (es 2).size = h.bssSize

/-- Entry `i` of the table behind the header at `p`. -/
def tableEntries (m : Mem) (p : Addr) : Nat → SectEntry :=
  entriesAt m (p + getSectabOffset (decodeHeader m p))

def TableEntriesValid (m : Mem) (p : Addr) (checkNames : Bool) : Prop :=
  EntriesValid m (getSymTablePointer p (decodeHeader m p)) (decodeHeader m p).symtSize checkNames
    (declaredSections (decodeHeader m p)) (tableEntries m p)

structure SectionTableValid (m : Mem) (p : Addr) (checkNames : Bool) : Prop where
  header : HeaderFieldsValid (decodeHeader m p)
  entries : TableEntriesValid m p checkNames
  three : 3 ≤ declaredSections (decodeHeader m p)
  main : MainSizesValid (decodeHeader m p) (tableEntries m p)

/-- The header, the symbol table, and the entries the header declares. -/
def DeclaredBytes (m : Mem) (p : Addr) (a : Addr) : Prop :=
  a ∈ (⟨p, 32⟩ : Span) ∨
    a ∈ (⟨getSymTablePointer p (decodeHeader m p), (decodeHeader m p).symtSize.toNat⟩ : Span) ∨
    a ∈ (⟨p + getSectabOffset (decodeHeader m p),
      24 * declaredSections (decodeHeader m p)⟩ : Span)

/-- The rounded addresses of the main sections are words. -/
def RoundingFits (h : Header) (es : Nat → SectEntry) : Prop :=
  exactDataVa h es < 2 ^ 32 ∧ exactBssVa h es < 2 ^ 32

/-! ## The header tests -/

variable {h : Header}

theorem getNumSectionsRaw_declared (hs : isSectioned h = true) :
    (getNumSectionsRaw h).toNat =
      if 0 < declaredSections h ∧ declaredSections h ≤ 63 then declaredSections h else 0 := by
  have hnum : (((h.flags &&& hdrSectionsMask) >>> 1).toUInt32).toNat = declaredSections h := by
    rw [UInt16.toNat_toUInt32, UInt16.toNat_shiftRight, declaredSections,
      show (1 : UInt16).toNat % 16 = 1 from rfl, Nat.shiftRight_eq_div_pow]
  have hmax : maxSections.toNat = 63 := rfl
  rw [getNumSectionsRaw, hs]
  simp only [Bool.not_true, Bool.false_or, Bool.or_eq_true, beq_iff_eq, decide_eq_true_eq]
  by_cases hc : 0 < declaredSections h ∧ declaredSections h ≤ 63
  · rw [if_pos hc, if_neg, hnum]
    rw [not_or]
    constructor
    · intro hz
      have := congrArg UInt32.toNat hz
      rw [hnum] at this
      exact absurd this (Nat.pos_iff_ne_zero.mp hc.1)
    · rw [gt_iff_lt, UInt32.lt_iff_toNat_lt, hnum, hmax]
      omega
  · rw [if_neg hc, if_pos]
    · rfl
    · by_cases hz : declaredSections h = 0
      · exact Or.inl (UInt32.toNat_inj.mp (hnum.trans hz))
      · refine Or.inr ?_
        rw [gt_iff_lt, UInt32.lt_iff_toNat_lt, hnum, hmax]
        omega

theorem sectabHeaderOk_iff (hs : isSectioned h = true) :
    sectabHeaderOk h = true ↔ HeaderFieldsValid h := by
  have hnum := getNumSectionsRaw_declared hs
  simp only [sectabHeaderOk, Bool.and_eq_true, beq_iff_eq, bne_iff_ne, ne_eq, Bool.not_eq_true',
    decide_eq_false_iff_not, UInt16.not_lt, gt_iff_lt, UInt32.not_lt]
  constructor
  · rintro ⟨⟨⟨hr, hv⟩, hc⟩, hm⟩
    by_cases hd : 0 < declaredSections h ∧ declaredSections h ≤ 63
    · exact ⟨hr, hv, hd.1, hd.2, UInt32.le_iff_toNat_le.mp hm⟩
    · rw [if_neg hd] at hnum
      exact absurd (UInt32.toNat_inj.mp hnum) hc
  · rintro ⟨hr, hv, hp, hl, hm⟩
    refine ⟨⟨⟨hr, hv⟩, fun hz => ?_⟩, UInt32.le_iff_toNat_le.mpr hm⟩
    rw [if_pos ⟨hp, hl⟩, hz] at hnum
    exact absurd hnum.symm (Nat.pos_iff_ne_zero.mp hp)

theorem getNumSectionsRaw_valid (hs : isSectioned h = true) (hv : HeaderFieldsValid h) :
    (getNumSectionsRaw h).toNat = declaredSections h := by
  rw [getNumSectionsRaw_declared hs, if_pos ⟨hv.count_pos, hv.count_le⟩]

/-! ## The entry tests -/

theorem and_sub_one_of_isPowerOfTwo {a : UInt32} (h : a.toNat.isPowerOfTwo) :
    a &&& (a - 1) = 0 := by
  have hpos := Nat.pos_of_isPowerOfTwo h
  obtain ⟨k, hk⟩ := h
  have hlt := a.toNat_lt
  have hsub : (a - 1).toNat = 2 ^ k - 1 := by
    rw [UInt32.toNat_sub, show (1 : UInt32).toNat = 1 from rfl]
    omega
  apply UInt32.toNat_inj.mp
  rw [UInt32.toNat_and, hsub, hk, Nat.and_two_pow_sub_one_eq_mod, Nat.mod_self]
  rfl

theorem size_and_three {x : UInt32} : x &&& 3 = 0 ↔ 4 ∣ x.toNat := by
  rw [← UInt32.toNat_inj, UInt32.toNat_and, show (3 : UInt32).toNat = 2 ^ 2 - 1 from rfl,
    Nat.and_two_pow_sub_one_eq_mod]
  exact (Nat.dvd_iff_mod_eq_zero ..).symm

theorem entryFieldsOk_iff {i : Nat} {e : SectEntry} :
    entryFieldsOk i e = true ↔ EntryValid i e := by
  have hcls : ¬ e.cls > secClassBss ↔ e.cls.toNat ≤ 2 := by
    rw [gt_iff_lt, UInt32.not_lt, UInt32.le_iff_toNat_le]
    rfl
  have hsame : i < 3 → (e.cls = UInt32.ofNat i ↔ e.cls.toNat = i) := fun hi => by
    rw [← UInt32.toNat_inj, toNat_ofNat_of_lt (by omega)]
  simp only [entryFieldsOk, Bool.and_eq_true, Bool.not_eq_true', Bool.or_eq_false_iff,
    decide_eq_false_iff_not, bne_eq_false_iff_eq, beq_iff_eq, UInt32.not_lt, hcls, size_and_three]
  constructor
  · rintro ⟨⟨⟨⟨⟨hge, hand⟩, hsize⟩, hc⟩, hr⟩, hm⟩
    have h4 : 4 ≤ e.align.toNat := UInt32.le_iff_toNat_le.mp hge
    have hp : e.align.toNat.isPowerOfTwo := by
      refine isPowerOfTwo_of_and_sub_one (fun hz => ?_) hand
      rw [hz] at h4
      exact absurd h4 (by decide)
    by_cases hi : i < 3
    · simp only [if_pos hi, Bool.not_eq_true', Bool.or_eq_false_iff, beq_eq_false_iff_ne,
        bne_eq_false_iff_eq] at hm
      exact ⟨⟨hp, h4⟩, hsize, hc, hr, iff_of_true hm.1 hi, fun _ => (hsame hi).mp hm.2,
        fun h3 => absurd hi (by omega)⟩
    · simp only [if_neg hi, Bool.and_eq_true, beq_iff_eq, bne_iff_ne] at hm
      exact ⟨⟨hp, h4⟩, hsize, hc, hr, iff_of_false (fun hne => hne hm.1) hi,
        fun h3 => absurd h3 hi, fun _ => hm.2⟩
  · rintro ⟨⟨hp, h4⟩, hsize, hc, hr, hmain, hord, hnamed⟩
    refine ⟨⟨⟨⟨⟨UInt32.le_iff_toNat_le.mpr h4, and_sub_one_of_isPowerOfTwo hp⟩, hsize⟩, hc⟩, hr⟩, ?_⟩
    by_cases hi : i < 3
    · simp only [if_pos hi, Bool.not_eq_true', Bool.or_eq_false_iff, beq_eq_false_iff_ne,
        bne_eq_false_iff_eq]
      exact ⟨hmain.mpr hi, (hsame hi).mpr (hord hi)⟩
    · simp only [if_neg hi, Bool.and_eq_true, beq_iff_eq, bne_iff_ne]
      exact ⟨not_not.mp fun hne => hi (hmain.mp hne), hnamed (Nat.not_lt.mp hi)⟩

theorem entryNamed_iff {pPool : Addr} {checkNames : Bool} {e : SectEntry} {m : Mem} :
    (entryNamed h pPool checkNames e).run m = true ↔
      (checkNames = true → e.nameOff ≠ 0 → NameEnds m pPool h.symtSize e.nameOff) := by
  rw [entryNamed, Reader.run_ite]
  by_cases hc : (checkNames && e.nameOff != 0) = true
  · have hboth : checkNames = true ∧ e.nameOff ≠ 0 := by simpa using hc
    rw [if_pos hc, entryNameOk, Reader.run_ite]
    by_cases hge : e.nameOff ≥ h.symtSize
    · rw [if_pos hge]
      refine iff_of_false Bool.false_ne_true fun hall => ?_
      obtain ⟨k, hk, -⟩ := hall hboth.1 hboth.2
      have := UInt32.le_iff_toNat_le.mp hge
      omega
    · have hlt := UInt32.not_le.mp hge
      rw [if_neg hge, Reader.memchr0_iff, UInt32.toNat_sub_of_le _ _ (UInt32.le_of_lt hlt)]
      have hlt' := UInt32.lt_iff_toNat_lt.mp hlt
      constructor
      · rintro ⟨k, hk, hm⟩ - -
        exact ⟨k, by omega, hm⟩
      · intro hall
        obtain ⟨k, hk, hm⟩ := hall hboth.1 hboth.2
        exact ⟨k, by omega, hm⟩
  · rw [if_neg hc]
    refine iff_of_true rfl fun hn h0 => absurd ?_ hc
    simp [hn, h0]

theorem entryOrderOk_iff {num : Nat} {es : Nat → SectEntry} (hpos : 0 < num) :
    (∀ i, i < num → entryOrderOk i (es (i - 1)) (es i) = true) ↔
      (es 0).va = 0 ∧ ∀ i, i + 1 < num →
        (es i).va.toNat + (es i).size.toNat ≤ (es (i + 1)).va.toNat := by
  have hsucc : ∀ i, entryOrderOk (i + 1) (es i) (es (i + 1)) = true ↔
      (es i).va.toNat + (es i).size.toNat ≤ (es (i + 1)).va.toNat := fun i => by
    simp [entryOrderOk]
  constructor
  · intro hall
    refine ⟨by simpa [entryOrderOk] using hall 0 hpos, fun i hi => ?_⟩
    exact (hsucc i).mp (hall (i + 1) hi)
  · rintro ⟨h0, hall⟩ i hi
    cases i with
    | zero => simpa [entryOrderOk] using h0
    | succ i => exact (hsucc i).mpr (hall i hi)

/-- The loop of the validator passes exactly the entries that are valid. -/
theorem checkEntries_valid_iff {m : Mem} {p : Addr} {checkNames : Bool} {zero : SectEntry}
    (hs : isSectioned (decodeHeader m p) = true) (hv : HeaderFieldsValid (decodeHeader m p)) :
    (checkEntries (decodeHeader m p) (getSymTablePointer p (decodeHeader m p))
      (p + getSectabOffset (decodeHeader m p)) checkNames
      (getNumSectionsRaw (decodeHeader m p)).toNat 0 zero).run m = true ↔
      TableEntriesValid m p checkNames := by
  rw [checkEntries_table_iff, NamesOk, getNumSectionsRaw_valid hs hv,
    entryOrderOk_iff hv.count_pos]
  simp only [entryFieldsOk_iff, entryNamed_iff]
  constructor
  · rintro ⟨hf, ⟨h0, ha⟩, hn⟩
    exact ⟨hf, fun hc i hi => hn i hi hc, h0, ha⟩
  · rintro ⟨hf, hn, h0, ha⟩
    exact ⟨hf, ⟨h0, ha⟩, fun i hi hc => hn hc i hi⟩

/-! ## The main sections -/

theorem toNat_and_not64 (x y : UInt64) : (x &&& ~~~y).toNat = Nat.ldiff x.toNat y.toNat := by
  apply Nat.eq_of_testBit_eq
  intro i
  rw [UInt64.toNat_and, Nat.testBit_and, Nat.testBit_ldiff]
  have hn : (~~~y).toNat.testBit i = (decide (i < 64) && !y.toNat.testBit i) := by
    change (~~~y.toBitVec).toNat.testBit i = _
    rw [BitVec.testBit_toNat, BitVec.getLsbD_not]
    rfl
  rw [hn]
  by_cases hi : i < 64
  · simp [hi]
  · have hx : x.toNat.testBit i = false :=
      Nat.testBit_lt_two_pow (Nat.lt_of_lt_of_le x.toNat_lt
        (Nat.pow_le_pow_right (by decide) (by omega)))
    simp [hx]

/-- Rounding in 64 bits is exact; only the result is cut. -/
theorem alignUpU32_toNat {value : UInt64} {align : UInt32} (ha : align ≠ 0)
    (hv : value.toNat < 2 ^ 34) :
    (alignUpU32 value align).toNat = exactAlignUp value.toNat align.toNat % 2 ^ 32 := by
  have hne : align.toNat ≠ 0 := fun hz => ha (UInt32.toNat_inj.mp hz)
  have hlt := align.toNat_lt
  have ha64 : align.toUInt64.toNat = align.toNat := UInt32.toNat_toUInt64 align
  have hm : (align.toUInt64 - 1).toNat = align.toNat - 1 := by
    rw [UInt64.toNat_sub, ha64, show (1 : UInt64).toNat = 1 from rfl]
    omega
  have hx : (value + align.toUInt64 - 1).toNat = value.toNat + align.toNat - 1 := by
    rw [UInt64.toNat_sub, UInt64.toNat_add, ha64, show (1 : UInt64).toNat = 1 from rfl]
    omega
  rw [alignUpU32, UInt64.toNat_toUInt32, toNat_and_not64, hx, hm, exactAlignUp, if_neg hne]

variable {es : Nat → SectEntry}

/-- Without a cut the comparison with the header is the comparison of the format. -/
theorem mainEntriesOk_iff (h1 : (es 1).align ≠ 0) (h2 : (es 2).align ≠ 0)
    (hfit : RoundingFits h es) :
    mainEntriesOk h (es 0) (es 1) (es 2) = true ↔ MainSizesValid h es := by
  obtain ⟨hd, hb⟩ := hfit
  have hcode : h.codeSize.toUInt64.toNat = h.codeSize.toNat := UInt32.toNat_toUInt64 _
  have hcl := h.codeSize.toNat_lt
  have hdl := h.dataSize.toNat_lt
  have hdata : (alignUpU32 h.codeSize.toUInt64 (es 1).align).toNat = exactDataVa h es := by
    rw [alignUpU32_toNat h1 (by omega), hcode]
    exact Nat.mod_eq_of_lt hd
  have hsum : ((alignUpU32 h.codeSize.toUInt64 (es 1).align).toUInt64 +
      h.dataSize.toUInt64).toNat = exactDataVa h es + h.dataSize.toNat := by
    rw [UInt64.toNat_add, UInt32.toNat_toUInt64, UInt32.toNat_toUInt64, hdata]
    omega
  have hbss : (alignUpU32 ((alignUpU32 h.codeSize.toUInt64 (es 1).align).toUInt64 +
      h.dataSize.toUInt64) (es 2).align).toNat = exactBssVa h es := by
    rw [alignUpU32_toNat h2 (by omega), hsum]
    exact Nat.mod_eq_of_lt hb
  simp only [mainEntriesOk, Bool.and_eq_true, beq_iff_eq]
  rw [← UInt32.toNat_inj, hdata, ← UInt32.toNat_inj (a := (es 1).va), hdata,
    ← UInt32.toNat_inj (a := (es 2).va), hbss]
  constructor
  · rintro ⟨⟨⟨⟨h0, h1⟩, h2⟩, h3⟩, h4⟩
    exact ⟨h0, h1, h2, h3, h4⟩
  · rintro ⟨h0, h1, h2, h3, h4⟩
    exact ⟨⟨⟨⟨h0, h1⟩, h2⟩, h3⟩, h4⟩

theorem MainSizesValid.fits (hm : MainSizesValid h es) : RoundingFits h es :=
  ⟨hm.dataVa ▸ UInt32.toNat_lt _, hm.bssVa ▸ UInt32.toNat_lt _⟩

/-! ## Acceptance -/

variable {m : Mem} {p : Addr} {checkNames : Bool}

/-- What `getSectab` accepts, as it finds out. -/
theorem getSectab_accepts_iff (hs : isSectioned (decodeHeader m p) = true) :
    ((getSectab p checkNames).run m).1 = .ok () ↔
      HeaderFieldsValid (decodeHeader m p) ∧ TableEntriesValid m p checkNames ∧
        mainEntriesOk (decodeHeader m p) (tableEntries m p 0) (tableEntries m p 1)
          (tableEntries m p 2) = true := by
  have htable : ∀ hv : HeaderFieldsValid (decodeHeader m p),
      (TableOk (decodeHeader m p) (getNumSectionsRaw (decodeHeader m p)).toNat
          (tableEntries m p) ∧ NamesOk m p (decodeHeader m p) checkNames ↔
        TableEntriesValid m p checkNames ∧ mainEntriesOk (decodeHeader m p) (tableEntries m p 0)
          (tableEntries m p 1) (tableEntries m p 2) = true) := by
    intro hv
    have hcheck := (checkEntries_table_iff m p (decodeHeader m p) checkNames
      ⟨0, 0, 0, 0, 0, 0⟩).symm.trans (checkEntries_valid_iff hs hv)
    constructor
    · rintro ⟨ht, hn⟩
      exact ⟨hcheck.mp ⟨ht.fields, ht.order, hn⟩, ht.main⟩
    · rintro ⟨he, hm⟩
      obtain ⟨hf, ho, hn⟩ := hcheck.mpr he
      exact ⟨⟨hs, (sectabHeaderOk_iff hs).mpr hv, rfl, hf, ho, hm⟩, hn⟩
  rcases getSectab_sectioned checkNames hs with ⟨ht, hn, hr⟩ | ⟨hbad, hr⟩
  · have hv := (sectabHeaderOk_iff hs).mp ht.header
    rw [hr]
    exact iff_of_true rfl ⟨hv, (htable hv).mp ⟨ht, hn⟩⟩
  · rw [hr]
    refine iff_of_false (by simp) ?_
    rintro ⟨hv, he⟩
    exact hbad ((htable hv).mpr he)

theorem align_ne_zero {i : Nat} {e : SectEntry} (he : EntryValid i e) : e.align ≠ 0 := by
  intro hz
  have h4 := he.align.2
  rw [hz] at h4
  exact absurd h4 (by decide)

/-- With three entries and no cut the validator accepts the format exactly. -/
theorem getSectab_valid_of_fits (hs : isSectioned (decodeHeader m p) = true)
    (h3 : 3 ≤ declaredSections (decodeHeader m p))
    (hfit : RoundingFits (decodeHeader m p) (tableEntries m p)) :
    ((getSectab p checkNames).run m).1 = .ok () ↔ SectionTableValid m p checkNames := by
  rw [getSectab_accepts_iff hs]
  constructor
  · rintro ⟨hv, he, hm⟩
    have h1 := align_ne_zero (he.fields 1 (by omega))
    have h2 := align_ne_zero (he.fields 2 (by omega))
    exact ⟨hv, he, h3, (mainEntriesOk_iff h1 h2 hfit).mp hm⟩
  · rintro ⟨hv, he, -, hm⟩
    have h1 := align_ne_zero (he.fields 1 (by omega))
    have h2 := align_ne_zero (he.fields 2 (by omega))
    exact ⟨hv, he, (mainEntriesOk_iff h1 h2 hfit).mpr hm⟩

/-! ## What it looks at -/

theorem within_entryNamed {P : Addr → Prop} {pPool : Addr} {e : SectEntry}
    (hP : Covers P ⟨pPool, h.symtSize.toNat⟩) : (entryNamed h pPool checkNames e).Within P m := by
  rw [entryNamed]
  refine Reader.within_ite (fun _ => ?_) fun _ => Reader.within_pure P _ m
  rw [entryNameOk]
  refine Reader.within_ite (fun _ => Reader.within_pure P _ m) fun hge => ?_
  have hlt := UInt32.not_le.mp hge
  refine Reader.within_memchr0 fun k hk => ?_
  rw [UInt32.toNat_sub_of_le _ _ (UInt32.le_of_lt hlt)] at hk
  have hsize := h.symtSize.toNat_lt
  rw [off_word_left]
  exact hP.off (by omega) (by omega)

theorem within_checkEntries {P : Addr → Prop} {pPool entries : Addr} {num n i : Nat}
    {prev : SectEntry} (hpool : Covers P ⟨pPool, h.symtSize.toNat⟩)
    (hentries : Covers P ⟨entries, 24 * num⟩) (hnum : 24 * num ≤ 2 ^ 32) (hi : i + n ≤ num) :
    (checkEntries h pPool entries checkNames n i prev).Within P m := by
  induction n generalizing i prev with
  | zero => exact Reader.within_pure P _ m
  | succ n ih =>
    rw [checkEntries, Reader.within_bind, readEntry, Reader.within_ofSpan]
    refine ⟨hentries.mono (off_subset (by omega) hnum), ?_⟩
    refine Reader.within_ite (fun _ => Reader.within_pure P _ m) fun _ => ?_
    rw [Reader.within_bind]
    refine ⟨within_entryNamed hpool, Reader.within_ite (fun _ => Reader.within_pure P _ m) fun _ => ?_⟩
    exact Reader.within_ite (fun _ => Reader.within_pure P _ m) fun _ => ih (by omega)

/-- Behind a table of one or two entries lies nothing that is declared. -/
theorem third_entry_undeclared (hlt : declaredSections (decodeHeader m p) < 3)
    (hsym : (decodeHeader m p).symtSize.toNat ≤ maxImageSize.toNat) :
    ¬ DeclaredBytes m p (p + getSectabOffset (decodeHeader m p) + 48) := by
  have hmax : maxImageSize.toNat = 4 * 1024 * 1024 := rfl
  have h4 : (4 : Nat).isPowerOfTwo := ⟨2, rfl⟩
  have hge := getHeaderSize_ge (decodeHeader m p)
  have hle := getHeaderSize_le (decodeHeader m p)
  have hrel := (decodeHeader m p).numRels.toNat_lt
  have hend := le_exactAlignUp (x := (getHeaderSize (decodeHeader m p)).toNat +
    8 * (decodeHeader m p).numRels.toNat + (decodeHeader m p).symtSize.toNat) h4
  have hup := exactAlignUp_lt (x := (getHeaderSize (decodeHeader m p)).toNat +
    8 * (decodeHeader m p).numRels.toNat + (decodeHeader m p).symtSize.toNat) h4
  rw [DeclaredBytes, getSectabOffset, getSymtabEndOffset_eq, getSymTablePointer_eq,
    show (48 : UInt32) = UInt32.ofNat 48 from rfl, off_off]
  rw [exactSymtabEnd]
  rintro (hmem | hmem | hmem)
  · obtain ⟨i, hi, he⟩ := exists_off hmem
    have := off_inj (by omega) (by omega) he
    omega
  · obtain ⟨i, hi, he⟩ := exists_off hmem
    rw [off_off] at he
    have := off_inj (by omega) (by omega) he
    omega
  · obtain ⟨i, hi, he⟩ := exists_off hmem
    rw [off_off] at he
    have := off_inj (by omega) (by omega) he
    omega

/-- The validator stays inside what is declared unless it gets past the entries
of a table that is too short. -/
theorem within_getSectab_iff (hs : isSectioned (decodeHeader m p) = true) :
    (getSectab p checkNames).Within (DeclaredBytes m p) m ↔
      (HeaderFieldsValid (decodeHeader m p) → TableEntriesValid m p checkNames →
        3 ≤ declaredSections (decodeHeader m p)) := by
  have hheader : (readHeader p).Within (DeclaredBytes m p) m :=
    within_readHeader (fun a ha => Or.inl ha) m
  have hpool : Covers (DeclaredBytes m p)
      ⟨getSymTablePointer p (decodeHeader m p), (decodeHeader m p).symtSize.toNat⟩ :=
    fun a ha => Or.inr (Or.inl ha)
  have htable : Covers (DeclaredBytes m p) ⟨p + getSectabOffset (decodeHeader m p),
      24 * declaredSections (decodeHeader m p)⟩ := fun a ha => Or.inr (Or.inr ha)
  rw [getSectab, Reader.within_bind, readHeader_run]
  simp only [hs, Bool.not_true, Bool.false_eq_true, if_false]
  by_cases hv : HeaderFieldsValid (decodeHeader m p)
  swap
  · have hbad : (!sectabHeaderOk (decodeHeader m p)) = true := by
      rw [Bool.not_eq_true', Bool.eq_false_iff]
      exact fun hok => hv ((sectabHeaderOk_iff hs).mp hok)
    rw [if_pos hbad]
    exact iff_of_true ⟨hheader, Reader.within_pure _ _ m⟩ fun h => absurd h hv
  have hok : ¬ (!sectabHeaderOk (decodeHeader m p)) = true := by
    rw [(sectabHeaderOk_iff hs).mpr hv]
    decide
  rw [if_neg hok, Reader.within_bind]
  have hnum := getNumSectionsRaw_valid hs hv
  have hcount := hv.count_le
  have hloop : (checkEntries (decodeHeader m p) (getSymTablePointer p (decodeHeader m p))
      (p + getSectabOffset (decodeHeader m p)) checkNames
      (getNumSectionsRaw (decodeHeader m p)).toNat 0 ⟨0, 0, 0, 0, 0, 0⟩).Within
      (DeclaredBytes m p) m := within_checkEntries hpool htable (by omega) (by omega)
  by_cases he : TableEntriesValid m p checkNames
  swap
  · have hstop : (!(checkEntries (decodeHeader m p) (getSymTablePointer p (decodeHeader m p))
        (p + getSectabOffset (decodeHeader m p)) checkNames
        (getNumSectionsRaw (decodeHeader m p)).toNat 0 ⟨0, 0, 0, 0, 0, 0⟩).run m) = true := by
      rw [Bool.not_eq_true', Bool.eq_false_iff]
      exact fun hrun => he ((checkEntries_valid_iff hs hv).mp hrun)
    rw [if_pos hstop]
    exact iff_of_true ⟨hheader, hloop, Reader.within_pure _ _ m⟩ fun _ h => absurd h he
  have hgo : ¬ (!(checkEntries (decodeHeader m p) (getSymTablePointer p (decodeHeader m p))
      (p + getSectabOffset (decodeHeader m p)) checkNames
      (getNumSectionsRaw (decodeHeader m p)).toNat 0 ⟨0, 0, 0, 0, 0, 0⟩).run m) = true := by
    rw [(checkEntries_valid_iff hs hv).mpr he]
    decide
  rw [if_neg hgo, Reader.within_bind, Reader.within_bind, Reader.within_bind, readEntry, readEntry,
    readEntry, Reader.within_ofSpan, Reader.within_ofSpan, Reader.within_ofSpan]
  constructor
  · rintro ⟨-, -, -, -, h2, -⟩ - -
    by_contra hlt
    refine third_entry_undeclared (by omega) hv.symtSize (h2 _ ?_)
    rw [Span.mem_def, UInt32.sub_self]
    exact Nat.succ_pos 23
  · intro h3
    have hlen := h3 hv he
    have hsub : ∀ k, k + 24 ≤ 72 → Covers (DeclaredBytes m p)
        ⟨p + getSectabOffset (decodeHeader m p) + UInt32.ofNat k, 24⟩ := fun k hk =>
      htable.mono (off_subset (by omega) (by omega))
    have h0 := hsub 0 (by decide)
    rw [off_zero] at h0
    refine ⟨hheader, hloop, h0, hsub 24 (by decide), hsub 48 (by decide), ?_⟩
    exact Reader.within_ite (fun _ => Reader.within_pure _ _ m) fun _ => Reader.within_pure _ _ m

/-- The condition under which the validator is the format: entries that pass by
themselves are at least three, and no rounding of the main sections is cut. -/
def ValidatorExact (m : Mem) (p : Addr) (checkNames : Bool) : Prop :=
  HeaderFieldsValid (decodeHeader m p) → TableEntriesValid m p checkNames →
    3 ≤ declaredSections (decodeHeader m p) ∧
      (mainEntriesOk (decodeHeader m p) (tableEntries m p 0) (tableEntries m p 1)
        (tableEntries m p 2) = true → RoundingFits (decodeHeader m p) (tableEntries m p))

theorem getSectab_exact_iff (hs : isSectioned (decodeHeader m p) = true) :
    ((((getSectab p checkNames).run m).1 = .ok () ↔ SectionTableValid m p checkNames) ∧
      (getSectab p checkNames).Within (DeclaredBytes m p) m) ↔ ValidatorExact m p checkNames := by
  rw [within_getSectab_iff hs]
  constructor
  · rintro ⟨hiff, h3⟩ hv he
    refine ⟨h3 hv he, fun hm => ?_⟩
    exact (hiff.mp ((getSectab_accepts_iff hs).mpr ⟨hv, he, hm⟩)).main.fits
  · intro hex
    refine ⟨?_, fun hv he => (hex hv he).1⟩
    by_cases hpass : HeaderFieldsValid (decodeHeader m p) ∧ TableEntriesValid m p checkNames
    · obtain ⟨hv, he⟩ := hpass
      obtain ⟨h3, hfit⟩ := hex hv he
      by_cases hm : mainEntriesOk (decodeHeader m p) (tableEntries m p 0) (tableEntries m p 1)
          (tableEntries m p 2) = true
      · exact getSectab_valid_of_fits hs h3 (hfit hm)
      · refine iff_of_false (fun hok => hm ((getSectab_accepts_iff hs).mp hok).2.2) fun ht => hm ?_
        have h1 := align_ne_zero (ht.entries.fields 1 (by omega))
        have h2 := align_ne_zero (ht.entries.fields 2 (by omega))
        exact (mainEntriesOk_iff h1 h2 ht.main.fits).mpr ht.main
    · refine iff_of_false (fun hok => hpass ?_) fun ht => hpass ⟨ht.header, ht.entries⟩
      have hacc := (getSectab_accepts_iff hs).mp hok
      exact ⟨hacc.1, hacc.2.1⟩

/-! ## A table of one entry -/

/-- One empty entry; the words behind it compare with the header as `.data` and
`.bss` would. -/
def oneEntryRom : Mem := .ofWords 0x1000
  [0x4D4C4455, 0x03010000, 0, 0x00030000, 4, 0, 0, 0, 0,
    0, 0, 0, 4, 0, 0x80000000, 0, 0, 0, 4, 1, 0x80000000, 0, 0, 0, 4, 2, 0x80000000]

theorem getSectab_exact_iff_oneEntry :
    ((((getSectab 0x1000 true).run oneEntryRom).1 = .ok () ↔
        SectionTableValid oneEntryRom 0x1000 true) ∧
      (getSectab 0x1000 true).Within (DeclaredBytes oneEntryRom 0x1000) oneEntryRom) ↔
        ValidatorExact oneEntryRom 0x1000 true :=
  getSectab_exact_iff (by decide +kernel)

/-- A table that declares a single entry is accepted, by the words behind it. -/
theorem one_entry_table_accepted :
    ((getSectab 0x1000 true).run oneEntryRom).1 = .ok () ∧
      ¬ SectionTableValid oneEntryRom 0x1000 true := by
  refine ⟨by decide +kernel, fun h => ?_⟩
  have h3 := h.three
  have h1 : declaredSections (decodeHeader oneEntryRom 0x1000) = 1 := by decide +kernel
  omega

end Udynlink
