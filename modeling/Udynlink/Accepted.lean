import Udynlink.Exact

/-!
# What an accepted section table satisfies

`getSectab` accepts a table exactly when `TableOk` holds of the decoded header
and entries, and the names are terminated where they are checked. Tables of one
or two entries are accepted as well; the entries up to index 2 are then read
behind the table and only compared with the header.
-/

namespace Udynlink

open Machine

structure TableOk (h : Header) (num : Nat) (es : Nat → SectEntry) : Prop where
  sectioned : isSectioned h = true
  header : sectabHeaderOk h = true
  count : num = (getNumSectionsRaw h).toNat
  fields : ∀ i, i < num → entryFieldsOk i (es i) = true
  order : ∀ i, i < num → entryOrderOk i (es (i - 1)) (es i) = true
  main : mainEntriesOk h (es 0) (es 1) (es 2) = true

/-! ## The validator -/

theorem checkEntries_true_iff (h : Header) (pPool entries : Addr) (checkNames : Bool) (m : Mem)
    (n i : Nat) (prev : SectEntry) :
    (checkEntries h pPool entries checkNames n i prev).run m = true ↔
      ∀ k, k < n → entryFieldsOk (i + k) (entriesAt m entries (i + k)) = true ∧
        (entryNamed h pPool checkNames (entriesAt m entries (i + k))).run m = true ∧
        entryOrderOk (i + k) (if k = 0 then prev else entriesAt m entries (i + k - 1))
          (entriesAt m entries (i + k)) = true := by
  induction n generalizing i prev with
  | zero => exact iff_of_true rfl fun k hk => absurd hk (Nat.not_lt_zero k)
  | succ n ih =>
    rw [checkEntries, Reader.run_bind, readEntry_run,
      show decodeEntry m (entries + UInt32.ofNat (24 * i)) = entriesAt m entries i from rfl]
    constructor
    · intro hrun
      rw [Reader.run_ite] at hrun
      split at hrun
      next => simp at hrun
      next hf =>
        rw [Reader.run_bind, Reader.run_ite] at hrun
        split at hrun
        next => simp at hrun
        next hn =>
          rw [Reader.run_ite] at hrun
          split at hrun
          next => simp at hrun
          next ho =>
            have hrest := (ih _ _).mp hrun
            intro k hk
            cases k with
            | zero =>
              exact ⟨by simpa using hf, by simpa using hn, by simpa using ho⟩
            | succ k =>
              have hk' := hrest k (by omega)
              rw [show i + (k + 1) = i + 1 + k by omega, if_neg (by omega)]
              refine ⟨hk'.1, hk'.2.1, ?_⟩
              have hord := hk'.2.2
              split at hord
              next hz =>
                subst hz
                exact hord
              next => exact hord
    · intro hall
      obtain ⟨hf, hn, ho⟩ := hall 0 (by omega)
      rw [Nat.add_zero] at hf hn ho
      rw [if_pos rfl] at ho
      rw [Reader.run_ite, if_neg (by simp [hf]), Reader.run_bind, hn, Reader.run_ite,
        if_neg (by simp), Reader.run_ite, if_neg (by simpa using ho)]
      refine (ih _ _).mpr fun k hk => ?_
      obtain ⟨hf', hn', ho'⟩ := hall (k + 1) (by omega)
      rw [show i + (k + 1) = i + 1 + k by omega] at hf' hn' ho'
      rw [if_neg (by omega)] at ho'
      refine ⟨hf', hn', ?_⟩
      split
      next hz =>
        subst hz
        exact ho'
      next => exact ho'

/-- The view of an accepted sectioned header at `p`. -/
def sectView (p : Addr) (h : Header) : SectView where
  pEntries := p + getSectabOffset h
  pPool := getSymTablePointer p h
  num := (getNumSectionsRaw h).toNat

/-- Names are terminated inside the symbol table wherever they are checked. -/
def NamesOk (m : Mem) (p : Addr) (h : Header) (checkNames : Bool) : Prop :=
  ∀ i, i < (getNumSectionsRaw h).toNat →
    (entryNamed h (getSymTablePointer p h) checkNames
      (entriesAt m (p + getSectabOffset h) i)).run m = true

theorem namesOk_false (m : Mem) (p : Addr) (h : Header) : NamesOk m p h false := fun _ _ => rfl

theorem checkEntries_table_iff (m : Mem) (p : Addr) (h : Header) (checkNames : Bool)
    (zero : SectEntry) :
    (checkEntries h (getSymTablePointer p h) (p + getSectabOffset h) checkNames
      (getNumSectionsRaw h).toNat 0 zero).run m = true ↔
      (∀ i, i < (getNumSectionsRaw h).toNat →
        entryFieldsOk i (entriesAt m (p + getSectabOffset h) i) = true) ∧
      (∀ i, i < (getNumSectionsRaw h).toNat →
        entryOrderOk i (entriesAt m (p + getSectabOffset h) (i - 1))
          (entriesAt m (p + getSectabOffset h) i) = true) ∧ NamesOk m p h checkNames := by
  rw [checkEntries_true_iff]
  simp only [Nat.zero_add]
  constructor
  · intro hall
    refine ⟨fun i hi => (hall i hi).1, fun i hi => ?_, fun i hi => (hall i hi).2.1⟩
    have ho := (hall i hi).2.2
    cases i with
    | zero => exact ho
    | succ i => exact ho
  · rintro ⟨hf, ho, hn⟩ k hk
    refine ⟨hf k hk, hn k hk, ?_⟩
    cases k with
    | zero => exact ho 0 hk
    | succ k => exact ho (k + 1) hk

theorem getSectab_untagged {m : Mem} {p : Addr} {checkNames : Bool}
    (hs : isSectioned (decodeHeader m p) = false) :
    (getSectab p checkNames).run m =
      (if (decodeHeader m p).flags &&& hdrSectionsMask ≠ 0 then .error .loadBadSectionTable
        else .ok (), ⟨0, getSymTablePointer p (decodeHeader m p), 0⟩) := by
  rw [getSectab, Reader.run_bind, readHeader_run]
  simp only [hs, Bool.not_false, if_true]
  rw [Reader.run_ite]
  split <;> rfl

/-- The validator on a sectioned header: the view, or one error. -/
theorem getSectab_sectioned {m : Mem} {p : Addr} (checkNames : Bool)
    (hs : isSectioned (decodeHeader m p) = true) :
    (TableOk (decodeHeader m p) (getNumSectionsRaw (decodeHeader m p)).toNat
        (entriesAt m (p + getSectabOffset (decodeHeader m p))) ∧
      NamesOk m p (decodeHeader m p) checkNames ∧
      (getSectab p checkNames).run m = (.ok (), sectView p (decodeHeader m p))) ∨
    (¬ (TableOk (decodeHeader m p) (getNumSectionsRaw (decodeHeader m p)).toNat
        (entriesAt m (p + getSectabOffset (decodeHeader m p))) ∧
      NamesOk m p (decodeHeader m p) checkNames) ∧
      (getSectab p checkNames).run m =
        (.error .loadBadSectionTable, ⟨0, getSymTablePointer p (decodeHeader m p), 0⟩)) := by
  rw [getSectab, Reader.run_bind, readHeader_run]
  simp only [hs, Bool.not_true, Bool.false_eq_true, if_false]
  rw [Reader.run_ite]
  split
  next hh =>
    refine Or.inr ⟨fun ht => ?_, rfl⟩
    rw [ht.1.header] at hh
    exact absurd hh (by simp)
  next hh =>
    rw [Reader.run_bind, Reader.run_ite]
    split
    next hc =>
      refine Or.inr ⟨fun ht => ?_, rfl⟩
      have htrue := (checkEntries_table_iff m p _ checkNames ⟨0, 0, 0, 0, 0, 0⟩).mpr
        ⟨ht.1.fields, ht.1.order, ht.2⟩
      rw [htrue] at hc
      exact absurd hc (by simp)
    next hc =>
      obtain ⟨hf, ho, hn⟩ := (checkEntries_table_iff m p _ checkNames ⟨0, 0, 0, 0, 0, 0⟩).mp
        (by simpa using hc)
      have h0 : decodeEntry m (p + getSectabOffset (decodeHeader m p)) =
          entriesAt m (p + getSectabOffset (decodeHeader m p)) 0 := by
        rw [entriesAt, Nat.mul_zero, off_zero]
      have h1 : decodeEntry m (p + getSectabOffset (decodeHeader m p) + 24) =
          entriesAt m (p + getSectabOffset (decodeHeader m p)) 1 := rfl
      have h2 : decodeEntry m (p + getSectabOffset (decodeHeader m p) + 48) =
          entriesAt m (p + getSectabOffset (decodeHeader m p)) 2 := rfl
      rw [Reader.run_bind, Reader.run_bind, Reader.run_bind, Reader.run_ite, readEntry_run,
        readEntry_run, readEntry_run, h0, h1, h2]
      split
      next hm =>
        refine Or.inr ⟨fun ht => ?_, rfl⟩
        rw [ht.1.main] at hm
        exact absurd hm (by simp)
      next hm =>
        refine Or.inl ⟨⟨hs, by simpa using hh, rfl, hf, ho, ?_⟩, hn, rfl⟩
        simpa only [Bool.not_eq_true', Bool.not_eq_false] using hm

/-- An accepted header: the untagged view, or the view of a good table. -/
theorem getSectab_ok {m : Mem} {p : Addr} {checkNames : Bool} {tab : SectView}
    (h : (getSectab p checkNames).run m = (.ok (), tab)) :
    (isSectioned (decodeHeader m p) = false ∧
      tab = ⟨0, getSymTablePointer p (decodeHeader m p), 0⟩) ∨
    (tab = sectView p (decodeHeader m p) ∧
      TableOk (decodeHeader m p) tab.num (entriesAt m tab.pEntries) ∧
      NamesOk m p (decodeHeader m p) checkNames) := by
  cases hs : isSectioned (decodeHeader m p) with
  | false =>
    rw [getSectab_untagged hs] at h
    exact Or.inl ⟨rfl, (congrArg Prod.snd h).symm⟩
  | true =>
    rcases getSectab_sectioned checkNames hs with ⟨ht, hn, hr⟩ | ⟨-, hr⟩
    · rw [hr] at h
      have htab : tab = sectView p (decodeHeader m p) := (congrArg Prod.snd h).symm
      subst htab
      exact Or.inr ⟨rfl, ht, hn⟩
    · rw [hr] at h
      exact absurd (congrArg Prod.fst h) (by simp)

/-! ## Consequences -/

theorem getNumSectionsRaw_le (h : Header) : (getNumSectionsRaw h).toNat ≤ 63 := by
  rw [getNumSectionsRaw]
  split
  next => decide
  next hn =>
    simp only [Bool.or_eq_true, decide_eq_true_eq, not_or, Bool.not_eq_true', beq_iff_eq] at hn
    exact UInt32.not_lt.mp hn.2

theorem getNumSectionsRaw_untagged {h : Header} (hs : isSectioned h = false) :
    getNumSectionsRaw h = 0 := by
  rw [getNumSectionsRaw, hs]
  rfl

namespace TableOk

variable {h : Header} {num : Nat} {es : Nat → SectEntry}

/-- Nothing past the entries counts, once there are three. -/
theorem congr {es' : Nat → SectEntry} (ht : TableOk h num es) (h3 : 3 ≤ num)
    (he : ∀ i, i < num → es' i = es i) : TableOk h num es' := by
  refine ⟨ht.sectioned, ht.header, ht.count, fun i hi => ?_, fun i hi => ?_, ?_⟩
  · rw [he i hi]
    exact ht.fields i hi
  · rw [he i hi, he (i - 1) (by omega)]
    exact ht.order i hi
  · rw [he 0 (by omega), he 1 (by omega), he 2 (by omega)]
    exact ht.main

theorem num_le (ht : TableOk h num es) : num ≤ 63 := ht.count ▸ getNumSectionsRaw_le h

theorem num_pos (ht : TableOk h num es) : 0 < num := by
  have hh := ht.header
  simp only [sectabHeaderOk, Bool.and_eq_true, bne_iff_ne, ne_eq] at hh
  have hne := hh.1.2
  rw [ht.count]
  exact Nat.pos_of_ne_zero fun hz => hne (UInt32.toNat_inj.mp hz)

theorem symtSize_le (ht : TableOk h num es) : h.symtSize.toNat ≤ 4 * 1024 * 1024 := by
  have hh := ht.header
  simp only [sectabHeaderOk, Bool.and_eq_true, Bool.not_eq_true', decide_eq_false_iff_not] at hh
  exact UInt32.not_lt.mp hh.2

theorem align_isPowerOfTwo (ht : TableOk h num es) {i : Nat} (hi : i < num) :
    (es i).align.toNat.isPowerOfTwo ∧ 4 ≤ (es i).align.toNat := by
  have hf := ht.fields i hi
  simp only [entryFieldsOk, Bool.and_eq_true, Bool.not_eq_true', Bool.or_eq_false_iff,
    decide_eq_false_iff_not, bne_eq_false_iff_eq] at hf
  obtain ⟨⟨⟨⟨⟨hge, hand⟩, -⟩, -⟩, -⟩, -⟩ := hf
  have h4 : 4 ≤ (es i).align.toNat := UInt32.not_lt.mp hge
  refine ⟨isPowerOfTwo_of_and_sub_one (fun hz => ?_) hand, h4⟩
  rw [hz] at h4
  exact absurd h4 (by decide)

theorem size_mod (ht : TableOk h num es) {i : Nat} (hi : i < num) : (es i).size.toNat % 4 = 0 := by
  have hf := ht.fields i hi
  simp only [entryFieldsOk, Bool.and_eq_true, beq_iff_eq] at hf
  have hs := congrArg UInt32.toNat hf.1.1.1.2
  rw [UInt32.toNat_and] at hs
  exact (Nat.and_two_pow_sub_one_eq_mod _ 2).symm.trans hs

theorem cls_main (ht : TableOk h num es) {i : Nat} (hi : i < num) (h3 : i < 3) :
    (es i).cls = UInt32.ofNat i := by
  have hf := ht.fields i hi
  simp only [entryFieldsOk, Bool.and_eq_true, if_pos h3, Bool.not_eq_true', Bool.or_eq_false_iff,
    bne_eq_false_iff_eq] at hf
  exact hf.2.2

theorem cls_le (ht : TableOk h num es) {i : Nat} (hi : i < num) : (es i).cls ≤ secClassBss := by
  have hf := ht.fields i hi
  simp only [entryFieldsOk, Bool.and_eq_true, Bool.not_eq_true', decide_eq_false_iff_not] at hf
  exact UInt32.not_lt.mp hf.1.1.2

/-- Entries ascend and do not overlap. -/
theorem va_succ (ht : TableOk h num es) {i : Nat} (hi : i + 1 < num) :
    (es i).va.toNat + (es i).size.toNat ≤ (es (i + 1)).va.toNat := by
  have ho := ht.order (i + 1) hi
  simp only [entryOrderOk, Nat.add_eq_zero_iff, one_ne_zero, and_false, if_false,
    Nat.add_sub_cancel, Bool.not_eq_true', decide_eq_false_iff_not, Nat.not_lt] at ho
  exact ho

theorem va_mono (ht : TableOk h num es) {i j : Nat} (hij : i < j) (hj : j < num) :
    (es i).va.toNat + (es i).size.toNat ≤ (es j).va.toNat := by
  induction j with
  | zero => exact absurd hij (Nat.not_lt_zero i)
  | succ j ih =>
    have hs := ht.va_succ hj
    rcases Nat.lt_or_ge i j with hlt | hge
    · have := ih hlt (by omega)
      omega
    · rw [show i = j by omega]
      exact hs

theorem text_size (ht : TableOk h num es) : (es 0).size = (es 1).va := by
  have hm := ht.main
  simp only [mainEntriesOk, Bool.and_eq_true, beq_iff_eq] at hm
  exact hm.1.1.1.1.trans hm.1.1.1.2.symm

theorem data_size (ht : TableOk h num es) : (es 1).size = h.dataSize := by
  have hm := ht.main
  simp only [mainEntriesOk, Bool.and_eq_true, beq_iff_eq] at hm
  exact hm.1.1.2

/-- The metadata of an accepted sectioned image never wraps. -/
theorem exactCodeOffset_lt (ht : TableOk h num es) : exactCodeOffset h < 2 ^ 23 := by
  have hs := ht.symtSize_le
  have hr := h.numRels.toNat_lt
  have hn := getNumSectionsRaw_le h
  have hhs : (getHeaderSize h).toNat ≤ 36 := by
    rw [getHeaderSize]
    split_ifs <;> decide
  have h4 : (4 : Nat).isPowerOfTwo := ⟨2, rfl⟩
  have he := exactAlignUp_lt (x := (getHeaderSize h).toNat + 8 * h.numRels.toNat +
    h.symtSize.toNat) h4
  have hc := exactAlignUp_lt (x := exactSymtabEnd h + 24 * (getNumSectionsRaw h).toNat) h4
  rw [exactCodeOffset]
  rw [exactSymtabEnd] at hc ⊢
  omega

end TableOk

end Udynlink
