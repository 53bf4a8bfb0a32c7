import Udynlink.Accepted
import Udynlink.Loader

/-!
# What the walks look at

The header behind the handle, the entries of the table, the base array, the
symbol table and the relocation table: a set of addresses that covers these
covers every read of the relocation walks, whatever the values found.
-/

namespace Udynlink

open Machine

/-- Every entry a query on the view can look at. -/
structure ViewIn (P : Addr → Prop) (tab : SectView) : Prop where
  entries : tab.num ≠ 0 → ∀ i, i < tab.num ∨ i < 3 →
    Covers P ⟨tab.pEntries + UInt32.ofNat (24 * i), 24⟩

/-- The header behind the handle and the words of its base array. -/
structure ModIn (P : Addr → Prop) (mod : Module) (num : Nat) (m : Mem) : Prop where
  header : Covers P ⟨mod.pHeader, 32⟩
  bases : ∀ k, 3 ≤ k → k < num → Covers P ⟨baseSlot mod (decodeHeader m mod.pHeader) k, 4⟩

variable {P : Addr → Prop} {tab : SectView} {mod : Module} {m : Mem}

theorem within_readHeader {p : Addr} (h : Covers P ⟨p, 32⟩) (m : Mem) :
    (readHeader p).Within P m := Reader.within_ofSpan.mpr h

theorem within_sectEntryAt (h : ViewIn P tab) (hn : tab.num ≠ 0) {i : Nat}
    (hi : i < tab.num ∨ i < 3) (m : Mem) :
    (sectEntryAt tab i).Within P m := by
  rw [sectEntryAt, readEntry, Reader.within_ofSpan]
  exact h.entries hn i hi

theorem within_entrySpan (h : ViewIn P tab) (i : Nat) (e : SectEntry) (m : Mem) :
    (entrySpan tab i e).Within P m := by
  rw [entrySpan]
  refine Reader.within_ite (fun hc => ?_) fun _ => Reader.within_pure P _ m
  simp only [Bool.and_eq_true, decide_eq_true_eq] at hc
  exact Reader.within_bind.mpr ⟨within_sectEntryAt h (by omega) (Or.inl hc.2) m, Reader.within_pure P _ m⟩

theorem within_sectFindLoop (h : ViewIn P tab) (va : UInt32) {n i : Nat} (hi : i + n ≤ tab.num)
    (m : Mem) : (sectFindLoop tab va n i).Within P m := by
  induction n generalizing i with
  | zero => exact Reader.within_pure P _ m
  | succ n ih =>
    rw [sectFindLoop, Reader.within_bind]
    refine ⟨within_sectEntryAt h (by omega) (Or.inl (by omega)) m, ?_⟩
    refine Reader.within_ite (fun _ => Reader.within_pure P _ m) fun _ => ?_
    rw [Reader.within_bind]
    refine ⟨within_entrySpan h i _ m, ?_⟩
    exact Reader.within_ite (fun _ => Reader.within_pure P _ m) fun _ => ih (by omega)

theorem within_sectFindByVa (h : ViewIn P tab) (va : UInt32) (m : Mem) :
    (sectFindByVa tab va).Within P m := within_sectFindLoop h va (by omega) m

theorem within_mainOffsetLoop (h : ViewIn P tab) (hn : tab.num ≠ 0) (idx : Nat) {n i : Nat} (off : UInt32)
    (hi : i + n ≤ 3) (m : Mem) : (mainOffsetLoop tab idx n i off).Within P m := by
  induction n generalizing i off with
  | zero => exact Reader.within_pure P _ m
  | succ n ih =>
    rw [mainOffsetLoop, Reader.within_bind]
    refine ⟨within_sectEntryAt h hn (Or.inr (by omega)) m, ?_⟩
    exact Reader.within_ite (fun _ => Reader.within_pure P _ m) fun _ => ih _ (by omega)

theorem within_getMainSectionOffset (h : ViewIn P tab) (hd : Header) (mode : LoadMode) {idx : Nat}
    (hi : idx < 3) (m : Mem) : (getMainSectionOffset hd tab mode idx).Within P m := by
  rw [getMainSectionOffset]
  refine Reader.within_ite (fun _ => Reader.within_pure P _ m) fun hn => ?_
  have hf : firstPlaced mode ≤ 1 := by
    rw [firstPlaced]
    split <;> decide
  exact within_mainOffsetLoop h (by omega) idx _ (by omega) m

/-- A found section is one of the table. -/
theorem sectFindLoop_lt {va : UInt32} {n i k : Nat}
    (h : (sectFindLoop tab va n i).run m = some k) : i ≤ k ∧ k < i + n := by
  induction n generalizing i with
  | zero => exact absurd h (by simp [sectFindLoop])
  | succ n ih =>
    rw [sectFindLoop, Reader.run_bind, Reader.run_ite] at h
    split at h
    next => simp at h
    next =>
      rw [Reader.run_bind, Reader.run_ite] at h
      split at h
      next =>
        simp only [Reader.run_pure, Option.some.injEq] at h
        omega
      next =>
        have := ih h
        omega

theorem sectFindByVa_lt {va : UInt32} {k : Nat} (h : (sectFindByVa tab va).run m = some k) :
    k < tab.num := by
  have := (sectFindLoop_lt h).2
  omega

theorem within_getSectionBaseIdx (hv : ViewIn P tab) (hm : ModIn P mod tab.num m) {idx : Nat}
    (hi : idx < tab.num) : (getSectionBaseIdx mod tab idx).Within P m := by
  rw [getSectionBaseIdx]
  refine Reader.within_ite (fun h3 => ?_) fun h3 => ?_
  · rw [Reader.within_bind]
    refine ⟨within_readHeader hm.header m, ?_⟩
    refine Reader.within_ite (fun _ => Reader.within_pure P _ m) fun _ => ?_
    rw [Reader.within_bind]
    exact ⟨within_getMainSectionOffset hv _ _ h3 m, Reader.within_pure P _ m⟩
  · refine Reader.within_ite (fun _ => Reader.within_pure P _ m) fun _ => ?_
    rw [Reader.within_bind]
    exact ⟨within_readHeader hm.header m,
      Reader.within_u32.mpr (hm.bases idx (Nat.not_lt.mp h3) hi)⟩

theorem within_resolveRuntimeVa (hv : ViewIn P tab) (hm : ModIn P mod tab.num m) (va : UInt32) :
    (resolveRuntimeVa mod tab va).Within P m := by
  rw [resolveRuntimeVa, Reader.within_bind]
  refine ⟨within_sectFindByVa hv va m, ?_⟩
  cases hf : (sectFindByVa tab va).run m with
  | none => exact Reader.within_pure P _ m
  | some k =>
    have hk := sectFindByVa_lt hf
    rw [Reader.within_bind, Reader.within_bind]
    exact ⟨within_sectEntryAt hv (by omega) (Or.inl hk) m, within_getSectionBaseIdx hv hm hk,
      Reader.within_pure P _ m⟩

/-- Of an untagged header the code pointer is arithmetic on its fields. -/
theorem within_getCodePointer (hm : ModIn P mod tab.num m)
    (hu : isSectioned (decodeHeader m mod.pHeader) = false) :
    (getCodePointer mod).Within P m := by
  rw [getCodePointer, Reader.within_bind, readHeader_run, hu, if_neg Bool.false_ne_true]
  refine ⟨within_readHeader hm.header m, ?_⟩
  exact Reader.within_ite (fun _ => Reader.within_pure P _ m) fun _ => Reader.within_pure P _ m

theorem within_getDataPointer (hm : ModIn P mod tab.num m)
    (hu : isSectioned (decodeHeader m mod.pHeader) = false) :
    (getDataPointer mod).Within P m := by
  rw [getDataPointer, Reader.within_bind, readHeader_run, hu, if_neg Bool.false_ne_true]
  refine ⟨within_readHeader hm.header m, ?_⟩
  cases mod.mode with
  | copyAll => exact Reader.within_pure P _ m
  | copyTextData => exact Reader.within_pure P _ m
  | xip => exact Reader.within_pure P _ m

theorem within_getRelocTarget (hv : ViewIn P tab) (hm : ModIn P mod tab.num m)
    (hu : tab.num = 0 → isSectioned (decodeHeader m mod.pHeader) = false) (lotOffset : UInt32) :
    (getRelocTarget mod tab lotOffset).Within P m := by
  rw [getRelocTarget, Reader.within_bind]
  refine ⟨within_readHeader hm.header m, ?_⟩
  refine Reader.within_ite (fun _ => ?_) fun _ => ?_
  · exact Reader.within_ite (fun _ => Reader.within_pure P _ m) fun _ => Reader.within_pure P _ m
  · refine Reader.within_ite (fun hz => ?_) fun _ => ?_
    · refine Reader.within_ite (fun _ => Reader.within_pure P _ m) fun _ => ?_
      rw [Reader.within_bind]
      exact ⟨within_getDataPointer hm (hu hz), Reader.within_pure P _ m⟩
    · rw [Reader.within_bind]
      refine ⟨within_sectFindByVa hv _ m, ?_⟩
      cases hf : (sectFindByVa tab (relocVa ((readHeader mod.pHeader).run m) lotOffset)).run m with
      | none => exact Reader.within_pure P _ m
      | some k =>
        have hk := sectFindByVa_lt hf
        rw [Reader.within_bind]
        refine ⟨within_sectEntryAt hv (by omega) (Or.inl hk) m, ?_⟩
        refine Reader.within_ite (fun _ => Reader.within_pure P _ m) fun _ => ?_
        rw [Reader.within_bind]
        exact ⟨within_getSectionBaseIdx hv hm hk, Reader.within_pure P _ m⟩

/-! ## The symbol table -/

/-- Word `i` of a table that `i` does not leave. -/
theorem within_symtWord {pSymt size : UInt32} (h : Covers P ⟨pSymt, size.toNat⟩) {i : UInt32}
    (hi : i < size / 4) (m : Mem) : (symtWord pSymt i).Within P m := by
  have hlt : i.toNat < size.toNat / 4 := by
    rw [UInt32.lt_iff_toNat_lt, UInt32.toNat_div] at hi
    exact hi
  have hsize := size.toNat_lt
  have hoff : i * 4 = UInt32.ofNat (4 * i.toNat) := by
    rw [UInt32.ofNat_mul, UInt32.ofNat_toNat, UInt32.mul_comm]
    rfl
  rw [symtWord, hoff]
  exact Reader.within_u32.mpr (h.mono (off_subset (by omega) (by omega)))

/-- An index below `2 ^ 31 - 1` is looked up inside the table. -/
theorem within_getSymAtRaw {pSymt index size : UInt32} (h : Covers P ⟨pSymt, size.toNat⟩)
    (hindex : index.toNat < 2 ^ 31 - 1) (m : Mem) : (getSymAtRaw pSymt index size).Within P m := by
  rw [getSymAtRaw]
  refine Reader.within_ite (fun _ => Reader.within_pure P _ m) fun hw => ?_
  have hpos : (0 : UInt32) < size / 4 := by
    rw [UInt32.not_lt] at hw
    exact UInt32.lt_of_lt_of_le (by decide) hw
  rw [Reader.within_bind]
  refine ⟨within_symtWord h hpos m, ?_⟩
  refine Reader.within_ite (fun _ => Reader.within_pure P _ m) fun _ => ?_
  refine Reader.within_ite (fun _ => Reader.within_pure P _ m) fun hi => ?_
  have hi2 : index * 2 + 2 < size / 4 := UInt32.not_le.mp hi
  have h2 : (index * 2 + 2).toNat = 2 * index.toNat + 2 := by
    rw [UInt32.toNat_add, UInt32.toNat_mul, show (2 : UInt32).toNat = 2 from rfl]
    omega
  have h1 : (index * 2 + 1).toNat = 2 * index.toNat + 1 := by
    rw [UInt32.toNat_add, UInt32.toNat_mul, show (2 : UInt32).toNat = 2 from rfl,
      show (1 : UInt32).toNat = 1 from rfl]
    omega
  have hi1 : index * 2 + 1 < size / 4 := by
    rw [UInt32.lt_iff_toNat_lt] at hi2 ⊢
    omega
  rw [Reader.within_bind, Reader.within_bind]
  refine ⟨within_symtWord h hi1 m, within_symtWord h hi2 m, ?_⟩
  refine Reader.within_ite (fun _ => Reader.within_pure P _ m) fun _ => ?_
  refine Reader.within_ite (fun _ => ?_) fun _ => Reader.within_pure P _ m
  exact Reader.within_ite (fun _ => Reader.within_pure P _ m) fun _ => Reader.within_pure P _ m

/-- The name of a symbol ends inside its table. -/
def NameTerminated (pSymt : Addr) (size : UInt32) (m : Mem) : SymName → Prop
  | .notAvailable => True
  | .pool q => (Reader.memchr0 (size - (q - pSymt)).toNat q).run m = true

/-- A pool name starts inside the table; only a nameless symbol has no such name. -/
theorem getSymAtRaw_name {pSymt index size : UInt32} {sym : Sym}
    (h : (getSymAtRaw pSymt index size).run m = some sym) {q : Addr} (hq : sym.name = .pool q) :
    q - pSymt < size := by
  rw [getSymAtRaw, Reader.run_ite] at h
  split at h
  next => simp at h
  next =>
    rw [Reader.run_bind, Reader.run_ite] at h
    split at h
    next => simp at h
    next =>
      rw [Reader.run_ite] at h
      split at h
      next => simp at h
      next =>
        rw [Reader.run_bind, Reader.run_bind, Reader.run_ite] at h
        split at h
        next => simp at h
        next =>
          rw [Reader.run_ite] at h
          split at h
          next =>
            rw [Reader.run_ite] at h
            split at h
            next => simp at h
            next hoff =>
              simp only [Reader.run_pure, Option.some.injEq] at h
              rw [← h] at hq
              simp only [SymName.pool.injEq] at hq
              rw [← hq, off_sub]
              exact UInt32.not_le.mp hoff
          next =>
            simp only [Reader.run_pure, Option.some.injEq] at h
            rw [← h] at hq
            simp at hq

/-- Reading a terminated name does not leave the table. -/
theorem within_readSymName {pSymt index size : UInt32} {sym : Sym}
    (h : (getSymAtRaw pSymt index size).run m = some sym)
    (ht : NameTerminated pSymt size m sym.name) (hc : Covers P ⟨pSymt, size.toNat⟩) :
    (readSymName sym.name).Within P m := by
  cases hq : sym.name with
  | notAvailable => exact Reader.within_pure P _ m
  | pool q =>
    rw [hq] at ht
    have hlt := getSymAtRaw_name h hq
    refine Reader.within_cstr ht fun i hi => ?_
    have hsize := size.toNat_lt
    have hle : (q - pSymt).toNat < size.toNat := UInt32.lt_iff_toNat_lt.mp hlt
    rw [UInt32.toNat_sub_of_le _ _ (UInt32.le_of_lt hlt)] at hi
    rw [← off_distance pSymt q, off_off]
    exact hc.off (by omega) (by omega)

/-! ## The relocation table -/

theorem within_readRelocation {pRelocations : Addr} {num i : Nat}
    (h : Covers P ⟨pRelocations, 8 * num⟩) (hi : i < num) (hn : 8 * num ≤ 2 ^ 32) (m : Mem) :
    (readRelocation pRelocations i).Within P m := by
  rw [readRelocation, Reader.within_bind, Reader.within_bind]
  exact ⟨Reader.within_u32.mpr (h.mono (off_subset (by omega) hn)),
    Reader.within_u32.mpr (h.mono (off_subset (by omega) hn)), Reader.within_pure P _ m⟩

end Udynlink
