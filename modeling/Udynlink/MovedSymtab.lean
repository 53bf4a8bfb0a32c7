import Udynlink.Footprints

/-!
# A symbol table that has moved

The entries and the named prefix of a table are those of its bytes, wherever the
table lies: reading it at a distance is reading the memory shifted back. Only
the names are addresses and move along.
-/

namespace Udynlink

open Machine

theorem symtWord_shift (m : Mem) (d pSymt : Addr) (i : UInt32) :
    (symtWord (pSymt + d) i).run m = (symtWord pSymt i).run (m.shift d) := by
  rw [symtWord, symtWord, Reader.run_u32, Reader.run_u32, shift_u32, add_right_comm]

def SymName.shift (d : Addr) : SymName → SymName
  | .notAvailable => .notAvailable
  | .pool p => .pool (p + d)

def Sym.shift (d : Addr) (sym : Sym) : Sym := { sym with name := sym.name.shift d }

theorem getSymAtRaw_shift (m : Mem) (d pSymt : Addr) (index size : UInt32) :
    (getSymAtRaw (pSymt + d) index size).run m =
      ((getSymAtRaw pSymt index size).run (m.shift d)).map (Sym.shift d) := by
  rw [getSymAtRaw, getSymAtRaw]
  simp only [Reader.run_ite, Reader.run_bind, Reader.run_pure, symtWord_shift]
  split_ifs <;> simp [Sym.shift, SymName.shift, add_right_comm]

theorem namedScan_shift (m : Mem) (d pSymt : Addr) (numEntries symtWords : UInt32) (n i : Nat)
    (lastNamed : UInt16) (foundLocal : Bool) :
    (namedScan (pSymt + d) numEntries symtWords n i lastNamed foundLocal).run m =
      (namedScan pSymt numEntries symtWords n i lastNamed foundLocal).run (m.shift d) := by
  induction n generalizing i lastNamed foundLocal with
  | zero => rfl
  | succ n ih =>
    rw [namedScan, namedScan]
    simp only [Reader.run_ite, Reader.run_bind, Reader.run_pure, symtWord_shift, ih]

theorem sortedScan_shift (m : Mem) (d pSymt : Addr) (size : UInt32) (n i : Nat) :
    (sortedScan (pSymt + d) size n i).run m = (sortedScan pSymt size n i).run (m.shift d) := by
  induction n generalizing i with
  | zero => rfl
  | succ n ih =>
    rw [sortedScan, sortedScan]
    simp only [Reader.run_ite, Reader.run_bind, Reader.run_pure, symtWord_shift, ih,
      add_right_comm pSymt d, Reader.strncmp_shift]

theorem computeNumNamedSymsRaw_shift (m : Mem) (d pSymt : Addr) (size : UInt32) :
    (computeNumNamedSymsRaw (pSymt + d) size).run m =
      (computeNumNamedSymsRaw pSymt size).run (m.shift d) := by
  rw [computeNumNamedSymsRaw, computeNumNamedSymsRaw]
  simp only [Reader.run_ite, Reader.run_bind, Reader.run_pure, symtWord_shift, namedScan_shift]
  split
  · rfl
  · split
    · rfl
    · simp only [Reader.run_bind, Reader.run_pure, sortedScan_shift]

/-! ## Footprints -/

variable {P : Addr → Prop} {m : Mem}

theorem within_namedScan {pSymt size numEntries : UInt32} (h : Covers P ⟨pSymt, size.toNat⟩)
    (n i : Nat) (lastNamed : UInt16) (foundLocal : Bool) :
    (namedScan pSymt numEntries (size / 4) n i lastNamed foundLocal).Within P m := by
  induction n generalizing i lastNamed foundLocal with
  | zero => exact Reader.within_pure P _ m
  | succ n ih =>
    rw [namedScan]
    refine Reader.within_ite (fun _ => Reader.within_pure P _ m) fun hi => ?_
    have hlt : i * 2 + 1 < (size / 4).toNat := by
      rw [not_or] at hi
      omega
    have hw := (size / 4).toNat_lt
    have hword : UInt32.ofNat (i * 2 + 1) < size / 4 := by
      rw [UInt32.lt_iff_toNat_lt, toNat_ofNat_of_lt (by omega)]
      exact hlt
    rw [Reader.within_bind]
    refine ⟨within_symtWord h hword m, ?_⟩
    refine Reader.within_ite (fun _ => ih _ _ _) fun _ => ?_
    exact Reader.within_ite (fun _ => Reader.within_pure P _ m) fun _ => ih _ _ _

/-- The last named entry is an entry of the table. -/
theorem namedScan_bound {pSymt numEntries symtWords : UInt32} {n i : Nat} {lastNamed res : UInt16}
    {foundLocal : Bool} (hl : lastNamed.toNat ≠ 0 → lastNamed.toNat * 2 + 1 < symtWords.toNat)
    (h : (namedScan pSymt numEntries symtWords n i lastNamed foundLocal).run m = some res) :
    res.toNat ≠ 0 → res.toNat * 2 + 1 < symtWords.toNat := by
  induction n generalizing i lastNamed foundLocal with
  | zero =>
    rw [namedScan, Reader.run_pure, Option.some.injEq] at h
    rw [← h]
    exact hl
  | succ n ih =>
    rw [namedScan, Reader.run_ite] at h
    split at h
    next =>
      rw [Reader.run_pure, Option.some.injEq] at h
      rw [← h]
      exact hl
    next hi =>
      rw [Reader.run_bind, Reader.run_ite] at h
      split at h
      next => exact ih hl h
      next =>
        rw [Reader.run_ite] at h
        split at h
        next => simp at h
        next =>
          refine ih (fun _ => ?_) h
          have hle : (UInt16.ofNat i).toNat ≤ i := by
            rw [UInt16.toNat_ofNat']
            exact Nat.mod_le _ _
          rw [not_or] at hi
          omega

theorem within_sortedScan {pSymt size : UInt32} (h : Covers P ⟨pSymt, size.toNat⟩) {n i : Nat}
    (hi : n ≠ 0 → (i + n - 1) * 2 + 1 < (size / 4).toNat) :
    (sortedScan pSymt size n i).Within P m := by
  induction n generalizing i with
  | zero => exact Reader.within_pure P _ m
  | succ n ih =>
    have hsize := size.toNat_lt
    have hwords := (size / 4).toNat_lt
    have hlast := hi (Nat.succ_ne_zero n)
    have hword : ∀ k, k ≤ i → UInt32.ofNat (k * 2 + 1) < size / 4 := by
      intro k hk
      rw [UInt32.lt_iff_toNat_lt, toNat_ofNat_of_lt (by omega)]
      omega
    rw [sortedScan, Reader.within_bind, Reader.within_bind]
    refine ⟨within_symtWord h (hword (i - 1) (by omega)) m, within_symtWord h (hword i (by omega)) m, ?_⟩
    refine Reader.within_ite (fun _ => Reader.within_pure P _ m) fun hoff => ?_
    rw [not_or, UInt32.not_le, UInt32.not_le] at hoff
    have hsub : ∀ x : UInt32, x < size → x.toNat + (size - x).toNat = size.toNat := by
      intro x hx
      rw [UInt32.toNat_sub_of_le _ _ (UInt32.le_of_lt hx)]
      have := UInt32.lt_iff_toNat_lt.mp hx
      omega
    have hbyte : ∀ x : UInt32, x < size → ∀ k, k < (size - x).toNat →
        P (pSymt + x + UInt32.ofNat k) := by
      intro x hx k hk
      have := hsub x hx
      rw [← UInt32.ofNat_toNat (x := x), off_off]
      exact h.off (by omega) (by omega)
    rw [Reader.within_bind]
    refine ⟨Reader.within_strncmp (fun k hk => hbyte _ hoff.1 k (by omega))
      fun k hk => hbyte _ hoff.2 k (by omega), ?_⟩
    exact Reader.within_ite (fun _ => Reader.within_pure P _ m) fun _ => ih (by omega)

/-- Counting the named prefix does not leave the table. -/
theorem within_computeNumNamedSymsRaw {pSymt size : UInt32}
    (h : Covers P ⟨pSymt, size.toNat⟩) : (computeNumNamedSymsRaw pSymt size).Within P m := by
  rw [computeNumNamedSymsRaw]
  refine Reader.within_ite (fun _ => Reader.within_pure P _ m) fun hw => ?_
  have hpos : (0 : UInt32) < size / 4 := by
    rw [UInt32.not_lt] at hw
    exact UInt32.lt_of_lt_of_le (by decide) hw
  rw [Reader.within_bind, Reader.within_bind]
  refine ⟨within_symtWord h hpos m, within_namedScan h _ _ _ _, ?_⟩
  split
  next => exact Reader.within_pure P _ m
  next lastNamed hs =>
    have hb := namedScan_bound (fun h0 => absurd rfl h0) hs
    rw [Reader.within_bind]
    exact ⟨within_sortedScan h (by omega), Reader.within_pure P _ m⟩

/-- An index can wrap once: entry `2 ^ 31 - 1` starts with the word in front of
the table. -/
theorem within_getSymAtRaw_any {pSymt size : UInt32} (h : Covers P ⟨pSymt, size.toNat⟩)
    (hbefore : Covers P ⟨pSymt - 4, 4⟩) (index : UInt32) (m : Mem) :
    (getSymAtRaw pSymt index size).Within P m := by
  rw [getSymAtRaw]
  refine Reader.within_ite (fun _ => Reader.within_pure P _ m) fun hw => ?_
  have hpos : (0 : UInt32) < size / 4 := by
    rw [UInt32.not_lt] at hw
    exact UInt32.lt_of_lt_of_le (by decide) hw
  rw [Reader.within_bind]
  refine ⟨within_symtWord h hpos m, ?_⟩
  refine Reader.within_ite (fun _ => Reader.within_pure P _ m) fun _ => ?_
  refine Reader.within_ite (fun _ => Reader.within_pure P _ m) fun hi => ?_
  have hi2 : index * 2 + 2 < size / 4 := UInt32.not_le.mp hi
  have hname : (symtWord pSymt (index * 2 + 1)).Within P m := by
    have hsucc : index * 2 + 1 = index * 2 + 2 - 1 := by
      rw [show (2 : UInt32) = 1 + 1 from rfl, ← UInt32.add_assoc, UInt32.add_sub_cancel]
    rw [hsucc]
    by_cases hz : index * 2 + 2 = 0
    · rw [hz, symtWord, show (0 - 1 : UInt32) * 4 = 0 - 4 from rfl, UInt32.sub_eq_add_neg,
        UInt32.zero_add, ← UInt32.sub_eq_add_neg]
      exact Reader.within_u32.mpr hbefore
    · refine within_symtWord h ?_ m
      have hne : (index * 2 + 2).toNat ≠ 0 := fun h0 => hz (UInt32.toNat_inj.mp h0)
      have h1 : (1 : UInt32) ≤ index * 2 + 2 := by
        rw [UInt32.le_iff_toNat_le, show (1 : UInt32).toNat = 1 from rfl]
        omega
      rw [UInt32.lt_iff_toNat_lt] at hi2 ⊢
      rw [UInt32.toNat_sub_of_le _ _ h1, show (1 : UInt32).toNat = 1 from rfl]
      omega
  rw [Reader.within_bind, Reader.within_bind]
  refine ⟨hname, within_symtWord h hi2 m, ?_⟩
  refine Reader.within_ite (fun _ => Reader.within_pure P _ m) fun _ => ?_
  refine Reader.within_ite (fun _ => ?_) fun _ => Reader.within_pure P _ m
  exact Reader.within_ite (fun _ => Reader.within_pure P _ m) fun _ => Reader.within_pure P _ m

end Udynlink
