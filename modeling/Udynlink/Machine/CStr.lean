import Udynlink.Machine.Reader

/-!
# C strings in memory

A string ends at its first zero byte. The comparisons of the C library order strings
as lists of bytes.
-/

namespace Udynlink.Machine

/-- The C string at `p`. -/
def StrAt (m : Mem) : Addr → List UInt8 → Prop
  | p, [] => m p = 0
  | p, c :: s => (m p = c ∧ c ≠ 0) ∧ StrAt m (p + 1) s

variable {m : Mem} {p q : Addr} {s t : List UInt8} {n : Nat}

theorem StrAt.unique (h : StrAt m p s) (h' : StrAt m p t) : s = t := by
  induction s generalizing p t with
  | nil =>
    cases t with
    | nil => rfl
    | cons d t => exact absurd (h'.1.1.symm.trans h) h'.1.2
  | cons c s ih =>
    cases t with
    | nil => exact absurd (h.1.1.symm.trans h') h.1.2
    | cons d t => rw [h.1.1.symm.trans h'.1.1, ih h.2 h'.2]

theorem StrAt.zero_notMem (h : StrAt m p s) : 0 ∉ s := by
  induction s generalizing p with
  | nil => exact List.not_mem_nil
  | cons c s ih =>
    rw [List.mem_cons, not_or]
    exact ⟨Ne.symm h.1.2, ih h.2⟩

theorem run_cstr (h : StrAt m p s) (hn : s.length < n) : (Reader.cstr n p).run m = s := by
  induction s generalizing p n with
  | nil =>
    cases n with
    | zero => rfl
    | succ n =>
      rw [Reader.cstr, Reader.run_bind, Reader.run_byte, Reader.run_ite, if_pos (show m p = 0 from h)]
      rfl
  | cons c s ih =>
    cases n with
    | zero => exact absurd hn (Nat.not_lt_zero _)
    | succ n =>
      have hne : ¬ m p = 0 := by
        rw [h.1.1]
        exact h.1.2
      rw [Reader.cstr, Reader.run_bind, Reader.run_byte, Reader.run_ite, if_neg hne,
        Reader.run_bind, ih h.2 (Nat.lt_of_succ_lt_succ hn), Reader.run_pure, h.1.1]

/-! ## Comparison -/

theorem compare_zero_left {d : UInt8} (hd : d ≠ 0) : compare 0 d = .lt := by
  have hlt : (0 : UInt8) < d := UInt8.pos_iff_ne_zero.mpr hd
  exact if_pos hlt

theorem compare_zero_right {c : UInt8} (hc : c ≠ 0) : compare c 0 = .gt :=
  Std.OrientedCmp.gt_iff_lt.mpr (compare_zero_left hc)

theorem compare_cons_same (c : UInt8) (s t : List UInt8) :
    compare (c :: s) (c :: t) = compare s t := by
  have hc : compare c c = .eq := Std.LawfulEqCmp.compare_eq_iff_eq.mpr rfl
  rw [List.compare_cons_cons, hc]
  rfl

theorem compare_cons_ne {c d : UInt8} (h : c ≠ d) (s t : List UInt8) :
    compare (c :: s) (d :: t) = compare c d := by
  rw [List.compare_cons_cons]
  cases hc : compare c d with
  | lt => rfl
  | eq => exact absurd (Std.LawfulEqCmp.compare_eq_iff_eq.mp hc) h
  | gt => rfl

theorem run_strcmp (h : StrAt m p s) (hq : 0 ∉ t) (hn : t.length < n) :
    (Reader.strcmp n p t).run m = compare s t := by
  induction t generalizing p s n with
  | nil =>
    obtain ⟨n, rfl⟩ : ∃ k, n = k + 1 := ⟨n - 1, by omega⟩
    rw [Reader.strcmp, Reader.run_bind, Reader.run_byte, Reader.run_ite]
    cases s with
    | nil =>
      have hne : ¬ (0 : UInt8) ≠ ([] : List UInt8).headD 0 := not_not_intro rfl
      rw [show m p = 0 from h, if_neg hne, Reader.run_ite, if_pos rfl]
      rfl
    | cons c s =>
      rw [h.1.1, if_pos (by simpa using h.1.2), List.compare_cons_nil]
      exact compare_zero_right h.1.2
  | cons d t ih =>
    obtain ⟨n, rfl⟩ : ∃ k, n = k + 1 := ⟨n - 1, by omega⟩
    rw [List.mem_cons, not_or] at hq
    have hd : d ≠ 0 := Ne.symm hq.1
    rw [Reader.strcmp, Reader.run_bind, Reader.run_byte, Reader.run_ite]
    cases s with
    | nil =>
      rw [show m p = 0 from h, if_pos (by simpa using hq.1), List.compare_nil_cons]
      exact compare_zero_left hd
    | cons c s =>
      rw [h.1.1]
      by_cases hc : c = d
      · subst hc
        rw [if_neg (by simp), Reader.run_ite, if_neg h.1.2, compare_cons_same]
        exact ih h.2 hq.2 (Nat.lt_of_succ_lt_succ hn)
      · rw [if_pos (by simpa using hc), compare_cons_ne hc]
        rfl

/-- The comparison finds a string exactly where it lies, terminator included. -/
theorem run_strcmp_eq (ht : 0 ∉ t) (hn : t.length < n) :
    (Reader.strcmp n p t).run m = .eq ↔ StrAt m p t := by
  induction t generalizing p n with
  | nil =>
    obtain ⟨n, rfl⟩ : ∃ k, n = k + 1 := ⟨n - 1, by omega⟩
    rw [Reader.strcmp, Reader.run_bind, Reader.run_byte, Reader.run_ite]
    by_cases hz : m p = 0
    · have heq : ¬ (0 : UInt8) ≠ ([] : List UInt8).headD 0 := not_not_intro rfl
      rw [hz, if_neg heq, Reader.run_ite, if_pos rfl]
      exact iff_of_true rfl hz
    · have hne : m p ≠ ([] : List UInt8).headD 0 := hz
      rw [if_pos hne, Reader.run_pure]
      refine iff_of_false (fun h => ?_) hz
      exact hz (Std.LawfulEqCmp.compare_eq_iff_eq.mp h)
  | cons d t ih =>
    obtain ⟨n, rfl⟩ : ∃ k, n = k + 1 := ⟨n - 1, by omega⟩
    rw [List.mem_cons, not_or] at ht
    have hd : d ≠ 0 := Ne.symm ht.1
    rw [Reader.strcmp, Reader.run_bind, Reader.run_byte, Reader.run_ite]
    by_cases hc : m p = d
    · have heq : ¬ d ≠ (d :: t).headD 0 := not_not_intro rfl
      rw [hc, if_neg heq, Reader.run_ite, if_neg hd, List.tail_cons,
        ih ht.2 (Nat.lt_of_succ_lt_succ hn)]
      exact ⟨fun h => ⟨⟨hc, hd⟩, h⟩, fun h => h.2⟩
    · have hne : m p ≠ (d :: t).headD 0 := hc
      rw [if_pos hne, Reader.run_pure]
      refine iff_of_false (fun h => ?_) (fun h => hc h.1.1)
      exact hc (Std.LawfulEqCmp.compare_eq_iff_eq.mp h)

/-- A bound beyond the end of the shorter string does not matter. -/
theorem run_strncmp (hp : StrAt m p s) (hq : StrAt m q t) (hn : min s.length t.length < n) :
    (Reader.strncmp n p q).run m = compare s t := by
  induction s generalizing p q t n with
  | nil =>
    obtain ⟨n, rfl⟩ : ∃ k, n = k + 1 := ⟨n - 1, by omega⟩
    rw [Reader.strncmp, Reader.run_bind, Reader.run_bind, Reader.run_byte, Reader.run_byte,
      Reader.run_ite, show m p = 0 from hp]
    cases t with
    | nil =>
      rw [show m q = 0 from hq, if_neg (by simp), Reader.run_ite, if_pos rfl]
      rfl
    | cons d t =>
      rw [hq.1.1, if_pos (Ne.symm hq.1.2), List.compare_nil_cons]
      exact compare_zero_left hq.1.2
  | cons c s ih =>
    obtain ⟨n, rfl⟩ : ∃ k, n = k + 1 := ⟨n - 1, by omega⟩
    rw [Reader.strncmp, Reader.run_bind, Reader.run_bind, Reader.run_byte, Reader.run_byte,
      Reader.run_ite, hp.1.1]
    cases t with
    | nil =>
      rw [show m q = 0 from hq, if_pos hp.1.2, List.compare_cons_nil]
      exact compare_zero_right hp.1.2
    | cons d t =>
      rw [hq.1.1]
      by_cases hc : c = d
      · subst hc
        rw [if_neg (by simp), Reader.run_ite, if_neg hp.1.2, compare_cons_same]
        simp only [List.length_cons, Nat.add_min_add_right] at hn
        exact ih hp.2 hq.2 (Nat.lt_of_succ_lt_succ hn)
      · rw [if_pos hc, compare_cons_ne hc]
        rfl

end Udynlink.Machine
