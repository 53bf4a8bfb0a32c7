import Mathlib

/-!
# Rounding up to an alignment

`alignUp` is the masking idiom `(x + a - 1) & ~(a - 1)` in machine words, and
`exactAlignUp` the same expression over unbounded integers. The first is always
the second modulo the word. For a power of two the second is the least multiple
of the alignment at or above its argument, which is all the layout proofs use.
-/

namespace Udynlink.Machine

/-- `(x + a - 1) & ~(a - 1)` over unbounded integers. -/
def exactAlignUp (x a : Nat) : Nat :=
  if a = 0 then 0 else Nat.ldiff (x + a - 1) (a - 1)

/-- `(x + a - 1) & ~(a - 1)` in 32-bit words. -/
def alignUp (x a : UInt32) : UInt32 := (x + a - 1) &&& ~~~(a - 1)

/-! ## The masking idiom modulo the word -/

theorem ldiff_mod_two_pow (x m k : Nat) : Nat.ldiff x m % 2 ^ k = Nat.ldiff (x % 2 ^ k) m := by
  apply Nat.eq_of_testBit_eq
  intro i
  simp only [Nat.testBit_mod_two_pow, Nat.testBit_ldiff, Bool.and_assoc]

theorem toNat_and_not (x m : UInt32) : (x &&& ~~~m).toNat = Nat.ldiff x.toNat m.toNat := by
  apply Nat.eq_of_testBit_eq
  intro i
  rw [UInt32.toNat_and, Nat.testBit_and, Nat.testBit_ldiff]
  have hn : (~~~m).toNat.testBit i = (decide (i < 32) && !m.toNat.testBit i) := by
    change (~~~m.toBitVec).toNat.testBit i = _
    rw [BitVec.testBit_toNat, BitVec.getLsbD_not]
    rfl
  rw [hn]
  by_cases hi : i < 32
  · simp [hi]
  · have hx : x.toNat.testBit i = false :=
      Nat.testBit_lt_two_pow (Nat.lt_of_lt_of_le x.toNat_lt (Nat.pow_le_pow_right (by decide) (by omega)))
    simp [hx]

/-- The word idiom is the unbounded one modulo the word, for any alignment. -/
theorem alignUp_toNat {x a : UInt32} {n : Nat} (hx : x.toNat = n % 2 ^ 32) :
    (alignUp x a).toNat = exactAlignUp n a.toNat % 2 ^ 32 := by
  have ha := a.toNat_lt
  rw [alignUp, toNat_and_not]
  by_cases h : a.toNat = 0
  · have ha0 : a = 0 := UInt32.toNat_inj.mp h
    subst ha0
    rw [exactAlignUp, if_pos h]
    apply Nat.eq_of_testBit_eq
    intro i
    rw [Nat.testBit_ldiff, Nat.zero_mod, Nat.zero_testBit]
    have hm : ((0 : UInt32) - 1).toNat = 2 ^ 32 - 1 := by decide
    rw [hm, Nat.testBit_two_pow_sub_one]
    by_cases hi : i < 32
    · simp [hi]
    · have hv : (x + 0 - 1).toNat.testBit i = false :=
        Nat.testBit_lt_two_pow (Nat.lt_of_lt_of_le (UInt32.toNat_lt _)
          (Nat.pow_le_pow_right (by decide) (by omega)))
      rw [hv, Bool.false_and]
  · have hm : (a - 1).toNat = a.toNat - 1 := by
      rw [UInt32.toNat_sub, show (1 : UInt32).toNat = 1 from rfl]
      omega
    have hv : (x + a - 1).toNat = (n + a.toNat - 1) % 2 ^ 32 := by
      rw [UInt32.toNat_sub, UInt32.toNat_add, show (1 : UInt32).toNat = 1 from rfl]
      omega
    rw [hm, hv, exactAlignUp, if_neg h, ldiff_mod_two_pow]

/-! ## Powers of two -/

/-- Over a power of two the idiom rounds up to the next multiple. -/
theorem exactAlignUp_two_pow (x k : Nat) :
    exactAlignUp x (2 ^ k) = (x + 2 ^ k - 1) / 2 ^ k * 2 ^ k := by
  have hk := Nat.two_pow_pos k
  rw [exactAlignUp, if_neg (by omega)]
  apply Nat.eq_of_testBit_eq
  intro i
  rw [Nat.testBit_ldiff, Nat.testBit_two_pow_sub_one, ← Nat.shiftLeft_eq, ← Nat.shiftRight_eq_div_pow,
    Nat.testBit_shiftLeft]
  by_cases hi : i < k
  · simp [hi]
  · rw [Nat.testBit_shiftRight]
    simp [hi, Nat.not_lt.mp hi]

variable {x y a : Nat}

theorem dvd_exactAlignUp (h : a.isPowerOfTwo) : a ∣ exactAlignUp x a := by
  obtain ⟨k, rfl⟩ := h
  rw [exactAlignUp_two_pow]
  exact Nat.dvd_mul_left _ _

theorem le_exactAlignUp (h : a.isPowerOfTwo) : x ≤ exactAlignUp x a := by
  obtain ⟨k, rfl⟩ := h
  have hk := Nat.two_pow_pos k
  rw [exactAlignUp_two_pow]
  have hd := Nat.div_add_mod (x + 2 ^ k - 1) (2 ^ k)
  have hm := Nat.mod_lt (x + 2 ^ k - 1) hk
  rw [Nat.mul_comm] at hd
  omega

theorem exactAlignUp_lt (h : a.isPowerOfTwo) : exactAlignUp x a < x + a := by
  obtain ⟨k, rfl⟩ := h
  have hk := Nat.two_pow_pos k
  rw [exactAlignUp_two_pow]
  have hd := Nat.div_mul_le_self (x + 2 ^ k - 1) (2 ^ k)
  omega

theorem exactAlignUp_le (h : a.isPowerOfTwo) (hxy : x ≤ y) (hy : a ∣ y) : exactAlignUp x a ≤ y := by
  obtain ⟨q, rfl⟩ := hy
  have hlt := exactAlignUp_lt (x := x) h
  obtain ⟨r, hr⟩ := dvd_exactAlignUp (x := x) h
  rw [hr] at hlt ⊢
  have hpos := Nat.pos_of_isPowerOfTwo h
  have hlt' : a * r < a * (q + 1) := by rw [Nat.mul_succ]; omega
  exact Nat.mul_le_mul_left a (Nat.le_of_lt_succ (Nat.lt_of_mul_lt_mul_left hlt'))

theorem exactAlignUp_of_dvd (h : a.isPowerOfTwo) (hx : a ∣ x) : exactAlignUp x a = x :=
  Nat.le_antisymm (exactAlignUp_le h (Nat.le_refl x) hx) (le_exactAlignUp h)

/-- Of two powers of two the smaller divides the larger. -/
theorem dvd_of_isPowerOfTwo_le {a b : Nat} (ha : a.isPowerOfTwo) (hb : b.isPowerOfTwo)
    (h : a ≤ b) : a ∣ b := by
  obtain ⟨i, rfl⟩ := ha
  obtain ⟨j, rfl⟩ := hb
  exact Nat.pow_dvd_pow 2 ((Nat.pow_le_pow_iff_right (by decide)).mp h)

/-- The test `a & (a - 1) == 0` on a non-zero word. -/
theorem isPowerOfTwo_of_and_sub_one {a : UInt32} (h0 : a ≠ 0) (h : a &&& (a - 1) = 0) :
    a.toNat.isPowerOfTwo := by
  have hz : a.toNat ≠ 0 := fun h => h0 (UInt32.toNat_inj.mp h)
  have ha := a.toNat_lt
  have hm : (a - 1).toNat = a.toNat - 1 := by
    rw [UInt32.toNat_sub, show (1 : UInt32).toNat = 1 from rfl]
    omega
  have h' := congrArg UInt32.toNat h
  rw [UInt32.toNat_and, hm] at h'
  exact (Nat.and_sub_one_eq_zero_iff_isPowerOfTwo hz).mp h'

/-- A masked test is a test for divisibility. -/
theorem dvd_of_and_sub_one {x a : UInt32} (ha : a.toNat.isPowerOfTwo) (h : x &&& (a - 1) = 0) :
    a.toNat ∣ x.toNat := by
  obtain ⟨k, hk⟩ := ha
  have hpos : 0 < 2 ^ k := Nat.pow_pos (by decide)
  have hone : (1 : UInt32) ≤ a := by
    rw [UInt32.le_iff_toNat_le, hk]
    exact hpos
  have hsub : (a - 1).toNat = 2 ^ k - 1 := by
    rw [UInt32.toNat_sub_of_le a 1 hone, hk]
    rfl
  have hz := congrArg UInt32.toNat h
  rw [UInt32.toNat_and, hsub, Nat.and_two_pow_sub_one_eq_mod] at hz
  rw [hk]
  exact Nat.dvd_of_mod_eq_zero hz

theorem isPowerOfTwo_dvd {a : UInt32} (ha : a.toNat.isPowerOfTwo) : a.toNat ∣ 2 ^ 32 := by
  obtain ⟨k, hk⟩ := ha
  have hlt := a.toNat_lt
  rw [hk] at hlt ⊢
  exact Nat.pow_dvd_pow 2 (Nat.le_of_lt ((Nat.pow_lt_pow_iff_right (by decide)).mp hlt))

theorem dvd_off {p : UInt32} {o a : Nat} (ha : a ∣ 2 ^ 32) (hp : a ∣ p.toNat) (ho : a ∣ o) :
    a ∣ (p + UInt32.ofNat o).toNat := by
  rw [UInt32.toNat_add, UInt32.toNat_ofNat']
  have hmod : a ∣ o % 2 ^ 32 := (Nat.dvd_mod_iff ha).mpr ho
  exact (Nat.dvd_mod_iff ha).mpr (Nat.dvd_add hp hmod)

end Udynlink.Machine
