import Mathlib.Data.List.Basic

/-!
# Words in a string of bytes

Little-endian words of any width as numbers, and slices of a string of bytes.
-/

namespace Udynlink.Machine

/-! ## Slices -/

section

variable {α : Type} {bs : List α} {off n k : Nat}

/-- The `n` elements from `off` on, or what there is of them. -/
def slice (bs : List α) (off n : Nat) : List α := (bs.drop off).take n

theorem length_slice (h : off + n ≤ bs.length) : (slice bs off n).length = n := by
  unfold slice
  rw [List.length_take, List.length_drop]
  omega

@[simp] theorem slice_zero (bs : List α) (n : Nat) : slice bs 0 n = bs.take n := rfl

theorem slice_append (bs : List α) (off n k : Nat) :
    slice bs off n ++ slice bs (off + n) k = slice bs off (n + k) := by
  unfold slice
  rw [← List.drop_drop, ← List.take_add]

theorem take_append_slice (bs : List α) (n k : Nat) :
    bs.take n ++ slice bs n k = bs.take (n + k) := by
  unfold slice
  rw [← List.take_add]

theorem getElem?_slice (bs : List α) {i : Nat} (hi : i < n) :
    (slice bs off n)[i]? = bs[off + i]? := by
  unfold slice
  rw [List.getElem?_take_of_lt hi, List.getElem?_drop]

end

/-! ## Little-endian words -/

def leNat : List UInt8 → Nat
  | [] => 0
  | b :: bs => b.toNat + 256 * leNat bs

/-- The `n` low bytes of a number. -/
def leBytes : Nat → Nat → List UInt8
  | 0, _ => []
  | n + 1, x => UInt8.ofNat x :: leBytes n (x / 256)

@[simp] theorem length_leBytes (n x : Nat) : (leBytes n x).length = n := by
  induction n generalizing x with
  | zero => rfl
  | succ n ih => rw [leBytes, List.length_cons, ih]

/-- Writing a word that was read gives its bytes back. -/
theorem leBytes_leNat (bs : List UInt8) : leBytes bs.length (leNat bs) = bs := by
  induction bs with
  | nil => rfl
  | cons b bs ih =>
    have hb := b.toNat_lt
    have hdiv : (b.toNat + 256 * leNat bs) / 256 = leNat bs := by omega
    have hlow : UInt8.ofNat (b.toNat + 256 * leNat bs) = b := by
      apply UInt8.toNat_inj.mp
      rw [UInt8.toNat_ofNat']
      omega
    rw [leNat, List.length_cons, leBytes, hdiv, ih, hlow]

/-- The word of `width` bytes at `off`. -/
def word (bs : List UInt8) (off width : Nat) : Nat := leNat (slice bs off width)

theorem leBytes_word {bs : List UInt8} {off width : Nat} (h : off + width ≤ bs.length) :
    leBytes width (word bs off width) = slice bs off width := by
  have hl := leBytes_leNat (slice bs off width)
  rwa [length_slice h] at hl

end Udynlink.Machine
