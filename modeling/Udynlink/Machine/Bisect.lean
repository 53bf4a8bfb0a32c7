import Mathlib.Order.Basic

/-!
# Bisection

A search of the indices `lo..hi` by halving. `c i` says where entry `i` lies from what is
searched; an index that has no entry ends the search.
-/

namespace Udynlink.Machine

def bisect (c : Nat → Option Ordering) : Nat → Nat → Nat → Option Nat
  | 0, _, _ => none
  | n + 1, lo, hi =>
    if lo ≤ hi then
      let mid := lo + (hi - lo) / 2
      match c mid with
      | none => none
      | some .lt => bisect c n (mid + 1) hi
      | some .eq => some mid
      | some .gt => bisect c n lo (mid - 1)
    else none

variable {c d : Nat → Option Ordering} {n lo hi : Nat}

/-- A search reads nothing outside its bounds. -/
theorem bisect_congr (hlo : 1 ≤ lo) (h : ∀ i, lo ≤ i → i ≤ hi → c i = d i) :
    bisect c n lo hi = bisect d n lo hi := by
  induction n generalizing lo hi with
  | zero => rfl
  | succ n ih =>
    rw [bisect, bisect]
    split
    · have hmid : lo ≤ lo + (hi - lo) / 2 ∧ lo + (hi - lo) / 2 ≤ hi := by omega
      dsimp only
      generalize lo + (hi - lo) / 2 = mid at hmid ⊢
      rw [h mid hmid.1 hmid.2]
      cases d mid with
      | none => rfl
      | some o =>
        cases o with
        | lt => exact ih (by omega) fun i h1 h2 => h i (by omega) h2
        | eq => rfl
        | gt => exact ih hlo fun i h1 h2 => h i h1 (by omega)
    · rfl

/-- Whatever the order, what is found lies in the bounds and is what is searched. -/
theorem bisect_sound (hlo : 1 ≤ lo) {i : Nat} (h : bisect c n lo hi = some i) :
    lo ≤ i ∧ i ≤ hi ∧ c i = some .eq := by
  induction n generalizing lo hi with
  | zero => cases h
  | succ n ih =>
    rw [bisect] at h
    split at h
    · have hmid : lo ≤ lo + (hi - lo) / 2 ∧ lo + (hi - lo) / 2 ≤ hi := by omega
      dsimp only at h
      generalize lo + (hi - lo) / 2 = mid at hmid h
      cases hc : c mid with
      | none => simp [hc] at h
      | some o =>
        rw [hc] at h
        cases o with
        | lt =>
          obtain ⟨h1, h2, h3⟩ := ih (by omega) h
          exact ⟨by omega, h2, h3⟩
        | eq =>
          cases h
          exact ⟨hmid.1, hmid.2, hc⟩
        | gt =>
          obtain ⟨h1, h2, h3⟩ := ih hlo h
          exact ⟨h1, by omega, h3⟩
    · cases h

/-- The bounds keep the entry, until it is the middle. The last index is the middle only
when it is alone. -/
theorem bisect_complete {j : Nat} (hj : c j = some .eq) (hlow : ∀ i, lo ≤ i → i < j → c i = some .lt)
    (hhigh : ∀ i, j < i → i < hi → c i = some .gt) (hlj : lo ≤ j) (hjh : j ≤ hi)
    (hn : hi < n + lo) : bisect c n lo hi = some j := by
  induction n generalizing lo hi with
  | zero => omega
  | succ n ih =>
    rw [bisect, if_pos (by omega)]
    have hmid : lo ≤ lo + (hi - lo) / 2 ∧ lo + (hi - lo) / 2 ≤ hi ∧
        (lo + (hi - lo) / 2 = hi → lo = hi) := by omega
    dsimp only
    generalize lo + (hi - lo) / 2 = mid at hmid ⊢
    rcases Nat.lt_trichotomy mid j with hlt | rfl | hgt
    · rw [hlow mid hmid.1 hlt]
      exact ih (fun i h1 h2 => hlow i (by omega) h2) hhigh (by omega) hjh (by omega)
    · rw [hj]
    · rw [hhigh mid hgt (by omega)]
      exact ih hlow (fun i h1 h2 => hhigh i h1 (by omega)) hlj (by omega) (by omega)

/-! ## Runs -/

/-- The order of the indices when what is searched fills `a..b`. -/
def beside (a b i : Nat) : Option Ordering :=
  some (if i < a then .lt else if b < i then .gt else .eq)

/-- The index of `a..b` that a search of `1..n` finds. -/
def landing (a b n : Nat) : Nat := (bisect (beside a b) n 1 n).getD 0

/-- A run inside the bounds is found. -/
theorem bisect_beside {a b : Nat} (hlo : 1 ≤ lo) (hla : lo ≤ a) (hab : a ≤ b) (hbh : b ≤ hi)
    (hn : hi < n + lo) : ∃ i, bisect (beside a b) n lo hi = some i := by
  induction n generalizing lo hi with
  | zero => omega
  | succ n ih =>
    rw [bisect, if_pos (by omega)]
    have hmid : lo ≤ lo + (hi - lo) / 2 ∧ lo + (hi - lo) / 2 ≤ hi := by omega
    dsimp only
    generalize lo + (hi - lo) / 2 = mid at hmid ⊢
    rw [beside]
    by_cases hlt : mid < a
    · rw [if_pos hlt]
      exact ih (by omega) (by omega) hbh (by omega)
    · rw [if_neg hlt]
      by_cases hgt : b < mid
      · rw [if_pos hgt]
        exact ih hlo hla (by omega) (by omega)
      · rw [if_neg hgt]
        exact ⟨mid, rfl⟩

theorem bisect_landing {a b : Nat} (ha : 1 ≤ a) (hab : a ≤ b) (hb : b ≤ n) :
    bisect (beside a b) n 1 n = some (landing a b n) ∧ a ≤ landing a b n ∧ landing a b n ≤ b := by
  obtain ⟨i, hi⟩ := @bisect_beside n 1 n a b (Nat.le_refl 1) ha hab hb (Nat.lt_succ_self n)
  have hland : landing a b n = i := by rw [landing, hi, Option.getD_some]
  obtain ⟨-, -, heq⟩ := bisect_sound (Nat.le_refl 1) hi
  rw [beside, Option.some.injEq] at heq
  rw [hland]
  refine ⟨hi, ?_, ?_⟩
  · by_contra hlt
    rw [if_pos (by omega)] at heq
    cases heq
  · by_contra hgt
    rw [if_neg (by omega), if_pos (by omega)] at heq
    cases heq

/-- A run of one is met where it is. -/
theorem landing_self {a : Nat} (ha : 1 ≤ a) (hb : a ≤ n) : landing a a n = a := by
  obtain ⟨-, h1, h2⟩ := @bisect_landing n a a ha (Nat.le_refl a) hb
  omega

end Udynlink.Machine
