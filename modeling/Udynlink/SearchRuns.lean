import Udynlink.Lookup

/-!
# Runs of one name

Where names in order are not distinct, those of one name stand next to each other, and a
lookup ends somewhere in that run.
-/

namespace Udynlink

open Machine

namespace SymTable

variable {t : SymTable} {n L N : Nat} {name : List UInt8}

/-! ## The leading names -/

/-- Below `n` the names go from entry 1 to `L`. -/
structure Leading (t : SymTable) (n L : Nat) : Prop where
  bound : L = 0 ∨ L < n
  named : ∀ i, 1 ≤ i → i ≤ L → t.Named i
  ends : L + 1 < n → ¬ t.Named (L + 1)

theorem exists_leading (t : SymTable) (n : Nat) : ∃ L, t.Leading n L := by
  induction n with
  | zero => exact ⟨0, .inl rfl, fun i h1 h2 => by omega, fun h => by omega⟩
  | succ n ih =>
    obtain ⟨L, hb, hn, he⟩ := ih
    by_cases hlast : L + 1 = n ∧ t.Named n
    · obtain ⟨hL, hnm⟩ := hlast
      refine ⟨n, .inr (Nat.lt_succ_self n), fun i h1 h2 => ?_, fun h => by omega⟩
      by_cases hi : i = n
      · rw [hi]
        exact hnm
      · exact hn i h1 (by omega)
    · refine ⟨L, by omega, hn, fun h => ?_⟩
      by_cases hL : L + 1 = n
      · rw [hL]
        exact fun hnm => hlast ⟨hL, hnm⟩
      · exact he (by omega)

/-- A table that ends in the middle of an entry has one more type than values. -/
theorem Leading.both (hL : t.Leading t.readable L) (hN : t.Leading t.scanned N) :
    N = L ∨ (N = L + 1 ∧ N = t.readable) := by
  have h1 := @readable_le_scanned t
  have h2 := @scanned_le_succ t
  have hge : L ≤ N := by
    by_contra hlt
    have hb := hL.bound
    exact hN.ends (by omega) (hL.named (N + 1) (by omega) (by omega))
  by_cases hend : L + 1 < t.readable
  · left
    by_contra hne
    exact hL.ends hend (hN.named (L + 1) (by omega) (by omega))
  · have hb := hN.bound
    have hb' := hL.bound
    omega

/-- A named entry behind entry `N`. -/
def NamedBehind (t : SymTable) (N : Nat) : Prop := ∃ i, N < i ∧ i < t.scanned ∧ t.Named i

theorem Leading.namedPrefix (hN : t.Leading t.scanned N) : t.NamedPrefix N ↔ ¬ t.NamedBehind N :=
  ⟨fun h ⟨i, h1, h2, h3⟩ => h.nameless i h1 h2 h3,
    fun h => ⟨hN.bound, hN.named, fun i h1 h2 h3 => h ⟨i, h1, h2, h3⟩⟩⟩

theorem Leading.of_namedPrefix (h : t.NamedPrefix N) : t.Leading t.scanned N :=
  ⟨h.bound, h.named, fun hlt => h.nameless (N + 1) (Nat.lt_succ_self N) hlt⟩

theorem Leading.unique (hL : t.Leading n L) (hN : t.Leading n N) : L = N := by
  have h1 := hL.bound
  have h2 := hN.bound
  by_contra hne
  rcases Nat.lt_or_gt_of_ne hne with h | h
  · exact hL.ends (by omega) (hN.named (L + 1) (by omega) (by omega))
  · exact hN.ends (by omega) (hL.named (N + 1) (by omega) (by omega))

/-- The count of the loader, on names that end in the table. -/
theorem count_leading (hin : ∀ i, 1 ≤ i → i < t.scanned → t.Named i → t.NameEnds i)
    (hN : t.Leading t.scanned N) :
    (t.NamedBehind N → (computeNumNamedSymsRaw t.base t.size).run t.mem = 0) ∧
      (¬ t.NamedBehind N → ¬ t.Ascending (N % 2 ^ 16) →
        (computeNumNamedSymsRaw t.base t.size).run t.mem = 0) ∧
      (¬ t.NamedBehind N → t.Ascending (N % 2 ^ 16) →
        ((computeNumNamedSymsRaw t.base t.size).run t.mem).toNat = N % 2 ^ 16) := by
  have hb := hN.bound
  have hsorted : (sortedScan t.base t.size ((UInt16.ofNat N).toNat - 1) 2).run t.mem = true ↔
      t.Ascending (N % 2 ^ 16) := by
    rw [toNat_ofNat16]
    exact sortedScan_iff fun i h1 h2 =>
      hin i h1 (by omega) (hN.named i h1 (h2.trans (Nat.mod_le N _)))
  rcases computeNumNamedSymsRaw_run t with ⟨M, hM, hrun⟩ | ⟨hno, hrun⟩
  · obtain rfl := hN.unique (.of_namedPrefix hM)
    rw [hrun]
    refine ⟨fun h => absurd h (hN.namedPrefix.mp hM), fun _ ha => ?_, fun _ ha => ?_⟩
    · rw [if_neg (mt hsorted.mp ha)]
    · rw [if_pos (hsorted.mpr ha), toNat_ofNat16]
  · exact ⟨fun _ => hrun, fun h => absurd (hN.namedPrefix.mpr h) (hno N),
      fun h => absurd (hN.namedPrefix.mpr h) (hno N)⟩

/-! ## Runs -/

/-- The leading names are there, and in order. -/
def Counted (t : SymTable) (L : Nat) : Prop := L ≠ 0 ∧ t.Ascending L

/-- Of the first `L` names those that are the name of `a` are `a..b`. -/
structure Run (t : SymTable) (L a b : Nat) : Prop where
  low : 1 ≤ a
  le : a ≤ b
  high : b ≤ L
  same : ∀ i, 1 ≤ i → i ≤ L → (t.name i = t.name a ↔ a ≤ i ∧ i ≤ b)

theorem Ascending.le (h : t.Ascending L) {i j : Nat} (hi : 1 ≤ i) (hij : i ≤ j) (hj : j ≤ L) :
    compare (t.name i) (t.name j) ≠ .gt := by
  induction j, hij using Nat.le_induction with
  | base =>
    have heq : compare (t.name i) (t.name i) = .eq := Std.LawfulEqCmp.compare_eq_iff_eq.mpr rfl
    rw [heq]
    decide
  | succ j hij ih =>
    have h1 := Ordering.isLE_iff_ne_gt.mpr (ih (by omega))
    have h2 := Ordering.isLE_iff_ne_gt.mpr (h j (by omega) (by omega))
    exact Ordering.isLE_iff_ne_gt.mp (Std.TransCmp.isLE_trans h1 h2)

/-- Between two entries of one name there is no other. -/
theorem Ascending.between (h : t.Ascending L) {i j k : Nat} (hi : 1 ≤ i) (hij : i ≤ j) (hjk : j ≤ k)
    (hk : k ≤ L) (he : t.name i = t.name k) : t.name j = t.name k := by
  have h1 := h.le hi hij (by omega)
  have h2 := h.le (by omega) hjk hk
  rw [he] at h1
  cases hc : compare (t.name j) (t.name k) with
  | lt => exact absurd (Std.OrientedCmp.gt_iff_lt.mpr hc) h1
  | eq => exact Std.LawfulEqCmp.compare_eq_iff_eq.mp hc
  | gt => exact absurd hc h2

/-- The first and the last entry of a name. -/
theorem exists_run (h : t.Ascending L) {i : Nat} (h1 : 1 ≤ i) (hi : i ≤ L) :
    ∃ a b, t.Run L a b ∧ a ≤ i ∧ i ≤ b := by
  classical
  have hfirst : ∃ a, 1 ≤ a ∧ a ≤ L ∧ t.name a = t.name i := ⟨i, h1, hi, rfl⟩
  obtain ⟨ha1, haL, ha⟩ := Nat.find_spec hfirst
  have hleast : ∀ j, 1 ≤ j → j ≤ L → t.name j = t.name i → Nat.find hfirst ≤ j :=
    fun j hj hjL he => Nat.find_min' hfirst ⟨hj, hjL, he⟩
  have hlast : ∃ d, d ≤ L ∧ 1 ≤ L - d ∧ t.name (L - d) = t.name i :=
    ⟨L - i, by omega, by omega, by rw [show L - (L - i) = i by omega]⟩
  obtain ⟨hdL, hd1, hd⟩ := Nat.find_spec hlast
  have hgreatest : ∀ j, 1 ≤ j → j ≤ L → t.name j = t.name i → j ≤ L - Nat.find hlast := by
    intro j hj hjL he
    have hmin := Nat.find_min' hlast
      ⟨show L - j ≤ L by omega, by omega, by rw [show L - (L - j) = j by omega]; exact he⟩
    omega
  refine ⟨Nat.find hfirst, L - Nat.find hlast, ⟨ha1, ?_, by omega, fun j hj hjL => ⟨?_, ?_⟩⟩,
    hleast i h1 hi rfl, hgreatest i h1 hi rfl⟩
  · exact (hleast i h1 hi rfl).trans (hgreatest i h1 hi rfl)
  · intro he
    exact ⟨hleast j hj hjL (he.trans ha), hgreatest j hj hjL (he.trans ha)⟩
  · rintro ⟨h2, h3⟩
    rw [h.between ha1 h2 h3 (by omega) (ha.trans hd.symm), hd, ha]

/-! ## The search -/

/-- A bisection ends in the run of the name. -/
theorem search_run (h : t.Ascending L) (hL : L < t.readable) {a b : Nat} (hr : t.Run L a b) :
    t.search (t.name a) L = some (landing a b L) ∧
      1 ≤ landing a b L ∧ landing a b L ≤ L ∧ t.name (landing a b L) = t.name a := by
  have h1 := hr.low
  have h2 := hr.le
  have h3 := hr.high
  obtain ⟨hland, h4, h5⟩ := bisect_landing h1 h2 h3
  refine ⟨?_, by omega, by omega, (hr.same _ (by omega) (by omega)).mpr ⟨h4, h5⟩⟩
  rw [search, if_pos (by omega), ← hland]
  refine bisect_congr (Nat.le_refl 1) fun i hi hiL => ?_
  rw [order_readable (by omega), beside]
  have hsame := hr.same i hi hiL
  congr 1
  by_cases hlt : i < a
  · rw [if_pos hlt]
    cases hc : compare (t.name i) (t.name a) with
    | lt => rfl
    | eq =>
      have he := hsame.mp (Std.LawfulEqCmp.compare_eq_iff_eq.mp hc)
      omega
    | gt => exact absurd hc (h.le hi (Nat.le_of_lt hlt) (by omega))
  · rw [if_neg hlt]
    by_cases hgt : b < i
    · rw [if_pos hgt]
      cases hc : compare (t.name i) (t.name a) with
      | lt => exact absurd (Std.OrientedCmp.gt_iff_lt.mpr hc) (h.le h1 (by omega) hiL)
      | eq =>
        have he := hsame.mp (Std.LawfulEqCmp.compare_eq_iff_eq.mp hc)
        omega
      | gt => rfl
    · rw [if_neg hgt]
      exact Std.LawfulEqCmp.compare_eq_iff_eq.mpr (hsame.mpr ⟨by omega, by omega⟩)

/-- A name that is not counted is not found. -/
theorem search_missed (hL0 : 0 < L) (hnamed : ∀ i, 1 ≤ i → i ≤ L → t.Named i)
    (hno : ∀ i, 1 ≤ i → i ≤ L → t.name i ≠ name) : t.search name L = none := by
  rw [search, if_pos hL0]
  cases hb : bisect (t.order name) L 1 L with
  | none => rfl
  | some i =>
    obtain ⟨h1, h2, heq⟩ := bisect_sound (Nat.le_refl 1) hb
    exact absurd (order_found h1 (hnamed i h1 h2) heq).2.2 (hno i h1 h2)

/-- Entry `i` is the first one of its name from entry `n` on. -/
structure FirstFrom (t : SymTable) (n i : Nat) : Prop where
  low : n ≤ i
  readable : i < t.readable
  named : t.Named i
  first : ∀ j, n ≤ j → j < i → t.Named j → t.name j ≠ t.name i

/-- The entries from `n` on, searched one after the other. -/
theorem find_firstFrom {i : Nat} : ((List.range' n (t.readable - n)).find? fun j =>
    t.Named j ∧ t.name j = name) = some i ↔ t.FirstFrom n i ∧ t.name i = name := by
  rw [List.find?_range'_eq_some]
  simp only [decide_eq_true_eq, Bool.not_eq_true', decide_eq_false_iff_not, List.mem_range'_1]
  constructor
  · rintro ⟨⟨hn, he⟩, ⟨h1, h2⟩, hbefore⟩
    exact ⟨⟨h1, by omega, hn, fun j hj hlt hnj hnm =>
      hbefore j hj hlt ⟨hnj, hnm.trans he⟩⟩, he⟩
  · rintro ⟨hf, he⟩
    exact ⟨⟨hf.named, he⟩, ⟨hf.low, by have := hf.readable; have := hf.low; omega⟩,
      fun j hj hlt hj' => hf.first j hj hlt hj'.1 (hj'.2.trans he.symm)⟩

theorem scan_eq_some {i : Nat} : t.scan name = some i ↔ t.FirstFrom 1 i ∧ t.name i = name :=
  find_firstFrom

end SymTable

end Udynlink
