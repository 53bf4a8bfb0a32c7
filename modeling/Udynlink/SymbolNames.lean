import Udynlink.Host
import Udynlink.Machine.CStr

/-!
# The names of a symbol table

The entries of a table as the loader sees them, and the count of its named prefix.
The count is a 16-bit number; the index it comes from is not.
-/

namespace Udynlink

open Machine

/-! ## Entries -/

/-- The table of a module: where it is, and its size in bytes. -/
structure SymTable where
  mem : Mem
  base : Addr
  size : UInt32

namespace SymTable

variable (t : SymTable)

def words : Nat := t.size.toNat / 4

def count : Nat := ((symtWord t.base 0).run t.mem).toNat

def info (i : Nat) : UInt32 := (symtWord t.base (UInt32.ofNat (i * 2 + 1))).run t.mem

def val (i : Nat) : UInt32 := (symtWord t.base (UInt32.ofNat (i * 2 + 2))).run t.mem

def Named (i : Nat) : Prop := symTypeOf (t.info i) ≠ symTypeInternal

instance (i : Nat) : Decidable (t.Named i) := inferInstanceAs (Decidable (_ ≠ _))

def nameOff (i : Nat) : UInt32 := t.info i &&& symOffsetMask

def name (i : Nat) : List UInt8 := (readCString (t.base + t.nameOff i)).run t.mem

/-- The entries whose type word lies in the table. -/
def scanned : Nat := min t.count (t.words / 2)

/-- The entries that can be read. -/
def readable : Nat := min t.count ((t.words - 1) / 2)

/-- What is read of entry `i`. -/
def entry (i : Nat) : Sym where
  name := if t.Named i then .pool (t.base + t.nameOff i) else .notAvailable
  val := t.val i
  type := symTypeOf (t.info i)
  location := symLocationOf (t.info i)

/-- The name of entry `i` ends inside the table. -/
def NameEnds (i : Nat) : Prop :=
  StrAt t.mem (t.base + t.nameOff i) (t.name i) ∧
    (t.nameOff i).toNat + (t.name i).length < t.size.toNat

/-- The names that can be read end inside the table. -/
def NamesEnd : Prop := ∀ i, 1 ≤ i → i < t.readable → t.Named i → t.NameEnds i

/-- Within the size cap, the names end inside the table and are pairwise distinct. -/
structure WellNamed : Prop where
  cap : t.size.toNat ≤ maxImageSize.toNat
  inside : ∀ i, 1 ≤ i → i < t.readable → t.Named i →
    StrAt t.mem (t.base + t.nameOff i) (t.name i) ∧
      (t.nameOff i).toNat + (t.name i).length < t.size.toNat
  distinct : ∀ i j, 1 ≤ i → i < t.readable → t.Named i → 1 ≤ j → j < t.readable → t.Named j →
    t.name i = t.name j → i = j

variable {t}

theorem words_le (hw : t.WellNamed) : t.words ≤ 1048576 := by
  have hc := hw.cap
  have hm : maxImageSize.toNat = 4194304 := rfl
  rw [hm] at hc
  unfold words
  omega

theorem readable_le_words : t.readable * 2 ≤ t.words := by
  unfold readable
  omega

theorem scanned_le_succ : t.scanned ≤ t.readable + 1 := by
  unfold scanned readable
  omega

theorem readable_le_scanned : t.readable ≤ t.scanned := by
  unfold scanned readable
  omega

theorem getSymAtRaw_run (hw : t.NamesEnd) {i : Nat} (hi : 1 ≤ i) (hlt : i < 2 ^ 30) :
    (getSymAtRaw t.base (UInt32.ofNat i) t.size).run t.mem =
      if i < t.readable then some (t.entry i) else none := by
  have hwords : (t.size / 4).toNat = t.words := UInt32.toNat_div t.size 4
  have hidx : (UInt32.ofNat i).toNat = i := toNat_ofNat_of_lt (by omega)
  have h1 : UInt32.ofNat i * 2 + 1 = UInt32.ofNat (i * 2 + 1) := by
    rw [UInt32.ofNat_add, UInt32.ofNat_mul]
    rfl
  have h2 : UInt32.ofNat i * 2 + 2 = UInt32.ofNat (i * 2 + 2) := by
    rw [UInt32.ofNat_add, UInt32.ofNat_mul]
    rfl
  have h2n : (UInt32.ofNat (i * 2 + 2)).toNat = i * 2 + 2 := toNat_ofNat_of_lt (by omega)
  have h0 : ¬ UInt32.ofNat i = 0 := by
    intro h
    have := congrArg UInt32.toNat h
    rw [hidx] at this
    exact absurd this (by simp; omega)
  have hcount : UInt32.ofNat i ≥ (symtWord t.base 0).run t.mem ↔ t.count ≤ i := by
    rw [ge_iff_le, UInt32.le_iff_toNat_le, hidx]
    rfl
  have hfit : UInt32.ofNat (i * 2 + 2) ≥ t.size / 4 ↔ t.words ≤ i * 2 + 2 := by
    rw [ge_iff_le, UInt32.le_iff_toNat_le, hwords, h2n]
  have hempty : t.size / 4 < 1 ↔ t.words < 1 := by
    rw [UInt32.lt_iff_toNat_lt, hwords]
    rfl
  unfold getSymAtRaw
  dsimp only
  simp only [Reader.run_ite, Reader.run_bind, hempty, hcount, h1, h2, hfit]
  by_cases hr : i < t.readable
  · have hread := hr
    unfold readable at hread
    rw [if_neg (by omega), if_neg (by omega), if_neg (by omega), if_pos hr]
    rw [if_neg (fun h => h0 h.1)]
    change (if t.Named i then _ else _) = _
    unfold entry
    by_cases hn : t.Named i
    · obtain ⟨-, hlen⟩ := hw i hi hr hn
      have hoff : ¬ (t.nameOff i ≥ t.size) := by
        rw [ge_iff_le, UInt32.le_iff_toNat_le]
        omega
      rw [if_pos hn, if_pos hn]
      exact if_neg hoff
    · rw [if_neg hn, if_neg hn]
      rfl
  · rw [if_neg hr]
    unfold readable at hr
    by_cases hz : t.words < 1
    · rw [if_pos hz]
      rfl
    · rw [if_neg hz]
      by_cases hc : t.count ≤ i
      · rw [if_pos hc]
        rfl
      · rw [if_neg hc, if_pos (by omega)]
        rfl

/-- Only entries that can be read are returned. -/
theorem getSymAtRaw_some {i : Nat} (hlt : i < 2 ^ 30) {sym : Sym}
    (h : (getSymAtRaw t.base (UInt32.ofNat i) t.size).run t.mem = some sym) :
    i < t.readable ∧ sym = t.entry i ∧ (i = 0 → sym.type = symTypeModuleName) := by
  have hwords : (t.size / 4).toNat = t.words := UInt32.toNat_div t.size 4
  have hidx : (UInt32.ofNat i).toNat = i := toNat_ofNat_of_lt (by omega)
  have h1 : UInt32.ofNat i * 2 + 1 = UInt32.ofNat (i * 2 + 1) := by
    rw [UInt32.ofNat_add, UInt32.ofNat_mul]
    rfl
  have h2 : UInt32.ofNat i * 2 + 2 = UInt32.ofNat (i * 2 + 2) := by
    rw [UInt32.ofNat_add, UInt32.ofNat_mul]
    rfl
  have h2n : (UInt32.ofNat (i * 2 + 2)).toNat = i * 2 + 2 := toNat_ofNat_of_lt (by omega)
  have h0 : UInt32.ofNat i = 0 ↔ i = 0 := by
    rw [← UInt32.toNat_inj, hidx]
    rfl
  have hcount : UInt32.ofNat i ≥ (symtWord t.base 0).run t.mem ↔ t.count ≤ i := by
    rw [ge_iff_le, UInt32.le_iff_toNat_le, hidx]
    rfl
  have hfit : UInt32.ofNat (i * 2 + 2) ≥ t.size / 4 ↔ t.words ≤ i * 2 + 2 := by
    rw [ge_iff_le, UInt32.le_iff_toNat_le, hwords, h2n]
  unfold getSymAtRaw at h
  dsimp only at h
  simp only [Reader.run_ite, Reader.run_bind, hcount, h0, h1, h2, hfit] at h
  split at h
  · cases h
  · split at h
    · cases h
    · split at h
      · cases h
      · rename_i hc hf
        split at h
        · cases h
        · rename_i hfirst
          have hsym : sym = t.entry i := by
            unfold entry
            by_cases hn : t.Named i
            · rw [if_pos hn]
              rw [if_pos (show symTypeOf ((symtWord t.base (UInt32.ofNat (i * 2 + 1))).run t.mem) ≠
                symTypeInternal from hn)] at h
              split at h
              · cases h
              · exact (Option.some.inj h).symm
            · rw [if_neg hn]
              rw [if_neg (show ¬ symTypeOf ((symtWord t.base (UInt32.ofNat (i * 2 + 1))).run t.mem) ≠
                symTypeInternal from hn)] at h
              exact (Option.some.inj h).symm
          refine ⟨by unfold readable; omega, hsym, fun hi => ?_⟩
          rw [hsym]
          by_contra hne
          exact hfirst ⟨hi, hne⟩

/-! ## The named prefix -/

/-- The entries up to `N` are named, the others are not. -/
structure NamedPrefix (t : SymTable) (N : Nat) : Prop where
  bound : N = 0 ∨ N < t.scanned
  named : ∀ i, 1 ≤ i → i ≤ N → t.Named i
  nameless : ∀ i, N < i → i < t.scanned → ¬ t.Named i

theorem NamedPrefix.unique {N M : Nat} (hN : t.NamedPrefix N) (hM : t.NamedPrefix M) : N = M := by
  by_contra hne
  rcases Nat.lt_or_gt_of_ne hne with h | h
  · have hb := hM.bound.resolve_left (by omega)
    exact hN.nameless M h hb (hM.named M (by omega) (Nat.le_refl M))
  · have hb := hN.bound.resolve_left (by omega)
    exact hM.nameless N h hb (hN.named N (by omega) (Nat.le_refl N))

theorem not_scanned_iff {i : Nat} :
    (¬ i < ((symtWord t.base 0).run t.mem).toNat ∨ i * 2 + 1 ≥ (t.size / 4).toNat) ↔
      ¬ i < t.scanned := by
  have hwords : (t.size / 4).toNat = t.words := UInt32.toNat_div t.size 4
  have hcount : ((symtWord t.base 0).run t.mem).toNat = t.count := rfl
  rw [hwords, hcount]
  unfold scanned
  omega

/-- Behind a nameless entry the scan runs through, or meets a named one. -/
theorem namedScan_local {N : Nat} (hN : N = 0 ∨ N < t.scanned)
    (hnamed : ∀ i, 1 ≤ i → i ≤ N → t.Named i) {n i : Nat} (hi : N < i)
    (hbefore : ∀ j, N < j → j < i → ¬ t.Named j) (hlocal : N + 1 < i) (hn : t.scanned ≤ n + i) :
    ((namedScan t.base ((symtWord t.base 0).run t.mem) (t.size / 4) n i (UInt16.ofNat N)
        true).run t.mem = some (UInt16.ofNat N) ∧ t.NamedPrefix N) ∨
      ((namedScan t.base ((symtWord t.base 0).run t.mem) (t.size / 4) n i (UInt16.ofNat N)
        true).run t.mem = none ∧ ∀ M, ¬ t.NamedPrefix M) := by
  induction n generalizing i with
  | zero => exact Or.inl ⟨rfl, hN, hnamed, fun j hj hs => hbefore j hj (by omega)⟩
  | succ n ih =>
    unfold namedScan
    rw [Reader.run_ite]
    by_cases hs : i < t.scanned
    · rw [if_neg (by rw [not_scanned_iff]; exact not_not_intro hs), Reader.run_bind,
        Reader.run_ite]
      change ((if symTypeOf (t.info i) = symTypeInternal then _ else _) = _ ∧ _) ∨
        ((if symTypeOf (t.info i) = symTypeInternal then _ else _) = _ ∧ _)
      by_cases hnm : t.Named i
      · rw [if_neg hnm]
        refine Or.inr ⟨rfl, fun M hM => ?_⟩
        -- the entry after `N` is nameless, this one is named
        have hlt : M < i := by
          by_contra hge
          exact hbefore (N + 1) (by omega) hlocal (hM.named (N + 1) (by omega) (by omega))
        exact hM.nameless i hlt hs hnm
      · rw [if_pos (not_not.mp hnm)]
        refine ih (by omega) (fun j hj hlt => ?_) (by omega) (by omega)
        by_cases he : j = i
        · rw [he]
          exact hnm
        · exact hbefore j hj (by omega)
    · rw [if_pos (by rw [not_scanned_iff]; exact hs)]
      exact Or.inl ⟨rfl, hN, hnamed, fun j hj hjs => hbefore j hj (by omega)⟩

/-- The scan finds the named prefix, its length narrowed to 16 bits. -/
theorem namedScan_run {n i : Nat} (hi : 1 ≤ i) (hle : i ≤ t.scanned ∨ i = 1)
    (hnamed : ∀ j, 1 ≤ j → j < i → t.Named j) (hn : t.scanned ≤ n + i) :
    (∃ N, (namedScan t.base ((symtWord t.base 0).run t.mem) (t.size / 4) n i
        (UInt16.ofNat (i - 1)) false).run t.mem = some (UInt16.ofNat N) ∧ t.NamedPrefix N) ∨
      ((namedScan t.base ((symtWord t.base 0).run t.mem) (t.size / 4) n i
        (UInt16.ofNat (i - 1)) false).run t.mem = none ∧ ∀ M, ¬ t.NamedPrefix M) := by
  have hall : ¬ i < t.scanned → t.NamedPrefix (i - 1) := by
    intro hs
    exact ⟨by omega, fun j h1 hj => hnamed j h1 (by omega), fun j hj hjs => by omega⟩
  induction n generalizing i with
  | zero => exact Or.inl ⟨i - 1, rfl, hall (by omega)⟩
  | succ n ih =>
    unfold namedScan
    rw [Reader.run_ite]
    by_cases hs : i < t.scanned
    · rw [if_neg (by rw [not_scanned_iff]; exact not_not_intro hs), Reader.run_bind,
        Reader.run_ite]
      change (∃ N, (if symTypeOf (t.info i) = symTypeInternal then _ else _) = _ ∧ _) ∨
        ((if symTypeOf (t.info i) = symTypeInternal then _ else _) = _ ∧ _)
      by_cases hnm : t.Named i
      · rw [if_neg hnm]
        have hnext : ∀ j, 1 ≤ j → j < i + 1 → t.Named j := by
          intro j h1 hj
          by_cases he : j = i
          · rw [he]
            exact hnm
          · exact hnamed j h1 (by omega)
        exact ih (by omega) (by omega) hnext (by omega) fun hs' =>
          ⟨by omega, fun j h1 hj => hnext j h1 (by omega), fun j hj hjs => by omega⟩
      · rw [if_pos (not_not.mp hnm)]
        have hbefore : ∀ j, i - 1 < j → j < i + 1 → ¬ t.Named j := by
          intro j h1 hj
          rw [show j = i by omega]
          exact hnm
        have h := @namedScan_local t (i - 1) (by omega)
          (fun j h1 hj => hnamed j h1 (by omega)) n (i + 1) (by omega) hbefore (by omega) (by omega)
        exact h.imp_left fun h => ⟨i - 1, h⟩
    · rw [if_pos (by rw [not_scanned_iff]; exact hs)]
      exact Or.inl ⟨i - 1, rfl, hall hs⟩

/-! ## The order of the names -/

/-- The first `k` names are in ascending order. -/
def Ascending (t : SymTable) (k : Nat) : Prop :=
  ∀ i, 1 ≤ i → i < k → compare (t.name i) (t.name (i + 1)) ≠ .gt

/-- Neighbours are compared as strings. -/
theorem sortedScan_run {n i : Nat} (hi : 2 ≤ i)
    (hin : ∀ j, i - 1 ≤ j → j < i + n → t.NameEnds j) :
    (sortedScan t.base t.size n i).run t.mem = true ↔
      ∀ j, i ≤ j → j < i + n → compare (t.name (j - 1)) (t.name j) ≠ .gt := by
  induction n generalizing i with
  | zero =>
    refine ⟨fun _ j h1 h2 => by omega, fun _ => rfl⟩
  | succ n ih =>
    obtain ⟨hstr, hlen⟩ := hin i (by omega) (by omega)
    obtain ⟨hstr', hlen'⟩ := hin (i - 1) (by omega) (by omega)
    unfold sortedScan
    simp only [Reader.run_bind, Reader.run_ite]
    change (if t.nameOff (i - 1) ≥ t.size ∨ t.nameOff i ≥ t.size then false
      else if (Reader.strncmp _ (t.base + t.nameOff (i - 1)) (t.base + t.nameOff i)).run t.mem = .gt
        then false else (sortedScan t.base t.size n (i + 1)).run t.mem) = true ↔ _
    have hoff : ¬ (t.nameOff (i - 1) ≥ t.size ∨ t.nameOff i ≥ t.size) := by
      rw [ge_iff_le, ge_iff_le, UInt32.le_iff_toNat_le, UInt32.le_iff_toNat_le]
      omega
    rw [if_neg hoff, run_strncmp hstr' hstr]
    · by_cases hgt : compare (t.name (i - 1)) (t.name i) = .gt
      · rw [if_pos hgt]
        refine ⟨fun h => absurd h Bool.false_ne_true, fun h => absurd hgt (h i (by omega) (by omega))⟩
      · rw [if_neg hgt, ih (by omega) fun j h1 h2 => hin j (by omega) (by omega)]
        constructor
        · intro h j h1 h2
          by_cases he : j = i
          · rw [he]
            exact hgt
          · exact h j (by omega) (by omega)
        · exact fun h j h1 h2 => h j (by omega) (by omega)
    · change _ < min (t.size - t.nameOff (i - 1)).toNat (t.size - t.nameOff i).toNat
      have h1 : t.nameOff (i - 1) ≤ t.size := by
        rw [UInt32.le_iff_toNat_le]
        omega
      have h2 : t.nameOff i ≤ t.size := by
        rw [UInt32.le_iff_toNat_le]
        omega
      rw [UInt32.toNat_sub_of_le _ _ h1, UInt32.toNat_sub_of_le _ _ h2]
      omega

theorem sortedScan_of_succ {n i : Nat} (h : (sortedScan t.base t.size (n + 1) i).run t.mem = true) :
    (sortedScan t.base t.size n i).run t.mem = true := by
  induction n generalizing i with
  | zero => rfl
  | succ n ih =>
    rw [sortedScan] at h ⊢
    simp only [Reader.run_bind, Reader.run_ite] at h ⊢
    split
    · rename_i hoff
      rw [if_pos hoff] at h
      exact h
    · rename_i hoff
      rw [if_neg hoff] at h
      split
      · rename_i hgt
        rw [if_pos hgt] at h
        exact h
      · rename_i hgt
        rw [if_neg hgt] at h
        exact ih h

/-- In ascending order, a name is below every later one. -/
theorem ascending_lt (hw : t.WellNamed) {k : Nat} (ha : t.Ascending k) (hk : k < t.readable)
    (hnamed : ∀ i, 1 ≤ i → i ≤ k → t.Named i) {i j : Nat} (hi : 1 ≤ i) (hij : i < j)
    (hj : j ≤ k) : compare (t.name i) (t.name j) = .lt := by
  have hstep : ∀ i, 1 ≤ i → i < k → compare (t.name i) (t.name (i + 1)) = .lt := by
    intro i hi hik
    cases hc : compare (t.name i) (t.name (i + 1)) with
    | lt => rfl
    | gt => exact absurd hc (ha i hi hik)
    | eq =>
      have hd := hw.distinct i (i + 1) hi (by omega) (hnamed i hi (by omega)) (by omega) (by omega)
        (hnamed (i + 1) (by omega) hik) (Std.LawfulEqCmp.compare_eq_iff_eq.mp hc)
      omega
  induction j, hij using Nat.le_induction with
  | base => exact hstep i hi hj
  | succ j hij ih => exact Std.TransCmp.lt_trans (ih (by omega)) (hstep j (by omega) hj)

/-! ## The count -/

theorem sortedScan_iff {k : Nat} (hin : ∀ i, 1 ≤ i → i ≤ k → t.NameEnds i) :
    (sortedScan t.base t.size (k - 1) 2).run t.mem = true ↔ t.Ascending k := by
  by_cases hk : 0 < k
  · rw [sortedScan_run (Nat.le_refl 2) fun j h1 h2 => hin j (by omega) (by omega)]
    constructor
    · exact fun h i hi hik => h (i + 1) (by omega) (by omega)
    · intro h j h1 h2
      have hj := h (j - 1) (by omega) (by omega)
      rwa [show j - 1 + 1 = j by omega] at hj
  · rw [show k - 1 = 0 by omega]
    exact iff_of_true rfl fun i hi hik => by omega

theorem ascending_of_sortedScan (hw : t.WellNamed) {k : Nat} (hk : k < t.readable)
    (hnamed : ∀ i, 1 ≤ i → i ≤ k → t.Named i)
    (hs : (sortedScan t.base t.size (k - 1) 2).run t.mem = true) : t.Ascending k :=
  (sortedScan_iff fun i h1 h2 => hw.inside i h1 (by omega) (hnamed i h1 h2)).mp hs

theorem sortedScan_of_ascending (hw : t.WellNamed) {k : Nat} (hk : k < t.readable)
    (hnamed : ∀ i, 1 ≤ i → i ≤ k → t.Named i) (ha : t.Ascending k) :
    (sortedScan t.base t.size (k - 1) 2).run t.mem = true :=
  (sortedScan_iff fun i h1 h2 => hw.inside i h1 (by omega) (hnamed i h1 h2)).mpr ha

/-- The count is the length of the named prefix, narrowed, when the names it counts
are in order, and 0 otherwise. -/
theorem computeNumNamedSymsRaw_run (t : SymTable) :
    (∃ N, t.NamedPrefix N ∧ (computeNumNamedSymsRaw t.base t.size).run t.mem =
      if (sortedScan t.base t.size ((UInt16.ofNat N).toNat - 1) 2).run t.mem then UInt16.ofNat N
      else 0) ∨
    ((∀ N, ¬ t.NamedPrefix N) ∧ (computeNumNamedSymsRaw t.base t.size).run t.mem = 0) := by
  have hwords : (t.size / 4).toNat = t.words := UInt32.toNat_div t.size 4
  have hempty : t.size / 4 < 1 ↔ t.words < 1 := by
    rw [UInt32.lt_iff_toNat_lt, hwords]
    rfl
  unfold computeNumNamedSymsRaw
  dsimp only
  simp only [Reader.run_ite, hempty]
  by_cases hz : t.words < 1
  · rw [if_pos hz]
    have hs : t.scanned = 0 := by
      unfold scanned
      omega
    refine Or.inl ⟨0, ⟨Or.inl rfl, fun i h1 h2 => by omega, fun i _ hi => by omega⟩, ?_⟩
    exact (ite_self _).symm
  · rw [if_neg hz, Reader.run_bind, Reader.run_bind]
    have hfuel : t.scanned ≤ (t.size / 4).toNat + 1 := by
      rw [hwords]
      unfold scanned
      omega
    have hscan := @namedScan_run t (t.size / 4).toNat 1 (Nat.le_refl 1) (Or.inr rfl)
      (fun j h1 h2 => by omega) hfuel
    cases hscan with
    | inl h =>
      obtain ⟨N, hN, hp⟩ := h
      refine Or.inl ⟨N, hp, ?_⟩
      have hrun : (namedScan t.base ((symtWord t.base 0).run t.mem) (t.size / 4)
        (t.size / 4).toNat 1 0 false).run t.mem = some (UInt16.ofNat N) := hN
      rw [hrun]
      rfl
    | inr h =>
      obtain ⟨hN, hp⟩ := h
      refine Or.inr ⟨hp, ?_⟩
      have hrun : (namedScan t.base ((symtWord t.base 0).run t.mem) (t.size / 4)
        (t.size / 4).toNat 1 0 false).run t.mem = none := hN
      rw [hrun]
      rfl

end SymTable

end Udynlink
