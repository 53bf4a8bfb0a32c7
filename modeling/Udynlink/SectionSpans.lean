import Udynlink.LoadWrites

/-!
# The section of a link-time VA

The validator leaves spans that ascend and do not overlap: an entry ends at or before the
start of the next one, also where `.text` and `.data` are extended over the padding behind
them. A scan that stops at the first start past the VA then misses nothing, and what it finds
is the only section there is.
-/

namespace Udynlink

open Machine

/-- One past the last VA entry `i` answers for. No wrap: a span may end at 2^32. -/
def spanEnd (es : Nat → SectEntry) (i : Nat) : Nat :=
  if i < 2 then (es (i + 1)).va.toNat else (es i).va.toNat + (es i).size.toNat

def SpanContains (es : Nat → SectEntry) (i : Nat) (va : UInt32) : Prop :=
  (es i).va.toNat ≤ va.toNat ∧ va.toNat < spanEnd es i

instance (es : Nat → SectEntry) (i : Nat) (va : UInt32) : Decidable (SpanContains es i va) :=
  inferInstanceAs (Decidable (_ ∧ _))

namespace TableOk

variable {h : Header} {num : Nat} {es : Nat → SectEntry} {i j : Nat} {va : UInt32}

theorem va_le (ht : TableOk h num es) (hij : i ≤ j) (hj : j < num) :
    (es i).va.toNat ≤ (es j).va.toNat := by
  rcases Nat.eq_or_lt_of_le hij with rfl | hlt
  · exact Nat.le_refl _
  · have hm := ht.va_mono hlt hj
    omega

/-- The spans ascend and do not overlap. -/
theorem spanEnd_le (ht : TableOk h num es) (hij : i < j) (hj : j < num) :
    spanEnd es i ≤ (es j).va.toNat := by
  unfold spanEnd
  split
  next => exact ht.va_le hij hj
  next => exact ht.va_mono hij hj

/-- No entry from one on that starts past the VA contains it. -/
theorem not_contains_of_lt (ht : TableOk h num es) (hva : va < (es i).va) (hij : i ≤ j)
    (hj : j < num) : ¬ SpanContains es j va := by
  rintro ⟨hle, -⟩
  have hstart := ht.va_le hij hj
  have hlt := UInt32.lt_iff_toNat_lt.mp hva
  omega

theorem contains_unique (ht : TableOk h num es) (hi : i < num) (hj : j < num)
    (hci : SpanContains es i va) (hcj : SpanContains es j va) : i = j := by
  obtain ⟨hli, hui⟩ := hci
  obtain ⟨hlj, huj⟩ := hcj
  rcases Nat.lt_trichotomy i j with hlt | heq | hgt
  · have hend := ht.spanEnd_le hlt hj
    omega
  · exact heq
  · have hend := ht.spanEnd_le hgt hi
    omega

end TableOk

section

variable {h : Header} {tab : SectView} {m : Mem} {i : Nat} {va : UInt32}

/-- The 64-bit comparison of the scan is the exact one. -/
theorem entrySpan_lt_iff (ht : TableOk h tab.num (entriesAt m tab.pEntries)) (h3 : 3 ≤ tab.num)
    (hi : i < tab.num) (hva : ¬ va < (entriesAt m tab.pEntries i).va) :
    (va - (entriesAt m tab.pEntries i).va).toUInt64 <
        (entrySpan tab i (entriesAt m tab.pEntries i)).run m ↔
      SpanContains (entriesAt m tab.pEntries) i va := by
  have hle : (entriesAt m tab.pEntries i).va ≤ va := UInt32.not_lt.mp hva
  have hstart : (entriesAt m tab.pEntries i).va.toNat ≤ va.toNat := UInt32.le_iff_toNat_le.mp hle
  have hoff : (va - (entriesAt m tab.pEntries i).va).toUInt64.toNat =
      va.toNat - (entriesAt m tab.pEntries i).va.toNat := by
    rw [UInt32.toNat_toUInt64, UInt32.toNat_sub_of_le _ _ hle]
  have hspan : ((entrySpan tab i (entriesAt m tab.pEntries i)).run m).toNat =
      spanEnd (entriesAt m tab.pEntries) i - (entriesAt m tab.pEntries i).va.toNat := by
    rw [entrySpan, Reader.run_ite]
    unfold spanEnd
    by_cases h2 : i < 2
    · have hnext := ht.va_le (Nat.le_succ i) (show i + 1 < tab.num by omega)
      rw [if_pos (by simp; omega), if_pos h2, Reader.run_bind, sectEntryAt_run, Reader.run_pure,
        UInt64.toNat_sub_of_le, UInt32.toNat_toUInt64, UInt32.toNat_toUInt64]
      rw [UInt64.le_iff_toNat_le, UInt32.toNat_toUInt64, UInt32.toNat_toUInt64]
      exact hnext
    · rw [if_neg (by simp; omega), if_neg h2, Reader.run_pure, UInt32.toNat_toUInt64]
      omega
  rw [UInt64.lt_iff_toNat_lt, hoff, hspan, SpanContains]
  omega

/-- The scan finds an entry that contains the VA, and misses none. -/
theorem sectFindLoop_spec (ht : TableOk h tab.num (entriesAt m tab.pEntries)) (h3 : 3 ≤ tab.num)
    (va : UInt32) {n i : Nat} (hi : i + n = tab.num) :
    match (sectFindLoop tab va n i).run m with
    | some k => k < tab.num ∧ SpanContains (entriesAt m tab.pEntries) k va
    | none => ∀ j, i ≤ j → j < tab.num → ¬ SpanContains (entriesAt m tab.pEntries) j va := by
  induction n generalizing i with
  | zero =>
    intro j hij hj
    omega
  | succ n ih =>
    rw [sectFindLoop, Reader.run_bind, sectEntryAt_run, Reader.run_ite]
    by_cases hva : va < (entriesAt m tab.pEntries i).va
    · -- the early exit
      rw [if_pos hva]
      exact fun j hij hj => ht.not_contains_of_lt hva hij hj
    · have hspan := entrySpan_lt_iff ht h3 (show i < tab.num by omega) hva
      rw [if_neg hva, Reader.run_bind, Reader.run_ite]
      by_cases hlt : (va - (entriesAt m tab.pEntries i).va).toUInt64 <
          (entrySpan tab i (entriesAt m tab.pEntries i)).run m
      · rw [if_pos hlt]
        exact ⟨by omega, hspan.mp hlt⟩
      · rw [if_neg hlt]
        have hrest := ih (show i + 1 + n = tab.num by omega)
        split at hrest
        next => exact hrest
        next =>
          intro j hij hj
          rcases Nat.eq_or_lt_of_le hij with rfl | hgt
          · exact fun hc => hlt (hspan.mpr hc)
          · exact hrest j hgt hj

end

/-- The search for a VA on the entries of a table. -/
structure FindsSection (tab : SectView) (m : Mem) (es : Nat → SectEntry) (va : UInt32) : Prop where
  found : ∀ k, (sectFindByVa tab va).run m = some k ↔ k < tab.num ∧ SpanContains es k va
  missed : (sectFindByVa tab va).run m = none ↔ ∀ k, k < tab.num → ¬ SpanContains es k va
  unique : ∀ j k, j < tab.num → k < tab.num → SpanContains es j va → SpanContains es k va → j = k
  stops : ∀ i j, va < (es i).va → i ≤ j → j < tab.num → ¬ SpanContains es j va

/-- On every accepted table the search finds the section of a VA, or there is none. -/
theorem sectFindByVa_finds {m : Mem} {p : Addr} {checkNames : Bool} {tab : SectView}
    (h : (getSectab p checkNames).run m = (.ok (), tab)) (h3 : 3 ≤ tab.num) (va : UInt32) :
    FindsSection tab m (entriesAt m tab.pEntries) va := by
  have ht : TableOk (decodeHeader m p) tab.num (entriesAt m tab.pEntries) := by
    rcases getSectab_ok h with ⟨-, rfl⟩ | ⟨-, ht, -⟩
    · exact absurd h3 (Nat.not_succ_le_zero 2)
    · exact ht
  have hspec := sectFindLoop_spec ht h3 va (n := tab.num) (i := 0) (Nat.zero_add _)
  rw [show sectFindLoop tab va tab.num 0 = sectFindByVa tab va from rfl] at hspec
  refine ⟨fun k => ?_, ?_, fun j k hj hk => ht.contains_unique hj hk,
    fun i j => ht.not_contains_of_lt⟩
  · split at hspec
    next k' hk' =>
      rw [hk', Option.some.injEq]
      constructor
      · rintro rfl
        exact hspec
      · rintro ⟨hk, hc⟩
        exact ht.contains_unique hspec.1 hk hspec.2 hc
    next hk' =>
      rw [hk']
      refine iff_of_false (by simp) ?_
      rintro ⟨hk, hc⟩
      exact hspec k (Nat.zero_le k) hk hc
  · split at hspec
    next k' hk' =>
      rw [hk']
      refine iff_of_false (by simp) fun hall => ?_
      exact hall k' hspec.1 hspec.2
    next hk' =>
      rw [hk']
      exact iff_of_true rfl fun k hk => hspec k (Nat.zero_le k) hk

/-- The last word of `.data`, whose span ends where `.bss` starts. -/
theorem sectFindByVa_finds_ownSection : FindsSection
    (imageView ownSectionImage ownSectionRom) ownSectionRom
    (entriesAt ownSectionRom (imageView ownSectionImage ownSectionRom).pEntries) 7 := by
  have htab : (getSectab 0x1000 true).run ownSectionRom =
      (.ok (), imageView ownSectionImage ownSectionRom) := Prod.ext (by decide +kernel) rfl
  exact sectFindByVa_finds htab (by decide +kernel) 7

end Udynlink
