import Udynlink.Machine.CStr
import Udynlink.Parser.Image

/-!
# Names as text and as bytes

A table holds its names in UTF-8: the parser decodes them, the loader takes them as they
are. What is encoded is decoded again, and both forms have the same order.
-/

namespace Udynlink.Parser

open Machine

/-- UTF-8; the last branch is for code points from 0x10000 on. -/
def encodeChar (c : Nat) : Bytes :=
  if c < 0x80 then [UInt8.ofNat c]
  else if c < 0x800 then [UInt8.ofNat (0xC0 + c / 64), UInt8.ofNat (0x80 + c % 64)]
  else if c < 0x10000 then
    [UInt8.ofNat (0xE0 + c / 4096), UInt8.ofNat (0x80 + c / 64 % 64), UInt8.ofNat (0x80 + c % 64)]
  else
    [UInt8.ofNat (0xF0 + c / 262144 % 8), UInt8.ofNat (0x80 + c / 4096 % 64),
      UInt8.ofNat (0x80 + c / 64 % 64), UInt8.ofNat (0x80 + c % 64)]

/-- The C string of a Python string. -/
def encodeUtf8 (s : Str) : Bytes := s.flatMap encodeChar

/-- A code point that UTF-8 encodes, but for NUL: surrogates are left out. -/
def IsScalar (c : Nat) : Prop := c ≠ 0 ∧ (c < 0xD800 ∨ 0xE000 ≤ c) ∧ c < 0x110000

instance (c : Nat) : Decidable (IsScalar c) := inferInstanceAs (Decidable (_ ∧ _))

/-- A string that is a C string once it is encoded. -/
def IsText (s : Str) : Prop := ∀ c ∈ s, IsScalar c

instance (s : Str) : Decidable (IsText s) := inferInstanceAs (Decidable (∀ c ∈ s, IsScalar c))

theorem IsText.tail {c : Nat} {s : Str} (h : IsText (c :: s)) : IsText s :=
  fun d hd => h d (List.mem_cons_of_mem _ hd)

theorem encodeUtf8_cons (c : Nat) (s : Str) : encodeUtf8 (c :: s) = encodeChar c ++ encodeUtf8 s :=
  List.flatMap_cons

/-! ## Decoding -/

theorem utf8Continue_cons {n lo hi acc x : Nat} {rest : Bytes} (hx : x < 256) (hlo : lo ≤ x)
    (hhi : x ≤ hi) : utf8Continue (n + 1) lo hi acc (UInt8.ofNat x :: rest) =
      utf8Continue n 0x80 0xBF (acc * 64 + (x - 0x80)) rest := by
  rw [utf8Continue, UInt8.toNat_ofNat', Nat.mod_eq_of_lt hx, if_pos ⟨hlo, hhi⟩]

/-- A sequence from its first byte on. -/
theorem decodeLoop_lead {n x acc k lo hi c : Nat} {bs rest : Bytes} (hx : x < 256)
    (hlead : utf8Lead x = some (acc, k, lo, hi)) (hrest : utf8Continue k lo hi acc bs = (c, rest)) :
    decodeLoop (n + 1) (UInt8.ofNat x :: bs) = c :: decodeLoop n rest := by
  rw [decodeLoop, UInt8.toNat_ofNat', Nat.mod_eq_of_lt hx, hlead]
  dsimp only
  rw [hrest]

theorem utf8Lead_two {b : Nat} (h : 0xC2 ≤ b) (h' : b < 0xE0) :
    utf8Lead b = some (b - 0xC0, 1, 0x80, 0xBF) := by
  rw [utf8Lead, if_neg (by omega), if_neg (by omega), if_pos h']

/-- The range of the second byte leaves out what is too short and what is a surrogate. -/
theorem utf8Lead_three {b : Nat} (h : 0xE0 ≤ b) (h' : b < 0xF0) : ∃ lo hi,
    utf8Lead b = some (b - 0xE0, 2, lo, hi) ∧ lo = (if b = 0xE0 then 0xA0 else 0x80) ∧
      hi = if b = 0xED then 0x9F else 0xBF := by
  rw [utf8Lead, if_neg (by omega), if_neg (by omega), if_neg (by omega)]
  by_cases h0 : b = 0xE0
  · subst h0
    exact ⟨_, _, rfl, rfl, rfl⟩
  · rw [if_neg h0, if_neg h0]
    by_cases hd : b = 0xED
    · subst hd
      exact ⟨_, _, rfl, rfl, rfl⟩
    · rw [if_neg hd, if_neg hd, if_pos h']
      exact ⟨_, _, rfl, rfl, rfl⟩

theorem utf8Lead_four {b : Nat} (h : 0xF0 ≤ b) (h' : b < 0xF5) : ∃ lo hi,
    utf8Lead b = some (b - 0xF0, 3, lo, hi) ∧ lo = (if b = 0xF0 then 0x90 else 0x80) ∧
      hi = if b = 0xF4 then 0x8F else 0xBF := by
  rw [utf8Lead, if_neg (by omega), if_neg (by omega), if_neg (by omega), if_neg (by omega),
    if_neg (by omega), if_neg (by omega)]
  by_cases h0 : b = 0xF0
  · subst h0
    exact ⟨_, _, rfl, rfl, rfl⟩
  · rw [if_neg h0, if_neg h0]
    by_cases h4 : b < 0xF4
    · rw [if_pos h4, if_neg (by omega)]
      exact ⟨_, _, rfl, rfl, rfl⟩
    · obtain rfl : b = 0xF4 := by omega
      exact ⟨_, _, rfl, rfl, rfl⟩

theorem decodeLoop_char {c : Nat} (h : IsScalar c) (n : Nat) (rest : Bytes) :
    decodeLoop (n + 1) (encodeChar c ++ rest) = c :: decodeLoop n rest := by
  obtain ⟨-, hsur, hmax⟩ := h
  unfold encodeChar
  split
  · exact decodeLoop_lead (by omega) (if_pos ‹_›) rfl
  · split
    · rw [List.cons_append, List.cons_append, List.nil_append]
      refine decodeLoop_lead (by omega) (utf8Lead_two (by omega) (by omega)) ?_
      rw [utf8Continue_cons (by omega) (by omega) (by omega), utf8Continue,
        show (0xC0 + c / 64 - 0xC0) * 64 + (0x80 + c % 64 - 0x80) = c by omega]
    · split
      · obtain ⟨lo, hi, hlead, hlo, hhi⟩ := @utf8Lead_three (0xE0 + c / 4096) (by omega) (by omega)
        rw [List.cons_append, List.cons_append, List.cons_append, List.nil_append]
        refine decodeLoop_lead (by omega) hlead ?_
        have hlo' : lo ≤ 0x80 + c / 64 % 64 := by
          split at hlo <;> omega
        have hhi' : 0x80 + c / 64 % 64 ≤ hi := by
          split at hhi <;> omega
        rw [utf8Continue_cons (by omega) hlo' hhi',
          utf8Continue_cons (by omega) (by omega) (by omega), utf8Continue,
          show ((0xE0 + c / 4096 - 0xE0) * 64 + (0x80 + c / 64 % 64 - 0x80)) * 64 +
            (0x80 + c % 64 - 0x80) = c by omega]
      · obtain ⟨lo, hi, hlead, hlo, hhi⟩ := @utf8Lead_four (0xF0 + c / 262144 % 8) (by omega)
          (by omega)
        rw [List.cons_append, List.cons_append, List.cons_append, List.cons_append, List.nil_append]
        refine decodeLoop_lead (by omega) hlead ?_
        have hlo' : lo ≤ 0x80 + c / 4096 % 64 := by
          split at hlo <;> omega
        have hhi' : 0x80 + c / 4096 % 64 ≤ hi := by
          split at hhi <;> omega
        rw [utf8Continue_cons (by omega) hlo' hhi', utf8Continue_cons (by omega) (by omega) (by omega),
          utf8Continue_cons (by omega) (by omega) (by omega), utf8Continue,
          show (((0xF0 + c / 262144 % 8 - 0xF0) * 64 + (0x80 + c / 4096 % 64 - 0x80)) * 64 +
            (0x80 + c / 64 % 64 - 0x80)) * 64 + (0x80 + c % 64 - 0x80) = c by omega]

theorem encodeChar_length (c : Nat) : 1 ≤ (encodeChar c).length := by
  unfold encodeChar
  split_ifs <;> exact Nat.le_add_left 1 _

theorem decodeLoop_encode {s : Str} (h : IsText s) {n : Nat} (hn : s.length ≤ n) :
    decodeLoop n (encodeUtf8 s) = s := by
  induction s generalizing n with
  | nil => cases n <;> rfl
  | cons c s ih =>
    obtain ⟨n, rfl⟩ : ∃ k, n = k + 1 := ⟨n - 1, by rw [List.length_cons] at hn; omega⟩
    rw [encodeUtf8_cons, decodeLoop_char (h c List.mem_cons_self),
      ih h.tail (Nat.le_of_succ_le_succ hn)]

theorem length_le_encode (s : Str) : s.length ≤ (encodeUtf8 s).length := by
  induction s with
  | nil => exact Nat.le_refl 0
  | cons c s ih =>
    have hc := encodeChar_length c
    rw [encodeUtf8_cons, List.length_append, List.length_cons]
    omega

/-- What was encoded is decoded again. -/
theorem decode_encode {s : Str} (h : IsText s) : decodeUtf8 (encodeUtf8 s) = s :=
  decodeLoop_encode h (length_le_encode s)

theorem encode_injective {a b : Str} (ha : IsText a) (hb : IsText b)
    (h : encodeUtf8 a = encodeUtf8 b) : a = b := by
  rw [← decode_encode ha, h, decode_encode hb]

theorem encodeChar_ne {c : Nat} (h : IsScalar c) : 0 ∉ encodeChar c := by
  obtain ⟨h0, -, hmax⟩ := h
  have hbyte : ∀ {x : Nat}, 0 < x → x < 256 → (0 : UInt8) ≠ UInt8.ofNat x := by
    intro x hx hlt he
    have hn := congrArg UInt8.toNat he
    rw [UInt8.toNat_ofNat', Nat.mod_eq_of_lt hlt] at hn
    exact absurd hn (Nat.ne_of_lt hx)
  unfold encodeChar
  split_ifs
  all_goals simp only [List.mem_cons, List.not_mem_nil, or_false, not_or]
  · exact hbyte (by omega) (by omega)
  · exact ⟨hbyte (by omega) (by omega), hbyte (by omega) (by omega)⟩
  · exact ⟨hbyte (by omega) (by omega), hbyte (by omega) (by omega), hbyte (by omega) (by omega)⟩
  · exact ⟨hbyte (by omega) (by omega), hbyte (by omega) (by omega), hbyte (by omega) (by omega),
      hbyte (by omega) (by omega)⟩

theorem encodeUtf8_ne {s : Str} (h : IsText s) : 0 ∉ encodeUtf8 s := by
  intro hz
  obtain ⟨c, hc, hz⟩ := List.mem_flatMap.mp hz
  exact encodeChar_ne (h c hc) hz

/-! ## Order -/

/-- Strings are ordered by their first difference. -/
theorem compare_digit {x y : Nat} {s t : Bytes} (hy : y < 256)
    (h : x < y ∨ (x = y ∧ compare s t = .lt)) :
    compare (UInt8.ofNat x :: s) (UInt8.ofNat y :: t) = .lt := by
  cases h with
  | inl hlt =>
    have hbyte : UInt8.ofNat x < UInt8.ofNat y := by
      rw [UInt8.lt_iff_toNat_lt, UInt8.toNat_ofNat', UInt8.toNat_ofNat', Nat.mod_eq_of_lt hy,
        Nat.mod_eq_of_lt (by omega)]
      exact hlt
    rw [compare_cons_ne (UInt8.ne_of_lt hbyte)]
    exact if_pos hbyte
  | inr heq =>
    obtain ⟨rfl, hst⟩ := heq
    rw [compare_cons_same, hst]

/-- The smaller code point has the smaller bytes, whatever follows. -/
theorem compare_char {c d : Nat} (h : c < d) (hd : d < 0x110000) (s t : Bytes) :
    compare (encodeChar c ++ s) (encodeChar d ++ t) = .lt := by
  unfold encodeChar
  by_cases hd1 : d < 0x80
  · rw [if_pos hd1, if_pos (by omega)]
    exact compare_digit (by omega) (.inl h)
  rw [if_neg hd1]
  by_cases hd2 : d < 0x800
  · rw [if_pos hd2]
    by_cases hc1 : c < 0x80
    · rw [if_pos hc1]
      exact compare_digit (by omega) (.inl (by omega))
    rw [if_neg hc1, if_pos (by omega)]
    refine compare_digit (by omega) ?_
    by_cases he : c / 64 = d / 64
    · exact .inr ⟨by omega, compare_digit (by omega) (.inl (by omega))⟩
    · exact .inl (by omega)
  rw [if_neg hd2]
  by_cases hd3 : d < 0x10000
  · rw [if_pos hd3]
    by_cases hc1 : c < 0x80
    · rw [if_pos hc1]
      exact compare_digit (by omega) (.inl (by omega))
    rw [if_neg hc1]
    by_cases hc2 : c < 0x800
    · rw [if_pos hc2]
      exact compare_digit (by omega) (.inl (by omega))
    rw [if_neg hc2, if_pos (by omega)]
    refine compare_digit (by omega) ?_
    by_cases he : c / 4096 = d / 4096
    · refine .inr ⟨by omega, compare_digit (by omega) ?_⟩
      by_cases he' : c / 64 % 64 = d / 64 % 64
      · exact .inr ⟨by omega, compare_digit (by omega) (.inl (by omega))⟩
      · exact .inl (by omega)
    · exact .inl (by omega)
  rw [if_neg hd3]
  by_cases hc1 : c < 0x80
  · rw [if_pos hc1]
    exact compare_digit (by omega) (.inl (by omega))
  rw [if_neg hc1]
  by_cases hc2 : c < 0x800
  · rw [if_pos hc2]
    exact compare_digit (by omega) (.inl (by omega))
  rw [if_neg hc2]
  by_cases hc3 : c < 0x10000
  · rw [if_pos hc3]
    exact compare_digit (by omega) (.inl (by omega))
  rw [if_neg hc3]
  refine compare_digit (by omega) ?_
  by_cases he : c / 262144 = d / 262144
  · refine .inr ⟨by omega, compare_digit (by omega) ?_⟩
    by_cases he' : c / 4096 % 64 = d / 4096 % 64
    · refine .inr ⟨by omega, compare_digit (by omega) ?_⟩
      by_cases he'' : c / 64 % 64 = d / 64 % 64
      · exact .inr ⟨by omega, compare_digit (by omega) (.inl (by omega))⟩
      · exact .inl (by omega)
    · exact .inl (by omega)
  · exact .inl (by omega)

theorem compare_append_same (r s t : Bytes) : compare (r ++ s) (r ++ t) = compare s t := by
  induction r with
  | nil => rfl
  | cons b r ih => rw [List.cons_append, List.cons_append, compare_cons_same, ih]

/-- Bytes are in the order of the text. -/
theorem encode_gt_iff {a b : Str} (ha : IsText a) (hb : IsText b) :
    compare (encodeUtf8 a) (encodeUtf8 b) = .gt ↔ b < a := by
  induction a generalizing b with
  | nil =>
    refine iff_of_false ?_ (List.not_lt_nil b)
    cases hc : encodeUtf8 b with
    | nil => exact fun h => by cases h
    | cons x l => exact fun h => by cases h
  | cons c a ih =>
    cases b with
    | nil =>
      refine iff_of_true ?_ (List.nil_lt_cons c a)
      have hlen := encodeChar_length c
      rw [encodeUtf8_cons]
      cases hc : encodeChar c with
      | nil =>
        rw [hc] at hlen
        exact absurd hlen (by decide)
      | cons x l => rfl
    | cons d b =>
      have hmaxc := (ha c List.mem_cons_self).2.2
      have hmaxd := (hb d List.mem_cons_self).2.2
      rw [encodeUtf8_cons, encodeUtf8_cons, List.cons_lt_cons_iff]
      rcases Nat.lt_trichotomy c d with hlt | rfl | hgt
      · rw [compare_char hlt hmaxd]
        exact iff_of_false (by decide) (by omega)
      · rw [compare_append_same, ih ha.tail hb.tail]
        exact ⟨fun h => .inr ⟨rfl, h⟩, fun h => (h.resolve_left (Nat.lt_irrefl c)).2⟩
      · rw [Std.OrientedCmp.gt_iff_lt, compare_char hgt hmaxc]
        exact iff_of_true rfl (.inl hgt)

end Udynlink.Parser
