import Udynlink.Machine.Blit

/-!
# Word patches

A patch replaces a word by a function of the word in place. Patches of disjoint
words do not see each other: each one finds the original word, every other byte
is left alone, and the order makes no difference.
-/

namespace Udynlink.Machine

/-- `none` leaves the word as it is. -/
structure Patch where
  slot : Addr
  value : UInt32 → Option UInt32

namespace Patch

def span (p : Patch) : Span := ⟨p.slot, 4⟩

def apply (p : Patch) (m : Mem) : Mem :=
  match p.value (m.u32 p.slot) with
  | some v => m.set32 p.slot v
  | none => m

theorem apply_notMem {p : Patch} {a : Addr} (h : a ∉ p.span) (m : Mem) : p.apply m a = m a := by
  rw [apply]
  cases p.value (m.u32 p.slot) with
  | some v => exact store_notMem h
  | none => rfl

theorem apply_of_some {p : Patch} {m : Mem} {v : UInt32} (h : p.value (m.u32 p.slot) = some v) :
    p.apply m = m.set32 p.slot v := by
  rw [apply, h]

theorem apply_of_none {p : Patch} {m : Mem} (h : p.value (m.u32 p.slot) = none) :
    p.apply m = m := by
  rw [apply, h]

theorem apply_agree {p : Patch} {s : Span} (h : s.Disjoint p.span) (m : Mem) :
    AgreeOn s m (p.apply m) :=
  fun a ha => (apply_notMem (h a ha) m).symm

theorem apply_word (p : Patch) (m : Mem) :
    (p.apply m).u32 p.slot = (p.value (m.u32 p.slot)).getD (m.u32 p.slot) := by
  rw [apply]
  split
  next v hv => rw [hv, u32_set32_same, Option.getD_some]
  next hv => rw [hv, Option.getD_none]

def applyAll (ps : List Patch) (m : Mem) : Mem := ps.foldl (fun m p => p.apply m) m

theorem applyAll_agree {ps : List Patch} {s : Span} (h : ∀ p ∈ ps, s.Disjoint p.span) (m : Mem) :
    AgreeOn s m (applyAll ps m) := by
  induction ps generalizing m with
  | nil => exact fun _ _ => rfl
  | cons p ps ih =>
    have hp := apply_agree (h p List.mem_cons_self) m
    exact hp.trans (ih (fun q hq => h q (List.mem_cons_of_mem p hq)) (p.apply m))

theorem applyAll_notMem {ps : List Patch} {a : Addr} (h : ∀ p ∈ ps, a ∉ p.span) (m : Mem) :
    applyAll ps m a = m a := by
  induction ps generalizing m with
  | nil => rfl
  | cons p ps ih =>
    have hrest := ih (fun q hq => h q (List.mem_cons_of_mem p hq)) (p.apply m)
    exact hrest.trans (apply_notMem (h p List.mem_cons_self) m)

/-- A walk whose effective patches miss `P` leaves it alone. -/
theorem applyAll_fixed {P : Addr → Prop} {ps : List Patch}
    (hps : ∀ p ∈ ps, (∃ word, p.value word ≠ none) → ∀ a, P a → a ∉ p.span) (m : Mem) {a : Addr}
    (ha : P a) : applyAll ps m a = m a := by
  induction ps generalizing m with
  | nil => rfl
  | cons p ps ih =>
    have hrest := ih (fun q hq => hps q (List.mem_cons_of_mem p hq)) (p.apply m)
    have hone : p.apply m a = m a := by
      by_cases hnone : ∃ word, p.value word ≠ none
      · exact apply_notMem (hps p List.mem_cons_self hnone a ha) m
      · rw [apply_of_none (by_contra fun hne => hnone ⟨_, hne⟩)]
    exact hrest.trans hone

/-- Each patch of a disjoint family finds the word that was there at the start. -/
theorem applyAll_word {ps : List Patch} (hd : ps.Pairwise fun p q => p.span.Disjoint q.span)
    {p : Patch} (hp : p ∈ ps) (m : Mem) :
    (applyAll ps m).u32 p.slot = (p.value (m.u32 p.slot)).getD (m.u32 p.slot) := by
  induction ps generalizing m with
  | nil => exact absurd hp List.not_mem_nil
  | cons q ps ih =>
    obtain ⟨hq, hps⟩ := List.pairwise_cons.mp hd
    rcases List.mem_cons.mp hp with rfl | hp'
    · have hrest := applyAll_agree hq (p.apply m)
      exact hrest.u32.symm.trans (apply_word p m)
    · have hfirst := apply_agree (hq p hp').symm m
      have hrest := ih hps hp' (q.apply m)
      rw [← (show m.u32 p.slot = (q.apply m).u32 p.slot from hfirst.u32)] at hrest
      exact hrest

/-- A byte that no patch of the family overwrites keeps its value. -/
theorem applyAll_unwritten {ps : List Patch} (hd : ps.Pairwise fun p q => p.span.Disjoint q.span)
    {m : Mem} {a : Addr} (h : ∀ p ∈ ps, a ∈ p.span → p.value (m.u32 p.slot) = none) :
    applyAll ps m a = m a := by
  by_cases hmem : ∃ p ∈ ps, a ∈ p.span
  · obtain ⟨p, hp, ha⟩ := hmem
    have hword := applyAll_word hd hp m
    rw [h p hp ha, Option.getD_none] at hword
    obtain ⟨i, hi, rfl⟩ := exists_off ha
    exact bytes_eq_of_u32 hword hi
  · refine applyAll_notMem (fun p hp ha => hmem ⟨p, hp, ha⟩) m

/-- A patch that no other effective one of the walk overlaps. -/
theorem applyAll_lone {f : Nat → Patch} {n k : Nat} (hk : k < n)
    (h : ∀ l, l < n → l ≠ k → (∃ word, (f l).value word ≠ none) →
      (f k).span.Disjoint (f l).span) (m : Mem) :
    (applyAll ((List.range' 0 n).map f) m).u32 (f k).slot =
      ((f k).value (m.u32 (f k).slot)).getD (m.u32 (f k).slot) := by
  have hsplit : List.range' 0 n = List.range' 0 k ++ k :: List.range' (k + 1) (n - (k + 1)) := by
    have h1 : List.range' 0 n = List.range' 0 k ++ List.range' k (n - k) := by
      have happ : List.range' 0 k ++ List.range' (0 + k) (n - k) = List.range' 0 (k + (n - k)) :=
        List.range'_append_1
      rw [Nat.zero_add, Nat.add_sub_cancel' (Nat.le_of_lt hk)] at happ
      exact happ.symm
    rw [h1, show n - k = (n - (k + 1)) + 1 by omega, List.range'_succ]
  have hout : ∀ (i c : Nat), i + c ≤ n → (k < i ∨ i + c ≤ k) → ∀ m' : Mem,
      (applyAll ((List.range' i c).map f) m').u32 (f k).slot = m'.u32 (f k).slot := by
    intro i c hle hside m'
    have hsame : AgreeOn (f k).span m' (applyAll ((List.range' i c).map f) m') := by
      intro a ha
      refine (applyAll_fixed (P := (· ∈ (f k).span)) (fun p hp hne b hb => ?_) m' ha).symm
      obtain ⟨l, hl, rfl⟩ := List.mem_map.mp hp
      have hr := List.mem_range'_1.mp hl
      exact h l (by omega) (by omega) hne b hb
    exact hsame.u32.symm
  rw [hsplit, List.map_append, List.map_cons, applyAll, List.foldl_append, List.foldl_cons]
  have hpre := hout 0 k (by omega) (Or.inr (by omega)) m
  have hpost := hout (k + 1) (n - (k + 1)) (by omega) (Or.inl (by omega))
    ((f k).apply (applyAll ((List.range' 0 k).map f) m))
  rw [apply_word, hpre] at hpost
  exact hpost

end Patch

namespace Did

variable {σ ε : Type} {w w' : World σ ε} {f : Mem → Mem} {ss : List Span} {hs : List ε}
  {p : Addr} {value : UInt32 → Option UInt32}

/-- A store of `v` is the patch whose value on the word there is `v`. -/
theorem patch {v : UInt32} (h : Did w w' f ss hs) (hf : f w.mem = w.mem.set32 p v)
    (hv : value (w.mem.u32 p) = some v) : Did w w' (Patch.apply ⟨p, value⟩) ss hs :=
  ⟨by rw [h.mem, hf, Patch.apply_of_some hv], h.events⟩

theorem no_patch (h : Did w w' id ss hs) (hv : value (w.mem.u32 p) = none) :
    Did w w' (Patch.apply ⟨p, value⟩) ss hs :=
  ⟨by rw [h.mem, Patch.apply_of_none hv]; rfl, h.events⟩

end Did

end Udynlink.Machine
