import Udynlink.Deps.ThunkWrites

/-!
# The layout of the thunk pool

Stubs fill the pool from its bottom in steps of ten bytes, gateways from its top in
steps of eighteen. The part between them is free, and only there an allocation writes.
-/

namespace Udynlink.Deps

open Machine

def ThunkPool.span (p : ThunkPool) : Span := ⟨p.base, p.size.toNat⟩

namespace ThunkPool

variable {p : ThunkPool}

/-- Stubs below, gateways above, in an object of the language. -/
structure Laid (p : ThunkPool) : Prop where
  order : p.used.toNat ≤ p.gatewayTop.toNat
  top : p.gatewayTop.toNat ≤ p.size.toNat
  stubSteps : p.used.toNat % 10 = 0
  gatewaySteps : (p.size.toNat - p.gatewayTop.toNat) % 18 = 0
  object : p.size.toNat < 2 ^ 31

/-- Stub number `k`. -/
def stubCell (p : ThunkPool) (k : Nat) : Addr := p.base + UInt32.ofNat (10 * k)

/-- Gateway number `k`, from the last one on. -/
def gatewayCell (p : ThunkPool) (k : Nat) : Addr :=
  p.base + UInt32.ofNat (p.gatewayTop.toNat + 18 * k)

theorem Laid.gateway_room (h : p.Laid) (hroom : ¬ p.gatewayTop < p.used + gatewaySize) :
    p.used.toNat + 18 ≤ p.gatewayTop.toNat ∧
      (p.gatewayTop - gatewaySize).toNat = p.gatewayTop.toNat - 18 := by
  have ht := h.top
  have ho := h.order
  have hs := h.object
  have hg : gatewaySize.toNat = 18 := rfl
  have hle : p.used.toNat + 18 ≤ p.gatewayTop.toNat := by
    rw [UInt32.lt_iff_toNat_lt, UInt32.toNat_add, hg] at hroom
    omega
  exact ⟨hle, UInt32.toNat_sub_of_le _ _ (UInt32.le_iff_toNat_le.mpr (by omega))⟩

theorem Laid.stub_room (h : p.Laid) (hroom : ¬ p.used + stubSize > p.gatewayTop) :
    p.used.toNat + 10 ≤ p.gatewayTop.toNat ∧ (p.used + stubSize).toNat = p.used.toNat + 10 := by
  have ht := h.top
  have ho := h.order
  have hs := h.object
  have hadd : (p.used + stubSize).toNat = p.used.toNat + 10 := by
    rw [UInt32.toNat_add, show stubSize.toNat = 10 from rfl, Nat.mod_eq_of_lt (by omega)]
  rw [gt_iff_lt, UInt32.lt_iff_toNat_lt, hadd] at hroom
  exact ⟨by omega, hadd⟩

/-- `s` lies in the part of the pool that is handed out. -/
structure Taken (p : ThunkPool) (s : Span) (o : Nat) : Prop where
  base : s.base = p.base + UInt32.ofNat o
  used : o + s.len ≤ p.used.toNat ∨ p.gatewayTop.toNat ≤ o
  inside : o + s.len ≤ p.size.toNat

theorem Laid.stub_taken (h : p.Laid) {k : Nat} (hk : 10 * k < p.used.toNat) :
    p.Taken ⟨p.stubCell k, 10⟩ (10 * k) := by
  have ho := h.order
  have ht := h.top
  have hs := h.stubSteps
  exact ⟨rfl, Or.inl (by dsimp only; omega), by dsimp only; omega⟩

theorem Laid.gateway_taken (h : p.Laid) {k : Nat}
    (hk : p.gatewayTop.toNat + 18 * k < p.size.toNat) :
    p.Taken ⟨p.gatewayCell k, 18⟩ (p.gatewayTop.toNat + 18 * k) := by
  have hs := h.gatewaySteps
  exact ⟨rfl, Or.inr (Nat.le_add_right _ _), by dsimp only; omega⟩

theorem Taken.subset {s : Span} {o : Nat} (ht : p.Taken s o) : s ⊆ p.span := by
  have hl := p.size.toNat_lt
  have hsub := off_subset (b := p.base) ht.inside (Nat.le_of_lt hl)
  rwa [← ht.base] at hsub

/-- The free part is apart from what is taken. -/
theorem Taken.apart {s : Span} {o n k : Nat} (ht : p.Taken s o) (hlo : p.used.toNat ≤ k)
    (hhi : k + n ≤ p.gatewayTop.toNat) : s.Disjoint ⟨p.base + UInt32.ofNat k, n⟩ := by
  have hl := p.size.toNat_lt
  have hl' := p.gatewayTop.toNat_lt
  have hin := ht.inside
  have hs : s = ⟨p.base + UInt32.ofNat o, s.len⟩ := by rw [← ht.base]
  rw [hs]
  rcases ht.used with hu | hu
  · exact off_disjoint (by omega) (by omega)
  · exact (off_disjoint (by omega) (by omega)).symm

/-! ## Searching -/

theorem sub_stub {pos : UInt32} (hpos : pos.toNat % 10 = 0) (hlt : ¬ pos < stubSize) :
    (pos - stubSize).toNat = pos.toNat - 10 ∧ 10 ≤ pos.toNat ∧
      pos - stubSize = UInt32.ofNat (10 * (pos.toNat / 10 - 1)) := by
  have hle : 10 ≤ pos.toNat := Nat.not_lt.mp fun hc => hlt (UInt32.lt_iff_toNat_lt.mpr hc)
  have hsub : (pos - stubSize).toNat = pos.toNat - 10 :=
    UInt32.toNat_sub_of_le _ _ (UInt32.le_iff_toNat_le.mpr hle)
  refine ⟨hsub, hle, ?_⟩
  rw [show 10 * (pos.toNat / 10 - 1) = (pos - stubSize).toNat by omega, UInt32.ofNat_toNat]

/-- The scan ends at 0 or at a stub for the function. -/
theorem stubScan_cases (m : Mem) (base : Addr) (f : UInt32) : ∀ (n : Nat) (pos : UInt32),
    pos.toNat % 10 = 0 → stubScan m base f n pos = 0 ∨
      ∃ k, 10 * k < pos.toNat ∧ stubTarget m (base + UInt32.ofNat (10 * k)) = some f ∧
        stubScan m base f n pos = (base + UInt32.ofNat (10 * k)) ||| 1
  | 0, _, _ => Or.inl rfl
  | n + 1, pos, hpos => by
    unfold stubScan
    by_cases hlt : pos < stubSize
    · exact Or.inl (if_pos hlt)
    · rw [if_neg hlt]
      obtain ⟨hsub, hle, hoff⟩ := sub_stub hpos hlt
      split
      · rename_i hst
        rw [hoff] at hst ⊢
        exact Or.inr ⟨_, by omega, hst, rfl⟩
      · rcases stubScan_cases m base f n (pos - stubSize) (by omega) with h0 | ⟨k, hk, hs⟩
        · exact Or.inl h0
        · exact Or.inr ⟨k, by omega, hs⟩

/-- A stub for the function does not escape the scan. -/
theorem stubScan_ne_zero {m : Mem} {base : Addr} {f : UInt32} {k : Nat}
    (hk : stubTarget m (base + UInt32.ofNat (10 * k)) = some f) : ∀ (n : Nat) (pos : UInt32),
    pos.toNat % 10 = 0 → pos.toNat ≤ 10 * n → 10 * k < pos.toNat → stubScan m base f n pos ≠ 0
  | 0, _, _, hn, hlt => absurd hlt (by omega)
  | n + 1, pos, hpos, hn, hlt => by
    unfold stubScan
    by_cases hs : pos < stubSize
    · have h10 : pos.toNat < 10 := UInt32.lt_iff_toNat_lt.mp hs
      omega
    · rw [if_neg hs]
      obtain ⟨hsub, hle, hoff⟩ := sub_stub hpos hs
      split
      · exact or_one_ne_zero _
      · rename_i hst
        refine stubScan_ne_zero hk n (pos - stubSize) (by omega) (by omega) ?_
        by_contra hlast
        have he : k = pos.toNat / 10 - 1 := by omega
        rw [hoff, ← he] at hst
        exact hst hk

theorem gateway_step {off : UInt32} (hs : p.size.toNat < 2 ^ 31) (hle : off.toNat ≤ p.size.toNat) :
    (off + gatewaySize).toNat = off.toNat + 18 := by
  rw [UInt32.toNat_add, show gatewaySize.toNat = 18 from rfl, Nat.mod_eq_of_lt (by omega)]

/-- The scan ends at 0 or at a cell with the RAM base. -/
theorem gatewayScan_cases (m : Mem) (r : UInt32) (hs : p.size.toNat < 2 ^ 31) :
    ∀ (n : Nat) (off : UInt32) (j : Nat),
    off.toNat = p.gatewayTop.toNat + 18 * j → off.toNat ≤ p.size.toNat →
      gatewayScan m p r n off = 0 ∨
        ∃ k, p.gatewayTop.toNat + 18 * k < p.size.toNat ∧
          gatewayRamBase m (p.gatewayCell k) = r ∧ gatewayScan m p r n off = p.gatewayCell k
  | 0, _, _, _, _ => Or.inl rfl
  | n + 1, off, j, hoff, hle => by
    unfold gatewayScan
    have hadd := gateway_step hs hle
    by_cases hb : off + gatewaySize ≤ p.size
    · rw [if_neg (not_not.mpr hb)]
      have hb' := UInt32.le_iff_toNat_le.mp hb
      have ho : p.base + off = p.gatewayCell j := by
        rw [gatewayCell, ← hoff, UInt32.ofNat_toNat]
      split
      · rename_i hr
        rw [ho] at hr ⊢
        exact Or.inr ⟨j, by omega, hr, rfl⟩
      · exact gatewayScan_cases m r hs n (off + gatewaySize) (j + 1) (by omega) (by omega)
    · exact Or.inl (if_pos hb)

/-- A gateway with the RAM base does not escape the scan. -/
theorem gatewayScan_ne_zero {m : Mem} {r : UInt32} (h : p.Laid) (hb : p.base ≠ 0)
    (hfits : p.base.toNat + p.size.toNat ≤ 2 ^ 32) {k : Nat}
    (hk : p.gatewayTop.toNat + 18 * k < p.size.toNat)
    (hr : gatewayRamBase m (p.gatewayCell k) = r) : ∀ (n : Nat) (off : UInt32) (j : Nat),
    off.toNat = p.gatewayTop.toNat + 18 * j → j ≤ k → k < n + j → gatewayScan m p r n off ≠ 0
  | 0, _, _, _, hj, hn => absurd hn (by omega)
  | n + 1, off, j, hoff, hj, hn => by
    have hs := h.gatewaySteps
    have ht := h.top
    have hadd := @gateway_step p off h.object (by omega)
    unfold gatewayScan
    rw [if_neg (not_not.mpr (UInt32.le_iff_toNat_le.mpr (by omega)))]
    split
    · intro h0
      have hz := congrArg UInt32.toNat h0
      have hpos : p.base.toNat ≠ 0 := fun hc => hb (UInt32.toNat_inj.mp hc)
      have hlt := p.base.toNat_lt
      rw [UInt32.toNat_add, UInt32.toNat_zero, Nat.mod_eq_of_lt (by omega)] at hz
      omega
    · rename_i hne
      refine gatewayScan_ne_zero h hb hfits hk hr n (off + gatewaySize) (j + 1) (by omega) ?_ (by omega)
      by_contra hlast
      obtain rfl : j = k := by omega
      rw [gatewayCell, ← hoff, UInt32.ofNat_toNat] at hr
      exact hne hr

/-! ## Setting up -/

theorem clear_low_bits (x : UInt32) : (x &&& ~~~3).toNat ≤ x.toNat ∧ (x &&& ~~~3).toNat % 4 = 0 := by
  rw [UInt32.toNat_and]
  refine ⟨Nat.and_le_left, ?_⟩
  rw [show 4 = 2 ^ 2 from rfl, Nat.and_mod_two_pow, show (~~~3 : UInt32).toNat % 2 ^ 2 = 0 by decide,
    Nat.and_zero]

/-- A pool lies word-aligned in its buffer. -/
structure InBuffer (p : ThunkPool) (buf : Addr) (sz : UInt32) : Prop where
  aligned : p.base.toNat % 4 = 0
  sizeAligned : p.size.toNat % 4 = 0
  start : buf.toNat ≤ p.base.toNat
  stop : p.base.toNat + p.size.toNat ≤ buf.toNat + sz.toNat

theorem init_inBuffer {buf : Addr} {sz : UInt32} (hf : buf.toNat + sz.toNat ≤ 2 ^ 32)
    (h0 : 0 < (ThunkPool.init buf sz).size.toNat) : (ThunkPool.init buf sz).InBuffer buf sz := by
  have hmis : (buf &&& 3).toNat = buf.toNat % 4 := by
    rw [UInt32.toNat_and]
    exact Nat.and_two_pow_sub_one_eq_mod buf.toNat 2
  have hl := buf.toNat_lt
  unfold ThunkPool.init at h0 ⊢
  dsimp only at h0 ⊢
  by_cases h : buf &&& 3 = 0
  · simp only [if_pos h] at h0 ⊢
    have hm := congrArg UInt32.toNat h
    rw [hmis, UInt32.toNat_zero] at hm
    obtain ⟨hle, h4⟩ := clear_low_bits sz
    exact ⟨hm, h4, Nat.le_refl _, by dsimp only; omega⟩
  · simp only [if_neg h] at h0 ⊢
    have hm : buf.toNat % 4 ≠ 0 := fun hc => h (UInt32.toNat_inj.mp (hmis.trans hc))
    have hskip : (4 - (buf &&& 3)).toNat = 4 - buf.toNat % 4 := by
      rw [UInt32.toNat_sub_of_le, hmis]
      · rfl
      · rw [UInt32.le_iff_toNat_le, hmis]
        exact Nat.le_of_lt (Nat.mod_lt _ (by decide))
    by_cases hs : 4 - (buf &&& 3) ≥ sz
    · rw [if_pos hs] at h0
      exact absurd h0 (by decide)
    · simp only [if_neg hs] at h0 ⊢
      have hlt : 4 - buf.toNat % 4 < sz.toNat := by
        rw [← hskip]
        exact Nat.not_le.mp fun hc => hs (UInt32.le_iff_toNat_le.mpr hc)
      have hadd : (buf + (4 - (buf &&& 3))).toNat = buf.toNat + (4 - buf.toNat % 4) := by
        rw [UInt32.toNat_add, hskip, Nat.mod_eq_of_lt (by omega)]
      have hsub : (sz - (4 - (buf &&& 3))).toNat = sz.toNat - (4 - buf.toNat % 4) := by
        rw [UInt32.toNat_sub_of_le _ _ (UInt32.le_iff_toNat_le.mpr (by omega)), hskip]
      obtain ⟨hle, h4⟩ := clear_low_bits (sz - (4 - (buf &&& 3)))
      exact ⟨by dsimp only; omega, h4, by dsimp only; omega, by dsimp only; omega⟩

/-- A pool is no larger than its buffer. -/
theorem init_size_le (buf : Addr) (sz : UInt32) :
    (ThunkPool.init buf sz).size.toNat ≤ sz.toNat := by
  unfold ThunkPool.init
  dsimp only
  have hle : ∀ x : UInt32, x.toNat ≤ sz.toNat → (x &&& ~~~3).toNat ≤ sz.toNat := fun x hx =>
    Nat.le_trans (clear_low_bits x).1 hx
  apply hle
  split
  · exact Nat.le_refl _
  · split
    · exact Nat.zero_le _
    · rename_i hs
      have hlt := Nat.not_le.mp fun hc => hs (UInt32.le_iff_toNat_le.mpr hc)
      rw [UInt32.toNat_sub_of_le _ _ (UInt32.le_iff_toNat_le.mpr (Nat.le_of_lt hlt))]
      exact Nat.sub_le _ _

theorem init_laid {buf : Addr} {sz : UInt32} (hs : sz.toNat < 2 ^ 31) :
    (ThunkPool.init buf sz).Laid where
  order := Nat.zero_le _
  top := Nat.le_refl _
  stubSteps := rfl
  gatewaySteps := by
    show ((ThunkPool.init buf sz).size.toNat - (ThunkPool.init buf sz).size.toNat) % 18 = 0
    rw [Nat.sub_self]
  object := Nat.lt_of_le_of_lt (init_size_le buf sz) hs

end ThunkPool

end Udynlink.Deps
