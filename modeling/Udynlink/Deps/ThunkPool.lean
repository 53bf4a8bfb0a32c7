import Udynlink.Deps.PoolLayout

/-!
# The thunk pool

Every cell of the stub region is a stub for a function that was asked for, every cell of
the gateway region a gateway. Allocating keeps this and touches no byte outside the pool.
-/

namespace Udynlink.Deps

open Machine

/-- Where a pool lies. Beyond the bound the branch of a stub can wrap. -/
structure PoolPlace (p : ThunkPool) : Prop where
  base_pos : 0 < p.base.toNat
  even : Even p.base
  fits : p.base.toNat + p.size.toNat ≤ 2 ^ 32
  size_even : p.size.toNat % 2 = 0
  small : p.size.toNat ≤ 129052

namespace Thunks

variable {t t' : Thunks} {served : List (UInt32 × UInt32)} {f r : UInt32} {g : Addr}

/-- `g` is a gateway of the pool for the RAM base `r`. -/
def HasGateway (t : Thunks) (g : Addr) (r : UInt32) : Prop :=
  ∃ k, t.pool.gatewayTop.toNat + 18 * k < t.pool.size.toNat ∧
    g = t.pool.base + UInt32.ofNat (t.pool.gatewayTop.toNat + 18 * k) ∧ GatewayAt t.mem g r

/-- Stub number `k` calls `f` with the RAM base `r`. -/
def HasStub (t : Thunks) (k : Nat) (f r : UInt32) : Prop :=
  ∃ g, StubAt t.mem (t.pool.base + UInt32.ofNat (10 * k)) f g ∧ t.HasGateway g r

/-- `e` is the entry of a stub. -/
def StubEntry (t : Thunks) (e f r : UInt32) : Prop :=
  ∃ k, 10 * k < t.pool.used.toNat ∧ e = (t.pool.base + UInt32.ofNat (10 * k)) ||| 1 ∧
    t.HasStub k f r

/-- The pool, after stubs for `served` were written. -/
structure Serves (t : Thunks) (served : List (UInt32 × UInt32)) : Prop where
  place : 0 < t.pool.size.toNat → PoolPlace t.pool
  order : t.pool.used.toNat ≤ t.pool.gatewayTop.toNat
  top : t.pool.gatewayTop.toNat ≤ t.pool.size.toNat
  stubSteps : t.pool.used.toNat % 10 = 0
  gatewaySteps : (t.pool.size.toNat - t.pool.gatewayTop.toNat) % 18 = 0
  stubs : ∀ k, 10 * k < t.pool.used.toNat → ∃ f r, (f, r) ∈ served ∧ t.HasStub k f r
  gateways : ∀ k, t.pool.gatewayTop.toNat + 18 * k < t.pool.size.toNat →
    ∃ r, GatewayAt t.mem (t.pool.base + UInt32.ofNat (t.pool.gatewayTop.toNat + 18 * k)) r

/-- `t'` is `t` after some allocations. -/
structure Extends (t t' : Thunks) : Prop where
  base : t'.pool.base = t.pool.base
  size : t'.pool.size = t.pool.size
  gateways : ∀ g r, t.HasGateway g r → t'.HasGateway g r
  stubs : ∀ e f r, t.StubEntry e f r → t'.StubEntry e f r
  outside : ∀ s : Span, s.Disjoint t.pool.span → AgreeOn s t.mem t'.mem

theorem Extends.refl (t : Thunks) : t.Extends t :=
  ⟨rfl, rfl, fun _ _ h => h, fun _ _ _ h => h, fun _ _ _ _ => rfl⟩

theorem Extends.span (h : t.Extends t') : t'.pool.span = t.pool.span := by
  unfold ThunkPool.span
  rw [h.base, h.size]

theorem Extends.trans {t'' : Thunks} (h : t.Extends t') (h' : t'.Extends t'') : t.Extends t'' where
  base := h'.base.trans h.base
  size := h'.size.trans h.size
  gateways g r hg := h'.gateways g r (h.gateways g r hg)
  stubs e f r hs := h'.stubs e f r (h.stubs e f r hs)
  outside s hs := (h.outside s hs).trans (h'.outside s (by rwa [h.span]))

/-- Nothing was handed out, or a stub that calls `f` with the RAM base `r`. -/
def Handed (t : Thunks) (served : List (UInt32 × UInt32)) (f r : UInt32)
    (res : UInt32 × Thunks) : Prop :=
  t.Extends res.2 ∧
    (res.1 = 0 ∧ res.2.Serves served ∨
      res.1 ≠ 0 ∧ res.2.Serves ((f, r) :: served) ∧ res.2.StubEntry res.1 f r)

/-! ## Cells -/

theorem even_off {b : Addr} {n : Nat} (hb : Even b) (hn : n % 2 = 0) :
    Even (b + UInt32.ofNat n) := by
  unfold Even at *
  rw [UInt32.toNat_add, UInt32.toNat_ofNat']
  omega

theorem Serves.gateway_even (h : t.Serves served) (hg : t.HasGateway g r) : Even g := by
  obtain ⟨k, hk, rfl, -⟩ := hg
  have hp := h.place (by omega)
  have ht := h.top
  have hs := h.gatewaySteps
  have he := hp.size_even
  exact even_off hp.even (by omega)

theorem Serves.stub_even (h : t.Serves served) {k : Nat} (hk : 10 * k < t.pool.used.toNat) :
    Even (t.pool.base + UInt32.ofNat (10 * k)) := by
  have ht := h.top
  have ho := h.order
  exact even_off (h.place (by omega)).even (by omega)

/-- A stub calls its function. -/
theorem Serves.callsWith (h : t.Serves served) {e : UInt32} (hs : t.StubEntry e f r) :
    CallsWith t.mem e f r := by
  obtain ⟨k, hk, rfl, g, hst, hg⟩ := hs
  have hge := h.gateway_even hg
  obtain ⟨-, -, -, hga⟩ := hg
  exact hst.callsWith hga (h.stub_even hk) hge

theorem Serves.laid (h : t.Serves served) : t.pool.Laid where
  order := h.order
  top := h.top
  stubSteps := h.stubSteps
  gatewaySteps := h.gatewaySteps
  object := by
    by_cases h0 : 0 < t.pool.size.toNat
    · have hs := (h.place h0).small
      omega
    · omega

theorem gateway_subset (h : t.Serves served) {k : Nat}
    (hk : t.pool.gatewayTop.toNat + 18 * k < t.pool.size.toNat) :
    (⟨t.pool.base + UInt32.ofNat (t.pool.gatewayTop.toNat + 18 * k), 18⟩ : Span) ⊆ t.pool.span :=
  (h.laid.gateway_taken hk).subset

theorem stub_subset (h : t.Serves served) {k : Nat} (hk : 10 * k < t.pool.used.toNat) :
    (⟨t.pool.base + UInt32.ofNat (10 * k), 10⟩ : Span) ⊆ t.pool.span :=
  (h.laid.stub_taken hk).subset

/-- A change of the memory that leaves the pool alone. -/
theorem HasGateway.congr (h : t.Serves served) (hg : t.HasGateway g r) {m : Mem}
    (hm : AgreeOn t.pool.span t.mem m) : HasGateway ⟨m, t.pool⟩ g r := by
  obtain ⟨k, hk, rfl, hga⟩ := hg
  exact ⟨k, hk, rfl, hga.congr (hm.mono (gateway_subset h hk))⟩

theorem Serves.congr (h : t.Serves served) {m : Mem} (hm : AgreeOn t.pool.span t.mem m) :
    Serves ⟨m, t.pool⟩ served where
  place := h.place
  order := h.order
  top := h.top
  stubSteps := h.stubSteps
  gatewaySteps := h.gatewaySteps
  stubs k hk := by
    obtain ⟨f, r, hfr, g, hs, hg⟩ := h.stubs k hk
    exact ⟨f, r, hfr, g, hs.congr (hm.mono (stub_subset h hk)), hg.congr h hm⟩
  gateways k hk := by
    obtain ⟨r, hr⟩ := h.gateways k hk
    exact ⟨r, hr.congr (hm.mono (gateway_subset h hk))⟩

theorem StubEntry.congr (h : t.Serves served) {e : UInt32} (hs : t.StubEntry e f r) {m : Mem}
    (hm : AgreeOn t.pool.span t.mem m) : StubEntry ⟨m, t.pool⟩ e f r := by
  obtain ⟨k, hk, rfl, g, hst, hg⟩ := hs
  exact ⟨k, hk, rfl, g, hst.congr (hm.mono (stub_subset h hk)), hg.congr h hm⟩

/-! ## Searching -/

/-- What `find_stub` finds is a stub for the function, with a RAM base it was asked for
with. -/
theorem Serves.findStub (h : t.Serves served) (hne : findStub t.mem t.pool f ≠ 0) :
    ∃ r, (f, r) ∈ served ∧ t.StubEntry (Deps.findStub t.mem t.pool f) f r := by
  rcases ThunkPool.stubScan_cases t.mem t.pool.base f (t.pool.used.toNat / 10) t.pool.used h.stubSteps with
    h0 | ⟨k, hk, hst, he⟩
  · exact absurd h0 hne
  · obtain ⟨f', r, hmem, hs⟩ := h.stubs k hk
    have hff : f' = f := by
      obtain ⟨g, hsa, -⟩ := hs
      exact Option.some.inj (hsa.head.target.symm.trans hst)
    subst hff
    exact ⟨r, hmem, k, hk, he, hs⟩

theorem Serves.findGateway (h : t.Serves served)
    (hne : thunkFindGateway t.mem t.pool r ≠ 0) :
    t.HasGateway (thunkFindGateway t.mem t.pool r) r := by
  unfold thunkFindGateway at hne ⊢
  rcases ThunkPool.gatewayScan_cases t.mem r h.laid.object (t.pool.size.toNat / 18 + 1)
    t.pool.gatewayTop 0 (by omega) h.top with h0 | ⟨k, hk, hr, he⟩
  · exact absurd h0 hne
  · obtain ⟨r', hg⟩ := h.gateways k hk
    have hrr : r' = r := hg.ramBase.symm.trans hr
    subst hrr
    rw [he]
    exact ⟨k, hk, rfl, hg⟩

/-! ## Allocating -/

theorem HasStub.mono {n : Nat} (hk : t.HasStub n f r) (hb : t'.pool.base = t.pool.base)
    (hg : ∀ g r, t.HasGateway g r → t'.HasGateway g r)
    (hm : AgreeOn ⟨t.pool.base + UInt32.ofNat (10 * n), 10⟩ t.mem t'.mem) : t'.HasStub n f r := by
  obtain ⟨g, hs, hgw⟩ := hk
  refine ⟨g, ?_, hg g r hgw⟩
  rw [hb]
  exact hs.congr hm

section

variable (h : t.Serves served)
include h

/-- A new gateway leaves the stubs alone. -/
theorem Serves.stub_apart_gateway (hroom : ¬ t.pool.gatewayTop < t.pool.used + gatewaySize)
    {k : Nat} (hk : 10 * k < t.pool.used.toNat) :
    Span.Disjoint ⟨t.pool.base + UInt32.ofNat (10 * k), 10⟩
      ⟨t.pool.base + (t.pool.gatewayTop - gatewaySize), 18⟩ := by
  obtain ⟨hle, htop⟩ := h.laid.gateway_room hroom
  have hss := h.stubSteps
  have hl := t.pool.gatewayTop.toNat_lt
  have hd := @off_disjoint t.pool.base (10 * k) 10 (t.pool.gatewayTop.toNat - 18) 18 (by omega)
    (by omega)
  rwa [← htop, UInt32.ofNat_toNat] at hd

theorem Serves.allocGateway_extends : t.Extends (t.allocGateway r).2 := by
  unfold allocGateway
  by_cases hroom : t.pool.gatewayTop < t.pool.used + gatewaySize
  · rw [if_pos hroom]
    exact .refl t
  · rw [if_neg hroom]
    obtain ⟨hle, htop⟩ := h.laid.gateway_room hroom
    have ht := h.top
    have hl := t.pool.size.toNat_lt
    have hgw : ∀ g r', t.HasGateway g r' → HasGateway ⟨writeGateway t.mem
        (t.pool.base + (t.pool.gatewayTop - gatewaySize)) r,
        { t.pool with gatewayTop := t.pool.gatewayTop - gatewaySize }⟩ g r' := by
      rintro g r' ⟨k, hk, rfl, hg⟩
      have hsteps := h.gatewaySteps
      refine ⟨k + 1, ?_, ?_, hg.congr (writeGateway_agree ?_)⟩
      · dsimp only
        omega
      · dsimp only
        rw [htop, show t.pool.gatewayTop.toNat - 18 + 18 * (k + 1) =
          t.pool.gatewayTop.toNat + 18 * k by omega]
      · have hd := @off_disjoint t.pool.base (t.pool.gatewayTop.toNat - 18) 18
          (t.pool.gatewayTop.toNat + 18 * k) 18 (by omega) (by omega)
        rw [← htop, UInt32.ofNat_toNat] at hd
        exact hd.symm
    refine ⟨rfl, rfl, hgw, ?_, fun s hs => writeGateway_agree (hs.mono (Span.subset_refl _) ?_)⟩
    · rintro e f r' ⟨k, hk, rfl, hs⟩
      have hapart := h.stub_apart_gateway hroom hk
      exact ⟨k, hk, rfl, hs.mono rfl hgw (writeGateway_agree hapart)⟩
    · exact sub_span (by dsimp only; omega) (by omega)

theorem Serves.allocGateway : (t.allocGateway r).2.Serves served := by
  have he := h.allocGateway_extends (r := r)
  unfold Thunks.allocGateway at he ⊢
  by_cases hroom : t.pool.gatewayTop < t.pool.used + gatewaySize
  · rw [if_pos hroom]
    exact h
  · rw [if_neg hroom] at he ⊢
    obtain ⟨hle, htop⟩ := h.laid.gateway_room hroom
    have ht := h.top
    have hl := t.pool.size.toNat_lt
    have hss := h.stubSteps
    have hgs := h.gatewaySteps
    refine ⟨fun h0 => ?_, ?_, ?_, hss, ?_, fun k hk => ?_, fun k hk => ?_⟩
    · obtain ⟨h1, h2, h3, h4, h5⟩ := h.place h0
      exact ⟨h1, h2, h3, h4, h5⟩
    · dsimp only
      omega
    · dsimp only
      omega
    · dsimp only
      omega
    · obtain ⟨f, r', hfr, hs⟩ := h.stubs k hk
      have hapart := h.stub_apart_gateway hroom hk
      exact ⟨f, r', hfr, hs.mono rfl he.gateways (writeGateway_agree hapart)⟩
    · dsimp only at hk ⊢
      cases k with
      | zero =>
        refine ⟨r, ?_⟩
        rw [Nat.mul_zero, Nat.add_zero, UInt32.ofNat_toNat]
        exact writeGateway_at
      | succ k =>
        obtain ⟨r', hr⟩ := h.gateways k (by omega)
        obtain ⟨-, -, -, hg⟩ := he.gateways _ r' ⟨k, by omega, rfl, hr⟩
        refine ⟨r', ?_⟩
        rwa [htop, show t.pool.gatewayTop.toNat - 18 + 18 * (k + 1) =
          t.pool.gatewayTop.toNat + 18 * k by omega]

/-- A new gateway is one for the RAM base. -/
theorem Serves.allocGateway_gateway (hne : (t.allocGateway r).1 ≠ 0) :
    (t.allocGateway r).2.HasGateway (t.allocGateway r).1 r := by
  unfold Thunks.allocGateway at hne ⊢
  by_cases hroom : t.pool.gatewayTop < t.pool.used + gatewaySize
  · rw [if_pos hroom] at hne
    exact absurd rfl hne
  · rw [if_neg hroom]
    obtain ⟨hle, htop⟩ := h.laid.gateway_room hroom
    have ht := h.top
    refine ⟨0, ?_, ?_, writeGateway_at⟩
    · dsimp only
      omega
    · rw [Nat.mul_zero, Nat.add_zero, UInt32.ofNat_toNat]

/-- The cell a stub is written to is free. -/
theorem Serves.writeStub_keeps (gateway : Addr)
    (hle : t.pool.used.toNat + 10 ≤ t.pool.gatewayTop.toNat) :
    (∀ g r, t.HasGateway g r →
      HasGateway ⟨(writeStub t.mem (t.pool.base + t.pool.used) f gateway).2, t.pool⟩ g r) ∧
    (∀ k, 10 * k < t.pool.used.toNat → AgreeOn ⟨t.pool.base + UInt32.ofNat (10 * k), 10⟩ t.mem
      (writeStub t.mem (t.pool.base + t.pool.used) f gateway).2) := by
  have ht := h.top
  have hl := t.pool.size.toNat_lt
  have hss := h.stubSteps
  have hgs := h.gatewaySteps
  constructor
  · rintro g r ⟨k, hk, rfl, hg⟩
    refine ⟨k, hk, rfl, hg.congr (writeStub_agree ?_)⟩
    have hd := @off_disjoint t.pool.base (t.pool.used.toNat) 10
          (t.pool.gatewayTop.toNat + 18 * k) 18 (by omega) (by omega)
    rw [UInt32.ofNat_toNat] at hd
    exact hd.symm
  · intro k hk
    apply writeStub_agree
    have hd := @off_disjoint t.pool.base (10 * k) 10
          (t.pool.used.toNat) 10 (by omega) (by omega)
    rwa [UInt32.ofNat_toNat] at hd

/-- A gateway lies no more than the pool behind a free cell. -/
theorem Serves.gateway_distance (hle : t.pool.used.toNat + 10 ≤ t.pool.gatewayTop.toNat)
    (hg : t.HasGateway g r) :
    (g - (t.pool.base + t.pool.used + 12)).toNat % 2 = 0 ∧
      ((g - (t.pool.base + t.pool.used + 12)).toNat ≤ 129022 ∨
        2 ^ 32 - 2 ≤ (g - (t.pool.base + t.pool.used + 12)).toNat) := by
  obtain ⟨k, hk, rfl, -⟩ := hg
  have hp := h.place (by omega)
  have hsmall := hp.small
  have hse := hp.size_even
  have ht := h.top
  have hss := h.stubSteps
  have hgs := h.gatewaySteps
  have hd : t.pool.base + UInt32.ofNat (t.pool.gatewayTop.toNat + 18 * k) -
      (t.pool.base + t.pool.used + 12) =
      UInt32.ofNat (t.pool.gatewayTop.toNat + 18 * k) - (t.pool.used + 12) := by grind
  have hu : (t.pool.used + 12).toNat = t.pool.used.toNat + 12 := by
    rw [UInt32.toNat_add, show (12 : UInt32).toNat = 12 from rfl, Nat.mod_eq_of_lt (by omega)]
  rw [hd, UInt32.toNat_sub, hu, UInt32.toNat_ofNat',
    Nat.mod_eq_of_lt (show t.pool.gatewayTop.toNat + 18 * k < 2 ^ 32 by omega)]
  have hge : t.pool.used.toNat + 10 ≤ t.pool.gatewayTop.toNat + 18 * k := by omega
  have heven : (t.pool.gatewayTop.toNat + 18 * k) % 2 = 0 := by omega
  have hmax : t.pool.gatewayTop.toNat + 18 * k + 18 ≤ 129052 := by omega
  have hue : t.pool.used.toNat % 2 = 0 := by omega
  generalize t.pool.gatewayTop.toNat + 18 * k = x at hge heven hmax
  generalize t.pool.used.toNat = u at hge hue
  by_cases hx : u + 12 ≤ x
  · have hv : (2 ^ 32 - (u + 12) + x) % 2 ^ 32 = x - (u + 12) := by omega
    omega
  · have hv : (2 ^ 32 - (u + 12) + x) % 2 ^ 32 = 2 ^ 32 - 2 := by omega
    omega

/-- An allocated stub calls the function with the RAM base of the gateway. -/
theorem Serves.allocStub (hg : t.HasGateway g r) :
    Handed t served f r (t.allocStub f g) := by
  unfold Thunks.allocStub
  by_cases hroom : t.pool.used + stubSize > t.pool.gatewayTop
  · rw [if_pos hroom]
    exact ⟨.refl t, Or.inl ⟨rfl, h⟩⟩
  · rw [if_neg hroom]
    obtain ⟨hle, hadd⟩ := h.laid.stub_room hroom
    have ht := h.top
    have hl := t.pool.size.toNat_lt
    have hp := h.place (by omega)
    have hs0 : t.pool.base + t.pool.used ≠ 0 := by
      intro h0
      have hn := congrArg UInt32.toNat h0
      have hb := hp.base_pos
      have hf := hp.fits
      rw [UInt32.toNat_add, Nat.mod_eq_of_lt (by omega)] at hn
      exact absurd hn (by rw [UInt32.toNat_zero]; omega)
    obtain ⟨hgw, hst⟩ := h.writeStub_keeps (f := f) g hle
    have hout : ∀ s : Span, s.Disjoint t.pool.span →
        AgreeOn s t.mem (writeStub t.mem (t.pool.base + t.pool.used) f g).2 := fun s hs =>
      writeStub_agree (hs.mono (Span.subset_refl _) (sub_span (by omega) (by omega)))
    dsimp only
    rw [if_neg hs0]
    by_cases hw : (writeStub t.mem (t.pool.base + t.pool.used) f g).1 = 0
    · rw [if_pos hw]
      have hstubs : ∀ e f' r', t.StubEntry e f' r' → StubEntry
          ⟨(writeStub t.mem (t.pool.base + t.pool.used) f g).2, t.pool⟩ e f' r' := by
        rintro e f' r' ⟨k, hk, rfl, hs⟩
        exact ⟨k, hk, rfl, hs.mono rfl hgw (hst k hk)⟩
      refine ⟨⟨rfl, rfl, hgw, hstubs, hout⟩, Or.inl ⟨rfl, h.place, h.order, ht, h.stubSteps,
        h.gatewaySteps, fun k hk => ?_, fun k hk => ?_⟩⟩
      · obtain ⟨f', r', hfr, hs⟩ := h.stubs k hk
        exact ⟨f', r', hfr, hs.mono rfl hgw (hst k hk)⟩
      · obtain ⟨r', hr⟩ := h.gateways k hk
        obtain ⟨-, -, -, hg'⟩ := hgw _ r' ⟨k, hk, rfl, hr⟩
        exact ⟨r', hg'⟩
    · rw [if_neg hw]
      have hdist := h.gateway_distance hle hg
      have hnew := writeStub_at (m := t.mem) (f := f) (reach_of_accepted hdist.1 hdist.2 hw)
      have hss := h.stubSteps
      have hcell : t.pool.base + UInt32.ofNat (10 * (t.pool.used.toNat / 10)) =
          t.pool.base + t.pool.used := by
        rw [show 10 * (t.pool.used.toNat / 10) = t.pool.used.toNat by omega, UInt32.ofNat_toNat]
      have hnewStub : HasStub ⟨(writeStub t.mem (t.pool.base + t.pool.used) f g).2,
          { t.pool with used := t.pool.used + stubSize }⟩ (t.pool.used.toNat / 10) f r := by
        refine ⟨g, ?_, hgw g r hg⟩
        dsimp only
        rw [hcell]
        exact hnew
      have hentry : StubEntry ⟨(writeStub t.mem (t.pool.base + t.pool.used) f g).2,
          { t.pool with used := t.pool.used + stubSize }⟩ ((t.pool.base + t.pool.used) ||| 1) f r :=
        ⟨t.pool.used.toNat / 10, by dsimp only; omega, by dsimp only; rw [hcell], hnewStub⟩
      have hserves : Serves ⟨(writeStub t.mem (t.pool.base + t.pool.used) f g).2,
          { t.pool with used := t.pool.used + stubSize }⟩ ((f, r) :: served) := by
        refine ⟨fun h0 => ?_, ?_, ht, ?_, h.gatewaySteps, fun k hk => ?_, fun k hk => ?_⟩
        · obtain ⟨h1, h2, h3, h4, h5⟩ := h.place h0
          exact ⟨h1, h2, h3, h4, h5⟩
        · dsimp only
          omega
        · dsimp only
          omega
        · dsimp only at hk
          by_cases hold : 10 * k < t.pool.used.toNat
          · obtain ⟨f', r', hfr, hs⟩ := h.stubs k hold
            exact ⟨f', r', List.mem_cons_of_mem _ hfr, hs.mono rfl hgw (hst k hold)⟩
          · rw [show k = t.pool.used.toNat / 10 by omega]
            exact ⟨f, r, List.mem_cons_self, hnewStub⟩
        · obtain ⟨r', hr⟩ := h.gateways k hk
          obtain ⟨-, -, -, hg'⟩ := hgw _ r' ⟨k, hk, rfl, hr⟩
          exact ⟨r', hg'⟩
      have hstubs : ∀ e f' r', t.StubEntry e f' r' → StubEntry
          ⟨(writeStub t.mem (t.pool.base + t.pool.used) f g).2,
            { t.pool with used := t.pool.used + stubSize }⟩ e f' r' := by
        rintro e f' r' ⟨k, hk, rfl, hs⟩
        exact ⟨k, by dsimp only; omega, rfl, hs.mono rfl hgw (hst k hk)⟩
      exact ⟨⟨rfl, rfl, hgw, hstubs, hout⟩, Or.inr ⟨or_one_ne_zero _, hserves, hentry⟩⟩

end

theorem Serves.mono {served' : List (UInt32 × UInt32)} (h : t.Serves served)
    (hs : ∀ x ∈ served, x ∈ served') : t.Serves served' where
  place := h.place
  order := h.order
  top := h.top
  stubSteps := h.stubSteps
  gatewaySteps := h.gatewaySteps
  stubs k hk := by
    obtain ⟨f, r, hfr, hst⟩ := h.stubs k hk
    exact ⟨f, r, hs _ hfr, hst⟩
  gateways := h.gateways

/-- A stub that is already there will do, as long as `f` was only asked for with `r`. -/
theorem Serves.existing (h : t.Serves served) (hne : Deps.findStub t.mem t.pool f ≠ 0)
    (hc : ∀ r', (f, r') ∈ served → r' = r) :
    Handed t served f r (Deps.findStub t.mem t.pool f, t) := by
  obtain ⟨r', hmem, hs⟩ := h.findStub hne
  rw [hc r' hmem] at hs
  exact ⟨.refl t, Or.inr ⟨hne, h.mono fun _ hx => List.mem_cons_of_mem _ hx, hs⟩⟩

/-- A stub at a new gateway. -/
theorem Serves.freshStub (h : t.Serves served) (hne : (t.allocGateway r).1 ≠ 0) :
    Handed t served f r ((t.allocGateway r).2.allocStub f (t.allocGateway r).1) := by
  obtain ⟨he, hs⟩ := h.allocGateway.allocStub (f := f) (h.allocGateway_gateway hne)
  exact ⟨h.allocGateway_extends.trans he, hs⟩

/-- A pool without stubs and gateways. -/
theorem serves_empty {m : Mem} {base : Addr} {size : UInt32}
    (hp : 0 < size.toNat → PoolPlace ⟨base, size, 0, size⟩) : Serves ⟨m, ⟨base, size, 0, size⟩⟩ [] where
  place := hp
  order := Nat.zero_le _
  top := Nat.le_refl _
  stubSteps := rfl
  gatewaySteps := by rw [Nat.sub_self]
  stubs _ hk := absurd hk (Nat.not_lt_zero _)
  gateways k hk := absurd hk (Nat.not_lt.mpr (Nat.le_add_right _ _))

/-- The pool as it is set up in a buffer. -/
theorem serves_init {m : Mem} {buf : Addr} {sz : UInt32} (hb : 0 < buf.toNat)
    (hf : buf.toNat + sz.toNat ≤ 2 ^ 32) (hsz : (ThunkPool.init buf sz).size.toNat ≤ 129052) :
    Serves ⟨m, .init buf sz⟩ [] := by
  refine serves_empty fun h0 => ?_
  obtain ⟨ha, hs, hstart, hstop⟩ := ThunkPool.init_inBuffer hf h0
  have he : (ThunkPool.init buf sz).base.toNat % 2 = 0 := by omega
  have hse : (ThunkPool.init buf sz).size.toNat % 2 = 0 := by omega
  exact ⟨Nat.lt_of_lt_of_le hb hstart, he, Nat.le_trans hstop hf, hse, hsz⟩

end Thunks

end Udynlink.Deps
