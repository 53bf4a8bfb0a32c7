import Udynlink.Deps.ThunkCode

/-!
# Writing thunks

What the writers leave behind reads back as a gateway or a stub, and nothing else
changes.
-/

namespace Udynlink.Deps

open Machine

section

variable {m : Mem} {p q : Addr} {hw : UInt16}

theorem u16_set16 : (set16 m p hw).u16 p = hw := by
  have h0 : (p - p).toNat = 0 := by rw [UInt32.sub_self]; rfl
  have h1 : (p + 1 - p).toNat = 1 := by rw [show p + 1 - p = 1 by grind]; rfl
  unfold Mem.u16 set16 Mem.store
  rw [if_pos (by rw [h0]; decide), if_pos (by rw [h1]; decide), h0, h1]
  dsimp only
  rw [if_pos rfl, if_neg (by decide)]
  apply UInt16.toNat_inj.mp
  have hlt := hw.toNat_lt
  have h8 : (hw >>> 8).toNat = hw.toNat / 256 := by
    rw [UInt16.toNat_shiftRight, Nat.shiftRight_eq_div_pow]
    rfl
  rw [UInt16.toNat_ofNat', UInt16.toNat_toUInt8, UInt16.toNat_toUInt8, h8]
  omega

theorem set16_apart {a : Addr} (h : 2 ≤ (a - p).toNat) : set16 m p hw a = m a :=
  store_notMem (Nat.not_lt.mpr h)

theorem u16_set16_apart (h : 2 ≤ (q - p).toNat) (h' : (q - p).toNat + 2 ≤ 2 ^ 32) :
    (set16 m p hw).u16 q = m.u16 q := by
  have h1 : 2 ≤ (q + 1 - p).toNat := by
    rw [show q + 1 - p = q - p + 1 by grind, UInt32.toNat_add, show (1 : UInt32).toNat = 1 from rfl,
      Nat.mod_eq_of_lt (by omega)]
    omega
  unfold Mem.u16
  rw [set16_apart h, set16_apart h1]

theorem store_u16 {n i : Nat} {bs : Nat → UInt8} (hi : i + 2 ≤ n) (hn : n ≤ 2 ^ 32) :
    (m.store p n bs).u16 (p + UInt32.ofNat i) =
      UInt16.ofNat ((bs i).toNat + 256 * (bs (i + 1)).toNat) := by
  unfold Mem.u16
  rw [show p + UInt32.ofNat i + 1 = p + UInt32.ofNat (i + 1) by
      rw [UInt32.ofNat_add, UInt32.add_assoc]; rfl,
    store_off (by omega) hn, store_off (by omega) hn]

end

/-! ## One instruction -/

section

variable {m : Mem} {dst q : Addr} {rd imm op : UInt16}

theorem encodeMovImm_fst : (encodeMovImm m dst rd imm op).u16 dst = movHw0 op imm := by
  have h : dst - (dst + 2) = -2 := by grind
  unfold encodeMovImm
  rw [u16_set16_apart (by rw [h]; decide) (by rw [h]; decide), u16_set16]

theorem encodeMovImm_snd : (encodeMovImm m dst rd imm op).u16 (dst + 2) = movHw1 rd imm :=
  u16_set16

theorem encodeMovImm_apart {d : UInt32} (hd : q = dst + d) (h : 4 ≤ d.toNat)
    (h' : d.toNat + 2 ≤ 2 ^ 32) : (encodeMovImm m dst rd imm op).u16 q = m.u16 q := by
  have h0 : q - dst = d := by grind
  have h2 : (q - (dst + 2)).toNat = d.toNat - 2 := by
    rw [hd, show dst + d - (dst + 2) = d - 2 by grind, UInt32.toNat_sub_of_le]
    · rfl
    · rw [UInt32.le_iff_toNat_le]
      exact Nat.le_trans (by decide) h
  unfold encodeMovImm
  rw [u16_set16_apart (by omega) (by omega), u16_set16_apart (by rw [h0]; omega) (by rw [h0]; omega)]

/-- Only the four bytes of the instruction change. -/
theorem encodeMovImm_agree {s : Span} (h : s.Disjoint ⟨dst, 4⟩) :
    AgreeOn s m (encodeMovImm m dst rd imm op) := by
  intro a ha
  have h4 : 4 ≤ (a - dst).toNat := Nat.not_lt.mp (h a ha)
  have h2 : 2 ≤ (a - (dst + 2)).toNat := by
    rw [show a - (dst + 2) = a - dst - 2 by grind, UInt32.toNat_sub_of_le]
    · exact Nat.le_sub_of_add_le h4
    · rw [UInt32.le_iff_toNat_le]
      exact Nat.le_trans (by decide) h4
  unfold encodeMovImm
  rw [set16_apart h2, set16_apart (by omega)]

end

/-! ## Gateways -/

section

variable {m : Mem} {g : Addr} {r : UInt32}

theorem template_u16 {i : Nat} (hi : i + 2 ≤ 18) :
    (m.store g 18 fun i => gatewayTemplate.getD i 0).u16 (g + UInt32.ofNat i) =
      UInt16.ofNat ((gatewayTemplate.getD i 0).toNat + 256 * (gatewayTemplate.getD (i + 1) 0).toNat) :=
  store_u16 hi (by decide)

/-- The instructions that the two MOVs are not written over. -/
theorem writeGateway_template {x : UInt32} (h4 : 4 ≤ (x - 4).toNat) (h4' : (x - 4).toNat + 2 ≤ 2 ^ 32)
    (h8 : 4 ≤ (x - 8).toNat) (h8' : (x - 8).toNat + 2 ≤ 2 ^ 32) (hx : x.toNat + 2 ≤ 18) :
    (writeGateway m g r).u16 (g + x) = UInt16.ofNat ((gatewayTemplate.getD x.toNat 0).toNat +
      256 * (gatewayTemplate.getD (x.toNat + 1) 0).toNat) := by
  unfold writeGateway
  dsimp only
  rw [encodeMovImm_apart (show g + x = g + 8 + (x - 8) by grind) h8 h8',
    encodeMovImm_apart (show g + x = g + 4 + (x - 4) by grind) h4 h4']
  have ht := template_u16 (m := m) (g := g) hx
  rwa [UInt32.ofNat_toNat] at ht

theorem writeGateway_at : GatewayAt (writeGateway m g r) g r where
  push0 := by
    have h := writeGateway_template (m := m) (g := g) (r := r) (x := 0) (by decide) (by decide)
      (by decide) (by decide) (by decide)
    rwa [UInt32.add_zero] at h
  push1 := writeGateway_template (by decide) (by decide) (by decide) (by decide) (by decide)
  movw0 := by
    unfold writeGateway
    dsimp only
    rw [encodeMovImm_apart (show g + 4 = g + 8 + (-4) by grind) (by decide) (by decide),
      encodeMovImm_fst]
  movw1 := by
    unfold writeGateway
    dsimp only
    rw [encodeMovImm_apart (show g + 6 = g + 8 + (-2) by grind) (by decide) (by decide),
      show g + 6 = g + 4 + 2 by grind, encodeMovImm_snd]
  movt0 := encodeMovImm_fst
  movt1 := by
    unfold writeGateway
    dsimp only
    rw [show g + 10 = g + 8 + 2 by grind, encodeMovImm_snd]
  blx := writeGateway_template (by decide) (by decide) (by decide) (by decide) (by decide)
  pop0 := writeGateway_template (by decide) (by decide) (by decide) (by decide) (by decide)
  pop1 := writeGateway_template (by decide) (by decide) (by decide) (by decide) (by decide)

theorem sub_span {p : Addr} {x : UInt32} {k n : Nat} (h : x.toNat + k ≤ n) (hn : n ≤ 2 ^ 32) :
    (⟨p + x, k⟩ : Span) ⊆ ⟨p, n⟩ := by
  have hs := off_subset (b := p) h hn
  rwa [UInt32.ofNat_toNat] at hs

theorem writeGateway_agree {s : Span} (h : s.Disjoint ⟨g, 18⟩) :
    AgreeOn s m (writeGateway m g r) :=
  ((store_agree h).trans
    (encodeMovImm_agree (h.mono (Span.subset_refl _) (sub_span (by decide) (by decide))))).trans
    (encodeMovImm_agree (h.mono (Span.subset_refl _) (sub_span (by decide) (by decide))))

/-- A gateway reads back its RAM base. -/
theorem GatewayAt.ramBase (hg : GatewayAt m g r) : gatewayRamBase m g = r := by
  unfold gatewayRamBase decodeMovImm
  rw [show g + 4 + 2 = g + 6 by grind, show g + 8 + 2 = g + 10 by grind, hg.movw0, hg.movw1,
    hg.movt0, hg.movt1, movImm_encode (Or.inl rfl) (Or.inl rfl),
    movImm_encode (Or.inr rfl) (Or.inl rfl), UInt32.or_comm, halves]

theorem GatewayAt.congr {m' : Mem} (hg : GatewayAt m g r) (h : AgreeOn ⟨g, 18⟩ m m') :
    GatewayAt m' g r := by
  have hu : ∀ x : UInt32, x.toNat + 2 ≤ 18 → m'.u16 (g + x) = m.u16 (g + x) := fun x hx =>
    u16_eq_of_bytes fun i hi =>
      (h _ (sub_span hx (by decide) _ (off_mem hi (by decide)))).symm
  have h0 := hu 0 (by decide)
  rw [UInt32.add_zero] at h0
  exact ⟨h0.trans hg.push0, (hu 2 (by decide)).trans hg.push1, (hu 4 (by decide)).trans hg.movw0,
    (hu 6 (by decide)).trans hg.movw1, (hu 8 (by decide)).trans hg.movt0,
    (hu 10 (by decide)).trans hg.movt1, (hu 12 (by decide)).trans hg.blx,
    (hu 14 (by decide)).trans hg.pop0, (hu 16 (by decide)).trans hg.pop1⟩

end

/-! ## Stubs -/

section

variable {m : Mem} {s g : Addr} {f : UInt32}

/-- The two instructions that load `f`. -/
structure StubHead (m : Mem) (s : Addr) (f : UInt32) : Prop where
  movw0 : m.u16 s = movHw0 movwOp f.toUInt16
  movw1 : m.u16 (s + 2) = movHw1 12 f.toUInt16
  movt0 : m.u16 (s + 4) = movHw0 movtOp (f >>> 16).toUInt16
  movt1 : m.u16 (s + 6) = movHw1 12 (f >>> 16).toUInt16

theorem StubAt.head (hs : StubAt m s f g) : StubHead m s f :=
  ⟨hs.movw0, hs.movw1, hs.movt0, hs.movt1⟩

theorem agree_halfword {m' : Mem} (h : AgreeOn ⟨s, 10⟩ m m') (x : UInt32) (hx : x.toNat + 2 ≤ 10) :
    m'.u16 (s + x) = m.u16 (s + x) :=
  u16_eq_of_bytes fun i hi => (h _ (sub_span hx (by decide) _ (off_mem hi (by decide)))).symm

theorem StubHead.congr {m' : Mem} (hs : StubHead m s f) (h : AgreeOn ⟨s, 10⟩ m m') :
    StubHead m' s f := by
  have h0 := agree_halfword h 0 (by decide)
  rw [UInt32.add_zero] at h0
  exact ⟨h0.trans hs.movw0, (agree_halfword h 2 (by decide)).trans hs.movw1,
    (agree_halfword h 4 (by decide)).trans hs.movt0,
    (agree_halfword h 6 (by decide)).trans hs.movt1⟩

theorem StubAt.congr {m' : Mem} (hs : StubAt m s f g) (h : AgreeOn ⟨s, 10⟩ m m') :
    StubAt m' s f g := by
  obtain ⟨h0, h1, h2, h3⟩ := hs.head.congr h
  obtain ⟨x, hx, ht⟩ := hs.branch
  exact ⟨h0, h1, h2, h3, x, (agree_halfword h 8 (by decide)).trans hx, ht⟩

/-- A stub reads back its function. -/
theorem StubHead.target (hs : StubHead m s f) : stubTarget m s = some f := by
  have hw : decodeMovIpImm16 movwOp m s = some f.toUInt16 := by
    unfold decodeMovIpImm16
    dsimp only
    rw [hs.movw0, hs.movw1, movHw0_op (Or.inl rfl), movHw1_ip, if_neg (by simp), if_neg (by simp),
      movImm_encode (Or.inl rfl) (Or.inr rfl)]
  have ht : decodeMovIpImm16 movtOp m (s + 4) = some (f >>> 16).toUInt16 := by
    unfold decodeMovIpImm16
    dsimp only
    rw [show s + 4 + 2 = s + 6 by grind, hs.movt0, hs.movt1, movHw0_op (Or.inr rfl), movHw1_ip,
      if_neg (by simp), if_neg (by simp), movImm_encode (Or.inr rfl) (Or.inr rfl)]
  unfold stubTarget
  rw [hw, ht]
  show some _ = some f
  rw [halves]

theorem writeStub_agree {t : Span} (h : t.Disjoint ⟨s, 10⟩) :
    AgreeOn t m (writeStub m s f g).2 := by
  have h4 : t.Disjoint ⟨s, 4⟩ := h.mono (Span.subset_refl _) (prefix_subset (by decide))
  have h44 : t.Disjoint ⟨s + 4, 4⟩ :=
    h.mono (Span.subset_refl _) (sub_span (by decide) (by decide))
  have h82 : t.Disjoint ⟨s + 8, 2⟩ :=
    h.mono (Span.subset_refl _) (sub_span (by decide) (by decide))
  have h1 : AgreeOn t m (encodeMovImm (encodeMovImm m s 12 f.toUInt16 movwOp) (s + 4) 12
      (f >>> 16).toUInt16 movtOp) :=
    (encodeMovImm_agree h4).trans (encodeMovImm_agree h44)
  unfold writeStub
  dsimp only
  split
  · exact h1
  · refine h1.trans ?_
    dsimp only [encodeBN, set16]
    exact store_agree h82

/-! ### The branch -/

/-- The gateway is where a B.N at `s + 8` can go. -/
def Reach (s g : Addr) : Prop :=
  (g - (s + 12)).toNat % 2 = 0 ∧
    ((g - (s + 12)).toNat ≤ 2046 ∨ 2 ^ 32 - 2048 ≤ (g - (s + 12)).toNat)

theorem toInt_toUInt16 (o : Int16) : (o.toUInt16.toNat : Int) = o.toInt % 65536 := by
  have hlt := o.toUInt16.toNat_lt
  have h := BitVec.toInt_eq_toNat_bmod o.toBitVec
  rw [Int16.toInt_toBitVec, Int16.toNat_toBitVec, Int.bmod_def] at h
  split at h <;> omega

/-- The offset in halfwords, before it is narrowed. -/
theorem branchOffset_toInt (h : (g - (s + 12)).toNat % 2 = 0) : (branchOffset s g).toInt =
    ((((g - (s + 12)).toNat : Int).bmod (2 ^ 32)) / 2).bmod (2 ^ 16) := by
  have hi : (g - (s + 12)).toInt32.toInt = ((g - (s + 12)).toNat : Int).bmod (2 ^ 32) := by
    rw [← Int32.toInt_toBitVec, UInt32.toBitVec_toInt32, BitVec.toInt_eq_toNat_bmod]
    rfl
  have hd : (2 : Int) ∣ ((g - (s + 12)).toNat : Int).bmod (2 ^ 32) := by
    rw [Int.bmod_def]
    split <;> omega
  have hlt := (g - (s + 12)).toNat_lt
  have h32 : (((g - (s + 12)).toNat : Int).bmod (2 ^ 32) / 2).bmod (2 ^ 32) =
      ((g - (s + 12)).toNat : Int).bmod (2 ^ 32) / 2 := by
    simp only [Int.bmod_def]
    omega
  have h2 : (2 : Int32).toInt = 2 := rfl
  unfold branchOffset
  rw [Int32.toInt_toInt16, Int32.toInt_div, hi, h2, Int.tdiv_eq_ediv_of_dvd hd, h32]

theorem Reach.offset (h : Reach s g) : ((g - (s + 12)).toNat ≤ 2046 ∧
      (branchOffset s g).toInt = (g - (s + 12)).toNat / 2) ∨
    (2 ^ 32 - 2048 ≤ (g - (s + 12)).toNat ∧
      (branchOffset s g).toInt = ((g - (s + 12)).toNat - 2 ^ 32 : Int) / 2) := by
  have hlt := (g - (s + 12)).toNat_lt
  rw [branchOffset_toInt h.1]
  simp only [Int.bmod_def]
  obtain ⟨he, hr | hr⟩ := h
  · exact Or.inl ⟨hr, by omega⟩
  · exact Or.inr ⟨hr, by omega⟩

theorem offset_refused : (branchOffset s g < -1024 ∨ branchOffset s g > 1023) ↔
    ((branchOffset s g).toInt < -1024 ∨ (branchOffset s g).toInt > 1023) := by
  rw [gt_iff_lt, Int16.lt_iff_toInt_lt, Int16.lt_iff_toInt_lt]
  rfl

theorem imm_toNat (x : UInt16) : (x &&& 0x7FF).toUInt32.toNat = x.toNat % 2048 := by
  rw [UInt16.toNat_toUInt32, UInt16.toNat_and]
  exact Nat.and_two_pow_sub_one_eq_mod x.toNat 11

theorem Reach.branchTarget (h : Reach s g) :
    branchTarget (0xE000 ||| ((branchOffset s g).toUInt16 &&& 0x7FF)) (s + 8) = g := by
  have hlt := (g - (s + 12)).toNat_lt
  have hx := toInt_toUInt16 (branchOffset s g)
  have hi := imm_toNat (branchOffset s g).toUInt16
  have hg : s + 8 + 4 + (g - (s + 12)) = g := by grind
  unfold Deps.branchTarget
  rw [branch_imm]
  dsimp only
  generalize ((branchOffset s g).toUInt16 &&& 0x7FF).toUInt32 = imm at hi ⊢
  have he := h.1
  rcases h.offset with ⟨hr, ho⟩ | ⟨hr, ho⟩
  · have hn : imm.toNat = (g - (s + 12)).toNat / 2 := by omega
    have hd : imm * 2 = g - (s + 12) := by
      apply UInt32.toNat_inj.mp
      rw [UInt32.toNat_mul, hn, show (2 : UInt32).toNat = 2 from rfl]
      omega
    have hlow : imm < 0x400 := by
      rw [UInt32.lt_iff_toNat_lt, hn, show (0x400 : UInt32).toNat = 1024 from rfl]
      omega
    rw [if_pos hlow, hd, hg]
  · have hn : imm.toNat + (2 ^ 31 - (g - (s + 12)).toNat / 2) = 2048 := by omega
    have hd : imm * 2 = g - (s + 12) + 0x1000 := by
      apply UInt32.toNat_inj.mp
      rw [UInt32.toNat_mul, UInt32.toNat_add, show (2 : UInt32).toNat = 2 from rfl,
        show (0x1000 : UInt32).toNat = 4096 from rfl]
      omega
    rw [if_neg (by
      rw [UInt32.lt_iff_toNat_lt, show (0x400 : UInt32).toNat = 1024 from rfl]
      omega), hd]
    calc s + 8 + 4 + (g - (s + 12) + 0x1000) - 0x1000 = s + 8 + 4 + (g - (s + 12)) := by grind
      _ = g := hg

theorem encodeMov_pair : StubHead (encodeMovImm (encodeMovImm m s 12 f.toUInt16 movwOp) (s + 4) 12
    (f >>> 16).toUInt16 movtOp) s f where
  movw0 := by
    rw [encodeMovImm_apart (show s = s + 4 + -4 by grind) (by decide) (by decide), encodeMovImm_fst]
  movw1 := by
    rw [encodeMovImm_apart (show s + 2 = s + 4 + -2 by grind) (by decide) (by decide),
      encodeMovImm_snd]
  movt0 := encodeMovImm_fst
  movt1 := by rw [show s + 6 = s + 4 + 2 by grind, encodeMovImm_snd]

/-- The function is written whether or not the stub is refused. -/
theorem writeStub_head : StubHead (writeStub m s f g).2 s f := by
  unfold writeStub
  dsimp only
  split
  · exact encodeMov_pair
  · obtain ⟨h0, h1, h2, h3⟩ := @encodeMov_pair m s f
    constructor
    · rw [encodeBN, u16_set16_apart (by rw [show s - (s + 8) = -8 by grind]; decide)
        (by rw [show s - (s + 8) = -8 by grind]; decide), h0]
    · rw [encodeBN, u16_set16_apart (by rw [show s + 2 - (s + 8) = -6 by grind]; decide)
        (by rw [show s + 2 - (s + 8) = -6 by grind]; decide), h1]
    · rw [encodeBN, u16_set16_apart (by rw [show s + 4 - (s + 8) = -4 by grind]; decide)
        (by rw [show s + 4 - (s + 8) = -4 by grind]; decide), h2]
    · rw [encodeBN, u16_set16_apart (by rw [show s + 6 - (s + 8) = -2 by grind]; decide)
        (by rw [show s + 6 - (s + 8) = -2 by grind]; decide), h3]

theorem writeStub_at (h : Reach s g) : StubAt (writeStub m s f g).2 s f g := by
  have hok : ¬ (branchOffset s g < -1024 ∨ branchOffset s g > 1023) := by
    rw [offset_refused]
    have hlt := (g - (s + 12)).toNat_lt
    rcases h.offset with ⟨hr, ho⟩ | ⟨hr, ho⟩ <;> rw [ho] <;> omega
  obtain ⟨h0, h1, h2, h3⟩ := @writeStub_head m s g f
  refine ⟨h0, h1, h2, h3, _, ?_, h.branchTarget⟩
  unfold writeStub
  dsimp only
  rw [if_neg hok]
  exact u16_set16

/-- A stub that is not refused has its gateway in reach, as long as the narrowing of the
offset does not wrap. -/
theorem reach_of_accepted (he : (g - (s + 12)).toNat % 2 = 0)
    (hd : (g - (s + 12)).toNat ≤ 129022 ∨ 2 ^ 32 - 2 ≤ (g - (s + 12)).toNat)
    (h : (writeStub m s f g).1 ≠ 0) : Reach s g := by
  have hok : ¬ (branchOffset s g < -1024 ∨ branchOffset s g > 1023) := by
    intro hb
    unfold writeStub at h
    dsimp only at h
    rw [if_pos hb] at h
    exact h rfl
  have hlt := (g - (s + 12)).toNat_lt
  rw [offset_refused, branchOffset_toInt he] at hok
  simp only [Int.bmod_def] at hok
  refine ⟨he, ?_⟩
  rcases hd with hd | hd
  · left
    omega
  · right
    omega

end

end Udynlink.Deps
