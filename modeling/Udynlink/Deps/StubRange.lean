import Udynlink.Deps.ThunkWrites

/-!
# The range of a stub

A stub is refused by a test on an offset that was narrowed to 16 bits. The test sees
the displacement modulo 2^17, so that a gateway far away can look near.
-/

namespace Udynlink.Deps

open Machine

/-! ## The displacement -/

/-- Bytes from the PC of the branch of a stub at `s` to `g`, signed. -/
def displacement (s g : Addr) : Int := (g - (s + 12)).toInt32.toInt

/-- What a B.N reaches. -/
def InBranchRange (d : Int) : Prop := -2048 ≤ d ∧ d ≤ 2046

instance (d : Int) : Decidable (InBranchRange d) := inferInstanceAs (Decidable (_ ∧ _))

section

variable {m : Mem} {s g : Addr} {f : UInt32}

theorem displacement_bmod (s g : Addr) :
    displacement s g = ((g - (s + 12)).toNat : Int).bmod (2 ^ 32) := by
  unfold displacement
  rw [← Int32.toInt_toBitVec, UInt32.toBitVec_toInt32, BitVec.toInt_eq_toNat_bmod]
  rfl

theorem displacement_even (hs : Even s) (hg : Even g) : (g - (s + 12)).toNat % 2 = 0 := by
  have hlt := s.toNat_lt
  have hlt' := g.toNat_lt
  unfold Even at hs hg
  rw [UInt32.toNat_sub, UInt32.toNat_add, show (12 : UInt32).toNat = 12 from rfl]
  omega

theorem reach_iff (hs : Even s) (hg : Even g) : Reach s g ↔ InBranchRange (displacement s g) := by
  have he := displacement_even hs hg
  have hlt := (g - (s + 12)).toNat_lt
  rw [displacement_bmod, Int.bmod_def]
  unfold Reach InBranchRange
  constructor
  · rintro ⟨-, h | h⟩ <;> split <;> omega
  · intro h
    refine ⟨he, ?_⟩
    split at h <;> omega

theorem writeStub_fst : (writeStub m s f g).1 ≠ 0 ↔
    ¬ (branchOffset s g < -1024 ∨ branchOffset s g > 1023) := by
  unfold writeStub
  dsimp only
  split
  next h => exact ⟨fun hx => absurd rfl hx, fun hx => absurd h hx⟩
  next h => exact ⟨fun _ => h, fun _ => or_one_ne_zero s⟩

/-- The test passes when the displacement is in range modulo 2^17. -/
theorem writeStub_accepted (hs : Even s) (hg : Even g) : (writeStub m s f g).1 ≠ 0 ↔
    InBranchRange ((displacement s g).bmod (2 ^ 17)) := by
  have he := displacement_even hs hg
  have hlt := (g - (s + 12)).toNat_lt
  have hdvd : (2 : Int) ∣ displacement s g := by
    rw [displacement_bmod, Int.bmod_def]
    split <;> omega
  rw [writeStub_fst, offset_refused, branchOffset_toInt he, ← displacement_bmod]
  generalize displacement s g = d at hdvd ⊢
  unfold InBranchRange
  simp only [Int.bmod_def]
  omega

/-! ## Decoding -/

/-- The three instructions at `s` load `f` into `ip` and go to `g`; no other register changes. -/
def LoadsAndBranches (m : Mem) (s : Addr) (f : UInt32) (g : Addr) : Prop :=
  ∀ c : Cpu, c.pc = s → ∃ c1 c2, c.step m = some (.next c1) ∧ c1.step m = some (.next c2) ∧
    c2.step m = some (.next { c with pc := g, ip := f })

/-- The stub is written exactly when its branch reaches the gateway, and does what it is for. -/
structure StubExact (m : Mem) (s : Addr) (f : UInt32) (g : Addr) : Prop where
  inRange : (writeStub m s f g).1 ≠ 0 ↔ InBranchRange (displacement s g)
  decodes : (writeStub m s f g).1 ≠ 0 → LoadsAndBranches (writeStub m s f g).2 s f g

theorem StubAt.loadsAndBranches (h : StubAt m s f g) : LoadsAndBranches m s f g :=
  fun _ hpc => h.steps hpc

/-- A stub is right unless its gateway is out of range and looks near modulo 2^17. -/
theorem writeStub_exact_iff (hs : Even s) (hg : Even g) : StubExact m s f g ↔
    (InBranchRange ((displacement s g).bmod (2 ^ 17)) → InBranchRange (displacement s g)) := by
  constructor
  · intro h hwrap
    exact h.inRange.mp ((writeStub_accepted hs hg).mpr hwrap)
  · intro h
    have hin : (writeStub m s f g).1 ≠ 0 → InBranchRange (displacement s g) := fun hx =>
      h ((writeStub_accepted hs hg).mp hx)
    refine ⟨⟨hin, fun hd => ?_⟩, fun hx => ?_⟩
    · refine (writeStub_accepted hs hg).mpr ?_
      unfold InBranchRange at *
      rw [Int.bmod_def]
      split <;> omega
    · exact (writeStub_at ((reach_iff hs hg).mpr (hin hx))).loadsAndBranches

theorem writeStub_exact_near : InBranchRange ((displacement 0x20000000 0x20000100).bmod (2 ^ 17)) ∧
    StubExact (fun _ => 0) 0x20000000 0x08001235 0x20000100 :=
  ⟨by decide, (writeStub_exact_iff (by unfold Even; decide) (by unfold Even; decide)).mpr
    fun _ => by decide⟩

/-- A gateway 128 KiB away is accepted. -/
theorem writeStub_far : ¬ StubExact (fun _ => 0) 0x20000000 0x08001235 0x2002000C := by
  intro h
  have hnear : InBranchRange ((displacement 0x20000000 0x2002000C).bmod (2 ^ 17)) := by decide
  have hin := h.inRange.mp ((writeStub_accepted (by unfold Even; decide)
    (by unfold Even; decide)).mpr hnear)
  exact absurd hin (by decide)

end

end Udynlink.Deps
