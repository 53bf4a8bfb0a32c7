import Udynlink.Machine.Memory

/-!
# Readers with a footprint

A reader is a function of the memory together with the addresses it looked at,
in order. Its `sound` field says that nothing else can matter: on a memory that
agrees at those addresses the value and the footprint are the same. Sequencing
keeps the field, so a reader written in `do` notation carries the proof.
-/

namespace Udynlink.Machine

structure Reader (α : Type) where
  run : Mem → α
  reads : Mem → List Addr
  sound : ∀ m m', (∀ a ∈ reads m, m a = m' a) → run m' = run m ∧ reads m' = reads m

namespace Reader

variable {α β : Type}

instance : Monad Reader where
  pure x := ⟨fun _ => x, fun _ => [], fun _ _ _ => ⟨rfl, rfl⟩⟩
  bind r f :=
    { run := fun m => (f (r.run m)).run m
      reads := fun m => r.reads m ++ (f (r.run m)).reads m
      sound := by
        intro m m' h
        simp only [List.mem_append] at h
        obtain ⟨hv, hr⟩ := r.sound m m' fun a ha => h a (Or.inl ha)
        obtain ⟨hv', hr'⟩ := (f (r.run m)).sound m m' fun a ha => h a (Or.inr ha)
        exact ⟨by rw [hv, hv'], by rw [hv, hr, hr']⟩ }

@[simp] theorem run_pure (x : α) (m : Mem) : (pure x : Reader α).run m = x := rfl

@[simp] theorem reads_pure (x : α) (m : Mem) : (pure x : Reader α).reads m = [] := rfl

@[simp] theorem run_bind (r : Reader α) (f : α → Reader β) (m : Mem) :
    (r >>= f).run m = (f (r.run m)).run m := rfl

@[simp] theorem reads_bind (r : Reader α) (f : α → Reader β) (m : Mem) :
    (r >>= f).reads m = r.reads m ++ (f (r.run m)).reads m := rfl

theorem run_ite (c : Prop) [Decidable c] (r s : Reader α) (m : Mem) :
    (if c then r else s).run m = if c then r.run m else s.run m := by split <;> rfl

/-! ## Primitive readers -/

def byte (p : Addr) : Reader UInt8 where
  run m := m p
  reads _ := [p]
  sound _ _ h := ⟨(h p (List.mem_singleton_self p)).symm, rfl⟩

/-- The addresses of a span, in ascending order. -/
def spanAddrs (p : Addr) (n : Nat) : List Addr := (List.range n).map fun i => p + UInt32.ofNat i

theorem mem_spanAddrs {p a : Addr} {n : Nat} (hn : n ≤ 2 ^ 32) :
    a ∈ spanAddrs p n ↔ a ∈ (⟨p, n⟩ : Span) := by
  simp only [spanAddrs, List.mem_map, List.mem_range]
  constructor
  · rintro ⟨i, hi, rfl⟩
    exact off_mem hi hn
  · intro h
    obtain ⟨i, hi, rfl⟩ := exists_off h
    exact ⟨i, hi, rfl⟩

/-- A reader of `n` bytes whose value depends on nothing else. -/
def ofSpan (p : Addr) (n : Nat) (f : Mem → α) (hn : n ≤ 2 ^ 32)
    (hf : ∀ m m', AgreeOn ⟨p, n⟩ m m' → f m' = f m) : Reader α where
  run := f
  reads _ := spanAddrs p n
  sound m m' h := ⟨hf m m' fun a ha => h a ((mem_spanAddrs hn).mpr ha), rfl⟩

def u32 (p : Addr) : Reader UInt32 :=
  ofSpan p 4 (·.u32 p) (by decide) fun _ _ h => h.u32.symm

@[simp] theorem run_byte (p : Addr) (m : Mem) : (byte p).run m = m p := rfl

@[simp] theorem reads_byte (p : Addr) (m : Mem) : (byte p).reads m = [p] := rfl

@[simp] theorem run_ofSpan {p : Addr} {n : Nat} {f : Mem → α} {hn hf} (m : Mem) :
    (ofSpan p n f hn hf).run m = f m := rfl

@[simp] theorem reads_ofSpan {p : Addr} {n : Nat} {f : Mem → α} {hn hf} (m : Mem) :
    (ofSpan p n f hn hf).reads m = spanAddrs p n := rfl

@[simp] theorem run_u32 (p : Addr) (m : Mem) : (u32 p).run m = m.u32 p := rfl

@[simp] theorem reads_u32 (p : Addr) (m : Mem) : (u32 p).reads m = spanAddrs p 4 := rfl

/-! ## Strings -/

/-- The C string at `p`, without its terminator, as far as `n` bytes. -/
def cstr : Nat → Addr → Reader (List UInt8)
  | 0, _ => pure []
  | n + 1, p => do
    let c ← byte p
    if c = 0 then pure []
    else do
      let rest ← cstr n (p + 1)
      pure (c :: rest)

/-- `memchr(p, 0, n) != NULL`: bytes are read up to the first terminator. -/
def memchr0 : Nat → Addr → Reader Bool
  | 0, _ => pure false
  | n + 1, p => do
    let c ← byte p
    if c = 0 then pure true else memchr0 n (p + 1)

/-- `strcmp` of the string at `p` with a host string, as far as `n` bytes. -/
def strcmp : Nat → Addr → List UInt8 → Reader Ordering
  | 0, _, _ => pure .eq
  | n + 1, p, q => do
    let c ← byte p
    let d := q.headD 0
    if c ≠ d then pure (compare c d)
    else if c = 0 then pure .eq
    else strcmp n (p + 1) q.tail

/-- `strncmp` of the strings at `p` and `q`. -/
def strncmp : Nat → Addr → Addr → Reader Ordering
  | 0, _, _ => pure .eq
  | n + 1, p, q => do
    let c ← byte p
    let d ← byte q
    if c ≠ d then pure (compare c d)
    else if c = 0 then pure .eq
    else strncmp n (p + 1) (q + 1)

/-! ## Footprints -/

/-- Every address the reader looks at satisfies `P`. -/
def Within (P : Addr → Prop) (r : Reader α) (m : Mem) : Prop := ∀ a ∈ r.reads m, P a

/-- A reader returns the same value on a memory that agrees on its footprint. -/
theorem Within.congr {P : Addr → Prop} {r : Reader α} {m m' : Mem} (h : Within P r m)
    (ha : ∀ a, P a → m a = m' a) : r.run m' = r.run m :=
  (r.sound m m' fun a hr => ha a (h a hr)).1

theorem Within.transfer {P : Addr → Prop} {r : Reader α} {m m' : Mem} (h : Within P r m)
    (ha : ∀ a, P a → m a = m' a) : Within P r m' := by
  intro a hr
  rw [(r.sound m m' fun a hr => ha a (h a hr)).2] at hr
  exact h a hr

theorem Within.mono {P Q : Addr → Prop} {r : Reader α} {m : Mem} (h : Within P r m)
    (hp : ∀ a, P a → Q a) : Within Q r m := fun a ha => hp a (h a ha)

theorem within_pure (P : Addr → Prop) (x : α) (m : Mem) : Within P (pure x) m := by
  intro a ha
  rw [reads_pure] at ha
  exact absurd ha List.not_mem_nil

theorem within_bind {P : Addr → Prop} {r : Reader α} {f : α → Reader β} {m : Mem} :
    Within P (r >>= f) m ↔ Within P r m ∧ Within P (f (r.run m)) m := by
  simp only [Within, reads_bind, List.mem_append, or_imp, forall_and]

theorem within_byte {P : Addr → Prop} {p : Addr} {m : Mem} : Within P (byte p) m ↔ P p := by
  simp only [Within, reads_byte, List.mem_singleton, forall_eq]

theorem within_ofSpan {P : Addr → Prop} {p : Addr} {n : Nat} {f : Mem → α} {hn hf} {m : Mem} :
    Within P (ofSpan p n f hn hf) m ↔ ∀ a ∈ (⟨p, n⟩ : Span), P a := by
  simp only [Within, reads_ofSpan, mem_spanAddrs hn]

theorem within_u32 {P : Addr → Prop} {p : Addr} {m : Mem} :
    Within P (u32 p) m ↔ ∀ a ∈ (⟨p, 4⟩ : Span), P a := within_ofSpan

theorem within_ite {P : Addr → Prop} {c : Prop} [Decidable c] {r s : Reader α} {m : Mem}
    (hr : c → Within P r m) (hs : ¬ c → Within P s m) : Within P (if c then r else s) m := by
  split
  next h => exact hr h
  next h => exact hs h

/-- `memchr` stops at the first terminator: nothing behind it is looked at. -/
theorem within_cstr {P : Addr → Prop} {p : Addr} {n k : Nat} {m : Mem}
    (hz : (memchr0 n p).run m = true) (hP : ∀ i, i < n → P (p + UInt32.ofNat i)) :
    Within P (cstr k p) m := by
  induction n generalizing p k with
  | zero => exact absurd hz (by simp [memchr0])
  | succ n ih =>
    have h0 := hP 0 (by omega)
    rw [off_zero] at h0
    cases k with
    | zero => exact within_pure P _ m
    | succ k =>
      rw [memchr0, run_bind, run_byte, run_ite] at hz
      rw [cstr, within_bind, within_byte, run_byte]
      refine ⟨h0, within_ite (fun _ => within_pure P _ m) fun hc => ?_⟩
      rw [if_neg hc] at hz
      rw [within_bind]
      refine ⟨ih hz fun i hi => ?_, within_pure P _ m⟩
      have hs := hP (i + 1) (by omega)
      rwa [Nat.add_comm i 1, ← off_off] at hs

theorem within_strncmp {n : Nat} {p q : Addr} (hp : ∀ i, i < n → P (p + UInt32.ofNat i))
    (hq : ∀ i, i < n → P (q + UInt32.ofNat i)) : Within P (strncmp n p q) m := by
  induction n generalizing p q with
  | zero => exact within_pure P _ m
  | succ n ih =>
    have hp0 := hp 0 (by omega)
    have hq0 := hq 0 (by omega)
    rw [off_zero] at hp0 hq0
    rw [strncmp, within_bind, within_bind, within_byte, within_byte]
    refine ⟨hp0, hq0, within_ite (fun _ => within_pure P _ m) fun _ => ?_⟩
    refine within_ite (fun _ => within_pure P _ m) fun _ => ih (fun i hi => ?_) fun i hi => ?_
    · have hs := hp (i + 1) (by omega)
      rwa [Nat.add_comm i 1, ← off_off] at hs
    · have hs := hq (i + 1) (by omega)
      rwa [Nat.add_comm i 1, ← off_off] at hs

/-- The comparison ends no later than the string does. -/
theorem within_strcmp {p : Addr} {n k : Nat} {s : List UInt8}
    (hz : (memchr0 n p).run m = true) (hP : ∀ i, i < n → P (p + UInt32.ofNat i)) :
    Within P (strcmp k p s) m := by
  induction n generalizing p k s with
  | zero => exact absurd hz (by simp [memchr0])
  | succ n ih =>
    have h0 := hP 0 (by omega)
    rw [off_zero] at h0
    cases k with
    | zero => exact within_pure P _ m
    | succ k =>
      rw [memchr0, run_bind, run_byte, run_ite] at hz
      rw [strcmp, within_bind, within_byte, run_byte]
      refine ⟨h0, within_ite (fun _ => within_pure P _ m) fun _ => ?_⟩
      refine within_ite (fun _ => within_pure P _ m) fun hc => ?_
      rw [if_neg hc] at hz
      refine ih hz fun i hi => ?_
      have hs := hP (i + 1) (by omega)
      rwa [Nat.add_comm i 1, ← off_off] at hs

theorem memchr0_iff {n : Nat} {p : Addr} :
    (memchr0 n p).run m = true ↔ ∃ k, k < n ∧ m (p + UInt32.ofNat k) = 0 := by
  induction n generalizing p with
  | zero => simp [memchr0]
  | succ n ih =>
    rw [memchr0, run_bind, run_byte, run_ite]
    by_cases hz : m p = 0
    · rw [if_pos hz]
      exact iff_of_true rfl ⟨0, Nat.succ_pos n, by rwa [off_zero]⟩
    · rw [if_neg hz, ih]
      constructor
      · rintro ⟨k, hk, hm⟩
        refine ⟨1 + k, by omega, ?_⟩
        rwa [← off_off]
      · rintro ⟨k, hk, hm⟩
        cases k with
        | zero => exact absurd (by rwa [off_zero] at hm) hz
        | succ k =>
          refine ⟨k, by omega, ?_⟩
          rw [Nat.add_comm, ← off_off] at hm
          exact hm

theorem within_memchr0 {n : Nat} {p : Addr}
    (hP : ∀ k, k < n → P (p + UInt32.ofNat k)) : Within P (memchr0 n p) m := by
  induction n generalizing p with
  | zero => exact within_pure P _ m
  | succ n ih =>
    have h0 := hP 0 (Nat.succ_pos n)
    rw [off_zero] at h0
    rw [memchr0, within_bind, within_byte]
    refine ⟨h0, within_ite (fun _ => within_pure P _ m) fun _ => ih fun k hk => ?_⟩
    have hs := hP (1 + k) (by omega)
    rwa [← off_off] at hs

/-! ## From a distance -/

theorem strncmp_shift (m : Mem) (d : Addr) (n : Nat) (p q : Addr) :
    (strncmp n (p + d) (q + d)).run m = (strncmp n p q).run (m.shift d) := by
  induction n generalizing p q with
  | zero => rfl
  | succ n ih =>
    have hstep := ih (p + 1) (q + 1)
    rw [add_right_comm p 1 d, add_right_comm q 1 d] at hstep
    rw [strncmp, strncmp, run_bind, run_bind, run_bind, run_bind, run_ite, run_ite, run_ite,
      run_ite, hstep]
    rfl

end Reader

/-- Every address of the span satisfies `P`. -/
def Covers (P : Addr → Prop) (s : Span) : Prop := ∀ a ∈ s, P a

theorem Covers.mono {P : Addr → Prop} {s t : Span} (h : Covers P t) (hs : s ⊆ t) : Covers P s :=
  fun a ha => h a (hs a ha)

theorem Covers.off {P : Addr → Prop} {b : Addr} {n i : Nat} (h : Covers P ⟨b, n⟩) (hi : i < n)
    (hn : n ≤ 2 ^ 32) : P (b + UInt32.ofNat i) := h _ (off_mem hi hn)

end Udynlink.Machine
