import Mathlib

/-!
# Byte memory of a 32-bit machine

Addresses are machine words and wrap; a span is a base with a length in
unbounded naturals, and an address belongs to it when its distance from the
base is below the length. Nothing here assumes that spans stay clear of the
top of the address space: distances are taken modulo the word.
-/

namespace Udynlink.Machine

/-- `uintptr_t` of the target. -/
abbrev Addr := UInt32

abbrev Mem := Addr → UInt8

/-- `len` bytes starting at `base`. -/
structure Span where
  base : Addr
  len : Nat
deriving DecidableEq, Repr

instance : Membership Addr Span := ⟨fun s a => (a - s.base).toNat < s.len⟩

theorem Span.mem_def {s : Span} {a : Addr} : a ∈ s ↔ (a - s.base).toNat < s.len := Iff.rfl

instance (a : Addr) (s : Span) : Decidable (a ∈ s) := decidable_of_iff _ Span.mem_def.symm

def Span.Disjoint (s t : Span) : Prop := ∀ a, a ∈ s → a ∉ t

instance : HasSubset Span := ⟨fun s t => ∀ a, a ∈ s → a ∈ t⟩

theorem Span.subset_def {s t : Span} : s ⊆ t ↔ ∀ a, a ∈ s → a ∈ t := Iff.rfl

theorem Span.Disjoint.symm {s t : Span} (h : s.Disjoint t) : t.Disjoint s :=
  fun a ht hs => h a hs ht

theorem Span.Disjoint.mono {s s' t t' : Span} (h : s.Disjoint t) (hs : s' ⊆ s) (ht : t' ⊆ t) :
    s'.Disjoint t' :=
  fun a ha hb => h a (hs a ha) (ht a hb)

theorem Span.subset_refl (s : Span) : s ⊆ s := fun _ h => h

theorem Span.subset_trans {s t u : Span} (h : s ⊆ t) (h' : t ⊆ u) : s ⊆ u :=
  fun a ha => h' a (h a ha)

theorem Span.not_mem_zero (b a : Addr) : a ∉ (⟨b, 0⟩ : Span) := Nat.not_lt_zero _

/-! ## Offsets from a base -/

theorem toNat_ofNat_of_lt {i : Nat} (h : i < 2 ^ 32) : (UInt32.ofNat i).toNat = i := by
  rw [UInt32.toNat_ofNat', Nat.mod_eq_of_lt h]

@[simp] theorem off_off (b : Addr) (i j : Nat) :
    b + UInt32.ofNat i + UInt32.ofNat j = b + UInt32.ofNat (i + j) := by
  rw [UInt32.ofNat_add, UInt32.add_assoc]

theorem off_word (b : Addr) (i : Nat) (x : UInt32) :
    b + UInt32.ofNat i + x = b + UInt32.ofNat (i + x.toNat) := by
  rw [UInt32.ofNat_add, UInt32.ofNat_toNat, UInt32.add_assoc]

theorem off_word_left (b : Addr) (x : UInt32) (i : Nat) :
    b + x + UInt32.ofNat i = b + UInt32.ofNat (x.toNat + i) := by
  rw [UInt32.ofNat_add, UInt32.ofNat_toNat, UInt32.add_assoc]

@[simp] theorem off_zero (b : Addr) : b + UInt32.ofNat 0 = b := UInt32.add_zero b

@[simp] theorem off_sub (b : Addr) (x : UInt32) : b + x - b = x := by
  rw [UInt32.add_comm, UInt32.add_sub_cancel]

theorem off_distance (b a : Addr) : b + UInt32.ofNat (a - b).toNat = a := by
  rw [UInt32.ofNat_toNat, UInt32.add_comm, UInt32.sub_add_cancel]

theorem off_mem {b : Addr} {i n : Nat} (hi : i < n) (hn : n ≤ 2 ^ 32) :
    b + UInt32.ofNat i ∈ (⟨b, n⟩ : Span) := by
  rw [Span.mem_def, off_sub, toNat_ofNat_of_lt (by omega)]
  exact hi

theorem exists_off {b a : Addr} {n : Nat} (h : a ∈ (⟨b, n⟩ : Span)) :
    ∃ i, i < n ∧ a = b + UInt32.ofNat i :=
  ⟨_, h, (off_distance b a).symm⟩

theorem off_inj {b : Addr} {i j : Nat} (hi : i < 2 ^ 32) (hj : j < 2 ^ 32)
    (h : b + UInt32.ofNat i = b + UInt32.ofNat j) : i = j := by
  have h' := congrArg (fun a => (a - b).toNat) h
  simpa only [off_sub, toNat_ofNat_of_lt hi, toNat_ofNat_of_lt hj] using h'

theorem off_subset {b : Addr} {k n len : Nat} (h : k + n ≤ len) (hl : len ≤ 2 ^ 32) :
    (⟨b + UInt32.ofNat k, n⟩ : Span) ⊆ ⟨b, len⟩ := by
  intro a ha
  obtain ⟨i, hi, rfl⟩ := exists_off ha
  rw [off_off]
  exact off_mem (by omega) hl

theorem prefix_subset {b : Addr} {n len : Nat} (h : n ≤ len) : (⟨b, n⟩ : Span) ⊆ ⟨b, len⟩ :=
  fun _ ha => Nat.lt_of_lt_of_le ha h

/-- Two pieces of one region that do not overlap as offsets are disjoint. -/
theorem off_disjoint {b : Addr} {k n k' n' : Nat} (h : k + n ≤ k') (h' : k' + n' ≤ 2 ^ 32) :
    Span.Disjoint ⟨b + UInt32.ofNat k, n⟩ ⟨b + UInt32.ofNat k', n'⟩ := by
  intro a ha hb
  obtain ⟨i, hi, rfl⟩ := exists_off ha
  obtain ⟨j, hj, he⟩ := exists_off hb
  simp only [off_off] at he
  have hij := off_inj (by omega) (by omega) he
  omega

/-- A span that ends in front of another one. -/
theorem disjoint_of_le {s t : Span} (h : s.base.toNat + s.len ≤ t.base.toNat)
    (h' : t.base.toNat + t.len ≤ 2 ^ 32) : s.Disjoint t := by
  have hs := off_disjoint (b := 0) h h'
  rw [UInt32.ofNat_toNat, UInt32.ofNat_toNat, UInt32.zero_add, UInt32.zero_add] at hs
  exact hs

/-! ## Loads -/

def Mem.u16 (m : Mem) (p : Addr) : UInt16 :=
  UInt16.ofNat ((m p).toNat + 256 * (m (p + 1)).toNat)

def Mem.u32 (m : Mem) (p : Addr) : UInt32 :=
  UInt32.ofNat ((m p).toNat + 256 * (m (p + 1)).toNat + 65536 * (m (p + 2)).toNat +
    16777216 * (m (p + 3)).toNat)

/-- Two memories agree on a span. -/
def AgreeOn (s : Span) (m m' : Mem) : Prop := ∀ a, a ∈ s → m a = m' a

theorem AgreeOn.mono {s t : Span} {m m' : Mem} (h : AgreeOn t m m') (hs : s ⊆ t) : AgreeOn s m m' :=
  fun a ha => h a (hs a ha)

theorem AgreeOn.symm {s : Span} {m m' : Mem} (h : AgreeOn s m m') : AgreeOn s m' m :=
  fun a ha => (h a ha).symm

theorem AgreeOn.trans {s : Span} {m m' m'' : Mem} (h : AgreeOn s m m') (h' : AgreeOn s m' m'') :
    AgreeOn s m m'' :=
  fun a ha => (h a ha).trans (h' a ha)

/-- Words at two places are equal when their bytes are. -/
theorem u32_eq_of_bytes {m m' : Mem} {p q : Addr}
    (h : ∀ i, i < 4 → m (p + UInt32.ofNat i) = m' (q + UInt32.ofNat i)) : m.u32 p = m'.u32 q := by
  have h0 := h 0 (by decide)
  have h1 := h 1 (by decide)
  have h2 := h 2 (by decide)
  have h3 := h 3 (by decide)
  rw [off_zero, off_zero] at h0
  change m (p + 1) = m' (q + 1) at h1
  change m (p + 2) = m' (q + 2) at h2
  change m (p + 3) = m' (q + 3) at h3
  rw [Mem.u32, Mem.u32, h0, h1, h2, h3]

theorem u16_eq_of_bytes {m m' : Mem} {p q : Addr}
    (h : ∀ i, i < 2 → m (p + UInt32.ofNat i) = m' (q + UInt32.ofNat i)) : m.u16 p = m'.u16 q := by
  have h0 := h 0 (by decide)
  have h1 := h 1 (by decide)
  rw [off_zero, off_zero] at h0
  change m (p + 1) = m' (q + 1) at h1
  rw [Mem.u16, Mem.u16, h0, h1]

theorem AgreeOn.u32 {p : Addr} {m m' : Mem} (h : AgreeOn ⟨p, 4⟩ m m') : m.u32 p = m'.u32 p :=
  u32_eq_of_bytes fun _ hi => h _ (off_mem hi (by decide))

/-- The memory as seen from a distance. -/
def Mem.shift (m : Mem) (d : Addr) : Mem := fun a => m (a + d)

theorem shift_u32 (m : Mem) (d p : Addr) : (m.shift d).u32 p = m.u32 (p + d) :=
  u32_eq_of_bytes fun i _ => by
    rw [Mem.shift, add_right_comm]

/-! ## Stores -/

/-- Overwrite `n` bytes from `p` on. -/
def Mem.store (m : Mem) (p : Addr) (n : Nat) (bs : Nat → UInt8) : Mem :=
  fun a => if (a - p).toNat < n then bs (a - p).toNat else m a

theorem store_mem {m : Mem} {p a : Addr} {n : Nat} {bs : Nat → UInt8} (h : a ∈ (⟨p, n⟩ : Span)) :
    m.store p n bs a = bs (a - p).toNat := if_pos h

theorem store_notMem {m : Mem} {p a : Addr} {n : Nat} {bs : Nat → UInt8}
    (h : a ∉ (⟨p, n⟩ : Span)) : m.store p n bs a = m a := if_neg h

theorem store_off {m : Mem} {p : Addr} {n i : Nat} {bs : Nat → UInt8} (hi : i < n)
    (hn : n ≤ 2 ^ 32) : m.store p n bs (p + UInt32.ofNat i) = bs i := by
  rw [store_mem (off_mem hi hn), off_sub, toNat_ofNat_of_lt (by omega)]

theorem store_agree {m : Mem} {p : Addr} {n : Nat} {bs : Nat → UInt8} {s : Span}
    (h : s.Disjoint ⟨p, n⟩) : AgreeOn s m (m.store p n bs) :=
  fun a ha => (store_notMem (h a ha)).symm

/-- Byte `i` of a little-endian word. -/
def byteOf (v : UInt32) (i : Nat) : UInt8 := UInt8.ofNat (v.toNat / 256 ^ i)

def Mem.set32 (m : Mem) (p : Addr) (v : UInt32) : Mem := m.store p 4 (byteOf v)

def Mem.fill (m : Mem) (p : Addr) (n : Nat) (b : UInt8) : Mem := m.store p n fun _ => b

/-- `memcpy`: the source is read before the destination changes. -/
def Mem.copy (m : Mem) (dst src : Addr) (n : Nat) : Mem :=
  m.store dst n fun i => m (src + UInt32.ofNat i)

/-- Words laid out from `base` on, zeros elsewhere. -/
def Mem.ofWords (base : Addr) (ws : List UInt32) : Mem := fun a =>
  byteOf (ws.getD ((a - base).toNat / 4) 0) ((a - base).toNat % 4)

theorem byteOf_toNat (v : UInt32) (i : Nat) : (byteOf v i).toNat = v.toNat / 256 ^ i % 256 := by
  rw [byteOf, UInt8.toNat_ofNat']

theorem u32_set32_same (m : Mem) (p : Addr) (v : UInt32) : (m.set32 p v).u32 p = v := by
  have hb : ∀ i, i < 4 → m.set32 p v (p + UInt32.ofNat i) = byteOf v i :=
    fun i hi => store_off hi (by decide)
  have h0 := hb 0 (by decide)
  have h1 := hb 1 (by decide)
  have h2 := hb 2 (by decide)
  have h3 := hb 3 (by decide)
  rw [off_zero] at h0
  change m.set32 p v (p + 1) = _ at h1
  change m.set32 p v (p + 2) = _ at h2
  change m.set32 p v (p + 3) = _ at h3
  apply UInt32.toNat_inj.mp
  rw [Mem.u32, h0, h1, h2, h3, UInt32.toNat_ofNat']
  simp only [byteOf_toNat]
  have hv := v.toNat_lt
  omega

/-- A byte of a word is read back by its index. -/
theorem byteOf_u32 (m : Mem) (p : Addr) {i : Nat} (hi : i < 4) :
    byteOf (m.u32 p) i = m (p + UInt32.ofNat i) := by
  apply UInt8.toNat_inj.mp
  have h0 := (m p).toNat_lt
  have h1 := (m (p + 1)).toNat_lt
  have h2 := (m (p + 2)).toNat_lt
  have h3 := (m (p + 3)).toNat_lt
  rw [byteOf_toNat, Mem.u32, UInt32.toNat_ofNat']
  rcases i with _ | _ | _ | _ | i
  · rw [off_zero]
    omega
  · change _ = (m (p + 1)).toNat
    omega
  · change _ = (m (p + 2)).toNat
    omega
  · change _ = (m (p + 3)).toNat
    omega
  · omega

/-- Equal words have equal bytes. -/
theorem bytes_eq_of_u32 {m m' : Mem} {p q : Addr} (h : m.u32 p = m'.u32 q) {i : Nat}
    (hi : i < 4) : m (p + UInt32.ofNat i) = m' (q + UInt32.ofNat i) := by
  rw [← byteOf_u32 m p hi, h, byteOf_u32 m' q hi]

theorem set32_set32_same (m : Mem) (p : Addr) (v v' : UInt32) :
    (m.set32 p v).set32 p v' = m.set32 p v' := by
  funext a
  by_cases h : a ∈ (⟨p, 4⟩ : Span)
  · rw [Mem.set32, store_mem h, Mem.set32, store_mem h]
  · rw [Mem.set32, store_notMem h, Mem.set32, store_notMem h, Mem.set32, store_notMem h]

/-- A byte of a copy is the byte at the same distance in the source. -/
theorem copy_off {m : Mem} {dst src : Addr} {n i : Nat} (hi : i < n) (hn : n ≤ 2 ^ 32) :
    m.copy dst src n (dst + UInt32.ofNat i) = m (src + UInt32.ofNat i) := store_off hi hn

theorem copy_agree {m : Mem} {dst src : Addr} {n : Nat} {s : Span} (h : s.Disjoint ⟨dst, n⟩) :
    AgreeOn s m (m.copy dst src n) := store_agree h

theorem fill_agree {m : Mem} {p : Addr} {n : Nat} {b : UInt8} {s : Span} (h : s.Disjoint ⟨p, n⟩) :
    AgreeOn s m (m.fill p n b) := store_agree h

end Udynlink.Machine
