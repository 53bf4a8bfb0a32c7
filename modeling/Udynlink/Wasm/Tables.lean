import Mathlib

/-!
# Funcref and externref tables

A table is allocated for its maximum, and growing writes into what has been allocated. Sizes
are `uint32_t` and the product of an allocation is a `size_t` of `bits` bits; both wrap. The
entries of a table are numbered by natural numbers, so that a store past the buffer is a store
to an entry that is not there.
-/

namespace Udynlink.Wasm

/-- A block of the allocator, as entries. -/
structure TableBuffer (E : Type) where
  bytes : Nat
  entries : Nat → E

structure Table (E : Type) where
  data : Option (TableBuffer E)
  maxSize : UInt32
  size : UInt32

namespace Table

variable {E : Type}

def bytes (t : Table E) : Nat :=
  match t.data with
  | none => 0
  | some b => b.bytes

def slotAt (t : Table E) (k : Nat) : Option E := t.data.map fun b => b.entries k

/-- `data[idx] = e` -/
def store (t : Table E) (idx : UInt32) (e : E) : Table E :=
  { t with data := t.data.map fun b =>
    { b with entries := Function.update b.entries idx.toNat e } }

end Table

/-- `max_elements * sizeof(entry)` -/
def tableBytes (bits entrySize : Nat) (maxElements : UInt32) : Nat :=
  maxElements.toNat * entrySize % 2 ^ bits

/-- `block` is what the allocator answers, with whatever it holds; a table that cannot be
allocated traps. The second value is the number of bytes set to zero. -/
def allocateTable {E : Type} (bits entrySize : Nat) (null : E) (block : Option (Nat → E))
    (elements maxElements : UInt32) : Option (Table E × Nat) :=
  if maxElements = 0 then some (⟨none, 0, 0⟩, 0)
  else
    match block with
    | none => none
    | some old =>
      let bytes := tableBytes bits entrySize maxElements
      let zeroed := fun k => if (k + 1) * entrySize ≤ bytes then null else old k
      some (⟨some ⟨bytes, zeroed⟩, maxElements, elements⟩, bytes)

/-- The loop of a grow over `n` more entries from `i` on, and the entries it has stored to. -/
def fillLoop {E : Type} (init : E) : Nat → UInt32 → Table E → List Nat → Table E × List Nat
  | 0, _, t, writes => (t, writes)
  | n + 1, i, t, writes =>
    fillLoop init n (i + 1) (t.store (t.size + i) init) (writes ++ [(t.size + i).toNat])

structure Grown (E : Type) where
  answer : UInt32
  table : Table E
  writes : List Nat

def growTable {E : Type} (t : Table E) (delta : UInt32) (init : E) : Grown E :=
  if t.size + delta > t.maxSize then ⟨0xffffffff, t, []⟩
  else
    let r := fillLoop init delta.toNat 0 t []
    let t' := { r.1 with size := r.1.size + delta }
    ⟨t'.size - delta, t', r.2⟩

/-! ## The two kinds of table -/

/-- A pointer fills a `size_t`. -/
def pointerSize (bits : Nat) : Nat := bits / 8

structure Funcref (P : Type) where
  funcType : P
  func : P
  funcTailcallee : P
  moduleInstance : P

def sizeofFuncref (bits : Nat) : Nat := 4 * pointerSize bits

abbrev Externref (P : Type) := P

def sizeofExternref (bits : Nat) : Nat := pointerSize bits

section

variable {P : Type} [Zero P]

def wasmRtAllocateFuncrefTable (bits : Nat) (block : Option (Nat → Funcref P))
    (elements maxElements : UInt32) : Option (Table (Funcref P) × Nat) :=
  allocateTable bits (sizeofFuncref bits) ⟨0, 0, 0, 0⟩ block elements maxElements

def wasmRtAllocateExternrefTable (bits : Nat) (block : Option (Nat → Externref P))
    (elements maxElements : UInt32) : Option (Table (Externref P) × Nat) :=
  allocateTable bits (sizeofExternref bits) 0 block elements maxElements

omit [Zero P] in
def wasmRtGrowFuncrefTable (t : Table (Funcref P)) (delta : UInt32) (init : Funcref P) :
    Grown (Funcref P) := growTable t delta init

omit [Zero P] in
def wasmRtGrowExternrefTable (t : Table (Externref P)) (delta : UInt32) (init : Externref P) :
    Grown (Externref P) := growTable t delta init

end

/-! ## One grow -/

section

variable {E : Type} {entrySize : Nat} {t : Table E} {delta : UInt32} {init : E} {n : Nat}
  {i : UInt32} {writes : List Nat}

/-- A grow appends `delta` entries or changes nothing, and stores inside the buffer. -/
structure GrownRight (entrySize : Nat) (t : Table E) (delta : UInt32) (init : E)
    (r : Grown E) : Prop where
  outcome : (r.answer = t.size ∧ r.table.size.toNat = t.size.toNat + delta.toNat ∧
      r.table.maxSize = t.maxSize ∧ (∀ k, k < t.size.toNat → r.table.slotAt k = t.slotAt k) ∧
      ∀ k, t.size.toNat ≤ k → k < r.table.size.toNat → r.table.slotAt k = some init) ∨
    (r.answer = 0xffffffff ∧ r.table = t)
  inside : ∀ k ∈ r.writes, (k + 1) * entrySize ≤ t.bytes ∧ k < t.maxSize.toNat

/-- A delta that passes the check neither wraps nor leads out of the buffer. -/
def GrowFits (entrySize : Nat) (t : Table E) (delta : UInt32) : Prop :=
  t.size + delta ≤ t.maxSize → t.size.toNat + delta.toNat < 2 ^ 32 ∧
    (delta = 0 ∨ (t.size.toNat + delta.toNat) * entrySize ≤ t.bytes)

theorem fillLoop_fields : (fillLoop init n i t writes).1.size = t.size ∧
    (fillLoop init n i t writes).1.maxSize = t.maxSize ∧
    (fillLoop init n i t writes).1.bytes = t.bytes := by
  induction n generalizing i t writes with
  | zero => exact ⟨rfl, rfl, rfl⟩
  | succ n ih =>
    obtain ⟨hsize, hmax, hbytes⟩ := @ih (t.store (t.size + i) init) (i + 1)
      (writes ++ [(t.size + i).toNat])
    refine ⟨hsize, hmax, hbytes.trans ?_⟩
    unfold Table.bytes Table.store
    cases t.data with
    | none => rfl
    | some b => rfl

theorem fillLoop_writes (k : Nat) : k ∈ (fillLoop init n i t writes).2 ↔
    k ∈ writes ∨ ∃ j, j < n ∧ k = (t.size + (i + UInt32.ofNat j)).toNat := by
  induction n generalizing i t writes with
  | zero => simp [fillLoop]
  | succ n ih =>
    rw [fillLoop, ih, List.mem_append, List.mem_singleton, or_assoc]
    refine or_congr_right ⟨?_, ?_⟩
    · rintro (rfl | ⟨j, hj, rfl⟩)
      · exact ⟨0, Nat.succ_pos n, by simp⟩
      · refine ⟨j + 1, Nat.succ_lt_succ hj, ?_⟩
        rw [show (t.store (t.size + i) init).size = t.size from rfl, UInt32.ofNat_add, UInt32.add_assoc i,
          UInt32.add_comm 1]
        rfl
    · rintro ⟨j, hj, rfl⟩
      cases j with
      | zero => exact Or.inl (by simp)
      | succ j =>
        refine Or.inr ⟨j, Nat.lt_of_succ_lt_succ hj, ?_⟩
        rw [show (t.store (t.size + i) init).size = t.size from rfl, UInt32.ofNat_add, UInt32.add_assoc i,
          UInt32.add_comm 1]
        rfl

theorem Table.slotAt_store (idx : UInt32) (e : E) (k : Nat) : (t.store idx e).slotAt k =
    if k = idx.toNat then (t.slotAt k).map fun _ => e else t.slotAt k := by
  unfold Table.slotAt Table.store
  cases t.data with
  | none => simp
  | some b =>
    simp only [Option.map_some, Function.update_apply]
    split
    · rfl
    · rfl

/-- As long as no index wraps, the entries stored to follow one another. -/
theorem fillLoop_entry (hn : t.size.toNat + i.toNat + n ≤ 2 ^ 32) (k : Nat) :
    (fillLoop init n i t writes).1.slotAt k =
      if t.size.toNat + i.toNat ≤ k ∧ k < t.size.toNat + i.toNat + n then
        (t.slotAt k).map fun _ => init
      else t.slotAt k := by
  induction n generalizing i t writes with
  | zero =>
    rw [if_neg (by omega)]
    rfl
  | succ n ih =>
    have hidx : (t.size + i).toNat = t.size.toNat + i.toNat := by
      rw [UInt32.toNat_add, Nat.mod_eq_of_lt (by omega)]
    rw [fillLoop]
    rcases Nat.eq_zero_or_pos n with rfl | hpos
    · rw [fillLoop, Table.slotAt_store, hidx]
      refine if_congr ?_ rfl rfl
      omega
    · have hnext : (i + 1).toNat = i.toNat + 1 := by
        rw [UInt32.toNat_add, UInt32.toNat_one, Nat.mod_eq_of_lt (by omega)]
      have hsize : (t.store (t.size + i) init).size = t.size := rfl
      rw [ih (by rw [hsize, hnext]; omega), hsize, hnext, Table.slotAt_store, hidx]
      by_cases hfirst : k = t.size.toNat + i.toNat
      · rw [if_neg (by omega), if_pos hfirst, if_pos (by omega)]
      · rw [if_neg hfirst]
        refine if_congr ?_ rfl rfl
        omega

theorem grow_refused (h : ¬ t.size + delta ≤ t.maxSize) :
    growTable t delta init = ⟨0xffffffff, t, []⟩ :=
  if_pos (UInt32.not_le.mp h)

theorem grow_answer (h : t.size + delta ≤ t.maxSize) :
    (growTable t delta init).answer = t.size := by
  unfold growTable
  rw [if_neg (UInt32.not_lt.mpr h)]
  dsimp only
  rw [fillLoop_fields.1, UInt32.add_sub_cancel]

theorem grow_size (h : t.size + delta ≤ t.maxSize) :
    (growTable t delta init).table.size = t.size + delta := by
  unfold growTable
  rw [if_neg (UInt32.not_lt.mpr h)]
  dsimp only
  rw [fillLoop_fields.1]

theorem grow_maxSize : (growTable t delta init).table.maxSize = t.maxSize := by
  unfold growTable
  split
  · rfl
  · exact fillLoop_fields.2.1

theorem grow_entry (h : t.size + delta ≤ t.maxSize) (hwrap : t.size.toNat + delta.toNat < 2 ^ 32)
    (k : Nat) : (growTable t delta init).table.slotAt k =
      if t.size.toNat ≤ k ∧ k < t.size.toNat + delta.toNat then (t.slotAt k).map fun _ => init
      else t.slotAt k := by
  unfold growTable
  rw [if_neg (UInt32.not_lt.mpr h)]
  have hentry := @fillLoop_entry E t init delta.toNat 0 [] (by simp; omega) k
  simp only [UInt32.toNat_zero, Nat.add_zero] at hentry
  exact hentry

theorem grow_writes (h : t.size + delta ≤ t.maxSize) (k : Nat) :
    k ∈ (growTable t delta init).writes ↔
      ∃ j, j < delta.toNat ∧ k = (t.size + UInt32.ofNat j).toNat := by
  unfold growTable
  rw [if_neg (UInt32.not_lt.mpr h)]
  dsimp only
  rw [fillLoop_writes]
  simp

/-- A grow is right exactly when its delta fits. -/
theorem grownRight_iff (hsize : 0 < entrySize) :
    GrownRight entrySize t delta init (growTable t delta init) ↔ GrowFits entrySize t delta := by
  by_cases hle : t.size + delta ≤ t.maxSize
  · constructor
    · intro hr _
      have hwrap : t.size.toNat + delta.toNat < 2 ^ 32 := by
        rcases hr.outcome with ⟨-, hgrown, -⟩ | ⟨-, hsame⟩
        · rw [← hgrown]
          exact UInt32.toNat_lt _
        · have hs := congrArg Table.size hsame
          rw [grow_size hle] at hs
          have hzero : delta = 0 := by simpa using hs
          rw [hzero]
          exact t.size.toNat_lt
      refine ⟨hwrap, ?_⟩
      by_cases hzero : delta = 0
      · exact Or.inl hzero
      · -- the last entry is stored to
        have hpos : 0 < delta.toNat := Nat.pos_of_ne_zero fun h => hzero (UInt32.toNat_inj.mp h)
        have hlast : (t.size + UInt32.ofNat (delta.toNat - 1)).toNat =
            t.size.toNat + delta.toNat - 1 := by
          rw [UInt32.toNat_add, UInt32.toNat_ofNat_of_lt' (by
            have hd := delta.toNat_lt_size
            omega), Nat.mod_eq_of_lt (by omega)]
          omega
        obtain ⟨hin, -⟩ := hr.inside _ ((grow_writes hle _).mpr ⟨delta.toNat - 1, by omega, rfl⟩)
        rw [hlast] at hin
        refine Or.inr ?_
        rw [show t.size.toNat + delta.toNat = t.size.toNat + delta.toNat - 1 + 1 by omega]
        exact hin
    · intro hfit
      obtain ⟨hwrap, hbytes⟩ := hfit hle
      have hsum : (t.size + delta).toNat = t.size.toNat + delta.toNat := by
        rw [UInt32.toNat_add, Nat.mod_eq_of_lt hwrap]
      have hmax : t.size.toNat + delta.toNat ≤ t.maxSize.toNat := by
        rw [← hsum]
        exact UInt32.le_iff_toNat_le.mp hle
      refine ⟨Or.inl ⟨grow_answer hle, ?_, grow_maxSize, fun k hk => ?_, fun k hk hlt => ?_⟩,
        fun k hk => ?_⟩
      · rw [grow_size hle, hsum]
      · rw [grow_entry hle hwrap, if_neg (by omega)]
      · rw [grow_size hle, hsum] at hlt
        rw [grow_entry hle hwrap, if_pos ⟨hk, hlt⟩]
        rcases hbytes with rfl | hbytes
        · rw [UInt32.toNat_zero] at hlt
          omega
        · unfold Table.slotAt
          cases hd : t.data with
          | none =>
            have hnone : t.bytes = 0 := by rw [Table.bytes, hd]
            rw [hnone] at hbytes
            have hpos : 0 < (t.size.toNat + delta.toNat) * entrySize :=
              Nat.mul_pos (by omega) hsize
            omega
          | some b => rfl
      · obtain ⟨j, hj, rfl⟩ := (grow_writes hle k).mp hk
        have hidx : (t.size + UInt32.ofNat j).toNat = t.size.toNat + j := by
          rw [UInt32.toNat_add, UInt32.toNat_ofNat_of_lt' (by
            have hd := delta.toNat_lt_size
            omega), Nat.mod_eq_of_lt (by omega)]
        rw [hidx]
        refine ⟨?_, by omega⟩
        rcases hbytes with rfl | hbytes
        · rw [UInt32.toNat_zero] at hj
          omega
        · exact Nat.le_trans (Nat.mul_le_mul_right entrySize (by omega)) hbytes
  · rw [grow_refused hle]
    exact iff_of_true ⟨Or.inr ⟨rfl, rfl⟩, fun k hk => absurd hk List.not_mem_nil⟩
      fun h => absurd h hle

/-! ## Runs -/

/-- Every grow of a run, from the table it finds. -/
def GrowsRight (entrySize : Nat) (grow : Table E → UInt32 → E → Grown E) :
    Table E → List (UInt32 × E) → Prop
  | _, [] => True
  | t, op :: ops => GrownRight entrySize t op.1 op.2 (grow t op.1 op.2) ∧
    GrowsRight entrySize grow (grow t op.1 op.2).table ops

def GrowsFit (entrySize : Nat) (grow : Table E → UInt32 → E → Grown E) :
    Table E → List (UInt32 × E) → Prop
  | _, [] => True
  | t, op :: ops => GrowFits entrySize t op.1 ∧
    GrowsFit entrySize grow (grow t op.1 op.2).table ops

theorem growsRight_iff (hsize : 0 < entrySize) (ops : List (UInt32 × E)) :
    GrowsRight entrySize growTable t ops ↔ GrowsFit entrySize growTable t ops := by
  induction ops generalizing t with
  | nil => exact Iff.rfl
  | cons op ops ih => exact and_congr (grownRight_iff hsize) ih

/-- An allocation sets the whole buffer to zero, and no byte past the entries. -/
theorem allocateTable_zeroed {bits : Nat} {null : E} {block : Option (Nat → E)}
    {elements maxElements : UInt32} {zeroed : Nat}
    (h : allocateTable bits entrySize null block elements maxElements = some (t, zeroed)) :
    zeroed ≤ t.bytes ∧ zeroed ≤ t.maxSize.toNat * entrySize := by
  unfold allocateTable at h
  split at h
  · obtain ⟨rfl, rfl⟩ := Prod.mk.inj (Option.some.inj h)
    exact ⟨Nat.zero_le _, Nat.zero_le _⟩
  · split at h
    · cases h
    · obtain ⟨rfl, rfl⟩ := Prod.mk.inj (Option.some.inj h)
      exact ⟨Nat.le_refl _, Nat.mod_le _ _⟩

/-- A table as it was allocated, with every grow after it. -/
structure TableRight (entrySize : Nat) (grow : Table E → UInt32 → E → Grown E)
    (allocated : Table E × Nat) (ops : List (UInt32 × E)) : Prop where
  zeroed : allocated.2 ≤ allocated.1.bytes ∧
    allocated.2 ≤ allocated.1.maxSize.toNat * entrySize
  grows : GrowsRight entrySize grow allocated.1 ops

theorem tableRight_iff {bits : Nat} {null : E} {block : Option (Nat → E)}
    {elements maxElements : UInt32} {allocated : Table E × Nat} (hsize : 0 < entrySize)
    (h : allocateTable bits entrySize null block elements maxElements = some allocated)
    (ops : List (UInt32 × E)) : TableRight entrySize growTable allocated ops ↔
      GrowsFit entrySize growTable allocated.1 ops := by
  constructor
  · intro hr
    exact (growsRight_iff hsize ops).mp hr.grows
  · intro hf
    exact ⟨allocateTable_zeroed h, (growsRight_iff hsize ops).mpr hf⟩

end

section

variable {P : Type} [Zero P] {bits : Nat} {elements maxElements : UInt32}

theorem pointerSize_pos (hbits : bits = 32 ∨ bits = 64) : 0 < pointerSize bits := by
  rcases hbits with rfl | rfl
  · decide
  · decide

/-- Tables of both kinds grow right exactly in the runs whose deltas fit. -/
theorem tables_right_iff (hbits : bits = 32 ∨ bits = 64) :
    (∀ block (allocated : Table (Funcref P) × Nat) ops,
      wasmRtAllocateFuncrefTable bits block elements maxElements = some allocated →
        (TableRight (sizeofFuncref bits) wasmRtGrowFuncrefTable allocated ops ↔
          GrowsFit (sizeofFuncref bits) wasmRtGrowFuncrefTable allocated.1 ops)) ∧
    ∀ block (allocated : Table (Externref P) × Nat) ops,
      wasmRtAllocateExternrefTable bits block elements maxElements = some allocated →
        (TableRight (sizeofExternref bits) wasmRtGrowExternrefTable allocated ops ↔
          GrowsFit (sizeofExternref bits) wasmRtGrowExternrefTable allocated.1 ops) := by
  have hpos := pointerSize_pos hbits
  refine ⟨fun block allocated ops h => ?_, fun block allocated ops h => ?_⟩
  · exact tableRight_iff (Nat.mul_pos (by decide) hpos) h ops
  · exact tableRight_iff hpos h ops

end

/-- One null entry of ten, allocated on a 32-bit target. -/
def oneOfTen : Table (Externref UInt32) := ⟨some ⟨40, fun _ => 0⟩, 10, 1⟩

theorem oneOfTen_allocated :
    (wasmRtAllocateExternrefTable 32 (some fun _ => (0 : UInt32)) 1 10) =
      some (oneOfTen, 40) := by
  unfold wasmRtAllocateExternrefTable allocateTable oneOfTen
  rw [if_neg (by decide)]
  simp only [ite_self]
  rfl

theorem tables_right_iff_oneOfTen :
    TableRight (sizeofExternref 32) wasmRtGrowExternrefTable (oneOfTen, 40) [(9, 7)] ↔
      GrowsFit (sizeofExternref 32) wasmRtGrowExternrefTable oneOfTen [(9, 7)] :=
  (tables_right_iff (P := UInt32) (Or.inl rfl)).2 _ _ _ oneOfTen_allocated

/-- The sum of size and delta is 0, which is below every maximum. -/
theorem grow_wraps :
    ¬ TableRight (sizeofExternref 32) wasmRtGrowExternrefTable (oneOfTen, 40)
      [(0xffffffff, (0 : UInt32))] := by
  intro h
  have hfit := (grownRight_iff (by decide)).mp h.grows.1
  exact absurd (hfit (by decide)).1 (by decide)

end Udynlink.Wasm
