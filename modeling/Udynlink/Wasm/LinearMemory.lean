import Mathlib

/-!
# Linear memory of a wasm2c module

The three builds of the runtime: a buffer in `.bss`, a buffer the host has registered, and
buffers from the allocator. Page counts are `uint64_t` and sizes in bytes `size_t`, and every
operation of the source on them is followed here with its reduction. What the module has
stored since the last allocation is kept beside the state.
-/

namespace Udynlink.Wasm

inductive Variant where
  | static (initialPages : Nat)
  | external (capacity : Option Nat)
  | dynamic

/-- Width of `size_t`, `WASM_RT_PAGE_SIZE` and the build. The size of the static buffer is a
constant of type `int`; a registered capacity is a `size_t`, and no buffer is `none`. -/
structure Config where
  bits : Nat
  pageSize : Nat
  variant : Variant
  width : bits = 32 ∨ bits = 64
  page : 0 < pageSize ∧ pageSize < 2 ^ 31
  buffer : match variant with
    | .static initialPages => initialPages * pageSize < 2 ^ 31
    | .external (some capacity) => capacity < 2 ^ bits
    | _ => True

inductive Ptr where
  | static
  | host
  | block (n : Nat)
deriving DecidableEq

/-- Buffers and what they hold; the allocator has handed out the blocks below `next`. -/
structure Heap where
  bytes : Ptr → Nat
  live : Ptr → Bool
  content : Ptr → Nat → UInt8
  next : Nat
  frees : List Ptr

namespace Heap

/-- The answer of the allocator is NULL, or a block with whatever it holds. -/
def malloc (h : Heap) (size : Nat) : Option (Nat → UInt8) → Option Ptr × Heap
  | none => (none, h)
  | some old =>
    (some (.block h.next),
      { bytes := Function.update h.bytes (.block h.next) size
        live := Function.update h.live (.block h.next) true
        content := Function.update h.content (.block h.next) old
        next := h.next + 1
        frees := h.frees })

def free (h : Heap) (p : Ptr) : Heap :=
  { h with live := Function.update h.live p false, frees := p :: h.frees }

def copy (h : Heap) (dst src : Ptr) (n : Nat) : Heap :=
  { h with content := Function.update h.content dst fun k =>
      if k < n then h.content src k else h.content dst k }

def store (h : Heap) (p : Ptr) (k : Nat) (v : UInt8) : Heap :=
  { h with content := Function.update h.content p (Function.update (h.content p) k v) }

end Heap

/-- `wasm_rt_memory_t` -/
structure Memory where
  data : Option Ptr
  pages : Nat
  maxPages : Nat
  size : Nat
  is64 : Bool

/-- The memory is `freed` when it has been given back, or not been allocated yet. -/
structure MemState where
  mem : Memory
  heap : Heap
  freed : Bool
  stored : Nat → Option UInt8

namespace Config

variable (cfg : Config)

/-- `page_size` as the source has it, in a `size_t`. -/
def codePage (is64 : Bool) : Nat := if is64 then 2 ^ 48 % 2 ^ cfg.bits else cfg.pageSize

/-- Bytes of a page. -/
def wasmPage (is64 : Bool) : Nat := if is64 then 2 ^ 48 else cfg.pageSize

/-- `(size_t)(pages * page_size)` -/
def byteCount (is64 : Bool) (pages : Nat) : Nat :=
  pages * cfg.codePage is64 % 2 ^ 64 % 2 ^ cfg.bits

end Config

/-- Nothing has been allocated, `.bss` is zero, and the host's buffer holds anything. -/
def MemState.boot (cfg : Config) (host : Nat → UInt8) : MemState where
  mem := ⟨none, 0, 0, 0, false⟩
  heap :=
    { bytes := fun p => match p, cfg.variant with
        | .static, .static initialPages => initialPages * cfg.pageSize
        | .host, .external (some capacity) => capacity
        | _, _ => 0
      live := fun p => match p with
        | .block _ => false
        | _ => true
      content := fun p => match p with
        | .host => host
        | _ => fun _ => 0
      next := 0
      frees := [] }
  freed := true
  stored := fun _ => none

/-- A memory that the module has not stored to yet. -/
def MemState.fresh (mem : Memory) (heap : Heap) : MemState := ⟨mem, heap, false, fun _ => none⟩

/-- `answer` is what the allocator answers when it is asked. A trap does not return, and
neither does the division by a page size that is 0. -/
def wasmRtAllocateMemory (cfg : Config) (s : MemState) (initialPages maxPages : UInt64)
    (is64 : Bool) (answer : Option (Nat → UInt8)) : Option MemState :=
  let need := cfg.byteCount is64 initialPages.toNat
  match cfg.variant with
  | .static pages =>
    some (.fresh ⟨some .static, pages, pages, pages * cfg.pageSize, is64⟩ s.heap)
  | .external none => none
  | .external (some capacity) =>
    if capacity < need then none
    else if cfg.codePage is64 = 0 then none
    else
      let capacityPages := capacity / cfg.codePage is64
      let maxPages := if maxPages.toNat < capacityPages then maxPages.toNat else capacityPages
      some (.fresh ⟨some .host, initialPages.toNat, maxPages, need, is64⟩ s.heap)
  | .dynamic =>
    match s.heap.malloc need answer with
    | (none, heap) =>
      if need ≠ 0 then none
      else some (.fresh ⟨none, initialPages.toNat, maxPages.toNat, need, is64⟩ heap)
    | (some p, heap) =>
      some (.fresh ⟨some p, initialPages.toNat, maxPages.toNat, need, is64⟩ heap)

def wasmRtMemRealloc (h : Heap) (p : Option Ptr) (oldSize newSize : Nat)
    (answer : Option (Nat → UInt8)) : Option Ptr × Heap :=
  if newSize = 0 then
    match p with
    | some p => (none, h.free p)
    | none => (none, h)
  else
    match h.malloc newSize answer, p with
    | (none, h), _ => (none, h)
    | (some np, h), some p =>
      (some np, (h.copy np p (if oldSize < newSize then oldSize else newSize)).free p)
    | (some np, h), none => (some np, h)

/-- The size a grow asks the allocator for. -/
def growSize (cfg : Config) (mem : Memory) (pages : UInt64) : Nat :=
  (mem.size % 2 ^ cfg.bits + cfg.byteCount mem.is64 pages.toNat) % 2 ^ cfg.bits

/-- A static build takes the dynamic path when the check lets it pass. -/
def wasmRtGrowMemory (cfg : Config) (s : MemState) (pages : UInt64)
    (answer : Option (Nat → UInt8)) : Nat × MemState :=
  let sum := (s.mem.pages + pages.toNat) % 2 ^ 64
  if sum > s.mem.maxPages then (0xffffffff, s)
  else
    match cfg.variant with
    | .external _ =>
      (s.mem.pages, { s with mem := { s.mem with
        pages := sum
        size := cfg.byteCount s.mem.is64 sum } })
    | _ =>
      let oldSize := s.mem.size % 2 ^ cfg.bits
      let newSize := growSize cfg s.mem pages
      match wasmRtMemRealloc s.heap s.mem.data oldSize newSize answer with
      | (none, heap) => (0xffffffff, { s with heap })
      | (some p, heap) =>
        (s.mem.pages, { s with
          mem := { s.mem with data := some p, pages := sum, size := newSize }
          heap
          freed := false })

def wasmRtFreeMemory (cfg : Config) (s : MemState) : MemState :=
  match cfg.variant, s.mem.data with
  | .dynamic, some p =>
    { s with mem := { s.mem with data := none }, heap := s.heap.free p, freed := true }
  | _, _ => s

/-- A store of the module, behind its bounds check. -/
def moduleStore (s : MemState) (k : Nat) (v : UInt8) : MemState :=
  if k < s.mem.size then
    match s.mem.data with
    | some p => { s with heap := s.heap.store p k v, stored := Function.update s.stored k (some v) }
    | none => s
  else s

inductive MemOp where
  | allocate (initialPages maxPages : UInt64) (is64 : Bool) (answer : Option (Nat → UInt8))
  | grow (pages : UInt64) (answer : Option (Nat → UInt8))
  | free
  | store (k : Nat) (v : UInt8)

/-- One call; none when it does not return. -/
def memStep (cfg : Config) (s : MemState) : MemOp → Option MemState
  | .allocate initialPages maxPages is64 answer =>
    wasmRtAllocateMemory cfg s initialPages maxPages is64 answer
  | .grow pages answer => some (wasmRtGrowMemory cfg s pages answer).2
  | .free => some (wasmRtFreeMemory cfg s)
  | .store k v => some (moduleStore s k v)

/-- `good` holds of every call of the run that returns, and of the state it is made in. -/
def AlongRun (cfg : Config) (good : MemState → MemOp → MemState → Prop) :
    MemState → List MemOp → Prop
  | _, [] => True
  | s, op :: ops => ∀ s', memStep cfg s op = some s' → good s op s' ∧ AlongRun cfg good s' ops

section

variable {cfg : Config} {inv : MemState → Prop} {s : MemState}
  {good fits : MemState → MemOp → MemState → Prop}

/-- What is right exactly when the call fits, and keeps what that rests on, is right along a
run exactly when every call of the run fits. -/
theorem alongRun_iff
    (hiff : ∀ s op s', inv s → memStep cfg s op = some s' → (good s op s' ↔ fits s op s'))
    (hkeep : ∀ s op s', inv s → memStep cfg s op = some s' → good s op s' → inv s')
    (ops : List MemOp) (hs : inv s) : AlongRun cfg good s ops ↔ AlongRun cfg fits s ops := by
  induction ops generalizing s with
  | nil => exact Iff.rfl
  | cons op ops ih =>
    refine forall_congr' fun s' => forall_congr' fun hstep => ?_
    rw [← hiff s op s' hs hstep]
    exact and_congr_right fun hgood => ih (hkeep s op s' hs hstep hgood)

end

/-! ## Bytes of pages -/

section

variable (cfg : Config) {is64 : Bool} {pages : Nat}

theorem wasmPage_pos (is64 : Bool) : 0 < cfg.wasmPage is64 := by
  unfold Config.wasmPage
  split
  · decide
  · exact cfg.page.1

theorem bits_le : 2 ^ cfg.bits ≤ 2 ^ 64 := by
  rcases cfg.width with h | h
  · rw [h]
    decide
  · rw [h]

theorem int_lt_bits : 2 ^ 31 < 2 ^ cfg.bits := by
  rcases cfg.width with h | h
  · rw [h]
    decide
  · rw [h]
    decide

/-- A page size that is not 0 is the right one. -/
theorem codePage_eq (h : cfg.codePage is64 ≠ 0) : cfg.codePage is64 = cfg.wasmPage is64 := by
  unfold Config.codePage Config.wasmPage at *
  cases is64 with
  | false => rfl
  | true =>
    rw [if_pos rfl] at h ⊢
    rw [if_pos rfl]
    rcases cfg.width with hw | hw
    · rw [hw] at h
      exact absurd (by decide) h
    · rw [hw]
      decide

theorem byteCount_lt : cfg.byteCount is64 pages < 2 ^ cfg.bits :=
  Nat.mod_lt _ (Nat.two_pow_pos _)

/-- What fits into a `size_t` is computed exactly, also where the page size does not. -/
theorem byteCount_eq (h : pages * cfg.wasmPage is64 < 2 ^ cfg.bits) :
    cfg.byteCount is64 pages = pages * cfg.wasmPage is64 := by
  unfold Config.byteCount
  by_cases hz : cfg.codePage is64 = 0
  · -- only 64-bit pages on a 32-bit target
    have hpages : pages = 0 := by
      unfold Config.codePage at hz
      cases is64 with
      | false => exact absurd hz (Nat.pos_iff_ne_zero.mp cfg.page.1)
      | true =>
        rcases cfg.width with hw | hw
        · rw [hw, Config.wasmPage, if_pos rfl] at h
          omega
        · rw [hw, if_pos rfl] at hz
          exact absurd hz (by decide)
    rw [hpages, Nat.zero_mul, Nat.zero_mul, Nat.zero_mod, Nat.zero_mod]
  · rw [codePage_eq cfg hz, Nat.mod_eq_of_lt (Nat.lt_of_lt_of_le h (bits_le cfg)),
      Nat.mod_eq_of_lt h]

end

end Udynlink.Wasm
