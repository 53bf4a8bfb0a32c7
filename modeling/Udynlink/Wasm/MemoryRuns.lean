import Udynlink.Wasm.LinearMemory

/-!
# The bounds of linear memory over a run

Every bounds check of the module relies on `size`. A call keeps page count, size and buffer
together exactly when its numbers fit, and what "fit" means is read off the calls one by one.
-/

namespace Udynlink.Wasm

/-- The page count is below the maximum, the size is that of the pages, the buffer is there and
holds them, and nothing but blocks of the allocator has been freed. -/
structure MemoryOk (cfg : Config) (s : MemState) : Prop where
  pages : s.mem.pages ≤ s.mem.maxPages
  size : s.mem.size = s.mem.pages * cfg.wasmPage s.mem.is64
  buffer : match s.mem.data with
    | some p => s.heap.live p = true ∧ s.mem.size ≤ s.heap.bytes p
    | none => s.freed = true ∨ s.mem.size = 0
  frees : ∀ p ∈ s.heap.frees, ∃ n, p = .block n ∧ n < s.heap.next

/-- A grow fails and changes nothing, or returns the old page count and adds the pages; by 0
it does not fail. -/
structure GrowRight (s : MemState) (pages : UInt64) (answer : Nat) (s' : MemState) : Prop where
  outcome : (answer = 0xffffffff ∧ s'.mem = s.mem ∧
      ∀ p, s.mem.data = some p → s'.heap.live p = s.heap.live p) ∨
    (answer = s.mem.pages ∧ s'.mem.pages = s.mem.pages + pages.toNat ∧ s.mem.size ≤ s'.mem.size)
  zero : pages = 0 → answer = s.mem.pages ∧ s'.mem.pages = s.mem.pages

def CallRight (cfg : Config) (s : MemState) (op : MemOp) (s' : MemState) : Prop :=
  MemoryOk cfg s' ∧ match op with
    | .grow pages answer => GrowRight s pages (wasmRtGrowMemory cfg s pages answer).1 s'
    | _ => True

/-- The initial pages are below the maximum and their bytes below `SIZE_MAX`; in a static
build, where both are constants, pages are not those of a 64-bit memory. -/
def AllocateFits (cfg : Config) (initialPages maxPages : UInt64) (is64 : Bool) : Prop :=
  match cfg.variant with
  | .static pages => is64 = false ∨ pages = 0
  | _ => initialPages.toNat ≤ maxPages.toNat ∧
    initialPages.toNat * cfg.wasmPage is64 < 2 ^ cfg.bits

/-- A grow that passes the check: the page count does not wrap, and on the path of the
allocator neither does the size; that path is not taken for the empty size, nor in a static
build but to be refused, and it fails for no delta of 0. -/
def MemGrowFits (cfg : Config) (s : MemState) (pages : UInt64) (answer : Option (Nat → UInt8)) :
    Prop :=
  (s.mem.pages + pages.toNat) % 2 ^ 64 ≤ s.mem.maxPages →
    match cfg.variant with
    | .external _ => s.mem.pages + pages.toNat < 2 ^ 64
    | _ =>
      if growSize cfg s.mem pages = 0 then s.mem.data = none ∧ pages ≠ 0
      else match answer with
        | none => pages ≠ 0 ∨ s.mem.pages = 0xffffffff
        | some _ => (match cfg.variant with
            | .dynamic => True
            | _ => False) ∧ s.mem.pages + pages.toNat < 2 ^ 64 ∧
          (s.mem.pages + pages.toNat) * cfg.wasmPage s.mem.is64 < 2 ^ cfg.bits

def CallFits (cfg : Config) (s : MemState) (op : MemOp) (_ : MemState) : Prop :=
  match op with
  | .allocate initialPages maxPages is64 _ => AllocateFits cfg initialPages maxPages is64
  | .grow pages answer => MemGrowFits cfg s pages answer
  | _ => True

/-! ## What a grow can do -/

/-- The cases of a grow, with what it finds. -/
inductive GrowCase (cfg : Config) (s : MemState) (pages : UInt64)
    (answer : Option (Nat → UInt8)) : Nat × MemState → Prop
  | refused (h : s.mem.maxPages < (s.mem.pages + pages.toNat) % 2 ^ 64) :
    GrowCase cfg s pages answer (0xffffffff, s)
  | external (capacity : Option Nat) (hv : cfg.variant = .external capacity)
    (h : (s.mem.pages + pages.toNat) % 2 ^ 64 ≤ s.mem.maxPages) :
    GrowCase cfg s pages answer (s.mem.pages, { s with mem := { s.mem with
      pages := (s.mem.pages + pages.toNat) % 2 ^ 64
      size := cfg.byteCount s.mem.is64 ((s.mem.pages + pages.toNat) % 2 ^ 64) } })
  | empty (hv : ∀ capacity, cfg.variant ≠ .external capacity)
    (h : (s.mem.pages + pages.toNat) % 2 ^ 64 ≤ s.mem.maxPages)
    (hz : growSize cfg s.mem pages = 0) (hd : s.mem.data = none) :
    GrowCase cfg s pages answer (0xffffffff, s)
  | dropped (p : Ptr) (hv : ∀ capacity, cfg.variant ≠ .external capacity)
    (h : (s.mem.pages + pages.toNat) % 2 ^ 64 ≤ s.mem.maxPages)
    (hz : growSize cfg s.mem pages = 0) (hd : s.mem.data = some p) :
    GrowCase cfg s pages answer (0xffffffff, { s with heap := s.heap.free p })
  | failed (hv : ∀ capacity, cfg.variant ≠ .external capacity)
    (h : (s.mem.pages + pages.toNat) % 2 ^ 64 ≤ s.mem.maxPages)
    (hz : growSize cfg s.mem pages ≠ 0) (ha : answer = none) :
    GrowCase cfg s pages answer (0xffffffff, s)
  | moved (old : Nat → UInt8) (heap : Heap) (hv : ∀ capacity, cfg.variant ≠ .external capacity)
    (h : (s.mem.pages + pages.toNat) % 2 ^ 64 ≤ s.mem.maxPages)
    (hz : growSize cfg s.mem pages ≠ 0) (ha : answer = some old)
    (hheap : wasmRtMemRealloc s.heap s.mem.data (s.mem.size % 2 ^ cfg.bits)
      (growSize cfg s.mem pages) answer = (some (.block s.heap.next), heap)) :
    GrowCase cfg s pages answer (s.mem.pages, { s with
      mem := { s.mem with
        data := some (.block s.heap.next)
        pages := (s.mem.pages + pages.toNat) % 2 ^ 64
        size := growSize cfg s.mem pages }
      heap
      freed := false })

section

variable {cfg : Config} {s s' : MemState} {pages : UInt64} {answer : Option (Nat → UInt8)}

theorem realloc_some (h : Heap) (p : Option Ptr) (oldSize : Nat) {newSize : Nat}
    (old : Nat → UInt8) (hz : newSize ≠ 0) :
    ∃ heap, wasmRtMemRealloc h p oldSize newSize (some old) = (some (.block h.next), heap) := by
  unfold wasmRtMemRealloc
  rw [if_neg hz]
  cases p with
  | none => exact ⟨_, rfl⟩
  | some p => exact ⟨_, rfl⟩

theorem grow_case : GrowCase cfg s pages answer (wasmRtGrowMemory cfg s pages answer) := by
  unfold wasmRtGrowMemory
  dsimp only
  split
  next h => exact .refused h
  next h =>
    have hle := Nat.not_lt.mp h
    split
    next capacity hv => exact .external capacity hv hle
    next hv =>
      have hvar : ∀ capacity, cfg.variant ≠ .external capacity := fun c hc => hv c hc
      by_cases hz : growSize cfg s.mem pages = 0
      · cases hd : s.mem.data with
        | none =>
          unfold wasmRtMemRealloc
          rw [if_pos hz]
          exact .empty hvar hle hz hd
        | some p =>
          unfold wasmRtMemRealloc
          rw [if_pos hz]
          exact .dropped p hvar hle hz hd
      · cases answer with
        | none =>
          unfold wasmRtMemRealloc
          rw [if_neg hz]
          exact .failed hvar hle hz rfl
        | some old =>
          obtain ⟨heap, hheap⟩ := realloc_some s.heap s.mem.data (s.mem.size % 2 ^ cfg.bits) old hz
          rw [hheap]
          exact .moved old heap hvar hle hz rfl hheap

end

/-! ## What a call rests on -/

/-- The buffers that the allocator has not handed out, and what has been freed. -/
structure HeapOk (cfg : Config) (h : Heap) : Prop where
  roots : match cfg.variant with
    | .static initialPages =>
      h.live .static = true ∧ h.bytes .static = initialPages * cfg.pageSize
    | .external (some capacity) => h.live .host = true ∧ h.bytes .host = capacity
    | _ => True
  frees : ∀ p ∈ h.frees, ∃ n, p = .block n ∧ n < h.next

/-- Where the buffer is, in each build. -/
structure MemInv (cfg : Config) (s : MemState) : Prop extends MemoryOk cfg s where
  heap : HeapOk cfg s.heap
  size_lt : s.mem.size < 2 ^ cfg.bits
  place : match cfg.variant with
    | .static _ => s.mem.data = some .static
    | .external capacity => s.mem.data = some .host ∧ cfg.codePage s.mem.is64 ≠ 0 ∧
      ∃ c, capacity = some c ∧ s.mem.maxPages ≤ c / cfg.codePage s.mem.is64
    | .dynamic => ∀ p, s.mem.data = some p → ∃ n, p = .block n ∧ n < s.heap.next

theorem boot_heapOk (cfg : Config) (host : Nat → UInt8) :
    HeapOk cfg (MemState.boot cfg host).heap := by
  refine ⟨?_, fun p hp => absurd hp List.not_mem_nil⟩
  unfold MemState.boot
  cases hv : cfg.variant with
  | static n => exact ⟨rfl, rfl⟩
  | external c =>
    cases c with
    | none => trivial
    | some c => exact ⟨rfl, rfl⟩
  | dynamic => trivial

section

variable {cfg : Config} {h : Heap} {size : Nat} {old : Nat → UInt8}

theorem HeapOk.congr {h' : Heap} (hh : HeapOk cfg h) (he : h' = h) : HeapOk cfg h' := he ▸ hh

theorem HeapOk.malloc (hh : HeapOk cfg h) : HeapOk cfg (h.malloc size (some old)).2 := by
  refine ⟨?_, fun p hp => ?_⟩
  · have hroots := hh.roots
    split
    next hv =>
      rw [hv] at hroots
      exact hroots
    next hv =>
      rw [hv] at hroots
      exact hroots
    next => trivial
  · obtain ⟨n, rfl, hlt⟩ := hh.frees p hp
    exact ⟨n, rfl, Nat.lt_succ_of_lt hlt⟩

end

/-! ## Allocation -/

section

variable {cfg : Config} {s s' : MemState} {initialPages maxPages : UInt64} {is64 : Bool}
  {answer : Option (Nat → UInt8)} {n c : Nat}

theorem allocate_static (hh : HeapOk cfg s.heap) (hv : cfg.variant = .static n)
    (h : wasmRtAllocateMemory cfg s initialPages maxPages is64 answer = some s') :
    (MemoryOk cfg s' ↔ AllocateFits cfg initialPages maxPages is64) ∧
      (MemoryOk cfg s' → MemInv cfg s') := by
  have hbuffer := cfg.buffer
  have hroots := hh.roots
  unfold wasmRtAllocateMemory at h
  unfold AllocateFits
  simp only [hv] at h hbuffer hroots ⊢
  obtain rfl := Option.some.inj h
  have hlt : n * cfg.pageSize < 2 ^ cfg.bits := Nat.lt_trans hbuffer (int_lt_bits cfg)
  refine ⟨⟨fun hok => ?_, fun hfit => ?_⟩, fun hok => ⟨hok, hh, hlt, ?_⟩⟩
  · have hsize : n * cfg.pageSize = n * cfg.wasmPage is64 := hok.size
    cases is64 with
    | false => exact Or.inl rfl
    | true =>
      rw [Config.wasmPage, if_pos rfl] at hsize
      rcases Nat.eq_zero_or_pos n with hz | hpos
      · exact Or.inr hz
      · have hpage := Nat.eq_of_mul_eq_mul_left hpos hsize
        have hpage31 := cfg.page.2
        omega
  · refine ⟨Nat.le_refl n, ?_, ⟨hroots.1, hroots.2.ge⟩, hh.frees⟩
    show n * cfg.pageSize = n * cfg.wasmPage is64
    rcases hfit with rfl | rfl
    · rfl
    · rw [Nat.zero_mul, Nat.zero_mul]
  · rw [hv]
    rfl

theorem allocate_external (hh : HeapOk cfg s.heap) (hv : cfg.variant = .external (some c))
    (h : wasmRtAllocateMemory cfg s initialPages maxPages is64 answer = some s') :
    (MemoryOk cfg s' ↔ AllocateFits cfg initialPages maxPages is64) ∧
      (MemoryOk cfg s' → MemInv cfg s') := by
  have hbuffer := cfg.buffer
  have hroots := hh.roots
  unfold wasmRtAllocateMemory at h
  unfold AllocateFits
  simp only [hv] at h hbuffer hroots ⊢
  split at h
  · cases h
  next hcap =>
    split at h
    · cases h
    next hpage =>
      obtain rfl := Option.some.inj h
      have hcode := codePage_eq cfg hpage
      have hpos := Nat.pos_of_ne_zero hpage
      have hneed := Nat.not_lt.mp hcap
      refine ⟨⟨fun hok => ?_, fun hfit => ?_⟩, fun hok => ⟨hok, hh, byteCount_lt cfg, ?_⟩⟩
      · have hpages : initialPages.toNat ≤ if maxPages.toNat < c / cfg.codePage is64 then
          maxPages.toNat else c / cfg.codePage is64 := hok.pages
        have hle : initialPages.toNat ≤ maxPages.toNat ∧
            initialPages.toNat ≤ c / cfg.codePage is64 := by
          split at hpages <;> omega
        refine ⟨hle.1, Nat.lt_of_le_of_lt ?_ hbuffer⟩
        rw [← hcode]
        exact (Nat.le_div_iff_mul_le hpos).mp hle.2
      · have hcount := byteCount_eq cfg hfit.2
        rw [hcount, ← hcode] at hneed
        have hcapacity := (Nat.le_div_iff_mul_le hpos).mpr hneed
        refine ⟨?_, hcount, ⟨hroots.1, ?_⟩, hh.frees⟩
        · show initialPages.toNat ≤ if maxPages.toNat < c / cfg.codePage is64 then
            maxPages.toNat else c / cfg.codePage is64
          split
          · exact hfit.1
          · exact hcapacity
        · show cfg.byteCount is64 initialPages.toNat ≤ s.heap.bytes .host
          rw [hroots.2]
          exact Nat.not_lt.mp hcap
      · rw [hv]
        refine ⟨rfl, hpage, c, rfl, ?_⟩
        show (if maxPages.toNat < c / cfg.codePage is64 then maxPages.toNat
          else c / cfg.codePage is64) ≤ c / cfg.codePage is64
        split <;> omega

theorem allocate_dynamic (hh : HeapOk cfg s.heap) (hv : cfg.variant = .dynamic)
    (h : wasmRtAllocateMemory cfg s initialPages maxPages is64 answer = some s') :
    (MemoryOk cfg s' ↔ AllocateFits cfg initialPages maxPages is64) ∧
      (MemoryOk cfg s' → MemInv cfg s') := by
  unfold wasmRtAllocateMemory at h
  unfold AllocateFits
  simp only [hv] at h ⊢
  have hbytes : ∀ b, cfg.byteCount is64 initialPages.toNat = b →
      b = initialPages.toNat * cfg.wasmPage is64 →
        initialPages.toNat * cfg.wasmPage is64 < 2 ^ cfg.bits := by
    rintro b rfl hb
    rw [← hb]
    exact byteCount_lt cfg
  cases answer with
  | none =>
    simp only [Heap.malloc] at h
    split at h
    · cases h
    next hneed =>
      obtain rfl := Option.some.inj h
      refine ⟨⟨fun hok => ⟨hok.pages, hbytes _ rfl hok.size⟩, fun hfit => ?_⟩,
        fun hok => ⟨hok, hh, byteCount_lt cfg, ?_⟩⟩
      · exact ⟨hfit.1, byteCount_eq cfg hfit.2, Or.inr (not_not.mp hneed), hh.frees⟩
      · rw [hv]
        exact fun p hp => nomatch hp
  | some old =>
    simp only [Heap.malloc] at h
    obtain rfl := Option.some.inj h
    have hmalloc := @HeapOk.malloc cfg s.heap (cfg.byteCount is64 initialPages.toNat) old hh
    refine ⟨⟨fun hok => ⟨hok.pages, hbytes _ rfl hok.size⟩, fun hfit => ?_⟩,
      fun hok => ⟨hok, hmalloc, byteCount_lt cfg, ?_⟩⟩
    · refine ⟨hfit.1, byteCount_eq cfg hfit.2, ⟨?_, ?_⟩, hmalloc.frees⟩
      · exact Function.update_self ..
      · exact (Function.update_self (β := fun _ => Nat) ..).ge
    · rw [hv]
      intro p hp
      exact ⟨s.heap.next, (Option.some.inj hp).symm, Nat.lt_succ_self _⟩

/-- A call that returns is right exactly when its numbers fit. -/
theorem allocate_spec (hh : HeapOk cfg s.heap)
    (h : wasmRtAllocateMemory cfg s initialPages maxPages is64 answer = some s') :
    (MemoryOk cfg s' ↔ AllocateFits cfg initialPages maxPages is64) ∧
      (MemoryOk cfg s' → MemInv cfg s') := by
  cases hv : cfg.variant with
  | static n => exact allocate_static hh hv h
  | external capacity =>
    cases capacity with
    | none =>
      unfold wasmRtAllocateMemory at h
      simp only [hv] at h
      cases h
    | some c => exact allocate_external hh hv h
  | dynamic => exact allocate_dynamic hh hv h

end

/-! ## Growing -/

section

variable {cfg : Config} {s s' : MemState} {pages : UInt64} {answer : Option (Nat → UInt8)}
  {heap : Heap} {old : Nat → UInt8}

theorem growSize_eq (hi : MemInv cfg s)
    (h : (s.mem.pages + pages.toNat) * cfg.wasmPage s.mem.is64 < 2 ^ cfg.bits) :
    growSize cfg s.mem pages = (s.mem.pages + pages.toNat) * cfg.wasmPage s.mem.is64 := by
  rw [Nat.add_mul] at h
  unfold growSize
  rw [byteCount_eq cfg (Nat.lt_of_le_of_lt (Nat.le_add_left ..) h), Nat.mod_eq_of_lt hi.size_lt,
    hi.size, Nat.mod_eq_of_lt h, Nat.add_mul]

/-- Growing an empty memory by 0 is what asks for nothing. -/
theorem pages_zero_of_growSize (hi : MemInv cfg s) (hz : growSize cfg s.mem 0 = 0) :
    s.mem.pages = 0 := by
  unfold growSize Config.byteCount at hz
  rw [UInt64.toNat_zero, Nat.zero_mul, Nat.zero_mod, Nat.zero_mod, Nat.add_zero,
    Nat.mod_eq_of_lt hi.size_lt, Nat.mod_eq_of_lt hi.size_lt, hi.size] at hz
  rcases Nat.mul_eq_zero.mp hz with h | h
  · exact h
  · exact absurd h (Nat.pos_iff_ne_zero.mp (wasmPage_pos cfg _))

/-- The buffer is no block that is still to come. -/
theorem MemInv.data_ne (hi : MemInv cfg s) {p : Ptr} (hp : s.mem.data = some p) :
    p ≠ .block s.heap.next := by
  have hplace := hi.place
  rintro rfl
  cases hv : cfg.variant with
  | static n =>
    simp only [hv, hp] at hplace
    cases hplace
  | external c =>
    simp only [hv, hp] at hplace
    cases hplace.1
  | dynamic =>
    simp only [hv] at hplace
    obtain ⟨n, hn, hlt⟩ := hplace _ hp
    have heq := Ptr.block.inj hn
    omega

/-- The heap after a move: the new block is there, and the old one is freed. -/
theorem realloc_heap {p : Option Ptr} {oldSize newSize : Nat} (hz : newSize ≠ 0)
    (hp : ∀ q, p = some q → q ≠ .block s.heap.next)
    (h : wasmRtMemRealloc s.heap p oldSize newSize (some old) =
      (some (.block s.heap.next), heap)) :
    heap.live (.block s.heap.next) = true ∧ heap.bytes (.block s.heap.next) = newSize ∧
      heap.next = s.heap.next + 1 ∧ heap.frees = p.toList ++ s.heap.frees := by
  unfold wasmRtMemRealloc at h
  rw [if_neg hz] at h
  cases p with
  | none =>
    obtain ⟨-, rfl⟩ := Prod.mk.inj h
    exact ⟨Function.update_self .., Function.update_self .., rfl, rfl⟩
  | some q =>
    obtain ⟨-, rfl⟩ := Prod.mk.inj h
    refine ⟨?_, Function.update_self .., rfl, rfl⟩
    exact (Function.update_of_ne (hp q rfl).symm _ _).trans (Function.update_self ..)

/-- A grow on the path of the allocator that succeeds. -/
theorem grow_moved (hi : MemInv cfg s) (hv : ∀ c, cfg.variant ≠ .external c)
    (h : (s.mem.pages + pages.toNat) % 2 ^ 64 ≤ s.mem.maxPages)
    (hz : growSize cfg s.mem pages ≠ 0) (ha : answer = some old)
    (hheap : wasmRtMemRealloc s.heap s.mem.data (s.mem.size % 2 ^ cfg.bits)
      (growSize cfg s.mem pages) answer = (some (.block s.heap.next), heap))
    (hs' : s' = { s with
      mem := { s.mem with
        data := some (.block s.heap.next)
        pages := (s.mem.pages + pages.toNat) % 2 ^ 64
        size := growSize cfg s.mem pages }
      heap
      freed := false }) :
    ((MemoryOk cfg s' ∧ GrowRight s pages s.mem.pages s') ↔ MemGrowFits cfg s pages answer) ∧
      (MemoryOk cfg s' → MemInv cfg s') := by
  subst ha
  obtain ⟨hlive, hbytes, hnext, hfrees⟩ := realloc_heap hz (fun q hq => hi.data_ne hq) hheap
  have hplace := hi.place
  have hsize : growSize cfg s.mem pages < 2 ^ cfg.bits := Nat.mod_lt _ (Nat.two_pow_pos _)
  unfold MemGrowFits
  cases hvar : cfg.variant with
  | external c => exact absurd hvar (hv c)
  | static n =>
    -- the static buffer would be freed
    simp only [hvar] at hplace
    have hno : ¬ MemoryOk cfg s' := by
      intro hok
      have hmem : Ptr.static ∈ s'.heap.frees := by
        rw [hs']
        dsimp only
        rw [hfrees, hplace]
        exact List.mem_cons_self
      obtain ⟨k, hk, -⟩ := hok.frees _ hmem
      cases hk
    refine ⟨iff_of_false (fun hr => hno hr.1) fun hfit => ?_, fun hok => absurd hok hno⟩
    have hfit' := hfit h
    rw [if_neg hz] at hfit'
    exact hfit'.1
  | dynamic =>
    simp only [hvar] at hplace
    simp only [if_neg hz, true_and]
    refine ⟨⟨?_, ?_⟩, fun hok => ?_⟩
    · rintro ⟨hok, hr⟩ -
      have hsum : (s.mem.pages + pages.toNat) % 2 ^ 64 = s.mem.pages + pages.toNat := by
        rcases hr.outcome with ⟨-, hmem, -⟩ | ⟨-, hgrown, -⟩
        · rw [hs'] at hmem
          have hdata := congrArg Memory.data hmem
          exact absurd rfl (hi.data_ne hdata.symm)
        · rw [hs'] at hgrown
          exact hgrown
      have hnewSize : growSize cfg s.mem pages =
          (s.mem.pages + pages.toNat) % 2 ^ 64 * cfg.wasmPage s.mem.is64 := by
        have hok' := hok.size
        rw [hs'] at hok'
        exact hok'
      rw [hsum] at hnewSize
      rw [← hnewSize]
      exact ⟨hsum ▸ Nat.mod_lt _ (by decide), hsize⟩
    · intro hfit
      obtain ⟨hwrap, hfits⟩ := hfit h
      have hsum : (s.mem.pages + pages.toNat) % 2 ^ 64 = s.mem.pages + pages.toNat :=
        Nat.mod_eq_of_lt hwrap
      have hnewSize := growSize_eq hi hfits
      rw [hs']
      refine ⟨⟨h, ?_, ⟨hlive, hbytes.ge⟩, ?_⟩, ⟨Or.inr ⟨rfl, hsum, ?_⟩, ?_⟩⟩
      · dsimp only
        rw [hnewSize, hsum]
      · dsimp only
        rw [hfrees, hnext]
        intro q hq
        rcases List.mem_append.mp hq with hq | hq
        · obtain ⟨k, rfl, hlt⟩ := hplace q (Option.mem_toList.mp hq)
          exact ⟨k, rfl, Nat.lt_succ_of_lt hlt⟩
        · obtain ⟨k, rfl, hlt⟩ := hi.frees q hq
          exact ⟨k, rfl, Nat.lt_succ_of_lt hlt⟩
      · dsimp only
        rw [hnewSize, hi.size]
        exact Nat.mul_le_mul_right _ (Nat.le_add_right ..)
      · rintro rfl
        refine ⟨rfl, ?_⟩
        dsimp only
        rw [hsum, UInt64.toNat_zero, Nat.add_zero]
    · refine ⟨hok, ⟨?_, hok.frees⟩, ?_, ?_⟩
      · rw [hvar]
        trivial
      · rw [hs']
        exact hsize
      · rw [hvar, hs']
        intro q hq
        refine ⟨s.heap.next, (Option.some.inj hq).symm, ?_⟩
        dsimp only
        omega

/-- Within the registered capacity, growing is a matter of the page count alone. -/
theorem grow_external (hi : MemInv cfg s) {capacity : Option Nat}
    (hv : cfg.variant = .external capacity)
    (h : (s.mem.pages + pages.toNat) % 2 ^ 64 ≤ s.mem.maxPages)
    (hs' : s' = { s with mem := { s.mem with
      pages := (s.mem.pages + pages.toNat) % 2 ^ 64
      size := cfg.byteCount s.mem.is64 ((s.mem.pages + pages.toNat) % 2 ^ 64) } }) :
    ((MemoryOk cfg s' ∧ GrowRight s pages s.mem.pages s') ↔ MemGrowFits cfg s pages answer) ∧
      (MemoryOk cfg s' → MemInv cfg s') := by
  have hplace := hi.place
  have hroots := hi.heap.roots
  have hbuffer := cfg.buffer
  unfold MemGrowFits
  simp only [hv] at hplace hroots hbuffer ⊢
  obtain ⟨hdata, hpage, c, rfl, hmax⟩ := hplace
  dsimp only at hroots hbuffer
  have hpos := Nat.pos_of_ne_zero hpage
  have hcode := codePage_eq cfg hpage
  have hbound : ∀ k, k ≤ s.mem.maxPages → k * cfg.wasmPage s.mem.is64 ≤ c := by
    intro k hk
    rw [← hcode]
    exact (Nat.le_div_iff_mul_le hpos).mp (Nat.le_trans hk hmax)
  have hcount := byteCount_eq cfg (Nat.lt_of_le_of_lt (hbound _ h) hbuffer)
  have hold : s.mem.pages < 2 ^ 64 := by
    have hle := hbound _ hi.pages
    have hself := Nat.le_mul_of_pos_right s.mem.pages (wasmPage_pos cfg s.mem.is64)
    have hbits := bits_le cfg
    omega
  have hdelta := pages.toNat_lt
  refine ⟨⟨?_, ?_⟩, fun hok => ⟨hok, hi.heap.congr (by rw [hs']), ?_, ?_⟩⟩
  · rintro ⟨-, hr⟩ -
    rcases hr.outcome with ⟨-, hmem, -⟩ | ⟨-, hgrown, -⟩
    · rw [hs'] at hmem
      have hpages : (s.mem.pages + pages.toNat) % 2 ^ 64 = s.mem.pages := congrArg Memory.pages hmem
      omega
    · rw [hs'] at hgrown
      have hpages : (s.mem.pages + pages.toNat) % 2 ^ 64 = s.mem.pages + pages.toNat := hgrown
      omega
  · intro hfit
    have hsum : (s.mem.pages + pages.toNat) % 2 ^ 64 = s.mem.pages + pages.toNat :=
      Nat.mod_eq_of_lt (hfit h)
    rw [hs']
    refine ⟨⟨h, hcount, ?_, hi.frees⟩, ⟨Or.inr ⟨rfl, hsum, ?_⟩, ?_⟩⟩
    · dsimp only
      rw [hdata]
      refine ⟨hroots.1, ?_⟩
      rw [hcount, hroots.2]
      exact hbound _ h
    · dsimp only
      rw [hcount, hsum, hi.size]
      exact Nat.mul_le_mul_right _ (Nat.le_add_right ..)
    · rintro rfl
      refine ⟨rfl, ?_⟩
      dsimp only
      rw [hsum, UInt64.toNat_zero, Nat.add_zero]
  · rw [hs']
    exact byteCount_lt cfg
  · rw [hv, hs']
    exact ⟨hdata, hpage, c, rfl, hmax⟩

/-- A grow that leaves the state as it is. -/
theorem grow_kept (hi : MemInv cfg s) : (MemoryOk cfg s ∧ GrowRight s pages 0xffffffff s) ↔
    (pages ≠ 0 ∨ s.mem.pages = 0xffffffff) := by
  constructor
  · rintro ⟨-, hr⟩
    by_cases hz : pages = 0
    · exact Or.inr (hr.zero hz).1.symm
    · exact Or.inl hz
  · intro h
    refine ⟨hi.toMemoryOk, ⟨Or.inl ⟨rfl, rfl, fun _ _ => rfl⟩, fun hz => ?_⟩⟩
    rcases h with hne | hpages
    · exact absurd hz hne
    · exact ⟨hpages.symm, rfl⟩

/-- On the path of the allocator. -/
theorem growFits_alloc (hv : ∀ c, cfg.variant ≠ .external c) :
    (s.mem.pages + pages.toNat) % 2 ^ 64 ≤ s.mem.maxPages → (MemGrowFits cfg s pages answer ↔
      if growSize cfg s.mem pages = 0 then s.mem.data = none ∧ pages ≠ 0
      else match answer with
        | none => pages ≠ 0 ∨ s.mem.pages = 0xffffffff
        | some _ => (match cfg.variant with
            | .dynamic => True
            | _ => False) ∧ s.mem.pages + pages.toNat < 2 ^ 64 ∧
          (s.mem.pages + pages.toNat) * cfg.wasmPage s.mem.is64 < 2 ^ cfg.bits) := by
  intro h
  unfold MemGrowFits
  cases hvar : cfg.variant with
  | external c => exact absurd hvar (hv c)
  | static n => exact ⟨fun hf => hf h, fun hf _ => hf⟩
  | dynamic => exact ⟨fun hf => hf h, fun hf _ => hf⟩

/-- A grow is right exactly when it fits. -/
theorem grow_spec (hi : MemInv cfg s) (hs' : s' = (wasmRtGrowMemory cfg s pages answer).2) :
    ((MemoryOk cfg s' ∧ GrowRight s pages (wasmRtGrowMemory cfg s pages answer).1 s') ↔
      MemGrowFits cfg s pages answer) ∧ (MemoryOk cfg s' → MemInv cfg s') := by
  have hcase := @grow_case cfg s pages answer
  generalize wasmRtGrowMemory cfg s pages answer = r at hcase hs' ⊢
  cases hcase with
  | refused h =>
    replace hs' : s' = s := hs'
    rw [hs']
    refine ⟨(grow_kept hi).trans (iff_of_true (Or.inl ?_) fun hle => ?_), fun _ => hi⟩
    · rintro rfl
      have hmod := Nat.mod_le s.mem.pages (2 ^ 64)
      have hpages := hi.pages
      rw [UInt64.toNat_zero, Nat.add_zero] at h
      omega
    · exact absurd hle (Nat.not_le.mpr h)
  | external capacity hv h => exact grow_external hi hv h hs'
  | empty hv h hz hd =>
    replace hs' : s' = s := hs'
    rw [hs']
    rw [growFits_alloc hv h, if_pos hz]
    refine ⟨(grow_kept hi).trans ⟨fun hr => ⟨hd, ?_⟩, fun hf => Or.inl hf.2⟩, fun _ => hi⟩
    rintro rfl
    have hpages := pages_zero_of_growSize hi hz
    rcases hr with hne | hall
    · exact hne rfl
    · omega
  | dropped p hv h hz hd =>
    rw [growFits_alloc hv h, if_pos hz, hd]
    have hno : ¬ MemoryOk cfg s' := by
      intro hok
      have hbuffer := hok.buffer
      rw [hs'] at hbuffer
      simp only [hd] at hbuffer
      have hdead : (s.heap.free p).live p = false := Function.update_self ..
      rw [hdead] at hbuffer
      exact Bool.false_ne_true hbuffer.1
    exact ⟨iff_of_false (fun hr => hno hr.1) (fun hf => nomatch hf.1), fun hok => absurd hok hno⟩
  | failed hv h hz ha =>
    replace hs' : s' = s := hs'
    rw [hs']
    rw [growFits_alloc hv h, if_neg hz]
    subst ha
    exact ⟨grow_kept hi, fun _ => hi⟩
  | moved old heap hv h hz ha hheap => exact grow_moved hi hv h hz ha hheap hs'

end

/-! ## Runs -/

section

variable {cfg : Config} {s s' : MemState} {op : MemOp}

theorem free_keeps (hi : MemInv cfg s) : MemInv cfg (wasmRtFreeMemory cfg s) := by
  unfold wasmRtFreeMemory
  split
  next p hv hd =>
    have hplace := hi.place
    simp only [hv] at hplace
    obtain ⟨n, rfl, hlt⟩ := hplace p hd
    have hfrees : ∀ q ∈ (s.heap.free (.block n)).frees, ∃ k, q = .block k ∧ k < s.heap.next := by
      intro q hq
      rcases List.mem_cons.mp hq with rfl | hq
      · exact ⟨n, rfl, hlt⟩
      · exact hi.frees q hq
    refine ⟨⟨hi.pages, hi.size, Or.inl rfl, hfrees⟩, ⟨?_, hfrees⟩, hi.size_lt, ?_⟩
    · rw [hv]
      trivial
    · rw [hv]
      exact fun q hq => nomatch hq
  next => exact hi

theorem store_keeps (hi : MemInv cfg s) (k : Nat) (v : UInt8) :
    MemInv cfg (moduleStore s k v) := by
  unfold moduleStore
  split
  next =>
    split
    next p hd =>
      exact ⟨⟨hi.pages, hi.size, hi.buffer, hi.frees⟩, ⟨hi.heap.roots, hi.heap.frees⟩, hi.size_lt,
        hi.place⟩
    next => exact hi
  next => exact hi

theorem call_spec (hi : MemInv cfg s) (h : memStep cfg s op = some s') :
    (CallRight cfg s op s' ↔ CallFits cfg s op s') ∧ (CallRight cfg s op s' → MemInv cfg s') := by
  cases op with
  | allocate initialPages maxPages is64 answer =>
    obtain ⟨hiff, hkeep⟩ := allocate_spec hi.heap h
    exact ⟨(and_iff_left trivial).trans hiff, fun hr => hkeep hr.1⟩
  | grow pages answer =>
    obtain ⟨hiff, hkeep⟩ := grow_spec hi (Option.some.inj h).symm
    exact ⟨hiff, fun hr => hkeep hr.1⟩
  | free =>
    have hkeep : MemInv cfg s' := Option.some.inj h ▸ free_keeps hi
    exact ⟨iff_of_true ⟨hkeep.toMemoryOk, trivial⟩ trivial, fun _ => hkeep⟩
  | store k v =>
    have hkeep : MemInv cfg s' := Option.some.inj h ▸ store_keeps hi k v
    exact ⟨iff_of_true ⟨hkeep.toMemoryOk, trivial⟩ trivial, fun _ => hkeep⟩

end

/-- From the first allocation on, the calls of a run are right exactly when they fit. -/
theorem memory_runs_right_iff (cfg : Config) (host : Nat → UInt8) (initialPages maxPages : UInt64)
    (is64 : Bool) (answer : Option (Nat → UInt8)) (ops : List MemOp) :
    AlongRun cfg (CallRight cfg) (.boot cfg host)
        (.allocate initialPages maxPages is64 answer :: ops) ↔
      AlongRun cfg (CallFits cfg) (.boot cfg host)
        (.allocate initialPages maxPages is64 answer :: ops) := by
  refine forall_congr' fun s' => forall_congr' fun hstep => ?_
  obtain ⟨hiff, hkeep⟩ := allocate_spec (boot_heapOk cfg host) hstep
  have hcall : CallRight cfg (.boot cfg host) (.allocate initialPages maxPages is64 answer) s' ↔
      CallFits cfg (.boot cfg host) (.allocate initialPages maxPages is64 answer) s' :=
    (and_iff_left trivial).trans hiff
  rw [← hcall]
  refine and_congr_right fun hright => ?_
  exact alongRun_iff (fun s op s' hi h => (call_spec hi h).1)
    (fun s op s' hi h => (call_spec hi h).2) ops (hkeep hright.1)

theorem width_32 : 32 = 32 ∨ 32 = 64 := Or.inl rfl

theorem page_64k : 0 < 65536 ∧ 65536 < 2 ^ 31 := by decide

/-- A static build of one page on a 32-bit target. -/
def staticBuild : Config := ⟨32, 65536, .static 1, width_32, page_64k, by decide⟩

/-- `memory.grow` by 0 frees the buffer in `.bss`. -/
theorem static_grow_zero :
    ¬ AlongRun staticBuild (CallRight staticBuild) (.boot staticBuild fun _ => 0)
      [.allocate 1 1 false none, .grow 0 (some fun _ => 0)] := by
  intro h
  have hright := ((h _ rfl).2 _ rfl).1
  obtain ⟨n, hn, -⟩ := hright.1.frees .static List.mem_cons_self
  cases hn

end Udynlink.Wasm
