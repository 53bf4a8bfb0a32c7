import Udynlink.Wasm.MemoryRuns

/-!
# What linear memory reads as

A byte reads as what the module has stored to it, and as zero before. Nothing of the runtime
clears a buffer, so a run is right exactly when what it is handed already reads so.
-/

namespace Udynlink.Wasm

/-- Every byte below the size reads as what was stored to it, and as zero where nothing was. -/
def ReadsRight (s : MemState) : Prop :=
  s.freed = false → ∀ k < s.mem.size,
    ∃ p, s.mem.data = some p ∧ s.heap.live p = true ∧ s.heap.content p k = (s.stored k).getD 0

/-- The buffer of the static build and the one of the host are there and zero below the size,
and so is a block as the allocator hands it out. -/
def AllocateZero (cfg : Config) (s : MemState) (initialPages : UInt64) (is64 : Bool)
    (answer : Option (Nat → UInt8)) : Prop :=
  match cfg.variant with
  | .static pages =>
    ∀ k < pages * cfg.pageSize, s.heap.live .static = true ∧ s.heap.content .static k = 0
  | .external _ => ∀ k < cfg.byteCount is64 initialPages.toNat, s.heap.content .host k = 0
  | .dynamic => ∀ old, answer = some old → ∀ k < cfg.byteCount is64 initialPages.toNat, old k = 0

/-- Bytes that a move to a block of that size takes along. -/
def copied (s : MemState) (newSize : Nat) : Nat :=
  match s.mem.data with
  | some _ => min s.mem.size newSize
  | none => 0

/-- What a grow adds, or does not copy, reads as it should before the call. -/
def GrowZero (cfg : Config) (s : MemState) (pages : UInt64) (answer : Option (Nat → UInt8)) :
    Prop :=
  (s.mem.pages + pages.toNat) % 2 ^ 64 ≤ s.mem.maxPages →
    match cfg.variant with
    | .external _ => s.freed = false → ∀ k, s.mem.size ≤ k →
      k < cfg.byteCount s.mem.is64 ((s.mem.pages + pages.toNat) % 2 ^ 64) →
        s.heap.content .host k = (s.stored k).getD 0
    | _ =>
      if growSize cfg s.mem pages = 0 then s.mem.data = none ∨ s.mem.size = 0
      else ∀ old, answer = some old → ∀ k, copied s (growSize cfg s.mem pages) ≤ k →
        k < growSize cfg s.mem pages → old k = (s.stored k).getD 0

def CallZero (cfg : Config) (s : MemState) (op : MemOp) (_ : MemState) : Prop :=
  match op with
  | .allocate initialPages _ is64 answer => AllocateZero cfg s initialPages is64 answer
  | .grow pages answer => GrowZero cfg s pages answer
  | _ => True

/-- What a call keeps: the reads, and where the buffer can be. -/
structure ReadInv (cfg : Config) (s : MemState) : Prop where
  reads : ReadsRight s
  size_lt : s.mem.size < 2 ^ cfg.bits
  block : ∀ n, s.mem.data = some (.block n) → n < s.heap.next
  freed : s.freed = true → s.mem.data = none
  external : ∀ capacity, cfg.variant = .external capacity →
    s.heap.live .host = true ∧ (s.freed = false → s.mem.data = some .host)

theorem boot_readInv (cfg : Config) (host : Nat → UInt8) : ReadInv cfg (.boot cfg host) where
  reads h := Bool.noConfusion h
  size_lt := Nat.two_pow_pos _
  block _ h := absurd h.symm (Option.some_ne_none _)
  freed _ := rfl
  external _ _ := ⟨rfl, fun h => Bool.noConfusion h⟩

section

variable {cfg : Config} {s s' : MemState} {initialPages maxPages pages : UInt64} {is64 : Bool}
  {answer : Option (Nat → UInt8)}

/-- A memory with a buffer has not been given back. -/
theorem ReadInv.not_freed (hi : ReadInv cfg s) {p : Ptr} (hp : s.mem.data = some p) :
    s.freed = false := by
  cases hf : s.freed with
  | false => rfl
  | true =>
    have hnone := hi.freed hf
    rw [hp] at hnone
    cases hnone

/-- The buffer is no block that is still to come. -/
theorem ReadInv.data_ne (hi : ReadInv cfg s) {p : Ptr} (hp : s.mem.data = some p) :
    p ≠ .block s.heap.next := by
  rintro rfl
  exact Nat.lt_irrefl _ (hi.block _ hp)

/-! ## One call -/

/-- A buffer that nothing has been stored to yet is right when it is zero. -/
theorem fresh_reads {mem : Memory} {heap : Heap} {p : Ptr} (hp : mem.data = some p) :
    ReadsRight (.fresh mem heap) ↔
      ∀ k < mem.size, heap.live p = true ∧ heap.content p k = 0 := by
  constructor
  · intro h k hk
    obtain ⟨q, hq, hlive, hread⟩ := h rfl k hk
    obtain rfl := Option.some.inj (hp.symm.trans hq)
    exact ⟨hlive, hread⟩
  · intro h _ k hk
    exact ⟨p, hp, h k hk⟩

theorem allocate_reads (hi : ReadInv cfg s)
    (h : wasmRtAllocateMemory cfg s initialPages maxPages is64 answer = some s') :
    (ReadsRight s' ↔ AllocateZero cfg s initialPages is64 answer) ∧
      (ReadsRight s' → ReadInv cfg s') := by
  have hbuffer := cfg.buffer
  unfold wasmRtAllocateMemory at h
  unfold AllocateZero
  cases hv : cfg.variant with
  | static n =>
    simp only [hv] at h hbuffer ⊢
    obtain rfl := Option.some.inj h
    refine ⟨fresh_reads rfl, fun hr => ⟨hr, Nat.lt_trans hbuffer (int_lt_bits cfg), ?_, ?_, ?_⟩⟩
    · intro _ hn
      cases hn
    · exact fun hf => Bool.noConfusion hf
    · exact fun _ hc => by rw [hv] at hc; cases hc
  | external capacity =>
    have hhost := (hi.external capacity hv).1
    cases capacity with
    | none =>
      simp only [hv] at h
      cases h
    | some c =>
      simp only [hv] at h ⊢
      split at h
      · cases h
      split at h
      · cases h
      obtain rfl := Option.some.inj h
      refine ⟨(fresh_reads rfl).trans ⟨fun hr k hk => (hr k hk).2, fun hr k hk =>
        ⟨hhost, hr k hk⟩⟩, fun hr => ⟨hr, byteCount_lt cfg, ?_, ?_, ?_⟩⟩
      · intro _ hn
        cases hn
      · exact fun hf => Bool.noConfusion hf
      · exact fun _ _ => ⟨hhost, fun _ => rfl⟩
  | dynamic =>
    simp only [hv] at h ⊢
    cases answer with
    | none =>
      simp only [Heap.malloc] at h
      split at h
      · cases h
      next hneed =>
        obtain rfl := Option.some.inj h
        have hzero := not_not.mp hneed
        have hr : ReadsRight (.fresh ⟨none, initialPages.toNat, maxPages.toNat,
            cfg.byteCount is64 initialPages.toNat, is64⟩ s.heap) := by
          intro _ k hk
          have hk' : k < cfg.byteCount is64 initialPages.toNat := hk
          omega
        refine ⟨iff_of_true hr fun _ ha => absurd ha.symm (Option.some_ne_none _),
          fun _ => ⟨hr, byteCount_lt cfg, ?_, ?_, ?_⟩⟩
        · intro _ hn
          cases hn
        · exact fun hf => Bool.noConfusion hf
        · exact fun _ hc => by rw [hv] at hc; cases hc
    | some old =>
      simp only [Heap.malloc] at h
      obtain rfl := Option.some.inj h
      refine ⟨(fresh_reads rfl).trans ?_, fun hr => ⟨hr, byteCount_lt cfg, ?_, ?_, ?_⟩⟩
      · dsimp only
        rw [Function.update_self, Function.update_self]
        constructor
        · rintro hr _ ha k hk
          rw [← Option.some.inj ha]
          exact (hr k hk).2
        · exact fun hr k hk => ⟨rfl, hr old rfl k hk⟩
      · intro n hn
        rw [← Ptr.block.inj (Option.some.inj hn)]
        exact Nat.lt_succ_self _
      · exact fun hf => Bool.noConfusion hf
      · exact fun _ hc => by rw [hv] at hc; cases hc

/-- What the block of a move reads as, byte by byte. -/
theorem moved_content {heap : Heap} {old : Nat → UInt8} {newSize : Nat} (hi : ReadInv cfg s)
    (hz : newSize ≠ 0)
    (h : wasmRtMemRealloc s.heap s.mem.data s.mem.size newSize (some old) =
      (some (.block s.heap.next), heap)) (k : Nat) :
    heap.content (.block s.heap.next) k =
      if k < copied s newSize then
        (match s.mem.data with
          | some p => s.heap.content p k
          | none => 0)
      else old k := by
  unfold wasmRtMemRealloc at h
  rw [if_neg hz] at h
  unfold copied
  cases hd : s.mem.data with
  | none =>
    rw [hd] at h
    obtain ⟨-, rfl⟩ := Prod.mk.inj h
    rw [if_neg (Nat.not_lt_zero k)]
    exact congrFun (Function.update_self ..) k
  | some p =>
    rw [hd] at h
    obtain ⟨-, rfl⟩ := Prod.mk.inj h
    have hne := hi.data_ne hd
    have hmin : (if s.mem.size < newSize then s.mem.size else newSize) =
        min s.mem.size newSize := by
      split <;> omega
    dsimp only [Heap.free, Heap.copy, Heap.malloc]
    rw [Function.update_self, Function.update_self, Function.update_of_ne hne, hmin]

theorem moved_reads (hi : ReadInv cfg s) {heap : Heap} {old : Nat → UInt8}
    (hv : ∀ c, cfg.variant ≠ .external c) (hz : growSize cfg s.mem pages ≠ 0)
    (hheap : wasmRtMemRealloc s.heap s.mem.data (s.mem.size % 2 ^ cfg.bits)
      (growSize cfg s.mem pages) (some old) = (some (.block s.heap.next), heap))
    (hs' : s' = { s with
      mem := { s.mem with
        data := some (.block s.heap.next)
        pages := (s.mem.pages + pages.toNat) % 2 ^ 64
        size := growSize cfg s.mem pages }
      heap
      freed := false }) :
    (ReadsRight s' ↔ ∀ k, copied s (growSize cfg s.mem pages) ≤ k →
        k < growSize cfg s.mem pages → old k = (s.stored k).getD 0) ∧
      (ReadsRight s' → ReadInv cfg s') := by
  rw [Nat.mod_eq_of_lt hi.size_lt] at hheap
  have hcontent := moved_content hi hz hheap
  obtain ⟨hlive, -, hnext, -⟩ := realloc_heap hz (fun q hq => hi.data_ne hq) hheap
  refine ⟨⟨fun hr k hlow hk => ?_, fun hadd => ?_⟩, fun hr => ⟨hr, ?_, ?_, ?_, ?_⟩⟩
  · rw [hs'] at hr
    obtain ⟨p, hp, -, hread⟩ := hr rfl k hk
    rw [← Option.some.inj hp, hcontent k, if_neg (Nat.not_lt.mpr hlow)] at hread
    exact hread
  · rw [hs']
    intro _ k hk
    refine ⟨_, rfl, hlive, ?_⟩
    dsimp only
    rw [hcontent k]
    split
    next hlow =>
      -- the copy reads as the old buffer did
      unfold copied at hlow
      cases hd : s.mem.data with
      | none =>
        rw [hd] at hlow
        exact absurd hlow (Nat.not_lt_zero k)
      | some p =>
        rw [hd] at hlow
        obtain ⟨q, hq, -, hread⟩ := hi.reads (hi.not_freed hd) k
          (Nat.lt_of_lt_of_le hlow (Nat.min_le_left ..))
        rw [hd] at hq
        rw [Option.some.inj hq]
        exact hread
    next hlow => exact hadd k (Nat.not_lt.mp hlow) hk
  · rw [hs']
    exact Nat.mod_lt _ (Nat.two_pow_pos _)
  · rw [hs']
    intro n hn
    dsimp only
    rw [← Ptr.block.inj (Option.some.inj hn), hnext]
    exact Nat.lt_succ_self _
  · rw [hs']
    exact fun hf => Bool.noConfusion hf
  · exact fun c hc => absurd hc (hv c)

theorem external_reads (hi : ReadInv cfg s) {capacity : Option Nat}
    (hv : cfg.variant = .external capacity)
    (hs' : s' = { s with mem := { s.mem with
      pages := (s.mem.pages + pages.toNat) % 2 ^ 64
      size := cfg.byteCount s.mem.is64 ((s.mem.pages + pages.toNat) % 2 ^ 64) } }) :
    (ReadsRight s' ↔ (s.freed = false → ∀ k, s.mem.size ≤ k →
        k < cfg.byteCount s.mem.is64 ((s.mem.pages + pages.toNat) % 2 ^ 64) →
          s.heap.content .host k = (s.stored k).getD 0)) ∧
      (ReadsRight s' → ReadInv cfg s') := by
  obtain ⟨hhost, hdata⟩ := hi.external capacity hv
  refine ⟨⟨fun hr hf k _ hk => ?_, fun hadd => ?_⟩, fun hr => ⟨hr, ?_, ?_, ?_, ?_⟩⟩
  · rw [hs'] at hr
    obtain ⟨p, hp, -, hread⟩ := hr hf k hk
    obtain rfl := Option.some.inj ((hdata hf).symm.trans hp)
    exact hread
  · rw [hs']
    intro hf k hk
    refine ⟨.host, hdata hf, hhost, ?_⟩
    rcases Nat.lt_or_ge k s.mem.size with hlow | hlow
    · obtain ⟨p, hp, -, hread⟩ := hi.reads hf k hlow
      obtain rfl := Option.some.inj ((hdata hf).symm.trans hp)
      exact hread
    · exact hadd hf k hlow hk
  · rw [hs']
    exact byteCount_lt cfg
  · rw [hs']
    exact hi.block
  · rw [hs']
    exact hi.freed
  · rw [hs']
    exact hi.external

theorem growZero_alloc (hv : ∀ c, cfg.variant ≠ .external c)
    (h : (s.mem.pages + pages.toNat) % 2 ^ 64 ≤ s.mem.maxPages) :
    GrowZero cfg s pages answer ↔
      if growSize cfg s.mem pages = 0 then s.mem.data = none ∨ s.mem.size = 0
      else ∀ old, answer = some old → ∀ k, copied s (growSize cfg s.mem pages) ≤ k →
        k < growSize cfg s.mem pages → old k = (s.stored k).getD 0 := by
  unfold GrowZero
  cases hvar : cfg.variant with
  | external c => exact absurd hvar (hv c)
  | static n => exact ⟨fun hf => hf h, fun hf _ => hf⟩
  | dynamic => exact ⟨fun hf => hf h, fun hf _ => hf⟩

/-- A grow reads right exactly when what it adds does. -/
theorem grow_reads (hi : ReadInv cfg s) (hs' : s' = (wasmRtGrowMemory cfg s pages answer).2) :
    (ReadsRight s' ↔ GrowZero cfg s pages answer) ∧ (ReadsRight s' → ReadInv cfg s') := by
  have hcase := @grow_case cfg s pages answer
  generalize wasmRtGrowMemory cfg s pages answer = r at hcase hs'
  cases hcase with
  | refused h =>
    replace hs' : s' = s := hs'
    rw [hs']
    exact ⟨iff_of_true hi.reads fun hle => absurd hle (Nat.not_le.mpr h), fun _ => hi⟩
  | external capacity hv h =>
    obtain ⟨hiff, hkeep⟩ := external_reads hi hv hs'
    refine ⟨hiff.trans ?_, hkeep⟩
    unfold GrowZero
    simp only [hv]
    exact ⟨fun hadd _ => hadd, fun hadd => hadd h⟩
  | empty hv h hz hd =>
    replace hs' : s' = s := hs'
    rw [hs', growZero_alloc hv h, if_pos hz]
    exact ⟨iff_of_true hi.reads (Or.inl hd), fun _ => hi⟩
  | dropped p hv h hz hd =>
    rw [growZero_alloc hv h, if_pos hz, hd]
    have hdead : ¬ (s.heap.free p).live p = true := by
      have hfree : (s.heap.free p).live p = false := Function.update_self ..
      rw [hfree]
      exact Bool.false_ne_true
    refine ⟨⟨fun hr => Or.inr ?_, fun hsize => ?_⟩, fun hr => ⟨hr, ?_, ?_, ?_, ?_⟩⟩
    · by_contra hne
      rw [hs'] at hr
      obtain ⟨q, hq, hlive, -⟩ := hr (hi.not_freed hd) 0 (Nat.pos_of_ne_zero hne)
      obtain rfl := Option.some.inj (hd.symm.trans hq)
      exact hdead hlive
    · have hsize' : s.mem.size = 0 := hsize.resolve_left (Option.some_ne_none p)
      rw [hs']
      intro _ k hk
      dsimp only at hk
      omega
    · rw [hs']
      exact hi.size_lt
    · rw [hs']
      exact hi.block
    · rw [hs']
      exact hi.freed
    · exact fun c hc => absurd hc (hv c)
  | failed hv h hz ha =>
    replace hs' : s' = s := hs'
    rw [hs', growZero_alloc hv h, if_neg hz, ha]
    exact ⟨iff_of_true hi.reads fun _ hold => absurd hold.symm (Option.some_ne_none _), fun _ => hi⟩
  | moved old heap hv h hz ha hheap =>
    subst ha
    obtain ⟨hiff, hkeep⟩ := moved_reads hi hv hz hheap hs'
    refine ⟨hiff.trans ?_, hkeep⟩
    rw [growZero_alloc hv h, if_neg hz]
    exact ⟨fun hadd _ hold => Option.some.inj hold ▸ hadd, fun hadd => hadd old rfl⟩

theorem free_reads (hi : ReadInv cfg s) : ReadInv cfg (wasmRtFreeMemory cfg s) := by
  unfold wasmRtFreeMemory
  split
  next p hv hd =>
    refine ⟨fun hf => Bool.noConfusion hf, hi.size_lt,
      fun _ hn => absurd hn.symm (Option.some_ne_none _), fun _ => rfl, ?_⟩
    exact fun _ hc => by rw [hv] at hc; cases hc
  next => exact hi

theorem store_reads (hi : ReadInv cfg s) (k : Nat) (v : UInt8) :
    ReadInv cfg (moduleStore s k v) := by
  unfold moduleStore
  split
  next =>
    split
    next p hd =>
      refine ⟨fun hf j hj => ?_, hi.size_lt, hi.block, hi.freed, hi.external⟩
      obtain ⟨q, hq, hlive, hread⟩ := hi.reads hf j hj
      obtain rfl := Option.some.inj (hd.symm.trans hq)
      refine ⟨p, hd, hlive, ?_⟩
      dsimp only [Heap.store]
      rw [Function.update_self]
      by_cases hjk : j = k
      · rw [hjk, Function.update_self, Function.update_self]
        rfl
      · rw [Function.update_of_ne hjk, Function.update_of_ne hjk, hread]
    next => exact hi
  next => exact hi

theorem call_reads {op : MemOp} (hi : ReadInv cfg s) (h : memStep cfg s op = some s') :
    (ReadsRight s' ↔ CallZero cfg s op s') ∧ (ReadsRight s' → ReadInv cfg s') := by
  cases op with
  | allocate initialPages maxPages is64 answer => exact allocate_reads hi h
  | grow pages answer => exact grow_reads hi (Option.some.inj h).symm
  | free =>
    have hkeep : ReadInv cfg s' := Option.some.inj h ▸ free_reads hi
    exact ⟨iff_of_true hkeep.reads trivial, fun _ => hkeep⟩
  | store k v =>
    have hkeep : ReadInv cfg s' := Option.some.inj h ▸ store_reads hi k v
    exact ⟨iff_of_true hkeep.reads trivial, fun _ => hkeep⟩

end

/-! ## Runs -/

/-- The memory reads right all along a run exactly when every buffer the run is handed is zero
where nothing is copied to it. -/
theorem memory_reads_right_iff (cfg : Config) (host : Nat → UInt8) (ops : List MemOp) :
    AlongRun cfg (fun _ _ s' => ReadsRight s') (.boot cfg host) ops ↔
      AlongRun cfg (CallZero cfg) (.boot cfg host) ops :=
  alongRun_iff (fun _ _ _ hi h => (call_reads hi h).1) (fun _ _ _ hi h => (call_reads hi h).2) ops
    (boot_readInv cfg host)

/-- A dynamic build on a 32-bit target. -/
def dynamicBuild : Config := ⟨32, 65536, .dynamic, width_32, page_64k, trivial⟩

/-- A recycled block is handed to the module as it is. -/
theorem recycled_block :
    ¬ AlongRun dynamicBuild (fun _ _ s' => ReadsRight s') (.boot dynamicBuild fun _ => 0)
      [.allocate 1 1 false (some fun _ => 0xaa)] := by
  intro h
  obtain ⟨p, hp, -, hread⟩ := (h _ rfl).1 rfl 0 (by decide)
  obtain rfl := Option.some.inj hp
  exact absurd hread (by decide)

end Udynlink.Wasm
