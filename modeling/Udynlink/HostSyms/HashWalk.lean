import Udynlink.HostSyms.HashLookup

/-!
# Walks over the chain

A walk that starts at the head of a bucket sees the positions of the bucket from
there on. What it returns for a listed name depends on whether the position of the
symbol in the list is among them.
-/

namespace Udynlink.HostSyms

/-! ## The chain -/

section

variable {hashes : List UInt32} {nbuckets : Nat}

/-- The last position of its bucket. -/
def Last (hashes : List UInt32) (nbuckets : Nat) (gis : List Nat) (j : Nat) : Prop :=
  j + 1 = gis.length ∨
    bucketAt hashes nbuckets gis j ≠ bucketAt hashes nbuckets gis (j + 1)

theorem open_value (h : UInt32) :
    (h &&& 0xFFFFFFFE) ||| 1 = h ||| 1 ∧ (h &&& 0xFFFFFFFE) &&& 1 = 0 := by
  constructor
  · apply UInt32.eq_of_toBitVec_eq
    ext i hi
    have hi' : i < 32 := hi
    simp only [UInt32.toBitVec_or, UInt32.toBitVec_and, BitVec.getElem_or, BitVec.getElem_and]
    interval_cases i <;> simp
  · have hbits : (0xFFFFFFFE : UInt32) &&& 1 = 0 := by decide
    rw [UInt32.and_assoc, hbits, UInt32.and_zero]

theorem marked_value (h : UInt32) :
    (h &&& 0xFFFFFFFE ||| 1) ||| 1 = h ||| 1 ∧ (h &&& 0xFFFFFFFE ||| 1) &&& 1 ≠ 0 := by
  constructor
  · rw [UInt32.or_assoc, UInt32.or_self]
    exact (open_value h).1
  · rw [or_covers_self]
    decide

theorem chainValues_at (gis : List Nat) {j : Nat} (hj : j < gis.length) :
    ∃ hv, (chainValues hashes nbuckets gis)[j]? = some hv ∧
      hv ||| 1 = hashAt hashes (gis.getD j 0) ||| 1 ∧
      (hv &&& 1 ≠ 0 ↔ Last hashes nbuckets gis j) := by
  induction gis generalizing j with
  | nil => exact absurd hj (Nat.not_lt_zero j)
  | cons gi gis ih =>
    cases gis with
    | nil =>
      obtain rfl : j = 0 := by simp at hj; exact hj
      exact ⟨_, rfl, (marked_value _).1, iff_of_true (marked_value _).2 (Or.inl rfl)⟩
    | cons gj gis =>
      cases j with
      | zero =>
        rw [chainValues, List.getElem?_cons_zero]
        refine ⟨_, rfl, ?_⟩
        have hlast : Last hashes nbuckets (gi :: gj :: gis) 0 ↔
            bucketOf nbuckets (hashAt hashes gi) ≠ bucketOf nbuckets (hashAt hashes gj) := by
          rw [Last]
          exact or_iff_right (by simp)
        rw [hlast]
        split
        next hne => exact ⟨(marked_value _).1, iff_of_true (marked_value _).2 hne⟩
        next hne => exact ⟨(open_value _).1, iff_of_false (not_not.mpr (open_value _).2) hne⟩
      | succ j =>
        obtain ⟨hv, hget, hval, hmark⟩ := ih (j := j) (by simp at hj ⊢; omega)
        rw [chainValues, List.getElem?_cons_succ]
        refine ⟨hv, hget, hval, hmark.trans ?_⟩
        have hsucc : ∀ k, bucketAt hashes nbuckets (gi :: gj :: gis) (k + 1) =
            bucketAt hashes nbuckets (gj :: gis) k := fun _ => rfl
        rw [Last, Last, hsucc, hsucc]
        simp

/-- Positions of one bucket are next to each other. -/
theorem bucketAt_between {j k l : Nat} (hjk : j ≤ k) (hkl : k ≤ l)
    (hl : l < (globalIndices hashes nbuckets).length)
    (h : bucketAt hashes nbuckets (globalIndices hashes nbuckets) j =
      bucketAt hashes nbuckets (globalIndices hashes nbuckets) l) :
    bucketAt hashes nbuckets (globalIndices hashes nbuckets) k =
      bucketAt hashes nbuckets (globalIndices hashes nbuckets) l := by
  have hsorted : (globalIndices hashes nbuckets).Pairwise fun i j =>
      bucketOf nbuckets (hashAt hashes i) ≤ bucketOf nbuckets (hashAt hashes j) := by
    have htotal : Std.Total fun i j =>
        bucketOf nbuckets (hashAt hashes i) ≤ bucketOf nbuckets (hashAt hashes j) :=
      ⟨fun _ _ => Nat.le_total _ _⟩
    have htrans : IsTrans Nat fun i j =>
        bucketOf nbuckets (hashAt hashes i) ≤ bucketOf nbuckets (hashAt hashes j) :=
      ⟨fun _ _ _ => Nat.le_trans⟩
    exact List.pairwise_insertionSort _ _
  have hmono : ∀ {i j : Nat}, i ≤ j → j < (globalIndices hashes nbuckets).length →
      bucketAt hashes nbuckets (globalIndices hashes nbuckets) i ≤
        bucketAt hashes nbuckets (globalIndices hashes nbuckets) j := by
    intro i j hij hj
    rcases Nat.lt_or_eq_of_le hij with hlt | rfl
    · rw [bucketAt, bucketAt, List.getD_eq_getElem?_getD, List.getD_eq_getElem?_getD,
        List.getElem?_eq_getElem (by omega), List.getElem?_eq_getElem hj]
      exact List.pairwise_iff_getElem.mp hsorted i j (by omega) hj hlt
    · exact Nat.le_refl _
  have h1 := hmono hjk (by omega)
  have h2 := hmono hkl hl
  omega

/-- Every symbol has a position. -/
theorem exists_position {i : Nat} (hi : i < hashes.length) :
    ∃ k, k < (globalIndices hashes nbuckets).length ∧
      (globalIndices hashes nbuckets).getD k 0 = i := by
  have hmem : i ∈ globalIndices hashes nbuckets := by
    rw [globalIndices, (List.perm_insertionSort _ _).mem_iff]
    exact List.mem_range.mpr hi
  obtain ⟨k, hk, heq⟩ := List.mem_iff_getElem.mp hmem
  refine ⟨k, hk, ?_⟩
  rw [List.getD_eq_getElem?_getD, List.getElem?_eq_getElem hk, heq]
  rfl

theorem globalIndices_length : (globalIndices hashes nbuckets).length = hashes.length := by
  rw [globalIndices, List.length_insertionSort, List.length_range]

end

/-! ## The walk -/

/-- What the walk relies on: every position has a value, a name and an address. -/
structure Chain (symbols : List HostSymbol) (hashes : List UInt32) (nbuckets : Nat)
    (indices : List Nat) (t : HashTable) : Prop where
  length : indices.length = symbols.length
  values : t.hashValues = chainValues hashes nbuckets indices
  addrs : t.symAddrs = symbols.map HostSymbol.addr
  strtab : t.strtab = strtabOf (symbols.map HostSymbol.name)
  offsets : t.strtabOffsets = strtabOffsets (symbols.map HostSymbol.name) 0

namespace Chain

variable {symbols : List HostSymbol} {hashes : List UInt32} {nbuckets : Nat} {indices : List Nat}
  {t : HashTable} {h : UInt32} {name : CString}

/-- The position has the name, and the hash the name is compared for. -/
def Hit (symbols : List HostSymbol) (hashes : List UInt32) (indices : List Nat) (h : UInt32)
    (name : CString) (j : Nat) : Prop :=
  hashAt hashes (indices.getD j 0) ||| 1 = h ||| 1 ∧
    ∃ s, symbols[j]? = some s ∧ s.name = name

/-- One position of a walk. -/
theorem step (hc : Chain symbols hashes nbuckets indices t) {j : Nat} {s : HostSymbol}
    (hs : symbols[j]? = some s) :
    (Hit symbols hashes indices h name j →
        walkChain t h name (t.hashValues.drop j) j = .ok s.addr) ∧
      (¬ Hit symbols hashes indices h name j → Last hashes nbuckets indices j →
        walkChain t h name (t.hashValues.drop j) j = .ok 0) ∧
      (¬ Hit symbols hashes indices h name j → ¬ Last hashes nbuckets indices j →
        walkChain t h name (t.hashValues.drop j) j =
          walkChain t h name (t.hashValues.drop (j + 1)) (j + 1)) := by
  have hj : j < indices.length := by
    rw [hc.length]
    exact (List.getElem?_eq_some_iff.mp hs).1
  obtain ⟨hv, hget, hval, hmark⟩ := @chainValues_at hashes nbuckets indices j hj
  have hdrop : t.hashValues.drop j = hv :: t.hashValues.drop (j + 1) := by
    rw [← hc.values] at hget
    obtain ⟨hlt, heq⟩ := List.getElem?_eq_some_iff.mp hget
    rw [List.drop_eq_getElem_cons hlt, heq]
  have haddr : readAt t.symAddrs j = .ok s.addr := by
    rw [readAt, hc.addrs, List.getElem?_map, hs]
    rfl
  have hname : (symbols.map HostSymbol.name)[j]? = some s.name := by
    rw [List.getElem?_map, hs]
    rfl
  obtain ⟨k, rest, hoff, hstr⟩ := strtab_at 0 hname
  have hoffset : readAt t.strtabOffsets j = .ok k := by
    rw [readAt, hc.offsets, hoff, Nat.zero_add]
  have hcmp : strcmpEq (t.strtab.drop k) name.bytes = .ok (decide (s.name = name)) := by
    rw [hc.strtab, hstr, strcmpEq_terminated _ s.name.noNul _ _ name.noNul]
    congr 1
    rw [decide_eq_decide]
    exact ⟨fun h => by cases hx : s.name; cases hy : name; simp_all, fun h => h ▸ rfl⟩
  have hiff : Hit symbols hashes indices h name j ↔ hv ||| 1 = h ||| 1 ∧ s.name = name := by
    rw [Hit, hval, hs]
    simp
  have hhit : compareAt t h name hv j = .ok (decide (hv ||| 1 = h ||| 1 ∧ s.name = name)) := by
    unfold compareAt
    by_cases hx : hv ||| 1 = h ||| 1
    · rw [if_pos hx, hoffset]
      show strcmpEq (t.strtab.drop k) name.bytes = _
      rw [hcmp]
      simp [hx]
    · rw [if_neg hx]
      simp [hx]
      rfl
  rw [hdrop, walkChain, hhit, hiff]
  show (_ → (if _ then _ else _) = _) ∧ (_ → _ → (if _ then _ else _) = _) ∧
    (_ → _ → (if _ then _ else _) = _)
  refine ⟨fun hx => ?_, fun hx hl => ?_, fun hx hl => ?_⟩
  · rw [if_pos (by simpa using hx), haddr]
  · rw [if_neg (by simpa using hx), if_pos (hmark.mpr hl)]
    rfl
  · rw [if_neg (by simpa using hx), if_neg (fun hm => hl (hmark.mp hm))]

/-- A walk that reaches the position of the name returns its address. -/
theorem walk_hit (hc : Chain symbols hashes nbuckets indices t) {i : Nat} {s : HostSymbol}
    (hs : symbols[i]? = some s) (hhit : Hit symbols hashes indices h name i) (d : Nat) :
    ∀ j, j + d = i → (∀ k, j ≤ k → k < i → ¬ Hit symbols hashes indices h name k ∧
      ¬ Last hashes nbuckets indices k) →
    walkChain t h name (t.hashValues.drop j) j = .ok s.addr := by
  induction d with
  | zero =>
    intro j hj _
    obtain rfl : j = i := hj
    exact (hc.step hs).1 hhit
  | succ d ih =>
    intro j hj hk
    have hlt : j < symbols.length := by
      have := (List.getElem?_eq_some_iff.mp hs).1
      omega
    obtain ⟨hno, hopen⟩ := hk j (Nat.le_refl j) (by omega)
    rw [(hc.step (List.getElem?_eq_getElem hlt)).2.2 hno hopen]
    exact ih (j + 1) (by omega) fun k hle hlt' => hk k (by omega) hlt'

/-- A walk that sees no position of the name ends at the next mark. -/
theorem walk_miss (hc : Chain symbols hashes nbuckets indices t) {e : Nat}
    (he : e < symbols.length) (hlast : Last hashes nbuckets indices e) (d : Nat) :
    ∀ j, j + d = e → (∀ k, j ≤ k → k ≤ e → ¬ Hit symbols hashes indices h name k) →
    walkChain t h name (t.hashValues.drop j) j = .ok 0 := by
  induction d with
  | zero =>
    intro j hj hk
    obtain rfl : j = e := hj
    exact (hc.step (List.getElem?_eq_getElem he)).2.1 (hk j (Nat.le_refl j) (Nat.le_refl j)) hlast
  | succ d ih =>
    intro j hj hk
    have hno := hk j (Nat.le_refl j) (by omega)
    have hj' := List.getElem?_eq_getElem (l := symbols) (show j < symbols.length by omega)
    by_cases hl : Last hashes nbuckets indices j
    · exact (hc.step hj').2.1 hno hl
    · rw [(hc.step hj').2.2 hno hl]
      exact ih (j + 1) (by omega) fun k hle hle' => hk k (by omega) hle'

end Chain



/-! ## Lookups -/

section

variable {symbols : List HostSymbol} {nbuckets bloomSize : Option Nat}

def hashesOf (symbols : List HostSymbol) : List UInt32 := symbols.map fun s => gnuHash s.name.bytes

def bucketCount (symbols : List HostSymbol) (nbuckets : Option Nat) : Nat :=
  nbuckets.getD (autoBuckets symbols.length)

def chainOrder (symbols : List HostSymbol) (nbuckets : Option Nat) : List Nat :=
  globalIndices (hashesOf symbols) (bucketCount symbols nbuckets)

/-- Every symbol stands in the list at a position of its own bucket, where a hash is
found that passes for its own; and the first bucket has no second symbol. -/
structure ChainsInPlace (symbols : List HostSymbol) (nbuckets : Option Nat) : Prop where
  bucket : ∀ i, i < symbols.length →
    bucketAt (hashesOf symbols) (bucketCount symbols nbuckets) (chainOrder symbols nbuckets) i =
      bucketOf (bucketCount symbols nbuckets) (hashAt (hashesOf symbols) i)
  hash : ∀ i, i < symbols.length →
    hashAt (hashesOf symbols) ((chainOrder symbols nbuckets).getD i 0) ||| 1 =
      hashAt (hashesOf symbols) i ||| 1
  single : 1 < symbols.length →
    bucketAt (hashesOf symbols) (bucketCount symbols nbuckets) (chainOrder symbols nbuckets) 0 ≠
      bucketAt (hashesOf symbols) (bucketCount symbols nbuckets) (chainOrder symbols nbuckets) 1

theorem autoBuckets_pos (n : Nat) : 1 ≤ autoBuckets n := by
  obtain ⟨k, hk⟩ := nextPowerOf2_isPow (max (n / 4) 1)
  rw [autoBuckets, hk]
  exact Nat.two_pow_pos k

theorem build_chain (hne : symbols ≠ []) :
    Chain symbols (hashesOf symbols) (bucketCount symbols nbuckets) (chainOrder symbols nbuckets)
      (buildHashTable symbols nbuckets bloomSize) := by
  unfold buildHashTable
  rw [if_neg hne]
  refine ⟨?_, rfl, rfl, rfl, rfl⟩
  rw [chainOrder, globalIndices_length, hashesOf, List.length_map]

theorem hashAt_of {i : Nat} {s : HostSymbol} (hs : symbols[i]? = some s) :
    hashAt (hashesOf symbols) i = gnuHash s.name.bytes := by
  rw [hashAt, hashesOf, List.getD_eq_getElem?_getD, List.getElem?_map, hs]
  rfl

/-- A lookup is a walk from the head of the bucket, when the filter lets it through. -/
theorem resolve_walk (hne : symbols ≠ []) (hb : 1 ≤ bucketCount symbols nbuckets) (name : CString) :
    let t := buildHashTable symbols nbuckets bloomSize
    let head := t.buckets.getD (bucketOf (bucketCount symbols nbuckets) (gnuHash name.bytes)) 0
    (gnuHash name.bytes ∉ hashesOf symbols ∧ resolveHashedSymbol t name = .ok 0) ∨
      resolveHashedSymbol t name =
        walkChain t (gnuHash name.bytes) name (t.hashValues.drop head) head := by
  intro t head
  have ht : t = buildHashTable symbols nbuckets bloomSize := rfl
  unfold buildHashTable at ht
  rw [if_neg hne] at ht
  have hbuckets : t.buckets.length = bucketCount symbols nbuckets := by
    rw [ht]
    dsimp only
    rw [fillBuckets_length, List.length_replicate]
    rfl
  have hlt : bucketOf (bucketCount symbols nbuckets) (gnuHash name.bytes) < t.buckets.length := by
    rw [hbuckets]
    exact Nat.mod_lt _ (by omega)
  have hhead : readAt t.buckets ((gnuHash name.bytes).toNat % t.nbuckets) = .ok head := by
    have hn : t.nbuckets = bucketCount symbols nbuckets := by rw [ht]; rfl
    rw [hn]
    show readAt t.buckets (bucketOf (bucketCount symbols nbuckets) (gnuHash name.bytes)) =
      .ok (t.buckets.getD _ 0)
    rw [readAt, List.getD_eq_getElem?_getD, List.getElem?_eq_getElem hlt]
    rfl
  obtain ⟨hlen, hcov⟩ := @buildBloom_covers (hashesOf symbols)
    (bloomSize.getD (autoBloomSize symbols.length))
  have hbloom : t.bloom = buildBloom (hashesOf symbols)
      (nextPowerOf2 (bloomSize.getD (autoBloomSize symbols.length))) := by rw [ht]; rfl
  have hsize : t.bloomSize = nextPowerOf2 (bloomSize.getD (autoBloomSize symbols.length)) := by
    rw [ht]
  have hshift : t.bloomShift = bloomShift := by rw [ht]
  have hoffset : t.symoffset = 0 := by rw [ht]
  have hidx : ((gnuHash name.bytes).toNat / 32) &&& (t.bloomSize - 1) < t.bloom.length := by
    rw [hbloom, hlen, hsize]
    exact bloomIndex_lt _ _
  have hword : readAt t.bloom (((gnuHash name.bytes).toNat / 32) &&& (t.bloomSize - 1)) =
      .ok t.bloom[((gnuHash name.bytes).toNat / 32) &&& (t.bloomSize - 1)] := by
    rw [readAt, List.getElem?_eq_getElem hidx]
  unfold resolveHashedSymbol
  dsimp only
  rw [hword]
  show (_ ∧ (if _ then _ else _) = _) ∨ (if _ then _ else _) = _
  by_cases hmask : t.bloom[((gnuHash name.bytes).toNat / 32) &&& (t.bloomSize - 1)] &&&
      bloomMask (gnuHash name.bytes) t.bloomShift = bloomMask (gnuHash name.bytes) t.bloomShift
  · rw [if_neg (not_not.mpr hmask), hhead]
    refine Or.inr ?_
    show (if _ then _ else _) = _
    rw [hoffset, if_neg (Nat.not_lt_zero _), Nat.sub_zero]
  · refine Or.inl ⟨fun hmem => hmask ?_, by rw [if_pos hmask]; rfl⟩
    obtain ⟨word, hw, hc⟩ := hcov _ hmem
    rw [← hbloom, ← hsize] at hw
    rw [List.getElem?_eq_getElem hidx, Option.some.injEq] at hw
    rw [hw, hshift]
    exact hc

/-- The head of a bucket, in the order of the chain. -/
theorem build_head (hne : symbols ≠ []) {b : Nat} (hb : b < bucketCount symbols nbuckets) :
    let head := (buildHashTable symbols nbuckets bloomSize).buckets.getD b 0
    let place := bucketAt (hashesOf symbols) (bucketCount symbols nbuckets)
      (chainOrder symbols nbuckets)
    (head = 0 ∧ ∀ k, k < symbols.length → place k = b → k = 0) ∨
      (head < symbols.length ∧ head ≠ 0 ∧ place head = b ∧ ∀ k, k < head → place k = b → k = 0) := by
  intro head place
  have hlen : (chainOrder symbols nbuckets).length = symbols.length :=
    (@build_chain symbols nbuckets bloomSize hne).length
  have hhead : head = (fillBuckets (hashesOf symbols) (bucketCount symbols nbuckets) 0
      (chainOrder symbols nbuckets) 0 (List.replicate (bucketCount symbols nbuckets) 0)).getD b 0 := by
    show (buildHashTable symbols nbuckets bloomSize).buckets.getD b 0 = _
    unfold buildHashTable
    rw [if_neg hne]
    rfl
  have hzero : (List.replicate (bucketCount symbols nbuckets) 0).getD b 0 = 0 := by
    rw [List.getD_eq_getElem?_getD, List.getElem?_replicate]
    split <;> rfl
  cases @fillBuckets_head (hashesOf symbols) (bucketCount symbols nbuckets)
      (chainOrder symbols nbuckets) 0 (List.replicate (bucketCount symbols nbuckets) 0) b
      (by rw [List.length_replicate]; exact hb) hzero with
  | inl hx =>
    obtain ⟨h0, hall⟩ := hx
    refine Or.inl ⟨hhead.trans h0, fun k hk hp => ?_⟩
    have := hall k (by omega) hp
    omega
  | inr hx =>
    obtain ⟨s, hs, hval, hs0, hplace, hall⟩ := hx
    rw [Nat.zero_add] at hval hs0
    rw [← hhead] at hval
    rw [hval]
    refine Or.inr ⟨by omega, hs0, hplace, fun k hk hp => ?_⟩
    have := hall k hk hp
    omega

end

end Udynlink.HostSyms
