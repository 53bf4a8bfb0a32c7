import Udynlink.HostSyms.HashTable

/-!
# Lookups in the hash table

The chain is ordered by bucket, names and addresses are not: a name is found when
the position of its symbol in the list is one of its own bucket's chain, behind the
head the bucket records, and carries a hash that passes the comparison.
-/

namespace Udynlink.HostSyms

/-! ## Strings -/

theorem strcmpEq_terminated (name : List UInt8) (hn : 0 ∉ name) (rest query : List UInt8)
    (hq : 0 ∉ query) :
    strcmpEq (name ++ 0 :: rest) query = .ok (decide (name = query)) := by
  induction name generalizing query with
  | nil =>
    cases query with
    | nil => rfl
    | cons q qs =>
      have hne : (0 : UInt8) ≠ q := fun h => hq (h ▸ List.mem_cons_self)
      simp [strcmpEq, hne]
  | cons c cs ih =>
    rw [List.mem_cons, not_or] at hn
    cases query with
    | nil => simp [strcmpEq, Ne.symm hn.1]
    | cons q qs =>
      rw [List.mem_cons, not_or] at hq
      rw [List.cons_append, strcmpEq]
      by_cases h : c = q
      · rw [if_pos h, ih hn.2 qs hq.2, h]
        simp
      · rw [if_neg h]
        simp [h]

theorem strtab_at {names : List CString} {j : Nat} {name : CString} (off : Nat)
    (h : names[j]? = some name) :
    ∃ k rest, (strtabOffsets names off)[j]? = some (off + k) ∧
      (strtabOf names).drop k = name.bytes ++ 0 :: rest := by
  induction names generalizing j off with
  | nil => simp at h
  | cons n ns ih =>
    cases j with
    | zero =>
      rw [List.getElem?_cons_zero, Option.some.injEq] at h
      refine ⟨0, strtabOf ns, by simp [strtabOffsets], ?_⟩
      rw [h]
      simp [strtabOf]
    | succ j =>
      rw [List.getElem?_cons_succ] at h
      obtain ⟨k, rest, hoff, hdrop⟩ := ih (off + (n.bytes.length + 1)) h
      refine ⟨n.bytes.length + 1 + k, rest, ?_, ?_⟩
      · rw [strtabOffsets, List.getElem?_cons_succ, hoff, Nat.add_assoc]
      · rw [← hdrop, strtabOf, List.flatMap_cons, ← List.drop_drop]
        rw [show n.bytes.length + 1 = (n.bytes ++ [0]).length by simp, List.drop_left]
        rfl

/-! ## The Bloom filter -/

theorem doubleUntil_isPow (n fuel p : Nat) (hp : ∃ k, p = 2 ^ k) :
    ∃ k, doubleUntil n fuel p = 2 ^ k := by
  induction fuel generalizing p with
  | zero => exact hp
  | succ fuel ih =>
    rw [doubleUntil]
    split
    · obtain ⟨k, rfl⟩ := hp
      exact ih _ ⟨k + 1, (Nat.pow_succ 2 k).symm⟩
    · exact hp

theorem nextPowerOf2_isPow (n : Nat) : ∃ k, nextPowerOf2 n = 2 ^ k :=
  doubleUntil_isPow n n 1 ⟨0, rfl⟩

theorem covers_iff {w m : UInt32} :
    w &&& m = m ↔ ∀ i (hi : i < 32), m.toBitVec[i] = true → w.toBitVec[i] = true := by
  rw [← UInt32.toBitVec_inj, UInt32.toBitVec_and]
  constructor
  · intro h i hi hm
    have hbit := congrArg (fun v : BitVec 32 => v[i]) h
    simp only [BitVec.getElem_and, hm, Bool.and_true] at hbit
    exact hbit
  · intro h
    ext i hi
    rw [BitVec.getElem_and]
    cases hm : m.toBitVec[i] with
    | false => simp
    | true => simp [h i hi hm]

theorem or_covers {w m : UInt32} (x : UInt32) (h : w &&& m = m) : (w ||| x) &&& m = m := by
  rw [covers_iff] at h ⊢
  intro i hi hm
  simp [h i hi hm]

theorem or_covers_self (w m : UInt32) : (w ||| m) &&& m = m := by
  rw [covers_iff]
  intro i hi hm
  simp [hm]

/-- The word at `k` of a filter has the bits of the mask. -/
def Covered (bloom : List UInt32) (k : Nat) (mask : UInt32) : Prop :=
  ∃ word, bloom[k]? = some word ∧ word &&& mask = mask

theorem Covered.modify {bloom : List UInt32} {k : Nat} {mask : UInt32} (h : Covered bloom k mask)
    (j : Nat) (x : UInt32) : Covered (bloom.modify j (· ||| x)) k mask := by
  obtain ⟨word, hw, hc⟩ := h
  by_cases hjk : j = k
  · exact ⟨word ||| x, by simp [hjk, hw], or_covers x hc⟩
  · exact ⟨word, by simp [hjk, hw], hc⟩

/-- A filter keeps its size and loses no bits, and has those of every hash. -/
theorem bloom_covers {bloomSize : Nat} (hpos : 0 < bloomSize) {hashes bloom : List UInt32}
    (hlen : bloom.length = bloomSize) :
    let out := hashes.foldl (fun bloom h =>
      bloom.modify ((h.toNat / 32) % bloomSize) (· ||| bloomMask h bloomShift)) bloom
    out.length = bloomSize ∧ (∀ k mask, Covered bloom k mask → Covered out k mask) ∧
      ∀ h ∈ hashes, Covered out ((h.toNat / 32) % bloomSize) (bloomMask h bloomShift) := by
  induction hashes generalizing bloom with
  | nil => exact ⟨hlen, fun _ _ h => h, fun h hh => absurd hh List.not_mem_nil⟩
  | cons g gs ih =>
    obtain ⟨hl, hk, ha⟩ := @ih
      (bloom.modify ((g.toNat / 32) % bloomSize) (· ||| bloomMask g bloomShift)) (by simp [hlen])
    refine ⟨hl, fun k mask hc => hk k mask (hc.modify _ _), fun h hh => ?_⟩
    cases List.mem_cons.mp hh with
    | inl heq =>
      have hlt : (g.toNat / 32) % bloomSize < bloom.length := by
        rw [hlen]
        exact Nat.mod_lt _ hpos
      rw [heq]
      exact hk _ _ ⟨bloom[(g.toNat / 32) % bloomSize] ||| bloomMask g bloomShift, by simp [hlt],
        or_covers_self _ _⟩
    | inr hmem => exact ha h hmem

theorem buildBloom_covers {hashes : List UInt32} {n : Nat} :
    (buildBloom hashes (nextPowerOf2 n)).length = nextPowerOf2 n ∧
      ∀ h ∈ hashes, Covered (buildBloom hashes (nextPowerOf2 n))
        ((h.toNat / 32) &&& (nextPowerOf2 n - 1)) (bloomMask h bloomShift) := by
  obtain ⟨k, hk⟩ := nextPowerOf2_isPow n
  have hpos : 0 < nextPowerOf2 n := by
    rw [hk]
    exact Nat.two_pow_pos k
  obtain ⟨hl, -, ha⟩ := @bloom_covers _ hpos hashes _ (List.length_replicate (a := (0 : UInt32)))
  refine ⟨hl, fun h hh => ?_⟩
  have hidx : (h.toNat / 32) &&& (nextPowerOf2 n - 1) = (h.toNat / 32) % nextPowerOf2 n := by
    rw [hk, Nat.and_two_pow_sub_one_eq_mod]
  rw [hidx]
  exact ha h hh

/-- Every read of the filter is one of a word it has. -/
theorem bloomIndex_lt (h : UInt32) (n : Nat) :
    (h.toNat / 32) &&& (nextPowerOf2 n - 1) < nextPowerOf2 n := by
  obtain ⟨k, hk⟩ := nextPowerOf2_isPow n
  rw [hk, Nat.and_two_pow_sub_one_eq_mod]
  exact Nat.mod_lt _ (Nat.two_pow_pos k)

/-! ## Buckets -/

section

variable {hashes : List UInt32} {nbuckets : Nat}

/-- Bucket of the symbol at a position of the chain. -/
def bucketAt (hashes : List UInt32) (nbuckets : Nat) (indices : List Nat) (j : Nat) : Nat :=
  bucketOf nbuckets (hashAt hashes (indices.getD j 0))

theorem fillBuckets_length (gis : List Nat) (pos : Nat) (buckets : List Nat) :
    (fillBuckets hashes nbuckets 0 gis pos buckets).length = buckets.length := by
  induction gis generalizing pos buckets with
  | nil => rfl
  | cons gi gis ih =>
    rw [fillBuckets, ih]
    split
    · exact List.length_set
    · rfl

/-- A bucket that has a head keeps it. -/
theorem fillBuckets_kept (gis : List Nat) (pos : Nat) (buckets : List Nat) {b : Nat}
    (h : buckets.getD b 0 ≠ 0) :
    (fillBuckets hashes nbuckets 0 gis pos buckets).getD b 0 = buckets.getD b 0 := by
  induction gis generalizing pos buckets with
  | nil => rfl
  | cons gi gis ih =>
    unfold fillBuckets
    dsimp only
    by_cases hz : buckets.getD (bucketOf nbuckets (hashAt hashes gi)) 0 = 0
    · have hne : bucketOf nbuckets (hashAt hashes gi) ≠ b := by
        intro he
        rw [he] at hz
        exact h hz
      have hsame : (buckets.set (bucketOf nbuckets (hashAt hashes gi)) (pos + 0)).getD b 0 =
          buckets.getD b 0 := by
        rw [List.getD_eq_getElem?_getD, List.getElem?_set_ne hne, List.getD_eq_getElem?_getD]
      rw [if_pos hz, ih, hsame]
      rw [hsame]
      exact h
    · rw [if_neg hz]
      exact ih _ _ h

/-- The head of a bucket is the first position it has, position 0 aside. -/
theorem fillBuckets_head (gis : List Nat) (pos : Nat) (buckets : List Nat) {b : Nat}
    (hb : b < buckets.length) (h : buckets.getD b 0 = 0) :
    let head := (fillBuckets hashes nbuckets 0 gis pos buckets).getD b 0
    (head = 0 ∧ ∀ k, k < gis.length → bucketAt hashes nbuckets gis k = b → pos + k = 0) ∨
      ∃ s, s < gis.length ∧ head = pos + s ∧ pos + s ≠ 0 ∧ bucketAt hashes nbuckets gis s = b ∧
        ∀ k, k < s → bucketAt hashes nbuckets gis k = b → pos + k = 0 := by
  induction gis generalizing pos buckets with
  | nil => exact Or.inl ⟨h, fun k hk => absurd hk (Nat.not_lt_zero k)⟩
  | cons gi gis ih =>
    intro head
    have hhead : head = (fillBuckets hashes nbuckets 0 (gi :: gis) pos buckets).getD b 0 := rfl
    unfold fillBuckets at hhead
    dsimp only at hhead
    have hzero : bucketAt hashes nbuckets (gi :: gis) 0 = bucketOf nbuckets (hashAt hashes gi) := rfl
    have hsucc : ∀ k, bucketAt hashes nbuckets (gi :: gis) (k + 1) =
        bucketAt hashes nbuckets gis k := fun _ => rfl
    -- the step leaves the bucket empty, or gives it a head for good
    by_cases hfirst : bucketOf nbuckets (hashAt hashes gi) = b ∧ pos ≠ 0
    · obtain ⟨heq, hpos⟩ := hfirst
      have hset : (buckets.set b (pos + 0)).getD b 0 = pos := by
        rw [List.getD_eq_getElem?_getD, List.getElem?_set_self hb]
        rfl
      rw [heq, if_pos h, fillBuckets_kept _ _ _ (by rw [hset]; exact hpos), hset] at hhead
      refine Or.inr ⟨0, by simp, hhead, by omega, hzero.trans heq, fun k hk => absurd hk (by omega)⟩
    · have hstill : (if buckets.getD (bucketOf nbuckets (hashAt hashes gi)) 0 = 0 then
          buckets.set (bucketOf nbuckets (hashAt hashes gi)) (pos + 0) else buckets).getD b 0 = 0 := by
        split
        next hz =>
          by_cases heq : bucketOf nbuckets (hashAt hashes gi) = b
          · have hpos : pos = 0 := by_contra fun hne => hfirst ⟨heq, hne⟩
            rw [heq, List.getD_eq_getElem?_getD, List.getElem?_set_self hb, hpos]
            rfl
          · rw [List.getD_eq_getElem?_getD, List.getElem?_set_ne heq,
              ← List.getD_eq_getElem?_getD]
            exact h
        next => exact h
      have hlen : b < (if buckets.getD (bucketOf nbuckets (hashAt hashes gi)) 0 = 0 then
          buckets.set (bucketOf nbuckets (hashAt hashes gi)) (pos + 0) else buckets).length := by
        split
        · rw [List.length_set]
          exact hb
        · exact hb
      have hpos0 : bucketOf nbuckets (hashAt hashes gi) = b → pos = 0 := fun heq =>
        by_contra fun hne => hfirst ⟨heq, hne⟩
      cases ih (pos + 1) _ hlen hstill with
      | inl hx =>
        obtain ⟨h0, hall⟩ := hx
        refine Or.inl ⟨hhead.trans h0, fun k hk hbk => ?_⟩
        cases k with
        | zero => exact hpos0 (hzero.symm.trans hbk)
        | succ k =>
          rw [List.length_cons] at hk
          have := hall k (by omega) ((hsucc k).symm.trans hbk)
          omega
      | inr hx =>
        obtain ⟨s, hs, hval, hne, hbs, hall⟩ := hx
        refine Or.inr ⟨s + 1, by simp [hs], hhead.trans (hval.trans (by omega)), by omega,
          (hsucc s).trans hbs, fun k hk hbk => ?_⟩
        cases k with
        | zero => exact hpos0 (hzero.symm.trans hbk)
        | succ k =>
          have := hall k (by omega) ((hsucc k).symm.trans hbk)
          omega

end

end Udynlink.HostSyms
