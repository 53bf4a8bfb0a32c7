import Udynlink.HostSyms.HashWalk

/-!
# What a lookup returns

A listed name is found exactly when its symbol stands in place; every other name
is answered with NULL, and no lookup reads outside of the tables.
-/

namespace Udynlink.HostSyms

section

variable {symbols : List HostSymbol} {nbuckets bloomSize : Option Nat} {name : CString}
  {i : Nat} {s : HostSymbol}

theorem bucketCount_pos (hb : ∀ n, nbuckets = some n → 1 ≤ n) :
    1 ≤ bucketCount symbols nbuckets := by
  cases nbuckets with
  | none => exact autoBuckets_pos _
  | some n => exact hb n rfl

/-- Names are distinct: only the symbol's own position has its name. -/
theorem hit_position (hd : (symbols.map HostSymbol.name).Nodup) (hs : symbols[i]? = some s)
    {hashes : List UInt32} {indices : List Nat} {h : UInt32} {k : Nat}
    (hk : Chain.Hit symbols hashes indices h s.name k) : k = i := by
  obtain ⟨-, t, ht, hname⟩ := hk
  exact position_unique hd ht hs hname

/-- A walk in which no position has the name ends with NULL. -/
theorem walk_none {hashes : List UInt32} {nb : Nat} {indices : List Nat} {t : HashTable}
    (hc : Chain symbols hashes nb indices t) {h : UInt32} {j : Nat} (hj : j < symbols.length)
    (hk : ∀ k, j ≤ k → k < symbols.length → ¬ Chain.Hit symbols hashes indices h name k) :
    walkChain t h name (t.hashValues.drop j) j = .ok 0 := by
  have hlen := hc.length
  have hlast : Last hashes nb indices (symbols.length - 1) := Or.inl (by omega)
  exact hc.walk_miss (by omega) hlast (symbols.length - 1 - j) j (by omega)
    fun k hle hle' => hk k hle (by omega)

/-- A head is a position, if only the first. -/
theorem head_lt (hne : symbols ≠ []) {b : Nat} (hb : b < bucketCount symbols nbuckets) :
    (buildHashTable symbols nbuckets bloomSize).buckets.getD b 0 < symbols.length := by
  have hpos := List.length_pos_iff.mpr hne
  cases @build_head symbols nbuckets bloomSize hne b hb with
  | inl hx => omega
  | inr hx => exact hx.1

/-- A lookup that compares no position of the name returns NULL. -/
theorem resolve_none (hne : symbols ≠ []) (hb : 1 ≤ bucketCount symbols nbuckets)
    (hk : ∀ k, (buildHashTable symbols nbuckets bloomSize).buckets.getD
        (bucketOf (bucketCount symbols nbuckets) (gnuHash name.bytes)) 0 ≤ k →
      k < symbols.length → ¬ Chain.Hit symbols (hashesOf symbols) (chainOrder symbols nbuckets)
        (gnuHash name.bytes) name k) :
    resolveHashedSymbol (buildHashTable symbols nbuckets bloomSize) name = .ok 0 := by
  cases @resolve_walk symbols nbuckets bloomSize hne hb name with
  | inl hx => exact hx.2
  | inr hx =>
    rw [hx]
    exact walk_none (build_chain hne) (head_lt hne (Nat.mod_lt _ (by omega))) hk

theorem resolve_unlisted (hne : symbols ≠ []) (hb : 1 ≤ bucketCount symbols nbuckets)
    (hname : ∀ s ∈ symbols, s.name ≠ name) :
    resolveHashedSymbol (buildHashTable symbols nbuckets bloomSize) name = .ok 0 := by
  refine resolve_none hne hb fun k _ _ hhit => ?_
  obtain ⟨-, t, ht, hx⟩ := hhit
  exact hname t (List.mem_of_getElem? ht) hx

/-- A symbol in place is found. -/
theorem resolve_listed (hne : symbols ≠ []) (hb : 1 ≤ bucketCount symbols nbuckets)
    (hd : (symbols.map HostSymbol.name).Nodup) (hp : ChainsInPlace symbols nbuckets)
    (hs : symbols[i]? = some s) :
    resolveHashedSymbol (buildHashTable symbols nbuckets bloomSize) s.name = .ok s.addr := by
  have hi := (List.getElem?_eq_some_iff.mp hs).1
  have hh := hashAt_of hs
  have hlen : (chainOrder symbols nbuckets).length = symbols.length :=
    (@build_chain symbols nbuckets bloomSize hne).length
  have hplace := hp.bucket i hi
  have hhash := hp.hash i hi
  rw [hh] at hplace hhash
  have hlt : bucketOf (bucketCount symbols nbuckets) (gnuHash s.name.bytes) <
      bucketCount symbols nbuckets := Nat.mod_lt _ (by omega)
  have hmem : gnuHash s.name.bytes ∈ hashesOf symbols :=
    List.mem_map_of_mem (List.mem_of_getElem? hs)
  have hwalk := (@resolve_walk symbols nbuckets bloomSize hne hb s.name).resolve_left
    fun hx => hx.1 hmem
  rw [hwalk]
  have hhit : Chain.Hit symbols (hashesOf symbols) (chainOrder symbols nbuckets)
      (gnuHash s.name.bytes) s.name i := ⟨hhash, s, hs, rfl⟩
  have hhead := @build_head symbols nbuckets bloomSize hne _ hlt
  generalize (buildHashTable symbols nbuckets bloomSize).buckets.getD
    (bucketOf (bucketCount symbols nbuckets) (gnuHash s.name.bytes)) 0 = head at hhead ⊢
  -- the head is not behind the symbol, and the positions between are of its bucket
  have hle : head ≤ i ∧ ∀ k, head ≤ k → k ≤ i →
      bucketAt (hashesOf symbols) (bucketCount symbols nbuckets) (chainOrder symbols nbuckets) k =
        bucketOf (bucketCount symbols nbuckets) (gnuHash s.name.bytes) := by
    cases hhead with
    | inl hx =>
      obtain ⟨h0, hall⟩ := hx
      have hz := hall i hi hplace
      refine ⟨by omega, fun k hk hk' => ?_⟩
      obtain rfl : k = i := by omega
      exact hplace
    | inr hx =>
      obtain ⟨hlt', h0, hbk, hall⟩ := hx
      have hle : head ≤ i := by
        by_contra hgt
        have hz := hall i (by omega) hplace
        subst hz
        have hone := @bucketAt_between (hashesOf symbols) (bucketCount symbols nbuckets) 0 1 head
          (by omega) (by omega) (by rw [← chainOrder, hlen]; exact hlt')
          (hplace.trans hbk.symm)
        exact hp.single (by omega) (hplace.trans (hbk.symm.trans hone.symm))
      refine ⟨hle, fun k hk hk' => ?_⟩
      rw [← hplace]
      exact bucketAt_between hk hk' (by rw [← chainOrder, hlen]; exact hi) (hbk.trans hplace.symm)
  obtain ⟨hle, hbetween⟩ := hle
  refine (build_chain hne).walk_hit hs hhit (i - head) head (by omega) fun k hk hk' => ⟨?_, ?_⟩
  · intro hx
    have := hit_position hd hs hx
    omega
  · rintro (hend | hdiff)
    · omega
    · exact hdiff ((hbetween k hk (by omega)).trans (hbetween (k + 1) (by omega) (by omega)).symm)

/-- Between a position of a bucket and a later one that is not, the bucket ends. -/
theorem exists_last {hashes : List UInt32} {nb : Nat} {indices : List Nat} {j k : Nat}
    (hjk : j ≤ k) (hne : bucketAt hashes nb indices k ≠ bucketAt hashes nb indices j) :
    ∃ e, j ≤ e ∧ e < k ∧ Last hashes nb indices e := by
  by_contra hno
  have hsame : ∀ d, j + d ≤ k →
      bucketAt hashes nb indices (j + d) = bucketAt hashes nb indices j := by
    intro d
    induction d with
    | zero => exact fun _ => rfl
    | succ d ih =>
      intro hd
      have hone := ih (by omega)
      by_contra hdiff
      exact hno ⟨j + d, by omega, by omega, Or.inr (by
        rw [hone]
        exact Ne.symm hdiff)⟩
  have hall := hsame (k - j) (by omega)
  rw [show j + (k - j) = k by omega] at hall
  exact hne hall

/-- The head a listed name leads to is of the name's bucket. -/
theorem head_bucket (hne : symbols ≠ []) (hb : 1 ≤ bucketCount symbols nbuckets)
    (hs : symbols[i]? = some s) :
    bucketAt (hashesOf symbols) (bucketCount symbols nbuckets) (chainOrder symbols nbuckets)
      ((buildHashTable symbols nbuckets bloomSize).buckets.getD
        (bucketOf (bucketCount symbols nbuckets) (gnuHash s.name.bytes)) 0) =
      bucketOf (bucketCount symbols nbuckets) (gnuHash s.name.bytes) := by
  have hi := (List.getElem?_eq_some_iff.mp hs).1
  have hlen : (chainOrder symbols nbuckets).length = symbols.length :=
    (@build_chain symbols nbuckets bloomSize hne).length
  cases @build_head symbols nbuckets bloomSize hne
    (bucketOf (bucketCount symbols nbuckets) (gnuHash s.name.bytes))
    (Nat.mod_lt _ (by omega)) with
  | inl hy =>
    -- an unset head: the symbol has a position of its bucket, and it is the first
    obtain ⟨h0, hall⟩ := hy
    obtain ⟨k, hk, hki⟩ := @exists_position (hashesOf symbols)
      (bucketCount symbols nbuckets) i (by rw [hashesOf, List.length_map]; exact hi)
    have hk' : bucketAt (hashesOf symbols) (bucketCount symbols nbuckets)
        (chainOrder symbols nbuckets) k =
          bucketOf (bucketCount symbols nbuckets) (gnuHash s.name.bytes) := by
      rw [bucketAt, chainOrder, hki, hashAt_of hs]
    have hz := hall k (by rw [← hlen]; exact hk) hk'
    rw [h0, ← hz]
    exact hk'
  | inr hy => exact hy.2.2.1

/-- A symbol out of place is not. -/
theorem resolve_misplaced (hne : symbols ≠ []) (hb : 1 ≤ bucketCount symbols nbuckets)
    (hd : (symbols.map HostSymbol.name).Nodup) (hs : symbols[i]? = some s)
    (hout : bucketAt (hashesOf symbols) (bucketCount symbols nbuckets)
        (chainOrder symbols nbuckets) i ≠
          bucketOf (bucketCount symbols nbuckets) (hashAt (hashesOf symbols) i) ∨
      hashAt (hashesOf symbols) ((chainOrder symbols nbuckets).getD i 0) ||| 1 ≠
        hashAt (hashesOf symbols) i ||| 1 ∨
      i = 0 ∧ 1 < symbols.length ∧
        bucketAt (hashesOf symbols) (bucketCount symbols nbuckets) (chainOrder symbols nbuckets) 0 =
          bucketAt (hashesOf symbols) (bucketCount symbols nbuckets)
            (chainOrder symbols nbuckets) 1) :
    resolveHashedSymbol (buildHashTable symbols nbuckets bloomSize) s.name = .ok 0 := by
  have hi := (List.getElem?_eq_some_iff.mp hs).1
  have hh := hashAt_of hs
  rw [hh] at hout
  have hlen : (chainOrder symbols nbuckets).length = symbols.length :=
    (@build_chain symbols nbuckets bloomSize hne).length
  have hlt : bucketOf (bucketCount symbols nbuckets) (gnuHash s.name.bytes) <
      bucketCount symbols nbuckets := Nat.mod_lt _ (by omega)
  have hhead := @build_head symbols nbuckets bloomSize hne _ hlt
  have hbucket := @head_bucket symbols nbuckets bloomSize i s hne hb hs
  by_cases hhash : hashAt (hashesOf symbols) ((chainOrder symbols nbuckets).getD i 0) ||| 1 ≠
      gnuHash s.name.bytes ||| 1
  · refine resolve_none hne hb fun k _ _ hhit => ?_
    have hk := hit_position hd hs hhit
    rw [hk] at hhit
    exact hhash hhit.1
  · by_cases hafter : i < (buildHashTable symbols nbuckets bloomSize).buckets.getD
        (bucketOf (bucketCount symbols nbuckets) (gnuHash s.name.bytes)) 0
    · refine resolve_none hne hb fun k hk _ hhit => ?_
      have := hit_position hd hs hhit
      omega
    · cases @resolve_walk symbols nbuckets bloomSize hne hb s.name with
      | inl hx => exact hx.2
      | inr hx =>
        rw [hx]
        generalize (buildHashTable symbols nbuckets bloomSize).buckets.getD
          (bucketOf (bucketCount symbols nbuckets) (gnuHash s.name.bytes)) 0 = head
          at hhead hbucket hafter ⊢
        have hplace : bucketAt (hashesOf symbols) (bucketCount symbols nbuckets)
            (chainOrder symbols nbuckets) i ≠
              bucketOf (bucketCount symbols nbuckets) (gnuHash s.name.bytes) := by
          rcases hout with hx | hx | ⟨rfl, hn, heq⟩
          · exact hx
          · exact absurd hx hhash
          · -- two symbols in the first bucket: its head is behind position 0
            intro hzero
            cases hhead with
            | inl hy =>
              have := hy.2 1 hn (heq.symm.trans hzero)
              omega
            | inr hy =>
              have := hy.2.1
              omega
        have hlt' : head < i := by
          rcases Nat.lt_or_eq_of_le (Nat.le_of_not_lt hafter) with hx | rfl
          · exact hx
          · exact absurd hbucket hplace
        obtain ⟨e, hhe, hei, hlast⟩ := exists_last (Nat.le_of_lt hlt') fun hx =>
          hplace (hx.trans hbucket)
        refine (build_chain hne).walk_miss (by omega) hlast (e - head) head (by omega)
          fun k hk hk' hhit => ?_
        have := hit_position hd hs hhit
        omega

theorem bloomMask_ne_zero (h shift : UInt32) : bloomMask h shift ≠ 0 := by
  intro hz
  have hone : bloomMask h shift &&& (1 <<< (h % 32)) = 1 <<< (h % 32) := by
    rw [bloomMask, UInt32.or_comm]
    exact or_covers_self _ _
  rw [hz, UInt32.zero_and] at hone
  have hlt : (h % 32).toNat < 32 := by
    rw [UInt32.toNat_mod]
    exact Nat.mod_lt _ (by decide)
  have hval := congrArg UInt32.toNat hone
  rw [UInt32.toNat_shiftLeft, Nat.mod_eq_of_lt hlt] at hval
  have hpow : 1 <<< (h % 32).toNat < 2 ^ 32 := by
    rw [Nat.one_shiftLeft]
    exact Nat.pow_lt_pow_right (by decide) hlt
  rw [show (1 : UInt32).toNat = 1 from rfl, Nat.mod_eq_of_lt hpow, Nat.one_shiftLeft] at hval
  exact absurd hval (Nat.ne_of_lt (Nat.two_pow_pos (h % 32).toNat))

theorem resolve_empty (name : CString) :
    resolveHashedSymbol (buildHashTable [] nbuckets bloomSize) name = .ok 0 := by
  unfold buildHashTable resolveHashedSymbol
  rw [if_pos rfl]
  have hword : readAt emptyTable.bloom
      (((gnuHash name.bytes).toNat / 32) &&& (emptyTable.bloomSize - 1)) = .ok 0 := by
    show readAt [0] (((gnuHash name.bytes).toNat / 32) &&& 0) = .ok 0
    rw [Nat.and_zero]
    rfl
  dsimp only
  rw [hword]
  show (if _ then _ else _) = _
  rw [if_pos (by rw [UInt32.zero_and]; exact (bloomMask_ne_zero _ _).symm)]
  rfl

/-- Every name is answered as the list says exactly when the symbols stand in place. -/
theorem resolveHashed_exact_iff (symbols : List HostSymbol) (nbuckets bloomSize : Option Nat)
    (hl : Listed symbols) (hb : ∀ n, nbuckets = some n → 1 ≤ n) :
    (∀ name, resolveHashedSymbol (buildHashTable symbols nbuckets bloomSize) name =
        .ok (listedAddr symbols name)) ↔ ChainsInPlace symbols nbuckets := by
  have hcount := @bucketCount_pos symbols nbuckets hb
  by_cases hne : symbols = []
  · subst hne
    refine iff_of_true (fun name => ?_) ⟨fun i hi => ?_, fun i hi => ?_, fun hn => ?_⟩
    · exact resolve_empty name
    · exact absurd hi (Nat.not_lt_zero i)
    · exact absurd hi (Nat.not_lt_zero i)
    · exact absurd hn (Nat.not_lt_zero 1)
  constructor
  · intro hall
    have hplace : ∀ i (hi : i < symbols.length), ¬ _ := fun i hi hout => by
      have hs := List.getElem?_eq_getElem hi
      have h0 := @resolve_misplaced symbols nbuckets bloomSize i _ hne hcount hl.distinct hs hout
      rw [hall, listedAddr_at hl.distinct hs, Except.ok.injEq] at h0
      exact hl.address _ (List.getElem_mem hi) h0
    refine ⟨fun i hi => ?_, fun i hi => ?_, fun hn heq => ?_⟩
    · by_contra hx
      exact hplace i hi (Or.inl hx)
    · by_contra hx
      exact hplace i hi (Or.inr (Or.inl hx))
    · exact hplace 0 (by omega) (Or.inr (Or.inr ⟨rfl, hn, heq⟩))
  · intro hp name
    by_cases hname : ∃ s ∈ symbols, s.name = name
    · obtain ⟨s, hs, rfl⟩ := hname
      obtain ⟨i, hi⟩ := List.getElem?_of_mem hs
      rw [listedAddr_at hl.distinct hi]
      exact resolve_listed hne hcount hl.distinct hp hi
    · push Not at hname
      rw [listedAddr_unlisted hname]
      exact resolve_unlisted hne hcount hname

end

/-! ## Two symbols -/

def pairSymbols : List HostSymbol := [⟨⟨[97], by decide⟩, 0x800⟩, ⟨⟨[98], by decide⟩, 0x900⟩]

theorem pair_listed : Listed pairSymbols :=
  ⟨⟨by decide, by decide, by decide +kernel⟩, by decide⟩

/-- In two buckets both are found. -/
theorem resolveHashed_pair :
    resolveHashedSymbol (buildHashTable pairSymbols (some 2) none) ⟨[97], by decide⟩ = .ok 0x800 ∧
      resolveHashedSymbol (buildHashTable pairSymbols (some 2) none) ⟨[98], by decide⟩ =
        .ok 0x900 := by
  have hp : ChainsInPlace pairSymbols (some 2) :=
    ⟨by decide +kernel, by decide +kernel, by decide +kernel⟩
  have hall := (resolveHashed_exact_iff pairSymbols (some 2) none pair_listed
    (fun n hn => by cases hn; decide)).mpr hp
  exact ⟨hall ⟨[97], by decide⟩, hall ⟨[98], by decide⟩⟩

/-- In the one bucket the script chooses for them, the first is not. -/
theorem resolveHashed_lost : Listed pairSymbols ∧
    resolveHashedSymbol (buildHashTable pairSymbols none none) ⟨[97], by decide⟩ = .ok 0 ∧
    listedAddr pairSymbols ⟨[97], by decide⟩ = 0x800 :=
  ⟨pair_listed, by decide +kernel, by decide⟩

end Udynlink.HostSyms
