import Udynlink.HostSyms.HashTable

/-!
# The host's symbol cache

A direct-mapped table in front of the resolver. What a resolver has answered is kept, also
when it was `UDYNLINK_SYM_DEFERRED`, which is not an answer for good. Addresses are of any
width: 0 is "not found" and 1 is deferred.
-/

namespace Udynlink.HostSyms

variable {W : Type} [DecidableEq W] [Zero W] [One W] {size : Nat} [NeZero size]

/-- `name` is a pointer in the source, NULL in an entry that is free. -/
structure SymCacheEntry (W : Type) where
  name : Option CString
  addr : W

abbrev SymCache (W : Type) (size : Nat) := Vector (SymCacheEntry W) size

def symCacheHash (name : CString) : UInt32 :=
  name.bytes.foldl (fun h c => h * 31 + c.toUInt32) 0

def symCacheIdx (size : Nat) [NeZero size] (name : CString) : Fin size :=
  ⟨(symCacheHash name).toNat % size, Nat.mod_lt _ (NeZero.pos size)⟩

def udynlinkHostSymCacheLookup (cache : SymCache W size) (name : CString)
    (fallback : CString → W) : W × SymCache W size :=
  let idx := symCacheIdx size name
  if cache[idx].name = some name then (cache[idx].addr, cache)
  else
    let addr := fallback name
    if addr ≠ 0 then (addr, cache.set idx ⟨some name, addr⟩) else (addr, cache)

omit [DecidableEq W] [One W] in
/-- All bytes are set to zero. -/
def udynlinkHostSymCacheInvalidate (_ : SymCache W size) : SymCache W size :=
  Vector.replicate size ⟨none, 0⟩

/-! ## Calls -/

inductive CacheOp where
  | lookup (name : CString)
  | invalidate

/-- A call and what the resolver would answer at that moment. -/
structure CacheCall (W : Type) where
  fallback : CString → W
  op : CacheOp

/-- An answer changes only from "not found" or deferred to an address. -/
def Later (f g : CString → W) : Prop :=
  ∀ name, g name = f name ∨ ((f name = 0 ∨ f name = 1) ∧ g name ≠ 0 ∧ g name ≠ 1)

def runCacheOp (cache : SymCache W size) (c : CacheCall W) : SymCache W size :=
  match c.op with
  | .lookup name => (udynlinkHostSymCacheLookup cache name c.fallback).2
  | .invalidate => udynlinkHostSymCacheInvalidate cache

/-- A lookup answers what the resolver would answer. -/
def AnswersNow (cache : SymCache W size) (c : CacheCall W) : Prop :=
  match c.op with
  | .lookup name => (udynlinkHostSymCacheLookup cache name c.fallback).1 = c.fallback name
  | .invalidate => True

/-- Every lookup of a run does. -/
def Transparent : SymCache W size → List (CacheCall W) → Prop
  | _, [] => True
  | cache, c :: cs => AnswersNow cache c ∧ Transparent (runCacheOp cache c) cs

/-- After the calls of `past`, the last one first, the answer kept for the name is deferred:
it was deferred when last looked up, the cache has not been cleared since, and no other name
that was found has taken the place. -/
def KeptDeferred (size : Nat) [NeZero size] (name : CString) : List (CacheCall W) → Prop
  | [] => False
  | ⟨_, .invalidate⟩ :: _ => False
  | ⟨fallback, .lookup other⟩ :: past =>
    if other = name then fallback name = 1
    else if symCacheIdx size other = symCacheIdx size name ∧ fallback other ≠ 0 then False
    else KeptDeferred size name past

/-- No name is looked up with an address to be had while its deferred answer is kept. -/
def NeverStale (size : Nat) [NeZero size] : List (CacheCall W) → List (CacheCall W) → Prop
  | _, [] => True
  | past, c :: cs =>
    (∀ name, c.op = .lookup name → KeptDeferred size name past → c.fallback name = 1) ∧
      NeverStale size (c :: past) cs

/-! ## One lookup -/

section

variable {cache : SymCache W size} {name other : CString} {fallback : CString → W}

omit [One W] in
theorem lookup_hit (h : cache[symCacheIdx size name].name = some name) :
    udynlinkHostSymCacheLookup cache name fallback = (cache[symCacheIdx size name].addr, cache) :=
  if_pos h

omit [One W] in
theorem lookup_miss (h : cache[symCacheIdx size name].name ≠ some name) :
    udynlinkHostSymCacheLookup cache name fallback =
      (fallback name, if fallback name ≠ 0 then
        cache.set (symCacheIdx size name) ⟨some name, fallback name⟩ else cache) := by
  unfold udynlinkHostSymCacheLookup
  dsimp only
  rw [if_neg h]
  split
  · rfl
  · rfl

end

/-! ## Runs -/

/-- What the cache holds after the calls of `past`, when `calls` are still to come: a deferred
answer where one is kept, and otherwise answers that hold for good. -/
structure CacheHolds (past calls : List (CacheCall W)) (cache : SymCache W size) : Prop where
  deferred : ∀ name, KeptDeferred size name past ↔
    cache[symCacheIdx size name].name = some name ∧ cache[symCacheIdx size name].addr = 1
  settled : ∀ name, cache[symCacheIdx size name].name = some name →
    cache[symCacheIdx size name].addr = 1 ∨
      ∀ c ∈ calls, c.fallback name = cache[symCacheIdx size name].addr

section

variable {past calls : List (CacheCall W)} {cache : SymCache W size} {c : CacheCall W}
  {name other : CString} {fallback : CString → W}

theorem keptDeferred_lookup : KeptDeferred size name (⟨fallback, .lookup other⟩ :: past) =
    if other = name then fallback name = 1
    else if symCacheIdx size other = symCacheIdx size name ∧ fallback other ≠ 0 then False
    else KeptDeferred size name past := rfl

theorem cleared_holds (hp : ∀ name, ¬ KeptDeferred size name past) :
    CacheHolds past calls (Vector.replicate size ⟨none, 0⟩ : SymCache W size) := by
  refine ⟨fun name => iff_of_false (hp name) ?_, fun name h => ?_⟩
  · rintro ⟨h, -⟩
    simp at h
  · simp at h

/-- A hit is wrong only for a deferred answer that has been overtaken. -/
theorem answersNow_iff (h : CacheHolds past (c :: calls) cache) :
    AnswersNow cache c ↔
      ∀ name, c.op = .lookup name → KeptDeferred size name past → c.fallback name = 1 := by
  obtain ⟨fallback, op⟩ := c
  cases op with
  | invalidate => exact iff_of_true trivial fun name hop => by cases hop
  | lookup name =>
    by_cases hn : cache[symCacheIdx size name].name = some name
    · have hset := h.settled name hn
      have hans : AnswersNow cache ⟨fallback, .lookup name⟩ ↔
          cache[symCacheIdx size name].addr = fallback name := by
        unfold AnswersNow
        dsimp only
        rw [lookup_hit hn]
      rw [hans]
      constructor
      · rintro haddr name' hop hkept
        cases hop
        exact haddr.symm.trans ((h.deferred name).mp hkept).2
      · intro hfine
        rcases hset with hone | hall
        · rw [hone]
          exact (hfine name rfl ((h.deferred name).mpr ⟨hn, hone⟩)).symm
        · exact (hall _ List.mem_cons_self).symm
    · refine iff_of_true ?_ fun name' hop hkept => ?_
      · unfold AnswersNow
        dsimp only
        rw [lookup_miss hn]
      · cases hop
        exact absurd ((h.deferred name).mp hkept).1 hn

theorem CacheHolds.weaken (h : CacheHolds past (c :: calls) cache) {past' : List (CacheCall W)}
    (hp : ∀ name, KeptDeferred size name past' ↔ KeptDeferred size name past) :
    CacheHolds past' calls cache := by
  refine ⟨fun name => (hp name).trans (h.deferred name), fun name hn => ?_⟩
  exact (h.settled name hn).imp_right fun hall c' hc => hall c' (List.mem_cons_of_mem _ hc)

theorem runCacheOp_hit (h : CacheHolds past (⟨fallback, .lookup other⟩ :: calls) cache)
    (hn : cache[symCacheIdx size other].name = some other)
    (hans : cache[symCacheIdx size other].addr = fallback other) :
    CacheHolds (⟨fallback, .lookup other⟩ :: past) calls cache := by
  refine h.weaken fun name => ?_
  rw [keptDeferred_lookup]
  by_cases heq : other = name
  · subst heq
    rw [if_pos rfl, ← hans]
    exact (and_iff_right hn).symm.trans (h.deferred other).symm
  · rw [if_neg heq]
    split
    next hrep =>
      refine iff_of_false not_false fun hkept => heq ?_
      have hname := ((h.deferred name).mp hkept).1
      simp only [← hrep.1] at hname
      exact Option.some.inj (hn.symm.trans hname)
    next => exact Iff.rfl

/-- A name that is not found leaves the cache as it is. -/
theorem runCacheOp_unfound [NeZero (1 : W)]
    (h : CacheHolds past (⟨fallback, .lookup other⟩ :: calls) cache)
    (hn : cache[symCacheIdx size other].name ≠ some other) (hzero : fallback other = 0) :
    CacheHolds (⟨fallback, .lookup other⟩ :: past) calls cache := by
  refine h.weaken fun name => ?_
  rw [keptDeferred_lookup]
  by_cases heq : other = name
  · subst heq
    rw [if_pos rfl, hzero]
    exact iff_of_false (NeZero.ne (1 : W)).symm fun hkept => hn ((h.deferred other).mp hkept).1
  · rw [if_neg heq, if_neg fun hrep => hrep.2 hzero]

theorem runCacheOp_stored (h : CacheHolds past (⟨fallback, .lookup other⟩ :: calls) cache)
    (hlater : ∀ c ∈ calls, Later fallback c.fallback) (hne : fallback other ≠ 0) :
    CacheHolds (⟨fallback, .lookup other⟩ :: past) calls
      (cache.set (symCacheIdx size other) ⟨some other, fallback other⟩) := by
  have hentry : ∀ name, (cache.set (symCacheIdx size other)
      ⟨some other, fallback other⟩)[symCacheIdx size name] =
        if symCacheIdx size other = symCacheIdx size name then ⟨some other, fallback other⟩
        else cache[symCacheIdx size name] := by
    intro name
    simp only [Fin.getElem_fin, Vector.getElem_set, Fin.ext_iff]
  refine ⟨fun name => ?_, fun name hname => ?_⟩
  · rw [hentry, keptDeferred_lookup]
    by_cases heq : other = name
    · subst heq
      rw [if_pos rfl, if_pos rfl]
      exact (and_iff_right rfl).symm
    · rw [if_neg heq]
      by_cases hidx : symCacheIdx size other = symCacheIdx size name
      · rw [if_pos ⟨hidx, hne⟩, if_pos hidx]
        exact iff_of_false not_false fun hkept => heq (Option.some.inj hkept.1)
      · rw [if_neg fun hrep => hidx hrep.1, if_neg hidx]
        exact h.deferred name
  · rw [hentry] at hname ⊢
    by_cases hidx : symCacheIdx size other = symCacheIdx size name
    · rw [if_pos hidx] at hname ⊢
      obtain rfl : other = name := Option.some.inj hname
      by_cases hone : fallback other = 1
      · exact Or.inl hone
      · refine Or.inr fun c hc => ?_
        rcases hlater c hc other with hsame | ⟨hopen, -⟩
        · exact hsame
        · exact absurd hopen (not_or.mpr ⟨hne, hone⟩)
    · rw [if_neg hidx] at hname ⊢
      exact (h.settled name hname).imp_right fun hall c hc => hall c (List.mem_cons_of_mem _ hc)

/-- One call keeps what the cache holds, as long as it is answered rightly. -/
theorem runCacheOp_holds [NeZero (1 : W)] (h : CacheHolds past (c :: calls) cache)
    (hlater : ∀ c' ∈ calls, Later c.fallback c'.fallback) (hans : AnswersNow cache c) :
    CacheHolds (c :: past) calls (runCacheOp cache c) := by
  obtain ⟨fallback, op⟩ := c
  cases op with
  | invalidate => exact cleared_holds fun name => not_false
  | lookup other =>
    unfold AnswersNow at hans
    unfold runCacheOp
    dsimp only at hans ⊢
    by_cases hn : cache[symCacheIdx size other].name = some other
    · rw [lookup_hit hn] at hans ⊢
      exact runCacheOp_hit h hn hans
    · rw [lookup_miss hn]
      dsimp only
      by_cases hzero : fallback other = 0
      · rw [if_neg (not_not.mpr hzero)]
        exact runCacheOp_unfound h hn hzero
      · rw [if_pos hzero]
        exact runCacheOp_stored h hlater hzero

theorem transparent_iff [NeZero (1 : W)] (h : CacheHolds past calls cache)
    (hlater : calls.Pairwise fun c c' => Later c.fallback c'.fallback) :
    Transparent cache calls ↔ NeverStale size past calls := by
  induction calls generalizing past cache with
  | nil => exact Iff.rfl
  | cons c calls ih =>
    rw [List.pairwise_cons] at hlater
    unfold Transparent NeverStale
    rw [← answersNow_iff h]
    exact and_congr_right fun hans => ih (runCacheOp_holds h hlater.1 hans) hlater.2

end

/-- A cache that starts empty is transparent in exactly the runs in which no name is looked up
behind its own deferred answer. -/
theorem cache_transparent_iff [NeZero (1 : W)] {calls : List (CacheCall W)}
    (hlater : calls.Pairwise fun c c' => Later c.fallback c'.fallback) :
    Transparent (Vector.replicate size ⟨none, 0⟩ : SymCache W size) calls ↔
      NeverStale size [] calls :=
  transparent_iff (cleared_holds fun _ => not_false) hlater

/-! ## A name that is put off first -/

def nameF : CString := ⟨[0x66], by decide⟩

def nameG : CString := ⟨[0x67], by decide⟩

/-- `f` is deferred, every other name is at an address. -/
def withoutF : CString → UInt32 := fun name => if name = nameF then 1 else 0x08000201

def withF : CString → UInt32 := fun name => if name = nameF then 0x08000101 else 0x08000201

/-- The cache is cleared before `f` has its address. -/
def clearedBetween : List (CacheCall UInt32) :=
  [⟨withoutF, .lookup nameF⟩, ⟨withoutF, .lookup nameG⟩, ⟨withoutF, .invalidate⟩,
    ⟨withF, .lookup nameF⟩, ⟨withF, .lookup nameF⟩]

theorem withoutF_later : Later withoutF withF := by
  intro name
  unfold withoutF withF
  by_cases h : name = nameF
  · rw [if_pos h, if_pos h]
    exact Or.inr ⟨Or.inr rfl, by decide, by decide⟩
  · rw [if_neg h, if_neg h]
    exact Or.inl rfl

theorem clearedBetween_later :
    clearedBetween.Pairwise fun c c' => Later c.fallback c'.fallback := by
  have hsame : ∀ f : CString → UInt32, Later f f := fun f name => Or.inl rfl
  unfold clearedBetween
  simp only [List.pairwise_cons, List.mem_cons, List.not_mem_nil, or_false, forall_eq_or_imp,
    forall_eq, IsEmpty.forall_iff, implies_true, List.Pairwise.nil, and_true]
  exact ⟨⟨hsame _, hsame _, withoutF_later, withoutF_later⟩,
    ⟨hsame _, withoutF_later, withoutF_later⟩, ⟨withoutF_later, withoutF_later⟩, hsame _⟩

theorem clearedBetween_neverStale : NeverStale 16 [] clearedBetween := by
  have hg : ¬ KeptDeferred 16 nameG [⟨withoutF, .lookup nameF⟩] := by
    unfold KeptDeferred
    rw [if_neg (by decide)]
    split
    · exact not_false
    · exact not_false
  have hf : ¬ KeptDeferred 16 nameF (⟨withF, .lookup nameF⟩ :: (clearedBetween.take 3).reverse) := by
    unfold KeptDeferred
    rw [if_pos rfl]
    decide
  refine ⟨fun name _ h => absurd h not_false, fun name hop h => ?_, fun name hop => ?_,
    fun name _ h => absurd h not_false, fun name hop h => ?_, trivial⟩
  · obtain rfl := CacheOp.lookup.inj hop
    exact absurd h hg
  · cases hop
  · obtain rfl := CacheOp.lookup.inj hop
    exact absurd h hf

/-- Every answer of this run is the one of the moment, the last from the cache. -/
theorem cache_transparent_cleared :
    Transparent (Vector.replicate 16 ⟨none, 0⟩ : SymCache UInt32 16) clearedBetween := by
  have : NeZero (1 : UInt32) := ⟨by decide⟩
  exact (cache_transparent_iff clearedBetween_later).mpr clearedBetween_neverStale

/-- Deferred at first, then at an address. -/
def deferThenAddress : List (CacheCall UInt32) :=
  [⟨fun _ => 1, .lookup nameF⟩, ⟨fun _ => 0x08000101, .lookup nameF⟩]

theorem deferThenAddress_later :
    deferThenAddress.Pairwise fun c c' => Later c.fallback c'.fallback := by
  have hzero : (0x08000101 : UInt32) ≠ 0 := by decide
  have hone : (0x08000101 : UInt32) ≠ 1 := by decide
  exact List.pairwise_pair.mpr fun _ => Or.inr ⟨Or.inr rfl, hzero, hone⟩

theorem cache_keeps_deferred :
    deferThenAddress.Pairwise (fun c c' => Later c.fallback c'.fallback) ∧
      ¬ Transparent (Vector.replicate 16 ⟨none, 0⟩ : SymCache UInt32 16) deferThenAddress := by
  refine ⟨deferThenAddress_later, fun h => ?_⟩
  have hsecond := h.2.1
  unfold AnswersNow at hsecond
  exact absurd hsecond (by decide)

end Udynlink.HostSyms
