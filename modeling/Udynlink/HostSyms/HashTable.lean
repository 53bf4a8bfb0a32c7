import Mathlib

/-!
# The hash table of the host's symbols

`mkhostsyms` orders the symbols by bucket and emits Bloom filter, buckets, chain,
names and addresses; `udynlink_resolve_hashed_symbol` walks them. Sizes and
positions are natural numbers: a table of `2 ^ 32` entries has no place in memory.
-/

namespace Udynlink.HostSyms

/-- What stands before the terminating NUL. -/
structure CString where
  bytes : List UInt8
  noNul : 0 ∉ bytes
deriving DecidableEq

structure HostSymbol where
  name : CString
  addr : UInt32
deriving DecidableEq

/-- Distinct ASCII names, none of them empty. -/
structure Named (symbols : List HostSymbol) : Prop where
  distinct : (symbols.map HostSymbol.name).Nodup
  nonempty : ∀ s ∈ symbols, s.name.bytes ≠ []
  ascii : ∀ s ∈ symbols, ∀ c ∈ s.name.bytes, c < 128

/-- Symbols with addresses that NULL does not stand for. -/
structure Listed (symbols : List HostSymbol) : Prop extends Named symbols where
  address : ∀ s ∈ symbols, s.addr ≠ 0

/-- The address listed for a name, NULL when there is none. -/
def listedAddr (symbols : List HostSymbol) (name : CString) : UInt32 :=
  match symbols.find? fun s => s.name = name with
  | some s => s.addr
  | none => 0

section

variable {symbols : List HostSymbol} {i k : Nat} {s t : HostSymbol}

theorem position_unique (hd : (symbols.map HostSymbol.name).Nodup) (ht : symbols[k]? = some t)
    (hs : symbols[i]? = some s) (hname : t.name = s.name) : k = i := by
  have hk : k < (symbols.map HostSymbol.name).length := by
    rw [List.length_map]
    exact (List.getElem?_eq_some_iff.mp ht).1
  refine (List.getElem?_inj hk hd).mp ?_
  rw [List.getElem?_map, List.getElem?_map, hs, ht, Option.map_some, Option.map_some, hname]

theorem listedAddr_at (hd : (symbols.map HostSymbol.name).Nodup) (hs : symbols[i]? = some s) :
    listedAddr symbols s.name = s.addr := by
  rw [listedAddr]
  cases hf : symbols.find? fun t => t.name = s.name with
  | none =>
    have hno := List.find?_eq_none.mp hf s (List.mem_of_getElem? hs)
    exact absurd (decide_eq_true rfl) hno
  | some t =>
    have hname : t.name = s.name := by simpa using List.find?_some hf
    obtain ⟨k, hk⟩ := List.getElem?_of_mem (List.mem_of_find?_eq_some hf)
    rw [position_unique hd hk hs hname, hs, Option.some.injEq] at hk
    rw [hk]

theorem listedAddr_unlisted {name : CString} (hname : ∀ s ∈ symbols, s.name ≠ name) :
    listedAddr symbols name = 0 := by
  have hf : (symbols.find? fun s => s.name = name) = none :=
    List.find?_eq_none.mpr fun s hs => by simpa using hname s hs
  rw [listedAddr, hf]

end

/-- A read outside of an array, or a loop that goes on. -/
inductive Fault where
  | bounds
  | endless
deriving DecidableEq, Repr

def readAt {α : Type} (xs : List α) (i : Nat) : Except Fault α :=
  match xs[i]? with
  | some x => .ok x
  | none => .error .bounds

/-! ## The builder -/

def bloomShift : UInt32 := 26

/-- The script masks its integers to 32 bits, the loader's are 32 bits wide. -/
def gnuHash (name : List UInt8) : UInt32 :=
  name.foldl (fun h c => h * 33 + c.toUInt32) 5381

/-- `while p < n: p <<= 1`, at most `n` times. -/
def doubleUntil (n : Nat) : Nat → Nat → Nat
  | 0, p => p
  | fuel + 1, p => if p < n then doubleUntil n fuel (p * 2) else p

def nextPowerOf2 (n : Nat) : Nat := doubleUntil n n 1

structure HashTable where
  nbuckets : Nat
  symoffset : Nat
  bloomSize : Nat
  bloomShift : UInt32
  bloom : List UInt32
  buckets : List Nat
  hashValues : List UInt32
  symAddrs : List UInt32
  strtab : List UInt8
  strtabOffsets : List Nat
deriving DecidableEq, Repr

def bloomMask (h shift : UInt32) : UInt32 := (1 <<< (h % 32)) ||| (1 <<< ((h >>> shift) % 32))

def buildBloom (hashes : List UInt32) (bloomSize : Nat) : List UInt32 :=
  hashes.foldl (fun bloom h =>
    bloom.modify ((h.toNat / 32) % bloomSize) (· ||| bloomMask h bloomShift))
    (List.replicate bloomSize 0)

def bucketOf (nbuckets : Nat) (h : UInt32) : Nat := h.toNat % nbuckets

def hashAt (hashes : List UInt32) (i : Nat) : UInt32 := hashes.getD i 0

/-- `global_indices`: the symbols by bucket, in the order given within a bucket. -/
def globalIndices (hashes : List UInt32) (nbuckets : Nat) : List Nat :=
  (List.range hashes.length).insertionSort fun i j =>
    bucketOf nbuckets (hashAt hashes i) ≤ bucketOf nbuckets (hashAt hashes j)

/-- A bucket takes the first position, unless that is 0, which also means empty. -/
def fillBuckets (hashes : List UInt32) (nbuckets symoffset : Nat) :
    List Nat → Nat → List Nat → List Nat
  | [], _, buckets => buckets
  | gi :: gis, pos, buckets =>
    let bucket := bucketOf nbuckets (hashAt hashes gi)
    fillBuckets hashes nbuckets symoffset gis (pos + 1)
      (if buckets.getD bucket 0 = 0 then buckets.set bucket (pos + symoffset) else buckets)

/-- The hashes in chain order; the lowest bit marks the last of a bucket. -/
def chainValues (hashes : List UInt32) (nbuckets : Nat) : List Nat → List UInt32
  | [] => []
  | [gi] => [hashAt hashes gi &&& 0xFFFFFFFE ||| 1]
  | gi :: giNext :: gis =>
    (if bucketOf nbuckets (hashAt hashes gi) ≠ bucketOf nbuckets (hashAt hashes giNext) then
      hashAt hashes gi &&& 0xFFFFFFFE ||| 1
    else hashAt hashes gi &&& 0xFFFFFFFE) :: chainValues hashes nbuckets (giNext :: gis)

def strtabOf (names : List CString) : List UInt8 := names.flatMap fun n => n.bytes ++ [0]

def strtabOffsets : List CString → Nat → List Nat
  | [], _ => []
  | n :: ns, off => off :: strtabOffsets ns (off + (n.bytes.length + 1))

def autoBuckets (nsyms : Nat) : Nat := nextPowerOf2 (max (nsyms / 4) 1)

def autoBloomSize (nsyms : Nat) : Nat := nextPowerOf2 (max (nsyms / 2) 1)

/-- The table without symbols. -/
def emptyTable : HashTable where
  nbuckets := 1
  symoffset := 0
  bloomSize := 1
  bloomShift := bloomShift
  bloom := [0]
  buckets := [0]
  hashValues := []
  symAddrs := []
  strtab := []
  strtabOffsets := []

/-- `GnuHashFormat.build`; addresses and names stay in the order given. -/
def buildHashTable (symbols : List HostSymbol) (nbuckets bloomSize : Option Nat) : HashTable :=
  if symbols = [] then emptyTable
  else
    let hashes := symbols.map fun s => gnuHash s.name.bytes
    let nbuckets := nbuckets.getD (autoBuckets symbols.length)
    let indices := globalIndices hashes nbuckets
    let bloomSize := nextPowerOf2 (bloomSize.getD (autoBloomSize symbols.length))
    { nbuckets
      symoffset := 0
      bloomSize
      bloomShift := bloomShift
      bloom := buildBloom hashes bloomSize
      buckets := fillBuckets hashes nbuckets 0 indices 0 (List.replicate nbuckets 0)
      hashValues := chainValues hashes nbuckets indices
      symAddrs := symbols.map HostSymbol.addr
      strtab := strtabOf (symbols.map HostSymbol.name)
      strtabOffsets := strtabOffsets (symbols.map HostSymbol.name) 0 }

/-! ## The walker -/

/-- `strcmp` of the string at the head of a memory against a query, when they are
equal; the memory may end too early. -/
def strcmpEq : List UInt8 → List UInt8 → Except Fault Bool
  | [], _ => .error .bounds
  | c :: _, [] => .ok (decide (c = 0))
  | c :: cs, q :: qs => if c = q then strcmpEq cs qs else .ok false

/-- A position with the hash in question has its name compared. -/
def compareAt (t : HashTable) (h : UInt32) (name : CString) (hv : UInt32) (idx : Nat) :
    Except Fault Bool :=
  if hv ||| 1 = h ||| 1 then do
    let offset ← readAt t.strtabOffsets idx
    strcmpEq (t.strtab.drop offset) name.bytes
  else pure false

/-- The loop over the chain from `idx` on, whose values are the list. -/
def walkChain (t : HashTable) (h : UInt32) (name : CString) : List UInt32 → Nat → Except Fault UInt32
  | [], _ => .error .bounds
  | hv :: hvs, idx => do
    let hit ← compareAt t h name hv idx
    if hit then readAt t.symAddrs idx
    else if hv &&& 1 ≠ 0 then pure 0
    else walkChain t h name hvs (idx + 1)

def resolveHashedSymbol (t : HashTable) (name : CString) : Except Fault UInt32 := do
  let h := gnuHash name.bytes
  let mask := bloomMask h t.bloomShift
  let word ← readAt t.bloom ((h.toNat / 32) &&& (t.bloomSize - 1))
  if word &&& mask ≠ mask then pure 0
  else do
    let idx ← readAt t.buckets (h.toNat % t.nbuckets)
    if idx < t.symoffset then pure 0
    else walkChain t h name (t.hashValues.drop (idx - t.symoffset)) idx

end Udynlink.HostSyms
