import Udynlink.Header

/-!
# The section table

An entry is decoded from memory each time it is looked at, as the C code does.
`getSectab` is the only validator; everything else takes its view on trust.
-/

namespace Udynlink

open Machine

def secClassCode : UInt32 := 0

def secClassData : UInt32 := 1

def secClassBss : UInt32 := 2

def secFlagMain : UInt32 := 0x80000000

structure SectEntry where
  nameOff : UInt32
  va : UInt32
  size : UInt32
  align : UInt32
  cls : UInt32
  flags : UInt32
deriving DecidableEq, Repr

/-- A validated view: where the entries and the string pool are, and how many
entries there are. `num` is 0 for an untagged header. -/
structure SectView where
  pEntries : Addr
  pPool : Addr
  num : Nat
deriving DecidableEq, Repr

def decodeEntry (m : Mem) (p : Addr) : SectEntry where
  nameOff := m.u32 p
  va := m.u32 (p + 4)
  size := m.u32 (p + 8)
  align := m.u32 (p + 12)
  cls := m.u32 (p + 16)
  flags := m.u32 (p + 20)

/-- An entry is a function of its 24 bytes. -/
theorem decodeEntry_eq_of_bytes {m m' : Mem} {p q : Addr}
    (h : ∀ i, i < 24 → m (p + UInt32.ofNat i) = m' (q + UInt32.ofNat i)) :
    decodeEntry m p = decodeEntry m' q := by
  have h0 := u32_off_eq h (show 0 + 4 ≤ 24 by decide)
  rw [off_zero, off_zero] at h0
  have h4 := u32_off_eq h (show 4 + 4 ≤ 24 by decide)
  have h8 := u32_off_eq h (show 8 + 4 ≤ 24 by decide)
  have h12 := u32_off_eq h (show 12 + 4 ≤ 24 by decide)
  have h16 := u32_off_eq h (show 16 + 4 ≤ 24 by decide)
  have h20 := u32_off_eq h (show 20 + 4 ≤ 24 by decide)
  exact SectEntry.mk.injEq .. |>.mpr ⟨h0, h4, h8, h12, h16, h20⟩

theorem decodeEntry_congr {m m' : Mem} {p : Addr} (h : AgreeOn ⟨p, 24⟩ m m') :
    decodeEntry m' p = decodeEntry m p :=
  (decodeEntry_eq_of_bytes fun _ hi => h _ (off_mem hi (by decide))).symm

def readEntry (p : Addr) : Reader SectEntry :=
  .ofSpan p 24 (decodeEntry · p) (by decide) fun _ _ h => decodeEntry_congr h

@[simp] theorem readEntry_run (p : Addr) (m : Mem) :
    (readEntry p).run m = decodeEntry m p := rfl

/-- Entry `i` of the table at `p`, whatever the header says about its length. -/
def entriesAt (m : Mem) (p : Addr) (i : Nat) : SectEntry := decodeEntry m (p + UInt32.ofNat (24 * i))

def sectEntryAt (tab : SectView) (idx : Nat) : Reader SectEntry :=
  readEntry (tab.pEntries + UInt32.ofNat (24 * idx))

@[simp] theorem sectEntryAt_run (tab : SectView) (idx : Nat) (m : Mem) :
    (sectEntryAt tab idx).run m = entriesAt m tab.pEntries idx := rfl

def sectName (tab : SectView) (e : SectEntry) : Option Addr :=
  if e.nameOff ≠ 0 then some (tab.pPool + e.nameOff) else none

def sectHostFlags (e : SectEntry) : UInt32 := e.flags &&& ~~~(secFlagMain ||| 0x00FF0000)

/-- Bytes of the base array after the LOT, one word for each non-main section. -/
def getNonmainBasesSize (tab : SectView) : UInt32 :=
  if tab.num > 3 then (UInt32.ofNat tab.num - 3) * 4 else 0

/-- The addition is carried out in 64 bits, the result truncated to 32. -/
def alignUpU32 (value : UInt64) (align : UInt32) : UInt32 :=
  ((value + align.toUInt64 - 1) &&& ~~~(align.toUInt64 - 1)).toUInt32

/-! ## Validation -/

/-- The per-field tests on entry `i`, and its place among the main sections. -/
def entryFieldsOk (i : Nat) (e : SectEntry) : Bool :=
  !(e.align < 4 || (e.align &&& (e.align - 1)) != 0) &&
  (e.size &&& 3) == 0 &&
  !(e.cls > secClassBss) &&
  (e.flags &&& 0x00FF0000) == 0 &&
  if i < 3 then !((e.flags &&& secFlagMain) == 0 || e.cls != UInt32.ofNat i)
  else (e.flags &&& secFlagMain) == 0 && e.nameOff != 0

/-- The first entry starts at 0; a later one not before its predecessor's end. -/
def entryOrderOk (i : Nat) (prev e : SectEntry) : Bool :=
  if i = 0 then e.va == 0 else !(prev.va.toNat + prev.size.toNat > e.va.toNat)

/-- A name must be terminated inside the symbol table. -/
def entryNameOk (h : Header) (pPool : Addr) (e : SectEntry) : Reader Bool :=
  if e.nameOff ≥ h.symtSize then pure false
  else .memchr0 (h.symtSize - e.nameOff).toNat (pPool + e.nameOff)

/-- Names are scanned only when the caller asks for it. -/
def entryNamed (h : Header) (pPool : Addr) (checkNames : Bool) (e : SectEntry) : Reader Bool :=
  if checkNames && e.nameOff != 0 then entryNameOk h pPool e else pure true

/-- The loop over `n` more entries from index `i` on. -/
def checkEntries (h : Header) (pPool entries : Addr) (checkNames : Bool) :
    Nat → Nat → SectEntry → Reader Bool
  | 0, _, _ => pure true
  | n + 1, i, prev => do
    let e ← readEntry (entries + UInt32.ofNat (24 * i))
    if !entryFieldsOk i e then pure false
    else do
      let named ← entryNamed h pPool checkNames e
      if !named then pure false
      else if !entryOrderOk i prev e then pure false
      else checkEntries h pPool entries checkNames n (i + 1) e

/-- The main entries against the header: each base is the previous end rounded
up to the section's own alignment. -/
def mainEntriesOk (h : Header) (m0 m1 m2 : SectEntry) : Bool :=
  let dataVa := alignUpU32 h.codeSize.toUInt64 m1.align
  let bssVa := alignUpU32 (dataVa.toUInt64 + h.dataSize.toUInt64) m2.align
  m0.size == dataVa && m1.va == dataVa && m1.size == h.dataSize && m2.va == bssVa &&
    m2.size == h.bssSize

/-- The flag, version and count tests that precede the entries. -/
def sectabHeaderOk (h : Header) : Bool :=
  (h.flags &&& 0xFF00) == 0 && !(h.udynlinkVersion < makeVersion 3 1) &&
    getNumSectionsRaw h != 0 && !(h.symtSize > maxImageSize)

/-- Entries 0, 1 and 2 are read whatever the count is. -/
def getSectab (p : Addr) (checkNames : Bool) : Reader (Except Error Unit × SectView) := do
  let h ← readHeader p
  let pPool := getSymTablePointer p h
  let empty : SectView := { pEntries := 0, pPool, num := 0 }
  if !isSectioned h then
    if (h.flags &&& hdrSectionsMask) ≠ 0 then pure (.error .loadBadSectionTable, empty)
    else pure (.ok (), empty)
  else if !sectabHeaderOk h then pure (.error .loadBadSectionTable, empty)
  else do
    let entries := p + getSectabOffset h
    let num := (getNumSectionsRaw h).toNat
    let ok ← checkEntries h pPool entries checkNames num 0 ⟨0, 0, 0, 0, 0, 0⟩
    if !ok then pure (.error .loadBadSectionTable, empty)
    else do
      let m0 ← readEntry entries
      let m1 ← readEntry (entries + 24)
      let m2 ← readEntry (entries + 48)
      if !mainEntriesOk h m0 m1 m2 then pure (.error .loadBadSectionTable, empty)
      else pure (.ok (), { pEntries := entries, pPool, num })

/-! ## Queries on a view -/

/-- Length of the VA range entry `i` answers for: a main section's runs to the
next main section. -/
def entrySpan (tab : SectView) (i : Nat) (e : SectEntry) : Reader UInt64 :=
  if i + 1 < 3 && i + 1 < tab.num then do
    let next ← sectEntryAt tab (i + 1)
    pure (next.va.toUInt64 - e.va.toUInt64)
  else pure e.size.toUInt64

/-- The scan of `sectFindByVa` over `n` more entries from index `i` on. -/
def sectFindLoop (tab : SectView) (va : UInt32) : Nat → Nat → Reader (Option Nat)
  | 0, _ => pure none
  | n + 1, i => do
    let e ← sectEntryAt tab i
    if va < e.va then pure none
    else do
      let span ← entrySpan tab i e
      if (va - e.va).toUInt64 < span then pure (some i)
      else sectFindLoop tab va n (i + 1)

/-- Index of the section containing a link-time VA. -/
def sectFindByVa (tab : SectView) (va : UInt32) : Reader (Option Nat) :=
  sectFindLoop tab va tab.num 0

/-- Sizes of `n` entries from index `k` on whose class is in the mask. The C
sum is 64 bits wide and cannot wrap over at most 63 entries. -/
def sumSectionSizes (tab : SectView) (clsMask : UInt32) : Nat → Nat → Reader Nat
  | 0, _ => pure 0
  | n + 1, k => do
    let e ← sectEntryAt tab k
    let rest ← sumSectionSizes tab clsMask n (k + 1)
    pure ((if (clsMask &&& (1 <<< e.cls)) ≠ 0 then e.size.toNat else 0) + rest)

/-- The sections from index 3 on. -/
def sumTaggedSizes (tab : SectView) (clsMask : UInt32) : Reader Nat :=
  sumSectionSizes tab clsMask (tab.num - 3) 3

end Udynlink
