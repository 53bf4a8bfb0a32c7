import Udynlink.Header

/-!
# The symbol table

The first word is the entry count; entry `i` is the two words after it. The
string pool follows inside the same `symt_size` bytes. An index is a `size_t`,
so `index * 2 + 2` can wrap.
-/

namespace Udynlink

open Machine

def symOffsetMask : UInt32 := 0x07FFFFFF

def symInfoShift : UInt32 := 27

def symInfoCodeMask : UInt32 := 0x08

def symInfoTypeMask : UInt32 := 0x07

def symTypeInternal : UInt8 := 0

def symTypeExported : UInt8 := 1

def symTypeExtern : UInt8 := 2

def symTypeModuleName : UInt8 := 3

def symTypeWeak : UInt8 := 4

inductive SymLocation where
  | code
  | data
deriving DecidableEq, Repr

/-- A symbol's `name` field: a pointer into the pool, or the literal `"(N/A)"`. -/
inductive SymName where
  | notAvailable
  | pool (p : Addr)
deriving DecidableEq, Repr

structure Sym where
  name : SymName
  val : Addr
  type : UInt8
  location : SymLocation
deriving DecidableEq, Repr

/-- `p_symt[i]`, the index taken modulo the word as pointer arithmetic does. -/
def symtWord (pSymt : Addr) (i : UInt32) : Reader UInt32 := .u32 (pSymt + i * 4)

def symTypeOf (nameOff : UInt32) : UInt8 := ((nameOff >>> symInfoShift) &&& symInfoTypeMask).toUInt8

def symLocationOf (nameOff : UInt32) : SymLocation :=
  if ((nameOff >>> symInfoShift) &&& symInfoCodeMask) ≠ 0 then .code else .data

def getSymAtRaw (pSymt : Addr) (index symtSizeBytes : UInt32) : Reader (Option Sym) :=
  let symtWords := symtSizeBytes / 4
  if symtWords < 1 then pure none
  else do
    let count ← symtWord pSymt 0
    if index ≥ count then pure none
    else if index * 2 + 2 ≥ symtWords then pure none
    else do
      let nameOff ← symtWord pSymt (index * 2 + 1)
      let val ← symtWord pSymt (index * 2 + 2)
      let type := symTypeOf nameOff
      let location := symLocationOf nameOff
      if index = 0 ∧ type ≠ symTypeModuleName then pure none
      else if type ≠ symTypeInternal then
        if (nameOff &&& symOffsetMask) ≥ symtSizeBytes then pure none
        else pure (some ⟨.pool (pSymt + (nameOff &&& symOffsetMask)), val, type, location⟩)
      else pure (some ⟨.notAvailable, val, type, location⟩)

/-! ## The named prefix -/

/-- The first loop of `computeNumNamedSymsRaw` from entry `i` on; `none` when a
named entry follows a nameless one. -/
def namedScan (pSymt : Addr) (numEntries symtWords : UInt32) :
    Nat → Nat → UInt16 → Bool → Reader (Option UInt16)
  | 0, _, lastNamed, _ => pure (some lastNamed)
  | n + 1, i, lastNamed, foundLocal =>
    if ¬ i < numEntries.toNat ∨ i * 2 + 1 ≥ symtWords.toNat then pure (some lastNamed)
    else do
      let nameOff ← symtWord pSymt (UInt32.ofNat (i * 2 + 1))
      if symTypeOf nameOff = symTypeInternal then
        namedScan pSymt numEntries symtWords n (i + 1) lastNamed true
      else if foundLocal then pure none
      else namedScan pSymt numEntries symtWords n (i + 1) (UInt16.ofNat i) foundLocal

/-- The second loop over `n` more entries from `i` on: neighbours in order,
compared no further than the end of the table. -/
def sortedScan (pSymt : Addr) (symtSizeBytes : UInt32) : Nat → Nat → Reader Bool
  | 0, _ => pure true
  | n + 1, i => do
    let prevWord ← symtWord pSymt (UInt32.ofNat ((i - 1) * 2 + 1))
    let curWord ← symtWord pSymt (UInt32.ofNat (i * 2 + 1))
    let prevOff := prevWord &&& symOffsetMask
    let curOff := curWord &&& symOffsetMask
    if prevOff ≥ symtSizeBytes ∨ curOff ≥ symtSizeBytes then pure false
    else do
      let cmpBound := min (symtSizeBytes - prevOff).toNat (symtSizeBytes - curOff).toNat
      let cmp ← Reader.strncmp cmpBound (pSymt + prevOff) (pSymt + curOff)
      if cmp = .gt then pure false else sortedScan pSymt symtSizeBytes n (i + 1)

def computeNumNamedSymsRaw (pSymt : Addr) (symtSizeBytes : UInt32) : Reader UInt16 :=
  let symtWords := symtSizeBytes / 4
  if symtWords < 1 then pure 0
  else do
    let numEntries ← symtWord pSymt 0
    let named ← namedScan pSymt numEntries symtWords symtWords.toNat 1 0 false
    match named with
    | none => pure 0
    | some lastNamed => do
      let sorted ← sortedScan pSymt symtSizeBytes (lastNamed.toNat - 1) 2
      pure (if sorted then lastNamed else 0)

end Udynlink
