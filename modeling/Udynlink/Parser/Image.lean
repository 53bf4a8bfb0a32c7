import Mathlib.Data.Nat.Bitwise
import Udynlink.Machine.Words

/-!
# The offline parser

`parse_module` decodes an image from its bytes, `to_bytes` writes it out again. Offsets
and sizes are Python integers; with `validate` off a read past the end raises
`struct.error`.
-/

namespace Udynlink.Parser

open Machine

abbrev Bytes := List UInt8

/-- Code points. -/
abbrev Str := List Nat

inductive ParseError where
  | structError
  | bufferTooShort (len : Nat)
  | badSignature (sign : Bytes)
  | unsupportedHeaderSize (size : Nat)
  | unknownFlagBits (bits : Nat)
  | sectionCountRange (count : Nat)
  | sectionCountWithoutFlag (count : Nat)
  | sectionedVersion (version : Nat)
  | bufferTruncated (need len : Nat)
  | sectionTableTruncated (need off len : Nat)
  | sectionNameOutside (index nameOff symtSize : Nat)
  | sectionSize (index size : Nat)
  | sectionAlign (index align : Nat)
  | sectionClass (index cls : Nat)
  | sectionReservedFlags (index bits : Nat)
  | sectionsOverlap (prev cur : Nat)
deriving DecidableEq, Repr

abbrev Parse := Except ParseError

/-- A test under `if validate`. -/
def validating (validate : Bool) (check : Parse Unit) : Parse Unit :=
  if validate then check else .ok ()

theorem ok_bind {α β : Type} (a : α) (f : α → Parse β) : ((.ok a : Parse α) >>= f) = f a := rfl

/-! ## `bytes.decode("utf-8", errors="replace")` -/

def replacementChar : Nat := 0xFFFD

/-- For a first byte: its bits, how many bytes follow, and the range of the next one. -/
def utf8Lead (b : Nat) : Option (Nat × Nat × Nat × Nat) :=
  if b < 0x80 then some (b, 0, 0x80, 0xBF)
  else if b < 0xC2 then none
  else if b < 0xE0 then some (b - 0xC0, 1, 0x80, 0xBF)
  else if b = 0xE0 then some (0, 2, 0xA0, 0xBF)
  else if b = 0xED then some (0xD, 2, 0x80, 0x9F)
  else if b < 0xF0 then some (b - 0xE0, 2, 0x80, 0xBF)
  else if b = 0xF0 then some (0, 3, 0x90, 0xBF)
  else if b < 0xF4 then some (b - 0xF0, 3, 0x80, 0xBF)
  else if b = 0xF4 then some (4, 3, 0x80, 0x8F)
  else none

/-- The code point, and what is left; a sequence that breaks off is replaced as far as
it got. -/
def utf8Continue : Nat → Nat → Nat → Nat → Bytes → Nat × Bytes
  | 0, _, _, acc, rest => (acc, rest)
  | _ + 1, _, _, _, [] => (replacementChar, [])
  | n + 1, lo, hi, acc, b :: rest =>
    if lo ≤ b.toNat ∧ b.toNat ≤ hi then
      utf8Continue n 0x80 0xBF (acc * 64 + (b.toNat - 0x80)) rest
    else (replacementChar, b :: rest)

def decodeLoop : Nat → Bytes → Str
  | 0, _ => []
  | _ + 1, [] => []
  | n + 1, b :: rest =>
    match utf8Lead b.toNat with
    | none => replacementChar :: decodeLoop n rest
    | some (acc, k, lo, hi) =>
      let r := utf8Continue k lo hi acc rest
      r.1 :: decodeLoop n r.2

def decodeUtf8 (bs : Bytes) : Str := decodeLoop bs.length bs

/-! ## The header -/

def alignUp (n alignment : Nat) : Nat := (n + alignment - 1) / alignment * alignment

/-- `(n + alignment - 1) & ~(alignment - 1)`, on a power of two. -/
theorem alignUp_mask (n k : Nat) : alignUp n (2 ^ k) = Nat.ldiff (n + 2 ^ k - 1) (2 ^ k - 1) := by
  rw [alignUp, ← Nat.shiftRight_eq_div_pow, ← Nat.shiftLeft_eq]
  apply Nat.eq_of_testBit_eq
  intro i
  rw [Nat.testBit_shiftLeft, Nat.testBit_ldiff, Nat.testBit_two_pow_sub_one, Nat.testBit_shiftRight]
  by_cases h : i < k
  · rw [decide_eq_false (by omega), decide_eq_true h]
    simp
  · rw [decide_eq_true (by omega), decide_eq_false h, show k + (i - k) = i by omega]
    simp

def align4 (n : Nat) : Nat := alignUp n 4

def moduleSignature : Bytes := [0x55, 0x44, 0x4C, 0x4D]

def packVersion (major minor : Nat) : Nat := major * 256 + minor % 256

def headerSizeBytes : Nat := 32

def headerSizeV2 : Nat := 36

def maxSectionCount : Nat := 63

structure ModuleHeader where
  sign : Bytes
  modVersion : Nat
  udynlinkVersion : Nat
  archTag : Nat
  numLot : Nat
  numRels : Nat
  flags : Nat
  symtSize : Nat
  codeSize : Nat
  dataSize : Nat
  bssSize : Nat
deriving DecidableEq, Repr

namespace ModuleHeader

/-- The fields of the 32 bytes. -/
def ofBytes (data : Bytes) : ModuleHeader where
  sign := slice data 0 4
  modVersion := word data 4 2
  udynlinkVersion := word data 6 2
  archTag := word data 8 2
  numLot := word data 10 2
  numRels := word data 12 2
  flags := word data 14 2
  symtSize := word data 16 4
  codeSize := word data 20 4
  dataSize := word data 24 4
  bssSize := word data 28 4

def unpack (data : Bytes) : Parse ModuleHeader :=
  if data.length < headerSizeBytes then .error .structError else .ok (ofBytes data)

variable (h : ModuleHeader)

/-- The signature is a field of four bytes. -/
def pack : Bytes :=
  (h.sign ++ List.replicate 4 0).take 4 ++ leBytes 2 h.modVersion ++
    leBytes 2 h.udynlinkVersion ++ leBytes 2 h.archTag ++ leBytes 2 h.numLot ++
    leBytes 2 h.numRels ++ leBytes 2 h.flags ++ leBytes 4 h.symtSize ++
    leBytes 4 h.codeSize ++ leBytes 4 h.dataSize ++ leBytes 4 h.bssSize

def headerSize : Nat :=
  if h.udynlinkVersion ≥ packVersion 3 0 then headerSizeBytes
  else if h.udynlinkVersion ≥ packVersion 2 0 then headerSizeV2
  else headerSizeBytes

def relocsSize : Nat := h.numRels * 2 * 4

def relocsOffset : Nat := h.headerSize

def symtabOffset : Nat := h.relocsOffset + h.relocsSize

def numSections : Nat := (h.flags &&& 0x00FE) >>> 1

def hasSections : Bool := (h.flags &&& 0x0001) ≠ 0

def sectabOffset : Nat := align4 (h.symtabOffset + h.symtSize)

def sectabSize : Nat := h.numSections * 24

def codeOffset : Nat := align4 (h.sectabOffset + h.sectabSize)

end ModuleHeader

/-! ## Relocations and symbols -/

def unpackU32 (data : Bytes) (off : Nat) : Parse Nat :=
  if off + 4 ≤ data.length then .ok (word data off 4) else .error .structError

structure Relocation where
  lotOffset : Nat
  value : Nat
deriving DecidableEq, Repr

def Relocation.pack (r : Relocation) : Bytes := leBytes 4 r.lotOffset ++ leBytes 4 r.value

def parseRelocations (data : Bytes) (relocsOff : Nat) : Nat → Nat → Parse (List Relocation)
  | 0, _ => .ok []
  | n + 1, i => do
    let lotOffset ← unpackU32 data (relocsOff + i * 8)
    let value ← unpackU32 data (relocsOff + i * 8 + 4)
    let rest ← parseRelocations data relocsOff n (i + 1)
    .ok (⟨lotOffset, value⟩ :: rest)

def symTypeInternal : Nat := 0

def symTypeModuleName : Nat := 3

inductive Location where
  | code
  | data
deriving DecidableEq, Repr

structure Symbol where
  index : Nat
  nameOffRaw : Nat
  valRaw : Nat
  name : Option Str
  type : Nat
  location : Location
deriving DecidableEq, Repr

def Symbol.isLastEntryMarker (s : Symbol) : Bool := s.nameOffRaw = 0xFFFFFFFF

def Symbol.isLocal (s : Symbol) : Bool := s.type = symTypeInternal

/-- The name at an offset, up to its NUL or to the end of the table. -/
def poolName (symtabBytes : Bytes) (nameOff symtSize : Nat) : Option Str :=
  if nameOff ≥ symtSize then none
  else some (decodeUtf8 ((symtabBytes.drop nameOff).takeWhile (· ≠ 0)))

def symbolOf (symtabBytes : Bytes) (symtSize i nameOffRaw valRaw : Nat) : Symbol :=
  let info := nameOffRaw >>> 27
  let symType := info &&& 0x07
  { index := i
    nameOffRaw
    valRaw
    name := if symType = symTypeInternal ∨ nameOffRaw = 0xFFFFFFFF then none
      else poolName symtabBytes (nameOffRaw &&& 0x07FFFFFF) symtSize
    type := symType
    location := if (info &&& 0x08) ≠ 0 then .code else .data }

/-- The entries from index `i` on; a truncated table ends early. -/
def parseSymbols (symtabBytes : Bytes) (symtSize : Nat) : Nat → Nat → Parse (List Symbol)
  | 0, _ => .ok []
  | n + 1, i =>
    if 4 + i * 8 + 8 > symtSize then .ok []
    else do
      let nameOffRaw ← unpackU32 symtabBytes (4 + i * 8)
      let valRaw ← unpackU32 symtabBytes (4 + i * 8 + 4)
      let rest ← parseSymbols symtabBytes symtSize n (i + 1)
      .ok (symbolOf symtabBytes symtSize i nameOffRaw valRaw :: rest)

def symbolCount (symtabBytes : Bytes) (symtSize : Nat) : Parse Nat :=
  if symtSize ≥ 4 then unpackU32 symtabBytes 0 else .ok 0

/-! ## Sections -/

def secClassCode : Nat := 0

def secClassData : Nat := 1

def secClassBss : Nat := 2

def secFlagMain : Nat := 0x80000000

def secFlagReservedMask : Nat := 0x00FF0000

def sectionEntrySize : Nat := 24

structure ImageSection where
  index : Nat
  nameOff : Nat
  va : Nat
  size : Nat
  align : Nat
  cls : Nat
  flags : Nat
  name : Option Str
  synthetic : Bool
deriving DecidableEq, Repr

namespace ImageSection

def isBss (s : ImageSection) : Bool := s.cls = secClassBss

def containsPayload (s : ImageSection) : Bool := !s.isBss

def pack (s : ImageSection) : Bytes :=
  leBytes 4 s.nameOff ++ leBytes 4 s.va ++ leBytes 4 s.size ++ leBytes 4 s.align ++
    leBytes 4 s.cls ++ leBytes 4 s.flags

end ImageSection

/-- The three implicit sections of an untagged image. -/
def synthesizedSections (h : ModuleHeader) : List ImageSection :=
  [⟨0, 0, 0, h.codeSize, 4, secClassCode, secFlagMain, none, true⟩,
    ⟨1, 0, h.codeSize, h.dataSize, 4, secClassData, secFlagMain, none, true⟩,
    ⟨2, 0, h.codeSize + h.dataSize, h.bssSize, 4, secClassBss, secFlagMain, none, true⟩]

/-- The entry at `off`, with its name. -/
def entryOf (data symtabBytes : Bytes) (symtSize i off : Nat) : ImageSection where
  index := i
  nameOff := word data off 4
  va := word data (off + 4) 4
  size := word data (off + 8) 4
  align := word data (off + 12) 4
  cls := word data (off + 16) 4
  flags := word data (off + 20) 4
  name := if word data off 4 ≠ 0 then poolName symtabBytes (word data off 4) symtSize else none
  synthetic := false

/-- What `validate` tests in an entry. -/
def checkEntry (symtSize : Nat) (e : ImageSection) : Parse Unit :=
  if e.nameOff ≠ 0 ∧ e.name = none then .error (.sectionNameOutside e.index e.nameOff symtSize)
  else if e.size % 4 ≠ 0 then .error (.sectionSize e.index e.size)
  else if e.align < 4 ∨ (e.align &&& (e.align - 1)) ≠ 0 then
    .error (.sectionAlign e.index e.align)
  else if e.cls > secClassBss then .error (.sectionClass e.index e.cls)
  else if (e.flags &&& secFlagReservedMask) ≠ 0 then
    .error (.sectionReservedFlags e.index (e.flags &&& secFlagReservedMask))
  else .ok ()

/-- Entries from index `i` on, with their bytes. -/
def parseEntries (data symtabBytes : Bytes) (symtSize sectabOff : Nat) (validate : Bool) :
    Nat → Nat → Parse (List ImageSection × Bytes)
  | 0, _ => .ok ([], [])
  | n + 1, i =>
    let off := sectabOff + i * sectionEntrySize
    if off + sectionEntrySize > data.length then .ok ([], [])
    else do
      let e := entryOf data symtabBytes symtSize i off
      validating validate (checkEntry symtSize e)
      let rest ← parseEntries data symtabBytes symtSize sectabOff validate n (i + 1)
      .ok (e :: rest.1, e.pack ++ rest.2)

def checkOrder : List ImageSection → Parse Unit
  | prev :: cur :: rest =>
    if cur.va < prev.va + prev.size then .error (.sectionsOverlap prev.index cur.index)
    else checkOrder (cur :: rest)
  | _ => .ok ()

def parseSectionTable (data : Bytes) (h : ModuleHeader) (symtabBytes : Bytes) (sectabOff : Nat)
    (validate : Bool) : Parse (List ImageSection × Bytes) :=
  if validate ∧ sectabOff + h.numSections * sectionEntrySize > data.length then
    .error (.sectionTableTruncated (h.numSections * sectionEntrySize) sectabOff data.length)
  else do
    let entries ← parseEntries data symtabBytes h.symtSize sectabOff validate h.numSections 0
    validating validate (checkOrder entries.1)
    .ok entries

/-! ## The image -/

structure ModuleImage where
  header : ModuleHeader
  relocations : List Relocation
  symbols : List Symbol
  code : Bytes
  data : Bytes
  relocsOffset : Nat
  symtabOffset : Nat
  codeOffset : Nat
  dataOffset : Nat
  sections : List ImageSection
  payloads : List Bytes
  sectabOffset : Nat
  symtabBytes : Bytes
  sectabBytes : Bytes
deriving DecidableEq, Repr

/-- Bytes of payload in the image. -/
def payloadSize : List ImageSection → Nat
  | [] => 0
  | s :: ss => (if s.containsPayload then s.size else 0) + payloadSize ss

def checkHeader (h : ModuleHeader) : Parse Unit :=
  if h.sign ≠ moduleSignature then .error (.badSignature h.sign)
  else if h.headerSize ≠ headerSizeBytes then .error (.unsupportedHeaderSize h.headerSize)
  else if (h.flags &&& 0xFF00) ≠ 0 then .error (.unknownFlagBits (h.flags &&& 0xFF00))
  else if h.hasSections ∧ ¬ (1 ≤ h.numSections ∧ h.numSections ≤ maxSectionCount) then
    .error (.sectionCountRange h.numSections)
  else if h.hasSections = false ∧ h.numSections ≠ 0 then
    .error (.sectionCountWithoutFlag h.numSections)
  else if h.hasSections ∧ h.udynlinkVersion < packVersion 3 1 then
    .error (.sectionedVersion h.udynlinkVersion)
  else .ok ()

/-- The metadata has to be there before it is decoded. -/
def checkLength (need len : Nat) : Parse Unit :=
  if len < need then .error (.bufferTruncated need len) else .ok ()

def parseSections (data : Bytes) (h : ModuleHeader) (symtabBytes : Bytes) (validate : Bool) :
    Parse (List ImageSection × Bytes) :=
  if h.hasSections then parseSectionTable data h symtabBytes h.sectabOffset validate
  else .ok (synthesizedSections h, [])

/-- Payloads follow each other, without those of BSS sections. -/
def parsePayloads (data : Bytes) : List ImageSection → Nat → List Bytes
  | [], _ => []
  | s :: ss, off =>
    if s.isBss then [] :: parsePayloads data ss off
    else slice data off s.size :: parsePayloads data ss (off + s.size)

def checkHeaderLength (len : Nat) : Parse Unit :=
  if len < headerSizeBytes then .error (.bufferTooShort len) else .ok ()

def parseModule (data : Bytes) (validate : Bool) : Parse ModuleImage := do
  checkHeaderLength data.length
  let header ← ModuleHeader.unpack data
  validating validate (checkHeader header)
  validating validate
    (checkLength (header.symtabOffset + header.symtSize + header.sectabSize) data.length)
  let relocations ← parseRelocations data header.relocsOffset header.numRels 0
  let symtabBytes := slice data header.symtabOffset header.symtSize
  let numEntries ← symbolCount symtabBytes header.symtSize
  let symbols ← parseSymbols symtabBytes header.symtSize numEntries 0
  let sections ← parseSections data header symtabBytes validate
  let payloads := parsePayloads data sections.1 header.codeOffset
  validating validate (checkLength (header.codeOffset + payloadSize sections.1) data.length)
  .ok
    { header
      relocations
      symbols
      code := payloads.getD 0 []
      data := payloads.getD 1 []
      relocsOffset := header.relocsOffset
      symtabOffset := header.symtabOffset
      codeOffset := header.codeOffset
      dataOffset := header.codeOffset + header.codeSize
      sections := sections.1
      payloads
      sectabOffset := if header.hasSections then header.sectabOffset else 0
      symtabBytes
      sectabBytes := sections.2 }

namespace ModuleImage

variable (img : ModuleImage)

def imageSize : Nat := img.codeOffset + payloadSize img.sections

/-- The loop of `payload_image_offset`. -/
def payloadOffsetLoop (idx : Nat) : List ImageSection → Nat → Nat
  | [], off => off
  | s :: ss, off =>
    if s.index ≥ idx then off
    else payloadOffsetLoop idx ss (if s.containsPayload then off + s.size else off)

def payloadImageOffset (idx : Nat) : Nat := payloadOffsetLoop idx img.sections img.codeOffset

/-- `buf[off:off + len(payload)] = payload`. -/
def splice (buf : Bytes) (off : Nat) (payload : Bytes) : Bytes :=
  buf.take off ++ payload ++ buf.drop (off + payload.length)

def padTo (out : Bytes) (n : Nat) : Bytes := out ++ List.replicate (n - out.length) 0

/-- The loop over sections and payloads. -/
def placePayloads : List (ImageSection × Bytes) → Bytes → Bytes
  | [], buf => buf
  | (sec, payload) :: rest, buf =>
    if sec.containsPayload then
      placePayloads rest (splice buf (img.payloadImageOffset sec.index) payload)
    else placePayloads rest buf

def toBytes : Bytes :=
  let out := img.header.pack ++ (img.relocations.map Relocation.pack).flatten ++ img.symtabBytes
  let out := padTo out img.sectabOffset ++ img.sectabBytes
  let out := padTo out img.codeOffset
  let buf := List.replicate img.imageSize (0 : UInt8)
  img.placePayloads (img.sections.zip img.payloads) (out ++ buf.drop out.length)

/-- The scan of `num_named_symbols` for the last entry in front of a nameless one. -/
def lastNamed : List Symbol → Nat → Nat → Nat
  | [], _, last => last
  | s :: ss, i, last => if s.type = symTypeInternal then last else lastNamed ss (i + 1) i

/-- No name is greater than the next one. -/
def namesSorted : List Str → Bool
  | a :: b :: rest => !decide (b < a) && namesSorted (b :: rest)
  | _ => true

def numNamedSymbols : Nat :=
  if img.symbols.length ≤ 1 then 0
  else
    let last := lastNamed (img.symbols.drop 1) 1 0
    let named := (slice img.symbols 1 last).filter fun s => !s.isLastEntryMarker
    if namesSorted (named.map fun s => s.name.getD []) then last else 0

def lookupSymbol (name : Str) : Option Symbol :=
  img.symbols.find? fun s => !s.isLocal && s.name = some name

end ModuleImage

end Udynlink.Parser
