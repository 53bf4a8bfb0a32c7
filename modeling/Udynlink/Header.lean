import Udynlink.Machine.Align
import Udynlink.Machine.Reader

/-!
# The module header and the offsets derived from it

The fields the loader never looks at (`mod_version`, `arch_tag`) are left out.
`size_t` is the 32-bit word of the target, so every sum below can wrap.
-/

namespace Udynlink

open Machine

/-- `udynlink_error_t` without `UDYNLINK_OK`, which is `Except.ok`. -/
inductive Error where
  | loadInvalidSign
  | loadRamLenLow
  | loadOutOfMemory
  | loadXipUnsupported
  | loadInvalidMode
  | loadBadRelocationTable
  | loadUnknownSymbol
  | loadDuplicateName
  | loadVersionMismatch
  | loadArchMismatch
  | loadIoError
  | invalidModule
  | loadHookAborted
  | loadRamUnaligned
  | loadSectionUnresolved
  | loadSectionUnaligned
  | loadBadSectionTable
deriving DecidableEq, Repr

inductive LoadMode where
  | copyAll
  | copyTextData
  | xip
deriving DecidableEq, Repr

/-- `'UDLM'` read as a little-endian word. -/
def moduleSign : UInt32 := 0x4D4C4455

def makeVersion (major minor : UInt16) : UInt16 := (major <<< 8) ||| minor

def loaderAbiVersion : UInt16 := makeVersion 3 1

def maxRamSize : UInt32 := 16 * 1024 * 1024

def maxImageSize : UInt32 := 4 * 1024 * 1024

def maxSections : UInt32 := 63

def hdrFlagSections : UInt16 := 0x0001

def hdrSectionsMask : UInt16 := 0x00FE

/-- The resolver's answer that postpones a symbol. -/
def symDeferred : Addr := 1

structure Header where
  sign : UInt32
  udynlinkVersion : UInt16
  numLot : UInt16
  numRels : UInt16
  flags : UInt16
  symtSize : UInt32
  codeSize : UInt32
  dataSize : UInt32
  bssSize : UInt32
deriving DecidableEq, Repr

def decodeHeader (m : Mem) (p : Addr) : Header where
  sign := m.u32 p
  udynlinkVersion := m.u16 (p + 6)
  numLot := m.u16 (p + 10)
  numRels := m.u16 (p + 12)
  flags := m.u16 (p + 14)
  symtSize := m.u32 (p + 16)
  codeSize := m.u32 (p + 20)
  dataSize := m.u32 (p + 24)
  bssSize := m.u32 (p + 28)

/-- A word of a region that has the same bytes elsewhere. -/
theorem u32_off_eq {m m' : Mem} {p q : Addr} {n k : Nat}
    (h : ∀ i, i < n → m (p + UInt32.ofNat i) = m' (q + UInt32.ofNat i)) (hk : k + 4 ≤ n) :
    m.u32 (p + UInt32.ofNat k) = m'.u32 (q + UInt32.ofNat k) :=
  u32_eq_of_bytes fun i hi => by
    rw [off_off, off_off]
    exact h _ (by omega)

theorem u16_off_eq {m m' : Mem} {p q : Addr} {n k : Nat}
    (h : ∀ i, i < n → m (p + UInt32.ofNat i) = m' (q + UInt32.ofNat i)) (hk : k + 2 ≤ n) :
    m.u16 (p + UInt32.ofNat k) = m'.u16 (q + UInt32.ofNat k) :=
  u16_eq_of_bytes fun i hi => by
    rw [off_off, off_off]
    exact h _ (by omega)

/-- The header is a function of its 32 bytes. -/
theorem decodeHeader_eq_of_bytes {m m' : Mem} {p q : Addr}
    (h : ∀ i, i < 32 → m (p + UInt32.ofNat i) = m' (q + UInt32.ofNat i)) :
    decodeHeader m p = decodeHeader m' q := by
  have h0 := u32_off_eq h (show 0 + 4 ≤ 32 by decide)
  rw [off_zero, off_zero] at h0
  have h6 := u16_off_eq h (show 6 + 2 ≤ 32 by decide)
  have h10 := u16_off_eq h (show 10 + 2 ≤ 32 by decide)
  have h12 := u16_off_eq h (show 12 + 2 ≤ 32 by decide)
  have h14 := u16_off_eq h (show 14 + 2 ≤ 32 by decide)
  have h16 := u32_off_eq h (show 16 + 4 ≤ 32 by decide)
  have h20 := u32_off_eq h (show 20 + 4 ≤ 32 by decide)
  have h24 := u32_off_eq h (show 24 + 4 ≤ 32 by decide)
  have h28 := u32_off_eq h (show 28 + 4 ≤ 32 by decide)
  exact Header.mk.injEq .. |>.mpr ⟨h0, h6, h10, h12, h14, h16, h20, h24, h28⟩

theorem decodeHeader_congr {m m' : Mem} {p : Addr} (h : AgreeOn ⟨p, 32⟩ m m') :
    decodeHeader m' p = decodeHeader m p :=
  (decodeHeader_eq_of_bytes fun _ hi => h _ (off_mem hi (by decide))).symm

/-- The header behind a `p_header`. -/
def readHeader (p : Addr) : Reader Header :=
  .ofSpan p 32 (decodeHeader · p) (by decide) fun _ _ h => decodeHeader_congr h

@[simp] theorem readHeader_run (p : Addr) (m : Mem) :
    (readHeader p).run m = decodeHeader m p := rfl

/-! ## Offsets -/

def isSectioned (h : Header) : Bool := (h.flags &&& hdrFlagSections) ≠ 0

/-- v1.0 and v3.0+ headers are 32 bytes; v2.0 headers are 36 bytes. -/
def getHeaderSize (h : Header) : UInt32 :=
  if h.udynlinkVersion ≥ makeVersion 3 0 then 32
  else if h.udynlinkVersion ≥ makeVersion 2 0 then 36
  else 32

def getSymtabEndOffset (h : Header) : UInt32 :=
  let res := getHeaderSize h + h.numRels.toUInt32 * 2 * 4 + h.symtSize
  (res + 3) &&& ~~~3

def getNumSectionsRaw (h : Header) : UInt32 :=
  let num := ((h.flags &&& hdrSectionsMask) >>> 1).toUInt32
  if !isSectioned h || num == 0 || num > maxSections then 0 else num

def getCodeOffsetFromHeader (h : Header) : UInt32 :=
  let res := getSymtabEndOffset h
  let res := res + getNumSectionsRaw h * 6 * 4
  (res + 3) &&& ~~~3

def getSymTablePointer (p : Addr) (h : Header) : Addr :=
  p + getHeaderSize h / 4 * 4 + h.numRels.toUInt32 * 2 * 4

def getSectabOffset (h : Header) : UInt32 := getSymtabEndOffset h

def udynlinkValidateHeader (h : Header) : Except Error Unit :=
  if h.sign ≠ moduleSign then .error .loadInvalidSign
  else if h.udynlinkVersion > loaderAbiVersion then .error .loadVersionMismatch
  else .ok ()

end Udynlink
