import Udynlink.LoadStages

/-!
# The size caps against unbounded arithmetic

The caps compare sums that were formed in words. They mean what they say exactly
when neither the code offset nor the RAM requirement has left the word, and when
the gap before `.data`, which the extent leaves out, still fits.
-/

namespace Udynlink

open Machine

/-- What the caps promise: the extent and the RAM requirement over unbounded
integers, and a main block requested with exactly that size. -/
structure ExactSizes (h : Header) (num : Nat) (es : Nat → SectEntry) (mode : LoadMode)
    (loadAddr mainAlign : UInt32) (evs : List (Event HostEvent)) : Prop where
  extent : exactExtent h num es ≤ maxImageSize.toNat
  ram : exactRam h num es mode ≤ maxRamSize.toNat
  request : loadAddr = 0 → exactRam h num es mode ≠ 0 →
    ∃ size p rest, hostEvents evs = .malloc size ⟨none, mainAlign, 0⟩ p :: rest ∧
      size.toNat = exactRam h num es mode

/-- Bytes between the end of `.text` and `.data` in the image. -/
def textGap (h : Header) (num : Nat) (es : Nat → SectEntry) : Nat :=
  exactCodePayload h num es - h.codeSize.toNat

/-- The extent as the loader sums it, wrapped code offset and all. -/
def loaderExtent (h : Header) (num : Nat) (es : Nat → SectEntry) : Nat :=
  (getCodeOffsetFromHeader h).toNat + h.codeSize.toNat + h.dataSize.toNat +
    classSizes es 3 (num - 3) 3

structure SizesFit (h : Header) (num : Nat) (es : Nat → SectEntry) (mode : LoadMode) : Prop where
  codeOffset : exactCodeOffset h < 2 ^ 32
  ram : exactRam h num es mode < 2 ^ 32
  gap : loaderExtent h num es + textGap h num es ≤ maxImageSize.toNat

variable {host : Host} {image : Image} {loadAddr loadSize : UInt32} {mode : LoadMode}
  {w w' : State} {tab : SectView} {ramSize ramAddr : UInt32} {w1 w2 w3 w4 : State}

theorem codeOffset_toNat {h : Header} (hc : exactCodeOffset h < 2 ^ 32) :
    (getCodeOffsetFromHeader h).toNat = exactCodeOffset h := by
  rw [getCodeOffsetFromHeader_eq, toNat_ofNat_of_lt hc]

/-- The first thing a load asks of the host is the main block. -/
theorem LoadStages.mainRequest_first
    (hs : LoadStages host image loadAddr loadSize mode w w' tab ramSize ramAddr w1 w2 w3 w4)
    (hload : loadAddr = 0) (hram : ramSize ≠ 0) {evs : List (Event HostEvent)}
    (he : w.Extends w' evs) :
    ∃ p rest, hostEvents evs = .malloc ramSize ⟨none, (getMainAlign tab).run w.mem, 0⟩ p :: rest := by
  have hprov := hs.provision
  rw [provisionRam, if_pos (UInt32.pos_iff_ne_zero.mpr hram), Prog.run_bind_ok] at hprov
  obtain ⟨p, wa, haddr, hrest⟩ := hprov
  obtain ⟨-, hmem, ⟨-, -, htr⟩ | ⟨hne, -⟩⟩ := provisionAddr_ok haddr
  · obtain ⟨as, hw1⟩ := hs.checked
    obtain ⟨bs, hw'⟩ := hs.finished
    have hstart : w.Extends w1 (readEvents as) := hw1 ▸ ⟨rfl, fun _ _ => rfl⟩
    have hreq : w1.Extends wa [mainRequest ramSize ((getMainAlign tab).run w.mem) p] :=
      ⟨htr, fun a _ => congrFun hmem a⟩
    have hend : w4.Extends w' (readEvents bs) := hw' ▸ ⟨rfl, fun _ _ => rfl⟩
    obtain ⟨e2, h2⟩ := Prog.extends_of_run hrest
    obtain ⟨e3, h3⟩ := Prog.extends_of_run hs.place
    obtain ⟨e4, h4⟩ := Prog.extends_of_run hs.relocate
    have hall := hstart.trans (hreq.trans (h2.trans (h3.trans (h4.trans hend))))
    rw [he.unique hall]
    refine ⟨p, hostEvents (e2 ++ (e3 ++ (e4 ++ readEvents bs))), ?_⟩
    rw [hostEvents_append, hostEvents_readEvents, hostEvents_append]
    rfl
  · exact absurd hload hne

/-- A load that returns keeps the promise of the caps exactly when the sizes fit. -/
theorem load_sizes_exact_iff
    (hrun : (udynlinkLoadModuleImage host image loadAddr loadSize mode).run w = (.ok (), w'))
    (htab : (getSectab image.pHeader true).run w.mem = (.ok (), tab))
    {evs : List (Event HostEvent)} (he : w.Extends w' evs) :
    ExactSizes (decodeHeader w.mem image.pHeader) tab.num (entriesAt w.mem tab.pEntries) mode
        loadAddr ((getMainAlign tab).run w.mem) evs ↔
      SizesFit (decodeHeader w.mem image.pHeader) tab.num (entriesAt w.mem tab.pEntries)
        mode := by
  obtain ⟨tab', ramSize, ramAddr, w1, w2, w3, w4, hs⟩ := loadStages_of_ok hrun
  obtain rfl : tab' = tab := congrArg Prod.snd (hs.sectab.symm.trans htab)
  generalize hh : decodeHeader w.mem image.pHeader = h
  generalize hes : entriesAt w.mem tab'.pEntries = es
  have hcaps := hs.caps
  rw [hh, hes] at hcaps
  have hmax : maxImageSize.toNat < 2 ^ 32 := by decide
  have hmaxRam : maxRamSize.toNat < 2 ^ 32 := by decide
  have htot := hcaps.total
  have hext := hcaps.extent
  constructor
  · intro hx
    have hxe := hx.extent
    have hxr := hx.ram
    have hc : exactCodeOffset h < 2 ^ 32 := by
      rw [exactExtent] at hxe
      omega
    refine ⟨hc, by omega, ?_⟩
    rw [loaderExtent, textGap]
    rw [exactExtent] at hxe
    rw [codeOffset_toNat hc] at hext ⊢
    omega
  · intro hf
    have hgap := hf.gap
    have hsize : ramSize.toNat = exactRam h tab'.num es mode := by
      rw [hcaps.ram, toNat_ofNat_of_lt hf.ram]
    refine ⟨?_, by omega, fun hload hne => ?_⟩
    · rw [loaderExtent, textGap, codeOffset_toNat hf.codeOffset] at hgap
      rw [exactExtent]
      omega
    · have hz : ramSize ≠ 0 := fun hz => hne (by rw [← hsize, hz]; rfl)
      obtain ⟨p, rest, hev⟩ := hs.mainRequest_first hload hz he
      exact ⟨ramSize, p, rest, hev, hsize⟩

/-! ## A header whose code offset wraps to zero -/

/-- `symt_size` is `2 ^ 32 - 32`, which the 32-byte header brings back to 0. -/
def wrappedSymtRom : Mem := .ofWords 0x1000 [0x4D4C4455, 0x03010000, 0, 0, 0xFFFFFFE0, 0, 0, 0]

def wrappedSymtImage : Image := ⟨0x1000, 0x1020, 0x1020, 0x1000, 0x1000⟩

def wrappedSymtHost : Host := .bump 0x20000000 fun _ => 0

def wrappedSymtBoot : State := ⟨wrappedSymtRom, Module.free, []⟩

def wrappedSymtLoaded : State :=
  ((udynlinkLoadModuleImage wrappedSymtHost wrappedSymtImage 0 0 .xip).run wrappedSymtBoot).2

theorem load_sizes_exact_iff_wrappedSymt :
    ExactSizes (decodeHeader wrappedSymtRom 0x1000) 0 (entriesAt wrappedSymtRom 0) .xip 0 4
        wrappedSymtLoaded.trace ↔
      SizesFit (decodeHeader wrappedSymtRom 0x1000) 0 (entriesAt wrappedSymtRom 0) .xip := by
  have hrun : (udynlinkLoadModuleImage wrappedSymtHost wrappedSymtImage 0 0 .xip).run
      wrappedSymtBoot = (.ok (), wrappedSymtLoaded) := Prod.ext (by decide +kernel) rfl
  have htab : (getSectab wrappedSymtImage.pHeader true).run wrappedSymtBoot.mem =
      (.ok (), ⟨0, 0x1020, 0⟩) := by decide +kernel
  obtain ⟨evs, he⟩ := Prog.extends_of_run hrun
  have htrace : wrappedSymtLoaded.trace = evs := he.1
  have hiff := load_sizes_exact_iff hrun htab he
  rw [← htrace] at hiff
  exact hiff

/-- The load returns, and the image it accepted claims four gigabytes. -/
theorem wrapped_code_offset_accepted :
    ((udynlinkLoadModuleImage wrappedSymtHost wrappedSymtImage 0 0 .xip).run
        wrappedSymtBoot).1 = .ok () ∧
      ¬ ExactSizes (decodeHeader wrappedSymtRom 0x1000) 0 (entriesAt wrappedSymtRom 0) .xip 0 4
        wrappedSymtLoaded.trace := by
  refine ⟨by decide +kernel, fun h => ?_⟩
  have hlarge : ¬ exactExtent (decodeHeader wrappedSymtRom 0x1000) 0 (entriesAt wrappedSymtRom 0) ≤
      maxImageSize.toNat := by decide +kernel
  exact hlarge h.extent

end Udynlink
