import Udynlink.LoadSectioned
import Udynlink.SectionedRebase
import Udynlink.UntaggedRun

/-!
# A sectioned module between calls

The metadata of the image is the reference: where the module keeps it, and which
bases the block records. A move starts from this and ends in it.
-/

namespace Udynlink

open Machine

/-- Header, tables and mode a sectioned module was loaded with. -/
structure SectionedImage where
  pHeader : Addr
  m : Mem
  mode : LoadMode

namespace SectionedImage

def header (u : SectionedImage) : Header := decodeHeader u.m u.pHeader

def tab (u : SectionedImage) : SectView := sectView u.pHeader u.header

def num (u : SectionedImage) : Nat := u.tab.num

def es (u : SectionedImage) : Nat → SectEntry := entriesAt u.m u.tab.pEntries

def ram (u : SectionedImage) : Nat := exactRamSections u.header u.num u.es u.mode

/-- The tables a move reads behind the header. -/
def source (u : SectionedImage) : RelocSource :=
  ⟨u.pHeader, getRelocsPointer u.pHeader u.header, getSymTablePointer u.pHeader u.header⟩

def Fits (u : SectionedImage) : Prop := SectionedFits u.header u.num u.es u.mode

/-- Every word a move can write is one the module holds in RAM. -/
def Contained (u : SectionedImage) : Prop :=
  ∀ k, k < u.header.numRels.toNat → entryWrites u.source u.m k = true →
    TargetContained u.header u.num u.es u.mode ((sectFindByVa u.tab (relocVa u.header
      ((readRelocation u.source.pRelocations k).run u.m).1)).run u.m)
      ((readRelocation u.source.pRelocations k).run u.m).1

/-- A module in its block, with the bases it has recorded. -/
structure Placed (u : SectionedImage) (secs : Nat → Addr) (p : Addr) (mod : Module) (m : Mem) :
    Prop where
  pRam : mod.pRam = p
  mode : mod.mode = u.mode
  pHeader : mod.pHeader = if u.mode = .copyAll then metadataAddr u.header u.num p else u.pHeader
  metadata : ∀ i, i < exactCodeOffset u.header →
    m (mod.pHeader + UInt32.ofNat i) = u.m (u.pHeader + UInt32.ofNat i)
  bases : ∀ j, 3 ≤ j → j < u.num → (u.es j).size ≠ 0 → m.u32 (baseWord u.header p j) = secs j

/-- Blocks apart from each other, and from an image that stays in use. -/
structure Apart (u : SectionedImage) (secs : Nat → Addr) (p : Addr) : Prop where
  room : TaggedRoom u.es secs u.num ⟨p, u.ram⟩
  block : u.mode ≠ .copyAll →
    Span.Disjoint ⟨u.pHeader, exactCodeOffset u.header⟩ ⟨p, u.ram⟩
  tagged : u.mode ≠ .copyAll → ∀ j, 3 ≤ j → j < u.num → (u.es j).size ≠ 0 →
    Span.Disjoint ⟨u.pHeader, exactCodeOffset u.header⟩ ⟨secs j, (u.es j).size.toNat⟩

variable {u : SectionedImage} {secs : Nat → Addr} {p : Addr} {mod : Module} {m : Mem}

/-- No word of the module at `p`, nor of its sections. -/
abbrev Fixed (u : SectionedImage) (secs : Nat → Addr) (p a : Addr) : Prop :=
  SectionedFixed u.header u.num u.es u.mode secs p a

/-! ## The metadata from a distance -/

theorem rebased (q p x : Addr) : q + x = p + x + (q - p) := by abel

namespace Placed

theorem header (h : u.Placed secs p mod m) (hf : u.Fits) :
    decodeHeader m mod.pHeader = u.header := by
  have hnum := hf.main
  have hcount := hf.table.count
  have hle := header_le_codeOffset (h := u.header) (by omega)
  exact decodeHeader_eq_of_bytes fun i hi => h.metadata i (by omega)

theorem shift (h : u.Placed secs p mod m) {a : Addr}
    (ha : a ∈ (⟨u.pHeader, exactCodeOffset u.header⟩ : Span)) :
    u.m a = m.shift (mod.pHeader - u.pHeader) a := by
  obtain ⟨i, hi, rfl⟩ := exists_off ha
  have hb := h.metadata i hi
  rw [Mem.shift, ← rebased, hb]

theorem entries (h : u.Placed secs p mod m) (hf : u.Fits) {i : Nat} (hi : i < u.num) :
    entriesAt m (sectView mod.pHeader u.header).pEntries i = u.es i := by
  have hle := table_le_codeOffset (h := u.header) (i := i) (by have := hf.table.count; omega)
  have hp : ∀ q : Addr, (sectView q u.header).pEntries =
      q + UInt32.ofNat (exactSymtabEnd u.header) := fun q => by
    rw [← getSymtabEndOffset_eq]
    rfl
  rw [es, tab, hp, hp, entriesAt, entriesAt]
  refine decodeEntry_eq_of_bytes fun k hk => ?_
  rw [off_off, off_off, off_off, off_off]
  exact h.metadata _ (by omega)

theorem sectionedAt (h : u.Placed secs p mod m) (hf : u.Fits) :
    SectionedAt u.header u.es u.mode secs p mod (sectView mod.pHeader u.header) m :=
  ⟨h.pRam, h.mode, h.header hf, fun _ hi => h.entries hf hi, h.bases⟩

end Placed

/-! ## The tables -/

theorem symtabEnd_le_codeOffset (h : Header) :
    (getHeaderSize h).toNat + 8 * h.numRels.toNat + h.symtSize.toNat ≤ exactCodeOffset h := by
  have hle := le_exactAlignUp (x := (getHeaderSize h).toNat + 8 * h.numRels.toNat + h.symtSize.toNat)
    (show (4 : Nat).isPowerOfTwo from ⟨2, rfl⟩)
  have hle' := le_exactAlignUp (x := exactSymtabEnd h + 24 * (getNumSectionsRaw h).toNat)
    (show (4 : Nat).isPowerOfTwo from ⟨2, rfl⟩)
  rw [← exactSymtabEnd] at hle
  rw [← exactCodeOffset] at hle'
  omega

theorem relocs_subset (hf : u.Fits) (q : Addr) :
    (⟨getRelocsPointer q u.header, 8 * u.header.numRels.toNat⟩ : Span) ⊆
      ⟨q, exactCodeOffset u.header⟩ := by
  have hend := symtabEnd_le_codeOffset u.header
  have hlt := hf.table.exactCodeOffset_lt
  have hq : getRelocsPointer q u.header = q + UInt32.ofNat (getHeaderSize u.header).toNat := by
    rw [getRelocsPointer, getHeaderSize_words, UInt32.ofNat_toNat]
  rw [hq]
  exact off_subset (by omega) (by omega)

theorem symtab_subset (hf : u.Fits) (q : Addr) :
    (⟨getSymTablePointer q u.header, u.header.symtSize.toNat⟩ : Span) ⊆
      ⟨q, exactCodeOffset u.header⟩ := by
  have hend := symtabEnd_le_codeOffset u.header
  have hlt := hf.table.exactCodeOffset_lt
  rw [getSymTablePointer_eq]
  exact off_subset (by omega) (by omega)

namespace Placed

theorem entry (h : u.Placed secs p mod m) (hf : u.Fits) {k : Nat}
    (hk : k < u.header.numRels.toNat) :
    (readRelocation (getRelocsPointer mod.pHeader u.header) k).run m =
      (readRelocation u.source.pRelocations k).run u.m := by
  have hn := u.header.numRels.toNat_lt
  have hq : getRelocsPointer mod.pHeader u.header =
      u.source.pRelocations + (mod.pHeader - u.pHeader) := by
    exact rebased _ _ _
  rw [hq, readRelocation_shift]
  exact (within_readRelocation (P := (· ∈ (⟨u.pHeader, exactCodeOffset u.header⟩ : Span)))
    (relocs_subset hf u.pHeader) hk (by omega) u.m).congr fun a ha => h.shift ha

theorem sym (h : u.Placed secs p mod m) (hf : u.Fits) {index : UInt32}
    (hi : index.toNat < 2 ^ 30) :
    (getSymAt mod.pHeader index).run m =
      (relocSym u.source u.m index).map (Sym.shift (mod.pHeader - u.pHeader)) := by
  have hq : getSymTablePointer mod.pHeader u.header =
      u.source.pSymtab + (mod.pHeader - u.pHeader) := by
    rw [source, getSymTablePointer_eq, getSymTablePointer_eq]
    exact rebased _ _ _
  rw [getSymAt, Reader.run_bind, readHeader_run, h.header hf, hq, getSymAtRaw_shift, relocSym]
  exact congrArg _ ((within_getSymAtRaw (P := (· ∈ (⟨u.pHeader, exactCodeOffset u.header⟩ : Span)))
    (symtab_subset hf u.pHeader) (by omega) u.m).congr fun a ha => h.shift ha)

/-! ## What stays where it is -/

/-- The metadata a module uses is no word of a placement at its block. -/
theorem metadata_fixed {secs' : Nat → Addr} (h : u.Placed secs p mod m) (hf : u.Fits)
    (ha : u.Apart secs' p) : Covers (u.Fixed secs' p) ⟨mod.pHeader, exactCodeOffset u.header⟩ := by
  by_cases hm : u.mode = .copyAll
  · rw [h.pHeader, if_pos hm]
    exact fixed_block hf (by omega) (by rw [exactStart, if_pos hm])
  · rw [h.pHeader, if_neg hm]
    exact fun a hx => Or.inl ⟨ha.block hm a hx, fun j hj hj' hne => ha.tagged hm j hj hj' hne a hx⟩

theorem bases_fixed (hf : u.Fits) {secs' : Nat → Addr} {j : Nat} (hj : 3 ≤ j) (hj' : j < u.num) :
    Covers (u.Fixed secs' p) ⟨baseWord u.header p j, 4⟩ := by
  have hb := bases_le_start u.header u.num u.mode
  exact fixed_block hf (by omega) (by omega)

/-- A module whose fixed part is not written stays in place. -/
theorem congr {m' : Mem} {secs' : Nat → Addr} (h : u.Placed secs p mod m) (hf : u.Fits)
    (ha : u.Apart secs' p) (hsame : ∀ a, u.Fixed secs' p a → m a = m' a) :
    u.Placed secs p mod m' := by
  have hlt := hf.table.exactCodeOffset_lt
  refine ⟨h.pRam, h.mode, h.pHeader, fun i hi => ?_, fun j hj hj' hne => ?_⟩
  · rw [← hsame _ (h.metadata_fixed hf ha _ (off_mem hi (by omega)))]
    exact h.metadata i hi
  · have hw : AgreeOn ⟨baseWord u.header p j, 4⟩ m m' :=
      fun a hx => hsame a (bases_fixed hf hj hj' a hx)
    rw [← hw.u32]
    exact h.bases j hj hj' hne

end Placed

end SectionedImage

end Udynlink
