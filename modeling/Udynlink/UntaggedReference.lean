import Udynlink.LoadUntagged

/-!
# Reference semantics of an untagged module

What the memory of a loaded module is, as a function of the image and of the
address of the block alone: the relocated words, the bytes of the code and of
the data that no entry writes, and the zeroed data. Nothing here depends on the
order of the entries, and the description leaves no byte of the module open but
those of the LOT that no entry writes.
-/

namespace Udynlink

open Machine

/-- Where an image lies and what is linked into it. -/
structure UntaggedImage where
  image : Image
  /-- The memory that holds the image. -/
  m : Mem
  mode : LoadMode
  resolve : List UInt8 → Addr

abbrev RelocEntry := UInt32 × UInt32

namespace UntaggedImage

variable (u : UntaggedImage)

def header : Header := decodeHeader u.m u.image.pHeader

def entries : List RelocEntry :=
  (List.range u.header.numRels.toNat).map fun i => (readRelocation u.image.pRelocations i).run u.m

def sym (e : RelocEntry) : Option Sym :=
  (getSymAtRaw u.image.pSymtab e.2 u.header.symtSize).run u.m

/-- The word of the image behind an entry of the data. -/
def imageWord (e : RelocEntry) : UInt32 :=
  u.m.u32 (u.image.pData + UInt32.ofNat (4 * (e.1 - u.header.numLot.toUInt32).toNat))

/-- The host's answer for a name, as a function of the name alone. -/
def answer (name : SymName) : UInt32 := u.resolve ((readSymName name).run u.m)

def codeBase (p : Addr) : Addr :=
  if u.mode = .xip then u.image.pCode else p + UInt32.ofNat (untaggedCodeOff u.header u.mode)

def dataBase (p : Addr) : Addr := p + UInt32.ofNat (untaggedDataOff u.header u.mode)

def slot (p : Addr) (e : RelocEntry) : Addr :=
  p + UInt32.ofNat (untaggedSlotOff u.header u.mode e.1)

/-- The word an entry leaves, `none` when it writes nothing. -/
def entryWord (p : Addr) (e : RelocEntry) : Option UInt32 :=
  refWord (untaggedPlacement (u.codeBase p) (u.dataBase p)) u.answer e.2 (u.sym e) (u.imageWord e)

/-- The metadata behind the LOT of a COPY_ALL module. -/
structure MetadataAt (p : Addr) (m' : Mem) : Prop where
  header : ∀ i, i < (getHeaderSize u.header).toNat →
    m' (p + UInt32.ofNat (4 * u.header.numLot.toNat + i)) = u.m (u.image.pHeader + UInt32.ofNat i)
  relocs : ∀ i, i < 8 * u.header.numRels.toNat →
    m' (p + UInt32.ofNat (4 * u.header.numLot.toNat + (getHeaderSize u.header).toNat + i)) =
      u.m (u.image.pRelocations + UInt32.ofNat i)
  symtab : ∀ i, i < u.header.symtSize.toNat →
    m' (p + UInt32.ofNat (4 * u.header.numLot.toNat + (getHeaderSize u.header).toNat +
      8 * u.header.numRels.toNat + i)) = u.m (u.image.pSymtab + UInt32.ofNat i)
  pad : ∀ i, symtabEnd u.header ≤ i → i < exactCodeOffset u.header →
    m' (p + UInt32.ofNat (4 * u.header.numLot.toNat + i)) = 0

/-- The memory `m'` of the module at `p`, its entries in any order. -/
structure Reference (entries : List RelocEntry) (p : Addr) (m' : Mem) : Prop where
  words : ∀ e ∈ entries, ∀ v, u.entryWord p e = some v → m'.u32 (u.slot p e) = v
  text : u.mode ≠ .xip → ∀ j, j < u.header.codeSize.toNat →
    m' (p + UInt32.ofNat (untaggedCodeOff u.header u.mode + j)) =
      u.m (u.image.pCode + UInt32.ofNat j)
  data : ∀ j, j < u.header.dataSize.toNat →
    (∀ e ∈ entries, (u.entryWord p e).isSome = true →
      u.dataBase p + UInt32.ofNat j ∉ (⟨u.slot p e, 4⟩ : Span)) →
    m' (u.dataBase p + UInt32.ofNat j) = u.m (u.image.pData + UInt32.ofNat j)
  bss : ∀ j, j < u.header.bssSize.toNat →
    m' (u.dataBase p + UInt32.ofNat (u.header.dataSize.toNat + j)) = 0
  metadata : u.mode = .copyAll → u.MetadataAt p m'

/-- LOT words that no entry writes are those of `m₀`. -/
def LotKept (entries : List RelocEntry) (p : Addr) (m₀ m' : Mem) : Prop :=
  ∀ k, k < u.header.numLot.toNat →
    (∀ e ∈ entries, (u.entryWord p e).isSome = true → e.1.toNat ≠ k) →
    m'.u32 (p + UInt32.ofNat (4 * k)) = m₀.u32 (p + UInt32.ofNat (4 * k))

variable {u} {entries es : List RelocEntry} {p : Addr} {m₀ m' m'' : Mem}

theorem Reference.perm (h : u.Reference entries p m') (hp : es.Perm entries) :
    u.Reference es p m' :=
  ⟨fun e he => h.words e (hp.mem_iff.mp he), h.text,
    fun j hj hn => h.data j hj fun e he => hn e (hp.mem_iff.mpr he), h.bss, h.metadata⟩

theorem LotKept.perm (h : u.LotKept entries p m₀ m') (hp : es.Perm entries) :
    u.LotKept es p m₀ m' :=
  fun k hk hn => h k hk fun e he => hn e (hp.mem_iff.mpr he)

/-- A LOT word is targeted by the entry of its index. -/
theorem slot_of_lot {e : RelocEntry} {k : Nat} (hk : k < u.header.numLot.toNat)
    (he : e.1.toNat = k) : u.slot p e = p + UInt32.ofNat (4 * k) := by
  have hlt : e.1 < u.header.numLot.toUInt32 := by
    rw [UInt32.lt_iff_toNat_lt, UInt16.toNat_toUInt32]
    omega
  rw [slot, untaggedSlotOff, if_pos hlt, he]

/-- Two memories with this description agree on every word of the LOT that an
entry writes. -/
theorem Reference.agree_lot (h : u.Reference entries p m') (h' : u.Reference entries p m'')
    {k : Nat} (hk : k < u.header.numLot.toNat) {e : RelocEntry} (he : e ∈ entries)
    (hs : (u.entryWord p e).isSome = true) (hek : e.1.toNat = k) :
    m''.u32 (p + UInt32.ofNat (4 * k)) = m'.u32 (p + UInt32.ofNat (4 * k)) := by
  obtain ⟨v, hv⟩ := Option.isSome_iff_exists.mp hs
  rw [← slot_of_lot hk hek, h.words e he v hv, h'.words e he v hv]

/-- And on every byte of the data. -/
theorem Reference.agree_data (h : u.Reference entries p m') (h' : u.Reference entries p m'')
    {j : Nat} (hj : j < u.header.dataSize.toNat) :
    m'' (u.dataBase p + UInt32.ofNat j) = m' (u.dataBase p + UInt32.ofNat j) := by
  by_cases hw : ∀ e ∈ entries, (u.entryWord p e).isSome = true →
      u.dataBase p + UInt32.ofNat j ∉ (⟨u.slot p e, 4⟩ : Span)
  · rw [h.data j hj hw, h'.data j hj hw]
  · push Not at hw
    obtain ⟨e, he, hs, hmem⟩ := hw
    obtain ⟨v, hv⟩ := Option.isSome_iff_exists.mp hs
    obtain ⟨i, hi, heq⟩ := exists_off hmem
    rw [heq]
    exact bytes_eq_of_u32 ((h'.words e he v hv).trans (h.words e he v hv).symm) hi

/-- And on every byte behind the metadata. -/
theorem Reference.agree_behind (h : u.Reference entries p m') (h' : u.Reference entries p m'')
    {i : Nat} (hlo : untaggedCodeOff u.header u.mode ≤ i)
    (hhi : i < exactRamUntagged u.header u.mode) :
    m'' (p + UInt32.ofNat i) = m' (p + UInt32.ofNat i) := by
  rw [exactRamUntagged_eq] at hhi
  have hdata : untaggedDataOff u.header u.mode = untaggedCodeOff u.header u.mode +
    if u.mode = .xip then 0 else u.header.codeSize.toNat := rfl
  rcases Nat.lt_or_ge i (untaggedDataOff u.header u.mode) with htext | hge
  · -- in front of the data there is code, unless it stays in the image
    have hm : u.mode ≠ .xip := fun hm => by
      rw [if_pos hm] at hdata
      omega
    rw [if_neg hm] at hdata
    have hb := h.text hm (i - untaggedCodeOff u.header u.mode) (by omega)
    have hb' := h'.text hm (i - untaggedCodeOff u.header u.mode) (by omega)
    rw [Nat.add_sub_cancel' hlo] at hb hb'
    rw [hb, hb']
  · rcases Nat.lt_or_ge i (untaggedDataOff u.header u.mode + u.header.dataSize.toNat)
      with hd | hbss
    · have hb := h.agree_data h' (j := i - untaggedDataOff u.header u.mode) (by omega)
      rw [dataBase, off_off, Nat.add_sub_cancel' hge] at hb
      exact hb
    · have hoff : untaggedDataOff u.header u.mode + (u.header.dataSize.toNat +
          (i - untaggedDataOff u.header u.mode - u.header.dataSize.toNat)) = i := by omega
      have hb := h.bss (i - untaggedDataOff u.header u.mode - u.header.dataSize.toNat) (by omega)
      have hb' := h'.bss (i - untaggedDataOff u.header u.mode - u.header.dataSize.toNat) (by omega)
      rw [dataBase, off_off, hoff] at hb hb'
      rw [hb, hb']

/-- And, with the same words in the LOT at the start, on the whole LOT. -/
theorem Reference.agree_lotKept (h : u.Reference entries p m') (h' : u.Reference entries p m'')
    (hl : u.LotKept entries p m₀ m') (hl' : u.LotKept entries p m₀ m'') {i : Nat}
    (hi : i < 4 * u.header.numLot.toNat) : m'' (p + UInt32.ofNat i) = m' (p + UInt32.ofNat i) := by
  have hk : i / 4 < u.header.numLot.toNat := by omega
  have hword : m''.u32 (p + UInt32.ofNat (4 * (i / 4))) = m'.u32 (p + UInt32.ofNat (4 * (i / 4))) := by
    by_cases hw : ∀ e ∈ entries, (u.entryWord p e).isSome = true → e.1.toNat ≠ i / 4
    · rw [hl _ hk hw, hl' _ hk hw]
    · push Not at hw
      obtain ⟨e, he, hs, hek⟩ := hw
      exact h.agree_lot h' hk he hs hek
  have hb := bytes_eq_of_u32 hword (i := i % 4) (by omega)
  rw [off_off, Nat.div_add_mod] at hb
  exact hb

end UntaggedImage

end Udynlink
