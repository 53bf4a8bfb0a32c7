import Udynlink.RelocateErrors
import Udynlink.UntaggedMove

/-!
# Untagged modules on the move

A module that has been moved any number of times is the module a fresh load puts
at the last address: the same block, the same header, the same symbols. The
metadata is read wherever the handle says it is, at a distance from the image.
-/

namespace Udynlink

open Machine

theorem readRelocation_shift (m : Mem) (d p : Addr) (i : Nat) :
    (readRelocation (p + d) i).run m = (readRelocation p i).run (m.shift d) := by
  simp only [readRelocation, Reader.run_bind, Reader.run_u32, Reader.run_pure, shift_u32,
    add_right_comm]

/-! ## The steps of a move -/

section Steps

variable {host : Host} {w w' : State}

theorem freeOldBlock_ok {oldForeign : Bool} {oldRam : Addr} {mainAlign : UInt32}
    (h : (freeOldBlock oldForeign oldRam mainAlign).run w = (.ok (), w')) :
    w'.handle = w.handle ∧ w'.mem = w.mem := by
  rw [freeOldBlock] at h
  split at h
  next =>
    rw [externalFree, Prog.run_lift_bind, Prog.run_host, Prod.mk.injEq] at h
    rw [← h.2]
    exact ⟨rfl, rfl⟩
  next =>
    rw [Prog.run_pure, Prod.mk.injEq] at h
    rw [← h.2]
    exact ⟨rfl, rfl⟩

/-- Where a move goes: to the caller's block, or to one the host has handed out. -/
def DestOf (newRam : Addr) (hs : List HostEvent) (dest : Addr) : Prop :=
  if newRam = 0 then ∃ size tag, .malloc size tag dest ∈ hs else dest = newRam

theorem DestOf.append {newRam dest : Addr} {hs : List HostEvent} (h : DestOf newRam hs dest)
    (before after : List HostEvent) : DestOf newRam (before ++ (hs ++ after)) dest := by
  rw [DestOf] at h ⊢
  split
  next hz =>
    rw [if_pos hz] at h
    obtain ⟨size, tag, hmem⟩ := h
    exact ⟨size, tag, List.mem_append_right _ (List.mem_append_left _ hmem)⟩
  next hz =>
    rw [if_neg hz] at h
    exact h

theorem provisionUntagged_ok {ramSize : UInt32} {newRam dest : Addr} {newSize : UInt32}
    (h : (provisionUntagged host ramSize newRam newSize).run w = (.ok dest, w')) :
    w'.handle = claimOwnership newRam w.handle ∧ w'.mem = w.mem ∧
      ∃ evs, w.Extends w' evs ∧ DestOf newRam (hostEvents evs) dest := by
  rw [provisionUntagged] at h
  rw [claimOwnership]
  split at h
  next hnull =>
    rw [Prog.run_modifyHandle_bind, Prog.run_bind_ok] at h
    obtain ⟨p, w1, hm, hp⟩ := h
    have hw1 := externalMalloc_run hm
    rw [if_pos hnull]
    split at hp
    next => simp at hp
    next =>
      rw [Prog.run_pure, Prod.mk.injEq, Except.ok.injEq] at hp
      rw [← hp.1, ← hp.2, hw1]
      refine ⟨rfl, rfl, _, World.extends_log _ _, ?_⟩
      rw [DestOf, if_pos hnull, hostEvents_append, hostEvents_readEvents, List.nil_append]
      exact ⟨_, _, List.mem_singleton.mpr rfl⟩
  next hnull =>
    rw [Prog.run_modifyHandle_bind] at h
    rw [if_neg hnull]
    split at h
    next => simp at h
    next =>
      rw [Prog.run_pure, Prod.mk.injEq, Except.ok.injEq] at h
      rw [← h.1, ← h.2]
      refine ⟨rfl, rfl, [], ⟨(List.append_nil _).symm, fun _ _ => rfl⟩, ?_⟩
      rw [DestOf, if_neg hnull]

/-- A move stays at the block, or leaves it: the copy, the handle behind it, the walk. -/
theorem relocateUntagged_ok {ramSize : UInt32} {newRam : Addr} {newSize : UInt32} {mod : Module}
    {mode : LoadMode} (h : (relocateUntagged host ramSize newRam newSize).run w = (.ok (), w'))
    (hmod : w.handle = mod) (hmode : mod.mode = mode) :
    (w'.mem = w.mem ∧ (w'.handle = mod ∨ ramSize ≠ 0 ∧ w'.handle = claimOwnership newRam mod)) ∨
      ramSize ≠ 0 ∧ ∃ dest, ∃ wc wr : State,
        (∃ evs, w.Extends w' evs ∧ DestOf newRam (hostEvents evs) dest) ∧ dest ≠ mod.pRam ∧
        wc.mem = w.mem.copy dest mod.pRam ramSize.toNat ∧
        wc.handle = moveHandle dest ((decodeHeader wc.mem mod.pHeader).numLot.toUInt32 * 4)
          (claimOwnership newRam mod) ∧
        (rebaseModulePointers (if mode = .xip then 0 else dest - mod.pRam) (dest - mod.pRam)
          ((getCodePointer mod).run w.mem) ((getDataPointer mod).run w.mem)).run wc = (.ok (), wr) ∧
        w'.handle = wr.handle ∧ w'.mem = wr.mem := by
  subst hmod hmode
  rw [relocateUntagged, Prog.run_getHandle_bind] at h
  split at h
  next hz =>
    rw [Prog.run_pure, Prod.mk.injEq] at h
    rw [← h.2]
    exact Or.inl ⟨rfl, Or.inl rfl⟩
  next hne =>
    rw [Prog.run_bind_ok] at h
    obtain ⟨dest, w1, hp, h⟩ := h
    obtain ⟨hh1, hm1, e1, he1, hdest⟩ := provisionUntagged_ok hp
    rw [Prog.run_lift_bind, Prog.run_lift_bind, World.log_mem, hm1] at h
    split at h
    next =>
      obtain ⟨hh, hm⟩ := freeOldBlock_ok h
      rw [World.log_handle, World.log_handle, hh1] at hh
      rw [World.log_mem, World.log_mem, hm1] at hm
      exact Or.inl ⟨hm, Or.inr ⟨hne, hh⟩⟩
    next hout =>
      obtain ⟨e2, he2⟩ := Prog.extends_of_run h
      rw [Prog.run_copy_bind, Prog.run_lift_bind, readHeader_run, Prog.run_modifyHandle_bind,
        Prog.run_bind_ok] at h
      obtain ⟨⟨⟩, wr, hr, h⟩ := h
      obtain ⟨hh, hm⟩ := freeOldBlock_ok h
      refine Or.inr ⟨hne, dest, _, wr, ⟨_, he1.trans ((World.extends_log _ _).trans
        ((World.extends_log _ _).trans he2)), ?_⟩, hout, ?_, ?_, hr, hh, hm⟩
      · rw [hostEvents_append, ← List.nil_append (hostEvents e1 ++ _)]
        exact hdest.append [] _
      · rw [World.log_mem, World.log_mem, World.log_mem, hm1]
      · simp only [World.log_handle, World.log_mem, hh1]

end Steps

namespace UntaggedImage

/-! ## Contiguous images -/

/-- The descriptor of an image in one piece. -/
def Contiguous (u : UntaggedImage) : Prop :=
  u.image = (udynlinkImageFromMemory u.image.pHeader).run u.m

instance (u : UntaggedImage) : Decidable u.Contiguous := inferInstanceAs (Decidable (_ = _))

variable {u : UntaggedImage} {p q : Addr}

theorem image_eq (hc : u.Contiguous) (hu : isSectioned u.header = false) :
    u.image.pRelocations = u.image.pHeader + UInt32.ofNat (getHeaderSize u.header).toNat ∧
      u.image.pSymtab = u.image.pHeader +
        UInt32.ofNat ((getHeaderSize u.header).toNat + 8 * u.header.numRels.toNat) ∧
      u.image.pCode = u.image.pHeader + UInt32.ofNat (exactCodeOffset u.header) ∧
      u.image.pData = u.image.pCode + UInt32.ofNat u.header.codeSize.toNat := by
  rw [Contiguous, udynlinkImageFromMemory, Reader.run_bind, readHeader_run,
    show decodeHeader u.m u.image.pHeader = u.header from rfl, hu, if_neg Bool.false_ne_true,
    Reader.run_pure] at hc
  rw [hc]
  dsimp only
  rw [getHeaderSize_words, UInt32.ofNat_toNat, getCodeOffsetFromHeader_eq, relBytes,
    UInt32.ofNat_add, UInt32.ofNat_toNat, UInt32.ofNat_toNat, UInt32.add_assoc]
  exact ⟨rfl, rfl, rfl, rfl⟩

/-- No name of the symbol table runs out of it. -/
def NamesTerminated (u : UntaggedImage) : Prop :=
  ∀ index sym, (getSymAtRaw u.image.pSymtab index u.header.symtSize).run u.m = some sym →
    NameTerminated u.image.pSymtab u.header.symtSize u.m sym.name

/-- A contiguous image is what its descriptor says. -/
theorem faithful_of_contiguous (hc : u.Contiguous) (hu : isSectioned u.header = false)
    (hram : exactRamUntagged u.header u.mode < 2 ^ 32) (hn : u.NamesTerminated) : u.Faithful := by
  obtain ⟨-, -, hcode, hdata⟩ := image_eq hc hu
  refine ⟨hram, fun _ j _ => ?_, fun _ _ _ _ => hcode, fun e _ _ sym hs _ => hn e.2 sym hs⟩
  rw [hdata, off_off]

/-! ## The metadata from a distance -/

/-- The metadata of the image, at the distance `d` from it. -/
def MetadataSame (u : UntaggedImage) (d : Addr) (m : Mem) : Prop :=
  ∀ i, i < symtabEnd u.header →
    m (u.image.pHeader + UInt32.ofNat i + d) = u.m (u.image.pHeader + UInt32.ofNat i)

/-- The named prefix of the image. -/
def numNamed (u : UntaggedImage) : UInt16 :=
  (computeNumNamedSymsRaw u.image.pSymtab u.header.symtSize).run u.m

section Metadata

variable {d : Addr} {m : Mem} (hcon : u.Contiguous) (hu : isSectioned u.header = false)
  (hend : symtabEnd u.header < 2 ^ 32) (hm : u.MetadataSame d m)

theorem metadata_shift (hm : u.MetadataSame d m) {a : Addr}
    (ha : a ∈ (⟨u.image.pHeader, symtabEnd u.header⟩ : Span)) : u.m a = m.shift d a := by
  obtain ⟨i, hi, rfl⟩ := exists_off ha
  exact (hm i hi).symm

include hm in
theorem metadata_header : decodeHeader m (u.image.pHeader + d) = u.header := by
  have hge := getHeaderSize_ge u.header
  refine decodeHeader_eq_of_bytes fun i hi => ?_
  rw [add_right_comm]
  exact hm i (by rw [symtabEnd]; omega)

include hcon hu hend in
theorem covers_relocations : Covers (· ∈ (⟨u.image.pHeader, symtabEnd u.header⟩ : Span))
    ⟨u.image.pRelocations, 8 * u.header.numRels.toNat⟩ := by
  rw [(image_eq hcon hu).1]
  exact off_subset (by rw [symtabEnd]; omega) (by omega)

include hcon hu hend in
theorem covers_symtab : Covers (· ∈ (⟨u.image.pHeader, symtabEnd u.header⟩ : Span))
    ⟨u.image.pSymtab, u.header.symtSize.toNat⟩ := by
  rw [(image_eq hcon hu).2.1]
  exact off_subset (by rw [symtabEnd]) (by omega)

include hcon hu hend in
theorem covers_before : Covers (· ∈ (⟨u.image.pHeader, symtabEnd u.header⟩ : Span))
    ⟨u.image.pSymtab - 4, 4⟩ := by
  have hge := getHeaderSize_ge u.header
  have hsub : u.image.pSymtab - 4 = u.image.pHeader +
      UInt32.ofNat ((getHeaderSize u.header).toNat + 8 * u.header.numRels.toNat - 4) := by
    rw [(image_eq hcon hu).2.1, UInt32.ofNat_sub (by omega)]
    abel
  rw [hsub]
  exact off_subset (by rw [symtabEnd]; omega) (by omega)

include hcon hu hend hm in
theorem metadata_entry {k : Nat} (hk : k < u.header.numRels.toNat) :
    (readRelocation (u.image.pRelocations + d) k).run m = u.entry k := by
  have hn := u.header.numRels.toNat_lt
  rw [readRelocation_shift]
  exact (within_readRelocation (covers_relocations hcon hu hend) hk (by omega) u.m).congr
    fun a ha => metadata_shift hm ha

include hcon hu hend hm in
theorem metadata_symRaw (index : UInt32) :
    (getSymAtRaw (u.image.pSymtab + d) index u.header.symtSize).run m =
      ((getSymAtRaw u.image.pSymtab index u.header.symtSize).run u.m).map (Sym.shift d) := by
  rw [getSymAtRaw_shift]
  exact congrArg _ ((within_getSymAtRaw_any (covers_symtab hcon hu hend)
    (covers_before hcon hu hend) index u.m).congr fun a ha => metadata_shift hm ha)

include hcon hu in
theorem symTablePointer_eq :
    getSymTablePointer (u.image.pHeader + d) u.header = u.image.pSymtab + d := by
  rw [getSymTablePointer_eq, (image_eq hcon hu).2.1, add_right_comm]

include hcon hu hend hm in
theorem metadata_sym (index : UInt32) :
    (getSymAt (u.image.pHeader + d) index).run m =
      ((getSymAtRaw u.image.pSymtab index u.header.symtSize).run u.m).map (Sym.shift d) := by
  rw [getSymAt, Reader.run_bind, readHeader_run, metadata_header hm, symTablePointer_eq hcon hu]
  exact metadata_symRaw hcon hu hend hm index

include hcon hu hend hm in
theorem metadata_numNamed : (computeNumNamedSyms (u.image.pHeader + d)).run m = u.numNamed := by
  rw [computeNumNamedSyms, Reader.run_bind, readHeader_run, metadata_header hm,
    symTablePointer_eq hcon hu, computeNumNamedSymsRaw_shift]
  exact (within_computeNumNamedSymsRaw (covers_symtab hcon hu hend)).congr
    fun a ha => metadata_shift hm ha

end Metadata

/-! ## A module at an address -/

/-- Distance of the metadata from the image. -/
def metadataShift (u : UntaggedImage) (p : Addr) : Addr :=
  if u.mode = .copyAll then p + UInt32.ofNat (4 * u.header.numLot.toNat) - u.image.pHeader else 0

theorem PlacedHandle.pHeader_eq {mod : Module} (h : u.PlacedHandle p mod) :
    mod.pHeader = u.image.pHeader + u.metadataShift p := by
  rw [h.pHeader, metadataShift]
  split
  · abel
  · rw [UInt32.add_zero]

/-- What a load leaves, and a move keeps. -/
structure PlacedAt (u : UntaggedImage) (p : Addr) (w : State) : Prop where
  handle : u.PlacedHandle p w.handle
  named : w.handle.numNamedSyms = u.numNamed
  clear : SourceClear u.image u.header u.mode p
  source : ∀ s ∈ untaggedSource u.image u.header, ∀ a ∈ s, w.mem a = u.m a
  reference : u.Reference u.entries p w.mem

/-- Entries that name words of the LOT or of the data. -/
structure EntriesBehind (u : UntaggedImage) : Prop where
  inRange : ∀ e ∈ u.entries, SlotInRange u.header e.1
  baseLot : ∀ e ∈ u.entries, isBaseRelocation e.2 = true → ¬ e.1 < u.header.numLot.toUInt32

/-- Entries the loader lets pass, at distinct words. -/
structure EntriesOk (u : UntaggedImage) : Prop extends EntriesBehind u where
  distinct : (u.entries.map Prod.fst).Nodup

/-- Every byte of the metadata is in the image's own table spans. -/
theorem metadata_mem (hcon : u.Contiguous) (hu : isSectioned u.header = false)
    (hend : symtabEnd u.header < 2 ^ 32) {i : Nat} (hi : i < symtabEnd u.header) :
    ∃ s ∈ untaggedSource u.image u.header, u.image.pHeader + UInt32.ofNat i ∈ s := by
  obtain ⟨hrel, hsym, -, -⟩ := image_eq hcon hu
  rw [symtabEnd] at hi hend
  by_cases hhead : i < (getHeaderSize u.header).toNat
  · refine ⟨⟨u.image.pHeader, (getHeaderSize u.header).toNat⟩, by simp [untaggedSource], ?_⟩
    exact off_mem hhead (by omega)
  by_cases hrels : i < (getHeaderSize u.header).toNat + 8 * u.header.numRels.toNat
  · obtain ⟨j, rfl⟩ := Nat.exists_eq_add_of_le (Nat.not_lt.mp hhead)
    refine ⟨⟨u.image.pRelocations, 8 * u.header.numRels.toNat⟩, by simp [untaggedSource], ?_⟩
    rw [← off_off, ← hrel]
    exact off_mem (by omega) (by omega)
  · obtain ⟨j, rfl⟩ := Nat.exists_eq_add_of_le (Nat.not_lt.mp hrels)
    refine ⟨⟨u.image.pSymtab, u.header.symtSize.toNat⟩, by simp [untaggedSource], ?_⟩
    rw [← off_off, ← hsym]
    exact off_mem (by omega) (by omega)

/-- The metadata of a COPY_ALL module in one piece. -/
theorem MetadataAt.byte (hcon : u.Contiguous) (hu : isSectioned u.header = false) {m : Mem}
    (h : u.MetadataAt p m) {i : Nat} (hi : i < symtabEnd u.header) :
    m (p + UInt32.ofNat (4 * u.header.numLot.toNat + i)) =
      u.m (u.image.pHeader + UInt32.ofNat i) := by
  obtain ⟨hrel, hsym, -, -⟩ := image_eq hcon hu
  rw [symtabEnd] at hi
  by_cases hhead : i < (getHeaderSize u.header).toNat
  · exact h.header i hhead
  by_cases hrels : i < (getHeaderSize u.header).toNat + 8 * u.header.numRels.toNat
  · have hb := h.relocs (i - (getHeaderSize u.header).toNat) (by omega)
    rw [hrel, off_off, Nat.add_assoc, Nat.add_sub_cancel' (by omega)] at hb
    exact hb
  · have hb := h.symtab (i - ((getHeaderSize u.header).toNat + 8 * u.header.numRels.toNat)) (by omega)
    rw [hsym, off_off, Nat.add_assoc, Nat.add_assoc, ← Nat.add_assoc (getHeaderSize u.header).toNat,
      Nat.add_sub_cancel' (by omega)] at hb
    exact hb

theorem shift_copyAll (hm : u.mode = .copyAll) (i : Nat) :
    u.image.pHeader + UInt32.ofNat i + u.metadataShift p =
      p + UInt32.ofNat (4 * u.header.numLot.toNat + i) := by
  rw [metadataShift, if_pos hm, UInt32.ofNat_add]
  abel

theorem PlacedAt.metadataSame {w : State} (h : u.PlacedAt p w) (hcon : u.Contiguous)
    (hu : isSectioned u.header = false) (hend : symtabEnd u.header < 2 ^ 32) :
    u.MetadataSame (u.metadataShift p) w.mem := by
  intro i hi
  by_cases hm : u.mode = .copyAll
  · rw [shift_copyAll hm]
    exact (h.reference.metadata hm).byte hcon hu hi
  · obtain ⟨s, hs, ha⟩ := metadata_mem hcon hu hend hi
    rw [metadataShift, if_neg hm, UInt32.add_zero]
    exact h.source s hs _ ha

/-- The metadata is in the block, or out of its way. -/
def MetaClear (u : UntaggedImage) (p : Addr) : Prop :=
  u.mode ≠ .copyAll → Span.Disjoint ⟨u.image.pHeader, symtabEnd u.header⟩
    ⟨p, exactRamUntagged u.header u.mode⟩

theorem metaClear_of_source (hc : SourceClear u.image u.header u.mode p) (hcon : u.Contiguous)
    (hu : isSectioned u.header = false) (hend : symtabEnd u.header < 2 ^ 32) : u.MetaClear p := by
  intro _ a ha
  obtain ⟨i, hi, rfl⟩ := exists_off ha
  obtain ⟨s, hs, hmem⟩ := metadata_mem hcon hu hend hi
  exact hc s hs _ hmem

/-- No patch of a walk touches the metadata. -/
theorem metadata_fixed (hf : UntaggedFits u.header u.mode) (hc : u.MetaClear p)
    (hend : symtabEnd u.header < 2 ^ 32) {i : Nat} (hi : i < symtabEnd u.header) :
    u.Fixed p (u.image.pHeader + UInt32.ofNat i + u.metadataShift p) := by
  by_cases hm : u.mode = .copyAll
  · have hcode := symtabEnd_le hf.untagged
    have hdata := dataOff_copyAll hm
    have heq := exactRamUntagged_eq u.header u.mode
    rw [shift_copyAll hm]
    exact fixed_off hf (by omega) (Or.inl (by omega)) (by omega)
  · rw [metadataShift, if_neg hm, UInt32.add_zero]
    exact fixed_of_notMem hf (hc hm _ (off_mem hi (by omega)))

/-- A load leaves the module at its block. -/
theorem Loaded.placedAt {w : State} (h : u.Loaded p w) (hcon : u.Contiguous)
    (hend : symtabEnd u.header < 2 ^ 32) (hq : u.Faithful) : u.PlacedAt p w := by
  obtain ⟨patch, hp⟩ := h.patched
  have hsource : ∀ s ∈ untaggedSource u.image u.header, ∀ a ∈ s, w.mem a = u.m a := by
    intro s hs a ha
    have hout := h.clear s hs a ha
    rw [hp.fixed h.fits (fixed_of_notMem h.fits hout), placed_notMem h.fits hout]
  have href := (hp.reference h.fits h.clear hq).1
  refine ⟨h.handle, ?_, h.clear, hsource, href⟩
  have hsame : u.MetadataSame (u.metadataShift p) w.mem := by
    intro i hi
    by_cases hm : u.mode = .copyAll
    · rw [shift_copyAll hm]
      exact (href.metadata hm).byte hcon h.fits.untagged hi
    · obtain ⟨s, hs, ha⟩ := metadata_mem hcon h.fits.untagged hend hi
      rw [metadataShift, if_neg hm, UInt32.add_zero]
      exact hsource s hs _ ha
  rw [h.named, h.handle.pHeader_eq]
  exact metadata_numNamed hcon h.fits.untagged hend hsame

theorem Loaded.entriesOk {w : State} (h : u.Loaded p w) (hd : (u.entries.map Prod.fst).Nodup) :
    u.EntriesOk := by
  obtain ⟨patch, hp⟩ := h.patched
  refine ⟨⟨fun e he => ?_, fun e he => ?_⟩, hd⟩
  · obtain ⟨i, hi, rfl⟩ := mem_entries.mp he
    exact (hp.accepted i hi).inRange
  · obtain ⟨i, hi, rfl⟩ := mem_entries.mp he
    exact (hp.accepted i hi).baseLot

/-! ## One move -/

/-- No weak symbol of the module at `p` is overridden with its own address, unless
it lies in code that does not move. -/
def OverridesApart (u : UntaggedImage) (p : Addr) : Prop :=
  ∀ e ∈ u.entries, isBaseRelocation e.2 = false → ∀ sym, u.sym e = some sym →
    sym.type = symTypeWeak → (u.mode = .xip → sym.location = .data) →
    u.answer sym.name ≠ 0 → u.answer sym.name ≠ symDeferred →
    u.answer sym.name ≠ sym.val + locationBase (u.codeBase p) (u.dataBase p) sym.location

theorem codeBase_sub (p q : Addr) :
    u.codeBase q - u.codeBase p = if u.mode = .xip then 0 else q - p := by
  rw [codeBase, codeBase]
  split
  · exact UInt32.sub_self _
  · abel

theorem dataBase_sub (p q : Addr) : u.dataBase q - u.dataBase p = q - p := by
  rw [dataBase, dataBase]
  abel

/-- Which entries the loader writes does not depend on the placement. -/
theorem entryWord_isSome_eq (u : UntaggedImage) (p q : Addr) (e : RelocEntry) :
    (u.entryWord p e).isSome = (u.entryWord q e).isSome := by
  rw [entryWord, entryWord]
  exact refWord_untagged_isSome

/-- The word of an entry follows the move. -/
theorem entryWord_moved {e : RelocEntry} (he : e ∈ u.entries) (hapart : u.OverridesApart p)
    {v : UInt32} (hv : u.entryWord p e = some v) :
    u.entryWord q e = some ((rebaseWord (if u.mode = .xip then 0 else q - p) (q - p)
      (u.codeBase p) (u.dataBase p) e.2 (u.sym e) v).getD v) := by
  rw [entryWord] at hv ⊢
  rw [← codeBase_sub p q, ← dataBase_sub (u := u) p q]
  refine rebaseWord_refWord (fun hb sym hs hw h0 hd hdelta => ?_) hv
  refine hapart e he hb sym hs hw (fun hm => ?_) h0 hd
  cases hl : sym.location with
  | data => rfl
  | code =>
    rw [hl, codeBase_sub, if_pos hm] at hdelta
    exact absurd rfl hdelta

/-- The patches of a walk from `p` to `q`. -/
def movePatch (u : UntaggedImage) (p q : Addr) (k : Nat) : Patch :=
  ⟨u.slot q (u.entry k), rebaseWord (if u.mode = .xip then 0 else q - p) (q - p) (u.codeBase p)
    (u.dataBase p) (u.entry k).2 (u.sym (u.entry k))⟩

section Move

variable {c m' : Mem} (hf : UntaggedFits u.header u.mode) (hok : u.EntriesOk)

include hf hok in
theorem moved_pairwise : ((List.range' 0 u.header.numRels.toNat).map (u.movePatch p q)).Pairwise
    fun a b => a.span.Disjoint b.span :=
  slots_pairwise hf (fun _ _ => rfl) (fun _ hi => hok.inRange _ (entry_mem hi)) hok.distinct

variable (hm' : m' = Patch.applyAll ((List.range' 0 u.header.numRels.toNat).map (u.movePatch p q)) c)

include hf hm' in
theorem moved_fixed (hok : u.EntriesBehind) {a : Addr} (ha : u.Fixed q a) : m' a = c a := by
  rw [hm']
  refine Patch.applyAll_notMem (fun r hr hmem => ?_) _
  obtain ⟨i, hi, rfl⟩ := List.mem_map.mp hr
  have hi' : i < u.header.numRels.toNat := by
    have := (List.mem_range'_1.mp hi).2
    omega
  exact not_fixed_slot hf (hok.inRange _ (entry_mem hi')) hmem ha

include hf hok hm'

/-- The copied block with its words rebased is the module at the new address. -/
theorem moved_reference {m : Mem} (href : u.Reference u.entries p m) (hapart : u.OverridesApart p)
    (hcopy : ∀ i, i < exactRamUntagged u.header u.mode →
      c (q + UInt32.ofNat i) = m (p + UInt32.ofNat i)) : u.Reference u.entries q m' := by
  have heq := exactRamUntagged_eq u.header u.mode
  have hlot := lot_le_codeOff u.header u.mode
  have hoff := codeOff_le_dataOff u.header u.mode
  have hram := hf.ram
  have hpw := moved_pairwise (p := p) (q := q) hf hok
  have hslotLe : ∀ e ∈ u.entries,
      untaggedSlotOff u.header u.mode e.1 + 4 ≤ exactRamUntagged u.header u.mode := by
    intro e he
    have hr := untaggedSlotOff_range u.mode (hok.inRange e he)
    omega
  have hword : ∀ e ∈ u.entries, c.u32 (u.slot q e) = m.u32 (u.slot p e) := by
    intro e he
    have hle := hslotLe e he
    refine u32_eq_of_bytes fun i hi => ?_
    rw [slot, slot, off_off, off_off]
    exact hcopy _ (by omega)
  refine ⟨?_, ?_, ?_, ?_, ?_⟩
  · intro e he v hv
    obtain ⟨k, hk, rfl⟩ := mem_entries.mp he
    have hsome : (u.entryWord p (u.entry k)).isSome = true := by
      rw [u.entryWord_isSome_eq p q, hv]
      rfl
    obtain ⟨v₀, hv₀⟩ := Option.isSome_iff_exists.mp hsome
    have hmem : u.movePatch p q k ∈
        (List.range' 0 u.header.numRels.toNat).map (u.movePatch p q) :=
      List.mem_map.mpr ⟨k, List.mem_range'_1.mpr ⟨by omega, by omega⟩, rfl⟩
    have hp := Patch.applyAll_word hpw hmem c
    rw [← hm'] at hp
    change m'.u32 (u.slot q (u.entry k)) = Option.getD (rebaseWord _ _ _ _ _ _
      (c.u32 (u.slot q (u.entry k)))) (c.u32 (u.slot q (u.entry k))) at hp
    rw [hword _ he, href.words _ he v₀ hv₀] at hp
    rw [hp]
    exact Option.some.inj ((entryWord_moved he hapart hv₀).symm.trans hv)
  · intro hm j hj
    have hdata : untaggedDataOff u.header u.mode =
        untaggedCodeOff u.header u.mode + u.header.codeSize.toNat := by
      rw [untaggedDataOff, if_neg hm]
    rw [moved_fixed hf hm' hok.toEntriesBehind (fixed_off hf (by omega) (Or.inl (by omega)) (by omega)),
      hcopy _ (by omega), href.text hm j hj]
  · intro j hj hn
    have hsame : m' (u.dataBase q + UInt32.ofNat j) = c (u.dataBase q + UInt32.ofNat j) := by
      rw [hm']
      refine Patch.applyAll_unwritten hpw fun r hr hmem => ?_
      obtain ⟨i, hi, rfl⟩ := List.mem_map.mp hr
      have hi' : i < u.header.numRels.toNat := by
        have := (List.mem_range'_1.mp hi).2
        omega
      by_contra hnone
      refine hn _ (entry_mem hi') ?_ hmem
      exact refWord_isSome_of_rebaseWord (Option.isSome_iff_ne_none.mpr hnone)
    rw [hsame, dataBase, off_off, hcopy _ (by omega), ← off_off]
    refine href.data j hj fun e he hs hmem => hn e he ?_ ?_
    · rw [u.entryWord_isSome_eq q p]
      exact hs
    · have hle := hslotLe e he
      obtain ⟨i, hi, hx⟩ := exists_off hmem
      rw [slot, off_off, dataBase, off_off] at hx
      have hij := off_inj (by omega) (by omega) hx
      rw [dataBase, off_off, hij, ← off_off]
      exact off_mem hi (by decide)
  · intro j hj
    rw [dataBase, off_off, moved_fixed hf hm' hok.toEntriesBehind (fixed_off hf (by omega) (Or.inr (by omega))
      (by omega)), hcopy _ (by omega)]
    have hb := href.bss j hj
    rw [dataBase, off_off] at hb
    exact hb
  · intro hm
    have hdata := dataOff_copyAll hm
    have hcode := symtabEnd_le hf.untagged
    have hmeta := href.metadata hm
    rw [symtabEnd] at hcode
    have hsame : ∀ i, i < exactCodeOffset u.header →
        m' (q + UInt32.ofNat (4 * u.header.numLot.toNat + i)) =
          m (p + UInt32.ofNat (4 * u.header.numLot.toNat + i)) := fun i hi => by
      rw [moved_fixed hf hm' hok.toEntriesBehind (fixed_off hf (by omega) (Or.inl (by omega)) (by omega)),
        hcopy _ (by omega)]
    refine ⟨fun i hi => ?_, fun i hi => ?_, fun i hi => ?_, fun i hlo hhi => ?_⟩
    · rw [hsame i (by omega), hmeta.header i hi]
    · have hs := hsame ((getHeaderSize u.header).toNat + i) (by omega)
      rw [← Nat.add_assoc] at hs
      rw [hs, hmeta.relocs i hi]
    · have hs := hsame ((getHeaderSize u.header).toNat + 8 * u.header.numRels.toNat + i) (by omega)
      rw [← Nat.add_assoc, ← Nat.add_assoc] at hs
      rw [hs, hmeta.symtab i hi]
    · rw [hsame i hhi, hmeta.pad i hlo hhi]

end Move

section Relocate

variable {host : Host} {w w' : State} (hcon : u.Contiguous) (hf : UntaggedFits u.header u.mode)
  (hend : symtabEnd u.header < 2 ^ 32) (hok : u.EntriesOk)

theorem claimOwnership_same (newRam : Addr) (mod : Module) :
    (claimOwnership newRam mod).pRam = mod.pRam ∧ (claimOwnership newRam mod).mode = mod.mode ∧
      (claimOwnership newRam mod).pHeader = mod.pHeader ∧
      (claimOwnership newRam mod).numNamedSyms = mod.numNamedSyms := by
  rw [claimOwnership]
  split
  · exact ⟨rfl, Module.mode_clrForeignRam mod, rfl, rfl⟩
  · exact ⟨rfl, Module.mode_setForeignRam mod, rfl, rfl⟩

theorem moveHandle_placed {mod : Module} (h : u.PlacedHandle p mod) (newRam : Addr) :
    u.PlacedHandle q (moveHandle q (u.header.numLot.toUInt32 * 4) (claimOwnership newRam mod)) := by
  obtain ⟨-, hmode, hhead, -⟩ := claimOwnership_same newRam mod
  have hm : (moveHandle q (u.header.numLot.toUInt32 * 4) (claimOwnership newRam mod)).mode =
      u.mode := hmode.trans h.mode
  refine ⟨rfl, hm, ?_⟩
  rw [moveHandle, hmode, h.mode, hhead, h.pHeader, lotBytes]
  by_cases hc : u.mode = .copyAll
  · rw [if_pos hc, if_pos hc]
  · rw [if_neg hc, if_neg hc, if_neg hc]

include hcon hf hend

/-- The walk reads the metadata at the new address, which it does not disturb. -/
theorem rebaseModulePointers_ok {mod : Module} {cd dd oc od : UInt32} (hok : u.EntriesBehind)
    (hp : u.PlacedHandle q mod) (hc : u.MetaClear q) (hmod : w.handle = mod)
    (hsame : u.MetadataSame (u.metadataShift q) w.mem)
    (h : (rebaseModulePointers cd dd oc od).run w = (.ok (), w')) :
    w'.handle = mod ∧ w'.mem = Patch.applyAll ((List.range' 0 u.header.numRels.toNat).map fun k =>
      ⟨u.slot q (u.entry k), rebaseWord cd dd oc od (u.entry k).2 (u.sym (u.entry k))⟩) w.mem := by
  have hheader : decodeHeader w.mem mod.pHeader = u.header := by
    rw [hp.pHeader_eq]
    exact metadata_header hsame
  have hdata : (getDataPointer mod).run w.mem = u.dataBase q := by
    rw [getDataPointer_untagged hheader hf.untagged hp.headerInBlock, hp.pRam, hp.mode, dataBase]
  rw [rebaseModulePointers, Prog.run_getHandle_bind, hmod, Prog.run_lift_bind, readHeader_run,
    Prog.run_lift_bind, World.log_mem, hheader, hdata] at h
  have hrels : getRelocsPointer mod.pHeader u.header = u.image.pRelocations + u.metadataShift q := by
    rw [getRelocsPointer, getHeaderSize_words, hp.pHeader_eq, (image_eq hcon hf.untagged).1,
      UInt32.ofNat_toNat, add_right_comm]
  have hslot : ∀ k, k < u.header.numRels.toNat →
      rebaseSlot mod (u.dataBase q) u.header.numLot (u.entry k) = u.slot q (u.entry k) := by
    intro k hk
    rw [rebaseSlot, untaggedSlot, slot, untaggedSlotOff, dataBase, hp.pRam]
    cases hb : isBaseRelocation (u.entry k).2 with
    | true =>
      rw [if_pos rfl, if_neg (hok.baseLot _ (entry_mem hk) hb), mul_four_ofNat, off_off]
    | false =>
      rw [if_neg Bool.false_ne_true]
      split
      · rw [mul_four_ofNat]
      · rw [mul_four_ofNat, off_off]
  have hentry : ∀ m, (∀ a, u.Fixed q a → w.mem a = m a) → ∀ k, k < u.header.numRels.toNat →
      (readRelocation (u.image.pRelocations + u.metadataShift q) k).run m = u.entry k ∧
        (isBaseRelocation (u.entry k).2 = false → (getSymAt mod.pHeader (u.entry k).2).run m =
          (u.sym (u.entry k)).map (Sym.shift (u.metadataShift q))) := by
    intro m hag k hk
    have hm : u.MetadataSame (u.metadataShift q) m := fun i hi =>
      (hag _ (metadata_fixed hf hc hend hi)).symm.trans (hsame i hi)
    refine ⟨metadata_entry hcon hf.untagged hend hm hk, fun _ => ?_⟩
    rw [hp.pHeader_eq]
    exact metadata_sym hcon hf.untagged hend hm _
  have hclear : ∀ k, k < u.header.numRels.toNat → ∀ a, u.Fixed q a →
      a ∉ (⟨rebaseSlot mod (u.dataBase q) u.header.numLot (u.entry k), 4⟩ : Span) := by
    intro k hk a ha hmem
    rw [hslot k hk] at hmem
    exact not_fixed_slot hf (hok.inRange _ (entry_mem hk)) hmem ha
  rw [hrels, World.log_log] at h
  obtain ⟨hh, hmem⟩ := rebaseLoop_ok hentry hclear h (by omega) hmod
    fun a _ => by rw [World.log_mem]
  refine ⟨hh, ?_⟩
  rw [hmem, World.log_mem]
  congr 1
  refine List.map_congr_left fun k hk => ?_
  have hk' : k < u.header.numRels.toNat := by
    have := (List.mem_range'_1.mp hk).2
    omega
  rw [hslot k hk', Patch.mk.injEq]
  exact ⟨rfl, funext fun word => rebaseWord_shift _⟩

/-- The metadata of a module at its block, whatever its words are. -/
structure Kept (u : UntaggedImage) (p : Addr) (w : State) : Prop where
  handle : u.PlacedHandle p w.handle
  metadata : u.MetadataSame (u.metadataShift p) w.mem

theorem PlacedAt.kept (h : u.PlacedAt p w) : u.Kept p w :=
  ⟨h.handle, h.metadataSame hcon hf.untagged hend⟩

/-- A module a move has put at `q`. -/
structure MovedTo (u : UntaggedImage) (p q newRam : Addr) (w w' : State) : Prop where
  kept : u.Kept q w'
  handle : w'.handle = moveHandle q (u.header.numLot.toUInt32 * 4) (claimOwnership newRam w.handle)
  mem : w'.mem = Patch.applyAll ((List.range' 0 u.header.numRels.toNat).map (u.movePatch p q))
    (w.mem.copy q p (exactRamUntagged u.header u.mode))

omit hcon hf hend in
theorem Kept.header (h : u.Kept p w) : decodeHeader w.mem w.handle.pHeader = u.header := by
  rw [h.handle.pHeader_eq]
  exact metadata_header h.metadata

omit hcon in
/-- The copied block has the metadata at the new distance, and the old header is
still to be read. -/
theorem Kept.copied (h : u.Kept p w)
    (hdisj : Span.Disjoint ⟨p, exactRamUntagged u.header u.mode⟩
      ⟨q, exactRamUntagged u.header u.mode⟩) (hc : u.MetaClear q) :
    u.MetadataSame (u.metadataShift q) (w.mem.copy q p (exactRamUntagged u.header u.mode)) ∧
      decodeHeader (w.mem.copy q p (exactRamUntagged u.header u.mode)) w.handle.pHeader =
        u.header := by
  have hram := hf.ram
  have hcode := symtabEnd_le hf.untagged
  have hge := getHeaderSize_ge u.header
  have heq := exactRamUntagged_eq u.header u.mode
  have hhead := h.handle.pHeader
  have hle : 32 ≤ symtabEnd u.header := by
    rw [symtabEnd]
    omega
  by_cases hm : u.mode = .copyAll
  · have hdata := dataOff_copyAll hm
    constructor
    · intro i hi
      have hb := h.metadata i hi
      rw [shift_copyAll hm] at hb ⊢
      rw [copy_off (by omega) (by omega), hb]
    · rw [if_pos hm] at hhead
      refine (decodeHeader_congr fun a ha => copy_agree hdisj a ?_).trans
        (Kept.header h)
      rw [hhead] at ha
      exact off_subset (by omega) (by omega) a ha
  · have hsame : AgreeOn ⟨u.image.pHeader, symtabEnd u.header⟩ w.mem
        (w.mem.copy q p (exactRamUntagged u.header u.mode)) := copy_agree (hc hm)
    constructor
    · intro i hi
      have hb := h.metadata i hi
      rw [metadataShift, if_neg hm, UInt32.add_zero] at hb ⊢
      rw [← hsame _ (off_mem hi (by omega)), hb]
    · rw [if_neg hm] at hhead
      refine (decodeHeader_congr fun a ha => hsame a ?_).trans (Kept.header h)
      rw [hhead] at ha
      exact prefix_subset hle a ha

/-- What a move of an untagged module that returns has done. -/
theorem Kept.relocate_ok (h : u.Kept p w) (hok : u.EntriesBehind) {newRam : Addr}
    {newSize : UInt32} {moves : List SectionMove}
    (hrun : (relocateMainBlock host newRam newSize moves).run w = (.ok (), w')) :
    (w'.mem = w.mem ∧ (w'.handle = w.handle ∨
        exactRamUntagged u.header u.mode ≠ 0 ∧ w'.handle = claimOwnership newRam w.handle)) ∨
      exactRamUntagged u.header u.mode ≠ 0 ∧
      ∃ q, (∃ evs, w.Extends w' evs ∧ DestOf newRam (hostEvents evs) q) ∧ q ≠ p ∧
        w'.handle.pRam = q ∧ (Span.Disjoint ⟨p, exactRamUntagged u.header u.mode⟩
            ⟨q, exactRamUntagged u.header u.mode⟩ → u.MetaClear q →
          u.MovedTo p q newRam w w') := by
  have hheader := Kept.header h
  have hlen : (UInt32.ofNat (exactRamUntagged u.header u.mode)).toNat =
      exactRamUntagged u.header u.mode := toNat_ofNat_of_lt hf.ram
  have hpos : UInt32.ofNat (exactRamUntagged u.header u.mode) ≠ 0 →
      exactRamUntagged u.header u.mode ≠ 0 := fun hne hz => hne (by rw [hz]; rfl)
  have hsize : (udynlinkGetRamSize w.handle).run w.mem =
      UInt32.ofNat (exactRamUntagged u.header u.mode) := by
    rw [udynlinkGetRamSize, getRamSizeForHeader, Reader.run_bind, readHeader_run, hheader,
      hf.untagged, if_neg Bool.false_ne_true, Reader.run_pure, getRamSizeUntagged_eq,
      h.handle.mode]
  rw [relocateMainBlock, Prog.run_getHandle_bind, Prog.run_lift_bind, Prog.run_lift_bind,
    World.log_mem, readHeader_run, hheader, hsize, hf.untagged, World.log_log,
    Bool.not_false, if_pos rfl] at hrun
  have hcase := relocateUntagged_ok hrun rfl h.handle.mode
  rw [World.log_handle, World.log_mem, h.handle.pRam] at hcase
  rcases hcase with ⟨hm, hh⟩ | ⟨hne, q, wc, wr, ⟨evs, he, hdest⟩, hout, hcm, hch, hreb, hh', hm'⟩
  · exact Or.inl ⟨hm, hh.imp_right fun hx => ⟨hpos hx.1, hx.2⟩⟩
  · have hpram : w'.handle.pRam = q := by
      rw [hh', rebaseModulePointers_handle hreb, hch]
      rfl
    refine Or.inr ⟨hpos hne, q, ⟨_, (World.extends_log w _).trans he, ?_⟩, hout, hpram,
      fun hdisj hclear => ?_⟩
    · rw [hostEvents_append, ← readEvents_append, hostEvents_readEvents]
      exact hdest
    rw [hlen] at hcm
    obtain ⟨hnew, hold⟩ := Kept.copied hf hend h hdisj hclear
    rw [← hcm] at hnew hold
    rw [hold] at hch
    have hplaced : u.PlacedHandle q wc.handle := by
      rw [hch]
      exact moveHandle_placed h.handle newRam
    obtain ⟨hwr, hmem⟩ := rebaseModulePointers_ok hcon hf hend hok hplaced hclear rfl hnew hreb
    have hcode : (getCodePointer w.handle).run w.mem = u.codeBase p := by
      rw [getCodePointer_untagged hheader hf.untagged h.handle.headerInBlock, h.handle.mode,
        h.handle.pRam, codeBase, h.handle.pHeader, (image_eq hcon hf.untagged).2.2.1]
      by_cases hm : u.mode = .xip
      · rw [if_pos hm, if_pos hm, if_neg (by rw [hm]; decide)]
      · rw [if_neg hm, if_neg hm]
    have hdata : (getDataPointer w.handle).run w.mem = u.dataBase p := by
      rw [getDataPointer_untagged hheader hf.untagged h.handle.headerInBlock, h.handle.mode,
        h.handle.pRam, dataBase]
    rw [hcode, hdata] at hmem
    have hpatches : w'.mem = Patch.applyAll
        ((List.range' 0 u.header.numRels.toNat).map (u.movePatch p q)) wc.mem := hm'.trans hmem
    refine ⟨⟨?_, fun i hi => ?_⟩, ?_, ?_⟩
    · rw [hh', hwr]
      exact hplaced
    · rw [moved_fixed hf hpatches hok (metadata_fixed hf hclear hend hi)]
      exact hnew i hi
    · rw [hh', hwr, hch]
    · rw [hpatches, hcm]

/-- One successful move to a block apart from the old one and from the image. -/
theorem PlacedAt.moved (hok : u.EntriesOk) (h : u.PlacedAt p w) {newRam : Addr} {newSize : UInt32}
    (hrun : (udynlinkRelocateModule host newRam newSize).run w = (.ok (), w'))
    (hdisj : Span.Disjoint ⟨p, exactRamUntagged u.header u.mode⟩
      ⟨w'.handle.pRam, exactRamUntagged u.header u.mode⟩)
    (hclear : SourceClear u.image u.header u.mode w'.handle.pRam)
    (hapart : u.OverridesApart p) : u.PlacedAt w'.handle.pRam w' := by
  rw [udynlinkRelocateModule, Prog.run_getHandle_bind] at hrun
  split at hrun
  next => simp at hrun
  next =>
    have hkept := PlacedAt.kept hcon hf hend h
    -- the old block is not apart from itself
    have hself : exactRamUntagged u.header u.mode ≠ 0 → w'.handle.pRam ≠ p := fun hne hs => by
      have hoff := off_mem (b := p) (Nat.pos_of_ne_zero hne) (Nat.le_of_lt hf.ram)
      rw [off_zero] at hoff
      rw [hs] at hdisj
      exact hdisj p hoff hoff
    rcases Kept.relocate_ok hcon hf hend hkept hok.toEntriesBehind hrun with
      ⟨hm, hh | ⟨hne, hh⟩⟩ | ⟨hne, q, -, -, hpram, hgo⟩
    · rw [hh, h.handle.pRam]
      exact ⟨hh ▸ h.handle, hh ▸ h.named, h.clear, hm ▸ h.source, hm ▸ h.reference⟩
    · refine absurd ?_ (hself hne)
      rw [hh, (claimOwnership_same newRam w.handle).1, h.handle.pRam]
    · subst hpram
      have hmc := metaClear_of_source hclear hcon hf.untagged hend
      obtain ⟨⟨hplaced, -⟩, hh, hmem⟩ := hgo hdisj hmc
      have hcopy : ∀ i, i < exactRamUntagged u.header u.mode →
          w.mem.copy w'.handle.pRam p (exactRamUntagged u.header u.mode)
            (w'.handle.pRam + UInt32.ofNat i) = w.mem (p + UInt32.ofNat i) :=
        fun i hi => copy_off hi (Nat.le_of_lt hf.ram)
      refine ⟨hplaced, ?_, hclear, fun s hs a ha => ?_, ?_⟩
      · rw [hh]
        exact (claimOwnership_same newRam w.handle).2.2.2.trans h.named
      · have hout := hclear s hs a ha
        rw [moved_fixed hf hmem hok.toEntriesBehind (fixed_of_notMem hf hout), Mem.copy,
          store_notMem hout]
        exact h.source s hs a ha
      · exact moved_reference hf hok hmem h.reference hapart hcopy

end Relocate

end UntaggedImage

end Udynlink
