import Udynlink.SectionedMove

/-!
# One move of a sectioned module

A move that returns has either left everything as it was, or put the module at
its destination: the block copied, the entries of the relocation table applied,
the new bases recorded.
-/

namespace Udynlink

open Machine

/-! ## Publishing the bases -/

def publishBlits (h : Header) (p : Addr) (moves : List SectionMove) : List Blit :=
  moves.map fun mv => .word (baseWord h p mv.idx.toNat) mv.newBase

section

variable {host : Host} {w w' : State} {h : Header} {moves : List SectionMove}

theorem provisionSectioned_ok {ramSize mainAlign newRam newSize : UInt32} {dest : Addr}
    (hr : (provisionSectioned host ramSize mainAlign newRam newSize).run w = (.ok dest, w'))
    (hne : ramSize ≠ 0) :
    w'.handle = claimOwnership newRam w.handle ∧ w'.mem = w.mem ∧ dest ≠ 0 ∧
      (newRam ≠ 0 → newRam &&& (mainAlign - 1) = 0) ∧
      ∃ evs, w.Extends w' evs ∧ DestOf newRam (hostEvents evs) dest := by
  rw [provisionSectioned, if_neg hne] at hr
  rw [claimOwnership]
  split at hr
  next hz =>
    rw [Prog.run_bind_ok] at hr
    obtain ⟨q, w1, hm, hr⟩ := hr
    have hw1 := externalMalloc_run hm
    rw [if_pos hz]
    split at hr
    next => simp at hr
    next hq =>
      rw [Prog.run_modifyHandle_bind, Prog.run_pure, Prod.mk.injEq, Except.ok.injEq] at hr
      obtain ⟨rfl, rfl⟩ := hr
      rw [hw1]
      refine ⟨rfl, rfl, hq, fun hnz => absurd hz hnz, _, World.extends_log _ _, ?_⟩
      rw [DestOf, if_pos hz, hostEvents_append, hostEvents_readEvents, List.nil_append]
      exact ⟨_, _, List.mem_singleton.mpr rfl⟩
  next hz =>
    rw [if_neg hz]
    split at hr
    next => simp at hr
    next =>
      split at hr
      next => simp at hr
      next hal =>
        rw [Prog.run_modifyHandle_bind, Prog.run_pure, Prod.mk.injEq, Except.ok.injEq] at hr
        obtain ⟨rfl, rfl⟩ := hr
        refine ⟨rfl, rfl, hz, fun _ => not_not.mp hal, [],
          ⟨(List.append_nil _).symm, fun _ _ => rfl⟩, ?_⟩
        rw [DestOf, if_neg hz]

theorem publishMoves_ok (hr : (publishMoves moves).run w = (.ok (), w'))
    (hh : decodeHeader w.mem w.handle.pHeader = h) (hidx : ∀ mv ∈ moves, 3 ≤ mv.idx.toNat)
    (hout : ∀ mv ∈ moves, Span.Disjoint ⟨w.handle.pHeader, 32⟩
      ⟨baseWord h w.handle.pRam mv.idx.toNat, 4⟩) :
    Filled w w' (publishBlits h w.handle.pRam moves) [] := by
  induction moves generalizing w with
  | nil =>
    rw [publishMoves, Prog.run_pure, Prod.mk.injEq] at hr
    rw [← hr.2]
    exact Filled.refl w
  | cons mv moves ih =>
    rw [publishMoves, Prog.run_bind_ok] at hr
    obtain ⟨⟨⟩, w1, hone, hrest⟩ := hr
    have hle := hidx mv List.mem_cons_self
    have hfill := setSectionBaseIdx_ok hh hone
    rw [Nat.sub_add_cancel hle] at hfill
    have hsame : AgreeOn ⟨w.handle.pHeader, 32⟩ w.mem w1.mem := by
      rw [hfill.did.mem]
      exact fun a ha => (Blit.applyAll_notMem (fun b hb => by
        rw [List.mem_singleton.mp hb]
        exact hout mv List.mem_cons_self a ha) w.mem).symm
    have hh1 : decodeHeader w1.mem w1.handle.pHeader = h := by
      rw [hfill.handle, ← hh]
      exact decodeHeader_congr hsame
    have hrest' := ih hrest hh1 (fun mv' hmv => hidx mv' (List.mem_cons_of_mem mv hmv))
      (fun mv' hmv => by
        rw [hfill.handle]
        exact hout mv' (List.mem_cons_of_mem mv hmv))
    rw [hfill.handle] at hrest'
    exact hfill.trans hrest'

end

namespace SectionedImage

variable {u : SectionedImage} {secs : Nat → Addr} {p q : Addr} {mod : Module} {m : Mem}
  {moves : List SectionMove}

/-- Moves of tagged sections, each named once. -/
structure MovesOk (u : SectionedImage) (moves : List SectionMove) : Prop where
  tagged : ∀ mv ∈ moves, 3 ≤ mv.idx.toNat ∧ mv.idx.toNat < u.num
  distinct : (moves.map SectionMove.idx).Nodup

theorem publishBlits_pairwise (hf : u.Fits) (hm : u.MovesOk moves) :
    (publishBlits u.header p moves).Pairwise fun b c => b.span.Disjoint c.span := by
  have hram := hf.ram
  have hstart := hf.start_le_ram
  have hbases := bases_le_start u.header u.num u.mode
  rw [publishBlits, List.pairwise_map]
  have hd := List.pairwise_map.mp (List.nodup_iff_pairwise_ne.mp hm.distinct)
  refine (List.pairwise_iff_forall_sublist.mpr fun {mv mv'} hs => ?_)
  have hmem := hs.subset
  have ht := hm.tagged mv (hmem (by simp))
  have ht' := hm.tagged mv' (hmem (by simp))
  have hne : mv.idx.toNat ≠ mv'.idx.toNat := fun he =>
    (List.pairwise_iff_forall_sublist.mp hd hs) (UInt32.toNat_inj.mp he)
  rcases Nat.lt_or_gt_of_ne hne with hlt | hgt
  · exact baseWord_disjoint ht.1 hlt ht'.2 (by omega)
  · exact (baseWord_disjoint ht'.1 hgt ht.2 (by omega)).symm

/-- A word of the base array is no metadata of the module at the block. -/
theorem Placed.base_apart {secs' : Nat → Addr} (h : u.Placed secs p mod m) (hf : u.Fits)
    (ha : u.Apart secs' p) {j : Nat} (hj : 3 ≤ j) (hj' : j < u.num) :
    Span.Disjoint ⟨mod.pHeader, exactCodeOffset u.header⟩ ⟨baseWord u.header p j, 4⟩ := by
  have hram := hf.ram
  have hstart := hf.start_le_ram
  have hbases := bases_le_start u.header u.num u.mode
  rw [h.pHeader]
  split
  next hm =>
    rw [exactStart, if_pos hm] at hstart
    exact (off_disjoint (by omega) (by omega)).symm
  next hm =>
    refine (ha.block hm).mono (Span.subset_refl _) ?_
    exact Span.subset_trans (baseWord_subset hj hj' (by omega)) (prefix_subset (by
      rw [ram]
      omega))

/-- The array with the new bases in it. -/
theorem Placed.publish (h : u.Placed secs p mod m) (hf : u.Fits) (hm : u.MovesOk moves)
    (ha : u.Apart (movedBase secs moves) p) :
    u.Placed (movedBase secs moves) p mod
      (Blit.applyAll (publishBlits u.header p moves) m) := by
  have hlt := hf.table.exactCodeOffset_lt
  have hram := hf.ram
  have hstart := hf.start_le_ram
  have hbases := bases_le_start u.header u.num u.mode
  refine ⟨h.pRam, h.mode, h.pHeader, fun i hi => ?_, fun j hj hj' hne => ?_⟩
  · rw [Blit.applyAll_notMem, h.metadata i hi]
    intro b hb
    obtain ⟨mv, hmv, rfl⟩ := List.mem_map.mp hb
    obtain ⟨h3, hn⟩ := hm.tagged mv hmv
    exact h.base_apart hf ha h3 hn _ (off_mem hi (by omega))
  · rw [movedBase]
    cases hfind : moves.find? fun mv => mv.idx.toNat == j with
    | some mv =>
      have hmv := List.mem_of_find?_eq_some hfind
      have hidx := List.find?_some hfind
      rw [beq_iff_eq] at hidx
      refine Blit.applyAll_word (publishBlits_pairwise hf hm) ?_ m
      rw [← hidx]
      exact List.mem_map_of_mem hmv
    | none =>
      dsimp only
      rw [← h.bases j hj hj' hne]
      refine (AgreeOn.u32 fun a hx => ?_).symm
      rw [Blit.applyAll_notMem]
      intro b hb
      obtain ⟨mv, hmv, rfl⟩ := List.mem_map.mp hb
      obtain ⟨h3, hn⟩ := hm.tagged mv hmv
      have hidx := List.find?_eq_none.mp hfind mv hmv
      rw [beq_iff_eq] at hidx
      rcases Nat.lt_or_gt_of_ne hidx with hlt' | hgt
      · exact (baseWord_disjoint h3 hlt' hj' (by omega)).symm a hx
      · exact baseWord_disjoint hj hgt hn (by omega) a hx

/-! ## The copy -/

/-- The destination and the moved sections are apart from the image and from the
block that is left. -/
structure FairMove (u : SectionedImage) (secs : Nat → Addr) (p : Addr) (moves : List SectionMove)
    (dest : Addr) : Prop where
  apart : u.Apart (movedBase secs moves) dest
  block : Span.Disjoint ⟨p, u.ram⟩ ⟨dest, u.ram⟩
  tagged : ∀ j, 3 ≤ j → j < u.num → (u.es j).size ≠ 0 →
    Span.Disjoint ⟨p, u.ram⟩ ⟨movedBase secs moves j, (u.es j).size.toNat⟩

/-- The metadata in use lies in the block, or is the image's. -/
theorem Placed.metadata_subset (h : u.Placed secs p mod m) (hf : u.Fits) :
    (u.mode = .copyAll ∧
        (⟨mod.pHeader, exactCodeOffset u.header⟩ : Span) ⊆ ⟨p, u.ram⟩) ∨
      u.mode ≠ .copyAll ∧ mod.pHeader = u.pHeader := by
  have hram := hf.ram
  have hstart := hf.start_le_ram
  have hp := h.pHeader
  by_cases hm : u.mode = .copyAll
  · rw [if_pos hm] at hp
    rw [exactStart, if_pos hm] at hstart
    refine Or.inl ⟨hm, ?_⟩
    rw [hp]
    exact off_subset (by rw [ram]; omega) (by rw [ram]; omega)
  · rw [if_neg hm] at hp
    exact Or.inr ⟨hm, hp⟩

/-- Nothing at the destination is metadata in use. -/
theorem FairMove.metadata_fixed (hfm : u.FairMove secs p moves q) (h : u.Placed secs p mod m)
    (hf : u.Fits) : Covers (u.Fixed (movedBase secs moves) q)
      ⟨mod.pHeader, exactCodeOffset u.header⟩ := by
  intro a ha
  cases h.metadata_subset hf with
  | inl hx =>
    obtain ⟨-, hsub⟩ := hx
    have hin := Span.subset_def.mp hsub a ha
    exact Or.inl ⟨hfm.block a hin, fun j hj hj' hne => hfm.tagged j hj hj' hne a hin⟩
  | inr hx =>
    obtain ⟨hm, hp⟩ := hx
    rw [hp] at ha
    exact Or.inl ⟨hfm.apart.block hm a ha,
      fun j hj hj' hne => hfm.apart.tagged hm j hj hj' hne a ha⟩

theorem FairMove.metadata_disjoint (hfm : u.FairMove secs p moves q) (h : u.Placed secs p mod m)
    (hf : u.Fits) : Span.Disjoint ⟨mod.pHeader, exactCodeOffset u.header⟩ ⟨q, u.ram⟩ := by
  cases h.metadata_subset hf with
  | inl hx => exact hfm.block.mono hx.2 (Span.subset_refl _)
  | inr hx =>
    rw [hx.2]
    exact hfm.apart.block hx.1

/-- The handle behind the copy. -/
def movedHandle (u : SectionedImage) (q newRam : Addr) (mod : Module) : Module :=
  moveHandle q (u.header.numLot.toUInt32 * 4 + getNonmainBasesSize u.tab)
    (claimOwnership newRam mod)

/-- The copy has the module at the destination, its old bases recorded. -/
theorem Placed.copied (h : u.Placed secs p mod m) (hf : u.Fits) (hfm : u.FairMove secs p moves q)
    (newRam : Addr) : u.Placed secs q (u.movedHandle q newRam mod) (m.copy q p u.ram) := by
  have hram := hf.ram
  have hstart := hf.start_le_ram
  have hbases := bases_le_start u.header u.num u.mode
  have hlt := hf.table.exactCodeOffset_lt
  obtain ⟨-, hmode, hhead, -⟩ := UntaggedImage.claimOwnership_same newRam mod
  have hq : (u.movedHandle q newRam mod).pHeader =
      if u.mode = .copyAll then metadataAddr u.header u.num q else u.pHeader := by
    rw [movedHandle, moveHandle, hmode, h.mode, hhead, h.pHeader, ← UInt32.add_assoc,
      pTemp8_eq]
    by_cases hm : u.mode = .copyAll
    · rw [if_pos hm, if_pos hm]
      rfl
    · rw [if_neg hm, if_neg hm, if_neg hm]
  refine ⟨rfl, hmode.trans h.mode, hq, fun i hi => ?_, fun j hj hj' hne => ?_⟩
  · have hb := h.metadata i hi
    cases h.metadata_subset hf with
    | inl hx =>
      have hm := hx.1
      have hp := h.pHeader
      rw [if_pos hm] at hq hp
      rw [exactStart, if_pos hm] at hstart
      rw [hq, metadataAddr, off_off, copy_off (by rw [ram]; omega) (by rw [ram]; omega), ← hb, hp,
        metadataAddr, off_off]
    | inr hx =>
      rw [if_neg hx.1] at hq
      have hd : AgreeOn ⟨mod.pHeader, exactCodeOffset u.header⟩ m (m.copy q p u.ram) :=
        copy_agree (hfm.metadata_disjoint h hf)
      rw [hq, ← hb, hd _ (off_mem hi (by omega)), hx.2]
  · rw [← h.bases j hj hj' hne]
    refine u32_eq_of_bytes fun i hi => ?_
    rw [baseWord, baseWord, off_off, off_off,
      copy_off (by rw [ram]; omega) (by rw [ram]; omega)]

/-- The entries the walk still reads at the old place. -/
theorem Placed.old_entries (h : u.Placed secs p mod m) (hf : u.Fits)
    (hfm : u.FairMove secs p moves q) {i : Nat} (hi : i < u.num) :
    entriesAt (m.copy q p u.ram) (sectView mod.pHeader u.header).pEntries i = u.es i := by
  have hlt := hf.table.exactCodeOffset_lt
  have hle := table_le_codeOffset (h := u.header) (i := i) (by have := hf.table.count; omega)
  have hp : (sectView mod.pHeader u.header).pEntries =
      mod.pHeader + UInt32.ofNat (exactSymtabEnd u.header) := by
    rw [← getSymtabEndOffset_eq]
    rfl
  rw [← h.entries hf hi, hp, entriesAt, entriesAt]
  refine decodeEntry_eq_of_bytes fun k hk => ?_
  rw [off_off, off_off]
  exact (copy_agree (hfm.metadata_disjoint h hf) _ (off_mem (by omega) (by omega))).symm

/-! ## The walk -/

/-- The entries of the relocation table as patches of the copied block. -/
def movePatches (u : SectionedImage) (p : Addr) (q : Addr) (moves : List SectionMove)
    (mod mod' : Module) (m : Mem) : List Patch :=
  (List.range' 0 u.header.numRels.toNat).map (rebasePatchAt
    ⟨sectView mod.pHeader u.header, p, moves⟩ mod' (getRelocsPointer mod'.pHeader u.header)
    (m.copy q p u.ram))

/-- The module a move has put at `q`. -/
structure MovedTo (u : SectionedImage) (secs : Nat → Addr) (p : Addr) (moves : List SectionMove)
    (q newRam : Addr) (w w' : State) : Prop where
  placed : u.Placed (movedBase secs moves) q w'.handle w'.mem
  handle : w'.handle = u.movedHandle q newRam w.handle
  mem : w'.mem = Blit.applyAll (publishBlits u.header q moves)
    (Patch.applyAll (u.movePatches p q moves w.handle w'.handle w.mem) (w.mem.copy q p u.ram))

variable {w w' : State} {newRam : Addr}

theorem Placed.moved (h : u.Placed secs p w.handle w.mem) (hf : u.Fits) (hc : u.Contained)
    (hm : u.MovesOk moves) (hp : 3 < u.num → q ≠ 0) (hfm : u.FairMove secs p moves q)
    {wc wr wp : State} (hmem : wc.mem = w.mem.copy q p u.ram)
    (hhandle : wc.handle = u.movedHandle q newRam w.handle)
    (hwalk : (rebaseSectionsPointers ⟨sectView w.handle.pHeader u.header, p, moves⟩).run wc =
      (.ok (), wr)) (hpub : (publishMoves moves).run wr = (.ok (), wp)) (hw' : w'.mem = wp.mem)
    (hh' : w'.handle = wp.handle) : u.MovedTo secs p moves q newRam w w' := by
  have hcop := h.copied hf hfm newRam
  rw [← hmem, ← hhandle] at hcop
  have hnum := hf.main
  have hcount := hf.table.count
  have hhead := header_le_codeOffset (h := u.header) (by omega)
  have hold : ∀ i, i < u.num →
      entriesAt wc.mem (sectView w.handle.pHeader u.header).pEntries i = u.es i := fun i hi => by
    rw [hmem]
    exact h.old_entries hf hfm hi
  have hR : RebaseIn (u.Fixed (movedBase secs moves) q)
      ⟨sectView w.handle.pHeader u.header, p, moves⟩ wc.handle
      (getRelocsPointer wc.handle.pHeader u.header) u.header.numRels.toNat wc.mem :=
    hcop.rebaseIn hf hc hp (fun mv hmv => (hm.tagged mv hmv).1) hfm.apart hold
      (hfm.metadata_fixed h hf)
  rw [rebaseSectionsPointers, Prog.run_getHandle_bind, Prog.run_lift_bind, readHeader_run,
    hcop.header hf] at hwalk
  obtain ⟨hh, hd⟩ := rebaseSectionsLoop_ok hR u.header.numRels.toNat_lt hwalk
    (Nat.le_of_eq (Nat.zero_add _)) rfl fun _ _ => rfl
  have hd' := Did.of_log hd
  have hwr : wr.mem = Patch.applyAll (u.movePatches p q moves w.handle wc.handle w.mem)
      (w.mem.copy q p u.ram) := by
    rw [hd'.mem, movePatches, hmem]
  have hkeep : u.Placed secs q wr.handle wr.mem := by
    rw [hh]
    refine hcop.congr hf hfm.apart fun a ha => ?_
    rw [hd'.mem]
    refine (Patch.applyAll_fixed (fun x hx hne b hb => ?_) wc.mem ha).symm
    obtain ⟨k, hk, rfl⟩ := List.mem_map.mp hx
    have hlt := (List.mem_range'_1.mp hk).2
    exact hR.clear k (by omega) hne b hb
  have hpam := hkeep.pRam
  have hfill := publishMoves_ok hpub (hkeep.header hf) (fun mv hmv => (hm.tagged mv hmv).1)
    fun mv hmv => by
      obtain ⟨h3, hn⟩ := hm.tagged mv hmv
      rw [hpam]
      exact (hkeep.base_apart hf hfm.apart h3 hn).mono (prefix_subset hhead) (Span.subset_refl _)
  rw [hpam] at hfill
  have hhw : w'.handle = wc.handle := by rw [hh', hfill.handle, hh]
  have hmw : w'.mem = Blit.applyAll (publishBlits u.header q moves) wr.mem := by
    rw [hw', hfill.did.mem]
  refine ⟨?_, hhw.trans hhandle, ?_⟩
  · rw [hmw, hhw, ← hh]
    exact hkeep.publish hf hm hfm.apart
  · rw [hmw, hwr, hhw]

/-! ## The call -/

def mainAlign (u : SectionedImage) : UInt32 := (getMainAlign u.tab).run u.m

theorem Placed.mainAlign_run (h : u.Placed secs p mod m) (hf : u.Fits) :
    (getMainAlign (sectView mod.pHeader u.header)).run m = u.mainAlign := by
  have hnum := hf.main
  have hn : (sectView mod.pHeader u.header).num > 0 := Nat.lt_of_lt_of_le (by decide) hnum
  have hn' : u.tab.num > 0 := Nat.lt_of_lt_of_le (by decide) hnum
  have hown : ∀ i, i < 3 → (sectEntryAt (sectView mod.pHeader u.header) i).run m = u.es i :=
    fun i hi => h.entries hf (by omega)
  have hsrc : ∀ i, (sectEntryAt u.tab i).run u.m = u.es i := fun _ => rfl
  rw [mainAlign, getMainAlign, getMainAlign, if_pos hn, if_pos hn']
  simp only [Reader.run_bind, Reader.run_pure, hown 0 (by decide), hown 1 (by decide),
    hown 2 (by decide), hsrc]

theorem Placed.getSectab_run (h : u.Placed secs p mod m) (hf : u.Fits) :
    (getSectab mod.pHeader false).run m = (.ok (), sectView mod.pHeader u.header) := by
  refine getSectab_of_table (h.header hf) (hf.table.congr hf.main fun i hi => ?_)
  exact h.entries hf hi

/-- What a move that returns has done. -/
theorem Placed.relocateSectioned_ok {host : Host} {ramSize newSize : UInt32}
    (h : u.Placed secs p w.handle w.mem) (hf : u.Fits) (hc : u.Contained) (hm : u.MovesOk moves)
    (hram : ramSize.toNat = u.ram)
    (hr : (relocateSectioned host ramSize newRam newSize moves).run w = (.ok (), w')) :
    (w'.handle = w.handle ∧ w'.mem = w.mem ∧ (moves = [] ∨ newRam = p)) ∨
      ∃ q, (∃ evs, w.Extends w' evs ∧ DestOf newRam (hostEvents evs) q) ∧ newRam ≠ p ∧ q ≠ 0 ∧
        (newRam ≠ 0 → newRam &&& (u.mainAlign - 1) = 0) ∧
        (u.FairMove secs p moves q → u.MovedTo secs p moves q newRam w w') := by
  have hnum := hf.main
  have hcount := hf.table.count
  have hstart := hf.start_le_ram
  have hbases := bases_le_start u.header u.num u.mode
  have hhead := header_le_codeOffset (h := u.header) (by omega)
  have hlt := hf.table.exactCodeOffset_lt
  rw [relocateSectioned, Prog.run_getHandle_bind, Prog.run_lift_bind, h.getSectab_run hf] at hr
  have hpos : ¬ ((.ok () : Except Error Unit) ≠ .ok () ∨
      (sectView w.handle.pHeader u.header).num = 0) := by
    rintro (hx | hx)
    · exact hx rfl
    · have hn : u.num = 0 := hx
      omega
  dsimp only at hr
  rw [if_neg hpos, Prog.run_lift_bind, World.log_mem, h.mainAlign_run hf, World.log_log,
    ← readEvents_append] at hr
  split at hr
  next hz =>
    rw [Prog.run_pure, Prod.mk.injEq] at hr
    rw [← hr.2]
    exact Or.inl ⟨rfl, rfl, Or.inl hz.2⟩
  next hz =>
    split at hr
    next hsame =>
      rw [Prog.run_pure, Prod.mk.injEq] at hr
      rw [← hr.2]
      exact Or.inl ⟨rfl, rfl, Or.inr (hsame.2.trans h.pRam)⟩
    next hother =>
      -- an empty block has no tagged sections to move
      have hne : ramSize ≠ 0 := by
        intro h0
        rw [h0] at hram
        refine hz ⟨h0, ?_⟩
        have h3 : u.num = 3 := by
          have h00 : (0 : UInt32).toNat = 0 := rfl
          rw [ram] at hram
          omega
        cases hmv : moves with
        | nil => rfl
        | cons mv rest =>
          obtain ⟨hlo, hhi⟩ := hm.tagged mv (hmv ▸ List.mem_cons_self)
          omega
      have hgt : ramSize > 0 := UInt32.pos_iff_ne_zero.mpr hne
      rw [Prog.run_bind_ok] at hr
      obtain ⟨dest, w1, hprov, hr⟩ := hr
      obtain ⟨hh1, hm1, hd0, hal, e1, he1, hdest⟩ := provisionSectioned_ok hprov hne
      rw [World.log_handle] at hh1
      rw [World.log_mem] at hm1
      rw [Prog.run_bind_ok] at hr
      obtain ⟨⟨⟩, wc, hcopy, hr⟩ := hr
      have hcopy0 := hcopy
      rw [moveSectionedBlock, if_pos hgt, Prog.run_copy_bind, Prog.run_lift_bind, readHeader_run,
        Prog.run_modifyHandle, Prod.mk.injEq] at hcopy
      rw [Prog.run_bind_ok] at hr
      obtain ⟨⟨⟩, wr, hwalk, hr⟩ := hr
      rw [Prog.run_bind_ok] at hr
      obtain ⟨⟨⟩, wp, hpub, hr⟩ := hr
      rw [if_pos hgt] at hr
      obtain ⟨hh', hm'⟩ := freeOldBlock_ok hr
      obtain ⟨e2, he2⟩ := Prog.extends_of_run hcopy0
      obtain ⟨e3, he3⟩ := Prog.extends_of_run hwalk
      obtain ⟨e4, he4⟩ := Prog.extends_of_run hpub
      obtain ⟨e5, he5⟩ := Prog.extends_of_run hr
      refine Or.inr ⟨dest, ⟨_, (World.extends_log w _).trans
        (he1.trans (he2.trans (he3.trans (he4.trans he5)))), ?_⟩,
        fun hs => hother ⟨hgt, hs.trans h.pRam.symm⟩, hd0, hal, fun hfm => ?_⟩
      · rw [hostEvents_append, hostEvents_append e1]
        exact hdest.append _ _
      · have hheadSame : decodeHeader (w1.mem.copy dest w.handle.pRam ramSize.toNat)
            w.handle.pHeader = u.header := by
          rw [hm1, h.pRam, hram, ← h.header hf]
          refine decodeHeader_congr ?_
          exact (copy_agree (hfm.metadata_disjoint h hf)).mono (prefix_subset hhead)
        have hmem : wc.mem = w.mem.copy dest p u.ram := by
          rw [← hcopy.2]
          show w1.mem.copy dest w.handle.pRam ramSize.toNat = _
          rw [hm1, h.pRam, hram]
        have hhandle : wc.handle = u.movedHandle dest newRam w.handle := by
          rw [← hcopy.2]
          show moveHandle dest ((decodeHeader (w1.mem.copy dest w.handle.pRam ramSize.toNat)
            w.handle.pHeader).numLot.toUInt32 * 4 +
            getNonmainBasesSize (sectView w.handle.pHeader u.header)) w1.handle = _
          rw [hheadSame, hh1]
          rfl
        rw [h.pRam] at hwalk
        exact h.moved hf hc hm (fun _ => hd0) hfm hmem hhandle hwalk hpub hm' hh'

end SectionedImage

end Udynlink
