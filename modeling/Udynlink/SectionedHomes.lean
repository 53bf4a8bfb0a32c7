import Udynlink.SectionedCalls

/-!
# The words of a sectioned move

Where an entry names a word does not depend on the placement: a section and an
offset, or the block and an offset. The walk of a move finds the word of an
entry at its home behind the move, and nothing else writes it when no other
entry has its home there.
-/

namespace Udynlink

open Machine

/-! ## The old bases -/

section

variable {ctx : SectRebase} {h : Header} {es : Nat → SectEntry} {mode : LoadMode}
  {secs : Nat → Addr} {p : Addr} {mod : Module} {m : Mem} {idx : Nat}

/-- The base a section had: what the copied array still has recorded. -/
theorem SectionedAt.sectBaseOld_run
    (hs : SectionedAt h es mode secs p mod ctx.tab m) (hf : SectionedFits h ctx.tab.num es mode)
    (hi : idx < ctx.tab.num) :
    (3 ≤ idx → p ≠ 0 → (es idx).size ≠ 0 → (sectBaseOld ctx mod idx).run m = secs idx) ∧
      (idx < 3 → firstPlaced mode ≤ idx → ctx.oldRam ≠ 0 →
        (sectBaseOld ctx mod idx).run m = mainDest h ctx.tab.num es mode ctx.oldRam idx) ∧
      (idx = 0 → mode = .xip →
        (sectBaseOld ctx mod idx).run m = mod.pHeader + getCodeOffsetFromHeader h) := by
  have hnum := hf.main
  refine ⟨fun h3 hp hne => ?_, fun h3 hfirst hold => ?_, fun h0 hm => ?_⟩
  · rw [sectBaseOld, if_neg (by omega)]
    exact (hs.base_run hf hi (by have := firstPlaced_le mode; omega)).2 h3 hp hne
  · have hx : ¬ (idx = 0 ∧ mod.mode = .xip) := by
      rw [hs.mode]
      rintro ⟨rfl, rfl⟩
      exact absurd hfirst (by decide)
    have hoff : exactMainOffset h ctx.tab.num (entriesAt m ctx.tab.pEntries) mode idx =
        exactMainOffset h ctx.tab.num es mode idx :=
      exactMainOffset_congr hfirst fun j hj => hs.entries j (by omega)
    rw [sectBaseOld, if_pos h3, Reader.run_bind, readHeader_run, hs.header, if_neg hx]
    dsimp only
    rw [if_pos hold, Reader.run_bind, hs.mode, getMainSectionOffset_run _ _ _ _ hi hfirst, hoff,
      Reader.run_pure, mainDest]
  · rw [sectBaseOld, if_pos (by omega), Reader.run_bind, readHeader_run, hs.header,
      if_pos ⟨h0, hs.mode.trans hm⟩, Reader.run_pure]

/-- The first section whose old range has the address. -/
theorem sectFindByRuntimeLoop_eq {addr : Addr} {n i k : Nat} (hik : i ≤ k) (hk : k < i + n)
    (hout : ∀ j, i ≤ j → j < k → ¬ (addr ≥ (sectBaseOld ctx mod j).run m ∧
      addr - (sectBaseOld ctx mod j).run m < (entriesAt m ctx.tab.pEntries j).size))
    (hin : addr ≥ (sectBaseOld ctx mod k).run m ∧
      addr - (sectBaseOld ctx mod k).run m < (entriesAt m ctx.tab.pEntries k).size) :
    (sectFindByRuntimeLoop ctx mod addr n i).run m = some k := by
  induction n generalizing i with
  | zero => omega
  | succ n ih =>
    rw [sectFindByRuntimeLoop, Reader.run_bind, sectEntryAt_run, Reader.run_bind, Reader.run_ite]
    cases Nat.eq_or_lt_of_le hik with
    | inl he =>
      rw [he, if_pos hin, Reader.run_pure]
    | inr hlt =>
      rw [if_neg (hout i (Nat.le_refl i) hlt)]
      exact ih hlt (by omega) fun j hj hj' => hout j (by omega) hj'

end

namespace SectionedImage

/-! ## Homes -/

/-- Where an entry names a word: in the block, as section 0, or in a tagged
section, and how far behind its start. -/
def home (u : SectionedImage) (lotOffset : UInt32) : Nat × Nat :=
  if lotOffset < u.header.numLot.toUInt32 then (0, 4 * lotOffset.toNat)
  else match (sectFindByVa u.tab (relocVa u.header lotOffset)).run u.m with
    | none => (0, 0)
    | some idx =>
      let off := (relocVa u.header lotOffset - (u.es idx).va).toNat
      if idx < 3 then (0, exactMainOffset u.header u.num u.es u.mode idx + off) else (idx, off)

/-- The address of a home in a placement. -/
def homeAddr (secs : Nat → Addr) (p : Addr) (spot : Nat × Nat) : Addr :=
  (if spot.1 = 0 then p else secs spot.1) + UInt32.ofNat spot.2

/-- A home is a word of the LOT or of the sections. -/
structure InHome (u : SectionedImage) (spot : Nat × Nat) : Prop where
  block : spot.1 = 0 → spot.2 + 4 ≤ u.ram ∧
    (spot.2 + 4 ≤ 4 * u.header.numLot.toNat ∨ exactStart u.header u.num u.mode ≤ spot.2)
  tagged : spot.1 ≠ 0 → 3 ≤ spot.1 ∧ spot.1 < u.num ∧ (u.es spot.1).size ≠ 0 ∧
    spot.2 + 4 ≤ (u.es spot.1).size.toNat

/-- Homes without a byte in common. -/
def HomesApart (x y : Nat × Nat) : Prop := x.1 ≠ y.1 ∨ x.2 + 4 ≤ y.2 ∨ y.2 + 4 ≤ x.2

/-- No two entries that store a word name a byte in common, and the base entries
name words behind the LOT. The entries are those behind the header; a load walks the
ones its descriptor points to. -/
structure LoneTargets (u : SectionedImage) : Prop where
  behind : ∀ k, k < u.header.numRels.toNat →
    isBaseRelocation ((readRelocation u.source.pRelocations k).run u.m).2 = true →
    ¬ ((readRelocation u.source.pRelocations k).run u.m).1 < u.header.numLot.toUInt32
  apart : ∀ k l, k < u.header.numRels.toNat → l < u.header.numRels.toNat → k ≠ l →
    entryWrites u.source u.m k = true → entryWrites u.source u.m l = true →
    HomesApart (u.home ((readRelocation u.source.pRelocations k).run u.m).1)
      (u.home ((readRelocation u.source.pRelocations l).run u.m).1)

variable {u : SectionedImage} {secs : Nat → Addr} {p q : Addr} {mod : Module} {m : Mem}
  {moves : List SectionMove} {x y : Nat × Nat} {lotOffset : UInt32} {idx : Nat}

theorem home_lot (h : lotOffset < u.header.numLot.toUInt32) :
    u.home lotOffset = (0, 4 * lotOffset.toNat) := by
  rw [home, if_pos h]

theorem home_section (h : ¬ lotOffset < u.header.numLot.toUInt32)
    (hf : (sectFindByVa u.tab (relocVa u.header lotOffset)).run u.m = some idx) :
    u.home lotOffset = if idx < 3 then (0, exactMainOffset u.header u.num u.es u.mode idx +
        (relocVa u.header lotOffset - (u.es idx).va).toNat)
      else (idx, (relocVa u.header lotOffset - (u.es idx).va).toNat) := by
  rw [home, if_neg h, hf]

/-- A word that the module holds in RAM has its home there. -/
theorem inHome_lot (hf : u.Fits) (h : lotOffset < u.header.numLot.toUInt32) :
    u.InHome (u.home lotOffset) := by
  obtain ⟨hlot, hstart⟩ := lot_le_ram hf
  rw [UInt32.lt_iff_toNat_lt, UInt16.toNat_toUInt32] at h
  rw [home_lot (UInt32.lt_iff_toNat_lt.mpr (by rw [UInt16.toNat_toUInt32]; exact h))]
  refine ⟨fun _ => ⟨?_, Or.inl (by dsimp only; omega)⟩, fun hx => absurd rfl hx⟩
  rw [ram]
  dsimp only
  omega

theorem inHome_section (hf : u.Fits) (h : ¬ lotOffset < u.header.numLot.toUInt32)
    (hfind : (sectFindByVa u.tab (relocVa u.header lotOffset)).run u.m = some idx)
    (hcls : (u.es idx).cls = secClassCode ∨ (u.es idx).cls = secClassData)
    (hc : TargetContained u.header u.num u.es u.mode
      ((sectFindByVa u.tab (relocVa u.header lotOffset)).run u.m) lotOffset) :
    firstPlaced u.mode ≤ idx ∧ u.InHome (u.home lotOffset) := by
  have hi : idx < u.num := sectFindByVa_lt hfind
  obtain ⟨hfirst, hmain, htag⟩ := (hc.resolve_left h) idx hfind hcls
  refine ⟨hfirst, ?_⟩
  rw [home_section h hfind]
  by_cases h3 : idx < 3
  · have hlo := hf.start_le hfirst h3
    rw [if_pos h3]
    exact ⟨fun _ => ⟨hmain h3, Or.inr (by dsimp only; omega)⟩, fun hx => absurd rfl hx⟩
  · have hend := htag (by omega)
    rw [if_neg h3]
    refine ⟨fun hx => absurd hx (by dsimp only; omega), fun _ => ⟨by dsimp only; omega, hi, ?_, hend⟩⟩
    intro hz
    dsimp only at hz
    rw [hz] at hend
    exact absurd hend (by simp)

/-! ## Homes in memory -/

/-- Homes apart are words apart, wherever the module is. -/
theorem homeAddr_disjoint (hf : u.Fits) (hroom : TaggedRoom u.es secs u.num ⟨p, u.ram⟩)
    (hx : u.InHome x) (hy : u.InHome y) (hxy : HomesApart x y) :
    Span.Disjoint ⟨homeAddr secs p x, 4⟩ ⟨homeAddr secs p y, 4⟩ := by
  have hram : u.ram < 2 ^ 32 := hf.ram
  rw [homeAddr, homeAddr]
  have hsub : ∀ z : Nat × Nat, u.InHome z → z.1 ≠ 0 →
      (⟨secs z.1 + UInt32.ofNat z.2, 4⟩ : Span) ⊆ ⟨secs z.1, (u.es z.1).size.toNat⟩ :=
    fun z hz h0 => off_subset (hz.tagged h0).2.2.2 (Nat.le_of_lt (u.es z.1).size.toNat_lt)
  by_cases hsame : x.1 = y.1
  · have hoff := hxy.resolve_left (not_not.mpr hsame)
    have hle : x.2 + 4 ≤ 2 ^ 32 ∧ y.2 + 4 ≤ 2 ^ 32 := by
      by_cases h0 : x.1 = 0
      · have h1 := (hx.block h0).1
        have h2 := (hy.block (hsame ▸ h0)).1
        omega
      · have h1 := (hx.tagged h0).2.2.2
        have h2 := (hy.tagged (hsame ▸ h0)).2.2.2
        have h3 := (u.es x.1).size.toNat_lt
        have h4 := (u.es y.1).size.toNat_lt
        omega
    rw [hsame]
    rcases hoff with ho | ho
    · exact off_disjoint ho hle.2
    · exact (off_disjoint ho hle.1).symm
  · by_cases h0 : x.1 = 0
    · have hy0 : y.1 ≠ 0 := fun h => hsame (h0.trans h.symm)
      obtain ⟨h3, hn, hne, -⟩ := hy.tagged hy0
      rw [if_pos h0, if_neg hy0]
      exact ((hroom.block y.1 h3 hn hne).mono (hsub y hy hy0)
        (off_subset (hx.block h0).1 (Nat.le_of_lt hram))).symm
    · obtain ⟨hx3, hxn, hxne, -⟩ := hx.tagged h0
      rw [if_neg h0]
      by_cases hy0 : y.1 = 0
      · rw [if_pos hy0]
        exact (hroom.block x.1 hx3 hxn hxne).mono (hsub x hx h0)
          (off_subset (hy.block hy0).1 (Nat.le_of_lt hram))
      · obtain ⟨hy3, hyn, hyne, -⟩ := hy.tagged hy0
        rw [if_neg hy0]
        rcases Nat.lt_or_gt_of_ne hsame with hlt | hgt
        · exact (hroom.pairwise x.1 y.1 hx3 hlt hyn hxne hyne).mono (hsub x hx h0) (hsub y hy hy0)
        · exact ((hroom.pairwise y.1 x.1 hy3 hgt hxn hyne hxne).mono (hsub y hy hy0)
            (hsub x hx h0)).symm

/-- No base is recorded in a home. -/
theorem homeAddr_base (hf : u.Fits) (hroom : TaggedRoom u.es secs u.num ⟨p, u.ram⟩)
    (hx : u.InHome x) {j : Nat} (hj : 3 ≤ j) (hj' : j < u.num) :
    Span.Disjoint ⟨homeAddr secs p x, 4⟩ ⟨baseWord u.header p j, 4⟩ := by
  have hram : u.ram < 2 ^ 32 := hf.ram
  have hb := bases_le_start u.header u.num u.mode
  have hstart : exactStart u.header u.num u.mode ≤ u.ram := hf.start_le_ram
  rw [homeAddr]
  by_cases h0 : x.1 = 0
  · obtain ⟨hle, hside⟩ := hx.block h0
    rw [if_pos h0, baseWord]
    rcases hside with ho | ho
    · exact off_disjoint (by omega) (by omega)
    · exact (off_disjoint (by omega) (by omega)).symm
  · obtain ⟨h3, hn, hne, hend⟩ := hx.tagged h0
    rw [if_neg h0]
    exact (hroom.block x.1 h3 hn hne).mono
      (off_subset hend (Nat.le_of_lt (u.es x.1).size.toNat_lt))
      (Span.subset_trans (baseWord_subset hj hj' (by omega)) (prefix_subset (by omega)))

/-! ## Slots -/

/-- The slot of an entry is its home. -/
theorem Placed.target_addr (h : u.Placed secs p mod m) (hf : u.Fits) (hp : 3 < u.num → p ≠ 0)
    (hlot : lotOffset < u.header.numLot.toUInt32 → p ≠ 0)
    (hsect : ¬ lotOffset < u.header.numLot.toUInt32 →
      ∃ idx, (sectFindByVa u.tab (relocVa u.header lotOffset)).run u.m = some idx ∧
        ((u.es idx).cls = secClassCode ∨ (u.es idx).cls = secClassData))
    (hc : TargetContained u.header u.num u.es u.mode
      ((sectFindByVa u.tab (relocVa u.header lotOffset)).run u.m) lotOffset) :
    (getRelocTarget mod (sectView mod.pHeader u.header) lotOffset).run m =
      homeAddr secs p (u.home lotOffset) := by
  have hnum := hf.main
  have hs := h.sectionedAt hf
  have hpos : (sectView mod.pHeader u.header).num ≠ 0 := by
    have hn : (sectView mod.pHeader u.header).num = u.num := rfl
    omega
  rw [getRelocTarget, Reader.run_bind, readHeader_run, hs.header, Reader.run_ite]
  by_cases hl : lotOffset < u.header.numLot.toUInt32
  · rw [if_pos hl, Reader.run_ite, hs.pRam, if_neg (hlot hl), home_lot hl, homeAddr, if_pos rfl,
      mul_four_ofNat]
    rfl
  · obtain ⟨idx, hfind, hcls⟩ := hsect hl
    have hi : idx < u.num := sectFindByVa_lt hfind
    have hview := @sectFindByVa_entries (sectView mod.pHeader u.header) u.tab m u.m rfl
      (fun i hi => h.entries hf hi) (relocVa u.header lotOffset)
    have hcls' : ¬ ((u.es idx).cls ≠ secClassCode ∧ (u.es idx).cls ≠ secClassData) := by tauto
    obtain ⟨hfirst, hin⟩ := inHome_section hf hl hfind hcls hc
    obtain ⟨hb1, hb2⟩ := hs.base_run hf hi hfirst
    rw [if_neg hl, if_neg hpos, Reader.run_bind, hview, hfind]
    dsimp only
    rw [Reader.run_bind, sectEntryAt_run, hs.entries idx hi, if_neg hcls', Reader.run_bind,
      Reader.run_pure]
    rw [home_section hl hfind] at hin ⊢
    by_cases h3 : idx < 3
    · rw [if_pos h3, homeAddr, if_pos rfl, hb1 h3, mainDest, off_word]
      rfl
    · rw [if_neg h3] at hin ⊢
      have hi0 : idx ≠ 0 := by omega
      rw [homeAddr, if_neg hi0, hb2 (by omega) (hp (by omega)) (hin.tagged hi0).2.2.1,
        UInt32.ofNat_toNat]

/-- An entry that has a slot names a word of a section, or of the LOT. -/
theorem Placed.target_section (h : u.Placed secs p mod m) (hf : u.Fits)
    (hl : ¬ lotOffset < u.header.numLot.toUInt32)
    (hne : (getRelocTarget mod (sectView mod.pHeader u.header) lotOffset).run m ≠ 0) :
    ∃ idx, (sectFindByVa u.tab (relocVa u.header lotOffset)).run u.m = some idx ∧
      ((u.es idx).cls = secClassCode ∨ (u.es idx).cls = secClassData) := by
  have hnum := hf.main
  have hs := h.sectionedAt hf
  have hpos : (sectView mod.pHeader u.header).num ≠ 0 := by
    have hn : (sectView mod.pHeader u.header).num = u.num := rfl
    omega
  have hview := @sectFindByVa_entries (sectView mod.pHeader u.header) u.tab m u.m rfl
    (fun i hi => h.entries hf hi) (relocVa u.header lotOffset)
  rw [getRelocTarget, Reader.run_bind, readHeader_run, hs.header, if_neg hl, if_neg hpos,
    Reader.run_bind, hview] at hne
  cases hfind : (sectFindByVa u.tab (relocVa u.header lotOffset)).run u.m with
  | none =>
    rw [hfind] at hne
    exact absurd rfl hne
  | some idx =>
    have hi : idx < u.num := sectFindByVa_lt hfind
    rw [hfind] at hne
    dsimp only at hne
    rw [Reader.run_bind, sectEntryAt_run, hs.entries idx hi, Reader.run_ite] at hne
    split at hne
    next => exact absurd rfl hne
    next hcls => exact ⟨idx, rfl, by tauto⟩

theorem inHome_target (hf : u.Fits)
    (hsect : ¬ lotOffset < u.header.numLot.toUInt32 →
      ∃ idx, (sectFindByVa u.tab (relocVa u.header lotOffset)).run u.m = some idx ∧
        ((u.es idx).cls = secClassCode ∨ (u.es idx).cls = secClassData))
    (hc : TargetContained u.header u.num u.es u.mode
      ((sectFindByVa u.tab (relocVa u.header lotOffset)).run u.m) lotOffset) :
    u.InHome (u.home lotOffset) := by
  by_cases hl : lotOffset < u.header.numLot.toUInt32
  · exact inHome_lot hf hl
  · obtain ⟨idx, hfind, hcls⟩ := hsect hl
    exact (inHome_section hf hl hfind hcls hc).2

/-! ## The walk of a move -/

section

variable (oldRam : Addr) {r : Addr} {e : UInt32 × UInt32} {a : Addr}

theorem sectionedSlot_home
    (hs : SectionedAt u.header u.es u.mode secs p mod (sectView r u.header) m) (hf : u.Fits)
    (hmoves : ∀ mv ∈ moves, 3 ≤ mv.idx.toNat) (hp : 3 < u.num → p ≠ 0)
    (hlot : ¬ lotOffset < u.header.numLot.toUInt32)
    (hfind : (sectFindByVa u.tab (relocVa u.header lotOffset)).run u.m = some idx)
    (hcls : (u.es idx).cls = secClassCode ∨ (u.es idx).cls = secClassData)
    (hc : TargetContained u.header u.num u.es u.mode
      ((sectFindByVa u.tab (relocVa u.header lotOffset)).run u.m) lotOffset) :
    (sectionedSlot ⟨sectView r u.header, oldRam, moves⟩ mod u.header lotOffset).run m =
      some (homeAddr (movedBase secs moves) p (u.home lotOffset)) := by
  have hi : idx < u.num := sectFindByVa_lt hfind
  have hview := @sectFindByVa_entries (sectView r u.header) u.tab m u.m rfl
    (fun i hi => hs.entries i hi) (relocVa u.header lotOffset)
  have hbss : (u.es idx).cls ≠ secClassBss := by
    rcases hcls with hc | hc
    · rw [hc]
      decide
    · rw [hc]
      decide
  obtain ⟨hfirst, hin⟩ := inHome_section hf hlot hfind hcls hc
  obtain ⟨hb1, hb2⟩ := @SectionedAt.sectBaseNew_run u.header u.es u.mode secs p mod
    ⟨sectView r u.header, oldRam, moves⟩ m idx hs hf hmoves hi hfirst
  rw [sectionedSlot, Reader.run_bind, hview, hfind]
  dsimp only
  rw [Reader.run_bind, sectEntryAt_run, hs.entries idx hi, if_neg hbss, Reader.run_bind,
    Reader.run_pure]
  rw [home_section hlot hfind] at hin ⊢
  by_cases h3 : idx < 3
  · rw [if_pos h3, homeAddr, if_pos rfl, hb1 h3, mainDest, off_word]
    rfl
  · rw [if_neg h3] at hin ⊢
    have hi0 : idx ≠ 0 := by omega
    rw [homeAddr, if_neg hi0, hb2 (by omega) (hp (by omega)) (hin.tagged hi0).2.2.1,
      UInt32.ofNat_toNat]

/-- The walk finds the word of an entry at its home behind the move. -/
theorem rebaseSlot_home
    (hs : SectionedAt u.header u.es u.mode secs p mod (sectView r u.header) m) (hf : u.Fits)
    (hmoves : ∀ mv ∈ moves, 3 ≤ mv.idx.toNat) (hp : 3 < u.num → p ≠ 0)
    (hbase : isBaseRelocation e.2 = true → ¬ e.1 < u.header.numLot.toUInt32)
    (hsect : ¬ e.1 < u.header.numLot.toUInt32 →
      ∃ idx, (sectFindByVa u.tab (relocVa u.header e.1)).run u.m = some idx ∧
        ((u.es idx).cls = secClassCode ∨ (u.es idx).cls = secClassData))
    (hc : TargetContained u.header u.num u.es u.mode
      ((sectFindByVa u.tab (relocVa u.header e.1)).run u.m) e.1) :
    (rebaseSectionedSlot ⟨sectView r u.header, oldRam, moves⟩ mod u.header e).run m =
      some (homeAddr (movedBase secs moves) p (u.home e.1)) := by
  have hslot : ¬ e.1 < u.header.numLot.toUInt32 →
      (sectionedSlot ⟨sectView r u.header, oldRam, moves⟩ mod u.header e.1).run m =
        some (homeAddr (movedBase secs moves) p (u.home e.1)) := fun hlot => by
    obtain ⟨idx, hfind, hcls⟩ := hsect hlot
    exact sectionedSlot_home oldRam hs hf hmoves hp hlot hfind hcls hc
  rw [rebaseSectionedSlot]
  by_cases hb : isBaseRelocation e.2 = true
  · rw [if_pos hb, if_neg (hbase hb)]
    exact hslot (hbase hb)
  · rw [if_neg hb, symSlot]
    by_cases hlot : e.1 < u.header.numLot.toUInt32
    · rw [if_pos hlot, Reader.run_pure, hs.pRam, home_lot hlot, homeAddr, if_pos rfl,
        mul_four_ofNat]
    · rw [if_neg hlot]
      exact hslot hlot

/-- A word the walk looks at is the home of its entry. -/
theorem rebaseSlot_some
    (hs : SectionedAt u.header u.es u.mode secs p mod (sectView r u.header) m) (hf : u.Fits)
    (hmoves : ∀ mv ∈ moves, 3 ≤ mv.idx.toNat) (hp : 3 < u.num → p ≠ 0)
    (hc : TargetContained u.header u.num u.es u.mode
      ((sectFindByVa u.tab (relocVa u.header e.1)).run u.m) e.1)
    (ha : (rebaseSectionedSlot ⟨sectView r u.header, oldRam, moves⟩ mod u.header e).run m =
      some a) :
    (¬ e.1 < u.header.numLot.toUInt32 →
        ∃ idx, (sectFindByVa u.tab (relocVa u.header e.1)).run u.m = some idx ∧
          ((u.es idx).cls = secClassCode ∨ (u.es idx).cls = secClassData)) ∧
      a = homeAddr (movedBase secs moves) p (u.home e.1) := by
  by_cases hlot : e.1 < u.header.numLot.toUInt32
  · have hb : ¬ isBaseRelocation e.2 = true := fun hb => by
      rw [rebaseSectionedSlot, if_pos hb, if_pos hlot, Reader.run_pure] at ha
      exact absurd ha (by simp)
    have hx := rebaseSlot_home oldRam hs hf hmoves hp (fun h => absurd h hb)
      (fun h => absurd hlot h) hc
    rw [hx, Option.some.injEq] at ha
    exact ⟨fun h => absurd hlot h, ha.symm⟩
  · have hslot : (sectionedSlot ⟨sectView r u.header, oldRam, moves⟩ mod u.header e.1).run m =
        some a := by
      rw [rebaseSectionedSlot] at ha
      by_cases hb : isBaseRelocation e.2 = true
      · rw [if_pos hb, if_neg hlot] at ha
        exact ha
      · rw [if_neg hb, symSlot, if_neg hlot] at ha
        exact ha
    have hview := @sectFindByVa_entries (sectView r u.header) u.tab m u.m rfl
      (fun i hi => hs.entries i hi) (relocVa u.header e.1)
    have hslot' := hslot
    rw [sectionedSlot, Reader.run_bind, hview] at hslot'
    cases hfind : (sectFindByVa u.tab (relocVa u.header e.1)).run u.m with
    | none =>
      rw [hfind] at hslot'
      exact absurd hslot' (by simp)
    | some idx =>
      have hi : idx < u.num := sectFindByVa_lt hfind
      rw [hfind] at hslot'
      dsimp only at hslot'
      rw [Reader.run_bind, sectEntryAt_run, hs.entries idx hi, Reader.run_ite] at hslot'
      split at hslot'
      next => exact absurd hslot' (by simp)
      next hne =>
        have hcls := code_or_data (hf.table.cls_le hi) hne
        have hx := sectionedSlot_home oldRam hs hf hmoves hp hlot hfind hcls hc
        rw [hx, Option.some.injEq] at hslot
        exact ⟨fun _ => ⟨idx, rfl, hcls⟩, hslot.symm⟩

end

/-! ## The words behind a move -/

/-- A moved section has been copied to its new base. -/
def Carried (u : SectionedImage) (secs secs' : Nat → Addr) (m : Mem) : Prop :=
  ∀ j, 3 ≤ j → j < u.num → ∀ i, i < (u.es j).size.toNat →
    m (secs' j + UInt32.ofNat i) = m (secs j + UInt32.ofNat i)

theorem copied_word {secs' : Nat → Addr} (hf : u.Fits)
    (hroom : TaggedRoom u.es secs' u.num ⟨q, u.ram⟩) (hcar : u.Carried secs secs' m)
    (hx : u.InHome x) :
    (m.copy q p u.ram).u32 (homeAddr secs' q x) = m.u32 (homeAddr secs p x) := by
  have hram : u.ram < 2 ^ 32 := hf.ram
  rw [homeAddr, homeAddr]
  refine u32_eq_of_bytes fun i hi => ?_
  rw [off_off, off_off]
  by_cases h0 : x.1 = 0
  · have hle := (hx.block h0).1
    rw [if_pos h0, if_pos h0, copy_off (by omega) (Nat.le_of_lt hram)]
  · obtain ⟨h3, hn, hne, hend⟩ := hx.tagged h0
    have hsize := (u.es x.1).size.toNat_lt
    have hsame : AgreeOn ⟨secs' x.1, (u.es x.1).size.toNat⟩ m (m.copy q p u.ram) :=
      copy_agree (hroom.block x.1 h3 hn hne)
    rw [if_neg h0, if_neg h0, ← hsame _ (off_mem (by omega) (by omega))]
    exact hcar x.1 h3 hn _ (by omega)

variable {w w' : State} {newRam : Addr}

/-- An entry that the walk of a move acts on: it stores a word, which has its home in
a section or in the LOT. -/
theorem MovedTo.effective (hmv : u.MovedTo secs p moves q newRam w w')
    (h : u.Placed secs p w.handle w.mem) (hf : u.Fits) (hc : u.Contained) (hm : u.MovesOk moves)
    (hq : 3 < u.num → q ≠ 0) (hfm : u.FairMove secs p moves q) {l : Nat}
    (hl : l < u.header.numRels.toNat)
    (heff : ∃ word, (rebasePatchAt ⟨sectView w.handle.pHeader u.header, p, moves⟩ w'.handle
      (getRelocsPointer w'.handle.pHeader u.header) (w.mem.copy q p u.ram) l).value word ≠ none) :
    entryWrites u.source u.m l = true ∧
      (¬ ((readRelocation u.source.pRelocations l).run u.m).1 < u.header.numLot.toUInt32 →
        ∃ idx, (sectFindByVa u.tab (relocVa u.header
            ((readRelocation u.source.pRelocations l).run u.m).1)).run u.m = some idx ∧
          ((u.es idx).cls = secClassCode ∨ (u.es idx).cls = secClassData)) ∧
      (rebasePatchAt ⟨sectView w.handle.pHeader u.header, p, moves⟩ w'.handle
          (getRelocsPointer w'.handle.pHeader u.header) (w.mem.copy q p u.ram) l).span =
        ⟨homeAddr (movedBase secs moves) q
          (u.home ((readRelocation u.source.pRelocations l).run u.m).1), 4⟩ := by
  have hcop := h.copied hf hfm newRam
  rw [← hmv.handle] at hcop
  have hat : SectionedAt u.header u.es u.mode secs q w'.handle
      (sectView w.handle.pHeader u.header) (w.mem.copy q p u.ram) :=
    ⟨hcop.pRam, hcop.mode, hcop.header hf, fun i hi => h.old_entries hf hfm hi, hcop.bases⟩
  obtain ⟨word, hword⟩ := heff
  have hw := hcop.rebase_writes hf hl hword
  unfold rebasePatchAt at hword ⊢
  dsimp only at hword ⊢
  rw [hcop.entry hf hl, hcop.header hf] at hword ⊢
  cases hs : (rebaseSectionedSlot ⟨sectView w.handle.pHeader u.header, p, moves⟩ w'.handle
      u.header ((readRelocation u.source.pRelocations l).run u.m)).run
      (w.mem.copy q p u.ram) with
  | none =>
    rw [rebasePatch_none hs] at hword
    exact absurd rfl hword
  | some a =>
    obtain ⟨hsect, ha⟩ := rebaseSlot_some p hat hf (fun mv hmv => (hm.tagged mv hmv).1) hq
      (hc l hl hw) hs
    refine ⟨hw, hsect, ?_⟩
    rw [rebasePatch_some hs, ha]
    rfl

/-- The entry the walk applies to the word of entry `k`. -/
theorem MovedTo.entry_word (hmv : u.MovedTo secs p moves q newRam w w')
    (h : u.Placed secs p w.handle w.mem) (hf : u.Fits) (hc : u.Contained) (hm : u.MovesOk moves)
    (hq : 3 < u.num → q ≠ 0) (hfm : u.FairMove secs p moves q) (hlone : u.LoneTargets)
    (hcar : u.Carried secs (movedBase secs moves) w.mem) {k : Nat}
    (hk : k < u.header.numRels.toNat) (hw : entryWrites u.source u.m k = true)
    (hsect : ¬ ((readRelocation u.source.pRelocations k).run u.m).1 < u.header.numLot.toUInt32 →
      ∃ idx, (sectFindByVa u.tab (relocVa u.header
          ((readRelocation u.source.pRelocations k).run u.m).1)).run u.m = some idx ∧
        ((u.es idx).cls = secClassCode ∨ (u.es idx).cls = secClassData)) :
    let e := (readRelocation u.source.pRelocations k).run u.m
    let word := w.mem.u32 (homeAddr secs p (u.home e.1))
    w'.mem.u32 (homeAddr (movedBase secs moves) q (u.home e.1)) =
      (rebaseSectionedWord ⟨sectView w.handle.pHeader u.header, p, moves⟩ w'.handle
        (w.mem.copy q p u.ram) e.2 ((getSymAt w'.handle.pHeader e.2).run (w.mem.copy q p u.ram))
        word).getD word := by
  intro e word
  have hcop := h.copied hf hfm newRam
  rw [← hmv.handle] at hcop
  have hroom := hfm.apart.room
  have hold : ∀ i, i < u.num →
      entriesAt (w.mem.copy q p u.ram) (sectView w.handle.pHeader u.header).pEntries i = u.es i :=
    fun i hi => h.old_entries hf hfm hi
  have hat : SectionedAt u.header u.es u.mode secs q w'.handle
      (sectView w.handle.pHeader u.header) (w.mem.copy q p u.ram) :=
    ⟨hcop.pRam, hcop.mode, hcop.header hf, hold, hcop.bases⟩
  have h3 : ∀ mv ∈ moves, 3 ≤ mv.idx.toNat := fun mv hmv => (hm.tagged mv hmv).1
  have hin : u.InHome (u.home e.1) := inHome_target hf hsect (hc k hk hw)
  let f := rebasePatchAt ⟨sectView w.handle.pHeader u.header, p, moves⟩ w'.handle
    (getRelocsPointer w'.handle.pHeader u.header) (w.mem.copy q p u.ram)
  have hslot := rebaseSlot_home p hat hf h3 hq (hlone.behind k hk) hsect (hc k hk hw)
  have hfk : f k = ⟨homeAddr (movedBase secs moves) q (u.home e.1),
      rebaseSectionedWord ⟨sectView w.handle.pHeader u.header, p, moves⟩ w'.handle
        (w.mem.copy q p u.ram) e.2
        ((getSymAt w'.handle.pHeader e.2).run (w.mem.copy q p u.ram))⟩ := by
    show rebasePatchAt _ _ _ _ k = _
    unfold rebasePatchAt
    dsimp only
    rw [hcop.entry hf hk, hcop.header hf, rebasePatch_some hslot]
  have hwalk := Patch.applyAll_lone (f := f) hk (fun l hl hne heff => by
    obtain ⟨hwl, hsectl, hspan⟩ := hmv.effective h hf hc hm hq hfm hl heff
    show Span.Disjoint _ (rebasePatchAt _ _ _ _ l).span
    rw [hspan, hfk]
    exact homeAddr_disjoint hf hroom hin (inHome_target hf hsectl (hc l hl hwl))
      (hlone.apart k l hk hl (Ne.symm hne) hw hwl)) (w.mem.copy q p u.ram)
  rw [hfk] at hwalk
  dsimp only at hwalk
  rw [copied_word hf hroom hcar hin] at hwalk
  rw [← hwalk, hmv.mem]
  refine (AgreeOn.u32 fun a ha => ?_).symm
  refine (Blit.applyAll_notMem (fun b hb => ?_) _).symm
  obtain ⟨mv, hmem, rfl⟩ := List.mem_map.mp hb
  obtain ⟨hge, hn⟩ := hm.tagged mv hmem
  exact homeAddr_base hf hroom hin hge hn a ha

end SectionedImage

end Udynlink
