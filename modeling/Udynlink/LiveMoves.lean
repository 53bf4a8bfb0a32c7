import Udynlink.MoveFrame

/-!
# What a move does to the words of a running sectioned module

The walk of a move shifts what points into a section and puts every symbol of a
section in place again, unless a weak one is overridden.
-/

namespace Udynlink

open Machine

section

variable {ctx : SectRebase} {mod : Module} {m : Mem} {addr : Addr} {n i k : Nat}

theorem sectFindByRuntimeLoop_some
    (h : (sectFindByRuntimeLoop ctx mod addr n i).run m = some k) :
    k < i + n ∧ addr - (sectBaseOld ctx mod k).run m < (entriesAt m ctx.tab.pEntries k).size := by
  induction n generalizing i with
  | zero => simp [sectFindByRuntimeLoop] at h
  | succ n ih =>
    rw [sectFindByRuntimeLoop, Reader.run_bind, sectEntryAt_run, Reader.run_bind, Reader.run_ite]
      at h
    split at h
    next hin =>
      rw [Reader.run_pure, Option.some.injEq] at h
      subst h
      exact ⟨by omega, hin.2⟩
    next =>
      obtain ⟨hlt, hin⟩ := ih h
      exact ⟨by omega, hin⟩

/-- A section behind the main ones that answers for a VA has a byte. -/
theorem sectFindLoop_size {tab : SectView} {va : UInt32}
    (h : (sectFindLoop tab va n i).run m = some k) (h3 : 3 ≤ k) :
    (entriesAt m tab.pEntries k).size ≠ 0 := by
  induction n generalizing i with
  | zero => simp [sectFindLoop] at h
  | succ n ih =>
    rw [sectFindLoop, Reader.run_bind, sectEntryAt_run, Reader.run_ite] at h
    split at h
    next => simp at h
    next =>
      rw [Reader.run_bind, Reader.run_ite] at h
      split at h
      next hin =>
        rw [Reader.run_pure, Option.some.injEq] at h
        subst h
        have hno : ¬ (decide (i + 1 < 3) && decide (i + 1 < tab.num)) = true := by
          rw [decide_eq_false (by omega), Bool.false_and]
          exact Bool.false_ne_true
        rw [entrySpan, if_neg hno, Reader.run_pure] at hin
        intro hz
        rw [hz] at hin
        exact absurd hin (by simp)
      next => exact ih h

end

namespace SectionedImage

variable {u : SectionedImage} {secs : Nat → Addr} {p q : Addr} {w w' : State} {idx k : Nat}
  {off : UInt32} {moves : List SectionMove} {mod : Module} {m : Mem} {newRam : Addr} {x : Nat × Nat}

section

variable {r : Addr} {word : UInt32}

/-- The bases the walk of a move reads: those before the move, and those behind it. -/
theorem walk_bases (hs : SectionedAt u.header u.es u.mode secs q mod (sectView r u.header) m)
    (hf : u.Fits) (hhead : u.mode = .xip → mod.pHeader = u.pHeader) (hp : p ≠ 0) (hq : q ≠ 0)
    (hmoves : ∀ mv ∈ moves, 3 ≤ mv.idx.toNat) (hi : idx < u.num) :
    (firstPlaced u.mode ≤ idx → (3 ≤ idx → (u.es idx).size ≠ 0) →
      (sectBaseOld ⟨sectView r u.header, p, moves⟩ mod idx).run m = u.sectBase secs p idx ∧
      (sectBaseNew ⟨sectView r u.header, p, moves⟩ mod idx).run m =
        u.sectBase (movedBase secs moves) q idx) ∧
    (idx = 0 → u.mode = .xip →
      (sectBaseOld ⟨sectView r u.header, p, moves⟩ mod idx).run m =
        u.pHeader + getCodeOffsetFromHeader u.header ∧
      (sectBaseNew ⟨sectView r u.header, p, moves⟩ mod idx).run m =
        u.pHeader + getCodeOffsetFromHeader u.header) := by
  obtain ⟨ho3, ho1, hotext⟩ := @SectionedAt.sectBaseOld_run ⟨sectView r u.header, p, moves⟩ u.header
    u.es u.mode secs q mod m idx hs hf hi
  refine ⟨fun hfirst hne => ?_, fun h0 hx => ⟨?_, ?_⟩⟩
  · obtain ⟨hn1, hn3⟩ := @SectionedAt.sectBaseNew_run u.header u.es u.mode secs q mod
      ⟨sectView r u.header, p, moves⟩ m idx hs hf hmoves hi hfirst
    rw [sectBase, sectBase]
    split
    next h3 => exact ⟨ho1 h3 hfirst hp, hn1 h3⟩
    next h3 =>
      have h3' : 3 ≤ idx := Nat.not_lt.mp h3
      exact ⟨ho3 h3' hq (hne h3'), hn3 h3' hq (hne h3')⟩
  · rw [hotext h0 hx, hhead hx]
  · have hnone : moves.find? (fun mv => mv.idx.toNat == idx) = none := by
      refine List.find?_eq_none.mpr fun mv hmv heq => ?_
      have hge := hmoves mv hmv
      rw [beq_iff_eq] at heq
      omega
    rw [sectBaseNew]
    dsimp only
    rw [hnone]
    dsimp only
    rw [getSectionBaseIdx, if_pos (by omega), Reader.run_bind, readHeader_run, hs.header,
      if_pos ⟨h0, hs.mode.trans hx⟩, Reader.run_pure, hhead hx]

/-- The walk leaves a word alone that points out of the module, where the entry lets it. -/
theorem rebase_rests {symtOffset : UInt32} {sym? : Option Sym}
    (hs : SectionedAt u.header u.es u.mode secs q mod (sectView r u.header) m)
    (hf : u.Fits) (hhead : u.mode = .xip → mod.pHeader = u.pHeader) (hp : p ≠ 0) (hq : q ≠ 0)
    (hmoves : ∀ mv ∈ moves, 3 ≤ mv.idx.toNat)
    (hout : ∀ j, firstPlaced u.mode ≤ j → j < u.num →
      word ∉ (⟨u.sectBase secs p j, (u.es j).size.toNat⟩ : Span))
    (hsym : isBaseRelocation symtOffset = false → ∀ sym, sym? = some sym → isOwnSymbol sym →
      ∀ j, (sectFindByVa u.tab sym.val).run u.m = some j →
        if j = 0 ∧ u.mode = .xip then
          word = u.pHeader + getCodeOffsetFromHeader u.header + (sym.val - (u.es j).va)
        else sym.type = symTypeWeak ∧ word ≠ u.sectBase secs p j + (sym.val - (u.es j).va)) :
    (rebaseSectionedWord ⟨sectView r u.header, p, moves⟩ mod m symtOffset sym? word).getD word =
      word := by
  have hnot : ∀ j, ¬ firstPlaced u.mode ≤ j → j = 0 ∧ u.mode = .xip := fun j hj => by
    have hx : u.mode = .xip := by
      by_contra hx
      rw [firstPlaced, if_neg hx] at hj
      omega
    rw [firstPlaced, if_pos hx] at hj
    exact ⟨by omega, hx⟩
  unfold rebaseSectionedWord
  cases hb : isBaseRelocation symtOffset with
  | true =>
    rw [if_pos rfl]
    cases hfind : (sectFindByRuntime ⟨sectView r u.header, p, moves⟩ mod word).run m with
    | none => rfl
    | some j =>
      obtain ⟨hj, hin⟩ := sectFindByRuntimeLoop_some hfind
      have hjn : j < u.num := by
        rw [Nat.zero_add] at hj
        exact hj
      dsimp only at hin
      rw [hs.entries j hjn] at hin
      obtain ⟨hplace, htext⟩ := walk_bases hs hf hhead hp hq hmoves hjn
      by_cases hfirst : firstPlaced u.mode ≤ j
      · have hne : (u.es j).size ≠ 0 := fun hz => by
          rw [hz] at hin
          exact absurd hin UInt32.not_lt_zero
        rw [(hplace hfirst fun _ => hne).1] at hin
        exact absurd (UInt32.lt_iff_toNat_lt.mp hin) (hout j hfirst hjn)
      · obtain ⟨h0, hx⟩ := hnot j hfirst
        obtain ⟨hold, hnew⟩ := htext h0 hx
        rw [Option.map_some, hold, hnew, UInt32.sub_self, UInt32.add_zero]
        rfl
  | false =>
    rw [if_neg Bool.false_ne_true]
    cases hsome : sym? with
    | none => rfl
    | some sym =>
      dsimp only
      unfold rebaseSectionedSymWord
      by_cases hown : isOwnSymbol sym
      · have hview := @sectFindByVa_entries (sectView r u.header) u.tab m u.m rfl
          (fun i hi => hs.entries i hi) sym.val
        rw [if_pos hown, hview]
        cases hfind : (sectFindByVa u.tab sym.val).run u.m with
        | none => rfl
        | some j =>
          have hjn : j < u.num := sectFindByVa_lt hfind
          have hword := hsym hb sym hsome hown j hfind
          obtain ⟨hplace, htext⟩ := walk_bases hs hf hhead hp hq hmoves hjn
          dsimp only
          rw [hs.entries j hjn]
          split at hword
          next hx =>
            obtain ⟨hold, hnew⟩ := htext hx.1 hx.2
            rw [hold, hnew, ← hword]
            split
            next => rfl
            next => rfl
          next hx =>
            have hfirst : firstPlaced u.mode ≤ j := by
              by_contra hfirst
              exact hx (hnot j hfirst)
            have hne : 3 ≤ j → (u.es j).size ≠ 0 := fun h3 => sectFindLoop_size hfind h3
            rw [(hplace hfirst hne).1, if_pos hword]
            rfl
      · rw [if_neg hown]
        rfl

end

/-! ## Where a move takes the module -/

section

variable (h : u.Placed secs p w.handle w.mem) (hf : u.Fits)

include h hf

theorem Placed.moduleView_num : (moduleView w).num = u.num := by
  rw [h.moduleView_eq hf]
  rfl

theorem Placed.moduleRam_eq : moduleRam w = u.ram := by
  have hram : u.ram < 2 ^ 32 := hf.ram
  rw [moduleRam, h.ramSize_run hf, toNat_ofNat_of_lt hram]

/-- The base of a section in RAM. -/
theorem Placed.sectionBase_place (hhead : w.handle.pHeader ≠ 0) (hp : p ≠ 0)
    (hfirst : firstPlaced u.mode ≤ idx) (hi : idx < u.num) (hne : 3 ≤ idx → (u.es idx).size ≠ 0) :
    sectionBase w idx = u.sectBase secs p idx := by
  obtain ⟨hb1, hb3⟩ := (h.sectionedAt hf).base_run hf hi hfirst
  rw [sectionBase, h.sectionBase_run hf hi, if_neg hhead, sectBase]
  split
  next h3 => exact hb1 h3
  next h3 => exact hb3 (by omega) hp (hne (by omega))

/-- The base of a text that runs in place. -/
theorem Placed.sectionBase_text (hhead : w.handle.pHeader ≠ 0) (hx : u.mode = .xip) :
    sectionBase w 0 = u.pHeader + getCodeOffsetFromHeader u.header := by
  have hnum := hf.main
  have hpos : 0 < u.num := Nat.lt_of_lt_of_le (by decide) hnum
  have hpx := h.pHeader
  rw [hx, if_neg (by decide)] at hpx
  rw [sectionBase, h.sectionBase_run hf hpos, if_neg hhead, getSectionBaseIdx, if_pos (by decide),
    Reader.run_bind, readHeader_run, h.header hf, if_pos ⟨rfl, h.mode.trans hx⟩, Reader.run_pure,
    hpx]

end

section

variable (hmv : u.MovedTo secs p moves q newRam w w') (h : u.Placed secs p w.handle w.mem)
  (hf : u.Fits) (hp : p ≠ 0) (hq : q ≠ 0) (hhead : w.handle.pHeader ≠ 0)
  (hhead' : w'.handle.pHeader ≠ 0)

include hmv h hf hp hq hhead hhead'

/-- The ranges of a move, as the block and the sections in it. -/
theorem MovedTo.range_cases {r : Span × UInt32} {v : Addr} (hr : r ∈ moduleRanges w w')
    (hv : v ∈ r.1) : (v ∈ (⟨p, u.ram⟩ : Span) ∧ r.2 = q - p) ∨
      ∃ j, 3 ≤ j ∧ j < u.num ∧ (u.es j).size ≠ 0 ∧
        v ∈ (⟨secs j, (u.es j).size.toNat⟩ : Span) ∧ r.2 = movedBase secs moves j - secs j := by
  rw [moduleRanges, List.mem_cons] at hr
  rcases hr with rfl | hr
  · dsimp only at hv
    rw [h.pRam, h.moduleRam_eq hf] at hv
    exact Or.inl ⟨hv, by rw [hmv.placed.pRam, h.pRam]⟩
  · obtain ⟨j, hj, rfl⟩ := List.mem_map.mp hr
    obtain ⟨h3, hlt⟩ := List.mem_range'_1.mp hj
    rw [h.moduleView_num hf] at hlt
    have hjn : j < u.num := by omega
    have hfirst : firstPlaced u.mode ≤ j := (firstPlaced_le u.mode).trans (by omega)
    dsimp only at hv
    rw [h.moduleSection_eq hf hjn] at hv
    have hne : (u.es j).size ≠ 0 := fun hz => by
      rw [hz] at hv
      exact Span.not_mem_zero _ _ hv
    have hb := h.sectionBase_place hf hhead hp hfirst hjn fun _ => hne
    have hb' := hmv.placed.sectionBase_place hf hhead' hq hfirst hjn fun _ => hne
    rw [sectBase_tagged h3] at hb hb'
    rw [hb] at hv
    exact Or.inr ⟨j, h3, hjn, hne, hv, by rw [hb, hb']⟩

/-- Where a move takes a byte of the module. -/
theorem MovedTo.movedWord_spot (hroom : TaggedRoom u.es secs u.num ⟨p, u.ram⟩) (hx : u.InSpot x) :
    movedWord w w' (homeAddr secs p x) = homeAddr (movedBase secs moves) q x := by
  obtain ⟨hx0, hx1⟩ : (x.1 = 0 → homeAddr secs p x ∈ (⟨p, u.ram⟩ : Span)) ∧
      (x.1 ≠ 0 → homeAddr secs p x ∈ (⟨secs x.1, (u.es x.1).size.toNat⟩ : Span)) := hx.mem hf
  by_cases h0 : x.1 = 0
  · have hin := hx0 h0
    have hgo : movedWord w w' (homeAddr secs p x) = homeAddr secs p x + (q - p) := by
      refine alongRanges_of_mem List.mem_cons_self ?_ (fun r hr hv => ?_) ?_
      · rw [h.pRam, h.moduleRam_eq hf]
        exact hin
      · rcases hmv.range_cases h hf hp hq hhead hhead' hr hv with
          ⟨-, he⟩ | ⟨j, h3, hj, hne, hv', -⟩
        · rw [he, hmv.placed.pRam, h.pRam]
        · exact absurd hin (hroom.block j h3 hj hne _ hv')
      · rw [hmv.placed.pRam, h.pRam]
    rw [hgo, homeAddr, homeAddr, if_pos h0, if_pos h0]
    abel
  · obtain ⟨h3, hj, hlt⟩ := hx.2 h0
    have hin := hx1 h0
    have hne : (u.es x.1).size ≠ 0 := fun hz => by
      rw [hz] at hlt
      exact absurd hlt (Nat.not_lt_zero _)
    have hfirst : firstPlaced u.mode ≤ x.1 := (firstPlaced_le u.mode).trans (by omega)
    have hb := h.sectionBase_place hf hhead hp hfirst hj fun _ => hne
    have hb' := hmv.placed.sectionBase_place hf hhead' hq hfirst hj fun _ => hne
    rw [sectBase_tagged h3] at hb hb'
    have hmem : ((⟨sectionBase w x.1, (moduleSection w x.1).size.toNat⟩ : Span),
        sectionBase w' x.1 - sectionBase w x.1) ∈ moduleRanges w w' := by
      refine List.mem_cons_of_mem _ (List.mem_map.mpr ⟨x.1, List.mem_range'_1.mpr ⟨h3, ?_⟩, rfl⟩)
      rw [h.moduleView_num hf]
      omega
    have hgo : movedWord w w' (homeAddr secs p x) =
        homeAddr secs p x + (movedBase secs moves x.1 - secs x.1) := by
      refine alongRanges_of_mem hmem ?_ (fun r hr hv => ?_) ?_
      · rw [h.moduleSection_eq hf hj, hb]
        exact hin
      · dsimp only
        rw [hb, hb']
        rcases hmv.range_cases h hf hp hq hhead hhead' hr hv with
          ⟨hv', -⟩ | ⟨j, h3', hj', hne', hv', he⟩
        · exact absurd hv' (hroom.block x.1 h3 hj hne _ hin)
        · rcases Nat.lt_trichotomy x.1 j with hlt' | heq | hgt
          · exact absurd hv' (hroom.pairwise x.1 j h3 hlt' hj' hne hne' _ hin)
          · rw [he, heq]
          · exact absurd hin (hroom.pairwise j x.1 h3' hgt hj hne' hne _ hv')
      · dsimp only
        rw [hb, hb']
    rw [hgo, homeAddr, homeAddr, if_neg h0, if_neg h0]
    abel

/-- Where a move takes a pointer into a section. -/
theorem MovedTo.movedWord_pointer (hroom : TaggedRoom u.es secs u.num ⟨p, u.ram⟩)
    (hfirst : firstPlaced u.mode ≤ idx) (hi : idx < u.num) (hoff : off < (u.es idx).size) :
    movedWord w w' (u.sectBase secs p idx + off) = u.sectBase (movedBase secs moves) q idx + off := by
  have hlt := UInt32.lt_iff_toNat_lt.mp hoff
  by_cases h3 : idx < 3
  · have hend := hf.main_le_ram hfirst h3
    have hx : u.InSpot (0, exactMainOffset u.header u.num u.es u.mode idx + off.toNat) := by
      refine ⟨fun _ => ?_, fun h0 => absurd rfl h0⟩
      rw [ram]
      dsimp only
      omega
    have hgo := hmv.movedWord_spot h hf hp hq hhead hhead' hroom hx
    rw [homeAddr, homeAddr, if_pos rfl, if_pos rfl, ← off_off, ← off_off,
      UInt32.ofNat_toNat] at hgo
    rw [sectBase, sectBase, if_pos h3, if_pos h3]
    exact hgo
  · have h0 : idx ≠ 0 := by omega
    have hx : u.InSpot (idx, off.toNat) :=
      ⟨fun hz => absurd hz h0, fun _ => ⟨by dsimp only; omega, hi, hlt⟩⟩
    have hgo := hmv.movedWord_spot h hf hp hq hhead hhead' hroom hx
    rw [homeAddr, homeAddr, if_neg h0, if_neg h0, UInt32.ofNat_toNat] at hgo
    rw [sectBase, sectBase, if_neg h3, if_neg h3]
    exact hgo

end

/-! ## The frame of a move -/

/-- A byte of the module is copied to where the move takes it. -/
theorem copied_byte {secs' : Nat → Addr} (hf : u.Fits)
    (hroom : TaggedRoom u.es secs' u.num ⟨q, u.ram⟩) (hcar : u.Carried secs secs' m)
    (hx : u.InSpot x) :
    (m.copy q p u.ram) (homeAddr secs' q x) = m (homeAddr secs p x) := by
  have hram : u.ram < 2 ^ 32 := hf.ram
  rw [homeAddr, homeAddr]
  by_cases h0 : x.1 = 0
  · rw [if_pos h0, if_pos h0, copy_off (hx.1 h0) (Nat.le_of_lt hram)]
  · obtain ⟨h3, hn, hlt⟩ := hx.2 h0
    have hsize := (u.es x.1).size.toNat_lt
    have hne : (u.es x.1).size ≠ 0 := fun hz => by
      rw [hz] at hlt
      exact absurd hlt (Nat.not_lt_zero _)
    have hsame : AgreeOn ⟨secs' x.1, (u.es x.1).size.toNat⟩ m (m.copy q p u.ram) :=
      copy_agree (hroom.block x.1 h3 hn hne)
    rw [if_neg h0, if_neg h0, ← hsame _ (off_mem hlt (by omega))]
    exact hcar x.1 h3 hn _ hlt

/-- A byte that is no base is recorded nowhere. -/
theorem InSpot.notMem_base (hx : u.InSpot x) (hf : u.Fits)
    (hroom : TaggedRoom u.es secs u.num ⟨q, u.ram⟩)
    (hbeside : x.1 = 0 → ¬ (4 * u.header.numLot.toNat ≤ x.2 ∧
      x.2 < 4 * u.header.numLot.toNat + 4 * (u.num - 3))) {j : Nat} (hj : 3 ≤ j) (hj' : j < u.num) :
    homeAddr secs q x ∉ (⟨baseWord u.header q j, 4⟩ : Span) := by
  have hram : u.ram < 2 ^ 32 := hf.ram
  have hb := bases_le_start u.header u.num u.mode
  have hstart : exactStart u.header u.num u.mode ≤ u.ram := hf.start_le_ram
  intro hin
  by_cases h0 : x.1 = 0
  · have hlt := hx.1 h0
    obtain ⟨i, hi, he⟩ := exists_off hin
    rw [homeAddr, if_pos h0, baseWord, off_off] at he
    have hoff := off_inj (by omega) (by omega) he
    exact hbeside h0 (by omega)
  · obtain ⟨h3, hn, hlt⟩ := hx.2 h0
    have hne : (u.es x.1).size ≠ 0 := fun hz => by
      rw [hz] at hlt
      exact absurd hlt (Nat.not_lt_zero _)
    obtain ⟨-, hsec⟩ : (x.1 = 0 → homeAddr secs q x ∈ (⟨q, u.ram⟩ : Span)) ∧
        (x.1 ≠ 0 → homeAddr secs q x ∈ (⟨secs x.1, (u.es x.1).size.toNat⟩ : Span)) := hx.mem hf
    exact hroom.block x.1 h3 hn hne _ (hsec h0)
      (prefix_subset (by omega) _ (baseWord_subset hj hj' (by omega) _ hin))

/-- No home is at the null pointer. -/
theorem InHome.ne_zero (hx : u.InHome x) (hp : p ≠ 0) (hpend : p.toNat + u.ram ≤ 2 ^ 32)
    (hsec : ∀ j, 3 ≤ j → j < u.num → (u.es j).size ≠ 0 →
      secs j ≠ 0 ∧ (secs j).toNat + (u.es j).size.toNat ≤ 2 ^ 32) : homeAddr secs p x ≠ 0 := by
  have hadd : ∀ b : Addr, b ≠ 0 → ∀ i, b.toNat + i < 2 ^ 32 → b + UInt32.ofNat i ≠ 0 :=
    fun b hb i hi hz => by
      have hpos : 0 < b.toNat := Nat.pos_of_ne_zero fun hn => hb (UInt32.toNat_inj.mp hn)
      have hnat := congrArg UInt32.toNat hz
      rw [UInt32.toNat_add, toNat_ofNat_of_lt (by omega), Nat.mod_eq_of_lt hi] at hnat
      have h0 : (0 : UInt32).toNat = 0 := rfl
      omega
  rw [homeAddr]
  by_cases h0 : x.1 = 0
  · have hle := (hx.block h0).1
    rw [if_pos h0]
    exact hadd p hp _ (by omega)
  · obtain ⟨h3, hn, hne, hle⟩ := hx.tagged h0
    obtain ⟨hs, hend⟩ := hsec x.1 h3 hn hne
    rw [if_neg h0]
    exact hadd _ hs _ (by omega)

/-- An entry that stores a word when the image is loaded is one of the module's. -/
theorem Placed.stores_iff (h : u.Placed secs p w.handle w.mem) (hf : u.Fits)
    (hk : k < u.header.numRels.toNat) :
    EntryStores w k ↔ entryWrites u.source u.m k = true := by
  rw [EntryStores, h.moduleEntry_eq hf hk, entryWrites]
  cases hb : isBaseRelocation ((readRelocation u.source.pRelocations k).run u.m).2 with
  | true => exact ⟨fun _ => by rw [Bool.true_or], fun _ => Or.inl rfl⟩
  | false =>
    rw [h.sym hf (isBaseRelocation_eq_false hb), Bool.false_or]
    constructor
    · rintro (hx | ⟨sym, hsym, hw⟩)
      · exact absurd hx Bool.false_ne_true
      · obtain ⟨s, hs, rfl⟩ := Option.map_eq_some_iff.mp hsym
        rw [hs]
        exact hw
    · intro hw
      refine Or.inr ?_
      split at hw
      next s hs => exact ⟨s.shift (w.handle.pHeader - u.pHeader), by rw [hs]; rfl, hw⟩
      next => exact absurd hw Bool.false_ne_true

/-- A byte of the module, as the section and the offset. -/
theorem Placed.inRam_spot (h : u.Placed secs p w.handle w.mem) (hf : u.Fits)
    (hhead : w.handle.pHeader ≠ 0) (hp : p ≠ 0) {a : Addr} (ha : InRam w a) :
    ∃ x, u.InSpot x ∧ a = homeAddr secs p x ∧ (x.1 = 0 → ¬ (4 * u.header.numLot.toNat ≤ x.2 ∧
      x.2 < 4 * u.header.numLot.toNat + 4 * (u.num - 3))) := by
  have hram : u.ram < 2 ^ 32 := hf.ram
  have hb := bases_le_start u.header u.num u.mode
  have hstart : exactStart u.header u.num u.mode ≤ u.ram := hf.start_le_ram
  rcases ha with ⟨hin, hout⟩ | ⟨idx, h3, hidx, hin⟩
  · rw [h.pRam, h.moduleRam_eq hf] at hin
    rw [h.pRam, h.moduleHeader_eq hf, h.moduleView_num hf] at hout
    obtain ⟨i, hi, rfl⟩ := exists_off hin
    refine ⟨(0, i), ⟨fun _ => hi, fun h0 => absurd rfl h0⟩, rfl, fun _ hx => hout ?_⟩
    obtain ⟨j, hj⟩ := Nat.exists_eq_add_of_le hx.1
    dsimp only at hj hx
    rw [hj, ← off_off]
    exact off_mem (by omega) (by omega)
  · rw [h.moduleView_num hf] at hidx
    rw [h.moduleSection_eq hf hidx] at hin
    have hne : (u.es idx).size ≠ 0 := fun hz => by
      rw [hz] at hin
      exact Span.not_mem_zero _ _ hin
    have hfirst : firstPlaced u.mode ≤ idx := (firstPlaced_le u.mode).trans (by omega)
    rw [h.sectionBase_place hf hhead hp hfirst hidx fun _ => hne, sectBase_tagged h3] at hin
    obtain ⟨i, hi, rfl⟩ := exists_off hin
    have h0 : idx ≠ 0 := by omega
    refine ⟨(idx, i), ⟨fun hz => absurd hz h0, fun _ => ⟨h3, hidx, hi⟩⟩, ?_, fun hz => absurd hz h0⟩
    rw [homeAddr, if_neg h0]

/-- A move that is made keeps the frame where every entry finds what it takes for
granted. -/
theorem MovedTo.frame (hmv : u.MovedTo secs p moves q newRam w w')
    (h : u.Placed secs p w.handle w.mem) (hf : u.Fits) (hc : u.Contained) (hm : u.MovesOk moves)
    (hp : p ≠ 0) (hq : q ≠ 0) (hhead : w.handle.pHeader ≠ 0) (hend : q.toNat + u.ram ≤ 2 ^ 32)
    (hroom : TaggedRoom u.es secs u.num ⟨p, u.ram⟩) (hfm : u.FairMove secs p moves q)
    (hlone : u.LoneTargets) (hpop : Populated w moves) (hwhole : WholeBlocks w)
    (hwords : WordsFollow w) : MoveFrame w w' := by
  have hram : u.ram < 2 ^ 32 := hf.ram
  have hnew := hmv.placed
  have hhead' : w'.handle.pHeader ≠ 0 := h.head_ne hnew hf hq hend hhead
  have hcar := populated_carried h hf (fun _ => hp) hhead hpop
  have hroom' := hfm.apart.room
  have hnum := h.moduleView_num hf
  have hpend : p.toNat + u.ram ≤ 2 ^ 32 := by
    have hle := hwhole.blockEnd
    rw [h.pRam, h.moduleRam_eq hf] at hle
    exact hle
  have htagged : ∀ j, 3 ≤ j → firstPlaced u.mode ≤ j := fun j h3 => (firstPlaced_le u.mode).trans
    (by omega)
  have hsec : ∀ j, 3 ≤ j → j < u.num → (u.es j).size ≠ 0 →
      secs j ≠ 0 ∧ (secs j).toNat + (u.es j).size.toNat ≤ 2 ^ 32 := fun j h3 hj hne => by
    have hb := h.sectionBase_place hf hhead hp (htagged j h3) hj fun _ => hne
    rw [sectBase_tagged h3] at hb
    have hz := hwhole.sectionStart j h3 (hnum ▸ hj)
    have hle := hwhole.sectionEnd j h3 (hnum ▸ hj)
    rw [h.moduleSection_eq hf hj, hb] at hz hle
    exact ⟨hz hne, hle⟩
  have hspot : ∀ x, u.InSpot x →
      movedWord w w' (homeAddr secs p x) = homeAddr (movedBase secs moves) q x :=
    fun x hx => hmv.movedWord_spot h hf hp hq hhead hhead' hroom hx
  have hslot : ∀ k, k < u.header.numRels.toNat → entryWrites u.source u.m k = true →
      (¬ ((readRelocation u.source.pRelocations k).run u.m).1 < u.header.numLot.toUInt32 →
        ∃ idx, (sectFindByVa u.tab (relocVa u.header
            ((readRelocation u.source.pRelocations k).run u.m).1)).run u.m = some idx ∧
          ((u.es idx).cls = secClassCode ∨ (u.es idx).cls = secClassData)) →
      entrySlot w k =
        homeAddr secs p (u.home ((readRelocation u.source.pRelocations k).run u.m).1) :=
    fun k hk hw hsect => by
      rw [h.entrySlot_eq hf hk, h.target_addr hf (fun _ => hp) (fun _ => hp) hsect (hc k hk hw)]
  refine ⟨fun a ha hno => ?_, fun k ht => ?_⟩
  · obtain ⟨x, hx, rfl, hbeside⟩ := h.inRam_spot hf hhead hp ha
    rw [hspot x hx, hmv.mem]
    refine (Blit.applyAll_notMem (fun b hb => ?_) _).trans ?_
    · obtain ⟨mv, hmem, rfl⟩ := List.mem_map.mp hb
      obtain ⟨h3, hn⟩ := hm.tagged mv hmem
      exact hx.notMem_base hf hroom' hbeside h3 hn
    · refine (Patch.applyAll_fixed (P := (· = homeAddr (movedBase secs moves) q x))
        (fun r hr heff b hb hmem => ?_) _ rfl).trans (copied_byte hf hroom' hcar hx)
      obtain ⟨l, hl, rfl⟩ := List.mem_map.mp hr
      have hlk : l < u.header.numRels.toNat := by
        have := (List.mem_range'_1.mp hl).2
        omega
      obtain ⟨hw, hsect, hspan⟩ := hmv.effective h hf hc hm (fun _ => hq) hfm hlk heff
      rw [hb, hspan] at hmem
      have hhome := inHome_target hf hsect (hc l hlk hw)
      have hin : homeAddr secs p x ∈
          (⟨homeAddr secs p (u.home ((readRelocation u.source.pRelocations l).run u.m).1), 4⟩ :
            Span) := hx.home_mem hhome hf hroom' hmem
      have hat := hslot l hlk hw hsect
      refine hno l ⟨?_, (h.stores_iff hf hlk).mpr hw, ?_⟩ (hat ▸ hin)
      · rw [h.moduleHeader_eq hf]
        exact hlk
      · rw [hat]
        exact hhome.ne_zero hp hpend hsec
  · have hk : k < u.header.numRels.toNat := by
      rw [← h.moduleHeader_eq hf]
      exact ht.entry
    have hw := (h.stores_iff hf hk).mp ht.stores
    have hne := ht.slot
    rw [h.entrySlot_eq hf hk] at hne
    have hsect : ¬ ((readRelocation u.source.pRelocations k).run u.m).1 < u.header.numLot.toUInt32 →
        _ := fun hl => h.target_section hf hl hne
    have hat := hslot k hk hw hsect
    have hhome := inHome_target hf hsect (hc k hk hw)
    have hmoved := hmv.entry_word h hf hc hm (fun _ => hq) hfm hlone hcar hk hw hsect
    dsimp only at hmoved
    have hword : w.mem.u32 (homeAddr secs p
        (u.home ((readRelocation u.source.pRelocations k).run u.m).1)) =
        w.mem.u32 (entrySlot w k) := by rw [hat]
    rw [hword] at hmoved
    have hgo : movedWord w w' (entrySlot w k) = homeAddr (movedBase secs moves) q
        (u.home ((readRelocation u.source.pRelocations k).run u.m).1) := by
      rw [hat]
      exact hspot _ (hhome.spot (i := 0) (by decide))
    rw [hgo, hmoved]
    -- the value the walk stores
    have hcop := h.copied hf hfm newRam
    rw [← hmv.handle] at hcop
    have hs : SectionedAt u.header u.es u.mode secs q w'.handle
        (sectView w.handle.pHeader u.header) (w.mem.copy q p u.ram) :=
      ⟨hcop.pRam, hcop.mode, hcop.header hf, fun i hi => h.old_entries hf hfm hi, hcop.bases⟩
    have hxip : u.mode = .xip → w'.handle.pHeader = u.pHeader := fun hx => by
      rw [hcop.pHeader, hx, if_neg (by decide)]
    have h3 : ∀ mv ∈ moves, 3 ≤ mv.idx.toNat := fun mv hmv' => (hm.tagged mv hmv').1
    have htext : u.mode = .xip → ∀ a, a ∈ (⟨u.pHeader + getCodeOffsetFromHeader u.header,
        (u.es 0).size.toNat⟩ : Span) → ¬ PointsIn w a := fun hx a ha => by
      have hpos : 0 < u.num := Nat.lt_of_lt_of_le (by decide) hf.main
      have hx' := hwhole.text (h.mode.trans hx) (by omega) a
      rw [h.moduleSection_eq hf hpos, h.sectionBase_text hf hhead hx] at hx'
      exact hx' ha
    have hpoints : ∀ j, firstPlaced u.mode ≤ j → j < u.num → ∀ a,
        a ∈ (⟨u.sectBase secs p j, (u.es j).size.toNat⟩ : Span) → PointsIn w a :=
      fun j hfirst hj a ha => by
        by_cases hj3 : j < 3
        · refine Or.inl ?_
          rw [h.pRam, h.moduleRam_eq hf]
          exact sectBase_subset hf hfirst hj3 _ ha
        · have hne : (u.es j).size ≠ 0 := fun hz => by
            rw [hz] at ha
            exact Span.not_mem_zero _ _ ha
          refine Or.inr ⟨j, by omega, by omega, ?_⟩
          rw [h.moduleSection_eq hf hj, h.sectionBase_place hf hhead hp hfirst hj fun _ => hne]
          exact ha
    rcases hwords k ht with ⟨idx, off, hi, hx, hpt, hoff, hval⟩ | ⟨hout, hsym⟩
    · rw [hnum] at hi
      rw [h.moduleSection_eq hf hi] at hoff
      have hfirst : firstPlaced u.mode ≤ idx := by
        rw [firstPlaced]
        split
        next hm =>
          refine Nat.one_le_iff_ne_zero.mpr fun h0 => hx ⟨h0, h.mode.trans hm⟩
        next => exact Nat.zero_le _
      have hne : (u.es idx).size ≠ 0 := fun hz => by
        rw [hz] at hoff
        exact absurd hoff UInt32.not_lt_zero
      rw [h.sectionBase_place hf hhead hp hfirst hi fun _ => hne] at hval
      have hfits : (u.sectBase secs p idx).toNat + (u.es idx).size.toNat ≤ 2 ^ 32 := by
        by_cases hi3 : idx < 3
        · have hle : exactMainOffset u.header u.num u.es u.mode idx + (u.es idx).size.toNat ≤ u.ram :=
            hf.main_le_ram hfirst hi3
          have hlow := Nat.mod_le (p.toNat + exactMainOffset u.header u.num u.es u.mode idx) (2 ^ 32)
          rw [sectBase, if_pos hi3, mainDest, UInt32.toNat_add, toNat_ofNat_of_lt (by omega)]
          omega
        · rw [sectBase_tagged (by omega)]
          exact (hsec idx (by omega) hi hne).2
      have hvalue := rebase_pointer hs hf hxip hp (fun _ => hq) h3 hroom hfits
        (fun hx a ha hin => htext hx a ha (hpoints idx hfirst hi a hin)) hfirst hi hoff
        (h.points_moved hcop hf hk hi hpt)
      rw [hval, hvalue, Option.getD_some,
        hmv.movedWord_pointer h hf hp hq hhead hhead' hroom hfirst hi hoff]
    · rw [movedWord_out hout]
      refine rebase_rests hs hf hxip hp hq h3
        (fun j hfirst hj hin => hout (hpoints j hfirst hj _ hin)) fun hb sym hsome hown j hfind => ?_
      rw [hcop.sym hf (isBaseRelocation_eq_false hb)] at hsome
      obtain ⟨s, hraw, rfl⟩ := Option.map_eq_some_iff.mp hsome
      have hj : j < u.num := sectFindByVa_lt hfind
      have hold : (getSymAt w.handle.pHeader (moduleEntry w k).2).run w.mem =
          some (s.shift (w.handle.pHeader - u.pHeader)) := by
        rw [h.moduleEntry_eq hf hk, h.sym hf (isBaseRelocation_eq_false hb), hraw]
        rfl
      have hown' : isOwnSymbol (s.shift (w.handle.pHeader - u.pHeader)) := hown
      have hfind' : (sectFindByVa (moduleView w)
          (s.shift (w.handle.pHeader - u.pHeader)).val).run w.mem = some j := by
        rw [h.find_eq hf]
        exact hfind
      have hrest := hsym (by rw [h.moduleEntry_eq hf hk]; exact hb) _ hold hown' j hfind'
      rw [h.mode, h.offsetSym_val hf hhead hown' hfind', h.moduleSection_eq hf hj] at hrest
      by_cases hx : j = 0 ∧ u.mode = .xip
      · rw [if_pos hx] at hrest ⊢
        rw [hrest, hx.1, h.sectionBase_text hf hhead hx.2]
        rfl
      · rw [if_neg hx] at hrest ⊢
        have hfirst : firstPlaced u.mode ≤ j := by
          rw [firstPlaced]
          split
          next hm => exact Nat.one_le_iff_ne_zero.mpr fun h0 => hx ⟨h0, hm⟩
          next => exact Nat.zero_le _
        rw [h.sectionBase_place hf hhead hp hfirst hj fun h3 => sectFindLoop_size hfind h3] at hrest
        exact hrest

/-- A module without RAM has nothing to move. -/
theorem Placed.frame_of_no_ram (h : u.Placed secs p w.handle w.mem) (hf : u.Fits) (hc : u.Contained)
    (hz : u.ram = 0) : MoveFrame w w' := by
  have hb := bases_le_start u.header u.num u.mode
  have hstart : exactStart u.header u.num u.mode ≤ u.ram := hf.start_le_ram
  have hnum := h.moduleView_num hf
  refine ⟨fun a ha _ => ?_, fun k ht => ?_⟩
  · rcases ha with ⟨hin, -⟩ | ⟨idx, h3, hidx, -⟩
    · rw [h.moduleRam_eq hf, hz] at hin
      exact absurd hin (Span.not_mem_zero _ _)
    · omega
  · have hk : k < u.header.numRels.toNat := by
      rw [← h.moduleHeader_eq hf]
      exact ht.entry
    have hne := ht.slot
    rw [h.entrySlot_eq hf hk] at hne
    have hhome := inHome_target hf (fun hl => h.target_section hf hl hne)
      (hc k hk ((h.stores_iff hf hk).mp ht.stores))
    by_cases h0 : (u.home ((readRelocation u.source.pRelocations k).run u.m).1).1 = 0
    · have hle := (hhome.block h0).1
      omega
    · obtain ⟨h3, hn, -⟩ := hhome.tagged h0
      omega

/-- A call that returns keeps the frame where every entry finds what it takes for
granted. -/
theorem Standing.frame {host : Host} {call : RelocateCall} (h : u.Standing w) (hf : u.Fits)
    (hc : u.Contained) (hr : (call.exec host).run w = (.ok (), w'))
    (hapart : u.ApartCall call.newRam call.moves w w')
    (hend : ∀ evs q, w.Extends w' evs → DestOf call.newRam (hostEvents evs) q →
      q.toNat + moduleRam w ≤ 2 ^ 32)
    (hpop : ∀ moves, call.moves = some moves → Populated w moves) (hlone : u.LoneTargets)
    (hwhole : WholeBlocks w) (hwords : WordsFollow w) : MoveFrame w w' := by
  have hhead : w.handle.pHeader ≠ 0 := call.exec_header hr
  obtain ⟨moves, hmoves, hm, -, hdone⟩ := h.placed.exec_ok hf hc hr
  rcases hdone with ⟨hh, hmem, -⟩ | ⟨q, ⟨evs, he, hdest⟩, hne, h0, -, hgo⟩
  · exact moveFrame_same hmem (by rw [hh]) fun idx _ _ => by rw [sectionBase, sectionBase, hh, hmem]
  · have hfm := hapart evs q he hdest (Or.inr hne) moves hmoves
    have hram := h.placed.moduleRam_eq hf
    by_cases hz : u.ram = 0
    · exact h.placed.frame_of_no_ram hf hc hz
    · have hp : w.handle.pRam ≠ 0 := hwhole.block (by rw [hram]; exact hz)
      exact (hgo hfm).frame h.placed hf hc hm hp h0 hhead (hram ▸ hend evs q he hdest) h.apart.room
        hfm hlone (hpop moves hmoves) hwhole hwords

end SectionedImage

/-! ## Runs -/

namespace UntaggedImage

variable {u : UntaggedImage} {p : Addr} {w w' : State} {host : Host} {call : RelocateCall}

/-- A destination that is apart from what is in use. -/
def ApartCall (h : Header) (pHeader : Addr) (mode : LoadMode) (newRam : Addr) (w w' : State) : Prop :=
  ∀ evs q, w.Extends w' evs → DestOf newRam (hostEvents evs) q →
    newRam = 0 ∨ newRam ≠ w.handle.pRam → exactRamUntagged h mode ≠ 0 →
    Span.Disjoint ⟨w.handle.pRam, exactRamUntagged h mode⟩ ⟨q, exactRamUntagged h mode⟩ ∧
      (mode ≠ .copyAll → Span.Disjoint ⟨pHeader, symtabEnd h⟩ ⟨q, exactRamUntagged h mode⟩)

/-- The entries behind the module's own header name words of its own, and no word twice. -/
structure OwnEntries (w : State) : Prop where
  behind : OwnEntriesBehind w
  distinct : ((List.range (moduleHeader w).numRels.toNat).map
    fun k => (moduleEntry w k).1).Nodup

section

variable (hcon : u.Contiguous) (hf : UntaggedFits u.header u.mode)
  (hend : symtabEnd u.header < 2 ^ 32)

include hcon hf hend

theorem Kept.entriesOk (h : u.Kept p w) (hown : OwnEntries w) : u.EntriesOk := by
  refine ⟨h.entriesBehind hcon hf hend hown.behind, ?_⟩
  have hd := hown.distinct
  rw [Kept.moduleHeader_eq h] at hd
  have hmap : (List.range u.header.numRels.toNat).map (fun k => (moduleEntry w k).1) =
      u.entries.map Prod.fst := by
    rw [entries, List.map_map]
    refine List.map_congr_left fun k hk => ?_
    rw [Kept.moduleEntry_eq hcon hf hend h (List.mem_range.mp hk)]
    rfl
  rw [hmap] at hd
  exact hd

/-- What a call that returns has done with an untagged module. -/
theorem Kept.exec_ok (h : u.Kept p w) (hok : u.EntriesBehind)
    (hr : (call.exec host).run w = (.ok (), w'))
    (hapart : ApartCall u.header u.image.pHeader u.mode call.newRam w w') :
    (w'.mem = w.mem ∧ w'.handle.pRam = w.handle.pRam ∧ u.Kept p w') ∨
      exactRamUntagged u.header u.mode ≠ 0 ∧
        ∃ q, q ≠ p ∧ w'.handle.pRam = q ∧ u.MovedTo p q call.newRam w w' := by
  obtain ⟨newSize, moves, hrun⟩ := h.exec_main hf hr
  rcases Kept.relocate_ok hcon hf hend h hok hrun with
    ⟨hm, hh⟩ | ⟨hne, q, ⟨evs, he, hd⟩, hqp, hq, hgo⟩
  · have hsame : w'.handle.pRam = w.handle.pRam ∧ w'.handle.mode = w.handle.mode ∧
        w'.handle.pHeader = w.handle.pHeader := by
      rcases hh with hh | ⟨-, hh⟩
      · rw [hh]
        exact ⟨rfl, rfl, rfl⟩
      · obtain ⟨h1, h2, h3, -⟩ := claimOwnership_same call.newRam w.handle
        rw [hh]
        exact ⟨h1, h2, h3⟩
    refine Or.inl ⟨hm, hsame.1, ⟨hsame.1.trans h.handle.pRam, hsame.2.1.trans h.handle.mode,
      hsame.2.2.trans h.handle.pHeader⟩, ?_⟩
    rw [hm]
    exact h.metadata
  · have hnew : call.newRam = 0 ∨ call.newRam ≠ w.handle.pRam := by
      by_cases hz : call.newRam = 0
      · exact Or.inl hz
      · rw [DestOf, if_neg hz] at hd
        rw [h.handle.pRam]
        exact Or.inr (hd ▸ hqp)
    obtain ⟨hdisj, hclear⟩ := hapart evs q he hd hnew hne
    rw [h.handle.pRam] at hdisj
    exact Or.inr ⟨hne, q, hqp, hq, hgo hdisj hclear⟩

theorem Kept.step (h : u.Kept p w) (hok : u.EntriesBehind)
    (hr : (call.exec host).run w = (.ok (), w'))
    (hapart : ApartCall u.header u.image.pHeader u.mode call.newRam w w') :
    u.Kept w'.handle.pRam w' := by
  rcases Kept.exec_ok hcon hf hend h hok hr hapart with ⟨-, hp, hk⟩ | ⟨-, q, -, hq, hmv⟩
  · rw [hp, h.handle.pRam]
    exact hk
  · rw [hq]
    exact hmv.kept

/-- A module that moves keeps the frame exactly where its words are own, and one that
stays keeps it. -/
theorem Kept.frame (h : u.Kept p w) (hok : u.EntriesOk)
    (hr : (call.exec host).run w = (.ok (), w'))
    (hapart : ApartCall u.header u.image.pHeader u.mode call.newRam w w') (hwhole : WholeBlocks w) :
    (w'.handle.pRam = w.handle.pRam → MoveFrame w w') ∧
      (w'.handle.pRam ≠ w.handle.pRam → (MoveFrame w w' ↔ WordsOwn w)) := by
  have hnum := Kept.moduleView_num hf h
  have hram := Kept.moduleRam_eq hf h
  have hpram := h.handle.pRam
  rcases Kept.exec_ok hcon hf hend h hok.toEntriesBehind hr hapart with
    ⟨hm, hsame, -⟩ | ⟨hne, q, hqp, hq, hmv⟩
  · refine ⟨fun _ => moveFrame_same hm hsame fun idx _ hi => ?_, fun hx => absurd hsame hx⟩
    rw [hnum] at hi
    exact absurd hi (Nat.not_lt_zero _)
  · refine ⟨fun hx => absurd (hq.symm.trans (hx.trans hpram)) hqp, fun _ => ?_⟩
    have hp : p ≠ 0 := by
      rw [← hpram]
      exact hwhole.block (by rw [hram]; exact hne)
    have hpend := hwhole.blockEnd
    rw [hpram, hram] at hpend
    exact MovedTo.frame_iff hcon hf hend h hmv hok hp hpend hqp

end

/-- Stores beside the metadata leave an untagged module where it is. -/
theorem Kept.write (h : u.Kept p w) (hu : isSectioned u.header = false)
    (hcode : exactCodeOffset u.header < 2 ^ 32) (hh : w'.handle = w.handle)
    (hmeta : AgreeOn ⟨w.handle.pHeader, exactCodeOffset u.header⟩ w.mem w'.mem) : u.Kept p w' := by
  have hle := symtabEnd_le hu
  refine ⟨hh ▸ h.handle, fun i hi => ?_⟩
  have hin := off_mem (b := w.handle.pHeader) (i := i) (Nat.lt_of_lt_of_le hi hle)
    (Nat.le_of_lt hcode)
  have hsame := hmeta _ hin
  rw [h.handle.pHeader_eq, add_right_comm] at hsame
  rw [← hsame]
  exact h.metadata i hi

end UntaggedImage

/-- What moves take for granted of the image: no size wraps, and the words its
entries name are the module's. -/
structure MovableImage (image : Image) (mode : LoadMode) (m : Mem) : Prop where
  offset : exactCodeOffset (decodeHeader m image.pHeader) < 2 ^ 32
  contained : LoadContained image mode m
  moved : (imageView image m).num ≠ 0 → SectionedImage.Contained ⟨image.pHeader, m, mode⟩

/-- The block a call moves the module to is apart from what is in use. -/
def CallApart (image : Image) (mode : LoadMode) (m : Mem) (call : RelocateCall) (w w' : State) :
    Prop :=
  if (imageView image m).num = 0 then
    UntaggedImage.ApartCall (decodeHeader m image.pHeader) image.pHeader mode call.newRam w w'
  else SectionedImage.ApartCall ⟨image.pHeader, m, mode⟩ call.newRam call.moves w w'

/-- A successful move of a module of either kind. -/
def AnyMove (host : Host) (image : Image) (mode : LoadMode) (m : Mem) (w w' : State) : Prop :=
  ∃ call : RelocateCall, (call.exec host).run w = (.ok (), w') ∧ CallApart image mode m call w w'

section

variable {host : Host} {image : Image} {mode : LoadMode} {loadAddr : Addr} {loadSize : UInt32}
  {w w₁ w₂ w₃ : State} {tab : SectView} {ramSize : UInt32} {ramAddr : Addr} {w1 w2 w3 w4 : State}
  {evs : List (Event HostEvent)} {call : RelocateCall}

theorem untagged_move_frame
    (hs : LoadStages host image loadAddr loadSize mode w w₁ tab ramSize ramAddr w1 w2 w3 w4)
    (ht : tab.num = 0) (himg : MovableImage image mode w.mem) (hown : UntaggedImage.OwnEntries w₁)
    (he : w.Extends w₁ evs)
    (hfair : FairBlocks (imageSource image w.mem) loadAddr loadSize (hostEvents evs))
    (hrun : Relation.ReflTransGen (Lives (AnyMove host image mode w.mem) image w.mem) w₁ w₂)
    (hcall : (call.exec host).run w₂ = (.ok (), w₃))
    (hapart : CallApart image mode w.mem call w₂ w₃) (hwhole : WholeBlocks w₂) :
    (w₃.handle.pRam = w₂.handle.pRam → MoveFrame w₂ w₃) ∧
      (w₃.handle.pRam ≠ w₂.handle.pRam → (MoveFrame w₂ w₃ ↔ WordsOwn w₂)) := by
  have hview := imageView_of_sectab hs.sectab
  have hzero : (imageView image w.mem).num = 0 := by rw [hview]; exact ht
  obtain ⟨hv, hf, hload, -⟩ := untagged_loaded hs ht himg.contained.ram he hfair
  let v := UntaggedImage.ofLoaded image.pHeader mode w₁
  have hvp : v.image.pHeader = image.pHeader := rfl
  have hvm : v.mode = mode := rfl
  have hcon : v.Contiguous := UntaggedImage.ofLoaded_contiguous image.pHeader mode w₁
  have hcode : exactCodeOffset v.header < 2 ^ 32 := by
    rw [hv]
    exact himg.offset
  have hend : symtabEnd v.header < 2 ^ 32 :=
    Nat.lt_of_le_of_lt (UntaggedImage.symtabEnd_le hf.untagged) hcode
  have hok : v.EntriesOk := UntaggedImage.Kept.entriesOk hcon hf hend hload hown
  have hkept : v.Kept w₂.handle.pRam w₂ := by
    clear hcall hapart hwhole
    induction hrun with
    | refl => exact hload
    | tail _ hstep ih =>
      cases hstep with
      | move hmove =>
        obtain ⟨c, hr, hc⟩ := hmove
        rw [CallApart, if_pos hzero, ← hv, ← hvp, ← hvm] at hc
        exact UntaggedImage.Kept.step hcon hf hend ih hok.toEntriesBehind hr hc
      | write hh hmeta hbases =>
        rw [← hv] at hmeta
        have hw := ih.write hf.untagged hcode hh hmeta
        rw [← hh] at hw
        exact hw
  rw [CallApart, if_pos hzero, ← hv, ← hvp, ← hvm] at hapart
  exact UntaggedImage.Kept.frame hcon hf hend hkept hok hcall hapart hwhole

/-- A loaded sectioned module is in its place after any run of moves and stores. -/
theorem sectioned_standing
    (hs : LoadStages host image loadAddr loadSize mode w w₁ tab ramSize ramAddr w1 w2 w3 w4)
    (ht : tab.num ≠ 0) (himg : MovableImage image mode w.mem) (he : w.Extends w₁ evs)
    (hfair : FairBlocks (imageSource image w.mem) loadAddr loadSize (hostEvents evs))
    (hrun : Relation.ReflTransGen (Lives (AnyMove host image mode w.mem) image w.mem) w₁ w₂) :
    SectionedImage.Fits ⟨image.pHeader, w.mem, mode⟩ ∧
      SectionedImage.Standing ⟨image.pHeader, w.mem, mode⟩ w₂ := by
  have hview := imageView_of_sectab hs.sectab
  have hne : (imageView image w.mem).num ≠ 0 := by rw [hview]; exact ht
  let u : SectionedImage := ⟨image.pHeader, w.mem, mode⟩
  obtain ⟨htab, hf, secs, names, hl⟩ := sectioned_loaded hs ht himg.contained he hfair
  rw [htab] at hl
  have hnum : (imageView image w.mem).num = u.num := by
    rw [hview, htab]
    rfl
  have hstart : u.Standing w₁ := SectionedLoaded.standing rfl hf hl
  refine ⟨hf, ?_⟩
  induction hrun with
  | refl => exact hstart
  | tail _ hstep ih =>
    cases hstep with
    | move hmove =>
      obtain ⟨c, hr, hca⟩ := hmove
      rw [CallApart, if_neg hne] at hca
      exact ih.exec hf (himg.moved hne) hr hca
    | write hh hmeta hbases =>
      rw [hnum] at hbases
      exact ih.write hf hh hmeta hbases

/-- A move of a loaded module keeps the words that are no relocation targets, and
shifts those that point into the module, where they are what the entries take for
granted: for an untagged module exactly then. -/
theorem move_keeps_words
    (hload : (udynlinkLoadModuleImage host image loadAddr loadSize mode).run w = (.ok (), w₁))
    (himg : MovableImage image mode w.mem)
    (hown : (imageView image w.mem).num = 0 → UntaggedImage.OwnEntries w₁)
    (hlone : (imageView image w.mem).num ≠ 0 →
      SectionedImage.LoneTargets ⟨image.pHeader, w.mem, mode⟩) (he : w.Extends w₁ evs)
    (hfair : FairBlocks (imageSource image w.mem) loadAddr loadSize (hostEvents evs))
    (hrun : Relation.ReflTransGen (Lives (AnyMove host image mode w.mem) image w.mem) w₁ w₂)
    (hcall : (call.exec host).run w₂ = (.ok (), w₃))
    (hapart : CallApart image mode w.mem call w₂ w₃)
    (hend : ∀ evs q, w₂.Extends w₃ evs → DestOf call.newRam (hostEvents evs) q →
      q.toNat + moduleRam w₂ ≤ 2 ^ 32)
    (hpop : ∀ moves, call.moves = some moves → Populated w₂ moves) (hwhole : WholeBlocks w₂) :
    if (imageView image w.mem).num = 0 then
      (w₃.handle.pRam = w₂.handle.pRam → MoveFrame w₂ w₃) ∧
        (w₃.handle.pRam ≠ w₂.handle.pRam → (MoveFrame w₂ w₃ ↔ WordsOwn w₂))
    else WordsFollow w₂ → MoveFrame w₂ w₃ := by
  obtain ⟨tab, ramSize, ramAddr, w1, w2, w3, w4, hs⟩ := loadStages_of_ok hload
  have hview := imageView_of_sectab hs.sectab
  by_cases ht : tab.num = 0
  · have hzero : (imageView image w.mem).num = 0 := by rw [hview]; exact ht
    rw [if_pos hzero]
    exact untagged_move_frame hs ht himg (hown hzero) he hfair hrun hcall hapart hwhole
  · have hne : (imageView image w.mem).num ≠ 0 := by rw [hview]; exact ht
    obtain ⟨hf, hstand⟩ := sectioned_standing hs ht himg he hfair hrun
    rw [CallApart, if_neg hne] at hapart
    rw [if_neg hne]
    exact fun hwords => hstand.frame hf (himg.moved hne) hcall hapart hend hpop (hlone hne) hwhole
      hwords

end

/-! ## Section `x` moved -/

theorem ownSection_movable : MovableImage ownSectionImage .copyTextData ownSectionRom :=
  ⟨by decide +kernel, ownSection_contained, fun _ => ownSection_fair.moved ownSection_table⟩

/-- The word of the one entry, and the size of the block. -/
theorem ownSection_word :
    isBaseRelocation (moduleEntry ownSectionCopied 0).2 = true ∧
      ownSectionCopied.mem.u32 (entrySlot ownSectionCopied 0) = 0x20000014 ∧
      moduleRam ownSectionCopied = 20 := by
  decide +kernel

theorem ownSection_words : WordsFollow ownSectionCopied := by
  obtain ⟨-, hnum, hrels, hsize, hbase, -⟩ := ownSection_copied
  obtain ⟨hentry, hword, -⟩ := ownSection_word
  intro k ht
  have hk := ht.entry
  rw [hrels] at hk
  obtain rfl : k = 0 := Nat.lt_one_iff.mp hk
  refine Or.inl ⟨3, 0, by omega, by decide, Or.inl hentry, ?_, ?_⟩
  · rw [hsize]
    decide
  · rw [hword, hbase]
    rfl

theorem ownSection_whole : WholeBlocks ownSectionCopied := by
  obtain ⟨hhandle, hnum, -, hsize, hbase, -⟩ := ownSection_copied
  have hram := ownSection_word.2.2
  have hone : ∀ j, 3 ≤ j → j < (moduleView ownSectionCopied).num → j = 3 := fun j h3 h4 => by omega
  have hmode : ownSectionCopied.handle.mode ≠ .xip := by
    rw [hhandle]
    decide
  refine ⟨fun _ => ?_, ?_, fun j h3 hj _ => ?_, fun j h3 hj => ?_, fun hm => absurd hm hmode,
    fun hm => absurd hm hmode⟩
  · rw [hhandle]
    decide
  · rw [hhandle, hram]
    decide
  · obtain rfl := hone j h3 hj
    rw [hbase]
    decide
  · obtain rfl := hone j h3 hj
    rw [hbase, hsize]
    decide

theorem ownSection_callApart : CallApart ownSectionImage .copyTextData ownSectionRom
    (.sections 0x30000000 20 (some [⟨3, 0x30000100⟩])) ownSectionCopied
    (ownSectionMove 0x30000000).2 := by
  rw [CallApart, if_neg ownSection_table]
  intro evs q he hd _ mvs hm
  obtain rfl : [⟨3, 0x30000100⟩] = mvs := Option.some.inj hm
  refine (ownSection_fairDest.dest evs q he hd ?_).1
  rw [ownSection_copied.1]
  decide

theorem ownSection_call :
    ((RelocateCall.sections 0x30000000 20 (some [⟨3, 0x30000100⟩])).exec ownSectionHost).run
      ownSectionCopied = (.ok (), (ownSectionMove 0x30000000).2) := by
  rw [RelocateCall.exec]
  exact ownSection_moves

theorem move_keeps_words_ownSection :
    MoveFrame ownSectionCopied (ownSectionMove 0x30000000).2 := by
  have hmain := move_keeps_words (w := ⟨ownSectionRom, Module.free, []⟩) ownSection_loads
    ownSection_movable (fun hz => absurd hz ownSection_table) (fun _ => ownSection_lone)
    ownSection_extends ownSection_fairBlocks (.single ownSection_lives) ownSection_call
    ownSection_callApart (fun evs q _ hd => by
      have hq : q = 0x30000000 := by
        rw [DestOf, if_neg (by decide)] at hd
        exact hd
      rw [hq, ownSection_word.2.2]
      decide) (fun mvs hm => by
      obtain rfl : [⟨3, 0x30000100⟩] = mvs := Option.some.inj hm
      exact ownSection_populated) ownSection_whole
  rw [if_neg ownSection_table] at hmain
  exact hmain ownSection_words

end Udynlink
