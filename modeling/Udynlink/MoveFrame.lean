import Udynlink.SectionMoves

/-!
# What a move does to the words of a running module

The words of a module may be anything when it is moved. A move keeps them, and
shifts those that point into the module, as long as every entry still finds in
its word what it takes for granted there: the untagged walk shifts by the kind of
the entry alone, the sectioned one puts symbols in place again whatever the word
holds.
-/

namespace Udynlink

open Machine

/-- A call that returns was made for a module with a header. -/
theorem RelocateCall.exec_header {host : Host} {call : RelocateCall} {w w' : State}
    (hr : (call.exec host).run w = (.ok (), w')) : w.handle.pHeader ≠ 0 := by
  intro hz
  cases call with
  | module newRam newSize =>
    rw [RelocateCall.exec, udynlinkRelocateModule, Prog.run_getHandle_bind, if_pos hz] at hr
    simp at hr
  | sections newRam newSize moves =>
    rw [RelocateCall.exec, udynlinkRelocateModuleSections, Prog.run_getHandle_bind, if_pos hz] at hr
    simp at hr

/-! ## Where an address goes -/

/-- The address a move takes `v` to: along with the first range that has it. -/
def alongRanges (ranges : List (Span × UInt32)) (v : Addr) : Addr :=
  match ranges.find? fun r => decide (v ∈ r.1) with
  | some r => v + r.2
  | none => v

def moduleRam (w : State) : Nat := ((udynlinkGetRamSize w.handle).run w.mem).toNat

/-- The block and the tagged sections of a module, and how far each has moved. -/
def moduleRanges (w w' : State) : List (Span × UInt32) :=
  (⟨w.handle.pRam, moduleRam w⟩, w'.handle.pRam - w.handle.pRam) ::
    (List.range' 3 ((moduleView w).num - 3)).map fun idx =>
      (⟨sectionBase w idx, (moduleSection w idx).size.toNat⟩, sectionBase w' idx - sectionBase w idx)

def movedWord (w w' : State) (v : Addr) : Addr := alongRanges (moduleRanges w w') v

/-! ## The frame -/

/-- Entry `k` stores a word when the module is loaded. -/
def EntryStores (w : State) (k : Nat) : Prop :=
  isBaseRelocation (moduleEntry w k).2 = true ∨
    ∃ sym, (getSymAt w.handle.pHeader (moduleEntry w k).2).run w.mem = some sym ∧
      writesSym sym = true

/-- Entry `k` names a word of the module. -/
structure Target (w : State) (k : Nat) : Prop where
  entry : k < (moduleHeader w).numRels.toNat
  stores : EntryStores w k
  slot : entrySlot w k ≠ 0

/-- A byte of the module that is not the loader's own record of the bases. -/
def InRam (w : State) (a : Addr) : Prop :=
  (a ∈ (⟨w.handle.pRam, moduleRam w⟩ : Span) ∧
    a ∉ (⟨w.handle.pRam + UInt32.ofNat (4 * (moduleHeader w).numLot.toNat),
      4 * ((moduleView w).num - 3)⟩ : Span)) ∨
  ∃ idx, 3 ≤ idx ∧ idx < (moduleView w).num ∧
    a ∈ (⟨sectionBase w idx, (moduleSection w idx).size.toNat⟩ : Span)

/-- A move keeps every other word, and shifts what points into the module with it. -/
structure MoveFrame (w w' : State) : Prop where
  others : ∀ a, InRam w a → (∀ k, Target w k → a ∉ (⟨entrySlot w k, 4⟩ : Span)) →
    w'.mem (movedWord w w' a) = w.mem a
  targets : ∀ k, Target w k → w'.mem.u32 (movedWord w w' (entrySlot w k)) =
    movedWord w w' (w.mem.u32 (entrySlot w k))

theorem alongRanges_cons (r : Span × UInt32) (ranges : List (Span × UInt32)) (v : Addr) :
    alongRanges (r :: ranges) v = if v ∈ r.1 then v + r.2 else alongRanges ranges v := by
  rw [alongRanges, List.find?_cons]
  by_cases hv : v ∈ r.1
  · rw [if_pos hv, decide_eq_true hv]
  · rw [if_neg hv, decide_eq_false hv, alongRanges]

theorem alongRanges_zero {ranges : List (Span × UInt32)} (h : ∀ r ∈ ranges, r.2 = 0) (v : Addr) :
    alongRanges ranges v = v := by
  rw [alongRanges]
  split
  next r hr => rw [h r (List.mem_of_find?_eq_some hr), UInt32.add_zero]
  next => rfl

/-- A module that stays where it is, and as it is. -/
theorem moveFrame_same {w w' : State} (hm : w'.mem = w.mem)
    (hh : w'.handle.pRam = w.handle.pRam)
    (hbase : ∀ idx, 3 ≤ idx → idx < (moduleView w).num →
      sectionBase w' idx = sectionBase w idx) : MoveFrame w w' := by
  have hid : ∀ v, movedWord w w' v = v := fun v => by
    refine alongRanges_zero (fun r hr => ?_) v
    rw [moduleRanges, List.mem_cons] at hr
    rcases hr with rfl | hr
    · exact hh ▸ UInt32.sub_self _
    · obtain ⟨idx, hidx, rfl⟩ := List.mem_map.mp hr
      have hi := List.mem_range'_1.mp hidx
      exact hbase idx hi.1 (by omega) ▸ UInt32.sub_self _
  refine ⟨fun a _ _ => ?_, fun k _ => ?_⟩
  · rw [hid, hm]
  · rw [hid, hid, hm]

/-! ## Untagged modules -/

/-- The walk over an untagged module shifts the word of entry `k`: by the kind of
the entry, except that a weak symbol is shifted where its own address is. -/
def ShiftsWord (w : State) (k : Nat) : Prop :=
  if isBaseRelocation (moduleEntry w k).2 then
    (moduleEntry w k).2 &&& relDataBase ≠ 0 ∨ w.handle.mode ≠ .xip
  else ∃ sym, (getSymAt w.handle.pHeader (moduleEntry w k).2).run w.mem = some sym ∧
    (w.handle.mode = .xip → sym.location = .data) ∧
    (sym.type = symTypeInternal ∨ sym.type = symTypeExported ∨
      sym.type = symTypeWeak ∧
        w.mem.u32 (entrySlot w k) = ((offsetSym w.handle sym).run w.mem).val)

/-- Every word the walk shifts points into the block, and no other. -/
def WordsOwn (w : State) : Prop :=
  ∀ k, Target w k → (ShiftsWord w k ↔
    w.mem.u32 (entrySlot w k) ∈ (⟨w.handle.pRam, moduleRam w⟩ : Span))

namespace UntaggedImage

variable {u : UntaggedImage} {p q : Addr} {w w' : State} {newRam : Addr} {k : Nat}

section

variable (hcon : u.Contiguous) (hf : UntaggedFits u.header u.mode) (hend : symtabEnd u.header < 2 ^ 32)
  (h : u.Kept p w)

include hcon hf hend h

omit hcon hf hend in
theorem Kept.moduleHeader_eq : moduleHeader w = u.header := Kept.header h

omit hcon hend in
theorem Kept.moduleView_num : (moduleView w).num = 0 := by
  rw [moduleView, getSectab_untagged (by rw [Kept.header h]; exact hf.untagged)]

omit hcon hend in
theorem Kept.moduleRam_eq : moduleRam w = exactRamUntagged u.header u.mode := by
  rw [moduleRam, udynlinkGetRamSize, getRamSizeForHeader, Reader.run_bind, readHeader_run,
    Kept.header h, hf.untagged, if_neg Bool.false_ne_true, Reader.run_pure,
    getRamSizeUntagged_eq, h.handle.mode, toNat_ofNat_of_lt hf.ram]

theorem Kept.moduleEntry_eq (hk : k < u.header.numRels.toNat) : moduleEntry w k = u.entry k := by
  have hrels : getRelocsPointer w.handle.pHeader u.header =
      u.image.pRelocations + u.metadataShift p := by
    rw [getRelocsPointer, getHeaderSize_words, h.handle.pHeader_eq, (image_eq hcon hf.untagged).1,
      UInt32.ofNat_toNat, add_right_comm]
  rw [moduleEntry, Kept.moduleHeader_eq h, hrels]
  exact metadata_entry hcon hf.untagged hend h.metadata hk

theorem Kept.sym_eq (index : UInt32) : (getSymAt w.handle.pHeader index).run w.mem =
    ((getSymAtRaw u.image.pSymtab index u.header.symtSize).run u.m).map
      (Sym.shift (u.metadataShift p)) := by
  rw [h.handle.pHeader_eq]
  exact metadata_sym hcon hf.untagged hend h.metadata index

theorem Kept.entrySlot_eq (hk : k < u.header.numRels.toNat) (hp : p ≠ 0)
    (hr : SlotInRange u.header (u.entry k).1) : entrySlot w k = u.slot p (u.entry k) := by
  have hnum := Kept.moduleView_num hf h
  rw [entrySlot, Kept.moduleEntry_eq hcon hf hend h hk, getRelocTarget, Reader.run_bind,
    readHeader_run, Kept.header h, Reader.run_ite, slot, untaggedSlotOff]
  by_cases hl : (u.entry k).1 < u.header.numLot.toUInt32
  · rw [if_pos hl, if_pos hl, h.handle.pRam, Reader.run_ite, if_neg hp, mul_four_ofNat]
    rfl
  · have hlt := hr.resolve_left hl
    rw [if_neg hl, if_neg hl, if_pos hnum]
    dsimp only
    rw [Reader.run_ite, if_neg (UInt32.not_le.mpr hlt), Reader.run_bind,
      getDataPointer_untagged (Kept.header h) hf.untagged h.handle.headerInBlock,
      Reader.run_pure, mul_four_ofNat, off_off, h.handle.pRam, h.handle.mode]

omit hcon hend in
theorem Kept.movedWord_eq {q : Addr} (hq : w'.handle.pRam = q) (v : Addr) : movedWord w w' v =
    if v ∈ (⟨p, exactRamUntagged u.header u.mode⟩ : Span) then v + (q - p) else v := by
  rw [movedWord, moduleRanges, Kept.moduleView_num hf h,
    Kept.moduleRam_eq hf h, h.handle.pRam, hq, alongRanges_cons]
  rfl

end

/-- The address of a symbol of an untagged module. -/
theorem Kept.offsetSym_val (hcon : u.Contiguous) (hf : UntaggedFits u.header u.mode)
    (h : u.Kept p w) {sym : Sym} (hown : isOwnSymbol sym) :
    ((offsetSym w.handle sym).run w.mem).val =
      sym.val + locationBase (u.codeBase p) (u.dataBase p) sym.location := by
  have hheader := Kept.header h
  have hcode : (getCodePointer w.handle).run w.mem = u.codeBase p := by
    rw [getCodePointer_untagged hheader hf.untagged h.handle.headerInBlock, h.handle.mode,
      h.handle.pRam, codeBase, h.handle.pHeader, (image_eq hcon hf.untagged).2.2.1]
    by_cases hm : u.mode = .xip
    · rw [if_pos hm, if_pos hm, if_neg (by rw [hm]; decide)]
    · rw [if_neg hm, if_neg hm]
  have hdata : (getDataPointer w.handle).run w.mem = u.dataBase p := by
    rw [getDataPointer_untagged hheader hf.untagged h.handle.headerInBlock, h.handle.mode,
      h.handle.pRam, dataBase]
  rw [offsetSym, if_pos hown, Reader.run_bind, readHeader_run, hheader, hf.untagged,
    if_neg Bool.false_ne_true, Reader.run_ite]
  by_cases hl : sym.location = .code
  · rw [if_pos hl, Reader.run_bind, Reader.run_pure, hcode, hl]
    rfl
  · have hl' : sym.location = .data := by
      cases hloc : sym.location with
      | code => exact absurd hloc hl
      | data => rfl
    rw [if_neg hl, Reader.run_bind, Reader.run_pure, hdata, hl']
    rfl

/-- The word an untagged walk leaves behind an entry. -/
theorem Kept.rebaseWord_eq (hcon : u.Contiguous) (hf : UntaggedFits u.header u.mode)
    (hend : symtabEnd u.header < 2 ^ 32) (h : u.Kept p w) (hk : k < u.header.numRels.toNat)
    {v : UInt32} (hv : w.mem.u32 (entrySlot w k) = v) (q : Addr) :
    (ShiftsWord w k → ((u.movePatch p q k).value v).getD v = v + (q - p)) ∧
      (¬ ShiftsWord w k → ((u.movePatch p q k).value v).getD v = v) := by
  have hentry := Kept.moduleEntry_eq hcon hf hend h hk
  rw [movePatch]
  dsimp only
  cases hb : isBaseRelocation (u.entry k).2 with
  | true =>
    have hshift : ShiftsWord w k ↔ (u.entry k).2 &&& relDataBase ≠ 0 ∨ u.mode ≠ .xip := by
      rw [ShiftsWord, hentry, hb, if_pos rfl, h.handle.mode]
    by_cases hd : (u.entry k).2 &&& relDataBase ≠ 0
    · rw [rebaseWord_data hd]
      exact ⟨fun _ => rfl, fun hx => absurd (hshift.mpr (Or.inl hd)) hx⟩
    · rw [rebaseWord_code hd ((isBaseRelocation_iff.mp hb).resolve_left hd)]
      by_cases hm : u.mode = .xip
      · rw [if_pos hm, UInt32.add_zero]
        exact ⟨fun hx => absurd hm ((hshift.mp hx).resolve_left hd), fun _ => rfl⟩
      · rw [if_neg hm]
        exact ⟨fun _ => rfl, fun hx => absurd (hshift.mpr (Or.inr hm)) hx⟩
  | false =>
    have hsym := Kept.sym_eq hcon hf hend h (u.entry k).2
    cases hs : u.sym (u.entry k) with
    | none =>
      have hno : ¬ ShiftsWord w k := by
        rw [ShiftsWord, hentry, hb, if_neg Bool.false_ne_true, hsym]
        rintro ⟨sym, hx, -⟩
        obtain ⟨s, hsome, -⟩ := Option.map_eq_some_iff.mp hx
        have hnone : u.sym (u.entry k) = some s := hsome
        rw [hs] at hnone
        cases hnone
      rw [rebaseWord, if_neg (not_base hb).1, if_neg (not_base hb).2]
      exact ⟨fun hx => absurd hx hno, fun _ => rfl⟩
    | some sym =>
      have hval : isOwnSymbol sym →
          ((offsetSym w.handle (sym.shift (u.metadataShift p))).run w.mem).val =
            sym.val + locationBase (u.codeBase p) (u.dataBase p) sym.location := fun hown => by
        have hown' : isOwnSymbol (sym.shift (u.metadataShift p)) := hown
        exact Kept.offsetSym_val hcon hf h hown'
      have hshift : ShiftsWord w k ↔ (u.mode = .xip → sym.location = .data) ∧
          (sym.type = symTypeInternal ∨ sym.type = symTypeExported ∨ sym.type = symTypeWeak ∧
            v = sym.val + locationBase (u.codeBase p) (u.dataBase p) sym.location) := by
        have hsome : ((getSymAtRaw u.image.pSymtab (u.entry k).2 u.header.symtSize).run u.m).map
            (Sym.shift (u.metadataShift p)) = some (sym.shift (u.metadataShift p)) :=
          Option.map_eq_some_iff.mpr ⟨sym, hs, rfl⟩
        rw [ShiftsWord, hentry, hb, if_neg Bool.false_ne_true, hsym, hsome, h.handle.mode, hv]
        constructor
        · rintro ⟨s, hs', hloc, hty⟩
          cases hs'
          exact ⟨hloc, hty.imp_right fun hx => hx.imp_right fun hy =>
            ⟨hy.1, hy.2.trans (hval (Or.inr (Or.inr hy.1)))⟩⟩
        · rintro ⟨hloc, hty⟩
          exact ⟨_, rfl, hloc, hty.imp_right fun hx => hx.imp_right fun hy =>
            ⟨hy.1, hy.2.trans (hval (Or.inr (Or.inr hy.1))).symm⟩⟩
      have hdefault : locationDelta sym.location (u.codeBase p) (u.dataBase p) + sym.val =
          sym.val + locationBase (u.codeBase p) (u.dataBase p) sym.location := by
        rw [UInt32.add_comm]
        cases sym.location <;> rfl
      -- the distance of the symbol is the block's, but for code that runs in place
      have hdelta : (¬ (u.mode = .xip → sym.location = .data) → locationDelta sym.location
            (if u.mode = .xip then 0 else q - p) (q - p) = 0) ∧
          ((u.mode = .xip → sym.location = .data) → locationDelta sym.location
            (if u.mode = .xip then 0 else q - p) (q - p) = q - p) := by
        cases hl : sym.location with
        | code =>
          refine ⟨fun hx => ?_, fun hx => ?_⟩
          · have hm : u.mode = .xip := by_contra fun hm => hx fun h' => absurd h' hm
            exact if_pos hm
          · exact if_neg fun hm => SymLocation.noConfusion (hx hm)
        | data => exact ⟨fun hx => absurd (fun _ => rfl) hx, fun _ => rfl⟩
      rw [rebaseWord_sym hb, hdefault]
      by_cases hown : sym.type = symTypeInternal ∨ sym.type = symTypeExported
      · rw [if_pos hown, Option.getD_some]
        by_cases hloc : u.mode = .xip → sym.location = .data
        · rw [hdelta.2 hloc]
          exact ⟨fun _ => rfl, fun hx => absurd (hshift.mpr ⟨hloc, hown.elim Or.inl
            fun he => Or.inr (Or.inl he)⟩) hx⟩
        · rw [hdelta.1 hloc, UInt32.add_zero]
          exact ⟨fun hx => absurd (hshift.mp hx).1 hloc, fun _ => rfl⟩
      · rw [if_neg hown]
        by_cases hweak : sym.type = symTypeWeak ∧
            v = sym.val + locationBase (u.codeBase p) (u.dataBase p) sym.location
        · rw [if_pos hweak.1, if_pos hweak.2, Option.getD_some]
          by_cases hloc : u.mode = .xip → sym.location = .data
          · rw [hdelta.2 hloc]
            exact ⟨fun _ => rfl, fun hx => absurd (hshift.mpr ⟨hloc, Or.inr (Or.inr hweak)⟩) hx⟩
          · rw [hdelta.1 hloc, UInt32.add_zero]
            exact ⟨fun hx => absurd (hshift.mp hx).1 hloc, fun _ => rfl⟩
        · have hno : ¬ ShiftsWord w k := fun hx => by
            rcases (hshift.mp hx).2 with ht | ht | ht
            · exact hown (Or.inl ht)
            · exact hown (Or.inr ht)
            · exact hweak ht
          have hnone : (if sym.type = symTypeWeak then
              if v = sym.val + locationBase (u.codeBase p) (u.dataBase p) sym.location then
                some (v + locationDelta sym.location (if u.mode = .xip then 0 else q - p) (q - p))
              else none
            else none) = none := by
            by_cases hw : sym.type = symTypeWeak
            · rw [if_pos hw]
              exact if_neg fun hx => hweak ⟨hw, hx⟩
            · exact if_neg hw
          rw [hnone]
          exact ⟨fun hx => absurd hx hno, fun _ => rfl⟩

/-- An entry the walk acts on stores a word. -/
theorem Kept.stores_of_value (hcon : u.Contiguous) (hf : UntaggedFits u.header u.mode)
    (hend : symtabEnd u.header < 2 ^ 32) (h : u.Kept p w) (hk : k < u.header.numRels.toNat)
    {word : UInt32} (hv : (u.movePatch p q k).value word ≠ none) : EntryStores w k := by
  rw [EntryStores, Kept.moduleEntry_eq hcon hf hend h hk]
  cases hb : isBaseRelocation (u.entry k).2 with
  | true => exact Or.inl rfl
  | false =>
    refine Or.inr ?_
    rw [movePatch] at hv
    dsimp only at hv
    cases hs : u.sym (u.entry k) with
    | none =>
      rw [hs, rebaseWord, if_neg (not_base hb).1, if_neg (not_base hb).2] at hv
      exact absurd rfl hv
    | some sym =>
      rw [hs, rebaseWord_sym hb] at hv
      refine ⟨sym.shift (u.metadataShift p), ?_, ?_⟩
      · rw [Kept.sym_eq hcon hf hend h]
        exact Option.map_eq_some_iff.mpr ⟨sym, hs, rfl⟩
      · show writesSym sym = true
        rw [writesSym]
        refine decide_eq_true ?_
        by_contra hno
        simp only [not_or] at hno
        rw [if_neg (fun hx => hx.elim hno.1 hno.2.1), if_neg hno.2.2.2] at hv
        exact hv rfl

/-- A move of an untagged module keeps the frame exactly where its words are own. -/
theorem MovedTo.frame_iff (hcon : u.Contiguous) (hf : UntaggedFits u.header u.mode)
    (hend : symtabEnd u.header < 2 ^ 32) (h : u.Kept p w) (hmv : u.MovedTo p q newRam w w')
    (hok : u.EntriesOk) (hp : p ≠ 0)
    (hpend : p.toNat + exactRamUntagged u.header u.mode ≤ 2 ^ 32) (hne : q ≠ p) :
    MoveFrame w w' ↔ WordsOwn w := by
  have hram := hf.ram
  have hheq := Kept.moduleHeader_eq h
  have hmoved := Kept.movedWord_eq hf h hmv.kept.handle.pRam
  have hslot : ∀ k, k < u.header.numRels.toNat →
      SlotInRange u.header (u.entry k).1 ∧ entrySlot w k = u.slot p (u.entry k) := fun k hk =>
    ⟨hok.inRange _ (entry_mem hk),
      Kept.entrySlot_eq hcon hf hend h hk hp (hok.inRange _ (entry_mem hk))⟩
  have hoff : ∀ k, k < u.header.numRels.toNat →
      untaggedSlotOff u.header u.mode (u.entry k).1 + 4 ≤ exactRamUntagged u.header u.mode :=
    fun k hk => by
      have hr := untaggedSlotOff_range u.mode (hslot k hk).1
      have hlot := (lot_le_codeOff u.header u.mode).trans (codeOff_le_dataOff u.header u.mode)
      rw [exactRamUntagged_eq]
      omega
  have hgo : ∀ i, i < exactRamUntagged u.header u.mode →
      movedWord w w' (p + UInt32.ofNat i) = q + UInt32.ofNat i := fun i hi => by
    rw [hmoved, if_pos (off_mem hi (by omega))]
    abel
  -- the word behind an entry
  have hword : ∀ k, k < u.header.numRels.toNat →
      w'.mem.u32 (movedWord w w' (entrySlot w k)) = ((u.movePatch p q k).value
        (w.mem.u32 (entrySlot w k))).getD (w.mem.u32 (entrySlot w k)) := fun k hk => by
    have hlt := hoff k hk
    have hcopy : (w.mem.copy q p (exactRamUntagged u.header u.mode)).u32 (u.slot q (u.entry k)) =
        w.mem.u32 (entrySlot w k) := by
      rw [(hslot k hk).2, slot, slot]
      refine u32_eq_of_bytes fun i hi => ?_
      rw [off_off, off_off, copy_off (by omega) (by omega)]
    have happly := Patch.applyAll_word (moved_pairwise (p := p) (q := q) hf hok)
      (List.mem_map_of_mem (f := u.movePatch p q) (List.mem_range'_1.mpr ⟨Nat.zero_le k, by omega⟩))
      (w.mem.copy q p (exactRamUntagged u.header u.mode))
    have hto : movedWord w w' (entrySlot w k) = (u.movePatch p q k).slot := by
      rw [(hslot k hk).2, slot, hgo _ (by omega)]
      rfl
    have hat : (u.movePatch p q k).slot = u.slot q (u.entry k) := rfl
    rw [← hmv.mem, hat, hcopy] at happly
    rw [hto, hat]
    exact happly
  have hd : ∀ v : UInt32, v + (q - p) ≠ v := fun v hv => by
    have hz : q - p = 0 := by
      rw [← off_sub v (q - p), hv, UInt32.sub_self]
    exact hne (sub_eq_zero.mp hz)
  have hiff : ∀ k, k < u.header.numRels.toNat →
      (w'.mem.u32 (movedWord w w' (entrySlot w k)) = movedWord w w' (w.mem.u32 (entrySlot w k)) ↔
        (ShiftsWord w k ↔
          w.mem.u32 (entrySlot w k) ∈ (⟨w.handle.pRam, moduleRam w⟩ : Span))) := fun k hk => by
    obtain ⟨hyes, hno⟩ := Kept.rebaseWord_eq hcon hf hend h hk rfl q
    rw [hword k hk, hmoved, h.handle.pRam, Kept.moduleRam_eq hf h]
    by_cases hs : ShiftsWord w k
    · rw [hyes hs]
      split
      next hin => exact ⟨fun _ => ⟨fun _ => hin, fun _ => hs⟩, fun _ => rfl⟩
      next hout => exact ⟨fun hx => absurd hx (hd _), fun hx => absurd (hx.mp hs) hout⟩
    · rw [hno hs]
      split
      next hin => exact ⟨fun hx => absurd hx.symm (hd _), fun hx => absurd (hx.mpr hin) hs⟩
      next hout => exact ⟨fun _ => ⟨fun hx => absurd hx hs, fun hx => absurd hx hout⟩, fun _ => rfl⟩
  constructor
  · intro hframe k ht
    exact (hiff k (hheq ▸ ht.entry)).mp (hframe.targets k ht)
  · intro hown
    refine ⟨fun a ha hno => ?_, fun k ht => (hiff k (hheq ▸ ht.entry)).mpr (hown k ht)⟩
    have hin : a ∈ (⟨p, exactRamUntagged u.header u.mode⟩ : Span) := by
      rcases ha with ha | ⟨idx, -, hidx, -⟩
      · rw [h.handle.pRam, Kept.moduleRam_eq hf h] at ha
        exact ha.1
      · rw [Kept.moduleView_num hf h] at hidx
        exact absurd hidx (Nat.not_lt_zero _)
    obtain ⟨i, hi, rfl⟩ := exists_off hin
    rw [hgo i hi, hmv.mem]
    refine (Patch.applyAll_fixed (P := (· = q + UInt32.ofNat i)) (fun r hr heff b hb hmem => ?_) _
      rfl).trans (copy_off hi (by omega))
    obtain ⟨l, hl, rfl⟩ := List.mem_map.mp hr
    have hlk : l < u.header.numRels.toNat := by
      have := (List.mem_range'_1.mp hl).2
      omega
    obtain ⟨word, hval⟩ := heff
    have hlt := hoff l hlk
    have hat : entrySlot w l = p + UInt32.ofNat (untaggedSlotOff u.header u.mode (u.entry l).1) :=
      (hslot l hlk).2
    rw [hb] at hmem
    obtain ⟨j, hj, hij⟩ := exists_off (show q + UInt32.ofNat i ∈
      (⟨q + UInt32.ofNat (untaggedSlotOff u.header u.mode (u.entry l).1), 4⟩ : Span) from hmem)
    rw [off_off] at hij
    have hin' : p + UInt32.ofNat i ∈ (⟨entrySlot w l, 4⟩ : Span) := by
      rw [hat, off_inj (by omega) (by omega) hij, ← off_off]
      exact off_mem hj (by omega)
    have hnz : entrySlot w l ≠ 0 := fun hz => by
      have hpos : 0 < p.toNat := Nat.pos_of_ne_zero fun hx => hp (UInt32.toNat_inj.mp hx)
      have hnat := congrArg UInt32.toNat (hat.symm.trans hz)
      rw [UInt32.toNat_add, toNat_ofNat_of_lt (by omega), Nat.mod_eq_of_lt (by omega)] at hnat
      have h0 : (0 : UInt32).toNat = 0 := rfl
      omega
    exact hno l ⟨hheq.symm ▸ hlk, Kept.stores_of_value hcon hf hend h hlk hval, hnz⟩ hin'

end UntaggedImage


/-! ## Sectioned modules -/

/-- An address in the block or in a tagged section of a module. -/
def PointsIn (w : State) (v : Addr) : Prop :=
  v ∈ (⟨w.handle.pRam, moduleRam w⟩ : Span) ∨
    ∃ idx, 3 ≤ idx ∧ idx < (moduleView w).num ∧
      v ∈ (⟨sectionBase w idx, (moduleSection w idx).size.toNat⟩ : Span)

/-- The word of entry `k` is where the loader has put a pointer into a section. -/
def WordFollows (w : State) (k : Nat) : Prop :=
  ∃ idx off, idx < (moduleView w).num ∧ ¬ (idx = 0 ∧ w.handle.mode = .xip) ∧
    EntryPoints w idx k off ∧ off < (moduleSection w idx).size ∧
    w.mem.u32 (entrySlot w k) = sectionBase w idx + off

/-- The word of entry `k` points out of the module, and the entry lets it be: it is no
symbol of a section, or one in place, or a weak one that is overridden. -/
def WordRests (w : State) (k : Nat) : Prop :=
  ¬ PointsIn w (w.mem.u32 (entrySlot w k)) ∧
    (isBaseRelocation (moduleEntry w k).2 = false →
      ∀ sym, (getSymAt w.handle.pHeader (moduleEntry w k).2).run w.mem = some sym →
        isOwnSymbol sym → ∀ idx, (sectFindByVa (moduleView w) sym.val).run w.mem = some idx →
          if idx = 0 ∧ w.handle.mode = .xip then
            w.mem.u32 (entrySlot w k) = ((offsetSym w.handle sym).run w.mem).val
          else sym.type = symTypeWeak ∧
            w.mem.u32 (entrySlot w k) ≠ ((offsetSym w.handle sym).run w.mem).val)

/-- Every entry finds in its word what it takes for granted there. -/
def WordsFollow (w : State) : Prop := ∀ k, Target w k → WordFollows w k ∨ WordRests w k

/-- The blocks of a module as C has them: none at the null pointer, each ends in the
address space, and none is where the text is run in place. -/
structure WholeBlocks (w : State) : Prop where
  block : moduleRam w ≠ 0 → w.handle.pRam ≠ 0
  blockEnd : w.handle.pRam.toNat + moduleRam w ≤ 2 ^ 32
  sectionStart : ∀ idx, 3 ≤ idx → idx < (moduleView w).num → (moduleSection w idx).size ≠ 0 →
    sectionBase w idx ≠ 0
  sectionEnd : ∀ idx, 3 ≤ idx → idx < (moduleView w).num →
    (sectionBase w idx).toNat + (moduleSection w idx).size.toNat ≤ 2 ^ 32
  text : w.handle.mode = .xip → (moduleView w).num ≠ 0 → ∀ a,
    a ∈ (⟨sectionBase w 0, (moduleSection w 0).size.toNat⟩ : Span) → ¬ PointsIn w a
  textEnd : w.handle.mode = .xip → (moduleView w).num ≠ 0 →
    (sectionBase w 0).toNat + (moduleSection w 0).size.toNat ≤ 2 ^ 32

theorem alongRanges_of_mem {ranges : List (Span × UInt32)} {v d : Addr} {r : Span × UInt32}
    (hr : r ∈ ranges) (hv : v ∈ r.1) (hd : ∀ r' ∈ ranges, v ∈ r'.1 → r'.2 = r.2) (he : r.2 = d) :
    alongRanges ranges v = v + d := by
  rw [alongRanges]
  cases hfind : ranges.find? fun r => decide (v ∈ r.1) with
  | some r' =>
    have hin := List.find?_some hfind
    rw [decide_eq_true_eq] at hin
    dsimp only
    rw [hd r' (List.mem_of_find?_eq_some hfind) hin, he]
  | none =>
    have hout := List.find?_eq_none.mp hfind r hr
    exact absurd (decide_eq_true hv) hout

theorem alongRanges_of_notMem {ranges : List (Span × UInt32)} {v : Addr}
    (h : ∀ r ∈ ranges, v ∉ r.1) : alongRanges ranges v = v := by
  rw [alongRanges]
  cases hfind : ranges.find? fun r => decide (v ∈ r.1) with
  | some r =>
    have hin := List.find?_some hfind
    rw [decide_eq_true_eq] at hin
    exact absurd hin (h r (List.mem_of_find?_eq_some hfind))
  | none => rfl

/-- What points out of a module goes nowhere. -/
theorem movedWord_out {w w' : State} {v : Addr} (h : ¬ PointsIn w v) : movedWord w w' v = v := by
  refine alongRanges_of_notMem fun r hr hv => ?_
  rw [moduleRanges, List.mem_cons] at hr
  rcases hr with rfl | hr
  · exact h (Or.inl hv)
  · obtain ⟨idx, hidx, rfl⟩ := List.mem_map.mp hr
    have hi := List.mem_range'_1.mp hidx
    exact h (Or.inr ⟨idx, hi.1, by omega, hv⟩)

namespace SectionedImage

variable {u : SectionedImage} {secs : Nat → Addr} {p q : Addr} {w w' : State} {idx k : Nat}
  {off : UInt32} {moves : List SectionMove} {mod : Module} {m : Mem} {newRam : Addr} {x : Nat × Nat}

/-- A byte of the block or of a tagged section, as the section and the offset. -/
def InSpot (u : SectionedImage) (x : Nat × Nat) : Prop :=
  (x.1 = 0 → x.2 < u.ram) ∧
    (x.1 ≠ 0 → 3 ≤ x.1 ∧ x.1 < u.num ∧ x.2 < (u.es x.1).size.toNat)

theorem InHome.spot (h : u.InHome x) {i : Nat} (hi : i < 4) : u.InSpot (x.1, x.2 + i) := by
  refine ⟨fun h0 => ?_, fun h0 => ?_⟩
  · have hle := (h.block h0).1
    dsimp only
    omega
  · obtain ⟨h3, hn, -, hend⟩ := h.tagged h0
    exact ⟨h3, hn, by dsimp only; omega⟩

theorem homeAddr_off (secs : Nat → Addr) (p : Addr) (x : Nat × Nat) (i : Nat) :
    homeAddr secs p x + UInt32.ofNat i = homeAddr secs p (x.1, x.2 + i) := by
  rw [homeAddr, homeAddr, off_off]

theorem InSpot.mem (h : u.InSpot x) (hf : u.Fits) :
    (x.1 = 0 → homeAddr secs p x ∈ (⟨p, u.ram⟩ : Span)) ∧
      (x.1 ≠ 0 → homeAddr secs p x ∈ (⟨secs x.1, (u.es x.1).size.toNat⟩ : Span)) := by
  have hram : u.ram < 2 ^ 32 := hf.ram
  refine ⟨fun h0 => ?_, fun h0 => ?_⟩
  · rw [homeAddr, if_pos h0]
    exact off_mem (h.1 h0) (by omega)
  · have hlt := (u.es x.1).size.toNat_lt
    rw [homeAddr, if_neg h0]
    exact off_mem (h.2 h0).2.2 (by omega)

/-- A byte of a home is the same byte of it at every place. -/
theorem InSpot.home_mem {secs' : Nat → Addr} {y : Nat × Nat} (hx : u.InSpot x) (hy : u.InHome y)
    (hf : u.Fits) (hroom : TaggedRoom u.es secs' u.num ⟨q, u.ram⟩)
    (hin : homeAddr secs' q x ∈ (⟨homeAddr secs' q y, 4⟩ : Span)) :
    homeAddr secs p x ∈ (⟨homeAddr secs p y, 4⟩ : Span) := by
  have hram : u.ram < 2 ^ 32 := hf.ram
  obtain ⟨i, hi, he⟩ := exists_off hin
  rw [homeAddr_off] at he
  obtain ⟨hyb, hyt⟩ : (y.1 = 0 → y.2 + i < u.ram) ∧
      (y.1 ≠ 0 → 3 ≤ y.1 ∧ y.1 < u.num ∧ y.2 + i < (u.es y.1).size.toNat) := hy.spot hi
  obtain ⟨hx0, hx1⟩ : (x.1 = 0 → homeAddr secs' q x ∈ (⟨q, u.ram⟩ : Span)) ∧
      (x.1 ≠ 0 → homeAddr secs' q x ∈ (⟨secs' x.1, (u.es x.1).size.toNat⟩ : Span)) := hx.mem hf
  obtain ⟨hy0, hy1⟩ : (y.1 = 0 → homeAddr secs' q (y.1, y.2 + i) ∈ (⟨q, u.ram⟩ : Span)) ∧
      (y.1 ≠ 0 → homeAddr secs' q (y.1, y.2 + i) ∈
        (⟨secs' y.1, (u.es y.1).size.toNat⟩ : Span)) := (hy.spot hi).mem hf
  have hne : ∀ j, (u.es j).size.toNat ≠ 0 → (u.es j).size ≠ 0 := fun j hz hs => hz (by rw [hs]; rfl)
  have hsame : x.1 = y.1 := by
    by_contra hdiff
    by_cases h0 : x.1 = 0
    · have hy' : y.1 ≠ 0 := fun h => hdiff (h0.trans h.symm)
      obtain ⟨h3, hn, hlt⟩ := hyt hy'
      exact hroom.block y.1 h3 hn (hne _ (by omega)) _ (hy1 hy') (he ▸ hx0 h0)
    · obtain ⟨h3, hn, hlt⟩ := hx.2 h0
      by_cases hy' : y.1 = 0
      · exact hroom.block x.1 h3 hn (hne _ (by omega)) _ (hx1 h0) (he ▸ hy0 hy')
      · obtain ⟨hy3, hyn, hylt⟩ := hyt hy'
        rcases Nat.lt_or_gt_of_ne hdiff with hlt' | hgt
        · exact hroom.pairwise x.1 y.1 h3 hlt' hyn (hne _ (by omega)) (hne _ (by omega)) _ (hx1 h0)
            (he ▸ hy1 hy')
        · exact hroom.pairwise y.1 x.1 hy3 hgt hn (hne _ (by omega)) (hne _ (by omega)) _
            (he ▸ hy1 hy') (hx1 h0)
  have hoff : x.2 = y.2 + i := by
    rw [homeAddr, homeAddr, hsame] at he
    refine off_inj ?_ ?_ he
    · by_cases h0 : x.1 = 0
      · have := hx.1 h0
        omega
      · have := (hx.2 h0).2.2
        have := (u.es x.1).size.toNat_lt
        omega
    · by_cases h0 : y.1 = 0
      · have := hyb h0
        omega
      · have := (hyt h0).2.2
        have := (u.es y.1).size.toNat_lt
        omega
  have hx' : x = (y.1, y.2 + i) := Prod.ext hsame hoff
  rw [hx', ← homeAddr_off]
  exact off_mem hi (by omega)

end SectionedImage

end Udynlink
