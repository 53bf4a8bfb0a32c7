import Udynlink.SectionedKept

/-!
# A sectioned move

The block is copied, the walk follows the moved sections, the new bases are
recorded: the module is in place again, at the new block with the new bases.
-/

namespace Udynlink

open Machine

/-- Base of a section behind the moves. -/
def movedBase (secs : Nat → Addr) (moves : List SectionMove) (idx : Nat) : Addr :=
  match moves.find? fun mv => mv.idx.toNat == idx with
  | some mv => mv.newBase
  | none => secs idx

section

variable {h : Header} {es : Nat → SectEntry} {mode : LoadMode} {secs : Nat → Addr} {p x : Addr}
  {mod : Module} {ctx : SectRebase} {m : Mem} {idx : Nat}

/-- A moved section has its new base, every other one the base it had. -/
theorem SectionedAt.sectBaseNew_run (hs : SectionedAt h es mode secs p mod ctx.tab m)
    (hf : SectionedFits h ctx.tab.num es mode) (hmoves : ∀ mv ∈ ctx.moves, 3 ≤ mv.idx.toNat)
    (hi : idx < ctx.tab.num) (hfirst : firstPlaced mode ≤ idx) :
    (idx < 3 → (sectBaseNew ctx mod idx).run m = mainDest h ctx.tab.num es mode p idx) ∧
      (3 ≤ idx → p ≠ 0 → (es idx).size ≠ 0 →
        (sectBaseNew ctx mod idx).run m = movedBase secs ctx.moves idx) := by
  obtain ⟨hb1, hb2⟩ := hs.base_run hf hi hfirst
  rw [sectBaseNew, movedBase]
  cases hfind : ctx.moves.find? fun mv => mv.idx.toNat == idx with
  | none => exact ⟨hb1, hb2⟩
  | some mv =>
    refine ⟨fun h3 => ?_, fun _ _ _ => rfl⟩
    have hle := hmoves mv (List.mem_of_find?_eq_some hfind)
    have heq := List.find?_some hfind
    rw [beq_iff_eq] at heq
    omega

/-- The class of an entry with contents. -/
theorem code_or_data {cls : UInt32} (hle : cls ≤ secClassBss) (hne : cls ≠ secClassBss) :
    cls = secClassCode ∨ cls = secClassData := by
  have hlt : cls.toNat ≤ 2 := UInt32.le_iff_toNat_le.mp hle
  have hne' : cls.toNat ≠ 2 := fun h => hne (UInt32.toNat_inj.mp h)
  rcases (show cls.toNat = 0 ∨ cls.toNat = 1 by omega) with h0 | h1
  · exact Or.inl (UInt32.toNat_inj.mp h0)
  · exact Or.inr (UInt32.toNat_inj.mp h1)

/-- The slot of an entry behind the LOT is a word of the moved module. -/
theorem SectionedAt.sectionedSlot_at (hs : SectionedAt h es mode secs p mod ctx.tab m)
    (hf : SectionedFits h ctx.tab.num es mode) (hmoves : ∀ mv ∈ ctx.moves, 3 ≤ mv.idx.toNat)
    (hp : 3 < ctx.tab.num → p ≠ 0) {lotOffset : UInt32} (hlot : ¬ lotOffset < h.numLot.toUInt32)
    (hc : TargetContained h ctx.tab.num es mode
      ((sectFindByVa ctx.tab (relocVa h lotOffset)).run m) lotOffset)
    (hx : (sectionedSlot ctx mod h lotOffset).run m = some x) :
    SlotAt h ctx.tab.num es mode (movedBase secs ctx.moves) p x := by
  rw [sectionedSlot, Reader.run_bind] at hx
  cases hfind : (sectFindByVa ctx.tab (relocVa h lotOffset)).run m with
  | none =>
    rw [hfind] at hx
    simp at hx
  | some idx =>
    have hi := sectFindByVa_lt hfind
    rw [hfind] at hx
    dsimp only at hx
    rw [Reader.run_bind, sectEntryAt_run, hs.entries idx hi, Reader.run_ite] at hx
    split at hx
    next => simp at hx
    next hcls =>
      rw [Reader.run_bind, Reader.run_pure, Option.some.injEq] at hx
      obtain ⟨hfirst, hmain, htag⟩ := (hc.resolve_left hlot) idx hfind
        (code_or_data (hf.table.cls_le hi) hcls)
      obtain ⟨hb1, hb2⟩ := hs.sectBaseNew_run hf hmoves hi hfirst
      rw [← hx]
      by_cases h3 : idx < 3
      · have hlo := hf.start_le hfirst h3
        rw [hb1 h3, mainDest]
        exact .main (exactMainOffset h ctx.tab.num es mode idx +
            (relocVa h lotOffset - (es idx).va).toNat) (by omega) (hmain h3)
          (by rw [UInt32.ofNat_add, UInt32.ofNat_toNat, UInt32.add_assoc])
      · have hend := htag (by omega)
        have hsz : (es idx).size ≠ 0 := by
          intro hz
          rw [hz] at hend
          exact absurd hend (by simp)
        rw [hb2 (by omega) (hp (by omega)) hsz]
        exact .tagged idx (relocVa h lotOffset - (es idx).va).toNat (by omega) hi hsz hend
          (by rw [UInt32.ofNat_toNat])

theorem SectionedAt.rebaseSlot_at (hs : SectionedAt h es mode secs p mod ctx.tab m)
    (hf : SectionedFits h ctx.tab.num es mode) (hmoves : ∀ mv ∈ ctx.moves, 3 ≤ mv.idx.toNat)
    (hp : 3 < ctx.tab.num → p ≠ 0) {e : UInt32 × UInt32}
    (hc : TargetContained h ctx.tab.num es mode
      ((sectFindByVa ctx.tab (relocVa h e.1)).run m) e.1)
    (hx : (rebaseSectionedSlot ctx mod h e).run m = some x) :
    SlotAt h ctx.tab.num es mode (movedBase secs ctx.moves) p x := by
  rw [rebaseSectionedSlot, Reader.run_ite] at hx
  split at hx
  next =>
    rw [Reader.run_ite] at hx
    split at hx
    next => simp at hx
    next hlot => exact hs.sectionedSlot_at hf hmoves hp hlot hc hx
  next =>
    rw [symSlot, Reader.run_ite] at hx
    split at hx
    next hlot =>
      rw [Reader.run_pure, Option.some.injEq, hs.pRam] at hx
      rw [UInt32.lt_iff_toNat_lt, UInt16.toNat_toUInt32] at hlot
      exact .lot e.1.toNat hlot (by rw [← hx, mul_four_ofNat])
    next hlot => exact hs.sectionedSlot_at hf hmoves hp hlot hc hx

end

/-! ## Views with the same entries -/

section

variable {tab tab' : SectView} {m m' : Mem}

theorem sectFindLoop_entries (hnum : tab.num = tab'.num)
    (he : ∀ i, i < tab.num → entriesAt m tab.pEntries i = entriesAt m' tab'.pEntries i)
    (va : UInt32) {n i : Nat} (hi : i + n ≤ tab.num) :
    (sectFindLoop tab va n i).run m = (sectFindLoop tab' va n i).run m' := by
  induction n generalizing i with
  | zero => rfl
  | succ n ih =>
    have hspan : (entrySpan tab i (entriesAt m' tab'.pEntries i)).run m =
        (entrySpan tab' i (entriesAt m' tab'.pEntries i)).run m' := by
      rw [entrySpan, entrySpan, Reader.run_ite, Reader.run_ite, ← hnum]
      split
      next hc =>
        simp only [Bool.and_eq_true, decide_eq_true_eq] at hc
        rw [Reader.run_bind, Reader.run_bind, sectEntryAt_run, sectEntryAt_run, he _ hc.2]
        rfl
      next => rfl
    rw [sectFindLoop, sectFindLoop, Reader.run_bind, Reader.run_bind, sectEntryAt_run,
      sectEntryAt_run, he i (by omega), Reader.run_ite, Reader.run_ite]
    split
    next => rfl
    next =>
      rw [Reader.run_bind, Reader.run_bind, hspan, Reader.run_ite, Reader.run_ite]
      split
      next => rfl
      next => exact ih (by omega)

theorem sectFindByVa_entries (hnum : tab.num = tab'.num)
    (he : ∀ i, i < tab.num → entriesAt m tab.pEntries i = entriesAt m' tab'.pEntries i)
    (va : UInt32) : (sectFindByVa tab va).run m = (sectFindByVa tab' va).run m' := by
  rw [sectFindByVa, sectFindByVa, ← hnum]
  exact sectFindLoop_entries hnum he va (by omega)

end

namespace SectionedImage

variable {u : SectionedImage} {secs : Nat → Addr} {p q oldRam : Addr} {mod : Module} {m : Mem}
  {moves : List SectionMove}

/-- Entry `k` stores a word: it is a base, or names a symbol of the module. -/
theorem Placed.rebase_writes (h : u.Placed secs p mod m) (hf : u.Fits) {ctx : SectRebase} {k : Nat}
    (hk : k < u.header.numRels.toNat) {word : UInt32}
    (hw : (rebasePatchAt ctx mod (getRelocsPointer mod.pHeader u.header) m k).value word ≠ none) :
    entryWrites u.source u.m k = true := by
  have hentry := h.entry hf hk
  rw [entryWrites]
  cases hb : isBaseRelocation ((readRelocation u.source.pRelocations k).run u.m).2 with
  | true => rfl
  | false =>
    rw [Bool.false_or]
    unfold rebasePatchAt at hw
    dsimp only at hw
    rw [hentry, h.sym hf (isBaseRelocation_eq_false hb)] at hw
    unfold rebasePatch at hw
    split at hw
    next => exact absurd rfl hw
    next =>
      dsimp only at hw
      unfold rebaseSectionedWord at hw
      rw [if_neg (by rw [hb]; exact Bool.false_ne_true)] at hw
      cases hs : relocSym u.source u.m ((readRelocation u.source.pRelocations k).run u.m).2 with
      | none =>
        rw [hs] at hw
        exact absurd rfl hw
      | some sym =>
        rw [hs] at hw
        by_cases hown : isOwnSymbol sym
        · rw [isOwnSymbol] at hown
          show writesSym sym = true
          rw [writesSym]
          exact decide_eq_true (by tauto)
        · refine absurd ?_ hw
          exact if_neg hown

/-- What the walk of a move reads is no word it writes. -/
theorem Placed.rebaseIn (h : u.Placed secs p mod m) (hf : u.Fits) (hc : u.Contained)
    (hp : 3 < u.num → p ≠ 0) (hmoves : ∀ mv ∈ moves, 3 ≤ mv.idx.toNat)
    (ha : u.Apart (movedBase secs moves) p)
    (hold : ∀ i, i < u.num → entriesAt m (sectView q u.header).pEntries i = u.es i)
    (hview : Covers (u.Fixed (movedBase secs moves) p) ⟨q, exactCodeOffset u.header⟩) :
    RebaseIn (u.Fixed (movedBase secs moves) p) ⟨sectView q u.header, oldRam, moves⟩ mod
      (getRelocsPointer mod.pHeader u.header) u.header.numRels.toNat m := by
  have hlt := hf.table.exactCodeOffset_lt
  have hnum := hf.main
  have hcount := hf.table.count
  have hmeta := h.metadata_fixed hf ha
  have hhead := header_le_codeOffset (h := u.header) (by omega)
  have hat : SectionedAt u.header u.es u.mode secs p mod (sectView q u.header) m :=
    ⟨h.pRam, h.mode, h.header hf, hold, h.bases⟩
  refine ⟨⟨fun _ i hi => ?_⟩, ⟨?_, fun j hj hj' => ?_⟩, ?_, ?_, fun k hk hne a hfix => ?_⟩
  · have hle := table_le_codeOffset (h := u.header) (i := i) (by
      have hi' : i < (getNumSectionsRaw u.header).toNat ∨ i < 3 := hi
      omega)
    have hq : (sectView q u.header).pEntries = q + UInt32.ofNat (exactSymtabEnd u.header) := by
      rw [← getSymtabEndOffset_eq]
      rfl
    rw [hq, off_off]
    exact hview.mono (off_subset (by omega) (by omega))
  · exact hmeta.mono (prefix_subset hhead)
  · rw [h.header hf, baseSlot_eq, h.pRam]
    exact bases_fixed hf hj hj'
  · exact hmeta.mono (relocs_subset hf mod.pHeader)
  · rw [h.header hf]
    exact hmeta.mono (symtab_subset hf mod.pHeader)
  · obtain ⟨word, hw⟩ := hne
    have hcon := hc k hk (h.rebase_writes hf hk hw)
    have hfind := @sectFindByVa_entries (sectView q u.header) u.tab m u.m rfl hold
    rw [← h.entry hf hk, ← hfind] at hcon
    cases hs : (rebaseSectionedSlot ⟨sectView q u.header, oldRam, moves⟩ mod
        (decodeHeader m mod.pHeader)
        ((readRelocation (getRelocsPointer mod.pHeader u.header) k).run m)).run m with
    | none =>
      unfold rebasePatchAt at hw
      dsimp only at hw
      rw [rebasePatch_none hs] at hw
      exact absurd rfl hw
    | some x =>
      have hspan : (rebasePatchAt ⟨sectView q u.header, oldRam, moves⟩ mod
          (getRelocsPointer mod.pHeader u.header) m k).span = ⟨x, 4⟩ := by
        unfold rebasePatchAt
        dsimp only
        rw [rebasePatch_some hs]
        rfl
      rw [h.header hf] at hs
      have hslot := @SectionedAt.rebaseSlot_at u.header u.es u.mode secs p x mod
        ⟨sectView q u.header, oldRam, moves⟩ m hat hf hmoves hp _ hcon hs
      rw [hspan]
      exact hslot.clear hf ha.room hfix

end SectionedImage

end Udynlink
