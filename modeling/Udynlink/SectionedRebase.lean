import Udynlink.SectionedWalk
import Udynlink.Relocate

/-!
# The walk of a sectioned move

One entry is one word patch, as in a load: the slot is where the word is after
the move, the value follows from the old and the new bases. The walk applies the
patches of the memory it found when none of them touches what it reads.
-/

namespace Udynlink

open Machine

/-! ## One entry -/

/-- The slot of an entry; a base entry has none in the LOT. -/
def rebaseSectionedSlot (ctx : SectRebase) (mod : Module) (h : Header)
    (e : UInt32 × UInt32) : Reader (Option Addr) :=
  if isBaseRelocation e.2 then
    if e.1 < h.numLot.toUInt32 then pure none else sectionedSlot ctx mod h e.1
  else symSlot ctx mod h e.1

/-- A symbol of the module is computed again; a weak one only where the word is
still the module's own. -/
def rebaseSectionedSymWord (ctx : SectRebase) (mod : Module) (m : Mem) (sym : Sym)
    (word : UInt32) : Option UInt32 :=
  if isOwnSymbol sym then
    match (sectFindByVa ctx.tab sym.val).run m with
    | none => none
    | some si =>
      let off := sym.val - (entriesAt m ctx.tab.pEntries si).va
      if sym.type = symTypeWeak ∧ word ≠ (sectBaseOld ctx mod si).run m + off then none
      else some ((sectBaseNew ctx mod si).run m + off)
  else none

/-- The word an entry leaves, `none` when it leaves the word alone. -/
def rebaseSectionedWord (ctx : SectRebase) (mod : Module) (m : Mem) (symtOffset : UInt32)
    (sym? : Option Sym) (word : UInt32) : Option UInt32 :=
  if isBaseRelocation symtOffset then
    ((sectFindByRuntime ctx mod word).run m).map fun si =>
      word + ((sectBaseNew ctx mod si).run m - (sectBaseOld ctx mod si).run m)
  else match sym? with
    | none => none
    | some sym => rebaseSectionedSymWord ctx mod m sym word

def rebasePatch (ctx : SectRebase) (mod : Module) (m : Mem) (h : Header) (e : UInt32 × UInt32)
    (sym? : Option Sym) : Patch :=
  match (rebaseSectionedSlot ctx mod h e).run m with
  | none => ⟨0, fun _ => none⟩
  | some p => ⟨p, rebaseSectionedWord ctx mod m e.2 sym?⟩

section

variable {ctx : SectRebase} {w w' : State} {m : Mem} {h : Header} {e : UInt32 × UInt32}
  {sym? : Option Sym} {mod : Module} {p : Addr}

theorem rebasePatch_none (hs : (rebaseSectionedSlot ctx mod h e).run m = none) :
    rebasePatch ctx mod m h e sym? = ⟨0, fun _ => none⟩ := by
  rw [rebasePatch, hs]

theorem rebasePatch_some (hs : (rebaseSectionedSlot ctx mod h e).run m = some p) :
    rebasePatch ctx mod m h e sym? = ⟨p, rebaseSectionedWord ctx mod m e.2 sym?⟩ := by
  rw [rebasePatch, hs]

/-- Doing nothing is the patch that leaves the word alone. -/
theorem did_pure {value : UInt32 → Option UInt32} {as : List Addr}
    (h : (pure () : Loader Unit).run (w.log (readEvents as)) = (.ok (), w'))
    (hv : value (w.mem.u32 p) = none) :
    w'.handle = w.handle ∧ Did w w' (Patch.apply ⟨p, value⟩) [⟨p, 4⟩] [] := by
  rw [Prog.run_pure, Prod.mk.injEq] at h
  rw [← h.2]
  refine ⟨rfl, ?_⟩
  exact Did.weaken (Did.no_patch (Did.log w as) hv) (List.nil_subset _)

theorem did_set32 {value : UInt32 → Option UInt32} {as : List Addr} {v : UInt32}
    (h : (Prog.set32 p v : Loader Unit).run (w.log (readEvents as)) = (.ok (), w'))
    (hv : value (w.mem.u32 p) = some v) :
    w'.handle = w.handle ∧ Did w w' (Patch.apply ⟨p, value⟩) [⟨p, 4⟩] [] := by
  obtain ⟨hh, hd⟩ := did_log_set32 h
  exact ⟨hh, Did.patch hd rfl hv⟩

theorem rebaseSectionedSym_run {sym : Sym} {as : List Addr}
    (hr : (rebaseSectionedSym ctx p sym).run (w.log (readEvents as)) = (.ok (), w')) :
    w'.handle = w.handle ∧
      Did w w' (Patch.apply ⟨p, rebaseSectionedSymWord ctx w.handle w.mem sym⟩) [⟨p, 4⟩] [] := by
  rw [rebaseSectionedSym, Prog.run_getHandle_bind, World.log_handle] at hr
  split at hr
  next hown =>
    have hown' : isOwnSymbol sym := hown
    rw [Prog.run_lift_bind, World.log_mem, World.log_log, ← readEvents_append] at hr
    cases hf : (sectFindByVa ctx.tab sym.val).run w.mem with
    | none =>
      rw [hf] at hr
      refine did_pure hr ?_
      rw [rebaseSectionedSymWord, if_pos hown', hf]
    | some si =>
      rw [hf] at hr
      dsimp only at hr
      rw [Prog.run_lift_bind, sectEntryAt_run, World.log_mem, World.log_log, ← readEvents_append,
        Prog.run_lift_bind, World.log_mem, World.log_log, ← readEvents_append] at hr
      split at hr
      next hweak =>
        rw [Prog.run_lift_bind, World.log_mem, World.log_log, ← readEvents_append,
          Prog.run_lift_bind, World.log_mem, World.log_log, ← readEvents_append] at hr
        split at hr
        next heq =>
          refine did_set32 hr ?_
          rw [rebaseSectionedSymWord, if_pos hown', hf]
          exact if_neg fun hx => hx.2 heq
        next heq =>
          refine did_pure hr ?_
          rw [rebaseSectionedSymWord, if_pos hown', hf]
          exact if_pos ⟨hweak, heq⟩
      next hweak =>
        refine did_set32 hr ?_
        rw [rebaseSectionedSymWord, if_pos hown', hf]
        exact if_neg fun hx => hweak hx.1
  next hown =>
    have hown' : ¬ isOwnSymbol sym := hown
    refine did_pure hr ?_
    rw [rebaseSectionedSymWord, if_neg hown']

theorem rebaseSectionedBase_run {symtOffset : UInt32} {as : List Addr}
    (hb : isBaseRelocation symtOffset = true)
    (hr : (rebaseSectionedBase ctx e.1).run (w.log (readEvents as)) = (.ok (), w'))
    (he : e.2 = symtOffset) :
    w'.handle = w.handle ∧ Did w w' (Patch.apply (rebasePatch ctx w.handle w.mem
      (decodeHeader w.mem w.handle.pHeader) e sym?))
      [(rebasePatch ctx w.handle w.mem (decodeHeader w.mem w.handle.pHeader) e sym?).span] [] := by
  rw [← he] at hb
  rw [rebaseSectionedBase, Prog.run_getHandle_bind, World.log_handle, Prog.run_lift_bind,
    readHeader_run, World.log_mem, World.log_log, ← readEvents_append] at hr
  split at hr
  next hlot =>
    have hs : (rebaseSectionedSlot ctx w.handle (decodeHeader w.mem w.handle.pHeader) e).run w.mem =
        none := by rw [rebaseSectionedSlot, if_pos hb, if_pos hlot, Reader.run_pure]
    rw [rebasePatch_none hs]
    exact did_pure hr rfl
  next hlot =>
    have hs : (rebaseSectionedSlot ctx w.handle (decodeHeader w.mem w.handle.pHeader) e).run w.mem =
        (sectionedSlot ctx w.handle (decodeHeader w.mem w.handle.pHeader) e.1).run w.mem := by
      rw [rebaseSectionedSlot, if_pos hb, if_neg hlot]
    rw [Prog.run_lift_bind, World.log_mem, World.log_log, ← readEvents_append] at hr
    cases hslot : (sectionedSlot ctx w.handle (decodeHeader w.mem w.handle.pHeader) e.1).run
        w.mem with
    | none =>
      rw [hslot] at hr hs
      rw [rebasePatch_none hs]
      exact did_pure hr rfl
    | some q =>
      rw [hslot] at hr hs
      rw [rebasePatch_some hs]
      dsimp only at hr
      rw [Prog.run_lift_bind, Reader.run_u32, World.log_mem, World.log_log, ← readEvents_append,
        Prog.run_lift_bind, World.log_mem, World.log_log, ← readEvents_append] at hr
      cases hf : (sectFindByRuntime ctx w.handle (w.mem.u32 q)).run w.mem with
      | none =>
        rw [hf] at hr
        refine did_pure hr ?_
        unfold rebaseSectionedWord
        rw [if_pos hb, hf]
        rfl
      | some si =>
        rw [hf] at hr
        dsimp only at hr
        rw [Prog.run_lift_bind, World.log_mem, World.log_log, ← readEvents_append,
          Prog.run_lift_bind, World.log_mem, World.log_log, ← readEvents_append] at hr
        refine did_set32 hr ?_
        unfold rebaseSectionedWord
        rw [if_pos hb, hf]
        rfl

theorem rebaseSectionedRelocation_run {as : List Addr}
    (hr : (rebaseSectionedRelocation ctx e.1 e.2).run (w.log (readEvents as)) = (.ok (), w')) :
    w'.handle = w.handle ∧ Did w w' (Patch.apply (rebasePatch ctx w.handle w.mem
      (decodeHeader w.mem w.handle.pHeader) e ((getSymAt w.handle.pHeader e.2).run w.mem)))
      [(rebasePatch ctx w.handle w.mem (decodeHeader w.mem w.handle.pHeader) e
        ((getSymAt w.handle.pHeader e.2).run w.mem)).span] [] := by
  rw [rebaseSectionedRelocation, Prog.run_getHandle_bind, World.log_handle, Prog.run_lift_bind,
    readHeader_run, World.log_mem, World.log_log, ← readEvents_append] at hr
  cases hb : isBaseRelocation e.2 with
  | true =>
    rw [if_pos hb] at hr
    exact rebaseSectionedBase_run hb hr rfl
  | false =>
    rw [if_neg (by rw [hb]; decide), Prog.run_lift_bind, World.log_mem, World.log_log,
      ← readEvents_append] at hr
    have hslotEq : (rebaseSectionedSlot ctx w.handle (decodeHeader w.mem w.handle.pHeader) e).run
        w.mem = (symSlot ctx w.handle (decodeHeader w.mem w.handle.pHeader) e.1).run w.mem := by
      rw [rebaseSectionedSlot, if_neg (by rw [hb]; decide)]
    have hword : ∀ (s? : Option Sym) (word : UInt32),
        rebaseSectionedWord ctx w.handle w.mem e.2 s? word =
          match s? with
          | none => none
          | some sym => rebaseSectionedSymWord ctx w.handle w.mem sym word := fun s? word => by
      unfold rebaseSectionedWord
      rw [if_neg (by rw [hb]; decide)]
    cases hsym : (getSymAt w.handle.pHeader e.2).run w.mem with
    | none =>
      rw [hsym] at hr
      cases hs : (rebaseSectionedSlot ctx w.handle (decodeHeader w.mem w.handle.pHeader) e).run
          w.mem with
      | none =>
        rw [rebasePatch_none hs]
        exact did_pure hr rfl
      | some q =>
        rw [rebasePatch_some hs]
        exact did_pure hr (hword none _)
    | some sym =>
      rw [hsym] at hr
      dsimp only at hr
      rw [Prog.run_lift_bind, World.log_mem, World.log_log, ← readEvents_append] at hr
      cases hs : (symSlot ctx w.handle (decodeHeader w.mem w.handle.pHeader) e.1).run w.mem with
      | none =>
        rw [hs] at hr hslotEq
        rw [rebasePatch_none hslotEq]
        exact did_pure hr rfl
      | some q =>
        rw [hs] at hr hslotEq
        rw [rebasePatch_some hslotEq]
        have hval : rebaseSectionedWord ctx w.handle w.mem e.2 (some sym) =
            rebaseSectionedSymWord ctx w.handle w.mem sym := funext fun word => hword (some sym) word
        rw [hval]
        exact rebaseSectionedSym_run hr

end

/-! ## What the walk reads -/

section

variable {P : Addr → Prop} {ctx : SectRebase} {mod : Module} {m m' : Mem}

theorem within_sectBaseOld (hv : ViewIn P ctx.tab) (hm : ModIn P mod ctx.tab.num m) {idx : Nat}
    (hi : idx < ctx.tab.num) : (sectBaseOld ctx mod idx).Within P m := by
  rw [sectBaseOld]
  refine Reader.within_ite (fun h3 => ?_) fun _ => within_getSectionBaseIdx hv hm hi
  rw [Reader.within_bind]
  refine ⟨within_readHeader hm.header m, ?_⟩
  refine Reader.within_ite (fun _ => Reader.within_pure P _ m) fun _ => ?_
  rw [Reader.within_bind]
  exact ⟨within_getMainSectionOffset hv _ _ h3 m, Reader.within_pure P _ m⟩

theorem within_sectBaseNew (hv : ViewIn P ctx.tab) (hm : ModIn P mod ctx.tab.num m) {idx : Nat}
    (hi : idx < ctx.tab.num) : (sectBaseNew ctx mod idx).Within P m := by
  rw [sectBaseNew]
  split
  · exact Reader.within_pure P _ m
  · exact within_getSectionBaseIdx hv hm hi

theorem sectFindByRuntimeLoop_lt {addr : Addr} {n i k : Nat}
    (h : (sectFindByRuntimeLoop ctx mod addr n i).run m = some k) : i ≤ k ∧ k < i + n := by
  induction n generalizing i with
  | zero => exact absurd h (by simp [sectFindByRuntimeLoop])
  | succ n ih =>
    rw [sectFindByRuntimeLoop, Reader.run_bind, Reader.run_bind, Reader.run_ite] at h
    split at h
    next =>
      simp only [Reader.run_pure, Option.some.injEq] at h
      omega
    next =>
      have := ih h
      omega

theorem within_sectFindByRuntimeLoop (hv : ViewIn P ctx.tab) (hm : ModIn P mod ctx.tab.num m)
    (addr : Addr) {n i : Nat} (hi : i + n ≤ ctx.tab.num) :
    (sectFindByRuntimeLoop ctx mod addr n i).Within P m := by
  induction n generalizing i with
  | zero => exact Reader.within_pure P _ m
  | succ n ih =>
    rw [sectFindByRuntimeLoop, Reader.within_bind, Reader.within_bind]
    refine ⟨within_sectEntryAt hv (by omega) (Or.inl (by omega)) m,
      within_sectBaseOld hv hm (by omega), ?_⟩
    exact Reader.within_ite (fun _ => Reader.within_pure P _ m) fun _ => ih (by omega)

theorem within_sectionedSlot (hv : ViewIn P ctx.tab) (hm : ModIn P mod ctx.tab.num m) (h : Header)
    (lotOffset : UInt32) : (sectionedSlot ctx mod h lotOffset).Within P m := by
  rw [sectionedSlot, Reader.within_bind]
  refine ⟨within_sectFindByVa hv _ m, ?_⟩
  cases hf : (sectFindByVa ctx.tab (relocVa h lotOffset)).run m with
  | none => exact Reader.within_pure P _ m
  | some ti =>
    have hi := sectFindByVa_lt hf
    rw [Reader.within_bind]
    refine ⟨within_sectEntryAt hv (by omega) (Or.inl hi) m, ?_⟩
    refine Reader.within_ite (fun _ => Reader.within_pure P _ m) fun _ => ?_
    rw [Reader.within_bind]
    exact ⟨within_sectBaseNew hv hm hi, Reader.within_pure P _ m⟩

theorem within_rebaseSectionedSlot (hv : ViewIn P ctx.tab) (hm : ModIn P mod ctx.tab.num m)
    (h : Header) (e : UInt32 × UInt32) : (rebaseSectionedSlot ctx mod h e).Within P m := by
  rw [rebaseSectionedSlot]
  refine Reader.within_ite (fun _ => ?_) fun _ => ?_
  · exact Reader.within_ite (fun _ => Reader.within_pure P _ m)
      fun _ => within_sectionedSlot hv hm h e.1
  · rw [symSlot]
    exact Reader.within_ite (fun _ => Reader.within_pure P _ m)
      fun _ => within_sectionedSlot hv hm h e.1

theorem rebaseSectionedWord_congr (hv : ViewIn P ctx.tab) (hm : ModIn P mod ctx.tab.num m)
    (ha : ∀ a, P a → m a = m' a) (symtOffset : UInt32) (sym? : Option Sym) :
    rebaseSectionedWord ctx mod m' symtOffset sym? =
      rebaseSectionedWord ctx mod m symtOffset sym? := by
  funext word
  have hnew : ∀ si, si < ctx.tab.num →
      (sectBaseNew ctx mod si).run m' = (sectBaseNew ctx mod si).run m :=
    fun si hi => (within_sectBaseNew hv hm hi).congr ha
  have hold : ∀ si, si < ctx.tab.num →
      (sectBaseOld ctx mod si).run m' = (sectBaseOld ctx mod si).run m :=
    fun si hi => (within_sectBaseOld hv hm hi).congr ha
  unfold rebaseSectionedWord
  split
  next =>
    have hfind : (sectFindByRuntime ctx mod word).run m' = (sectFindByRuntime ctx mod word).run m :=
      (within_sectFindByRuntimeLoop hv hm word (by omega)).congr ha
    rw [hfind]
    cases hf : (sectFindByRuntime ctx mod word).run m with
    | none => rfl
    | some si =>
      have hi := (sectFindByRuntimeLoop_lt hf).2
      rw [Option.map_some, Option.map_some, hnew si (by omega), hold si (by omega)]
  next =>
    cases sym? with
    | none => rfl
    | some sym =>
      dsimp only
      unfold rebaseSectionedSymWord
      rw [(within_sectFindByVa hv sym.val m).congr ha]
      cases hf : (sectFindByVa ctx.tab sym.val).run m with
      | none => rfl
      | some si =>
        have hi := sectFindByVa_lt hf
        have he : entriesAt m' ctx.tab.pEntries si = entriesAt m ctx.tab.pEntries si :=
          (within_sectEntryAt hv (by omega) (Or.inl hi) m).congr ha
        dsimp only
        rw [hnew si hi, hold si hi, he]

theorem rebasePatch_congr (hv : ViewIn P ctx.tab) (hm : ModIn P mod ctx.tab.num m)
    (ha : ∀ a, P a → m a = m' a) (h : Header) (e : UInt32 × UInt32) (sym? : Option Sym) :
    rebasePatch ctx mod m' h e sym? = rebasePatch ctx mod m h e sym? := by
  unfold rebasePatch
  rw [(within_rebaseSectionedSlot hv hm h e).congr ha, rebaseSectionedWord_congr hv hm ha]

/-- A base entry looks up no symbol. -/
theorem rebasePatch_base {h : Header} {e : UInt32 × UInt32} (hb : isBaseRelocation e.2 = true)
    (s t : Option Sym) : rebasePatch ctx mod m h e s = rebasePatch ctx mod m h e t := by
  have hw : rebaseSectionedWord ctx mod m e.2 s = rebaseSectionedWord ctx mod m e.2 t := by
    funext word
    unfold rebaseSectionedWord
    rw [if_pos hb, if_pos hb]
  unfold rebasePatch
  rw [hw]

end

/-! ## The walk -/

/-- Entry `k` of the table at `pRels`, as a patch of the memory `m`. -/
def rebasePatchAt (ctx : SectRebase) (mod : Module) (pRels : Addr) (m : Mem) (k : Nat) : Patch :=
  let e := (readRelocation pRels k).run m
  rebasePatch ctx mod m (decodeHeader m mod.pHeader) e ((getSymAt mod.pHeader e.2).run m)

/-- What the walk reads, and what it must therefore leave alone. -/
structure RebaseIn (P : Addr → Prop) (ctx : SectRebase) (mod : Module) (pRels : Addr)
    (numRels : Nat) (m : Mem) : Prop where
  view : ViewIn P ctx.tab
  own : ModIn P mod ctx.tab.num m
  relocs : Covers P ⟨pRels, 8 * numRels⟩
  symt : Covers P ⟨getSymTablePointer mod.pHeader (decodeHeader m mod.pHeader),
    (decodeHeader m mod.pHeader).symtSize.toNat⟩
  clear : ∀ k, k < numRels → (∃ word, (rebasePatchAt ctx mod pRels m k).value word ≠ none) →
    ∀ a, P a → a ∉ (rebasePatchAt ctx mod pRels m k).span

section

variable {P : Addr → Prop} {ctx : SectRebase} {mod : Module} {pRels : Addr} {numRels : Nat}
  {m0 : Mem} {w w' : State}

/-- An entry is the same patch on every memory that agrees on what is read. -/
theorem RebaseIn.patch (hR : RebaseIn P ctx mod pRels numRels m0) (hn : numRels < 2 ^ 16) {m : Mem}
    (ha : ∀ a, P a → m0 a = m a) {k : Nat} (hk : k < numRels) :
    rebasePatchAt ctx mod pRels m k = rebasePatchAt ctx mod pRels m0 k := by
  have hrel : (readRelocation pRels k).run m = (readRelocation pRels k).run m0 :=
    (within_readRelocation hR.relocs hk (by omega) m0).congr ha
  have hh : decodeHeader m mod.pHeader = decodeHeader m0 mod.pHeader :=
    (within_readHeader hR.own.header m0).congr ha
  unfold rebasePatchAt
  dsimp only
  rw [hrel, hh, rebasePatch_congr hR.view hR.own ha]
  cases hb : isBaseRelocation ((readRelocation pRels k).run m0).2 with
  | true => exact rebasePatch_base hb _ _
  | false =>
    have hlt := isBaseRelocation_eq_false hb
    have hsym : (getSymAt mod.pHeader ((readRelocation pRels k).run m0).2).run m =
        (getSymAt mod.pHeader ((readRelocation pRels k).run m0).2).run m0 := by
      rw [getSymAt, Reader.run_bind, Reader.run_bind, readHeader_run, readHeader_run, hh]
      exact (within_getSymAtRaw hR.symt (by omega) m0).congr ha
    rw [hsym]

theorem rebaseSectionsLoop_ok (hR : RebaseIn P ctx mod pRels numRels m0) (hn : numRels < 2 ^ 16)
    {n i : Nat} (h : (rebaseSectionsLoop ctx pRels n i).run w = (.ok (), w'))
    (hi : i + n ≤ numRels) (hmod : w.handle = mod) (hag : ∀ a, P a → m0 a = w.mem a) :
    w'.handle = mod ∧ Did w w'
      (Patch.applyAll ((List.range' i n).map (rebasePatchAt ctx mod pRels m0)))
      (((List.range' i n).map (rebasePatchAt ctx mod pRels m0)).map Patch.span) [] := by
  induction n generalizing i w with
  | zero =>
    rw [rebaseSectionsLoop, Prog.run_pure, Prod.mk.injEq] at h
    rw [← h.2]
    exact ⟨hmod, Did.refl w⟩
  | succ n ih =>
    rw [rebaseSectionsLoop, Prog.run_lift_bind, Prog.run_bind_ok] at h
    obtain ⟨⟨⟩, w1, hone, hrest⟩ := h
    obtain ⟨hh, hd⟩ := rebaseSectionedRelocation_run hone
    rw [hmod] at hh hd
    change Did w w1 (Patch.apply (rebasePatchAt ctx mod pRels w.mem i))
      [(rebasePatchAt ctx mod pRels w.mem i).span] [] at hd
    rw [hR.patch hn hag (by omega)] at hd
    have hag1 : ∀ a, P a → m0 a = w1.mem a := by
      intro a ha
      rw [hd.mem]
      by_cases hnone : ∃ word, (rebasePatchAt ctx mod pRels m0 i).value word ≠ none
      · rw [Patch.apply_notMem (hR.clear i (by omega) hnone a ha)]
        exact hag a ha
      · rw [Patch.apply_of_none (by_contra fun hne => hnone ⟨_, hne⟩)]
        exact hag a ha
    obtain ⟨hh', hd'⟩ := ih hrest (by omega) hh hag1
    rw [List.range'_succ, List.map_cons, List.map_cons]
    exact ⟨hh', hd.trans hd'⟩

end

end Udynlink
