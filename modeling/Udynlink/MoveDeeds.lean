import Udynlink.LoadBalance
import Udynlink.MoveFrame

/-!
# Blocks handed out and given back by moves

A call that moves a module asks for the new block before it gives back the old one,
and for nothing else; one that fails has been handed out nothing.
-/

namespace Udynlink

open Machine

/-! ## Walks that ask for nothing -/

section

variable {τ : Type} {f : Module → τ} {A : HostEvent → Prop}

theorem shiftWord_calm (p : Addr) (delta : UInt32) : (shiftWord p delta).Calm f A :=
  Prog.calm_bind (Prog.calm_lift _) fun _ => Prog.calm_set32 _ _

theorem rebaseRelocation_calm (numLot : UInt16)
    (pData codeDelta dataDelta oldCode oldData lotOffset symtOffset : UInt32) :
    (rebaseRelocation numLot pData codeDelta dataDelta oldCode oldData lotOffset
      symtOffset).Calm f A := by
  refine Prog.calm_bind Prog.calm_getHandle fun mod => ?_
  refine Prog.calm_ite (shiftWord_calm _ _) (Prog.calm_ite (shiftWord_calm _ _) ?_)
  refine Prog.calm_bind (Prog.calm_lift _) fun sym? => ?_
  cases sym? with
  | none => exact Prog.calm_pure ()
  | some sym =>
    refine Prog.calm_ite (shiftWord_calm _ _) (Prog.calm_ite ?_ (Prog.calm_pure ()))
    refine Prog.calm_bind (Prog.calm_lift _) fun word => ?_
    exact Prog.calm_ite (shiftWord_calm _ _) (Prog.calm_pure ())

theorem rebaseLoop_calm (pRels : Addr) (numLot : UInt16)
    (pData codeDelta dataDelta oldCode oldData : UInt32) (n i : Nat) :
    (rebaseLoop pRels numLot pData codeDelta dataDelta oldCode oldData n i).Calm f A := by
  induction n generalizing i with
  | zero => exact Prog.calm_pure ()
  | succ n ih =>
    refine Prog.calm_bind (Prog.calm_lift _) fun rel => ?_
    exact Prog.calm_bind (rebaseRelocation_calm _ _ _ _ _ _ _ _) fun _ => ih (i + 1)

theorem rebaseModulePointers_calm (codeDelta dataDelta oldCode oldData : UInt32) :
    (rebaseModulePointers codeDelta dataDelta oldCode oldData).Calm f A := by
  refine Prog.calm_bind Prog.calm_getHandle fun mod => ?_
  refine Prog.calm_bind (Prog.calm_lift _) fun h => ?_
  exact Prog.calm_bind (Prog.calm_lift _) fun pData => rebaseLoop_calm _ _ _ _ _ _ _ _ _

theorem rebaseSectionedBase_calm (ctx : SectRebase) (lotOffset : UInt32) :
    (rebaseSectionedBase ctx lotOffset).Calm f A := by
  refine Prog.calm_bind Prog.calm_getHandle fun mod => ?_
  refine Prog.calm_bind (Prog.calm_lift _) fun h => ?_
  refine Prog.calm_ite (Prog.calm_pure ()) ?_
  refine Prog.calm_bind (Prog.calm_lift _) fun slot => ?_
  cases slot with
  | none => exact Prog.calm_pure ()
  | some p =>
    refine Prog.calm_bind (Prog.calm_lift _) fun word => ?_
    refine Prog.calm_bind (Prog.calm_lift _) fun si => ?_
    cases si with
    | none => exact Prog.calm_pure ()
    | some si =>
      refine Prog.calm_bind (Prog.calm_lift _) fun new => ?_
      exact Prog.calm_bind (Prog.calm_lift _) fun old => Prog.calm_set32 _ _

theorem rebaseSectionedSym_calm (ctx : SectRebase) (p : Addr) (sym : Sym) :
    (rebaseSectionedSym ctx p sym).Calm f A := by
  refine Prog.calm_bind Prog.calm_getHandle fun mod => ?_
  refine Prog.calm_ite ?_ (Prog.calm_pure ())
  refine Prog.calm_bind (Prog.calm_lift _) fun si => ?_
  cases si with
  | none => exact Prog.calm_pure ()
  | some si =>
    refine Prog.calm_bind (Prog.calm_lift _) fun se => ?_
    refine Prog.calm_bind (Prog.calm_lift _) fun new => ?_
    refine Prog.calm_ite ?_ (Prog.calm_set32 _ _)
    refine Prog.calm_bind (Prog.calm_lift _) fun word => ?_
    refine Prog.calm_bind (Prog.calm_lift _) fun old => ?_
    exact Prog.calm_ite (Prog.calm_set32 _ _) (Prog.calm_pure ())

theorem rebaseSectionedRelocation_calm (ctx : SectRebase) (lotOffset symtOffset : UInt32) :
    (rebaseSectionedRelocation ctx lotOffset symtOffset).Calm f A := by
  refine Prog.calm_bind Prog.calm_getHandle fun mod => ?_
  refine Prog.calm_bind (Prog.calm_lift _) fun h => ?_
  refine Prog.calm_ite (rebaseSectionedBase_calm _ _) ?_
  refine Prog.calm_bind (Prog.calm_lift _) fun sym? => ?_
  cases sym? with
  | none => exact Prog.calm_pure ()
  | some sym =>
    refine Prog.calm_bind (Prog.calm_lift _) fun slot => ?_
    cases slot with
    | none => exact Prog.calm_pure ()
    | some p => exact rebaseSectionedSym_calm _ _ _

theorem rebaseSectionsLoop_calm (ctx : SectRebase) (pRels : Addr) (n i : Nat) :
    (rebaseSectionsLoop ctx pRels n i).Calm f A := by
  induction n generalizing i with
  | zero => exact Prog.calm_pure ()
  | succ n ih =>
    refine Prog.calm_bind (Prog.calm_lift _) fun rel => ?_
    exact Prog.calm_bind (rebaseSectionedRelocation_calm _ _ _) fun _ => ih (i + 1)

theorem rebaseSectionsPointers_calm (ctx : SectRebase) : (rebaseSectionsPointers ctx).Calm f A := by
  refine Prog.calm_bind Prog.calm_getHandle fun mod => ?_
  exact Prog.calm_bind (Prog.calm_lift _) fun h => rebaseSectionsLoop_calm _ _ _ _

theorem publishMoves_calm (moves : List SectionMove) : (publishMoves moves).Calm f A := by
  induction moves with
  | nil => exact Prog.calm_pure ()
  | cons mv moves ih =>
    refine Prog.calm_bind ?_ fun _ => ih
    refine Prog.calm_bind Prog.calm_getHandle fun mod => ?_
    exact Prog.calm_bind (Prog.calm_lift _) fun h => Prog.calm_set32 _ _

theorem checkMoves_calm (tab : SectView) (moves : List SectionMove) (seen : List UInt32) :
    (checkMoves tab moves seen).Calm f A := by
  induction moves generalizing seen with
  | nil => exact Prog.calm_pure ()
  | cons mv moves ih =>
    refine Prog.calm_ite (Prog.calm_fail _) (Prog.calm_ite (Prog.calm_fail _) ?_)
    refine Prog.calm_ite (Prog.calm_fail _) (Prog.calm_bind (Prog.calm_lift _) fun e => ?_)
    exact Prog.calm_ite (Prog.calm_fail _) (ih _)

/-- Copy and new handle: the owner is the one that was chosen before. -/
theorem moveSectionedBlock_calm (tab : SectView) (ramSize : UInt32) (dest : Addr) (old : Module) :
    (moveSectionedBlock tab ramSize dest old).Calm Module.isForeignRam A := by
  refine Prog.calm_ite ?_ (Prog.calm_pure ())
  refine Prog.calm_bind (Prog.calm_copy _ _ _) fun _ => ?_
  exact Prog.calm_bind (Prog.calm_lift _) fun h => Prog.calm_modifyHandle fun _ => rfl

end

/-! ## Deeds of a run -/

/-- The deeds of the run from `w` to `w'`. -/
def Dealt (w w' : State) (ds : List (Deed (BlockTag × Addr))) : Prop :=
  ∃ evs, w.Extends w' evs ∧ deeds (hostEvents evs) = ds

namespace Dealt

variable {w w' w'' : State} {ds es : List (Deed (BlockTag × Addr))}

theorem deeds_eq (h : Dealt w w' ds) {evs : List (Event HostEvent)} (he : w.Extends w' evs) :
    deeds (hostEvents evs) = ds := by
  obtain ⟨evs', he', hd⟩ := h
  rw [he.unique he', hd]

theorem trans (h : Dealt w w' ds) (h' : Dealt w' w'' es) : Dealt w w'' (ds ++ es) := by
  obtain ⟨evs, he, hd⟩ := h
  obtain ⟨evs', he', hd'⟩ := h'
  exact ⟨_, he.trans he', by rw [hostEvents_append, deeds_append, hd, hd']⟩

theorem refl (w : State) : Dealt w w [] := ⟨[], World.Extends.refl w, rfl⟩

theorem of_log {as : List Addr} (h : Dealt (w.log (readEvents as)) w' ds) : Dealt w w' ds := by
  obtain ⟨evs, he, hd⟩ := h
  exact ⟨_, (World.extends_log _ _).trans he, by
    rw [hostEvents_append, hostEvents_readEvents, List.nil_append, hd]⟩

theorem of_handle {mod : Module} (h : Dealt { w with handle := mod } w' ds) : Dealt w w' ds := h

/-- A stretch that asks for symbols at most. -/
theorem of_calm {τ α : Type} {f : Module → τ} {p : Loader α} {r : Except Error α}
    (h : p.Calm f IsResolve) (hr : p.run w = (r, w')) : Dealt w w' [] := by
  obtain ⟨evs, he⟩ := Prog.extends_of_run hr
  exact ⟨evs, he, deeds_onlyResolves ((h.run hr).2 evs he)⟩

end Dealt

/-! ## The stages of a move -/

section

variable {host : Host} {w w' w1 w2 : State} {ramSize newSize mainAlign newRam oldRam dest : UInt32}

theorem externalMalloc_dealt {size flags : UInt32} {p : Addr}
    (h : (externalMalloc host size none mainAlign flags).run w = (.ok p, w')) :
    Dealt w w' (if p = 0 then [] else [.grant (⟨none, mainAlign, flags⟩, p)]) := by
  obtain ⟨evs, he, hev, -⟩ := (externalMalloc_filled h).did.events
  refine ⟨evs, he, ?_⟩
  rw [hev]
  split
  next hz => simp [deeds, HostEvent.deed, hz]
  next hz => simp [deeds, HostEvent.deed, hz, readSectName]

theorem freeOldBlock_dealt {oldForeign : Bool}
    (h : (freeOldBlock oldForeign oldRam mainAlign).run w = (.ok (), w')) :
    w'.handle = w.handle ∧
      Dealt w w' (if oldForeign = false then [.release (⟨none, mainAlign, 0⟩, oldRam)] else []) := by
  rw [freeOldBlock] at h
  split at h
  next hz =>
    have hf := externalFree_filled h
    obtain ⟨evs, he, hev, -⟩ := hf.did.events
    refine ⟨hf.handle, evs, he, ?_⟩
    rw [hev, if_pos hz]
    rfl
  next hz =>
    rw [Prog.run_pure, Prod.mk.injEq] at h
    rw [← h.2, if_neg hz]
    exact ⟨rfl, .refl w⟩

/-- The new block, granted or the caller's. -/
theorem provisionUntagged_dealt
    (h : (provisionUntagged host ramSize newRam newSize).run w = (.ok dest, w')) :
    dest ≠ 0 ∧ Dealt w w' (if newRam = 0 then [.grant (⟨none, 4, 0⟩, dest)] else []) := by
  rw [provisionUntagged] at h
  split at h
  next hnull =>
    rw [Prog.run_modifyHandle_bind, Prog.run_bind_ok] at h
    obtain ⟨p, w1, hm, hp⟩ := h
    have hd := externalMalloc_dealt hm
    split at hp
    next => simp at hp
    next hne =>
      rw [Prog.run_pure, Prod.mk.injEq, Except.ok.injEq] at hp
      rw [← hp.1, ← hp.2, if_pos hnull]
      rw [if_neg hne] at hd
      exact ⟨hne, hd.of_handle⟩
  next hnull =>
    rw [Prog.run_modifyHandle_bind] at h
    split at h
    next => simp at h
    next =>
      rw [Prog.run_pure, Prod.mk.injEq, Except.ok.injEq] at h
      rw [← h.1, ← h.2, if_neg hnull]
      exact ⟨hnull, Dealt.of_handle (.refl _)⟩

theorem provisionSectioned_dealt (hne : ramSize ≠ 0)
    (h : (provisionSectioned host ramSize mainAlign newRam newSize).run w = (.ok dest, w')) :
    Dealt w w' (if newRam = 0 then [.grant (⟨none, mainAlign, 0⟩, dest)] else []) := by
  rw [provisionSectioned, if_neg hne] at h
  split at h
  next hnull =>
    rw [Prog.run_bind_ok] at h
    obtain ⟨p, w1, hm, hp⟩ := h
    have hd := externalMalloc_dealt hm
    split at hp
    next => simp at hp
    next hpz =>
      rw [Prog.run_modifyHandle_bind, Prog.run_pure, Prod.mk.injEq, Except.ok.injEq] at hp
      rw [← hp.1, ← hp.2, if_pos hnull]
      rw [if_neg hpz] at hd
      exact hd
  next hnull =>
    rw [if_neg hnull]
    split at h
    next => simp at h
    next =>
      split at h
      next => simp at h
      next =>
        rw [Prog.run_modifyHandle_bind, Prog.run_pure, Prod.mk.injEq] at h
        rw [← h.2]
        exact Dealt.of_handle (.refl _)

/-- A call has left the block alone, or has taken a new one and given back the old one. -/
def MainMoved (mainAlign : UInt32) (w w' : State) : Prop :=
  (Dealt w w' [] ∧ blockOf w'.handle = blockOf w.handle) ∨
    (w'.handle.pRam ≠ 0 ∧ Dealt w w' ((mainKeys w'.handle mainAlign).map .grant ++
      (mainKeys w.handle mainAlign).map .release))

theorem MainMoved.of_log {as : List Addr} (h : MainMoved mainAlign (w.log (readEvents as)) w') :
    MainMoved mainAlign w w' := by
  rcases h with ⟨hd, hb⟩ | ⟨hp, hd⟩
  · exact Or.inl ⟨hd.of_log, hb⟩
  · exact Or.inr ⟨hp, hd.of_log⟩

theorem mainMoved_of_calls
    (hnew : Dealt w w1 (if newRam = 0 then [.grant (⟨none, mainAlign, 0⟩, dest)] else []))
    (hidle : Dealt w1 w2 [])
    (hold : Dealt w2 w' (if w.handle.isForeignRam = false then
      [.release (⟨none, mainAlign, 0⟩, w.handle.pRam)] else []))
    (hd : dest ≠ 0) (hp : w.handle.pRam ≠ 0) (hram : w'.handle.pRam = dest)
    (hown : w'.handle.isForeignRam = (claimOwnership newRam w.handle).isForeignRam) :
    MainMoved mainAlign w w' := by
  have hnewKeys : (mainKeys w'.handle mainAlign).map Deed.grant =
      if newRam = 0 then [.grant (⟨none, mainAlign, 0⟩, dest)] else [] := by
    rw [mainKeys, hram, hown, claimOwnership]
    by_cases hz : newRam = 0
    · simp [hz, hd]
    · simp [hz]
  have holdKeys : (mainKeys w.handle mainAlign).map Deed.release =
      if w.handle.isForeignRam = false then
        [.release (⟨none, mainAlign, 0⟩, w.handle.pRam)] else [] := by
    rw [mainKeys]
    cases w.handle.isForeignRam <;> simp [hp]
  refine Or.inr ⟨by rw [hram]; exact hd, ?_⟩
  rw [hnewKeys, holdKeys]
  have hall := hnew.trans (hidle.trans hold)
  rwa [List.nil_append] at hall

theorem relocateUntagged_moved (hp : ramSize ≠ 0 → w.handle.pRam ≠ 0)
    (h : (relocateUntagged host ramSize newRam newSize).run w = (.ok (), w')) :
    MainMoved 4 w w' := by
  rw [relocateUntagged, Prog.run_getHandle_bind] at h
  split at h
  next =>
    rw [Prog.run_pure, Prod.mk.injEq] at h
    rw [← h.2]
    exact Or.inl ⟨.refl w, rfl⟩
  next hne =>
    rw [Prog.run_bind_ok] at h
    obtain ⟨dest, w1, hprov, h⟩ := h
    obtain ⟨hh1, -, -⟩ := provisionUntagged_ok hprov
    obtain ⟨hd, hnew⟩ := provisionUntagged_dealt hprov
    rw [Prog.run_lift_bind, Prog.run_lift_bind, World.log_mem, World.log_log,
      ← readEvents_append] at h
    split at h
    next hsame =>
      obtain ⟨hh, hold⟩ := freeOldBlock_dealt h
      rw [World.log_handle, hh1] at hh
      refine mainMoved_of_calls hnew (Dealt.of_log (.refl _)) hold hd (hp hne) ?_ (by rw [hh])
      rw [hh, hsame, claimOwnership]
      split <;> rfl
    next =>
      rw [Prog.run_bind_ok] at h
      obtain ⟨⟨⟩, wc, hcopy, h⟩ := h
      have hcalm : (Prog.copy dest w.handle.pRam ramSize.toNat : Loader PUnit).Calm id
          IsResolve := Prog.calm_copy _ _ _
      have hhc := (hcalm.run hcopy).1
      rw [Prog.run_lift_bind, readHeader_run, Prog.run_modifyHandle_bind, Prog.run_bind_ok] at h
      obtain ⟨⟨⟩, wr, hr, h⟩ := h
      have hwalk := (rebaseModulePointers_calm (f := id) (A := IsResolve) _ _ _ _).run hr
      obtain ⟨hh, hold⟩ := freeOldBlock_dealt h
      have hhr : wr.handle = moveHandle dest
          ((decodeHeader wc.mem w.handle.pHeader).numLot.toUInt32 * 4) wc.handle := hwalk.1
      have hhc' : wc.handle = claimOwnership newRam w.handle := hhc.trans hh1
      refine mainMoved_of_calls hnew ?_ hold hd (hp hne) ?_ ?_
      · exact (Dealt.of_log (.of_calm hcalm hcopy)).trans (Dealt.of_log
          (Dealt.of_handle (.of_calm (rebaseModulePointers_calm (f := id) _ _ _ _) hr)))
      · rw [hh, hhr]
        rfl
      · rw [hh, hhr, hhc']
        rfl

theorem relocateSectioned_moved {moves : List SectionMove} (hp : ramSize ≠ 0 → w.handle.pRam ≠ 0)
    (h : (relocateSectioned host ramSize newRam newSize moves).run w = (.ok (), w')) :
    MainMoved ((getMainAlign (moduleView w)).run w.mem) w w' := by
  rw [relocateSectioned, Prog.run_getHandle_bind, Prog.run_lift_bind] at h
  rcases hst : (getSectab w.handle.pHeader false).run w.mem with ⟨res, tab⟩
  have hview : moduleView w = tab := by rw [moduleView, hst]
  rw [hst] at h
  dsimp only at h
  rw [hview]
  split at h
  next => simp at h
  next =>
    rw [Prog.run_lift_bind, World.log_mem, World.log_log, ← readEvents_append] at h
    generalize (_ ++ _ : List Addr) = as at h
    have hmoved : MainMoved ((getMainAlign tab).run w.mem) (w.log (readEvents as)) w' := by
      split at h
      next =>
        rw [Prog.run_pure, Prod.mk.injEq] at h
        rw [← h.2]
        exact Or.inl ⟨.refl _, rfl⟩
      next =>
        split at h
        next =>
          rw [Prog.run_pure, Prod.mk.injEq] at h
          rw [← h.2]
          exact Or.inl ⟨.refl _, rfl⟩
        next =>
          rw [Prog.run_bind_ok] at h
          obtain ⟨dest, w1, hprov, h⟩ := h
          rw [Prog.run_bind_ok] at h
          obtain ⟨⟨⟩, wc, hblock, h⟩ := h
          rw [Prog.run_bind_ok] at h
          obtain ⟨⟨⟩, wr, hwalk, h⟩ := h
          rw [Prog.run_bind_ok] at h
          obtain ⟨⟨⟩, wp, hpub, h⟩ := h
          have hidle : Dealt w1 wp [] := (Dealt.of_calm (moveSectionedBlock_calm _ _ _ _) hblock).trans
            ((Dealt.of_calm (rebaseSectionsPointers_calm (f := id) _) hwalk).trans
              (Dealt.of_calm (publishMoves_calm (f := id) _) hpub))
          have hh : wp.handle = wc.handle :=
            ((publishMoves_calm (f := id) (A := IsResolve) _).run hpub).1.trans
              ((rebaseSectionsPointers_calm (f := id) (A := IsResolve) _).run hwalk).1
          by_cases hne : ramSize = 0
          · -- without a block only the bases change
            rw [provisionSectioned, if_pos hne, Prog.run_pure, Prod.mk.injEq] at hprov
            rw [moveSectionedBlock, if_neg (by simp [hne]), Prog.run_pure, Prod.mk.injEq] at hblock
            rw [if_neg (by simp [hne]), Prog.run_pure, Prod.mk.injEq] at h
            rw [← hprov.2] at hidle hblock
            rw [← h.2]
            exact Or.inl ⟨hidle, by rw [hh, ← hblock.2]⟩
          · obtain ⟨hh1, -, hd, -, -⟩ := provisionSectioned_ok hprov hne
            have hgt : ramSize > 0 := UInt32.pos_iff_ne_zero.mpr hne
            rw [moveSectionedBlock, if_pos hgt, Prog.run_copy_bind, Prog.run_lift_bind, readHeader_run,
              Prog.run_modifyHandle, Prod.mk.injEq] at hblock
            rw [if_pos hgt] at h
            obtain ⟨hh', hold⟩ := freeOldBlock_dealt h
            refine mainMoved_of_calls (provisionSectioned_dealt hne hprov) hidle hold hd (hp hne) ?_ ?_
            · rw [hh', hh, ← hblock.2]
              rfl
            · rw [hh', hh, ← hblock.2, ← hh1]
              rfl
    exact hmoved.of_log

end

/-! ## Whole calls -/

section

variable {host : Host} {w w' : State} {call : RelocateCall} {newRam : Addr} {newSize : UInt32}
  {moves : List SectionMove}

theorem relocateMainBlock_moved (hp : moduleRam w ≠ 0 → w.handle.pRam ≠ 0)
    (h : (relocateMainBlock host newRam newSize moves).run w = (.ok (), w')) :
    MainMoved ((getMainAlign (moduleView w)).run w.mem) w w' := by
  rw [relocateMainBlock, Prog.run_getHandle_bind, Prog.run_lift_bind, Prog.run_lift_bind,
    readHeader_run, World.log_mem, World.log_log, ← readEvents_append] at h
  generalize (_ ++ _ : List Addr) = as at h
  have hram : (udynlinkGetRamSize w.handle).run w.mem ≠ 0 → w.handle.pRam ≠ 0 := fun hne =>
    hp fun hz => hne (UInt32.toNat_inj.mp hz)
  cases hs : isSectioned (decodeHeader w.mem w.handle.pHeader) with
  | false =>
    rw [hs, Bool.not_false, if_pos rfl] at h
    have hnum : (moduleView w).num = 0 := by rw [moduleView, getSectab_untagged hs]
    rw [getMainAlign_empty hnum]
    exact (relocateUntagged_moved (w := w.log (readEvents as)) hram h).of_log
  | true =>
    rw [hs, Bool.not_true, if_neg Bool.false_ne_true] at h
    exact (relocateSectioned_moved (w := w.log (readEvents as)) hram h).of_log

/-- A call that returns deals in main blocks only. -/
theorem RelocateCall.exec_moved (hp : moduleRam w ≠ 0 → w.handle.pRam ≠ 0)
    (h : (call.exec host).run w = (.ok (), w')) :
    MainMoved ((getMainAlign (moduleView w)).run w.mem) w w' := by
  cases call with
  | module newRam newSize =>
    rw [RelocateCall.exec, udynlinkRelocateModule, Prog.run_getHandle_bind] at h
    split at h
    next => simp at h
    next => exact relocateMainBlock_moved hp h
  | sections newRam newSize moves? =>
    rw [RelocateCall.exec, udynlinkRelocateModuleSections, Prog.run_getHandle_bind] at h
    split at h
    next => simp at h
    next =>
      cases moves? with
      | none => simp at h
      | some moves =>
        cases moves with
        | nil => exact relocateMainBlock_moved hp h
        | cons mv moves =>
          dsimp only at h
          rw [Prog.run_lift_bind, readHeader_run] at h
          split at h
          next => simp at h
          next =>
            rw [Prog.run_lift_bind, World.log_mem, World.log_log, ← readEvents_append] at h
            split at h
            next => simp at h
            next =>
              rw [Prog.run_bind_ok] at h
              obtain ⟨⟨⟩, w1, hcheck, h⟩ := h
              obtain ⟨⟨as, hw1⟩, -⟩ := checkMoves_accepted hcheck
              rw [hw1, World.log_log, ← readEvents_append] at h
              exact (relocateMainBlock_moved (w := w.log _) hp h).of_log

end

/-! ## Calls that fail -/

/-- A failing run has been handed out nothing. -/
def FailsDry {α : Type} (p : Loader α) : Prop :=
  ∀ (w : State) (e : Error) (w' : State), p.run w = (.error e, w') → Dealt w w' []

section

variable {α β : Type} {τ : Type} {f : Module → τ} {host : Host}

theorem failsDry_of_calm {p : Loader α} (h : p.Calm f IsResolve) : FailsDry p :=
  fun _ _ _ hr => .of_calm h hr

theorem failsDry_of_total {p : Loader α} (h : p.Total) : FailsDry p :=
  fun _ _ _ hr => absurd hr h.not_error

theorem failsDry_ite {c : Prop} [Decidable c] {p q : Loader α} (hp : FailsDry p)
    (hq : FailsDry q) : FailsDry (if c then p else q) := by
  split
  · exact hp
  · exact hq

theorem failsDry_bind {p : Loader α} {q : α → Loader β} (hp : p.Calm f IsResolve)
    (hq : ∀ x, FailsDry (q x)) : FailsDry (p >>= q) := by
  intro w e w' h
  rcases Prog.run_bind_error.mp h with hr | ⟨x, w1, hr, h⟩
  · exact .of_calm hp hr
  · exact (Dealt.of_calm hp hr).trans (hq x w1 e w' h)

theorem failsDry_bind_total {p : Loader α} {q : α → Loader β} (hp : FailsDry p)
    (hq : ∀ x, (q x).Total) : FailsDry (p >>= q) := by
  intro w e w' h
  rcases Prog.run_bind_error.mp h with hr | ⟨x, w1, -, h⟩
  · exact hp w e w' hr
  · exact absurd h (hq x).not_error

/-- A refused request hands out nothing. -/
theorem malloc_failsDry {size mainAlign flags : UInt32} {e : Error} {q : Addr → Loader β}
    (hq : ∀ p, (q p).Total) :
    FailsDry (externalMalloc host size none mainAlign flags >>= fun p =>
      if p = 0 then Prog.fail e else q p) := by
  intro w e' w' h
  rcases Prog.run_bind_error.mp h with hr | ⟨p, w1, hm, h⟩
  · exact absurd hr (externalMalloc_total _ _ _ _ _).not_error
  · have hd := externalMalloc_dealt hm
    split at h
    next hz =>
      rw [Prog.run_fail, Prod.mk.injEq] at h
      rw [if_pos hz] at hd
      exact h.2 ▸ hd
    next => exact absurd h (hq p).not_error

theorem relocateUntagged_failsDry (host : Host) (ramSize : UInt32) (newRam : Addr)
    (newSize : UInt32) : FailsDry (relocateUntagged host ramSize newRam newSize) := by
  refine failsDry_bind (f := id) Prog.calm_getHandle fun old => ?_
  refine failsDry_ite (failsDry_of_total (Prog.total_pure ())) (failsDry_bind_total ?_ fun dest => ?_)
  · refine failsDry_ite ?_ ?_
    · exact failsDry_bind (f := fun _ => ()) (Prog.calm_modifyHandle fun _ => rfl) fun _ =>
        malloc_failsDry fun p => Prog.total_pure p
    · exact failsDry_of_calm (f := fun _ => ()) (Prog.calm_bind (Prog.calm_modifyHandle fun _ => rfl)
        fun _ => Prog.calm_ite (Prog.calm_fail _) (Prog.calm_pure _))
  · refine Prog.total_bind (Prog.total_lift _) fun oldCode => ?_
    refine Prog.total_bind (Prog.total_lift _) fun oldData => ?_
    refine Prog.total_ite (freeOldBlock_total _ _ _) ?_
    refine Prog.total_bind (Prog.total_copy _ _ _) fun _ => ?_
    refine Prog.total_bind (Prog.total_lift _) fun hd => ?_
    refine Prog.total_bind (Prog.total_modifyHandle _) fun _ => ?_
    exact Prog.total_bind (rebaseModulePointers_total _ _ _ _) fun _ => freeOldBlock_total _ _ _

theorem provisionSectioned_failsDry (host : Host) (ramSize mainAlign : UInt32) (newRam : Addr)
    (newSize : UInt32) : FailsDry (provisionSectioned host ramSize mainAlign newRam newSize) := by
  refine failsDry_ite (failsDry_of_total (Prog.total_pure 0)) (failsDry_ite ?_ ?_)
  · exact malloc_failsDry fun p => Prog.total_bind (Prog.total_modifyHandle _) fun _ =>
      Prog.total_pure p
  · refine failsDry_of_calm (f := fun _ => ()) (Prog.calm_ite (Prog.calm_fail _) ?_)
    refine Prog.calm_ite (Prog.calm_fail _) ?_
    exact Prog.calm_bind (Prog.calm_modifyHandle fun _ => rfl) fun _ => Prog.calm_pure _

theorem relocateSectioned_failsDry (host : Host) (ramSize : UInt32) (newRam : Addr)
    (newSize : UInt32) (moves : List SectionMove) :
    FailsDry (relocateSectioned host ramSize newRam newSize moves) := by
  refine failsDry_bind (f := id) Prog.calm_getHandle fun old => ?_
  refine failsDry_bind (f := id) (Prog.calm_lift _) fun view => ?_
  refine failsDry_ite (failsDry_of_calm (f := id) (Prog.calm_fail _)) ?_
  refine failsDry_bind (f := id) (Prog.calm_lift _) fun mainAlign => ?_
  refine failsDry_ite (failsDry_of_total (Prog.total_pure ())) ?_
  refine failsDry_ite (failsDry_of_total (Prog.total_pure ())) ?_
  refine failsDry_bind_total (provisionSectioned_failsDry _ _ _ _ _) fun dest => ?_
  refine Prog.total_bind (moveSectionedBlock_total _ _ _ _) fun _ => ?_
  refine Prog.total_bind (rebaseSectionsPointers_total _) fun _ => ?_
  refine Prog.total_bind (publishMoves_total _) fun _ => ?_
  exact Prog.total_ite (freeOldBlock_total _ _ _) (Prog.total_pure ())

theorem relocateMainBlock_failsDry (host : Host) (newRam : Addr) (newSize : UInt32)
    (moves : List SectionMove) : FailsDry (relocateMainBlock host newRam newSize moves) := by
  refine failsDry_bind (f := id) Prog.calm_getHandle fun mod => ?_
  refine failsDry_bind (f := id) (Prog.calm_lift _) fun ramSize => ?_
  refine failsDry_bind (f := id) (Prog.calm_lift _) fun h => ?_
  exact failsDry_ite (relocateUntagged_failsDry _ _ _ _) (relocateSectioned_failsDry _ _ _ _ _)

theorem RelocateCall.exec_failsDry (host : Host) (call : RelocateCall) :
    FailsDry (call.exec host) := by
  cases call with
  | module newRam newSize =>
    refine failsDry_bind (f := id) Prog.calm_getHandle fun mod => ?_
    exact failsDry_ite (failsDry_of_calm (f := id) (Prog.calm_fail _))
      (relocateMainBlock_failsDry _ _ _ _)
  | sections newRam newSize moves? =>
    refine failsDry_bind (f := id) Prog.calm_getHandle fun mod => ?_
    refine failsDry_ite (failsDry_of_calm (f := id) (Prog.calm_fail _)) ?_
    cases moves? with
    | none => exact failsDry_of_calm (f := id) (Prog.calm_fail _)
    | some moves =>
      cases moves with
      | nil => exact relocateMainBlock_failsDry _ _ _ _
      | cons mv moves =>
        refine failsDry_bind (f := id) (Prog.calm_lift _) fun h => ?_
        refine failsDry_ite (failsDry_of_calm (f := id) (Prog.calm_fail _)) ?_
        refine failsDry_bind (f := id) (Prog.calm_lift _) fun view => ?_
        refine failsDry_ite (failsDry_of_calm (f := id) (Prog.calm_fail _)) ?_
        refine failsDry_bind (f := id) (checkMoves_calm _ _ _) fun _ => ?_
        exact relocateMainBlock_failsDry _ _ _ _

end

end Udynlink
