import Udynlink.Ledger

/-!
# What a failed move leaves behind

Both paths can fail only before the block is copied: everything after the
destination is known returns. The sectioned path fails without a trace. The
untagged path has by then written the ownership flag.
-/

namespace Udynlink

open Machine

/-! ## The walks never fail -/

theorem shiftWord_total (p : Addr) (delta : UInt32) : (shiftWord p delta).Total :=
  Prog.total_bind (Prog.total_lift _) fun _ => Prog.total_set32 _ _

theorem rebaseRelocation_total (numLot : UInt16)
    (pData codeDelta dataDelta oldCode oldData lotOffset symtOffset : UInt32) :
    (rebaseRelocation numLot pData codeDelta dataDelta oldCode oldData lotOffset
      symtOffset).Total := by
  refine Prog.total_bind Prog.total_getHandle fun mod => ?_
  refine Prog.total_ite (shiftWord_total _ _) (Prog.total_ite (shiftWord_total _ _) ?_)
  refine Prog.total_bind (Prog.total_lift _) fun sym? => ?_
  cases sym? with
  | none => exact Prog.total_pure ()
  | some sym =>
    refine Prog.total_ite (shiftWord_total _ _) (Prog.total_ite ?_ (Prog.total_pure ()))
    refine Prog.total_bind (Prog.total_lift _) fun word => ?_
    exact Prog.total_ite (shiftWord_total _ _) (Prog.total_pure ())

theorem rebaseLoop_total (pRels : Addr) (numLot : UInt16)
    (pData codeDelta dataDelta oldCode oldData : UInt32) (n i : Nat) :
    (rebaseLoop pRels numLot pData codeDelta dataDelta oldCode oldData n i).Total := by
  induction n generalizing i with
  | zero => exact Prog.total_pure ()
  | succ n ih =>
    refine Prog.total_bind (Prog.total_lift _) fun rel => ?_
    exact Prog.total_bind (rebaseRelocation_total _ _ _ _ _ _ _ _) fun _ => ih (i + 1)

theorem rebaseModulePointers_total (codeDelta dataDelta oldCode oldData : UInt32) :
    (rebaseModulePointers codeDelta dataDelta oldCode oldData).Total := by
  refine Prog.total_bind Prog.total_getHandle fun mod => ?_
  refine Prog.total_bind (Prog.total_lift _) fun h => ?_
  exact Prog.total_bind (Prog.total_lift _) fun pData => rebaseLoop_total _ _ _ _ _ _ _ _ _

theorem externalFree_total (p : Addr) (sect : Option Addr) (align flags : UInt32) :
    (externalFree p sect align flags).Total :=
  Prog.total_bind (Prog.total_lift _) fun _ => Prog.total_host _

theorem freeOldBlock_total (oldForeign : Bool) (oldRam : Addr) (mainAlign : UInt32) :
    (freeOldBlock oldForeign oldRam mainAlign).Total :=
  Prog.total_ite (externalFree_total _ _ _ _) (Prog.total_pure ())

theorem rebaseSectionedBase_total (ctx : SectRebase) (lotOffset : UInt32) :
    (rebaseSectionedBase ctx lotOffset).Total := by
  refine Prog.total_bind Prog.total_getHandle fun mod => ?_
  refine Prog.total_bind (Prog.total_lift _) fun h => ?_
  refine Prog.total_ite (Prog.total_pure ()) ?_
  refine Prog.total_bind (Prog.total_lift _) fun slot => ?_
  cases slot with
  | none => exact Prog.total_pure ()
  | some p =>
    refine Prog.total_bind (Prog.total_lift _) fun word => ?_
    refine Prog.total_bind (Prog.total_lift _) fun si => ?_
    cases si with
    | none => exact Prog.total_pure ()
    | some si =>
      refine Prog.total_bind (Prog.total_lift _) fun new => ?_
      exact Prog.total_bind (Prog.total_lift _) fun old => Prog.total_set32 _ _

theorem rebaseSectionedSym_total (ctx : SectRebase) (p : Addr) (sym : Sym) :
    (rebaseSectionedSym ctx p sym).Total := by
  refine Prog.total_bind Prog.total_getHandle fun mod => ?_
  refine Prog.total_ite ?_ (Prog.total_pure ())
  refine Prog.total_bind (Prog.total_lift _) fun si => ?_
  cases si with
  | none => exact Prog.total_pure ()
  | some si =>
    refine Prog.total_bind (Prog.total_lift _) fun se => ?_
    refine Prog.total_bind (Prog.total_lift _) fun new => ?_
    refine Prog.total_ite ?_ (Prog.total_set32 _ _)
    refine Prog.total_bind (Prog.total_lift _) fun word => ?_
    refine Prog.total_bind (Prog.total_lift _) fun old => ?_
    exact Prog.total_ite (Prog.total_set32 _ _) (Prog.total_pure ())

theorem rebaseSectionedRelocation_total (ctx : SectRebase) (lotOffset symtOffset : UInt32) :
    (rebaseSectionedRelocation ctx lotOffset symtOffset).Total := by
  refine Prog.total_bind Prog.total_getHandle fun mod => ?_
  refine Prog.total_bind (Prog.total_lift _) fun h => ?_
  refine Prog.total_ite (rebaseSectionedBase_total _ _) ?_
  refine Prog.total_bind (Prog.total_lift _) fun sym? => ?_
  cases sym? with
  | none => exact Prog.total_pure ()
  | some sym =>
    refine Prog.total_bind (Prog.total_lift _) fun slot => ?_
    cases slot with
    | none => exact Prog.total_pure ()
    | some p => exact rebaseSectionedSym_total _ _ _

theorem rebaseSectionsLoop_total (ctx : SectRebase) (pRels : Addr) (n i : Nat) :
    (rebaseSectionsLoop ctx pRels n i).Total := by
  induction n generalizing i with
  | zero => exact Prog.total_pure ()
  | succ n ih =>
    refine Prog.total_bind (Prog.total_lift _) fun rel => ?_
    exact Prog.total_bind (rebaseSectionedRelocation_total _ _ _) fun _ => ih (i + 1)

theorem rebaseSectionsPointers_total (ctx : SectRebase) : (rebaseSectionsPointers ctx).Total := by
  refine Prog.total_bind Prog.total_getHandle fun mod => ?_
  exact Prog.total_bind (Prog.total_lift _) fun h => rebaseSectionsLoop_total _ _ _ _

theorem publishMoves_total (moves : List SectionMove) : (publishMoves moves).Total := by
  induction moves with
  | nil => exact Prog.total_pure ()
  | cons mv moves ih =>
    refine Prog.total_bind ?_ fun _ => ih
    refine Prog.total_bind Prog.total_getHandle fun mod => ?_
    exact Prog.total_bind (Prog.total_lift _) fun h => Prog.total_set32 _ _

theorem moveSectionedBlock_total (tab : SectView) (ramSize : UInt32) (dest : Addr) (old : Module) :
    (moveSectionedBlock tab ramSize dest old).Total := by
  refine Prog.total_ite ?_ (Prog.total_pure ())
  refine Prog.total_bind (Prog.total_copy _ _ _) fun _ => ?_
  exact Prog.total_bind (Prog.total_lift _) fun h => Prog.total_modifyHandle _

/-! ## Worlds that differ only in what was looked at -/

/-- Same handle, same memory, and no block gained or lost. -/
structure Untouched (w w' : State) : Prop where
  handle : w'.handle = w.handle
  mem : w'.mem = w.mem
  live : liveBlocks w'.trace = liveBlocks w.trace

theorem Untouched.refl (w : State) : Untouched w w := ⟨rfl, rfl, rfl⟩

theorem Untouched.trans {w w' w'' : State} (h : Untouched w w') (h' : Untouched w' w'') :
    Untouched w w'' :=
  ⟨h'.handle.trans h.handle, h'.mem.trans h.mem, h'.live.trans h.live⟩

theorem untouched_log (w : State) (as : List Addr) :
    Untouched w (w.log (readEvents as)) :=
  ⟨rfl, rfl, liveBlocks_reads _ _⟩

/-- A request answers with a live block, or refuses and changes nothing. -/
theorem externalMalloc_live {host : Host} {size : UInt32} {sect : Option Addr}
    {align flags : UInt32} {w w' : State} {p : Addr}
    (h : (externalMalloc host size sect align flags).run w = (.ok p, w')) :
    w'.handle = w.handle ∧ w'.mem = w.mem ∧
      liveBlocks w'.trace = if p = 0 then liveBlocks w.trace
        else ⟨p, size, ⟨(readSectName sect).run w.mem, align, flags⟩⟩ :: liveBlocks w.trace := by
  rw [externalMalloc_run h]
  refine ⟨rfl, rfl, ?_⟩
  rw [World.log_trace, ← List.append_assoc, liveBlocks_append, liveBlocks_reads]
  rfl

/-! ## The untagged path -/

/-- The ownership flag as `provisionUntagged` leaves it, whether it fails or not. -/
def claimOwnership (newRam : Addr) (mod : Module) : Module :=
  if newRam = 0 then mod.clrForeignRam else mod.setForeignRam

/-- A rejected destination has already changed the flag, and nothing else. -/
theorem provisionUntagged_error {host : Host} {ramSize : UInt32} {newRam : Addr}
    {newSize : UInt32} {w w' : State} {e : Error}
    (h : (provisionUntagged host ramSize newRam newSize).run w = (.error e, w')) :
    w'.handle = claimOwnership newRam w.handle ∧ w'.mem = w.mem ∧
      liveBlocks w'.trace = liveBlocks w.trace := by
  unfold provisionUntagged at h
  unfold claimOwnership
  split at h
  next hnull =>
    simp only [Prog.run_bind_error, Prog.run_modifyHandle, Prod.mk.injEq, reduceCtorEq, false_and,
      true_and, exists_eq_left', false_or, (externalMalloc_total _ _ _ _ _).not_error] at h
    obtain ⟨-, p, w1, hm, hp⟩ := h
    obtain ⟨hh, hmem, hlive⟩ := externalMalloc_live hm
    split at hp
    next hz =>
      simp only [Prog.run_fail, Prod.mk.injEq] at hp
      rw [if_pos hz] at hlive
      rw [if_pos hnull, ← hp.2]
      exact ⟨hh, hmem, hlive⟩
    next => simp at hp
  next hnull =>
    simp only [Prog.run_bind_error, Prog.run_modifyHandle, Prod.mk.injEq, reduceCtorEq, false_and,
      true_and, false_or] at h
    obtain ⟨-, w1, rfl, hp⟩ := h
    split at hp
    next =>
      simp only [Prog.run_fail, Prod.mk.injEq] at hp
      rw [if_neg hnull, ← hp.2]
      exact ⟨rfl, rfl, rfl⟩
    next => simp at hp

/-- After the destination is known the untagged path returns. -/
theorem relocateUntagged_error {host : Host} {ramSize : UInt32} {newRam : Addr} {newSize : UInt32}
    {w w' : State} {e : Error}
    (h : (relocateUntagged host ramSize newRam newSize).run w = (.error e, w')) :
    w'.handle = claimOwnership newRam w.handle ∧ w'.mem = w.mem ∧
      liveBlocks w'.trace = liveBlocks w.trace := by
  unfold relocateUntagged at h
  rw [Prog.run_bind_of_ok (Prog.run_getHandle w)] at h
  split at h
  next => simp at h
  next =>
    rcases Prog.run_bind_error.mp h with hp | ⟨dest, w1, -, hrest⟩
    · exact provisionUntagged_error hp
    · refine absurd hrest (Prog.Total.not_error ?_)
      refine Prog.total_bind (Prog.total_lift _) fun oldCode => ?_
      refine Prog.total_bind (Prog.total_lift _) fun oldData => ?_
      refine Prog.total_ite (freeOldBlock_total _ _ _) ?_
      refine Prog.total_bind (Prog.total_copy _ _ _) fun _ => ?_
      refine Prog.total_bind (Prog.total_lift _) fun hd => ?_
      refine Prog.total_bind (Prog.total_modifyHandle _) fun _ => ?_
      exact Prog.total_bind (rebaseModulePointers_total _ _ _ _) fun _ => freeOldBlock_total _ _ _

/-! ## The sectioned path -/

theorem provisionSectioned_error {host : Host} {ramSize mainAlign : UInt32} {newRam : Addr}
    {newSize : UInt32} {w w' : State} {e : Error}
    (h : (provisionSectioned host ramSize mainAlign newRam newSize).run w = (.error e, w')) :
    Untouched w w' := by
  unfold provisionSectioned at h
  split at h
  next => simp at h
  next =>
    split at h
    next =>
      simp only [Prog.run_bind_error, (externalMalloc_total _ _ _ _ _).not_error, false_or] at h
      obtain ⟨p, w1, hm, hp⟩ := h
      obtain ⟨hh, hmem, hlive⟩ := externalMalloc_live hm
      split at hp
      next hz =>
        simp only [Prog.run_fail, Prod.mk.injEq] at hp
        rw [if_pos hz] at hlive
        rw [← hp.2]
        exact ⟨hh, hmem, hlive⟩
      next => simp at hp
    next =>
      split at h
      next =>
        simp only [Prog.run_fail, Prod.mk.injEq] at h
        exact h.2 ▸ Untouched.refl w
      next =>
        split at h
        next =>
          simp only [Prog.run_fail, Prod.mk.injEq] at h
          exact h.2 ▸ Untouched.refl w
        next => simp at h

/-- Peel a leading read off a failed run. -/
theorem error_after_read {α β : Type} {r : Reader α} {f : α → Loader β} {w w' : State} {e : Error}
    (h : (liftM r >>= f).run w = (.error e, w')) :
    ∃ w1, Untouched w w1 ∧ (f (r.run w.mem)).run w1 = (.error e, w') := by
  rw [Prog.liftM_eq_read, Prog.run_bind_of_ok (Prog.run_read r w)] at h
  exact ⟨_, untouched_log w _, h⟩

theorem relocateSectioned_error {host : Host} {ramSize : UInt32} {newRam : Addr}
    {newSize : UInt32} {moves : List SectionMove} {w w' : State} {e : Error}
    (h : (relocateSectioned host ramSize newRam newSize moves).run w = (.error e, w')) :
    Untouched w w' := by
  unfold relocateSectioned at h
  rw [Prog.run_bind_of_ok (Prog.run_getHandle w)] at h
  obtain ⟨w1, hu, h⟩ := error_after_read h
  rcases hs : (getSectab w.handle.pHeader false).run w.mem with ⟨res, tab⟩
  rw [hs] at h
  dsimp only at h
  split at h
  next =>
    simp only [Prog.run_fail, Prod.mk.injEq] at h
    exact h.2 ▸ hu
  next =>
    obtain ⟨w2, hu', h⟩ := error_after_read h
    split at h
    next => simp at h
    next =>
      split at h
      next => simp at h
      next =>
        rcases Prog.run_bind_error.mp h with hp | ⟨dest, w3, -, hrest⟩
        · exact (hu.trans hu').trans (provisionSectioned_error hp)
        · refine absurd hrest (Prog.Total.not_error ?_)
          refine Prog.total_bind (moveSectionedBlock_total _ _ _ _) fun _ => ?_
          refine Prog.total_bind (rebaseSectionsPointers_total _) fun _ => ?_
          refine Prog.total_bind (publishMoves_total _) fun _ => ?_
          exact Prog.total_ite (freeOldBlock_total _ _ _) (Prog.total_pure ())

theorem checkMoves_error {tab : SectView} {moves : List SectionMove} {seen : List UInt32}
    {w w' : State} {e : Error} (h : (checkMoves tab moves seen).run w = (.error e, w')) :
    Untouched w w' := by
  induction moves generalizing seen w with
  | nil => simp [checkMoves] at h
  | cons mv moves ih =>
    unfold checkMoves at h
    repeat' split at h
    all_goals first
      | (simp only [Prog.run_fail, Prod.mk.injEq] at h
         exact h.2 ▸ Untouched.refl w)
      | skip
    obtain ⟨w1, hu, h⟩ := error_after_read h
    split at h
    next =>
      simp only [Prog.run_fail, Prod.mk.injEq] at h
      exact h.2 ▸ hu
    next => exact hu.trans (ih h)

theorem checkMoves_ok {tab : SectView} {moves : List SectionMove} {seen : List UInt32}
    {w w' : State} (h : (checkMoves tab moves seen).run w = (.ok (), w')) : Untouched w w' := by
  induction moves generalizing seen w with
  | nil =>
    simp only [checkMoves, Prog.run_pure, Prod.mk.injEq, true_and] at h
    exact h ▸ Untouched.refl w
  | cons mv moves ih =>
    unfold checkMoves at h
    repeat' split at h
    all_goals first
      | (simp at h; done)
      | skip
    rw [Prog.liftM_eq_read, Prog.run_bind_of_ok (Prog.run_read _ w)] at h
    split at h
    next => simp at h
    next => exact (untouched_log w _).trans (ih h)

/-! ## Both entry points -/

/-- The call fails without writing the ownership flag, or writes back its value:
the module is sectioned, or the call is refused before any destination is looked
at, or the flag already says who will own the block. -/
def KeepsOwnership (call : RelocateCall) (w : State) : Prop :=
  w.handle.pHeader = 0 ∨ isSectioned (decodeHeader w.mem w.handle.pHeader) ∨
    call.moves ≠ some [] ∨ (call.newRam = 0 ↔ w.handle.isForeignRam = false)

private theorem info_bits (b : BitVec 8) :
    (b ||| 4#8 = b ↔ b &&& 4#8 ≠ 0#8) ∧ (b &&& ~~~4#8 = b ↔ b &&& 4#8 = 0#8) := by
  revert b
  decide +kernel

theorem setForeignRam_eq_iff (mod : Module) :
    mod.setForeignRam = mod ↔ mod.isForeignRam = true := by
  have hb := (info_bits mod.info.toBitVec).1
  have hinfo : mod.setForeignRam = mod ↔ mod.info ||| 4 = mod.info :=
    ⟨congrArg Module.info, fun h => by rw [Module.setForeignRam, loadForeignRamMask, h]⟩
  rw [hinfo, Module.isForeignRam, loadForeignRamMask, decide_eq_true_iff,
    ← UInt8.toBitVec_inj, ne_eq, ← UInt8.toBitVec_inj]
  exact hb

theorem clrForeignRam_eq_iff (mod : Module) :
    mod.clrForeignRam = mod ↔ mod.isForeignRam = false := by
  have hb := (info_bits mod.info.toBitVec).2
  have hinfo : mod.clrForeignRam = mod ↔ mod.info &&& ~~~4 = mod.info :=
    ⟨congrArg Module.info, fun h => by rw [Module.clrForeignRam, loadForeignRamMask, h]⟩
  rw [hinfo, Module.isForeignRam, loadForeignRamMask, decide_eq_false_iff_not, not_not,
    ← UInt8.toBitVec_inj, ← UInt8.toBitVec_inj]
  exact hb

theorem claimOwnership_eq_iff (newRam : Addr) (mod : Module) :
    claimOwnership newRam mod = mod ↔ (newRam = 0 ↔ mod.isForeignRam = false) := by
  unfold claimOwnership
  split
  next h => rw [clrForeignRam_eq_iff]; simp [h]
  next h => rw [setForeignRam_eq_iff]; simp [h]

theorem relocateMainBlock_error {host : Host} {newRam : Addr} {newSize : UInt32}
    {moves : List SectionMove} {w w' : State} {e : Error}
    (h : (relocateMainBlock host newRam newSize moves).run w = (.error e, w')) :
    if isSectioned (decodeHeader w.mem w.handle.pHeader) then Untouched w w'
    else w'.handle = claimOwnership newRam w.handle ∧ w'.mem = w.mem ∧
      liveBlocks w'.trace = liveBlocks w.trace := by
  unfold relocateMainBlock at h
  rw [Prog.run_bind_of_ok (Prog.run_getHandle w)] at h
  obtain ⟨w1, hu, h⟩ := error_after_read h
  obtain ⟨w2, hu', h⟩ := error_after_read h
  have hu2 := hu.trans hu'
  rw [hu.mem, readHeader_run] at h
  cases hsec : isSectioned (decodeHeader w.mem w.handle.pHeader) with
  | false =>
    rw [hsec] at h
    obtain ⟨hh, hm, hl⟩ := relocateUntagged_error h
    rw [hu2.handle] at hh
    exact ⟨hh, hm.trans hu2.mem, hl.trans hu2.live⟩
  | true =>
    rw [hsec] at h
    exact hu2.trans (relocateSectioned_error h)

theorem relocateMainBlock_untouched_iff {host : Host} {newRam : Addr} {newSize : UInt32}
    {moves : List SectionMove} {w w' : State} {e : Error}
    (h : (relocateMainBlock host newRam newSize moves).run w = (.error e, w')) :
    Untouched w w' ↔ isSectioned (decodeHeader w.mem w.handle.pHeader) ∨
      (newRam = 0 ↔ w.handle.isForeignRam = false) := by
  have herr := relocateMainBlock_error h
  split at herr
  next hsec => exact iff_of_true herr (Or.inl hsec)
  next hsec =>
    obtain ⟨hh, hm, hl⟩ := herr
    rw [← claimOwnership_eq_iff]
    constructor
    · exact fun hu => Or.inr (hh.symm.trans hu.handle)
    · intro hc
      have hc := hc.resolve_left hsec
      exact ⟨hh.trans hc, hm, hl⟩

/-- A call with moves is refused, or reaches the block through checks that only
read; an untagged module never gets that far. -/
theorem sectionMoves_untouched {host : Host} {newRam : Addr} {newSize : UInt32}
    {moves : Option (List SectionMove)} (hmoves : moves ≠ some []) {w w' : State} {e : Error}
    (h : (udynlinkRelocateModuleSections host newRam newSize moves).run w = (.error e, w')) :
    Untouched w w' := by
  unfold udynlinkRelocateModuleSections at h
  rw [Prog.run_bind_of_ok (Prog.run_getHandle w)] at h
  split at h
  next =>
    simp only [Prog.run_fail, Prod.mk.injEq] at h
    exact h.2 ▸ Untouched.refl w
  next =>
    split at h
    next =>
      simp only [Prog.run_fail, Prod.mk.injEq] at h
      exact h.2 ▸ Untouched.refl w
    next => exact absurd rfl hmoves
    next mvs hne =>
      obtain ⟨w1, hu, h⟩ := error_after_read h
      rw [readHeader_run] at h
      split at h
      next =>
        simp only [Prog.run_fail, Prod.mk.injEq] at h
        exact h.2 ▸ hu
      next hsec =>
        obtain ⟨w2, hu', h⟩ := error_after_read h
        rcases hs : (getSectab w.handle.pHeader false).run w1.mem with ⟨res, tab⟩
        rw [hs] at h
        dsimp only at h
        have hu2 := hu.trans hu'
        split at h
        next =>
          simp only [Prog.run_fail, Prod.mk.injEq] at h
          exact h.2 ▸ hu2
        next =>
          rcases Prog.run_bind_error.mp h with hc | ⟨⟨⟩, w3, hc, hmain⟩
          · exact hu2.trans (checkMoves_error hc)
          · have hu3 := hu2.trans (checkMoves_ok hc)
            have herr := relocateMainBlock_error hmain
            rw [hu3.mem, hu3.handle, if_pos (by simpa using hsec)] at herr
            exact hu3.trans herr

/-- A failed move leaves the module, its memory and the set of live blocks as
they were exactly when the call keeps the ownership flag. -/
theorem failed_move_untouched_iff {host : Host} {call : RelocateCall} {w w' : State} {e : Error}
    (h : (call.exec host).run w = (.error e, w')) :
    Untouched w w' ↔ KeepsOwnership call w := by
  unfold KeepsOwnership
  cases call with
  | module newRam newSize =>
    simp only [RelocateCall.exec, udynlinkRelocateModule] at h
    rw [Prog.run_bind_of_ok (Prog.run_getHandle w)] at h
    split at h
    next hz =>
      simp only [Prog.run_fail, Prod.mk.injEq] at h
      exact iff_of_true (h.2 ▸ Untouched.refl w) (Or.inl hz)
    next hz =>
      rw [relocateMainBlock_untouched_iff h]
      simp only [hz, RelocateCall.moves, RelocateCall.newRam, ne_eq, not_true_eq_false, false_or]
  | sections newRam newSize moves =>
    by_cases hm : moves = some []
    · subst hm
      simp only [RelocateCall.exec, udynlinkRelocateModuleSections] at h
      rw [Prog.run_bind_of_ok (Prog.run_getHandle w)] at h
      split at h
      next hz =>
        simp only [Prog.run_fail, Prod.mk.injEq] at h
        exact iff_of_true (h.2 ▸ Untouched.refl w) (Or.inl hz)
      next hz =>
        rw [relocateMainBlock_untouched_iff h]
        simp only [hz, RelocateCall.moves, RelocateCall.newRam, ne_eq, not_true_eq_false, false_or]
    · exact iff_of_true (sectionMoves_untouched hm h) (Or.inr (Or.inr (Or.inl hm)))

/-! ## A module whose failed move costs it its ownership -/

/-- An untagged XIP module with one word of `.data`. -/
def dataWordRom : Mem :=
  .ofWords 0x1000 [0x4D4C4455, 0x03010000, 0, 0, 0, 0, 4, 0, 0x11223344]

def dataWordHost : Host := .bump 0x20000000 fun _ => 0

def dataWordLoaded : State :=
  ((udynlinkLoadModule dataWordHost 0x1000 0 0 .xip).run ⟨dataWordRom, Module.free, []⟩).2

def dataWordMove : RelocateCall := .module 0x30000000 2

theorem failed_move_untouched_iff_dataWord :
    Untouched dataWordLoaded ((dataWordMove.exec dataWordHost).run dataWordLoaded).2 ↔
      KeepsOwnership dataWordMove dataWordLoaded := by
  have hrun : (dataWordMove.exec dataWordHost).run dataWordLoaded =
      (.error .loadRamLenLow, ((dataWordMove.exec dataWordHost).run dataWordLoaded).2) :=
    Prod.ext (by decide +kernel) rfl
  exact failed_move_untouched_iff hrun

/-- A caller buffer that is too small turns a loader-owned block into a foreign one. -/
theorem failed_move_flips_ownership :
    ((udynlinkLoadModule dataWordHost 0x1000 0 0 .xip).run ⟨dataWordRom, Module.free, []⟩).1 =
        .ok () ∧
      ((dataWordMove.exec dataWordHost).run dataWordLoaded).1 = .error .loadRamLenLow ∧
      ¬ Untouched dataWordLoaded ((dataWordMove.exec dataWordHost).run dataWordLoaded).2 := by
  refine ⟨by decide +kernel, by decide +kernel, fun h => ?_⟩
  have hinfo : ((dataWordMove.exec dataWordHost).run dataWordLoaded).2.handle.info ≠
      dataWordLoaded.handle.info := by decide +kernel
  exact hinfo (congrArg Module.info h.handle)

end Udynlink
