import Udynlink.Accepted
import Udynlink.Loader

/-!
# A successful load, stage by stage

A load that returns has passed the checks on the image as it was, and then run
the stages one after the other. The worlds between the stages are named here
once, and every result about loads starts from them.
-/

namespace Udynlink

open Machine

/-- The caps, with every sum as the loader computes it. -/
structure CapsOk (h : Header) (num : Nat) (es : Nat → SectEntry) (mode : LoadMode)
    (ramSize : UInt32) : Prop where
  extent : (getCodeOffsetFromHeader h).toNat + h.codeSize.toNat + h.dataSize.toNat +
    classSizes es 3 (num - 3) 3 ≤ maxImageSize.toNat
  ram : ramSize = UInt32.ofNat (exactRam h num es mode)
  total : ramSize.toNat + classSizes es 0xFF (num - 3) 3 ≤ maxRamSize.toNat

theorem taggedSizes_run (tab : SectView) (clsMask : UInt32) (m : Mem) :
    (taggedSizes tab clsMask).run m =
      classSizes (entriesAt m tab.pEntries) clsMask (tab.num - 3) 3 := by
  rw [taggedSizes]
  split
  next => rw [sumTaggedSizes, sumSectionSizes_run]
  next hn =>
    rw [show tab.num - 3 = 0 by omega]
    rfl

theorem getLoadRamSize_run {p : Addr} {tab : SectView} {mode : LoadMode} {m : Mem}
    (hu : tab.num = 0 → isSectioned (decodeHeader m p) = false) :
    (getLoadRamSize p tab mode).run m =
      UInt32.ofNat (exactRam (decodeHeader m p) tab.num (entriesAt m tab.pEntries) mode) := by
  rw [getLoadRamSize, Reader.run_bind, readHeader_run, Reader.run_ite, exactRam]
  split
  next => rw [getRamSizeSections_run]
  next hn =>
    rw [getRamSizeForHeader, Reader.run_bind, readHeader_run, hu (by omega),
      ← getRamSizeUntagged_eq]
    rfl

theorem checkSizes_silent (image : Image) (tab : SectView) (mode : LoadMode) :
    (checkSizes image tab mode).Silent := by
  refine Prog.silent_bind (Prog.silent_lift _) fun h => ?_
  refine Prog.silent_bind (Prog.silent_lift _) fun tagged => ?_
  refine Prog.silent_ite (Prog.silent_fail _) ?_
  refine Prog.silent_bind (Prog.silent_lift _) fun ramSize => ?_
  refine Prog.silent_ite (Prog.silent_fail _) ?_
  refine Prog.silent_bind (Prog.silent_lift _) fun allocTotal => ?_
  exact Prog.silent_ite (Prog.silent_fail _) (Prog.silent_pure _)

theorem checkSizes_ok {image : Image} {tab : SectView} {mode : LoadMode} {w w' : State}
    {ramSize : UInt32}
    (hu : tab.num = 0 → isSectioned (decodeHeader w.mem image.pHeader) = false)
    (h : (checkSizes image tab mode).run w = (.ok ramSize, w')) :
    CapsOk (decodeHeader w.mem image.pHeader) tab.num (entriesAt w.mem tab.pEntries) mode
      ramSize := by
  rw [checkSizes] at h
  simp only [Prog.run_bind_ok, Prog.liftM_eq_read, Prog.run_read, Prod.mk.injEq,
    Except.ok.injEq, readHeader_run, taggedSizes_run] at h
  obtain ⟨hd, w1, ⟨rfl, rfl⟩, tagged, w2, ⟨rfl, rfl⟩, h⟩ := h
  rw [Prog.run_ite] at h
  split at h
  next => simp at h
  next hext =>
    simp only [Prog.run_bind_ok, Prog.run_read, Prod.mk.injEq, Except.ok.injEq,
      World.log_mem] at h
    obtain ⟨size, w3, ⟨hsize, rfl⟩, h⟩ := h
    rw [getLoadRamSize_run hu] at hsize
    rw [Prog.run_ite] at h
    split at h
    next => simp at h
    next =>
      simp only [Prog.run_bind_ok, Prog.run_read, Prod.mk.injEq, Except.ok.injEq,
        World.log_mem, taggedSizes_run] at h
      obtain ⟨total, w4, ⟨rfl, rfl⟩, h⟩ := h
      rw [Prog.run_ite] at h
      split at h
      next => simp at h
      next htot =>
        simp only [Prog.run_pure, Prod.mk.injEq, Except.ok.injEq] at h
        exact ⟨Nat.not_lt.mp hext, h.1.symm.trans hsize.symm, h.1 ▸ Nat.not_lt.mp htot⟩

/-! ## The main block -/

/-- The event of asking for the main block. -/
def mainRequest (ramSize mainAlign : UInt32) (p : Addr) : Event HostEvent :=
  .host (.malloc ramSize ⟨none, mainAlign, 0⟩ p)

theorem provisionAddr_ok {host : Host} {mainAlign ramSize loadAddr loadSize : UInt32}
    {w w' : State} {p : Addr}
    (h : (provisionAddr host mainAlign ramSize loadAddr loadSize).run w = (.ok p, w')) :
    p ≠ 0 ∧ w'.mem = w.mem ∧
      (loadAddr = 0 ∧ w'.handle = w.handle.clrForeignRam ∧
        w'.trace = w.trace ++ [mainRequest ramSize mainAlign p] ∨
      loadAddr ≠ 0 ∧ p = loadAddr ∧ ramSize ≤ loadSize ∧ w'.handle = w.handle.setForeignRam ∧
        w'.trace = w.trace) := by
  rw [provisionAddr] at h
  split at h
  next hz =>
    rw [Prog.run_modifyHandle_bind, Prog.run_bind_ok] at h
    obtain ⟨q, w1, hm, h⟩ := h
    have hw1 := externalMalloc_run hm
    split at h
    next => simp at h
    next hq =>
      simp only [Prog.run_pure, Prod.mk.injEq, Except.ok.injEq] at h
      obtain ⟨rfl, rfl⟩ := h
      rw [hw1]
      exact ⟨hq, rfl, Or.inl ⟨hz, rfl, rfl⟩⟩
  next hz =>
    rw [Prog.run_modifyHandle_bind] at h
    split at h
    next => simp at h
    next hs =>
      simp only [Prog.run_pure, Prod.mk.injEq, Except.ok.injEq] at h
      obtain ⟨rfl, rfl⟩ := h
      exact ⟨hz, rfl, Or.inr ⟨hz, rfl, UInt32.not_lt.mp hs, rfl, rfl⟩⟩

/-- The handle while the image is being checked. -/
def startHandle (image : Image) (mode : LoadMode) (mod : Module) : Module :=
  ({ mod with pHeader := image.pHeader }).setMode mode

/-- The worlds of a load that returns: `w1` after the checks, `w2` with the
block, `w3` with the payloads, `w4` relocated. -/
structure LoadStages (host : Host) (image : Image) (loadAddr : Addr) (loadSize : UInt32)
    (mode : LoadMode) (w w' : State) (tab : SectView) (ramSize ramAddr : UInt32)
    (w1 w2 w3 w4 : State) : Prop where
  header : udynlinkValidateHeader (decodeHeader w.mem image.pHeader) = .ok ()
  sectab : (getSectab image.pHeader true).run w.mem = (.ok (), tab)
  caps : CapsOk (decodeHeader w.mem image.pHeader) tab.num (entriesAt w.mem tab.pEntries) mode
    ramSize
  checked : ∃ as, w1 =
    (({ w with handle := startHandle image mode w.handle } : State)).log (readEvents as)
  provision : (provisionRam host image tab ((getMainAlign tab).run w.mem) ramSize loadAddr
    loadSize).run w1 = (.ok ramAddr, w2)
  place : (placeImage host image tab mode ramAddr).run w2 = (.ok (), w3)
  relocate : (udynlinkLoadApplyRelocations host image.pHeader image.pRelocations
    image.pSymtab).run w3 = (.ok (), w4)
  finished : ∃ as, w' = (({ w4 with handle :=
    { w4.handle with numNamedSyms := (computeNumNamedSyms w4.handle.pHeader).run w4.mem } } :
      State)).log (readEvents as)

theorem view_untagged {m : Mem} {p : Addr} {checkNames : Bool} {tab : SectView}
    (h : (getSectab p checkNames).run m = (.ok (), tab)) :
    tab.num = 0 ↔ isSectioned (decodeHeader m p) = false := by
  rcases getSectab_ok h with ⟨hs, rfl⟩ | ⟨-, ht, -⟩
  · exact iff_of_true rfl hs
  · have hpos := ht.num_pos
    have hsec := ht.sectioned
    simp only [hsec, Bool.true_eq_false, iff_false]
    omega

theorem loadExit_not_ok {tab : SectView} {mainAlign : UInt32} {res : Error} {w w' : State}
    {x : Unit} : (loadExit tab mainAlign res).run w ≠ (.ok x, w') := by
  intro h
  rw [loadExit] at h
  simp only [Prog.run_bind_ok, Prog.run_fail, Prod.mk.injEq, reduceCtorEq, false_and, and_false,
    exists_false] at h

theorem loadStages_of_ok {host : Host} {image : Image} {loadAddr : Addr} {loadSize : UInt32}
    {mode : LoadMode} {w w' : State}
    (h : (udynlinkLoadModuleImage host image loadAddr loadSize mode).run w = (.ok (), w')) :
    ∃ tab ramSize ramAddr w1 w2 w3 w4,
      LoadStages host image loadAddr loadSize mode w w' tab ramSize ramAddr w1 w2 w3 w4 := by
  rw [udynlinkLoadModuleImage] at h
  simp only [Prog.run_lift_bind, Prog.run_modifyHandle_bind, readHeader_run] at h
  split at h
  next => exact absurd h loadExit_not_ok
  next hval =>
    rw [Prog.run_lift_bind] at h
    rcases hst : (getSectab image.pHeader true).run w.mem with ⟨res, tab⟩
    simp only [World.log_mem, hst] at h
    cases res with
    | error e => exact absurd h loadExit_not_ok
    | ok u =>
      simp only [Prog.run_lift_bind, Prog.run_attempt_bind, World.log_mem, World.log_log,
        ← readEvents_append] at h
      generalize hw1 : World.log _ _ = w1 at h
      have hmem : w1.mem = w.mem := hw1 ▸ rfl
      rcases hb : (loadBody host image tab ((getMainAlign tab).run w.mem) loadAddr loadSize
        mode).run w1 with ⟨done, w5⟩
      rw [hb] at h
      cases done with
      | error e => exact absurd h loadExit_not_ok
      | ok u' =>
        simp only [Prog.run_pure, Prod.mk.injEq, true_and] at h
        subst h
        simp only [loadBody, Prog.run_bind_ok] at hb
        obtain ⟨ramSize, w1', hc, ramAddr, w2, hp, ⟨⟩, w3, hpl, ⟨⟩, w4, hr, hb⟩ := hb
        obtain ⟨bs, hbs⟩ := checkSizes_silent image tab mode w1
        rw [hc] at hbs
        dsimp only at hbs
        have hu : tab.num = 0 → isSectioned (decodeHeader w1.mem image.pHeader) = false :=
          fun hz => hmem ▸ (view_untagged hst).mp hz
        have hcaps := checkSizes_ok hu hc
        rw [hmem] at hcaps
        simp only [Prog.run_getHandle, Prog.liftM_eq_read, Prog.run_read, Prog.run_modifyHandle,
          Prod.mk.injEq, Except.ok.injEq] at hb
        obtain ⟨mod, wg, ⟨rfl, rfl⟩, n, wr, ⟨rfl, rfl⟩, -, rfl⟩ := hb
        refine ⟨tab, ramSize, ramAddr, w1', w2, w3, w4, hval, hst, hcaps, ?_, hp, hpl, hr, ?_⟩
        · rw [hbs, ← hw1, World.log_log, ← readEvents_append]
          exact ⟨_, rfl⟩
        · exact ⟨(computeNumNamedSyms w4.handle.pHeader).reads w4.mem, rfl⟩

end Udynlink
