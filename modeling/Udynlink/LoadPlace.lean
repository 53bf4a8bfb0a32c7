import Udynlink.LoadStages
import Udynlink.LoadRelocs

/-!
# The memory of a load

The blocks a load is given, and the transfers that fill them. A load is fair
when no two blocks overlap each other or the image; the allocator's contract and
the caller's own buffer promise no more than that.
-/

namespace Udynlink

open Machine

/-! ## Blocks -/

def grantedSpan : HostEvent → Option Span
  | .malloc size _ p => if p = 0 then none else some ⟨p, size.toNat⟩
  | .free _ _ => none
  | .resolve _ _ => none

/-- The caller's buffer, then everything the allocator granted. -/
def loadBlocks (loadAddr : Addr) (loadSize : UInt32) (hs : List HostEvent) : List Span :=
  (if loadAddr = 0 then [] else [⟨loadAddr, loadSize.toNat⟩]) ++ hs.filterMap grantedSpan

structure FairBlocks (source : List Span) (loadAddr : Addr) (loadSize : UInt32)
    (hs : List HostEvent) : Prop where
  pairwise : (loadBlocks loadAddr loadSize hs).Pairwise Span.Disjoint
  clear : ∀ s ∈ source, ∀ b ∈ loadBlocks loadAddr loadSize hs, s.Disjoint b

/-- One block, above the image. -/
theorem fairBlocks_above {source : List Span} {loadAddr : Addr} {loadSize : UInt32}
    {hs : List HostEvent} {b : Span} (hb : loadBlocks loadAddr loadSize hs = [b])
    (habove : ∀ s ∈ source, s.base.toNat + s.len ≤ b.base.toNat)
    (hend : b.base.toNat + b.len ≤ 2 ^ 32) : FairBlocks source loadAddr loadSize hs := by
  refine ⟨by rw [hb]; exact List.pairwise_singleton _ _, fun s hs' c hc => ?_⟩
  rw [hb] at hc
  rw [List.mem_singleton.mp hc]
  exact disjoint_of_le (habove s hs') hend

/-- Blocks in ascending order, all above the image. -/
theorem fairBlocks_ascending {source blocks : List Span} {loadAddr : Addr} {loadSize : UInt32}
    {hs : List HostEvent} (hb : loadBlocks loadAddr loadSize hs = blocks)
    (hpw : blocks.Pairwise fun s t =>
      s.base.toNat + s.len ≤ t.base.toNat ∧ t.base.toNat + t.len ≤ 2 ^ 32)
    (habove : ∀ s ∈ source, ∀ b ∈ blocks,
      s.base.toNat + s.len ≤ b.base.toNat ∧ b.base.toNat + b.len ≤ 2 ^ 32) :
    FairBlocks source loadAddr loadSize hs := by
  refine ⟨?_, fun s hs' b hmem => ?_⟩
  · rw [hb]
    exact hpw.imp fun h => disjoint_of_le h.1 h.2
  · rw [hb] at hmem
    exact disjoint_of_le (habove s hs' b hmem).1 (habove s hs' b hmem).2

/-! ## The main block -/

def ownedHandle (loadAddr : Addr) (mod : Module) : Module :=
  if loadAddr = 0 then mod.clrForeignRam else mod.setForeignRam

def provisionHandle (ramSize : UInt32) (loadAddr ramAddr : Addr) (mod : Module) : Module :=
  if ramSize = 0 then { mod with pRam := 0 } else { ownedHandle loadAddr mod with pRam := ramAddr }

@[simp] theorem provisionHandle_mode (ramSize : UInt32) (loadAddr ramAddr : Addr) (mod : Module) :
    (provisionHandle ramSize loadAddr ramAddr mod).mode = mod.mode := by
  rw [provisionHandle, ownedHandle]
  split
  · rfl
  · split
    · exact Module.mode_clrForeignRam mod
    · exact Module.mode_setForeignRam mod

@[simp] theorem provisionHandle_pHeader (ramSize : UInt32) (loadAddr ramAddr : Addr)
    (mod : Module) : (provisionHandle ramSize loadAddr ramAddr mod).pHeader = mod.pHeader := by
  rw [provisionHandle, ownedHandle]
  split
  · rfl
  · split <;> rfl

theorem provisionHandle_pRam {ramSize : UInt32} {loadAddr ramAddr : Addr} {mod : Module}
    (h : ramSize = 0 → ramAddr = 0) : (provisionHandle ramSize loadAddr ramAddr mod).pRam = ramAddr := by
  rw [provisionHandle]
  split
  next hz => exact (h hz).symm
  next => rfl

/-- The callback that provides the main block, when the loader provides it. -/
def mainHost (mainAlign ramSize : UInt32) (loadAddr ramAddr : Addr) : List HostEvent :=
  if ramSize = 0 ∨ loadAddr ≠ 0 then [] else [.malloc ramSize ⟨none, mainAlign, 0⟩ ramAddr]

def baseBlits (h : Header) (tab : SectView) (ramSize : UInt32) (ramAddr : Addr) : List Blit :=
  if ramSize = 0 ∨ tab.num = 0 then []
  else [.zero (ramAddr + h.numLot.toUInt32 * 4) (getNonmainBasesSize tab).toNat]

/-- A main block is non-NULL, aligned, and the caller's own where there is one. -/
structure BlockOk (mainAlign ramSize : UInt32) (loadAddr : Addr) (loadSize : UInt32)
    (ramAddr : Addr) : Prop where
  empty : ramSize = 0 → ramAddr = 0
  ne_zero : ramSize ≠ 0 → ramAddr ≠ 0
  aligned : ramAddr &&& (mainAlign - 1) = 0
  caller : ramSize ≠ 0 → loadAddr ≠ 0 → ramAddr = loadAddr ∧ ramSize ≤ loadSize

theorem zeroBaseArray_ok {image : Image} {tab : SectView} {ramSize : UInt32} {ramAddr : Addr}
    {w w' : State} (hram : ramSize ≠ 0)
    (h : (zeroBaseArray image tab ramAddr).run w = (.ok (), w')) :
    Filled w w' (baseBlits (decodeHeader w.mem image.pHeader) tab ramSize ramAddr) [] := by
  rw [zeroBaseArray] at h
  by_cases hn : tab.num > 0
  · rw [if_pos hn, Prog.run_lift_bind, readHeader_run] at h
    rw [baseBlits, if_neg (by simp only [hram, false_or]; omega)]
    exact Filled.of_log (Filled.of_zero h)
  · rw [if_neg hn, Prog.run_pure, Prod.mk.injEq] at h
    rw [baseBlits, if_pos (Or.inr (by omega)), ← h.2]
    exact Filled.refl w

theorem provisionRam_ok {host : Host} {image : Image} {tab : SectView}
    {mainAlign ramSize : UInt32} {loadAddr : Addr} {loadSize : UInt32} {w w' : State}
    {ramAddr : Addr}
    (h : (provisionRam host image tab mainAlign ramSize loadAddr loadSize).run w =
      (.ok ramAddr, w')) :
    BlockOk mainAlign ramSize loadAddr loadSize ramAddr ∧
      w'.handle = provisionHandle ramSize loadAddr ramAddr w.handle ∧
      Did w w' (Blit.applyAll
          (baseBlits (decodeHeader w.mem image.pHeader) tab ramSize ramAddr))
        ((baseBlits (decodeHeader w.mem image.pHeader) tab ramSize ramAddr).map Blit.span)
        (mainHost mainAlign ramSize loadAddr ramAddr) := by
  rw [provisionRam] at h
  by_cases hram : ramSize = 0
  · subst hram
    rw [if_neg (by decide), Prog.run_modifyHandle_bind, Prog.run_pure, Prod.mk.injEq,
      Except.ok.injEq] at h
    obtain ⟨rfl, rfl⟩ := h
    refine ⟨⟨fun _ => rfl, fun h => absurd rfl h, UInt32.zero_and, fun h => absurd rfl h⟩, rfl, ?_⟩
    exact Did.of_handle (Did.refl _)
  · rw [if_pos (UInt32.pos_iff_ne_zero.mpr hram), Prog.run_bind_ok] at h
    obtain ⟨p, w1, haddr, h⟩ := h
    obtain ⟨hp, hmem, hown⟩ := provisionAddr_ok haddr
    by_cases hal : (p &&& (mainAlign - 1)) ≠ 0
    · rw [if_pos hal, rejectUnaligned] at h
      split at h
      next =>
        rw [Prog.run_bind_ok] at h
        obtain ⟨⟨⟩, w2, -, h⟩ := h
        simp at h
      next => simp at h
    · rw [if_neg hal, Prog.run_modifyHandle_bind, Prog.run_bind_ok] at h
      obtain ⟨⟨⟩, w2, hzero, h⟩ := h
      rw [Prog.run_pure, Prod.mk.injEq, Except.ok.injEq] at h
      obtain ⟨rfl, rfl⟩ := h
      have hfill := zeroBaseArray_ok hram hzero
      dsimp only at hfill
      have hask : Did w w1 id [] (mainHost mainAlign ramSize loadAddr p) := by
        rcases hown with ⟨hz, -, htr⟩ | ⟨hnz, -, -, -, htr⟩
        · rw [mainHost, if_neg (by simp [hram, hz])]
          refine ⟨hmem, [mainRequest ramSize mainAlign p], ⟨htr, fun a _ => congrFun hmem a⟩, rfl,
            fun s hs => ?_⟩
          simp [mainRequest] at hs
        · rw [mainHost, if_pos (Or.inr hnz)]
          exact ⟨hmem, [], ⟨by rw [htr, List.append_nil], fun a _ => congrFun hmem a⟩, rfl,
            fun s hs => absurd hs List.not_mem_nil⟩
      refine ⟨⟨fun hz => absurd hz hram, fun _ => hp, not_not.mp hal, fun _ hl => ?_⟩, ?_, ?_⟩
      · rcases hown with ⟨hz, -⟩ | ⟨-, hpl, hle, -⟩
        · exact absurd hz hl
        · exact ⟨hpl, hle⟩
      · rw [hfill.handle, provisionHandle, if_neg hram, ownedHandle]
        rcases hown with ⟨hz, hh, -⟩ | ⟨hnz, -, -, hh, -⟩
        · rw [hh, if_pos hz]
        · rw [hh, if_neg hnz]
      · have hd := hask.trans (Did.of_handle hfill.did)
        rw [List.nil_append, List.append_nil, hmem] at hd
        exact hd

/-- The main block lies in a block of the load. -/
theorem BlockOk.subset {mainAlign ramSize : UInt32} {loadAddr : Addr} {loadSize : UInt32}
    {ramAddr : Addr} (hb : BlockOk mainAlign ramSize loadAddr loadSize ramAddr)
    (hram : ramSize ≠ 0) (hs : List HostEvent) :
    ∃ b ∈ loadBlocks loadAddr loadSize (mainHost mainAlign ramSize loadAddr ramAddr ++ hs),
      (⟨ramAddr, ramSize.toNat⟩ : Span) ⊆ b := by
  by_cases hl : loadAddr = 0
  · refine ⟨⟨ramAddr, ramSize.toNat⟩, ?_, Span.subset_refl _⟩
    rw [loadBlocks, if_pos hl, mainHost, if_neg (by simp [hram, hl]), List.nil_append,
      List.cons_append, List.filterMap_cons_some (b := ⟨ramAddr, ramSize.toNat⟩)
        (by simp [grantedSpan, hb.ne_zero hram])]
    exact List.mem_cons_self
  · obtain ⟨rfl, hle⟩ := hb.caller hram hl
    refine ⟨⟨ramAddr, loadSize.toNat⟩, ?_, prefix_subset (UInt32.le_iff_toNat_le.mp hle)⟩
    rw [loadBlocks, if_neg hl]
    exact List.mem_append_left _ (List.mem_singleton_self _)

/-- The callbacks of a load: the main block, the stages, nothing else. -/
theorem LoadStages.callbacks {host : Host} {image : Image} {loadAddr : Addr} {loadSize : UInt32}
    {mode : LoadMode} {w w' : State} {tab : SectView} {ramSize : UInt32} {ramAddr : Addr}
    {w1 w2 w3 w4 : State}
    (hs : LoadStages host image loadAddr loadSize mode w w' tab ramSize ramAddr w1 w2 w3 w4)
    {evs e2 e3 : List (Event HostEvent)} (he : w.Extends w' evs) (h2 : w2.Extends w3 e2)
    (h3 : w3.Extends w4 e3) :
    hostEvents evs = mainHost ((getMainAlign tab).run w.mem) ramSize loadAddr ramAddr ++
      (hostEvents e2 ++ hostEvents e3) := by
  obtain ⟨as, hw1⟩ := hs.checked
  obtain ⟨bs, hw'⟩ := hs.finished
  have hstart : w.Extends w1 (readEvents as) := hw1 ▸ ⟨rfl, fun _ _ => rfl⟩
  have hend : w4.Extends w' (readEvents bs) := hw' ▸ ⟨rfl, fun _ _ => rfl⟩
  obtain ⟨e1, h1, hh1, -⟩ := (provisionRam_ok hs.provision).2.2.events
  rw [he.unique (hstart.trans (h1.trans (h2.trans (h3.trans hend))))]
  simp only [hostEvents_append, hostEvents_readEvents, List.nil_append, List.append_nil, hh1]

/-! ## The relocation stage -/

theorem getSectab_unnamed {p : Addr} {m : Mem} {tab : SectView}
    (h : (getSectab p true).run m = (.ok (), tab)) :
    (getSectab p false).run m = (.ok (), tab) := by
  rcases getSectab_ok h with ⟨hs, rfl⟩ | ⟨rfl, ht, -⟩
  · rw [getSectab_untagged hs] at h ⊢
    exact h
  · rcases getSectab_sectioned false ht.sectioned with ⟨-, -, hr⟩ | ⟨hn, -⟩
    · exact hr
    · exact absurd ⟨ht, namesOk_false _ _ _⟩ hn

/-- The walk of a load, behind the second parse of the table. -/
theorem loadApplyRelocations_ok {host : Host} (src : RelocSource) {tab : SectView}
    {w w' : State} (htab : (getSectab src.pHeader false).run w.mem = (.ok (), tab))
    (h : (udynlinkLoadApplyRelocations host src.pHeader src.pRelocations src.pSymtab).run w =
      (.ok (), w')) :
    ∃ as, (applyRelocationsLoop host src.pHeader src.pRelocations src.pSymtab tab
      (decide (tab.num > 0)) (decodeHeader w.mem src.pHeader).numRels.toNat 0).run
        (w.log (readEvents as)) = (.ok (), w') := by
  rw [udynlinkLoadApplyRelocations, Prog.run_lift_bind, readHeader_run, Prog.run_lift_bind,
    World.log_mem, htab, World.log_log, ← readEvents_append] at h
  dsimp only at h
  rw [if_neg (by simp)] at h
  simp only [true_and] at h
  exact ⟨_, h⟩

end Udynlink
