import Udynlink.LinkResolved

/-!
# Deferred linking

A load that puts names off and is linked afterwards, beside a load that had all answers.
Either way the slots are patched once each, so what differs is a value: a weak symbol that
was put off keeps the module's own address.
-/

namespace Udynlink

open Machine

/-- A host that answers by name. -/
def Host.answering (malloc : State → UInt32 → BlockTag → Addr) (r : List UInt8 → Addr) : Host :=
  ⟨malloc, fun _ name => r name⟩

/-- A placed module with distinct slots apart from all tables, the image's and its own, which
say the same. -/
structure Relinkable (w : State) (src : RelocSource) : Prop extends LinkTables w where
  here : w.handle.pHeader ≠ 0
  srcWalk : WalkIn (BesideSlots w) w.handle (srcView w src) src (numLinks w) w.mem
  accepted : ((getSectab src.pHeader false).run w.mem).1 = .ok ()
  links : (decodeHeader w.mem src.pHeader).numRels.toNat = numLinks w
  entry : ∀ k, k < numLinks w → (readRelocation src.pRelocations k).run w.mem = linkEntry w k
  slot : ∀ k, k < numLinks w → relocSlot w.handle (srcView w src) src w.mem k = linkSlot w k
  sym : ∀ k, k < numLinks w → isBaseRelocation (linkEntry w k).2 = false →
    ∀ s, relocSym src w.mem (linkEntry w k).2 = some s →
      ∃ s', relocSym (ownSource w) w.mem (linkEntry w k).2 = some s' ∧ s'.type = s.type ∧
        (readSymName s'.name).run w.mem = (readSymName s.name).run w.mem ∧
        (readSymName s.name).Within (BesideSlots w) w.mem ∧
        (readSymName s'.name).Within (BesideSlots w) w.mem
  apart : ∀ i k, i < numLinks w → k < numLinks w → i ≠ k →
    Span.Disjoint ⟨linkSlot w i, 4⟩ ⟨linkSlot w k, 4⟩

/-- Where the load puts the module's own words. -/
def loadPlacement (w : State) (src : RelocSource) : Placement :=
  placementOf w.handle (srcView w src) (decide ((srcView w src).num > 0)) w.mem

/-- What a load does to slot `k`. -/
def loadPatch (r : List UInt8 → Addr) (w : State) (src : RelocSource) (k : Nat) : Patch :=
  ⟨linkSlot w k, refWord (loadPlacement w src) (fun s => r ((readSymName s).run w.mem))
    (linkEntry w k).2 (relocSym src w.mem (linkEntry w k).2)⟩

/-- The word an extern slot is linked to. -/
def linkWord (r : List UInt8 → Addr) (w : State) (k : Nat) : Option UInt32 :=
  if isBaseRelocation (linkEntry w k).2 then none
  else match relocSym (ownSource w) w.mem (linkEntry w k).2 with
    | none => none
    | some s =>
      if s.type = symTypeExtern then some (externWord (r ((readSymName s.name).run w.mem))) else none

/-- What an incremental pass does to slot `k`. -/
def linkPatch (r : List UInt8 → Addr) (w : State) (k : Nat) : Patch :=
  ⟨linkSlot w k, fun word => if word ≠ 0 then none else linkWord r w k⟩

/-- A slot of an extern symbol that holds no address, in a world where only slots have
changed. -/
def Unresolved (w v : State) (k : Nat) : Prop :=
  v.mem.u32 (linkSlot w k) = 0 ∧ isBaseRelocation (linkEntry w k).2 = false ∧
    ∃ s, relocSym (ownSource w) w.mem (linkEntry w k).2 = some s ∧ s.type = symTypeExtern

/-- Linking `w1` ends with the memory of `w2`, a second pass changes nothing, and a pass
changes slots of unresolved symbols only, whatever the slots hold. -/
structure ConfluentLink (host : Host) (w1 w2 : State) : Prop where
  same : ((udynlinkLinkIncremental host).run w1).2.mem = w2.mem
  twice : ((udynlinkLinkIncremental host).run ((udynlinkLinkIncremental host).run w1).2).2.mem =
    ((udynlinkLinkIncremental host).run w1).2.mem
  frame : ∀ v, SameModule w1 v → ∀ a,
    (∀ k, k < numLinks w1 → Unresolved w1 v k → a ∉ (⟨linkSlot w1 k, 4⟩ : Span)) →
      ((udynlinkLinkIncremental host).run v).2.mem a = v.mem a

section

variable {w v v' : State} {src : RelocSource} {r : List UInt8 → Addr} {host : Host} {k : Nat}

/-! ## A family of patches, one for each slot -/

theorem SameModule.trans {u : State} (h : SameModule w v) (hl : LinkTables w) (h' : SameModule v u) :
    SameModule w u := by
  refine ⟨h'.handle.trans h.handle, fun a ha => (h.agree a ha).trans (h'.agree a ?_)⟩
  rw [hl.beside h]
  exact ha

theorem SameModule.patch (h : SameModule w v) (hk : k < numLinks w) {p : Patch}
    (hp : p.slot = linkSlot w k) (hh : v'.handle = v.handle) (hm : v'.mem = p.apply v.mem) :
    SameModule w v' := by
  refine ⟨hh.trans h.handle, fun a ha => ?_⟩
  have hnot : a ∉ p.span := by
    rw [Patch.span, hp]
    exact ha k hk
  rw [hm, Patch.apply_notMem hnot]
  exact h.agree a ha

/-! ## The incremental pass -/

@[simp] theorem linkPatch_slot : (linkPatch r w k).slot = linkSlot w k := rfl

theorem linkPatch_full {word : UInt32} (h : word ≠ 0) : (linkPatch r w k).value word = none :=
  if_pos h

theorem linkPatch_empty : (linkPatch r w k).value 0 = linkWord r w k := by
  simp [linkPatch]

/-- One entry is one patch. -/
theorem linkExtern_patch (hl : LinkTables w) (hs : SameModule w v) (hk : k < numLinks w)
    (hne : linkSlot w k ≠ 0) (hres : ∀ u name, host.resolve u name = r name)
    (hname : ∀ s, isBaseRelocation (linkEntry w k).2 = false →
      relocSym (ownSource w) w.mem (linkEntry w k).2 = some s →
        (readSymName s.name).Within (BesideSlots w) w.mem) :
    ∃ v', (linkExtern host (ownView w) true (linkEntry w k)).run v = (.ok (), v') ∧
      v'.handle = v.handle ∧ v'.mem = (linkPatch r w k).apply v.mem := by
  have hslot := target_eq hl hs hk
  have hnone : linkWord r w k = none → (linkPatch r w k).apply v.mem = v.mem := by
    intro hw
    refine Patch.apply_of_none ?_
    by_cases hz : v.mem.u32 (linkPatch r w k).slot = 0
    · rw [hz, linkPatch_empty, hw]
    · exact linkPatch_full hz
  rw [linkExtern, Prog.run_getHandle_bind]
  cases hb : isBaseRelocation (linkEntry w k).2 with
  | true => exact ⟨v, rfl, rfl, (hnone (if_pos hb)).symm⟩
  | false =>
    have hget : (getSymAt v.handle.pHeader (linkEntry w k).2).run v.mem =
        relocSym (ownSource w) w.mem (linkEntry w k).2 := hl.sym hs hb
    rw [if_neg Bool.false_ne_true, Prog.run_lift_bind, hget]
    cases hsym : relocSym (ownSource w) w.mem (linkEntry w k).2 with
    | none =>
      refine ⟨_, rfl, rfl, (hnone ?_).symm⟩
      rw [linkWord, hb, if_neg Bool.false_ne_true, hsym]
    | some s =>
      have hword : linkWord r w k = if s.type = symTypeExtern then
          some (externWord (r ((readSymName s.name).run w.mem))) else none := by
        rw [linkWord, hb, if_neg Bool.false_ne_true, hsym]
      dsimp only
      by_cases hty : s.type = symTypeExtern
      · rw [if_neg (not_not.mpr hty), Prog.run_lift_bind, World.log_mem, hslot, if_neg hne]
        generalize hv2 : World.log (World.log v _) _ = v2
        have hm2 : v2.mem = v.mem := by
          rw [← hv2]
          rfl
        have hh2 : v2.handle = v.handle := by
          rw [← hv2]
          rfl
        rw [Prog.run_lift_bind]
        by_cases hlk : (slotLinked true (linkSlot w k)).run v2.mem = true
        · -- the slot is linked already
          rw [if_pos hlk]
          refine ⟨_, rfl, hh2, hm2.trans (Patch.apply_of_none ?_).symm⟩
          have hfull : v2.mem.u32 (linkSlot w k) ≠ 0 := bne_iff_ne.mp hlk
          rw [hm2] at hfull
          rw [linkPatch_slot, linkPatch_full hfull]
        · rw [if_neg hlk]
          have hzero : v.mem.u32 (linkSlot w k) = 0 := by
            by_contra hfull
            rw [← hm2] at hfull
            exact hlk (bne_iff_ne.mpr hfull)
          obtain ⟨ans, v', hrun, ⟨wq, hans⟩, hh, hm, -⟩ := storeResolved_run host s.name (linkSlot w k)
            (v2.log (readEvents ((slotLinked true (linkSlot w k)).reads v2.mem)))
          have hread : (readSymName s.name).run v2.mem = (readSymName s.name).run w.mem := by
            rw [hm2]
            exact (hname s hb hsym).congr hs.agree
          refine ⟨v', hrun, hh.trans hh2, ?_⟩
          have hq : ans = host.resolve wq ((readSymName s.name).run v2.mem) := hans
          have hm3 : v'.mem = v2.mem.set32 (linkSlot w k) (externWord ans) := hm
          rw [hread, hres] at hq
          have hvalue : (linkPatch r w k).value (v.mem.u32 (linkPatch r w k).slot) =
              some (externWord ans) := by
            rw [linkPatch_slot, hzero, linkPatch_empty, hword, if_pos hty, hq]
          rw [hm3, hm2, Patch.apply_of_some hvalue, linkPatch_slot]
      · rw [if_pos hty]
        refine ⟨_, rfl, rfl, (hnone ?_).symm⟩
        rw [hword, if_neg hty]

/-- The pass is a family of patches. -/
theorem linkExternLoop_patches (hl : LinkTables w) (hne : ∀ k, k < numLinks w → linkSlot w k ≠ 0)
    (hres : ∀ u name, host.resolve u name = r name)
    (hname : ∀ k, k < numLinks w → ∀ s, isBaseRelocation (linkEntry w k).2 = false →
      relocSym (ownSource w) w.mem (linkEntry w k).2 = some s →
        (readSymName s.name).Within (BesideSlots w) w.mem)
    {n i : Nat} (hi : i + n ≤ numLinks w) (hs : SameModule w v) :
    ∃ v', (linkExternLoop host (ownSource w).pRelocations (ownView w) true n i).run v =
        (.ok (), v') ∧ SameModule w v' ∧
      v'.mem = Patch.applyAll ((List.range' i n).map (linkPatch r w)) v.mem := by
  induction n generalizing i v with
  | zero => exact ⟨v, rfl, hs, rfl⟩
  | succ n ih =>
    have hentry : (readRelocation (ownSource w).pRelocations i).run v.mem = linkEntry w i := by
      have he := hl.entry hs (k := i) (by omega)
      unfold linkEntry at he ⊢
      rw [hl.source hs] at he
      exact he
    rw [linkExternLoop, Prog.run_lift_bind, hentry]
    have hs1 : SameModule w
        (v.log (readEvents ((readRelocation (ownSource w).pRelocations i).reads v.mem))) :=
      ⟨hs.handle, hs.agree⟩
    obtain ⟨v1, hone, hh1, hm1⟩ := linkExtern_patch hl hs1 (k := i) (by omega) (hne i (by omega)) hres
      (hname i (by omega))
    rw [World.log_mem] at hm1
    rw [Prog.run_bind_of_ok hone]
    have hs2 : SameModule w v1 := hs.patch (k := i) (by omega) rfl hh1 hm1
    obtain ⟨v2, hrest, hs3, hm2⟩ := ih (i := i + 1) (by omega) hs2
    exact ⟨v2, hrest, hs3, by rw [hm2, hm1]; rfl⟩

/-- `udynlink_link_incremental` on the module of `w`, whatever its slots hold. -/
theorem linkIncremental_patches (hl : LinkTables w) (hhere : w.handle.pHeader ≠ 0)
    (hne : ∀ k, k < numLinks w → linkSlot w k ≠ 0) (hres : ∀ u name, host.resolve u name = r name)
    (hname : ∀ k, k < numLinks w → ∀ s, isBaseRelocation (linkEntry w k).2 = false →
      relocSym (ownSource w) w.mem (linkEntry w k).2 = some s →
        (readSymName s.name).Within (BesideSlots w) w.mem)
    (hs : SameModule w v) :
    ∃ v', (udynlinkLinkIncremental host).run v = (.ok (), v') ∧ SameModule w v' ∧
      v'.mem = Patch.applyAll ((List.range' 0 (numLinks w)).map (linkPatch r w)) v.mem := by
  have hrels : getRelocsPointer v.handle.pHeader (decodeHeader v.mem v.handle.pHeader) =
      (ownSource w).pRelocations := congrArg RelocSource.pRelocations (hl.source hs)
  have hnum : (decodeHeader v.mem v.handle.pHeader).numRels.toNat = numLinks w :=
    hl.links hs
  have htab : ((getSectab v.handle.pHeader false).run v.mem).2 = ownView w := hl.tab hs
  have hthere : ¬ v.handle.pHeader = 0 := by
    rw [hs.handle]
    exact hhere
  rw [udynlinkLinkIncremental, Prog.run_getHandle_bind, if_neg hthere, applyExternRelocationsImpl,
    Prog.run_getHandle_bind, Prog.run_lift_bind, readHeader_run, Prog.run_lift_bind, World.log_mem]
  rcases hst : (getSectab v.handle.pHeader false).run v.mem with ⟨res, tab⟩
  rw [hst] at htab
  dsimp only at htab ⊢
  rw [htab, hrels, hnum]
  exact linkExternLoop_patches hl hne hres hname (by omega) ⟨hs.handle, hs.agree⟩

/-! ## The load -/

/-- An answer of the walk is the answer to the name. -/
theorem loadPatch_eq (hl : Relinkable w src) (hk : k < numLinks w)
    (hres : ∀ u name, host.resolve u name = r name) {m : Mem} {ans : UInt32}
    (hok : EntryOk host (BesideSlots w) w.handle (srcView w src)
      (decide ((srcView w src).num > 0)) src w.mem m k ans) :
    relocPatch (fun _ => ans) w.handle (srcView w src) (decide ((srcView w src).num > 0)) src
      w.mem k = loadPatch r w src k := by
  have hans := hok.answered
  unfold relocPatch loadPatch
  rw [hl.slot k hk]
  rw [hl.entry k hk] at hans ⊢
  refine Patch.mk.injEq .. |>.mpr ⟨rfl, funext fun word => ?_⟩
  cases hb : isBaseRelocation (linkEntry w k).2 with
  | true => rw [refWord_base _ hb, refWord_base _ hb, loadPlacement]
  | false =>
    cases hs : relocSym src w.mem (linkEntry w k).2 with
    | none => simp [refWord, hb]
    | some s =>
      have hread : s.type = symTypeWeak ∨ s.type = symTypeExtern →
          ans = r ((readSymName s.name).run w.mem) := by
        intro ht
        obtain ⟨u, m', hag, he⟩ := hans hb s hs ht
        obtain ⟨-, -, -, -, hw, -⟩ := hl.sym k hk hb s hs
        rw [hres, hw.congr hag] at he
        exact he
      rw [refWord_sym hb, refWord_sym hb, loadPlacement]
      by_cases hweak : s.type = symTypeWeak
      · rw [hread (Or.inl hweak)]
      · by_cases hext : s.type = symTypeExtern
        · rw [hread (Or.inr hext)]
        · rw [if_neg hweak, if_neg hext, if_neg hweak, if_neg hext]

/-- What a load has found of entry `k`: it can be applied to the placed module, and an extern
symbol has an answer. -/
structure EntryFound (r : List UInt8 → Addr) (w : State) (src : RelocSource) (k : Nat) : Prop where
  ok : RelocOk (loadPlacement w src) (decodeHeader w.mem src.pHeader).numLot (linkEntry w k)
    (relocSym src w.mem (linkEntry w k).2) (linkSlot w k) (w.mem.u32 (linkSlot w k))
  answered : isBaseRelocation (linkEntry w k).2 = false →
    ∀ s, relocSym src w.mem (linkEntry w k).2 = some s → s.type = symTypeExtern →
      r ((readSymName s.name).run w.mem) ≠ 0

theorem EntryFound.sym (h : EntryFound r w src k)
    (hb : isBaseRelocation (linkEntry w k).2 = false) :
    ∃ s, relocSym src w.mem (linkEntry w k).2 = some s :=
  (h.ok.sym hb).imp fun _ hs => hs.1

theorem loadSectioned (w : State) (src : RelocSource) :
    decide ((srcView w src).num > 0) = false → (srcView w src).num = 0 := by
  intro h
  have hle := of_decide_eq_false h
  omega

theorem srcEntry (hl : Relinkable w src) (hs : SameModule w v) (hk : k < numLinks w) :
    (readRelocation src.pRelocations k).run v.mem = linkEntry w k :=
  (hl.srcWalk.entry (LinkTables.numLinks_lt w) hs.agree hk).trans (hl.entry k hk)

theorem srcSlot (hl : Relinkable w src) (hs : SameModule w v) (hk : k < numLinks w) :
    (getRelocTarget v.handle (srcView w src) (linkEntry w k).1).run v.mem = linkSlot w k := by
  have hslot := hl.srcWalk.slot (LinkTables.numLinks_lt w) hs.agree hk
  unfold relocSlot at hslot
  rw [srcEntry hl hs hk] at hslot
  rw [hs.handle, hslot]
  exact hl.slot k hk

theorem srcUntagged (hl : Relinkable w src) (hs : SameModule w v) :
    decide ((srcView w src).num > 0) = false →
      isSectioned (decodeHeader v.mem v.handle.pHeader) = false := by
  intro h
  rw [hs.handle, hl.srcWalk.ownHeader hs.agree]
  exact hl.srcWalk.untagged (loadSectioned w src h)

/-- One relocation leaves everything but its slot. -/
theorem applyRelocation_same (hl : Relinkable w src) (hs : SameModule w v) (hk : k < numLinks w)
    (hrun : (applyRelocation host src.pHeader src.pRelocations src.pSymtab (srcView w src)
      (decide ((srcView w src).num > 0)) k).run v = (.ok (), v')) :
    SameModule w v' ∧ ∀ a, a ∉ (⟨linkSlot w k, 4⟩ : Span) → v'.mem a = v.mem a := by
  obtain ⟨hh, -, ans, es, -, -, hd⟩ := applyRelocation_ok (srcUntagged hl hs) hrun
  have hslot : relocSlot v.handle (srcView w src) src v.mem k = linkSlot w k := by
    unfold relocSlot
    rw [srcEntry hl hs hk]
    exact srcSlot hl hs hk
  have hkeep : ∀ a, a ∉ (⟨linkSlot w k, 4⟩ : Span) → v'.mem a = v.mem a := by
    intro a ha
    refine hd.notMem fun s hsp => ?_
    rw [relocSpans_sub hsp, hslot]
    exact ha
  exact ⟨⟨hh.trans hs.handle, fun a ha => (hs.agree a ha).trans (hkeep a (ha k hk)).symm⟩, hkeep⟩

/-- Every extern symbol of a walk that returns has an answer. -/
theorem applyRelocationsLoop_answered (hl : Relinkable w src)
    (hres : ∀ u name, host.resolve u name = r name) {n i : Nat} (hi : i + n ≤ numLinks w)
    (hs : SameModule w v)
    (hrun : (applyRelocationsLoop host src.pHeader src.pRelocations src.pSymtab (srcView w src)
      (decide ((srcView w src).num > 0)) n i).run v = (.ok (), v')) :
    ∀ k, i ≤ k → k < i + n → isBaseRelocation (linkEntry w k).2 = false →
      ∀ s, relocSym src w.mem (linkEntry w k).2 = some s → s.type = symTypeExtern →
        r ((readSymName s.name).run w.mem) ≠ 0 := by
  induction n generalizing i v with
  | zero =>
    intro k hk hlt
    omega
  | succ n ih =>
    rw [applyRelocationsLoop, Prog.run_bind_ok] at hrun
    obtain ⟨⟨⟩, v1, hone, hrest⟩ := hrun
    have hsame := (applyRelocation_same hl hs (by omega) hone).1
    intro k hk hlt hb s hsym ht
    rcases Nat.eq_or_lt_of_le hk with rfl | hgt
    · have hrel : (readRelocation src.pRelocations i).run v.mem =
          ((linkEntry w i).1, (linkEntry w i).2) := srcEntry hl hs (by omega)
      obtain ⟨-, -, -, -, hw, -⟩ := hl.sym i (by omega) hb s hsym
      obtain ⟨ans, ⟨⟨wq, hans⟩, hne⟩, -⟩ := applyRelocation_extern hrel hb
        ((hl.srcWalk.sym hs.agree hb).trans hsym) ht hone
      rw [hres, hw.congr hs.agree] at hans
      exact hans ▸ hne
    · exact ih (by omega) hsame hrest k hgt (by omega) hb s hsym ht

/-- A load that returns is a family of patches, and has found all entries. -/
theorem loadApplyRelocations_patches (hl : Relinkable w src)
    (hres : ∀ u name, host.resolve u name = r name)
    (hrun : (udynlinkLoadApplyRelocations host src.pHeader src.pRelocations src.pSymtab).run w =
      (.ok (), v)) :
    SameModule w v ∧
      v.mem = Patch.applyAll ((List.range' 0 (numLinks w)).map (loadPatch r w src)) w.mem ∧
      ∀ k, k < numLinks w → EntryFound r w src k := by
  have htab : (getSectab src.pHeader false).run w.mem = (.ok (), srcView w src) :=
    Prod.ext hl.accepted rfl
  obtain ⟨as, hloop⟩ := loadApplyRelocations_ok src htab hrun
  rw [hl.links] at hloop
  have hclear : ∀ k, k < numLinks w → relocSlot w.handle (srcView w src) src w.mem k ≠ 0 →
      ∀ s ∈ relocSpans w.handle (srcView w src) src w.mem k, ∀ a, BesideSlots w a → a ∉ s := by
    intro k hk _ s hsp a ha
    rw [relocSpans_sub hsp, hl.slot k hk]
    exact ha k hk
  obtain ⟨hh, ans, hev, -, hdid, hall⟩ := applyRelocationsLoop_ok hl.srcWalk
    (LinkTables.numLinks_lt w) (loadSectioned w src) hclear (n := numLinks w) (i := 0) (by omega)
    (w := w.log (readEvents as)) rfl (fun _ _ => rfl) hloop
  have hpatch : ∀ k, k < numLinks w → relocPatch (fun _ => ans k) w.handle (srcView w src)
      (decide ((srcView w src).num > 0)) src w.mem k = loadPatch r w src k := by
    intro k hk
    have hok := hall k hk
    rw [Nat.zero_add] at hok
    exact loadPatch_eq hl hk hres hok
  have hpatches : ∀ n, n ≤ numLinks w → relocPatches ans w.handle (srcView w src)
      (decide ((srcView w src).num > 0)) src w.mem 0 n =
        (List.range' 0 n).map (loadPatch r w src) := by
    intro n hn
    refine List.map_congr_left fun k hk => hpatch k ?_
    have hlt := (List.mem_range'_1.mp hk).2
    omega
  have hmem : v.mem = Patch.applyAll ((List.range' 0 (numLinks w)).map (loadPatch r w src)) w.mem := by
    rw [← hpatches (numLinks w) (Nat.le_refl _)]
    exact hdid.mem
  have hanswered := applyRelocationsLoop_answered hl hres (v := w.log (readEvents as)) (by omega)
    ⟨rfl, fun _ _ => rfl⟩ hloop
  refine ⟨⟨hh, fun a ha => ?_⟩, hmem, fun k hk => ⟨?_, hanswered k (Nat.zero_le k) (by omega)⟩⟩
  · rw [hmem]
    refine (Patch.applyAll_notMem (fun p hp => ?_) w.mem).symm
    obtain ⟨k, hk, rfl⟩ := List.mem_map.mp hp
    have hlt := (List.mem_range'_1.mp hk).2
    exact ha k (by omega)
  · have hok := (hall k hk).ok
    rw [Nat.zero_add, hl.entry k hk, hl.slot k hk, hpatches k (Nat.le_of_lt hk)] at hok
    have hword : w.mem.u32 (linkSlot w k) =
        (Patch.applyAll ((List.range' 0 k).map (loadPatch r w src)) w.mem).u32 (linkSlot w k) := by
      refine AgreeOn.u32 (Patch.applyAll_agree (fun p hp => ?_) w.mem)
      obtain ⟨i, hi, rfl⟩ := List.mem_map.mp hp
      have hlt := (List.mem_range'_1.mp hi).2
      exact hl.apart k i hk (by omega) (by omega)
    rw [hword]
    exact hok

/-! ## A walk that returns -/

theorem resolveSymbol_total (host : Host) (name : SymName) : (resolveSymbol host name).Total :=
  Prog.total_bind (Prog.total_lift _) fun _ => Prog.total_host _

theorem applyBaseRelocation_returns {pHeader : Addr} {tab : SectView} {sectioned : Bool}
    {rel : UInt32 × UInt32} {t : UInt32}
    (hlot : ¬ rel.1 < (decodeHeader v.mem pHeader).numLot.toUInt32)
    (hne : (getRelocTarget v.handle tab rel.1).run v.mem ≠ 0)
    (ht : (placementOf v.handle tab sectioned v.mem).rebase rel.2
      (v.mem.u32 ((getRelocTarget v.handle tab rel.1).run v.mem)) = some t) :
    ∃ v', (applyBaseRelocation pHeader tab sectioned rel.1 rel.2).run v = (.ok (), v') := by
  rw [applyBaseRelocation, Prog.run_getHandle_bind, Prog.run_lift_bind, readHeader_run, if_neg hlot,
    Prog.run_lift_bind, World.log_mem, if_neg hne, Prog.run_lift_bind]
  simp only [World.log_mem, World.log_log, ← readEvents_append, Reader.run_u32]
  cases sectioned with
  | true =>
    have hva : (resolveRuntimeVa v.handle tab (v.mem.u32 ((getRelocTarget v.handle tab rel.1).run
      v.mem))).run v.mem = some t := ht
    rw [if_pos rfl, Prog.run_lift_bind, World.log_mem, hva]
    exact ⟨_, rfl⟩
  | false =>
    rw [if_neg Bool.false_ne_true]
    split
    · exact ⟨_, rfl⟩
    · exact ⟨_, rfl⟩

theorem applySymRelocation_returns {pHeader pSymtab : Addr} {tab : SectView} {sectioned : Bool}
    {rel : UInt32 × UInt32} {s : Sym}
    (hu : sectioned = false → isSectioned (decodeHeader v.mem v.handle.pHeader) = false)
    (hsym : (getSymAtRaw pSymtab rel.2 (decodeHeader v.mem pHeader).symtSize).run v.mem = some s)
    (hne : (getRelocTarget v.handle tab rel.1).run v.mem ≠ 0)
    (hname : s.type ≠ symTypeModuleName)
    (hown : isOwnSymbol s → ∃ t, (placementOf v.handle tab sectioned v.mem).own s = some t)
    (hres : ∀ u name, host.resolve u name = r name)
    (hext : s.type = symTypeExtern → r ((readSymName s.name).run v.mem) ≠ 0) :
    ∃ v', (applySymRelocation host pHeader pSymtab tab sectioned rel.1 rel.2).run v =
      (.ok (), v') := by
  rw [applySymRelocation, Prog.run_getHandle_bind, Prog.run_lift_bind, readHeader_run,
    Prog.run_lift_bind, World.log_mem, hsym]
  dsimp only
  rw [Prog.run_lift_bind]
  simp only [World.log_mem, World.log_log, ← readEvents_append]
  rw [if_neg hne]
  generalize hv2 : World.log v _ = v2
  have hm2 : v2.mem = v.mem := by
    rw [← hv2]
    rfl
  have htarget : isOwnSymbol s → ∃ t, (ownAddress v.handle tab sectioned s).run v2.mem = some t := by
    intro ho
    obtain ⟨t, ht⟩ := hown ho
    exact ⟨t, by rw [hm2, ownAddress_run hu ho, ht]⟩
  by_cases hint : s.type = symTypeInternal ∨ s.type = symTypeExported
  · obtain ⟨t, ht⟩ := htarget (hint.elim Or.inl fun h => Or.inr (Or.inl h))
    rw [if_pos hint, Prog.run_lift_bind, ht]
    exact ⟨_, rfl⟩
  · rw [if_neg hint]
    by_cases hweak : s.type = symTypeWeak
    · obtain ⟨t, ht⟩ := htarget (Or.inr (Or.inr hweak))
      rw [if_pos hweak, Prog.run_lift_bind, ht]
      have htotal := Prog.total_bind (Prog.total_set32 (σ := Module) (ε := HostEvent) (κ := Error)
          ((getRelocTarget v.handle tab rel.1).run v.mem) t) fun _ =>
        Prog.total_bind (resolveSymbol_total host s.name) fun symAddr =>
          Prog.total_ite (c := symAddr = symDeferred) (Prog.total_pure ())
            (Prog.total_ite (c := symAddr > 0)
              (Prog.total_set32 ((getRelocTarget v.handle tab rel.1).run v.mem) symAddr)
              (Prog.total_pure ()))
      obtain ⟨u, v', hrun⟩ := htotal (v2.log (readEvents
        ((ownAddress v.handle tab sectioned s).reads v2.mem)))
      exact ⟨v', hrun⟩
    · rw [if_neg hweak]
      by_cases hx : s.type = symTypeExtern
      · rw [if_pos hx]
        obtain ⟨ans, v3, hrun⟩ := resolveSymbol_total host s.name v2
        obtain ⟨⟨wq, hans⟩, -⟩ := resolveSymbol_run hrun
        rw [hres, hm2] at hans
        have hpos : ans > 0 := UInt32.pos_iff_ne_zero.mpr (hans ▸ hext hx)
        rw [Prog.run_bind_of_ok hrun, if_pos hpos]
        split
        · exact ⟨_, rfl⟩
        · exact ⟨_, rfl⟩
      · rw [if_neg hx, if_neg hname]
        exact ⟨_, rfl⟩

/-- An entry that was found is applied, in a world where only other slots have changed. -/
theorem applyRelocation_returns (hl : Relinkable w src) (hs : SameModule w v)
    (hres : ∀ u name, host.resolve u name = r name) (hk : k < numLinks w)
    (hf : EntryFound r w src k) (hword : v.mem.u32 (linkSlot w k) = w.mem.u32 (linkSlot w k)) :
    ∃ v', (applyRelocation host src.pHeader src.pRelocations src.pSymtab (srcView w src)
      (decide ((srcView w src).num > 0)) k).run v = (.ok (), v') := by
  have hplace : placementOf v.handle (srcView w src) (decide ((srcView w src).num > 0)) v.mem =
      loadPlacement w src := by
    rw [hs.handle]
    exact hl.srcWalk.placement hs.agree (loadSectioned w src)
  have hslot := srcSlot hl hs hk
  have hsource := hl.srcWalk.sourceHeader hs.agree
  have huntagged := srcUntagged hl hs
  rw [applyRelocation, Prog.run_lift_bind, srcEntry hl hs hk]
  dsimp only
  generalize hv2 : World.log v _ = v2
  have hh2 : v2.handle = v.handle := by
    rw [← hv2]
    rfl
  have hm2 : v2.mem = v.mem := by
    rw [← hv2]
    rfl
  rw [← hh2, ← hm2] at hslot hplace huntagged
  rw [← hm2] at hsource hword
  cases hb : isBaseRelocation (linkEntry w k).2 with
  | true =>
    obtain ⟨t, ht⟩ := hf.ok.base hb
    rw [if_pos rfl]
    refine applyBaseRelocation_returns (t := t) ?_ ?_ ?_
    · rw [hsource]
      exact hf.ok.base_lot hb
    · rw [hslot]
      exact hf.ok.slot_ne
    · rw [hplace, hslot, hword]
      exact ht
  | false =>
    obtain ⟨s, hsym, hname, hown⟩ := hf.ok.sym hb
    obtain ⟨-, -, -, -, hw, -⟩ := hl.sym k hk hb s hsym
    rw [if_neg Bool.false_ne_true]
    refine applySymRelocation_returns (s := s) huntagged ?_ ?_ hname ?_ hres fun ht => ?_
    · have hread := (hl.srcWalk.sym hs.agree hb).trans hsym
      rw [← hm2] at hread
      exact hread
    · rw [hslot]
      exact hf.ok.slot_ne
    · rw [hplace]
      exact hown
    · rw [hm2, hw.congr hs.agree]
      exact hf.answered hb s hsym ht

theorem applyRelocationsLoop_returns (hl : Relinkable w src)
    (hres : ∀ u name, host.resolve u name = r name) {n i : Nat} (hi : i + n ≤ numLinks w)
    (hf : ∀ k, k < numLinks w → EntryFound r w src k) (hs : SameModule w v)
    (hword : ∀ k, i ≤ k → k < numLinks w →
      v.mem.u32 (linkSlot w k) = w.mem.u32 (linkSlot w k)) :
    ∃ v', (applyRelocationsLoop host src.pHeader src.pRelocations src.pSymtab (srcView w src)
      (decide ((srcView w src).num > 0)) n i).run v = (.ok (), v') := by
  induction n generalizing i v with
  | zero => exact ⟨v, rfl⟩
  | succ n ih =>
    have hlt : i < numLinks w := by omega
    obtain ⟨v1, hone⟩ := applyRelocation_returns hl hs hres hlt (hf i hlt)
      (hword i (Nat.le_refl i) hlt)
    obtain ⟨hsame, hkeep⟩ := applyRelocation_same hl hs hlt hone
    rw [applyRelocationsLoop, Prog.run_bind_of_ok hone]
    refine ih (by omega) hsame fun k hk hlt' => ?_
    have hag : v1.mem.u32 (linkSlot w k) = v.mem.u32 (linkSlot w k) :=
      AgreeOn.u32 fun a ha => hkeep a fun h =>
        hl.apart i k hlt hlt' (by omega) a h ha
    exact hag.trans (hword k (by omega) hlt')

/-- The walk returns when each entry is found. -/
theorem loadApplyRelocations_returns (hl : Relinkable w src)
    (hres : ∀ u name, host.resolve u name = r name)
    (hf : ∀ k, k < numLinks w → EntryFound r w src k) :
    ∃ v, (udynlinkLoadApplyRelocations host src.pHeader src.pRelocations src.pSymtab).run w =
      (.ok (), v) := by
  have htab : (getSectab src.pHeader false).run w.mem = (.ok (), srcView w src) :=
    Prod.ext hl.accepted rfl
  rw [udynlinkLoadApplyRelocations, Prog.run_lift_bind, readHeader_run, Prog.run_lift_bind,
    World.log_mem, htab, World.log_log, ← readEvents_append]
  dsimp only
  rw [if_neg (by simp), hl.links]
  simp only [true_and]
  exact applyRelocationsLoop_returns hl hres (by omega) hf ⟨rfl, fun _ _ => rfl⟩ fun _ _ _ => rfl

/-! ## What the slots hold in the end -/

/-- A weak symbol that was put off has no override in the end but the module's own address. -/
def WeakSettled (r1 r2 : List UInt8 → Addr) (w : State) (src : RelocSource) : Prop :=
  ∀ k, k < numLinks w → isBaseRelocation (linkEntry w k).2 = false →
    ∀ s own, relocSym src w.mem (linkEntry w k).2 = some s → s.type = symTypeWeak →
      (loadPlacement w src).own s = some own →
      r1 ((readSymName s.name).run w.mem) = symDeferred →
        r2 ((readSymName s.name).run w.mem) = 0 ∨ r2 ((readSymName s.name).run w.mem) = own

section

variable {f g : Nat → Patch} (hf : ∀ k, (f k).slot = linkSlot w k) (hl : Relinkable w src)

include hf hl

theorem family_pairwise :
    ((List.range' 0 (numLinks w)).map f).Pairwise fun p q => p.span.Disjoint q.span := by
  refine List.pairwise_map.mpr (List.Pairwise.imp_of_mem ?_ List.pairwise_lt_range')
  intro i j hi hj hlt
  have hi' := (List.mem_range'_1.mp hi).2
  have hj' := (List.mem_range'_1.mp hj).2
  unfold Patch.span
  rw [hf, hf]
  exact hl.apart i j (by omega) (by omega) (by omega)

theorem family_word (hk : k < numLinks w) (m : Mem) :
    (Patch.applyAll ((List.range' 0 (numLinks w)).map f) m).u32 (linkSlot w k) =
      ((f k).value (m.u32 (linkSlot w k))).getD (m.u32 (linkSlot w k)) := by
  have hmem : f k ∈ (List.range' 0 (numLinks w)).map f :=
    List.mem_map_of_mem (List.mem_range'_1.mpr ⟨Nat.zero_le k, by omega⟩)
  have hw := Patch.applyAll_word (family_pairwise hf hl) hmem m
  rw [hf] at hw
  exact hw

omit hl in
theorem family_beside {a : Addr} (ha : BesideSlots w a) (m : Mem) :
    Patch.applyAll ((List.range' 0 (numLinks w)).map f) m a = m a := by
  refine Patch.applyAll_notMem (fun p hp => ?_) m
  obtain ⟨k, hk, rfl⟩ := List.mem_map.mp hp
  have hlt := (List.mem_range'_1.mp hk).2
  rw [Patch.span, hf]
  exact ha k (by omega)

end

/-- Memories that agree beside the slots and on the slots. -/
theorem mem_eq_of_slots {m m' : Mem} (hb : ∀ a, BesideSlots w a → m a = m' a)
    (hw : ∀ k, k < numLinks w → m.u32 (linkSlot w k) = m'.u32 (linkSlot w k)) : m = m' := by
  funext a
  by_cases ha : BesideSlots w a
  · exact hb a ha
  · unfold BesideSlots at ha
    push Not at ha
    obtain ⟨k, hk, hmem⟩ := ha
    obtain ⟨i, hi, rfl⟩ := exists_off hmem
    exact bytes_eq_of_u32 (hw k hk) hi

/-! ## One slot -/

/-- The module's own table links what the image's table links. -/
theorem linkWord_of (hl : Relinkable w src) (hk : k < numLinks w)
    (hb : isBaseRelocation (linkEntry w k).2 = false) {s : Sym}
    (hs : relocSym src w.mem (linkEntry w k).2 = some s) : linkWord r w k =
      if s.type = symTypeExtern then some (externWord (r ((readSymName s.name).run w.mem)))
      else none := by
  obtain ⟨s', hs', hty, hname, -⟩ := hl.sym k hk hb s hs
  rw [linkWord, hb, if_neg Bool.false_ne_true, hs']
  dsimp only
  rw [hty, hname]

theorem linkPatch_keeps (h : linkWord r w k = none) (word : UInt32) :
    ((linkPatch r w k).value word).getD word = word := by
  by_cases hz : word = 0
  · rw [hz, linkPatch_empty, h, Option.getD_none]
  · rw [linkPatch_full hz, Option.getD_none]

/-- Linking a slot once more finds the word it has put there. -/
theorem linkPatch_twice (word : UInt32) :
    ((linkPatch r w k).value (((linkPatch r w k).value word).getD word)).getD
        (((linkPatch r w k).value word).getD word) =
      ((linkPatch r w k).value word).getD word := by
  cases hw : linkWord r w k with
  | none => rw [linkPatch_keeps hw, linkPatch_keeps hw]
  | some x =>
    by_cases hz : word = 0
    · rw [hz, linkPatch_empty, hw, Option.getD_some]
      by_cases hx : x = 0
      · rw [hx, linkPatch_empty, hw, Option.getD_some, hx]
      · rw [linkPatch_full hx, Option.getD_none]
    · rw [linkPatch_full hz, Option.getD_none, linkPatch_full hz, Option.getD_none]

variable {r1 r2 : List UInt8 → Addr}

theorem weakWord_deferred_iff {own ans : UInt32} (hans : ans ≠ symDeferred) :
    own = weakWord own ans ↔ ans = 0 ∨ ans = own := by
  unfold weakWord
  by_cases hz : ans = 0
  · simp [hz]
  · rw [if_neg (by simp [hans, hz])]
    simp [hz, eq_comm]

/-- The word of a slot on the two ways. -/
theorem slot_word_iff (hl : Relinkable w src) (hk : k < numLinks w)
    (hr2 : ∀ name, r2 name ≠ symDeferred)
    (hagree : ∀ name, r1 name ≠ symDeferred → r1 name = r2 name)
    (hsome : isBaseRelocation (linkEntry w k).2 = false →
      ∃ s, relocSym src w.mem (linkEntry w k).2 = some s) (word : UInt32) :
    ((linkPatch r2 w k).value (((loadPatch r1 w src k).value word).getD word)).getD
        (((loadPatch r1 w src k).value word).getD word) =
      ((loadPatch r2 w src k).value word).getD word ↔
    (isBaseRelocation (linkEntry w k).2 = false → ∀ s own,
      relocSym src w.mem (linkEntry w k).2 = some s → s.type = symTypeWeak →
      (loadPlacement w src).own s = some own →
      r1 ((readSymName s.name).run w.mem) = symDeferred →
        r2 ((readSymName s.name).run w.mem) = 0 ∨ r2 ((readSymName s.name).run w.mem) = own) := by
  unfold loadPatch
  dsimp only
  cases hb : isBaseRelocation (linkEntry w k).2 with
  | true =>
    rw [linkPatch_keeps (if_pos hb), refWord_base _ hb, refWord_base _ hb]
    simp
  | false =>
    obtain ⟨s, hs⟩ := hsome hb
    have hlink := @linkWord_of w src r2 k hl hk hb s hs
    rw [hs, refWord_sym hb, refWord_sym hb]
    by_cases hweak : s.type = symTypeWeak
    · have hown : ¬ (s.type = symTypeInternal ∨ s.type = symTypeExported) := by
        rw [hweak]
        decide
      have hext : ¬ s.type = symTypeExtern := by
        rw [hweak]
        decide
      rw [if_neg hext] at hlink
      rw [linkPatch_keeps hlink, if_neg hown, if_pos hweak, if_neg hown, if_pos hweak]
      cases hplace : (loadPlacement w src).own s with
      | none =>
        refine iff_of_true rfl fun _ s' own he _ ho _ => ?_
        cases he
        rw [hplace] at ho
        cases ho
      | some own =>
        have hput : r1 ((readSymName s.name).run w.mem) = symDeferred →
            weakWord own (r1 ((readSymName s.name).run w.mem)) = own :=
          fun hdef => if_pos (Or.inl hdef)
        rw [Option.map_some, Option.map_some, Option.getD_some, Option.getD_some]
        constructor
        · intro h _ s' own' he _ ho hdef
          cases he
          rw [hplace] at ho
          cases ho
          rw [hput hdef] at h
          exact (weakWord_deferred_iff (hr2 _)).mp h
        · intro h
          by_cases hdef : r1 ((readSymName s.name).run w.mem) = symDeferred
          · rw [hput hdef]
            exact (weakWord_deferred_iff (hr2 _)).mpr (h rfl s own rfl hweak hplace hdef)
          · rw [hagree _ hdef]
    · refine iff_of_true ?_ fun _ s' own he hw => ?_
      · by_cases hext : s.type = symTypeExtern
        · have hown : ¬ (s.type = symTypeInternal ∨ s.type = symTypeExported) := by
            rw [hext]
            decide
          rw [if_pos hext] at hlink
          rw [if_neg hown, if_neg hweak, if_pos hext, if_neg hown, if_neg hweak, if_pos hext,
            Option.getD_some, Option.getD_some]
          by_cases hz : externWord (r1 ((readSymName s.name).run w.mem)) = 0
          · rw [hz, linkPatch_empty, hlink, Option.getD_some]
          · have hdef : r1 ((readSymName s.name).run w.mem) ≠ symDeferred :=
              fun hdef => hz (if_pos hdef)
            rw [linkPatch_full hz, Option.getD_none, hagree _ hdef]
        · rw [if_neg hext] at hlink
          rw [linkPatch_keeps hlink, if_neg hweak, if_neg hext, if_neg hweak, if_neg hext]
      · cases he
        exact absurd hw hweak

/-- The two ways to the answers, as families of patches. -/
theorem families_eq_iff (hl : Relinkable w src) (hr2 : ∀ name, r2 name ≠ symDeferred)
    (hagree : ∀ name, r1 name ≠ symDeferred → r1 name = r2 name)
    (hsome : ∀ k, k < numLinks w → isBaseRelocation (linkEntry w k).2 = false →
      ∃ s, relocSym src w.mem (linkEntry w k).2 = some s) :
    Patch.applyAll ((List.range' 0 (numLinks w)).map (linkPatch r2 w))
        (Patch.applyAll ((List.range' 0 (numLinks w)).map (loadPatch r1 w src)) w.mem) =
      Patch.applyAll ((List.range' 0 (numLinks w)).map (loadPatch r2 w src)) w.mem ↔
    WeakSettled r1 r2 w src := by
  have hlink : ∀ k, (linkPatch r2 w k).slot = linkSlot w k := fun _ => rfl
  have hload : ∀ r k, (loadPatch r w src k).slot = linkSlot w k := fun _ _ => rfl
  constructor
  · intro h k hk
    have hword := congrArg (fun m : Mem => m.u32 (linkSlot w k)) h
    rw [family_word hlink hl hk, family_word (hload r1) hl hk, family_word (hload r2) hl hk] at hword
    exact (slot_word_iff hl hk hr2 hagree (hsome k hk) _).mp hword
  · intro h
    refine mem_eq_of_slots (w := w) (fun a ha => ?_) fun k hk => ?_
    · rw [family_beside hlink ha, family_beside (hload r1) ha, family_beside (hload r2) ha]
    · rw [family_word hlink hl hk, family_word (hload r1) hl hk, family_word (hload r2) hl hk]
      exact (slot_word_iff hl hk hr2 hagree (hsome k hk) _).mpr (h k hk)

theorem family_twice (hl : Relinkable w src) (m : Mem) :
    Patch.applyAll ((List.range' 0 (numLinks w)).map (linkPatch r w))
        (Patch.applyAll ((List.range' 0 (numLinks w)).map (linkPatch r w)) m) =
      Patch.applyAll ((List.range' 0 (numLinks w)).map (linkPatch r w)) m := by
  have hlink : ∀ k, (linkPatch r w k).slot = linkSlot w k := fun _ => rfl
  refine mem_eq_of_slots (w := w) (fun a ha => ?_) fun k hk => ?_
  · rw [family_beside hlink ha]
  · rw [family_word hlink hl hk, family_word hlink hl hk]
    exact linkPatch_twice _

end

/-! ## Two loads -/

section

variable (malloc : State → UInt32 → BlockTag → Addr) (r1 r2 : List UInt8 → Addr) (image : Image)
  (tab : SectView) (mode : LoadMode)

theorem loadTaggedLoop_answering (n k : Nat) (off : UInt32) :
    loadTaggedLoop (Host.answering malloc r1) image tab n k off =
      loadTaggedLoop (Host.answering malloc r2) image tab n k off := by
  have hmalloc : externalMalloc (Host.answering malloc r1) =
      externalMalloc (Host.answering malloc r2) := rfl
  induction n generalizing k off with
  | zero => rfl
  | succ n ih =>
    rw [loadTaggedLoop, loadTaggedLoop, hmalloc]
    simp only [ih]

theorem placeImage_answering (ramAddr : Addr) :
    placeImage (Host.answering malloc r1) image tab mode ramAddr =
      placeImage (Host.answering malloc r2) image tab mode ramAddr := by
  unfold placeImage placeSectioned
  simp only [loadTaggedLoop_answering malloc r1 r2]

/-- The placement of a load asks for blocks only. -/
theorem placedWorld_answering (loadAddr : Addr) (loadSize : UInt32) (w : State) :
    placedWorld (Host.answering malloc r1) image loadAddr loadSize mode w =
      placedWorld (Host.answering malloc r2) image loadAddr loadSize mode w := by
  have hram : provisionRam (Host.answering malloc r1) = provisionRam (Host.answering malloc r2) := rfl
  unfold placedWorld loadPlaced
  simp only [placeImage_answering malloc r1 r2, hram]

end

section

variable {w v : State} {src : RelocSource} {r : List UInt8 → Addr} {n : UInt16} {as : List Addr}
  {k : Nat}

theorem linkWord_recounted : linkWord r (recounted w n as) k = linkWord r w k := rfl

theorem linkPatch_recounted : linkPatch r (recounted w n as) k = linkPatch r w k := by
  unfold linkPatch
  rw [linkSlot_recounted, linkWord_recounted]

theorem SameModule.recounted (h : SameModule w v) (bs : List Addr) :
    SameModule (recounted w n as) (recounted v n bs) := by
  refine ⟨?_, fun a ha => h.agree a ?_⟩
  · show { v.handle with numNamedSyms := n } = { w.handle with numNamedSyms := n }
    rw [h.handle]
  · rw [besideSlots_recounted] at ha
    exact ha

/-- The pass on a module as a load has left it. -/
theorem linkLoaded (hl : Relinkable w src) {host : Host}
    (hne : ∀ k, k < numLinks w → linkSlot w k ≠ 0) (hres : ∀ u name, host.resolve u name = r name)
    (hsome : ∀ k, k < numLinks w → isBaseRelocation (linkEntry w k).2 = false →
      ∃ s, relocSym src w.mem (linkEntry w k).2 = some s)
    (hs : SameModule (recounted w n []) v) :
    ∃ v', (udynlinkLinkIncremental host).run v = (.ok (), v') ∧ SameModule (recounted w n []) v' ∧
      v'.mem = Patch.applyAll ((List.range' 0 (numLinks w)).map (linkPatch r w)) v.mem := by
  have hname : ∀ k, k < numLinks w → ∀ s, isBaseRelocation (linkEntry w k).2 = false →
      relocSym (ownSource w) w.mem (linkEntry w k).2 = some s →
        (readSymName s.name).Within (BesideSlots w) w.mem := by
    intro k hk s hb hown
    obtain ⟨s0, hs0⟩ := hsome k hk hb
    obtain ⟨s', hs', -, -, -, hw⟩ := hl.sym k hk hb s0 hs0
    rw [hown] at hs'
    cases hs'
    exact hw
  have hrun := @linkIncremental_patches (recounted w n []) v r host hl.toLinkTables.recounted
    hl.here
  simp only [numLinks_recounted, linkSlot_recounted, linkEntry_recounted,
    funext fun k => @linkPatch_recounted w r n [] k] at hrun
  exact hrun hne hres hname hs

theorem linkWord_some {x : UInt32} (h : linkWord r w k = some x) :
    isBaseRelocation (linkEntry w k).2 = false ∧
      ∃ s, relocSym (ownSource w) w.mem (linkEntry w k).2 = some s ∧ s.type = symTypeExtern := by
  unfold linkWord at h
  split at h
  next => cases h
  next hb =>
    refine ⟨by simpa using hb, ?_⟩
    split at h
    next => cases h
    next s hs =>
      split at h
      next ht => exact ⟨s, hs, ht⟩
      next => cases h

end

section

variable {malloc : State → UInt32 → BlockTag → Addr} {r1 r2 : List UInt8 → Addr} {image : Image}
  {loadAddr : Addr} {loadSize : UInt32} {mode : LoadMode} {w w1 w2 w3 : State}

/-- What a load leaves, from the placed module on. -/
theorem loaded_patches {r : List UInt8 → Addr}
    (h : (udynlinkLoadModuleImage (Host.answering malloc r) image loadAddr loadSize mode).run w =
      (.ok (), w1))
    (h3 : w3 = placedWorld (Host.answering malloc r) image loadAddr loadSize mode w)
    (hl : Relinkable w3 image.relocSource) :
    (∃ n, SameModule (recounted w3 n []) w1) ∧
      w1.mem = Patch.applyAll ((List.range' 0 (numLinks w3)).map
        (loadPatch r w3 image.relocSource)) w3.mem ∧
      ∀ k, k < numLinks w3 → EntryFound r w3 image.relocSource k := by
  obtain ⟨w4, as, hrel, hw1⟩ := placedWorld_of_ok h
  rw [← h3] at hrel
  obtain ⟨hs, hmem, hfound⟩ :=
    loadApplyRelocations_patches hl (r := r) (fun _ _ => rfl) hrel
  exact ⟨⟨_, hw1 ▸ hs.recounted as⟩, hw1 ▸ hmem, hfound⟩

/-- A resolver that puts names off loads what one with all answers loads. -/
theorem deferred_load_returns (hagree : ∀ name, r1 name ≠ symDeferred → r1 name = r2 name)
    (h2 : (udynlinkLoadModuleImage (Host.answering malloc r2) image loadAddr loadSize mode).run w =
      (.ok (), w2))
    (h3 : w3 = placedWorld (Host.answering malloc r2) image loadAddr loadSize mode w)
    (hl : Relinkable w3 image.relocSource) :
    ∃ w1, (udynlinkLoadModuleImage (Host.answering malloc r1) image loadAddr loadSize mode).run w =
      (.ok (), w1) := by
  obtain ⟨-, -, hfound⟩ := loaded_patches h2 h3 hl
  obtain ⟨hval, htab, hplaced, -⟩ := load_ok_iff.mp h2
  have hworld := placedWorld_answering malloc r1 r2 image mode loadAddr loadSize w
  have hstages : loadPlaced (Host.answering malloc r1) image loadAddr loadSize mode =
      loadPlaced (Host.answering malloc r2) image loadAddr loadSize mode := by
    have hram : provisionRam (Host.answering malloc r1) = provisionRam (Host.answering malloc r2) :=
      rfl
    unfold loadPlaced
    simp only [placeImage_answering malloc r1 r2, hram]
  have hfound1 : ∀ k, k < numLinks w3 → EntryFound r1 w3 image.relocSource k := by
    intro k hk
    refine ⟨(hfound k hk).ok, fun hb s hs ht hzero => ?_⟩
    have hdef : r1 ((readSymName s.name).run w3.mem) ≠ symDeferred := by
      rw [hzero]
      decide
    exact (hfound k hk).answered hb s hs ht ((hagree _ hdef).symm.trans hzero)
  obtain ⟨w4, hrel⟩ := @loadApplyRelocations_returns w3 image.relocSource r1 (Host.answering malloc r1) hl
    (fun _ _ => rfl) hfound1
  refine ⟨_, load_ok_iff.mpr ⟨hval, htab, ?_, w4, ?_, rfl⟩⟩
  · rw [hstages, hworld]
    exact hplaced
  · rw [hworld, ← h3]
    exact hrel

/-- Linking what was put off ends like the load that had all answers, exactly when no weak
symbol that was put off has an override. -/
theorem deferred_confluent_iff (hr2 : ∀ name, r2 name ≠ symDeferred)
    (hagree : ∀ name, r1 name ≠ symDeferred → r1 name = r2 name)
    (h1 : (udynlinkLoadModuleImage (Host.answering malloc r1) image loadAddr loadSize mode).run w =
      (.ok (), w1))
    (h2 : (udynlinkLoadModuleImage (Host.answering malloc r2) image loadAddr loadSize mode).run w =
      (.ok (), w2))
    (h3 : w3 = placedWorld (Host.answering malloc r2) image loadAddr loadSize mode w)
    (hl : Relinkable w3 image.relocSource) :
    ConfluentLink (Host.answering malloc r2) w1 w2 ↔ WeakSettled r1 r2 w3 image.relocSource := by
  have h3' : w3 = placedWorld (Host.answering malloc r1) image loadAddr loadSize mode w :=
    h3.trans (placedWorld_answering malloc r2 r1 image mode loadAddr loadSize w)
  obtain ⟨⟨n, hs1⟩, hm1, hfound⟩ := loaded_patches h1 h3' hl
  obtain ⟨-, hm2, -⟩ := loaded_patches h2 h3 hl
  have hpass : ∀ v, SameModule (recounted w3 n []) v →
      ∃ v', (udynlinkLinkIncremental (Host.answering malloc r2)).run v = (.ok (), v') ∧
        SameModule (recounted w3 n []) v' ∧
        v'.mem = Patch.applyAll ((List.range' 0 (numLinks w3)).map (linkPatch r2 w3)) v.mem :=
    fun v hv => linkLoaded hl (fun k hk => (hfound k hk).ok.slot_ne) (fun _ _ => rfl)
      (fun k hk => (hfound k hk).sym) hv
  obtain ⟨v1, hrun1, hv1, hmem1⟩ := hpass w1 hs1
  obtain ⟨v2, hrun2, -, hmem2⟩ := hpass v1 hv1
  have hfam := families_eq_iff hl hr2 hagree fun k hk => (hfound k hk).sym
  rw [hm1] at hmem1
  constructor
  · intro hc
    have hsame := hc.same
    rw [hrun1] at hsame
    exact hfam.mp (hmem1.symm.trans (hsame.trans hm2))
  · intro hweak
    refine ⟨?_, ?_, fun v hv a ha => ?_⟩
    · rw [hrun1]
      exact hmem1.trans ((hfam.mpr hweak).trans hm2.symm)
    · rw [hrun1, hrun2, hmem2, hmem1]
      exact family_twice hl _
    · have hbase := @LinkTables.recounted w3 n [] hl.toLinkTables
      obtain ⟨v3, hrun3, -, hmem3⟩ := hpass v (hs1.trans hbase hv)
      rw [hrun3]
      refine hmem3 ▸ Patch.applyAll_unwritten
        (family_pairwise (fun k => @linkPatch_slot w3 r2 k) hl) fun p hp hspan => ?_
      obtain ⟨k, hk, rfl⟩ := List.mem_map.mp hp
      have hlt : k < numLinks w3 := by
        have hlt := (List.mem_range'_1.mp hk).2
        omega
      by_contra hwrite
      have hzero : v.mem.u32 (linkSlot w3 k) = 0 := by
        by_contra hz
        exact hwrite (linkPatch_full hz)
      rw [linkPatch_slot, hzero, linkPatch_empty] at hwrite
      obtain ⟨x, hx⟩ := Option.ne_none_iff_exists'.mp hwrite
      obtain ⟨hb, s, hs, ht⟩ := linkWord_some hx
      have hslot : linkSlot w1 k = linkSlot w3 k := hbase.slot hs1 hlt
      have hentry : linkEntry w1 k = linkEntry w3 k := hbase.entry hs1 hlt
      have hlinks : numLinks w1 = numLinks w3 := hbase.links hs1
      have hopen : Unresolved w1 v k := by
        unfold Unresolved
        rw [hslot, hentry]
        exact ⟨hzero, hb, s, (hbase.sym hs1 hb).trans hs, ht⟩
      refine ha k (by omega) hopen ?_
      rw [hslot]
      exact hspan

end

/-! ## An extern and a weak symbol that were put off -/

def bumpMalloc : State → UInt32 → BlockTag → Addr := (Host.bump 0x20000000 fun _ => 0).malloc

def putOff : List UInt8 → Addr := fun _ => symDeferred

def answerAll : List UInt8 → Addr := fun _ => 0x08000101

def answeringLoaded (r : List UInt8 → Addr) (image : Image) (rom : Mem) : State :=
  ((udynlinkLoadModuleImage (Host.answering bumpMalloc r) image 0x20000000 4 .xip).run
    ⟨rom, Module.free, []⟩).2

theorem deferPlaced_relinkable : Relinkable deferPlaced externImage.relocSource := by
  obtain ⟨⟨hn, -⟩, ⟨hheader, -⟩, -⟩ := deferPlaced_reads
  have hc := deferPlaced_carried
  have hsrc := deferPlaced_source
  have hentry : (linkEntry deferPlaced 0).2 = 1 := by decide +kernel
  have hhere : deferPlaced.handle.pHeader ≠ 0 := by
    rw [hheader]
    decide
  refine ⟨deferPlaced_layout.toLinkTables, hhere, hc.walk, hc.accepted, hc.links,
    hc.entry, hc.slot, fun k hk _ s hs => ?_, fun i k hi hk hik => by omega⟩
  obtain rfl : k = 0 := by omega
  obtain ⟨s0, hs0, -, hw, -⟩ := hc.sym
  rw [hentry] at hs ⊢
  rw [hs0, Option.some.injEq] at hs
  subst hs
  rw [hsrc]
  exact ⟨s0, hs0, rfl, rfl, hw, hw⟩

theorem deferred_confluent_iff_extern :
    ConfluentLink (Host.answering bumpMalloc answerAll)
        (answeringLoaded putOff externImage externRom)
        (answeringLoaded answerAll externImage externRom) ↔
      WeakSettled putOff answerAll deferPlaced externImage.relocSource := by
  have h1 : (udynlinkLoadModuleImage (Host.answering bumpMalloc putOff) externImage 0x20000000 4
      .xip).run ⟨externRom, Module.free, []⟩ =
        (.ok (), answeringLoaded putOff externImage externRom) := Prod.ext (by decide +kernel) rfl
  have h2 : (udynlinkLoadModuleImage (Host.answering bumpMalloc answerAll) externImage 0x20000000 4
      .xip).run ⟨externRom, Module.free, []⟩ =
        (.ok (), answeringLoaded answerAll externImage externRom) := Prod.ext (by decide +kernel) rfl
  have h3 : deferPlaced = placedWorld (Host.answering bumpMalloc answerAll) externImage 0x20000000 4
      .xip ⟨externRom, Module.free, []⟩ :=
    placedWorld_answering bumpMalloc putOff answerAll externImage .xip 0x20000000 4
      ⟨externRom, Module.free, []⟩
  have hans : (0x08000101 : Addr) ≠ symDeferred := by decide
  exact deferred_confluent_iff (fun _ => hans) (fun _ h => absurd rfl h) h1 h2 h3
    deferPlaced_relinkable

/-- The same module with a weak function in place of the extern symbol. -/
def weakRom : Mem := .ofWords 0x1000
  [0x4D4C4455, 0x03010000, 0x00010000, 1, 24, 4, 0, 0, 0, 1, 2, 0x18000014, 0, 0x60000016, 0,
    0x0065006D, 0x47704770]

/-- The slot of a weak symbol is not asked for again. -/
theorem weak_not_linked :
    ((udynlinkLoadModuleImage (Host.answering bumpMalloc putOff) externImage 0x20000000 4 .xip).run
        ⟨weakRom, Module.free, []⟩).1 = .ok () ∧
      ((udynlinkLoadModuleImage (Host.answering bumpMalloc answerAll) externImage 0x20000000 4
        .xip).run ⟨weakRom, Module.free, []⟩).1 = .ok () ∧
      ¬ ConfluentLink (Host.answering bumpMalloc answerAll)
        (answeringLoaded putOff externImage weakRom)
        (answeringLoaded answerAll externImage weakRom) := by
  refine ⟨by decide +kernel, by decide +kernel, fun h => ?_⟩
  have hslot := congrArg (fun m : Mem => m.u32 0x20000000) h.same
  exact absurd hslot (by decide +kernel)

end Udynlink
