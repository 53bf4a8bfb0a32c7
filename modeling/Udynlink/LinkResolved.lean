import Udynlink.LinkRuns
import Udynlink.LoadPlace

/-!
# Resolution from the load on

The load walks the table of relocations like a linking call, and starts the runs in which
slots and value word say the same, or not, of an extern symbol.
-/

namespace Udynlink

open Machine

section

variable {w v v' : State} {j val : UInt32} {sym : Sym} {name : List UInt8} {host : Host}
  {src : RelocSource} {tab : SectView} {sectioned : Bool} {k done : Nat}

/-! ## One relocation of the load -/

/-- What a load does to an entry of an extern symbol. -/
theorem applyRelocation_extern {lotOffset : UInt32}
    (hrel : (readRelocation src.pRelocations k).run v.mem = (lotOffset, j))
    (hb : isBaseRelocation j = false) (hs : relocSym src v.mem j = some sym)
    (ht : sym.type = symTypeExtern)
    (h : (applyRelocation host src.pHeader src.pRelocations src.pSymtab tab sectioned k).run v =
      (.ok (), v')) :
    ∃ ans, ((∃ wq, ans = host.resolve wq ((readSymName sym.name).run v.mem)) ∧ ans ≠ 0) ∧
      v'.handle = v.handle ∧
      v'.mem = v.mem.set32 ((getRelocTarget v.handle tab lotOffset).run v.mem) (externWord ans) ∧
      Event.host (.resolve ((readSymName sym.name).run v.mem) ans) ∈
        v'.trace.drop v.trace.length := by
  have hown : ¬ (sym.type = symTypeInternal ∨ sym.type = symTypeExported) := by
    rw [ht]
    decide
  have hweak : ¬ sym.type = symTypeWeak := by
    rw [ht]
    decide
  have hs' : (getSymAtRaw src.pSymtab j (decodeHeader v.mem src.pHeader).symtSize).run v.mem =
    some sym := hs
  rw [applyRelocation, Prog.run_lift_bind, hrel] at h
  dsimp only at h
  rw [hb, if_neg Bool.false_ne_true, applySymRelocation, Prog.run_getHandle_bind,
    Prog.run_lift_bind, readHeader_run, Prog.run_lift_bind] at h
  simp only [World.log_mem, World.log_handle, hs', Prog.run_lift_bind] at h
  split at h
  next => simp at h
  next =>
    obtain ⟨ans, ⟨hans, hzero⟩, hh, hm, hev⟩ := answer_stored (fun _ _ hf => by simp at hf) h
    have hne : ans ≠ 0 := by
      intro hz
      obtain ⟨u, hfail⟩ := hzero hz
      simp at hfail
    refine ⟨ans, ⟨hans, hne⟩, hh, hm, List.drop_subset_drop_left _ ?_ hev⟩
    simp only [World.log_trace, List.length_append]
    omega

/-- The value of an entry that is not of symbol `j` is of no interest. -/
theorem Keeps.patch (h : Keeps w j val done v) (hl : LinkLayout w j) (hk : k < numLinks w)
    (he : (linkEntry w k).2 ≠ j) {p : Patch} (hp : p.slot = linkSlot w k)
    (hh : v'.handle = v.handle) (hm : v'.mem = p.apply v.mem)
    (ht : v.trace.length ≤ v'.trace.length) : Keeps w j val done v' := by
  cases hv : p.value (v.mem.u32 p.slot) with
  | none =>
    rw [Patch.apply_of_none hv] at hm
    exact ⟨⟨hh.trans h.same.handle, fun a ha => (h.same.agree a ha).trans (by rw [hm])⟩, h.bound,
      by rw [hm]; exact h.told, Nat.le_trans h.later ht⟩
  | some x =>
    rw [Patch.apply_of_some hv, hp] at hm
    exact h.set32 hl hk (fun hj => absurd hj he) hh hm ht

/-- One more entry. -/
theorem Keeps.next (h : Keeps w j val k v) (hk : k < numLinks w)
    (he : (linkEntry w k).2 = j → (v.mem.u32 (linkSlot w k) ≠ 0 ↔ val ≠ 0)) :
    Keeps w j val (k + 1) v := by
  refine ⟨h.same, hk, fun i hi hij => ?_, h.later⟩
  rcases Nat.lt_succ_iff_lt_or_eq.mp hi with hlt | rfl
  · exact h.told i hlt hij
  · exact he hij

theorem applyRelocation_keeps (hl : LinkLayout w j) (hc : Carried w src j name)
    (hb : isBaseRelocation j = false) (hk : k < numLinks w)
    (hs : sectioned = false → (srcView w src).num = 0) (h : Keeps w j val k v)
    (hrun : (applyRelocation host src.pHeader src.pRelocations src.pSymtab (srcView w src) sectioned
      k).run v = (.ok (), v')) (hfit : AnswersFit w name val v') : Keeps w j val (k + 1) v' := by
  have hn := LinkTables.numLinks_lt w
  have hag := h.same.agree
  have hentry : (readRelocation src.pRelocations k).run v.mem = linkEntry w k :=
    (hc.walk.entry hn hag hk).trans (hc.entry k hk)
  have hslot : relocSlot v.handle (srcView w src) src v.mem k = linkSlot w k := by
    rw [h.same.handle]
    exact (hc.walk.slot hn hag hk).trans (hc.slot k hk)
  have hlen : v.trace.length ≤ v'.trace.length := by
    have hle := trace_length_le (applyRelocation host src.pHeader src.pRelocations src.pSymtab
      (srcView w src) sectioned k) v
    rwa [hrun] at hle
  by_cases he : (linkEntry w k).2 = j
  · obtain ⟨s, hsym, htype, hwithin, hname⟩ := hc.sym
    have hrel : (readRelocation src.pRelocations k).run v.mem = ((linkEntry w k).1, j) := by
      rw [hentry, ← he]
    obtain ⟨ans, -, hh, hm, hev⟩ := applyRelocation_extern hrel hb
      ((hc.walk.sym hag hb).trans hsym) htype hrun
    unfold relocSlot at hslot
    rw [hentry] at hslot
    rw [hslot] at hm
    rw [hwithin.congr hag, hname] at hev
    have hans := hfit ans (List.drop_subset_drop_left _ h.later hev)
    refine (h.set32 hl hk (fun _ => hans) hh hm hlen).next hk fun _ => ?_
    rw [hm, u32_set32_same]
    exact hans
  · have hu : sectioned = false →
        isSectioned (decodeHeader v.mem v.handle.pHeader) = false := by
      intro hf
      rw [h.same.handle, hc.walk.ownHeader hag]
      exact hc.walk.untagged (hs hf)
    obtain ⟨hh, -, ans, hs, -, -, hd⟩ := applyRelocation_ok hu hrun
    exact (h.patch hl hk he hslot hh hd.mem hlen).next hk fun hj => absurd hj he

theorem applyRelocationsLoop_keeps (hl : LinkLayout w j) (hc : Carried w src j name)
    (hb : isBaseRelocation j = false) (hs : sectioned = false → (srcView w src).num = 0) {n i : Nat}
    (hi : i + n = numLinks w) (h : Keeps w j val i v)
    (hrun : (applyRelocationsLoop host src.pHeader src.pRelocations src.pSymtab (srcView w src)
      sectioned n i).run v = (.ok (), v')) (hfit : AnswersFit w name val v') :
    Keeps w j val (numLinks w) v' := by
  induction n generalizing i v with
  | zero =>
    simp only [applyRelocationsLoop, Prog.run_pure, Prod.mk.injEq, true_and] at hrun
    rw [← hrun, ← hi]
    exact h
  | succ n ih =>
    rw [applyRelocationsLoop, Prog.run_bind_ok] at hrun
    obtain ⟨⟨⟩, v1, hone, hrest⟩ := hrun
    have hfit1 : AnswersFit w name val v1 := by
      refine AnswersFit.before (x := applyRelocationsLoop host src.pHeader src.pRelocations
        src.pSymtab (srcView w src) sectioned n (i + 1)) ?_
      rw [hrest]
      exact hfit
    exact ih (by omega) (applyRelocation_keeps hl hc hb (by omega) hs h hone hfit1) hrest

theorem Keeps.start (w : State) (j val : UInt32) : Keeps w j val 0 w :=
  ⟨⟨rfl, fun _ _ => rfl⟩, Nat.zero_le _, fun i hi => absurd hi (Nat.not_lt_zero i), Nat.le_refl _⟩

/-- The relocations of a load that returns. -/
theorem loadApplyRelocations_keeps (hl : LinkLayout w j) (hc : Carried w src j name)
    (hb : isBaseRelocation j = false)
    (hrun : (udynlinkLoadApplyRelocations host src.pHeader src.pRelocations src.pSymtab).run w =
      (.ok (), v)) (hfit : AnswersFit w name val v) : Keeps w j val (numLinks w) v := by
  have htab : (getSectab src.pHeader false).run w.mem = (.ok (), srcView w src) :=
    Prod.ext hc.accepted rfl
  obtain ⟨as, hloop⟩ := loadApplyRelocations_ok src htab hrun
  rw [hc.links] at hloop
  have hs : decide ((srcView w src).num > 0) = false → (srcView w src).num = 0 := by
    intro h
    have hle := of_decide_eq_false h
    omega
  exact applyRelocationsLoop_keeps hl hc hb hs (Nat.zero_add _) ((Keeps.start w j val).log as)
    hloop hfit

end

/-! ## The end of the load -/

/-- The world with a count of the names, which no linking call looks at. -/
def recounted (w : State) (n : UInt16) (as : List Addr) : State :=
  World.log { w with handle := { w.handle with numNamedSyms := n } } (readEvents as)

section

variable {w : State} {j : UInt32} {n : UInt16} {as : List Addr}

theorem linkSlot_recounted (k : Nat) : linkSlot (recounted w n as) k = linkSlot w k := by
  unfold linkSlot relocSlot
  rfl

theorem linkEntry_recounted (k : Nat) : linkEntry (recounted w n as) k = linkEntry w k := rfl

theorem numLinks_recounted : numLinks (recounted w n as) = numLinks w := rfl

theorem besideSlots_recounted : BesideSlots (recounted w n as) = BesideSlots w := by
  unfold BesideSlots
  simp only [numLinks_recounted, linkSlot_recounted]

theorem WalkIn.recounted {P : Addr → Prop} {mod : Module} {tab : SectView} {src : RelocSource}
    {numRels : Nat} {m : Mem} (h : WalkIn P mod tab src numRels m) :
    WalkIn P { mod with numNamedSyms := n } tab src numRels m :=
  ⟨h.view, ⟨h.own.header, h.own.bases⟩, h.header, h.relocs, h.symt, h.untagged⟩

theorem LinkTables.recounted (hl : LinkTables w) : LinkTables (recounted w n as) := by
  refine ⟨?_, ?_⟩
  · rw [besideSlots_recounted]
    exact hl.walk.recounted
  · have hp : (Udynlink.recounted w n as).handle.pHeader = w.handle.pHeader := rfl
    have hm : (Udynlink.recounted w n as).mem = w.mem := rfl
    rw [besideSlots_recounted, hp, hm]
    exact hl.view

theorem LinkLayout.recounted (hl : LinkLayout w j) : LinkLayout (recounted w n as) j := by
  refine ⟨hl.toLinkTables.recounted, hl.named, hl.counted, fun i k hi hk he => ?_⟩
  rw [numLinks_recounted] at hi hk
  rw [linkEntry_recounted] at he ⊢
  rw [linkSlot_recounted, linkSlot_recounted]
  exact hl.apart i k hi hk he

theorem ExternAt.recounted {sym : Sym} {name : List UInt8} (hx : ExternAt w j sym name) :
    ExternAt (recounted w n as) j sym name :=
  ⟨hx.base, hx.found, hx.type, hx.named⟩

theorem SlotsTold.recounted {val : UInt32} {m : Mem} {d : Nat} (h : SlotsTold w j val m d) :
    SlotsTold (recounted w n as) j val m d := by
  intro i hi he
  rw [linkEntry_recounted] at he
  rw [linkSlot_recounted]
  exact h i hi he

end

section

variable {host : Host} {image : Image} {loadAddr : Addr} {loadSize : UInt32} {mode : LoadMode}
  {w w' : State}

/-- A load returns when the checks pass and the stages in front of the relocations and the
relocations do; then it has counted the names. -/
theorem load_ok_iff :
    (udynlinkLoadModuleImage host image loadAddr loadSize mode).run w = (.ok (), w') ↔
      udynlinkValidateHeader (decodeHeader w.mem image.pHeader) = .ok () ∧
      ((getSectab image.pHeader true).run w.mem).1 = .ok () ∧
      (loadPlaced host image loadAddr loadSize mode).run w =
        (.ok (), placedWorld host image loadAddr loadSize mode w) ∧
      ∃ w4, (udynlinkLoadApplyRelocations host image.pHeader image.pRelocations
          image.pSymtab).run (placedWorld host image loadAddr loadSize mode w) = (.ok (), w4) ∧
        w' = recounted w4 ((computeNumNamedSyms w4.handle.pHeader).run w4.mem)
          ((computeNumNamedSyms w4.handle.pHeader).reads w4.mem) := by
  unfold placedWorld loadPlaced
  rw [udynlinkLoadModuleImage]
  simp only [Prog.run_lift_bind, Prog.run_modifyHandle_bind, readHeader_run]
  cases hval : udynlinkValidateHeader (decodeHeader w.mem image.pHeader) with
  | error e =>
    refine iff_of_false loadExit_not_ok ?_
    rintro ⟨h, -⟩
    cases h
  | ok u =>
    dsimp only
    rw [Prog.run_lift_bind]
    rcases hst : (getSectab image.pHeader true).run w.mem with ⟨res, tab⟩
    simp only [World.log_mem, hst]
    cases res with
    | error e =>
      refine iff_of_false loadExit_not_ok ?_
      rintro ⟨-, h, -⟩
      cases h
    | ok u =>
      simp only [Prog.run_lift_bind, Prog.run_attempt_bind, World.log_mem, true_and]
      generalize World.log (World.log (World.log _ _) _) _ = w1
      rcases hc : (checkSizes image tab mode).run w1 with ⟨e | ramSize, w2⟩
      · rw [loadBody, Prog.run_bind_of_error hc, Prog.run_bind_of_error hc]
        refine iff_of_false loadExit_not_ok ?_
        rintro ⟨h, -⟩
        cases h
      · rw [loadBody, Prog.run_bind_of_ok hc, Prog.run_bind_of_ok hc]
        rcases hp : (provisionRam host image tab ((getMainAlign tab).run w.mem) ramSize loadAddr
          loadSize).run w2 with ⟨e | ramAddr, w3⟩
        · rw [Prog.run_bind_of_error hp, Prog.run_bind_of_error hp]
          refine iff_of_false loadExit_not_ok ?_
          rintro ⟨h, -⟩
          cases h
        · rw [Prog.run_bind_of_ok hp, Prog.run_bind_of_ok hp]
          rcases hpl : (placeImage host image tab mode ramAddr).run w3 with ⟨e | u, w4⟩
          · rw [Prog.run_bind_of_error hpl]
            refine iff_of_false loadExit_not_ok ?_
            rintro ⟨h, -⟩
            cases h
          · rw [Prog.run_bind_of_ok hpl]
            rcases hr : (udynlinkLoadApplyRelocations host image.pHeader image.pRelocations
              image.pSymtab).run w4 with ⟨e | u, w5⟩
            · rw [Prog.run_bind_of_error hr]
              refine iff_of_false loadExit_not_ok ?_
              rintro ⟨-, w6, h, -⟩
              cases h
            · rw [Prog.run_bind_of_ok hr, Prog.run_getHandle_bind, Prog.run_lift_bind]
              constructor
              · intro h
                simp only [Prog.run_modifyHandle, Prog.run_pure, Prod.mk.injEq, true_and] at h
                exact ⟨rfl, w5, rfl, h.symm⟩
              · rintro ⟨-, w6, h, rfl⟩
                rw [Prod.mk.injEq] at h
                obtain ⟨-, rfl⟩ := h
                rfl

theorem placedWorld_of_ok
    (h : (udynlinkLoadModuleImage host image loadAddr loadSize mode).run w = (.ok (), w')) :
    ∃ w4 as, (udynlinkLoadApplyRelocations host image.pHeader image.pRelocations
        image.pSymtab).run (placedWorld host image loadAddr loadSize mode w) = (.ok (), w4) ∧
      w' = recounted w4 ((computeNumNamedSyms w4.handle.pHeader).run w4.mem) as := by
  obtain ⟨-, -, -, w4, hrel, hw'⟩ := load_ok_iff.mp h
  exact ⟨w4, _, hrel, hw'⟩

end

/-! ## Runs -/

section

variable {host : Host} {image : Image} {loadAddr : Addr} {loadSize : UInt32} {mode : LoadMode}
  {w w' w3 : State} {j : UInt32} {sym : Sym} {name : List UInt8}

/-- What a load and the calls after it leave: a module whose slots of the symbol follow the
value word. -/
theorem run_keeps
    (h : (udynlinkLoadModuleImage host image loadAddr loadSize mode).run w = (.ok (), w'))
    (h3 : w3 = placedWorld host image loadAddr loadSize mode w)
    (hl : LinkLayout w3 j) (hx : ExternAt w3 j sym name) (hc : Carried w3 image.relocSource j name)
    {cs : List LinkCall} (hcs : ∀ c ∈ cs, c.Fits name sym.val)
    (hfit : AnswersFit w3 name sym.val (runCalls cs w')) :
    LinkLayout w' j ∧ ExternAt w' j sym name ∧
      w'.handle.numNamedSyms = (computeNumNamedSyms w'.handle.pHeader).run w'.mem ∧
      Keeps w' j sym.val (numLinks w') (runCalls cs w') := by
  obtain ⟨w4, as, hrel, hw'⟩ := placedWorld_of_ok h
  rw [← h3] at hrel
  have hfit' : AnswersFit w3 name sym.val w' := hfit.beforeCalls
  have hfit4 : AnswersFit w3 name sym.val w4 := by
    intro ans ha
    refine hfit' ans ?_
    rw [hw', recounted, World.log_trace, List.drop_append]
    exact List.mem_append_left _ ha
  have hk4 := loadApplyRelocations_keeps hl hc hx.base hrel hfit4
  have hlen : w3.trace.length ≤ w'.trace.length := by
    refine Nat.le_trans hk4.later ?_
    rw [hw', recounted, World.log_trace, List.length_append]
    exact Nat.le_add_right _ _
  have htold : SlotsTold w4 j sym.val w4.mem (numLinks w4) := by
    rw [hl.links hk4.same]
    exact (hl.told hk4.same (Nat.le_refl _)).mpr hk4.told
  have hl' : LinkLayout w' j := hw' ▸ (hl.step hk4.same).recounted
  have hx' : ExternAt w' j sym name := hw' ▸ (hx.step hl hk4.same).recounted
  have htold' : SlotsTold w' j sym.val w'.mem (numLinks w') := hw' ▸ htold.recounted
  have hcount : w'.handle.numNamedSyms =
      (computeNumNamedSyms w'.handle.pHeader).run w'.mem := by
    rw [hw']
    rfl
  refine ⟨hl', hx', hcount, runCalls_keeps hl' hx' hcs (fun ans ha => hfit ans ?_)
    ⟨⟨rfl, fun _ _ => rfl⟩, Nat.le_refl _, htold', Nat.le_refl _⟩⟩
  exact List.drop_subset_drop_left _ hlen ha

/-- In a run whose answers and patches fit the value word of an extern symbol, the query says
whether its slots hold an address. -/
theorem symbol_resolved_iff_linked
    (h : (udynlinkLoadModuleImage host image loadAddr loadSize mode).run w = (.ok (), w'))
    (h3 : w3 = placedWorld host image loadAddr loadSize mode w)
    (hl : LinkLayout w3 j) (hx : ExternAt w3 j sym name) (hc : Carried w3 image.relocSource j name)
    {cs : List LinkCall} (hcs : ∀ c ∈ cs, c.Fits name sym.val)
    (hfit : AnswersFit w3 name sym.val (runCalls cs w')) (query : Host) {i : Nat}
    (hi : i < numLinks (runCalls cs w')) (hij : (linkEntry (runCalls cs w') i).2 = j) :
    ((udynlinkIsSymbolResolved query name).run (runCalls cs w')).1 = .ok true ↔
      (runCalls cs w').mem.u32 (linkSlot (runCalls cs w') i) ≠ 0 := by
  obtain ⟨hl', hx', hcount, hk⟩ := run_keeps h h3 hl hx hc hcs hfit
  obtain ⟨⟨⟨h1, hr⟩, hn, hname⟩, -⟩ := hx'.foundAt
  have h0 : 0 ∉ name := hname ▸ (hl'.named.inside _ h1 hr hn).1.zero_notMem
  rw [hl'.links hk.same] at hi
  rw [hl'.entry hk.same hi] at hij
  rw [isSymbolResolved_run hl' hx' hcount h0 hk.same, hl'.slot hk.same hi, hk.told i hi hij,
    Except.ok.injEq, bne_iff_ne]

end

/-! ## A module with one extern symbol -/

/-- Symbol 1 is the extern `e` with value word 0, and one LOT word is for it. -/
def externRom : Mem := .ofWords 0x1000
  [0x4D4C4455, 0x03010000, 0x00010000, 1, 24, 4, 0, 0, 0, 1, 2, 0x18000014, 0, 0x10000016, 0,
    0x0065006D, 0x47704770]

def externImage : Image := ⟨0x1000, 0x1020, 0x1028, 0x1040, 0x1044⟩

def externBoot : State := ⟨externRom, Module.free, []⟩

/-- A host that puts every name off. -/
def deferHost : Host := .bump 0x20000000 fun _ => symDeferred

def deferPlaced : State := placedWorld deferHost externImage 0x20000000 4 .xip externBoot

def deferLoaded : State :=
  ((udynlinkLoadModuleImage deferHost externImage 0x20000000 4 .xip).run externBoot).2

/-- Where its tables are, and what the calls read of them. -/
theorem deferPlaced_reads :
    (numLinks deferPlaced = 1 ∧ linkSlot deferPlaced 0 = 0x20000000 ∧
        (ownView deferPlaced).num = 0) ∧
      (deferPlaced.handle.pHeader = externImage.pHeader ∧
        getRelocsPointer deferPlaced.handle.pHeader
          (decodeHeader deferPlaced.mem deferPlaced.handle.pHeader) = externImage.pRelocations ∧
        getSymTablePointer deferPlaced.handle.pHeader
          (decodeHeader deferPlaced.mem deferPlaced.handle.pHeader) = externImage.pSymtab) ∧
      (isSectioned (decodeHeader deferPlaced.mem externImage.pHeader) = false ∧
        (decodeHeader deferPlaced.mem externImage.pHeader).symtSize = 24 ∧
        (decodeHeader deferPlaced.mem externImage.pHeader).numRels = 1) ∧
      (symTable deferPlaced.mem externImage.pHeader).readable = 2 ∧
      (symTable deferPlaced.mem externImage.pHeader).nameOff 1 = 22 ∧
      relocSym externImage.relocSource deferPlaced.mem 1 =
        some ⟨.pool 0x103E, 0, symTypeExtern, .data⟩ ∧
      (deferPlaced.mem 0x103E = 0x65 ∧ deferPlaced.mem 0x103F = 0) ∧
      (Reader.memchr0 2 0x103E).run deferPlaced.mem = true ∧
      ((getSectab externImage.pHeader false).run deferPlaced.mem).1 = .ok () := by
  decide +kernel

theorem deferPlaced_source : ownSource deferPlaced = externImage.relocSource :=
  RelocSource.mk.injEq .. |>.mpr deferPlaced_reads.2.1

theorem deferPlaced_slot : ∀ k, k < numLinks deferPlaced → linkSlot deferPlaced k = 0x20000000 := by
  obtain ⟨⟨hn, hslot, -⟩, -⟩ := deferPlaced_reads
  intro k hk
  obtain rfl : k = 0 := by omega
  exact hslot

theorem deferPlaced_beside {s : Span} (hs : s.base.toNat + s.len ≤ 0x20000000) :
    Covers (BesideSlots deferPlaced) s := by
  intro a ha k hk
  rw [deferPlaced_slot k hk]
  exact disjoint_of_le hs (by decide) a ha

theorem deferPlaced_walk : WalkIn (BesideSlots deferPlaced) deferPlaced.handle
    (ownView deferPlaced) (ownSource deferPlaced) (numLinks deferPlaced) deferPlaced.mem := by
  obtain ⟨⟨hn, -, hnum⟩, ⟨hheader, -⟩, ⟨hplain, hsymt, -⟩, -⟩ := deferPlaced_reads
  rw [deferPlaced_source]
  refine ⟨⟨fun h => absurd hnum h⟩, ⟨deferPlaced_beside ?_, fun k h3 hk => ?_⟩,
    deferPlaced_beside (by decide), deferPlaced_beside ?_, deferPlaced_beside ?_, fun _ => ?_⟩
  · rw [hheader]
    decide
  · omega
  · rw [hn]
    decide
  · show (0x1028 : Addr).toNat + (decodeHeader deferPlaced.mem externImage.pHeader).symtSize.toNat ≤ _
    rw [hsymt]
    decide
  · rw [hheader]
    exact hplain

theorem deferPlaced_name : StrAt deferPlaced.mem 0x103E [0x65] := by
  obtain ⟨-, -, -, -, -, -, ⟨he, hz⟩, -⟩ := deferPlaced_reads
  exact ⟨⟨he, by decide⟩, hz⟩

theorem deferPlaced_extern :
    ExternAt deferPlaced 1 ⟨.pool 0x103E, 0, symTypeExtern, .data⟩ [0x65] := by
  obtain ⟨-, -, -, -, -, hsym, -⟩ := deferPlaced_reads
  refine ⟨by decide, ?_, rfl, run_cstr deferPlaced_name (by decide)⟩
  rw [deferPlaced_source]
  exact hsym

theorem deferPlaced_named :
    (symTable deferPlaced.mem deferPlaced.handle.pHeader).WellNamed := by
  obtain ⟨⟨-, -, hname⟩, -⟩ := deferPlaced_extern.foundAt
  obtain ⟨-, ⟨hheader, -, hsymtab⟩, ⟨-, hsymt, -⟩, hr, hoff, -⟩ := deferPlaced_reads
  rw [hheader] at hname hsymtab ⊢
  have hsize : (symTable deferPlaced.mem externImage.pHeader).size = 24 := hsymt
  have hbase : (symTable deferPlaced.mem externImage.pHeader).base = 0x1028 := hsymtab
  refine ⟨?_, fun i h1 hi _ => ?_, fun i k h1 hi _ h1' hk _ _ => by omega⟩
  · rw [hsize]
    decide
  · obtain rfl : i = 1 := by omega
    have hname1 : (symTable deferPlaced.mem externImage.pHeader).name 1 = [0x65] := hname
    rw [hname1, hoff, hbase, hsize]
    exact ⟨deferPlaced_name, by decide⟩

theorem within_getSectab_untagged {P : Addr → Prop} {m : Mem} {p : Addr}
    (hs : isSectioned (decodeHeader m p) = false) (hc : Covers P ⟨p, 32⟩) :
    (getSectab p false).Within P m := by
  rw [getSectab, Reader.within_bind]
  refine ⟨within_readHeader hc m, ?_⟩
  rw [readHeader_run]
  simp only [hs, Bool.not_false, if_true]
  exact Reader.within_ite (fun _ => Reader.within_pure P _ m) fun _ => Reader.within_pure P _ m

theorem deferPlaced_layout : LinkLayout deferPlaced 1 := by
  obtain ⟨⟨hn, -⟩, ⟨hheader, -⟩, ⟨hplain, -⟩, hr, -⟩ := deferPlaced_reads
  refine ⟨⟨deferPlaced_walk, ?_⟩, deferPlaced_named, fun ho => ?_, fun i k hi hk he => Or.inr ?_⟩
  · rw [hheader]
    exact within_getSectab_untagged hplain (deferPlaced_beside (by decide))
  · obtain ⟨N, hN, hbig, -⟩ := ho
    have hle := NamedPrefix.le_readable hN
    rw [hheader] at hle
    omega
  · obtain rfl : i = 0 := by omega
    obtain rfl : k = 0 := by omega
    exact ⟨rfl, he⟩

theorem deferPlaced_carried : Carried deferPlaced externImage.relocSource 1 [0x65] := by
  obtain ⟨⟨hn, -⟩, -, ⟨-, -, hrels⟩, -, -, -, -, hz, haccepted⟩ := deferPlaced_reads
  have hsrc := deferPlaced_source
  have hview : srcView deferPlaced externImage.relocSource = ownView deferPlaced := by
    unfold srcView ownView
    rw [← hsrc]
    rfl
  have hx := deferPlaced_extern
  have hname : (readSymName (.pool 0x103E)).Within (BesideSlots deferPlaced) deferPlaced.mem := by
    have hcov : Covers (BesideSlots deferPlaced) ⟨0x103E, 2⟩ := deferPlaced_beside (by decide)
    exact Reader.within_cstr hz fun i hi => hcov _ (off_mem hi (by omega))
  refine ⟨?_, haccepted, ?_, fun k hk => ?_, fun k hk => ?_, ?_⟩
  · rw [hview, ← hsrc]
    exact deferPlaced_walk
  · rw [hn]
    exact congrArg UInt16.toNat hrels
  · unfold linkEntry
    rw [hsrc]
  · unfold linkSlot
    rw [hsrc, hview]
  · rw [← hsrc]
    exact ⟨_, hx.found, rfl, hname, hx.named⟩

theorem deferLoaded_loads :
    (udynlinkLoadModuleImage deferHost externImage 0x20000000 4 .xip).run externBoot =
      (.ok (), deferLoaded) := Prod.ext (by decide +kernel) (by rw [deferLoaded])

def deferCalls : List LinkCall := [.linkIncremental deferHost, .relinkAll deferHost]

theorem symbol_resolved_iff_linked_deferred :
    ((udynlinkIsSymbolResolved deferHost [0x65]).run (runCalls deferCalls deferLoaded)).1 =
        .ok true ↔
      (runCalls deferCalls deferLoaded).mem.u32
        (linkSlot (runCalls deferCalls deferLoaded) 0) ≠ 0 := by
  have hcalls : ∀ c ∈ deferCalls, c.Fits [0x65] 0 := by
    intro c hc
    simp only [deferCalls, List.mem_cons, List.not_mem_nil, or_false] at hc
    rcases hc with rfl | rfl
    · trivial
    · trivial
  obtain ⟨hev, hlinks, hentry⟩ :
      hostEvents (runCalls deferCalls deferLoaded).trace =
          [.resolve [0x65] 1, .resolve [0x65] 1, .resolve [0x65] 1] ∧
        0 < numLinks (runCalls deferCalls deferLoaded) ∧
        (linkEntry (runCalls deferCalls deferLoaded) 0).2 = 1 := by decide +kernel
  have hfit : AnswersFit deferPlaced [0x65] 0 (runCalls deferCalls deferLoaded) := by
    intro ans ha
    have hmem : HostEvent.resolve [0x65] ans ∈
        hostEvents (runCalls deferCalls deferLoaded).trace :=
      List.mem_filterMap.mpr ⟨_, List.mem_of_mem_drop ha, rfl⟩
    rw [hev] at hmem
    simp only [List.mem_cons, HostEvent.resolve.injEq, true_and, List.not_mem_nil, or_false,
      or_self] at hmem
    rw [hmem]
    decide
  exact symbol_resolved_iff_linked deferLoaded_loads rfl deferPlaced_layout deferPlaced_extern
    deferPlaced_carried hcalls hfit deferHost hlinks hentry

/-- A host that knows the symbol. -/
def knowingHost : Host := .bump 0x20000000 fun _ => 0x08000101

def deferLinked : State := runCalls [.linkIncremental knowingHost] deferLoaded

/-- The slot is filled by the call, and the query goes on answering 0. -/
theorem linked_not_resolved :
    ((udynlinkLoadModuleImage deferHost externImage 0x20000000 4 .xip).run externBoot).1 = .ok () ∧
      0 < numLinks deferLinked ∧ (linkEntry deferLinked 0).2 = 1 ∧
      relocSym (ownSource deferLinked) deferLinked.mem 1 =
        some ⟨.pool 0x103E, 0, symTypeExtern, .data⟩ ∧
      ¬ (((udynlinkIsSymbolResolved knowingHost [0x65]).run deferLinked).1 = .ok true ↔
        deferLinked.mem.u32 (linkSlot deferLinked 0) ≠ 0) := by
  decide +kernel

end Udynlink
