import Udynlink.Deps.Registry
import Udynlink.Deps.ThunkWorld

/-!
# Stubs over a run

As long as no function address is asked for with two RAM bases, and loads keep to their
own memory, every stub that is handed out calls its function with the RAM base of its
instance.
-/

namespace Udynlink.Deps

open Machine

/-! ## The pool alone -/

section

variable {t : Thunks} {served : List (UInt32 × UInt32)} {f r : UInt32}

theorem Thunks.Serves.makeCall (h : t.Serves served) (hc : ∀ r', (f, r') ∈ served → r' = r) :
    Thunks.Handed t served f r (t.makeCall r f) := by
  unfold Thunks.makeCall
  dsimp only
  by_cases hf : Deps.findStub t.mem t.pool f = 0
  · rw [if_neg (not_not.mpr hf)]
    by_cases hg : thunkFindGateway t.mem t.pool r = 0
    · rw [if_neg (not_not.mpr hg)]
      by_cases ha : (t.allocGateway r).1 = 0
      · rw [if_pos ha]
        exact ⟨h.allocGateway_extends, Or.inl ⟨rfl, h.allocGateway⟩⟩
      · rw [if_neg ha]
        exact h.freshStub ha
    · rw [if_pos hg]
      exact h.allocStub (h.findGateway hg)
  · rw [if_pos hf]
    exact h.existing hf hc

/-- A stub for entry `i`, whose gateway is one for its RAM base; the other gateways stay. -/
theorem dynamicStub_handed {s : ResState} {i : Nat} (h : s.thunks.Serves served)
    (hc : ∀ r', (f, r') ∈ served → r' = r)
    (hg : s.gateways i = 0 ∨ s.thunks.HasGateway (s.gateways i) r) :
    Thunks.Handed s.thunks served f r
        ((dynamicStub i r f s).1, (dynamicStub i r f s).2.thunks) ∧
      (∀ j, j ≠ i → (dynamicStub i r f s).2.gateways j = s.gateways j) ∧
      ((dynamicStub i r f s).2.gateways i = 0 ∨
        (dynamicStub i r f s).2.thunks.HasGateway ((dynamicStub i r f s).2.gateways i) r) := by
  unfold dynamicStub
  dsimp only
  by_cases hf : findStub s.thunks.mem s.thunks.pool f = 0
  · rw [if_neg (not_not.mpr hf)]
    by_cases hgi : s.gateways i = 0
    · rw [if_neg (not_not.mpr hgi)]
      by_cases ha : (s.thunks.allocGateway r).1 = 0
      · rw [if_pos ha]
        refine ⟨⟨h.allocGateway_extends, Or.inl ⟨rfl, h.allocGateway⟩⟩, fun j hj => ?_, Or.inl ?_⟩
        · exact Function.update_of_ne hj _ _
        · dsimp only
          rw [Function.update_self, ha]
      · rw [if_neg ha]
        have hs := h.freshStub (f := f) ha
        refine ⟨hs, fun j hj => Function.update_of_ne hj _ _, Or.inr ?_⟩
        dsimp only
        rw [Function.update_self]
        obtain ⟨he, -⟩ := h.allocGateway.allocStub (f := f) (h.allocGateway_gateway ha)
        exact he.gateways _ _ (h.allocGateway_gateway ha)
    · rw [if_pos hgi]
      have hgr := hg.resolve_left hgi
      have hs := h.allocStub (f := f) hgr
      exact ⟨hs, fun _ _ => rfl, Or.inr (hs.1.gateways _ _ hgr)⟩
  · rw [if_pos hf]
    exact ⟨h.existing hf hc, fun _ _ => rfl, hg⟩

end

/-! ## The invariant -/

namespace World

structure Inv (w : World) (served : List (UInt32 × UInt32)) : Prop where
  pool : w.thunks.Serves served
  gateways : ∀ e ∈ w.mgr.entries, e.gateway = 0 ∨ ∃ r, w.thunks.HasGateway e.gateway r ∧
    ∀ i, w.modules e.pMod = some i → i.mod.ramBase = r
  slots : ∀ e ∈ w.mgr.entries, ∀ i, w.modules e.pMod = some i →
    i.mod.SlotsRight i.told w.thunks.mem
  apart : ∀ e ∈ w.mgr.entries, ∀ i, w.modules e.pMod = some i → ∀ s ∈ i.area,
    s.Disjoint w.thunks.pool.span

/-- Stubs and gateways in use by others than `pMod` are left alone. -/
structure KeepsMem (w : World) (pMod : Handle) (mem : Mem) : Prop where
  pool : AgreeOn w.thunks.pool.span w.thunks.mem mem
  others : ∀ e ∈ w.mgr.entries, e.pMod ≠ pMod → ∀ i, w.modules e.pMod = some i → ∀ s ∈ i.area,
    AgreeOn s w.thunks.mem mem

/-- An instance that takes over a handle: its slots lie outside the pool, and a gateway
that an entry with the handle still has is one for its RAM base. -/
structure Settles (w : World) (pMod : Handle) (i : Instance) : Prop where
  apart : ∀ s ∈ i.area, s.Disjoint w.thunks.pool.span
  gateway : ∀ e ∈ w.mgr.entries, e.pMod = pMod → e.gateway = 0 ∨
    gatewayRamBase w.thunks.mem e.gateway = i.mod.ramBase

/-- What a step has to meet, after stubs for `served` were handed out from the pool. -/
def Allows (w : World) (served : List (UInt32 × UInt32)) : ThunkStep → Prop
  | .load pMod result mem => w.KeepsMem pMod mem ∧ ∀ m, result = some m →
      (∃ e ∈ w.mgr.entries, e.pMod = pMod) → w.Settles pMod ⟨m, fun _ => 0⟩ ∧
        ∀ x ∈ m.slots fun _ => 0, mem.u16 x.1 = 0
  | .depLoad pMod _ result answer mem => w.KeepsMem pMod mem ∧ ∀ m, result = some m →
      w.Settles pMod ⟨m, answer⟩ ∧ m.SlotsFit answer mem ∧
        ∀ e ∈ w.mgr.entries, e.pMod ≠ pMod → ∀ i, w.modules e.pMod = some i →
          ∀ s ∈ i.area, ∀ s' ∈ m.thunkArea answer, s.Disjoint s'
  | .depUnload pMod mem => w.KeepsMem pMod mem
  | s => ∀ q, w.request s = some q →
      match q.slot with
      | none => ∀ r, (q.func, r) ∈ served → r = q.inst.mod.ramBase
      | some _ => ∀ sym, q.inst.mod.lookup q.inst.told q.name = some sym → sym.val = q.func

/-- The stub is one of the pool, or one in a slot of its instance. -/
def Holds (w : World) (x : Held) : Prop :=
  ∃ i, w.modules x.pMod = some i ∧ i.mod.ramBase = x.ramBase ∧
    (w.thunks.StubEntry x.entry x.func x.ramBase ∨
      i.mod.SlotEntry i.told w.thunks.mem x.entry x.func ∧ x.pMod ∈ w.mgr.handles)

variable {w : World} {served served' : List (UInt32 × UInt32)} {x : Held}

/-- Allocations in the pool keep the invariant. -/
theorem Inv.extend (h : w.Inv served) {t : Thunks} (he : w.thunks.Extends t)
    (hs : t.Serves served') : Inv { w with thunks := t } served' where
  pool := hs
  gateways e hm := by
    rcases h.gateways e hm with h0 | ⟨r, hg, hr⟩
    · exact Or.inl h0
    · exact Or.inr ⟨r, he.gateways _ _ hg, hr⟩
  slots e hm i hi := (h.slots e hm i hi).congr fun s hs => he.outside s (h.apart e hm i hi s hs)
  apart e hm i hi s hs := by
    rw [he.span]
    exact h.apart e hm i hi s hs

theorem exists_entry {mgr : DepMgr} {pMod : Handle} (h : pMod ∈ mgr.handles) :
    ∃ e ∈ mgr.entries, e.pMod = pMod :=
  List.mem_map.mp h

theorem Inv.holds (h : w.Inv served) (hx : w.Holds x) : x.Right w := by
  obtain ⟨i, hi, hr, hs | ⟨hs, -⟩⟩ := hx
  · refine ⟨i, hi, ?_⟩
    rw [hr]
    exact h.pool.callsWith hs
  · exact ⟨i, hi, hs.callsWith⟩

/-- Stubs stay what they are while the pool is allocated from. -/
theorem Holds.extend (h : w.Inv served) {t : Thunks} (he : w.thunks.Extends t)
    (hx : w.Holds x) : Holds { w with thunks := t } x := by
  obtain ⟨i, hi, hr, hs | ⟨hs, hreg⟩⟩ := hx
  · exact ⟨i, hi, hr, Or.inl (he.stubs _ _ _ hs)⟩
  · obtain ⟨e, hmem, hp⟩ := exists_entry hreg
    refine ⟨i, hi, hr, Or.inr ⟨hs.congr fun s hsa => he.outside s ?_, hreg⟩⟩
    exact h.apart e hmem i (by rwa [hp]) s hsa

/-- Stubs of one instance outlast a change of another. -/
theorem Holds.setModule (h : w.Inv served) {pMod : Handle} {i : Option Instance} {mem : Mem}
    (hm : w.KeepsMem pMod mem) (hne : x.pMod ≠ pMod) (hx : w.Holds x) :
    (w.setModule pMod i mem).Holds x := by
  obtain ⟨j, hj, hr, hs⟩ := hx
  refine ⟨j, ?_, hr, ?_⟩
  · dsimp only [World.setModule]
    rwa [Function.update_of_ne hne]
  · rcases hs with hs | ⟨hs, hreg⟩
    · exact Or.inl (hs.congr h.pool hm.pool)
    · obtain ⟨e, hmem, hp⟩ := exists_entry hreg
      refine Or.inr ⟨hs.congr fun s hsa => ?_, hreg⟩
      exact hm.others e hmem (by rwa [hp]) j (by rwa [hp]) s hsa

theorem Holds.withMgr {mgr : DepMgr} (hm : x.pMod ∈ w.mgr.handles → x.pMod ∈ mgr.handles)
    (hx : w.Holds x) : Holds { w with mgr := mgr } x := by
  obtain ⟨i, hi, hr, hs⟩ := hx
  exact ⟨i, hi, hr, hs.imp id fun hs => ⟨hs.1, hm hs.2⟩⟩

/-- A new module behind a handle, over memory that keeps what others use. -/
theorem Inv.setModule (h : w.Inv served) {pMod : Handle} {i : Option Instance} {mem : Mem}
    (hm : w.KeepsMem pMod mem)
    (hi : ∀ x, i = some x → (∃ e ∈ w.mgr.entries, e.pMod = pMod) →
      w.Settles pMod x ∧ x.mod.SlotsRight x.told mem) : (w.setModule pMod i mem).Inv served where
  pool := h.pool.congr hm.pool
  gateways e he := by
    by_cases h0 : e.gateway = 0
    · exact Or.inl h0
    · obtain ⟨r, hg, hr⟩ := (h.gateways e he).resolve_left h0
      refine Or.inr ⟨r, hg.congr h.pool hm.pool, fun x hx => ?_⟩
      by_cases hp : e.pMod = pMod
      · dsimp only [World.setModule] at hx
        rw [hp, Function.update_self] at hx
        obtain ⟨-, -, -, hga⟩ := hg
        exact (((hi x hx ⟨e, he, hp⟩).1.gateway e he hp).resolve_left h0).symm.trans hga.ramBase
      · dsimp only [World.setModule] at hx
        rw [Function.update_of_ne hp] at hx
        exact hr x hx
  slots e he x hx := by
    dsimp only [World.setModule] at hx ⊢
    by_cases hp : e.pMod = pMod
    · rw [hp, Function.update_self] at hx
      exact (hi x hx ⟨e, he, hp⟩).2
    · rw [Function.update_of_ne hp] at hx
      exact (h.slots e he x hx).congr fun s hs => hm.others e he hp x hx s hs
  apart e he x hx s hs := by
    dsimp only [World.setModule] at hx ⊢
    by_cases hp : e.pMod = pMod
    · rw [hp, Function.update_self] at hx
      exact (hi x hx ⟨e, he, hp⟩).1.apart s hs
    · rw [Function.update_of_ne hp] at hx
      exact h.apart e he x hx s hs

/-- Another registry: its entries are old ones, or new ones without a gateway. -/
theorem Inv.withMgr (h : w.Inv served) {mgr : DepMgr}
    (hm : ∀ e ∈ mgr.entries, e ∈ w.mgr.entries ∨ e.gateway = 0 ∧
      ∀ i, w.modules e.pMod = some i → i.mod.SlotsRight i.told w.thunks.mem ∧
        ∀ s ∈ i.area, s.Disjoint w.thunks.pool.span) : Inv { w with mgr := mgr } served where
  pool := h.pool
  gateways e he := by
    rcases hm e he with hold | ⟨h0, -⟩
    · exact h.gateways e hold
    · exact Or.inl h0
  slots e he i hi := by
    rcases hm e he with hold | ⟨-, hnew⟩
    · exact h.slots e hold i hi
    · exact (hnew i hi).1
  apart e he i hi := by
    rcases hm e he with hold | ⟨-, hnew⟩
    · exact h.apart e hold i hi
    · exact (hnew i hi).2

/-- Gateways of the entries behind a resolution. -/
theorem Inv.withState (h : w.Inv served) {s : ResState} (he : w.thunks.Extends s.thunks)
    (hs : s.thunks.Serves served')
    (hg : ∀ j e, w.mgr.entries[j]? = some e → s.gateways j = e.gateway ∨ s.gateways j = 0 ∨
      ∃ r, s.thunks.HasGateway (s.gateways j) r ∧
        ∀ i, w.modules e.pMod = some i → i.mod.ramBase = r) : (w.withState s).Inv served' := by
  have hx := h.extend he hs
  have hentry : ∀ e ∈ (w.withState s).mgr.entries, ∃ j, ∃ e' : DepEntry, w.mgr.entries[j]? = some e' ∧
      e = ({ e' with gateway := s.gateways j } : DepEntry) := by
    intro e hmem
    obtain ⟨j, hj, rfl⟩ := List.mem_mapIdx.mp hmem
    exact ⟨j, _, List.getElem?_eq_getElem hj, rfl⟩
  refine ⟨hs, fun e hmem => ?_, fun e hmem i hi => ?_, fun e hmem i hi => ?_⟩
  all_goals
    obtain ⟨j, e', hj, rfl⟩ := hentry e hmem
    have hold := List.mem_of_getElem? hj
  · rcases hg j e' hj with heq | hnew
    · dsimp only
      rw [heq]
      exact hx.gateways e' hold
    · exact hnew
  · exact hx.slots e' hold i hi
  · exact hx.apart e' hold i hi

theorem Holds.withState (h : w.Inv served) {s : ResState} (he : w.thunks.Extends s.thunks)
    (hx : w.Holds x) : (w.withState s).Holds x := by
  refine Holds.withMgr (w := { w with thunks := s.thunks }) (fun hreg => ?_) (hx.extend h he)
  obtain ⟨e, hmem, hp⟩ := exists_entry hreg
  obtain ⟨j, hj, rfl⟩ := List.getElem_of_mem hmem
  exact List.mem_map.mpr ⟨_, List.mem_mapIdx.mpr ⟨j, hj, rfl⟩, hp⟩

/-! ## Steps -/

theorem pushName_entries (mgr : DepMgr) (name : Option ModName) :
    (mgr.pushName name).entries = mgr.entries := by
  unfold DepMgr.pushName DepMgr.pushLoading
  cases name with
  | none => rfl
  | some n =>
    dsimp only
    split <;> rfl

theorem popName_entries (mgr : DepMgr) (name : Option ModName) :
    (mgr.popName name).entries = mgr.entries := by
  unfold DepMgr.popName DepMgr.popLoading
  cases name <;> rfl

theorem mem_registerModule {mgr : DepMgr} {pMod : Handle} {e : DepEntry}
    (h : e ∈ (mgr.registerModule pMod).entries) : e ∈ mgr.entries ∨ e = ⟨pMod, 0⟩ := by
  unfold DepMgr.registerModule at h
  split at h
  · exact Or.inl h
  · rcases List.mem_append.mp h with h | h
    · exact Or.inl h
    · exact Or.inr (List.mem_singleton.mp h)

theorem handle_of_registered {mgr : DepMgr} {pMod h : Handle} (hm : h ∈ mgr.handles) :
    h ∈ (mgr.registerModule pMod).entries.map DepEntry.pMod := by
  unfold DepMgr.registerModule
  split
  · exact hm
  · rw [List.map_append]
    exact List.mem_append_left _ hm

theorem mem_unregisterModule {mgr : DepMgr} {pMod : Handle} {e : DepEntry}
    (h : e ∈ (mgr.unregisterModule pMod).entries) : e ∈ mgr.entries := by
  unfold DepMgr.unregisterModule at h
  split at h
  · exact h
  · rename_i i hi
    have hne : mgr.entries ≠ [] := by
      intro h0
      rw [h0] at hi
      cases hi
    rcases List.mem_or_eq_of_mem_set (List.mem_of_mem_dropLast h) with hold | rfl
    · exact hold
    · rw [List.getLastD_eq_getLast?, List.getLast?_eq_some_getLast hne]
      exact List.getLast_mem hne

theorem Inv.loadModule (h : w.Inv served) {pMod : Handle} {result : Option LoadedModule}
    {mem : Mem} (ha : w.Allows served (.load pMod result mem)) :
    (w.loadModule pMod result mem).Inv served ∧ ∀ x, w.Holds x →
      w.replaces x.pMod (.load pMod result mem) = false →
        (w.loadModule pMod result mem).Holds x := by
  unfold World.loadModule World.replaces
  by_cases h0 : pMod = 0
  · rw [if_pos h0]
    exact ⟨h, fun _ hx _ => hx⟩
  · rw [if_neg h0]
    refine ⟨h.setModule ha.1 fun x hx hreg => ?_, fun x hx hne => hx.setModule h ha.1 ?_⟩
    · cases result with
      | none => cases hx
      | some m =>
        obtain rfl := Option.some.inj hx
        obtain ⟨hs, h0⟩ := ha.2 m rfl hreg
        exact ⟨hs, fun x hx => Or.inl (h0 x hx)⟩
    · simpa [h0] using hne

theorem Inv.depLoad (h : w.Inv served) {pMod : Handle} {name : Option ModName}
    {result : Option LoadedModule} {answer : ModName → UInt32} {mem : Mem}
    (ha : w.Allows served (.depLoad pMod name result answer mem)) :
    (w.depLoad pMod name result answer mem).Inv served ∧ ∀ x, w.Holds x →
      w.replaces x.pMod (.depLoad pMod name result answer mem) = false →
        (w.depLoad pMod name result answer mem).Holds x := by
  unfold World.depLoad World.replaces
  by_cases h0 : pMod = 0 ∨ w.mgr.refuses name = true
  · rw [if_pos h0]
    exact ⟨h, fun _ hx _ => hx⟩
  · rw [if_neg h0]
    have hne : ∀ x : Held, (!(decide (pMod = 0 ∨ w.mgr.refuses name = true)) &&
        decide (x.pMod = pMod)) = false → x.pMod ≠ pMod := fun x hx => by simpa [h0] using hx
    obtain ⟨hk, hm⟩ := ha
    cases result with
    | none =>
      refine ⟨(h.setModule hk fun x hx => by cases hx).withMgr fun e he => Or.inl ?_,
        fun x hx hr => (hx.setModule h hk (hne x hr)).withMgr fun hreg => ?_⟩
      · rwa [popName_entries, pushName_entries] at he
      · rwa [DepMgr.handles, popName_entries, pushName_entries]
    | some m =>
      obtain ⟨hs, hfit, hothers⟩ := hm m rfl
      have hk' : w.KeepsMem pMod (m.generateThunks answer mem) :=
        ⟨hk.pool.trans (LoadedModule.generateThunks_agree fun s hmem => (hs.apart s hmem).symm),
          fun e he hp i hi s hmem => (hk.others e he hp i hi s hmem).trans
            (LoadedModule.generateThunks_agree (hothers e he hp i hi s hmem))⟩
      refine ⟨(h.setModule (i := some ⟨m, answer⟩) hk' fun x hx _ => ?_).withMgr fun e he => ?_,
        fun x hx hr => (hx.setModule h hk' (hne x hr)).withMgr fun hreg => ?_⟩
      · obtain rfl := Option.some.inj hx
        exact ⟨hs, hfit.right⟩
      · rw [popName_entries] at he
        rcases mem_registerModule he with hold | rfl
        · rw [pushName_entries] at hold
          exact Or.inl hold
        · refine Or.inr ⟨rfl, fun x hx => ?_⟩
          dsimp only [World.setModule] at hx
          rw [Function.update_self] at hx
          obtain rfl := Option.some.inj hx
          exact ⟨hfit.right, hs.apart⟩
      · rw [DepMgr.handles, popName_entries]
        apply handle_of_registered
        rwa [DepMgr.handles, pushName_entries]

theorem Inv.depUnload (h : w.Inv served) {pMod : Handle} {mem : Mem}
    (ha : w.Allows served (.depUnload pMod mem)) :
    (w.depUnload pMod mem).Inv served ∧ ∀ x, w.Holds x →
      w.replaces x.pMod (.depUnload pMod mem) = false → (w.depUnload pMod mem).Holds x := by
  unfold World.depUnload World.replaces
  by_cases h0 : pMod = 0
  · rw [if_pos h0]
    exact ⟨h, fun _ hx _ => hx⟩
  · rw [if_neg h0]
    refine ⟨(h.setModule ha fun x hx => by cases hx).withMgr fun e he =>
      Or.inl (mem_unregisterModule he), fun x hx hr => ?_⟩
    have hne : x.pMod ≠ pMod := by simpa [h0] using hr
    refine (hx.setModule h ha hne).withMgr fun hreg => ?_
    exact (handles_unregister w.mgr pMod).symm.subset ((List.mem_erase_of_ne hne).mpr hreg)

theorem module_of_some {pMod : Handle} {i : Instance} (h : w.modules pMod = some i) :
    w.module pMod = i.mod := by
  unfold World.module
  rw [h]

/-- Only loaded modules have symbols. -/
theorem exists_of_lookup {pMod : Handle} {answer : ModName → UInt32} {name : ModName}
    {sym : ModSym} (h : (w.module pMod).lookup answer name = some sym) :
    ∃ i, w.modules pMod = some i := by
  unfold World.module at h
  cases hm : w.modules pMod with
  | none =>
    rw [hm] at h
    cases h
  | some i => exact ⟨i, rfl⟩

/-- What a call does: it keeps the invariant and the stubs that are out, and what it hands
out is right. -/
def CallOk (w : World) (s : ThunkStep) (served : List (UInt32 × UInt32)) : Prop :=
  (w.exec s).2.Inv (w.record s served) ∧ (∀ x, w.Holds x → (w.exec s).2.Holds x) ∧
    ∀ x ∈ w.handed s, (w.exec s).2.Holds x

/-- A step that hands nothing out and asks for nothing. -/
theorem call_nothing {s : ThunkStep} {w' : World} (hx : w.exec s = (0, w'))
    (hq : w.request s = none) (hi : w'.Inv served) (hk : ∀ x, w.Holds x → w'.Holds x) :
    w.CallOk s served := by
  unfold CallOk record handed
  rw [hx, hq]
  exact ⟨hi, hk, fun x hx => by cases hx⟩

/-- A request that the pool serves. -/
theorem call_pool {s : ThunkStep} {q : Request} {e : UInt32} {w' : World}
    (hx : w.exec s = (e, w')) (hq : w.request s = some q) (hslot : q.slot = none)
    (hk : ∀ x, w.Holds x → w'.Holds x)
    (hs : e = 0 ∧ w'.Inv served ∨ e ≠ 0 ∧ w'.Inv ((q.func, q.inst.mod.ramBase) :: served) ∧
      w'.Holds ⟨q.pMod, e, q.func, q.inst.mod.ramBase⟩) : w.CallOk s served := by
  unfold CallOk record handed
  rw [hx, hq]
  dsimp only
  rw [hslot]
  rcases hs with ⟨h0, hi⟩ | ⟨hne, hi, hnew⟩
  · rw [if_pos (Or.inr h0), if_pos h0]
    exact ⟨hi, hk, fun x hx => by cases hx⟩
  · rw [if_neg (by simpa using hne), if_neg hne]
    refine ⟨hi, hk, fun x hx => ?_⟩
    rw [List.mem_singleton.mp hx]
    exact hnew

/-- A request that a slot serves. -/
theorem call_slot {s : ThunkStep} {q : Request} {a e : UInt32} {w' : World}
    (hx : w.exec s = (e, w')) (hq : w.request s = some q) (hslot : q.slot = some a)
    (hi : w'.Inv served) (hk : ∀ x, w.Holds x → w'.Holds x)
    (hnew : w'.Holds ⟨q.pMod, e, q.func, q.inst.mod.ramBase⟩) : w.CallOk s served := by
  unfold CallOk record handed
  rw [hx, hq]
  dsimp only
  rw [hslot, if_pos (Or.inl Option.isSome_some)]
  refine ⟨hi, hk, fun x hx => ?_⟩
  split at hx
  · cases hx
  · rw [List.mem_singleton.mp hx]
    exact hnew

theorem Inv.makeCall (h : w.Inv served) {answer : ModName → UInt32} {pMod : Handle}
    {name : ModName} (ha : w.Allows served (.makeCall answer pMod name)) :
    w.CallOk (.makeCall answer pMod name) served := by
  have hx : w.exec (.makeCall answer pMod name) = w.makeCall answer pMod name := rfl
  unfold World.makeCall at hx
  cases hl : (w.module pMod).lookup answer name with
  | none =>
    rw [hl] at hx
    refine call_nothing hx ?_ h fun _ hx => hx
    unfold World.request
    dsimp only
    rw [hl]
    cases w.modules pMod <;> rfl
  | some sym =>
    obtain ⟨i, hi⟩ := exists_of_lookup hl
    have hq : w.request (.makeCall answer pMod name) =
        if sym.location = .data then none else some ⟨pMod, i, name, sym.val, none⟩ := by
      unfold World.request
      dsimp only
      rw [hi, hl]
    rw [hl] at hx
    dsimp only at hx
    by_cases hd : sym.location = .data
    · rw [if_pos hd] at hq hx
      exact call_nothing hx hq h fun _ hx => hx
    · rw [if_neg hd] at hq hx
      obtain ⟨he, hs⟩ := h.pool.makeCall (ha _ hq)
      rw [module_of_some hi] at hx
      refine call_pool hx hq rfl (fun x hx => hx.extend h he) ?_
      rcases hs with ⟨h0, hs⟩ | ⟨hne, hs, hentry⟩
      · exact Or.inl ⟨h0, h.extend he hs⟩
      · exact Or.inr ⟨hne, h.extend he hs, i, hi, rfl, Or.inl hentry⟩

/-- The gateway of an entry is one for the RAM base of its instance. -/
theorem Inv.gateway_of_entry (h : w.Inv served) {j : Nat} {e : DepEntry} {i : Instance}
    (hj : w.mgr.entries[j]? = some e) (hi : w.modules e.pMod = some i)
    (hg : w.resState.gateways j = e.gateway) : w.resState.gateways j = 0 ∨
      w.thunks.HasGateway (w.resState.gateways j) i.mod.ramBase := by
  rw [hg]
  rcases h.gateways e (List.mem_of_getElem? hj) with h0 | ⟨r, hgw, hr⟩
  · exact Or.inl h0
  · rw [hr i hi]
    exact Or.inr hgw

/-- A filled slot holds the stub of the function it was filled for. -/
theorem Inv.slotEntry (h : w.Inv served) {e : DepEntry} {i : Instance}
    (he : e ∈ w.mgr.entries) (hi : w.modules e.pMod = some i) {answer : ModName → UInt32}
    {name : ModName} {sym : ModSym} (hl : i.mod.lookup answer name = some sym)
    (hc : sym.location = .code)
    (hsteady : ∀ fsym, i.mod.lookup i.told name = some fsym → fsym.val = sym.val)
    {a : Addr} (hslot : w.env.slotFor answer name i.mod = some a) :
    i.mod.SlotEntry i.told w.thunks.mem (a ||| 1) sym.val := by
  obtain ⟨tsym, ht, hty, hloc, hne, rfl⟩ := w.env.slotFor_some answer name hslot
  obtain ⟨fsym, hf, hfl⟩ := LoadedModule.lookup_told i.told hl
  have hmem := LoadedModule.slot_of_lookup (LoadedModule.find_of_lookup ht hty) hty hloc hf
    (hfl.trans hc)
  rcases h.slots e he i hi _ hmem with h0 | ⟨hev, g, hg, hge, hs, hga⟩
  · exact absurd h0 hne
  · rw [← hsteady fsym hf]
    exact ⟨_, g, rfl, hev, hge, hs, hga, i.mod.slot_mem_area i.told hmem,
      i.mod.gateway_mem_area i.told hg⟩

theorem Inv.resolveFunc (h : w.Inv served) {answer : ModName → UInt32} {name : ModName}
    (ha : w.Allows served (.resolveFunc answer name)) :
    w.CallOk (.resolveFunc answer name) served := by
  have hx : w.exec (.resolveFunc answer name) = w.resolveFunc answer name := rfl
  have hsame : ∀ j e, w.mgr.entries[j]? = some e → w.resState.gateways j = e.gateway := by
    intro j e hj
    unfold World.resState
    dsimp only
    rw [List.getD_eq_getElem?_getD, hj]
    rfl
  have hkeep : (w.withState w.resState).Inv served :=
    h.withState (.refl _) h.pool fun j e hj => Or.inl (hsame j e hj)
  have hheld : ∀ x, w.Holds x → (w.withState w.resState).Holds x :=
    fun x hx => hx.withState h (.refl _)
  unfold World.resolveFunc Env.resolveFunc at hx
  rw [Env.resolveFuncFrom_owner] at hx
  cases ho : w.env.owner answer name 0 w.env.handles with
  | none =>
    rw [ho] at hx
    refine call_nothing hx ?_ hkeep hheld
    unfold World.request
    dsimp only
    rw [ho]
  | some o =>
    obtain ⟨j, pMod, sym⟩ := o
    obtain ⟨-, hget, hl, hc⟩ := w.env.owner_some answer name ho
    obtain ⟨e, hj, rfl⟩ : ∃ e, w.mgr.entries[j]? = some e ∧ e.pMod = pMod := by
      rw [Nat.sub_zero, Env.handles, List.getElem?_map] at hget
      exact Option.map_eq_some_iff.mp hget
    have hmem := List.mem_of_getElem? hj
    obtain ⟨i, hi⟩ := exists_of_lookup hl
    have hmod : w.env.modules e.pMod = i.mod := module_of_some hi
    rw [hmod] at hl
    have hq : w.request (.resolveFunc answer name) =
        some ⟨e.pMod, i, name, sym.val, w.env.slotFor answer name i.mod⟩ := by
      unfold World.request
      dsimp only
      rw [ho]
      dsimp only
      rw [hi]
      rfl
    rw [ho] at hx
    dsimp only at hx
    rw [Env.serveFunc_answering, hmod] at hx
    have hall := ha _ hq
    dsimp only at hall
    cases hslot : w.env.slotFor answer name i.mod with
    | some a =>
      rw [hslot] at hx hall
      refine call_slot hx hq hslot hkeep hheld (hheld _ ⟨i, hi, rfl, Or.inr ⟨?_, ?_⟩⟩)
      · exact h.slotEntry hmem hi hl hc hall hslot
      · exact List.mem_map_of_mem hmem
    | none =>
      rw [hslot] at hx hall
      dsimp only at hx
      have hgw := h.gateway_of_entry hj hi (hsame j e hj)
      obtain ⟨⟨he, hs⟩, hothers, hown⟩ := dynamicStub_handed (s := w.resState) h.pool hall hgw
      have hgs : ∀ k e', w.mgr.entries[k]? = some e' →
          (dynamicStub j i.mod.ramBase sym.val w.resState).2.gateways k = e'.gateway ∨
          (dynamicStub j i.mod.ramBase sym.val w.resState).2.gateways k = 0 ∨
          ∃ r, (dynamicStub j i.mod.ramBase sym.val w.resState).2.thunks.HasGateway
              ((dynamicStub j i.mod.ramBase sym.val w.resState).2.gateways k) r ∧
            ∀ x, w.modules e'.pMod = some x → x.mod.ramBase = r := by
        intro k e' hk
        by_cases hkj : k = j
        · subst hkj
          obtain rfl : e = e' := Option.some.inj (hj.symm.trans hk)
          rcases hown with h0 | hg
          · exact Or.inr (Or.inl h0)
          · refine Or.inr (Or.inr ⟨_, hg, fun x hx' => ?_⟩)
            obtain rfl : i = x := Option.some.inj (hi.symm.trans hx')
            rfl
        · exact Or.inl ((hothers k hkj).trans (hsame k e' hk))
      refine call_pool hx hq hslot (fun x hx => hx.withState h he) ?_
      rcases hs with ⟨h0, hs⟩ | ⟨hne, hs, hentry⟩
      · exact Or.inl ⟨h0, h.withState he hs hgs⟩
      · exact Or.inr ⟨hne, h.withState he hs hgs, i, hi, rfl, Or.inl hentry⟩

/-! ## Runs -/

/-- Every step of the run meets its condition. -/
def Allowed : List ThunkStep → World × History → Prop
  | [], _ => True
  | s :: steps, (w, hist) => w.Allows hist.served s ∧
    Allowed steps ((w.exec s).2, ⟨w.record s hist.served,
      w.handed s ++ hist.held.filter fun x => !w.replaces x.pMod s⟩)

structure Good (p : World × History) : Prop where
  inv : p.1.Inv p.2.served
  held : ∀ x ∈ p.2.held, p.1.Holds x

theorem Good.step {hist : History} (h : Good (w, hist)) {s : ThunkStep}
    (ha : w.Allows hist.served s) : Good ((w.exec s).2, ⟨w.record s hist.served,
      w.handed s ++ hist.held.filter fun x => !w.replaces x.pMod s⟩) := by
  have hcall : w.CallOk s hist.served → Good ((w.exec s).2, ⟨w.record s hist.served,
      w.handed s ++ hist.held.filter fun x => !w.replaces x.pMod s⟩) := by
    intro hc
    refine ⟨hc.1, fun x hx => ?_⟩
    rcases List.mem_append.mp hx with hnew | hold
    · exact hc.2.2 x hnew
    · exact hc.2.1 x (h.held x (List.mem_filter.mp hold).1)
  have hkept : ∀ x, x ∈ hist.held.filter (fun x => !w.replaces x.pMod s) →
      w.Holds x ∧ w.replaces x.pMod s = false := fun x hx =>
    ⟨h.held x (List.mem_filter.mp hx).1, by simpa using (List.mem_filter.mp hx).2⟩
  cases s with
  | load pMod result mem =>
    obtain ⟨hi, hk⟩ := h.inv.loadModule ha
    exact ⟨hi, fun x hx => hk x (hkept x hx).1 (hkept x hx).2⟩
  | depLoad pMod name result answer mem =>
    obtain ⟨hi, hk⟩ := h.inv.depLoad ha
    exact ⟨hi, fun x hx => hk x (hkept x hx).1 (hkept x hx).2⟩
  | depUnload pMod mem =>
    obtain ⟨hi, hk⟩ := h.inv.depUnload ha
    exact ⟨hi, fun x hx => hk x (hkept x hx).1 (hkept x hx).2⟩
  | makeCall answer pMod name => exact hcall (h.inv.makeCall ha)
  | resolveFunc answer name => exact hcall (h.inv.resolveFunc ha)

theorem Good.run (steps : List ThunkStep) {p : World × History} (h : Good p)
    (ha : Allowed steps p) : Good (World.run steps p) := by
  induction steps generalizing p with
  | nil => exact h
  | cons s steps ih => exact ih (h.step ha.1) ha.2

theorem Allowed.append {steps rest : List ThunkStep} {p : World × History} (h : Allowed steps p)
    (hr : Allowed rest (run steps p)) : Allowed (steps ++ rest) p := by
  induction steps generalizing p with
  | nil => exact hr
  | cons s steps ih => exact ⟨h.1, ih h.2 hr⟩

theorem good_initial {capacity : Nat} {mem : Mem} {buf : Addr} {sz : UInt32}
    (hb : 0 < buf.toNat) (hf : buf.toNat + sz.toNat ≤ 2 ^ 32)
    (hsz : (ThunkPool.init buf sz).size.toNat ≤ 129052) :
    Good (initial capacity mem buf sz, ⟨[], []⟩) := by
  refine ⟨⟨Thunks.serves_init hb hf hsz, ?_, ?_, ?_⟩, ?_⟩
  all_goals
    intro e he
    cases he

end World

/-- In a run whose steps meet their conditions, every stub that was handed out for a
function of an instance calls it with the RAM base of the instance, as long as the
instance is there. -/
theorem stubs_right {capacity : Nat} {mem : Mem} {buf : Addr} {sz : UInt32}
    (hb : 0 < buf.toNat) (hf : buf.toNat + sz.toNat ≤ 2 ^ 32)
    (hsz : (ThunkPool.init buf sz).size.toNat ≤ 129052) (steps : List ThunkStep)
    (ha : World.Allowed steps (.initial capacity mem buf sz, ⟨[], []⟩)) :
    ∀ x ∈ (World.run steps (.initial capacity mem buf sz, ⟨[], []⟩)).2.held,
      x.Right (World.run steps (.initial capacity mem buf sz, ⟨[], []⟩)).1 := by
  have h := (World.good_initial hb hf hsz).run steps ha
  exact fun x hx => h.inv.holds (h.held x hx)

/-! ## One instance -/

/-- An instance with one function, whose code is not copied. -/
def xipInstance (ramBase : UInt32) : LoadedModule :=
  ⟨none, ramBase, [⟨[102], 0x08000101, symTypeExported, .code⟩]⟩

def xipStart : World × History := (.initial 4 (fun _ => 0) 0x20000100 64, ⟨[], []⟩)

def xipOnce : List ThunkStep :=
  [.load 4 (some (xipInstance 0x20001000)) fun _ => 0, .makeCall (fun _ => 0) 4 [102]]

theorem xipOnce_allowed : World.Allowed xipOnce xipStart := by
  refine ⟨⟨⟨fun _ _ => rfl, ?_⟩, ?_⟩, ?_, trivial⟩
  · intro e he
    cases he
  · rintro m - ⟨e, he, -⟩
    cases he
  · intro q hq
    obtain rfl := Option.some.inj hq
    intro r hr
    cases hr

/-! ## Slots in a module -/

/-- A module with a slot for its function, and one without. -/
def slottedModule : LoadedModule :=
  ⟨none, 0x20002000, [⟨[103], 0x08000301, symTypeExported, .code⟩,
    ⟨LoadedModule.thunkGatewayName, 0x20002040, symTypeExported, .data⟩,
    ⟨thunkExportPrefix ++ [103], 0x20002060, symTypeExported, .data⟩]⟩

def slotlessModule : LoadedModule :=
  ⟨none, 0x20003000, [⟨[104], 0x08000501, symTypeExported, .code⟩]⟩

def afterOnce : World × History := World.run xipOnce xipStart

def slotSteps : List ThunkStep :=
  [.depLoad 8 (some [98]) (some slottedModule) (fun _ => 0) afterOnce.1.thunks.mem,
    .resolveFunc (fun _ => 0) [103]]

def afterSlot : World × History := World.run slotSteps afterOnce

def poolSteps : List ThunkStep :=
  [.depLoad 12 (some [99]) (some slotlessModule) (fun _ => 0) afterSlot.1.thunks.mem,
    .resolveFunc (fun _ => 0) [104]]

def afterPool : World × History := World.run poolSteps afterSlot

def unloadStep : List ThunkStep := [.depUnload 12 afterPool.1.thunks.mem]

theorem slottedModule_slots :
    slottedModule.slots (fun _ => 0) = [(0x20002060, 0x08000301)] ∧
      slottedModule.gatewaySlot (fun _ => 0) = some 0x20002040 ∧
      slottedModule.thunkArea (fun _ => 0) = [⟨0x20002040, 18⟩, ⟨0x20002060, 10⟩] := by
  decide +kernel

theorem slotlessModule_slots : slotlessModule.slots (fun _ => 0) = [] ∧
    slotlessModule.gatewaySlot (fun _ => 0) = none ∧
    slotlessModule.thunkArea (fun _ => 0) = [] := by
  decide +kernel

theorem slottedModule_fits (mem : Mem) : slottedModule.SlotsFit (fun _ => 0) mem := by
  obtain ⟨hslots, hgateway, -⟩ := slottedModule_slots
  constructor
  · rw [hslots]
    intro x hx y hy
    exact Or.inl ((List.mem_singleton.mp hx).trans (List.mem_singleton.mp hy).symm)
  · rw [hslots]
    intro x hx
    rw [List.mem_singleton.mp hx]
    exact rfl
  · rw [hslots, hgateway]
    intro g hg
    obtain rfl := Option.some.inj hg
    refine ⟨rfl, fun x hx => ?_⟩
    rw [List.mem_singleton.mp hx]
    exact ⟨by unfold Reach; decide, disjoint_of_le (by decide) (by decide)⟩
  · rw [hgateway]
    intro h
    cases h

theorem World.KeepsMem.same {w : World} {pMod : Handle} : w.KeepsMem pMod w.thunks.mem :=
  ⟨fun _ _ => rfl, fun _ _ _ _ _ _ _ _ _ => rfl⟩

theorem slotted_load_allowed {w : World} {served : List (UInt32 × UInt32)}
    (hentries : w.mgr.entries = []) (hspan : w.thunks.pool.span = ⟨0x20000100, 64⟩) :
    w.Allows served
      (.depLoad 8 (some [98]) (some slottedModule) (fun _ => 0) w.thunks.mem) := by
  refine ⟨.same, fun m hm => ?_⟩
  obtain rfl := Option.some.inj hm
  refine ⟨⟨fun s hs => ?_, fun e he => ?_⟩, slottedModule_fits _, fun e he => ?_⟩
  · unfold Instance.area at hs
    rw [slottedModule_slots.2.2] at hs
    rw [hspan]
    apply Span.Disjoint.symm
    rcases List.mem_cons.mp hs with rfl | hs
    · exact disjoint_of_le (by decide) (by decide)
    · rw [List.mem_singleton.mp hs]
      exact disjoint_of_le (by decide) (by decide)
  all_goals
    rw [hentries] at he
    cases he

theorem slotted_resolve_allowed {w : World} {served : List (UInt32 × UInt32)} {step : ThunkStep}
    (h : (w.request step).map (fun q => (q.slot, q.func, q.inst.mod, q.name)) =
      some (some 0x20002060, 0x08000301, slottedModule, [103])) :
    ∀ q, w.request step = some q → match q.slot with
      | none => ∀ r, (q.func, r) ∈ served → r = q.inst.mod.ramBase
      | some _ => ∀ sym, q.inst.mod.lookup q.inst.told q.name = some sym → sym.val = q.func := by
  intro q hq
  rw [hq, Option.map_some, Option.some.injEq, Prod.mk.injEq, Prod.mk.injEq, Prod.mk.injEq] at h
  obtain ⟨hslot, hfunc, hmod, hname⟩ := h
  rw [hslot]
  intro sym hsym
  rw [hmod, hname] at hsym
  obtain rfl := Option.some.inj hsym
  exact hfunc.symm

theorem slotless_load_allowed {w : World} {served : List (UInt32 × UInt32)}
    (hentries : w.mgr.entries.map DepEntry.pMod = [8]) : w.Allows served
      (.depLoad 12 (some [99]) (some slotlessModule) (fun _ => 0) w.thunks.mem) := by
  obtain ⟨hslots, hgateway, harea⟩ := slotlessModule_slots
  refine ⟨.same, fun m hm => ?_⟩
  obtain rfl := Option.some.inj hm
  refine ⟨⟨fun s hs => ?_, fun e he hp => ?_⟩, ⟨?_, ?_, ?_, ?_⟩, fun e _ _ i _ s _ s' hs' => ?_⟩
  · unfold Instance.area at hs
    rw [harea] at hs
    cases hs
  · have h8 := List.mem_map_of_mem (f := DepEntry.pMod) he
    rw [hentries, hp] at h8
    exact absurd h8 (by decide)
  · rw [hslots]
    exact fun x hx => absurd hx List.not_mem_nil
  · rw [hslots]
    exact fun x hx => absurd hx List.not_mem_nil
  · rw [hgateway]
    intro g hg
    cases hg
  · rw [hslots]
    exact fun _ x hx => absurd hx List.not_mem_nil
  · rw [harea] at hs'
    cases hs'

/-- The pool has served another function so far. -/
theorem slotless_resolve_allowed {w : World} {served : List (UInt32 × UInt32)} {step : ThunkStep}
    (h : (w.request step).map (fun q => (q.slot, q.func)) = some (none, 0x08000501))
    (hs : served = [(0x08000101, 0x20001000)]) :
    ∀ q, w.request step = some q → match q.slot with
      | none => ∀ r, (q.func, r) ∈ served → r = q.inst.mod.ramBase
      | some _ => ∀ sym, q.inst.mod.lookup q.inst.told q.name = some sym → sym.val = q.func := by
  intro q hq
  rw [hq, Option.map_some, Option.some.injEq, Prod.mk.injEq] at h
  obtain ⟨hslot, hfunc⟩ := h
  rw [hslot, hfunc, hs]
  intro r hr
  have hne : (0x08000501 : UInt32) = 0x08000101 := congrArg Prod.fst (List.mem_singleton.mp hr)
  exact absurd hne (by decide)

/-- A stub of the pool and one in a slot, after a third module has come and gone. -/
theorem stubs_right_slots :
    Held.Right ⟨4, 0x20000101, 0x08000101, 0x20001000⟩
      (World.run (xipOnce ++ (slotSteps ++ (poolSteps ++ unloadStep))) xipStart).1 ∧
    Held.Right ⟨8, 0x20002061, 0x08000301, 0x20002000⟩
      (World.run (xipOnce ++ (slotSteps ++ (poolSteps ++ unloadStep))) xipStart).1 := by
  have hslot : World.Allowed slotSteps afterOnce :=
    ⟨slotted_load_allowed (by decide +kernel) (by decide +kernel),
      slotted_resolve_allowed (by decide +kernel), trivial⟩
  have hpool : World.Allowed poolSteps afterSlot :=
    ⟨slotless_load_allowed (by decide +kernel),
      slotless_resolve_allowed (by decide +kernel) (by decide +kernel), trivial⟩
  have hunload : World.Allowed unloadStep afterPool := ⟨.same, trivial⟩
  have hall := stubs_right (by decide) (by decide) (by decide) _
    (xipOnce_allowed.append (hslot.append (hpool.append hunload)))
  exact ⟨hall _ (by decide +kernel), hall _ (by decide +kernel)⟩

/-! ## Two instances of one image -/

theorem toCall_mono {m : Mem} {n : Nat} {c : Cpu} {x : UInt32 × Cpu} (h : c.toCall m n = some x)
    (k : Nat) : c.toCall m (n + k) = some x := by
  induction n generalizing c with
  | zero => cases h
  | succ n ih =>
    rw [Nat.succ_add]
    unfold Cpu.toCall at h ⊢
    split at h
    · exact ih h
    · exact h
    · cases h

/-- An entry calls with one RAM base. -/
theorem CallsWith.unique {m : Mem} {e : Addr} {f f' r r' : UInt32} (h : CallsWith m e f r)
    (h' : CallsWith m e f' r') : r = r' := by
  obtain ⟨n, c, hc, hr, -⟩ := h ⟨e &&& ~~~1, 0, 0, 0, []⟩ rfl
  obtain ⟨n', c', hc', hr', -⟩ := h' ⟨e &&& ~~~1, 0, 0, 0, []⟩ rfl
  have hm := toCall_mono hc n'
  rw [Nat.add_comm, toCall_mono hc' n] at hm
  obtain ⟨-, rfl⟩ := Prod.mk.inj (Option.some.inj hm)
  exact hr.symm.trans hr'

def xipTwice : List ThunkStep :=
  [.load 4 (some (xipInstance 0x20001000)) fun _ => 0,
    .load 8 (some (xipInstance 0x20002000)) fun _ => 0,
    .makeCall (fun _ => 0) 4 [102], .makeCall (fun _ => 0) 8 [102]]

/-- The second instance is handed the stub of the first. -/
theorem stubs_xipTwice : ¬ ∀ x ∈ (World.run xipTwice xipStart).2.held,
    x.Right (World.run xipTwice xipStart).1 := by
  intro h
  have h8 : ((World.run xipTwice xipStart).1.modules 8).map (fun i => i.mod.ramBase) =
      some 0x20002000 := by decide +kernel
  have h4 : ((World.run xipTwice xipStart).1.modules 4).map (fun i => i.mod.ramBase) =
      some 0x20001000 := by decide +kernel
  obtain ⟨i, hi, hcall⟩ := h ⟨8, 0x20000101, 0x08000101, 0x20002000⟩ (by decide +kernel)
  obtain ⟨j, hj, hcall'⟩ := h ⟨4, 0x20000101, 0x08000101, 0x20001000⟩ (by decide +kernel)
  dsimp only at hi hj hcall hcall'
  rw [hi] at h8
  rw [hj] at h4
  have hri : i.mod.ramBase = 0x20002000 := Option.some.inj h8
  have hrj : j.mod.ramBase = 0x20001000 := Option.some.inj h4
  have he := hcall.unique hcall'
  rw [hri, hrj] at he
  exact absurd he (by decide)

end Udynlink.Deps
