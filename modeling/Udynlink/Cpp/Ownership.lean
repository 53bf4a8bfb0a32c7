import Udynlink.BlockDeeds
import Udynlink.Cpp.ModuleObjects
import Udynlink.LinkResolved
import Udynlink.Machine.Tokens

/-!
# Every loaded module has one owner

The loads are tokens: an object whose handle a load has filled holds the token of the load,
unloading releases it, and the special members exchange what two objects hold. The handle goes
with the token, so the call that unloads a module is given what its load has left, and gives the
blocks back. A handle with a null header pointer would be refused by `udynlink_unload_module`; a
load that returns has read the header behind the pointer it leaves, so it leaves no such handle.
-/

namespace Udynlink.Cpp

open Machine

/-! ## The loader's part -/

/-- Bases that the array behind the LOT has on record. -/
def FromArray (w : State) (evs : List HostEvent) : Prop :=
  ∀ ev ∈ evs, ∃ tag tab k, 3 ≤ k ∧ ev = .free tag ((getSectionBaseIdx w.handle tab k).run w.mem)

/-- A module is given back: the tagged sections on record, and last the block, unless the caller
has provided it. -/
def GivesBack (w : State) (evs : List HostEvent) : Prop :=
  ∃ sections mainAlign, FromArray w sections ∧
    evs = sections ++ (mainKeys w.handle mainAlign).map fun key => .free key.1 key.2

section

variable {w w' : State}

theorem freeSectionsLoop_given {tab : SectView} {n k : Nat} (hk : 3 ≤ k)
    (h : (freeSectionsLoop tab n k).run w = (.ok (), w')) :
    ∃ evs, Filled w w' [] evs ∧ FromArray w evs := by
  induction n generalizing k w with
  | zero =>
    rw [freeSectionsLoop, Prog.run_pure, Prod.mk.injEq] at h
    rw [← h.2]
    exact ⟨[], Filled.refl w, fun ev hev => absurd hev List.not_mem_nil⟩
  | succ n ih =>
    rw [freeSectionsLoop, Prog.run_lift_bind, sectEntryAt_run] at h
    split at h
    · obtain ⟨evs, hf, hfrom⟩ := ih (by omega) h
      exact ⟨evs, Filled.of_log hf, hfrom⟩
    · rw [Prog.run_getHandle_bind, Prog.run_lift_bind, World.log_handle, World.log_mem,
        World.log_log, ← readEvents_append] at h
      split at h
      · rw [Prog.run_pure, Prod.mk.injEq] at h
        rw [← h.2]
        exact ⟨[], Filled.log w _, fun ev hev => absurd hev List.not_mem_nil⟩
      · rw [Prog.run_bind_ok] at h
        obtain ⟨⟨⟩, w1, hfree, hrest⟩ := h
        have hf := Filled.of_log (externalFree_filled hfree)
        have hmem : w1.mem = w.mem := hf.did.mem
        obtain ⟨evs, hf', hfrom⟩ := ih (by omega) hrest
        refine ⟨_, hf.trans hf', List.forall_mem_append.mpr ⟨fun ev hev => ?_, fun ev hev => ?_⟩⟩
        · exact ⟨_, tab, k, hk, List.mem_singleton.mp hev⟩
        · obtain ⟨tag, tab', j, hj, he⟩ := hfrom ev hev
          rw [hf.handle, hmem] at he
          exact ⟨tag, tab', j, hj, he⟩

theorem freeNonmainSections_given {tab : SectView}
    (h : (freeNonmainSections tab).run w = (.ok (), w')) :
    ∃ evs, Filled w w' [] evs ∧ FromArray w evs := by
  rw [freeNonmainSections, Prog.run_getHandle_bind] at h
  split at h
  · rw [Prog.run_pure, Prod.mk.injEq] at h
    rw [← h.2]
    exact ⟨[], Filled.refl w, fun ev hev => absurd hev List.not_mem_nil⟩
  · exact freeSectionsLoop_given (Nat.le_refl 3) h

theorem freeNonmainSections_total (tab : SectView) : (freeNonmainSections tab).Total :=
  Prog.total_bind Prog.total_getHandle fun _ =>
    Prog.total_ite (Prog.total_pure ()) (freeSectionsLoop_total tab _ _)

theorem freeMainBlock_total (mainAlign : UInt32) : (freeMainBlock mainAlign).Total :=
  Prog.total_bind Prog.total_getHandle fun _ =>
    Prog.total_ite (externalFree_total _ _ _ _) (Prog.total_pure ())

/-- Behind the release of the sections the block goes back, and the handle is free. -/
theorem releaseHandle_given {w1 : State} {mainAlign : UInt32} {evs : List HostEvent}
    (hf : Filled w w1 [] evs) (hfrom : FromArray w evs) :
    ∃ w', (releaseHandle mainAlign).run w1 = (.ok (), w') ∧ ∃ evs, w.Extends w' evs ∧
      GivesBack w (hostEvents evs) := by
  obtain ⟨⟨⟩, w2, hmain⟩ := freeMainBlock_total mainAlign w1
  have hm := freeMainBlock_ok hmain
  rw [hf.handle] at hm
  obtain ⟨e, he, hh, -⟩ := (hf.trans hm).did.events
  refine ⟨{ w2 with handle := Module.free }, ?_, e, he, evs, mainAlign, hfrom, hh⟩
  rw [releaseHandle, Prog.run_bind_of_ok hmain]
  rfl

/-- Only an empty handle is refused; any other module is given back. -/
theorem unloadModule_given (h : w.handle.pHeader ≠ 0) :
    ∃ w', udynlinkUnloadModule.run w = (.ok (), w') ∧ ∃ evs, w.Extends w' evs ∧
      GivesBack w (hostEvents evs) := by
  rw [udynlinkUnloadModule, Prog.run_getHandle_bind, if_neg h, Prog.run_lift_bind]
  dsimp only
  split
  · rw [Prog.run_lift_bind, World.log_log, ← readEvents_append]
    obtain ⟨⟨⟩, w1, hsect⟩ := freeNonmainSections_total ((getSectab w.handle.pHeader false).run
      w.mem).2 (w.log (readEvents _))
    obtain ⟨evs, hf, hfrom⟩ := freeNonmainSections_given hsect
    rw [Prog.run_bind_of_ok hsect]
    exact releaseHandle_given (Filled.of_log hf) hfrom
  · exact releaseHandle_given (Filled.log w _) fun ev hev => absurd hev List.not_mem_nil

/-- A load that fails leaves an empty handle. -/
theorem load_error_free {host : Host} {base loadAddr : Addr} {loadSize : UInt32}
    {mode : LoadMode} {e : Error}
    (h : (udynlinkLoadModule host base loadAddr loadSize mode).run w = (.error e, w')) :
    w'.handle = Module.free := by
  have hexit : ∀ {tab : SectView} {mainAlign : UInt32} {e' : Error} {w1 : State},
      (loadExit tab mainAlign e').run w1 = (.error e, w') → w'.handle = Module.free := by
    intro tab mainAlign e' w1 hx
    obtain ⟨⟨⟩, w2, hsect⟩ := freeNonmainSections_total tab w1
    obtain ⟨⟨⟩, w3, hmain⟩ := freeMainBlock_total mainAlign w2
    rw [loadExit, Prog.run_bind_of_ok hsect, Prog.run_bind_of_ok hmain,
      Prog.run_modifyHandle_bind, Prog.run_fail, Prod.mk.injEq] at hx
    rw [← hx.2]
  rw [udynlinkLoadModule, Prog.run_lift_bind, udynlinkLoadModuleImage] at h
  simp only [Prog.run_lift_bind, Prog.run_modifyHandle_bind, readHeader_run] at h
  split at h
  · exact hexit h
  · rw [Prog.run_lift_bind] at h
    split at h
    · exact hexit h
    · rw [Prog.run_lift_bind, Prog.run_attempt_bind] at h
      split at h
      · exact hexit h
      · simp at h

end

/-- The header behind the pointer that a load leaves has been read. -/
theorem load_reads_header {host : Host} {base loadAddr : Addr} {loadSize : UInt32}
    {mode : LoadMode} {w w' : State}
    (h : (udynlinkLoadModule host base loadAddr loadSize mode).run w = (.ok (), w')) :
    Event.read ⟨w'.handle.pHeader, 1⟩ ∈ w'.trace := by
  rw [udynlinkLoadModule, Prog.run_lift_bind] at h
  obtain ⟨-, -, -, w4, -, rfl⟩ := load_ok_iff.mp h
  refine List.mem_append_right _ (List.mem_map_of_mem (f := fun a => Event.read ⟨a, 1⟩) ?_)
  rw [computeNumNamedSyms, Reader.reads_bind]
  refine List.mem_append_left _ (List.mem_map.mpr ⟨0, List.mem_range.mpr (by decide), ?_⟩)
  exact off_zero _

theorem NullFree.header {trace : List (Event HostEvent)} {p : Addr} (h : NullFree trace)
    (hr : Event.read ⟨p, 1⟩ ∈ trace) : p ≠ 0 := by
  rintro rfl
  exact absurd (h _ hr) (by decide)

theorem NullFree.earlier {trace trace' : List (Event HostEvent)} (h : NullFree trace')
    (hp : trace <+: trace') : NullFree trace := fun ev hev => h ev (hp.subset hev)

/-! ## One object -/

/-- Loaded objects, and no others, hold the handle that a load has left, and it has a header. -/
structure ModuleObject.Consistent (loads : List Module) (obj : ModuleObject) : Prop where
  origin : obj.loaded = obj.origin.isSome
  handle : ∀ n, obj.origin = some n → loads[n]? = some obj.mod
  header : obj.loaded = true → obj.mod.pHeader ≠ 0
  empty : obj.loaded = false → obj.mod = Module.free

theorem ModuleObject.consistent_empty (loads : List Module) : ModuleObject.empty.Consistent loads where
  origin := rfl
  handle _ h := nomatch h
  header h := nomatch h
  empty _ := rfl

theorem ModuleObject.Consistent.origin_none {loads : List Module} {obj : ModuleObject}
    (h : obj.Consistent loads) (hl : obj.loaded = false) : obj.origin = none := by
  have ho := h.origin
  rw [hl] at ho
  exact Option.isNone_iff_eq_none.mp (by simpa using ho.symm)

theorem ModuleObject.Consistent.eq_empty {loads : List Module} {obj : ModuleObject}
    (h : obj.Consistent loads) (hl : obj.loaded = false) : obj = .empty := by
  have hmod := h.empty hl
  have hnone := h.origin_none hl
  obtain ⟨mod, loaded, origin⟩ := obj
  rw [ModuleObject.empty, ← hl, ← hmod, ← hnone]

theorem getElem?_extended {α : Type} {l l' : List α} (hp : l <+: l') {n : Nat} {x : α}
    (h : l[n]? = some x) : l'[n]? = some x := by
  obtain ⟨r, rfl⟩ := hp
  obtain ⟨hn, -⟩ := List.getElem?_eq_some_iff.mp h
  rw [List.getElem?_append_left hn]
  exact h

theorem ModuleObject.Consistent.mono {loads loads' : List Module} {obj : ModuleObject}
    (h : obj.Consistent loads) (hp : loads <+: loads') : obj.Consistent loads' :=
  ⟨h.origin, fun n hn => getElem?_extended hp (h.handle n hn), h.header, h.empty⟩

/-- The call was given the handle of its load, gave the module back, and is part of the run. -/
structure Unloading.Right (s : Shared) (u : Unloading) : Prop where
  handle : s.loads[u.load]? = some u.before.handle
  gives : GivesBack u.before (hostEvents u.events)
  happened : u.before.trace ++ u.events <+: s.trace

/-- Handles and events are only added. -/
structure Continues (s s' : Shared) : Prop where
  loads : s.loads <+: s'.loads
  trace : s.trace <+: s'.trace

theorem Continues.refl (s : Shared) : Continues s s := ⟨List.prefix_refl _, List.prefix_refl _⟩

theorem Continues.trans {s s' s'' : Shared} (h : Continues s s') (h' : Continues s' s'') :
    Continues s s'' := ⟨h.loads.trans h'.loads, h.trace.trans h'.trace⟩

theorem Unloading.Right.mono {s s' : Shared} {u : Unloading} (h : u.Right s) (hc : Continues s s') :
    u.Right s' :=
  ⟨getElem?_extended hc.loads h.handle, h.gives, h.happened.trans hc.trace⟩

/-- What `unload` leaves. -/
structure Unloaded (obj : ModuleObject) (s : Shared)
    (r : Except Error Unit × ModuleObject × Shared) : Prop where
  ok : r.1 = .ok ()
  object : r.2.1 = .empty
  loads : r.2.2.loads = s.loads
  continues : Continues s r.2.2
  calls : ∃ us, r.2.2.unloads = us ++ s.unloads ∧ us.map Unloading.load = obj.origin.toList ∧
    ∀ u ∈ us, u.Right r.2.2

theorem Unloaded.unloaded {obj : ModuleObject} {s : Shared}
    {r : Except Error Unit × ModuleObject × Shared} (h : Unloaded obj s r) :
    r.2.2.unloaded = obj.origin.toList ++ s.unloaded := by
  obtain ⟨us, hus, hmap, -⟩ := h.calls
  rw [Shared.unloaded, hus, List.map_append, hmap]
  rfl

/-- What a load into an empty object leaves. -/
structure Refilled (s : Shared) (r : Except Error Unit × ModuleObject × Shared) : Prop where
  unloads : r.2.2.unloads = s.unloads
  continues : Continues s r.2.2
  outcome : (r.2.1.loaded = true ∧ r.2.1.origin = some s.loads.length ∧
      r.2.2.loads = s.loads ++ [r.2.1.mod]) ∨
    (r.2.1 = .empty ∧ r.2.2.loads = s.loads)
  header : NullFree r.2.2.trace → r.2.1.loaded = true → r.2.1.mod.pHeader ≠ 0

section

variable {env : Env} {obj : ModuleObject} {s : Shared} {base loadAddr : Addr}
  {loadSize : UInt32} {mode : LoadMode}

theorem unload_spec (h : obj.Consistent s.loads) : Unloaded obj s (obj.unload s) := by
  unfold ModuleObject.unload
  cases hl : obj.loaded with
  | false =>
    have hnone := h.origin_none hl
    refine ⟨rfl, h.eq_empty hl, rfl, Continues.refl s, [], rfl, ?_, fun u hu => absurd hu List.not_mem_nil⟩
    rw [hnone]
    rfl
  | true =>
    obtain ⟨w', hrun, evs, he, hgives⟩ := @unloadModule_given ⟨s.mem, obj.mod, s.trace⟩ (h.header hl)
    have htrace : w'.trace = s.trace ++ evs := he.1
    rw [hrun]
    refine ⟨rfl, rfl, rfl, ⟨List.prefix_refl _, ⟨evs, htrace.symm⟩⟩, _, rfl, ?_, fun u hu => ?_⟩
    · rw [List.map_map]
      exact List.map_id _
    · obtain ⟨n, hn, rfl⟩ := List.mem_map.mp hu
      refine ⟨h.handle n (Option.mem_toList.mp hn), ?_, ?_⟩
      · dsimp only
        rw [htrace, List.drop_left]
        exact hgives
      · dsimp only
        rw [htrace, List.drop_left]
        exact List.prefix_refl _

theorem unload_trace : s.trace <+: (obj.unload s).2.2.trace := by
  unfold ModuleObject.unload
  split
  next => exact List.prefix_refl _
  next =>
    rcases hrun : udynlinkUnloadModule.run ⟨s.mem, obj.mod, s.trace⟩ with ⟨_ | u, w⟩
    · obtain ⟨evs, he⟩ := Prog.extends_of_run hrun
      exact ⟨evs, he.1.symm⟩
    · obtain ⟨evs, he⟩ := Prog.extends_of_run hrun
      exact ⟨evs, he.1.symm⟩

theorem fill_spec : Refilled s (ModuleObject.fill env base loadAddr loadSize mode s) := by
  unfold ModuleObject.fill
  rcases hrun : (udynlinkLoadModule env.host base loadAddr loadSize mode).run
    ⟨s.mem, Module.free, s.trace⟩ with ⟨_ | u, w⟩
  · obtain ⟨evs, he⟩ := Prog.extends_of_run hrun
    refine ⟨rfl, ⟨List.prefix_refl _, ⟨evs, he.1.symm⟩⟩, Or.inr ⟨?_, rfl⟩, fun _ hl => nomatch hl⟩
    dsimp only
    rw [load_error_free hrun]
    rfl
  · obtain ⟨evs, he⟩ := Prog.extends_of_run hrun
    have hinit := cppInit_prefix env w
    refine ⟨rfl, ⟨List.prefix_append _ _, List.IsPrefix.trans ⟨evs, he.1.symm⟩ hinit⟩,
      Or.inl ⟨rfl, rfl, rfl⟩, fun hnull _ => ?_⟩
    have hread := load_reads_header hrun
    rw [← cppInit_handle env w] at hread
    exact hnull.header (hinit.subset hread)

/-- An object that is loaded is unloaded first, and that never fails. -/
theorem load_eq (h : obj.Consistent s.loads) :
    obj.load env base loadAddr loadSize mode s =
      ModuleObject.fill env base loadAddr loadSize mode (obj.unload s).2.2 := by
  unfold ModuleObject.load
  have hu := @unload_spec obj s h
  split
  next =>
    rcases hrun : obj.unload s with ⟨_ | u, obj', s'⟩
    · have hok := hu.ok
      rw [hrun] at hok
      cases hok
    · rfl
  next hl => rw [ModuleObject.unload, if_pos (by simpa using hl)]

theorem load_trace : s.trace <+: (obj.load env base loadAddr loadSize mode s).2.2.trace := by
  unfold ModuleObject.load
  split
  next =>
    have hu := @unload_trace obj s
    rcases hrun : obj.unload s with ⟨_ | u, obj', s'⟩
    · rw [hrun] at hu
      exact hu
    · rw [hrun] at hu
      exact hu.trans fill_spec.continues.trace
  next => exact fill_spec.continues.trace

/-- A filled object holds the handle of its load. -/
theorem Refilled.consistent {r : Except Error Unit × ModuleObject × Shared} (h : Refilled s r)
    (hnull : NullFree r.2.2.trace) : r.2.1.Consistent r.2.2.loads := by
  rcases h.outcome with ⟨hl, ho, hloads⟩ | ⟨hobj, -⟩
  · refine ⟨by rw [hl, ho]; rfl, fun n hn => ?_, h.header hnull, fun hf => ?_⟩
    · rw [ho] at hn
      rw [← Option.some.inj hn, hloads]
      exact List.getElem?_concat_length
    · rw [hl] at hf
      cases hf
  · rw [hobj]
    exact ModuleObject.consistent_empty _

end

/-! ## The objects as holders -/

/-- An object holds the load that has filled its handle. -/
def tokens (s : Sys) : Tokens Nat :=
  ⟨fun o => (s.objs o).bind ModuleObject.origin, s.shared.loads.length, s.shared.unloaded⟩

structure Consistent (s : Sys) : Prop where
  objs : ∀ o obj, s.objs o = some obj → obj.Consistent s.shared.loads
  calls : ∀ u ∈ s.shared.unloads, u.Right s.shared

/-- What one operation may do. -/
structure Refined (s s' : Sys) : Prop where
  consistent : Consistent s'
  steps : Relation.ReflTransGen Tokens.Step (tokens s) (tokens s')
  unloaded : s'.shared.unloaded = s.shared.unloaded ∨
    ∃ o n, Refers s o n ∧ s'.shared.unloaded = n :: s.shared.unloaded

section

variable {env : Env} {s s' : Sys} {sh : Shared} {o other : Nat} {obj src : ModuleObject}
  {x : Option ModuleObject}

theorem tokens_put : tokens (({ s with shared := sh } : Sys).put o x) =
    ⟨Function.update (tokens s).held o (x.bind ModuleObject.origin), sh.loads.length,
      sh.unloaded⟩ := by
  refine congrArg (fun held => Tokens.mk held sh.loads.length sh.unloaded) (funext fun p => ?_)
  dsimp only [Sys.put]
  by_cases hp : p = o
  · subst hp
    rw [Function.update_self, Function.update_self]
  · rw [Function.update_of_ne hp, Function.update_of_ne hp]
    rfl

theorem held_of (h : s.objs o = x) : (tokens s).held o = x.bind ModuleObject.origin := by
  rw [← h]
  rfl

theorem Consistent.put (h : Consistent s) (hc : Continues s.shared sh)
    (hcalls : ∀ u ∈ sh.unloads, u ∈ s.shared.unloads ∨ u.Right sh)
    (hx : ∀ obj, x = some obj → obj.Consistent sh.loads) :
    Consistent (({ s with shared := sh } : Sys).put o x) := by
  refine ⟨fun p obj hp => ?_, fun u hu => ?_⟩
  · dsimp only [Sys.put] at hp
    by_cases heq : p = o
    · subst heq
      rw [Function.update_self] at hp
      exact hx obj hp
    · rw [Function.update_of_ne heq] at hp
      exact (h.objs p obj hp).mono hc.loads
  · rcases hcalls u hu with hold | hnew
    · exact (h.calls u hold).mono hc
    · exact hnew

/-- The objects alone have changed. -/
theorem Consistent.put_same (h : Consistent s) (hx : ∀ obj, x = some obj →
    obj.Consistent s.shared.loads) : Consistent (s.put o x) :=
  h.put (Continues.refl _) (fun _ hu => Or.inl hu) hx

theorem Unloaded.calls_or (hu : Unloaded obj sh (obj.unload sh)) :
    ∀ u ∈ (obj.unload sh).2.2.unloads, u ∈ sh.unloads ∨ u.Right (obj.unload sh).2.2 := by
  obtain ⟨us, hus, -, hright⟩ := hu.calls
  intro u h
  rw [hus, List.mem_append] at h
  exact h.symm.imp_right (hright u)

theorem steps_release (t : Tokens Nat) (o : Nat) : Relation.ReflTransGen Tokens.Step t
    ⟨Function.update t.held o none, t.next, (t.held o).toList ++ t.released⟩ := by
  cases h : t.held o with
  | none =>
    have hsame : Function.update t.held o none = t.held := by
      rw [← h]
      exact Function.update_eq_self o t.held
    rw [hsame]
    exact .refl
  | some n => exact .single (.release t o n h)

theorem step_exchange (t : Tokens Nat) (hne : o ≠ other) : Tokens.Step t
    ⟨Function.update (Function.update t.held o (t.held other)) other (t.held o), t.next,
      t.released⟩ := by
  have hswap : Function.update (Function.update t.held o (t.held other)) other (t.held o) =
      t.held ∘ Equiv.swap o other := by
    funext p
    rw [Function.comp_apply, Equiv.swap_apply_def]
    by_cases hp : p = other
    · rw [hp, Function.update_self, if_neg hne.symm, if_pos rfl]
    · rw [Function.update_of_ne hp]
      by_cases hpo : p = o
      · rw [hpo, Function.update_self, if_pos rfl]
      · rw [Function.update_of_ne hpo, if_neg hpo, if_neg hp]
  rw [hswap]
  exact .exchange t o other

theorem unload_shared : (if obj.loaded then (obj.unload sh).2.2 else sh) = (obj.unload sh).2.2 := by
  split
  next => rfl
  next hl => rw [ModuleObject.unload, if_pos (by simpa using hl)]

/-- Unloading takes the number of the object's own load. -/
theorem Unloaded.refers (hu : Unloaded obj s.shared (obj.unload s.shared))
    (hobj : s.objs o = some obj) :
    (obj.unload s.shared).2.2.unloaded = s.shared.unloaded ∨ ∃ o n, Refers s o n ∧
      (obj.unload s.shared).2.2.unloaded = n :: s.shared.unloaded := by
  rw [hu.unloaded]
  cases horigin : obj.origin with
  | none => exact Or.inl rfl
  | some n => exact Or.inr ⟨o, n, ⟨obj, hobj, horigin⟩, rfl⟩

/-- The tokens after the object at `o` has been unloaded, whatever is put in its place. -/
theorem Unloaded.tokens (hu : Unloaded obj s.shared (obj.unload s.shared))
    (hobj : s.objs o = some obj) (held : Nat → Option Nat) :
    (⟨held, (obj.unload s.shared).2.2.loads.length, (obj.unload s.shared).2.2.unloaded⟩ :
      Tokens Nat) = ⟨held, (tokens s).next, ((tokens s).held o).toList ++ (tokens s).released⟩ := by
  rw [hu.loads, hu.unloaded, held_of hobj]
  rfl

/-- An object is unloaded, and left empty or destroyed. -/
theorem unload_refined (hc : Consistent s) (hobj : s.objs o = some obj)
    (hx : x = none ∨ x = some .empty) :
    Refined s (({ s with shared := (obj.unload s.shared).2.2 } : Sys).put o x) := by
  have hu := @unload_spec obj s.shared (hc.objs o obj hobj)
  have hnone : x.bind ModuleObject.origin = none := by
    rcases hx with rfl | rfl <;> rfl
  refine ⟨hc.put hu.continues hu.calls_or fun obj' h => ?_, ?_, hu.refers hobj⟩
  · rcases hx with rfl | rfl
    · cases h
    · exact Option.some.inj h ▸ ModuleObject.consistent_empty _
  · rw [tokens_put, hnone, hu.tokens hobj]
    exact steps_release (tokens s) o

theorem load_refined {base loadAddr : Addr} {loadSize : UInt32} {mode : LoadMode}
    {r : Except Error Unit × ModuleObject × Shared} (hc : Consistent s)
    (hobj : s.objs o = some obj) (hr : r = obj.load env base loadAddr loadSize mode s.shared)
    (hnull : NullFree r.2.2.trace) :
    Refined s (({ s with shared := r.2.2 } : Sys).put o (some r.2.1)) := by
  have hu := @unload_spec obj s.shared (hc.objs o obj hobj)
  rw [load_eq (hc.objs o obj hobj)] at hr
  have hf := @fill_spec env (obj.unload s.shared).2.2 base loadAddr loadSize mode
  rw [← hr] at hf
  have hunloaded : r.2.2.unloaded = (obj.unload s.shared).2.2.unloaded := by
    rw [Shared.unloaded, hf.unloads, Shared.unloaded]
  refine ⟨hc.put (hu.continues.trans hf.continues) (fun u h => ?_) fun obj' h => ?_, ?_, ?_⟩
  · rw [hf.unloads] at h
    exact (hu.calls_or u h).imp_right fun hright => hright.mono hf.continues
  · exact Option.some.inj h ▸ hf.consistent hnull
  · -- the old module goes first, then the new one comes
    have hrel := steps_release (tokens s) o
    rw [← hu.tokens hobj] at hrel
    refine hrel.trans ?_
    rw [tokens_put, Option.bind_some, hunloaded]
    rcases hf.outcome with ⟨-, ho, hloads⟩ | ⟨he, hloads⟩
    · have hacq := Tokens.Step.acquire (⟨Function.update (tokens s).held o none,
        (obj.unload s.shared).2.2.loads.length, (obj.unload s.shared).2.2.unloaded⟩ : Tokens Nat) o
        (Function.update_self ..)
      dsimp only at hacq
      rw [Function.update_idem] at hacq
      rw [ho, hloads, List.length_append, List.length_singleton]
      exact .single hacq
    · rw [he, hloads]
      exact .refl
  · dsimp only [Sys.put]
    rw [hunloaded]
    exact hu.refers hobj

theorem moveAssign_refined (hc : Consistent s) (hne : o ≠ other) (hobj : s.objs o = some obj)
    (hsrc : s.objs other = some src) :
    Refined s ((({ s with shared := (obj.unload s.shared).2.2 } : Sys).put o (some src)).put other
      (some .empty)) := by
  have hu := @unload_spec obj s.shared (hc.objs o obj hobj)
  refine ⟨?_, ?_, hu.refers hobj⟩
  · refine (hc.put hu.continues hu.calls_or fun obj' h => ?_).put_same fun obj' h => ?_
    · exact Option.some.inj h ▸ (hc.objs other src hsrc).mono hu.continues.loads
    · exact Option.some.inj h ▸ ModuleObject.consistent_empty _
  · have hrel := steps_release (tokens s) o
    rw [← hu.tokens hobj] at hrel
    have hex := step_exchange (⟨Function.update (tokens s).held o none,
      (obj.unload s.shared).2.2.loads.length, (obj.unload s.shared).2.2.unloaded⟩ : Tokens Nat) hne
    dsimp only at hex
    rw [Function.update_of_ne hne.symm, Function.update_self, Function.update_idem,
      held_of hsrc] at hex
    refine hrel.tail ?_
    rw [tokens_put, tokens_put]
    exact hex

/-- Two objects exchange what they hold; one of them may be new. -/
theorem exchange_refined {y : Option ModuleObject} {empty : ModuleObject} (hc : Consistent s)
    (hne : o ≠ other) (hobj : s.objs o = y) (hsrc : s.objs other = some src)
    (hy : y.bind ModuleObject.origin = empty.origin) (he : empty.Consistent s.shared.loads) :
    Refined s ((s.put o (some src)).put other (some empty)) := by
  refine ⟨?_, ?_, Or.inl rfl⟩
  · refine (hc.put_same fun obj' h => ?_).put_same fun obj' h => ?_
    · exact Option.some.inj h ▸ hc.objs other src hsrc
    · exact Option.some.inj h ▸ he
  · have hex := step_exchange (tokens s) hne
    rw [held_of hobj, held_of hsrc, hy] at hex
    have hput : tokens ((s.put o (some src)).put other (some empty)) = ⟨Function.update
        (Function.update (tokens s).held o src.origin) other empty.origin, (tokens s).next,
        (tokens s).released⟩ := by
      rw [show (s.put o (some src)).put other (some empty) =
        ({ s.put o (some src) with shared := s.shared } : Sys).put other (some empty) from rfl,
        tokens_put, show s.put o (some src) =
          ({ s with shared := s.shared } : Sys).put o (some src) from rfl, tokens_put]
      rfl
    rw [hput]
    exact .single hex

/-! ## Runs -/

theorem step_trace {op : Op} (h : step env s op = some s') :
    s.shared.trace <+: s'.shared.trace := by
  cases op with
  | construct o =>
    dsimp only [step] at h
    split at h
    · obtain rfl := Option.some.inj h
      exact List.prefix_refl _
    · cases h
  | moveConstruct o other =>
    dsimp only [step] at h
    split at h
    · obtain rfl := Option.some.inj h
      exact List.prefix_refl _
    · cases h
  | moveAssign o other =>
    dsimp only [step] at h
    split at h
    · rw [unload_shared] at h
      split at h
      · obtain rfl := Option.some.inj h
        exact List.prefix_refl _
      · obtain rfl := Option.some.inj h
        exact unload_trace
    · cases h
  | load o base loadAddr loadSize mode =>
    dsimp only [step] at h
    split at h
    · obtain rfl := Option.some.inj h
      exact load_trace
    · cases h
  | unload o =>
    dsimp only [step] at h
    split at h
    · obtain rfl := Option.some.inj h
      exact unload_trace
    · cases h
  | swap o other =>
    dsimp only [step] at h
    split at h
    · split at h
      · obtain rfl := Option.some.inj h
        exact List.prefix_refl _
      · obtain rfl := Option.some.inj h
        exact List.prefix_refl _
    · cases h
  | destroy o =>
    dsimp only [step] at h
    split at h
    · rw [unload_shared] at h
      obtain rfl := Option.some.inj h
      exact unload_trace
    · cases h
  | runs mem =>
    obtain rfl := Option.some.inj h
    exact List.prefix_refl _

theorem Refined.refl (hc : Consistent s) : Refined s s := ⟨hc, .refl, Or.inl rfl⟩

/-- Every operation is a few steps of the tokens. -/
theorem step_refined {op : Op} (hc : Consistent s) (h : step env s op = some s')
    (hnull : NullFree s'.shared.trace) : Refined s s' := by
  cases op with
  | construct o =>
    dsimp only [step] at h
    split at h
    next hobj =>
      obtain rfl := Option.some.inj h
      refine ⟨hc.put_same fun obj h => ?_, ?_, Or.inl rfl⟩
      · exact Option.some.inj h ▸ ModuleObject.consistent_empty _
      · rw [show s.put o (some .empty) = ({ s with shared := s.shared } : Sys).put o (some .empty)
          from rfl, tokens_put, show (some ModuleObject.empty).bind ModuleObject.origin =
            (tokens s).held o from (held_of hobj).symm, Function.update_eq_self]
        exact .refl
    next => cases h
  | moveConstruct o other =>
    dsimp only [step] at h
    split at h
    next src hobj hsrc =>
      obtain rfl := Option.some.inj h
      refine exchange_refined hc ?_ hobj hsrc rfl (ModuleObject.consistent_empty _)
      rintro rfl
      rw [hobj] at hsrc
      cases hsrc
    next => cases h
  | moveAssign o other =>
    dsimp only [step] at h
    split at h
    next obj src hobj hsrc =>
      rw [unload_shared] at h
      split at h
      next =>
        obtain rfl := Option.some.inj h
        exact .refl hc
      next hne =>
        obtain rfl := Option.some.inj h
        exact moveAssign_refined hc hne hobj hsrc
    next => cases h
  | load o base loadAddr loadSize mode =>
    dsimp only [step] at h
    split at h
    next obj hobj =>
      obtain rfl := Option.some.inj h
      exact load_refined hc hobj rfl hnull
    next => cases h
  | unload o =>
    dsimp only [step] at h
    split at h
    next obj hobj =>
      obtain rfl := Option.some.inj h
      rw [(@unload_spec obj s.shared (hc.objs o obj hobj)).object]
      exact unload_refined hc hobj (Or.inr rfl)
    next => cases h
  | swap o other =>
    dsimp only [step] at h
    split at h
    next obj src hobj hsrc =>
      split at h
      next =>
        obtain rfl := Option.some.inj h
        exact .refl hc
      next hne =>
        obtain rfl := Option.some.inj h
        exact exchange_refined hc hne hobj hsrc rfl (hc.objs o obj hobj)
    next => cases h
  | destroy o =>
    dsimp only [step] at h
    split at h
    next obj hobj =>
      rw [unload_shared] at h
      obtain rfl := Option.some.inj h
      exact unload_refined hc hobj (Or.inl rfl)
    next => cases h
  | runs mem =>
    obtain rfl := Option.some.inj h
    exact ⟨⟨hc.objs, fun u hu => (hc.calls u hu).mono ⟨List.prefix_refl _, List.prefix_refl _⟩⟩,
      .refl, Or.inl rfl⟩

theorem run_trace {ops : List Op} (h : run env s ops = some s') :
    s.shared.trace <+: s'.shared.trace := by
  induction ops generalizing s with
  | nil =>
    obtain rfl := Option.some.inj h
    exact List.prefix_refl _
  | cons op ops ih =>
    obtain ⟨s1, hstep, hrest⟩ := Option.bind_eq_some_iff.mp h
    exact (step_trace hstep).trans (ih hrest)

theorem run_sound {ops : List Op} (hc : Consistent s) (hs : (tokens s).Sound)
    (h : run env s ops = some s') (hnull : NullFree s'.shared.trace) :
    Consistent s' ∧ (tokens s').Sound := by
  induction ops generalizing s with
  | nil =>
    obtain rfl := Option.some.inj h
    exact ⟨hc, hs⟩
  | cons op ops ih =>
    obtain ⟨s1, hstep, hrest⟩ := Option.bind_eq_some_iff.mp h
    have href := step_refined hc hstep (hnull.earlier (run_trace hrest))
    exact ih href.consistent (hs.steps href.steps) hrest

end

/-- A module that has been loaded is reported by one object, which holds the handle its load has
left, and no other refers to it; or it has been unloaded, once, by a call that was given this
handle and gave the module's blocks back, and then no object refers to it. Other objects hold an
empty handle. -/
structure OneOwner (s : Sys) : Prop where
  unloaded : ∀ u ∈ s.shared.unloads, u.Right s.shared ∧ s.shared.unloaded.count u.load = 1 ∧
    ∀ o, ¬ Refers s o u.load
  owned : ∀ n, n < s.shared.loads.length → n ∉ s.shared.unloaded →
    ∃ o, Reports s o n ∧ ∀ o', Refers s o' n → o' = o
  reported : ∀ o obj, s.objs o = some obj → obj.loaded = true →
    ∃ n, n < s.shared.loads.length ∧ n ∉ s.shared.unloaded ∧ Reports s o n
  empty : ∀ o obj, s.objs o = some obj → obj.loaded = false → obj = .empty
  ended : (∀ o, s.objs o = none) → ∀ n, n < s.shared.loads.length → s.shared.unloaded.count n = 1

section

variable {env : Env} {mem : Mem} {ops : List Op} {s : Sys}

theorem refers_iff {o n : Nat} : Refers s o n ↔ (tokens s).held o = some n :=
  Option.bind_eq_some_iff.symm

theorem Consistent.reports {o n : Nat} (hc : Consistent s) (h : Refers s o n) :
    Reports s o n := by
  obtain ⟨obj, hobj, horigin⟩ := h
  have hobjc := hc.objs o obj hobj
  refine ⟨obj, hobj, horigin, ?_, hobjc.handle n horigin⟩
  rw [hobjc.origin, horigin]
  rfl

theorem oneOwner_of_sound (hc : Consistent s) (hs : (tokens s).Sound) : OneOwner s := by
  have howned : ∀ n, n < s.shared.loads.length → n ∉ s.shared.unloaded →
      ∃ o, Reports s o n ∧ ∀ o', Refers s o' n → o' = o := by
    intro n hlt hnot
    obtain ⟨o, ho⟩ := hs.accounted n hlt hnot
    refine ⟨o, hc.reports (refers_iff.mpr ho), fun o' ho' => ?_⟩
    exact hs.single o' o n (refers_iff.mp ho') ho
  refine ⟨fun u hu => ?_, howned, fun o obj hobj hl => ?_, fun o obj hobj hl => ?_,
    fun hnone n hlt => ?_⟩
  · have hmem : u.load ∈ s.shared.unloaded := List.mem_map_of_mem hu
    exact ⟨hc.calls u hu, List.count_eq_one_of_mem hs.once hmem,
      fun o ho => (hs.live o u.load (refers_iff.mp ho)).2 hmem⟩
  · have horigin := (hc.objs o obj hobj).origin
    rw [hl] at horigin
    obtain ⟨n, hn⟩ := Option.isSome_iff_exists.mp horigin.symm
    have hrefers : Refers s o n := ⟨obj, hobj, hn⟩
    obtain ⟨hlt, hnot⟩ := hs.live o n (refers_iff.mp hrefers)
    exact ⟨n, hlt, hnot, hc.reports hrefers⟩
  · exact (hc.objs o obj hobj).eq_empty hl
  · by_cases hn : n ∈ s.shared.unloaded
    · exact List.count_eq_one_of_mem hs.once hn
    · obtain ⟨o, ⟨obj, hobj, -⟩, -⟩ := howned n hlt hn
      rw [hnone o] at hobj
      cases hobj

/-- In every run without an access to a null pointer a loaded module has one owner, and the
operation that unloads it unloads that owner. -/
theorem one_owner (hrun : run env (Sys.boot mem) ops = some s)
    (hnull : NullFree s.shared.trace) :
    OneOwner s ∧ ∀ op s', step env s op = some s' → NullFree s'.shared.trace →
      ∀ n ∈ s'.shared.unloaded, n ∉ s.shared.unloaded →
        ∃ o, Reports s o n ∧ ∀ o', Refers s o' n → o' = o := by
  have hboot : Consistent (Sys.boot mem) :=
    ⟨fun o obj h => (nomatch h), fun u hu => absurd hu List.not_mem_nil⟩
  obtain ⟨hc, hs⟩ := run_sound hboot Tokens.sound_empty hrun hnull
  have hlaw := oneOwner_of_sound hc hs
  refine ⟨hlaw, fun op s' hstep hnull' n hn hnot => ?_⟩
  rcases (step_refined hc hstep hnull').unloaded with hsame | ⟨o, k, hrefers, hnew⟩
  · rw [hsame] at hn
    exact absurd hn hnot
  · rw [hnew, List.mem_cons] at hn
    obtain rfl := hn.resolve_right hnot
    exact hlaw.owned n (hs.live o n (refers_iff.mp hrefers)).1 hnot

end

/-- A module is loaded and handed to a second object, the first loads another one, and takes the
old one back. -/
def handedOn : List Op :=
  [.construct 0, .load 0 0x1000 0 0 .xip, .moveConstruct 1 0, .load 0 0x1000 0 0 .xip,
    .moveAssign 0 1, .destroy 0, .destroy 1]

def handedOnEnv : Env := ⟨.bump 0x20000000 fun _ => 0x08000101, fun _ m => m⟩

def handedOnEnd : Sys := (run handedOnEnv (Sys.boot externRom) handedOn).getD (Sys.boot externRom)

theorem one_owner_handedOn : OneOwner handedOnEnd ∧ handedOnEnd.shared.unloaded = [0, 1] ∧
    handedOnEnd.shared.unloads.map (fun u => hostEvents u.events) =
      [[.free ⟨none, 4, 0⟩ 0x20000000], [.free ⟨none, 4, 0⟩ 0x20000004]] := by
  obtain ⟨hsome, hnull, hends, hfrees⟩ :
      (run handedOnEnv (Sys.boot externRom) handedOn).isSome = true ∧
        (∀ ev ∈ handedOnEnd.shared.trace, offNull ev = true) ∧
        handedOnEnd.shared.unloaded = [0, 1] ∧
        handedOnEnd.shared.unloads.map (fun u => hostEvents u.events) =
          [[.free ⟨none, 4, 0⟩ 0x20000000], [.free ⟨none, 4, 0⟩ 0x20000004]] := by
    decide +kernel
  have hrun : run handedOnEnv (Sys.boot externRom) handedOn = some handedOnEnd := by
    obtain ⟨s, hs⟩ := Option.isSome_iff_exists.mp hsome
    rw [handedOnEnd, hs, Option.getD_some]
  exact ⟨(one_owner hrun hnull).1, hends, hfrees⟩

end Udynlink.Cpp
