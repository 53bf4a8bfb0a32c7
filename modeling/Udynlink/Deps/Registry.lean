import Udynlink.Deps.Manager

/-!
# The registry

The registry holds the handles of the loaded modules, each once, as long as a load
gets a fresh handle, and at its end a free entry and a name of its own.
-/

namespace Udynlink.Deps

def DepMgr.handles (mgr : DepMgr) : List Handle := mgr.entries.map DepEntry.pMod

/-- The registry holds exactly the loaded handles, each once, and every one of them is
found under its name. -/
structure Exact (s : DepState) : Prop where
  once : s.mgr.handles.Nodup
  mem_iff : ∀ h, h ∈ s.mgr.handles ↔ (s.modules h).isSome
  found : ∀ h, (s.modules h).isSome →
    ∃ n, s.modules h = some (some n) ∧ s.mgr.depFind s.nameOf n = some h

/-! ## Removing an entry -/

/-- The last element in the place of another: up to the order, the other is gone. -/
theorem set_getLastD_perm {α : Type*} (l : List α) (d : α) {i : Nat} (hi : i < l.length) :
    ((l.set i (l.getLastD d)).dropLast).Perm (l.eraseIdx i) := by
  obtain ⟨init, a, rfl⟩ := List.eq_nil_or_concat l |>.resolve_left fun h => by simp [h] at hi
  rw [List.concat_eq_append] at hi ⊢
  rw [List.getLastD_concat]
  rw [List.length_append, List.length_singleton] at hi
  by_cases hlast : i < init.length
  · rw [List.set_append_left _ _ hlast, List.dropLast_concat,
      List.eraseIdx_append_of_lt_length hlast]
    exact (List.set_perm_cons_eraseIdx hlast a).trans (List.perm_append_singleton a _).symm
  · have he : i = init.length := by omega
    subst he
    simp [List.eraseIdx_append_of_length_le]

theorem handles_unregister (mgr : DepMgr) (pMod : Handle) :
    ((mgr.unregisterModule pMod).handles).Perm (mgr.handles.erase pMod) := by
  have herase : mgr.handles.erase pMod =
      (mgr.entries.eraseP fun e => e.pMod = pMod).map DepEntry.pMod := by
    rw [List.erase_eq_eraseP', DepMgr.handles, List.eraseP_map]
    rfl
  rw [herase, List.eraseP_eq_eraseIdx, DepMgr.unregisterModule]
  cases hi : mgr.entries.findIdx? fun e => decide (e.pMod = pMod) with
  | none => exact List.Perm.refl _
  | some i =>
    obtain ⟨hlt, -⟩ := List.findIdx?_eq_some_iff_getElem.mp hi
    exact (set_getLastD_perm mgr.entries ⟨0, 0⟩ hlt).map DepEntry.pMod

theorem handles_register {mgr : DepMgr} {pMod : Handle}
    (hroom : mgr.entries.length < mgr.capacity) :
    (mgr.registerModule pMod).handles = mgr.handles ++ [pMod] := by
  rw [DepMgr.registerModule, if_neg (Nat.not_le.mpr hroom)]
  exact List.map_append

/-! ## States -/

section

variable {s s' : DepState} {h pMod : Handle} {n : ModName} {name : Option ModName}

theorem nameOf_of (hm : s.modules h = some (some n)) : s.nameOf h = some n := by
  rw [DepState.nameOf, hm]
  rfl

theorem modules_of_nameOf (hm : s.nameOf h = some n) : s.modules h = some (some n) :=
  Option.join_eq_some_iff.mp hm

/-- What is found is registered, and loaded under that name. -/
theorem depFind_some (hf : s.mgr.depFind s.nameOf n = some h) :
    h ∈ s.mgr.handles ∧ h ≠ 0 ∧ s.modules h = some (some n) := by
  obtain ⟨e, he, rfl⟩ := Option.map_eq_some_iff.mp hf
  have hp : e.pMod ≠ 0 ∧ s.nameOf e.pMod = some n := by simpa using List.find?_some he
  exact ⟨List.mem_map_of_mem (List.mem_of_find?_eq_some he), hp.1, modules_of_nameOf hp.2⟩

/-- A registered module is found under a name no other one has. -/
theorem depFind_of_unshared (hmem : h ∈ s.mgr.handles) (h0 : h ≠ 0)
    (hm : s.modules h = some (some n)) (hother : ∀ h', s.modules h' = some (some n) → h' = h) :
    s.mgr.depFind s.nameOf n = some h := by
  obtain ⟨e, he, rfl⟩ := List.mem_map.mp hmem
  have hsome : (s.mgr.depFind s.nameOf n).isSome := by
    rw [DepMgr.depFind, Option.isSome_map, List.find?_isSome]
    exact ⟨e, he, decide_eq_true ⟨h0, nameOf_of hm⟩⟩
  obtain ⟨h', hf⟩ := Option.isSome_iff_exists.mp hsome
  rw [hf, hother h' (depFind_some hf).2.2]

/-- `found`, in terms of the modules alone. -/
theorem Exact.of_unshared (once : s.mgr.handles.Nodup)
    (mem_iff : ∀ h, h ∈ s.mgr.handles ↔ (s.modules h).isSome)
    (named : ∀ h, (s.modules h).isSome → h ≠ 0 ∧ ∃ n, s.modules h = some (some n) ∧
      ∀ h', s.modules h' = some (some n) → h' = h) : Exact s where
  once := once
  mem_iff := mem_iff
  found h hh := by
    obtain ⟨h0, n, hm, hother⟩ := named h hh
    exact ⟨n, hm, depFind_of_unshared ((mem_iff h).mpr hh) h0 hm hother⟩

theorem Exact.unshared (he : Exact s) (hh : (s.modules h).isSome) :
    h ≠ 0 ∧ ∃ n, s.modules h = some (some n) ∧
      ∀ h', s.modules h' = some (some n) → h' = h := by
  obtain ⟨n, hm, hf⟩ := he.found h hh
  refine ⟨(depFind_some hf).2.1, n, hm, fun h' hm' => ?_⟩
  obtain ⟨n', hn', hf'⟩ := he.found h' (by rw [hm']; rfl)
  have hnn : n = n' := by
    rw [hm'] at hn'
    injection hn' with hn'
    injection hn'
  rw [← hnn, hf] at hf'
  exact (Option.some.inj hf').symm

/-- Only the entries and the modules count. -/
theorem Exact.congr (he : Exact s) (hent : s'.mgr.entries = s.mgr.entries)
    (hmod : s'.modules = s.modules) : Exact s' := by
  have hhandles : s'.mgr.handles = s.mgr.handles := by rw [DepMgr.handles, hent, DepMgr.handles]
  apply Exact.of_unshared
  · rw [hhandles]
    exact he.once
  · rw [hhandles, hmod]
    exact he.mem_iff
  · rw [hmod]
    exact fun h hh => he.unshared hh

theorem entries_pushName : (s.pushName name).mgr.entries = s.mgr.entries := by
  cases name with
  | none => rfl
  | some n =>
    show (s.mgr.pushLoading n).entries = _
    unfold DepMgr.pushLoading
    split <;> rfl

theorem entries_popName : (s.popName name).mgr.entries = s.mgr.entries := by
  cases name <;> rfl

@[simp] theorem modules_pushName : (s.pushName name).modules = s.modules := by
  cases name <;> rfl

@[simp] theorem modules_popName : (s.popName name).modules = s.modules := by
  cases name <;> rfl

theorem Exact.popName (he : Exact s) : Exact (s.popName name) :=
  he.congr entries_popName modules_popName

/-- An unloaded handle stays unloaded. -/
theorem modules_setModule_none (hfree : s.modules pMod = none) :
    (s.setModule pMod none).modules = s.modules := by
  rw [DepState.setModule]
  exact Function.update_eq_self_iff.mpr hfree.symm

theorem Exact.startLoad (he : Exact s) (hfree : s.modules pMod = none) :
    Exact (s.startLoad pMod name) := by
  have hfree' : (s.pushName name).modules pMod = none := by rw [modules_pushName, hfree]
  exact he.congr entries_pushName ((modules_setModule_none hfree').trans modules_pushName)

theorem Exact.abortLoad (he : Exact s) (hfree : s.modules pMod = none) :
    Exact (s.abortLoad pMod name) :=
  he.congr entries_popName (modules_popName.trans (modules_setModule_none hfree))

/-! ## Loading and unloading -/

/-- At its end, a load has a free entry and a name that no loaded module has. -/
def Registers (s : DepState) (name : Option ModName) : Prop :=
  s.mgr.entries.length < s.mgr.capacity ∧
    ∃ n, name = some n ∧ ∀ h, s.modules h ≠ some (some n)

theorem Exact.finishLoad (he : Exact s) (h0 : pMod ≠ 0) (hfree : s.modules pMod = none)
    (hreg : Registers s name) : Exact (s.finishLoad pMod name) := by
  obtain ⟨hroom, n, rfl, hnew⟩ := hreg
  have hhandles : (s.finishLoad pMod (some n)).mgr.handles = s.mgr.handles ++ [pMod] :=
    handles_register hroom
  have hmod : (s.finishLoad pMod (some n)).modules =
      Function.update s.modules pMod (some (some n)) := rfl
  have hout : pMod ∉ s.mgr.handles := by
    rw [he.mem_iff, hfree]
    exact Bool.false_ne_true
  apply Exact.of_unshared
  · rw [hhandles]
    exact List.Nodup.concat hout he.once |> fun h => by rwa [List.concat_eq_append] at h
  · intro h
    rw [hhandles, hmod, List.mem_append, List.mem_singleton, he.mem_iff]
    by_cases hp : h = pMod
    · simp [hp]
    · rw [Function.update_of_ne hp]
      simp [hp]
  · intro h hh
    rw [hmod] at hh ⊢
    by_cases hp : h = pMod
    · subst hp
      refine ⟨h0, n, Function.update_self .., fun h' hm' => ?_⟩
      by_contra hne
      rw [Function.update_of_ne hne] at hm'
      exact hnew h' hm'
    · rw [Function.update_of_ne hp] at hh ⊢
      obtain ⟨hh0, n', hm, hother⟩ := he.unshared hh
      refine ⟨hh0, n', hm, fun h' hm' => ?_⟩
      by_cases hp' : h' = pMod
      · rw [hp', Function.update_self] at hm'
        injection hm' with hm'
        injection hm' with hm'
        exact absurd hm (hm' ▸ hnew h)
      · rw [Function.update_of_ne hp'] at hm'
        exact hother h' hm'

theorem Exact.depUnload (he : Exact s) : Exact (s.depUnload pMod) := by
  by_cases h0 : pMod = 0
  · rw [DepState.depUnload, if_pos h0]
    exact he
  · rw [DepState.depUnload, if_neg h0]
    have hperm := handles_unregister s.mgr pMod
    apply Exact.of_unshared
    · exact hperm.nodup_iff.mpr (he.once.erase pMod)
    · intro h
      show h ∈ (s.mgr.unregisterModule pMod).handles ↔
        (Function.update s.modules pMod none h).isSome
      rw [hperm.mem_iff, he.once.mem_erase_iff, he.mem_iff]
      by_cases hp : h = pMod
      · simp [hp]
      · rw [Function.update_of_ne hp]
        exact and_iff_right hp
    · intro h hh
      replace hh : (Function.update s.modules pMod none h).isSome := hh
      have hp : h ≠ pMod := by
        intro hp
        rw [hp, Function.update_self] at hh
        exact Bool.false_ne_true hh
      rw [Function.update_of_ne hp] at hh
      obtain ⟨hh0, n, hm, hother⟩ := he.unshared hh
      refine ⟨hh0, n, (Function.update_of_ne hp ..).trans hm, fun h' hm' => ?_⟩
      replace hm' : Function.update s.modules pMod none h' = some (some n) := hm'
      by_cases hp' : h' = pMod
      · rw [hp', Function.update_self] at hm'
        exact absurd hm' (by simp)
      · rw [Function.update_of_ne hp'] at hm'
        exact hother h' hm'

end

/-! ## Runs -/

def inFlight (flight : List Flight) : List Handle := flight.map Prod.fst

/-- Every load gets a handle that is neither loaded nor in flight, and at its end a
free entry and a name of its own; no handle in flight is unloaded. -/
def Regular : Calls → List Flight → DepState → Prop
  | .done, _, _ => True
  | .unload pMod rest, flight, s =>
    pMod ∉ inFlight flight ∧ Regular rest flight (s.depUnload pMod)
  | .load pMod name nested ok after rest, flight, s =>
    if pMod = 0 ∨ s.refuses name then Regular rest flight s
    else
      let inner := flight ++ [(pMod, name)]
      let s1 := (exec nested inner (s.startLoad pMod name)).1
      (pMod ∉ inFlight flight ∧ s.modules pMod = none) ∧
        Regular nested inner (s.startLoad pMod name) ∧
        if ok then
          let s2 := s1.finishLoad pMod name
          Registers s1 name ∧ Regular after inner s2 ∧
            Regular rest flight ((exec after inner s2).1.popName name)
        else Regular rest flight (s1.abortLoad pMod name)

/-- None of the handles is loaded. -/
def Idle (handles : List Handle) (s : DepState) : Prop :=
  ∀ h ∈ handles, s.modules h = none

section

variable {s s' : DepState} {pMod : Handle} {handles : List Handle}

theorem Idle.congr (hi : Idle handles s) (hmod : s'.modules = s.modules) : Idle handles s' := by
  intro h hh
  rw [hmod]
  exact hi h hh

theorem Idle.setModule (hi : Idle handles s) (m : Option (Option ModName))
    (hp : pMod ∉ handles) : Idle handles (s.setModule pMod m) := by
  intro h hh
  have hne : h ≠ pMod := fun he => hp (he ▸ hh)
  exact (Function.update_of_ne hne _ _).trans (hi h hh)

theorem Idle.depUnload (hi : Idle handles s) (hp : pMod ∉ handles) :
    Idle handles (s.depUnload pMod) := by
  unfold DepState.depUnload
  split
  · exact hi
  · exact Idle.setModule (hi.congr rfl : Idle handles (s.withMgr _)) none hp

/-- What regular calls leave behind, and what they pass through. -/
structure Keeps (handles : List Handle) (r : DepState × List Moment) : Prop where
  exact : Exact r.1
  idle : Idle handles r.1
  moments : ∀ m ∈ r.2, Exact m.state

theorem Keeps.cons {r : DepState × List Moment} {m : Moment} (hr : Keeps handles r)
    (hm : Exact m.state) : Keeps handles (r.1, m :: r.2) where
  exact := hr.exact
  idle := hr.idle
  moments := List.forall_mem_cons.mpr ⟨hm, hr.moments⟩

theorem Keeps.append {r : DepState × List Moment} {ms : List Moment} (hr : Keeps handles r)
    (hms : ∀ m ∈ ms, Exact m.state) : Keeps handles (r.1, ms ++ r.2) where
  exact := hr.exact
  idle := hr.idle
  moments := List.forall_mem_append.mpr ⟨hms, hr.moments⟩

end

/-- Regular calls keep the registry at every moment, and load no handle that is idle
and in flight. -/
theorem exec_regular {calls : Calls} {flight : List Flight} {s : DepState}
    {handles : List Handle} (he : Exact s) (hi : Idle handles s)
    (hsub : handles ⊆ inFlight flight) (hreg : Regular calls flight s) :
    Keeps handles (exec calls flight s) := by
  induction calls generalizing flight s handles with
  | done => exact ⟨he, hi, List.forall_mem_singleton.mpr he⟩
  | unload pMod rest ih =>
    obtain ⟨hp, hrest⟩ := hreg
    exact (ih he.depUnload (hi.depUnload fun h => hp (hsub h)) hsub hrest).cons he
  | load pMod name nested ok after rest ihn iha ihr =>
    unfold exec
    unfold Regular at hreg
    by_cases hno : pMod = 0 ∨ s.refuses name
    · rw [if_pos hno] at hreg ⊢
      exact (ihr he hi hsub hreg).cons he
    · rw [if_neg hno] at hreg ⊢
      obtain ⟨⟨hp, hfree⟩, hnested, hend⟩ := hreg
      have hout : pMod ∉ handles := fun h => hp (hsub h)
      have hinner : inFlight (flight ++ [(pMod, name)]) = inFlight flight ++ [pMod] :=
        List.map_append
      have hsub' : handles ⊆ inFlight (flight ++ [(pMod, name)]) := by
        rw [hinner]
        exact List.subset_append_of_subset_left _ hsub
      have hstart : (s.startLoad pMod name).modules = s.modules :=
        (modules_setModule_none (by rw [modules_pushName, hfree])).trans modules_pushName
      -- while the image is loaded, the handle is idle as well
      have hidle : Idle (pMod :: handles) (s.startLoad pMod name) :=
        List.forall_mem_cons.mpr ⟨by rw [hstart, hfree], hi.congr hstart⟩
      have hcons : pMod :: handles ⊆ inFlight (flight ++ [(pMod, name)]) :=
        List.cons_subset.mpr ⟨by simp [hinner], hsub'⟩
      have hn := ihn (he.startLoad hfree) hidle hcons hnested
      obtain ⟨hfree1, hi1⟩ := List.forall_mem_cons.mp hn.idle
      cases ok with
      | true =>
        dsimp only at hend ⊢
        rw [if_pos rfl] at hend ⊢
        obtain ⟨hregs, hafter, hrest⟩ := hend
        have hfin := hn.exact.finishLoad (fun h => hno (Or.inl h)) hfree1 hregs
        have hi2 : Idle handles (DepState.finishLoad _ pMod name) :=
          Idle.setModule hi1 (some name) hout
        have ha := iha hfin hi2 hsub' hafter
        have hr := ihr ha.exact.popName (ha.idle.congr modules_popName) hsub hrest
        exact ((hr.append ha.moments).append hn.moments).cons he
      | false =>
        dsimp only at hend ⊢
        rw [if_neg Bool.false_ne_true] at hend ⊢
        have hi2 := (Idle.setModule hi1 none hout).congr (@modules_popName _ name)
        have hr := ihr (hn.exact.abortLoad hfree1) hi2 hsub hend
        exact (hr.append hn.moments).cons he

theorem exact_initial (capacity : Nat) : Exact (.initial capacity) where
  once := List.nodup_nil
  mem_iff h := by simp [DepState.initial, DepMgr.init, DepMgr.handles]
  found h hh := absurd hh Bool.false_ne_true

/-- On a fresh manager, regular calls keep the registry exact. -/
theorem registry_exact (calls : Calls) (capacity : Nat)
    (hreg : Regular calls [] (.initial capacity)) :
    Exact (exec calls [] (.initial capacity)).1 ∧
      ∀ m ∈ (exec calls [] (.initial capacity)).2, Exact m.state := by
  have hk := exec_regular (exact_initial capacity) (fun _ hh => absurd hh List.not_mem_nil)
    (List.nil_subset (inFlight [])) hreg
  exact ⟨hk.exact, hk.moments⟩

/-- A load with a nested load that fails and one that succeeds, and an unload. -/
def twoModules : Calls :=
  .load 1 (some [97])
    (.load 2 (some [98]) .done false .done (.load 2 (some [98]) .done true .done .done)) true
    .done (.unload 1 .done)

theorem registry_exact_twoModules :
    Exact (exec twoModules [] (.initial 2)).1 ∧
      ∀ m ∈ (exec twoModules [] (.initial 2)).2, Exact m.state := by
  apply registry_exact
  simp [twoModules, Regular, Registers, exec, inFlight, DepState.initial, DepMgr.init,
    DepState.refuses, DepMgr.isLoading, DepState.startLoad, DepState.finishLoad,
    DepState.abortLoad, DepState.pushName, DepState.popName, DepState.withMgr,
    DepState.setModule, DepMgr.pushLoading, DepMgr.popLoading, DepMgr.registerModule, maxDepth]
  intro h hh
  rw [Function.update_apply] at hh
  split at hh <;> simp at hh

/-- A load that finds the registry full, one of a handle that is loaded, whether it
fails or not, and one of a name that is loaded. -/
theorem registry_inexact :
    ¬ Exact (exec (.load 1 (some [97]) .done true .done .done) [] (.initial 0)).1 ∧
    ¬ Exact (exec (.load 1 (some [97]) .done true .done
      (.load 1 (some [97]) .done true .done .done)) [] (.initial 2)).1 ∧
    ¬ Exact (exec (.load 1 (some [97]) .done true .done
      (.load 1 (some [97]) .done false .done .done)) [] (.initial 2)).1 ∧
    ¬ Exact (exec (.load 1 (some [97]) .done true .done
      (.load 2 (some [97]) .done true .done .done)) [] (.initial 2)).1 := by
  refine ⟨fun h => ?_, fun h => ?_, fun h => ?_, fun h => ?_⟩
  · exact absurd ((h.mem_iff 1).mpr (by decide)) (by decide)
  · exact absurd h.once (by decide)
  · exact absurd ((h.mem_iff 1).mp (by decide)) (by decide)
  · obtain ⟨-, n, hn, hother⟩ := @Exact.unshared _ 2 h (by decide)
    exact absurd (hother 1 (Eq.trans (by decide) hn)) (by decide)

end Udynlink.Deps
