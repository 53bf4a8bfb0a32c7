import Udynlink.Header
import Udynlink.Deps.LoadingStack

/-!
# Loads of a dependency graph

The host resolves a dependency through the manager, which calls it back to load a
module that is neither loaded nor in progress. The recursion is cut off by a number
of nested loads; `none` is a load that has not come to its end by then.
-/

namespace Udynlink.Deps

/-- The host's images: for each name the dependencies in the order in which they are
resolved, where it puts the module, and whether the image passes the checks. -/
structure DepHost where
  images : List (ModName × List ModName)
  handle : ModName → Handle
  accepts : ModName → Bool

namespace DepHost

def requires (host : DepHost) (name : ModName) : Option (List ModName) := host.images.lookup name

end DepHost

/-- A load that starts, with the loads in progress. -/
structure Start where
  inFlight : List ModName
  name : ModName
deriving DecidableEq, Repr

/-- An answer, the state behind it, and the loads started on the way. -/
structure Answer where
  addr : UInt32
  state : DepState
  starts : List Start

/-- `udynlink_dep_resolve_dependency`, with the host's function that loads a module. -/
def resolveDependency (externalDepLoad : ModName → DepState → Option Answer) (depName : ModName)
    (s : DepState) : Option Answer :=
  if s.mgr.isLoading depName then some ⟨symDeferred, s, []⟩
  else
    match s.mgr.depFind s.nameOf depName with
    | some pMod => some ⟨pMod, s, []⟩
    | none => externalDepLoad depName s

/-- The dependencies of an image in order; the first one that is not resolved ends it. -/
def resolveAll (externalDepLoad : ModName → DepState → Option Answer) :
    List ModName → DepState → Option Answer
  | [], s => some ⟨1, s, []⟩
  | d :: ds, s =>
    (resolveDependency externalDepLoad d s).bind fun r =>
      if r.addr = 0 then some r
      else (resolveAll externalDepLoad ds r.state).map fun r' =>
        { r' with starts := r.starts ++ r'.starts }

/-- `udynlink_dep_load` of the image with the name; the answer is the handle, or 0. -/
def depLoad (host : DepHost) : Nat → List ModName → ModName → DepState → Option Answer
  | 0, _, _, _ => none
  | n + 1, flight, name, s =>
    match host.requires name with
    | none => some ⟨0, s, []⟩
    | some deps =>
      if host.handle name = 0 ∨ s.refuses (some name) then some ⟨0, s, []⟩
      else
        let s1 := s.startLoad (host.handle name) (some name)
        if host.accepts name then
          (resolveAll (depLoad host n (flight ++ [name])) deps s1).map fun r =>
            if r.addr = 0 then
              ⟨0, r.state.abortLoad (host.handle name) (some name), ⟨flight, name⟩ :: r.starts⟩
            else
              ⟨host.handle name,
                (r.state.finishLoad (host.handle name) (some name)).popName (some name),
                ⟨flight, name⟩ :: r.starts⟩
        else some ⟨0, s1.abortLoad (host.handle name) (some name), [⟨flight, name⟩]⟩

/-! ## The calls of a load -/

/-- The load does not return at once: there is an image, and it is not refused. -/
def Starts (host : DepHost) (name : ModName) (s : DepState) : Prop :=
  (host.requires name).isSome ∧ ¬ (host.handle name = 0 ∨ s.refuses (some name))

/-- The dependencies are resolved, one after the other. -/
inductive Resolved (externalDepLoad : ModName → DepState → Option Answer) :
    List ModName → DepState → DepState → Prop
  | nil {s : DepState} : Resolved externalDepLoad [] s s
  | cons {d : ModName} {ds : List ModName} {s s' : DepState} {r : Answer} :
    resolveDependency externalDepLoad d s = some r → r.addr ≠ 0 →
      Resolved externalDepLoad ds r.state s' → Resolved externalDepLoad (d :: ds) s s'

/-- A load of `v` is called while the loads `P` are in progress, on the way of a load of
`root`, whether that comes to an end or not. -/
inductive Reached (host : DepHost) (root : ModName) (s0 : DepState) :
    List ModName → ModName → DepState → Prop
  | start : Reached host root s0 [] root s0
  | nested {P : List ModName} {v d : ModName} {s s' : DepState} {ds ds' : List ModName} {n : Nat} :
    Reached host root s0 P v s → Starts host v s → host.accepts v = true →
      host.requires v = some (ds ++ d :: ds') →
      Resolved (depLoad host n (P ++ [v])) ds (s.startLoad (host.handle v) (some v)) s' →
      s'.mgr.isLoading d = false → s'.mgr.depFind s'.nameOf d = none →
      Reached host root s0 (P ++ [v]) d s'

/-- No load starts while `maxDepth` others are in progress. -/
def ShallowLoad (host : DepHost) (root : ModName) (s0 : DepState) : Prop :=
  ∀ P v s, Reached host root s0 P v s → Starts host v s → P.length < maxDepth

/-- The names on the way from one module to those it requires, as far as there are images. -/
inductive Walk (host : DepHost) (root : ModName) : List ModName → Prop
  | start : Walk host root [root]
  | step {P : List ModName} {v d : ModName} {deps : List ModName} : Walk host root (P ++ [v]) →
      host.requires v = some deps → d ∈ deps → (host.requires d).isSome →
      Walk host root (P ++ [v] ++ [d])

/-- No way from the module comes back to a module on it. -/
def Acyclic (host : DepHost) (root : ModName) : Prop := ∀ P, Walk host root P → P.Nodup

/-- The load comes to an end, and no module is started while its load is in progress. -/
def LoadEnds (host : DepHost) (root : ModName) (s : DepState) : Prop :=
  ∃ n r, depLoad host n [] root s = some r ∧ ∀ st ∈ r.starts, st.name ∉ st.inFlight

section

variable {host : DepHost} {root : ModName}

theorem requires_isSome_mem {name : ModName} (h : (host.requires name).isSome) :
    name ∈ host.images.map Prod.fst := by
  obtain ⟨deps, hd⟩ := Option.isSome_iff_exists.mp h
  obtain ⟨l1, l2, hl, -⟩ := List.lookup_eq_some_iff.mp hd
  rw [hl]
  simp

theorem Walk.subset {P : List ModName} (hw : Walk host root P) (hroot : (host.requires root).isSome) :
    P ⊆ host.images.map Prod.fst := by
  induction hw with
  | start => exact List.cons_subset.mpr ⟨requires_isSome_mem hroot, List.nil_subset _⟩
  | step _ _ _ hd ih =>
    apply List.append_subset.mpr
    exact ⟨ih, List.cons_subset.mpr ⟨requires_isSome_mem hd, List.nil_subset _⟩⟩

/-- A chain through different modules is no longer than the list of images. -/
theorem Walk.length_le {P : List ModName} (hw : Walk host root P)
    (hroot : (host.requires root).isSome) (hn : P.Nodup) : P.length ≤ host.images.length := by
  have h := (List.subperm_of_subset hn (hw.subset hroot)).length_le
  rwa [List.length_map] at h

variable {s0 s : DepState} {P : List ModName} {v : ModName}

/-- The loads in progress, and the one that starts, are on a way from the first. -/
theorem Reached.walk (h : Reached host root s0 P v s) (hv : (host.requires v).isSome) :
    Walk host root (P ++ [v]) := by
  induction h with
  | start => exact .start
  | nested _ hstarts _ hreq _ _ _ ih =>
    exact (ih hstarts.1).step hreq (List.mem_append_right _ List.mem_cons_self) hv

theorem Reached.root_isSome (h : Reached host root s0 P v s) (hv : Starts host v s) :
    (host.requires root).isSome := by
  induction h with
  | start => exact hv.1
  | nested _ hstarts _ _ _ _ _ ih => exact ih hstarts

/-- A load that does not start leaves everything as it is. -/
theorem depLoad_unstarted {n : Nat} (h : ¬ Starts host v s) :
    depLoad host (n + 1) P v s = some ⟨0, s, []⟩ := by
  unfold depLoad
  cases hreq : host.requires v with
  | none => rfl
  | some deps =>
    refine if_pos (not_not.mp fun hno => h ⟨?_, hno⟩)
    rw [hreq]
    rfl

/-! ## What a load keeps -/

/-- What the loads in progress leave in the state: `Inv P s` with the loads `P` in
progress, never more than `N`. A load that starts has a new name. -/
structure Carries (host : DepHost) (root : ModName) (s0 : DepState) (N : Nat)
    (Inv : List ModName → DepState → Prop) : Prop where
  push : ∀ {P v s}, Reached host root s0 P v s → Starts host v s → Inv P s →
    Inv (P ++ [v]) (s.startLoad (host.handle v) (some v))
  abort : ∀ {P v s} h, Inv (P ++ [v]) s → Inv P (s.abortLoad h (some v))
  finish : ∀ {P v s} h, Inv (P ++ [v]) s → Inv P ((s.finishLoad h (some v)).popName (some v))
  fresh : ∀ {P v s}, Reached host root s0 P v s → Starts host v s → Inv P s → v ∉ P
  bound : ∀ {P v s}, Reached host root s0 P v s → Starts host v s → Inv P s → P.length < N

/-- A load with the loads `P` in progress comes to an end and leaves them as they were. -/
def Settles (Inv : List ModName → DepState → Prop) (P : List ModName) (r? : Option Answer) : Prop :=
  ∃ r, r? = some r ∧ Inv P r.state ∧ ∀ st ∈ r.starts, st.name ∉ st.inFlight

variable {N : Nat} {Inv : List ModName → DepState → Prop}

/-- If every load called within it settles, the dependencies of a module do. -/
theorem resolveAll_settles {ds : List ModName} {load : ModName → DepState → Option Answer}
    (hs : Inv P s)
    (hload : ∀ ds1 d ds2 s', ds = ds1 ++ d :: ds2 → Resolved load ds1 s s' → Inv P s' →
      s'.mgr.isLoading d = false → s'.mgr.depFind s'.nameOf d = none →
      Settles Inv P (load d s')) : Settles Inv P (resolveAll load ds s) := by
  induction ds generalizing s with
  | nil => exact ⟨_, rfl, hs, fun st hst => absurd hst List.not_mem_nil⟩
  | cons d ds ih =>
    have hd : Settles Inv P (resolveDependency load d s) := by
      unfold resolveDependency
      cases hl : s.mgr.isLoading d with
      | true => exact ⟨_, rfl, hs, fun st hst => absurd hst List.not_mem_nil⟩
      | false =>
        rw [if_neg Bool.false_ne_true]
        cases hf : s.mgr.depFind s.nameOf d with
        | some pMod => exact ⟨_, rfl, hs, fun st hst => absurd hst List.not_mem_nil⟩
        | none => exact hload [] d ds s rfl .nil hs hl hf
    obtain ⟨r, hr, hinv, hstarts⟩ := hd
    unfold resolveAll
    rw [hr, Option.bind_some]
    by_cases h0 : r.addr = 0
    · rw [if_pos h0]
      exact ⟨r, rfl, hinv, hstarts⟩
    · rw [if_neg h0]
      obtain ⟨r', hr', hinv', hstarts'⟩ :=
        @ih r.state hinv fun ds1 d' ds2 s' heq hres =>
          hload (d :: ds1) d' ds2 s' (by rw [heq]; rfl) (.cons hr h0 hres)
      rw [hr']
      exact ⟨_, rfl, hinv', List.forall_mem_append.mpr ⟨hstarts, hstarts'⟩⟩

/-- The induction is on the room that is left below `P`. -/
theorem depLoad_settles (hc : Carries host root s0 N Inv) {n : Nat}
    (hw : Reached host root s0 P v s) (hs : Inv P s) (hroom : N ≤ P.length + n) :
    Settles Inv P (depLoad host (n + 1) P v s) := by
  induction n generalizing P v s with
  | zero =>
    by_cases hv : Starts host v s
    · have hb := hc.bound hw hv hs
      omega
    · rw [depLoad_unstarted hv]
      exact ⟨_, rfl, hs, fun st hst => absurd hst List.not_mem_nil⟩
  | succ n ih =>
    by_cases hv : Starts host v s
    · have hstart : ∀ starts : List Start, (∀ st ∈ starts, st.name ∉ st.inFlight) →
          ∀ st ∈ (⟨P, v⟩ : Start) :: starts, st.name ∉ st.inFlight :=
        fun starts h => List.forall_mem_cons.mpr ⟨hc.fresh hw hv hs, h⟩
      have hpush := hc.push hw hv hs
      obtain ⟨deps, hreq⟩ := Option.isSome_iff_exists.mp hv.1
      unfold depLoad
      rw [hreq]
      dsimp only
      rw [if_neg hv.2]
      by_cases hacc : host.accepts v = true
      · rw [if_pos hacc]
        have hdeps := @resolveAll_settles _ (P ++ [v]) Inv deps
          (depLoad host (n + 1) (P ++ [v])) hpush fun ds1 d ds2 s' heq hres hinv hl hf =>
            ih (.nested hw hv hacc (heq ▸ hreq) hres hl hf) hinv (by
              rw [List.length_append, List.length_singleton]
              omega)
        obtain ⟨r, hr, hinv, hstarts⟩ := hdeps
        rw [hr, Option.map_some]
        by_cases h0 : r.addr = 0
        · rw [if_pos h0]
          exact ⟨_, rfl, hc.abort _ hinv, hstart _ hstarts⟩
        · rw [if_neg h0]
          exact ⟨_, rfl, hc.finish _ hinv, hstart _ hstarts⟩
      · rw [if_neg hacc]
        exact ⟨_, rfl, hc.abort _ hpush, hstart _ fun st hst => absurd hst List.not_mem_nil⟩
    · rw [depLoad_unstarted hv]
      exact ⟨_, rfl, hs, fun st hst => absurd hst List.not_mem_nil⟩

/-! ## The two ways to come to an end -/

/-- While the stack has room for every load that starts, it holds those in progress. -/
theorem carries_stack (hb : ShallowLoad host root s0) :
    Carries host root s0 maxDepth fun P s => s.stack = P where
  push hw hv hs := by
    rw [stack_startLoad, hs]
    exact if_pos (hb _ _ _ hw hv)
  abort h hs := by
    rw [stack_abortLoad, stack_popName, hs]
    exact List.dropLast_concat
  finish h hs := by
    rw [stack_popName, stack_finishLoad, hs]
    exact List.dropLast_concat
  fresh _ hv hs := by
    intro hmem
    rw [← hs] at hmem
    exact hv.2 (Or.inr (List.contains_iff_mem.mpr hmem))
  bound hw hv _ := hb _ _ _ hw hv

/-- Without a cycle a chain never comes back, whatever is on the stack. -/
theorem carries_acyclic (ha : Acyclic host root) :
    Carries host root s0 host.images.length fun _ _ => True where
  push _ _ _ := trivial
  abort _ _ := trivial
  finish _ _ := trivial
  fresh hw hv _ hmem :=
    (List.nodup_append.mp (ha _ (hw.walk hv.1))).2.2 _ hmem _ (List.mem_singleton_self _) rfl
  bound hw hv _ := by
    have hwalk := hw.walk hv.1
    have hlen := hwalk.length_le (hw.root_isSome hv) (ha _ hwalk)
    rw [List.length_append, List.length_singleton] at hlen
    exact hlen

/-- A load on which the stack never overflows comes to an end, and so does a load without a
cycle. -/
theorem depLoad_ends (host : DepHost) (root : ModName) (s : DepState) (hs : s.stack = [])
    (hb : ShallowLoad host root s ∨ Acyclic host root) : LoadEnds host root s := by
  cases hb with
  | inl h =>
    obtain ⟨r, hr, -, hstarts⟩ := depLoad_settles (carries_stack h) (.start) hs
      (Nat.le_add_left maxDepth _)
    exact ⟨_, r, hr, hstarts⟩
  | inr h =>
    obtain ⟨r, hr, -, hstarts⟩ := @depLoad_settles host root s s [] root _ _ (carries_acyclic h) _
      .start trivial (Nat.le_add_left _ _)
    exact ⟨_, r, hr, hstarts⟩

/-! ## A load that has come to an end -/

theorem resolveDependency_mono {load load' : ModName → DepState → Option Answer}
    (hload : ∀ d s r, load d s = some r → load' d s = some r) {d : ModName} {r : Answer}
    (h : resolveDependency load d s = some r) : resolveDependency load' d s = some r := by
  unfold resolveDependency at h ⊢
  split
  next hl =>
    rw [if_pos hl] at h
    exact h
  next hl =>
    rw [if_neg hl] at h
    split
    next pMod hf =>
      rw [hf] at h
      exact h
    next hf =>
      rw [hf] at h
      exact hload _ _ _ h

theorem resolveAll_mono {load load' : ModName → DepState → Option Answer}
    (hload : ∀ d s r, load d s = some r → load' d s = some r) {ds : List ModName} {r : Answer}
    (h : resolveAll load ds s = some r) : resolveAll load' ds s = some r := by
  induction ds generalizing s r with
  | nil => exact h
  | cons d ds ih =>
    rw [resolveAll] at h ⊢
    obtain ⟨r1, hr1, h⟩ := Option.bind_eq_some_iff.mp h
    rw [resolveDependency_mono hload hr1, Option.bind_some]
    split
    next h0 =>
      rw [if_pos h0] at h
      exact h
    next h0 =>
      rw [if_neg h0] at h
      obtain ⟨r2, hr2, rfl⟩ := Option.map_eq_some_iff.mp h
      rw [ih hr2]
      rfl

/-- The cut does not matter to a load that comes to an end. -/
theorem depLoad_mono {n m : Nat} (hle : n ≤ m) {r : Answer} (h : depLoad host n P v s = some r) :
    depLoad host m P v s = some r := by
  induction n generalizing m P v s r with
  | zero => cases h
  | succ n ih =>
    obtain ⟨m, rfl⟩ : ∃ k, m = k + 1 := ⟨m - 1, by omega⟩
    by_cases hv : Starts host v s
    · obtain ⟨deps, hreq⟩ := Option.isSome_iff_exists.mp hv.1
      unfold depLoad at h ⊢
      rw [hreq] at h ⊢
      dsimp only at h ⊢
      rw [if_neg hv.2] at h ⊢
      split
      next hacc =>
        rw [if_pos hacc] at h
        obtain ⟨r1, hr1, rfl⟩ := Option.map_eq_some_iff.mp h
        rw [resolveAll_mono (fun d s r hr => ih (by omega) hr) hr1]
        rfl
      next hacc =>
        rw [if_neg hacc] at h
        exact h
    · rw [depLoad_unstarted hv] at h ⊢
      exact h

theorem Resolved.mono {load load' : ModName → DepState → Option Answer}
    (hload : ∀ d s r, load d s = some r → load' d s = some r) {ds : List ModName} {s' : DepState}
    (h : Resolved load ds s s') : Resolved load' ds s s' := by
  induction h with
  | nil => exact .nil
  | cons hr h0 _ ih => exact .cons (resolveDependency_mono hload hr) h0 ih

/-- Behind the dependencies that have been resolved the next one is loaded. -/
theorem Resolved.next {load : ModName → DepState → Option Answer} {ds ds' : List ModName}
    {d : ModName} {s' : DepState} {r : Answer} (h : Resolved load ds s s')
    (hl : s'.mgr.isLoading d = false) (hf : s'.mgr.depFind s'.nameOf d = none)
    (hr : resolveAll load (ds ++ d :: ds') s = some r) :
    ∃ r', load d s' = some r' ∧ r'.starts ⊆ r.starts := by
  induction h generalizing r with
  | nil =>
    rw [List.nil_append, resolveAll, resolveDependency, hl, if_neg Bool.false_ne_true, hf] at hr
    obtain ⟨r1, hr1, hr⟩ := Option.bind_eq_some_iff.mp hr
    refine ⟨r1, hr1, ?_⟩
    split at hr
    · rw [Option.some.inj hr]
      exact List.Subset.refl _
    · obtain ⟨r2, -, rfl⟩ := Option.map_eq_some_iff.mp hr
      exact List.subset_append_left _ _
  | cons hd h0 _ ih =>
    rw [List.cons_append, resolveAll, hd, Option.bind_some, if_neg h0] at hr
    obtain ⟨r2, hr2, rfl⟩ := Option.map_eq_some_iff.mp hr
    obtain ⟨r', hr', hsub⟩ := ih hl hf hr2
    exact ⟨r', hr', List.Subset.trans hsub (List.subset_append_right _ _)⟩

/-- What a load has started includes what the loads called within it have. -/
theorem Reached.starts_subset {n : Nat} {r0 : Answer} (h0 : depLoad host n [] root s0 = some r0)
    (h : Reached host root s0 P v s) :
    ∃ m r, depLoad host m P v s = some r ∧ r.starts ⊆ r0.starts := by
  induction h with
  | start => exact ⟨n, r0, h0, List.Subset.refl _⟩
  | @nested P v d s s' ds ds' k _ hv hacc hreq hres hl hf ih =>
    obtain ⟨m, r, hr, hsub⟩ := ih
    have hr' := depLoad_mono (Nat.le_add_right m (k + 1)) hr
    unfold depLoad at hr'
    rw [hreq] at hr'
    dsimp only at hr'
    rw [if_neg hv.2, if_pos hacc] at hr'
    obtain ⟨r1, hr1, rfl⟩ := Option.map_eq_some_iff.mp hr'
    obtain ⟨r2, hr2, hsub2⟩ :=
      (hres.mono fun d s r hr => depLoad_mono (Nat.le_add_left k m) hr).next hl hf hr1
    refine ⟨_, r2, hr2, fun st hst => hsub ?_⟩
    split
    · exact List.mem_cons_of_mem _ (hsub2 hst)
    · exact List.mem_cons_of_mem _ (hsub2 hst)

theorem Starts.mem_starts (hv : Starts host v s) {n : Nat} {r : Answer}
    (h : depLoad host n P v s = some r) : (⟨P, v⟩ : Start) ∈ r.starts := by
  cases n with
  | zero => cases h
  | succ n =>
    obtain ⟨deps, hreq⟩ := Option.isSome_iff_exists.mp hv.1
    unfold depLoad at h
    rw [hreq] at h
    dsimp only at h
    rw [if_neg hv.2] at h
    split at h
    · obtain ⟨r1, -, rfl⟩ := Option.map_eq_some_iff.mp h
      split
      · exact List.mem_cons_self
      · exact List.mem_cons_self
    · rw [← Option.some.inj h]
      exact List.mem_cons_self

/-- Of a load that has come to an end, the starts on record say whether it was shallow. -/
theorem shallowLoad_of_starts {n : Nat} {r : Answer} (h : depLoad host n [] root s0 = some r)
    (hlen : ∀ st ∈ r.starts, st.inFlight.length < maxDepth) : ShallowLoad host root s0 := by
  intro P v s hw hv
  obtain ⟨m, r', hr', hsub⟩ := hw.starts_subset h
  exact hlen _ (hsub (hv.mem_starts hr'))

end

/-! ## Cycles above and below the full stack -/

/-- Modules 0 to 7 require the next one, 8 requires itself. -/
def deepHost : DepHost where
  images := (List.range 8).map (fun i => ([UInt8.ofNat i], [[UInt8.ofNat (i + 1)]])) ++ [([8], [[8]])]
  handle name := 0x20000000 + (name.headD 0).toUInt32 * 256
  accepts _ := true

/-- Module 0 requires 5 before it requires 1. The way from 0 to 8 is still nine modules long, but
no more than five of them are ever in progress. -/
def detourHost : DepHost := { deepHost with images := ([0], [[5], [1]]) :: deepHost.images.tail }

theorem depLoad_ends_detour : LoadEnds detourHost [0] (.initial 16) := by
  have hsome : (depLoad detourHost 6 [] [0] (.initial 16)).any
      (fun r => r.starts.all fun st => st.inFlight.length < maxDepth) = true := by decide +kernel
  obtain ⟨r, hr, hall⟩ := (Option.any_eq_true _ _).mp hsome
  refine depLoad_ends _ [0] (.initial 16) rfl (Or.inl (shallowLoad_of_starts hr fun st hst => ?_))
  exact of_decide_eq_true (List.all_eq_true.mp hall st hst)

def deepNames (i : Nat) : List ModName := (List.range i).map fun j => [UInt8.ofNat j]

theorem deepNames_succ (i : Nat) : deepNames (i + 1) = deepNames i ++ [[UInt8.ofNat i]] := by
  rw [deepNames, List.range_succ, List.map_append]
  rfl

theorem not_mem_deepNames {i : Nat} (hi : i ≤ 8) : [UInt8.ofNat i] ∉ deepNames i := by
  interval_cases i <;> decide

theorem isLoading_false {s : DepState} {names : List ModName} {name : ModName}
    (hs : s.stack = names) (hn : name ∉ names) : s.mgr.isLoading name = false := by
  rw [← hs] at hn
  exact Bool.eq_false_of_not_eq_true fun h => hn (List.contains_iff_mem.mp h)

theorem entries_startLoad (s : DepState) (h : Handle) (v : ModName) :
    (s.startLoad h (some v)).mgr.entries = s.mgr.entries := by
  show (s.mgr.pushLoading v).entries = _
  unfold DepMgr.pushLoading
  split <;> rfl

/-- A load that requires one module more, which does not come to an end. -/
theorem depLoad_none_of_next {host : DepHost} {n : Nat} {flight : List ModName} {v d : ModName}
    {s : DepState} (hreq : host.requires v = some [d]) (h0 : host.handle v ≠ 0)
    (hacc : host.accepts v = true) (hv : s.mgr.isLoading v = false) (hent : s.mgr.entries = [])
    (hd : (s.startLoad (host.handle v) (some v)).mgr.isLoading d = false)
    (hnext : depLoad host n (flight ++ [v]) d (s.startLoad (host.handle v) (some v)) = none) :
    depLoad host (n + 1) flight v s = none := by
  have hno : ¬ (host.handle v = 0 ∨ s.refuses (some v) = true) := by
    rw [not_or]
    exact ⟨h0, by rw [show s.refuses (some v) = s.mgr.isLoading v from rfl, hv]; decide⟩
  have hent1 := (entries_startLoad s (host.handle v) v).trans hent
  have hfind : ∀ nameOf, (s.startLoad (host.handle v) (some v)).mgr.depFind nameOf d = none := by
    intro nameOf
    rw [DepMgr.depFind, hent1]
    rfl
  unfold depLoad
  rw [hreq]
  dsimp only
  rw [if_neg hno, if_pos hacc, resolveAll, resolveDependency, hd, if_neg Bool.false_ne_true, hfind]
  dsimp only
  rw [hnext]
  rfl

/-- Below the full stack, the last module is started over and over again. -/
theorem depLoad_deep_last (n : Nat) (flight : List ModName) (s : DepState)
    (hs : s.stack = deepNames 8) (hent : s.mgr.entries = []) :
    depLoad deepHost n flight [8] s = none := by
  induction n generalizing flight s with
  | zero => rfl
  | succ n ih =>
    have hs1 : (s.startLoad (deepHost.handle [8]) (some [8])).stack = deepNames 8 := by
      rw [stack_startLoad, hs]
      rfl
    have hent1 := (entries_startLoad s (deepHost.handle [8]) [8]).trans hent
    have h8 := @not_mem_deepNames 8 (by decide)
    exact depLoad_none_of_next (by decide) (by decide) rfl (isLoading_false hs h8) hent
      (isLoading_false hs1 h8) (ih _ _ hs1 hent1)

theorem depLoad_deep {i : Nat} (hi : i ≤ 8) (n : Nat) (flight : List ModName) (s : DepState)
    (hs : s.stack = deepNames i) (hent : s.mgr.entries = []) :
    depLoad deepHost n flight [UInt8.ofNat i] s = none := by
  induction hi using Nat.decreasingInduction generalizing n flight s with
  | self => exact depLoad_deep_last n flight s hs hent
  | of_succ i hi ih =>
    cases n with
    | zero => rfl
    | succ n =>
      have hlen : s.stack.length < maxDepth := by
        rw [hs, deepNames, List.length_map, List.length_range]
        exact hi
      have hs1 : (s.startLoad (deepHost.handle [UInt8.ofNat i]) (some [UInt8.ofNat i])).stack =
          deepNames (i + 1) := by
        rw [stack_startLoad, deepNames_succ, ← hs]
        exact if_pos hlen
      have hent1 := (entries_startLoad s (deepHost.handle [UInt8.ofNat i]) [UInt8.ofNat i]).trans hent
      have hreq : deepHost.requires [UInt8.ofNat i] = some [[UInt8.ofNat (i + 1)]] := by
        interval_cases i <;> decide
      have h0 : deepHost.handle [UInt8.ofNat i] ≠ 0 := by
        interval_cases i <;> decide
      exact depLoad_none_of_next hreq h0 rfl (isLoading_false hs (not_mem_deepNames (by omega))) hent
        (isLoading_false hs1 (not_mem_deepNames hi)) (ih n _ _ hs1 hent1)

theorem depLoad_deep_endless : ¬ LoadEnds deepHost [0] (.initial 16) := by
  rintro ⟨n, r, hr, -⟩
  have hnone : depLoad deepHost n [] [0] (.initial 16) = none :=
    @depLoad_deep 0 (by decide) n [] (.initial 16) rfl rfl
  rw [hnone] at hr
  cases hr

end Udynlink.Deps
