import Udynlink.Deps.Manager

/-!
# The loading stack

The stack holds the names of the loads in progress, as long as no more than
`maxDepth` loads with a name are nested: the next one is not pushed, but popped.
-/

namespace Udynlink.Deps

/-- The names of the loads in progress. -/
def inProgress (flight : List Flight) : List ModName := flight.filterMap Prod.snd

/-- A name is on the stack exactly when a load of it is in progress. -/
def StackExact (m : Moment) : Prop :=
  ∀ n, m.state.mgr.isLoading n = true ↔ n ∈ inProgress m.inFlight

/-- No load with a name starts while `maxDepth` others are in progress. A load of a
module in progress does not start. -/
def Shallow : Calls → List Flight → Prop
  | .done, _ => True
  | .unload _ rest, flight => Shallow rest flight
  | .load pMod name nested ok after rest, flight =>
    (pMod = 0 ∨ (∃ n, name = some n ∧ n ∈ inProgress flight) ∨
      ((name ≠ none → (inProgress flight).length < maxDepth) ∧
        Shallow nested (flight ++ [(pMod, name)]) ∧
        (ok = true → Shallow after (flight ++ [(pMod, name)])))) ∧
      Shallow rest flight

/-! ## The stack of a state -/

def DepState.stack (s : DepState) : List ModName := s.mgr.loadingStack

section

variable {s : DepState} {pMod : Handle} {name : Option ModName} {flight : List Flight}

@[simp] theorem stack_depUnload : (s.depUnload pMod).stack = s.stack := by
  unfold DepState.depUnload
  split
  · rfl
  · show (s.mgr.unregisterModule pMod).loadingStack = s.mgr.loadingStack
    unfold DepMgr.unregisterModule
    split <;> rfl

@[simp] theorem stack_finishLoad : (s.finishLoad pMod name).stack = s.stack := by
  show (s.mgr.registerModule pMod).loadingStack = s.mgr.loadingStack
  unfold DepMgr.registerModule
  split <;> rfl

theorem stack_startLoad : (s.startLoad pMod name).stack =
    match name with
    | some n => if s.stack.length < maxDepth then s.stack ++ [n] else s.stack
    | none => s.stack := by
  cases name with
  | none => rfl
  | some n =>
    show (s.mgr.pushLoading n).loadingStack = _
    unfold DepMgr.pushLoading
    show (if s.stack.length < maxDepth then _ else _ : DepMgr).loadingStack = _
    split <;> rfl

theorem stack_popName : (s.popName name).stack =
    match name with
    | some _ => s.stack.dropLast
    | none => s.stack := by
  cases name <;> rfl

@[simp] theorem stack_abortLoad :
    (s.abortLoad pMod name).stack = (s.popName name).stack := by
  cases name <;> rfl

theorem inProgress_snoc (f : Flight) :
    inProgress (flight ++ [f]) = inProgress flight ++ f.2.toList := by
  rw [inProgress, inProgress, List.filterMap_append]
  cases f with
  | mk pMod name => cases name <;> rfl

theorem refuses_iff (hs : s.stack = inProgress flight) :
    s.refuses name = true ↔ ∃ n, name = some n ∧ n ∈ inProgress flight := by
  cases name with
  | none => simp [DepState.refuses]
  | some n =>
    rw [← hs]
    simp [DepState.refuses, DepMgr.isLoading, DepState.stack]

theorem stackExact_of_eq (hs : s.stack = inProgress flight) : StackExact ⟨flight, s⟩ := by
  intro n
  show s.mgr.loadingStack.contains n = true ↔ _
  rw [List.contains_iff_mem, ← hs]
  rfl

/-- A load that starts on a stack with room. -/
theorem startLoad_inProgress (hs : s.stack = inProgress flight)
    (hroom : name ≠ none → (inProgress flight).length < maxDepth) :
    (s.startLoad pMod name).stack = inProgress (flight ++ [(pMod, name)]) := by
  rw [stack_startLoad, inProgress_snoc]
  cases name with
  | none =>
    rw [hs]
    simp
  | some n =>
    dsimp only
    rw [hs, if_pos (hroom (by simp))]
    rfl

/-- The end of a load takes its name from the stack. -/
theorem popName_inProgress (hs : s.stack = inProgress (flight ++ [(pMod, name)])) :
    (s.popName name).stack = inProgress flight := by
  rw [inProgress_snoc] at hs
  rw [stack_popName, hs]
  cases name with
  | none => simp
  | some n => simp

/-- The calls start where they start. -/
theorem start_mem_exec (calls : Calls) (flight : List Flight) (s : DepState) :
    (⟨flight, s⟩ : Moment) ∈ (exec calls flight s).2 := by
  cases calls with
  | done => exact List.mem_singleton_self _
  | unload pMod rest => exact List.mem_cons_self
  | load pMod name nested ok after rest =>
    unfold exec
    split
    · exact List.mem_cons_self
    · cases ok <;> exact List.mem_cons_self

end

/-! ## Runs -/

/-- Shallow calls keep the stack, at every moment. -/
theorem exec_shallow {calls : Calls} {flight : List Flight} {s : DepState}
    (hs : s.stack = inProgress flight) (hd : Shallow calls flight) :
    (exec calls flight s).1.stack = inProgress flight ∧
      ∀ m ∈ (exec calls flight s).2, StackExact m := by
  induction calls generalizing flight s with
  | done =>
    refine ⟨hs, fun m hm => ?_⟩
    rw [exec, List.mem_singleton] at hm
    rw [hm]
    exact stackExact_of_eq hs
  | unload pMod rest ih =>
    obtain ⟨h1, h2⟩ := ih (stack_depUnload.trans hs) hd
    refine ⟨h1, fun m hm => ?_⟩
    cases List.mem_cons.mp hm with
    | inl h =>
      rw [h]
      exact stackExact_of_eq hs
    | inr h => exact h2 m h
  | load pMod name nested ok after rest ihn iha ihr =>
    obtain ⟨hstep, hrest⟩ := hd
    have hrefuse : s.refuses name = true ↔ _ := refuses_iff hs
    unfold exec
    by_cases hno : pMod = 0 ∨ s.refuses name
    · rw [if_pos hno]
      obtain ⟨h1, h2⟩ := ihr hs hrest
      refine ⟨h1, fun m hm => ?_⟩
      cases List.mem_cons.mp hm with
      | inl h =>
        rw [h]
        exact stackExact_of_eq hs
      | inr h => exact h2 m h
    · rw [if_neg hno]
      rw [not_or] at hno
      obtain ⟨hroom, hnested, hafter⟩ :=
        (hstep.resolve_left hno.1).resolve_left fun h => hno.2 (hrefuse.mpr h)
      obtain ⟨n1, n2⟩ := ihn (startLoad_inProgress hs hroom) hnested
      cases ok with
      | true =>
        obtain ⟨a1, a2⟩ := iha (stack_finishLoad.trans n1) (hafter rfl)
        obtain ⟨r1, r2⟩ := ihr (popName_inProgress a1) hrest
        refine ⟨r1, fun m hm => ?_⟩
        dsimp only at hm
        rw [if_pos rfl, List.mem_cons, List.mem_append, List.mem_append] at hm
        rcases hm with h | h | h | h
        · rw [h]
          exact stackExact_of_eq hs
        · exact n2 m h
        · exact a2 m h
        · exact r2 m h
      | false =>
        obtain ⟨r1, r2⟩ := ihr (stack_abortLoad.trans (popName_inProgress n1)) hrest
        refine ⟨r1, fun m hm => ?_⟩
        dsimp only at hm
        rw [if_neg Bool.false_ne_true, List.mem_cons, List.mem_append] at hm
        rcases hm with h | h | h
        · rw [h]
          exact stackExact_of_eq hs
        · exact n2 m h
        · exact r2 m h

/-- When the stack is exact at every moment, the calls are shallow. -/
theorem shallow_of_exact {calls : Calls} {flight : List Flight} {s : DepState}
    (hs : s.stack = inProgress flight) (hm : ∀ m ∈ (exec calls flight s).2, StackExact m) :
    Shallow calls flight := by
  induction calls generalizing flight s with
  | done => trivial
  | unload pMod rest ih =>
    exact ih (stack_depUnload.trans hs) fun m h => hm m (List.mem_cons_of_mem _ h)
  | load pMod name nested ok after rest ihn iha ihr =>
    have hrefuse : s.refuses name = true ↔ _ := refuses_iff hs
    unfold exec at hm
    by_cases hno : pMod = 0 ∨ s.refuses name
    · rw [if_pos hno] at hm
      have hlast := ihr hs fun m h => hm m (List.mem_cons_of_mem _ h)
      cases hno with
      | inl h => exact ⟨Or.inl h, hlast⟩
      | inr h => exact ⟨Or.inr (Or.inl (hrefuse.mp h)), hlast⟩
    · rw [if_neg hno] at hm
      rw [not_or] at hno
      have hn2 : ∀ m ∈ (exec nested (flight ++ [(pMod, name)]) (s.startLoad pMod name)).2,
          StackExact m := by
        intro m h
        cases ok <;> exact hm m (List.mem_cons_of_mem _ (List.mem_append_left _ h))
      -- the first moment of the load shows that its name has been pushed
      have hroom : name ≠ none → (inProgress flight).length < maxDepth := by
        intro hname
        obtain ⟨n, rfl⟩ := Option.ne_none_iff_exists'.mp hname
        by_contra hfull
        have hfirst := (hn2 _ (start_mem_exec nested _ _) n).mpr (by
          rw [inProgress_snoc]
          simp)
        have hmem : n ∈ (s.startLoad pMod (some n)).stack := List.contains_iff_mem.mp hfirst
        rw [stack_startLoad] at hmem
        dsimp only at hmem
        rw [hs, if_neg hfull] at hmem
        exact hno.2 (hrefuse.mpr ⟨n, rfl, hmem⟩)
      have hstart := @startLoad_inProgress s pMod name flight hs hroom
      have hnested := ihn hstart hn2
      obtain ⟨n1, -⟩ := exec_shallow hstart hnested
      cases ok with
      | true =>
        dsimp only at hm
        rw [if_pos rfl] at hm
        have hfin := (@stack_finishLoad _ pMod name).trans n1
        have hafter := iha hfin fun m h =>
          hm m (List.mem_cons_of_mem _ (List.mem_append_right _ (List.mem_append_left _ h)))
        obtain ⟨a1, -⟩ := exec_shallow hfin hafter
        have hlast := ihr (popName_inProgress a1) fun m h =>
          hm m (List.mem_cons_of_mem _ (List.mem_append_right _ (List.mem_append_right _ h)))
        exact ⟨Or.inr (Or.inr ⟨hroom, hnested, fun _ => hafter⟩), hlast⟩
      | false =>
        dsimp only at hm
        rw [if_neg Bool.false_ne_true] at hm
        have habort := (@stack_abortLoad _ pMod name).trans (popName_inProgress n1)
        have hlast := ihr habort fun m h =>
          hm m (List.mem_cons_of_mem _ (List.mem_append_right _ h))
        exact ⟨Or.inr (Or.inr ⟨hroom, hnested, fun h => absurd h Bool.false_ne_true⟩), hlast⟩

/-- The stack is restored and exact throughout exactly when the calls are shallow. -/
theorem loadingStack_exact_iff (calls : Calls) (flight : List Flight) (s : DepState)
    (hs : s.stack = inProgress flight) :
    ((exec calls flight s).1.stack = s.stack ∧ ∀ m ∈ (exec calls flight s).2, StackExact m) ↔
      Shallow calls flight := by
  constructor
  · intro h
    exact shallow_of_exact hs h.2
  · intro h
    rw [hs]
    exact exec_shallow hs h

/-! ## A chain of loads -/

/-- Loads of `n` modules, each from within the one before. -/
def nestedLoads : Nat → Calls
  | 0 => .done
  | n + 1 => .load (UInt32.ofNat (n + 1)) (some [UInt8.ofNat n]) (nestedLoads n) true .done .done

theorem loadingStack_eight :
    (exec (nestedLoads 8) [] (.initial 16)).1.stack = (DepState.initial 16).stack ∧
      ∀ m ∈ (exec (nestedLoads 8) [] (.initial 16)).2, StackExact m := by
  apply (loadingStack_exact_iff (nestedLoads 8) [] (.initial 16) rfl).mpr
  simp [Shallow, nestedLoads, inProgress, maxDepth]

/-- Nine: the innermost load takes another name from the stack. -/
theorem loadingStack_nine :
    ¬ ((exec (nestedLoads 9) [] (.initial 16)).1.stack = (DepState.initial 16).stack ∧
      ∀ m ∈ (exec (nestedLoads 9) [] (.initial 16)).2, StackExact m) := by
  intro h
  have hs := shallow_of_exact rfl h.2
  simp [Shallow, nestedLoads, inProgress, maxDepth] at hs

end Udynlink.Deps
