import Udynlink.Deps.Resolution

/-!
# When resolution ends

A resolution comes back to its own name when it meets a weak symbol of that name in
the registry before the strong one that decides. Nothing else makes it endless: the
other names it comes to are longer each time, up to `depMaxName`.
-/

namespace Udynlink.Deps

open Machine

namespace Env

variable (env : Env)

/-- The module at which `udynlink_dep_resolve_func` stops. -/
def funcModule (name : ModName) : Option Handle :=
  env.handles.find? (env.defines (fun sym => sym.isWeak || sym.isIn .code) name)

/-- The module at which `udynlink_dep_resolve_data` stops. -/
def dataModule (name : ModName) : Option Handle :=
  env.handles.find? (env.defines (fun sym => sym.isWeak || sym.isIn .data) name)

def WeakIn (name : ModName) (h : Handle) : Prop := env.defines ModSym.isWeak name h = true

/-- The module has a stub of its own for the name. -/
def SlotFilled (name : ModName) (h : Handle) : Prop :=
  (name.length > 0 ∧ name.length ≤ depMaxName) ∧
    ∃ tsym, (env.modules h).find (thunkExportPrefix ++ name) = some tsym ∧
      tsym.type = symTypeExported ∧ tsym.location = .data ∧ env.slot tsym.val ≠ 0

/-- The name is a dependency that resolves, or neither pass over the registry stops at
a weak symbol; the second one does not take place when the first finds a stub. -/
def Ends (name : ModName) : Prop :=
  env.resolveDependency name ≠ 0 ∨
    ((∀ h, env.funcModule name = some h → ¬ env.WeakIn name h) ∧
      ((∃ h, env.funcModule name = some h ∧ env.SlotFilled name h) ∨
        ∀ h, env.dataModule name = some h → ¬ env.WeakIn name h))

end Env

/-! ## Lookups -/

section

variable {env : Env} {resolve : Resolver} {m : LoadedModule} {name : ModName} {s : ResState}
  {sym : ModSym} {h : Handle} {hs : List Handle} {i : Nat}

theorem lookupSymbol_none (hf : m.find name = none) :
    lookupSymbol resolve m name s = some (none, s) := by
  rw [lookupSymbol, hf]

theorem lookupSymbol_strong (hf : m.find name = some sym) (hw : sym.isWeak = false) :
    lookupSymbol resolve m name s = some (some sym, s) := by
  rw [lookupSymbol, hf]
  exact if_neg (of_decide_eq_false hw)

theorem lookupSymbol_weak (hf : m.find name = some sym) (hw : sym.isWeak = true) :
    lookupSymbol resolve m name s =
      (resolve name s).map fun r => (some (sym.override r.1), r.2) := by
  rw [lookupSymbol, hf]
  exact if_pos (of_decide_eq_true hw)

theorem lookupSymbol_isSome (hr : (resolve name s).isSome) :
    (lookupSymbol resolve m name s).isSome := by
  cases hf : m.find name with
  | none => rw [lookupSymbol_none hf]; rfl
  | some sym =>
    cases hw : sym.isWeak with
    | true => rw [lookupSymbol_weak hf hw, Option.isSome_map, hr]
    | false => rw [lookupSymbol_strong hf hw]; rfl

theorem defines_iff {p : ModSym → Bool} : env.defines p name h = true ↔
    h ≠ 0 ∧ ∃ sym, (env.modules h).find name = some sym ∧ p sym = true := by
  simp [Env.defines, Option.any_eq_true]

theorem not_defines {p : ModSym → Bool} (hd : ¬ env.defines p name h = true) (h0 : h ≠ 0)
    (hf : (env.modules h).find name = some sym) : p sym = false := by
  by_contra hp
  exact hd (defines_iff.mpr ⟨h0, sym, hf, Bool.eq_true_of_not_eq_false hp⟩)

theorem weakIn_iff (h0 : h ≠ 0) (hf : (env.modules h).find name = some sym) :
    env.WeakIn name h ↔ sym.isWeak = true := by
  rw [Env.WeakIn, defines_iff]
  simp [h0, hf]

theorem isIn_cases (sym : ModSym) : sym.isIn .code = true ∨ sym.isIn .data = true := by
  cases hl : sym.location <;> simp [ModSym.isIn, hl]

/-! ## Passes over the registry -/

section

variable {β : Type} {p : Handle → Bool} (walk : Nat → List Handle → β)
  (hskip : ∀ i h hs, ¬ p h = true → walk i (h :: hs) = walk (i + 1) hs)
include hskip

theorem walk_none {hs : List Handle} (hn : hs.find? p = none) (i : Nat) :
    ∃ j, walk i hs = walk j [] := by
  induction hs generalizing i with
  | nil => exact ⟨i, rfl⟩
  | cons h hs ih =>
    obtain ⟨hd, hn⟩ := List.forall_mem_cons.mp (List.find?_eq_none.mp hn)
    obtain ⟨j, hj⟩ := ih (List.find?_eq_none.mpr hn) (i + 1)
    exact ⟨j, (hskip i h hs hd).trans hj⟩

/-- A pass gets to the module it stops at. -/
theorem walk_some {hs : List Handle} {h : Handle} (hn : hs.find? p = some h) (i : Nat) :
    ∃ j tail, walk i hs = walk j (h :: tail) := by
  induction hs generalizing i with
  | nil => simp at hn
  | cons h' hs ih =>
    by_cases hd : p h' = true
    · rw [List.find?_cons_of_pos hd] at hn
      injection hn with hn
      exact ⟨i, hs, by rw [hn]⟩
    · rw [List.find?_cons_of_neg hd] at hn
      obtain ⟨j, tail, hj⟩ := ih hn (i + 1)
      exact ⟨j, tail, (hskip i h' hs hd).trans hj⟩

end

/-! ## The function pass -/

theorem resolveFuncFrom_skip
    (hd : ¬ env.defines (fun sym => sym.isWeak || sym.isIn .code) name h = true) :
    env.resolveFuncFrom resolve name i (h :: hs) s =
      env.resolveFuncFrom resolve name (i + 1) hs s := by
  rw [Env.resolveFuncFrom]
  by_cases h0 : h = 0
  · rw [if_pos h0]
  · rw [if_neg h0]
    cases hf : (env.modules h).find name with
    | none =>
      rw [lookupSymbol_none hf]
      rfl
    | some sym =>
      have hp := not_defines hd h0 hf
      obtain ⟨hw, hc⟩ := Bool.or_eq_false_iff.mp hp
      have hdata := (isIn_cases sym).resolve_left (by rw [hc]; exact Bool.false_ne_true)
      rw [lookupSymbol_strong hf hw]
      exact if_pos (of_decide_eq_true hdata)

theorem resolveFuncFrom_some (hn : env.funcModule name = some h) :
    ∃ j tail, env.resolveFunc resolve name s =
      env.resolveFuncFrom resolve name j (h :: tail) s :=
  walk_some (fun i hs => env.resolveFuncFrom resolve name i hs s)
    (fun _ _ _ hd => resolveFuncFrom_skip hd) hn 0

theorem resolveFunc_none (hn : env.funcModule name = none) :
    env.resolveFunc resolve name s = some (0, s) := by
  obtain ⟨j, hj⟩ := walk_none (fun i hs => env.resolveFuncFrom resolve name i hs s)
    (fun _ _ _ hd => resolveFuncFrom_skip hd) hn 0
  exact hj

theorem resolveFunc_weak (hn : env.funcModule name = some h) (hw : env.WeakIn name h)
    (hr : resolve name s = none) : env.resolveFunc resolve name s = none := by
  obtain ⟨j, tail, hj⟩ := resolveFuncFrom_some hn
  obtain ⟨h0, sym, hf, hws⟩ := defines_iff.mp hw
  rw [hj, Env.resolveFuncFrom, if_neg h0, lookupSymbol_weak hf hws, hr]
  rfl

theorem resolveFunc_strong (hn : env.funcModule name = some h) (hw : ¬ env.WeakIn name h) :
    ∃ j sym, env.resolveFunc resolve name s =
      env.serveFunc resolve j (env.modules h) sym name s := by
  obtain ⟨j, tail, hj⟩ := resolveFuncFrom_some hn
  obtain ⟨h0, sym, hf, hp⟩ := defines_iff.mp (List.find?_some hn)
  have hws : sym.isWeak = false := by
    rw [weakIn_iff h0 hf] at hw
    exact Bool.eq_false_of_not_eq_true hw
  have hcode : sym.isIn .code = true := by simpa [hws] using hp
  have hdata : ¬ sym.location = .data := by
    rw [of_decide_eq_true hcode]
    exact SymLocation.noConfusion
  refine ⟨j, sym, ?_⟩
  rw [hj, Env.resolveFuncFrom, if_neg h0, lookupSymbol_strong hf hws]
  exact if_neg hdata

theorem serveFunc_isSome
    (hr : name.length ≤ depMaxName → (resolve (thunkExportPrefix ++ name) s).isSome) :
    (env.serveFunc resolve i m sym name s).isSome := by
  unfold Env.serveFunc
  split
  · rename_i hlen
    obtain ⟨r, hl⟩ := Option.isSome_iff_exists.mp (@lookupSymbol_isSome _ m _ _ (hr hlen.2))
    rw [hl, Option.bind_some]
    split
    · split <;> rfl
    · rfl
  · rfl

theorem serveFunc_slot (hs : env.SlotFilled name h) :
    ∃ a, a ≠ 0 ∧ env.serveFunc resolve i (env.modules h) sym name s = some (a, s) := by
  obtain ⟨hlen, tsym, hf, ht, hl, hslot⟩ := hs
  have hw : tsym.isWeak = false := by
    rw [ModSym.isWeak, ht]
    rfl
  refine ⟨tsym.val ||| 1, or_one_ne_zero _, ?_⟩
  rw [Env.serveFunc, if_pos hlen, lookupSymbol_strong hf hw]
  exact if_pos ⟨ht, hl, hslot⟩

/-! ## The data pass -/

theorem resolveDataFrom_skip
    (hd : ¬ env.defines (fun sym => sym.isWeak || sym.isIn .data) name h = true) :
    env.resolveDataFrom resolve name (h :: hs) s = env.resolveDataFrom resolve name hs s := by
  rw [Env.resolveDataFrom]
  by_cases h0 : h = 0
  · rw [if_pos h0]
  · rw [if_neg h0]
    cases hf : (env.modules h).find name with
    | none =>
      rw [lookupSymbol_none hf]
      rfl
    | some sym =>
      have hp := not_defines hd h0 hf
      obtain ⟨hw, hl⟩ := Bool.or_eq_false_iff.mp hp
      rw [lookupSymbol_strong hf hw]
      exact if_neg (of_decide_eq_false hl)

theorem resolveDataFrom_some (hn : env.dataModule name = some h) :
    ∃ tail, env.resolveData resolve name s = env.resolveDataFrom resolve name (h :: tail) s := by
  obtain ⟨-, tail, hj⟩ := walk_some (fun _ hs => env.resolveDataFrom resolve name hs s)
    (fun _ _ _ hd => resolveDataFrom_skip hd) hn 0
  exact ⟨tail, hj⟩

theorem resolveData_none (hn : env.dataModule name = none) :
    env.resolveData resolve name s = some (0, s) := by
  obtain ⟨-, hj⟩ := walk_none (fun _ hs => env.resolveDataFrom resolve name hs s)
    (fun _ _ _ hd => resolveDataFrom_skip hd) hn 0
  exact hj

theorem resolveData_weak (hn : env.dataModule name = some h) (hw : env.WeakIn name h)
    (hr : resolve name s = none) : env.resolveData resolve name s = none := by
  obtain ⟨tail, hj⟩ := resolveDataFrom_some hn
  obtain ⟨h0, sym, hf, hws⟩ := defines_iff.mp hw
  rw [hj, Env.resolveDataFrom, if_neg h0, lookupSymbol_weak hf hws, hr]
  rfl

/-- Without a weak symbol the data pass asks nobody. -/
theorem resolveData_strong (hn : ∀ h, env.dataModule name = some h → ¬ env.WeakIn name h) :
    ∃ a, env.resolveData resolve name s = some (a, s) := by
  cases hd : env.dataModule name with
  | none => exact ⟨0, resolveData_none hd⟩
  | some h =>
    obtain ⟨tail, hj⟩ := resolveDataFrom_some hd
    obtain ⟨h0, sym, hf, hp⟩ := defines_iff.mp (List.find?_some hd)
    have hws : sym.isWeak = false := by
      have hw := hn h hd
      rw [weakIn_iff h0 hf] at hw
      exact Bool.eq_false_of_not_eq_true hw
    have hdata : sym.isIn .data = true := by simpa [hws] using hp
    refine ⟨sym.val, ?_⟩
    rw [hj, Env.resolveDataFrom, if_neg h0, lookupSymbol_strong hf hws]
    exact if_pos (of_decide_eq_true hdata)

end

/-! ## Resolutions that end -/

section

variable {env : Env} {name : ModName} {s : ResState}

/-- A name that ends asks at most about its thunk export. -/
theorem resolve_isSome_succ {n : Nat} (he : env.Ends name)
    (hr : ∀ s, name.length ≤ depMaxName →
      (externalResolveSymbol env n (thunkExportPrefix ++ name) s).isSome) :
    (externalResolveSymbol env (n + 1) name s).isSome := by
  unfold externalResolveSymbol
  by_cases hdep : env.resolveDependency name ≠ 0
  · rw [if_pos hdep]
    rfl
  · rw [if_neg hdep]
    obtain ⟨hfunc, hdata⟩ := he.resolve_left hdep
    have hsome : ∀ s, (env.resolveFunc (externalResolveSymbol env n) name s).isSome := by
      intro s
      cases hm : env.funcModule name with
      | none => rw [resolveFunc_none hm]; rfl
      | some h =>
        obtain ⟨j, sym, hj⟩ := resolveFunc_strong hm (hfunc h hm)
        rw [hj]
        exact serveFunc_isSome (hr s)
    cases hdata with
    | inl hslot =>
      obtain ⟨h, hm, hs⟩ := hslot
      obtain ⟨j, sym, hj⟩ := resolveFunc_strong hm (hfunc h hm)
      obtain ⟨a, ha, hserve⟩ := @serveFunc_slot env (externalResolveSymbol env n) name s sym h j hs
      rw [hj, hserve, Option.bind_some, if_pos ha]
      rfl
    | inr hweak =>
      obtain ⟨r, hf⟩ := Option.isSome_iff_exists.mp (hsome s)
      rw [hf, Option.bind_some]
      split
      · rfl
      · obtain ⟨a, ha⟩ := @resolveData_strong env (externalResolveSymbol env n) name r.2 hweak
        rw [ha, Option.bind_some]
        split <;> rfl

/-- The names get longer: `k` prefixes make a name too long for another one. -/
theorem resolve_isSome (he : ∀ name, env.Ends name) (k : Nat)
    (hlen : depMaxName < name.length + thunkExportPrefix.length * k) :
    (externalResolveSymbol env (k + 1) name s).isSome := by
  induction k generalizing name s with
  | zero =>
    apply resolve_isSome_succ (he name)
    intro s hle
    omega
  | succ k ih =>
    apply resolve_isSome_succ (he name)
    intro s hle
    apply ih
    rw [List.length_append]
    rw [Nat.mul_succ] at hlen
    omega

theorem resolve_four (he : ∀ name, env.Ends name) :
    (externalResolveSymbol env 4 name s).isSome := by
  apply resolve_isSome he 3
  have hp : thunkExportPrefix.length = 23 := by decide +kernel
  rw [hp, depMaxName]
  omega

/-! ## Resolutions that do not -/

/-- A pool without room. -/
def Drained (s : ResState) : Prop := s.thunks.pool.used = 0 ∧ s.thunks.pool.gatewayTop = 0

theorem dynamicStub_drained (hs : Drained s) (i : Nat) (ramBase funcAddr : UInt32) :
    dynamicStub i ramBase funcAddr s = (0, s) := by
  obtain ⟨hu, ht⟩ := hs
  have hfind : findStub s.thunks.mem s.thunks.pool funcAddr = 0 := by
    rw [findStub, hu]
    rfl
  have hstub : ∀ g, s.thunks.allocStub funcAddr g = (0, s.thunks) := by
    intro g
    rw [Thunks.allocStub, hu, ht]
    exact if_pos (by decide)
  have hgate : s.thunks.allocGateway ramBase = (0, s.thunks) := by
    rw [Thunks.allocGateway, hu, ht]
    exact if_pos (by decide)
  unfold dynamicStub
  rw [hfind, hgate, hstub]
  by_cases hg : s.gateways i = 0
  · have hupd : Function.update s.gateways i 0 = s.gateways :=
      Function.update_eq_self_iff.mpr hg.symm
    simp [hg, hupd]
  · simp [hg]

/-- On a drained pool nothing changes. -/
def Stays (resolve : Resolver) (s : ResState) : Prop :=
  ∀ name r, resolve name s = some r → r.2 = s

theorem lookupSymbol_stays {resolve : Resolver} {m : LoadedModule} {r : Option ModSym × ResState}
    (hst : Stays resolve s) (hr : lookupSymbol resolve m name s = some r) : r.2 = s := by
  cases hf : m.find name with
  | none =>
    rw [lookupSymbol_none hf] at hr
    injection hr with hr
    rw [← hr]
  | some sym =>
    cases hw : sym.isWeak with
    | true =>
      rw [lookupSymbol_weak hf hw] at hr
      obtain ⟨a, ha, rfl⟩ := Option.map_eq_some_iff.mp hr
      exact hst name a ha
    | false =>
      rw [lookupSymbol_strong hf hw] at hr
      injection hr with hr
      rw [← hr]

theorem override_isWeak (sym : ModSym) (a : UInt32) : (sym.override a).isWeak = sym.isWeak := by
  rw [ModSym.isWeak, ModSym.isWeak, ModSym.override_type]

/-- A strong symbol is handed out as the table has it. -/
theorem find_of_lookupSymbol {resolve : Resolver} {m : LoadedModule} {sym : ModSym}
    {r : Option ModSym × ResState} (hr : lookupSymbol resolve m name s = some r)
    (hsym : r.1 = some sym) (hw : sym.isWeak = false) : m.find name = some sym := by
  cases hf : m.find name with
  | none =>
    rw [lookupSymbol_none hf] at hr
    injection hr with hr
    rw [← hr] at hsym
    cases hsym
  | some sym' =>
    cases hw' : sym'.isWeak with
    | true =>
      rw [lookupSymbol_weak hf hw'] at hr
      obtain ⟨a, -, rfl⟩ := Option.map_eq_some_iff.mp hr
      injection hsym with hsym
      rw [← hsym, override_isWeak, hw'] at hw
      cases hw
    | false =>
      rw [lookupSymbol_strong hf hw'] at hr
      injection hr with hr
      rw [← hr] at hsym
      exact hsym

theorem serveFunc_drained {resolve : Resolver} {i : Nat} {h : Handle} {sym : ModSym}
    {r : UInt32 × ResState} (hs : Drained s) (hst : Stays resolve s)
    (hr : env.serveFunc resolve i (env.modules h) sym name s = some r) :
    r.2 = s ∧ (¬ env.SlotFilled name h → r.1 = 0) := by
  unfold Env.serveFunc at hr
  split at hr
  · rename_i hlen
    obtain ⟨a, ha, hr⟩ := Option.bind_eq_some_iff.mp hr
    have ha2 := lookupSymbol_stays hst ha
    rw [ha2, dynamicStub_drained hs] at hr
    split at hr
    · rename_i tsym htsym
      split at hr
      · rename_i hfilled
        injection hr with hr
        have hw : tsym.isWeak = false := by
          rw [ModSym.isWeak, hfilled.1]
          rfl
        have hslot : env.SlotFilled name h :=
          ⟨hlen, tsym, find_of_lookupSymbol ha htsym hw, hfilled⟩
        rw [← hr]
        exact ⟨rfl, fun hno => absurd hslot hno⟩
      · injection hr with hr
        rw [← hr]
        exact ⟨rfl, fun _ => rfl⟩
    · injection hr with hr
      rw [← hr]
      exact ⟨rfl, fun _ => rfl⟩
  · rw [dynamicStub_drained hs] at hr
    injection hr with hr
    rw [← hr]
    exact ⟨rfl, fun _ => rfl⟩

theorem resolveFuncFrom_stays {resolve : Resolver} {i : Nat} {hs : List Handle}
    {r : UInt32 × ResState} (hd : Drained s) (hst : Stays resolve s)
    (hr : env.resolveFuncFrom resolve name i hs s = some r) : r.2 = s := by
  induction hs generalizing i with
  | nil =>
    injection hr with hr
    rw [← hr]
  | cons h hs ih =>
    rw [Env.resolveFuncFrom] at hr
    split at hr
    · exact ih hr
    · obtain ⟨a, ha, hr⟩ := Option.bind_eq_some_iff.mp hr
      rw [lookupSymbol_stays hst ha] at hr
      split at hr
      · exact ih hr
      · split at hr
        · exact ih hr
        · exact (serveFunc_drained hd hst hr).1

theorem resolveDataFrom_stays {resolve : Resolver} {hs : List Handle} {r : UInt32 × ResState}
    (hst : Stays resolve s) (hr : env.resolveDataFrom resolve name hs s = some r) : r.2 = s := by
  induction hs with
  | nil =>
    injection hr with hr
    rw [← hr]
  | cons h hs ih =>
    rw [Env.resolveDataFrom] at hr
    split at hr
    · exact ih hr
    · obtain ⟨a, ha, hr⟩ := Option.bind_eq_some_iff.mp hr
      rw [lookupSymbol_stays hst ha] at hr
      split at hr
      · exact ih hr
      · split at hr
        · injection hr with hr
          rw [← hr]
        · exact ih hr

theorem externalResolveSymbol_stays (env : Env) (hd : Drained s) (n : Nat) :
    Stays (externalResolveSymbol env n) s := by
  induction n with
  | zero =>
    intro name r hr
    cases hr
  | succ n ih =>
    intro name r hr
    rw [externalResolveSymbol] at hr
    split at hr
    · injection hr with hr
      rw [← hr]
    · obtain ⟨a, ha, hr⟩ := Option.bind_eq_some_iff.mp hr
      have ha2 := resolveFuncFrom_stays hd ih ha
      split at hr
      · injection hr with hr
        rw [← hr, ha2]
      · obtain ⟨b, hb, hr⟩ := Option.bind_eq_some_iff.mp hr
        rw [ha2] at hb
        have hb2 := resolveDataFrom_stays ih hb
        split at hr
        · injection hr with hr
          rw [← hr, hb2]
        · injection hr with hr
          rw [← hr, hb2]

/-- A weak symbol before the function leads back to the same question. -/
theorem endless_of_func {h : Handle} (hdep : env.resolveDependency name = 0)
    (hm : env.funcModule name = some h) (hw : env.WeakIn name h) (n : Nat) :
    externalResolveSymbol env n name s = none := by
  induction n with
  | zero => rfl
  | succ n ih =>
    rw [externalResolveSymbol, if_neg (not_not_intro hdep), resolveFunc_weak hm hw ih]
    rfl

/-- So does one before the variable, when there is no stub. -/
theorem endless_of_data {h : Handle} (hd : Drained s) (hdep : env.resolveDependency name = 0)
    (hslot : ∀ h, env.funcModule name = some h → ¬ env.WeakIn name h ∧ ¬ env.SlotFilled name h)
    (hm : env.dataModule name = some h) (hw : env.WeakIn name h) (n : Nat) :
    externalResolveSymbol env n name s = none := by
  induction n with
  | zero => rfl
  | succ n ih =>
    have hst := externalResolveSymbol_stays env hd n
    -- the function pass ends without a stub, or not at all
    have hfunc : ∀ r, env.resolveFunc (externalResolveSymbol env n) name s = some r →
        r = (0, s) := by
      intro r hr
      cases hf : env.funcModule name with
      | none =>
        rw [resolveFunc_none hf] at hr
        exact (Option.some.inj hr).symm
      | some h' =>
        obtain ⟨hw', hno⟩ := hslot h' hf
        obtain ⟨j, sym, hj⟩ := resolveFunc_strong hf hw'
        rw [hj] at hr
        obtain ⟨h2, h1⟩ := serveFunc_drained hd hst hr
        exact Prod.ext (h1 hno) h2
    rw [externalResolveSymbol, if_neg (not_not_intro hdep)]
    cases hr : env.resolveFunc (externalResolveSymbol env n) name s with
    | none => rfl
    | some r =>
      rw [hfunc r hr, Option.bind_some, if_neg (not_not_intro rfl), resolveData_weak hm hw ih]
      rfl

end

/-! ## The registries in which resolution ends -/

def drained : ResState := ⟨⟨fun _ => 0, .init 0 0⟩, fun _ => 0⟩

/-- Every resolution and every lookup comes to an end, whatever is in the pool. -/
def ResolutionEnds (env : Env) : Prop :=
  ∀ name s, (∃ n, (externalResolveSymbol env n name s).isSome) ∧
    ∀ m, ∃ n, (lookupSymbol (externalResolveSymbol env n) m name s).isSome

theorem resolutionEnds_iff (env : Env) : ResolutionEnds env ↔ ∀ name, env.Ends name := by
  constructor
  · intro h name
    obtain ⟨n, hn⟩ := (h name drained).1
    by_contra hno
    rw [Env.Ends, not_or, not_not] at hno
    obtain ⟨hdep, hno⟩ := hno
    have hendless : externalResolveSymbol env n name drained = none := by
      by_cases hfunc : ∃ h, env.funcModule name = some h ∧ env.WeakIn name h
      · obtain ⟨h, hm, hw⟩ := hfunc
        exact endless_of_func hdep hm hw n
      · have hstrong : ∀ h, env.funcModule name = some h → ¬ env.WeakIn name h :=
          fun h hm hw => hfunc ⟨h, hm, hw⟩
        rw [and_iff_right hstrong, not_or] at hno
        obtain ⟨hslot, hweak⟩ := hno
        push Not at hweak
        obtain ⟨h, hm, hw⟩ := hweak
        exact endless_of_data ⟨rfl, rfl⟩ hdep
          (fun h hf => ⟨hstrong h hf, fun hs => hslot ⟨h, hf, hs⟩⟩) hm hw n
    rw [hendless] at hn
    cases hn
  · intro he name s
    exact ⟨⟨4, resolve_four he⟩, fun m => ⟨4, lookupSymbol_isSome (resolve_four he)⟩⟩

/-- One module with a weak function of its own. -/
def weakEnv : Env where
  mgr := ⟨[⟨1, 0⟩], 1, []⟩
  modules _ := ⟨some [97], 0x20000000, [⟨[102], 0x20000101, symTypeWeak, .code⟩]⟩
  slot _ := 0
  externalDepLoad _ := 0
  hostSymbol _ := 0

theorem weakEnv_endless : ¬ ResolutionEnds weakEnv := by
  intro h
  obtain ⟨n, hn⟩ := (h [102] drained).1
  have hendless : externalResolveSymbol weakEnv n [102] drained = none :=
    @endless_of_func weakEnv [102] drained 1 (by decide +kernel) (by decide)
      (show weakEnv.defines ModSym.isWeak [102] 1 = true by decide) n
  rw [hendless] at hn
  cases hn

end Udynlink.Deps
