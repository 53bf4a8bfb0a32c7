import Udynlink.Deps.ThunkWorld

/-!
# Data symbols across modules

The resolver of data symbols takes the first entry of the name that is located in data.
It does not look at the type: the entry of an importer counts as one.
-/

namespace Udynlink.Deps

/-- The callback answers as `answer` says, whatever it does to the pool. -/
def Gives (resolve : Resolver) (answer : ModName → UInt32) : Prop :=
  ∀ name s, ∃ s', resolve name s = some (answer name, s')

/-- The module has the symbol itself. -/
def ModSym.isDefinition (sym : ModSym) : Bool :=
  sym.type = symTypeExported ∨ sym.type = symTypeWeak

theorem Gives.lookupSymbol {resolve : Resolver} {answer : ModName → UInt32}
    (hr : Gives resolve answer) (m : LoadedModule) (name : ModName) (s : ResState) :
    ∃ s', lookupSymbol resolve m name s = some (m.lookup answer name, s') := by
  unfold Deps.lookupSymbol LoadedModule.lookup
  cases m.find name with
  | none => exact ⟨s, rfl⟩
  | some sym =>
    dsimp only [Option.map_some]
    split
    · obtain ⟨s', hs⟩ := hr name s
      rw [hs]
      exact ⟨s', rfl⟩
    · exact ⟨s, rfl⟩

namespace Env

variable (env : Env) (answer : ModName → UInt32) (name : ModName)

/-- The symbol of the name in the module behind a handle, if it is located in data. -/
def dataEntry (h : Handle) : Option ModSym :=
  if h = 0 then none
  else ((env.modules h).lookup answer name).filter fun sym => sym.location = .data

/-- The same, if the module does not import it. -/
def dataDefinition (h : Handle) : Option ModSym :=
  (env.dataEntry answer name h).filter ModSym.isDefinition

def firstEntry : Option ModSym := env.handles.findSome? (env.dataEntry answer name)

def firstDefinition : Option ModSym := env.handles.findSome? (env.dataDefinition answer name)

/-- The module behind a handle imports the name as data. -/
def importsData (h : Handle) : Bool :=
  (env.dataEntry answer name h).any fun sym => !sym.isDefinition

/-- The registered modules that do not merely import the name. -/
def exporters : List Handle := env.handles.filter fun h => !env.importsData answer name h

variable {env answer name} {resolve : Resolver} {s : ResState}

theorem resolveDataFrom_run (hr : Gives resolve answer) (hs : List Handle) :
    ∃ s', env.resolveDataFrom resolve name hs s =
      some (((hs.findSome? (env.dataEntry answer name)).map ModSym.val).getD 0, s') := by
  induction hs generalizing s with
  | nil => exact ⟨s, rfl⟩
  | cons h hs ih =>
    unfold resolveDataFrom
    rw [List.findSome?_cons]
    unfold dataEntry
    split
    · exact ih
    · obtain ⟨s1, hl⟩ := hr.lookupSymbol (env.modules h) name s
      rw [hl]
      dsimp only [Option.bind_some]
      cases (env.modules h).lookup answer name with
      | none => exact ih
      | some sym =>
        dsimp only
        rw [Option.filter_some]
        by_cases hd : sym.location = .data
        · rw [if_pos hd, if_pos (decide_eq_true hd)]
          exact ⟨s1, rfl⟩
        · rw [if_neg hd, if_neg (by simpa using hd)]
          exact ih

theorem dataDefinition_of_entry {h : Handle} {sym : ModSym}
    (he : env.dataEntry answer name h = some sym) (hd : sym.isDefinition = true) :
    env.dataDefinition answer name h = some sym := by
  rw [dataDefinition, he, Option.filter_some_pos hd]

theorem dataDefinition_none {h : Handle} (he : env.dataEntry answer name h = none) :
    env.dataDefinition answer name h = none := by
  rw [dataDefinition, he, Option.filter_none]

/-- A definition that the scan comes to first is the first definition. -/
theorem firstDefinition_of_entry {hs : List Handle} {sym : ModSym}
    (he : hs.findSome? (env.dataEntry answer name) = some sym) (hd : sym.isDefinition = true) :
    hs.findSome? (env.dataDefinition answer name) = some sym := by
  induction hs with
  | nil => cases he
  | cons h hs ih =>
    rw [List.findSome?_cons] at he ⊢
    cases hx : env.dataEntry answer name h with
    | none =>
      rw [hx] at he
      rw [dataDefinition_none hx]
      exact ih he
    | some sym' =>
      rw [hx] at he
      obtain rfl := Option.some.inj he
      rw [dataDefinition_of_entry hx hd]

theorem firstDefinition_none (he : env.firstEntry answer name = none) :
    env.firstDefinition answer name = none := by
  unfold firstEntry at he
  unfold firstDefinition
  rw [List.findSome?_eq_none_iff] at he ⊢
  exact fun h hm => dataDefinition_none (he h hm)

/-- Without importers, the scan comes to the first definition. -/
theorem exporters_entry : (env.exporters answer name).findSome? (env.dataEntry answer name) =
    env.firstDefinition answer name := by
  unfold exporters firstDefinition
  induction env.handles with
  | nil => rfl
  | cons h hs ih =>
    rw [List.findSome?_cons]
    cases hx : env.dataEntry answer name h with
    | none =>
      have hi : env.importsData answer name h = false := by rw [importsData, hx]; rfl
      rw [List.filter_cons_of_pos (by rw [hi]; rfl), List.findSome?_cons, hx,
        dataDefinition_none hx]
      exact ih
    | some sym =>
      cases hd : sym.isDefinition with
      | true =>
        have hi : env.importsData answer name h = false := by
          rw [importsData, hx, Option.any_some, hd]
          rfl
        rw [List.filter_cons_of_pos (by rw [hi]; rfl), List.findSome?_cons, hx,
          dataDefinition_of_entry hx hd]
      | false =>
        have hi : env.importsData answer name h = true := by
          rw [importsData, hx, Option.any_some, hd]
          rfl
        have hn : env.dataDefinition answer name h = none := by
          rw [dataDefinition, hx, Option.filter_some_neg (by simp [hd])]
        rw [List.filter_cons_of_neg (by rw [hi]; exact Bool.false_ne_true), hn]
        exact ih

end Env

/-- What the resolver of data symbols is for. -/
structure DataResolved (env : Env) (answer : ModName → UInt32) (name : ModName) (v : UInt32) :
    Prop where
  value : ∀ sym, env.firstDefinition answer name = some sym → v = sym.val
  zero_iff : v = 0 ↔ env.firstDefinition answer name = none
  importers : v = (((env.exporters answer name).findSome? (env.dataEntry answer name)).map
    ModSym.val).getD 0

/-- The first data entry of the name is a definition, and not at address 0, or an entry of
an importer that happens to hold the answer. -/
def DataClear (env : Env) (answer : ModName → UInt32) (name : ModName) : Prop :=
  match env.firstEntry answer name with
  | none => True
  | some sym =>
    if sym.isDefinition then sym.val ≠ 0
    else
      match env.firstDefinition answer name with
      | none => sym.val = 0
      | some d => sym.val = d.val ∧ d.val ≠ 0

theorem dataResolved_iff_clear {env : Env} {answer : ModName → UInt32} {name : ModName} :
    DataResolved env answer name (((env.firstEntry answer name).map ModSym.val).getD 0) ↔
      DataClear env answer name := by
  unfold DataClear
  cases he : env.firstEntry answer name with
  | none =>
    have hn := Env.firstDefinition_none he
    refine iff_of_true ⟨fun sym hs => ?_, iff_of_true rfl hn, ?_⟩ trivial
    · rw [hn] at hs
      cases hs
    · rw [Env.exporters_entry, hn]
  | some sym =>
    dsimp only
    cases hd : sym.isDefinition with
    | true =>
      have hf : env.firstDefinition answer name = some sym := Env.firstDefinition_of_entry he hd
      rw [if_pos rfl]
      constructor
      · intro h h0
        have hz := h.zero_iff.mp h0
        rw [hf] at hz
        cases hz
      · intro h
        refine ⟨fun sym' hs => ?_, iff_of_false h ?_, ?_⟩
        · rw [hf] at hs
          exact congrArg ModSym.val (Option.some.inj hs)
        · rw [hf]
          exact Option.some_ne_none sym
        · rw [Env.exporters_entry, hf]
    | false =>
      rw [if_neg Bool.false_ne_true]
      cases hf : env.firstDefinition answer name with
      | none =>
        constructor
        · intro h
          exact h.zero_iff.mpr hf
        · intro h
          refine ⟨fun sym' hs => ?_, iff_of_true h hf, ?_⟩
          · rw [hf] at hs
            cases hs
          · rw [Env.exporters_entry, hf]
            exact h
      | some d =>
        constructor
        · intro h
          have hv := h.value d hf
          refine ⟨hv, fun h0 => ?_⟩
          have hz := h.zero_iff.mp (hv.trans h0)
          rw [hf] at hz
          cases hz
        · rintro ⟨hv, h0⟩
          refine ⟨fun sym' hs => ?_, iff_of_false (fun hz => h0 (hv.symm.trans hz)) ?_, ?_⟩
          · rw [hf] at hs
            rw [← Option.some.inj hs]
            exact hv
          · rw [hf]
            exact Option.some_ne_none d
          · rw [Env.exporters_entry, hf]
            exact hv

/-- The resolver of data symbols is right unless an importer stands before the first module
that defines the name, or the definition is at address 0. -/
theorem resolveData_right_iff {resolve : Resolver} {answer : ModName → UInt32}
    (hr : Gives resolve answer) (env : Env) (name : ModName) (s : ResState) :
    (∃ v s', env.resolveData resolve name s = some (v, s') ∧ DataResolved env answer name v) ↔
      DataClear env answer name := by
  obtain ⟨s1, hrun⟩ := @Env.resolveDataFrom_run env answer name resolve s hr env.handles
  have hrun' : env.resolveData resolve name s =
      some (((env.firstEntry answer name).map ModSym.val).getD 0, s1) := hrun
  rw [← dataResolved_iff_clear, hrun']
  constructor
  · rintro ⟨v, s', hv, hd⟩
    obtain ⟨rfl, -⟩ := Prod.mk.inj (Option.some.inj hv)
    exact hd
  · exact fun hd => ⟨_, s1, rfl, hd⟩

/-! ## An importer and an exporter -/

/-- `counter`, imported by the module at 4 and defined by the one at 8. -/
def counterEnv (handles : List Handle) : Env where
  mgr := ⟨handles.map fun h => ⟨h, 0⟩, 4, []⟩
  modules h :=
    if h = 4 then ⟨none, 0x20001000, [⟨[99], 0, symTypeExtern, .data⟩]⟩
    else ⟨none, 0x20002000, [⟨[99], 0x20002010, symTypeExported, .data⟩]⟩
  slot _ := 0
  externalDepLoad _ := 0
  hostSymbol _ := 0

def emptyState : ResState := ⟨⟨fun _ => 0, .init 0x20000000 0⟩, fun _ => 0⟩

theorem resolveData_right_exporter : ∃ v s',
    (counterEnv [8, 4]).resolveData (answering fun _ => 0) [99] emptyState = some (v, s') ∧
      DataResolved (counterEnv [8, 4]) (fun _ => 0) [99] v :=
  (resolveData_right_iff (fun _ s => ⟨s, rfl⟩) (counterEnv [8, 4]) [99] emptyState).mpr (by
    show (0x20002010 : UInt32) ≠ 0
    decide)

/-- The importer first: its entry answers, with 0. -/
theorem resolveData_importer : ¬ ∃ v s',
    (counterEnv [4, 8]).resolveData (answering fun _ => 0) [99] emptyState = some (v, s') ∧
      DataResolved (counterEnv [4, 8]) (fun _ => 0) [99] v := by
  rintro ⟨v, s', hv, hd⟩
  have h0 : (counterEnv [4, 8]).resolveData (answering fun _ => 0) [99] emptyState =
      some (0, emptyState) := rfl
  rw [h0] at hv
  obtain ⟨rfl, -⟩ := Prod.mk.inj (Option.some.inj hv)
  have hval : (0 : UInt32) = 0x20002010 := hd.value ⟨[99], 0x20002010, symTypeExported, .data⟩ rfl
  exact absurd hval (by decide)

end Udynlink.Deps
