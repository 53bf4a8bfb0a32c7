import Udynlink.Deps.DataSymbols
import Udynlink.Deps.Registry

/-!
# Unloading and the choice of a definition

All resolvers take the first entry that has a name, and unloading puts the last entry in
the place of the one it removes. A definition can come first that did not before.
-/

namespace Udynlink.Deps

open Machine

/-! ## Verdicts -/

/-- What an entry says about a name: nothing, or that the search ends, with the module
that defines the name or with none. -/
abbrev Verdict := Handle → Option (Option Handle)

namespace Env

variable (env : Env) (answer : ModName → UInt32) (name : ModName)

def codeEntry (h : Handle) : Option ModSym :=
  if h = 0 then none
  else ((env.modules h).lookup answer name).filter fun sym => ¬ sym.location = .data

/-- The module of an entry, if the entry is a definition. -/
def definer (h : Handle) (sym : ModSym) : Option Handle := if sym.isDefinition then some h else none

def codeVerdict : Verdict := fun h => (env.codeEntry answer name h).map (definer h)

def dataVerdict : Verdict := fun h => (env.dataEntry answer name h).map (definer h)

/-- The registry and the modules behind `udynlink_dep_unload`. -/
def unload (pMod : Handle) : Env :=
  { env with
    mgr := env.mgr.unregisterModule pMod
    modules := Function.update env.modules pMod ⟨none, 0, []⟩ }

/-- The module has neither the name nor a definition of it. -/
structure NotDefined (pMod : Handle) : Prop where
  unnamed : (env.modules pMod).name ≠ some name
  symbol : ∀ sym, (env.modules pMod).lookup answer name = some sym → sym.isDefinition = false

variable {env answer name} {pMod : Handle}

theorem definer_verdict {e : Option ModSym} (hd : ∀ sym, e = some sym → sym.isDefinition = false) :
    e.map (definer pMod) = none ∨ e.map (definer pMod) = some none := by
  cases e with
  | none => exact Or.inl rfl
  | some sym =>
    right
    rw [Option.map_some, definer, hd sym rfl]
    rfl

theorem NotDefined.code (h : env.NotDefined answer name pMod) :
    env.codeVerdict answer name pMod = none ∨ env.codeVerdict answer name pMod = some none := by
  refine definer_verdict fun sym he => ?_
  unfold codeEntry at he
  split at he
  · cases he
  · exact h.symbol sym (Option.filter_eq_some_iff.mp he).1

theorem NotDefined.data (h : env.NotDefined answer name pMod) :
    env.dataVerdict answer name pMod = none ∨ env.dataVerdict answer name pMod = some none := by
  refine definer_verdict fun sym he => ?_
  unfold dataEntry at he
  split at he
  · cases he
  · exact h.symbol sym (Option.filter_eq_some_iff.mp he).1

end Env

theorem World.depUnload_env (w : World) {pMod : Handle} (h0 : pMod ≠ 0) (mem : Mem) :
    (w.depUnload pMod mem).env.mgr = (w.env.unload pMod).mgr ∧
      (w.depUnload pMod mem).env.modules = (w.env.unload pMod).modules := by
  unfold World.depUnload
  rw [if_neg h0]
  refine ⟨rfl, funext fun h => ?_⟩
  show World.module _ h = Function.update w.module pMod ⟨none, 0, []⟩ h
  unfold World.module World.setModule
  dsimp only
  by_cases hp : h = pMod
  · rw [hp, Function.update_self, Function.update_self]
  · rw [Function.update_of_ne hp, Function.update_of_ne hp]

end Udynlink.Deps
