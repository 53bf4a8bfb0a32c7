import Udynlink.Deps.ThunkSlots
import Udynlink.Lookup

/-!
# The table of a loaded module

The resolvers work on lists of symbols. For a module in memory that list is its symbol
table, and what is found in it is what the loader's lookup returns.
-/

namespace Udynlink.Deps

open Machine

section

variable {host : Host} {w : State} {name : ModName} {answer : ModName → UInt32}

/-- The load address changes a symbol in its value only. -/
theorem offsetSym_eq (mod : Module) (sym : Sym) (m : Mem) :
    (offsetSym mod sym).run m = { sym with val := ((offsetSym mod sym).run m).val } := by
  rw [offsetSym, Reader.run_ite]
  split
  · rw [Reader.run_bind, Reader.run_ite]
    split
    · rw [Reader.run_bind, Reader.run_ite]
      split <;> rfl
    · rw [Reader.run_ite]
      split <;> rfl
  · rfl

def modSym (name : ModName) (sym : Sym) : ModSym := ⟨name, sym.val, sym.type, sym.location⟩

/-- Entry `i`, the load address folded in. -/
def tableSym (w : State) (i : Nat) : ModSym :=
  modSym ((symTable w.mem w.handle.pHeader).name i)
    ((offsetSym w.handle ((symTable w.mem w.handle.pHeader).entry i)).run w.mem)

/-- A module in memory, as the resolvers see it. -/
def loadedModule (w : State) (modName : Option ModName) : LoadedModule where
  name := modName
  ramBase := w.handle.pRam
  syms := (List.range' 1 ((symTable w.mem w.handle.pHeader).readable - 1)).map (tableSym w)

theorem tableSym_type (w : State) (i : Nat) :
    (tableSym w i).type = symTypeOf ((symTable w.mem w.handle.pHeader).info i) := by
  unfold tableSym modSym
  rw [offsetSym_eq]
  rfl

/-- The first entry of the name. -/
theorem loadedModule_find (w : State) (modName : Option ModName) (name : ModName) :
    (loadedModule w modName).find name =
      ((symTable w.mem w.handle.pHeader).scan name).map (tableSym w) := by
  unfold LoadedModule.find loadedModule SymTable.scan
  rw [List.find?_map]
  congr 1
  apply List.find?_congr
  intro i _
  dsimp only [Function.comp]
  rw [tableSym_type]
  rfl

/-- The last step of a lookup, on an entry of the table. -/
theorem finishLookup_modSym {as : List Addr} {i : Nat} (hans : ∀ w, host.resolve w name = answer name)
    (hname : (symTable w.mem w.handle.pHeader).name i = name) : ∃ sym w',
    (finishLookup host w.handle name ((symTable w.mem w.handle.pHeader).entry i)).run
      (w.log (readEvents as)) = (.ok sym, w') ∧
    modSym name sym = if (tableSym w i).type = symTypeWeak then (tableSym w i).override (answer name)
      else tableSym w i := by
  have hown : modSym name ((offsetSym w.handle ((symTable w.mem w.handle.pHeader).entry i)).run
      w.mem) = tableSym w i := by rw [tableSym, hname]
  have htype : (tableSym w i).type =
      ((offsetSym w.handle ((symTable w.mem w.handle.pHeader).entry i)).run w.mem).type := rfl
  rw [finishLookup, Prog.run_lift_bind, World.log_mem, htype]
  by_cases hweak : ((offsetSym w.handle ((symTable w.mem w.handle.pHeader).entry i)).run
      w.mem).type = symTypeWeak
  · rw [if_pos hweak, if_pos hweak, Prog.run_bind, resolveName, Prog.run_host, hans]
    dsimp only
    unfold ModSym.override
    split
    · exact ⟨_, _, rfl, hown⟩
    · split
      · exact ⟨_, _, rfl, by rw [← hown]; rfl⟩
      · exact ⟨_, _, rfl, hown⟩
  · rw [if_neg hweak, if_neg hweak]
    exact ⟨_, _, rfl, hown⟩

/-- On a table of distinct names the loader finds what the list has under the name, with the
same override of a weak symbol. -/
theorem lookup_loadedModule (hw : (symTable w.mem w.handle.pHeader).WellNamed)
    (hc : w.handle.numNamedSyms = (computeNumNamedSyms w.handle.pHeader).run w.mem)
    (ho : ¬ Overcounted (symTable w.mem w.handle.pHeader)) (h0 : 0 ∉ name)
    (hans : ∀ w, host.resolve w name = answer name) (modName : Option ModName) :
    ∃ sym? w', (udynlinkLookupSymbol host name).run w = (.ok sym?, w') ∧
      sym?.map (modSym name) = (loadedModule w modName).lookup answer name := by
  obtain ⟨as, hrun⟩ := @answersScan_of_not_overcounted w host name hw hc ho h0
  have hsmall := @readable_small w.mem w.handle.pHeader
  rw [hrun, LoadedModule.lookup, loadedModule_find, linearScan_scan hw.inside (Nat.le_refl 1)
    (Nat.le_add_left 1 _) (show _ < 2 ^ 32 + 1 by omega)]
  change ∃ sym? w', (finishScan host w.handle name
    (((symTable w.mem w.handle.pHeader).scan name).map _)).run _ = _ ∧ _
  cases hs : (symTable w.mem w.handle.pHeader).scan name with
  | none => exact ⟨none, _, rfl, rfl⟩
  | some i =>
    have hfound := List.find?_some hs
    rw [decide_eq_true_eq] at hfound
    obtain ⟨sym, w', hfinish, hsym⟩ := @finishLookup_modSym host w name answer as i hans hfound.2
    refine ⟨some sym, w', ?_, ?_⟩
    · rw [Option.map_some, finishScan, Prog.run_bind, hfinish]
      rfl
    · rw [Option.map_some, Option.map_some, Option.map_some, hsym]

end

end Udynlink.Deps
