import Udynlink.MovedSymtab
import Udynlink.Relocate
import Udynlink.UntaggedLoad

/-!
# The untagged rebase walk

Each entry is a patch of the word in its slot, by the distance the block or the
code has moved. The patch of the word a load leaves is the word a load leaves
at the new address, except that a weak slot whose override happens to be the
module's own address is taken for the default.
-/

namespace Udynlink

open Machine

/-- What the walk makes of a word, `none` when it leaves it alone. -/
def rebaseWord (codeDelta dataDelta oldCode oldData symtOffset : UInt32) (sym? : Option Sym)
    (word : UInt32) : Option UInt32 :=
  if symtOffset &&& relDataBase ≠ 0 then some (word + dataDelta)
  else if symtOffset &&& relCodeBase ≠ 0 then some (word + codeDelta)
  else match sym? with
    | none => none
    | some sym =>
      if sym.type = symTypeInternal ∨ sym.type = symTypeExported then
        some (word + locationDelta sym.location codeDelta dataDelta)
      else if sym.type = symTypeWeak then
        if word = locationDelta sym.location oldCode oldData + sym.val then
          some (word + locationDelta sym.location codeDelta dataDelta)
        else none
      else none

theorem isBaseRelocation_iff {symtOffset : UInt32} : isBaseRelocation symtOffset = true ↔
    symtOffset &&& relDataBase ≠ 0 ∨ symtOffset &&& relCodeBase ≠ 0 := by
  rw [isBaseRelocation, Bool.or_eq_true, bne_iff_ne, bne_iff_ne]

theorem not_base {symtOffset : UInt32} (h : isBaseRelocation symtOffset = false) :
    ¬ symtOffset &&& relDataBase ≠ 0 ∧ ¬ symtOffset &&& relCodeBase ≠ 0 := by
  rw [← not_or, ← isBaseRelocation_iff, h]
  exact Bool.false_ne_true

section Word

variable {codeDelta dataDelta oldCode oldData symtOffset word : UInt32} {sym? : Option Sym}
  {sym : Sym}

theorem rebaseWord_data (hd : symtOffset &&& relDataBase ≠ 0) :
    rebaseWord codeDelta dataDelta oldCode oldData symtOffset sym? word =
      some (word + dataDelta) := if_pos hd

theorem rebaseWord_code (hd : ¬ symtOffset &&& relDataBase ≠ 0)
    (hc : symtOffset &&& relCodeBase ≠ 0) :
    rebaseWord codeDelta dataDelta oldCode oldData symtOffset sym? word =
      some (word + codeDelta) := (if_neg hd).trans (if_pos hc)

theorem rebaseWord_sym (hb : isBaseRelocation symtOffset = false) :
    rebaseWord codeDelta dataDelta oldCode oldData symtOffset (some sym) word =
      if sym.type = symTypeInternal ∨ sym.type = symTypeExported then
        some (word + locationDelta sym.location codeDelta dataDelta)
      else if sym.type = symTypeWeak then
        if word = locationDelta sym.location oldCode oldData + sym.val then
          some (word + locationDelta sym.location codeDelta dataDelta)
        else none
      else none := by
  rw [rebaseWord, if_neg (not_base hb).1, if_neg (not_base hb).2]

/-- Only the kind and the value of a symbol matter, not where its name lies. -/
theorem rebaseWord_shift (d : Addr) :
    rebaseWord codeDelta dataDelta oldCode oldData symtOffset (sym?.map (Sym.shift d)) word =
      rebaseWord codeDelta dataDelta oldCode oldData symtOffset sym? word := by
  cases sym? with
  | none => rfl
  | some sym => rfl

/-- What the walk touches, a load has written. -/
theorem refWord_isSome_of_rebaseWord {c d word' : UInt32} {resolve : SymName → UInt32}
    (h : (rebaseWord codeDelta dataDelta oldCode oldData symtOffset sym? word).isSome = true) :
    (refWord (untaggedPlacement c d) resolve symtOffset sym? word').isSome = true := by
  cases hb : isBaseRelocation symtOffset with
  | true =>
    rw [refWord_base _ hb, untaggedPlacement]
    dsimp only
    split <;> rfl
  | false =>
    cases sym? with
    | none =>
      rw [rebaseWord, if_neg (not_base hb).1, if_neg (not_base hb).2] at h
      simp at h
    | some sym =>
      rw [rebaseWord_sym hb] at h
      rw [refWord_sym hb]
      split at h
      next hi =>
        rw [if_pos hi]
        rfl
      next hi =>
        split at h
        next hw =>
          rw [if_neg hi, if_pos hw]
          rfl
        next => simp at h

/-- An override of a weak slot is not the module's own address. -/
def OverrideApart (c d codeDelta dataDelta : UInt32) (sym : Sym) (ans : UInt32) : Prop :=
  sym.type = symTypeWeak → ans ≠ 0 → ans ≠ symDeferred →
    locationDelta sym.location codeDelta dataDelta ≠ 0 →
    ans ≠ sym.val + locationBase c d sym.location

theorem locationBase_add {c d c' d' : UInt32} (loc : SymLocation) :
    locationBase c d loc + locationDelta loc (c' - c) (d' - d) = locationBase c' d' loc := by
  cases loc with
  | code => exact UInt32.add_comm _ _ ▸ UInt32.sub_add_cancel c' c
  | data => exact UInt32.add_comm _ _ ▸ UInt32.sub_add_cancel d' d

/-- The patch of a loaded word is the word of a load at the new bases. -/
theorem rebaseWord_refWord {c d c' d' v : UInt32} {resolve : SymName → UInt32}
    (hapart : isBaseRelocation symtOffset = false → ∀ sym, sym? = some sym →
      OverrideApart c d (c' - c) (d' - d) sym (resolve sym.name))
    (hv : refWord (untaggedPlacement c d) resolve symtOffset sym? word = some v) :
    refWord (untaggedPlacement c' d') resolve symtOffset sym? word =
      some ((rebaseWord (c' - c) (d' - d) c d symtOffset sym? v).getD v) := by
  cases hb : isBaseRelocation symtOffset with
  | true =>
    rw [refWord_base _ hb] at hv ⊢
    by_cases hd : symtOffset &&& relDataBase ≠ 0
    · rw [rebase_data _ hd, Option.some.injEq] at hv
      rw [rebase_data _ hd, rebaseWord_data hd, Option.getD_some, ← hv]
      congr 1
      abel
    · have hc := (isBaseRelocation_iff.mp hb).resolve_left hd
      rw [rebase_code _ hd, Option.some.injEq] at hv
      rw [rebase_code _ hd, rebaseWord_code hd hc, Option.getD_some, ← hv]
      congr 1
      abel
  | false =>
    cases sym? with
    | none =>
      unfold refWord at hv
      rw [hb, if_neg Bool.false_ne_true] at hv
      simp at hv
    | some sym =>
      have hown : sym.val + locationBase c d sym.location +
          locationDelta sym.location (c' - c) (d' - d) = sym.val + locationBase c' d' sym.location := by
        rw [UInt32.add_assoc, locationBase_add]
      rw [refWord_sym hb] at hv ⊢
      rw [rebaseWord_sym hb]
      by_cases hi : sym.type = symTypeInternal ∨ sym.type = symTypeExported
      · rw [if_pos hi] at hv ⊢
        rw [if_pos hi, Option.getD_some, ← Option.some.inj hv]
        exact congrArg some hown.symm
      rw [if_neg hi] at hv ⊢
      rw [if_neg hi]
      by_cases hw : sym.type = symTypeWeak
      · rw [if_pos hw] at hv ⊢
        rw [if_pos hw]
        have hv' : weakWord (sym.val + locationBase c d sym.location) (resolve sym.name) = v :=
          Option.some.inj hv
        have hdefault : locationDelta sym.location c d + sym.val =
            sym.val + locationBase c d sym.location := by
          rw [UInt32.add_comm]
          cases sym.location <;> rfl
        rw [hdefault]
        change some (weakWord (sym.val + locationBase c' d' sym.location) (resolve sym.name)) = _
        by_cases hno : resolve sym.name = symDeferred ∨ resolve sym.name = 0
        · rw [weakWord, if_pos hno] at hv' ⊢
          rw [if_pos hv'.symm, Option.getD_some, ← hv', hown]
        · rw [weakWord, if_neg hno] at hv' ⊢
          rw [not_or] at hno
          -- the override stays; if it were the default, the section did not move
          split
          next heq =>
            by_cases hzero : locationDelta sym.location (c' - c) (d' - d) = 0
            · rw [hzero, UInt32.add_zero, Option.getD_some, hv']
            · exact absurd (hv'.trans heq) (hapart hb sym rfl hw hno.2 hno.1 hzero)
          next => rw [Option.getD_none, hv']
      · rw [if_neg hw] at hv ⊢
        rw [if_neg hw, Option.getD_none, hv]

end Word

/-! ## One entry -/

/-- The slot of an entry; only symbol entries ask for the LOT. -/
def rebaseSlot (mod : Module) (pData : Addr) (numLot : UInt16) (e : RelocEntry) : Addr :=
  if isBaseRelocation e.2 then pData + (e.1 - numLot.toUInt32) * 4
  else untaggedSlot mod pData numLot e.1

section Walk

variable {numLot : UInt16} {pData codeDelta dataDelta oldCode oldData : UInt32} {w w' : State}

theorem shiftWord_run {p delta : UInt32} (h : (shiftWord p delta).run w = (.ok (), w')) :
    w'.handle = w.handle ∧ w'.mem = w.mem.set32 p (w.mem.u32 p + delta) := by
  rw [shiftWord, Prog.run_lift_bind, Prog.run_set32, Prod.mk.injEq] at h
  rw [← h.2]
  exact ⟨rfl, rfl⟩

theorem rebaseRelocation_run {e : RelocEntry}
    (h : (rebaseRelocation numLot pData codeDelta dataDelta oldCode oldData e.1 e.2).run w =
      (.ok (), w')) :
    w'.handle = w.handle ∧ w'.mem = Patch.apply ⟨rebaseSlot w.handle pData numLot e,
      rebaseWord codeDelta dataDelta oldCode oldData e.2
        ((getSymAt w.handle.pHeader e.2).run w.mem)⟩ w.mem := by
  have hdone : ∀ {p : Addr} {value : UInt32 → Option UInt32} {delta : UInt32} {v : State},
      (shiftWord p delta).run v = (.ok (), w') → v.mem = w.mem → v.handle = w.handle →
      value (w.mem.u32 p) = some (w.mem.u32 p + delta) →
      w'.handle = w.handle ∧ w'.mem = Patch.apply ⟨p, value⟩ w.mem := by
    intro p value delta v hs hm hh hv
    obtain ⟨hh', hm'⟩ := shiftWord_run hs
    rw [Patch.apply_of_some (p := ⟨p, value⟩) hv, hh', hm', hm]
    exact ⟨hh, rfl⟩
  have hnone : ∀ {p : Addr} {value : UInt32 → Option UInt32} {v : State},
      (pure () : Loader Unit).run v = (.ok (), w') → v.mem = w.mem → v.handle = w.handle →
      value (w.mem.u32 p) = none →
      w'.handle = w.handle ∧ w'.mem = Patch.apply ⟨p, value⟩ w.mem := by
    intro p value v hs hm hh hv
    rw [Prog.run_pure, Prod.mk.injEq] at hs
    rw [Patch.apply_of_none (p := ⟨p, value⟩) hv, ← hs.2]
    exact ⟨hh, hm⟩
  rw [rebaseRelocation, Prog.run_getHandle_bind] at h
  split at h
  next hd =>
    have hb : isBaseRelocation e.2 = true := isBaseRelocation_iff.mpr (Or.inl hd)
    rw [rebaseSlot, if_pos hb]
    exact hdone h rfl rfl (rebaseWord_data hd)
  next hd =>
    split at h
    next hc =>
      have hb : isBaseRelocation e.2 = true := isBaseRelocation_iff.mpr (Or.inr hc)
      rw [rebaseSlot, if_pos hb]
      exact hdone h rfl rfl (rebaseWord_code hd hc)
    next hc =>
      have hb : isBaseRelocation e.2 = false := by
        rw [← Bool.not_eq_true, isBaseRelocation_iff]
        exact fun h => h.elim hd hc
      rw [rebaseSlot, hb, if_neg Bool.false_ne_true]
      rw [Prog.run_lift_bind] at h
      cases hs : (getSymAt w.handle.pHeader e.2).run w.mem with
      | none =>
        rw [hs] at h
        exact hnone h rfl rfl ((if_neg hd).trans (if_neg hc))
      | some sym =>
        rw [hs] at h
        dsimp only at h
        split at h
        next hi => exact hdone h rfl rfl ((rebaseWord_sym hb).trans (if_pos hi))
        next hi =>
          split at h
          next hw =>
            rw [Prog.run_lift_bind] at h
            split at h
            next heq =>
              refine hdone h rfl rfl ?_
              rw [rebaseWord_sym hb, if_neg hi, if_pos hw]
              exact if_pos heq
            next heq =>
              refine hnone h rfl rfl ?_
              rw [rebaseWord_sym hb, if_neg hi, if_pos hw]
              exact if_neg heq
          next hw =>
            refine hnone h rfl rfl ?_
            rw [rebaseWord_sym hb, if_neg hi, if_neg hw]

/-! ## The walk -/

theorem rebaseLoop_handle {pRels : Addr} {n i : Nat}
    (h : (rebaseLoop pRels numLot pData codeDelta dataDelta oldCode oldData n i).run w =
      (.ok (), w')) : w'.handle = w.handle := by
  induction n generalizing i w with
  | zero =>
    rw [rebaseLoop, Prog.run_pure, Prod.mk.injEq] at h
    rw [← h.2]
  | succ n ih =>
    rw [rebaseLoop, Prog.run_lift_bind, Prog.run_bind_ok] at h
    obtain ⟨⟨⟩, w1, hone, hrest⟩ := h
    exact (ih hrest).trans (rebaseRelocation_run hone).1

theorem rebaseModulePointers_handle
    (h : (rebaseModulePointers codeDelta dataDelta oldCode oldData).run w = (.ok (), w')) :
    w'.handle = w.handle := by
  rw [rebaseModulePointers, Prog.run_getHandle_bind, Prog.run_lift_bind, Prog.run_lift_bind] at h
  exact (rebaseLoop_handle h).trans rfl

/-- The walk over entries that no patch disturbs: `P` holds what it reads. -/
theorem rebaseLoop_ok {P : Addr → Prop} {m0 : Mem} {pRels : Addr} {mod : Module}
    {es : Nat → RelocEntry} {syms : Nat → Option Sym} {numRels : Nat}
    (hentry : ∀ m, (∀ a, P a → m0 a = m a) → ∀ k, k < numRels →
      (readRelocation pRels k).run m = es k ∧ (isBaseRelocation (es k).2 = false →
        (getSymAt mod.pHeader (es k).2).run m = syms k))
    (hclear : ∀ k, k < numRels → ∀ a, P a → a ∉ (⟨rebaseSlot mod pData numLot (es k), 4⟩ : Span))
    {n i : Nat} (h : (rebaseLoop pRels numLot pData codeDelta dataDelta oldCode oldData n i).run w =
      (.ok (), w'))
    (hi : i + n ≤ numRels) (hmod : w.handle = mod) (hag : ∀ a, P a → m0 a = w.mem a) :
    w'.handle = mod ∧ w'.mem = Patch.applyAll ((List.range' i n).map fun k =>
      ⟨rebaseSlot mod pData numLot (es k),
        rebaseWord codeDelta dataDelta oldCode oldData (es k).2 (syms k)⟩) w.mem := by
  induction n generalizing i w with
  | zero =>
    rw [rebaseLoop, Prog.run_pure, Prod.mk.injEq] at h
    rw [← h.2]
    exact ⟨hmod, rfl⟩
  | succ n ih =>
    have hlt : i < numRels := by omega
    obtain ⟨hrel, hsym⟩ := hentry w.mem hag i hlt
    rw [rebaseLoop, Prog.run_lift_bind, hrel] at h
    dsimp only at h
    rw [Prog.run_bind_ok] at h
    obtain ⟨⟨⟩, w1, hone, hrest⟩ := h
    obtain ⟨hh, hm⟩ := rebaseRelocation_run hone
    rw [World.log_handle, World.log_mem, hmod] at hm
    rw [World.log_handle, hmod] at hh
    have hpatch : (⟨rebaseSlot mod pData numLot (es i),
        rebaseWord codeDelta dataDelta oldCode oldData (es i).2
          ((getSymAt mod.pHeader (es i).2).run w.mem)⟩ : Patch) =
        ⟨rebaseSlot mod pData numLot (es i),
          rebaseWord codeDelta dataDelta oldCode oldData (es i).2 (syms i)⟩ := by
      rw [Patch.mk.injEq]
      refine ⟨rfl, funext fun word => ?_⟩
      cases hb : isBaseRelocation (es i).2 with
      | true =>
        rcases isBaseRelocation_iff.mp hb with hd | hc
        · rw [rebaseWord_data hd, rebaseWord_data hd]
        · by_cases hd : (es i).2 &&& relDataBase ≠ 0
          · rw [rebaseWord_data hd, rebaseWord_data hd]
          · rw [rebaseWord_code hd hc, rebaseWord_code hd hc]
      | false => rw [hsym hb]
    rw [hpatch] at hm
    generalize hq : (⟨rebaseSlot mod pData numLot (es i), rebaseWord codeDelta dataDelta oldCode
      oldData (es i).2 (syms i)⟩ : Patch) = q at hm
    have hspan : q.span = ⟨rebaseSlot mod pData numLot (es i), 4⟩ := by
      rw [← hq]
      rfl
    have hag1 : ∀ a, P a → m0 a = w1.mem a := fun a ha => by
      rw [hm, Patch.apply_notMem (hspan ▸ hclear i hlt a ha)]
      exact hag a ha
    obtain ⟨hh', hm'⟩ := ih hrest (by omega) hh hag1
    refine ⟨hh', ?_⟩
    rw [hm', hm, List.range'_succ, List.map_cons, hq, Patch.applyAll, Patch.applyAll,
      List.foldl_cons]

end Walk

end Udynlink
