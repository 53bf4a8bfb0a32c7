import Udynlink.Loader

/-!
# Reference semantics of a relocation

A placement says what becomes of the two kinds of value an image holds: the word
in place of a base entry, and the value of a symbol the module defines. Given a
placement and the resolver's answers, every relocated word is a function of its
entry, its symbol and the word of the image.
-/

namespace Udynlink

open Machine

structure Placement where
  rebase : UInt32 → UInt32 → Option UInt32
  own : Sym → Option UInt32

/-- An override counts when it is neither missing nor postponed. -/
def weakWord (own ans : UInt32) : UInt32 := if ans = symDeferred ∨ ans = 0 then own else ans

def externWord (ans : UInt32) : UInt32 := if ans = symDeferred then 0 else ans

/-- The value of a relocated word, `none` when the word of the image stays. -/
def refWord (pl : Placement) (resolve : SymName → UInt32) (symtOffset : UInt32)
    (sym? : Option Sym) (word : UInt32) : Option UInt32 :=
  if isBaseRelocation symtOffset then pl.rebase symtOffset word
  else match sym? with
    | none => none
    | some sym =>
      if sym.type = symTypeInternal ∨ sym.type = symTypeExported then pl.own sym
      else if sym.type = symTypeWeak then
        (pl.own sym).map fun own => weakWord own (resolve sym.name)
      else if sym.type = symTypeExtern then some (externWord (resolve sym.name))
      else none

section

variable {pl : Placement} {resolve : SymName → UInt32} {symtOffset : UInt32} {sym : Sym}
  {word : UInt32}

theorem refWord_base (sym? : Option Sym) (hb : isBaseRelocation symtOffset = true) :
    refWord pl resolve symtOffset sym? word = pl.rebase symtOffset word := by
  unfold refWord
  rw [if_pos hb]

theorem refWord_sym (hb : isBaseRelocation symtOffset = false) :
    refWord pl resolve symtOffset (some sym) word =
      if sym.type = symTypeInternal ∨ sym.type = symTypeExported then pl.own sym
      else if sym.type = symTypeWeak then
        (pl.own sym).map fun own => weakWord own (resolve sym.name)
      else if sym.type = symTypeExtern then some (externWord (resolve sym.name))
      else none := by
  rw [refWord, hb, if_neg Bool.false_ne_true]

/-- A symbol's word does not depend on the word in place. -/
theorem refWord_word {word' : UInt32} {sym? : Option Sym}
    (hb : isBaseRelocation symtOffset = false) :
    refWord pl resolve symtOffset sym? word = refWord pl resolve symtOffset sym? word' := by
  unfold refWord
  rw [hb, if_neg Bool.false_ne_true, if_neg Bool.false_ne_true]

/-- Only the answer for the symbol's own name matters. -/
theorem refWord_congr {resolve' : SymName → UInt32} {sym? : Option Sym}
    (h : isBaseRelocation symtOffset = false → ∀ sym, sym? = some sym →
      sym.type = symTypeWeak ∨ sym.type = symTypeExtern → resolve sym.name = resolve' sym.name) :
    refWord pl resolve symtOffset sym? word = refWord pl resolve' symtOffset sym? word := by
  cases hb : isBaseRelocation symtOffset with
  | true => rw [refWord_base _ hb, refWord_base _ hb]
  | false =>
    cases sym? with
    | none =>
      unfold refWord
      rfl
    | some sym =>
      rw [refWord_sym hb, refWord_sym hb]
      by_cases hw : sym.type = symTypeWeak ∨ sym.type = symTypeExtern
      · rw [h hb sym rfl hw]
      · rw [not_or] at hw
        rw [if_neg hw.1, if_neg hw.2, if_neg hw.1, if_neg hw.2]

end

/-- Untagged: a code base and a data base. -/
def locationBase (codeBase dataBase : UInt32) : SymLocation → UInt32
  | .code => codeBase
  | .data => dataBase

def untaggedPlacement (codeBase dataBase : UInt32) : Placement where
  rebase symtOffset word :=
    if symtOffset &&& relDataBase ≠ 0 then some (word + dataBase - (symtOffset &&& 0x7FFFFFFF))
    else some (word + codeBase)
  own sym := some (sym.val + locationBase codeBase dataBase sym.location)

theorem rebase_data {codeBase dataBase symtOffset : UInt32} (word : UInt32)
    (h : symtOffset &&& relDataBase ≠ 0) :
    (untaggedPlacement codeBase dataBase).rebase symtOffset word =
      some (word + dataBase - (symtOffset &&& 0x7FFFFFFF)) := if_pos h

theorem rebase_code {codeBase dataBase symtOffset : UInt32} (word : UInt32)
    (h : ¬ symtOffset &&& relDataBase ≠ 0) :
    (untaggedPlacement codeBase dataBase).rebase symtOffset word = some (word + codeBase) :=
  if_neg h

/-- The entry's word depends on where the code is. -/
def UsesCodeBase (symtOffset : UInt32) (sym? : Option Sym) : Prop :=
  if isBaseRelocation symtOffset then symtOffset &&& relDataBase = 0
  else ∃ sym, sym? = some sym ∧ isOwnSymbol sym ∧ sym.location = .code

theorem refWord_codeBase {codeBase codeBase' dataBase symtOffset word : UInt32}
    (resolve : SymName → UInt32) (sym? : Option Sym)
    (h : UsesCodeBase symtOffset sym? → codeBase = codeBase') :
    refWord (untaggedPlacement codeBase dataBase) resolve symtOffset sym? word =
      refWord (untaggedPlacement codeBase' dataBase) resolve symtOffset sym? word := by
  by_cases hc : UsesCodeBase symtOffset sym?
  · rw [h hc]
  · rw [UsesCodeBase] at hc
    cases hb : isBaseRelocation symtOffset with
    | true =>
      rw [hb, if_pos rfl] at hc
      rw [refWord_base _ hb, refWord_base _ hb, rebase_data _ hc, rebase_data _ hc]
    | false =>
      rw [hb, if_neg Bool.false_ne_true] at hc
      cases sym? with
      | none =>
        unfold refWord
        rw [hb, if_neg Bool.false_ne_true, if_neg Bool.false_ne_true]
      | some sym =>
        have hown : isOwnSymbol sym → (untaggedPlacement codeBase dataBase).own sym =
            (untaggedPlacement codeBase' dataBase).own sym := by
          intro ho
          have hloc : sym.location = .data := by
            cases hl : sym.location with
            | code => exact absurd ⟨sym, rfl, ho, hl⟩ hc
            | data => rfl
          rw [untaggedPlacement, untaggedPlacement]
          dsimp only
          rw [hloc]
          rfl
        rw [refWord_sym hb, refWord_sym hb]
        by_cases hi : sym.type = symTypeInternal ∨ sym.type = symTypeExported
        · rw [if_pos hi, if_pos hi, hown (hi.elim Or.inl fun he => Or.inr (Or.inl he))]
        · rw [if_neg hi, if_neg hi]
          by_cases hw : sym.type = symTypeWeak
          · rw [if_pos hw, if_pos hw, hown (Or.inr (Or.inr hw))]
          · rw [if_neg hw, if_neg hw]

/-- Whether an entry of an untagged module writes does not depend on the values. -/
theorem refWord_untagged_isSome {c d c' d' symtOffset word word' : UInt32}
    {resolve resolve' : SymName → UInt32} {sym? : Option Sym} :
    (refWord (untaggedPlacement c d) resolve symtOffset sym? word).isSome =
      (refWord (untaggedPlacement c' d') resolve' symtOffset sym? word').isSome := by
  cases hb : isBaseRelocation symtOffset with
  | true =>
    rw [refWord_base _ hb, refWord_base _ hb, untaggedPlacement, untaggedPlacement]
    dsimp only
    split <;> rfl
  | false =>
    cases sym? with
    | none =>
      unfold refWord
      rw [hb, if_neg Bool.false_ne_true, if_neg Bool.false_ne_true]
    | some sym =>
      rw [refWord_sym hb, refWord_sym hb]
      split
      · rfl
      · split
        · rfl
        · split <;> rfl

/-- Sectioned: a map of link-time addresses, the same for words and symbols. -/
def sectionedPlacement (vaMap : UInt32 → Option Addr) : Placement where
  rebase _ word := vaMap word
  own sym := vaMap sym.val

/-- The placement a handle and a memory describe. -/
def placementOf (mod : Module) (tab : SectView) (sectioned : Bool) (m : Mem) : Placement :=
  if sectioned then sectionedPlacement fun va => (resolveRuntimeVa mod tab va).run m
  else untaggedPlacement ((getCodePointer mod).run m) ((getDataPointer mod).run m)

/-- Of a header without sections the module's own address is value plus base. -/
theorem offsetSym_run_untagged {mod : Module} {sym : Sym} {m : Mem}
    (hu : isSectioned (decodeHeader m mod.pHeader) = false) (hown : isOwnSymbol sym) :
    (offsetSym mod sym).run m =
      { sym with val := (sym.val + locationBase ((getCodePointer mod).run m)
        ((getDataPointer mod).run m) sym.location) } := by
  rw [offsetSym, if_pos hown, Reader.run_bind, readHeader_run, hu, if_neg Bool.false_ne_true,
    Reader.run_ite]
  cases hloc : sym.location with
  | code => rfl
  | data => rfl

/-- What a load writes for an own symbol is what the placement says. -/
theorem ownAddress_run {mod : Module} {tab : SectView} {sectioned : Bool} {sym : Sym} {m : Mem}
    (hu : sectioned = false → isSectioned (decodeHeader m mod.pHeader) = false)
    (hown : isOwnSymbol sym) :
    (ownAddress mod tab sectioned sym).run m = (placementOf mod tab sectioned m).own sym := by
  cases sectioned with
  | true => rfl
  | false =>
    rw [ownAddress, if_neg Bool.false_ne_true, Reader.run_bind, Reader.run_pure,
      offsetSym_run_untagged (hu rfl) hown]
    rfl

end Udynlink
