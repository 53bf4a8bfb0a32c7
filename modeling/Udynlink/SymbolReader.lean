import Udynlink.SymbolNames
import Udynlink.Loader

/-!
# The indexed symbol reader

An index is doubled before it is compared with the size of the table, modulo the word.
The reader therefore reads entry `index % 2^31`, after a test against the claimed count
with the index itself.
-/

namespace Udynlink

open Machine

/-! ## The readers -/

def boundedSymCount (pSymt : Addr) (symtSizeBytes : UInt32) : Reader UInt32 :=
  let symtWords := symtSizeBytes / 4
  if symtWords < 1 then pure 0
  else do
    let claimed ← symtWord pSymt 0
    let maxValid := if symtWords ≥ 3 then (symtWords - 1) / 2 else 0
    pure (if claimed < maxValid then claimed else maxValid)

def imageGetSymbol (image : Image) (index : UInt32) : Reader (Option Sym) :=
  if image.pHeader = 0 ∨ image.pSymtab = 0 then pure none
  else do
    let h ← readHeader image.pHeader
    getSymAtRaw image.pSymtab index h.symtSize

/-- `udynlink_get_symbol`. -/
def moduleGetSymbol (mod : Module) (index : UInt32) : Reader (Option Sym) :=
  if mod.pHeader = 0 then pure none
  else do
    let sym? ← getSymAt mod.pHeader index
    match sym? with
    | none => pure none
    | some sym => do
      let sym ← offsetSym mod sym
      pure (some sym)

theorem offsetSym_name (mod : Module) (sym : Sym) (m : Mem) :
    ((offsetSym mod sym).run m).name = sym.name := by
  rw [offsetSym, Reader.run_ite]
  split
  · rw [Reader.run_bind, Reader.run_ite]
    split
    · rw [Reader.run_bind, Reader.run_ite]
      split <;> rfl
    · rw [Reader.run_ite]
      split <;> rfl
  · rfl

/-- The entry that is read for an index. -/
def wrappedIndex (index : UInt32) : Nat := index.toNat % 2 ^ 31

namespace SymTable

variable (t : SymTable) (index : UInt32)

def span : Span := ⟨t.base, t.size.toNat⟩

def type (i : Nat) : UInt8 := symTypeOf (t.info i)

/-- The name of an entry ends in the table. -/
def Terminated (i : Nat) : Prop :=
  ∃ s, StrAt t.mem (t.base + t.nameOff i) s ∧ (t.nameOff i).toNat + s.length < t.size.toNat

/-- A name, up to and including its NUL, lies in the table. -/
def NameInside : SymName → Prop
  | .notAvailable => True
  | .pool p => ∃ s, StrAt t.mem p s ∧ (p - t.base).toNat + s.length < t.size.toNat

/-- What a reader should do with an index, by its result and the entry words it reads. -/
structure ReaderRight (sym? : Option Sym) (reads : List Addr) : Prop where
  returned : ∀ sym, sym? = some sym →
    index < (boundedSymCount t.base t.size).run t.mem ∧ t.NameInside sym.name
  inside : ∀ a ∈ reads, a ∈ t.span
  complete : index < (boundedSymCount t.base t.size).run t.mem →
    (index = 0 → t.type 0 = symTypeModuleName) →
    (t.Named index.toNat → t.Terminated index.toNat) → sym?.isSome

/-- An index that does not wrap names an entry whose name, if it starts in the table, ends
there; one that wraps is not below the claimed count, or ends up behind the table or at a
name that starts outside. -/
def IndexClear : Prop :=
  index.toNat < t.count → 0 < t.words →
    if index.toNat < 2 ^ 31 - 1 then
      index.toNat < t.readable → (index = 0 → t.type 0 = symTypeModuleName) →
        t.Named index.toNat → t.nameOff index.toNat < t.size → t.Terminated index.toNat
    else
      wrappedIndex index ≠ 2 ^ 31 - 1 ∧
        (t.words ≤ wrappedIndex index * 2 + 2 ∨
          t.Named (wrappedIndex index) ∧ t.size ≤ t.nameOff (wrappedIndex index))

variable {t index}

theorem words_div : (t.size / 4).toNat = t.words := UInt32.toNat_div t.size 4

theorem words_lt : t.words < 2 ^ 30 := by
  have hlt := t.size.toNat_lt
  unfold words
  omega

/-- The count is the one the model of the table has. -/
theorem boundedSymCount_run : ((boundedSymCount t.base t.size).run t.mem).toNat = t.readable := by
  have hw := t.words_lt
  have h1 : t.size / 4 < 1 ↔ t.words < 1 := by
    rw [UInt32.lt_iff_toNat_lt, words_div]
    rfl
  have h3 : t.size / 4 ≥ 3 ↔ 3 ≤ t.words := by
    rw [ge_iff_le, UInt32.le_iff_toNat_le, words_div]
    rfl
  unfold boundedSymCount readable
  dsimp only
  rw [Reader.run_ite]
  by_cases he : t.words < 1
  · rw [if_pos (h1.mpr he), Reader.run_pure, UInt32.toNat_zero]
    omega
  · rw [if_neg (mt h1.mp he), Reader.run_bind, Reader.run_pure]
    have hmax : ((if t.size / 4 ≥ 3 then (t.size / 4 - 1) / 2 else 0 : UInt32)).toNat =
        (t.words - 1) / 2 := by
      split
      · rw [UInt32.toNat_div, UInt32.toNat_sub_of_le _ _ (by
          rw [UInt32.le_iff_toNat_le, words_div, UInt32.toNat_one]; omega), words_div]
        rfl
      · rename_i h
        have := mt h3.mpr h
        rw [UInt32.toNat_zero]
        omega
    generalize (if t.size / 4 ≥ 3 then (t.size / 4 - 1) / 2 else 0 : UInt32) = maxValid at hmax
    have hc : ((symtWord t.base 0).run t.mem).toNat = t.count := rfl
    split
    · rename_i hlt
      rw [UInt32.lt_iff_toNat_lt] at hlt
      omega
    · rename_i hlt
      rw [UInt32.lt_iff_toNat_lt] at hlt
      omega

theorem readable_lt : t.readable < 2 ^ 29 := by
  have hw := t.words_lt
  unfold readable
  omega

theorem wrappedIndex_of_lt (h : index.toNat < 2 ^ 31) : wrappedIndex index = index.toNat :=
  Nat.mod_eq_of_lt h

/-! ## One read -/

theorem double_succ (index x : UInt32) :
    index * 2 + x = UInt32.ofNat (wrappedIndex index * 2 + x.toNat) := by
  apply UInt32.toNat_inj.mp
  rw [UInt32.toNat_add, UInt32.toNat_mul, UInt32.toNat_ofNat', wrappedIndex]
  have h2 : (2 : UInt32).toNat = 2 := rfl
  have hlt := index.toNat_lt
  rw [h2]
  omega

theorem getSymAtRaw_wrapped : (getSymAtRaw t.base index t.size).run t.mem =
    if t.words < 1 ∨ t.count ≤ index.toNat ∨ t.words ≤ (wrappedIndex index * 2 + 2) % 2 ^ 32 ∨
        (index = 0 ∧ t.type (wrappedIndex index) ≠ symTypeModuleName) ∨
        t.Named (wrappedIndex index) ∧ t.size ≤ t.nameOff (wrappedIndex index) then none
    else some (t.entry (wrappedIndex index)) := by
  have h1 : index * 2 + 1 = UInt32.ofNat (wrappedIndex index * 2 + 1) := double_succ index 1
  have h2 : index * 2 + 2 = UInt32.ofNat (wrappedIndex index * 2 + 2) := double_succ index 2
  have hempty : t.size / 4 < 1 ↔ t.words < 1 := by
    rw [UInt32.lt_iff_toNat_lt, words_div]
    rfl
  have hcount : index ≥ (symtWord t.base 0).run t.mem ↔ t.count ≤ index.toNat := by
    rw [ge_iff_le, UInt32.le_iff_toNat_le]
    rfl
  have hfit : UInt32.ofNat (wrappedIndex index * 2 + 2) ≥ t.size / 4 ↔
      t.words ≤ (wrappedIndex index * 2 + 2) % 2 ^ 32 := by
    rw [ge_iff_le, UInt32.le_iff_toNat_le, words_div, UInt32.toNat_ofNat']
  unfold getSymAtRaw
  dsimp only
  simp only [Reader.run_ite, Reader.run_bind, hempty, hcount, h1, h2, hfit]
  by_cases ha : t.words < 1
  · rw [if_pos ha, if_pos (Or.inl ha)]
    rfl
  · rw [if_neg ha]
    by_cases hb : t.count ≤ index.toNat
    · rw [if_pos hb, if_pos (Or.inr (Or.inl hb))]
      rfl
    · rw [if_neg hb]
      by_cases hc : t.words ≤ (wrappedIndex index * 2 + 2) % 2 ^ 32
      · rw [if_pos hc, if_pos (Or.inr (Or.inr (Or.inl hc)))]
        rfl
      · rw [if_neg hc]
        change (if index = 0 ∧ t.type (wrappedIndex index) ≠ symTypeModuleName then none
          else if t.Named (wrappedIndex index) then
            if t.nameOff (wrappedIndex index) ≥ t.size then none else some _
          else some _) = _
        by_cases hd : index = 0 ∧ t.type (wrappedIndex index) ≠ symTypeModuleName
        · rw [if_pos hd, if_pos (Or.inr (Or.inr (Or.inr (Or.inl hd))))]
        · rw [if_neg hd]
          unfold entry
          by_cases hn : t.Named (wrappedIndex index)
          · rw [if_pos hn, if_pos hn]
            by_cases ho : t.size ≤ t.nameOff (wrappedIndex index)
            · rw [if_pos ho, if_pos (Or.inr (Or.inr (Or.inr (Or.inr ⟨hn, ho⟩))))]
            · rw [if_neg ho, if_neg (by
                rintro (h | h | h | h | h)
                · exact ha h
                · exact hb h
                · exact hc h
                · exact hd h
                · exact ho h.2)]
              rfl
          · rw [if_neg hn, if_neg hn, if_neg (by
              rintro (h | h | h | h | h)
              · exact ha h
              · exact hb h
              · exact hc h
              · exact hd h
              · exact hn h.1)]
            rfl

/-- What the reader looks at: the count, and the two words of the entry. -/
theorem within_getSymAtRaw_wrapped {P : Addr → Prop} :
    (getSymAtRaw t.base index t.size).Within P t.mem ↔
      (0 < t.words → Covers P ⟨t.base, 4⟩ ∧
        (index.toNat < t.count → (wrappedIndex index * 2 + 2) % 2 ^ 32 < t.words →
          Covers P ⟨t.base + UInt32.ofNat (wrappedIndex index * 2 + 1) * 4, 4⟩ ∧
          Covers P ⟨t.base + UInt32.ofNat (wrappedIndex index * 2 + 2) * 4, 4⟩)) := by
  have h1 : index * 2 + 1 = UInt32.ofNat (wrappedIndex index * 2 + 1) := double_succ index 1
  have h2 : index * 2 + 2 = UInt32.ofNat (wrappedIndex index * 2 + 2) := double_succ index 2
  have hempty : t.size / 4 < 1 ↔ t.words < 1 := by
    rw [UInt32.lt_iff_toNat_lt, words_div]
    rfl
  have hcount : index ≥ (symtWord t.base 0).run t.mem ↔ t.count ≤ index.toNat := by
    rw [ge_iff_le, UInt32.le_iff_toNat_le]
    rfl
  have hfit : UInt32.ofNat (wrappedIndex index * 2 + 2) ≥ t.size / 4 ↔
      t.words ≤ (wrappedIndex index * 2 + 2) % 2 ^ 32 := by
    rw [ge_iff_le, UInt32.le_iff_toNat_le, words_div, UInt32.toNat_ofNat']
  have hword : ∀ i : UInt32,
      (symtWord t.base i).Within P t.mem ↔ Covers P ⟨t.base + i * 4, 4⟩ := fun i =>
    Reader.within_u32
  have hzero : t.base + 0 * 4 = t.base := by rw [UInt32.zero_mul, UInt32.add_zero]
  unfold getSymAtRaw
  dsimp only
  by_cases ha : t.words < 1
  · rw [if_pos (hempty.mpr ha)]
    exact iff_of_true (Reader.within_pure P _ _) fun h => absurd h (by omega)
  · rw [if_neg (mt hempty.mp ha), Reader.within_bind, hword, hzero]
    have hpos : 0 < t.words := by omega
    by_cases hb : t.count ≤ index.toNat
    · rw [if_pos (hcount.mpr hb)]
      exact ⟨fun h _ => ⟨h.1, fun hlt => absurd hlt (by omega)⟩,
        fun h => ⟨(h hpos).1, Reader.within_pure P _ _⟩⟩
    · rw [if_neg (mt hcount.mp hb), h1, h2]
      by_cases hc : t.words ≤ (wrappedIndex index * 2 + 2) % 2 ^ 32
      · rw [if_pos (hfit.mpr hc)]
        exact ⟨fun h _ => ⟨h.1, fun _ hlt => absurd hlt (by omega)⟩,
          fun h => ⟨(h hpos).1, Reader.within_pure P _ _⟩⟩
      · rw [if_neg (mt hfit.mp hc), Reader.within_bind, Reader.within_bind, hword, hword]
        constructor
        · rintro ⟨hw, hi, hv, -⟩ -
          exact ⟨hw, fun _ _ => ⟨hi, hv⟩⟩
        · intro h
          obtain ⟨hw, hrest⟩ := h hpos
          obtain ⟨hi, hv⟩ := hrest (by omega) (by omega)
          refine ⟨hw, hi, hv, Reader.within_ite (fun _ => Reader.within_pure P _ _) fun _ =>
            Reader.within_ite (fun _ => Reader.within_ite (fun _ => Reader.within_pure P _ _)
              fun _ => Reader.within_pure P _ _) fun _ => Reader.within_pure P _ _⟩

theorem word_inside {i : Nat} (hi : i < t.words) :
    Covers (· ∈ t.span) ⟨t.base + UInt32.ofNat i * 4, 4⟩ := by
  have hlt := t.size.toNat_lt
  unfold words at hi
  have h4 : UInt32.ofNat i * 4 = UInt32.ofNat (i * 4) := by
    rw [UInt32.ofNat_mul]
    rfl
  rw [h4]
  exact off_subset (by omega) (by omega)

/-- The word in front of the table is not in it. -/
theorem not_word_before : ¬ Covers (· ∈ t.span) ⟨t.base + UInt32.ofNat (2 ^ 32 - 1) * 4, 4⟩ := by
  intro h
  have hlt := t.size.toNat_lt
  have hmem : t.base + UInt32.ofNat (2 ^ 32 - 1) * 4 + UInt32.ofNat 3 ∈
      (⟨t.base + UInt32.ofNat (2 ^ 32 - 1) * 4, 4⟩ : Span) := off_mem (by decide) (by decide)
  have hin := h _ hmem
  have hd : t.base + UInt32.ofNat (2 ^ 32 - 1) * 4 + UInt32.ofNat 3 - t.base = 0xFFFFFFFF := by
    rw [UInt32.add_assoc, off_sub]
    decide
  rw [span, Span.mem_def, hd, show (0xFFFFFFFF : UInt32).toNat = 2 ^ 32 - 1 from rfl] at hin
  dsimp only at hin
  omega

/-! ## One index of a reader -/

theorem nameInside_entry {i : Nat} (h : t.NameInside (t.entry i).name) (hn : t.Named i) :
    t.Terminated i := by
  unfold entry NameInside at h
  rw [if_pos hn] at h
  obtain ⟨s, hs, hlt⟩ := h
  rw [off_sub] at hlt
  exact ⟨s, hs, hlt⟩

theorem nameInside_of_terminated {i : Nat} (h : t.Named i → t.Terminated i) :
    t.NameInside (t.entry i).name := by
  unfold entry
  by_cases hn : t.Named i
  · obtain ⟨s, hs, hlt⟩ := h hn
    rw [if_pos hn]
    refine ⟨s, hs, ?_⟩
    rw [off_sub]
    exact hlt
  · rw [if_neg hn]
    trivial

theorem lt_bounded : index < (boundedSymCount t.base t.size).run t.mem ↔
    index.toNat < t.readable := by
  rw [UInt32.lt_iff_toNat_lt, boundedSymCount_run]

/-- An index that does not wrap. -/
theorem getSymAtRaw_right_near (hi : index.toNat < 2 ^ 31 - 1) :
    t.ReaderRight index ((getSymAtRaw t.base index t.size).run t.mem)
        ((getSymAtRaw t.base index t.size).reads t.mem) ↔
      (index.toNat < t.count → 0 < t.words → index.toNat < t.readable →
        (index = 0 → t.type 0 = symTypeModuleName) → t.Named index.toNat →
        t.nameOff index.toNat < t.size → t.Terminated index.toNat) := by
  have hw : wrappedIndex index = index.toNat := wrappedIndex_of_lt (by omega)
  have hrun := @getSymAtRaw_wrapped t index
  have hmod : (index.toNat * 2 + 2) % 2 ^ 32 = index.toNat * 2 + 2 := Nat.mod_eq_of_lt (by omega)
  have hzero : index = 0 → index.toNat = 0 := fun h => by rw [h]; rfl
  have hread : index.toNat < t.readable ↔
      0 < t.words ∧ index.toNat < t.count ∧ index.toNat * 2 + 2 < t.words := by
    unfold readable
    omega
  rw [hw, hmod] at hrun
  constructor
  · intro h hcount hwords hr hname hn hoff
    rw [if_neg] at hrun
    · exact nameInside_entry (h.returned _ hrun).2 hn
    · rintro (hx | hx | hx | hx | hx)
      · omega
      · omega
      · omega
      · rw [hzero hx.1] at hx
        exact hx.2 (hname hx.1)
      · exact absurd hoff (UInt32.not_lt.mpr hx.2)
  · intro h
    refine ⟨fun sym hs => ?_, ?_, fun hr hname hterm => ?_⟩
    · rw [hrun] at hs
      split at hs
      · cases hs
      · rename_i hno
        simp only [not_or, not_and, Nat.not_le, Nat.not_lt, UInt32.not_le] at hno
        obtain ⟨h1, h2, h3, h4, h5⟩ := hno
        obtain rfl := Option.some.inj hs
        have hr : index.toNat < t.readable := hread.mpr ⟨by omega, h2, h3⟩
        refine ⟨lt_bounded.mpr hr, nameInside_of_terminated fun hn => ?_⟩
        refine h h2 (by omega) hr (fun h0 => ?_) hn (h5 hn)
        have h4' := not_not.mp (h4 h0)
        rwa [hzero h0] at h4'
    · refine within_getSymAtRaw_wrapped.mpr fun hwords => ⟨?_, fun hcount hfit => ?_⟩
      · have h0 := @word_inside t 0 hwords
        rwa [show UInt32.ofNat 0 * 4 = 0 from rfl, UInt32.add_zero] at h0
      · rw [hw, hmod] at hfit
        rw [hw]
        exact ⟨word_inside (by omega), word_inside hfit⟩
    · have hr' := lt_bounded.mp hr
      obtain ⟨hwords, hcount, hfit⟩ := hread.mp hr'
      rw [hrun, if_neg]
      · rfl
      · rintro (hx | hx | hx | hx | hx)
        · omega
        · omega
        · omega
        · rw [hzero hx.1] at hx
          exact hx.2 (hname hx.1)
        · obtain ⟨s, -, hlt⟩ := hterm hx.1
          have hle := UInt32.le_iff_toNat_le.mp hx.2
          omega

/-- An index that wraps is never below the count. -/
theorem getSymAtRaw_right_far (hi : ¬ index.toNat < 2 ^ 31 - 1) :
    t.ReaderRight index ((getSymAtRaw t.base index t.size).run t.mem)
        ((getSymAtRaw t.base index t.size).reads t.mem) ↔
      (index.toNat < t.count → 0 < t.words → wrappedIndex index ≠ 2 ^ 31 - 1 ∧
        (t.words ≤ wrappedIndex index * 2 + 2 ∨
          t.Named (wrappedIndex index) ∧ t.size ≤ t.nameOff (wrappedIndex index))) := by
  have hrun := @getSymAtRaw_wrapped t index
  have hr := t.readable_lt
  have hw := t.words_lt
  have hn0 : ¬ index = 0 := by
    rintro rfl
    exact hi (by decide)
  have hout : ¬ index < (boundedSymCount t.base t.size).run t.mem := by
    rw [lt_bounded]
    omega
  have hlt : wrappedIndex index < 2 ^ 31 := Nat.mod_lt _ (by decide)
  constructor
  · intro h hcount hwords
    have hlast : wrappedIndex index ≠ 2 ^ 31 - 1 := by
      intro he
      obtain ⟨-, hrest⟩ := within_getSymAtRaw_wrapped.mp h.inside hwords
      have hcov := (hrest hcount (by rw [he]; omega)).1
      rw [he, show (2 ^ 31 - 1) * 2 + 1 = 2 ^ 32 - 1 by decide] at hcov
      exact not_word_before hcov
    refine ⟨hlast, ?_⟩
    by_contra hno
    rw [not_or] at hno
    have hmod : (wrappedIndex index * 2 + 2) % 2 ^ 32 = wrappedIndex index * 2 + 2 :=
      Nat.mod_eq_of_lt (by omega)
    rw [if_neg] at hrun
    · exact hout (h.returned _ hrun).1
    · rw [hmod]
      rintro (hx | hx | hx | hx | hx)
      · omega
      · omega
      · exact hno.1 hx
      · exact hn0 hx.1
      · exact hno.2 hx
  · intro h
    have hnone : (getSymAtRaw t.base index t.size).run t.mem = none := by
      rw [hrun]
      refine if_pos ?_
      by_cases hwords : t.words < 1
      · exact Or.inl hwords
      · by_cases hcount : t.count ≤ index.toNat
        · exact Or.inr (Or.inl hcount)
        · obtain ⟨hlast, hx | hx⟩ := h (by omega) (by omega)
          · rw [Nat.mod_eq_of_lt (a := wrappedIndex index * 2 + 2) (by omega)]
            exact Or.inr (Or.inr (Or.inl hx))
          · exact Or.inr (Or.inr (Or.inr (Or.inr hx)))
    refine ⟨fun sym hs => ?_, ?_, fun hc => absurd hc hout⟩
    · rw [hnone] at hs
      cases hs
    · refine within_getSymAtRaw_wrapped.mpr fun hwords => ⟨?_, fun hcount hfit => ?_⟩
      · have h0 := @word_inside t 0 hwords
        rwa [show UInt32.ofNat 0 * 4 = 0 from rfl, UInt32.add_zero] at h0
      · obtain ⟨hlast, -⟩ := h hcount hwords
        rw [Nat.mod_eq_of_lt (a := wrappedIndex index * 2 + 2) (by omega)] at hfit
        exact ⟨word_inside (by omega), word_inside hfit⟩

theorem getSymAtRaw_right : t.ReaderRight index ((getSymAtRaw t.base index t.size).run t.mem)
    ((getSymAtRaw t.base index t.size).reads t.mem) ↔ t.IndexClear index := by
  unfold IndexClear
  by_cases hi : index.toNat < 2 ^ 31 - 1
  · simp only [if_pos hi]
    exact getSymAtRaw_right_near hi
  · simp only [if_neg hi]
    exact getSymAtRaw_right_far hi

/-- Only the result and its name count. -/
theorem ReaderRight.congr {x y : Option Sym} {reads : List Addr}
    (h : x.map Sym.name = y.map Sym.name) :
    t.ReaderRight index x reads ↔ t.ReaderRight index y reads := by
  have hone : ∀ {x y : Option Sym}, x.map Sym.name = y.map Sym.name →
      t.ReaderRight index x reads → t.ReaderRight index y reads := by
    intro x y h hx
    refine ⟨fun sym hs => ?_, hx.inside, fun hc hm hn => ?_⟩
    · subst hs
      obtain ⟨sym', hs', hname⟩ := Option.map_eq_some_iff.mp h
      rw [← hname]
      exact hx.returned sym' hs'
    · have hs := congrArg Option.isSome h
      rw [Option.isSome_map, Option.isSome_map] at hs
      rw [← hs]
      exact hx.complete hc hm hn
  exact ⟨hone h, hone h.symm⟩

end SymTable

/-! ## The three readers -/

def imageTable (m : Mem) (image : Image) : SymTable :=
  ⟨m, image.pSymtab, (decodeHeader m image.pHeader).symtSize⟩

def moduleTable (m : Mem) (mod : Module) : SymTable :=
  ⟨m, getSymTablePointer mod.pHeader (decodeHeader m mod.pHeader),
    (decodeHeader m mod.pHeader).symtSize⟩

theorem moduleGetSymbol_name {mod : Module} (h0 : mod.pHeader ≠ 0) (index : UInt32) (m : Mem) :
    ((moduleGetSymbol mod index).run m).map Sym.name =
      ((getSymAtRaw (moduleTable m mod).base index (moduleTable m mod).size).run m).map Sym.name := by
  have hrun : (getSymAt mod.pHeader index).run m =
      (getSymAtRaw (moduleTable m mod).base index (moduleTable m mod).size).run m := by
    rw [getSymAt, Reader.run_bind, readHeader_run]
    rfl
  unfold moduleGetSymbol
  rw [if_neg h0, Reader.run_bind, hrun]
  cases (getSymAtRaw (moduleTable m mod).base index (moduleTable m mod).size).run m with
  | none => rfl
  | some sym =>
    show some ((offsetSym mod sym).run m).name = some sym.name
    rw [offsetSym_name]

/-- Each of the three readers does what it should with an index exactly when the index is
clear in the table it reads; the entry words are those `get_sym_at_raw` reads. -/
theorem symbolReaders_right_iff (m : Mem) (image : Image) (mod : Module)
    (hi : image.pHeader ≠ 0 ∧ image.pSymtab ≠ 0) (hm : mod.pHeader ≠ 0) (t : SymTable)
    (index : UInt32) :
    (t.ReaderRight index ((getSymAtRaw t.base index t.size).run t.mem)
      ((getSymAtRaw t.base index t.size).reads t.mem) ↔ t.IndexClear index) ∧
    ((imageTable m image).ReaderRight index ((imageGetSymbol image index).run m)
      ((getSymAtRaw (imageTable m image).base index (imageTable m image).size).reads m) ↔
        (imageTable m image).IndexClear index) ∧
    ((moduleTable m mod).ReaderRight index ((moduleGetSymbol mod index).run m)
      ((getSymAtRaw (moduleTable m mod).base index (moduleTable m mod).size).reads m) ↔
        (moduleTable m mod).IndexClear index) := by
  refine ⟨SymTable.getSymAtRaw_right, ?_, ?_⟩
  · have himage : (imageGetSymbol image index).run m =
        (getSymAtRaw (imageTable m image).base index (imageTable m image).size).run m := by
      unfold imageGetSymbol
      rw [if_neg (by rintro (h | h); exacts [hi.1 h, hi.2 h]), Reader.run_bind, readHeader_run]
      rfl
    rw [himage]
    exact SymTable.getSymAtRaw_right
  · rw [SymTable.ReaderRight.congr (moduleGetSymbol_name hm index m)]
    exact SymTable.getSymAtRaw_right

/-! ## An entry with a name -/

/-- A module `m` with one function `f`. -/
def oneFunctionRom : Mem := .ofWords 0x1000
  [0x4D4C4455, 0x03010000, 0, 0, 24, 0, 0, 0, 2, 0x18000014, 0, 0x48000016, 8, 0x0066006D]

def oneFunctionTable : SymTable := ⟨oneFunctionRom, 0x1020, 24⟩

def oneFunctionImage : Image := ⟨0x1000, 0x1020, 0x1020, 0x1038, 0x1038⟩

def oneFunctionModule : Module := { Module.free with pHeader := 0x1000 }

theorem oneFunction_named : (imageTable oneFunctionRom oneFunctionImage) = oneFunctionTable ∧
    (moduleTable oneFunctionRom oneFunctionModule) = oneFunctionTable := by
  unfold imageTable moduleTable oneFunctionTable
  rw [show (decodeHeader oneFunctionRom oneFunctionImage.pHeader).symtSize = 24 by decide +kernel,
    show (decodeHeader oneFunctionRom oneFunctionModule.pHeader).symtSize = 24 by decide +kernel,
    show getSymTablePointer oneFunctionModule.pHeader
      (decodeHeader oneFunctionRom oneFunctionModule.pHeader) = 0x1020 by decide +kernel]
  exact ⟨rfl, rfl⟩

theorem oneFunction_clear : oneFunctionTable.IndexClear 1 := by
  intro _ _
  rw [if_pos (by decide)]
  intro _ _ _ _
  refine ⟨[0x66], ?_, by decide +kernel⟩
  unfold StrAt StrAt
  decide +kernel

/-- All three return `f`, and do it right. -/
theorem symbolReaders_right_oneFunction :
    (oneFunctionTable.ReaderRight 1
        ((getSymAtRaw oneFunctionTable.base 1 oneFunctionTable.size).run oneFunctionTable.mem)
        ((getSymAtRaw oneFunctionTable.base 1 oneFunctionTable.size).reads oneFunctionTable.mem) ∧
      (imageTable oneFunctionRom oneFunctionImage).ReaderRight 1
        ((imageGetSymbol oneFunctionImage 1).run oneFunctionRom)
        ((getSymAtRaw (imageTable oneFunctionRom oneFunctionImage).base 1
          (imageTable oneFunctionRom oneFunctionImage).size).reads oneFunctionRom) ∧
      (moduleTable oneFunctionRom oneFunctionModule).ReaderRight 1
        ((moduleGetSymbol oneFunctionModule 1).run oneFunctionRom)
        ((getSymAtRaw (moduleTable oneFunctionRom oneFunctionModule).base 1
          (moduleTable oneFunctionRom oneFunctionModule).size).reads oneFunctionRom)) ∧
    ((imageGetSymbol oneFunctionImage 1).run oneFunctionRom).map Sym.name =
      some (.pool 0x1036) ∧
    ((moduleGetSymbol oneFunctionModule 1).run oneFunctionRom).map Sym.name =
      some (.pool 0x1036) := by
  obtain ⟨himage, hmodule⟩ := oneFunction_named
  obtain ⟨h1, h2, h3⟩ := symbolReaders_right_iff oneFunctionRom oneFunctionImage oneFunctionModule
    ⟨by decide, by decide⟩ (by decide) oneFunctionTable 1
  refine ⟨⟨h1.mpr oneFunction_clear, h2.mpr ?_, h3.mpr ?_⟩, by decide +kernel, by decide +kernel⟩
  · rw [himage]
    exact oneFunction_clear
  · rw [hmodule]
    exact oneFunction_clear

/-! ## An index that wraps -/

/-- Two entries are claimed to be `2^32 - 1`; entry 0 is the name of the module. -/
def claimingTable : SymTable :=
  ⟨Mem.ofWords 0x1000 [0xFFFFFFFF, 0x18000014, 0, 0x08000014, 0x10, 0x41], 0x1000, 24⟩

/-- Index `2^31 + 1` is answered with entry 1. -/
theorem getSymAtRaw_wraps : ¬ claimingTable.ReaderRight 0x80000001
    ((getSymAtRaw claimingTable.base 0x80000001 claimingTable.size).run claimingTable.mem)
    ((getSymAtRaw claimingTable.base 0x80000001 claimingTable.size).reads claimingTable.mem) := by
  intro h
  have hrun : ((getSymAtRaw claimingTable.base 0x80000001 claimingTable.size).run
      claimingTable.mem).isSome = true := by decide +kernel
  obtain ⟨sym, hs⟩ := Option.isSome_iff_exists.mp hrun
  exact absurd (h.returned sym hs).1 (by decide +kernel)

end Udynlink
