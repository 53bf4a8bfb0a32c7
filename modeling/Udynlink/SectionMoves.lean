import Udynlink.BlockLayout
import Udynlink.SectionedHomes

/-!
# What a list of section moves promises

After a call that returns, every listed section is at its new base, its symbols
resolve there, and the words that pointed into it still do. A call whose main
block is the one the module is at returns at once and does none of this.
-/

namespace Udynlink

open Machine

/-! ## What a caller sees -/

/-- The table the readers of a module use. -/
def moduleView (w : State) : SectView := ((getSectab w.handle.pHeader false).run w.mem).2

def moduleHeader (w : State) : Header := decodeHeader w.mem w.handle.pHeader

def moduleSection (w : State) (idx : Nat) : SectEntry := entriesAt w.mem (moduleView w).pEntries idx

def sectionBase (w : State) (idx : Nat) : Addr := (udynlinkGetSectionBase w.handle idx).run w.mem

/-- Entry `k` of the relocation table a module keeps. -/
def moduleEntry (w : State) (k : Nat) : UInt32 × UInt32 :=
  (readRelocation (getRelocsPointer w.handle.pHeader (moduleHeader w)) k).run w.mem

/-- The word entry `k` names, where the module is. -/
def entrySlot (w : State) (k : Nat) : Addr :=
  (getRelocTarget w.handle (moduleView w) (moduleEntry w k).1).run w.mem

/-- Entry `k` is for a pointer into section `idx`: a base, or a symbol of the module
that lies there, `off` behind its start. -/
def EntryPoints (w : State) (idx k : Nat) (off : UInt32) : Prop :=
  isBaseRelocation (moduleEntry w k).2 = true ∨
    isBaseRelocation (moduleEntry w k).2 = false ∧
      ∃ sym, (getSymAt w.handle.pHeader (moduleEntry w k).2).run w.mem = some sym ∧
        isOwnSymbol sym ∧ (sectFindByVa (moduleView w) sym.val).run w.mem = some idx ∧
        off = sym.val - (moduleSection w idx).va

/-- The word of entry `k` is the pointer the loader has stored there, `off` into
section `idx`. -/
structure FreshPointer (w : State) (idx k : Nat) (off : UInt32) : Prop where
  entry : k < (moduleHeader w).numRels.toNat
  slot : entrySlot w k ≠ 0
  points : EntryPoints w idx k off
  inside : off < (moduleSection w idx).size
  word : w.mem.u32 (entrySlot w k) = sectionBase w idx + off

/-- A move has taken effect between `w` and `w'`. -/
structure MoveTaken (w w' : State) (mv : SectionMove) : Prop where
  base : sectionBase w' mv.idx.toNat = mv.newBase
  symbols : ∀ sym, isOwnSymbol sym →
    (sectFindByVa (moduleView w') sym.val).run w'.mem = some mv.idx.toNat →
      ((offsetSym w'.handle sym).run w'.mem).val =
        mv.newBase + (sym.val - (moduleSection w' mv.idx.toNat).va)
  pointers : ∀ k off, FreshPointer w mv.idx.toNat k off →
    w'.mem.u32 (entrySlot w' k) = mv.newBase + off

/-- The host has copied every listed section to its new base. -/
def Populated (w : State) (moves : List SectionMove) : Prop :=
  ∀ mv ∈ moves, ∀ i, i < (moduleSection w mv.idx.toNat).size.toNat →
    w.mem (mv.newBase + UInt32.ofNat i) = w.mem (sectionBase w mv.idx.toNat + UInt32.ofNat i)

namespace SectionedImage

variable {u : SectionedImage} {secs : Nat → Addr} {p q : Addr} {w w' : State} {idx k : Nat}
  {off : UInt32} {moves : List SectionMove} {mod : Module} {m : Mem} {newRam : Addr}

section

variable (h : u.Placed secs p w.handle w.mem) (hf : u.Fits)

include h hf

theorem Placed.moduleView_eq : moduleView w = sectView w.handle.pHeader u.header := by
  rw [moduleView, h.getSectab_run hf]

theorem Placed.moduleHeader_eq : moduleHeader w = u.header := h.header hf

theorem Placed.moduleSection_eq (hi : idx < u.num) : moduleSection w idx = u.es idx := by
  rw [moduleSection, h.moduleView_eq hf]
  exact h.entries hf hi

theorem Placed.moduleEntry_eq (hk : k < u.header.numRels.toNat) :
    moduleEntry w k = (readRelocation u.source.pRelocations k).run u.m := by
  rw [moduleEntry, h.moduleHeader_eq hf]
  exact h.entry hf hk

theorem Placed.find_eq (va : UInt32) : (sectFindByVa (moduleView w) va).run w.mem =
    (sectFindByVa u.tab va).run u.m := by
  rw [h.moduleView_eq hf]
  exact @sectFindByVa_entries (sectView w.handle.pHeader u.header) u.tab w.mem u.m rfl
    (fun i hi => h.entries hf hi) va

theorem Placed.entrySlot_eq (hk : k < u.header.numRels.toNat) :
    entrySlot w k = (getRelocTarget w.handle (sectView w.handle.pHeader u.header)
      ((readRelocation u.source.pRelocations k).run u.m).1).run w.mem := by
  rw [entrySlot, h.moduleView_eq hf, h.moduleEntry_eq hf hk]

/-- A tagged section is where the block has its base recorded. -/
theorem Placed.sectionBase_eq (hp : p ≠ 0) (hhead : w.handle.pHeader ≠ 0) (h3 : 3 ≤ idx)
    (hi : idx < u.num) : sectionBase w idx = w.mem.u32 (baseWord u.header p idx) := by
  rw [sectionBase, h.sectionBase_run hf hi, if_neg hhead, getSectionBaseIdx, if_neg (by omega),
    h.pRam, if_neg hp, Reader.run_bind, readHeader_run, h.header hf, baseSlot_eq, h.pRam]
  rfl

/-- A symbol resolves into the section that answers for its VA. -/
theorem Placed.offsetSym_val {sym : Sym} (hhead : w.handle.pHeader ≠ 0) (hown : isOwnSymbol sym)
    (hfind : (sectFindByVa (moduleView w) sym.val).run w.mem = some idx) :
    ((offsetSym w.handle sym).run w.mem).val =
      sectionBase w idx + (sym.val - (moduleSection w idx).va) := by
  have hi : idx < u.num := by
    rw [h.find_eq hf] at hfind
    exact sectFindByVa_lt hfind
  have hsec := hf.table.sectioned
  rw [h.moduleView_eq hf] at hfind
  rw [offsetSym, if_pos hown, Reader.run_bind, readHeader_run, h.header hf, if_pos hsec,
    Reader.run_bind, h.getSectab_run hf]
  dsimp only
  rw [if_pos rfl, Reader.run_bind, resolveRuntimeVa, Reader.run_bind, hfind]
  dsimp only
  rw [Reader.run_bind, sectEntryAt_run, Reader.run_bind, Reader.run_pure, Reader.run_pure,
    Option.getD_some, sectionBase, h.sectionBase_run hf hi, if_neg hhead, moduleSection,
    h.moduleView_eq hf]

end

/-! ## A pointer on the walk -/

/-- The blocks of a section, as C has them: one ends in the address space, and
none is where the text is run in place. -/
structure Grounded (u : SectionedImage) (secs : Nat → Addr) (idx : Nat) : Prop where
  fits : (secs idx).toNat + (u.es idx).size.toNat ≤ 2 ^ 32
  text : u.mode = .xip → Span.Disjoint
    ⟨u.pHeader + getCodeOffsetFromHeader u.header, (u.es 0).size.toNat⟩
    ⟨secs idx, (u.es idx).size.toNat⟩

/-- Where a section in RAM starts. -/
def sectBase (u : SectionedImage) (secs : Nat → Addr) (p : Addr) (idx : Nat) : Addr :=
  if idx < 3 then mainDest u.header u.num u.es u.mode p idx else secs idx

theorem sectBase_tagged (h3 : 3 ≤ idx) : u.sectBase secs p idx = secs idx :=
  if_neg (Nat.not_lt.mpr h3)

/-- A main section lies in the block. -/
theorem sectBase_subset (hf : u.Fits) (hfirst : firstPlaced u.mode ≤ idx) (h3 : idx < 3) :
    (⟨u.sectBase secs p idx, (u.es idx).size.toNat⟩ : Span) ⊆ ⟨p, u.ram⟩ := by
  rw [sectBase, if_pos h3]
  exact off_subset (hf.main_le_ram hfirst h3) (Nat.le_of_lt hf.ram)

/-- No two sections in RAM share a byte. -/
theorem sectBase_disjoint {j : Nat} (hf : u.Fits) (hroom : TaggedRoom u.es secs u.num ⟨p, u.ram⟩)
    (hfirst : firstPlaced u.mode ≤ j) (hj : j < idx) (hi : idx < u.num) (hnej : (u.es j).size ≠ 0)
    (hne : (u.es idx).size ≠ 0) :
    Span.Disjoint ⟨u.sectBase secs p j, (u.es j).size.toNat⟩
      ⟨u.sectBase secs p idx, (u.es idx).size.toNat⟩ := by
  have hram : u.ram < 2 ^ 32 := hf.ram
  by_cases h3 : 3 ≤ idx
  · by_cases hj3 : 3 ≤ j
    · rw [sectBase_tagged h3, sectBase_tagged hj3]
      exact hroom.pairwise j idx hj3 hj hi hnej hne
    · have hsub : (⟨u.sectBase secs p j, (u.es j).size.toNat⟩ : Span) ⊆ ⟨p, u.ram⟩ :=
        sectBase_subset hf hfirst (Nat.not_le.mp hj3)
      rw [sectBase_tagged h3]
      exact (hroom.block idx h3 hi hne).symm.mono hsub (Span.subset_refl _)
  · have hle : exactMainOffset u.header u.num u.es u.mode j + (u.es j).size.toNat ≤
        exactMainOffset u.header u.num u.es u.mode idx := by
      have hone := hf.main_le_succ hfirst (by omega)
      by_cases hnext : j + 1 = idx
      · rw [← hnext]
        exact hone
      · have htwo := hf.main_le_succ (i := j + 1) (by omega) (by omega)
        rw [show idx = j + 1 + 1 by omega]
        omega
    have hend := hf.main_le_ram (i := idx) (by omega) (by omega)
    rw [sectBase, sectBase, if_pos (by omega), if_pos (by omega)]
    exact off_disjoint hle (hend.trans (Nat.le_of_lt hram))

theorem movedBase_listed {mv : SectionMove} (hm : (moves.map SectionMove.idx).Nodup)
    (hmem : mv ∈ moves) : movedBase secs moves mv.idx.toNat = mv.newBase := by
  induction moves with
  | nil => exact absurd hmem List.not_mem_nil
  | cons mv' moves ih =>
    rw [List.map_cons, List.nodup_cons] at hm
    rw [movedBase, List.find?_cons]
    cases List.mem_cons.mp hmem with
    | inl he =>
      rw [he, beq_self_eq_true]
    | inr hin =>
      have hne : (mv'.idx.toNat == mv.idx.toNat) = false := by
        rw [beq_eq_false_iff_ne]
        intro he
        exact hm.1 (UInt32.toNat_inj.mp he ▸ List.mem_map_of_mem hin)
      rw [hne]
      exact ih hm.2 hin

section

variable {r : Addr}

/-- The old range of a section is found by its own addresses. -/
theorem find_runtime (hs : SectionedAt u.header u.es u.mode secs q mod (sectView r u.header) m)
    (hf : u.Fits) (hhead : u.mode = .xip → mod.pHeader = u.pHeader) (hp : p ≠ 0)
    (hq : 3 < u.num → q ≠ 0) (hroom : TaggedRoom u.es secs u.num ⟨p, u.ram⟩)
    (hend : (u.sectBase secs p idx).toNat + (u.es idx).size.toNat ≤ 2 ^ 32)
    (htext : u.mode = .xip → Span.Disjoint
      ⟨u.pHeader + getCodeOffsetFromHeader u.header, (u.es 0).size.toNat⟩
      ⟨u.sectBase secs p idx, (u.es idx).size.toNat⟩)
    (hfirst : firstPlaced u.mode ≤ idx) (hi : idx < u.num) (hoff : off < (u.es idx).size) :
    (sectFindByRuntime ⟨sectView r u.header, p, moves⟩ mod (u.sectBase secs p idx + off)).run m =
      some idx := by
  have hram : u.ram < 2 ^ 32 := hf.ram
  have hne : (u.es idx).size ≠ 0 := fun hz => by
    rw [hz] at hoff
    exact absurd hoff (UInt32.not_lt_zero)
  have hmem : u.sectBase secs p idx + off ∈
      (⟨u.sectBase secs p idx, (u.es idx).size.toNat⟩ : Span) := by
    rw [Span.mem_def, off_sub]
    exact UInt32.lt_iff_toNat_lt.mp hoff
  have hold : ∀ j, j < u.num → _ := fun j hj =>
    @SectionedAt.sectBaseOld_run ⟨sectView r u.header, p, moves⟩ u.header u.es u.mode secs q mod m j
      hs hf hj
  have hbase : ∀ j, j < u.num → firstPlaced u.mode ≤ j → (u.es j).size ≠ 0 →
      (sectBaseOld ⟨sectView r u.header, p, moves⟩ mod j).run m = u.sectBase secs p j :=
    fun j hj hfj hnej => by
      obtain ⟨hb3, hb1, -⟩ := hold j hj
      rw [sectBase]
      split
      next h3 => exact hb1 h3 hfj hp
      next h3 => exact hb3 (by omega) (hq (by omega)) hnej
  have hentry : ∀ j, j < u.num → entriesAt m (sectView r u.header).pEntries j = u.es j :=
    fun j hj => hs.entries j hj
  refine sectFindByRuntimeLoop_eq (Nat.zero_le _) (by
    rw [Nat.zero_add]
    exact hi) (fun j _ hj hx => ?_) ?_
  · have hjn : j < u.num := by omega
    dsimp only at hx
    rw [hentry j hjn] at hx
    have hin : u.sectBase secs p idx + off ∈
        (⟨(sectBaseOld ⟨sectView r u.header, p, moves⟩ mod j).run m, (u.es j).size.toNat⟩ : Span) :=
      UInt32.lt_iff_toNat_lt.mp hx.2
    have hnej : (u.es j).size ≠ 0 := fun hz => by
      rw [hz] at hin
      exact Span.not_mem_zero _ _ hin
    by_cases hfj : firstPlaced u.mode ≤ j
    · rw [hbase j hjn hfj hnej] at hin
      exact sectBase_disjoint hf hroom hfj hj hi hnej hne _ hin hmem
    · -- the text of a module that runs in place
      have hxip : u.mode = .xip := by
        by_contra hx'
        rw [firstPlaced, if_neg hx'] at hfj
        omega
      have hzero : j = 0 := by
        rw [firstPlaced, if_pos hxip] at hfj
        omega
      rw [(hold j hjn).2.2 hzero hxip, hhead hxip, hzero] at hin
      exact htext hxip _ hin hmem
  · dsimp only
    rw [hentry idx hi, hbase idx hi hfirst hne, off_sub]
    refine ⟨?_, hoff⟩
    have hlt := UInt32.lt_iff_toNat_lt.mp hoff
    rw [ge_iff_le, UInt32.le_iff_toNat_le, UInt32.toNat_add, Nat.mod_eq_of_lt (by omega)]
    omega

/-- The walk leaves the same offset behind the new base. -/
theorem rebase_pointer {symtOffset : UInt32} {sym? : Option Sym}
    (hs : SectionedAt u.header u.es u.mode secs q mod (sectView r u.header) m) (hf : u.Fits)
    (hhead : u.mode = .xip → mod.pHeader = u.pHeader) (hp : p ≠ 0) (hq : 3 < u.num → q ≠ 0)
    (hmoves : ∀ mv ∈ moves, 3 ≤ mv.idx.toNat) (hroom : TaggedRoom u.es secs u.num ⟨p, u.ram⟩)
    (hend : (u.sectBase secs p idx).toNat + (u.es idx).size.toNat ≤ 2 ^ 32)
    (htext : u.mode = .xip → Span.Disjoint
      ⟨u.pHeader + getCodeOffsetFromHeader u.header, (u.es 0).size.toNat⟩
      ⟨u.sectBase secs p idx, (u.es idx).size.toNat⟩)
    (hfirst : firstPlaced u.mode ≤ idx) (hi : idx < u.num) (hoff : off < (u.es idx).size)
    (hpoints : isBaseRelocation symtOffset = true ∨ isBaseRelocation symtOffset = false ∧
      ∃ sym, sym? = some sym ∧ isOwnSymbol sym ∧
        (sectFindByVa u.tab sym.val).run u.m = some idx ∧ off = sym.val - (u.es idx).va) :
    rebaseSectionedWord ⟨sectView r u.header, p, moves⟩ mod m symtOffset sym?
        (u.sectBase secs p idx + off) =
      some (u.sectBase (movedBase secs moves) q idx + off) := by
  have hne : (u.es idx).size ≠ 0 := fun hz => by
    rw [hz] at hoff
    exact absurd hoff (UInt32.not_lt_zero)
  have hold : (sectBaseOld ⟨sectView r u.header, p, moves⟩ mod idx).run m = u.sectBase secs p idx := by
    obtain ⟨hb3, hb1, -⟩ := @SectionedAt.sectBaseOld_run ⟨sectView r u.header, p, moves⟩ u.header u.es
      u.mode secs q mod m idx hs hf hi
    rw [sectBase]
    split
    next h3 => exact hb1 h3 hfirst hp
    next h3 => exact hb3 (by omega) (hq (by omega)) hne
  have hnew : (sectBaseNew ⟨sectView r u.header, p, moves⟩ mod idx).run m =
      u.sectBase (movedBase secs moves) q idx := by
    obtain ⟨hb1, hb3⟩ := @SectionedAt.sectBaseNew_run u.header u.es u.mode secs q mod
      ⟨sectView r u.header, p, moves⟩ m idx hs hf hmoves hi hfirst
    rw [sectBase]
    split
    next h3 => exact hb1 h3
    next h3 => exact hb3 (by omega) (hq (by omega)) hne
  unfold rebaseSectionedWord
  rcases hpoints with hb | ⟨hb, sym, hsym, hown, hfind, hval⟩
  · rw [if_pos hb, find_runtime hs hf hhead hp hq hroom hend htext hfirst hi hoff, Option.map_some,
      hnew, hold]
    refine congrArg some ?_
    abel
  · have hview := @sectFindByVa_entries (sectView r u.header) u.tab m u.m rfl
      (fun i hi => hs.entries i hi) sym.val
    rw [if_neg (by rw [hb]; exact Bool.false_ne_true), hsym]
    dsimp only
    unfold rebaseSectionedSymWord
    rw [if_pos hown, hview, hfind]
    dsimp only
    rw [hs.entries idx hi, hold, hnew, ← hval]
    exact if_neg fun hx => hx.2 rfl

end

/-! ## A move that is made -/

theorem populated_carried (h : u.Placed secs p w.handle w.mem) (hf : u.Fits) (hp : 3 < u.num → p ≠ 0)
    (hhead : w.handle.pHeader ≠ 0) (hpop : Populated w moves) :
    u.Carried secs (movedBase secs moves) w.mem := by
  intro j h3 hj i hi
  rw [movedBase]
  cases hfind : moves.find? fun mv => mv.idx.toNat == j with
  | none => rfl
  | some mv =>
    have hidx := List.find?_some hfind
    rw [beq_iff_eq] at hidx
    have hne : (u.es j).size ≠ 0 := fun hz => by
      rw [hz] at hi
      exact absurd hi (Nat.not_lt_zero _)
    have hone := hpop mv (List.mem_of_find?_eq_some hfind)
    rw [hidx, h.moduleSection_eq hf hj, h.sectionBase_eq hf (hp (by omega)) hhead h3 hj,
      h.bases j h3 hj hne] at hone
    exact hone i hi

/-- The header a module is left with is no null pointer. -/
theorem Placed.head_ne {secs' : Nat → Addr} {mod' : Module} {m' : Mem}
    (h : u.Placed secs p mod m) (h' : u.Placed secs' q mod' m') (hf : u.Fits) (hq : q ≠ 0)
    (hend : q.toNat + u.ram ≤ 2 ^ 32) (hhead : mod.pHeader ≠ 0) : mod'.pHeader ≠ 0 := by
  have hlt := hf.table.exactCodeOffset_lt
  have hnum := hf.main
  have hcount := hf.table.count
  have hsize := header_le_codeOffset (h := u.header) (by omega)
  have hstart : exactStart u.header u.num u.mode ≤ u.ram := hf.start_le_ram
  have hold := h.pHeader
  have hnew := h'.pHeader
  by_cases hm : u.mode = .copyAll
  · rw [if_pos hm] at hnew
    rw [exactStart, if_pos hm] at hstart
    have hpos : 0 < q.toNat := Nat.pos_of_ne_zero fun hz => hq (UInt32.toNat_inj.mp hz)
    rw [hnew, metadataAddr]
    intro hz
    have hnat := congrArg UInt32.toNat hz
    rw [UInt32.toNat_add, toNat_ofNat_of_lt (by omega), Nat.mod_eq_of_lt (by omega)] at hnat
    have h0 : (0 : UInt32).toNat = 0 := rfl
    omega
  · rw [if_neg hm] at hold hnew
    rw [hnew, ← hold]
    exact hhead

/-- Entry `k` for a pointer into a section stores a word. -/
theorem Placed.points_writes (h : u.Placed secs p w.handle w.mem) (hf : u.Fits)
    (hk : k < u.header.numRels.toNat) (hpt : EntryPoints w idx k off) :
    entryWrites u.source u.m k = true := by
  rw [EntryPoints, h.moduleEntry_eq hf hk] at hpt
  rw [entryWrites]
  rcases hpt with hb | ⟨hb, sym, hsym, hown, -, -⟩
  · rw [hb, Bool.true_or]
  · rw [h.sym hf (isBaseRelocation_eq_false hb)] at hsym
    obtain ⟨s, hs, hshift⟩ := Option.map_eq_some_iff.mp hsym
    rw [hs, hb, Bool.false_or]
    show writesSym s = true
    have htype : sym.type = s.type := by rw [← hshift]; rfl
    rw [isOwnSymbol, htype] at hown
    rw [writesSym]
    exact decide_eq_true (by tauto)

/-- The symbol of an entry is the same at the new place. -/
theorem Placed.points_moved {secs' : Nat → Addr} {mod' : Module} {m' : Mem}
    (h : u.Placed secs p w.handle w.mem) (h' : u.Placed secs' q mod' m') (hf : u.Fits)
    (hk : k < u.header.numRels.toNat) (hi : idx < u.num) (hpt : EntryPoints w idx k off) :
    isBaseRelocation ((readRelocation u.source.pRelocations k).run u.m).2 = true ∨
      isBaseRelocation ((readRelocation u.source.pRelocations k).run u.m).2 = false ∧
        ∃ sym, (getSymAt mod'.pHeader ((readRelocation u.source.pRelocations k).run u.m).2).run m' =
            some sym ∧ isOwnSymbol sym ∧ (sectFindByVa u.tab sym.val).run u.m = some idx ∧
          off = sym.val - (u.es idx).va := by
  rw [EntryPoints, h.moduleEntry_eq hf hk, h.moduleSection_eq hf hi] at hpt
  rcases hpt with hb | ⟨hb, sym, hsym, hown, hfind, hval⟩
  · exact Or.inl hb
  · rw [h.sym hf (isBaseRelocation_eq_false hb)] at hsym
    rw [h.find_eq hf] at hfind
    obtain ⟨s, hs, hshift⟩ := Option.map_eq_some_iff.mp hsym
    refine Or.inr ⟨hb, s.shift (mod'.pHeader - u.pHeader), ?_, ?_, ?_, ?_⟩
    · rw [h'.sym hf (isBaseRelocation_eq_false hb), hs, Option.map_some]
    · rw [← hshift] at hown
      exact hown
    · rw [← hshift] at hfind
      exact hfind
    · rw [hval, ← hshift]
      rfl

/-- Every listed section of a move that is made has moved. -/
theorem MovedTo.taken (hmv : u.MovedTo secs p moves q newRam w w')
    (h : u.Placed secs p w.handle w.mem) (hf : u.Fits) (hc : u.Contained) (hm : u.MovesOk moves)
    (hp : 3 < u.num → p ≠ 0) (hq : q ≠ 0) (hhead : w.handle.pHeader ≠ 0)
    (hend : q.toNat + u.ram ≤ 2 ^ 32) (hroom : TaggedRoom u.es secs u.num ⟨p, u.ram⟩)
    (hfm : u.FairMove secs p moves q) (hlone : u.LoneTargets)
    (hground : ∀ mv ∈ moves, u.Grounded secs mv.idx.toNat) (hpop : Populated w moves) :
    ∀ mv ∈ moves, MoveTaken w w' mv := by
  intro mv hmem
  obtain ⟨h3, hi⟩ := hm.tagged mv hmem
  have hp0 : p ≠ 0 := hp (by omega)
  have hnew := hmv.placed
  have hhead' : w'.handle.pHeader ≠ 0 := h.head_ne hnew hf hq hend hhead
  have hbase : sectionBase w' mv.idx.toNat = mv.newBase := by
    rw [hnew.sectionBase_eq hf hq hhead' h3 hi, hmv.mem]
    exact Blit.applyAll_word (publishBlits_pairwise hf hm) (List.mem_map_of_mem hmem) _
  refine ⟨hbase, fun sym hown hfind => ?_, fun k off hfresh => ?_⟩
  · rw [hnew.offsetSym_val hf hhead' hown hfind, hbase]
  · have hk : k < u.header.numRels.toNat := by
      rw [← h.moduleHeader_eq hf]
      exact hfresh.entry
    have hsize : off < (u.es mv.idx.toNat).size := by
      rw [← h.moduleSection_eq hf hi]
      exact hfresh.inside
    have hne : (u.es mv.idx.toNat).size ≠ 0 := fun hz => by
      rw [hz] at hsize
      exact absurd hsize UInt32.not_lt_zero
    have hw := h.points_writes hf hk hfresh.points
    have hslot := hfresh.slot
    rw [h.entrySlot_eq hf hk] at hslot
    have hsect : ¬ ((readRelocation u.source.pRelocations k).run u.m).1 < u.header.numLot.toUInt32 →
        _ := fun hl => h.target_section hf hl hslot
    -- the word before the move, and where it is behind it
    have hword := hfresh.word
    rw [h.entrySlot_eq hf hk, h.target_addr hf hp (fun _ => hp0) hsect (hc k hk hw),
      h.sectionBase_eq hf hp0 hhead h3 hi, h.bases _ h3 hi hne] at hword
    have hmoved := hmv.entry_word h hf hc hm (fun _ => hq) hfm hlone
      (populated_carried h hf hp hhead hpop) hk hw hsect
    rw [hnew.entrySlot_eq hf hk, hnew.target_addr hf (fun _ => hq) (fun _ => hq) hsect (hc k hk hw)]
    dsimp only at hmoved
    rw [hword] at hmoved
    -- the value the walk stores
    have hcop := h.copied hf hfm newRam
    rw [← hmv.handle] at hcop
    have hat : SectionedAt u.header u.es u.mode secs q w'.handle
        (sectView w.handle.pHeader u.header) (w.mem.copy q p u.ram) :=
      ⟨hcop.pRam, hcop.mode, hcop.header hf, fun i hi => h.old_entries hf hfm hi, hcop.bases⟩
    have hxip : u.mode = .xip → w'.handle.pHeader = u.pHeader := fun hx => by
      rw [hcop.pHeader, hx, if_neg (by decide)]
    have hvalue := rebase_pointer hat hf hxip hp0 (fun _ => hq)
      (fun mv' hmv' => (hm.tagged mv' hmv').1) hroom (by
        rw [sectBase_tagged h3]
        exact (hground mv hmem).fits) (fun hx => by
        rw [sectBase_tagged h3]
        exact (hground mv hmem).text hx) (by have := firstPlaced_le u.mode; omega) hi hsize
      (h.points_moved hcop hf hk hi hfresh.points)
    rw [sectBase_tagged h3, sectBase_tagged h3, movedBase_listed hm.distinct hmem] at hvalue
    rw [hvalue, Option.getD_some] at hmoved
    exact hmoved

/-- A call that changes nothing has moved the sections that were there before. -/
theorem Placed.stays (h : u.Placed secs p w.handle w.mem) (hf : u.Fits)
    (hhead : w.handle.pHeader ≠ 0) (hmem : w'.mem = w.mem) (hhandle : w'.handle = w.handle)
    {mv : SectionMove} (hat : sectionBase w mv.idx.toNat = mv.newBase) : MoveTaken w w' mv := by
  have hview : moduleView w' = moduleView w := by rw [moduleView, moduleView, hmem, hhandle]
  have hsame : ∀ idx, moduleSection w' idx = moduleSection w idx := fun idx => by
    rw [moduleSection, moduleSection, hmem, hview]
  have hslot : ∀ k, entrySlot w' k = entrySlot w k := fun k => by
    rw [entrySlot, entrySlot, moduleEntry, moduleEntry, moduleHeader, moduleHeader, hmem, hhandle,
      hview]
  refine ⟨?_, fun sym hown hfind => ?_, fun k off hfresh => ?_⟩
  · rw [sectionBase, hmem, hhandle]
    exact hat
  · rw [hview, hmem] at hfind
    rw [hmem, hhandle, hsame, h.offsetSym_val hf hhead hown hfind, hat]
  · rw [hslot, hmem, hfresh.word, hat]

/-! ## A module at its place -/

/-- A module in its block, apart from what else is in use. -/
structure Standing (u : SectionedImage) (w : State) : Prop where
  placed : u.InPlace w
  ne_zero : 3 < u.num → w.handle.pRam ≠ 0
  apart : u.Apart (u.recorded w) w.handle.pRam

theorem Apart.congr {secs' : Nat → Addr} (h : u.Apart secs p)
    (hsame : ∀ j, 3 ≤ j → j < u.num → (u.es j).size ≠ 0 → secs' j = secs j) :
    u.Apart secs' p := by
  refine ⟨⟨fun i j hi hij hj hni hnj => ?_, fun j hj hj' hne => ?_⟩, h.block,
    fun hm j hj hj' hne => ?_⟩
  · rw [hsame i hi (by omega) hni, hsame j (by omega) hj hnj]
    exact h.room.pairwise i j hi hij hj hni hnj
  · rw [hsame j hj hj' hne]
    exact h.room.block j hj hj' hne
  · rw [hsame j hj hj' hne]
    exact h.tagged hm j hj hj' hne

theorem Placed.standing (h : u.Placed secs p w.handle w.mem) (hp : 3 < u.num → p ≠ 0)
    (ha : u.Apart secs p) : u.Standing w := by
  have hpram := h.pRam
  refine ⟨h.inPlace, ?_, ?_⟩
  · rw [hpram]
    exact hp
  · rw [hpram]
    exact ha.congr fun j hj hj' hne => h.recorded_eq hj hj' hne

/-- What a caller owes a move: a block that ends in the address space, apart from
what is in use, as the sections are and were. -/
structure FairDest (u : SectionedImage) (newRam : Addr) (moves : List SectionMove) (w w' : State) :
    Prop where
  dest : ∀ evs q, w.Extends w' evs → DestOf newRam (hostEvents evs) q → newRam ≠ w.handle.pRam →
    u.FairMove (u.recorded w) w.handle.pRam moves q ∧ q.toNat + u.ram ≤ 2 ^ 32
  sections : ∀ mv ∈ moves, u.Grounded (u.recorded w) mv.idx.toNat

theorem Standing.exec {host : Host} {call : RelocateCall} (h : u.Standing w) (hf : u.Fits)
    (hc : u.Contained) (hr : (call.exec host).run w = (.ok (), w'))
    (hapart : u.ApartCall call.newRam call.moves w w') : u.Standing w' := by
  obtain ⟨moves, hmoves, -, -, hdone⟩ := h.placed.exec_ok hf hc hr
  rcases hdone with ⟨hh, hmem, -⟩ | ⟨q, ⟨evs, he, hdest⟩, hne, h0, -, hgo⟩
  · have hplaced : u.Placed (u.recorded w) w.handle.pRam w'.handle w'.mem := by
      rw [hh, hmem]
      exact h.placed
    exact hplaced.standing h.ne_zero h.apart
  · have hfm := hapart evs q he hdest (Or.inr hne) moves hmoves
    exact (hgo hfm).placed.standing (fun _ => h0) hfm.apart

/-- Stores beside the metadata and the base array leave the module in place. -/
theorem Standing.write (h : u.Standing w) (hf : u.Fits) (hh : w'.handle = w.handle)
    (hmeta : AgreeOn ⟨w.handle.pHeader, exactCodeOffset u.header⟩ w.mem w'.mem)
    (hbases : AgreeOn ⟨w.handle.pRam + UInt32.ofNat (4 * u.header.numLot.toNat), 4 * (u.num - 3)⟩
      w.mem w'.mem) : u.Standing w' := by
  have hlt := hf.table.exactCodeOffset_lt
  have hram : u.ram < 2 ^ 32 := hf.ram
  have hb := bases_le_start u.header u.num u.mode
  have hstart : exactStart u.header u.num u.mode ≤ u.ram := hf.start_le_ram
  have hplaced : u.Placed (u.recorded w) w.handle.pRam w'.handle w'.mem := by
    rw [hh]
    refine ⟨rfl, h.placed.mode, h.placed.pHeader, fun i hi => ?_, fun j hj hj' hne => ?_⟩
    · rw [← hmeta _ (off_mem hi (by omega))]
      exact h.placed.metadata i hi
    · refine ((hbases.mono ?_).u32).symm.trans (h.placed.bases j hj hj' hne)
      rw [baseWord, ← off_off]
      exact off_subset (by omega) (by omega)
  exact hplaced.standing h.ne_zero h.apart

/-- A list of moves that is accepted has taken effect, unless the block stays. -/
theorem Standing.sections {host : Host} {newSize : UInt32} (h : u.Standing w) (hf : u.Fits)
    (hc : u.Contained) (hr : (udynlinkRelocateModuleSections host newRam newSize (some moves)).run w =
      (.ok (), w')) (hdest : u.FairDest newRam moves w w') (hpop : Populated w moves) :
    ((∀ mv ∈ moves, MoveTaken w w' mv) →
        newRam ≠ w.handle.pRam ∨ ∀ mv ∈ moves, sectionBase w mv.idx.toNat = mv.newBase) ∧
      (u.LoneTargets →
        (newRam ≠ w.handle.pRam ∨ ∀ mv ∈ moves, sectionBase w mv.idx.toNat = mv.newBase) →
        ∀ mv ∈ moves, MoveTaken w w' mv) := by
  have hhead : w.handle.pHeader ≠ 0 := by
    intro hz
    rw [udynlinkRelocateModuleSections, Prog.run_getHandle_bind, if_pos hz] at hr
    simp at hr
  have hexec : ((RelocateCall.sections newRam newSize (some moves)).exec host).run w =
      (.ok (), w') := hr
  obtain ⟨moves', hmoves, hm, -, hdone⟩ := h.placed.exec_ok hf hc hexec
  obtain rfl : moves = moves' := Option.some.inj hmoves
  rcases hdone with ⟨hh, hmem, hsame⟩ | ⟨q, ⟨evs, he, hdst⟩, hne, h0, -, hgo⟩
  · have hbase : ∀ idx, sectionBase w' idx = sectionBase w idx := fun idx => by
      rw [sectionBase, sectionBase, hh, hmem]
    refine ⟨fun htaken => Or.inr fun mv hmv => ?_, fun _ hcond mv hmv => ?_⟩
    · rw [← hbase]
      exact (htaken mv hmv).base
    · have hstay : newRam = w.handle.pRam := by
        refine hsame.resolve_left fun hnil => ?_
        rw [hnil] at hmv
        exact absurd hmv List.not_mem_nil
      exact h.placed.stays hf hhead hmem hh ((hcond.resolve_left (not_not.mpr hstay)) mv hmv)
  · obtain ⟨hfm, hend⟩ := hdest.dest evs q he hdst hne
    refine ⟨fun _ => Or.inl hne, fun hlone _ => ?_⟩
    exact (hgo hfm).taken h.placed hf hc hm h.ne_zero h0 hhead hend h.apart.room hfm hlone
      hdest.sections hpop

end SectionedImage

/-- A sectioned load leaves the module at its place. -/
theorem SectionedLoaded.standing {host : Host} {image : Image} {mode : LoadMode} {loadAddr : Addr}
    {ramSize p : UInt32} {w w' : State} {secs : Nat → Addr} {names : Nat → Option (List UInt8)}
    {u : SectionedImage} (hu : u = ⟨image.pHeader, w.mem, mode⟩) (hf : u.Fits)
    (hl : SectionedLoaded host image mode u.tab u.header u.es loadAddr u.mainAlign ramSize w w' p
      secs names) : u.Standing w' := by
  have hat := SectionedLoaded.alignedAt hu hf hl
  have hp : u.pHeader = image.pHeader := by rw [hu]
  have hmode : u.mode = mode := by rw [hu]
  have hmeta : metaSpan image u.header ∈ sectionedSource image u.header u.num u.es := by
    simp [sectionedSource]
  refine hat.placed.standing hat.ne_zero ⟨?_, fun _ => ?_, fun _ j hj hj' hne => ?_⟩
  · rw [SectionedImage.ram, hmode]
    exact hl.room
  · rw [SectionedImage.ram, hmode, hp]
    exact hl.clear.block _ hmeta
  · rw [hp]
    exact hl.clear.tagged _ hmeta j hj hj' hne

/-! ## Runs -/

/-- One step of a module that is loaded: a move, or stores of the host and of the
module anywhere but in the metadata and the base array it keeps. -/
inductive Lives (move : State → State → Prop) (image : Image) (m : Mem) (w w' : State) : Prop where
  | move (h : move w w')
  | write (handle : w'.handle = w.handle)
      (metadata : AgreeOn ⟨w.handle.pHeader, exactCodeOffset (decodeHeader m image.pHeader)⟩
        w.mem w'.mem)
      (bases : AgreeOn ⟨w.handle.pRam + UInt32.ofNat
          (4 * (decodeHeader m image.pHeader).numLot.toNat), 4 * ((imageView image m).num - 3)⟩
        w.mem w'.mem)

/-- A word stored beside the metadata and the base array. -/
theorem Lives.store {move : State → State → Prop} {image : Image} {m : Mem} {w : State} {p : Addr}
    {v : UInt32}
    (hmeta : Span.Disjoint ⟨w.handle.pHeader, exactCodeOffset (decodeHeader m image.pHeader)⟩ ⟨p, 4⟩)
    (hbases : Span.Disjoint ⟨w.handle.pRam + UInt32.ofNat
      (4 * (decodeHeader m image.pHeader).numLot.toNat), 4 * ((imageView image m).num - 3)⟩ ⟨p, 4⟩) :
    Lives move image m w { w with mem := w.mem.set32 p v } :=
  .write rfl (store_agree hmeta) (store_agree hbases)

section

variable {host : Host} {image : Image} {mode : LoadMode} {loadAddr newRam : Addr}
  {loadSize newSize : UInt32} {w w₁ w₂ w₃ : State} {evs : List (Event HostEvent)}
  {moves : List SectionMove}

/-- A list of moves that is accepted takes effect when the main block moves too, or
nothing has to: if it took effect that was so, and it does when no two entries of
the image name a byte in common. -/
theorem section_moves_taken
    (hload : (udynlinkLoadModuleImage host image loadAddr loadSize mode).run w = (.ok (), w₁))
    (himg : SizedImage image mode w.mem) (hne : (imageView image w.mem).num ≠ 0)
    (he : w.Extends w₁ evs)
    (hfair : FairBlocks (imageSource image w.mem) loadAddr loadSize (hostEvents evs))
    (hrun : Relation.ReflTransGen (Lives (ApartMove host image mode w.mem) image w.mem) w₁ w₂)
    (hcall : (udynlinkRelocateModuleSections host newRam newSize (some moves)).run w₂ =
      (.ok (), w₃))
    (hdest : SectionedImage.FairDest ⟨image.pHeader, w.mem, mode⟩ newRam moves w₂ w₃)
    (hpop : Populated w₂ moves) :
    ((∀ mv ∈ moves, MoveTaken w₂ w₃ mv) →
        newRam ≠ w₂.handle.pRam ∨ ∀ mv ∈ moves, sectionBase w₂ mv.idx.toNat = mv.newBase) ∧
      (SectionedImage.LoneTargets ⟨image.pHeader, w.mem, mode⟩ →
        (newRam ≠ w₂.handle.pRam ∨ ∀ mv ∈ moves, sectionBase w₂ mv.idx.toNat = mv.newBase) →
        ∀ mv ∈ moves, MoveTaken w₂ w₃ mv) := by
  obtain ⟨tab, ramSize, ramAddr, w1, w2, w3, w4, hs⟩ := loadStages_of_ok hload
  have hview := imageView_of_sectab hs.sectab
  have ht : tab.num ≠ 0 := by
    rw [← hview]
    exact hne
  let u : SectionedImage := ⟨image.pHeader, w.mem, mode⟩
  obtain ⟨htab, hf, secs, names, hl⟩ := sectioned_loaded hs ht himg.contained he hfair
  rw [htab] at hl
  have hnum : (imageView image w.mem).num = u.num := by
    rw [hview, htab]
    rfl
  have hc := himg.moved
  have hstart : u.Standing w₁ := SectionedLoaded.standing rfl hf hl
  have hstand : u.Standing w₂ := by
    clear hcall hdest hpop
    induction hrun with
    | refl => exact hstart
    | tail _ hstep ih =>
      cases hstep with
      | move hmove =>
        obtain ⟨call, hr, hapart⟩ := hmove
        exact ih.exec hf hc hr hapart
      | write hh hmeta hbases =>
        rw [hnum] at hbases
        exact ih.write hf hh hmeta hbases
  exact hstand.sections hf hc hcall hdest hpop

end

/-! ## Section `x` and its host -/

/-- The host has copied section `x` to `0x30000100`. -/
def ownSectionCopied : State :=
  { ownSectionLoaded with mem := ownSectionLoaded.mem.set32 0x30000100 0xAABBCCDD }

/-- A move of the block to `newRam`, and of section `x` to where it has been copied. -/
def ownSectionMove (newRam : Addr) : Except Error Unit × State :=
  (udynlinkRelocateModuleSections ownSectionHost newRam 20 (some [⟨3, 0x30000100⟩])).run
    ownSectionCopied

theorem ownSection_lone :
    SectionedImage.LoneTargets ⟨ownSectionImage.pHeader, ownSectionRom, .copyTextData⟩ := by
  have hn : (SectionedImage.header ⟨ownSectionImage.pHeader, ownSectionRom,
      .copyTextData⟩).numRels.toNat = 1 := by decide +kernel
  refine ⟨fun k hk _ => ?_, fun k l hk hl hkl => ?_⟩
  · rw [hn] at hk
    obtain rfl : k = 0 := by omega
    decide +kernel
  · rw [hn] at hk hl
    omega

/-- The handle, and section `x` where it is and where it has been copied to. -/
theorem ownSection_copied :
    ownSectionCopied.handle = ⟨0x1000, 0x20000000, 1, 0, 0⟩ ∧
      (moduleView ownSectionCopied).num = 4 ∧ (moduleHeader ownSectionCopied).numRels = 1 ∧
      (moduleSection ownSectionCopied 3).size = 4 ∧
      sectionBase ownSectionCopied 3 = 0x20000014 ∧
      SectionedImage.recorded ⟨ownSectionImage.pHeader, ownSectionRom, .copyTextData⟩
        ownSectionCopied 3 = 0x20000014 ∧
      ownSectionCopied.mem.u32 0x20000014 = 0xAABBCCDD ∧
      ownSectionCopied.mem.u32 0x30000100 = 0xAABBCCDD := by
  decide +kernel

theorem ownSection_populated : Populated ownSectionCopied [⟨3, 0x30000100⟩] := by
  obtain ⟨-, -, -, hsize, hbase, -, hold, hnew⟩ := ownSection_copied
  intro mv hmv i hi
  obtain rfl := List.mem_singleton.mp hmv
  have hi4 : i < (moduleSection ownSectionCopied 3).size.toNat := hi
  rw [hsize] at hi4
  have hword : ownSectionCopied.mem.u32 0x30000100 =
      ownSectionCopied.mem.u32 (sectionBase ownSectionCopied 3) := by rw [hbase, hold, hnew]
  exact bytes_eq_of_u32 hword hi4

theorem ownSection_lives {move : State → State → Prop} :
    Lives move ownSectionImage ownSectionRom ownSectionLoaded ownSectionCopied := by
  refine Lives.store ?_ ?_
  · rw [ownSection_load.2.1]
    exact disjoint_of_le (by decide +kernel) (by decide +kernel)
  · rw [ownSection_load.2.1]
    exact disjoint_of_le (by decide +kernel) (by decide +kernel)

theorem ownSection_fairDest : SectionedImage.FairDest
    ⟨ownSectionImage.pHeader, ownSectionRom, .copyTextData⟩ 0x30000000 [⟨3, 0x30000100⟩]
    ownSectionCopied (ownSectionMove 0x30000000).2 := by
  obtain ⟨hhandle, -, -, -, -, hbase, -⟩ := ownSection_copied
  refine ⟨fun evs q _ hdest _ => ?_, fun mv hmv => ?_⟩
  · have hq : q = 0x30000000 := by
      rw [DestOf, if_neg (by decide)] at hdest
      exact hdest
    rw [hq, hhandle]
    exact ⟨ownSection_apart _, by decide +kernel⟩
  · obtain rfl := List.mem_singleton.mp hmv
    refine ⟨?_, fun hm => absurd hm (by decide)⟩
    have hidx : (⟨3, 0x30000100⟩ : SectionMove).idx.toNat = 3 := rfl
    rw [hidx, hbase]
    decide +kernel

theorem ownSection_moves : (udynlinkRelocateModuleSections ownSectionHost 0x30000000 20
    (some [⟨3, 0x30000100⟩])).run ownSectionCopied = (.ok (), (ownSectionMove 0x30000000).2) :=
  Prod.ext (by decide +kernel) (by rw [ownSectionMove])

theorem section_moves_taken_ownSection :
    MoveTaken ownSectionCopied (ownSectionMove 0x30000000).2 ⟨3, 0x30000100⟩ :=
  (section_moves_taken (w := ⟨ownSectionRom, Module.free, []⟩) ownSection_loads
    ⟨ownSection_contained, ownSection_fair.moved ownSection_table⟩ ownSection_table
    ownSection_extends ownSection_fairBlocks (.single ownSection_lives) ownSection_moves
    ownSection_fairDest ownSection_populated).2 ownSection_lone
    (Or.inl (by rw [ownSection_copied.1]; decide)) _ (List.mem_singleton.mpr rfl)

/-- With the block the module is at, the call returns and section `x` stays. -/
theorem section_stays :
    ((udynlinkLoadModuleImage ownSectionHost ownSectionImage 0 0 .copyTextData).run
        ⟨ownSectionRom, Module.free, []⟩).1 = .ok () ∧
      Lives (ApartMove ownSectionHost ownSectionImage .copyTextData ownSectionRom)
        ownSectionImage ownSectionRom ownSectionLoaded ownSectionCopied ∧
      Populated ownSectionCopied [⟨3, 0x30000100⟩] ∧
      ownSectionCopied.handle.pRam = 0x20000000 ∧ (ownSectionMove 0x20000000).1 = .ok () ∧
      ¬ MoveTaken ownSectionCopied (ownSectionMove 0x20000000).2 ⟨3, 0x30000100⟩ := by
  have hmove : (ownSectionMove 0x20000000).1 = .ok () ∧
      sectionBase (ownSectionMove 0x20000000).2 3 ≠ 0x30000100 := by decide +kernel
  refine ⟨ownSection_load.1, ownSection_lives, ownSection_populated, ?_, hmove.1, fun h => ?_⟩
  · rw [ownSection_copied.1]
  · exact absurd h.base hmove.2

end Udynlink
