import Udynlink.LinkResolved

/-!
# Patching the slots of a name

`udynlink_link_symbol` compares names through the reader that gives a nameless symbol the
placeholder `"(N/A)"`. For every other string it patches the slots of the symbols that carry
it, and nothing else; for the placeholder it patches the internal ones as well.
-/

namespace Udynlink

open Machine

/-! ## What the tables say -/

/-- The symbol of entry `k`, where it is not a relocation of a base. -/
def entrySym (w : State) (k : Nat) : Option Sym :=
  if isBaseRelocation (linkEntry w k).2 then none
  else relocSym (ownSource w) w.mem (linkEntry w k).2

/-- Entry `k` has a slot, and the table has the string as the name of its symbol. -/
def Carries (w : State) (symName : List UInt8) (k : Nat) : Prop :=
  linkSlot w k ≠ 0 ∧ ∃ sym p, entrySym w k = some sym ∧ sym.type ≠ symTypeInternal ∧
    sym.name = .pool p ∧ StrAt w.mem p symName

/-- Entry `k` has a slot, and the reader gives its symbol that name. -/
def Matched (w : State) (symName : List UInt8) (k : Nat) : Prop :=
  linkSlot w k ≠ 0 ∧ ∃ sym, entrySym w k = some sym ∧
    (strcmpName sym.name symName).run w.mem = .eq

/-- The slots of the name are set, no other byte changes, the result says whether there is
one, and no nameless symbol is taken for the name. -/
structure LinkSymbolRight (w : State) (symName : List UInt8) (symAddr : Addr)
    (r : Except Error Unit × State) : Prop where
  handle : r.2.handle = w.handle
  slots : ∀ k, k < numLinks w → Carries w symName k → r.2.mem.u32 (linkSlot w k) = symAddr
  frame : ∀ a, (∀ k, k < numLinks w → Carries w symName k → a ∉ (⟨linkSlot w k, 4⟩ : Span)) →
    r.2.mem a = w.mem a
  found : r.1 = .ok () ↔ ∃ k, k < numLinks w ∧ Carries w symName k
  nameless : ∀ k, k < numLinks w → ∀ sym, entrySym w k = some sym → sym.type = symTypeInternal →
    (strcmpName sym.name symName).run w.mem ≠ .eq

/-- Nothing that the comparisons with the name read lies in a slot, and two slots are one or
apart. -/
structure PatchLayout (w : State) (symName : List UInt8) : Prop extends LinkTables w where
  names : ∀ k, k < numLinks w → ∀ sym, entrySym w k = some sym →
    (strcmpName sym.name symName).Within (BesideSlots w) w.mem
  apart : ∀ i k, i < numLinks w → k < numLinks w → linkSlot w i ≠ 0 → linkSlot w k ≠ 0 →
    linkSlot w i = linkSlot w k ∨ Span.Disjoint ⟨linkSlot w i, 4⟩ ⟨linkSlot w k, 4⟩

/-- The name is not the placeholder, or no relocation is of an internal symbol. -/
def NoPlaceholder (w : State) (symName : List UInt8) : Prop :=
  symName = notAvailableName →
    ∀ k, k < numLinks w → ∀ sym, entrySym w k = some sym → sym.type ≠ symTypeInternal

section

variable {w v : State} {symName : List UInt8} {symAddr : Addr} {sym : Sym} {k n i : Nat}

theorem entrySym_base (h : entrySym w k = some sym) :
    isBaseRelocation (linkEntry w k).2 = false := by
  unfold entrySym at h
  cases hb : isBaseRelocation (linkEntry w k).2 with
  | true =>
    rw [hb, if_pos rfl] at h
    cases h
  | false => rfl

theorem entrySym_of_not_base (h : isBaseRelocation (linkEntry w k).2 = false) :
    entrySym w k = relocSym (ownSource w) w.mem (linkEntry w k).2 := by
  rw [entrySym, h, if_neg Bool.false_ne_true]

/-- What is read of a symbol: internal ones have the placeholder, the others a name in the
table. -/
theorem entrySym_name (h : entrySym w k = some sym) :
    (sym.type = symTypeInternal ∧ sym.name = .notAvailable) ∨
      (sym.type ≠ symTypeInternal ∧ ∃ p, sym.name = .pool p) := by
  have hb := entrySym_base h
  rw [entrySym_of_not_base hb] at h
  obtain ⟨-, rfl, -⟩ := relocSym_entry h hb
  unfold SymTable.entry
  by_cases hn : (symTable w.mem w.handle.pHeader).Named (linkEntry w k).2.toNat
  · rw [if_pos hn]
    exact Or.inr ⟨hn, _, rfl⟩
  · rw [if_neg hn]
    exact Or.inl ⟨not_not.mp hn, rfl⟩

theorem strcmp_notAvailable (m : Mem) :
    (strcmpName .notAvailable symName).run m = .eq ↔ symName = notAvailableName := by
  rw [strcmpName, Reader.run_pure]
  exact Std.LawfulEqCmp.compare_eq_iff_eq.trans eq_comm

/-- The comparison is right about names. -/
theorem strcmp_pool {m : Mem} {p : Addr} (h0 : 0 ∉ symName) :
    (strcmpName (.pool p) symName).run m = .eq ↔ StrAt m p symName :=
  run_strcmp_eq h0 (Nat.lt_succ_self _)

theorem Carries.matched (h0 : 0 ∉ symName) (h : Carries w symName k) : Matched w symName k := by
  obtain ⟨hslot, sym, p, hsym, -, hname, hstr⟩ := h
  refine ⟨hslot, sym, hsym, ?_⟩
  rw [hname]
  exact (strcmp_pool h0).mpr hstr

/-- Without the placeholder, what matches carries the name. -/
theorem Matched.carries (h0 : 0 ∉ symName) (hp : NoPlaceholder w symName) (hk : k < numLinks w)
    (h : Matched w symName k) : Carries w symName k := by
  obtain ⟨hslot, sym, hsym, hcmp⟩ := h
  rcases entrySym_name hsym with ⟨htype, hname⟩ | ⟨htype, p, hname⟩
  · rw [hname] at hcmp
    exact absurd htype (hp ((strcmp_notAvailable _).mp hcmp) k hk sym hsym)
  · rw [hname] at hcmp
    exact ⟨hslot, sym, p, hsym, htype, hname, (strcmp_pool h0).mp hcmp⟩

/-! ## The walk -/

/-- The state behind the first `n` entries. -/
structure Patched (w : State) (symName : List UInt8) (symAddr : Addr) (n : Nat) (v : State) :
    Prop where
  handle : v.handle = w.handle
  slots : ∀ k, k < n → Matched w symName k → v.mem.u32 (linkSlot w k) = symAddr
  frame : ∀ a, (∀ k, k < n → Matched w symName k → a ∉ (⟨linkSlot w k, 4⟩ : Span)) →
    v.mem a = w.mem a

namespace Patched

theorem start (w : State) (symName : List UInt8) (symAddr : Addr) :
    Patched w symName symAddr 0 w :=
  ⟨rfl, fun k hk => absurd hk (Nat.not_lt_zero k), fun _ _ => rfl⟩

theorem log (h : Patched w symName symAddr n v) (as : List Addr) :
    Patched w symName symAddr n (v.log (readEvents as)) := ⟨h.handle, h.slots, h.frame⟩

theorem same (h : Patched w symName symAddr n v) (hn : n ≤ numLinks w) : SameModule w v :=
  ⟨h.handle, fun a ha => (h.frame a fun k hk _ => ha k (Nat.lt_of_lt_of_le hk hn)).symm⟩

/-- An entry that does not match is passed by. -/
theorem skip (h : Patched w symName symAddr n v) (hm : ¬ Matched w symName n) :
    Patched w symName symAddr (n + 1) v := by
  refine ⟨h.handle, fun k hk hmk => ?_, fun a ha => h.frame a fun k hk => ha k (by omega)⟩
  rcases Nat.lt_succ_iff_lt_or_eq.mp hk with hlt | rfl
  · exact h.slots k hlt hmk
  · exact absurd hmk hm

/-- The slot of an entry that matches is set; the slots before it keep the address. -/
theorem set (h : Patched w symName symAddr n v) (hl : PatchLayout w symName)
    (hn : n < numLinks w) (hm : Matched w symName n) {v' : State} (hh : v'.handle = v.handle)
    (hmem : v'.mem = v.mem.set32 (linkSlot w n) symAddr) :
    Patched w symName symAddr (n + 1) v' := by
  refine ⟨hh.trans h.handle, fun k hk hmk => ?_, fun a ha => ?_⟩
  · rw [hmem]
    rcases Nat.lt_succ_iff_lt_or_eq.mp hk with hlt | rfl
    · rcases hl.apart k n (by omega) hn hmk.1 hm.1 with heq | hd
      · rw [heq]
        exact u32_set32_same _ _ _
      · have hkept : v.mem.u32 (linkSlot w k) =
            (v.mem.set32 (linkSlot w n) symAddr).u32 (linkSlot w k) := AgreeOn.u32 (store_agree hd)
        rw [← hkept]
        exact h.slots k hlt hmk
    · exact u32_set32_same _ _ _
  · rw [hmem]
    exact (store_notMem (ha n (Nat.lt_succ_self n) hm)).trans
      (h.frame a fun k hk => ha k (by omega))

end Patched

/-- One entry: its slot is set exactly when it matches. -/
theorem patchSlot_patched (hl : PatchLayout w symName) (hn : n < numLinks w)
    (h : Patched w symName symAddr n v) :
    ∃ patched v', (patchSlot (ownView w) symName symAddr (linkEntry w n)).run v =
        (.ok patched, v') ∧
      (patched = true ↔ Matched w symName n) ∧ Patched w symName symAddr (n + 1) v' := by
  have hs := h.same (Nat.le_of_lt hn)
  rw [patchSlot, Prog.run_getHandle_bind]
  cases hb : isBaseRelocation (linkEntry w n).2 with
  | true =>
    have hno : ¬ Matched w symName n := by
      rintro ⟨-, sym, hsym, -⟩
      exact Bool.false_ne_true ((entrySym_base hsym).symm.trans hb)
    exact ⟨false, v, rfl, iff_of_false Bool.false_ne_true hno, h.skip hno⟩
  | false =>
    have hget : (getSymAt v.handle.pHeader (linkEntry w n).2).run v.mem = entrySym w n := by
      rw [getSymAt_own, hl.sym hs hb, entrySym_of_not_base hb]
    rw [if_neg Bool.false_ne_true, Prog.run_lift_bind, hget]
    cases hsym : entrySym w n with
    | none =>
      have hno : ¬ Matched w symName n := by
        rintro ⟨-, sym, hsome, -⟩
        rw [hsym] at hsome
        cases hsome
      exact ⟨false, _, rfl, iff_of_false Bool.false_ne_true hno, (h.log _).skip hno⟩
    | some sym =>
      have hcmp : (strcmpName sym.name symName).run v.mem =
          (strcmpName sym.name symName).run w.mem := (hl.names n hn sym hsym).congr hs.agree
      dsimp only
      rw [Prog.run_lift_bind, World.log_mem, hcmp]
      by_cases hc : (strcmpName sym.name symName).run w.mem ≠ .eq
      · rw [if_pos hc]
        have hno : ¬ Matched w symName n := by
          rintro ⟨-, s, hsome, heq⟩
          obtain rfl := Option.some.inj (hsym.symm.trans hsome)
          exact hc heq
        exact ⟨false, _, rfl, iff_of_false Bool.false_ne_true hno, ((h.log _).log _).skip hno⟩
      · rw [if_neg hc, Prog.run_lift_bind, World.log_mem, World.log_mem,
          target_eq hl.toLinkTables hs hn]
        by_cases hp : linkSlot w n = 0
        · rw [if_pos hp]
          have hno : ¬ Matched w symName n := fun hm => hm.1 hp
          exact ⟨false, _, rfl, iff_of_false Bool.false_ne_true hno,
            (((h.log _).log _).log _).skip hno⟩
        · rw [if_neg hp, Prog.run_set32_bind]
          have hm : Matched w symName n := ⟨hp, sym, hsym, not_not.mp hc⟩
          exact ⟨true, _, rfl, iff_of_true rfl hm,
            (((h.log _).log _).log _).set hl hn hm rfl rfl⟩

/-- The loop: what it finds is what matches. -/
theorem patchSlots_patched (hl : PatchLayout w symName) (found : Bool) (hi : i + n ≤ numLinks w)
    (h : Patched w symName symAddr i v) :
    ∃ res v', (patchSlots (ownSource w).pRelocations (ownView w) symName symAddr n i found).run v =
        (.ok res, v') ∧
      (res = true ↔ found = true ∨ ∃ k, i ≤ k ∧ k < i + n ∧ Matched w symName k) ∧
      Patched w symName symAddr (i + n) v' := by
  induction n generalizing i v found with
  | zero =>
    refine ⟨found, v, rfl, ⟨Or.inl, fun hr => hr.resolve_right ?_⟩, h⟩
    rintro ⟨k, hle, hlt, -⟩
    omega
  | succ n ih =>
    have hs := h.same (by omega)
    have hentry : (readRelocation (ownSource w).pRelocations i).run v.mem = linkEntry w i := by
      have he := hl.entry hs (k := i) (by omega)
      unfold linkEntry at he ⊢
      rw [hl.source hs] at he
      exact he
    rw [patchSlots, Prog.run_lift_bind, hentry]
    obtain ⟨patched, v1, hone, hpatched, h1⟩ := patchSlot_patched hl (by omega)
      (h.log ((readRelocation (ownSource w).pRelocations i).reads v.mem))
    rw [Prog.run_bind_of_ok hone]
    obtain ⟨res, v', hrun, hres, h'⟩ := ih (found || patched) (by omega) h1
    refine ⟨res, v', hrun, hres.trans ?_, ?_⟩
    · rw [Bool.or_eq_true, hpatched, or_assoc]
      refine or_congr_right ⟨?_, ?_⟩
      · rintro (hm | ⟨k, hle, hlt, hm⟩)
        · exact ⟨i, Nat.le_refl i, by omega, hm⟩
        · exact ⟨k, by omega, by omega, hm⟩
      · rintro ⟨k, hle, hlt, hm⟩
        rcases Nat.lt_or_eq_of_le hle with hlt' | rfl
        · exact Or.inr ⟨k, hlt', by omega, hm⟩
        · exact Or.inl hm
    · have hsum : i + 1 + n = i + (n + 1) := by omega
      rw [hsum] at h'
      exact h'

/-- The call: the slots that match are set, and it is OK exactly when there is one. -/
theorem udynlinkLinkSymbol_patched (symAddr : Addr) (hl : PatchLayout w symName)
    (hh : w.handle.pHeader ≠ 0) :
    Patched w symName symAddr (numLinks w) ((udynlinkLinkSymbol symName symAddr).run w).2 ∧
      (((udynlinkLinkSymbol symName symAddr).run w).1 = .ok () ↔
        ∃ k, k < numLinks w ∧ Matched w symName k) := by
  rw [udynlinkLinkSymbol, Prog.run_getHandle_bind, if_neg hh, Prog.run_lift_bind, readHeader_run,
    Prog.run_lift_bind, World.log_mem]
  have htab : ((getSectab w.handle.pHeader false).run w.mem).2 = ownView w := rfl
  have hrels : getRelocsPointer w.handle.pHeader (decodeHeader w.mem w.handle.pHeader) =
      (ownSource w).pRelocations := rfl
  have hnum : (decodeHeader w.mem w.handle.pHeader).numRels.toNat = numLinks w := rfl
  rcases hst : (getSectab w.handle.pHeader false).run w.mem with ⟨res, tab⟩
  rw [hst] at htab
  dsimp only at htab ⊢
  rw [htab, hrels, hnum]
  obtain ⟨found, v', hrun, hfound, hpatched⟩ := patchSlots_patched hl false
    (Nat.le_of_eq (Nat.zero_add (numLinks w)))
    (((Patched.start w symName symAddr).log ((readHeader w.handle.pHeader).reads w.mem)).log
      ((getSectab w.handle.pHeader false).reads w.mem))
  rw [Nat.zero_add] at hpatched hfound
  have hany : found = true ↔ ∃ k, k < numLinks w ∧ Matched w symName k := by
    refine hfound.trans ⟨?_, ?_⟩
    · rintro (hf | ⟨k, -, hk, hm⟩)
      · exact absurd hf Bool.false_ne_true
      · exact ⟨k, hk, hm⟩
    · rintro ⟨k, hk, hm⟩
      exact Or.inr ⟨k, Nat.zero_le k, hk, hm⟩
  rw [Prog.run_bind_of_ok hrun]
  cases found with
  | true => exact ⟨hpatched, iff_of_true rfl (hany.mp rfl)⟩
  | false =>
    refine ⟨hpatched, iff_of_false (fun h => ?_) fun hm => Bool.false_ne_true (hany.mpr hm)⟩
    rw [if_neg Bool.false_ne_true, Prog.run_fail] at h
    cases h

/-- A patch of a name is right exactly when the name is not the placeholder, or the module has
no relocation that it would be taken for. -/
theorem link_symbol_right_iff (hl : PatchLayout w symName) (hh : w.handle.pHeader ≠ 0)
    (h0 : 0 ∉ symName) :
    LinkSymbolRight w symName symAddr ((udynlinkLinkSymbol symName symAddr).run w) ↔
      NoPlaceholder w symName := by
  obtain ⟨hpatched, hok⟩ := udynlinkLinkSymbol_patched symAddr hl hh
  constructor
  · rintro hr rfl k hk sym hsym htype
    refine hr.nameless k hk sym hsym htype ?_
    rcases entrySym_name hsym with ⟨-, hname⟩ | ⟨hne, -⟩
    · rw [hname]
      exact (strcmp_notAvailable _).mpr rfl
    · exact absurd htype hne
  · intro hp
    have hiff : ∀ k, k < numLinks w → (Matched w symName k ↔ Carries w symName k) :=
      fun k hk => ⟨Matched.carries h0 hp hk, Carries.matched h0⟩
    refine ⟨hpatched.handle, fun k hk hc => ?_, fun a ha => ?_, ?_,
      fun k hk sym hsym htype hcmp => ?_⟩
    · exact hpatched.slots k hk (hc.matched h0)
    · exact hpatched.frame a fun k hk hm => ha k hk ((hiff k hk).mp hm)
    · exact hok.trans (exists_congr fun k => and_congr_right fun hk => hiff k hk)
    · rcases entrySym_name hsym with ⟨-, hname⟩ | ⟨hne, -⟩
      · rw [hname] at hcmp
        exact hp ((strcmp_notAvailable _).mp hcmp) k hk sym hsym htype
      · exact hne htype

end

/-! ## Modules with one relocation -/

/-- What the load has asked, and what the call reads. -/
theorem deferLoaded_reads :
    hostEvents deferLoaded.trace = [.resolve [0x65] 1] ∧
      numLinks deferLoaded = 1 ∧ linkSlot deferLoaded 0 = 0x20000000 ∧
      entrySym deferLoaded 0 = some ⟨.pool 0x103E, 0, symTypeExtern, .data⟩ ∧
      (Reader.memchr0 2 0x103E).run deferLoaded.mem = true := by
  decide +kernel

theorem deferLoaded_slot : ∀ k, k < numLinks deferLoaded → linkSlot deferLoaded k = 0x20000000 := by
  obtain ⟨-, hn, hslot, -⟩ := deferLoaded_reads
  intro k hk
  obtain rfl : k = 0 := by omega
  exact hslot

theorem deferLoaded_tables : LinkTables deferLoaded := by
  have hfit : AnswersFit deferPlaced [0x65] 0 (runCalls [] deferLoaded) := by
    intro ans ha
    have hmem : HostEvent.resolve [0x65] ans ∈ hostEvents deferLoaded.trace :=
      List.mem_filterMap.mpr ⟨_, List.mem_of_mem_drop ha, rfl⟩
    rw [deferLoaded_reads.1, List.mem_singleton, HostEvent.resolve.injEq] at hmem
    rw [hmem.2]
    decide
  have hkeep := run_keeps deferLoaded_loads rfl deferPlaced_layout deferPlaced_extern
    deferPlaced_carried (fun c hc => absurd hc List.not_mem_nil) hfit
  exact hkeep.1.toLinkTables

theorem deferLoaded_patch : PatchLayout deferLoaded [0x65] := by
  obtain ⟨-, hn, -, he, hz⟩ := deferLoaded_reads
  refine ⟨deferLoaded_tables, fun k hk sym hsym => ?_, fun i k hi hk _ _ => Or.inl ?_⟩
  · obtain rfl : k = 0 := by omega
    obtain rfl := Option.some.inj (he.symm.trans hsym)
    refine Reader.within_strcmp hz fun i hi j hj => ?_
    rw [deferLoaded_slot j hj]
    have hd : Span.Disjoint ⟨0x103E, 2⟩ ⟨0x20000000, 4⟩ := disjoint_of_le (by decide) (by decide)
    exact hd _ (off_mem hi (by omega))
  · rw [deferLoaded_slot i hi, deferLoaded_slot k hk]

/-- A patch of the extern symbol `e`. -/
theorem link_symbol_right_extern :
    LinkSymbolRight deferLoaded [0x65] 0x08000101
        ((udynlinkLinkSymbol [0x65] 0x08000101).run deferLoaded) ↔
      NoPlaceholder deferLoaded [0x65] :=
  link_symbol_right_iff deferLoaded_patch (by decide +kernel) (by decide)

/-- Symbol 1 is internal, and one LOT word is for it. -/
def internalRom : Mem := .ofWords 0x1000
  [0x4D4C4455, 0x03010000, 0x00010000, 1, 24, 4, 0, 0, 0, 1, 2, 0x18000014, 0, 0, 4,
    0x0000006D, 0x47704770]

def internalLoaded : State :=
  ((udynlinkLoadModuleImage deferHost externImage 0x20000000 4 .xip).run
    ⟨internalRom, Module.free, []⟩).2

/-- The placeholder patches the slot of the internal symbol. -/
theorem placeholder_patched :
    ((udynlinkLoadModuleImage deferHost externImage 0x20000000 4 .xip).run
        ⟨internalRom, Module.free, []⟩).1 = .ok () ∧
      internalLoaded.mem.u32 (linkSlot internalLoaded 0) = 0x20000008 ∧
      ((udynlinkLinkSymbol notAvailableName 0x08000101).run internalLoaded).2.mem.u32
        (linkSlot internalLoaded 0) = 0x08000101 ∧
      ¬ LinkSymbolRight internalLoaded notAvailableName 0x08000101
        ((udynlinkLinkSymbol notAvailableName 0x08000101).run internalLoaded) := by
  obtain ⟨hok, hslot, hpatch, hn, hsym, hanswer⟩ :
      ((udynlinkLoadModuleImage deferHost externImage 0x20000000 4 .xip).run
          ⟨internalRom, Module.free, []⟩).1 = .ok () ∧
        internalLoaded.mem.u32 (linkSlot internalLoaded 0) = 0x20000008 ∧
        ((udynlinkLinkSymbol notAvailableName 0x08000101).run internalLoaded).2.mem.u32
          (linkSlot internalLoaded 0) = 0x08000101 ∧
        numLinks internalLoaded = 1 ∧
        entrySym internalLoaded 0 = some ⟨.notAvailable, 4, symTypeInternal, .data⟩ ∧
        ((udynlinkLinkSymbol notAvailableName 0x08000101).run internalLoaded).1 = .ok () := by
    decide +kernel
  refine ⟨hok, hslot, hpatch, fun h => ?_⟩
  -- no symbol carries the name, and the call is OK
  obtain ⟨k, hk, -, sym, p, hcarry, htype, -⟩ := h.found.mp hanswer
  obtain rfl : k = 0 := by omega
  obtain rfl := Option.some.inj (hsym.symm.trans hcarry)
  exact htype rfl

end Udynlink
