import Udynlink.Machine.Patch
import Udynlink.Footprints
import Udynlink.Reference

/-!
# The relocation loop of a load

One entry is one word patch: its slot comes from the target computation, its
value from the reference. The loop applies them one after the other, and when no
patch touches what the loop reads, they are the patches of the memory it found.
-/

namespace Udynlink

open Machine

/-- Where a load's relocation entries and symbols are. -/
structure RelocSource where
  pHeader : Addr
  pRelocations : Addr
  pSymtab : Addr

def Image.relocSource (image : Image) : RelocSource :=
  ⟨image.pHeader, image.pRelocations, image.pSymtab⟩

def relocSym (src : RelocSource) (m : Mem) (symtOffset : UInt32) : Option Sym :=
  (getSymAtRaw src.pSymtab symtOffset (decodeHeader m src.pHeader).symtSize).run m

def relocSlot (mod : Module) (tab : SectView) (src : RelocSource) (m : Mem) (i : Nat) : Addr :=
  (getRelocTarget mod tab ((readRelocation src.pRelocations i).run m).1).run m

def relocPatch (resolve : SymName → UInt32) (mod : Module) (tab : SectView) (sectioned : Bool)
    (src : RelocSource) (m : Mem) (i : Nat) : Patch where
  slot := relocSlot mod tab src m i
  value := refWord (placementOf mod tab sectioned m) resolve
    ((readRelocation src.pRelocations i).run m).2
    (relocSym src m ((readRelocation src.pRelocations i).run m).2)

/-- A symbol of an unknown type, or the module's name, has no word written. -/
def writesSym (sym : Sym) : Bool :=
  sym.type = symTypeInternal ∨ sym.type = symTypeExported ∨ sym.type = symTypeExtern ∨
    sym.type = symTypeWeak

def symSpans (sym : Sym) (p : Addr) : List Span := if writesSym sym then [⟨p, 4⟩] else []

theorem symSpans_written {sym : Sym} {p : Addr} (h : writesSym sym = true) :
    symSpans sym p = [⟨p, 4⟩] := if_pos h

/-- What entry `i` writes: its word, or nothing. -/
def relocSpans (mod : Module) (tab : SectView) (src : RelocSource) (m : Mem) (i : Nat) :
    List Span :=
  if isBaseRelocation ((readRelocation src.pRelocations i).run m).2 then
    [⟨relocSlot mod tab src m i, 4⟩]
  else match relocSym src m ((readRelocation src.pRelocations i).run m).2 with
    | some sym => symSpans sym (relocSlot mod tab src m i)
    | none => []

theorem relocSpans_sub {mod : Module} {tab : SectView} {src : RelocSource} {m : Mem} {i : Nat}
    {s : Span} (h : s ∈ relocSpans mod tab src m i) : s = ⟨relocSlot mod tab src m i, 4⟩ := by
  rw [relocSpans] at h
  split at h
  · exact List.mem_singleton.mp h
  · split at h
    · rw [symSpans] at h
      split at h
      · exact List.mem_singleton.mp h
      · exact absurd h List.not_mem_nil
    · exact absurd h List.not_mem_nil

/-- What a load has checked of an entry it applied. -/
structure RelocOk (pl : Placement) (numLot : UInt16) (rel : UInt32 × UInt32) (sym? : Option Sym)
    (slot : Addr) (word : UInt32) : Prop where
  slot_ne : slot ≠ 0
  base_lot : isBaseRelocation rel.2 = true → ¬ rel.1 < numLot.toUInt32
  base : isBaseRelocation rel.2 = true → ∃ t, pl.rebase rel.2 word = some t
  sym : isBaseRelocation rel.2 = false → ∃ sym, sym? = some sym ∧
    sym.type ≠ symTypeModuleName ∧ (isOwnSymbol sym → ∃ t, pl.own sym = some t)

/-- The answer comes from the host, asked for the name as it then was. -/
def Answered (host : Host) (m : Mem) (slot : Addr) (sym? : Option Sym) (ans : UInt32) : Prop :=
  ∀ sym, sym? = some sym → sym.type = symTypeWeak ∨ sym.type = symTypeExtern →
    ∃ w v, ans = host.resolve w ((readSymName sym.name).run (m.set32 slot v)) ∨
      ans = host.resolve w ((readSymName sym.name).run m)

def OnlyResolves (hs : List HostEvent) : Prop := ∀ e ∈ hs, ∃ name ans, e = .resolve name ans

variable {host : Host} {pHeader pSymtab : Addr} {tab : SectView} {sectioned : Bool}
  {lotOffset symtOffset : UInt32} {w w' : State}

theorem onlyResolves_nil : OnlyResolves [] := fun _ he => absurd he List.not_mem_nil

/-- Looking, then one store. -/
theorem did_log_set32 {as : List Addr} {p : Addr} {v : UInt32}
    (h : (Prog.set32 p v : Loader Unit).run (w.log (readEvents as)) = (.ok (), w')) :
    w'.handle = w.handle ∧ Did w w' (fun m => m.set32 p v) [⟨p, 4⟩] [] := by
  have hd := Did.of_log (Did.of_set32 h)
  rw [Prog.run_set32, Prod.mk.injEq] at h
  exact ⟨h.2 ▸ rfl, hd⟩

theorem applyBaseRelocation_ok
    (h : (applyBaseRelocation pHeader tab sectioned lotOffset symtOffset).run w = (.ok (), w')) :
    w'.handle = w.handle ∧
      ¬ lotOffset < (decodeHeader w.mem pHeader).numLot.toUInt32 ∧
      (getRelocTarget w.handle tab lotOffset).run w.mem ≠ 0 ∧
      ∃ t, (placementOf w.handle tab sectioned w.mem).rebase symtOffset
          (w.mem.u32 ((getRelocTarget w.handle tab lotOffset).run w.mem)) = some t ∧
        Did w w' (fun m => m.set32 ((getRelocTarget w.handle tab lotOffset).run w.mem) t)
          [⟨(getRelocTarget w.handle tab lotOffset).run w.mem, 4⟩] [] := by
  rw [applyBaseRelocation, Prog.run_getHandle_bind, Prog.run_lift_bind, readHeader_run] at h
  split at h
  next => simp at h
  next hlot =>
    rw [Prog.run_lift_bind, World.log_mem] at h
    split at h
    next => simp at h
    next hp =>
      rw [Prog.run_lift_bind] at h
      simp only [World.log_mem, World.log_log, ← readEvents_append, Reader.run_u32] at h
      cases sectioned with
      | true =>
        rw [if_pos rfl, Prog.run_lift_bind] at h
        simp only [World.log_mem, World.log_log, ← readEvents_append] at h
        split at h
        next => simp at h
        next t ht =>
          obtain ⟨hh, hd⟩ := did_log_set32 h
          exact ⟨hh, hlot, hp, t, ht, hd⟩
      | false =>
        rw [if_neg Bool.false_ne_true, placementOf, if_neg Bool.false_ne_true] at *
        split at h
        next hbit =>
          rw [Prog.run_lift_bind] at h
          simp only [World.log_mem, World.log_log, ← readEvents_append] at h
          obtain ⟨hh, hd⟩ := did_log_set32 h
          refine ⟨hh, hlot, hp, _, ?_, hd⟩
          rw [rebase_data _ hbit, add_sub_assoc]
        next hbit =>
          rw [Prog.run_lift_bind] at h
          simp only [World.log_mem, World.log_log, ← readEvents_append] at h
          obtain ⟨hh, hd⟩ := did_log_set32 h
          refine ⟨hh, hlot, hp, _, ?_, hd⟩
          rw [rebase_code _ hbit, UInt32.add_comm]
theorem resolveSymbol_run {name : SymName} {ans : UInt32}
    (h : (resolveSymbol host name).run w = (.ok ans, w')) :
    (∃ wq, ans = host.resolve wq ((readSymName name).run w.mem)) ∧
      w' = w.log (readEvents ((readSymName name).reads w.mem) ++
        [.host (.resolve ((readSymName name).run w.mem) ans)]) := by
  rw [resolveSymbol, Prog.run_lift_bind, resolveName, Prog.run_host, World.log_log,
    Prod.mk.injEq, Except.ok.injEq] at h
  obtain ⟨rfl, rfl⟩ := h
  exact ⟨⟨_, rfl⟩, rfl⟩

/-- A query adds one callback. -/
theorem did_resolveSymbol {name : SymName} {ans : UInt32}
    (h : (resolveSymbol host name).run w = (.ok ans, w')) :
    w'.handle = w.handle ∧
      Did w w' id [] [.resolve ((readSymName name).run w.mem) ans] := by
  obtain ⟨-, rfl⟩ := resolveSymbol_run h
  refine ⟨rfl, rfl, _, World.extends_log _ _, ?_, fun s hs => ?_⟩
  · rw [hostEvents_append, hostEvents_readEvents]
    rfl
  · rcases List.mem_append.mp hs with hs | hs
    · exact absurd hs Did.readEvent_not_write
    · simp at hs

theorem onlyResolves_one (name : List UInt8) (ans : UInt32) :
    OnlyResolves [.resolve name ans] := by
  intro e he
  exact ⟨name, ans, List.mem_singleton.mp he⟩

/-- The effect of a symbol relocation on its slot. -/
structure SymEffect (host : Host) (pl : Placement) (sym : Sym) (symtOffset : UInt32) (p : Addr)
    (w w' : State) (ans : UInt32) (hs : List HostEvent) : Prop where
  handle : w'.handle = w.handle
  named : sym.type ≠ symTypeModuleName
  own : isOwnSymbol sym → ∃ t, pl.own sym = some t
  resolves : OnlyResolves hs
  answered : Answered host w.mem p (some sym) ans
  did : Did w w' (Patch.apply ⟨p, refWord pl (fun _ => ans) symtOffset (some sym)⟩)
    (symSpans sym p) hs

theorem answered_of_other {m : Mem} {p : Addr} {sym : Sym} {ans : UInt32}
    (h : ¬ (sym.type = symTypeWeak ∨ sym.type = symTypeExtern)) :
    Answered host m p (some sym) ans := by
  intro sym' hs ht
  cases hs
  exact absurd ht h

/-- The default first, then the host's word on it. -/
theorem weak_effect {pl : Placement} {sym : Sym} {p t : Addr} {as : List Addr}
    (hbase : isBaseRelocation symtOffset = false) (hweak : sym.type = symTypeWeak)
    (hown : pl.own sym = some t)
    (h : (do
      Prog.set32 p t
      let symAddr ← resolveSymbol host sym.name
      if symAddr = symDeferred then pure ()
      else if symAddr > 0 then Prog.set32 p symAddr
      else pure () : Loader Unit).run (w.log (readEvents as)) = (.ok (), w')) :
    ∃ ans hs, SymEffect host pl sym symtOffset p w w' ans hs := by
  rw [Prog.run_bind_ok] at h
  obtain ⟨⟨⟩, w1, hset, h⟩ := h
  obtain ⟨hh1, hd1⟩ := did_log_set32 hset
  rw [Prog.run_bind_ok] at h
  obtain ⟨ans, w2, hres, h⟩ := h
  obtain ⟨hh2, hd2⟩ := did_resolveSymbol hres
  obtain ⟨⟨wq, hans⟩, -⟩ := resolveSymbol_run hres
  have hd := hd1.trans hd2
  have hval : ∀ word, refWord pl (fun _ => ans) symtOffset (some sym) word =
      some (weakWord t ans) := by
    intro word
    rw [refWord_sym hbase, if_neg (by rw [hweak]; decide), if_pos hweak, hown]
    rfl
  have hansw : Answered host w.mem p (some sym) ans := by
    intro sym' hs _
    cases hs
    rw [hd1.mem] at hans
    exact ⟨wq, t, Or.inl hans⟩
  have hspans : symSpans sym p = [⟨p, 4⟩] := symSpans_written (by simp [writesSym, hweak])
  refine ⟨ans, [.resolve ((readSymName sym.name).run w1.mem) ans], ?_⟩
  have hkeep : ∀ w'', w'' = w2 → weakWord t ans = t →
      SymEffect host pl sym symtOffset p w w'' ans
        [.resolve ((readSymName sym.name).run w1.mem) ans] := by
    rintro w'' rfl hw
    refine ⟨hh2.trans hh1, by rw [hweak]; decide, fun _ => ⟨t, hown⟩, onlyResolves_one _ _, hansw,
      hspans ▸ Did.patch (v := t) hd rfl ?_⟩
    rw [hval, hw]
  split at h
  next hdef =>
    simp only [Prog.run_pure, Prod.mk.injEq, true_and] at h
    exact hkeep w' h.symm (if_pos (Or.inl hdef))
  next hdef =>
    split at h
    next hpos =>
      have hne : ans ≠ 0 := UInt32.pos_iff_ne_zero.mp hpos
      have hd3 := hd.trans (Did.of_set32 h)
      have hh3 : w'.handle = w2.handle := by
        rw [Prog.run_set32, Prod.mk.injEq] at h
        exact h.2 ▸ rfl
      refine ⟨hh3.trans (hh2.trans hh1), by rw [hweak]; decide, fun _ => ⟨t, hown⟩,
        onlyResolves_one _ _, hansw, ?_⟩
      have hv : refWord pl (fun _ => ans) symtOffset (some sym) (w.mem.u32 p) = some ans := by
        rw [hval, weakWord, if_neg (by simp [hdef, hne])]
      rw [hspans]
      exact Did.weaken (Did.patch hd3 (set32_set32_same w.mem p t ans) hv) (by simp)
    next hpos =>
      simp only [Prog.run_pure, Prod.mk.injEq, true_and] at h
      have hz : ans = 0 := by
        by_contra hne
        exact hpos (UInt32.pos_iff_ne_zero.mpr hne)
      exact hkeep w' h.symm (if_pos (Or.inr hz))

theorem extern_effect {pl : Placement} {sym : Sym} {p : Addr} {as : List Addr}
    (hbase : isBaseRelocation symtOffset = false) (hext : sym.type = symTypeExtern)
    (h : (do
      let symAddr ← resolveSymbol host sym.name
      if symAddr = symDeferred then Prog.set32 p 0
      else if symAddr > 0 then Prog.set32 p symAddr
      else Prog.fail .loadUnknownSymbol : Loader Unit).run (w.log (readEvents as)) =
        (.ok (), w')) :
    ∃ ans hs, SymEffect host pl sym symtOffset p w w' ans hs := by
  rw [Prog.run_bind_ok] at h
  obtain ⟨ans, w1, hres, h⟩ := h
  obtain ⟨hh1, hd1⟩ := did_resolveSymbol hres
  obtain ⟨⟨wq, hans⟩, -⟩ := resolveSymbol_run hres
  have hd1 := Did.of_log hd1
  have hval : ∀ word, refWord pl (fun _ => ans) symtOffset (some sym) word =
      some (externWord ans) := by
    intro word
    rw [refWord_sym hbase, if_neg (by rw [hext]; decide), if_neg (by rw [hext]; decide),
      if_pos hext]
  have hspans : symSpans sym p = [⟨p, 4⟩] := symSpans_written (by simp [writesSym, hext])
  refine ⟨ans, [.resolve ((readSymName sym.name).run w.mem) ans], ?_⟩
  have hstore : ∀ v, (Prog.set32 p v : Loader Unit).run w1 = (.ok (), w') → externWord ans = v →
      SymEffect host pl sym symtOffset p w w' ans
        [.resolve ((readSymName sym.name).run w.mem) ans] := by
    intro v hset hv
    have hd2 := hd1.trans (Did.of_set32 hset)
    rw [Prog.run_set32, Prod.mk.injEq] at hset
    refine ⟨hset.2 ▸ hh1, by rw [hext]; decide, fun ho => ?_, onlyResolves_one _ _, ?_,
      hspans ▸ Did.patch hd2 rfl ((hval _).trans (congrArg some hv))⟩
    · rw [isOwnSymbol, hext] at ho
      exact absurd ho (by decide)
    · intro sym' hs _
      cases hs
      exact ⟨wq, 0, Or.inr hans⟩
  split at h
  next hdef => exact hstore 0 h (if_pos hdef)
  next hdef =>
    split at h
    next => exact hstore ans h (if_neg hdef)
    next => simp at h

theorem applySymRelocation_ok
    (hu : sectioned = false → isSectioned (decodeHeader w.mem w.handle.pHeader) = false)
    (hbase : isBaseRelocation symtOffset = false)
    (h : (applySymRelocation host pHeader pSymtab tab sectioned lotOffset symtOffset).run w =
      (.ok (), w')) :
    (getRelocTarget w.handle tab lotOffset).run w.mem ≠ 0 ∧
      ∃ sym, (getSymAtRaw pSymtab symtOffset (decodeHeader w.mem pHeader).symtSize).run w.mem =
        some sym ∧ ∃ ans hs, SymEffect host (placementOf w.handle tab sectioned w.mem) sym
          symtOffset ((getRelocTarget w.handle tab lotOffset).run w.mem) w w' ans hs := by
  rw [applySymRelocation, Prog.run_getHandle_bind, Prog.run_lift_bind, readHeader_run,
    Prog.run_lift_bind, World.log_mem, World.log_log, ← readEvents_append] at h
  generalize hp : (getRelocTarget w.handle tab lotOffset).run w.mem = p
  cases hs : (getSymAtRaw pSymtab symtOffset (decodeHeader w.mem pHeader).symtSize).run w.mem with
  | none =>
    rw [hs] at h
    simp at h
  | some sym =>
    rw [hs] at h
    dsimp only at h
    rw [Prog.run_lift_bind, World.log_mem, World.log_log, ← readEvents_append, hp] at h
    split at h
    next => simp at h
    next hne =>
      refine ⟨hne, sym, rfl, ?_⟩
      split at h
      next hint =>
        have hown : isOwnSymbol sym := hint.elim Or.inl fun h => Or.inr (Or.inl h)
        rw [Prog.run_lift_bind, World.log_mem, World.log_log, ← readEvents_append,
          ownAddress_run hu hown] at h
        split at h
        next => simp at h
        next t ht =>
          obtain ⟨hh, hd⟩ := did_log_set32 h
          have hspans : symSpans sym p = [⟨p, 4⟩] :=
            symSpans_written (by rcases hint with hi | hi <;> simp [writesSym, hi])
          refine ⟨0, [], hh, ?_, fun _ => ⟨t, ht⟩, onlyResolves_nil, answered_of_other ?_,
            hspans ▸ Did.patch hd rfl ?_⟩
          · rcases hint with hi | hi <;> rw [hi] <;> decide
          · rcases hint with hi | hi <;> rw [hi] <;> decide
          · rw [refWord_sym hbase, if_pos hint, ht]
      next hint =>
        split at h
        next hweak =>
          have hown : isOwnSymbol sym := Or.inr (Or.inr hweak)
          rw [Prog.run_lift_bind, World.log_mem, World.log_log, ← readEvents_append,
            ownAddress_run hu hown] at h
          split at h
          next => simp at h
          next t ht => exact weak_effect hbase hweak ht h
        next hweak =>
          split at h
          next hext => exact extern_effect hbase hext h
          next hext =>
            split at h
            next => simp at h
            next hname =>
              simp only [Prog.run_pure, Prod.mk.injEq, true_and] at h
              refine ⟨0, [], h ▸ rfl, hname, fun ho => ?_, onlyResolves_nil,
                answered_of_other (by simp [hweak, hext]), ?_⟩
              · rw [isOwnSymbol] at ho
                simp only [hweak, or_false] at ho
                exact absurd ho hint
              · have hd : Did w w' id [] [] := h ▸ Did.log w _
                refine Did.weaken (Did.no_patch hd ?_) (by simp)
                rw [refWord_sym hbase, if_neg hint, if_neg hweak, if_neg hext]

/-! ## One entry -/

theorem applyRelocation_ok {src : RelocSource} {i : Nat}
    (hu : sectioned = false → isSectioned (decodeHeader w.mem w.handle.pHeader) = false)
    (h : (applyRelocation host src.pHeader src.pRelocations src.pSymtab tab sectioned i).run w =
      (.ok (), w')) :
    w'.handle = w.handle ∧
      RelocOk (placementOf w.handle tab sectioned w.mem) (decodeHeader w.mem src.pHeader).numLot
        ((readRelocation src.pRelocations i).run w.mem)
        (relocSym src w.mem ((readRelocation src.pRelocations i).run w.mem).2)
        (relocSlot w.handle tab src w.mem i) (w.mem.u32 (relocSlot w.handle tab src w.mem i)) ∧
      ∃ ans hs, OnlyResolves hs ∧
        (isBaseRelocation ((readRelocation src.pRelocations i).run w.mem).2 = false →
          Answered host w.mem (relocSlot w.handle tab src w.mem i)
            (relocSym src w.mem ((readRelocation src.pRelocations i).run w.mem).2) ans) ∧
        Did w w' (relocPatch (fun _ => ans) w.handle tab sectioned src w.mem i).apply
          (relocSpans w.handle tab src w.mem i) hs := by
  rw [applyRelocation, Prog.run_lift_bind] at h
  unfold relocPatch relocSpans relocSlot
  rcases hrel : (readRelocation src.pRelocations i).run w.mem with ⟨lotOffset, symtOffset⟩
  rw [hrel] at h
  dsimp only at h ⊢
  cases hb : isBaseRelocation symtOffset with
  | true =>
    rw [hb, if_pos rfl] at h
    obtain ⟨hh, hlot, hne, t, ht, hd⟩ := applyBaseRelocation_ok h
    simp only [World.log_mem, World.log_handle] at hh hlot hne ht hd
    rw [if_pos rfl]
    refine ⟨hh, ⟨hne, fun _ => hlot, fun _ => ⟨t, ht⟩, fun hf => ?_⟩, 0, [], onlyResolves_nil,
      fun hf => absurd hf (by decide), Did.patch (Did.of_log hd) rfl ?_⟩
    · exact absurd (hb.symm.trans hf) (by decide)
    · rw [refWord_base _ hb]
      exact ht
  | false =>
    rw [hb, if_neg Bool.false_ne_true] at h
    obtain ⟨hne, sym, hsym, ans, hs, he⟩ := applySymRelocation_ok
      (by simpa only [World.log_mem, World.log_handle] using hu) hb h
    simp only [World.log_mem, World.log_handle] at hne hsym he
    have hsym' : relocSym src w.mem symtOffset = some sym := hsym
    have hbase : isBaseRelocation symtOffset ≠ true := by
      rw [hb]
      decide
    rw [hsym', if_neg Bool.false_ne_true]
    exact ⟨he.handle, ⟨hne, fun ht => absurd ht hbase, fun ht => absurd ht hbase,
      fun _ => ⟨sym, rfl, he.named, he.own⟩⟩, ans, hs, he.resolves, fun _ => he.answered,
      Did.of_log he.did⟩

/-! ## The walk -/

/-- `P` covers what the walk reads, as far as it is read. -/
structure WalkIn (P : Addr → Prop) (mod : Module) (tab : SectView) (src : RelocSource)
    (numRels : Nat) (m : Mem) : Prop where
  view : ViewIn P tab
  own : ModIn P mod tab.num m
  header : Covers P ⟨src.pHeader, 32⟩
  relocs : Covers P ⟨src.pRelocations, 8 * numRels⟩
  symt : Covers P ⟨src.pSymtab, (decodeHeader m src.pHeader).symtSize.toNat⟩
  untagged : tab.num = 0 → isSectioned (decodeHeader m mod.pHeader) = false

/-- A mask of one bit that finds nothing. -/
theorem testBit_of_and_two_pow {x y : UInt32} {k : Nat} (hy : y.toNat = 2 ^ k)
    (h : x &&& y = 0) : x.toNat.testBit k = false := by
  have hb := congrArg (fun v => v.toNat.testBit k) h
  simpa [UInt32.toNat_and, hy, Nat.testBit_and, Nat.testBit_two_pow_self] using hb

/-- Neither tag bit is set: the entry names a symbol by a small index. -/
theorem isBaseRelocation_eq_false {symtOffset : UInt32}
    (h : isBaseRelocation symtOffset = false) : symtOffset.toNat < 2 ^ 30 := by
  simp only [isBaseRelocation, Bool.or_eq_false_iff, bne_eq_false_iff_eq] at h
  have h31 := testBit_of_and_two_pow (k := 31) rfl h.1
  have h30 := testBit_of_and_two_pow (k := 30) rfl h.2
  refine Nat.lt_pow_two_of_testBit _ fun i hi => ?_
  rcases Nat.lt_or_ge i 32 with hlt | hge
  · rcases (show i = 30 ∨ i = 31 by omega) with rfl | rfl
    · exact h30
    · exact h31
  · exact Nat.testBit_lt_two_pow
      (Nat.lt_of_lt_of_le symtOffset.toNat_lt (Nat.pow_le_pow_right (by decide) hge))

namespace WalkIn

variable {P : Addr → Prop} {mod : Module} {src : RelocSource} {numRels : Nat} {m m' : Mem}

theorem sourceHeader (h : WalkIn P mod tab src numRels m) (ha : ∀ a, P a → m a = m' a) :
    decodeHeader m' src.pHeader = decodeHeader m src.pHeader :=
  (within_readHeader h.header m).congr ha

theorem ownHeader (h : WalkIn P mod tab src numRels m) (ha : ∀ a, P a → m a = m' a) :
    decodeHeader m' mod.pHeader = decodeHeader m mod.pHeader :=
  (within_readHeader h.own.header m).congr ha

theorem transfer (h : WalkIn P mod tab src numRels m) (ha : ∀ a, P a → m a = m' a) :
    WalkIn P mod tab src numRels m' := by
  have hs := h.sourceHeader ha
  have ho := h.ownHeader ha
  exact ⟨h.view, ⟨h.own.header, ho ▸ h.own.bases⟩, h.header, h.relocs, hs ▸ h.symt,
    ho ▸ h.untagged⟩

variable (hn : numRels < 2 ^ 16)

include hn in
theorem entry (h : WalkIn P mod tab src numRels m) (ha : ∀ a, P a → m a = m' a) {i : Nat}
    (hi : i < numRels) :
    (readRelocation src.pRelocations i).run m' = (readRelocation src.pRelocations i).run m :=
  (within_readRelocation h.relocs hi (by omega) m).congr ha

include hn in
theorem slot (h : WalkIn P mod tab src numRels m) (ha : ∀ a, P a → m a = m' a) {i : Nat}
    (hi : i < numRels) : relocSlot mod tab src m' i = relocSlot mod tab src m i := by
  rw [relocSlot, relocSlot, h.entry hn ha hi]
  exact (within_getRelocTarget h.view h.own h.untagged _).congr ha

theorem sym (h : WalkIn P mod tab src numRels m) (ha : ∀ a, P a → m a = m' a)
    {symtOffset : UInt32} (hb : isBaseRelocation symtOffset = false) :
    relocSym src m' symtOffset = relocSym src m symtOffset := by
  have hlt := isBaseRelocation_eq_false hb
  rw [relocSym, relocSym, h.sourceHeader ha]
  exact (within_getSymAtRaw h.symt (by omega) m).congr ha

theorem placement (h : WalkIn P mod tab src numRels m) (ha : ∀ a, P a → m a = m' a)
    (hs : sectioned = false → tab.num = 0) :
    placementOf mod tab sectioned m' = placementOf mod tab sectioned m := by
  cases sectioned with
  | true =>
    have hmap : (fun va => (resolveRuntimeVa mod tab va).run m') =
        fun va => (resolveRuntimeVa mod tab va).run m :=
      funext fun va => (within_resolveRuntimeVa h.view h.own va).congr ha
    rw [placementOf, if_pos rfl, hmap]
    rfl
  | false =>
    have hu := h.untagged (hs rfl)
    rw [placementOf, placementOf, if_neg Bool.false_ne_true, if_neg Bool.false_ne_true,
      (within_getCodePointer h.own hu).congr ha, (within_getDataPointer h.own hu).congr ha]

include hn in
theorem patch (h : WalkIn P mod tab src numRels m) (ha : ∀ a, P a → m a = m' a)
    (hs : sectioned = false → tab.num = 0) (resolve : SymName → UInt32) {i : Nat}
    (hi : i < numRels) :
    relocPatch resolve mod tab sectioned src m' i = relocPatch resolve mod tab sectioned src m i := by
  have hv : (relocPatch resolve mod tab sectioned src m' i).value =
      (relocPatch resolve mod tab sectioned src m i).value := by
    rw [relocPatch, relocPatch, h.entry hn ha hi, h.placement ha hs]
    cases hb : isBaseRelocation ((readRelocation src.pRelocations i).run m).2 with
    | true =>
      funext word
      dsimp only
      rw [refWord_base _ hb, refWord_base _ hb]
    | false => rw [h.sym ha hb]
  rw [relocPatch, relocPatch, Patch.mk.injEq]
  exact ⟨h.slot hn ha hi, hv⟩

include hn in
theorem spans (h : WalkIn P mod tab src numRels m) (ha : ∀ a, P a → m a = m' a) {i : Nat}
    (hi : i < numRels) : relocSpans mod tab src m' i = relocSpans mod tab src m i := by
  rw [relocSpans, relocSpans, h.entry hn ha hi, h.slot hn ha hi]
  cases hb : isBaseRelocation ((readRelocation src.pRelocations i).run m).2 with
  | true => rfl
  | false => rw [h.sym ha hb]

end WalkIn

/-- Entry `k` was accepted by a walk of `m0` that had come to memory `m`, and its
answer comes from the host, asked when `P` was still intact. -/
structure EntryOk (host : Host) (P : Addr → Prop) (mod : Module) (tab : SectView)
    (sectioned : Bool) (src : RelocSource) (m0 m : Mem) (k : Nat) (ans : UInt32) : Prop where
  ok : RelocOk (placementOf mod tab sectioned m0) (decodeHeader m0 src.pHeader).numLot
    ((readRelocation src.pRelocations k).run m0)
    (relocSym src m0 ((readRelocation src.pRelocations k).run m0).2)
    (relocSlot mod tab src m0 k) (m.u32 (relocSlot mod tab src m0 k))
  answered : isBaseRelocation ((readRelocation src.pRelocations k).run m0).2 = false →
    ∀ sym, relocSym src m0 ((readRelocation src.pRelocations k).run m0).2 = some sym →
      sym.type = symTypeWeak ∨ sym.type = symTypeExtern →
      ∃ w m', (∀ a, P a → m0 a = m' a) ∧ ans = host.resolve w ((readSymName sym.name).run m')

/-- The patches of `n` entries from `i` on, given their answers. -/
def relocPatches (ans : Nat → UInt32) (mod : Module) (tab : SectView) (sectioned : Bool)
    (src : RelocSource) (m : Mem) (i n : Nat) : List Patch :=
  (List.range' i n).map fun k => relocPatch (fun _ => ans k) mod tab sectioned src m k

theorem relocPatches_succ (ans : Nat → UInt32) (mod : Module) (tab : SectView) (sectioned : Bool)
    (src : RelocSource) (m : Mem) (i n : Nat) :
    relocPatches ans mod tab sectioned src m i (n + 1) =
      relocPatch (fun _ => ans i) mod tab sectioned src m i ::
        relocPatches ans mod tab sectioned src m (i + 1) n := rfl

/-- An answer of an earlier entry is not looked at. -/
theorem relocPatches_update (ans : Nat → UInt32) (a : UInt32) (mod : Module) (tab : SectView)
    (sectioned : Bool) (src : RelocSource) (m : Mem) (i n : Nat) :
    relocPatches (Function.update ans i a) mod tab sectioned src m (i + 1) n =
      relocPatches ans mod tab sectioned src m (i + 1) n := by
  refine List.map_congr_left fun k hk => ?_
  have hlt : i < k := (List.mem_range'_1.mp hk).1
  rw [Function.update_of_ne (by omega)]

/-- One accepted entry, as the start of the walk sees it. -/
theorem entryOk_of_step {P : Addr → Prop} {mod : Module} {src : RelocSource} {numRels k : Nat}
    {m0 m : Mem} {a : UInt32} (hW : WalkIn P mod tab src numRels m0)
    (hag : ∀ a, P a → m0 a = m a)
    (hclear : ∀ s ∈ relocSpans mod tab src m0 k, ∀ a, P a → a ∉ s)
    (hok : RelocOk (placementOf mod tab sectioned m0) (decodeHeader m0 src.pHeader).numLot
      ((readRelocation src.pRelocations k).run m0)
      (relocSym src m ((readRelocation src.pRelocations k).run m0).2)
      (relocSlot mod tab src m0 k) (m.u32 (relocSlot mod tab src m0 k)))
    (hans : isBaseRelocation ((readRelocation src.pRelocations k).run m0).2 = false →
      Answered host m (relocSlot mod tab src m0 k)
        (relocSym src m ((readRelocation src.pRelocations k).run m0).2) a) :
    EntryOk host P mod tab sectioned src m0 m k a := by
  refine ⟨⟨hok.slot_ne, hok.base_lot, hok.base, fun hb => ?_⟩, fun hb sym hsym htype => ?_⟩
  · rw [← hW.sym hag hb]
    exact hok.sym hb
  · obtain ⟨wq, v, hq⟩ := hans hb sym ((hW.sym hag hb).trans hsym) htype
    rcases hq with hq | hq
    · refine ⟨wq, _, fun x hx => ?_, hq⟩
      have hspan : (⟨relocSlot mod tab src m0 k, 4⟩ : Span) ∈ relocSpans mod tab src m0 k := by
        rw [relocSpans, hb, if_neg Bool.false_ne_true, hsym]
        dsimp only
        rw [symSpans_written (by rcases htype with ht | ht <;> simp [writesSym, ht])]
        exact List.mem_singleton_self _
      have hout := hclear _ hspan x hx
      exact (hag x hx).trans (store_notMem hout).symm
    · exact ⟨wq, m, hag, hq⟩

/-- A walk that no entry disturbs applies the patches of the memory it found. -/
theorem applyRelocationsLoop_ok {P : Addr → Prop} {mod : Module} {src : RelocSource}
    {numRels : Nat} {m0 : Mem} (hW : WalkIn P mod tab src numRels m0) (hn : numRels < 2 ^ 16)
    (hs : sectioned = false → tab.num = 0)
    (hclear : ∀ k, k < numRels → relocSlot mod tab src m0 k ≠ 0 →
      ∀ s ∈ relocSpans mod tab src m0 k, ∀ a, P a → a ∉ s)
    {n i : Nat} (hi : i + n ≤ numRels) (hmod : w.handle = mod) (hag : ∀ a, P a → m0 a = w.mem a)
    (h : (applyRelocationsLoop host src.pHeader src.pRelocations src.pSymtab tab sectioned n
      i).run w = (.ok (), w')) :
    w'.handle = mod ∧ ∃ ans hs, OnlyResolves hs ∧
      Did w w' (Patch.applyAll (relocPatches ans mod tab sectioned src m0 i n))
        ((List.range' i n).flatMap (relocSpans mod tab src m0)) hs ∧
      ∀ k, k < n → EntryOk host P mod tab sectioned src m0
        (Patch.applyAll (relocPatches ans mod tab sectioned src m0 i k) w.mem) (i + k)
        (ans (i + k)) := by
  induction n generalizing i w with
  | zero =>
    simp only [applyRelocationsLoop, Prog.run_pure, Prod.mk.injEq, true_and] at h
    subst h
    exact ⟨hmod, fun _ => 0, [], onlyResolves_nil, Did.refl w, fun k hk => absurd hk (by omega)⟩
  | succ n ih =>
    rw [applyRelocationsLoop, Prog.run_bind_ok] at h
    obtain ⟨⟨⟩, w1, hone, hrest⟩ := h
    have hlt : i < numRels := by omega
    have hWw := hW.transfer hag
    obtain ⟨hh, hok, a, hs1, hres1, hans1, hd1⟩ := applyRelocation_ok
      (fun hf => hmod ▸ hWw.untagged (hs hf)) hone
    rw [hmod] at hh hok hans1 hd1
    rw [hW.entry hn hag hlt, hW.slot hn hag hlt, hW.placement hag hs, hW.sourceHeader hag] at hok
    rw [hW.entry hn hag hlt, hW.slot hn hag hlt] at hans1
    rw [hW.patch hn hag hs _ hlt, hW.spans hn hag hlt] at hd1
    have hclr := hclear i hlt hok.slot_ne
    have hag1 : ∀ x, P x → m0 x = w1.mem x := fun x hx =>
      (hag x hx).trans (hd1.notMem fun s hs => hclr s hs x hx).symm
    obtain ⟨hmod', ans, hs2, hres2, hd2, hall⟩ := ih (by omega) hh hag1 hrest
    refine ⟨hmod', Function.update ans i a, hs1 ++ hs2, ?_, ?_, fun k hk => ?_⟩
    · intro e he
      rcases List.mem_append.mp he with he | he
      · exact hres1 e he
      · exact hres2 e he
    · rw [relocPatches_succ, relocPatches_update, Function.update_self]
      exact hd1.trans hd2
    · cases k with
      | zero =>
        rw [Nat.add_zero, Function.update_self]
        exact entryOk_of_step hW hag hclr hok hans1
      | succ k =>
        have hk := hall k (by omega)
        rw [relocPatches_succ, relocPatches_update, Function.update_self,
          show i + (k + 1) = i + 1 + k by omega, Function.update_of_ne (by omega)]
        rw [hd1.mem] at hk
        exact hk

end Udynlink
