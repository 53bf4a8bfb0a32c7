import Udynlink.Linking
import Udynlink.MovedSymtab

/-!
# Resolution over runs of linking calls

Linking changes slots only, so the tables stay as the load left them, and with them the
answer of `udynlink_is_symbol_resolved`: the value word of the symbol. The slots follow it
as long as what is stored is 0 exactly when that word is.
-/

namespace Udynlink

open Machine

/-! ## A table that is not written -/

theorem strAt_congr {m m' : Mem} {p : Addr} {s : List UInt8} (h : StrAt m p s)
    (ha : ∀ i, i ≤ s.length → m (p + UInt32.ofNat i) = m' (p + UInt32.ofNat i)) :
    StrAt m' p s := by
  have h0 := ha 0 (Nat.zero_le _)
  rw [off_zero] at h0
  induction s generalizing p with
  | nil => exact h0.symm.trans h
  | cons c s ih =>
    have hnext : ∀ i, p + 1 + UInt32.ofNat i = p + UInt32.ofNat (i + 1) := by
      intro i
      rw [Nat.add_comm i 1]
      exact off_off p 1 i
    have hs : ∀ i, i ≤ s.length → m (p + 1 + UInt32.ofNat i) = m' (p + 1 + UInt32.ofNat i) := by
      intro i hi
      rw [hnext]
      exact ha (i + 1) (Nat.succ_le_succ hi)
    refine ⟨⟨h0.symm.trans h.1.1, h.1.2⟩, ih h.2 hs ?_⟩
    have h1 := hs 0 (Nat.zero_le _)
    rwa [off_zero] at h1

namespace SymTable

/-- The same table in two memories. -/
structure Same (t t' : SymTable) : Prop where
  base : t'.base = t.base
  size : t'.size = t.size
  agree : ∀ a ∈ (⟨t.base, t.size.toNat⟩ : Span), t.mem a = t'.mem a

namespace Same

variable {t t' : SymTable} (h : t.Same t')

include h

theorem words : t'.words = t.words := by
  unfold SymTable.words
  rw [h.size]

theorem word {k : Nat} (hk : k < t.words) :
    (symtWord t'.base (UInt32.ofNat k)).run t'.mem =
      (symtWord t.base (UInt32.ofNat k)).run t.mem := by
  have hsize := t.size.toNat_lt
  have hcov : Covers (fun a => a ∈ (⟨t.base, t.size.toNat⟩ : Span)) ⟨t.base, t.size.toNat⟩ :=
    fun a ha => ha
  unfold SymTable.words at hk
  have hidx : (UInt32.ofNat k).toNat = k := toNat_ofNat_of_lt (by omega)
  have hlt : UInt32.ofNat k < t.size / 4 := by
    rw [UInt32.lt_iff_toNat_lt, UInt32.toNat_div, hidx]
    exact hk
  rw [h.base]
  exact (within_symtWord hcov hlt t.mem).congr h.agree

theorem count (h1 : 1 ≤ t.words) : t'.count = t.count := by
  unfold SymTable.count
  exact congrArg UInt32.toNat (h.word (k := 0) (by omega))

theorem scanned : t'.scanned = t.scanned := by
  unfold SymTable.scanned
  rw [h.words]
  by_cases h1 : 1 ≤ t.words
  · rw [h.count h1]
  · omega

theorem readable : t'.readable = t.readable := by
  unfold SymTable.readable
  rw [h.words]
  by_cases h1 : 1 ≤ t.words
  · rw [h.count h1]
  · omega

theorem info {i : Nat} (hi : i < t.scanned) : t'.info i = t.info i := by
  unfold SymTable.scanned at hi
  exact h.word (by omega)

theorem named {i : Nat} (hi : i < t.scanned) : t'.Named i ↔ t.Named i := by
  unfold Named
  rw [h.info hi]

variable (hw : t.WellNamed)

include hw

theorem name {i : Nat} (h1 : 1 ≤ i) (hi : i < t.readable) (hn : t.Named i) :
    StrAt t'.mem (t'.base + t'.nameOff i) (t.name i) ∧ t'.name i = t.name i := by
  have hsize := t.size.toNat_lt
  have hle := t.readable_le_scanned
  obtain ⟨hs, hlen⟩ := hw.inside i h1 hi hn
  have hoff : t'.nameOff i = t.nameOff i := by
    unfold nameOff
    rw [h.info (by omega)]
  have hstr : StrAt t'.mem (t'.base + t'.nameOff i) (t.name i) := by
    rw [h.base, hoff]
    refine strAt_congr hs fun k hk => h.agree _ ?_
    rw [← UInt32.ofNat_toNat (x := t.nameOff i), off_off]
    exact off_mem (by omega) (by omega)
  refine ⟨hstr, ?_⟩
  exact run_cstr hstr (by omega)

theorem wellNamed : t'.WellNamed := by
  have hle := t.readable_le_scanned
  refine ⟨by rw [h.size]; exact hw.cap, fun i h1 hi hn => ?_, fun i j h1 hi hn h1' hj hn' he => ?_⟩
  · rw [h.readable] at hi
    rw [h.named (by omega)] at hn
    obtain ⟨hs, he⟩ := h.name hw h1 hi hn
    have hlen := (hw.inside i h1 hi hn).2
    rw [he]
    refine ⟨hs, ?_⟩
    unfold nameOff at hlen ⊢
    rw [h.info (by omega), h.size]
    exact hlen
  · rw [h.readable] at hi hj
    rw [h.named (by omega)] at hn hn'
    rw [(h.name hw h1 hi hn).2, (h.name hw h1' hj hn').2] at he
    exact hw.distinct i j h1 hi hn h1' hj hn' he

theorem overcounted (ho : Overcounted t') : Overcounted t := by
  have hsucc := t.scanned_le_succ
  obtain ⟨N, hN, hbig, hpos, ha⟩ := ho
  have hbound : N < t.scanned := by
    have := hN.bound
    rw [h.scanned] at this
    omega
  have hnamed : ∀ i, 1 ≤ i → i ≤ N → t.Named i :=
    fun i h1 hi => (h.named (by omega)).mp (hN.named i h1 hi)
  refine ⟨N, ⟨Or.inr hbound, hnamed, fun i hi hlt hn => ?_⟩, hbig, hpos, fun i h1 hi => ?_⟩
  · exact hN.nameless i hi (by rw [h.scanned]; exact hlt) ((h.named hlt).mpr hn)
  · have hcmp := ha i h1 hi
    rwa [(h.name hw h1 (by omega) (hnamed i h1 (by omega))).2,
      (h.name hw (by omega) (by omega) (hnamed (i + 1) (by omega) (by omega))).2] at hcmp

end Same

end SymTable

/-! ## A module whose slots have changed -/

namespace LinkTables

variable {w w' : State}

theorem numLinks_lt (w : State) : numLinks w < 2 ^ 16 := UInt16.toNat_lt _

section

variable (hl : LinkTables w) (hs : SameModule w w')

include hl hs

theorem header : decodeHeader w'.mem w'.handle.pHeader = decodeHeader w.mem w.handle.pHeader := by
  rw [hs.handle]
  exact hl.walk.ownHeader hs.agree

theorem source : ownSource w' = ownSource w := by
  unfold ownSource
  rw [hl.header hs, hs.handle]

theorem tab : ownView w' = ownView w := by
  unfold ownView
  rw [hs.handle, hl.view.congr hs.agree]

theorem links : numLinks w' = numLinks w := by
  unfold numLinks
  rw [hl.header hs]

theorem entry {k : Nat} (hk : k < numLinks w) : linkEntry w' k = linkEntry w k := by
  unfold linkEntry
  rw [hl.source hs]
  exact hl.walk.entry (numLinks_lt w) hs.agree hk

theorem slot {k : Nat} (hk : k < numLinks w) : linkSlot w' k = linkSlot w k := by
  unfold linkSlot
  rw [hl.source hs, hl.tab hs, hs.handle]
  exact hl.walk.slot (numLinks_lt w) hs.agree hk

theorem sym {i : UInt32} (hb : isBaseRelocation i = false) :
    relocSym (ownSource w') w'.mem i = relocSym (ownSource w) w.mem i := by
  rw [hl.source hs]
  exact hl.walk.sym hs.agree hb

theorem beside : BesideSlots w' = BesideSlots w := by
  funext a
  refine propext ⟨fun h k hk => ?_, fun h k hk => ?_⟩
  · rw [← hl.slot hs hk]
    exact h k (by rw [hl.links hs]; exact hk)
  · rw [hl.links hs] at hk
    rw [hl.slot hs hk]
    exact h k hk

theorem table : (symTable w.mem w.handle.pHeader).Same (symTable w'.mem w'.handle.pHeader) := by
  have hh := hl.header hs
  have hsym := hl.walk.symt
  unfold symTable
  rw [hh, hs.handle]
  exact ⟨rfl, rfl, fun a ha => hs.agree a (hsym a ha)⟩

theorem step : LinkTables w' := by
  refine ⟨?_, ?_⟩
  · rw [hl.beside hs, hl.tab hs, hl.source hs, hl.links hs, hs.handle]
    exact hl.walk.transfer hs.agree
  · rw [hl.beside hs, hs.handle]
    exact hl.view.transfer hs.agree

end

end LinkTables

namespace LinkLayout

variable {w w' : State} {j : UInt32}

section

variable (hl : LinkLayout w j) (hs : SameModule w w')

include hl hs

theorem told {val : UInt32} {m : Mem} {n : Nat} (hn : n ≤ numLinks w) :
    SlotsTold w' j val m n ↔ SlotsTold w j val m n := by
  refine forall_congr' fun i => forall_congr' fun hi => ?_
  rw [hl.entry hs (by omega), hl.slot hs (by omega)]

/-- The layout stays. -/
theorem step : LinkLayout w' j := by
  refine ⟨hl.toLinkTables.step hs, (hl.table hs).wellNamed hl.named,
    fun ho => hl.counted ((hl.table hs).overcounted hl.named ho), fun i k hi hk he => ?_⟩
  · rw [hl.links hs] at hi hk
    rw [hl.entry hs hi] at he
    rw [hl.slot hs hi, hl.slot hs hk, hl.entry hs hk]
    exact hl.apart i k hi hk he

end

end LinkLayout

section

variable {w v : State} {j : UInt32} {sym : Sym} {name : List UInt8}

theorem relocSym_entry (hx : relocSym (ownSource w) w.mem j = some sym)
    (hb : isBaseRelocation j = false) : j.toNat < (symTable w.mem w.handle.pHeader).readable ∧
      sym = (symTable w.mem w.handle.pHeader).entry j.toNat ∧
        (j.toNat = 0 → sym.type = symTypeModuleName) := by
  have hidx : UInt32.ofNat j.toNat = j := UInt32.ofNat_toNat
  refine SymTable.getSymAtRaw_some (isBaseRelocation_eq_false hb) ?_
  rw [hidx]
  exact hx

/-- The symbol is one the lookup finds. -/
theorem ExternAt.foundAt (hx : ExternAt w j sym name) :
    FoundAt (symTable w.mem w.handle.pHeader) name j.toNat ∧
      sym = (symTable w.mem w.handle.pHeader).entry j.toNat := by
  obtain ⟨hr, hsym, hfirst⟩ := relocSym_entry hx.found hx.base
  have hty := hx.type
  have hname := hx.named
  rw [hsym] at hty hname
  have hn : (symTable w.mem w.handle.pHeader).Named j.toNat := by
    have hinfo : symTypeOf ((symTable w.mem w.handle.pHeader).info j.toNat) = symTypeExtern := hty
    unfold SymTable.Named
    rw [hinfo]
    decide
  have h1 : 1 ≤ j.toNat := by
    by_contra h0
    exact absurd ((hfirst (by omega)).symm.trans hx.type) (by decide)
  exact ⟨⟨⟨h1, hr⟩, hn, (readSymName_entry hn).symm.trans hname⟩, hsym⟩

/-- It stays that symbol. -/
theorem ExternAt.step (hx : ExternAt w j sym name) (hl : LinkLayout w j) (hs : SameModule w v) :
    ExternAt v j sym name := by
  have hfound : relocSym (ownSource v) v.mem j = some sym := (hl.sym hs hx.base).trans hx.found
  refine ⟨hx.base, hfound, hx.type, ?_⟩
  obtain ⟨⟨⟨h1, hr⟩, hn, hname⟩, -⟩ := hx.foundAt
  have hle := SymTable.readable_le_scanned (t := symTable w.mem w.handle.pHeader)
  have hn' : (symTable v.mem v.handle.pHeader).Named j.toNat :=
    ((hl.table hs).named (by omega)).mpr hn
  obtain ⟨-, hsym, -⟩ := relocSym_entry hfound hx.base
  rw [hsym, readSymName_entry hn', ((hl.table hs).name hl.named h1 hr hn).2, hname]

end

/-! ## One entry -/

/-- The module of `w`, with slots of `j` that follow `val` among the first `done` entries. -/
structure Keeps (w : State) (j val : UInt32) (done : Nat) (v : State) : Prop where
  same : SameModule w v
  bound : done ≤ numLinks w
  told : SlotsTold w j val v.mem done
  later : w.trace.length ≤ v.trace.length

section

variable {w v v' : State} {j val : UInt32} {sym : Sym} {name : List UInt8} {k n done : Nat}
  {host : Host}

theorem SlotsTold.set32 {m : Mem} (h : SlotsTold w j val m n) (hl : LinkLayout w j)
    (hn : n ≤ numLinks w) (hk : k < numLinks w) {x : UInt32}
    (hx : (linkEntry w k).2 = j → (x ≠ 0 ↔ val ≠ 0)) :
    SlotsTold w j val (m.set32 (linkSlot w k) x) n := by
  intro i hi he
  rcases hl.apart i k (by omega) hk he with hd | ⟨hslot, hek⟩
  · have hsame : m.u32 (linkSlot w i) = (m.set32 (linkSlot w k) x).u32 (linkSlot w i) :=
      AgreeOn.u32 (store_agree hd.symm)
    rw [← hsame]
    exact h i hi he
  · rw [← hslot, u32_set32_same]
    exact hx hek

theorem SameModule.set32 (h : SameModule w v) (hk : k < numLinks w) {x : UInt32}
    (hh : v'.handle = v.handle) (hm : v'.mem = v.mem.set32 (linkSlot w k) x) : SameModule w v' := by
  refine ⟨hh.trans h.handle, fun a ha => ?_⟩
  rw [hm]
  exact (h.agree a ha).trans (store_notMem (ha k hk)).symm

theorem Keeps.set32 (h : Keeps w j val done v) (hl : LinkLayout w j) (hk : k < numLinks w) {x : UInt32}
    (hx : (linkEntry w k).2 = j → (x ≠ 0 ↔ val ≠ 0)) (hh : v'.handle = v.handle)
    (hm : v'.mem = v.mem.set32 (linkSlot w k) x) (ht : v.trace.length ≤ v'.trace.length) :
    Keeps w j val done v' := by
  refine ⟨h.same.set32 hk hh hm, h.bound, ?_, Nat.le_trans h.later ht⟩
  rw [hm]
  exact h.told.set32 hl h.bound hk hx

theorem Keeps.log (h : Keeps w j val done v) (as : List Addr) : Keeps w j val done (v.log (readEvents as)) := by
  refine ⟨⟨h.same.handle, h.same.agree⟩, h.bound, h.told, Nat.le_trans h.later ?_⟩
  rw [World.log_trace, List.length_append]
  exact Nat.le_add_right _ _

theorem trace_length_le {α : Type} (x : Loader α) (v : State) :
    v.trace.length ≤ (x.run v).2.trace.length := by
  obtain ⟨evs, he⟩ := x.traced v
  rw [he.1, List.length_append]
  exact Nat.le_add_right _ _

/-- What fits at the end of a program fits at its start. -/
theorem AnswersFit.before {α : Type} {x : Loader α} (h : AnswersFit w name val (x.run v).2) :
    AnswersFit w name val v := by
  intro ans ha
  obtain ⟨evs, he⟩ := x.traced v
  refine h ans ?_
  rw [he.1, List.drop_append]
  exact List.mem_append_left _ ha

theorem getSymAt_own (w : State) (i : UInt32) :
    (getSymAt w.handle.pHeader i).run w.mem = relocSym (ownSource w) w.mem i := rfl

/-- The target of an entry is its slot. -/
theorem target_eq (hl : LinkTables w) (hs : SameModule w v) (hk : k < numLinks w) :
    (getRelocTarget v.handle (ownView w) (linkEntry w k).1).run v.mem = linkSlot w k := by
  have hslot := hl.slot hs hk
  have hentry := hl.entry hs hk
  have hv : linkSlot v k = (getRelocTarget v.handle (ownView v) (linkEntry v k).1).run v.mem := rfl
  rw [← hslot, hv, hl.tab hs, hentry]

/-- The word stored is what is left of the answer, and the answer is recorded. -/
theorem answer_stored {s : SymName} {p : Addr} {rest : Loader Unit}
    (hrest : ∀ u u', rest.run u = (.ok (), u') → (Prog.set32 p 0 : Loader Unit).run u = (.ok (), u'))
    (h : (do
      let symAddr ← resolveSymbol host s
      if symAddr = symDeferred then Prog.set32 p 0
      else if symAddr > 0 then Prog.set32 p symAddr
      else rest : Loader Unit).run v = (.ok (), v')) :
    ∃ ans, ((∃ wq, ans = host.resolve wq ((readSymName s).run v.mem)) ∧
        (ans = 0 → ∃ u, rest.run u = (.ok (), v'))) ∧ v'.handle = v.handle ∧
      v'.mem = v.mem.set32 p (externWord ans) ∧
      Event.host (.resolve ((readSymName s).run v.mem) ans) ∈ v'.trace.drop v.trace.length := by
  rw [Prog.run_bind_ok] at h
  obtain ⟨ans, v1, hr, h⟩ := h
  obtain ⟨hans, hv1⟩ := resolveSymbol_run hr
  have hzero : ans = 0 → ∃ u, rest.run u = (.ok (), v') := by
    intro hz
    rw [hz, if_neg (by decide), if_neg (by decide)] at h
    exact ⟨v1, h⟩
  refine ⟨ans, ⟨hans, hzero⟩, ?_⟩
  have hstore : ∀ x, (Prog.set32 p x : Loader Unit).run v1 = (.ok (), v') →
      v'.handle = v.handle ∧ v'.mem = v.mem.set32 p x ∧
        Event.host (.resolve ((readSymName s).run v.mem) ans) ∈ v'.trace.drop v.trace.length := by
    intro x hx
    rw [hv1, Prog.run_set32, Prod.mk.injEq] at hx
    rw [← hx.2]
    refine ⟨rfl, rfl, ?_⟩
    simp
  split at h
  next hdef =>
    rw [externWord, if_pos hdef]
    exact hstore 0 h
  next hdef =>
    rw [externWord, if_neg hdef]
    split at h
    next => exact hstore ans h
    next hpos =>
      have hz : ans = 0 := by
        by_contra hne
        exact hpos (UInt32.pos_iff_ne_zero.mpr hne)
      have hzero := hstore 0 (hrest _ _ h)
      rw [hz] at hzero ⊢
      exact hzero

theorem storeResolved_run (host : Host) (s : SymName) (p : Addr) (v : State) :
    ∃ ans v', (storeResolved host s p).run v = (.ok (), v') ∧
      (∃ wq, ans = host.resolve wq ((readSymName s).run v.mem)) ∧ v'.handle = v.handle ∧
      v'.mem = v.mem.set32 p (externWord ans) ∧
      Event.host (.resolve ((readSymName s).run v.mem) ans) ∈ v'.trace.drop v.trace.length := by
  have htotal : (storeResolved host s p).Total := by
    refine Prog.total_bind (Prog.total_bind (Prog.total_lift _) fun _ => Prog.total_host _) fun _ => ?_
    exact Prog.total_ite (Prog.total_set32 _ _)
      (Prog.total_ite (Prog.total_set32 _ _) (Prog.total_set32 _ _))
  obtain ⟨u, v', hr⟩ := htotal v
  obtain ⟨ans, hans, hstored⟩ := answer_stored (fun _ _ h => h) hr
  exact ⟨ans, v', hr, hans.1, hstored⟩

/-- The symbol of an entry of `j`. -/
theorem sym_eq (hl : LinkLayout w j) (hx : ExternAt w j sym name) (hs : SameModule w v) {s : Sym}
    (he : (linkEntry w k).2 = j)
    (hget : (getSymAt v.handle.pHeader (linkEntry w k).2).run v.mem = some s) : s = sym := by
  rw [he, getSymAt_own, (hx.step hl hs).found] at hget
  exact (Option.some.inj hget).symm

/-- One entry of `apply_extern_relocations_impl`. -/
theorem linkExtern_keeps (hl : LinkLayout w j) (hx : ExternAt w j sym name) (hk : k < numLinks w)
    (h : Keeps w j val done v) (incremental : Bool)
    (hfit : AnswersFit w name val
      ((linkExtern host (ownView w) incremental (linkEntry w k)).run v).2) :
    Keeps w j val done ((linkExtern host (ownView w) incremental (linkEntry w k)).run v).2 := by
  rw [linkExtern, Prog.run_getHandle_bind] at hfit ⊢
  cases hb : isBaseRelocation (linkEntry w k).2 with
  | true => exact h
  | false =>
    rw [hb, if_neg Bool.false_ne_true, Prog.run_lift_bind] at hfit
    rw [if_neg Bool.false_ne_true, Prog.run_lift_bind]
    cases hs : (getSymAt v.handle.pHeader (linkEntry w k).2).run v.mem with
    | none => exact h.log _
    | some s =>
      rw [hs] at hfit
      dsimp only at hfit ⊢
      by_cases hty : s.type ≠ symTypeExtern
      · rw [if_pos hty]
        exact h.log _
      · rw [if_neg hty, Prog.run_lift_bind, World.log_mem, target_eq hl.toLinkTables h.same hk] at hfit ⊢
        by_cases hp : linkSlot w k = 0
        · rw [if_pos hp]
          exact (h.log _).log _
        · rw [if_neg hp] at hfit ⊢
          generalize hv2 : World.log (World.log v _) _ = v2 at hfit ⊢
          have hm2 : v2.mem = v.mem := by
            rw [← hv2]
            rfl
          have h2 : Keeps w j val done v2 := by
            rw [← hv2]
            exact (h.log _).log _
          rw [Prog.run_lift_bind] at hfit ⊢
          by_cases hlk : (slotLinked incremental (linkSlot w k)).run v2.mem = true
          · rw [if_pos hlk]
            exact h2.log _
          · rw [if_neg hlk] at hfit ⊢
            have h3 := h2.log ((slotLinked incremental (linkSlot w k)).reads v2.mem)
            obtain ⟨ans, v', hrun, -, hh, hm, hev⟩ := storeResolved_run host s.name (linkSlot w k)
              (v2.log (readEvents ((slotLinked incremental (linkSlot w k)).reads v2.mem)))
            have hlen := trace_length_le (storeResolved host s.name (linkSlot w k))
              (v2.log (readEvents ((slotLinked incremental (linkSlot w k)).reads v2.mem)))
            rw [hrun] at hfit hlen ⊢
            refine h3.set32 hl hk (fun he => ?_) hh hm hlen
            -- the entry is of symbol `j`, so the host was asked for its name
            have hname : (readSymName s.name).run v2.mem = name := by
              rw [sym_eq hl hx h.same he hs, hm2]
              exact (hx.step hl h.same).named
            rw [show (readSymName s.name).run (v2.log (readEvents
              ((slotLinked incremental (linkSlot w k)).reads v2.mem))).mem = name from hname] at hev
            exact hfit ans (List.drop_subset_drop_left _ h3.later hev)

/-- A named patch of an entry of symbol `j` is a patch under its name. -/
theorem cmp_name (hl : LinkLayout w j) (hx : ExternAt w j sym name) (hs : SameModule w v)
    {symName : List UInt8} (h0 : 0 ∉ symName)
    (hc : (strcmpName sym.name symName).run v.mem = .eq) : symName = name := by
  have hxv := hx.step hl hs
  obtain ⟨⟨⟨h1, hr⟩, hn, hname⟩, hsym⟩ := hxv.foundAt
  rw [hsym, strcmpName_entry ((hl.table hs).wellNamed hl.named).inside h1 hr hn h0, hname] at hc
  exact (Std.LawfulEqCmp.compare_eq_iff_eq.mp hc).symm

/-- One entry of `udynlink_link_symbol`. -/
theorem patchSlot_keeps (hl : LinkLayout w j) (hx : ExternAt w j sym name) (hk : k < numLinks w)
    (h : Keeps w j val done v) {symName : List UInt8} {symAddr : Addr}
    (hfit : (LinkCall.linkSymbol symName symAddr).Fits name val) :
    ∃ patched, ((patchSlot (ownView w) symName symAddr (linkEntry w k)).run v).1 = .ok patched ∧
      Keeps w j val done ((patchSlot (ownView w) symName symAddr (linkEntry w k)).run v).2 := by
  rw [patchSlot, Prog.run_getHandle_bind]
  cases hb : isBaseRelocation (linkEntry w k).2 with
  | true => exact ⟨_, rfl, h⟩
  | false =>
    rw [if_neg Bool.false_ne_true, Prog.run_lift_bind]
    cases hs : (getSymAt v.handle.pHeader (linkEntry w k).2).run v.mem with
    | none => exact ⟨_, rfl, h.log _⟩
    | some s =>
      dsimp only
      rw [Prog.run_lift_bind, World.log_mem]
      by_cases hc : (strcmpName s.name symName).run v.mem ≠ .eq
      · rw [if_pos hc]
        exact ⟨_, rfl, (h.log _).log _⟩
      · rw [if_neg hc, Prog.run_lift_bind, World.log_mem, World.log_mem, target_eq hl.toLinkTables h.same hk]
        by_cases hp : linkSlot w k = 0
        · rw [if_pos hp]
          exact ⟨_, rfl, ((h.log _).log _).log _⟩
        · rw [if_neg hp, Prog.run_set32_bind]
          refine ⟨_, rfl, (((h.log _).log _).log _).set32 hl hk (fun he => ?_) rfl rfl ?_⟩
          · have hsym := sym_eq hl hx h.same he hs
            exact hfit.2 (cmp_name hl hx h.same hfit.1 (hsym ▸ not_not.mp hc))
          · rw [Prog.run_pure, List.length_append]
            exact Nat.le_add_right _ _

end

/-! ## The loops -/

section

variable {w v : State} {j val : UInt32} {sym : Sym} {name : List UInt8} {host : Host}
  {done : Nat}

theorem relocs_eq (hl : LinkLayout w j) (h : Keeps w j val done v) {k : Nat} (hk : k < numLinks w) :
    (readRelocation (ownSource w).pRelocations k).run v.mem = linkEntry w k := by
  have he := hl.entry h.same hk
  unfold linkEntry at he ⊢
  rw [hl.source h.same] at he
  exact he

theorem linkExternLoop_keeps (hl : LinkLayout w j) (hx : ExternAt w j sym name)
    (incremental : Bool) {n i : Nat} (hi : i + n ≤ numLinks w) (h : Keeps w j val done v)
    (hfit : AnswersFit w name val
      ((linkExternLoop host (ownSource w).pRelocations (ownView w) incremental n i).run v).2) :
    Keeps w j val done
      ((linkExternLoop host (ownSource w).pRelocations (ownView w) incremental n i).run v).2 := by
  induction n generalizing i v with
  | zero => exact h
  | succ n ih =>
    rw [linkExternLoop, Prog.run_lift_bind, relocs_eq hl h (by omega)] at hfit ⊢
    have h1 := h.log ((readRelocation (ownSource w).pRelocations i).reads v.mem)
    rcases hr : (linkExtern host (ownView w) incremental (linkEntry w i)).run
      (v.log (readEvents ((readRelocation (ownSource w).pRelocations i).reads v.mem))) with
      ⟨_ | u, v1⟩
    · rw [Prog.run_bind_of_error hr] at hfit ⊢
      have hone := @linkExtern_keeps w _ j val sym name i done host hl hx (by omega) h1 incremental
      rw [hr] at hone
      exact hone hfit
    · rw [Prog.run_bind_of_ok hr] at hfit ⊢
      have hone := @linkExtern_keeps w _ j val sym name i done host hl hx (by omega) h1 incremental
      rw [hr] at hone
      exact ih (by omega) (hone hfit.before) hfit

theorem patchSlots_keeps (hl : LinkLayout w j) (hx : ExternAt w j sym name)
    {symName : List UInt8} {symAddr : Addr}
    (hfit : (LinkCall.linkSymbol symName symAddr).Fits name val) {n i : Nat} {found : Bool}
    (hi : i + n ≤ numLinks w) (h : Keeps w j val done v) :
    ∃ res, ((patchSlots (ownSource w).pRelocations (ownView w) symName symAddr n i found).run
        v).1 = .ok res ∧
      Keeps w j val done
        ((patchSlots (ownSource w).pRelocations (ownView w) symName symAddr n i found).run v).2 := by
  induction n generalizing i v found with
  | zero => exact ⟨found, rfl, h⟩
  | succ n ih =>
    rw [patchSlots, Prog.run_lift_bind, relocs_eq hl h (by omega)]
    have h1 := h.log ((readRelocation (ownSource w).pRelocations i).reads v.mem)
    obtain ⟨patched, hok, hkeep⟩ := patchSlot_keeps (k := i) hl hx (by omega) h1 hfit
    rcases hr : (patchSlot (ownView w) symName symAddr (linkEntry w i)).run
      (v.log (readEvents ((readRelocation (ownSource w).pRelocations i).reads v.mem))) with
      ⟨r, v1⟩
    rw [hr] at hok hkeep
    dsimp only at hok hkeep
    subst hok
    rw [Prog.run_bind_of_ok hr]
    exact ih (by omega) hkeep

/-! ## The calls -/

/-- What a call reads of the module before its loop. -/
theorem table_own (hl : LinkLayout w j) (hs : SameModule w v) :
    getRelocsPointer v.handle.pHeader (decodeHeader v.mem v.handle.pHeader) =
        (ownSource w).pRelocations ∧
      (decodeHeader v.mem v.handle.pHeader).numRels.toNat = numLinks w ∧
      ((getSectab v.handle.pHeader false).run v.mem).2 = ownView w :=
  ⟨congrArg RelocSource.pRelocations (hl.source hs), hl.links hs, hl.tab hs⟩

theorem applyExternRelocationsImpl_keeps (hl : LinkLayout w j) (hx : ExternAt w j sym name)
    (incremental : Bool) (h : Keeps w j val done v)
    (hfit : AnswersFit w name val ((applyExternRelocationsImpl host incremental).run v).2) :
    Keeps w j val done ((applyExternRelocationsImpl host incremental).run v).2 := by
  obtain ⟨hrels, hnum, htab⟩ := table_own hl h.same
  rw [applyExternRelocationsImpl, Prog.run_getHandle_bind, Prog.run_lift_bind, readHeader_run,
    Prog.run_lift_bind, World.log_mem] at hfit ⊢
  rcases hst : (getSectab v.handle.pHeader false).run v.mem with ⟨res, tab⟩
  rw [hst] at htab hfit
  dsimp only at htab hfit ⊢
  rw [htab, hrels, hnum] at hfit ⊢
  exact linkExternLoop_keeps hl hx incremental (by omega) ((h.log _).log _) hfit

theorem udynlinkLinkSymbol_keeps (hl : LinkLayout w j) (hx : ExternAt w j sym name)
    (h : Keeps w j val done v) {symName : List UInt8} {symAddr : Addr}
    (hfit : (LinkCall.linkSymbol symName symAddr).Fits name val) :
    Keeps w j val done ((udynlinkLinkSymbol symName symAddr).run v).2 := by
  obtain ⟨hrels, hnum, htab⟩ := table_own hl h.same
  rw [udynlinkLinkSymbol, Prog.run_getHandle_bind]
  split
  next => exact h
  next =>
    rw [Prog.run_lift_bind, readHeader_run, Prog.run_lift_bind, World.log_mem]
    rcases hst : (getSectab v.handle.pHeader false).run v.mem with ⟨res, tab⟩
    rw [hst] at htab
    dsimp only at htab ⊢
    rw [htab, hrels, hnum]
    obtain ⟨found, hok, hkeep⟩ := @patchSlots_keeps w _ j val sym name _ hl hx symName symAddr hfit
      (numLinks w) 0 false (by omega) ((h.log ((readHeader v.handle.pHeader).reads v.mem)).log
        ((getSectab v.handle.pHeader false).reads v.mem))
    rcases hr : (patchSlots (ownSource w).pRelocations (ownView w) symName symAddr (numLinks w) 0
      false).run ((v.log (readEvents ((readHeader v.handle.pHeader).reads v.mem))).log
        (readEvents ((getSectab v.handle.pHeader false).reads v.mem))) with ⟨r, v1⟩
    rw [hr] at hok hkeep
    dsimp only at hok hkeep
    subst hok
    rw [Prog.run_bind_of_ok hr]
    split
    next => exact hkeep
    next => exact hkeep

/-- `udynlink_link_incremental` and `udynlink_relink_all` are one call with a flag. -/
theorem linkAll_keeps (hl : LinkLayout w j) (hx : ExternAt w j sym name) (incremental : Bool)
    (h : Keeps w j val done v) {x : Loader Unit}
    (hcall : x = do
      let mod ← Prog.getHandle
      if mod.pHeader = 0 then Prog.fail .invalidModule
      else applyExternRelocationsImpl host incremental)
    (hfit : AnswersFit w name val (x.run v).2) : Keeps w j val done (x.run v).2 := by
  rw [hcall, Prog.run_getHandle_bind] at hfit ⊢
  split at hfit
  next hz =>
    rw [if_pos hz]
    exact h
  next hz =>
    rw [if_neg hz]
    exact applyExternRelocationsImpl_keeps hl hx incremental h hfit

/-- One call. -/
theorem linkCall_keeps (hl : LinkLayout w j) (hx : ExternAt w j sym name) (h : Keeps w j val done v)
    {c : LinkCall} (hc : c.Fits name val) (hfit : AnswersFit w name val (c.exec.run v).2) :
    Keeps w j val done (c.exec.run v).2 := by
  cases c with
  | linkIncremental host => exact linkAll_keeps hl hx true h rfl hfit
  | relinkAll host => exact linkAll_keeps hl hx false h rfl hfit
  | linkSymbol symName symAddr => exact udynlinkLinkSymbol_keeps hl hx h hc

/-- What fits at the end of the calls fits at their start. -/
theorem AnswersFit.beforeCalls {cs : List LinkCall} (h : AnswersFit w name val (runCalls cs v)) :
    AnswersFit w name val v := by
  induction cs generalizing v with
  | nil => exact h
  | cons c cs ih => exact (ih h).before

/-- Any sequence of calls. -/
theorem runCalls_keeps (hl : LinkLayout w j) (hx : ExternAt w j sym name) {cs : List LinkCall}
    (hc : ∀ c ∈ cs, c.Fits name val) (hfit : AnswersFit w name val (runCalls cs v))
    (h : Keeps w j val done v) : Keeps w j val done (runCalls cs v) := by
  induction cs generalizing v with
  | nil => exact h
  | cons c cs ih =>
    have hone : AnswersFit w name val (c.exec.run v).2 := AnswersFit.beforeCalls hfit
    exact ih (fun c' hm => hc c' (List.mem_cons_of_mem c hm)) hfit
      (linkCall_keeps hl hx h (hc c (List.mem_cons_self)) hone)

/-! ## The query -/

theorem count_kept (hl : LinkLayout w j) (hs : SameModule w v)
    (hc : w.handle.numNamedSyms = (computeNumNamedSyms w.handle.pHeader).run w.mem) :
    v.handle.numNamedSyms = (computeNumNamedSyms v.handle.pHeader).run v.mem := by
  have hrun : ∀ u : State, (computeNumNamedSyms u.handle.pHeader).run u.mem =
      (computeNumNamedSymsRaw (ownSource u).pSymtab
        (decodeHeader u.mem u.handle.pHeader).symtSize).run u.mem := fun _ => rfl
  have hcov : Covers (BesideSlots w) ⟨(ownSource w).pSymtab,
    (decodeHeader w.mem w.handle.pHeader).symtSize.toNat⟩ := hl.walk.symt
  have hkept := (within_computeNumNamedSymsRaw (m := w.mem) hcov).congr hs.agree
  rw [hrun, hl.source hs, hl.header hs, hkept, hs.handle, hc, hrun]

/-- An extern symbol is answered as it stands. -/
theorem finishScan_asIs {s : Sym} (ht : s.type = symTypeExtern) (mod : Module) (u : State) :
    ((finishScan host mod name (some s)).run u).1 = .ok (some s) := by
  have hown : ¬ isOwnSymbol s := by
    rw [isOwnSymbol, ht]
    decide
  have hoff : offsetSym mod s = pure s := by
    rw [offsetSym, if_neg hown]
  have hweak : ¬ s.type = symTypeWeak := by
    rw [ht]
    decide
  have hlook : ((finishLookup host mod name s).run u).1 = .ok s := by
    rw [finishLookup, hoff, Prog.run_lift_bind, Reader.run_pure, if_neg hweak]
    rfl
  rcases hr : (finishLookup host mod name s).run u with ⟨r, u1⟩
  rw [hr] at hlook
  dsimp only at hlook
  subst hlook
  rw [finishScan, Prog.run_bind_of_ok hr]
  rfl

/-- The answer is the value word of the symbol, whatever its slots hold. -/
theorem isSymbolResolved_run (hl : LinkLayout w j) (hx : ExternAt w j sym name)
    (hc : w.handle.numNamedSyms = (computeNumNamedSyms w.handle.pHeader).run w.mem)
    (h0 : 0 ∉ name) (hs : SameModule w v) :
    ((udynlinkIsSymbolResolved host name).run v).1 = .ok (sym.val != 0) := by
  have hlv := hl.step hs
  have hxv := hx.step hl hs
  obtain ⟨hfound, hsym⟩ := hxv.foundAt
  obtain ⟨as, has⟩ := @answersScan_of_not_overcounted v host name hlv.named
    (count_kept hl hs hc) hlv.counted h0
  have hlt := readable_lt hlv.named
  rw [linearScan_found hlv.named hfound (Nat.le_refl 1) hfound.1.1 (by
    have := hfound.1.2
    omega), ← hsym] at has
  have hans := @finishScan_asIs name host sym hxv.type v.handle
    (v.log (readEvents as))
  rw [← has] at hans
  rcases hr : (udynlinkLookupSymbol host name).run v with ⟨r, v1⟩
  rw [hr] at hans
  dsimp only at hans
  subst hans
  rw [udynlinkIsSymbolResolved, Prog.run_bind_of_ok hr]
  rfl

end

end Udynlink
