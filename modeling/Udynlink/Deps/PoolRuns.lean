import Udynlink.Deps.ThunkWorld

/-!
# Requests to the thunk pool

The log keeps, beside the pool, what was handed out: stubs with their functions, gateways
with their RAM bases. Over any sequence of requests they stay apart and are found again.
-/

namespace Udynlink.Deps

open Machine

/-- A buffer as the language has them: not at NULL, inside of the address space, and no
larger than `PTRDIFF_MAX`. -/
structure Buffer (buf : Addr) (sz : UInt32) : Prop where
  nonnull : buf ≠ 0
  fits : buf.toNat + sz.toNat ≤ 2 ^ 32
  object : sz.toNat < 2 ^ 31

structure PoolLog where
  thunks : Thunks
  stubs : List (Addr × UInt32)
  gateways : List (Addr × UInt32)

/-- The code behind an entry, whose lowest bit says Thumb. -/
def stubSpan (entry : Addr) : Span := ⟨entry &&& ~~~1, 10⟩

namespace PoolLog

def start (mem : Mem) (buf : Addr) (sz : UInt32) : PoolLog := ⟨⟨mem, .init buf sz⟩, [], []⟩

def spans (l : PoolLog) : List Span :=
  (l.stubs.map fun x => stubSpan x.1) ++ l.gateways.map fun x => ⟨x.1, 18⟩

/-! ## Requests -/

def allocStub (l : PoolLog) (funcAddr : UInt32) (gateway : Addr) : Addr × PoolLog :=
  let r := l.thunks.allocStub funcAddr gateway
  (r.1, ⟨r.2, if r.1 = 0 then l.stubs else (r.1, funcAddr) :: l.stubs, l.gateways⟩)

def allocGateway (l : PoolLog) (ramBase : UInt32) : Addr × PoolLog :=
  let r := l.thunks.allocGateway ramBase
  (r.1, ⟨r.2, l.stubs, if r.1 = 0 then l.gateways else (r.1, ramBase) :: l.gateways⟩)

/-- `udynlink_thunk_make_call`, from where the function is found. -/
def callThunk (l : PoolLog) (ramBase funcAddr : UInt32) : Addr × PoolLog :=
  let existing := findStub l.thunks.mem l.thunks.pool funcAddr
  if existing ≠ 0 then (existing, l)
  else
    let gateway := thunkFindGateway l.thunks.mem l.thunks.pool ramBase
    if gateway ≠ 0 then l.allocStub funcAddr gateway
    else
      let r := l.allocGateway ramBase
      if r.1 = 0 then (0, r.2) else r.2.allocStub funcAddr r.1

def makeCall (l : PoolLog) (m : LoadedModule) (answer : ModName → UInt32) (symName : ModName) :
    Addr × PoolLog :=
  match m.lookup answer symName with
  | none => (0, l)
  | some sym => if sym.location = .data then (0, l) else l.callThunk m.ramBase sym.val

end PoolLog

inductive PoolRequest where
  | allocStub (funcAddr : UInt32) (gateway : Addr)
  | allocGateway (ramBase : UInt32)
  | makeCall (m : LoadedModule) (answer : ModName → UInt32) (symName : ModName)

namespace PoolLog

def exec (l : PoolLog) : PoolRequest → Addr × PoolLog
  | .allocStub funcAddr gateway => l.allocStub funcAddr gateway
  | .allocGateway ramBase => l.allocGateway ramBase
  | .makeCall m answer symName => l.makeCall m answer symName

def run (reqs : List PoolRequest) (l : PoolLog) : PoolLog := reqs.foldl (fun l q => (l.exec q).2) l

variable {l : PoolLog} {buf : Addr} {sz f r : UInt32} {g : Addr}

theorem callThunk_thunks (l : PoolLog) (ramBase funcAddr : UInt32) :
    ((l.callThunk ramBase funcAddr).1, (l.callThunk ramBase funcAddr).2.thunks) =
      l.thunks.makeCall ramBase funcAddr := by
  unfold callThunk Thunks.makeCall
  dsimp only
  split
  · rfl
  · split
    · rfl
    · unfold allocGateway
      dsimp only
      split <;> rfl

/-- The log says no more about the thunks than the world does. -/
theorem makeCall_world (w : World) (answer : ModName → UInt32) (pMod : Handle) (name : ModName)
    (hw : l.thunks = w.thunks) :
    (l.makeCall (w.module pMod) answer name).1 = (w.makeCall answer pMod name).1 ∧
      (l.makeCall (w.module pMod) answer name).2.thunks = (w.makeCall answer pMod name).2.thunks := by
  unfold makeCall World.makeCall
  cases (w.module pMod).lookup answer name with
  | none => exact ⟨rfl, hw⟩
  | some sym =>
    dsimp only
    split
    · exact ⟨rfl, hw⟩
    · have h := callThunk_thunks l (w.module pMod).ramBase sym.val
      rw [hw] at h
      exact ⟨congrArg Prod.fst h, congrArg Prod.snd h⟩

/-! ## The invariant -/

structure Ok (buf : Addr) (sz : UInt32) (l : PoolLog) : Prop where
  laid : l.thunks.pool.Laid
  place : 0 < l.thunks.pool.size.toNat → l.thunks.pool.InBuffer buf sz
  stubs : ∀ x ∈ l.stubs, ∃ k, 10 * k < l.thunks.pool.used.toNat ∧
    x.1 = l.thunks.pool.stubCell k ||| 1 ∧ StubHead l.thunks.mem (l.thunks.pool.stubCell k) x.2
  stubCells : ∀ k, 10 * k < l.thunks.pool.used.toNat → ∃ f,
    (l.thunks.pool.stubCell k ||| 1, f) ∈ l.stubs ∧
      StubHead l.thunks.mem (l.thunks.pool.stubCell k) f
  gateways : ∀ x ∈ l.gateways, ∃ k,
    l.thunks.pool.gatewayTop.toNat + 18 * k < l.thunks.pool.size.toNat ∧
      x.1 = l.thunks.pool.gatewayCell k ∧ GatewayAt l.thunks.mem (l.thunks.pool.gatewayCell k) x.2
  gatewayCells : ∀ k, l.thunks.pool.gatewayTop.toNat + 18 * k < l.thunks.pool.size.toNat →
    ∃ r, (l.thunks.pool.gatewayCell k, r) ∈ l.gateways ∧
      GatewayAt l.thunks.mem (l.thunks.pool.gatewayCell k) r
  apart : l.spans.Pairwise Span.Disjoint

/-- Bytes of what `l` has handed out are the same in `l'`. -/
structure Keeps (l l' : PoolLog) : Prop where
  grows : ∀ s ∈ l.spans, s ∈ l'.spans
  agree : ∀ s ∈ l.spans, AgreeOn s l.thunks.mem l'.thunks.mem

theorem Keeps.refl (l : PoolLog) : l.Keeps l := ⟨fun _ h => h, fun _ _ _ _ => rfl⟩

theorem Keeps.trans {l' l'' : PoolLog} (h : l.Keeps l') (h' : l'.Keeps l'') : l.Keeps l'' :=
  ⟨fun s hs => h'.grows s (h.grows s hs), fun s hs => (h.agree s hs).trans (h'.agree s (h.grows s hs))⟩

theorem Ok.cell_even (h : l.Ok buf sz) {o : Nat} (ho : o % 2 = 0)
    (hlt : o < l.thunks.pool.size.toNat) : Even (l.thunks.pool.base + UInt32.ofNat o) := by
  have hp := h.place (by omega)
  have ha := hp.aligned
  exact Thunks.even_off (by unfold Even; omega) ho

/-- Everything handed out lies in the used part. -/
theorem Ok.taken (h : l.Ok buf sz) {s : Span} (hs : s ∈ l.spans) :
    ∃ o, l.thunks.pool.Taken s o ∧ o % 2 = 0 ∧ o < l.thunks.pool.size.toNat := by
  have ho := h.laid.order
  have ht := h.laid.top
  rcases List.mem_append.mp hs with hs | hs
  · obtain ⟨x, hx, rfl⟩ := List.mem_map.mp hs
    obtain ⟨k, hk, he, -⟩ := h.stubs x hx
    have heven : Even (l.thunks.pool.stubCell k) := h.cell_even (by omega) (by omega)
    have hspan : stubSpan x.1 = ⟨l.thunks.pool.stubCell k, 10⟩ := by
      rw [stubSpan, he, even_or_one heven]
    rw [hspan]
    exact ⟨10 * k, h.laid.stub_taken hk, by omega, by omega⟩
  · obtain ⟨x, hx, rfl⟩ := List.mem_map.mp hs
    obtain ⟨k, hk, he, -⟩ := h.gateways x hx
    have hg := h.laid.gatewaySteps
    have hp := h.place (by omega)
    have hsz := hp.sizeAligned
    rw [he]
    exact ⟨_, h.laid.gateway_taken hk, by omega, hk⟩

/-- An allocation writes apart from everything handed out. -/
theorem Ok.free (h : l.Ok buf sz) {o n : Nat} (hlo : l.thunks.pool.used.toNat ≤ o)
    (hhi : o + n ≤ l.thunks.pool.gatewayTop.toNat) :
    ∀ s ∈ l.spans, s.Disjoint ⟨l.thunks.pool.base + UInt32.ofNat o, n⟩ := by
  intro s hs
  obtain ⟨o', ht, -⟩ := h.taken hs
  exact ht.apart hlo hhi

theorem Ok.write (h : l.Ok buf sz) {m : Mem} (hm : ∀ s ∈ l.spans, AgreeOn s l.thunks.mem m) :
    Ok buf sz ⟨⟨m, l.thunks.pool⟩, l.stubs, l.gateways⟩ := by
  have hstub : ∀ x ∈ l.stubs, ∀ k, 10 * k < l.thunks.pool.used.toNat →
      x.1 = l.thunks.pool.stubCell k ||| 1 →
      AgreeOn ⟨l.thunks.pool.stubCell k, 10⟩ l.thunks.mem m := by
    intro x hx k hk he
    have ho := h.laid.order
    have ht := h.laid.top
    have heven : Even (l.thunks.pool.stubCell k) := h.cell_even (by omega) (by omega)
    have hspan : stubSpan x.1 = ⟨l.thunks.pool.stubCell k, 10⟩ := by
      rw [stubSpan, he, even_or_one heven]
    rw [← hspan]
    exact hm _ (List.mem_append_left _ (List.mem_map_of_mem (f := fun x => stubSpan x.1) hx))
  have hgate : ∀ x ∈ l.gateways, AgreeOn ⟨x.1, 18⟩ l.thunks.mem m := fun x hx =>
    hm _ (List.mem_append_right _ (List.mem_map_of_mem (f := fun x => (⟨x.1, 18⟩ : Span)) hx))
  refine ⟨h.laid, h.place, fun x hx => ?_, fun k hk => ?_, fun x hx => ?_, fun k hk => ?_, h.apart⟩
  · obtain ⟨k, hk, he, hs⟩ := h.stubs x hx
    exact ⟨k, hk, he, hs.congr (hstub x hx k hk he)⟩
  · obtain ⟨f, hx, hs⟩ := h.stubCells k hk
    exact ⟨f, hx, hs.congr (hstub _ hx k hk rfl)⟩
  · obtain ⟨k, hk, he, hg⟩ := h.gateways x hx
    have hx' := hgate x hx
    rw [he] at hx'
    exact ⟨k, hk, he, hg.congr hx'⟩
  · obtain ⟨r, hx, hg⟩ := h.gatewayCells k hk
    have hx' : AgreeOn ⟨l.thunks.pool.gatewayCell k, 18⟩ l.thunks.mem m := hgate (_, r) hx
    exact ⟨r, hx, hg.congr hx'⟩

/-- No cell is at NULL. -/
theorem Ok.cell_ne_zero (h : l.Ok buf sz) (hb : Buffer buf sz) {o : Nat}
    (ho : o < l.thunks.pool.size.toNat) : l.thunks.pool.base + UInt32.ofNat o ≠ 0 := by
  intro h0
  have hp := h.place (by omega)
  have hn : buf.toNat ≠ 0 := fun hc => hb.nonnull (UInt32.toNat_inj.mp hc)
  have hs := hp.start
  have hst := hp.stop
  have hf := hb.fits
  have hz := congrArg UInt32.toNat h0
  rw [UInt32.toNat_add, UInt32.toNat_ofNat', UInt32.toNat_zero,
    Nat.mod_eq_of_lt (show o < 2 ^ 32 by omega), Nat.mod_eq_of_lt (by omega)] at hz
  omega

/-! ## Gateways -/

theorem Ok.addGateway (h : l.Ok buf sz)
    (hle : l.thunks.pool.used.toNat + 18 ≤ l.thunks.pool.gatewayTop.toNat) {top : UInt32}
    (htop : top.toNat = l.thunks.pool.gatewayTop.toNat - 18)
    (hg : GatewayAt l.thunks.mem (l.thunks.pool.base + top) r) :
    Ok buf sz ⟨⟨l.thunks.mem, { l.thunks.pool with gatewayTop := top }⟩, l.stubs,
      (l.thunks.pool.base + top, r) :: l.gateways⟩ := by
  have ht := h.laid.top
  have hgs := h.laid.gatewaySteps
  have hnew : l.thunks.pool.base + UInt32.ofNat (top.toNat + 18 * 0) = l.thunks.pool.base + top := by
    rw [Nat.mul_zero, Nat.add_zero, UInt32.ofNat_toNat]
  have hold : ∀ k, l.thunks.pool.base + UInt32.ofNat (top.toNat + 18 * (k + 1)) =
      l.thunks.pool.gatewayCell k := fun k => by
    rw [ThunkPool.gatewayCell, htop,
      show l.thunks.pool.gatewayTop.toNat - 18 + 18 * (k + 1) =
        l.thunks.pool.gatewayTop.toNat + 18 * k by omega]
  refine ⟨⟨?_, ?_, h.laid.stubSteps, ?_, h.laid.object⟩, fun h0 => ?_, h.stubs, h.stubCells,
    fun x hx => ?_, fun k hk => ?_, ?_⟩
  · dsimp only
    omega
  · dsimp only
    omega
  · dsimp only
    omega
  · obtain ⟨h1, h2, h3, h4⟩ := h.place h0
    exact ⟨h1, h2, h3, h4⟩
  · dsimp only
    rcases List.mem_cons.mp hx with rfl | hx
    · exact ⟨0, by omega, hnew.symm, by unfold ThunkPool.gatewayCell; dsimp only; rwa [hnew]⟩
    · obtain ⟨k, hk, he, hgk⟩ := h.gateways x hx
      refine ⟨k + 1, by omega, he.trans (hold k).symm, ?_⟩
      unfold ThunkPool.gatewayCell
      dsimp only
      rwa [hold k]
  · dsimp only at hk ⊢
    unfold ThunkPool.gatewayCell
    dsimp only
    cases k with
    | zero =>
      rw [hnew]
      exact ⟨r, List.mem_cons_self, hg⟩
    | succ k =>
      obtain ⟨r', hx, hgk⟩ := h.gatewayCells k (by omega)
      rw [hold k]
      exact ⟨r', List.mem_cons_of_mem _ hx, hgk⟩
  · unfold spans
    rw [List.map_cons]
    refine (List.perm_middle.pairwise_iff fun hd => hd.symm).mpr
      (List.pairwise_cons.mpr ⟨fun s hs => ?_, h.apart⟩)
    have hd := h.free (o := top.toNat) (n := 18) (by omega) (by omega) s hs
    rw [UInt32.ofNat_toNat] at hd
    exact hd.symm

theorem Ok.allocGateway (h : l.Ok buf sz) (hb : Buffer buf sz) (r : UInt32) :
    (l.allocGateway r).2.Ok buf sz ∧ l.Keeps (l.allocGateway r).2 := by
  unfold PoolLog.allocGateway Thunks.allocGateway
  by_cases hroom : l.thunks.pool.gatewayTop < l.thunks.pool.used + gatewaySize
  · rw [if_pos hroom]
    exact ⟨h, Keeps.refl l⟩
  · rw [if_neg hroom]
    obtain ⟨hle, htop⟩ := h.laid.gateway_room hroom
    have ht := h.laid.top
    have hne := h.cell_ne_zero hb (o := (l.thunks.pool.gatewayTop - gatewaySize).toNat) (by omega)
    have hfree := h.free (o := (l.thunks.pool.gatewayTop - gatewaySize).toNat) (n := 18) (by omega)
      (by omega)
    rw [UInt32.ofNat_toNat] at hne hfree
    dsimp only
    rw [if_neg hne]
    have hagree : ∀ s ∈ l.spans, AgreeOn s l.thunks.mem (writeGateway l.thunks.mem
        (l.thunks.pool.base + (l.thunks.pool.gatewayTop - gatewaySize)) r) := fun s hs =>
      writeGateway_agree (hfree s hs)
    refine ⟨(h.write hagree).addGateway hle htop writeGateway_at, fun s hs => ?_, hagree⟩
    rcases List.mem_append.mp hs with hs | hs
    · exact List.mem_append_left _ hs
    · exact List.mem_append_right _ (List.mem_cons_of_mem _ hs)

/-! ## Stubs -/

theorem Ok.addStub (h : l.Ok buf sz)
    (hle : l.thunks.pool.used.toNat + 10 ≤ l.thunks.pool.gatewayTop.toNat) {used : UInt32}
    (hused : used.toNat = l.thunks.pool.used.toNat + 10)
    (hs : StubHead l.thunks.mem (l.thunks.pool.base + l.thunks.pool.used) f) :
    Ok buf sz ⟨⟨l.thunks.mem, { l.thunks.pool with used := used }⟩,
      ((l.thunks.pool.base + l.thunks.pool.used) ||| 1, f) :: l.stubs, l.gateways⟩ := by
  have ht := h.laid.top
  have hss := h.laid.stubSteps
  have hnew : l.thunks.pool.stubCell (l.thunks.pool.used.toNat / 10) =
      l.thunks.pool.base + l.thunks.pool.used := by
    rw [ThunkPool.stubCell, show 10 * (l.thunks.pool.used.toNat / 10) = l.thunks.pool.used.toNat by
      omega, UInt32.ofNat_toNat]
  refine ⟨⟨?_, ht, ?_, h.laid.gatewaySteps, h.laid.object⟩, fun h0 => ?_, fun x hx => ?_,
    fun k hk => ?_, h.gateways, h.gatewayCells, ?_⟩
  · dsimp only
    omega
  · dsimp only
    omega
  · obtain ⟨h1, h2, h3, h4⟩ := h.place h0
    exact ⟨h1, h2, h3, h4⟩
  · dsimp only
    rcases List.mem_cons.mp hx with rfl | hx
    · refine ⟨l.thunks.pool.used.toNat / 10, by omega, ?_, ?_⟩
      · show _ = l.thunks.pool.stubCell _ ||| 1
        rw [hnew]
      · show StubHead _ (l.thunks.pool.stubCell _) f
        rwa [hnew]
    · obtain ⟨k, hk, he, hsk⟩ := h.stubs x hx
      exact ⟨k, by omega, he, hsk⟩
  · dsimp only at hk
    show ∃ f', (l.thunks.pool.stubCell k ||| 1, f') ∈ _ ∧ StubHead _ (l.thunks.pool.stubCell k) f'
    by_cases hold : 10 * k < l.thunks.pool.used.toNat
    · obtain ⟨f', hx, hsk⟩ := h.stubCells k hold
      exact ⟨f', List.mem_cons_of_mem _ hx, hsk⟩
    · rw [show k = l.thunks.pool.used.toNat / 10 by omega, hnew]
      exact ⟨f, List.mem_cons_self, hs⟩
  · unfold spans
    rw [List.map_cons, List.cons_append]
    refine List.pairwise_cons.mpr ⟨fun s hs => ?_, h.apart⟩
    have hd := h.free (o := l.thunks.pool.used.toNat) (n := 10) (Nat.le_refl _) (by omega) s hs
    have heven := h.cell_even (o := l.thunks.pool.used.toNat) (by omega) (by omega)
    rw [UInt32.ofNat_toNat] at hd heven
    rw [stubSpan, even_or_one heven]
    exact hd.symm

theorem Ok.allocStub (h : l.Ok buf sz) (hb : Buffer buf sz) (f : UInt32) (g : Addr) :
    (l.allocStub f g).2.Ok buf sz ∧ l.Keeps (l.allocStub f g).2 ∧
      ((l.allocStub f g).1 = 0 → (l.allocStub f g).2.thunks.pool = l.thunks.pool) := by
  unfold PoolLog.allocStub Thunks.allocStub
  by_cases hroom : l.thunks.pool.used + stubSize > l.thunks.pool.gatewayTop
  · rw [if_pos hroom]
    exact ⟨h, Keeps.refl l, fun _ => rfl⟩
  · rw [if_neg hroom]
    obtain ⟨hle, hused⟩ := h.laid.stub_room hroom
    have ht := h.laid.top
    have hne := h.cell_ne_zero hb (o := l.thunks.pool.used.toNat) (by omega)
    have hfree := h.free (o := l.thunks.pool.used.toNat) (n := 10) (Nat.le_refl _) hle
    rw [UInt32.ofNat_toNat] at hne hfree
    dsimp only
    rw [if_neg hne]
    have hagree : ∀ s ∈ l.spans, AgreeOn s l.thunks.mem (writeStub l.thunks.mem
        (l.thunks.pool.base + l.thunks.pool.used) f g).2 := fun s hs => writeStub_agree (hfree s hs)
    by_cases hw : (writeStub l.thunks.mem (l.thunks.pool.base + l.thunks.pool.used) f g).1 = 0
    · -- refused: the first two instructions stay behind in the free part
      rw [if_pos hw, if_pos rfl]
      exact ⟨h.write hagree, ⟨fun _ hs => hs, hagree⟩, fun _ => rfl⟩
    · rw [if_neg hw, if_neg (or_one_ne_zero _)]
      refine ⟨(h.write hagree).addStub hle hused writeStub_head, ⟨fun s hs => ?_, hagree⟩,
        fun h0 => absurd h0 (or_one_ne_zero _)⟩
      rcases List.mem_append.mp hs with hs | hs
      · exact List.mem_append_left _ (List.mem_cons_of_mem _ hs)
      · exact List.mem_append_right _ hs

/-! ## Runs -/

theorem Ok.exec (h : l.Ok buf sz) (hb : Buffer buf sz) (q : PoolRequest) :
    (l.exec q).2.Ok buf sz ∧ l.Keeps (l.exec q).2 := by
  cases q with
  | allocStub f g => exact ⟨(h.allocStub hb f g).1, (h.allocStub hb f g).2.1⟩
  | allocGateway r => exact h.allocGateway hb r
  | makeCall m answer name =>
    unfold PoolLog.exec PoolLog.makeCall
    dsimp only
    split
    · exact ⟨h, Keeps.refl l⟩
    · split
      · exact ⟨h, Keeps.refl l⟩
      · unfold callThunk
        dsimp only
        split
        · exact ⟨h, Keeps.refl l⟩
        · split
          · exact ⟨(h.allocStub hb _ _).1, (h.allocStub hb _ _).2.1⟩
          · obtain ⟨h1, hk1⟩ := h.allocGateway hb m.ramBase
            split
            · exact ⟨h1, hk1⟩
            · obtain ⟨h2, hk2, -⟩ := h1.allocStub hb ‹ModSym›.val (l.allocGateway m.ramBase).1
              exact ⟨h2, hk1.trans hk2⟩

theorem ok_start (hb : Buffer buf sz) (mem : Mem) : (start mem buf sz).Ok buf sz where
  laid := ThunkPool.init_laid hb.object
  place := ThunkPool.init_inBuffer hb.fits
  stubs _ hx := absurd hx List.not_mem_nil
  stubCells _ hk := absurd hk (Nat.not_lt_zero _)
  gateways _ hx := absurd hx List.not_mem_nil
  gatewayCells _ hk := absurd hk (Nat.not_lt.mpr (Nat.le_add_right _ _))
  apart := List.Pairwise.nil

theorem Ok.run (hb : Buffer buf sz) (reqs : List PoolRequest) (h : l.Ok buf sz) :
    (l.run reqs).Ok buf sz := by
  induction reqs generalizing l with
  | nil => exact h
  | cons q reqs ih => exact ih (h.exec hb q).1

/-! ## What is found -/

theorem Ok.findStub (h : l.Ok buf sz) (hne : findStub l.thunks.mem l.thunks.pool f ≠ 0) :
    (Deps.findStub l.thunks.mem l.thunks.pool f, f) ∈ l.stubs := by
  rcases ThunkPool.stubScan_cases l.thunks.mem l.thunks.pool.base f (l.thunks.pool.used.toNat / 10)
    l.thunks.pool.used h.laid.stubSteps with h0 | ⟨k, hk, hst, he⟩
  · exact absurd h0 hne
  · obtain ⟨f', hx, hs⟩ := h.stubCells k hk
    obtain rfl : f' = f := Option.some.inj (hs.target.symm.trans hst)
    unfold Deps.findStub
    rw [he]
    exact hx

theorem Ok.findStub_ne_zero (h : l.Ok buf sz) {e : Addr} (hx : (e, f) ∈ l.stubs) :
    Deps.findStub l.thunks.mem l.thunks.pool f ≠ 0 := by
  have hss := h.laid.stubSteps
  obtain ⟨k, hk, -, hs⟩ := h.stubs _ hx
  exact ThunkPool.stubScan_ne_zero hs.target _ _ hss (by omega) hk

theorem Ok.findGateway (h : l.Ok buf sz) (hne : thunkFindGateway l.thunks.mem l.thunks.pool r ≠ 0) :
    (thunkFindGateway l.thunks.mem l.thunks.pool r, r) ∈ l.gateways := by
  rcases ThunkPool.gatewayScan_cases l.thunks.mem r h.laid.object
    (l.thunks.pool.size.toNat / 18 + 1) l.thunks.pool.gatewayTop 0 (by omega) h.laid.top with
    h0 | ⟨k, hk, hr, he⟩
  · exact absurd h0 hne
  · obtain ⟨r', hx, hg⟩ := h.gatewayCells k hk
    obtain rfl : r' = r := hg.ramBase.symm.trans hr
    unfold thunkFindGateway
    rw [he]
    exact hx

theorem Ok.findGateway_ne_zero (h : l.Ok buf sz) (hb : Buffer buf sz) {e : Addr}
    (hx : (e, r) ∈ l.gateways) : thunkFindGateway l.thunks.mem l.thunks.pool r ≠ 0 := by
  obtain ⟨k, hk, -, hg⟩ := h.gateways _ hx
  have hp := h.place (by omega)
  have hn : buf.toNat ≠ 0 := fun hc => hb.nonnull (UInt32.toNat_inj.mp hc)
  have hstart := hp.start
  have hstop := hp.stop
  have hf := hb.fits
  have hbase : l.thunks.pool.base ≠ 0 := by
    intro hc
    rw [hc, UInt32.toNat_zero] at hstart
    omega
  exact ThunkPool.gatewayScan_ne_zero h.laid hbase (by omega) hk hg.ramBase _ _ 0 (by omega)
    (Nat.zero_le k) (by omega)

/-- What can be said of the pool between two requests. -/
structure Right (buf : Addr) (sz : UInt32) (l : PoolLog) : Prop where
  order : l.thunks.pool.used ≤ l.thunks.pool.gatewayTop
  top : l.thunks.pool.gatewayTop ≤ l.thunks.pool.size
  steps : l.thunks.pool.used.toNat % 10 = 0
  even : ∀ s ∈ l.spans, Even s.base
  inside : ∀ s ∈ l.spans, s ⊆ ⟨buf, sz.toNat⟩
  apart : l.spans.Pairwise Span.Disjoint
  targets : ∀ x ∈ l.stubs, stubTarget l.thunks.mem (x.1 &&& ~~~1) = some x.2
  ramBases : ∀ x ∈ l.gateways, gatewayRamBase l.thunks.mem x.1 = x.2
  findStub : ∀ f, (findStub l.thunks.mem l.thunks.pool f ≠ 0 ↔ ∃ e, (e, f) ∈ l.stubs) ∧
    (Deps.findStub l.thunks.mem l.thunks.pool f ≠ 0 →
      (Deps.findStub l.thunks.mem l.thunks.pool f, f) ∈ l.stubs)
  findGateway : ∀ r, (thunkFindGateway l.thunks.mem l.thunks.pool r ≠ 0 ↔
      ∃ g, (g, r) ∈ l.gateways) ∧
    (thunkFindGateway l.thunks.mem l.thunks.pool r ≠ 0 →
      (thunkFindGateway l.thunks.mem l.thunks.pool r, r) ∈ l.gateways)

theorem Ok.right (h : l.Ok buf sz) (hb : Buffer buf sz) : l.Right buf sz where
  order := UInt32.le_iff_toNat_le.mpr h.laid.order
  top := UInt32.le_iff_toNat_le.mpr h.laid.top
  steps := h.laid.stubSteps
  even s hs := by
    obtain ⟨o, ht, ho, hlt⟩ := h.taken hs
    rw [ht.base]
    exact h.cell_even ho hlt
  inside s hs := by
    obtain ⟨o, ht, ho, hlt⟩ := h.taken hs
    have hp := h.place (by omega)
    have hstart := hp.start
    have hstop := hp.stop
    have hf := hb.fits
    refine Span.subset_trans ht.subset ?_
    have hoff : l.thunks.pool.base =
        buf + UInt32.ofNat (l.thunks.pool.base.toNat - buf.toNat) := by
      apply UInt32.toNat_inj.mp
      have hl := l.thunks.pool.base.toNat_lt
      rw [UInt32.toNat_add, UInt32.toNat_ofNat', Nat.mod_eq_of_lt (a := _ - _) (by omega),
        Nat.mod_eq_of_lt (by omega)]
      omega
    unfold ThunkPool.span
    rw [hoff]
    exact off_subset (by omega) (by omega)
  apart := h.apart
  targets x hx := by
    obtain ⟨k, hk, he, hs⟩ := h.stubs x hx
    have ho := h.laid.order
    have ht := h.laid.top
    have heven : Even (l.thunks.pool.stubCell k) := h.cell_even (by omega) (by omega)
    rw [he, even_or_one heven]
    exact hs.target
  ramBases x hx := by
    obtain ⟨k, hk, he, hg⟩ := h.gateways x hx
    rw [he]
    exact hg.ramBase
  findStub f := ⟨⟨fun hne => ⟨_, h.findStub hne⟩, fun ⟨_, hx⟩ => h.findStub_ne_zero hx⟩, h.findStub⟩
  findGateway r := ⟨⟨fun hne => ⟨_, h.findGateway hne⟩, fun ⟨_, hx⟩ =>
    h.findGateway_ne_zero hb hx⟩, h.findGateway⟩

end PoolLog

theorem allocGateway_failed {t : Thunks} {r : UInt32} (hlaid : t.pool.Laid)
    (hcell : ∀ o, o < t.pool.size.toNat → t.pool.base + UInt32.ofNat o ≠ 0)
    (h0 : (t.allocGateway r).1 = 0) : (t.allocGateway r).2.pool = t.pool := by
  unfold Thunks.allocGateway at h0 ⊢
  by_cases hroom : t.pool.gatewayTop < t.pool.used + gatewaySize
  · rw [if_pos hroom]
  · rw [if_neg hroom] at h0
    obtain ⟨hle, htop⟩ := hlaid.gateway_room hroom
    have ht := hlaid.top
    have hne := hcell (t.pool.gatewayTop - gatewaySize).toNat (by omega)
    rw [UInt32.ofNat_toNat] at hne
    exact absurd h0 hne

/-- After any requests the pool is in order, everything handed out is found and nothing
else, no further request changes a byte of it, and one that fails leaves the pool as it was. -/
theorem pool_right {buf : Addr} {sz : UInt32} (hb : Buffer buf sz) (mem : Mem)
    (reqs : List PoolRequest) :
    ((PoolLog.start mem buf sz).run reqs).Right buf sz ∧
      (∀ q, ∀ s ∈ ((PoolLog.start mem buf sz).run reqs).spans,
        AgreeOn s ((PoolLog.start mem buf sz).run reqs).thunks.mem
          (((PoolLog.start mem buf sz).run reqs).exec q).2.thunks.mem) ∧
      (∀ f g, (((PoolLog.start mem buf sz).run reqs).allocStub f g).1 = 0 →
        (((PoolLog.start mem buf sz).run reqs).allocStub f g).2.thunks.pool =
          ((PoolLog.start mem buf sz).run reqs).thunks.pool) ∧
      ∀ r, (((PoolLog.start mem buf sz).run reqs).allocGateway r).1 = 0 →
        (((PoolLog.start mem buf sz).run reqs).allocGateway r).2.thunks.pool =
          ((PoolLog.start mem buf sz).run reqs).thunks.pool := by
  have h := (PoolLog.ok_start hb mem).run hb reqs
  exact ⟨h.right hb, fun q => (h.exec hb q).2.agree, fun f g => (h.allocStub hb f g).2.2,
    fun r => allocGateway_failed h.laid fun o ho => h.cell_ne_zero hb ho⟩

/-- A gateway, a stub, and calls into a module: the first makes a stub and a gateway, the
second has no symbol, the third finds both again. -/
def smallRequests : List PoolRequest :=
  let m : LoadedModule := ⟨none, 0x20002000, [⟨[0x66], 0x08000201, symTypeExported, .code⟩]⟩
  [.allocGateway 0x20001000, .allocStub 0x08000101 0x20000030, .makeCall m (fun _ => 0) [0x66],
    .makeCall m (fun _ => 0) [0x67], .makeCall m (fun _ => 0) [0x66]]

def smallLog : PoolLog := (PoolLog.start (fun _ => 0) 0x20000002 64).run smallRequests

theorem pool_right_small : smallLog.stubs.map Prod.snd = [0x08000201, 0x08000101] ∧
    smallLog.gateways.map Prod.snd = [0x20002000, 0x20001000] ∧
      smallLog.Right 0x20000002 64 :=
  ⟨by decide +kernel, by decide +kernel,
    (pool_right ⟨by decide, by decide, by decide⟩ (fun _ => 0) smallRequests).1⟩

end Udynlink.Deps
