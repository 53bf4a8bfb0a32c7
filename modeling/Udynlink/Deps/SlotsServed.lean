import Udynlink.Deps.ThunkRuns
import Udynlink.Deps.StubRange

/-!
# Slots that serve

A stub that is refused leaves its first two instructions behind. The resolver takes the
slot for a filled one, and hands it out.
-/

namespace Udynlink.Deps

open Machine

namespace LoadedModule

/-- The gateway and the slots as the macros reserve them: objects of their own, on
halfwords. -/
structure ThunksDeclared (m : LoadedModule) (answer : ModName → UInt32) (g : Addr) : Prop where
  gateway : m.gatewaySlot answer = some g
  evenGateway : Even g
  even : ∀ x ∈ m.slots answer, Even x.1
  apart : ∀ x ∈ m.slots answer, ∀ y ∈ m.slots answer,
    x = y ∨ Span.Disjoint ⟨x.1, 10⟩ ⟨y.1, 10⟩
  clear : ∀ x ∈ m.slots answer, Span.Disjoint ⟨g, 18⟩ ⟨x.1, 10⟩

end LoadedModule

namespace World

/-- `udynlink_relocate_module`, which leaves the module and the memory behind, and then
`udynlink_dep_generate_thunks`. -/
def regenerate (w : World) (pMod : Handle) (m : LoadedModule) (answer : ModName → UInt32)
    (mem : Mem) : World :=
  w.setModule pMod (some ⟨m, answer⟩) (m.generateThunks answer mem)

/-- The name has a slot in the module that owns the function. -/
structure HasSlot (w : World) (answer : ModName → UInt32) (pMod : Handle) (name : ModName)
    (slot func : UInt32) : Prop where
  owned : ∃ i sym, w.env.owner answer name 0 w.env.handles = some (i, pMod, sym) ∧ sym.val = func
  short : name.length > 0 ∧ name.length ≤ depMaxName
  exported : ∃ tsym, (w.module pMod).lookup answer (thunkExportPrefix ++ name) = some tsym ∧
    tsym.type = symTypeExported ∧ tsym.location = .data ∧ tsym.val = slot

/-- What is handed out for names with a slot that looks filled: a complete stub, for the
function as it is found now, that goes to a gateway with the RAM base of the module. -/
def SlotsServed (w : World) (answer : ModName → UInt32) (pMod : Handle) (g : Addr) : Prop :=
  ∀ name slot func, w.HasSlot answer pMod name slot func → w.thunks.mem.u16 slot ≠ 0 →
    (w.resolveFunc answer name).1 = slot ||| 1 ∧
      StubAt w.thunks.mem ((slot ||| 1) &&& ~~~1) func g ∧
      GatewayAt w.thunks.mem g (w.module pMod).ramBase

/-- The gateway is in reach of every slot that serves a name, and a weak function is
answered as when the slots were filled. -/
def SlotsClear (w : World) (told answer : ModName → UInt32) (pMod : Handle) (g : Addr) : Prop :=
  ∀ name slot func, w.HasSlot answer pMod name slot func →
    InBranchRange (displacement slot g) ∧
      ((w.module pMod).lookup told name).map ModSym.val = some func

end World

/-! ## What a slot holds -/

section

variable {mem : Mem} {s g : Addr} {f f' : UInt32}

theorem StubHead.filled (h : StubHead mem s f) : mem.u16 s ≠ 0 := by
  intro h0
  have hop : movHw0 movwOp f.toUInt16 &&& 0xFBF0 = movwOp := movHw0_op (Or.inl rfl)
  rw [← h.movw0, h0] at hop
  exact absurd hop (by decide)

theorem StubHead.unique (h : StubHead mem s f) (h' : StubHead mem s f') : f = f' :=
  Option.some.inj (h.target.symm.trans h'.target)

/-- A stub goes to where its branch reaches. -/
theorem StubAt.reach (h : StubAt mem s f g) : Reach s g := by
  obtain ⟨x, -, ht⟩ := h.branch
  have hi := imm_toNat x
  have hlt := Nat.mod_lt x.toNat (show 2048 > 0 by decide)
  unfold branchTarget at ht
  rw [branch_imm] at ht
  dsimp only at ht
  generalize (x &&& 0x7FF).toUInt32 = imm at hi ht
  have h2 : (2 : UInt32).toNat = 2 := rfl
  unfold Reach
  split at ht
  · rename_i hlow
    rw [UInt32.lt_iff_toNat_lt, show (0x400 : UInt32).toNat = 1024 from rfl] at hlow
    rw [show g - (s + 12) = imm * 2 by rw [← ht]; grind, UInt32.toNat_mul, h2]
    omega
  · rename_i hhigh
    rw [UInt32.lt_iff_toNat_lt, show (0x400 : UInt32).toNat = 1024 from rfl] at hhigh
    rw [show g - (s + 12) = imm * 2 - 0x1000 by rw [← ht]; grind, UInt32.toNat_sub,
      UInt32.toNat_mul, h2, show (0x1000 : UInt32).toNat = 4096 from rfl]
    omega

/-- The function is in every slot. -/
theorem fill_head {l : List (Addr × UInt32)}
    (h : ∀ x ∈ l, ∀ y ∈ l, x = y ∨ Span.Disjoint ⟨x.1, 10⟩ ⟨y.1, 10⟩) {x : Addr × UInt32}
    (hx : x ∈ l) :
    StubHead (l.foldl (fun mem slot => (writeStub mem slot.1 slot.2 g).2) mem) x.1 x.2 := by
  have hkeeps : ∀ (l : List (Addr × UInt32)) (mem : Mem), StubHead mem x.1 x.2 →
      (∀ y ∈ l, x = y ∨ Span.Disjoint ⟨x.1, 10⟩ ⟨y.1, 10⟩) →
      StubHead (l.foldl (fun mem slot => (writeStub mem slot.1 slot.2 g).2) mem) x.1 x.2 := by
    intro l
    induction l with
    | nil => exact fun _ hs _ => hs
    | cons y l ih =>
      intro mem hs hl
      rw [List.foldl_cons]
      refine ih _ ?_ fun z hz => hl z (List.mem_cons_of_mem _ hz)
      rcases hl y List.mem_cons_self with rfl | hd
      · exact writeStub_head
      · exact hs.congr (writeStub_agree hd)
  induction l generalizing mem with
  | nil => cases hx
  | cons y l ih =>
    rw [List.foldl_cons]
    rcases List.mem_cons.mp hx with rfl | hx
    · exact hkeeps l _ writeStub_head fun z hz => h x List.mem_cons_self z (List.mem_cons_of_mem _ hz)
    · exact ih (fun z hz w hw => h z (List.mem_cons_of_mem _ hz) w (List.mem_cons_of_mem _ hw)) hx

end

namespace LoadedModule.ThunksDeclared

variable {m : LoadedModule} {told : ModName → UInt32} {mem : Mem} {g : Addr}

theorem generated (h : m.ThunksDeclared told g) : m.generateThunks told mem =
    (m.slots told).foldl (fun mem slot => (writeStub mem slot.1 slot.2 g).2)
      (writeGateway mem g m.ramBase) := by
  unfold generateThunks
  rw [h.gateway]

theorem gatewayAt (h : m.ThunksDeclared told g) :
    GatewayAt (m.generateThunks told mem) g m.ramBase := by
  rw [h.generated]
  exact writeGateway_at.congr (fill_agree _ h.clear)

/-- A slot is filled with its function in any case, with the branch if it is in reach. -/
theorem slotAt (h : m.ThunksDeclared told g) {x : Addr × UInt32} (hx : x ∈ m.slots told) :
    StubHead (m.generateThunks told mem) x.1 x.2 ∧
      (StubAt (m.generateThunks told mem) x.1 x.2 g ↔ InBranchRange (displacement x.1 g)) := by
  rw [h.generated, ← reach_iff (h.even x hx) h.evenGateway]
  exact ⟨fill_head h.apart hx, StubAt.reach, fill_at h.apart hx⟩

end LoadedModule.ThunksDeclared

/-! ## Resolving -/

namespace World

variable {w : World} {answer told : ModName → UInt32} {pMod : Handle} {name : ModName}
variable {slot func : UInt32} {m : LoadedModule} {mem : Mem} {g : Addr}

/-- A slot with a first halfword is handed out. -/
theorem HasSlot.resolveFunc (h : w.HasSlot answer pMod name slot func)
    (hf : w.thunks.mem.u16 slot ≠ 0) : (w.resolveFunc answer name).1 = slot ||| 1 := by
  obtain ⟨i, sym, ho, -⟩ := h.owned
  obtain ⟨tsym, ht, hty, hloc, rfl⟩ := h.exported
  have hslot : w.env.slotFor answer name (w.env.modules pMod) = some tsym.val := by
    unfold Env.slotFor
    rw [if_pos h.short, show (w.env.modules pMod).lookup answer (thunkExportPrefix ++ name) =
      some tsym from ht]
    exact if_pos ⟨hty, hloc, hf⟩
  unfold World.resolveFunc Env.resolveFunc
  rw [Env.resolveFuncFrom_owner, ho]
  dsimp only
  rw [Env.serveFunc_answering, hslot]

/-- The slot was among those that were filled. -/
theorem HasSlot.mem_slots (h : w.HasSlot answer pMod name slot func)
    (hm : w.modules pMod = some ⟨m, told⟩) :
    ∃ fsym, m.lookup told name = some fsym ∧ (slot, fsym.val) ∈ m.slots told := by
  have hmod : w.module pMod = m := module_of_some hm
  obtain ⟨i, sym, ho, -⟩ := h.owned
  obtain ⟨tsym, ht, hty, hloc, rfl⟩ := h.exported
  obtain ⟨-, -, hl, hc⟩ := w.env.owner_some answer name ho
  rw [hmod] at ht
  rw [show w.env.modules pMod = m from hmod] at hl
  obtain ⟨fsym, hf, hfl⟩ := LoadedModule.lookup_told told hl
  exact ⟨fsym, hf, LoadedModule.slot_of_lookup (LoadedModule.find_of_lookup ht hty) hty hloc hf
    (hfl.trans hc)⟩

theorem slotsServed_iff (hm : w.modules pMod = some ⟨m, told⟩)
    (hmem : w.thunks.mem = m.generateThunks told mem) (hd : m.ThunksDeclared told g) :
    w.SlotsServed answer pMod g ↔ w.SlotsClear told answer pMod g := by
  have hmod : w.module pMod = m := module_of_some hm
  constructor
  · intro h name slot func hs
    obtain ⟨fsym, hf, hx⟩ := hs.mem_slots hm
    obtain ⟨hhead, hat⟩ := @LoadedModule.ThunksDeclared.slotAt m told mem g hd _ hx
    rw [← hmem] at hhead hat
    obtain ⟨-, hstub, -⟩ := h name slot func hs hhead.filled
    rw [even_or_one (hd.even _ hx)] at hstub
    obtain rfl := hhead.unique hstub.head
    refine ⟨hat.mp hstub, ?_⟩
    rw [hmod, hf]
    rfl
  · intro h name slot func hs hfilled
    obtain ⟨fsym, hf, hx⟩ := hs.mem_slots hm
    obtain ⟨hreach, hfunc⟩ := h name slot func hs
    rw [hmod, hf] at hfunc
    obtain rfl := Option.some.inj hfunc
    refine ⟨hs.resolveFunc hfilled, ?_, ?_⟩
    · rw [even_or_one (hd.even _ hx), hmem]
      exact (hd.slotAt hx).2.mpr hreach
    · rw [hmod, hmem]
      exact hd.gatewayAt

/-- After a load, and after a move with new stubs, every slot that is handed out holds a
complete stub exactly when the slots that serve are in reach of the gateway. -/
theorem slotsServed_generated (w : World) (pMod : Handle) (name : Option ModName)
    (told answer : ModName → UInt32) (m m' : LoadedModule) (mem mem' : Mem) (g g' : Addr)
    (hp : pMod ≠ 0) (hr : w.mgr.refuses name = false) (hd : m.ThunksDeclared told g)
    (hd' : m'.ThunksDeclared told g') :
    ((w.depLoad pMod name (some m) told mem).SlotsServed answer pMod g ↔
      (w.depLoad pMod name (some m) told mem).SlotsClear told answer pMod g) ∧
    ((w.regenerate pMod m' told mem').SlotsServed answer pMod g' ↔
      (w.regenerate pMod m' told mem').SlotsClear told answer pMod g') := by
  refine ⟨?_, ?_⟩
  · have hload : ¬ (pMod = 0 ∨ w.mgr.refuses name = true) := by
      rw [hr]
      exact fun h => h.elim hp fun h => by cases h
    unfold depLoad
    rw [if_neg hload]
    exact slotsServed_iff (Function.update_self _ _ _) rfl hd
  · exact slotsServed_iff (Function.update_self _ _ _) rfl hd'

end World

/-! ## A slot out of reach -/

/-- A module with one function, its gateway at the start of the data and its slot at `slot`. -/
def oneExport (slot : Addr) : LoadedModule :=
  ⟨none, 0x20000000, [⟨LoadedModule.thunkGatewayName, 0x20000000, symTypeExported, .data⟩,
    ⟨thunkExportPrefix ++ [102], slot, symTypeExported, .data⟩,
    ⟨[102], 0x08000101, symTypeExported, .code⟩]⟩

def oneExportLoaded (slot : Addr) : World :=
  (World.initial 1 (fun _ => 0) 0x20008000 64).depLoad 4 none (some (oneExport slot)) (fun _ => 0)
    fun _ => 0

theorem oneExport_declared {slot : Addr}
    (hg : (oneExport slot).gatewaySlot (fun _ => 0) = some 0x20000000)
    (hs : (oneExport slot).slots (fun _ => 0) = [(slot, 0x08000101)]) (he : Even slot)
    (hc : Span.Disjoint ⟨0x20000000, 18⟩ ⟨slot, 10⟩) :
    (oneExport slot).ThunksDeclared (fun _ => 0) 0x20000000 where
  gateway := hg
  evenGateway := by unfold Even; decide
  even x hx := by
    rw [hs, List.mem_singleton] at hx
    rwa [hx]
  apart x hx y hy := by
    rw [hs, List.mem_singleton] at hx hy
    exact Or.inl (hx.trans hy.symm)
  clear x hx := by
    rw [hs, List.mem_singleton] at hx
    rwa [hx]

theorem slotsServed_generated_near :
    (oneExportLoaded 0x20000020).SlotsServed (fun _ => 0) 4 0x20000000 := by
  have hd : (oneExport 0x20000020).ThunksDeclared (fun _ => 0) 0x20000000 :=
    oneExport_declared (by decide +kernel) (by decide +kernel) (by unfold Even; decide)
      (disjoint_of_le (by decide) (by decide))
  refine (World.slotsServed_generated _ 4 none (fun _ => 0) (fun _ => 0) _ _ (fun _ => 0)
    (fun _ => 0) _ _ (by decide) rfl hd hd).1.mpr ?_
  intro name slot func h
  obtain ⟨i, sym, ho, rfl⟩ := h.owned
  obtain ⟨fsym, -, hx⟩ := h.mem_slots rfl
  obtain ⟨-, -, hl, -⟩ := Env.owner_some _ _ _ ho
  have hslots : (oneExport 0x20000020).slots (fun _ => 0) = [(0x20000020, 0x08000101)] := by
    decide +kernel
  rw [hslots, List.mem_singleton] at hx
  obtain ⟨rfl, -⟩ := Prod.mk.inj hx
  exact ⟨by decide, congrArg (Option.map ModSym.val) hl⟩

/-- The slot is 4 KiB behind the gateway: two instructions of its stub are handed out. -/
theorem slotsServed_far :
    ¬ (oneExportLoaded 0x20001000).SlotsServed (fun _ => 0) 4 0x20000000 := by
  have hd : (oneExport 0x20001000).ThunksDeclared (fun _ => 0) 0x20000000 :=
    oneExport_declared (by decide +kernel) (by decide +kernel) (by unfold Even; decide)
      (disjoint_of_le (by decide) (by decide))
  intro h
  have hslot : (oneExportLoaded 0x20001000).HasSlot (fun _ => 0) 4 [102] 0x20001000 0x08000101 := by
    refine ⟨⟨0, ⟨[102], 0x08000101, symTypeExported, .code⟩, ?_, rfl⟩, by decide,
      ⟨thunkExportPrefix ++ [102], 0x20001000, symTypeExported, .data⟩, ?_, rfl, rfl, rfl⟩
    · decide +kernel
    · decide +kernel
  have hclear : (oneExportLoaded 0x20001000).SlotsClear (fun _ => 0) (fun _ => 0) 4 0x20000000 :=
    (World.slotsServed_iff rfl rfl hd).mp h
  exact absurd (hclear [102] _ _ hslot).1 (by decide)

end Udynlink.Deps
