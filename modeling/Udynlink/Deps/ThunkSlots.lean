import Udynlink.Deps.Resolution
import Udynlink.Deps.ThunkPool

/-!
# Thunks inside a module

A module with a gateway slot has a slot for every function it exports through a thunk.
The dependency manager fills them in after the load.
-/

namespace Udynlink.Deps

open Machine

/-- A resolver that only answers. -/
def answering (answer : ModName → UInt32) : Resolver := fun name s => some (answer name, s)

namespace LoadedModule

variable (m : LoadedModule) (answer : ModName → UInt32)

/-- `udynlink_lookup_symbol` with these answers to weak symbols. -/
def lookup (name : ModName) : Option ModSym :=
  (m.find name).map fun sym => if sym.type = symTypeWeak then sym.override (answer name) else sym

theorem lookupSymbol_answering (name : ModName) (s : ResState) :
    lookupSymbol (answering answer) m name s = some (m.lookup answer name, s) := by
  unfold lookupSymbol lookup answering
  cases m.find name with
  | none => rfl
  | some sym =>
    dsimp only [Option.map_some]
    split <;> rfl

/-- Only a weak symbol depends on an answer. -/
theorem find_of_lookup {m : LoadedModule} {answer : ModName → UInt32} {name : ModName}
    {sym : ModSym} (h : m.lookup answer name = some sym) (hty : sym.type = symTypeExported) :
    m.find name = some sym := by
  obtain ⟨own, hf, rfl⟩ := Option.map_eq_some_iff.mp h
  by_cases hw : own.type = symTypeWeak
  · rw [if_pos hw, ModSym.override_type, hw] at hty
    exact absurd hty (by decide)
  · rw [if_neg hw]
    exact hf

/-- Other answers find the symbol in the same place. -/
theorem lookup_told {m : LoadedModule} {answer : ModName → UInt32} (told : ModName → UInt32)
    {name : ModName} {sym : ModSym} (h : m.lookup answer name = some sym) :
    ∃ fsym, m.lookup told name = some fsym ∧ fsym.location = sym.location := by
  obtain ⟨own, hf, rfl⟩ := Option.map_eq_some_iff.mp h
  unfold lookup
  rw [hf]
  refine ⟨_, rfl, ?_⟩
  dsimp only
  by_cases hw : own.type = symTypeWeak
  · rw [if_pos hw, if_pos hw, ModSym.override_location, ModSym.override_location]
  · rw [if_neg hw, if_neg hw]

def thunkGatewayName : ModName := "udynlink_thunk_gateway".toUTF8.toList

/-- The gateway slot. -/
def gatewaySlot : Option Addr :=
  match m.lookup answer thunkGatewayName with
  | some gw => if gw.type = symTypeExported ∧ gw.location = .data then some gw.val else none
  | none => none

/-- The slots for functions, with the functions. -/
def slots : List (Addr × UInt32) :=
  m.syms.filterMap fun s =>
    if s.type = symTypeExported ∧ s.location = .data ∧ thunkExportPrefix.isPrefixOf s.name then
      match m.lookup answer (s.name.drop thunkExportPrefix.length) with
      | some fsym => if fsym.location = .code then some (s.val, fsym.val) else none
      | none => none
    else none

/-- `udynlink_dep_generate_thunks`. -/
def generateThunks (mem : Mem) : Mem :=
  match m.gatewaySlot answer with
  | some gateway =>
    (m.slots answer).foldl (fun mem slot => (writeStub mem slot.1 slot.2 gateway).2)
      (writeGateway mem gateway m.ramBase)
  | none => mem

/-- The bytes of the slots. -/
def thunkArea : List Span :=
  ((m.gatewaySlot answer).toList.map fun g => ⟨g, 18⟩) ++
    (m.slots answer).map fun slot => ⟨slot.1, 10⟩

theorem slot_mem_area {slot : Addr × UInt32} (h : slot ∈ m.slots answer) :
    (⟨slot.1, 10⟩ : Span) ∈ m.thunkArea answer :=
  List.mem_append_right _ (List.mem_map_of_mem h)

theorem gateway_mem_area {g : Addr} (h : m.gatewaySlot answer = some g) :
    (⟨g, 18⟩ : Span) ∈ m.thunkArea answer := by
  unfold thunkArea
  rw [h]
  exact List.mem_append_left _ List.mem_cons_self

/-- The slots lie in order: apart from each other, on halfwords, in reach of the gateway;
without a gateway they are zeroed. -/
structure SlotsFit (mem : Mem) : Prop where
  apart : ∀ x ∈ m.slots answer, ∀ y ∈ m.slots answer,
    x = y ∨ Span.Disjoint ⟨x.1, 10⟩ ⟨y.1, 10⟩
  even : ∀ x ∈ m.slots answer, Even x.1
  gateway : ∀ g, m.gatewaySlot answer = some g → Even g ∧
    ∀ x ∈ m.slots answer, Reach x.1 g ∧ Span.Disjoint ⟨g, 18⟩ ⟨x.1, 10⟩
  zeroed : m.gatewaySlot answer = none → ∀ x ∈ m.slots answer, mem.u16 x.1 = 0

/-- Every slot is zeroed or holds a stub for its function. -/
def SlotsRight (mem : Mem) : Prop :=
  ∀ x ∈ m.slots answer, mem.u16 x.1 = 0 ∨
    Even x.1 ∧ ∃ g, m.gatewaySlot answer = some g ∧ Even g ∧
      StubAt mem x.1 x.2 g ∧ GatewayAt mem g m.ramBase

/-- The entry of a stub in a slot. -/
def SlotEntry (mem : Mem) (entry func : UInt32) : Prop :=
  ∃ s g, entry = s ||| 1 ∧ Even s ∧ Even g ∧ StubAt mem s func g ∧ GatewayAt mem g m.ramBase ∧
    (⟨s, 10⟩ : Span) ∈ m.thunkArea answer ∧ (⟨g, 18⟩ : Span) ∈ m.thunkArea answer

end LoadedModule

/-! ## Filling the slots -/

section

variable {mem mem' : Mem} {g : Addr}

theorem fill_agree {t : Span} (l : List (Addr × UInt32)) (h : ∀ x ∈ l, t.Disjoint ⟨x.1, 10⟩) :
    AgreeOn t mem (l.foldl (fun mem slot => (writeStub mem slot.1 slot.2 g).2) mem) := by
  induction l generalizing mem with
  | nil => exact fun _ _ => rfl
  | cons x l ih =>
    rw [List.foldl_cons]
    exact (writeStub_agree (h x List.mem_cons_self)).trans
      (ih fun y hy => h y (List.mem_cons_of_mem _ hy))

/-- A stub stays one when it is written again. -/
theorem fill_keeps {x : Addr × UInt32} (hx : StubAt mem x.1 x.2 g) (hr : Reach x.1 g)
    (l : List (Addr × UInt32)) (h : ∀ y ∈ l, x = y ∨ Span.Disjoint ⟨x.1, 10⟩ ⟨y.1, 10⟩) :
    StubAt (l.foldl (fun mem slot => (writeStub mem slot.1 slot.2 g).2) mem) x.1 x.2 g := by
  induction l generalizing mem with
  | nil => exact hx
  | cons y l ih =>
    rw [List.foldl_cons]
    refine ih ?_ fun z hz => h z (List.mem_cons_of_mem _ hz)
    rcases h y List.mem_cons_self with rfl | hd
    · exact writeStub_at hr
    · exact hx.congr (writeStub_agree hd)

theorem fill_at {l : List (Addr × UInt32)}
    (h : ∀ x ∈ l, ∀ y ∈ l, x = y ∨ Span.Disjoint ⟨x.1, 10⟩ ⟨y.1, 10⟩) {x : Addr × UInt32}
    (hx : x ∈ l) (hr : Reach x.1 g) :
    StubAt (l.foldl (fun mem slot => (writeStub mem slot.1 slot.2 g).2) mem) x.1 x.2 g := by
  induction l generalizing mem with
  | nil => cases hx
  | cons y l ih =>
    rw [List.foldl_cons]
    rcases List.mem_cons.mp hx with rfl | hx
    · exact fill_keeps (writeStub_at hr) hr l
        fun z hz => h x List.mem_cons_self z (List.mem_cons_of_mem _ hz)
    · exact ih (fun z hz w hw => h z (List.mem_cons_of_mem _ hz) w (List.mem_cons_of_mem _ hw)) hx

end

namespace LoadedModule

variable {m : LoadedModule} {answer : ModName → UInt32} {mem mem' : Mem}

/-- Nothing but the slots changes. -/
theorem generateThunks_agree {t : Span} (h : ∀ s ∈ m.thunkArea answer, t.Disjoint s) :
    AgreeOn t mem (m.generateThunks answer mem) := by
  unfold generateThunks
  cases hg : m.gatewaySlot answer with
  | none => exact fun _ _ => rfl
  | some g =>
    exact (writeGateway_agree (h _ (m.gateway_mem_area answer hg))).trans
      (fill_agree _ fun x hx => h _ (m.slot_mem_area answer hx))

/-- The slots come out right. -/
theorem SlotsFit.right (h : m.SlotsFit answer mem) :
    m.SlotsRight answer (m.generateThunks answer mem) := by
  intro x hx
  unfold generateThunks
  cases hg : m.gatewaySlot answer with
  | none => exact Or.inl (h.zeroed hg x hx)
  | some g =>
    obtain ⟨hge, hall⟩ := h.gateway g hg
    refine Or.inr ⟨h.even x hx, g, rfl, hge, ?_, ?_⟩
    · exact fill_at h.apart hx (hall x hx).1
    · exact writeGateway_at.congr (fill_agree _ fun y hy => (hall y hy).2)

/-- Only the slots matter. -/
theorem SlotsRight.congr (h : m.SlotsRight answer mem)
    (hm : ∀ s ∈ m.thunkArea answer, AgreeOn s mem mem') : m.SlotsRight answer mem' := by
  intro x hx
  have hslot := hm _ (m.slot_mem_area answer hx)
  rcases h x hx with h0 | ⟨he, g, hg, hge, hs, hga⟩
  · left
    rw [← h0]
    exact u16_eq_of_bytes fun i hi => (hslot _ (prefix_subset (by decide) _ (off_mem hi (by decide)))).symm
  · exact Or.inr ⟨he, g, hg, hge, hs.congr hslot, hga.congr (hm _ (m.gateway_mem_area answer hg))⟩

theorem SlotEntry.congr {entry func : UInt32} (h : m.SlotEntry answer mem entry func)
    (hm : ∀ s ∈ m.thunkArea answer, AgreeOn s mem mem') : m.SlotEntry answer mem' entry func := by
  obtain ⟨s, g, he, hse, hge, hs, hg, hsa, hga⟩ := h
  exact ⟨s, g, he, hse, hge, hs.congr (hm _ hsa), hg.congr (hm _ hga), hsa, hga⟩

theorem SlotEntry.callsWith {entry func : UInt32} (h : m.SlotEntry answer mem entry func) :
    CallsWith mem entry func m.ramBase := by
  obtain ⟨s, g, rfl, hse, hge, hs, hg, -, -⟩ := h
  exact hs.callsWith hg hse hge

/-- The slot a function has. -/
theorem slot_of_lookup {name : ModName} {tsym fsym : ModSym}
    (ht : m.find (thunkExportPrefix ++ name) = some tsym) (hty : tsym.type = symTypeExported)
    (hl : tsym.location = .data) (hf : m.lookup answer name = some fsym)
    (hc : fsym.location = .code) : (tsym.val, fsym.val) ∈ m.slots answer := by
  have hmem := List.mem_of_find?_eq_some ht
  have hname : tsym.name = thunkExportPrefix ++ name := by
    have hp := List.find?_some ht
    exact (of_decide_eq_true hp).2
  have hpre : thunkExportPrefix.isPrefixOf tsym.name := by
    rw [hname, List.isPrefixOf_iff_prefix]
    exact List.prefix_append _ _
  unfold slots
  refine List.mem_filterMap.mpr ⟨tsym, hmem, ?_⟩
  rw [if_pos ⟨hty, hl, hpre⟩, hname, List.drop_left, hf]
  exact if_pos hc

end LoadedModule

end Udynlink.Deps
