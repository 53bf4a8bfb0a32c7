import Udynlink.LoadWrites
import Udynlink.RelocateErrors
import Udynlink.Machine.Deeds

/-!
# Blocks handed out and given back

A request that is answered hands out a block under the tag it was asked for, a
release gives one back under its own. What a module owes the host is read off its
handle and its base array, and that is what the release loops give back.
-/

namespace Udynlink

open Machine

/-! ## Callbacks as deeds -/

/-- A block is handed out and given back under one tag. -/
def HostEvent.deed : HostEvent → Option (Deed (BlockTag × Addr))
  | .malloc _ tag p => if p = 0 then none else some (.grant (tag, p))
  | .free tag p => some (.release (tag, p))
  | .resolve _ _ => none

def deeds (hs : List HostEvent) : List (Deed (BlockTag × Addr)) := hs.filterMap HostEvent.deed

@[simp] theorem deeds_nil : deeds [] = [] := rfl

@[simp] theorem deeds_append (hs hs' : List HostEvent) :
    deeds (hs ++ hs') = deeds hs ++ deeds hs' := List.filterMap_append

theorem deeds_onlyResolves {hs : List HostEvent} (h : OnlyResolves hs) : deeds hs = [] := by
  refine List.filterMap_eq_nil_iff.mpr fun e he => ?_
  obtain ⟨name, ans, rfl⟩ := h e he
  rfl

/-- A main block handed over by the caller is no deed of the allocator. -/
def mainKeys (mod : Module) (mainAlign : UInt32) : List (BlockTag × Addr) :=
  if mod.pRam ≠ 0 ∧ !mod.isForeignRam then [(⟨none, mainAlign, 0⟩, mod.pRam)] else []

section

variable (es : Nat → SectEntry) (secs : Nat → Addr) (names : Nat → Option (List UInt8))

def taggedKey (j : Nat) : BlockTag × Addr :=
  (⟨names j, (es j).align, sectHostFlags (es j)⟩, secs j)

/-- The sections with a block of their own among `n` from `k` on. -/
def taggedIdx (n k : Nat) : List Nat := (List.range' k n).filter fun j => (es j).size ≠ 0

def taggedKeys (n k : Nat) : List (BlockTag × Addr) :=
  (taggedIdx es n k).map (taggedKey es secs names)

/-- The callbacks that give them back. -/
def taggedFrees (n k : Nat) : List HostEvent :=
  (taggedKeys es secs names n k).map fun key => .free key.1 key.2

end

section

variable {es : Nat → SectEntry} {secs secs' : Nat → Addr} {names names' : Nat → Option (List UInt8)}
  {n k j : Nat}

theorem taggedIdx_succ : taggedIdx es (n + 1) k =
    if (es k).size = 0 then taggedIdx es n (k + 1) else k :: taggedIdx es n (k + 1) := by
  rw [taggedIdx, List.range'_succ, List.filter_cons]
  split <;> simp_all [taggedIdx]

theorem mem_taggedIdx : j ∈ taggedIdx es n k ↔ k ≤ j ∧ j < k + n ∧ (es j).size ≠ 0 := by
  simp [taggedIdx, List.mem_range'_1, and_assoc]

theorem taggedKeys_congr (hs : ∀ j, k ≤ j → j < k + n → (es j).size ≠ 0 → secs j = secs' j)
    (hn : ∀ j, k ≤ j → j < k + n → (es j).size ≠ 0 → names j = names' j) :
    taggedKeys es secs names n k = taggedKeys es secs' names' n k := by
  refine List.map_congr_left fun j hj => ?_
  obtain ⟨h1, h2, h3⟩ := mem_taggedIdx.mp hj
  rw [taggedKey, taggedKey, hs j h1 h2 h3, hn j h1 h2 h3]

theorem deeds_frees (keys : List (BlockTag × Addr)) :
    deeds (keys.map fun key => .free key.1 key.2) = keys.map .release := by
  rw [deeds, List.filterMap_map]
  exact congrFun List.filterMap_eq_map keys

theorem deeds_mainHost {mainAlign ramSize loadAddr p : UInt32} {mod : Module}
    (hne : ramSize ≠ 0 → p ≠ 0) : deeds (mainHost mainAlign ramSize loadAddr p) =
      (mainKeys (provisionHandle ramSize loadAddr p mod) mainAlign).map .grant := by
  rw [mainHost, mainKeys, provisionHandle, ownedHandle]
  by_cases hz : ramSize = 0
  · simp [hz]
  · have hown : ({ mod.clrForeignRam with pRam := p } : Module).isForeignRam = false :=
      Module.isForeignRam_clrForeignRam mod
    have hforeign : ({ mod.setForeignRam with pRam := p } : Module).isForeignRam = true :=
      Module.isForeignRam_setForeignRam mod
    by_cases hl : loadAddr = 0
    · simp [hz, hl, hne hz, deeds, HostEvent.deed, hown]
    · simp [hz, hl, hforeign]

end

/-! ## The release loops -/

section

variable {tab : SectView} {es : Nat → SectEntry} {secs : Nat → Addr}
  {names : Nat → Option (List UInt8)} {mod : Module} {m : Mem} {n k c : Nat} {w w' : State}

/-- Of `n` sections from `k` on the first `c` have their bases in the array, and the
array is empty behind. -/
structure Recorded (tab : SectView) (es : Nat → SectEntry) (secs : Nat → Addr)
    (names : Nat → Option (List UInt8)) (mod : Module) (m : Mem) (n k c : Nat) : Prop where
  entries : ∀ j, k ≤ j → j < k + n → entriesAt m tab.pEntries j = es j
  names : ∀ j, k ≤ j → j < k + n → (es j).size ≠ 0 →
    (readSectName (sectName tab (es j))).run m = names j
  bases : ∀ j, k ≤ j → j < k + c → (es j).size ≠ 0 →
    (getSectionBaseIdx mod tab j).run m = secs j ∧ secs j ≠ 0
  rest : ∀ j, k + c ≤ j → j < k + n → (es j).size ≠ 0 → (getSectionBaseIdx mod tab j).run m = 0

theorem Recorded.tail (h : Recorded tab es secs names mod m (n + 1) k (c + 1)) :
    Recorded tab es secs names mod m n (k + 1) c where
  entries j hj hj' := h.entries j (by omega) (by omega)
  names j hj hj' := h.names j (by omega) (by omega)
  bases j hj hj' := h.bases j (by omega) (by omega)
  rest j hj hj' := h.rest j (by omega) (by omega)

theorem Recorded.skip (h : Recorded tab es secs names mod m (n + 1) k 0) :
    Recorded tab es secs names mod m n (k + 1) 0 where
  entries j hj hj' := h.entries j (by omega) (by omega)
  names j hj hj' := h.names j (by omega) (by omega)
  bases j hj hj' := absurd hj' (by omega)
  rest j hj hj' := h.rest j (by omega) (by omega)

/-- A release: its record behind the read of the name. -/
theorem externalFree_filled {p : Addr} {sect : Option Addr} {align flags : UInt32}
    (h : (externalFree p sect align flags).run w = (.ok (), w')) :
    Filled w w' [] [.free ⟨(readSectName sect).run w.mem, align, flags⟩ p] := by
  rw [externalFree, Prog.run_lift_bind, Prog.run_host, World.log_log, Prod.mk.injEq] at h
  rw [← h.2]
  refine ⟨rfl, rfl, _, World.extends_log _ _, ?_, fun s hs => ?_⟩
  · rw [hostEvents_append, hostEvents_readEvents]
    rfl
  · simp [readEvents] at hs

/-- The loop gives back what the array has recorded, and stops at the first gap. -/
theorem freeSectionsLoop_ok (h : (freeSectionsLoop tab n k).run w = (.ok (), w'))
    (hr : Recorded tab es secs names w.handle w.mem n k c) (hc : c ≤ n) :
    Filled w w' [] (taggedFrees es secs names c k) := by
  induction n generalizing k c w with
  | zero =>
    obtain rfl : c = 0 := by omega
    rw [freeSectionsLoop, Prog.run_pure, Prod.mk.injEq] at h
    rw [← h.2]
    exact Filled.refl w
  | succ n ih =>
    rw [freeSectionsLoop, Prog.run_lift_bind, sectEntryAt_run, hr.entries k (by omega) (by omega)] at h
    split at h
    next hz =>
      cases c with
      | zero =>
        have hf := @ih (k + 1) 0 _ h hr.skip (Nat.zero_le n)
        exact Filled.of_log hf
      | succ c =>
        have hf := @ih (k + 1) c _ h hr.tail (by omega)
        rw [taggedFrees, taggedKeys, taggedIdx_succ, if_pos hz]
        exact Filled.of_log hf
    next hz =>
      rw [Prog.run_getHandle_bind, Prog.run_lift_bind, World.log_handle, World.log_mem,
        World.log_log, ← readEvents_append] at h
      cases c with
      | zero =>
        rw [hr.rest k (by omega) (by omega) hz, if_pos rfl, Prog.run_pure, Prod.mk.injEq] at h
        rw [← h.2]
        exact Filled.log w _
      | succ c =>
        obtain ⟨hb, hne⟩ := hr.bases k (by omega) (by omega) hz
        rw [hb, if_neg hne, Prog.run_bind_ok] at h
        obtain ⟨⟨⟩, w1, hfree, hrest⟩ := h
        have hf := Filled.of_log (externalFree_filled hfree)
        rw [World.log_mem, hr.names k (by omega) (by omega) hz] at hf
        have hmem : w1.mem = w.mem := hf.did.mem
        have htail := ih hrest (by rw [hf.handle, hmem]; exact hr.tail) (by omega)
        rw [taggedFrees, taggedKeys, taggedIdx_succ, if_neg hz]
        exact hf.trans htail

theorem freeSectionsLoop_total (tab : SectView) (n k : Nat) : (freeSectionsLoop tab n k).Total := by
  induction n generalizing k with
  | zero => exact Prog.total_pure ()
  | succ n ih =>
    refine Prog.total_bind (Prog.total_lift _) fun e => Prog.total_ite (ih _) ?_
    refine Prog.total_bind Prog.total_getHandle fun mod => ?_
    refine Prog.total_bind (Prog.total_lift _) fun base => ?_
    refine Prog.total_ite (Prog.total_pure ()) ?_
    exact Prog.total_bind (externalFree_total _ _ _ _) fun _ => ih _

/-- What a module owes for its tagged sections: as many as the array has recorded, and
none without a block. -/
structure Owes (tab : SectView) (es : Nat → SectEntry) (secs : Nat → Addr)
    (names : Nat → Option (List UInt8)) (mod : Module) (m : Mem) (c : Nat) : Prop where
  none : mod.pRam = 0 ∨ tab.num ≤ 3 → c = 0
  count : c ≤ tab.num - 3
  recorded : mod.pRam ≠ 0 → 3 < tab.num → Recorded tab es secs names mod m (tab.num - 3) 3 c

theorem freeNonmainSections_ok (h : (freeNonmainSections tab).run w = (.ok (), w'))
    (hr : Owes tab es secs names w.handle w.mem c) :
    Filled w w' [] (taggedFrees es secs names c 3) := by
  rw [freeNonmainSections, Prog.run_getHandle_bind] at h
  split at h
  next hz =>
    rw [Prog.run_pure, Prod.mk.injEq] at h
    rw [← h.2, hr.none hz]
    exact Filled.refl w
  next hz =>
    rw [not_or] at hz
    exact freeSectionsLoop_ok h (hr.recorded hz.1 (by omega)) hr.count

theorem freeMainBlock_ok {mainAlign : UInt32} (h : (freeMainBlock mainAlign).run w = (.ok (), w')) :
    Filled w w' [] ((mainKeys w.handle mainAlign).map fun key => .free key.1 key.2) := by
  rw [freeMainBlock, Prog.run_getHandle_bind] at h
  rw [mainKeys]
  split at h
  next hc =>
    rw [if_pos hc]
    exact externalFree_filled h
  next hc =>
    rw [Prog.run_pure, Prod.mk.injEq] at h
    rw [if_neg hc, ← h.2]
    exact Filled.refl w

/-- The sections go back first, then the block that holds their bases. -/
theorem releaseAll_ok {mainAlign : UInt32} {w1 : State}
    (h : (freeNonmainSections tab).run w = (.ok (), w1)) (hr : Owes tab es secs names w.handle w.mem c)
    (h' : (freeMainBlock mainAlign).run w1 = (.ok (), w')) {evs : List (Event HostEvent)}
    (he : w.Extends w' evs) :
    deeds (hostEvents evs) =
      (taggedKeys es secs names c 3 ++ mainKeys w.handle mainAlign).map .release := by
  have hs := freeNonmainSections_ok h hr
  have hm := freeMainBlock_ok h'
  rw [hs.handle] at hm
  rw [((hs.trans hm).did.of_extends he).1, deeds_append, taggedFrees, deeds_frees, deeds_frees,
    List.map_append]

end

end Udynlink
