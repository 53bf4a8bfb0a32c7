import Udynlink.SectionedStep

/-!
# The calls that move a sectioned module

Both entry points end in the same step. What they check of the list of moves is
what the step needs of it, and what keeps the new bases aligned.
-/

namespace Udynlink

open Machine

section

variable {w w' : State} {tab : SectView}

/-- A list that passes: tagged sections of the table, each once, at aligned bases. -/
theorem checkMoves_accepted {moves : List SectionMove} {seen : List UInt32}
    (hr : (checkMoves tab moves seen).run w = (.ok (), w')) :
    (∃ as, w' = w.log (readEvents as)) ∧
      (∀ mv ∈ moves, 3 ≤ mv.idx.toNat ∧ mv.idx.toNat < tab.num ∧ mv.newBase ≠ 0 ∧
        mv.newBase &&& ((entriesAt w.mem tab.pEntries mv.idx.toNat).align - 1) = 0) ∧
      (moves.map SectionMove.idx).Nodup ∧ ∀ mv ∈ moves, mv.idx ∉ seen := by
  induction moves generalizing w seen with
  | nil =>
    rw [checkMoves, Prog.run_pure, Prod.mk.injEq] at hr
    refine ⟨⟨[], ?_⟩, by simp, List.nodup_nil, by simp⟩
    rw [← hr.2, World.log, readEvents, List.map_nil, List.append_nil]
  | cons mv moves ih =>
    rw [checkMoves] at hr
    split at hr
    next => simp at hr
    next hrange =>
      split at hr
      next => simp at hr
      next hseen =>
        split at hr
        next => simp at hr
        next hbase =>
          rw [Prog.run_lift_bind, sectEntryAt_run] at hr
          split at hr
          next => simp at hr
          next hal =>
            obtain ⟨⟨as, hw'⟩, hall, hnd, hout⟩ := ih hr
            rw [not_or, Nat.not_le, UInt32.not_lt, UInt32.le_iff_toNat_le] at hrange
            have hnot : mv.idx ∉ seen := fun hmem => hseen (by simpa using hmem)
            have hrest : ∀ mv' ∈ moves, mv'.idx ≠ mv.idx ∧ mv'.idx ∉ seen := fun mv' hmv => by
              have := hout mv' hmv
              rw [List.mem_cons, not_or] at this
              exact this
            refine ⟨⟨_, by rw [hw', World.log_log, ← readEvents_append]⟩, ?_, ?_, ?_⟩
            · intro mv' hmv
              cases List.mem_cons.mp hmv with
              | inl he =>
                rw [he]
                exact ⟨hrange.1, hrange.2, hbase, not_not.mp hal⟩
              | inr hmem => exact hall mv' hmem
            · rw [List.map_cons, List.nodup_cons]
              refine ⟨fun hmem => ?_, hnd⟩
              obtain ⟨mv', hmv, he⟩ := List.mem_map.mp hmem
              exact (hrest mv' hmv).1 he
            · intro mv' hmv
              cases List.mem_cons.mp hmv with
              | inl he => rw [he]; exact hnot
              | inr hmem => exact (hrest mv' hmem).2

end

namespace SectionedImage

variable {u : SectionedImage} {secs : Nat → Addr} {p newRam : Addr} {mod : Module} {m : Mem}
  {moves : List SectionMove} {host : Host} {w w' : State}

theorem Placed.ramSize_run (h : u.Placed secs p mod m) (hf : u.Fits) :
    (udynlinkGetRamSize mod).run m = UInt32.ofNat u.ram := by
  have hnum := hf.main
  have hsec := hf.table.sectioned
  have hpos : (sectView mod.pHeader u.header).num > 0 := Nat.lt_of_lt_of_le (by decide) hnum
  rw [udynlinkGetRamSize, getRamSizeForHeader, Reader.run_bind, readHeader_run, h.header hf, hsec,
    if_pos rfl, Reader.run_bind, h.getSectab_run hf]
  dsimp only
  rw [if_pos ⟨rfl, hpos⟩, getRamSizeSections_run, h.mode, ram, exactRamSections, exactRamSections,
    placedEnd_congr fun j _ hj => h.entries hf (by have := firstPlaced_le u.mode; omega)]
  rfl

/-- Destinations that are not null, at the alignment their sections declare. -/
def BasesOk (u : SectionedImage) (moves : List SectionMove) : Prop :=
  ∀ mv ∈ moves, mv.newBase ≠ 0 ∧ mv.newBase &&& ((u.es mv.idx.toNat).align - 1) = 0

/-- A move that has left everything as it was, or has gone to `q`. -/
def StepDone (u : SectionedImage) (secs : Nat → Addr) (p newRam : Addr) (moves : List SectionMove)
    (w w' : State) : Prop :=
  (w'.handle = w.handle ∧ w'.mem = w.mem ∧ (moves = [] ∨ newRam = p)) ∨
    ∃ q, (∃ evs, w.Extends w' evs ∧ DestOf newRam (hostEvents evs) q) ∧ newRam ≠ p ∧ q ≠ 0 ∧
      (newRam ≠ 0 → newRam &&& (u.mainAlign - 1) = 0) ∧
      (u.FairMove secs p moves q → u.MovedTo secs p moves q newRam w w')

theorem StepDone.of_log {as : List Addr}
    (h : u.StepDone secs p newRam moves (w.log (readEvents as)) w') :
    u.StepDone secs p newRam moves w w' := by
  cases h with
  | inl hx => exact Or.inl hx
  | inr hx =>
    obtain ⟨q, ⟨evs, he, hdest⟩, hne, h0, hal, hgo⟩ := hx
    refine Or.inr ⟨q, ⟨_, (World.extends_log w _).trans he, ?_⟩, hne, h0, hal, fun hfm => ?_⟩
    · rw [hostEvents_append, hostEvents_readEvents]
      exact hdest
    · obtain ⟨hp, hh, hmem⟩ := hgo hfm
      exact ⟨hp, hh, hmem⟩

theorem Placed.relocateMainBlock_ok {newSize : UInt32} (h : u.Placed secs p w.handle w.mem)
    (hf : u.Fits) (hc : u.Contained) (hm : u.MovesOk moves)
    (hr : (relocateMainBlock host newRam newSize moves).run w = (.ok (), w')) :
    u.StepDone secs p newRam moves w w' := by
  have hsec := hf.table.sectioned
  rw [relocateMainBlock, Prog.run_getHandle_bind, Prog.run_lift_bind, h.ramSize_run hf,
    Prog.run_lift_bind, readHeader_run, World.log_mem, h.header hf, hsec, World.log_log,
    ← readEvents_append] at hr
  exact StepDone.of_log (Placed.relocateSectioned_ok (w := w.log _) h hf hc hm
    (toNat_ofNat_of_lt hf.ram) hr)

theorem Placed.exec_ok {call : RelocateCall} (h : u.Placed secs p w.handle w.mem) (hf : u.Fits)
    (hc : u.Contained) (hr : (call.exec host).run w = (.ok (), w')) :
    ∃ moves, call.moves = some moves ∧ u.MovesOk moves ∧ u.BasesOk moves ∧
      u.StepDone secs p call.newRam moves w w' := by
  have hnone : u.MovesOk [] := ⟨by simp, List.nodup_nil⟩
  have hsec := hf.table.sectioned
  cases call with
  | module newRam newSize =>
    refine ⟨[], rfl, hnone, by simp [BasesOk], ?_⟩
    rw [RelocateCall.exec, udynlinkRelocateModule, Prog.run_getHandle_bind] at hr
    split at hr
    next => simp at hr
    next => exact h.relocateMainBlock_ok hf hc hnone hr
  | sections newRam newSize moves? =>
    rw [RelocateCall.exec, udynlinkRelocateModuleSections, Prog.run_getHandle_bind] at hr
    split at hr
    next => simp at hr
    next =>
      cases moves? with
      | none => simp at hr
      | some moves =>
        cases moves with
        | nil =>
          exact ⟨[], rfl, hnone, by simp [BasesOk], h.relocateMainBlock_ok hf hc hnone hr⟩
        | cons mv moves =>
          dsimp only at hr
          rw [Prog.run_lift_bind, readHeader_run, h.header hf, hsec, Bool.not_true,
            if_neg Bool.false_ne_true, Prog.run_lift_bind, World.log_mem, h.getSectab_run hf,
            World.log_log, ← readEvents_append] at hr
          dsimp only at hr
          split at hr
          next => simp at hr
          next =>
            rw [Prog.run_bind_ok] at hr
            obtain ⟨⟨⟩, w1, hcheck, hr⟩ := hr
            obtain ⟨⟨as, hw1⟩, hall, hnd, -⟩ := checkMoves_accepted hcheck
            rw [World.log_mem] at hall
            have hm : u.MovesOk (mv :: moves) :=
              ⟨fun x hx => ⟨(hall x hx).1, (hall x hx).2.1⟩, hnd⟩
            refine ⟨mv :: moves, rfl, hm, fun x hx => ?_, ?_⟩
            · obtain ⟨-, hn, h0, hal⟩ := hall x hx
              rw [h.entries hf hn] at hal
              exact ⟨h0, hal⟩
            · rw [hw1, World.log_log, ← readEvents_append] at hr
              exact StepDone.of_log (Placed.relocateMainBlock_ok (w := w.log _) h hf hc hm hr)

/-! ## The recorded bases -/

/-- The bases the block of the module has recorded. -/
def recorded (u : SectionedImage) (w : State) (j : Nat) : Addr :=
  w.mem.u32 (baseWord u.header w.handle.pRam j)

/-- A module in place, at the block its handle names. -/
def InPlace (u : SectionedImage) (w : State) : Prop :=
  u.Placed (u.recorded w) w.handle.pRam w.handle w.mem

theorem Placed.inPlace (h : u.Placed secs p w.handle w.mem) : u.InPlace w :=
  ⟨rfl, h.mode, by rw [h.pHeader, h.pRam], h.metadata, fun _ _ _ _ => rfl⟩

theorem Placed.recorded_eq (h : u.Placed secs p w.handle w.mem) {j : Nat} (hj : 3 ≤ j)
    (hj' : j < u.num) (hne : (u.es j).size ≠ 0) : u.recorded w j = secs j := by
  rw [recorded, h.pRam]
  exact h.bases j hj hj' hne

end SectionedImage

end Udynlink
