import Udynlink.BlockDeeds

/-!
# A load that fails gives everything back

Whatever stage a load fails at, the handle and the base array say at that moment
what it has been handed out and not given back, and the error path releases that:
the block of every section up to the one that failed, then the main block.
-/

namespace Udynlink

open Machine

/-- A query for a symbol. -/
def IsResolve (e : HostEvent) : Prop := ∃ name ans, e = .resolve name ans

/-- The block of a module and who owns it. -/
def blockOf (mod : Module) : Addr × Bool := (mod.pRam, mod.isForeignRam)

theorem mainKeys_congr {mod mod' : Module} (h : blockOf mod' = blockOf mod) (mainAlign : UInt32) :
    mainKeys mod' mainAlign = mainKeys mod mainAlign := by
  obtain ⟨hp, hf⟩ := Prod.mk.inj h
  rw [mainKeys, mainKeys, hp, hf]

/-! ## Stages that ask for nothing -/

section

variable {τ : Type} {f : Module → τ} {A : HostEvent → Prop} {host : Host} {image : Image}
  {tab : SectView} {mode : LoadMode}

theorem resolveSymbol_calm (host : Host) (name : SymName) :
    (resolveSymbol host name).Calm f IsResolve :=
  Prog.calm_bind (Prog.calm_lift _) fun _ => Prog.calm_host fun _ => ⟨_, _, rfl⟩

theorem applyBaseRelocation_calm (pHeader : Addr) (tab : SectView) (sectioned : Bool)
    (lotOffset symtOffset : UInt32) :
    (applyBaseRelocation pHeader tab sectioned lotOffset symtOffset).Calm f A := by
  refine Prog.calm_bind Prog.calm_getHandle fun mod => ?_
  refine Prog.calm_bind (Prog.calm_lift _) fun h => Prog.calm_ite (Prog.calm_fail _) ?_
  refine Prog.calm_bind (Prog.calm_lift _) fun p => Prog.calm_ite (Prog.calm_fail _) ?_
  refine Prog.calm_bind (Prog.calm_lift _) fun word => Prog.calm_ite ?_ (Prog.calm_ite ?_ ?_)
  · refine Prog.calm_bind (Prog.calm_lift _) fun target => ?_
    cases target with
    | none => exact Prog.calm_fail _
    | some target => exact Prog.calm_set32 _ _
  · exact Prog.calm_bind (Prog.calm_lift _) fun data => Prog.calm_set32 _ _
  · exact Prog.calm_bind (Prog.calm_lift _) fun code => Prog.calm_set32 _ _

theorem applySymRelocation_calm (host : Host) (pHeader pSymtab : Addr) (tab : SectView)
    (sectioned : Bool) (lotOffset symtOffset : UInt32) :
    (applySymRelocation host pHeader pSymtab tab sectioned lotOffset symtOffset).Calm f
      IsResolve := by
  refine Prog.calm_bind Prog.calm_getHandle fun mod => ?_
  refine Prog.calm_bind (Prog.calm_lift _) fun h => ?_
  refine Prog.calm_bind (Prog.calm_lift _) fun sym? => ?_
  cases sym? with
  | none => exact Prog.calm_fail _
  | some sym =>
    refine Prog.calm_bind (Prog.calm_lift _) fun p => Prog.calm_ite (Prog.calm_fail _) ?_
    refine Prog.calm_ite ?_ (Prog.calm_ite ?_ (Prog.calm_ite ?_ ?_))
    · refine Prog.calm_bind (Prog.calm_lift _) fun target => ?_
      cases target with
      | none => exact Prog.calm_fail _
      | some target => exact Prog.calm_set32 _ _
    · refine Prog.calm_bind (Prog.calm_lift _) fun target => ?_
      cases target with
      | none => exact Prog.calm_fail _
      | some target =>
        refine Prog.calm_bind (Prog.calm_set32 _ _) fun _ => ?_
        refine Prog.calm_bind (resolveSymbol_calm host _) fun ans => ?_
        exact Prog.calm_ite (Prog.calm_pure _) (Prog.calm_ite (Prog.calm_set32 _ _) (Prog.calm_pure _))
    · refine Prog.calm_bind (resolveSymbol_calm host _) fun ans => ?_
      exact Prog.calm_ite (Prog.calm_set32 _ _)
        (Prog.calm_ite (Prog.calm_set32 _ _) (Prog.calm_fail _))
    · exact Prog.calm_ite (Prog.calm_fail _) (Prog.calm_pure _)

theorem applyRelocation_calm (host : Host) (pHeader pRelocations pSymtab : Addr) (tab : SectView)
    (sectioned : Bool) (i : Nat) :
    (applyRelocation host pHeader pRelocations pSymtab tab sectioned i).Calm f IsResolve :=
  Prog.calm_bind (Prog.calm_lift _) fun _ =>
    Prog.calm_ite (applyBaseRelocation_calm _ _ _ _ _) (applySymRelocation_calm _ _ _ _ _ _ _)

theorem applyRelocationsLoop_calm (host : Host) (pHeader pRelocations pSymtab : Addr)
    (tab : SectView) (sectioned : Bool) (n i : Nat) :
    (applyRelocationsLoop host pHeader pRelocations pSymtab tab sectioned n i).Calm f
      IsResolve := by
  induction n generalizing i with
  | zero => exact Prog.calm_pure ()
  | succ n ih => exact Prog.calm_bind (applyRelocation_calm _ _ _ _ _ _ _) fun _ => ih (i + 1)

theorem loadApplyRelocations_calm (host : Host) (pHeader pRelocations pSymtab : Addr) :
    (udynlinkLoadApplyRelocations host pHeader pRelocations pSymtab).Calm f IsResolve := by
  refine Prog.calm_bind (Prog.calm_lift _) fun h => Prog.calm_bind (Prog.calm_lift _) fun r => ?_
  exact Prog.calm_ite (Prog.calm_fail _) (applyRelocationsLoop_calm _ _ _ _ _ _ _ _)

theorem mainSectionDest_calm (image : Image) (tab : SectView) (mode : LoadMode) (idx : Nat) :
    (mainSectionDest image tab mode idx).Calm f A := by
  refine Prog.calm_bind Prog.calm_getHandle fun mod => Prog.calm_bind (Prog.calm_lift _) fun h => ?_
  exact Prog.calm_bind (Prog.calm_lift _) fun off => Prog.calm_pure _

theorem copyMainData_calm (image : Image) (tab : SectView) (mode : LoadMode) :
    (copyMainData image tab mode).Calm f A := by
  refine Prog.calm_bind (Prog.calm_lift _) fun me => Prog.calm_ite ?_ (Prog.calm_pure _)
  exact Prog.calm_bind (mainSectionDest_calm _ _ _ _) fun dst => Prog.calm_copy _ _ _

theorem copyMainText_calm (image : Image) (tab : SectView) (mode : LoadMode) :
    (copyMainText image tab mode).Calm f A := by
  refine Prog.calm_bind (Prog.calm_lift _) fun h => Prog.calm_bind (Prog.calm_lift _) fun size => ?_
  refine Prog.calm_ite ?_ (Prog.calm_pure _)
  exact Prog.calm_bind (mainSectionDest_calm _ _ _ _) fun dst => Prog.calm_copy _ _ _

theorem copyMainSections_calm (image : Image) (tab : SectView) (mode : LoadMode) (pTemp8 : Addr) :
    (copyMainSections image tab mode pTemp8).Calm blockOf A := by
  refine Prog.calm_bind (Prog.calm_lift _) fun h => ?_
  cases mode with
  | xip => exact copyMainData_calm _ _ _
  | copyTextData =>
    exact Prog.calm_bind (copyMainText_calm _ _ _) fun _ => copyMainData_calm _ _ _
  | copyAll =>
    refine Prog.calm_bind (Prog.calm_copy _ _ _) fun _ => ?_
    refine Prog.calm_bind (Prog.calm_modifyHandle fun _ => rfl) fun _ => ?_
    refine Prog.calm_bind (mainSectionDest_calm _ _ _ _) fun dst => ?_
    refine Prog.calm_bind (Prog.calm_lift _) fun size => ?_
    exact Prog.calm_bind (Prog.calm_copy _ _ _) fun _ => copyMainData_calm _ _ _

theorem zeroMainBss_calm (image : Image) (tab : SectView) (mode : LoadMode) :
    (zeroMainBss image tab mode).Calm f A := by
  refine Prog.calm_bind (Prog.calm_lift _) fun me => Prog.calm_ite ?_ (Prog.calm_pure _)
  exact Prog.calm_bind (mainSectionDest_calm _ _ _ _) fun dst => Prog.calm_zero _ _

theorem copyWholeImage_calm (image : Image) (h : Header) (pTemp8 : Addr) :
    (copyWholeImage image h pTemp8).Calm blockOf A := by
  refine Prog.calm_bind (Prog.calm_copy _ _ _) fun _ => ?_
  refine Prog.calm_bind (Prog.calm_copy _ _ _) fun _ => ?_
  refine Prog.calm_bind (Prog.calm_copy _ _ _) fun _ => ?_
  refine Prog.calm_bind (Prog.calm_ite (Prog.calm_zero _ _) (Prog.calm_pure _)) fun _ => ?_
  refine Prog.calm_bind (Prog.calm_copy _ _ _) fun _ => ?_
  refine Prog.calm_bind (Prog.calm_copy _ _ _) fun _ => ?_
  exact Prog.calm_modifyHandle fun _ => rfl

theorem placeUntagged_calm (image : Image) (mode : LoadMode) (pTemp8 : Addr) :
    (placeUntagged image mode pTemp8).Calm blockOf A := by
  refine Prog.calm_bind (Prog.calm_bind (Prog.calm_lift _) fun h => ?_) fun _ => ?_
  · cases mode with
    | copyAll => exact copyWholeImage_calm _ _ _
    | copyTextData => exact Prog.calm_ite (Prog.calm_copy _ _ _) (Prog.calm_pure _)
    | xip => exact Prog.calm_ite (Prog.calm_copy _ _ _) (Prog.calm_pure _)
  · refine Prog.calm_bind (Prog.calm_lift _) fun h => Prog.calm_ite ?_ (Prog.calm_pure _)
    refine Prog.calm_bind Prog.calm_getHandle fun mod => ?_
    refine Prog.calm_bind (Prog.calm_lift _) fun data => ?_
    exact Prog.calm_zero _ _

/-- Without tagged sections the payloads ask for nothing. -/
theorem placeImage_calm (host : Host) (image : Image) (mode : LoadMode) (ramAddr : Addr)
    (hnum : tab.num ≤ 3) : (placeImage host image tab mode ramAddr).Calm blockOf A := by
  refine Prog.calm_bind (Prog.calm_lift _) fun h => Prog.calm_ite ?_ (placeUntagged_calm _ _ _)
  refine Prog.calm_bind (copyMainSections_calm _ _ _ _) fun _ => ?_
  refine Prog.calm_bind (Prog.calm_lift _) fun h => Prog.calm_bind (Prog.calm_lift _) fun size => ?_
  refine Prog.calm_bind ?_ fun _ => zeroMainBss_calm _ _ _
  rw [show tab.num - 3 = 0 by omega]
  exact Prog.calm_pure _

end

/-! ## The main block -/

section

variable {host : Host} {image : Image} {tab : SectView} {mainAlign ramSize : UInt32}
  {loadAddr : Addr} {loadSize : UInt32} {w w' : State} {e : Error} {evs : List (Event HostEvent)}

theorem provisionAddr_error
    (h : (provisionAddr host mainAlign ramSize loadAddr loadSize).run w = (.error e, w'))
    (he : w.Extends w' evs) : w'.handle.pRam = w.handle.pRam ∧ deeds (hostEvents evs) = [] := by
  rw [provisionAddr] at h
  split at h
  next =>
    rw [Prog.run_modifyHandle_bind, Prog.run_bind_error] at h
    rcases h with h | ⟨p, w1, hm, h⟩
    · exact absurd h (externalMalloc_total _ _ _ _ _).not_error
    · have hw1 := externalMalloc_run hm
      split at h
      next hz =>
        rw [Prog.run_fail, Prod.mk.injEq] at h
        rw [← h.2, hw1, hz] at he
        rw [← h.2, hw1]
        refine ⟨rfl, ?_⟩
        rw [List.append_cancel_left he.1.symm, hostEvents_append, hostEvents_readEvents]
        rfl
      next => simp at h
  next =>
    rw [Prog.run_modifyHandle_bind] at h
    split at h
    next =>
      rw [Prog.run_fail, Prod.mk.injEq] at h
      rw [← h.2] at he ⊢
      refine ⟨rfl, ?_⟩
      have hevs : evs = [] := List.append_cancel_left (he.1.symm.trans (List.append_nil _).symm)
      rw [hevs]
      rfl
    next => simp at h

theorem zeroBaseArray_total (image : Image) (tab : SectView) (ramAddr : Addr) :
    (zeroBaseArray image tab ramAddr).Total :=
  Prog.total_ite (Prog.total_bind (Prog.total_lift _) fun _ => fun _ => ⟨_, _, rfl⟩)
    (Prog.total_pure ())

theorem setSectionBaseIdx_total (ordinal : Nat) (base : Addr) :
    (setSectionBaseIdx ordinal base).Total :=
  Prog.total_bind Prog.total_getHandle fun _ =>
    Prog.total_bind (Prog.total_lift _) fun _ => Prog.total_set32 _ _

/-- A block that is refused, too small or unaligned leaves nothing behind. -/
theorem provisionRam_error
    (h : (provisionRam host image tab mainAlign ramSize loadAddr loadSize).run w = (.error e, w'))
    (he : w.Extends w' evs) :
    w'.handle.pRam = w.handle.pRam ∧ settle 0 (deeds (hostEvents evs)) = some 0 := by
  rw [provisionRam] at h
  split at h
  next =>
    rcases Prog.run_bind_error.mp h with h | ⟨p, w1, haddr, h⟩
    · obtain ⟨hp, hd⟩ := provisionAddr_error h he
      rw [hd]
      exact ⟨hp, rfl⟩
    · obtain ⟨hp, -, hown⟩ := provisionAddr_ok haddr
      split at h
      next =>
        rw [rejectUnaligned] at h
        rcases hown with ⟨hz, hh, htr⟩ | ⟨hnz, -, -, hh, htr⟩
        · rw [if_pos hz, Prog.run_bind_error] at h
          rcases h with h | ⟨⟨⟩, w2, hfree, h⟩
          · exact absurd h (externalFree_total _ _ _ _).not_error
          · rw [Prog.run_fail, Prod.mk.injEq] at h
            rw [← h.2] at he ⊢
            have hf := externalFree_filled hfree
            obtain ⟨e2, he2, hev2, -⟩ := hf.did.events
            refine ⟨by rw [hf.handle, hh]; rfl, ?_⟩
            have hevs : evs = [mainRequest ramSize mainAlign p] ++ e2 := by
              refine List.append_cancel_left (he.1.symm.trans ?_)
              rw [he2.1, htr, List.append_assoc]
            rw [hevs, hostEvents_append, hev2]
            simp [deeds, HostEvent.deed, hostEvents, mainRequest, hp, settle, readSectName]
        · rw [if_neg hnz, Prog.run_fail, Prod.mk.injEq] at h
          rw [← h.2] at he ⊢
          refine ⟨by rw [hh]; rfl, ?_⟩
          have hevs : evs = [] :=
            List.append_cancel_left (he.1.symm.trans (htr.trans (List.append_nil _).symm))
          rw [hevs]
          rfl
      next =>
        rw [Prog.run_modifyHandle_bind, Prog.run_bind_error] at h
        rcases h with h | ⟨⟨⟩, w2, -, h⟩
        · exact absurd h (zeroBaseArray_total _ _ _).not_error
        · simp at h
  next => simp at h

end

/-! ## Tagged sections -/

section

variable {host : Host} {image : Image} {tab : SectView} {P : Addr → Prop} {m0 : Mem} {h0 : Header}
  {es : Nat → SectEntry} {secs : Nat → Addr} {names : Nat → Option (List UInt8)} {mod : Module}
  {w w' : State} {n k c : Nat}

/-- What the loop has done to sections `k` up to `k + c` when it returns or fails. -/
structure TaggedRun (tab : SectView) (P : Addr → Prop) (m0 : Mem) (h0 : Header)
    (es : Nat → SectEntry) (secs : Nat → Addr) (names : Nat → Option (List UInt8)) (k c : Nat)
    (w w' : State) : Prop where
  granted : ∀ j, k ≤ j → j < k + c → (es j).size ≠ 0 → secs j ≠ 0
  handle : w'.handle = w.handle
  kept : ∀ a, P a → m0 a = w'.mem a
  bases : ∀ j, k ≤ j → j < k + c → (es j).size ≠ 0 →
    w'.mem.u32 (baseWord h0 w.handle.pRam j) = secs j
  rest : ∀ j, 3 ≤ j → j < tab.num → j < k ∨ k + c ≤ j →
    AgreeOn ⟨baseWord h0 w.handle.pRam j, 4⟩ w.mem w'.mem
  calls : ∃ evs, w.Extends w' evs ∧
    deeds (hostEvents evs) = (taggedKeys es secs names c k).map .grant

theorem taggedKeys_append (n k c : Nat) : taggedKeys es secs names (n + c) k =
    taggedKeys es secs names n k ++ taggedKeys es secs names c (k + n) := by
  rw [taggedKeys, taggedKeys, taggedKeys, taggedIdx, taggedIdx, taggedIdx, ← List.map_append,
    ← List.filter_append, List.range'_append_1]

namespace TaggedRun

/-- Nothing but a refused request. -/
theorem none (hag : ∀ a, P a → m0 a = w.mem a) {hs : List HostEvent}
    (hf : Filled w w' [] hs) (hempty : deeds hs = []) :
    TaggedRun tab P m0 h0 es secs names k 0 w w' := by
  have hmem : w'.mem = w.mem := hf.did.mem
  obtain ⟨evs, he, hev, -⟩ := hf.did.events
  refine ⟨fun j hj hj' => absurd hj' (by omega), hf.handle, ?_,
    fun j hj hj' => absurd hj' (by omega), fun j _ _ _ a _ => by rw [hmem], evs, he, ?_⟩
  · rw [hmem]
    exact hag
  · rw [hev, hempty]
    rfl

/-- A section without a block. -/
theorem skip {as : List Addr} (hsz : (es k).size = 0)
    (h : TaggedRun tab P m0 h0 es secs names (k + 1) c (w.log (readEvents as)) w') :
    TaggedRun tab P m0 h0 es secs names k (c + 1) w w' := by
  obtain ⟨evs, he, hev⟩ := h.calls
  have hlt : ∀ {j}, k ≤ j → (es j).size ≠ 0 → k + 1 ≤ j := fun {j} hj hne => by
    cases Nat.eq_or_lt_of_le hj with
    | inl heq => exact absurd (heq ▸ hsz) hne
    | inr hlt => exact hlt
  refine ⟨fun j hj hj' hne => h.granted j (hlt hj hne) (by omega) hne, h.handle, h.kept,
    fun j hj hj' hne => h.bases j (hlt hj hne) (by omega) hne,
    fun j hj hj' hx => h.rest j hj hj' (by omega), _, (World.extends_log _ _).trans he, ?_⟩
  rw [hostEvents_append, hostEvents_readEvents, List.nil_append, hev, taggedKeys, taggedKeys,
    taggedIdx_succ, if_pos hsz]

theorem congr {secs' : Nat → Addr} (h : TaggedRun tab P m0 h0 es secs names k c w w')
    (hs : ∀ j, k ≤ j → j < k + c → secs j = secs' j) :
    TaggedRun tab P m0 h0 es secs' names k c w w' := by
  obtain ⟨evs, he, hev⟩ := h.calls
  refine ⟨fun j hj hj' hne => hs j hj hj' ▸ h.granted j hj hj' hne, h.handle, h.kept,
    fun j hj hj' hne => (h.bases j hj hj' hne).trans (hs j hj hj'), h.rest, evs, he, ?_⟩
  rw [hev, taggedKeys_congr (fun j hj hj' _ => hs j hj hj') fun _ _ _ _ => rfl]

/-- Further sections behind the first ones. -/
theorem append {w1 : State} {c' : Nat} (h : TaggedRun tab P m0 h0 es secs names k c w w1)
    (h' : TaggedRun tab P m0 h0 es secs names (k + c) c' w1 w') (hk : 3 ≤ k)
    (hc : k + c ≤ tab.num) : TaggedRun tab P m0 h0 es secs names k (c + c') w w' := by
  obtain ⟨evs, he, hev⟩ := h.calls
  obtain ⟨evs', he', hev'⟩ := h'.calls
  have hh := h.handle
  refine ⟨fun j hj hj' hne => ?_, h'.handle.trans hh, h'.kept, fun j hj hj' hne => ?_,
    fun j hj hj' hx => ?_, _, he.trans he', ?_⟩
  · by_cases hlt : j < k + c
    · exact h.granted j hj hlt hne
    · exact h'.granted j (by omega) (by omega) hne
  · by_cases hlt : j < k + c
    · have hag := h'.rest j (by omega) (by omega) (Or.inl hlt)
      rw [hh] at hag
      exact hag.u32.symm.trans (h.bases j hj hlt hne)
    · rw [← hh]
      exact h'.bases j (by omega) (by omega) hne
  · have hag := h'.rest j hj hj' (by omega)
    rw [hh] at hag
    intro a ha
    exact (h.rest j hj hj' (by omega) a ha).trans (hag a ha)
  · rw [hostEvents_append, deeds_append, hev, hev', taggedKeys_append, List.map_append]

end TaggedRun

/-- What the loop looks at, and that what it records is apart from it. -/
structure TaggedStage (P : Addr → Prop) (image : Image) (tab : SectView) (m0 : Mem) (mod : Module)
    (h0 : Header) (es : Nat → SectEntry) : Prop where
  place : PlaceIn P image tab
  own : Covers P ⟨mod.pHeader, 32⟩
  header : decodeHeader m0 mod.pHeader = h0
  entries : ∀ i, i < tab.num → entriesAt m0 tab.pEntries i = es i
  names : ∀ j, j < tab.num → (es j).size ≠ 0 →
    (readSectName (sectName tab (es j))).Within P m0
  slots : ∀ j, 3 ≤ j → j < tab.num → ∀ a, P a → a ∉ (⟨baseWord h0 mod.pRam j, 4⟩ : Span)
  words : ∀ i j, 3 ≤ i → i < tab.num → 3 ≤ j → j < tab.num → i ≠ j →
    Span.Disjoint ⟨baseWord h0 mod.pRam i, 4⟩ ⟨baseWord h0 mod.pRam j, 4⟩

/-- A granted block is apart from what the loop looks at and from the base array. -/
def ClearGrants (P : Addr → Prop) (tab : SectView) (h0 : Header) (p : Addr) (w w' : State) : Prop :=
  ∀ evs, w.Extends w' evs → ∀ s ∈ (hostEvents evs).filterMap grantedSpan,
    (∀ a, P a → a ∉ s) ∧ ∀ j, 3 ≤ j → j < tab.num → Span.Disjoint ⟨baseWord h0 p j, 4⟩ s

/-- The events in front are those of the whole run. -/
theorem ClearGrants.behind {p : Addr} {w1 : State} (h : ClearGrants P tab h0 p w w')
    {e1 : List (Event HostEvent)} (he1 : w.Extends w1 e1) : ClearGrants P tab h0 p w1 w' := by
  intro evs he s hs
  refine h _ (he1.trans he) s ?_
  rw [hostEvents_append, List.filterMap_append]
  exact List.mem_append_right _ hs

/-- The contents of one section, and the loop goes on. -/
theorem fillTagged_run {off : UInt32} {e : SectEntry} {sec : Addr} {r : Except Error Unit}
    (h : (if e.cls = secClassBss then do
        Prog.zero sec e.size.toNat
        loadTaggedLoop host image tab n (k + 1) off
      else do
        Prog.copy sec (image.pCode + off) e.size.toNat
        loadTaggedLoop host image tab n (k + 1) (off + e.size) : Loader Unit).run w = (r, w')) :
    ∃ w1, Filled w w1 [taggedBlit e sec (image.pCode + off)] [] ∧
      (loadTaggedLoop host image tab n (k + 1) (nextPayload e off)).run w1 = (r, w') := by
  rw [taggedBlit, nextPayload]
  split at h
  next hb =>
    obtain ⟨w1, hz⟩ : ∃ w1, (Prog.zero sec e.size.toNat : Loader Unit).run w = (.ok (), w1) :=
      ⟨_, rfl⟩
    rw [Prog.run_bind_of_ok hz] at h
    rw [if_pos hb, if_pos hb]
    exact ⟨w1, Filled.of_zero hz, h⟩
  next hb =>
    obtain ⟨w1, hc⟩ : ∃ w1, (Prog.copy sec (image.pCode + off) e.size.toNat : Loader Unit).run w =
        (.ok (), w1) := ⟨_, rfl⟩
    rw [Prog.run_bind_of_ok hc] at h
    rw [if_neg hb, if_neg hb]
    exact ⟨w1, Filled.of_copy hc, h⟩

/-- One section: its base recorded behind the request. -/
theorem TaggedRun.record {sec : Addr} (hs : TaggedStage P image tab m0 mod h0 es)
    (hmod : w.handle = mod) (hag : ∀ a, P a → m0 a = w.mem a) (hk : 3 ≤ k) (hk' : k < tab.num)
    (hsz : (es k).size ≠ 0) (hne : sec ≠ 0)
    (hf : Filled w w' [.word (baseWord h0 mod.pRam k) sec]
      [.malloc (es k).size ⟨names k, (es k).align, sectHostFlags (es k)⟩ sec]) :
    TaggedRun tab P m0 h0 es (fun _ => sec) names k 1 w w' := by
  obtain ⟨evs, he, hev, -⟩ := hf.did.events
  have hmem : w'.mem = w.mem.set32 (baseWord h0 mod.pRam k) sec := hf.did.mem
  have hkeep : ∀ a, a ∉ (⟨baseWord h0 mod.pRam k, 4⟩ : Span) → w.mem a = w'.mem a := fun a ha =>
    (hf.did.notMem fun s hs => by rw [List.mem_singleton.mp hs]; exact ha).symm
  refine ⟨fun _ _ _ _ => hne, hf.handle, fun a ha => ?_, fun j hj hj' _ => ?_,
    fun j hj hj' hx a ha => ?_, evs, he, ?_⟩
  · exact (hag a ha).trans (hkeep a (hs.slots k hk hk' a ha))
  · obtain rfl : j = k := by omega
    rw [hmem, hmod]
    exact u32_set32_same _ _ _
  · rw [hmod] at ha
    exact hkeep a (hs.words j k hj hj' hk hk' (by omega) a ha)
  · rw [hev, taggedKeys, taggedIdx_succ, if_neg hsz]
    simp [deeds, HostEvent.deed, taggedIdx, taggedKey, hne]

/-- Contents put into a block of its own touch nothing of it. -/
theorem TaggedRun.filled {w1 : State} {bs : List Blit}
    (h : TaggedRun tab P m0 h0 es secs names k c w w1) (hf : Filled w1 w' bs [])
    (hk : 3 ≤ k) (hc : k + c ≤ tab.num)
    (hclear : ∀ b ∈ bs, (∀ a, P a → a ∉ b.span) ∧
      ∀ j, 3 ≤ j → j < tab.num → Span.Disjoint ⟨baseWord h0 w.handle.pRam j, 4⟩ b.span) :
    TaggedRun tab P m0 h0 es secs names k c w w' := by
  obtain ⟨evs, he, hev⟩ := h.calls
  obtain ⟨evs', he', hev', -⟩ := hf.did.events
  have hword : ∀ j, 3 ≤ j → j < tab.num →
      AgreeOn ⟨baseWord h0 w.handle.pRam j, 4⟩ w1.mem w'.mem := fun j hj hj' a ha =>
    (hf.did.notMem fun s hs => by
      obtain ⟨b, hb, rfl⟩ := List.mem_map.mp hs
      exact (hclear b hb).2 j hj hj' a ha).symm
  refine ⟨h.granted, hf.handle.trans h.handle,
    did_agree hf.did (fun b hb => (hclear b hb).1) h.kept, fun j hj hj' hne => ?_,
    fun j hj hj' hx => (h.rest j hj hj' hx).trans (hword j hj hj'), _, he.trans he', ?_⟩
  · exact (hword j (by omega) (by omega)).u32.symm.trans (h.bases j hj hj' hne)
  · rw [hostEvents_append, hev', List.append_nil, hev]

/-- However the loop ends, what it was granted is recorded, section by section. -/
theorem loadTaggedLoop_run {off : UInt32} {r : Except Error Unit}
    (h : (loadTaggedLoop host image tab n k off).run w = (r, w'))
    (hs : TaggedStage P image tab m0 mod h0 es) (hmod : w.handle = mod)
    (hag : ∀ a, P a → m0 a = w.mem a) (hk : 3 ≤ k) (hn : k + n ≤ tab.num)
    (hclear : ClearGrants P tab h0 mod.pRam w w') :
    ∃ secs c, c ≤ n ∧ (r = .ok () → c = n) ∧
      TaggedRun tab P m0 h0 es secs (fun j => (readSectName (sectName tab (es j))).run m0) k c
        w w' := by
  induction n generalizing k off w with
  | zero =>
    rw [loadTaggedLoop, Prog.run_pure, Prod.mk.injEq] at h
    rw [← h.2]
    exact ⟨fun _ => 0, 0, Nat.le_refl 0, fun _ => rfl, .none hag (Filled.refl w) rfl⟩
  | succ n ih =>
    rw [loadTaggedLoop, Prog.run_lift_bind, sectEntryAt_run, hs.place.entry_run hag (by omega),
      hs.entries k (by omega)] at h
    split at h
    next hsz =>
      obtain ⟨secs, c, hc, hok, hrun⟩ := ih h hmod hag (by omega) (by omega)
        (hclear.behind (World.extends_log _ _))
      exact ⟨secs, c + 1, by omega, fun hr => by rw [hok hr], hrun.skip hsz⟩
    next hsz =>
      generalize hw0 : w.log _ = w0 at h
      have hmem0 : w0.mem = w.mem := hw0 ▸ rfl
      have hlog : Filled w w0 [] [] := hw0 ▸ Filled.log w _
      obtain ⟨sec, w1, hm⟩ := externalMalloc_total host (es k).size (sectName tab (es k))
        (es k).align (sectHostFlags (es k)) w0
      rw [Prog.run_bind_of_ok hm] at h
      have hf1 := hlog.trans (externalMalloc_filled hm)
      rw [hmem0, (hs.names k (by omega) hsz).congr hag, List.nil_append, List.nil_append] at hf1
      split at h
      next hz =>
        rw [Prog.run_fail, Prod.mk.injEq] at h
        rw [← h.2, ← h.1]
        refine ⟨fun _ => 0, 0, Nat.zero_le _, fun hr => absurd hr (by simp), .none hag hf1 ?_⟩
        simp [deeds, HostEvent.deed, hz]
      next hne =>
        obtain ⟨⟨⟩, w2, hset⟩ := setSectionBaseIdx_total (k - 3) sec w1
        rw [Prog.run_bind_of_ok hset] at h
        have hag1 := did_agree hf1.did (fun b hb => absurd hb List.not_mem_nil) hag
        have hh1 : w1.handle = mod := hf1.handle.trans hmod
        have hf2 := setSectionBaseIdx_ok (h := h0)
          ((congrArg (decodeHeader w1.mem) (congrArg Module.pHeader hh1)).trans
            (((within_readHeader hs.own m0).congr hag1).trans hs.header)) hset
        rw [hh1, Nat.sub_add_cancel hk] at hf2
        have hone : TaggedRun tab P m0 h0 es (fun _ => sec)
            (fun j => (readSectName (sectName tab (es j))).run m0) k 1 w w2 :=
          .record hs hmod hag hk (by omega) hsz hne (hf1.trans hf2)
        split at h
        next =>
          rw [Prog.run_fail, Prod.mk.injEq] at h
          rw [← h.2, ← h.1]
          exact ⟨_, 1, by omega, fun hr => absurd hr (by simp), hone⟩
        next =>
          obtain ⟨w3, hf3, hrest⟩ := fillTagged_run h
          obtain ⟨e1, he1, hev1, -⟩ := (hf1.trans (hf2.trans hf3)).did.events
          obtain ⟨e2, he2⟩ := Prog.extends_of_run hrest
          have hapart := hclear _ (he1.trans he2) ⟨sec, (es k).size.toNat⟩ (by
            rw [hostEvents_append, hev1, List.append_nil, List.append_nil, List.singleton_append,
              List.filterMap_cons_some (b := ⟨sec, (es k).size.toNat⟩)
                (by rw [grantedSpan, if_neg hne])]
            exact List.mem_cons_self)
          have hfull := hone.filled hf3 hk (by omega) fun b hb => by
            rw [List.mem_singleton.mp hb, taggedBlit_span, hmod]
            exact hapart
          obtain ⟨secs, c, hc, hok, hrun⟩ := ih hrest (hfull.handle.trans hmod) hfull.kept
            (by omega) (by omega) (hclear.behind he1)
          refine ⟨Function.update secs k sec, 1 + c, by omega, fun hr => by rw [hok hr, Nat.add_comm],
            (hfull.congr fun j hj hj' => ?_).append (hrun.congr fun j hj _ => ?_) hk (by omega)⟩
          · obtain rfl : j = k := by omega
            rw [Function.update_self]
          · rw [Function.update_of_ne (by omega)]

end

end Udynlink
