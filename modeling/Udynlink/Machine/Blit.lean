import Udynlink.Machine.Prog

/-!
# Block transfers

A transfer fills a span with bytes computed from memory. When the spans are
disjoint and the bytes come from outside all of them, each span ends up with
what its own transfer computes at the start.

`Did` sums up a run for such a description: the memory it leaves, the spans it
may have written, and the host callbacks it made.
-/

namespace Udynlink.Machine

structure Blit where
  dst : Addr
  len : Nat
  bytes : Mem → Nat → UInt8

namespace Blit

def span (b : Blit) : Span := ⟨b.dst, b.len⟩

def apply (b : Blit) (m : Mem) : Mem := m.store b.dst b.len (b.bytes m)

def copy (dst src : Addr) (n : Nat) : Blit := ⟨dst, n, fun m i => m (src + UInt32.ofNat i)⟩

def zero (dst : Addr) (n : Nat) : Blit := ⟨dst, n, fun _ _ => 0⟩

def word (dst : Addr) (v : UInt32) : Blit := ⟨dst, 4, fun _ => byteOf v⟩

/-- The bytes depend on nothing but the addresses in `S`. -/
def ReadsFrom (S : Addr → Prop) (b : Blit) : Prop :=
  ∀ m m', (∀ a, S a → m a = m' a) → ∀ i, i < b.len → b.bytes m i = b.bytes m' i

theorem copy_readsFrom {S : Addr → Prop} {dst src : Addr} {n : Nat}
    (h : ∀ i, i < n → S (src + UInt32.ofNat i)) : (copy dst src n).ReadsFrom S :=
  fun _ _ hm i hi => hm _ (h i hi)

theorem zero_readsFrom (S : Addr → Prop) (dst : Addr) (n : Nat) : (zero dst n).ReadsFrom S :=
  fun _ _ _ _ _ => rfl

theorem apply_notMem {b : Blit} {a : Addr} (h : a ∉ b.span) (m : Mem) : b.apply m a = m a :=
  store_notMem h

def applyAll (bs : List Blit) (m : Mem) : Mem := bs.foldl (fun m b => b.apply m) m

theorem applyAll_append (bs cs : List Blit) (m : Mem) :
    applyAll (bs ++ cs) m = applyAll cs (applyAll bs m) := List.foldl_append

theorem applyAll_notMem {bs : List Blit} {a : Addr} (h : ∀ b ∈ bs, a ∉ b.span) (m : Mem) :
    applyAll bs m a = m a := by
  induction bs generalizing m with
  | nil => rfl
  | cons b bs ih =>
    have hrest := ih (fun c hc => h c (List.mem_cons_of_mem b hc)) (b.apply m)
    exact hrest.trans (apply_notMem (h b List.mem_cons_self) m)

/-- The first transfer finds the memory as it is. -/
theorem applyAll_head_byte {b : Blit} {bs : List Blit}
    (hd : ∀ c ∈ bs, b.span.Disjoint c.span) {i : Nat} (hi : i < b.len) (hlen : b.len ≤ 2 ^ 32)
    (m : Mem) : applyAll (b :: bs) m (b.dst + UInt32.ofNat i) = b.bytes m i := by
  have hmem : b.dst + UInt32.ofNat i ∈ b.span := off_mem hi hlen
  have hrest := applyAll_notMem (fun c hc => hd c hc _ hmem) (b.apply m)
  exact hrest.trans (store_off hi hlen)

/-- A span of a disjoint family holds the bytes its transfer finds at the start. -/
theorem applyAll_byte {S : Addr → Prop} {bs : List Blit}
    (hd : bs.Pairwise fun b c => b.span.Disjoint c.span) (hS : ∀ b ∈ bs, b.ReadsFrom S)
    (hclear : ∀ b ∈ bs, ∀ a, S a → a ∉ b.span) {b : Blit} (hb : b ∈ bs) {i : Nat}
    (hi : i < b.len) (hlen : b.len ≤ 2 ^ 32) (m : Mem) :
    applyAll bs m (b.dst + UInt32.ofNat i) = b.bytes m i := by
  induction bs generalizing m with
  | nil => exact absurd hb List.not_mem_nil
  | cons c cs ih =>
    obtain ⟨hc, hcs⟩ := List.pairwise_cons.mp hd
    rcases List.mem_cons.mp hb with rfl | hb'
    · exact applyAll_head_byte hc hi hlen m
    · have hrest := ih hcs (fun c' hc' => hS c' (List.mem_cons_of_mem c hc'))
        (fun c' hc' => hclear c' (List.mem_cons_of_mem c hc')) hb' (c.apply m)
      have hsame : ∀ a, S a → m a = c.apply m a :=
        fun a ha => (apply_notMem (hclear c List.mem_cons_self a ha) m).symm
      exact hrest.trans (hS b hb m _ hsame i hi).symm

/-- A word that nothing overlaps is there at the end. -/
theorem applyAll_word {bs : List Blit} (hd : bs.Pairwise fun b c => b.span.Disjoint c.span)
    {a : Addr} {v : UInt32} (hb : word a v ∈ bs) (m : Mem) : (applyAll bs m).u32 a = v := by
  induction bs generalizing m with
  | nil => exact absurd hb List.not_mem_nil
  | cons c cs ih =>
    obtain ⟨hc, hcs⟩ := List.pairwise_cons.mp hd
    cases List.mem_cons.mp hb with
    | inl he =>
      rw [← he] at hc ⊢
      have hbytes : ∀ i, i < 4 → applyAll (word a v :: cs) m (a + UInt32.ofNat i) =
          m.set32 a v (a + UInt32.ofNat i) := fun i hi =>
        (applyAll_head_byte hc hi (show 4 ≤ 2 ^ 32 by decide) m).trans
          (store_off hi (by decide)).symm
      exact (u32_eq_of_bytes hbytes).trans (u32_set32_same m a v)
    | inr hb => exact ih hcs hb (c.apply m)

/-! ## Transfers laid out in one block -/

/-- The transfers fill pieces of the block at `p` in ascending order, from offset
`lo` on and below `hi`. -/
def Laid (p : Addr) : Nat → Nat → List Blit → Prop
  | lo, hi, [] => lo ≤ hi
  | lo, hi, b :: bs => ∃ k, b.dst = p + UInt32.ofNat k ∧ lo ≤ k ∧ Laid p (k + b.len) hi bs

theorem Laid.le {p : Addr} {lo hi : Nat} {bs : List Blit} (h : Laid p lo hi bs) : lo ≤ hi := by
  induction bs generalizing lo with
  | nil => exact h
  | cons b bs ih =>
    obtain ⟨k, -, hk, hrest⟩ := h
    have := ih hrest
    omega

/-- Every piece is at an offset between the bounds. -/
theorem Laid.mem {p : Addr} {lo hi : Nat} {bs : List Blit} (h : Laid p lo hi bs) {b : Blit}
    (hb : b ∈ bs) : ∃ k, b.dst = p + UInt32.ofNat k ∧ lo ≤ k ∧ k + b.len ≤ hi := by
  induction bs generalizing lo with
  | nil => exact absurd hb List.not_mem_nil
  | cons c bs ih =>
    obtain ⟨k, hd, hk, hrest⟩ := h
    rcases List.mem_cons.mp hb with rfl | hb'
    · exact ⟨k, hd, hk, hrest.le⟩
    · obtain ⟨k', hd', hk', hle⟩ := ih hrest hb'
      exact ⟨k', hd', by omega, hle⟩

theorem Laid.pairwise {p : Addr} {lo hi : Nat} {bs : List Blit} (h : Laid p lo hi bs)
    (hi32 : hi ≤ 2 ^ 32) : bs.Pairwise fun b c => b.span.Disjoint c.span := by
  induction bs generalizing lo with
  | nil => exact List.Pairwise.nil
  | cons b bs ih =>
    obtain ⟨k, hd, -, hrest⟩ := h
    refine List.pairwise_cons.mpr ⟨fun c hc => ?_, ih hrest⟩
    obtain ⟨k', hd', hk', hle⟩ := hrest.mem hc
    rw [span, span, hd, hd']
    exact off_disjoint hk' (by omega)

theorem Laid.subset {p : Addr} {lo hi : Nat} {bs : List Blit} (h : Laid p lo hi bs)
    (hi32 : hi ≤ 2 ^ 32) {b : Blit} (hb : b ∈ bs) : b.span ⊆ ⟨p, hi⟩ := by
  obtain ⟨k, hd, -, hle⟩ := h.mem hb
  rw [span, hd]
  exact off_subset hle hi32

theorem Laid.append {p : Addr} {lo mid hi : Nat} {bs cs : List Blit} (h : Laid p lo mid bs)
    (h' : Laid p mid hi cs) : Laid p lo hi (bs ++ cs) := by
  induction bs generalizing lo with
  | nil =>
    cases cs with
    | nil => exact h.trans h'
    | cons c cs =>
      obtain ⟨k, hd, hk, hrest⟩ := h'
      exact ⟨k, hd, h.trans hk, hrest⟩
  | cons b bs ih =>
    obtain ⟨k, hd, hk, hrest⟩ := h
    exact ⟨k, hd, hk, ih hrest⟩

/-- Offsets in front of the pieces are left alone. -/
theorem Laid.applyAll_before {p : Addr} {lo hi : Nat} {bs : List Blit} (h : Laid p lo hi bs)
    (hi32 : hi ≤ 2 ^ 32) {i : Nat} (hlt : i < lo) (m : Mem) :
    applyAll bs m (p + UInt32.ofNat i) = m (p + UInt32.ofNat i) := by
  have hle := h.le
  refine applyAll_notMem (fun b hb hmem => ?_) m
  obtain ⟨k, hd, hk, hkl⟩ := h.mem hb
  rw [span, hd] at hmem
  obtain ⟨j, hj, he⟩ := exists_off hmem
  rw [off_off] at he
  have := off_inj (by omega) (by omega) he
  omega

end Blit

/-! ## What a run did -/

variable {σ ε κ α β : Type}

/-- From `w` to `w'` the memory went through `f`, every write is a span of
`spans`, and `hs` are the callbacks in order. -/
structure Did (w w' : World σ ε) (f : Mem → Mem) (spans : List Span) (hs : List ε) : Prop where
  mem : w'.mem = f w.mem
  events : ∃ evs, w.Extends w' evs ∧ hostEvents evs = hs ∧
    ∀ s, Event.write s ∈ evs → s ∈ spans

namespace Did

variable {w w' w'' : World σ ε} {f g : Mem → Mem} {ss ts : List Span} {hs ks : List ε}

theorem trans (h : Did w w' f ss hs) (h' : Did w' w'' g ts ks) :
    Did w w'' (g ∘ f) (ss ++ ts) (hs ++ ks) := by
  obtain ⟨evs, he, hh, hw⟩ := h.events
  obtain ⟨evs', he', hh', hw'⟩ := h'.events
  refine ⟨by rw [h'.mem, h.mem]; rfl, evs ++ evs', he.trans he', ?_, fun s hs => ?_⟩
  · rw [hostEvents_append, hh, hh']
  · rcases List.mem_append.mp hs with hs | hs
    · exact List.mem_append_left _ (hw s hs)
    · exact List.mem_append_right _ (hw' s hs)

/-- All events of the run, whichever way they are listed. -/
theorem of_extends (h : Did w w' f ss hs) {evs : List (Event ε)} (he : w.Extends w' evs) :
    hostEvents evs = hs ∧ ∀ s, Event.write s ∈ evs → s ∈ ss := by
  obtain ⟨evs', he', hh, hw⟩ := h.events
  rw [he.unique he']
  exact ⟨hh, hw⟩

/-- A byte outside every written span keeps its value. -/
theorem notMem (h : Did w w' f ss hs) {a : Addr} (ha : ∀ s ∈ ss, a ∉ s) : w'.mem a = w.mem a := by
  obtain ⟨evs, he, -, hw⟩ := h.events
  exact he.2 a fun s hs => ha s (hw s hs)

theorem readEvent_not_write {as : List Addr} {s : Span} :
    Event.write s ∉ readEvents (ε := ε) as := by
  intro h
  obtain ⟨a, -, ha⟩ := List.mem_map.mp h
  cases ha

theorem log (w : World σ ε) (as : List Addr) : Did w (w.log (readEvents as)) id [] [] :=
  ⟨rfl, _, w.extends_log _, hostEvents_readEvents as, fun _ hs => absurd hs readEvent_not_write⟩

theorem refl (w : World σ ε) : Did w w id [] [] :=
  ⟨rfl, [], World.Extends.refl w, rfl, fun _ hs => absurd hs List.not_mem_nil⟩

/-- A change of the handle is not seen. -/
theorem of_handle {x : σ} (h : Did { w with handle := x } w' f ss hs) : Did w w' f ss hs :=
  ⟨h.mem, h.events⟩

theorem of_set32 {p : Addr} {v : UInt32} {r : Except κ Unit}
    (h : (Prog.set32 p v : Prog σ ε κ Unit).run w = (r, w')) :
    Did w w' (fun m => m.set32 p v) [⟨p, 4⟩] [] := by
  rw [Prog.run_set32, Prod.mk.injEq] at h
  rw [← h.2]
  refine ⟨rfl, [.write ⟨p, 4⟩], ⟨rfl, fun a ha => ?_⟩, rfl, fun s hs => ?_⟩
  · exact store_notMem (ha ⟨p, 4⟩ List.mem_cons_self)
  · simpa using hs

theorem of_copy {dst src : Addr} {n : Nat} {r : Except κ Unit}
    (h : (Prog.copy dst src n : Prog σ ε κ Unit).run w = (r, w')) :
    Did w w' (Blit.applyAll [Blit.copy dst src n]) [⟨dst, n⟩] [] := by
  rw [Prog.run_copy, Prod.mk.injEq] at h
  rw [← h.2]
  refine ⟨rfl, [.read ⟨src, n⟩, .write ⟨dst, n⟩], ⟨rfl, fun a ha => ?_⟩, rfl, fun s hs => ?_⟩
  · exact Blit.apply_notMem (b := Blit.copy dst src n) (ha ⟨dst, n⟩ (by simp)) w.mem
  · simpa using hs

theorem of_zero {p : Addr} {n : Nat} {r : Except κ Unit}
    (h : (Prog.zero p n : Prog σ ε κ Unit).run w = (r, w')) :
    Did w w' (Blit.applyAll [Blit.zero p n]) [⟨p, n⟩] [] := by
  rw [Prog.run_zero, Prod.mk.injEq] at h
  rw [← h.2]
  refine ⟨rfl, [.write ⟨p, n⟩], ⟨rfl, fun a ha => ?_⟩, rfl, fun s hs => ?_⟩
  · exact Blit.apply_notMem (b := Blit.zero p n) (ha ⟨p, n⟩ List.mem_cons_self) w.mem
  · simpa using hs

theorem weaken (h : Did w w' f ss hs) (hsub : ss ⊆ ts) : Did w w' f ts hs := by
  obtain ⟨evs, he, hh, hw⟩ := h.events
  exact ⟨h.mem, evs, he, hh, fun s hs => hsub (hw s hs)⟩

/-- Looking before acting adds nothing. -/
theorem of_log {as : List Addr} (h : Did (w.log (readEvents as)) w' f ss hs) : Did w w' f ss hs :=
  (log w as).trans h

/-- One list of transfers after another. -/
theorem transfers_append {bs cs : List Blit}
    (h : Did w w' (Blit.applyAll bs) (bs.map Blit.span) hs)
    (h' : Did w' w'' (Blit.applyAll cs) (cs.map Blit.span) ks) :
    Did w w'' (Blit.applyAll (bs ++ cs)) ((bs ++ cs).map Blit.span) (hs ++ ks) := by
  have hd := h.trans h'
  have hf : Blit.applyAll cs ∘ Blit.applyAll bs = Blit.applyAll (bs ++ cs) :=
    funext fun m => (Blit.applyAll_append bs cs m).symm
  rw [hf, ← List.map_append] at hd
  exact hd

end Did

/-! ## Runs that transfer -/

/-- From `w` to `w'` the transfers `bs` were made and the handle is the same. -/
structure Filled (w w' : World σ ε) (bs : List Blit) (hs : List ε) : Prop where
  handle : w'.handle = w.handle
  did : Did w w' (Blit.applyAll bs) (bs.map Blit.span) hs

namespace Filled

variable {w w' w'' : World σ ε} {bs cs : List Blit} {hs ks : List ε}

theorem refl (w : World σ ε) : Filled w w [] [] := ⟨rfl, Did.refl w⟩

theorem log (w : World σ ε) (as : List Addr) : Filled w (w.log (readEvents as)) [] [] :=
  ⟨rfl, Did.log w as⟩

theorem trans (h : Filled w w' bs hs) (h' : Filled w' w'' cs ks) :
    Filled w w'' (bs ++ cs) (hs ++ ks) :=
  ⟨h'.handle.trans h.handle, h.did.transfers_append h'.did⟩

theorem of_log {as : List Addr} (h : Filled (w.log (readEvents as)) w' bs hs) :
    Filled w w' bs hs := (log w as).trans h

/-- A transfer of no bytes need not be made. -/
theorem of_empty (w : World σ ε) {b : Blit} (h : b.len = 0) : Filled w w [b] [] := by
  refine ⟨rfl, ?_, [], World.Extends.refl w, rfl, fun _ hs => absurd hs List.not_mem_nil⟩
  funext a
  refine (Blit.apply_notMem (b := b) (fun hmem => ?_) w.mem).symm
  rw [Blit.span, h] at hmem
  exact Span.not_mem_zero _ _ hmem

theorem of_copy {dst src : Addr} {n : Nat} {r : Except κ Unit}
    (h : (Prog.copy dst src n : Prog σ ε κ Unit).run w = (r, w')) :
    Filled w w' [Blit.copy dst src n] [] := by
  refine ⟨?_, Did.of_copy h⟩
  rw [Prog.run_copy, Prod.mk.injEq] at h
  rw [← h.2]

theorem of_zero {p : Addr} {n : Nat} {r : Except κ Unit}
    (h : (Prog.zero p n : Prog σ ε κ Unit).run w = (r, w')) : Filled w w' [Blit.zero p n] [] := by
  refine ⟨?_, Did.of_zero h⟩
  rw [Prog.run_zero, Prod.mk.injEq] at h
  rw [← h.2]

theorem of_set32 {p : Addr} {v : UInt32} {r : Except κ Unit}
    (h : (Prog.set32 p v : Prog σ ε κ Unit).run w = (r, w')) :
    Filled w w' [Blit.word p v] [] := by
  refine ⟨?_, Did.of_set32 h⟩
  rw [Prog.run_set32, Prod.mk.injEq] at h
  rw [← h.2]

end Filled

end Udynlink.Machine
