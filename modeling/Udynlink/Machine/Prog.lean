import Udynlink.Machine.Reader

/-!
# Programs that account for what they touch

A program runs on a memory, a handle and a trace. Its `traced` field says that
the trace only grows and that a byte no new event writes keeps its value, so a
frame property of a run is read off its events. Host callbacks are functions of
the whole world, and their use is an event as well.
-/

namespace Udynlink.Machine

inductive Event (ε : Type) where
  | read (s : Span)
  | write (s : Span)
  | host (e : ε)
deriving DecidableEq, Repr

/-- The events of looking at addresses one by one. -/
def readEvents {ε : Type} (as : List Addr) : List (Event ε) := as.map fun a => .read ⟨a, 1⟩

def hostEvents {ε : Type} (evs : List (Event ε)) : List ε :=
  evs.filterMap fun ev => match ev with
    | .host e => some e
    | _ => none

@[simp] theorem hostEvents_append {ε : Type} (evs evs' : List (Event ε)) :
    hostEvents (evs ++ evs') = hostEvents evs ++ hostEvents evs' := List.filterMap_append

@[simp] theorem hostEvents_readEvents {ε : Type} (as : List Addr) :
    hostEvents (readEvents (ε := ε) as) = [] := by
  induction as with
  | nil => rfl
  | cons a as ih => exact ih

theorem readEvents_append {ε : Type} (as bs : List Addr) :
    readEvents (ε := ε) (as ++ bs) = readEvents as ++ readEvents bs := List.map_append

structure World (σ ε : Type) where
  mem : Mem
  handle : σ
  trace : List (Event ε)

namespace World

variable {σ ε : Type}

/-- `w'` continues `w` with the events `evs`, and changes only bytes they write. -/
def Extends (w w' : World σ ε) (evs : List (Event ε)) : Prop :=
  w'.trace = w.trace ++ evs ∧ ∀ a, (∀ s, Event.write s ∈ evs → a ∉ s) → w'.mem a = w.mem a

theorem Extends.refl (w : World σ ε) : Extends w w [] :=
  ⟨(List.append_nil _).symm, fun _ _ => rfl⟩

theorem Extends.trans {w w' w'' : World σ ε} {evs evs' : List (Event ε)} (h : Extends w w' evs)
    (h' : Extends w' w'' evs') : Extends w w'' (evs ++ evs') := by
  refine ⟨by rw [h'.1, h.1, List.append_assoc], fun a ha => ?_⟩
  rw [h'.2 a fun s hs => ha s (List.mem_append_right _ hs),
    h.2 a fun s hs => ha s (List.mem_append_left _ hs)]

theorem Extends.unique {w w' : World σ ε} {evs evs' : List (Event ε)} (h : Extends w w' evs)
    (h' : Extends w w' evs') : evs = evs' :=
  List.append_cancel_left (h.1.symm.trans h'.1)

/-- Log events that leave the memory alone. -/
def log (w : World σ ε) (evs : List (Event ε)) : World σ ε := { w with trace := w.trace ++ evs }

@[simp] theorem log_mem (w : World σ ε) (evs : List (Event ε)) : (w.log evs).mem = w.mem := rfl

@[simp] theorem log_handle (w : World σ ε) (evs : List (Event ε)) :
    (w.log evs).handle = w.handle := rfl

@[simp] theorem log_trace (w : World σ ε) (evs : List (Event ε)) :
    (w.log evs).trace = w.trace ++ evs := rfl

theorem log_log (w : World σ ε) (evs evs' : List (Event ε)) :
    (w.log evs).log evs' = w.log (evs ++ evs') := by
  simp only [log, List.append_assoc]

theorem log_nil (w : World σ ε) : w.log [] = w := by simp only [log, List.append_nil]

theorem extends_log (w : World σ ε) (evs : List (Event ε)) : Extends w (w.log evs) evs :=
  ⟨rfl, fun _ _ => rfl⟩

end World

structure Prog (σ ε κ α : Type) where
  run : World σ ε → Except κ α × World σ ε
  traced : ∀ w : World σ ε, ∃ evs, w.Extends (run w).2 evs

namespace Prog

variable {σ ε κ α β : Type}

instance : Monad (Prog σ ε κ) where
  pure x := ⟨fun w => (.ok x, w), fun w => ⟨[], World.Extends.refl w⟩⟩
  bind p f :=
    { run := fun w =>
        match p.run w with
        | (.ok x, w') => (f x).run w'
        | (.error e, w') => (.error e, w')
      traced := by
        intro w
        obtain ⟨evs, h⟩ := p.traced w
        rcases hp : p.run w with ⟨_ | x, w'⟩
        · rw [hp] at h
          exact ⟨evs, h⟩
        · rw [hp] at h
          obtain ⟨evs', h'⟩ := (f x).traced w'
          exact ⟨evs ++ evs', h.trans h'⟩ }

@[simp] theorem run_pure (x : α) (w : World σ ε) : (pure x : Prog σ ε κ α).run w = (.ok x, w) := rfl

theorem run_bind (p : Prog σ ε κ α) (f : α → Prog σ ε κ β) (w : World σ ε) :
    (p >>= f).run w =
      match p.run w with
      | (.ok x, w') => (f x).run w'
      | (.error e, w') => (.error e, w') := rfl

theorem extends_of_run {p : Prog σ ε κ α} {w w' : World σ ε} {r : Except κ α}
    (h : p.run w = (r, w')) : ∃ evs, w.Extends w' evs := by
  have ht := p.traced w
  rw [h] at ht
  exact ht

theorem run_bind_ok {p : Prog σ ε κ α} {f : α → Prog σ ε κ β} {w w'' : World σ ε} {y : β} :
    (p >>= f).run w = (.ok y, w'') ↔
      ∃ x w', p.run w = (.ok x, w') ∧ (f x).run w' = (.ok y, w'') := by
  rw [run_bind]
  rcases hp : p.run w with ⟨_ | x, w'⟩
  · constructor
    · intro h
      simp at h
    · rintro ⟨x, w1, h, -⟩
      simp at h
  · constructor
    · exact fun h => ⟨x, w', rfl, h⟩
    · rintro ⟨x1, w1, h, h'⟩
      simp only [Prod.mk.injEq, Except.ok.injEq] at h
      rw [h.1, h.2]
      exact h'

theorem run_bind_error {p : Prog σ ε κ α} {f : α → Prog σ ε κ β} {w w'' : World σ ε} {e : κ} :
    (p >>= f).run w = (.error e, w'') ↔
      p.run w = (.error e, w'') ∨
        ∃ x w', p.run w = (.ok x, w') ∧ (f x).run w' = (.error e, w'') := by
  rw [run_bind]
  rcases hp : p.run w with ⟨_ | x, w'⟩
  · constructor
    · exact fun h => Or.inl (by simpa using h)
    · rintro (h | ⟨x, w1, h, -⟩)
      · simpa using h
      · simp at h
  · constructor
    · exact fun h => Or.inr ⟨x, w', rfl, h⟩
    · rintro (h | ⟨x1, w1, h, h'⟩)
      · simp at h
      · simp only [Prod.mk.injEq, Except.ok.injEq] at h
        rw [h.1, h.2]
        exact h'

theorem run_bind_of_ok {p : Prog σ ε κ α} {f : α → Prog σ ε κ β} {w w' : World σ ε} {x : α}
    (h : p.run w = (.ok x, w')) : (p >>= f).run w = (f x).run w' := by rw [run_bind, h]

theorem run_bind_of_error {p : Prog σ ε κ α} {f : α → Prog σ ε κ β} {w w' : World σ ε} {e : κ}
    (h : p.run w = (.error e, w')) : (p >>= f).run w = (.error e, w') := by rw [run_bind, h]

theorem run_ite (c : Prop) [Decidable c] (p q : Prog σ ε κ α) (w : World σ ε) :
    (if c then p else q).run w = if c then p.run w else q.run w := by split <;> rfl

/-! ## Primitives -/

def fail (e : κ) : Prog σ ε κ α where
  run w := (.error e, w)
  traced w := ⟨[], World.Extends.refl w⟩

/-- Run `p` and report its failure as a value. -/
def attempt (p : Prog σ ε κ α) : Prog σ ε κ (Except κ α) where
  run w := (.ok (p.run w).1, (p.run w).2)
  traced w := p.traced w

/-- A reader as a program: every address it looks at is logged. -/
def read (r : Reader α) : Prog σ ε κ α where
  run w := (.ok (r.run w.mem), w.log (readEvents (r.reads w.mem)))
  traced w := ⟨_, w.extends_log _⟩

instance : MonadLift Reader (Prog σ ε κ) := ⟨read⟩

def getHandle : Prog σ ε κ σ where
  run w := (.ok w.handle, w)
  traced w := ⟨[], World.Extends.refl w⟩

def modifyHandle (f : σ → σ) : Prog σ ε κ Unit where
  run w := (.ok (), { w with handle := f w.handle })
  traced _ := ⟨[], (List.append_nil _).symm, fun _ _ => rfl⟩

/-- A host callback: its answer and the event that records it are functions of
everything that has happened. -/
def host (f : World σ ε → ε × α) : Prog σ ε κ α where
  run w := (.ok (f w).2, w.log [.host (f w).1])
  traced w := ⟨_, w.extends_log _⟩

/-- Overwrite `n` bytes from `p` on. -/
def store (p : Addr) (n : Nat) (bs : Mem → Nat → UInt8) : Prog σ ε κ Unit where
  run w := (.ok (), { w with
    mem := w.mem.store p n (bs w.mem)
    trace := w.trace ++ [.write ⟨p, n⟩] })
  traced _ := ⟨[.write ⟨p, n⟩], rfl, fun _ h =>
    store_notMem (h ⟨p, n⟩ (List.mem_singleton_self _))⟩

def set32 (p : Addr) (v : UInt32) : Prog σ ε κ Unit := store p 4 fun _ => byteOf v

/-- `memset(p, 0, n)`. -/
def zero (p : Addr) (n : Nat) : Prog σ ε κ Unit := store p n fun _ _ => 0

/-- `memcpy(dst, src, n)`. -/
def copy (dst src : Addr) (n : Nat) : Prog σ ε κ Unit where
  run w := (.ok (), { w with
    mem := w.mem.copy dst src n
    trace := w.trace ++ [.read ⟨src, n⟩, .write ⟨dst, n⟩] })
  traced w := by
    refine ⟨[.read ⟨src, n⟩, .write ⟨dst, n⟩], rfl, fun a h => ?_⟩
    have hd : a ∉ (⟨dst, n⟩ : Span) := h ⟨dst, n⟩ (by simp)
    change w.mem.copy dst src n a = w.mem a
    rw [Mem.copy, store_notMem hd]

@[simp] theorem run_fail (e : κ) (w : World σ ε) :
    (fail e : Prog σ ε κ α).run w = (.error e, w) := rfl

@[simp] theorem run_attempt (p : Prog σ ε κ α) (w : World σ ε) :
    p.attempt.run w = (.ok (p.run w).1, (p.run w).2) := rfl

@[simp] theorem run_read (r : Reader α) (w : World σ ε) : (read r : Prog σ ε κ α).run w =
    (.ok (r.run w.mem), w.log (readEvents (r.reads w.mem))) := rfl

@[simp] theorem liftM_eq_read (r : Reader α) : (liftM r : Prog σ ε κ α) = read r := rfl

@[simp] theorem run_getHandle (w : World σ ε) :
    (getHandle : Prog σ ε κ σ).run w = (.ok w.handle, w) := rfl

@[simp] theorem run_modifyHandle (f : σ → σ) (w : World σ ε) :
    (modifyHandle f : Prog σ ε κ Unit).run w = (.ok (), { w with handle := f w.handle }) := rfl

@[simp] theorem run_host (f : World σ ε → ε × α) (w : World σ ε) :
    (host f : Prog σ ε κ α).run w = (.ok (f w).2, w.log [.host (f w).1]) := rfl

@[simp] theorem run_set32 (p : Addr) (v : UInt32) (w : World σ ε) :
    (set32 p v : Prog σ ε κ Unit).run w = (.ok (), { w with
      mem := w.mem.set32 p v
      trace := w.trace ++ [.write ⟨p, 4⟩] }) := rfl

@[simp] theorem run_zero (p : Addr) (n : Nat) (w : World σ ε) :
    (zero p n : Prog σ ε κ Unit).run w = (.ok (), { w with
      mem := w.mem.fill p n 0
      trace := w.trace ++ [.write ⟨p, n⟩] }) := rfl

@[simp] theorem run_copy (dst src : Addr) (n : Nat) (w : World σ ε) :
    (copy dst src n : Prog σ ε κ Unit).run w = (.ok (), { w with
      mem := w.mem.copy dst src n
      trace := w.trace ++ [.read ⟨src, n⟩, .write ⟨dst, n⟩] }) := rfl

/-! ## A primitive followed by the rest -/

@[simp] theorem run_lift_bind (r : Reader α) (f : α → Prog σ ε κ β) (w : World σ ε) :
    (liftM r >>= f).run w = (f (r.run w.mem)).run (w.log (readEvents (r.reads w.mem))) := rfl

@[simp] theorem run_getHandle_bind (f : σ → Prog σ ε κ β) (w : World σ ε) :
    (getHandle >>= f).run w = (f w.handle).run w := rfl

@[simp] theorem run_modifyHandle_bind (g : σ → σ) (f : Unit → Prog σ ε κ β) (w : World σ ε) :
    (modifyHandle g >>= f).run w = (f ()).run { w with handle := g w.handle } := rfl

@[simp] theorem run_host_bind (g : World σ ε → ε × α) (f : α → Prog σ ε κ β) (w : World σ ε) :
    (host g >>= f).run w = (f (g w).2).run (w.log [.host (g w).1]) := rfl

@[simp] theorem run_set32_bind (p : Addr) (v : UInt32) (f : Unit → Prog σ ε κ β)
    (w : World σ ε) : (set32 p v >>= f).run w = (f ()).run { w with
      mem := w.mem.set32 p v
      trace := w.trace ++ [.write ⟨p, 4⟩] } := rfl

@[simp] theorem run_zero_bind (p : Addr) (n : Nat) (f : Unit → Prog σ ε κ β) (w : World σ ε) :
    (zero p n >>= f).run w = (f ()).run { w with
      mem := w.mem.fill p n 0
      trace := w.trace ++ [.write ⟨p, n⟩] } := rfl

@[simp] theorem run_copy_bind (dst src : Addr) (n : Nat) (f : Unit → Prog σ ε κ β)
    (w : World σ ε) : (copy dst src n >>= f).run w = (f ()).run { w with
      mem := w.mem.copy dst src n
      trace := w.trace ++ [.read ⟨src, n⟩, .write ⟨dst, n⟩] } := rfl

@[simp] theorem run_attempt_bind (p : Prog σ ε κ α) (f : Except κ α → Prog σ ε κ β)
    (w : World σ ε) : (p.attempt >>= f).run w = (f (p.run w).1).run (p.run w).2 := rfl

/-! ## Programs that only look -/

/-- Whatever the outcome, nothing but reads has happened. -/
def Silent (p : Prog σ ε κ α) : Prop := ∀ w, ∃ as, (p.run w).2 = w.log (readEvents as)

theorem silent_pure (x : α) : (pure x : Prog σ ε κ α).Silent := fun w => ⟨[], w.log_nil.symm⟩

theorem silent_fail (e : κ) : (fail e : Prog σ ε κ α).Silent := fun w => ⟨[], w.log_nil.symm⟩

theorem silent_lift (r : Reader α) : (liftM r : Prog σ ε κ α).Silent := fun _ => ⟨_, rfl⟩

theorem silent_bind {p : Prog σ ε κ α} {f : α → Prog σ ε κ β} (h : p.Silent)
    (hf : ∀ x, (f x).Silent) : (p >>= f).Silent := by
  intro w
  obtain ⟨as, ha⟩ := h w
  rcases hp : p.run w with ⟨_ | x, w'⟩
  · rw [hp] at ha
    exact ⟨as, by rw [run_bind_of_error hp, ha]⟩
  · rw [hp] at ha
    dsimp only at ha
    obtain ⟨bs, hb⟩ := hf x w'
    refine ⟨as ++ bs, ?_⟩
    rw [run_bind_of_ok hp, hb, ha, World.log_log, readEvents_append]

theorem silent_ite {c : Prop} [Decidable c] {p q : Prog σ ε κ α} (hp : p.Silent) (hq : q.Silent) :
    (if c then p else q).Silent := by
  split
  · exact hp
  · exact hq

/-! ## Programs that always return -/

/-- The program fails on no world. -/
def Total (p : Prog σ ε κ α) : Prop := ∀ w, ∃ x w', p.run w = (.ok x, w')

theorem Total.not_error {p : Prog σ ε κ α} (h : p.Total) {w w' : World σ ε} {e : κ} :
    p.run w ≠ (.error e, w') := by
  intro he
  obtain ⟨x, w1, hx⟩ := h w
  rw [hx] at he
  simp at he

theorem total_pure (x : α) : (pure x : Prog σ ε κ α).Total := fun w => ⟨x, w, rfl⟩

theorem total_bind {p : Prog σ ε κ α} {f : α → Prog σ ε κ β} (h : p.Total)
    (hf : ∀ x, (f x).Total) : (p >>= f).Total := by
  intro w
  obtain ⟨x, w', hp⟩ := h w
  obtain ⟨y, w'', hq⟩ := hf x w'
  exact ⟨y, w'', run_bind_ok.mpr ⟨x, w', hp, hq⟩⟩

theorem total_ite {c : Prop} [Decidable c] {p q : Prog σ ε κ α} (hp : p.Total) (hq : q.Total) :
    (if c then p else q).Total := by
  split
  · exact hp
  · exact hq

theorem total_read (r : Reader α) : (read r : Prog σ ε κ α).Total := fun _ => ⟨_, _, rfl⟩

theorem total_lift (r : Reader α) : (liftM r : Prog σ ε κ α).Total := total_read r

theorem total_getHandle : (getHandle : Prog σ ε κ σ).Total := fun _ => ⟨_, _, rfl⟩

theorem total_modifyHandle (f : σ → σ) : (modifyHandle f : Prog σ ε κ Unit).Total :=
  fun _ => ⟨_, _, rfl⟩

theorem total_host (f : World σ ε → ε × α) : (host f : Prog σ ε κ α).Total := fun _ => ⟨_, _, rfl⟩

theorem total_set32 (p : Addr) (v : UInt32) : (set32 p v : Prog σ ε κ Unit).Total :=
  fun _ => ⟨_, _, rfl⟩

theorem total_copy (dst src : Addr) (n : Nat) : (copy dst src n : Prog σ ε κ Unit).Total :=
  fun _ => ⟨_, _, rfl⟩

end Prog

end Udynlink.Machine
