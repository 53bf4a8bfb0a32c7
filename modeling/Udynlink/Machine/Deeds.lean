import Udynlink.Machine.Prog
import Mathlib.Data.Multiset.AddSub

/-!
# What is handed out comes back

A deed hands something out or takes it back. Settling a list of deeds keeps account
of what is held, and fails at the first release of something that is not: a list
that settles without a rest hands out nothing for good, and takes back nothing
twice and nothing it has not handed out.
-/

namespace Udynlink.Machine

inductive Deed (κ : Type) where
  | grant (k : κ)
  | release (k : κ)
deriving DecidableEq, Repr

section

variable {κ ι : Type} [DecidableEq κ] {held held' rest : Multiset κ} {ds es : List (Deed κ)}

/-- What is held behind `ds`. -/
def settle (held : Multiset κ) : List (Deed κ) → Option (Multiset κ)
  | [] => some held
  | .grant k :: ds => settle (k ::ₘ held) ds
  | .release k :: ds => if k ∈ held then settle (held.erase k) ds else none

@[simp] theorem settle_nil (held : Multiset κ) : settle held [] = some held := rfl

theorem settle_append (held : Multiset κ) (ds es : List (Deed κ)) :
    settle held (ds ++ es) = (settle held ds).bind fun h => settle h es := by
  induction ds generalizing held with
  | nil => rfl
  | cons d ds ih =>
    cases d with
    | grant k => exact ih (k ::ₘ held)
    | release k =>
      rw [List.cons_append, settle, settle]
      split
      · exact ih (held.erase k)
      · rfl

theorem settle_trans {mid : Multiset κ} (h : settle held ds = some mid)
    (h' : settle mid es = some held') : settle held (ds ++ es) = some held' := by
  rw [settle_append, h]
  exact h'

/-- What is held besides is left alone. -/
theorem settle_add (h : settle held ds = some held') (rest : Multiset κ) :
    settle (held + rest) ds = some (held' + rest) := by
  induction ds generalizing held with
  | nil =>
    rw [settle, Option.some.injEq] at h
    rw [h]
    rfl
  | cons d ds ih =>
    cases d with
    | grant k =>
      rw [settle, ← Multiset.cons_add]
      exact ih h
    | release k =>
      rw [settle] at h ⊢
      split at h
      next hk =>
        rw [if_pos (Multiset.mem_add.mpr (Or.inl hk)), Multiset.erase_add_left_pos rest hk]
        exact ih h
      next => simp at h

/-- A list of grants adds what it hands out. -/
theorem settle_grants (ks : List κ) (held : Multiset κ) :
    settle held (ks.map .grant) = some ((ks : Multiset κ) + held) := by
  induction ks generalizing held with
  | nil => rw [List.map_nil, settle_nil, Multiset.coe_nil, zero_add]
  | cons k ks ih =>
    rw [List.map_cons, settle, ih, ← Multiset.cons_coe, Multiset.cons_add, Multiset.add_cons]

/-- What is held goes back in any order. -/
theorem settle_releases (ks : List κ) (held : Multiset κ) :
    settle ((ks : Multiset κ) + held) (ks.map .release) = some held := by
  induction ks with
  | nil => rw [List.map_nil, settle_nil, Multiset.coe_nil, zero_add]
  | cons k ks ih =>
    rw [List.map_cons, settle, ← Multiset.cons_coe, Multiset.cons_add,
      if_pos (Multiset.mem_cons_self _ _), Multiset.erase_cons_head]
    exact ih

/-- One thing given back, another taken, for each index where they differ. -/
def exchange (js : List ι) (f g : ι → κ) : List (Deed κ) :=
  js.flatMap fun j => if f j = g j then [] else [.release (f j), .grant (g j)]

theorem settle_exchange (js : List ι) (f g : ι → κ) (held : Multiset κ) :
    settle ((js.map f : Multiset κ) + held) (exchange js f g) =
      some ((js.map g : Multiset κ) + held) := by
  induction js generalizing held with
  | nil => rfl
  | cons j js ih =>
    rw [exchange, List.flatMap_cons, List.map_cons, List.map_cons, ← Multiset.cons_coe,
      ← Multiset.cons_coe, Multiset.cons_add, Multiset.cons_add]
    have hrest : settle (g j ::ₘ ((js.map f : Multiset κ) + held)) (exchange js f g) =
        some (g j ::ₘ ((js.map g : Multiset κ) + held)) := by
      rw [← Multiset.add_cons, ← Multiset.add_cons]
      exact ih _
    split
    next he =>
      rw [he]
      exact hrest
    next =>
      rw [List.cons_append, List.cons_append, List.nil_append, settle,
        if_pos (Multiset.mem_cons_self _ _), Multiset.erase_cons_head, settle]
      exact hrest

end

/-! ## Programs that ask for little -/

namespace Prog

variable {σ ε κ τ α β : Type} {f : σ → τ} {A : ε → Prop}

/-- Whatever the outcome, `f` of the handle is kept and every callback is one of `A`. -/
def Calm (f : σ → τ) (A : ε → Prop) (p : Prog σ ε κ α) : Prop :=
  ∀ w : World σ ε, f (p.run w).2.handle = f w.handle ∧
    ∀ evs, w.Extends (p.run w).2 evs → ∀ e ∈ hostEvents evs, A e

/-- What is known of a run of a calm program. -/
theorem Calm.run {p : Prog σ ε κ α} (h : p.Calm f A) {w w' : World σ ε} {r : Except κ α}
    (hr : p.run w = (r, w')) :
    f w'.handle = f w.handle ∧ ∀ evs, w.Extends w' evs → ∀ e ∈ hostEvents evs, A e := by
  have hw := h w
  rw [hr] at hw
  exact hw

/-- One list of events is enough. -/
theorem calm_of_events {p : Prog σ ε κ α}
    (h : ∀ w : World σ ε, f (p.run w).2.handle = f w.handle ∧
      ∃ evs, w.Extends (p.run w).2 evs ∧ ∀ e ∈ hostEvents evs, A e) : p.Calm f A := by
  intro w
  obtain ⟨hf, evs', he', hA⟩ := h w
  refine ⟨hf, fun evs he => ?_⟩
  rw [he.unique he']
  exact hA

theorem Silent.calm {p : Prog σ ε κ α} (h : p.Silent) : p.Calm f A := by
  refine calm_of_events fun w => ?_
  obtain ⟨as, ha⟩ := h w
  rw [ha]
  exact ⟨rfl, _, w.extends_log _, by simp⟩

theorem calm_pure (x : α) : (pure x : Prog σ ε κ α).Calm f A := (silent_pure x).calm

theorem calm_fail (e : κ) : (fail e : Prog σ ε κ α).Calm f A := (silent_fail e).calm

theorem calm_lift (r : Reader α) : (liftM r : Prog σ ε κ α).Calm f A := (silent_lift r).calm

theorem calm_getHandle : (getHandle : Prog σ ε κ σ).Calm f A :=
  calm_of_events fun w => ⟨rfl, [], World.Extends.refl w, by simp [hostEvents]⟩

theorem calm_modifyHandle {g : σ → σ} (h : ∀ x, f (g x) = f x) :
    (modifyHandle g : Prog σ ε κ Unit).Calm f A :=
  calm_of_events fun w => ⟨h w.handle, [], ⟨(List.append_nil _).symm, fun _ _ => rfl⟩,
    by simp [hostEvents]⟩

theorem calm_host {g : World σ ε → ε × α} (h : ∀ w, A (g w).1) :
    (host g : Prog σ ε κ α).Calm f A :=
  calm_of_events fun w => ⟨rfl, _, w.extends_log _, by simp [hostEvents, h w]⟩

theorem calm_store (p : Addr) (n : Nat) (bs : Mem → Nat → UInt8) :
    (store p n bs : Prog σ ε κ Unit).Calm f A :=
  calm_of_events fun w => ⟨rfl, [.write ⟨p, n⟩], ⟨rfl, fun _ h =>
    store_notMem (h ⟨p, n⟩ (List.mem_singleton_self _))⟩, by simp [hostEvents]⟩

theorem calm_set32 (p : Addr) (v : UInt32) : (set32 p v : Prog σ ε κ Unit).Calm f A :=
  calm_store p 4 _

theorem calm_zero (p : Addr) (n : Nat) : (zero p n : Prog σ ε κ Unit).Calm f A := calm_store p n _

theorem calm_copy (dst src : Addr) (n : Nat) : (copy dst src n : Prog σ ε κ Unit).Calm f A := by
  refine calm_of_events fun w => ⟨rfl, ?_⟩
  obtain ⟨evs, he⟩ := (copy dst src n : Prog σ ε κ Unit).traced w
  have hevs : evs = [.read ⟨src, n⟩, .write ⟨dst, n⟩] := List.append_cancel_left he.1.symm
  exact ⟨evs, he, by simp [hevs, hostEvents]⟩

theorem calm_bind {p : Prog σ ε κ α} {q : α → Prog σ ε κ β} (h : p.Calm f A)
    (hq : ∀ x, (q x).Calm f A) : (p >>= q).Calm f A := by
  refine calm_of_events fun w => ?_
  obtain ⟨evs, he⟩ := p.traced w
  obtain ⟨hf, hA⟩ := h w
  rcases hp : p.run w with ⟨_ | x, w'⟩
  · rw [run_bind_of_error hp]
    rw [hp] at he hf hA
    exact ⟨hf, evs, he, hA evs he⟩
  · rw [run_bind_of_ok hp]
    rw [hp] at he hf hA
    obtain ⟨evs', he'⟩ := (q x).traced w'
    obtain ⟨hf', hA'⟩ := hq x w'
    refine ⟨hf'.trans hf, evs ++ evs', he.trans he', fun e hmem => ?_⟩
    rw [hostEvents_append] at hmem
    exact (List.mem_append.mp hmem).elim (hA evs he e) (hA' evs' he' e)

theorem calm_ite {c : Prop} [Decidable c] {p q : Prog σ ε κ α} (hp : p.Calm f A)
    (hq : q.Calm f A) : (if c then p else q).Calm f A := by
  split
  · exact hp
  · exact hq

/-! ## Programs that fail before they write -/

/-- Where the program fails, the memory is as it was. -/
def FailsClean (p : Prog σ ε κ α) : Prop :=
  ∀ w e w', p.run w = (.error e, w') → w'.mem = w.mem

theorem Total.failsClean {p : Prog σ ε κ α} (h : p.Total) : p.FailsClean :=
  fun _ _ _ hr => absurd hr h.not_error

theorem failsClean_fail (e : κ) : (fail e : Prog σ ε κ α).FailsClean := by
  intro w e' w' h
  rw [run_fail, Prod.mk.injEq] at h
  rw [← h.2]

/-- Looking and asking come first. -/
theorem failsClean_bind {p : Prog σ ε κ α} {q : α → Prog σ ε κ β}
    (hp : ∀ w, (p.run w).2.mem = w.mem) (hq : ∀ x, (q x).FailsClean) : (p >>= q).FailsClean := by
  intro w e w' h
  rcases run_bind_error.mp h with hr | ⟨x, w1, hr, h⟩
  · rw [← hp w, hr]
  · rw [hq x w1 e w' h, ← hp w, hr]

theorem failsClean_ite {c : Prop} [Decidable c] {p q : Prog σ ε κ α} (hp : p.FailsClean)
    (hq : q.FailsClean) : (if c then p else q).FailsClean := by
  split
  · exact hp
  · exact hq

end Prog

end Udynlink.Machine
