import Udynlink.Machine.Prog

/-!
# Programs that answer alike

A program that looks only where the memory is known returns the same value from
every such world. Two programs are alike when the value is the same for both;
their steps are then taken together, and the value read by a step is the one of
the known memory.
-/

namespace Udynlink.Machine.Prog

variable {σ ε κ α β : Type} {P : Addr → Prop} {m : Mem}

/-- From every world that is `m` on `P` the program returns `x`, and leaves one. -/
def Returns (P : Addr → Prop) (m : Mem) (p : Prog σ ε κ α) (x : Except κ α) : Prop :=
  ∀ w : World σ ε, (∀ a, P a → m a = w.mem a) →
    (p.run w).1 = x ∧ ∀ a, P a → m a = (p.run w).2.mem a

theorem returns_pure (x : α) : Returns P m (pure x : Prog σ ε κ α) (.ok x) :=
  fun _ hw => ⟨rfl, hw⟩

theorem returns_lift_bind {r : Reader α} {f : α → Prog σ ε κ β} {y : Except κ β}
    (hr : r.Within P m) (h : Returns P m (f (r.run m)) y) :
    Returns P m (liftM r >>= f) y := by
  intro w hw
  have hv : r.run w.mem = r.run m := hr.congr hw
  rw [run_lift_bind, hv]
  exact h _ hw

/-- The answer may depend on the world in its record only. -/
theorem returns_host {g : World σ ε → ε × α} {x : α} (hg : ∀ w, (g w).2 = x) :
    Returns P m (host g : Prog σ ε κ α) (.ok x) := by
  intro w hw
  rw [run_host, hg w]
  exact ⟨rfl, hw⟩

theorem returns_bind {p : Prog σ ε κ α} {f : α → Prog σ ε κ β} {x : α} {y : Except κ β}
    (hp : Returns P m p (.ok x)) (hf : Returns P m (f x) y) : Returns P m (p >>= f) y := by
  intro w hw
  obtain ⟨hv, hm⟩ := hp w hw
  rw [run_bind_of_ok (Prod.ext hv rfl : p.run w = (.ok x, (p.run w).2))]
  exact hf _ hm

theorem returns_bind_error {p : Prog σ ε κ α} {f : α → Prog σ ε κ β} {e : κ}
    (hp : Returns P m p (.error e)) : Returns P m (p >>= f) (.error e) := by
  intro w hw
  obtain ⟨hv, hm⟩ := hp w hw
  rw [run_bind_of_error (Prod.ext hv rfl : p.run w = (.error e, (p.run w).2))]
  exact ⟨rfl, hm⟩

/-- Both programs return one value wherever the memory is `m` on `P`. -/
def Alike (P : Addr → Prop) (m : Mem) (p q : Prog σ ε κ α) : Prop :=
  ∃ x, Returns P m p x ∧ Returns P m q x

theorem alike_pure (x : α) : Alike P m (pure x : Prog σ ε κ α) (pure x) :=
  ⟨.ok x, returns_pure x, returns_pure x⟩

theorem alike_lift_bind {r : Reader α} {f g : α → Prog σ ε κ β} (hr : r.Within P m)
    (h : Alike P m (f (r.run m)) (g (r.run m))) : Alike P m (liftM r >>= f) (liftM r >>= g) := by
  obtain ⟨y, hf, hg⟩ := h
  exact ⟨y, returns_lift_bind hr hf, returns_lift_bind hr hg⟩

theorem alike_bind {p q : Prog σ ε κ α} {f g : α → Prog σ ε κ β} (h : Alike P m p q)
    (hfg : ∀ x, Alike P m (f x) (g x)) : Alike P m (p >>= f) (q >>= g) := by
  obtain ⟨x | x, hp, hq⟩ := h
  · exact ⟨.error x, returns_bind_error hp, returns_bind_error hq⟩
  · obtain ⟨y, hf, hg⟩ := hfg x
    exact ⟨y, returns_bind hp hf, returns_bind hq hg⟩

theorem alike_host {g g' : World σ ε → ε × α} {x : α} (hg : ∀ w, (g w).2 = x)
    (hg' : ∀ w, (g' w).2 = x) : Alike P m (host g : Prog σ ε κ α) (host g') :=
  ⟨.ok x, returns_host hg, returns_host hg'⟩

theorem alike_ite {c : Prop} [Decidable c] {p q p' q' : Prog σ ε κ α}
    (h : c → Alike P m p q) (h' : ¬ c → Alike P m p' q') :
    Alike P m (if c then p else p') (if c then q else q') := by
  by_cases hc : c
  · rw [if_pos hc, if_pos hc]
    exact h hc
  · rw [if_neg hc, if_neg hc]
    exact h' hc

/-- Runs of programs that are alike, each from a world of its own. -/
theorem Alike.result {p q : Prog σ ε κ α} (h : Alike P m p q) {w v : World σ ε}
    (hw : ∀ a, P a → m a = w.mem a) (hv : ∀ a, P a → m a = v.mem a) :
    (p.run w).1 = (q.run v).1 := by
  obtain ⟨x, hp, hq⟩ := h
  rw [(hp w hw).1, (hq v hv).1]

end Udynlink.Machine.Prog
