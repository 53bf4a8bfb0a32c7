import Mathlib.Logic.Equiv.Basic
import Mathlib.Logic.Relation
import Mathlib.Data.List.Nodup

/-!
# Tokens with one holder

A token is issued once, to a place that holds none, is handed from place to place, and is
released by the place that holds it. The three steps keep what an owner of resources relies
on: no token has two holders, and those that no one holds have been released, once each.
-/

namespace Udynlink.Machine

structure Tokens (ι : Type) where
  held : ι → Option Nat
  next : Nat
  released : List Nat

namespace Tokens

variable {ι : Type} [DecidableEq ι] {t t' : Tokens ι} {o : ι} {n : Nat}

/-- Moving a token to an empty place is an exchange. -/
inductive Step : Tokens ι → Tokens ι → Prop
  | acquire (t : Tokens ι) (o : ι) (h : t.held o = none) :
    Step t ⟨Function.update t.held o (some t.next), t.next + 1, t.released⟩
  | release (t : Tokens ι) (o : ι) (n : Nat) (h : t.held o = some n) :
    Step t ⟨Function.update t.held o none, t.next, n :: t.released⟩
  | exchange (t : Tokens ι) (o o' : ι) :
    Step t ⟨t.held ∘ Equiv.swap o o', t.next, t.released⟩

structure Sound (t : Tokens ι) : Prop where
  once : t.released.Nodup
  issued : ∀ n ∈ t.released, n < t.next
  live : ∀ o n, t.held o = some n → n < t.next ∧ n ∉ t.released
  single : ∀ o o' n, t.held o = some n → t.held o' = some n → o = o'
  accounted : ∀ n, n < t.next → n ∉ t.released → ∃ o, t.held o = some n

omit [DecidableEq ι] in
theorem sound_empty : (⟨fun _ => none, 0, []⟩ : Tokens ι).Sound where
  once := List.nodup_nil
  issued _ hn := absurd hn List.not_mem_nil
  live _ _ h := nomatch h
  single _ _ _ h := nomatch h
  accounted n hn := absurd hn (Nat.not_lt_zero n)

theorem Sound.acquire (hs : t.Sound) (h : t.held o = none) :
    (⟨Function.update t.held o (some t.next), t.next + 1, t.released⟩ : Tokens ι).Sound := by
  have hheld : ∀ o' n, Function.update t.held o (some t.next) o' = some n →
      (o' = o ∧ n = t.next) ∨ (o' ≠ o ∧ t.held o' = some n) := by
    intro o' n hn
    by_cases heq : o' = o
    · subst heq
      rw [Function.update_self] at hn
      exact Or.inl ⟨rfl, (Option.some.inj hn).symm⟩
    · rw [Function.update_of_ne heq] at hn
      exact Or.inr ⟨heq, hn⟩
  have hfresh : t.next ∉ t.released := fun hm => Nat.lt_irrefl _ (hs.issued _ hm)
  refine ⟨hs.once, fun n hn => Nat.lt_succ_of_lt (hs.issued n hn), fun o' n hn => ?_,
    fun o1 o2 n h1 h2 => ?_, fun n hlt hnot => ?_⟩
  · rcases hheld o' n hn with ⟨-, rfl⟩ | ⟨-, hold⟩
    · exact ⟨Nat.lt_succ_self _, hfresh⟩
    · exact ⟨Nat.lt_succ_of_lt (hs.live o' n hold).1, (hs.live o' n hold).2⟩
  · rcases hheld o1 n h1 with ⟨rfl, hn⟩ | ⟨-, hold1⟩
    · rcases hheld o2 n h2 with ⟨rfl, -⟩ | ⟨-, hold2⟩
      · rfl
      · have hlt := (hs.live o2 n hold2).1
        omega
    · rcases hheld o2 n h2 with ⟨rfl, hn⟩ | ⟨-, hold2⟩
      · have hlt := (hs.live o1 n hold1).1
        omega
      · exact hs.single o1 o2 n hold1 hold2
  · rcases Nat.lt_succ_iff_lt_or_eq.mp hlt with hlt | rfl
    · obtain ⟨o', ho'⟩ := hs.accounted n hlt hnot
      have hne : o' ≠ o := by
        rintro rfl
        rw [h] at ho'
        cases ho'
      exact ⟨o', (Function.update_of_ne hne _ _).trans ho'⟩
    · exact ⟨o, Function.update_self ..⟩

theorem Sound.release (hs : t.Sound) (h : t.held o = some n) :
    (⟨Function.update t.held o none, t.next, n :: t.released⟩ : Tokens ι).Sound := by
  have hheld : ∀ o' k, Function.update t.held o none o' = some k →
      o' ≠ o ∧ t.held o' = some k := by
    intro o' k hk
    by_cases heq : o' = o
    · subst heq
      rw [Function.update_self] at hk
      cases hk
    · rw [Function.update_of_ne heq] at hk
      exact ⟨heq, hk⟩
  have hn := hs.live o n h
  refine ⟨List.nodup_cons.mpr ⟨hn.2, hs.once⟩, fun k hk => ?_, fun o' k hk => ?_,
    fun o1 o2 k h1 h2 => ?_, fun k hlt hnot => ?_⟩
  · rcases List.mem_cons.mp hk with rfl | hk
    · exact hn.1
    · exact hs.issued k hk
  · obtain ⟨hne, hold⟩ := hheld o' k hk
    refine ⟨(hs.live o' k hold).1, fun hm => ?_⟩
    rcases List.mem_cons.mp hm with rfl | hm
    · exact hne (hs.single o' o k hold h)
    · exact (hs.live o' k hold).2 hm
  · exact hs.single o1 o2 k (hheld o1 k h1).2 (hheld o2 k h2).2
  · rw [List.mem_cons, not_or] at hnot
    obtain ⟨o', ho'⟩ := hs.accounted k hlt hnot.2
    have hne : o' ≠ o := by
      rintro rfl
      rw [h] at ho'
      exact hnot.1 (Option.some.inj ho').symm
    exact ⟨o', (Function.update_of_ne hne _ _).trans ho'⟩

theorem Sound.exchange (hs : t.Sound) (o o' : ι) :
    (⟨t.held ∘ Equiv.swap o o', t.next, t.released⟩ : Tokens ι).Sound where
  once := hs.once
  issued := hs.issued
  live p n h := hs.live _ n h
  single p q n hp hq := (Equiv.swap o o').injective (hs.single _ _ n hp hq)
  accounted n hlt hnot := by
    obtain ⟨p, hp⟩ := hs.accounted n hlt hnot
    exact ⟨Equiv.swap o o' p, (congrArg t.held (Equiv.swap_apply_self o o' p)).trans hp⟩

theorem Sound.step (hs : t.Sound) (h : Step t t') : t'.Sound := by
  cases h with
  | acquire o h => exact hs.acquire h
  | release o n h => exact hs.release h
  | exchange o o' => exact hs.exchange o o'

/-- What holds of the tokens after any number of steps. -/
theorem Sound.steps (hs : t.Sound) (h : Relation.ReflTransGen Step t t') : t'.Sound := by
  induction h with
  | refl => exact hs
  | tail _ hstep ih => exact ih.step hstep

end Tokens

end Udynlink.Machine
