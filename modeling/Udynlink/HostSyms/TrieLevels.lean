import Udynlink.HostSyms.Trie

/-!
# The dictionaries as a map from names

What a name is stored under, before and after the keys are sorted.
-/

namespace Udynlink.HostSyms.Level

def find (ch : UInt8) : Level → Option Entry
  | .nil => none
  | .cons c isLeaf leafIndex children rest =>
    if c = ch then some ⟨isLeaf, leafIndex, children⟩ else find ch rest

/-- The leaf index stored for a name. -/
def lookup : List UInt8 → Level → Option Nat
  | [], _ => none
  | [ch], level =>
    match level.find ch with
    | some e => if e.isLeaf then some e.leafIndex else none
    | none => none
  | ch :: c :: cs, level =>
    match level.find ch with
    | some e => lookup (c :: cs) e.children
    | none => none

@[simp] theorem lookup_nil (q : List UInt8) : lookup q .nil = none := by
  match q with
  | [] => rfl
  | [_] => rfl
  | _ :: _ :: _ => rfl

@[simp] theorem find_nil (c : UInt8) : find c .nil = none := rfl

theorem find_cons (c ch : UInt8) (isLeaf : Bool) (leafIndex : Nat) (children rest : Level) :
    find c (.cons ch isLeaf leafIndex children rest) =
      if ch = c then some ⟨isLeaf, leafIndex, children⟩ else find c rest := rfl

/-! ## Insertion -/

theorem find_update (ch c : UInt8) (f : Entry → Entry) (level : Level) :
    (level.update ch f).find c =
      if c = ch then some (f ((level.find ch).getD ⟨false, trieNone, .nil⟩)) else level.find c := by
  induction level with
  | nil =>
    rw [update, find_cons]
    by_cases h : c = ch
    · rw [if_pos h, if_pos h.symm]
      rfl
    · rw [if_neg h, if_neg (Ne.symm h)]
  | cons d isLeaf leafIndex children rest _ ih =>
    rw [update]
    by_cases hd : d = ch
    · rw [if_pos hd, find_cons, find_cons, find_cons, if_pos hd]
      by_cases h : c = ch
      · rw [if_pos h, if_pos (hd.trans h.symm)]
        rfl
      · have hdc : ¬ d = c := fun hx => h (hx.symm.trans hd)
        rw [if_neg h, if_neg hdc, if_neg hdc]
    · rw [if_neg hd, find_cons, find_cons, find_cons, ih, if_neg hd]
      by_cases h : c = ch
      · have hdc : ¬ d = c := fun hx => hd (hx.trans h)
        rw [if_pos h, if_neg hdc, if_pos h]
      · rw [if_neg h, if_neg h]

theorem lookup_insert {name : List UInt8} (hne : name ≠ []) (k : Nat) (q : List UInt8)
    (level : Level) :
    lookup q (insert name k level) = if q = name then some k else lookup q level := by
  induction name generalizing q level with
  | nil => exact absurd rfl hne
  | cons ch name ih =>
    cases q with
    | nil =>
      rw [if_neg (List.cons_ne_nil ch name).symm]
      rfl
    | cons d q =>
      cases name with
      | nil =>
        rw [insert]
        cases q with
        | nil =>
          rw [lookup, lookup, find_update]
          by_cases h : d = ch
          · rw [if_pos h, h, if_pos rfl]
            rfl
          · have hx : ¬ [d] = [ch] := by simp [h]
            rw [if_neg h, if_neg hx]
        | cons c q =>
          have hx : ¬ d :: c :: q = [ch] := by simp
          rw [if_neg hx, lookup, lookup, find_update]
          by_cases h : d = ch
          · rw [if_pos h, h]
            cases level.find ch with
            | none => exact lookup_nil _
            | some e => rfl
          · rw [if_neg h]
      | cons c name =>
        rw [insert]
        cases q with
        | nil =>
          have hx : ¬ [d] = ch :: c :: name := by simp
          rw [if_neg hx, lookup, lookup, find_update]
          by_cases h : d = ch
          · rw [if_pos h, h]
            cases level.find ch with
            | none => rfl
            | some e => rfl
          · rw [if_neg h]
        | cons d' q =>
          rw [lookup, lookup, find_update]
          by_cases h : d = ch
          · rw [if_pos h, h]
            dsimp only
            rw [ih (List.cons_ne_nil c name)]
            cases hf : level.find ch with
            | none =>
              rw [Option.getD_none, lookup_nil]
              simp
            | some e =>
              rw [Option.getD_some]
              simp
          · have hx : ¬ d :: d' :: q = ch :: c :: name := by simp [h]
            rw [if_neg h, if_neg hx]

theorem lookup_insertAll_of_notMem {names : List (List UInt8)} (hne : ∀ n ∈ names, n ≠ [])
    (k : Nat) {q : List UInt8} (hq : q ∉ names) (level : Level) :
    lookup q (insertAll names k level) = lookup q level := by
  induction names generalizing k level with
  | nil => rfl
  | cons name names ih =>
    rw [List.mem_cons, not_or] at hq
    rw [insertAll, ih (fun n hn => hne n (List.mem_cons_of_mem name hn)) (k + 1) hq.2,
      lookup_insert (hne name List.mem_cons_self), if_neg hq.1]

theorem lookup_insertAll_at {names : List (List UInt8)} (hne : ∀ n ∈ names, n ≠ [])
    (hd : names.Nodup) (k : Nat) {j : Nat} {name : List UInt8} (hj : names[j]? = some name)
    (level : Level) : lookup name (insertAll names k level) = some (k + j) := by
  induction names generalizing k level j with
  | nil => simp at hj
  | cons n names ih =>
    have hrest : ∀ n' ∈ names, n' ≠ [] := fun n' hn => hne n' (List.mem_cons_of_mem n hn)
    obtain ⟨hn, hd'⟩ := List.nodup_cons.mp hd
    rw [insertAll]
    cases j with
    | zero =>
      rw [List.getElem?_cons_zero, Option.some.injEq] at hj
      rw [← hj, lookup_insertAll_of_notMem hrest (k + 1) hn,
        lookup_insert (hne n List.mem_cons_self), if_pos rfl]
      rfl
    | succ j =>
      rw [List.getElem?_cons_succ] at hj
      rw [ih hrest hd' (k + 1) hj]
      congr 1
      omega

/-! ## Sorting -/

theorem find_insertSorted (ch c : UInt8) (e : Entry) (level : Level) :
    (level.insertSorted ch e).find c = if c = ch then some e else level.find c := by
  induction level with
  | nil =>
    rw [insertSorted, find_cons]
    by_cases h : c = ch
    · rw [if_pos h, if_pos h.symm]
    · rw [if_neg h, if_neg (Ne.symm h)]
  | cons d isLeaf leafIndex children rest _ ih =>
    rw [insertSorted]
    by_cases hle : ch ≤ d
    · rw [if_pos hle, find_cons]
      by_cases h : c = ch
      · rw [if_pos h, if_pos h.symm]
      · rw [if_neg h, if_neg (Ne.symm h)]
    · rw [if_neg hle, find_cons, find_cons, ih]
      by_cases h : c = ch
      · have hd : ¬ d = c := by
          intro hx
          exact hle (UInt8.le_iff_toNat_le.mpr (by rw [hx, h]))
        rw [if_neg hd, if_pos h, if_pos h]
      · rw [if_neg h, if_neg h]

theorem find_sorted (c : UInt8) (level : Level) :
    level.sorted.find c =
      (level.find c).map fun e => { e with children := e.children.sorted } := by
  induction level with
  | nil => rfl
  | cons ch isLeaf leafIndex children rest _ ih =>
    rw [sorted, find_insertSorted, find_cons, ih]
    by_cases h : c = ch
    · rw [if_pos h, if_pos h.symm]
      rfl
    · rw [if_neg h, if_neg (Ne.symm h)]

theorem lookup_sorted (q : List UInt8) (level : Level) : lookup q level.sorted = lookup q level := by
  induction q generalizing level with
  | nil => rfl
  | cons ch q ih =>
    cases q with
    | nil =>
      rw [lookup, lookup, find_sorted]
      cases level.find ch with
      | none => rfl
      | some e => rfl
    | cons c q =>
      rw [lookup, lookup, find_sorted]
      cases level.find ch with
      | none => rfl
      | some e => exact ih e.children

/-- No key of the rest is smaller than an earlier one, at every level. -/
def Ordered : Level → Prop
  | .nil => True
  | .cons ch _ _ children rest =>
    (∀ c, rest.find c ≠ none → ch ≤ c) ∧ Ordered children ∧ Ordered rest

theorem ordered_insertSorted {ch : UInt8} {e : Entry} {level : Level} (hc : e.children.Ordered)
    (h : level.Ordered) : (level.insertSorted ch e).Ordered := by
  induction level with
  | nil => exact ⟨fun c hx => absurd rfl hx, hc, trivial⟩
  | cons d isLeaf leafIndex children rest _ ih =>
    obtain ⟨hmin, hchildren, hrest⟩ := h
    rw [insertSorted]
    by_cases hle : ch ≤ d
    · rw [if_pos hle]
      refine ⟨fun c hx => ?_, hc, hmin, hchildren, hrest⟩
      rw [find] at hx
      by_cases hd : d = c
      · rw [← hd]
        exact hle
      · rw [if_neg hd] at hx
        exact UInt8.le_trans hle (hmin c hx)
    · rw [if_neg hle]
      refine ⟨fun c hx => ?_, hchildren, ih hrest⟩
      rw [find_insertSorted] at hx
      by_cases h : c = ch
      · rw [h, UInt8.le_iff_toNat_le]
        have := mt UInt8.le_iff_toNat_le.mpr hle
        omega
      · rw [if_neg h] at hx
        exact hmin c hx

theorem ordered_sorted (level : Level) : level.sorted.Ordered := by
  induction level with
  | nil => trivial
  | cons ch isLeaf leafIndex children rest ihc ihr => exact ordered_insertSorted ihc ihr

theorem ordered_children {level : Level} (h : level.Ordered) {c : UInt8} {e : Entry}
    (hf : level.find c = some e) : e.children.Ordered := by
  induction level with
  | nil => exact absurd hf (by simp [find])
  | cons ch isLeaf leafIndex children rest _ ih =>
    rw [find] at hf
    split at hf
    next =>
      rw [Option.some.injEq] at hf
      rw [← hf]
      exact h.2.1
    next => exact ih h.2.2 hf

/-! ## Sizes -/

/-- Number of nodes. -/
def size : Level → Nat
  | .nil => 0
  | .cons _ _ _ children rest => 1 + size children + size rest

theorem size_children {level : Level} {c : UInt8} {e : Entry} (hf : level.find c = some e) :
    e.children.size < level.size := by
  induction level with
  | nil => exact absurd hf (by simp [find])
  | cons ch isLeaf leafIndex children rest _ ih =>
    rw [find] at hf
    rw [size]
    split at hf
    next =>
      rw [Option.some.injEq] at hf
      rw [← hf]
      dsimp only
      omega
    next =>
      have := ih hf
      omega

/-- The leaf indices of a level and of the levels below it. -/
def leaves : Level → List Nat
  | .nil => []
  | .cons _ isLeaf leafIndex children rest =>
    (if isLeaf then [leafIndex] else []) ++ leaves children ++ leaves rest

theorem leaves_length_le (level : Level) : level.leaves.length ≤ level.size := by
  induction level with
  | nil => exact Nat.le_refl 0
  | cons ch isLeaf leafIndex children rest ihc ihr =>
    rw [leaves, size, List.length_append, List.length_append]
    split
    · rw [List.length_singleton]
      omega
    · rw [List.length_nil]
      omega

theorem mem_leaves_of_find {level : Level} {c : UInt8} {e : Entry} (hf : level.find c = some e) :
    (e.isLeaf = true → e.leafIndex ∈ level.leaves) ∧ ∀ i ∈ e.children.leaves, i ∈ level.leaves := by
  induction level with
  | nil => exact absurd hf (by simp [find])
  | cons ch isLeaf leafIndex children rest _ ih =>
    rw [find] at hf
    rw [leaves]
    split at hf
    next =>
      rw [Option.some.injEq] at hf
      rw [← hf]
      exact ⟨fun h => by simp [show isLeaf = true from h],
        fun i hi => List.mem_append_left _ (List.mem_append_right _ hi)⟩
    next =>
      obtain ⟨h1, h2⟩ := ih hf
      exact ⟨fun h => List.mem_append_right _ (h1 h), fun i hi => List.mem_append_right _ (h2 i hi)⟩

theorem mem_leaves_of_lookup {q : List UInt8} {level : Level} {i : Nat}
    (h : lookup q level = some i) : i ∈ level.leaves := by
  induction q generalizing level with
  | nil => exact absurd h (by simp [lookup])
  | cons ch q ih =>
    cases hf : level.find ch with
    | none =>
      cases q <;> simp [lookup, hf] at h
    | some e =>
      obtain ⟨h1, h2⟩ := mem_leaves_of_find hf
      cases q with
      | nil =>
        rw [lookup, hf] at h
        dsimp only at h
        split at h
        next hl =>
          rw [Option.some.injEq] at h
          rw [← h]
          exact h1 hl
        next => exact absurd h (by simp)
      | cons c q =>
        rw [lookup, hf] at h
        exact h2 i (ih h)

end Udynlink.HostSyms.Level
