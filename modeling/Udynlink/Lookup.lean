import Udynlink.Loader
import Udynlink.Machine.Bisect
import Udynlink.SymbolNames

/-!
# Lookup against the plain scan

Lookup by name is a binary search over the named prefix when there is one, and a scan
otherwise. Both find the entry a plain scan of the table finds, unless the length of
the prefix has lost its upper bits.
-/

namespace Udynlink

open Machine

def symTable (m : Mem) (p : Addr) : SymTable :=
  ⟨m, getSymTablePointer p (decodeHeader m p), (decodeHeader m p).symtSize⟩

/-- The first named entry of that name among the `n` entries from `i` on. -/
def linearScan (m : Mem) (p : Addr) (name : List UInt8) : Nat → Nat → Option Sym
  | 0, _ => none
  | n + 1, i =>
    match (getSymAt p (UInt32.ofNat i)).run m with
    | none => none
    | some sym =>
      if sym.type ≠ symTypeInternal ∧ (readSymName sym.name).run m = name then some sym
      else linearScan m p name n (i + 1)

def finishScan (host : Host) (mod : Module) (name : List UInt8) :
    Option Sym → Loader (Option Sym)
  | none => pure none
  | some sym => do
    let sym ← finishLookup host mod name sym
    pure (some sym)

/-- The program answers with `sym?`, after some reads. -/
def Answers (host : Host) (mod : Module) (name : List UInt8) (sym? : Option Sym)
    (x : Loader (Option Sym)) (w : State) : Prop :=
  ∃ as, x.run w = (finishScan host mod name sym?).run (w.log (readEvents as))

/-- A named entry with the name. -/
def FoundAt (t : SymTable) (name : List UInt8) (j : Nat) : Prop :=
  (1 ≤ j ∧ j < t.readable) ∧ t.Named j ∧ t.name j = name

namespace SymTable

variable (t : SymTable) (name : List UInt8)

/-- Where the name of entry `i` lies from the name that is searched. -/
def order (i : Nat) : Option Ordering :=
  if i < t.readable then some (compare (t.name i) name) else none

/-- The first entry of that name, from entry 1 on. -/
def scan : Option Nat :=
  (List.range' 1 (t.readable - 1)).find? fun i => t.Named i ∧ t.name i = name

/-- The entry that a lookup finds when `k` names are counted. -/
def search (k : Nat) : Option Nat := if 0 < k then bisect (t.order name) k 1 k else t.scan name

end SymTable

section

variable {host : Host} {mod : Module} {name : List UInt8} {m : Mem} {p : Addr}

theorem answers_log {sym? : Option Sym} {x : Loader (Option Sym)} {w : State} {as : List Addr}
    (h : Answers host mod name sym? x (w.log (readEvents as))) :
    ∃ bs, x.run (w.log (readEvents as)) =
      (finishScan host mod name sym?).run (w.log (readEvents bs)) := by
  obtain ⟨bs, h⟩ := h
  exact ⟨as ++ bs, by rw [h, World.log_log, ← readEvents_append]⟩

/-! ## Entries -/

theorem readable_lt (hw : (symTable m p).WellNamed) : (symTable m p).readable < 2 ^ 20 := by
  have h1 := SymTable.words_le hw
  have h2 := @SymTable.readable_le_words (symTable m p)
  omega

theorem readable_small : (symTable m p).readable < 2 ^ 29 := by
  have h1 := (symTable m p).size.toNat_lt
  have h2 := @SymTable.readable_le_words (symTable m p)
  unfold SymTable.words at h2
  omega

theorem getSymAt_run (hw : (symTable m p).NamesEnd) {i : Nat} (hi : 1 ≤ i)
    (hle : i ≤ (symTable m p).readable + 1) :
    (getSymAt p (UInt32.ofNat i)).run m =
      if i < (symTable m p).readable then some ((symTable m p).entry i) else none := by
  have hlt := @readable_small m p
  exact SymTable.getSymAtRaw_run hw hi (by omega)

theorem readSymName_entry {i : Nat} (hn : (symTable m p).Named i) :
    (readSymName ((symTable m p).entry i).name).run m = (symTable m p).name i := by
  unfold SymTable.entry
  rw [if_pos hn]
  rfl

theorem strcmpName_entry (hw : (symTable m p).NamesEnd) {i : Nat} (hi : 1 ≤ i)
    (hr : i < (symTable m p).readable) (hn : (symTable m p).Named i) (h0 : 0 ∉ name) :
    (strcmpName ((symTable m p).entry i).name name).run m =
      compare ((symTable m p).name i) name := by
  unfold SymTable.entry
  rw [if_pos hn]
  exact run_strcmp (hw i hi hr hn).1 h0 (Nat.lt_succ_self _)

/-! ## The plain scan -/

theorem linearScan_found (hw : (symTable m p).WellNamed) {j : Nat}
    (hj : FoundAt (symTable m p) name j) {n i : Nat} (hi : 1 ≤ i) (hij : i ≤ j) (hn : j < n + i) :
    linearScan m p name n i = some ((symTable m p).entry j) := by
  obtain ⟨⟨hj1, hjr⟩, hjn, hjname⟩ := hj
  induction n generalizing i with
  | zero => omega
  | succ n ih =>
    rw [linearScan, getSymAt_run hw.inside hi (by omega), if_pos (by omega)]
    dsimp only
    by_cases he : i = j
    · subst he
      exact if_pos ⟨hjn, (readSymName_entry hjn).trans hjname⟩
    · have hno : ¬ (((symTable m p).entry i).type ≠ symTypeInternal ∧
          (readSymName ((symTable m p).entry i).name).run m = name) := by
        rintro ⟨hin, hname⟩
        rw [readSymName_entry hin] at hname
        exact he (hw.distinct i j hi (by omega) hin hj1 hjr hjn (hname.trans hjname.symm))
      rw [if_neg hno]
      exact ih (by omega) (by omega) (by omega)

theorem linearScan_none (hw : (symTable m p).WellNamed) {n i : Nat} (hi : 1 ≤ i)
    (hle : i ≤ (symTable m p).readable + 1)
    (hno : ∀ j, i ≤ j → ¬ FoundAt (symTable m p) name j) : linearScan m p name n i = none := by
  induction n generalizing i with
  | zero => rfl
  | succ n ih =>
    rw [linearScan, getSymAt_run hw.inside hi hle]
    by_cases hr : i < (symTable m p).readable
    · rw [if_pos hr]
      dsimp only
      rw [if_neg]
      · exact ih (by omega) (by omega) fun j hj => hno j (by omega)
      · rintro ⟨hin, hname⟩
        exact hno i (Nat.le_refl i) ⟨⟨hi, hr⟩, hin, (readSymName_entry hin).symm.trans hname⟩
    · rw [if_neg hr]

/-! ## The linear search -/

theorem lookupLinear_answers (hw : (symTable m mod.pHeader).NamesEnd) (h0 : 0 ∉ name) {w : State}
    (hm : w.mem = m) {n i : Nat} (hi : 1 ≤ i) (hle : i ≤ (symTable m mod.pHeader).readable + 1) :
    Answers host mod name (linearScan m mod.pHeader name n i)
      (lookupLinear host mod name n (UInt32.ofNat i)) w := by
  induction n generalizing i w with
  | zero => exact ⟨[], by rw [readEvents, List.map_nil, World.log_nil]; rfl⟩
  | succ n ih =>
    unfold Answers
    rw [lookupLinear, linearScan, Prog.run_lift_bind, hm, getSymAt_run hw hi hle]
    by_cases hr : i < (symTable m mod.pHeader).readable
    · rw [if_pos hr]
      dsimp only
      have hnext : UInt32.ofNat i + 1 = UInt32.ofNat (i + 1) := by
        rw [UInt32.ofNat_add]
        rfl
      by_cases hnm : (symTable m mod.pHeader).Named i
      · have hty : ¬ ((symTable m mod.pHeader).entry i).type = symTypeInternal := hnm
        rw [if_neg hty, Prog.run_lift_bind, World.log_mem, hm,
          strcmpName_entry hw hi hr hnm h0, World.log_log, ← readEvents_append]
        by_cases he : (symTable m mod.pHeader).name i = name
        · have hcmp : compare ((symTable m mod.pHeader).name i) name = .eq :=
            Std.LawfulEqCmp.compare_eq_iff_eq.mpr he
          rw [if_pos hcmp, if_pos ⟨hnm, (readSymName_entry hnm).trans he⟩]
          exact ⟨_, rfl⟩
        · have hcmp : ¬ compare ((symTable m mod.pHeader).name i) name = .eq :=
            fun h => he (Std.LawfulEqCmp.compare_eq_iff_eq.mp h)
          rw [if_neg hcmp, if_neg fun h => he ((readSymName_entry hnm).symm.trans h.2), hnext]
          exact answers_log (ih (by exact hm) (by omega) (by omega))
      · have hty : ((symTable m mod.pHeader).entry i).type = symTypeInternal := not_not.mp hnm
        rw [if_pos hty, if_neg (fun h => hnm h.1), hnext]
        exact answers_log (ih (by exact hm) (by omega) (by omega))
    · rw [if_neg hr]
      exact ⟨_, rfl⟩

/-! ## The binary search -/

/-- The entries up to `k` are named and, as far as they can be read, in order. -/
structure Searchable (t : SymTable) (k : Nat) : Prop where
  bound : k ≤ t.readable
  named : ∀ i, 1 ≤ i → i ≤ k → t.Named i
  lt : ∀ i j, 1 ≤ i → i < j → j ≤ k → j < t.readable → compare (t.name i) (t.name j) = .lt

/-- In whatever order the entries are, the search is a bisection. -/
theorem lookupBinary_answers (hw : (symTable m mod.pHeader).NamesEnd) (h0 : 0 ∉ name) {w : State}
    (hm : w.mem = m) {k : Nat} (hk : k ≤ (symTable m mod.pHeader).readable)
    (hnamed : ∀ i, 1 ≤ i → i ≤ k → (symTable m mod.pHeader).Named i) {n lo hi : Nat} (hlo : 1 ≤ lo)
    (hhi : hi ≤ k) : Answers host mod name
      ((bisect ((symTable m mod.pHeader).order name) n lo hi).map (symTable m mod.pHeader).entry)
      (lookupBinary host mod name n lo hi) w := by
  induction n generalizing lo hi w with
  | zero => exact ⟨[], by rw [readEvents, List.map_nil, World.log_nil]; rfl⟩
  | succ n ih =>
    unfold Answers
    rw [lookupBinary, bisect]
    by_cases hle : lo ≤ hi
    · rw [if_neg (not_not_intro hle), if_pos hle]
      have hmid : 1 ≤ lo + (hi - lo) / 2 ∧ lo + (hi - lo) / 2 ≤ hi := by omega
      dsimp only
      generalize lo + (hi - lo) / 2 = mid at hmid ⊢
      rw [Prog.run_lift_bind, hm, getSymAt_run hw hmid.1 (by omega), SymTable.order]
      by_cases hr : mid < (symTable m mod.pHeader).readable
      · have hnm := hnamed mid hmid.1 (by omega)
        rw [if_pos hr, if_pos hr]
        dsimp only
        rw [Prog.run_lift_bind, World.log_mem, hm, strcmpName_entry hw hmid.1 hr hnm h0,
          World.log_log, ← readEvents_append]
        cases compare ((symTable m mod.pHeader).name mid) name with
        | eq => exact ⟨_, rfl⟩
        | lt => exact answers_log (ih (by exact hm) (by omega) hhi)
        | gt => exact answers_log (ih (by exact hm) hlo (by omega))
      · rw [if_neg hr, if_neg hr]
        exact ⟨_, rfl⟩
    · rw [if_pos hle, if_neg hle]
      exact ⟨[], by rw [readEvents, List.map_nil, World.log_nil]; rfl⟩

/-- What a bisection finds has the name. -/
theorem order_found {t : SymTable} {i : Nat} (hi : 1 ≤ i) (hn : t.Named i)
    (h : t.order name i = some .eq) : FoundAt t name i := by
  rw [SymTable.order] at h
  split at h
  · rename_i hr
    exact ⟨⟨hi, hr⟩, hn, Std.LawfulEqCmp.compare_eq_iff_eq.mp (Option.some.inj h)⟩
  · cases h

theorem order_readable {t : SymTable} {i : Nat} (h : i < t.readable) :
    t.order name i = some (compare (t.name i) name) := if_pos h

theorem lookupBinary_none (hw : (symTable m mod.pHeader).WellNamed) (h0 : 0 ∉ name) {w : State}
    (hm : w.mem = m) {k : Nat} (hk : k ≤ (symTable m mod.pHeader).readable)
    (hnamed : ∀ i, 1 ≤ i → i ≤ k → (symTable m mod.pHeader).Named i) {n lo hi : Nat} (hlo : 1 ≤ lo)
    (hhi : hi ≤ k) (hno : ∀ j, j ≤ k → ¬ FoundAt (symTable m mod.pHeader) name j) :
    Answers host mod name none (lookupBinary host mod name n lo hi) w := by
  have h := @lookupBinary_answers host mod name m hw.inside h0 w hm k hk hnamed n lo hi hlo hhi
  cases hb : bisect ((symTable m mod.pHeader).order name) n lo hi with
  | none =>
    rw [hb] at h
    exact h
  | some i =>
    obtain ⟨h1, h2, heq⟩ := bisect_sound hlo hb
    exact absurd (order_found (by omega) (hnamed i (by omega) (by omega)) heq) (hno i (by omega))

/-- Entries in order are searched to the end. -/
theorem lookupBinary_found (hw : (symTable m mod.pHeader).WellNamed) (h0 : 0 ∉ name) {w : State}
    (hm : w.mem = m) {k : Nat} (hs : Searchable (symTable m mod.pHeader) k) {n lo hi j : Nat}
    (hj : FoundAt (symTable m mod.pHeader) name j) (hlo : 1 ≤ lo) (hlj : lo ≤ j) (hjh : j ≤ hi)
    (hhi : hi ≤ k) (hn : hi < n + lo) :
    Answers host mod name (some ((symTable m mod.pHeader).entry j))
      (lookupBinary host mod name n lo hi) w := by
  obtain ⟨⟨hj1, hjr⟩, hjn, hjname⟩ := hj
  have hb := hs.bound
  have hfound : bisect ((symTable m mod.pHeader).order name) n lo hi = some j := by
    refine bisect_complete ?_ (fun i h1 h2 => ?_) (fun i h1 h2 => ?_) hlj hjh hn
    · rw [order_readable hjr]
      exact congrArg some (Std.LawfulEqCmp.compare_eq_iff_eq.mpr hjname)
    · rw [order_readable (by omega), ← hjname, hs.lt i j (by omega) h2 (by omega) hjr]
    · rw [order_readable (by omega), ← hjname,
        Std.OrientedCmp.gt_iff_lt.mpr (hs.lt j i hj1 h1 (by omega) (by omega))]
  have h := @lookupBinary_answers host mod name m hw.inside h0 w hm k hb hs.named n lo hi hlo hhi
  rw [hfound] at h
  exact h

end

/-! ## Lookup -/

/-- The length of the named prefix has lost its upper bits, and the names that are
left of it are in order. -/
def Overcounted (t : SymTable) : Prop :=
  ∃ N, t.NamedPrefix N ∧ 2 ^ 16 ≤ N ∧ N % 2 ^ 16 ≠ 0 ∧ t.Ascending (N % 2 ^ 16)

theorem toNat_ofNat16 (N : Nat) : (UInt16.ofNat N).toNat = N % 2 ^ 16 := UInt16.toNat_ofNat'

section

variable {t : SymTable}

theorem NamedPrefix.le_readable {N : Nat} (hN : t.NamedPrefix N) : N ≤ t.readable := by
  have h1 := @SymTable.scanned_le_succ t
  cases hN.bound with
  | inl h => omega
  | inr h => omega

/-- A count that is not 0 is the length of the prefix, or what is left of it. -/
theorem searchable_of_count (hw : t.WellNamed) (ho : ¬ Overcounted t)
    (h0 : (computeNumNamedSymsRaw t.base t.size).run t.mem ≠ 0) :
    ∃ N, t.NamedPrefix N ∧ Searchable t N ∧
      ((computeNumNamedSymsRaw t.base t.size).run t.mem).toNat = N := by
  have hrun := (SymTable.computeNumNamedSymsRaw_run t).resolve_right fun h => h0 h.2
  obtain ⟨N, hN, hrun⟩ := hrun
  rw [hrun] at h0 ⊢
  by_cases hs : (sortedScan t.base t.size ((UInt16.ofNat N).toNat - 1) 2).run t.mem = true
  · rw [if_pos hs] at h0 ⊢
    rw [toNat_ofNat16] at hs ⊢
    have hle := NamedPrefix.le_readable hN
    have hpos : N % 2 ^ 16 ≠ 0 := by
      intro h
      apply h0
      apply UInt16.toNat_inj.mp
      rw [toNat_ofNat16, h]
      rfl
    have hsmall : N < 2 ^ 16 := by
      by_contra hbig
      apply ho
      refine ⟨N, hN, by omega, hpos, SymTable.ascending_of_sortedScan hw (by omega) ?_ hs⟩
      exact fun i h1 h2 => hN.named i h1 (by omega)
    rw [Nat.mod_eq_of_lt hsmall] at hs ⊢
    refine ⟨N, hN, ⟨hle, hN.named, fun i j hi hij hj hjr => ?_⟩, rfl⟩
    by_cases hlast : N < t.readable
    · exact SymTable.ascending_lt hw (SymTable.ascending_of_sortedScan hw hlast hN.named hs)
        hlast hN.named hi hij hj
    · -- the last entry cannot be read, the others are in order
      have hs' : (sortedScan t.base t.size (N - 1 - 1) 2).run t.mem = true := by
        apply SymTable.sortedScan_of_succ
        rwa [show N - 1 - 1 + 1 = N - 1 by omega]
      have hnamed : ∀ i, 1 ≤ i → i ≤ N - 1 → t.Named i := fun i h1 h2 => hN.named i h1 (by omega)
      exact SymTable.ascending_lt hw
        (SymTable.ascending_of_sortedScan hw (by omega) hnamed hs') (by omega) hnamed hi hij (by omega)
  · rw [if_neg hs] at h0
    exact absurd rfl h0

/-- An overcounted table is searched up to what is left of the count. -/
theorem count_of_overcounted (hw : t.WellNamed) (ho : Overcounted t) :
    ∃ k, 0 < k ∧ k + 1 < t.readable ∧ (∀ i, 1 ≤ i → i ≤ k + 1 → t.Named i) ∧
      ((computeNumNamedSymsRaw t.base t.size).run t.mem).toNat = k := by
  obtain ⟨N, hN, hbig, hpos, ha⟩ := ho
  have hle := NamedPrefix.le_readable hN
  refine ⟨N % 2 ^ 16, by omega, by omega, fun i h1 h2 => hN.named i h1 (by omega), ?_⟩
  have hrun := (SymTable.computeNumNamedSymsRaw_run t).resolve_right fun h => h.1 N hN
  obtain ⟨M, hM, hrun⟩ := hrun
  obtain rfl := hN.unique hM
  have hs : (sortedScan t.base t.size (N % 2 ^ 16 - 1) 2).run t.mem = true :=
    SymTable.sortedScan_of_ascending hw (by omega)
      (fun i h1 h2 => hN.named i h1 (by omega)) ha
  rw [hrun, toNat_ofNat16, if_pos hs, toNat_ofNat16]

end

/-- A found symbol is an answer. -/
theorem finishScan_some_ne {host : Host} {mod : Module} {name : List UInt8} {sym : Sym}
    {w w' : State} : (finishScan host mod name (some sym)).run w ≠
      (finishScan host mod name none).run w' := by
  intro h
  have h1 : ((finishLookup host mod name sym >>= fun sym => pure (some sym)).run w).1 =
      .ok none := congrArg Prod.fst h
  rw [Prog.run_bind] at h1
  rcases hr : (finishLookup host mod name sym).run w with ⟨e | sym', w1⟩
  · rw [hr] at h1
    cases h1
  · rw [hr] at h1
    cases h1

theorem lookup_binary {host : Host} {name : List UInt8} {w : State} {k : Nat} (hk : 0 < k)
    (hc : w.handle.numNamedSyms.toNat = k) : (udynlinkLookupSymbol host name).run w =
      (lookupBinary host w.handle name k 1 k).run w := by
  have hpos : w.handle.numNamedSyms > 0 := by
    rw [gt_iff_lt, UInt16.lt_iff_toNat_lt, hc]
    exact hk
  rw [udynlinkLookupSymbol, Prog.run_getHandle_bind, if_pos hpos, hc]

theorem lookup_linear {host : Host} {name : List UInt8} {w : State}
    (hc : w.handle.numNamedSyms = 0) : (udynlinkLookupSymbol host name).run w =
      (lookupLinear host w.handle name (2 ^ 32) 1).run w := by
  rw [udynlinkLookupSymbol, Prog.run_getHandle_bind, hc]
  rfl

/-- A table searched up to its whole prefix. -/
theorem answers_searchable {host : Host} {name : List UInt8} {w : State}
    (hw : (symTable w.mem w.handle.pHeader).WellNamed) (h0 : 0 ∉ name) {N n : Nat}
    (hn : (symTable w.mem w.handle.pHeader).readable ≤ n)
    (hN : (symTable w.mem w.handle.pHeader).NamedPrefix N)
    (hs : Searchable (symTable w.mem w.handle.pHeader) N) :
    Answers host w.handle name (linearScan w.mem w.handle.pHeader name n 1)
      (lookupBinary host w.handle name N 1 N) w := by
  have hle := @SymTable.readable_le_scanned (symTable w.mem w.handle.pHeader)
  by_cases hf : ∃ j, FoundAt (symTable w.mem w.handle.pHeader) name j
  · obtain ⟨j, hj⟩ := hf
    obtain ⟨hj1, hjr⟩ := hj.1
    have hjN : j ≤ N := by
      by_contra hgt
      exact hN.nameless j (by omega) (by omega) hj.2.1
    rw [linearScan_found hw hj (Nat.le_refl 1) hj1 (by omega)]
    exact lookupBinary_found hw h0 rfl hs hj (Nat.le_refl 1) hj1 hjN (Nat.le_refl N) (by omega)
  · have hno : ∀ j, ¬ FoundAt (symTable w.mem w.handle.pHeader) name j :=
      fun j hj => hf ⟨j, hj⟩
    rw [linearScan_none hw (Nat.le_refl 1) (Nat.le_add_left 1 _) fun j _ => hno j]
    exact lookupBinary_none hw h0 rfl hs.bound hs.named (Nat.le_refl 1) (Nat.le_refl N)
      fun j _ => hno j

/-- A table searched up to `k` only: the next entry is not found. -/
theorem not_answers_overcounted {host : Host} {w : State}
    (hw : (symTable w.mem w.handle.pHeader).WellNamed) {k n : Nat}
    (hn : (symTable w.mem w.handle.pHeader).readable ≤ n)
    (hkr : k + 1 < (symTable w.mem w.handle.pHeader).readable)
    (hnamed : ∀ i, 1 ≤ i → i ≤ k + 1 → (symTable w.mem w.handle.pHeader).Named i) :
    ∃ name, 0 ∉ name ∧
      ¬ Answers host w.handle name (linearScan w.mem w.handle.pHeader name n 1)
        (lookupBinary host w.handle name k 1 k) w := by
  have hnm := hnamed (k + 1) (by omega) (Nat.le_refl _)
  have hfound : FoundAt (symTable w.mem w.handle.pHeader)
      ((symTable w.mem w.handle.pHeader).name (k + 1)) (k + 1) := ⟨⟨by omega, hkr⟩, hnm, rfl⟩
  have h0 := (hw.inside (k + 1) (by omega) hkr hnm).1.zero_notMem
  refine ⟨_, h0, fun h => ?_⟩
  have hno : ∀ j, j ≤ k → ¬ FoundAt (symTable w.mem w.handle.pHeader)
      ((symTable w.mem w.handle.pHeader).name (k + 1)) j := by
    intro j hj hf
    have he := hw.distinct j (k + 1) hf.1.1 hf.1.2 hf.2.1 (by omega) hkr hnm hf.2.2
    omega
  rw [linearScan_found hw hfound (Nat.le_refl 1) (by omega) (by omega)] at h
  obtain ⟨as, has⟩ := h
  obtain ⟨bs, hbs⟩ := @lookupBinary_none host w.handle _ w.mem hw h0 w rfl k (by omega)
    (fun i h1 h2 => hnamed i h1 (by omega)) k 1 k (Nat.le_refl 1) (Nat.le_refl k) hno
  exact finishScan_some_ne (has.symm.trans hbs)

/-- Lookup answers like the plain scan from entry 1 on. -/
def AnswersScan (host : Host) (name : List UInt8) (w : State) : Prop :=
  Answers host w.handle name (linearScan w.mem w.handle.pHeader name (2 ^ 32) 1)
    (udynlinkLookupSymbol host name) w

theorem answersScan_binary {host : Host} {name : List UInt8} {w : State} {k : Nat} (hk : 0 < k)
    (hc : w.handle.numNamedSyms.toNat = k) : AnswersScan host name w ↔
      Answers host w.handle name (linearScan w.mem w.handle.pHeader name (2 ^ 32) 1)
        (lookupBinary host w.handle name k 1 k) w := by
  unfold AnswersScan Answers
  rw [lookup_binary hk hc]

/-- Without a count, lookup is the plain scan. -/
theorem answersScan_linear {host : Host} {name : List UInt8} {w : State}
    (hw : (symTable w.mem w.handle.pHeader).WellNamed) (h0 : 0 ∉ name)
    (hc : w.handle.numNamedSyms = 0) : AnswersScan host name w := by
  have h1 : (1 : UInt32) = UInt32.ofNat 1 := rfl
  unfold AnswersScan Answers
  rw [lookup_linear hc, h1]
  generalize 2 ^ 32 = n
  exact lookupLinear_answers hw.inside h0 rfl (Nat.le_refl 1) (Nat.le_add_left 1 _)

/-! ## The entry that is found -/

theorem linearScan_scan {m : Mem} {p : Addr} {name : List UInt8} (hw : (symTable m p).NamesEnd)
    {n i : Nat} (hi : 1 ≤ i) (hle : i ≤ (symTable m p).readable + 1)
    (hn : (symTable m p).readable < n + i) : linearScan m p name n i =
      ((List.range' i ((symTable m p).readable - i)).find? fun j =>
        (symTable m p).Named j ∧ (symTable m p).name j = name).map (symTable m p).entry := by
  induction n generalizing i with
  | zero =>
    rw [show (symTable m p).readable - i = 0 by omega]
    rfl
  | succ n ih =>
    rw [linearScan, getSymAt_run hw hi hle]
    by_cases hr : i < (symTable m p).readable
    · rw [if_pos hr, show (symTable m p).readable - i = (symTable m p).readable - (i + 1) + 1 by omega,
        List.range'_succ, List.find?_cons]
      dsimp only
      by_cases hf : (symTable m p).Named i ∧ (symTable m p).name i = name
      · rw [if_pos ⟨hf.1, (readSymName_entry hf.1).trans hf.2⟩, decide_eq_true hf]
        rfl
      · rw [if_neg fun h => hf ⟨h.1, (readSymName_entry h.1).symm.trans h.2⟩, decide_eq_false hf]
        exact ih (by omega) (by omega) (by omega)
    · rw [if_neg hr, show (symTable m p).readable - i = 0 by omega]
      rfl

/-- The names that are counted are names. -/
theorem count_named (t : SymTable) {k : Nat}
    (hk : ((computeNumNamedSymsRaw t.base t.size).run t.mem).toNat = k) :
    k ≤ t.readable ∧ ∀ i, 1 ≤ i → i ≤ k → t.Named i := by
  rcases SymTable.computeNumNamedSymsRaw_run t with ⟨N, hN, hrun⟩ | ⟨-, hrun⟩
  · have hle := NamedPrefix.le_readable hN
    have hkN : k ≤ N := by
      rw [← hk, hrun]
      split
      · rw [toNat_ofNat16]
        exact Nat.mod_le N _
      · exact Nat.zero_le N
    exact ⟨hkN.trans hle, fun i h1 h2 => hN.named i h1 (h2.trans hkN)⟩
  · rw [hrun] at hk
    obtain rfl : k = 0 := hk.symm
    exact ⟨Nat.zero_le _, fun i h1 h2 => by omega⟩

/-- Lookup answers with the entry that `search` names. -/
theorem lookup_search {host : Host} {name : List UInt8} {w : State}
    (hw : (symTable w.mem w.handle.pHeader).NamesEnd) (h0 : 0 ∉ name)
    (hc : w.handle.numNamedSyms = (computeNumNamedSyms w.handle.pHeader).run w.mem) :
    Answers host w.handle name (((symTable w.mem w.handle.pHeader).search name
      w.handle.numNamedSyms.toNat).map (symTable w.mem w.handle.pHeader).entry)
      (udynlinkLookupSymbol host name) w := by
  have hk : w.handle.numNamedSyms.toNat = ((computeNumNamedSymsRaw
      (symTable w.mem w.handle.pHeader).base (symTable w.mem w.handle.pHeader).size).run
        (symTable w.mem w.handle.pHeader).mem).toNat := congrArg UInt16.toNat hc
  obtain ⟨hle, hnamed⟩ := count_named _ hk.symm
  rw [SymTable.search]
  by_cases hpos : 0 < w.handle.numNamedSyms.toNat
  · rw [if_pos hpos]
    unfold Answers
    rw [lookup_binary hpos rfl]
    exact lookupBinary_answers hw h0 rfl hle hnamed (Nat.le_refl 1) (Nat.le_refl _)
  · have hz : w.handle.numNamedSyms = 0 := UInt16.toNat_inj.mp (Nat.eq_zero_of_not_pos hpos)
    have h1 : (1 : UInt32) = UInt32.ofNat 1 := rfl
    have hsmall := @readable_small w.mem w.handle.pHeader
    rw [if_neg hpos, SymTable.scan, ← linearScan_scan hw (Nat.le_refl 1) (Nat.le_add_left 1 _)
      (show _ < 2 ^ 32 + 1 by omega)]
    unfold Answers
    rw [lookup_linear hz, h1]
    generalize 2 ^ 32 = n
    exact lookupLinear_answers hw h0 rfl (Nat.le_refl 1) (Nat.le_add_left 1 _)

theorem count_eq {w : State}
    (hc : w.handle.numNamedSyms = (computeNumNamedSyms w.handle.pHeader).run w.mem) :
    w.handle.numNamedSyms = (computeNumNamedSymsRaw (symTable w.mem w.handle.pHeader).base
      (symTable w.mem w.handle.pHeader).size).run (symTable w.mem w.handle.pHeader).mem := hc

theorem readable_le_fuel {m : Mem} {p : Addr} (hw : (symTable m p).WellNamed) :
    (symTable m p).readable ≤ 2 ^ 32 :=
  (readable_lt hw).le.trans (Nat.pow_le_pow_right (by omega) (by omega))

theorem not_answersScan_of_overcounted {w : State}
    (hw : (symTable w.mem w.handle.pHeader).WellNamed)
    (hc : w.handle.numNamedSyms = (computeNumNamedSyms w.handle.pHeader).run w.mem)
    (ho : Overcounted (symTable w.mem w.handle.pHeader)) :
    ¬ ∀ host name, 0 ∉ name → AnswersScan host name w := by
  intro h
  obtain ⟨k, hk0, hkr, hnamed, hk⟩ := count_of_overcounted hw ho
  rw [← count_eq hc] at hk
  obtain ⟨name, h0, hno⟩ :=
    @not_answers_overcounted (.bump 0 fun _ => 0) w hw k (2 ^ 32) (readable_le_fuel hw) hkr hnamed
  exact hno ((answersScan_binary hk0 hk).mp (h _ name h0))

theorem answersScan_of_not_overcounted {w : State} {host : Host} {name : List UInt8}
    (hw : (symTable w.mem w.handle.pHeader).WellNamed)
    (hc : w.handle.numNamedSyms = (computeNumNamedSyms w.handle.pHeader).run w.mem)
    (ho : ¬ Overcounted (symTable w.mem w.handle.pHeader)) (h0 : 0 ∉ name) :
    AnswersScan host name w := by
  by_cases hz : w.handle.numNamedSyms = 0
  · exact answersScan_linear hw h0 hz
  · have hz' := hz
    rw [count_eq hc] at hz'
    obtain ⟨N, hN, hs, hk⟩ := searchable_of_count hw ho hz'
    rw [← count_eq hc] at hk
    have hpos : 0 < N := by
      apply Nat.pos_of_ne_zero
      intro h
      rw [h] at hk
      exact hz (UInt16.toNat_inj.mp hk)
    exact (answersScan_binary hpos hk).mpr (answers_searchable hw h0 (readable_le_fuel hw) hN hs)

/-- Lookup is the plain scan, except on an overcounted table. -/
theorem lookup_scan_iff (w : State) (hw : (symTable w.mem w.handle.pHeader).WellNamed)
    (hc : w.handle.numNamedSyms = (computeNumNamedSyms w.handle.pHeader).run w.mem) :
    (∀ host name, 0 ∉ name → AnswersScan host name w) ↔
      ¬ Overcounted (symTable w.mem w.handle.pHeader) :=
  ⟨fun h ho => not_answersScan_of_overcounted hw hc ho h,
    fun ho _ _ h0 => answersScan_of_not_overcounted hw hc ho h0⟩

/-! ## Tables with many names -/

theorem ofNat8_ne_zero {n : Nat} (h0 : 0 < n) (h : n < 256) : UInt8.ofNat n ≠ 0 := by
  intro he
  have h1 := congrArg UInt8.toNat he
  rw [UInt8.toNat_ofNat', Nat.mod_eq_of_lt h] at h1
  change n = 0 at h1
  omega

/-- The name of entry `i`, three digits and the terminator. -/
def nameWord (i : Nat) : Nat :=
  (i % 128 + 1) + 256 * (i / 128 % 128 + 1) + 65536 * (i / 16384 + 1)

/-- The words of an image with `N` exported functions: header, entries, names. -/
def namesImage (N k : Nat) : UInt32 :=
  if k = 0 then moduleSign
  else if k = 1 then loaderAbiVersion.toUInt32 <<< 16
  else if k = 4 then UInt32.ofNat (4 * (3 * N + 4))
  else if k < 8 then 0
  else if k = 8 then UInt32.ofNat (N + 1)
  else if k ≤ 2 * N + 10 then
    if k % 2 = 1 then UInt32.ofNat (134217728 * (if k = 9 then 3 else 1) + 4 * (2 * N + 3 + (k - 9) / 2))
    else 0
  else UInt32.ofNat (nameWord (k - (2 * N + 11)))

def namesMem (N : Nat) : Mem := fun a =>
  byteOf (namesImage N ((a - 0x1000).toNat / 4)) ((a - 0x1000).toNat % 4)

theorem namesMem_byte (N : Nat) {o : Nat} (ho : o < 2 ^ 32) :
    namesMem N (0x1000 + UInt32.ofNat o) = byteOf (namesImage N (o / 4)) (o % 4) := by
  rw [namesMem, off_sub, toNat_ofNat_of_lt ho]

theorem namesMem_u32 (N : Nat) {k : Nat} (hk : 4 * k + 4 ≤ 2 ^ 32) :
    (namesMem N).u32 (0x1000 + UInt32.ofNat (4 * k)) = namesImage N k := by
  have hb : (namesMem N).u32 (0x1000 + UInt32.ofNat (4 * k)) =
      (Mem.set32 (fun _ => 0) (0x1000 + UInt32.ofNat (4 * k)) (namesImage N k)).u32
        (0x1000 + UInt32.ofNat (4 * k)) := by
    apply u32_eq_of_bytes
    intro i hi
    rw [Mem.set32, store_off hi (by decide), off_off, namesMem_byte N (by omega)]
    rw [show (4 * k + i) / 4 = k by omega, show (4 * k + i) % 4 = i by omega]
  rw [hb, u32_set32_same]

theorem namesMem_symTable (N : Nat) : symTable (namesMem N) 0x1000 =
    ⟨namesMem N, 0x1020, UInt32.ofNat (4 * (3 * N + 4))⟩ := by
  have hsize : (decodeHeader (namesMem N) 0x1000).symtSize = UInt32.ofNat (4 * (3 * N + 4)) :=
    @namesMem_u32 N 4 (by decide)
  have hver : (decodeHeader (namesMem N) 0x1000).udynlinkVersion = loaderAbiVersion := by
    change UInt16.ofNat ((namesMem N (0x1000 + UInt32.ofNat 6)).toNat +
      256 * (namesMem N (0x1000 + UInt32.ofNat 7)).toNat) = _
    have hword : namesImage N 1 = 0x03010000 := by simp [namesImage]; decide
    rw [namesMem_byte N (by decide), namesMem_byte N (by decide), show namesImage N (6 / 4) = _ from hword]
    decide
  have hrels : (decodeHeader (namesMem N) 0x1000).numRels = 0 := by
    change UInt16.ofNat ((namesMem N (0x1000 + UInt32.ofNat 12)).toNat +
      256 * (namesMem N (0x1000 + UInt32.ofNat 13)).toNat) = _
    have hword : namesImage N 3 = 0 := by simp [namesImage]
    rw [namesMem_byte N (by decide), namesMem_byte N (by decide), show namesImage N (12 / 4) = _ from hword]
    decide
  unfold symTable getSymTablePointer getHeaderSize
  rw [hsize, hver, hrels]
  rfl

section

variable {N : Nat}

/-- The table of the image. -/
abbrev namesTable (N : Nat) : SymTable := ⟨namesMem N, 0x1020, UInt32.ofNat (4 * (3 * N + 4))⟩

theorem namesTable_word {k : Nat} (hk : k < 2 ^ 20) :
    (symtWord (namesTable N).base (UInt32.ofNat k)).run (namesTable N).mem =
      namesImage N (k + 8) := by
  have he : (0x1020 : UInt32) + UInt32.ofNat k * 4 = 0x1000 + UInt32.ofNat (4 * (k + 8)) := by
    rw [show 4 * (k + 8) = 32 + k * 4 by omega, UInt32.ofNat_add, UInt32.ofNat_mul,
      ← UInt32.add_assoc]
    rfl
  change (namesMem N).u32 ((0x1020 : UInt32) + UInt32.ofNat k * 4) = _
  rw [he, namesMem_u32 N (by omega)]

variable (hN : N < 2 ^ 18)

include hN

theorem namesTable_count : (namesTable N).count = N + 1 := by
  have h := @namesTable_word N 0 (by decide)
  change ((symtWord (namesTable N).base (UInt32.ofNat 0)).run (namesTable N).mem).toNat = _
  rw [h]
  exact toNat_ofNat_of_lt (by omega)

theorem namesTable_words : (namesTable N).words = 3 * N + 4 := by
  unfold SymTable.words
  rw [toNat_ofNat_of_lt (by omega)]
  omega

theorem namesTable_info {i : Nat} (hi : 1 ≤ i) (hiN : i ≤ N) :
    (namesTable N).info i = UInt32.ofNat (134217728 + 4 * (2 * N + 3 + i)) := by
  unfold SymTable.info
  rw [namesTable_word (by omega)]
  unfold namesImage
  rw [if_neg (by omega), if_neg (by omega), if_neg (by omega), if_neg (by omega),
    if_neg (by omega), if_pos (by omega), if_pos (by omega), if_neg (by omega)]
  congr 1
  omega

theorem namesTable_named {i : Nat} (hi : 1 ≤ i) (hiN : i ≤ N) : (namesTable N).Named i := by
  unfold SymTable.Named symTypeOf
  rw [namesTable_info hN hi hiN]
  intro h
  have h1 := congrArg UInt8.toNat h
  have hmask : symInfoTypeMask.toNat = 2 ^ 3 - 1 := rfl
  have hshift : symInfoShift.toNat % 32 = 27 := rfl
  rw [UInt32.toNat_toUInt8, UInt32.toNat_and, UInt32.toNat_shiftRight, hmask, hshift,
    Nat.and_two_pow_sub_one_eq_mod, toNat_ofNat_of_lt (by omega), Nat.shiftRight_eq_div_pow] at h1
  change _ = 0 at h1
  omega

theorem namesTable_nameOff {i : Nat} (hi : 1 ≤ i) (hiN : i ≤ N) :
    (namesTable N).nameOff i = UInt32.ofNat (4 * (2 * N + 3 + i)) := by
  unfold SymTable.nameOff
  rw [namesTable_info hN hi hiN]
  apply UInt32.toNat_inj.mp
  rw [UInt32.toNat_and, toNat_ofNat_of_lt (by omega), toNat_ofNat_of_lt (by omega)]
  have hmask : symOffsetMask.toNat = 2 ^ 27 - 1 := rfl
  rw [hmask, Nat.and_two_pow_sub_one_eq_mod]
  omega

/-- The name of entry `i`. -/
def nameBytes (i : Nat) : List UInt8 :=
  [UInt8.ofNat (i % 128 + 1), UInt8.ofNat (i / 128 % 128 + 1), UInt8.ofNat (i / 16384 + 1)]

theorem namesTable_byte {i k : Nat} (hi : 1 ≤ i) (hiN : i ≤ N) (hk : k < 4) :
    namesMem N ((namesTable N).base + (namesTable N).nameOff i + UInt32.ofNat k) =
      UInt8.ofNat (nameWord i / 256 ^ k) := by
  have he : (namesTable N).base + (namesTable N).nameOff i + UInt32.ofNat k =
      0x1000 + UInt32.ofNat (4 * (2 * N + 11 + i) + k) := by
    rw [namesTable_nameOff hN hi hiN, off_off,
      show 4 * (2 * N + 11 + i) + k = 32 + (4 * (2 * N + 3 + i) + k) by omega, UInt32.ofNat_add 32,
      ← UInt32.add_assoc]
    rfl
  rw [he, namesMem_byte N (by omega), show (4 * (2 * N + 11 + i) + k) / 4 = 2 * N + 11 + i by omega,
    show (4 * (2 * N + 11 + i) + k) % 4 = k by omega]
  unfold namesImage
  rw [if_neg (by omega), if_neg (by omega), if_neg (by omega), if_neg (by omega),
    if_neg (by omega), if_neg (by omega), byteOf, toNat_ofNat_of_lt]
  · rw [show 2 * N + 11 + i - (2 * N + 11) = i by omega]
  · unfold nameWord
    omega

theorem namesTable_string {i : Nat} (hi : 1 ≤ i) (hiN : i ≤ N) :
    StrAt (namesMem N) ((namesTable N).base + (namesTable N).nameOff i) (nameBytes i) := by
  have hb : ∀ k d n, k < 4 → d = 256 ^ k → nameWord i / d % 256 = n →
      namesMem N ((namesTable N).base + (namesTable N).nameOff i + UInt32.ofNat k) =
        UInt8.ofNat n := by
    intro k d n hk hd hn
    rw [namesTable_byte hN hi hiN hk, ← hn, hd]
    apply UInt8.toNat_inj.mp
    rw [UInt8.toNat_ofNat', UInt8.toNat_ofNat']
    omega
  have h0 := hb 0 1 (i % 128 + 1) (by omega) (by norm_num) (by unfold nameWord; omega)
  have h1 := hb 1 256 (i / 128 % 128 + 1) (by omega) (by norm_num) (by unfold nameWord; omega)
  have h2 := hb 2 65536 (i / 16384 + 1) (by omega) (by norm_num) (by unfold nameWord; omega)
  have hlt : nameWord i < 16777216 := by
    unfold nameWord
    omega
  have h3 := hb 3 16777216 0 (by omega) (by norm_num) (by rw [Nat.div_eq_of_lt hlt])
  rw [off_zero] at h0
  rw [show (UInt32.ofNat 1) = 1 from rfl] at h1
  rw [show (UInt32.ofNat 2) = 1 + 1 from rfl, ← UInt32.add_assoc] at h2
  rw [show (UInt32.ofNat 3) = 1 + (1 + 1) from rfl, ← UInt32.add_assoc, ← UInt32.add_assoc] at h3
  have z0 : UInt8.ofNat (i % 128 + 1) ≠ 0 := ofNat8_ne_zero (by omega) (by omega)
  have z1 : UInt8.ofNat (i / 128 % 128 + 1) ≠ 0 := ofNat8_ne_zero (by omega) (by omega)
  have z2 : UInt8.ofNat (i / 16384 + 1) ≠ 0 := ofNat8_ne_zero (by omega) (by omega)
  exact ⟨⟨h0, z0⟩, ⟨h1, z1⟩, ⟨h2, z2⟩, h3⟩

theorem namesTable_name {i : Nat} (hi : 1 ≤ i) (hiN : i ≤ N) :
    (namesTable N).name i = nameBytes i := by
  have hlen : (nameBytes i).length < 2 ^ 32 := by
    change 3 < _
    omega
  exact run_cstr (namesTable_string hN hi hiN) hlen

theorem namesTable_readable (h1 : 1 ≤ N) : (namesTable N).readable = N + 1 := by
  unfold SymTable.readable
  rw [namesTable_count hN, namesTable_words hN]
  omega

theorem namesTable_wellNamed (h1 : 1 ≤ N) : (namesTable N).WellNamed where
  cap := by
    have hm : maxImageSize.toNat = 4194304 := rfl
    rw [toNat_ofNat_of_lt (by omega), hm]
    omega
  inside i hi hr _ := by
    rw [namesTable_readable hN h1] at hr
    rw [namesTable_name hN hi (by omega), namesTable_nameOff hN hi (by omega),
      toNat_ofNat_of_lt (by omega), toNat_ofNat_of_lt (by omega)]
    have hs := namesTable_string hN hi (show i ≤ N by omega)
    rw [namesTable_nameOff hN hi (by omega)] at hs
    refine ⟨hs, ?_⟩
    change _ + 3 < _
    omega
  distinct i j hi hir _ hj hjr _ he := by
    rw [namesTable_readable hN h1] at hir hjr
    rw [namesTable_name hN hi (by omega), namesTable_name hN hj (by omega)] at he
    unfold nameBytes at he
    injection he with e0 he
    injection he with e1 he
    injection he with e2 he
    have t0 := congrArg UInt8.toNat e0
    have t1 := congrArg UInt8.toNat e1
    have t2 := congrArg UInt8.toNat e2
    rw [UInt8.toNat_ofNat', UInt8.toNat_ofNat'] at t0 t1 t2
    omega

theorem namesTable_upTo (h1 : 1 ≤ N) : (namesTable N).NamedPrefix N := by
  have hs : (namesTable N).scanned = N + 1 := by
    unfold SymTable.scanned
    rw [namesTable_count hN, namesTable_words hN]
    omega
  exact ⟨Or.inr (by omega), fun i h1 h2 => namesTable_named hN h1 h2, fun i h1 h2 => by omega⟩

end

/-- The image, loaded in place, with the count the loader stores. -/
def namesState (N : Nat) : State where
  mem := namesMem N
  handle := ⟨0x1000, 0x20000000, LoadMode.xip.bits, (computeNumNamedSyms 0x1000).run (namesMem N), 0⟩
  trace := []

theorem namesState_count (N : Nat) : (namesState N).handle.numNamedSyms =
    (computeNumNamedSyms (namesState N).handle.pHeader).run (namesState N).mem := rfl

theorem namesState_wellNamed {N : Nat} (h1 : 1 ≤ N) (hN : N < 2 ^ 18) :
    (symTable (namesState N).mem (namesState N).handle.pHeader).WellNamed := by
  change (symTable (namesMem N) 0x1000).WellNamed
  rw [namesMem_symTable]
  exact namesTable_wellNamed hN h1

theorem lookup_scan_two :
    (∀ host name, 0 ∉ name → AnswersScan host name (namesState 2)) ↔
      ¬ Overcounted (symTable (namesMem 2) 0x1000) := by
  exact lookup_scan_iff (namesState 2) (namesState_wellNamed (by decide) (by decide))
    (namesState_count 2)

/-- 65537 functions: only the first one is found. -/
theorem lookup_not_scan : ¬ ∀ host name, 0 ∉ name → AnswersScan host name (namesState 65537) := by
  apply not_answersScan_of_overcounted (namesState_wellNamed (by decide) (by decide))
    (namesState_count 65537)
  change Overcounted (symTable (namesMem 65537) 0x1000)
  rw [namesMem_symTable]
  have hp := @namesTable_upTo 65537 (by decide) (by decide)
  exact ⟨65537, hp, by decide, by decide, fun i h1 h2 => by omega⟩

end Udynlink
