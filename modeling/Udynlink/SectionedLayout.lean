import Udynlink.SectionedPlace

/-!
# Where a sectioned load puts things

LOT, base array, copied metadata and main sections follow one another in the
block, and every tagged section has a block of its own: no two transfers of the
stage overlap, and what it reads is where no transfer goes.
-/

namespace Udynlink

open Machine

/-! ## Offsets in the block -/

section

variable {h : Header} {num : Nat} {es : Nat → SectEntry} {mode : LoadMode}

/-- The next section follows, rounded up to its own alignment. -/
theorem exactMainOffset_succ {i : Nat} (hi : firstPlaced mode ≤ i) :
    exactMainOffset h num es mode (i + 1) =
      exactAlignUp (exactMainOffset h num es mode i + (es i).size.toNat)
        (es (i + 1)).align.toNat := by
  rw [exactMainOffset, exactMainOffset, placedAt, show i + 1 - firstPlaced mode =
    i - firstPlaced mode + 1 by omega, placedEnd_succ,
    show firstPlaced mode + (i - firstPlaced mode) = i by omega,
    show firstPlaced mode + (i - firstPlaced mode + 1) = i + 1 by omega]

theorem exactMainOffset_first :
    exactMainOffset h num es mode (firstPlaced mode) =
      exactAlignUp (exactStart h num mode) (es (firstPlaced mode)).align.toNat := by
  rw [exactMainOffset, placedAt, Nat.sub_self, placedEnd, Nat.add_zero]

/-- The block ends with `.bss`. -/
theorem exactRamSections_eq (h : Header) (num : Nat) (es : Nat → SectEntry) (mode : LoadMode) :
    exactRamSections h num es mode = exactMainOffset h num es mode 2 + (es 2).size.toNat := by
  have hf : firstPlaced mode ≤ 1 := by
    rw [firstPlaced]
    split <;> decide
  rw [exactRamSections, show 3 - firstPlaced mode = 2 - firstPlaced mode + 1 by omega,
    placedEnd_succ, show firstPlaced mode + (2 - firstPlaced mode) = 2 by omega, exactMainOffset]

theorem firstPlaced_le (mode : LoadMode) : firstPlaced mode ≤ 1 := by
  rw [firstPlaced]
  split <;> decide

/-- A table with its three main sections, and a block size that has not wrapped. -/
structure SectionedFits (h : Header) (num : Nat) (es : Nat → SectEntry) (mode : LoadMode) :
    Prop where
  table : TableOk h num es
  main : 3 ≤ num
  ram : exactRamSections h num es mode < 2 ^ 32

namespace SectionedFits

variable (hf : SectionedFits h num es mode)

include hf

theorem start_le {i : Nat} (hi : firstPlaced mode ≤ i) (h3 : i < 3) :
    exactStart h num mode ≤ exactMainOffset h num es mode i := by
  have hnum := hf.main
  induction i, hi using Nat.le_induction with
  | base =>
    rw [exactMainOffset_first]
    exact le_exactAlignUp (hf.table.align_isPowerOfTwo (by omega)).1
  | succ i hi ih =>
    have hle := le_exactAlignUp (x := exactMainOffset h num es mode i + (es i).size.toNat)
      (hf.table.align_isPowerOfTwo (i := i + 1) (by omega)).1
    have hprev := ih (by omega)
    rw [exactMainOffset_succ hi]
    omega

/-- Every main section starts at a multiple of its own alignment. -/
theorem dvd_mainOffset {i : Nat} (hi : firstPlaced mode ≤ i) (h3 : i < 3) :
    (es i).align.toNat ∣ exactMainOffset h num es mode i := by
  have hnum := hf.main
  cases Nat.eq_or_lt_of_le hi with
  | inl he =>
    rw [← he, exactMainOffset_first]
    exact dvd_exactAlignUp (hf.table.align_isPowerOfTwo (by omega)).1
  | inr hlt =>
    obtain ⟨j, rfl⟩ := Nat.exists_eq_add_of_le' (Nat.zero_lt_of_lt hlt)
    rw [exactMainOffset_succ (by omega)]
    exact dvd_exactAlignUp (hf.table.align_isPowerOfTwo (by omega)).1

theorem main_le_succ {i : Nat} (hi : firstPlaced mode ≤ i) (h3 : i + 1 < 3) :
    exactMainOffset h num es mode i + (es i).size.toNat ≤ exactMainOffset h num es mode (i + 1) := by
  have hnum := hf.main
  rw [exactMainOffset_succ hi]
  exact le_exactAlignUp (hf.table.align_isPowerOfTwo (by omega)).1

/-- Every main section in RAM ends inside the block. -/
theorem main_le_ram {i : Nat} (hi : firstPlaced mode ≤ i) (h3 : i < 3) :
    exactMainOffset h num es mode i + (es i).size.toNat ≤ exactRamSections h num es mode := by
  have hfirst := firstPlaced_le mode
  have h1 : exactMainOffset h num es mode 1 + (es 1).size.toNat ≤
    exactMainOffset h num es mode 2 := hf.main_le_succ hfirst (by omega)
  have hram := exactRamSections_eq h num es mode
  match i, h3 with
  | 0, _ =>
    have h0 : exactMainOffset h num es mode 0 + (es 0).size.toNat ≤
      exactMainOffset h num es mode 1 := hf.main_le_succ hi (by omega)
    rw [hram]
    omega
  | 1, _ =>
    rw [hram]
    omega
  | 2, _ => exact hram.ge

theorem start_le_ram : exactStart h num mode ≤ exactRamSections h num es mode := by
  have hle := hf.main_le_ram (i := 2) (by have := firstPlaced_le mode; omega) (by omega)
  have hs := hf.start_le (i := 2) (by have := firstPlaced_le mode; omega) (by omega)
  omega

end SectionedFits

theorem bases_le_start (h : Header) (num : Nat) (mode : LoadMode) :
    4 * h.numLot.toNat + 4 * (num - 3) ≤ exactStart h num mode := Nat.le_add_right _ _

/-! ## The transfers into the block -/

variable {image : Image} {p : Addr}

theorem mainBlits_laid (image : Image) (p : Addr) (hf : SectionedFits h num es mode) :
    Blit.Laid p (4 * h.numLot.toNat + 4 * (num - 3))
      (exactMainOffset h num es mode 1 + (es 1).size.toNat) (mainBlits image h num es mode p) := by
  have h1 (hi : firstPlaced mode ≤ 0) : exactMainOffset h num es mode 0 + (es 1).va.toNat ≤
      exactMainOffset h num es mode 1 := by
    rw [← hf.table.text_size]
    exact hf.main_le_succ hi (by omega)
  have hs1 := hf.start_le (i := 1) (firstPlaced_le mode) (by omega)
  have hb := bases_le_start h num mode
  cases mode with
  | xip => exact ⟨_, rfl, by omega, Nat.le_refl _⟩
  | copyTextData =>
    have h0 := h1 (by decide)
    have hs0 := hf.start_le (i := 0) (by decide) (by omega)
    exact ⟨_, rfl, by omega, _, rfl, h0, Nat.le_refl _⟩
  | copyAll =>
    have h0 := h1 (by decide)
    have hs0 := hf.start_le (i := 0) (by decide) (by omega)
    refine ⟨_, rfl, Nat.le_refl _, _, rfl, ?_, _, rfl, h0, Nat.le_refl _⟩
    rw [exactStart, if_pos rfl] at hs0
    exact hs0

theorem bssBlit_laid (hf : SectionedFits h num es mode) :
    Blit.Laid p (exactMainOffset h num es mode 1 + (es 1).size.toNat)
      (exactRamSections h num es mode) [bssBlit h num es mode p] := by
  refine ⟨_, rfl, hf.main_le_succ (firstPlaced_le mode) (by omega), ?_⟩
  rw [exactRamSections_eq]
  exact Nat.le_refl _

/-! ## No two transfers overlap -/

variable {secs : Nat → Addr}

theorem taggedBlits_mem {n k : Nat} {off : UInt32} {b : Blit}
    (hb : b ∈ taggedBlits image h es p secs n k off) :
    ∃ j, k ≤ j ∧ j < k + n ∧ (es j).size ≠ 0 ∧
      (b = .word (baseWord h p j) (secs j) ∨ b.span = ⟨secs j, (es j).size.toNat⟩) := by
  induction n generalizing k off with
  | zero => exact absurd hb List.not_mem_nil
  | succ n ih =>
    rw [taggedBlits] at hb
    split at hb
    next =>
      obtain ⟨j, hj, hj', hne, hx⟩ := ih hb
      exact ⟨j, by omega, by omega, hne, hx⟩
    next hsz =>
      cases List.mem_cons.mp hb with
      | inl he => exact ⟨k, Nat.le_refl k, by omega, hsz, Or.inl he⟩
      | inr hb =>
        cases List.mem_cons.mp hb with
        | inl he => exact ⟨k, Nat.le_refl k, by omega, hsz, Or.inr (by rw [he, taggedBlit_span])⟩
        | inr hb =>
          obtain ⟨j, hj, hj', hne, hx⟩ := ih hb
          exact ⟨j, by omega, by omega, hne, hx⟩

theorem word_mem_taggedBlits {n k : Nat} {off : UInt32} {j : Nat} (hj : k ≤ j) (hj' : j < k + n)
    (hne : (es j).size ≠ 0) :
    Blit.word (baseWord h p j) (secs j) ∈ taggedBlits image h es p secs n k off := by
  induction n generalizing k off with
  | zero => exact absurd hj' (by omega)
  | succ n ih =>
    rw [taggedBlits]
    split
    next hsz =>
      refine ih ?_ (by omega)
      cases Nat.eq_or_lt_of_le hj with
      | inl he => exact absurd (he ▸ hsz) hne
      | inr hlt => exact hlt
    next =>
      cases Nat.eq_or_lt_of_le hj with
      | inl he =>
        rw [he]
        exact List.mem_cons_self
      | inr hlt =>
        exact List.mem_cons_of_mem _ (List.mem_cons_of_mem _ (ih hlt (by omega)))

theorem mem_taggedSpans {n k j : Nat} (hj : k ≤ j) (hj' : j < k + n) (hne : (es j).size ≠ 0) :
    (⟨secs j, (es j).size.toNat⟩ : Span) ∈ taggedSpans es secs n k := by
  induction n generalizing k with
  | zero => exact absurd hj' (by omega)
  | succ n ih =>
    rw [taggedSpans]
    split
    next hsz =>
      refine ih ?_ (by omega)
      cases Nat.eq_or_lt_of_le hj with
      | inl he => exact absurd (he ▸ hsz) hne
      | inr hlt => exact hlt
    next =>
      cases Nat.eq_or_lt_of_le hj with
      | inl he =>
        rw [he]
        exact List.mem_cons_self
      | inr hlt => exact List.mem_cons_of_mem _ (ih hlt (by omega))

/-- The blocks of the tagged sections, apart from each other and from the main one. -/
structure TaggedRoom (es : Nat → SectEntry) (secs : Nat → Addr) (num : Nat) (block : Span) :
    Prop where
  pairwise : ∀ i j, 3 ≤ i → i < j → j < num → (es i).size ≠ 0 → (es j).size ≠ 0 →
    Span.Disjoint ⟨secs i, (es i).size.toNat⟩ ⟨secs j, (es j).size.toNat⟩
  block : ∀ j, 3 ≤ j → j < num → (es j).size ≠ 0 →
    Span.Disjoint ⟨secs j, (es j).size.toNat⟩ block

theorem taggedSpans_pairwise {n k : Nat} (hp : (taggedSpans es secs n k).Pairwise Span.Disjoint)
    {i j : Nat} (hi : k ≤ i) (hij : i < j) (hj : j < k + n) (hni : (es i).size ≠ 0)
    (hnj : (es j).size ≠ 0) :
    Span.Disjoint ⟨secs i, (es i).size.toNat⟩ ⟨secs j, (es j).size.toNat⟩ := by
  induction n generalizing k with
  | zero => exact absurd hj (by omega)
  | succ n ih =>
    rw [taggedSpans] at hp
    split at hp
    next hsz =>
      refine ih hp ?_ (by omega)
      cases Nat.eq_or_lt_of_le hi with
      | inl he => exact absurd (he ▸ hsz) hni
      | inr hlt => exact hlt
    next =>
      obtain ⟨hhead, hrest⟩ := List.pairwise_cons.mp hp
      cases Nat.eq_or_lt_of_le hi with
      | inl he =>
        rw [← he]
        exact hhead _ (mem_taggedSpans (by omega) (by omega) hnj)
      | inr hlt => exact ih hrest hlt (by omega)

/-- A slot of the base array lies behind the LOT and in front of the main sections. -/
theorem baseWord_subset {j : Nat} (hj : 3 ≤ j) (hn : j < num)
    (hs : 4 * h.numLot.toNat + 4 * (num - 3) ≤ 2 ^ 32) :
    (⟨baseWord h p j, 4⟩ : Span) ⊆ ⟨p, 4 * h.numLot.toNat + 4 * (num - 3)⟩ :=
  off_subset (by omega) hs

theorem baseWord_disjoint {i j : Nat} (hi : 3 ≤ i) (hij : i < j) (hn : j < num)
    (hs : 4 * h.numLot.toNat + 4 * (num - 3) ≤ 2 ^ 32) :
    (⟨baseWord h p i, 4⟩ : Span).Disjoint ⟨baseWord h p j, 4⟩ :=
  off_disjoint (by omega) (by omega)

theorem taggedBlits_pairwise {ram : Nat} (hroom : TaggedRoom es secs num ⟨p, ram⟩)
    (hs : 4 * h.numLot.toNat + 4 * (num - 3) ≤ ram) (hram : ram ≤ 2 ^ 32) {n k : Nat}
    {off : UInt32} (hk : 3 ≤ k) (hn : k + n ≤ num) :
    (taggedBlits image h es p secs n k off).Pairwise fun b c => b.span.Disjoint c.span := by
  induction n generalizing k off with
  | zero => exact List.Pairwise.nil
  | succ n ih =>
    rw [taggedBlits]
    split
    next => exact ih (by omega) (by omega)
    next hsz =>
      have hword : ∀ j, 3 ≤ j → j < num → (⟨baseWord h p j, 4⟩ : Span) ⊆ ⟨p, ram⟩ :=
        fun j hj hj' => Span.subset_trans (baseWord_subset hj hj' (by omega)) (prefix_subset hs)
      have hbase : ∀ j, 3 ≤ j → j < num → (es j).size ≠ 0 → ∀ i, 3 ≤ i → i < num →
          Span.Disjoint ⟨secs j, (es j).size.toNat⟩ ⟨baseWord h p i, 4⟩ :=
        fun j hj hj' hne i hi hi' =>
          (hroom.block j hj hj' hne).mono (Span.subset_refl _) (hword i hi hi')
      refine List.pairwise_cons.mpr ⟨fun c hc => ?_, List.pairwise_cons.mpr ⟨fun c hc => ?_,
        ih (by omega) (by omega)⟩⟩
      · change Span.Disjoint ⟨baseWord h p k, 4⟩ c.span
        cases List.mem_cons.mp hc with
        | inl he =>
          rw [he, taggedBlit_span]
          exact (hbase k hk (by omega) hsz k hk (by omega)).symm
        | inr hc =>
          obtain ⟨j, hj, hj', hne, hx⟩ := taggedBlits_mem hc
          cases hx with
          | inl he =>
            rw [he]
            exact baseWord_disjoint hk (by omega) (by omega : j < num) (by omega)
          | inr he =>
            rw [he]
            exact (hbase j (by omega) (by omega) hne k hk (by omega)).symm
      · rw [taggedBlit_span]
        obtain ⟨j, hj, hj', hne, hx⟩ := taggedBlits_mem hc
        cases hx with
        | inl he =>
          rw [he]
          exact hbase k hk (by omega) hsz j (by omega) (by omega)
        | inr he =>
          rw [he]
          exact hroom.pairwise k j hk (by omega) (by omega) hsz hne

def placeBlits (image : Image) (h : Header) (num : Nat) (es : Nat → SectEntry) (mode : LoadMode)
    (p : Addr) (secs : Nat → Addr) : List Blit :=
  mainBlits image h num es mode p ++
    (taggedBlits image h es p secs (num - 3) 3 ((es 1).va + h.dataSize) ++
      [bssBlit h num es mode p])

/-- A transfer of the stage fills a piece of the block behind the base array, a
slot of the base array or a block of its own. -/
theorem placeBlits_mem (hf : SectionedFits h num es mode) {b : Blit}
    (hb : b ∈ placeBlits image h num es mode p secs) :
    (∃ k, b.dst = p + UInt32.ofNat k ∧ 4 * h.numLot.toNat + 4 * (num - 3) ≤ k ∧
        k + b.len ≤ exactRamSections h num es mode) ∨
      ∃ j, 3 ≤ j ∧ j < num ∧ (es j).size ≠ 0 ∧
        (b = .word (baseWord h p j) (secs j) ∨ b.span = ⟨secs j, (es j).size.toNat⟩) := by
  have hmain := mainBlits_laid image p hf
  have hbss := bssBlit_laid (p := p) hf
  rw [placeBlits, List.mem_append, List.mem_append] at hb
  cases hb with
  | inl hb =>
    obtain ⟨k, hd, hk, hle⟩ := hmain.mem hb
    have hr := hbss.le
    exact Or.inl ⟨k, hd, hk, by omega⟩
  | inr hb =>
    cases hb with
    | inl hb =>
      obtain ⟨j, hj, hj', hx⟩ := taggedBlits_mem hb
      exact Or.inr ⟨j, hj, by omega, hx⟩
    | inr hb =>
      obtain ⟨k, hd, hk, hle⟩ := hbss.mem hb
      have hr := hmain.le
      exact Or.inl ⟨k, hd, by omega, hle⟩

theorem placeBlits_pairwise (image : Image) (hf : SectionedFits h num es mode)
    (hroom : TaggedRoom es secs num ⟨p, exactRamSections h num es mode⟩) :
    (placeBlits image h num es mode p secs).Pairwise fun b c => b.span.Disjoint c.span := by
  have hram := hf.ram
  have hs : 4 * h.numLot.toNat + 4 * (num - 3) ≤ exactRamSections h num es mode :=
    (bases_le_start h num mode).trans hf.start_le_ram
  have hmain := mainBlits_laid image p hf
  have hbss := bssBlit_laid (p := p) hf
  -- a piece of the block behind the base array and a transfer of the tagged loop
  have hcross : ∀ (b : Blit) (k : Nat), b.dst = p + UInt32.ofNat k →
      4 * h.numLot.toNat + 4 * (num - 3) ≤ k → k + b.len ≤ exactRamSections h num es mode →
      ∀ c ∈ taggedBlits image h es p secs (num - 3) 3 ((es 1).va + h.dataSize),
        b.span.Disjoint c.span := by
    intro b k hd hk hle c hc
    obtain ⟨j, hj, hj', hne, hx⟩ := taggedBlits_mem hc
    cases hx with
    | inl he =>
      rw [he, Blit.span, hd]
      exact (off_disjoint (k := 4 * h.numLot.toNat + 4 * (j - 3)) (n := 4) (by omega)
        (by omega)).symm
    | inr he =>
      rw [he, Blit.span, hd]
      exact ((hroom.block j hj (by omega) hne).mono (Span.subset_refl _)
        (off_subset hle (by omega))).symm
  rw [placeBlits, List.pairwise_append, List.pairwise_append]
  refine ⟨hmain.pairwise (by have := hbss.le; omega),
    ⟨taggedBlits_pairwise hroom hs (by omega) (by omega) (by have := hf.main; omega),
      List.pairwise_singleton _ _, fun c hc b hb => ?_⟩, fun b hb c hc => ?_⟩
  · obtain ⟨k, hd, hk, hle⟩ := hbss.mem hb
    exact (hcross b k hd (by have := hmain.le; omega) hle c hc).symm
  · obtain ⟨k, hd, hk, hle⟩ := hmain.mem hb
    cases List.mem_append.mp hc with
    | inl hc => exact hcross b k hd hk (by have := hbss.le; omega) c hc
    | inr hc =>
      obtain ⟨k', hd', hk', hle'⟩ := hbss.mem hc
      rw [Blit.span, Blit.span, hd, hd']
      exact off_disjoint (by omega) (by omega)

end

end Udynlink
