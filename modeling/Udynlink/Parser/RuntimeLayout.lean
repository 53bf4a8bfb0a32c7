import Udynlink.Lifecycle
import Udynlink.Parser.ImageSize
import Udynlink.RuntimeVas
import Udynlink.SectionSpans

/-!
# The layout of a module, as the tool computes it

The parser's `RuntimeLayout` says where the sections of a module are once it is
loaded, from the image and the addresses of the blocks alone. On an image that the
loader accepts it is the layout of the module, after the load and behind every move.
-/

namespace Udynlink.Parser

open Machine

namespace ImageSection

def isMain (s : ImageSection) : Bool := (s.flags &&& secFlagMain) ≠ 0

/-- `flags & ~SEC_FLAG_MAIN & ~SEC_FLAG_RESERVED_MASK` -/
def hostFlags (s : ImageSection) : Nat := (s.flags.ldiff secFlagMain).ldiff secFlagReservedMask

def containsVa (s : ImageSection) (va : Nat) : Bool := s.va ≤ va ∧ va < s.va + s.size

end ImageSection

def ModuleImage.findSectionByVa (img : ModuleImage) (va : Nat) : Option ImageSection :=
  if img.header.hasSections then img.sections.find? fun s => s.containsVa va else none

/-- The arguments of one call of the allocator, without a section for the main block. -/
structure AllocationCall where
  size : Nat
  sect : Option Str
  align : Nat
  flags : Nat
deriving DecidableEq, Repr

structure RuntimeLayout where
  image : ModuleImage
  mode : LoadMode
  ramBase : Nat
  sectionBases : Nat → Option Nat

namespace RuntimeLayout

variable (lay : RuntimeLayout)

def mainSections : List ImageSection := lay.image.sections.filter fun s => s.isMain

def nonmainSections : List ImageSection := lay.image.sections.filter fun s => !s.isMain

def nonmainBasesSize : Nat := 4 * lay.nonmainSections.length

/-- `max(…, default=4)` -/
def mainAlign : Nat := (lay.mainSections.map fun s => s.align).max?.getD 4

/-- The loop of `_main_block_walk`; a missing base and a base `None` are not told apart. -/
def mainBlockLoop : List ImageSection → Nat → (Nat → Option Nat) → (Nat → Option Nat) × Nat
  | [], off, bases => (bases, off)
  | sec :: rest, off, bases =>
    if lay.mode = .xip ∧ sec.index = 0 ∧ sec.cls = secClassCode then
      -- the main text executes in the image
      mainBlockLoop rest off (Function.update bases sec.index none)
    else
      let off := alignUp off sec.align
      mainBlockLoop rest (off + sec.size)
        (Function.update bases sec.index (some (lay.ramBase + off)))

def mainBlockWalk : (Nat → Option Nat) × Nat :=
  let off := lay.image.header.numLot * 4 + lay.nonmainBasesSize
  let off := if lay.mode = .copyAll then off + lay.image.codeOffset else off
  lay.mainBlockLoop lay.mainSections off fun _ => none

def mainBases : Nat → Option Nat := lay.mainBlockWalk.1

def ramSize : Nat := lay.mainBlockWalk.2

/-- `_section_base` -/
def sectionBase (sec : ImageSection) : Option Nat :=
  if sec.isMain then lay.mainBases sec.index else lay.sectionBases sec.index

def runtimeAddress (va : Nat) : Option Nat :=
  match lay.image.findSectionByVa va with
  | none => none
  | some sec => (lay.sectionBase sec).map fun base => base + (va - sec.va)

def allocationPlan : List AllocationCall :=
  ⟨lay.ramSize, none, lay.mainAlign, 0⟩ ::
    lay.nonmainSections.map fun sec => ⟨sec.size, sec.name, sec.align, sec.hostFlags⟩

end RuntimeLayout

/-! ## The image in both -/

/-- The entry of index `j` in both. -/
structure EntryAt (es : Nat → SectEntry) (e : ImageSection) (j : Nat) : Prop where
  index : e.index = j
  same : SameEntry e (es j)

/-- An image as the parser has it, of which the loader has the header and the table. -/
structure SameImage (img : ModuleImage) (h : Header) (num : Nat) (es : Nat → SectEntry) : Prop where
  header : SameHeader img.header h
  codeOffset : img.codeOffset = exactCodeOffset h
  entries : num ≠ 0 → List.Forall₂ (EntryAt es) img.sections (List.range' 0 num)
  synthesized : num = 0 → img.sections = synthesizedSections img.header

theorem except_bind_ok {ε α β : Type} {x : Except ε α} {f : α → Except ε β} {b : β} :
    (x >>= f) = .ok b ↔ ∃ a, x = .ok a ∧ f a = .ok b := by
  cases x with
  | error e => simp [bind, Except.bind]
  | ok a => simp [bind, Except.bind]

theorem checkLength_ok {need len : Nat} {u : Unit} (h : checkLength need len = .ok u) :
    need ≤ len := by
  rw [checkLength] at h
  split at h
  next => simp at h
  next hlt => exact Nat.not_lt.mp hlt

/-- A parsed image has all of its metadata. -/
theorem parse_present {data : Bytes} {img : ModuleImage} (h : parseModule data true = .ok img) :
    headerSizeBytes ≤ data.length ∧ (ModuleHeader.ofBytes data).codeOffset ≤ data.length := by
  simp only [parseModule, except_bind_ok] at h
  obtain ⟨⟨⟩, hlen, header, hheader, -, -, -, -, -, -, -, -, -, -, sections, -, ⟨⟩, hpay, -⟩ := h
  have hle := checkLength_ok hpay
  have hshort : headerSizeBytes ≤ data.length := by
    rw [checkHeaderLength] at hlen
    split at hlen
    next => simp at hlen
    next hlt => exact Nat.not_lt.mp hlt
  rw [ModuleHeader.unpack, if_neg (Nat.not_lt.mpr hshort), Except.ok.injEq] at hheader
  rw [← hheader] at hle
  exact ⟨hshort, by omega⟩

theorem HasBytes.tableAt {m : Mem} {p : Addr} {data symtabBytes : Bytes} {symtSize off : Nat}
    (hb : HasBytes m p data) (n : Nat) {i : Nat}
    (h : off + (i + n) * sectionEntrySize ≤ data.length) :
    List.Forall₂ (EntryAt (entriesAt m (p + UInt32.ofNat off)))
      (tableFrom data symtabBytes symtSize off n i) (List.range' i n) := by
  rw [sectionEntrySize] at h
  induction n generalizing i with
  | zero => exact List.Forall₂.nil
  | succ n ih =>
    rw [List.range'_succ]
    refine List.Forall₂.cons ⟨rfl, ?_⟩ (ih (by omega))
    have he : SameEntry (entryOf data symtabBytes symtSize i (off + i * sectionEntrySize))
        (decodeEntry m (p + UInt32.ofNat (off + i * sectionEntrySize))) :=
      hb.entry (by rw [sectionEntrySize]; omega)
    rw [entriesAt, off_off, show 24 * i = i * sectionEntrySize from Nat.mul_comm 24 i]
    exact he

/-- What the parser has of an accepted image. -/
theorem sameImage_of_accepted {m : Mem} {base : Addr} {tab : SectView} {data : Bytes}
    {img : ModuleImage} (h : AcceptedAt m base tab) (hb : HasBytes m base data)
    (hp : parseModule data true = .ok img) :
    SameImage img (decodeHeader m base) tab.num (entriesAt m tab.pEntries) ∧
      img.header = ModuleHeader.ofBytes data ∧ img.sections = sectionsOf data := by
  obtain ⟨h32, hcode⟩ := parse_present hp
  obtain ⟨hsize, hflags⟩ := checkHeader_of_parse hp h32
  have hs : SameHeader (ModuleHeader.ofBytes data) (decodeHeader m base) := hb.header h32
  obtain ⟨hnum, hcount, hpos⟩ := numSections_accepted h.sectab hs
  obtain ⟨-, hsectab, hoff⟩ := hs.offsets hnum
  have hlen : exactCodeOffset (decodeHeader m base) ≤ data.length := hoff ▸ hcode
  have hmask : (decodeHeader m base).flags &&& 0xFF00 = 0 := by
    rw [← UInt16.toNat_inj, UInt16.toNat_and, ← hs.flags]
    exact hflags
  obtain ⟨hr, -, -⟩ := h.readable hb hlen hmask
  obtain ⟨rels, symbols, sectab, hparsed, -, -⟩ := hr.parsed hsize
  rw [hp] at hparsed
  obtain ⟨-, -, himg⟩ := except_bind_ok.mp hparsed.symm
  rw [Except.ok.injEq] at himg
  have hheader : img.header = ModuleHeader.ofBytes data := by rw [← himg]; rfl
  have hsections : img.sections = sectionsOf data := by rw [← himg]; rfl
  refine ⟨⟨hheader ▸ hs, by rw [← himg]; exact hoff, fun hn => ?_, fun hn => ?_⟩, hheader,
    hsections⟩
  · have hsec : (ModuleHeader.ofBytes data).hasSections = true :=
      hs.hasSections.trans (h.table hn).sectioned
    have hview : tab.pEntries = base + UInt32.ofNat (exactSymtabEnd (decodeHeader m base)) := by
      rcases getSectab_ok h.sectab with ⟨-, hx⟩ | ⟨hx, -, -⟩
      · rw [hx] at hn
        exact absurd rfl hn
      · rw [hx, ← getSymtabEndOffset_eq]
        rfl
    have hup := le_exactAlignUp (x := exactSymtabEnd (decodeHeader m base) +
      24 * (getNumSectionsRaw (decodeHeader m base)).toNat)
      (show (4 : Nat).isPowerOfTwo from ⟨2, rfl⟩)
    rw [← exactCodeOffset] at hup
    rw [hsections, sectionsOf, if_pos hsec, hnum, ← hcount, hsectab, hview]
    exact hb.tableAt tab.num (by rw [sectionEntrySize]; omega)
  · have hu : isSectioned (decodeHeader m base) = false := (view_untagged h.sectab).mp hn
    rw [hsections, sectionsOf, if_neg (by rw [hs.hasSections, hu]; decide), hheader]

/-! ## The walk over the main block -/

section

variable {h : Header} {num : Nat} {es : Nat → SectEntry} {e : ImageSection} {l : List ImageSection}
  {n i j : Nat}

theorem alignUp_exact {a : Nat} (ha : a.isPowerOfTwo) (x : Nat) :
    alignUp x a = exactAlignUp x a := by
  obtain ⟨k, rfl⟩ := ha
  rw [exactAlignUp_two_pow]
  rfl

theorem EntryAt.isMain (he : EntryAt es e j) (ht : TableOk h num es) (hj : j < num) :
    e.isMain = decide (j < 3) := by
  have hfields := ht.fields j hj
  have hz : e.flags &&& secFlagMain = ((es j).flags &&& Udynlink.secFlagMain).toNat := by
    rw [he.same.flags, UInt32.toNat_and]
    rfl
  have hiff : e.flags &&& secFlagMain = 0 ↔ (es j).flags &&& Udynlink.secFlagMain = 0 := by
    rw [hz, ← UInt32.toNat_inj]
    rfl
  rw [ImageSection.isMain]
  refine decide_eq_decide.mpr ?_
  rw [ne_eq, hiff]
  simp only [entryFieldsOk, Bool.and_eq_true] at hfields
  by_cases h3 : j < 3
  · rw [if_pos h3] at hfields
    simp_all
  · rw [if_neg h3] at hfields
    simp_all

theorem filter_main (hl : List.Forall₂ (EntryAt es) l (List.range' i n)) (ht : TableOk h num es)
    (hn : i + n ≤ num) : l.filter (fun s => s.isMain) = l.take (3 - i) ∧
      l.filter (fun s => !s.isMain) = l.drop (3 - i) := by
  induction n generalizing i l with
  | zero =>
    cases hl
    simp
  | succ n ih =>
    rw [List.range'_succ] at hl
    cases hl with
    | cons he hrest =>
      obtain ⟨htake, hdrop⟩ := ih hrest (by omega)
      have hmain := he.isMain ht (by omega)
      by_cases h3 : i < 3
      · rw [decide_eq_true h3] at hmain
        rw [show 3 - i = (3 - (i + 1)) + 1 by omega, List.take_succ_cons, List.drop_succ_cons]
        simp [hmain, htake, hdrop]
      · rw [decide_eq_false h3] at hmain
        rw [show 3 - (i + 1) = 0 by omega] at htake hdrop
        rw [show 3 - i = 0 by omega]
        simp [hmain, htake, hdrop] at htake hdrop ⊢

theorem mainBlockLoop_placed (lay : RuntimeLayout) (off : Nat) (bases : Nat → Option Nat)
    (hl : List.Forall₂ (EntryAt es) l (List.range' i n))
    (hpow : ∀ j, i ≤ j → j < i + n → (es j).align.toNat.isPowerOfTwo)
    (hx : lay.mode = .xip → 0 < i) :
    (lay.mainBlockLoop l off bases).2 = placedEnd es n i off ∧
      (∀ j, i ≤ j → j < i + n →
        (lay.mainBlockLoop l off bases).1 j = some (lay.ramBase + placedAt es (j - i) i off)) ∧
      ∀ j, j < i → (lay.mainBlockLoop l off bases).1 j = bases j := by
  induction n generalizing i l off bases with
  | zero =>
    cases hl
    exact ⟨rfl, fun j hj hj' => absurd hj' (by omega), fun j _ => rfl⟩
  | succ n ih =>
    rw [List.range'_succ] at hl
    cases hl with
    | @cons sec _ rest _ he hrest =>
      have hind := he.index
      have hal : alignUp off sec.align = exactAlignUp off (es i).align.toNat := by
        rw [he.same.align]
        exact alignUp_exact (hpow i (by omega) (by omega)) off
      rw [RuntimeLayout.mainBlockLoop, if_neg (fun hc => by have := hx hc.1; omega), hal, hind,
        he.same.size]
      obtain ⟨hend, hat, hlow⟩ := ih (exactAlignUp off (es i).align.toNat + (es i).size.toNat)
        (Function.update bases i (some (lay.ramBase + exactAlignUp off (es i).align.toNat))) hrest
        (fun j hj hj' => hpow j (by omega) (by omega)) (fun _ => by omega)
      refine ⟨hend, fun j hj hj' => ?_, fun j hj => ?_⟩
      · rcases Nat.eq_or_lt_of_le hj with rfl | hlt
        · rw [hlow i (by omega), Function.update_self, Nat.sub_self]
          rfl
        · rw [hat j hlt (by omega), show j - i = j - (i + 1) + 1 by omega, placedAt, placedAt,
            placedEnd, show i + (j - (i + 1) + 1) = i + 1 + (j - (i + 1)) by omega]
      · rw [hlow j (by omega), Function.update_of_ne (by omega)]

/-- The sections of an image with a table. -/
theorem SameImage.parts {img : ModuleImage} (hs : SameImage img h num es) (ht : TableOk h num es)
    (h3 : 3 ≤ num) :
    List.Forall₂ (EntryAt es) (img.sections.filter fun s => s.isMain) (List.range' 0 3) ∧
      List.Forall₂ (EntryAt es) (img.sections.filter fun s => !s.isMain)
        (List.range' 3 (num - 3)) := by
  have hall := hs.entries (by omega)
  obtain ⟨hmain, htagged⟩ := filter_main hall ht (by omega)
  have hrange : List.range' 0 num = List.range' 0 3 ++ List.range' 3 (num - 3) := by
    rw [List.range'_append_1]
    congr 1
    omega
  rw [hmain, htagged]
  refine ⟨?_, ?_⟩
  · have htake := List.forall₂_take 3 hall
    rwa [hrange, List.take_left' (by simp)] at htake
  · have hdrop := List.forall₂_drop 3 hall
    rwa [hrange, List.drop_left' (by simp)] at hdrop

/-- The walk places the main sections where the loader does. -/
theorem walk_placed {lay : RuntimeLayout} (hs : SameImage lay.image h num es)
    (ht : TableOk h num es) (h3 : 3 ≤ num) : lay.ramSize = exactRamSections h num es lay.mode ∧
      (∀ idx, firstPlaced lay.mode ≤ idx → idx < 3 → lay.mainBases idx =
        some (lay.ramBase + exactMainOffset h num es lay.mode idx)) ∧
      (lay.mode = .xip → lay.mainBases 0 = none) := by
  obtain ⟨hmain, htagged⟩ := hs.parts ht h3
  have hpow : ∀ j, j < 3 → (es j).align.toNat.isPowerOfTwo := fun j hj =>
    (ht.align_isPowerOfTwo (by omega)).1
  have hcount : lay.nonmainBasesSize = 4 * (num - 3) := by
    rw [RuntimeLayout.nonmainBasesSize, RuntimeLayout.nonmainSections, htagged.length_eq,
      List.length_range']
  have hwalk : lay.mainBlockWalk = lay.mainBlockLoop lay.mainSections
      (exactStart h num lay.mode) fun _ => none := by
    rw [RuntimeLayout.mainBlockWalk, exactStart, hcount, hs.header.numLot, hs.codeOffset,
      Nat.mul_comm]
    split <;> rfl
  rw [RuntimeLayout.ramSize, RuntimeLayout.mainBases, hwalk, exactRamSections]
  by_cases hx : lay.mode = .xip
  · have hfirst : firstPlaced lay.mode = 1 := if_pos hx
    rw [hfirst]
    change List.Forall₂ (EntryAt es) lay.mainSections [0, 1, 2] at hmain
    generalize lay.mainSections = l at hmain ⊢
    cases hmain with
    | @cons sec _ rest _ he hrest =>
      have hcls : sec.cls = secClassCode := by
        rw [he.same.cls, ht.cls_main (by omega) (by decide)]
        rfl
      rw [RuntimeLayout.mainBlockLoop, if_pos ⟨hx, he.index, hcls⟩]
      obtain ⟨hend, hat, hlow⟩ := mainBlockLoop_placed lay _ _ (n := 2) (i := 1) hrest
        (fun j _ hj => hpow j (by omega)) fun _ => by decide
      refine ⟨hend, fun idx h1 hidx => ?_, fun _ => ?_⟩
      · rw [hat idx h1 (by omega), exactMainOffset, hfirst]
      · rw [hlow 0 (by decide), he.index, Function.update_self]
  · have hfirst : firstPlaced lay.mode = 0 := if_neg hx
    rw [hfirst]
    obtain ⟨hend, hat, -⟩ := mainBlockLoop_placed lay _ _ (n := 3) (i := 0) hmain
      (fun j _ hj => hpow j (by omega)) fun hc => absurd hc hx
    refine ⟨hend, fun idx _ hidx => ?_, fun hc => absurd hc hx⟩
    have hb := hat idx (Nat.zero_le idx) (by omega)
    rw [exactMainOffset, hfirst]
    exact hb

theorem larger_toNat (a b : UInt32) : (if b > a then b else a).toNat = max a.toNat b.toNat := by
  split
  next hgt => exact (Nat.max_eq_right (Nat.le_of_lt (UInt32.lt_iff_toNat_lt.mp hgt))).symm
  next hle => exact (Nat.max_eq_left (UInt32.le_iff_toNat_le.mp (UInt32.not_lt.mp hle))).symm

/-- The alignment of the block. -/
theorem mainAlign_same {lay : RuntimeLayout} {tab : SectView} {m : Mem}
    (hs : SameImage lay.image h tab.num (entriesAt m tab.pEntries))
    (ht : TableOk h tab.num (entriesAt m tab.pEntries)) (h3 : 3 ≤ tab.num) :
    lay.mainAlign = ((getMainAlign tab).run m).toNat := by
  obtain ⟨hmain, -⟩ := hs.parts ht h3
  have h4 : ∀ j, j < 3 → 4 ≤ (entriesAt m tab.pEntries j).align.toNat := fun j hj =>
    (ht.align_isPowerOfTwo (by omega)).2
  rw [RuntimeLayout.mainAlign, getMainAlign_run (by omega)]
  change List.Forall₂ (EntryAt _) lay.mainSections [0, 1, 2] at hmain
  generalize lay.mainSections = l at hmain ⊢
  cases hmain with
  | cons he0 hrest =>
    cases hrest with
    | cons he1 hrest =>
      cases hrest with
      | cons he2 hrest =>
        cases hrest
        have ha := h4 0 (by decide)
        have hb := h4 1 (by decide)
        have hc := h4 2 (by decide)
        simp only [List.map_cons, List.map_nil, List.foldl_cons, List.foldl_nil, he0.same.align,
          he1.same.align, he2.same.align, List.max?_cons', Option.getD_some, larger_toNat]
        rw [show (4 : UInt32).toNat = 4 from rfl, Nat.max_eq_right ha]

end

/-! ## Runtime addresses -/

/-- `va` is the VA of a byte of entry `i`. -/
def Inside (es : Nat → SectEntry) (i va : Nat) : Prop :=
  (es i).va.toNat ≤ va ∧ va < (es i).va.toNat + (es i).size.toNat

section

variable {h : Header} {num : Nat} {es : Nat → SectEntry} {img : ModuleImage} {e : ImageSection}
  {l : List ImageSection} {n i j va : Nat}

theorem EntryAt.containsVa (he : EntryAt es e j) : e.containsVa va = true ↔ Inside es j va := by
  rw [ImageSection.containsVa, decide_eq_true_iff, he.same.va, he.same.size]
  rfl

theorem entryAt_of_mem (hl : List.Forall₂ (EntryAt es) l (List.range' i n)) (he : e ∈ l) :
    ∃ j, i ≤ j ∧ j < i + n ∧ EntryAt es e j := by
  induction n generalizing i l with
  | zero =>
    cases hl
    simp at he
  | succ n ih =>
    rw [List.range'_succ] at hl
    cases hl with
    | cons hfirst hrest =>
      rcases List.mem_cons.mp he with rfl | he
      · exact ⟨i, by omega, by omega, hfirst⟩
      · obtain ⟨j, hj, hj', hat⟩ := ih hrest he
        exact ⟨j, by omega, by omega, hat⟩

theorem exists_entryAt (hl : List.Forall₂ (EntryAt es) l (List.range' i n)) (hj : i ≤ j)
    (hj' : j < i + n) : ∃ e ∈ l, EntryAt es e j := by
  induction n generalizing i l with
  | zero => omega
  | succ n ih =>
    rw [List.range'_succ] at hl
    cases hl with
    | cons hfirst hrest =>
      rcases Nat.eq_or_lt_of_le hj with rfl | hlt
      · exact ⟨_, List.mem_cons_self, hfirst⟩
      · obtain ⟨e, he, hat⟩ := ih hrest hlt (by omega)
        exact ⟨e, List.mem_cons_of_mem _ he, hat⟩

/-- The lookup of the tool finds the section of a byte, and no other VA. -/
theorem SameImage.find_spec (hs : SameImage img h num es) (ht : TableOk h num es) (va : Nat) :
    match img.findSectionByVa va with
    | some sec => ∃ j, j < num ∧ EntryAt es sec j ∧ Inside es j va
    | none => ∀ j, j < num → ¬ Inside es j va := by
  have hpos := ht.num_pos
  have hall := hs.entries (by omega)
  have hsec : img.header.hasSections = true := hs.header.hasSections.trans ht.sectioned
  rw [ModuleImage.findSectionByVa, if_pos hsec]
  split
  next sec hfound =>
    obtain ⟨j, -, hj, hat⟩ := entryAt_of_mem hall (List.mem_of_find?_eq_some hfound)
    have hcontains : sec.containsVa va = true :=
      List.find?_some (p := fun s : ImageSection => s.containsVa va) hfound
    exact ⟨j, by omega, hat, hat.containsVa.mp hcontains⟩
  next hnone =>
    intro j hj hin
    obtain ⟨e, he, hat⟩ := exists_entryAt hall (Nat.zero_le j) (by omega)
    exact List.find?_eq_none.mp hnone e he (hat.containsVa.mpr hin)

theorem inside_unique (ht : TableOk h num es) (hi : i < num) (hj : j < num) (hin : Inside es i va)
    (hin' : Inside es j va) : i = j := by
  obtain ⟨hlo, hhi⟩ := hin
  obtain ⟨hlo', hhi'⟩ := hin'
  rcases Nat.lt_trichotomy i j with hlt | heq | hgt
  · have := ht.va_mono hlt hj
    omega
  · exact heq
  · have := ht.va_mono hgt hi
    omega

end

section

variable {u : SectionedImage} {w : State} {idx : Nat} {va : UInt32} {lay : RuntimeLayout}

/-- The loader gives the padding behind `.data` to a section; a byte of it has none. -/
theorem vaOfByte_iff (h : u.Standing w) (hf : u.Fits) :
    VaOfByte w idx va ↔ idx < u.num ∧ Inside u.es idx va.toNat := by
  have hnum := hf.main
  have ht : TableOk u.header u.tab.num (entriesAt u.m u.tab.pEntries) := hf.table
  have hspec := sectFindLoop_spec ht hnum va (n := u.tab.num) (i := 0) (Nat.zero_add _)
  rw [show sectFindLoop u.tab va u.tab.num 0 = sectFindByVa u.tab va from rfl,
    ← h.placed.find_eq hf] at hspec
  constructor
  · rintro ⟨hfound, hin⟩
    rw [hfound] at hspec
    have hi : idx < u.num := hspec.1
    have hlo : (u.es idx).va.toNat ≤ va.toNat := hspec.2.1
    rw [h.placed.moduleSection_eq hf hi, UInt32.lt_iff_toNat_lt,
      UInt32.toNat_sub_of_le _ _ (UInt32.le_iff_toNat_le.mpr hlo)] at hin
    exact ⟨hi, hlo, by omega⟩
  · rintro ⟨hi, hlo, hhi⟩
    have hcontains : SpanContains u.es idx va := by
      refine ⟨hlo, Nat.lt_of_lt_of_le hhi ?_⟩
      rw [spanEnd]
      split
      next => exact hf.table.va_succ (by omega)
      next => exact Nat.le_refl _
    refine ⟨?_, ?_⟩
    · split at hspec
      next k hk =>
        obtain ⟨hk', hc⟩ := hspec
        rw [hk, ht.contains_unique hk' hi hc hcontains]
      next => exact absurd hcontains (hspec idx (Nat.zero_le idx) hi)
    · rw [h.placed.moduleSection_eq hf hi, UInt32.lt_iff_toNat_lt,
        UInt32.toNat_sub_of_le _ _ (UInt32.le_iff_toNat_le.mpr hlo)]
      omega

/-- The base of a section, in the layout of the block and the bases of the module. -/
theorem sectionBase_placed (h : u.Standing w) (hf : u.Fits)
    (hs : SameImage lay.image u.header u.num u.es) (hmode : lay.mode = u.mode)
    (hram : lay.ramBase = w.handle.pRam.toNat)
    (hbases : ∀ j, 3 ≤ j → j < u.num → (u.es j).size ≠ 0 →
      lay.sectionBases j = some (recordedBase w j).toNat)
    {sec : ImageSection} (hat : EntryAt u.es sec idx) (hi : idx < u.num)
    (hne : (u.es idx).size ≠ 0) :
    (firstPlaced u.mode ≤ idx → (lay.sectionBase sec).map UInt32.ofNat =
      some (u.sectBase (u.recorded w) w.handle.pRam idx)) ∧
      (¬ firstPlaced u.mode ≤ idx → lay.sectionBase sec = none) := by
  have hnum := hf.main
  obtain ⟨-, hmain, hxip⟩ := walk_placed hs hf.table hnum
  rw [hmode] at hmain hxip
  rw [RuntimeLayout.sectionBase, hat.isMain hf.table hi, hat.index]
  by_cases h3 : idx < 3
  · rw [decide_eq_true h3, if_pos rfl]
    refine ⟨fun hfirst => ?_, fun hno => ?_⟩
    · rw [hmain idx hfirst h3, hram, Option.map_some, UInt32.ofNat_add, UInt32.ofNat_toNat,
        SectionedImage.sectBase, if_pos h3]
      rfl
    · rw [firstPlaced] at hno
      split at hno
      next hx =>
        obtain rfl : idx = 0 := by omega
        exact hxip hx
      next => omega
  · have hfirst := firstPlaced_le u.mode
    rw [decide_eq_false h3, if_neg Bool.false_ne_true]
    refine ⟨fun _ => ?_, fun hno => absurd hno (by omega)⟩
    rw [hbases idx (by omega) hi hne, Option.map_some, UInt32.ofNat_toNat, SectionedImage.sectBase,
      if_neg h3, h.recordedBase_eq hf (by omega) hi hne]

/-- The layout has an address for the bytes in RAM, the one the loader resolves them to. -/
theorem runtimeAddress_iff (h : u.Standing w) (hf : u.Fits) (hhead : w.handle.pHeader ≠ 0)
    (hp : u.ram ≠ 0 → w.handle.pRam ≠ 0)
    (hs : SameImage lay.image u.header u.num u.es) (hmode : lay.mode = u.mode)
    (hram : lay.ramBase = w.handle.pRam.toNat)
    (hbases : ∀ j, 3 ≤ j → j < u.num → (u.es j).size ≠ 0 →
      lay.sectionBases j = some (recordedBase w j).toNat) (a : Addr) :
    (lay.runtimeAddress va.toNat).map UInt32.ofNat = some a ↔
      ∃ idx, firstPlaced u.mode ≤ idx ∧ VaOfByte w idx va ∧ vaAddress w va = some a := by
  have hspec := hs.find_spec hf.table va.toNat
  have haddr : ∀ {idx : Nat}, firstPlaced u.mode ≤ idx → idx < u.num → Inside u.es idx va.toNat →
      vaAddress w va =
        some (u.sectBase (u.recorded w) w.handle.pRam idx + (va - (u.es idx).va)) := by
    intro idx hfirst hi hin
    have hne : (u.es idx).size ≠ 0 := fun hz => by
      obtain ⟨hlo, hhi⟩ := hin
      rw [hz, UInt32.toNat_zero] at hhi
      omega
    have hpr : w.handle.pRam ≠ 0 := by
      by_cases h3 : idx < 3
      · have hle : exactMainOffset u.header u.num u.es u.mode idx + (u.es idx).size.toNat ≤ u.ram :=
          hf.main_le_ram hfirst h3
        have hpos : (u.es idx).size.toNat ≠ 0 := fun hz => hne (UInt32.toNat_inj.mp hz)
        exact hp (by omega)
      · exact h.ne_zero (by omega)
    rw [h.placed.vaAddress_eq hf hhead ((vaOfByte_iff h hf).mpr ⟨hi, hin⟩),
      h.placed.moduleSection_eq hf hi,
      h.placed.sectionBase_place hf hhead hpr hfirst hi fun _ => hne]
  rw [RuntimeLayout.runtimeAddress]
  split at hspec
  next sec hfound =>
    obtain ⟨j, hj, hat, hin⟩ := hspec
    have hne : (u.es j).size ≠ 0 := fun hz => by
      obtain ⟨hlo, hhi⟩ := hin
      rw [hz, UInt32.toNat_zero] at hhi
      omega
    obtain ⟨hplaced, hnone⟩ := sectionBase_placed h hf hs hmode hram hbases hat hj hne
    rw [hfound]
    dsimp only
    by_cases hfirst : firstPlaced u.mode ≤ j
    · obtain ⟨b, hb, hbase⟩ := Option.map_eq_some_iff.mp (hplaced hfirst)
      have hoff : UInt32.ofNat (va.toNat - sec.va) = va - (u.es j).va := by
        rw [hat.same.va, ← UInt32.toNat_sub_of_le _ _ (UInt32.le_iff_toNat_le.mpr hin.1),
          UInt32.ofNat_toNat]
      rw [hb, Option.map_some, Option.map_some, UInt32.ofNat_add, hbase, hoff]
      constructor
      · intro hx
        exact ⟨j, hfirst, (vaOfByte_iff h hf).mpr ⟨hj, hin⟩, (haddr hfirst hj hin).trans hx⟩
      · rintro ⟨idx, -, -, hx⟩
        exact (haddr hfirst hj hin).symm.trans hx
    · rw [hnone hfirst]
      refine iff_of_false (by simp) ?_
      rintro ⟨idx, hfi, hbyte, -⟩
      obtain ⟨hi, hin'⟩ := (vaOfByte_iff h hf).mp hbyte
      rw [inside_unique hf.table hi hj hin' hin] at hfi
      exact hfirst hfi
  next hnone =>
    rw [hnone]
    refine iff_of_false (by simp) ?_
    rintro ⟨idx, -, hbyte, -⟩
    obtain ⟨hi, hin⟩ := (vaOfByte_iff h hf).mp hbyte
    exact hspec idx hi hin

end

/-! ## The layout of a module in use -/

section

variable {host : Host} {image : Image} {mode : LoadMode} {loadAddr : Addr} {loadSize : UInt32}
  {w w₁ w₂ : State} {evs : List (Event HostEvent)} {ds : List (Deed (BlockTag × Addr))}
  {tab : SectView} {ramSize ramAddr : UInt32} {w1 w2 w3 w4 : State} {data : Bytes}
  {img : ModuleImage}

theorem acceptedAt_of_stages
    (hs : LoadStages host image loadAddr loadSize mode w w₁ tab ramSize ramAddr w1 w2 w3 w4) :
    AcceptedAt w.mem image.pHeader tab := by
  refine ⟨?_, hs.sectab, hs.caps.extent⟩
  have hval := hs.header
  by_contra hne
  rw [udynlinkValidateHeader, if_pos hne] at hval
  simp at hval

/-- From the load on, behind every store, refused call and move, the layout that the
tool computes from the image, the block and the recorded bases is that of the module:
its size and alignment are those the loader works with, and it has an address for
the VAs of the bytes in RAM and for no other VA, the one they are resolved to. -/
theorem runtime_layout_agrees
    (hload : (udynlinkLoadModuleImage host image loadAddr loadSize mode).run w = (.ok (), w₁))
    (himg : MovableImage image mode w.mem) (hne : (imageView image w.mem).num ≠ 0)
    (he : w.Extends w₁ evs)
    (hfair : FairBlocks (imageSource image w.mem) loadAddr loadSize (hostEvents evs))
    (hlived : Lived host image mode w.mem w₁ ds w₂) (hhead : w₂.handle.pHeader ≠ 0)
    (hb : HasBytes w.mem image.pHeader data) (hp : parseModule data true = .ok img)
    {bases : Nat → Option Nat}
    (hbases : ∀ j ∈ boundSections image w.mem, bases j = some (recordedBase w₂ j).toNat) :
    let lay : RuntimeLayout := ⟨img, mode, w₂.handle.pRam.toNat, bases⟩
    lay.ramSize = moduleRam w₂ ∧
      lay.mainAlign = ((getMainAlign (moduleView w₂)).run w₂.mem).toNat ∧
      ∀ va a, (lay.runtimeAddress va.toNat).map UInt32.ofNat = some a ↔
        ∃ idx, firstPlaced mode ≤ idx ∧ VaOfByte w₂ idx va ∧ vaAddress w₂ va = some a := by
  intro lay
  obtain ⟨tab, ramSize, ramAddr, w1, w2, w3, w4, hs⟩ := loadStages_of_ok hload
  have hview := imageView_of_sectab hs.sectab
  have ht : tab.num ≠ 0 := hview ▸ hne
  let u : SectionedImage := ⟨image.pHeader, w.mem, mode⟩
  obtain ⟨htab, -⟩ := sectioned_loaded hs ht himg.contained he hfair
  obtain ⟨hf, hsteady, hbound, hram⟩ := hs.sectioned_steady ht himg he hfair
  obtain ⟨hbound₂, hram₂, -⟩ := hsteady.lived hbound hram hlived
  obtain ⟨hsame, -, -⟩ := sameImage_of_accepted (acceptedAt_of_stages hs) hb hp
  have hsame' : SameImage lay.image u.header u.num u.es := by
    rw [htab] at hsame
    exact hsame
  have hes : imageEntry image w.mem = u.es := by
    funext j
    rw [imageEntry, hview, htab]
    rfl
  have hall : ∀ j, 3 ≤ j → j < u.num → (u.es j).size ≠ 0 →
      lay.sectionBases j = some (recordedBase w₂ j).toNat := by
    intro j hj hj' hsz
    refine hbases j ?_
    rw [boundSections, hview, htab, hes]
    exact mem_taggedIdx.mpr ⟨hj, by change j < 3 + (u.num - 3); omega, hsz⟩
  refine ⟨?_, ?_, fun va a => ?_⟩
  · rw [hsteady.ram w₂ hbound₂]
    exact (walk_placed hsame' hf.table hf.main).1
  · rw [hsteady.align w₂ hbound₂, imageMainAlign, hview, htab]
    exact mainAlign_same hsame' hf.table hf.main
  · exact runtimeAddress_iff hbound₂.standing hf hhead hram₂ hsame' rfl rfl hall a

end

/-! ## Section `x` behind its move -/

def ownSectionBytes : Bytes := romBytes ownSectionRom 0x1000 156

theorem ownSection_parsed : ∃ img, parseModule ownSectionBytes true = .ok img := by
  have hok : (parseModule ownSectionBytes true).toOption.isSome = true := by decide +kernel
  cases hp : parseModule ownSectionBytes true with
  | ok img => exact ⟨img, rfl⟩
  | error e =>
    rw [hp] at hok
    simp [Except.toOption] at hok

theorem runtime_layout_agrees_ownSection : ∃ img, parseModule ownSectionBytes true = .ok img ∧
    let lay : RuntimeLayout := ⟨img, .copyTextData,
      (ownSectionMove 0x30000000).2.handle.pRam.toNat, fun _ => some 0x30000100⟩
    lay.ramSize = moduleRam (ownSectionMove 0x30000000).2 ∧
      lay.mainAlign = ((getMainAlign (moduleView (ownSectionMove 0x30000000).2)).run
        (ownSectionMove 0x30000000).2.mem).toNat ∧
      ∀ va a, (lay.runtimeAddress va.toNat).map UInt32.ofNat = some a ↔
        ∃ idx, firstPlaced .copyTextData ≤ idx ∧ VaOfByte (ownSectionMove 0x30000000).2 idx va ∧
          vaAddress (ownSectionMove 0x30000000).2 va = some a := by
  obtain ⟨ds, hlived⟩ := ownSection_lived
  obtain ⟨img, hp⟩ := ownSection_parsed
  have hbound : boundSections ownSectionImage ownSectionRom = [3] := by decide +kernel
  have hmoved : recordedBase (ownSectionMove 0x30000000).2 3 = 0x30000100 ∧
      (ownSectionMove 0x30000000).2.handle.pHeader ≠ 0 := by decide +kernel
  refine ⟨img, hp, runtime_layout_agrees (w := ⟨ownSectionRom, Module.free, []⟩) ownSection_loads
    ownSection_movable ownSection_table ownSection_extends ownSection_fairBlocks hlived hmoved.2
    (romBytes_hasBytes ownSectionRom 0x1000 156) hp fun j hj => ?_⟩
  rw [hbound, List.mem_singleton] at hj
  rw [hj, hmoved.1]
  rfl

end Udynlink.Parser
