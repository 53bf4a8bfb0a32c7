import Udynlink.Parser.AllocationPlan

/-!
# The tool's simulation of a load

`simulate_load` copies the sections of an image into buffers of its own and relocates
them there. The buffers are numbered bytes: one for the main block, one for each tagged
section that has a base. Its reports are kept as the values they show.
-/

namespace Udynlink.Parser

open Machine

def symTypeExported : Nat := 1

def symTypeExtern : Nat := 2

def symTypeWeak : Nat := 4

inductive RelocKind where
  | symbol
  | dataBase
  | codeBase
deriving DecidableEq, Repr

namespace Relocation

def kind (r : Relocation) : RelocKind :=
  if (r.value &&& 0x80000000) ≠ 0 then .dataBase
  else if (r.value &&& 0x40000000) ≠ 0 then .codeBase
  else .symbol

def dataAddend (r : Relocation) : Nat := r.value &&& 0x7FFFFFFF

end Relocation

def ModuleImage.sectionPayload (img : ModuleImage) (idx : Nat) : Bytes := img.payloads.getD idx []

/-- `buf[off:stop] = bs` -/
def assignSlice (buf : Bytes) (off stop : Nat) (bs : Bytes) : Bytes :=
  buf.take off ++ bs ++ buf.drop (max off stop)

/-- `struct.pack_into("<I", buf, off, value & 0xFFFFFFFF)` -/
def packInto (buf : Bytes) (off value : Nat) : Bytes :=
  assignSlice buf off (off + 4) (leBytes 4 value)

/-- How a symbol was resolved. -/
inductive ResolvedBy where
  | module
  | moduleDefault
  | host
  | unresolved
  | unmapped
  | notAvailable
deriving DecidableEq, Repr

/-- The buffers of a simulated load. -/
structure Ram where
  main : Bytes
  blocks : Nat → Option Bytes

/-- A word of the buffers. -/
inductive Target where
  | main (off : Nat)
  | block (idx off : Nat)
deriving DecidableEq, Repr

namespace Ram

def word (ram : Ram) : Target → Nat
  | .main off => Machine.word ram.main off 4
  | .block idx off => Machine.word ((ram.blocks idx).getD []) off 4

def put32 (ram : Ram) (value : Nat) : Target → Ram
  | .main off => { ram with main := packInto ram.main off value }
  | .block idx off =>
    { ram with
      blocks := Function.update ram.blocks idx
        ((ram.blocks idx).map fun buf => packInto buf off value) }

end Ram

namespace RuntimeLayout

variable (lay : RuntimeLayout)

def codeBase : Nat := (lay.mainBases 0).getD lay.ramBase

def dataBase : Nat := (lay.mainBases 1).getD lay.ramBase

/-! ## The buffers -/

/-- The loop over the base array; a base that is 0 counts as missing. -/
def packBases (arrOff : Nat) : List ImageSection → Nat → Bytes → Bytes
  | [], _, buf => buf
  | sec :: rest, i, buf =>
    match lay.sectionBases sec.index with
    | none => packBases arrOff rest (i + 1) buf
    | some base =>
      if base = 0 then packBases arrOff rest (i + 1) buf
      else packBases arrOff rest (i + 1) (packInto buf (arrOff + 4 * i) base)

/-- The metadata of a load that copies all. -/
def copyMetadata (buf : Bytes) : Bytes :=
  let img := lay.image
  let off := img.header.numLot * 4 + lay.nonmainBasesSize
  let buf := assignSlice buf off (off + img.header.headerSize) img.header.pack
  let buf := assignSlice buf (off + img.header.relocsOffset)
    (off + img.header.relocsOffset + img.header.relocsSize)
    (img.relocations.map Relocation.pack).flatten
  let buf := assignSlice buf (off + img.header.symtabOffset)
    (off + img.header.symtabOffset + img.header.symtSize) img.symtabBytes
  if img.sectabBytes = [] then buf
  else assignSlice buf (off + img.sectabOffset) (off + img.sectabOffset + img.sectabBytes.length)
    img.sectabBytes

/-- The loop over the main sections. -/
def copyMain : List ImageSection → Bytes → Bytes
  | [], buf => buf
  | sec :: rest, buf =>
    match lay.mainBases sec.index with
    | none => copyMain rest buf
    | some base =>
      if sec.isBss then copyMain rest buf
      else
        let off := base - lay.ramBase
        copyMain rest (assignSlice buf off (off + sec.size) (lay.image.sectionPayload sec.index))

def buildRam : Bytes :=
  let buf := List.replicate lay.ramSize (0 : UInt8)
  let buf := if lay.nonmainBasesSize = 0 then buf
    else lay.packBases (lay.image.header.numLot * 4) lay.nonmainSections 0 buf
  let buf := if lay.mode = .copyAll then lay.copyMetadata buf else buf
  lay.copyMain lay.mainSections buf

def sectionBlock (sec : ImageSection) : Bytes :=
  let data := List.replicate sec.size (0 : UInt8)
  if sec.isBss then data
  else
    let payload := lay.image.sectionPayload sec.index
    assignSlice data 0 payload.length payload

/-- The blocks of `simulate_load`, of the sections with a base. -/
def blocks (idx : Nat) : Option Bytes :=
  match lay.nonmainSections.find? fun sec => sec.index = idx with
  | none => none
  | some sec => if (lay.sectionBases idx).getD 0 = 0 then none else some (lay.sectionBlock sec)

/-! ## Relocations -/

def resolveSymbol (hostResolver : Option (Str → Nat)) (sym : Symbol) : Nat × ResolvedBy :=
  if sym.type = symTypeInternal ∨ sym.type = symTypeExported ∨ sym.type = symTypeWeak then
    let addr? := if lay.image.header.hasSections then lay.runtimeAddress sym.valRaw
      else some ((if sym.location = .code then lay.codeBase else lay.dataBase) + sym.valRaw)
    match addr? with
    | none => (0, .unmapped)
    | some addr =>
      match hostResolver with
      | none => (addr, .module)
      | some resolve =>
        if sym.type = symTypeWeak then
          let override := resolve (sym.name.getD [])
          if override = 1 then (addr, .moduleDefault)
          else if override > 0 then (override, .host)
          else (addr, .module)
        else (addr, .module)
  else if sym.type = symTypeExtern then
    match hostResolver with
    | none => (0, .unresolved)
    | some resolve =>
      let addr := resolve (sym.name.getD [])
      if addr = 1 then (0, .unresolved)
      else (addr, if addr > 0 then .host else .unresolved)
  else (0, .notAvailable)

/-- The word that a relocation patches, if the simulation finds it. -/
def relocTarget (ram : Ram) (r : Relocation) : Option Target :=
  let h := lay.image.header
  if h.hasSections = false ∧ r.lotOffset ≥ h.numLot + h.dataSize / 4 then none
  else if r.lotOffset < h.numLot then some (.main (r.lotOffset * 4))
  else if h.hasSections then
    let va := h.codeSize + 4 * (r.lotOffset - h.numLot)
    match lay.image.findSectionByVa va with
    | none => none
    | some sec =>
      if (sec.cls ≠ secClassCode ∧ sec.cls ≠ secClassData) ∨ va + 4 > sec.va + sec.size then none
      else match lay.runtimeAddress va with
        | none => none
        | some addr =>
          if sec.isMain then some (.main (addr - lay.ramBase))
          else match ram.blocks sec.index with
            | none => none
            | some _ => some (.block sec.index (addr - (lay.sectionBases sec.index).getD 0))
  else some (.main (lay.dataBase - lay.ramBase + (r.lotOffset - h.numLot) * 4))

def symbolValue (hostResolver : Option (Str → Nat)) (sym : Symbol) : Option Nat :=
  if sym.type = symTypeModuleName then none
  else
    let res := lay.resolveSymbol hostResolver sym
    if sym.type = symTypeExtern ∧ res.2 ≠ .host then none
    else if res.2 = .unmapped then none
    else some res.1

/-- The value for the word, if there is one. -/
def relocValue (hostResolver : Option (Str → Nat)) (r : Relocation) (old : Nat) : Option Nat :=
  let img := lay.image
  match r.kind with
  | .dataBase =>
    if r.lotOffset < img.header.numLot then none
    else if img.header.hasSections then lay.runtimeAddress old
    else some (((old : Int) + ((lay.dataBase : Int) - r.dataAddend)) % 2 ^ 32).toNat
  | .codeBase =>
    if r.lotOffset < img.header.numLot then none
    else if img.header.hasSections then lay.runtimeAddress old
    else some ((lay.codeBase + old) % 2 ^ 32)
  | .symbol =>
    match img.symbols[r.value]? with
    | none => none
    | some sym => lay.symbolValue hostResolver sym

/-- One turn of `apply_relocations`, with the value it reports. -/
def applyRelocation (hostResolver : Option (Str → Nat)) (ram : Ram) (r : Relocation) :
    Ram × Option Nat :=
  match lay.relocTarget ram r with
  | none => (ram, none)
  | some t =>
    match lay.relocValue hostResolver r (ram.word t) with
    | none => (ram, none)
    | some value => (ram.put32 value t, some value)

def applyRelocations (hostResolver : Option (Str → Nat)) :
    List Relocation → Ram → Ram × List (Option Nat)
  | [], ram => (ram, [])
  | r :: rest, ram =>
    let (ram, value) := lay.applyRelocation hostResolver ram r
    let (ram, values) := applyRelocations hostResolver rest ram
    (ram, value :: values)

/-- The buffers and the reports of `simulate_load`, for bases that are given. -/
def simulateLoad (hostResolver : Option (Str → Nat)) : Ram × List (Option Nat) :=
  lay.applyRelocations hostResolver lay.image.relocations ⟨lay.buildRam, lay.blocks⟩

end RuntimeLayout

/-! ## Bytes of a buffer -/

section

variable {buf bs : Bytes} {off i : Nat}

theorem length_assignSlice (h : off + bs.length ≤ buf.length) :
    (assignSlice buf off (off + bs.length) bs).length = buf.length := by
  rw [assignSlice, List.length_append, List.length_append, List.length_take, List.length_drop]
  omega

theorem assignSlice_in (h : off + bs.length ≤ buf.length) (hi : i < bs.length) :
    (assignSlice buf off (off + bs.length) bs)[off + i]? = bs[i]? := by
  have hl : (buf.take off).length = off := by rw [List.length_take, Nat.min_eq_left (by omega)]
  rw [assignSlice, List.append_assoc, List.getElem?_append_right (by omega), hl,
    Nat.add_sub_cancel_left, List.getElem?_append_left hi]

theorem assignSlice_out (h : off + bs.length ≤ buf.length) (hi : i < off ∨ off + bs.length ≤ i) :
    (assignSlice buf off (off + bs.length) bs)[i]? = buf[i]? := by
  have hl : (buf.take off).length = off := by rw [List.length_take, Nat.min_eq_left (by omega)]
  rw [assignSlice, Nat.max_eq_right (Nat.le_add_right _ _)]
  rcases hi with hlt | hge
  · rw [List.append_assoc, List.getElem?_append_left (by omega), List.getElem?_take_of_lt hlt]
  · rw [List.getElem?_append_right (by rw [List.length_append]; omega), List.length_append, hl,
      List.getElem?_drop]
    congr 1
    omega

theorem getElem?_leBytes (x : Nat) {k n : Nat} (hk : k < n) :
    (leBytes n x)[k]? = some (UInt8.ofNat (x / 256 ^ k)) := by
  induction n generalizing x k with
  | zero => omega
  | succ n ih =>
    rw [leBytes]
    cases k with
    | zero => simp
    | succ k =>
      rw [List.getElem?_cons_succ, ih (x / 256) (by omega), Nat.div_div_eq_div_mul,
        ← Nat.pow_succ']

theorem leBytes_byteOf (x : Nat) {k : Nat} (hk : k < 4) :
    (leBytes 4 x)[k]? = some (byteOf (UInt32.ofNat x) k) := by
  rw [getElem?_leBytes x hk, byteOf, UInt32.toNat_ofNat', Option.some.injEq]
  apply UInt8.toNat_inj.mp
  rw [UInt8.toNat_ofNat', UInt8.toNat_ofNat']
  rcases (show k = 0 ∨ k = 1 ∨ k = 2 ∨ k = 3 by omega) with rfl | rfl | rfl | rfl <;> omega

theorem length_packInto (v : Nat) (h : off + 4 ≤ buf.length) :
    (packInto buf off v).length = buf.length := by
  have hl : (leBytes 4 v).length = 4 := length_leBytes 4 v
  have hput : (assignSlice buf off (off + (leBytes 4 v).length) (leBytes 4 v)).length =
    buf.length := length_assignSlice (by omega)
  rwa [hl] at hput

theorem packInto_in (v : Nat) (h : off + 4 ≤ buf.length) (hi : i < 4) :
    (packInto buf off v)[off + i]? = some (byteOf (UInt32.ofNat v) i) := by
  have hl : (leBytes 4 v).length = 4 := length_leBytes 4 v
  have hput : (assignSlice buf off (off + (leBytes 4 v).length) (leBytes 4 v))[off + i]? = _ :=
    assignSlice_in (by omega) (by omega)
  rwa [hl, leBytes_byteOf v hi] at hput

theorem packInto_out (v : Nat) (h : off + 4 ≤ buf.length) (hi : i < off ∨ off + 4 ≤ i) :
    (packInto buf off v)[i]? = buf[i]? := by
  have hl : (leBytes 4 v).length = 4 := length_leBytes 4 v
  have hput : (assignSlice buf off (off + (leBytes 4 v).length) (leBytes 4 v))[i]? = _ :=
    assignSlice_out (by omega) (by omega)
  rwa [hl] at hput

end

/-- The buffer has the bytes behind `p` at the offsets in `S`. -/
def ShowsOn (S : Nat → Prop) (m : Mem) (p : Addr) (buf : Bytes) : Prop :=
  ∀ i, S i → buf[i]? = some (m (p + UInt32.ofNat i))

namespace ShowsOn

variable {S T : Nat → Prop} {m : Mem} {p x : Addr} {buf : Bytes} {off v : Nat}

theorem lt (h : ShowsOn S m p buf) {i : Nat} (hi : S i) : i < buf.length := by
  by_contra hge
  have hs := h i hi
  rw [List.getElem?_eq_none (by omega)] at hs
  cases hs

theorem word (h : ShowsOn S m p buf) (hin : ∀ i, off ≤ i → i < off + 4 → S i) :
    Machine.word buf off 4 = (m.u32 (p + UInt32.ofNat off)).toNat := by
  have hlen := h.lt (hin (off + 3) (by omega) (by omega))
  have hl : (slice buf off 4).length = 4 := length_slice (by omega)
  have hb : HasBytes m (p + UInt32.ofNat off) (slice buf off 4) := by
    intro i hi
    rw [hl] at hi
    rw [getElem?_slice buf hi, h _ (hin (off + i) (by omega) (by omega)), off_off]
  have hword : Machine.word (slice buf off 4) 0 4 = _ := hb.word4 (by omega)
  rw [off_zero] at hword
  rw [← hword, Machine.word, Machine.word, slice_zero, List.take_of_length_le (by omega)]

/-- A store elsewhere. -/
theorem store (h : ShowsOn S m p buf) {w : UInt32}
    (hout : ∀ i, S i → p + UInt32.ofNat i ∉ (⟨x, 4⟩ : Span)) : ShowsOn S (m.set32 x w) p buf := by
  intro i hi
  rw [h i hi, Mem.set32, store_notMem (hout i hi)]

/-- The same word in the buffer and in memory. -/
theorem put (h : ShowsOn S m p buf) (hoff : off + 4 ≤ buf.length) (hlen : buf.length ≤ 2 ^ 32) :
    ShowsOn (fun i => S i ∨ (off ≤ i ∧ i < off + 4))
      (m.set32 (p + UInt32.ofNat off) (UInt32.ofNat v)) p (packInto buf off v) := by
  intro i hi
  by_cases hin : off ≤ i ∧ i < off + 4
  · obtain ⟨k, rfl⟩ : ∃ k, i = off + k := ⟨i - off, by omega⟩
    rw [packInto_in v hoff (by omega), ← off_off, Mem.set32, store_off (by omega) (by decide)]
  · have hS : S i := hi.resolve_right hin
    have hlt := h.lt hS
    rw [packInto_out v hoff (by omega), h i hS, Mem.set32, store_notMem]
    intro hmem
    obtain ⟨k, hk, he⟩ := exists_off hmem
    rw [off_off] at he
    have := off_inj (by omega) (by omega) he
    omega

end ShowsOn

/-! ## Buffers and blocks -/

/-- A byte of a main section in RAM, as an offset in the block. -/
def MainByte (h : Header) (num : Nat) (es : Nat → SectEntry) (mode : LoadMode) (i : Nat) : Prop :=
  ∃ idx, firstPlaced mode ≤ idx ∧ idx < 3 ∧ exactMainOffset h num es mode idx ≤ i ∧
    i < exactMainOffset h num es mode idx + (es idx).size.toNat

/-- The buffers have the bytes of the blocks: of the main block those in `S`, of the
tagged sections all. -/
structure Shown (h : Header) (num : Nat) (es : Nat → SectEntry) (mode : LoadMode)
    (secs : Nat → Addr) (p : Addr) (S : Nat → Prop) (ram : Ram) (m : Mem) : Prop where
  length : ram.main.length = exactRamSections h num es mode
  main : ShowsOn S m p ram.main
  blocks : ∀ j, 3 ≤ j → j < num → (es j).size ≠ 0 → ∃ bs, ram.blocks j = some bs ∧
    bs.length = (es j).size.toNat ∧ HasBytes m (secs j) bs

/-- The word of a target is at `x`. -/
inductive TargetAt (h : Header) (num : Nat) (es : Nat → SectEntry) (mode : LoadMode)
    (secs : Nat → Addr) (p : Addr) : Target → Addr → Prop where
  | main (off : Nat) (hle : off + 4 ≤ exactRamSections h num es mode) :
    TargetAt h num es mode secs p (.main off) (p + UInt32.ofNat off)
  | block (j o : Nat) (hj : 3 ≤ j) (hj' : j < num) (ho : o + 4 ≤ (es j).size.toNat) :
    TargetAt h num es mode secs p (.block j o) (secs j + UInt32.ofNat o)

/-- The bytes of the main block that a target covers. -/
def Target.Covers : Target → Nat → Prop
  | .main off, i => off ≤ i ∧ i < off + 4
  | .block _ _, _ => False

section

variable {h : Header} {num : Nat} {es : Nat → SectEntry} {mode : LoadMode} {secs : Nat → Addr}
  {p x : Addr} {S : Nat → Prop} {ram : Ram} {m : Mem} {t : Target} {v : Nat}

theorem Shown.word (hs : Shown h num es mode secs p S ram m)
    (ht : TargetAt h num es mode secs p t x) (hin : ∀ i, t.Covers i → S i) :
    ram.word t = (m.u32 x).toNat := by
  cases ht with
  | main off hle => exact hs.main.word fun i hi hi' => hin i ⟨hi, hi'⟩
  | block j o hj hj' ho =>
    have hne : (es j).size ≠ 0 := fun hz => by
      rw [hz, UInt32.toNat_zero] at ho
      omega
    obtain ⟨bs, hbs, hlen, hb⟩ := hs.blocks j hj hj' hne
    rw [Ram.word, hbs, Option.getD_some]
    exact hb.word4 (by omega)

theorem Shown.mono {T : Nat → Prop} (hs : Shown h num es mode secs p S ram m)
    (hT : ∀ i, T i → S i) : Shown h num es mode secs p T ram m :=
  ⟨hs.length, fun i hi => hs.main i (hT i hi), hs.blocks⟩

/-- One word is written on both sides. -/
theorem Shown.put (hs : Shown h num es mode secs p S ram m)
    (ht : TargetAt h num es mode secs p t x) (hram : exactRamSections h num es mode < 2 ^ 32)
    (hroom : TaggedRoom es secs num ⟨p, exactRamSections h num es mode⟩) :
    Shown h num es mode secs p (fun i => S i ∨ t.Covers i) (ram.put32 v t)
      (m.set32 x (UInt32.ofNat v)) := by
  have hlen := hs.length
  have hblock : ∀ j, 3 ≤ j → j < num → (es j).size ≠ 0 →
      ∀ o, o + 4 ≤ exactRamSections h num es mode → ∀ i, i < (es j).size.toNat →
      secs j + UInt32.ofNat i ∉ (⟨p + UInt32.ofNat o, 4⟩ : Span) := by
    intro j hj hj' hne o ho i hi hmem
    have hlt := (es j).size.toNat_lt
    refine hroom.block j hj hj' hne _ (off_mem hi (by omega)) ?_
    exact Span.subset_def.mp (off_subset ho (by omega)) _ hmem
  cases ht with
  | main off hle =>
    refine ⟨?_, hs.main.put (by omega) (by omega), fun j hj hj' hne => ?_⟩
    · exact (length_packInto v (by omega)).trans hlen
    · obtain ⟨bs, hbs, hl, hb⟩ := hs.blocks j hj hj' hne
      refine ⟨bs, hbs, hl, fun i hi => ?_⟩
      rw [hb i hi, Mem.set32, store_notMem (hblock j hj hj' hne off hle i (by omega))]
  | block k o hk hk' ho =>
    have hnek : (es k).size ≠ 0 := fun hz => by
      rw [hz, UInt32.toNat_zero] at ho
      omega
    have hltk := (es k).size.toNat_lt
    have hin : (⟨secs k + UInt32.ofNat o, 4⟩ : Span) ⊆ ⟨secs k, (es k).size.toNat⟩ :=
      off_subset ho (by omega)
    refine ⟨hlen, ?_, fun j hj hj' hne => ?_⟩
    · intro i hi
      have hS : S i := hi.resolve_right not_false
      refine (hs.main.store fun i hi hmem => ?_) i hS
      have hlt := hs.main.lt hi
      exact hroom.block k hk hk' hnek _ (Span.subset_def.mp hin _ hmem)
        (off_mem (by omega) (by omega))
    · obtain ⟨bs, hbs, hl, hb⟩ := hs.blocks j hj hj' hne
      by_cases hjk : j = k
      · subst hjk
        have hlp : (packInto bs o v).length = bs.length := length_packInto v (by omega)
        have hput : ShowsOn (fun i => i < bs.length ∨ (o ≤ i ∧ i < o + 4)) _ (secs j)
          (packInto bs o v) := ShowsOn.put (v := v) (fun i hi => hb i hi) (by omega) (by omega)
        refine ⟨packInto bs o v, ?_, hlp.trans hl, fun i hi => hput i (Or.inl (by omega))⟩
        dsimp only [Ram.put32]
        rw [Function.update_self, hbs]
        rfl
      · refine ⟨bs, ?_, hl, fun i hi => ?_⟩
        · dsimp only [Ram.put32]
          rw [Function.update_of_ne hjk, hbs]
        · have hlt := (es j).size.toNat_lt
          rw [hb i hi, Mem.set32, store_notMem]
          intro hmem
          have hmem' := Span.subset_def.mp hin _ hmem
          have hown : secs j + UInt32.ofNat i ∈ (⟨secs j, (es j).size.toNat⟩ : Span) :=
            off_mem (by omega) (by omega)
          rcases Nat.lt_or_gt_of_ne hjk with hlt | hgt
          · exact hroom.pairwise j k hj hlt hk' hne hnek _ hown hmem'
          · exact hroom.pairwise k j hk hgt hj' hnek hne _ hmem' hown

end

end Udynlink.Parser
