import Udynlink.UntaggedSymbols

/-!
# Moves against a fresh load

After any number of successful moves the module is the one a load at the last
address leaves. The exception is a weak symbol that the host overrides with the
address the module's own definition has at a block on the way.
-/

namespace Udynlink

open Machine

namespace UntaggedImage

variable {u : UntaggedImage} {p : Addr}

/-- A successful move to a block apart from the current one and from the image. -/
structure Move (u : UntaggedImage) (host : Host) (w w' : State) : Prop where
  ran : ∃ newRam newSize, (udynlinkRelocateModule host newRam newSize).run w = (.ok (), w')
  apart : Span.Disjoint ⟨w.handle.pRam, exactRamUntagged u.header u.mode⟩
    ⟨w'.handle.pRam, exactRamUntagged u.header u.mode⟩
  clear : SourceClear u.image u.header u.mode w'.handle.pRam

/-- Moves that start where no override is taken for the module's own default. -/
def SafeMove (u : UntaggedImage) (host : Host) (w w' : State) : Prop :=
  u.Move host w w' ∧ u.OverridesApart w.handle.pRam

/-- Entries of the LOT name symbols of a kind that is relocated. -/
def LotTyped (u : UntaggedImage) : Prop :=
  ∀ e ∈ u.entries, e.1 < u.header.numLot.toUInt32 →
    ∃ sym, u.sym e = some sym ∧ (isOwnSymbol sym ∨ sym.type = symTypeExtern)

theorem entryWord_isSome {e : RelocEntry} (hb : isBaseRelocation e.2 = false) {sym : Sym}
    (hs : u.sym e = some sym) (ht : isOwnSymbol sym ∨ sym.type = symTypeExtern) :
    (u.entryWord p e).isSome = true := by
  rw [entryWord, hs, refWord_sym hb]
  split
  · rfl
  next hi =>
    split
    · rfl
    next hw =>
      have hext : sym.type = symTypeExtern := by
        rw [isOwnSymbol] at ht
        tauto
      rw [if_pos hext]
      rfl

/-- What a host sees of a module: the block, the header and the symbols. -/
structure SameModule (u : UntaggedImage) (host host' : Host) (w v : State) : Prop where
  pHeader : w.handle.pHeader = v.handle.pHeader
  ram : ∀ i, i < exactRamUntagged u.header u.mode →
    (i < 4 * u.header.numLot.toNat → ∃ e ∈ u.entries, e.1.toNat = i / 4) →
    w.mem (w.handle.pRam + UInt32.ofNat i) = v.mem (v.handle.pRam + UInt32.ofNat i)
  symbols : ∀ index, ((udynlinkGetSymbol index).run w).1 = ((udynlinkGetSymbol index).run v).1
  lookups : ∀ name, ((udynlinkLookupSymbol host name).run w).1 =
    ((udynlinkLookupSymbol host' name).run v).1

section

variable {host host' : Host} {w v : State} (hcon : u.Contiguous)
  (hf : UntaggedFits u.header u.mode) (hend : symtabEnd u.header < 2 ^ 32) (hok : u.EntriesOk)

include hcon hf hend hok in
theorem PlacedAt.moves (h : u.PlacedAt w.handle.pRam w)
    (hrun : Relation.ReflTransGen (u.SafeMove host) w v) : u.PlacedAt v.handle.pRam v := by
  induction hrun with
  | refl => exact h
  | tail _ hstep ih =>
    obtain ⟨⟨⟨newRam, newSize, hran⟩, hdisj, hclear⟩, hapart⟩ := hstep
    exact ih.moved hcon hf hend hok hran hdisj hclear hapart

/-- The part of the block that is not the LOT is the same in front of the code too. -/
theorem PlacedAt.byte_eq (h : u.PlacedAt p w) (h' : u.PlacedAt p v) (hcon : u.Contiguous)
    (hf : UntaggedFits u.header u.mode) {i : Nat} (hlo : 4 * u.header.numLot.toNat ≤ i)
    (hi : i < exactRamUntagged u.header u.mode) :
    w.mem (p + UInt32.ofNat i) = v.mem (p + UInt32.ofNat i) := by
  by_cases hcode : untaggedCodeOff u.header u.mode ≤ i
  · exact (h.reference.agree_behind h'.reference hcode hi).symm
  · -- only a COPY_ALL module has something between the LOT and the code
    have hm : u.mode = .copyAll := by
      by_contra hm
      rw [untaggedCodeOff, if_neg hm] at hcode
      omega
    rw [untaggedCodeOff, if_pos hm] at hcode
    obtain ⟨j, rfl⟩ := Nat.exists_eq_add_of_le hlo
    have hmeta := h.reference.metadata hm
    have hmeta' := h'.reference.metadata hm
    by_cases hj : j < symtabEnd u.header
    · rw [hmeta.byte hcon hf.untagged hj, hmeta'.byte hcon hf.untagged hj]
    · rw [hmeta.pad j (by omega) (by omega), hmeta'.pad j (by omega) (by omega)]

theorem PlacedAt.sameModule (h : u.PlacedAt p w) (h' : u.PlacedAt p v) (hcon : u.Contiguous)
    (hf : UntaggedFits u.header u.mode) (hend : symtabEnd u.header < 2 ^ 32) (hok : u.EntriesOk)
    (hlot : u.LotTyped) (hn : u.NamesTerminated)
    (hres : ∀ v name, host.resolve v name = u.resolve name)
    (hres' : ∀ v name, host'.resolve v name = u.resolve name) : u.SameModule host host' w v := by
  have hhead : w.handle.pHeader = v.handle.pHeader := by rw [h.handle.pHeader, h'.handle.pHeader]
  have hview : SameView w.handle v.handle :=
    ⟨hhead, h.handle.pRam.trans h'.handle.pRam.symm, h.handle.mode.trans h'.handle.mode.symm,
      h.named.trans h'.named.symm⟩
  have hsame := h.metadataSame hcon hf.untagged hend
  have hsame' := h'.metadataSame hcon hf.untagged hend
  have hquery := queryIn_metadata hcon hf.untagged hend hn h.handle hsame
  have hagree : ∀ a, a ∈ u.metadataSpan w.handle → w.mem a = v.mem a := by
    intro a ha
    obtain ⟨i, hi, rfl⟩ := exists_off ha
    rw [h.handle.pHeader_eq, add_right_comm, hsame i hi, hsame' i hi]
  obtain ⟨hsymbols, hlookups⟩ := queries_agree hquery hview hres hres' (fun _ _ => rfl) hagree
  refine ⟨hhead, fun i hi htarget => ?_, hsymbols, hlookups⟩
  rw [h.handle.pRam, h'.handle.pRam]
  by_cases hlo : i < 4 * u.header.numLot.toNat
  · obtain ⟨e, he, hk⟩ := htarget hlo
    have hlt : e.1 < u.header.numLot.toUInt32 := by
      rw [UInt32.lt_iff_toNat_lt, UInt16.toNat_toUInt32]
      omega
    have hb : isBaseRelocation e.2 = false := by
      rw [← Bool.not_eq_true]
      exact fun hb => hok.baseLot e he hb hlt
    obtain ⟨sym, hs, ht⟩ := hlot e he hlt
    have hword := h'.reference.agree_lot h.reference (k := i / 4) (by omega) he
      (entryWord_isSome hb hs ht) hk
    have hbyte := bytes_eq_of_u32 hword (i := i % 4) (by omega)
    rw [off_off, Nat.div_add_mod] at hbyte
    exact hbyte
  · exact h.byte_eq h' hcon hf (Nat.not_lt.mp hlo) hi

end

end UntaggedImage

/-- A loaded module and a run of moves, against a load at the last address. -/
theorem untagged_moves_eq_load {u : UntaggedImage} (hcon : u.Contiguous)
    (hu : isSectioned u.header = false) (hd : (u.entries.map Prod.fst).Nodup)
    (hcode : exactCodeOffset u.header < 2 ^ 32) (hram : exactRamUntagged u.header u.mode < 2 ^ 32)
    (hn : u.NamesTerminated) (hlot : u.LotTyped) {host host' : Host}
    (hres : ∀ v name, host.resolve v name = u.resolve name)
    (hres' : ∀ v name, host'.resolve v name = u.resolve name)
    {w w₁ w₂ v v₁ : State} {loadAddr loadAddr' : Addr} {loadSize loadSize' : UInt32}
    {evs evs' : List (Event HostEvent)} (hm : w.mem = u.m)
    (hload : (udynlinkLoadModuleImage host u.image loadAddr loadSize u.mode).run w = (.ok (), w₁))
    (he : w.Extends w₁ evs)
    (hfair : FairBlocks (untaggedSource u.image u.header) loadAddr loadSize (hostEvents evs))
    (hmoves : Relation.ReflTransGen (u.SafeMove host) w₁ w₂) (hm' : v.mem = u.m)
    (hload' : (udynlinkLoadModuleImage host' u.image loadAddr' loadSize' u.mode).run v =
      (.ok (), v₁)) (he' : v.Extends v₁ evs')
    (hfair' : FairBlocks (untaggedSource u.image u.header) loadAddr' loadSize' (hostEvents evs'))
    (hsame : v₁.handle.pRam = w₂.handle.pRam) : u.SameModule host host' w₂ v₁ := by
  have hq := UntaggedImage.faithful_of_contiguous hcon hu hram hn
  have hend : symtabEnd u.header < 2 ^ 32 :=
    Nat.lt_of_le_of_lt (UntaggedImage.symtabEnd_le hu) hcode
  have hl := UntaggedImage.loaded_of_ok hm hload hu hres hd he hfair hq
  have hl' := UntaggedImage.loaded_of_ok hm' hload' hu hres' hd he' hfair' hq
  have hok := hl.entriesOk hd
  have hplaced := (hl.placedAt hcon hend hq).moves hcon hl.fits hend hok hmoves
  have hplaced' := hl'.placedAt hcon hend hq
  rw [hsame] at hplaced'
  exact hplaced.sameModule hplaced' hcon hl.fits hend hok hlot hn hres hres'

/-! ## Two images -/

/-- Only the entries the table counts are found. -/
theorem getSymAtRaw_count {pSymt index size : UInt32} {sym : Sym} {m : Mem}
    (h : (getSymAtRaw pSymt index size).run m = some sym) : index < m.u32 pSymt := by
  rw [getSymAtRaw, Reader.run_ite] at h
  split at h
  next => simp at h
  next =>
    rw [Reader.run_bind, symtWord, Reader.run_u32, show (0 : UInt32) * 4 = 0 from rfl,
      UInt32.add_zero, Reader.run_ite] at h
    split at h
    next => simp at h
    next hlt => exact UInt32.not_le.mp hlt

/-- Of a table with two entries only two names have to end. -/
theorem namesTerminated_two {u : UntaggedImage} (hcount : u.m.u32 u.image.pSymtab = 2)
    (h : ∀ index, index = 0 ∨ index = 1 →
      ∀ sym, (getSymAtRaw u.image.pSymtab index u.header.symtSize).run u.m = some sym →
        NameTerminated u.image.pSymtab u.header.symtSize u.m sym.name) : u.NamesTerminated := by
  intro index sym hs
  have hlt := getSymAtRaw_count hs
  rw [hcount, UInt32.lt_iff_toNat_lt, show (2 : UInt32).toNat = 2 from rfl] at hlt
  refine h index ?_ sym hs
  rcases Nat.lt_succ_iff_lt_or_eq.mp hlt with h0 | h1
  · exact Or.inl (UInt32.toNat_inj.mp (Nat.lt_one_iff.mp h0))
  · exact Or.inr (UInt32.toNat_inj.mp h1)

/-- The module of `pointersImage` after a move to `0x30000000`. -/
def pointersMoved : State :=
  ((udynlinkRelocateModule pointersHost 0x30000000 16).run pointersLoaded).2

/-- The same image loaded there. -/
def pointersThere : State :=
  ((udynlinkLoadModuleImage pointersHost pointersImage.image 0x30000000 16 .copyTextData).run
    ⟨pointersRom, Module.free, []⟩).2

/-- The move and the second load, each with its block. -/
theorem pointers_moved :
    ((udynlinkRelocateModule pointersHost 0x30000000 16).run pointersLoaded).1 = .ok () ∧
      pointersMoved.handle.pRam = 0x30000000 ∧
      ((udynlinkLoadModuleImage pointersHost pointersImage.image 0x30000000 16 .copyTextData).run
        ⟨pointersRom, Module.free, []⟩).1 = .ok () ∧
      pointersThere.handle.pRam = 0x30000000 ∧
      loadBlocks 0x30000000 16 (hostEvents pointersThere.trace) = [⟨0x30000000, 16⟩] := by
  decide +kernel

theorem pointers_safeMove : pointersImage.SafeMove pointersHost pointersLoaded pointersMoved := by
  obtain ⟨hok, hnew, -⟩ := pointers_moved
  have hmove : (udynlinkRelocateModule pointersHost 0x30000000 16).run pointersLoaded =
      (.ok (), pointersMoved) := Prod.ext hok (by rw [pointersMoved])
  have hram : exactRamUntagged pointersImage.header pointersImage.mode = 16 := by decide +kernel
  have habove : ∀ s ∈ untaggedSource pointersImage.image pointersImage.header,
      s.base.toNat + s.len ≤ (0x30000000 : UInt32).toNat := by decide +kernel
  refine ⟨⟨⟨0x30000000, 16, hmove⟩, ?_, fun s hs => ?_⟩, fun e hmem hb sym hs ht =>
    absurd (Or.inl ht) (pointers_own hmem hb hs)⟩
  · rw [hram, pointers_load.2.1, hnew]
    exact disjoint_of_le (by decide) (by decide)
  · rw [hram, hnew]
    exact disjoint_of_le (habove s hs) (by decide)

theorem pointers_namesTerminated : pointersImage.NamesTerminated := by
  refine namesTerminated_two (by decide +kernel) fun index hi sym hs => ?_
  rcases hi with rfl | rfl
  · have hname : (getSymAtRaw pointersImage.image.pSymtab 0 pointersImage.header.symtSize).run
        pointersImage.m = some ⟨.pool 0x1044, 0, 3, .data⟩ := by decide +kernel
    rw [hname, Option.some.injEq] at hs
    subst hs
    rw [NameTerminated]
    decide +kernel
  · have hlocal : (getSymAtRaw pointersImage.image.pSymtab 1 pointersImage.header.symtSize).run
        pointersImage.m = some ⟨.notAvailable, 0, 0, .code⟩ := by decide +kernel
    rw [hlocal, Option.some.injEq] at hs
    subst hs
    exact trivial

theorem pointers_lotTyped : pointersImage.LotTyped := by
  obtain ⟨hentries, hsym⟩ := pointers_entries
  intro e hmem hlt
  rw [hentries] at hmem
  simp only [List.mem_cons, List.not_mem_nil, or_false] at hmem
  rcases hmem with rfl | rfl
  · exact ⟨_, hsym, Or.inl (Or.inl rfl)⟩
  · exact absurd hlt (by decide +kernel)

theorem untagged_moves_eq_load_pointers :
    pointersImage.SameModule pointersHost pointersHost pointersMoved pointersThere := by
  obtain ⟨-, hnew, hok, hthere, hblocks⟩ := pointers_moved
  have hload : (udynlinkLoadModuleImage pointersHost pointersImage.image 0x30000000 16
      pointersImage.mode).run ⟨pointersRom, Module.free, []⟩ = (.ok (), pointersThere) := by
    have hmode : pointersImage.mode = .copyTextData := rfl
    rw [hmode]
    exact Prod.ext hok (by rw [pointersThere])
  obtain ⟨evs, he⟩ := Prog.extends_of_run hload
  have htrace : pointersThere.trace = evs := he.1
  rw [htrace] at hblocks
  exact untagged_moves_eq_load (u := pointersImage) (by decide +kernel) (by decide +kernel)
    (by decide +kernel) (by decide +kernel) (by decide +kernel) pointers_namesTerminated
    pointers_lotTyped (fun _ _ => rfl) (fun _ _ => rfl) rfl pointers_loads pointers_extends
    pointers_fairBlocks (.single pointers_safeMove) rfl hload he
    (fairBlocks_above hblocks (by decide +kernel) (by decide)) (by rw [hnew, hthere])

/-- A weak symbol `e` one past the end of the zeroed data, in the LOT. -/
def weakEndRom : Mem := .ofWords 0x1000
  [0x4D4C4455, 0x03010000, 0x00010000, 1, 24, 4, 4, 4, 0, 1,
    2, 0x18000014, 0, 0x20000016, 8, 0x0065006D, 0x47704770, 2]

def weakEndImage : UntaggedImage :=
  ⟨⟨0x1000, 0x1020, 0x1028, 0x1040, 0x1044⟩, weakEndRom, .copyTextData, fun _ => 0x20000010⟩

/-- The host's own `e` starts behind the first block. -/
def weakEndHost : Host := .bump 0x20000000 fun _ => 0x20000010

def weakEndMoved : State :=
  ((udynlinkRelocateModule weakEndHost 0x30000000 16).run
    ((udynlinkLoadModuleImage weakEndHost weakEndImage.image 0 0 .copyTextData).run
      ⟨weakEndRom, Module.free, []⟩).2).2

def weakEndThere : State :=
  ((udynlinkLoadModuleImage weakEndHost weakEndImage.image 0x30000000 16 .copyTextData).run
    ⟨weakEndRom, Module.free, []⟩).2

/-- The override is moved along as if it were the module's default. -/
theorem weak_override_moved : weakEndImage.Contiguous ∧
    ((udynlinkLoadModuleImage weakEndHost weakEndImage.image 0 0 .copyTextData).run
      ⟨weakEndRom, Module.free, []⟩).1 = .ok () ∧
    ((udynlinkRelocateModule weakEndHost 0x30000000 16).run
      ((udynlinkLoadModuleImage weakEndHost weakEndImage.image 0 0 .copyTextData).run
        ⟨weakEndRom, Module.free, []⟩).2).1 = .ok () ∧
    ((udynlinkLoadModuleImage weakEndHost weakEndImage.image 0x30000000 16 .copyTextData).run
      ⟨weakEndRom, Module.free, []⟩).1 = .ok () ∧
    weakEndMoved.handle.pRam = weakEndThere.handle.pRam ∧
    ¬ weakEndImage.SameModule weakEndHost weakEndHost weakEndMoved weakEndThere := by
  refine ⟨by decide +kernel, by decide +kernel, by decide +kernel, by decide +kernel,
    by decide +kernel, fun h => ?_⟩
  have hbyte := h.ram 3 (by decide +kernel) (by decide +kernel)
  exact absurd hbyte (by decide +kernel)

end Udynlink
