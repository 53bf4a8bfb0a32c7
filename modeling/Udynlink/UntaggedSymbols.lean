import Udynlink.Machine.Alike
import Udynlink.UntaggedRun

/-!
# Symbols of a moved module

Queries look at the handle, the header and the symbol table only. Two modules at
one address, with the metadata of one image, answer every query alike.
-/

namespace Udynlink

open Machine

/-- The address of a symbol does not depend on who owns the block. -/
theorem offsetSym_congr {mod mod' : Module} (hp : mod.pHeader = mod'.pHeader)
    (hr : mod.pRam = mod'.pRam) (hm : mod.mode = mod'.mode) (sym : Sym) :
    offsetSym mod sym = offsetSym mod' sym := by
  simp only [offsetSym, resolveRuntimeVa, getSectionBaseIdx, getCodePointer, getDataPointer,
    baseSlot, hp, hr, hm]

theorem within_offsetSym {P : Addr → Prop} {mod : Module} {m : Mem} (h : Covers P ⟨mod.pHeader, 32⟩)
    (hu : isSectioned (decodeHeader m mod.pHeader) = false) (sym : Sym) :
    (offsetSym mod sym).Within P m := by
  have hmod : ModIn P mod 0 m := ⟨h, fun k _ hk => absurd hk (by omega)⟩
  rw [offsetSym]
  refine Reader.within_ite (fun _ => ?_) fun _ => Reader.within_pure P _ m
  rw [Reader.within_bind, readHeader_run, hu, if_neg Bool.false_ne_true]
  refine ⟨within_readHeader h m, Reader.within_ite (fun _ => ?_) fun _ => ?_⟩
  · rw [Reader.within_bind]
    exact ⟨@within_getCodePointer P ⟨0, 0, 0⟩ mod m hmod hu, Reader.within_pure P _ m⟩
  · rw [Reader.within_bind]
    exact ⟨@within_getDataPointer P ⟨0, 0, 0⟩ mod m hmod hu, Reader.within_pure P _ m⟩

/-- Two handles a query cannot tell apart. -/
structure SameView (mod mod' : Module) : Prop where
  pHeader : mod.pHeader = mod'.pHeader
  pRam : mod.pRam = mod'.pRam
  mode : mod.mode = mod'.mode
  named : mod.numNamedSyms = mod'.numNamedSyms

/-- What a query of `mod` may look at, and that nothing else matters. -/
structure QueryIn (P : Addr → Prop) (mod : Module) (m : Mem) : Prop where
  header : Covers P ⟨mod.pHeader, 32⟩
  untagged : isSectioned (decodeHeader m mod.pHeader) = false
  sym : ∀ index, (getSymAt mod.pHeader index).Within P m
  name : ∀ index sym, (getSymAt mod.pHeader index).run m = some sym →
    ∀ q, (strcmpName sym.name q).Within P m

section Queries

variable {P : Addr → Prop} {m : Mem} {mod mod' : Module} {host host' : Host}
  {resolve : List UInt8 → Addr} (hq : QueryIn P mod m) (hs : SameView mod mod')
  (hres : ∀ v name, host.resolve v name = resolve name)
  (hres' : ∀ v name, host'.resolve v name = resolve name)

include hq hs

theorem getSymbol_alike (index : UInt32) :
    Prog.Alike P m
      ((do
        let sym? ← getSymAt mod.pHeader index
        match sym? with
        | none => pure none
        | some sym => do
          let sym ← offsetSym mod sym
          pure (some sym)) : Loader (Option Sym))
      (do
        let sym? ← getSymAt mod'.pHeader index
        match sym? with
        | none => pure none
        | some sym => do
          let sym ← offsetSym mod' sym
          pure (some sym)) := by
  rw [← hs.pHeader]
  refine Prog.alike_lift_bind (hq.sym index) ?_
  cases (getSymAt mod.pHeader index).run m with
  | none => exact Prog.alike_pure none
  | some sym =>
    dsimp only
    rw [← offsetSym_congr hs.pHeader hs.pRam hs.mode]
    exact Prog.alike_lift_bind (within_offsetSym hq.header hq.untagged sym) (Prog.alike_pure _)

include hres hres'

theorem finishLookup_alike (name : List UInt8) (sym : Sym) :
    Prog.Alike P m (finishLookup host mod name sym) (finishLookup host' mod' name sym) := by
  rw [finishLookup, finishLookup, ← offsetSym_congr hs.pHeader hs.pRam hs.mode]
  refine Prog.alike_lift_bind (within_offsetSym hq.header hq.untagged sym) ?_
  refine Prog.alike_ite (fun _ => ?_) fun _ => Prog.alike_pure _
  refine Prog.alike_bind (Prog.alike_host (fun w => hres w name) fun w => hres' w name) fun ans => ?_
  refine Prog.alike_ite (fun _ => Prog.alike_pure _) fun _ => ?_
  exact Prog.alike_ite (fun _ => Prog.alike_pure _) fun _ => Prog.alike_pure _

theorem lookupBinary_alike (name : List UInt8) (n lo hi : Nat) :
    Prog.Alike P m (lookupBinary host mod name n lo hi) (lookupBinary host' mod' name n lo hi) := by
  induction n generalizing lo hi with
  | zero => exact Prog.alike_pure none
  | succ n ih =>
    rw [lookupBinary, lookupBinary, ← hs.pHeader]
    refine Prog.alike_ite (fun _ => Prog.alike_pure none) fun _ => ?_
    refine Prog.alike_lift_bind (hq.sym _) ?_
    cases hsym : (getSymAt mod.pHeader (UInt32.ofNat (lo + (hi - lo) / 2))).run m with
    | none => exact Prog.alike_pure none
    | some sym =>
      refine Prog.alike_lift_bind (hq.name _ sym hsym name) ?_
      cases (strcmpName sym.name name).run m with
      | lt => exact ih _ _
      | gt => exact ih _ _
      | eq =>
        exact Prog.alike_bind (finishLookup_alike hq hs hres hres' name sym) fun _ =>
          Prog.alike_pure _

theorem lookupLinear_alike (name : List UInt8) (n : Nat) (idx : UInt32) :
    Prog.Alike P m (lookupLinear host mod name n idx) (lookupLinear host' mod' name n idx) := by
  induction n generalizing idx with
  | zero => exact Prog.alike_pure none
  | succ n ih =>
    rw [lookupLinear, lookupLinear, ← hs.pHeader]
    refine Prog.alike_lift_bind (hq.sym _) ?_
    cases hsym : (getSymAt mod.pHeader idx).run m with
    | none => exact Prog.alike_pure none
    | some sym =>
      refine Prog.alike_ite (fun _ => ih _) fun _ => ?_
      refine Prog.alike_lift_bind (hq.name _ sym hsym name) ?_
      refine Prog.alike_ite (fun _ => ?_) fun _ => ih _
      exact Prog.alike_bind (finishLookup_alike hq hs hres hres' name sym) fun _ =>
        Prog.alike_pure _

end Queries

/-- Both worlds answer every query with the same symbol. -/
theorem queries_agree {P : Addr → Prop} {m : Mem} {host host' : Host} {w v : State}
    {resolve : List UInt8 → Addr} (hq : QueryIn P w.handle m) (hs : SameView w.handle v.handle)
    (hres : ∀ v name, host.resolve v name = resolve name)
    (hres' : ∀ v name, host'.resolve v name = resolve name) (hw : ∀ a, P a → m a = w.mem a)
    (hv : ∀ a, P a → m a = v.mem a) :
    (∀ index, ((udynlinkGetSymbol index).run w).1 = ((udynlinkGetSymbol index).run v).1) ∧
      ∀ name, ((udynlinkLookupSymbol host name).run w).1 =
        ((udynlinkLookupSymbol host' name).run v).1 := by
  constructor
  · intro index
    rw [udynlinkGetSymbol, Prog.run_getHandle_bind, Prog.run_getHandle_bind, ← hs.pHeader]
    split
    · rfl
    · have hsame := (getSymbol_alike hq hs index).result hw hv
      rw [← hs.pHeader] at hsame
      exact hsame
  · intro name
    rw [udynlinkLookupSymbol, udynlinkLookupSymbol, Prog.run_getHandle_bind,
      Prog.run_getHandle_bind, ← hs.named]
    split
    · exact (lookupBinary_alike hq hs hres hres' name _ _ _).result hw hv
    · exact (lookupLinear_alike hq hs hres hres' name _ _).result hw hv

namespace UntaggedImage

variable {u : UntaggedImage} {p : Addr}

/-- The span a handle's metadata fills. -/
def metadataSpan (u : UntaggedImage) (mod : Module) : Span := ⟨mod.pHeader, symtabEnd u.header⟩

theorem queryIn_metadata {mod : Module} {m : Mem} (hcon : u.Contiguous)
    (hu : isSectioned u.header = false) (hend : symtabEnd u.header < 2 ^ 32)
    (hn : u.NamesTerminated) (hp : u.PlacedHandle p mod)
    (hm : u.MetadataSame (u.metadataShift p) m) : QueryIn (· ∈ u.metadataSpan mod) mod m := by
  have hge := getHeaderSize_ge u.header
  have hheader : decodeHeader m mod.pHeader = u.header := by
    rw [hp.pHeader_eq]
    exact metadata_header hm
  have hcovers : ∀ k len, k + len ≤ symtabEnd u.header →
      Covers (· ∈ u.metadataSpan mod) ⟨mod.pHeader + UInt32.ofNat k, len⟩ := fun k len hk =>
    off_subset hk (Nat.le_of_lt hend)
  have hcover : Covers (· ∈ u.metadataSpan mod) ⟨mod.pHeader, 32⟩ :=
    prefix_subset (by rw [symtabEnd]; omega)
  refine ⟨hcover, by rw [hheader, hu], fun index => ?_, fun index sym hsym name => ?_⟩
  · rw [getSymAt, Reader.within_bind, readHeader_run, hheader]
    refine ⟨within_readHeader hcover m, within_getSymAtRaw_any ?_ ?_ index m⟩
    · rw [getSymTablePointer_eq]
      exact hcovers _ _ (by rw [symtabEnd])
    · have hsub : getSymTablePointer mod.pHeader u.header - 4 = mod.pHeader +
          UInt32.ofNat ((getHeaderSize u.header).toNat + 8 * u.header.numRels.toNat - 4) := by
        rw [getSymTablePointer_eq, UInt32.ofNat_sub (by omega)]
        abel
      rw [hsub]
      exact hcovers _ _ (by rw [symtabEnd]; omega)
  · rw [hp.pHeader_eq, metadata_sym hcon hu hend hm] at hsym
    obtain ⟨sym₀, hs₀, rfl⟩ := Option.map_eq_some_iff.mp hsym
    have hterm := hn index sym₀ hs₀
    rw [Sym.shift]
    dsimp only
    cases hq : sym₀.name with
    | notAvailable => exact Reader.within_pure _ _ m
    | pool q =>
      -- the name lies `off` bytes into the table
      have hlt := UInt32.lt_iff_toNat_lt.mp (getSymAtRaw_name hs₀ hq)
      have hsize := u.header.symtSize.toNat_lt
      rw [hq, NameTerminated, Reader.memchr0_iff,
        UInt32.toNat_sub_of_le _ _ (UInt32.le_of_lt (getSymAtRaw_name hs₀ hq))] at hterm
      obtain ⟨k, hk, hz⟩ := hterm
      have hpos : ∀ i, i < u.header.symtSize.toNat - (q - u.image.pSymtab).toNat →
          q + UInt32.ofNat i = u.image.pHeader + UInt32.ofNat ((getHeaderSize u.header).toNat +
            8 * u.header.numRels.toNat + ((q - u.image.pSymtab).toNat + i)) := by
        intro i _
        rw [← off_off, ← (image_eq hcon hu).2.1, ← off_off, off_distance]
      have hin : ∀ i, i < u.header.symtSize.toNat - (q - u.image.pSymtab).toNat →
          (getHeaderSize u.header).toNat + 8 * u.header.numRels.toNat +
            ((q - u.image.pSymtab).toNat + i) < symtabEnd u.header := by
        intro i hi
        rw [symtabEnd]
        omega
      refine Reader.within_strcmp
        (n := u.header.symtSize.toNat - (q - u.image.pSymtab).toNat) ?_ fun i hi => ?_
      · refine Reader.memchr0_iff.mpr ⟨k, hk, ?_⟩
        rw [add_right_comm, hpos k hk, hm _ (hin k hk), ← hpos k hk]
        exact hz
      · rw [metadataSpan, hp.pHeader_eq, add_right_comm, hpos i hi, add_right_comm]
        exact off_mem (hin i hi) (Nat.le_of_lt hend)

end UntaggedImage

end Udynlink
