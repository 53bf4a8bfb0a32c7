import Mathlib

/-!
# The packer: LOT slots and relocations

The part of `mkmodule`'s `process` that turns the symbols and relocations of a
linked object into LOT slots, patched literal pools and the relocation table.
`none` is an exit of the script: a failed `check`, an `error`, or an exception.
-/

namespace Udynlink.Mkmodule

/-! ## The linked object -/

/-- Identity of a symbol: its symbol table and its index there. -/
abbrev Key := Nat × Nat

inductive SymBind where
  | global
  | weak
  | other
deriving DecidableEq, Repr

inductive SymType where
  | file
  | notype
  | other
deriving DecidableEq, Repr

/-- `st_shndx`: undefined, a section, or one of the other special values. -/
inductive SymSection where
  | undef
  | index (i : Nat)
  | special
deriving DecidableEq, Repr

structure ElfSymbol where
  key : Key
  name : String
  bind : SymBind
  type : SymType
  size : Nat
  sect : SymSection
  value : Nat
deriving DecidableEq, Repr

inductive RelType where
  | gotBrel
  | abs32
  | target1
  | thmCall
  | thmJump24
  | other
deriving DecidableEq, Repr

structure Rel where
  offset : Nat
  type : RelType
  key : Key
deriving DecidableEq, Repr

/-- A packed section with its VA span; `.bss` has no bytes. -/
structure PayloadBuf where
  lo : Nat
  hi : Nat
  name : String
  buf : Option (List UInt8)
deriving DecidableEq, Repr

/-- What `process` reads from the ELF, with the gaps already folded in. The main
code comes first among the payloads. -/
structure LinkedObject where
  syms : List ElfSymbol
  rels : List Rel
  /-- Names of the sections, for relocations against nameless symbols. -/
  sectionName : SymSection → String
  /-- `sect_idx_mapping` without `SHN_UNDEF`. -/
  packedName : SymSection → Option String
  codeSize : Nat
  code : List UInt8
  rest : List PayloadBuf
  sectioned : Bool
  /-- The name filters of the command line. -/
  demoted : ElfSymbol → Bool
  moduleName : String
  keys_nodup : (syms.map ElfSymbol.key).Nodup

inductive SymClass where
  | localSym
  | exported
  | external
  | weak
deriving DecidableEq, Repr

/-- An entry of `local_relocs`, `foreign_relocs` or `data_relocs`. -/
structure RelocTuple where
  key : Key
  name : String
  offset : Nat
  value : Nat
deriving DecidableEq, Repr

def relocFlagDataBase : Nat := 0x80000000

def relocFlagCodeBase : Nat := 0x40000000

def requiresPrefix : String := ".udynlink.mod.requires."

/-- A symbol that declares a dependency. -/
def isRequires (name : String) : Bool := requiresPrefix.toList.isPrefixOf name.toList

/-! ## Words in a payload -/

/-- Byte `i` of a little-endian word. -/
def wordByte (v i : Nat) : UInt8 := UInt8.ofNat (v / 256 ^ i)

/-- `struct.pack_into("<I", buf, i, v)` -/
def packInto (bs : List UInt8) (i v : Nat) : List UInt8 :=
  (((bs.set i (wordByte v 0)).set (i + 1) (wordByte v 1)).set (i + 2) (wordByte v 2)).set (i + 3)
    (wordByte v 3)

/-- `struct.unpack_from("<I", buf, i)` -/
def unpackFrom (bs : List UInt8) (i : Nat) : Nat :=
  (bs.getD i 0).toNat + 256 * (bs.getD (i + 1) 0).toNat + 65536 * (bs.getD (i + 2) 0).toNat +
    16777216 * (bs.getD (i + 3) 0).toNat

/-- Binding and definedness; mapping symbols and nameless ones are left out. -/
def ElfSymbol.boundClass (sd : ElfSymbol) : Option SymClass :=
  if sd.name = "" ∨ sd.name = "$t" ∨ sd.name = "$d" then none
  else match sd.bind with
    | .global => some (if sd.sect = .undef then .external else .exported)
    | .weak => some (if sd.sect = .undef then .external else .weak)
    | .other => if sd.type = .file then none else some .localSym

namespace LinkedObject

variable (o : LinkedObject)

/-! ## Symbols -/

def symData (key : Key) : Option ElfSymbol := o.syms.find? fun sd => sd.key = key

/-- The name a relocation goes by. -/
def relName (sd : ElfSymbol) : String := if sd.name = "" then o.sectionName sd.sect else sd.name

/-- Dependency declarations are external; filtered names are local. -/
def symClass (sd : ElfSymbol) : Option SymClass :=
  sd.boundClass.map fun c =>
    let c := if isRequires sd.name ∧ c = .exported then .external else c
    if (c = .exported ∨ c = .weak) ∧ o.demoted sd then .localSym else c

def symMap : List (Key × SymClass) := o.syms.filterMap fun sd => (o.symClass sd).map (sd.key, ·)

/-- Global and weak names are unique. -/
def nonlocalNames : List String :=
  (o.syms.filter fun sd => sd.name ≠ "" ∧ sd.name ≠ "$t" ∧ sd.name ≠ "$d" ∧ sd.bind ≠ .other).map
    ElfSymbol.name

def initArrayNames : List String :=
  ["__init_array_start", "__init_array_end", "__preinit_array_start", "__preinit_array_end"]

/-- The four sentinels of an empty init array, when all of them are there. -/
def emptyInitKeys : List Key :=
  let found := initArrayNames.filterMap fun n => o.syms.find? fun sd => sd.name = n
  if found.length = 4 ∧ (found.all fun sd => sd.bind = .global ∧ sd.type = .notype ∧ sd.size = 0 ∧
      some sd.value = found.head?.map ElfSymbol.value) then found.map ElfSymbol.key
  else []

/-! ## Payloads -/

/-- The bytes as they are patched; only the main code is the buffer that ships. -/
def payloadBufs : List PayloadBuf := ⟨0, o.code.length, ".text", some o.code⟩ :: o.rest

/-- Section of a relocation site. -/
def siteSection (addr : Nat) : Option String :=
  (o.payloadBufs.find? fun b => b.lo ≤ addr ∧ addr < b.hi).map PayloadBuf.name

/-- The buffer that holds the word at an address, by its place in the list. -/
def payloadAt (addr : Nat) : Option Nat :=
  o.payloadBufs.findIdx? fun b => b.buf.isSome ∧ b.lo ≤ addr ∧ addr < b.hi

/-! ## Relocations -/

/-- What `process` says to one relocation before any slot is given out. -/
def relAccepted (r : Rel) : Bool :=
  match o.symData r.key with
  | none => true
  | some sd =>
    match r.type with
    | .thmCall | .thmJump24 =>
      !o.sectioned || match o.siteSection r.offset with
        | none => true
        | some src => o.packedName sd.sect == some src
    | .gotBrel => (o.symClass sd).isSome
    | .abs32 | .target1 => true
    | .other => false

def isData (r : Rel) : Bool := r.type = .abs32 ∨ r.type = .target1

/-- Relocations of one kind whose symbol is known. -/
def known (p : Rel → Bool) : List (Rel × ElfSymbol) :=
  o.rels.filterMap fun r => if p r then (o.symData r.key).map (r, ·) else none

def gotTuple (x : Rel × ElfSymbol) : RelocTuple :=
  ⟨x.1.key, o.relName x.2, x.1.offset, x.2.value⟩

def gotRels : List (Rel × ElfSymbol) := o.known fun r => r.type = .gotBrel

def localRelocs : List RelocTuple :=
  (o.gotRels.filter fun x => o.symClass x.2 ≠ some .external).map o.gotTuple

def foreignRelocs : List RelocTuple :=
  (o.gotRels.filter fun x => o.symClass x.2 = some .external).map o.gotTuple

/-- Keys in the order of their first use; the place is the slot. -/
def lotKeys : List Key :=
  o.gotRels.foldl (fun ks x => if x.1.key ∈ ks then ks else ks ++ [x.1.key]) []

def lotEntries : Nat := o.lotKeys.length

def lotSlot (key : Key) : Nat := o.lotKeys.idxOf key

/-- The index of a data word behind the LOT. -/
def dataOffset (r : Rel) : Nat := o.lotEntries + (r.offset - o.codeSize) / 4

def dataTuple (x : Rel × ElfSymbol) : RelocTuple :=
  ⟨x.1.key, o.relName x.2, o.dataOffset x.1, x.2.value⟩

def dataRels : List (Rel × ElfSymbol) := o.known isData

/-- A data word is word aligned, also from the end of the code, and behind it. -/
def dataAccepted (x : Rel × ElfSymbol) : Bool :=
  x.1.offset % 4 = 0 ∧ ((x.1.offset : Int) - o.codeSize) % 4 = 0 ∧ o.codeSize ≤ x.1.offset

def dataRelocs : List RelocTuple := o.dataRels.map o.dataTuple

def referencedKeys : List Key :=
  o.lotKeys ++ (o.dataRelocs.filter fun t => t.name ≠ ".data").map RelocTuple.key

/-! ## Patching the literal pools -/

/-- One site of the main code or of another buffer; the others are patched in a
copy that is not the payload. -/
def patchSite (code : List UInt8) (t : RelocTuple) : Option (List UInt8) :=
  match o.payloadAt t.offset with
  | none => none
  | some 0 =>
    if t.offset + 4 ≤ code.length then some (packInto code t.offset (o.lotSlot t.key * 4)) else none
  | some (n + 1) =>
    match o.rest[n]? with
    | some b => if t.offset - b.lo + 4 ≤ (b.buf.getD []).length then some code else none
    | none => none

def patchCode : Option (List UInt8) :=
  (o.localRelocs ++ o.foreignRelocs).foldlM o.patchSite o.code

/-! ## The symbol list -/

def keyName (key : Key) : String := ((o.symData key).map ElfSymbol.name).getD ""

def slistAll : List (Key × SymClass) :=
  o.symMap.filter fun x => (x.1 ∈ o.referencedKeys ∨ x.2 ≠ .localSym) ∧
    ¬ (x.1 ∈ o.emptyInitKeys ∧ x.1 ∉ o.referencedKeys)

/-- Named symbols in order of their names, then the others; index 0 is the name
of the module. -/
def slist : List Key :=
  ((o.slistAll.filter fun x => x.2 ≠ .localSym).map Prod.fst).insertionSort
    (fun a b => o.keyName a ≤ o.keyName b) ++
      (o.slistAll.filter fun x => x.2 = .localSym).map Prod.fst

def symtMapping (key : Key) : Option Nat := (o.slist.idxOf? key).map (· + 1)

/-- Every symbol of the list lies in a packed section or is undefined. -/
def placed (key : Key) : Bool :=
  match o.symData key with
  | none => false
  | some sd => sd.sect = .undef ∨ (o.packedName sd.sect).isSome

/-! ## The relocation table -/

/-- `f"{key}{offset}{value}"` -/
def formatKey (key : Key) (offset value : Nat) : String := s!"({key.1}, {key.2}){offset}{value}"

/-- An entry written to the table, with the key it is remembered by. -/
structure Written where
  key : Key
  offset : Nat
  value : Nat
deriving DecidableEq, Repr

def Written.mark (e : Written) : String := formatKey e.key e.offset e.value

def depFirst (t : RelocTuple) : Nat := if isRequires t.name then 0 else 1

def orderedRelocs : List RelocTuple :=
  (o.localRelocs ++ o.foreignRelocs ++ o.dataRelocs).insertionSort fun a b =>
    depFirst a ≤ depFirst b

/-- One round of the writing loop; `.text` and `.data` stand for the bases. -/
def writeReloc (written : List Written) (t : RelocTuple) : Option (List Written) :=
  if t.name = ".text" then some (written ++ [⟨t.key, t.offset, relocFlagCodeBase ||| t.value⟩])
  else if t.name = ".data" then some (written ++ [⟨t.key, t.offset, relocFlagDataBase ||| t.value⟩])
  else do
    let offset := if t ∉ o.dataRelocs then o.lotSlot t.key else t.offset
    let value ← o.symtMapping t.key
    let e : Written := ⟨t.key, offset, value⟩
    if e.mark ∈ written.map Written.mark then some written else some (written ++ [e])

def writtenRelocs : Option (List Written) := o.orderedRelocs.foldlM o.writeReloc []

structure Packed where
  lotEntries : Nat
  code : List UInt8
  slist : List Key
  relocs : List (Nat × Nat)
deriving DecidableEq

/-- The counts have to fit their fields: `<H` for slots and relocations, and the
entries alone must fit the `<I` of the symbol table's size. -/
def process : Option Packed :=
  if o.nonlocalNames.Nodup ∧ o.rels.all o.relAccepted ∧ o.dataRels.all o.dataAccepted ∧
      o.slist.all o.placed then do
    let code ← o.patchCode
    let written ← o.writtenRelocs
    if o.lotEntries < 2 ^ 16 ∧ written.length < 2 ^ 16 ∧ 8 * (o.slist.length + 1) + 4 < 2 ^ 32 then
      some ⟨o.lotEntries, code, o.slist, written.map fun e => (e.offset, e.value)⟩
    else none
  else none

end LinkedObject

end Udynlink.Mkmodule
