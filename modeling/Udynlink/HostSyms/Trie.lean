import Udynlink.HostSyms.HashTable

/-!
# The trie of the host's symbols

`mkhostsyms` collects the names in nested dictionaries and flattens them depth
first into nodes with a child and a sibling index; `udynlink_resolve_trie_symbol`
walks the nodes with one cursor.
-/

namespace Udynlink.HostSyms

/-! ## The dictionaries -/

def trieNone : Nat := 0xFFFF

/-- A dictionary of one level, in the order its keys came. -/
inductive Level where
  | nil
  | cons (ch : UInt8) (isLeaf : Bool) (leafIndex : Nat) (children rest : Level)
deriving DecidableEq, Repr

/-- What a dictionary holds for a key. -/
structure Entry where
  isLeaf : Bool
  leafIndex : Nat
  children : Level
deriving DecidableEq, Repr

namespace Level

/-- `current[ch]`, made when it is not there, and what becomes of it. -/
def update (ch : UInt8) (f : Entry → Entry) : Level → Level
  | .nil =>
    let e := f ⟨false, trieNone, .nil⟩
    .cons ch e.isLeaf e.leafIndex e.children .nil
  | .cons c isLeaf leafIndex children rest =>
    if c = ch then
      let e := f ⟨isLeaf, leafIndex, children⟩
      .cons c e.isLeaf e.leafIndex e.children rest
    else .cons c isLeaf leafIndex children (update ch f rest)

def insert : List UInt8 → Nat → Level → Level
  | [], _, level => level
  | [ch], leafIndex, level => level.update ch fun e => { e with isLeaf := true, leafIndex }
  | ch :: c :: cs, leafIndex, level =>
    level.update ch fun e => { e with children := insert (c :: cs) leafIndex e.children }

def insertAll : List (List UInt8) → Nat → Level → Level
  | [], _, level => level
  | name :: names, leafIndex, level => insertAll names (leafIndex + 1) (insert name leafIndex level)

def insertSorted (ch : UInt8) (e : Entry) : Level → Level
  | .nil => .cons ch e.isLeaf e.leafIndex e.children .nil
  | .cons c isLeaf leafIndex children rest =>
    if ch ≤ c then .cons ch e.isLeaf e.leafIndex e.children (.cons c isLeaf leafIndex children rest)
    else .cons c isLeaf leafIndex children (insertSorted ch e rest)

/-- `sorted(level_dict.keys())`, at every level. -/
def sorted : Level → Level
  | .nil => .nil
  | .cons ch isLeaf leafIndex children rest =>
    insertSorted ch ⟨isLeaf, leafIndex, sorted children⟩ (sorted rest)

end Level

/-! ## The nodes -/

def flagLeaf : UInt16 := 0x0100
def flagHasChild : UInt16 := 0x0200

structure FlatNode where
  ch : UInt8
  flags : UInt16
  child : Nat
  sibling : Nat
  leafIndex : Nat
deriving DecidableEq, Repr

def nodeFlags (isLeaf hasChild : Bool) : UInt16 :=
  (if isLeaf then flagLeaf else 0) ||| (if hasChild then flagHasChild else 0)

/-- The loop that sets the sibling of every node of a level but the last. -/
def linkSiblings : List Nat → List FlatNode → List FlatNode
  | i :: j :: is, flat =>
    linkSiblings (j :: is) (flat.modify i fun node => { node with sibling := j })
  | _, flat => flat

/-- The loop of `_emit_level` over a sorted level: the nodes so far, and the indices
of the level. A child level is complete before its node is. -/
def emitNodes : Level → List FlatNode → List FlatNode × List Nat
  | .nil, flat => (flat, [])
  | .cons ch isLeaf leafIndex children rest, flat =>
    let idx := flat.length
    let below := emitNodes children (flat ++ [⟨0, 0, trieNone, trieNone, trieNone⟩])
    let node : FlatNode := ⟨ch, nodeFlags isLeaf (!below.2.isEmpty), below.2.headD trieNone,
      trieNone, leafIndex⟩
    let next := emitNodes rest ((linkSiblings below.2 below.1).set idx node)
    (next.1, idx :: next.2)

def emitLevel (level : Level) (flat : List FlatNode) : List FlatNode × List Nat :=
  let out := emitNodes level flat
  (linkSiblings out.2 out.1, out.2)

structure TrieNode where
  chFlags : UInt16
  sibling : UInt16
  child : UInt16
  leafIndex : UInt16
deriving DecidableEq, Repr

structure TrieTable where
  numNodes : Nat
  numLeaves : Nat
  rootChild : UInt16
  nodes : List TrieNode
  leafAddrs : List UInt32
deriving DecidableEq, Repr

/-- A node as it is written, in four halfwords. -/
def trieNode (n : FlatNode) : TrieNode :=
  ⟨n.flags ||| (n.ch.toUInt16 &&& 0xFF), UInt16.ofNat n.sibling, UInt16.ofNat n.child,
    UInt16.ofNat n.leafIndex⟩

/-- The dictionaries of all names. -/
def trieOf (symbols : List HostSymbol) : Level :=
  Level.insertAll (symbols.map fun s => s.name.bytes) 0 .nil

/-- The nodes of a list of symbols, before they are written. -/
def trieNodes (symbols : List HostSymbol) : List FlatNode × List Nat :=
  emitLevel (trieOf symbols).sorted []

/-- `TrieFormat.build`. -/
def buildTrieTable (symbols : List HostSymbol) : TrieTable :=
  if symbols = [] then ⟨0, 0, UInt16.ofNat trieNone, [], []⟩
  else
    { numNodes := (trieNodes symbols).1.length
      numLeaves := symbols.length
      rootChild := UInt16.ofNat ((trieNodes symbols).2.headD trieNone)
      nodes := (trieNodes symbols).1.map trieNode
      leafAddrs := symbols.map HostSymbol.addr }

/-! ## The walker -/

def nodeChar (n : TrieNode) : UInt8 := (n.chFlags &&& 0xFF).toUInt8

/-- The loop over the siblings from `cur` on: the index of the node with the
character, or none. -/
def scanSiblings (nodes : List TrieNode) (c : UInt8) : Nat → UInt16 → Except Fault (Option UInt16)
  | 0, _ => .error .endless
  | fuel + 1, cur =>
    if cur = 0xFFFF then pure none
    else do
      let node ← readAt nodes cur.toNat
      if nodeChar node = c then pure (some cur)
      else if nodeChar node > c then pure none
      else scanSiblings nodes c fuel node.sibling

/-- The loop over the characters: the node of the last one. -/
def walkTrie (nodes : List TrieNode) : List UInt8 → UInt16 → UInt16 → Except Fault (Option UInt16)
  | [], _, matchedIdx => pure (some matchedIdx)
  | c :: cs, nextLevel, _ => do
    let found ← scanSiblings nodes c (nodes.length + 1) nextLevel
    match found with
    | none => pure none
    | some cur => do
      let node ← readAt nodes cur.toNat
      walkTrie nodes cs node.child cur

def resolveTrieSymbol (t : TrieTable) (name : CString) : Except Fault UInt32 :=
  if t.numNodes = 0 then pure 0
  else do
    let matched ← walkTrie t.nodes name.bytes t.rootChild 0xFFFF
    match matched with
    | none => pure 0
    | some idx =>
      if idx = 0xFFFF then pure 0
      else do
        let node ← readAt t.nodes idx.toNat
        if node.chFlags &&& flagLeaf ≠ 0 then readAt t.leafAddrs node.leafIndex.toNat
        else pure 0

end Udynlink.HostSyms
