import Udynlink.HostSyms.TrieLevels

/-!
# Lookups in the trie

The nodes are the sorted levels in depth-first order: the cursor of the walker
stands for a level, and finds in it what the dictionaries hold.
-/

namespace Udynlink.HostSyms

/-! ## The flattened trie -/

def startOf (level : Level) (base : Nat) : Nat :=
  match level with
  | .nil => trieNone
  | .cons .. => base

def indicesOf : Level → Nat → List Nat
  | .nil, _ => []
  | .cons _ _ _ children rest, base => base :: indicesOf rest (base + 1 + children.size)

/-- The nodes of a level whose first is at `base`; `linked` when their siblings are set. -/
def flatten (linked : Bool) : Level → Nat → List FlatNode
  | .nil, _ => []
  | .cons ch isLeaf leafIndex children rest, base =>
    ⟨ch, nodeFlags isLeaf (decide (children ≠ .nil)), startOf children (base + 1),
      if linked then startOf rest (base + 1 + children.size) else trieNone, leafIndex⟩ ::
      (flatten true children (base + 1) ++ flatten linked rest (base + 1 + children.size))

theorem flatten_length (linked : Bool) (level : Level) (base : Nat) :
    (flatten linked level base).length = level.size := by
  induction level generalizing linked base with
  | nil => rfl
  | cons ch isLeaf leafIndex children rest ihc ihr =>
    rw [flatten, List.length_cons, List.length_append, ihc, ihr, Level.size]
    omega

theorem indicesOf_head (level : Level) (base : Nat) :
    (indicesOf level base).headD trieNone = startOf level base ∧
      (indicesOf level base).isEmpty = decide (level = .nil) := by
  cases level with
  | nil => exact ⟨rfl, rfl⟩
  | cons ch isLeaf leafIndex children rest => exact ⟨rfl, rfl⟩

theorem modify_at {α : Type} (pre tail : List α) (x : α) (f : α → α) :
    (pre ++ x :: tail).modify pre.length f = pre ++ f x :: tail := by
  induction pre with
  | nil => rfl
  | cons y pre ih =>
    rw [List.cons_append, List.length_cons, List.modify_succ_cons, ih]
    rfl

/-- The loop over a level that is complete sets its siblings. -/
theorem linkSiblings_flatten (level : Level) (pre : List FlatNode) :
    linkSiblings (indicesOf level pre.length) (pre ++ flatten false level pre.length) =
      pre ++ flatten true level pre.length := by
  induction level generalizing pre with
  | nil => rfl
  | cons ch isLeaf leafIndex children rest _ ih =>
    cases rest with
    | nil => rfl
    | cons ch' isLeaf' leafIndex' children' rest' =>
      rw [indicesOf, indicesOf, linkSiblings]
      -- the first sibling is set; the rest of the level is linked behind a longer prefix
      let node : FlatNode := ⟨ch, nodeFlags isLeaf (decide (children ≠ .nil)),
        startOf children (pre.length + 1), pre.length + 1 + children.size, leafIndex⟩
      have hlen : (pre ++ node :: flatten true children (pre.length + 1)).length =
          pre.length + 1 + children.size := by
        rw [List.length_append, List.length_cons, flatten_length]
        omega
      have hset : (pre ++ flatten false (.cons ch isLeaf leafIndex children
            (.cons ch' isLeaf' leafIndex' children' rest')) pre.length).modify pre.length
          (fun n => { n with sibling := pre.length + 1 + children.size }) =
          (pre ++ node :: flatten true children (pre.length + 1)) ++
            flatten false (.cons ch' isLeaf' leafIndex' children' rest')
              (pre.length + 1 + children.size) := by
        rw [flatten, modify_at, List.append_assoc]
        rfl
      rw [hset]
      have := ih (pre ++ node :: flatten true children (pre.length + 1))
      rw [hlen] at this
      rw [indicesOf] at this
      rw [this, List.append_assoc]
      rfl

theorem emitNodes_eq (level : Level) (flat : List FlatNode) :
    emitNodes level flat =
      (flat ++ flatten false level flat.length, indicesOf level flat.length) := by
  induction level generalizing flat with
  | nil => simp [emitNodes, flatten, indicesOf]
  | cons ch isLeaf leafIndex children rest ihc ihr =>
    obtain ⟨hhead, hempty⟩ := indicesOf_head children (flat.length + 1)
    unfold emitNodes
    dsimp only
    rw [ihc]
    dsimp only
    have hlen : (flat ++ [(⟨0, 0, trieNone, trieNone, trieNone⟩ : FlatNode)]).length =
        flat.length + 1 := List.length_append
    have hlink := linkSiblings_flatten children
      (flat ++ [(⟨0, 0, trieNone, trieNone, trieNone⟩ : FlatNode)])
    rw [hlen] at hlink ⊢
    rw [hlink, hhead, hempty]
    have hset : ∀ (node ph : FlatNode) (tail : List FlatNode),
        ((flat ++ [ph]) ++ tail).set flat.length node = flat ++ node :: tail := by
      intro node ph tail
      rw [List.append_assoc, List.set_append_right _ _ (Nat.le_refl _), Nat.sub_self]
      rfl
    have hlen' : ∀ node : FlatNode,
        (flat ++ node :: flatten true children (flat.length + 1)).length =
          flat.length + 1 + children.size := by
      intro node
      rw [List.length_append, List.length_cons, flatten_length]
      omega
    rw [hset, ihr, hlen', flatten, indicesOf, List.append_assoc, ← decide_not]
    rfl

theorem emitLevel_eq (level : Level) :
    emitLevel level [] = (flatten true level 0, indicesOf level 0) := by
  rw [emitLevel, emitNodes_eq]
  dsimp only
  have := linkSiblings_flatten level []
  rw [List.length_nil, List.nil_append, List.nil_append] at this
  rw [List.nil_append, List.length_nil, this]

/-! ## Cursors -/

/-- The cursor stands for the level. -/
def Stands (nodes : List TrieNode) : UInt16 → Level → Prop
  | cur, .nil => cur = 0xFFFF
  | cur, .cons ch isLeaf leafIndex children rest =>
    cur ≠ 0xFFFF ∧ ∃ node, nodes[cur.toNat]? = some node ∧ nodeChar node = ch ∧
      (node.chFlags &&& flagLeaf ≠ 0 ↔ isLeaf = true) ∧
      node.leafIndex = UInt16.ofNat leafIndex ∧
      Stands nodes node.child children ∧ Stands nodes node.sibling rest

theorem or_and_distrib (a b c : UInt16) : (a ||| b) &&& c = (a &&& c) ||| (b &&& c) := by
  apply UInt16.eq_of_toBitVec_eq
  ext i hi
  simp
  grind

theorem char_low (ch : UInt8) : ch.toUInt16 &&& 0xFF = ch.toUInt16 := by
  apply UInt16.toNat_inj.mp
  rw [UInt16.toNat_and]
  have hlt := ch.toNat_lt
  exact (Nat.and_two_pow_sub_one_eq_mod _ 8).trans (Nat.mod_eq_of_lt hlt)

theorem chFlags_char (isLeaf hasChild : Bool) (ch : UInt8) :
    ((nodeFlags isLeaf hasChild ||| (ch.toUInt16 &&& 0xFF)) &&& 0xFF).toUInt8 = ch := by
  have hflags : nodeFlags isLeaf hasChild &&& 0xFF = 0 := by
    cases isLeaf <;> cases hasChild <;> decide
  rw [or_and_distrib, hflags, UInt16.zero_or, char_low, char_low]
  simp

theorem chFlags_leaf (isLeaf hasChild : Bool) (ch : UInt8) :
    (nodeFlags isLeaf hasChild ||| (ch.toUInt16 &&& 0xFF)) &&& flagLeaf ≠ 0 ↔ isLeaf = true := by
  have hlow : (ch.toUInt16 &&& 0xFF) &&& flagLeaf = 0 := by
    have hbits : (0xFF : UInt16) &&& flagLeaf = 0 := by decide
    rw [UInt16.and_assoc, hbits, UInt16.and_zero]
  rw [or_and_distrib, hlow, UInt16.or_zero]
  cases isLeaf <;> cases hasChild <;> decide

theorem stands_flatten (level : Level) (pre post : List FlatNode)
    (hlt : pre.length + level.size + post.length < 0xFFFF) :
    Stands ((pre ++ flatten true level pre.length ++ post).map trieNode)
      (UInt16.ofNat (startOf level pre.length)) level := by
  induction level generalizing pre post with
  | nil => rfl
  | cons ch isLeaf leafIndex children rest ihc ihr =>
    rw [Level.size] at hlt
    let node : FlatNode := ⟨ch, nodeFlags isLeaf (decide (children ≠ .nil)),
      startOf children (pre.length + 1), startOf rest (pre.length + 1 + children.size), leafIndex⟩
    have hflat : flatten true (.cons ch isLeaf leafIndex children rest) pre.length =
        node :: (flatten true children (pre.length + 1) ++
          flatten true rest (pre.length + 1 + children.size)) := rfl
    have hcur : (UInt16.ofNat pre.length).toNat = pre.length := by
      rw [UInt16.toNat_ofNat', Nat.mod_eq_of_lt (by omega)]
    refine ⟨?_, trieNode node, ?_, chFlags_char _ _ _, chFlags_leaf _ _ _, rfl, ?_, ?_⟩
    · intro h
      have := congrArg UInt16.toNat h
      rw [startOf, hcur, show (0xFFFF : UInt16).toNat = 0xFFFF from rfl] at this
      omega
    · rw [startOf, hcur, hflat, List.map_append, List.map_append, List.append_assoc,
        List.getElem?_append_right (by rw [List.length_map]), List.length_map, Nat.sub_self]
      rfl
    · have h := ihc (pre ++ [node]) (flatten true rest (pre.length + 1 + children.size) ++ post) (by
        rw [List.length_append, List.length_append, flatten_length, List.length_singleton]
        omega)
      rw [List.length_append, List.length_singleton] at h
      have hchild : (trieNode node).child = UInt16.ofNat (startOf children (pre.length + 1)) := rfl
      rw [hflat, hchild]
      simpa [List.append_assoc] using h
    · have hlen : (pre ++ node :: flatten true children (pre.length + 1)).length =
          pre.length + 1 + children.size := by
        rw [List.length_append, List.length_cons, flatten_length]
        omega
      have h := ihr (pre ++ node :: flatten true children (pre.length + 1)) post (by
        rw [hlen]
        omega)
      rw [hlen] at h
      have hsibling : (trieNode node).sibling =
          UInt16.ofNat (startOf rest (pre.length + 1 + children.size)) := rfl
      rw [hflat, hsibling]
      simpa [List.append_assoc] using h

/-! ## The walker -/

section

variable {nodes : List TrieNode} {cur : UInt16} {level : Level}

/-- The loop over the siblings finds what the level holds. -/
theorem scanSiblings_find (hs : Stands nodes cur level) (ho : level.Ordered) (c : UInt8)
    {fuel : Nat} (hfuel : level.size < fuel) :
    (level.find c = none → scanSiblings nodes c fuel cur = .ok none) ∧
      ∀ e, level.find c = some e → ∃ idx node, scanSiblings nodes c fuel cur = .ok (some idx) ∧
        idx ≠ 0xFFFF ∧ nodes[idx.toNat]? = some node ∧
        (node.chFlags &&& flagLeaf ≠ 0 ↔ e.isLeaf = true) ∧
        node.leafIndex = UInt16.ofNat e.leafIndex ∧ Stands nodes node.child e.children := by
  induction level generalizing cur fuel with
  | nil =>
    cases fuel with
    | zero => exact absurd hfuel (Nat.not_lt_zero _)
    | succ fuel =>
      have hcur : cur = 0xFFFF := hs
      refine ⟨fun _ => ?_, fun e he => absurd he (by simp)⟩
      rw [scanSiblings, if_pos hcur]
      rfl
  | cons ch isLeaf leafIndex children rest _ ih =>
    cases fuel with
    | zero => exact absurd hfuel (Nat.not_lt_zero _)
    | succ fuel =>
      obtain ⟨hne, node, hnode, hch, hleaf, hidx, hchild, hsib⟩ := hs
      obtain ⟨hmin, -, hrest⟩ := ho
      have hread : readAt nodes cur.toNat = .ok node := by rw [readAt, hnode]
      rw [scanSiblings, if_neg hne, hread, Level.find_cons]
      show ((if ch = c then _ else _) = _ → (if nodeChar node = c then _ else _) = _) ∧
        ∀ e, (if ch = c then _ else _) = _ → ∃ idx node',
          (if nodeChar node = c then _ else _) = _ ∧ _
      rw [hch]
      by_cases h : ch = c
      · rw [if_pos h, if_pos h]
        refine ⟨fun hx => absurd hx (by simp), fun e he => ?_⟩
        rw [Option.some.injEq] at he
        rw [← he]
        exact ⟨cur, node, rfl, hne, hnode, hleaf, hidx, hchild⟩
      · rw [if_neg h, if_neg h]
        by_cases hgt : ch > c
        · -- sorted: no later key is smaller
          have hnone : rest.find c = none := by
            by_contra hx
            have hle := UInt8.le_iff_toNat_le.mp (hmin c hx)
            have hlt := UInt8.lt_iff_toNat_lt.mp hgt
            omega
          rw [if_pos hgt]
          refine ⟨fun _ => rfl, fun e he => ?_⟩
          rw [hnone] at he
          exact absurd he (by simp)
        · rw [if_neg hgt]
          rw [Level.size] at hfuel
          exact ih hsib hrest (by omega)

/-- A node the walk ends at. -/
def EndsAt (nodes : List TrieNode) (matched : Option UInt16) (isLeaf : Bool) (leafIndex : Nat) :
    Prop :=
  ∃ idx node, matched = some idx ∧ idx ≠ 0xFFFF ∧ nodes[idx.toNat]? = some node ∧
    (node.chFlags &&& flagLeaf ≠ 0 ↔ isLeaf = true) ∧ node.leafIndex = UInt16.ofNat leafIndex

/-- The loop over the characters ends where the name is stored, or finds no way. -/
theorem walkTrie_lookup {q : List UInt8} (hq : q ≠ []) (hs : Stands nodes cur level)
    (ho : level.Ordered) (hsize : level.size ≤ nodes.length) (m : UInt16) :
    ∃ matched, walkTrie nodes q cur m = .ok matched ∧
      match Level.lookup q level with
      | some i => EndsAt nodes matched true i
      | none => matched = none ∨ ∃ i, EndsAt nodes matched false i := by
  induction q generalizing cur level m with
  | nil => exact absurd rfl hq
  | cons c q ih =>
    obtain ⟨hmiss, hhit⟩ := @scanSiblings_find nodes cur level hs ho c (nodes.length + 1) (by omega)
    rw [walkTrie]
    cases hf : level.find c with
    | none =>
      have hl : Level.lookup (c :: q) level = none := by
        cases q <;> simp [Level.lookup, hf]
      rw [hmiss hf, hl]
      exact ⟨none, rfl, Or.inl rfl⟩
    | some e =>
      obtain ⟨idx, node, hscan, hne, hnode, hleaf, hidx, hchild⟩ := hhit e hf
      have hread : readAt nodes idx.toNat = .ok node := by rw [readAt, hnode]
      rw [hscan]
      show ∃ matched, (do let node ← readAt nodes idx.toNat; walkTrie nodes q node.child idx) = _ ∧ _
      rw [hread]
      show ∃ matched, walkTrie nodes q node.child idx = _ ∧ _
      cases q with
      | nil =>
        refine ⟨some idx, rfl, ?_⟩
        have hends : EndsAt nodes (some idx) e.isLeaf e.leafIndex :=
          ⟨idx, node, rfl, hne, hnode, hleaf, hidx⟩
        rw [Level.lookup, hf]
        dsimp only
        cases hl : e.isLeaf with
        | true =>
          rw [hl] at hends
          exact hends
        | false =>
          rw [hl] at hends
          exact Or.inr ⟨e.leafIndex, hends⟩
      | cons d q =>
        rw [Level.lookup, hf]
        have hlt := Level.size_children hf
        exact ih (List.cons_ne_nil d q) hchild (Level.ordered_children ho hf) (by omega) idx

end

/-! ## The table -/

section

variable {symbols : List HostSymbol}

theorem trie_lookup (hn : Named symbols) {i : Nat} {s : HostSymbol} (hs : symbols[i]? = some s) :
    Level.lookup s.name.bytes (trieOf symbols).sorted = some i := by
  have hnames : ∀ n ∈ symbols.map (fun s => s.name.bytes), n ≠ [] := by
    intro n hmem
    obtain ⟨t, ht, rfl⟩ := List.mem_map.mp hmem
    exact hn.nonempty t ht
  have hd : (symbols.map fun s => s.name.bytes).Nodup := by
    have hmap : (symbols.map fun s => s.name.bytes) =
        (symbols.map HostSymbol.name).map CString.bytes := by
      rw [List.map_map]
      rfl
    rw [hmap]
    refine hn.distinct.map fun a b hab => ?_
    cases a
    cases b
    cases hab
    rfl
  rw [Level.lookup_sorted, trieOf, Level.lookup_insertAll_at hnames hd 0
    (by rw [List.getElem?_map, hs]; rfl), Nat.zero_add]

theorem trie_lookup_unlisted (hn : Named symbols) {name : CString}
    (hname : ∀ s ∈ symbols, s.name ≠ name) :
    Level.lookup name.bytes (trieOf symbols).sorted = none := by
  have hnames : ∀ n ∈ symbols.map (fun s => s.name.bytes), n ≠ [] := by
    intro n hmem
    obtain ⟨t, ht, rfl⟩ := List.mem_map.mp hmem
    exact hn.nonempty t ht
  have hmem : name.bytes ∉ symbols.map fun s => s.name.bytes := by
    intro hx
    obtain ⟨t, ht, heq⟩ := List.mem_map.mp hx
    refine hname t ht ?_
    cases hc : t.name
    cases name
    rw [hc] at heq
    cases heq
    rfl
  rw [Level.lookup_sorted, trieOf, Level.lookup_insertAll_of_notMem hnames 0 hmem, Level.lookup_nil]

/-- There are no more symbols than nodes. -/
theorem symbols_le_size (hn : Named symbols) : symbols.length ≤ (trieOf symbols).sorted.size := by
  have hsub : List.range symbols.length ⊆ (trieOf symbols).sorted.leaves := by
    intro i hi
    exact Level.mem_leaves_of_lookup
      (trie_lookup hn (List.getElem?_eq_getElem (List.mem_range.mp hi)))
  have hlen := (List.nodup_range.subperm hsub).length_le
  rw [List.length_range] at hlen
  exact hlen.trans (Level.leaves_length_le _)

/-- Every name is answered as the list says. -/
theorem resolveTrie_exact (symbols : List HostSymbol) (hn : Named symbols)
    (hsize : (trieNodes symbols).1.length < 0xFFFF) (name : CString) :
    resolveTrieSymbol (buildTrieTable symbols) name = .ok (listedAddr symbols name) := by
  have hflat : trieNodes symbols = (flatten true (trieOf symbols).sorted 0,
      indicesOf (trieOf symbols).sorted 0) := emitLevel_eq _
  by_cases hne : symbols = []
  · rw [hne]
    rfl
  have hle := symbols_le_size hn
  have hpos := List.length_pos_iff.mpr hne
  have hlen : (buildTrieTable symbols).nodes.length = (trieOf symbols).sorted.size := by
    unfold buildTrieTable
    rw [if_neg hne, hflat]
    dsimp only
    rw [List.length_map, flatten_length]
  rw [hflat, flatten_length] at hsize
  have hstands : Stands (buildTrieTable symbols).nodes (buildTrieTable symbols).rootChild
      (trieOf symbols).sorted := by
    have h := stands_flatten (trieOf symbols).sorted [] [] (by simpa using hsize)
    unfold buildTrieTable
    rw [if_neg hne, hflat]
    dsimp only
    rw [(indicesOf_head _ 0).1]
    simpa using h
  have hnum : (buildTrieTable symbols).numNodes ≠ 0 := by
    unfold buildTrieTable
    rw [if_neg hne, hflat]
    dsimp only
    rw [flatten_length]
    omega
  have haddrs : (buildTrieTable symbols).leafAddrs = symbols.map HostSymbol.addr := by
    unfold buildTrieTable
    rw [if_neg hne]
  rw [resolveTrieSymbol, if_neg hnum]
  by_cases hempty : name.bytes = []
  · -- no character, no node
    have hunlisted : ∀ s ∈ symbols, s.name ≠ name := by
      intro s hs heq
      rw [← heq] at hempty
      exact hn.nonempty s hs hempty
    rw [hempty, walkTrie, listedAddr_unlisted hunlisted]
    rfl
  obtain ⟨matched, hwalk, hend⟩ := walkTrie_lookup hempty hstands (Level.ordered_sorted _)
    (Nat.le_of_eq hlen.symm) 0xFFFF
  rw [hwalk]
  change Except.bind (.ok matched) _ = _
  dsimp only [Except.bind]
  by_cases hlisted : ∃ s ∈ symbols, s.name = name
  · obtain ⟨s, hs, rfl⟩ := hlisted
    obtain ⟨i, hi⟩ := List.getElem?_of_mem hs
    have hlt := (List.getElem?_eq_some_iff.mp hi).1
    rw [trie_lookup hn hi] at hend
    obtain ⟨idx, node, rfl, hne', hnode, hleaf, hidx⟩ := hend
    have hread : readAt (buildTrieTable symbols).nodes idx.toNat = .ok node := by rw [readAt, hnode]
    have hnat : node.leafIndex.toNat = i := by
      rw [hidx, UInt16.toNat_ofNat', Nat.mod_eq_of_lt (by omega)]
    dsimp only
    rw [if_neg hne', hread]
    show (if _ then _ else _) = _
    rw [if_pos (hleaf.mpr rfl), hnat, haddrs, readAt, List.getElem?_map, hi,
      listedAddr_at hn.distinct hi]
    rfl
  · push Not at hlisted
    rw [trie_lookup_unlisted hn hlisted] at hend
    rw [listedAddr_unlisted hlisted]
    cases hend with
    | inl hx =>
      rw [hx]
      rfl
    | inr hx =>
      obtain ⟨i, idx, node, rfl, hne', hnode, hleaf, -⟩ := hx
      have hread : readAt (buildTrieTable symbols).nodes idx.toNat = .ok node := by
        rw [readAt, hnode]
      dsimp only
      rw [if_neg hne', hread]
      show (if _ then _ else _) = _
      rw [if_neg fun hx => absurd (hleaf.mp hx) Bool.false_ne_true]
      rfl

end

/-! ## Prefixes -/

theorem prefix_terminated : (0 : UInt8) ∉ [98] := by decide

/-- Names that are prefixes of each other, out of order. -/
def prefixSymbols : List HostSymbol :=
  [⟨⟨[98, 97], by decide⟩, 0x800⟩, ⟨⟨[98], prefix_terminated⟩, 0x900⟩,
    ⟨⟨[97, 98, 99], by decide⟩, 0xA00⟩]

theorem resolveTrie_prefix :
    resolveTrieSymbol (buildTrieTable prefixSymbols) ⟨[98], by decide⟩ =
        .ok (listedAddr prefixSymbols ⟨[98], by decide⟩) ∧
      resolveTrieSymbol (buildTrieTable prefixSymbols) ⟨[97, 98], by decide⟩ =
        .ok (listedAddr prefixSymbols ⟨[97, 98], by decide⟩) := by
  have hn : Named prefixSymbols := ⟨by decide, by decide, by decide +kernel⟩
  exact ⟨resolveTrie_exact prefixSymbols hn (by decide +kernel) _,
    resolveTrie_exact prefixSymbols hn (by decide +kernel) _⟩

end Udynlink.HostSyms
