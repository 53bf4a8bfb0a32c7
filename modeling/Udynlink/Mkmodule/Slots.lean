import Udynlink.Mkmodule.Packer

/-!
# LOT slots of a packed module

Every site of the main code gets the slot of its own symbol, and the relocation
table fills every slot once, unless a site has the same number as a data word of
the same symbol, or lies in a payload that is patched in a copy.
-/

namespace Udynlink.Mkmodule

/-! ## Words -/

@[simp] theorem length_packInto (bs : List UInt8) (i v : Nat) :
    (packInto bs i v).length = bs.length := by simp [packInto]

theorem getD_packInto (bs : List UInt8) (i v j : Nat) (hj : j < bs.length) :
    (packInto bs i v).getD j 0 =
      if i ≤ j ∧ j < i + 4 then wordByte v (j - i) else bs.getD j 0 := by
  simp only [packInto, List.getD_eq_getElem?_getD, List.getElem?_set, List.length_set]
  by_cases h3 : i + 3 = j
  · rw [if_pos h3, if_pos (by omega), if_pos (by omega), show j - i = 3 by omega]
    rfl
  by_cases h2 : i + 2 = j
  · rw [if_neg h3, if_pos h2, if_pos (by omega), if_pos (by omega), show j - i = 2 by omega]
    rfl
  by_cases h1 : i + 1 = j
  · rw [if_neg h3, if_neg h2, if_pos h1, if_pos (by omega), if_pos (by omega),
      show j - i = 1 by omega]
    rfl
  by_cases h0 : i = j
  · rw [if_neg h3, if_neg h2, if_neg h1, if_pos h0, if_pos (by omega), if_pos (by omega),
      show j - i = 0 by omega]
    rfl
  · rw [if_neg h3, if_neg h2, if_neg h1, if_neg h0, if_neg (by omega)]

/-- A word is read back from its four bytes, and only from these. -/
theorem unpackFrom_eq_iff {bs : List UInt8} {i v : Nat} (hv : v < 2 ^ 32) :
    unpackFrom bs i = v ↔ ∀ k, k < 4 → bs.getD (i + k) 0 = wordByte v k := by
  have hb : ∀ k, (wordByte v k).toNat = v / 256 ^ k % 256 := fun k => by
    rw [wordByte, UInt8.toNat_ofNat']
  have h0 := (bs.getD i 0).toNat_lt
  have h1 := (bs.getD (i + 1) 0).toNat_lt
  have h2 := (bs.getD (i + 2) 0).toNat_lt
  have h3 := (bs.getD (i + 3) 0).toNat_lt
  rw [unpackFrom]
  constructor
  · intro h k hk
    refine UInt8.toNat_inj.mp ?_
    rw [hb]
    have hcases : k = 0 ∨ k = 1 ∨ k = 2 ∨ k = 3 := by omega
    rcases hcases with rfl | rfl | rfl | rfl
    · rw [Nat.add_zero]
      omega
    all_goals omega
  · intro h
    have e0 := congrArg UInt8.toNat (h 0 (by decide))
    have e1 := congrArg UInt8.toNat (h 1 (by decide))
    have e2 := congrArg UInt8.toNat (h 2 (by decide))
    have e3 := congrArg UInt8.toNat (h 3 (by decide))
    rw [hb] at e0 e1 e2 e3
    rw [Nat.add_zero] at e0
    omega

/-! ## The formatted key -/

private theorem comma_notMem_repr (n : Nat) : ',' ∉ (Nat.repr n).toList := by
  intro h
  rw [Nat.toList_repr] at h
  have hd := Nat.isDigit_of_mem_toDigits (by decide) (by decide) h
  exact absurd hd (by decide)

private theorem paren_notMem_repr (n : Nat) : ')' ∉ (Nat.repr n).toList := by
  intro h
  rw [Nat.toList_repr] at h
  have hd := Nat.isDigit_of_mem_toDigits (by decide) (by decide) h
  exact absurd hd (by decide)

private theorem split_at {xs ys xs' ys' : List Char} {c : Char} (hx : c ∉ xs) (hx' : c ∉ xs')
    (h : xs ++ c :: ys = xs' ++ c :: ys') : xs = xs' ∧ ys = ys' := by
  induction xs generalizing xs' with
  | nil =>
    cases xs' with
    | nil => exact ⟨rfl, (List.cons.injEq .. ▸ h).2⟩
    | cons d ds =>
      rw [List.nil_append, List.cons_append, List.cons.injEq] at h
      exact absurd (h.1 ▸ List.mem_cons_self) hx'
  | cons d ds ih =>
    cases xs' with
    | nil =>
      rw [List.nil_append, List.cons_append, List.cons.injEq] at h
      exact absurd (h.1 ▸ List.mem_cons_self) hx
    | cons d' ds' =>
      rw [List.cons_append, List.cons_append, List.cons.injEq] at h
      have hrest := ih (fun hm => hx (List.mem_cons_of_mem d hm))
        (fun hm => hx' (List.mem_cons_of_mem d' hm)) h.2
      exact ⟨by rw [h.1, hrest.1], hrest.2⟩

theorem formatKey_toList (key : Key) (offset value : Nat) :
    (LinkedObject.formatKey key offset value).toList =
      '(' :: (Nat.repr key.1).toList ++ ',' :: (' ' :: (Nat.repr key.2).toList ++
        ')' :: ((Nat.repr offset).toList ++ (Nat.repr value).toList)) := by
  rw [LinkedObject.formatKey]
  simp [toString, String.toList_append]

/-- The symbol can be read off a formatted key, and the offset once the value is known. -/
theorem formatKey_inj {key key' : Key} {offset offset' value value' : Nat}
    (h : LinkedObject.formatKey key offset value = LinkedObject.formatKey key' offset' value') :
    key = key' ∧ (value = value' → offset = offset') := by
  have hl := congrArg String.toList h
  rw [formatKey_toList, formatKey_toList] at hl
  have hparen : ∀ n, ',' ∉ '(' :: (Nat.repr n).toList := fun n hm => by
    rcases List.mem_cons.mp hm with hc | hc
    · exact absurd hc (by decide)
    · exact comma_notMem_repr n hc
  have hspace : ∀ n, ')' ∉ ' ' :: (Nat.repr n).toList := fun n hm => by
    rcases List.mem_cons.mp hm with hc | hc
    · exact absurd hc (by decide)
    · exact paren_notMem_repr n hc
  obtain ⟨h1, hrest⟩ := split_at (hparen _) (hparen _) hl
  obtain ⟨h2, htail⟩ := split_at (hspace _) (hspace _) hrest
  have hrepr : ∀ a b, (Nat.repr a).toList = (Nat.repr b).toList → a = b :=
    fun a b hab => Nat.repr_inj.mp (String.toList_inj.mp hab)
  refine ⟨Prod.ext (hrepr _ _ (List.cons.injEq .. ▸ h1).2) (hrepr _ _ (List.cons.injEq .. ▸ h2).2),
    fun hv => ?_⟩
  rw [hv] at htail
  exact hrepr _ _ (List.append_cancel_right htail)

namespace LinkedObject

variable {o : LinkedObject}

/-! ## Relocations and their symbols -/

theorem mem_known {p : Rel → Bool} {x : Rel × ElfSymbol} :
    x ∈ o.known p ↔ x.1 ∈ o.rels ∧ p x.1 = true ∧ o.symData x.1.key = some x.2 := by
  rw [known, List.mem_filterMap]
  constructor
  · rintro ⟨r, hr, hx⟩
    split at hx
    next hp =>
      obtain ⟨sd, hsd, rfl⟩ := Option.map_eq_some_iff.mp hx
      exact ⟨hr, hp, hsd⟩
    next => simp at hx
  · rintro ⟨hr, hp, hsd⟩
    exact ⟨x.1, hr, by rw [if_pos hp, hsd]; rfl⟩

/-- Relocations of one key are against one symbol. -/
theorem known_sym {p q : Rel → Bool} {x y : Rel × ElfSymbol} (hx : x ∈ o.known p)
    (hy : y ∈ o.known q) (hk : x.1.key = y.1.key) : x.2 = y.2 := by
  have hsx := (mem_known.mp hx).2.2
  rw [hk, (mem_known.mp hy).2.2, Option.some.injEq] at hsx
  exact hsx.symm

/-! ## Slots -/

private theorem mem_lotFold {xs : List (Rel × ElfSymbol)} {ks : List Key} {key : Key} :
    key ∈ xs.foldl (fun ks x => if x.1.key ∈ ks then ks else ks ++ [x.1.key]) ks ↔
      key ∈ ks ∨ ∃ x ∈ xs, x.1.key = key := by
  induction xs generalizing ks with
  | nil => simp
  | cons x xs ih =>
    rw [List.foldl_cons, ih]
    split
    next hm =>
      constructor
      · rintro (h | ⟨y, hy, rfl⟩)
        · exact Or.inl h
        · exact Or.inr ⟨y, List.mem_cons_of_mem x hy, rfl⟩
      · rintro (h | ⟨y, hy, rfl⟩)
        · exact Or.inl h
        · rcases List.mem_cons.mp hy with rfl | hy'
          · exact Or.inl hm
          · exact Or.inr ⟨y, hy', rfl⟩
    next => simp [or_assoc, eq_comm]

private theorem nodup_lotFold {xs : List (Rel × ElfSymbol)} {ks : List Key} (h : ks.Nodup) :
    (xs.foldl (fun ks x => if x.1.key ∈ ks then ks else ks ++ [x.1.key]) ks).Nodup := by
  induction xs generalizing ks with
  | nil => exact h
  | cons x xs ih =>
    rw [List.foldl_cons]
    split
    · exact ih h
    next hm =>
      refine ih (List.nodup_append.mpr ⟨h, List.nodup_singleton _, fun a ha b hb => ?_⟩)
      rw [List.mem_singleton.mp hb]
      rintro rfl
      exact hm ha

private theorem prefix_lotFold (xs : List (Rel × ElfSymbol)) (ks : List Key) :
    ks <+: xs.foldl (fun ks x => if x.1.key ∈ ks then ks else ks ++ [x.1.key]) ks := by
  induction xs generalizing ks with
  | nil => exact List.prefix_refl ks
  | cons x xs ih =>
    rw [List.foldl_cons]
    split
    · exact ih ks
    · exact (List.prefix_append ks [x.1.key]).trans (ih _)

private theorem idxOf_lotFold {xs : List (Rel × ElfSymbol)} {ks : List Key} {key : Key}
    (hks : ks.Nodup) (hk : key ∉ ks) (hx : ∃ x ∈ xs, x.1.key = key) :
    (xs.foldl (fun ks x => if x.1.key ∈ ks then ks else ks ++ [x.1.key]) ks).idxOf key =
      (ks.toFinset ∪ ((xs.map fun x => x.1.key).takeWhile (· ≠ key)).toFinset).card := by
  induction xs generalizing ks with
  | nil =>
    obtain ⟨x, hm, -⟩ := hx
    exact absurd hm List.not_mem_nil
  | cons x xs ih =>
    rw [List.foldl_cons, List.map_cons]
    by_cases he : x.1.key = key
    · -- the first use: the key is appended here
      obtain ⟨more, hmore⟩ := prefix_lotFold xs (ks ++ [key])
      rw [he, if_neg hk, ← hmore, List.append_assoc, List.idxOf_append_of_notMem hk,
        List.singleton_append, List.idxOf_cons_self, List.takeWhile_cons_of_neg (by simp),
        List.toFinset_nil, Finset.union_empty, List.toFinset_card_of_nodup hks, Nat.add_zero]
    · have hx' : ∃ y ∈ xs, y.1.key = key := by
        obtain ⟨y, hy, hyk⟩ := hx
        rcases List.mem_cons.mp hy with rfl | hy'
        · exact absurd hyk he
        · exact ⟨y, hy', hyk⟩
      rw [List.takeWhile_cons_of_pos (by simpa using he)]
      split
      next hm =>
        rw [ih hks hk hx', List.toFinset_cons, Finset.union_insert, Finset.insert_eq_of_mem]
        exact Finset.mem_union_left _ (List.mem_toFinset.mpr hm)
      next hm =>
        have hnd : (ks ++ [x.1.key]).Nodup := by
          refine List.nodup_append.mpr ⟨hks, List.nodup_singleton _, fun a ha b hb => ?_⟩
          rw [List.mem_singleton.mp hb]
          rintro rfl
          exact hm ha
        have hk' : key ∉ ks ++ [x.1.key] := by
          rw [List.mem_append, List.mem_singleton]
          exact fun h => h.elim hk fun h' => he h'.symm
        rw [ih hnd hk' hx', List.toFinset_append, List.toFinset_cons, List.toFinset_cons,
          List.toFinset_nil, insert_empty_eq, Finset.union_assoc, Finset.singleton_union]

theorem mem_lotKeys {key : Key} : key ∈ o.lotKeys ↔ ∃ x ∈ o.gotRels, x.1.key = key := by
  rw [lotKeys, mem_lotFold]
  simp

theorem nodup_lotKeys : o.lotKeys.Nodup := nodup_lotFold List.nodup_nil

/-- The symbols with a GOT relocation. -/
def gotSymbols (o : LinkedObject) : Finset Key := (o.gotRels.map fun x => x.1.key).toFinset

/-- The symbols with a GOT relocation before the first one of a key. -/
def usedBefore (o : LinkedObject) (key : Key) : Finset Key :=
  ((o.gotRels.map fun x => x.1.key).takeWhile (· ≠ key)).toFinset

theorem lotEntries_eq : o.lotEntries = o.gotSymbols.card := by
  rw [lotEntries, ← List.toFinset_card_of_nodup nodup_lotKeys, gotSymbols]
  congr 1
  ext key
  rw [List.mem_toFinset, List.mem_toFinset, mem_lotKeys, List.mem_map]

theorem lotSlot_eq {key : Key} (h : key ∈ o.lotKeys) : o.lotSlot key = (o.usedBefore key).card := by
  rw [lotSlot, lotKeys, idxOf_lotFold List.nodup_nil List.not_mem_nil (mem_lotKeys.mp h),
    List.toFinset_nil, Finset.empty_union, usedBefore]

theorem lotSlot_lt {key : Key} (h : key ∈ o.lotKeys) : o.lotSlot key < o.lotKeys.length :=
  List.idxOf_lt_length_iff.mpr h

theorem getElem?_lotSlot {key : Key} (h : key ∈ o.lotKeys) :
    o.lotKeys[o.lotSlot key]? = some key :=
  (List.getElem?_eq_getElem (lotSlot_lt h)).trans (congrArg some (List.getElem_idxOf _))

theorem lotSlot_inj {key key' : Key} (h : key ∈ o.lotKeys) (h' : key' ∈ o.lotKeys)
    (he : o.lotSlot key = o.lotSlot key') : key = key' := by
  have hk := getElem?_lotSlot h
  rw [he, getElem?_lotSlot h', Option.some.injEq] at hk
  exact hk.symm

theorem lotSlot_of_getElem? {key : Key} {s : Nat} (h : o.lotKeys[s]? = some key) :
    key ∈ o.lotKeys ∧ o.lotSlot key = s := by
  have hm := List.mem_of_getElem? h
  obtain ⟨hlt, hs⟩ := List.getElem?_eq_some_iff.mp h
  refine ⟨hm, ?_⟩
  have hg := getElem?_lotSlot hm
  rw [List.getElem?_eq_getElem (lotSlot_lt hm), Option.some.injEq] at hg
  exact nodup_lotKeys.getElem_inj_iff.mp (hg.trans hs.symm)

theorem lotEntries_le_dataOffset (r : Rel) : o.lotEntries ≤ o.dataOffset r := Nat.le_add_right _ _

/-- The sites in the order they are patched. -/
def gotRelocs (o : LinkedObject) : List RelocTuple := o.localRelocs ++ o.foreignRelocs

theorem mem_gotRelocs {t : RelocTuple} :
    t ∈ o.gotRelocs ↔ ∃ x ∈ o.gotRels, o.gotTuple x = t := by
  rw [gotRelocs, localRelocs, foreignRelocs, List.mem_append, List.mem_map, List.mem_map]
  simp only [List.mem_filter, decide_eq_true_eq]
  constructor
  · rintro (⟨x, ⟨hx, -⟩, rfl⟩ | ⟨x, ⟨hx, -⟩, rfl⟩)
    · exact ⟨x, hx, rfl⟩
    · exact ⟨x, hx, rfl⟩
  · rintro ⟨x, hx, rfl⟩
    by_cases hc : o.symClass x.2 = some .external
    · exact Or.inr ⟨x, ⟨hx, hc⟩, rfl⟩
    · exact Or.inl ⟨x, ⟨hx, hc⟩, rfl⟩

theorem mem_orderedRelocs {t : RelocTuple} :
    t ∈ o.orderedRelocs ↔ (∃ x ∈ o.gotRels, o.gotTuple x = t) ∨ ∃ y ∈ o.dataRels, o.dataTuple y = t := by
  rw [orderedRelocs, List.mem_insertionSort, List.mem_append, ← gotRelocs, mem_gotRelocs, dataRelocs,
    List.mem_map]

/-! ## The writing loop -/

/-- A key whose relocations stand for a symbol, not for a base. -/
def Plain (o : LinkedObject) (key : Key) : Prop :=
  ∀ sd, o.symData key = some sd → o.relName sd ≠ ".text" ∧ o.relName sd ≠ ".data"

instance (key : Key) : Decidable (o.Plain key) :=
  match h : o.symData key with
  | none => isTrue fun sd hs => by rw [h] at hs; exact absurd hs (by simp)
  | some sd => decidable_of_iff (o.relName sd ≠ ".text" ∧ o.relName sd ≠ ".data")
      ⟨fun hn sd' hs => by rw [h, Option.some.injEq] at hs; exact hs ▸ hn, fun hp => hp sd h⟩

/-- The entry a relocation asks for. -/
def entryOf (o : LinkedObject) (t : RelocTuple) : Option Written :=
  if t.name = ".text" then some ⟨t.key, t.offset, relocFlagCodeBase ||| t.value⟩
  else if t.name = ".data" then some ⟨t.key, t.offset, relocFlagDataBase ||| t.value⟩
  else (o.symtMapping t.key).map fun value =>
    ⟨t.key, if t ∉ o.dataRelocs then o.lotSlot t.key else t.offset, value⟩

/-- The name of a relocation goes with its key. -/
def Named (o : LinkedObject) (t : RelocTuple) : Prop :=
  ∃ sd, o.symData t.key = some sd ∧ t.name = o.relName sd

theorem named_ordered {t : RelocTuple} (ht : t ∈ o.orderedRelocs) : o.Named t := by
  rcases mem_orderedRelocs.mp ht with ⟨x, hx, rfl⟩ | ⟨y, hy, rfl⟩
  · exact ⟨x.2, (mem_known.mp hx).2.2, rfl⟩
  · exact ⟨y.2, (mem_known.mp hy).2.2, rfl⟩

theorem Named.plain_iff {t : RelocTuple} (h : o.Named t) :
    o.Plain t.key ↔ t.name ≠ ".text" ∧ t.name ≠ ".data" := by
  obtain ⟨sd, hsd, hn⟩ := h
  rw [hn]
  constructor
  · exact fun hp => hp sd hsd
  · intro hn' sd' hs
    rw [hsd, Option.some.injEq] at hs
    exact hs ▸ hn'

/-- The values of symbol entries are their symbols. -/
def Sound (o : LinkedObject) (written : List Written) : Prop :=
  ∀ e ∈ written, o.Plain e.key → o.symtMapping e.key = some e.value

theorem entryOf_plain {t : RelocTuple} {e : Written} (h : o.Named t) (hp : o.Plain t.key)
    (he : o.entryOf t = some e) : o.symtMapping t.key = some e.value ∧
      e = ⟨t.key, if t ∉ o.dataRelocs then o.lotSlot t.key else t.offset, e.value⟩ := by
  obtain ⟨h1, h2⟩ := h.plain_iff.mp hp
  rw [entryOf, if_neg h1, if_neg h2] at he
  obtain ⟨v, hv, rfl⟩ := Option.map_eq_some_iff.mp he
  exact ⟨hv, rfl⟩

theorem entryOf_key {t : RelocTuple} {e : Written} (he : o.entryOf t = some e) : e.key = t.key := by
  rw [entryOf] at he
  split at he
  · rw [← Option.some.inj he]
  · split at he
    · rw [← Option.some.inj he]
    · obtain ⟨v, -, rfl⟩ := Option.map_eq_some_iff.mp he
      rfl

/-- One round writes the entry it asks for unless it is there. -/
theorem writeReloc_ok {written written' : List Written} {t : RelocTuple} (hn : o.Named t)
    (hs : o.Sound written) (hd : (written.filter fun e => o.Plain e.key).Nodup)
    (h : o.writeReloc written t = some written') :
    (∃ e, o.entryOf t = some e ∧ ∀ e', e' ∈ written' ↔ e' ∈ written ∨ e' = e) ∧
      o.Sound written' ∧ (written'.filter fun e => o.Plain e.key).Nodup := by
  have happ : ∀ e, ¬ o.Plain e.key → o.Sound (written ++ [e]) ∧
      ((written ++ [e]).filter fun e => o.Plain e.key).Nodup := by
    intro e hp
    refine ⟨fun e' he' hp' => ?_, ?_⟩
    · rcases List.mem_append.mp he' with hm | hm
      · exact hs e' hm hp'
      · rw [List.mem_singleton.mp hm] at hp'
        exact absurd hp' hp
    · rw [List.filter_append, List.filter_cons_of_neg (by simpa using hp), List.filter_nil,
        List.append_nil]
      exact hd
  rw [writeReloc] at h
  split at h
  next ht =>
    obtain rfl := Option.some.inj h
    refine ⟨⟨_, by rw [entryOf, if_pos ht], fun e' => by simp⟩, happ _ fun hp => ?_⟩
    exact (hn.plain_iff.mp hp).1 ht
  next ht =>
    split at h
    next htd =>
      obtain rfl := Option.some.inj h
      refine ⟨⟨_, by rw [entryOf, if_neg ht, if_pos htd], fun e' => by simp⟩, happ _ fun hp => ?_⟩
      exact (hn.plain_iff.mp hp).2 htd
    next htd =>
      have hp : o.Plain t.key := hn.plain_iff.mpr ⟨ht, htd⟩
      obtain ⟨v, hv, h⟩ := Option.bind_eq_some_iff.mp h
      have hentry : o.entryOf t =
          some ⟨t.key, if t ∉ o.dataRelocs then o.lotSlot t.key else t.offset, v⟩ := by
        rw [entryOf, if_neg ht, if_neg htd, hv]
        rfl
      generalize (if t ∉ o.dataRelocs then o.lotSlot t.key else t.offset) = offset at h hentry
      dsimp only at h
      split at h
      next hm =>
        obtain rfl := Option.some.inj h
        refine ⟨⟨_, hentry, fun e' => ⟨Or.inl, fun h' => h'.elim id fun he => ?_⟩⟩, hs, hd⟩
        -- the mark that is there belongs to this very entry
        obtain ⟨e'', hm'', hmark⟩ := List.mem_map.mp hm
        obtain ⟨hk, ho⟩ := formatKey_inj hmark
        have hv' := hs e'' hm'' (hk ▸ hp)
        have hval : e''.value = v := by
          rw [hk, hv, Option.some.injEq] at hv'
          exact hv'.symm
        have hsame : e'' = e' := by
          rw [he, Written.mk.injEq]
          exact ⟨hk, ho hval, hval⟩
        exact hsame ▸ hm''
      next hm =>
        obtain rfl := Option.some.inj h
        refine ⟨⟨_, hentry, fun e' => by simp⟩, fun e' he' hp' => ?_, ?_⟩
        · rcases List.mem_append.mp he' with hm' | hm'
          · exact hs e' hm' hp'
          · rw [List.mem_singleton.mp hm']
            exact hv
        · rw [List.filter_append, List.filter_cons_of_pos (by simpa using hp), List.filter_nil]
          refine List.nodup_append.mpr ⟨hd, List.nodup_singleton _, fun a ha b hb => ?_⟩
          rw [List.mem_singleton.mp hb]
          rintro rfl
          exact hm (List.mem_map.mpr ⟨_, (List.mem_filter.mp ha).1, rfl⟩)

/-- The loop writes what the relocations ask for, symbol entries once. -/
theorem writeLoop_ok {ts : List RelocTuple} (hn : ∀ t ∈ ts, o.Named t)
    {written written' : List Written} (hs : o.Sound written)
    (hd : (written.filter fun e => o.Plain e.key).Nodup)
    (h : ts.foldlM o.writeReloc written = some written') :
    (∀ t ∈ ts, ∃ e, o.entryOf t = some e) ∧
      (∀ e, e ∈ written' ↔ e ∈ written ∨ ∃ t ∈ ts, o.entryOf t = some e) ∧
      (written'.filter fun e => o.Plain e.key).Nodup := by
  induction ts generalizing written with
  | nil =>
    obtain rfl := Option.some.inj h
    exact ⟨fun t ht => absurd ht List.not_mem_nil, fun e => by simp, hd⟩
  | cons t ts ih =>
    rw [List.foldlM_cons] at h
    obtain ⟨mid, hmid, h⟩ := Option.bind_eq_some_iff.mp h
    obtain ⟨⟨e, he, hmem⟩, hs', hd'⟩ := writeReloc_ok (hn t List.mem_cons_self) hs hd hmid
    obtain ⟨hall, hiff, hnd⟩ := ih (fun t' ht' => hn t' (List.mem_cons_of_mem t ht')) hs' hd' h
    refine ⟨fun t' ht' => ?_, fun e' => ?_, hnd⟩
    · rcases List.mem_cons.mp ht' with rfl | ht''
      · exact ⟨e, he⟩
      · exact hall t' ht''
    · rw [hiff, hmem]
      constructor
      · rintro ((h1 | rfl) | ⟨t', ht', he'⟩)
        · exact Or.inl h1
        · exact Or.inr ⟨t, List.mem_cons_self, he⟩
        · exact Or.inr ⟨t', List.mem_cons_of_mem t ht', he'⟩
      · rintro (h1 | ⟨t', ht', he'⟩)
        · exact Or.inl (Or.inl h1)
        · rcases List.mem_cons.mp ht' with rfl | ht''
          · rw [he, Option.some.injEq] at he'
            exact Or.inl (Or.inr he'.symm)
          · exact Or.inr ⟨t', ht'', he'⟩

end LinkedObject

end Udynlink.Mkmodule
