import Udynlink.Mkmodule.Slots

/-!
# The LOT table of a packed module

What the generated code loads through the LOT, and what the loader puts there:
every site of a shipped payload holds the slot of its own symbol, and every slot
has one relocation, to that symbol.
-/

namespace Udynlink.Mkmodule

namespace LinkedObject

variable {o : LinkedObject}

/-! ## The patched code -/

/-- Byte `j` of the main code belongs to the word of this site. -/
def Covers (o : LinkedObject) (t : RelocTuple) (j : Nat) : Prop :=
  o.payloadAt t.offset = some 0 ∧ t.offset ≤ j ∧ j < t.offset + 4

/-- A patched byte is that of a site that covers it; the others stay. -/
def Patched (o : LinkedObject) (ts : List RelocTuple) (code code' : List UInt8) : Prop :=
  ∀ j, j < code.length →
    (∃ t ∈ ts, o.Covers t j ∧ code'.getD j 0 = wordByte (o.lotSlot t.key * 4) (j - t.offset)) ∨
      ((∀ t ∈ ts, ¬ o.Covers t j) ∧ code'.getD j 0 = code.getD j 0)

theorem patchSite_ok {code code' : List UInt8} {t : RelocTuple}
    (h : o.patchSite code t = some code') : o.payloadAt t.offset ≠ none ∧
      (o.payloadAt t.offset = some 0 → t.offset + 4 ≤ code.length) ∧
      code'.length = code.length ∧ o.Patched [t] code code' := by
  rw [patchSite] at h
  split at h
  · simp at h
  next hp =>
    split at h
    next hfit =>
      obtain rfl := Option.some.inj h
      refine ⟨by rw [hp]; simp, fun _ => hfit, length_packInto .., fun j hj => ?_⟩
      by_cases hc : t.offset ≤ j ∧ j < t.offset + 4
      · exact Or.inl ⟨t, List.mem_singleton_self t, ⟨hp, hc⟩, by
          rw [getD_packInto _ _ _ _ hj, if_pos hc]⟩
      · refine Or.inr ⟨fun t' ht' hc' => ?_, by rw [getD_packInto _ _ _ _ hj, if_neg hc]⟩
        rw [List.mem_singleton.mp ht'] at hc'
        exact hc hc'.2
    next => simp at h
  next n hp =>
    have hsame : code' = code := by
      split at h
      · split at h
        · exact (Option.some.inj h).symm
        · simp at h
      · simp at h
    rw [hsame]
    refine ⟨by rw [hp]; simp, fun h0 => ?_, rfl, fun j _ => Or.inr ⟨fun t' ht' hc' => ?_, rfl⟩⟩
    · rw [hp] at h0
      simp at h0
    · rw [List.mem_singleton.mp ht', Covers, hp] at hc'
      exact absurd hc'.1 (by simp)

/-- Every site lies in a payload, and the last write to a byte stays. -/
theorem patchLoop_ok {ts : List RelocTuple} {code code' : List UInt8}
    (h : ts.foldlM o.patchSite code = some code') :
    (∀ t ∈ ts, o.payloadAt t.offset ≠ none ∧
      (o.payloadAt t.offset = some 0 → t.offset + 4 ≤ code.length)) ∧
      code'.length = code.length ∧ o.Patched ts code code' := by
  induction ts generalizing code with
  | nil =>
    obtain rfl := Option.some.inj h
    exact ⟨fun t ht => absurd ht List.not_mem_nil, rfl,
      fun j _ => Or.inr ⟨fun t ht => absurd ht List.not_mem_nil, rfl⟩⟩
  | cons t ts ih =>
    rw [List.foldlM_cons] at h
    obtain ⟨mid, hmid, h⟩ := Option.bind_eq_some_iff.mp h
    obtain ⟨hp, hfit, hlen, hpatch⟩ := patchSite_ok hmid
    obtain ⟨hall, hlen', hpatch'⟩ := ih h
    refine ⟨fun t' ht' => ?_, hlen'.trans hlen, fun j hj => ?_⟩
    · rcases List.mem_cons.mp ht' with rfl | ht''
      · exact ⟨hp, hfit⟩
      · exact hlen ▸ hall t' ht''
    · rcases hpatch' j (hlen ▸ hj) with ⟨t', ht', hc, hb⟩ | ⟨hnone, hb⟩
      · exact Or.inl ⟨t', List.mem_cons_of_mem t ht', hc, hb⟩
      · rcases hpatch j hj with ⟨t', ht', hc, hb'⟩ | ⟨hnone', hb'⟩
        · refine Or.inl ⟨t, List.mem_cons_self, List.mem_singleton.mp ht' ▸ hc, ?_⟩
          rw [hb, hb', List.mem_singleton.mp ht']
        · refine Or.inr ⟨fun t' ht' => ?_, hb.trans hb'⟩
          rcases List.mem_cons.mp ht' with rfl | ht''
          · exact hnone' t' (List.mem_singleton_self t')
          · exact hnone t' ht''

/-! ## The symbol list -/

theorem symtMapping_spec {key : Key} {v : Nat} (h : o.symtMapping key = some v) :
    0 < v ∧ v ≤ o.slist.length ∧ o.slist[v - 1]? = some key := by
  obtain ⟨i, hi, rfl⟩ := Option.map_eq_some_iff.mp h
  obtain ⟨hlt, hkey, -⟩ := List.findIdx?_eq_some_iff_getElem.mp hi
  refine ⟨Nat.succ_pos i, hlt, ?_⟩
  rw [Nat.add_sub_cancel, List.getElem?_eq_getElem hlt, eq_of_beq hkey]

/-! ## Exact slots -/

/-- The word the image ships for a site: the main code is patched in place, the
other payloads are not. -/
def shippedWord (o : LinkedObject) (img : Packed) (addr : Nat) : Option Nat :=
  match o.payloadAt addr with
  | none => none
  | some 0 => some (unpackFrom img.code addr)
  | some (n + 1) => o.rest[n]?.map fun b => unpackFrom (b.buf.getD []) (addr - b.lo)

/-- A relocation value that the loader takes as a reference to this symbol. -/
def RefersTo (img : Packed) (value : Nat) (key : Key) : Prop :=
  0 < value ∧ value < relocFlagCodeBase ∧ img.slist[value - 1]? = some key

structure SlotsExact (o : LinkedObject) (img : Packed) : Prop where
  distinct : ∀ x ∈ o.gotRels, ∀ y ∈ o.gotRels, o.lotSlot x.1.key = o.lotSlot y.1.key →
    x.1.key = y.1.key
  sites : ∀ x ∈ o.gotRels, o.shippedWord img x.1.offset = some (4 * o.lotSlot x.1.key)
  filled : ∀ s, s < img.lotEntries → ∃ key value, o.lotKeys[s]? = some key ∧
    (img.relocs.filter fun r => r.1 = s) = [(s, value)] ∧ RefersTo img value key

/-- Word index of a data relocation behind the slots. -/
def dataWord (o : LinkedObject) (r : Rel) : Nat := o.gotSymbols.card + (r.offset - o.codeSize) / 4

structure SlotsCond (o : LinkedObject) : Prop where
  /-- No symbol of the LOT goes by the name of a base. -/
  plain : ∀ x ∈ o.gotRels, o.relName x.2 ≠ ".text" ∧ o.relName x.2 ≠ ".data"
  /-- Each has a site whose address is not the index of a data word of its own. -/
  apart : ∀ x ∈ o.gotRels, ∃ x' ∈ o.gotRels, x'.1.key = x.1.key ∧
    ∀ y ∈ o.dataRels, y.1.key = x.1.key → o.dataWord y.1 ≠ x'.1.offset
  /-- A site outside the main code holds its word before it is packed. -/
  preset : ∀ x ∈ o.gotRels, ∀ n, o.payloadAt x.1.offset = some (n + 1) →
    (o.rest[n]?.map fun b => unpackFrom (b.buf.getD []) (x.1.offset - b.lo)) =
      some (4 * (o.usedBefore x.1.key).card)
  /-- Sites that share bytes of the main code agree on them. -/
  agree : ∀ x ∈ o.gotRels, ∀ y ∈ o.gotRels, ∀ i, i < 4 → ∀ j, j < 4 →
    o.payloadAt x.1.offset = some 0 → o.payloadAt y.1.offset = some 0 →
    x.1.offset + i = y.1.offset + j →
    wordByte (4 * (o.usedBefore x.1.key).card) i = wordByte (4 * (o.usedBefore y.1.key).card) j

/-! ## Sites -/

theorem gotKey_mem {x : Rel × ElfSymbol} (hx : x ∈ o.gotRels) : x.1.key ∈ o.lotKeys :=
  mem_lotKeys.mpr ⟨x, hx, rfl⟩

theorem gotSlot_word {x : Rel × ElfSymbol} (hx : x ∈ o.gotRels) (hlot : o.lotEntries < 2 ^ 16) :
    4 * (o.usedBefore x.1.key).card < 2 ^ 32 := by
  have hlt := lotSlot_lt (gotKey_mem hx)
  rw [lotSlot_eq (gotKey_mem hx)] at hlt
  rw [lotEntries] at hlot
  omega

/-- The byte a site writes, by the number of symbols used before its own. -/
theorem gotByte_eq {x : Rel × ElfSymbol} (hx : x ∈ o.gotRels) (i : Nat) :
    wordByte (o.lotSlot (o.gotTuple x).key * 4) i =
      wordByte (4 * (o.usedBefore x.1.key).card) i := by
  rw [show (o.gotTuple x).key = x.1.key from rfl, lotSlot_eq (gotKey_mem hx), Nat.mul_comm]

/-- A site of the main code ships its slot when nothing that shares its bytes disagrees. -/
theorem mainSite_exact {code : List UInt8} (hcode : o.patchCode = some code)
    (hlot : o.lotEntries < 2 ^ 16) {x : Rel × ElfSymbol} (hx : x ∈ o.gotRels)
    (hp : o.payloadAt x.1.offset = some 0)
    (hagree : ∀ y ∈ o.gotRels, ∀ i, i < 4 → ∀ j, j < 4 → o.payloadAt y.1.offset = some 0 →
      x.1.offset + i = y.1.offset + j →
      wordByte (4 * (o.usedBefore x.1.key).card) i = wordByte (4 * (o.usedBefore y.1.key).card) j) :
    unpackFrom code x.1.offset = 4 * (o.usedBefore x.1.key).card := by
  obtain ⟨hall, -, hpatch⟩ := patchLoop_ok hcode
  have hm : o.gotTuple x ∈ o.gotRelocs := mem_gotRelocs.mpr ⟨x, hx, rfl⟩
  have hfit : x.1.offset + 4 ≤ o.code.length := (hall _ hm).2 hp
  refine (unpackFrom_eq_iff (gotSlot_word hx hlot)).mpr fun i hi => ?_
  rcases hpatch (x.1.offset + i) (by omega) with ⟨t, ht, hc, hb⟩ | ⟨hnone, -⟩
  · obtain ⟨y, hy, rfl⟩ := mem_gotRelocs.mp ht
    obtain ⟨hpy, hlo, hhi⟩ := hc
    have hlo' : y.1.offset ≤ x.1.offset + i := hlo
    have hhi' : x.1.offset + i < y.1.offset + 4 := hhi
    rw [hb, gotByte_eq hy]
    exact (hagree y hy i hi _ (Nat.sub_lt_left_of_lt_add hlo' hhi') hpy
      (Nat.add_sub_of_le hlo').symm).symm
  · exact absurd ⟨hp, Nat.le_add_right _ _, Nat.add_lt_add_left hi _⟩ (hnone _ hm)

theorem sites_iff {img : Packed} (hcode : o.patchCode = some img.code)
    (hlot : o.lotEntries < 2 ^ 16) :
    (∀ x ∈ o.gotRels, o.shippedWord img x.1.offset = some (4 * o.lotSlot x.1.key)) ↔
      (∀ x ∈ o.gotRels, ∀ n, o.payloadAt x.1.offset = some (n + 1) →
        (o.rest[n]?.map fun b => unpackFrom (b.buf.getD []) (x.1.offset - b.lo)) =
          some (4 * (o.usedBefore x.1.key).card)) ∧
      (∀ x ∈ o.gotRels, ∀ y ∈ o.gotRels, ∀ i, i < 4 → ∀ j, j < 4 →
        o.payloadAt x.1.offset = some 0 → o.payloadAt y.1.offset = some 0 →
        x.1.offset + i = y.1.offset + j →
        wordByte (4 * (o.usedBefore x.1.key).card) i =
          wordByte (4 * (o.usedBefore y.1.key).card) j) := by
  constructor
  · intro h
    have hbyte : ∀ x ∈ o.gotRels, o.payloadAt x.1.offset = some 0 → ∀ i, i < 4 →
        img.code.getD (x.1.offset + i) 0 = wordByte (4 * (o.usedBefore x.1.key).card) i := by
      intro x hx hp i hi
      have hs := h x hx
      rw [shippedWord, hp, lotSlot_eq (gotKey_mem hx)] at hs
      exact (unpackFrom_eq_iff (gotSlot_word hx hlot)).mp (Option.some.inj hs) i hi
    refine ⟨fun x hx n hp => ?_, fun x hx y hy i hi j hj hpx hpy hij => ?_⟩
    · have hs := h x hx
      rw [shippedWord, hp, lotSlot_eq (gotKey_mem hx)] at hs
      exact hs
    · rw [← hbyte x hx hpx i hi, ← hbyte y hy hpy j hj, hij]
  · rintro ⟨hpreset, hagree⟩ x hx
    have hm : o.gotTuple x ∈ o.gotRelocs := mem_gotRelocs.mpr ⟨x, hx, rfl⟩
    have hsome : o.payloadAt x.1.offset ≠ none := ((patchLoop_ok hcode).1 _ hm).1
    rw [shippedWord, lotSlot_eq (gotKey_mem hx)]
    split
    next hp => exact absurd hp hsome
    next hp =>
      exact congrArg some (mainSite_exact hcode hlot hx hp fun y hy i hi j hj hpy hij =>
        hagree x hx y hy i hi j hj hp hpy hij)
    next n hp => exact hpreset x hx n hp

/-! ## Slots -/

/-- A site is taken for a data word exactly when its address is the index of one. -/
theorem gotTuple_mem_dataRelocs {x : Rel × ElfSymbol} (hx : x ∈ o.gotRels) :
    o.gotTuple x ∈ o.dataRelocs ↔
      ∃ y ∈ o.dataRels, y.1.key = x.1.key ∧ o.dataOffset y.1 = x.1.offset := by
  rw [dataRelocs, List.mem_map]
  constructor
  · rintro ⟨y, hy, he⟩
    rw [dataTuple, gotTuple, RelocTuple.mk.injEq] at he
    exact ⟨y, hy, he.1, he.2.2.1⟩
  · rintro ⟨y, hy, hk, hoff⟩
    refine ⟨y, hy, ?_⟩
    rw [dataTuple, gotTuple, hk, hoff, known_sym hy hx hk]

/-- An entry of a slot comes from a site of its symbol, not taken for a data word. -/
theorem slotEntry_source {t : RelocTuple} {e : Written} {key : Key}
    (ht : t ∈ o.orderedRelocs) (he : o.entryOf t = some e) (hp : o.Plain e.key)
    (hkey : key ∈ o.lotKeys) (hs : e.offset = o.lotSlot key) :
    e.key = key ∧ o.symtMapping key = some e.value ∧ t ∉ o.dataRelocs := by
  have hk := entryOf_key he
  rw [hk] at hp
  obtain ⟨hv, he'⟩ := entryOf_plain (named_ordered ht) hp he
  have hlt := lotSlot_lt hkey
  have hoff : e.offset = if t ∉ o.dataRelocs then o.lotSlot t.key else t.offset := by rw [he']
  rw [hs] at hoff
  split at hoff
  next hd =>
    have hgot : t.key ∈ o.lotKeys := by
      rcases mem_orderedRelocs.mp ht with ⟨x, hx, rfl⟩ | ⟨y, hy, rfl⟩
      · exact gotKey_mem hx
      · exact absurd (List.mem_map_of_mem hy) hd
    have hsame := lotSlot_inj hkey hgot hoff
    exact ⟨hk.trans hsame.symm, hsame ▸ hv, hd⟩
  next hd =>
    -- data words lie behind the slots
    obtain ⟨y, hy, rfl⟩ := List.mem_map.mp (Decidable.not_not.mp hd)
    have hge := o.lotEntries_le_dataOffset y.1
    rw [show (o.dataTuple y).offset = o.dataOffset y.1 from rfl] at hoff
    rw [lotEntries] at hge
    omega

theorem baseEntry_value {t : RelocTuple} {e : Written} (ht : o.Named t)
    (he : o.entryOf t = some e) (hp : ¬ o.Plain e.key) :
    e.offset = t.offset ∧ relocFlagCodeBase ≤ e.value := by
  rw [entryOf_key he, ht.plain_iff] at hp
  rw [entryOf] at he
  split at he
  · obtain rfl := Option.some.inj he
    exact ⟨rfl, Nat.left_le_or⟩
  next h1 =>
    split at he
    · obtain rfl := Option.some.inj he
      have hflags : relocFlagCodeBase ≤ relocFlagDataBase := by decide
      exact ⟨rfl, hflags.trans Nat.left_le_or⟩
    next h2 => exact absurd ⟨h1, h2⟩ hp

/-- A relocation with the name of a base leaves the slots alone when no site has one. -/
theorem slotEntry_plain {t : RelocTuple} {e : Written} {key : Key}
    (hplain : ∀ x ∈ o.gotRels, o.relName x.2 ≠ ".text" ∧ o.relName x.2 ≠ ".data")
    (ht : t ∈ o.orderedRelocs) (he : o.entryOf t = some e) (hkey : key ∈ o.lotKeys)
    (hs : e.offset = o.lotSlot key) : o.Plain e.key := by
  by_contra hp
  have hoff := (baseEntry_value (named_ordered ht) he hp).1
  rw [entryOf_key he, (named_ordered ht).plain_iff] at hp
  rcases mem_orderedRelocs.mp ht with ⟨x, hx, rfl⟩ | ⟨y, hy, rfl⟩
  · exact hp (hplain x hx)
  · have hge := o.lotEntries_le_dataOffset y.1
    have hlt := lotSlot_lt hkey
    rw [hs, show (o.dataTuple y).offset = o.dataOffset y.1 from rfl] at hoff
    rw [lotEntries] at hge
    omega

section Table

variable {written : List Written} (hw : o.writtenRelocs = some written)

include hw

theorem written_ok : (∀ t ∈ o.orderedRelocs, ∃ e, o.entryOf t = some e) ∧
    (∀ e, e ∈ written ↔ ∃ t ∈ o.orderedRelocs, o.entryOf t = some e) ∧
    (written.filter fun e => o.Plain e.key).Nodup := by
  obtain ⟨hall, hiff, hnd⟩ := writeLoop_ok (fun t ht => named_ordered ht)
    (fun e he => absurd he List.not_mem_nil) List.nodup_nil hw
  exact ⟨hall, fun e => by simpa using hiff e, hnd⟩

/-- Only one entry goes to a slot when its symbol has a site that is written as one. -/
theorem slot_filter_eq (hplain : ∀ x ∈ o.gotRels, o.relName x.2 ≠ ".text" ∧ o.relName x.2 ≠ ".data")
    {x : Rel × ElfSymbol} (hx : x ∈ o.gotRels)
    (hapart : ∀ y ∈ o.dataRels, y.1.key = x.1.key → o.dataOffset y.1 ≠ x.1.offset) :
    ∃ value, o.symtMapping x.1.key = some value ∧
      (written.filter fun e => e.offset = o.lotSlot x.1.key) =
        [⟨x.1.key, o.lotSlot x.1.key, value⟩] := by
  obtain ⟨hall, hiff, hnd⟩ := written_ok hw
  have hkey := gotKey_mem hx
  have ht : o.gotTuple x ∈ o.orderedRelocs := mem_orderedRelocs.mpr (Or.inl ⟨x, hx, rfl⟩)
  have hd : o.gotTuple x ∉ o.dataRelocs := fun hm => by
    obtain ⟨y, hy, hk, hoff⟩ := (gotTuple_mem_dataRelocs hx).mp hm
    exact hapart y hy hk hoff
  obtain ⟨e, he⟩ := hall _ ht
  have hp : o.Plain (o.gotTuple x).key := (named_ordered ht).plain_iff.mpr (hplain x hx)
  obtain ⟨hv, he'⟩ := entryOf_plain (named_ordered ht) hp he
  rw [if_pos hd] at he'
  refine ⟨e.value, hv, ?_⟩
  have hcollect : (written.filter fun e => e.offset = o.lotSlot x.1.key) =
      (written.filter fun e => o.Plain e.key).filter fun e => e.offset = o.lotSlot x.1.key := by
    rw [List.filter_filter]
    refine List.filter_congr fun e₁ h₁ => ?_
    obtain ⟨t₁, ht₁, he₁⟩ := (hiff e₁).mp h₁
    by_cases hs : e₁.offset = o.lotSlot x.1.key
    · simp [hs, slotEntry_plain hplain ht₁ he₁ hkey hs]
    · simp [hs]
  refine List.perm_singleton.mp ((List.perm_ext_iff_of_nodup (hcollect ▸ hnd.filter _)
    (List.nodup_singleton _)).mpr fun e₁ => ?_)
  rw [List.mem_filter, List.mem_singleton, decide_eq_true_eq]
  constructor
  · rintro ⟨hm, hs⟩
    obtain ⟨t₁, ht₁, he₁⟩ := (hiff e₁).mp hm
    obtain ⟨hk₁, hv₁, -⟩ :=
      slotEntry_source ht₁ he₁ (slotEntry_plain hplain ht₁ he₁ hkey hs) hkey hs
    rw [show (o.gotTuple x).key = x.1.key from rfl, hv₁, Option.some.injEq] at hv
    rw [← hv, ← hk₁, hk₁, ← hs]
    exact Written.mk.injEq .. ▸ ⟨hk₁, rfl, rfl⟩
  · intro h₁
    have hsame : e₁ = e := h₁.trans he'.symm
    rw [hsame]
    refine ⟨(hiff e).mpr ⟨_, ht, he⟩, ?_⟩
    rw [he']
    rfl

theorem filled_iff {img : Packed} (hlots : img.lotEntries = o.lotEntries)
    (hslist : img.slist = o.slist) (hrel : img.relocs = written.map fun e => (e.offset, e.value))
    (hlen : 8 * (o.slist.length + 1) + 4 < 2 ^ 32) :
    (∀ s, s < img.lotEntries → ∃ key value, o.lotKeys[s]? = some key ∧
      (img.relocs.filter fun r => r.1 = s) = [(s, value)] ∧ RefersTo img value key) ↔
      (∀ x ∈ o.gotRels, o.relName x.2 ≠ ".text" ∧ o.relName x.2 ≠ ".data") ∧
      (∀ x ∈ o.gotRels, ∃ x' ∈ o.gotRels, x'.1.key = x.1.key ∧
        ∀ y ∈ o.dataRels, y.1.key = x.1.key → o.dataOffset y.1 ≠ x'.1.offset) := by
  obtain ⟨-, hiff, -⟩ := written_ok hw
  constructor
  · intro h
    -- the entry of a slot is a symbol entry of the slot's own symbol
    have hentry : ∀ x ∈ o.gotRels, ∃ t ∈ o.orderedRelocs, ∃ e, o.entryOf t = some e ∧
        o.Plain e.key ∧ e.key = x.1.key ∧ t ∉ o.dataRelocs := by
      intro x hx
      have hkey := gotKey_mem hx
      obtain ⟨key, value, hget, hf, -, hsmall, -⟩ := h _ (lt_of_lt_of_eq (lotSlot_lt hkey) hlots.symm)
      have hm : (o.lotSlot x.1.key, value) ∈ img.relocs.filter fun r => r.1 = o.lotSlot x.1.key := by
        rw [hf]
        exact List.mem_singleton_self _
      rw [hrel] at hm
      obtain ⟨e, he, hpair⟩ := List.mem_map.mp (List.mem_filter.mp hm).1
      rw [Prod.mk.injEq] at hpair
      obtain ⟨t, ht, het⟩ := (hiff e).mp he
      have hp : o.Plain e.key := by
        by_contra hp
        have hbig := (baseEntry_value (named_ordered ht) het hp).2
        rw [hpair.2] at hbig
        omega
      obtain ⟨hk, -, hd⟩ := slotEntry_source ht het hp hkey hpair.1
      exact ⟨t, ht, e, het, hp, hk, hd⟩
    refine ⟨fun x hx => ?_, fun x hx => ?_⟩
    · obtain ⟨t, -, e, -, hp, hk, -⟩ := hentry x hx
      rw [hk] at hp
      exact hp x.2 (mem_known.mp hx).2.2
    · obtain ⟨t, ht, e, he, -, hk, hd⟩ := hentry x hx
      rw [entryOf_key he] at hk
      rcases mem_orderedRelocs.mp ht with ⟨x', hx', rfl⟩ | ⟨y, hy, rfl⟩
      · refine ⟨x', hx', hk, fun y hy hyk hoff => hd ?_⟩
        exact (gotTuple_mem_dataRelocs hx').mpr ⟨y, hy, hyk.trans hk.symm, hoff⟩
      · exact absurd (List.mem_map_of_mem hy) hd
  · rintro ⟨hplain, hapart⟩ s hs
    have hlt : s < o.lotKeys.length := by rw [hlots] at hs; exact hs
    have hget := List.getElem?_eq_getElem hlt
    obtain ⟨hkey, hslot⟩ := lotSlot_of_getElem? hget
    obtain ⟨x, hx, hxk⟩ := mem_lotKeys.mp hkey
    obtain ⟨x', hx', hk, hfree⟩ := hapart x hx
    obtain ⟨value, hv, hf⟩ := slot_filter_eq hw hplain hx' fun y hy hyk =>
      hfree y hy (hyk.trans hk)
    rw [hk, hxk, hslot] at hf
    rw [hk, hxk] at hv
    obtain ⟨hpos, hle, hsym⟩ := symtMapping_spec hv
    refine ⟨_, value, hget, ?_, hpos, ?_, hslist ▸ hsym⟩
    · rw [hrel, List.filter_map]
      exact congrArg (List.map fun e : Written => (e.offset, e.value)) hf
    · rw [relocFlagCodeBase]
      omega

end Table

/-! ## The packed module -/

theorem process_ok {img : Packed} (h : o.process = some img) : ∃ written,
    o.patchCode = some img.code ∧ o.writtenRelocs = some written ∧
      img.lotEntries = o.lotEntries ∧ img.slist = o.slist ∧
      img.relocs = (written.map fun e => (e.offset, e.value)) ∧ o.lotEntries < 2 ^ 16 ∧
      8 * (o.slist.length + 1) + 4 < 2 ^ 32 := by
  rw [process] at h
  split at h
  next =>
    obtain ⟨code, hcode, h⟩ := Option.bind_eq_some_iff.mp h
    obtain ⟨written, hw, h⟩ := Option.bind_eq_some_iff.mp h
    split at h
    next hsizes =>
      obtain ⟨hl, -, hs⟩ := hsizes
      obtain rfl := Option.some.inj h
      exact ⟨written, hcode, hw, rfl, rfl, rfl, hl, hs⟩
    next => simp at h
  next => simp at h

/-- The LOT of a packed module is exact under a condition on its sites: each symbol
has one whose address is not the number of a data word of the same symbol, and the
sites outside the main code need no patch. -/
theorem process_slotsExact_iff (o : LinkedObject) (img : Packed) (h : o.process = some img) :
    o.SlotsExact img ↔ o.SlotsCond := by
  obtain ⟨written, hcode, hw, hlots, hslist, hrel, hlot, hlen⟩ := process_ok h
  have hsites := sites_iff hcode hlot
  have hfilled := filled_iff hw hlots hslist hrel hlen
  have hword : ∀ r, o.dataWord r = o.dataOffset r := fun r => by
    rw [dataWord, dataOffset, lotEntries_eq]
  constructor
  · rintro ⟨-, hs, hf⟩
    obtain ⟨hpreset, hagree⟩ := hsites.mp hs
    obtain ⟨hplain, hapart⟩ := hfilled.mp hf
    exact ⟨hplain, fun x hx => by simpa only [hword] using hapart x hx, hpreset, hagree⟩
  · rintro ⟨hplain, hapart, hpreset, hagree⟩
    refine ⟨fun x hx y hy he => lotSlot_inj (gotKey_mem hx) (gotKey_mem hy) he,
      hsites.mpr ⟨hpreset, hagree⟩, hfilled.mpr ⟨hplain, fun x hx => ?_⟩⟩
    simpa only [hword] using hapart x hx

/-- Two locals of one name, the first of them used twice, and a word of the data that
points at the second. -/
def twoLocals : LinkedObject where
  syms := [⟨(1, 1), "x", .other, .other, 4, .index 2, 16⟩,
    ⟨(1, 2), "x", .other, .other, 4, .index 2, 20⟩]
  rels := [⟨4, .gotBrel, (1, 1)⟩, ⟨8, .gotBrel, (1, 2)⟩, ⟨12, .gotBrel, (1, 1)⟩,
    ⟨24, .abs32, (1, 2)⟩]
  sectionName _ := ""
  packedName
    | .index 1 => some ".text"
    | .index 2 => some ".data"
    | _ => none
  codeSize := 16
  code := List.replicate 16 0
  rest := [⟨16, 32, ".data", some (List.replicate 16 0)⟩, ⟨32, 32, ".bss", none⟩]
  sectioned := false
  demoted _ := false
  moduleName := "m"
  keys_nodup := by decide

/-- Each local has its own slot, written once, and both sites of the first name it. -/
theorem process_slotsExact_iff_twoLocals : twoLocals.SlotsExact
    ⟨2, [0, 0, 0, 0, 0, 0, 0, 0, 4, 0, 0, 0, 0, 0, 0, 0], [(1, 1), (1, 2)],
      [(0, 1), (1, 2), (4, 2)]⟩ := by
  have hgot : twoLocals.gotRels = [
    (⟨4, .gotBrel, (1, 1)⟩, ⟨(1, 1), "x", .other, .other, 4, .index 2, 16⟩),
    (⟨8, .gotBrel, (1, 2)⟩, ⟨(1, 2), "x", .other, .other, 4, .index 2, 20⟩),
    (⟨12, .gotBrel, (1, 1)⟩, ⟨(1, 1), "x", .other, .other, 4, .index 2, 16⟩)] := by decide
  have hdata : twoLocals.dataRels = [
    (⟨24, .abs32, (1, 2)⟩, ⟨(1, 2), "x", .other, .other, 4, .index 2, 20⟩)] := by decide
  have hmain : ∀ x ∈ twoLocals.gotRels, twoLocals.payloadAt x.1.offset = some 0 := by
    rw [hgot]
    decide
  -- the sites are words apart, or the same
  have hapart : ∀ x ∈ twoLocals.gotRels, ∀ y ∈ twoLocals.gotRels,
      x.1.offset + 4 ≤ y.1.offset ∨ y.1.offset + 4 ≤ x.1.offset ∨ x = y := by
    rw [hgot]
    decide
  refine (process_slotsExact_iff twoLocals _ (by decide +kernel)).mpr ⟨?_, ?_, ?_, ?_⟩
  · rw [hgot]
    decide
  · rw [hgot, hdata]
    decide
  · intro x hx n hn
    rw [hmain x hx] at hn
    simp at hn
  · intro x hx y hy i hi j hj _ _ hij
    obtain h | h | rfl := hapart x hx y hy
    · omega
    · omega
    · rw [Nat.add_left_cancel hij]

/-- One global, used by the code at `site` and by the data word at `word`. -/
def oneGlobal (site word : Nat) : LinkedObject where
  syms := [⟨(1, 1), "x", .global, .other, 4, .index 2, 8⟩]
  rels := [⟨site, .gotBrel, (1, 1)⟩, ⟨word, .abs32, (1, 1)⟩]
  sectionName _ := ""
  packedName
    | .index 1 => some ".text"
    | .index 2 => some ".data"
    | _ => none
  codeSize := 8
  code := List.replicate 8 0
  rest := [⟨8, 24, ".data", some (List.replicate 16 0)⟩, ⟨24, 24, ".bss", none⟩]
  sectioned := false
  demoted _ := false
  moduleName := "m"
  keys_nodup := by decide

/-- The data word is the fourth behind the slot, the number of the site: the slot
gets no relocation. -/
theorem oneGlobal_slot_unfilled : ∃ img, (oneGlobal 4 20).process = some img ∧
    ¬ (oneGlobal 4 20).SlotsExact img := by
  refine ⟨⟨1, List.replicate 8 0, [(1, 1)], [(4, 1)]⟩, by decide +kernel, fun h => ?_⟩
  obtain ⟨key, value, -, hf, -⟩ := h.filled 0 (by decide)
  simp at hf

end LinkedObject

end Udynlink.Mkmodule
