import Udynlink.Parser.SameImage
import Udynlink.SectionedLayout

/-!
# The size of an image

The two C functions and the parser compute the size of an image, the loader walks over
its payloads. The C functions leave out the gap that is folded into `.text`.
-/

namespace Udynlink

open Machine Udynlink.Parser

/-! ## Payloads of a load -/

/-- Where the tagged payloads of `n` sections from `k` on are read. -/
def taggedSources (image : Image) (es : Nat → SectEntry) : Nat → Nat → UInt32 → List Span
  | 0, _, _ => []
  | n + 1, k, off =>
    if (es k).size = 0 ∨ (es k).cls = secClassBss then taggedSources image es n (k + 1) off
    else ⟨image.pCode + off, (es k).size.toNat⟩ ::
      taggedSources image es n (k + 1) (off + (es k).size)

/-- What a load copies or executes: `.text` up to the VA of `.data`, `.data`, and the tagged
payloads. -/
def payloadSpans (image : Image) (h : Header) (num : Nat) (es : Nat → SectEntry) : List Span :=
  ⟨image.pCode, exactCodePayload h num es⟩ :: ⟨image.pData, h.dataSize.toNat⟩ ::
    taggedSources image es (num - 3) 3
      (UInt32.ofNat (exactCodePayload h num es) + h.dataSize)

/-- One past the last byte of the spans that are not empty, as an offset. -/
def lastEnd (base : Addr) : List Span → Nat → Nat
  | [], n => n
  | s :: ss, n => lastEnd base ss (if s.len = 0 then n else max n ((s.base - base).toNat + s.len))

def payloadEnd (image : Image) (h : Header) (num : Nat) (es : Nat → SectEntry) : Nat :=
  lastEnd image.pHeader (payloadSpans image h num es) (exactCodeOffset h)

/-- The tagged copies of a load read the sources, and nothing else of the image. -/
theorem taggedBlits_sources {image : Image} {h : Header} {es : Nat → SectEntry} {p : Addr}
    {secs : Nat → Addr} (n k : Nat) (off : UInt32) :
    (∀ b ∈ taggedBlits image h es p secs n k off, (∃ a v, b = .word a v) ∨ (∃ a l, b = .zero a l) ∨
        ∃ dst, ∃ s ∈ taggedSources image es n k off, b = .copy dst s.base s.len) ∧
      ∀ s ∈ taggedSources image es n k off, ∃ dst,
        Blit.copy dst s.base s.len ∈ taggedBlits image h es p secs n k off := by
  induction n generalizing k off with
  | zero => exact ⟨fun b hb => (List.not_mem_nil hb).elim, fun s hs => (List.not_mem_nil hs).elim⟩
  | succ n ih =>
    unfold taggedBlits taggedSources
    by_cases h0 : (es k).size = 0
    · rw [if_pos h0, if_pos (Or.inl h0)]
      exact ih (k + 1) off
    · rw [if_neg h0, taggedBlit, nextPayload]
      by_cases hb : (es k).cls = secClassBss
      · rw [if_pos hb, if_pos hb, if_pos (Or.inr hb)]
        obtain ⟨hread, hcopied⟩ := ih (k + 1) off
        refine ⟨fun b hmem => ?_, fun s hs => ?_⟩
        · rcases List.mem_cons.mp hmem with rfl | hmem
          · exact Or.inl ⟨_, _, rfl⟩
          · rcases List.mem_cons.mp hmem with rfl | hmem
            · exact Or.inr (Or.inl ⟨_, _, rfl⟩)
            · exact hread b hmem
        · obtain ⟨dst, hdst⟩ := hcopied s hs
          exact ⟨dst, List.mem_cons_of_mem _ (List.mem_cons_of_mem _ hdst)⟩
      · rw [if_neg hb, if_neg hb, if_neg (by rintro (hx | hx); exacts [h0 hx, hb hx])]
        obtain ⟨hread, hcopied⟩ := ih (k + 1) (off + (es k).size)
        refine ⟨fun b hmem => ?_, fun s hs => ?_⟩
        · rcases List.mem_cons.mp hmem with rfl | hmem
          · exact Or.inl ⟨_, _, rfl⟩
          · rcases List.mem_cons.mp hmem with rfl | hmem
            · exact Or.inr (Or.inr ⟨_, _, List.mem_cons_self, rfl⟩)
            · refine (hread b hmem).imp id fun hx => hx.imp id fun hx => ?_
              obtain ⟨dst, s, hs, rfl⟩ := hx
              exact ⟨dst, s, List.mem_cons_of_mem _ hs, rfl⟩
        · rcases List.mem_cons.mp hs with rfl | hs
          · exact ⟨secs k, List.mem_cons_of_mem _ List.mem_cons_self⟩
          · obtain ⟨dst, hdst⟩ := hcopied s hs
            exact ⟨dst, List.mem_cons_of_mem _ (List.mem_cons_of_mem _ hdst)⟩

/-- Every copy of the placement reads the metadata or one of the payloads. -/
theorem placeBlits_sources {image : Image} {h : Header} {num : Nat} {es : Nat → SectEntry}
    {mode : LoadMode} {p : Addr} {secs : Nat → Addr} (ht : TableOk h num es) (hn : 1 < num)
    {b : Blit} (hb : b ∈ placeBlits image h num es mode p secs) :
    (∃ a v, b = .word a v) ∨ (∃ a l, b = .zero a l) ∨
      (∃ dst, b = .copy dst image.pHeader (exactCodeOffset h)) ∨
        ∃ dst, ∃ s ∈ payloadSpans image h num es, b = .copy dst s.base s.len := by
  have hpay : exactCodePayload h num es = (es 1).va.toNat := if_pos hn
  have htext : textBlit image h num es mode p = .copy (mainDest h num es mode p 0)
      (Span.mk image.pCode (exactCodePayload h num es)).base
      (Span.mk image.pCode (exactCodePayload h num es)).len := by
    rw [textBlit, hpay]
  have hdata : dataBlit image h num es mode p = .copy (mainDest h num es mode p 1)
      (Span.mk image.pData h.dataSize.toNat).base (Span.mk image.pData h.dataSize.toNat).len := by
    rw [dataBlit, ht.data_size]
  have hfirst : (⟨image.pCode, exactCodePayload h num es⟩ : Span) ∈ payloadSpans image h num es :=
    List.mem_cons_self
  have hsecond : (⟨image.pData, h.dataSize.toNat⟩ : Span) ∈ payloadSpans image h num es :=
    List.mem_cons_of_mem _ List.mem_cons_self
  rcases List.mem_append.mp hb with hmain | hrest
  · cases mode with
    | copyAll =>
      simp only [mainBlits, List.mem_cons, List.not_mem_nil, or_false] at hmain
      rcases hmain with rfl | rfl | rfl
      · exact Or.inr (Or.inr (Or.inl ⟨_, rfl⟩))
      · exact Or.inr (Or.inr (Or.inr ⟨_, _, hfirst, htext⟩))
      · exact Or.inr (Or.inr (Or.inr ⟨_, _, hsecond, hdata⟩))
    | copyTextData =>
      simp only [mainBlits, List.mem_cons, List.not_mem_nil, or_false] at hmain
      rcases hmain with rfl | rfl
      · exact Or.inr (Or.inr (Or.inr ⟨_, _, hfirst, htext⟩))
      · exact Or.inr (Or.inr (Or.inr ⟨_, _, hsecond, hdata⟩))
    | xip =>
      simp only [mainBlits, List.mem_cons, List.not_mem_nil, or_false] at hmain
      exact Or.inr (Or.inr (Or.inr ⟨_, _, hsecond, hmain.trans hdata⟩))
  · rcases List.mem_append.mp hrest with htagged | hbss
    · rw [show (es 1).va + h.dataSize = UInt32.ofNat (exactCodePayload h num es) + h.dataSize by
        rw [hpay, UInt32.ofNat_toNat]] at htagged
      refine ((taggedBlits_sources _ _ _).1 b htagged).imp id fun hx => hx.imp id fun hx => ?_
      obtain ⟨dst, s, hs, hcopy⟩ := hx
      exact Or.inr ⟨dst, s, List.mem_cons_of_mem _ (List.mem_cons_of_mem _ hs), hcopy⟩
    · exact Or.inr (Or.inl ⟨_, _, List.mem_singleton.mp hbss⟩)

section

variable {image : Image} {h : Header} {num : Nat} {es : Nat → SectEntry} {base : Addr}

theorem le_lastEnd (ss : List Span) (n : Nat) : n ≤ lastEnd base ss n := by
  induction ss generalizing n with
  | nil => exact Nat.le_refl n
  | cons s ss ih =>
    refine Nat.le_trans ?_ (ih _)
    split
    · exact Nat.le_refl n
    · exact Nat.le_max_left n _

/-- A span that starts where the last one ended. -/
theorem lastEnd_cons {ss : List Span} {n k : Nat} (hn : n < 2 ^ 32) :
    lastEnd base (⟨base + UInt32.ofNat n, k⟩ :: ss) n = lastEnd base ss (n + k) := by
  have hend : (if k = 0 then n else max n ((base + UInt32.ofNat n - base).toNat + k)) = n + k := by
    rw [off_sub, UInt32.toNat_ofNat_of_lt' hn]
    split <;> omega
  rw [lastEnd, hend]

/-- The tagged payloads follow each other. -/
theorem lastEnd_tagged {c : Nat} (hcode : image.pCode = base + UInt32.ofNat c) (n : Nat) {k off : Nat}
    (hc : ∀ j, k ≤ j → j < k + n → (es j).cls ≤ secClassBss)
    (hfit : c + off + classSizes es 3 n k < 2 ^ 32) :
    lastEnd base (taggedSources image es n k (UInt32.ofNat off)) (c + off) =
      c + off + classSizes es 3 n k := by
  induction n generalizing k off with
  | zero => rfl
  | succ n ih =>
    have hk := classSizes_payload (n := n) (hc k (Nat.le_refl k) (by omega))
    have hnext : ∀ j, k + 1 ≤ j → j < k + 1 + n → (es j).cls ≤ secClassBss :=
      fun j hj hj' => hc j (by omega) (by omega)
    rw [hk] at hfit ⊢
    unfold taggedSources
    by_cases hb : (es k).cls = secClassBss
    · rw [if_pos hb] at hfit ⊢
      rw [if_pos (Or.inr hb), ih hnext (by omega)]
      omega
    · rw [if_neg hb] at hfit ⊢
      by_cases h0 : (es k).size = 0
      · rw [if_pos (Or.inl h0), h0, ih hnext (by omega)]
        show c + off + _ = c + off + (0 + _)
        omega
      · rw [if_neg (by rintro (hx | hx); exacts [h0 hx, hb hx]), hcode, off_off,
          lastEnd_cons (by omega), show UInt32.ofNat off + (es k).size =
            UInt32.ofNat (off + (es k).size.toNat) by rw [UInt32.ofNat_add, UInt32.ofNat_toNat],
          Nat.add_assoc c off, ih hnext (by omega)]
        omega

theorem payloadEnd_eq (hheader : image.pHeader = base)
    (hcode : image.pCode = base + UInt32.ofNat (exactCodeOffset h))
    (hdata : image.pData = image.pCode + UInt32.ofNat (exactCodePayload h num es))
    (hc : ∀ j, 3 ≤ j → j < 3 + (num - 3) → (es j).cls ≤ secClassBss)
    (hfit : exactExtent h num es < 2 ^ 32) : payloadEnd image h num es = exactExtent h num es := by
  unfold exactExtent at hfit ⊢
  unfold payloadEnd payloadSpans
  rw [hheader, hdata, hcode, lastEnd_cons (by omega), off_off, lastEnd_cons (by omega),
    show UInt32.ofNat (exactCodePayload h num es) + h.dataSize =
      UInt32.ofNat (exactCodePayload h num es + h.dataSize.toNat) by
        rw [UInt32.ofNat_add, UInt32.ofNat_toNat],
    Nat.add_assoc (exactCodeOffset h), lastEnd_tagged hcode _ hc (by omega)]

/-! ## The size with a bound -/

theorem addPayloadSizes_run {tab : SectView} {m : Mem} (n : Nat) {k : Nat} {tot : Nat}
    (hc : ∀ j, k ≤ j → j < k + n → (entriesAt m tab.pEntries j).cls ≤ secClassBss) :
    (addPayloadSizes tab n k (UInt32.ofNat tot)).run m =
      UInt32.ofNat (tot + classSizes (entriesAt m tab.pEntries) 3 n k) := by
  induction n generalizing k tot with
  | zero => rfl
  | succ n ih =>
    rw [addPayloadSizes, Reader.run_bind, sectEntryAt_run,
      classSizes_payload (hc k (Nat.le_refl k) (by omega))]
    have hnext : ∀ j, k + 1 ≤ j → j < k + 1 + n →
        (entriesAt m tab.pEntries j).cls ≤ secClassBss := fun j hj hj' => hc j (by omega) (by omega)
    by_cases hb : (entriesAt m tab.pEntries k).cls = secClassBss
    · rw [if_neg (not_not.mpr hb), if_pos hb, ih hnext, Nat.zero_add]
    · rw [if_pos hb, if_neg hb, show UInt32.ofNat tot + (entriesAt m tab.pEntries k).size =
        UInt32.ofNat (tot + (entriesAt m tab.pEntries k).size.toNat) by
          rw [UInt32.ofNat_add, UInt32.ofNat_toNat], ih hnext, Nat.add_assoc]

end

/-! ## An accepted image -/

section

variable {host : Host} {base loadAddr : Addr} {loadSize : UInt32} {mode : LoadMode} {w w' : State}
  {tab : SectView} {avail : UInt32} {data : Bytes}

/-- The parts of an accepted image, as the loader finds them. -/
structure AcceptedAt (m : Mem) (base : Addr) (tab : SectView) : Prop where
  sign : (decodeHeader m base).sign = moduleSign
  sectab : (getSectab base true).run m = (.ok (), tab)
  extent : (getCodeOffsetFromHeader (decodeHeader m base)).toNat +
    (decodeHeader m base).codeSize.toNat + (decodeHeader m base).dataSize.toNat +
      classSizes (entriesAt m tab.pEntries) 3 (tab.num - 3) 3 ≤ maxImageSize.toNat

theorem imageFromMemory_parts (hbase : (getSectab base true).run w.mem = (.ok (), tab)) :
    ((udynlinkImageFromMemory base).run w.mem).pHeader = base ∧
      ((udynlinkImageFromMemory base).run w.mem).pCode =
        base + getCodeOffsetFromHeader (decodeHeader w.mem base) ∧
      ((udynlinkImageFromMemory base).run w.mem).pData =
        ((udynlinkImageFromMemory base).run w.mem).pCode + UInt32.ofNat
          (exactCodePayload (decodeHeader w.mem base) tab.num (entriesAt w.mem tab.pEntries)) := by
  have hpay : (getCodePayloadSize (decodeHeader w.mem base) tab).run w.mem = UInt32.ofNat
      (exactCodePayload (decodeHeader w.mem base) tab.num (entriesAt w.mem tab.pEntries)) := by
    unfold getCodePayloadSize exactCodePayload
    rw [Reader.run_ite]
    split
    · rw [Reader.run_bind, sectEntryAt_run, Reader.run_pure, UInt32.ofNat_toNat]
    · rw [Reader.run_pure, UInt32.ofNat_toNat]
  unfold udynlinkImageFromMemory
  rw [Reader.run_bind, readHeader_run]
  dsimp only
  by_cases hs : isSectioned (decodeHeader w.mem base) = true
  · rw [if_pos hs, Reader.run_bind, getSectab_unnamed hbase]
    dsimp only
    rw [if_pos rfl, Reader.run_bind, hpay]
    exact ⟨rfl, rfl, rfl⟩
  · rw [if_neg hs]
    have hnum : tab.num = 0 := (view_untagged hbase).mpr (by simpa using hs)
    unfold exactCodePayload
    rw [hnum, if_neg (by decide), UInt32.ofNat_toNat]
    exact ⟨rfl, rfl, rfl⟩

theorem acceptedAt_of_load (h : (udynlinkLoadModuleImage host
      ((udynlinkImageFromMemory base).run w.mem) loadAddr loadSize mode).run w = (.ok (), w'))
    (htab : (getSectab base true).run w.mem = (.ok (), tab)) : AcceptedAt w.mem base tab := by
  obtain ⟨tab', ramSize, ramAddr, w1, w2, w3, w4, hs⟩ := loadStages_of_ok h
  obtain ⟨hheader, -, -⟩ := imageFromMemory_parts htab
  have hsectab := hs.sectab
  have hcaps := hs.caps
  have hval := hs.header
  rw [hheader] at hsectab hcaps hval
  obtain rfl : tab' = tab := congrArg Prod.snd (hsectab.symm.trans htab)
  refine ⟨?_, htab, hcaps.extent⟩
  by_contra hne
  unfold udynlinkValidateHeader at hval
  rw [if_pos hne] at hval
  cases hval

end

namespace AcceptedAt

variable {m : Mem} {base : Addr} {tab : SectView} {avail : UInt32} {data : Bytes}

theorem table (h : AcceptedAt m base tab) (hn : tab.num ≠ 0) :
    TableOk (decodeHeader m base) tab.num (entriesAt m tab.pEntries) := by
  rcases getSectab_ok h.sectab with ⟨-, rfl⟩ | ⟨-, ht, -⟩
  · exact absurd rfl hn
  · exact ht

theorem cls_le (h : AcceptedAt m base tab) : ∀ j, 3 ≤ j → j < 3 + (tab.num - 3) →
    (entriesAt m tab.pEntries j).cls ≤ secClassBss := fun j hj hj' =>
  (h.table (by omega)).cls_le (by omega)

/-- The rounding of `.text` stays below half of the address space. -/
theorem payload_lt (h : AcceptedAt m base tab) :
    exactCodePayload (decodeHeader m base) tab.num (entriesAt m tab.pEntries) <
      maxImageSize.toNat + 2 ^ 31 + 1 := by
  have hext := h.extent
  unfold exactCodePayload
  split
  · rename_i hn
    have ht := h.table (by omega)
    obtain ⟨hpow, h4⟩ := ht.align_isPowerOfTwo hn
    have hm := ht.main
    simp only [mainEntriesOk, Bool.and_eq_true, beq_iff_eq] at hm
    have hva := hm.1.1.1.2
    have ha : (entriesAt m tab.pEntries 1).align ≠ 0 := by
      intro hz
      rw [hz] at h4
      exact absurd h4 (by decide)
    have hcode : (decodeHeader m base).codeSize.toUInt64.toNat =
        (decodeHeader m base).codeSize.toNat := UInt32.toNat_toUInt64 _
    have hcl := (decodeHeader m base).codeSize.toNat_lt
    have hround := @alignUpU32_toNat (decodeHeader m base).codeSize.toUInt64 _ ha (by omega)
    have hlt := exactAlignUp_lt (x := (decodeHeader m base).codeSize.toNat) hpow
    have hmod := Nat.mod_le (exactAlignUp (decodeHeader m base).codeSize.toNat
      (entriesAt m tab.pEntries 1).align.toNat) (2 ^ 32)
    have hhalf : (entriesAt m tab.pEntries 1).align.toNat ≤ 2 ^ 31 := by
      have hword := (entriesAt m tab.pEntries 1).align.toNat_lt
      obtain ⟨k, hk⟩ := hpow
      rw [hk] at hword ⊢
      have hk32 : k < 32 := (Nat.pow_lt_pow_iff_right (by decide)).mp hword
      exact Nat.pow_le_pow_right (by decide) (by omega)
    rw [hcode] at hround
    rw [hva, hround]
    omega
  · omega

theorem extent_lt (h : AcceptedAt m base tab) (hc : exactCodeOffset (decodeHeader m base) < 2 ^ 32) :
    exactExtent (decodeHeader m base) tab.num (entriesAt m tab.pEntries) < 2 ^ 32 := by
  have hext := h.extent
  have hpay := h.payload_lt
  have hmax : maxImageSize.toNat = 4194304 := by decide
  rw [codeOffset_toNat hc] at hext
  unfold exactExtent
  omega

theorem codeOffset_ge (h : Header) : 32 ≤ exactCodeOffset h := by
  have hh := getHeaderSize_ge h
  have h4 : (4 : Nat).isPowerOfTwo := ⟨2, rfl⟩
  have h1 := le_exactAlignUp (x := (getHeaderSize h).toNat + 8 * h.numRels.toNat +
    h.symtSize.toNat) h4
  have h2 := le_exactAlignUp (x := exactSymtabEnd h + 24 * (getNumSectionsRaw h).toNat) h4
  unfold exactCodeOffset
  unfold exactSymtabEnd at h2 ⊢
  omega

theorem imageSize_run (h : AcceptedAt m base tab) :
    (udynlinkGetImageSize base).run m = UInt32.ofNat
      (exactCodeOffset (decodeHeader m base) + (decodeHeader m base).codeSize.toNat +
        (decodeHeader m base).dataSize.toNat) := by
  rw [udynlinkGetImageSize, Reader.run_bind, readHeader_run, if_neg (not_not.mpr h.sign),
    Reader.run_pure, getCodeOffsetFromHeader_eq, UInt32.ofNat_add, UInt32.ofNat_add,
    UInt32.ofNat_toNat, UInt32.ofNat_toNat]

/-- The gap is missing from the size with a bound. -/
theorem bounded_toNat (h : AcceptedAt m base tab) (h0 : base ≠ 0)
    (hc : exactCodeOffset (decodeHeader m base) < 2 ^ 32) :
    ((udynlinkGetImageSizeBounded base avail).run m).toNat =
      if avail.toNat < exactCodeOffset (decodeHeader m base) +
          (decodeHeader m base).codeSize.toNat + (decodeHeader m base).dataSize.toNat then 0
      else exactCodeOffset (decodeHeader m base) + (decodeHeader m base).codeSize.toNat +
        (decodeHeader m base).dataSize.toNat +
          classSizes (entriesAt m tab.pEntries) 3 (tab.num - 3) 3 := by
  have hge := codeOffset_ge (decodeHeader m base)
  have hext := h.extent
  have hmax : maxImageSize.toNat = 4194304 := by decide
  rw [codeOffset_toNat hc] at hext
  generalize htot : exactCodeOffset (decodeHeader m base) + (decodeHeader m base).codeSize.toNat +
    (decodeHeader m base).dataSize.toNat = tot at hext ⊢
  have hword : (UInt32.ofNat tot).toNat = tot := UInt32.toNat_ofNat_of_lt' (by
    show tot < 2 ^ 32
    omega)
  have hrun := h.imageSize_run
  rw [htot] at hrun
  unfold udynlinkGetImageSizeBounded
  rw [Reader.run_ite]
  by_cases hshort : avail < 32
  · have hlt : avail.toNat < 32 := UInt32.lt_iff_toNat_lt.mp hshort
    rw [if_pos (Or.inr hshort), if_pos (by omega)]
    rfl
  · have hne : UInt32.ofNat tot ≠ 0 := by
      intro hz
      rw [hz, UInt32.toNat_zero] at hword
      omega
    rw [if_neg (by rintro (hx | hx); exacts [h0 hx, hshort hx]), Reader.run_bind, hrun, if_neg hne]
    by_cases hav : avail.toNat < tot
    · rw [if_pos (UInt32.lt_iff_toNat_lt.mpr (by rw [hword]; exact hav)), if_pos hav]
      rfl
    · rw [if_neg (fun hx => hav (by rw [← hword]; exact UInt32.lt_iff_toNat_lt.mp hx)),
        if_neg hav, Reader.run_bind, readHeader_run]
      by_cases hs : isSectioned (decodeHeader m base) = true
      · rw [hs, if_neg (by decide), Reader.run_bind, getSectab_unnamed h.sectab]
        dsimp only
        rw [if_neg (fun hx => hx rfl), addPayloadSizes_run _ h.cls_le]
        exact UInt32.toNat_ofNat_of_lt' (by
          show _ < 2 ^ 32
          omega)
      · have hnum : tab.num = 0 := (view_untagged h.sectab).mpr (by simpa using hs)
        rw [if_pos (by simpa using hs), hnum]
        exact hword

/-! ### The parser -/

/-- An accepted image is readable, but for reserved flags. -/
theorem readable (h : AcceptedAt m base tab) (hb : HasBytes m base data)
    (hlen : exactCodeOffset (decodeHeader m base) ≤ data.length)
    (hf : (decodeHeader m base).flags &&& 0xFF00 = 0) :
    Readable data ∧ (ModuleHeader.ofBytes data).codeOffset = exactCodeOffset (decodeHeader m base) ∧
      payloadSize (sectionsOf data) =
        if tab.num = 0 then (decodeHeader m base).codeSize.toNat +
          (decodeHeader m base).dataSize.toNat
        else classSizes (entriesAt m tab.pEntries) 3 tab.num 0 := by
  have hge := codeOffset_ge (decodeHeader m base)
  have hs : SameHeader (ModuleHeader.ofBytes data) (decodeHeader m base) :=
    hb.header (by unfold headerSizeBytes; omega)
  obtain ⟨hnum, htab, hpos⟩ := numSections_accepted h.sectab hs
  obtain ⟨-, hsectab, hcode⟩ := hs.offsets hnum
  have hflags : (ModuleHeader.ofBytes data).flags &&& 0xFF00 = 0 := by
    have hz := congrArg UInt16.toNat hf
    rw [UInt16.toNat_and] at hz
    rw [hs.flags]
    exact hz
  have hle63 := getNumSectionsRaw_le (decodeHeader m base)
  by_cases hsec : (ModuleHeader.ofBytes data).hasSections = true
  · have hnz : tab.num ≠ 0 := by
      have := hpos hsec
      omega
    have ht := h.table hnz
    have hfit : exactSymtabEnd (decodeHeader m base) + (0 + tab.num) * sectionEntrySize ≤
        data.length := by
      have h4 : (4 : Nat).isPowerOfTwo := ⟨2, rfl⟩
      have hup := le_exactAlignUp (x := exactSymtabEnd (decodeHeader m base) +
        24 * (getNumSectionsRaw (decodeHeader m base)).toNat) h4
      unfold exactCodeOffset at hlen
      unfold sectionEntrySize
      omega
    have hsections : sectionsOf data = tableFrom data (symtabOf data)
        (ModuleHeader.ofBytes data).symtSize (exactSymtabEnd (decodeHeader m base)) tab.num 0 := by
      unfold sectionsOf
      rw [if_pos hsec, hnum, ← htab, hsectab]
    have hview : tab.pEntries = base + getSectabOffset (decodeHeader m base) := by
      rcases getSectab_ok h.sectab with ⟨-, hx⟩ | ⟨hx, -, -⟩
      · rw [hx] at hnz
        exact absurd rfl hnz
      · rw [hx]
        rfl
    have hentries : tab.pEntries = base + UInt32.ofNat (exactSymtabEnd (decodeHeader m base)) := by
      rw [hview]
      unfold getSectabOffset
      rw [getSymtabEndOffset_eq]
    have hsame := @HasBytes.table m base data hb (symtabOf data)
      (ModuleHeader.ofBytes data).symtSize (exactSymtabEnd (decodeHeader m base)) tab.num 0 hfit
    rw [← hsections, ← hentries] at hsame
    have hnames : NamesOk m base (decodeHeader m base) true := by
      rcases getSectab_ok h.sectab with ⟨-, hx⟩ | ⟨-, -, hx⟩
      · rw [hx] at hnz
        exact absurd rfl hnz
      · exact hx
    refine ⟨⟨by unfold headerSizeBytes; omega, hs.sign h.sign, hflags, fun _ => ⟨hpos hsec, ?_⟩,
      fun hx => ?_, fun _ => ?_, fun _ e he => ?_, fun _ => ?_, by omega⟩, hcode, ?_⟩
    · unfold maxSectionCount
      omega
    · rw [hsec] at hx
      cases hx
    · have hh := ht.header
      simp only [sectabHeaderOk, Bool.and_eq_true, Bool.not_eq_true', decide_eq_false_iff_not] at hh
      rw [hs.version]
      exact UInt16.le_iff_toNat_le.mp (UInt16.not_lt.mp hh.1.1.2)
    · obtain ⟨i, hi, he'⟩ := sameEntries_mem tab.num hsame he
      have hnamed := hnames i (by omega)
      rw [← hview] at hnamed
      rw [hs.symtSize]
      exact entryOk_accepted he' ht (by omega) (nameOff_accepted hnamed)
    · exact sameEntries_order tab.num hsame fun j hj => ht.va_succ (by omega)
    · rw [if_neg hnz]
      exact payloadSize_same tab.num hsame fun j _ hj => ht.cls_le (by omega)
  · have hno : (ModuleHeader.ofBytes data).hasSections = false := by simpa using hsec
    have hu : isSectioned (decodeHeader m base) = false := by rw [← hs.hasSections]; exact hno
    have hzero : tab.num = 0 := (view_untagged h.sectab).mpr hu
    refine ⟨⟨by unfold headerSizeBytes; omega, hs.sign h.sign, hflags,
      fun hx => absurd hx hsec, fun _ => ?_, fun hx => absurd hx hsec, fun hx => absurd hx hsec,
      fun hx => absurd hx hsec, by omega⟩, hcode, ?_⟩
    · rw [hnum, ← htab, hzero]
    · rw [if_pos hzero]
      unfold sectionsOf
      rw [if_neg hsec, ← hs.codeSize, ← hs.dataSize]
      show (ModuleHeader.ofBytes data).codeSize + ((ModuleHeader.ofBytes data).dataSize + (0 + 0)) = _
      omega

end AcceptedAt

/-! ## The three sizes -/

/-- The section table that a load works with. -/
def sectViewAt (m : Mem) (base : Addr) : SectView := ((getSectab base true).run m).2

def entriesOf (m : Mem) (base : Addr) : Nat → SectEntry :=
  entriesAt m (sectViewAt m base).pEntries

/-- The parser adds up the section sizes. -/
def tablePayload (h : Header) (num : Nat) (es : Nat → SectEntry) : Nat :=
  if num = 0 then h.codeSize.toNat + h.dataSize.toNat else classSizes es 3 num 0

/-- Every size is where the payload ends. -/
structure SizesAgree (m : Mem) (base : Addr) (avail : UInt32) (data : Bytes) (size : Nat) :
    Prop where
  bounded : ((udynlinkGetImageSizeBounded base avail).run m).toNat = size
  parser : (parseModule data true).map ModuleImage.imageSize = .ok size
  untagged : isSectioned (decodeHeader m base) = false →
    ((udynlinkGetImageSize base).run m).toNat = size

/-- The parser takes the header, nothing wraps, no gap is folded into `.text`, and a table of
one entry is as long as the image. -/
structure SizesClear (base : Addr) (h : Header) (num : Nat) (es : Nat → SectEntry) : Prop where
  base_ne : base ≠ 0
  headerSize : getHeaderSize h = 32
  flags : h.flags &&& 0xFF00 = 0
  fits : exactCodeOffset h < 2 ^ 32
  gap : exactCodePayload h num es = h.codeSize.toNat
  single : num = 1 → (es 0).size.toNat = h.codeSize.toNat + h.dataSize.toNat

theorem TableOk.payload {h : Header} {num : Nat} {es : Nat → SectEntry} (ht : TableOk h num es) :
    classSizes es 3 num 0 = if num = 1 then (es 0).size.toNat
      else exactCodePayload h num es + h.dataSize.toNat + classSizes es 3 (num - 3) 3 := by
  have hpos := ht.num_pos
  have h0 : (es 0).cls = 0 := ht.cls_main hpos (by omega)
  have htext : ∀ n, classSizes es 3 (n + 1) 0 = (es 0).size.toNat + classSizes es 3 n 1 := by
    intro n
    rw [classSizes_payload (ht.cls_le hpos), h0]
    rfl
  have hdata : 1 < num → ∀ n, classSizes es 3 (n + 1) 1 =
      h.dataSize.toNat + classSizes es 3 n 2 := by
    intro h1 n
    rw [classSizes_payload (ht.cls_le h1), ht.cls_main h1 (by omega), ht.data_size]
    rfl
  have hbss : 2 < num → ∀ n, classSizes es 3 (n + 1) 2 = 0 + classSizes es 3 n 3 := by
    intro h2 n
    rw [classSizes_payload (ht.cls_le h2), ht.cls_main h2 (by omega)]
    rfl
  obtain ⟨n, rfl⟩ : ∃ n, num = n + 1 := ⟨num - 1, by omega⟩
  rw [htext]
  by_cases h1 : n = 0
  · subst h1
    rfl
  · have hpay : exactCodePayload h (n + 1) es = (es 0).size.toNat := by
      rw [exactCodePayload, if_pos (by omega), ht.text_size]
    rw [if_neg (by omega), hpay]
    obtain ⟨n, rfl⟩ : ∃ k, n = k + 1 := ⟨n - 1, by omega⟩
    rw [hdata (by omega)]
    by_cases h2 : n = 0
    · subst h2
      rfl
    · obtain ⟨n, rfl⟩ : ∃ k, n = k + 1 := ⟨n - 1, by omega⟩
      rw [hbss (by omega), show n + 1 + 1 + 1 - 3 = n by omega]
      omega

theorem checkHeader_of_parse {data : Bytes} {img : ModuleImage}
    (h : parseModule data true = .ok img) (hlen : headerSizeBytes ≤ data.length) :
    (ModuleHeader.ofBytes data).headerSize = headerSizeBytes ∧
      (ModuleHeader.ofBytes data).flags &&& 0xFF00 = 0 := by
  have hshort : checkHeaderLength data.length = .ok () := if_neg (Nat.not_lt.mpr hlen)
  have hunpack : ModuleHeader.unpack data = .ok (ModuleHeader.ofBytes data) :=
    if_neg (Nat.not_lt.mpr hlen)
  unfold parseModule at h
  rw [hshort, ok_bind, hunpack, ok_bind] at h
  rcases hcheck : checkHeader (ModuleHeader.ofBytes data) with e | u
  · rw [show validating true (checkHeader (ModuleHeader.ofBytes data)) = .error e from hcheck] at h
    cases h
  · unfold checkHeader at hcheck
    split at hcheck
    · cases hcheck
    · split at hcheck
      · cases hcheck
      · rename_i hsize
        split at hcheck
        · cases hcheck
        · rename_i hflags
          exact ⟨not_not.mp hsize, not_not.mp hflags⟩

namespace AcceptedAt

variable {m : Mem} {base : Addr} {tab : SectView} {data : Bytes}

theorem tablePayload_eq (h : AcceptedAt m base tab) :
    tablePayload (decodeHeader m base) tab.num (entriesAt m tab.pEntries) =
      if tab.num = 1 then (entriesAt m tab.pEntries 0).size.toNat
      else exactCodePayload (decodeHeader m base) tab.num (entriesAt m tab.pEntries) +
        (decodeHeader m base).dataSize.toNat +
          classSizes (entriesAt m tab.pEntries) 3 (tab.num - 3) 3 := by
  unfold tablePayload
  by_cases h0 : tab.num = 0
  · rw [if_pos h0, h0, if_neg (by decide)]
    rfl
  · rw [if_neg h0]
    exact (h.table h0).payload

/-- The size that the parser reports. -/
theorem parse_size_iff (h : AcceptedAt m base tab) (hb : HasBytes m base data)
    (hlen : exactCodeOffset (decodeHeader m base) ≤ data.length) {n : Nat} :
    (parseModule data true).map ModuleImage.imageSize = .ok n ↔
      getHeaderSize (decodeHeader m base) = 32 ∧ (decodeHeader m base).flags &&& 0xFF00 = 0 ∧
        n = exactCodeOffset (decodeHeader m base) +
          tablePayload (decodeHeader m base) tab.num (entriesAt m tab.pEntries) ∧
        n ≤ data.length := by
  have hge := codeOffset_ge (decodeHeader m base)
  have h32 : headerSizeBytes ≤ data.length := by
    unfold headerSizeBytes
    omega
  have hs : SameHeader (ModuleHeader.ofBytes data) (decodeHeader m base) := hb.header h32
  have hsize : (ModuleHeader.ofBytes data).headerSize = headerSizeBytes ↔
      getHeaderSize (decodeHeader m base) = 32 := by
    rw [hs.headerSize, ← UInt32.toNat_inj]
    rfl
  have hflags : (ModuleHeader.ofBytes data).flags &&& 0xFF00 = 0 ↔
      (decodeHeader m base).flags &&& 0xFF00 = 0 := by
    rw [hs.flags, ← UInt16.toNat_inj, UInt16.toNat_and]
    rfl
  have hparsed : getHeaderSize (decodeHeader m base) = 32 →
      (decodeHeader m base).flags &&& 0xFF00 = 0 →
      (parseModule data true).map ModuleImage.imageSize =
        (checkLength (exactCodeOffset (decodeHeader m base) +
          tablePayload (decodeHeader m base) tab.num (entriesAt m tab.pEntries)) data.length).map
            fun _ => exactCodeOffset (decodeHeader m base) +
              tablePayload (decodeHeader m base) tab.num (entriesAt m tab.pEntries) := by
    intro hz hf
    obtain ⟨hr, hcode, hpay⟩ := h.readable hb hlen hf
    obtain ⟨rels, symbols, sectab, hp, -, -⟩ := hr.parsed (hsize.mpr hz)
    unfold tablePayload
    rw [hp, ← hpay, ← hcode]
    unfold checkLength
    split
    · rfl
    · rfl
  constructor
  · intro hn
    rcases hp : parseModule data true with e | img
    · rw [hp] at hn
      cases hn
    · obtain ⟨hz, hf⟩ := checkHeader_of_parse hp h32
      rw [hparsed (hsize.mp hz) (hflags.mp hf)] at hn
      refine ⟨hsize.mp hz, hflags.mp hf, ?_⟩
      unfold checkLength at hn
      split at hn
      · cases hn
      · rename_i hfit
        cases hn
        exact ⟨rfl, Nat.not_lt.mp hfit⟩
  · rintro ⟨hz, hf, rfl, hfit⟩
    rw [hparsed hz hf]
    unfold checkLength
    rw [if_neg (Nat.not_lt.mpr hfit)]
    rfl

end AcceptedAt

/-! ## Main result -/

section

variable {host : Host} {base loadAddr : Addr} {loadSize : UInt32} {mode : LoadMode} {w w' : State}
  {avail : UInt32} {data : Bytes}

/-- Where the last payload byte of the image lies that a load copies or executes. -/
def imageEnd (m : Mem) (base : Addr) : Nat :=
  payloadEnd ((udynlinkImageFromMemory base).run m) (decodeHeader m base) (sectViewAt m base).num
    (entriesOf m base)

theorem imageEnd_eq (h : AcceptedAt w.mem base (sectViewAt w.mem base))
    (hc : exactCodeOffset (decodeHeader w.mem base) < 2 ^ 32) :
    imageEnd w.mem base = exactExtent (decodeHeader w.mem base) (sectViewAt w.mem base).num
      (entriesOf w.mem base) := by
  obtain ⟨hheader, hcode, hdata⟩ := imageFromMemory_parts h.sectab
  rw [getCodeOffsetFromHeader_eq] at hcode
  exact payloadEnd_eq hheader hcode hdata h.cls_le (h.extent_lt hc)

theorem acceptedAt_load (h : (udynlinkLoadModuleImage host
      ((udynlinkImageFromMemory base).run w.mem) loadAddr loadSize mode).run w = (.ok (), w')) :
    AcceptedAt w.mem base (sectViewAt w.mem base) := by
  obtain ⟨tab, ramSize, ramAddr, w1, w2, w3, w4, hs⟩ := loadStages_of_ok h
  have hsectab := hs.sectab
  have hheader : ((udynlinkImageFromMemory base).run w.mem).pHeader = base :=
    imageFromMemory_pHeader base w.mem
  rw [hheader] at hsectab
  have hview : sectViewAt w.mem base = tab := congrArg Prod.snd hsectab
  rw [hview]
  exact acceptedAt_of_load h hsectab

/-- The sizes of an accepted image, given all of its bytes. -/
theorem imageSizes_agree_iff (h : (udynlinkLoadModuleImage host
      ((udynlinkImageFromMemory base).run w.mem) loadAddr loadSize mode).run w = (.ok (), w'))
    (hb : HasBytes w.mem base data)
    (hlen : exactExtent (decodeHeader w.mem base) (sectViewAt w.mem base).num
      (entriesOf w.mem base) ≤ data.length)
    (hav : min (exactExtent (decodeHeader w.mem base) (sectViewAt w.mem base).num
      (entriesOf w.mem base)) 0xFFFFFFFF ≤ avail.toNat) :
    SizesAgree w.mem base avail data (imageEnd w.mem base) ↔
      SizesClear base (decodeHeader w.mem base) (sectViewAt w.mem base).num
        (entriesOf w.mem base) := by
  have ha := acceptedAt_load h
  have hge := AcceptedAt.codeOffset_ge (decodeHeader w.mem base)
  have hcode : exactCodeOffset (decodeHeader w.mem base) ≤ data.length := by
    unfold exactExtent at hlen
    omega
  have hmono : exactCodeOffset (decodeHeader w.mem base) ≤ imageEnd w.mem base := le_lastEnd _ _
  constructor
  · rintro ⟨hbounded, hparser, -⟩
    have hc : exactCodeOffset (decodeHeader w.mem base) < 2 ^ 32 := by
      have := ((udynlinkGetImageSizeBounded base avail).run w.mem).toNat_lt
      omega
    have h0 : base ≠ 0 := by
      rintro rfl
      have hz : ((udynlinkGetImageSizeBounded 0 avail).run w.mem).toNat = 0 := by
        unfold udynlinkGetImageSizeBounded
        rw [Reader.run_ite, if_pos (Or.inl rfl)]
        rfl
      omega
    have hext := ha.extent_lt hc
    rw [imageEnd_eq ha hc] at hbounded hparser
    rw [ha.bounded_toNat h0 hc] at hbounded
    obtain ⟨hz, hf, hn, -⟩ := (ha.parse_size_iff hb hcode).mp hparser
    have hgap : exactCodePayload (decodeHeader w.mem base) (sectViewAt w.mem base).num
        (entriesOf w.mem base) = (decodeHeader w.mem base).codeSize.toNat := by
      unfold exactExtent at hbounded
      unfold entriesOf at hbounded ⊢
      split at hbounded
      · omega
      · omega
    refine ⟨h0, hz, hf, hc, hgap, fun h1 => ?_⟩
    have hnone : classSizes (entriesOf w.mem base) 3 ((sectViewAt w.mem base).num - 3) 3 = 0 := by
      rw [h1]
      rfl
    rw [ha.tablePayload_eq, if_pos h1] at hn
    unfold exactExtent at hn
    unfold entriesOf at hn hgap hnone ⊢
    omega
  · intro hclear
    have hc := hclear.fits
    have hext := ha.extent_lt hc
    have hgap := hclear.gap
    have hpay : tablePayload (decodeHeader w.mem base) (sectViewAt w.mem base).num
        (entriesAt w.mem (sectViewAt w.mem base).pEntries) =
        exactCodePayload (decodeHeader w.mem base) (sectViewAt w.mem base).num
          (entriesOf w.mem base) + (decodeHeader w.mem base).dataSize.toNat +
          classSizes (entriesOf w.mem base) 3 ((sectViewAt w.mem base).num - 3) 3 := by
      rw [ha.tablePayload_eq]
      split
      · rename_i h1
        have hnone : classSizes (entriesOf w.mem base) 3 ((sectViewAt w.mem base).num - 3) 3 = 0 := by
          rw [h1]
          rfl
        have hs := hclear.single h1
        unfold entriesOf at hs hgap hnone ⊢
        omega
      · rfl
    rw [imageEnd_eq ha hc]
    refine ⟨?_, ?_, fun hu => ?_⟩
    · rw [ha.bounded_toNat hclear.base_ne hc]
      unfold exactExtent at hav hext ⊢
      unfold entriesOf at hav hgap ⊢
      rw [if_neg (by omega), hgap]
    · refine (ha.parse_size_iff hb hcode).mpr ⟨hclear.headerSize, hclear.flags, ?_, hlen⟩
      rw [hpay]
      unfold exactExtent
      omega
    · have hnum : (sectViewAt w.mem base).num = 0 := (view_untagged ha.sectab).mpr hu
      unfold exactExtent at hext ⊢
      unfold entriesOf at hgap ⊢
      rw [hgap] at hext ⊢
      rw [ha.imageSize_run, UInt32.toNat_ofNat_of_lt' (by
        show _ < 2 ^ 32
        omega), hnum]
      rfl

end

/-! ## A tagged section, and a gap in front of `.data` -/

def romBytes (m : Mem) (base : Addr) (n : Nat) : Bytes :=
  (List.range n).map fun i => m (base + UInt32.ofNat i)

theorem romBytes_hasBytes (m : Mem) (base : Addr) (n : Nat) :
    HasBytes m base (romBytes m base n) := by
  intro i hi
  rw [romBytes, List.length_map, List.length_range] at hi
  rw [romBytes, List.getElem?_map, List.getElem?_range hi]
  rfl

/-- Three main sections, and one of eight bytes that is tagged `fast`. -/
def taggedRom : Mem := .ofWords 0x1000 ([0x4D4C4455, 0x03010000, 0, 0x00090000, 20, 4, 4, 0] ++
  [1, 0x1800000C, 0, 0x6166006D, 0x7473] ++ [0, 0, 4, 4, 0, 0x80000000] ++
  [0, 4, 4, 4, 1, 0x80000000] ++ [0, 8, 0, 4, 2, 0x80000000] ++ [14, 8, 8, 8, 1, 5] ++
  [0x47704770, 7, 8, 9])

def sizesHost : Host := .bump 0x20000000 fun _ => 0

def bootFrom (rom : Mem) : State := ⟨rom, Module.free, []⟩

def loadFrom (rom : Mem) : Loader Unit :=
  udynlinkLoadModuleImage sizesHost ((udynlinkImageFromMemory 0x1000).run rom) 0 0 .xip

theorem loadFrom_ok {rom : Mem} (h : ((loadFrom rom).run (bootFrom rom)).1 = .ok ()) :
    (udynlinkLoadModuleImage sizesHost ((udynlinkImageFromMemory 0x1000).run (bootFrom rom).mem)
      0 0 .xip).run (bootFrom rom) = (.ok (), ((loadFrom rom).run (bootFrom rom)).2) := by
  have hm : (bootFrom rom).mem = rom := rfl
  rw [hm]
  unfold loadFrom at h ⊢
  exact Prod.ext h rfl

theorem taggedRom_loaded : ((loadFrom taggedRom).run (bootFrom taggedRom)).1 = .ok () := by
  decide +kernel

theorem taggedRom_clear : SizesClear 0x1000 (decodeHeader taggedRom 0x1000)
    (sectViewAt taggedRom 0x1000).num (entriesOf taggedRom 0x1000) where
  base_ne := by decide
  headerSize := by decide +kernel
  flags := by decide +kernel
  fits := by decide +kernel
  gap := by decide +kernel
  single h := absurd h (by decide +kernel)

/-- Without a gap all sizes are the 164 bytes of the image, payload included. -/
theorem imageSizes_agree_iff_tagged : SizesAgree taggedRom 0x1000 164 (romBytes taggedRom 0x1000 164)
    (imageEnd taggedRom 0x1000) :=
  (imageSizes_agree_iff (loadFrom_ok taggedRom_loaded) (romBytes_hasBytes taggedRom 0x1000 164)
    (by decide +kernel) (by decide +kernel)).mpr taggedRom_clear

/-- Three sections; `.data` is aligned to 16 bytes, behind four bytes of code. -/
def gapRom : Mem := .ofWords 0x1000 ([0x4D4C4455, 0x03010000, 0, 0x00070000, 0, 4, 4, 0] ++
  [0, 0, 16, 4, 0, 0x80000000] ++ [0, 16, 4, 16, 1, 0x80000000] ++ [0, 20, 0, 4, 2, 0x80000000] ++
  [0x47704770, 0, 0, 0, 7])

theorem gapRom_loaded : ((loadFrom gapRom).run (bootFrom gapRom)).1 = .ok () := by decide +kernel

theorem gapRom_extent : exactExtent (decodeHeader (bootFrom gapRom).mem 0x1000)
    (sectViewAt (bootFrom gapRom).mem 0x1000).num (entriesOf (bootFrom gapRom).mem 0x1000) = 124 := by
  decide +kernel

theorem gap_size_short : ¬ ∀ (host : Host) (base loadAddr : Addr) (loadSize : UInt32) (mode : LoadMode)
    (w w' : State) (avail : UInt32) (data : Bytes),
    (udynlinkLoadModuleImage host ((udynlinkImageFromMemory base).run w.mem) loadAddr loadSize
      mode).run w = (.ok (), w') →
    HasBytes w.mem base data →
    exactExtent (decodeHeader w.mem base) (sectViewAt w.mem base).num (entriesOf w.mem base) ≤
      data.length →
    min (exactExtent (decodeHeader w.mem base) (sectViewAt w.mem base).num
      (entriesOf w.mem base)) 0xFFFFFFFF ≤ avail.toNat →
    SizesAgree w.mem base avail data (imageEnd w.mem base) := by
  intro hall
  have hlen : (romBytes gapRom 0x1000 124).length = 124 := rfl
  have hsizes : SizesAgree gapRom 0x1000 124 (romBytes gapRom 0x1000 124) (imageEnd gapRom 0x1000) :=
    hall sizesHost 0x1000 0 0 .xip (bootFrom gapRom) _ 124 (romBytes gapRom 0x1000 124)
      (loadFrom_ok gapRom_loaded) (romBytes_hasBytes gapRom 0x1000 124)
      (Nat.le_of_eq (gapRom_extent.trans hlen.symm))
      (Nat.le_trans (Nat.min_le_left _ _) (Nat.le_of_eq gapRom_extent))
  have hshort : ((udynlinkGetImageSizeBounded 0x1000 124).run gapRom).toNat ≠
      imageEnd gapRom 0x1000 := by
    decide +kernel
  exact hshort hsizes.bounded

end Udynlink
