import Udynlink.Parser.Simulator

/-!
# The relocations of a simulated load

The simulation and the loader walk over the same entries. On buffers that show the
blocks of the loader they patch the same words with the same values.
-/

namespace Udynlink.Parser

open Machine

/-! ## One layout -/

theorem Inside.size_ne {es : Nat → SectEntry} {j va : Nat} (hin : Inside es j va) :
    (es j).size ≠ 0 := fun hz => by
  obtain ⟨hlo, hhi⟩ := hin
  rw [hz, UInt32.toNat_zero] at hhi
  omega

/-- The VA of an entry, where it does not wrap. -/
theorem relocVa_toNat {h : Header} {lot : UInt32} (hge : h.numLot.toNat ≤ lot.toNat)
    (hlt : h.codeSize.toNat + 4 * (lot.toNat - h.numLot.toNat) < 2 ^ 32) :
    (relocVa h lot).toNat = h.codeSize.toNat + 4 * (lot.toNat - h.numLot.toNat) := by
  have hle : h.numLot.toUInt32 ≤ lot := by
    rw [UInt32.le_iff_toNat_le, UInt16.toNat_toUInt32]
    exact hge
  have h4 : (4 : UInt32).toNat = 4 := rfl
  rw [relocVa, UInt32.toNat_add, UInt32.toNat_mul, UInt32.toNat_sub_of_le _ _ hle,
    UInt16.toNat_toUInt32, h4]
  omega

/-- The layout of the tool is the one the loader works in. -/
structure SameLayout (lay : RuntimeLayout) (h : Header) (tab : SectView) (es : Nat → SectEntry)
    (mode : LoadMode) (secs : Nat → Addr) (p : Addr) (mod : Module) (m : Mem) : Prop where
  fits : SectionedFits h tab.num es mode
  placed : SectionedAt h es mode secs p mod tab m
  image : SameImage lay.image h tab.num es
  sameMode : lay.mode = mode
  ramBase : lay.ramBase = p.toNat
  bases : ∀ j, 3 ≤ j → j < tab.num → (es j).size ≠ 0 → lay.sectionBases j = some (secs j).toNat
  ne_zero : 3 < tab.num → p ≠ 0
  vas : ∀ j, j < tab.num → (es j).va.toNat + (es j).size.toNat ≤ 2 ^ 32

namespace SameLayout

variable {lay : RuntimeLayout} {h : Header} {tab : SectView} {es : Nat → SectEntry}
  {mode : LoadMode} {secs : Nat → Addr} {p : Addr} {mod : Module} {m : Mem}
  (hl : SameLayout lay h tab es mode secs p mod m)

include hl

/-- Where section `j` starts: a number to the tool, a word to the loader. -/
theorem base {e : ImageSection} {j b : Nat} (he : EntryAt es e j) (hj : j < tab.num)
    (hne : (es j).size ≠ 0) (hb : lay.sectionBase e = some b) : firstPlaced mode ≤ j ∧
      (j < 3 → b = p.toNat + exactMainOffset h tab.num es mode j) ∧
      (3 ≤ j → b = (secs j).toNat) ∧ (getSectionBaseIdx mod tab j).run m = UInt32.ofNat b := by
  have hnum := hl.fits.main
  obtain ⟨-, hmain, hxip⟩ := walk_placed hl.image hl.fits.table hnum
  rw [hl.sameMode, hl.ramBase] at hmain
  rw [hl.sameMode] at hxip
  rw [RuntimeLayout.sectionBase, he.isMain hl.fits.table hj, he.index] at hb
  by_cases h3 : j < 3
  · rw [decide_eq_true h3, if_pos rfl] at hb
    have hfirst : firstPlaced mode ≤ j := by
      rw [firstPlaced]
      split
      next hx =>
        by_contra hj0
        obtain rfl : j = 0 := by omega
        rw [hxip hx] at hb
        cases hb
      next => exact Nat.zero_le j
    rw [hmain j hfirst h3, Option.some.injEq] at hb
    refine ⟨hfirst, fun _ => hb.symm, fun hge => absurd h3 (by omega), ?_⟩
    rw [(hl.placed.base_run hl.fits hj hfirst).1 h3, mainDest, ← hb, UInt32.ofNat_add,
      UInt32.ofNat_toNat]
  · have hfirst := firstPlaced_le mode
    rw [decide_eq_false h3, if_neg Bool.false_ne_true, hl.bases j (by omega) hj hne,
      Option.some.injEq] at hb
    refine ⟨by omega, fun hlt => absurd hlt h3, fun _ => hb.symm, ?_⟩
    rw [(hl.placed.base_run hl.fits hj (by omega)).2 (by omega) (hl.ne_zero (by omega)) hne, ← hb,
      UInt32.ofNat_toNat]

/-- The loader finds the section of a byte. -/
theorem find {j : Nat} {va : UInt32} (hj : j < tab.num) (hin : Inside es j va.toNat) :
    (sectFindByVa tab va).run m = some j := by
  have hnum := hl.fits.main
  have ht : TableOk h tab.num (entriesAt m tab.pEntries) :=
    hl.fits.table.congr hnum hl.placed.entries
  have hspec := sectFindLoop_spec ht hnum va (n := tab.num) (i := 0) (Nat.zero_add _)
  obtain ⟨hlo, hhi⟩ := hin
  rw [← hl.placed.entries j hj] at hlo hhi
  have hcontains : SpanContains (entriesAt m tab.pEntries) j va := by
    refine ⟨hlo, Nat.lt_of_lt_of_le hhi ?_⟩
    rw [spanEnd]
    split
    next => exact ht.va_succ (by omega)
    next => exact Nat.le_refl _
  rw [show sectFindLoop tab va tab.num 0 = sectFindByVa tab va from rfl] at hspec
  split at hspec
  next k hk =>
    obtain ⟨hk', hc⟩ := hspec
    rw [hk, ht.contains_unique hk' hj hc hcontains]
  next => exact absurd hcontains (hspec j (Nat.zero_le j) hj)

/-- What the tool maps is the byte of a section in RAM. -/
theorem address {va a : Nat} (ha : lay.runtimeAddress va = some a) :
    ∃ sec j b, lay.image.findSectionByVa va = some sec ∧ EntryAt es sec j ∧ j < tab.num ∧
      Inside es j va ∧ lay.sectionBase sec = some b ∧ a = b + (va - (es j).va.toNat) := by
  have hspec := hl.image.find_spec hl.fits.table va
  rw [RuntimeLayout.runtimeAddress] at ha
  split at ha
  next => cases ha
  next sec hfound =>
    rw [hfound] at hspec
    obtain ⟨j, hj, hat, hin⟩ := hspec
    obtain ⟨b, hb, hab⟩ := Option.map_eq_some_iff.mp ha
    exact ⟨sec, j, b, hfound, hat, hj, hin, hb, by rw [← hab, hat.same.va]⟩

/-- An address of the tool is the one the loader resolves to. -/
theorem resolve {va : UInt32} {a : Nat} (ha : lay.runtimeAddress va.toNat = some a) :
    (resolveRuntimeVa mod tab va).run m = some (UInt32.ofNat a) := by
  obtain ⟨sec, j, b, -, hat, hj, hin, hb, rfl⟩ := hl.address ha
  obtain ⟨-, -, -, hbase⟩ := hl.base hat hj (hin.size_ne) hb
  rw [resolveRuntimeVa, Reader.run_bind, hl.find hj hin]
  dsimp only
  rw [Reader.run_bind, sectEntryAt_run, hl.placed.entries j hj, Reader.run_bind, hbase,
    Reader.run_pure, UInt32.ofNat_add,
    ← UInt32.toNat_sub_of_le _ _ (UInt32.le_iff_toNat_le.mpr hin.1), UInt32.ofNat_toNat]

/-- The two sides patch the same word. -/
theorem target {ram : Ram} {r : Relocation} {t : Target} {lot : UInt32}
    (ht : lay.relocTarget ram r = some t) (hr : r.lotOffset = lot.toNat)
    (hne : (getRelocTarget mod tab lot).run m ≠ 0) :
    TargetAt h tab.num es mode secs p t ((getRelocTarget mod tab lot).run m) ∧
      (lot.toNat < h.numLot.toNat → t = .main (4 * lot.toNat)) ∧
      (¬ lot.toNat < h.numLot.toNat → ∀ i, t.Covers i → MainByte h tab.num es mode i) := by
  have hnum := hl.fits.main
  have hram := hl.fits.ram
  obtain ⟨hlotle, hstart⟩ := lot_le_ram hl.fits
  have hsec : lay.image.header.hasSections = true :=
    hl.image.header.hasSections.trans hl.fits.table.sectioned
  have hlot : lot < h.numLot.toUInt32 ↔ lot.toNat < h.numLot.toNat := by
    rw [UInt32.lt_iff_toNat_lt, UInt16.toNat_toUInt32]
  rw [RuntimeLayout.relocTarget] at ht
  dsimp only at ht
  rw [hsec, hr, hl.image.header.numLot, if_neg (by simp)] at ht
  rw [getRelocTarget, Reader.run_bind, readHeader_run, hl.placed.header, Reader.run_ite] at hne ⊢
  by_cases hlt : lot.toNat < h.numLot.toNat
  · rw [if_pos hlt, Option.some.injEq] at ht
    rw [if_pos (hlot.mpr hlt), Reader.run_ite] at hne ⊢
    split at hne
    next => exact absurd rfl hne
    next hz =>
      rw [if_neg hz, Reader.run_pure, hl.placed.pRam, mul_four_ofNat, ← ht, Nat.mul_comm]
      exact ⟨.main _ (by omega), fun _ => rfl, fun hge => absurd hlt hge⟩
  · rw [if_neg hlt, if_pos rfl, hl.image.header.codeSize] at ht
    rw [if_neg (mt hlot.mp hlt), if_neg (by omega), Reader.run_bind] at hne ⊢
    split at ht
    next => cases ht
    next sec hfound =>
      split at ht
      next => cases ht
      next hroom =>
        rw [not_or] at hroom
        split at ht
        next => cases ht
        next a ha =>
          obtain ⟨sec', j, b, hfound', hat, hj, hin, hb, ha'⟩ := hl.address ha
          obtain rfl : sec' = sec := Option.some.inj (hfound'.symm.trans hfound)
          have hsz := hin.size_ne
          obtain ⟨hfirst, hmainB, htagB, hrun⟩ := hl.base hat hj hsz hb
          have hend := (es j).size.toNat_lt
          have hva : (relocVa h lot).toNat = h.codeSize.toNat + 4 * (lot.toNat - h.numLot.toNat) :=
            relocVa_toNat (Nat.not_lt.mp hlt) (Nat.lt_of_lt_of_le hin.2 (hl.vas j hj))
          rw [← hva] at hin ha' hroom
          have hcls : ¬ ((es j).cls ≠ Udynlink.secClassCode ∧
              (es j).cls ≠ Udynlink.secClassData) := by
            rintro ⟨hc, hd⟩
            refine hroom.1 ⟨fun hx => hc ?_, fun hx => hd ?_⟩
            · exact UInt32.toNat_inj.mp (hat.same.cls.symm.trans hx)
            · exact UInt32.toNat_inj.mp (hat.same.cls.symm.trans hx)
          have hle : (relocVa h lot).toNat + 4 ≤ (es j).va.toNat + (es j).size.toNat := by
            have := hroom.2
            rw [hat.same.va, hat.same.size] at this
            omega
          have hsub : (relocVa h lot).toNat - (es j).va.toNat = (relocVa h lot - (es j).va).toNat :=
            (UInt32.toNat_sub_of_le _ _ (UInt32.le_iff_toNat_le.mpr hin.1)).symm
          have hlo := hin.1
          rw [hl.find hj hin]
          dsimp only
          rw [Reader.run_bind, sectEntryAt_run, hl.placed.entries j hj, Reader.run_ite, if_neg hcls,
            Reader.run_bind, hrun, Reader.run_pure]
          rw [hat.isMain hl.fits.table hj, hl.ramBase, hat.index] at ht
          by_cases h3 : j < 3
          · rw [decide_eq_true h3, if_pos rfl, Option.some.injEq] at ht
            have hmr := hl.fits.main_le_ram hfirst h3
            have hoff : a - p.toNat = exactMainOffset h tab.num es mode j +
                (relocVa h lot - (es j).va).toNat := by
              rw [ha', hmainB h3, ← hsub]
              omega
            have hx : UInt32.ofNat b + (relocVa h lot - (es j).va) =
                p + UInt32.ofNat (a - p.toNat) := by
              rw [hoff, hmainB h3, UInt32.ofNat_add, UInt32.ofNat_toNat, UInt32.ofNat_add,
                UInt32.ofNat_toNat, UInt32.add_assoc]
            rw [hx, ← ht]
            refine ⟨.main _ (by omega), fun hc => absurd hc hlt,
              fun _ i hi => ⟨j, hfirst, h3, ?_, ?_⟩⟩
            · have := hi.1
              omega
            · have := hi.2
              omega
          · rw [decide_eq_false h3, if_neg Bool.false_ne_true, hl.bases j (by omega) hj hsz] at ht
            split at ht
            next => cases ht
            next =>
              rw [Option.some.injEq, Option.getD_some] at ht
              have hoff : a - (secs j).toNat = (relocVa h lot - (es j).va).toNat := by
                rw [ha', htagB (by omega), ← hsub]
                omega
              have hx : UInt32.ofNat b + (relocVa h lot - (es j).va) =
                  secs j + UInt32.ofNat (a - (secs j).toNat) := by
                rw [hoff, htagB (by omega), UInt32.ofNat_toNat, UInt32.ofNat_toNat]
              rw [hx, ← ht]
              exact ⟨.block j _ (by omega) hj (by omega), fun hc => absurd hc hlt,
                fun _ i hi => absurd hi not_false⟩

end SameLayout

/-! ## Values of symbols -/

section

variable {lay : RuntimeLayout} {f : Str → Nat} {ps : Symbol}
  (hsec : lay.image.header.hasSections = true)

include hsec

theorem symbolValue_own (ht : ps.type = symTypeInternal ∨ ps.type = symTypeExported) :
    lay.symbolValue (some f) ps = lay.runtimeAddress ps.valRaw := by
  rw [RuntimeLayout.symbolValue, RuntimeLayout.resolveSymbol, hsec]
  rcases ht with ht | ht <;> cases lay.runtimeAddress ps.valRaw <;>
    simp [ht, symTypeModuleName, symTypeInternal, symTypeExported, symTypeWeak, symTypeExtern]

/-- An override counts when it is neither missing nor postponed. -/
theorem symbolValue_weak (ht : ps.type = symTypeWeak) :
    lay.symbolValue (some f) ps = (lay.runtimeAddress ps.valRaw).map fun a =>
      if f (ps.name.getD []) = 1 ∨ f (ps.name.getD []) = 0 then a else f (ps.name.getD []) := by
  rw [RuntimeLayout.symbolValue, RuntimeLayout.resolveSymbol, hsec]
  generalize f (ps.name.getD []) = ans
  cases lay.runtimeAddress ps.valRaw with
  | none => simp [ht, symTypeModuleName, symTypeWeak, symTypeExtern]
  | some a =>
    by_cases h1 : ans = 1
    · simp [ht, h1, symTypeModuleName, symTypeWeak, symTypeExtern]
    · by_cases h0 : ans = 0
      · simp [ht, h0, symTypeModuleName, symTypeWeak, symTypeExtern]
      · simp [ht, h0, h1, Nat.pos_iff_ne_zero, symTypeModuleName, symTypeWeak, symTypeExtern]

theorem symbolValue_imported (ht : ps.type = symTypeExtern) : lay.symbolValue (some f) ps =
    if f (ps.name.getD []) = 1 ∨ f (ps.name.getD []) = 0 then none
    else some (f (ps.name.getD [])) := by
  rw [RuntimeLayout.symbolValue, RuntimeLayout.resolveSymbol, hsec]
  generalize f (ps.name.getD []) = ans
  by_cases h1 : ans = 1
  · simp [ht, h1, symTypeModuleName, symTypeInternal, symTypeExported, symTypeWeak, symTypeExtern]
  · by_cases h0 : ans = 0
    · simp [ht, h0, symTypeModuleName, symTypeInternal, symTypeExported, symTypeWeak, symTypeExtern]
    · simp [ht, h0, h1, Nat.pos_iff_ne_zero, symTypeModuleName, symTypeInternal, symTypeExported,
        symTypeWeak, symTypeExtern]

end

/-- The tool's symbol is the loader's. -/
structure SameSym (ps : Symbol) (cs : Sym) : Prop where
  type : ps.type = cs.type.toNat
  known : ps.type ≤ symTypeWeak
  val : ps.valRaw = cs.val.toNat

namespace SameLayout

variable {lay : RuntimeLayout} {h : Header} {tab : SectView} {es : Nat → SectEntry}
  {mode : LoadMode} {secs : Nat → Addr} {p : Addr} {mod : Module} {m : Mem} {f : Str → Nat}
  {symt ans word : UInt32} {v : Nat}
  (hl : SameLayout lay h tab es mode secs p mod m)

include hl

theorem hasSections : lay.image.header.hasSections = true :=
  hl.image.header.hasSections.trans hl.fits.table.sectioned

/-- A value the tool has for a symbol is the one of the load. -/
theorem symbolValue {ps : Symbol} {cs : Sym} (hs : SameSym ps cs)
    (hans : cs.type = Udynlink.symTypeWeak ∨ cs.type = Udynlink.symTypeExtern →
      ans.toNat = f (ps.name.getD []))
    (hb : isBaseRelocation symt = false) (hv : lay.symbolValue (some f) ps = some v) :
    refWord (placementOf mod tab true m) (fun _ => ans) symt (some cs) word =
      some (UInt32.ofNat v) := by
  have hsec := hl.hasSections
  have hown : ∀ a, lay.runtimeAddress ps.valRaw = some a →
      (placementOf mod tab true m).own cs = some (UInt32.ofNat a) := by
    intro a ha
    rw [hs.val] at ha
    exact hl.resolve ha
  have hty : ∀ c : UInt8, ps.type = c.toNat → cs.type = c := fun c hc =>
    UInt8.toNat_inj.mp (hs.type.symm.trans hc)
  have hanswer : ∀ n : Nat, ans.toNat = n → (n = 1 ↔ ans = symDeferred) ∧ (n = 0 ↔ ans = 0) ∧
      UInt32.ofNat n = ans := by
    rintro n rfl
    exact ⟨⟨fun hx => UInt32.toNat_inj.mp hx, fun hx => hx ▸ rfl⟩,
      ⟨fun hx => UInt32.toNat_inj.mp hx, fun hx => hx ▸ rfl⟩, UInt32.ofNat_toNat⟩
  have hle : ps.type ≤ 4 := hs.known
  rw [refWord_sym hb]
  obtain h0 | h0 | h0 | h0 | h0 : ps.type = symTypeInternal ∨ ps.type = symTypeExported ∨
      ps.type = symTypeExtern ∨ ps.type = symTypeModuleName ∨ ps.type = symTypeWeak := by
    simp only [symTypeInternal, symTypeExported, symTypeExtern, symTypeModuleName, symTypeWeak]
    omega
  · rw [symbolValue_own hsec (Or.inl h0)] at hv
    rw [if_pos (Or.inl (hty Udynlink.symTypeInternal h0)), hown v hv]
  · rw [symbolValue_own hsec (Or.inr h0)] at hv
    rw [if_pos (Or.inr (hty Udynlink.symTypeExported h0)), hown v hv]
  · have hext := hty Udynlink.symTypeExtern h0
    obtain ⟨h1, hz, hof⟩ := hanswer _ (hans (Or.inr hext))
    rw [symbolValue_imported hsec h0] at hv
    simp only [h1, hz] at hv
    split at hv
    next => cases hv
    next hno =>
      rw [Option.some.injEq] at hv
      rw [hext, if_neg (by decide), if_neg (by decide), if_pos rfl, externWord,
        if_neg fun hx => hno (Or.inl hx), ← hv, hof]
  · simp [RuntimeLayout.symbolValue, h0] at hv
  · have hweak := hty Udynlink.symTypeWeak h0
    obtain ⟨h1, hz, hof⟩ := hanswer _ (hans (Or.inl hweak))
    rw [symbolValue_weak hsec h0] at hv
    obtain ⟨a, ha, hv⟩ := Option.map_eq_some_iff.mp hv
    rw [hweak, if_neg (by decide), if_pos rfl, hown a ha, Option.map_some, weakWord]
    simp only [h1, hz] at hv
    split at hv
    next hx => rw [if_pos hx, hv]
    next hx => rw [if_neg hx, ← hv, hof]

end SameLayout

/-! ## The walk -/

/-- Entry `k` of the loader's table. -/
structure RelocAt (src : RelocSource) (m : Mem) (r : Relocation) (k : Nat) : Prop where
  lotOffset : r.lotOffset = ((readRelocation src.pRelocations k).run m).1.toNat
  value : r.value = ((readRelocation src.pRelocations k).run m).2.toNat

theorem testBit_flag {x : UInt32} : (x.toNat &&& 0x80000000 ≠ 0 ↔ x &&& relDataBase ≠ 0) ∧
    (x.toNat &&& 0x40000000 ≠ 0 ↔ x &&& relCodeBase ≠ 0) := by
  have hand : ∀ y : UInt32, x.toNat &&& y.toNat ≠ 0 ↔ x &&& y ≠ 0 := fun y => by
    rw [← UInt32.toNat_and, ne_eq, ne_eq, ← UInt32.toNat_inj]
    rfl
  exact ⟨hand relDataBase, hand relCodeBase⟩

theorem RelocAt.kind {src : RelocSource} {m : Mem} {r : Relocation} {k : Nat}
    (hr : RelocAt src m r k) :
    isBaseRelocation ((readRelocation src.pRelocations k).run m).2 = false ↔ r.kind = .symbol := by
  obtain ⟨hdata, hcode⟩ := @testBit_flag ((readRelocation src.pRelocations k).run m).2
  rw [isBaseRelocation, Relocation.kind, hr.value]
  by_cases hd : ((readRelocation src.pRelocations k).run m).2 &&& relDataBase = 0
  · by_cases hc : ((readRelocation src.pRelocations k).run m).2 &&& relCodeBase = 0
    · rw [if_neg (mt hdata.mp (not_not.mpr hd)), if_neg (mt hcode.mp (not_not.mpr hc)), hd, hc]
      exact iff_of_true rfl rfl
    · rw [if_neg (mt hdata.mp (not_not.mpr hd)), if_pos (hcode.mpr hc)]
      exact iff_of_false (by simp [hc]) (by simp)
  · rw [if_pos (hdata.mpr hd)]
    exact iff_of_false (by simp [hd]) (by simp)

/-- The tool's resolver gives the answers of the host. -/
structure SameAnswers (host : Host) (img : ModuleImage) (src : RelocSource) (m : Mem)
    (P : Addr → Prop) (f : Str → Nat) : Prop where
  sym : ∀ {i : UInt32} {cs : Sym} {ps : Symbol}, isBaseRelocation i = false →
    relocSym src m i = some cs → img.symbols[i.toNat]? = some ps → SameSym ps cs
  answer : ∀ {i : UInt32} {cs : Sym} {ps : Symbol}, isBaseRelocation i = false →
    relocSym src m i = some cs → img.symbols[i.toNat]? = some ps →
    cs.type = Udynlink.symTypeWeak ∨ cs.type = Udynlink.symTypeExtern →
    ∀ (w : State) (m' : Mem), (∀ a, P a → m a = m' a) →
      (host.resolve w ((readSymName cs.name).run m')).toNat = f (ps.name.getD [])

namespace SameLayout

variable {lay : RuntimeLayout} {h : Header} {tab : SectView} {es : Nat → SectEntry}
  {mode : LoadMode} {secs : Nat → Addr} {p : Addr} {mod : Module} {m mc : Mem} {f : Str → Nat}
  {host : Host}
  {src : RelocSource} {S : Nat → Prop} {Q : Addr → Prop} {r : Relocation} {k n : Nat} {ram : Ram}
  (hl : SameLayout lay h tab es mode secs p mod m)

include hl

/-- One entry puts the same word in the same place on both sides. -/
theorem step {ans : UInt32} {v : Nat} {ram' : Ram} (hsyms : SameAnswers host lay.image src m Q f)
    (hroom : TaggedRoom es secs tab.num ⟨p, exactRamSections h tab.num es mode⟩)
    (hS : ∀ i, MainByte h tab.num es mode i → S i) (hr : RelocAt src m r k)
    (hshown : Shown h tab.num es mode secs p S ram mc)
    (hok : Udynlink.EntryOk host Q mod tab true src m mc k ans)
    (hstep : lay.applyRelocation (some f) ram r = (ram', some v)) :
    Shown h tab.num es mode secs p
      (fun i => S i ∨
        (r.lotOffset < h.numLot.toNat ∧ 4 * r.lotOffset ≤ i ∧ i < 4 * r.lotOffset + 4))
      ram' ((relocPatch (fun _ => ans) mod tab true src m k).apply mc) := by
  rw [RuntimeLayout.applyRelocation] at hstep
  split at hstep
  next => simp at hstep
  next t ht =>
    split at hstep
    next => simp at hstep
    next v' hv =>
      rw [Prod.mk.injEq, Option.some.injEq] at hstep
      obtain ⟨rfl, rfl⟩ := hstep
      have hslot : relocSlot mod tab src m k =
        (getRelocTarget mod tab ((readRelocation src.pRelocations k).run m).1).run m := rfl
      obtain ⟨hat, hlot, hmain⟩ := hl.target ht hr.lotOffset (hslot ▸ hok.ok.slot_ne)
      rw [← hslot] at hat
      have hvalue : (relocPatch (fun _ => ans) mod tab true src m k).value
          (mc.u32 (relocSlot mod tab src m k)) = some (UInt32.ofNat v') := by
        rw [relocPatch]
        dsimp only
        cases hb : isBaseRelocation ((readRelocation src.pRelocations k).run m).2 with
        | true =>
          have hkind : r.kind ≠ .symbol := fun hk => by
            rw [hr.kind.mpr hk] at hb
            cases hb
          have hge : ¬ r.lotOffset < lay.image.header.numLot ∧
              lay.runtimeAddress (ram.word t) = some v' := by
            rw [RuntimeLayout.relocValue, hl.hasSections] at hv
            cases hk : r.kind with
            | symbol => exact absurd hk hkind
            | dataBase =>
              rw [hk] at hv
              dsimp only at hv
              split at hv
              next => cases hv
              next hge => exact ⟨hge, hv⟩
            | codeBase =>
              rw [hk] at hv
              dsimp only at hv
              split at hv
              next => cases hv
              next hge => exact ⟨hge, hv⟩
          rw [hr.lotOffset, hl.image.header.numLot] at hge
          rw [hshown.word hat fun i hi => hS i (hmain hge.1 i hi)] at hge
          rw [refWord_base _ hb]
          exact hl.resolve hge.2
        | false =>
          rw [RuntimeLayout.relocValue, hr.kind.mp hb] at hv
          dsimp only at hv
          split at hv
          next => cases hv
          next ps hps =>
            rw [hr.value] at hps
            obtain ⟨cs, hcs, -, -⟩ := hok.ok.sym hb
            rw [hcs]
            refine hl.symbolValue (hsyms.sym hb hcs hps) (fun htype => ?_) hb hv
            obtain ⟨w, m', hag, hans⟩ := hok.answered hb cs hcs htype
            rw [hans]
            exact hsyms.answer hb hcs hps htype w m' hag
      rw [Patch.apply_of_some hvalue]
      refine (hshown.put (v := v') hat hl.fits.ram hroom).mono fun i hi => ?_
      rcases hi with hi | ⟨hlt, hlo, hhi⟩
      · exact Or.inl hi
      · rw [hr.lotOffset] at hlt hlo hhi
        rw [hlot hlt]
        exact Or.inr ⟨hlo, hhi⟩

end SameLayout

/-- A byte of the LOT in a word that an entry names. -/
def LotByte (h : Header) (rels : List Relocation) (i : Nat) : Prop :=
  ∃ r ∈ rels, r.lotOffset < h.numLot.toNat ∧ 4 * r.lotOffset ≤ i ∧ i < 4 * r.lotOffset + 4

namespace SameLayout

variable {lay : RuntimeLayout} {h : Header} {tab : SectView} {es : Nat → SectEntry}
  {mode : LoadMode} {secs : Nat → Addr} {p : Addr} {mod : Module} {m mc : Mem} {f : Str → Nat}
  {host : Host}
  {src : RelocSource} {S : Nat → Prop} {Q : Addr → Prop} {rels : List Relocation} {i n : Nat}
  {ram ram' : Ram} {ans : Nat → UInt32} {values : List (Option Nat)}
  (hl : SameLayout lay h tab es mode secs p mod m)

include hl

/-- Entry by entry, both sides put the same words in the same places. -/
theorem run (hsyms : SameAnswers host lay.image src m Q f)
    (hroom : TaggedRoom es secs tab.num ⟨p, exactRamSections h tab.num es mode⟩)
    (hS : ∀ b, MainByte h tab.num es mode b → S b)
    (hrels : List.Forall₂ (RelocAt src m) rels (List.range' i n))
    (hshown : Shown h tab.num es mode secs p S ram mc)
    (hok : ∀ k, k < n → Udynlink.EntryOk host Q mod tab true src m
      (Patch.applyAll (relocPatches ans mod tab true src m i k) mc) (i + k) (ans (i + k)))
    (hrun : lay.applyRelocations (some f) rels ram = (ram', values))
    (hall : ∀ v ∈ values, v ≠ none) :
    Shown h tab.num es mode secs p (fun b => S b ∨ LotByte h rels b) ram'
      (Patch.applyAll (relocPatches ans mod tab true src m i n) mc) := by
  induction n generalizing i rels ram mc S values with
  | zero =>
    cases hrels
    rw [RuntimeLayout.applyRelocations, Prod.mk.injEq] at hrun
    rw [← hrun.1]
    refine hshown.mono fun b hb => hb.resolve_right ?_
    rintro ⟨r, hr, -⟩
    exact List.not_mem_nil hr
  | succ n ih =>
    rw [List.range'_succ] at hrels
    cases hrels with
    | @cons r _ rest _ hr hrest =>
      rcases hone : lay.applyRelocation (some f) ram r with ⟨ram1, v⟩
      rcases hmore : lay.applyRelocations (some f) rest ram1 with ⟨ram2, vs⟩
      rw [RuntimeLayout.applyRelocations, hone] at hrun
      dsimp only at hrun
      rw [hmore, Prod.mk.injEq] at hrun
      obtain ⟨rfl, rfl⟩ := hrun
      obtain ⟨v, rfl⟩ := Option.ne_none_iff_exists'.mp (hall v List.mem_cons_self)
      have hfirst := hl.step hsyms hroom hS hr hshown (hok 0 (Nat.succ_pos n)) hone
      have hnext := ih (fun b hb => Or.inl (hS b hb)) hrest hfirst (fun k hk => by
        have hentry := hok (k + 1) (by omega)
        rw [relocPatches_succ, show i + (k + 1) = i + 1 + k by omega] at hentry
        exact hentry) hmore fun v hv => hall v (List.mem_cons_of_mem _ hv)
      rw [relocPatches_succ]
      refine hnext.mono fun b hb => ?_
      rcases hb with hb | ⟨r', hr', hb⟩
      · exact Or.inl (Or.inl hb)
      · rcases List.mem_cons.mp hr' with rfl | hr'
        · exact Or.inl (Or.inr hb)
        · exact Or.inr ⟨r', hr', hb⟩

end SameLayout

end Udynlink.Parser
