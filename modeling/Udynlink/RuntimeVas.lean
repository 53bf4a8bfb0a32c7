import Udynlink.LiveMoves

/-!
# The runtime address of a VA

The map from the VAs of a module's bytes to runtime addresses can be undone at any
time: the scan over the old ranges, which a move asks about the words it rebases,
finds the section again, so no two bytes of a module are at one address.
-/

namespace Udynlink

open Machine

/-- `va` is the VA of a byte of section `idx`, not of the padding behind it. -/
structure VaOfByte (w : State) (idx : Nat) (va : UInt32) : Prop where
  found : (sectFindByVa (moduleView w) va).run w.mem = some idx
  inside : va - (moduleSection w idx).va < (moduleSection w idx).size

/-- The address a module has for a VA. -/
def vaAddress (w : State) (va : UInt32) : Option Addr :=
  (resolveRuntimeVa w.handle (moduleView w) va).run w.mem

/-- The section of an address, as a move of the module would look it up. -/
def sectionOfAddress (w : State) (addr : Addr) : Option Nat :=
  (sectFindByRuntime ⟨moduleView w, w.handle.pRam, []⟩ w.handle addr).run w.mem

namespace SectionedImage

variable {u : SectionedImage} {secs : Nat → Addr} {p : Addr} {w : State} {idx : Nat} {va : UInt32}

theorem Placed.vaAddress_eq (h : u.Placed secs p w.handle w.mem) (hf : u.Fits)
    (hhead : w.handle.pHeader ≠ 0) (hva : VaOfByte w idx va) :
    vaAddress w va = some (sectionBase w idx + (va - (moduleSection w idx).va)) := by
  have hfind := hva.found
  have hi : idx < u.num := by
    rw [h.find_eq hf] at hfind
    exact sectFindByVa_lt hfind
  rw [vaAddress, resolveRuntimeVa, Reader.run_bind, hfind]
  dsimp only
  rw [Reader.run_bind, sectEntryAt_run, Reader.run_bind, Reader.run_pure, sectionBase,
    h.sectionBase_run hf hi, if_neg hhead, moduleSection, h.moduleView_eq hf]

/-- A text that runs in place is found first. -/
theorem Placed.find_text (h : u.Placed secs p w.handle w.mem) (hf : u.Fits)
    (hhead : w.handle.pHeader ≠ 0) (hx : u.mode = .xip) {off : UInt32}
    (hend : (sectionBase w 0).toNat + (u.es 0).size.toNat ≤ 2 ^ 32) (hoff : off < (u.es 0).size) :
    sectionOfAddress w (sectionBase w 0 + off) = some 0 := by
  have hpos : 0 < u.num := Nat.lt_of_lt_of_le (by decide) hf.main
  have hlt := UInt32.lt_iff_toNat_lt.mp hoff
  have hs := h.sectionedAt hf
  have hbase : (sectBaseOld ⟨sectView w.handle.pHeader u.header, w.handle.pRam, []⟩ w.handle 0).run
      w.mem = sectionBase w 0 := by
    obtain ⟨-, -, htext⟩ := @SectionedAt.sectBaseOld_run
      ⟨sectView w.handle.pHeader u.header, w.handle.pRam, []⟩ u.header u.es u.mode secs p w.handle
      w.mem 0 hs hf hpos
    have hpx := h.pHeader
    rw [hx, if_neg (by decide)] at hpx
    rw [htext rfl hx, h.sectionBase_text hf hhead hx, hpx]
  rw [sectionOfAddress, h.moduleView_eq hf]
  refine sectFindByRuntimeLoop_eq (Nat.le_refl 0) (by rw [Nat.zero_add]; exact hpos)
    (fun j _ hj => absurd hj (Nat.not_lt_zero j)) ?_
  dsimp only
  rw [hs.entries 0 hpos, hbase, off_sub]
  refine ⟨?_, hoff⟩
  rw [ge_iff_le, UInt32.le_iff_toNat_le, UInt32.toNat_add, Nat.mod_eq_of_lt (by omega)]
  omega

/-- The section of a VA is the section of its address. -/
theorem Standing.section_of_va (h : u.Standing w) (hf : u.Fits) (hhead : w.handle.pHeader ≠ 0)
    (hwhole : WholeBlocks w) (hva : VaOfByte w idx va) :
    sectionOfAddress w (sectionBase w idx + (va - (moduleSection w idx).va)) = some idx := by
  have hplaced := h.placed
  have hram : u.ram < 2 ^ 32 := hf.ram
  have hview := hplaced.moduleView_num hf
  have hi : idx < u.num := by
    have hfind := hva.found
    rw [hplaced.find_eq hf] at hfind
    exact sectFindByVa_lt hfind
  have hoff := hva.inside
  rw [hplaced.moduleSection_eq hf hi] at hoff ⊢
  have hlt := UInt32.lt_iff_toNat_lt.mp hoff
  have hne : (u.es idx).size ≠ 0 := fun hz => by
    rw [hz] at hoff
    exact absurd hoff UInt32.not_lt_zero
  have hpos : 0 < u.num := Nat.lt_of_lt_of_le (by decide) hf.main
  have htext : u.mode = .xip → sectionBase w 0 =
      w.handle.pHeader + getCodeOffsetFromHeader u.header := fun hx => by
    have hpx := hplaced.pHeader
    rw [hx, if_neg (by decide)] at hpx
    rw [hplaced.sectionBase_text hf hhead hx, hpx]
  by_cases hfirst : firstPlaced u.mode ≤ idx
  · have hp : w.handle.pRam ≠ 0 := by
      by_cases h3 : idx < 3
      · have hle : exactMainOffset u.header u.num u.es u.mode idx + (u.es idx).size.toNat ≤ u.ram :=
          hf.main_le_ram hfirst h3
        exact hwhole.block (by rw [hplaced.moduleRam_eq hf]; omega)
      · exact h.ne_zero (by omega)
    have hbase := hplaced.sectionBase_place hf hhead hp hfirst hi fun _ => hne
    have hend : (u.sectBase (u.recorded w) w.handle.pRam idx).toNat + (u.es idx).size.toNat ≤
        2 ^ 32 := by
      by_cases h3 : idx < 3
      · have hle : exactMainOffset u.header u.num u.es u.mode idx + (u.es idx).size.toNat ≤ u.ram :=
          hf.main_le_ram hfirst h3
        have hblock := hwhole.blockEnd
        rw [hplaced.moduleRam_eq hf] at hblock
        have hlow := Nat.mod_le
          (w.handle.pRam.toNat + exactMainOffset u.header u.num u.es u.mode idx) (2 ^ 32)
        rw [sectBase, if_pos h3, mainDest, UInt32.toNat_add, toNat_ofNat_of_lt (by omega)]
        omega
      · have hle := hwhole.sectionEnd idx (by omega) (hview ▸ hi)
        rw [hplaced.moduleSection_eq hf hi, hbase] at hle
        exact hle
    rw [hbase, sectionOfAddress, hplaced.moduleView_eq hf]
    refine find_runtime (hplaced.sectionedAt hf) hf (fun hx => ?_) hp (fun _ => hp) h.apart.room hend
      (fun hx a ha hin => ?_) hfirst hi hoff
    · have hpx := hplaced.pHeader
      rw [hx, if_neg (by decide)] at hpx
      exact hpx
    · have hout := hwhole.text (hplaced.mode.trans hx) (by omega) a
      rw [hplaced.moduleSection_eq hf hpos, hplaced.sectionBase_text hf hhead hx] at hout
      refine hout ha ?_
      by_cases h3 : idx < 3
      · refine Or.inl ?_
        rw [hplaced.moduleRam_eq hf]
        exact sectBase_subset hf hfirst h3 _ hin
      · refine Or.inr ⟨idx, by omega, hview ▸ hi, ?_⟩
        rw [hplaced.moduleSection_eq hf hi, hbase]
        exact hin
  · have hx : u.mode = .xip := by
      by_contra hx
      rw [firstPlaced, if_neg hx] at hfirst
      omega
    obtain rfl : idx = 0 := by
      rw [firstPlaced, if_pos hx] at hfirst
      omega
    have hend := hwhole.textEnd (hplaced.mode.trans hx) (by omega)
    rw [hplaced.moduleSection_eq hf hpos] at hend
    exact hplaced.find_text hf hhead hx hend hoff

end SectionedImage

section

variable {host : Host} {image : Image} {mode : LoadMode} {loadAddr : Addr} {loadSize : UInt32}
  {w w₁ w₂ : State} {evs : List (Event HostEvent)}

/-- In every state a run of moves and stores reaches, the address of a VA leads back to
its section, and different VAs have different addresses. -/
theorem runtime_vas_invertible
    (hload : (udynlinkLoadModuleImage host image loadAddr loadSize mode).run w = (.ok (), w₁))
    (himg : MovableImage image mode w.mem) (hne : (imageView image w.mem).num ≠ 0)
    (he : w.Extends w₁ evs)
    (hfair : FairBlocks (imageSource image w.mem) loadAddr loadSize (hostEvents evs))
    (hrun : Relation.ReflTransGen (Lives (AnyMove host image mode w.mem) image w.mem) w₁ w₂)
    (hhead : w₂.handle.pHeader ≠ 0) (hwhole : WholeBlocks w₂) :
    (∀ idx va, VaOfByte w₂ idx va → ∃ addr, vaAddress w₂ va = some addr ∧
        sectionOfAddress w₂ addr = some idx ∧ addr - sectionBase w₂ idx < (moduleSection w₂ idx).size) ∧
      ∀ idx idx' va va', VaOfByte w₂ idx va → VaOfByte w₂ idx' va' →
        vaAddress w₂ va = vaAddress w₂ va' → va = va' := by
  obtain ⟨tab, ramSize, ramAddr, w1, w2, w3, w4, hs⟩ := loadStages_of_ok hload
  have ht : tab.num ≠ 0 := by
    rw [← imageView_of_sectab hs.sectab]
    exact hne
  obtain ⟨hf, hstand⟩ := sectioned_standing hs ht himg he hfair hrun
  refine ⟨fun idx va hva => ?_, fun idx idx' va va' hva hva' haddr => ?_⟩
  · refine ⟨_, hstand.placed.vaAddress_eq hf hhead hva,
      hstand.section_of_va hf hhead hwhole hva, ?_⟩
    rw [off_sub]
    exact hva.inside
  · rw [hstand.placed.vaAddress_eq hf hhead hva, hstand.placed.vaAddress_eq hf hhead hva',
      Option.some.injEq] at haddr
    have hsec := hstand.section_of_va hf hhead hwhole hva
    rw [haddr, hstand.section_of_va hf hhead hwhole hva', Option.some.injEq] at hsec
    rw [hsec] at haddr
    exact sub_left_injective (add_right_injective _ haddr)

end

theorem runtime_vas_invertible_ownSection :
    vaAddress ownSectionCopied 4 ≠ vaAddress ownSectionCopied 8 := by
  have hmain := (runtime_vas_invertible (w := ⟨ownSectionRom, Module.free, []⟩) ownSection_loads
    ownSection_movable ownSection_table ownSection_extends ownSection_fairBlocks
    (.single ownSection_lives) (by rw [ownSection_copied.1]; decide) ownSection_whole).2
  obtain ⟨hdata, hsize, hbss, hsize'⟩ :
      (sectFindByVa (moduleView ownSectionCopied) 4).run ownSectionCopied.mem = some 1 ∧
        4 - (moduleSection ownSectionCopied 1).va < (moduleSection ownSectionCopied 1).size ∧
        (sectFindByVa (moduleView ownSectionCopied) 8).run ownSectionCopied.mem = some 2 ∧
        8 - (moduleSection ownSectionCopied 2).va < (moduleSection ownSectionCopied 2).size := by
    decide +kernel
  exact fun heq => absurd (hmain 1 2 4 8 ⟨hdata, hsize⟩ ⟨hbss, hsize'⟩ heq) (by decide)

end Udynlink
