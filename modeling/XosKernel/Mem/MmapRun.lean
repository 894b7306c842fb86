/-
# The memory-mapping calls stay in user space

`munmap` keeps the invariant of `PlaceInv` without any condition, and `mremap` keeps it if
the destination of a move and the end of a region that grows in place are inside user
space. None of this is checked by the code. In every run whose calls meet these
conditions, every region and every leaf entry is in user space; the last theorem has runs
in which one of them is missing.
-/
import XosKernel.Mem.MmapInv

namespace XosKernel.Mmap

open Vma Nat Option

variable {mm mm' : Mm} {oracle : ℕ → Bool} {r : Region} {L : List Region}

/-! ## Unmapping -/

lemma Inv.sysMunmap (h : Inv mm) {addr size : ℕ} (halt : addr < 2 ^ 64) :
    Inv (sysMunmap oracle mm addr size).2 := by
  have hu (h2 : ¬addr % pageSize ≠ 0) : Inv (Mmap.unmapRange oracle mm addr (alignUp size)).2 :=
    h.unmapRange oracle (dvd_of_mod_eq_zero (not_not.1 h2)) (alignUp_dvd size) halt
  fun_cases Mmap.sysMunmap oracle mm addr size with
  | case4 _ h2 _ _ e mm1 hun =>
    rw [hun] at hu
    exact hu h2
  | case5 _ h2 _ _ mm1 hun L =>
    rw [hun] at hu
    refine (hu h2).setRegions (total_mergeFound joins_user ?_ _).2
    dsimp only [L]
    split_ifs
    · exact (hu h2).regions
    · exact (total_mergeFound joins_user (hu h2).regions _).2
  | _ => exact h

/-! ## Moving -/

lemma alignUp_of_dvd {x : ℕ} (h : pageSize ∣ x) (hx : x ≤ userVmaUpperBound) : alignUp x = x := by
  obtain ⟨k, rfl⟩ := h
  have hub : userVmaUpperBound + pageSize < 2 ^ 64 := by decide
  have hpos : 0 < pageSize := by decide
  rw [alignUp, u64_of_lt (by omega), mul_comm pageSize k, add_comm,
    add_mul_div_right _ _ hpos, div_eq_of_lt (by omega), zero_add]

lemma pagesBelow_mul (va n : ℕ) : pagesBelow va (va + n * pageSize) = n := by
  have hpos : 0 < pageSize := by decide
  rw [pagesBelow, Nat.add_sub_cancel_left, Nat.add_comm, Nat.add_mul_div_right _ _ hpos,
    Nat.div_eq_of_lt (by omega), Nat.zero_add]

lemma Inv.growRegionPages (h : Inv mm) {base oldNpages newNpages : ℕ}
    (hbase : UserRange base (newNpages * pageSize)) :
    Inv (growRegionPages oracle mm r base oldNpages newNpages).2 := by
  rw [Mmap.growRegionPages]
  split_ifs
  · exact h
  · exact h
  · exact h
  -- the new pages are the end of the range
  have hsum : oldNpages * pageSize + (newNpages - oldNpages) * pageSize = newNpages * pageSize := by
    rw [← Nat.add_mul, Nat.add_sub_cancel' (by omega)]
  have hstart : u64 (base + oldNpages * pageSize) = base + oldNpages * pageSize :=
    hbase.u64_eq (by omega)
  have hrange : UserRange (base + oldNpages * pageSize) ((newNpages - oldNpages) * pageSize) :=
    hbase.sub (dvd_add hbase.start (dvd_mul_left _ _)) (dvd_mul_left _ _) (by omega) (by omega)
  have hup : alignUp (base + oldNpages * pageSize) = base + oldNpages * pageSize := by
    have := hrange.bound
    exact alignUp_of_dvd hrange.start (by omega)
  have hmap : Inv (Mmap.mapUserPages oracle mm (base + oldNpages * pageSize)
      (u64 (base + oldNpages * pageSize + (newNpages - oldNpages) * pageSize))).2.2 := by
    refine h.mapUserPages ?_
    rw [hrange.u64_eq le_rfl, hup, pagesBelow_mul]
    exact hrange
  rw [hstart]
  dsimp only
  generalize Mmap.mapUserPages oracle mm _ _ = p at hmap
  obtain ⟨mapped, b, mm1⟩ := p
  cases b with
  | true => exact hmap
  | false =>
    dsimp only
    split_ifs
    · exact hmap
    · exact hmap.unmapUserPagesLoop _ _

lemma UserList.modifyRegion {f : Region → Region} (vaddr : ℕ) (hL : UserList L)
    (hf : ∀ r ∈ L, r.vaddr = vaddr → UserRange (f r).vaddr (f r).size) :
    UserList (modifyRegion vaddr f L) := by
  intro q hq
  obtain ⟨r, hr, rfl⟩ := List.mem_map.1 hq
  split_ifs with hv
  · exact hf r hr hv
  · exact hL r hr

/-- What `sys_mremap` does not check. -/
structure MremapBounded (oldAddr oldSize newSize flags newAddr : ℕ) : Prop where
  /-- The destination of all pages that are moved. -/
  fixed : hasFlag flags mremapFixed = true →
    newAddr + max (alignUp oldSize) (alignUp newSize) ≤ userVmaUpperBound ∧
    (newAddr + max (alignUp oldSize) (alignUp newSize) ≤ sigTrampolineAddr ∨
      sigTrampolineAddr + pageSize ≤ newAddr)
  /-- The region itself is not unmapped. -/
  apart : hasFlag flags mremapFixed = true →
    newAddr + alignUp newSize ≤ oldAddr ∨ oldAddr + alignUp oldSize ≤ newAddr
  hint : hasFlag flags mremapFixed = false → pageSize ∣ newAddr ∧ newAddr ≤ userVmaUpperBound
  grow : hasFlag flags mremapFixed = false → oldAddr + alignUp newSize < 2 ^ 64

section Mremap

variable {oldAddr oldSize newSize flags newAddr newVa : ℕ}

lemma Inv.mremapInPlace (h : Inv mm) (hr : UserRange oldAddr oldSize)
    (hn : pageSize ∣ newSize) (hnew : oldSize < newSize → UserRange oldAddr newSize) :
    Inv (mremapInPlace oracle mm r oldAddr oldSize newSize).2 := by
  -- resetting the readahead state does not move a region
  have hreset : ∀ {mm : Mm}, Inv mm →
      Inv { mm with regions := Mmap.modifyRegion oldAddr vmaResetReadahead mm.regions } :=
    fun h => h.setRegions (UserList.modifyRegion _ h.regions fun q hq _ => h.regions q hq)
  rw [Mmap.mremapInPlace]
  split
  next hlt =>
    have hu : Inv (Mmap.unmapRange oracle mm (u64 (oldAddr + newSize)) (oldSize - newSize)).2 := by
      rw [hr.u64_eq (by omega)]
      refine h.unmapRange oracle (dvd_add hr.start hn) (dvd_sub hr.pages hn) ?_
      have := hr.bound
      have hub : userVmaUpperBound < 2 ^ 64 := by decide
      omega
    generalize Mmap.unmapRange oracle mm (u64 (oldAddr + newSize)) (oldSize - newSize) = p at hu
    obtain ⟨_ | e, mm1⟩ := p
    · exact hreset hu
    · exact hu
  split
  next hgt =>
    have hrange := hnew hgt
    have hg : Inv (Mmap.growRegionPages oracle mm r oldAddr (oldSize / pageSize)
        (newSize / pageSize)).2 := by
      refine h.growRegionPages ?_
      rwa [Nat.div_mul_cancel hn]
    generalize Mmap.growRegionPages oracle mm r oldAddr _ _ = p at hg
    obtain ⟨_ | e, mm1⟩ := p
    · have hm := hg.setRegions (UserList.modifyRegion oldAddr hg.regions
        (f := fun r => vmaResetReadahead { r with size := newSize })
        fun q _ hv => by
          rwa [hv])
      dsimp only at hm ⊢
      split_ifs
      · refine ⟨⟨hm.regions, hm.installed⟩, ?_, hm.physBrk, hm.physBase⟩
        rw [hrange.u64_eq le_rfl]
        exact dvd_add hrange.start hn
      · exact hm
    · exact hg
  · exact hreset h

lemma Inv.mremapMove (h : Inv mm) (hv : UserRange newVa newSize)
    (hmove : ∀ i < oldSize / pageSize, UserRange (u64 (newVa + i * pageSize)) pageSize)
    (hr : r ∈ mm.regions) (hra : r.vaddr = oldAddr) :
    ∃ ret mm', mremapMove oracle mm oldAddr oldSize newSize newVa = some (ret, mm') ∧ Inv mm' := by
  obtain ⟨r', hfind⟩ : ∃ r', (mm.regions.find? fun r => r.vaddr = oldAddr) = some r' :=
    isSome_iff_exists.1 (List.find?_isSome.2 ⟨r, hr, by simpa using hra⟩)
  rw [Mmap.mremapMove, hfind, map_some]
  refine ⟨_, _, rfl, ?_⟩
  have hg : Inv (Mmap.growRegionPages oracle mm r' newVa (oldSize / pageSize)
      (newSize / pageSize)).2 := by
    refine h.growRegionPages ?_
    rwa [Nat.div_mul_cancel hv.pages]
  generalize Mmap.growRegionPages oracle mm r' newVa _ _ = p at hg
  obtain ⟨_ | e, mm1⟩ := p
  · have hm : Inv (Mmap.moveUserPages oracle mm1 oldAddr newVa (oldSize / pageSize)).2 :=
      Inv.moveUserPages hg hmove
    dsimp only
    generalize Mmap.moveUserPages oracle mm1 oldAddr newVa _ = p at hm
    obtain ⟨b, mm2⟩ := p
    cases b with
    | false => exact hm
    | true =>
      have hfree : ∀ b : Bool, Inv (if b then
          freeOldTail mm2 oldAddr (newSize / pageSize) (oldSize / pageSize) else mm2) := by
        intro b
        cases b with
        | true => exact Inv.clearPages hm _ _
        | false => exact hm
      have h3 := hfree (decide (newSize < oldSize))
      simp only [decide_eq_true_eq] at h3
      dsimp only
      generalize (if newSize < oldSize then
        freeOldTail mm2 oldAddr (newSize / pageSize) (oldSize / pageSize) else mm2) = mm3 at h3
      have hL : UserList (mm3.regions.eraseP fun r => r.vaddr = oldAddr) :=
        fun q hq => h3.regions q (List.mem_of_mem_eraseP hq)
      split
      · exact h3.setRegions hL
      · rename_i L' hL'
        have h4 : Inv { mm3 with regions := L' } :=
          h3.setRegions (UserList.insert hL hv hL')
        split_ifs
        · refine ⟨⟨h4.regions, h4.installed⟩, ?_, h4.physBrk, h4.physBase⟩
          rw [hv.u64_eq le_rfl]
          exact dvd_add hv.start hv.pages
        · exact h4
  · exact hg

lemma Inv.mem_of_vmaFind (h : Inv mm) {addr : ℕ} (hf : vmaFind mm.regions addr = some r) :
    r ∈ mm.regions ∧ UserRange r.vaddr r.size := by
  obtain ⟨⟨pre, q, post⟩, hsplit, rfl⟩ := map_eq_some_iff.1 hf
  have hmem : q ∈ mm.regions := by
    rw [eq_of_findSplit hsplit]
    simp
  exact ⟨hmem, h.regions q hmem⟩

/-- A region that grows in place stays in user space if the sum of the code does not wrap. -/
lemma UserRange.of_not_wantMove (hr : UserRange oldAddr oldSize) (hn : pageSize ∣ newSize)
    (hgrow : oldAddr + newSize < 2 ^ 64) (hlt : oldSize < newSize)
    (hw : wantMove mm oldAddr oldSize newSize flags = false) : UserRange oldAddr newSize := by
  rw [wantMove] at hw
  split_ifs at hw
  rw [hr.u64_eq le_rfl] at hw
  simp only [hlt, decide_true, Bool.true_and, Bool.or_eq_false_iff, decide_eq_false_iff_not,
    not_lt, vmaOverlapsAny] at hw
  obtain ⟨hbound, htramp, -⟩ := hw
  have hsum : oldAddr + oldSize + (newSize - oldSize) = oldAddr + newSize := by omega
  rw [hsum, u64_of_lt hgrow] at hbound
  have hext : UserRange (oldAddr + oldSize) (newSize - oldSize) :=
    UserRange.of_not_overlaps (dvd_add hr.start hr.pages) (dvd_sub hn hr.pages) (by omega) htramp
  have := hr.concat hext
  rwa [Nat.add_sub_cancel' hlt.le] at this

lemma mem_unmapRange (oracle : ℕ → Bool) {addr len : ℕ} (hr : r ∈ mm.regions)
    (hout : r.stop ≤ addr ∨ u64 (addr + len) ≤ r.vaddr) :
    r ∈ (unmapRange oracle mm addr len).2.regions :=
  mem_rangeLoop hr hout

lemma Inv.mremapRelocate (h : Inv mm) (hb : MremapBounded oldAddr oldSize newSize flags newAddr)
    (hr : r ∈ mm.regions) (hra : r.vaddr = oldAddr) (hrs : r.size = alignUp oldSize)
    (hfix : hasFlag flags mremapFixed = true → pageSize ∣ newAddr)
    (hw : wantMove mm oldAddr (alignUp oldSize) (alignUp newSize) flags = true) :
    ∃ ret mm', mremapRelocate oracle mm oldAddr (alignUp oldSize) (alignUp newSize) flags newAddr =
      some (ret, mm') ∧ Inv mm' := by
  have hdvd : pageSize ∣ alignUp newSize := alignUp_dvd _
  rw [Mmap.mremapRelocate]
  split
  next hf =>
    obtain ⟨hbound, htramp⟩ := hb.fixed hf
    -- the destination of the pages that are moved and of the region
    have hmax : UserRange newAddr (max (alignUp oldSize) (alignUp newSize)) := by
      refine ⟨hfix hf, ?_, hbound, htramp⟩
      rcases max_choice (alignUp oldSize) (alignUp newSize) with hm | hm <;> rw [hm]
      · exact alignUp_dvd _
      · exact alignUp_dvd _
    have hv : UserRange newAddr (alignUp newSize) :=
      hmax.sub hmax.start hdvd le_rfl (by omega)
    have hlt : newAddr < 2 ^ 64 := by
      have hub : userVmaUpperBound < 2 ^ 64 := by decide
      omega
    have hout : r.stop ≤ newAddr ∨ u64 (newAddr + alignUp newSize) ≤ r.vaddr := by
      rw [(h.regions r hr).stop_eq, hv.u64_eq le_rfl, hra, hrs]
      exact (hb.apart hf).symm
    have hu := h.unmapRange oracle (hfix hf) hdvd hlt
    have hmem := mem_unmapRange oracle hr hout
    generalize Mmap.unmapRange oracle mm newAddr (alignUp newSize) = p at hu hmem
    obtain ⟨_ | e, mm1⟩ := p
    · refine Inv.mremapMove hu hv (fun i hi => hmax.page (hi.trans_le ?_)) hmem hra
      exact Nat.div_le_div_right (le_max_left _ _)
    · exact ⟨_, _, rfl, hu⟩
  next hf =>
    obtain ⟨hh, hbound⟩ := hb.hint (by simpa using hf)
    have hlt : alignUp oldSize < alignUp newSize := by
      rw [wantMove, if_neg hf, Bool.and_eq_true] at hw
      exact of_decide_eq_true hw.1
    dsimp only
    split_ifs with hgap
    · exact ⟨_, _, rfl, h⟩
    · have hv : UserRange (vmaFindGap mm (alignUp newSize) newAddr) (alignUp newSize) :=
        vmaFindGap_user h hdvd hh hbound fun h0 => hgap (.inl h0)
      refine h.mremapMove hv (fun i hi => hv.page (hi.trans_le ?_)) hr hra
      exact Nat.div_le_div_right hlt.le

/-- `sys_mremap` keeps the invariant, and does not use a freed descriptor. -/
lemma Inv.sysMremap (h : Inv mm) (oracle : ℕ → Bool)
    (hb : MremapBounded oldAddr oldSize newSize flags newAddr) :
    ∃ ret mm', sysMremap oracle mm oldAddr oldSize newSize flags newAddr = some (ret, mm') ∧
      Inv mm' := by
  -- a region that is found covers the old range
  have hfound {r : Region} (hfind : vmaFind mm.regions oldAddr = some r)
      (hsame : ¬(r.vaddr ≠ oldAddr ∨ r.size ≠ alignUp oldSize)) :
      r ∈ mm.regions ∧ r.vaddr = oldAddr ∧ r.size = alignUp oldSize ∧
        UserRange oldAddr (alignUp oldSize) := by
    obtain ⟨hra, hrs⟩ : r.vaddr = oldAddr ∧ r.size = alignUp oldSize := by
      simpa [not_or] using hsame
    obtain ⟨hr, hrange⟩ := h.mem_of_vmaFind hfind
    rw [hra, hrs] at hrange
    exact ⟨hr, hra, hrs, hrange⟩
  fun_cases Mmap.sysMremap oracle mm oldAddr oldSize newSize flags newAddr with
  | case9 _ _ _ _ h5 _ _ _ r hfind h7 hw =>
    obtain ⟨hr, hra, hrs, -⟩ := hfound hfind h7
    refine h.mremapRelocate hb hr hra hrs (fun hf => ?_) hw
    by_contra hne
    exact h5 ⟨hf, fun h0 => hne (dvd_of_mod_eq_zero h0)⟩
  | case10 _ _ _ _ _ _ _ _ r hfind h7 hw =>
    obtain ⟨-, -, -, hrange⟩ := hfound hfind h7
    have hf : hasFlag flags mremapFixed = false := by
      by_contra hf
      exact hw (by rw [wantMove, if_pos (by simpa using hf)])
    refine ⟨_, _, rfl, h.mremapInPlace hrange (alignUp_dvd _) fun hlt => ?_⟩
    exact hrange.of_not_wantMove (alignUp_dvd _) (hb.grow hf) hlt (by simpa using hw)
  | _ => exact ⟨_, mm, rfl, h⟩

end Mremap

/-! ## Runs -/

def Bounded (mm : Mm) : Call → Prop
  | .mmap addr size _ flags _ offset _ =>
      MmapBounded mm (u64 addr) (u64 size) flags (u64 offset)
  | .munmap _ _ => True
  | .mremap oldAddr oldSize newSize flags newAddr =>
      MremapBounded (u64 oldAddr) (u64 oldSize) (u64 newSize) flags (u64 newAddr)
  | .other _ => True

lemma Inv.step {hw : Machine} (h : Inv mm) (call : Call) (hb : Bounded mm call) :
    ∃ mm', step hw oracle mm call = some mm' ∧ Inv mm' := by
  cases call with
  | mmap addr size prot flags fd offset file => exact ⟨_, rfl, h.sysMmap hb⟩
  | munmap addr size => exact ⟨_, rfl, h.sysMunmap (u64_lt _)⟩
  | mremap oldAddr oldSize newSize flags newAddr =>
    obtain ⟨ret, mm', hcall, hinv⟩ := h.sysMremap oracle hb
    exact ⟨mm', by rw [Mmap.step, hcall]; rfl, hinv⟩
  | other leaf => exact ⟨_, rfl, ⟨h.regions, h.installed⟩, h.brk, h.physBrk, h.physBase⟩

/-- In every run of memory-mapping calls that are all inside their bounds, whatever
allocations fail and whatever else happens to leaf entries between the calls, every region
and every leaf entry installed is in user space. -/
theorem mappings_in_user_space (hw : Machine) (oracle leaf : ℕ → Bool) (calls : List Call)
    (hb : Meets (step hw oracle) Bounded (mmCreate leaf) calls) :
    ∃ mm, exec (step hw oracle) (mmCreate leaf) calls = some mm ∧ InUserSpace mm := by
  obtain ⟨mm, hrun, hinv⟩ := exec_progress_of_meets
    (fun mm call (h : Inv mm) hb => h.step call hb) calls _ (inv_mmCreate leaf) hb
  exact ⟨mm, hrun, hinv.toInUserSpace⟩

/-- A machine with 4 GiB of memory and the kernel in its second mebibyte. -/
def smallMachine : Machine := ⟨0x100000000, 0x100000, 0x200000⟩

/-- An anonymous page at a fixed address. -/
def fixedPage (addr : ℕ) : Call :=
  .mmap addr 0x1000 3 (mapPrivate ||| mapFixed ||| mapAnonymous) (-1) 0 none

/-- A run inside the bounds: a page is mapped, grown in place, and unmapped. -/
theorem mappings_in_user_space_page :
    ∃ mm, exec (step smallMachine fun _ => true) (mmCreate fun _ => false)
        [fixedPage 0x800000, .mremap 0x800000 0x1000 0x2000 0 0, .munmap 0x800000 0x2000] =
      some mm ∧ InUserSpace mm := by
  refine mappings_in_user_space _ _ _ _ ⟨?_, fun _ _ => ⟨?_, fun _ _ => ⟨trivial, fun _ _ =>
    trivial⟩⟩⟩
  · exact ⟨fun _ => by decide, fun h => absurd h (by decide), fun h => absurd h (by decide)⟩
  · exact ⟨fun h => absurd h (by decide), fun h => absurd h (by decide), fun _ => by decide,
      fun _ => by decide⟩

/-- Calls that leave user space: a fixed page at the first kernel address, and a region that
grows in place until the end of the address space. -/
theorem mappings_leave_user_space :
    (∃ mm, exec (step smallMachine fun _ => true) (mmCreate fun _ => false)
        [fixedPage userVmaUpperBound] = some mm ∧
      userVmaUpperBound ∈ mm.installed ∧ ¬InUserSpace mm) ∧
    ∃ mm, exec (step smallMachine fun _ => true) (mmCreate fun _ => false)
        [fixedPage 0x800000, .mremap 0x800000 0x1000 (2 ^ 64 - 0x800000) 0 0] = some mm ∧
      (∃ r ∈ mm.regions, r.vaddr + r.size = 2 ^ 64) ∧ ¬InUserSpace mm := by
  constructor
  · refine ⟨_, rfl, ?_⟩
    have hmem : userVmaUpperBound ∈ ((exec (step smallMachine fun _ => true)
      (mmCreate fun _ => false) [fixedPage userVmaUpperBound]).map Mm.installed).getD [] := by
      decide +kernel
    refine ⟨hmem, fun h => ?_⟩
    exact absurd (h.installed _ hmem).bound (by decide)
  · refine ⟨_, rfl, ?_⟩
    have hmem : ∃ r ∈ ((exec (step smallMachine fun _ => true) (mmCreate fun _ => false)
        [fixedPage 0x800000, .mremap 0x800000 0x1000 (2 ^ 64 - 0x800000) 0 0]).map
          Mm.regions).getD [], r.vaddr + r.size = 2 ^ 64 := by
      decide +kernel
    refine ⟨hmem, fun h => ?_⟩
    obtain ⟨r, hr, hend⟩ := hmem
    have := (h.regions r hr).bound
    rw [hend] at this
    exact absurd this (by decide)

end XosKernel.Mmap
