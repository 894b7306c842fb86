/-
# Pages for device access

`sys_dma_alloc`, `sys_dma_free` and `sys_munmap` (`kernel/bsd/syscall.c`), the copy of the region
list at fork and the release of an address space (`copy_mmap_regions`, `mm_release`,
`kernel/bsd/proc.c`), for the physical pages of regions with `KMAP_DMA_OWNED`.

Such a region owns its pages: whoever destroys the region returns the pages to the page allocator. A
copy of the region at fork owns the same pages once more. As long as no process forks while it has
such a region, every page is owned by at most one region, and it is returned when that region goes
away.

The allocator enters through its contract: it hands out pages that are free. What becomes of a block
at physical address `0`, whose region looks like anonymous memory, is not followed.
-/
import XosKernel.Mem.VmaParts

namespace XosKernel.Dma

open Vma List Option Bool

/-- The pages that a region owns, which `bfc_free_page` gets when the region is destroyed. -/
def frames (r : Region) : List ℕ :=
  if r.has kmapDmaOwned then List.range' (r.phys / pageSize) (r.size / pageSize) else []

/-- What an effect of a region function returns to the allocator. -/
def returned : Effect → List ℕ
  | .release r => frames r
  | .get _ | .put _ => []

/-- The region lists of all address spaces, and how often each page has been handed out to and
returned from `sys_dma_alloc`. -/
structure Sys where
  spaces : List (List Region)
  alloced : ℕ → ℕ
  freed : ℕ → ℕ

/-- `bfc_alloc_page_low`. -/
def Sys.alloc (s : Sys) (pages : List ℕ) : Sys :=
  { s with alloced := fun f => s.alloced f + pages.count f }

/-- `bfc_free_page`. -/
def Sys.free (s : Sys) (pages : List ℕ) : Sys :=
  { s with freed := fun f => s.freed f + pages.count f }

/-- The region of a new block. -/
def dmaRegion (vaddr size frame : ℕ) : Region where
  vaddr := vaddr
  size := size
  phys := frame * pageSize
  shmObj := none
  prot := 0
  fd := -1
  offset := 0
  flags := kmapPhysical ||| kmapDmaOwned
  inode := none
  shmPrivateSrc := none
  owner := none
  raLastPage := 0
  raNextPage := 0
  raWindowPages := 0
  raSequentialFaults := 0

/-- The region list and the effects of `sys_munmap`. -/
def sysMunmap (oracle : ℕ → Bool) (L : List Region) (addr size : ℕ) : List Region × Ctx :=
  if size = 0 ∨ addr % pageSize ≠ 0 ∨ alignUp size = 0 then (L, ⟨0, []⟩)
  else
    match vmaUnmapRange oracle ⟨0, []⟩ L addr (alignUp size) with
    | (some _, L, c) => (L, c)
    | (none, L, c) =>
      let L := if addr = 0 then L else Mmap.mergeFound L (addr - 1)
      (Mmap.mergeFound L (u64 (addr + alignUp size)), c)

/-- The calls. `dmaAlloc`: the allocator hands out the block from `frame` on, the placement gives
`vaddr`, and `ok` says whether the page tables and the region can be made. `fork`: `copied` regions
are copied before an allocation fails, if one does, and `created` says whether the child comes to
life. -/
inductive Action
  | dmaAlloc (i size frame vaddr : ℕ) (ok : Bool)
  | dmaFree (i vaddr : ℕ)
  | munmap (i addr size : ℕ) (oracle : ℕ → Bool)
  | fork (i copied : ℕ) (created : Bool)
  | exit (i : ℕ)

/-- `sys_dma_alloc` once the block is there. -/
def place (s : Sys) (i : ℕ) (L : List Region) (r : Region) (ok : Bool) : Sys :=
  match (if ok then Mmap.vmaInsertSorted r L else none) with
  | none => (s.alloc (frames r)).free (frames r)
  | some L' => { s.alloc (frames r) with spaces := s.spaces.set i L' }

/-- The contract of the allocator and of the placement: the block is free, below 4 GiB, and its
place is a range of user addresses. -/
def Available (s : Sys) (size frame vaddr : ℕ) : Prop :=
  alignUp size ≠ 0 ∧ frame * pageSize + alignUp size ≤ 0x100000000 ∧
    (∀ f ∈ List.range' frame (alignUp size / pageSize), s.alloced f ≤ s.freed f) ∧
    vaddr % pageSize = 0 ∧ vaddr + alignUp size ≤ userVmaUpperBound
deriving Decidable

/-- One call of process `i`. -/
def step (s : Sys) : Action → Option Sys
  | .dmaAlloc i size frame vaddr ok =>
    s.spaces[i]?.bind fun L =>
      if Available s size frame vaddr then
        some (place s i L (dmaRegion vaddr (alignUp size) frame) ok)
      else none
  | .dmaFree i vaddr =>
    s.spaces[i]?.map fun L =>
      match Mmap.findSplit vaddr L with
      | none => s
      | some (pre, r, post) =>
        if vaddr = 0 ∨ r.vaddr ≠ vaddr ∨ ¬ r.has kmapDmaOwned then s
        else { s.free (frames r) with spaces := s.spaces.set i (pre ++ post) }
  | .munmap i addr size oracle =>
    s.spaces[i]?.map fun L =>
      { s.free ((sysMunmap oracle L addr size).2.log.flatMap returned) with
        spaces := s.spaces.set i (sysMunmap oracle L addr size).1 }
  | .fork i copied created =>
    s.spaces[i]?.map fun L =>
      if created then { s with spaces := s.spaces ++ [L.take copied] }
      else s.free ((L.take copied).flatMap frames)
  | .exit i =>
    s.spaces[i]?.map fun L => { s.free (L.flatMap frames) with spaces := s.spaces.set i [] }

/-- Some address space maps the page. -/
def Sys.Mapped (s : Sys) (f : ℕ) : Prop := ∃ L ∈ s.spaces, ∃ r ∈ L, f ∈ frames r
deriving Decidable

/-- Every page that was handed out is returned exactly once, after the last mapping of it is gone.
-/
structure ReturnedOnce (s : Sys) : Prop where
  mapped : ∀ f, s.Mapped f → s.alloced f = s.freed f + 1
  unmapped : ∀ f, ¬ s.Mapped f → s.alloced f = s.freed f

/-- No block starts at physical address `0`, no process with a block forks, and no unmapped range
wraps around. -/
def DmaSound (s : Sys) : Action → Prop
  | .dmaAlloc _ _ frame _ _ => frame ≠ 0
  | .munmap _ addr size _ => addr + alignUp size ≤ 2 ^ 64
  | .fork i _ _ => ∀ L ∈ s.spaces[i]?, ∀ r ∈ L, r.has kmapDmaOwned = false
  | .dmaFree .. | .exit _ => True

instance (s : Sys) (a : Action) : Decidable (DmaSound s a) := by
  cases a <;> unfold DmaSound <;> infer_instance

/-! ## The pages of a region and of its parts -/

/-- A region that owns pages is a range of whole pages of addresses and of physical memory. -/
structure Owner (r : Region) : Prop where
  vaddr : pageSize ∣ r.vaddr
  size : pageSize ∣ r.size
  stop : r.vaddr + r.size < 2 ^ 64
  phys : r.phys ≠ 0
  aligned : pageSize ∣ r.phys
  top : r.phys + r.size < 2 ^ 64

lemma Owner.whole {r : Region} (h : Owner r) : Whole r := ⟨h.vaddr, h.size, h.stop⟩

/-- The condition on the regions of a list. -/
def Good (r : Region) : Prop := r.has kmapDmaOwned = true → Owner r

section Split

variable {r : Region} {v n : ℕ}

lemma frames_of_owner (h : r.has kmapDmaOwned = true) :
    frames r = range' (r.phys / pageSize) (r.size / pageSize) := if_pos h

lemma frames_of_not (h : r.has kmapDmaOwned = false) : frames r = [] := if_neg (by simp [h])

lemma piece_owner (h : Owner r) (hi : Inside r v n) :
    Owner (piece r v n) ∧ (piece r v n).phys / pageSize = r.phys / pageSize + (v - r.vaddr) /
    pageSize := by
  have hdelta : u64Sub v r.vaddr = v - r.vaddr :=
    u64Sub_of_le (by have := h.stop; have := hi.hi; omega) hi.lo
  have htop := h.top
  have hhi := hi.hi
  have hphys : (piece r v n).phys = r.phys + (v - r.vaddr) := by
    change (if r.phys = 0 then 0 else u64 (r.phys + u64Sub v r.vaddr)) = _
    rw [if_neg h.phys, hdelta, u64_of_lt (by omega)]
  have hdvd : pageSize ∣ v - r.vaddr := Nat.dvd_sub hi.start h.vaddr
  refine ⟨⟨hi.start, hi.len, ?_, ?_, ?_, ?_⟩, ?_⟩
  · exact lt_of_le_of_lt hi.hi h.stop
  · have := h.phys
    omega
  · rw [hphys]
    exact Nat.dvd_add h.aligned hdvd
  · rw [hphys]
    change r.phys + (v - r.vaddr) + n < 2 ^ 64
    have := hi.lo
    omega
  · rw [hphys, Nat.add_div_of_dvd_left hdvd]

lemma frontPiece_owner (h : Owner r) (hi : Inside r v n) :
    (frontPiece r v).flatMap frames = (if r.has kmapDmaOwned then
        range' (r.phys / pageSize) ((v - r.vaddr) / pageSize) else []) ∧
      ∀ p ∈ frontPiece r v, Owner p := by
  have hdelta : u64Sub v r.vaddr = v - r.vaddr :=
    u64Sub_of_le (by have := h.stop; have := hi.hi; omega) hi.lo
  rw [frontPiece]
  by_cases hv : v = r.vaddr
  · rw [if_pos hv, hv]
    simp
  · rw [if_neg hv, hdelta]
    refine ⟨by rw [flatMap_singleton]; rfl, fun p hp => ?_⟩
    obtain rfl := mem_singleton.1 hp
    have hhi := hi.hi
    refine ⟨h.vaddr, Nat.dvd_sub hi.start h.vaddr, ?_, h.phys, h.aligned, ?_⟩
    · change r.vaddr + (v - r.vaddr) < 2 ^ 64
      have := h.stop
      omega
    · change r.phys + (v - r.vaddr) < 2 ^ 64
      have := h.top
      omega

lemma split_frames (hr : Good r) (hi : r.has kmapDmaOwned = true → Inside r v n) :
    (parts r v n).flatMap frames = frames r ∧ ∀ p ∈ parts r v n, Good p := by
  rw [parts]
  by_cases howned : r.has kmapDmaOwned = true
  · have h := hr howned
    have hi := hi howned
    have hstop := h.stop
    have hhi := hi.hi
    have hend : u64 (v + n) = v + n := u64_of_lt (by omega)
    have hrstop : r.stop = r.vaddr + r.size := u64_of_lt hstop
    obtain ⟨hfront, hfrontO⟩ := frontPiece_owner h hi
    obtain ⟨hmidO, hmid⟩ := piece_owner h hi
    have hpiece (v n : ℕ) : (piece r v n).has kmapDmaOwned = true := howned
    have hfrontF : (frontPiece r v).flatMap frames =
        List.range' (r.phys / pageSize) ((v - r.vaddr) / pageSize) := by rw [hfront, if_pos howned]
    have hmidF : frames (piece r v n) =
        List.range' (r.phys / pageSize + (v - r.vaddr) / pageSize) (n / pageSize) := by
      rw [frames_of_owner (hpiece v n), hmid]
      rfl
    have htail : (tailPiece r (v + n)).flatMap frames =
          List.range' (r.phys / pageSize + (v - r.vaddr) / pageSize + n / pageSize)
            ((r.vaddr + r.size - (v + n)) / pageSize) ∧
        ∀ p ∈ tailPiece r (v + n), Owner p := by
      have hinside : Inside r (v + n) (r.vaddr + r.size - (v + n)) :=
        ⟨Nat.dvd_add hi.start hi.len,
          Nat.dvd_sub (Nat.dvd_add h.vaddr h.size) (Nat.dvd_add hi.start hi.len),
          by have := hi.lo; omega, by omega⟩
      obtain ⟨htailO, htailF⟩ := piece_owner h hinside
      rw [tailPiece, hrstop]
      split_ifs with hlt
      · rw [flatMap_singleton, frames_of_owner (hpiece _ _), htailF]
        refine ⟨?_, fun p hp => mem_singleton.1 hp ▸ htailO⟩
        have hdvd : (v + n - r.vaddr) / pageSize = (v - r.vaddr) / pageSize + n / pageSize := by
          rw [← Nat.add_div_of_dvd_left hi.len]
          congr 1
          have := hi.lo
          omega
        rw [hdvd, Nat.add_assoc]
        rfl
      · rw [show r.vaddr + r.size - (v + n) = 0 by omega]
        simp
    refine ⟨?_, ?_⟩
    · rw [hend, flatMap_append, flatMap_cons, hfrontF, hmidF, htail.1,
        frames_of_owner howned, List.range'_append_1, List.range'_append_1]
      congr 1
      have hlo := hi.lo
      have h1 := Nat.div_mul_cancel hi.len
      have h2 := Nat.div_mul_cancel h.size
      have h3 := Nat.div_mul_cancel (Nat.dvd_sub hi.start h.vaddr)
      have h4 := Nat.div_mul_cancel
        (Nat.dvd_sub (Nat.dvd_add h.vaddr h.size) (Nat.dvd_add hi.start hi.len))
      refine Nat.eq_of_mul_eq_mul_right (show 0 < pageSize by decide) ?_
      rw [Nat.add_mul, Nat.add_mul, h1, h2, h3, h4]
      omega
    · rw [hend]
      refine forall_mem_append.2 ⟨fun p hp _ => hfrontO p hp, ?_⟩
      exact forall_mem_cons.2 ⟨fun _ => hmidO, fun p hp _ => htail.2 p hp⟩
  · -- the flag is copied to the parts
    have hno : r.has kmapDmaOwned = false := eq_false_iff.2 howned
    have hparts : ∀ p ∈ frontPiece r v ++ piece r v n :: tailPiece r (u64 (v + n)),
        p.has kmapDmaOwned = false := by
      refine forall_mem_append.2 ⟨fun p hp => ?_, forall_mem_cons.2 ⟨hno, fun p hp => ?_⟩⟩
      · rw [frontPiece] at hp
        split_ifs at hp
        · exact absurd hp not_mem_nil
        · exact mem_singleton.1 hp ▸ hno
      · rw [tailPiece] at hp
        split_ifs at hp
        · exact mem_singleton.1 hp ▸ hno
        · exact absurd hp not_mem_nil
    refine ⟨?_, fun p hp h => absurd ((hparts p hp).symm.trans h) false_ne_true⟩
    rw [frames_of_not hno]
    exact flatMap_eq_nil_iff.2 fun p hp => frames_of_not (hparts p hp)

end Split

/-! ## Unmapping -/

section Unmap

variable (f : ℕ)

/-- How many of the pages of a region are the page `f`. -/
def owns (r : Region) : ℤ := (frames r).count f

/-- What a log has taken away from the owners of `f`. -/
def lost (c : Ctx) : ℤ := -(c.log.flatMap returned).count f

lemma total_owns (L : List Region) : total (owns f) L = (L.flatMap frames).count f := by
  induction L with
  | nil => rfl
  | cons r L ih =>
    rw [total_cons, ih, flatMap_cons, count_append, owns]
    rfl

lemma returned_eq : returned = fun e => (released e).flatMap frames := by
  funext e
  cases e with
  | release r => exact (flatMap_singleton ..).symm
  | get r => rfl
  | put r => rfl

lemma lost_eq (c : Ctx) : lost f c = -total (owns f) (releases c) := by
  rw [lost, total_owns, releases, flatMap_assoc, returned_eq]

lemma splits_owns : Splits (owns f) Good := by
  intro r v n hr hi
  obtain ⟨hframes, hgood⟩ := split_frames hr fun howned => hi (hr howned).whole
  refine ⟨?_, hgood⟩
  rw [total_owns, hframes]
  rfl

lemma vmaUnmapRange_owns (oracle : ℕ → Bool) (c : Ctx) {L : List Region} (hL : ∀ r ∈ L, Good r)
    {addr len : ℕ} (ha : pageSize ∣ addr) (hl : pageSize ∣ len) (hle : addr + len ≤ 2 ^ 64) :
    (total (owns f) (vmaUnmapRange oracle c L addr len).2.1 -
        lost f (vmaUnmapRange oracle c L addr len).2.2 = total (owns f) L - lost f c) ∧
      ∀ r ∈ (vmaUnmapRange oracle c L addr len).2.1, Good r := by
  rw [lost_eq, lost_eq]
  exact rangeLoop_parts (splits_owns f) handles_release c hL ha hl hle

lemma joins_owns : Joins (owns f) Good := by
  intro a b ha hb h
  have hmerge : Mmap.mergeable a = true ∧ Mmap.mergeable b = true := by
    simp only [Mmap.joins, and_eq_true] at h
    exact ⟨h.1.1.1.1, h.1.1.1.2⟩
  have hnot {r : Region} (hr : Good r) (hm : Mmap.mergeable r = true) :
      r.has kmapDmaOwned = false := by
    refine eq_false_iff.2 fun ho => (hr ho).phys ?_
    simp only [Mmap.mergeable, and_eq_true, beq_iff_eq] at hm
    exact hm.1.1.1.2
  have hjoin : (Mmap.join a b).has kmapDmaOwned = false :=
    (show a.has kmapDmaOwned = false from hnot ha hmerge.1)
  refine ⟨?_, fun ho => absurd (hjoin.symm.trans ho) false_ne_true⟩
  rw [owns, owns, owns, frames_of_not hjoin, frames_of_not (hnot ha hmerge.1),
    frames_of_not (hnot hb hmerge.2)]
  rfl

/-- `sys_munmap` returns the pages that leave the list. -/
lemma sysMunmap_owns (oracle : ℕ → Bool) {L : List Region} (hL : ∀ r ∈ L, Good r) {addr size : ℕ}
    (hle : addr + alignUp size ≤ 2 ^ 64) :
    total (owns f) (sysMunmap oracle L addr size).1 - lost f (sysMunmap oracle L addr size).2 =
        total (owns f) L ∧
      ∀ r ∈ (sysMunmap oracle L addr size).1, Good r := by
  rw [sysMunmap]
  split
  · exact ⟨sub_zero _, hL⟩
  next hbad =>
  push Not at hbad
  have hunmap := vmaUnmapRange_owns f oracle ⟨0, []⟩ hL (Nat.dvd_of_mod_eq_zero hbad.2.1)
    (alignUp_dvd size) hle
  revert hunmap
  generalize vmaUnmapRange oracle ⟨0, []⟩ L addr (alignUp size) = res
  obtain ⟨_ | e, M, c⟩ := res
  · rintro ⟨hsum, hgood⟩
    have hfirst : total (owns f) (if addr = 0 then M else Mmap.mergeFound M (addr - 1)) =
        total (owns f) M ∧
        ∀ r ∈ (if addr = 0 then M else Mmap.mergeFound M (addr - 1)), Good r := by
      split_ifs
      · exact ⟨rfl, hgood⟩
      · exact total_mergeFound (joins_owns f) hgood _
    obtain ⟨hsecond, hgood'⟩ := total_mergeFound (joins_owns f) hfirst.2 (u64 (addr + alignUp size))
    refine ⟨?_, hgood'⟩
    rw [hsecond, hfirst.1]
    exact hsum.trans (sub_zero _)
  · rintro ⟨hsum, hgood⟩
    exact ⟨hsum.trans (sub_zero _), hgood⟩

end Unmap

/-! ## Runs -/

def Sys.owners (s : Sys) (f : ℕ) : ℤ := (s.spaces.map (total (owns f))).sum

/-- Every page that is not returned is owned by one region. -/
structure Inv (s : Sys) : Prop where
  good : ∀ L ∈ s.spaces, ∀ r ∈ L, Good r
  balance : ∀ f, (s.alloced f : ℤ) = s.freed f + s.owners f
  unique : ∀ f, s.owners f ≤ 1

lemma total_owns_nonneg (f : ℕ) (L : List Region) : 0 ≤ total (owns f) L := by
  rw [total_owns]
  exact Int.natCast_nonneg _

lemma Sys.mapped_iff (s : Sys) (f : ℕ) : s.Mapped f ↔ 0 < s.owners f := by
  have hnonneg : ∀ x ∈ s.spaces.map (total (owns f)), 0 ≤ x := by
    intro x hx
    obtain ⟨L, -, rfl⟩ := mem_map.1 hx
    exact total_owns_nonneg f L
  constructor
  · rintro ⟨L, hL, r, hr, hf⟩
    have hpos : 0 < total (owns f) L := by
      rw [total_owns]
      exact_mod_cast count_pos_iff.2 (mem_flatMap.2 ⟨r, hr, hf⟩)
    exact lt_of_lt_of_le hpos (single_le_sum hnonneg _ (mem_map_of_mem hL))
  · intro hpos
    by_contra hno
    have hzero : ∀ x ∈ s.spaces.map (total (owns f)), x = 0 := by
      intro x hx
      obtain ⟨L, hL, rfl⟩ := mem_map.1 hx
      rw [total_owns]
      refine Nat.cast_eq_zero.2 (count_eq_zero.2 fun hf => hno ?_)
      obtain ⟨r, hr, hf⟩ := mem_flatMap.1 hf
      exact ⟨L, hL, r, hr, hf⟩
    rw [Sys.owners, sum_eq_zero hzero] at hpos
    exact lt_irrefl _ hpos

lemma Inv.returnedOnce {s : Sys} (h : Inv s) : ReturnedOnce s := by
  refine ⟨fun f hf => ?_, fun f hf => ?_⟩
  · have hpos := (s.mapped_iff f).1 hf
    have := h.balance f
    have := h.unique f
    omega
  · have hpos := mt (s.mapped_iff f).2 hf
    have hnonneg : 0 ≤ s.owners f := sum_nonneg fun x hx => by
      obtain ⟨L, -, rfl⟩ := mem_map.1 hx
      exact total_owns_nonneg f L
    have := h.balance f
    omega

section Step

variable {s : Sys} {i : ℕ} {L : List Region}

lemma sum_set (hi : s.spaces[i]? = some L) (M : List Region) (f : ℕ) :
    ((s.spaces.set i M).map (total (owns f))).sum =
      s.owners f - total (owns f) L + total (owns f) M := by
  obtain ⟨hlt, rfl⟩ := List.getElem?_eq_some_iff.1 hi
  have hs : s.spaces = s.spaces.take i ++ s.spaces[i] :: s.spaces.drop (i + 1) := by
    rw [getElem_cons_drop, take_append_drop]
  have howners : s.owners f = ((s.spaces.take i).map (total (owns f))).sum +
      (total (owns f) s.spaces[i] + ((s.spaces.drop (i + 1)).map (total (owns f))).sum) := by
    rw [Sys.owners]
    conv_lhs => rw [hs]
    rw [map_append, sum_append, map_cons, sum_cons]
  rw [howners, set_eq_take_append_cons_drop, if_pos hlt, map_append, sum_append, map_cons, sum_cons]
  ring

lemma good_set {P : Region → Prop} (h : ∀ L ∈ s.spaces, ∀ r ∈ L, P r) {M : List Region}
    (hM : ∀ r ∈ M, P r) : ∀ L ∈ s.spaces.set i M, ∀ r ∈ L, P r := by
  intro L hL
  obtain hL | rfl := mem_or_eq_of_mem_set hL
  · exact h L hL
  · exact hM

lemma Inv.drop (h : Inv s) (hi : s.spaces[i]? = some L) {M : List Region} {pages : List ℕ}
    (hM : ∀ r ∈ M, Good r)
    (hsum : ∀ f, total (owns f) M + pages.count f = total (owns f) L) :
    Inv { s.free pages with spaces := s.spaces.set i M } := by
  have howners (f : ℕ) := sum_set hi M f
  refine ⟨good_set h.good hM, fun f => ?_, fun f => ?_⟩
  · change (s.alloced f : ℤ) = ((s.freed f + pages.count f : ℕ) : ℤ) +
      ((s.spaces.set i M).map (total (owns f))).sum
    have := h.balance f
    have := hsum f
    rw [howners f]
    push_cast
    linarith
  · change ((s.spaces.set i M).map (total (owns f))).sum ≤ 1
    have := h.unique f
    have := hsum f
    rw [howners f]
    linarith

/-- A block has been handed out: a region owns it, or it is returned at once. -/
lemma Inv.place (h : Inv s) (hi : s.spaces[i]? = some L) {size frame vaddr : ℕ} (hframe : frame ≠ 0)
    (ha : Available s size frame vaddr) (ok : Bool) :
    Inv (place s i L (dmaRegion vaddr (alignUp size) frame) ok) := by
  obtain ⟨hsize, hlow, hfree, hvaddr, hupper⟩ := ha
  set r := dmaRegion vaddr (alignUp size) frame
  have howned : r.has kmapDmaOwned = true := by
    change (kmapPhysical ||| kmapDmaOwned) &&& kmapDmaOwned != 0
    decide
  have hphys : r.phys / pageSize = frame := Nat.mul_div_cancel frame (by decide)
  have hframes : frames r = List.range' frame (alignUp size / pageSize) := by
    rw [frames_of_owner howned, hphys]
    rfl
  have hgood : Good r := fun _ =>
    { vaddr := Nat.dvd_of_mod_eq_zero hvaddr
      size := alignUp_dvd size
      stop := lt_of_le_of_lt hupper (by decide)
      phys := Nat.mul_ne_zero hframe (by decide)
      aligned := Dvd.intro_left _ rfl
      top := lt_of_le_of_lt hlow (by decide) }
  rw [Dma.place]
  cases hins : (if ok then Mmap.vmaInsertSorted r L else none) with
  | none =>
    refine ⟨h.good, fun f => ?_, h.unique⟩
    change ((s.alloced f + (frames r).count f : ℕ) : ℤ) =
      ((s.freed f + (frames r).count f : ℕ) : ℤ) + s.owners f
    have := h.balance f
    push_cast
    linarith
  | some M =>
    have hins : Mmap.vmaInsertSorted r L = some M := by
      split_ifs at hins
      exact hins
    have howners (f : ℕ) : ((s.spaces.set i M).map (total (owns f))).sum =
        s.owners f + (frames r).count f := by
      rw [sum_set hi, total_vmaInsertSorted hins, owns]
      ring
    refine ⟨good_set h.good fun p hp => ?_, fun f => ?_, fun f => ?_⟩
    · obtain rfl | hp := mem_cons.1 ((perm_vmaInsertSorted hins).mem_iff.1 hp)
      · exact hgood
      · exact h.good L (mem_of_getElem? hi) p hp
    · change ((s.alloced f + (frames r).count f : ℕ) : ℤ) = (s.freed f : ℤ) +
        ((s.spaces.set i M).map (total (owns f))).sum
      have := h.balance f
      rw [howners]
      push_cast
      linarith
    · change ((s.spaces.set i M).map (total (owns f))).sum ≤ 1
      rw [howners]
      have hunique := h.unique f
      have hbalance := h.balance f
      by_cases hf : f ∈ frames r
      · -- the page was free, so nobody owned it
        have hle := hfree f (hframes ▸ hf)
        have hcount : (frames r).count f ≤ 1 := by
          rw [hframes]
          exact nodup_iff_count_le_one.1 (nodup_range' ..) f
        omega
      · rw [count_eq_zero.2 hf]
        simpa using hunique

end Step

theorem step_inv {s t : Sys} {a : Action} (h : Inv s) (hs : DmaSound s a) (hst : step s a = some t)
    : Inv t := by
  cases a with
  | dmaAlloc i size frame vaddr ok =>
    obtain ⟨L, hi, hst⟩ := bind_eq_some_iff.1 hst
    obtain ⟨ha, rfl⟩ := of_guard hst
    exact h.place hi hs ha ok
  | dmaFree i vaddr =>
    obtain ⟨L, hi, rfl⟩ := map_eq_some_iff.1 hst
    cases hf : Mmap.findSplit vaddr L with
    | none => exact h
    | some x =>
      dsimp only
      split_ifs
      · exact h
      · obtain rfl := eq_of_findSplit hf
        have hgood := h.good _ (mem_of_getElem? hi)
        refine h.drop hi (fun p hp => hgood p ?_) fun f => ?_
        · exact (mem_append.1 hp).elim (mem_append_left _)
            fun hp => mem_append_right _ (mem_cons_of_mem _ hp)
        · rw [total_append, total_append, total_cons, owns]
          ring
  | munmap i addr size oracle =>
    obtain ⟨L, hi, rfl⟩ := map_eq_some_iff.1 hst
    have hgood := h.good _ (mem_of_getElem? hi)
    refine h.drop hi (sysMunmap_owns 0 oracle hgood hs).2 fun f => ?_
    have hsum := (sysMunmap_owns f oracle hgood hs).1
    rw [lost] at hsum
    linarith
  | fork i copied created =>
    obtain ⟨L, hi, rfl⟩ := map_eq_some_iff.1 hst
    have hnone : ∀ r ∈ L.take copied, r.has kmapDmaOwned = false := fun r hr =>
      hs L hi r (mem_of_mem_take hr)
    have hzero : (L.take copied).flatMap frames = [] :=
      flatMap_eq_nil_iff.2 fun r hr => frames_of_not (hnone r hr)
    split_ifs
    · have howners (f : ℕ) : ((s.spaces ++ [L.take copied]).map (total (owns f))).sum =
        s.owners f := by
        rw [map_append, sum_append, map_singleton, sum_singleton, total_owns, hzero]
        exact add_zero _
      refine ⟨fun M hM => ?_, fun f => ?_, fun f => ?_⟩
      · obtain hM | hM := mem_append.1 hM
        · exact h.good M hM
        · obtain rfl := mem_singleton.1 hM
          exact fun r hr ho => absurd ((hnone r hr).symm.trans ho) false_ne_true
      · exact (h.balance f).trans (by rw [← howners f]; rfl)
      · exact (howners f).trans_le (h.unique f)
    · rw [hzero]
      exact ⟨h.good, fun f => (h.balance f).trans (by rfl), h.unique⟩
  | exit i =>
    obtain ⟨L, hi, rfl⟩ := map_eq_some_iff.1 hst
    refine h.drop hi (fun r hr => absurd hr not_mem_nil) fun f => ?_
    rw [total_nil, total_owns, zero_add]

/-- Address spaces without pages for device access. -/
def init (spaces : List (List Region)) : Sys := ⟨spaces, fun _ => 0, fun _ => 0⟩

lemma inv_init {spaces : List (List Region)}
    (h0 : ∀ L ∈ spaces, ∀ r ∈ L, r.has kmapDmaOwned = false) : Inv (init spaces) := by
  have hzero (f : ℕ) : (init spaces).owners f = 0 := by
    refine sum_eq_zero fun x hx => ?_
    obtain ⟨L, hL, rfl⟩ := mem_map.1 hx
    rw [total_owns, flatMap_eq_nil_iff.2 fun r hr => frames_of_not (h0 L hL r hr)]
    rfl
  refine ⟨fun L hL r hr ho => absurd ((h0 L hL r hr).symm.trans ho) false_ne_true, fun f => ?_,
    fun f => ?_⟩
  · rw [hzero f]
    rfl
  · rw [hzero f]
    exact zero_le_one

/-- In every run whose calls all meet the condition each page is returned exactly once, after the
last mapping of it is gone. -/
theorem returned_once_of_sound {spaces : List (List Region)}
    (h0 : ∀ L ∈ spaces, ∀ r ∈ L, r.has kmapDmaOwned = false) {as : List Action} {s : Sys}
    (hs : Meets step DmaSound (init spaces) as) (h : exec step (init spaces) as = some s) :
    ReturnedOnce s :=
  (exec_invariant_of_meets (fun _ _ _ => step_inv) as _ s (inv_init h0) hs h).returnedOnce

/-- A process forks, gets a block of three pages, unmaps the middle one, frees the first, and ends.
-/
def piecewise : List Action :=
  [.fork 0 0 true, .dmaAlloc 0 (3 * pageSize) 16 0x1000000 true,
    .munmap 0 (0x1000000 + pageSize) pageSize fun _ => true, .dmaFree 0 0x1000000, .exit 0]

theorem returned_once_piecewise : ∃ s, exec step (init [[]]) piecewise = some s ∧
    s.alloced 16 = 1 ∧ s.freed 16 = 1 ∧ s.freed 17 = 1 ∧ s.freed 18 = 1 ∧ ReturnedOnce s := by
  have hmeets : Meets step DmaSound (init [[]]) piecewise := by decide +kernel
  obtain ⟨s, hs, ha, h16, h17, h18⟩ : ∃ s, exec step (init [[]]) piecewise = some s ∧
      s.alloced 16 = 1 ∧ s.freed 16 = 1 ∧ s.freed 17 = 1 ∧ s.freed 18 = 1 := by decide +kernel
  exact ⟨s, hs, ha, h16, h17, h18, returned_once_of_sound (by decide) hmeets hs⟩

/-- A process gets a block and forks; the child ends. -/
def childEnds : List Action :=
  [.dmaAlloc 0 pageSize 16 0x1000000 true, .fork 0 1 true, .exit 1]

/-- The page is returned while the parent still maps it, and once more when the parent ends. -/
theorem returned_twice :
    (∃ s, exec step (init [[]]) childEnds = some s ∧ s.Mapped 16 ∧ s.freed 16 = 1 ∧
      ¬ ReturnedOnce s) ∧
    ∃ s, exec step (init [[]]) (childEnds ++ [.exit 0]) = some s ∧ s.alloced 16 = 1 ∧
      s.freed 16 = 2 := by
  have hchild : (exec step (init [[]]) childEnds).map (fun s =>
      decide (s.Mapped 16 ∧ s.freed 16 = 1 ∧ s.alloced 16 = 1)) = some true := by decide +kernel
  have hboth : (exec step (init [[]]) (childEnds ++ [.exit 0])).map (fun s =>
      decide (s.alloced 16 = 1 ∧ s.freed 16 = 2)) = some true := by decide +kernel
  obtain ⟨s, hs, hdec⟩ := map_eq_some_iff.1 hchild
  obtain ⟨hmap, hfreed, halloc⟩ := of_decide_eq_true hdec
  obtain ⟨t, ht, hdec'⟩ := map_eq_some_iff.1 hboth
  refine ⟨⟨s, hs, hmap, hfreed, fun h => ?_⟩, t, ht, of_decide_eq_true hdec'⟩
  have := h.mapped 16 hmap
  omega

end XosKernel.Dma
