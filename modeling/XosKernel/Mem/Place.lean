/-
# Placing mappings in an address space

The placement functions of `kernel/xcore/mem/vma.c` and the leaf-table functions of
`kernel/xcore/mem/user_mapping.c` that the memory-mapping calls use. An address space has
its region list, its two allocation cursors and its leaf tables. The page walk takes nine
index bits for each level, so the leaf of an address is found by its `slot`; of a leaf entry
only whether it is present matters here.

`installed` records the address of every leaf entry that is written, also of those that are
cleared again. `alloc` stands for every allocation: descriptors, page tables and pages; the
oracle says whether the `n`-th one succeeds.
-/
import XosKernel.Mem.Vma

namespace XosKernel.Mmap

open Vma

structure Mm where
  regions : List Region
  mmapBrk : ℕ
  mmapPhysBrk : ℕ
  leaf : ℕ → Bool
  installed : List ℕ
  allocs : ℕ

def mapPhysicalBase : ℕ := 0x70000000

/-- `mm_create`, with the leaf entries that the program's own pages have. -/
def mmCreate (leaf : ℕ → Bool) : Mm where
  regions := []
  mmapBrk := 0x800000
  mmapPhysBrk := mapPhysicalBase
  leaf := leaf
  installed := []
  allocs := 0

/-- The outcome of a call: a value, an error code, or an address whose `int64_t` value is
negative and which callers therefore take for an error. -/
inductive Ret
  | ok (v : ℕ)
  | err (e : Errno)
  | neg (v : ℕ)
deriving DecidableEq

/-- An address returned as `int64_t`. -/
def Ret.ofAddr (v : ℕ) : Ret := if v < 2 ^ 63 then .ok v else .neg v

def Mm.alloc (oracle : ℕ → Bool) (mm : Mm) : Bool × Mm :=
  (oracle mm.allocs, { mm with allocs := mm.allocs + 1 })

/-! ## Leaf tables -/

/-- The index of the leaf entry of an address: four levels of nine bits. -/
def slot (va : ℕ) : ℕ := va / pageSize % 2 ^ 36

def Mm.setLeaf (mm : Mm) (va : ℕ) : Mm :=
  { mm with leaf := Function.update mm.leaf (slot va) true, installed := va :: mm.installed }

def Mm.clearLeaf (mm : Mm) (va : ℕ) : Mm :=
  { mm with leaf := Function.update mm.leaf (slot va) false }

/-- `map_user_page_direct`: the tables are made if they are missing, and an entry that is
present is not overwritten. -/
def mapUserPageDirect (oracle : ℕ → Bool) (mm : Mm) (va : ℕ) : Bool × Mm :=
  match mm.alloc oracle with
  | (false, mm) => (false, mm)
  | (true, mm) => if mm.leaf (slot va) then (false, mm) else (true, mm.setLeaf va)

/-- Clear the entries of `n` pages, by `clear_user_pte` or by `unmap_user_pages`. -/
def clearPages (va : ℕ) : ℕ → Mm → Mm
  | 0, mm => mm
  | n + 1, mm => (clearPages va n mm).clearLeaf (u64 (va + n * pageSize))

/-- The loop of `map_user_pages` over `n` pages from `va` on: the number of pages mapped, and
whether all of them are. -/
def mapUserPagesLoop (oracle : ℕ → Bool) : ℕ → ℕ → Mm → ℕ × Bool × Mm
  | 0, _, mm => (0, true, mm)
  | n + 1, va, mm =>
      match mm.alloc oracle with
      | (false, mm) => (0, false, mm)
      | (true, mm) =>
          if mm.leaf (slot va) then mapUserPagesLoop oracle n (u64 (va + pageSize)) mm
          else
            match mm.alloc oracle with
            | (false, mm) => (0, false, mm)
            | (true, mm) =>
                let (mapped, ok, mm) :=
                  mapUserPagesLoop oracle n (u64 (va + pageSize)) (mm.setLeaf va)
                (mapped + 1, ok, mm)

def pagesBelow (va stop : ℕ) : ℕ := (stop - va + (pageSize - 1)) / pageSize

def mapUserPages (oracle : ℕ → Bool) (mm : Mm) (start stop : ℕ) : ℕ × Bool × Mm :=
  mapUserPagesLoop oracle (pagesBelow (alignUp start) stop) (alignUp start) mm

/-- The loop of `unmap_user_pages` over `n` pages: clear the first `count` present entries. -/
def unmapUserPagesLoop : ℕ → ℕ → ℕ → Mm → Mm
  | 0, _, _, mm => mm
  | _, _, 0, mm => mm
  | n + 1, va, count + 1, mm =>
      if mm.leaf (slot va) then
        unmapUserPagesLoop n (u64 (va + pageSize)) count (mm.clearLeaf va)
      else unmapUserPagesLoop n (u64 (va + pageSize)) (count + 1) mm

def unmapUserPages (mm : Mm) (start stop count : ℕ) : Mm :=
  unmapUserPagesLoop (pagesBelow (alignUp start) stop) (alignUp start) count mm

/-- The second phase of `move_user_pages`: move `n` entries, those that are present. -/
def moveLoop (oldVa newVa : ℕ) : ℕ → Mm → Mm
  | 0, mm => mm
  | n + 1, mm =>
      let mm := moveLoop oldVa newVa n mm
      let src := u64 (oldVa + n * pageSize)
      if mm.leaf (slot src) then (mm.setLeaf (u64 (newVa + n * pageSize))).clearLeaf src else mm

/-- `move_user_pages`: the first phase makes the destination tables and can fail. -/
def moveUserPages (oracle : ℕ → Bool) (mm : Mm) (oldVa newVa npages : ℕ) : Bool × Mm :=
  match mm.alloc oracle with
  | (false, mm) => (false, mm)
  | (true, mm) => (true, moveLoop oldVa newVa npages mm)

/-! ## The region list -/

def overlapsSignalTrampoline (start len : ℕ) : Bool :=
  if len = 0 ∨ 2 ^ 64 - 1 - len < start then false
  else decide (start < sigTrampolineAddr + pageSize ∧ sigTrampolineAddr < u64 (start + len))

/-- `vma_find`, with the regions in front of the one found and those behind it. -/
def findSplit (addr : ℕ) : List Region → Option (List Region × Region × List Region)
  | [] => none
  | mr :: rest =>
      if addr < mr.vaddr then none
      else if addr < mr.stop then some ([], mr, rest)
      else (findSplit addr rest).map fun (pre, r, post) => (mr :: pre, r, post)

def vmaFind (regions : List Region) (addr : ℕ) : Option Region :=
  (findSplit addr regions).map fun (_, r, _) => r

/-- `vma_insert_sorted`; `none` is `-EEXIST`. -/
def vmaInsertSorted (region : Region) : List Region → Option (List Region)
  | [] => some [region]
  | mr :: rest =>
      if mr.vaddr < region.vaddr then (vmaInsertSorted region rest).map (mr :: ·)
      else if mr.vaddr = region.vaddr then none
      else some (region :: mr :: rest)

def vmaOverlaps (start stop : ℕ) : List Region → Bool
  | [] => false
  | mr :: rest =>
      if stop ≤ mr.vaddr then false else if start < mr.stop then true else vmaOverlaps start stop
        rest

def vmaOverlapsAny (regions : List Region) (start len : ℕ) : Bool :=
  overlapsSignalTrampoline start len || vmaOverlaps start (u64 (start + len)) regions

def mergeable (r : Region) : Bool :=
  r.fd == -1 && r.shmObj.isNone && r.phys == 0 && r.inode.isNone && !r.has kmapVmaOwner &&
    r.shmPrivateSrc.isNone

/-- Whether `vma_merge` joins two neighbours. -/
def joins (a b : Region) : Bool :=
  mergeable a && mergeable b && a.prot == b.prot && a.flags == b.flags && a.stop == b.vaddr

/-- The region that covers two neighbours. -/
def join (a b : Region) : Region := { a with size := u64 (a.size + b.size) }

/-- The first half of `vma_merge`: the next region. -/
def mergeNext (r : Region) : List Region → Region × List Region
  | n :: post => if joins r n then (join r n, post) else (r, n :: post)
  | [] => (r, [])

/-- `vma_merge` of the region `r` between `pre` and `post`. -/
def vmaMerge (pre : List Region) (r : Region) (post : List Region) : List Region :=
  let (r, post) := mergeNext r post
  match pre.getLast? with
  | some p => if joins p r then pre.dropLast ++ join p r :: post else pre ++ r :: post
  | none => pre ++ r :: post

/-! ## Finding a gap -/

def firstMappedLoop (leaf : ℕ → Bool) : ℕ → ℕ → ℕ
  | 0, _ => 0
  | n + 1, va => if leaf (slot va) then va else firstMappedLoop leaf n (va + pageSize)

def firstMappedPage (mm : Mm) (start len : ℕ) : ℕ :=
  if overlapsSignalTrampoline start len then sigTrampolineAddr
  else firstMappedLoop mm.leaf (pagesBelow start (u64 (start + len))) start

/-- The inner loop of `vma_find_gap`: the end of the first region in the way. -/
def firstInTheWay (cur len : ℕ) : List Region → Option ℕ
  | [] => none
  | mr :: rest =>
      if mr.stop ≤ cur then firstInTheWay cur len rest
      else if u64 (cur + len) ≤ mr.vaddr then none
      else some mr.stop

lemma firstInTheWay_some {cur len e : ℕ} {L : List Region}
    (h : firstInTheWay cur len L = some e) :
    ∃ r ∈ L, r.stop = e ∧ cur < e ∧ r.vaddr < u64 (cur + len) := by
  induction L with
  | nil => cases h
  | cons mr rest ih =>
    rw [firstInTheWay] at h
    split_ifs at h with h1 h2
    · obtain ⟨r, hr, hstop⟩ := ih h
      exact ⟨r, List.mem_cons_of_mem _ hr, hstop⟩
    · obtain rfl : mr.stop = e := Option.some.inj h
      exact ⟨mr, List.mem_cons_self, rfl, not_le.1 h1, not_le.1 h2⟩

lemma firstMappedLoop_some {leaf : ℕ → Bool} {n va : ℕ} (h : firstMappedLoop leaf n va ≠ 0) :
    ∃ i < n, firstMappedLoop leaf n va = va + i * pageSize ∧
      leaf (slot (firstMappedLoop leaf n va)) = true := by
  fun_induction firstMappedLoop leaf n va with
  | case1 => exact absurd rfl h
  | case2 n va hleaf => exact ⟨0, n.succ_pos, by rw [Nat.zero_mul, Nat.add_zero], hleaf⟩
  | case3 n va _ ih =>
    obtain ⟨i, hi, heq, hmapped⟩ := ih h
    refine ⟨i + 1, Nat.succ_lt_succ hi, ?_, hmapped⟩
    rw [heq]
    ring

lemma lt_of_firstMappedPage {mm : Mm} {start len : ℕ} (h : firstMappedPage mm start len ≠ 0) :
    start < firstMappedPage mm start len + pageSize := by
  rw [firstMappedPage] at h ⊢
  split_ifs at h ⊢ with ht
  · rw [overlapsSignalTrampoline] at ht
    split_ifs at ht
    exact (of_decide_eq_true ht).1
  · obtain ⟨i, -, heq, -⟩ := firstMappedLoop_some h
    rw [heq, Nat.add_assoc]
    exact Nat.lt_add_of_pos_right (Nat.add_pos_right _ (by decide))

/-- The outer loop of `vma_find_gap`: the cursor moves past whatever is in the way. -/
def scanGap (mm : Mm) (len cur : ℕ) : ℕ :=
  if _hend : userVmaUpperBound ≤ cur ∨ userVmaUpperBound - cur < len then 0
  else
    match _hway : firstInTheWay cur len mm.regions with
    | some e => scanGap mm len e
    | none =>
        if _hmapped : firstMappedPage mm cur len = 0 then cur
        else scanGap mm len (firstMappedPage mm cur len + pageSize)
termination_by userVmaUpperBound - cur
decreasing_by
  · obtain ⟨-, -, -, this, -⟩ := firstInTheWay_some _hway
    omega
  · have := lt_of_firstMappedPage _hmapped
    omega

/-- `vma_find_gap`; zero if there is none. -/
def vmaFindGap (mm : Mm) (len hint : ℕ) : ℕ :=
  if hint ≠ 0 ∧ len ≤ u64Sub userVmaUpperBound hint ∧
      vmaOverlaps hint (u64 (hint + len)) mm.regions = false ∧ firstMappedPage mm hint len = 0
  then hint
  else scanGap mm len (if hint < mm.mmapBrk then mm.mmapBrk else hint)

end XosKernel.Mmap
