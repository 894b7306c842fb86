/-
# The physical page allocator

The model of `kernel/xcore/mem/alloc.c`. A `struct page` is identified with its index in
`bfc_frames`, so that `cur + n` and `cur < page` on pointers are `cur + n` and
`cur < page` on numbers; a null pointer is `none`. The free list is intrusive: its links
and block lengths are the `bfc` fields of the first page of each free block.

The two `while` loops walk the list through the `next` pointers. They are bounded here by
`total_page_frames` steps and return `none` beyond that: a longer walk would have visited
a descriptor twice and could not end. On the states that the allocator reaches the bound
is never hit.
-/
import XosKernel.Mem.Layout
import XosKernel.Lib.Run
import XosKernel.Lib.DList

namespace XosKernel.Bfc

inductive PageStatus
  | free | used | slab | reserved
deriving DecidableEq

/-- `struct page`, with the `bfc` member of its union. -/
structure Page where
  status : PageStatus
  pRefcount : ℕ
  contPageNum : ℕ
  prev : Option ℕ
  next : Option ℕ
deriving DecidableEq

/-- The globals of the allocator; `usedPages` is `kernel_mem_stats.used_pages`. -/
structure Mem where
  bfcFrames : ℕ → Page
  totalPageFrames : ℕ
  bfcFreeList : Option ℕ
  usedPages : ℤ

namespace Mem

/-- The `next` pointers. -/
def nx (m : Mem) (i : ℕ) : Option ℕ := (m.bfcFrames i).next

/-- The `prev` pointers. -/
def pv (m : Mem) (i : ℕ) : Option ℕ := (m.bfcFrames i).prev

def modify (m : Mem) (i : ℕ) (f : Page → Page) : Mem :=
  { m with bfcFrames := fun j => if j = i then f (m.bfcFrames j) else m.bfcFrames j }

/-- `p->bfc.next = v`, where the null pointer stands for the list head `bfc_free_list`:
this is how the code writes through `prev`. -/
def setNext (m : Mem) (p v : Option ℕ) : Mem :=
  match p with
  | none => { m with bfcFreeList := v }
  | some i => m.modify i fun pg => { pg with next := v }

def setPrev (m : Mem) (p v : Option ℕ) : Mem :=
  match p with
  | none => m
  | some i => m.modify i fun pg => { pg with prev := v }

/-- The loop that marks the `n` pages of an allocated block. -/
def markUsed (m : Mem) (p n : ℕ) : Mem :=
  { m with
    bfcFrames := fun j =>
      if p ≤ j ∧ j < p + n then { m.bfcFrames j with status := .used, pRefcount := 1 }
      else m.bfcFrames j }

/-- The header of a block of `n` pages that is being freed, and the page counter. -/
def markFree (m : Mem) (p n : ℕ) : Mem :=
  ({ m with usedPages := m.usedPages - n } : Mem).modify p fun pg =>
    { pg with status := .free, contPageNum := n }

end Mem

/-! ## Allocation -/

/-- The branch of an allocation that consumes the block `cur`. -/
def takeWhole (m : Mem) (prev : Option ℕ) (cur n : ℕ) : Mem :=
  let next := (m.bfcFrames cur).next
  let m := m.setNext prev next
  let m := m.setPrev next prev
  m.markUsed cur n

/-- The branch of an allocation that splits the block `cur` after `n` pages. -/
def takeSplit (m : Mem) (prev : Option ℕ) (cur n : ℕ) : Mem :=
  let remaining := (m.bfcFrames cur).contPageNum - n
  let next := (m.bfcFrames cur).next
  let m := m.modify cur fun pg => { pg with contPageNum := n }
  let m := m.markUsed cur n
  let newBlock := cur + n
  let m := m.modify newBlock fun pg =>
    { pg with status := .free, contPageNum := remaining, prev := prev, next := next }
  let m := m.setNext prev (some newBlock)
  let m := m.setPrev next (some newBlock)
  m.modify cur fun pg => { pg with prev := none, next := none }

/-- What both allocation functions do with the block they have found. -/
def takeBlock (m : Mem) (prev : Option ℕ) (cur n : ℕ) : Mem :=
  let m' :=
    if (m.bfcFrames cur).contPageNum = n then takeWhole m prev cur n
    else takeSplit m prev cur n
  { m' with usedPages := m'.usedPages + n }

/-- The common body of the two allocation functions, for the test that the loop applies to
a node. -/
def allocWith (fits : ℕ → Bool) (m : Mem) (n : ℕ) : Option (Option ℕ × Mem) :=
  if n = 0 then some (none, m)
  else
    match DList.walk m.nx fits m.totalPageFrames none m.bfcFreeList with
    | none => none
    | some (_, none) => some (none, m)
    | some (prev, some cur) => some (some cur, takeBlock m prev cur n)

def fitsAny (m : Mem) (n cur : ℕ) : Bool := decide (n ≤ (m.bfcFrames cur).contPageNum)

/-- The test of the low variant: the block is long enough and its first `n` pages end at
or below 4 GiB. -/
def fitsLow (m : Mem) (n cur : ℕ) : Bool :=
  decide (n ≤ (m.bfcFrames cur).contPageNum ∧
    u64 (u64 (cur * pageSize) + u64 (n * pageSize)) ≤ 0x100000000)

def bfcAllocPage (m : Mem) (n : ℕ) : Option (Option ℕ × Mem) := allocWith (fitsAny m n) m n

def bfcAllocPageLow (m : Mem) (n : ℕ) : Option (Option ℕ × Mem) := allocWith (fitsLow m n) m n

/-! ## Freeing -/

/-- Glue the node `b` to its predecessor `a`: the body of both coalescing branches. -/
def mergeInto (m : Mem) (a b : ℕ) : Mem :=
  let next := (m.bfcFrames b).next
  let m := m.modify a fun pg =>
    { pg with contPageNum := pg.contPageNum + (m.bfcFrames b).contPageNum, next := next }
  m.setPrev next (some a)

def linkBlock (m : Mem) (prev cur : Option ℕ) (page : ℕ) : Mem :=
  let m := m.modify page fun pg => { pg with prev := prev, next := cur }
  let m := m.setNext prev (some page)
  m.setPrev cur (some page)

/-- Coalesce with the predecessor; the returned page is the new value of `page`. -/
def mergePrev (m : Mem) (prev : Option ℕ) (page : ℕ) : ℕ × Mem :=
  match prev with
  | none => (page, m)
  | some q =>
      if q + (m.bfcFrames q).contPageNum = page then (q, mergeInto m q page) else (page, m)

/-- Coalesce with the successor. -/
def mergeNext (m : Mem) (cur : Option ℕ) (page : ℕ) : Mem :=
  match cur with
  | none => m
  | some c => if page + (m.bfcFrames page).contPageNum = c then mergeInto m page c else m

/-- `bfc_free_page` once the neighbours are known. -/
def insertBlock (m : Mem) (prev cur : Option ℕ) (page : ℕ) : Option ℕ × Mem :=
  let m := linkBlock m prev cur page
  let (page, m) := mergePrev m prev page
  (some page, mergeNext m cur page)

/-- `bfc_free_page`; the argument `none` is a null `page`. -/
def bfcFreePage (m : Mem) (page : Option ℕ) (n : ℕ) : Option (Option ℕ × Mem) :=
  match page with
  | none => some (none, m)
  | some p =>
      if n = 0 then some (none, m)
      else
        let m := m.markFree p n
        match DList.walk m.nx (fun cur => decide (p ≤ cur)) m.totalPageFrames none
          m.bfcFreeList with
        | none => none
        | some (prev, cur) => some (insertBlock m prev cur p)

def bfcFreePageNums (m : Mem) : ℕ → Option ℕ → Option ℕ
  | _, none => some 0
  | 0, some _ => none
  | fuel + 1, some cur =>
      (bfcFreePageNums m fuel (m.bfcFrames cur).next).map ((m.bfcFrames cur).contPageNum + ·)

/-! ## Initialisation -/

/-- `efi_memory_descriptor`, without the fields `init_mem` does not read. -/
structure EfiMemoryDescriptor where
  type : ℕ
  physicalStart : ℕ
  numberOfPages : ℕ

def efiConventionalMemory : ℕ := 7

def apTrampolinePhys : ℕ := 0x8000

def sizeofPage : ℕ := 56

/-- What `init_mem` reads: the memory map and `kernel_phys` of `boot_info`, the frontier
`early_bump_end`, and the base and size of the stolen graphics memory when it is valid. -/
structure BootInfo where
  descs : List EfiMemoryDescriptor
  kernelPhys : ℕ
  earlyBumpEnd : ℕ
  stolen : Option (ℕ × ℕ)

namespace BootInfo

def conventional (bi : BootInfo) : List EfiMemoryDescriptor :=
  bi.descs.filter fun d => d.type = efiConventionalMemory

/-- Step 1: the highest end of conventional memory, capped at the direct map. -/
def maxPhysAddr (bi : BootInfo) : ℕ :=
  min directMapMax (bi.conventional.foldl
    (fun acc d => max acc (u64 (d.physicalStart + u64 (d.numberOfPages * 4096)))) 0)

def total (bi : BootInfo) : ℕ := getPageNum bi.maxPhysAddr

/-- `bump_end_phys()` after the frames array has been carved out (steps 2 and 3). -/
def bumpEnd (bi : BootInfo) : ℕ :=
  u64 (alignUp bi.earlyBumpEnd + alignUp (u64 (bi.total * sizeofPage)))

/-- Step 5: page `i` lies in a descriptor of conventional memory. -/
def inConventional (bi : BootInfo) (i : ℕ) : Bool :=
  bi.conventional.any fun d =>
    let pageNum := getPageNum (u64 (d.numberOfPages * 4096))
    let pageIdx := phyToPage (alignUp d.physicalStart)
    decide (pageIdx ≤ i ∧ i < pageIdx + pageNum)

/-- Step 5c: page `i` lies in the stolen graphics memory. -/
def inStolen (bi : BootInfo) (i : ℕ) : Bool :=
  match bi.stolen with
  | none => false
  | some (base, size) => decide (phyToPage base ≤ i ∧ i < phyToPage base + size / pageSize)

/-- Step 8: page `i` belongs to the kernel image or to the bump allocator. -/
def inKernel (bi : BootInfo) (i : ℕ) : Bool :=
  decide (phyToPage bi.kernelPhys ≤ i ∧ i < phyToPage (alignUp bi.bumpEnd))

/-- The descriptor of page `i` after steps 4 to 8; each later step overrides the earlier
ones. -/
def initialPage (bi : BootInfo) (i : ℕ) : Page :=
  let reserved : Page := ⟨.reserved, 0, 1, none, none⟩
  if bi.inKernel i then { reserved with status := .used, pRefcount := 1 }
  else if bi.inStolen i then reserved
  else if i = phyToPage apTrampolinePhys then reserved
  else if bi.inConventional i then { reserved with status := .free }
  else reserved

end BootInfo

/-- The locals of step 9.  `curPage` is the `struct page **` cursor: `none` is
`&bfc_free_list` and `some k` is `&frames[k].bfc.next`; `inBlock` is `state == 1`. -/
structure BuildState where
  mem : Mem
  inBlock : Bool
  prev : Option ℕ
  curPage : Option ℕ
  contPageNum : ℕ

def BuildState.deref (b : BuildState) : Option ℕ :=
  match b.curPage with
  | none => b.mem.bfcFreeList
  | some k => (b.mem.bfcFrames k).next

/-- `(*cur_page)->bfc.cont_page_num = cont_page_num`. -/
def BuildState.close (b : BuildState) : Mem :=
  match b.deref with
  | none => b.mem
  | some k => b.mem.modify k fun pg => { pg with contPageNum := b.contPageNum }

/-- One iteration of the loop of step 9. -/
def buildStep (b : BuildState) (i : ℕ) : BuildState :=
  let status := (b.mem.bfcFrames i).status
  if b.inBlock then
    if status ≠ .free then
      { b with mem := b.close, inBlock := false, contPageNum := 0, curPage := b.deref }
    else { b with contPageNum := b.contPageNum + 1 }
  else if status = .free then
    { mem := (b.mem.setNext b.curPage (some i)).modify i fun pg => { pg with prev := b.prev }
      inBlock := true
      prev := some i
      curPage := b.curPage
      contPageNum := 1 }
  else b

/-- The state before step 9: no list yet. -/
def initialMem (bi : BootInfo) : Mem where
  bfcFrames := bi.initialPage
  totalPageFrames := bi.total
  bfcFreeList := none
  usedPages := 0

/-- `init_mem`: build the free list from the page descriptors. -/
def initMem (bi : BootInfo) : Mem :=
  let b := (List.range bi.total).foldl buildStep ⟨initialMem bi, false, none, none, 0⟩
  if b.inBlock then b.close else b.mem

end XosKernel.Bfc
