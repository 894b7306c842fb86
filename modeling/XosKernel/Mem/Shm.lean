/-
# Shared-memory objects

`sys_ftruncate` for a memfd, the memfd part of `sys_mmap` (`bsd/syscall.c`), the unmapping of
a piece of a region (`vma_unmap_range`, `vma_split` and `free_one_region` of
`xcore/mem/vma.c`), `close` and `shm_put` (`xcore/ipc.c`), over the three places that know
who uses a page: the page lists of the objects, the page counts and the leaf entries.

Addresses are page numbers. What the calls cannot decide is an argument: the frames the
allocator returns, which `map_user_page_direct` calls fail and whether `kmalloc` succeeds.
A frame that the allocator returns is not in use, otherwise the call has no successor.
-/
import XosKernel.Lib.Run
import XosKernel.Mem.Layout
import Mathlib.Data.List.Count

namespace XosKernel.Memfd

/-- `struct shm`: a contiguous block (`phys`, `npages`), or a page list. -/
structure Shm where
  id : ℕ
  phys : ℕ
  npages : ℕ
  /-- `page_list` with its `num_pages` entries; `none` for `NULL` -/
  pageList : Option (List ℕ)
  fileSize : ℕ
  sCount : ℕ
  sealGrow : Bool
  sealShrink : Bool
deriving DecidableEq

def Shm.block (o : Shm) : List ℕ := (List.range o.npages).map fun i => o.phys + i

/-- The frames in the order in which `sys_mmap` numbers the pages. -/
def Shm.frames (o : Shm) : List ℕ := o.block ++ o.pageList.getD []

/-- An open file description of type `FD_SHM`. -/
structure File where
  id : ℕ
  shm : ℕ
deriving DecidableEq

/-- A region of address space `as` with an `shm_obj`. -/
structure Region where
  as : ℕ
  start : ℕ
  pages : ℕ
  shm : ℕ
deriving DecidableEq

def Region.fin (r : Region) : ℕ := r.start + r.pages

/-- A leaf entry over a page of an object. -/
structure Leaf where
  as : ℕ
  vpn : ℕ
  frame : ℕ
deriving DecidableEq

structure Sys where
  shms : List Shm
  files : List File
  regions : List Region
  leaves : List Leaf
  /-- `p_refcount` -/
  refcount : ℕ → ℕ
  /-- the frames the page allocator has handed out -/
  live : ℕ → Bool
  /-- frames that were freed while they were free -/
  doubleFreed : List ℕ

def Sys.empty : Sys := ⟨[], [], [], [], fun _ => 0, fun _ => false, []⟩

/-! ## The page allocator -/

/-- `bfc_alloc_page(n)` returning the frames `fs`. -/
def Sys.bfcAllocPage (s : Sys) (fs : List ℕ) : Option Sys :=
  if fs.Nodup ∧ ∀ f ∈ fs, s.live f = false then
    some
      { s with
        live := fun f => s.live f || fs.contains f
        refcount := fun f => if fs.contains f then 1 else s.refcount f }
  else none

/-- `bfc_free_page` for one frame. -/
def Sys.bfcFreePage (s : Sys) (f : ℕ) : Sys :=
  if s.live f then { s with live := Function.update s.live f false }
  else { s with doubleFreed := f :: s.doubleFreed }

def Sys.bfcFreePages (s : Sys) (fs : List ℕ) : Sys := fs.foldl Sys.bfcFreePage s

/-! ## Objects and their references -/

def Sys.shm? (s : Sys) (id : ℕ) : Option Shm := s.shms.find? fun o => o.id = id

def Sys.file? (s : Sys) (id : ℕ) : Option File := s.files.find? fun f => f.id = id

def Sys.setShm (s : Sys) (o : Shm) : Sys :=
  { s with shms := s.shms.map fun p => if p.id = o.id then o else p }

def Sys.shmGet (s : Sys) (id : ℕ) : Sys :=
  match s.shm? id with
  | none => s
  | some o => s.setShm { o with sCount := o.sCount + 1 }

/-- What the last `shm_put` gives back: the page list if there is one. -/
def Shm.released (o : Shm) : List ℕ :=
  match o.pageList with
  | some fs => fs
  | none => if o.phys ≠ 0 ∧ o.npages > 0 then o.block else []

def Sys.shmPut (s : Sys) (id : ℕ) : Sys :=
  match s.shm? id with
  | none => s
  | some o =>
    if o.sCount - 1 = 0 then
      { s.bfcFreePages o.released with shms := s.shms.filter fun p => p.id ≠ id }
    else s.setShm { o with sCount := o.sCount - 1 }

/-! ## `ftruncate` -/

/-- `(new_size + PAGE_SIZE - 1) / PAGE_SIZE`. -/
def pagesOf (size : ℕ) : ℕ := (size + pageSize - 1) / pageSize

/-- `n` calls of `shm_add_page`, the `i`-th one returning `alloc i`; the pages added and
whether none failed. -/
def addPages (alloc : ℕ → Option ℕ) : ℕ → ℕ → Sys → Option (Sys × List ℕ × Bool)
  | 0, _, s => some (s, [], true)
  | n + 1, i, s =>
    match alloc i with
    | none => some (s, [], false)
    | some f =>
      (s.bfcAllocPage [f]).bind fun s' =>
        (addPages alloc n (i + 1) s').map fun (s'', fs, ok) => (s'', f :: fs, ok)

/-- What the allocators answer during a call of `ftruncate`. -/
structure GrowOracle where
  /-- the first frame of a contiguous block -/
  block : Option ℕ
  /-- `kmalloc` for the page list -/
  list : Bool
  /-- `shm_add_page` -/
  page : ℕ → Option ℕ

/-- The last two branches of growing, for an object with pages. -/
def growPages (s : Sys) (o : Shm) (q : GrowOracle) (size extra : ℕ) :
    Option (Option Errno × Sys) :=
  match o.pageList with
  | none =>
    if o.npages = 0 then
      -- no block was found and no branch is left: the size is set all the same
      some (none, s.setShm { o with fileSize := size })
    else if !q.list then some (some .ENOMEM, s)
    else
      (addPages q.page extra 0 s).map fun (s', fs, ok) =>
        if ok then
          (none, s'.setShm { o with
            phys := 0, npages := 0, pageList := some (o.block ++ fs), fileSize := size })
        else
          -- the new pages go back; the old ones are in no list any more
          (some .ENOMEM, (s'.bfcFreePages fs).setShm { o with
            phys := 0, npages := 0, pageList := none })
  | some old =>
    (addPages q.page extra 0 s).map fun (s', fs, ok) =>
      if ok then (none, s'.setShm { o with pageList := some (old ++ fs), fileSize := size })
      else (some .ENOMEM, s'.bfcFreePages fs)

def grow (s : Sys) (o : Shm) (q : GrowOracle) (size newNpages oldTotal : ℕ) :
    Option (Option Errno × Sys) :=
  if o.sealGrow then some (some .EPERM, s)
  else
    match o.pageList, o.npages, q.block with
    | none, 0, some f =>
      (s.bfcAllocPage ((List.range newNpages).map fun i => f + i)).map fun s' =>
        (none, s'.setShm { o with phys := f, npages := newNpages, fileSize := size })
    | _, _, _ => growPages s o q size (newNpages - oldTotal)

/-- Shrinking an object: the tail goes back to the allocator. -/
def shrink (s : Sys) (o : Shm) (size newNpages : ℕ) : Option Errno × Sys :=
  if o.sealShrink then (some .EPERM, s)
  else
    match o.pageList with
    | some fs =>
      (none, (s.bfcFreePages (fs.drop newNpages)).setShm { o with
        pageList := if newNpages = 0 then none else some (fs.take newNpages)
        fileSize := size })
    | none =>
      (none, (s.bfcFreePages (o.block.drop newNpages)).setShm { o with
        npages := newNpages, fileSize := size })

def Shm.total (o : Shm) : ℕ :=
  match o.pageList with
  | some fs => fs.length
  | none => o.npages

def sysFtruncate (s : Sys) (fid : ℕ) (size : ℤ) (q : GrowOracle) :
    Option (Option Errno × Sys) :=
  match (s.file? fid).bind fun f => s.shm? f.shm with
  | none => some (some .EBADF, s)
  | some o =>
    if size < 0 then some (some .EINVAL, s)
    else
      let newSize := size.toNat
      let newNpages := pagesOf newSize
      if newNpages > o.total then grow s o q newSize newNpages o.total
      else if newNpages < o.total then some (shrink s o newSize newNpages)
      else some (none, s.setShm { o with fileSize := newSize })

/-! ## `mmap` -/

def Sys.leaf? (s : Sys) (as vpn : ℕ) : Option Leaf :=
  s.leaves.find? fun l => l.as = as ∧ l.vpn = vpn

/-- The mapping loop; `blocked i` if `map_user_page_direct` fails for page `i` because of an
entry or a table outside this model. The index of the page that failed, if one did. -/
def mapLoop (blocked : ℕ → Bool) (as vpn : ℕ) : List ℕ → ℕ → Sys → Sys × Option ℕ
  | [], _, s => (s, none)
  | f :: fs, i, s =>
    if blocked i || (s.leaf? as (vpn + i)).isSome then (s, some i)
    else mapLoop blocked as vpn fs (i + 1) { s with leaves := ⟨as, vpn + i, f⟩ :: s.leaves }

/-- `unmap_user_pages` for one page. -/
def unmapUserPage (s : Sys) (as vpn : ℕ) : Sys :=
  match s.leaf? as vpn with
  | none => s
  | some l =>
    let s' := { s with
      leaves := s.leaves.erase l
      refcount := Function.update s.refcount l.frame (s.refcount l.frame - 1) }
    if s.refcount l.frame - 1 = 0 then s'.bfcFreePage l.frame else s'

/-- The rollback of the mapping loop over the first `n` pages. -/
def unmapUserPages (s : Sys) (as vpn n : ℕ) : Sys :=
  (List.range n).foldl (fun s j => unmapUserPage s as (vpn + j)) s

/-- The answers from outside during a call of `mmap`. -/
structure MapOracle where
  blocked : ℕ → Bool
  /-- `kmalloc` for the region -/
  region : Bool

/-- The part of `sys_mmap` from the mapping loop on; `fs` are the frames to map, and the call
holds a reference that the region adopts. -/
def mapShared (s : Sys) (as vpn id : ℕ) (fs : List ℕ) (q : MapOracle) : Option Errno × Sys :=
  match mapLoop q.blocked as vpn fs 0 s with
  | (s', some i) => (some .ENOMEM, (unmapUserPages s' as vpn i).shmPut id)
  | (s', none) =>
    if !q.region then (some .ENOMEM, (unmapUserPages s' as vpn fs.length).shmPut id)
    else (none, { s' with regions := ⟨as, vpn, fs.length, id⟩ :: s'.regions })

/-- `sys_mmap` of a memfd with `MAP_SHARED`, at the address that `vma_pick_addr` chose: no
region of the address space is there. -/
def sysMmap (s : Sys) (as fid offset size vpn : ℕ) (q : MapOracle) :
    Option (Option Errno × Sys) :=
  match (s.file? fid).bind fun f => s.shm? f.shm with
  | none => some (some .EBADF, s)
  | some o =>
    let first := offset / pageSize
    let pages := alignUp size / pageSize
    let s1 := s.shmGet o.id
    if offset % pageSize ≠ 0 ∨ first > o.frames.length ∨ pages > o.frames.length - first then
      some (some .EINVAL, s1.shmPut o.id)
    else if ∃ r ∈ s.regions, r.as = as ∧ r.start < vpn + pages ∧ vpn < r.fin then none
    else some (mapShared s1 as vpn o.id ((o.frames.drop first).take pages) q)

/-! ## `munmap` and `close` -/

/-- `free_one_region` for `[lo, hi)`: the entries are cleared without touching the pages. -/
def clearPtes (s : Sys) (as lo hi : ℕ) : Sys :=
  { s with leaves := s.leaves.filter fun l => ¬(l.as = as ∧ lo ≤ l.vpn ∧ l.vpn < hi) }

/-- The pieces that remain of a region. -/
def Region.rest (r : Region) (lo hi : ℕ) : List Region :=
  (if r.start < lo then [{ r with pages := lo - r.start }] else []) ++
    if hi < r.fin then [{ r with start := hi, pages := r.fin - hi }] else []

/-- One turn of `vma_unmap_range`: the piece `[lo, hi)` of region `r` is split off, each
piece with a reference of its own, and freed. -/
def unmapTurn (s : Sys) (r : Region) (lo hi : ℕ) : Option Sys :=
  if r ∈ s.regions ∧ r.start ≤ lo ∧ lo < hi ∧ hi ≤ r.fin then
    let front := decide (r.start < lo)
    let tail := decide (hi < r.fin)
    let s1 := if front || tail then s.shmGet r.shm else s
    let s2 := if tail then s1.shmGet r.shm else s1
    let s3 := if tail && !front then s2.shmPut r.shm else s2
    let s4 := clearPtes { s3 with regions := r.rest lo hi ++ s3.regions.erase r } r.as lo hi
    some (s4.shmPut r.shm)
  else none

/-- The last `close` of a description. -/
def closeFile (s : Sys) (fid : ℕ) : Sys :=
  match s.file? fid with
  | none => s
  | some f => ({ s with files := s.files.erase f }).shmPut f.shm

/-- `sys_memfd_create`; `id` is the address of the new object, `fid` the new description. -/
def memfdCreate (s : Sys) (id fid : ℕ) (sealGrow sealShrink : Bool) : Option Sys :=
  if (∀ o ∈ s.shms, o.id ≠ id) ∧ ∀ f ∈ s.files, f.id ≠ fid then
    some
      { s with
        shms := ⟨id, 0, 0, none, 0, 1, sealGrow, sealShrink⟩ :: s.shms
        files := ⟨fid, id⟩ :: s.files }
  else none

/-! ## The system -/

inductive Call
  | create (id fid : ℕ) (sealGrow sealShrink : Bool)
  | ftruncate (fid : ℕ) (size : ℤ) (q : GrowOracle)
  | mmap (as fid offset size vpn : ℕ) (q : MapOracle)
  | unmap (r : Region) (lo hi : ℕ)
  | close (fid : ℕ)

def step (s : Sys) : Call → Option Sys
  | .create id fid sealGrow sealShrink => memfdCreate s id fid sealGrow sealShrink
  | .ftruncate fid size q => (sysFtruncate s fid size q).map Prod.snd
  | .mmap as fid offset size vpn q => (sysMmap s as fid offset size vpn q).map Prod.snd
  | .unmap r lo hi => unmapTurn s r lo hi
  | .close fid => some (closeFile s fid)

end XosKernel.Memfd
