/-
# The slab allocator

The model of `kernel/xcore/mem/slab.c`. A slab page is cut into objects of its cache's
size; free objects form an intrusive list through their first eight bytes, so the list
lives in the same memory that callers write to.

`struct page` is a union of the `bfc` and the `slab` fields. The page allocator writes the
descriptors of free blocks and of the block it is called on, the slab code those of the
pages it has initialised; since these are never the same page, the two halves are kept as
two maps, and only `status` is shared.

A call takes effect in two steps where the code does part of its work before it takes the
lock: `kmalloc` reads the active slab of its CPU first, and `kfree` looks up the page
first. Statistics, poisoning and the address sanitizer hooks are left out; poisoning
writes to objects whose holder may write to them anyway.
-/
import XosKernel.Mem.BfcRun
import XosKernel.Lib.Bytes

namespace XosKernel.Slab

open Bytes FreeList
open Bfc (Mem PageStatus)

/-- `VMA_BASE`: where physical memory is mapped. -/
def vmaBase : ℕ := 0xFFFFFF8000000000

/-- `phys_to_virt(page_to_phys(page))`. -/
def pageData (page : ℕ) : ℕ := vmaBase + page * pageSize

/-- `PHY_TO_PAGE(PHY_ADDR(addr))`. -/
def pageOf (addr : ℕ) : ℕ := (addr - vmaBase) / pageSize

def classSizes : List ℕ := [8, 16, 32, 64, 128, 256, 512, 1024, 2048]

def sizeToClass (size : ℕ) : ℕ :=
  if size ≤ 8 then 0
  else if size ≤ 16 then 1
  else if size ≤ 32 then 2
  else if size ≤ 64 then 3
  else if size ≤ 128 then 4
  else if size ≤ 256 then 5
  else if size ≤ 512 then 6
  else if size ≤ 1024 then 7
  else 8

/-- The object sizes of all caches: the classes of `kmalloc` first, then those made by
`kmem_cache_create`. Its callers keep the contract stated above `kmem_cache_create`: a page
holds at least two objects, and a free object has room for a pointer. -/
structure Caches where
  objSize : ℕ → ℕ
  classes : ∀ c, c < 9 → objSize c = classSizes.getD c 0
  room : ∀ c, 8 ≤ objSize c
  two : ∀ c, objSize c ≤ pageSize / 2

/-- The `slab` member of `struct page`; a null `freelist` is `0`. -/
structure SlabPage where
  cache : ℕ
  freelist : ℕ
  inuse : ℕ
  objCount : ℕ
  cpuId : ℤ
  partialNext : Option ℕ
  partialPrev : Option ℕ

/-- The data the slab code works on. `slabPages` lists the pages it has initialised. -/
structure Slabs where
  mem : Mem
  slab : ℕ → SlabPage
  partialHead : ℕ → Option ℕ
  activeSlab : ℕ → ℕ → Option ℕ
  bytes : ℕ → ℕ
  slabPages : List ℕ

namespace Slabs

/-- Overwrite the `slab` fields of a page. -/
def modify (s : Slabs) (page : ℕ) (f : SlabPage → SlabPage) : Slabs :=
  { s with slab := fun i => if i = page then f (s.slab i) else s.slab i }

def setPartial (s : Slabs) (c : ℕ) (p : Option ℕ) : Slabs :=
  { s with partialHead := fun d => if d = c then p else s.partialHead d }

def setActive (s : Slabs) (cpu c page : ℕ) : Slabs :=
  { s with
    activeSlab := fun k d => if k = cpu ∧ d = c then some page else s.activeSlab k d }

end Slabs

/-- `base + i * cache->obj_size`. -/
def slot (K : Caches) (c page i : ℕ) : ℕ := pageData page + i * K.objSize c

/-- The loop of `slab_page_init` over the first `k` objects: memory and list head. -/
def buildFreelist (K : Caches) (c page : ℕ) (bytes : ℕ → ℕ) : ℕ → (ℕ → ℕ) × ℕ
  | 0 => (bytes, 0)
  | k + 1 =>
      let (bytes, freelist) := buildFreelist K c page bytes k
      (writeLE bytes 8 (slot K c page k) freelist, slot K c page k)

def slabPageInit (K : Caches) (s : Slabs) (page c : ℕ) (cpuId : ℤ) : Slabs :=
  let objCount := pageSize / K.objSize c
  let (bytes, freelist) := buildFreelist K c page s.bytes objCount
  { s with
    mem := s.mem.modify page fun pg => { pg with status := .slab }
    slab := fun i =>
      if i = page then ⟨c, freelist, 0, objCount, cpuId, none, none⟩ else s.slab i
    bytes := bytes
    slabPages := page :: s.slabPages }

def partialAdd (s : Slabs) (c page : ℕ) : Slabs :=
  let head := s.partialHead c
  let s := s.modify page fun pg => { pg with partialNext := head, partialPrev := none }
  let s :=
    match head with
    | none => s
    | some q => s.modify q fun pg => { pg with partialPrev := some page }
  s.setPartial c (some page)

def partialRemove (s : Slabs) (c page : ℕ) : Slabs :=
  let s :=
    match (s.slab page).partialPrev with
    | some q => s.modify q fun pg => { pg with partialNext := (s.slab page).partialNext }
    | none => s.setPartial c (s.slab page).partialNext
  let s :=
    match (s.slab page).partialNext with
    | some q => s.modify q fun pg => { pg with partialPrev := (s.slab page).partialPrev }
    | none => s
  s.modify page fun pg => { pg with partialNext := none, partialPrev := none }

/-- The loop over the partial list: drop full pages until a page with a free object is
found; it is removed as well and returned. `none` when `fuel` pages did not suffice. -/
def partialPop (c : ℕ) : ℕ → Slabs → Option (Option ℕ × Slabs)
  | 0, _ => none
  | fuel + 1, s =>
      match s.partialHead c with
      | none => some (none, s)
      | some page =>
          if (s.slab page).freelist = 0 then partialPop c fuel (partialRemove s c page)
          else some (some page, partialRemove s c page)

/-- A bound for the loop above, see `partialPop_isSome`. -/
def partialFuel (s : Slabs) : ℕ := s.slabPages.length + 3

def takeObj (s : Slabs) (page : ℕ) : ℕ × Slabs :=
  let obj := (s.slab page).freelist
  (obj, s.modify page fun pg =>
    { pg with freelist := readLE s.bytes 8 obj, inuse := (pg.inuse + 1) % 2 ^ 32 })

/-- The locked section of `kmalloc` for a small size; `active` was read before the lock. -/
def kmallocLocked (K : Caches) (s : Slabs) (cpu c : ℕ) (active : Option ℕ) :
    Option (Option ℕ × Slabs) :=
  match active.filter fun p => (s.slab p).freelist ≠ 0 with
  | some p => let (obj, s) := takeObj s p; some (some obj, s)
  | none =>
      match partialPop c (partialFuel s) s with
      | none => none
      | some (some page, s) =>
          let s := s.modify page fun pg => { pg with cpuId := cpu }
          let s := s.setActive cpu c page
          let (obj, s) := takeObj s page
          some (some obj, s)
      | some (none, s) =>
          match Bfc.bfcAllocPage s.mem 1 with
          | none => none
          | some (none, m) => some (none, { s with mem := m })
          | some (some page, m) =>
              let s := slabPageInit K { s with mem := m } page c cpu
              let s := s.setActive cpu c page
              let (obj, s) := takeObj s page
              some (some obj, s)

def kmemCacheAlloc (K : Caches) (s : Slabs) (c : ℕ) : Option (Option ℕ × Slabs) :=
  match partialPop c (partialFuel s) s with
  | none => none
  | some (some page, s) => let (obj, s) := takeObj s page; some (some obj, s)
  | some (none, s) =>
      match Bfc.bfcAllocPage s.mem 1 with
      | none => none
      | some (none, m) => some (none, { s with mem := m })
      | some (some page, m) =>
          let s := slabPageInit K { s with mem := m } page c (-1)
          let (obj, s) := takeObj s page
          some (some obj, partialAdd s c page)

/-- The locked section of `kfree` and of `kmem_cache_free`, for the cache whose lock is
held. -/
def freeObj (s : Slabs) (c obj : ℕ) : Slabs :=
  let page := pageOf obj
  let s := { s with bytes := writeLE s.bytes 8 obj (s.slab page).freelist }
  let s := s.modify page fun pg =>
    { pg with freelist := obj, inuse := (pg.inuse + (2 ^ 32 - 1)) % 2 ^ 32 }
  if (s.slab page).inuse = (s.slab page).objCount - 1 then partialAdd s c page else s

/-! ## The system -/

/-- A call of `kfree` or `kmem_cache_free` that has looked up the page and not yet taken the
lock. -/
inductive FreeCall
  | large (b : Block)
  | slab (c obj : ℕ)
deriving DecidableEq

def FreeCall.obj? : FreeCall → Option ℕ
  | .slab _ obj => some obj
  | .large _ => none

def FreeCall.block? : FreeCall → Option Block
  | .slab _ _ => none
  | .large b => some b

/-- The allocator, what its callers hold (`objs` are slab objects, `blocks` large
allocations, `other` pages held by users of the page allocator) and the calls in
progress. -/
structure State where
  k : Slabs
  objs : List ℕ
  blocks : List Block
  other : List Block
  mallocs : List (ℕ × ℕ × Option ℕ)
  frees : List FreeCall

/-- The slab objects that are not free: held by a caller or about to be freed. -/
def State.held (s : State) : List ℕ := s.objs ++ s.frees.filterMap FreeCall.obj?

/-- The blocks that are not free, other than slab pages. -/
def State.heldBlocks (s : State) : List Block :=
  s.blocks ++ s.frees.filterMap FreeCall.block? ++ s.other

/-- The steps of callers on all CPUs. `kmallocLocked` and `freeLocked` name the call in
progress by its position. -/
inductive Action
  | kmallocBegin (cpu size : ℕ)
  | kmallocLocked (i : ℕ)
  | kmallocLarge (size : ℕ)
  | kmemCacheAlloc (c : ℕ)
  | kfreeObj (obj : ℕ)
  | kfreeBlock (b : Block)
  | kmemCacheFree (c obj : ℕ)
  | freeLocked (i : ℕ)
  | store (obj : ℕ) (f : ℕ → ℕ)
  | storeBlock (b : Block) (f : ℕ → ℕ)
  | allocPages (n : ℕ)
  | allocPagesLow (n : ℕ)
  | freePages (b : Block)

/-- The bytes of an object or block are overwritten by `f`. -/
def fill (bytes : ℕ → ℕ) (a n : ℕ) (f : ℕ → ℕ) (x : ℕ) : ℕ :=
  if a ≤ x ∧ x < a + n then f x else bytes x

/-- What `kfree` finds at the address of a live allocation. -/
def lookup (s : Slabs) (addr : ℕ) : Option FreeCall :=
  let page := pageOf addr
  match (s.mem.bfcFrames page).status with
  | .used => some (.large ⟨page, (s.mem.bfcFrames page).contPageNum⟩)
  | .slab => some (.slab (s.slab page).cache addr)
  | _ => none

/-- One step. A caller frees only what it holds, and frees a dedicated cache's object to
that cache. -/
def step (K : Caches) (s : State) : Action → Option State
  | .kmallocBegin cpu size =>
      if 0 < size ∧ size ≤ 2048 then
        let c := sizeToClass size
        some { s with mallocs := (cpu, c, s.k.activeSlab cpu c) :: s.mallocs }
      else none
  | .kmallocLocked i =>
      match s.mallocs[i]? with
      | none => none
      | some (cpu, c, active) =>
          (kmallocLocked K s.k cpu c active).map fun (r, k) =>
            { s with k := k, objs := r.toList ++ s.objs, mallocs := s.mallocs.eraseIdx i }
  | .kmallocLarge size =>
      if 2048 < size then
        let npages := u64 (size + (pageSize - 1)) / pageSize
        (Bfc.bfcAllocPage s.k.mem npages).map fun (r, m) =>
          { s with
            k := { s.k with mem := m }
            blocks := (r.map fun p => ⟨p, npages⟩).toList ++ s.blocks }
      else none
  | .kmemCacheAlloc c =>
      (kmemCacheAlloc K s.k c).map fun (r, k) => { s with k := k, objs := r.toList ++ s.objs }
  | .kfreeObj obj =>
      if obj ∈ s.objs then
        some { s with
          objs := s.objs.erase obj
          frees := (lookup s.k obj).toList ++ s.frees }
      else none
  | .kfreeBlock b =>
      if b ∈ s.blocks then
        some { s with
          blocks := s.blocks.erase b
          frees := (lookup s.k (pageData b.start)).toList ++ s.frees }
      else none
  | .kmemCacheFree c obj =>
      if obj ∈ s.objs ∧ (s.k.slab (pageOf obj)).cache = c then
        if (s.k.mem.bfcFrames (pageOf obj)).status = .slab then
          some { s with objs := s.objs.erase obj, frees := .slab c obj :: s.frees }
        else some { s with objs := s.objs.erase obj }
      else none
  | .freeLocked i =>
      match s.frees[i]? with
      | none => none
      | some (.slab c obj) =>
          some { s with k := freeObj s.k c obj, frees := s.frees.eraseIdx i }
      | some (.large b) =>
          (Bfc.bfcFreePage s.k.mem (some b.start) b.len).map fun (_, m) =>
            { s with k := { s.k with mem := m }, frees := s.frees.eraseIdx i }
  | .store obj f =>
      if obj ∈ s.held then
        some { s with
          k := { s.k with
            bytes := fill s.k.bytes obj (K.objSize (s.k.slab (pageOf obj)).cache) f } }
      else none
  | .storeBlock b f =>
      if b ∈ s.heldBlocks then
        some { s with
          k := { s.k with
            bytes := fill s.k.bytes (pageData b.start) (b.len * pageSize) f } }
      else none
  | .allocPages n =>
      (Bfc.bfcAllocPage s.k.mem n).map fun (r, m) =>
        { s with
          k := { s.k with mem := m }
          other := (r.map fun p => ⟨p, n⟩).toList ++ s.other }
  | .allocPagesLow n =>
      (Bfc.bfcAllocPageLow s.k.mem n).map fun (r, m) =>
        { s with
          k := { s.k with mem := m }
          other := (r.map fun p => ⟨p, n⟩).toList ++ s.other }
  | .freePages b =>
      if b ∈ s.other then
        (Bfc.bfcFreePage s.k.mem (some b.start) b.len).map fun (_, m) =>
          { s with k := { s.k with mem := m }, other := s.other.erase b }
      else none

end XosKernel.Slab
