/-
# The memory-mapping calls

The model of `sys_mmap`, `sys_munmap` and `sys_mremap` of `kernel/bsd/syscall.c` and of
`dev_mmap_commit` of `kernel/bsd/dev_mmap.c`. What a file descriptor stands for is an
argument of the call; references to files, inodes and shared memory are not counted here.
-/
import XosKernel.Mem.Place

namespace XosKernel.Mmap

open Vma

/-! ## Flags -/

def mapShared : ℕ := 0x01

def mapPrivate : ℕ := 0x02

def mapUc : ℕ := 0x08

def mapFixed : ℕ := 0x10

def mapAnonymous : ℕ := 0x20

def mapFixedNoreplace : ℕ := 0x100000

def mapPhysical : ℕ := 0x80000000

def mapKnownFlags : ℕ :=
  mapShared ||| mapPrivate ||| mapFixed ||| mapFixedNoreplace ||| mapAnonymous ||| 0x100 |||
    0x200 ||| 0x2000 ||| 0x4000 ||| 0x8000 ||| 0x20000 ||| 0x40000 ||| mapPhysical ||| mapUc

def mremapMaymove : ℕ := 1

def mremapFixed : ℕ := 2

def protWrite : ℕ := 2

def hasFlag (flags flag : ℕ) : Bool := flags &&& flag != 0

def maxFd : ℤ := 1024

/-- `fixed` of `sys_mmap`. -/
def isFixed (flags : ℕ) : Bool := hasFlag flags mapFixed || hasFlag flags mapFixedNoreplace

/-! ## Unmapping -/

/-- Whether a leaf entry belongs to a region that is released. -/
def released (log : List Effect) (s : ℕ) : Bool :=
  log.any fun
    | .release r =>
      (List.range (r.size / pageSize)).any fun i => slot (u64 (r.vaddr + i * pageSize)) == s
    | _ => false

/-- `vma_unmap_range`, with the leaf entries of the regions it releases. -/
def unmapRange (oracle : ℕ → Bool) (mm : Mm) (addr len : ℕ) : Option Errno × Mm :=
  let (e, regions, c) := vmaUnmapRange oracle ⟨mm.allocs, []⟩ mm.regions addr len
  (e, { mm with
        regions := regions
        allocs := c.allocs
        leaf := fun s => mm.leaf s && !released c.log s })

def vmaPickAddr (oracle : ℕ → Bool) (mm : Mm) (addr len flags hint : ℕ) : Ret × Mm :=
  if hasFlag flags mapFixed then
    if overlapsSignalTrampoline addr len then (.err .EINVAL, mm)
    else
      match unmapRange oracle mm addr len with
      | (some e, mm) => (.err e, mm)
      | (none, mm) => (.ofAddr addr, mm)
  else if hasFlag flags mapFixedNoreplace then
    if vmaOverlapsAny mm.regions addr len then (.err .EEXIST, mm) else (.ofAddr addr, mm)
  else
    let v := vmaFindGap mm len hint
    if v = 0 then (.err .ENOMEM, mm) else (.ofAddr v, mm)

def mmapAdvanceBrk (mm : Mm) (requestedAddr flags vaddr size : ℕ) : Mm :=
  if !isFixed flags ∧ (requestedAddr = 0 ∨ vaddr = mm.mmapBrk)
  then { mm with mmapBrk := u64 (vaddr + size) } else mm

/-! ## Mapping -/

/-- A region without backing; members that the code does not set are zero. -/
def newRegion (vaddr size prot flags : ℕ) (fd : ℤ) (offset : ℕ) : Region where
  vaddr := vaddr
  size := size
  phys := 0
  shmObj := none
  prot := prot
  fd := fd
  offset := offset
  flags := flags
  inode := none
  shmPrivateSrc := none
  owner := none
  raLastPage := 0
  raNextPage := 0
  raWindowPages := 0
  raSequentialFaults := 0

/-- The arguments of `mmap` as the functions below `sys_mmap` get them. -/
structure Request where
  addr : ℕ
  size : ℕ
  prot : ℕ
  flags : ℕ
  fd : ℤ
  offset : ℕ
  hint : ℕ

/-- `vma_pick_addr` for a request. -/
def Request.pick (oracle : ℕ → Bool) (q : Request) (mm : Mm) : Ret × Mm :=
  vmaPickAddr oracle mm q.addr q.size q.flags q.hint

/-- `mmap_place_file_region`, with the backing that its callers set afterwards. -/
def mmapPlaceFileRegion (oracle : ℕ → Bool) (mm : Mm) (q : Request)
    (inode shmPrivateSrc : Option ℕ) : Ret × Mm :=
  match mm.alloc oracle with
  | (false, mm) => (.err .ENOMEM, mm)
  | (true, mm) =>
      match q.pick oracle mm with
      | (.ok vaddr, mm) =>
          let region := vmaResetReadahead
            { newRegion vaddr q.size q.prot q.flags q.fd q.offset with inode, shmPrivateSrc }
          match vmaInsertSorted region mm.regions with
          | none => (.err .ENOMEM, mm)
          | some L =>
              (.ok vaddr, mmapAdvanceBrk { mm with regions := L } q.addr q.flags vaddr q.size)
      | (r, mm) => (r, mm)

/-- The mapping loop: get a page with `fetch` and map it, until one of the two fails. The
result is the number of pages mapped. -/
def mapLoop (oracle : ℕ → Bool) (fetch : ℕ → Mm → Bool × Mm) (vaddr : ℕ) :
    ℕ → ℕ → Mm → ℕ × Mm
  | 0, i, mm => (i, mm)
  | n + 1, i, mm =>
      match fetch i mm with
      | (false, mm) => (i, mm)
      | (true, mm) =>
          match mapUserPageDirect oracle mm (u64 (vaddr + i * pageSize)) with
          | (false, mm) => (i, mm)
          | (true, mm) => mapLoop oracle fetch vaddr n (i + 1) mm

/-- Map the pages of a new region and insert it. `checked` says whether the code looks at
the result of `vma_insert_sorted`. -/
def mapAndInsert (oracle : ℕ → Bool) (mm : Mm) (fetch : ℕ → Mm → Bool × Mm) (checked : Bool)
    (vaddr npages : ℕ) (region : Region) : Bool × Mm :=
  match mapLoop oracle fetch vaddr npages 0 mm with
  | (mapped, mm) =>
      if mapped ≠ npages then (false, clearPages vaddr mapped mm)
      else
        match mm.alloc oracle with
        | (false, mm) => (false, clearPages vaddr npages mm)
        | (true, mm) =>
            match vmaInsertSorted region mm.regions with
            | some L => (true, { mm with regions := L })
            | none => if checked then (false, clearPages vaddr npages mm) else (true, mm)

def mapExisting (oracle : ℕ → Bool) (mm : Mm) (q : Request) (has : ℕ → Bool) (checked : Bool)
    (region : ℕ → Region) : Ret × Mm :=
  match q.pick oracle mm with
  | (.ok vaddr, mm) =>
      match mapAndInsert oracle mm (fun i mm => (has i, mm)) checked vaddr (q.size / pageSize)
        (region vaddr) with
      | (false, mm) => (.err .ENOMEM, mm)
      | (true, mm) => (.ok vaddr, mmapAdvanceBrk mm q.addr q.flags vaddr q.size)
  | (r, mm) => (r, mm)

/-- A shared memory object: its identity, its contiguous pages, and the length of its page
list if it has one. -/
structure ShmInfo where
  id : ℕ
  npages : ℕ
  numPages : Option ℕ

/-- What a file descriptor stands for. -/
inductive FileKind
  /-- A file with `mmap_prepare`: the result of that hook, the pages it gives, whether they
  are uncached, and whether the descriptor is a device (`FD_DEV`). -/
  | prepared (rc : Option Errno) (owner : Option ℕ) (pages : List Bool) (uc isDev : Bool)
  /-- Another device, with the shared memory of its inode. -/
  | device (shm : Option ShmInfo)
  /-- `FD_SHM`. -/
  | memfd (shm : Option ShmInfo)
  /-- A regular file of a tmpfs: inode, size, opened for writing, and `tmpfs_get_shm`. -/
  | tmpfs (size : ℕ) (writable : Bool) (shm : Option ShmInfo)
  /-- Another regular file. -/
  | regular (inode size : ℕ)
  | other

def shmRegion (q : Request) (shm : ℕ) (vaddr : ℕ) : Region :=
  { newRegion vaddr q.size q.prot
      (if hasFlag q.flags mapShared && hasFlag q.prot protWrite
       then q.flags ||| kmapShmMaywrite else q.flags) q.fd q.offset with
    shmObj := some shm }

def devMmapCommit (oracle : ℕ → Bool) (mm : Mm) (q : Request) (owner : Option ℕ)
    (pages : List Bool) (uc : Bool) : Ret × Mm :=
  if owner = none ∨ q.size = 0 ∨ q.size % pageSize ≠ 0 ∨ pages.length ≠ q.size / pageSize then
    (.err .EINVAL, mm)
  else
    let q := { q with hint := if q.addr = 0 then 0 else alignDown q.addr }
    mapExisting oracle mm q (fun i => pages.getD i false) true fun vaddr =>
      { newRegion vaddr q.size q.prot
          ((if uc then q.flags ||| mapUc else q.flags) ||| kmapVmaOwner) (-1) q.offset with
        owner }

/-- The `MAP_SHARED` mapping of the shared memory of a memfd or a device. -/
def mmapShm (oracle : ℕ → Bool) (mm : Mm) (q : Request) (s : ShmInfo) : Ret × Mm :=
  let listPages := s.numPages.getD 0
  let totalPages := s.npages + listPages
  let firstPage := q.offset / pageSize
  if 2 ^ 64 - 1 - listPages < s.npages then (.err .EINVAL, mm)
  else if totalPages < firstPage ∨ totalPages - firstPage < q.size / pageSize then
    (.err .EINVAL, mm)
  else mapExisting oracle mm q (fun _ => true) false (shmRegion q s.id)

def sysMmapTmpfsShared (oracle : ℕ → Bool) (mm : Mm) (q : Request) (size : ℕ) (writable : Bool)
    (shm : Option ShmInfo) : Ret × Mm :=
  if q.offset % pageSize ≠ 0 ∨ size ≤ q.offset then (.err .EINVAL, mm)
  else if hasFlag q.prot protWrite && !writable then (.err .EACCES, mm)
  else
    match shm with
    | none => (.err .ENOMEM, mm)
    | some s =>
        if s.numPages.getD s.npages < q.offset / pageSize + q.size / pageSize then
          (.err .EINVAL, mm)
        else mapExisting oracle mm q (fun _ => true) true (shmRegion q s.id)

def sysMmapShmPrivate (oracle : ℕ → Bool) (mm : Mm) (q : Request) (shm : Option ShmInfo) :
    Ret × Mm :=
  match shm with
  | none => (.err .EBADF, mm)
  | some s =>
      if s.numPages.getD s.npages * pageSize < u64 (q.offset + q.size) then (.err .EINVAL, mm)
      else mmapPlaceFileRegion oracle mm q none (some s.id)

/-- `sys_mmap_file_backed`; `none` is the return to `sys_mmap` with `-ENOSYS`. -/
def sysMmapFileBacked (oracle : ℕ → Bool) (mm : Mm) (q : Request) (file : Option FileKind) :
    Option (Ret × Mm) :=
  if maxFd ≤ q.fd then some (.err .EBADF, mm)
  else
    match file with
    | none => some (.err .EBADF, mm)
    | some (.memfd shm) =>
        if hasFlag q.flags mapShared then none else some (sysMmapShmPrivate oracle mm q shm)
    | some (.device _) => none
    | some (.prepared _ _ _ _ isDev) => if isDev then none else some (.err .EINVAL, mm)
    | some .other => some (.err .EINVAL, mm)
    | some (.tmpfs size writable shm) =>
        if hasFlag q.flags mapShared then
          some (sysMmapTmpfsShared oracle mm q size writable shm)
        else if q.offset % pageSize ≠ 0 ∨ (size ≤ q.offset ∧ size ≠ 0) then
          some (.err .EINVAL, mm)
        else
          match shm with
          | none => some (.err .ENOMEM, mm)
          | some s => some (mmapPlaceFileRegion oracle mm q none (some s.id))
    | some (.regular inode size) =>
        if q.offset % pageSize ≠ 0 ∨ (size ≤ q.offset ∧ size ≠ 0) then some (.err .EINVAL, mm)
        else some (mmapPlaceFileRegion oracle mm q (some inode) none)

/-- What the `MAP_PHYSICAL` branch reads of the machine: the end of memory and the physical
range of the kernel image. -/
structure Machine where
  maxPhysAddr : ℕ
  kernelPhysStart : ℕ
  kernelPhysEnd : ℕ

/-- `phys_end - phys_start` of the `MAP_PHYSICAL` branch. -/
def physSpan (offset size : ℕ) : ℕ :=
  u64Sub (alignUp (u64 (offset + size))) (alignDown offset)

/-- The `MAP_PHYSICAL` branch of `sys_mmap`. -/
def mmapPhysical (hw : Machine) (oracle : ℕ → Bool) (mm : Mm) (q : Request) : Ret × Mm :=
  let vaddr := mm.mmapPhysBrk
  let physStart := alignDown q.offset
  let npages := physSpan q.offset q.size / pageSize
  if hw.kernelPhysStart ≤ physStart ∧ physStart < hw.kernelPhysEnd then (.err .EINVAL, mm)
  else if hasFlag q.flags mapUc ∧ 0x100000000 ≤ physStart then (.err .EINVAL, mm)
  else if ¬hasFlag q.flags mapUc ∧ hw.maxPhysAddr ≤ physStart then (.err .EINVAL, mm)
  else
    match mapAndInsert oracle mm (fun _ mm => (true, mm)) false vaddr npages
      { newRegion vaddr (npages * pageSize) 0 q.flags (-1) q.offset with phys := physStart } with
    | (false, mm) => (.err .ENOMEM, mm)
    | (true, mm) => (.ok vaddr, { mm with mmapPhysBrk := u64 (vaddr + npages * pageSize) })

/-- The anonymous branch of `sys_mmap`. -/
def mmapAnonymous (oracle : ℕ → Bool) (mm : Mm) (q : Request) : Ret × Mm :=
  match q.pick oracle mm with
  | (.ok vaddr, mm) =>
      match mm.alloc oracle with
      | (false, mm) => (.err .ENOMEM, mm)
      | (true, mm) =>
          match mapAndInsert oracle mm (fun _ mm => mm.alloc oracle) false vaddr
            (q.size / pageSize) (newRegion vaddr q.size q.prot q.flags q.fd q.offset) with
          | (false, mm) => (.err .ENOMEM, mm)
          | (true, mm) => (.ok vaddr, mmapAdvanceBrk mm q.addr q.flags vaddr q.size)
  | (r, mm) => (r, mm)

/-- The `MAP_SHARED` branch of `sys_mmap` for a descriptor. -/
def mmapSharedFd (oracle : ℕ → Bool) (mm : Mm) (q : Request) (file : Option FileKind) :
    Ret × Mm :=
  if maxFd ≤ q.fd then (.err .EBADF, mm)
  else
    match file with
    | some (.device (some s)) => mmapShm oracle mm q s
    | some (.device none) => (.err .ENODEV, mm)
    | some (.prepared _ _ _ _ true) => (.err .ENODEV, mm)
    | some (.memfd (some s)) =>
        if q.offset % pageSize ≠ 0 then (.err .EINVAL, mm) else mmapShm oracle mm q s
    | some (.memfd none) => (.err .EBADF, mm)
    | _ => (.err .EINVAL, mm)

/-- `sys_mmap` after the lock is taken. -/
def mmapDispatch (hw : Machine) (oracle : ℕ → Bool) (mm : Mm) (q : Request)
    (file : Option FileKind) : Ret × Mm :=
  let backed :=
    if 0 ≤ q.fd ∧ ¬hasFlag q.flags mapAnonymous ∧ hasFlag q.flags (mapPrivate ||| mapShared)
    then sysMmapFileBacked oracle mm q file else none
  match backed with
  | some res => res
  | none =>
      if hasFlag q.flags mapShared ∧ 0 ≤ q.fd then mmapSharedFd oracle mm q file
      else if hasFlag q.flags mapPhysical then mmapPhysical hw oracle mm q
      else mmapAnonymous oracle mm q

/-- `sys_mmap_device_prepared`; `none` is `-ENOSYS`. -/
def sysMmapDevicePrepared (oracle : ℕ → Bool) (mm : Mm) (q : Request) (file : Option FileKind) :
    Option (Ret × Mm) :=
  if ¬hasFlag q.flags mapShared ∨ q.fd < 0 then none
  else if maxFd ≤ q.fd then some (.err .EBADF, mm)
  else
    match file with
    | none => some (.err .EBADF, mm)
    | some (.prepared (some e) _ _ _ _) => some (.err e, mm)
    | some (.prepared none owner pages uc _) => some (devMmapCommit oracle mm q owner pages uc)
    | some _ => none

/-- The hint of `sys_mmap`: the address, rounded down, unless it is fixed. -/
def mmapHint (addr flags : ℕ) : ℕ := if !isFixed flags ∧ addr ≠ 0 then alignDown addr else 0

def sysMmap (hw : Machine) (oracle : ℕ → Bool) (mm : Mm) (addr size prot flags : ℕ) (fd : ℤ)
    (offset : ℕ) (file : Option FileKind) : Ret × Mm :=
  if size = 0 then (.err .EINVAL, mm)
  else if flags ||| mapKnownFlags ≠ mapKnownFlags then (.err .EINVAL, mm)
  else if 2 ^ 64 - 1 - (pageSize - 1) < size then (.err .ENOMEM, mm)
  else if 0 ≤ fd ∧ ¬hasFlag flags mapAnonymous ∧ offset % pageSize ≠ 0 then (.err .EINVAL, mm)
  else if isFixed flags ∧ addr % pageSize ≠ 0 then (.err .EINVAL, mm)
  else
    let q : Request :=
      { addr, size := alignUp size, prot, flags, fd, offset, hint := mmapHint addr flags }
    match sysMmapDevicePrepared oracle mm q file with
    | some res => res
    | none => mmapDispatch hw oracle mm q file

end XosKernel.Mmap
