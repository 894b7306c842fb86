/-
# The pages and the bytes of a memfd

`sys_ftruncate`, `sys_fallocate` and the memfd part of `sys_write` (`bsd/syscall.c`) with
`shm_add_page` (`xcore/ipc.c`), for one object together with what its pages hold. The object
has two representations, a contiguous block and a list of pages whose array is reallocated
every sixteen entries; growing a block converts it into a list.

`Mem/Shm.lean` has the same objects with their mappings; here the memory of the pages, the
room of the array and the position of the open file are part of the state instead. Addresses
are page numbers. What the calls cannot decide is an argument: the answers of the page
allocator and of `kmalloc`, and how many bytes of the caller's buffer can be read.
-/
import XosKernel.Lib.Paged
import XosKernel.Mem.Shm

namespace XosKernel.MemfdData

open Memfd (Shm GrowOracle pagesOf)

/-! ## State -/

/-- The open file: `O_WRONLY | O_RDWR`, `O_APPEND` and `f->offset`. -/
structure OpenFile where
  writable : Bool
  append : Bool
  offset : ℕ
deriving DecidableEq

structure State extends Shm where
  /-- entries that the array behind `page_list` has room for -/
  cap : ℕ
  sealWrite : Bool
  file : OpenFile
  /-- the frames the page allocator has handed out, to this object or to others -/
  live : ℕ → Bool
  byte : ℕ → ℕ → UInt8
  /-- an entry was written behind the end of the array -/
  overrun : Bool

/-- `sys_memfd_create`, in a system whose other pages are given. -/
def State.create (live : ℕ → Bool) (byte : ℕ → ℕ → UInt8) : State where
  id := 0
  phys := 0
  npages := 0
  pageList := none
  fileSize := 0
  sCount := 1
  sealGrow := false
  sealShrink := false
  cap := 0
  sealWrite := false
  file := ⟨true, false, 0⟩
  live := live
  byte := byte
  overrun := false

/-- The page at an index: `page_list ? page_list[i] : phys + i * PAGE_SIZE`. -/
def State.pageAt (s : State) (i : ℕ) : ℕ :=
  match s.pageList with
  | some fs => fs.getD i 0
  | none => s.phys + i

/-- The pages recorded in the object, in order. -/
def State.pages (s : State) : List ℕ := s.pageList.getD s.block

/-- The entries of the array. -/
def State.listed (s : State) : List ℕ := s.pageList.getD []

/-- The byte at a position of the file, if there is a page for it. -/
def State.look (s : State) (p : ℕ) : Option UInt8 := Paged.look pageSize s.pages s.byte p

/-! ## The allocators -/

def totalFrames : ℕ := directMapMax / pageSize

/-- `bfc_alloc_page(n)` returning the frames `fs`. -/
def State.bfcAllocPage (s : State) (fs : List ℕ) : Option State :=
  if fs.Nodup ∧ ∀ f ∈ fs, f < totalFrames ∧ s.live f = false then
    some { s with live := fun f => s.live f || fs.contains f }
  else none

def State.bfcFreePages (s : State) (fs : List ℕ) : State :=
  { s with live := fun f => s.live f && !fs.contains f }

/-- `__memset` of whole pages to zero. -/
def State.zeroPages (s : State) (fs : List ℕ) : State :=
  { s with byte := fun f i => if fs.contains f then 0 else s.byte f i }

/-- What the allocators answer during a call: `array` is `kmalloc` for the array of the
`i`-th call of `shm_add_page`. -/
structure Oracle extends GrowOracle where
  array : ℕ → Bool

/-- `shm_add_page`: the page, or 0. -/
def State.shmAddPage (s : State) (q : Oracle) (i : ℕ) : Option (State × ℕ) :=
  match q.page i with
  | none => some (s, 0)
  | some f =>
    (s.bfcAllocPage [f]).map fun s =>
      let s := s.zeroPages [f]
      match s.pageList with
      | none =>
        if q.array i then ({ s with pageList := some [], cap := 16 }, f)
        else (s.bfcFreePages [f], 0)
      | some fs =>
        if fs.length > 0 ∧ fs.length % 16 = 0 then
          if q.array i then ({ s with cap := fs.length + 16 }, f)
          else (s.bfcFreePages [f], 0)
        else (s, f)

/-- `page_list[num_pages++] = pphys`. -/
def State.push (s : State) (f : ℕ) : State :=
  { s with
    pageList := some (s.listed ++ [f])
    overrun := s.overrun || decide (s.cap ≤ s.listed.length) }

/-- The loop that adds pages: the state, the loop counter at the end and whether no call
failed. -/
def addPages (q : Oracle) : ℕ → ℕ → State → Option (State × ℕ × Bool)
  | 0, i, s => some (s, i, true)
  | n + 1, i, s =>
    (s.shmAddPage q i).bind fun (s', pphys) =>
      if pphys = 0 then some (s', i, false) else addPages q n (i + 1) (s'.push pphys)

/-! ## `ftruncate` -/

/-- `list_cap` for `total` pages: the rounded number as an `int`, at least 16. -/
def listCap (total : ℕ) : ℕ :=
  let cap := (total + 15) / 16 * 16 % 2 ^ 32
  if 2 ^ 31 ≤ cap ∨ cap < 16 then 16 else cap

/-- The block becomes a list in an array with room for `cap` entries. -/
def State.toList (s : State) (cap : ℕ) : State :=
  { s with
    pageList := some s.block
    phys := 0
    npages := 0
    cap := cap
    overrun := s.overrun || decide (cap < s.npages) }

/-- Give the last `i` entries of the array back. -/
def State.freeLast (s : State) (i : ℕ) : State :=
  s.bfcFreePages (s.listed.drop (s.listed.length - i))

/-- The branches of growing for an object that has pages. -/
def State.growPages (s : State) (q : Oracle) (size extra : ℕ) :
    Option (Except Errno ℕ × State) :=
  match s.pageList with
  | none =>
    if s.npages = 0 then
      -- no block was found and no branch is left: the size is set all the same
      some (.ok 0, { s with fileSize := size })
    else if !q.list then some (.error .ENOMEM, s)
    else
      (addPages q extra 0 (s.toList (listCap (s.npages + extra)))).map fun (s', i, ok) =>
        if ok then (.ok 0, { s' with fileSize := size })
        else (.error .ENOMEM, { s'.freeLast i with pageList := none })
  | some _ =>
    (addPages q extra 0 s).map fun (s', i, ok) =>
      if ok then (.ok 0, { s' with fileSize := size })
      else
        (.error .ENOMEM, { s'.freeLast i with
          pageList := some (s'.listed.take (s'.listed.length - i)) })

/-- The consecutive frames from `f` on. -/
def blockFrom (f n : ℕ) : List ℕ := (List.range n).map fun i => f + i

def State.grow (s : State) (q : Oracle) (size newNpages : ℕ) :
    Option (Except Errno ℕ × State) :=
  if s.sealGrow then some (.error .EPERM, s)
  else
    match s.pageList, s.npages, q.block with
    | none, 0, some f =>
      (s.bfcAllocPage (blockFrom f newNpages)).map fun s' =>
        (.ok 0, { s'.zeroPages (blockFrom f newNpages) with
          phys := f, npages := newNpages, fileSize := size })
    | _, _, _ => s.growPages q size (newNpages - s.total)

/-- Shrinking the object: the tail goes back to the allocator. -/
def State.shrink (s : State) (size newNpages : ℕ) : Except Errno ℕ × State :=
  if s.sealShrink then (.error .EPERM, s)
  else
    match s.pageList with
    | some fs =>
      (.ok 0, { s.bfcFreePages (fs.drop newNpages) with
        pageList := if newNpages = 0 then none else some (fs.take newNpages)
        fileSize := size })
    | none =>
      (.ok 0, { s.bfcFreePages (s.block.drop newNpages) with
        npages := newNpages, fileSize := size })

def sysFtruncate (s : State) (size : ℤ) (q : Oracle) : Option (Except Errno ℕ × State) :=
  if size < 0 then some (.error .EINVAL, s)
  else
    let newSize := size.toNat
    let newNpages := pagesOf newSize
    if newNpages > s.total then s.grow q newSize newNpages
    else if newNpages < s.total then some (s.shrink newSize newNpages)
    else some (.ok 0, { s with fileSize := newSize })

/-! ## `fallocate` and `write` -/

/-- A 64-bit value as an `int64_t`. -/
def i64 (x : ℕ) : ℤ := if x < 2 ^ 63 then x else (x : ℤ) - 2 ^ 64

/-- `sys_fallocate` on a memfd. -/
def sysFallocate (s : State) (mode off len : ℤ) (q : Oracle) :
    Option (Except Errno ℕ × State) :=
  if off < 0 ∨ len ≤ 0 then some (.error .EINVAL, s)
  else
    let total := u64 (off.toNat + len.toNat)
    if total < off.toNat then some (.error .EINVAL, s)
    else if mode ≠ 0 then some (.error .ENOTSUP, s)
    else if total ≤ s.total * pageSize then some (.ok 0, s)
    else sysFtruncate s (i64 total) q

def kernelVmaBoundary : ℕ := 0xFFFFFF8000000000

/-- The caller's buffer: where it is, what it holds and how many bytes from its start can be
read before a load faults. -/
structure UserBuf where
  addr : ℕ
  len : ℕ
  data : ℕ → UInt8
  readable : ℕ
  addr_lt : addr < 2 ^ 64
  len_lt : len < 2 ^ 64

/-- The copying loop of `sys_write` with `written` bytes copied. `copy_from_user` stops at the
first byte that cannot be read, with the bytes before it stored. -/
def writeLoop (buf : UserBuf) (offset : ℕ) : ℕ → ℕ → State → State × ℕ
  | 0, written, s => (s, written)
  | fuel + 1, written, s =>
    if written < buf.len then
      let pos := offset + written
      let chunk := min (pageSize - pos % pageSize) (buf.len - written)
      let got := min chunk (buf.readable - written)
      let s' := { s with
        byte := Paged.fill s.byte (s.pageAt (pos / pageSize)) (pos % pageSize) got
          fun j => buf.data (written + j) }
      if got < chunk then (s', written) else writeLoop buf offset fuel (written + chunk) s'
    else (s, written)

def State.writePos (s : State) : ℕ := if s.file.append then s.fileSize else s.file.offset

/-- The part of `sys_write` behind the size check. -/
def State.writeData (s : State) (buf : UserBuf) (offset : ℕ) : Except Errno ℕ × State :=
  let r := writeLoop buf offset buf.len 0 s
  if r.2 = 0 then (.error .EFAULT, r.1)
  else (.ok r.2, { r.1 with file := { r.1.file with offset := offset + r.2 } })

def sysWrite (s : State) (buf : UserBuf) (q : Oracle) : Option (Except Errno ℕ × State) :=
  if !s.file.writable then some (.error .EBADF, s)
  else if s.sealWrite then some (.error .EPERM, s)
  else if buf.len = 0 then some (.ok 0, s)
  else if buf.addr = 0 then some (.error .EFAULT, s)
  else
    let ptrEnd := u64 (buf.addr + buf.len)
    let offset := s.writePos
    let fin := u64 (offset + buf.len)
    if ptrEnd < buf.addr ∨ kernelVmaBoundary ≤ buf.addr ∨ kernelVmaBoundary < ptrEnd ∨
        fin < offset then
      some (.error .EFAULT, s)
    else if s.fileSize < fin then
      (sysFtruncate s (i64 fin) q).map fun (r, s') =>
        match r with
        | .error e => (.error e, s')
        | .ok _ => s'.writeData buf offset
    else some (s.writeData buf offset)

/-! ## Steps -/

inductive Call
  | ftruncate (size : ℤ) (q : Oracle)
  | fallocate (mode off len : ℤ) (q : Oracle)
  | write (buf : UserBuf) (q : Oracle)
  /-- what `fcntl` and `lseek` set between the calls above -/
  | control (sealGrow sealShrink sealWrite : Bool) (file : OpenFile)
  /-- somebody else takes, frees or writes a frame that is not the object's -/
  | outside (f : ℕ) (isLive : Bool) (i : ℕ) (b : UInt8)

def call (s : State) : Call → Option (Except Errno ℕ × State)
  | .ftruncate size q => sysFtruncate s size q
  | .fallocate mode off len q => sysFallocate s mode off len q
  | .write buf q => sysWrite s buf q
  | .control g h w file =>
    some (.ok 0, { s with sealGrow := g, sealShrink := h, sealWrite := w, file := file })
  | .outside f isLive i b =>
    if f ∈ s.pages then none
    else
      some (.ok 0, { s with
        live := Function.update s.live f isLive
        byte := Paged.fill s.byte f i 1 fun _ => b })

def step (s : State) (a : Call) : Option State := (call s a).map Prod.snd

end XosKernel.MemfdData
