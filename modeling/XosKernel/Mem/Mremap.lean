/-
# Unmapping, moving and the system

The model of `sys_munmap` and `sys_mremap` of `kernel/bsd/syscall.c`, and the address space
as a system whose actions are the memory-mapping calls. The page-fault handler, `fork`,
`exec` and `mprotect` change leaf entries between the calls in ways that are of no concern
here; the action `other` stands for all of them.
-/
import XosKernel.Lib.Run
import XosKernel.Mem.Mmap

namespace XosKernel.Mmap

open Vma

/-- `vma_merge` of the region that `vma_find` gives for `addr`, if any. -/
def mergeFound (L : List Region) (addr : ℕ) : List Region :=
  match findSplit addr L with
  | some (pre, r, post) => vmaMerge pre r post
  | none => L

def sysMunmap (oracle : ℕ → Bool) (mm : Mm) (addr size : ℕ) : Ret × Mm :=
  if size = 0 then (.err .EINVAL, mm)
  else if addr % pageSize ≠ 0 then (.err .EINVAL, mm)
  else if alignUp size = 0 then (.err .EINVAL, mm)
  else
    let size := alignUp size
    match unmapRange oracle mm addr size with
    | (some e, mm) => (.err e, mm)
    | (none, mm) =>
        let L := if addr = 0 then mm.regions else mergeFound mm.regions (addr - 1)
        (.ok 0, { mm with regions := mergeFound L (u64 (addr + size)) })

/-! ## Moving -/

def growRegionPages (oracle : ℕ → Bool) (mm : Mm) (r : Region) (base oldNpages newNpages : ℕ) :
    Option Errno × Mm :=
  if newNpages ≤ oldNpages then (none, mm)
  else if r.shmObj.isSome ∨ r.phys ≠ 0 then (some .ENOMEM, mm)
  else if r.inode.isSome ∨ r.shmPrivateSrc.isSome then (none, mm)
  else
    let gstart := u64 (base + oldNpages * pageSize)
    match mapUserPages oracle mm gstart (u64 (gstart + (newNpages - oldNpages) * pageSize)) with
    | (_, true, mm) => (none, mm)
    | (mapped, false, mm) =>
        (some .ENOMEM,
          if mapped = 0 then mm
          else unmapUserPages mm gstart (u64 (gstart + mapped * pageSize)) mapped)

def freeOldTail (mm : Mm) (base keepNpages oldNpages : ℕ) : Mm :=
  clearPages (u64 (base + keepNpages * pageSize)) (oldNpages - keepNpages) mm

def modifyRegion (vaddr : ℕ) (f : Region → Region) (L : List Region) : List Region :=
  L.map fun r => if r.vaddr = vaddr then f r else r

/-- The in-place branch of `sys_mremap`. -/
def mremapInPlace (oracle : ℕ → Bool) (mm : Mm) (r : Region) (oldAddr oldSize newSize : ℕ) :
    Ret × Mm :=
  if newSize < oldSize then
    match unmapRange oracle mm (u64 (oldAddr + newSize)) (oldSize - newSize) with
    | (some e, mm) => (.err e, mm)
    | (none, mm) =>
        (.ofAddr oldAddr,
          { mm with regions := modifyRegion oldAddr vmaResetReadahead mm.regions })
  else if oldSize < newSize then
    match growRegionPages oracle mm r oldAddr (oldSize / pageSize) (newSize / pageSize) with
    | (some e, mm) => (.err e, mm)
    | (none, mm) =>
        let mm := { mm with
          regions :=
            modifyRegion oldAddr (fun r => vmaResetReadahead { r with size := newSize })
              mm.regions }
        (.ofAddr oldAddr,
          if u64 (oldAddr + oldSize) = mm.mmapBrk
          then { mm with mmapBrk := u64 (oldAddr + newSize) } else mm)
  else
    (.ofAddr oldAddr, { mm with regions := modifyRegion oldAddr vmaResetReadahead mm.regions })

/-- The second half of the relocation of `sys_mremap`, once the destination is chosen.
`none`: the descriptor was freed by the unmapping of the destination, and what the code does
with it is undefined. -/
def mremapMove (oracle : ℕ → Bool) (mm : Mm) (oldAddr oldSize newSize newVa : ℕ) :
    Option (Ret × Mm) :=
  (mm.regions.find? fun r => r.vaddr = oldAddr).map fun r =>
    let oldNpages := oldSize / pageSize
    let newNpages := newSize / pageSize
    match growRegionPages oracle mm r newVa oldNpages newNpages with
    | (some e, mm) => (.err e, mm)
    | (none, mm) =>
        match moveUserPages oracle mm oldAddr newVa oldNpages with
        | (false, mm) => (.err .ENOMEM, mm)
        | (true, mm) =>
            let mm := if newSize < oldSize then freeOldTail mm oldAddr newNpages oldNpages else mm
            let L := mm.regions.eraseP fun r => r.vaddr = oldAddr
            match vmaInsertSorted (vmaResetReadahead { r with vaddr := newVa, size := newSize })
              L with
            | none => (.err .ENOMEM, { mm with regions := L })
            | some L' =>
                let mm := { mm with regions := L' }
                (.ofAddr newVa,
                  if newVa = mm.mmapBrk then { mm with mmapBrk := u64 (newVa + newSize) } else mm)

/-- Whether `sys_mremap` has to move the region. -/
def wantMove (mm : Mm) (oldAddr oldSize newSize flags : ℕ) : Bool :=
  if hasFlag flags mremapFixed then true
  else
    decide (oldSize < newSize) &&
      (decide (userVmaUpperBound < u64 (u64 (oldAddr + oldSize) + (newSize - oldSize))) ||
        vmaOverlapsAny mm.regions (u64 (oldAddr + oldSize)) (newSize - oldSize))

def mremapRelocate (oracle : ℕ → Bool) (mm : Mm) (oldAddr oldSize newSize flags newAddr : ℕ) :
    Option (Ret × Mm) :=
  if hasFlag flags mremapFixed then
    match unmapRange oracle mm newAddr newSize with
    | (some e, mm) => some (.err e, mm)
    | (none, mm) => mremapMove oracle mm oldAddr oldSize newSize newAddr
  else
    let gap := vmaFindGap mm newSize newAddr
    if gap = 0 ∨ vmaOverlapsAny mm.regions gap newSize then some (.err .ENOMEM, mm)
    else mremapMove oracle mm oldAddr oldSize newSize gap

def sysMremap (oracle : ℕ → Bool) (mm : Mm) (oldAddr oldSize newSize flags newAddr : ℕ) :
    Option (Ret × Mm) :=
  if oldAddr % pageSize ≠ 0 then some (.err .EINVAL, mm)
  else if flags ||| mremapMaymove ||| mremapFixed ≠ mremapMaymove ||| mremapFixed then
    some (.err .EINVAL, mm)
  else if hasFlag flags mremapFixed ∧ ¬hasFlag flags mremapMaymove then some (.err .EINVAL, mm)
  else if newSize = 0 then some (.err .EINVAL, mm)
  else if hasFlag flags mremapFixed ∧ newAddr % pageSize ≠ 0 then some (.err .EINVAL, mm)
  else
    let oldSize := alignUp oldSize
    let newSize := alignUp newSize
    if oldSize = 0 ∨ newSize = 0 then some (.err .EINVAL, mm)
    else
      match vmaFind mm.regions oldAddr with
      | none => some (.err .EFAULT, mm)
      | some r =>
          if r.vaddr ≠ oldAddr ∨ r.size ≠ oldSize then some (.err .EFAULT, mm)
          else if wantMove mm oldAddr oldSize newSize flags then
            mremapRelocate oracle mm oldAddr oldSize newSize flags newAddr
          else some (mremapInPlace oracle mm r oldAddr oldSize newSize)

/-! ## The system -/

inductive Call
  | mmap (addr size prot flags : ℕ) (fd : ℤ) (offset : ℕ) (file : Option FileKind)
  | munmap (addr size : ℕ)
  | mremap (oldAddr oldSize newSize flags newAddr : ℕ)
  /-- Everything else that changes leaf entries. -/
  | other (leaf : ℕ → Bool)

/-- One call; arguments are 64-bit values. -/
def step (hw : Machine) (oracle : ℕ → Bool) (mm : Mm) : Call → Option Mm
  | .mmap addr size prot flags fd offset file =>
      some (sysMmap hw oracle mm (u64 addr) (u64 size) prot flags fd (u64 offset) file).2
  | .munmap addr size => some (sysMunmap oracle mm (u64 addr) (u64 size)).2
  | .mremap oldAddr oldSize newSize flags newAddr =>
      (sysMremap oracle mm (u64 oldAddr) (u64 oldSize) (u64 newSize) flags (u64 newAddr)).map
        Prod.snd
  | .other leaf => some { mm with leaf := leaf }

end XosKernel.Mmap
