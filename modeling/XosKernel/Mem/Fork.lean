/-
# Copy-on-write address spaces

The three places that rewrite leaf page-table entries of a private page:
`copy_page_table` (`xcore/mem/user_mapping.c`) at fork, `resolve_cow_fault`
(`xcore/trap.c`) at a write fault and `sys_mprotect` (`bsd/syscall.c`), with the calls that
create and drop leaves around them.

All page tables are one list of leaves, keyed by address space and virtual page; the
intermediate tables carry no information of their own and are left out. The region list
enters only through what it says about one page, so it is a list of page-granular areas.
A frame belongs either to the page allocator or to somebody else (an shm object, a device,
an owner's cache, the signal trampoline), who holds one count of it and may give it back at
any time. Fork and unmap know such a frame only by the regions. Each section that the code
runs under `mmap_lock` is one step.
-/
import XosKernel.Lib.Run
import XosKernel.Mem.Layout
import Mathlib.Data.List.Count

namespace XosKernel.Fork

open Function

/-- A leaf entry: the frame and the flag bits. -/
structure Pte where
  frame : ℕ
  present : Bool
  rw : Bool
  user : Bool
  cow : Bool
  protnone : Bool
  nx : Bool
  accessed : Bool
  dirty : Bool
deriving DecidableEq

/-- `pte_present`: a PROT_NONE entry counts as present for the kernel. -/
def Pte.mapped (p : Pte) : Bool := p.present || p.protnone

/-- A user store through the entry succeeds in hardware. -/
def Pte.writable (p : Pte) : Bool := p.present && p.rw && p.user

/-- A leaf of the page table of address space `as` at virtual page `vpn`. -/
structure Leaf where
  as : ℕ
  vpn : ℕ
  pte : Pte
deriving DecidableEq

/-- What a region says about where its pages come from. -/
inductive Backing
  /-- private memory: anonymous, or a private copy of a file page -/
  | anon
  /-- `shm_obj`, with the frames of its page list -/
  | shm (frames : List ℕ)
  /-- `phys`, with the frames of its range -/
  | phys (frames : List ℕ)
  /-- `KMAP_VMA_OWNER` -/
  | owner
deriving DecidableEq

/-- One page of a region of address space `as`. -/
structure Area where
  as : ℕ
  vpn : ℕ
  backing : Backing
deriving DecidableEq

/-- All address spaces with the page counts and the contents of the frames. -/
structure Sys where
  leaves : List Leaf
  areas : List Area
  refcount : ℕ → ℕ
  /-- the frame belongs to an shm object, a device, an owner or the trampoline -/
  external : ℕ → Bool
  mem : ℕ → ℕ

def Sys.lookupPte (s : Sys) (as vpn : ℕ) : Option Leaf :=
  s.leaves.find? fun l => l.as = as ∧ l.vpn = vpn

def Sys.vmaFind (s : Sys) (as vpn : ℕ) : Option Area :=
  s.areas.find? fun a => a.as = as ∧ a.vpn = vpn

/-- What address space `as` reads at page `vpn`. -/
def Sys.read (s : Sys) (as vpn : ℕ) : Option ℕ :=
  (s.lookupPte as vpn).map fun l => s.mem l.pte.frame

def Sys.addLeaf (s : Sys) (l : Leaf) : Sys := { s with leaves := l :: s.leaves }

def Sys.dropLeaf (s : Sys) (l : Leaf) : Sys := { s with leaves := s.leaves.erase l }

/-- Overwrite the entry of an existing leaf. -/
def Sys.setPte (s : Sys) (l : Leaf) (p : Pte) : Sys :=
  (s.dropLeaf l).addLeaf { l with pte := p }

def Sys.setCount (s : Sys) (f n : ℕ) : Sys :=
  { s with refcount := update s.refcount f n }

def Sys.refcountInc (s : Sys) (f : ℕ) : Sys := s.setCount f (s.refcount f + 1)

/-- `refcount_dec_and_test`; a frame whose count is zero is free. -/
def Sys.refcountDec (s : Sys) (f : ℕ) : Sys := s.setCount f (s.refcount f - 1)

def Sys.setMem (s : Sys) (f v : ℕ) : Sys := { s with mem := update s.mem f v }

section Model

-- `tr` is `sig_trampoline_phys`
variable (tr : ℕ)

def Sys.boot : Sys := ⟨[], [], fun f => if f = tr then 1 else 0, fun f => f = tr, fun _ => 0⟩

def Sys.Unused (s : Sys) (as vpn : ℕ) : Prop :=
  s.lookupPte as vpn = none ∧ s.vmaFind as vpn = none
deriving Decidable

/-! ## Protection bits -/

def protWrite : ℕ := 2

def protExec : ℕ := 4

def protRwx : ℕ := 7

/-- `(uint32_t)prot & ~(PROT_GROWSDOWN | PROT_SEM)`. -/
def protMasked (prot : ℕ) : ℕ := prot &&& (0xFFFFFFFF ^^^ 0x01000010)

/-- The leaf flags for a protection over frame `f`: `base` of `sys_mprotect`, which is also
what a new user mapping gets. -/
def protPte (f prot : ℕ) : Pte where
  frame := f
  present := decide (prot ≠ 0)
  rw := decide (prot ≠ 0) && decide (prot &&& protWrite ≠ 0)
  user := true
  cow := false
  protnone := decide (prot = 0)
  nx := decide (prot = 0) || decide (prot &&& protExec = 0)
  accessed := false
  dirty := false

/-! ## Creating mappings -/

/-- A private page over a frame from the allocator, with a region (`mmap`) or without one
(a segment of the executable). -/
def mapPrivate (s : Sys) (as vpn f prot : ℕ) (region : Bool) : Option Sys :=
  if s.refcount f = 0 ∧ s.Unused as vpn then
    some
      { s with
        leaves := ⟨as, vpn, protPte f prot⟩ :: s.leaves
        areas := if region then ⟨as, vpn, .anon⟩ :: s.areas else s.areas
        refcount := update s.refcount f 1
        mem := update s.mem f 0 }
  else none

/-- The test of `copy_page_table` and `mm_release` for one region: an owner's region takes
the leaves inside it, the others the leaves over their frames wherever these are mapped. -/
def Area.claims (a : Area) (vpn f : ℕ) : Bool :=
  match a.backing with
  | .anon => false
  | .shm frames => frames.contains f
  | .phys frames => frames.contains f
  | .owner => decide (a.vpn = vpn)

/-- The frames a region names. -/
def Backing.frames : Backing → List ℕ
  | .shm frames | .phys frames => frames
  | _ => []

/-- A page of an shm object, a device or an owner. -/
def mapExternal (s : Sys) (as vpn f prot : ℕ) (b : Backing) : Option Sys :=
  if s.external f = true ∧ (Area.mk as vpn b).claims vpn f = true ∧
      (∀ g ∈ b.frames, s.external g = true) ∧ s.Unused as vpn then
    some
      { s with
        leaves := ⟨as, vpn, protPte f prot⟩ :: s.leaves
        areas := ⟨as, vpn, b⟩ :: s.areas }
  else none

/-- The trampoline page, which every address space maps without a region. -/
def mapTrampoline (s : Sys) (as vpn : ℕ) : Option Sys :=
  if s.Unused as vpn then
    some { s with leaves := ⟨as, vpn, protPte tr 5⟩ :: s.leaves }
  else none

def Sys.setOwner (s : Sys) (f : ℕ) (external : Bool) : Sys :=
  { s.setCount f external.toNat with external := update s.external f external }

/-- A frame goes to an shm object, a device or an owner. -/
def lend (s : Sys) (f : ℕ) : Option Sys :=
  if s.refcount f = 0 then some (s.setOwner f true) else none

/-- The last `shm_put`, the end of a `KMAP_DMA_OWNED` region and the like: `bfc_free_page`
whoever maps the frame. -/
def giveBack (s : Sys) (f : ℕ) : Option Sys :=
  if s.external f = true ∧ f ≠ tr then some (s.setOwner f false) else none

/-! ## Fork -/

/-- `is_shared`, over the regions of the leaf's own address space. -/
def Sys.isShared (s : Sys) (l : Leaf) : Bool :=
  s.areas.any fun a => decide (a.as = l.as) && a.claims l.vpn l.pte.frame

/-- The entry both sides get for a page that was writable. -/
def cowPte (p : Pte) : Pte where
  frame := p.frame
  present := true
  rw := false
  user := true
  cow := true
  protnone := false
  nx := p.nx
  accessed := p.accessed
  dirty := false

/-- Whether fork and exit treat the leaf as somebody else's page. -/
def Sys.skips (s : Sys) (l : Leaf) : Bool :=
  decide (l.pte.frame = tr) || s.isShared l

/-- The body of `copy_page_table` for one leaf of the source. -/
def copyLeaf (child : ℕ) (s : Sys) (l : Leaf) : Sys :=
  if !l.pte.mapped then s
  else if s.skips tr l then s.addLeaf { l with as := child }
  else if l.pte.rw then
    ((s.refcountInc l.pte.frame).setPte l (cowPte l.pte)).addLeaf ⟨child, l.vpn, cowPte l.pte⟩
  else (s.refcountInc l.pte.frame).addLeaf { l with as := child }

/-- The leaves of one address space, in the order of the walk. -/
def Sys.leavesOf (s : Sys) (as : ℕ) : List Leaf := s.leaves.filter fun l => l.as = as

def copyPageTable (s : Sys) (parent child : ℕ) : Sys :=
  (s.leavesOf parent).foldl (copyLeaf tr child) s

/-- `copy_mmap_regions`, which is left at the first failing `kmalloc`: the pages `lost` lie in the
regions from there on. -/
def copyMmapRegions (s : Sys) (parent child : ℕ) (lost : List ℕ) : Sys :=
  { s with
    areas := ((s.areas.filter fun a => a.as = parent ∧ a.vpn ∉ lost).map
      fun a => { a with as := child }) ++ s.areas }

/-- The address space has neither leaves nor regions. -/
def Sys.Blank (s : Sys) (as : ℕ) : Prop := (∀ l ∈ s.leaves, l.as ≠ as) ∧ ∀ a ∈ s.areas, a.as ≠ as
deriving Decidable

/-! ## Stores -/

/-- `resolve_cow_fault`; `alloc` is what `bfc_alloc_page` returns if it is called. -/
def resolveCowFault (s : Sys) (l : Leaf) (alloc : Option ℕ) : Sys :=
  if s.refcount l.pte.frame = 1 then
    -- the only owner: no copy
    s.setPte l { l.pte with cow := false, rw := true, dirty := false }
  else
    match alloc with
    | none => s  -- SIGSEGV
    | some new =>
      (((s.setCount new 1).setMem new (s.mem l.pte.frame)).setPte l
        { frame := new, present := true, rw := true, user := true, cow := false,
          protnone := false, nx := l.pte.nx, accessed := l.pte.accessed,
          dirty := false }).refcountDec l.pte.frame

/-- One attempt of a user store: it goes through, or it faults. A fault on a present
copy-on-write entry is resolved and the store is tried again by the next step; any other
fault ends in a signal. -/
def store (s : Sys) (as vpn v : ℕ) (alloc : Option ℕ) : Option Sys :=
  match s.lookupPte as vpn with
  | none => some s
  | some l =>
    if l.pte.writable then some (s.setMem l.pte.frame v)
    else if l.pte.present && l.pte.cow then
      if ∀ new ∈ alloc, s.refcount new = 0 then some (resolveCowFault s l alloc) else none
    else some s

/-! ## Changing the protection -/

def mprotectLoop (as prot : ℕ) : ℕ → ℕ → Sys → Option Errno × Sys
  | 0, _, s => (none, s)
  | n + 1, vpn, s =>
    match s.lookupPte as vpn with
    | none =>
      if (s.vmaFind as vpn).isNone then (some .ENOMEM, s)
      else mprotectLoop as prot n (vpn + 1) s
    | some l => mprotectLoop as prot n (vpn + 1) (s.setPte l (protPte l.pte.frame prot))

/-- `sys_mprotect`; `split` says whether `vma_protect_range` finds the memory to split the
regions, which happens before any entry is touched. -/
def sysMprotect (s : Sys) (as addr size prot : ℕ) (split : Bool) : Option Errno × Sys :=
  if size = 0 then (none, s)
  else if addr % pageSize ≠ 0 then (some .EINVAL, s)
  else if protMasked prot &&& (0xFFFFFFFF ^^^ protRwx) ≠ 0 then (some .EINVAL, s)
  else if addr ≥ userVmaUpperBound then (some .EINVAL, s)
  else if alignUp size > userVmaUpperBound - addr then (some .ENOMEM, s)
  else if !split then (some .ENOMEM, s)
  else mprotectLoop as (protMasked prot) (alignUp size / pageSize) (addr / pageSize) s

/-! ## Dropping mappings -/

/-- `unmap_region_pages` for one page of a region: the page count belongs to private pages
only. -/
def unmapPage (s : Sys) (as vpn : ℕ) : Sys :=
  match s.vmaFind as vpn with
  | none => s
  | some a =>
    let s' := { s with areas := s.areas.erase a }
    match s.lookupPte as vpn with
    | none => s'
    | some l =>
      if a.backing = .anon then (s'.dropLeaf l).refcountDec l.pte.frame else s'.dropLeaf l

def munmapPages (s : Sys) (as : ℕ) (vpns : List ℕ) : Sys :=
  vpns.foldl (fun s vpn => unmapPage s as vpn) s

def releaseLeaf (s : Sys) (l : Leaf) : Sys :=
  if s.skips tr l then s.dropLeaf l else (s.dropLeaf l).refcountDec l.pte.frame

def mmRelease (s : Sys) (as : ℕ) : Sys :=
  let s' := (s.leavesOf as).foldl (releaseLeaf tr) s
  { s' with areas := s'.areas.filter fun a => a.as ≠ as }

/-- A fork without `CLONE_VM` into a new address space. -/
def fork (s : Sys) (parent child : ℕ) (lost : List ℕ) : Option Sys :=
  if s.Blank child ∧ child ≠ parent then
    some (copyMmapRegions (copyPageTable tr s parent child) parent child lost)
  else none

/-- A fork that runs out of memory after `n` leaves: `mm_put` of a child that has no regions yet,
so that the frames of the others look like pages of its own. -/
def forkFailed (s : Sys) (parent child n : ℕ) : Option Sys :=
  if s.Blank child ∧ child ≠ parent then
    some (mmRelease tr (((s.leavesOf parent).take n).foldl (copyLeaf tr child) s) child)
  else none

/-! ## The system -/

/-- What the processes and the allocator choose. -/
inductive Call
  | mapPrivate (as vpn f prot : ℕ) (region : Bool)
  | mapExternal (as vpn f prot : ℕ) (b : Backing)
  | mapTrampoline (as vpn : ℕ)
  | lend (f : ℕ)
  | giveBack (f : ℕ)
  | fork (parent child : ℕ) (lost : List ℕ)
  | forkFailed (parent child n : ℕ)
  | store (as vpn v : ℕ) (alloc : Option ℕ)
  | mprotect (as addr size prot : ℕ) (split : Bool)
  | munmap (as : ℕ) (vpns : List ℕ)
  | exit (as : ℕ)

def step (s : Sys) : Call → Option Sys
  | .mapPrivate as vpn f prot region => mapPrivate s as vpn f prot region
  | .mapExternal as vpn f prot b => mapExternal s as vpn f prot b
  | .mapTrampoline as vpn => mapTrampoline tr s as vpn
  | .lend f => lend s f
  | .giveBack f => giveBack tr s f
  | .fork parent child lost => fork tr s parent child lost
  | .forkFailed parent child n => forkFailed tr s parent child n
  | .store as vpn v alloc => store s as vpn v alloc
  | .mprotect as addr size prot split => some (sysMprotect s as addr size prot split).2
  | .munmap as vpns => some (munmapPages s as vpns)
  | .exit as => some (mmRelease tr s as)

end Model

end XosKernel.Fork
