/-
# The page cache

`bsd/page_cache.c`. The cache has a fixed set of `struct cache_page`; each is on the free list,
or hashed under its inode and page index and on the LRU list, or unhashed and kept only by its
pins. `page_cache_lock` is taken for short sections; the calls below are cut at its sections
and at the calls of the file system, and the sections of several tasks interleave.

Statistics (`cache_stats` and the `ra_` fields of a page, which feed them) are left out. An
inode is its address, `0` is `NULL`; what `readpage` and the others return is part of the action.
-/
import XosKernel.Lib.Run
import XosKernel.Lib.Holders
import XosKernel.Mem.Layout

namespace XosKernel.PageCache

open Function

/-- The `CACHE_PAGE_` flags. -/
structure Flags where
  filling : Bool := false
  uptodate : Bool := false
  dirty : Bool := false
  writeback : Bool := false
  error : Bool := false
  invalid : Bool := false
  readahead : Bool := false
deriving DecidableEq

/-- `struct cache_page`; `data` says whether the page has its buffer. -/
structure Page where
  inode : ℕ
  pageIndex : ℕ
  data : Bool
  pinCount : ℤ
  flags : Flags
  error : Option Errno
  generation : ℕ
  dirtySeq : ℕ
deriving DecidableEq

def raMaxPages : ℕ := 16

/-- The number of buckets, `1 << PAGE_CACHE_HASH_BITS`. -/
def hashSize : ℕ := 64

def pageCacheHashfn (ip index : ℕ) : ℕ :=
  ((ip ^^^ (ip >>> 9)) ^^^ (index ^^^ (index >>> 32))) % hashSize

def pageCacheRaCap (requestedPages : ℕ) : ℕ := min (max requestedPages 1) raMaxPages

/-- What `page_cache_lock` protects: the chains of the buckets, the LRU list from its head on,
and the free list. -/
structure Cache where
  page : ℕ → Page
  hash : ℕ → List ℕ
  lru : List ℕ
  free : List ℕ

def Page.bucket (x : Page) : ℕ := pageCacheHashfn x.inode x.pageIndex

namespace Cache

def setPage (c : Cache) (p : ℕ) (x : Page) : Cache :=
  { c with page := update c.page p x }

def freeListPush (c : Cache) (p : ℕ) : Cache := { c with free := p :: c.free }

/-- The page is taken out of its chain and off the LRU list. -/
def unlink (c : Cache) (p : ℕ) : Cache :=
  { c with
    hash := update c.hash (c.page p).bucket ((c.hash (c.page p).bucket).erase p)
    lru := c.lru.erase p }

/-- The buffer is freed and the page goes to the free list. -/
def discard (c : Cache) (p : ℕ) : Cache :=
  (c.setPage p { c.page p with data := false, inode := 0, flags := {} }).freeListPush p

def findLocked (c : Cache) (ip index : ℕ) : Option ℕ :=
  (c.hash (pageCacheHashfn ip index)).find? fun p =>
    (c.page p).inode == ip && (c.page p).pageIndex == index && (c.page p).data

/-- The first section of `page_cache_lookup`, for the page that was found. -/
def pin (c : Cache) (p : ℕ) : Cache :=
  c.setPage p { c.page p with pinCount := (c.page p).pinCount + 1 }

def lruTouch (c : Cache) (p : ℕ) : Cache := { c with lru := p :: c.lru.erase p }

def evictable (c : Cache) (p : ℕ) : Bool :=
  (c.page p).pinCount == 0 && (c.page p).data && !(c.page p).flags.filling &&
    !(c.page p).flags.writeback && !(c.page p).flags.dirty

def evictLocked (c : Cache) : Option Cache :=
  (c.lru.reverse.find? c.evictable).map fun p => (c.unlink p).discard p

def freeListPop (c : Cache) : Option (ℕ × Cache) :=
  match c.free with
  | [] => none
  | p :: rest => some (p, { c with free := rest })

/-- The page becomes the one of `ip` and `index`, hashed, at the head of the LRU list. -/
def install (c : Cache) (p ip index : ℕ) (readahead : Bool) : Cache :=
  let c := c.setPage p { c.page p with
    data := true, inode := ip, pageIndex := index, pinCount := 1
    flags := { filling := true, readahead := readahead }
    error := none, dirtySeq := 0
    generation := ((c.page p).generation + 1) % 2 ^ 32 }
  { c with
    hash := update c.hash (pageCacheHashfn ip index)
      (p :: c.hash (pageCacheHashfn ip index))
    lru := p :: c.lru }

/-- A page from the free list, or one that is evicted for it. -/
def popOrEvict (c : Cache) : Option (ℕ × Cache) :=
  match c.freeListPop with
  | some r => some r
  | none => c.evictLocked.bind freeListPop

/-- `page_cache_alloc_locked`; `ok` says whether `kmalloc` gave the buffer. -/
def allocLocked (c : Cache) (ip index : ℕ) (readahead ok : Bool) : Cache × Option ℕ :=
  match c.popOrEvict with
  | none => (c, none)
  | some (p, c) => if ok then (c.install p ip index readahead, some p) else (c.freeListPush p, none)

def unhashLocked (c : Cache) (p : ℕ) : Cache :=
  let c := c.unlink p
  c.setPage p { c.page p with flags := { (c.page p).flags with invalid := true } }

/-- The reservation loop of `page_cache_get_ra` from page `i` of the window on, for `n` more
pages. -/
def reservePages (ok : ℕ → Bool) (ip index : ℕ) : ℕ → ℕ → Cache → Cache × List ℕ
  | _, 0, c => (c, [])
  | i, n + 1, c =>
    if (c.findLocked ip (u64 (index + i))).isSome then (c, [])
    else
      match c.allocLocked ip (u64 (index + i)) (i != 0) (ok i) with
      | (c, none) => (c, [])
      | (c, some p) =>
        let r := reservePages ok ip index (i + 1) n c
        (r.1, p :: r.2)

/-- The section that ends the filling of a page, `rc` being what the file system returned. -/
def finishFill (c : Cache) (p : ℕ) (rc : Option Errno) : Cache :=
  match rc with
  | some e =>
    (c.setPage p { c.page p with
      error := some e
      flags := { (c.page p).flags with filling := false, error := true } }).unhashLocked p
  | none =>
    c.setPage p { c.page p with
      flags := { (c.page p).flags with filling := false, uptodate := true } }

def release (c : Cache) (p : ℕ) : Cache :=
  let refs := (c.page p).pinCount - 1
  let c := c.setPage p { c.page p with pinCount := refs }
  if refs = 0 ∧ (c.page p).flags.invalid = true then c.discard p else c

/-- `page_cache_invalidate_inode` for one page of the inode. -/
def invalidatePage (c : Cache) (p : ℕ) : Cache :=
  let c := c.unhashLocked p
  if (c.page p).pinCount = 0 then c.discard p else c

/-- The chains in the order in which the loops over all buckets see them. -/
def chains (c : Cache) : List ℕ := (List.range hashSize).flatMap c.hash

def invalidateInode (c : Cache) (ip : ℕ) : Cache :=
  (c.chains.filter fun p => (c.page p).inode == ip).foldl invalidatePage c

def markDirty (c : Cache) (p : ℕ) : Cache :=
  c.setPage p { c.page p with
    flags := { (c.page p).flags with dirty := true }
    dirtySeq := ((c.page p).dirtySeq + 1) % 2 ^ 32 }

/-- The pages `collect_dirty` picks; `only` is the inode, or `0` for all. -/
def dirtyPages (c : Cache) (only max : ℕ) : List ℕ :=
  (c.chains.filter fun p =>
    (c.page p).flags.dirty && (c.page p).data && (c.page p).inode != 0 &&
      (only == 0 || (c.page p).inode == only)).take max

/-- The first section of `page_cache_writeback_pages`: an odd page ends it, with the flags of
the pages before it set. -/
def startWriteback (ip : ℕ) : List ℕ → Cache → Cache × Bool
  | [], c => (c, true)
  | p :: ps, c =>
    if (c.page p).inode = ip ∧ (c.page p).data = true then
      startWriteback ip ps
        (c.setPage p { c.page p with
          flags := { (c.page p).flags with
            writeback := (c.page p).flags.writeback || (c.page p).flags.dirty } })
    else (c, false)

/-- The last section of `page_cache_writeback_pages` for one page. -/
def endWriteback (rc : Option Errno) (c : Cache) (ps : ℕ × ℕ) : Cache :=
  let x := c.page ps.1
  let flags := { x.flags with writeback := false }
  c.setPage ps.1 { x with
    flags :=
      match rc with
      | none =>
        if x.dirtySeq = ps.2 then { flags with dirty := false, error := false } else flags
      | some _ => { flags with error := true } }

end Cache

/-! ## The calls -/

/-- The arguments of `page_cache_get_ra`. -/
structure Call where
  ip : ℕ
  index : ℕ
  window : ℕ
deriving DecidableEq

/-- Where a task is in a call. `none` as the call of a lookup is `page_cache_lookup` itself. -/
inductive Pc
  | idle
  /-- `page_cache_get_ra` before its lookup -/
  | enter (call : Call)
  /-- the lookup has pinned a page that is being filled -/
  | waiting (p : ℕ) (call : Option Call)
  /-- the lookup has pinned a page and is about to read its flags again -/
  | checking (p : ℕ) (call : Option Call)
  /-- the flags were bad -/
  | dropping (p : ℕ) (call : Option Call)
  /-- the lookup has failed -/
  | reserving (call : Call)
  /-- the pages are reserved, `readpages` is next -/
  | reading (pages : List ℕ)
  /-- the loop over the reserved pages, with the result of `readpages` if it counts -/
  | filling (pages : List ℕ) (batch : Option (Option Errno)) (i : ℕ) (demandError : Option Errno)
  /-- the loop that releases the pages from `i` on -/
  | releasing (pages : List ℕ) (i : ℕ) (demandError : Option Errno)
  /-- the release after that loop, for a demand error -/
  | releasingDemand (pages : List ℕ) (demandError : Errno)
  /-- in `writepages` -/
  | writing (pages : List ℕ) (snapshots : List ℕ)
deriving DecidableEq

/-- A task: the references it has been given and has not released, where it is, and what its
last call returned. -/
structure Task where
  held : List ℕ
  pc : Pc
  ret : Except Errno (Option ℕ)

/-- The references that the call under way has taken and not yet released or handed over. -/
def Pc.refs : Pc → List ℕ
  | .waiting p _ | .checking p _ | .dropping p _ => [p]
  | .reading pages | .filling pages .. => pages
  | .releasing pages i demandError =>
    pages.drop i ++ if demandError.isNone then pages.take 1 else []
  | .idle | .enter _ | .reserving _ | .releasingDemand .. | .writing .. => []

def Task.refs (x : Task) : List ℕ := x.held ++ x.pc.refs

structure Sys (n : ℕ) where
  cache : Cache
  task : Fin n → Task

/-- After `page_cache_init` got `size` pages. -/
def Sys.init (n size : ℕ) : Sys n where
  cache :=
    { page := fun _ => ⟨0, 0, false, 0, {}, none, 0, 0⟩
      hash := fun _ => []
      lru := []
      free := (List.range size).reverse }
  task := fun _ => ⟨[], .idle, .ok none⟩

def Sys.refs {n : ℕ} (s : Sys n) (p : ℕ) : ℕ := outstanding (fun t => (s.task t).refs) p

/-- What `page_cache_get_ra` reads of the inode: `i_aop->readpage` is there, the type is
`INODE_REGULAR`, the size. -/
structure InodeAttr where
  hasReadpage : Bool
  regular : Bool
  size : ℕ
deriving DecidableEq

/-- The window after the cap and the end of the file. -/
def Call.windowPages (call : Call) (ip : InodeAttr) : ℕ :=
  let filePages := u64 (ip.size + (pageSize - 1)) / pageSize
  if ip.regular then
    if filePages ≤ call.index then 1
    else min (pageCacheRaCap call.window) (filePages - call.index)
  else 1

inductive Act (n : ℕ)
  | lookup (t : Fin n) (ip index : ℕ)
  | getRa (t : Fin n) (call : Call)
  | enter (t : Fin n)
  | waited (t : Fin n)
  | check (t : Fin n)
  | drop (t : Fin n)
  | reserve (t : Fin n) (ip : InodeAttr) (ok : ℕ → Bool)
  | readpages (t : Fin n) (rc : Option (Option Errno))
  | fill (t : Fin n) (rc : Option Errno)
  | releaseNext (t : Fin n)
  | release (t : Fin n) (p : ℕ)
  | markDirty (t : Fin n) (p : ℕ)
  | collectDirty (t : Fin n) (only max : ℕ)
  | writeback (t : Fin n) (pages : List ℕ) (hasWritepages : Bool)
  | written (t : Fin n) (rc : Option Errno)
  | invalidate (t : Fin n) (ip : ℕ)

section Step

open Errno

variable {n : ℕ}

def Sys.setTask (s : Sys n) (t : Fin n) (x : Task) : Sys n :=
  { s with task := update s.task t x }

def Sys.setPc (s : Sys n) (t : Fin n) (pc : Pc) : Sys n :=
  s.setTask t { s.task t with pc := pc }

/-- The call returns without a page. -/
def Sys.fail (s : Sys n) (t : Fin n) (ret : Except Errno (Option ℕ)) : Sys n :=
  s.setTask t { s.task t with pc := .idle, ret := ret }

/-- The call returns `p`, whose reference is now the caller's. -/
def Sys.hand (s : Sys n) (t : Fin n) (p : ℕ) : Sys n :=
  s.setTask t ⟨p :: (s.task t).held, .idle, .ok (some p)⟩

/-- The lookup returns `NULL`. -/
def Sys.missed (s : Sys n) (t : Fin n) : Option Call → Sys n
  | none => s.fail t (.ok none)
  | some call => s.setPc t (.reserving call)

/-- `page_cache_lookup` up to the end of its first section. -/
def Sys.lookup (s : Sys n) (t : Fin n) (ip index : ℕ) (call : Option Call) : Sys n :=
  if ip = 0 then s.missed t call
  else
    match s.cache.findLocked ip index with
    | none => s.missed t call
    | some p =>
      let s := { s with cache := (s.cache.pin p).lruTouch p }
      s.setPc t (if (s.cache.page p).flags.filling then .waiting p call else .checking p call)

/-- Where `page_cache_get_ra` goes on after page `i` of the loops. -/
def Sys.filled (s : Sys n) (t : Fin n) (pages : List ℕ) (batch : Option (Option Errno)) (i : ℕ)
    (demandError : Option Errno) : Sys n :=
  s.setPc t
    (if i < pages.length then .filling pages batch i demandError
    else .releasing pages (if demandError.isSome then 0 else 1) demandError)

/-- `readpages` counts unless it ran out of memory or is not supported. -/
def batchResult : Option (Option Errno) → Option (Option Errno)
  | some (some .ENOMEM) | some (some .ENOTSUP) => none
  | rc => rc

def step (s : Sys n) : Act n → Option (Sys n)
  | .lookup t ip index =>
    if (s.task t).pc = .idle then some (s.lookup t ip index none) else none
  | .getRa t call =>
    if (s.task t).pc = .idle then
      if call.ip = 0 ∨ call.window = 0 then some (s.fail t (.error .EINVAL))
      else some (s.setPc t (.enter call))
    else none
  | .enter t =>
    match (s.task t).pc with
    | .enter call => some (s.lookup t call.ip call.index (some call))
    | _ => none
  | .waited t =>
    match (s.task t).pc with
    | .waiting p call =>
      if (s.cache.page p).flags.filling then none else some (s.setPc t (.checking p call))
    | _ => none
  | .check t =>
    match (s.task t).pc with
    | .checking p call =>
      if (s.cache.page p).flags.error || (s.cache.page p).flags.invalid then
        some (s.setPc t (.dropping p call))
      else some (s.hand t p)
    | _ => none
  | .drop t =>
    match (s.task t).pc with
    | .dropping p call => some (Sys.missed { s with cache := s.cache.release p } t call)
    | _ => none
  | .reserve t ip ok =>
    match (s.task t).pc with
    | .reserving call =>
      if ip.hasReadpage then
        let r := s.cache.reservePages ok call.ip call.index 0 (call.windowPages ip)
        let s := { s with cache := r.1 }
        -- nothing reserved: the call starts again with a window of one page
        if r.2 = [] then some (s.setPc t (.enter { call with window := 1 }))
        else some (s.setPc t (.reading r.2))
      else some (s.fail t (.error EIO))
    | _ => none
  | .readpages t rc =>
    match (s.task t).pc with
    | .reading pages => some (s.filled t pages (batchResult rc) 0 none)
    | _ => none
  | .fill t rc =>
    match (s.task t).pc with
    | .filling pages batch i demandError =>
      let rc := batch.getD rc
      pages[i]?.map fun p =>
        Sys.filled { s with cache := s.cache.finishFill p rc } t pages batch (i + 1)
          (if i = 0 then rc else demandError)
    | _ => none
  | .releaseNext t =>
    match (s.task t).pc with
    | .releasing pages i demandError =>
      match pages[i]? with
      | some p =>
        some (Sys.setPc { s with cache := s.cache.release p } t
          (.releasing pages (i + 1) demandError))
      | none =>
        match demandError with
        | some e => some (s.setPc t (.releasingDemand pages e))
        | none => pages.head?.map (s.hand t)
    | .releasingDemand pages e =>
      pages.head?.map fun p => Sys.fail { s with cache := s.cache.release p } t (.error e)
    | _ => none
  | .release t p =>
    if (s.task t).pc = .idle ∧ p ∈ (s.task t).held then
      some (Sys.setTask { s with cache := s.cache.release p } t
        { s.task t with held := (s.task t).held.erase p })
    else none
  | .markDirty t p =>
    if (s.task t).pc = .idle ∧ p ∈ (s.task t).held then
      some { s with cache := s.cache.markDirty p }
    else none
  | .collectDirty t only max =>
    if (s.task t).pc = .idle then
      let pages := s.cache.dirtyPages only max
      some (Sys.setTask { s with cache := pages.foldl Cache.pin s.cache } t
        { s.task t with held := pages ++ (s.task t).held })
    else none
  | .writeback t pages hasWritepages =>
    if (s.task t).pc = .idle ∧ ∀ p ∈ pages, p ∈ (s.task t).held then
      match pages with
      | [] => some (s.fail t (.error .EINVAL))
      | p :: _ =>
        if raMaxPages < pages.length ∨ (s.cache.page p).inode = 0 then
          some (s.fail t (.error .EINVAL))
        else if hasWritepages then
          let r := s.cache.startWriteback (s.cache.page p).inode pages
          let s := { s with cache := r.1 }
          if r.2 then
            some (s.setPc t (.writing pages (pages.map fun p => (s.cache.page p).dirtySeq)))
          else some (s.fail t (.error .EINVAL))
        else some (s.fail t (.error .ENOTSUP))
    else none
  | .written t rc =>
    match (s.task t).pc with
    | .writing pages snapshots =>
      some (Sys.fail { s with cache := (pages.zip snapshots).foldl (Cache.endWriteback rc) s.cache }
        t (match rc with | none => .ok none | some e => .error e))
    | _ => none
  | .invalidate t ip =>
    if (s.task t).pc = .idle ∧ ip ≠ 0 then
      some { s with cache := s.cache.invalidateInode ip }
    else none

end Step

end XosKernel.PageCache
