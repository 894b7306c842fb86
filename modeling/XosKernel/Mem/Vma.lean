/-
# Virtual memory regions

The model of the region list of `kernel/xcore/mem/vma.c`. A region list is the list of the
`struct mmap_region`s of an address space in the order of their `next` pointers; pointers to
backing objects are identifiers. Sums and differences wrap around at 64 bits where the
code computes them.

`kmalloc` is an oracle that says whether the `n`-th allocation succeeds. What the functions
do to backing objects and to pages is recorded in a log of effects, in the order of the
calls.
-/
import XosKernel.Mem.Layout

namespace XosKernel.Vma

open List

def kmapPhysical : ℕ := 0x80000000

def kmapDmaOwned : ℕ := 0x40000000

def kmapVmaOwner : ℕ := 0x20000000

def kmapShmMaywrite : ℕ := 0x10000000

/-- `struct mmap_region`, without the list pointer. -/
structure Region where
  vaddr : ℕ
  size : ℕ
  phys : ℕ
  shmObj : Option ℕ
  prot : ℕ
  fd : ℤ
  offset : ℕ
  flags : ℕ
  inode : Option ℕ
  shmPrivateSrc : Option ℕ
  owner : Option ℕ
  raLastPage : ℕ
  raNextPage : ℕ
  raWindowPages : ℕ
  raSequentialFaults : ℕ
deriving DecidableEq

def Region.has (r : Region) (flag : ℕ) : Bool := r.flags &&& flag != 0

/-- `r->vaddr + r->size`. -/
def Region.stop (r : Region) : ℕ := u64 (r.vaddr + r.size)

def vmaResetReadahead (r : Region) : Region :=
  { r with
    raLastPage := 2 ^ 64 - 1, raNextPage := 0, raWindowPages := 0, raSequentialFaults := 0 }

/-- What a region function does outside the list: take the references a region holds, drop
them, or release a region with its pages (`free_one_region`). -/
inductive Effect
  | get (r : Region)
  | put (r : Region)
  | release (r : Region)
deriving DecidableEq

/-- The number of allocations made so far and the effects so far. -/
structure Ctx where
  allocs : ℕ
  log : List Effect

def Ctx.emit (c : Ctx) (e : Effect) : Ctx := { c with log := c.log ++ [e] }

/-- `kmalloc(sizeof(mmap_region))`. -/
def Ctx.kmalloc (c : Ctx) (oracle : ℕ → Bool) : Bool × Ctx :=
  (oracle c.allocs, { c with allocs := c.allocs + 1 })

/-! ## Splitting -/

def piece (r : Region) (addr size : ℕ) : Region :=
  let delta := u64Sub addr r.vaddr
  { vmaResetReadahead r with
    vaddr := addr
    size := size
    offset := u64 (r.offset + delta)
    phys := if r.phys = 0 then 0 else u64 (r.phys + delta) }

/-- What `vma_split` leaves of `r` in front of `addr`: the shrunk descriptor, if any. -/
def frontPiece (r : Region) (addr : ℕ) : List Region :=
  if addr = r.vaddr then []
  else [{ vmaResetReadahead r with size := u64Sub addr r.vaddr }]

/-- Without a front piece the descriptor `r` is destroyed. -/
def dropOld (r : Region) (addr : ℕ) (c : Ctx) : Ctx :=
  if addr = r.vaddr then c.emit (.put r) else c

/-- What `vma_split` puts in the place of the region. -/
structure Split where
  front : List Region
  mid : Region
  tail : List Region

/-- `vma_split`; `none` is the null pointer, and then the list is as before. -/
def vmaSplit (oracle : ℕ → Bool) (c : Ctx) (r : Region) (addr size : ℕ) :
    Option Split × Ctx :=
  if size = 0 ∨ addr < r.vaddr ∨ r.stop < u64 (addr + size) then (none, c)
  else
    let mid := piece r addr size
    match c.kmalloc oracle with
    | (false, c) => (none, c)
    | (true, c) =>
        let c := c.emit (.get mid)
        if u64 (addr + size) < r.stop then
          match c.kmalloc oracle with
          | (false, c) => (none, c.emit (.put mid))
          | (true, c) =>
              let tail := piece r (u64 (addr + size)) (r.stop - u64 (addr + size))
              (some ⟨frontPiece r addr, mid, [tail]⟩, dropOld r addr (c.emit (.get tail)))
        else (some ⟨frontPiece r addr, mid, []⟩, dropOld r addr c)

/-- What is left behind a part. -/
def tailPiece (r : Region) (v : ℕ) : List Region :=
  if v < r.stop then [piece r v (r.stop - v)] else []

/-- What a split can do: it gives back what it took, or the region is replaced by its parts. -/
lemma vmaSplit_inv (oracle : ℕ → Bool) (c : Ctx) (r : Region) (v n : ℕ) : ∃ c',
    (vmaSplit oracle c r v n = (none, c') ∧
      (c'.log = c.log ∨ c'.log = c.log ++ [.get (piece r v n), .put (piece r v n)]) ∧
      ((n = 0 ∨ v < r.vaddr ∨ r.stop < u64 (v + n)) ∨ ∃ m, oracle m = false)) ∨
    (r.vaddr ≤ v ∧ u64 (v + n) ≤ r.stop ∧
      vmaSplit oracle c r v n =
        (some ⟨frontPiece r v, piece r v n, tailPiece r (u64 (v + n))⟩, c') ∧
      c'.log = c.log ++ .get (piece r v n) :: ((tailPiece r (u64 (v + n))).map .get ++
        if v = r.vaddr then [.put r] else [])) := by
  rw [vmaSplit]
  by_cases hbad : n = 0 ∨ v < r.vaddr ∨ r.stop < u64 (v + n)
  · exact ⟨c, .inl ⟨if_pos hbad, .inl rfl, .inl hbad⟩⟩
  rw [if_neg hbad]
  obtain ⟨-, hlo, hhi⟩ : n ≠ 0 ∧ r.vaddr ≤ v ∧ u64 (v + n) ≤ r.stop := by omega
  simp only [Ctx.kmalloc, Ctx.emit]
  cases h : oracle c.allocs with
  | false => exact ⟨_, .inl ⟨rfl, .inl rfl, .inr ⟨_, h⟩⟩⟩
  | true =>
    rw [tailPiece]
    by_cases htail : u64 (v + n) < r.stop
    · simp only [if_pos htail]
      cases h' : oracle (c.allocs + 1) with
      | false => exact ⟨_, .inl ⟨rfl, .inr (by simp), .inr ⟨_, h'⟩⟩⟩
      | true =>
        refine ⟨_, .inr ⟨hlo, hhi, rfl, ?_⟩⟩
        rw [dropOld]
        split_ifs <;> simp [Ctx.emit]
    · simp only [if_neg htail]
      refine ⟨_, .inr ⟨hlo, hhi, rfl, ?_⟩⟩
      rw [dropOld]
      split_ifs <;> simp [Ctx.emit]

/-! ## Operations on a range -/

/-- Split the piece `[addr, addr + size)` out of a region and hand it to `onPiece`, which says
what stays in the list in its place. -/
def cutOut (oracle : ℕ → Bool) (onPiece : Ctx → Region → List Region × Ctx) (c : Ctx)
    (r : Region) (addr size : ℕ) : Option (List Region) × Ctx :=
  match vmaSplit oracle c r addr size with
  | (none, c) => (none, c)
  | (some s, c) =>
      let (kept, c) := onPiece c s.mid
      (some (s.front ++ kept ++ s.tail), c)

/-- The loop shared by `vma_unmap_range` and `vma_protect_range`: hand the piece inside
`[addr, stop)` of every region to `onPiece`. The first component is the error code, `none`
for success. -/
def rangeLoop (oracle : ℕ → Bool) (onPiece : Ctx → Region → List Region × Ctx)
    (addr stop : ℕ) : Ctx → List Region → Option Errno × List Region × Ctx
  | c, [] => (none, [], c)
  | c, cur :: next =>
      if stop ≤ cur.vaddr then (none, cur :: next, c)
      else if cur.stop ≤ addr then
        let (e, rest, c) := rangeLoop oracle onPiece addr stop c next
        (e, cur :: rest, c)
      else if cur.vaddr < addr then
        let splitLen := if cur.stop < stop then u64Sub cur.stop addr else u64Sub stop addr
        match cutOut oracle onPiece c cur addr splitLen with
        | (none, c) => (some .ENOMEM, cur :: next, c)
        | (some pieces, c) =>
            let (e, rest, c) := rangeLoop oracle onPiece addr stop c next
            (e, pieces ++ rest, c)
      else if stop < cur.stop then
        match cutOut oracle onPiece c cur cur.vaddr (u64Sub stop cur.vaddr) with
        | (none, c) => (some .ENOMEM, cur :: next, c)
        | (some pieces, c) =>
            let (e, rest, c) := rangeLoop oracle onPiece addr stop c next
            (e, pieces ++ rest, c)
      else
        let (kept, c) := onPiece c cur
        let (e, rest, c) := rangeLoop oracle onPiece addr stop c next
        (e, kept ++ rest, c)

lemma mem_rangeLoop {oracle : ℕ → Bool} {onPiece : Ctx → Region → List Region × Ctx}
    {addr stop : ℕ} {c : Ctx} {L : List Region} {r : Region} (hr : r ∈ L)
    (hout : r.stop ≤ addr ∨ stop ≤ r.vaddr) :
    r ∈ (rangeLoop oracle onPiece addr stop c L).2.1 := by
  -- a region that the loop cuts or hands on is in the range, so it is not `r`
  have hnext {cur : Region} {next : List Region} (hbreak : ¬ stop ≤ cur.vaddr)
      (hskip : ¬ cur.stop ≤ addr) (hr : r ∈ cur :: next) : r ∈ next := by
    rcases mem_cons.1 hr with rfl | hr
    · exact absurd hout (not_or.2 ⟨hskip, hbreak⟩)
    · exact hr
  fun_induction rangeLoop oracle onPiece addr stop c L with
  | case1 => cases hr
  | case2 => exact hr
  | case3 c cur next _ _ e rest c1 heq ih =>
    rw [heq] at ih
    rcases mem_cons.1 hr with rfl | hr
    · exact mem_cons_self
    · exact mem_cons_of_mem _ (ih hr)
  | case4 => exact hr
  | case5 c cur next hbreak hskip _ _ pieces c1 _ e rest c2 heq ih
  | case7 c cur next hbreak hskip _ _ pieces c1 _ e rest c2 heq ih
  | case8 c cur next hbreak hskip _ _ kept c1 _ e rest c2 heq ih =>
    rw [heq] at ih
    exact mem_append_right _ (ih (hnext hbreak hskip hr))
  | case6 => exact hr

/-- `vma_unmap_range`: the piece is released with `free_one_region`. -/
def vmaUnmapRange (oracle : ℕ → Bool) (c : Ctx) (regions : List Region) (addr len : ℕ) :
    Option Errno × List Region × Ctx :=
  rangeLoop oracle (fun c mid => ([], c.emit (.release mid))) addr (u64 (addr + len)) c regions

/-- `vma_protect_range`: the piece gets the new protection. -/
def vmaProtectRange (oracle : ℕ → Bool) (c : Ctx) (regions : List Region)
    (addr len prot : ℕ) : Option Errno × List Region × Ctx :=
  rangeLoop oracle (fun c mid => ([{ mid with prot := prot }], c)) addr (u64 (addr + len)) c
    regions

end XosKernel.Vma
