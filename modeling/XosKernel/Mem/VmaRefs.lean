/-
# The references of regions

Every region of a list owns one reference on each object it names: its shm object, its inode, the
shm object that it was copied from and its owner, and it counts as a writable shared mapping of its
shm object if it has `KMAP_SHM_MAYWRITE`. This module proves that `vma_split`, `vma_merge`,
`vma_unmap_range` and `vma_protect_range` keep this, whichever of their allocations fail.

The functions log what they do to the references (`XosKernel/Mem/Vma.lean`). The balance of a
counter is what the regions of the list hold of it, less what the log has added to it; no function
changes the balance.
-/
import XosKernel.Mem.VmaSum

namespace XosKernel.Vma

open Option

/-- A counter of a backing object: the reference count of an shm object, an inode or an owner, or
the `writable_shared_mappings` of an shm object. -/
inductive Counter
  | shm (o : ℕ)
  | writable (o : ℕ)
  | inode (o : ℕ)
  | owner (o : ℕ)
deriving DecidableEq

namespace Region

/-- The shm object of which the region is a writable shared mapping. -/
def mayWrite (r : Region) : Option ℕ := if r.has kmapShmMaywrite then r.shmObj else none

/-- The object that `vma_owner_get` and `vma_owner_put` refer to. -/
def ownerRef (r : Region) : Option ℕ := if r.has kmapVmaOwner then r.owner else none

/-- What `vma_split` takes for a new region and drops for the old one. -/
def refs (r : Region) : List Counter :=
  r.shmObj.toList.map .shm ++ r.mayWrite.toList.map .writable ++ r.inode.toList.map .inode ++
    r.shmPrivateSrc.toList.map .shm ++ r.ownerRef.toList.map .owner

def dropped (r : Region) : List Counter :=
  (if r.shmObj.isSome ∨ r.phys ≠ 0 ∨ r.has kmapVmaOwner then
      r.mayWrite.toList.map .writable ++ r.shmObj.toList.map .shm
    else []) ++
    r.inode.toList.map .inode ++ r.shmPrivateSrc.toList.map .shm ++ r.ownerRef.toList.map .owner

lemma dropped_perm (r : Region) : r.dropped.Perm r.refs := by
  refine ((List.Perm.append_right _ ?_).append_right _).append_right _
  cases hs : r.shmObj with
  | some o =>
    exact List.perm_append_comm
  | none =>
    have hw : r.mayWrite = none := by rw [mayWrite, hs, ite_self]
    simp [hw]

lemma refs_of_mergeable {r : Region} (h : Mmap.mergeable r = true) : r.refs = [] := by
  simp only [Mmap.mergeable, Bool.and_eq_true, beq_iff_eq, isNone_iff_eq_none,
    Bool.not_eq_true'] at h
  obtain ⟨⟨⟨⟨⟨-, hs⟩, -⟩, hi⟩, ho⟩, hp⟩ := h
  have hw : r.mayWrite = none := by rw [mayWrite, hs, ite_self]
  have hown : r.ownerRef = none := if_neg (by simp [ho])
  simp [refs, hs, hw, hi, hp, hown]

end Region

/-! ## The balance of a counter -/

section Balance

variable (k : Counter)

def held (r : Region) : ℤ := r.refs.count k

/-- What the regions of a list hold of a counter. -/
def holds (L : List Region) : ℤ := total (held k) L

def Effect.delta : Effect → ℤ
  | .get r => r.refs.count k
  | .put r => -r.refs.count k
  | .release r => -r.dropped.count k

def added (log : List Effect) : ℤ := (log.map (Effect.delta k)).sum

lemma holds_nil : holds k [] = 0 := rfl

lemma holds_cons (r : Region) (L : List Region) :
    holds k (r :: L) = r.refs.count k + holds k L := total_cons ..

lemma holds_append (L M : List Region) : holds k (L ++ M) = holds k L + holds k M := total_append ..

@[simp] lemma added_emit (c : Ctx) (e : Effect) :
    added k (c.emit e).log = added k c.log + e.delta k := by
  simp [added, Ctx.emit]

lemma delta_release (r : Region) : (Effect.release r).delta k = -r.refs.count k := by
  rw [Effect.delta, r.dropped_perm.count_eq]

lemma refs_piece (r : Region) (addr size : ℕ) : (piece r addr size).refs = r.refs := rfl

lemma added_append (log es : List Effect) : added k (log ++ es) = added k log + added k es := by
  simp [added]

lemma added_cons (e : Effect) (es : List Effect) : added k (e :: es) = e.delta k + added k es :=
  List.sum_cons

lemma added_gets (L : List Region) : added k (L.map .get) = holds k L := by
  rw [added, List.map_map]
  rfl

/-- A split that succeeds replaces a region by its parts, with their references; one that fails has
given back what it took. -/
lemma vmaSplit_balance (oracle : ℕ → Bool) (c : Ctx) (r : Region) (addr size : ℕ) :
    match vmaSplit oracle c r addr size with
    | (none, c') => added k c'.log = added k c.log
    | (some s, c') =>
      s.mid.refs = r.refs ∧
        holds k (s.front ++ s.mid :: s.tail) - added k c'.log = r.refs.count k - added k c.log := by
  obtain ⟨c', ⟨hnone, hlog, -⟩ | ⟨-, -, hsome, hlog⟩⟩ := vmaSplit_inv oracle c r addr size
  · rw [hnone]
    rcases hlog with hlog | hlog <;> simp [hlog, added, Effect.delta]
  · rw [hsome]
    refine ⟨rfl, ?_⟩
    rw [hlog, added_append, added_cons, added_append, added_gets, holds_append, holds_cons,
      frontPiece, Effect.delta]
    split_ifs
    · rw [added_cons, Effect.delta, refs_piece, holds_nil]
      simp only [added, List.map_nil, List.sum_nil]
      ring
    · rw [holds_cons, holds_nil, refs_piece]
      simp only [added, List.map_nil, List.sum_nil]
      change (r.refs.count k : ℤ) + 0 + _ - _ = _
      ring

/-- What an operation on a piece leaves in the list, with what it logs. -/
def Balanced (onPiece : Ctx → Region → List Region × Ctx) : Prop :=
  ∀ c m, holds k (onPiece c m).1 - added k (onPiece c m).2.log = m.refs.count k - added k c.log

lemma cutOut_conserves {onPiece : Ctx → Region → List Region × Ctx} (hop : Balanced k onPiece)
    (oracle : ℕ → Bool) (c : Ctx) (r : Region) (addr size : ℕ) :
    Conserves (held k) (fun c => added k c.log) (fun _ => True) c r
      (cutOut oracle onPiece c r addr size) := by
  have hsplit := vmaSplit_balance k oracle c r addr size
  rw [cutOut]
  revert hsplit
  generalize vmaSplit oracle c r addr size = p
  obtain ⟨_ | s, c1⟩ := p
  · exact id
  · rintro ⟨hmid, hsplit⟩
    have hpiece := hop c1 s.mid
    refine ⟨?_, fun _ _ => trivial⟩
    change holds k (s.front ++ (onPiece c1 s.mid).1 ++ s.tail) - added k (onPiece c1 s.mid).2.log =
      r.refs.count k - added k c.log
    simp only [holds_append, holds_cons, hmid] at hpiece hsplit ⊢
    linarith

/-- The loop over the regions changes no balance, and neither does one that stops at a failed
allocation. -/
lemma rangeLoop_balance {onPiece : Ctx → Region → List Region × Ctx} (hop : Balanced k onPiece)
    (oracle : ℕ → Bool) (addr stop : ℕ) (c : Ctx) (L : List Region) :
    holds k (rangeLoop oracle onPiece addr stop c L).2.1 -
        added k (rangeLoop oracle onPiece addr stop c L).2.2.log =
      holds k L - added k c.log := by
  refine (rangeLoop_conserves (held k) (fun c => added k c.log) (fun _ => True) ?_ ?_ ?_ L c
    fun _ _ => trivial).1
  · exact fun c r _ _ _ _ => cutOut_conserves k hop oracle c r _ _
  · exact fun c r _ _ _ _ _ => cutOut_conserves k hop oracle c r _ _
  · exact fun c r _ _ _ _ _ => ⟨hop c r, fun _ _ => trivial⟩

lemma balanced_unmap : Balanced k fun c mid => ([], c.emit (.release mid)) := by
  intro c m
  rw [added_emit, delta_release, holds_nil]
  ring

lemma balanced_protect (prot : ℕ) : Balanced k fun c mid => ([{ mid with prot := prot }], c) := by
  intro c m
  rfl

lemma joins_held : Joins (held k) fun _ => True := by
  intro a b _ _ h
  have hb : Mmap.mergeable b = true := by
    simp only [Mmap.joins, Bool.and_eq_true] at h
    exact h.1.1.1.2
  refine ⟨?_, trivial⟩
  simp only [held, Region.refs_of_mergeable hb, List.count_nil, Nat.cast_zero, add_zero]
  rfl

end Balance

/-! ## Runs -/

structure Space where
  regions : List Region
  counts : Counter → ℤ

def applyEffect (counts : Counter → ℤ) : Effect → Counter → ℤ
  | .get r => fun k => counts k + r.refs.count k
  | .put r => fun k => counts k - r.refs.count k
  | .release r => fun k => counts k - r.dropped.count k

def Space.after (s : Space) (regions : List Region) (c : Ctx) : Space :=
  ⟨regions, c.log.foldl applyEffect s.counts⟩

/-- A call of one of the functions; the oracle says which of its allocations succeed. -/
inductive Op
  | split (i addr size : ℕ) (oracle : ℕ → Bool)
  | merge (i : ℕ)
  | unmap (addr len : ℕ) (oracle : ℕ → Bool)
  | protect (addr len prot : ℕ) (oracle : ℕ → Bool)

def splitAt (L : List Region) (i addr size : ℕ) (oracle : ℕ → Bool) :
    Option (List Region × Ctx) :=
  L[i]?.map fun r =>
    match vmaSplit oracle ⟨0, []⟩ r addr size with
    | (none, c) => (L, c)
    | (some s, c) => (L.take i ++ (s.front ++ s.mid :: s.tail) ++ L.drop (i + 1), c)

def refStep (s : Space) : Op → Option Space
  | .split i addr size oracle =>
    (splitAt s.regions i addr size oracle).map fun p => s.after p.1 p.2
  | .merge i =>
    s.regions[i]?.map fun r =>
      { s with regions := Mmap.vmaMerge (s.regions.take i) r (s.regions.drop (i + 1)) }
  | .unmap addr len oracle =>
    let res := vmaUnmapRange oracle ⟨0, []⟩ s.regions addr len
    some (s.after res.2.1 res.2.2)
  | .protect addr len prot oracle =>
    let res := vmaProtectRange oracle ⟨0, []⟩ s.regions addr len prot
    some (s.after res.2.1 res.2.2)

/-- Each region owns one reference on each object it names, and the other references are `outside`.
-/
structure Conserved (outside : Counter → ℤ) (s : Space) : Prop where
  shm : ∀ o, s.counts (.shm o) = outside (.shm o) +
    s.regions.countP (·.shmObj = some o) + s.regions.countP (·.shmPrivateSrc = some o)
  inode : ∀ o, s.counts (.inode o) = outside (.inode o) + s.regions.countP (·.inode = some o)
  owner : ∀ o, s.counts (.owner o) = outside (.owner o) + s.regions.countP (·.ownerRef = some o)
  writable : ∀ o, s.counts (.writable o) = outside (.writable o) +
    s.regions.countP fun r => r.has kmapShmMaywrite ∧ r.shmObj = some o

/-- The same, for all counters at once. -/
def Held (outside : Counter → ℤ) (s : Space) : Prop :=
  ∀ k, s.counts k = outside k + holds k s.regions

variable {outside : Counter → ℤ} {s : Space}

section Conserved

lemma count_map_toList (c : ℕ → Counter) (x : Option ℕ) (k : Counter) :
    (x.toList.map c).count k = if x.map c = some k then 1 else 0 := by
  cases x with
  | none => rfl
  | some y => simp [List.count_cons]

lemma sum_map_ite (L : List Region) (p : Region → Prop) [DecidablePred p] :
    (L.map fun r => if p r then (1 : ℤ) else 0).sum = L.countP (p ·) := by
  induction L with
  | nil => rfl
  | cons r L ih =>
    rw [List.map_cons, List.sum_cons, ih, List.countP_cons]
    push_cast
    simp only [decide_eq_true_eq]
    ring

variable (L : List Region) (o : ℕ)

lemma mayWrite_eq_some (r : Region) :
    r.mayWrite = some o ↔ r.has kmapShmMaywrite = true ∧ r.shmObj = some o := by
  rw [Region.mayWrite, ite_none_right_eq_some]

lemma count_refs (r : Region) (k : Counter) :
    (r.refs.count k : ℤ) = match k with
      | .shm o => (if r.shmObj = some o then 1 else 0) + if r.shmPrivateSrc = some o then 1 else 0
      | .writable o => if r.has kmapShmMaywrite ∧ r.shmObj = some o then 1 else 0
      | .inode o => if r.inode = some o then 1 else 0
      | .owner o => if r.ownerRef = some o then 1 else 0 := by
  rw [Region.refs]
  simp only [List.count_append, count_map_toList, map_eq_some_iff]
  cases k with
  | shm o => simp
  | writable o => simp [mayWrite_eq_some]
  | inode o => simp
  | owner o => simp

lemma holds_eq (k : Counter) : holds k L = (L.map fun r => (r.refs.count k : ℤ)).sum := rfl

lemma holds_shm : holds (.shm o) L =
    L.countP (·.shmObj = some o) + L.countP (·.shmPrivateSrc = some o) := by
  simp only [holds_eq, count_refs, List.sum_map_add, sum_map_ite]

lemma holds_writable : holds (.writable o) L =
    L.countP fun r => r.has kmapShmMaywrite ∧ r.shmObj = some o := by
  simp only [holds_eq, count_refs, sum_map_ite]

lemma holds_inode : holds (.inode o) L = L.countP (·.inode = some o) := by
  simp only [holds_eq, count_refs, sum_map_ite]

lemma holds_owner : holds (.owner o) L = L.countP (·.ownerRef = some o) := by
  simp only [holds_eq, count_refs, sum_map_ite]

lemma conserved_iff_held : Conserved outside s ↔ Held outside s := by
  constructor
  · intro h k
    cases k with
    | shm o => rw [h.shm, holds_shm, add_assoc]
    | writable o => rw [h.writable, holds_writable]
    | inode o => rw [h.inode, holds_inode]
    | owner o => rw [h.owner, holds_owner]
  · intro h
    refine ⟨fun o => ?_, fun o => ?_, fun o => ?_, fun o => ?_⟩
    · rw [h, holds_shm, add_assoc]
    · rw [h, holds_inode]
    · rw [h, holds_owner]
    · rw [h, holds_writable]

end Conserved

lemma foldl_applyEffect (log : List Effect) (counts : Counter → ℤ) (k : Counter) :
    log.foldl applyEffect counts k = counts k + added k log := by
  induction log generalizing counts with
  | nil => exact (add_zero _).symm
  | cons e log ih =>
    rw [List.foldl_cons, ih, added, added, List.map_cons, List.sum_cons]
    cases e <;> simp only [applyEffect, Effect.delta] <;> ring

lemma Held.after (h : Held outside s) {L : List Region} {c : Ctx}
    (hbal : ∀ k, holds k L - added k c.log = holds k s.regions) : Held outside (s.after L c) := by
  intro k
  change c.log.foldl applyEffect s.counts k = outside k + holds k L
  rw [foldl_applyEffect, h k, ← hbal k]
  ring

lemma splitAt_balance {L M : List Region} {i addr size : ℕ} {oracle : ℕ → Bool} {c : Ctx}
    (h : splitAt L i addr size oracle = some (M, c)) (k : Counter) :
    holds k M - added k c.log = holds k L := by
  obtain ⟨r, hr, heq⟩ := map_eq_some_iff.1 h
  obtain ⟨hi, rfl⟩ := List.getElem?_eq_some_iff.1 hr
  have hsplit := vmaSplit_balance k oracle ⟨0, []⟩ L[i] addr size
  revert hsplit heq
  generalize vmaSplit oracle ⟨0, []⟩ L[i] addr size = p
  obtain ⟨_ | s, c1⟩ := p
  · intro heq hsplit
    obtain ⟨rfl, rfl⟩ := Prod.mk.inj heq
    change added k c1.log = 0 at hsplit
    rw [hsplit, sub_zero]
  · rintro heq ⟨-, hsplit⟩
    obtain ⟨rfl, rfl⟩ := Prod.mk.inj heq
    change _ = _ - (0 : ℤ) at hsplit
    have hL : holds k L = holds k (L.take i) + (L[i].refs.count k + holds k (L.drop (i + 1))) := by
      rw [← holds_cons, ← holds_append, List.getElem_cons_drop, List.take_append_drop]
    rw [hL, holds_append, holds_append]
    linarith

theorem refStep_held {t : Space} {op : Op} (h : Held outside s)
    (hst : refStep s op = some t) : Held outside t := by
  cases op with
  | split i addr size oracle =>
    obtain ⟨p, hp, rfl⟩ := map_eq_some_iff.1 hst
    exact h.after (splitAt_balance hp)
  | merge i =>
    obtain ⟨r, hr, rfl⟩ := map_eq_some_iff.1 hst
    obtain ⟨hi, rfl⟩ := List.getElem?_eq_some_iff.1 hr
    intro k
    change s.counts k = _ + total (held k) (Mmap.vmaMerge ..)
    rw [h k, (total_vmaMerge (joins_held k) fun _ _ => trivial).1, List.getElem_cons_drop,
      List.take_append_drop]
    rfl
  | unmap addr len oracle =>
    obtain rfl := some.inj hst
    refine h.after fun k => ?_
    exact (rangeLoop_balance k (balanced_unmap k) oracle addr _ ⟨0, []⟩ s.regions).trans
      (sub_zero _)
  | protect addr len prot oracle =>
    obtain rfl := some.inj hst
    refine h.after fun k => ?_
    exact (rangeLoop_balance k (balanced_protect k prot) oracle addr _ ⟨0, []⟩ s.regions).trans
      (sub_zero _)

/-- Every sequence of calls, whichever allocations fail, keeps the references of the regions. -/
theorem references_conserved {outside : Counter → ℤ} {ops : List Op} {s t : Space}
    (hs : Conserved outside s) (h : exec refStep s ops = some t) : Conserved outside t :=
  conserved_iff_held.2 (exec_invariant (fun _ _ _ => refStep_held) (conserved_iff_held.1 hs) h)

/-- Four writable pages of a shared object, with an owner. -/
def sharedPages : Region :=
  { vaddr := 4 * pageSize
    size := 4 * pageSize
    phys := 0
    shmObj := some 1
    prot := 3
    fd := 5
    offset := 0
    flags := kmapShmMaywrite ||| kmapVmaOwner
    inode := none
    shmPrivateSrc := some 2
    owner := some 3
    raLastPage := 0
    raNextPage := 0
    raWindowPages := 0
    raSequentialFaults := 0 }

def filePages : Region :=
  { sharedPages with
    vaddr := 8 * pageSize
    size := 2 * pageSize
    shmObj := none
    flags := 0
    inode := some 4
    shmPrivateSrc := none
    owner := none }

/-- The references that the two regions own, and a reference from outside on the shm object. -/
def twoRegions : Space :=
  ⟨[sharedPages, filePages], fun k => (if k = .shm 1 then 1 else 0) + holds k
  [sharedPages, filePages]⟩

/-- Protect the page in the middle; unmap a range over both regions, the second split of which
fails; merge; unmap the rest. -/
def cutTwice : List Op :=
  [.protect (5 * pageSize) pageSize 1 fun _ => true,
    .unmap (7 * pageSize) (2 * pageSize) fun n => n < 1, .merge 1,
    .unmap (4 * pageSize) (3 * pageSize) fun _ => true]

theorem references_conserved_cut : ∃ t, exec refStep twoRegions cutTwice = some t ∧
    t.regions.length = 1 ∧ t.counts (.shm 1) = 1 ∧
    Conserved (fun k => if k = .shm 1 then 1 else 0) t := by
  have hs : Conserved (fun k => if k = .shm 1 then 1 else 0) twoRegions :=
    conserved_iff_held.2 fun _ => rfl
  obtain ⟨t, ht, hlen, hcount⟩ : ∃ t, exec refStep twoRegions cutTwice = some t ∧
      t.regions.length = 1 ∧ t.counts (.shm 1) = 1 := by decide +kernel
  exact ⟨t, ht, hlen, hcount, references_conserved hs ht⟩

end XosKernel.Vma
