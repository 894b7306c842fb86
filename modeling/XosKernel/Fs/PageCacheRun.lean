/-
# Ownership of cache pages along runs

The references of a page are what the tasks hold and what the calls under way have taken. They
are the pin count in every state of every run in which the first page of each reservation, the
one the caller wants, is read without an error. After an error on that page
`page_cache_get_ra` releases it in its loop and then once more.
-/
import XosKernel.Fs.PageCacheInv

namespace XosKernel.PageCache

open List Option Task

variable {n size : ℕ} {s s' : Sys n} {t : Fin n}

/-! ## The property -/

namespace Sys

def OnFreeList (s : Sys n) (p : ℕ) : Prop := p ∈ s.cache.free

def Hashed (s : Sys n) (p : ℕ) : Prop := ∃ b, p ∈ s.cache.hash b

def OnLru (s : Sys n) (p : ℕ) : Prop := p ∈ s.cache.lru

/-- Each of the pages is in exactly one of the three places, and on a list at most once; no two
hashed pages have the same inode and index; the pin count is the number of references. -/
structure Owned (s : Sys n) (size : ℕ) : Prop where
  place : ∀ p, p < size →
    (s.OnFreeList p ∧ ¬ s.Hashed p ∧ ¬ s.OnLru p) ∨
    (¬ s.OnFreeList p ∧ s.Hashed p ∧ s.OnLru p) ∨
    (¬ s.OnFreeList p ∧ ¬ s.Hashed p ∧ ¬ s.OnLru p ∧ 0 < (s.cache.page p).pinCount)
  free_once : s.cache.free.Nodup
  lru_once : s.cache.lru.Nodup
  hash_once : ∀ b, (s.cache.hash b).Nodup ∧
    ∀ p ∈ s.cache.hash b, ∀ b', p ∈ s.cache.hash b' → b' = b
  keys : ∀ p q, s.Hashed p → s.Hashed q → (s.cache.page p).inode = (s.cache.page q).inode →
    (s.cache.page p).pageIndex = (s.cache.page q).pageIndex → p = q
  pins : ∀ p, (s.cache.page p).pinCount = s.refs p

end Sys

/-- The read of the page that the caller of `page_cache_get_ra` asked for succeeds; those of the
read-ahead may fail. -/
def DemandReadSucceeds (s : Sys n) : Act n → Prop
  | .fill t rc =>
    match (s.task t).pc with
    | .filling _ batch 0 _ => batch.getD rc = none
    | _ => True
  | _ => True

instance (s : Sys n) (a : Act n) : Decidable (DemandReadSucceeds s a) := by
  unfold DemandReadSucceeds
  split
  · split <;> infer_instance
  · infer_instance

/-! ## The invariant -/

def Pc.Clean : Pc → Prop
  | .filling _ _ _ demandError | .releasing _ _ demandError => demandError = none
  | .releasingDemand .. => False
  | _ => True

structure Inv (size : ℕ) (s : Sys n) : Prop where
  good : s.cache.Good size s.refs
  clean : ∀ t, (s.task t).pc.Clean

lemma Inv.init (n size : ℕ) : Inv size (Sys.init n size) where
  good :=
    { nodups := ⟨nodup_reverse.2 nodup_range, nodup_nil, fun _ => nodup_nil⟩
      owned := fun p hp => .inl ⟨mem_reverse.2 (mem_range.2 hp), not_mem_nil,
        fun _ => not_mem_nil, rfl⟩
      free_lt := fun p hp => mem_range.1 (mem_reverse.1 hp)
      lru_lt := fun p hp => absurd hp not_mem_nil
      hash_lt := fun b p hp => absurd hp not_mem_nil
      unique := fun p hp => absurd hp not_mem_nil
      pins := fun p => by simp [Sys.init, Sys.refs, outstanding, refs, Pc.refs]
      refs_lt := fun p hp => by simp [Sys.init, Sys.refs, outstanding, refs, Pc.refs] at hp }
  clean := fun _ => trivial

lemma Inv.owned (h : Inv size s) : s.Owned size := by
  have hcached : ∀ p, s.Hashed p → s.cache.CachedAt p := fun p ⟨b, hb⟩ =>
    h.good.cached_of_mem_hash hb
  refine ⟨fun p hp => ?_, h.good.nodups.free, h.good.nodups.lru, fun b => ⟨h.good.nodups.hash b,
    fun p hp b' hb' => ?_⟩, fun p q hp hq hinode hindex => ?_, h.good.pins⟩
  · rcases h.good.owned p hp with ⟨hfree, hlru, hhash, _⟩ | ⟨hfree, hlru, hhash, _⟩ |
      ⟨hfree, hlru, hhash, hpin, _⟩
    · exact .inl ⟨hfree, fun ⟨b, hb⟩ => hhash b hb, hlru⟩
    · exact .inr (.inl ⟨hfree, ⟨_, (hhash _).2 rfl⟩, hlru⟩)
    · exact .inr (.inr ⟨hfree, fun ⟨b, hb⟩ => hhash b hb, hlru, hpin⟩)
  · have := hcached p ⟨b, hp⟩
    exact ((this.2.2.1 b').1 hb').trans ((this.2.2.1 b).1 hp).symm
  · exact h.good.unique p (hcached p hp).2.1 q (hcached q hq).2.1 (Prod.ext hinode hindex)

/-! ## One step -/

@[simp] lemma setTask_self (x : Task) : (s.setTask t x).task t = x := Function.update_self ..

variable {x : Task} {c : Cache} {p : ℕ} {pages : List ℕ}

lemma setTask_of_ne {u : Fin n} (h : u ≠ t) : (s.setTask t x).task u = s.task u :=
  Function.update_of_ne h ..

lemma refs_setTask (x : Task) (p : ℕ) :
    (s.setTask t x).refs p + (s.task t).refs.count p = s.refs p + x.refs.count p := by
  have h := outstanding_of_eqOn
    (fun u hu => congrArg refs (setTask_of_ne (s := s) (t := t) (x := x) hu)) p
  rwa [setTask_self] at h

lemma Task.count_refs (x : Task) (p : ℕ) :
    x.refs.count p = x.held.count p + x.pc.refs.count p := count_append

section

variable (h : Inv size s)
include h

lemma Inv.setTask (hx : x.pc.Clean) (hgood : ∀ refs : ℕ → ℕ,
      (∀ p, refs p + (s.task t).refs.count p = s.refs p + x.refs.count p) → c.Good size refs) :
    Inv size (Sys.setTask { s with cache := c } t x) where
  good := hgood _ fun p => refs_setTask (s := { s with cache := c }) x p
  clean u := by
    by_cases hu : u = t
    · subst hu
      rw [setTask_self]
      exact hx
    · rw [setTask_of_ne hu]
      exact h.clean u

lemma Inv.setTask_of_refs (hc : c.Good size s.refs)
    (hx : x.pc.Clean) (hrefs : ∀ p, x.refs.count p = (s.task t).refs.count p) :
    Inv size (Sys.setTask { s with cache := c } t x) :=
  h.setTask hx fun refs hr => hc.congr fun p => by
    have := hr p
    have := hrefs p
    omega

lemma Inv.setPc (hc : c.Good size s.refs) {pc : Pc}
    (hpc : pc.Clean) (hrefs : ∀ p, pc.refs.count p = (s.task t).pc.refs.count p) :
    Inv size (Sys.setPc { s with cache := c } t pc) :=
  h.setTask_of_refs hc hpc fun p => by
    rw [count_refs, count_refs, hrefs p]

lemma Inv.fail (hc : c.Good size s.refs)
    (hrefs : (s.task t).pc.refs = []) (ret : Except Errno (Option ℕ)) :
    Inv size (Sys.fail { s with cache := c } t ret) :=
  h.setTask_of_refs hc trivial fun p => by
    rw [refs, refs, hrefs]
    rfl

lemma Inv.missed (hrefs : (s.task t).pc.refs = []) (call : Option Call) :
    Inv size (s.missed t call) := by
  cases call with
  | none => exact h.fail h.good hrefs _
  | some call => exact h.setPc h.good trivial fun p => by rw [hrefs]; rfl

lemma Inv.hand (hrefs : (s.task t).pc.refs = [p]) : Inv size (s.hand t p) :=
  h.setTask_of_refs h.good trivial fun q => by
    rw [refs, refs, hrefs]
    simp only [Pc.refs, count_append, count_cons, count_nil]
    omega

lemma Inv.take (hrefs : (s.task t).pc.refs = [])
    (hp : s.cache.CachedAt p) {pc : Pc} (hpc : pc.Clean) (hone : pc.refs = [p]) :
    Inv size (Sys.setPc { s with cache := (s.cache.pin p).lruTouch p } t pc) := by
  refine h.setTask hpc fun refs hr => (h.good.pin hp ?_ fun q hq => ?_).lruTouch hp.2.1
  · have := hr p
    simp only [Task.refs, hrefs, hone, append_nil, count_append, count_singleton_self] at this
    omega
  · have := hr q
    simp only [Task.refs, hrefs, hone, append_nil, count_append,
      count_singleton, beq_iff_eq, hq.symm, if_false] at this
    omega

lemma Inv.lookup (hrefs : (s.task t).pc.refs = []) (ip index : ℕ)
    (call : Option Call) : Inv size (s.lookup t ip index call) := by
  fun_cases Sys.lookup s t ip index call with
  | case1 => exact h.missed hrefs call
  | case2 => exact h.missed hrefs call
  | case3 _ p hfind =>
    refine h.take hrefs (h.good.cached_of_findLocked hfind) ?_ ?_ <;> split_ifs
    · trivial
    · trivial
    · rfl
    · rfl

lemma Inv.giveBack (hx : x.pc.Clean)
    (hone : ∀ q, (s.task t).refs.count q = x.refs.count q + [p].count q) :
    Inv size (Sys.setTask { s with cache := s.cache.release p } t x) := by
  refine h.setTask hx fun refs hr => h.good.release ?_ fun q hq => ?_
  · have := hr p
    have := hone p
    rw [count_singleton_self] at this
    omega
  · have := hr q
    have := hone q
    rw [count_singleton, if_neg (by simpa using hq.symm)] at this
    omega

omit h in
lemma count_drop_append_take (l : List ℕ) (p : ℕ) : (l.drop 1 ++ l.take 1).count p = l.count p := by
  rw [count_append, add_comm, ← count_append, take_append_drop]

lemma Inv.filled (hc : c.Good size s.refs)
    (hrefs : (s.task t).pc.refs = pages) (batch : Option (Option Errno)) (i : ℕ) :
    Inv size (Sys.filled { s with cache := c } t pages batch i none) := by
  rw [Sys.filled]
  split
  · exact h.setPc hc rfl fun p => by rw [hrefs]; rfl
  · exact h.setPc hc rfl fun p => by rw [hrefs]; exact count_drop_append_take pages p

end

lemma count_releasing {i : ℕ} (hp : pages[i]? = some p) (q : ℕ) :
    (Pc.releasing pages i none).refs.count q =
      (Pc.releasing pages (i + 1) none).refs.count q + [p].count q := by
  obtain ⟨hi, rfl⟩ := List.getElem?_eq_some_iff.1 hp
  simp only [Pc.refs, count_append]
  rw [drop_eq_getElem_cons hi, count_cons, count_singleton]
  omega

variable {a : Act n}

section

variable (h : Inv size s)
include h

lemma Inv.reserve {ip : InodeAttr} {ok : ℕ → Bool}
    (hs : step s (.reserve t ip ok) = some s') : Inv size s' := by
  simp only [step] at hs
  split at hs
  · next call hpc =>
    have hrefs : (s.task t).pc.refs = [] := by rw [hpc]; rfl
    split at hs
    · have hgood := h.good.reservePages ok call.ip call.index (call.windowPages ip) 0
      split_ifs at hs with hnone
      · rw [hnone] at hgood
        exact some.inj hs ▸ h.setPc hgood trivial fun p => by rw [hrefs]; rfl
      · refine some.inj hs ▸ h.setTask trivial fun refs hr => hgood.congr fun p => ?_
        have := hr p
        rw [count_refs, count_refs, hrefs, count_nil] at this
        dsimp only [Pc.refs] at this
        omega
    · exact some.inj hs ▸ h.fail h.good hrefs _
  · exact nomatch hs

lemma Inv.fill {rc : Option Errno} (hC : DemandReadSucceeds s (.fill t rc))
    (hs : step s (.fill t rc) = some s') : Inv size s' := by
  simp only [step] at hs
  split at hs
  · next pages batch i demandError hpc =>
    obtain ⟨p, hp, rfl⟩ := map_eq_some_iff.1 hs
    have hclean : demandError = none := by simpa only [hpc, Pc.Clean] using h.clean t
    have hrefs : (s.task t).pc.refs = pages := by rw [hpc]; rfl
    -- the page is one that the call holds, so it is not on the free list
    have hmem : p ∈ (s.task t).refs :=
      mem_append_right _ (hrefs ▸ mem_of_getElem? hp)
    have hgood := h.good.finishFill (outstanding_pos_of_mem hmem) (batch.getD rc)
    have herr : (if i = 0 then batch.getD rc else demandError) = none := by
      split_ifs with hi
      · subst hi
        simpa only [DemandReadSucceeds, hpc] using hC
      · exact hclean
    rw [herr]
    exact h.filled hgood hrefs batch (i + 1)
  · exact nomatch hs

lemma Inv.releaseNext (hs : step s (.releaseNext t) = some s') :
    Inv size s' := by
  have hclean := h.clean t
  simp only [step] at hs
  split at hs
  · next pages i demandError hpc =>
    obtain rfl : demandError = none := by simpa only [hpc, Pc.Clean] using hclean
    split at hs
    · next p hp =>
      refine some.inj hs ▸ h.giveBack rfl fun q => ?_
      rw [count_refs, count_refs, hpc, count_releasing hp, add_assoc]
    · next hend =>
      obtain ⟨p, hp, rfl⟩ := map_eq_some_iff.1 hs
      refine h.hand ?_
      obtain ⟨rest, rfl⟩ := List.head?_eq_some_iff.1 hp
      rw [hpc, Pc.refs, drop_of_length_le (List.getElem?_eq_none_iff.1 hend)]
      rfl
  · next pages e hpc =>
    rw [hpc] at hclean
    exact hclean.elim
  · exact nomatch hs

lemma Inv.collectDirty {only max : ℕ}
    (hs : step s (.collectDirty t only max) = some s') : Inv size s' := by
  obtain ⟨hpc, hs⟩ := ite_none_right_eq_some.1 hs
  have hcached : ∀ p ∈ s.cache.dirtyPages only max, s.cache.CachedAt p := fun p hp =>
    h.good.cached_of_mem_chains (mem_filter.1 (mem_of_mem_take hp)).1
  refine some.inj hs ▸ h.setTask (h.clean t) fun refs hr =>
    (h.good.pinAll _ hcached).congr fun p => ?_
  have := hr p
  simp only [Task.refs, count_append] at this
  omega

lemma Inv.writeback {hasWritepages : Bool}
    (hs : step s (.writeback t pages hasWritepages) = some s') : Inv size s' := by
  obtain ⟨⟨hpc, -⟩, hs⟩ := ite_none_right_eq_some.1 hs
  have hrefs : (s.task t).pc.refs = [] := by rw [hpc]; rfl
  cases pages with
  | nil => exact some.inj hs ▸ h.fail h.good hrefs _
  | cons p ps =>
    dsimp only at hs
    have hgood := h.good.startWriteback (s.cache.page p).inode (p :: ps)
    split_ifs at hs
    · exact some.inj hs ▸ h.fail h.good hrefs _
    · exact some.inj hs ▸ h.setPc hgood trivial fun q => by rw [hrefs]; rfl
    · exact some.inj hs ▸ h.fail hgood hrefs _
    · exact some.inj hs ▸ h.fail h.good hrefs _

lemma Inv.drop (hs : step s (.drop t) = some s') : Inv size s' := by
  simp only [step] at hs
  split at hs
  · next p call hpc =>
    have hone : ∀ x : Task, x.held = (s.task t).held → x.pc.refs = [] → ∀ q,
        (s.task t).refs.count q = x.refs.count q + [p].count q := fun x hheld hx q => by
      rw [count_refs, count_refs, hheld, hx, hpc]
      rfl
    cases call with
    | none | some call => exact some.inj hs ▸ h.giveBack trivial (hone _ rfl rfl)
  · exact nomatch hs

lemma Inv.release (hs : step s (.release t p) = some s') :
    Inv size s' := by
  obtain ⟨⟨hpc, hp⟩, rfl⟩ := of_guard hs
  refine h.giveBack (h.clean t) fun q => ?_
  have hheld := (perm_cons_erase hp).count_eq q
  rw [count_cons] at hheld
  rw [count_refs, count_refs, hheld, count_singleton]
  dsimp only
  omega

theorem Inv.step (hC : DemandReadSucceeds s a) (hs : step s a = some s') :
    Inv size s' := by
  cases a with
  | lookup t ip index =>
    obtain ⟨hpc, rfl⟩ := of_guard hs
    exact h.lookup (by rw [hpc]; rfl) ip index none
  | getRa t call =>
    obtain ⟨hpc, hs⟩ := ite_none_right_eq_some.1 hs
    have hrefs : (s.task t).pc.refs = [] := by rw [hpc]; rfl
    split_ifs at hs
    · exact some.inj hs ▸ h.fail h.good hrefs _
    · exact some.inj hs ▸ h.setPc h.good trivial fun p => by rw [hrefs]; rfl
  | enter t =>
    simp only [PageCache.step] at hs
    split at hs
    · next call hpc =>
      exact some.inj hs ▸ h.lookup (by rw [hpc]; rfl) call.ip call.index (some call)
    · exact nomatch hs
  | waited t =>
    simp only [PageCache.step] at hs
    split at hs
    · next p call hpc =>
      obtain ⟨-, hs⟩ := ite_none_left_eq_some.1 hs
      exact some.inj hs ▸ h.setPc h.good trivial fun q => by rw [hpc]; rfl
    · exact nomatch hs
  | check t =>
    simp only [PageCache.step] at hs
    split at hs
    · next p call hpc =>
      split_ifs at hs
      · exact some.inj hs ▸ h.setPc h.good trivial fun q => by rw [hpc]; rfl
      · exact some.inj hs ▸ h.hand (by rw [hpc]; rfl)
    · exact nomatch hs
  | drop t => exact h.drop hs
  | reserve t ip ok => exact h.reserve hs
  | readpages t rc =>
    simp only [PageCache.step] at hs
    split at hs
    · next pages hpc =>
      exact some.inj hs ▸ h.filled h.good (by rw [hpc]; rfl) (batchResult rc) 0
    · exact nomatch hs
  | fill t rc => exact h.fill hC hs
  | releaseNext t => exact h.releaseNext hs
  | release t p => exact h.release hs
  | markDirty t p =>
    obtain ⟨-, rfl⟩ := of_guard hs
    exact ⟨h.good.setPage ⟨⟨rfl, rfl, rfl, rfl⟩, rfl⟩, h.clean⟩
  | collectDirty t only max => exact h.collectDirty hs
  | writeback t pages hasWritepages => exact h.writeback hs
  | written t rc =>
    simp only [PageCache.step] at hs
    split at hs
    · next pages snapshots hpc =>
      exact some.inj hs ▸ h.fail (h.good.endWriteback rc _) (by rw [hpc]; rfl) _
    · exact nomatch hs
  | invalidate t ip =>
    obtain ⟨-, rfl⟩ := of_guard hs
    exact ⟨h.good.invalidateInode ip, h.clean⟩

end

/-! ## Runs -/

/-- In every run of any number of tasks on a cache of any size in which the pages asked for are
read without an error, every page has one owner and its pins are its references. -/
theorem pages_owned (as : List (Act n)) (hC : Meets step DemandReadSucceeds (Sys.init n size) as)
    (hs : exec step (Sys.init n size) as = some s) : s.Owned size :=
  (exec_invariant_of_meets (fun _ _ _ hI hC hs => Inv.step hI hC hs) as _ _ (Inv.init n size) hC
    hs).owned

/-- Two tasks and a cache of two pages: one task reserves the page and one to read ahead, the
other finds the page while it is filled; the read-ahead fails, the inode is invalidated, and
both release what they have. -/
def sharedFill : List (Act 2) :=
  [.getRa 0 ⟨8, 0, 2⟩, .enter 0, .reserve 0 ⟨true, true, 8192⟩ fun _ => true, .lookup 1 8 0,
    .readpages 0 none, .fill 0 none, .waited 1, .check 1, .fill 0 (some .ENOMEM),
    .releaseNext 0, .releaseNext 0, .invalidate 1 8, .release 0 1, .release 1 1]

theorem pages_owned_shared :
    ∃ s, exec step (Sys.init 2 2) sharedFill = some s ∧ s.Owned 2 ∧ s.cache.free = [1, 0] := by
  obtain ⟨s, hs, hfree⟩ : ∃ s, exec step (Sys.init 2 2) sharedFill = some s ∧
      s.cache.free = [1, 0] := by decide +kernel
  exact ⟨s, hs, pages_owned sharedFill (by decide +kernel) hs, hfree⟩

/-- The read of the page fails while another task waits for it: the two releases take away the
reference of the waiting task too, and the page is on the free list while that task still has
it. -/
theorem failed_read_releases_twice :
    ∃ s, exec step (Sys.init 2 1)
        [.getRa 0 ⟨8, 0, 1⟩, .enter 0, .reserve 0 ⟨true, true, 4096⟩ fun _ => true, .lookup 1 8 0,
          .readpages 0 none, .fill 0 (some .ENOMEM), .releaseNext 0, .releaseNext 0,
          .releaseNext 0] = some s ∧
      s.OnFreeList 0 ∧ s.refs 0 = 1 ∧ ¬ s.Owned 1 := by
  obtain ⟨s, hs, hfree, hrefs, hpin⟩ : ∃ s, exec step (Sys.init 2 1)
        [.getRa 0 ⟨8, 0, 1⟩, .enter 0, .reserve 0 ⟨true, true, 4096⟩ fun _ => true, .lookup 1 8 0,
          .readpages 0 none, .fill 0 (some .ENOMEM), .releaseNext 0, .releaseNext 0,
          .releaseNext 0] = some s ∧
      s.cache.free = [0] ∧ s.refs 0 = 1 ∧ (s.cache.page 0).pinCount = 0 := by
    decide +kernel
  refine ⟨s, hs, ?_, hrefs, fun howned => ?_⟩
  · rw [Sys.OnFreeList, hfree]
    exact mem_singleton_self 0
  · have := howned.pins 0
    rw [hrefs, hpin] at this
    exact absurd this (by decide)

end XosKernel.PageCache
