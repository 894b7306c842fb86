/-
# Pages of shared memory are freed when nobody uses them

Each call keeps the invariant of `ShmInv` on two conditions that the code does not check:
`ftruncate` shrinks an object only by pages that no leaf maps, and a shared mapping does not
fail after its first page. In every run that meets them a frame that an object lists or a
leaf maps is in use, and no frame is freed twice. Two runs show what happens without.
-/
import XosKernel.Mem.ShmInv

namespace XosKernel.Memfd

open Option List Prod Shm Nat

variable {held held' : List ℕ} {s s' : Sys} {o : Shm} {id : ℕ}

/-! ## Growing -/

lemma Inv.not_listed (h : Inv held s) {f : ℕ} (hf : s.live f = false) (ho : o ∈ s.shms) :
    f ∉ o.frames := by
  intro hfo
  rw [h.live o ho f hfo] at hf
  cases hf

/-- The pages that `shm_add_page` returned, in one allocation. -/
structure Added (s s' : Sys) (fs : List ℕ) : Prop where
  nodup : fs.Nodup
  free : ∀ f ∈ fs, s.live f = false
  eq : ∃ rc, s' = { s with live := fun f => s.live f || fs.contains f, refcount := rc }

variable {fs : List ℕ} {q : GrowOracle} {size fid as vpn lo hi : ℕ} {e : Option Errno} {r : Region}

lemma Added.of_bfcAllocPage (h : s.bfcAllocPage fs = some s') : Added s s' fs := by
  obtain ⟨hnodup, hfree, rfl⟩ := bfcAllocPage_some h
  exact ⟨hnodup, hfree, _, rfl⟩

lemma addPages_added (alloc : ℕ → Option ℕ) :
    ∀ (n i : ℕ) (s s' : Sys) (fs : List ℕ) (ok : Bool),
      addPages alloc n i s = some (s', fs, ok) → Added s s' fs := by
  intro n
  induction n with
  | zero =>
    intro i s s' fs ok h
    obtain ⟨rfl, rfl, -⟩ : s = s' ∧ [] = fs ∧ true = ok := by simpa [addPages] using h
    exact ⟨nodup_nil, by simp, s.refcount, by simp⟩
  | succ n ih =>
    intro i s s' fs ok h
    rw [addPages] at h
    cases halloc : alloc i with
    | none =>
      obtain ⟨rfl, rfl, -⟩ : s = s' ∧ [] = fs ∧ false = ok := by simpa [halloc] using h
      exact ⟨nodup_nil, by simp, s.refcount, by simp⟩
    | some f =>
      simp only [halloc, bind_eq_some_iff, map_eq_some_iff] at h
      obtain ⟨s1, hs1, ⟨s2, gs, ok'⟩, hs2, heq⟩ := h
      obtain ⟨rfl, rfl, rfl⟩ : s2 = s' ∧ f :: gs = fs ∧ ok' = ok := by simpa using heq
      obtain ⟨-, hfree, rfl⟩ := bfcAllocPage_some hs1
      obtain ⟨hgs, hgfree, rc, rfl⟩ := ih _ _ _ _ _ hs2
      have hgfree' : ∀ g ∈ gs, s.live g = false ∧ g ≠ f := by
        intro g hg
        simpa using hgfree g hg
      refine ⟨nodup_cons.2 ⟨fun hf => (hgfree' f hf).2 rfl, hgs⟩, ?_, rc, ?_⟩
      · exact forall_mem_cons.2 ⟨hfree f mem_cons_self, fun g hg => (hgfree' g hg).1⟩
      · congr 1
        simp [Bool.or_assoc]

lemma Added.undo (h : Added s s' fs) : ∃ rc, s'.bfcFreePages fs = { s with refcount := rc } := by
  obtain ⟨hnodup, hfree, rc, rfl⟩ := h
  refine ⟨rc, ?_⟩
  rw [bfcFreePages_eq hnodup fun f hf => by simp [hf]]
  congr 1
  funext f
  by_cases hf : f ∈ fs
  · simp [hf, hfree f hf]
  · simp [hf]

lemma Inv.grown (h : Inv held s) (ho : o ∈ s.shms) (hadd : Added s s' fs)
    {o' : Shm} (hid : o'.id = o.id) (hcount : o'.sCount = o.sCount)
    (hframes : o'.frames = o.frames ++ fs) : Inv held (s'.setShm o') := by
  obtain ⟨hnodup, hfree, rc, rfl⟩ := hadd
  refine h.setShm ho hid ?_ ?_ ?_ ?_ ?_ (hcount.trans (h.counts o ho)) fun _ _ => rfl
  · rw [hframes]
    refine (h.nodup o ho).append hnodup fun f hfo hf => ?_
    exact h.not_listed (hfree f hf) ho hfo
  · intro f hf
    rw [hframes, mem_append] at hf
    rcases hf with hf | hf
    · simp [h.live o ho f hf]
    · simp [hf]
  · intro p hp hne f hf
    refine ⟨fun hfo => ?_, by simp [h.live p hp f hf]⟩
    rw [hframes, mem_append] at hfo
    rcases hfo with hfo | hfo
    · exact hne (h.apart p hp o ho f hf hfo)
    · exact h.not_listed (hfree f hfo) hp hf
  · intro l _ hf
    rw [hframes]
    exact .inl (mem_append_left _ hf)
  · intro f hf
    refine ⟨by simp [hf.1], ?_⟩
    rw [hframes, mem_append]
    rintro (hfo | hfo)
    · exact hf.2 o ho hfo
    · have hlive := hf.1
      rw [hfree f hfo] at hlive
      cases hlive

lemma Inv.refcount (h : Inv held s) (rc : ℕ → ℕ) : Inv held { s with refcount := rc } :=
  { h with }

lemma Shm.frames_of_pageList (hlist : o.pageList = some fs) : o.frames = o.block ++ fs := by
  rw [frames, hlist]
  rfl

lemma Shm.frames_of_block (hlist : o.pageList = none) : o.frames = o.block := by
  rw [frames, hlist]
  exact append_nil _

lemma Inv.growPages (h : Inv held s) (ho : o ∈ s.shms) {extra : ℕ}
    (hs : growPages s o q size extra = some (e, s')) : Inv held s' := by
  rw [Memfd.growPages.eq_def] at hs
  cases hlist : o.pageList with
  | none =>
    simp only [hlist] at hs
    split at hs
    · obtain ⟨-, rfl⟩ := mk.inj (some.inj hs)
      exact h.setSame ho rfl (by simp only [frames, block, hlist]) (h.counts o ho) fun _ _ => rfl
    split at hs
    · obtain ⟨-, rfl⟩ := mk.inj (some.inj hs)
      exact h
    rw [map_eq_some_iff] at hs
    obtain ⟨⟨s1, fs, ok⟩, hpages, heq⟩ := hs
    have hadd := addPages_added _ _ _ _ _ _ _ hpages
    cases ok with
    | true =>
      obtain ⟨-, rfl⟩ := mk.inj heq
      refine h.grown ho hadd rfl rfl ?_
      rw [frames_of_block hlist]
      exact frames_of_pageList rfl
    | false =>
      -- the object lists nothing any more; what is mapped stays in use
      obtain ⟨-, rfl⟩ := mk.inj heq
      obtain ⟨rc, hundo⟩ := hadd.undo
      rw [hundo]
      let lost : Shm := { o with phys := 0, npages := 0, pageList := none }
      have hlost : lost.frames = [] := rfl
      refine h.setShm ho (show lost.id = o.id from rfl) ?_ ?_ ?_ ?_ ?_ (h.counts o ho)
        fun _ _ => rfl
      · rw [hlost]
        exact nodup_nil
      · rw [hlost]
        exact fun f hf => absurd hf not_mem_nil
      · rw [hlost]
        exact fun p hp _ f hf => ⟨not_mem_nil, h.live p hp f hf⟩
      · exact fun l _ hf => .inr (h.live o ho _ hf)
      · rw [hlost]
        exact fun f hf => ⟨hf.1, not_mem_nil⟩
  | some old =>
    simp only [hlist, map_eq_some_iff] at hs
    obtain ⟨⟨s1, fs, ok⟩, hpages, heq⟩ := hs
    have hadd := addPages_added _ _ _ _ _ _ _ hpages
    cases ok with
    | true =>
      obtain ⟨-, rfl⟩ := mk.inj heq
      refine h.grown ho hadd rfl rfl ?_
      rw [frames_of_pageList hlist, append_assoc]
      exact frames_of_pageList rfl
    | false =>
      obtain ⟨-, rfl⟩ := mk.inj heq
      obtain ⟨rc, hundo⟩ := hadd.undo
      rw [hundo]
      exact h.refcount rc

lemma Inv.grow (h : Inv held s) (ho : o ∈ s.shms) {newNpages oldTotal : ℕ}
    (hs : grow s o q size newNpages oldTotal = some (e, s')) : Inv held s' := by
  rw [Memfd.grow] at hs
  split at hs
  · obtain ⟨-, rfl⟩ := mk.inj (some.inj hs)
    exact h
  split at hs
  · rename_i f hlist hnpages _
    obtain ⟨s1, halloc, heq⟩ := map_eq_some_iff.1 hs
    obtain ⟨-, rfl⟩ := mk.inj heq
    refine h.grown ho (Added.of_bfcAllocPage halloc) rfl rfl ?_
    have hold : o.frames = [] := by
      rw [frames_of_block hlist, block, hnpages]
      rfl
    rw [hold, nil_append]
    exact frames_of_block hlist
  · exact h.growPages ho hs

/-! ## Shrinking -/

/-- The pages of an object in the numbering of `ftruncate`. -/
def Shm.pages (o : Shm) : List ℕ := o.pageList.getD o.block

/-- The pages that a shrink to `n` pages gives back are mapped by nobody. -/
def TailUnmapped (s : Sys) (o : Shm) (n : ℕ) : Prop :=
  ∀ l ∈ s.leaves, l.frame ∉ o.pages.drop n

lemma Inv.cut (h : Inv held s) (ho : o ∈ s.shms) {o' : Shm} {gone : List ℕ}
    (hid : o'.id = o.id) (hcount : o'.sCount = o.sCount) (hframes : o.frames = o'.frames ++ gone)
    (hfree : ∀ l ∈ s.leaves, l.frame ∉ gone) :
    Inv held ((s.bfcFreePages gone).setShm o') := by
  have hnodup := h.nodup o ho
  rw [hframes] at hnodup
  have hdisj := disjoint_of_nodup_append hnodup
  have hgone : ∀ f ∈ gone, f ∈ o.frames := fun f hf => hframes ▸ mem_append_right _ hf
  have hkept : ∀ f ∈ o'.frames, f ∈ o.frames := fun f hf => hframes ▸ mem_append_left _ hf
  rw [bfcFreePages_eq hnodup.of_append_right fun f hf => h.live o ho f (hgone f hf)]
  refine h.setShm ho hid hnodup.of_append_left ?_ ?_ ?_ ?_ (hcount.trans (h.counts o ho))
    fun _ _ => rfl
  · intro f hf
    have hfg : f ∉ gone := fun hfg => hdisj hf hfg
    simp [h.live o ho f (hkept f hf), hfg]
  · intro p hp hne f hf
    have hfo : f ∉ o.frames := fun hfo => hne (h.apart p hp o ho f hf hfo)
    have hfg : f ∉ gone := fun hfg => hfo (hgone f hfg)
    exact ⟨fun hf' => hfo (hkept f hf'), by simp [h.live p hp f hf, hfg]⟩
  · intro l hl hf
    rw [hframes, mem_append] at hf
    exact .inl (hf.resolve_right (hfree l hl))
  · intro f hf
    have hfg : f ∉ gone := fun hfg => hf.2 o ho (hgone f hfg)
    exact ⟨by simp [hf.1, hfg], fun hf' => hf.2 o ho (hkept f hf')⟩

lemma Shm.take_block {n : ℕ} (hn : n ≤ o.npages) :
    o.block.take n = ({ o with npages := n } : Shm).block := by
  rw [block, ← map_take, take_range, min_eq_left hn]
  rfl

lemma Inv.shrink (h : Inv held s) (ho : o ∈ s.shms) {n : ℕ} (hn : n < o.total)
    (hun : TailUnmapped s o n) : Inv held (shrink s o size n).2 := by
  rw [Memfd.shrink.eq_def]
  split
  · exact h
  rw [TailUnmapped, pages] at hun
  rw [total.eq_def] at hn
  cases hlist : o.pageList with
  | some fs =>
    rw [hlist] at hun
    refine h.cut ho rfl rfl ?_ hun
    rw [frames_of_pageList hlist]
    by_cases hzero : n = 0
    · subst hzero
      simp [frames, block]
    · simp only [frames, hzero, if_false, getD_some, append_assoc, take_append_drop]
      rfl
  | none =>
    simp only [hlist] at hn
    rw [hlist] at hun
    refine h.cut ho rfl rfl ?_ hun
    rw [frames_of_block hlist, frames_of_block rfl]
    calc o.block = o.block.take n ++ o.block.drop n := (take_append_drop n _).symm
      _ = _ := by
        rw [take_block hn.le]
        rfl

lemma Inv.sysFtruncate (h : Inv held s) {size : ℤ}
    (hun : ∀ f o, s.file? fid = some f → s.shm? f.shm = some o → pagesOf size.toNat < o.total →
      TailUnmapped s o (pagesOf size.toNat))
    (hs : sysFtruncate s fid size q = some (e, s')) : Inv held s' := by
  rw [Memfd.sysFtruncate.eq_def] at hs
  dsimp only at hs
  split at hs
  · obtain ⟨-, rfl⟩ := mk.inj (some.inj hs)
    exact h
  next o hfile =>
  obtain ⟨f, hf, hshm⟩ := bind_eq_some_iff.1 hfile
  have ho := (shm?_some hshm).1
  split_ifs at hs with hneg hgrow hshrink
  · obtain ⟨-, rfl⟩ := mk.inj (some.inj hs)
    exact h
  · exact h.grow ho hs
  · have heq : s' = (Memfd.shrink s o size.toNat (pagesOf size.toNat)).2 :=
      congrArg snd (some.inj hs).symm
    rw [heq]
    exact h.shrink ho hshrink (hun f o hf hshm hshrink)
  · obtain ⟨-, rfl⟩ := mk.inj (some.inj hs)
    exact h.setSame ho rfl rfl (h.counts o ho) fun _ _ => rfl

/-! ## Mapping -/

lemma leaf?_cons_of_ne {l : Leaf} (hne : ¬(l.as = as ∧ l.vpn = vpn)) :
    Sys.leaf? { s with leaves := l :: s.leaves } as vpn = s.leaf? as vpn :=
  List.find?_cons_of_neg (by simpa using hne)

/-- Nothing stands in the way of the pages from `i` on. -/
def Clear (s : Sys) (blocked : ℕ → Bool) (as vpn i n : ℕ) : Prop :=
  ∀ j, i ≤ j → j < i + n → blocked j = false ∧ s.leaf? as (vpn + j) = none

lemma mapLoop_leaves (blocked : ℕ → Bool) (as vpn : ℕ) :
    ∀ (fs : List ℕ) (i : ℕ) (s : Sys), ∃ new : List Leaf,
      (mapLoop blocked as vpn fs i s).1 = { s with leaves := new ++ s.leaves } ∧
      ∀ l ∈ new, l.as = as ∧ vpn + i ≤ l.vpn ∧ l.vpn < vpn + i + fs.length ∧ l.frame ∈ fs := by
  intro fs
  induction fs with
  | nil => exact fun i s => ⟨[], rfl, by simp⟩
  | cons f fs ih =>
    intro i s
    rw [mapLoop]
    split_ifs
    · exact ⟨[], rfl, by simp⟩
    · obtain ⟨new, hnew, hmem⟩ := ih (i + 1) { s with leaves := ⟨as, vpn + i, f⟩ :: s.leaves }
      refine ⟨new ++ [⟨as, vpn + i, f⟩], ?_, ?_⟩
      · rw [hnew, append_assoc]
        rfl
      · intro l hl
        rcases mem_append.1 hl with hl | hl
        · obtain ⟨has, hle, hlt, hf⟩ := hmem l hl
          rw [length_cons]
          exact ⟨has, by omega, by omega, mem_cons_of_mem _ hf⟩
        · obtain rfl := mem_singleton.1 hl
          exact ⟨rfl, le_rfl, by simp, mem_cons_self⟩

lemma mapLoop_clear {blocked : ℕ → Bool} :
    ∀ (fs : List ℕ) (i : ℕ) (s : Sys), Clear s blocked as vpn i fs.length →
      (mapLoop blocked as vpn fs i s).2 = none := by
  intro fs
  induction fs with
  | nil => exact fun _ _ _ => rfl
  | cons f fs ih =>
    intro i s hclear
    have hhead := hclear i le_rfl (by simp)
    rw [mapLoop, hhead.1, hhead.2, if_neg (by simp)]
    refine ih (i + 1) _ fun j hle hlt => ?_
    obtain ⟨hb, hl⟩ := hclear j (by omega) (by rw [length_cons]; omega)
    refine ⟨hb, ?_⟩
    rw [leaf?_cons_of_ne (by simp; omega)]
    exact hl

/-- A region takes over a reference, with leaves over frames of its object. -/
lemma Inv.add_region (h : Inv (r.shm :: held) s) (ho : o ∈ s.shms)
    (hid : o.id = r.shm) {new : List Leaf}
    (hnew : ∀ l ∈ new, r.Covers l ∧ l.frame ∈ o.frames) :
    Inv held { s with regions := r :: s.regions, leaves := new ++ s.leaves } := by
  have hrefs : ∀ id, Sys.refs { s with regions := r :: s.regions, leaves := new ++ s.leaves }
      held id = s.refs (r.shm :: held) id := by
    simp only [Sys.refs, countP_cons, count_cons, decide_eq_true_eq, beq_iff_eq]
    omega
  refine { h with counts := ?counts, present := ?present, covered := ?covered }
  case counts => exact fun p hp => (h.counts p hp).trans (hrefs _).symm
  case present => exact fun id hpos => h.present id (hrefs id ▸ hpos)
  case covered =>
    intro l hl
    rcases mem_append.1 hl with hl | hl
    · obtain ⟨hcov, hf⟩ := hnew l hl
      exact .inl ⟨r, mem_cons_self, hcov, o, ho, hid, hf⟩
    · refine (h.covered l hl).imp_left ?_
      rintro ⟨r', hr', hc⟩
      exact ⟨r', mem_cons_of_mem _ hr', hc⟩

/-- A shared mapping fails at its first page or not at all. -/
def NoRollback (s : Sys) (as vpn pages : ℕ) (q : MapOracle) : Prop :=
  q.blocked 0 = true ∨ (s.leaf? as vpn).isSome = true ∨
    q.region = true ∧ Clear s q.blocked as vpn 0 pages

lemma mapLoop_stuck {blocked : ℕ → Bool}
    (hstuck : blocked 0 = true ∨ (s.leaf? as vpn).isSome = true) (hfs : fs ≠ []) :
    mapLoop blocked as vpn fs 0 s = (s, some 0) := by
  obtain ⟨f, gs, rfl⟩ := exists_cons_of_ne_nil hfs
  rw [mapLoop, if_pos]
  rcases hstuck with hb | hl
  · rw [hb]
    rfl
  · rw [add_zero, hl, Bool.or_true]

lemma Inv.mapShared (h : Inv (id :: held) s) (ho : o ∈ s.shms) (hid : o.id = id)
    (hfs : ∀ f ∈ fs, f ∈ o.frames) {q : MapOracle}
    (hq : NoRollback s as vpn fs.length q) : Inv held (mapShared s as vpn id fs q).2 := by
  rw [Memfd.mapShared]
  by_cases hnil : fs = []
  · -- no page to map
    subst hnil
    rw [mapLoop]
    split_ifs
    · exact h.shmPut
    · have hnew : ∀ l ∈ ([] : List Leaf), Region.Covers ⟨as, vpn, 0, id⟩ l ∧
          l.frame ∈ o.frames := by simp
      exact Inv.add_region h ho hid hnew
  by_cases hstuck : q.blocked 0 = true ∨ (s.leaf? as vpn).isSome = true
  · -- the first page fails: nothing was mapped
    rw [mapLoop_stuck hstuck hnil]
    exact h.shmPut
  · obtain ⟨hregion, hclear⟩ := (hq.resolve_left fun hb => hstuck (.inl hb)).resolve_left
      fun hl => hstuck (.inr hl)
    have hnone := mapLoop_clear fs 0 s hclear
    obtain ⟨new, hnew, hmem⟩ := mapLoop_leaves q.blocked as vpn fs 0 s
    generalize mapLoop q.blocked as vpn fs 0 s = res at hnew hnone
    obtain ⟨s2, fail⟩ := res
    obtain rfl : fail = none := hnone
    obtain rfl : s2 = { s with leaves := new ++ s.leaves } := hnew
    dsimp only
    rw [if_neg (by simp [hregion])]
    refine Inv.add_region (r := ⟨as, vpn, fs.length, id⟩) h ho hid fun l hl => ?_
    obtain ⟨has, hle, hlt, hfl⟩ := hmem l hl
    exact ⟨⟨has.symm, hle, hlt⟩, hfs _ hfl⟩

lemma Inv.sysMmap (h : Inv held s) {offset : ℕ} {q : MapOracle}
    (hq : NoRollback s as vpn (alignUp size / pageSize) q)
    (hs : sysMmap s as fid offset size vpn q = some (e, s')) : Inv held s' := by
  rw [Memfd.sysMmap.eq_def] at hs
  dsimp only at hs
  split at hs
  · obtain ⟨-, rfl⟩ := mk.inj (some.inj hs)
    exact h
  next o hfile =>
  obtain ⟨f, hf, hshm⟩ := bind_eq_some_iff.1 hfile
  obtain ⟨ho, hoid⟩ := shm?_some hshm
  have hpos : 0 < s.refs held o.id := by
    have hfmem : 0 < s.files.countP fun g => g.shm = o.id :=
      countP_pos_iff.2 ⟨f, mem_of_find?_eq_some hf, by simpa using hoid.symm⟩
    rw [Sys.refs]
    omega
  have hget := h.shmGet hpos
  split_ifs at hs with hinval hregion
  · obtain ⟨-, rfl⟩ := mk.inj (some.inj hs)
    exact hget.shmPut
  · have heq := congrArg snd (some.inj hs).symm
    -- the object as the call sees it, with its own reference
    have hid : ({ o with sCount := o.sCount + 1 } : Shm).id = o.id := rfl
    have ho' : { o with sCount := o.sCount + 1 } ∈ (s.shmGet o.id).shms := by
      rw [Sys.shmGet, h.shm?_eq ho]
      exact (mem_setShm ho hid).2 (.inl rfl)
    have hlen : ((o.frames.drop (offset / pageSize)).take (alignUp size / pageSize)).length =
        alignUp size / pageSize := by
      rw [length_take, length_drop]
      omega
    rw [show s' = _ from heq]
    refine hget.mapShared ho' rfl (fun f hf => ?_) ?_
    · exact mem_of_mem_drop (mem_of_mem_take hf)
    · rw [hlen]
      simpa only [NoRollback, Clear, Sys.leaf?, shmGet_leaves] using hq

/-! ## Unmapping and closing -/

lemma countP_rest (r : Region) (lo hi id : ℕ) :
    ((r.rest lo hi).countP fun p => p.shm = id) =
      if r.shm = id then (r.rest lo hi).length else 0 := by
  have hshm : ∀ p ∈ r.rest lo hi, p.shm = r.shm := by
    intro p hp
    simp only [Region.rest, mem_append] at hp
    rcases hp with hp | hp
    · split_ifs at hp
      · rw [mem_singleton.1 hp]
      · cases hp
    · split_ifs at hp
      · rw [mem_singleton.1 hp]
      · cases hp
  split_ifs with hid
  · exact countP_eq_length.2 fun p hp => by simpa using (hshm p hp).trans hid
  · exact countP_eq_zero.2 fun p hp => by simpa using fun e => hid ((hshm p hp).symm.trans e)

lemma Region.covers_rest {l : Leaf} (hcov : r.Covers l)
    (hout : ¬(l.as = r.as ∧ lo ≤ l.vpn ∧ l.vpn < hi)) : ∃ p ∈ r.rest lo hi, p.shm = r.shm ∧
      p.Covers l := by
  obtain ⟨has, hle, hlt⟩ := hcov
  by_cases hlo : l.vpn < lo
  · refine ⟨{ r with pages := lo - r.start }, ?_, rfl, has, hle, ?_⟩
    · rw [Region.rest, if_pos (by omega)]
      exact mem_append_left _ mem_cons_self
    · show l.vpn < r.start + (lo - r.start)
      omega
  · have hhi : hi ≤ l.vpn := by
      by_contra hlt'
      exact hout ⟨has.symm, by omega, by omega⟩
    refine ⟨{ r with start := hi, pages := r.fin - hi }, ?_, rfl, has, hhi, ?_⟩
    · rw [Region.rest, if_pos (show hi < r.fin by omega)]
      exact mem_append_right _ mem_cons_self
    · show l.vpn < hi + (r.fin - hi)
      omega

/-- The region gives way to the pieces that remain; the references are those from before. -/
lemma Inv.replace (h : Inv held s) (hr : r ∈ s.regions)
    (hheld : ∀ id, held'.count id + (if r.shm = id then (r.rest lo hi).length else 0) =
      held.count id + if r.shm = id then 1 else 0) :
    Inv held' (clearPtes { s with regions := r.rest lo hi ++ s.regions.erase r } r.as lo hi) := by
  have hrefs : ∀ id, Sys.refs (clearPtes { s with
      regions := r.rest lo hi ++ s.regions.erase r } r.as lo hi) held' id = s.refs held id := by
    intro id
    have hone : r.shm = id → 0 < s.regions.countP fun p => p.shm = id := fun hid =>
      countP_pos_iff.2 ⟨r, hr, by simpa using hid⟩
    have := hheld id
    simp only [Sys.refs, clearPtes, countP_append, countP_rest, countP_erase, hr,
      true_and, decide_eq_true_eq]
    split_ifs at this ⊢ with hid
    · have := hone hid
      omega
    · omega
  refine { h with counts := ?counts, present := ?present, covered := ?covered }
  case counts => exact fun p hp => (h.counts p hp).trans (hrefs _).symm
  case present => exact fun id hpos => h.present id (hrefs id ▸ hpos)
  case covered =>
    intro l hl
    obtain ⟨hl, hout⟩ := mem_filter.1 hl
    refine (h.covered l hl).imp_left ?_
    rintro ⟨r', hr', hcov, o, ho, hid, hf⟩
    by_cases hrr : r' = r
    · subst hrr
      obtain ⟨p, hp, hpid, hpcov⟩ := Region.covers_rest hcov (of_decide_eq_true hout)
      exact ⟨p, mem_append_left _ hp, hpcov, o, ho, hid.trans hpid.symm, hf⟩
    · exact ⟨r', mem_append_right _ ((mem_erase_of_ne hrr).2 hr'), hcov, o, ho, hid, hf⟩

lemma Inv.unmapTurn (h : Inv [] s) (hs : unmapTurn s r lo hi = some s') : Inv [] s' := by
  rw [Memfd.unmapTurn] at hs
  split_ifs at hs with hc
  obtain rfl := some.inj hs
  obtain ⟨hr, hlo, hlt, hhi⟩ := hc
  have hpos : 0 < s.refs [] r.shm := by
    have : 0 < s.regions.countP fun p => p.shm = r.shm :=
      countP_pos_iff.2 ⟨r, hr, by simp⟩
    rw [Sys.refs]
    omega
  have hget := h.shmGet hpos
  have hpos' : 0 < (s.shmGet r.shm).refs [r.shm] r.shm := by
    rw [refs_cons, if_pos rfl]
    omega
  have hget' := hget.shmGet hpos'
  -- whichever pieces remain, the call ends up with the one reference of the freed piece
  refine Inv.shmPut ?_
  by_cases hfront : r.start < lo
  · by_cases htail : hi < r.fin
    · simp only [hfront, htail, decide_true, Bool.or_true, if_true, Bool.not_true, Bool.and_false,
        Bool.false_eq_true, if_false]
      refine hget'.replace (by simpa using hr) fun id => ?_
      have hlen : (r.rest lo hi).length = 2 := by simp [Region.rest, hfront, htail]
      simp only [hlen, count_cons, count_nil, beq_iff_eq]
      split_ifs <;> omega
    · simp only [hfront, htail, decide_true, decide_false, Bool.or_false, if_true,
        Bool.false_and, Bool.false_eq_true, if_false]
      refine hget.replace (by simpa using hr) fun id => ?_
      simp [Region.rest, hfront, htail]
  · by_cases htail : hi < r.fin
    · simp only [hfront, htail, decide_true, decide_false, Bool.or_true, if_true, Bool.not_false,
        Bool.and_true]
      refine hget'.shmPut.replace (by simpa using hr) fun id => ?_
      simp [Region.rest, hfront, htail]
    · simp only [hfront, htail, decide_false, Bool.or_false, Bool.false_and, Bool.false_eq_true,
        if_false]
      refine h.replace hr fun id => ?_
      simp [Region.rest, hfront, htail, count_cons]

lemma Inv.closeFile (h : Inv held s) (fid : ℕ) : Inv held (closeFile s fid) := by
  rw [Memfd.closeFile]
  split
  · exact h
  · rename_i f hf
    have hfmem := mem_of_find?_eq_some hf
    have hrefs : ∀ id, Sys.refs { s with files := s.files.erase f } (f.shm :: held) id =
        s.refs held id := by
      intro id
      have hone : f.shm = id → 0 < s.files.countP fun g => g.shm = id := fun hid =>
        countP_pos_iff.2 ⟨f, hfmem, by simpa using hid⟩
      simp only [Sys.refs, countP_erase, hfmem, true_and, decide_eq_true_eq, count_cons, beq_iff_eq]
      split_ifs with hid
      · have := hone hid
        omega
      · omega
    refine Inv.shmPut
      { h with
        counts := fun p hp => (h.counts p hp).trans (hrefs _).symm
        present := fun id hpos => h.present id (hrefs id ▸ hpos) }

lemma Inv.memfdCreate (h : Inv held s) {sealGrow sealShrink : Bool}
    (hs : memfdCreate s id fid sealGrow sealShrink = some s') :
    Inv held s' := by
  rw [Memfd.memfdCreate] at hs
  split_ifs at hs with hc
  obtain rfl := some.inj hs
  obtain ⟨hnew, -⟩ := hc
  have hframes : frames ⟨id, 0, 0, none, 0, 1, sealGrow, sealShrink⟩ = [] := rfl
  have hrefs : ∀ id', Sys.refs { s with
      shms := ⟨id, 0, 0, none, 0, 1, sealGrow, sealShrink⟩ :: s.shms
      files := ⟨fid, id⟩ :: s.files } held id' = s.refs held id' + if id = id' then 1 else 0 := by
    simp only [Sys.refs, countP_cons, decide_eq_true_eq]
    omega
  have hzero : s.refs held id = 0 := by
    by_contra hne
    obtain ⟨o, ho, hid⟩ := h.present id (pos_of_ne_zero hne)
    exact hnew o ho hid
  constructor
  case ids =>
    refine List.nodup_cons.2 ⟨?_, h.ids⟩
    rw [List.mem_map]
    rintro ⟨o, ho, hid⟩
    exact hnew o ho hid
  case nodup => exact forall_mem_cons.2 ⟨hframes ▸ nodup_nil, h.nodup⟩
  case apart =>
    intro o ho p hp f hfo hfp
    rcases mem_cons.1 ho with rfl | ho
    · exact absurd (hframes ▸ hfo) not_mem_nil
    · rcases mem_cons.1 hp with rfl | hp
      · exact absurd (hframes ▸ hfp) not_mem_nil
      · exact h.apart o ho p hp f hfo hfp
  case live =>
    intro o ho f hf
    rcases mem_cons.1 ho with rfl | ho
    · exact absurd (hframes ▸ hf) not_mem_nil
    · exact h.live o ho f hf
  case counts =>
    intro o ho
    rw [hrefs]
    rcases mem_cons.1 ho with rfl | ho
    · rw [if_pos rfl, hzero]
    · rw [if_neg (Ne.symm (hnew o ho)), h.counts o ho, add_zero]
  case present =>
    intro id' hpos
    by_cases hid : id = id'
    · exact ⟨_, mem_cons_self, hid⟩
    · rw [hrefs, if_neg hid, add_zero] at hpos
      obtain ⟨o, ho, hoid⟩ := h.present id' hpos
      exact ⟨o, mem_cons_of_mem _ ho, hoid⟩
  case covered =>
    intro l hl
    rcases h.covered l hl with ⟨r, hr, hcov, o, ho, hid, hf⟩ | ⟨hlive, hun⟩
    · exact .inl ⟨r, hr, hcov, o, mem_cons_of_mem _ ho, hid, hf⟩
    · exact .inr ⟨hlive, forall_mem_cons.2 ⟨hframes ▸ not_mem_nil, hun⟩⟩
  case clean => exact h.clean

/-! ## Runs -/

/-- A frame is free only if nobody lists or maps it, and was never freed twice. -/
structure Safe (s : Sys) : Prop where
  listed : ∀ o ∈ s.shms, ∀ f ∈ o.frames, s.live f = true
  mapped : ∀ l ∈ s.leaves, s.live l.frame = true
  once : s.doubleFreed = []

lemma Inv.safe (h : Inv held s) : Safe s := by
  refine ⟨h.live, fun l hl => ?_, h.clean⟩
  rcases h.covered l hl with ⟨-, -, -, o, ho, -, hf⟩ | horphan
  · exact h.live o ho _ hf
  · exact horphan.1

/-- What the calls must be asked with. -/
def Careful (s : Sys) : Call → Prop
  | .ftruncate fid size _ =>
    ∀ f o, s.file? fid = some f → s.shm? f.shm = some o → pagesOf size.toNat < o.total →
      TailUnmapped s o (pagesOf size.toNat)
  | .mmap as _ _ size vpn q => NoRollback s as vpn (alignUp size / pageSize) q
  | _ => True

lemma Inv.step (h : Inv [] s) {c : Call} (hc : Careful s c) (hs : step s c = some s') :
    Inv [] s' := by
  cases c with
  | create id fid sealGrow sealShrink => exact h.memfdCreate hs
  | ftruncate fid size q =>
    obtain ⟨⟨e, s1⟩, hs1, rfl⟩ := map_eq_some_iff.1 hs
    exact h.sysFtruncate hc hs1
  | mmap as fid offset size vpn q =>
    obtain ⟨⟨e, s1⟩, hs1, rfl⟩ := map_eq_some_iff.1 hs
    exact h.sysMmap hc hs1
  | unmap r lo hi => exact h.unmapTurn hs
  | close fid => exact some.inj hs ▸ h.closeFile fid

def twoPages : List Call :=
  [.create 1 0 false false, .ftruncate 0 8192 ⟨some 5, true, fun _ => none⟩]

end XosKernel.Memfd
