/-
# Who owns the pages of shared memory

The invariant: a frame is listed by at most one object, once, and is in use; the count of an
object is the number of its descriptions and regions, plus the references a call holds while
it runs; every leaf lies in a region and maps a frame of the region's object, or a frame in
use that no object lists any more (a failed `ftruncate` can lose the pages of an object).
From this everything that the last reference gives back is neither listed nor mapped
afterwards.
-/
import XosKernel.Mem.Shm

namespace XosKernel.Memfd

open List

/-- The references to an object; `held` are those of the running call. -/
def Sys.refs (s : Sys) (held : List ℕ) (id : ℕ) : ℕ :=
  (s.files.countP fun f => f.shm = id) + (s.regions.countP fun r => r.shm = id) + held.count id

def Region.Covers (r : Region) (l : Leaf) : Prop :=
  r.as = l.as ∧ r.start ≤ l.vpn ∧ l.vpn < r.fin

def Sys.Orphan (s : Sys) (f : ℕ) : Prop := s.live f = true ∧ ∀ o ∈ s.shms, f ∉ o.frames

/-- The leaf lies in a region and maps a frame of its object. -/
def Sys.Covered (s : Sys) (l : Leaf) : Prop :=
  ∃ r ∈ s.regions, r.Covers l ∧ ∃ o ∈ s.shms, o.id = r.shm ∧ l.frame ∈ o.frames

structure Inv (held : List ℕ) (s : Sys) : Prop where
  ids : (s.shms.map Shm.id).Nodup
  nodup : ∀ o ∈ s.shms, o.frames.Nodup
  apart : ∀ o ∈ s.shms, ∀ p ∈ s.shms, ∀ f ∈ o.frames, f ∈ p.frames → o.id = p.id
  live : ∀ o ∈ s.shms, ∀ f ∈ o.frames, s.live f = true
  counts : ∀ o ∈ s.shms, o.sCount = s.refs held o.id
  present : ∀ id, 0 < s.refs held id → ∃ o ∈ s.shms, o.id = id
  covered : ∀ l ∈ s.leaves, s.Covered l ∨ s.Orphan l.frame
  clean : s.doubleFreed = []

variable {held held' : List ℕ} {s : Sys} {o o' p : Shm} {id : ℕ}

lemma Inv.empty : Inv [] Sys.empty := by
  constructor <;> simp [Sys.empty, Sys.refs]

lemma Inv.ext_id (h : Inv held s) (ho : o ∈ s.shms) (hp : p ∈ s.shms) (hid : o.id = p.id) : o = p :=
  inj_on_of_nodup_map h.ids ho hp hid

lemma shm?_some (ho : s.shm? id = some o) : o ∈ s.shms ∧ o.id = id := by
  refine ⟨mem_of_find?_eq_some ho, ?_⟩
  simpa using List.find?_some ho

lemma Inv.shm?_eq (h : Inv held s) (ho : o ∈ s.shms) : s.shm? o.id = some o := by
  cases hfind : s.shm? o.id with
  | none =>
    have := List.find?_eq_none.1 hfind o ho
    simp at this
  | some p =>
    obtain ⟨hp, hid⟩ := shm?_some hfind
    rw [h.ext_id hp ho hid]

/-! ## The page allocator -/

lemma bfcAllocPage_some {fs : List ℕ} {s' : Sys} (h : s.bfcAllocPage fs = some s') :
    fs.Nodup ∧ (∀ f ∈ fs, s.live f = false) ∧
      s' = { s with
        live := fun f => s.live f || fs.contains f
        refcount := fun f => if fs.contains f then 1 else s.refcount f } := by
  rw [Sys.bfcAllocPage] at h
  split_ifs at h with hc
  exact ⟨hc.1, hc.2, (Option.some.inj h).symm⟩

lemma bfcFreePages_eq {fs : List ℕ} (hnodup : fs.Nodup) (hlive : ∀ f ∈ fs, s.live f = true) :
    s.bfcFreePages fs = { s with live := fun f => s.live f && !fs.contains f } := by
  induction fs generalizing s with
  | nil => simp [Sys.bfcFreePages]
  | cons f fs ih =>
    obtain ⟨hf, hfs⟩ := nodup_cons.1 hnodup
    have hstep : s.bfcFreePage f = { s with live := Function.update s.live f false } := by
      rw [Sys.bfcFreePage, if_pos (hlive f mem_cons_self)]
    have hlive' : ∀ g ∈ fs, (s.bfcFreePage f).live g = true := by
      intro g hg
      rw [hstep]
      have hne : g ≠ f := fun e => hf (e ▸ hg)
      exact (Function.update_of_ne hne ..).trans (hlive g (mem_cons_of_mem _ hg))
    have hrest : s.bfcFreePages (f :: fs) = (s.bfcFreePage f).bfcFreePages fs := rfl
    rw [hrest, ih hfs hlive', hstep]
    congr 1
    funext g
    by_cases hg : g = f
    · subst hg
      simp
    · simp [hg]

@[simp] lemma bfcFreePage_regions (f : ℕ) : (s.bfcFreePage f).regions = s.regions := by
  rw [Sys.bfcFreePage]
  split_ifs <;> rfl

@[simp] lemma bfcFreePages_regions (fs : List ℕ) : (s.bfcFreePages fs).regions = s.regions := by
  induction fs generalizing s with
  | nil => rfl
  | cons f fs ih => exact ih.trans (bfcFreePage_regions f)

/-! ## Writing back an object -/

lemma mem_setShm (ho : o ∈ s.shms) (hid : o'.id = o.id) :
    p ∈ (s.setShm o').shms ↔ p = o' ∨ p ∈ s.shms ∧ p.id ≠ o.id := by
  simp only [Sys.setShm, mem_map, hid]
  constructor
  · rintro ⟨q, hq, rfl⟩
    by_cases hqid : q.id = o.id
    · exact .inl (if_pos hqid)
    · rw [if_neg hqid]
      exact .inr ⟨hq, hqid⟩
  · rintro (rfl | ⟨hp, hne⟩)
    · exact ⟨o, ho, if_pos rfl⟩
    · exact ⟨p, hp, if_neg hne⟩

lemma map_id_setShm : (s.setShm o').shms.map Shm.id = s.shms.map Shm.id := by
  rw [Sys.setShm, map_map]
  refine map_congr_left fun p _ => ?_
  by_cases hp : p.id = o'.id
  · simp [hp]
  · simp [hp]

/-- An object changes, together with the frames in use: the new frames are its own and in
use, those of the others and the orphans stay in use, and mapped frames stay listed or become
orphans. -/
lemma Inv.setShm (h : Inv held s) (ho : o ∈ s.shms) (hid : o'.id = o.id)
    {live : ℕ → Bool} {rc : ℕ → ℕ} (hnodup : o'.frames.Nodup)
    (hlive : ∀ f ∈ o'.frames, live f = true)
    (hothers : ∀ p ∈ s.shms, p.id ≠ o.id → ∀ f ∈ p.frames, f ∉ o'.frames ∧ live f = true)
    (hmapped : ∀ l ∈ s.leaves, l.frame ∈ o.frames → l.frame ∈ o'.frames ∨ live l.frame = true)
    (horphan : ∀ f, s.Orphan f → live f = true ∧ f ∉ o'.frames)
    (hcount : o'.sCount = s.refs held' o.id)
    (hheld : ∀ id, id ≠ o.id → s.refs held' id = s.refs held id) :
    Inv held' { s.setShm o' with live := live, refcount := rc } := by
  have hmem : ∀ p, p ∈ (s.setShm o').shms ↔ p = o' ∨ p ∈ s.shms ∧ p.id ≠ o.id :=
    fun p => mem_setShm ho hid
  constructor
  case ids =>
    rw [map_id_setShm]
    exact h.ids
  case nodup =>
    intro p hp
    rcases (hmem p).1 hp with rfl | ⟨hp, -⟩
    · exact hnodup
    · exact h.nodup p hp
  case apart =>
    intro p hp q hq f hfp hfq
    rcases (hmem p).1 hp with rfl | ⟨hp', hpne⟩
    · rcases (hmem q).1 hq with rfl | ⟨hq', hqne⟩
      · rfl
      · exact absurd hfp (hothers q hq' hqne f hfq).1
    · rcases (hmem q).1 hq with rfl | ⟨hq', hqne⟩
      · exact absurd hfq (hothers p hp' hpne f hfp).1
      · exact h.apart p hp' q hq' f hfp hfq
  case live =>
    intro p hp f hf
    rcases (hmem p).1 hp with rfl | ⟨hp, hpne⟩
    · exact hlive f hf
    · exact (hothers p hp hpne f hf).2
  case counts =>
    intro p hp
    rcases (hmem p).1 hp with rfl | ⟨hp, hpne⟩
    · rw [hid]
      exact hcount
    · exact (h.counts p hp).trans (hheld _ hpne).symm
  case present =>
    intro id hpos
    by_cases hne : id = o.id
    · exact ⟨o', (hmem o').2 (.inl rfl), hid.trans hne.symm⟩
    · have hpos' : 0 < s.refs held id := (hheld id hne) ▸ hpos
      obtain ⟨p, hp, hpid⟩ := h.present id hpos'
      exact ⟨p, (hmem p).2 (.inr ⟨hp, fun e => hne (hpid.symm.trans e)⟩), hpid⟩
  case covered =>
    intro l hl
    rcases h.covered l hl with ⟨r, hr, hcov, p, hp, hpid, hf⟩ | horph
    · by_cases hne : p.id = o.id
      · have hpo := h.ext_id hp ho hne
        subst hpo
        by_cases hf' : l.frame ∈ o'.frames
        · exact .inl ⟨r, hr, hcov, o', (hmem o').2 (.inl rfl), hid.trans hpid, hf'⟩
        · refine .inr ⟨(hmapped l hl hf).resolve_left hf', fun q hq => ?_⟩
          rcases (hmem q).1 hq with rfl | ⟨hq', hqne⟩
          · exact hf'
          · exact fun hfq => hqne (h.apart q hq' p hp _ hfq hf)
      · exact .inl ⟨r, hr, hcov, p, (hmem p).2 (.inr ⟨hp, hne⟩), hpid, hf⟩
    · refine .inr ⟨(horphan _ horph).1, fun q hq => ?_⟩
      rcases (hmem q).1 hq with rfl | ⟨hq', -⟩
      · exact (horphan _ horph).2
      · exact horph.2 q hq'
  case clean => exact h.clean

lemma Inv.setSame (h : Inv held s) (ho : o ∈ s.shms) (hid : o'.id = o.id)
    (hframes : o'.frames = o.frames) (hcount : o'.sCount = s.refs held' o.id)
    (hheld : ∀ id, id ≠ o.id → s.refs held' id = s.refs held id) : Inv held' (s.setShm o') := by
  have hframes' := hframes.symm
  refine h.setShm ho hid (hframes' ▸ h.nodup o ho) (hframes' ▸ h.live o ho)
    (fun p hp hne f hf => ⟨fun hfo => ?_, h.live p hp f hf⟩) (fun _ _ hf => .inl (hframes' ▸ hf))
    (fun f hf => ⟨hf.1, hframes' ▸ hf.2 o ho⟩) hcount hheld
  exact hne (h.apart p hp o ho f hf (hframes ▸ hfo))

/-! ## References -/

lemma refs_cons (id id' : ℕ) :
    s.refs (id :: held) id' = s.refs held id' + if id = id' then 1 else 0 := by
  rw [Sys.refs, Sys.refs, count_cons]
  simp only [beq_iff_eq]
  omega

@[simp] lemma shmGet_regions (id : ℕ) : (s.shmGet id).regions = s.regions := by
  rw [Sys.shmGet]
  split <;> rfl

@[simp] lemma shmGet_leaves (id : ℕ) : (s.shmGet id).leaves = s.leaves := by
  rw [Sys.shmGet]
  split <;> rfl

@[simp] lemma shmPut_regions (id : ℕ) : (s.shmPut id).regions = s.regions := by
  rw [Sys.shmPut]
  split
  · rfl
  · split_ifs
    · exact bfcFreePages_regions _
    · rfl

lemma Inv.shmGet (h : Inv held s) (hpos : 0 < s.refs held id) : Inv (id :: held) (s.shmGet id) := by
  obtain ⟨o, ho, rfl⟩ := h.present id hpos
  rw [Sys.shmGet, h.shm?_eq ho]
  refine h.setSame ho rfl rfl ?_ fun id hne => ?_
  · rw [refs_cons, if_pos rfl, h.counts o ho]
  · rw [refs_cons, if_neg (Ne.symm hne), Nat.add_zero]

lemma Shm.released_sublist (o : Shm) : o.released.Sublist o.frames := by
  rw [Shm.released, Shm.frames]
  split
  · rename_i fs hfs
    rw [hfs]
    exact sublist_append_right _ _
  · split_ifs
    · exact sublist_append_left _ _
    · exact nil_sublist _

/-- A reference goes back; with the last one the object and its pages. -/
lemma Inv.shmPut (h : Inv (id :: held) s) : Inv held (s.shmPut id) := by
  obtain ⟨o, ho, rfl⟩ := h.present id (by rw [refs_cons, if_pos rfl]; omega)
  have hcount := h.counts o ho
  rw [refs_cons, if_pos rfl] at hcount
  have hheld : ∀ id, id ≠ o.id → s.refs held id = s.refs (o.id :: held) id := by
    intro id hne
    rw [refs_cons, if_neg (Ne.symm hne), Nat.add_zero]
  rw [Sys.shmPut, h.shm?_eq ho]
  dsimp only
  split
  next hlast =>
    have hzero : s.refs held o.id = 0 := by omega
    have hsub := o.released_sublist
    rw [bfcFreePages_eq ((h.nodup o ho).sublist hsub) fun f hf => h.live o ho f (hsub.subset hf)]
    have hmem : ∀ p ∈ s.shms.filter (fun p => p.id ≠ o.id), p ∈ s.shms ∧ p.id ≠ o.id := by
      simp
    constructor
    case ids => exact h.ids.sublist (filter_sublist.map _)
    case nodup => exact fun p hp => h.nodup p (hmem p hp).1
    case apart => exact fun p hp q hq => h.apart p (hmem p hp).1 q (hmem q hq).1
    case live =>
      intro p hp f hf
      obtain ⟨hp, hne⟩ := hmem p hp
      have hfo : f ∉ o.released := fun hfo => hne (h.apart p hp o ho f hf (hsub.subset hfo))
      simp [h.live p hp f hf, hfo]
    case counts =>
      intro p hp
      obtain ⟨hp, hne⟩ := hmem p hp
      exact (h.counts p hp).trans (hheld _ hne).symm
    case present =>
      intro id hpos
      have hne : id ≠ o.id := by
        rintro rfl
        exact absurd hzero hpos.ne'
      have hpos' : 0 < s.refs (o.id :: held) id := (hheld id hne) ▸ hpos
      obtain ⟨p, hp, hpid⟩ := h.present id hpos'
      exact ⟨p, by simpa [hp, hpid] using hne, hpid⟩
    case covered =>
      -- no region of the object is left, so no leaf goes through it
      intro l hl
      rcases h.covered l hl with ⟨r, hr, hcov, p, hp, hpid, hf⟩ | horph
      swap
      · have hfo : l.frame ∉ o.released := fun hfo => horph.2 o ho (hsub.subset hfo)
        exact .inr ⟨by simp [horph.1, hfo], fun q hq => horph.2 q (hmem q hq).1⟩
      have hne : p.id ≠ o.id := by
        intro hpo
        have hpos : 0 < s.regions.countP fun r => r.shm = o.id :=
          countP_pos_iff.2 ⟨r, hr, by simpa using hpid.symm.trans hpo⟩
        rw [Sys.refs] at hzero
        omega
      exact .inl ⟨r, hr, hcov, p, by simpa [hp] using hne, hpid, hf⟩
    case clean => exact h.clean
  next hlast =>
    exact h.setSame ho rfl rfl (by dsimp only; omega) hheld

end XosKernel.Memfd
