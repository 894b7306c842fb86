/-
# Building the free list at boot

Step 9 of `init_mem` scans the page descriptors once and links the maximal runs of free
pages. The loop invariant `BuildInv` has two shapes: between two blocks the list is
complete up to the current page (`Closed`), and inside a block its length is still only in
a local variable (`Open`).
-/
import XosKernel.Mem.BfcInv

namespace XosKernel.Bfc

open DList FreeList List

variable {m : Mem} {L : List Block}

/-- The number of pages below `k` that `init_mem` leaves free. -/
def freeBelow (bi : BootInfo) (k : ℕ) : ℕ :=
  ((range k).filter fun i => (bi.initialPage i).status = .free).length

lemma freeBelow_succ (bi : BootInfo) (k : ℕ) :
    freeBelow bi (k + 1) = freeBelow bi k + if (bi.initialPage k).status = .free then 1 else 0 := by
  unfold freeBelow
  rw [range_succ, filter_append, length_append]
  by_cases h : (bi.initialPage k).status = .free <;> simp [h]

/-- The list built so far and the cursors, when no block is open. -/
structure Closed (bi : BootInfo) (k : ℕ) (s : BuildState) (L : List Block) : Prop where
  rep : Rep s.mem L
  coalesced : Coalesced L
  curPage : s.curPage = lst (starts L) none
  prev : s.prev = lst (starts L) none
  below : ∀ b ∈ L, b.start + b.len < k
  size_eq : size L = freeBelow bi k

/-- The same when the block starting at page `p` is open: its length is still only in the
local variable `cont_page_num`. -/
structure Open (bi : BootInfo) (k : ℕ) (s : BuildState) (L : List Block) (p : ℕ) : Prop where
  rep : Rep s.mem (L ++ [⟨p, s.mem.cont p⟩])
  coalesced : Coalesced (L ++ [⟨p, s.contPageNum⟩])
  curPage : s.curPage = lst (starts L) none
  prev : s.prev = some p
  length : p + s.contPageNum = k
  size_eq : size L + s.contPageNum = freeBelow bi k

/-- The loop invariant of step 9 after the pages below `k`. -/
structure BuildInv (bi : BootInfo) (k : ℕ) (s : BuildState) : Prop where
  status : ∀ j, (s.mem.bfcFrames j).status = (bi.initialPage j).status
  total : s.mem.totalPageFrames = bi.total
  fresh : ∀ j, k ≤ j → s.mem.nx j = none
  list : if s.inBlock then ∃ L p, Open bi k s L p else ∃ L, Closed bi k s L

variable {bi : BootInfo} {k : ℕ} {s : BuildState}

lemma Open.deref {p : ℕ} (h : Open bi k s L p) : s.deref = some p := by
  have hlinks := h.rep.links
  rw [starts_append, dSeg_append] at hlinks
  unfold BuildState.deref
  rw [h.curPage]
  cases hl : lst (starts L) none with
  | none =>
    have hnil : starts L = [] := lst_eq_none.1 hl
    simp [h.rep.head, hnil]
  | some q => simpa using hlinks.1.nx_lst hl

lemma Open.close_rep {p : ℕ} (h : Open bi k s L p) : Rep s.close (L ++ [⟨p, s.contPageNum⟩]) := by
  obtain ⟨hlinks, hhead, hlen⟩ := h.rep
  have hclose : s.close = s.mem.modify p fun pg => { pg with contPageNum := s.contPageNum } := by
    simp [BuildState.close, h.deref]
  rw [hclose]
  refine ⟨?_, by simpa using hhead, ?_⟩
  · rw [starts_append] at hlinks ⊢
    refine hlinks.congr (fun i _ => ?_) (fun i _ => ?_)
    · simp +contextual
    · simp +contextual
  · intro b hb
    rcases mem_append.1 hb with hb | hb
    · have hlt : b.start < p :=
        lt_of_coalesced h.coalesced (mem_starts.2 ⟨b, hb, rfl⟩) (by simp)
      simpa [hlt.ne] using hlen b (by simp [hb])
    · obtain rfl := mem_singleton.1 hb
      simp

lemma close_frame (s : BuildState) (j : ℕ) :
    (s.close.bfcFrames j).status = (s.mem.bfcFrames j).status ∧ s.close.nx j = s.mem.nx j ∧
      s.close.totalPageFrames = s.mem.totalPageFrames := by
  unfold BuildState.close
  cases s.deref with
  | none => exact ⟨rfl, rfl, rfl⟩
  | some k =>
    refine ⟨?_, by simp +contextual, rfl⟩
    simp only [Mem.modify]
    split_ifs <;> rfl

lemma append_rep (h : Rep m L) (hc : Coalesced L) (hk : ∀ i ∈ starts L, i < k)
    (hfresh : m.nx k = none) :
    Rep ((m.setNext (lst (starts L) none) (some k)).modify k fun pg =>
      { pg with prev := lst (starts L) none }) (L ++ ([⟨k, m.cont k⟩] ++ [])) := by
  have hlast : lst (starts L) none ≠ some k := fun hl => (hk k (mem_of_lst hl)).false
  have h' : Rep m (L ++ ([] ++ [])) := by simpa using h
  refine h'.splice (nodup_starts hc) nodup_nil ?_ ?_ ?_ (by simp) (by simp) ?_ ?_ ?_
  · simp [DSeg, hlast, hfresh]
  · intro i hi
    simp [(hk i hi).ne]
  · intro i hi
    simp [(hk i hi).ne]
  · simp
  · intro a ha
    simp +contextual
  · simp

lemma Closed.open_next (h : Closed bi k s L)
    (hfresh : s.mem.nx k = none) (hfree : (bi.initialPage k).status = .free) :
    Open bi (k + 1)
      ⟨(s.mem.setNext s.curPage (some k)).modify k fun pg => { pg with prev := s.prev },
        true, some k, s.curPage, 1⟩ L k := by
  obtain ⟨hrep, hc, hcur, hprev, hbelow, hsize⟩ := h
  have hlt : ∀ i ∈ starts L, i < k := fun i hi => by
    obtain ⟨a, ha, rfl⟩ := mem_starts.1 hi
    have := hbelow a ha
    omega
  refine ⟨?_, ?_, hcur, rfl, rfl, ?_⟩
  · simpa [hcur, hprev] using append_rep hrep hc hlt hfresh
  · exact coalesced_middle.2 ⟨hc, one_pos, coalesced_nil, hbelow, by simp, by simp⟩
  · rw [freeBelow_succ, if_pos hfree, hsize]

lemma buildStep_inv (h : BuildInv bi k s) : BuildInv bi (k + 1) (buildStep s k) := by
  obtain ⟨hst, htot, hfresh, hlist⟩ := h
  have hfresh' : ∀ j, k + 1 ≤ j → s.mem.nx j = none := fun j hj => hfresh j (by omega)
  unfold buildStep
  rw [hst k]
  by_cases hin : s.inBlock = true
  · rw [if_pos hin] at hlist ⊢
    obtain ⟨L, p, ho⟩ := hlist
    by_cases hfree : (bi.initialPage k).status = .free
    · -- the open block grows by one page
      rw [if_neg (not_not.2 hfree)]
      refine ⟨hst, htot, hfresh', ?_⟩
      simp only [hin, if_true]
      refine ⟨L, p, ho.rep, ?_, ho.curPage, ho.prev, ?_, ?_⟩
      · obtain ⟨h1, h2, h3, h4, -, -⟩ := coalesced_middle.1 ho.coalesced
        exact coalesced_middle.2 ⟨h1, Nat.succ_pos _, h3, h4, by simp, by simp⟩
      · have := ho.length
        dsimp only
        omega
      · have := ho.size_eq
        rw [freeBelow_succ, if_pos hfree]
        dsimp only
        omega
    · -- the open block ends before page `k`
      rw [if_pos hfree]
      refine ⟨fun j => (close_frame s j).1.trans (hst j), (close_frame s 0).2.2.trans htot,
        fun j hj => (close_frame s j).2.1.trans (hfresh' j hj), ?_⟩
      have hlen := ho.length
      refine ⟨L ++ [⟨p, s.contPageNum⟩], ho.close_rep, ho.coalesced, by simp [ho.deref],
        by simp [ho.prev], ?_, ?_⟩
      · intro b hb
        rcases mem_append.1 hb with hb | hb
        · have := (coalesced_middle.1 ho.coalesced).2.2.2.1 b hb
          dsimp only at this
          omega
        · obtain rfl := mem_singleton.1 hb
          dsimp only
          omega
      · have := ho.size_eq
        rw [freeBelow_succ, if_neg hfree]
        simpa using this
  · rw [if_neg hin] at hlist ⊢
    obtain ⟨L, hcl⟩ := hlist
    split
    next hfree =>
      refine ⟨fun j => ?_, by simpa using htot, fun j hj => ?_, L, k,
        hcl.open_next (hfresh k le_rfl) hfree⟩
      · rw [← hst j]
        simp +contextual
      · have hcur : s.curPage ≠ some j := fun hs => by
          rw [hcl.curPage] at hs
          obtain ⟨a, ha, rfl⟩ := mem_starts.1 (mem_of_lst hs)
          have := hcl.below a ha
          omega
        have hne : j ≠ k := by omega
        simp [hne, hcur, hfresh' j hj]
    next hfree =>
      refine ⟨hst, htot, hfresh', ?_⟩
      rw [if_neg hin]
      refine ⟨L, hcl.rep, hcl.coalesced, hcl.curPage, hcl.prev, fun b hb => ?_, ?_⟩
      · have := hcl.below b hb
        omega
      · rw [freeBelow_succ, if_neg hfree, hcl.size_eq, add_zero]

lemma initial_inv (bi : BootInfo) : BuildInv bi 0 ⟨initialMem bi, false, none, none, 0⟩ := by
  have hnext : ∀ i, (bi.initialPage i).next = none := fun i => by
    unfold BootInfo.initialPage
    split_ifs <;> rfl
  refine ⟨fun _ => rfl, rfl, fun j _ => hnext j, [], ?_⟩
  exact ⟨⟨trivial, rfl, by simp⟩, coalesced_nil, rfl, rfl, by simp, rfl⟩

lemma foldl_buildStep_inv (bi : BootInfo) (k : ℕ) :
    BuildInv bi k ((range k).foldl buildStep ⟨initialMem bi, false, none, none, 0⟩) := by
  induction k with
  | zero => exact initial_inv bi
  | succ k ih =>
    rw [range_succ, foldl_append]
    exact buildStep_inv ih

lemma initMem_status (bi : BootInfo) (j : ℕ) :
    ((initMem bi).bfcFrames j).status = (bi.initialPage j).status := by
  have hst := (foldl_buildStep_inv bi bi.total).status j
  unfold initMem
  dsimp only
  split_ifs
  · rw [(close_frame _ j).1, hst]
  · exact hst

/-- `init_mem` builds a coalesced list of exactly the free pages below
`total_page_frames`. -/
lemma initMem_spec (bi : BootInfo) :
    (∃ L, FreeListIs (initMem bi) L ∧ size L = freeBelow bi bi.total) ∧
      (initMem bi).totalPageFrames = bi.total := by
  obtain ⟨-, htot, -, hlist⟩ := foldl_buildStep_inv bi bi.total
  unfold initMem
  set s := (range bi.total).foldl buildStep ⟨initialMem bi, false, none, none, 0⟩
  by_cases hin : s.inBlock = true
  · rw [if_pos hin] at hlist ⊢
    obtain ⟨L, p, ho⟩ := hlist
    have htot' := (close_frame s 0).2.2.trans htot
    refine ⟨⟨_, ⟨ho.close_rep, ho.coalesced, fun b hb => ?_⟩, ?_⟩, htot'⟩
    · rw [htot']
      have hlen := ho.length
      rcases mem_append.1 hb with hb | hb
      · have := (coalesced_middle.1 ho.coalesced).2.2.2.1 b hb
        dsimp only at this
        omega
      · obtain rfl := mem_singleton.1 hb
        exact hlen.le
    · simpa using ho.size_eq
  · rw [if_neg hin] at hlist ⊢
    obtain ⟨L, hcl⟩ := hlist
    refine ⟨⟨L, ⟨hcl.rep, hcl.coalesced, fun b hb => ?_⟩, hcl.size_eq⟩, htot⟩
    rw [htot]
    exact (hcl.below b hb).le

end XosKernel.Bfc
