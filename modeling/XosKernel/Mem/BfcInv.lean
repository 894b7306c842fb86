/-
# The free list of the page allocator

`Rep m L` says that the intrusive list in the page descriptors of `m` is the list of
blocks `L`. Each pointer edit of the allocator replaces a few consecutive blocks and
touches the links of the two neighbours only (`Rep.splice`); with the library of coalesced
lists this gives the effect of the operations on `L`: allocation cuts the first block that
fits, and freeing inserts with coalescing.
-/
import XosKernel.Mem.Bfc
import XosKernel.Lib.FreeList

namespace XosKernel.Bfc

open DList FreeList List Option Mem

/-! ## Reading the links after an edit -/

namespace Mem

/-- The block lengths. -/
def cont (m : Mem) (i : ℕ) : ℕ := (m.bfcFrames i).contPageNum

variable (m : Mem) (p v : Option ℕ) (i j n : ℕ)

@[simp] lemma next_eq : (m.bfcFrames i).next = m.nx i := rfl

@[simp] lemma prev_eq : (m.bfcFrames i).prev = m.pv i := rfl

@[simp] lemma contPageNum_eq : (m.bfcFrames i).contPageNum = m.cont i := rfl

@[simp] lemma nx_setNext : (m.setNext p v).nx j = if p = some j then v else m.nx j := by
  cases p with
  | none => rfl
  | some i =>
    simp only [setNext, modify, nx, some.injEq, eq_comm (a := i)]
    split_ifs <;> rfl

@[simp] lemma pv_setNext : (m.setNext p v).pv j = m.pv j := by
  cases p with
  | none => rfl
  | some i => simp only [setNext, modify, pv]; split_ifs <;> rfl

@[simp] lemma cont_setNext : (m.setNext p v).cont j = m.cont j := by
  cases p with
  | none => rfl
  | some i => simp only [setNext, modify, cont]; split_ifs <;> rfl

@[simp] lemma bfcFreeList_setNext :
    (m.setNext p v).bfcFreeList = if p = none then v else m.bfcFreeList := by
  cases p <;> simp [setNext, modify]

@[simp] lemma nx_setPrev : (m.setPrev p v).nx j = m.nx j := by
  cases p with
  | none => rfl
  | some i => simp only [setPrev, modify, nx]; split_ifs <;> rfl

@[simp] lemma pv_setPrev : (m.setPrev p v).pv j = if p = some j then v else m.pv j := by
  cases p with
  | none => rfl
  | some i =>
    simp only [setPrev, modify, pv, some.injEq, eq_comm (a := i)]
    split_ifs <;> rfl

@[simp] lemma cont_setPrev : (m.setPrev p v).cont j = m.cont j := by
  cases p with
  | none => rfl
  | some i => simp only [setPrev, modify, cont]; split_ifs <;> rfl

@[simp] lemma bfcFreeList_setPrev : (m.setPrev p v).bfcFreeList = m.bfcFreeList := by
  cases p <;> rfl

@[simp] lemma nx_modify (f : Page → Page) :
    (m.modify i f).nx j = if j = i then (f (m.bfcFrames i)).next else m.nx j := by
  simp only [modify, nx]
  split_ifs with h
  · rw [h]
  · rfl

@[simp] lemma pv_modify (f : Page → Page) :
    (m.modify i f).pv j = if j = i then (f (m.bfcFrames i)).prev else m.pv j := by
  simp only [modify, pv]
  split_ifs with h
  · rw [h]
  · rfl

@[simp] lemma cont_modify (f : Page → Page) :
    (m.modify i f).cont j = if j = i then (f (m.bfcFrames i)).contPageNum else m.cont j := by
  simp only [modify, cont]
  split_ifs with h
  · rw [h]
  · rfl

@[simp] lemma bfcFreeList_modify (f : Page → Page) :
    (m.modify i f).bfcFreeList = m.bfcFreeList := rfl

@[simp] lemma nx_markUsed : (m.markUsed i n).nx j = m.nx j := by
  simp only [markUsed, nx]; split_ifs <;> rfl

@[simp] lemma pv_markUsed : (m.markUsed i n).pv j = m.pv j := by
  simp only [markUsed, pv]; split_ifs <;> rfl

@[simp] lemma cont_markUsed : (m.markUsed i n).cont j = m.cont j := by
  simp only [markUsed, cont]; split_ifs <;> rfl

@[simp] lemma bfcFreeList_markUsed : (m.markUsed i n).bfcFreeList = m.bfcFreeList := rfl

@[simp] lemma nx_markFree : (m.markFree i n).nx j = m.nx j := by
  simp only [markFree, modify, nx]; split_ifs <;> rfl

@[simp] lemma pv_markFree : (m.markFree i n).pv j = m.pv j := by
  simp only [markFree, modify, pv]; split_ifs <;> rfl

@[simp] lemma cont_markFree : (m.markFree i n).cont j = if j = i then n else m.cont j := by
  simp only [markFree, modify, cont]; split_ifs <;> rfl

@[simp] lemma totalPageFrames_markFree : (m.markFree i n).totalPageFrames = m.totalPageFrames := rfl

@[simp] lemma totalPageFrames_setNext : (m.setNext p v).totalPageFrames = m.totalPageFrames := by
  cases p <;> rfl

@[simp] lemma totalPageFrames_setPrev : (m.setPrev p v).totalPageFrames = m.totalPageFrames := by
  cases p <;> rfl

@[simp] lemma totalPageFrames_modify (f : Page → Page) :
    (m.modify i f).totalPageFrames = m.totalPageFrames := rfl

@[simp] lemma totalPageFrames_markUsed : (m.markUsed i n).totalPageFrames = m.totalPageFrames := rfl

@[simp] lemma status_setNext : ((m.setNext p v).bfcFrames j).status = (m.bfcFrames j).status := by
  cases p with
  | none => rfl
  | some i => simp only [setNext, modify]; split_ifs <;> rfl

@[simp] lemma status_setPrev : ((m.setPrev p v).bfcFrames j).status = (m.bfcFrames j).status := by
  cases p with
  | none => rfl
  | some i => simp only [setPrev, modify]; split_ifs <;> rfl

@[simp] lemma status_modify (f : Page → Page) :
    ((m.modify i f).bfcFrames j).status =
      if j = i then (f (m.bfcFrames i)).status else (m.bfcFrames j).status := by
  simp only [modify]
  split_ifs with h
  · rw [h]
  · rfl

@[simp] lemma status_markUsed :
    ((m.markUsed i n).bfcFrames j).status =
      if i ≤ j ∧ j < i + n then .used else (m.bfcFrames j).status := by
  simp only [markUsed]; split_ifs <;> rfl

@[simp] lemma status_markFree :
    ((m.markFree i n).bfcFrames j).status = if j = i then .free else (m.bfcFrames j).status := by
  simp only [markFree, modify]; split_ifs <;> rfl

lemma bfcFrames_setNext (h : p ≠ some j) : (m.setNext p v).bfcFrames j = m.bfcFrames j := by
  cases p with
  | none => rfl
  | some i => exact if_neg fun hji : j = i => h (congrArg some hji.symm)

lemma bfcFrames_setPrev (h : p ≠ some j) : (m.setPrev p v).bfcFrames j = m.bfcFrames j := by
  cases p with
  | none => rfl
  | some i => exact if_neg fun hji : j = i => h (congrArg some hji.symm)

lemma bfcFrames_modify (f : Page → Page) (h : j ≠ i) :
    (m.modify i f).bfcFrames j = m.bfcFrames j := if_neg h

lemma bfcFrames_markUsed (h : ¬(i ≤ j ∧ j < i + n)) :
    (m.markUsed i n).bfcFrames j = m.bfcFrames j := if_neg h

lemma bfcFrames_markFree (h : j ≠ i) : (m.markFree i n).bfcFrames j = m.bfcFrames j :=
  if_neg h

end Mem

/-! ## The representation -/

def starts (L : List Block) : List ℕ := L.map Block.start

@[simp] lemma starts_nil : starts [] = [] := rfl

@[simp] lemma starts_cons (b : Block) (L : List Block) :
    starts (b :: L) = b.start :: starts L := rfl

@[simp] lemma starts_append (L M : List Block) : starts (L ++ M) = starts L ++ starts M := by
  simp [starts]

lemma mem_starts {L : List Block} {i : ℕ} : i ∈ starts L ↔ ∃ b ∈ L, b.start = i := by
  simp [starts]

/-- The free list of `m` is the list of blocks `L`: the links agree in both directions and
each first page stores the length of its block. -/
structure Rep (m : Mem) (L : List Block) : Prop where
  links : DSeg m.nx m.pv none (starts L) none
  head : m.bfcFreeList = fst (starts L) none
  len : ∀ b ∈ L, m.cont b.start = b.len

variable {m m' : Mem} {L M X X' : List Block} {b : Block} {n : ℕ}

/-- Replace the blocks `X` between `L` and `M` by `X'`: the new blocks are linked between
the neighbours, and of the other links only the two that pointed to `X` have changed. -/
lemma Rep.splice (h : Rep m (L ++ (X ++ M))) (hL : (starts L).Nodup) (hM : (starts M).Nodup)
    (hseg : DSeg m'.nx m'.pv (lst (starts L) none) (starts X') (fst (starts M) none))
    (hnxL : ∀ i ∈ starts L, m'.nx i =
      if lst (starts L) none = some i then fst (starts X' ++ starts M) none else m.nx i)
    (hpvL : ∀ i ∈ starts L, m'.pv i = m.pv i)
    (hpvM : ∀ i ∈ starts M, m'.pv i =
      if fst (starts M) none = some i then lst (starts X') (lst (starts L) none) else m.pv i)
    (hnxM : ∀ i ∈ starts M, m'.nx i = m.nx i)
    (hhead : m'.bfcFreeList =
      if lst (starts L) none = none then fst (starts X' ++ starts M) none else m.bfcFreeList)
    (hlen : ∀ b ∈ L ++ M, m'.cont b.start = m.cont b.start)
    (hlenX : ∀ b ∈ X', m'.cont b.start = b.len) : Rep m' (L ++ (X' ++ M)) := by
  obtain ⟨hlinks, hh, hc⟩ := h
  rw [starts_append, starts_append, dSeg_append, dSeg_append] at hlinks
  obtain ⟨hsL, -, hsM⟩ := hlinks
  refine ⟨?_, ?_, ?_⟩
  · rw [starts_append, starts_append, dSeg_append, dSeg_append]
    refine ⟨hsL.redirect_right hL (fun i hi hne => ?_) (fun i hi => ?_) hpvL, hseg,
      hsM.redirect_left hM (fun i hi hne => ?_) (fun i hi => ?_) hnxM⟩
    · rw [hnxL i hi, if_neg hne]
    · rw [hnxL i (mem_of_lst hi), if_pos hi]
    · rw [hpvM i hi, if_neg hne]
    · rw [hpvM i (mem_of_fst hi), if_pos hi]
  · rw [hhead, hh]
    cases L with
    | nil => simp
    | cons a L => simp [lst_eq_none]
  · intro c hcm
    rcases mem_append.1 hcm with hcm | hcm
    · rw [hlen c (by simp [hcm]), hc c (by simp [hcm])]
    · rcases mem_append.1 hcm with hcm | hcm
      · exact hlenX c hcm
      · rw [hlen c (by simp [hcm]), hc c (by simp [hcm])]

lemma lt_of_coalesced {L M : List Block} {i j : ℕ} (h : Coalesced (L ++ M))
    (hi : i ∈ starts L) (hj : j ∈ starts M) : i < j := by
  obtain ⟨a, ha, rfl⟩ := mem_starts.1 hi
  obtain ⟨c, hc, rfl⟩ := mem_starts.1 hj
  have := (coalesced_append.1 h).2.2 a ha c hc
  omega

lemma nodup_starts (h : Coalesced L) : (starts L).Nodup := by
  have hlt : (starts L).Pairwise (· < ·) := by
    refine pairwise_map.2 (h.2.imp fun hab => ?_)
    omega
  exact hlt.imp fun hab => hab.ne

/-! ## Allocation -/

lemma starts_outside (h : Coalesced (L ++ b :: M)) {i : ℕ} (hi : i ∈ starts (L ++ M)) :
    i < b.start ∨ b.start + b.len < i := by
  obtain ⟨-, -, -, hLb, hbM, -⟩ := coalesced_middle.1 h
  obtain ⟨a, ha, rfl⟩ := mem_starts.1 hi
  rcases mem_append.1 ha with ha | ha
  · have := hLb a ha
    omega
  · exact .inr (hbM a ha)

lemma nx_of_rep (h : Rep m (L ++ b :: M)) : m.nx b.start = fst (starts M) none := by
  have := h.links
  rw [starts_append, starts_cons, dSeg_append, dSeg_cons] at this
  exact this.2.2.1

lemma takeWhole_rep (h : Rep m (L ++ ([b] ++ M))) (hc : Coalesced (L ++ b :: M)) :
    Rep (takeWhole m (lst (starts L) none) b.start n) (L ++ ([] ++ M)) := by
  obtain ⟨hcL, -, hcM, -⟩ := coalesced_middle.1 hc
  have hLM : Coalesced (L ++ M) := by simpa [cut] using coalesced_cut hc le_rfl
  have hnx := nx_of_rep h
  refine h.splice (nodup_starts hcL) (nodup_starts hcM) trivial ?_ ?_ ?_ ?_ ?_ ?_ (by simp)
  · intro i hi
    simp [takeWhole, hnx]
  · intro i hi
    have hne : fst (starts M) none ≠ some i := fun hf =>
      (lt_of_coalesced hLM hi (mem_of_fst hf)).false
    simp [takeWhole, hnx, hne]
  · intro i hi
    simp [takeWhole, hnx]
  · intro i hi
    have hne : lst (starts L) none ≠ some i := fun hf =>
      (lt_of_coalesced hLM (mem_of_lst hf) hi).false
    simp [takeWhole, hne]
  · simp [takeWhole, hnx]
  · simp [takeWhole]

lemma takeSplit_rep (h : Rep m (L ++ ([b] ++ M))) (hc : Coalesced (L ++ b :: M)) (hn : 0 < n)
    (hlt : n < b.len) :
    Rep (takeSplit m (lst (starts L) none) b.start n) (L ++ ([⟨b.start + n, b.len - n⟩] ++ M)) := by
  obtain ⟨hcL, -, hcM, -⟩ := coalesced_middle.1 hc
  have hLM : Coalesced (L ++ M) := by simpa [cut] using coalesced_cut hc le_rfl
  have hnx := nx_of_rep h
  have hcont : m.cont b.start = b.len := h.len b (by simp)
  have hout : ∀ i ∈ starts (L ++ M), i ≠ b.start ∧ i ≠ b.start + n := fun i hi => by
    have := starts_outside hc hi
    omega
  have hlast : ∀ i, lst (starts L) none = some i → i ≠ b.start ∧ i ≠ b.start + n :=
    fun i hi => hout i (by simp [mem_of_lst hi])
  have hfirst : ∀ i, fst (starts M) none = some i → i ≠ b.start ∧ i ≠ b.start + n :=
    fun i hi => hout i (by simp [mem_of_fst hi])
  refine h.splice (nodup_starts hcL) (nodup_starts hcM) ?_ ?_ ?_ ?_ ?_ ?_ ?_ ?_
  · have h1 : lst (starts L) none ≠ some (b.start + n) := fun hl => (hlast _ hl).2 rfl
    have h2 : fst (starts M) none ≠ some (b.start + n) := fun hl => (hfirst _ hl).2 rfl
    simp [takeSplit, hnx, DSeg, h1, h2, hn.ne']
  · intro i hi
    obtain ⟨h1, h2⟩ := hout i (by simp [hi])
    simp [takeSplit, h1, h2]
  · intro i hi
    obtain ⟨h1, h2⟩ := hout i (by simp [hi])
    have h3 : fst (starts M) none ≠ some i := fun hf =>
      (lt_of_coalesced hLM hi (mem_of_fst hf)).false
    simp [takeSplit, hnx, h1, h2, h3]
  · intro i hi
    obtain ⟨h1, h2⟩ := hout i (by simp [hi])
    simp [takeSplit, hnx, h1, h2]
  · intro i hi
    obtain ⟨h1, h2⟩ := hout i (by simp [hi])
    have h3 : lst (starts L) none ≠ some i := fun hf =>
      (lt_of_coalesced hLM (mem_of_lst hf) hi).false
    simp [takeSplit, h1, h2, h3]
  · simp [takeSplit]
  · intro c hcm
    obtain ⟨h1, h2⟩ := hout c.start (mem_starts.2 ⟨c, hcm, rfl⟩)
    simp [takeSplit, h1, h2]
  · intro c hcm
    obtain rfl := mem_singleton.1 hcm
    simp [takeSplit, hcont, hn.ne']

lemma takeBlock_rep (h : Rep m (L ++ b :: M)) (hc : Coalesced (L ++ b :: M)) (hn : 0 < n)
    (hle : n ≤ b.len) :
    Rep (takeBlock m (lst (starts L) none) b.start n) (L ++ (cut b n ++ M)) := by
  have hcont : m.cont b.start = b.len := h.len b (by simp)
  unfold takeBlock cut
  rw [contPageNum_eq, hcont]
  split_ifs with hlen
  · obtain ⟨h1, h2, h3⟩ := takeWhole_rep (n := n) h hc
    exact ⟨h1, h2, h3⟩
  · obtain ⟨h1, h2, h3⟩ := takeSplit_rep h hc hn (by omega)
    exact ⟨h1, h2, h3⟩

/-- The allocator's state is well formed: its list is coalesced and inside the frames. -/
structure FreeListIs (m : Mem) (L : List Block) : Prop extends Rep m L where
  coalesced : Coalesced L
  bounded : ∀ b ∈ L, b.start + b.len ≤ m.totalPageFrames

lemma FreeListIs.length_le (h : FreeListIs m L) : (starts L).length ≤ m.totalPageFrames := by
  have h1 := length_le_size h.coalesced
  have h2 := size_add_le h.coalesced (fun b _ => b.start.zero_le) h.bounded (Nat.zero_le _)
  simp only [starts, length_map]
  omega

/-- The two outcomes of an allocation: no block passes the test, or the first one that
does is taken. -/
lemma allocWith_cases (h : FreeListIs m L) (hn : 0 < n) (fits : ℕ → Bool) :
    ((∀ b ∈ L, fits b.start = false) ∧ allocWith fits m n = some (none, m)) ∨
      ∃ L1 b L2, L = L1 ++ b :: L2 ∧ fits b.start = true ∧
        allocWith fits m n = some (some b.start, takeBlock m (lst (starts L1) none) b.start n) := by
  have hfuel := h.length_le
  have hlinks := h.links
  cases hf : L.find? fun b => fits b.start with
  | none =>
    have hno : ∀ b ∈ L, fits b.start = false := by simpa using hf
    rw [← append_nil (starts L)] at hfuel hlinks
    have hw := walk_eq fits (starts L) [] hlinks (by simpa [mem_starts] using hno) (by simp) hfuel
    refine .inl ⟨hno, ?_⟩
    rw [append_nil, ← h.head] at hw
    simp [allocWith, hn.ne', hw]
  | some b =>
    obtain ⟨hb, L1, L2, rfl, hno⟩ := List.find?_eq_some_iff_append.1 hf
    rw [starts_append] at hfuel hlinks
    have hw := walk_eq fits _ _ hlinks (by simpa [mem_starts] using hno) (by simpa using hb) hfuel
    refine .inr ⟨L1, b, L2, rfl, hb, ?_⟩
    rw [← starts_append, ← h.head, starts_cons, fst_cons] at hw
    simp [allocWith, hn.ne', hw]

@[simp] lemma takeBlock_total (m : Mem) (prev : Option ℕ) (cur n : ℕ) :
    (takeBlock m prev cur n).totalPageFrames = m.totalPageFrames := by
  unfold takeBlock takeWhole takeSplit
  split_ifs <;> simp

lemma takeBlock_freeListIs (h : FreeListIs m (L ++ b :: M)) (hn : 0 < n) (hle : n ≤ b.len) :
    FreeListIs (takeBlock m (lst (starts L) none) b.start n) (L ++ (cut b n ++ M)) := by
  refine ⟨takeBlock_rep h.toRep h.coalesced hn hle, coalesced_cut h.coalesced hle, ?_⟩
  intro c hc
  rw [takeBlock_total]
  simp only [mem_append] at hc
  rcases hc with hc | hc | hc
  · exact h.bounded c (by simp [hc])
  · have h1 := mem_cut hle hc
    have h2 := h.bounded b (by simp)
    omega
  · exact h.bounded c (by simp [hc])

lemma takeBlock_status {prev : Option ℕ} {cur j : ℕ}
    (h : ((takeBlock m prev cur n).bfcFrames j).status = .slab) :
    (m.bfcFrames j).status = .slab := by
  unfold takeBlock takeWhole takeSplit at h
  split_ifs at h with hlen
  · simp only [status_markUsed, status_setPrev, status_setNext] at h
    split_ifs at h
    exact h
  · simp only [status_modify, status_markUsed, status_setPrev, status_setNext] at h
    by_cases hj : j = cur
    · subst hj
      split_ifs at h
      all_goals exact h
    · by_cases hj' : j = cur + n
      · simp [hj'] at h
        split_ifs at h
      · rw [if_neg hj, if_neg hj', if_neg hj] at h
        split_ifs at h
        exact h

/-- Allocation writes the descriptors of free blocks only. -/
lemma takeBlock_frame (h : Rep m (L ++ b :: M)) {j : ℕ} (hle : n ≤ b.len)
    (hj : ∀ f ∈ L ++ b :: M, ¬(f.start ≤ j ∧ j < f.start + f.len))
    (hpos : ∀ f ∈ L ++ b :: M, 0 < f.len) :
    (takeBlock m (lst (starts L) none) b.start n).bfcFrames j = m.bfcFrames j := by
  have hne : ∀ i ∈ starts (L ++ b :: M), i ≠ j := fun i hi => by
    obtain ⟨f, hf, rfl⟩ := mem_starts.1 hi
    have h1 := hj f hf
    have h2 := hpos f hf
    omega
  have hprev : lst (starts L) none ≠ some j := fun hl =>
    hne j (by simp [mem_of_lst hl]) rfl
  have hnext : (m.bfcFrames b.start).next ≠ some j := fun hl =>
    hne j (h.links.nx_mem (by simp) hl) rfl
  have hb := hj b (by simp)
  have hcur : j ≠ b.start := (hne b.start (by simp)).symm
  unfold takeBlock
  split_ifs with hlen
  · rw [takeWhole, bfcFrames_markUsed _ _ _ _ (by omega), bfcFrames_setPrev _ _ _ _ hnext,
      bfcFrames_setNext _ _ _ _ hprev]
  · rw [contPageNum_eq, h.len b (by simp)] at hlen
    rw [takeSplit, bfcFrames_modify _ _ _ _ hcur, bfcFrames_setPrev _ _ _ _ hnext,
      bfcFrames_setNext _ _ _ _ hprev, bfcFrames_modify _ _ _ _ (by omega),
      bfcFrames_markUsed _ _ _ _ (by omega), bfcFrames_modify _ _ _ _ hcur]

lemma takeBlock_header (h : Rep m (L ++ b :: M)) (hn : 0 < n) :
    ((takeBlock m (lst (starts L) none) b.start n).bfcFrames b.start).status = .used ∧
      (takeBlock m (lst (starts L) none) b.start n).cont b.start = n := by
  have hcont : m.cont b.start = b.len := h.len b (by simp)
  unfold takeBlock
  rw [contPageNum_eq, hcont]
  split_ifs with hlen
  · refine ⟨?_, ?_⟩
    · simp [takeWhole, hn]
    · show (takeWhole m (lst (starts L) none) b.start n).cont b.start = n
      simp [takeWhole, hcont, hlen]
  · refine ⟨?_, ?_⟩
    · simp [takeSplit, hn, hn.ne']
    · show (takeSplit m (lst (starts L) none) b.start n).cont b.start = n
      simp [takeSplit, hn.ne']

/-! ## Freeing -/

lemma linkBlock_rep (h : Rep m (L ++ ([] ++ M))) (hnd : (starts (L ++ M)).Nodup)
    (hb : b.start ∉ starts (L ++ M)) (hlen : m.cont b.start = b.len) :
    Rep (linkBlock m (lst (starts L) none) (fst (starts M) none) b.start) (L ++ ([b] ++ M)) := by
  rw [starts_append] at hnd hb
  obtain ⟨hL, hM, hne⟩ := nodup_append.1 hnd
  have hbL : ∀ i ∈ starts L, i ≠ b.start := fun i hi hib => hb (by simp [← hib, hi])
  have hbM : ∀ i ∈ starts M, i ≠ b.start := fun i hi hib => hb (by simp [← hib, hi])
  refine h.splice hL hM ?_ ?_ ?_ ?_ ?_ ?_ ?_ ?_
  · have h1 : lst (starts L) none ≠ some b.start := fun hl => hbL _ (mem_of_lst hl) rfl
    have h2 : fst (starts M) none ≠ some b.start := fun hf => hbM _ (mem_of_fst hf) rfl
    simp [linkBlock, DSeg, h1, h2]
  · intro i hi
    simp [linkBlock, hbL i hi]
  · intro i hi
    have h1 : fst (starts M) none ≠ some i := fun hf => hne i hi i (mem_of_fst hf) rfl
    simp [linkBlock, hbL i hi, h1]
  · intro i hi
    simp [linkBlock, hbM i hi]
  · intro i hi
    have h1 : lst (starts L) none ≠ some i := fun hl => hne i (mem_of_lst hl) i hi rfl
    simp [linkBlock, hbM i hi, h1]
  · simp [linkBlock]
  · intro c hc
    simp +contextual [linkBlock]
  · intro c hc
    obtain rfl := mem_singleton.1 hc
    simpa [linkBlock] using hlen

lemma mergeInto_rep {a c : Block} (h : Rep m (L ++ ([a, c] ++ M)))
    (hnd : (starts (L ++ ([a, c] ++ M))).Nodup) :
    Rep (mergeInto m a.start c.start) (L ++ ([⟨a.start, a.len + c.len⟩] ++ M)) := by
  rw [starts_append, starts_append] at hnd
  obtain ⟨hL, hacM, hneL⟩ := nodup_append.1 hnd
  obtain ⟨hac, hM, hneM⟩ := nodup_append.1 hacM
  have haL : ∀ i ∈ starts L, i ≠ a.start := fun i hi => hneL i hi a.start (by simp)
  have haM : ∀ i ∈ starts M, i ≠ a.start := fun i hi => (hneM a.start (by simp) i hi).symm
  have hlinks := h.links
  rw [starts_append, starts_append, dSeg_append, dSeg_append] at hlinks
  obtain ⟨hlinksL, ⟨hpva, -, -, hnxc, -⟩, -⟩ := hlinks
  have hfirst : ∀ i, i ∉ starts M → fst (starts M) none ≠ some i := fun i hi hf =>
    hi (mem_of_fst hf)
  refine h.splice hL hM ?_ ?_ ?_ ?_ ?_ ?_ ?_ ?_
  · have h1 := hfirst a.start fun hi => haM _ hi rfl
    simpa [mergeInto, DSeg, hnxc, h1] using hpva
  · intro i hi
    split_ifs with hl
    · simp [mergeInto, haL i hi, hlinksL.nx_lst hl]
    · simp [mergeInto, haL i hi]
  · intro i hi
    have h1 := hfirst i fun hi' => hneL i hi i (by simp [hi']) rfl
    simp [mergeInto, hnxc, haL i hi, h1]
  · intro i hi
    simp [mergeInto, hnxc, haM i hi]
  · intro i hi
    simp [mergeInto, haM i hi]
  · split_ifs with hl
    · simp [mergeInto, h.head, lst_eq_none.1 hl]
    · simp [mergeInto]
  · intro d hd
    have h1 : d.start ≠ a.start := by
      rcases mem_append.1 hd with hd | hd
      · exact haL _ (mem_starts.2 ⟨d, hd, rfl⟩)
      · exact haM _ (mem_starts.2 ⟨d, hd, rfl⟩)
    simp [mergeInto, h1]
  · intro d hd
    obtain rfl := mem_singleton.1 hd
    simp [mergeInto, h.len a (by simp), h.len c (by simp)]

lemma mergeInto_frame {a c j : ℕ} (h : Rep m L) (ha : a ∈ starts L) (hc : c ∈ starts L)
    (hj : j ∉ starts L) : (mergeInto m a c).bfcFrames j = m.bfcFrames j := by
  have hnext : (m.bfcFrames c).next ≠ some j := fun hl => hj (h.links.nx_mem hc hl)
  have hja : j ≠ a := fun hja => hj (hja ▸ ha)
  rw [mergeInto, bfcFrames_setPrev _ _ _ _ hnext, bfcFrames_modify _ _ _ _ hja]

/-- Coalescing with the predecessor; the frame condition is about the nodes of the list. -/
lemma mergePrev_spec (h : Rep m (L ++ ([b] ++ M))) (hnd : (starts (L ++ ([b] ++ M))).Nodup) :
    ∃ m', mergePrev m (lst (starts L) none) b.start = ((joinLast L b).2.start, m') ∧
      Rep m' ((joinLast L b).1 ++ ([(joinLast L b).2] ++ M)) ∧
      (starts ((joinLast L b).1 ++ ([(joinLast L b).2] ++ M))).Sublist (starts (L ++ ([b] ++ M))) ∧
      ∀ j, j ∉ starts (L ++ ([b] ++ M)) → m'.bfcFrames j = m.bfcFrames j := by
  rcases joinLast_cases L b with ⟨hj, hlast⟩ | ⟨L', a, rfl, hab, hj⟩
  · rw [hj]
    refine ⟨m, ?_, h, List.Sublist.refl _, fun _ _ => rfl⟩
    rcases eq_nil_or_concat L with rfl | ⟨L', a, rfl⟩
    · rfl
    · rw [concat_eq_append] at h hlast ⊢
      have hne : a.start + m.cont a.start ≠ b.start := by
        rw [h.len a (by simp)]
        exact hlast a (by simp)
      simp [mergePrev, hne]
  · rw [hj]
    rw [append_assoc] at h hnd ⊢
    have heq : a.start + m.cont a.start = b.start := by
      rw [h.len a (by simp)]
      exact hab
    refine ⟨mergeInto m a.start b.start, by simp [mergePrev, heq], mergeInto_rep h hnd,
      by simp, fun j hj => mergeInto_frame h (by simp) (by simp) hj⟩

lemma mergeNext_spec (h : Rep m (L ++ ([b] ++ M))) (hnd : (starts (L ++ ([b] ++ M))).Nodup) :
    Rep (mergeNext m (fst (starts M) none) b.start) (L ++ glue b M) ∧
      ∀ j, j ∉ starts (L ++ ([b] ++ M)) →
        (mergeNext m (fst (starts M) none) b.start).bfcFrames j = m.bfcFrames j := by
  have hlen : m.cont b.start = b.len := h.len b (by simp)
  cases M with
  | nil => exact ⟨h, fun _ _ => rfl⟩
  | cons c M =>
    rw [glue]
    simp only [mergeNext, starts_cons, fst_cons, contPageNum_eq, hlen]
    split_ifs with heq
    · exact ⟨mergeInto_rep h hnd, fun j hj => mergeInto_frame h (by simp) (by simp)
        (by simpa using hj)⟩
    · exact ⟨h, fun _ _ => rfl⟩

/-- Linking a block and gluing it to its neighbours. -/
lemma insertBlock_spec (h : Rep m (L ++ M)) (hnd : (starts (L ++ M)).Nodup)
    (hb : b.start ∉ starts (L ++ M)) (hlen : m.cont b.start = b.len) :
    Rep (insertBlock m (lst (starts L) none) (fst (starts M) none) b.start).2 (give L b M) ∧
      ∀ j, j ∉ starts (L ++ ([b] ++ M)) →
        (insertBlock m (lst (starts L) none) (fst (starts M) none) b.start).2.bfcFrames j =
          m.bfcFrames j := by
  have hlink := linkBlock_rep h hnd hb hlen
  have hnd' : (starts (L ++ ([b] ++ M))).Nodup := by
    have hperm : (starts (L ++ ([b] ++ M))).Perm (b.start :: starts (L ++ M)) := by
      simp only [starts_append, starts_cons, starts_nil]
      exact perm_middle
    exact hperm.nodup_iff.2 (nodup_cons.2 ⟨hb, hnd⟩)
  obtain ⟨m', hm', hrep, hsub, hframe⟩ := mergePrev_spec hlink hnd'
  obtain ⟨hrep', hframe'⟩ := mergeNext_spec hrep (hnd'.sublist hsub)
  simp only [insertBlock, hm', give]
  refine ⟨hrep', fun j hj => ?_⟩
  rw [hframe' j fun hj' => hj (hsub.subset hj'), hframe j hj]
  simp only [starts_append, starts_cons, starts_nil, mem_append, mem_singleton, not_or] at hj
  have h1 : lst (starts L) none ≠ some j := fun hl => hj.1 (mem_of_lst hl)
  have h2 : fst (starts M) none ≠ some j := fun hl => hj.2.2 (mem_of_fst hl)
  rw [linkBlock, bfcFrames_setPrev _ _ _ _ h2, bfcFrames_setNext _ _ _ _ h1,
    bfcFrames_modify _ _ _ _ hj.2.1]

lemma mergeInto_status (m : Mem) (a c j : ℕ) :
    ((mergeInto m a c).bfcFrames j).status = (m.bfcFrames j).status := by
  simp only [mergeInto, status_setPrev, status_modify]
  split_ifs with h
  · rw [h]
  · rfl

lemma insertBlock_status (m : Mem) (prev cur : Option ℕ) (page j : ℕ) :
    ((insertBlock m prev cur page).2.bfcFrames j).status = (m.bfcFrames j).status := by
  have hlink : ((linkBlock m prev cur page).bfcFrames j).status = (m.bfcFrames j).status := by
    simp only [linkBlock, status_setPrev, status_setNext, status_modify]
    split_ifs with h
    · rw [h]
    · rfl
  have hprev : ((mergePrev (linkBlock m prev cur page) prev page).2.bfcFrames j).status =
      (m.bfcFrames j).status := by
    unfold mergePrev
    split
    · exact hlink
    · split_ifs
      · rw [mergeInto_status, hlink]
      · exact hlink
  unfold insertBlock mergeNext
  dsimp only
  split
  · exact hprev
  · split_ifs
    · rw [mergeInto_status, hprev]
    · exact hprev

lemma bfcFreePage_status {p : Option ℕ} {r : Option ℕ} {j : ℕ}
    (h : bfcFreePage m p n = some (r, m')) (hj : (m'.bfcFrames j).status = .slab) :
    (m.bfcFrames j).status = .slab := by
  unfold bfcFreePage at h
  split at h
  · obtain ⟨-, rfl⟩ := Prod.mk.inj (some.inj h)
    exact hj
  · split_ifs at h
    · obtain ⟨-, rfl⟩ := Prod.mk.inj (some.inj h)
      exact hj
    · dsimp only at h
      split at h
      · cases h
      · have hm' := congrArg Prod.snd (some.inj h)
        dsimp only at hm'
        rw [← hm', insertBlock_status, status_markFree] at hj
        split_ifs at hj
        exact hj

@[simp] lemma insertBlock_total (m : Mem) (prev cur : Option ℕ) (page : ℕ) :
    (insertBlock m prev cur page).2.totalPageFrames = m.totalPageFrames := by
  have hmerge : ∀ (m : Mem) (a b : ℕ), (mergeInto m a b).totalPageFrames = m.totalPageFrames := by
    simp [mergeInto]
  have hprev : (mergePrev (linkBlock m prev cur page) prev page).2.totalPageFrames =
      m.totalPageFrames := by
    unfold mergePrev linkBlock
    split
    · simp
    · split_ifs <;> simp [hmerge]
  unfold insertBlock mergeNext
  dsimp only
  split
  · exact hprev
  · split_ifs
    · rw [hmerge, hprev]
    · exact hprev

/-- Freeing a block that lies between the free blocks `L` and `M` inserts it there. -/
lemma bfcFreePage_spec (h : FreeListIs m (L ++ M)) (hb : 0 < b.len)
    (hbound : b.start + b.len ≤ m.totalPageFrames)
    (hL : ∀ a ∈ L, a.start + a.len ≤ b.start) (hM : ∀ c ∈ M, b.start + b.len ≤ c.start) :
    ∃ r m', bfcFreePage m (some b.start) b.len = some (r, m') ∧
      FreeListIs m' (give L b M) ∧ m'.totalPageFrames = m.totalPageFrames ∧
      ∀ j, j ∉ starts (L ++ ([b] ++ M)) → m'.bfcFrames j = m.bfcFrames j := by
  have hnot : b.start ∉ starts (L ++ M) := fun hi => by
    obtain ⟨a, ha, has⟩ := mem_starts.1 hi
    have hpos := h.coalesced.1 a ha
    rcases mem_append.1 ha with ha | ha
    · have := hL a ha
      omega
    · have := hM a ha
      omega
  have hrep : Rep (m.markFree b.start b.len) (L ++ M) := by
    refine ⟨h.links.congr (by simp) (by simp), h.head, fun a ha => ?_⟩
    have hne : a.start ≠ b.start := fun has => hnot (mem_starts.2 ⟨a, ha, has⟩)
    simp [hne, h.len a ha]
  have hskip : ∀ x ∈ starts L, decide (b.start ≤ x) = false := fun x hx => by
    obtain ⟨a, ha, rfl⟩ := mem_starts.1 hx
    have hpos := h.coalesced.1 a (by simp [ha])
    have := hL a ha
    simpa using by omega
  have hstop : ∀ y, fst (starts M) none = some y → decide (b.start ≤ y) = true := fun y hy => by
    obtain ⟨c, hc, rfl⟩ := mem_starts.1 (mem_of_fst hy)
    have := hM c hc
    simpa using by omega
  have hlinks := hrep.links
  have hfuel := h.length_le
  rw [starts_append] at hlinks hfuel
  have hw := walk_eq (fun cur => decide (b.start ≤ cur)) _ _ hlinks hskip hstop hfuel
  rw [← starts_append, ← hrep.head] at hw
  obtain ⟨hrep', hframe⟩ := insertBlock_spec hrep (nodup_starts h.coalesced) hnot (by simp)
  have htotal := insertBlock_total (m.markFree b.start b.len) (lst (starts L) none)
    (fst (starts M) none) b.start
  obtain ⟨r, m', hins⟩ : ∃ r m', insertBlock (m.markFree b.start b.len) (lst (starts L) none)
      (fst (starts M) none) b.start = (r, m') := ⟨_, _, rfl⟩
  have hcall : bfcFreePage m (some b.start) b.len = some (r, m') := by
    simp only [bfcFreePage, if_neg hb.ne', totalPageFrames_markFree, hw, hins]
  rw [hins] at hrep' htotal hframe
  have hbd : ∀ c ∈ give L b M, c.start + c.len ≤ m.totalPageFrames := by
    refine forall_give (fun a c ha hc hac => ?_) (fun a ha => h.bounded a (by simp [ha]))
      (fun c hc => h.bounded c (by simp [hc])) hbound
    dsimp only
    omega
  refine ⟨r, m', hcall, ⟨hrep', coalesced_give h.coalesced hb hL hM,
    fun c hc => (hbd c hc).trans_eq htotal.symm⟩, htotal, fun j hj => ?_⟩
  rw [hframe j hj, bfcFrames_markFree]
  rintro rfl
  exact hj (by simp)

end XosKernel.Bfc
