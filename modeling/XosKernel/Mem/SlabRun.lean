/-
# Runs of the slab allocator

The locked sections of the allocator, one after the other in any order and on any CPU.  The
invariant ties the slab pages to the page allocator: slab pages, large allocations and the
pages of other users are disjoint held blocks, so none of them ever becomes free or changes
its descriptor behind its holder's back.
-/
import XosKernel.Mem.SlabInv

namespace XosKernel.Slab

open Bytes FreeList List Option FreeCall
open Bfc (Mem PageStatus HeldPage Handed)

variable {K : Caches} {k k' : Slabs} {c i x total : ℕ} {held : List ℕ} {B : List Block}

/-! ## Locked sections -/

def slabBlocks (k : Slabs) : List Block := k.slabPages.map fun i => ⟨i, 1⟩

/-- The invariant of the allocator's data, where `B` are the held blocks that are not slab
pages. -/
structure DataInv (K : Caches) (total : ℕ) (k : Slabs) (B : List Block) (held : List ℕ) :
    Prop where
  pages : ∃ L, Bfc.Inv total ⟨k.mem, slabBlocks k ++ B⟩ L
  slabs : SlabsInv K k held
  only : ∀ j, (k.mem.bfcFrames j).status = .slab → j ∈ k.slabPages

/-- What every locked section preserves: slab pages stay slab pages of their cache, and the
descriptors of the blocks `B` do not change. -/
structure Grows (B : List Block) (k k' : Slabs) : Prop where
  owned : ∀ c i, Owned k c i → Owned k' c i
  frame : ∀ j, HeldPage B j → k'.mem.bfcFrames j = k.mem.bfcFrames j

lemma Grows.trans {k1 k2 k3 : Slabs} (h : Grows B k1 k2) (h' : Grows B k2 k3) :
    Grows B k1 k3 :=
  ⟨fun c i hi => h'.owned c i (h.owned c i hi), fun j hj => (h'.frame j hj).trans (h.frame j hj)⟩

lemma Grows.of_eq (hmem : k'.mem = k.mem) (hpages : k'.slabPages = k.slabPages)
    (hcache : ∀ i, (k'.slab i).cache = (k.slab i).cache) : Grows B k k' := by
  refine ⟨fun c i hi => ?_, fun j _ => by rw [hmem]⟩
  unfold Owned at *
  rw [hpages, hcache]
  exact hi

variable {held' : List ℕ} {n : ℕ} {m : Mem} {L : List Block} {b : Block} {bytes : ℕ → ℕ}

section

variable (h : DataInv K total k B held)
include h

lemma DataInv.of_eq (hmem : k'.mem = k.mem)
    (hpages : k'.slabPages = k.slabPages) (hs : SlabsInv K k' held') :
    DataInv K total k' B held' := by
  refine ⟨?_, hs, ?_⟩
  · rw [slabBlocks, hmem, hpages]
    exact h.pages
  · rw [hmem, hpages]
    exact h.only

lemma DataInv.takeObj (hi : i ∈ k.slabPages)
    (hne : (k.slab i).freelist ≠ 0) :
    DataInv K total (takeObj k i).2 B ((takeObj k i).1 :: held) ∧ Grows B k (takeObj k i).2 := by
  have hs := (takeObj_spec h.slabs hi hne).2
  rw [takeObj_snd] at hs ⊢
  exact ⟨h.of_eq rfl rfl hs, Grows.of_eq rfl rfl (cache_modify fun _ => rfl)⟩

omit h in
lemma slabPage_held (h : i ∈ k.slabPages) : HeldPage (slabBlocks k ++ B) i := by
  refine ⟨⟨i, 1⟩, by simp [slabBlocks, h], le_rfl, ?_⟩
  exact Nat.lt_succ_self i

omit h in
lemma held_of_right {j : ℕ} (h : HeldPage B j) : HeldPage (slabBlocks k ++ B) j := by
  obtain ⟨b, hb, hj⟩ := h
  exact ⟨b, by simp [hb], hj⟩

lemma DataInv.handed {p : ℕ}
    (hh : Handed total ⟨k.mem, slabBlocks k ++ B⟩ n p m L) :
    DataInv K total { k with mem := m } (⟨p, n⟩ :: B) held ∧ Grows B k { k with mem := m } := by
  refine ⟨⟨⟨L, hh.inv.perm ?_⟩, h.slabs.of_mem fun j hj => ?_,
    fun j hj => h.only j (hh.noSlab j hj)⟩, ⟨fun _ _ hj => hj,
    fun j hj => hh.frame j (held_of_right hj)⟩⟩
  · exact perm_middle.symm
  · rw [hh.frame j (slabPage_held hj)]

omit h in
lemma perm_erase {α : Type*} [DecidableEq α] {l l' : List α} {a : α} (h : l.Perm (a :: l')) :
    (l.erase a).Perm l' :=
  (cons_perm_iff_perm_erase.1 h.symm).2.symm

lemma DataInv.freeBlock (hb : b ∈ B) :
    ∃ r m, Bfc.bfcFreePage k.mem (some b.start) b.len = some (r, m) ∧
      DataInv K total { k with mem := m } (B.erase b) held ∧
      Grows (B.erase b) k { k with mem := m } := by
  obtain ⟨L, hL⟩ := h.pages
  obtain ⟨r, m, L', hcall, hinv, hframe⟩ :=
    hL.free (show b ∈ slabBlocks k ++ B by simp [hb])
  -- no slab page is the freed block, so the erased list keeps them all
  have hperm : ((slabBlocks k ++ B).erase b).Perm (slabBlocks k ++ B.erase b) :=
    perm_erase (((perm_cons_erase hb).append_left _).trans perm_middle)
  have hheld : ∀ j, HeldPage (slabBlocks k ++ B.erase b) j →
      HeldPage ((slabBlocks k ++ B).erase b) j := fun j ⟨a, ha, hj⟩ =>
    ⟨a, hperm.mem_iff.2 ha, hj⟩
  refine ⟨r, m, hcall, ⟨⟨L', hinv.perm hperm⟩, h.slabs.of_mem fun j hj => ?_,
    fun j hj => h.only j (Bfc.bfcFreePage_status hcall hj)⟩,
    ⟨fun _ _ hj => hj, fun j hj => hframe j (hheld j (held_of_right hj))⟩⟩
  rw [hframe j (hheld j (slabPage_held hj))]

omit h in
lemma slabPageInit_mem (k : Slabs) (i c : ℕ) (cpuId : ℤ) :
    (slabPageInit K k i c cpuId).mem = k.mem.modify i fun pg => { pg with status := .slab } := rfl

lemma DataInv.newPage
    (hh : Handed total ⟨k.mem, slabBlocks k ++ B⟩ 1 i m L) (cpuId : ℤ) :
    DataInv K total (slabPageInit K { k with mem := m } i c cpuId) B held ∧
      Grows B k (slabPageInit K { k with mem := m } i c cpuId) ∧
      Owned (slabPageInit K { k with mem := m } i c cpuId) c i ∧
      ((slabPageInit K { k with mem := m } i c cpuId).slab i).freelist ≠ 0 := by
  have hs : SlabsInv K { k with mem := m } held :=
    h.slabs.of_mem fun j hj => by rw [hh.frame j (slabPage_held hj)]
  have hlive := (pairwise_cons.1 hh.inv.liveApart).1
  have hne : ∀ j, HeldPage (slabBlocks k ++ B) j → j ≠ i := fun j ⟨a, ha, hj⟩ hji => by
    have := hlive a ha
    unfold Block.Apart at this
    dsimp only at this
    omega
  have hfresh : i ∉ k.slabPages := fun hi => hne i (slabPage_held hi) rfl
  have hi24 : i < 2 ^ 24 := by
    have h1 := (hh.inv.inside ⟨i, 1⟩ (by simp)).2
    have h2 := hh.inv.frames
    dsimp only at h1 h2
    omega
  obtain ⟨hinit, hfree⟩ := slabPageInit_spec (c := c) hs hfresh hi24 cpuId
  refine ⟨⟨⟨L, ?_⟩, hinit, fun j hj => ?_⟩, ⟨fun d j hj => ?_, fun j hj => ?_⟩, ⟨?_, ?_⟩, hfree⟩
  · -- the descriptor of the new page is written by its holder
    have hw := hh.inv.write (b := ⟨i, 1⟩) (i := i) (by simp) ⟨le_rfl, Nat.lt_succ_self i⟩
      { m.bfcFrames i with status := .slab }
    have hmem : (slabPageInit K { k with mem := m } i c cpuId).mem =
        m.modify i fun _ => { m.bfcFrames i with status := .slab } := by
      simp only [slabPageInit_mem, Mem.modify]
      congr
      funext j
      split_ifs with hj
      · rw [hj]
      · rfl
    rw [hmem]
    exact hw
  · rw [slabPageInit_mem, Mem.status_modify] at hj
    split_ifs at hj with hji
    · exact hji ▸ mem_cons_self
    · exact mem_cons_of_mem _ (h.only j (hh.noSlab j hj))
  · refine ⟨mem_cons_of_mem _ hj.1, ?_⟩
    have hji : j ≠ i := hne j (slabPage_held hj.1)
    simpa [slabPageInit, hji] using hj.2
  · have hji : j ≠ i := hne j (held_of_right hj)
    rw [← hh.frame j (held_of_right hj)]
    rw [slabPageInit_mem]
    exact Mem.bfcFrames_modify _ _ _ _ hji
  · exact mem_cons_self
  · simp [slabPageInit]

lemma DataInv.partialPop (c : ℕ) :
    ∃ r k', partialPop c (partialFuel k) k = some (r, k') ∧ DataInv K total k' B held ∧
      Grows B k k' ∧ ∀ p, r = some p → Owned k' c p ∧ (k'.slab p).freelist ≠ 0 := by
  have hsome : (Slab.partialPop c (partialFuel k) k).isSome :=
    partialPop_isSome h.slabs.links (by unfold partialFuel; have := linkCount_le k; omega)
  obtain ⟨⟨r, k'⟩, hpop⟩ := isSome_iff_exists.1 hsome
  obtain ⟨hsame, hlinks, hpage⟩ := partialPop_spec h.slabs.links hpop
  exact ⟨r, k', hpop, h.of_eq hsame.mem hsame.pages (h.slabs.of_sameCore hsame hlinks),
    Grows.of_eq hsame.mem hsame.pages hsame.cache, hpage⟩

lemma DataInv.allocPage :
    Bfc.bfcAllocPage k.mem 1 = some (none, k.mem) ∨
      ∃ i m L, Bfc.bfcAllocPage k.mem 1 = some (some i, m) ∧
        Handed total ⟨k.mem, slabBlocks k ++ B⟩ 1 i m L := by
  obtain ⟨L, hL⟩ := h.pages
  rcases hL.bfcAllocPage_cases 1 with hno | ⟨p, m, L', hcall, hh⟩
  · exact .inl hno
  · exact .inr ⟨p, m, L', hcall, hh⟩

/-- The locked section of `kmalloc` returns; it keeps the invariant with the object it hands
out counted as held. -/
lemma kmallocLocked_spec (cpu : ℕ) {active : Option ℕ}
    (hactive : ∀ i, active = some i → Owned k c i) :
    ∃ r k', kmallocLocked K k cpu c active = some (r, k') ∧
      DataInv K total k' B (r.toList ++ held) ∧ Grows B k k' := by
  unfold kmallocLocked
  cases hact : active.filter fun p => (k.slab p).freelist ≠ 0 with
  | some p =>
    -- the active slab has a free object
    obtain ⟨hp, hne⟩ := filter_eq_some_iff.1 hact
    have hne' : (k.slab p).freelist ≠ 0 := by simpa using hne
    obtain ⟨hinv, hgrow⟩ := h.takeObj (hactive p hp).1 hne'
    exact ⟨_, _, rfl, hinv, hgrow⟩
  | none =>
    obtain ⟨r, k1, hpop, hinv1, hgrow1, hpage⟩ := h.partialPop c
    simp only [hpop]
    cases r with
    | some p =>
      -- a page of the partial list becomes the active slab
      obtain ⟨hown, hne⟩ := hpage p rfl
      set k2 := (k1.modify p fun pg => { pg with cpuId := cpu }).setActive cpu c p with hk2
      have hcache : ∀ j, (k2.slab j).cache = (k1.slab j).cache :=
        cache_modify (f := fun pg => { pg with cpuId := cpu }) fun _ => rfl
      have hown2 : Owned (k1.modify p fun pg => { pg with cpuId := cpu }) c p :=
        ⟨hown.1, (hcache p).trans hown.2⟩
      have hinv2 : DataInv K total k2 B held :=
        hinv1.of_eq rfl rfl ((hinv1.slabs.setCpuId cpu).setActive hown2 cpu)
      have hne2 : (k2.slab p).freelist ≠ 0 := by
        simpa [hk2, Slabs.setActive, Slabs.modify] using hne
      have hgrow2 : Grows B k1 k2 := Grows.of_eq rfl rfl hcache
      obtain ⟨hinv, hgrow⟩ := hinv2.takeObj hown.1 hne2
      exact ⟨_, _, rfl, hinv, (hgrow1.trans hgrow2).trans hgrow⟩
    | none =>
      rcases hinv1.allocPage with hno | ⟨i, m, L, hcall, hh⟩
      · simp only [hno]
        exact ⟨_, _, rfl, hinv1, hgrow1⟩
      · -- a new page becomes the active slab
        simp only [hcall]
        obtain ⟨hinv2, hgrow2, hown, hne⟩ := hinv1.newPage (c := c) hh cpu
        set k2 := slabPageInit K { k1 with mem := m } i c cpu
        have hinv3 : DataInv K total (k2.setActive cpu c i) B held :=
          hinv2.of_eq rfl rfl (hinv2.slabs.setActive hown cpu)
        obtain ⟨hinv, hgrow⟩ := hinv3.takeObj (i := i) hown.1 hne
        have hactive₃ : Grows B k2 (k2.setActive cpu c i) := Grows.of_eq rfl rfl fun _ => rfl
        exact ⟨_, _, rfl, hinv, ((hgrow1.trans hgrow2).trans hactive₃).trans hgrow⟩

lemma kmemCacheAlloc_spec (c : ℕ) :
    ∃ r k', kmemCacheAlloc K k c = some (r, k') ∧
      DataInv K total k' B (r.toList ++ held) ∧ Grows B k k' := by
  unfold kmemCacheAlloc
  obtain ⟨r, k1, hpop, hinv1, hgrow1, hpage⟩ := h.partialPop c
  simp only [hpop]
  cases r with
  | some p =>
    obtain ⟨hown, hne⟩ := hpage p rfl
    obtain ⟨hinv, hgrow⟩ := hinv1.takeObj hown.1 hne
    exact ⟨_, _, rfl, hinv, hgrow1.trans hgrow⟩
  | none =>
    rcases hinv1.allocPage with hno | ⟨i, m, L, hcall, hh⟩
    · simp only [hno]
      exact ⟨_, _, rfl, hinv1, hgrow1⟩
    · simp only [hcall]
      obtain ⟨hinv2, hgrow2, hown, hne⟩ := hinv1.newPage (c := c) hh (-1)
      set k2 := slabPageInit K { k1 with mem := m } i c (-1)
      obtain ⟨hinv3, hgrow3⟩ := hinv2.takeObj hown.1 hne
      obtain ⟨hsame, hlinks⟩ := partialAdd_spec hinv3.slabs.links (hgrow3.owned c i hown)
      have hgrow4 : Grows B (Slab.takeObj k2 i).2 (partialAdd (Slab.takeObj k2 i).2 c i) :=
        Grows.of_eq hsame.mem hsame.pages hsame.cache
      exact ⟨_, _, rfl, hinv3.of_eq hsame.mem hsame.pages
        (hinv3.slabs.of_sameCore hsame hlinks), ((hgrow1.trans hgrow2).trans hgrow3).trans hgrow4⟩

lemma DataInv.freeObj (hx : x ∈ held) :
    DataInv K total (freeObj k (k.slab (pageOf x)).cache x) B (held.erase x) ∧
      Grows B k (freeObj k (k.slab (pageOf x)).cache x) := by
  have hs := freeObj_spec h.slabs hx
  have howned : Owned (pushObj k x) (k.slab (pageOf x)).cache (pageOf x) :=
    ⟨(h.slabs.slot x hx).1, pushObj_cache k x _⟩
  have hpush : Grows B k (pushObj k x) := Grows.of_eq rfl rfl (pushObj_cache k x)
  rw [freeObj_eq] at hs ⊢
  split_ifs at hs ⊢
  · obtain ⟨hsame, -⟩ := partialAdd_spec (pushObj_spec h.slabs hx).links howned
    exact ⟨h.of_eq hsame.mem hsame.pages hs,
      hpush.trans (Grows.of_eq hsame.mem hsame.pages hsame.cache)⟩
  · exact ⟨h.of_eq rfl rfl hs, hpush⟩

/-! ## The system -/

omit h in
lemma SlabsInv.perm (h : SlabsInv K k held) (hp : held.Perm held') :
    SlabsInv K k held' := by
  refine ⟨hp.nodup_iff.1 h.nodup, fun x hx => h.slot x (hp.mem_iff.2 hx), fun i hi => ?_, h.links⟩
  exact ⟨(h.page i hi).1, (h.page i hi).2.frame rfl rfl (fun _ _ _ => rfl)
    (hp.filter _).length_eq.symm fun _ _ => hp.mem_iff.2⟩

lemma DataInv.perm {B' : List Block}
    (hB : B.Perm B') (hp : held.Perm held') : DataInv K total k B' held' := by
  obtain ⟨⟨L, hL⟩, hs, honly⟩ := h
  exact ⟨⟨L, hL.perm (hB.append_left _)⟩, hs.perm hp, honly⟩

lemma DataInv.store
    (hread : ∀ i ∈ k.slabPages, ∀ x, IsSlot K (k.slab i).cache i x → x ∉ held →
      readLE bytes 8 x = readLE k.bytes 8 x) :
    DataInv K total { k with bytes := bytes } B held := by
  refine h.of_eq rfl rfl ⟨h.slabs.nodup, h.slabs.slot, fun i hi => ?_, ?_⟩
  · obtain ⟨hi24, hpage⟩ := h.slabs.page i hi
    exact ⟨hi24, hpage.congr rfl rfl fun x hx hxh => hread i hi x hx hxh⟩
  · exact { h.slabs.links with }

end

/-- The header that `kfree` reads to find out the size of a large allocation. -/
def Header (m : Mem) (b : Block) : Prop :=
  (m.bfcFrames b.start).status = .used ∧ m.cont b.start = b.len

structure Inv (K : Caches) (total : ℕ) (s : State) : Prop where
  data : DataInv K total s.k s.heldBlocks s.held
  headers : ∀ b ∈ s.blocks ++ s.frees.filterMap FreeCall.block?, Header s.k.mem b
  mallocs : ∀ cpu c i, (cpu, c, some i) ∈ s.mallocs → Owned s.k c i
  frees : ∀ c x, .slab c x ∈ s.frees → (s.k.slab (pageOf x)).cache = c

variable {s s' : State}

lemma mem_held_of_frees (h : .slab c x ∈ s.frees) : x ∈ s.held := by
  refine mem_append_right _ (mem_filterMap.2 ⟨_, h, rfl⟩)

lemma mem_heldBlocks (h : b ∈ s.blocks ++ s.frees.filterMap FreeCall.block?) :
    b ∈ s.heldBlocks := mem_append_left _ h

section

variable (h : Inv K total s)
include h

/-- What is left to check after a step on the data: the bookkeeping of the calls in
progress survives because slab pages and the descriptors of held blocks do. -/
lemma Inv.after (hdata : DataInv K total s'.k s'.heldBlocks s'.held)
    (hgrow : Grows B s.k s'.k)
    (hblocks : ∀ b ∈ s'.blocks ++ s'.frees.filterMap FreeCall.block?,
      (b ∈ s.blocks ++ s.frees.filterMap FreeCall.block? ∧ b ∈ B) ∨ Header s'.k.mem b)
    (hmallocs : ∀ e ∈ s'.mallocs, e ∈ s.mallocs)
    (hfrees : ∀ c x, .slab c x ∈ s'.frees → .slab c x ∈ s.frees) : Inv K total s' := by
  refine ⟨hdata, fun b hb => ?_, fun cpu c i hi => ?_, fun c x hx => ?_⟩
  · rcases hblocks b hb with ⟨hold, hB⟩ | hnew
    · obtain ⟨hst, hcont⟩ := h.headers b hold
      obtain ⟨L, hL⟩ := hdata.pages
      have hpos := (hL.inside b (mem_append_right _ (mem_heldBlocks hb))).1
      have hframe := hgrow.frame b.start ⟨b, hB, le_rfl, by omega⟩
      constructor
      · rw [hframe, hst]
      · rw [← hcont, Mem.cont, Mem.cont, hframe]
    · exact hnew
  · exact hgrow.owned c i (h.mallocs cpu c i (hmallocs _ hi))
  · have hx' := hfrees c x hx
    have hslot := (h.data.slabs.slot x (mem_held_of_frees hx')).1
    exact (hgrow.owned c (pageOf x) ⟨hslot, h.frees c x hx'⟩).2

omit h in
lemma perm_of_getElem? {α : Type*} {l : List α} {a : α} (h : l[n]? = some a) :
    l.Perm (a :: l.eraseIdx n) := by
  obtain ⟨hn, rfl⟩ := List.getElem?_eq_some_iff.1 h
  exact (getElem_cons_eraseIdx_perm hn).symm

lemma Inv.kmallocBegin (cpu c : ℕ) :
    Inv K total { s with mallocs := (cpu, c, s.k.activeSlab cpu c) :: s.mallocs } := by
  refine ⟨h.data, h.headers, fun cpu' d i hi => ?_, h.frees⟩
  rcases mem_cons.1 hi with heq | hi
  · simp only [Prod.mk.injEq] at heq
    obtain ⟨rfl, rfl, hact⟩ := heq
    exact h.data.slabs.links.active _ _ i hact.symm
  · exact h.mallocs cpu' d i hi

lemma Inv.took {r : Option ℕ} {mallocs : List (ℕ × ℕ × Option ℕ)}
    (hdata : DataInv K total k' s.heldBlocks (r.toList ++ s.held))
    (hgrow : Grows s.heldBlocks s.k k') (hmallocs : ∀ e ∈ mallocs, e ∈ s.mallocs) :
    Inv K total { s with k := k', objs := r.toList ++ s.objs, mallocs := mallocs } := by
  refine h.after ?_ hgrow (fun b hb => .inl ⟨hb, mem_heldBlocks hb⟩) hmallocs fun c x hx => hx
  simp only [State.held, ← append_assoc] at hdata
  exact hdata

lemma Inv.kmallocLocked (hn : n < s.mallocs.length) :
    ∃ s', step K s (.kmallocLocked n) = some s' ∧ Inv K total s' := by
  obtain ⟨⟨cpu, c, active⟩, hget⟩ : ∃ e, s.mallocs[n]? = some e :=
    ⟨_, List.getElem?_eq_getElem hn⟩
  have hactive : ∀ i, active = some i → Owned s.k c i := by
    rintro i rfl
    exact h.mallocs cpu c i (mem_of_getElem? hget)
  obtain ⟨r, k', hcall, hdata, hgrow⟩ := kmallocLocked_spec h.data cpu hactive
  refine ⟨{ s with k := k', objs := r.toList ++ s.objs, mallocs := s.mallocs.eraseIdx n },
    by simp only [step, hget, hcall, map_some], ?_⟩
  exact h.took hdata hgrow fun e he => mem_of_mem_eraseIdx he

lemma Inv.kmemCacheAlloc (c : ℕ) :
    ∃ s', step K s (.kmemCacheAlloc c) = some s' ∧ Inv K total s' := by
  obtain ⟨r, k', hcall, hdata, hgrow⟩ := kmemCacheAlloc_spec h.data c
  refine ⟨{ s with k := k', objs := r.toList ++ s.objs }, by simp only [step, hcall, map_some], ?_⟩
  exact h.took hdata hgrow fun e he => he

lemma Inv.kmallocLarge {size : ℕ} (hsize : 2048 < size) :
    ∃ s', step K s (.kmallocLarge size) = some s' ∧ Inv K total s' := by
  obtain ⟨L, hL⟩ := h.data.pages
  set n := u64 (size + (pageSize - 1)) / pageSize with hn
  rcases hL.bfcAllocPage_cases n with hno | ⟨p, m, L', hcall, hh⟩
  · refine ⟨s, ?_, h⟩
    simp only [step, if_pos hsize, ← hn, hno]
    rfl
  · refine ⟨{ s with k := { s.k with mem := m }, blocks := ⟨p, n⟩ :: s.blocks }, ?_, ?_⟩
    · dsimp only at hcall
      simp only [step, if_pos hsize, ← hn, hcall]
      rfl
    · obtain ⟨hdata, hgrow⟩ := h.data.handed hh
      refine h.after hdata hgrow (fun b hb => ?_) (fun e he => he) fun c x hx => hx
      rcases mem_cons.1 hb with rfl | hb
      · exact .inr ⟨hh.status, hh.cont⟩
      · exact .inl ⟨hb, mem_heldBlocks hb⟩

lemma Inv.allocPages {p : ℕ}
    (hh : Handed total ⟨s.k.mem, slabBlocks s.k ++ s.heldBlocks⟩ n p m L) :
    Inv K total { s with k := { s.k with mem := m }, other := ⟨p, n⟩ :: s.other } := by
  obtain ⟨hdata, hgrow⟩ := h.data.handed hh
  refine h.after ?_ hgrow (fun b hb => .inl ⟨hb, mem_heldBlocks hb⟩) (fun e he => he)
    fun c x hx => hx
  exact hdata.perm perm_middle.symm (List.Perm.refl _)

lemma Inv.freePages (hb : b ∈ s.other) :
    ∃ s', step K s (.freePages b) = some s' ∧ Inv K total s' := by
  obtain ⟨r, m, hcall, hdata, hgrow⟩ :=
    h.data.freeBlock (show b ∈ s.heldBlocks from mem_append_right _ hb)
  have hperm : (s.heldBlocks.erase b).Perm
      (s.blocks ++ s.frees.filterMap block? ++ s.other.erase b) :=
    perm_erase (((perm_cons_erase hb).append_left _).trans perm_middle)
  refine ⟨{ s with k := { s.k with mem := m }, other := s.other.erase b }, ?_, ?_⟩
  · simp only [step, if_pos hb, hcall, map_some]
  · refine h.after (hdata.perm hperm (List.Perm.refl _)) hgrow (fun a ha => .inl ⟨ha, ?_⟩)
      (fun e he => he) fun c x hx => hx
    exact hperm.mem_iff.2 (mem_append_left _ ha)

lemma Inv.beginFree (hx : x ∈ s.objs)
    (hc : (s.k.slab (pageOf x)).cache = c) :
    Inv K total { s with objs := s.objs.erase x, frees := .slab c x :: s.frees } := by
  have hperm : s.held.Perm (s.objs.erase x ++ x :: s.frees.filterMap obj?) :=
    ((perm_cons_erase hx).append_right _).trans perm_middle.symm
  refine ⟨h.data.perm (List.Perm.refl _) hperm, h.headers, h.mallocs, fun d y hy => ?_⟩
  rcases mem_cons.1 hy with heq | hy
  · obtain ⟨rfl, rfl⟩ := slab.inj heq
    exact hc
  · exact h.frees d y hy

lemma Inv.status_slab (hx : x ∈ s.held) : (s.k.mem.bfcFrames (pageOf x)).status = .slab :=
  (h.data.slabs.page _ (h.data.slabs.slot x hx).1).2.status

lemma Inv.kfreeObj (hx : x ∈ s.objs) : ∃ s', step K s (.kfreeObj x) = some s' ∧ Inv K total s' := by
  have hst := h.status_slab (x := x) (mem_append_left _ hx)
  refine ⟨_, ?_, h.beginFree hx rfl⟩
  simp only [step, if_pos hx, lookup, hst]
  rfl

lemma Inv.kmemCacheFree (hx : x ∈ s.objs)
    (hc : (s.k.slab (pageOf x)).cache = c) :
    ∃ s', step K s (.kmemCacheFree c x) = some s' ∧ Inv K total s' := by
  have hst := h.status_slab (x := x) (mem_append_left _ hx)
  refine ⟨_, ?_, h.beginFree hx hc⟩
  simp only [step, if_pos (And.intro hx hc), if_pos hst]

lemma Inv.kfreeBlock (hb : b ∈ s.blocks) :
    ∃ s', step K s (.kfreeBlock b) = some s' ∧ Inv K total s' := by
  obtain ⟨hst, hcont⟩ := h.headers b (mem_append_left _ hb)
  have hpage : pageOf (pageData b.start) = b.start :=
    pageOf_eq le_rfl (by simp [pageSize])
  have hlook : lookup s.k (pageData b.start) = some (.large b) := by
    have hblock : (⟨b.start, (s.k.mem.bfcFrames b.start).contPageNum⟩ : Block) = b := by
      rw [Mem.contPageNum_eq, hcont]
    simp only [lookup, hpage, hst, hblock]
  have hperm : (s.blocks ++ s.frees.filterMap block?).Perm
      (s.blocks.erase b ++ b :: s.frees.filterMap block?) :=
    ((perm_cons_erase hb).append_right _).trans perm_middle.symm
  refine ⟨{ s with blocks := s.blocks.erase b, frees := .large b :: s.frees }, ?_, ?_⟩
  · simp only [step, if_pos hb, hlook]
    rfl
  · refine ⟨h.data.perm (hperm.append_right _) (List.Perm.refl _), fun a ha => ?_, h.mallocs,
      fun d y hy => ?_⟩
    · exact h.headers a (hperm.mem_iff.2 ha)
    · exact h.frees d y ((mem_cons.1 hy).resolve_left (by rintro ⟨⟩))

lemma Inv.freeLocked (hn : n < s.frees.length) :
    ∃ s', step K s (.freeLocked n) = some s' ∧ Inv K total s' := by
  obtain ⟨e, hget⟩ : ∃ e, s.frees[n]? = some e := ⟨_, List.getElem?_eq_getElem hn⟩
  have hperm := perm_of_getElem? hget
  have hmem : e ∈ s.frees := mem_of_getElem? hget
  have hsub : ∀ a ∈ s.frees.eraseIdx n, a ∈ s.frees := fun a ha =>
    mem_of_mem_eraseIdx ha
  have hblocks : (s.frees.filterMap block?).Perm
      ((e :: s.frees.eraseIdx n).filterMap block?) := hperm.filterMap _
  have hobjs : (s.frees.filterMap obj?).Perm
      ((e :: s.frees.eraseIdx n).filterMap obj?) := hperm.filterMap _
  cases e with
  | slab c x =>
    obtain ⟨hdata, hgrow⟩ := h.data.freeObj (mem_held_of_frees hmem)
    rw [h.frees c x hmem] at hdata hgrow
    have hheld : (s.held.erase x).Perm (s.objs ++ (s.frees.eraseIdx n).filterMap obj?) :=
      perm_erase ((hobjs.append_left _).trans perm_middle)
    refine ⟨{ s with k := freeObj s.k c x, frees := s.frees.eraseIdx n },
      by simp only [step, hget], h.after (hdata.perm ?_ hheld) hgrow (fun b hb => ?_)
        (fun a ha => ha) fun d y hy => hsub _ hy⟩
    · exact (hblocks.append_left _).append_right _
    · have hb' : b ∈ s.blocks ++ s.frees.filterMap block? :=
        (hblocks.append_left _).mem_iff.2 hb
      exact .inl ⟨hb', mem_heldBlocks hb'⟩
  | large b =>
    have hb : b ∈ s.heldBlocks := mem_heldBlocks
      (mem_append_right _ (mem_filterMap.2 ⟨_, hmem, rfl⟩))
    obtain ⟨r, m, hcall, hdata, hgrow⟩ := h.data.freeBlock hb
    have hrest : (s.heldBlocks.erase b).Perm
        (s.blocks ++ (s.frees.eraseIdx n).filterMap block? ++ s.other) :=
      perm_erase (((hblocks.append_left _).trans perm_middle).append_right _)
    refine ⟨{ s with k := { s.k with mem := m }, frees := s.frees.eraseIdx n }, ?_, ?_⟩
    · simp only [step, hget, hcall, map_some]
    · refine h.after (hdata.perm hrest (hobjs.append_left _)) hgrow (fun a ha => .inl ⟨?_, ?_⟩)
        (fun a ha => ha) fun d y hy => hsub _ hy
      · rcases mem_append.1 ha with ha | ha
        · exact mem_append_left _ ha
        · exact mem_append_right _ (hblocks.mem_iff.2 (mem_cons_of_mem _ ha))
      · exact hrest.mem_iff.2 (mem_append_left _ ha)

omit h in
lemma readLE_fill {f : ℕ → ℕ} {a y : ℕ} (h : y + 8 ≤ a ∨ a + n ≤ y) :
    readLE (fill bytes a n f) 8 y = readLE bytes 8 y := by
  refine readLE_congr fun z h1 h2 => if_neg ?_
  omega

lemma Inv.withBytes
    (hread : ∀ i ∈ s.k.slabPages, ∀ y, IsSlot K (s.k.slab i).cache i y → y ∉ s.held →
      readLE bytes 8 y = readLE s.k.bytes 8 y) :
    Inv K total { s with k := { s.k with bytes := bytes } } :=
  ⟨h.data.store hread, h.headers, h.mallocs, h.frees⟩

lemma Inv.store (hx : x ∈ s.held) (f : ℕ → ℕ) :
    Inv K total { s with k := { s.k with
      bytes := fill s.k.bytes x (K.objSize (s.k.slab (pageOf x)).cache) f } } := by
  refine h.withBytes fun i hi y hy hyh => readLE_fill ?_
  obtain ⟨-, hslot⟩ := h.data.slabs.slot x hx
  obtain ⟨hy1, hy2, hy3⟩ := hy.inside
  obtain ⟨hx1, hx2, hx3⟩ := hslot.inside
  by_cases hp : pageOf x = i
  · -- two different slots of one page
    rw [hp] at hslot ⊢
    have hne : y ≠ x := fun hyx => hyh (hyx ▸ hx)
    have := hy.apart hslot hne
    omega
  · have := pageData_apart hp
    omega

lemma Inv.storeBlock (hb : b ∈ s.heldBlocks) (f : ℕ → ℕ) :
    Inv K total { s with k := { s.k with
      bytes := fill s.k.bytes (pageData b.start) (b.len * pageSize) f } } := by
  refine h.withBytes fun i hi y hy _ => readLE_fill ?_
  obtain ⟨hy1, hy2, hy3⟩ := hy.inside
  obtain ⟨L, hL⟩ := h.data.pages
  have hap : Block.Apart ⟨i, 1⟩ b := (pairwise_append.1 hL.liveApart).2.2 ⟨i, 1⟩
    (mem_map.2 ⟨i, hi, rfl⟩) b hb
  simp only [Block.Apart, pageData, pageSize] at *
  omega

/-! ## Whole runs -/

lemma Inv.request {call : Option (Option ℕ × Mem)}
    (hcall : call = some (none, s.k.mem) ∨ ∃ p m L, call = some (some p, m) ∧
      Handed total ⟨s.k.mem, slabBlocks s.k ++ s.heldBlocks⟩ n p m L)
    (hs : (call.map fun (r, m) => ({ s with
      k := { s.k with mem := m }
      other := (r.map fun p => ⟨p, n⟩).toList ++ s.other } : State)) = some s') :
    Inv K total s' := by
  rcases hcall with rfl | ⟨p, m, L, rfl, hh⟩
  · obtain rfl := some.inj hs
    exact h
  · obtain rfl := some.inj hs
    exact h.allocPages hh

lemma Inv.step {a : Action} (hs : step K s a = some s') :
    Inv K total s' := by
  -- for most actions the step was computed together with its invariant
  have hdet : (∃ t, Slab.step K s a = some t ∧ Inv K total t) → Inv K total s' := by
    rintro ⟨t, ht, hinv⟩
    obtain rfl : t = s' := some.inj (ht.symm.trans hs)
    exact hinv
  obtain ⟨L, hL⟩ := h.data.pages
  cases a with
  | kmallocBegin cpu size =>
    simp only [Slab.step, ite_none_right_eq_some, some.injEq] at hs
    obtain ⟨-, rfl⟩ := hs
    exact h.kmallocBegin cpu _
  | kmallocLocked n =>
    by_cases hn : n < s.mallocs.length
    · exact hdet (h.kmallocLocked hn)
    · have hnone : s.mallocs[n]? = none := List.getElem?_eq_none (not_lt.1 hn)
      simp [Slab.step, hnone] at hs
  | kmallocLarge size =>
    by_cases hsize : 2048 < size
    · exact hdet (h.kmallocLarge hsize)
    · simp [Slab.step, hsize] at hs
  | kmemCacheAlloc c => exact hdet (h.kmemCacheAlloc c)
  | kfreeObj x =>
    by_cases hx : x ∈ s.objs
    · exact hdet (h.kfreeObj hx)
    · simp [Slab.step, hx] at hs
  | kfreeBlock b =>
    by_cases hb : b ∈ s.blocks
    · exact hdet (h.kfreeBlock hb)
    · simp [Slab.step, hb] at hs
  | kmemCacheFree c x =>
    by_cases hx : x ∈ s.objs ∧ (s.k.slab (pageOf x)).cache = c
    · exact hdet (h.kmemCacheFree hx.1 hx.2)
    · simp [Slab.step, hx] at hs
  | freeLocked n =>
    by_cases hn : n < s.frees.length
    · exact hdet (h.freeLocked hn)
    · have hnone : s.frees[n]? = none := List.getElem?_eq_none (not_lt.1 hn)
      simp [Slab.step, hnone] at hs
  | store x f =>
    simp only [Slab.step, ite_none_right_eq_some, some.injEq] at hs
    obtain ⟨hx, rfl⟩ := hs
    exact h.store hx f
  | storeBlock b f =>
    simp only [Slab.step, ite_none_right_eq_some, some.injEq] at hs
    obtain ⟨hb, rfl⟩ := hs
    exact h.storeBlock hb f
  | allocPages n => exact h.request (hL.bfcAllocPage_cases n) hs
  | allocPagesLow n => exact h.request (hL.bfcAllocPageLow_cases n) hs
  | freePages b =>
    by_cases hb : b ∈ s.other
    · exact hdet (h.freePages hb)
    · simp [Slab.step, hb] at hs

end

/-- The state after `init_mem` and `slab_init`; memory and the slab fields of the page
descriptors hold whatever they hold. -/
def boot (bi : Bfc.BootInfo) (slab : ℕ → SlabPage) (bytes : ℕ → ℕ) : State where
  k := ⟨Bfc.initMem bi, slab, fun _ => none, fun _ _ => none, bytes, []⟩
  objs := []
  blocks := []
  other := []
  mallocs := []
  frees := []

lemma boot_inv (K : Caches) (bi : Bfc.BootInfo) (slab : ℕ → SlabPage) (bytes : ℕ → ℕ) :
    Inv K (Bfc.freeBelow bi bi.total) (boot bi slab bytes) := by
  have hstatus : ∀ j, ((Bfc.initMem bi).bfcFrames j).status ≠ .slab := fun j => by
    rw [Bfc.initMem_status]
    unfold Bfc.BootInfo.initialPage
    split_ifs <;> simp
  refine ⟨⟨Bfc.boot_inv bi, ⟨nodup_nil, by simp [boot, State.held], by simp [boot], ?_⟩,
    fun j hj => absurd hj (hstatus j)⟩, by simp [boot], by simp [boot], by simp [boot]⟩
  exact ⟨by simp [boot], by simp [boot], by simp [boot], by simp [boot]⟩

lemma Inv.held_apart (h : Inv K total s) {x y : ℕ} (hx : x ∈ s.held) (hy : y ∈ s.held)
    (hne : x ≠ y) :
    x + K.objSize (s.k.slab (pageOf x)).cache ≤ y ∨
      y + K.objSize (s.k.slab (pageOf y)).cache ≤ x := by
  obtain ⟨-, hxs⟩ := h.data.slabs.slot x hx
  obtain ⟨-, hys⟩ := h.data.slabs.slot y hy
  by_cases hp : pageOf x = pageOf y
  · rw [hp] at hxs ⊢
    exact hxs.apart hys hne
  · have h1 := hxs.inside
    have h2 := hys.inside
    have := pageData_apart hp
    omega

/-- In every state that any interleaving of the locked sections reaches: the free list of a
slab page visits its objects without repetition and together with `inuse` accounts for all
of them; and the objects that allocations returned and whose free has not happened are
pairwise different and do not overlap. A locked section that is due always returns. -/
theorem slab_allocations_disjoint (K : Caches) (bi : Bfc.BootInfo) (slab : ℕ → SlabPage)
    (bytes : ℕ → ℕ) (acts : List Action) (s : State)
    (h : exec (step K) (boot bi slab bytes) acts = some s) :
    (∀ i, (s.k.mem.bfcFrames i).status = .slab →
      ∃ xs, Chain s.k.bytes (s.k.slab i).freelist xs ∧ xs.Nodup ∧
        (s.k.slab i).inuse + xs.length = (s.k.slab i).objCount) ∧
    s.held.Nodup ∧
    (∀ x ∈ s.held, ∀ y ∈ s.held, x ≠ y →
      x + K.objSize (s.k.slab (pageOf x)).cache ≤ y ∨
        y + K.objSize (s.k.slab (pageOf y)).cache ≤ x) ∧
    (∀ n < s.mallocs.length, (step K s (.kmallocLocked n)).isSome) ∧
    (∀ c, (step K s (.kmemCacheAlloc c)).isSome) ∧
    ∀ n < s.frees.length, (step K s (.freeLocked n)).isSome := by
  have hinv : Inv K (Bfc.freeBelow bi bi.total) s :=
    exec_invariant (fun s a s' hs hstep => hs.step hstep) (boot_inv K bi slab bytes) h
  refine ⟨fun i hi => ?_, hinv.data.slabs.nodup, fun x hx y hy hne => hinv.held_apart hx hy hne,
    fun n hn => ?_, fun c => ?_, fun n hn => ?_⟩
  · obtain ⟨-, -, -, -, xs, hch, hnd, -, hlen⟩ := hinv.data.slabs.page i (hinv.data.only i hi)
    exact ⟨xs, hch, hnd, hlen⟩
  · obtain ⟨t, ht, -⟩ := hinv.kmallocLocked hn
    exact isSome_iff_exists.2 ⟨t, ht⟩
  · obtain ⟨t, ht, -⟩ := hinv.kmemCacheAlloc c
    exact isSome_iff_exists.2 ⟨t, ht⟩
  · obtain ⟨t, ht, -⟩ := hinv.freeLocked hn
    exact isSome_iff_exists.2 ⟨t, ht⟩

/-- The size classes, and dedicated caches of objects of half a page. -/
def exampleCaches : Caches where
  objSize c := classSizes.getD c 2048
  classes c hc := by
    interval_cases c <;> rfl
  room c := by
    rw [List.getD_eq_getElem?_getD]
    rcases lt_or_ge c 9 with hc | hc
    · interval_cases c <;> decide
    · rw [List.getElem?_eq_none (by simpa [classSizes] using hc)]
      decide
  two c := by
    rw [List.getD_eq_getElem?_getD]
    rcases lt_or_ge c 9 with hc | hc
    · interval_cases c <;> decide
    · rw [List.getElem?_eq_none (by simpa [classSizes] using hc)]
      decide

theorem slab_allocations_disjoint_two_cpus :
    ∃ s, exec (step exampleCaches) (boot Bfc.tiny (fun _ => ⟨0, 0, 0, 0, 0, none, none⟩) fun _ => 0)
        [.kmallocBegin 0 2000, .kmallocBegin 1 1500, .kmallocLocked 1, .kmallocLocked 0,
          .kmemCacheAlloc 9] = some s ∧ s.held.Nodup := by
  exact exists_some_of (by decide) fun s hs =>
    (slab_allocations_disjoint exampleCaches Bfc.tiny _ _ _ s hs).2.1

end XosKernel.Slab
