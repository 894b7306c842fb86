/-
# The partial lists of the slab allocator

The links of the partial lists can be corrupt, and nothing that a caller is promised depends on them
(`XosKernel.Mem.SlabInv`). Here is what they are meant to be: the list of a cache visits some of the
cache's pages, each once (`Listed`). `partial_add` puts a page in front that is not on the list yet,
and the loop that looks for a page with a free object drops the full pages in front of it. Every
locked section works on one cache; what it leaves alone of the others is `Only`.
-/
import XosKernel.Mem.SlabRun

namespace XosKernel.Slab

open Bytes FreeList DList List Option Prod
open Bfc (Mem Handed)

variable {K : Caches} {k k' : Slabs} {c d i x total : ℕ} {held L M : List ℕ} {B : List Block}

/-! ## The list of a cache -/

structure Listed (k : Slabs) (c : ℕ) (L : List ℕ) : Prop where
  seg : DSeg (fun i => (k.slab i).partialNext) (fun i => (k.slab i).partialPrev) none L none
  head : k.partialHead c = fst L none
  nodup : L.Nodup
  owned : ∀ i ∈ L, Owned k c i

lemma Listed.congr (h : Listed k c L) (hhead : k'.partialHead c = k.partialHead c)
    (hown : ∀ i ∈ L, Owned k' c i) (hnext : ∀ i ∈ L, (k'.slab i).partialNext =
    (k.slab i).partialNext)
    (hprev : ∀ i ∈ L, (k'.slab i).partialPrev = (k.slab i).partialPrev) : Listed k' c L :=
  ⟨h.seg.congr hnext hprev, hhead.trans h.head, h.nodup, hown⟩

lemma modify_slab (k : Slabs) (i j : ℕ) (f : SlabPage → SlabPage) :
    (k.modify i f).slab j = if j = i then f (k.slab j) else k.slab j := rfl

lemma Listed.modify (h : Listed k c L) {f : SlabPage → SlabPage} (hc : ∀ p, (f p).cache = p.cache)
    (hn : ∀ p, (f p).partialNext = p.partialNext) (hp : ∀ p, (f p).partialPrev = p.partialPrev) :
    Listed (k.modify i f) c L := by
  refine h.congr rfl (fun j hj => ⟨(h.owned j hj).1, (cache_modify hc j).trans (h.owned j hj).2⟩)
    (fun j _ => ?_) fun j _ => ?_
  all_goals
    rw [modify_slab]
    split_ifs
  exacts [hn _, rfl, hp _, rfl]

lemma Listed.takeObj (h : Listed k c L) : Listed (takeObj k i).2 c L := by
  rw [takeObj_snd]
  exact h.modify (fun _ => rfl) (fun _ => rfl) fun _ => rfl

lemma Listed.pushObj (h : Listed k c L) : Listed (pushObj k x) c L := by
  have hbytes : Listed { k with bytes := writeLE k.bytes 8 x (k.slab (pageOf x)).freelist } c L :=
    h.congr rfl h.owned (fun _ _ => rfl) fun _ _ => rfl
  exact hbytes.modify (fun _ => rfl) (fun _ => rfl) fun _ => rfl

/-! ## Other caches -/

/-- `k'` differs from `k` in what belongs to the cache `d`. -/
structure Only (d : ℕ) (k k' : Slabs) : Prop where
  head : ∀ c ≠ d, k'.partialHead c = k.partialHead c
  active : ∀ cpu, ∀ c ≠ d, k'.activeSlab cpu c = k.activeSlab cpu c
  owned : ∀ c ≠ d, ∀ i, Owned k' c i ↔ Owned k c i
  slab : ∀ c ≠ d, ∀ i, Owned k c i → k'.slab i = k.slab i

lemma Only.trans {k1 k2 k3 : Slabs} (h : Only d k1 k2) (h' : Only d k2 k3) : Only d k1 k3 where
  head c hc := (h'.head c hc).trans (h.head c hc)
  active cpu c hc := (h'.active cpu c hc).trans (h.active cpu c hc)
  owned c hc i := (h'.owned c hc i).trans (h.owned c hc i)
  slab c hc i hi := (h'.slab c hc i ((h.owned c hc i).2 hi)).trans (h.slab c hc i hi)

lemma Only.of_eq (hslab : k'.slab = k.slab) (hhead : k'.partialHead = k.partialHead)
    (hactive : k'.activeSlab = k.activeSlab) (hpages : k'.slabPages = k.slabPages) : Only d k k' :=
  ⟨fun _ _ => by rw [hhead], fun _ _ _ => by rw [hactive],
    fun _ _ _ => by rw [Owned, Owned, hpages, hslab], fun _ _ _ _ => by rw [hslab]⟩

lemma Only.modify {f : SlabPage → SlabPage} (hi : (k.slab i).cache = d) (hf : ∀ p, (f p).cache =
    p.cache) : Only d k (k.modify i f) where
  head _ _ := rfl
  active _ _ _ := rfl
  owned c _ j := and_congr_right' (by rw [cache_modify hf])
  slab c hc j hj := if_neg fun (hji : j = i) => hc (hj.2.symm.trans (hji ▸ hi))

lemma Only.setPartial (p : Option ℕ) : Only d k (k.setPartial d p) :=
  ⟨fun _ hc => if_neg hc, fun _ _ _ => rfl, fun _ _ _ => Iff.rfl, fun _ _ _ _ => rfl⟩

lemma Only.setActive (cpu i : ℕ) : Only d k (k.setActive cpu d i) :=
  ⟨fun _ _ => rfl, fun _ _ hc => if_neg fun h => hc h.2, fun _ _ _ => Iff.rfl, fun _ _ _ _ => rfl⟩

lemma Listed.other (h : Listed k c L) (ho : Only d k k') (hc : c ≠ d) : Listed k' c L :=
  h.congr (ho.head c hc) (fun i hi => (ho.owned c hc i).2 (h.owned i hi))
    (fun i hi => by rw [ho.slab c hc i (h.owned i hi)])
    fun i hi => by rw [ho.slab c hc i (h.owned i hi)]

lemma only_partialAdd (hi : (k.slab i).cache = d) (hq : ∀ q, k.partialHead d = some q →
    (k.slab q).cache = d) : Only d k (partialAdd k d i) := by
  refine Only.trans ?_ (Only.setPartial _)
  cases hhead : k.partialHead d with
  | none => exact Only.modify hi fun _ => rfl
  | some q =>
    refine Only.trans (Only.modify hi ?_) (Only.modify ?_ ?_)
    on_goal 2 => refine (cache_modify ?_ q).trans (hq q hhead)
    all_goals exact fun _ => rfl

lemma sameCore_partialAdd : SameCore k (partialAdd k c i) := by
  refine SameCore.trans ?_ sameCore_setPartial
  cases k.partialHead c with
  | none => exact sameCore_modify fun _ => rfl
  | some q =>
    refine (sameCore_modify ?_).trans (sameCore_modify ?_)
    all_goals exact fun _ => rfl

lemma only_slabPageInit (hi : i ∉ k.slabPages) (m : Mem) (cpuId : ℤ) :
    Only d k (slabPageInit K { k with mem := m } i d cpuId) := by
  set k' := slabPageInit K { k with mem := m } i d cpuId
  have hslab : ∀ j ≠ i, k'.slab j = k.slab j := fun j hj => if_neg hj
  have hpages : k'.slabPages = i :: k.slabPages := rfl
  refine ⟨fun _ _ => rfl, fun _ _ _ => rfl, fun c hc j => ?_, fun c _ j hj => hslab j fun h =>
    hi (h ▸ hj.1)⟩
  rw [Owned, Owned, hpages]
  rcases eq_or_ne j i with rfl | hj
  · refine iff_of_false (fun h => hc ?_) fun h => hi h.1
    exact h.2.symm.trans (congrArg SlabPage.cache (if_pos rfl))
  · rw [hslab j hj, mem_cons, or_iff_right hj]

/-! ## `partial_add` and `partial_remove` -/

lemma Listed.partialAdd (h : Listed k c L) (hi : i ∉ L) (hown : Owned k c i) :
    Listed (partialAdd k c i) c (i :: L) := by
  cases L with
  | nil =>
    have hhead : k.partialHead c = none := h.head
    refine ⟨⟨?_, ?_, trivial⟩, if_pos rfl, nodup_singleton i, ?_⟩
    all_goals simp [Slab.partialAdd, hhead, Slabs.setPartial, Owned, hown.1, hown.2, Slabs.modify]
  | cons q M =>
    have hhead : k.partialHead c = some q := h.head
    have hq : q ≠ i := fun h => hi (h ▸ mem_cons_self)
    have hslab : ∀ j, (Slab.partialAdd k c i).slab j =
        if j = q then { k.slab j with partialPrev := some i }
        else if j = i then { k.slab j with partialNext := some q, partialPrev := none } else k.slab
          j := by
      intro j
      simp only [Slab.partialAdd, hhead, Slabs.setPartial, modify_slab]
      split_ifs with h1 h2
      · exact absurd (h1.symm.trans h2) hq
      all_goals rfl
    refine ⟨⟨?_, ?_, ?_⟩, if_pos rfl, nodup_cons.2 ⟨hi, h.nodup⟩, fun j hj => ?_⟩
    · simp [hslab, hq.symm]
    · simp [hslab, hq.symm]
    · refine h.seg.redirect_left h.nodup (fun j hj hne => ?_) (fun j hj => ?_) fun j hj => ?_
      · simp [hslab, ne_of_mem_of_not_mem hj hi, show j ≠ q from fun e => hne (e ▸ rfl)]
      · simp [hslab, (some.inj hj).symm]
      · rw [hslab]
        split_ifs with h1 h2
        exacts [rfl, absurd h2 (ne_of_mem_of_not_mem hj hi), rfl]
    · have hj : Owned k c j := by
        rcases mem_cons.1 hj with rfl | hj
        exacts [hown, h.owned j hj]
      refine ⟨?_, ?_⟩
      · simpa [Slab.partialAdd, hhead, Slabs.setPartial, Slabs.modify] using hj.1
      · rw [hslab]
        split_ifs
        exacts [hj.2, hj.2, hj.2]

lemma Listed.partialRemove (h : Listed k c (i :: M)) : Listed (partialRemove k c i) c M := by
  have hprev : (k.slab i).partialPrev = none := h.seg.1
  have hnext : (k.slab i).partialNext = fst M none := h.seg.2.1
  obtain ⟨hiM, hM⟩ := nodup_cons.1 h.nodup
  cases M with
  | nil =>
    refine ⟨trivial, ?_, nodup_nil, by simp⟩
    simp [Slab.partialRemove, hprev, hnext, Slabs.setPartial, Slabs.modify]
  | cons q M =>
    have hq : q ≠ i := fun h => hiM (h ▸ mem_cons_self)
    have heq : Slab.partialRemove k c i =
        ((k.setPartial c (some q)).modify q fun pg => { pg with partialPrev := none }).modify i
          fun pg => { pg with partialNext := none, partialPrev := none } := by
      simp [Slab.partialRemove, hprev, hnext, Slabs.setPartial]
    have hslab : ∀ j ≠ i, (Slab.partialRemove k c i).slab j =
        if j = q then { k.slab j with partialPrev := none } else k.slab j := fun j hj => by
      rw [heq, modify_slab, if_neg hj, modify_slab]
      rfl
    refine ⟨?_, ?_, hM, fun j hj => ?_⟩
    · refine h.seg.2.2.redirect_left hM (fun j hj hne => ?_) (fun j hj => ?_) fun j hj => ?_
      · rw [hslab j (ne_of_mem_of_not_mem hj hiM), if_neg fun (e : j = q) => hne (e ▸ rfl)]
      · obtain rfl : q = j := some.inj hj
        rw [hslab q hq, if_pos rfl]
      · rw [hslab j (ne_of_mem_of_not_mem hj hiM)]
        split_ifs <;> rfl
    · rw [heq]
      exact if_pos rfl
    · have := h.owned j (mem_cons_of_mem _ hj)
      refine ⟨heq ▸ this.1, ?_⟩
      rw [hslab j (ne_of_mem_of_not_mem hj hiM)]
      split_ifs
      exacts [this.2, this.2]

/-- The loop over the list drops full pages from its front and takes the first other page. -/
lemma Listed.partialPop (hk : LinksInv k) (h : Listed k c L) {fuel : ℕ} {r : Option ℕ}
    (hr : partialPop c fuel k = some (r, k')) :
    ∃ full M, L = full ++ (r.toList ++ M) ∧ (∀ i ∈ full, (k.slab i).freelist = 0) ∧
      (r = none → M = []) ∧ Listed k' c M := by
  induction fuel generalizing k L with
  | zero => cases hr
  | succ fuel ih =>
    rw [Slab.partialPop, h.head] at hr
    cases L with
    | nil =>
      obtain ⟨rfl, rfl⟩ := mk.inj (some.inj hr)
      exact ⟨[], [], rfl, by simp, fun _ => rfl, h⟩
    | cons p L =>
      obtain ⟨hsame, hk'⟩ := partialRemove_spec hk (h.owned p mem_cons_self)
      dsimp only [fst_cons] at hr
      split_ifs at hr with hfull
      · obtain ⟨full, M, rfl, hall, hM, hL⟩ := ih hk' h.partialRemove hr
        refine ⟨p :: full, M, rfl, ?_, hM, hL⟩
        exact forall_mem_cons.2 ⟨hfull, fun j hj => (hsame.freelist j).symm.trans (hall j hj)⟩
      · obtain ⟨rfl, rfl⟩ := mk.inj (some.inj hr)
        exact ⟨[], L, rfl, by simp, by simp, h.partialRemove⟩

lemma Listed.linked (h : Listed k c L) (hi : i ∈ L) :
    k.partialHead c = some i ∨ (k.slab i).partialPrev ≠ none := by
  obtain ⟨M, N, rfl⟩ := append_of_mem hi
  rw [h.head]
  have hprev : (k.slab i).partialPrev = lst M none := (dSeg_append.1 h.seg).2.1
  cases M with
  | nil => exact .inl rfl
  | cons q M =>
    rw [hprev]
    exact .inr fun h => nomatch lst_eq_none.1 h

/-! ## Locked sections -/

lemma PageInv.full_iff (h : PageInv K k held i) :
    ((k.slab i).freelist = 0 ↔ (k.slab i).inuse = (k.slab i).objCount) ∧
      (k.slab i).inuse ≤ (k.slab i).objCount := by
  obtain ⟨xs, hchain, -, -, hlen⟩ := h.list
  cases xs with
  | nil => exact ⟨iff_of_true hchain (by simpa using hlen), by omega⟩
  | cons x xs =>
    rw [length_cons] at hlen
    exact ⟨iff_of_false (hchain.1 ▸ hchain.2.1) (by omega), by omega⟩

lemma only_partialRemove (h : LinksInv k) (hi : Owned k d i) : Only d k (partialRemove k d i) := by
  unfold partialRemove
  extract_lets k1 k2
  obtain ⟨h₁, hn, hc⟩ : Only d k k1 ∧ (k1.slab i).partialNext = (k.slab i).partialNext ∧
      ∀ j, (k1.slab j).cache = (k.slab j).cache := by
    dsimp only [k1]
    cases hp : (k.slab i).partialPrev with
    | none => exact ⟨Only.setPartial _, rfl, fun _ => rfl⟩
    | some q =>
      refine ⟨Only.modify ((h.prev i q hi.1 hp).2.trans hi.2) fun _ => rfl, ?_,
        cache_modify fun _ => rfl⟩
      rw [modify_slab]
      split_ifs <;> rfl
  -- the second half works on the successor, which the first half leaves in place
  dsimp only [k2]
  cases hq : (k1.slab i).partialNext with
  | none => exact h₁.trans (Only.modify ((hc i).trans hi.2) fun _ => rfl)
  | some q =>
    refine (h₁.trans (Only.modify ?_ ?_)).trans (Only.modify ?_ ?_)
    · exact (hc q).trans ((h.next i q hi.1 (hn ▸ hq)).2.trans hi.2)
    on_goal 2 => refine (cache_modify ?_ i).trans ((hc i).trans hi.2)
    all_goals exact fun _ => rfl

lemma only_partialPop (h : LinksInv k) {fuel : ℕ} {r : Option ℕ} (hr : partialPop d fuel k =
    some (r, k')) : Only d k k' := by
  fun_induction partialPop d fuel k with
  | case1 => cases hr
  | case2 fuel k hhead =>
    obtain ⟨-, rfl⟩ := mk.inj (some.inj hr)
    exact Only.of_eq rfl rfl rfl rfl
  | case3 fuel k p hhead _ ih =>
    have ho := h.head d p hhead
    exact (only_partialRemove h ho).trans (ih (partialRemove_spec h ho).2 hr)
  | case4 fuel k p hhead =>
    exact (mk.inj (some.inj hr)).2 ▸ only_partialRemove h (h.head d p hhead)

lemma only_takeObj (hi : (k.slab i).cache = d) : Only d k (takeObj k i).2 := by
  rw [takeObj_snd]
  exact Only.modify hi fun _ => rfl

lemma not_mem_slabPages {m : Mem} {L : List Block} (hh : Handed total ⟨k.mem, slabBlocks k ++ B⟩ 1 i
    m L) : i ∉ k.slabPages := by
  intro hi
  have hb : (⟨i, 1⟩ : Block) ∈ slabBlocks k ++ B := mem_append_left _ (mem_map_of_mem hi)
  have := (pairwise_cons.1 hh.inv.liveApart).1 _ hb
  simp [Block.Apart] at this

lemma search_cases (h : DataInv K total k B held) (c : ℕ) :
    ∃ r k1, partialPop c (partialFuel k) k = some (r, k1) ∧
      (Bfc.bfcAllocPage k1.mem 1 = some (none, k1.mem) ∨
        ∃ i m, Bfc.bfcAllocPage k1.mem 1 = some (some i, m) ∧ i ∉ k1.slabPages) := by
  obtain ⟨r, k1, hpop, hinv, -⟩ := h.partialPop c
  refine ⟨r, k1, hpop, ?_⟩
  exact hinv.allocPage.imp_right fun ⟨i, m, _, hcall, hh⟩ => ⟨i, m, hcall, not_mem_slabPages hh⟩

def activate (k : Slabs) (cpu c p : ℕ) : Slabs :=
  (k.modify p fun pg => { pg with cpuId := cpu }).setActive cpu c p

lemma kmallocLocked_cases (h : DataInv K total k B held) {cpu : ℕ} {active r : Option ℕ}
    (hr : kmallocLocked K k cpu c active = some (r, k')) :
    (∃ p, active = some p ∧ (k.slab p).freelist ≠ 0 ∧ k' = (takeObj k p).2) ∨
      (∀ p, active = some p → (k.slab p).freelist = 0) ∧
      ∃ q k1, partialPop c (partialFuel k) k = some (q, k1) ∧
        ((∃ p, q = some p ∧ k' = (takeObj (activate k1 cpu c p) p).2) ∨ q = none ∧ k' = k1 ∨
          q = none ∧ ∃ i m, i ∉ k1.slabPages ∧
            k' = (takeObj ((slabPageInit K { k1 with mem := m } i c cpu).setActive cpu c i)
            i).2) := by
  unfold kmallocLocked at hr
  cases hact : active.filter fun p => (k.slab p).freelist ≠ 0 with
  | some p =>
    rw [hact] at hr
    obtain ⟨hp, hne⟩ := filter_eq_some_iff.1 hact
    exact .inl ⟨p, hp, by simpa using hne, (mk.inj (some.inj hr)).2.symm⟩
  | none =>
    refine .inr ⟨fun p hp => by simpa [hp] using hact, ?_⟩
    obtain ⟨q, k1, hpop, halloc⟩ := search_cases h c
    simp only [hact, hpop] at hr
    refine ⟨q, k1, hpop, ?_⟩
    cases q with
    | some p => exact .inl ⟨p, rfl, (mk.inj (some.inj hr)).2.symm⟩
    | none =>
      refine .inr (halloc.imp (fun hno => ?_) fun ⟨i, m, hcall, hi⟩ => ?_)
      · simp only [hno] at hr
        exact ⟨rfl, (mk.inj (some.inj hr)).2.symm⟩
      · simp only [hcall] at hr
        exact ⟨rfl, i, m, hi, (mk.inj (some.inj hr)).2.symm⟩

lemma kmemCacheAlloc_cases (h : DataInv K total k B held) {r : Option ℕ}
    (hr : kmemCacheAlloc K k c = some (r, k')) :
    ∃ q k1, partialPop c (partialFuel k) k = some (q, k1) ∧
      ((∃ p, q = some p ∧ k' = (takeObj k1 p).2) ∨ q = none ∧ k' = k1 ∨
        q = none ∧ ∃ i m, i ∉ k1.slabPages ∧
          k' = partialAdd (takeObj (slabPageInit K { k1 with mem := m } i c (-1)) i).2 c i) := by
  unfold kmemCacheAlloc at hr
  obtain ⟨q, k1, hpop, halloc⟩ := search_cases h c
  simp only [hpop] at hr
  refine ⟨q, k1, hpop, ?_⟩
  cases q with
  | some p => exact .inl ⟨p, rfl, (mk.inj (some.inj hr)).2.symm⟩
  | none =>
    refine .inr (halloc.imp (fun hno => ?_) fun ⟨i, m, hcall, hi⟩ => ?_)
    · simp only [hno] at hr
      exact ⟨rfl, (mk.inj (some.inj hr)).2.symm⟩
    · simp only [hcall] at hr
      exact ⟨rfl, i, m, hi, (mk.inj (some.inj hr)).2.symm⟩

lemma freeObj_cases (h : SlabsInv K k held) (hx : x ∈ held) (c : ℕ) :
    freeObj k c x =
      if (k.slab (pageOf x)).freelist = 0 then partialAdd (pushObj k x) c (pageOf x) else pushObj k
        x := by
  obtain ⟨-, hpage⟩ := h.page _ (h.slot x hx).1
  have hpos : 0 < (k.slab (pageOf x)).inuse := by
    rw [hpage.used]
    exact length_pos_of_mem (mem_filter.2 ⟨hx, by simp⟩)
  have hcount := (objCount_bounds K (k.slab (pageOf x)).cache).2
  rw [← hpage.count] at hcount
  have hle := hpage.full_iff.2
  have hinuse : ((pushObj k x).slab (pageOf x)).inuse = (k.slab (pageOf x)).inuse - 1 := by
    simp only [pushObj, modify_slab, if_true]
    omega
  have hobj : ((pushObj k x).slab (pageOf x)).objCount = (k.slab (pageOf x)).objCount := by
    simp [pushObj, modify_slab]
  have hfull : (k.slab (pageOf x)).inuse - 1 = (k.slab (pageOf x)).objCount - 1 ↔
      (k.slab (pageOf x)).freelist = 0 := by
    rw [hpage.full_iff.1]
    omega
  simp only [freeObj_eq, hinuse, hobj, hfull]

end XosKernel.Slab
