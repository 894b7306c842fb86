/-
# Finding free objects again

A free object is of use only if an allocation can find it: through the partial list of its cache or,
for `kmalloc`, through the active slab of a CPU.  `kmem_cache_alloc` takes a page off the list for
one object and `kmem_cache_free` puts a page back only when it was full, so the list stays complete
exactly as long as every page that is taken off has one free object left. In the size classes a full
active page can be on the list already when one of its objects is freed, and is then added a second
time.
-/
import XosKernel.Mem.SlabLists

namespace XosKernel.Slab

open Bytes FreeList DList List Option

variable {K : Caches} {k k' : Slabs} {c d i x total : ℕ} {held L M : List ℕ} {B : List Block}
    {s s' : State}
  {a : Action}

/-- The partial list of `c` ends and visits no page twice, and every page of `c` with a free object
is on it or one of `apart`. -/
def Findable (k : Slabs) (c : ℕ) (apart : Set ℕ) : Prop :=
  ∃ L, Path (fun i => (k.slab i).partialNext) (k.partialHead c) L ∧ L.Nodup ∧
    ∀ i, Owned k c i → (k.slab i).freelist ≠ 0 → i ∈ L ∨ i ∈ apart

lemma Listed.findable {apart : Set ℕ} (h : Listed k c L)
    (hall : ∀ i, Owned k c i → (k.slab i).freelist ≠ 0 → i ∈ L ∨ i ∈ apart) : Findable k c apart :=
  ⟨L, h.head ▸ h.seg.path, h.nodup, hall⟩

/-! ## Steps -/

inductive Effect (K : Caches) (s s' : State) : Action → Prop
  | quiet {a : Action} (ha : ∀ c, a ≠ .kmemCacheAlloc c) (hslab : s'.k.slab = s.k.slab)
      (hhead : s'.k.partialHead = s.k.partialHead) (hactive : s'.k.activeSlab = s.k.activeSlab)
      (hpages : s'.k.slabPages = s.k.slabPages) : Effect K s s' a
  | kmalloc {n cpu c : ℕ} {active r : Option ℕ} (hn : s.mallocs[n]? = some (cpu, c, active))
      (hcall : kmallocLocked K s.k cpu c active = some (r, s'.k)) : Effect K s s' (.kmallocLocked n)
  | alloc {c : ℕ} {r : Option ℕ} (hcall : kmemCacheAlloc K s.k c = some (r, s'.k)) :
      Effect K s s' (.kmemCacheAlloc c)
  | free {n c x : ℕ} (hn : s.frees[n]? = some (.slab c x)) (hk : s'.k = freeObj s.k c x) :
      Effect K s s' (.freeLocked n)

lemma sizeToClass_lt (size : ℕ) : sizeToClass size < 9 := by
  unfold sizeToClass
  split_ifs
  all_goals decide

lemma Effect.kept {bytes : ℕ → ℕ} {mem : Bfc.Mem} {objs : List ℕ} {blocks other : List Block}
    {frees : List FreeCall} (ha : ∀ c, a ≠ .kmemCacheAlloc c) :
    Effect K s ⟨{ s.k with bytes := bytes, mem := mem }, objs, blocks, other, s.mallocs, frees⟩ a ∧
      ∀ e ∈ s.mallocs, e ∈ s.mallocs ∨ e.2.1 < 9 :=
  ⟨.quiet ha rfl rfl rfl rfl, fun _ => .inl⟩

/-- Besides, a call of `kmalloc` that begins is for a size class. -/
lemma step_effect (hs : step K s a = some s') :
    Effect K s s' a ∧ ∀ e ∈ s'.mallocs, e ∈ s.mallocs ∨ e.2.1 < 9 := by
  cases a with
  | kmallocBegin cpu size =>
    obtain ⟨-, rfl⟩ := of_guard hs
    exact ⟨.quiet (by simp) rfl rfl rfl rfl, forall_mem_cons.2 ⟨.inr (sizeToClass_lt size), fun _ =>
      .inl⟩⟩
  | kmallocLocked n =>
    simp only [step] at hs
    split at hs
    · cases hs
    · next hn =>
      obtain ⟨⟨r, k'⟩, hcall, rfl⟩ := map_eq_some_iff.1 hs
      exact ⟨.kmalloc hn hcall, fun e he => .inl (mem_of_mem_eraseIdx he)⟩
  | kmemCacheAlloc c =>
    obtain ⟨⟨r, k'⟩, hcall, rfl⟩ := map_eq_some_iff.1 hs
    exact ⟨.alloc hcall, fun _ => .inl⟩
  | freeLocked n =>
    simp only [step] at hs
    split at hs
    · cases hs
    · next hn => exact ⟨.free hn (some.inj hs ▸ rfl), some.inj hs ▸ fun _ => .inl⟩
    · obtain ⟨⟨r, m⟩, -, rfl⟩ := map_eq_some_iff.1 hs
      exact Effect.kept (by simp)
  | kmallocLarge size | freePages b =>
    obtain ⟨-, hs⟩ := ite_none_right_eq_some.1 hs
    obtain ⟨⟨r, m⟩, -, rfl⟩ := map_eq_some_iff.1 hs
    exact Effect.kept (by simp)
  | allocPages n | allocPagesLow n =>
    obtain ⟨⟨r, m⟩, -, rfl⟩ := map_eq_some_iff.1 hs
    exact Effect.kept (by simp)
  | kmemCacheFree c x =>
    obtain ⟨-, hs⟩ := ite_none_right_eq_some.1 hs
    split_ifs at hs
    all_goals exact some.inj hs ▸ Effect.kept (by simp)
  | kfreeObj x | kfreeBlock b | store x f | storeBlock b f =>
    obtain ⟨-, rfl⟩ := of_guard hs
    exact Effect.kept (by simp)

def ClassCalls (s : State) : Prop := ∀ e ∈ s.mallocs, e.2.1 < 9

lemma ClassCalls.step (h : ClassCalls s) (hs : step K s a = some s') : ClassCalls s' :=
  fun e he => ((step_effect hs).2 e he).elim (h e) id

/-! ## Dedicated caches -/

/-- The partial list of `c` is the list of its pages with a free object. -/
def Complete (k : Slabs) (c : ℕ) : Prop :=
  ∃ L, Listed k c L ∧ ∀ i, Owned k c i → ((k.slab i).freelist ≠ 0 ↔ i ∈ L)

lemma Complete.other (h : Complete k c) (ho : Only d k k') (hc : c ≠ d) : Complete k' c := by
  obtain ⟨L, hL, hall⟩ := h
  refine ⟨L, hL.other ho hc, fun i hi => ?_⟩
  have hi := (ho.owned c hc i).1 hi
  rw [ho.slab c hc i hi]
  exact hall i hi

/-- A page that was full has a free object again and goes on the list. -/
lemma Complete.freeObj (h : Complete k c) (hk : SlabsInv K k held) (hx : x ∈ held)
    (hc : (k.slab (pageOf x)).cache = c) : Complete (freeObj k c x) c := by
  obtain ⟨L, hL, hall⟩ := h
  set p := pageOf x with hp
  have hpage : Owned k c p := ⟨(hk.slot x hx).1, hc⟩
  have hown : ∀ i, Owned (pushObj k x) c i ↔ Owned k c i := fun i =>
    and_congr_right' (by rw [pushObj_cache])
  have hfree : ((pushObj k x).slab p).freelist ≠ 0 := by
    have := (hk.slot x hx).2.ptr (hk.page _ hpage.1).1
    simpa [pushObj, modify_slab, hp] using this.1
  have hother : ∀ i ≠ p, ((pushObj k x).slab i).freelist = (k.slab i).freelist := fun i hi => by
    rw [pushObj, modify_slab, if_neg hi]
  rw [freeObj_cases hk hx]
  split_ifs with hfull
  · have hpL : p ∉ L := fun hpL => (hall p hpage).2 hpL hfull
    have hadd := sameCore_partialAdd (k := pushObj k x) (c := c) (i := p)
    refine ⟨p :: L, hL.pushObj.partialAdd hpL ((hown p).2 hpage), fun i hi => ?_⟩
    rw [hadd.freelist, mem_cons]
    rcases eq_or_ne i p with rfl | hip
    · exact iff_of_true hfree (.inl rfl)
    · rw [hother i hip, or_iff_right hip]
      exact hall i ((hown i).1 (hadd.owned.1 hi))
  · refine ⟨L, hL.pushObj, fun i hi => ?_⟩
    rcases eq_or_ne i p with rfl | hip
    · exact iff_of_true hfree ((hall _ hpage).1 hfull)
    · rw [hother i hip]
      exact hall i ((hown i).1 hi)

lemma takeObj_full (h : SlabsInv K k held) (hi : i ∈ k.slabPages) (hne : (k.slab i).freelist ≠ 0) :
    ((takeObj k i).2.slab i).freelist = 0 ↔ (k.slab i).inuse + 1 = (k.slab i).objCount := by
  have hcount := (objCount_bounds K (k.slab i).cache).2
  obtain ⟨hfull, hle⟩ := (h.page i hi).2.full_iff
  rw [← (h.page i hi).2.count] at hcount
  have hinuse : ((takeObj k i).2.slab i).inuse = ((k.slab i).inuse + 1) % 2 ^ 32 := by
    simp [takeObj_snd, modify_slab]
  have hobj : ((takeObj k i).2.slab i).objCount =
    (k.slab i).objCount := by simp [takeObj_snd, modify_slab]
  rw [(((takeObj_spec h hi hne).2.page i hi).2.full_iff).1, hinuse, hobj,
    Nat.mod_eq_of_lt (by omega)]

lemma takeObj_freelist {j : ℕ} (hj : j ≠ i) : ((takeObj k i).2.slab j).freelist =
    (k.slab j).freelist := by
  rw [takeObj_snd, modify_slab, if_neg hj]

lemma owned_takeObj {j : ℕ} : Owned (takeObj k i).2 c j ↔ Owned k c j := by
  have hcache : ((takeObj k i).2.slab j).cache = (k.slab j).cache := by
    rw [takeObj_snd, modify_slab]
    split_ifs <;> rfl
  exact and_congr_right' (by rw [hcache])

lemma Listed.pop (hL : Listed k c L) (hall : ∀ i, Owned k c i → ((k.slab i).freelist ≠ 0 ↔ i ∈ L))
    (hk : LinksInv k) {fuel : ℕ} {q : Option ℕ} (hr : Slab.partialPop c fuel k = some (q, k')) :
    ∃ M, L = q.toList ++ M ∧ (q = none → M = []) ∧ Listed k' c M := by
  obtain ⟨full, M, rfl, hfull, hM, hL'⟩ := hL.partialPop hk hr
  have hnil : full = [] := eq_nil_iff_forall_not_mem.2 fun i hi => by
    have hi' := mem_append_left (q.toList ++ M) hi
    exact (hall i (hL.owned i hi')).2 hi' (hfull i hi)
  exact ⟨M, by rw [hnil, nil_append], hM, hL'⟩

/-- The page that the next allocation from `c` takes off the list has one free object. -/
def LastObject (k : Slabs) (c : ℕ) : Prop :=
  ∀ p, k.partialHead c = some p → (k.slab p).inuse + 1 = (k.slab p).objCount

instance : Decidable (LastObject k c) :=
  decidable_of_iff (∀ p ∈ (k.partialHead c).toList, (k.slab p).inuse + 1 = (k.slab p).objCount)
    (by simp [LastObject])

/-- An allocation keeps the list complete if it takes the last object of the page, and only then. -/
lemma Complete.kmemCacheAlloc (h : Complete k c) (hk : DataInv K total k B held) {r : Option ℕ}
    (hr : kmemCacheAlloc K k c = some (r, k')) :
    (LastObject k c → Complete k' c) ∧ (¬LastObject k c → ¬Findable k' c ∅) ∧
      ∀ i, Owned k' c i → ¬Owned k c i → ∀ j, Owned k c j → (k.slab j).freelist = 0 := by
  obtain ⟨L, hL, hall⟩ := h
  obtain ⟨q, k1, hpop, hcase⟩ := kmemCacheAlloc_cases hk hr
  obtain ⟨hsame, hlinks, hq⟩ := partialPop_spec hk.slabs.links hpop
  obtain ⟨M, rfl, hM, hL1⟩ := hL.pop hall hk.slabs.links hpop
  have hk1 := hk.slabs.of_sameCore hsame hlinks
  have hlast : q = none → LastObject k c := by
    rintro rfl p hp
    rw [hM rfl] at hL
    exact nomatch hL.head.symm.trans hp
  -- with an empty list all pages are full
  have hnone : q = none → ∀ j, Owned k c j → (k.slab j).freelist = 0 := by
    rintro rfl j hj
    by_contra hne
    rw [hM rfl] at hall
    exact nomatch (hall j hj).1 hne
  rcases hcase with ⟨p, rfl, rfl⟩ | ⟨hq', rfl⟩ | ⟨hq', i, m, hi, rfl⟩
  · obtain ⟨hown, hne⟩ := hq p rfl
    have hownT : ∀ i, Owned (takeObj k1 p).2 c i ↔ Owned k c i := fun i =>
      owned_takeObj.trans hsame.owned
    have hfull : ((takeObj k1 p).2.slab p).freelist = 0 ↔ LastObject k c := by
      have hcore := hsame.core p
      simp only [SlabPage.core, Prod.mk.injEq] at hcore
      rw [takeObj_full hk1 hown.1 hne, hcore.2.2.1, hcore.2.2.2, LastObject, hL.head]
      exact ⟨fun h p' hp' => some.inj hp' ▸ h, fun h => h p rfl⟩
    have hpM : p ∉ M := (nodup_cons.1 hL.nodup).1
    refine ⟨fun hC => ⟨M, hL1.takeObj, fun i hi => ?_⟩, fun hC hfind => ?_, fun i hi hn =>
      absurd ((hownT i).1 hi) hn⟩
    · rcases eq_or_ne i p with rfl | hip
      · exact iff_of_false (not_not.2 (hfull.2 hC)) hpM
      · rw [takeObj_freelist hip, hsame.freelist, hall i ((hownT i).1 hi)]
        exact mem_cons.trans (or_iff_right hip)
    · obtain ⟨L', hpath, -, hall'⟩ := hfind
      have hT := hL1.takeObj (i := p)
      rw [hpath.unique (hT.head ▸ hT.seg.path)] at hall'
      have := hall' p ((hownT p).2 (hsame.owned.1 hown)) (hfull.not.2 hC)
      exact this.elim hpM id
  · refine ⟨fun _ => ⟨M, hL1, fun i hi => ?_⟩, fun hC => absurd (hlast hq') hC, fun _ _ _ =>
      hnone hq'⟩
    rw [hsame.freelist, hall i (hsame.owned.1 hi), hq', toList_none, nil_append]
  · refine ⟨fun _ => ?_, fun hC => absurd (hlast hq') hC, fun _ _ _ => hnone hq'⟩
    set k3 := (takeObj (slabPageInit K { k1 with mem := m } i c (-1)) i).2
    have hslab : ∀ j ≠ i, k3.slab j = k1.slab j := fun j hj => by
      simp [k3, takeObj_snd, modify_slab, slabPageInit, hj]
    have hi3 : Owned k3 c i := by simp [k3, Owned, takeObj_snd, Slabs.modify, slabPageInit]
    have hadd := sameCore_partialAdd (k := k3) (c := c) (i := i)
    have hnew : ((partialAdd k3 c i).slab i).freelist ≠ 0 := by
      obtain ⟨_, _, hr', hinv, -⟩ := kmemCacheAlloc_spec hk c
      obtain ⟨rfl, rfl⟩ := Prod.mk.inj (some.inj (hr.symm.trans hr'))
      have hcore := hadd.core i
      simp only [SlabPage.core, Prod.mk.injEq] at hcore
      rw [Ne, ((hinv.slabs.page i (hadd.pages ▸ hi3.1)).2.full_iff).1, hcore.2.2.1, hcore.2.2.2]
      have := (objCount_bounds K c).1
      simp only [k3, takeObj_snd, modify_slab, slabPageInit, if_true]
      omega
    have hL3 : Listed k3 c [] := ⟨trivial, (hM hq' ▸ hL1).head, nodup_nil, by simp⟩
    refine ⟨[i], hL3.partialAdd (by simp) hi3, fun j hj => ?_⟩
    rw [mem_singleton]
    rcases eq_or_ne j i with rfl | hji
    · exact iff_of_true hnew rfl
    · have hj1 : Owned k1 c j := by
        have := hadd.owned.1 hj
        rw [Owned, hslab j hji] at this
        exact ⟨(mem_cons.1 this.1).resolve_left hji, this.2⟩
      rw [hadd.freelist, hslab j hji, hsame.freelist, hnone hq' j (hsame.owned.1 hj1)]
      exact iff_of_false (fun h => h rfl) hji

/-! ### Other caches -/

lemma only_kmemCacheAlloc (hk : DataInv K total k B held) {r : Option ℕ}
    (hr : kmemCacheAlloc K k d = some (r, k')) : Only d k k' := by
  obtain ⟨q, k1, hpop, hcase⟩ := kmemCacheAlloc_cases hk hr
  obtain ⟨-, hlinks, hq⟩ := partialPop_spec hk.slabs.links hpop
  have ho := only_partialPop hk.slabs.links hpop
  rcases hcase with ⟨p, rfl, rfl⟩ | ⟨-, rfl⟩ | ⟨-, i, m, hi, rfl⟩
  · exact ho.trans (only_takeObj (hq p rfl).1.2)
  · exact ho
  · set k2 := slabPageInit K { k1 with mem := m } i d (-1)
    have hi2 : Owned k2 d i := by simp [k2, Owned, slabPageInit]
    refine ((ho.trans (only_slabPageInit hi m (-1))).trans (only_takeObj hi2.2)).trans
      (only_partialAdd ?_ ?_)
    · exact (owned_takeObj.2 hi2).2
    · intro p hp
      have hp' := hlinks.head d p hp
      have hpi : p ≠ i := fun h => hi (h ▸ hp'.1)
      simpa [k2, takeObj_snd, modify_slab, slabPageInit, hpi] using hp'.2

lemma only_kmallocLocked (hk : DataInv K total k B held) {cpu : ℕ} {active r : Option ℕ}
    (hactive : ∀ i, active = some i → Owned k d i) (hr : kmallocLocked K k cpu d active =
    some (r, k')) :
    Only d k k' := by
  rcases kmallocLocked_cases hk hr with ⟨p, hp, -, rfl⟩ | ⟨-, q, k1, hpop, hcase⟩
  · exact only_takeObj (hactive p hp).2
  · have ho := only_partialPop hk.slabs.links hpop
    rcases hcase with ⟨p, rfl, rfl⟩ | ⟨-, rfl⟩ | ⟨-, i, m, hi, rfl⟩
    · obtain ⟨hown, -⟩ := (partialPop_spec hk.slabs.links hpop).2.2 p rfl
      have hact : Only d k1 (activate k1 cpu d p) := by
        refine (Only.modify hown.2 ?_).trans (Only.setActive cpu p)
        exact fun _ => rfl
      refine (ho.trans hact).trans (only_takeObj ?_)
      simpa [activate, Slabs.setActive, modify_slab] using hown.2
    · exact ho
    · refine ((ho.trans (only_slabPageInit hi m cpu)).trans (Only.setActive cpu i)).trans
        (only_takeObj ?_)
      simp [Slabs.setActive, slabPageInit]

lemma owned_freeObj (hk : SlabsInv K k held) (hx : x ∈ held) : Owned (freeObj k d x) c i ↔
    Owned k c i := by
  have hpush : Owned (pushObj k x) c i ↔ Owned k c i := and_congr_right' (by rw [pushObj_cache])
  rw [freeObj_cases hk hx]
  split_ifs
  exacts [sameCore_partialAdd.owned.trans hpush, hpush]

lemma only_freeObj (hk : SlabsInv K k held) (hx : x ∈ held) (hc : (k.slab (pageOf x)).cache = d) :
    Only d k (freeObj k d x) := by
  have hpush : Only d k (pushObj k x) := by
    have hbytes : Only d k { k with bytes := writeLE k.bytes 8 x (k.slab (pageOf x)).freelist } :=
      Only.of_eq rfl rfl rfl rfl
    exact hbytes.trans (Only.modify hc fun _ => rfl)
  rw [freeObj_cases hk hx]
  split_ifs
  · refine hpush.trans (only_partialAdd ((pushObj_cache k x _).trans hc) fun q hq => ?_)
    exact ((pushObj_spec hk hx).links.head d q hq).2
  · exact hpush

/-! ### Whole runs -/

/-- An allocation from `c` takes the last free object of the page that it takes off the list. -/
def TakesLast (c : ℕ) (s : State) : Action → Prop
  | .kmemCacheAlloc d => d = c → LastObject s.k c
  | _ => True

instance (a : Action) : Decidable (TakesLast c s a) := by
  cases a <;> unfold TakesLast <;> infer_instance

/-- A page comes to the cache `c` only when all pages of `c` are full. -/
def NewWhenFull (c : ℕ) (s s' : State) : Prop :=
  ∀ i, Owned s'.k c i → ¬Owned s.k c i → ∀ j, Owned s.k c j → (s.k.slab j).freelist = 0

/-- What all steps of a run keep. -/
structure Reuses (K : Caches) (total c : ℕ) (s : State) : Prop where
  inv : Inv K total s
  calls : ClassCalls s
  complete : Complete s.k c

lemma Reuses.step (h : Reuses K total c s) (hc : 9 ≤ c) (hs : step K s a = some s') :
    (TakesLast c s a → Complete s'.k c) ∧ (¬TakesLast c s a → ¬Findable s'.k c ∅) ∧
    NewWhenFull c s s' := by
  have hother : ∀ d, c ≠ d → Only d s.k s'.k → Complete s'.k c ∧ NewWhenFull c s s' :=
    fun d hcd ho =>
    ⟨h.complete.other ho hcd, fun i hi hn => absurd ((ho.owned c hcd i).1 hi) hn⟩
  cases (step_effect hs).1 with
  | quiet ha hslab hhead hactive hpages =>
    obtain ⟨hcomp, hnew⟩ := hother (c + 1) (by omega) (Only.of_eq hslab hhead hactive hpages)
    refine ⟨fun _ => hcomp, fun hC => absurd ?_ hC, hnew⟩
    cases a with
    | kmemCacheAlloc d => exact absurd rfl (ha d)
    | _ => trivial
  | @kmalloc n cpu d active r hn hcall =>
    have hmem := mem_of_getElem? hn
    have hd : d < 9 := h.calls _ hmem
    obtain ⟨hcomp, hnew⟩ := hother d (by omega)
      (only_kmallocLocked h.inv.data (fun i hi => h.inv.mallocs cpu d i (hi ▸ hmem)) hcall)
    exact ⟨fun _ => hcomp, fun hC => absurd trivial hC, hnew⟩
  | @alloc d r hcall =>
    rcases eq_or_ne d c with rfl | hd
    · obtain ⟨hcomp, hbreak, hnew⟩ := h.complete.kmemCacheAlloc h.inv.data hcall
      exact ⟨fun hC => hcomp (hC rfl), fun hC => hbreak fun hl => hC fun _ => hl, hnew⟩
    · obtain ⟨hcomp, hnew⟩ := hother d hd.symm (only_kmemCacheAlloc h.inv.data hcall)
      exact ⟨fun _ => hcomp, fun hC => absurd (fun h => absurd h hd) hC, hnew⟩
  | @free n d x hn hk =>
    have hmem := mem_of_getElem? hn
    have hx := mem_held_of_frees hmem
    refine ⟨fun _ => ?_, fun hC => absurd trivial hC, fun i hi hi' => ?_⟩
    · rw [hk]
      rcases eq_or_ne d c with rfl | hd
      · exact h.complete.freeObj h.inv.data.slabs hx (h.inv.frees d x hmem)
      · exact h.complete.other (only_freeObj h.inv.data.slabs hx (h.inv.frees d x hmem)) hd.symm
    · rw [hk] at hi
      exact absurd ((owned_freeObj h.inv.data.slabs hx).1 hi) hi'

/-- Of a dedicated cache, in every run: as long as each allocation that takes a page off the partial
list takes the page's last free object, all pages with a free object are on the list, once each, and
a new page is asked for only when all pages are full; and no longer. -/
theorem dedicated_reuse_iff (K : Caches) (bi : Bfc.BootInfo) (slab : ℕ → SlabPage) (bytes : ℕ → ℕ)
    (c : ℕ)
    (hc : 9 ≤ c) (acts : List Action) (s : State) (h : exec (step K) (boot bi slab bytes) acts =
    some s) :
    Meets (step K) (TakesLast c) (boot bi slab bytes) acts ↔
      (∀ bs u, bs <+: acts → exec (step K) (boot bi slab bytes) bs = some u → Findable u.k c ∅) ∧
      ∀ bs a u v, bs ++ [a] <+: acts → exec (step K) (boot bi slab bytes) bs = some u → step K u a =
        some v → NewWhenFull c u v := by
  have hboot : Reuses K (Bfc.freeBelow bi bi.total) c (boot bi slab bytes) := by
    refine ⟨boot_inv K bi slab bytes, (fun e he => nomatch he), [],
      ⟨trivial, rfl, nodup_nil, by simp⟩, ?_⟩
    exact fun i hi => nomatch hi.1
  refine meets_iff_of_exact_steps (I := Reuses K (Bfc.freeBelow bi bi.total) c) (fun s h => ?_)
    (fun s a s' h hC hs => ?_) (fun s a s' h hC hs hP => (h.step hc hs).2.1 hC hP.1) acts _ s hboot
    h
  · obtain ⟨L, hL, hall⟩ := h.complete
    exact hL.findable fun i hi hne => .inl ((hall i hi).1 hne)
  · obtain ⟨hcomp, -, hnew⟩ := h.step hc hs
    exact ⟨⟨h.inv.step hs, h.calls.step hs, hcomp hC⟩, hnew⟩

def twoPages : State := boot Bfc.tiny (fun _ => ⟨0, 0, 0, 0, 0, none, none⟩) fun _ => 0

/-- Three objects from a cache of two objects a page: the second page is made when the first is
full. -/
theorem dedicated_reuse_second_page :
    Meets (step exampleCaches) (TakesLast 9) twoPages (replicate 3 (.kmemCacheAlloc 9)) ∧
    ∃ s, exec (step exampleCaches) twoPages (replicate 3 (.kmemCacheAlloc 9)) = some s ∧
      Findable s.k 9 ∅ := by
  have hmeets : Meets (step exampleCaches) (TakesLast 9) twoPages
    (replicate 3 (.kmemCacheAlloc 9)) := by
    decide +kernel
  refine ⟨hmeets, exists_some_of (by decide +kernel) fun s hs => ?_⟩
  exact ((dedicated_reuse_iff exampleCaches _ _ _ 9 (by decide) _ s hs).1 hmeets).1 _ s
    (prefix_refl _) hs

/-- Two objects of one page are freed: the page is put on the list with the first. The next
allocation takes it off, with one object still free, and the one after that asks for a new page. -/
theorem dedicated_page_lost : ∃ s s',
    exec (step exampleCaches) twoPages [.kmemCacheAlloc 9, .kmemCacheAlloc 9,
    .kmemCacheFree 9 vmaBase,
      .freeLocked 0, .kmemCacheFree 9 (vmaBase + 2048), .freeLocked 0, .kmemCacheAlloc 9] = some s ∧
    step exampleCaches s (.kmemCacheAlloc 9) = some s' ∧ ¬Findable s.k 9 ∅ ∧
    ¬NewWhenFull 9 s s' := by
  obtain ⟨s, hs, s', hs', hhead, hpages, hcache, hfree, hpages', hcache'⟩ : ∃ s,
      exec (step exampleCaches) twoPages [.kmemCacheAlloc 9, .kmemCacheAlloc 9,
      .kmemCacheFree 9 vmaBase,
        .freeLocked 0, .kmemCacheFree 9 (vmaBase + 2048), .freeLocked 0, .kmemCacheAlloc 9] =
        some s ∧
      ∃ s', step exampleCaches s (.kmemCacheAlloc 9) = some s' ∧ s.k.partialHead 9 = none ∧
        s.k.slabPages = [0] ∧ (s.k.slab 0).cache = 9 ∧ (s.k.slab 0).freelist ≠ 0 ∧
        s'.k.slabPages = [1, 0] ∧ (s'.k.slab 1).cache = 9 := by decide +kernel
  have h0 : Owned s.k 9 0 := ⟨by simp [hpages], hcache⟩
  refine ⟨s, s', hs, hs', fun ⟨L, hpath, _, hall⟩ => ?_, fun hnew => hfree ?_⟩
  · rw [hhead] at hpath
    obtain rfl : L = [] := hpath.unique (show Path _ none [] from rfl)
    simpa using hall 0 h0 hfree
  · exact hnew 1 ⟨by simp [hpages'], hcache'⟩ (fun h => by simpa [hpages] using h.1) 0 h0

/-! ## The size classes -/

def activeOf (k : Slabs) (c : ℕ) : Set ℕ := { i | ∃ cpu, k.activeSlab cpu c = some i }

/-- All pages of `c` with a free object are on the list or active. -/
def Covered (k : Slabs) (c : ℕ) : Prop :=
  ∃ L, Listed k c L ∧ ∀ i, Owned k c i → (k.slab i).freelist ≠ 0 → i ∈ L ∨ i ∈ activeOf k c

/-- The active slab that a call read before it had the lock is still active, or it has a free
object. -/
def KeepsActive (k : Slabs) (c : ℕ) (call : ℕ × ℕ × Option ℕ) : Prop :=
  call.2.1 = c → call.2.2 = k.activeSlab call.1 c ∨ ∃ p ∈ call.2.2, (k.slab p).freelist ≠ 0

/-- A full page whose object is freed is not on the list. -/
def AddsNew (k : Slabs) (c : ℕ) : FreeCall → Prop
  | .slab d x => d = c → (k.slab (pageOf x)).freelist = 0 →
      k.partialHead c ≠ some (pageOf x) ∧ (k.slab (pageOf x)).partialPrev = none
  | .large _ => True

lemma Covered.other (h : Covered k c) (ho : Only d k k') (hc : c ≠ d) : Covered k' c := by
  obtain ⟨L, hL, hall⟩ := h
  refine ⟨L, hL.other ho hc, fun i hi hne => ?_⟩
  have hi := (ho.owned c hc i).1 hi
  rw [ho.slab c hc i hi] at hne
  exact (hall i hi hne).imp_right fun ⟨cpu, h⟩ => ⟨cpu, (ho.active cpu c hc).trans h⟩

lemma Covered.freeObj (h : Covered k c) (hk : SlabsInv K k held) (hx : x ∈ held)
    (hc : (k.slab (pageOf x)).cache = c) (hnew : AddsNew k c (.slab c x)) :
    Covered (freeObj k c x) c := by
  obtain ⟨L, hL, hall⟩ := h
  have hpage : Owned (pushObj k x) c (pageOf x) :=
    ⟨(hk.slot x hx).1, (pushObj_cache k x _).trans hc⟩
  have hother : ∀ i ≠ pageOf x, ((pushObj k x).slab i).freelist = (k.slab i).freelist :=
    fun i hi => by
    rw [pushObj, modify_slab, if_neg hi]
  have hown : ∀ i, Owned (pushObj k x) c i → Owned k c i := fun i hi =>
    ⟨hi.1, pushObj_cache k x i ▸ hi.2⟩
  rw [freeObj_cases hk hx]
  split_ifs with hfull
  · have hnot : pageOf x ∉ L := fun hL' => by
      obtain ⟨hhead, hprev⟩ := hnew rfl hfull
      exact (hL.linked hL').elim hhead fun h => h hprev
    refine ⟨pageOf x :: L, hL.pushObj.partialAdd hnot hpage, fun i hi hne => ?_⟩
    rw [mem_cons]
    rcases eq_or_ne i (pageOf x) with rfl | hip
    · exact .inl (.inl rfl)
    · rw [sameCore_partialAdd.freelist, hother i hip] at hne
      obtain hi | ⟨cpu, hcpu⟩ := hall i (hown i (sameCore_partialAdd.owned.1 hi)) hne
      exacts [.inl (.inr hi), .inr ⟨cpu, (congrFun (congrFun sameCore_partialAdd.active cpu)
        c).trans hcpu⟩]
  · refine ⟨L, hL.pushObj, fun i hi hne => hall i (hown i hi) ?_⟩
    rcases eq_or_ne i (pageOf x) with rfl | hip
    · exact hfull
    · rwa [hother i hip] at hne

lemma Covered.kmallocLocked (h : Covered k c) (hk : DataInv K total k B held) {cpu : ℕ}
    {active r : Option ℕ}
    (hkeep : KeepsActive k c (cpu, c, active)) (hr : kmallocLocked K k cpu c active = some (r, k'))
    :
    Covered k' c := by
  obtain ⟨L, hL, hall⟩ := h
  rcases kmallocLocked_cases hk hr with ⟨p, -, hne, rfl⟩ | ⟨hfull, q, k1, hpop, hcase⟩
  · refine ⟨L, hL.takeObj, fun i hi hi' => hall i (owned_takeObj.1 hi) ?_⟩
    rcases eq_or_ne i p with rfl | hip
    · exact hne
    · rwa [takeObj_freelist hip] at hi'
  obtain ⟨hsame, -⟩ := partialPop_spec hk.slabs.links hpop
  obtain ⟨full, M, rfl, hdrop, hM, hL1⟩ := hL.partialPop hk.slabs.links hpop
  -- the slab that was active on this CPU is full, so that nothing is lost with it
  have hrest : ∀ i, Owned k1 c i → (k1.slab i).freelist ≠ 0 →
      i ∈ q.toList ++ M ∨ ∃ cpu' ≠ cpu, k1.activeSlab cpu' c = some i := by
    intro i hi hne
    rw [hsame.freelist] at hne
    rcases hall i (hsame.owned.1 hi) hne with hi | ⟨cpu', hcpu⟩
    · exact .inl ((mem_append.1 hi).resolve_left fun h => hne (hdrop i h))
    · refine .inr ⟨cpu', fun h => hne ?_, hsame.active ▸ hcpu⟩
      rcases hkeep rfl with hcur | ⟨p, hp, hp'⟩
      · exact hfull i (hcur.trans (h ▸ hcpu))
      · exact absurd (hfull p hp) hp'
  -- the page that is made active may leave the list
  have hend : ∀ k2 p, Listed k2 c M → k2.activeSlab = k1.activeSlab → (∀ i ∈ q.toList, i = p) →
      (∀ i ≠ p, Owned k2 c i → Owned k1 c i ∧ (k2.slab i).freelist = (k1.slab i).freelist) →
      Covered (takeObj (k2.setActive cpu c p) p).2 c := by
    intro k2 p hL2 hk2 hq hother
    have hL3 : Listed (k2.setActive cpu c p) c M := hL2.congr rfl hL2.owned (fun _ _ => rfl)
      fun _ _ => rfl
    refine ⟨M, hL3.takeObj, fun i hi hne => ?_⟩
    rcases eq_or_ne i p with rfl | hip
    · exact .inr ⟨cpu, if_pos ⟨rfl, rfl⟩⟩
    · rw [takeObj_freelist hip] at hne
      obtain ⟨hi1, hfree⟩ := hother i hip (owned_takeObj.1 hi)
      rcases hrest i hi1 fun h => hne (hfree.trans h) with hmem | ⟨cpu', hcpu, hact⟩
      · exact .inl ((mem_append.1 hmem).resolve_left fun h => hip (hq i h))
      · exact .inr ⟨cpu', (if_neg fun h => hcpu h.1).trans (hk2 ▸ hact)⟩
  rcases hcase with ⟨p, rfl, rfl⟩ | ⟨rfl, rfl⟩ | ⟨rfl, j, m, hj, rfl⟩
  · refine hend _ p (hL1.modify ?_ ?_ ?_) rfl (by simp) fun i hip hi => ?_
    on_goal 4 =>
      rw [Owned, modify_slab, if_neg hip] at hi
      exact ⟨hi, by rw [modify_slab, if_neg hip]⟩
    all_goals exact fun _ => rfl
  · exact ⟨M, hL1, fun i hi hne => (hrest i hi hne).imp_right fun hex => hex.imp fun _ => And.right⟩
  · have hslab : ∀ i ≠ j, (slabPageInit K { k1 with mem := m } j c cpu).slab i = k1.slab i :=
      fun i hi => if_neg hi
    have hnil := hM rfl
    subst hnil
    refine hend _ j ⟨trivial, hL1.head, nodup_nil, by simp⟩ rfl (by simp) fun i hij hi => ?_
    rw [Owned, hslab i hij] at hi
    exact ⟨⟨(mem_cons.1 hi.1).resolve_left hij, hi.2⟩, by rw [hslab i hij]⟩

/-- Calls for the size class `c` find the list as it should be: the recorded active slab is still
the active one or can serve the call, and a page that is added is not on the list. Dedicated caches
are not size classes. -/
def Orderly (c : ℕ) (s : State) : Action → Prop
  | .kmallocLocked n => ∀ call ∈ s.mallocs[n]?, KeepsActive s.k c call
  | .freeLocked n => ∀ call ∈ s.frees[n]?, AddsNew s.k c call
  | .kmemCacheAlloc d => 9 ≤ d
  | _ => True

instance (call : FreeCall) : Decidable (AddsNew k c call) := by
  cases call <;> unfold AddsNew <;> infer_instance

instance : (a : Action) → Decidable (Orderly c s a)
  | .kmallocLocked _ => inferInstanceAs (Decidable (∀ call ∈ _, _ → _ ∨ ∃ p ∈ _, _))
  | .freeLocked _ => inferInstanceAs (Decidable (∀ call ∈ _, _))
  | .kmemCacheAlloc d => inferInstanceAs (Decidable (9 ≤ d))
  | .kmallocBegin .. | .kmallocLarge _ | .kfreeObj _ | .kfreeBlock _ | .kmemCacheFree .. | .store ..
  | .storeBlock .. | .allocPages _ | .allocPagesLow _ | .freePages _ => isTrue trivial

/-- In every run of `kmalloc` and `kfree` (and of any other users) whose steps are orderly for a
size class, the partial list of the class ends and visits no page twice, and every page of the class
with a free object is on it or active on a CPU. -/
theorem kmalloc_never_strands (K : Caches) (bi : Bfc.BootInfo) (slab : ℕ → SlabPage) (bytes : ℕ → ℕ)
    (c : ℕ)
    (hc : c < 9) (acts : List Action) (hmeets : Meets (step K) (Orderly c) (boot bi slab bytes)
    acts) (s : State)
    (h : exec (step K) (boot bi slab bytes) acts = some s) : Findable s.k c (activeOf s.k c) := by
  have hall : Inv K (Bfc.freeBelow bi bi.total) s ∧ Covered s.k c := by
    refine exec_invariant_of_meets (I := fun s => Inv K (Bfc.freeBelow bi bi.total) s ∧
      Covered s.k c)
      (fun s a s' ⟨hinv, hcov⟩ hC hs => ⟨hinv.step hs, ?_⟩) acts _ s ⟨boot_inv K bi slab bytes, [],
      ?_⟩ hmeets h
    · cases (step_effect hs).1 with
      | quiet _ hslab hhead hactive hpages =>
        exact hcov.other (d := c + 1) (Only.of_eq hslab hhead hactive hpages) (by omega)
      | @kmalloc n cpu d active r hn hcall =>
        have hmem := mem_of_getElem? hn
        rcases eq_or_ne c d with rfl | hd
        · exact hcov.kmallocLocked hinv.data (hC _ hn) hcall
        · exact hcov.other (only_kmallocLocked hinv.data
            (fun i hi => hinv.mallocs cpu d i (hi ▸ hmem)) hcall) hd
      | @alloc d r hcall =>
        have hd : 9 ≤ d := hC
        exact hcov.other (only_kmemCacheAlloc hinv.data hcall) (by omega)
      | @free n d x hn hk =>
        have hmem := mem_of_getElem? hn
        have hx := mem_held_of_frees hmem
        rw [hk]
        rcases eq_or_ne c d with rfl | hd
        · exact hcov.freeObj hinv.data.slabs hx (hinv.frees c x hmem) (hC _ hn)
        · exact hcov.other (only_freeObj hinv.data.slabs hx (hinv.frees d x hmem)) hd
    · exact ⟨⟨trivial, rfl, nodup_nil, by simp⟩, fun i hi => nomatch hi.1⟩
  obtain ⟨-, L, hL, hcov⟩ := hall
  exact hL.findable hcov

/-- A page is filled and one of its objects freed. -/
def fillPage : List Action := [.kmallocBegin 0 2048, .kmallocLocked 0, .kmallocBegin 0 2048,
    .kmallocLocked 0,
  .kfreeObj vmaBase, .freeLocked 0]

theorem kmalloc_never_strands_filled :
    ∃ s, exec (step exampleCaches) twoPages fillPage = some s ∧
    Findable s.k 8 (activeOf s.k 8) := by
  have hmeets : Meets (step exampleCaches) (Orderly 8) twoPages fillPage := by decide +kernel
  exact exists_some_of (by decide +kernel) fun s hs =>
    kmalloc_never_strands exampleCaches _ _ _ 8 (by decide) _ hmeets s hs

/-- The free puts the active page on the list; the object is handed out again and freed again, which
makes the page its own successor. -/
theorem partial_list_cyclic :
    ∃ s, exec (step exampleCaches) twoPages (fillPage ++
        [.kmallocBegin 0 2048, .kmallocLocked 0, .kfreeObj vmaBase, .freeLocked 0]) = some s ∧
      ¬Findable s.k 8 (activeOf s.k 8) := by
  obtain ⟨s, hs, hhead, hnext⟩ : ∃ s, exec (step exampleCaches) twoPages (fillPage ++
      [.kmallocBegin 0 2048, .kmallocLocked 0, .kfreeObj vmaBase, .freeLocked 0]) = some s ∧
      s.k.partialHead 8 = some 0 ∧ (s.k.slab 0).partialNext = some 0 := by decide +kernel
  refine ⟨s, hs, fun ⟨L, hpath, _⟩ => ?_⟩
  rw [hhead] at hpath
  cases L with
  | nil => exact nomatch hpath
  | cons y L =>
    obtain rfl : 0 = y := some.inj hpath.1
    have htail := hpath.2
    simp only [hnext] at htail
    exact cons_ne_self 0 L (hpath.unique htail)

end XosKernel.Slab
