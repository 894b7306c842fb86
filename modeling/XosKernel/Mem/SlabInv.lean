/-
# The invariant of the slab allocator

Every slab page is a fixed set of slots. Some slots are linked in the page's free list, the
others are held by callers, and `inuse` counts the latter (`PageInv`). The links of the
partial lists may be corrupt (a page can be added to the list it is already on), but they
only ever lead to slab pages of the same cache (`LinksInv`), and this is all the code needs.
-/
import XosKernel.Mem.Slab

namespace XosKernel.Slab

open Bytes FreeList List Option Nat Prod
open Bfc (Mem PageStatus HeldPage)

variable {K : Caches} {k k' : Slabs} {c i j x y : ℕ}

/-! ## Slots -/

def IsSlot (K : Caches) (c i x : ℕ) : Prop := ∃ j < pageSize / K.objSize c, x = slot K c i j

lemma slot_end (hj : j < pageSize / K.objSize c) :
    slot K c i j + K.objSize c ≤ pageData i + pageSize := by
  have h1 : (j + 1) * K.objSize c ≤ pageSize / K.objSize c * K.objSize c :=
    mul_le_mul_right _ hj
  have h2 := div_mul_le_self pageSize (K.objSize c)
  rw [add_mul, one_mul] at h1
  unfold slot
  omega

lemma IsSlot.inside (h : IsSlot K c i x) :
    pageData i ≤ x ∧ x + K.objSize c ≤ pageData i + pageSize ∧ 8 ≤ K.objSize c := by
  obtain ⟨j, hj, rfl⟩ := h
  exact ⟨le_add_right _ _, slot_end hj, K.room c⟩

lemma pageOf_eq (h1 : pageData i ≤ x) (h2 : x < pageData i + pageSize) : pageOf x = i := by
  unfold pageOf pageData pageSize at *
  omega

lemma IsSlot.pageOf_eq (h : IsSlot K c i x) : pageOf x = i := by
  obtain ⟨h1, h2, h3⟩ := h.inside
  exact Slab.pageOf_eq h1 (by omega)

lemma IsSlot.apart (hx : IsSlot K c i x) (hy : IsSlot K c i y) (hne : x ≠ y) :
    x + K.objSize c ≤ y ∨ y + K.objSize c ≤ x := by
  obtain ⟨a, -, rfl⟩ := hx
  obtain ⟨b, -, rfl⟩ := hy
  unfold slot at *
  rcases lt_trichotomy a b with hab | rfl | hab
  · have : (a + 1) * K.objSize c ≤ b * K.objSize c := mul_le_mul_right _ hab
    rw [add_mul, one_mul] at this
    omega
  · exact absurd rfl hne
  · have : (b + 1) * K.objSize c ≤ a * K.objSize c := mul_le_mul_right _ hab
    rw [add_mul, one_mul] at this
    omega

lemma IsSlot.ptr (h : IsSlot K c i x) (hi : i < 2 ^ 24) : x ≠ 0 ∧ x < 256 ^ 8 := by
  obtain ⟨h1, h2, h3⟩ := h.inside
  unfold pageData vmaBase pageSize at *
  omega

/-! ## Free lists -/

/-- Following the pointers in memory from `p` visits exactly `xs`, up to the null pointer. -/
def Chain (bytes : ℕ → ℕ) : ℕ → List ℕ → Prop
  | p, [] => p = 0
  | p, x :: xs => p = x ∧ x ≠ 0 ∧ Chain bytes (readLE bytes 8 x) xs

lemma Chain.congr {bytes bytes' : ℕ → ℕ} {p : ℕ} {xs : List ℕ} (h : Chain bytes p xs)
    (hread : ∀ x ∈ xs, readLE bytes' 8 x = readLE bytes 8 x) : Chain bytes' p xs := by
  induction xs generalizing p with
  | nil => exact h
  | cons x xs ih =>
    obtain ⟨h1, h2, h3⟩ := h
    refine ⟨h1, h2, ?_⟩
    rw [hread x (by simp)]
    exact ih h3 fun y hy => hread y (by simp [hy])

/-- The slots in the order in which `slab_page_init` links them. -/
def slots (K : Caches) (c i n : ℕ) : List ℕ := ((List.range n).map (slot K c i)).reverse

lemma slots_succ (n : ℕ) : slots K c i (n + 1) = slot K c i n :: slots K c i n := by
  simp [slots, range_succ]

lemma mem_slots {n : ℕ} : x ∈ slots K c i n ↔ ∃ j < n, x = slot K c i j := by
  simp [slots, eq_comm]

lemma nodup_slots (n : ℕ) : (slots K c i n).Nodup := by
  refine nodup_reverse.2 (List.Nodup.map ?_ nodup_range)
  intro a b hab
  have hpos : 0 < K.objSize c := by
    have := K.room c
    omega
  unfold slot at hab
  exact eq_of_mul_eq_mul_right hpos (by omega)

/-- The initial free list of a page visits all its slots, and nothing outside the page is
written. -/
lemma buildFreelist_spec (K : Caches) (bytes : ℕ → ℕ) (hi : i < 2 ^ 24) {n : ℕ}
    (hn : n ≤ pageSize / K.objSize c) :
    Chain (buildFreelist K c i bytes n).1 (buildFreelist K c i bytes n).2 (slots K c i n) ∧
      ∀ y, y + 8 ≤ pageData i ∨ pageData i + pageSize ≤ y →
        readLE (buildFreelist K c i bytes n).1 8 y = readLE bytes 8 y := by
  induction n with
  | zero => exact ⟨rfl, fun _ _ => rfl⟩
  | succ n ih =>
    obtain ⟨hchain, hframe⟩ := ih (by omega)
    have hslot : IsSlot K c i (slot K c i n) := ⟨n, by omega, rfl⟩
    obtain ⟨h1, h2, h3⟩ := hslot.inside
    -- the old list head is a pointer or null
    have hptr : (buildFreelist K c i bytes n).2 < 256 ^ 8 := by
      cases n with
      | zero => norm_num [buildFreelist]
      | succ n =>
        have hs : IsSlot K c i (slot K c i n) := ⟨n, by omega, rfl⟩
        exact (hs.ptr hi).2
    rw [slots_succ]
    simp only [buildFreelist]
    refine ⟨⟨rfl, (hslot.ptr hi).1, ?_⟩, fun y hy => ?_⟩
    · rw [readLE_writeLE hptr]
      refine hchain.congr fun y hy => readLE_writeLE_of_apart ?_
      obtain ⟨j, hj, rfl⟩ := mem_slots.1 hy
      have hs : IsSlot K c i (slot K c i j) := ⟨j, by omega, rfl⟩
      have hne : slot K c i j ≠ slot K c i n := fun he => by
        have hnd := nodup_slots (K := K) (c := c) (i := i) (n + 1)
        rw [slots_succ, nodup_cons] at hnd
        exact hnd.1 (he ▸ hy)
      have := hs.apart hslot hne
      omega
    · rw [readLE_writeLE_of_apart (by omega)]
      exact hframe y hy

/-! ## Pages -/

/-- The fields of a slab page other than its place in the lists. -/
def SlabPage.core (p : SlabPage) : ℕ × ℕ × ℕ × ℕ := (p.cache, p.freelist, p.inuse, p.objCount)

/-- The invariant of one slab page, where `held` are the objects callers hold. -/
structure PageInv (K : Caches) (k : Slabs) (held : List ℕ) (i : ℕ) : Prop where
  status : (k.mem.bfcFrames i).status = .slab
  count : (k.slab i).objCount = pageSize / K.objSize (k.slab i).cache
  used : (k.slab i).inuse = (held.filter fun x => pageOf x = i).length
  list : ∃ xs, Chain k.bytes (k.slab i).freelist xs ∧ xs.Nodup ∧
    (∀ x ∈ xs, IsSlot K (k.slab i).cache i x ∧ x ∉ held) ∧
    (k.slab i).inuse + xs.length = (k.slab i).objCount

def Owned (k : Slabs) (c i : ℕ) : Prop := i ∈ k.slabPages ∧ (k.slab i).cache = c

structure LinksInv (k : Slabs) : Prop where
  head : ∀ c i, k.partialHead c = some i → Owned k c i
  next : ∀ i j, i ∈ k.slabPages → (k.slab i).partialNext = some j →
    Owned k (k.slab i).cache j
  prev : ∀ i j, i ∈ k.slabPages → (k.slab i).partialPrev = some j →
    Owned k (k.slab i).cache j
  active : ∀ cpu c i, k.activeSlab cpu c = some i → Owned k c i

structure SlabsInv (K : Caches) (k : Slabs) (held : List ℕ) : Prop where
  nodup : held.Nodup
  slot : ∀ x ∈ held, pageOf x ∈ k.slabPages ∧ IsSlot K (k.slab (pageOf x)).cache (pageOf x) x
  page : ∀ i ∈ k.slabPages, i < 2 ^ 24 ∧ PageInv K k held i
  links : LinksInv k

variable {held : List ℕ}

/-- A page's invariant reads its core fields, its status, the pointers in its free slots, and
which of its objects are held. -/
lemma PageInv.frame {held' : List ℕ} (h : PageInv K k held i)
    (hst : (k'.mem.bfcFrames i).status = (k.mem.bfcFrames i).status)
    (hcore : (k'.slab i).core = (k.slab i).core)
    (hread : ∀ x, IsSlot K (k.slab i).cache i x → x ∉ held →
      readLE k'.bytes 8 x = readLE k.bytes 8 x)
    (hused : (held'.filter fun x => pageOf x = i).length =
    (held.filter fun x => pageOf x = i).length)
    (hheld : ∀ x, pageOf x = i → x ∈ held' → x ∈ held) : PageInv K k' held' i := by
  simp only [SlabPage.core, mk.injEq] at hcore
  obtain ⟨hcache, hfl, huse, hcnt⟩ := hcore
  obtain ⟨xs, hch, hnd, hxs, hlen⟩ := h.list
  refine ⟨hst.trans h.status, ?_, ?_, xs, ?_, hnd, fun x hx => ?_, ?_⟩
  · rw [hcnt, hcache]
    exact h.count
  · rw [huse, hused]
    exact h.used
  · rw [hfl]
    exact hch.congr fun x hx => hread x (hxs x hx).1 (hxs x hx).2
  · rw [hcache]
    exact ⟨(hxs x hx).1, fun hmem => (hxs x hx).2 (hheld x (hxs x hx).1.pageOf_eq hmem)⟩
  · rw [huse, hcnt]
    exact hlen

lemma PageInv.congr (h : PageInv K k held i)
    (hst : (k'.mem.bfcFrames i).status = (k.mem.bfcFrames i).status)
    (hcore : (k'.slab i).core = (k.slab i).core)
    (hread : ∀ x, IsSlot K (k.slab i).cache i x → x ∉ held →
      readLE k'.bytes 8 x = readLE k.bytes 8 x) : PageInv K k' held i :=
  h.frame hst hcore hread rfl fun _ _ => id

/-- What an edit of the partial lists leaves alone. -/
structure SameCore (k k' : Slabs) : Prop where
  mem : k'.mem = k.mem
  bytes : k'.bytes = k.bytes
  pages : k'.slabPages = k.slabPages
  active : k'.activeSlab = k.activeSlab
  core : ∀ i, (k'.slab i).core = (k.slab i).core

lemma SameCore.refl (k : Slabs) : SameCore k k := ⟨rfl, rfl, rfl, rfl, fun _ => rfl⟩

lemma SameCore.trans {k1 k2 k3 : Slabs} (h : SameCore k1 k2) (h' : SameCore k2 k3) :
    SameCore k1 k3 :=
  ⟨h'.mem.trans h.mem, h'.bytes.trans h.bytes, h'.pages.trans h.pages,
    h'.active.trans h.active, fun i => (h'.core i).trans (h.core i)⟩

lemma SameCore.cache (h : SameCore k k') (i : ℕ) : (k'.slab i).cache = (k.slab i).cache :=
  congrArg fst (h.core i)

lemma SameCore.freelist (h : SameCore k k') (i : ℕ) : (k'.slab i).freelist = (k.slab i).freelist :=
  congrArg (fun p => p.2.1) (h.core i)

lemma SameCore.owned (h : SameCore k k') : Owned k' c i ↔ Owned k c i := by
  unfold Owned
  rw [h.pages, h.cache]

lemma SlabsInv.of_sameCore (h : SlabsInv K k held) (hsame : SameCore k k')
    (hlinks : LinksInv k') : SlabsInv K k' held := by
  refine ⟨h.nodup, fun x hx => ?_, fun i hi => ?_, hlinks⟩
  · rw [hsame.pages, hsame.cache]
    exact h.slot x hx
  · rw [hsame.pages] at hi
    refine ⟨(h.page i hi).1, (h.page i hi).2.congr ?_ (hsame.core i) fun x _ _ => ?_⟩
    · rw [hsame.mem]
    · rw [hsame.bytes]

/-! ## The partial lists -/

variable {f : SlabPage → SlabPage} {fuel : ℕ}

lemma sameCore_modify (hf : ∀ p, (f p).core = p.core) : SameCore k (k.modify i f) := by
  refine ⟨rfl, rfl, rfl, rfl, fun j => ?_⟩
  simp only [Slabs.modify]
  split_ifs
  · exact hf _
  · rfl

lemma sameCore_setPartial {p : Option ℕ} : SameCore k (k.setPartial c p) :=
  ⟨rfl, rfl, rfl, rfl, fun _ => rfl⟩

lemma cache_modify (hf : ∀ p, (f p).cache = p.cache) (j : ℕ) :
    ((k.modify i f).slab j).cache = (k.slab j).cache := by
  simp only [Slabs.modify]
  split_ifs
  · exact hf _
  · rfl

section

variable (h : LinksInv k)
include h

lemma LinksInv.modify (hf : ∀ p, (f p).cache = p.cache)
    (hnext : ∀ j, i ∈ k.slabPages → (f (k.slab i)).partialNext = some j →
      Owned k (k.slab i).cache j)
    (hprev : ∀ j, i ∈ k.slabPages → (f (k.slab i)).partialPrev = some j →
      Owned k (k.slab i).cache j) : LinksInv (k.modify i f) := by
  have hcache := cache_modify (k := k) (i := i) hf
  have howned : ∀ c j, Owned (k.modify i f) c j ↔ Owned k c j := fun c j => by
    simp only [Owned, hcache]
    rfl
  refine ⟨fun c j hj => (howned c j).2 (h.head c j hj), fun a j ha hj => ?_, fun a j ha hj => ?_,
    fun cpu c j hj => (howned c j).2 (h.active cpu c j hj)⟩
  all_goals
    rw [howned, hcache]
    simp only [Slabs.modify] at hj
    split_ifs at hj with hai
  · exact hai ▸ hnext j (hai ▸ ha) (hai ▸ hj)
  · exact h.next a j ha hj
  · exact hai ▸ hprev j (hai ▸ ha) (hai ▸ hj)
  · exact h.prev a j ha hj

lemma LinksInv.setPartial {p : Option ℕ}
    (hp : ∀ j, p = some j → Owned k c j) : LinksInv (k.setPartial c p) := by
  refine ⟨fun d j hj => ?_, h.next, h.prev, h.active⟩
  by_cases hdc : d = c
  · subst hdc
    exact hp j (by simpa [Slabs.setPartial] using hj)
  · exact h.head d j (by simpa [Slabs.setPartial, hdc] using hj)

lemma partialAdd_spec (hi : Owned k c i) :
    SameCore k (partialAdd k c i) ∧ LinksInv (partialAdd k c i) := by
  set k1 := k.modify i fun pg =>
    { pg with partialNext := k.partialHead c, partialPrev := none } with hk1
  have hs1 : SameCore k k1 := sameCore_modify fun _ => rfl
  have hl1 : LinksInv k1 := by
    refine h.modify (fun _ => rfl) (fun j _ hj => ?_) (fun j _ hj => by cases hj)
    rw [hi.2]
    exact h.head c j hj
  have hend : ∀ k2, SameCore k1 k2 → LinksInv k2 →
      SameCore k (k2.setPartial c (some i)) ∧ LinksInv (k2.setPartial c (some i)) := by
    intro k2 hs2 hl2
    refine ⟨(hs1.trans hs2).trans sameCore_setPartial, hl2.setPartial fun j hj => ?_⟩
    obtain rfl : i = j := some.inj hj
    exact (hs1.trans hs2).owned.2 hi
  rw [partialAdd]
  split
  · exact hend k1 (SameCore.refl k1) hl1
  next q hq =>
    have hqo : Owned k1 c q := hs1.owned.2 (h.head c q hq)
    refine hend (k1.modify q _) (sameCore_modify fun _ => rfl) (hl1.modify (fun _ => rfl)
      (fun j hqp hj => ?_) (fun j _ hj => ?_))
    · exact hl1.next q j hqp hj
    · obtain rfl : i = j := some.inj hj
      rw [hqo.2]
      exact hs1.owned.2 hi

lemma partialRemove_spec (hi : Owned k c i) :
    SameCore k (partialRemove k c i) ∧ LinksInv (partialRemove k c i) := by
  have hnext : ∀ j, (k.slab i).partialNext = some j → Owned k c j := fun j hj => by
    rw [← hi.2]
    exact h.next i j hi.1 hj
  unfold partialRemove
  extract_lets k1 k2
  obtain ⟨hs1, hl1⟩ : SameCore k k1 ∧ LinksInv k1 := by
    dsimp only [k1]
    cases hq : (k.slab i).partialPrev with
    | none => exact ⟨sameCore_setPartial, h.setPartial hnext⟩
    | some q =>
      have hqo : (k.slab q).cache = c := by
        rw [← hi.2]
        exact (h.prev i q hi.1 hq).2
      refine ⟨sameCore_modify fun _ => rfl, h.modify (fun _ => rfl) (fun j _ hj => ?_)
        (fun j hqp hj => h.prev q j hqp hj)⟩
      rw [hqo]
      exact hnext j hj
  have hi1 : Owned k1 c i := hs1.owned.2 hi
  obtain ⟨hs2, hl2⟩ : SameCore k1 k2 ∧ LinksInv k2 := by
    dsimp only [k2]
    cases hq : (k1.slab i).partialNext with
    | none => exact ⟨SameCore.refl k1, hl1⟩
    | some q =>
      have hqo := (hl1.next i q hi1.1 hq).2
      refine ⟨sameCore_modify fun _ => rfl, hl1.modify (fun _ => rfl)
        (fun j hqp hj => hl1.next q j hqp hj) (fun j _ hj => ?_)⟩
      rw [hqo]
      exact hl1.prev i j hi1.1 hj
  refine ⟨(hs1.trans hs2).trans (sameCore_modify fun _ => rfl), hl2.modify (fun _ => rfl)
    (fun j _ hj => by cases hj) (fun j _ hj => by cases hj)⟩

/-- The loop over the partial list keeps the invariant; the page it returns belongs to the
cache and has a free object. -/
lemma partialPop_spec {r : Option ℕ} (hr : partialPop c fuel k = some (r, k')) :
    SameCore k k' ∧ LinksInv k' ∧ ∀ p, r = some p → Owned k' c p ∧ (k'.slab p).freelist ≠ 0 := by
  fun_induction partialPop c fuel k with
  | case1 => cases hr
  | case2 fuel k hhead =>
    obtain ⟨rfl, rfl⟩ := mk.inj (some.inj hr)
    exact ⟨SameCore.refl k, h, fun p hp => by cases hp⟩
  | case3 fuel k page hhead hfull ih =>
    obtain ⟨hsame, hlinks⟩ := partialRemove_spec h (h.head c page hhead)
    obtain ⟨hsame', hrest⟩ := ih hlinks hr
    exact ⟨hsame.trans hsame', hrest⟩
  | case4 fuel k page hhead hfull =>
    have hpage := h.head c page hhead
    obtain ⟨hsame, hlinks⟩ := partialRemove_spec h hpage
    obtain ⟨rfl, rfl⟩ := mk.inj (some.inj hr)
    refine ⟨hsame, hlinks, fun p hp => ?_⟩
    obtain rfl : page = p := some.inj hp
    rw [hsame.freelist]
    exact ⟨hsame.owned.2 hpage, hfull⟩

end

lemma partialRemove_first (h : (k.slab i).partialPrev = none) :
    (partialRemove k c i).partialHead c = (k.slab i).partialNext ∧
      ∀ j, ((partialRemove k c i).slab j).partialNext =
        if j = i then none else (k.slab j).partialNext := by
  cases hn : (k.slab i).partialNext with
  | none =>
    refine ⟨by simp [partialRemove, h, hn, Slabs.modify, Slabs.setPartial], fun j => ?_⟩
    by_cases hj : j = i <;> simp [partialRemove, h, hn, Slabs.modify, Slabs.setPartial, hj]
  | some q =>
    refine ⟨by simp [partialRemove, h, hn, Slabs.modify, Slabs.setPartial], fun j => ?_⟩
    by_cases hj : j = i
    · simp [partialRemove, Slabs.modify, hj]
    · rcases eq_or_ne j q with rfl | hq
      · simp [partialRemove, h, hn, Slabs.modify, Slabs.setPartial, hj]
      · simp [partialRemove, h, hn, Slabs.modify, Slabs.setPartial, hj, hq]

lemma partialRemove_inner {q : ℕ} (h : (k.slab i).partialPrev = some q) :
    (partialRemove k c i).partialHead c = k.partialHead c ∧
      ((partialRemove k c i).slab i).partialNext = none ∧
      ((partialRemove k c i).slab i).partialPrev = none := by
  refine ⟨?_, by simp [partialRemove, Slabs.modify], by simp [partialRemove, Slabs.modify]⟩
  simp only [partialRemove, h]
  split <;> rfl

/-- The number of slab pages with a successor: it falls with every page the loop drops from
the front. -/
def linkCount (k : Slabs) : ℕ :=
  (k.slabPages.toFinset.filter fun i => (k.slab i).partialNext ≠ none).card

lemma linkCount_le (k : Slabs) : linkCount k ≤ k.slabPages.length :=
  (Finset.card_filter_le _ _).trans (toFinset_card_le _)

lemma partialPop_isSome_of_none (h : k.partialHead c = none) :
    (partialPop c (fuel + 1) k).isSome := by
  simp [partialPop, h]

/-- The loop over the partial list ends, whatever the links look like. -/
lemma partialPop_isSome (h : LinksInv k) (hfuel : linkCount k + 3 ≤ fuel) :
    (partialPop c fuel k).isSome := by
  induction fuel generalizing k with
  | zero => omega
  | succ fuel ih =>
    cases hhead : k.partialHead c with
    | none => exact partialPop_isSome_of_none hhead
    | some i =>
      have hi := h.head c i hhead
      obtain ⟨hsame, hlinks⟩ := partialRemove_spec h hi
      by_cases hfull : (k.slab i).freelist = 0
      · rw [partialPop, hhead]
        dsimp only
        rw [if_pos hfull]
        obtain ⟨f, rfl⟩ : ∃ f, fuel = f + 2 := ⟨fuel - 2, by omega⟩
        cases hprev : (k.slab i).partialPrev with
        | none =>
          obtain ⟨hhead', hnext'⟩ := partialRemove_first (c := c) hprev
          cases hnext : (k.slab i).partialNext with
          | none => exact partialPop_isSome_of_none (hhead'.trans hnext)
          | some j =>
            refine ih hlinks ?_
            have hlt : linkCount (partialRemove k c i) < linkCount k := by
              refine Finset.card_lt_card ⟨fun a ha => ?_, fun hsub => ?_⟩
              · simp only [Finset.mem_filter, hsame.pages, hnext'] at ha ⊢
                refine ⟨ha.1, fun hnone => ha.2 ?_⟩
                simp [hnone]
              · have hmem := hsub (Finset.mem_filter.2 ⟨by simpa using hi.1, by simp [hnext]⟩)
                simp [hnext'] at hmem
            omega
        | some q =>
          -- the second visit finds no predecessor and no successor
          obtain ⟨hhead', hnext', hprev'⟩ := partialRemove_inner (c := c) hprev
          have hfull' : ((partialRemove k c i).slab i).freelist = 0 := by
            rw [hsame.freelist, hfull]
          obtain ⟨hhead'', -⟩ := partialRemove_first (c := c) hprev'
          rw [partialPop, hhead', hhead]
          dsimp only
          rw [if_pos hfull']
          exact partialPop_isSome_of_none (hhead''.trans hnext')
      · rw [partialPop, hhead]
        simp [hfull]

/-! ## Objects -/

lemma pageData_apart (h : i ≠ j) :
    pageData i + pageSize ≤ pageData j ∨ pageData j + pageSize ≤ pageData i := by
  unfold pageData pageSize
  omega

lemma objCount_bounds (K : Caches) (c : ℕ) :
    2 ≤ pageSize / K.objSize c ∧ pageSize / K.objSize c ≤ 512 := by
  have h1 := K.room c
  have h2 := K.two c
  refine ⟨?_, ?_⟩
  · rw [le_div_iff_mul_le (by omega)]
    omega
  · calc pageSize / K.objSize c ≤ pageSize / 8 := div_le_div_left h1 (by norm_num)
      _ = 512 := rfl

/-- Changing core fields of one page keeps the links. -/
lemma LinksInv.core_modify (h : LinksInv k)
    (hc : ∀ p, (f p).cache = p.cache) (hn : ∀ p, (f p).partialNext = p.partialNext)
    (hp : ∀ p, (f p).partialPrev = p.partialPrev) : LinksInv (k.modify i f) :=
  h.modify hc (fun j hi hj => h.next i j hi ((hn _).symm.trans hj))
    fun j hi hj => h.prev i j hi ((hp _).symm.trans hj)

lemma takeObj_snd (k : Slabs) (i : ℕ) :
    (takeObj k i).2 = k.modify i fun pg => { pg with
      freelist := readLE k.bytes 8 (k.slab i).freelist
      inuse := (pg.inuse + 1) % 2 ^ 32 } := rfl

/-- Taking an object off the free list of a page that has one: the object was held by
nobody. -/
lemma takeObj_spec (h : SlabsInv K k held) (hi : i ∈ k.slabPages)
    (hne : (k.slab i).freelist ≠ 0) :
    (takeObj k i).1 ∉ held ∧ SlabsInv K (takeObj k i).2 ((takeObj k i).1 :: held) := by
  obtain ⟨hi24, hst, hcount, hused, xs, hch, hnd, hxs, hlen⟩ := h.page i hi
  cases xs with
  | nil => exact absurd hch hne
  | cons x xs =>
    obtain ⟨hx, -, hrest⟩ := hch
    obtain ⟨hxslot, hxheld⟩ := hxs x (by simp)
    have hbounds := objCount_bounds K (k.slab i).cache
    have huse : ((k.slab i).inuse + 1) % 2 ^ 32 = (k.slab i).inuse + 1 := by
      omega
    set k' := (takeObj k i).2 with hk'
    have hobj : (takeObj k i).1 = x := hx
    have hother : ∀ j, j ≠ i → k'.slab j = k.slab j := fun j hj => if_neg hj
    have hself : k'.slab i = { k.slab i with
        freelist := readLE k.bytes 8 x, inuse := (k.slab i).inuse + 1 } := by
      simp only [hk', takeObj, Slabs.modify, if_true, hx, huse]
    have hcache : ∀ j, (k'.slab j).cache = (k.slab j).cache := by
      rw [hk', takeObj_snd]
      exact cache_modify fun _ => rfl
    rw [hobj]
    refine ⟨hxheld, ⟨nodup_cons.2 ⟨hxheld, h.nodup⟩, ?_, ?_, ?_⟩⟩
    · intro y hy
      rw [hcache]
      rcases mem_cons.1 hy with rfl | hy
      · rw [hxslot.pageOf_eq]
        exact ⟨hi, hxslot⟩
      · exact h.slot y hy
    · intro j hj
      refine ⟨(h.page j hj).1, ?_⟩
      by_cases hji : j = i
      · subst hji
        refine ⟨hst, ?_, ?_, xs, ?_, hnd.of_cons, fun y hy => ?_, ?_⟩
        · rw [hself]
          exact hcount
        · simp [hself, hxslot.pageOf_eq, hused]
        · rw [hself]
          exact hrest
        · rw [hself]
          obtain ⟨h1, h2⟩ := hxs y (by simp [hy])
          refine ⟨h1, not_mem_cons_of_ne_of_not_mem ?_ h2⟩
          rintro rfl
          exact (nodup_cons.1 hnd).1 hy
        · rw [hself]
          simp only [length_cons] at hlen
          dsimp only
          omega
      · -- the other pages see neither the object nor the change
        have hpx : pageOf x ≠ j := fun hp => hji (hp.symm.trans hxslot.pageOf_eq)
        refine (h.page j hj).2.frame rfl (by rw [hother j hji]) (fun _ _ _ => rfl) (by simp [hpx])
          fun y hy hmem => ?_
        exact (mem_cons.1 hmem).resolve_left fun hyx => hpx (hyx ▸ hy)
    · rw [hk', takeObj_snd]
      exact h.links.core_modify (fun _ => rfl) (fun _ => rfl) fun _ => rfl

lemma Chain.head_cases {bytes : ℕ → ℕ} {p : ℕ} {xs : List ℕ} (h : Chain bytes p xs) :
    p = 0 ∨ p ∈ xs := by
  cases xs with
  | nil => exact .inl h
  | cons x xs => exact .inr (by simp [h.1])

/-- Putting a held object back on the free list of its page. -/
def pushObj (k : Slabs) (obj : ℕ) : Slabs :=
  ({ k with bytes := writeLE k.bytes 8 obj (k.slab (pageOf obj)).freelist } : Slabs).modify
    (pageOf obj) fun pg => { pg with freelist := obj, inuse := (pg.inuse + (2 ^ 32 - 1)) % 2 ^ 32 }

lemma freeObj_eq (k : Slabs) (c obj : ℕ) :
    freeObj k c obj =
      if ((pushObj k obj).slab (pageOf obj)).inuse =
          ((pushObj k obj).slab (pageOf obj)).objCount - 1 then
        partialAdd (pushObj k obj) c (pageOf obj)
      else pushObj k obj := rfl

lemma pushObj_cache (k : Slabs) (x j : ℕ) : ((pushObj k x).slab j).cache = (k.slab j).cache := by
  rw [pushObj, cache_modify]
  exact fun _ => rfl

section

variable (h : SlabsInv K k held)
include h

lemma pushObj_spec (hx : x ∈ held) : SlabsInv K (pushObj k x) (held.erase x) := by
  obtain ⟨hi, hxslot⟩ := h.slot x hx
  set i := pageOf x with hidef
  obtain ⟨hi24, hst, hcount, hused, xs, hch, hnd, hxs, hlen⟩ := h.page i hi
  have hbounds := objCount_bounds K (k.slab i).cache
  have hperm := perm_cons_erase hx
  -- the object is one of those `inuse` counts
  have hfilter : (held.filter fun y => pageOf y = i).length =
      ((held.erase x).filter fun y => pageOf y = i).length + 1 := by
    rw [(hperm.filter _).length_eq]
    simp [← hidef]
  have huse : ((k.slab i).inuse + (2 ^ 32 - 1)) % 2 ^ 32 = (k.slab i).inuse - 1 := by omega
  set k' := pushObj k x with hk'
  have hother : ∀ j, j ≠ i → k'.slab j = k.slab j := fun j hj => if_neg hj
  have hself : k'.slab i = { k.slab i with freelist := x, inuse := (k.slab i).inuse - 1 } := by
    simp only [hk', pushObj, Slabs.modify, ← hidef, if_true, huse]
  have hcache := pushObj_cache k x
  have hptr : (k.slab i).freelist < 256 ^ 8 := by
    rcases hch.head_cases with h0 | hmem
    · rw [h0]
      norm_num
    · exact ((hxs _ hmem).1.ptr hi24).2
  obtain ⟨hx1, hx2, hx3⟩ := hxslot.inside
  -- the write is seen by no other free slot
  have hread : ∀ y, y + 8 ≤ x ∨ x + 8 ≤ y → readLE k'.bytes 8 y = readLE k.bytes 8 y :=
    fun y hy => readLE_writeLE_of_apart hy
  refine ⟨h.nodup.erase x, ?_, ?_, ?_⟩
  · intro y hy
    rw [hcache]
    exact h.slot y (mem_of_mem_erase hy)
  · intro j hj
    refine ⟨(h.page j hj).1, ?_⟩
    by_cases hji : j = i
    · subst hji
      refine ⟨hst, ?_, ?_, x :: xs, ⟨?_, (hxslot.ptr hi24).1, ?_⟩, ?_, ?_, ?_⟩
      · rw [hself]
        exact hcount
      · rw [hself]
        dsimp only
        omega
      · rw [hself]
      · have hrx : readLE k'.bytes 8 x = (k.slab (pageOf x)).freelist := readLE_writeLE hptr
        rw [hrx]
        refine hch.congr fun y hy => hread y ?_
        have hne : y ≠ x := fun hyx => (hxs y hy).2 (hyx ▸ hx)
        have := (hxs y hy).1.apart hxslot hne
        omega
      · exact nodup_cons.2 ⟨fun hmem => (hxs x hmem).2 hx, hnd⟩
      · intro y hy
        rw [hself]
        rcases mem_cons.1 hy with rfl | hy
        · exact ⟨hxslot, h.nodup.not_mem_erase⟩
        · exact ⟨(hxs y hy).1, fun hmem => (hxs y hy).2 (mem_of_mem_erase hmem)⟩
      · rw [hself, length_cons]
        dsimp only
        omega
    · refine (h.page j hj).2.frame rfl (by rw [hother j hji]) (fun y hy _ => hread y ?_) ?_
        fun _ _ => mem_of_mem_erase
      · obtain ⟨hy1, hy2, hy3⟩ := hy.inside
        have := pageData_apart hji
        omega
      · have hpx : pageOf x ≠ j := fun hp => hji (hp.symm.trans hidef.symm)
        rw [(hperm.filter _).length_eq]
        simp [hpx]
  · have hlinks : LinksInv { k with bytes := k'.bytes } :=
      { h.links with }
    rw [hk', pushObj]
    exact hlinks.core_modify (fun _ => rfl) (fun _ => rfl) fun _ => rfl

lemma freeObj_spec (hx : x ∈ held) :
    SlabsInv K (freeObj k (k.slab (pageOf x)).cache x) (held.erase x) := by
  have hpush := pushObj_spec h hx
  obtain ⟨hi, -⟩ := h.slot x hx
  have howned : Owned (pushObj k x) (k.slab (pageOf x)).cache (pageOf x) :=
    ⟨hi, pushObj_cache k x _⟩
  rw [freeObj_eq]
  split_ifs
  · obtain ⟨hsame, hlinks⟩ := partialAdd_spec hpush.links howned
    exact hpush.of_sameCore hsame hlinks
  · exact hpush

lemma SlabsInv.of_mem {m : Mem}
    (hst : ∀ i ∈ k.slabPages, (m.bfcFrames i).status = (k.mem.bfcFrames i).status) :
    SlabsInv K { k with mem := m } held :=
  ⟨h.nodup, h.slot, fun i hi =>
    ⟨(h.page i hi).1, (h.page i hi).2.congr (hst i hi) rfl fun _ _ _ => rfl⟩,
    { h.links with }⟩

/-- A page that is made a slab page: all its slots are free. -/
lemma slabPageInit_spec (hfresh : i ∉ k.slabPages) (hi : i < 2 ^ 24)
    (cpuId : ℤ) :
    SlabsInv K (slabPageInit K k i c cpuId) held ∧
      ((slabPageInit K k i c cpuId).slab i).freelist ≠ 0 := by
  set n := pageSize / K.objSize c with hn
  obtain ⟨hchain, hframe⟩ := buildFreelist_spec (c := c) K k.bytes hi (n := n) le_rfl
  have hbounds := objCount_bounds K c
  set k' := slabPageInit K k i c cpuId with hk'
  have hself : k'.slab i = ⟨c, (buildFreelist K c i k.bytes n).2, 0, n, cpuId, none, none⟩ :=
    if_pos rfl
  have hother : ∀ j, j ≠ i → k'.slab j = k.slab j := fun j hj => if_neg hj
  have hpages : k'.slabPages = i :: k.slabPages := rfl
  have hbytes : k'.bytes = (buildFreelist K c i k.bytes n).1 := rfl
  have hold : ∀ j ∈ k.slabPages, j ≠ i := fun j hj hji => hfresh (hji ▸ hj)
  have howned : ∀ d j, Owned k d j → Owned k' d j := fun d j hj => by
    refine ⟨by simp [hpages, hj.1], ?_⟩
    rw [hother j (hold j hj.1)]
    exact hj.2
  have hnoheld : ∀ x ∈ held, pageOf x ≠ i := fun x hx => hold _ (h.slot x hx).1
  refine ⟨⟨h.nodup, fun x hx => ?_, fun j hj => ?_, ?_⟩, ?_⟩
  · obtain ⟨h1, h2⟩ := h.slot x hx
    rw [hother _ (hnoheld x hx)]
    exact ⟨by simp [hpages, h1], h2⟩
  · rcases mem_cons.1 hj with rfl | hj
    · refine ⟨hi, ?_, ?_, ?_, slots K c j n, ?_, nodup_slots n, fun x hx => ?_, ?_⟩
      · simp [hk', slabPageInit]
      · rw [hself]
      · rw [hself]
        symm
        simpa using hnoheld
      · rw [hself, hbytes]
        exact hchain
      · rw [hself]
        have hslot : IsSlot K c j x := mem_slots.1 hx
        exact ⟨hslot, fun hmem => hnoheld x hmem hslot.pageOf_eq⟩
      · rw [hself]
        simp [slots]
    · obtain ⟨hj24, hpage⟩ := h.page j hj
      have hji := hold j hj
      refine ⟨hj24, hpage.congr ?_ (by rw [hother j hji]) fun x hx _ => ?_⟩
      · simp [hk', slabPageInit, hji]
      · obtain ⟨hx1, hx2, hx3⟩ := hx.inside
        have := pageData_apart hji
        exact hframe x (by omega)
  · refine ⟨fun d j hj => howned d j (h.links.head d j hj), fun a j ha hj => ?_,
      fun a j ha hj => ?_, fun cpu d j hj => howned d j (h.links.active cpu d j hj)⟩
    · rcases mem_cons.1 ha with rfl | ha
      · rw [hself] at hj
        cases hj
      · rw [hother a (hold a ha)] at hj ⊢
        exact howned _ j (h.links.next a j ha hj)
    · rcases mem_cons.1 ha with rfl | ha
      · rw [hself] at hj
        cases hj
      · rw [hother a (hold a ha)] at hj ⊢
        exact howned _ j (h.links.prev a j ha hj)
  · rw [hself]
    -- the list of slots is not empty, so its head is a slot
    obtain ⟨n', hn'⟩ : ∃ n', n = n' + 1 := ⟨n - 1, by omega⟩
    rw [hn', slots_succ] at hchain
    rw [hn', hchain.1]
    exact hchain.2.1

lemma SlabsInv.setActive (hi : Owned k c i) (cpu : ℕ) : SlabsInv K (k.setActive cpu c i) held := by
  refine ⟨h.nodup, h.slot, fun j hj => ⟨(h.page j hj).1, (h.page j hj).2.congr rfl rfl
    fun _ _ _ => rfl⟩, h.links.head, h.links.next, h.links.prev, fun cpu' d j hj => ?_⟩
  simp only [Slabs.setActive] at hj
  split_ifs at hj with hcd
  · obtain rfl : i = j := some.inj hj
    rw [hcd.2]
    exact hi
  · exact h.links.active cpu' d j hj

lemma SlabsInv.setCpuId (cpu : ℕ) :
    SlabsInv K (k.modify i fun pg => { pg with cpuId := cpu }) held :=
  h.of_sameCore (sameCore_modify fun _ => rfl)
    (h.links.core_modify (fun _ => rfl) (fun _ => rfl) fun _ => rfl)

end

end XosKernel.Slab
