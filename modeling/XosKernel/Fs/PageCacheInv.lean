/-
# Who owns a page of the cache

A page is on the free list with no pin, or cached, or detached and pinned, and the pins of a page
are its outstanding references. Every operation of the cache touches the lists for one page at
a time, so it is enough to look at that page (`Good.frame`).
-/
import XosKernel.Fs.PageCache

namespace XosKernel.PageCache

open List Option Function

namespace Cache

variable {c c' : Cache} {p q : ℕ}

def FreeAt (c : Cache) (p : ℕ) : Prop :=
  p ∈ c.free ∧ p ∉ c.lru ∧ (∀ b, p ∉ c.hash b) ∧ (c.page p).pinCount = 0

def CachedAt (c : Cache) (p : ℕ) : Prop :=
  p ∉ c.free ∧ p ∈ c.lru ∧ (∀ b, p ∈ c.hash b ↔ b = (c.page p).bucket) ∧
    (c.page p).flags.invalid = false ∧ (c.page p).data = true

def DetachedAt (c : Cache) (p : ℕ) : Prop :=
  p ∉ c.free ∧ p ∉ c.lru ∧ (∀ b, p ∉ c.hash b) ∧ 0 < (c.page p).pinCount ∧
    (c.page p).flags.invalid = true

def OwnedAt (c : Cache) (p : ℕ) : Prop := c.FreeAt p ∨ c.CachedAt p ∨ c.DetachedAt p

def key (c : Cache) (p : ℕ) : ℕ × ℕ := ((c.page p).inode, (c.page p).pageIndex)

structure Nodups (c : Cache) : Prop where
  free : c.free.Nodup
  lru : c.lru.Nodup
  hash : ∀ b, (c.hash b).Nodup

/-- The cache has the pages below `size`, and `refs` are their outstanding references. -/
structure Good (c : Cache) (size : ℕ) (refs : ℕ → ℕ) : Prop where
  nodups : c.Nodups
  owned : ∀ p, p < size → c.OwnedAt p
  free_lt : ∀ p ∈ c.free, p < size
  lru_lt : ∀ p ∈ c.lru, p < size
  hash_lt : ∀ b, ∀ p ∈ c.hash b, p < size
  unique : ∀ p ∈ c.lru, ∀ q ∈ c.lru, c.key p = c.key q → p = q
  pins : ∀ p, (c.page p).pinCount = refs p
  refs_lt : ∀ p, 0 < refs p → p < size

structure Frame (c c' : Cache) (p : ℕ) : Prop where
  page : ∀ q, q ≠ p → c'.page q = c.page q
  free : ∀ q, q ≠ p → (q ∈ c'.free ↔ q ∈ c.free)
  lru : ∀ q, q ≠ p → (q ∈ c'.lru ↔ q ∈ c.lru)
  hash : ∀ q, q ≠ p → ∀ b, q ∈ c'.hash b ↔ q ∈ c.hash b

lemma Frame.trans {c'' : Cache} (h : Frame c c' p) (h' : Frame c' c'' p) : Frame c c'' p where
  page q hq := (h'.page q hq).trans (h.page q hq)
  free q hq := (h'.free q hq).trans (h.free q hq)
  lru q hq := (h'.lru q hq).trans (h.lru q hq)
  hash q hq b := (h'.hash q hq b).trans (h.hash q hq b)

lemma Frame.ownedAt (h : Frame c c' p) (hq : q ≠ p) (ho : c.OwnedAt q) : c'.OwnedAt q := by
  simpa only [OwnedAt, FreeAt, CachedAt, DetachedAt, h.page q hq, h.free q hq, h.lru q hq,
    h.hash q hq] using ho

variable {b ip index : ℕ} {x : Page}

section Good

variable {size : ℕ} {refs refs' : ℕ → ℕ}

section

variable (h : c.Good size refs)
include h

/-- A change at one page keeps the cache good if that page is right afterwards. -/
lemma Good.frame (hf : Frame c c' p) (hlt : p < size) (hn : c'.Nodups)
    (ho : c'.OwnedAt p) (hkey : p ∈ c'.lru → ∀ q ∈ c.lru, q ≠ p → c.key q ≠ c'.key p)
    (hpin : (c'.page p).pinCount = refs' p) (hrefs : ∀ q, q ≠ p → refs' q = refs q) :
    c'.Good size refs' where
  nodups := hn
  owned q hq := by
    by_cases hqp : q = p
    · exact hqp ▸ ho
    · exact hf.ownedAt hqp (h.owned q hq)
  free_lt q hq := by
    by_cases hqp : q = p
    · exact hqp ▸ hlt
    · exact h.free_lt q ((hf.free q hqp).1 hq)
  lru_lt q hq := by
    by_cases hqp : q = p
    · exact hqp ▸ hlt
    · exact h.lru_lt q ((hf.lru q hqp).1 hq)
  hash_lt b q hq := by
    by_cases hqp : q = p
    · exact hqp ▸ hlt
    · exact h.hash_lt b q ((hf.hash q hqp b).1 hq)
  unique q hq r hr hqr := by
    have hsame : ∀ x, x ≠ p → c'.key x = c.key x := fun x hx => by
      rw [key, key, hf.page x hx]
    by_cases hqp : q = p
    · subst hqp
      by_contra hne
      have hrq : r ≠ q := fun e => hne e.symm
      exact hkey hq r ((hf.lru r hrq).1 hr) hrq ((hsame r hrq).symm.trans hqr.symm)
    · by_cases hrp : r = p
      · subst hrp
        exact absurd ((hsame q hqp).symm.trans hqr) (hkey hr q ((hf.lru q hqp).1 hq) hqp)
      · rw [hsame q hqp, hsame r hrp] at hqr
        exact h.unique q ((hf.lru q hqp).1 hq) r ((hf.lru r hrp).1 hr) hqr
  pins q := by
    by_cases hqp : q = p
    · exact hqp ▸ hpin
    · rw [hf.page q hqp, hrefs q hqp, h.pins q]
  refs_lt q hq := by
    by_cases hqp : q = p
    · exact hqp ▸ hlt
    · exact h.refs_lt q (hrefs q hqp ▸ hq)

lemma Good.congr (hrefs : ∀ p, refs' p = refs p) : c.Good size refs' := by
  rw [funext hrefs]
  exact h

lemma Good.not_free (hp : 0 < refs p) : ¬ c.FreeAt p := by
  intro hfree
  have hpin := h.pins p
  rw [hfree.2.2.2] at hpin
  omega

lemma Good.cached_of_mem_lru (hp : p ∈ c.lru) : c.CachedAt p := by
  rcases h.owned p (h.lru_lt p hp) with ho | ho | ho
  · exact absurd hp ho.2.1
  · exact ho
  · exact absurd hp ho.2.1

lemma Good.cached_of_mem_hash (hp : p ∈ c.hash b) : c.CachedAt p := by
  rcases h.owned p (h.hash_lt b p hp) with ho | ho | ho
  · exact absurd hp (ho.2.2.1 b)
  · exact ho
  · exact absurd hp (ho.2.2.1 b)

lemma Good.free_of_mem (hp : p ∈ c.free) : c.FreeAt p := by
  rcases h.owned p (h.free_lt p hp) with ho | ho | ho
  · exact ho
  · exact absurd hp ho.1
  · exact absurd hp ho.1

end

end Good

/-! ## The operations at one page -/

lemma frame_setPage (x : Page) : Frame c (c.setPage p x) p where
  page _ hq := update_of_ne hq ..
  free _ _ := Iff.rfl
  lru _ _ := Iff.rfl
  hash _ _ _ := Iff.rfl

@[simp] lemma setPage_page_self (x : Page) : (c.setPage p x).page p = x := update_self ..

@[simp] lemma setPage_free (x : Page) : (c.setPage p x).free = c.free := rfl

@[simp] lemma setPage_lru (x : Page) : (c.setPage p x).lru = c.lru := rfl

@[simp] lemma setPage_hash (x : Page) : (c.setPage p x).hash = c.hash := rfl

lemma Nodups.setPage (h : c.Nodups) (x : Page) : (c.setPage p x).Nodups := ⟨h.free, h.lru, h.hash⟩

lemma frame_freeListPush : Frame c (c.freeListPush p) p where
  page _ _ := rfl
  free _ hq := mem_cons.trans (or_iff_right hq)
  lru _ _ := Iff.rfl
  hash _ _ _ := Iff.rfl

lemma unlink_hash_self : (c.unlink p).hash (c.page p).bucket = (c.hash (c.page p).bucket).erase p :=
  update_self ..

lemma unlink_hash_of_ne (h : b ≠ (c.page p).bucket) : (c.unlink p).hash b = c.hash b :=
  update_of_ne h ..

lemma frame_unlink : Frame c (c.unlink p) p where
  page _ _ := rfl
  free _ _ := Iff.rfl
  lru _ hq := mem_erase_of_ne hq
  hash q hq b := by
    by_cases hb : b = (c.page p).bucket
    · subst hb
      rw [unlink_hash_self, mem_erase_of_ne hq]
    · rw [unlink_hash_of_ne hb]

lemma Nodups.unlink (h : c.Nodups) : (c.unlink p).Nodups where
  free := h.free
  lru := h.lru.erase p
  hash b := by
    by_cases hb : b = (c.page p).bucket
    · subst hb
      rw [unlink_hash_self]
      exact (h.hash _).erase p
    · rw [unlink_hash_of_ne hb]
      exact h.hash b

lemma unlink_gone (h : c.Nodups) (ho : c.CachedAt p ∨ c.DetachedAt p) :
    p ∉ (c.unlink p).free ∧ p ∉ (c.unlink p).lru ∧ ∀ b, p ∉ (c.unlink p).hash b := by
  refine ⟨ho.elim (·.1) (·.1), h.lru.not_mem_erase, fun b => ?_⟩
  by_cases hb : b = (c.page p).bucket
  · subst hb
    rw [unlink_hash_self]
    exact (h.hash _).not_mem_erase
  · rw [unlink_hash_of_ne hb]
    rcases ho with ho | ho
    · exact fun hp => hb ((ho.2.2.1 b).1 hp)
    · exact ho.2.2.1 b

lemma frame_discard : Frame c (c.discard p) p := (frame_setPage _).trans frame_freeListPush

lemma discard_freeAt (hlru : p ∉ c.lru) (hhash : ∀ b, p ∉ c.hash b)
    (hpin : (c.page p).pinCount = 0) : (c.discard p).FreeAt p :=
  ⟨mem_cons_self .., hlru, hhash, by
    change ((c.setPage p _).page p).pinCount = 0
    rw [setPage_page_self]
    exact hpin⟩

lemma Nodups.discard (h : c.Nodups) (hp : p ∉ c.free) : (c.discard p).Nodups :=
  ⟨nodup_cons.2 ⟨hp, h.free⟩, h.lru, h.hash⟩

/-! ## The operations keep the cache good -/

section Operations

variable {size : ℕ} {refs refs' : ℕ → ℕ}

/-- The two pages are hashed alike. -/
structure SameHome (x y : Page) : Prop where
  inode : x.inode = y.inode
  pageIndex : x.pageIndex = y.pageIndex
  data : x.data = y.data
  invalid : x.flags.invalid = y.flags.invalid

/-- The two pages are the same as far as ownership goes. -/
structure SameOwner (x y : Page) : Prop extends SameHome x y where
  pinCount : x.pinCount = y.pinCount

lemma CachedAt.setPage (h : c.CachedAt p) (hx : SameHome x (c.page p)) :
    (c.setPage p x).CachedAt p := by
  obtain ⟨hfree, hlru, hhash, hinv, hdata⟩ := h
  refine ⟨hfree, hlru, fun b => ?_, ?_, ?_⟩ <;> rw [setPage_page_self]
  · rw [setPage_hash, hhash b, Page.bucket, Page.bucket, hx.inode, hx.pageIndex]
  · rw [hx.invalid, hinv]
  · rw [hx.data, hdata]

lemma key_setPage (hx : SameHome x (c.page p)) : (c.setPage p x).key p = c.key p := by
  rw [key, key, setPage_page_self, hx.inode, hx.pageIndex]

lemma setPage_of_sameOwner (hx : SameOwner x (c.page p)) (q : ℕ) :
    SameOwner ((c.setPage p x).page q) (c.page q) := by
  by_cases hq : q = p
  · subst hq
    rw [setPage_page_self]
    exact hx
  · rw [(frame_setPage x).page q hq]
    exact ⟨⟨rfl, rfl, rfl, rfl⟩, rfl⟩

section

variable (h : c.Good size refs)
include h

lemma Good.setPage (hx : SameOwner x (c.page p)) : (c.setPage p x).Good size refs where
  __ := h
  nodups := h.nodups.setPage x
  owned q hq := by
    have hsame := setPage_of_sameOwner hx q
    simpa only [OwnedAt, FreeAt, CachedAt, DetachedAt, Page.bucket, hsame.inode, hsame.pageIndex,
      hsame.data, hsame.pinCount, hsame.invalid, setPage_free, setPage_lru, setPage_hash]
      using h.owned q hq
  unique q hq r hr hqr := by
    have hkey : ∀ q, (c.setPage p x).key q = c.key q := fun q => by
      have hsame := setPage_of_sameOwner hx q
      rw [key, key, hsame.inode, hsame.pageIndex]
    rw [hkey, hkey] at hqr
    exact h.unique q hq r hr hqr
  pins q := by rw [(setPage_of_sameOwner hx q).pinCount, h.pins q]

lemma Good.key_ne (hp : p ∈ c.lru) : ∀ q ∈ c.lru, q ≠ p → c.key q ≠ c.key p :=
  fun q hq hne heq => hne (h.unique q hq p hp heq)

lemma Good.pin (hp : c.CachedAt p) (hinc : refs' p = refs p + 1)
    (hrefs : ∀ q, q ≠ p → refs' q = refs q) : (c.pin p).Good size refs' := by
  have hhome : SameHome { c.page p with pinCount := (c.page p).pinCount + 1 } (c.page p) :=
    ⟨rfl, rfl, rfl, rfl⟩
  rw [Cache.pin]
  refine h.frame (frame_setPage _) (h.lru_lt p hp.2.1) (h.nodups.setPage _)
    (.inr (.inl (hp.setPage hhome))) (fun _ q hq hne => ?_) ?_ hrefs
  · rw [key_setPage hhome]
    exact h.key_ne hp.2.1 q hq hne
  · rw [setPage_page_self, hinc]
    have := h.pins p
    push_cast
    omega

lemma Good.lruTouch (hp : p ∈ c.lru) : (c.lruTouch p).Good size refs := by
  have hmem : ∀ q, q ∈ p :: c.lru.erase p ↔ q ∈ c.lru := fun q =>
    (perm_cons_erase hp).symm.mem_iff
  refine ⟨⟨h.nodups.free, (perm_cons_erase hp).nodup_iff.1 h.nodups.lru, h.nodups.hash⟩,
    fun q hq => ?_, h.free_lt, fun q hq => h.lru_lt q ((hmem q).1 hq), h.hash_lt,
    fun q hq r hr => h.unique q ((hmem q).1 hq) r ((hmem r).1 hr), h.pins, h.refs_lt⟩
  have ho := h.owned q hq
  simp only [OwnedAt, FreeAt, CachedAt, DetachedAt, Cache.lruTouch, hmem] at ho ⊢
  exact ho

omit h in
lemma Frame.cachedAt (h : Frame c c' p) (hq : q ≠ p) (ho : c.CachedAt q) : c'.CachedAt q := by
  simpa only [CachedAt, h.page q hq, h.free q hq, h.lru q hq, h.hash q hq] using ho

omit h in
lemma CachedAt.pin (h : c.CachedAt q) : (c.pin p).CachedAt q := by
  by_cases hq : q = p
  · subst hq
    exact h.setPage ⟨rfl, rfl, rfl, rfl⟩
  · exact (frame_setPage _).cachedAt hq h

omit h in
lemma Good.pinAll (ps : List ℕ) (h : c.Good size refs) (hps : ∀ p ∈ ps, c.CachedAt p) :
    (ps.foldl Cache.pin c).Good size fun p => refs p + ps.count p := by
  induction ps generalizing c refs with
  | nil => exact h
  | cons p ps ih =>
    have hpin : (c.pin p).Good size fun q => refs q + [p].count q := by
      refine h.pin (hps p (mem_cons_self ..)) ?_ fun q hq => ?_
      · rw [count_singleton_self]
      · rw [count_singleton, if_neg (by simpa using hq.symm), add_zero]
    refine (ih hpin fun q hq => (hps q (mem_cons_of_mem _ hq)).pin).congr fun q => ?_
    rw [← singleton_append, count_append]
    omega

lemma Good.unhashLocked (hp : 0 < refs p) : (c.unhashLocked p).Good size refs := by
  have hlt := h.refs_lt p hp
  have ho := (h.owned p hlt).resolve_left (h.not_free hp)
  obtain ⟨hfree, hlru, hhash⟩ := unlink_gone h.nodups ho
  have hpin := h.pins p
  refine h.frame (frame_unlink.trans (frame_setPage _)) hlt (h.nodups.unlink.setPage _)
    (.inr (.inr ⟨hfree, hlru, hhash, ?_, ?_⟩)) (fun hmem => absurd hmem hlru) ?_ fun _ _ => rfl
  · rw [Cache.unhashLocked, setPage_page_self]
    change 0 < (c.page p).pinCount
    omega
  · rw [Cache.unhashLocked, setPage_page_self]
  · rw [Cache.unhashLocked, setPage_page_self]
    exact hpin

lemma Good.finishFill (hp : 0 < refs p) (rc : Option Errno) :
    (c.finishFill p rc).Good size refs := by
  cases rc with
  | none => exact h.setPage ⟨⟨rfl, rfl, rfl, rfl⟩, rfl⟩
  | some e =>
    refine Good.unhashLocked (Good.setPage h ?_) hp
    exact ⟨⟨rfl, rfl, rfl, rfl⟩, rfl⟩

lemma Good.unlink_discard (hp : c.CachedAt p)
    (hpin : (c.page p).pinCount = 0) (hx : x.pinCount = 0) :
    (((c.unlink p).setPage p x).discard p).Good size refs := by
  obtain ⟨hfree, hlru, hhash⟩ := unlink_gone h.nodups (.inl hp)
  have hfreeAt : (((c.unlink p).setPage p x).discard p).FreeAt p := by
    refine discard_freeAt hlru hhash ?_
    rw [setPage_page_self]
    exact hx
  refine h.frame ((frame_unlink.trans (frame_setPage x)).trans frame_discard)
    (h.lru_lt p hp.2.1) ((h.nodups.unlink.setPage x).discard hfree) (.inl hfreeAt)
    (fun hmem => absurd hmem hfreeAt.2.1) ?_ fun _ _ => rfl
  rw [hfreeAt.2.2.2, ← h.pins p, hpin]

lemma Good.invalidatePage (hp : c.CachedAt p) : (c.invalidatePage p).Good size refs := by
  have hpage : ((c.unhashLocked p).page p).pinCount = (c.page p).pinCount := by
    rw [Cache.unhashLocked, setPage_page_self]
    rfl
  rw [Cache.invalidatePage]
  by_cases hpin : (c.page p).pinCount = 0
  · rw [if_pos (hpage.trans hpin)]
    exact h.unlink_discard hp hpin (x := _) hpin
  · rw [if_neg fun h0 => hpin (hpage.symm.trans h0)]
    have := h.pins p
    exact h.unhashLocked (by omega)

omit h in
lemma frame_invalidatePage : Frame c (c.invalidatePage p) p := by
  rw [Cache.invalidatePage]
  split_ifs
  · exact (frame_unlink.trans (frame_setPage _)).trans frame_discard
  · exact frame_unlink.trans (frame_setPage _)

omit h in
lemma Good.invalidatePages (ps : List ℕ) (h : c.Good size refs) (hps : ∀ p ∈ ps, c.CachedAt p)
    (hn : ps.Nodup) : (ps.foldl Cache.invalidatePage c).Good size refs := by
  induction ps generalizing c with
  | nil => exact h
  | cons p ps ih =>
    obtain ⟨hp, hn⟩ := nodup_cons.1 hn
    refine ih (h.invalidatePage (hps p (mem_cons_self ..))) (fun q hq => ?_) hn
    exact frame_invalidatePage.cachedAt (fun e => hp (e ▸ hq)) (hps q (mem_cons_of_mem _ hq))

lemma Good.cached_of_mem_chains (hp : p ∈ c.chains) : c.CachedAt p := by
  obtain ⟨b, _, hb⟩ := mem_flatMap.1 hp
  exact h.cached_of_mem_hash hb

lemma Good.nodup_chains : c.chains.Nodup := by
  refine nodup_flatMap.2 ⟨fun b _ => h.nodups.hash b, ?_⟩
  refine nodup_range.imp fun {b b'} hne => ?_
  intro p hb hb'
  have hcached := h.cached_of_mem_hash hb
  exact hne (((hcached.2.2.1 b).1 hb).trans ((hcached.2.2.1 b').1 hb').symm)

lemma Good.invalidateInode (ip : ℕ) : (c.invalidateInode ip).Good size refs :=
  h.invalidatePages _ (fun _ hp => h.cached_of_mem_chains (mem_filter.1 hp).1)
    (h.nodup_chains.filter _)

lemma Good.release (hdec : refs p = refs' p + 1)
    (hrefs : ∀ q, q ≠ p → refs' q = refs q) : (c.release p).Good size refs' := by
  have hlt := h.refs_lt p (by omega)
  have ho := (h.owned p hlt).resolve_left (h.not_free (by omega))
  have hpin := h.pins p
  rw [Cache.release]
  simp only [setPage_page_self]
  split
  next hlast =>
    have hgone : c.DetachedAt p := by
      refine ho.resolve_left fun hc => ?_
      rw [hc.2.2.2.1] at hlast
      exact Bool.false_ne_true hlast.2
    have hfreeAt := discard_freeAt (c := c.setPage p { c.page p with
      pinCount := (c.page p).pinCount - 1 }) hgone.2.1 hgone.2.2.1 (by
        rw [setPage_page_self]
        exact hlast.1)
    refine h.frame ((frame_setPage _).trans frame_discard) hlt
      ((h.nodups.setPage _).discard hgone.1) (.inl hfreeAt) (fun hmem => absurd hmem hfreeAt.2.1)
      ?_ hrefs
    rw [hfreeAt.2.2.2]
    omega
  next hlast =>
    have hhome : SameHome { c.page p with pinCount := (c.page p).pinCount - 1 } (c.page p) :=
      ⟨rfl, rfl, rfl, rfl⟩
    refine h.frame (frame_setPage _) hlt (h.nodups.setPage _) (.inr ?_)
      (fun hmem q hq hne => ?_) ?_ hrefs
    · rcases ho with ho | ⟨hfree, hlru, hhash, hpos, hinv⟩
      · exact .inl (ho.setPage hhome)
      · refine .inr ⟨hfree, hlru, hhash, ?_, ?_⟩ <;> rw [setPage_page_self]
        · have : (c.page p).pinCount - 1 ≠ 0 := fun h0 => hlast ⟨h0, hinv⟩
          change 0 < (c.page p).pinCount - 1
          omega
        · exact hinv
    · rw [key_setPage hhome]
      exact h.key_ne hmem q hq hne
    · rw [setPage_page_self]
      change (c.page p).pinCount - 1 = refs' p
      omega

/-! ## Reserving pages -/

omit h in
lemma setPage_self : c.setPage p (c.page p) = c := by
  rw [Cache.setPage, update_eq_self]

lemma Good.evictLocked (he : c.evictLocked = some c') :
    c'.Good size refs ∧ ∀ q ∈ c'.lru, q ∈ c.lru ∧ c'.key q = c.key q := by
  obtain ⟨p, hfind, rfl⟩ := map_eq_some_iff.1 he
  have hlru : p ∈ c.lru := mem_reverse.1 (mem_of_find?_eq_some hfind)
  have hpred := List.find?_some hfind
  have hpin : (c.page p).pinCount = 0 := by
    simp only [evictable, Bool.and_eq_true, beq_iff_eq] at hpred
    exact hpred.1.1.1.1
  have hgood := h.unlink_discard (x := (c.unlink p).page p) (h.cached_of_mem_lru hlru) hpin hpin
  rw [setPage_self] at hgood
  refine ⟨hgood, fun q hq => ?_⟩
  have hne : q ≠ p := fun e => h.nodups.lru.not_mem_erase (e ▸ hq)
  refine ⟨mem_of_mem_erase hq, ?_⟩
  rw [key, key, (frame_unlink.trans frame_discard).page q hne]

omit h in
lemma freeListPop_eq_some (h : c.freeListPop = some (p, c')) :
    c.free = p :: c'.free ∧ c' = { c with free := c'.free } := by
  rw [freeListPop] at h
  split at h
  · exact absurd h (by simp)
  · next q rest hfree =>
    obtain ⟨rfl, rfl⟩ := Prod.mk.inj (some.inj h)
    exact ⟨hfree, rfl⟩

omit h in
lemma freeListPush_pop {rest : List ℕ} (h : c.free = p :: rest) :
    Cache.freeListPush { c with free := rest } p = c := by
  obtain ⟨page, hash, lru, free⟩ := c
  subst h
  rfl

lemma Good.popOrEvict (hp : c.popOrEvict = some (p, c')) :
    ∃ d : Cache, d.Good size refs ∧ d.free = p :: c'.free ∧ c' = { d with free := c'.free } ∧
      ∀ q ∈ d.lru, q ∈ c.lru ∧ d.key q = c.key q := by
  rw [Cache.popOrEvict] at hp
  split at hp
  · next r hpop =>
    obtain rfl := some.inj hp
    obtain ⟨hfree, heq⟩ := freeListPop_eq_some hpop
    exact ⟨c, h, hfree, heq, fun q hq => ⟨hq, rfl⟩⟩
  · obtain ⟨d, hd, hpop⟩ := bind_eq_some_iff.1 hp
    obtain ⟨hfree, heq⟩ := freeListPop_eq_some hpop
    obtain ⟨hgood, hsub⟩ := h.evictLocked hd
    exact ⟨d, hgood, hfree, heq, hsub⟩

omit h in
lemma install_page_self (ip index : ℕ) (readahead : Bool) :
    (c.install p ip index readahead).page p = { c.page p with
      data := true, inode := ip, pageIndex := index, pinCount := 1
      flags := { filling := true, readahead := readahead }
      error := none, dirtySeq := 0
      generation := ((c.page p).generation + 1) % 2 ^ 32 } :=
  setPage_page_self _

omit h in
lemma mem_install_hash {readahead : Bool} :
    q ∈ (c.install p ip index readahead).hash b ↔
      (q = p ∧ b = pageCacheHashfn ip index) ∨ q ∈ c.hash b := by
  change q ∈ update c.hash (pageCacheHashfn ip index) _ b ↔ _
  by_cases hb : b = pageCacheHashfn ip index
  · subst hb
    simp
  · rw [update_of_ne hb]
    simp [hb]

/-- A page off the free list is put under a key that no cached page has. -/
lemma Good.install {rest : List ℕ} (hfree : c.free = p :: rest)
    {readahead : Bool} (hkey : ∀ q ∈ c.lru, c.key q ≠ (ip, index))
    (hone : refs' p = refs p + 1) (hrefs : ∀ q, q ≠ p → refs' q = refs q) :
    (Cache.install { c with free := rest } p ip index readahead).Good size refs' := by
  have hp : c.FreeAt p := h.free_of_mem (hfree ▸ mem_cons_self ..)
  have hn : p ∉ rest ∧ rest.Nodup := nodup_cons.1 (hfree ▸ h.nodups.free)
  have hpage := install_page_self (c := { c with free := rest }) (p := p) ip index readahead
  have hzero := h.pins p
  rw [hp.2.2.2] at hzero
  refine h.frame (p := p) ⟨fun q hq => ?_, fun q hq => ?_, fun q hq => ?_, fun q hq b => ?_⟩
    (h.free_lt p hp.1) ⟨hn.2, nodup_cons.2 ⟨hp.2.1, h.nodups.lru⟩, fun b => ?_⟩
    (.inr (.inl ⟨hn.1, mem_cons_self .., fun b => ?_, ?_, ?_⟩)) (fun _ q hq hne => ?_)
    ?_ hrefs
  · exact update_of_ne hq ..
  · rw [hfree, mem_cons, or_iff_right hq]
    rfl
  · exact mem_cons.trans (or_iff_right hq)
  · rw [mem_install_hash]
    exact or_iff_right fun h => hq h.1
  · change (update c.hash (pageCacheHashfn ip index) _ b).Nodup
    by_cases hb : b = pageCacheHashfn ip index
    · subst hb
      rw [update_self]
      exact nodup_cons.2 ⟨hp.2.2.1 _, h.nodups.hash _⟩
    · rw [update_of_ne hb]
      exact h.nodups.hash b
  · rw [mem_install_hash, hpage]
    simp only [true_and, Page.bucket]
    exact or_iff_left (hp.2.2.1 b)
  · rw [hpage]
  · rw [hpage]
  · rw [key, key, hpage]
    exact hkey q hq
  · rw [hpage, hone]
    push_cast
    omega

lemma Good.key_ne_of_findLocked
    (hfind : c.findLocked ip index = none) : ∀ q ∈ c.lru, c.key q ≠ (ip, index) := by
  intro q hq heq
  obtain ⟨-, -, hhash, -, hdata⟩ := h.cached_of_mem_lru hq
  obtain ⟨hinode, hindex⟩ := Prod.mk.inj heq
  have hmem : q ∈ c.hash (pageCacheHashfn ip index) := by
    rw [hhash, Page.bucket, hinode, hindex]
  have := List.find?_eq_none.1 hfind q hmem
  simp [hinode, hindex, hdata] at this

lemma Good.cached_of_findLocked (hfind : c.findLocked ip index = some p) : c.CachedAt p :=
  h.cached_of_mem_hash (mem_of_find?_eq_some hfind)

lemma Good.allocLocked (readahead ok : Bool)
    (hkey : ∀ q ∈ c.lru, c.key q ≠ (ip, index)) :
    (c.allocLocked ip index readahead ok).1.Good size fun p =>
      refs p + (c.allocLocked ip index readahead ok).2.toList.count p := by
  rw [Cache.allocLocked]
  split
  · exact h
  · next p c1 hpop =>
    obtain ⟨d, hd, hfree, heq, hsub⟩ := h.popOrEvict hpop
    cases ok with
    | false =>
      rw [if_neg Bool.false_ne_true, heq, freeListPush_pop hfree]
      exact hd
    | true =>
      rw [if_pos rfl, heq]
      refine hd.install hfree (fun q hq => ?_) ?_ fun q hq => ?_
      · rw [(hsub q hq).2]
        exact hkey q (hsub q hq).1
      · simp
      · simp [hq.symm]

end

/-- The reservation loop takes one reference for each page it returns. -/
lemma Good.reservePages (ok : ℕ → Bool) (ip index n i : ℕ) (h : c.Good size refs) :
    (c.reservePages ok ip index i n).1.Good size fun p =>
      refs p + (c.reservePages ok ip index i n).2.count p := by
  induction n generalizing c refs i with
  | zero => exact h
  | succ n ih =>
    rw [Cache.reservePages]
    split
    · exact h
    next hfind =>
      have hkey := h.key_ne_of_findLocked (not_isSome_iff_eq_none.1 hfind)
      have halloc := h.allocLocked (i != 0) (ok i) hkey
      split
      · next c1 hc =>
        rw [hc] at halloc
        exact halloc
      · next c1 p hc =>
        rw [hc] at halloc
        refine (ih (i + 1) halloc).congr fun q => ?_
        simp only [count_cons, toList_some, count_nil]
        omega

lemma Good.startWriteback (ip : ℕ) (ps : List ℕ) (h : c.Good size refs) :
    (c.startWriteback ip ps).1.Good size refs := by
  fun_induction Cache.startWriteback ip ps c with
  | case1 => exact h
  | case2 p ps c _ ih => exact ih (h.setPage ⟨⟨rfl, rfl, rfl, rfl⟩, rfl⟩)
  | case3 => exact h

lemma Good.endWriteback (rc : Option Errno) (ps : List (ℕ × ℕ)) (h : c.Good size refs) :
    (ps.foldl (Cache.endWriteback rc) c).Good size refs := by
  induction ps generalizing c with
  | nil => exact h
  | cons p ps ih =>
    refine ih (h.setPage ⟨⟨rfl, rfl, rfl, ?_⟩, rfl⟩)
    cases rc with
    | none =>
      split_ifs <;> rfl
    | some e => rfl

end Operations

end Cache

end XosKernel.PageCache
