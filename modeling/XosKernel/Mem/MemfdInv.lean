/-
# Growing, shrinking and filling a memfd

What the pieces of `sys_ftruncate` and `sys_write` do to the pages and the bytes of an object.

`Grown s s' new` is the contract of the loop that adds pages: the array holds the old entries
and the new ones, the new pages were free before, they hold zero bytes, and no page that was
in use has changed. `Inv` is what the calls keep as long as none of the exits is taken on
which an object loses its pages: exactly as many pages as the size needs, distinct and
allocated, and zero bytes behind the end of the file.
-/
import XosKernel.Mem.MemfdData

namespace XosKernel.MemfdData

open List Option State Prod

open Memfd (pagesOf)

/-! ## Numbers of pages -/

lemma le_pagesOf (n : ℕ) : n ≤ pageSize * pagesOf n := by
  unfold pagesOf pageSize
  omega

lemma lt_pagesOf {n k : ℕ} (h : k < pagesOf n) : pageSize * k < n := by
  unfold pagesOf pageSize at *
  omega

/-- Room for `n` entries, counted as `shm_add_page` reallocates the array. -/
def Fits (cap n : ℕ) : Prop := (n + 15) / 16 * 16 ≤ cap ∧ 16 ≤ cap

lemma Fits.mono {cap m n : ℕ} (h : Fits cap n) (hle : m ≤ n) : Fits cap m := by
  unfold Fits at *
  omega

lemma fits_listCap {n k : ℕ} (hk : k ≤ n) (hn : n ≤ totalFrames) : Fits (listCap n) k := by
  unfold Fits listCap totalFrames directMapMax pageSize at *
  dsimp only
  split <;> omega

/-! ## The pages of a state -/

section Pages

variable {s : State} {i : ℕ}

lemma length_block (s : State) : s.block.length = s.npages := by
  simp [Memfd.Shm.block]

lemma length_pages (s : State) : s.pages.length = s.total := by
  unfold pages Memfd.Shm.total
  cases s.pageList with
  | none => exact length_block s
  | some fs => rfl

lemma getElem?_pages (h : i < s.total) : s.pages[i]? = some (s.pageAt i) := by
  unfold pages pageAt
  unfold Memfd.Shm.total at h
  cases hl : s.pageList with
  | none =>
    rw [hl] at h
    rw [getD_none, Memfd.Shm.block, getElem?_map, getElem?_range h, map_some]
  | some fs =>
    rw [hl] at h
    simp only [getD_some, getD_eq_getElem?_getD, getElem?_eq_getElem h]

lemma pages_of_list {fs : List ℕ} (h : s.pageList = some fs) : s.pages = fs := by
  rw [pages, h, getD_some]

lemma pages_of_block (h : s.pageList = none) : s.pages = s.block := by
  rw [pages, h, getD_none]

lemma listed_of_list {fs : List ℕ} (h : s.pageList = some fs) : s.listed = fs := by
  rw [listed, h, getD_some]

end Pages

/-! ## Adding pages -/

/-- The array of `s` has got the entries `new`. -/
structure Grown (s s' : State) (new : List ℕ) : Prop where
  shm : s'.toShm = { s.toShm with pageList := some (s.listed ++ new) }
  file : s'.file = s.file
  nodup : new.Nodup
  fresh : ∀ f ∈ new, s.live f = false ∧ f < totalFrames
  live : ∀ f, s'.live f = (s.live f || new.contains f)
  kept : ∀ f, s.live f = true → s'.byte f = s.byte f
  zero : ∀ f ∈ new, ∀ i, s'.byte f i = 0

namespace Grown

variable {s t u : State} {a b : List ℕ}

section

variable (h : Grown s t a)
include h

lemma pageList : t.pageList = some (s.listed ++ a) := by rw [h.shm]

lemma listed : t.listed = s.listed ++ a := listed_of_list h.pageList

lemma live_of_mem {f : ℕ} (hf : f ∈ a) : t.live f = true := by
  rw [h.live, contains_iff_mem.2 hf, Bool.or_true]

lemma live_of_live {f : ℕ} (hf : s.live f = true) : t.live f = true := by
  rw [h.live, hf, Bool.true_or]

omit h in
lemma refl (hl : s.pageList = some s.listed) : Grown s s [] where
  shm := by
    rw [append_nil, ← hl]
  file := rfl
  nodup := nodup_nil
  fresh := fun _ h => (not_mem_nil h).elim
  live := fun _ => (Bool.or_false _).symm
  kept := fun _ _ => rfl
  zero := fun _ h => (not_mem_nil h).elim

lemma trans (h' : Grown t u b) : Grown s u (a ++ b) where
  shm := by
    rw [h'.shm, h.listed, h.shm, append_assoc]
  file := h'.file.trans h.file
  nodup := by
    refine nodup_append.2 ⟨h.nodup, h'.nodup, fun f hf g hg hfg => ?_⟩
    -- a page of the first part is in use when the second part is allocated
    have hlive := h.live_of_mem hf
    rw [hfg, (h'.fresh g hg).1] at hlive
    exact Bool.false_ne_true hlive
  fresh := by
    refine forall_mem_append.2 ⟨h.fresh, fun f hf => ⟨?_, (h'.fresh f hf).2⟩⟩
    have hfree := (h'.fresh f hf).1
    rw [h.live, Bool.or_eq_false_iff] at hfree
    exact hfree.1
  live := fun f => by
    rw [h'.live, h.live, Bool.or_assoc]
    rw [Bool.eq_iff_iff]
    simp only [Bool.or_eq_true, contains_iff_mem, mem_append]
  kept := fun f hf => (h'.kept f (h.live_of_live hf)).trans (h.kept f hf)
  zero := by
    refine forall_mem_append.2 ⟨fun f hf i => ?_, h'.zero⟩
    rw [h'.kept f (h.live_of_mem hf), h.zero f hf]

end

end Grown

section AddPages

variable {s s' : State} {q : Oracle} {i i' n f : ℕ} {ok : Bool}

/-- The array is full as `shm_add_page` sees it. -/
def Full (s : State) : Prop := 0 < s.listed.length ∧ s.listed.length % 16 = 0

/-- A frame has been handed out and cleared. -/
def State.taken (s : State) (f : ℕ) : State :=
  ({ s with live := fun g => s.live g || [f].contains g } : State).zeroPages [f]

section

variable (hl : s.pageList = some s.listed)
include hl

/-- The ways `shm_add_page` can end for an object with an array. -/
lemma shmAddPage_cases (h : s.shmAddPage q i = some (s', f)) :
    (q.page i = none ∧ s' = s ∧ f = 0) ∨
    ∃ g, q.page i = some g ∧ s.live g = false ∧ g < totalFrames ∧
      ((Full s ∧ q.array i = true ∧ s' = { s.taken g with cap := s.listed.length + 16 } ∧ f = g) ∨
       (Full s ∧ q.array i = false ∧ s' = (s.taken g).bfcFreePages [g] ∧ f = 0) ∨
       (¬Full s ∧ s' = s.taken g ∧ f = g)) := by
  unfold shmAddPage at h
  cases hq : q.page i with
  | none =>
    rw [hq] at h
    obtain ⟨rfl, rfl⟩ := mk.inj (some.inj h)
    exact .inl ⟨rfl, rfl, rfl⟩
  | some g =>
    rw [hq] at h
    obtain ⟨s1, hs1, h⟩ := map_eq_some_iff.1 h
    obtain ⟨⟨-, hg⟩, hs1⟩ := ite_none_right_eq_some.1 hs1
    obtain ⟨hlt, hfree⟩ := hg g (mem_singleton_self g)
    obtain rfl := some.inj hs1
    refine .inr ⟨g, rfl, hfree, hlt, ?_⟩
    simp only [zeroPages, hl] at h
    split at h
    next hfull =>
      cases ha : q.array i with
      | true =>
        rw [ha, if_pos rfl] at h
        obtain ⟨rfl, rfl⟩ := mk.inj h
        exact .inl ⟨hfull, rfl, rfl, rfl⟩
      | false =>
        rw [ha, if_neg Bool.false_ne_true] at h
        obtain ⟨rfl, rfl⟩ := mk.inj h
        exact .inr (.inl ⟨hfull, rfl, rfl, rfl⟩)
    next hfull =>
      obtain ⟨rfl, rfl⟩ := mk.inj h
      exact .inr (.inr ⟨hfull, rfl, rfl⟩)

lemma grown_failed (hfree : s.live f = false) : Grown s ((s.taken f).bfcFreePages [f]) [] where
  shm := by rw [append_nil, ← hl]; rfl
  file := rfl
  nodup := nodup_nil
  fresh := fun _ h => (not_mem_nil h).elim
  live := fun g => by
    by_cases hg : g = f
    · subst hg
      simp [bfcFreePages, taken, zeroPages, hfree]
    · simp [bfcFreePages, taken, zeroPages, hg]
  kept := fun g hg => by
    have hne : g ≠ f := by
      rintro rfl
      exact Bool.false_ne_true (hfree.symm.trans hg)
    simp [bfcFreePages, taken, zeroPages, hne]
  zero := fun _ h => (not_mem_nil h).elim

omit hl in
lemma grown_pushed (cap : ℕ) (hfree : s.live f = false) (hlt : f < totalFrames) :
    Grown s (({ s.taken f with cap := cap } : State).push f) [f] where
  shm := rfl
  file := rfl
  nodup := nodup_singleton f
  fresh := fun g hg => by
    obtain rfl := mem_singleton.1 hg
    exact ⟨hfree, hlt⟩
  live := fun _ => rfl
  kept := fun g hg => by
    have hne : g ≠ f := by
      rintro rfl
      exact Bool.false_ne_true (hfree.symm.trans hg)
    simp [push, taken, zeroPages, hne]
  zero := fun g hg j => by
    obtain rfl := mem_singleton.1 hg
    simp [push, taken, zeroPages]

lemma shmAddPage_grown (h0 : q.page i ≠ some 0)
    (h : s.shmAddPage q i = some (s', f)) :
    (f = 0 ∧ Grown s s' []) ∨ (f ≠ 0 ∧ Grown s (s'.push f) [f]) := by
  obtain ⟨-, rfl, rfl⟩ | ⟨g, hq, hfree, hlt, hcase⟩ := shmAddPage_cases hl h
  · exact .inl ⟨rfl, Grown.refl hl⟩
  have hg0 : g ≠ 0 := by
    rintro rfl
    exact h0 hq
  obtain ⟨-, -, rfl, rfl⟩ | ⟨-, -, rfl, rfl⟩ | ⟨-, rfl, rfl⟩ := hcase
  · exact .inr ⟨hg0, grown_pushed _ hfree hlt⟩
  · exact .inl ⟨rfl, grown_failed hl hfree⟩
  · exact .inr ⟨hg0, grown_pushed s.cap hfree hlt⟩

lemma shmAddPage_eq_of_page {g : ℕ} (hq : q.page i = some g)
    (ha : s.listed.length % 16 = 0 → q.array i = true) (h : s.shmAddPage q i = some (s', f)) :
    f = g := by
  obtain ⟨hn, -⟩ | ⟨g', hq', -, -, hcase⟩ := shmAddPage_cases hl h
  · exact nomatch hn.symm.trans hq
  obtain rfl := some.inj (hq.symm.trans hq')
  obtain ⟨-, -, -, rfl⟩ | ⟨hfull, hno, -, -⟩ | ⟨-, -, rfl⟩ := hcase
  · rfl
  · exact (Bool.false_ne_true (hno.symm.trans (ha hfull.2))).elim
  · rfl

end

/-- The array has room for its entries and none was written behind its end. -/
def Roomy (s : State) : Prop := Fits s.cap s.listed.length ∧ s.overrun = false

section

variable (hl : s.pageList = some s.listed)
include hl

lemma shmAddPage_roomy (hroom : Roomy s)
    (h : s.shmAddPage q i = some (s', f)) : Roomy s' ∧ (f ≠ 0 → Roomy (s'.push f)) := by
  obtain ⟨hfit, hov⟩ := hroom
  have hpush : ∀ g cap, Fits cap (s.listed.length + 1) → s.listed.length < cap →
      Roomy ({ s.taken g with cap := cap } : State) ∧
        Roomy (({ s.taken g with cap := cap } : State).push g) := by
    intro g cap hfit' hlt
    refine ⟨⟨hfit'.mono (Nat.le_succ _), hov⟩, ?_, ?_⟩
    · change Fits cap (s.listed ++ [g]).length
      rwa [length_append, length_singleton]
    · change (s.overrun || decide (cap ≤ s.listed.length)) = false
      rw [hov, decide_eq_false (by omega), Bool.or_false]
  obtain ⟨-, rfl, rfl⟩ | ⟨g, hq, hfree, hlt, hcase⟩ := shmAddPage_cases hl h
  · exact ⟨⟨hfit, hov⟩, fun hc => (hc rfl).elim⟩
  obtain ⟨hfull, -, rfl, rfl⟩ | ⟨-, -, rfl, rfl⟩ | ⟨hfull, rfl, rfl⟩ := hcase
  · obtain ⟨h1, h2⟩ := hpush f (s.listed.length + 16) (by unfold Fits; omega) (by omega)
    exact ⟨h1, fun _ => h2⟩
  · exact ⟨⟨hfit, hov⟩, fun hc => (hc rfl).elim⟩
  · unfold Full at hfull
    unfold Fits at hfit
    obtain ⟨h1, h2⟩ := hpush f s.cap (by unfold Fits; omega) (by omega)
    exact ⟨h1, fun _ => h2⟩

/-- The loop adds pages until one is refused. The array keeps room for them, and the loop runs to
its end when all its allocations succeed. -/
lemma addPages_spec
    (h0 : ∀ j, i ≤ j → j < i + n → q.page j ≠ some 0) (h : addPages q n i s = some (s', i', ok)) :
    ∃ new, Grown s s' new ∧ i' = i + new.length ∧ (ok = true → new.length = n) ∧
      (Roomy s → Roomy s') ∧
      ((∀ j, i ≤ j → j < i + n → (q.page j).isSome = true ∧
        ((s.listed.length + (j - i)) % 16 = 0 → q.array j = true)) → ok = true) := by
  induction n generalizing i s with
  | zero =>
    obtain ⟨rfl, rfl, rfl⟩ : s = s' ∧ i = i' ∧ true = ok := by simpa [addPages] using h
    exact ⟨[], Grown.refl hl, rfl, fun _ => rfl, id, fun _ => rfl⟩
  | succ n ih =>
    obtain ⟨⟨s1, f⟩, h₁, h⟩ := bind_eq_some_iff.1 h
    dsimp only at h
    have hne := h0 i le_rfl (by omega)
    obtain ⟨rfl, hg⟩ | ⟨hf, hg⟩ := shmAddPage_grown hl hne h₁
    · rw [if_pos rfl] at h
      obtain ⟨rfl, rfl, rfl⟩ : s1 = s' ∧ i = i' ∧ false = ok := by simpa using h
      refine ⟨[], hg, rfl, fun hc => (Bool.false_ne_true hc).elim,
        fun hroom => (shmAddPage_roomy hl hroom h₁).1, fun hall => ?_⟩
      obtain ⟨hp, ha⟩ := hall i le_rfl (by omega)
      obtain ⟨g, hq⟩ := isSome_iff_exists.1 hp
      rw [Nat.sub_self, Nat.add_zero] at ha
      exact absurd (shmAddPage_eq_of_page hl hq ha h₁ ▸ hq) hne
    · rw [if_neg hf] at h
      have hl1 : (s1.push f).pageList = some (s1.push f).listed := by rw [hg.pageList, hg.listed]
      obtain ⟨new, hnew, hi', hok, hroom, hend⟩ :=
        ih hl1 (fun j h1 h2 => h0 j (by omega) (by omega)) h
      refine ⟨[f] ++ new, hg.trans hnew, ?_, fun hc => ?_,
        fun hr => hroom ((shmAddPage_roomy hl hr h₁).2 hf), fun hall => hend fun j h1 h2 => ?_⟩
      · rw [hi', length_append, length_singleton]
        omega
      · rw [length_append, length_singleton, hok hc]
        omega
      · obtain ⟨hp, harr⟩ := hall j (by omega) (by omega)
        refine ⟨hp, fun hm => harr ?_⟩
        rw [hg.listed, length_append, length_singleton] at hm
        omega

end

end AddPages

/-! ## The invariant -/

structure Inv (s : State) : Prop where
  size : s.total = pagesOf s.fileSize
  nodup : s.pages.Nodup
  live : ∀ f ∈ s.pages, s.live f = true ∧ f < totalFrames
  list : ∀ fs, s.pageList = some fs → s.npages = 0 ∧ Fits s.cap fs.length
  /-- behind the end of the file the last page holds zero bytes -/
  tail : ∀ p, s.fileSize ≤ p → p < pageSize * s.total → s.look p = some 0
  overrun : s.overrun = false

/-- What a call that returns `r` must do, where `stored` are the positions it wrote to. -/
structure StepOk (s s' : State) (r : Except Errno ℕ) (stored : ℕ → Prop) : Prop where
  error : ∀ e, r = .error e → s'.fileSize = s.fileSize ∧ s'.pages = s.pages ∧ s'.live = s.live
  noLeak : ∀ f, s'.live f = true ↔ f ∈ s'.pages ∨ (s.live f = true ∧ f ∉ s.pages)
  zero : ∀ p, s.fileSize ≤ p → p < s'.fileSize → ¬stored p → s'.look p = some 0

/-- `sys_ftruncate` to `size` went well. -/
structure Truncated (s s' : State) (r : Except Errno ℕ) (size : ℕ) : Prop where
  inv : Inv s'
  ok : StepOk s s' r fun _ => False
  file : s'.file = s.file
  size : ∀ n, r = .ok n → s'.fileSize = size

section Truncate

variable {s s0 s' : State} {new : List ℕ} {size n : ℕ}

section

variable (hI : Inv s)
include hI

lemma Inv.noLeak (f : ℕ) : s.live f = true ↔ f ∈ s.pages ∨ (s.live f = true ∧ f ∉ s.pages) := by
  by_cases hf : f ∈ s.pages
  · simp only [hf, true_or, iff_true]
    exact (hI.live f hf).1
  · simp only [hf, false_or, not_false_iff, and_true]

lemma Inv.stepOk_refl (r : Except Errno ℕ) (stored : ℕ → Prop) : StepOk s s r stored where
  error := fun _ _ => ⟨rfl, rfl, rfl⟩
  noLeak := hI.noLeak
  zero := fun _ h1 h2 => absurd h2 (by omega)

lemma Inv.truncated_refl (e : Errno) : Truncated s s (.error e) size :=
  ⟨hI, hI.stepOk_refl _ _, rfl, fun _ h => nomatch h⟩

lemma Inv.pages_live : ∀ f ∈ s.pages, s.live f = true := fun f hf => (hI.live f hf).1

omit hI in
lemma length_le_totalFrames {l : List ℕ} (hnd : l.Nodup) (h : ∀ f ∈ l, f < totalFrames) :
    l.length ≤ totalFrames := by
  have hsub : l.toFinset ⊆ Finset.range totalFrames := fun f hf =>
    Finset.mem_range.2 (h f (mem_toFinset.1 hf))
  simpa [toFinset_card_of_nodup hnd] using Finset.card_le_card hsub

lemma truncated_of_append {t : State} (htp : t.pages = s.pages ++ new) (hnd : new.Nodup)
    (hfresh : ∀ f ∈ new, s.live f = false ∧ f < totalFrames)
    (hlive : ∀ f, t.live f = (s.live f || new.contains f))
    (hkept : ∀ f, s.live f = true → t.byte f = s.byte f) (hclear : ∀ f ∈ new, ∀ i, t.byte f i = 0)
    (hsize : t.fileSize = size) (hfile : t.file = s.file) (hover : t.overrun = false)
    (hlist : ∀ fs, t.pageList = some fs → t.npages = 0 ∧ Fits t.cap fs.length)
    (hnew : s.total + new.length = pagesOf size) (hlt : s.total < pagesOf size) :
    Truncated s t (.ok 0) size := by
  have hbig : pageSize * s.total < size := lt_pagesOf hlt
  have hlen : (s.pages ++ new).length = pagesOf size := by
    rw [length_append, length_pages, hnew]
  have htotal : t.total = pagesOf size := by rw [← length_pages, htp, hlen]
  -- the old pages read as before, the new ones as zero
  have hold : ∀ p, p < pageSize * s.total → t.look p = s.look p := fun p hp => by
    rw [look, look, htp, Paged.look_append_of_lt (by rwa [length_pages])]
    exact Paged.look_congr fun f hf => hkept f (hI.pages_live f hf)
  have hzero : ∀ p, pageSize * s.total ≤ p → p < pageSize * pagesOf size → t.look p = some 0 :=
    fun p h1 h2 => by
      rw [look, htp]
      exact Paged.look_append_of_const hclear (by rwa [length_pages]) (by rwa [hlen])
  refine ⟨⟨by rw [htotal, hsize], ?_, ?_, hlist, ?_, hover⟩, ⟨?_, ?_, ?_⟩, hfile, fun _ _ => hsize⟩
  · rw [htp]
    refine nodup_append.2 ⟨hI.nodup, hnd, fun f hf g hgm hfg => ?_⟩
    have := hI.pages_live f hf
    rw [hfg, (hfresh g hgm).1] at this
    exact Bool.false_ne_true this
  · rw [htp]
    refine forall_mem_append.2 ⟨fun f hf => ⟨?_, (hI.live f hf).2⟩, fun f hf =>
      ⟨?_, (hfresh f hf).2⟩⟩
    · rw [hlive, hI.pages_live f hf, Bool.true_or]
    · rw [hlive, contains_iff_mem.2 hf, Bool.or_true]
  · intro p h1 h2
    rw [htotal] at h2
    exact hzero p (by omega) h2
  · exact fun _ h => nomatch h
  · intro f
    rw [htp, mem_append, hlive, Bool.or_eq_true, contains_iff_mem]
    have := hI.noLeak f
    tauto
  · intro p h1 h2 _
    by_cases hp : p < pageSize * s.total
    · rw [hold p hp]
      exact hI.tail p h1 hp
    · exact hzero p (by omega) (by have := le_pagesOf size; omega)

lemma truncated_of_grown (hpages : s0.listed = s.pages) (hlive : s0.live = s.live)
    (hbyte : s0.byte = s.byte) (hnp : s0.npages = 0) (hfile : s0.file = s.file)
    (hg : Grown s0 s' new) (hroom : Roomy s') (hnew : s.total + new.length = pagesOf size)
    (hlt : s.total < pagesOf size) :
    Truncated s { s' with fileSize := size } (.ok 0) size := by
  have hpl : s'.pageList = some (s.pages ++ new) := by rw [hg.pageList, hpages]
  refine truncated_of_append hI (pages_of_list hpl) hg.nodup ?_ ?_ ?_ hg.zero
    rfl (hg.file.trans hfile) hroom.2 ?_ hnew hlt
  · rw [← hlive]
    exact hg.fresh
  · rw [← hlive]
    exact hg.live
  · rw [← hlive, ← hbyte]
    exact hg.kept
  · intro fs hfs
    obtain rfl := some.inj (hg.pageList.symm.trans hfs)
    refine ⟨?_, hg.listed ▸ hroom.1⟩
    change s'.npages = 0
    rw [hg.shm]
    exact hnp

/-- The pages added before a refusal are given back. -/
lemma truncated_of_refused (hl : s.pageList = some s.listed) (hg : Grown s s' new)
    (hroom : Roomy s') :
    Truncated s { s'.freeLast new.length with
      pageList := some (s'.listed.take (s'.listed.length - new.length)) } (.error .ENOMEM)
      size := by
  have hlen : s'.listed.length - new.length = s.listed.length := by
    rw [hg.listed, length_append, Nat.add_sub_cancel]
  have htake : s'.listed.take (s'.listed.length - new.length) = s.listed := by
    rw [hlen, hg.listed, take_left']
    rfl
  have hdrop : s'.listed.drop (s'.listed.length - new.length) = new := by
    rw [hlen, hg.listed, drop_left']
    rfl
  have hsp : s.pages = s.listed := pages_of_list hl
  rw [htake, freeLast, hdrop]
  set t : State := { s'.bfcFreePages new with pageList := some s.listed }
  have htp : t.pages = s.pages := by rw [hsp]; exact pages_of_list rfl
  have hlive : t.live = s.live := by
    funext f
    change (s'.live f && !new.contains f) = s.live f
    rw [hg.live]
    by_cases hf : f ∈ new
    · rw [contains_iff_mem.2 hf, (hg.fresh f hf).1]
      rfl
    · rw [show new.contains f = false by simpa using hf]
      simp
  have hshm : t.toShm = s.toShm := by
    change { s'.toShm with pageList := some s.listed } = s.toShm
    rw [hg.shm, ← hl]
  have hsize : t.fileSize = s.fileSize := by rw [hshm]
  have hlook : ∀ p, t.look p = s.look p := fun p => by
    rw [look, look, htp]
    exact Paged.look_congr fun f hf => hg.kept f (hI.pages_live f hf)
  refine ⟨⟨?_, ?_, ?_, ?_, ?_, hroom.2⟩, ⟨?_, ?_, ?_⟩, hg.file, fun _ h => nomatch h⟩
  · rw [hshm]
    exact hI.size
  · rw [htp]
    exact hI.nodup
  · rw [htp, hlive]
    exact hI.live
  · intro fs hfs
    obtain rfl : s.listed = fs := some.inj hfs
    refine ⟨?_, ?_⟩
    · rw [hshm]
      exact (hI.list _ hl).1
    · change Fits s'.cap s.listed.length
      exact hroom.1.mono (by rw [hg.listed, length_append]; omega)
  · intro p h1 h2
    rw [hlook]
    exact hI.tail p (by rwa [← hsize]) (by rwa [← hshm])
  · exact fun _ _ => ⟨hsize, htp, hlive⟩
  · intro f
    rw [htp, hlive]
    exact hI.noLeak f
  · intro p h1 h2
    omega

/-- The first `pagesOf size` pages stay, with zero bytes behind the new end. -/
lemma truncated_of_take {t : State} (hn : pagesOf size ≤ s.total)
    (htp : t.pages = s.pages.take (pagesOf size))
    (hlive : ∀ f, t.live f = (s.live f && !(s.pages.drop (pagesOf size)).contains f))
    (hbyte : t.byte = s.byte) (hsize : t.fileSize = size) (hfile : t.file = s.file)
    (hover : t.overrun = s.overrun)
    (hlist : ∀ fs, t.pageList = some fs → t.npages = 0 ∧ Fits t.cap fs.length)
    (htail : ∀ p < pageSize * pagesOf size, size ≤ p → s.look p = some 0) :
    Truncated s t (.ok 0) size := by
  have htotal : t.total = pagesOf size := by
    rw [← length_pages, htp, length_take, length_pages, min_eq_left hn]
  have hlook : ∀ p, p < pageSize * pagesOf size → t.look p = s.look p := fun p hp => by
    rw [look, look, htp, hbyte, Paged.look_take_of_lt hp]
  have hsplit : s.pages.take (pagesOf size) ++ s.pages.drop (pagesOf size) = s.pages :=
    take_append_drop _ _
  have hnd := hI.nodup
  rw [← hsplit, nodup_append] at hnd
  have hmem : ∀ f, f ∈ s.pages ↔
      f ∈ s.pages.take (pagesOf size) ∨ f ∈ s.pages.drop (pagesOf size) := fun f => by
    rw [← mem_append, hsplit]
  have hkeep : ∀ f, t.live f = true ↔ s.live f = true ∧ f ∉ s.pages.drop (pagesOf size) :=
    fun f => by
    rw [hlive, Bool.and_eq_true, Bool.not_eq_true', ← Bool.not_eq_true, contains_iff_mem]
  have hfirst : ∀ f ∈ s.pages.take (pagesOf size), f ∉ s.pages.drop (pagesOf size) :=
    fun f hf hd => hnd.2.2 f hf f hd rfl
  refine ⟨⟨by rw [htotal, hsize], ?_, ?_, hlist, ?_, hover.trans hI.overrun⟩, ⟨?_, ?_, ?_⟩, hfile,
    fun _ _ => hsize⟩
  · rw [htp]
    exact hnd.1
  · rw [htp]
    intro f hf
    have hfs := hI.live f ((hmem f).2 (.inl hf))
    exact ⟨(hkeep f).2 ⟨hfs.1, hfirst f hf⟩, hfs.2⟩
  · intro p h1 h2
    rw [htotal] at h2
    rw [hlook p h2]
    exact htail p h2 (by rwa [← hsize])
  · exact fun _ h => nomatch h
  · intro f
    rw [hkeep, htp, hmem f]
    have h2 := hI.live f
    rw [hmem f] at h2
    tauto
  · intro p h1 h2 _
    have hp : p < pageSize * pagesOf size := by
      have := le_pagesOf size
      omega
    rw [hlook p hp]
    exact hI.tail p h1 (lt_of_lt_of_le hp (Nat.mul_le_mul_left _ hn))

end

end Truncate

/-! ## `sys_ftruncate` -/

/-- The allocations on which growing to `n` pages depends: a block for an object without pages,
every page once the array of a conversion is there, and nowhere the page at address 0. -/
def GrowClear (s : State) (n : ℕ) (q : Oracle) : Prop :=
  if s.pageList = none then
    if s.npages = 0 then q.block.isSome = true
    else q.list = true → ∀ i < n - s.total,
      (q.page i).any (fun f => f ≠ 0) = true ∧ ((s.npages + i) % 16 = 0 → q.array i = true)
  else ∀ i < n - s.total, q.page i ≠ some 0

instance (s : State) (n : ℕ) (q : Oracle) : Decidable (GrowClear s n q) := by
  unfold GrowClear
  infer_instance

/-- What `sys_ftruncate` relies on: the allocations above when it grows, and zero bytes between
a smaller size and the end of the page it lies in. -/
def TruncClear (s : State) (size : ℤ) (q : Oracle) : Prop :=
  0 ≤ size →
    (s.sealGrow = false → s.total < pagesOf size.toNat → GrowClear s (pagesOf size.toNat) q) ∧
    (size.toNat < s.fileSize →
      ∀ i < pageSize * pagesOf size.toNat - size.toNat, s.look (size.toNat + i) = some 0)

instance (s : State) (size : ℤ) (q : Oracle) : Decidable (TruncClear s size q) := by
  unfold TruncClear
  infer_instance

section Ftruncate

variable {s s' : State} {q : Oracle} {size : ℕ} {r : Except Errno ℕ}

lemma grow_list (hI : Inv s) {fs : List ℕ} (hl : s.pageList = some fs)
    (hlt : s.total < pagesOf size) (h0 : ∀ i < pagesOf size - s.total, q.page i ≠ some 0)
    (h : s.growPages q size (pagesOf size - s.total) = some (r, s')) : Truncated s s' r size := by
  have hlisted : s.listed = fs := listed_of_list hl
  have hl' : s.pageList = some s.listed := by rw [hlisted, hl]
  obtain ⟨hnp, hfit⟩ := hI.list fs hl
  unfold growPages at h
  rw [hl] at h
  obtain ⟨⟨s1, i, ok⟩, h₁, h⟩ := map_eq_some_iff.1 h
  have h0' : ∀ j, 0 ≤ j → j < 0 + (pagesOf size - s.total) → q.page j ≠ some 0 :=
    fun j _ h2 => h0 j (by omega)
  obtain ⟨new, hg, hi, hok, hroomy, -⟩ := addPages_spec hl' h0' h₁
  have hroom := hroomy ⟨by rwa [hlisted], hI.overrun⟩
  cases ok with
  | true =>
    obtain ⟨rfl, rfl⟩ := mk.inj h
    refine truncated_of_grown hI ?_ rfl rfl hnp rfl hg hroom ?_ hlt
    · rw [hlisted, pages_of_list hl]
    · rw [hok rfl]
      omega
  | false =>
    obtain ⟨rfl, rfl⟩ := mk.inj h
    rw [Nat.zero_add] at hi
    rw [hi]
    exact truncated_of_refused hI hl' hg hroom

/-- Growing an object that is a block, when nothing is refused behind the array. -/
lemma grow_convert (hI : Inv s) (hl : s.pageList = none) (hnp : s.npages ≠ 0)
    (hlt : s.total < pagesOf size)
    (hall : q.list = true → ∀ i < pagesOf size - s.total,
      (q.page i).any (fun f => f ≠ 0) = true ∧ ((s.npages + i) % 16 = 0 → q.array i = true))
    (h : s.growPages q size (pagesOf size - s.total) = some (r, s')) : Truncated s s' r size := by
  unfold growPages at h
  rw [hl] at h
  rw [if_neg hnp] at h
  cases hq : q.list with
  | false =>
    rw [hq] at h
    obtain ⟨rfl, rfl⟩ := mk.inj (some.inj h)
    exact hI.truncated_refl _
  | true =>
    rw [hq] at h
    obtain ⟨⟨s1, i, ok⟩, h₁, h⟩ := map_eq_some_iff.1 h
    have htotal : s.total = s.npages := by rw [← length_pages, pages_of_block hl, length_block]
    set s0 := s.toList (listCap (s.npages + (pagesOf size - s.total)))
    have hl0 : s0.pageList = some s0.listed := rfl
    have hlisted : s0.listed = s.pages := (pages_of_block hl).symm
    have hlen : s0.listed.length = s.npages := by rw [hlisted, length_pages, htotal]
    have h0 : ∀ j, 0 ≤ j → j < 0 + (pagesOf size - s.total) → q.page j ≠ some 0 := by
      intro j _ hj hc
      have hp := (hall hq j (by omega)).1
      rw [hc] at hp
      exact nomatch hp
    obtain ⟨new, hg, -, hok, hroomy, hend⟩ := addPages_spec hl0 h0 h₁
    obtain rfl : ok = true := hend fun j _ hj => by
      obtain ⟨hp, ha⟩ := hall hq j (by omega)
      rw [hlen]
      exact ⟨isSome_of_any hp, ha⟩
    -- the pages are distinct frames of the machine, so the array was not cut by the `int`
    have hle : s.npages + (pagesOf size - s.total) ≤ totalFrames := by
      have hnd : (s.pages ++ new).Nodup :=
        nodup_append.2 ⟨hI.nodup, hg.nodup, fun f hf g hgm hfg => Bool.false_ne_true <| by
          rw [← (hg.fresh g hgm).1, ← hfg]
          exact hI.pages_live f hf⟩
      have := length_le_totalFrames hnd (forall_mem_append.2
        ⟨fun f hf => (hI.live f hf).2, fun f hf => (hg.fresh f hf).2⟩)
      rw [length_append, length_pages, hok rfl] at this
      omega
    have hroom : Roomy s0 := by
      refine ⟨?_, ?_⟩
      · rw [hlen]
        exact fits_listCap (Nat.le_add_right _ _) hle
      · have hfit : Fits (listCap (s.npages + (pagesOf size - s.total))) s.npages :=
          fits_listCap (Nat.le_add_right _ _) hle
        change (s.overrun || decide (listCap (s.npages + (pagesOf size - s.total)) < s.npages)) =
          false
        rw [hI.overrun, decide_eq_false (by unfold Fits at hfit; omega), Bool.or_false]
    obtain ⟨rfl, rfl⟩ := mk.inj h
    refine truncated_of_grown hI hlisted rfl rfl rfl rfl hg (hroomy hroom) ?_ hlt
    rw [hok rfl]
    omega

lemma grow_truncated (hI : Inv s) (hlt : s.total < pagesOf size)
    (hC : s.sealGrow = false → GrowClear s (pagesOf size) q)
    (h : s.grow q size (pagesOf size) = some (r, s')) : Truncated s s' r size := by
  unfold grow at h
  cases hseal : s.sealGrow with
  | true =>
    rw [hseal, if_pos rfl] at h
    obtain ⟨rfl, rfl⟩ := mk.inj (some.inj h)
    exact hI.truncated_refl _
  | false =>
    specialize hC hseal
    unfold GrowClear at hC
    rw [hseal, if_neg Bool.false_ne_true] at h
    split at h
    case h_1 f hl h0 hb =>
      obtain ⟨s1, hs1, h⟩ := map_eq_some_iff.1 h
      obtain ⟨rfl, rfl⟩ := mk.inj h
      obtain ⟨⟨hnd, hfree⟩, rfl⟩ := of_guard hs1
      have hsp : s.pages = [] := by
        rw [pages_of_block hl, ← length_eq_zero_iff, length_block, h0]
      refine truncated_of_append hI ?_ hnd (fun g hg => (hfree g hg).symm) (fun _ => rfl)
        (fun g hg => ?_) (fun g hg i => ?_) rfl rfl hI.overrun (fun fs h => nomatch hl.symm.trans h)
        ?_ hlt
      · change getD s.pageList (blockFrom f (pagesOf size)) = _
        rw [hl, getD_none, hsp, nil_append]
      · have hno : g ∉ blockFrom f (pagesOf size) := fun hc => by simp [(hfree g hc).2] at hg
        funext i
        simp [zeroPages, hno]
      · simp [zeroPages, hg]
      · rw [← length_pages, hsp]
        simp [blockFrom]
    case h_2 hno =>
      cases hl : s.pageList with
      | some fs =>
        rw [hl, if_neg (some_ne_none fs)] at hC
        exact grow_list hI hl hlt hC h
      | none =>
        rw [hl, if_pos rfl] at hC
        split at hC
        next h0 =>
          obtain ⟨f, hf⟩ := isSome_iff_exists.1 hC
          exact (hno f hl h0 hf).elim
        next h0 =>
          exact grow_convert hI hl h0 hlt hC h

lemma shrink_truncated (hI : Inv s) (hlt : pagesOf size < s.total)
    (htail : ∀ p < pageSize * pagesOf size, size ≤ p → s.look p = some 0) :
    Truncated s (s.shrink size (pagesOf size)).2 (s.shrink size (pagesOf size)).1 size := by
  unfold shrink
  cases hseal : s.sealShrink with
  | true => exact hI.truncated_refl _
  | false =>
    rw [if_neg Bool.false_ne_true]
    split
    case h_1 fs hl =>
      obtain ⟨hnp, hfit⟩ := hI.list fs hl
      have hsp : s.pages = fs := pages_of_list hl
      refine truncated_of_take hI hlt.le ?_ (fun f => by rw [hsp]; rfl) rfl rfl rfl rfl ?_ htail
      · rw [hsp]
        by_cases h0 : pagesOf size = 0
        · rw [h0, take_zero, ← length_eq_zero_iff, length_pages]
          exact hnp
        · exact pages_of_list (if_neg h0)
      · intro gs hgs
        by_cases h0 : pagesOf size = 0
        · exact nomatch (if_pos h0).symm.trans hgs
        · obtain rfl : fs.take (pagesOf size) = gs := some.inj ((if_neg h0).symm.trans hgs)
          exact ⟨hnp, hfit.mono (length_take_le' _ _)⟩
    case h_2 hl =>
      have hsp : s.pages = s.block := pages_of_block hl
      refine truncated_of_take hI hlt.le ?_ (fun f => by rw [hsp]; rfl) rfl rfl rfl rfl
        (fun fs hfs => nomatch hl.symm.trans hfs) htail
      change getD s.pageList ((range (pagesOf size)).map fun i => s.phys + i) = _
      rw [hsp, hl, getD_none]
      have hle : pagesOf size ≤ s.npages := by
        rw [← length_block, ← hsp, length_pages]
        exact hlt.le
      rw [Memfd.Shm.block, ← map_take, take_range, min_eq_left hle]

theorem sysFtruncate_truncated (hI : Inv s) {size : ℤ} (hC : TruncClear s size q)
    (h : sysFtruncate s size q = some (r, s')) : Truncated s s' r size.toNat := by
  -- whether bytes are cut off by the condition or were behind the end before, they are zero
  have htail (hneg : ¬size < 0) (hgt : ¬pagesOf size.toNat > s.total) :
      ∀ p < pageSize * pagesOf size.toNat, size.toNat ≤ p → s.look p = some 0 := by
    intro p h1 h2
    by_cases hlt : size.toNat < s.fileSize
    · have := (hC (by omega)).2 hlt (p - size.toNat) (by omega)
      rwa [Nat.add_sub_cancel' h2] at this
    · exact hI.tail p (by omega) (lt_of_lt_of_le h1 (Nat.mul_le_mul_left _ (by omega)))
  revert h
  fun_cases sysFtruncate s size q with
  | case1 =>
    rintro ⟨⟩
    exact hI.truncated_refl _
  | case2 hneg _ _ hgt => exact grow_truncated hI hgt fun hs => (hC (by omega)).1 hs hgt
  | case3 hneg _ _ hgt hlt =>
    intro h
    obtain ⟨rfl, rfl⟩ := mk.inj (some.inj h)
    exact shrink_truncated hI hlt (htail hneg hgt)
  | case4 hneg _ _ hgt hlt =>
    rintro ⟨⟩
    have heq : pagesOf size.toNat = s.pages.length := by
      rw [length_pages]
      exact le_antisymm (not_lt.1 hgt) (not_lt.1 hlt)
    refine truncated_of_take hI (not_lt.1 hgt) ?_ (fun f => ?_) rfl rfl rfl rfl hI.list
      (htail hneg hgt)
    · rw [heq, take_length]
      rfl
    · rw [heq, drop_length]
      exact (Bool.and_true _).symm

end Ftruncate

end XosKernel.MemfdData
