/-
# What placement keeps

The invariant of an address space that stays in user space, and the placement functions
that keep it. A `UserRange` is a page-aligned range below `USER_VMA_UPPER_BOUND` that does
not meet the page of the signal trampoline; regions are user ranges, and so is the page of
every leaf entry that is written.
-/
import XosKernel.Mem.VmaSum

namespace XosKernel.Mmap

open Vma List Nat Bool

structure UserRange (va len : ℕ) : Prop where
  start : pageSize ∣ va
  pages : pageSize ∣ len
  bound : va + len ≤ userVmaUpperBound
  trampoline : va + len ≤ sigTrampolineAddr ∨ sigTrampolineAddr + pageSize ≤ va

/-- Every region and every page mapped is a range of user pages. -/
structure InUserSpace (mm : Mm) : Prop where
  regions : ∀ r ∈ mm.regions, UserRange r.vaddr r.size
  installed : ∀ va ∈ mm.installed, UserRange va pageSize

structure Inv (mm : Mm) : Prop extends InUserSpace mm where
  brk : pageSize ∣ mm.mmapBrk
  physBrk : pageSize ∣ mm.mmapPhysBrk
  physBase : mapPhysicalBase ≤ mm.mmapPhysBrk

lemma inv_mmCreate (leaf : ℕ → Bool) : Inv (mmCreate leaf) where
  regions := by simp [mmCreate]
  installed := by simp [mmCreate]
  brk := show pageSize ∣ 0x800000 by decide
  physBrk := show pageSize ∣ mapPhysicalBase by decide
  physBase := le_rfl

variable {va len a l n : ℕ} {mm : Mm} {oracle : ℕ → Bool} {r : Region} {L : List Region}

/-! ## Ranges -/

section

variable (h : UserRange va len)
include h

lemma UserRange.sub (ha : pageSize ∣ a) (hl : pageSize ∣ l)
    (h1 : va ≤ a) (h2 : a + l ≤ va + len) : UserRange a l := by
  have := h.bound
  have := h.trampoline
  exact ⟨ha, hl, by omega, by omega⟩

lemma UserRange.u64_eq (hle : a ≤ va + len) : u64 a = a := by
  have := h.bound
  refine u64_of_lt (lt_of_le_of_lt (hle.trans this) ?_)
  decide

lemma UserRange.page (hn : n < len / pageSize) : UserRange (u64 (va + n * pageSize)) pageSize := by
  have hlen : (n + 1) * pageSize ≤ len :=
    (mul_le_mul_right _ hn).trans (div_mul_le_self _ _)
  rw [add_mul, one_mul] at hlen
  rw [h.u64_eq (by omega)]
  exact h.sub (dvd_add h.start (dvd_mul_left _ _)) dvd_rfl (by omega) (by omega)

omit h in
lemma UserRange.tail (h : UserRange va ((n + 1) * pageSize)) :
    UserRange (u64 (va + pageSize)) (n * pageSize) := by
  have hlen : (n + 1) * pageSize = n * pageSize + pageSize := succ_mul n pageSize
  rw [h.u64_eq (by omega)]
  exact h.sub (dvd_add h.start dvd_rfl) (dvd_mul_left _ _) (by omega) (by omega)

lemma UserRange.concat (h' : UserRange (va + len) l) : UserRange va (len + l) := by
  have h1 := h'.bound
  have h2 := h.trampoline
  have h3 := h'.trampoline
  have h4 : 0 < pageSize := by decide
  exact ⟨h.start, dvd_add h.pages h'.pages, by omega, by omega⟩

end

lemma UserRange.stop_eq (h : UserRange r.vaddr r.size) : r.stop = r.vaddr + r.size :=
  h.u64_eq le_rfl

lemma UserRange.of_not_overlaps (ha : pageSize ∣ va) (hl : pageSize ∣ len)
    (hb : va + len ≤ userVmaUpperBound) (ht : overlapsSignalTrampoline va len = false) :
    UserRange va len := by
  refine ⟨ha, hl, hb, ?_⟩
  have hub : userVmaUpperBound < 2 ^ 64 := by decide
  rw [overlapsSignalTrampoline] at ht
  split_ifs at ht with h0
  · -- an empty range; a longer one does not reach the end of the address space
    obtain rfl : len = 0 := by omega
    have hp : pageSize ∣ sigTrampolineAddr := by decide
    obtain ⟨i, rfl⟩ := ha
    obtain ⟨j, hj⟩ := hp
    rw [hj, add_zero, ← mul_succ]
    rcases lt_or_ge j i with hlt | hge
    · exact .inr (mul_le_mul_left _ hlt)
    · exact .inl (mul_le_mul_left _ hge)
  · have hnot := of_decide_eq_false ht
    rw [u64_of_lt (by omega)] at hnot
    omega

/-! ## Leaf tables -/

lemma Mm.alloc_eq (mm : Mm) (oracle : ℕ → Bool) :
    mm.alloc oracle = ((mm.alloc oracle).1, (mm.alloc oracle).2) := rfl

section

variable (h : Inv mm)
include h

lemma Inv.of_alloc {b : Bool} {mm' : Mm} (ha : mm.alloc oracle = (b, mm')) :
    Inv mm' := by
  obtain ⟨-, rfl⟩ := Prod.mk.inj ha
  exact ⟨⟨h.1.1, h.1.2⟩, h.2, h.3, h.4⟩

lemma Inv.setLeaf (hva : UserRange va pageSize) : Inv (mm.setLeaf va) := by
  refine ⟨⟨h.regions, fun x hx => ?_⟩, h.brk, h.physBrk, h.physBase⟩
  rcases mem_cons.1 hx with rfl | hx
  · exact hva
  · exact h.installed x hx

lemma Inv.clearLeaf (va : ℕ) : Inv (mm.clearLeaf va) :=
  ⟨⟨h.1.1, h.1.2⟩, h.2, h.3, h.4⟩

lemma Inv.clearPages (va n : ℕ) : Inv (clearPages va n mm) := by
  induction n with
  | zero => exact h
  | succ n ih => exact ih.clearLeaf _

lemma Inv.mapUserPageDirect (oracle : ℕ → Bool) (hva : UserRange va pageSize) :
    Inv (mapUserPageDirect oracle mm va).2 := by
  rw [Mmap.mapUserPageDirect]
  generalize ha : mm.alloc oracle = p
  obtain ⟨b, mm1⟩ := p
  have h₁ : Inv mm1 := h.of_alloc ha
  cases b with
  | false => exact h₁
  | true =>
    show Inv (if mm1.leaf (slot va) then (false, mm1) else (true, mm1.setLeaf va)).2
    split_ifs
    · exact h₁
    · exact h₁.setLeaf hva

lemma Inv.mapUserPagesLoop (hva : UserRange va (n * pageSize)) :
    Inv (mapUserPagesLoop oracle n va mm).2.2 := by
  fun_induction Mmap.mapUserPagesLoop oracle n va mm with
  | case1 => exact h
  | case2 n va mm mm1 ha => exact h.of_alloc ha
  | case3 n va mm mm1 ha _ ih => exact ih (h.of_alloc ha) hva.tail
  | case4 n va mm mm1 ha _ mm2 hb => exact (h.of_alloc ha).of_alloc hb
  | case5 n va mm mm1 ha _ mm2 hb _ _ _ heq ih =>
    have hhead : UserRange va pageSize :=
      hva.sub hva.start dvd_rfl le_rfl (Nat.add_le_add_left (Nat.le_mul_of_pos_left _ n.succ_pos) _)
    have h₂ : Inv mm2 := (h.of_alloc ha).of_alloc hb
    rw [heq] at ih
    exact ih (h₂.setLeaf hhead) hva.tail

lemma Inv.mapUserPages {start stop : ℕ}
    (hva : UserRange (alignUp start) (pagesBelow (alignUp start) stop * pageSize)) :
    Inv (mapUserPages oracle mm start stop).2.2 :=
  h.mapUserPagesLoop hva

lemma Inv.unmapUserPagesLoop (va count : ℕ) : Inv (unmapUserPagesLoop n va count mm) := by
  fun_induction Mmap.unmapUserPagesLoop n va count mm with
  | case1 => exact h
  | case2 => exact h
  | case3 n va count mm _ ih => exact ih (h.clearLeaf va)
  | case4 n va count mm _ ih => exact ih h

lemma Inv.moveLoop {oldVa newVa : ℕ}
    (hva : ∀ i < n, UserRange (u64 (newVa + i * pageSize)) pageSize) :
    Inv (moveLoop oldVa newVa n mm) := by
  induction n with
  | zero => exact h
  | succ n ih =>
    have hn := ih fun i hi => hva i (hi.trans n.lt_succ_self)
    rw [Mmap.moveLoop]
    split_ifs
    · exact (hn.setLeaf (hva n n.lt_succ_self)).clearLeaf _
    · exact hn

lemma Inv.moveUserPages {oldVa newVa : ℕ}
    (hva : ∀ i < n, UserRange (u64 (newVa + i * pageSize)) pageSize) :
    Inv (moveUserPages oracle mm oldVa newVa n).2 := by
  rw [Mmap.moveUserPages]
  generalize ha : mm.alloc oracle = p
  obtain ⟨b, mm1⟩ := p
  have h₁ : Inv mm1 := h.of_alloc ha
  cases b with
  | false => exact h₁
  | true => exact h₁.moveLoop hva

end

/-! ## The region list -/

abbrev UserList (L : List Region) : Prop := ∀ r ∈ L, UserRange r.vaddr r.size

lemma UserList.nil : UserList [] := by simp [UserList]

lemma UserList.append {M : List Region} (hL : UserList L) (hM : UserList M) : UserList (L ++ M) :=
  fun q hq => (mem_append.1 hq).elim (hL q) (hM q)

lemma Inv.setRegions (h : Inv mm) (hL : UserList L) : Inv { mm with regions := L } :=
  ⟨⟨hL, h.installed⟩, h.brk, h.physBrk, h.physBase⟩

lemma UserList.insert {L' : List Region} (hL : UserList L) (hr : UserRange r.vaddr r.size)
    (h : vmaInsertSorted r L = some L') : UserList L' := by
  intro q hq
  rcases mem_cons.1 ((perm_vmaInsertSorted h).mem_iff.1 hq) with rfl | hq
  · exact hr
  · exact hL q hq

lemma UserRange.joins {p q : Region} (hp : UserRange p.vaddr p.size)
    (hq : UserRange q.vaddr q.size) (h : joins p q = true) :
    UserRange (join p q).vaddr (join p q).size := by
  have hstop : p.vaddr + p.size = q.vaddr := by
    rw [← hp.stop_eq]
    simp only [Mmap.joins, and_eq_true, beq_iff_eq] at h
    exact h.2
  have hsum : UserRange p.vaddr (p.size + q.size) := by
    rw [← hstop] at hq
    exact hp.concat hq
  show UserRange p.vaddr (u64 (p.size + q.size))
  rwa [hsum.u64_eq (le_add_left _ _)]

lemma joins_user : Joins (fun _ => 0) fun r => UserRange r.vaddr r.size :=
  fun _ _ ha hb h => ⟨(add_zero 0).symm, ha.joins hb h⟩

/-! ## Unmapping -/

/-- What a split leaves in the list lies in the region that was split. -/
lemma vmaSplit_user {c c' : Ctx} {addr size : ℕ} {s : Split}
    (hr : UserRange r.vaddr r.size) (ha : pageSize ∣ addr) (hin : addr < r.vaddr + r.size)
    (hend : pageSize ∣ u64 (addr + size)) (hlo : r.vaddr < u64 (addr + size))
    (h : vmaSplit oracle c r addr size = (some s, c')) :
    UserList s.front ∧ UserList s.tail := by
  have hstop := hr.stop_eq
  obtain ⟨c1, ⟨hnone, -⟩ | ⟨hb2, hb3, hsome, -⟩⟩ := vmaSplit_inv oracle c r addr size
  · cases hnone.symm.trans h
  obtain ⟨rfl, rfl⟩ : (⟨_, _, _⟩ : Split) = s ∧ c1 = c' := by simpa using hsome.symm.trans h
  refine ⟨fun q hq => ?_, fun q hq => ?_⟩
  · rw [frontPiece] at hq
    split_ifs at hq
    · cases hq
    obtain rfl := mem_singleton.1 hq
    have haddr : addr < 2 ^ 64 := hin.trans_le (hr.bound.trans (by decide))
    show UserRange r.vaddr (u64Sub addr r.vaddr)
    rw [u64Sub_of_le haddr hb2]
    exact hr.sub hr.start (dvd_sub ha hr.start) le_rfl (by omega)
  · rw [tailPiece] at hq
    split_ifs at hq
    · obtain rfl := mem_singleton.1 hq
      show UserRange (u64 (addr + size)) (r.stop - u64 (addr + size))
      refine hr.sub hend ?_ (by omega) (by omega)
      rw [hstop]
      exact dvd_sub (dvd_add hr.start hr.pages) hend
    · cases hq

lemma cutOut_user (oracle : ℕ → Bool) (c : Ctx) {addr size : ℕ} (hr : UserRange r.vaddr r.size)
    (ha : pageSize ∣ addr) (hin : addr < r.vaddr + r.size) (hend : pageSize ∣ u64 (addr + size))
    (hlo : r.vaddr < u64 (addr + size)) :
    Conserves (fun _ => 0) (fun _ => 0) (fun r => UserRange r.vaddr r.size) c r
      (cutOut oracle (fun c mid => ([], c.emit (.release mid))) c r addr size) := by
  rw [cutOut]
  generalize hs : vmaSplit oracle c r addr size = p
  obtain ⟨_ | s, c1⟩ := p
  · rfl
  · obtain ⟨hfront, htail⟩ := vmaSplit_user hr ha hin hend hlo hs
    refine ⟨by simp [total], ?_⟩
    rw [append_nil]
    exact UserList.append hfront htail

/-- Unmapping leaves pieces of the regions, whatever the range: also if its end wraps
around. -/
lemma UserList.rangeLoop (oracle : ℕ → Bool) (c : Ctx) {addr stop : ℕ} (hL : UserList L)
    (ha : pageSize ∣ addr) (hs : pageSize ∣ stop) (hlt : stop < 2 ^ 64) (halt : addr < 2 ^ 64) :
    UserList (rangeLoop oracle (fun c mid => ([], c.emit (.release mid))) addr stop c L).2.1 := by
  have hback : ∀ x y, x < 2 ^ 64 → y < 2 ^ 64 → u64 (y + u64Sub x y) = x := by
    intro x y hx hy
    rw [u64Sub, u64, u64, add_mod_mod]
    omega
  refine (rangeLoop_conserves (fun _ => 0) (fun _ => 0) (fun r => UserRange r.vaddr r.size)
    ?_ ?_ ?_ L c hL).2
  · intro c r hr hlo hhi hfront
    -- the piece ends at the end of the region or at the end of the range
    have hstop := hr.stop_eq
    have hend : u64 (addr + if r.stop < stop then u64Sub r.stop addr else u64Sub stop addr) =
        if r.stop < stop then r.stop else stop := by
      split_ifs
      · exact hback _ _ (u64_lt _) halt
      · exact hback _ _ hlt halt
    refine cutOut_user oracle c hr ha (by omega) ?_ ?_ <;> rw [hend]
    · split_ifs
      · rw [hstop]
        exact dvd_add hr.start hr.pages
      · exact hs
    · split_ifs <;> omega
  · intro c r hr hlo hhi _ htail
    have hstop := hr.stop_eq
    have hend : u64 (r.vaddr + u64Sub stop r.vaddr) = stop := hback _ _ hlt (by omega)
    exact cutOut_user oracle c hr hr.start (by omega) (by rwa [hend]) (by rwa [hend])
  · exact fun c r _ _ _ _ _ => ⟨rfl, UserList.nil⟩

lemma Inv.unmapRange (h : Inv mm) (oracle : ℕ → Bool) {addr len : ℕ} (ha : pageSize ∣ addr)
    (hl : pageSize ∣ len) (halt : addr < 2 ^ 64) : Inv (unmapRange oracle mm addr len).2 := by
  have hpage : pageSize ∣ 2 ^ 64 := by decide
  have hdvd : pageSize ∣ u64 (addr + len) :=
    (dvd_mod_iff hpage).2 (dvd_add ha hl)
  have hL := UserList.rangeLoop oracle ⟨mm.allocs, []⟩ h.regions ha hdvd (u64_lt _) halt
  exact ⟨⟨hL, h.installed⟩, h.brk, h.physBrk, h.physBase⟩

/-! ## Gaps -/

lemma dvd_of_firstInTheWay (hL : UserList L) {cur e : ℕ}
    (h : firstInTheWay cur len L = some e) : pageSize ∣ e := by
  obtain ⟨r, hr, rfl, -⟩ := firstInTheWay_some h
  rw [(hL r hr).stop_eq]
  exact dvd_add (hL r hr).start (hL r hr).pages

lemma dvd_firstMappedPage (ha : pageSize ∣ a) : pageSize ∣ firstMappedPage mm a len := by
  by_cases h : firstMappedPage mm a len = 0
  · rw [h]
    exact dvd_zero _
  rw [firstMappedPage] at h ⊢
  split_ifs at h ⊢
  · decide
  · obtain ⟨i, -, heq, -⟩ := firstMappedLoop_some h
    rw [heq]
    exact dvd_add ha (dvd_mul_left _ _)

lemma not_overlaps_of_firstMappedPage (h : firstMappedPage mm a len = 0) :
    overlapsSignalTrampoline a len = false := by
  rw [firstMappedPage] at h
  split_ifs at h with ht
  · exact absurd h (by decide)
  · simpa using ht

lemma scanGap_user (hL : UserList mm.regions) (hl : pageSize ∣ len) {cur : ℕ}
    (hcur : pageSize ∣ cur) (h : scanGap mm len cur ≠ 0) : UserRange (scanGap mm len cur) len := by
  fun_induction scanGap mm len cur with
  | case1 => exact absurd rfl h
  | case2 cur _ e hway ih => exact ih (dvd_of_firstInTheWay hL hway) h
  | case3 cur hend _ hmapped =>
    refine UserRange.of_not_overlaps hcur hl ?_ (not_overlaps_of_firstMappedPage hmapped)
    omega
  | case4 cur _ _ _ ih => exact ih (dvd_add (dvd_firstMappedPage hcur) dvd_rfl) h

lemma vmaFindGap_user (h : Inv mm) (hl : pageSize ∣ len) {hint : ℕ} (hh : pageSize ∣ hint)
    (hb : hint ≤ userVmaUpperBound) (h0 : vmaFindGap mm len hint ≠ 0) :
    UserRange (vmaFindGap mm len hint) len := by
  rw [vmaFindGap] at h0 ⊢
  split_ifs at h0 ⊢ with hcond hbrk
  · obtain ⟨-, hlen, -, hmapped⟩ := hcond
    rw [u64Sub_of_le (by decide) hb] at hlen
    exact UserRange.of_not_overlaps hh hl (by omega) (not_overlaps_of_firstMappedPage hmapped)
  · exact scanGap_user h.regions hl h.brk h0
  · exact scanGap_user h.regions hl hh h0

/-- What `vma_pick_addr` needs: a fixed range below the bound, or a hint below it. -/
structure Placeable (addr len flags hint : ℕ) : Prop where
  pages : pageSize ∣ len
  fixed : isFixed flags = true → pageSize ∣ addr ∧ addr + len ≤ userVmaUpperBound
  hint : isFixed flags = false → pageSize ∣ hint ∧ hint ≤ userVmaUpperBound

lemma Inv.vmaPickAddr (h : Inv mm) {addr flags hint : ℕ} (hp : Placeable addr len flags hint)
    {ret : Ret} {mm' : Mm} (hpick : vmaPickAddr oracle mm addr len flags hint = (ret, mm')) :
    Inv mm' ∧ ∀ v, ret = .ok v → UserRange v len := by
  have hofAddr : ∀ {v w}, Ret.ofAddr v = .ok w → v = w := by
    intro v w hv
    rw [Ret.ofAddr] at hv
    split_ifs at hv
    simpa using hv
  have hu (ha : pageSize ∣ addr) (hb : addr + len ≤ userVmaUpperBound) :
      Inv (Mmap.unmapRange oracle mm addr len).2 :=
    h.unmapRange oracle ha hp.pages (lt_of_le_of_lt (by omega : addr ≤ userVmaUpperBound)
    (by decide))
  revert hpick
  fun_cases Mmap.vmaPickAddr oracle mm addr len flags hint with
  | case2 hf _ e mm1 hun =>
    rintro ⟨⟩
    obtain ⟨ha, hb⟩ := hp.fixed (by simp [isFixed, hf])
    rw [hun] at hu
    exact ⟨hu ha hb, nofun⟩
  | case3 hf ht mm1 hun =>
    rintro ⟨⟩
    obtain ⟨ha, hb⟩ := hp.fixed (by simp [isFixed, hf])
    rw [hun] at hu
    refine ⟨hu ha hb, fun v hv => ?_⟩
    obtain rfl := hofAddr hv
    exact UserRange.of_not_overlaps ha hp.pages hb (eq_false_iff.2 ht)
  | case5 hf hn ho =>
    rintro ⟨⟩
    obtain ⟨ha, hb⟩ := hp.fixed (by simp [isFixed, hn])
    refine ⟨h, fun v hv => ?_⟩
    obtain rfl := hofAddr hv
    rw [not_eq_true, vmaOverlapsAny, or_eq_false_iff] at ho
    exact UserRange.of_not_overlaps ha hp.pages hb ho.1
  | case7 hf hn v h0 =>
    rintro ⟨⟩
    obtain ⟨hh, hb⟩ := hp.hint (by simp [isFixed, hf, hn])
    refine ⟨h, fun w hw => ?_⟩
    obtain rfl := hofAddr hw
    exact vmaFindGap_user h hp.pages hh hb h0
  | _ =>
    rintro ⟨⟩
    exact ⟨h, nofun⟩

end XosKernel.Mmap
