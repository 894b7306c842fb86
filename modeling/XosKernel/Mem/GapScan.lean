/-
# First fit

`vma_find_gap` (`kernel/xcore/mem/vma.c`) looks for the first range of an address space that is
free. Three kinds of obstacles are in its way: regions, the page of the signal trampoline and pages
with a leaf entry. The cursor of the scan jumps past the first obstacle that it meets, and no range
that starts below the new position of the cursor is free (`gapTurn_skips`); where there is no
obstacle the range at the cursor is free (`free_of_gapTurn`). So the scan finds the least free
address.

A region that ends at `2 ^ 64` is not seen by the scan, since the sum of its start and its size
wraps around to zero.
-/
import XosKernel.Mem.MmapRun

namespace XosKernel.Mmap

open Vma List Nat Sum

/-! ## The specification -/

/-- A sorted list of disjoint, page-aligned regions of 64-bit addresses. -/
structure Sorted (L : List Region) : Prop where
  vaddr : ∀ r ∈ L, pageSize ∣ r.vaddr
  size : ∀ r ∈ L, pageSize ∣ r.size
  stop : ∀ r ∈ L, r.vaddr + r.size ≤ 2 ^ 64
  disjoint : L.Pairwise fun a b => a.vaddr + a.size ≤ b.vaddr

def Intersects (r : Region) (a len : ℕ) : Prop := r.vaddr < a + len ∧ a < r.vaddr + r.size

/-- `[a, a + len)` is a range of user pages on which nothing is mapped. -/
structure Free (mm : Mm) (len a : ℕ) : Prop where
  aligned : pageSize ∣ a
  bound : a + len ≤ userVmaUpperBound
  regions : ∀ r ∈ mm.regions, ¬ Intersects r a len
  trampoline : ¬ (sigTrampolineAddr < a + len ∧ a < sigTrampolineAddr + pageSize)
  leaf : ∀ va, pageSize ∣ va → a ≤ va → va < a + len → mm.leaf (slot va) = false

/-- The result `a` of a search for `len` bytes from `lo` on: the least free address, or zero if
there is none. -/
structure Least (mm : Mm) (len lo a : ℕ) : Prop where
  found : a ≠ 0 → IsLeast {b | lo ≤ b ∧ Free mm len b} a
  none : a = 0 ↔ ∀ b, lo ≤ b → ¬ Free mm len b

/-- The call returns its hint, or the least free address from the hint and the allocation cursor on.
-/
def FirstFit (mm : Mm) (len hint : ℕ) : Prop :=
  (hint ≠ 0 ∧ vmaFindGap mm len hint = hint) ∨
    Least mm len (max hint mm.mmapBrk) (vmaFindGap mm len hint)

/-! ## One turn of the scan -/

/-- One turn of the outer loop of `vma_find_gap`: the result, or the next position of the cursor. -/
def gapTurn (mm : Mm) (len cur : ℕ) : ℕ ⊕ ℕ :=
  if userVmaUpperBound ≤ cur ∨ userVmaUpperBound - cur < len then .inl 0
  else
    match firstInTheWay cur len mm.regions with
    | some e => .inr e
    | none =>
        if firstMappedPage mm cur len = 0 then .inl cur
        else .inr (firstMappedPage mm cur len + pageSize)

variable {mm : Mm} {len cur hint e : ℕ} {L : List Region}

lemma gapTurn_cases (mm : Mm) (len cur : ℕ) :
    ((userVmaUpperBound ≤ cur ∨ userVmaUpperBound - cur < len) ∧ gapTurn mm len cur = .inl 0) ∨
      ¬ (userVmaUpperBound ≤ cur ∨ userVmaUpperBound - cur < len) ∧
        ((∃ e, firstInTheWay cur len mm.regions = some e ∧ gapTurn mm len cur = .inr e) ∨
          firstInTheWay cur len mm.regions = none ∧
            (firstMappedPage mm cur len = 0 ∧ gapTurn mm len cur = .inl cur ∨
              firstMappedPage mm cur len ≠ 0 ∧
                gapTurn mm len cur = .inr (firstMappedPage mm cur len + pageSize))) := by
  rw [gapTurn]
  by_cases hend : userVmaUpperBound ≤ cur ∨ userVmaUpperBound - cur < len
  · exact .inl ⟨hend, if_pos hend⟩
  refine .inr ⟨hend, ?_⟩
  rw [if_neg hend]
  cases firstInTheWay cur len mm.regions with
  | some e => exact .inl ⟨e, rfl, rfl⟩
  | none =>
    refine .inr ⟨rfl, ?_⟩
    by_cases hmapped : firstMappedPage mm cur len = 0
    · exact .inl ⟨hmapped, if_pos hmapped⟩
    · exact .inr ⟨hmapped, if_neg hmapped⟩

lemma scanGap_eq (mm : Mm) (len cur : ℕ) :
    scanGap mm len cur = (gapTurn mm len cur).elim id (scanGap mm len) := by
  rw [scanGap]
  rcases gapTurn_cases mm len cur with
    ⟨hend, h⟩ | ⟨hend, ⟨e, hway, h⟩ | ⟨hway, ⟨hmapped, h⟩ | ⟨hmapped, h⟩⟩⟩
  · rw [dif_pos hend, h, elim_inl, id]
  · rw [dif_neg hend, h, elim_inr]
    split
    · next e' heq => rw [Option.some.inj (hway.symm.trans heq)]
    · next heq => cases hway.symm.trans heq
  · rw [dif_neg hend, h, elim_inl, id]
    split
    · next e' heq => cases hway.symm.trans heq
    · rw [dif_pos hmapped]
  · rw [dif_neg hend, h, elim_inr]
    split
    · next e' heq => cases hway.symm.trans heq
    · rw [dif_neg hmapped]

lemma lt_of_gapTurn (h : gapTurn mm len cur = .inr e) : cur < e ∧ cur < userVmaUpperBound := by
  rcases gapTurn_cases mm len cur with
    ⟨-, h'⟩ | ⟨hend, ⟨e', hway, h'⟩ | ⟨-, ⟨-, h'⟩ | ⟨hmapped, h'⟩⟩⟩
  · exact nomatch h.symm.trans h'
  · obtain rfl := inr.inj (h.symm.trans h')
    obtain ⟨-, -, -, hlt, -⟩ := firstInTheWay_some hway
    exact ⟨hlt, by omega⟩
  · exact nomatch h.symm.trans h'
  · obtain rfl := inr.inj (h.symm.trans h')
    exact ⟨lt_of_firstMappedPage hmapped, by omega⟩

lemma wellFounded_gapTurn (mm : Mm) (len : ℕ) :
    WellFounded fun e cur => gapTurn mm len cur = .inr e := by
  refine Subrelation.wf (fun {e cur} h => ?_) (measure fun c => userVmaUpperBound - c).wf
  obtain ⟨h1, h2⟩ := lt_of_gapTurn h
  change userVmaUpperBound - e < userVmaUpperBound - cur
  omega

/-! ## Obstacles -/

lemma firstInTheWay_none_iff (hL : Sorted L) :
    firstInTheWay cur len L = none ↔ ∀ r ∈ L, r.stop ≤ cur ∨ u64 (cur + len) ≤ r.vaddr := by
  fun_induction firstInTheWay cur len L with
  | case1 => simp
  | case2 mr rest h1 ih =>
    rw [forall_mem_cons, ih ⟨fun r hr => hL.vaddr r (mem_cons_of_mem _ hr),
      fun r hr => hL.size r (mem_cons_of_mem _ hr),
      fun r hr => hL.stop r (mem_cons_of_mem _ hr), hL.disjoint.of_cons⟩]
    exact ⟨fun h => ⟨.inl h1, h⟩, fun h => h.2⟩
  | case3 mr rest h1 h2 =>
    -- the regions behind this one lie even further up
    refine ⟨fun _ => forall_mem_cons.2 ⟨.inr h2, fun r hr => .inr ?_⟩, fun _ => rfl⟩
    exact h2.trans ((le_add_right _ _).trans (rel_of_pairwise_cons hL.disjoint hr))
  | case4 mr rest h1 h2 =>
    exact ⟨fun h => (nomatch h), fun h => absurd (h mr mem_cons_self) (not_or.2 ⟨h1, h2⟩)⟩

lemma overlapsSignalTrampoline_iff (hlen : 0 < len) (hcur : cur + len < 2 ^ 64) :
    overlapsSignalTrampoline cur len = true ↔
      sigTrampolineAddr < cur + len ∧ cur < sigTrampolineAddr + pageSize := by
  rw [overlapsSignalTrampoline, if_neg (by omega), u64_of_lt hcur, decide_eq_true_iff]
  exact and_comm

lemma firstMappedLoop_zero {leaf : ℕ → Bool} {n va : ℕ} (hva : va ≠ 0) :
    firstMappedLoop leaf n va = 0 ↔ ∀ i < n, leaf (slot (va + i * pageSize)) = false := by
  fun_induction firstMappedLoop leaf n va with
  | case1 => simp
  | case2 n va hleaf =>
    rw [forall_lt_succ_left, zero_mul, add_zero]
    exact ⟨fun h => absurd h hva, fun h => absurd (h.1.symm.trans hleaf) Bool.false_ne_true⟩
  | case3 n va hleaf ih =>
    have hshift (i : ℕ) : va + pageSize + i * pageSize = va + (i + 1) * pageSize := by ring
    rw [ih (by omega), forall_lt_succ_left, zero_mul, add_zero]
    simp only [hshift]
    exact ⟨fun h => ⟨Bool.eq_false_iff.2 hleaf, h⟩, fun h => h.2⟩

/-- No page of the range has a leaf entry, and the range does not touch the trampoline. -/
lemma firstMappedPage_zero (hcur : cur ≠ 0) (hlen : 0 < len) (hpages : pageSize ∣ len)
    (halign : pageSize ∣ cur) (hend : cur + len < 2 ^ 64) :
    firstMappedPage mm cur len = 0 ↔
      ¬ (sigTrampolineAddr < cur + len ∧ cur < sigTrampolineAddr + pageSize) ∧
        ∀ va, pageSize ∣ va → cur ≤ va → va < cur + len → mm.leaf (slot va) = false := by
  rw [firstMappedPage, u64_of_lt hend, ← overlapsSignalTrampoline_iff hlen hend]
  split
  next ht =>
    exact ⟨fun h => absurd h (by decide), fun h => absurd ht h.1⟩
  next ht =>
  rw [firstMappedLoop_zero hcur]
  obtain ⟨n, rfl⟩ := hpages
  have hn : pagesBelow cur (cur + pageSize * n) = n := by
    rw [mul_comm]
    exact pagesBelow_mul cur n
  rw [hn]
  constructor
  · refine fun h => ⟨ht, fun va hva h1 h2 => ?_⟩
    obtain ⟨i, hi⟩ := dvd_sub hva halign
    have hva' : va = cur + i * pageSize := by
      rw [mul_comm, ← hi]
      omega
    rw [hva']
    refine h i (Nat.lt_of_mul_lt_mul_left (a := pageSize) ?_)
    omega
  · rintro ⟨-, h⟩ i hi
    have hlt : i * pageSize < pageSize * n := by
      rw [mul_comm pageSize n]
      exact mul_lt_mul_of_pos_right hi (by decide)
    exact h _ (dvd_add halign (dvd_mul_left _ _)) (by omega) (by omega)

/-! ## The scan -/

lemma u64_dvd {x : ℕ} (h : pageSize ∣ x) : pageSize ∣ u64 x :=
  (dvd_mod_iff (by decide)).2 h

/-- No range that starts below the next position of the cursor is free. -/
lemma gapTurn_skips (hL : Sorted mm.regions) (hlen : 0 < len) (hcur : pageSize ∣ cur)
    (h : gapTurn mm len cur = .inr e) : pageSize ∣ e ∧ ∀ a, cur ≤ a → a < e → ¬ Free mm len a := by
  rcases gapTurn_cases mm len cur with
    ⟨-, h'⟩ | ⟨hend, ⟨e', hway, h'⟩ | ⟨-, ⟨-, h'⟩ | ⟨hmapped, h'⟩⟩⟩
  · exact nomatch h.symm.trans h'
  · obtain rfl := inr.inj (h.symm.trans h')
    obtain ⟨r, hr, rfl, -, hlt⟩ := firstInTheWay_some hway
    have hsum : cur + len < 2 ^ 64 := by
      rw [userVmaUpperBound] at hend
      omega
    rw [u64_of_lt hsum] at hlt
    refine ⟨u64_dvd (dvd_add (hL.vaddr r hr) (hL.size r hr)), fun a h1 h2 hfree => ?_⟩
    have hstop : r.stop ≤ r.vaddr + r.size := mod_le _ _
    exact hfree.regions r hr ⟨by omega, by omega⟩
  · exact nomatch h.symm.trans h'
  · obtain rfl := inr.inj (h.symm.trans h')
    have hsum : cur + len < 2 ^ 64 := by
      rw [userVmaUpperBound] at hend
      omega
    rw [firstMappedPage] at hmapped ⊢
    by_cases ht : overlapsSignalTrampoline cur len = true
    · rw [if_pos ht]
      refine ⟨by decide, fun a h1 h2 hfree => hfree.trampoline ?_⟩
      obtain ⟨ht1, -⟩ := (overlapsSignalTrampoline_iff hlen hsum).1 ht
      exact ⟨by omega, h2⟩
    · rw [if_neg ht] at hmapped ⊢
      obtain ⟨i, hi, heq, hleaf⟩ := firstMappedLoop_some hmapped
      rw [heq] at hleaf ⊢
      have hdvd : pageSize ∣ cur + i * pageSize := dvd_add hcur (dvd_mul_left _ _)
      refine ⟨dvd_add hdvd (dvd_refl _), fun a h1 h2 hfree => ?_⟩
      -- the page found is a page of every aligned range that starts at or below it
      have ha : a ≤ cur + i * pageSize := by
        obtain ⟨m, hm⟩ := hfree.aligned
        obtain ⟨n, hn⟩ := hdvd
        rw [hm, hn] at h2 ⊢
        refine Nat.mul_le_mul_left _ (Nat.le_of_lt_succ
          (Nat.lt_of_mul_lt_mul_left (a := pageSize) ?_))
        rwa [Nat.mul_succ]
      have hpage : cur + i * pageSize < cur + len := by
        rw [u64_of_lt hsum, pagesBelow, Nat.add_sub_cancel_left] at hi
        have h3 : (i + 1) * pageSize ≤ len + (pageSize - 1) :=
          (Nat.mul_le_mul_right pageSize hi).trans (Nat.div_mul_le_self _ _)
        have h4 : 0 < pageSize := by decide
        rw [succ_mul] at h3
        omega
      have hfalse := hfree.leaf _ hdvd ha (by omega)
      exact Bool.false_ne_true (hfalse.symm.trans hleaf)

/-- A region that the scan has to look at ends below `2 ^ 64`. -/
def Seen (L : List Region) : Prop :=
  ∀ r ∈ L, r.vaddr < userVmaUpperBound → r.vaddr + r.size < 2 ^ 64

/-- Where the scan ends there is nothing left to find, or the range at the cursor is free. -/
lemma gapTurn_done (hL : Sorted mm.regions) (hseen : Seen mm.regions) (hlen : 0 < len)
    (hpages : pageSize ∣ len) (hcur : pageSize ∣ cur) (hpos : cur ≠ 0) {a : ℕ}
    (h : gapTurn mm len cur = .inl a) :
    (a = 0 ∧ ∀ b, cur ≤ b → ¬ Free mm len b) ∨ (a = cur ∧ Free mm len cur) := by
  rcases gapTurn_cases mm len cur with
    ⟨hend, h'⟩ | ⟨hend, ⟨e', hway, h'⟩ | ⟨hway, ⟨hmapped, h'⟩ | ⟨hmapped, h'⟩⟩⟩
  · obtain rfl := inl.inj (h.symm.trans h')
    refine .inl ⟨rfl, fun b hb hfree => ?_⟩
    have := hfree.bound
    omega
  · exact nomatch h.symm.trans h'
  · obtain rfl := inl.inj (h.symm.trans h')
    have hbound : a + len ≤ userVmaUpperBound := by omega
    have hsum : a + len < 2 ^ 64 := lt_of_le_of_lt hbound (by decide)
    obtain ⟨htramp, hleaf⟩ := (firstMappedPage_zero hpos hlen hpages hcur hsum).1 hmapped
    refine .inr ⟨rfl, hcur, hbound, fun r hr hmeet => ?_, htramp, hleaf⟩
    obtain ⟨h1, h2⟩ := hmeet
    rcases (firstInTheWay_none_iff hL).1 hway r hr with hstop | hbehind
    · rw [Region.stop, u64_of_lt (hseen r hr (by omega))] at hstop
      omega
    · rw [u64_of_lt hsum] at hbehind
      omega
  · exact nomatch h.symm.trans h'

lemma Least.skip {lo a : ℕ} (h : Least mm len e a) (hle : lo ≤ e)
    (hskip : ∀ b, lo ≤ b → b < e → ¬ Free mm len b) : Least mm len lo a := by
  have habove : ∀ b, lo ≤ b → Free mm len b → e ≤ b := fun b hb hfree =>
    not_lt.1 fun hlt => hskip b hb hlt hfree
  refine ⟨fun ha => ?_, h.none.trans ⟨fun hno b hb hfree => ?_, fun hno b hb => ?_⟩⟩
  · obtain ⟨⟨h1, h2⟩, hmin⟩ := h.found ha
    exact ⟨⟨hle.trans h1, h2⟩, fun b hb => hmin ⟨habove b hb.1 hb.2, hb.2⟩⟩
  · exact hno b (habove b hb hfree) hfree
  · exact hno b (hle.trans hb)

lemma scanGap_least (hL : Sorted mm.regions) (hseen : Seen mm.regions) (hlen : 0 < len)
    (hpages : pageSize ∣ len) (hcur : pageSize ∣ cur) (hpos : cur ≠ 0) :
    Least mm len cur (scanGap mm len cur) := by
  induction cur using (wellFounded_gapTurn mm len).induction with
  | _ cur ih =>
    rw [scanGap_eq]
    cases hturn : gapTurn mm len cur with
    | inl a =>
      rcases gapTurn_done hL hseen hlen hpages hcur hpos hturn with ⟨rfl, hno⟩ | ⟨rfl, hfree⟩
      · exact ⟨fun h => absurd rfl h, fun _ => hno, fun _ => rfl⟩
      · refine ⟨fun _ => ⟨⟨le_rfl, hfree⟩, fun b hb => hb.1⟩, fun h => absurd h hpos, fun hno => ?_⟩
        exact absurd hfree (hno a le_rfl)
    | inr e =>
      obtain ⟨hdvd, hskip⟩ := gapTurn_skips hL hlen hcur hturn
      have hlt := (lt_of_gapTurn hturn).1
      exact (ih e hturn hdvd (by omega)).skip hlt.le hskip

/-! ## The call -/

lemma firstFit_of_seen (hL : Sorted mm.regions) (hseen : Seen mm.regions)
    (hbrk : pageSize ∣ mm.mmapBrk)
    (hbrk0 : 0 < mm.mmapBrk) (hpages : pageSize ∣ len) (hlen : 0 < len) (hhint : pageSize ∣ hint) :
    FirstFit mm len hint := by
  rw [FirstFit, vmaFindGap]
  split_ifs with h hlt
  · exact .inl ⟨h.1, rfl⟩
  · rw [max_eq_right hlt.le]
    exact .inr (scanGap_least hL hseen hlen hpages hbrk hbrk0.ne')
  · rw [max_eq_left (not_lt.1 hlt)]
    exact .inr (scanGap_least hL hseen hlen hpages hhint (by omega))

/-- An address space with these regions and without leaf entries. -/
def bare (L : List Region) (brk : ℕ) : Mm :=
    { mmCreate (fun _ => false) with regions := L, mmapBrk := brk }

/-- A page of a region that ends at `2 ^ 64` and does not hold the trampoline. -/
def hiddenPage (r : Region) : ℕ :=
  if max r.vaddr pageSize = sigTrampolineAddr then sigTrampolineAddr + pageSize else max r.vaddr
    pageSize

lemma hiddenPage_spec {r : Region} (hr : pageSize ∣ r.vaddr) (hlt : r.vaddr < userVmaUpperBound) :
    pageSize ∣ hiddenPage r ∧ hiddenPage r ≠ 0 ∧ r.vaddr ≤ hiddenPage r ∧
      hiddenPage r + pageSize ≤ userVmaUpperBound ∧
      ¬ (sigTrampolineAddr < hiddenPage r + pageSize ∧ hiddenPage r < sigTrampolineAddr +
      pageSize) := by
  rw [hiddenPage]
  split_ifs with h
  · simp only [pageSize, sigTrampolineAddr, userVmaUpperBound] at *
    omega
  · simp only [pageSize, sigTrampolineAddr, userVmaUpperBound] at *
    omega

/-- The scan gives out a page of a region that ends at `2 ^ 64`. -/
lemma vmaFindGap_hidden (hL : Sorted L) {r : Region} (hr : r ∈ L)
    (hlt : r.vaddr < userVmaUpperBound) (htop : r.vaddr + r.size = 2 ^ 64) :
    vmaFindGap (bare L (hiddenPage r)) pageSize 0 = hiddenPage r := by
  obtain ⟨hdvd, hpos, hle, hbound, htramp⟩ := hiddenPage_spec (hL.vaddr r hr) hlt
  have hsum : hiddenPage r + pageSize < 2 ^ 64 := lt_of_le_of_lt hbound (by decide)
  have hway : firstInTheWay (hiddenPage r) pageSize L = none := by
    refine (firstInTheWay_none_iff hL).2 fun q hq => ?_
    rw [u64_of_lt hsum]
    have hstop : q.stop ≤ q.vaddr + q.size := mod_le _ _
    obtain ⟨A, B, rfl⟩ := append_of_mem hr
    obtain ⟨-, hB, hA⟩ := pairwise_append.1 hL.disjoint
    rcases mem_append.1 hq with hq | hq
    · have := hA q hq r mem_cons_self
      exact .inl (by omega)
    rcases mem_cons.1 hq with rfl | hq
    · left
      rw [Region.stop, htop]
      exact zero_le _
    · have := (pairwise_cons.1 hB).1 q hq
      exact .inr (by omega)
  have hmapped : firstMappedPage (bare L (hiddenPage r)) (hiddenPage r) pageSize = 0 :=
    (firstMappedPage_zero hpos (by decide) (dvd_refl _) hdvd hsum).2 ⟨htramp, fun _ _ _ _ => rfl⟩
  change scanGap (bare L (hiddenPage r)) pageSize (if 0 < hiddenPage r then hiddenPage r else 0) = _
  rw [if_pos (pos_of_ne_zero hpos), scanGap_eq]
  rcases gapTurn_cases (bare L (hiddenPage r)) pageSize (hiddenPage r) with
    ⟨hend, h⟩ | ⟨-, ⟨e', hway', h⟩ | ⟨-, ⟨-, h⟩ | ⟨hmapped', -⟩⟩⟩
  · have hpage : 0 < pageSize := by decide
    omega
  · exact nomatch hway.symm.trans hway'
  · rw [h, elim_inl, id]
  · exact absurd hmapped hmapped'

/-- Whatever the leaf tables, the allocation cursor, the length and the hint are, `vma_find_gap`
returns the hint or the least free address exactly if every region that starts in user space ends
below `2 ^ 64`. The scan terminates in any case. -/
theorem vmaFindGap_first_fit_iff (hL : Sorted L) :
    ((∀ mm len hint, mm.regions = L → pageSize ∣ mm.mmapBrk → 0 < mm.mmapBrk → pageSize ∣ len →
        0 < len → pageSize ∣ hint → FirstFit mm len hint) ↔
      ∀ r ∈ L, r.vaddr < userVmaUpperBound → r.vaddr + r.size < 2 ^ 64) ∧
    ∀ mm len, WellFounded fun next cur => gapTurn mm len cur = .inr next := by
  refine ⟨⟨fun h r hr hlt => ?_, fun hseen mm len hint hmm hbrk hbrk0 hpages hlen hhint => ?_⟩,
    wellFounded_gapTurn⟩
  · by_contra htop
    have htop : r.vaddr + r.size = 2 ^ 64 := le_antisymm (hL.stop r hr) (not_lt.1 htop)
    obtain ⟨hdvd, hpos, hle, hbound, -⟩ := hiddenPage_spec (hL.vaddr r hr) hlt
    have hfit := h (bare L (hiddenPage r)) pageSize 0 rfl hdvd (pos_of_ne_zero hpos) (dvd_refl _)
      (by decide) (dvd_zero _)
    rw [FirstFit, vmaFindGap_hidden hL hr hlt htop] at hfit
    obtain ⟨h0, -⟩ | hleast := hfit
    · exact h0 rfl
    · refine (hleast.found hpos).1.2.regions r hr ⟨?_, ?_⟩
      · exact lt_of_le_of_lt hle (Nat.lt_add_of_pos_right (by decide))
      · have hub : userVmaUpperBound < 2 ^ 64 := by decide
        omega
  · subst hmm
    exact firstFit_of_seen hL hseen hbrk hbrk0 hpages hlen hhint

def filePage : Region :=
  { newRegion 0x801000 0x1000 1 0x02 3 0 with inode := some 7, raLastPage := 2 ^ 64 - 1 }

/-- The same mapping grown to the end of the address space. -/
def fileToTop : Region := { filePage with size := 2 ^ 64 - 0x801000 }

lemma sorted_singleton {r : Region} (h1 : pageSize ∣ r.vaddr) (h2 : pageSize ∣ r.size)
    (h3 : r.vaddr + r.size ≤ 2 ^ 64) : Sorted [r] :=
  ⟨by simpa using h1, by simpa using h2, by simpa using h3, pairwise_singleton _ _⟩

/-- `mremap` grows a file mapping in place up to `2 ^ 64`, where both its checks wrap around; the
next search for two pages returns a range whose second page is in that mapping. -/
theorem gap_inside_region :
    ((sysMremap (fun _ => true) (bare [filePage] 0x800000) 0x801000 0x1000 (2 ^ 64 - 0x801000) 0
    0).map
        fun p => (p.1, p.2.regions, p.2.mmapBrk)) = some (.ok 0x801000, [fileToTop], 0x800000) ∧
      vmaFindGap (bare [fileToTop] 0x800000) 0x2000 0 = 0x800000 ∧
      Intersects fileToTop 0x800000 0x2000 ∧ ¬ FirstFit (bare [fileToTop] 0x800000) 0x2000 0 := by
  have hway : firstInTheWay 0x800000 0x2000 [fileToTop] = none := by decide +kernel
  have hmapped : firstMappedPage (bare [fileToTop] 0x800000) 0x800000 0x2000 =
    0 := by decide +kernel
  have hgap : vmaFindGap (bare [fileToTop] 0x800000) 0x2000 0 = 0x800000 := by
    change scanGap (bare [fileToTop] 0x800000) 0x2000 0x800000 = 0x800000
    rw [scanGap_eq]
    rcases gapTurn_cases (bare [fileToTop] 0x800000) 0x2000 0x800000 with
      ⟨hend, h⟩ | ⟨-, ⟨e', hway', h⟩ | ⟨-, ⟨-, h⟩ | ⟨hmapped', -⟩⟩⟩
    · exact absurd hend (by decide)
    · exact nomatch hway.symm.trans hway'
    · rw [h, elim_inl, id]
    · exact absurd hmapped hmapped'
  have hmeet : Intersects fileToTop 0x800000 0x2000 := by
    constructor <;> decide +kernel
  refine ⟨by decide +kernel, hgap, hmeet, ?_⟩
  rw [FirstFit, hgap]
  rintro (⟨h0, -⟩ | hleast)
  · exact h0 rfl
  · exact (hleast.found (by decide)).1.2.regions fileToTop mem_cons_self hmeet

/-- With one page of a file mapped, a search for two pages passes over it. -/
theorem first_fit_behind_filePage :
    Sorted [filePage] ∧ FirstFit (bare [filePage] 0x800000) 0x2000 0 := by
  have hL : Sorted [filePage] := sorted_singleton (by decide) (by decide) (by decide)
  refine ⟨hL, ((vmaFindGap_first_fit_iff hL).1.2 ?_) _ _ _ rfl ?_ ?_ ?_ ?_ ?_⟩
  all_goals decide

end XosKernel.Mmap
