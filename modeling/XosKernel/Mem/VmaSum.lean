/-
# Sums over region lists

A quantity of regions is summed over a region list, and the functions of the list log what they do
to it elsewhere. The sum less what the log has gained is the balance. If every turn of the loop over
a range leaves the balance of its region as it is, so does the loop, also when it stops at a failed
allocation; and merging leaves it as it is if the regions that can be joined add up.
-/
import XosKernel.Mem.Mremap

namespace XosKernel.Vma

open List Option

section Sum

variable (w : Region → ℤ)

def total (L : List Region) : ℤ := (L.map w).sum

@[simp] lemma total_nil : total w [] = 0 := rfl

@[simp] lemma total_cons (r : Region) (L : List Region) : total w (r :: L) = w r + total w L :=
  sum_cons

@[simp] lemma total_append (L M : List Region) : total w (L ++ M) = total w L + total w M := by
  simp [total]

/-! ## The loop over a range -/

variable (gain : Ctx → ℤ) (good : Region → Prop)

/-- A region is left as it is, or replaced by good ones with the same balance. -/
def Conserves (c : Ctx) (r : Region) : Option (List Region) × Ctx → Prop
  | (none, c') => gain c' = gain c
  | (some pieces, c') =>
    total w pieces - gain c' = w r - gain c ∧ ∀ p ∈ pieces, good p

variable {w gain good} {oracle : ℕ → Bool} {onPiece : Ctx → Region → List Region × Ctx}
  {addr stop : ℕ}

/-- A turn that puts pieces in place of a region, and the rest of the loop. -/
lemma Conserves.append {c c1 c2 : Ctx} {cur : Region} {next pieces rest : List Region}
    (h : Conserves w gain good c cur (some pieces, c1))
    (hrest : total w rest - gain c2 = total w next - gain c1 ∧ ∀ r ∈ rest, good r) :
    total w (pieces ++ rest) - gain c2 = total w (cur :: next) - gain c ∧
      ∀ r ∈ pieces ++ rest, good r := by
  obtain ⟨hpiece, hgood⟩ := h
  obtain ⟨hrest, hgood'⟩ := hrest
  rw [total_append, total_cons]
  exact ⟨by linarith, forall_mem_append.2 ⟨hgood, hgood'⟩⟩

variable (w gain good) in
/-- The loop conserves what each of its turns conserves. -/
theorem rangeLoop_conserves
    (hfront : ∀ c r, good r → r.vaddr < stop → addr < r.stop → r.vaddr < addr →
      Conserves w gain good c r (cutOut oracle onPiece c r addr
        (if r.stop < stop then u64Sub r.stop addr else u64Sub stop addr)))
    (htail : ∀ c r, good r → r.vaddr < stop → addr < r.stop → addr ≤ r.vaddr → stop < r.stop →
      Conserves w gain good c r (cutOut oracle onPiece c r r.vaddr (u64Sub stop r.vaddr)))
    (hin : ∀ c r, good r → r.vaddr < stop → addr < r.stop → addr ≤ r.vaddr → r.stop ≤ stop →
      Conserves w gain good c r (some (onPiece c r).1, (onPiece c r).2))
    (L : List Region) : ∀ c, (∀ r ∈ L, good r) →
      (total w (rangeLoop oracle onPiece addr stop c L).2.1 -
          gain (rangeLoop oracle onPiece addr stop c L).2.2 = total w L - gain c) ∧
        ∀ r ∈ (rangeLoop oracle onPiece addr stop c L).2.1, good r := by
  intro c hL
  fun_induction rangeLoop oracle onPiece addr stop c L with
  | case1 => exact ⟨rfl, hL⟩
  | case2 => exact ⟨rfl, hL⟩
  | case3 c cur next _ _ e rest c1 heq ih =>
    obtain ⟨hcur, hnext⟩ := forall_mem_cons.1 hL
    rw [heq] at ih
    obtain ⟨hrest, hgood⟩ := ih hnext
    rw [total_cons, total_cons]
    exact ⟨by linarith, forall_mem_cons.2 ⟨hcur, hgood⟩⟩
  | case4 c cur next hbreak hskip hf splitLen c1 hcut =>
    have h := hfront c cur (hL cur mem_cons_self) (not_le.1 hbreak) (not_le.1 hskip) hf
    rw [hcut] at h
    exact ⟨by rw [show gain c1 = gain c from h], hL⟩
  | case5 c cur next hbreak hskip hf splitLen pieces c1 hcut e rest c2 heq ih =>
    obtain ⟨hcur, hnext⟩ := forall_mem_cons.1 hL
    have h := hfront c cur hcur (not_le.1 hbreak) (not_le.1 hskip) hf
    rw [hcut] at h
    rw [heq] at ih
    exact h.append (ih hnext)
  | case6 c cur next hbreak hskip hf ht c1 hcut =>
    have h := htail c cur (hL cur mem_cons_self) (not_le.1 hbreak) (not_le.1 hskip) (not_lt.1 hf) ht
    rw [hcut] at h
    exact ⟨by rw [show gain c1 = gain c from h], hL⟩
  | case7 c cur next hbreak hskip hf ht pieces c1 hcut e rest c2 heq ih =>
    obtain ⟨hcur, hnext⟩ := forall_mem_cons.1 hL
    have h := htail c cur hcur (not_le.1 hbreak) (not_le.1 hskip) (not_lt.1 hf) ht
    rw [hcut] at h
    rw [heq] at ih
    exact h.append (ih hnext)
  | case8 c cur next hbreak hskip hf ht kept c1 hkept e rest c2 heq ih =>
    obtain ⟨hcur, hnext⟩ := forall_mem_cons.1 hL
    have h := hin c cur hcur (not_le.1 hbreak) (not_le.1 hskip) (not_lt.1 hf) (not_lt.1 ht)
    rw [hkept] at h
    rw [heq] at ih
    exact h.append (ih hnext)

end Sum

/-! ## Merging -/

section Merge

variable {w : Region → ℤ} {good : Region → Prop}

def Joins (w : Region → ℤ) (good : Region → Prop) : Prop :=
  ∀ a b, good a → good b → Mmap.joins a b = true →
    w (Mmap.join a b) = w a + w b ∧ good (Mmap.join a b)

lemma total_mergeNext (hw : Joins w good) {r : Region} {post : List Region} (hr : good r)
    (hpost : ∀ p ∈ post, good p) :
    w (Mmap.mergeNext r post).1 + total w (Mmap.mergeNext r post).2 = w r + total w post ∧
      good (Mmap.mergeNext r post).1 ∧ ∀ p ∈ (Mmap.mergeNext r post).2, good p := by
  cases post with
  | nil => exact ⟨rfl, hr, hpost⟩
  | cons n post =>
    obtain ⟨hn, hpost'⟩ := forall_mem_cons.1 hpost
    rw [Mmap.mergeNext]
    split_ifs with h
    · obtain ⟨hsum, hgood⟩ := hw r n hr hn h
      refine ⟨?_, hgood, hpost'⟩
      simp only [total_cons, hsum]
      ring
    · exact ⟨rfl, hr, hpost⟩

lemma total_vmaMerge (hw : Joins w good) {pre post : List Region} {r : Region}
    (hL : ∀ p ∈ pre ++ r :: post, good p) :
    total w (Mmap.vmaMerge pre r post) = total w (pre ++ r :: post) ∧
      ∀ p ∈ Mmap.vmaMerge pre r post, good p := by
  obtain ⟨hpre, hrpost⟩ := forall_mem_append.1 hL
  obtain ⟨hr, hpost⟩ := forall_mem_cons.1 hrpost
  obtain ⟨hnext, hgood, hgoods⟩ := total_mergeNext hw hr hpost
  have hkeep : total w (pre ++ (Mmap.mergeNext r post).1 :: (Mmap.mergeNext r post).2) =
      total w (pre ++ r :: post) ∧
      ∀ p ∈ pre ++ (Mmap.mergeNext r post).1 :: (Mmap.mergeNext r post).2, good p := by
    refine ⟨?_, forall_mem_append.2 ⟨hpre, forall_mem_cons.2 ⟨hgood, hgoods⟩⟩⟩
    rw [total_append, total_append, total_cons, total_cons, hnext]
  rw [Mmap.vmaMerge]
  cases hlast : pre.getLast? with
  | none => exact hkeep
  | some q =>
    dsimp only
    split_ifs with h
    · have hsplit : pre.dropLast ++ [q] = pre := dropLast_append_getLast? q hlast
      have hq : good q := hpre q (hsplit ▸ mem_append_right _ mem_cons_self)
      obtain ⟨hsum, hjoin⟩ := hw q _ hq hgood h
      refine ⟨?_, forall_mem_append.2 ⟨fun p hp => ?_, forall_mem_cons.2 ⟨hjoin, hgoods⟩⟩⟩
      · nth_rewrite 2 [← hsplit]
        simp only [total_append, total_cons, total_nil, hsum]
        linarith
      · exact hpre p (mem_of_mem_dropLast hp)
    · exact hkeep

lemma eq_of_findSplit {addr : ℕ} {L pre post : List Region} {r : Region}
    (h : Mmap.findSplit addr L = some (pre, r, post)) : L = pre ++ r :: post := by
  induction L generalizing pre with
  | nil => cases h
  | cons mr rest ih =>
    rw [Mmap.findSplit] at h
    split_ifs at h with h1 h2
    · obtain ⟨rfl, rfl, rfl⟩ : [] = pre ∧ mr = r ∧ rest = post := by simpa using h
      rfl
    · obtain ⟨⟨pre', r', post'⟩, hrest, heq⟩ := map_eq_some_iff.1 h
      obtain ⟨rfl, rfl, rfl⟩ : mr :: pre' = pre ∧ r' = r ∧ post' = post := by simpa using heq
      rw [ih hrest]
      rfl

lemma total_mergeFound (hw : Joins w good) {L : List Region} (hL : ∀ p ∈ L, good p) (addr : ℕ) :
    total w (Mmap.mergeFound L addr) = total w L ∧ ∀ p ∈ Mmap.mergeFound L addr, good p := by
  rw [Mmap.mergeFound]
  cases hf : Mmap.findSplit addr L with
  | none => exact ⟨rfl, hL⟩
  | some x =>
    obtain rfl := eq_of_findSplit hf
    exact total_vmaMerge hw hL

lemma perm_vmaInsertSorted {r : Region} {L M : List Region} (h : Mmap.vmaInsertSorted r L = some M)
    : M.Perm (r :: L) := by
  induction L generalizing M with
  | nil => exact some.inj h ▸ List.Perm.refl _
  | cons mr rest ih =>
    rw [Mmap.vmaInsertSorted] at h
    split_ifs at h
    · obtain ⟨M', hM', rfl⟩ := map_eq_some_iff.1 h
      exact ((ih hM').cons mr).trans (List.Perm.swap r mr rest)
    · exact some.inj h ▸ List.Perm.refl _

lemma total_vmaInsertSorted {r : Region} {L M : List Region} (h : Mmap.vmaInsertSorted r L = some M)
    : total w M = w r + total w L :=
  ((perm_vmaInsertSorted h).map w).sum_eq.trans (total_cons ..)

end Merge

end XosKernel.Vma
