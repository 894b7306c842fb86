/-
# Doubly linked lists in a heap

A heap is given by its two link fields `nx pv : ι → Option ι`; a null pointer is `none`.
`DSeg nx pv l xs r` says that the nodes `xs` are linked in this order, that the first of
them points back to `l` and that the last of them points forward to `r`. The pointer
through which the segment is entered is `fst xs r`, and the one through which it is left
backwards is `lst xs l`; with these two, a segment of a concatenation is a pair of
segments (`dSeg_append`), and every edit of a list is a change at the seam.
-/
import Mathlib.Tactic

namespace XosKernel.DList

open List Option

variable {ι : Type*}

/-- The pointer to the first node of `xs`, and `r` when there is none. -/
def fst (xs : List ι) (r : Option ι) : Option ι := xs.head?.or r

/-- The pointer to the last node of `xs`, and `l` when there is none. -/
def lst (xs : List ι) (l : Option ι) : Option ι := xs.getLast?.or l

@[simp] lemma fst_nil (r : Option ι) : fst [] r = r := rfl

@[simp] lemma fst_cons (x : ι) (xs : List ι) (r : Option ι) : fst (x :: xs) r = some x := rfl

@[simp] lemma lst_nil (l : Option ι) : lst [] l = l := rfl

@[simp] lemma lst_singleton (x : ι) (l : Option ι) : lst [x] l = some x := rfl

@[simp] lemma lst_concat (xs : List ι) (x : ι) (l : Option ι) : lst (xs ++ [x]) l = some x := by
  simp [lst]

lemma lst_cons (x : ι) (xs : List ι) (l : Option ι) : lst (x :: xs) l = lst xs (some x) := by
  cases xs with
  | nil => rfl
  | cons y ys => simp [lst, List.getLast?_cons]

lemma fst_append (xs ys : List ι) (r : Option ι) : fst (xs ++ ys) r = fst xs (fst ys r) := by
  cases xs <;> rfl

lemma lst_eq_none {xs : List ι} : lst xs none = none ↔ xs = [] := by
  simp [lst]

lemma mem_of_lst {xs : List ι} {x : ι} (h : lst xs none = some x) : x ∈ xs := by
  simp only [lst, or_none] at h
  exact mem_of_getLast? h

lemma mem_of_fst {xs : List ι} {x : ι} (h : fst xs none = some x) : x ∈ xs := by
  simp only [fst, or_none] at h
  exact mem_of_head? h

/-- The nodes `xs` form a doubly linked segment between `l` and `r`. -/
def DSeg (nx pv : ι → Option ι) : Option ι → List ι → Option ι → Prop
  | _, [], _ => True
  | l, x :: xs, r => pv x = l ∧ nx x = fst xs r ∧ DSeg nx pv (some x) xs r

variable {nx pv nx' pv' : ι → Option ι} {l l' r r' : Option ι} {xs ys : List ι}

@[simp] lemma dSeg_nil : DSeg nx pv l [] r := trivial

lemma dSeg_cons {x : ι} :
    DSeg nx pv l (x :: xs) r ↔ pv x = l ∧ nx x = fst xs r ∧ DSeg nx pv (some x) xs r :=
  Iff.rfl

lemma dSeg_append :
    DSeg nx pv l (xs ++ ys) r ↔ DSeg nx pv l xs (fst ys r) ∧ DSeg nx pv (lst xs l) ys r := by
  induction xs generalizing l with
  | nil => simp
  | cons x xs ih =>
    rw [cons_append, dSeg_cons, dSeg_cons, ih, fst_append, lst_cons]
    tauto

lemma DSeg.congr (h : DSeg nx pv l xs r) (hn : ∀ x ∈ xs, nx' x = nx x)
    (hp : ∀ x ∈ xs, pv' x = pv x) : DSeg nx' pv' l xs r := by
  induction xs generalizing l with
  | nil => trivial
  | cons x xs ih =>
    obtain ⟨h1, h2, h3⟩ := h
    refine ⟨(hp x (by simp)).trans h1, (hn x (by simp)).trans h2, ?_⟩
    exact ih h3 (fun y hy => hn y (by simp [hy])) (fun y hy => hp y (by simp [hy]))

lemma DSeg.nx_lst {x : ι} (h : DSeg nx pv l xs r) (hx : lst xs none = some x) : nx x = r := by
  rcases eq_nil_or_concat xs with rfl | ⟨ys, y, rfl⟩
  · cases hx
  · rw [concat_eq_append, lst_concat] at hx
    rw [concat_eq_append, dSeg_append] at h
    cases hx
    exact h.2.2.1

lemma DSeg.nx_mem {x y : ι} (h : DSeg nx pv l xs none) (hx : x ∈ xs) (hy : nx x = some y) :
    y ∈ xs := by
  induction xs generalizing l with
  | nil => cases hx
  | cons z xs ih =>
    obtain ⟨-, hz, hrest⟩ := h
    rcases mem_cons.1 hx with rfl | hx
    · exact mem_cons_of_mem _ (mem_of_fst (hz.symm.trans hy))
    · exact mem_cons_of_mem _ (ih hrest hx)

lemma DSeg.redirect_right (h : DSeg nx pv l xs r) (hnd : xs.Nodup)
    (hn : ∀ x ∈ xs, lst xs none ≠ some x → nx' x = nx x)
    (hl : ∀ x, lst xs none = some x → nx' x = r')
    (hp : ∀ x ∈ xs, pv' x = pv x) : DSeg nx' pv' l xs r' := by
  rcases eq_nil_or_concat xs with rfl | ⟨ys, y, rfl⟩
  · trivial
  · rw [concat_eq_append] at *
    rw [dSeg_append] at h ⊢
    have hy : y ∉ ys := fun hy => (nodup_append.1 hnd).2.2 y hy y (by simp) rfl
    refine ⟨h.1.congr ?_ (fun x hx => hp x (by simp [hx])), ?_, ?_, trivial⟩
    · intro x hx
      refine hn x (by simp [hx]) ?_
      rw [lst_concat]
      rintro ⟨⟩
      exact hy hx
    · rw [hp y (by simp)]
      exact h.2.1
    · exact hl y (lst_concat ys y none)

lemma DSeg.redirect_left (h : DSeg nx pv l xs r) (hnd : xs.Nodup)
    (hp : ∀ x ∈ xs, fst xs none ≠ some x → pv' x = pv x)
    (hf : ∀ x, fst xs none = some x → pv' x = l')
    (hn : ∀ x ∈ xs, nx' x = nx x) : DSeg nx' pv' l' xs r := by
  cases xs with
  | nil => trivial
  | cons x xs =>
    obtain ⟨h1, h2, h3⟩ := h
    have hx : x ∉ xs := (nodup_cons.1 hnd).1
    refine ⟨hf x rfl, (hn x (by simp)).trans h2, h3.congr ?_ ?_⟩
    · exact fun y hy => hn y (by simp [hy])
    · intro y hy
      refine hp y (by simp [hy]) ?_
      rintro ⟨⟩
      exact hx hy

/-- Following `nx` from `p` visits `xs` and ends at the null pointer. -/
def Path (nx : ι → Option ι) : Option ι → List ι → Prop
  | p, [] => p = none
  | p, x :: xs => p = some x ∧ Path nx (nx x) xs

lemma Path.unique {p : Option ι} (h : Path nx p xs) (h' : Path nx p ys) : xs = ys := by
  induction xs generalizing p ys with
  | nil =>
    cases ys with
    | nil => rfl
    | cons y ys => exact nomatch h.symm.trans h'.1
  | cons x xs ih =>
    cases ys with
    | nil => exact nomatch h.1.symm.trans h'
    | cons y ys =>
      obtain rfl : x = y := some.inj (h.1.symm.trans h'.1)
      rw [ih h.2 h'.2]

lemma DSeg.path (h : DSeg nx pv l xs none) : Path nx (fst xs none) xs := by
  induction xs generalizing l with
  | nil => rfl
  | cons x xs ih => exact ⟨rfl, h.2.1 ▸ ih h.2.2⟩

/-! ### Walking a list -/

/-- The loop `while (cur != NULL && !stop(cur)) { prev = cur; cur = cur->next; }`, for at
most `fuel` visited nodes: the pointers `prev` and `cur` at its end, and `none` when the
fuel is used up. -/
def walk (nx : ι → Option ι) (stop : ι → Bool) :
    ℕ → Option ι → Option ι → Option (Option ι × Option ι)
  | _, prev, none => some (prev, none)
  | 0, _, some _ => none
  | fuel + 1, prev, some cur =>
      if stop cur then some (prev, some cur) else walk nx stop fuel (some cur) (nx cur)

lemma walk_eq (stop : ι → Bool) (xs ys : List ι) {fuel : ℕ}
    (h : DSeg nx pv l (xs ++ ys) none)
    (hxs : ∀ x ∈ xs, stop x = false) (hys : ∀ y, fst ys none = some y → stop y = true)
    (hfuel : (xs ++ ys).length ≤ fuel) :
    walk nx stop fuel l (fst (xs ++ ys) none) = some (lst xs l, fst ys none) := by
  induction xs generalizing l fuel with
  | nil =>
    cases ys with
    | nil => cases fuel <;> rfl
    | cons y ys =>
      obtain ⟨k, rfl⟩ : ∃ k, fuel = k + 1 := ⟨fuel - 1, by simp at hfuel; omega⟩
      simp [walk, hys y rfl]
  | cons x xs ih =>
    obtain ⟨k, rfl⟩ : ∃ k, fuel = k + 1 := ⟨fuel - 1, by simp at hfuel; omega⟩
    obtain ⟨-, hnx, hrest⟩ := h
    have hk : (xs ++ ys).length ≤ k := by simpa using hfuel
    rw [cons_append, fst_cons, walk, hxs x (by simp), hnx, lst_cons]
    exact ih hrest (fun z hz => hxs z (by simp [hz])) hk

end XosKernel.DList
