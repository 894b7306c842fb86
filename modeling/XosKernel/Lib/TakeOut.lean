/-
# Taking the first matching elements out of a list

A queue shared by several groups of waiters is served by walking it from the front and
unlinking the first elements that match, at most a given number of them.
-/
import Mathlib.Tactic

namespace XosKernel

open List Nat

section TakeOut

variable {α : Type*} (p q : α → Bool)

/-- The first `n` elements that match, and the list without them. -/
def takeOut : List α → ℕ → List α × List α
  | l, 0 => ([], l)
  | [], _ + 1 => ([], [])
  | x :: l, n + 1 =>
    if p x then (x :: (takeOut l n).1, (takeOut l n).2)
    else ((takeOut l (n + 1)).1, x :: (takeOut l (n + 1)).2)

variable {p q}

@[simp] lemma takeOut_zero (l : List α) : takeOut p l 0 = ([], l) := by
  cases l <;> rfl

lemma takeOut_cons_pos {x : α} (hx : p x = true) (l : List α) (n : ℕ) :
    takeOut p (x :: l) (n + 1) = (x :: (takeOut p l n).1, (takeOut p l n).2) := by
  rw [takeOut, if_pos hx]

lemma takeOut_cons_neg {x : α} (hx : ¬p x = true) (l : List α) (n : ℕ) :
    takeOut p (x :: l) n = ((takeOut p l n).1, x :: (takeOut p l n).2) := by
  cases n with
  | zero => rw [takeOut_zero, takeOut_zero]
  | succ n => rw [takeOut, if_neg hx]

lemma takeOut_fst (l : List α) (n : ℕ) : (takeOut p l n).1 = (l.filter p).take n := by
  fun_induction takeOut p l n with
  | case1 l => rfl
  | case2 n => rfl
  | case3 x l n hx ih => rw [filter_cons_of_pos hx, take_succ_cons, ih]
  | case4 x l n hx ih => rw [filter_cons_of_neg hx, ih]

lemma takeOut_add (l : List α) (m n : ℕ) :
    takeOut p l (m + n) =
      ((takeOut p l m).1 ++ (takeOut p (takeOut p l m).2 n).1,
        (takeOut p (takeOut p l m).2 n).2) := by
  fun_induction takeOut p l m with
  | case1 l => rw [zero_add, nil_append]
  | case2 m => cases n <;> rfl
  | case3 x l m hx ih =>
    rw [succ_add, takeOut_cons_pos hx, ih]
    rfl
  | case4 x l m hx ih => rw [takeOut_cons_neg hx, ih, takeOut_cons_neg hx]

lemma takeOut_of_short {l : List α} {m : ℕ} (h : (takeOut p l m).1.length < m) (n : ℕ) :
    takeOut p l (m + n) = takeOut p l m := by
  fun_induction takeOut p l m with
  | case1 l => exact absurd h (not_lt_zero _)
  | case2 m =>
    rw [succ_add]
    rfl
  | case3 x l m hx ih => rw [succ_add, takeOut_cons_pos hx, ih (lt_of_succ_lt_succ h)]
  | case4 x l m hx ih => rw [takeOut_cons_neg hx, ih h]

lemma takeOut_snd_filter (hpq : ∀ x, p x = true → q x = true) (l : List α) (n : ℕ) :
    (takeOut p l n).2.filter q = (takeOut p (l.filter q) n).2 := by
  fun_induction takeOut p l n with
  | case1 l => rw [takeOut_zero]
  | case2 n => rfl
  | case3 x l n hx ih => rw [filter_cons_of_pos (hpq x hx), takeOut_cons_pos hx, ih]
  | case4 x l n hx ih =>
    by_cases hq : q x = true
    · rw [filter_cons_of_pos hq, filter_cons_of_pos hq, takeOut_cons_neg hx, ih]
    · rw [filter_cons_of_neg hq, filter_cons_of_neg hq, ih]

lemma takeOut_snd_filter_of_disjoint (hpq : ∀ x, p x = true → q x = false) (l : List α) (n : ℕ) :
    (takeOut p l n).2.filter q = l.filter q := by
  fun_induction takeOut p l n with
  | case1 l => rfl
  | case2 n => rfl
  | case3 x l n hx ih => rw [filter_cons_of_neg (by simp [hpq x hx]), ih]
  | case4 x l n hx ih => rw [filter_cons, filter_cons, ih]

lemma takeOut_congr {l : List α} (hpq : ∀ x ∈ l, p x = q x) (n : ℕ) :
    takeOut p l n = takeOut q l n := by
  induction l generalizing n with
  | nil => cases n <;> rfl
  | cons x l ih =>
    obtain ⟨hx, hl⟩ := forall_mem_cons.1 hpq
    cases n with
    | zero => rfl
    | succ n => rw [takeOut, takeOut, hx, ih hl, ih hl]

lemma take_filter_of_forall {l : List α} {n : ℕ} (h : ∀ x ∈ l.take n, q x = true) :
    (l.filter q).take n = l.take n := by
  induction l generalizing n with
  | nil => rfl
  | cons x l ih =>
    cases n with
    | zero => rfl
    | succ n =>
      rw [take_succ_cons] at h ⊢
      obtain ⟨hx, hl⟩ := forall_mem_cons.1 h
      rw [filter_cons_of_pos hx, take_succ_cons, ih hl]

end TakeOut

end XosKernel
