/-
# Lists threaded through an array

`Linked next a l z` says that following `next` from the index `a` visits exactly the indices of `l`,
in order, and ends at `z`. A list is extended and shortened at its front, and it does not notice
what becomes of the entries of other indices.
-/
import Mathlib.Data.List.Basic
import Mathlib.Order.Nat
import Mathlib.Logic.Function.Basic

namespace XosKernel

open Function

/-- The indices of `l` are linked from `a` to `z`. -/
def Linked (next : ℕ → ℕ) : ℕ → List ℕ → ℕ → Prop
  | a, [], z => a = z
  | a, i :: l, z => a = i ∧ Linked next (next i) l z

namespace Linked

variable {next next' : ℕ → ℕ} {a i z v : ℕ} {l : List ℕ}

lemma congr (h : Linked next a l z) (hc : ∀ i ∈ l, next' i = next i) : Linked next' a l z := by
  induction l generalizing a with
  | nil => exact h
  | cons i l ih =>
    obtain ⟨hi, hl⟩ := List.forall_mem_cons.1 hc
    exact ⟨h.1, hi.symm ▸ ih h.2 hl⟩

lemma push (h : Linked next a l z) (hi : i ∉ l) : Linked (update next i a) i (i :: l) z := by
  refine ⟨rfl, ?_⟩
  rw [update_self]
  exact h.congr fun j hj => update_of_ne (ne_of_mem_of_not_mem hj hi) _ _

lemma eq_head (h : Linked next a (i :: l) z) : a = i := h.1

lemma tail (h : Linked next a (i :: l) z) : Linked next (next i) l z := h.2

lemma range' {n : ℕ} (h : ∀ i, a ≤ i → i + 1 < a + n → next i = i + 1)
    (hlast : 0 < n → next (a + n - 1) = z) : 0 < n → Linked next a (List.range' a n) z := by
  induction n generalizing a with
  | zero => exact fun h => absurd h (lt_irrefl 0)
  | succ n ih =>
    intro _
    refine ⟨rfl, ?_⟩
    by_cases hn : n = 0
    · subst hn
      exact hlast Nat.one_pos
    · rw [h a le_rfl (by omega)]
      refine ih (fun i h1 h2 => h i (by omega) (by omega)) (fun _ => ?_) (Nat.pos_of_ne_zero hn)
      have := hlast (Nat.succ_pos n)
      rwa [show a + 1 + n - 1 = a + (n + 1) - 1 by omega]

end Linked

end XosKernel
