/-
# Counted references

Each of finitely many holders has a list of things it refers to; a thing is outstanding as often
as it occurs in these lists. A reference count is right when it is that number.
-/
import Mathlib.Tactic

namespace XosKernel

open Finset

section Holders

variable {τ ρ : Type*} [Fintype τ] [DecidableEq ρ]

/-- How often `p` is referred to. -/
def outstanding (refs : τ → List ρ) (p : ρ) : ℕ := ∑ t, (refs t).count p

lemma count_le_outstanding (refs : τ → List ρ) (t : τ) (p : ρ) :
    (refs t).count p ≤ outstanding refs p :=
  single_le_sum (f := fun t => (refs t).count p) (fun _ _ => Nat.zero_le _)
    (mem_univ t)

lemma outstanding_pos_of_mem {refs : τ → List ρ} {t : τ} {p : ρ} (h : p ∈ refs t) :
    0 < outstanding refs p :=
  lt_of_lt_of_le (List.count_pos_iff.2 h) (count_le_outstanding refs t p)

lemma outstanding_of_eqOn [DecidableEq τ] {refs refs' : τ → List ρ} {t : τ}
    (h : ∀ u, u ≠ t → refs' u = refs u) (p : ρ) :
    outstanding refs' p + (refs t).count p = outstanding refs p + (refs' t).count p := by
  have hrest : ∑ u ∈ univ.erase t, (refs' u).count p =
      ∑ u ∈ univ.erase t, (refs u).count p :=
    sum_congr rfl fun u hu => by rw [h u (ne_of_mem_erase hu)]
  have hsplit := add_sum_erase univ (fun u => (refs u).count p) (mem_univ t)
  have hsplit' := add_sum_erase univ (fun u => (refs' u).count p) (mem_univ t)
  simp only [outstanding] at *
  omega

end Holders

end XosKernel
