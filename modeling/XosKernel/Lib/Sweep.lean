/-
# Sweeps over a table

A sweep visits the entries of a table one after the other, and each visit changes its own entry
only. So an entry is found by its visit as it was at the start, and left as its visit leaves it. A
property of the whole state that a visit makes true, depending on the entry it finds, holds after
the sweep if it held before or some entry makes it true.
-/
import Mathlib.Tactic

namespace XosKernel

open List

section Sweep

variable {σ ι β : Type*} (visit : σ → ι → σ) (entry : σ → ι → β)

section

variable (hframe : ∀ s i j, i ≠ j → entry (visit s i) j = entry s j)
include hframe

lemma entry_foldl_of_not_mem
    (l : List ι) : ∀ (s : σ) (j : ι), j ∉ l → entry (l.foldl visit s) j = entry s j := by
  induction l with
  | nil => exact fun s j _ => rfl
  | cons i l ih =>
    intro s j hj
    have hne : i ≠ j := fun h => hj (h ▸ mem_cons_self)
    exact (ih (visit s i) j fun h => hj (mem_cons_of_mem _ h)).trans (hframe s i j hne)

lemma entry_foldl_of_mem (l : List ι)
    (hl : l.Nodup) : ∀ (s : σ) (j : ι), j ∈ l →
      ∃ s', entry s' j = entry s j ∧ entry (l.foldl visit s) j = entry (visit s' j) j := by
  induction l with
  | nil => exact fun s j hj => absurd hj not_mem_nil
  | cons i l ih =>
    intro s j hj
    obtain ⟨hi, hl⟩ := nodup_cons.1 hl
    obtain rfl | hj := mem_cons.1 hj
    · exact ⟨s, rfl, entry_foldl_of_not_mem visit entry hframe l _ j hi⟩
    · obtain ⟨s', hs', hend⟩ := ih hl (visit s i) j hj
      have hne : i ≠ j := fun h => hi (h ▸ hj)
      exact ⟨s', hs'.trans (hframe s i j hne), hend⟩

/-- A property that holds after a visit if it held before or the entry it finds makes it true. -/
lemma foldl_iff_exists {P : σ → Prop}
    {Q : ι → β → Prop} (hvisit : ∀ s i, P (visit s i) ↔ P s ∨ Q i (entry s i)) (l : List ι)
    (hl : l.Nodup) : ∀ s, P (l.foldl visit s) ↔ P s ∨ ∃ i ∈ l, Q i (entry s i) := by
  induction l with
  | nil => simp
  | cons i l ih =>
    intro s
    obtain ⟨hi, hl⟩ := nodup_cons.1 hl
    have hrest : ∀ j ∈ l, entry (visit s i) j = entry s j :=
      fun j hj => hframe s i j fun h => hi (h ▸ hj)
    rw [foldl_cons, ih hl, hvisit, or_assoc, exists_mem_cons_iff]
    refine or_congr_right (or_congr_right ?_)
    constructor
    · rintro ⟨j, hj, hQ⟩
      exact ⟨j, hj, hrest j hj ▸ hQ⟩
    · rintro ⟨j, hj, hQ⟩
      exact ⟨j, hj, (hrest j hj).symm ▸ hQ⟩

end

end Sweep

end XosKernel
