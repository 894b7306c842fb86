/-
# Ring indices

A ring of `size` cells with a write index `head` and a read index `tail`, one cell of which
always stays empty: the ring is empty when the indices are equal and full when the next write
index would be the read index.
-/
import Mathlib.Tactic

namespace XosKernel

/-- The number of cells between the read index and the write index. -/
def ringUsed (size head tail : ℕ) : ℕ :=
  if tail ≤ head then head - tail else head + size - tail

section Ring

variable {size head tail : ℕ}

lemma ring_next {i : ℕ} (hi : i < size) : (i + 1) % size = if i + 1 = size then 0 else i + 1 := by
  split_ifs with h
  · rw [h, Nat.mod_self]
  · exact Nat.mod_eq_of_lt (by omega)

lemma ring_next_lt (hi : head < size) : (head + 1) % size < size :=
  Nat.mod_lt _ (by omega)

lemma ringUsed_self : ringUsed size head head = 0 := by
  simp [ringUsed]

lemma ringUsed_pos (ht : tail < size) (hne : head ≠ tail) : 0 < ringUsed size head tail := by
  unfold ringUsed
  split_ifs <;> omega

lemma ring_full_iff (hh : head < size) (ht : tail < size) :
    (head + 1) % size = tail ↔ ringUsed size head tail = size - 1 := by
  rw [ring_next hh]
  unfold ringUsed
  split_ifs <;> omega

lemma ringUsed_push_le (hh : head < size) (ht : tail < size) :
    ringUsed size ((head + 1) % size) tail ≤ ringUsed size head tail + 1 := by
  rw [ring_next hh]
  unfold ringUsed
  split_ifs <;> omega

end Ring

end XosKernel
