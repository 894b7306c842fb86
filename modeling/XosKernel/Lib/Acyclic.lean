/-
# Acyclic relations that grow by single edges

A relation is acyclic when no element reaches itself by one or more steps. A structure that
adds an edge `a ⟶ b` only after it has made sure that `b` does not reach `a` stays acyclic, and
for that it may use a search of bounded depth, provided the search answers *yes* when it gives
up: a *no* then means that every path has been followed to its end.
-/
import Mathlib.Tactic

namespace XosKernel

open Relation

variable {α : Type*} {r r' : α → α → Prop}

/-- No element reaches itself by one or more steps. -/
def Acyclic (r : α → α → Prop) : Prop := ∀ x, ¬ TransGen r x x

lemma acyclic_of_forall_not (h : ∀ x y, ¬ r x y) : Acyclic r := by
  intro x hx
  obtain ⟨y, hxy, -⟩ := TransGen.head'_iff.1 hx
  exact h x y hxy

lemma Acyclic.mono (h : Acyclic r) (hle : ∀ x y, r' x y → r x y) : Acyclic r' :=
  fun x hx => h x (TransGen.mono hle x x hx)

/-- A path that may use the new edge either does not, or leads to its source and then on from
its target. -/
lemma transGen_insert {a b x y : α} (hr : ∀ x y, r' x y → r x y ∨ x = a ∧ y = b)
    (h : TransGen r' x y) : TransGen r x y ∨ ReflTransGen r x a ∧ ReflTransGen r b y := by
  induction h with
  | single hxy =>
    obtain hold | ⟨rfl, rfl⟩ := hr _ _ hxy
    · exact .inl (.single hold)
    · exact .inr ⟨.refl, .refl⟩
  | tail _ hyz ih =>
    obtain hold | ⟨rfl, rfl⟩ := hr _ _ hyz
    · exact ih.imp (fun h => h.tail hold) (fun h => ⟨h.1, h.2.tail hold⟩)
    · -- the new edge is the last one, so what comes after it is empty
      exact .inr ⟨ih.elim TransGen.to_reflTransGen And.left, .refl⟩

/-- Adding an edge whose target does not reach its source keeps a relation acyclic. -/
theorem Acyclic.insert {a b : α} (h : Acyclic r) (hr : ∀ x y, r' x y → r x y ∨ x = a ∧ y = b)
    (hba : ¬ ReflTransGen r b a) : Acyclic r' := by
  intro x hx
  obtain hold | ⟨hxa, hbx⟩ := transGen_insert hr hx
  · exact h x hold
  · exact hba (hbx.trans hxa)

/-- A search of bounded depth: it answers yes at depth zero and at the target, and no only when
it answers no at every successor. Its no is the truth. -/
theorem not_reflTransGen_of_search (search : ℕ → α → Bool) {target : α}
    (hzero : ∀ x, search 0 x = true)
    (hsucc : ∀ n x, search (n + 1) x = false → x ≠ target ∧ ∀ y, r x y → search n y = false) :
    ∀ n x, search n x = false → ¬ ReflTransGen r x target := by
  intro n
  induction n with
  | zero =>
    intro x hx
    exact absurd (hzero x) (by rw [hx]; decide)
  | succ n ih =>
    intro x hx hreach
    obtain ⟨hne, hnext⟩ := hsucc n x hx
    obtain rfl | ⟨y, hxy, hy⟩ := hreach.cases_head
    · exact hne rfl
    · exact ih y (hnext y hxy) hy

end XosKernel
