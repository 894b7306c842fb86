/-
# Following a successor function

`chase next P n a` follows `next` from `a` for at most `n` steps and stops at the first value that
fails `P`. `Elem next P a i b` says that `b` is the `i`-th value on the way from `a` and that every
value up to it satisfies `P`; from such a value the way goes on as it does from `a`.
-/
import Mathlib.Tactic

namespace XosKernel

variable {α : Type*} (next : α → α) (P : α → Prop)

def chase [DecidablePred P] : ℕ → α → α
  | 0, a => a
  | n + 1, a => if P a then chase n (next a) else a

/-- The `i`-th value on the way from `a`. -/
def Elem (a : α) : ℕ → α → Prop
  | 0, b => b = a ∧ P b
  | i + 1, b => ∃ c, Elem a i c ∧ next c = b ∧ P b

variable {next P} {a b : α} {i n : ℕ}

lemma Elem.holds (h : Elem next P a i b) : P b := by
  cases i with
  | zero => exact h.2
  | succ i => exact h.choose_spec.2.2

section

variable [DecidablePred P]

lemma chase_of_not (ha : ¬ P a) : chase next P n a = a := by
  cases n with
  | zero => rfl
  | succ n => exact if_neg ha

lemma chase_succ (ha : P a) : chase next P (n + 1) a = chase next P n (next a) := if_pos ha

lemma Elem.chase_add (h : Elem next P a i b) (n : ℕ) : chase next P (i + n) a =
    chase next P n b := by
  induction i generalizing b n with
  | zero => rw [zero_add, h.1]
  | succ i ih =>
    obtain ⟨c, hc, rfl, -⟩ := h
    rw [add_assoc, add_comm 1, ih hc, chase_succ hc.holds]

end

end XosKernel
