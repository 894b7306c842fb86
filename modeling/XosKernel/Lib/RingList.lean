/-
# A list kept in a ring

`Kept size buf i l` says that the cells of a ring of `size` cells, from the one of index `i` on,
hold the elements of `l`. The index is a count that is reduced only when a cell is accessed, so that
the places of several lists behind each other are simply added up.
-/
import Mathlib.Tactic

namespace XosKernel

open List

/-- The cells from `i` on hold the elements of `l`. -/
def Kept {α : Type*} (size : ℕ) (buf : ℕ → α) (i : ℕ) (l : List α) : Prop :=
  ∀ k, k < l.length → l[k]? = some (buf ((i + k) % size))

namespace Kept

variable {α : Type*} {size i : ℕ} {buf : ℕ → α} {l m : List α} {a : α}

lemma nil : Kept size buf i [] := fun _ h => absurd h (Nat.not_lt_zero _)

lemma append_iff : Kept size buf i (l ++ m) ↔ Kept size buf i l ∧ Kept size buf (i + l.length)
    m := by
  constructor
  · intro h
    refine ⟨fun k hk => ?_, fun k hk => ?_⟩
    · have := h k (by rw [length_append]; omega)
      rwa [getElem?_append_left hk] at this
    · have := h (l.length + k) (by rw [length_append]; omega)
      rwa [getElem?_append_right (Nat.le_add_right _ _), Nat.add_sub_cancel_left,
      ← Nat.add_assoc] at this
  · rintro ⟨hl, hm⟩ k hk
    by_cases hkl : k < l.length
    · rw [getElem?_append_left hkl]
      exact hl k hkl
    · have := hm (k - l.length) (by rw [length_append] at hk; omega)
      rw [getElem?_append_right (not_lt.1 hkl), this]
      congr 3
      omega

lemma of_prefix (h : Kept size buf i l) (hm : m <+: l) : Kept size buf i m := by
  obtain ⟨r, rfl⟩ := hm
  exact (append_iff.1 h).1

lemma singleton_iff : Kept size buf i [a] ↔ buf (i % size) = a := by
  constructor
  · intro h
    exact (Option.some.inj (h 0 Nat.one_pos)).symm
  · intro h k hk
    obtain rfl : k = 0 := Nat.lt_one_iff.1 hk
    rw [Nat.add_zero, h]
    rfl

lemma update (h : Kept size buf i l) {j : ℕ} (hj : l.length ≤ j) (hsize : j < size) :
    Kept size (Function.update buf ((i + j) % size) a) i l := by
  intro k hk
  rw [Function.update_of_ne]
  · exact h k hk
  · intro heq
    have hmod : (i + k) % size = (i + j) % size := heq
    have hk' : k ≡ j [MOD size] := Nat.ModEq.add_left_cancel' i hmod
    have := Nat.ModEq.eq_of_lt_of_lt hk' (by omega) hsize
    omega

lemma push (h : Kept size buf i l) (hsize : l.length < size) :
    Kept size (Function.update buf ((i + l.length) % size) a) i (l ++ [a]) :=
  append_iff.2 ⟨h.update le_rfl hsize, singleton_iff.2 (Function.update_self ..)⟩

lemma drop (h : Kept size buf i l) {n : ℕ} (hn : n ≤ l.length) :
    Kept size buf (i + n) (l.drop n) := by
  have := h
  rw [← take_append_drop n l] at this
  have := (append_iff.1 this).2
  rwa [length_take, min_eq_left hn] at this

end Kept

/-- Read `n` cells from the cell `i` on. -/
def ringTake {α : Type*} (size : ℕ) (buf : ℕ → α) : ℕ → ℕ → List α
  | 0, _ => []
  | n + 1, i => buf i :: ringTake size buf n ((i + 1) % size)

section

variable {α : Type*} {size : ℕ} {buf : ℕ → α}

lemma Kept.ringTake_eq : ∀ {n i : ℕ} {l : List α}, Kept size buf i l → n ≤ l.length →
    ringTake size buf n (i % size) = l.take n
  | 0, _, _, _, _ => rfl
  | n + 1, i, l, h, hn => by
    obtain ⟨a, l, rfl⟩ := exists_cons_of_length_pos (Nat.lt_of_lt_of_le (Nat.succ_pos n) hn)
    obtain ⟨ha, hl⟩ := Kept.append_iff.1 (show Kept size buf i ([a] ++ l) from h)
    have hl : Kept size buf (i + 1) l := hl
    rw [ringTake, Kept.singleton_iff.1 ha, Nat.mod_add_mod,
      hl.ringTake_eq (Nat.le_of_succ_le_succ hn)]
    rfl

lemma length_ringTake (n i : ℕ) : (ringTake size buf n i).length = n := by
  induction n generalizing i with
  | zero => rfl
  | succ n ih => rw [ringTake, length_cons, ih]

lemma kept_ringTake (n i : ℕ) : Kept size buf i (ringTake size buf n (i % size)) := by
  induction n generalizing i with
  | zero => exact Kept.nil
  | succ n ih =>
    rw [ringTake, Nat.mod_add_mod]
    exact Kept.append_iff.2 ⟨Kept.singleton_iff.2 rfl, ih (i + 1)⟩

lemma ringTake_push {n i : ℕ} (hn : n < size) (a : α) :
    ringTake size (Function.update buf ((i + n) % size) a) (n + 1) (i % size) =
      ringTake size buf n (i % size) ++ [a] := by
  have hlen : (ringTake size buf n (i % size)).length = n := length_ringTake ..
  have hpush := (kept_ringTake n i).push (a := a) (by rwa [hlen])
  rw [hlen] at hpush
  have hlen' : (ringTake size buf n (i % size) ++ [a]).length = n + 1 := by simp [hlen]
  rw [hpush.ringTake_eq hlen'.ge, take_of_length_le hlen'.le]

end

end XosKernel
