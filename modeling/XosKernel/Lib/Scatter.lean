/-
# Scattering a sequence over consecutive segments

A store is a pair of a place and a value, and a list of stores is read back place by place. A
segment is a pair of a place and a length. Segments that follow one another are filled from the
left, and what is left of them afterwards again follows one another; so filling them piece by piece
stores the concatenation of the pieces at consecutive places.
-/
import Mathlib.Tactic

namespace XosKernel.Scatter

open List Nat

variable {α : Type*}

/-- The values at the places below `n`, the last store at a place counting. -/
def readBack (d : α) (n : ℕ) (stores : List (ℕ × α)) : List α :=
  (List.range n).map fun k => (stores.reverse.lookup k).getD d

/-- The stores of consecutive values from the place `q` on. -/
def stamp (q : ℕ) (xs : List α) : List (ℕ × α) := xs.mapIdx fun j x => (q + j, x)

@[simp] lemma stamp_nil (q : ℕ) : stamp q ([] : List α) = [] := rfl

lemma stamp_append (q : ℕ) (xs ys : List α) :
    stamp q (xs ++ ys) = stamp q xs ++ stamp (q + xs.length) ys := by
  simp only [stamp, mapIdx_append, add_assoc, add_comm xs.length]

/-- What was stored at consecutive places from `0` on is read back. -/
theorem readBack_stamp (d : α) (xs : List α) : readBack d xs.length (stamp 0 xs) = xs := by
  induction xs using List.reverseRecOn with
  | nil => rfl
  | append_singleton xs x ih =>
    have hrev : (stamp 0 (xs ++ [x])).reverse = (xs.length, x) :: (stamp 0 xs).reverse := by
      simp [stamp]
    rw [readBack, hrev, length_append, length_singleton, range_succ, map_append]
    congr 1
    · refine Eq.trans (map_congr_left fun k hk => ?_) ih
      have hne : (k == xs.length) = false := beq_false_of_ne (mem_range.1 hk).ne
      rw [lookup_cons, hne]
    · simp

/-- The segments of the given lengths, from the place `q` on. -/
def segments : ℕ → List ℕ → List (ℕ × ℕ)
  | _, [] => []
  | q, l :: ls => (q, l) :: segments (q + l) ls

/-- How much the segments hold. -/
def room (segs : List (ℕ × ℕ)) : ℕ := (segs.map Prod.snd).sum

/-- The segments follow one another from the place `q` on; an empty segment is nowhere. -/
def Consecutive : ℕ → List (ℕ × ℕ) → Prop
  | _, [] => True
  | q, (p, l) :: segs => (0 < l → p = q) ∧ Consecutive (q + l) segs

/-- Take the first `n` places out of the segments. -/
def advance : List (ℕ × ℕ) → ℕ → List (ℕ × ℕ)
  | [], _ => []
  | (p, l) :: segs, n =>
    if n = 0 then (p, l) :: segs
    else if l ≤ n then (p, 0) :: advance segs (n - l)
    else (p + n, l - n) :: segs

@[simp] lemma room_cons (p l : ℕ) (segs : List (ℕ × ℕ)) :
    room ((p, l) :: segs) = l + room segs := sum_cons

lemma room_segments (q : ℕ) (ls : List ℕ) : room (segments q ls) = ls.sum := by
  induction ls generalizing q with
  | nil => rfl
  | cons l ls ih => rw [segments, room_cons, ih, sum_cons]

lemma consecutive_segments (q : ℕ) (ls : List ℕ) : Consecutive q (segments q ls) := by
  induction ls generalizing q with
  | nil => trivial
  | cons l ls ih => exact ⟨fun _ => rfl, ih (q + l)⟩

lemma mem_segments {q : ℕ} {ls : List ℕ} {x : ℕ × ℕ} (h : x ∈ segments q ls) : x.2 ∈ ls := by
  induction ls generalizing q with
  | nil => exact absurd h not_mem_nil
  | cons l ls ih =>
    obtain rfl | h := mem_cons.1 h
    · exact mem_cons_self
    · exact mem_cons_of_mem _ (ih h)

variable {segs : List (ℕ × ℕ)} {n : ℕ}

lemma consecutive_advance {q : ℕ} (hc : Consecutive q segs)
    (hn : n ≤ room segs) : Consecutive (q + n) (advance segs n) := by
  fun_induction advance segs n generalizing q with
  | case1 n => trivial
  | case2 p l segs => exact hc
  | case3 p l segs n h0 hl ih =>
    rw [room_cons] at hn
    refine ⟨fun h => absurd h (lt_irrefl 0), ?_⟩
    have := ih hc.2 (show n - l ≤ room segs by omega)
    rwa [show q + l + (n - l) = q + n + 0 by omega] at this
  | case4 p l segs n h0 hl =>
    refine ⟨fun _ => by rw [hc.1 (by omega)], ?_⟩
    rw [show q + n + (l - n) = q + l by omega]
    exact hc.2

lemma room_advance (hn : n ≤ room segs) : room (advance segs n) + n = room segs := by
  fun_induction advance segs n with
  | case1 n => exact le_zero.1 hn ▸ rfl
  | case2 p l segs => rfl
  | case3 p l segs n h0 hl ih =>
    rw [room_cons] at hn ⊢
    have := ih (show n - l ≤ room segs by omega)
    rw [room_cons]
    omega
  | case4 p l segs n h0 hl =>
    rw [room_cons, room_cons]
    omega

lemma mem_advance_le {b : ℕ} (hb : ∀ x ∈ segs, x.2 < b) : ∀ x ∈ advance segs n, x.2 < b := by
  fun_induction advance segs n with
  | case1 n => exact hb
  | case2 p l segs => exact hb
  | case3 p l segs n h0 hl ih =>
    obtain ⟨hlb, hsegs⟩ := forall_mem_cons.1 hb
    exact forall_mem_cons.2 ⟨zero_lt_of_lt hlb, ih hsegs⟩
  | case4 p l segs n h0 hl =>
    obtain ⟨hlb, hsegs⟩ := forall_mem_cons.1 hb
    exact forall_mem_cons.2 ⟨lt_of_le_of_lt (sub_le _ _) hlb, hsegs⟩

end XosKernel.Scatter
