/-
# Trees reached by name

A directory sends names to nodes. If each live node other than the root hangs under exactly one
name of exactly one live node, and a rank grows from a node to what hangs under it, then the live
nodes form a tree: each is reached from the root by exactly one list of names, and none is reached
from itself.
-/
import Mathlib.Tactic

namespace XosKernel

open Option List

section NameTree

variable {ν κ : Type*} (child : ν → κ → Option ν)

def walk : ν → List κ → Option ν
  | v, [] => some v
  | v, n :: ns => (child v n).bind fun w => walk w ns

/-- The live nodes hang under each other in rank order, each in one place. -/
structure IsNameTree (root : ν) (live : ν → Prop) (rank : ν → ℕ) : Prop where
  parent : ∀ v, live v → v ≠ root → ∃ u n, live u ∧ child u n = some v
  place : ∀ u n u' n' v, live v → child u n = some v → child u' n' = some v → u = u' ∧ n = n'
  rank_lt : ∀ u n v, live v → child u n = some v → rank u < rank v
  root_top : ∀ u n, child u n ≠ some root

variable {child}

lemma walk_cons (v : ν) (n : κ) (ns : List κ) :
    walk child v (n :: ns) = (child v n).bind fun w => walk child w ns := rfl

lemma walk_concat (v : ν) (ns : List κ) (n : κ) :
    walk child v (ns ++ [n]) = (walk child v ns).bind fun w => child w n := by
  induction ns generalizing v with
  | nil =>
    exact bind_fun_some (child v n)
  | cons m ns ih =>
    rw [cons_append, walk_cons, walk_cons, bind_assoc]
    exact congrArg _ (funext fun w => ih w)

lemma walk_concat_eq_some {v w : ν} {ns : List κ} {n : κ} :
    walk child v (ns ++ [n]) = some w ↔ ∃ u, walk child v ns = some u ∧ child u n = some w := by
  rw [walk_concat, bind_eq_some_iff]

namespace IsNameTree

variable {root : ν} {live : ν → Prop} {rank : ν → ℕ}

section

variable (h : IsNameTree child root live rank)
include h

lemma live_of_child {u v : ν} {n : κ} (hv : live v) (hc : child u n = some v) : live u := by
  have hne : v ≠ root := fun he => h.root_top u n (he ▸ hc)
  obtain ⟨u', n', hu', hc'⟩ := h.parent v hv hne
  exact (h.place u n u' n' v hv hc hc').1 ▸ hu'

lemma exists_walk (v : ν) (hv : live v) : ∃ ns, walk child root ns = some v := by
  -- the parent has a smaller rank
  induction hk : rank v using Nat.strong_induction_on generalizing v with
  | _ k ih =>
    by_cases hr : v = root
    · exact ⟨[], hr ▸ rfl⟩
    · obtain ⟨u, n, hu, hc⟩ := h.parent v hv hr
      obtain ⟨ns, hns⟩ := ih (rank u) (hk ▸ h.rank_lt u n v hv hc) u hu rfl
      exact ⟨ns ++ [n], walk_concat_eq_some.2 ⟨u, hns, hc⟩⟩

lemma walk_inj {v : ν} (hv : live v) {ns ms : List κ}
    (hns : walk child root ns = some v) (hms : walk child root ms = some v) : ns = ms := by
  -- from the end: the last name and what it hangs under are determined
  induction ns using reverseRecOn generalizing v ms with
  | nil =>
    obtain rfl : root = v := some.inj hns
    cases ms using reverseRecOn with
    | nil => rfl
    | append_singleton ms m =>
      obtain ⟨u, -, hc⟩ := walk_concat_eq_some.1 hms
      exact absurd hc (h.root_top u m)
  | append_singleton ns n ih =>
    obtain ⟨u, hu, hc⟩ := walk_concat_eq_some.1 hns
    cases ms using reverseRecOn with
    | nil =>
      obtain rfl : root = v := some.inj hms
      exact absurd hc (h.root_top u n)
    | append_singleton ms m =>
      obtain ⟨u', hu', hc'⟩ := walk_concat_eq_some.1 hms
      obtain ⟨rfl, rfl⟩ := h.place u n u' m v hv hc hc'
      rw [ih (h.live_of_child hv hc) hu hu']

theorem existsUnique_walk {v : ν} (hv : live v) : ∃! ns, walk child root ns = some v := by
  obtain ⟨ns, hns⟩ := h.exists_walk v hv
  exact ⟨ns, hns, fun ms hms => h.walk_inj hv hms hns⟩

lemma rank_le_of_walk {u v : ν} (hv : live v)
    {ns : List κ} (hns : walk child u ns = some v) : rank u ≤ rank v := by
  induction ns using reverseRecOn generalizing v with
  | nil => exact (some.inj hns : u = v) ▸ le_rfl
  | append_singleton ns n ih =>
    obtain ⟨w, hw, hc⟩ := walk_concat_eq_some.1 hns
    exact (ih (h.live_of_child hv hc) hw).trans (h.rank_lt w n v hv hc).le

/-- There are no cycles. -/
theorem walk_ne_self {v : ν} (hv : live v) {ns : List κ}
    (hne : ns ≠ []) : walk child v ns ≠ some v := by
  intro hns
  obtain ⟨ms, m, rfl⟩ := (eq_nil_or_concat' ns).resolve_left hne
  obtain ⟨u, hu, hc⟩ := walk_concat_eq_some.1 hns
  exact absurd (h.rank_le_of_walk (h.live_of_child hv hc) hu) (not_le.2 (h.rank_lt u m v hv hc))

end

end IsNameTree

end NameTree

end XosKernel
