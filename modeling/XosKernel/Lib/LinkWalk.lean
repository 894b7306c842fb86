/-
# Walks through names and links

Nodes have children under names, and some nodes are links: a link stands for the node that a
path of its own leads to. `Leads` is what a path leads to when the links in its middle are
followed, at most `L` of them in one path, with a path through a link that leads nowhere
leading nowhere as well. A link in the last place is not followed.

A path through links need not lead anywhere at all, when a link is met while the path it stands
for is being followed. `Follows` are the links that a walk has to follow, on the path or inside
the path of another one, and `Sound` says that each of them stands for a node. For a sound path
the walk ends (`Sound.exists_leads`), and it has a derivation in which no link leads nowhere
(`clean_iff_sound`).
-/
import Mathlib.Tactic

namespace XosKernel.LinkWalk

open Option

/-- What a link stands for: it cannot be followed, it stands for nothing, or for what a path from
a node leads to. -/
inductive Target (ν κ : Type*)
  | refused
  | nowhere
  | path (start : ν) (names : List κ)

/-- Nodes with named children, some of which are links. -/
structure LinkGraph (ν κ : Type*) where
  child : ν → κ → Option ν
  link : ν → Option (Target ν κ)

/-- What happens at one name of a path. -/
inductive Turn (ν κ : Type*)
  /-- there is no such child, or it is a link that cannot be followed -/
  | stop
  | plain (w : ν)
  /-- the child is a link to be followed that stands for nothing -/
  | void (w : ν)
  /-- the child is a link to be followed, to what a path leads to -/
  | path (w start : ν) (names : List κ)

variable {ν κ : Type*} (G : LinkGraph ν κ) (L : ℕ)

/-- The turn at name `a` of `v`, with `as` still to come and `k` links followed before. -/
def LinkGraph.turn (v : ν) (k : ℕ) (a : κ) (as : List κ) : Turn ν κ :=
  match G.child v a with
  | none => .stop
  | some w =>
    if as.isEmpty then .plain w
    else
      match G.link w with
      | none => .plain w
      | some t =>
        if L ≤ k then .stop
        else
          match t with
          | .refused => .stop
          | .nowhere => .void w
          | .path s ns => .path w s ns

/-- What a path leads to from `v`, with `k` links followed before. -/
inductive Leads : ν → ℕ → List κ → Option ν → Prop
  | done (v : ν) (k : ℕ) : Leads v k [] (some v)
  | stop {v k a as} (ht : G.turn L v k a as = .stop) : Leads v k (a :: as) none
  | plain {v k a as w r} (ht : G.turn L v k a as = .plain w) (h : Leads w k as r) :
      Leads v k (a :: as) r
  | void {v k a as w} (ht : G.turn L v k a as = .void w) : Leads v k (a :: as) none
  | dangling {v k a as w s ns} (ht : G.turn L v k a as = .path w s ns) (h : Leads s 0 ns none) :
      Leads v k (a :: as) none
  | follow {v k a as w s ns u r} (ht : G.turn L v k a as = .path w s ns)
      (h : Leads s 0 ns (some u)) (h' : Leads u (k + 1) as r) : Leads v k (a :: as) r

/-- The links that the walk along a path has to follow. -/
inductive Follows : ν → ℕ → List κ → ν → Prop
  | plain {v k a as w x} (ht : G.turn L v k a as = .plain w) (h : Follows w k as x) :
      Follows v k (a :: as) x
  | void {v k a as w} (ht : G.turn L v k a as = .void w) : Follows v k (a :: as) w
  | here {v k a as w s ns} (ht : G.turn L v k a as = .path w s ns) : Follows v k (a :: as) w
  | inside {v k a as w s ns x} (ht : G.turn L v k a as = .path w s ns) (h : Follows s 0 ns x) :
      Follows v k (a :: as) x
  | after {v k a as w s ns u x} (ht : G.turn L v k a as = .path w s ns)
      (h : Leads G L s 0 ns (some u)) (h' : Follows u (k + 1) as x) : Follows v k (a :: as) x

/-- Every link that has to be followed stands for a node. -/
def Sound (v : ν) (k : ℕ) (as : List κ) : Prop :=
  ∀ w, Follows G L v k as w → ∃ s ns u, G.link w = some (.path s ns) ∧ Leads G L s 0 ns (some u)

/-- What a path leads to along links that all stand for a node. -/
inductive Clean : ν → ℕ → List κ → Option ν → Prop
  | done (v : ν) (k : ℕ) : Clean v k [] (some v)
  | stop {v k a as} (ht : G.turn L v k a as = .stop) : Clean v k (a :: as) none
  | plain {v k a as w r} (ht : G.turn L v k a as = .plain w) (h : Clean w k as r) :
      Clean v k (a :: as) r
  | follow {v k a as w s ns u r} (ht : G.turn L v k a as = .path w s ns)
      (h : Clean s 0 ns (some u)) (h' : Clean u (k + 1) as r) : Clean v k (a :: as) r

variable {G L} {v w s : ν} {k : ℕ} {a : κ} {as ns : List κ} {r r' : Option ν}

lemma LinkGraph.turn_cases (G : LinkGraph ν κ) (L : ℕ) (v : ν) (k : ℕ) (a : κ) (as : List κ) :
    (G.child v a = none ∧ G.turn L v k a as = .stop) ∨
    ∃ w, G.child v a = some w ∧
      (((as = [] ∨ G.link w = none) ∧ G.turn L v k a as = .plain w) ∨
       (as ≠ [] ∧ ∃ t, G.link w = some t ∧
        (((L ≤ k ∨ t = .refused) ∧ G.turn L v k a as = .stop) ∨
         (k < L ∧ t = .nowhere ∧ G.turn L v k a as = .void w) ∨
         (k < L ∧ ∃ s ns, t = .path s ns ∧ G.turn L v k a as = .path w s ns)))) := by
  unfold LinkGraph.turn
  cases G.child v a with
  | none => exact .inl ⟨rfl, rfl⟩
  | some w =>
    refine .inr ⟨w, rfl, ?_⟩
    cases as with
    | nil => exact .inl ⟨.inl rfl, rfl⟩
    | cons b bs =>
      cases hw : G.link w with
      | none => exact .inl ⟨.inr rfl, by simp [hw]⟩
      | some t =>
        refine .inr ⟨by simp, t, rfl, ?_⟩
        by_cases hk : L ≤ k
        · exact .inl ⟨.inl hk, by simp [hw, hk]⟩
        · have hk' : k < L := Nat.lt_of_not_le hk
          cases t with
          | refused => exact .inl ⟨.inr rfl, by simp [hw]⟩
          | nowhere => exact .inr (.inl ⟨hk', rfl, by simp [hw, hk']⟩)
          | path s ns => exact .inr (.inr ⟨hk', s, ns, rfl, by simp [hw, hk']⟩)

lemma LinkGraph.link_of_turn {t : Turn ν κ} (h : G.turn L v k a as = t) :
    match t with
    | .path w s ns => k < L ∧ G.link w = some (.path s ns)
    | .void w => k < L ∧ G.link w = some .nowhere
    | _ => True := by
  obtain ⟨-, ht⟩ | ⟨w, -, ⟨-, ht⟩ | ⟨-, t, hw, ⟨-, ht⟩ | ⟨hk, rfl, ht⟩ | ⟨hk, s, ns, rfl, ht⟩⟩⟩ :=
    G.turn_cases L v k a as
  all_goals obtain rfl := h.symm.trans ht
  · trivial
  · trivial
  · trivial
  · exact ⟨hk, hw⟩
  · exact ⟨hk, hw⟩

lemma leads_cons_iff : Leads G L v k (a :: as) r ↔
    match G.turn L v k a as with
    | .stop | .void _ => r = none
    | .plain w => Leads G L w k as r
    | .path _ s ns => (Leads G L s 0 ns none ∧ r = none) ∨
        ∃ u, Leads G L s 0 ns (some u) ∧ Leads G L u (k + 1) as r := by
  constructor
  · intro h
    cases h with
    | stop ht => rw [ht]
    | plain ht h => rw [ht]; exact h
    | void ht => rw [ht]
    | dangling ht h => rw [ht]; exact .inl ⟨h, rfl⟩
    | follow ht h h' => rw [ht]; exact .inr ⟨_, h, h'⟩
  · cases ht : G.turn L v k a as with
    | stop => rintro rfl; exact .stop ht
    | plain w => exact fun h => .plain ht h
    | void w => rintro rfl; exact .void ht
    | path w s ns =>
      rintro (⟨h, rfl⟩ | ⟨u, h, h'⟩)
      · exact .dangling ht h
      · exact .follow ht h h'

lemma follows_cons_iff {x : ν} : Follows G L v k (a :: as) x ↔
    match G.turn L v k a as with
    | .stop => False
    | .plain w => Follows G L w k as x
    | .void w => x = w
    | .path w s ns => x = w ∨ Follows G L s 0 ns x ∨
        ∃ u, Leads G L s 0 ns (some u) ∧ Follows G L u (k + 1) as x := by
  constructor
  · intro h
    cases h with
    | plain ht h => rw [ht]; exact h
    | void ht => rw [ht]
    | here ht => rw [ht]; exact .inl rfl
    | inside ht h => rw [ht]; exact .inr (.inl h)
    | after ht h h' => rw [ht]; exact .inr (.inr ⟨_, h, h'⟩)
  · cases ht : G.turn L v k a as with
    | stop => exact False.elim
    | plain w => exact fun h => .plain ht h
    | void w => rintro rfl; exact .void ht
    | path w s ns =>
      rintro (rfl | h | ⟨u, h, h'⟩)
      · exact .here ht
      · exact .inside ht h
      · exact .after ht h h'

lemma Clean.leads (h : Clean G L v k as r) : Leads G L v k as r := by
  induction h with
  | done v k => exact .done v k
  | stop ht => exact .stop ht
  | plain ht _ ih => exact .plain ht ih
  | follow ht _ _ ih ih' => exact .follow ht ih ih'

/-- A path leads to one thing only. -/
theorem Leads.det (h : Leads G L v k as r) (h' : Leads G L v k as r') : r = r' := by
  induction h generalizing r' with
  | done v k => cases h'; rfl
  | stop ht | void ht =>
    rw [leads_cons_iff, ht] at h'
    exact h'.symm
  | plain ht _ ih =>
    rw [leads_cons_iff, ht] at h'
    exact ih h'
  | dangling ht _ ih =>
    rw [leads_cons_iff, ht] at h'
    obtain ⟨-, rfl⟩ | ⟨u, hu, -⟩ := h'
    · rfl
    · exact nomatch ih hu
  | follow ht _ _ ih ih' =>
    rw [leads_cons_iff, ht] at h'
    obtain ⟨hn, -⟩ | ⟨u, hu, hr⟩ := h'
    · exact nomatch ih hn
    · obtain rfl := some.inj (ih hu)
      exact ih' hr

/-- A sound path leads somewhere or nowhere, but does not go on for ever. -/
theorem Sound.exists_leads (h : Sound G L v k as) : ∃ r, Leads G L v k as r := by
  induction as generalizing v k with
  | nil => exact ⟨_, .done v k⟩
  | cons a as ih =>
    cases ht : G.turn L v k a as with
    | stop => exact ⟨none, .stop ht⟩
    | void w => exact ⟨none, .void ht⟩
    | plain w =>
      obtain ⟨r, hr⟩ := ih fun x hx => h x (.plain ht hx)
      exact ⟨r, .plain ht hr⟩
    | path w s ns =>
      obtain ⟨s', ns', u, hw, hu⟩ := h w (.here ht)
      obtain ⟨rfl, rfl⟩ :=
        Target.path.inj (some.inj ((LinkGraph.link_of_turn ht).2.symm.trans hw))
      obtain ⟨r, hr⟩ := ih fun x hx => h x (.after ht hu hx)
      exact ⟨r, .follow ht hu hr⟩

/-- On a sound path no link leads nowhere. -/
theorem Leads.clean (h : Leads G L v k as r) (hs : Sound G L v k as) : Clean G L v k as r := by
  induction h with
  | done v k => exact .done v k
  | stop ht => exact .stop ht
  | plain ht _ ih => exact .plain ht (ih fun x hx => hs x (.plain ht hx))
  | void ht =>
    obtain ⟨s, ns, u, hw, -⟩ := hs _ (.void ht)
    exact nomatch (LinkGraph.link_of_turn ht).2.symm.trans hw
  | dangling ht h ih =>
    obtain ⟨s', ns', u, hw, hu⟩ := hs _ (.here ht)
    obtain ⟨rfl, rfl⟩ :=
      Target.path.inj (some.inj ((LinkGraph.link_of_turn ht).2.symm.trans hw))
    exact nomatch h.det hu
  | follow ht h h' ih ih' =>
    exact .follow ht (ih fun x hx => hs x (.inside ht hx)) (ih' fun x hx => hs x (.after ht h hx))

/-- A path with such a derivation is sound. -/
theorem Clean.sound (h : Clean G L v k as r) : Sound G L v k as := by
  induction h with
  | done v k => exact fun x hx => nomatch hx
  | stop ht =>
    intro x hx
    rw [follows_cons_iff, ht] at hx
    exact hx.elim
  | plain ht _ ih =>
    intro x hx
    rw [follows_cons_iff, ht] at hx
    exact ih x hx
  | follow ht h h' ih ih' =>
    intro x hx
    rw [follows_cons_iff, ht] at hx
    obtain rfl | hx | ⟨u, hu, hx⟩ := hx
    · exact ⟨_, _, _, (LinkGraph.link_of_turn ht).2, h.leads⟩
    · exact ih x hx
    · obtain rfl := some.inj (h.leads.det hu)
      exact ih' x hx

theorem clean_iff_sound : (∃ r, Clean G L v k as r) ↔ Sound G L v k as := by
  refine ⟨fun ⟨r, h⟩ => h.sound, fun h => ?_⟩
  obtain ⟨r, hr⟩ := h.exists_leads
  exact ⟨r, hr.clean h⟩

end XosKernel.LinkWalk
