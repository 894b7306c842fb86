/-
# Segments owned by keys

A list of segments `[start, stop)` of a linear order, each with a key and a value, stands for
a partial function from keys and points to values, as long as the segments of one key do not
overlap. Clearing a range of one key cuts the segments that meet it; setting a range clears it
and adds one segment. Both are what they should be on the partial function.
-/
import Mathlib.Order.Basic
import Mathlib.Data.List.Basic
import Mathlib.Tactic

namespace XosKernel

open List

structure Seg (κ τ α : Type*) where
  key : κ
  val : τ
  start : α
  stop : α
deriving DecidableEq

namespace Seg

variable {κ τ α : Type*} [LinearOrder α]

def Covers (g : Seg κ τ α) (b : α) : Prop := g.start ≤ b ∧ b < g.stop
deriving Decidable

/-- Two segments of one key share no point. -/
def Apart (g h : Seg κ τ α) : Prop := g.key = h.key → ∀ b, ¬(g.Covers b ∧ h.Covers b)

instance : Std.Symm (Apart : Seg κ τ α → Seg κ τ α → Prop) :=
  ⟨fun _ _ hgh hkey b hb => hgh hkey.symm b hb.symm⟩

/-- The segment meets the range. -/
def Meets (g : Seg κ τ α) (start stop : α) : Prop := start < g.stop ∧ g.start < stop
deriving Decidable

variable {g h : Seg κ τ α}

lemma Meets.of_covers {start stop b : α} (hg : g.Covers b) (hstart : start ≤ b)
    (hstop : b < stop) : g.Meets start stop :=
  ⟨hstart.trans_lt hg.2, hg.1.trans_lt hstop⟩

/-- What is left of a segment outside the range. -/
def residuals (start stop : α) (g : Seg κ τ α) : List (Seg κ τ α) :=
  (if g.start < start then [{ g with stop := start }] else []) ++
    (if stop < g.stop then [{ g with start := stop }] else [])

lemma mem_residuals {start stop : α} (hh : h ∈ residuals start stop g) :
    h.key = g.key ∧ h.val = g.val ∧
      (h.start = g.start ∧ h.stop = start ∨ h.start = stop ∧ h.stop = g.stop) := by
  rw [residuals, mem_append] at hh
  rcases hh with hh | hh
  · split_ifs at hh
    · obtain rfl := mem_singleton.1 hh
      exact ⟨rfl, rfl, .inl ⟨rfl, rfl⟩⟩
    · cases hh
  · split_ifs at hh
    · obtain rfl := mem_singleton.1 hh
      exact ⟨rfl, rfl, .inr ⟨rfl, rfl⟩⟩
    · cases hh

lemma exists_residual_iff {start stop b : α} (hmeets : g.Meets start stop) :
    (∃ h ∈ residuals start stop g, h.Covers b) ↔ g.Covers b ∧ ¬(start ≤ b ∧ b < stop) := by
  constructor
  · rintro ⟨h, hh, hb⟩
    obtain ⟨-, -, ⟨h1, h2⟩ | ⟨h1, h2⟩⟩ := mem_residuals hh
    · rw [Covers, h1, h2] at hb
      exact ⟨⟨hb.1, hb.2.trans hmeets.1⟩, fun hr => absurd hb.2 (not_lt.2 hr.1)⟩
    · rw [Covers, h1, h2] at hb
      exact ⟨⟨(hmeets.2.trans_le hb.1).le, hb.2⟩, fun hr => absurd hr.2 (not_lt.2 hb.1)⟩
  · rintro ⟨hb, hout⟩
    by_cases hlt : b < start
    · have hg : g.start < start := hb.1.trans_lt hlt
      exact ⟨{ g with stop := start }, by simp [residuals, hg], hb.1, hlt⟩
    · have hge : stop ≤ b := not_lt.1 fun hb' => hout ⟨not_lt.1 hlt, hb'⟩
      have hg : stop < g.stop := hge.trans_lt hb.2
      exact ⟨{ g with start := stop }, by simp [residuals, hg], hge, hb.2⟩

lemma pairwise_residuals {start stop : α} (hle : start ≤ stop) (g : Seg κ τ α) :
    (residuals start stop g).Pairwise Apart := by
  rw [residuals, pairwise_append]
  refine ⟨?_, ?_, ?_⟩
  · split_ifs <;> simp
  · split_ifs <;> simp
  · intro x hx y hy hkey b hb
    have hxstop : x.stop = start := by
      split_ifs at hx
      · rw [mem_singleton.1 hx]
      · cases hx
    have hystart : y.start = stop := by
      split_ifs at hy
      · rw [mem_singleton.1 hy]
      · cases hy
    have hlt : b < start := hxstop ▸ hb.1.2
    have hge : stop ≤ b := hystart ▸ hb.2.1
    exact absurd hlt (not_lt.2 (hle.trans hge))

/-- The segments of each key are disjoint. -/
def Disjoint (l : List (Seg κ τ α)) : Prop := l.Pairwise Apart

lemma Disjoint.eq_of_covers {l : List (Seg κ τ α)} (hl : Disjoint l) {b : α} (hg : g ∈ l)
    (hh : h ∈ l) (hkey : g.key = h.key) (hgb : g.Covers b) (hhb : h.Covers b) : g = h := by
  by_contra hne
  exact hl.forall hg hh hne hkey b ⟨hgb, hhb⟩

variable [DecidableEq κ]

/-- The segments of the key that meet the range are cut. -/
def clear (k : κ) (start stop : α) (l : List (Seg κ τ α)) : List (Seg κ τ α) :=
  l.filter (fun g => ¬(g.key = k ∧ g.Meets start stop)) ++
    (l.filter fun g => g.key = k ∧ g.Meets start stop).flatMap (residuals start stop)

def put (k : κ) (v : τ) (start stop : α) (l : List (Seg κ τ α)) : List (Seg κ τ α) :=
  clear k start stop l ++ [⟨k, v, start, stop⟩]

/-- The partial function of a list of segments. -/
def view (l : List (Seg κ τ α)) (k : κ) (b : α) : Option τ :=
  (l.find? fun g => g.key = k ∧ g.Covers b).map Seg.val

variable {l : List (Seg κ τ α)} {k : κ} {v : τ} {start stop b : α}

lemma view_eq_some_iff (hl : Disjoint l) :
    view l k b = some v ↔ ∃ g ∈ l, g.key = k ∧ g.Covers b ∧ g.val = v := by
  rw [view, Option.map_eq_some_iff]
  constructor
  · rintro ⟨g, hfind, hv⟩
    have hpred := find?_some hfind
    obtain ⟨hk, hb⟩ := of_decide_eq_true hpred
    exact ⟨g, mem_of_find?_eq_some hfind, hk, hb, hv⟩
  · rintro ⟨g, hg, hk, hb, hv⟩
    cases hfind : l.find? fun g => g.key = k ∧ g.Covers b with
    | none => exact absurd (decide_eq_true ⟨hk, hb⟩) (find?_eq_none.1 hfind g hg)
    | some h =>
      have hpred := find?_some hfind
      obtain ⟨hhk, hhb⟩ := of_decide_eq_true hpred
      refine ⟨h, rfl, ?_⟩
      rw [hl.eq_of_covers (mem_of_find?_eq_some hfind) hg (hhk.trans hk.symm) hhb hb, hv]

lemma mem_clear :
    h ∈ clear k start stop l ↔
      h ∈ l ∧ ¬(h.key = k ∧ h.Meets start stop) ∨
        ∃ g ∈ l, (g.key = k ∧ g.Meets start stop) ∧ h ∈ residuals start stop g := by
  simp only [clear, mem_append, mem_filter, mem_flatMap, decide_eq_true_eq, and_assoc]

lemma exists_of_mem_clear (hh : h ∈ clear k start stop l) :
    ∃ g ∈ l, h.key = g.key ∧ h.val = g.val ∧ ∀ b, h.Covers b → g.Covers b := by
  rcases mem_clear.1 hh with ⟨hh, -⟩ | ⟨g, hg, ⟨hk, hmeets⟩, hres⟩
  · exact ⟨h, hh, rfl, rfl, fun _ hb => hb⟩
  · obtain ⟨hkey, hval, -⟩ := mem_residuals hres
    exact ⟨g, hg, hkey, hval, fun b hb => ((exists_residual_iff hmeets).1 ⟨h, hres, hb⟩).1⟩

lemma not_covers_of_mem_clear (hh : h ∈ clear k start stop l)
    (hk : h.key = k) (hb : h.Covers b) : ¬(start ≤ b ∧ b < stop) := by
  rintro ⟨h1, h2⟩
  rcases mem_clear.1 hh with ⟨-, hnot⟩ | ⟨g, -, ⟨-, hmeets⟩, hres⟩
  · exact hnot ⟨hk, Meets.of_covers hb h1 h2⟩
  · exact ((exists_residual_iff hmeets).1 ⟨h, hres, hb⟩).2 ⟨h1, h2⟩

lemma exists_mem_clear_iff (k' : κ) :
    (∃ h ∈ clear k start stop l, h.key = k' ∧ h.Covers b ∧ h.val = v) ↔
      (∃ g ∈ l, g.key = k' ∧ g.Covers b ∧ g.val = v) ∧ ¬(k' = k ∧ start ≤ b ∧ b < stop) := by
  constructor
  · rintro ⟨h, hh, rfl, hb, rfl⟩
    obtain ⟨g, hg, hkey, hval, hcov⟩ := exists_of_mem_clear hh
    refine ⟨⟨g, hg, hkey.symm, hcov b hb, hval.symm⟩, fun hin => ?_⟩
    exact not_covers_of_mem_clear hh hin.1 hb hin.2
  · rintro ⟨⟨g, hg, rfl, hb, rfl⟩, hout⟩
    by_cases hcut : g.key = k ∧ g.Meets start stop
    · obtain ⟨h, hres, hhb⟩ := (exists_residual_iff hcut.2).2 ⟨hb, fun hr => hout ⟨hcut.1, hr⟩⟩
      obtain ⟨hkey, hval, -⟩ := mem_residuals hres
      exact ⟨h, mem_clear.2 (.inr ⟨g, hg, hcut, hres⟩), hkey, hhb, hval⟩
    · exact ⟨g, mem_clear.2 (.inl ⟨hg, hcut⟩), rfl, hb, rfl⟩

lemma Disjoint.clear (hl : Disjoint l) (hle : start ≤ stop) : Disjoint (clear k start stop l) := by
  -- segments that come from different old ones are apart since those are
  have hinside : ∀ {g h x y : Seg κ τ α}, Apart g h → x.key = g.key → y.key = h.key →
      (∀ b, x.Covers b → g.Covers b) → (∀ b, y.Covers b → h.Covers b) → Apart x y := by
    intro g h x y hgh hx hy hxg hyh hkey b hb
    exact hgh (hx.symm.trans (hkey.trans hy)) b ⟨hxg b hb.1, hyh b hb.2⟩
  have hres : ∀ {g x : Seg κ τ α}, g.Meets start stop → x ∈ residuals start stop g →
      ∀ b, x.Covers b → g.Covers b :=
    fun hmeets hx b hb => ((exists_residual_iff hmeets).1 ⟨_, hx, hb⟩).1
  rw [Disjoint, Seg.clear, pairwise_append]
  refine ⟨hl.filter _, ?_, ?_⟩
  · rw [pairwise_flatMap]
    refine ⟨fun g _ => pairwise_residuals hle g, ?_⟩
    refine (hl.filter _).imp_of_mem fun {g h} hg hh hgh x hx y hy => ?_
    obtain ⟨-, hgm⟩ := of_decide_eq_true (mem_filter.1 hg).2
    obtain ⟨-, hhm⟩ := of_decide_eq_true (mem_filter.1 hh).2
    exact hinside hgh (mem_residuals hx).1 (mem_residuals hy).1 (hres hgm hx) (hres hhm hy)
  · intro x hx y hy
    obtain ⟨h, hh, hyh⟩ := mem_flatMap.1 hy
    obtain ⟨hhl, hhm⟩ := mem_filter.1 hh
    obtain ⟨hxl, hxm⟩ := mem_filter.1 hx
    have hne : x ≠ h := by
      rintro rfl
      exact (of_decide_eq_true hxm) (of_decide_eq_true hhm)
    exact hinside (hl.forall hxl hhl hne) rfl (mem_residuals hyh).1
      (fun _ hb => hb) (hres (of_decide_eq_true hhm).2 hyh)

lemma Disjoint.put (hl : Disjoint l) (hle : start ≤ stop) : Disjoint (put k v start stop l) := by
  rw [Disjoint, Seg.put, pairwise_append]
  refine ⟨hl.clear hle, pairwise_singleton _ _, fun x hx y hy hkey b hb => ?_⟩
  obtain rfl := mem_singleton.1 hy
  exact not_covers_of_mem_clear hx hkey hb.1 hb.2

/-- Clearing a range clears it on the partial function. -/
theorem view_clear (hl : Disjoint l) (hle : start ≤ stop) :
    view (clear k start stop l) =
      fun k' b => if k' = k ∧ start ≤ b ∧ b < stop then none else view l k' b := by
  ext k' b v
  rw [view_eq_some_iff (hl.clear hle), exists_mem_clear_iff]
  by_cases hin : k' = k ∧ start ≤ b ∧ b < stop
  · simp [hin]
  · rw [if_neg hin, view_eq_some_iff hl, and_iff_left hin]

/-- Setting a range sets it on the partial function. -/
theorem view_put (hl : Disjoint l) (hle : start ≤ stop) :
    view (put k v start stop l) =
      fun k' b => if k' = k ∧ start ≤ b ∧ b < stop then some v else view l k' b := by
  ext k' b u
  rw [view_eq_some_iff (hl.put hle)]
  have hmem : (∃ g ∈ put k v start stop l, g.key = k' ∧ g.Covers b ∧ g.val = u) ↔
      (∃ g ∈ clear k start stop l, g.key = k' ∧ g.Covers b ∧ g.val = u) ∨
        k = k' ∧ (start ≤ b ∧ b < stop) ∧ v = u := by
    simp only [Seg.put, mem_append, mem_singleton, or_and_right, exists_or, exists_eq_left]
    rfl
  rw [hmem, exists_mem_clear_iff]
  by_cases hin : k' = k ∧ start ≤ b ∧ b < stop
  · rw [if_pos hin, Option.some.injEq]
    constructor
    · rintro (⟨-, hout⟩ | ⟨-, -, rfl⟩)
      · exact absurd hin hout
      · rfl
    · rintro rfl
      exact .inr ⟨hin.1.symm, hin.2, rfl⟩
  · rw [if_neg hin, view_eq_some_iff hl, and_iff_left hin, or_iff_left]
    rintro ⟨rfl, hr, -⟩
    exact hin ⟨rfl, hr⟩

theorem view_filter_key (hl : Disjoint l) (p : κ → Bool) :
    view (l.filter fun g => p g.key) = fun k b => if p k = true then view l k b else none := by
  ext k b v
  rw [view_eq_some_iff (hl.filter _)]
  by_cases hp : p k = true
  · rw [if_pos hp, view_eq_some_iff hl]
    refine exists_congr fun g => ⟨?_, ?_⟩
    · rintro ⟨hg, h⟩
      exact ⟨(mem_filter.1 hg).1, h⟩
    · rintro ⟨hg, rfl, h⟩
      exact ⟨mem_filter.2 ⟨hg, hp⟩, rfl, h⟩
  · rw [if_neg hp]
    refine iff_of_false ?_ (by rintro ⟨⟩)
    rintro ⟨g, hg, rfl, -⟩
    exact hp (mem_filter.1 hg).2

end Seg

end XosKernel
