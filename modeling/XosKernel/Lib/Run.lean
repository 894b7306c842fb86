/-
# Runs of a step function

Every stateful component of the kernel is modelled by a partial step function
`step : σ → α → Option σ`. An action carries whatever the code cannot decide by
itself (the arguments of a call, the outcome of an allocation, the moment a timer
fires), so that a list of actions is one interleaving and the set of all lists is the
set of all interleavings. A state is reachable when some list of actions leads to it;
since every prefix of a list is again a list, a fact about the final state of every run
is a fact about every state reached.
-/
import Mathlib.Tactic

namespace XosKernel

open List Option

section Run

variable {σ α : Type*} (step : σ → α → Option σ)

/-- Execute a list of actions; `none` as soon as one of them is not enabled. -/
def exec : σ → List α → Option σ
  | s, [] => some s
  | s, a :: as => (step s a).bind fun s' => exec s' as

/-- Every step of the run is taken in a state that meets `C` for the action taken. -/
def Meets (C : σ → α → Prop) : σ → List α → Prop
  | _, [] => True
  | s, a :: as => C s a ∧ ∀ s', step s a = some s' → Meets C s' as

/-- Whether a given run meets a decidable condition can be evaluated. -/
instance Meets.decidable (C : σ → α → Prop) [∀ s a, Decidable (C s a)] :
    (s : σ) → (as : List α) → Decidable (Meets step C s as)
  | _, [] => isTrue trivial
  | s, a :: as =>
    have : Decidable (∀ s', step s a = some s' → Meets step C s' as) :=
      match step s a with
      | none => isTrue fun _ h => nomatch h
      | some s' =>
        have := Meets.decidable C s' as
        decidable_of_iff (Meets step C s' as)
          ⟨fun h _ hs => some.inj hs ▸ h, fun h => h s' rfl⟩
    inferInstanceAs (Decidable (_ ∧ _))

/-- A guarded step that is taken. -/
lemma of_guard {p : Prop} [Decidable p] {s s' : σ}
    (h : (if p then some s else none) = some s') : p ∧ s = s' := by
  obtain ⟨hp, hs⟩ := ite_none_right_eq_some.1 h
  exact ⟨hp, some.inj hs⟩

/-- Whether a given run ends, and how, can be evaluated. -/
instance decidableExistsSome (o : Option σ) (P : σ → Prop) [DecidablePred P] :
    Decidable (∃ s, o = some s ∧ P s) :=
  match o with
  | none => isFalse fun ⟨_, h, _⟩ => nomatch h
  | some s => decidable_of_iff (P s)
      ⟨fun h => ⟨s, rfl, h⟩, fun ⟨_, hs, h⟩ => some.inj hs ▸ h⟩

lemma exists_some_of {o : Option σ} {P : σ → Prop} (ho : o.isSome) (h : ∀ s, o = some s → P s) :
    ∃ s, o = some s ∧ P s := by
  obtain ⟨s, hs⟩ := isSome_iff_exists.1 ho
  exact ⟨s, hs, h s hs⟩

variable {step}

lemma exec_cons (s : σ) (a : α) (as : List α) :
    exec step s (a :: as) = (step s a).bind fun s' => exec step s' as := rfl

lemma exec_cons_eq_some {s t : σ} {a : α} {as : List α} :
    exec step s (a :: as) = some t ↔ ∃ s', step s a = some s' ∧ exec step s' as = some t := by
  rw [exec_cons, bind_eq_some_iff]

lemma exec_append (s : σ) (as bs : List α) :
    exec step s (as ++ bs) = (exec step s as).bind fun s' => exec step s' bs := by
  induction as generalizing s with
  | nil => rfl
  | cons a as ih =>
    rw [cons_append, exec_cons, exec_cons, bind_assoc]
    exact congrArg _ (funext fun s' => ih s')

variable {C : σ → α → Prop} {I : σ → Prop}

/-- The invariant rule for runs whose steps all meet a condition. -/
theorem exec_invariant_of_meets (hstep : ∀ s a s', I s → C s a → step s a = some s' → I s') :
    ∀ (as : List α) (s t : σ), I s → Meets step C s as → exec step s as = some t → I t := by
  intro as
  induction as with
  | nil =>
    intro s t hI _ h
    obtain rfl : s = t := some.inj h
    exact hI
  | cons a as ih =>
    intro s t hI hC h
    obtain ⟨s', hs', ht⟩ := exec_cons_eq_some.1 h
    exact ih s' t (hstep s a s' hI hC.1 hs') (hC.2 s' hs') ht

/-- What an invariant and a condition on the steps give for a single step holds of every step of a
run. -/
theorem Meets.imp_of_invariant {D : σ → α → Prop}
    (hstep : ∀ s a s', I s → C s a → step s a = some s' → I s') (hD : ∀ s a, I s → C s a → D s a) :
    ∀ (as : List α) (s : σ), I s → Meets step C s as → Meets step D s as := by
  intro as
  induction as with
  | nil => exact fun _ _ _ => trivial
  | cons a as ih =>
    rintro s hI ⟨hC, hrest⟩
    exact ⟨hD s a hI hC, fun s' hs' => ih s' (hstep s a s' hI hC hs') (hrest s' hs')⟩

/-- The invariant rule with progress: if every step that meets the condition is possible, so
is the whole run. -/
theorem exec_progress_of_meets (hstep : ∀ s a, I s → C s a → ∃ s', step s a = some s' ∧ I s') :
    ∀ (as : List α) (s : σ), I s → Meets step C s as → ∃ t, exec step s as = some t ∧ I t := by
  intro as
  induction as with
  | nil => exact fun s hI _ => ⟨s, rfl, hI⟩
  | cons a as ih =>
    intro s hI hC
    obtain ⟨s', hs', hI'⟩ := hstep s a hI hC.1
    obtain ⟨t, ht, hIt⟩ := ih s' hI' (hC.2 s' hs')
    exact ⟨t, exec_cons_eq_some.2 ⟨s', hs', ht⟩, hIt⟩

/-- A condition that an invariant `I` needs at every step, and whose failure at a step breaks `P`
or the property `R` of single steps at once, is exactly what it takes for both to hold all along the
run. -/
theorem meets_iff_of_exact_steps {P : σ → Prop} {R : σ → σ → Prop} (hP : ∀ s, I s → P s)
    (hstep : ∀ s a s', I s → C s a → step s a = some s' → I s' ∧ R s s')
    (hbreak : ∀ s a s', I s → ¬ C s a → step s a = some s' → ¬ (P s' ∧ R s s')) :
    ∀ (as : List α) (s t : σ), I s → exec step s as = some t →
      (Meets step C s as ↔ (∀ bs u, bs <+: as → exec step s bs = some u → P u) ∧
        ∀ bs a u v, bs ++ [a] <+: as → exec step s bs = some u → step u a = some v → R u v) := by
  intro as
  induction as with
  | nil =>
    intro s t hI _
    refine ⟨fun _ => ⟨fun bs u hbs hu => ?_, fun bs a u v hbs => ?_⟩, fun _ => trivial⟩
    · obtain rfl := prefix_nil.1 hbs
      exact some.inj hu ▸ hP s hI
    · exact absurd (prefix_nil.1 hbs) (by simp)
  | cons a as ih =>
    intro s t hI ht
    obtain ⟨s', hs', hrest⟩ := exec_cons_eq_some.1 ht
    constructor
    · rintro ⟨hC, hrestC⟩
      obtain ⟨hI', hR⟩ := hstep s a s' hI hC hs'
      obtain ⟨hall, hsteps⟩ := (ih s' t hI' hrest).1 (hrestC s' hs')
      refine ⟨fun bs u hbs hu => ?_, fun bs b u v hbs hu hv => ?_⟩
      · cases bs with
        | nil => exact some.inj hu ▸ hP s hI
        | cons b bs =>
          obtain ⟨rfl, htail⟩ := cons_prefix_cons.1 hbs
          obtain ⟨s'', hs'', hu'⟩ := exec_cons_eq_some.1 hu
          obtain rfl := some.inj (hs'.symm.trans hs'')
          exact hall bs u htail hu'
      · cases bs with
        | nil =>
          obtain ⟨rfl, -⟩ := cons_prefix_cons.1 hbs
          obtain rfl : s = u := some.inj hu
          exact some.inj (hs'.symm.trans hv) ▸ hR
        | cons c bs =>
          obtain ⟨rfl, htail⟩ := cons_prefix_cons.1 hbs
          obtain ⟨s'', hs'', hu'⟩ := exec_cons_eq_some.1 hu
          obtain rfl := some.inj (hs'.symm.trans hs'')
          exact hsteps bs b u v htail hu' hv
    · rintro ⟨hall, hsteps⟩
      have hC : C s a := by
        by_contra hC
        refine hbreak s a s' hI hC hs' ⟨hall [a] s' ⟨as, rfl⟩ ?_, hsteps [] a s s' ⟨as, rfl⟩ rfl
          hs'⟩
        exact exec_cons_eq_some.2 ⟨s', hs', rfl⟩
      refine ⟨hC, fun s'' hs'' => ?_⟩
      obtain rfl := some.inj (hs'.symm.trans hs'')
      refine (ih s' t (hstep s a s' hI hC hs').1 hrest).2 ⟨fun bs u hbs hu => ?_,
        fun bs b u v hbs hu hv => ?_⟩
      · exact hall (a :: bs) u (cons_prefix_cons.2 ⟨rfl, hbs⟩) (exec_cons_eq_some.2 ⟨s', hs', hu⟩)
      · exact hsteps (a :: bs) b u v (cons_prefix_cons.2 ⟨rfl, hbs⟩)
          (exec_cons_eq_some.2 ⟨s', hs', hu⟩) hv

/-- The same for a property of states alone. -/
theorem meets_iff_of_exact {P : σ → Prop} (hP : ∀ s, I s → P s)
    (hstep : ∀ s a s', I s → C s a → step s a = some s' → I s')
    (hbreak : ∀ s a s', I s → ¬ C s a → step s a = some s' → ¬ P s') :
    ∀ (as : List α) (s t : σ), I s → exec step s as = some t →
      (Meets step C s as ↔ ∀ bs u, bs <+: as → exec step s bs = some u → P u) := by
  intro as s t hI ht
  have h := meets_iff_of_exact_steps (R := fun _ _ => True) hP
    (fun s a s' hI hC hs => ⟨hstep s a s' hI hC hs, trivial⟩)
    (fun s a s' hI hC hs hPR => hbreak s a s' hI hC hs hPR.1) as s t hI ht
  exact h.trans (and_iff_left fun _ _ _ _ _ _ _ => trivial)

/-- The invariant rule for all runs. -/
theorem exec_invariant (hstep : ∀ s a s', I s → step s a = some s' → I s')
    {as : List α} {s t : σ} (hs : I s) (h : exec step s as = some t) : I t := by
  have hmeets : ∀ (as : List α) (s : σ), Meets step (fun _ _ => True) s as := by
    intro as
    induction as with
    | nil => exact fun _ => trivial
    | cons a as ih => exact fun s => ⟨trivial, fun s' _ => ih s'⟩
  exact exec_invariant_of_meets (fun s a s' hI _ => hstep s a s' hI) as s t hs (hmeets as s) h

end Run

end XosKernel
