/-
# Who may be signalled, and how often

`kill_permitted` decides whether a task may send a signal to another one. The forms of `sys_kill`
with a positive pid and with `-1` ask it, once for each process; the two forms for a process group
do not, and they post the signal to every thread. This file says exactly when a call is right all
the same.
-/
import XosKernel.Signal.Kill

namespace XosKernel.Kill

open Option

open Signal (sigkill)

/-- Where a signal can be pending: in the own set of a task, or in a shared set. -/
inductive Place
  | own (p : ℕ)
  | shared (x : ℕ)
deriving DecidableEq

namespace State

/-- The signal is pending at the place. -/
def holds (s : State) (sig : ℕ) : Place → Bool
  | .own p => s.own p sig
  | .shared x => has (s.shared x) sig

def belongs (s : State) (tgid : ℤ) : Place → Prop
  | .own p => p < maxProc ∧ ∃ t ∈ s.tasks p, t.tgid = tgid
  | .shared x => ∃ p < maxProc, ∃ t ∈ s.tasks p, t.tgid = tgid ∧ t.signal = x

/-- The call makes the signal pending at the place. -/
def gained (s s' : State) (sig : ℕ) (a : Place) : Prop := s.holds sig a = false ∧ s'.holds sig a =
    true

end State

def toGroup (pid : ℤ) : Prop := pid = 0 ∨ pid < -1

def groupOf (sender : Task) (pid : ℤ) : ℤ := if pid = 0 then sender.pgid else -pid

/-- A stopped task that is sent `SIGCONT` runs on, and the signal is not pending. -/
def Task.resumedBy (t : Task) (sig : ℕ) : Prop := t.state = .stopped ∧ sig = sigcont

/-- What a call from state `s` to state `s'` with result `r` has to observe: only tasks that permit
it get the signal; and a group gets it in one place for each process, every member process in some.
-/
structure KillOk (s s' : State) (r : Except Errno Unit) (sender : Task) (pid : ℤ) (sig : ℕ) :
    Prop where
  permitted : ∀ p < maxProc, ∀ t ∈ s.tasks p, t.pid = p → t.hasProc = true →
    s.pending p t sig = false → s'.pending p t sig = true → killPermitted sender t = none
  once : toGroup pid → ∀ tgid a b, s.belongs tgid a → s.belongs tgid b → s.gained s' sig a →
    s.gained s' sig b → a = b
  reached : toGroup pid → r = .ok () → ∀ p < maxProc, ∀ t ∈ s.tasks p,
    t.inGroup p (groupOf sender pid) = true → t.resumedBy sig ∨
      ∃ a, s.belongs t.tgid a ∧ s'.holds sig a = true

/-- The tasks that share the pending set of `t` would permit the signal too. -/
def SharersPermit (s : State) (sender t : Task) (sig : ℕ) : Prop :=
  ¬ (t.state = .stopped ∧ (sig = sigcont ∨ sig = sigkill)) →
    ∀ q < maxProc, ∀ u ∈ s.tasks q, u.pid = q → u.hasProc = true → u.signal = t.signal →
      s.pending q u sig = false → killPermitted sender u = none

/-- Every member of the group permits the signal, and no process has two threads in it; members that
do not get the signal, because they have it already or are resumed by it, do not count. -/
def GroupSound (s : State) (sender : Task) (pgid : ℤ) (sig : ℕ) : Prop :=
  (∀ p < maxProc, ∀ t ∈ s.tasks p, t.inGroup p pgid = true → ¬ t.resumedBy sig →
    s.pending p t sig = false → killPermitted sender t = none) ∧
  ∀ p < maxProc, ∀ q < maxProc, ∀ t ∈ s.tasks p, ∀ u ∈ s.tasks q, t.inGroup p pgid = true →
    u.inGroup q pgid = true → ¬ t.resumedBy sig → ¬ u.resumedBy sig → s.own p sig = false →
    s.own q sig = false → t.tgid = u.tgid → p = q

/-- When a call is right, for each form of the pid. -/
def KillSound (s : State) (me : ℕ) (sender : Task) (initPid pid : ℤ) (sig : ℕ) : Prop :=
  if 0 < pid then
    pid < maxProc → ∀ t ∈ s.tasks pid.toNat, t.pid = pid → t.hasProc = true →
      killPermitted sender t = none → SharersPermit s sender t sig
  else if pid = -1 then
    ∀ p < maxProc, ∀ t ∈ s.tasks p, t.sendable p sender me initPid = true →
      SharersPermit s sender t sig
  else (pid = 0 → sender.pgid ≠ 0) → GroupSound s sender (groupOf sender pid) sig

section Forms

variable {s : State} {me : ℕ} {sender : Task} {initPid pid pgid : ℤ} {sig : ℕ}

lemma killOk_refl_of_error (r : Except Errno Unit) (hr : r ≠ .ok ()) : KillOk s s r sender pid sig
    where
  permitted := fun _ _ _ _ _ _ h h' => absurd h' (by simp [h])
  once := fun _ _ _ _ _ _ ha _ => absurd ha.2 (by simp [ha.1])
  reached := fun _ h => absurd h hr

lemma pending_iff (p : ℕ) (t : Task) :
    s.pending p t sig = true ↔ s.own p sig = true ∨ has (s.shared t.signal) sig = true := by
  rw [State.pending, Bool.or_eq_true]

lemma not_pending_iff (p : ℕ) (t : Task) :
    s.pending p t sig = false ↔ s.own p sig = false ∧ has (s.shared t.signal) sig = false := by
  rw [State.pending, Bool.or_eq_false_iff]

lemma killOk_process_iff (hsig : sig - 1 < 64) (hpid : 0 < pid) {p : ℕ} (hp : (p : ℤ) = pid)
    {t : Task}
    (ht : s.tasks p = some t) (hperm : killPermitted sender t = none) (r : Except Errno Unit) :
    KillOk s (s.deliverSignalToProcess p sig) r sender pid sig ↔ SharersPermit s sender t sig := by
  have hnot : ¬ toGroup pid := by unfold toGroup; omega
  constructor
  · intro h hstop q hq u hu hupid huproc hshare hpend
    refine h.permitted q hq u hu hupid huproc hpend ((pending_iff q u).2 (.inr ?_))
    exact (State.shared_deliverSignalToProcess hsig _).2 (.inr ⟨t, ht, hshare.symm, hstop⟩)
  · intro h
    refine ⟨fun q hq u hu hupid huproc hpend hpend' => ?_, (absurd · hnot), (absurd · hnot)⟩
    obtain ⟨hown, hshared⟩ := (not_pending_iff q u).1 hpend
    obtain hown' | hshared' := (pending_iff q u).1 hpend'
    · by_cases hqp : q = p
      · rw [hqp, ht] at hu
        exact some.inj hu ▸ hperm
      · have : (s.deliverSignalToProcess p sig).own q sig = s.own q sig := by
          simp only [State.own, State.tasks_deliverSignalToProcess_of_ne hqp]
        exact absurd hown' (by simp [this, hown])
    · obtain hold | ⟨v, hv, hshare, hstop⟩ :=
        (State.shared_deliverSignalToProcess hsig _).1 hshared'
      · exact absurd hold (by simp [hshared])
      · obtain rfl := some.inj (ht.symm.trans hv)
        exact h hstop q hq u hu hupid huproc hshare.symm hpend

lemma killOk_killAll_iff (hsig : sig - 1 < 64) (h0 : sig ≠ 0) (hpid : pid = -1)
    (r : Except Errno Unit) :
    KillOk s (killAll s sender me initPid sig).1 r sender pid sig ↔
      ∀ p < maxProc, ∀ t ∈ s.tasks p, t.sendable p sender me initPid = true →
        SharersPermit s sender t sig := by
  have hnot : ¬ toGroup pid := by unfold toGroup; omega
  constructor
  · intro h p hp t ht hsend hstop q hq u hu hupid huproc hshare hpend
    refine h.permitted q hq u hu hupid huproc hpend ((pending_iff q u).2 (.inr ?_))
    exact (shared_killAll hsig h0 _).2 (.inr ⟨p, hp, t, ht, hsend, hshare.symm, hstop⟩)
  · intro h
    refine ⟨fun q hq u hu hupid huproc hpend hpend' => ?_, (absurd · hnot), (absurd · hnot)⟩
    obtain ⟨hown, hshared⟩ := (not_pending_iff q u).1 hpend
    obtain hown' | hshared' := (pending_iff q u).1 hpend'
    · obtain hold | ⟨-, v, hv, hsend, -⟩ := (own_killAll hsig h0 q).1 hown'
      · exact absurd hold (by simp [hown])
      · obtain rfl := some.inj (hu.symm.trans hv)
        exact (of_decide_eq_true hsend).2.2.2.2.2
    · obtain hold | ⟨p, hp, v, hv, hsend, hshare, hstop⟩ := (shared_killAll hsig h0 _).1 hshared'
      · exact absurd hold (by simp [hshared])
      · exact h p hp v hv hsend hstop q hq u hu hupid huproc hshare.symm hpend

lemma gained_pgsignal_iff (hsig : sig - 1 < 64) (h0 : sig ≠ 0) (p : ℕ) :
    s.gained (pgsignal s pgid sig).1 sig (.own p) ↔ s.own p sig = false ∧ p < maxProc ∧
      ∃ t ∈ s.tasks p, t.inGroup p pgid = true ∧ ¬ t.resumedBy sig := by
  refine and_congr_right fun hown => ?_
  change (pgsignal s pgid sig).1.own p sig = true ↔ _
  rw [own_pgsignal hsig h0]
  refine or_iff_right ?_
  simp [show s.own p sig = false from hown]

lemma killOk_pgsignal_iff (hsig : sig - 1 < 64) (h0 : sig ≠ 0) (hpid : toGroup pid)
    (hg : pgid = groupOf sender pid) (r : Except Errno Unit) :
    KillOk s (pgsignal s pgid sig).1 r sender pid sig ↔ GroupSound s sender pgid sig := by
  have hgain : ∀ p, s.gained (pgsignal s pgid sig).1 sig (.own p) ↔ _ :=
    fun p => gained_pgsignal_iff hsig h0 p
  constructor
  · intro h
    refine ⟨fun p hp t ht hin hres hpend => ?_,
      fun p hp q hq t ht u hu hin hin' hres hres' hown hown' htg => ?_⟩
    · have hmember := of_decide_eq_true hin
      refine h.permitted p hp t ht hmember.1 hmember.2.1 hpend ((pending_iff p t).2 (.inl ?_))
      exact (own_pgsignal hsig h0 p).2 (.inr ⟨hp, t, ht, hin, hres⟩)
    · exact Place.own.inj (h.once hpid t.tgid (.own p) (.own q) ⟨hp, t, ht, rfl⟩
        ⟨hq, u, hu, htg.symm⟩
        ((hgain p).2 ⟨hown, hp, t, ht, hin, hres⟩) ((hgain q).2 ⟨hown', hq, u, hu, hin', hres'⟩))
  · rintro ⟨hperm, hone⟩
    refine ⟨fun p hp t ht _ _ hpend hpend' => ?_, fun _ tgid a b ha hb hga hgb => ?_,
      fun _ _ p hp t ht hin => ?_⟩
    · obtain ⟨hown, hshared⟩ := (not_pending_iff p t).1 hpend
      obtain hown' | hshared' := (pending_iff p t).1 hpend'
      · obtain hold | ⟨-, u, hu, hin, hres⟩ := (own_pgsignal hsig h0 p).1 hown'
        · exact absurd hold (by simp [hown])
        · obtain rfl := some.inj (ht.symm.trans hu)
          exact hperm p hp t ht hin hres hpend
      · exact absurd (shared_pgsignal t.signal ▸ hshared') (by simp [hshared])
    · have hshared : ∀ x, ¬ s.gained (pgsignal s pgid sig).1 sig (.shared x) := by
        rintro x ⟨hno, hyes⟩
        have hsame : has ((pgsignal s pgid sig).1.shared x) sig = _ := shared_pgsignal x
        exact absurd (hsame.symm.trans hyes) (by simp [show has (s.shared x) sig = false from hno])
      cases a with
      | shared x => exact absurd hga (hshared x)
      | own p =>
        cases b with
        | shared y => exact absurd hgb (hshared y)
        | own q =>
          obtain ⟨hown, hp, t, ht, hin, hres⟩ := (hgain p).1 hga
          obtain ⟨hown', hq, u, hu, hin', hres'⟩ := (hgain q).1 hgb
          obtain ⟨-, t', ht', htg⟩ := ha
          obtain ⟨-, u', hu', hug⟩ := hb
          obtain rfl := some.inj (ht.symm.trans ht')
          obtain rfl := some.inj (hu.symm.trans hu')
          exact congrArg Place.own
            (hone p hp q hq t ht u hu hin hin' hres hres' hown hown' (htg.trans hug.symm))
    · by_cases hres : t.resumedBy sig
      · exact .inl hres
      · refine .inr ⟨.own p, ⟨hp, t, ht, rfl⟩, ?_⟩
        exact (own_pgsignal hsig h0 p).2 (.inr ⟨hp, t, ht, hg ▸ hin, hres⟩)

end Forms

/-- A call of `sys_kill` is right if and only if the state is such that its form makes it right: for
one process or for all, if the tasks that share a pending set agree about the permission; for a
group, if every member permits the signal and no process has two threads in the group. -/
theorem sysKill_ok_iff {s s' : State} {me : ℕ} {sender : Task} {initPid pid : ℤ} {sig : ℕ}
    {r : Except Errno Unit} (hsig : 1 ≤ sig) (hsig' : sig ≤ 64)
    (h : sysKill s me sender initPid pid sig = some (s', r)) :
    KillOk s s' r sender pid sig ↔ KillSound s me sender initPid pid sig := by
  have hbit : sig - 1 < 64 := by omega
  have h0 : sig ≠ 0 := by omega
  unfold KillSound
  revert h
  fun_cases sysKill s me sender initPid pid sig with
  | case1 hrange => unfold nsig at hrange; omega
  | case2 _ hpos hmax =>
    rintro ⟨⟩
    rw [if_pos hpos]
    exact iff_of_true (killOk_refl_of_error _ nofun) fun hlt => absurd hlt hmax.not_gt
  | case3 => exact nofun
  | case4 _ hpos _ t ht hlive =>
    rintro ⟨⟩
    rw [if_pos hpos]
    refine iff_of_true (killOk_refl_of_error _ nofun) fun _ u hu hupid huproc => ?_
    obtain rfl := some.inj (ht.symm.trans hu)
    exact absurd hlive (by simp [hupid, huproc])
  | case5 _ hpos _ t ht _ e hperm =>
    rintro ⟨⟩
    rw [if_pos hpos]
    refine iff_of_true (killOk_refl_of_error _ nofun) fun _ u hu _ _ hu' => ?_
    obtain rfl := some.inj (ht.symm.trans hu)
    exact absurd (hperm.symm.trans hu') nofun
  | case6 => omega
  | case7 _ hpos hmax t ht hlive hperm =>
    rintro ⟨⟩
    rw [if_pos hpos, Int.toNat_natCast,
      killOk_process_iff hbit hpos (Int.toNat_of_nonneg hpos.le) ht hperm]
    constructor
    · intro hs _ u hu _ _ _
      exact some.inj (ht.symm.trans hu) ▸ hs
    · intro hs
      push Not at hlive
      exact hs (by omega) t ht hlive.1 hlive.2 hperm
  | case8 _ hpos hzero hpg =>
    rintro ⟨⟩
    rw [if_neg hpos, if_neg (by omega)]
    exact iff_of_true (killOk_refl_of_error _ nofun) fun hne => absurd hpg (hne hzero)
  | case9 _ hpos hzero hpg =>
    rw [if_neg hpos, if_neg (by omega), Int.toNat_natCast]
    intro h
    have hgroup : sender.pgid = groupOf sender pid := (if_pos hzero).symm
    obtain rfl : (pgsignal s sender.pgid sig).1 = s' := congrArg Prod.fst (some.inj h)
    rw [killOk_pgsignal_iff hbit h0 (.inl hzero) hgroup, ← hgroup]
    exact (imp_iff_right fun _ => hpg).symm
  | case10 _ hpos _ hall =>
    rw [if_neg hpos, if_pos hall, Int.toNat_natCast]
    intro h
    obtain rfl : (killAll s sender me initPid sig).1 = s' := congrArg Prod.fst (some.inj h)
    exact killOk_killAll_iff hbit h0 hall r
  | case11 _ hpos hzero hall =>
    rw [if_neg hpos, if_neg hall, Int.toNat_natCast]
    intro h
    have hgroup : -pid = groupOf sender pid := (if_neg hzero).symm
    obtain rfl : (pgsignal s (-pid) sig).1 = s' := congrArg Prod.fst (some.inj h)
    rw [killOk_pgsignal_iff hbit h0 (.inr (by omega)) hgroup, hgroup]
    exact (imp_iff_right fun hz => absurd hz hzero).symm

/-- A task of the process `tgid` and the user `uid`, in group 3. -/
def member (pid tgid : ℤ) (uid signal : ℕ) : Task :=
  { pid := pid
    tgid := tgid
    hasProc := true
    pgid := 3
    uid := uid
    euid := uid
    capKill := uid = 0
    signal := signal
    state := .blocked
    sigPending := 0
    sigBlocked := 0
    hasSignal := false }

/-- A job of three processes: the sender, a program that runs as root, and one with two threads, of
which the second came in by a `setpgid` of its own. -/
def job : State :=
  { tasks := fun p =>
      if p = 3 then some (member 3 3 1000 0)
      else if p = 4 then some (member 4 4 0 1)
      else if p = 5 then some (member 5 5 1000 2)
      else if p = 6 then some (member 6 5 1000 2)
      else none
    shared := fun _ => 0 }

/-- `kill(0, SIGTERM)` of the sender: the program that runs as root gets the signal, and both
threads of the third process get it. -/
theorem sysKill_group_wrong : ∃ s' r, sysKill job 3 (member 3 3 1000 0) 2 0 15 = some (s', r) ∧
    killPermitted (member 3 3 1000 0) (member 4 4 0 1) = some .EPERM ∧ s'.own 4 15 = true ∧
    s'.own 5 15 = true ∧ s'.own 6 15 = true ∧ ¬ KillOk job s' r (member 3 3 1000 0) 0 15 := by
  obtain ⟨⟨s', r⟩, hs, h4, h5, h6⟩ : ∃ x, sysKill job 3 (member 3 3 1000 0) 2 0 15 = some x ∧
      x.1.own 4 15 = true ∧ x.1.own 5 15 = true ∧ x.1.own 6 15 = true := by
    decide +kernel
  have hperm : killPermitted (member 3 3 1000 0) (member 4 4 0 1) = some .EPERM := by decide
  refine ⟨s', r, hs, hperm, h4, h5, h6, fun h => ?_⟩
  have hnone := h.permitted 4 (by decide) (member 4 4 0 1) rfl rfl rfl (by decide)
    ((pending_iff 4 _).2 (.inl h4))
  exact absurd (hperm.symm.trans hnone) nofun

/-- The same sender signals the process of its own user. -/
theorem sysKill_ok_iff_one : ∃ s' r, sysKill job 3 (member 3 3 1000 0) 2 5 15 = some (s', r) ∧
    KillOk job s' r (member 3 3 1000 0) 5 15 := by
  obtain ⟨⟨s', r⟩, hs⟩ : ∃ x, sysKill job 3 (member 3 3 1000 0) 2 5 15 = some x :=
    isSome_iff_exists.1 (by decide)
  refine ⟨s', r, hs, (sysKill_ok_iff (by decide) (by decide) hs).2 ?_⟩
  rintro - t ht - - - - q - u hu - - hshare -
  -- the two threads that share the set belong to the sender's user
  obtain rfl := some.inj ht
  simp only [job] at hu
  split_ifs at hu
  · exact some.inj hu ▸ rfl
  · obtain rfl := some.inj hu
    exact nomatch hshare
  · exact some.inj hu ▸ rfl
  · exact some.inj hu ▸ rfl
  · exact nomatch hu

end XosKernel.Kill
