/-
# Sleeping

`sys_nanosleep`, `sys_clock_nanosleep` and `sleep_until_deadline` (`xcore/ipc.c`), from the check of
the `timespec` on. A sleeper is timed out by `timer_handler` like any other timed wait; one that a
signal wakes does not return 0.
-/
import XosKernel.Sched.TimedWait

namespace XosKernel.TimedWait

open Option

/-- A `timespec` that has passed the check. -/
structure Timespec where
  tvSec : ℕ
  tvNsec : ℕ
  tvSec_lt : tvSec < 2 ^ 63
  tvNsec_lt : tvNsec < 10 ^ 9

def Timespec.ns (ts : Timespec) : ℕ := ts.tvSec * 10 ^ 9 + ts.tvNsec

/-- The nanoseconds as the calls compute them. -/
def Timespec.reqNs (ts : Timespec) : ℕ := u64 (u64 (ts.tvSec * 10 ^ 9) + ts.tvNsec)

lemma Timespec.reqNs_eq (ts : Timespec) : ts.reqNs = ts.ns % 2 ^ 64 := by
  unfold Timespec.reqNs Timespec.ns u64
  exact Nat.mod_add_mod ..

inductive Sleep
  | nanosleep
  | clockNanosleep (realtime abstime : Bool)

namespace Sleep

/-- The deadline at which the caller blocks; `none` if the call returns 0 at once. -/
def deadline (now boot : ℕ) (ts : Timespec) : Sleep → Option ℕ
  | .nanosleep | .clockNanosleep _ false => some (u64 (now + if ts.reqNs = 0 then 1 else ts.reqNs))
  | .clockNanosleep false true => if ts.reqNs ≤ now then none else some ts.reqNs
  | .clockNanosleep true true =>
    if ts.reqNs ≤ boot then none
    else if ts.reqNs - boot ≤ now then none
    else some (ts.reqNs - boot)

/-- The instant that is asked for, on `sched_clock`. -/
def wanted (now boot : ℕ) (ts : Timespec) : Sleep → ℕ
  | .nanosleep | .clockNanosleep _ false => now + ts.ns
  | .clockNanosleep false true => ts.ns
  | .clockNanosleep true true => ts.ns - boot

/-- The call does not return 0 before that instant: not at once, and `timer_handler` does not time
the sleeper out earlier. -/
def Timely (x : Sleep) (now boot : ℕ) (ts : Timespec) : Prop :=
  match x.deadline now boot ts with
  | none => x.wanted now boot ts ≤ now
  | some d => ∀ (s : Sys) (t c later : ℕ), now ≤ later → (s.task t).waitDeadline = d →
      (s.task t).waitTimedOut = false → ((s.timerHandler c later).task t).waitTimedOut = true →
      x.wanted now boot ts ≤ later

/-- The nanoseconds of the request, or the end of a relative sleep, are below `2 ^ 64`; or the
instant on the wall clock has passed. -/
def Fits (now boot : ℕ) (ts : Timespec) : Sleep → Prop
  | .nanosleep | .clockNanosleep _ false => now + ts.ns < 2 ^ 64
  | .clockNanosleep false true => ts.ns < 2 ^ 64
  | .clockNanosleep true true => ts.ns < 2 ^ 64 ∨ ts.ns ≤ boot + now

lemma task_expireOne {s : Sys} {t u : ℕ} (h : t ≠ u) : (s.expireOne u).task t = s.task t := by
  fun_cases Sys.expireOne s u with
  | case1 => exact Function.update_of_ne h ..
  | case2 => rfl

/-- The handler times out only what is due. -/
lemma le_of_expire {s : Sys} {t now : ℕ} {l : List ℕ} (h : (s.task t).waitTimedOut = false)
    (hout : ((s.expire now l).task t).waitTimedOut = true) : (s.task t).waitDeadline ≤ now := by
  fun_induction Sys.expire s now l with
  | case1 | case2 => exact absurd (h.symm.trans hout) Bool.false_ne_true
  | case3 s u rest hdue ih =>
    by_cases htu : t = u
    · exact htu ▸ not_lt.1 hdue
    · rw [task_expireOne htu] at ih
      exact ih h hout

lemma timely_iff_max (x : Sleep) (now boot : ℕ) (ts : Timespec) :
    x.Timely now boot ts ↔ x.wanted now boot ts ≤ max now ((x.deadline now boot ts).getD 0) := by
  unfold Timely
  cases x.deadline now boot ts with
  | none => rw [getD_none, max_eq_left (Nat.zero_le _)]
  | some d =>
    constructor
    · -- a sleeper that is alone in its queue
      intro h
      let s : Sys := ⟨fun _ => ⟨0, .blocked, d, false, .out⟩, fun _ => [0], false⟩
      refine h s 0 0 _ (le_max_left _ _) rfl rfl ?_
      have hdue : ¬max now d < d := not_lt.2 (le_max_right _ _)
      simp [s, Sys.timerHandler, Sys.expire, hdue, Sys.expireOne, Sys.timerQueueWaitPop,
        Sys.setTask, Sys.setQueue]
    · intro h s t c later hnow hd hfalse hout
      exact h.trans (max_le hnow (hd ▸ le_of_expire hfalse hout))

/-- A sleep is long enough exactly if its nanoseconds do not wrap. -/
theorem timely_iff_fits (x : Sleep) {now boot : ℕ} (hnow : now < 2 ^ 64) (hboot : boot < 2 ^ 64)
    (ts : Timespec) : x.Timely now boot ts ↔ x.Fits now boot ts := by
  have hreq := ts.reqNs_eq
  have hrelative : now + ts.ns ≤ max now (u64 (now + if ts.reqNs = 0 then 1 else ts.reqNs)) ↔
      now + ts.ns < 2 ^ 64 := by
    unfold u64
    split_ifs <;> omega
  rw [timely_iff_max]
  fun_cases deadline now boot ts x with
  | case1 | case2 =>
    rw [getD_some]
    exact hrelative
  | case3 hpast =>
    change ts.ns ≤ max now 0 ↔ ts.ns < 2 ^ 64
    omega
  | case4 hpast =>
    rw [getD_some]
    change ts.ns ≤ max now ts.reqNs ↔ ts.ns < 2 ^ 64
    omega
  | case5 hpast | case6 _ hpast =>
    change ts.ns - boot ≤ max now 0 ↔ ts.ns < 2 ^ 64 ∨ ts.ns ≤ boot + now
    omega
  | case7 _ hpast =>
    rw [getD_some]
    change ts.ns - boot ≤ max now (ts.reqNs - boot) ↔ ts.ns < 2 ^ 64 ∨ ts.ns ≤ boot + now
    omega

theorem timely_iff_fits_second : Sleep.nanosleep.Timely 0 0 ⟨1, 0, by decide, by decide⟩ :=
  (timely_iff_fits .nanosleep (by decide) (by decide) _).2
  (by decide : 0 + (1 * 10 ^ 9 + 0) < 2 ^ 64)

/-- A sleep of 18446744074 seconds ends after 0.3 seconds. -/
theorem nanosleep_wraps : Sleep.nanosleep.deadline 0 0 ⟨18446744074, 0, by decide, by decide⟩ =
    some 290448384 ∧ ¬Sleep.nanosleep.Timely 0 0 ⟨18446744074, 0, by decide, by decide⟩ := by
  rw [timely_iff_max]
  exact ⟨rfl, by decide⟩

end Sleep

end XosKernel.TimedWait
