/-
# Sending signals

`sys_kill`, `kill_permitted`, `deliver_signal_to`, `deliver_signal_to_process`, `kill_all` and
`pgsignal` of `kernel/bsd/signal.c`.

A task has a set of pending signals of its own and shares one with its thread group, in the
`signal_struct`. A signal that is sent to a process goes to the shared set; `pgsignal` sends to the
own set of every task of the group, and asks nobody for permission.
-/
import XosKernel.Signal.Deliver
import XosKernel.Lib.Sweep
import XosKernel.Mem.Layout

namespace XosKernel.Kill

open List Option Function BitVec

open Signal (sigmask sigkill sigstop)

def sigcont : ℕ := 18

def nsig : ℤ := 65

def maxProc : ℕ := 1024

/-- The states of a task that sending a signal tells apart. -/
inductive TaskState
  | ready
  | blocked
  | stopped
  /-- Running, and the states of a task that is on its way out. -/
  | other
deriving DecidableEq

/-- `xtask` with its `proc`, which a kernel task does not have; `signal` is the number of the
`signal_struct`, `capKill` the bit of `cap_effective`, `hasSignal` the cached `sig_pending` bit. -/
structure Task where
  pid : ℤ
  tgid : ℤ
  hasProc : Bool
  pgid : ℤ
  uid : ℕ
  euid : ℕ
  capKill : Bool
  signal : ℕ
  state : TaskState
  sigPending : BitVec 64
  sigBlocked : BitVec 64
  hasSignal : Bool
deriving DecidableEq

/-- The task table and the `shared_pending` of each `signal_struct`. -/
structure State where
  tasks : ℕ → Option Task
  shared : ℕ → BitVec 64

namespace State

def setTask (s : State) (p : ℕ) (t : Task) : State :=
  { s with tasks := update s.tasks p (some t) }

def setShared (s : State) (x : ℕ) (v : BitVec 64) : State :=
  { s with shared := update s.shared x v }

def recalcSigpending (s : State) (t : Task) : Task :=
  let pend := t.sigPending ||| s.shared t.signal
  let deliv := (pend &&& ~~~t.sigBlocked) ||| (pend &&& (sigmask sigkill ||| sigmask sigstop))
  { t with hasSignal := deliv != 0 }

/-- `deliver_signal_to`. A stopped task is resumed by `SIGCONT`, which then is not pending, and by
`SIGKILL`, which is; a blocked task is woken. -/
def deliverSignalTo (s : State) (p sig : ℕ) : State :=
  match s.tasks p with
  | none => s
  | some t =>
    if t.state = .stopped ∧ sig = sigcont then
      let s := s.setShared t.signal (s.shared t.signal &&& ~~~sigmask sigstop)
      s.setTask p (s.recalcSigpending
        { t with
          sigPending := t.sigPending &&& ~~~sigmask sigstop
          state := .ready })
    else
      s.setTask p (s.recalcSigpending
        { t with
          sigPending := t.sigPending ||| sigmask sig
          state :=
            if t.state = .blocked ∨ t.state = .stopped ∧ sig = sigkill then .ready else t.state })

def deliverSignalToProcess (s : State) (p sig : ℕ) : State :=
  match s.tasks p with
  | none => s
  | some t =>
    if t.state = .stopped ∧ (sig = sigcont ∨ sig = sigkill) then s.deliverSignalTo p sig
    else
      let s := s.setShared t.signal (s.shared t.signal ||| sigmask sig)
      s.setTask p (s.recalcSigpending
        { t with
          state :=
            if t.state = .blocked ∧ t.sigBlocked &&& sigmask sig = 0 then .ready else t.state })

end State

/-- `kill_permitted` of a task with a `proc`: no error is permission. -/
def killPermitted (sender target : Task) : Option Errno :=
  if ¬ target.hasProc then some .ESRCH
  else if sender.euid = 0 ∧ sender.capKill then none
  else if sender.euid = target.uid ∨ sender.euid = target.euid ∨ sender.uid = target.euid then none
  else some .EPERM

def Task.inGroup (t : Task) (p : ℕ) (pgid : ℤ) : Bool := t.pid = p ∧ t.hasProc ∧ t.pgid = pgid

/-- The visit of slot `p` by `pgsignal`. -/
def pgsignalVisit (pgid : ℤ) (sig : ℕ) (s : State) (p : ℕ) : State :=
  match s.tasks p with
  | none => s
  | some t => if t.inGroup p pgid ∧ sig ≠ 0 then s.deliverSignalTo p sig else s

def pgsignal (s : State) (pgid : ℤ) (sig : ℕ) : State × Except Errno Unit :=
  ((range maxProc).foldl (pgsignalVisit pgid sig) s,
    if (range maxProc).any fun p => (s.tasks p).any fun t => t.inGroup p pgid then .ok ()
    else .error .ESRCH)

/-- The leader at slot `p` is one that `kill_all` may signal. -/
def Task.sendable (t : Task) (p : ℕ) (sender : Task) (senderSlot : ℕ) (initPid : ℤ) : Bool :=
  t.pid = p ∧ t.hasProc ∧ t.pid ≠ initPid ∧ p ≠ senderSlot ∧ t.tgid = t.pid ∧
    killPermitted sender t = none

def killAllVisit (sender : Task) (senderSlot : ℕ) (initPid : ℤ) (sig : ℕ) (s : State) (p : ℕ) :
    State :=
  match s.tasks p with
  | none => s
  | some t =>
    if t.sendable p sender senderSlot initPid ∧ sig ≠ 0 then s.deliverSignalToProcess p sig else s

def killAll (s : State) (sender : Task) (senderSlot : ℕ) (initPid : ℤ) (sig : ℕ) :
    State × Except Errno Unit :=
  ((range maxProc).foldl (killAllVisit sender senderSlot initPid sig) s,
    if (range maxProc).any fun p =>
        (s.tasks p).any fun t => t.sendable p sender senderSlot initPid then .ok ()
    else .error .ESRCH)

/-- `sys_kill` by the task at slot `me`. A positive pid whose slot is empty is a null dereference in
`task_get`: there is no result. -/
def sysKill (s : State) (me : ℕ) (sender : Task) (initPid pid sig : ℤ) :
    Option (State × Except Errno Unit) :=
  if sig < 0 ∨ nsig ≤ sig then some (s, .error .EINVAL)
  else if 0 < pid then
    if (maxProc : ℤ) ≤ pid then some (s, .error .ESRCH)
    else
      match s.tasks pid.toNat with
      | none => none
      | some t =>
        if t.pid ≠ pid ∨ ¬ t.hasProc then some (s, .error .ESRCH)
        else
          match killPermitted sender t with
          | some e => some (s, .error e)
          | none =>
            if sig = 0 then some (s, .ok ())
            else some (s.deliverSignalToProcess pid.toNat sig.toNat, .ok ())
  else if pid = 0 then
    if sender.pgid = 0 then some (s, .error .ESRCH) else some (pgsignal s sender.pgid sig.toNat)
  else if pid = -1 then some (killAll s sender me initPid sig.toNat)
  else some (pgsignal s (-pid) sig.toNat)

/-! ## Who has the signal pending -/

def has (v : BitVec 64) (sig : ℕ) : Bool := v.getLsbD (sig - 1)

lemma has_or_sigmask (v : BitVec 64) {sig : ℕ} (h : sig - 1 < 64) :
    has (v ||| sigmask sig) sig = true := by
  rw [has, getLsbD_or, show sigmask sig = twoPow 64 (sig - 1) from rfl,
    getLsbD_twoPow]
  simp [h]

lemma has_clear_sigstop (v : BitVec 64) :
    has (v &&& ~~~sigmask sigstop) sigcont = has v sigcont := by
  have hbit : (sigmask sigstop).getLsbD (sigcont - 1) = false := by decide
  have hlt : sigcont - 1 < 64 := by decide
  rw [has, has, getLsbD_and, getLsbD_not, hbit]
  simp [hlt]

namespace State

def own (s : State) (p sig : ℕ) : Bool := (s.tasks p).any fun t => has t.sigPending sig

/-- The signal is pending for the task `t` at slot `p`. -/
def pending (s : State) (p : ℕ) (t : Task) (sig : ℕ) : Bool :=
  s.own p sig || has (s.shared t.signal) sig

lemma setTask_tasks_self (s : State) (p : ℕ) (t : Task) : (s.setTask p t).tasks p = some t :=
  update_self ..

lemma setTask_tasks_of_ne (s : State) (p : ℕ) (t : Task) {q : ℕ} (h : q ≠ p) :
    (s.setTask p t).tasks q = s.tasks q := update_of_ne h ..

lemma setTask_shared (s : State) (p : ℕ) (t : Task) : (s.setTask p t).shared = s.shared := rfl

lemma setShared_shared (s : State) (x : ℕ) (v : BitVec 64) (y : ℕ) :
    (s.setShared x v).shared y = if y = x then v else s.shared y := update_apply ..

lemma setShared_tasks (s : State) (x : ℕ) (v : BitVec 64) : (s.setShared x v).tasks = s.tasks := rfl

variable {s : State} {p sig : ℕ}

/-! ### One delivery -/

lemma tasks_deliverSignalTo_of_ne {q : ℕ} (h : q ≠ p) :
    (s.deliverSignalTo p sig).tasks q = s.tasks q := by
  unfold deliverSignalTo
  split
  · rfl
  · split
    · exact setTask_tasks_of_ne _ _ _ h
    · exact setTask_tasks_of_ne _ _ _ h

lemma shared_deliverSignalTo (x : ℕ) :
    has ((s.deliverSignalTo p sig).shared x) sig = has (s.shared x) sig := by
  unfold deliverSignalTo
  split
  · rfl
  · next t _ =>
    split
    · next hcont =>
      rw [setTask_shared, setShared_shared, hcont.2]
      split
      · next hx => rw [hx, has_clear_sigstop]
      · rfl
    · rfl

lemma own_deliverSignalTo (hsig : sig - 1 < 64) :
    (s.deliverSignalTo p sig).own p sig = true ↔ s.own p sig = true ∨
      ∃ t ∈ s.tasks p, ¬ (t.state = .stopped ∧ sig = sigcont) := by
  cases ht : s.tasks p with
  | none => simp [deliverSignalTo, own, ht]
  | some t =>
    simp only [deliverSignalTo, own, ht]
    split
    next hcont =>
      simp only [setTask_tasks_self, recalcSigpending, any_some]
      rw [hcont.2, has_clear_sigstop]
      refine (or_iff_left ?_).symm
      rintro ⟨u, hu, hne⟩
      exact hne (some.inj hu ▸ ⟨hcont.1, rfl⟩)
    next hcont =>
      refine iff_of_true ?_ (.inr ⟨t, rfl, hcont⟩)
      simp only [setTask_tasks_self, recalcSigpending, any_some]
      exact has_or_sigmask _ hsig

lemma tasks_deliverSignalToProcess_of_ne {q : ℕ} (h : q ≠ p) :
    (s.deliverSignalToProcess p sig).tasks q = s.tasks q := by
  unfold deliverSignalToProcess
  split
  · rfl
  · split
    · exact tasks_deliverSignalTo_of_ne h
    · rw [setTask_tasks_of_ne _ _ _ h, setShared_tasks]

/-- A delivery to a process makes the signal pending in the own set of a stopped leader that is
killed. -/
lemma own_deliverSignalToProcess (hsig : sig - 1 < 64) :
    (s.deliverSignalToProcess p sig).own p sig = true ↔ s.own p sig = true ∨
      ∃ t ∈ s.tasks p, t.state = .stopped ∧ sig = sigkill := by
  cases ht : s.tasks p with
  | none => simp [deliverSignalToProcess, own, ht]
  | some t =>
    simp only [deliverSignalToProcess, ht]
    split
    next hstop =>
      have hne : sigcont ≠ sigkill := by decide
      rw [own_deliverSignalTo hsig, ht]
      refine or_congr_right ⟨fun ⟨u, hu, h⟩ => ⟨u, hu, ?_⟩, fun ⟨u, hu, h⟩ => ⟨u, hu, ?_⟩⟩
      · obtain rfl := some.inj hu
        exact ⟨hstop.1, hstop.2.resolve_left fun hc => h ⟨hstop.1, hc⟩⟩
      · exact fun hc => hne (hc.2.symm.trans h.2)
    next hstop =>
      simp only [own, ht, setTask_tasks_self, recalcSigpending, any_some]
      refine (or_iff_left ?_).symm
      rintro ⟨u, hu, h⟩
      obtain rfl := some.inj hu
      exact hstop ⟨h.1, .inr h.2⟩

/-- Otherwise it goes to the set that the leader shares. -/
lemma shared_deliverSignalToProcess (hsig : sig - 1 < 64) (x : ℕ) :
    has ((s.deliverSignalToProcess p sig).shared x) sig = true ↔ has (s.shared x) sig = true ∨
      ∃ t ∈ s.tasks p, t.signal = x ∧ ¬ (t.state = .stopped ∧ (sig = sigcont ∨ sig = sigkill)) := by
  cases ht : s.tasks p with
  | none => simp [deliverSignalToProcess, ht]
  | some t =>
    simp only [deliverSignalToProcess, ht]
    split
    next hstop =>
      rw [shared_deliverSignalTo]
      refine (or_iff_left ?_).symm
      rintro ⟨u, hu, -, h⟩
      exact h (some.inj hu ▸ hstop)
    next hstop =>
      rw [setTask_shared, setShared_shared]
      split
      next hx => exact iff_of_true (has_or_sigmask _ hsig) (.inr ⟨t, rfl, hx.symm, hstop⟩)
      next hx =>
        refine (or_iff_left ?_).symm
        rintro ⟨u, hu, hux, -⟩
        exact hx (some.inj hu ▸ hux.symm)

end State

/-! ### The two sweeps -/

section Sweeps

variable {s : State} {sig : ℕ} {pgid : ℤ} {sender : Task} {me : ℕ} {initPid : ℤ}

lemma pgsignalVisit_frame (s : State) (p q : ℕ) (h : p ≠ q) :
    (pgsignalVisit pgid sig s p).tasks q = s.tasks q := by
  unfold pgsignalVisit
  split
  · rfl
  · split
    · exact State.tasks_deliverSignalTo_of_ne h.symm
    · rfl

lemma killAllVisit_frame (s : State) (p q : ℕ) (h : p ≠ q) :
    (killAllVisit sender me initPid sig s p).tasks q = s.tasks q := by
  unfold killAllVisit
  split
  · rfl
  · split
    · exact State.tasks_deliverSignalToProcess_of_ne h.symm
    · rfl

lemma own_sweep {visit : State → ℕ → State}
    (hframe : ∀ s p q, p ≠ q → (visit s p).tasks q = s.tasks q) {Q : ℕ → Option Task → Prop}
    (hvisit : ∀ s p, (visit s p).own p sig = true ↔ s.own p sig = true ∨ Q p (s.tasks p)) (p : ℕ) :
    ((range maxProc).foldl visit s).own p sig = true ↔
      s.own p sig = true ∨ p < maxProc ∧ Q p (s.tasks p) := by
  by_cases hp : p < maxProc
  · obtain ⟨s', hs', hend⟩ := entry_foldl_of_mem visit State.tasks hframe (range maxProc)
      nodup_range s p (mem_range.2 hp)
    have hown : ((range maxProc).foldl visit s).own p sig = (visit s' p).own p sig := by
      simp only [State.own, hend]
    have hown' : s'.own p sig = s.own p sig := by simp only [State.own, hs']
    rw [hown, hvisit, hown', hs']
    exact or_congr_right (and_iff_right hp).symm
  · have hend := entry_foldl_of_not_mem visit State.tasks hframe (range maxProc) s p
      fun h => hp (mem_range.1 h)
    have hown : ((range maxProc).foldl visit s).own p sig = s.own p sig := by
      simp only [State.own, hend]
    rw [hown]
    exact (or_iff_left fun h => hp h.1).symm

lemma pgsignal_fst :
    (pgsignal s pgid sig).1 = (range maxProc).foldl (pgsignalVisit pgid sig) s := by
  rw [pgsignal]

lemma killAll_fst : (killAll s sender me initPid sig).1 =
    (range maxProc).foldl (killAllVisit sender me initPid sig) s := by
  rw [killAll]

lemma own_pgsignal (hsig : sig - 1 < 64) (h0 : sig ≠ 0) (p : ℕ) :
    (pgsignal s pgid sig).1.own p sig = true ↔ s.own p sig = true ∨ p < maxProc ∧
      ∃ t ∈ s.tasks p, t.inGroup p pgid = true ∧ ¬ (t.state = .stopped ∧ sig = sigcont) := by
  rw [pgsignal_fst]
  refine own_sweep pgsignalVisit_frame (Q := fun p o => ∃ t ∈ o, t.inGroup p pgid = true ∧
    ¬ (t.state = .stopped ∧ sig = sigcont)) (fun s p => ?_) p
  cases ht : s.tasks p with
  | none => simp [pgsignalVisit, ht]
  | some t =>
    by_cases hg : t.inGroup p pgid = true
    · simp only [pgsignalVisit, ht, if_pos (And.intro hg h0)]
      rw [State.own_deliverSignalTo hsig, ht]
      simp [hg]
    · simp only [pgsignalVisit, ht, if_neg fun h => hg (And.left h)]
      simp [hg]

lemma shared_pgsignal (x : ℕ) :
    has ((pgsignal s pgid sig).1.shared x) sig = has (s.shared x) sig := by
  have hsweep : ∀ (l : List ℕ) (s : State),
      has ((l.foldl (pgsignalVisit pgid sig) s).shared x) sig = has (s.shared x) sig := by
    intro l
    induction l with
    | nil => exact fun s => rfl
    | cons p l ih =>
      intro s
      rw [foldl_cons, ih]
      unfold pgsignalVisit
      split
      · rfl
      · split
        · exact State.shared_deliverSignalTo x
        · rfl
  rw [pgsignal_fst]
  exact hsweep _ s

lemma own_killAll (hsig : sig - 1 < 64) (h0 : sig ≠ 0) (p : ℕ) :
    (killAll s sender me initPid sig).1.own p sig = true ↔ s.own p sig = true ∨ p < maxProc ∧
      ∃ t ∈ s.tasks p, t.sendable p sender me initPid = true ∧ t.state = .stopped ∧
        sig = sigkill := by
  rw [killAll_fst]
  refine own_sweep killAllVisit_frame (Q := fun p o => ∃ t ∈ o,
    t.sendable p sender me initPid = true ∧ t.state = .stopped ∧ sig = sigkill) (fun s p => ?_) p
  cases ht : s.tasks p with
  | none => simp [killAllVisit, ht]
  | some t =>
    by_cases hg : t.sendable p sender me initPid = true
    · simp only [killAllVisit, ht, if_pos (And.intro hg h0)]
      rw [State.own_deliverSignalToProcess hsig, ht]
      simp [hg]
    · simp only [killAllVisit, ht, if_neg fun h => hg (And.left h)]
      simp [hg]

lemma shared_killAll (hsig : sig - 1 < 64) (h0 : sig ≠ 0) (x : ℕ) :
    has ((killAll s sender me initPid sig).1.shared x) sig = true ↔ has (s.shared x) sig = true ∨
      ∃ p < maxProc, ∃ t ∈ s.tasks p, t.sendable p sender me initPid = true ∧ t.signal = x ∧
        ¬ (t.state = .stopped ∧ (sig = sigcont ∨ sig = sigkill)) := by
  have hsweep := foldl_iff_exists (killAllVisit sender me initPid sig) State.tasks
    killAllVisit_frame (P := fun s => has (s.shared x) sig = true)
    (Q := fun p o => ∃ t ∈ o, t.sendable p sender me initPid = true ∧ t.signal = x ∧
      ¬ (t.state = .stopped ∧ (sig = sigcont ∨ sig = sigkill))) (fun s p => ?_)
    (range maxProc) nodup_range s
  · rw [killAll_fst]
    simpa only [mem_range] using hsweep
  · cases ht : s.tasks p with
    | none => simp [killAllVisit, ht]
    | some t =>
      by_cases hg : t.sendable p sender me initPid = true
      · simp only [killAllVisit, ht, if_pos (And.intro hg h0)]
        rw [State.shared_deliverSignalToProcess hsig, ht]
        simp [hg]
      · simp only [killAllVisit, ht, if_neg fun h => hg (And.left h)]
        simp [hg]

end Sweeps

end XosKernel.Kill
