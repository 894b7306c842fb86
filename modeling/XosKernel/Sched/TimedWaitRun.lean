/-
# When timed waits are armed correctly

Every caller writes `wait_deadline` without the lock and inserts itself afterwards, so that
between the two the deadline is set and the task is on no queue: the property holds along a run
exactly when no wait is armed. If nothing wakes a task between its write of `BLOCKED` and the
insertion, that gap is the only thing that is wrong: no `ASSERT` fails, no task is inserted
twice, and a task that has returned is on no queue.
-/
import XosKernel.Sched.TimedWait

namespace XosKernel.TimedWait

open List Option Function Sys

variable {s s' : Sys} {t : ℕ}

/-! ## The property -/

/-- The deadline is set exactly while the task is on a timer queue, where it is once and on that
of its CPU; no `ASSERT` has failed; a task that is not in a call is on no queue. -/
structure Sys.TimedOk (s : Sys) : Prop where
  armed : ∀ t, (s.task t).waitDeadline ≠ 0 ↔ s.queued t
  once : ∀ c, (s.timerQueue c).Nodup
  own : ∀ c, ∀ t ∈ s.timerQueue c, (s.task t).cpu = c
  asserted : s.asserted = false
  out : ∀ t, (s.task t).phase = .out → ¬ s.queued t

def Phase.isArmed : Phase → Bool
  | .armed _ => true
  | _ => false

/-- The same with the gap between the write of the deadline and the insertion left out. -/
structure Sys.ArmedOk (s : Sys) : Prop where
  armed : ∀ t, (s.task t).phase.isArmed = false → ((s.task t).waitDeadline ≠ 0 ↔ s.queued t)
  gap : ∀ t, (s.task t).phase.isArmed = true → (s.task t).waitDeadline ≠ 0 ∧ ¬ s.queued t
  once : ∀ c, (s.timerQueue c).Nodup
  own : ∀ c, ∀ t ∈ s.timerQueue c, (s.task t).cpu = c
  asserted : s.asserted = false
  out : ∀ t, (s.task t).phase = .out → ¬ s.queued t

/-- The call waits until a deadline: `recvmsg` always does; poll if nothing is ready before its
deadline; epoll likewise, for its own deadline or that of the alarm. -/
def Call.arms (call : Call) (ready : Bool) (now alarm : ℕ) : Prop :=
  match call.kind with
  | .unixSockRecvmsg | .unixDgramRecvmsg | .netlinkSockRecvmsg => True
  | .doSysPoll => ready = false ∧ now < call.deadline
  | .sysEpollWait => ready = false ∧ call.timeoutMs ≠ 0 ∧ now < call.effectiveDeadline alarm

instance (call : Call) (ready : Bool) (now alarm : ℕ) : Decidable (call.arms ready now alarm) := by
  unfold Call.arms
  split <;> infer_instance

def Unarmed (s : Sys) : Act → Prop
  | .arm t ready now alarm =>
    match (s.task t).phase with
    | .prepared call => ¬ call.arms ready now alarm
    | _ => True
  | _ => True

/-- A task that arms its wait is still `BLOCKED` then, and it is not woken before it is on the
queue. -/
def Undisturbed (s : Sys) : Act → Prop
  | .arm t ready now alarm =>
    match (s.task t).phase with
    | .prepared call => call.arms ready now alarm → (s.task t).state = .blocked
    | _ => True
  | .wake t => (s.task t).phase.isArmed = false
  | _ => True

instance (s : Sys) (a : Act) : Decidable (Unarmed s a) := by
  unfold Unarmed
  split
  · split <;> infer_instance
  · infer_instance

instance (s : Sys) (a : Act) : Decidable (Undisturbed s a) := by
  unfold Undisturbed
  split
  · split <;> infer_instance
  · infer_instance
  · infer_instance

/-! ## Reading back an update -/

section Updates

variable {x : Task} {u c d : ℕ} {q : List ℕ}

@[simp] lemma setTask_self : (s.setTask t x).task t = x := update_self ..

lemma setTask_of_ne (h : u ≠ t) : (s.setTask t x).task u = s.task u := update_of_ne h ..

@[simp] lemma setQueue_self : (s.setQueue c q).timerQueue c = q := update_self ..

end Updates

/-! ## The invariant -/

/-- What is known of a task from where it is. -/
def Sys.TaskOk (s : Sys) (t : ℕ) : Prop :=
  match (s.task t).phase with
  | .armed _ => (s.task t).waitDeadline ≠ 0 ∧ ¬ s.queued t ∧ (s.task t).state = .blocked
  | .waiting _ | .asleep _ =>
    ((s.task t).waitDeadline ≠ 0 ↔ s.queued t) ∧ (s.queued t → (s.task t).state = .blocked)
  | .out | .top _ | .prepared _ | .woken _ | .leaving =>
    (s.task t).waitDeadline = 0 ∧ ¬ s.queued t

structure Inv (s : Sys) : Prop where
  once : ∀ c, (s.timerQueue c).Nodup
  own : ∀ c, ∀ t ∈ s.timerQueue c, (s.task t).cpu = c
  asserted : s.asserted = false
  task : ∀ t, s.TaskOk t

lemma Inv.init (cpu : ℕ → ℕ) : Inv (Sys.init cpu) where
  once _ := nodup_nil
  own _ _ ht := absurd ht not_mem_nil
  asserted := rfl
  task _ := ⟨rfl, not_mem_nil⟩

lemma Inv.armedOk (h : Inv s) : s.ArmedOk where
  __ := h
  armed t hph := by
    have ht := h.task t
    rw [Sys.TaskOk] at ht
    split at ht
    · next hph' => exact absurd (hph' ▸ hph) (by simp [Phase.isArmed])
    · exact ht.1
    · exact ht.1
    all_goals exact ⟨fun hd => absurd ht.1 hd, fun hq => absurd hq ht.2⟩
  gap t hph := by
    have ht := h.task t
    rw [Sys.TaskOk] at ht
    split at ht
    · exact ⟨ht.1, ht.2.1⟩
    all_goals
      next hph' => exact absurd (hph' ▸ hph) (by simp [Phase.isArmed])
  out t hph := by
    have ht := h.task t
    rw [Sys.TaskOk, hph] at ht
    exact ht.2

lemma Inv.update (h : Inv s) {x : Task} {q : List ℕ} (hx : x.cpu = (s.task t).cpu)
    (hmem : ∀ u, u ≠ t → (u ∈ q ↔ u ∈ s.timerQueue (s.task t).cpu)) (hq : q.Nodup)
    (hasserted : s'.asserted = false) (htask : s'.task = update s.task t x)
    (hqueue : s'.timerQueue = update s.timerQueue (s.task t).cpu q)
    (hok : s'.TaskOk t) : Inv s' := by
  have hcpu : ∀ u, (s'.task u).cpu = (s.task u).cpu := fun u => by
    by_cases hu : u = t
    · subst hu
      rw [htask, update_self, hx]
    · rw [htask, update_of_ne hu]
  have hother : ∀ u c, u ≠ t → (u ∈ s'.timerQueue c ↔ u ∈ s.timerQueue c) := fun u c hu => by
    by_cases hc : c = (s.task t).cpu
    · subst hc
      rw [hqueue, update_self, hmem u hu]
    · rw [hqueue, update_of_ne hc]
  refine ⟨fun c => ?_, fun c u hu => ?_, hasserted, fun u => ?_⟩
  · by_cases hc : c = (s.task t).cpu
    · subst hc
      rw [hqueue, update_self]
      exact hq
    · rw [hqueue, update_of_ne hc]
      exact h.once c
  · rw [hcpu]
    by_cases hut : u = t
    · subst hut
      by_contra hc
      rw [hqueue, update_of_ne (Ne.symm hc)] at hu
      exact hc (h.own c u hu)
    · exact h.own c u ((hother u c hut).1 hu)
  · by_cases hu : u = t
    · subst hu
      exact hok
    · have hsame : s'.task u = s.task u := by rw [htask, update_of_ne hu]
      have hold := h.task u
      simp only [Sys.TaskOk, queued, hsame, hother u _ hu] at hold ⊢
      exact hold

lemma Inv.setTask (h : Inv s) {x : Task} (hx : x.cpu = (s.task t).cpu)
    (hok : (s.setTask t x).TaskOk t) : Inv (s.setTask t x) :=
  h.update hx (fun _ _ => Iff.rfl) (h.once _) h.asserted rfl (update_eq_self ..).symm hok

/-- The task has no deadline here. -/
def Phase.isIdle : Phase → Bool
  | .armed _ | .waiting _ | .asleep _ => false
  | .out | .top _ | .prepared _ | .woken _ | .leaving => true

lemma taskOk_of_isIdle (hph : (s.task t).phase.isIdle = true) :
    s.TaskOk t ↔ (s.task t).waitDeadline = 0 ∧ ¬ s.queued t := by
  rw [Sys.TaskOk]
  cases hp : (s.task t).phase <;>
    first | exact Iff.rfl | exact absurd (hp ▸ hph) (by simp [Phase.isIdle])

lemma taskOk_of_zero (hd : (s.task t).waitDeadline = 0) (hq : ¬ s.queued t)
    (hph : (s.task t).phase.isArmed = false) : s.TaskOk t := by
  rw [Sys.TaskOk]
  split
  · next hp => exact absurd (hp ▸ hph) (by simp [Phase.isArmed])
  · exact ⟨⟨fun hne => absurd hd hne, fun hm => absurd hm hq⟩, fun hm => absurd hm hq⟩
  · exact ⟨⟨fun hne => absurd hd hne, fun hm => absurd hm hq⟩, fun hm => absurd hm hq⟩
  all_goals exact ⟨hd, hq⟩

lemma Inv.move (h : Inv s) {x : Task} (hq : ¬ s.queued t) (hx : x.cpu = (s.task t).cpu)
    (hxd : x.waitDeadline = 0) (hph : x.phase.isArmed = false) : Inv (s.setTask t x) := by
  refine h.setTask hx (taskOk_of_zero ?_ ?_ ?_)
  · rw [setTask_self]
    exact hxd
  · rw [queued, setTask_self, hx]
    exact hq
  · rw [setTask_self]
    exact hph

lemma Inv.idle (h : Inv s) (hph : (s.task t).phase.isIdle = true) :
    (s.task t).waitDeadline = 0 ∧ ¬ s.queued t :=
  (taskOk_of_isIdle hph).1 (h.task t)

lemma taskOk_waiting {call : Call}
    (hph : (s.task t).phase = .waiting call ∨ (s.task t).phase = .asleep call) :
    s.TaskOk t ↔ ((s.task t).waitDeadline ≠ 0 ↔ s.queued t) ∧
      (s.queued t → (s.task t).state = .blocked) := by
  rw [Sys.TaskOk]
  rcases hph with hph | hph <;> rw [hph]

/-! ## Steps of the callers -/

variable {now : ℕ} {ready : Bool} {a : Act}

section

variable (h : Inv s)
include h

lemma Inv.enter {kind : Kind} {timeoutMs : ℤ}
    (hs : s.enter t kind timeoutMs now = some s') : Inv s' := by
  obtain ⟨⟨hph, -⟩, hs⟩ := ite_none_right_eq_some.1 hs
  obtain ⟨hd, hq⟩ := h.idle (t := t) (by rw [hph]; rfl)
  exact some.inj hs ▸ h.move hq rfl hd rfl

lemma Inv.prepare (hs : s.prepare t ready = some s') : Inv s' := by
  rw [Sys.prepare] at hs
  split at hs
  · next call hph =>
    obtain ⟨hd, hq⟩ := h.idle (t := t) (by rw [hph]; rfl)
    split at hs <;> first
      | exact some.inj hs ▸ h.move hq rfl hd rfl
      | split_ifs at hs <;> exact some.inj hs ▸ h.move hq rfl hd rfl
  · cases hs

omit h in
/-- What the write of the deadline, or of none, leaves. -/
lemma arm_cases {alarm : ℕ} (hs : s.arm t ready now alarm = some s') :
    ∃ call, (s.task t).phase = .prepared call ∧
      ((call.arms ready now alarm ∧ ∃ d, d ≠ 0 ∧
          s' = s.setTask t { s.task t with waitDeadline := d, phase := .armed call }) ∨
        (¬ call.arms ready now alarm ∧ (s' = s.setPhase t .leaving ∨
          s' = s.setTask t { s.task t with waitDeadline := 0, phase := .waiting call }))) := by
  rw [arm] at hs
  split at hs
  · next call hph =>
    obtain ⟨hnow, hs⟩ := ite_none_right_eq_some.1 hs
    refine ⟨call, hph, ?_⟩
    have hrecv : u64 (now + recvTimeout) ≠ 0 := by
      unfold u64 recvTimeout
      unfold clockLimit at hnow
      omega
    cases hkind : call.kind with
    | unixSockRecvmsg | unixDgramRecvmsg | netlinkSockRecvmsg =>
      simp only [hkind] at hs
      refine .inl ⟨?_, _, hrecv, (some.inj hs).symm⟩
      rw [Call.arms, hkind]
      trivial
    | doSysPoll =>
      simp only [hkind] at hs
      simp only [Call.arms, hkind]
      split_ifs at hs with hready hd hle
      · exact .inr ⟨fun h => absurd h.1 (by simp [hready]), .inl (some.inj hs).symm⟩
      · exact .inr ⟨fun h => absurd h.2 (not_lt.2 hle), .inl (some.inj hs).symm⟩
      · exact .inl ⟨⟨by simpa using hready, not_le.1 hle⟩, _, hd.ne', (some.inj hs).symm⟩
      · exact .inr ⟨fun h => absurd (lt_of_le_of_lt (Nat.zero_le _) h.2) hd,
          .inr (some.inj hs).symm⟩
    | sysEpollWait =>
      simp only [hkind] at hs
      simp only [Call.arms, hkind]
      split_ifs at hs with hready hd hle
      · refine .inr ⟨fun h => ?_, .inl (some.inj hs).symm⟩
        rcases hready with hready | hzero
        · exact absurd h.1 (by simp [hready])
        · exact h.2.1 hzero
      · exact .inr ⟨fun h => absurd h.2.2 (not_lt.2 hle), .inl (some.inj hs).symm⟩
      · rw [not_or] at hready
        exact .inl ⟨⟨by simpa using hready.1, hready.2, not_le.1 hle⟩, _, hd.ne',
          (some.inj hs).symm⟩
      · exact .inr ⟨fun h => absurd (lt_of_le_of_lt (Nat.zero_le _) h.2.2) hd,
          .inr (some.inj hs).symm⟩
  · cases hs

lemma Inv.arm {alarm : ℕ}
    (hC : Undisturbed s (.arm t ready now alarm)) (hs : s.arm t ready now alarm = some s') :
    Inv s' := by
  obtain ⟨call, hph, hcases⟩ := arm_cases hs
  obtain ⟨hd, hq⟩ := h.idle (t := t) (by rw [hph]; rfl)
  rcases hcases with ⟨harms, d, hd0, rfl⟩ | ⟨-, rfl | rfl⟩
  · have hblocked : (s.task t).state = .blocked := by
      simp only [Undisturbed, hph] at hC
      exact hC harms
    refine h.setTask rfl ?_
    rw [Sys.TaskOk, setTask_self]
    refine ⟨hd0, ?_, hblocked⟩
    rw [queued, setTask_self]
    exact hq
  · exact h.move hq rfl hd rfl
  · exact h.move hq rfl rfl rfl

omit h in
lemma insert_perm (s : Sys) (t : ℕ) :
    ((s.schedTimerQueueInsert t).timerQueue (s.task t).cpu).Perm
      (t :: s.timerQueue (s.task t).cpu) := by
  rw [schedTimerQueueInsert, setQueue_self]
  refine perm_middle.trans (List.Perm.cons t ?_)
  rw [takeWhile_append_dropWhile]

lemma Inv.insert (hs : s.insert t = some s') : Inv s' := by
  rw [Sys.insert] at hs
  split at hs
  · next call hph =>
    have hok := h.task t
    rw [Sys.TaskOk, hph] at hok
    obtain ⟨hd, hq, hblocked⟩ := hok
    have hperm := insert_perm s t
    obtain rfl := some.inj hs
    refine h.update (x := { s.task t with phase := .waiting call }) rfl (fun u hu => ?_)
      (hperm.nodup_iff.2 (nodup_cons.2 ⟨hq, h.once _⟩)) h.asserted rfl ?_ ?_
    · rw [hperm.mem_iff, mem_cons, or_iff_right hu]
    · rw [schedTimerQueueInsert, setQueue_self]
      rfl
    · refine (taskOk_waiting (.inl (by rw [setPhase, setTask_self]))).2 ?_
      have hmem : t ∈ (s.schedTimerQueueInsert t).timerQueue (s.task t).cpu :=
        hperm.mem_iff.2 (mem_cons_self ..)
      rw [queued, setPhase, setTask_self]
      exact ⟨⟨fun _ => hmem, fun _ => hd⟩, fun _ => hblocked⟩
  · exact nomatch hs

lemma Inv.schedule (hs : s.schedule t = some s') : Inv s' := by
  rw [Sys.schedule] at hs
  split at hs
  · next call hph =>
    obtain ⟨hd, hblocked⟩ := (taskOk_waiting (.inl hph)).1 (h.task t)
    refine some.inj hs ▸ h.setTask rfl ((taskOk_waiting (.inr (by rw [setTask_self]))).2 ?_)
    rw [queued, setTask_self]
    exact ⟨hd, hblocked⟩
  · exact nomatch hs

lemma Inv.resume (hs : s.resume t = some s') : Inv s' := by
  rw [Sys.resume] at hs
  split at hs
  · next call hph =>
    obtain ⟨hrun, hs⟩ := ite_none_left_eq_some.1 hs
    obtain ⟨hd, hblocked⟩ := (taskOk_waiting (.inr hph)).1 (h.task t)
    have hq : ¬ s.queued t := fun hq => hrun (hblocked hq)
    exact some.inj hs ▸ h.move hq rfl (not_not.1 fun hne => hq (hd.1 hne)) rfl
  · exact nomatch hs

lemma Inv.settle {signal : Bool} (hs : s.settle t signal = some s') : Inv s' := by
  rw [Sys.settle] at hs
  split at hs
  · next call hph =>
    obtain ⟨hd, hq⟩ := h.idle (t := t) (by rw [hph]; rfl)
    split_ifs at hs <;> exact some.inj hs ▸ h.move hq rfl hd rfl
  · exact nomatch hs

lemma Inv.leave (hs : s.leave t = some s') : Inv s' := by
  rw [Sys.leave] at hs
  split at hs
  · next hph =>
    obtain ⟨hd, hq⟩ := h.idle (t := t) (by rw [hph]; rfl)
    have heq : (s.schedCancelSpuriousWake t).setPhase t .out =
        s.setTask t { s.task t with state := .running, waitTimedOut := false, phase := .out } := by
      simp only [Sys.schedCancelSpuriousWake, Sys.setPhase, Sys.setTask, update_self, update_idem]
    rw [heq] at hs
    exact some.inj hs ▸ h.move hq rfl hd rfl
  · exact nomatch hs

/-! ## Wake-ups and timers -/

/-- A task with a deadline is on the queue, so taking it off is safe; it has no deadline then. -/
lemma Inv.takeOff (hq : s.queued t) {x : Task} (hx : x.cpu = (s.task t).cpu)
    (hd : x.waitDeadline = 0) (hph : x.phase = (s.task t).phase) :
    Inv ((s.timerQueueWaitPop t).setTask t x) := by
  have hnot : t ∉ (s.timerQueue (s.task t).cpu).erase t := (h.once _).not_mem_erase
  refine h.update hx (fun u hu => mem_erase_of_ne hu) ((h.once _).erase t) ?_ rfl rfl ?_
  · change (s.asserted || !decide (s.queued t)) = false
    rw [h.asserted, decide_eq_true hq]
    rfl
  · have hqueued : ¬ ((s.timerQueueWaitPop t).setTask t x).queued t := by
      rw [queued, setTask_self, hx]
      change t ∉ (s.setQueue (s.task t).cpu _).timerQueue (s.task t).cpu
      rw [setQueue_self]
      exact hnot
    refine taskOk_of_zero ?_ hqueued ?_
    · rw [setTask_self]
      exact hd
    · rw [setTask_self, hph]
      by_contra harmed
      exact (h.armedOk.gap t (by simpa using harmed)).2 hq

lemma Inv.wake (hC : (s.task t).phase.isArmed = false) : Inv (s.wakeWqTarget t) := by
  rw [wakeWqTarget]
  split
  · rw [wakeFromWait, schedTimerQueueCancel]
    have hiff := h.armedOk.armed t hC
    split
    next hd =>
      have hoff := h.takeOff (hiff.1 hd) (x := { s.task t with
        waitDeadline := 0, state := .ready, waitTimedOut := false }) rfl rfl rfl
      simpa only [Sys.setTask, update_self, update_idem, Sys.timerQueueWaitPop,
        Sys.setQueue] using hoff
    next hd =>
      have hq : ¬ s.queued t := fun hq => hd (hiff.2 hq)
      exact h.move hq rfl (not_not.1 hd) hC
  · exact h

lemma Inv.blocked_of_queued (hq : s.queued t) : (s.task t).state = .blocked := by
  have hok := h.task t
  rw [Sys.TaskOk] at hok
  split at hok
  · exact hok.2.2
  · exact hok.2 hq
  · exact hok.2 hq
  all_goals exact absurd hq hok.2

lemma Inv.expireOne (hq : s.queued t) : Inv (s.expireOne t) ∧
    (s.expireOne t).timerQueue (s.task t).cpu = (s.timerQueue (s.task t).cpu).erase t := by
  have hb := h.blocked_of_queued hq
  have heq : s.expireOne t = (s.timerQueueWaitPop t).setTask t { s.task t with
      state := .ready, waitTimedOut := true, waitDeadline := 0 } := by
    exact if_pos hb
  rw [heq]
  exact ⟨h.takeOff hq rfl rfl rfl, setQueue_self⟩

omit h in
lemma Inv.expire {c : ℕ} (l : List ℕ) (h : Inv s) (hl : s.timerQueue c = l) :
    Inv (s.expire now l) := by
  fun_induction Sys.expire s now l with
  | case1 => exact h
  | case2 => exact h
  | case3 s t rest _ ih =>
    have hc : (s.task t).cpu = c := h.own c t (hl ▸ mem_cons_self ..)
    have hq : s.queued t := by
      rw [queued, hc, hl]
      exact mem_cons_self ..
    obtain ⟨hI, hqueue⟩ := h.expireOne hq
    refine ih hI ?_
    rw [← hc, hqueue, hc, hl, erase_cons_head]

theorem Inv.step (hC : Undisturbed s a) (hs : step s a = some s') :
    Inv s' := by
  cases a with
  | wake t => exact some.inj hs ▸ h.wake hC
  | timer c now => exact some.inj hs ▸ h.expire _ rfl
  | enter t kind timeoutMs now => exact h.enter hs
  | prepare t ready => exact h.prepare hs
  | arm t ready now alarm => exact h.arm hC hs
  | insert t => exact h.insert hs
  | schedule t => exact h.schedule hs
  | resume t => exact h.resume hs
  | settle t signal => exact h.settle hs
  | leave t => exact h.leave hs

end

/-! ## Runs in which no wait is armed -/

structure Quiet (s : Sys) : Prop extends Inv s where
  zero : ∀ t, (s.task t).waitDeadline = 0

lemma Quiet.not_armed (h : Quiet s) (t : ℕ) : (s.task t).phase.isArmed = false := by
  by_contra hph
  exact (h.toInv.armedOk.gap t (by simpa using hph)).1 (h.zero t)

lemma Quiet.timedOk (h : Quiet s) : s.TimedOk where
  __ := h
  armed t := h.toInv.armedOk.armed t (h.not_armed t)
  out := h.toInv.armedOk.out

lemma setTask_zero {x : Task} (h : ∀ u, (s.task u).waitDeadline = 0) (hx : x.waitDeadline = 0) :
    ∀ u, ((s.setTask t x).task u).waitDeadline = 0 := by
  intro u
  by_cases hu : u = t
  · subst hu
    rw [setTask_self]
    exact hx
  · rw [setTask_of_ne hu]
    exact h u

lemma expire_zero (l : List ℕ) (h : ∀ u, (s.task u).waitDeadline = 0) :
    ∀ u, ((s.expire now l).task u).waitDeadline = 0 := by
  fun_induction Sys.expire s now l with
  | case1 => exact h
  | case2 => exact h
  | case3 s t rest _ ih =>
    refine ih fun u => ?_
    rw [expireOne]
    split_ifs
    · exact setTask_zero (s := s.timerQueueWaitPop t) h rfl u
    · exact h u

/-- A step that does not arm a wait leaves no deadline where there was none. -/
lemma step_zero (hC : Unarmed s a) (hs : step s a = some s')
    (h : ∀ u, (s.task u).waitDeadline = 0) : ∀ u, (s'.task u).waitDeadline = 0 := by
  cases a with
  | wake t =>
    obtain rfl := some.inj hs
    rw [wakeWqTarget]
    split_ifs
    · rw [wakeFromWait, schedTimerQueueCancel, if_neg (not_not.2 (h t))]
      exact setTask_zero h (h t)
    · exact h
  | timer c now => exact some.inj hs ▸ expire_zero _ h
  | enter t kind timeoutMs now =>
    obtain ⟨-, rfl⟩ := of_guard hs
    exact setTask_zero h (h t)
  | prepare t ready =>
    simp only [step, prepare] at hs
    split at hs
    · split at hs <;> first
        | exact some.inj hs ▸ setTask_zero h (h t)
        | split_ifs at hs <;> exact some.inj hs ▸ setTask_zero h (h t)
    · cases hs
  | arm t ready now alarm =>
    obtain ⟨call, hph, hcases⟩ := arm_cases hs
    simp only [Unarmed, hph] at hC
    rcases hcases with ⟨harms, -⟩ | ⟨-, rfl | rfl⟩
    · exact absurd harms hC
    · exact setTask_zero h (h t)
    · exact setTask_zero h rfl
  | insert t =>
    simp only [step, Sys.insert] at hs
    split at hs
    · exact some.inj hs ▸ setTask_zero (s := s.schedTimerQueueInsert t) h (h t)
    · cases hs
  | schedule t =>
    simp only [step, schedule] at hs
    split at hs
    · exact some.inj hs ▸ setTask_zero h (h t)
    · cases hs
  | resume t =>
    simp only [step, resume] at hs
    split at hs
    · obtain ⟨-, hs⟩ := ite_none_left_eq_some.1 hs
      exact some.inj hs ▸ setTask_zero h (h t)
    · cases hs
  | settle t signal =>
    simp only [step, settle] at hs
    split at hs
    · split_ifs at hs <;> exact some.inj hs ▸ setTask_zero h (h t)
    · cases hs
  | leave t =>
    simp only [step, leave] at hs
    split at hs
    · refine some.inj hs ▸ setTask_zero (setTask_zero h (h t)) ?_
      rw [schedCancelSpuriousWake, setTask_self]
      exact h t
    · cases hs

lemma Quiet.step (h : Quiet s) (hC : Unarmed s a) (hs : step s a = some s') :
    Quiet s' := by
  refine ⟨h.toInv.step ?_ hs, step_zero hC hs h.zero⟩
  cases a with
  | wake t => exact h.not_armed t
  | arm t ready now alarm =>
    simp only [Unarmed] at hC
    simp only [Undisturbed]
    split
    · next call hph =>
      rw [hph] at hC
      exact fun harms => absurd harms hC
    · trivial
  | timer | enter | prepare | insert | schedule | resume | settle | leave => trivial

lemma Quiet.broken (h : Quiet s) (hC : ¬ Unarmed s a) (hs : TimedWait.step s a = some s') :
    ¬ s'.TimedOk := by
  cases a with
  | arm t ready now alarm =>
    obtain ⟨call, hph, hcases⟩ := arm_cases hs
    simp only [Unarmed, hph, not_not] at hC
    rcases hcases with ⟨-, d, hd, rfl⟩ | ⟨hnot, -⟩
    · intro hok
      have hq := (hok.armed t).1 (by rw [setTask_self]; exact hd)
      rw [queued, setTask_self] at hq
      exact (h.toInv.armedOk.armed t (h.not_armed t)).2 hq (h.zero t)
    · exact absurd hC hnot
  | wake | timer | enter | prepare | insert | schedule | resume | settle | leave =>
    exact absurd trivial hC

/-- The property holds in every state of a run exactly when no step of it arms a wait. In every
run in which a task that arms its wait is not woken before it is on the queue, all of it holds
except that the deadline is set before the task is on the queue. -/
theorem timed_waits_iff (cpu : ℕ → ℕ) (as : List Act)
    (hs : exec step (Sys.init cpu) as = some s) :
    (Meets step Unarmed (Sys.init cpu) as ↔
      ∀ bs u, bs <+: as → exec step (Sys.init cpu) bs = some u → u.TimedOk) ∧
    (Meets step Undisturbed (Sys.init cpu) as → s.ArmedOk) := by
  constructor
  · have hquiet : Quiet (init cpu) := ⟨Inv.init cpu, fun _ => rfl⟩
    exact meets_iff_of_exact (fun _ h => Quiet.timedOk h) (fun _ _ _ h hC hs => Quiet.step h hC hs)
      (fun _ _ _ h hC hs => Quiet.broken h hC hs) as _ _ hquiet hs
  · exact fun hC => (exec_invariant_of_meets (fun _ _ _ hI hC hs => Inv.step hI hC hs) as _ _
      (Inv.init cpu) hC hs).armedOk

/-- A poll with a timeout that is woken after it has gone to sleep, and an epoll without one. -/
def pollAndEpoll : List Act :=
  [.enter 0 .doSysPoll 5 100, .prepare 0 false, .arm 0 false 200 0, .insert 0, .schedule 0,
    .enter 1 .sysEpollWait (-1) 100, .prepare 1 false, .arm 1 false 200 0, .schedule 1, .wake 0,
    .resume 0, .settle 0 true, .leave 0]

theorem timed_waits_iff_poll :
    ∃ s, exec step (Sys.init fun _ => 0) pollAndEpoll = some s ∧ s.ArmedOk ∧
      ¬ ∀ bs u, bs <+: pollAndEpoll → exec step (Sys.init fun _ => 0) bs = some u →
        u.TimedOk := by
  refine exists_some_of (by decide +kernel) fun s hs => ?_
  obtain ⟨hiff, harmed⟩ := timed_waits_iff (fun _ => 0) pollAndEpoll hs
  refine ⟨harmed (by decide +kernel), fun hall => ?_⟩
  have hunarmed := hiff.2 hall
  revert hunarmed
  decide +kernel

/-- A message arrives between the write of the deadline and the insertion: the wake-up takes a
task off a queue it is not on, against the `ASSERT`, and the task then inserts itself and returns
while it is on the queue. -/
theorem woken_before_insert :
    ∃ s, exec step (Sys.init fun _ => 0)
        [.enter 0 .unixSockRecvmsg 0 100, .prepare 0 false, .arm 0 false 200 0, .wake 0, .insert 0,
          .schedule 0, .resume 0, .settle 0 false, .prepare 0 true] = some s ∧
      s.asserted = true ∧ (s.task 0).phase = .out ∧ s.queued 0 ∧ ¬ s.TimedOk := by
  obtain ⟨s, hs, hasserted, hph, hqueued⟩ : ∃ s, exec step (init fun _ => 0)
        [.enter 0 .unixSockRecvmsg 0 100, .prepare 0 false, .arm 0 false 200 0, .wake 0, .insert 0,
          .schedule 0, .resume 0, .settle 0 false, .prepare 0 true] = some s ∧
      s.asserted = true ∧ (s.task 0).phase = .out ∧ s.queued 0 := by
    decide +kernel
  exact ⟨s, hs, hasserted, hph, hqueued, fun hok => hok.out 0 hph hqueued⟩

end XosKernel.TimedWait
