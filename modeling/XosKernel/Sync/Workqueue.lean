/-
# Work queues

`queue_work_common`, `workqueue_thread`, `cancel_work_sync`, `flush_workqueue` and
`destroy_workqueue` (`kernel/xcore/workqueue.c`) with the completions they wait for
(`kernel/xcore/completion.c`).

One step is one section under `wq->lock` or under the lock of a completion; in between, any other
task may take its steps. The two completions of a work and of the queue are only ever completed for
all, so each of them is a flag. Both are completed after `wq->lock` has been given back. A waiter
looks at its flag again at any time; whether it has a signal pending then is an input.

Every work that is accepted gets a ticket, in order, so that a run accepted before a call is one
with a ticket that was given out when the call was made.
-/
import XosKernel.Lib.Run

namespace XosKernel.Workqueue

open List Option Function Finset Bool

inductive WorkState
  | idle
  | queued
  | running
  | canceling
deriving DecidableEq

/-- `struct work` and its deadline: `onQueue` says that `wq` is set, `finished` that its completion
is done, and `ticket` is the one of the run that was accepted last. -/
structure Work where
  state : WorkState
  onQueue : Bool
  finished : Bool
  deadline : ℕ
  ticket : ℕ
deriving DecidableEq

inductive WorkerPc
  /-- about to look for work -/
  | loop
  /-- in `work->func` -/
  | running (w : ℕ)
  /-- about to complete `work->finished`, and then `wq->idle` if so -/
  | finish (w : ℕ) (idle : Bool)
  /-- about to complete `wq->idle` -/
  | completeIdle
  | stopped
deriving DecidableEq

/-- Where another task is; `tk` is the last ticket that was given out when it made its call. -/
inductive Pc
  | out
  /-- `cancel_work_sync` has found `work->wq` set -/
  | cancelLock (w tk : ℕ)
  /-- has taken the work off the queue, is about to complete `work->finished`, and then `wq->idle`
  if so -/
  | cancelFinish (w tk : ℕ) (idle : Bool)
  /-- is about to complete `wq->idle` -/
  | cancelIdle (w tk : ℕ)
  /-- waits for `work->finished` -/
  | cancelWait (w tk : ℕ)
  /-- is about to return -/
  | cancelRet (w tk : ℕ)
  /-- in `flush_workqueue`, which `destroy_workqueue` has called if so -/
  | flushLock (tk : ℕ) (destroy : Bool)
  | flushWait (tk : ℕ) (destroy : Bool)
  | flushRet (tk : ℕ) (destroy : Bool)
deriving DecidableEq

/-- `struct workqueue`, with the works and the tasks that use it. -/
structure Sys where
  works : ℕ → Work
  ready : List ℕ
  delayed : List ℕ
  accepting : Bool
  pending : ℕ
  idle : Bool
  stop : Bool
  worker : WorkerPc
  tasks : List Pc
  ticket : ℕ

/-- `alloc_ordered_workqueue`, with works that `init_work` has made and `n` tasks. -/
def Sys.start (n : ℕ) : Sys :=
  { works := fun _ => ⟨.idle, false, false, 0, 0⟩
    ready := []
    delayed := []
    accepting := true
    pending := 0
    idle := true
    stop := false
    worker := .loop
    tasks := List.replicate n .out
    ticket := 0 }

def Sys.setWork (s : Sys) (w : ℕ) (x : Work) : Sys := { s with works := update s.works w x }

def Sys.setTask (s : Sys) (t : ℕ) (pc : Pc) : Sys := { s with tasks := s.tasks.set t pc }

def delayedInsert (deadline : ℕ → ℕ) (w : ℕ) : List ℕ → List ℕ
  | [] => [w]
  | other :: l =>
    if deadline w < deadline other then w :: other :: l else other :: delayedInsert deadline w l

/-- The lists after `w` has been queued. -/
def Sys.insert (s : Sys) (w : ℕ) (delayed : Bool) : Sys :=
  if delayed then { s with delayed := delayedInsert (fun v => (s.works v).deadline) w s.delayed }
  else { s with ready := s.ready ++ [w] }

def accept (s : Sys) (w : ℕ) (deadline : Option ℕ) : Sys :=
  Sys.insert
    { s with
      pending := s.pending + 1
      idle := if s.pending = 0 then false else s.idle
      ticket := s.ticket + 1
      works := update s.works w
        ⟨.queued, true, false, deadline.getD (s.works w).deadline, s.ticket + 1⟩ } w deadline.isSome

/-- `queue_work_common`. -/
def queueWork (s : Sys) (w : ℕ) (deadline : Option ℕ) : Sys :=
  if s.accepting ∧ (s.works w).state = .idle then accept s w deadline else s

/-- The section of `cancel_work_sync` under the lock, for a work that is queued. -/
def unqueue (s : Sys) (w : ℕ) : Sys :=
  { s with
    ready := s.ready.erase w
    delayed := s.delayed.erase w
    pending := s.pending - 1
    works := update s.works w { s.works w with state := .idle, onQueue := false } }

/-- The section of `cancel_work_sync` under the lock. -/
def cancelLock (s : Sys) (t w tk : ℕ) : Sys :=
  match (s.works w).state with
  | .queued => (unqueue s w).setTask t (.cancelFinish w tk (s.pending - 1 == 0))
  | .running => (s.setWork w { s.works w with state := .canceling }).setTask t (.cancelWait w tk)
  | .canceling => s.setTask t (.cancelWait w tk)
  | .idle => s.setTask t (.cancelRet w tk)

/-- The next step of a task in the call it is in; `signal` says whether a waiter has a signal
pending. -/
def advance (s : Sys) (t : ℕ) (signal : Bool) : Pc → Option Sys
  | .out => none
  | .cancelLock w tk => some (cancelLock s t w tk)
  | .cancelFinish w tk idle =>
    some ((s.setWork w { s.works w with finished := true }).setTask t
      (if idle then .cancelIdle w tk else .cancelRet w tk))
  | .cancelIdle w tk => some { s.setTask t (.cancelRet w tk) with idle := true }
  | .cancelWait w tk =>
    some (if (s.works w).finished ∨ signal then s.setTask t (.cancelRet w tk) else s)
  | .cancelRet _ _ => some (s.setTask t .out)
  | .flushLock tk destroy =>
    some (s.setTask t (if s.pending = 0 then .flushRet tk destroy else .flushWait tk destroy))
  | .flushWait tk destroy =>
    some (if s.idle ∨ signal then s.setTask t (.flushRet tk destroy) else s)
  | .flushRet _ destroy => some { s.setTask t .out with stop := s.stop || destroy }

def Sys.expired (s : Sys) (now : ℕ) : List ℕ := s.delayed.takeWhile fun w =>
    (s.works w).deadline ≤ now

/-- The delayed works that are due go to the end of the other list. -/
def Sys.expire (s : Sys) (now : ℕ) : Sys :=
  { s with
    ready := s.ready ++ s.expired now
    delayed := s.delayed.dropWhile fun w => (s.works w).deadline ≤ now }

/-- The worker takes the first work, or stops if it is to stop and there is none. -/
def take (s : Sys) : Sys :=
  match s.ready with
  | w :: ready =>
    { s.setWork w { s.works w with state := .running } with ready := ready, worker := .running w }
  | [] => if s.stop then { s with worker := .stopped } else s

/-- The section of the worker after `work->func`. -/
def workDone (s : Sys) (w : ℕ) : Sys :=
  { s with
    works := update s.works w { s.works w with state := .idle, onQueue := false }
    pending := s.pending - 1
    worker := .finish w (s.pending - 1 == 0) }

inductive Act
  /-- `queue_work`, or `queue_delayed_work` with the deadline -/
  | queue (w : ℕ) (deadline : Option ℕ)
  | cancel (t w : ℕ)
  | flush (t : ℕ)
  | destroy (t : ℕ)
  | advance (t : ℕ) (signal : Bool)
  /-- the worker looks for work, at some time -/
  | look (now : ℕ)
  /-- `work->func` returns -/
  | workDone
  /-- the worker completes `work->finished`, or `wq->idle` -/
  | complete
deriving DecidableEq

def step (s : Sys) : Act → Option Sys
  | .queue w deadline => some (queueWork s w deadline)
  | .cancel t w =>
    if s.tasks[t]? = some .out then
      some (s.setTask t (if (s.works w).onQueue then .cancelLock w s.ticket else .cancelRet w
        s.ticket))
    else none
  | .flush t =>
    if s.tasks[t]? = some .out then some (s.setTask t (.flushLock s.ticket false)) else none
  | .destroy t =>
    if s.tasks[t]? = some .out then some { s.setTask t (.flushLock s.ticket true) with accepting :=
      false } else none
  | .advance t signal => s.tasks[t]?.bind (advance s t signal)
  | .look now => if s.worker = .loop then some (take (s.expire now)) else none
  | .workDone =>
    match s.worker with
    | .running w => some (workDone s w)
    | _ => none
  | .complete =>
    match s.worker with
    | .finish w idle =>
      some { s.setWork w { s.works w with finished := true } with worker :=
        if idle then .completeIdle else .loop }
    | .completeIdle => some { s with idle := true, worker := .loop }
    | _ => none

/-! ## What callers rely on -/

def Past (s : Sys) (w tk : ℕ) : Prop := (s.works w).state ≠ .idle → tk < (s.works w).ticket

/-- When `cancel_work_sync` returns, no earlier run of the work is left; when `flush_workqueue`
returns, no earlier run of any work; and when the worker stops, nothing is pending. -/
def Fine (s : Sys) : Act → Prop
  | .advance t _ =>
    match s.tasks[t]? with
    | some (.cancelRet w tk) => Past s w tk
    | some (.flushRet tk _) => ∀ w, Past s w tk
    | _ => True
  | .look now => s.worker = .loop → (s.expire now).ready = [] → s.stop = true → s.pending = 0
  | _ => True

/-- A completion is still to come for an earlier run of `w`, or for the queue. -/
def WorkerPc.late (w : ℕ) : WorkerPc → Bool
  | .finish v idle => v == w || idle
  | .completeIdle => true
  | _ => false

def Pc.late (w : ℕ) : Pc → Bool
  | .cancelFinish v _ idle => v == w || idle
  | .cancelIdle _ _ => true
  | _ => false

/-- No waiter is interrupted, and no work is accepted while a completion for an earlier run of it,
or for the queue, is still to come. -/
def Calm (s : Sys) : Act → Prop
  | .queue w _ => s.accepting = true → (s.works w).state = .idle →
      s.worker.late w = false ∧ ∀ pc ∈ s.tasks, pc.late w = false
  | .advance t signal =>
    match s.tasks[t]? with
    | some (.cancelWait w _) => signal = true → (s.works w).finished = true
    | some (.flushWait _ _) => signal = true → s.idle = true
    | _ => True
  | _ => True

instance (s : Sys) (a : Act) : Decidable (Calm s a) := by
  unfold Calm
  split
  · infer_instance
  · split <;> infer_instance
  · infer_instance

/-! ## The invariant -/

def WorkState.busy (x : WorkState) : Prop := x = .running ∨ x = .canceling

lemma WorkState.busy.ne_idle {x : WorkState} (h : x.busy) : x ≠ .idle := by
  rcases h with rfl | rfl <;> exact fun h => nomatch h

def WorkerOk (s : Sys) : WorkerPc → Prop
  | .running w => (s.works w).state.busy
  | .finish w idle => (s.works w).state = .idle ∧ (idle = true → s.pending = 0)
  | .completeIdle => s.pending = 0
  | _ => True

def TaskOk (s : Sys) : Pc → Prop
  | .out => True
  | .cancelLock _ tk => tk ≤ s.ticket
  | .cancelFinish w tk idle =>
    (s.works w).state = .idle ∧ (idle = true → s.pending = 0) ∧ tk ≤ s.ticket
  | .cancelIdle w tk => Past s w tk ∧ s.pending = 0 ∧ tk ≤ s.ticket
  | .cancelWait _ tk => tk ≤ s.ticket
  | .cancelRet w tk => Past s w tk ∧ tk ≤ s.ticket
  | .flushLock tk destroy => tk ≤ s.ticket ∧ (destroy = true → s.accepting = false)
  | .flushWait tk destroy => tk ≤ s.ticket ∧ (destroy = true → s.accepting = false)
  | .flushRet tk destroy =>
    (∀ w, Past s w tk) ∧ tk ≤ s.ticket ∧ (destroy = true → s.accepting = false ∧ s.pending = 0)

/-- `pending` counts the works that are not idle, the flags of the completions are up only when
there is nothing to wait for, and so on. -/
structure Inv (s : Sys) : Prop where
  count : ∃ A : Finset ℕ, (∀ w, w ∈ A ↔ (s.works w).state ≠ .idle) ∧ s.pending = A.card
  onQueue : ∀ w, (s.works w).onQueue = true ↔ (s.works w).state ≠ .idle
  queued : ∀ w ∈ s.ready ++ s.delayed, (s.works w).state = .queued
  nodup : (s.ready ++ s.delayed).Nodup
  finished : ∀ w, (s.works w).finished = true → (s.works w).state = .idle
  idle : s.idle = true → s.pending = 0
  tickets : ∀ w, (s.works w).ticket ≤ s.ticket
  stop : s.stop = true → s.accepting = false ∧ s.pending = 0
  worker : WorkerOk s s.worker
  tasks : ∀ pc ∈ s.tasks, TaskOk s pc

lemma inv_start (n : ℕ) : Inv (Sys.start n) where
  count := ⟨∅, fun w => iff_of_false (notMem_empty w) (fun h => h rfl), rfl⟩
  onQueue _ := iff_of_false false_ne_true fun h => h rfl
  queued _ h := absurd h not_mem_nil
  nodup := nodup_nil
  finished _ h := nomatch h
  idle _ := rfl
  tickets _ := le_rfl
  stop h := nomatch h
  worker := trivial
  tasks _ h := (eq_of_mem_replicate h).symm ▸ trivial

variable {s s' : Sys}

lemma Inv.idle_of_pending (h : Inv s) (hp : s.pending = 0) (w : ℕ) : (s.works w).state = .idle := by
  obtain ⟨A, hA, hcard⟩ := h.count
  by_contra hw
  exact absurd (hcard.symm.trans hp) (card_ne_zero_of_mem ((hA w).2 hw))

/-- What only moves on: works may become idle, `pending` may become zero, and no work is accepted.
-/
structure Onward (s s' : Sys) : Prop where
  ticket : s'.ticket = s.ticket
  workTicket : ∀ w, (s'.works w).ticket = (s.works w).ticket
  idle : ∀ w, (s.works w).state = .idle → (s'.works w).state = .idle
  accepting : s.accepting = false → s'.accepting = false
  pending : s.pending = 0 → s'.pending = 0

variable {w tk t : ℕ} {pc : Pc}

lemma Past.onward (h : Past s w tk) (ho : Onward s s') : Past s' w tk := by
  intro hw
  rw [ho.workTicket]
  exact h fun hidle => hw (ho.idle w hidle)

lemma TaskOk.onward (h : TaskOk s pc) (ho : Onward s s') : TaskOk s' pc := by
  cases pc with
  | out => trivial
  | cancelLock w tk | cancelWait w tk => exact le_of_le_of_eq h ho.ticket.symm
  | cancelFinish w tk idle =>
    exact ⟨ho.idle w h.1, fun hi => ho.pending (h.2.1 hi), ho.ticket.symm ▸ h.2.2⟩
  | cancelIdle w tk => exact ⟨h.1.onward ho, ho.pending h.2.1, ho.ticket.symm ▸ h.2.2⟩
  | cancelRet w tk => exact ⟨h.1.onward ho, ho.ticket.symm ▸ h.2⟩
  | flushLock tk destroy
  | flushWait tk destroy => exact ⟨ho.ticket.symm ▸ h.1, fun hd => ho.accepting (h.2 hd)⟩
  | flushRet tk destroy =>
    exact ⟨fun w => (h.1 w).onward ho, ho.ticket.symm ▸ h.2.1,
      fun hd => ⟨ho.accepting (h.2.2 hd).1, ho.pending (h.2.2 hd).2⟩⟩

lemma forall_set {l : List Pc} (h : ∀ q ∈ l, TaskOk s q) (ho : Onward s s') (hpc : TaskOk s' pc) :
    ∀ q ∈ l.set t pc, TaskOk s' q := by
  intro q hq
  rcases mem_or_eq_of_mem_set hq with hq | rfl
  · exact (h q hq).onward ho
  · exact hpc

lemma WorkerOk.onward {pc : WorkerPc} (h : WorkerOk s pc) (ho : Onward s s')
    (hbusy : ∀ w, (s.works w).state.busy → (s'.works w).state.busy) : WorkerOk s' pc := by
  cases pc with
  | loop => trivial
  | running w => exact hbusy w h
  | finish w idle => exact ⟨ho.idle w h.1, fun hi => ho.pending (h.2 hi)⟩
  | completeIdle => exact ho.pending h
  | stopped => trivial

lemma Inv.setTask (h : Inv s) (hpc : TaskOk s pc) : Inv (s.setTask t pc) where
  __ := h
  tasks := forall_set h.tasks ⟨rfl, fun _ => rfl, fun _ => id, id, id⟩ hpc

/-- A work becomes idle: what the worker does when `work->func` has returned, and what
`cancel_work_sync` does to a work that is queued. -/
structure Retires (s s' : Sys) (w : ℕ) : Prop where
  works : s'.works = update s.works w { s.works w with state := .idle, onQueue := false }
  pending : s'.pending = s.pending - 1
  ticket : s'.ticket = s.ticket
  accepting : s'.accepting = s.accepting
  idle : s'.idle = s.idle
  stop : s'.stop = s.stop

lemma Retires.state_self (h : Retires s s' w) : (s'.works w).state = .idle := by
  rw [h.works, update_self]

lemma Retires.work_of_ne {v : ℕ} (h : Retires s s' w) (hv : v ≠ w) : s'.works v = s.works v := by
  rw [h.works, update_of_ne hv]

lemma Retires.onward (h : Retires s s' w) : Onward s s' where
  ticket := h.ticket
  workTicket v := by
    by_cases hv : v = w
    · rw [hv, h.works, update_self]
    · rw [h.work_of_ne hv]
  idle v hidle := by
    by_cases hv : v = w
    · exact hv ▸ h.state_self
    · rw [h.work_of_ne hv]
      exact hidle
  accepting ha := h.accepting.trans ha
  pending hp := by rw [h.pending, hp]

/-- The part of the invariant that concerns the works and the queue, after a work has become idle.
-/
lemma Inv.retire (h : Inv s) (hr : Retires s s' w) (hw : (s.works w).state ≠ .idle)
    (hqueued : ∀ v ∈ s'.ready ++ s'.delayed, v ≠ w ∧ v ∈ s.ready ++ s.delayed)
    (hnodup : (s'.ready ++ s'.delayed).Nodup)
    (hworker : WorkerOk s' s'.worker) (htasks : ∀ pc ∈ s'.tasks, TaskOk s' pc) : Inv s' where
  count := by
    obtain ⟨A, hA, hcard⟩ := h.count
    refine ⟨A.erase w, fun v => ?_, ?_⟩
    · rw [mem_erase]
      by_cases hv : v = w
      · rw [hv, hr.state_self]
        exact iff_of_false (fun h => h.1 rfl) fun h => h rfl
      · rw [hr.work_of_ne hv, ← hA, and_iff_right hv]
    · rw [hr.pending, hcard, card_erase_of_mem ((hA w).2 hw)]
  onQueue v := by
    by_cases hv : v = w
    · rw [hv, hr.works, update_self]
      exact iff_of_false false_ne_true fun h => h rfl
    · rw [hr.work_of_ne hv]
      exact h.onQueue v
  queued v hv := by
    obtain ⟨hvw, hold⟩ := hqueued v hv
    rw [hr.work_of_ne hvw]
    exact h.queued v hold
  nodup := hnodup
  finished v hf := by
    by_cases hv : v = w
    · exact hv ▸ hr.state_self
    · rw [hr.work_of_ne hv] at hf ⊢
      exact h.finished v hf
  idle hi := hr.onward.pending (h.idle (hr.idle.symm.trans hi))
  tickets v := by
    rw [hr.onward.workTicket, hr.ticket]
    exact h.tickets v
  stop hs := by
    obtain ⟨ha, hp⟩ := h.stop (hr.stop.symm.trans hs)
    exact ⟨hr.onward.accepting ha, hr.onward.pending hp⟩
  worker := hworker
  tasks := htasks

lemma Inv.unqueue (h : Inv s) (hw : (s.works w).state = .queued) (htk : tk ≤ s.ticket) :
    Inv ((unqueue s w).setTask t (.cancelFinish w tk (s.pending - 1 == 0))) := by
  have hr : Retires s ((Workqueue.unqueue s w).setTask t (.cancelFinish w tk (s.pending - 1 == 0)))
    w :=
    ⟨rfl, rfl, rfl, rfl, rfl, rfl⟩
  have hbusy : ∀ v, (s.works v).state.busy → v ≠ w := by
    rintro v hv rfl
    rw [hw] at hv
    exact hv.elim (fun h => nomatch h) fun h => nomatch h
  obtain ⟨hready, hdelayed, hdisj⟩ := nodup_append.1 h.nodup
  refine h.retire hr (by rw [hw]; exact fun h => nomatch h) (fun v hv => ?_) ?_ ?_ ?_
  · rcases mem_append.1 hv with hv | hv
    · obtain ⟨hvw, hv⟩ := hready.mem_erase_iff.1 hv
      exact ⟨hvw, mem_append_left _ hv⟩
    · obtain ⟨hvw, hv⟩ := hdelayed.mem_erase_iff.1 hv
      exact ⟨hvw, mem_append_right _ hv⟩
  · exact h.nodup.sublist (List.Sublist.append erase_sublist erase_sublist)
  · exact h.worker.onward hr.onward fun v hv => by rw [hr.work_of_ne (hbusy v hv)]; exact hv
  · exact forall_set h.tasks hr.onward ⟨hr.state_self, fun hp => eq_of_beq hp, htk⟩

lemma Inv.workDone (h : Inv s) (hw : s.worker = .running w) : Inv (workDone s w) := by
  have hr : Retires s (Workqueue.workDone s w) w := ⟨rfl, rfl, rfl, rfl, rfl, rfl⟩
  have hbusy : (s.works w).state.busy := by
    have := h.worker
    rw [hw] at this
    exact this
  refine h.retire hr hbusy.ne_idle (fun v hv => ⟨?_, hv⟩) h.nodup ?_ ?_
  · rintro rfl
    rw [h.queued v hv] at hbusy
    exact hbusy.elim (fun h => nomatch h) fun h => nomatch h
  · exact ⟨hr.state_self, fun hp => eq_of_beq hp⟩
  · exact fun q hq => (h.tasks q hq).onward hr.onward

lemma setWork_self {x : Work} : (s.setWork w x).works w = x := update_self ..

/-- The flag of a completion is raised, or the worker takes a work up, or it is to be cancelled. -/
lemma Inv.setWork (h : Inv s) {x : Work} (hidle : x.state = .idle ↔ (s.works w).state = .idle)
    (hon : x.onQueue = (s.works w).onQueue) (htk : x.ticket = (s.works w).ticket)
    (hfin : x.finished = true → x.state = .idle) (hq : w ∈ s.ready ++ s.delayed → x.state = .queued)
    (hbusy : (s.works w).state.busy → x.state.busy) : Inv (s.setWork w x) := by
  have hself : (s.setWork w x).works w = x := setWork_self
  have hother : ∀ v, v ≠ w → (s.setWork w x).works v = s.works v := fun v hv => update_of_ne hv ..
  have hsame : ∀ v, ((s.setWork w x).works v).state = .idle ↔ (s.works v).state = .idle := by
    intro v
    by_cases hv : v = w
    · rw [hv, hself, hidle]
    · rw [hother v hv]
  have htickets : ∀ v, ((s.setWork w x).works v).ticket = (s.works v).ticket := by
    intro v
    by_cases hv : v = w
    · rw [hv, hself, htk]
    · rw [hother v hv]
  have ho : Onward s (s.setWork w x) := ⟨rfl, htickets, fun v hv => (hsame v).2 hv, id, id⟩
  refine ⟨?_, fun v => ?_, fun v hv => ?_, h.nodup, fun v hv => ?_, h.idle, fun v => ?_, h.stop, ?_,
    ?_⟩
  · obtain ⟨A, hA, hcard⟩ := h.count
    exact ⟨A, fun v => (hA v).trans (not_congr (hsame v)).symm, hcard⟩
  · by_cases hv : v = w
    · rw [hv, hself, hon, h.onQueue, ne_eq, ne_eq, hidle]
    · rw [hother v hv]
      exact h.onQueue v
  · by_cases hvw : v = w
    · rw [hvw, hself]
      exact hq (hvw ▸ hv)
    · rw [hother v hvw]
      exact h.queued v hv
  · by_cases hvw : v = w
    · rw [hvw, hself] at hv ⊢
      exact hfin hv
    · rw [hother v hvw] at hv ⊢
      exact h.finished v hv
  · rw [htickets]
    exact h.tickets v
  · refine h.worker.onward ho fun v hv => ?_
    by_cases hvw : v = w
    · rw [hvw, hself]
      exact hbusy (hvw ▸ hv)
    · rw [hother v hvw]
      exact hv
  · exact fun q hq => (h.tasks q hq).onward ho

lemma Inv.setWorker (h : Inv s) (pc : WorkerPc) (hpc : WorkerOk s pc) :
    Inv { s with worker := pc } :=
  { h with worker := hpc }

lemma Inv.raiseIdle (h : Inv s) (hp : s.pending = 0) : Inv { s with idle := true } :=
  { h with idle := fun _ => hp }

lemma Inv.setLists (h : Inv s) {ready delayed : List ℕ} (hsub : ready ++ delayed ⊆ s.ready ++
    s.delayed)
    (hnodup : (ready ++ delayed).Nodup) : Inv { s with ready := ready, delayed := delayed } :=
  { h with queued := fun w hw => h.queued w (hsub hw), nodup := hnodup }

lemma Inv.expire (h : Inv s) (now : ℕ) : Inv (s.expire now) := by
  have hlists : (s.expire now).ready ++ (s.expire now).delayed = s.ready ++ s.delayed := by
    change s.ready ++ s.delayed.takeWhile _ ++ s.delayed.dropWhile _ = _
    rw [append_assoc, takeWhile_append_dropWhile]
  exact h.setLists (hlists ▸ List.Subset.refl _) (hlists.symm ▸ h.nodup)

lemma Inv.take (h : Inv s) : Inv (take s) := by
  unfold Workqueue.take
  split
  case h_2 =>
    split_ifs
    · exact h.setWorker .stopped trivial
    · exact h
  case h_1 w ready hready =>
    have hall := h.nodup
    rw [hready, cons_append] at hall
    obtain ⟨hnot, hnodup⟩ := nodup_cons.1 hall
    have hsub : ready ++ s.delayed ⊆ s.ready ++ s.delayed := by
      rw [hready]
      exact subset_cons_self _ _
    have hqueued : (s.works w).state = .queued :=
      h.queued w (hready ▸ mem_append_left _ mem_cons_self)
    have hidle : (s.works w).state ≠ .idle := by
      rw [hqueued]
      exact fun h => nomatch h
    have h1 := h.setLists hsub hnodup
    have h2 := h1.setWork (w := w) (x := { s.works w with state := .running })
      (iff_of_false (fun h => nomatch h) hidle) rfl rfl (fun hf => absurd (h.finished w hf) hidle)
      (fun hmem => absurd hmem hnot) fun _ => .inl rfl
    exact h2.setWorker (.running w) (.inl (by rw [setWork_self]))

/-! ## Accepting a work -/

/-- What accepting `w` does to everything but the lists. -/
structure Accepts (s s' : Sys) (w : ℕ) : Prop where
  state : (s'.works w).state = .queued
  onQueue : (s'.works w).onQueue = true
  finished : (s'.works w).finished = false
  workTicket : (s'.works w).ticket = s.ticket + 1
  other : ∀ v, v ≠ w → s'.works v = s.works v
  pending : s'.pending = s.pending + 1
  idle : s'.idle = true → s.pending ≠ 0 ∧ s.idle = true
  ticket : s'.ticket = s.ticket + 1
  accepting : s'.accepting = s.accepting
  stop : s'.stop = s.stop
  worker : s'.worker = s.worker
  tasks : s'.tasks = s.tasks

lemma perm_delayedInsert (deadline : ℕ → ℕ) (w : ℕ) (l : List ℕ) : (delayedInsert deadline w l).Perm
    (w :: l) := by
  induction l with
  | nil => exact .refl _
  | cons u l ih =>
    unfold delayedInsert
    split_ifs
    · exact .refl _
    · exact (ih.cons u).trans (.swap w u l)

lemma perm_accept (s : Sys) (w : ℕ) (deadline : Option ℕ) :
    ((accept s w deadline).ready ++ (accept s w deadline).delayed).Perm
    (w :: (s.ready ++ s.delayed)) := by
  cases deadline with
  | none =>
    change (s.ready ++ [w] ++ s.delayed).Perm _
    rw [append_assoc]
    exact perm_middle
  | some d =>
    exact ((perm_delayedInsert _ w s.delayed).append_left _).trans perm_middle

lemma accepts_accept (s : Sys) (w : ℕ) (deadline : Option ℕ) : Accepts s (accept s w deadline)
    w := by
  have hidle : (if s.pending = 0 then false else s.idle) = true → s.pending ≠ 0 ∧ s.idle =
    true := by
    intro h
    split at h
    · exact nomatch h
    next hp =>
      exact ⟨hp, h⟩
  have hself : (accept s w deadline).works w =
      ⟨.queued, true, false, deadline.getD (s.works w).deadline, s.ticket + 1⟩ := by
    cases deadline <;> exact update_self ..
  have hother : ∀ v, v ≠ w → (accept s w deadline).works v = s.works v := by
    cases deadline <;> exact fun v hv => update_of_ne hv ..
  refine ⟨by rw [hself], by rw [hself], by rw [hself], by rw [hself], hother, ?_, ?_, ?_, ?_, ?_,
    ?_, ?_⟩
  all_goals cases deadline <;> first | exact hidle | rfl

lemma Past.accept {v : ℕ} (h : Past s v tk) (htk : tk ≤ s.ticket) (ha : Accepts s s' w) :
    Past s' v tk := by
  intro hv
  by_cases hvw : v = w
  · rw [hvw, ha.workTicket]
    exact Nat.lt_succ_of_le htk
  · rw [ha.other v hvw] at hv ⊢
    exact h hv

/-- A task that owes no completion is not bothered by a work that is accepted. -/
lemma TaskOk.accept (h : TaskOk s pc) (hlate : pc.late w = false) (ha : Accepts s s' w)
    (hacc : s.accepting = true) : TaskOk s' pc := by
  have hle : s.ticket ≤ s'.ticket := ha.ticket ▸ Nat.le_succ _
  have hno : s.accepting ≠ false := by
    rw [hacc]
    exact fun h => nomatch h
  cases pc with
  | out => trivial
  | cancelLock v tk => exact le_trans h hle
  | cancelFinish v tk idle =>
    obtain ⟨hv, hi⟩ := or_eq_false_iff.1 hlate
    refine ⟨?_, fun hidle => (nomatch hi.symm.trans hidle), h.2.2.trans hle⟩
    rw [ha.other v (ne_of_beq_false hv)]
    exact h.1
  | cancelIdle v tk => exact nomatch hlate
  | cancelWait v tk => exact le_trans h hle
  | cancelRet v tk => exact ⟨h.1.accept h.2 ha, h.2.trans hle⟩
  | flushLock tk destroy
  | flushWait tk destroy => exact ⟨h.1.trans hle, fun hd => absurd (h.2 hd) hno⟩
  | flushRet tk destroy =>
    exact ⟨fun v => (h.1 v).accept h.2.1 ha, h.2.1.trans hle, fun hd => absurd (h.2.2 hd).1 hno⟩

lemma WorkerOk.accept {pc : WorkerPc} (h : WorkerOk s pc) (hlate : pc.late w = false)
    (ha : Accepts s s' w) (hw : (s.works w).state = .idle) : WorkerOk s' pc := by
  cases pc with
  | loop => trivial
  | running v =>
    have hvw : v ≠ w := by
      rintro rfl
      exact WorkState.busy.ne_idle h hw
    change (s'.works v).state.busy
    rw [ha.other v hvw]
    exact h
  | finish v idle =>
    obtain ⟨hv, hi⟩ := or_eq_false_iff.1 hlate
    refine ⟨?_, fun hidle => (nomatch hi.symm.trans hidle)⟩
    rw [ha.other v (ne_of_beq_false hv)]
    exact h.1
  | completeIdle => exact nomatch hlate
  | stopped => trivial

/-- A work is accepted while no completion for an earlier run is still to come. -/
lemma Inv.accept (h : Inv s) (deadline : Option ℕ) (hacc : s.accepting = true)
    (hw : (s.works w).state = .idle)
    (hworker : s.worker.late w = false) (htasks : ∀ pc ∈ s.tasks, pc.late w = false) :
    Inv (accept s w deadline) := by
  have ha := accepts_accept s w deadline
  have hperm := perm_accept s w deadline
  have hnot : w ∉ s.ready ++ s.delayed := fun hmem => nomatch (h.queued w hmem).symm.trans hw
  generalize Workqueue.accept s w deadline = s' at ha hperm ⊢
  refine ⟨?_, fun v => ?_, fun v hv => ?_, hperm.nodup_iff.2 (nodup_cons.2 ⟨hnot, h.nodup⟩),
    fun v hv => ?_, fun hi => ?_, fun v => ?_, fun hs => ?_, ?_, fun q hq => ?_⟩
  · obtain ⟨A, hA, hcard⟩ := h.count
    have hwA : w ∉ A := fun hmem => (hA w).1 hmem hw
    refine ⟨insert w A, fun v => ?_, by rw [ha.pending, hcard, card_insert_of_notMem hwA]⟩
    rw [mem_insert]
    by_cases hv : v = w
    · rw [hv, ha.state]
      exact iff_of_true (.inl rfl) fun h => nomatch h
    · rw [ha.other v hv, ← hA, or_iff_right hv]
  · by_cases hv : v = w
    · rw [hv, ha.state, ha.onQueue]
      exact iff_of_true rfl fun h => nomatch h
    · rw [ha.other v hv]
      exact h.onQueue v
  · by_cases hvw : v = w
    · exact hvw ▸ ha.state
    · rw [ha.other v hvw]
      exact h.queued v ((mem_cons.1 (hperm.mem_iff.1 hv)).resolve_left hvw)
  · by_cases hvw : v = w
    · rw [hvw, ha.finished] at hv
      exact nomatch hv
    · rw [ha.other v hvw] at hv ⊢
      exact h.finished v hv
  · exact absurd (h.idle (ha.idle hi).2) (ha.idle hi).1
  · rw [ha.ticket]
    by_cases hvw : v = w
    · rw [hvw, ha.workTicket]
    · rw [ha.other v hvw]
      exact (h.tickets v).trans (Nat.le_succ _)
  · exact nomatch (h.stop (ha.stop.symm.trans hs)).1.symm.trans hacc
  · rw [ha.worker]
    exact h.worker.accept hworker ha hw
  · rw [ha.tasks] at hq
    exact (h.tasks q hq).accept (htasks q hq) ha hacc

/-! ## Steps and runs -/

lemma Inv.queueWork (h : Inv s) (w : ℕ) (deadline : Option ℕ) (hC : Calm s (.queue w deadline)) :
    Inv (queueWork s w deadline) := by
  unfold Workqueue.queueWork
  split
  next hok =>
    obtain ⟨hworker, htasks⟩ := hC hok.1 hok.2
    exact h.accept deadline hok.1 hok.2 hworker htasks
  · exact h

lemma Inv.cancelLock (h : Inv s) (htk : tk ≤ s.ticket) : Inv (cancelLock s t w tk) := by
  unfold Workqueue.cancelLock
  split
  case h_1 hw => exact h.unqueue hw htk
  case h_2 hw =>
    have hidle : (s.works w).state ≠ .idle := by
      rw [hw]
      exact fun h => nomatch h
    have h1 := h.setWork (w := w) (x := { s.works w with state := .canceling })
      (iff_of_false (fun h => nomatch h) hidle) rfl rfl (fun hf => absurd (h.finished w hf) hidle)
      (fun hmem => nomatch (h.queued w hmem).symm.trans hw) fun _ => .inr rfl
    exact h1.setTask htk
  case h_3 => exact h.setTask htk
  case h_4 hw => exact h.setTask ⟨fun hne => absurd hw hne, htk⟩

lemma Inv.raiseFinished (h : Inv s) (hw : (s.works w).state = .idle) :
    Inv (s.setWork w { s.works w with finished := true }) :=
  h.setWork Iff.rfl rfl rfl (fun _ => hw) (h.queued w) id

lemma past_setWork (hw : (s.works w).state = .idle) :
    Past (s.setWork w { s.works w with finished := true }) w tk := by
  intro hne
  rw [setWork_self] at hne
  exact absurd hw hne

lemma Inv.advance (h : Inv s) {signal : Bool} (hpc : TaskOk s pc) (hC : match pc with
      | .cancelWait w _ => signal = true → (s.works w).finished = true
      | .flushWait _ _ => signal = true → s.idle = true
      | _ => True) (hs : advance s t signal pc = some s') : Inv s' := by
  cases pc with
  | out => exact nomatch hs
  | cancelLock w tk => exact some.inj hs ▸ h.cancelLock hpc
  | cancelFinish w tk idle =>
    obtain rfl := some.inj hs
    obtain ⟨hw, hidle, htk⟩ := hpc
    refine (h.raiseFinished hw).setTask ?_
    cases idle with
    | false => exact ⟨past_setWork hw, htk⟩
    | true => exact ⟨past_setWork hw, hidle rfl, htk⟩
  | cancelIdle w tk =>
    obtain rfl := some.inj hs
    obtain ⟨hpast, hp, htk⟩ := hpc
    exact (h.raiseIdle hp).setTask (s := { s with idle := true }) ⟨hpast, htk⟩
  | cancelWait w tk =>
    obtain rfl := some.inj hs
    split_ifs with hdone
    · have hfin : (s.works w).finished = true := hdone.elim id hC
      exact h.setTask ⟨fun hne => absurd (h.finished w hfin) hne, hpc⟩
    · exact h
  | cancelRet w tk => exact some.inj hs ▸ h.setTask trivial
  | flushLock tk destroy =>
    obtain rfl := some.inj hs
    split_ifs with hp
    · exact h.setTask ⟨fun w hne => absurd (h.idle_of_pending hp w) hne, hpc.1, fun hd =>
        ⟨hpc.2 hd, hp⟩⟩
    · exact h.setTask hpc
  | flushWait tk destroy =>
    obtain rfl := some.inj hs
    split_ifs with hdone
    · have hp : s.pending = 0 := h.idle (hdone.elim id hC)
      exact h.setTask ⟨fun w hne => absurd (h.idle_of_pending hp w) hne, hpc.1, fun hd =>
        ⟨hpc.2 hd, hp⟩⟩
    · exact h
  | flushRet tk destroy =>
    obtain rfl := some.inj hs
    have h1 : Inv (s.setTask t .out) := h.setTask trivial
    refine { h1 with stop := fun hstop => ?_ }
    rcases or_eq_true_iff.1 hstop with hstop | hd
    · exact h.stop hstop
    · exact hpc.2.2 hd

lemma inv_step (s : Sys) (a : Act) (s' : Sys) (h : Inv s) (hC : Calm s a)
    (hs : step s a = some s') : Inv s' := by
  cases a with
  | queue w deadline => exact some.inj hs ▸ h.queueWork w deadline hC
  | cancel t w =>
    obtain ⟨_, rfl⟩ := of_guard hs
    split
    · exact h.setTask le_rfl
    next hon =>
      exact h.setTask ⟨fun hne => absurd ((h.onQueue w).2 hne) hon, le_rfl⟩
  | flush t =>
    obtain ⟨_, rfl⟩ := of_guard hs
    exact h.setTask ⟨le_rfl, fun hd => nomatch hd⟩
  | destroy t =>
    obtain ⟨_, rfl⟩ := of_guard hs
    have ho : Onward s { s.setTask t (.flushLock s.ticket true) with accepting := false } :=
      ⟨rfl, fun _ => rfl, fun _ => id, fun _ => rfl, id⟩
    exact
      { h with
        stop := fun hstop => ⟨rfl, (h.stop hstop).2⟩
        tasks := forall_set h.tasks ho ⟨le_rfl, fun _ => rfl⟩ }
  | advance t signal =>
    obtain ⟨pc, hpc, hs⟩ := bind_eq_some_iff.1 hs
    unfold Calm at hC
    simp only [hpc] at hC
    refine h.advance (h.tasks pc (mem_of_getElem? hpc)) ?_ hs
    cases pc <;> exact hC
  | look now =>
    obtain ⟨-, rfl⟩ := of_guard hs
    exact (h.expire now).take
  | workDone =>
    unfold step at hs
    rcases hw : s.worker with _ | w | _ | _ | _
    all_goals simp only [hw] at hs
    case running => exact some.inj hs ▸ h.workDone hw
    all_goals exact nomatch hs
  | complete =>
    have hworker := h.worker
    unfold step at hs
    rcases hw : s.worker with _ | _ | ⟨w, idle⟩ | _ | _
    all_goals
      simp only [hw] at hs
      rw [hw] at hworker
    case finish =>
      obtain rfl := some.inj hs
      refine (h.raiseFinished hworker.1).setWorker _ ?_
      cases idle with
      | false => trivial
      | true => exact hworker.2 rfl
    case completeIdle =>
      obtain rfl := some.inj hs
      exact (h.raiseIdle hworker).setWorker .loop trivial
    all_goals exact nomatch hs

lemma Inv.fine (h : Inv s) (a : Act) : Fine s a := by
  cases a with
  | advance t signal =>
    simp only [Fine]
    rcases hpc : s.tasks[t]? with _ | pc
    · trivial
    · have hok := h.tasks pc (mem_of_getElem? hpc)
      cases pc with
      | cancelRet w tk => exact hok.1
      | flushRet tk destroy => exact hok.1
      | _ => trivial
  | look now => exact fun _ _ hstop => (h.stop hstop).2
  | _ => trivial

/-- A work is cancelled while it runs, and the queue is destroyed. -/
def cancelAndDestroy : List Act :=
  [.queue 0 none, .look 5, .cancel 0 0, .advance 0 false, .workDone, .complete, .complete,
    .advance 0 false, .advance 0 false, .destroy 0, .advance 0 false, .advance 0 false, .look 6]

/-- The work is accepted again before the completion for its first run has come; that completion
then ends the wait of `cancel_work_sync` for the second run. -/
def lateCompletion : List Act :=
  [.queue 0 none, .look 5, .workDone, .queue 0 none, .complete, .complete, .look 6, .cancel 0 0,
    .advance 0 false, .advance 0 false]

/-- A signal ends the wait in `cancel_work_sync` while the work is running. -/
def interruptedCancel : List Act :=
  [.queue 0 none, .look 5, .cancel 0 0, .advance 0 false, .advance 0 true]

/-- A signal ends the wait in `destroy_workqueue` while a delayed work is pending. -/
def interruptedDestroy : List Act :=
  [.queue 0 (some 100), .destroy 0, .advance 0 false, .advance 0 true, .advance 0 false]

lemma not_fine_of_cancelRet (hpc : s.tasks[0]? = some (.cancelRet w tk))
    (hstate : (s.works w).state ≠ .idle) (htk : (s.works w).ticket ≤ tk) :
    ¬ Fine s (.advance 0 false) := by
  intro h
  unfold Fine at h
  simp only [hpc] at h
  exact absurd (h hstate) (not_lt.2 htk)

end XosKernel.Workqueue
