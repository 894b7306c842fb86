/-
# Timed waits

`sched_timer_queue_cancel`, `timer_queue_wait_pop`, `wake_from_wait` and
`sched_cancel_spurious_wake` of `xcore/sched.h`, `sched_timer_queue_insert` of `xcore/sched.c`,
the timer queue part of `timer_handler` of `xcore/trap.c`, and the blocking sequences of
`unix_sock_recvmsg`, `unix_dgram_recvmsg`, `netlink_sock_recvmsg`, `do_sys_poll` and
`sys_epoll_wait`.

A timer queue is changed under the `scheduler_lock` of its CPU; a task stays on its CPU, so each
section under that lock is one step, and the states between the steps are those in which the
lock is free. What a caller writes outside the lock are steps of their own. Run queues are left
out: a task that has called `schedule` goes on at some time after it has been made `READY`. The
nanosecond clock is below `2 ^ 63`.
-/
import XosKernel.Lib.Run
import XosKernel.Mem.Layout

namespace XosKernel.TimedWait

inductive TaskState
  | ready
  | running
  | blocked
deriving DecidableEq

/-- The callers: the three `recvmsg` functions block alike. -/
inductive Kind
  | unixSockRecvmsg
  | unixDgramRecvmsg
  | netlinkSockRecvmsg
  | doSysPoll
  | sysEpollWait
deriving DecidableEq

def Kind.isRecv : Kind → Bool
  | .unixSockRecvmsg | .unixDgramRecvmsg | .netlinkSockRecvmsg => true
  | .doSysPoll | .sysEpollWait => false

/-- A call with its timeout and the deadline computed from it (poll and epoll). -/
structure Call where
  kind : Kind
  timeoutMs : ℤ
  deadline : ℕ
deriving DecidableEq

/-- The deadline that epoll uses: its own, or else that of the process's alarm. -/
def Call.effectiveDeadline (call : Call) (alarm : ℕ) : ℕ :=
  if call.deadline = 0 ∧ alarm ≠ 0 then alarm else call.deadline

/-- Where a task is in a call. -/
inductive Phase
  | out
  /-- at the top of the loop -/
  | top (call : Call)
  /-- has written `BLOCKED` -/
  | prepared (call : Call)
  /-- has written `wait_deadline` and is about to insert itself into the timer queue -/
  | armed (call : Call)
  /-- is about to call `schedule` -/
  | waiting (call : Call)
  /-- in `schedule` -/
  | asleep (call : Call)
  /-- `schedule` has returned -/
  | woken (call : Call)
  /-- on its way out, before `sched_cancel_spurious_wake` -/
  | leaving
deriving DecidableEq

structure Task where
  cpu : ℕ
  state : TaskState
  waitDeadline : ℕ
  waitTimedOut : Bool
  phase : Phase
deriving DecidableEq

structure Sys where
  task : ℕ → Task
  /-- the timer queue of each CPU, sorted by deadline -/
  timerQueue : ℕ → List ℕ
  /-- an `ASSERT` has failed -/
  asserted : Bool

namespace Sys

def setTask (s : Sys) (t : ℕ) (x : Task) : Sys := { s with task := Function.update s.task t x }

def setQueue (s : Sys) (c : ℕ) (q : List ℕ) : Sys :=
  { s with timerQueue := Function.update s.timerQueue c q }

def setPhase (s : Sys) (t : ℕ) (ph : Phase) : Sys := s.setTask t { s.task t with phase := ph }

def queued (s : Sys) (t : ℕ) : Prop := t ∈ s.timerQueue (s.task t).cpu

instance (s : Sys) (t : ℕ) : Decidable (s.queued t) := by unfold queued; infer_instance

/-- `sched_timer_queue_insert`: before the first task with a later deadline. -/
def schedTimerQueueInsert (s : Sys) (t : ℕ) : Sys :=
  let q := s.timerQueue (s.task t).cpu
  let earlier := fun u => decide ((s.task u).waitDeadline ≤ (s.task t).waitDeadline)
  s.setQueue (s.task t).cpu (q.takeWhile earlier ++ t :: q.dropWhile earlier)

/-- `timer_queue_wait_pop`, with its `ASSERT`. -/
def timerQueueWaitPop (s : Sys) (t : ℕ) : Sys :=
  let q := s.timerQueue (s.task t).cpu
  { s.setQueue (s.task t).cpu (q.erase t) with asserted := s.asserted || !decide (s.queued t) }

def schedTimerQueueCancel (s : Sys) (t : ℕ) : Sys :=
  if (s.task t).waitDeadline ≠ 0 then
    let s := s.timerQueueWaitPop t
    s.setTask t { s.task t with waitDeadline := 0 }
  else s

def wakeFromWait (s : Sys) (t : ℕ) : Sys :=
  let s := s.schedTimerQueueCancel t
  s.setTask t { s.task t with state := .ready, waitTimedOut := false }

/-- `wake_wq_target` and `wake_process_any`. -/
def wakeWqTarget (s : Sys) (t : ℕ) : Sys :=
  if (s.task t).state = .blocked then s.wakeFromWait t else s

/-- `timer_handler` for one task whose deadline has passed; one that is not `BLOCKED` is only
taken off the queue. -/
def expireOne (s : Sys) (t : ℕ) : Sys :=
  let s := s.timerQueueWaitPop t
  if (s.task t).state = .blocked then
    s.setTask t { s.task t with state := .ready, waitTimedOut := true, waitDeadline := 0 }
  else s

/-- The loop of `timer_handler` over the tasks at the front of the queue. -/
def expire (s : Sys) (now : ℕ) : List ℕ → Sys
  | [] => s
  | t :: rest => if now < (s.task t).waitDeadline then s else (s.expireOne t).expire now rest

def timerHandler (s : Sys) (c now : ℕ) : Sys := s.expire now (s.timerQueue c)

def schedCancelSpuriousWake (s : Sys) (t : ℕ) : Sys :=
  s.setTask t { s.task t with state := .running, waitTimedOut := false }

/-! ## The callers -/

/-- The 30 s of the `recvmsg` functions. -/
def recvTimeout : ℕ := 30000000000

def clockLimit : ℕ := 2 ^ 63

def enter (s : Sys) (t : ℕ) (kind : Kind) (timeoutMs : ℤ) (now : ℕ) : Option Sys :=
  if (s.task t).phase = .out ∧ now < clockLimit then
    let deadline := if 0 < timeoutMs then u64 (now + timeoutMs.toNat * 1000000) else 0
    some (s.setPhase t (.top ⟨kind, timeoutMs, deadline⟩))
  else none

/-- The top of the loop, `ready` if there is something to return or the call may not wait. The
`recvmsg` functions and poll look before they write `BLOCKED`, epoll looks afterwards. -/
def prepare (s : Sys) (t : ℕ) (ready : Bool) : Option Sys :=
  match (s.task t).phase with
  | .top call =>
    match call.kind with
    | .unixSockRecvmsg | .unixDgramRecvmsg | .netlinkSockRecvmsg =>
      if ready then some (s.setPhase t .out)
      else some (s.setTask t { s.task t with state := .blocked, phase := .prepared call })
    | .doSysPoll =>
      if ready ∨ call.timeoutMs = 0 then some (s.setPhase t .leaving)
      else
        some (s.setTask t { s.task t with
          state := .blocked, waitTimedOut := false, phase := .prepared call })
    | .sysEpollWait =>
      some (s.setTask t { s.task t with
        state := .blocked, waitTimedOut := false, phase := .prepared call })
  | _ => none

/-- From `BLOCKED` to the write of `wait_deadline`, or out of the call. -/
def arm (s : Sys) (t : ℕ) (ready : Bool) (now alarm : ℕ) : Option Sys :=
  match (s.task t).phase with
  | .prepared call =>
    if now < clockLimit then
      match call.kind with
      | .unixSockRecvmsg | .unixDgramRecvmsg | .netlinkSockRecvmsg =>
        some (s.setTask t { s.task t with
          waitDeadline := u64 (now + recvTimeout), phase := .armed call })
      | .doSysPoll =>
        if ready then some (s.setPhase t .leaving)
        else if 0 < call.deadline then
          if call.deadline ≤ now then some (s.setPhase t .leaving)
          else some (s.setTask t { s.task t with
            waitDeadline := call.deadline, phase := .armed call })
        else some (s.setTask t { s.task t with waitDeadline := 0, phase := .waiting call })
      | .sysEpollWait =>
        let deadline := call.effectiveDeadline alarm
        if ready ∨ call.timeoutMs = 0 then some (s.setPhase t .leaving)
        else if 0 < deadline then
          if deadline ≤ now then some (s.setPhase t .leaving)
          else some (s.setTask t { s.task t with waitDeadline := deadline, phase := .armed call })
        else some (s.setTask t { s.task t with waitDeadline := 0, phase := .waiting call })
    else none
  | _ => none

def insert (s : Sys) (t : ℕ) : Option Sys :=
  match (s.task t).phase with
  | .armed call => some ((s.schedTimerQueueInsert t).setPhase t (.waiting call))
  | _ => none

def schedule (s : Sys) (t : ℕ) : Option Sys :=
  match (s.task t).phase with
  | .waiting call => some (s.setPhase t (.asleep call))
  | _ => none

/-- `schedule` returns: the task has been made `READY` and is chosen. -/
def resume (s : Sys) (t : ℕ) : Option Sys :=
  match (s.task t).phase with
  | .asleep call =>
    if (s.task t).state = .blocked then none
    else some (s.setTask t { s.task t with state := .running, phase := .woken call })
  | _ => none

/-- After `schedule`: out of the call for a signal or a timeout, or to the top of the loop. -/
def settle (s : Sys) (t : ℕ) (signal : Bool) : Option Sys :=
  match (s.task t).phase with
  | .woken call =>
    if call.kind.isRecv then
      if (s.task t).waitTimedOut ∨ signal then
        some (s.setTask t { s.task t with state := .running, phase := .out })
      else some (s.setTask t { s.task t with state := .running, phase := .top call })
    else if signal ∨ ((s.task t).waitTimedOut ∧ 0 < call.timeoutMs) then
      some (s.setPhase t .leaving)
    else some (s.setPhase t (.top call))
  | _ => none

/-- The way out of poll and epoll. -/
def leave (s : Sys) (t : ℕ) : Option Sys :=
  match (s.task t).phase with
  | .leaving => some ((s.schedCancelSpuriousWake t).setPhase t .out)
  | _ => none

end Sys

inductive Act
  | wake (t : ℕ)
  | timer (c now : ℕ)
  | enter (t : ℕ) (kind : Kind) (timeoutMs : ℤ) (now : ℕ)
  | prepare (t : ℕ) (ready : Bool)
  | arm (t : ℕ) (ready : Bool) (now alarm : ℕ)
  | insert (t : ℕ)
  | schedule (t : ℕ)
  | resume (t : ℕ)
  | settle (t : ℕ) (signal : Bool)
  | leave (t : ℕ)
deriving DecidableEq

def step (s : Sys) : Act → Option Sys
  | .wake t => some (s.wakeWqTarget t)
  | .timer c now => some (s.timerHandler c now)
  | .enter t kind timeoutMs now => s.enter t kind timeoutMs now
  | .prepare t ready => s.prepare t ready
  | .arm t ready now alarm => s.arm t ready now alarm
  | .insert t => s.insert t
  | .schedule t => s.schedule t
  | .resume t => s.resume t
  | .settle t signal => s.settle t signal
  | .leave t => s.leave t

/-- No task is in a call; each is on the CPU it is given. -/
def Sys.init (cpu : ℕ → ℕ) : Sys where
  task t := ⟨cpu t, .running, 0, false, .out⟩
  timerQueue _ := []
  asserted := false

end XosKernel.TimedWait
