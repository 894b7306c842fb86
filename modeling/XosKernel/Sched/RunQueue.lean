/-
# Run queues and the eventfd wait loops

`run_queue_push`, `run_queue_pop`, `wake_from_wait`, `wake_wq_target` and
`sched_cancel_spurious_wake` of `xcore/sched.h`, `schedule` and `sched_try_steal_task` of
`xcore/sched.c`, and the loops of `eventfd_do_read` and `eventfd_do_write` of `bsd/eventfd.c`.

A CPU's run queue and its count are changed under that CPU's `scheduler_lock`. The sections of
`schedule`, `sched_try_steal_task` and `sched_cancel_spurious_wake` are single steps, possible
while the locks they take are free. A wake-up reads `assigned_cpu` before it has a lock, so it
is cut into its accesses: the lock it takes need not be the one of the queue it ends up with.
The loops write `state` without a lock.

Timer queues, statistics and accounting are left out; tasks do not stop or exit.
-/
import XosKernel.Lib.Run
import XosKernel.Mem.Layout

namespace XosKernel.RunQueue

open Function

inductive TaskState
  | ready
  | running
  | blocked
deriving DecidableEq

def eventfdMax : ℕ := 0xFFFFFFFFFFFFFFFE

/-- `struct eventfd_ctx`, with the flags and the wait queue of its file. -/
structure Eventfd where
  count : ℕ
  semaphore : Bool
  nonblock : Bool
  /-- the tasks whose wait nodes are on the queue, from its head on -/
  wq : List ℕ
deriving DecidableEq

inductive Op
  | read
  | write (len val : ℕ)
deriving DecidableEq

/-- The section under `ctx->lock`: the new count if the operation can be done. -/
def Eventfd.attempt (f : Eventfd) : Op → Option ℕ
  | .read =>
    if 0 < f.count then some (if f.semaphore then f.count - 1 else 0) else none
  | .write _ val => if f.count ≤ eventfdMax - val then some (f.count + val) else none

inductive Ret
  | eight
  | efault
  | eagain
  | erestart
  | einval
deriving DecidableEq

/-- A call on an eventfd; `hasWq` says whether `file_wq_get` returned a queue. -/
structure Call where
  file : ℕ
  op : Op
  hasWq : Bool
deriving DecidableEq

/-- Where a task is in `eventfd_do_read` or `eventfd_do_write`. -/
inductive Phase
  | out
  /-- at the top of the loop -/
  | top (call : Call)
  /-- has written `BLOCKED` -/
  | prepared (call : Call)
  /-- is about to call `schedule` -/
  | sleeping (call : Call)
  /-- in `schedule` -/
  | asleep (call : Call)
  /-- has its result; these waiters are still to be woken, then `RUNNING` is written -/
  | leaving (call : Call) (waiters : List ℕ) (ret : Ret)
  /-- at `out:`, before `sched_cancel_spurious_wake` -/
  | cancel (call : Call) (ret : Ret)
deriving DecidableEq

/-- A task that enters `schedule` from its loop is in it until it is chosen again. -/
def Phase.sleep : Phase → Phase
  | .sleeping call => .asleep call
  | ph => ph

/-- `schedule` returns into the loop. -/
def Phase.resume : Phase → Phase
  | .asleep call => .top call
  | ph => ph

/-- The task may call `schedule` here: in the loop, or on its way back to user mode. -/
def Phase.yields : Phase → Bool
  | .out | .sleeping _ => true
  | _ => false

structure Task where
  state : TaskState
  assignedCpu : ℕ
  /-- `run_node` is on a list -/
  linked : Bool
  phase : Phase
  ret : Option Ret
deriving DecidableEq

/-- Who wakes: a task in `__wake_up`, or anything else (an interrupt, another file). -/
inductive Ctx
  | task (t : ℕ)
  | irq (i : ℕ)
deriving DecidableEq

structure Cpu where
  /-- who holds `scheduler_lock` from one step to the next -/
  lock : Option Ctx
  runQueue : List ℕ
  runCount : ℤ
  /-- `_cur_proc` -/
  cur : ℕ
  idle : ℕ
  /-- `schedule` has chosen this task and `switch_to` is next -/
  switching : Option ℕ
deriving DecidableEq

/-- Where a wake-up is; `t` is the target and `c` the CPU whose lock it takes. -/
inductive Wake
  | off
  /-- has read `assigned_cpu` -/
  | lock (t c : ℕ)
  | test (t c : ℕ)
  /-- has seen `BLOCKED` -/
  | ready (t c : ℕ)
  /-- has written `READY` -/
  | push (t c : ℕ)
  /-- has linked the target on the queue of `d` and has loaded its `run_count` -/
  | count (c d : ℕ) (r : ℤ)
deriving DecidableEq

@[ext]
structure Sys where
  ncpu : ℕ
  cpu : ℕ → Cpu
  task : ℕ → Task
  file : ℕ → Eventfd
  ctx : Ctx → Wake

namespace Sys

def setCpu (s : Sys) (c : ℕ) (x : Cpu) : Sys := { s with cpu := update s.cpu c x }

def setTask (s : Sys) (t : ℕ) (x : Task) : Sys := { s with task := update s.task t x }

def setFile (s : Sys) (f : ℕ) (x : Eventfd) : Sys := { s with file := update s.file f x }

def setCtx (s : Sys) (x : Ctx) (w : Wake) : Sys := { s with ctx := update s.ctx x w }

def setState (s : Sys) (t : ℕ) (st : TaskState) : Sys := s.setTask t { s.task t with state := st }

def setPhase (s : Sys) (t : ℕ) (ph : Phase) : Sys := s.setTask t { s.task t with phase := ph }

def setLock (s : Sys) (c : ℕ) (x : Option Ctx) : Sys := s.setCpu c { s.cpu c with lock := x }

/-- `list_push_back(&cpu_locals[c].run_queue, &t->run_node)`. -/
def link (s : Sys) (c t : ℕ) : Sys :=
  (s.setCpu c { s.cpu c with runQueue := (s.cpu c).runQueue ++ [t] }).setTask t
    { s.task t with linked := true }

/-- `list_remove` and `list_init` of a node that is on the queue of `c`. -/
def unlink (s : Sys) (c t : ℕ) : Sys :=
  (s.setCpu c { s.cpu c with runQueue := (s.cpu c).runQueue.erase t }).setTask t
    { s.task t with linked := false }

def addCount (s : Sys) (c : ℕ) (δ : ℤ) : Sys :=
  s.setCpu c { s.cpu c with runCount := (s.cpu c).runCount + δ }

def runQueuePush (s : Sys) (c t : ℕ) : Sys := (s.link c t).addCount c 1

def runQueuePop (s : Sys) (c t : ℕ) : Sys := (s.unlink c t).addCount (s.task t).assignedCpu (-1)

def executing (s : Sys) (t : ℕ) : Prop :=
  (s.cpu (s.task t).assignedCpu).cur = t ∧ (s.cpu (s.task t).assignedCpu).switching = none ∧
    t ≠ (s.cpu (s.task t).assignedCpu).idle

instance (s : Sys) (t : ℕ) : Decidable (s.executing t) := by unfold executing; infer_instance

/-! ## Wake-ups -/

/-- `wake_wq_target` up to its first access, the read of `assigned_cpu`. -/
def wakeWqTarget (s : Sys) (x : Ctx) (t : ℕ) : Option Sys :=
  if s.ctx x = .off then some (s.setCtx x (.lock t (s.task t).assignedCpu)) else none

/-- The next access of a wake-up. -/
def wakeStep (s : Sys) (x : Ctx) : Option Sys :=
  match s.ctx x with
  | .off => none
  | .lock t c =>
    if (s.cpu c).lock = none then some ((s.setLock c (some x)).setCtx x (.test t c)) else none
  | .test t c =>
    if (s.task t).state = .blocked then some (s.setCtx x (.ready t c))
    else some ((s.setLock c none).setCtx x .off)
  | .ready t c => some ((s.setState t .ready).setCtx x (.push t c))
  | .push t c =>
    if (s.task t).linked then some ((s.setLock c none).setCtx x .off)
    else
      let d := (s.task t).assignedCpu
      some ((s.link d t).setCtx x (.count c d (s.cpu d).runCount))
  | .count c d r =>
    some (((s.setCpu d { s.cpu d with runCount := r + 1 }).setLock c none).setCtx x .off)

/-! ## The scheduler -/

/-- `schedule` on CPU `c`, up to `switch_to`. -/
def schedule (s : Sys) (c : ℕ) : Option Sys :=
  let prev := (s.cpu c).cur
  if (s.cpu c).lock = none ∧ (s.cpu c).switching = none ∧ (s.task prev).phase.yields = true then
    let s := s.setPhase prev (s.task prev).phase.sleep
    match (s.cpu c).runQueue with
    | [] =>
      if prev ≠ (s.cpu c).idle ∧ (s.task prev).state = .blocked then
        some (s.setCpu c { s.cpu c with switching := some (s.cpu c).idle })
      else some (s.setPhase prev (s.task prev).phase.resume)
    | next :: _ =>
      let s := s.runQueuePop c next
      let s :=
        if prev ≠ (s.cpu c).idle ∧ (s.task prev).state = .running then
          (s.setState prev .ready).runQueuePush c prev
        else s
      let s := (s.setState next .running).setPhase next (s.task next).phase.resume
      some (s.setCpu c { s.cpu c with switching := some next })
  else none

/-- `switch_to` publishes the chosen task. -/
def switchTo (s : Sys) (c : ℕ) : Option Sys :=
  (s.cpu c).switching.map fun next =>
    s.setCpu c { s.cpu c with cur := next, switching := none }

/-- `sched_try_steal_task` on CPU `my`, which is idle. The counts are read one by one while they
change, so that the scan may choose any other CPU `v`. -/
def schedTryStealTask (s : Sys) (my v : ℕ) : Option Sys :=
  if (s.cpu my).lock = none ∧ (s.cpu my).cur = (s.cpu my).idle ∧ (s.cpu my).switching = none ∧
      v ≠ my then
    if (s.cpu v).lock ≠ none then some s
    else
      match (s.cpu v).runQueue.reverse.find? fun t => t ≠ (s.cpu v).cur with
      | none => some s
      | some t =>
        let s := s.runQueuePop v t
        let s := s.setTask t { s.task t with assignedCpu := my }
        some (s.runQueuePush my t)
  else none

/-! ## The loops -/

def enter (s : Sys) (t : ℕ) (call : Call) : Option Sys :=
  if s.executing t ∧ (s.task t).phase = .out then
    let bad :=
      match call.op with
      | .read => false
      | .write len val => len != 8 || decide (eventfdMax < val)
    if bad then some (s.setTask t { s.task t with ret := some .einval })
    else
      let s := s.setPhase t (.top call)
      if call.hasWq then
        let f := s.file call.file
        some (s.setFile call.file { f with wq := f.wq ++ [t] })
      else some s
  else none

def prepare (s : Sys) (t : ℕ) : Option Sys :=
  match (s.task t).phase with
  | .top call =>
    if s.executing t then some ((s.setState t .blocked).setPhase t (.prepared call)) else none
  | _ => none

/-- From the section under `ctx->lock` to the next thing that touches the scheduler; `signal` is
`signal_pending` and `copied` the outcome of `copy_to_user`. -/
def check (s : Sys) (t : ℕ) (signal copied : Bool) : Option Sys :=
  match (s.task t).phase with
  | .prepared call =>
    if s.executing t then
      let f := s.file call.file
      match f.attempt call.op with
      | some count =>
        let ret := if call.op = .read ∧ copied = false then .efault else .eight
        some ((s.setFile call.file { f with count := count }).setPhase t
          (.leaving call (if call.hasWq then f.wq else []) ret))
      | none =>
        if f.nonblock then some (s.setPhase t (.leaving call [] .eagain))
        else if signal then some (s.setPhase t (.leaving call [] .erestart))
        else some (s.setPhase t (.sleeping call))
    else none
  | _ => none

def wakeNext (s : Sys) (t : ℕ) : Option Sys :=
  match (s.task t).phase with
  | .leaving call (w :: ws) ret =>
    if s.executing t then (s.setPhase t (.leaving call ws ret)).wakeWqTarget (.task t) w else none
  | _ => none

/-- `current_task->state = RUNNING; goto out`. -/
def finish (s : Sys) (t : ℕ) : Option Sys :=
  match (s.task t).phase with
  | .leaving call [] ret =>
    if s.executing t ∧ s.ctx (.task t) = .off then
      some ((s.setState t .running).setPhase t (.cancel call ret))
    else none
  | _ => none

/-- `sched_cancel_spurious_wake`, `remove_wait_queue` and the return. -/
def cancelSpuriousWake (s : Sys) (t : ℕ) : Option Sys :=
  match (s.task t).phase with
  | .cancel call ret =>
    let c := (s.task t).assignedCpu
    if s.executing t ∧ (s.cpu c).lock = none then
      let s := if (s.task t).linked then s.runQueuePop c t else s
      let s := s.setTask t { s.task t with state := .running, phase := .out, ret := some ret }
      if call.hasWq then
        let f := s.file call.file
        some (s.setFile call.file { f with wq := f.wq.erase t })
      else some s
    else none
  | _ => none

end Sys

inductive Act
  | wake (i t : ℕ)
  | wakeStep (x : Ctx)
  | enter (t : ℕ) (call : Call)
  | prepare (t : ℕ)
  | check (t : ℕ) (signal copied : Bool)
  | wakeNext (t : ℕ)
  | finish (t : ℕ)
  | cancel (t : ℕ)
  | schedule (c : ℕ)
  | switchTo (c : ℕ)
  | steal (my v : ℕ)
deriving DecidableEq

def step (s : Sys) : Act → Option Sys
  | .wake i t => s.wakeWqTarget (.irq i) t
  | .wakeStep x => s.wakeStep x
  | .enter t call => s.enter t call
  | .prepare t => s.prepare t
  | .check t signal copied => s.check t signal copied
  | .wakeNext t => s.wakeNext t
  | .finish t => s.finish t
  | .cancel t => s.cancelSpuriousWake t
  | .schedule c => s.schedule c
  | .switchTo c => s.switchTo c
  | .steal my v => s.schedTryStealTask my v

end XosKernel.RunQueue
