/-
# Pipes

`sys_read` and `sys_write` on a pipe (`kernel/bsd/syscall.c`), one task on each end, with
`pipe_prepare_wait`, the wake-ups of `kernel/xcore/sched.h`, the delivery of signals
(`kernel/bsd/signal.c`) and the last `file_put` of an end (`kernel/bsd/proc.c`,
`wake_pipe_peers` of `kernel/bsd/pty.h`).

The ring has no lock: a call is cut at every access to it, and the two calls, the senders of
signals, the timer and the closing of a file interleave at those points. A section under the
`scheduler_lock` of a task is one step. The arguments of the calls are those that have passed the
checks of the buffer's address.
-/
import XosKernel.Mem.Layout

namespace XosKernel.Pipes

open Errno Function

/-- The two ends of a pipe, and the task that uses each. -/
inductive Side
  | reader
  | writer
deriving DecidableEq

def Side.peer : Side → Side
  | .reader => .writer
  | .writer => .reader

/-- `struct pipe`; `wq` lists the tasks whose node hangs on `p->wq`. -/
structure Pipe where
  buf : ℕ → ℕ
  size : ℕ
  head : ℕ
  tail : ℕ
  pCount : ℕ
  wq : List Side

/-- `PIPE_BUF_SIZE`, the size of a new pipe. -/
def pipeBufSize : ℕ := 4096

def oRdonly : ℕ := 0

def oWronly : ℕ := 1

def oRdwr : ℕ := 2

def oNonblock : ℕ := 0o4000

def sigkill : ℕ := 9

def sigpipe : ℕ := 13

def sigalrm : ℕ := 14

def sigstop : ℕ := 19

/-- The scheduling states that occur here. -/
inductive State
  | running
  | ready
  | blocked
deriving DecidableEq

inductive Ret
  | bytes (n : ℕ)
  | error (e : Errno)
deriving DecidableEq

/-- Where a call goes on after `sched_cancel_spurious_wake` and `remove_wait_queue`: to its outer
loop, out of the inner loop only (which repeats the two calls), or to `out`. -/
inductive After
  | again
  | brk
  | out (ret : Ret)
deriving DecidableEq

/-- The point a task has reached in its call; `out` is outside of both calls. -/
inductive Phase
  | out
  /-- The head of the outer loop. -/
  | top
  /-- The reader's test of `p_count`. -/
  | count
  /-- The writer's test for a full ring. -/
  | full
  /-- The test of `O_NONBLOCK` and `add_wait_queue`. -/
  | hang
  /-- Before `pipe_prepare_wait`. -/
  | prepare
  /-- In `schedule()`. -/
  | asleep
  /-- Before the test of `signal_pending`. -/
  | check
  | settle (after : After)
  /-- Before one byte is moved. -/
  | move
  /-- Before `__wake_up`. -/
  | wake
  /-- Before `file_put(f)`. -/
  | put (ret : Ret)
deriving DecidableEq

/-- A task. `moved` is `written` or `nread`, `bytes` the user buffer of `len` bytes; `sigPending`
are the signals of `sig_pending` and `shared_pending`. -/
structure Task where
  state : State
  phase : Phase
  len : ℕ
  moved : ℕ
  bytes : List ℕ
  waitDeadline : ℕ
  waitTimedOut : Bool
  sigPending : Finset ℕ
  sigBlocked : Finset ℕ
  ret : Ret

/-- How far the last `file_put` of an end has come: `wake_pipe_peers` first, then the decrement of
`p_count`. -/
inductive Release
  | opened
  | waking
  | dropping
  | closed
deriving DecidableEq

structure File where
  nonblock : Bool
  fCount : ℕ
  release : Release

/-- A sender of a signal that has made it pending but has not yet come to the wake-up; `shared` for
`deliver_signal_to_process`, else `deliver_signal_to`. -/
structure Sender where
  sig : ℕ
  shared : Bool
deriving DecidableEq

/-- The pipe, its two tasks and files, and the senders of signals to each task. -/
structure Sys where
  pipe : Pipe
  task : Side → Task
  file : Side → File
  sending : Side → List Sender

/-- A task outside of the calls. -/
def Task.idle : Task :=
  { state := .running
    phase := .out
    len := 0
    moved := 0
    bytes := []
    waitDeadline := 0
    waitTimedOut := false
    sigPending := ∅
    sigBlocked := ∅
    ret := .bytes 0 }

/-- A new pipe whose ring has `size` cells. -/
def Sys.init (size : ℕ) : Sys :=
  { pipe := { buf := fun _ => 0, size := size, head := 0, tail := 0, pCount := 2, wq := [] }
    task := fun _ => Task.idle
    file := fun _ => { nonblock := false, fCount := 1, release := .opened }
    sending := fun _ => [] }

/-- `f->flags`: the access mode of the end and `O_NONBLOCK`. -/
def File.flags (f : File) : Side → ℕ
  | .reader => oRdonly ||| if f.nonblock then oNonblock else 0
  | .writer => oWronly ||| if f.nonblock then oNonblock else 0

/-- The signals that `recalc_sigpending` counts. -/
def Task.deliverable (c : Task) : Finset ℕ :=
  c.sigPending.filter fun sig => sig ∉ c.sigBlocked ∨ sig = sigkill ∨ sig = sigstop

def Task.signalPending (c : Task) : Prop := c.deliverable.Nonempty

instance (c : Task) : Decidable c.signalPending := by
  unfold Task.signalPending
  infer_instance

def Sys.setTask (s : Sys) (t : Side) (c : Task) : Sys :=
  { s with task := update s.task t c }

def Sys.setFile (s : Sys) (t : Side) (f : File) : Sys :=
  { s with file := update s.file t f }

def Sys.setSending (s : Sys) (t : Side) (l : List Sender) : Sys :=
  { s with sending := update s.sending t l }

def Sys.goto (s : Sys) (t : Side) (phase : Phase) : Sys :=
  s.setTask t { s.task t with phase := phase }

/-- `wake_from_wait` (the run queue is implied by `READY`). -/
def Task.wakeFromWait (c : Task) : Task :=
  { c with
    state := .ready
    waitDeadline := 0
    waitTimedOut := false }

/-- `wake_wq_target` and `wake_process_any`. -/
def Sys.wakeWqTarget (s : Sys) (t : Side) : Sys :=
  if (s.task t).state = .blocked then s.setTask t (s.task t).wakeFromWait else s

def Sys.wakeUp (s : Sys) : Sys := s.pipe.wq.foldl Sys.wakeWqTarget s

/-- The readiness test of `pipe_prepare_wait`. -/
def Pipe.ready (p : Pipe) : Side → Prop
  | .writer => (p.head + 1) % p.size ≠ p.tail ∨ p.pCount ≤ 1
  | .reader => p.head ≠ p.tail ∨ p.pCount = 1

instance (p : Pipe) (t : Side) : Decidable (p.ready t) := by
  cases t <;> unfold Pipe.ready <;> infer_instance

/-- `pipe_prepare_wait`, with the alarm deadline that the caller has read. -/
def Sys.pipePrepareWait (s : Sys) (t : Side) (alarmDl : ℕ) : Sys :=
  if s.pipe.ready t then
    s.setTask t { s.task t with
      state := .running
      waitDeadline := 0
      waitTimedOut := false
      phase := .settle .again }
  else
    s.setTask t { s.task t with
      state := .blocked
      waitDeadline := alarmDl
      phase := .asleep }

/-- The task's node is put on `p->wq`. -/
def Sys.addWaitQueue (s : Sys) (t : Side) : Sys :=
  { s with pipe := { s.pipe with wq := s.pipe.wq ++ [t] } }

/-- The task's node is taken off `p->wq`. -/
def Sys.removeWaitQueue (s : Sys) (t : Side) : Sys :=
  { s with pipe := { s.pipe with wq := s.pipe.wq.erase t } }

/-- The point a call goes on at. -/
def After.next : After → Phase
  | .again => .top
  | .brk => .settle .again
  | .out ret => .put ret

/-- `sched_cancel_spurious_wake` and `remove_wait_queue`. -/
def Sys.settle (s : Sys) (t : Side) (after : After) : Sys :=
  (s.removeWaitQueue t).setTask t { s.task t with
    state := .running
    waitTimedOut := false
    phase := after.next }

/-- One byte from the ring to the reader's buffer. -/
def Sys.take (s : Sys) : Sys :=
  { s with pipe := { s.pipe with tail := (s.pipe.tail + 1) % s.pipe.size } }.setTask .reader
    { s.task .reader with
      bytes := (s.task .reader).bytes ++ [s.pipe.buf s.pipe.tail]
      moved := (s.task .reader).moved + 1 }

/-- One byte from the writer's buffer to the ring. -/
def Sys.give (s : Sys) : Sys :=
  { s with
    pipe := { s.pipe with
      buf := update s.pipe.buf s.pipe.head
        ((s.task .writer).bytes.getD (s.task .writer).moved 0)
      head := (s.pipe.head + 1) % s.pipe.size } }.setTask .writer
    { s.task .writer with
      moved := (s.task .writer).moved + 1
      phase := .top }

/-- `file_put` drops one reference; the last one starts the release of the file. -/
def File.put (f : File) : File :=
  { f with
    fCount := f.fCount - 1
    release := if f.fCount - 1 = 0 then .waking else f.release }

/-- `out: file_put(f); return ret`. -/
def Sys.leave (s : Sys) (t : Side) (ret : Ret) : Sys :=
  (s.setFile t (s.file t).put).setTask t { s.task t with
    phase := .out
    ret := ret }

/-- The test of `O_NONBLOCK` and `add_wait_queue`; `stop` is where a non-blocking call goes. -/
def Sys.hang (s : Sys) (t : Side) (stop : Phase) : Sys :=
  if (s.file t).nonblock then s.goto t stop else (s.addWaitQueue t).goto t .prepare

/-- The next access of `sys_read`. -/
def sysRead (s : Sys) : Option Sys :=
  match (s.task .reader).phase with
  | .top => some (s.goto .reader (if s.pipe.head = s.pipe.tail then .count else .move))
  | .count => some (s.goto .reader (if s.pipe.pCount = 1 then .put (.bytes 0) else .hang))
  | .hang => some (s.hang .reader (.put (.error EAGAIN)))
  | .check =>
    some (s.goto .reader
      (if (s.task .reader).signalPending then .settle (.out (.error ERESTART)) else .prepare))
  | .settle after => some (s.settle .reader after)
  | .move =>
    if (s.task .reader).moved < (s.task .reader).len ∧ s.pipe.head ≠ s.pipe.tail then some s.take
    else some (s.goto .reader .wake)
  | .wake => some (s.wakeUp.goto .reader (.put (.bytes (s.task .reader).moved)))
  | .put ret => some (s.leave .reader ret)
  | _ => none

/-- `deliver_signal_to(current_task, SIGPIPE)`: the task is `RUNNING`, so nothing is woken. -/
def Task.sigpipe (c : Task) : Task :=
  { c with sigPending := insert Pipes.sigpipe c.sigPending }

/-- The head of the writer's loop. -/
def Sys.writeTop (s : Sys) : Sys :=
  if (s.task .writer).moved < (s.task .writer).len then
    if s.pipe.pCount ≤ 1 then
      if 0 < (s.task .writer).moved then s.goto .writer .wake
      else s.setTask .writer { (s.task .writer).sigpipe with phase := .put (.error EPIPE) }
    else s.goto .writer .full
  else s.goto .writer .wake

/-- Where a signal takes a writer: `break` leaves only the inner loop. -/
def Sys.interrupted (s : Sys) : Phase :=
  if 0 < (s.task .writer).moved then .settle .brk else .settle (.out (.error ERESTART))

/-- The next access of `sys_write`. -/
def sysWrite (s : Sys) : Option Sys :=
  match (s.task .writer).phase with
  | .top => some s.writeTop
  | .full =>
    some (s.goto .writer (if (s.pipe.head + 1) % s.pipe.size = s.pipe.tail then .hang else .move))
  | .hang =>
    some (s.hang .writer (if 0 < (s.task .writer).moved then .wake else .put (.error EAGAIN)))
  | .check =>
    some (s.goto .writer (if (s.task .writer).signalPending then s.interrupted else .prepare))
  | .settle after => some (s.settle .writer after)
  | .move => some s.give
  | .wake => some (s.wakeUp.goto .writer (.put (.bytes (s.task .writer).moved)))
  | .put ret => some (s.leave .writer ret)
  | _ => none

/-- The next access of a task's call. -/
def Sys.advance (s : Sys) : Side → Option Sys
  | .reader => sysRead s
  | .writer => sysWrite s

/-- A call is entered: the file is found through a descriptor and referenced. -/
def Sys.enter (s : Sys) (t : Side) (len : ℕ) (bytes : List ℕ) : Sys :=
  (s.setFile t { s.file t with fCount := (s.file t).fCount + 1 }).setTask t { s.task t with
    phase := .top
    len := len
    moved := 0
    bytes := bytes }

/-- A signal is made pending. -/
def Sys.pend (s : Sys) (t : Side) (sig : ℕ) : Sys :=
  s.setTask t { s.task t with sigPending := insert sig (s.task t).sigPending }

def Task.forceSig (c : Task) (sig : ℕ) : Task :=
  { c with
    sigPending := insert sig c.sigPending
    sigBlocked := c.sigBlocked.erase sig }

/-- The timer takes a `BLOCKED` task off its queue; `alarm` when the process alarm is due. -/
def Task.expire (c : Task) (alarm : Bool) : Task :=
  let woken := { c with
    state := .ready
    waitTimedOut := true
    waitDeadline := 0 }
  if alarm then woken.forceSig sigalrm else woken

def Sender.wakes (x : Sender) (c : Task) : Prop := x.shared = false ∨ x.sig ∉ c.sigBlocked

instance (x : Sender) (c : Task) : Decidable (x.wakes c) :=
  inferInstanceAs (Decidable (_ ∨ _))

/-- The wake-up of `deliver_signal_to` or `deliver_signal_to_process`. -/
def Sys.signalWake (s : Sys) (t : Side) (x : Sender) : Sys :=
  let s' := s.setSending t ((s.sending t).erase x)
  if x.wakes (s.task t) then s'.wakeWqTarget t else s'

def Sys.wakePipePeers (s : Sys) (fdFlags : ℕ) : Sys :=
  let s' := if fdFlags &&& (oWronly ||| oRdwr) ≠ 0 then s.wakeUp else s
  if fdFlags &&& (oRdonly ||| oRdwr) ≠ 0 then s'.wakeUp else s'

def Sys.dropCount (s : Sys) : Sys :=
  { s with pipe := { s.pipe with pCount := s.pipe.pCount - 1 } }

inductive Act
  | read (len : ℕ)
  /-- The writer calls `sys_write`. -/
  | write (data : List ℕ)
  /-- The next access of the task's call. -/
  | advance (t : Side)
  /-- `pipe_prepare_wait`. -/
  | prepare (t : Side) (alarmDl : ℕ)
  /-- `schedule()` returns. -/
  | resume (t : Side)
  /-- The timer finds the task's deadline expired. -/
  | timer (t : Side) (alarm : Bool)
  /-- The tick finds the alarm of a running task due. -/
  | alarm (t : Side)
  /-- A sender makes a signal pending. -/
  | post (t : Side) (x : Sender)
  /-- A signal is made pending and the task is not woken: the signal of a child that exits, stops or
  goes on, or one to the process when the task is not its leader. -/
  | notify (t : Side) (sig : ℕ)
  /-- The sender goes on to its wake-up. -/
  | signalWake (t : Side) (x : Sender)
  /-- A signal is taken on the way to user mode. -/
  | handle (t : Side) (sig : ℕ)
  /-- The task sets its signal mask. -/
  | sigprocmask (t : Side) (mask : Finset ℕ)
  /-- `fcntl(F_SETFL)`. -/
  | setfl (t : Side) (nonblock : Bool)
  /-- Another descriptor for the end. -/
  | dup (t : Side)
  /-- A descriptor of the end is closed. -/
  | close (t : Side)
  /-- The last `file_put` calls `wake_pipe_peers`. -/
  | wakePeers (t : Side)
  /-- The last `file_put` drops `p_count`. -/
  | drop (t : Side)
deriving DecidableEq

/-- The references on the file that the task's own call holds. -/
def Task.holds (c : Task) : ℕ := if c.phase = .out then 0 else 1

def step (s : Sys) : Act → Option Sys
  | .read len =>
    if (s.task .reader).phase = .out ∧ 0 < (s.file .reader).fCount then
      some (s.enter .reader len [])
    else none
  | .write data =>
    if (s.task .writer).phase = .out ∧ 0 < (s.file .writer).fCount then
      some (s.enter .writer data.length data)
    else none
  | .advance t => s.advance t
  | .prepare t alarmDl =>
    if (s.task t).phase = .prepare then some (s.pipePrepareWait t alarmDl) else none
  | .resume t =>
    if (s.task t).phase = .asleep ∧ (s.task t).state = .ready then
      some (s.setTask t { s.task t with
        state := .running
        phase := .check })
    else none
  | .timer t alarm =>
    if (s.task t).state = .blocked ∧ (s.task t).waitDeadline ≠ 0 then
      some (s.setTask t ((s.task t).expire alarm))
    else none
  | .alarm t =>
    if (s.task t).state = .running then some (s.setTask t ((s.task t).forceSig sigalrm)) else none
  | .post t x => some ((s.setSending t (x :: s.sending t)).pend t x.sig)
  | .notify t sig => some (s.pend t sig)
  | .signalWake t x => if x ∈ s.sending t then some (s.signalWake t x) else none
  | .handle t sig =>
    if (s.task t).phase = .out then
      some (s.setTask t { s.task t with sigPending := (s.task t).sigPending.erase sig })
    else none
  | .sigprocmask t mask =>
    if (s.task t).phase = .out then
      some (s.setTask t { s.task t with sigBlocked := (mask.erase sigkill).erase sigstop })
    else none
  | .setfl t nonblock => some (s.setFile t { s.file t with nonblock := nonblock })
  | .dup t =>
    if 0 < (s.file t).fCount then
      some (s.setFile t { s.file t with fCount := (s.file t).fCount + 1 })
    else none
  | .close t =>
    if (s.task t).holds < (s.file t).fCount then some (s.setFile t (s.file t).put) else none
  | .wakePeers t =>
    if (s.file t).release = .waking then
      some ((s.wakePipePeers ((s.file t).flags t)).setFile t
        { s.file t with release := .dropping })
    else none
  | .drop t =>
    if (s.file t).release = .dropping then
      some (s.dropCount.setFile t { s.file t with release := .closed })
    else none

end XosKernel.Pipes
