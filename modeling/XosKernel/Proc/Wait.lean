/-
# Exit and wait

`do_exit_with_code`, `child_matches` and `sys_waitpid_rusage` with `sys_wait4`
(`bsd/syscall.c`), and what `sys_clone` (`bsd/proc.c`) does to the process tree. A process is
a thread group: its threads share one `signal_struct`, which holds the pid of the parent and
the number of threads.

The calls are cut at the points where the locks are released. An exit re-parents the
children, then reads the parent and counts itself out, then becomes a zombie, then wakes the
parent; what it still has to do as a zombie uses its local variables only, so a wake-up in
flight is an entry of its own. A wait scans, claims a zombie, or scans again under its own
scheduler lock and blocks. A stopped or continued child (`do_stop` and `do_cont` of
`bsd/signal.c`) is reported without being reaped, and after the locks are released.
-/
import XosKernel.Lib.Run
import XosKernel.Mem.Layout
import Mathlib.Data.List.Count

namespace XosKernel.Wait

def maxProc : ℕ := 1024

def initPid : ℕ := 2

inductive State
  /-- `READY` or `RUNNING` -/
  | ready
  /-- `BLOCKED` with `WAIT_CHILD` -/
  | blocked
  | stopped
  | zombie
  | reaping
deriving DecidableEq

/-- Where a task is inside `do_exit_with_code`. -/
inductive Exit
  | none
  /-- the children are re-parented -/
  | started
  /-- `ppid` and `notify_parent` are read and the thread is counted out -/
  | counted (ppid : ℕ) (notify : Bool)
deriving DecidableEq

/-- Where a task is inside `sys_waitpid_rusage`. -/
inductive Phase
  /-- `pid <= 0`: before the scan -/
  | scan
  /-- `pid <= 0`: a zombie was found -/
  | claim (z : ℕ)
  /-- a stopped child was found, or a continued one -/
  | report (z : ℕ) (cont : Bool)
  /-- `pid > 0`: before the check of the relationship -/
  | validate
  /-- `pid > 0`: at the top of the loop -/
  | check
  /-- `pid > 0`: after a wake-up -/
  | recheck
  /-- before the scan that decides to block -/
  | prepare
deriving DecidableEq

/-- The arguments of a wait. -/
structure Args where
  pid : ℤ
  /-- the options have no unknown bit -/
  known : Bool := true
  nohang : Bool := false
  untraced : Bool := false
  continued : Bool := false
  /-- the status pointer is not a user address -/
  badStatus : Bool := false
  /-- the usage cannot be copied out (`wait4`) -/
  badRusage : Bool := false
deriving DecidableEq

/-- A wait and how far it is. -/
structure Call extends Args where
  phase : Phase
deriving DecidableEq

structure Task where
  pid : ℕ
  tgid : ℕ
  /-- its `signal_struct` -/
  sig : ℕ
  pgid : ℕ
  /-- `exit_signal` -/
  esig : ℕ
  /-- the number of the task among all tasks ever created; pids are used again -/
  born : ℕ
  exitCode : ℕ
  stopReported : Bool
  contPending : Bool
  state : State
  exit : Exit
  wait : Option Call
deriving DecidableEq

structure Sig where
  parentPid : ℕ
  threadCount : ℤ
  /-- `SIGCHLD` is ignored or has `SA_NOCLDWAIT` -/
  nocldwait : Bool
deriving DecidableEq

/-- A wake-up on its way to a parent. -/
structure Notify where
  ppid : ℕ
  leader : Bool
deriving DecidableEq

/-- A child that a wait took out of the waitable ones. -/
structure Claim where
  pid : ℕ
  born : ℕ
  status : ℕ
  leader : Bool
  /-- every thread of its group has exited -/
  exited : Bool
deriving DecidableEq

inductive Outcome
  | terminated (pid : ℕ)
  /-- the pid of a child that has stopped or goes on, by its status -/
  | changed (pid : ℕ)
  /-- `0`, with `WNOHANG` -/
  | nothing
  | error (e : Errno)
deriving DecidableEq

/-- A return from a wait, and the child it had claimed by then. -/
structure Return where
  caller : ℕ
  outcome : Outcome
  claimed : Option Claim
deriving DecidableEq

structure Sys where
  /-- the used slots of the task table -/
  tasks : List Task
  sigs : ℕ → Sig
  nextSig : ℕ
  nextBorn : ℕ
  notifies : List Notify
  log : List Return

/-- `init` alone. -/
def Sys.init : Sys where
  tasks := [⟨initPid, initPid, 0, initPid, 0, 0, 0, false, false, .ready, .none, none⟩]
  sigs := fun _ => ⟨0, 1, false⟩
  nextSig := 1
  nextBorn := 1
  notifies := []
  log := []

/-! ## The task table -/

def Sys.task? (s : Sys) (pid : ℕ) : Option Task := s.tasks.find? fun t => t.pid = pid

def Sys.setTask (s : Sys) (t t' : Task) : Sys := { s with tasks := t' :: s.tasks.erase t }

def Sys.dropTask (s : Sys) (t : Task) : Sys := { s with tasks := s.tasks.erase t }

def Sys.setSig (s : Sys) (g : ℕ) (x : Sig) : Sys := { s with sigs := Function.update s.sigs g x }

/-- The task executes user code. -/
def Task.running (t : Task) : Bool := t.state = .ready && t.exit = .none && t.wait = none

def Task.leader (t : Task) : Bool := t.tgid = t.pid

def Task.exited (t : Task) : Bool := t.state = .zombie || t.state = .reaping

/-! ## `sys_clone` -/

/-- What a new task shares: everything (`CLONE_THREAD`), the `signal_struct` only
(`CLONE_SIGHAND`), or neither; then its parent is the caller's with `CLONE_PARENT`. -/
inductive Kind
  | thread
  | sighand
  | process (sibling : Bool)
deriving DecidableEq

/-- A new thread of the caller's group. -/
def Task.thread (t : Task) (pid born : ℕ) : Task :=
  ⟨pid, t.tgid, t.sig, 0, 0, born, 0, false, false, .ready, .none, none⟩

/-- The leader of a new group. -/
def Task.child (t : Task) (pid sig esig born : ℕ) : Task :=
  ⟨pid, pid, sig, t.pgid, esig, born, 0, false, false, .ready, .none, none⟩

def Sys.enter (s : Sys) (x : Task) : Sys :=
  { s with tasks := x :: s.tasks, nextBorn := s.nextBorn + 1 }

/-- A new task in a free slot. Only `CLONE_THREAD` counts it in. -/
def clone (s : Sys) (p pid : ℕ) (kind : Kind) (esig : ℕ) : Option Sys :=
  match s.task? p with
  | none => none
  | some t =>
    if t.running && decide (pid < maxProc) && (s.task? pid).isNone then
      let x := s.sigs t.sig
      match kind with
      | .thread =>
        some ((s.setSig t.sig { x with threadCount := x.threadCount + 1 }).enter
          (t.thread pid s.nextBorn))
      | .sighand => some (s.enter (t.child pid t.sig esig s.nextBorn))
      | .process sibling =>
        some
          { (s.setSig s.nextSig ⟨if sibling then x.parentPid else p, 1, x.nocldwait⟩).enter
              (t.child pid s.nextSig esig s.nextBorn) with
            nextSig := s.nextSig + 1 }
    else none

/-- `sigaction` for `SIGCHLD`. -/
def setNocldwait (s : Sys) (p : ℕ) (ignored : Bool) : Option Sys :=
  match s.task? p with
  | none => none
  | some t =>
    if t.running then some (s.setSig t.sig { s.sigs t.sig with nocldwait := ignored }) else none

/-! ## Stops -/

/-- The task stops on its way to user code. What its parent hears of it is a `wakeBySignal`. -/
def doStop (s : Sys) (p sig : ℕ) : Option Sys :=
  match s.task? p with
  | none => none
  | some t =>
    if t.running then
      some (s.setTask t
        { t with exitCode := sig * 256 + 0x7f, stopReported := false, state := .stopped })
    else none

/-- `SIGCONT` reaches a stopped task, or `SIGKILL`, which only lets it run (`wake_stopped`). -/
def doCont (s : Sys) (p : ℕ) (kill : Bool) : Option Sys :=
  match s.task? p with
  | none => none
  | some t =>
    if t.state = .stopped then
      some (s.setTask t (if kill then { t with state := .ready }
        else { t with exitCode := 0, stopReported := false, contPending := true, state := .ready }))
    else none

/-! ## `do_exit_with_code` -/

/-- Steps 1 to 3: the exit code, and the children go to `init`. -/
def exitStart (s : Sys) (p code : ℕ) : Option Sys :=
  match s.task? p with
  | none => none
  | some t =>
    if t.running then
      some
        { s.setTask t { t with exitCode := code, exit := .started } with
          sigs := fun g =>
            if (s.sigs g).parentPid = p ∧ ∃ u ∈ s.tasks, u.sig = g then
              { s.sigs g with parentPid := initPid }
            else s.sigs g }
    else none

/-- Step 5: the parent is read and the thread counted out; the child of a parent that does not
want zombies goes to `init`. -/
def exitCount (s : Sys) (p : ℕ) : Option Sys :=
  match s.task? p with
  | none => none
  | some t =>
    if t.exit = .started then
      let x := s.sigs t.sig
      let notify := decide (x.threadCount - 1 = 0)
      let autoReap := notify &&
        (match s.task? x.parentPid with
         | none => false
         | some q => (s.sigs q.sig).nocldwait)
      let ppid := if autoReap then initPid else x.parentPid
      some ((s.setSig t.sig { x with parentPid := ppid, threadCount := x.threadCount - 1 }).setTask
        t { t with exit := .counted ppid notify })
    else none

/-- Step 6, and what is left of step 7. -/
def exitZombie (s : Sys) (p : ℕ) : Option Sys :=
  match s.task? p with
  | none => none
  | some t =>
    match t.exit with
    | .counted ppid notify =>
      if t.state = .ready then
        some
          { s.setTask t { t with state := .zombie } with
            notifies :=
              if notify && (t.leader || decide (t.esig ≠ 0)) then ⟨ppid, t.leader⟩ :: s.notifies
              else s.notifies }
      else none
    | _ => none

/-- Step 7: the exit of a leader wakes the parent if that waits for a child. -/
def deliver (s : Sys) (n : Notify) : Option Sys :=
  if n ∈ s.notifies then
    let s' := { s with notifies := s.notifies.erase n }
    match s.task? n.ppid with
    | none => some s'
    | some q =>
      if n.leader && decide (q.state = .blocked) then some (s'.setTask q { q with state := .ready })
      else some s'
  else none

/-! ## `sys_waitpid_rusage` -/

def Sys.childMatches (s : Sys) (t : Task) (pid : ℤ) (w : Task) : Bool :=
  decide ((s.sigs t.sig).parentPid = w.pid) &&
    (if pid = -1 then true
     else if pid = 0 then decide (t.pgid = w.pgid)
     else if pid < -1 then decide ((t.pgid : ℤ) = -pid)
     else decide ((t.pid : ℤ) = pid))

/-- The call returns without having claimed a child. -/
def Sys.finish (s : Sys) (w : Task) (o : Outcome) : Sys :=
  { s.setTask w { w with wait := none } with log := ⟨w.pid, o, none⟩ :: s.log }

/-- The call goes on. -/
def Sys.goto (s : Sys) (w : Task) (a : Args) (ph : Phase) : Sys :=
  s.setTask w { w with wait := some ⟨a, ph⟩ }

/-- The call sleeps. -/
def Sys.block (s : Sys) (w : Task) (a : Args) (ph : Phase) : Sys :=
  s.setTask w { w with state := .blocked, wait := some ⟨a, ph⟩ }

def Sys.claimOf (s : Sys) (z : Task) : Claim :=
  ⟨z.pid, z.born, z.exitCode, z.leader, s.tasks.all fun u => u.sig ≠ z.sig || u.exited⟩

/-- From the moment the zombie is marked `REAPING`. With `pid > 0` a bad status pointer ends
the call there; otherwise the child is reaped, and only then the usage copied out. -/
def Sys.reap (s : Sys) (w : Task) (c : Call) (z : Task) : Sys :=
  let s' := s.setTask w { w with wait := none }
  if 0 < c.pid ∧ c.badStatus then
    { s'.setTask z { z with state := .reaping } with
      log := ⟨w.pid, .error .EFAULT, some (s.claimOf z)⟩ :: s.log }
  else
    { s'.dropTask z with
      log := ⟨w.pid, if c.badRusage then .error .EFAULT else .terminated z.pid,
        some (s.claimOf z)⟩ :: s.log }

def waitStart (s : Sys) (p : ℕ) (a : Args) : Option Sys :=
  match s.task? p with
  | none => none
  | some w =>
    if w.running then
      if !a.known then some (s.finish w (.error .EINVAL))
      else if a.pid ≤ 0 then some (s.goto w a .scan)
      else if a.pid ≥ maxProc then some (s.finish w (.error .EINVAL))
      else some (s.goto w a .validate)
    else none

def Sys.hasChildren (s : Sys) (w : Task) (c : Call) : Bool :=
  s.tasks.any fun t => s.childMatches t c.pid w

def Task.changed (t : Task) (a : Args) (cont : Bool) : Bool :=
  if cont then a.continued && t.contPending
  else a.untraced && decide (t.state = .stopped) && !t.stopReported

/-- What a scan comes up with. -/
inductive Found
  | zombie (z : ℕ)
  | changed (z : ℕ) (cont : Bool)
  | nothing
deriving DecidableEq

/-- A scan has this outcome. The code takes children in the order of their slots, which is left
open here. -/
def Sys.Scans (s : Sys) (w : Task) (c : Call) : Found → Prop
  | .zombie z => ∃ t ∈ s.tasks, t.pid = z ∧ s.childMatches t c.pid w = true ∧ t.state = .zombie
  | .changed z cont =>
    ∃ t ∈ s.tasks, t.pid = z ∧ s.childMatches t c.pid w = true ∧ t.changed c.toArgs cont = true
  | .nothing => ∀ t ∈ s.tasks, s.childMatches t c.pid w = true → t.state ≠ .zombie ∧
    ∀ cont, t.changed c.toArgs cont = false

instance (s : Sys) (w : Task) (c : Call) (found : Found) : Decidable (s.Scans w c found) :=
  match found with
  | .zombie _ | .changed .. => inferInstanceAs (Decidable (∃ t ∈ s.tasks, _ ∧ _))
  | .nothing => inferInstanceAs (Decidable (∀ t ∈ s.tasks, _ → _ ∧ _))

/-- The task and its call, if the call is in the given phase and the task is not asleep. -/
def Sys.inPhase (s : Sys) (p : ℕ) (ph : Phase) : Option (Task × Call) :=
  match s.task? p with
  | none => none
  | some w =>
    match w.wait with
    | none => none
    | some c => if w.state = .ready ∧ c.phase = ph then some (w, c) else none

/-- `pid <= 0`: the scan at the top of the loop. -/
def waitScan (s : Sys) (p : ℕ) (found : Found) : Option Sys :=
  (s.inPhase p .scan).bind fun (w, c) =>
    if s.Scans w c found then
      if !s.hasChildren w c then some (s.finish w (.error .ECHILD))
      else
        match found with
        | .zombie z => some (s.goto w c.toArgs (.claim z))
        | .changed z cont => some (s.goto w c.toArgs (.report z cont))
        | .nothing =>
          if c.nohang then some (s.finish w .nothing) else some (s.goto w c.toArgs .prepare)
    else none

/-- `pid > 0`: the child is found stopped or continued. -/
def waitChanged (s : Sys) (p : ℕ) (cont : Bool) : Option Sys :=
  (s.inPhase p .check).bind fun (w, c) =>
    match s.task? c.pid.toNat with
    | none => none
    | some t =>
      if t.changed c.toArgs cont then some (s.goto w c.toArgs (.report t.pid cont)) else none

/-- `waitpid_report_stopped` and `waitpid_report_continued`. No lock is held: the status is what
the child has by now, and tells the caller whether it has terminated. A child that is gone is
freed memory. -/
def waitReport (s : Sys) (p z : ℕ) (cont : Bool) : Option Sys :=
  (s.inPhase p (.report z cont)).bind fun (w, c) =>
    match s.task? z with
    | none => none
    | some t =>
      if if cont then t.contPending else !t.stopReported then
        some
          { (s.setTask w { w with wait := none }).setTask t
              (if cont then { t with contPending := false } else { t with stopReported :=
              true }) with
            log := ⟨w.pid, if cont || t.exitCode % 128 = 0x7f then .changed z else .terminated z,
              none⟩ :: s.log }
      else some (s.goto w c.toArgs (if c.pid ≤ 0 then .scan else .check))

/-- `pid <= 0`: the zombie is claimed if it still is one. -/
def waitClaim (s : Sys) (p z : ℕ) : Option Sys :=
  (s.inPhase p (.claim z)).bind fun (w, c) =>
    match s.task? z with
    | none => some (s.goto w c.toArgs .scan)
    | some t => if t.state = .zombie then some (s.reap w c t) else some (s.goto w c.toArgs .scan)

/-- The second look before blocking; `interrupted` if a signal other than `SIGCHLD` is
pending (for `pid <= 0` this is looked at after the scan). -/
def waitBlock (s : Sys) (p : ℕ) (found : Found) (interrupted : Bool) : Option Sys :=
  (s.inPhase p .prepare).bind fun (w, c) =>
    if c.pid ≤ 0 then
      if s.Scans w c found then
        if !s.hasChildren w c then some (s.finish w (.error .ECHILD))
        else
          match found with
          | .zombie _ => some (s.goto w c.toArgs .scan)
          | .changed z cont => some (s.goto w c.toArgs (.report z cont))
          | .nothing =>
            if interrupted then some (s.finish w (.error .EINTR)) else some
              (s.block w c.toArgs .scan)
      else none
    else
      match s.task? c.pid.toNat with
      | none => some (s.block w c.toArgs .recheck)
      | some t =>
        if t.state = .zombie then some (s.reap w c t) else some (s.block w c.toArgs .recheck)

/-- `pid > 0`: the child must be one of the caller's. -/
def waitValidate (s : Sys) (p : ℕ) : Option Sys :=
  (s.inPhase p .validate).bind fun (w, c) =>
    match s.task? c.pid.toNat with
    | none => some (s.finish w (.error .ECHILD))
    | some t =>
      if s.childMatches t c.pid w then some (s.goto w c.toArgs .check)
      else some (s.finish w (.error .ECHILD))

/-- `pid > 0`: the top of the loop. -/
def waitCheck (s : Sys) (p : ℕ) (interrupted : Bool) : Option Sys :=
  (s.inPhase p .check).bind fun (w, c) =>
    let rest :=
      if c.nohang then s.finish w .nothing
      else if interrupted then s.finish w (.error .EINTR)
      else s.goto w c.toArgs .prepare
    match s.task? c.pid.toNat with
    | none => some rest
    | some t => if t.state = .zombie then some (s.reap w c t) else some rest

/-- `pid > 0`: after a wake-up. -/
def waitRecheck (s : Sys) (p : ℕ) : Option Sys :=
  (s.inPhase p .recheck).bind fun (w, c) =>
    match s.task? c.pid.toNat with
    | none => some (s.finish w (.error .ECHILD))
    | some _ => some (s.goto w c.toArgs .check)

def wakeBySignal (s : Sys) (p : ℕ) : Option Sys :=
  match s.task? p with
  | none => none
  | some w => if w.state = .blocked then some (s.setTask w { w with state := .ready }) else none

/-! ## The system -/

inductive Act
  | clone (p pid : ℕ) (kind : Kind) (esig : ℕ)
  | setNocldwait (p : ℕ) (ignored : Bool)
  | doStop (p sig : ℕ)
  | doCont (p : ℕ) (kill : Bool)
  | exitStart (p code : ℕ)
  | exitCount (p : ℕ)
  | exitZombie (p : ℕ)
  | deliver (n : Notify)
  | waitStart (p : ℕ) (a : Args)
  | waitScan (p : ℕ) (found : Found)
  | waitChanged (p : ℕ) (cont : Bool)
  | waitReport (p z : ℕ) (cont : Bool)
  | waitClaim (p z : ℕ)
  | waitBlock (p : ℕ) (found : Found) (interrupted : Bool)
  | waitValidate (p : ℕ)
  | waitCheck (p : ℕ) (interrupted : Bool)
  | waitRecheck (p : ℕ)
  | wakeBySignal (p : ℕ)
deriving DecidableEq

def step (s : Sys) : Act → Option Sys
  | .clone p pid kind esig => clone s p pid kind esig
  | .setNocldwait p ignored => setNocldwait s p ignored
  | .doStop p sig => doStop s p sig
  | .doCont p kill => doCont s p kill
  | .exitStart p code => exitStart s p code
  | .exitCount p => exitCount s p
  | .exitZombie p => exitZombie s p
  | .deliver n => deliver s n
  | .waitStart p a => waitStart s p a
  | .waitScan p found => waitScan s p found
  | .waitChanged p cont => waitChanged s p cont
  | .waitReport p z cont => waitReport s p z cont
  | .waitClaim p z => waitClaim s p z
  | .waitBlock p found interrupted => waitBlock s p found interrupted
  | .waitValidate p => waitValidate s p
  | .waitCheck p interrupted => waitCheck s p interrupted
  | .waitRecheck p => waitRecheck s p
  | .wakeBySignal p => wakeBySignal s p

/-- Nothing is stopped, and a `signal_struct` is shared by threads only. -/
def Plain : Act → Prop
  | .clone _ _ kind _ => kind ≠ .sighand
  | .doStop .. | .doCont .. | .waitReport .. => False
  | _ => True

instance : (a : Act) → Decidable (Plain a) := by
  rintro ⟨⟩ <;> unfold Plain <;> infer_instance

end XosKernel.Wait
