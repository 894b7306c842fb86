/-
# Synchronous requests

`sys_req`, `ipc_dequeue` for requests and `sys_resp` of `xcore/ipc.c`, with
`sched_arm_timed_wait` and `wake_from_wait` of `xcore/sched.h`, the timer interrupt and the
delivery of a signal to a thread (`bsd/signal.c`). Every task is client and server, so the
fields of `xtask` are kept apart by what they are for.

A call is cut where another task can get in between: `sys_req` arms its fields, enqueues the
message, waits and returns; `sys_resp` reads the caller, copies the reply and publishes the
result. A message carries the number of its request, a reply the server and the request it
answers. The code has neither; they only record what happened, and no step looks at them.
-/
import XosKernel.Lib.Run
import Mathlib.Data.List.Count

namespace XosKernel.Req

open Function

/-- A `RECV_REQ` message: `src` and the number of the request. -/
structure Msg where
  src : ℕ
  request : ℕ
deriving DecidableEq

/-- One execution of `sys_resp`: by whom, in answer to what, with which bytes and result. -/
structure Reply where
  server : ℕ
  request : ℕ
  bytes : List ℕ
  result : ℤ
deriving DecidableEq

/-- Where a task is inside `sys_req`. -/
inductive Phase
  /-- not in `sys_req` -/
  | idle
  /-- the per-request fields are set -/
  | armed
  /-- the message is in the queue of the target -/
  | sent
  /-- `BLOCKED` with `WAIT_REQ_REPLY` -/
  | blocked
  /-- awake again, before the checks at the end -/
  | ready
deriving DecidableEq

/-- The request fields of a task. -/
structure Client where
  phase : Phase
  /-- `req_target_pid` -/
  target : ℕ
  /-- the number of the last request -/
  request : ℕ
  /-- `req_reply_buf` -/
  buf : ℕ
  replied : Bool
  /-- `req_result` -/
  result : ℤ
  /-- `wait_timed_out` -/
  timedOut : Bool
  /-- `sig_pending`: a signal that is not blocked is pending -/
  sigPending : Bool
  /-- the reply that set `req_replied` -/
  pub : Option Reply
deriving DecidableEq

/-- A call of `sys_resp` between its start and its end. -/
structure Resp where
  /-- the caller as read from `req_caller_pid` -/
  caller : Msg
  bytes : List ℕ
  result : ℤ
  copied : Bool
deriving DecidableEq

def Resp.reply (r : Resp) (server : ℕ) : Reply := ⟨server, r.caller.request, r.bytes, r.result⟩

/-- What `sys_req` returns. -/
inductive Outcome
  | busy
  | timedOut
  | interrupted
  | result (r : ℤ)
deriving DecidableEq

/-- A return from `sys_req`, with the reply that was published to the task and the one whose
bytes are in the reply buffer. -/
structure Return where
  client : ℕ
  target : ℕ
  request : ℕ
  outcome : Outcome
  pub : Option Reply
  seen : Option Reply
deriving DecidableEq

structure Sys where
  client : ℕ → Client
  /-- `recv_buf` from `recv_tail` to `recv_head` -/
  queue : ℕ → List Msg
  /-- `req_caller_pid` -/
  caller : ℕ → Option Msg
  resp : ℕ → Option Resp
  /-- the reply bytes at an address of a task's memory, by the reply they come from -/
  mem : ℕ → ℕ → Option Reply
  next : ℕ
  log : List Return

def Client.init : Client := ⟨.idle, 0, 0, 0, false, 0, false, false, none⟩

def Sys.init : Sys :=
  ⟨fun _ => .init, fun _ => [], fun _ => none, fun _ => none, fun _ _ => none, 0, []⟩

/-- `RECV_QUEUE_SIZE`; one slot stays empty. -/
def recvQueueSize : ℕ := 16

/-- `RECV_MSG_SIZE`, which is also `req_reply_len`. -/
def recvMsgSize : ℕ := 64

/-- The task executes user code: it is in none of the calls. -/
def Sys.Running (s : Sys) (i : ℕ) : Prop := (s.client i).phase = .idle ∧ s.resp i = none
deriving Decidable

def Sys.setClient (s : Sys) (c : ℕ) (x : Client) : Sys :=
  { s with client := update s.client c x }

/-! ## `sys_req` -/

/-- The per-request fields. -/
def reqArm (s : Sys) (c target buf : ℕ) : Option Sys :=
  if s.Running c then
    some
      { s.setClient c { s.client c with
          phase := .armed, target := target, request := s.next, buf := buf, replied := false
          result := 0, timedOut := false, pub := none } with
        next := s.next + 1 }
  else none

/-- The end of `sys_req` with a given outcome. -/
def Sys.finish (s : Sys) (c : ℕ) (outcome : Outcome) : Sys :=
  let x := s.client c
  { s.setClient c { x with phase := .idle } with
    log := ⟨c, x.target, x.request, outcome, x.pub, s.mem c x.buf⟩ :: s.log }

/-- The message goes to the queue of the target unless that is full. -/
def reqEnqueue (s : Sys) (c : ℕ) : Option Sys :=
  let x := s.client c
  if x.phase = .armed then
    if (s.queue x.target).length + 1 ≥ recvQueueSize then some (s.finish c .busy)
    else
      some
        { s.setClient c { x with phase := .sent } with
          queue := update s.queue x.target (s.queue x.target ++ [⟨c, x.request⟩]) }
  else none

/-- `sched_arm_timed_wait`: no sleep if the reply is there already. -/
def reqWait (s : Sys) (c : ℕ) : Option Sys :=
  let x := s.client c
  if x.phase = .sent then
    some (s.setClient c { x with phase := if x.replied then .ready else .blocked })
  else none

/-- The checks after the wait, in the order of the code. -/
def reqReturn (s : Sys) (c : ℕ) : Option Sys :=
  let x := s.client c
  if x.phase = .ready then
    some (s.finish c
      (if x.timedOut then .timedOut
       else if x.sigPending then .interrupted
       else .result x.result))
  else none

/-! ## Wake-ups from outside -/

/-- `wake_from_wait`, if the task waits. -/
def Client.wake (x : Client) : Client :=
  if x.phase = .blocked then { x with phase := .ready, timedOut := false } else x

/-- The five seconds are over. -/
def timeout (s : Sys) (c : ℕ) : Option Sys :=
  let x := s.client c
  if x.phase = .blocked then some (s.setClient c { x with phase := .ready, timedOut := true })
  else none

/-- `deliver_signal_to`: a blocked (`masked`) signal does not count as pending, but the task
is woken all the same. -/
def signal (s : Sys) (c : ℕ) (masked : Bool) : Sys :=
  let x := s.client c
  s.setClient c ({ x with sigPending := x.sigPending || !masked }.wake)

/-- The pending signals are handled on the way to user mode. -/
def handleSignals (s : Sys) (c : ℕ) : Option Sys :=
  if s.Running c then some (s.setClient c { s.client c with sigPending := false }) else none

/-! ## `ipc_dequeue` and `sys_resp` -/

/-- `ipc_dequeue` of a request; with `fault` the copy to the user fails after the message
was taken. -/
def recv (s : Sys) (i : ℕ) (fault : Bool) : Option Sys :=
  if s.Running i then
    match s.queue i with
    | [] => some s
    | m :: rest =>
      let s' := { s with queue := update s.queue i rest }
      if fault then some s'
      else some { s' with caller := update s.caller i (some m) }
  else none

/-- `sys_resp` reads the caller. -/
def respStart (s : Sys) (i : ℕ) (bytes : List ℕ) (result : ℤ) : Option Sys :=
  if s.Running i then
    match s.caller i with
    | none => some s
    | some m =>
      some { s with
        resp := update s.resp i
          (some ⟨m, bytes.take recvMsgSize, result, false⟩) }
  else none

/-- The reply goes to where `req_reply_buf` of the caller points now; a `fault` ends the call
with the caller still recorded. -/
def respCopy (s : Sys) (i : ℕ) (fault : Bool) : Option Sys :=
  match s.resp i with
  | none => none
  | some r =>
    if r.bytes = [] ∨ r.copied then none
    else if fault then some { s with resp := update s.resp i none }
    else
      let c := r.caller.src
      some
        { s with
          mem := update s.mem c
            (update (s.mem c) (s.client c).buf (some (r.reply i)))
          resp := update s.resp i (some { r with copied := true }) }

/-- The result is published and the caller woken, whatever it waits for by now. -/
def respPublish (s : Sys) (i : ℕ) : Option Sys :=
  match s.resp i with
  | none => none
  | some r =>
    if r.bytes = [] ∨ r.copied then
      let c := r.caller.src
      some
        { s.setClient c ({ s.client c with
            result := r.result, replied := true, pub := some (r.reply i) }.wake) with
          resp := update s.resp i none
          caller := update s.caller i none }
    else none

/-! ## The system -/

inductive Act
  | reqArm (c target buf : ℕ)
  | reqEnqueue (c : ℕ)
  | reqWait (c : ℕ)
  | reqReturn (c : ℕ)
  | timeout (c : ℕ)
  | signal (c : ℕ) (masked : Bool)
  | handleSignals (c : ℕ)
  | recv (i : ℕ) (fault : Bool)
  | respStart (i : ℕ) (bytes : List ℕ) (result : ℤ)
  | respCopy (i : ℕ) (fault : Bool)
  | respPublish (i : ℕ)
deriving DecidableEq

def step (s : Sys) : Act → Option Sys
  | .reqArm c target buf => reqArm s c target buf
  | .reqEnqueue c => reqEnqueue s c
  | .reqWait c => reqWait s c
  | .reqReturn c => reqReturn s c
  | .timeout c => timeout s c
  | .signal c masked => some (signal s c masked)
  | .handleSignals c => handleSignals s c
  | .recv i fault => recv s i fault
  | .respStart i bytes result => respStart s i bytes result
  | .respCopy i fault => respCopy s i fault
  | .respPublish i => respPublish s i

end XosKernel.Req
