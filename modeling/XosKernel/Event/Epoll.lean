/-
# Event polls

`kernel/bsd/eventpoll.c`: the interest list of an epoll instance, its ready list, the callback that
feeds it and the pass of `sys_epoll_wait` that empties it, with the descriptors and files that the
interests refer to.

Changes of an interest list run under `epoll_ctl_lock` and changes of a ready list under the lock of
the instance, so such a section is one step. `sys_epoll_ctl` looks its descriptors up first and
enters the section later; a call in between is an entry of `pend`, and any of them can go on next.
Files and instances are numbered in the order they are made.
-/
import XosKernel.Event.FilePoll
import XosKernel.Mem.Layout

namespace XosKernel.Epoll

open Function

/-- `epitem`. Its `is_ready` is which of the two lists of `Eventpoll` holds it. -/
structure Item where
  file : ℕ
  owner : ℕ
  fd : ℕ
  events : Poll
  revents : Poll
  isEt : Bool
  isOneshot : Bool
  isDisarmed : Bool
  isExclusive : Bool
deriving DecidableEq

/-- `eventpoll`: the interests on `ready_list`, in its order, and the others. -/
structure Eventpoll where
  ready : List Item
  idle : List Item
deriving DecidableEq

def epMaxItems : ℕ := 128

/-- The mode flags are kept apart from the event mask. -/
def interest (ev : Poll) : Poll := ev &&& ~~~(epollEt ||| epollOneshot ||| epollExclusive)

/-- `!!(ev->events & flag)`. -/
def hasFlag (ev flag : Poll) : Bool := ev &&& flag ≠ 0

/-- What `ep_insert` and `ep_modify` take over from the user's event. -/
def Item.setEvents (it : Item) (ev : Poll) : Item :=
  { it with
    events := interest ev
    isEt := hasFlag ev epollEt
    isOneshot := hasFlag ev epollOneshot
    isDisarmed := false }

namespace Eventpoll

def create : Eventpoll := ⟨[], []⟩

def items (e : Eventpoll) : List Item := e.ready ++ e.idle

/-- `rb_search`: there is at most one interest in a file. -/
def find (e : Eventpoll) (f : ℕ) : Option Item := e.items.find? (·.file = f)

/-- `ep_remove_item`. -/
def removeItem (e : Eventpoll) (f : ℕ) : Eventpoll :=
  ⟨e.ready.filter (·.file ≠ f), e.idle.filter (·.file ≠ f)⟩

def pushReady (e : Eventpoll) (it : Item) : Eventpoll :=
  ⟨(e.removeItem it.file).ready ++ [it], (e.removeItem it.file).idle⟩

/-- Take an interest off the ready list, if it is on it. -/
def putIdle (e : Eventpoll) (it : Item) : Eventpoll :=
  ⟨(e.removeItem it.file).ready, it :: (e.removeItem it.file).idle⟩

def update (e : Eventpoll) (it : Item) : Eventpoll :=
  ⟨e.ready.map fun x => if x.file = it.file then it else x,
    e.idle.map fun x => if x.file = it.file then it else x⟩

def isReady (e : Eventpoll) (f : ℕ) : Bool := e.ready.any (·.file = f)

/-- `ep_poll_callback` of the interest in `f`. -/
def pollCallback (e : Eventpoll) (f : ℕ) (mask : Poll) : Eventpoll :=
  match e.find f with
  | none => e
  | some it =>
    if it.isDisarmed then e
    else if it.isEt then
      -- edge-triggered: only a transition to ready counts
      if e.isReady f then e
      else if mask &&& it.events = 0 then e.update { it with revents := 0 }
      else e.pushReady { it with revents := mask &&& it.events }
    else
      if e.isReady f ∨ mask &&& it.events = 0 then e.update { it with revents :=
        mask &&& it.events }
      else e.pushReady { it with revents := mask &&& it.events }

def modify (e : Eventpoll) (type : FileType) (f : ℕ) (ev : Poll) (p : Probe) :
    Except Errno Eventpoll :=
  match e.find f with
  | none => .error .ENOENT
  | some it =>
    if hasFlag ev epollExclusive ≠ it.isExclusive then .error .EINVAL
    else
      let it := it.setEvents ev
      let revents := filePoll type p it.events
      if revents ≠ 0 ∧ ¬ e.isReady f then .ok (e.pushReady { it with revents := revents })
      else if revents = 0 then .ok (e.putIdle it)
      else .ok (e.update it)

/-- The section of `ep_insert` under the lock of the instance. -/
def insert (e : Eventpoll) (type : FileType) (f owner fd : ℕ) (ev : Poll) (p : Probe) :
    Except Errno Eventpoll :=
  if epMaxItems ≤ e.items.length then .error .ENOMEM
  else if (e.find f).isSome then .error .EEXIST
  else
    let it := Item.setEvents
      { file := f
        owner := owner
        fd := fd
        events := 0
        revents := 0
        isEt := false
        isOneshot := false
        isDisarmed := false
        isExclusive := hasFlag ev epollExclusive } ev
    let revents := filePoll type p it.events
    if revents ≠ 0 then .ok (e.pushReady { it with revents := revents })
    else .ok (e.putIdle it)

end Eventpoll

/-! ## `sys_epoll_wait` -/

/-- One round of the loop of `sys_epoll_wait`: its arguments, the clock at the start of the call and
now, the process alarm, and what only the moment decides: what the poll of a file finds on the
`i`-th turn of the pass, whether the `n`-th `copy_to_user` fails, and how `schedule` returns. -/
structure Wait where
  maxevents : ℤ
  timeoutMs : ℤ
  start : ℕ
  now : ℕ
  alarm : ℕ
  probe : ℕ → ℕ → Probe
  copyFails : ℕ → Bool
  signalPending : Bool
  waitTimedOut : Bool

/-- What a pass leaves: the instance, what it has reported, and whether a `copy_to_user` failed. -/
structure Pass where
  ep : Eventpoll
  out : List (ℕ × Poll)
  fault : Bool
deriving DecidableEq

/-- A ready-list entry is stale when it is level-triggered and its file is not ready any more. -/
def Item.stale (it : Item) (type : ℕ → FileType) (p : Probe) : Bool :=
  !it.isEt && filePoll (type it.file) p it.events == 0

/-- What is reported for an entry that is not stale. -/
def Item.report (it : Item) (type : ℕ → FileType) (p : Probe) : Poll :=
  if it.isEt then it.revents else filePoll (type it.file) p it.events

/-- An entry that has been reported: one that reports only once is disarmed. -/
def Item.reported (it : Item) (type : ℕ → FileType) (p : Probe) : Item :=
  { it with
    revents := it.report type p
    isDisarmed := it.isDisarmed || it.isOneshot }

/-- An entry that has been looked at goes back to the tail, unless it is edge-triggered or reports
only once. -/
def requeue (it : Item) (rest idle : List Item) : Eventpoll :=
  if !it.isEt && !it.isOneshot then ⟨rest ++ [it], idle⟩ else ⟨rest, it :: idle⟩

/-- The loop of the pass, on turn `i`. Every turn takes the head of the list off; `next` has been
read before a level-triggered entry goes back to the tail, so a turn that finds no other entry is
the last one. -/
def reportPass (w : Wait) (type : ℕ → FileType) (passEnd : ℕ) (i : ℕ) (ready idle : List Item)
    (out : List (ℕ × Poll)) : Pass :=
  match ready with
  | [] => ⟨⟨[], idle⟩, out, false⟩
  | it :: rest =>
    if w.maxevents.toNat ≤ out.length then ⟨⟨it :: rest, idle⟩, out, false⟩
    else if it.stale type (w.probe i it.file) then
      -- dropped without a look at `pass_end`
      reportPass w type passEnd (i + 1) rest (it :: idle) out
    else if w.copyFails out.length then
      ⟨requeue { it with revents := it.report type (w.probe i it.file) } rest idle, out, true⟩
    else
      let e := requeue (it.reported type (w.probe i it.file)) rest idle
      let out' := out ++ [(it.file, it.report type (w.probe i it.file))]
      if it.file = passEnd ∨ rest = [] then ⟨e, out', false⟩
      else reportPass w type passEnd (i + 1) e.ready e.idle out'
termination_by w.maxevents.toNat - out.length + ready.length
decreasing_by
  · simp only [List.length_cons]
    omega
  · unfold requeue
    split <;> simp <;> omega

/-- How a round ends: the call returns a number or an error, or it goes on with another round. -/
inductive WaitResult
  | ret (n : ℕ)
  | err (e : Errno)
  | again
deriving DecidableEq

/-- What a round does when nothing is on the ready list. -/
def waitEmpty (w : Wait) : WaitResult :=
  let deadline := if 0 < w.timeoutMs then u64 (w.start + u64 (w.timeoutMs.toNat * 1000000)) else 0
  -- an armed process alarm is the deadline of a wait without one
  let effective := if deadline = 0 ∧ w.alarm ≠ 0 then w.alarm else deadline
  if w.timeoutMs = 0 then .ret 0
  else if 0 < effective ∧ effective ≤ w.now then .ret 0
  else if w.signalPending then .err .ERESTART
  else if w.waitTimedOut ∧ 0 < w.timeoutMs then .ret 0
  else .again

/-- One round of `sys_epoll_wait`: the instance after it, the events it has reported, its result. -/
def epollWait (type : ℕ → FileType) (e : Eventpoll) (w : Wait) :
    Eventpoll × List (ℕ × Poll) × WaitResult :=
  if w.maxevents ≤ 0 ∨ (epMaxItems : ℤ) < w.maxevents then (e, [], .err .EINVAL)
  else
    match e.ready.getLast? with
    | none => (e, [], waitEmpty w)
    | some last =>
      let p := reportPass w type last.file 0 e.ready e.idle []
      (p.ep, p.out, if p.fault then .err .EFAULT else .ret p.out.length)

/-! ## Descriptors, files and `sys_epoll_ctl` -/

/-- `EPOLL_CTL_ADD`, `EPOLL_CTL_DEL`, `EPOLL_CTL_MOD` and the other values of `op`. -/
inductive CtlOp
  | add
  | del
  | mod
  | invalid
deriving DecidableEq

/-- What is left of `sys_epoll_ctl` once the descriptors have been looked up. -/
inductive CtlReq
  | add (f owner fd : ℕ) (ev : Poll)
  | mod (f : ℕ) (ev : Poll)
  | del (f : ℕ)
  /-- `ep_remove_fd`, for a descriptor that is closed. -/
  | delFd (owner fd : ℕ)
deriving DecidableEq

/-- A call of `sys_epoll_ctl` that has not entered the section yet: it holds references on the
file `ef` of the instance and on its target. -/
structure Ctl where
  ef : ℕ
  ep : ℕ
  req : CtlReq
deriving DecidableEq

/-- The files a waiting call holds a reference on. -/
def Ctl.holds (c : Ctl) (f : ℕ) : Bool :=
  c.ef == f || match c.req with
    | .add g _ _ _ | .mod g _ | .del g => g == f
    | .delFd _ _ => false

/-- `fdTable` is the descriptor table of each process and `fdRefs` counts the descriptors of a file
(`file.fd_refs`). -/
structure State where
  ep : ℕ → Eventpoll
  neps : ℕ
  type : ℕ → FileType
  nfiles : ℕ
  fdTable : ℕ → ℕ → Option ℕ
  fdRefs : ℕ → ℕ
  pend : List Ctl

def init : State :=
  { ep := fun _ => .create
    neps := 0
    type := fun _ => .other
    nfiles := 0
    fdTable := fun _ _ => none
    fdRefs := fun _ => 0
    pend := [] }

namespace State

def setEp (s : State) (e : ℕ) (x : Eventpoll) : State := { s with ep := update s.ep e x }

def fdInstall (s : State) (owner fd f : ℕ) : State :=
  { s with
    fdTable := update s.fdTable owner (update (s.fdTable owner) fd (some f))
    fdRefs := update s.fdRefs f (s.fdRefs f + 1) }

def fdUninstall (s : State) (owner fd f : ℕ) : State :=
  { s with
    fdTable := update s.fdTable owner (update (s.fdTable owner) fd none)
    fdRefs := update s.fdRefs f (s.fdRefs f - 1) }

/-- A new file of the given type behind a free descriptor. -/
def openFile (s : State) (owner fd : ℕ) (type : FileType) : State :=
  { s.fdInstall owner fd s.nfiles with
    type := update s.type s.nfiles type
    nfiles := s.nfiles + 1 }

/-- `sys_epoll_create1`. -/
def epollCreate (s : State) (owner fd : ℕ) : State :=
  { s.openFile owner fd (.epoll s.neps) with
    ep := update s.ep s.neps .create
    neps := s.neps + 1 }

/-- `ep_graph_reaches` and `ep_tree_reaches`: the first argument is what is left of the depth, and
a search that gets to the end of it counts as successful. -/
def graphReaches (s : State) (target : ℕ) : ℕ → ℕ → Bool
  | 0, _ => true
  | depth + 1, src =>
    src == target || (s.ep src).items.any fun it =>
      match s.type it.file with
      | .epoll e => graphReaches s target depth e
      | _ => false

/-- The depth at which `ep_graph_reaches` gives up. -/
def maxDepth : ℕ := 4

/-- The lookups of `sys_epoll_ctl`; `ev` is what `copy_from_user` brings, if it does not fail. -/
def epollCtl (s : State) (owner epfd : ℕ) (op : CtlOp) (fd : ℕ) (ev : Option Poll) :
    Except Errno Ctl :=
  match s.fdTable owner epfd with
  | none => .error .EBADF
  | some ef =>
    match s.type ef with
    | .epoll e =>
      match s.fdTable owner fd with
      | none => if op = .del then .ok ⟨ef, e, .delFd owner fd⟩ else .error .EBADF
      | some f =>
        if ef = f then .error .EINVAL
        else
          match op, ev with
          | .del, _ => .ok ⟨ef, e, .del f⟩
          | _, none => .error .EFAULT
          | .add, some ev => .ok ⟨ef, e, .add f owner fd ev⟩
          | .mod, some ev => .ok ⟨ef, e, .mod f ev⟩
          | .invalid, some _ => .error .EINVAL
    | _ => .error .EBADF

/-- `ep_insert`; `mem` is whether its `kmalloc` succeeds. -/
def epInsert (s : State) (e f owner fd : ℕ) (ev : Poll) (p : Probe) (mem : Bool) :
    Except Errno State :=
  if ¬ mem then .error .ENOMEM
  else if (match s.type f with
      | .epoll b => s.graphReaches e maxDepth b
      | _ => false) then .error .ELOOP
  else if s.fdRefs f = 0 then .error .EBADF
  else ((s.ep e).insert (s.type f) f owner fd ev p).map (s.setEp e)

/-- The interest that `ep_find_fd_node` finds. -/
def findFd (s : State) (e owner fd : ℕ) : Option Item :=
  (s.ep e).items.find? fun it => it.owner = owner ∧ it.fd = fd

/-- The section of `sys_epoll_ctl` under `epoll_ctl_lock`. -/
def ctlSection (s : State) (c : Ctl) (p : Probe) (mem : Bool) : Except Errno State :=
  match c.req with
  | .add f owner fd ev => s.epInsert c.ep f owner fd ev p mem
  | .mod f ev => ((s.ep c.ep).modify (s.type f) f ev p).map (s.setEp c.ep)
  | .del f =>
    if ((s.ep c.ep).find f).isSome then .ok (s.setEp c.ep ((s.ep c.ep).removeItem f))
    else .error .ENOENT
  | .delFd owner fd =>
    match s.findFd c.ep owner fd with
    | none => .error .EBADF
    | some it => .ok (s.setEp c.ep ((s.ep c.ep).removeItem it.file))

/-- Nothing refers to the file: no descriptor, no call and no interest. -/
def unused (s : State) (f : ℕ) : Bool :=
  s.fdRefs f = 0 ∧ s.pend.all (fun c => !c.holds f) ∧
    (List.range s.neps).all fun e => ((s.ep e).find f).isNone

end State

inductive Action
  | epollCreate (owner fd : ℕ)
  | openFile (owner fd : ℕ) (type : FileType)
  /-- Another descriptor of the same file: `dup`, `fork`, a passed descriptor. -/
  | dup (owner fd owner' fd' : ℕ)
  | close (owner fd : ℕ)
  | ctl (owner epfd : ℕ) (op : CtlOp) (fd : ℕ) (ev : Option Poll)
  /-- The `i`-th waiting call of `sys_epoll_ctl` goes through its section and returns. -/
  | ctlSection (i : ℕ) (p : Probe) (mem : Bool)
  /-- A turn of `eventpoll_file_release`, for the interest of `e` in a file without descriptors. -/
  | fileRelease (f e : ℕ)
  /-- A turn of `eventpoll_release`, for the instance of a file that nothing refers to. -/
  | release (ef f : ℕ)
  /-- A wake-up of the wait queue of `f` reaches the interest of `e`. -/
  | pollCallback (e f : ℕ) (mask : Poll)
  | wait (e : ℕ) (w : Wait)

def step (s : State) : Action → Option State
  | .epollCreate owner fd =>
    if s.fdTable owner fd = none then some (s.epollCreate owner fd) else none
  | .openFile owner fd type =>
    match type, s.fdTable owner fd with
    | .epoll _, _ | _, some _ => none
    | type, none => some (s.openFile owner fd type)
  | .dup owner fd owner' fd' =>
    match s.fdTable owner fd with
    | none => none
    | some f => if s.fdTable owner' fd' = none then some (s.fdInstall owner' fd' f) else none
  | .close owner fd => (s.fdTable owner fd).map (s.fdUninstall owner fd)
  | .ctl owner epfd op fd ev =>
    match s.epollCtl owner epfd op fd ev with
    | .error _ => some s
    | .ok c => some { s with pend := s.pend ++ [c] }
  | .ctlSection i p mem =>
    match s.pend[i]? with
    | none => none
    | some c =>
      match s.ctlSection c p mem with
      | .error _ => some { s with pend := s.pend.eraseIdx i }
      | .ok t => some { t with pend := t.pend.eraseIdx i }
  | .fileRelease f e =>
    if s.fdRefs f = 0 then some (s.setEp e ((s.ep e).removeItem f)) else none
  | .release ef f =>
    match s.type ef with
    | .epoll e => if s.unused ef then some (s.setEp e ((s.ep e).removeItem f)) else none
    | _ => none
  | .pollCallback e f mask => some (s.setEp e ((s.ep e).pollCallback f mask))
  | .wait e w => some (s.setEp e (epollWait s.type (s.ep e) w).1)

end XosKernel.Epoll
