/-
# Unix-domain sockets and their peers

`sys_socket`, `sys_socketpair`, `sys_bind`, `sys_listen`, `sys_connect`, `do_accept` and the
closing of a socket (`kernel/bsd/socket.c`), with the reference counts of `unix_sock` and of the
files that own one.

Everything that touches `peer_sock` runs under `socket_lock`, so a section under that lock is one
step. A call that has left such a section and has not reached the next one is a continuation in
`pend`; any number of tasks can be between sections, and any continuation can go on next. A
socket is named by its address: `sock a` is `none` when no socket is allocated there, and a new
socket may take any such address. Message queues, credentials and wake-ups are left out.
-/
import XosKernel.Mem.Layout

namespace XosKernel.UnixSock

inductive SockState
  | free
  | listen
  | connected
  | closed
  | dgramBound
deriving DecidableEq

/-- `SOCK_STREAM` and `SOCK_DGRAM`. -/
inductive SockType
  | stream
  | dgram
deriving DecidableEq

/-- `struct unix_sock`. `backlog` lists the connections that `backlog_head` leads to. -/
structure Sock where
  state : SockState
  type : SockType
  peerSock : Option ℕ
  uCount : ℕ
  backlog : List ℕ
  backlogLen : ℕ
  backlogMax : ℕ
  shutdownRead : Bool
  shutdownWrite : Bool
  sunPath : Option ℕ
  bindInProgress : Bool
deriving DecidableEq

def unixMaxBacklog : ℤ := 8

def Sock.alloc (type : SockType) : Sock :=
  { state := .free
    type := type
    peerSock := none
    uCount := 1
    backlog := []
    backlogLen := 0
    backlogMax := 0
    shutdownRead := false
    shutdownWrite := false
    sunPath := none
    bindInProgress := false }

def Sock.paired (type : SockType) (peer : ℕ) : Sock :=
  { Sock.alloc type with
    state := .connected
    peerSock := some peer }

/-- A call between two sections. -/
inductive Cont
  /-- `unix_bind_register` walks the file system. -/
  | bind (a path : ℕ)
  /-- `sys_connect` before `unix_bind_lookup`. -/
  | lookup (a path : ℕ)
  /-- `sys_connect` with a reference on the listener. -/
  | connect (a listener : ℕ)
  /-- `sys_connect` of a datagram socket, with a reference on the target. -/
  | connectDgram (a target : ℕ)
  /-- The loop of `do_accept`. -/
  | accept (a : ℕ)
  /-- `do_accept` with a connection taken off the backlog. -/
  | accepted (a child : ℕ)
  /-- A call before its `file_put`. -/
  | put (a : ℕ)
  /-- `unix_sock_close`, called by the last `file_put`. -/
  | close (a : ℕ)
  /-- `unix_sock_release`. -/
  | release (a : ℕ)
  /-- `unix_sock_free`. -/
  | free (a : ℕ)
deriving DecidableEq

/-- The call holds a reference on the file of the socket. -/
def Cont.holds (a : ℕ) : Cont → Bool
  | .bind b _ | .lookup b _ | .connect b _ | .connectDgram b _ | .accept b | .accepted b _
  | .put b => b = a
  | _ => false

/-- The call holds a reference on the socket itself. -/
def Cont.refs (a : ℕ) : Cont → Bool
  | .connect _ b | .connectDgram _ b | .release b => b = a
  | _ => false

/-- All sockets, the counts of the files that own one, the names that are bound, and the calls
between two sections. -/
structure Sys where
  sock : ℕ → Option Sock
  fCount : ℕ → ℕ
  names : List (ℕ × ℕ)
  pend : List Cont

def Sys.init : Sys :=
  { sock := fun _ => none
    fCount := fun _ => 0
    names := []
    pend := [] }

def Sys.peerOf (s : Sys) (a : ℕ) : Option ℕ := (s.sock a).bind Sock.peerSock

/-- The references on the socket at an address; freed memory keeps its count of 0. -/
def Sys.uc (s : Sys) (a : ℕ) : ℕ := (s.sock a).elim 0 Sock.uCount

/-- The connections that wait at a socket. -/
def Sys.bl (s : Sys) (a : ℕ) : List ℕ := (s.sock a).elim [] Sock.backlog

def Sys.holds (s : Sys) (a : ℕ) : ℕ := s.pend.countP (Cont.holds a)

def Sys.setSock (s : Sys) (a : ℕ) (k : Option Sock) : Sys :=
  { s with sock := Function.update s.sock a k }

/-- A write to the socket at an address. -/
def Sys.modify (s : Sys) (a : ℕ) (f : Sock → Sock) : Sys := s.setSock a ((s.sock a).map f)

def Sys.setFCount (s : Sys) (a n : ℕ) : Sys :=
  { s with fCount := Function.update s.fCount a n }

def Sys.push (s : Sys) (c : Cont) : Sys := { s with pend := c :: s.pend }

def Sys.fileGet (s : Sys) (a : ℕ) : Sys := s.setFCount a (s.fCount a + 1)

/-- `file_put`; the last one goes on to `unix_sock_close`. -/
def Sys.filePut (s : Sys) (a : ℕ) : Sys :=
  if s.fCount a - 1 = 0 then (s.setFCount a 0).push (.close a)
  else s.setFCount a (s.fCount a - 1)

/-- `unix_sock_get_locked`, with the `unix_sock_release` that gives the reference back. -/
def Sys.borrow (s : Sys) (b : ℕ) : Sys :=
  if 0 < s.uc b then (s.modify b fun k => { k with uCount := k.uCount + 1 }).push (.release b)
  else s

def Sock.detached (k : Sock) : Sock := { k with peerSock := none }

/-- The writes of `unix_sock_close` to the peer. -/
def Sock.abandoned (k : Sock) : Sock := { k.detached with shutdownRead := true }

/-- The writes to a connection that was never accepted. -/
def Sock.givenUp (k : Sock) : Sock := { k.detached with state := .closed }

/-- The writes of `unix_sock_close` to the socket itself. -/
def Sock.shut (k : Sock) : Sock :=
  { k with
    shutdownRead := true
    shutdownWrite := true
    state := .closed }

def Sys.unixSockClose (s : Sys) (a : ℕ) : Sys :=
  let s1 := s.modify a Sock.shut
  match s.peerOf a with
  | none => s1.push (.release a)
  | some b =>
    let s2 := (s1.modify b Sock.abandoned).modify a Sock.detached
    (s2.push (.release a)).borrow b

def Sock.setBacklog (rest : List ℕ) (k : Sock) : Sock := { k with backlog := rest }

/-- One turn of `unix_sock_free`: the next connection of the backlog is given up, or the memory is
freed. -/
def Sys.unixSockFree (s : Sys) (a : ℕ) : Sys :=
  match s.bl a with
  | [] => s.setSock a none
  | bp :: rest =>
    let s1 := (s.modify a (Sock.setBacklog rest)).push (.free a)
    match s.peerOf bp with
    | none => (s1.modify bp Sock.givenUp).push (.release bp)
    | some b =>
      (((s1.modify b Sock.detached).modify bp Sock.givenUp).push (.release bp)).borrow b

/-- `unix_sock_release`, with `unix_bind_unregister` when it is the last. -/
def Sys.unixSockRelease (s : Sys) (a : ℕ) : Sys :=
  let s1 := s.modify a fun k => { k with uCount := k.uCount - 1 }
  if s.uc a - 1 = 0 then
    { s1.push (.free a) with
      names := s.names.filter fun e =>
        ¬ (e.2 = a ∧ some e.1 = (s.sock a).bind Sock.sunPath) }
  else s1

/-- `listener->state == UNIX_LISTEN` and room in its backlog. -/
def Sys.Accepts (s : Sys) (l : ℕ) : Prop :=
  (s.sock l).any (fun k => k.state = .listen ∧ k.backlogLen < k.backlogMax) = true
deriving Decidable

/-- The client's writes for a connection. -/
def Sock.connectTo (child : ℕ) (k : Sock) : Sock :=
  { k with
    state := .connected
    peerSock := some child }

/-- The listener with a connection at the end of its backlog. -/
def Sock.enqueued (child : ℕ) (k : Sock) : Sock :=
  { k with
    backlog := k.backlog ++ [child]
    backlogLen := k.backlogLen + 1 }

/-- The connection that `sys_connect` makes: a new socket for the listener's side, peer of the
client, at the end of the backlog. -/
def Sys.link (s : Sys) (a l child : ℕ) : Sys :=
  ((s.setSock child (some (Sock.paired .stream a))).modify a (Sock.connectTo child)).modify l
    (Sock.enqueued child)

/-- The writes of a successful `unix_bind_register`. -/
def Sock.bound (path : ℕ) (k : Sock) : Sock :=
  { k with
    sunPath := some path
    state := if k.type = .dgram then .dgramBound else k.state
    bindInProgress := false }

/-- The second section of `unix_bind_register`; `ok` when the name could be made. -/
def Sys.bindCommit (s : Sys) (a path : ℕ) (ok : Bool) : Sys :=
  if (s.sock a).any (fun k => k.state = .free ∧ k.bindInProgress) ∧ ok then
    { s.modify a (Sock.bound path) with names := (path, a) :: s.names }
  else s.modify a fun k => { k with bindInProgress := false }

/-- `unix_bind_lookup`: the listener that a name leads to. -/
def Sys.unixBindLookup (s : Sys) (path : ℕ) : Option ℕ :=
  (s.names.lookup path).filter fun l =>
    (s.sock l).any fun k => k.state = .listen ∧ 0 < k.uCount

def Sys.unixBindLookupDgram (s : Sys) (path : ℕ) : Option ℕ :=
  (s.names.lookup path).filter fun t =>
    (s.sock t).any fun k =>
      k.type = .dgram ∧ (k.state = .dgramBound ∨ k.state = .connected) ∧ 0 < k.uCount

def Sock.addRef (k : Sock) : Sock := { k with uCount := k.uCount + 1 }

def Sys.connectLookup (s : Sys) (a path : ℕ) : Sys :=
  if (s.sock a).any fun k => k.type = .dgram then
    match s.unixBindLookupDgram path with
    | none => s.push (.put a)
    | some t => (s.modify t Sock.addRef).push (.connectDgram a t)
  else
    match s.unixBindLookup path with
    | none => s.push (.put a)
    | some l => (s.modify l Sock.addRef).push (.connect a l)

/-- The section of `sys_connect` that makes the connection; `child` is what `kmalloc` returns. -/
def Sys.connectLink (s : Sys) (a l : ℕ) (child : Option ℕ) : Option Sys :=
  let refused := (s.push (.put a)).push (.release l)
  match child with
  | none => some refused
  | some child =>
    if s.Accepts l then
      if s.sock child = none then some (((s.link a l child).push (.put a)).push (.release l))
      else none
    else some refused

/-- The section of `sys_connect` for datagram sockets. -/
def Sys.connectDgram (s : Sys) (a t : ℕ) : Sys :=
  let s1 := if (s.sock a).any (fun k => k.state = .closed) ∨
      (s.sock t).any (fun k => k.state = .closed) then s
    else s.modify a fun k => { k with state := .connected }
  (s1.push (.put a)).push (.release t)

/-- The listener after the first connection of its backlog is taken. -/
def Sock.dequeued (rest : List ℕ) (k : Sock) : Sock :=
  { k with
    backlog := rest
    backlogLen := k.backlogLen - 1 }

/-- The listener after a connection is put back. -/
def Sock.requeued (child : ℕ) (k : Sock) : Sock :=
  { k with
    backlog := child :: k.backlog
    backlogLen := k.backlogLen + 1 }

/-- A turn of the loop of `do_accept`; with nothing to accept it gives up (`stop`) or waits. -/
def Sys.acceptTurn (s : Sys) (a : ℕ) (stop : Bool) : Sys :=
  if (s.sock a).any fun k => k.state = .listen then
    match s.bl a with
    | [] => s.push (if stop then .put a else .accept a)
    | child :: rest =>
      (s.modify a (Sock.dequeued rest)).push (.accepted a child)
  else s.push (.put a)

/-- `do_accept` gives the connection a file, or puts it back when it gets none. -/
def Sys.acceptFinish (s : Sys) (a child : ℕ) (ok : Bool) : Sys :=
  if ok then
    ((s.modify child fun k => { k with state := .connected }).setFCount child 1).push (.put a)
  else
    (s.modify a (Sock.requeued child)).push (.put a)

/-- The next section of a call; `o` is what the code cannot decide by itself: the address that
`kmalloc` returns, or whether a name, a descriptor or a file could be had. -/
def Sys.resume (s : Sys) : Cont → Option ℕ → Option Sys
  | .bind a path, o => some ((s.bindCommit a path o.isSome).push (.put a))
  | .lookup a path, _ => some (s.connectLookup a path)
  | .connect a l, o => s.connectLink a l o
  | .connectDgram a t, _ => some (s.connectDgram a t)
  | .accept a, o => some (s.acceptTurn a o.isSome)
  | .accepted a child, o => some (s.acceptFinish a child o.isSome)
  | .put a, _ => some (s.filePut a)
  | .close a, _ => some (s.unixSockClose a)
  | .release a, _ => some (s.unixSockRelease a)
  | .free a, _ => some (s.unixSockFree a)

inductive Act
  | socket (a : ℕ) (type : SockType)
  | socketpair (a b : ℕ) (type : SockType)
  | listen (a : ℕ) (backlog : ℤ)
  | bind (a path : ℕ)
  | connect (a path : ℕ)
  | accept (a : ℕ)
  /-- Another descriptor or a message in flight refers to the file. -/
  | dup (a : ℕ)
  /-- A descriptor is closed, or a message with the file is freed. -/
  | close (a : ℕ)
  /-- A message is sent: the peer is referenced until its reader is woken. -/
  | send (a : ℕ)
  /-- A call that is under way comes to its next section. -/
  | go (c : Cont) (o : Option ℕ)
deriving DecidableEq

/-- The clamp of `sys_listen`. -/
def listenBacklog (backlog : ℤ) : ℕ :=
  (if backlog ≤ 0 then 1 else if unixMaxBacklog < backlog then unixMaxBacklog else backlog).toNat

/-- A descriptor refers to the file of the socket: not all its references are those of calls. -/
def Sys.HasFd (s : Sys) (a : ℕ) : Prop := s.holds a < s.fCount a
deriving Decidable

def step (s : Sys) : Act → Option Sys
  | .socket a type =>
    if s.sock a = none then some ((s.setSock a (some (Sock.alloc type))).setFCount a 1) else none
  | .socketpair a b type =>
    if s.sock a = none ∧ s.sock b = none ∧ a ≠ b then
      some ((((s.setSock a (some (Sock.paired type b))).setSock b
        (some (Sock.paired type a))).setFCount a 1).setFCount b 1)
    else none
  | .listen a backlog =>
    if s.HasFd a then
      some (s.modify a fun k =>
        { k with
          state := .listen
          backlogMax := listenBacklog backlog })
    else none
  | .bind a path =>
    if s.HasFd a then
      if (s.sock a).any fun k => k.state = .free ∧ ¬ k.bindInProgress then
        some (((s.modify a fun k => { k with bindInProgress := true }).fileGet a).push
          (.bind a path))
      else some s
    else none
  | .connect a path =>
    if s.HasFd a then some ((s.fileGet a).push (.lookup a path)) else none
  | .accept a => if s.HasFd a then some ((s.fileGet a).push (.accept a)) else none
  | .dup a => if s.HasFd a then some (s.fileGet a) else none
  | .close a => if s.HasFd a then some (s.filePut a) else none
  | .send a => if s.HasFd a then some ((s.peerOf a).elim s s.borrow) else none
  | .go c o => if c ∈ s.pend then Sys.resume { s with pend := s.pend.erase c } c o else none

end XosKernel.UnixSock
