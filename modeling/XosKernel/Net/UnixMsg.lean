/-
# Messages between unix sockets

`unix_sock_sendmsg`, `unix_dgram_sendto`, `unix_sock_recvmsg`, `unix_dgram_recvmsg`,
`unix_scm_resolve`, `unix_scm_install`, `unix_scm_rollback_control` and the end of `sys_recvmsg`
(`kernel/bsd/socket.c`), for one receiving socket.

The queue holds the buffers that have been sent and not yet been read to their end. A receive goes
through turns: a turn takes from the first buffer what fits into what is left of the iovecs, under
`socket_lock`, and installs the files of a buffer it has finished; with `MSG_WAITALL` the call goes
on with another turn, and between two turns of a call anything can happen. `MSG_PEEK` and
`MSG_TRUNC` are left out.

A file that is sent is a reference, and references are numbered in the order in which they are sent.
-/
import XosKernel.Lib.Scatter
import XosKernel.Net.SendBuf

namespace XosKernel.UnixMsg

open Function List

open SendBuf (Iovec UserMem)
open Scatter (readBack stamp segments advance)

/-- `SCM_MAX_FD`, the length of `sk_buff.files`. -/
def scmMaxFd : ℕ := 8

def maxFd : ℕ := 1024

/-- `sizeof(struct cmsghdr)`, which is `CMSG_LEN(0)`. -/
def cmsgHdrLen : ℕ := 16

def cmsgAlign (len : ℕ) : ℕ := (len + 7) / 8 * 8

/-- `struct sk_buff`; `len` is the length of `data`. -/
structure Skb where
  data : List UInt8
  consumed : ℕ
  files : List ℕ
deriving DecidableEq

inductive Slot
  | free
  /-- A reference that was received. -/
  | ref (k : ℕ)
  | other
deriving DecidableEq

/-- A receive between two turns. `kiov` are the iovecs as far as they are not filled, with their
places in the concatenation of all of them, `nulls` are the indices of those with a `NULL` base,
`cap` is how much they held at first, and `view` is what has been stored there. `ctlSize` is the
size of the user's control buffer (`0` without one), `ctlLen` is `*controllen`, and `ctlFds` are the
descriptors that the kernel's control buffer lists. -/
structure Call where
  kiov : List (ℕ × ℕ)
  nulls : List ℕ
  cap : ℕ
  totalWant : ℕ
  totalFilled : ℕ
  view : List (ℕ × UInt8)
  waitall : Bool
  nonblock : Bool
  ctlSize : ℕ
  ctlLen : ℕ
  ctlFds : List ℕ
deriving DecidableEq

/-- The receiving socket, with the flags of its peer that sends and receives look at.
`peerOpen`: its `peer_sock` is set. `selfOpen`: the `peer_sock` of its peer is set.
`fds` are the descriptors of the receiver, `released` counts how often a reference was given back,
`reported` holds the references that returned control messages list, `next` is the next reference.
`sent` and `received` are the bytes of the sends and receives that succeeded. -/
structure State where
  dgram : Bool
  queue : List Skb
  shutdownRead : Bool
  peerShutdownWrite : Bool
  closed : Bool
  peerOpen : Bool
  selfOpen : Bool
  calls : List Call
  fds : ℕ → Slot
  released : ℕ → ℕ
  reported : List ℕ
  next : ℕ
  sent : List UInt8
  received : List UInt8

/-- One end of a connected pair, or a bound socket for datagrams. -/
def init (dgram : Bool) : State :=
  { dgram := dgram
    queue := []
    shutdownRead := false
    peerShutdownWrite := false
    closed := false
    peerOpen := true
    selfOpen := true
    calls := []
    fds := fun _ => .free
    released := fun _ => 0
    reported := []
    next := 0
    sent := []
    received := [] }

/-! ## Sending -/

/-- What stands at an offset of a control buffer: `cmsg_len`, whether the level and the type are
`SOL_SOCKET` and `SCM_RIGHTS`, and for each of the descriptors whether the sender has it open. -/
structure Cmsg where
  len : ℕ
  rights : Bool
  isOpen : ℕ → Bool

/-- `unix_scm_resolve` from an offset on, with the references taken so far. -/
def scmResolve (cmsg : ℕ → Cmsg) (controllen : ℕ) (offset numFds : ℕ) : Except Errno ℕ :=
  if controllen < offset + cmsgHdrLen then .ok numFds
  else if (cmsg offset).len < cmsgHdrLen ∨ controllen - offset < (cmsg offset).len then
    .error .EINVAL
  else if ¬ (cmsg offset).rights then .error .EINVAL
  else if scmMaxFd < ((cmsg offset).len - cmsgHdrLen) / 4 then .error .EINVAL
  else if ¬ (range (((cmsg offset).len - cmsgHdrLen) / 4)).all (cmsg offset).isOpen then
    .error .EBADF
  -- the last message needs no trailing alignment bytes
  else if controllen - offset < cmsgAlign (cmsg offset).len then
    .ok (numFds + ((cmsg offset).len - cmsgHdrLen) / 4)
  else
    scmResolve cmsg controllen (offset + cmsgAlign (cmsg offset).len)
      (numFds + ((cmsg offset).len - cmsgHdrLen) / 4)
termination_by controllen - offset
decreasing_by
  simp only [cmsgAlign, cmsgHdrLen] at *
  omega

/-- The bytes that an array names. -/
def iovBytes (mem : UserMem) (iov : List Iovec) : List UInt8 :=
  iov.flatMap fun v => (range v.len).map fun j => (mem (v.base + j)).getD 0

/-- A call of `sendmsg`. `alloc`: the allocation of the buffer succeeds. `toPath`: a datagram to a
path, `lookup` being what goes wrong with the search for the receiver. -/
structure Send where
  iov : List Iovec
  mem : UserMem
  alloc : Bool
  cmsg : ℕ → Cmsg
  controllen : ℕ
  nonblock : Bool
  toPath : Bool
  lookup : Option Errno

/-- The checks under `socket_lock`: those of `unix_dgram_sendto` for a datagram to a path, otherwise
those of `unix_sock_sendmsg`. -/
def sendCheck (s : State) (m : Send) : Option Errno :=
  if s.dgram ∧ m.toPath then
    if m.lookup.isSome then m.lookup
    else if s.closed ∨ s.shutdownRead then some .ECONNREFUSED
    else if m.nonblock ∧ 128 < s.queue.length then some .EAGAIN
    else none
  else if s.peerShutdownWrite then some .EPIPE
  else if ¬ s.selfOpen then some (if s.dgram then .ENOTCONN else .EPIPE)
  else if s.shutdownRead then some (if s.dgram then .ECONNREFUSED else .EPIPE)
  else if m.nonblock ∧ 128 < s.queue.length then some .EAGAIN
  else none

/-- What goes wrong with a send after the copy: the control message first, then the socket. -/
def sendPost (s : State) (m : Send) : Option Errno :=
  match scmResolve m.cmsg m.controllen 0 0 with
  | .error e => some e
  | .ok _ => sendCheck s m

def Send.numFds (m : Send) : ℕ := (scmResolve m.cmsg m.controllen 0 0).toOption.getD 0

/-- `skb_enqueue` of a buffer that has been filled. -/
def State.enqueue (s : State) (m : Send) (o : SendBuf.Outcome) : State :=
  { s with
    queue := s.queue ++ [⟨readBack 0 o.len o.stores, 0, (range m.numFds).map (s.next + ·)⟩]
    next := s.next + m.numFds
    sent := s.sent ++ iovBytes m.mem m.iov }

/-- `unix_sock_sendmsg` and `unix_dgram_sendto`. -/
def sendmsg (s : State) (m : Send) : State × Except Errno ℕ :=
  let o := SendBuf.fill m.mem m.iov m.alloc (sendPost s m)
  match o.result with
  | .error e => (s, .error e)
  | .ok total => (s.enqueue m o, .ok total)

/-! ## Files -/

namespace State

/-- `file_put` of references. -/
def release (s : State) (refs : List ℕ) : State :=
  { s with released := fun k => s.released k + refs.count k }

/-- `skb_detach_all_locked` and `skb_free_list`. -/
def dropQueue (s : State) : State := { s.release (s.queue.flatMap Skb.files) with queue := [] }

def freeFds (s : State) : List ℕ := (range maxFd).filter fun fd => s.fds fd = .free

def fdInstall (s : State) (x : ℕ × ℕ) : State :=
  { s with fds := update s.fds x.1 (.ref x.2) }

/-- `fd_uninstall`, and `file_put` of the reference that was there. -/
def fdUninstall (s : State) (fd : ℕ) : State :=
  match s.fds fd with
  | .ref k => { s with fds := update s.fds fd .free }.release [k]
  | _ => { s with fds := update s.fds fd .free }

/-- `unix_scm_install` of at least one reference: the lowest free descriptors are taken, or none. -/
def scmInstall (s : State) (c : Call) (refs : List ℕ) : State × Call × Option Errno :=
  if c.ctlSize = 0 ∨ c.ctlLen < cmsgHdrLen + 4 * refs.length then
    (s.release refs, { c with ctlLen := 0 }, none)
  else if s.freeFds.length < refs.length then
    (s.release refs, { c with ctlLen := 0 }, some .EMFILE)
  else
    (((s.freeFds.take refs.length).zip refs).foldl fdInstall s,
      { c with ctlLen := cmsgHdrLen + 4 * refs.length, ctlFds := s.freeFds.take refs.length }, none)

/-- What becomes of the references of a buffer that has been finished: no more than `SCM_MAX_FD` are
taken over, and then `num_fds` is zero. -/
def takeFiles (s : State) (c : Call) (files : List ℕ) : State × Call × Option Errno :=
  if files = [] then (s, { c with ctlLen := 0 }, none)
  else s.scmInstall c (files.take scmMaxFd)

end State

/-! ## Receiving -/

/-- What only the moment of a turn decides: the peer's task is a zombie; the copy to the `i`-th
iovec fails; how `schedule` returns; and whether the copies of the sender's address, of the control
message and of the flags at the end of `sys_recvmsg` fail. -/
structure Env where
  peerZombie : Bool
  copyFails : ℕ → Bool
  waitTimedOut : Bool
  signalPending : Bool
  nameFails : Bool
  ctlFails : Bool
  flagsFail : Bool

/-- The entry of a receive with iovecs of the given lengths. -/
def Call.start (lens nulls : List ℕ) (waitall nonblock : Bool) (ctlSize : ℕ) : Call :=
  { kiov := segments 0 lens
    nulls := nulls
    cap := lens.sum
    totalWant := u64 lens.sum
    totalFilled := 0
    view := []
    waitall := waitall && !nonblock
    nonblock := nonblock
    ctlSize := ctlSize
    ctlLen := ctlSize
    ctlFds := [] }

/-- The loop that computes `to_read` of a stream, with 32-bit lengths. -/
def toRead : List (ℕ × ℕ) → ℕ → ℕ
  | [], _ => 0
  | (_, l) :: kiov, avail =>
    min (l % 2 ^ 32) avail + toRead kiov (avail - min (l % 2 ^ 32) avail)

/-- `to_read` of a datagram. -/
def dgramToRead (kiov : List (ℕ × ℕ)) (total : ℕ) : ℕ :=
  min (kiov.foldl (fun t x => (t + x.2) % 2 ^ 32) 0) total

/-- The loop that copies to the user from the `i`-th iovec on; `none` if a copy fails. Iovecs with a
`NULL` base are passed over. -/
def scatter (fails : ℕ → Bool) (nulls : List ℕ) :
    ℕ → List (ℕ × ℕ) → List UInt8 → Option (List (ℕ × UInt8))
  | _, _, [] => some []
  | _, [], _ :: _ => some []
  | i, (p, l) :: kiov, b :: bs =>
    if l = 0 ∨ i ∈ nulls then scatter fails nulls (i + 1) kiov (b :: bs)
    else if fails i then none
    else
      (scatter fails nulls (i + 1) kiov ((b :: bs).drop (l % 2 ^ 32))).map
        (stamp p ((b :: bs).take (l % 2 ^ 32)) ++ ·)

/-- How a turn ends: the call goes on, or fails, or returns a count. -/
inductive Turn
  | again (c : Call)
  | fail (e : Errno)
  | ret (c : Call) (n : ℕ)
deriving DecidableEq

/-- An empty queue is the end: for datagrams only `shutdown_read` says so. -/
def atEof (s : State) (env : Env) : Bool :=
  if s.dgram then s.shutdownRead
  else
    s.shutdownRead || s.peerOpen && s.peerShutdownWrite ||
      (s.closed || env.peerZombie) && !s.peerOpen

/-- `total_filled`, or the error if that is zero. -/
def Call.filledOr (c : Call) (e : Errno) : Turn :=
  if 0 < c.totalFilled then .ret c c.totalFilled else .fail e

def emptyTurn (s : State) (c : Call) (env : Env) : Turn :=
  if atEof s env then .ret c c.totalFilled
  else if c.nonblock then c.filledOr .EAGAIN
  else if env.waitTimedOut then c.filledOr .ETIMEDOUT
  else if env.signalPending then c.filledOr .ERESTART
  else .again c

/-- The call after `n` more bytes have been stored. The base of an iovec that has been advanced is
no longer `NULL`. -/
def Call.fill (c : Call) (stores : List (ℕ × UInt8)) (n : ℕ) : Call :=
  { c with
    kiov := advance c.kiov n
    nulls := c.nulls.filter fun i => (advance c.kiov n)[i]? = c.kiov[i]?
    totalFilled := c.totalFilled + n
    view := c.view ++ stores }

/-- The end of a turn that has stored bytes. -/
def Call.more (c : Call) : Turn :=
  if !c.waitall || c.totalWant ≤ c.totalFilled then .ret c c.totalFilled else .again c

/-- How the turn ends after `unix_scm_install`. -/
def Call.after (c : Call) : Option Errno → Turn
  | some e => .fail e
  | none => c.more

/-- A turn of `unix_sock_recvmsg` with a buffer at the head of the queue. -/
def streamTurn (s : State) (c : Call) (env : Env) (skb : Skb) (rest : List Skb) : State × Turn :=
  let n := toRead c.kiov (skb.data.length - skb.consumed)
  match scatter env.copyFails c.nulls 0 c.kiov ((skb.data.drop skb.consumed).take n) with
  | none => (s, .fail .EFAULT)
  | some stores =>
    if skb.data.length ≤ skb.consumed + n then
      let r := { s with queue := rest }.takeFiles (c.fill stores n) skb.files
      (r.1, r.2.1.after r.2.2)
    else
      ({ s with queue := { skb with consumed := skb.consumed + n } :: rest },
        { c.fill stores n with ctlLen := 0 }.more)

/-- A turn of `unix_dgram_recvmsg` with a datagram at the head of the queue. -/
def dgramTurn (s : State) (c : Call) (env : Env) (skb : Skb) (rest : List Skb) : State × Turn :=
  let n := dgramToRead c.kiov skb.data.length
  match scatter env.copyFails c.nulls 0 c.kiov (skb.data.take n) with
  | none => (s, .fail .EFAULT)
  | some stores =>
    let r := { s with queue := rest }.takeFiles (c.fill stores n) skb.files
    match r.2.2 with
    | some e => (r.1, .fail e)
    | none => (r.1, .ret r.2.1 r.2.1.totalFilled)

def recvTurn (s : State) (c : Call) (env : Env) : State × Turn :=
  match s.queue with
  | [] => (s, emptyTurn s c env)
  | skb :: rest => if s.dgram then dgramTurn s c env skb rest else streamTurn s c env skb rest

namespace State

/-- The reference behind a descriptor. -/
def refAt (s : State) (fd : ℕ) : List ℕ :=
  match s.fds fd with
  | .ref k => [k]
  | _ => []

/-- `unix_scm_rollback_control`. -/
def scmRollback (s : State) (c : Call) : State :=
  if c.ctlLen = 0 then s else c.ctlFds.foldl fdUninstall s

/-- The end of `sys_recvmsg` after `unix_sock_recvmsg` or `unix_dgram_recvmsg` has returned a count:
the sender's address of a datagram, then the control message, then the flags. The call reports its
descriptors if all of this succeeds. -/
def publish (s : State) (c : Call) (env : Env) : State :=
  if s.dgram ∧ env.nameFails then s
  else if c.ctlSize ≠ 0 ∧ env.ctlFails then s.scmRollback c
  else if env.flagsFail then s
  else if c.ctlLen = 0 then s
  else { s with reported := s.reported ++ c.ctlFds.flatMap s.refAt }

/-- A receive returns `n`: its bytes are those that stand in the iovecs. -/
def finish (s : State) (c : Call) (env : Env) (n : ℕ) : State :=
  { s with received := s.received ++ readBack 0 n c.view }.publish c env

def settle (s : State) (i : ℕ) (env : Env) : Turn → State
  | .again c => { s with calls := s.calls.set i c }
  | .fail _ => { s with calls := s.calls.eraseIdx i }
  | .ret c n => { s with calls := s.calls.eraseIdx i }.finish c env n

end State

/-! ## Steps -/

inductive Action
  | send (m : Send)
  | recv (lens nulls : List ℕ) (waitall nonblock : Bool) (ctlSize : ℕ)
  | turn (i : ℕ) (env : Env)
  /-- `shutdown(SHUT_RD)` of the socket. -/
  | shutdownRead
  /-- `shutdown(SHUT_WR)` of its peer. -/
  | peerShutdownWrite
  | close
  | peerClose
  | openFd (fd : ℕ)
  /-- It closes a descriptor; one that it received it knows from a control message. -/
  | closeFd (fd : ℕ)

/-- The receiver may close the descriptor. -/
def State.closable (s : State) (fd : ℕ) : Bool :=
  match s.fds fd with
  | .free => false
  | .ref k => k ∈ s.reported
  | .other => true

def step (s : State) : Action → Option State
  | .send m => some (sendmsg s m).1
  | .recv lens nulls waitall nonblock ctlSize =>
    some { s with calls := s.calls ++ [.start lens nulls waitall nonblock ctlSize] }
  | .turn i env =>
    s.calls[i]?.map fun c => (recvTurn s c env).1.settle i env (recvTurn s c env).2
  | .shutdownRead => some { s.dropQueue with shutdownRead := true }
  | .peerShutdownWrite => some { s with peerShutdownWrite := true }
  | .close =>
    some { s.dropQueue with
      shutdownRead := true, closed := true, peerOpen := false, selfOpen := false }
  | .peerClose =>
    some { s with
      shutdownRead := s.shutdownRead || s.selfOpen
      peerShutdownWrite := true, peerOpen := false, selfOpen := false }
  | .openFd fd =>
    if s.fds fd = .free ∧ fd < maxFd then
      some { s with fds := update s.fds fd .other }
    else none
  | .closeFd fd => if s.closable fd ∧ fd < maxFd then some (s.fdUninstall fd) else none

end XosKernel.UnixMsg
