/-
# Readiness of a file

`file_poll` (`kernel/bsd/file_poll.c`) and the poll callbacks it calls: `evdev_consumer_poll`,
`pty_poll`, `serial_dev_poll`, `random_dev_poll`, `drm_minor_poll_file`, `netpkt_poll` and
`inotify_poll`. What such a function finds out about the file (that its queue is not empty, that
there is room, that the peer is gone) can change at any time on another processor, so it is a
parameter, `Probe`; what is modelled is how each type of file answers a request for `events`.
-/
import Mathlib.Tactic

namespace XosKernel.Epoll

open BitVec

/-- `__poll`, a 32-bit mask of events. -/
abbrev Poll := BitVec 32

def pollIn : Poll := 0x001

def pollOut : Poll := 0x004

def pollErr : Poll := 0x008

def pollHup : Poll := 0x010

def epollRdnorm : Poll := 0x040

def epollExclusive : Poll := 0x10000000

def epollOneshot : Poll := 0x40000000

def epollEt : Poll := 0x80000000

/-- Every event of `a` is one of `b`. -/
def Poll.Within (a b : Poll) : Prop := a &&& ~~~b = 0
deriving Decidable

/-- The type of a file, as far as its poll function depends on it: `f_op` with and without a poll
callback, the `FD_*` constants, and for `FD_DEV` the device. -/
inductive FileType
  | opsNoPoll
  | evdevConsumer
  | pipe
  | socket
  | file
  | tty
  | serial
  | random
  | drmMinor
  | netpkt
  | devNoPoll
  | userDriver
  /-- `FD_EPOLL`, with its instance. -/
  | epoll (ep : ℕ)
  | eventfd
  | timerfd
  | signalfd
  | syncFile
  | drmPrime
  | dmaBuf
  | ipc
  | netlink
  | inotify
  /-- `FD_SHM`, regular files and directories. -/
  | other
deriving DecidableEq

/-- What a poll function finds: something to read (or end of file), room to write, a peer that is
gone, a device that is stopped. -/
structure Probe where
  readable : Bool
  writable : Bool
  gone : Bool
  stopped : Bool
deriving DecidableEq

/-- `if (cond && (events & bit)) revents |= bit`, for a `revents` that is zero. -/
def want (cond : Bool) (events bit : Poll) : Poll :=
  if cond ∧ events &&& bit ≠ 0 then bit else 0

/-- `if (cond) revents |= mask`, for a `revents` that is zero. -/
def always (cond : Bool) (mask : Poll) : Poll := if cond then mask else 0

def filePoll (type : FileType) (p : Probe) (events : Poll) : Poll :=
  match type with
  | .opsNoPoll => events &&& (pollIn ||| pollOut)
  | .evdevConsumer => if p.gone then pollErr ||| pollHup else always p.readable (events &&& pollIn)
  | .pipe | .eventfd | .dmaBuf => want p.readable events pollIn ||| want p.writable events pollOut
  | .socket =>
    want p.readable events pollIn ||| want p.writable events pollOut ||| always p.gone pollHup
  | .file | .netlink => want p.readable events pollIn ||| want true events pollOut
  | .tty =>
    -- a hang-up is only reported to those who ask for input
    (if events &&& pollIn ≠ 0 then always p.readable pollIn ||| always p.gone (pollHup ||| pollIn)
      else 0) ||| want p.writable events pollOut
  | .serial => want true events pollOut
  | .random => pollIn ||| epollRdnorm
  | .drmMinor => always p.readable pollIn
  | .netpkt =>
    always p.gone pollHup ||| always p.stopped pollErr ||| always p.readable pollIn
      ||| always p.writable pollOut
  | .devNoPoll => 0
  | .userDriver | .other => want true events pollIn ||| want true events pollOut
  | .epoll _ | .timerfd | .signalfd | .syncFile | .ipc | .inotify =>
    always p.readable (events &&& pollIn)
  | .drmPrime => always p.readable (events &&& (pollIn ||| pollOut))

/-- The events that a type of file reports to those who did not ask for them, beside `POLLERR` and
`POLLHUP`: the callbacks of these devices do not look at `events`. -/
def FileType.unasked : FileType → Poll
  | .random => pollIn ||| epollRdnorm
  | .drmMinor => pollIn
  | .netpkt => pollIn ||| pollOut
  | _ => 0

/-! ## What is reported lies within what was asked for -/

namespace Poll

lemma within_iff {a b : Poll} : a.Within b ↔ ∀ i, a.getLsbD i = true → b.getLsbD i = true := by
  constructor
  · intro h i ha
    have hi : (a &&& ~~~b).getLsbD i = false := by rw [show a &&& ~~~b = 0 from h]; simp
    have hlt := lt_of_getLsbD ha
    simpa [ha, hlt] using hi
  · intro h
    refine eq_of_getLsbD_eq fun i hi => ?_
    cases ha : a.getLsbD i with
    | false => simp [ha]
    | true => simp [ha, h i ha, hi]

lemma Within.trans {a b c : Poll} (hab : a.Within b) (hbc : b.Within c) : a.Within c :=
  within_iff.2 fun i hi => within_iff.1 hbc i (within_iff.1 hab i hi)

lemma within_or_left (a b : Poll) : a.Within (a ||| b) := within_iff.2 fun i hi => by simp [hi]

lemma within_or_right (a b : Poll) : b.Within (a ||| b) := within_iff.2 fun i hi => by simp [hi]

lemma and_within (a b : Poll) : (a &&& b).Within a := within_iff.2 fun i hi => by
  simp only [getLsbD_and, Bool.and_eq_true] at hi
  exact hi.1

lemma zero_within (a : Poll) : Poll.Within 0 a := within_iff.2 fun i hi => by simp at hi

lemma Within.or {a b c : Poll} (ha : a.Within c) (hb : b.Within c) : (a ||| b).Within c :=
  within_iff.2 fun i hi => by
    simp only [getLsbD_or, Bool.or_eq_true] at hi
    exact hi.elim (within_iff.1 ha i) (within_iff.1 hb i)

lemma within_of_and_ne_zero {a : Poll} {k : ℕ} (h : a &&& twoPow 32 k ≠ 0) :
    Poll.Within (twoPow 32 k) a := by
  by_cases hk : a.getLsbD k = true
  · refine within_iff.2 fun i hi => ?_
    obtain ⟨-, rfl⟩ : k < 32 ∧ k = i := by simpa using hi
    exact hk
  · rw [and_twoPow, if_neg hk] at h
    exact absurd rfl h

end Poll

open Poll

lemma want_within {cond : Bool} {events bit : Poll} {k : ℕ} (hbit : bit = twoPow 32 k) :
    (want cond events bit).Within events := by
  unfold want
  split
  · next h => exact hbit ▸ within_of_and_ne_zero (hbit ▸ h.2)
  · exact zero_within _

lemma want_in_within (cond : Bool) (events : Poll) : (want cond events pollIn).Within events :=
  want_within (k := 0) rfl

lemma want_out_within (cond : Bool) (events : Poll) : (want cond events pollOut).Within events :=
  want_within (k := 2) rfl

lemma always_within {cond : Bool} {mask c : Poll} (h : mask.Within c) :
    (always cond mask).Within c := by
  unfold always
  split
  · exact h
  · exact zero_within _

/-- The mask that a report for `events` may use. -/
def allowed (events : Poll) : Poll := events ||| pollErr ||| pollHup

lemma events_within_allowed (events : Poll) : events.Within (allowed events) :=
  (within_or_left _ _).trans (within_or_left _ _)

/-- `file_poll` stays within what it was asked for, `POLLERR`, `POLLHUP` and what the type of file
reports unasked. -/
theorem filePoll_within {type : FileType} {events : Poll}
    (hun : type.unasked.Within (allowed events)) (p : Probe) :
    (filePoll type p events).Within (allowed events) := by
  have herr : pollErr.Within (allowed events) := (within_or_right _ _).trans (within_or_left _ _)
  have hhup : pollHup.Within (allowed events) := within_or_right _ _
  have hsub : ∀ m : Poll, (events &&& m).Within (allowed events) :=
    fun m => (and_within events m).trans (events_within_allowed events)
  have hin : ∀ c, (want c events pollIn).Within (allowed events) :=
    fun c => (want_in_within c events).trans (events_within_allowed events)
  have hout : ∀ c, (want c events pollOut).Within (allowed events) :=
    fun c => (want_out_within c events).trans (events_within_allowed events)
  cases type with
  | opsNoPoll => exact hsub _
  | evdevConsumer =>
    unfold filePoll
    dsimp only
    split
    · exact herr.or hhup
    · exact always_within (hsub _)
  | pipe | eventfd | dmaBuf => exact (hin _).or (hout _)
  | socket => exact ((hin _).or (hout _)).or (always_within hhup)
  | file | netlink => exact (hin _).or (hout _)
  | tty =>
    refine Within.or ?_ (hout _)
    split
    · next hask =>
      have hbit : pollIn.Within (allowed events) :=
        (within_of_and_ne_zero (k := 0) hask).trans (events_within_allowed events)
      exact (always_within hbit).or (always_within (hhup.or hbit))
    · exact zero_within _
  | serial => exact hout _
  | random => exact hun
  | drmMinor => exact always_within hun
  | netpkt =>
    have hbit := (within_or_left pollIn pollOut).trans hun
    have hbit' := (within_or_right pollIn pollOut).trans hun
    exact (((always_within hhup).or (always_within herr)).or (always_within hbit)).or
      (always_within hbit')
  | devNoPoll => exact zero_within _
  | userDriver | other => exact (hin _).or (hout _)
  | epoll _ | timerfd | signalfd | syncFile | ipc | inotify
  | drmPrime => exact always_within (hsub _)

end XosKernel.Epoll
