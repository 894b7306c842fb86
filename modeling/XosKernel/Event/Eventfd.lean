/-
# The counter of an eventfd

`sys_eventfd2`, `eventfd_do_read`, `eventfd_do_write` and `eventfd_signal_isr` of `bsd/eventfd.c`.
The counter changes under `ctx->lock`; a read copies the value to the user after it has left the
lock, so a read that has taken a value is an entry of its own until it returns. What is counted in
`written`, `signalled`, `returned` and `lost` only records what happened.

A call that waits tries again later, so each attempt stands for itself, and `EAGAIN` also stands for
waiting on. The wait queue is in `Sched/RunQueue.lean`; descriptors are left out.
-/
import XosKernel.Lib.Run
import XosKernel.Mem.Layout

namespace XosKernel.Eventfd

open Option

def eventfdMax : ℕ := 0xfffffffffffffffe

def efdSemaphore : BitVec 64 := 1

def efdNonblock : BitVec 64 := 0x800

def efdCloexec : BitVec 64 := 0x80000

structure Sys where
  count : ℕ
  semaphore : Bool
  /-- the values of the reads between the lock and the copy to the user -/
  taken : List ℕ
  written : ℕ
  signalled : ℕ
  returned : ℕ
  /-- the values of the reads that have returned an error -/
  lost : ℕ

def sysEventfd2 (initval : ℕ) (flags : BitVec 64) : Except Errno Sys :=
  if flags &&& ~~~(efdCloexec ||| efdNonblock ||| efdSemaphore) ≠ 0 then .error .EINVAL
  else if u64 initval > eventfdMax then .error .EINVAL
  else .ok ⟨u64 initval, flags &&& efdSemaphore ≠ 0, [], 0, 0, 0, 0⟩

inductive Act
  | read
  | copy (val : ℕ) (ok : Bool)
  | write (val : ℕ) (len : ℕ) (ok : Bool)
  | signal

def Sys.read (s : Sys) : Except Errno Sys :=
  if 0 < s.count then
    if s.semaphore then .ok { s with count := s.count - 1, taken := 1 :: s.taken }
    else .ok { s with count := 0, taken := s.count :: s.taken }
  else .error .EAGAIN

/-- A read copies its value to the user and returns. -/
def Sys.copy (s : Sys) (val : ℕ) (ok : Bool) : Sys :=
  let s := { s with taken := s.taken.erase val }
  if ok then { s with returned := s.returned + val } else { s with lost := s.lost + val }

def Sys.write (s : Sys) (val len : ℕ) (ok : Bool) : Except Errno Sys :=
  if len ≠ 8 then .error .EINVAL
  else if ok = false then .error .EFAULT
  else if u64 val > eventfdMax then .error .EINVAL
  else if s.count ≤ eventfdMax - u64 val then
    .ok { s with count := u64 (s.count + u64 val), written := s.written + u64 val }
  else .error .EAGAIN

def Sys.signal (s : Sys) : Sys :=
  if s.count < eventfdMax then { s with count := s.count + 1, signalled := s.signalled + 1 } else s

/-- One step; an attempt that fails changes nothing. -/
def step (s : Sys) : Act → Option Sys
  | .read => some (s.read.toOption.getD s)
  | .copy val ok => if val ∈ s.taken then some (s.copy val ok) else none
  | .write val len ok => some ((s.write val len ok).toOption.getD s)
  | .signal => some s.signal

/-- A read's value reaches the user. -/
def Copied : Act → Prop
  | .copy _ ok => ok = true
  | _ => True

instance (a : Act) : Decidable (Copied a) := by
  cases a <;> unfold Copied <;> infer_instance

/-- Nothing that was put into the counter has gone elsewhere. -/
structure Inv (initval : ℕ) (s : Sys) : Prop where
  count_le : s.count ≤ eventfdMax
  total : initval + s.written + s.signalled = s.returned + s.lost + s.taken.sum + s.count

variable {initval : ℕ} {s s' : Sys}

lemma Inv.step (h : Inv initval s) {a : Act} (hs : step s a = some s') : Inv initval s' := by
  have ⟨hle, htotal⟩ := h
  cases a with
  | read =>
    obtain rfl := some.inj hs
    unfold Sys.read
    split_ifs with hpos hsem
    · refine ⟨(Nat.sub_le _ _).trans hle, ?_⟩
      simp only [Except.toOption, getD_some, List.sum_cons]
      omega
    · exact ⟨Nat.zero_le _, by simp only [Except.toOption, getD_some, List.sum_cons]; omega⟩
    · exact h
  | copy val ok =>
    obtain ⟨hmem, rfl⟩ := of_guard hs
    have hsum := List.sum_erase hmem
    cases ok with
    | false => exact ⟨hle, by simp only [Sys.copy, Bool.false_eq_true, if_false]; omega⟩
    | true => exact ⟨hle, by simp only [Sys.copy, if_true]; omega⟩
  | write val len ok =>
    obtain rfl := some.inj hs
    unfold Sys.write
    split_ifs with hlen hok hval hroom
    on_goal 4 =>
      -- with room there is no overflow
      have hfit : s.count + u64 val ≤ eventfdMax := by omega
      have hmod := u64_of_lt (lt_of_le_of_lt hfit (by decide))
      exact ⟨hmod.le.trans hfit, by simp only [Except.toOption, getD_some, hmod]; omega⟩
    all_goals exact h
  | signal =>
    obtain rfl := some.inj hs
    unfold Sys.signal
    split_ifs with hroom
    · exact ⟨hroom, by simp only; omega⟩
    · exact h

lemma lost_of_step {a : Act} (hC : Copied a) (hs : step s a = some s') : s'.lost = s.lost := by
  cases a with
  | read =>
    obtain rfl := some.inj hs
    unfold Sys.read
    split_ifs <;> rfl
  | copy val ok =>
    obtain ⟨-, rfl⟩ := of_guard hs
    obtain rfl : ok = true := hC
    rfl
  | write val len ok =>
    obtain rfl := some.inj hs
    unfold Sys.write
    split_ifs <;> rfl
  | signal =>
    obtain rfl := some.inj hs
    unfold Sys.signal
    split_ifs <;> rfl

lemma Inv.start {flags : BitVec 64} (h : sysEventfd2 initval flags = .ok s) :
    Inv (u64 initval) s ∧ s.lost = 0 := by
  unfold sysEventfd2 at h
  split_ifs at h with hflags hbad
  obtain rfl := Except.ok.inj h
  exact ⟨⟨not_lt.1 hbad, by simp⟩, rfl⟩

/-- In every run in which the value of every read reaches the user, what was in the counter at first
and was added since has been returned, is being returned or is in the counter, which stays in
bounds, and no call that failed has taken a value. -/
theorem eventfd_conserves {flags : BitVec 64} {s0 : Sys} (hstart : sysEventfd2 initval flags =
    .ok s0)
    (as : List Act) (hC : Meets step (fun _ => Copied) s0 as) (hs : exec step s0 as = some s) :
    u64 initval + s.written + s.signalled = s.returned + s.taken.sum + s.count ∧
      s.count ≤ eventfdMax ∧ s.lost = 0 := by
  obtain ⟨⟨hle, htotal⟩, hlost⟩ : Inv (u64 initval) s ∧ s.lost = 0 :=
    exec_invariant_of_meets (I := fun s => Inv (u64 initval) s ∧ s.lost = 0)
      (fun _ _ _ hI hC hs => ⟨hI.1.step hs, (lost_of_step hC hs).trans hI.2⟩) as s0 s
      (Inv.start hstart) hC hs
  exact ⟨by omega, hle, hlost⟩

theorem eventfd_conserves_write_read :
    ∃ s0 s, sysEventfd2 3 0 = .ok s0 ∧ s.returned = 8 ∧
      exec step s0 [.write 4 8 true, .signal, .read, .copy 8 true] = some s ∧
      s.count ≤ eventfdMax := by
  refine ⟨_, _, rfl, ?_, rfl, ?_⟩
  · rfl
  · have hstart : sysEventfd2 3 0 = .ok ⟨3, false, [], 0, 0, 0, 0⟩ := rfl
    exact (eventfd_conserves hstart [.write 4 8 true, .signal, .read, .copy 8 true] (by decide)
      rfl).2.1

/-- The copy of a read fails: the call returns an error, and the value is gone. -/
theorem eventfd_read_loses :
    ∃ s0 s, sysEventfd2 3 0 = .ok s0 ∧ exec step s0 [.read, .copy 3 false] = some s ∧
      s.count = 0 ∧ s.returned = 0 ∧ s.taken = [] ∧ s.lost = 3 :=
  ⟨_, _, rfl, rfl, rfl, rfl, rfl, rfl⟩

end XosKernel.Eventfd
