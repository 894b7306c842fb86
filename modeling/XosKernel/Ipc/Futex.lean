/-
# Futexes

`FUTEX_WAIT` and `FUTEX_WAKE` of `sys_futex` (`bsd/futex.c`). A waiter is linked at the end of
the bucket of its key; a waker walks one bucket in batches of 32.  A waiter whose timeout has
fired, or that a signal has woken, stays linked until it runs again and unlinks itself.

The abstract state is one list of all waiters in the order in which they went to sleep: the
buckets are its parts. What a wake-up should do is said over that list.
-/
import XosKernel.Lib.Run
import XosKernel.Lib.TakeOut

namespace XosKernel.Futex

open Option Function

def futexHashSize : ℕ := 64

def futexWakeBatch : ℕ := 32

/-- `struct futex_key` of an anonymous futex. -/
structure Key where
  cr3 : ℕ
  pageOff : ℕ
deriving DecidableEq

def getFutexKey (uaddr cr3 : ℕ) : Key := ⟨cr3, uaddr >>> 12⟩

def futexHash (key : Key) : ℕ := ((key.cr3 ^^^ key.pageOff) >>> 3) % futexHashSize

/-- A linked `futex_node`, with the address space of its task. -/
structure Waiter where
  task : ℕ
  cr3 : ℕ
  uaddr : ℕ
  /-- the task is still `BLOCKED` with `WAIT_FUTEX` -/
  blocked : Bool
deriving DecidableEq

def Waiter.hash (w : Waiter) : ℕ := futexHash (getFutexKey w.uaddr w.cr3)

structure Sys where
  /-- `futex_table` -/
  table : ℕ → List Waiter
  /-- the waiters in the order of their waits -/
  order : List Waiter

def Sys.init : Sys := ⟨fun _ => [], []⟩

/-! ## `FUTEX_WAKE` -/

/-- The loop over the batches, for at most `n` waiters; the collected ones and what is left of
the bucket. -/
def wakeBatches (uaddr n : ℕ) (waiters : List Waiter) : List Waiter × List Waiter :=
  if h : n = 0 then ([], waiters)
  else
    let batch := min n futexWakeBatch
    let r := takeOut (fun w : Waiter => w.uaddr = uaddr) waiters batch
    if r.1.length < batch then r
    else
      let r' := wakeBatches uaddr (n - batch) r.2
      (r.1 ++ r'.1, r'.2)
termination_by n
decreasing_by
  have : 0 < min n futexWakeBatch := lt_min (Nat.pos_of_ne_zero h) (by decide)
  omega

/-- `(int)val`: a value from `2 ^ 31` on is negative and the loop does not run. -/
def wakeLimit (val : ℕ) : ℕ := if val < 2 ^ 31 then val else 0

/-- A wake-up: the tasks it wakes, the number it returns, and what is left. -/
structure Woken where
  waiters : List Waiter
  count : ℕ
deriving DecidableEq

/-- `FUTEX_WAKE`; `wake_with_event` leaves alone a task that is awake already. -/
def futexWake (s : Sys) (cr3 uaddr arg3 : ℕ) : Woken × Sys :=
  let val := arg3 % 2 ^ 32
  let h := futexHash (getFutexKey uaddr cr3)
  let r := wakeBatches uaddr (wakeLimit val) (s.table h)
  (⟨r.1.filter Waiter.blocked, r.1.length⟩,
    { table := update s.table h r.2
      order := (takeOut (fun w : Waiter => decide (w.uaddr = uaddr ∧ w.hash = h)) s.order
        (wakeLimit val)).2 })

/-! ## The system -/

inductive Act
  /-- `FUTEX_WAIT`, when the word has the expected value -/
  | wait (task cr3 uaddr : ℕ)
  /-- the timeout or a signal makes the task ready -/
  | expire (task : ℕ)
  /-- the task runs again and unlinks itself -/
  | leave (task : ℕ)
  | wake (cr3 uaddr val : ℕ)
deriving DecidableEq

/-- The waiter after its task has been made ready. -/
def Waiter.expire (task : ℕ) (w : Waiter) : Waiter :=
  if w.task = task then { w with blocked := false } else w

def step (s : Sys) : Act → Option Sys
  | .wait task cr3 uaddr =>
    if task ∈ s.order.map Waiter.task then none
    else
      let w : Waiter := ⟨task, cr3, uaddr, true⟩
      some
        { table := update s.table w.hash (s.table w.hash ++ [w])
          order := s.order ++ [w] }
  | .expire task =>
    some
      { table := fun h => (s.table h).map (Waiter.expire task)
        order := s.order.map (Waiter.expire task) }
  | .leave task =>
    -- a node with `futex_uaddr = 0` is taken for one that was unlinked
    let stays : Waiter → Bool := fun w => decide (w.task ≠ task ∨ w.blocked = true ∨ w.uaddr = 0)
    some { table := fun h => (s.table h).filter stays, order := s.order.filter stays }
  | .wake cr3 uaddr val => some (futexWake s cr3 uaddr val).2

/-! ## The buckets are the parts of the waiting list -/

def Refines (s : Sys) : Prop := ∀ h, s.table h = s.order.filter fun w => decide (w.hash = h)

lemma wakeBatches_eq (uaddr n : ℕ) (waiters : List Waiter) :
    wakeBatches uaddr n waiters = takeOut (fun w : Waiter => w.uaddr = uaddr) waiters n := by
  fun_induction wakeBatches uaddr n waiters with
  | case1 waiters => rw [takeOut_zero]
  | case2 n waiters hn batch r hshort =>
    have hsplit : n = batch + (n - batch) := by omega
    rw [hsplit, takeOut_of_short hshort]
  | case3 n waiters hn batch r hfull r' ih =>
    have hsplit : n = batch + (n - batch) := by omega
    rw [show r' = takeOut (fun w : Waiter => decide (w.uaddr = uaddr)) r.2 (n - batch) from ih]
    conv_rhs => rw [hsplit, takeOut_add]

lemma Waiter.hash_expire (task : ℕ) (w : Waiter) : (w.expire task).hash = w.hash := by
  rw [Waiter.expire]
  split_ifs <;> rfl

variable {s s' : Sys}

lemma Refines.init : Refines Sys.init := fun _ => rfl

lemma Refines.futexWake (hr : Refines s) (cr3 uaddr arg3 : ℕ) :
    Refines (futexWake s cr3 uaddr arg3).2 := by
  intro h
  set b := futexHash (getFutexKey uaddr cr3)
  set n := wakeLimit (arg3 % 2 ^ 32)
  show update s.table b (wakeBatches uaddr n (s.table b)).2 h = List.filter _
    (takeOut (fun w : Waiter => decide (w.uaddr = uaddr ∧ w.hash = b)) s.order n).2
  by_cases hh : h = b
  · subst hh
    rw [update_self, wakeBatches_eq, hr b,
      takeOut_snd_filter (fun w hw => decide_eq_true (of_decide_eq_true hw).2)]
    -- inside the bucket the two selections agree
    rw [takeOut_congr fun w hw => ?_]
    have hw : w.hash = b := of_decide_eq_true (List.mem_filter.1 hw).2
    simp only [hw, and_true]
  · rw [update_of_ne hh, takeOut_snd_filter_of_disjoint]
    · exact hr h
    · intro w hw
      rw [(of_decide_eq_true hw).2]
      exact decide_eq_false (Ne.symm hh)

lemma Refines.step (hr : Refines s) {a : Act} (hs : step s a = some s') : Refines s' := by
  cases a with
  | wait task cr3 uaddr =>
    rw [Futex.step] at hs
    split_ifs at hs with hlinked
    obtain rfl := some.inj hs
    intro h
    dsimp only
    set w : Waiter := ⟨task, cr3, uaddr, true⟩
    rw [List.filter_append]
    by_cases hw : h = w.hash
    · subst hw
      rw [update_self, hr, List.filter_singleton, decide_eq_true rfl]
      rfl
    · rw [update_of_ne hw, hr, List.filter_cons_of_neg (by simpa using Ne.symm hw)]
      simp
  | expire task =>
    obtain rfl := some.inj hs
    intro h
    dsimp only
    rw [hr, List.filter_map]
    refine congrArg _ (List.filter_congr fun w _ => ?_)
    rw [comp_apply, Waiter.hash_expire]
  | leave task =>
    obtain rfl := some.inj hs
    intro h
    dsimp only
    rw [hr, List.filter_filter, List.filter_filter]
    exact List.filter_congr fun w _ => Bool.and_comm _ _
  | wake cr3 uaddr val =>
    obtain rfl := some.inj hs
    exact hr.futexWake cr3 uaddr val

lemma refines_of_exec {acts : List Act} (hexec : exec step Sys.init acts = some s) : Refines s :=
  exec_invariant (fun _ _ _ hr hs => hr.step hs) Refines.init hexec

/-! ## What a wake-up wakes -/

/-- The waiters of an address space on an address, in wait order. -/
def Sys.waitersOn (s : Sys) (cr3 uaddr : ℕ) : List Waiter :=
  s.order.filter fun w => decide (w.blocked = true ∧ w.cr3 = cr3 ∧ w.uaddr = uaddr)

/-- The first `val` waiters of the caller's address space on the address. -/
def Sys.wakeSpec (s : Sys) (cr3 uaddr val : ℕ) : Woken :=
  ⟨(s.waitersOn cr3 uaddr).take val, min val (s.waitersOn cr3 uaddr).length⟩

/-- The nodes that a wake-up for the address meets. -/
def Sys.linkedOn (s : Sys) (cr3 uaddr : ℕ) : List Waiter :=
  (s.table (futexHash (getFutexKey uaddr cr3))).filter fun w => decide (w.uaddr = uaddr)

/-- None of the first `val` nodes on the address is of another address space or of a task that
is awake already; a negative count finds nobody to wake. -/
def Sys.Undisturbed (s : Sys) (cr3 uaddr val : ℕ) : Prop :=
  if val < 2 ^ 31 then
    ∀ w ∈ (s.linkedOn cr3 uaddr).take val, w.cr3 = cr3 ∧ w.blocked = true
  else s.waitersOn cr3 uaddr = []
deriving Decidable

lemma waitersOn_eq (hr : Refines s) (cr3 uaddr : ℕ) :
    s.waitersOn cr3 uaddr =
      (s.linkedOn cr3 uaddr).filter fun w => decide (w.cr3 = cr3 ∧ w.blocked = true) := by
  rw [Sys.linkedOn, hr, List.filter_filter, List.filter_filter, Sys.waitersOn]
  refine List.filter_congr fun w _ => ?_
  rw [Bool.eq_iff_iff]
  simp only [Bool.and_eq_true, decide_eq_true_eq]
  constructor
  · rintro ⟨hblocked, rfl, rfl⟩
    exact ⟨⟨⟨rfl, hblocked⟩, rfl⟩, rfl⟩
  · rintro ⟨⟨⟨hcr3, hblocked⟩, huaddr⟩, -⟩
    exact ⟨hblocked, hcr3, huaddr⟩

lemma futexWake_woken (cr3 uaddr arg3 : ℕ) :
    (futexWake s cr3 uaddr arg3).1 =
      ⟨((s.linkedOn cr3 uaddr).take (wakeLimit (arg3 % 2 ^ 32))).filter Waiter.blocked,
        ((s.linkedOn cr3 uaddr).take (wakeLimit (arg3 % 2 ^ 32))).length⟩ := by
  rw [futexWake, wakeBatches_eq, takeOut_fst]
  rfl

/-- **Address-space separation.**  A wake-up wakes and counts exactly the first waiters of the
caller's address space if and only if no other node on the address comes in between. -/
theorem futex_wake_exact_iff (acts : List Act) (s : Sys)
    (hexec : exec step Sys.init acts = some s) (cr3 uaddr val : ℕ) :
    (futexWake s cr3 uaddr val).1 = s.wakeSpec cr3 uaddr (val % 2 ^ 32) ↔
      s.Undisturbed cr3 uaddr (val % 2 ^ 32) := by
  have hspec := waitersOn_eq (refines_of_exec hexec) cr3 uaddr
  rw [futexWake_woken, Sys.wakeSpec, Sys.Undisturbed]
  set n := val % 2 ^ 32
  set linked := s.linkedOn cr3 uaddr
  by_cases hn : n < 2 ^ 31
  · rw [if_pos hn, wakeLimit, if_pos hn, hspec]
    constructor
    · intro heq
      obtain ⟨hwoken, hcount⟩ := Woken.mk.inj heq
      -- the counts agree, so nothing that was collected was awake already
      have hlength : ((linked.take n).filter Waiter.blocked).length = (linked.take n).length := by
        rw [hwoken, hcount, List.length_take]
      have hall := List.length_filter_eq_length_iff.1 hlength
      rw [List.filter_eq_self.2 hall] at hwoken
      intro w hw
      rw [hwoken] at hw
      exact of_decide_eq_true (List.mem_filter.1 (List.mem_of_mem_take hw)).2
    · intro hall
      have htake := take_filter_of_forall fun w hw => decide_eq_true (hall w hw)
      rw [← List.length_take, htake, List.filter_eq_self.2 fun w hw => (hall w hw).2]
  · rw [if_neg hn, wakeLimit, if_neg hn]
    constructor
    · intro heq
      have hcount := (Woken.mk.inj heq).2
      rw [List.take_zero, List.length_nil] at hcount
      refine List.eq_nil_of_length_eq_zero ?_
      omega
    · intro hnone
      rw [hnone]
      simp

/-- Two tasks of one process wait, and a third one in another page. -/
def sameProcessRun : List Act :=
  [.wait 1 0x1000 0x7000, .wait 2 0x1000 0x7000, .wait 3 0x1000 0x9000]

theorem futex_wake_exact_iff_same_process :
    (exec step Sys.init sameProcessRun).isSome = true ∧
      ∀ s, exec step Sys.init sameProcessRun = some s →
        (futexWake s 0x1000 0x7000 1).1 = s.wakeSpec 0x1000 0x7000 1 := by
  refine ⟨by decide +kernel, fun s hexec => ?_⟩
  refine (futex_wake_exact_iff sameProcessRun s hexec 0x1000 0x7000 1).2 ?_
  obtain rfl := some.inj hexec
  decide +kernel

/-- A task of another process waits on the same virtual address first. -/
def otherProcessRun : List Act := [.wait 1 0x2000 0x7000, .wait 2 0x1000 0x7000]

/-- The timeout of the first waiter has fired, but it has not run yet. -/
def expiredRun : List Act := [.wait 1 0x1000 0x7000, .wait 2 0x1000 0x7000, .expire 1]

/-- The waiter of the other process is woken and the caller's own is not; a waiter that is
awake already takes the wake-up of the next one; and a count of `2 ^ 31` wakes nobody. -/
theorem futex_wake_crosses :
    (exec step Sys.init otherProcessRun).map (fun s => ((futexWake s 0x1000 0x7000 1).1,
        s.wakeSpec 0x1000 0x7000 1)) =
      some (⟨[⟨1, 0x2000, 0x7000, true⟩], 1⟩, ⟨[⟨2, 0x1000, 0x7000, true⟩], 1⟩) ∧
    (exec step Sys.init expiredRun).map (fun s => ((futexWake s 0x1000 0x7000 1).1,
        s.wakeSpec 0x1000 0x7000 1)) =
      some (⟨[], 1⟩, ⟨[⟨2, 0x1000, 0x7000, true⟩], 1⟩) ∧
    (exec step Sys.init sameProcessRun).map (fun s => ((futexWake s 0x1000 0x7000 (2 ^ 31)).1,
        s.wakeSpec 0x1000 0x7000 (2 ^ 31))) =
      some (⟨[], 0⟩, ⟨[⟨1, 0x1000, 0x7000, true⟩, ⟨2, 0x1000, 0x7000, true⟩], 2⟩) := by
  decide +kernel

end XosKernel.Futex
