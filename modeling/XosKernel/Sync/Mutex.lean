/-
# Sleeping mutexes

`mutex_lock` and `mutex_unlock` (`kernel/xcore/mutex.c`) over a wait queue
(`kernel/xcore/wait_queue.c`).

A caller links itself into the queue before it looks at the flag for the first time, and it stays
there until it has the mutex. The flag is read and written under `guard`; the state of a task is
written under the lock of its scheduler and the queue under a lock of its own, so that taking
`guard`, looking at the flag, publishing `BLOCKED`, giving `guard` back and waking are steps of
their own, which the steps of other tasks come between. `__wake_up` goes to the first waiter only,
whether that one sleeps or not; a task that has called `schedule` goes on at some time after it has
been made `READY`.

No wake-up is lost: while the mutex is free and somebody sleeps, there is an `unlock` that has not
called `__wake_up` yet, or a task in the queue that is awake and will look at the flag again.
-/
import XosKernel.Lib.Run

namespace XosKernel.Mutex

open Option Function

/-! ## Wait queues -/

structure Wait where
  task : ℕ
  exclusive : Bool
deriving DecidableEq

/-- `__wake_up`: the tasks whose callback is called; `woken` is `woken_exclusive`. -/
def wakeUp : Bool → List Wait → List ℕ
  | _, [] => []
  | woken, w :: rest =>
    if w.exclusive then
      if woken then wakeUp woken rest else w.task :: wakeUp true rest
    else w.task :: wakeUp woken rest

lemma wakeUp_true_of_exclusive {q : List Wait} (h : ∀ w ∈ q, w.exclusive = true) : wakeUp true q =
    [] := by
  induction q with
  | nil => rfl
  | cons w rest ih =>
    obtain ⟨hw, hrest⟩ := List.forall_mem_cons.1 h
    rw [wakeUp, if_pos hw, if_pos rfl]
    exact ih hrest

lemma wakeUp_of_exclusive {w : Wait} {q : List Wait} (h : ∀ v ∈ w :: q, v.exclusive = true) :
    wakeUp false (w :: q) = [w.task] := by
  obtain ⟨hw, hrest⟩ := List.forall_mem_cons.1 h
  rw [wakeUp, if_pos hw, if_neg Bool.false_ne_true, wakeUp_true_of_exclusive hrest]

/-! ## The model -/

inductive TaskState
  | running
  | ready
  | blocked
deriving DecidableEq

/-- Where a task is. The last group is the path of early boot, where there is no current task. -/
inductive Pc
  | out
  /-- in the queue, at the top of the loop -/
  | queued
  /-- holds `guard`, looks at the flag -/
  | checking
  /-- holds `guard`, has found the mutex locked -/
  | found
  /-- holds `guard`, has published `BLOCKED` -/
  | published
  /-- has given `guard` back and calls `schedule` -/
  | sleeping
  /-- holds `guard`, has set the flag -/
  | acquired
  /-- has given `guard` back, is still in the queue -/
  | leaving
  /-- `mutex_lock` has returned -/
  | holding
  /-- in `mutex_unlock`, before `guard` -/
  | unlocking
  | clearing
  /-- holds `guard`, has cleared the flag -/
  | cleared
  /-- has given `guard` back, is about to call `__wake_up` -/
  | waking
  | spinning
  | spinChecking
  | spinAcquired
deriving DecidableEq

structure Task where
  pc : Pc
  state : TaskState
deriving DecidableEq

structure Sys where
  locked : Bool
  guard : Option ℕ
  waiters : List Wait
  task : ℕ → Task

def Sys.init : Sys := ⟨false, none, [], fun _ => ⟨.out, .running⟩⟩

def Sys.setTask (s : Sys) (t : ℕ) (x : Task) : Sys := { s with task := Function.update s.task t x }

def Sys.setPc (s : Sys) (t : ℕ) (pc : Pc) : Sys := s.setTask t { s.task t with pc := pc }

/-- `wake_wq_target`, with the part of `wake_from_wait` that concerns the state. -/
def wakeWqTarget (s : Sys) (t : ℕ) : Sys :=
  if (s.task t).state = .blocked then s.setTask t { s.task t with state := .ready } else s

def takeGuard (s : Sys) (t : ℕ) (pc : Pc) : Option Sys :=
  if s.guard = none then some { s.setPc t pc with guard := some t } else none

/-- Give `guard` back and go to `pc`. -/
def dropGuard (s : Sys) (t : ℕ) (pc : Pc) : Sys := { s.setPc t pc with guard := none }

/-- The next step of task `t` in the call it is in. -/
def advance (s : Sys) (t : ℕ) : Option Sys :=
  match (s.task t).pc with
  | .out | .holding => none
  | .queued => takeGuard s t .checking
  | .checking =>
    some (if s.locked then s.setPc t .found else { s.setPc t .acquired with locked := true })
  | .found => some (s.setTask t ⟨.published, .blocked⟩)
  | .published => some (dropGuard s t .sleeping)
  | .sleeping => if (s.task t).state = .ready then some (s.setTask t ⟨.queued, .running⟩) else none
  | .acquired => some (dropGuard s t .leaving)
  | .leaving => some { s.setPc t .holding with waiters := s.waiters.eraseP fun w => w.task = t }
  | .unlocking => takeGuard s t .clearing
  | .clearing => some { s.setPc t .cleared with locked := false }
  | .cleared => some (dropGuard s t .waking)
  | .waking => some ((wakeUp false s.waiters).foldl wakeWqTarget (s.setPc t .out))
  | .spinning => takeGuard s t .spinChecking
  | .spinChecking =>
    some (if s.locked then dropGuard s t .spinning else { s.setPc t .spinAcquired with locked :=
      true })
  | .spinAcquired => some (dropGuard s t .holding)

inductive Act
  | lock (t : ℕ)
  /-- `mutex_lock` is called in early boot -/
  | bootLock (t : ℕ)
  /-- `mutex_unlock` is called -/
  | unlock (t : ℕ)
  | advance (t : ℕ)
  /-- somebody else wakes the task -/
  | wake (t : ℕ)
deriving DecidableEq

def step (s : Sys) : Act → Option Sys
  | .lock t =>
    if (s.task t).pc = .out then some { s.setPc t .queued with waiters := s.waiters ++ [⟨t, true⟩] }
      else none
  | .bootLock t => if (s.task t).pc = .out then some (s.setPc t .spinning) else none
  | .unlock t => if (s.task t).pc = .holding then some (s.setPc t .unlocking) else none
  | .advance t => advance s t
  | .wake t => some (wakeWqTarget s t)

/-- The task is between a returned `mutex_lock` and its `mutex_unlock`. -/
def Task.Holds (x : Task) : Prop := x.pc = .holding

/-- The task sleeps in `mutex_lock`, or is about to. -/
def Task.Sleeps (x : Task) : Prop := (x.pc = .published ∨ x.pc = .sleeping) ∧ x.state = .blocked

/-- A wake-up is still to come, or there is a waiter that is awake and will look at the flag again.
-/
def Sys.WakePending (s : Sys) : Prop :=
  (∃ t, (s.task t).pc = .cleared ∨ (s.task t).pc = .waking) ∨
    ∃ w ∈ s.waiters, (s.task w.task).state ≠ .blocked

/-! ## The invariant -/

def Pc.inGuard : Pc → Bool
  | .checking | .found | .published | .acquired | .clearing | .cleared | .spinChecking |
    .spinAcquired => true
  | _ => false

/-- Where the flag is the task's own. -/
def Pc.owns : Pc → Bool
  | .acquired | .leaving | .holding | .unlocking | .clearing | .spinAcquired => true
  | _ => false

def Pc.waits : Pc → Bool
  | .queued | .checking | .found | .published | .sleeping | .acquired | .leaving => true
  | _ => false

/-- Where the task has seen the flag set and still holds `guard`. -/
def Pc.sees : Pc → Bool
  | .found | .published => true
  | _ => false

/-- The tasks that have published `BLOCKED` are those that are not running. -/
def Task.Ok (x : Task) : Prop := x.state ≠ .running ↔ x.pc = .published ∨ x.pc = .sleeping

/-- The task will call `__wake_up`, or look at the flag. -/
def Task.Provides (x : Task) : Prop :=
  x.pc = .cleared ∨ x.pc = .waking ∨ x.pc = .queued ∨ x.pc = .checking ∨ x.pc = .sleeping ∧
  x.state ≠ .blocked

structure Inv (s : Sys) : Prop where
  guard : ∀ t, (s.task t).pc.inGuard = true → s.guard = some t
  locked : ∀ t, (s.task t).pc.owns = true → s.locked = true
  unique : ∀ t u, (s.task t).pc.owns = true → (s.task u).pc.owns = true → t = u
  sees : ∀ t, (s.task t).pc.sees = true → s.locked = true
  exclusive : ∀ w ∈ s.waiters, w.exclusive = true
  nodup : (s.waiters.map Wait.task).Nodup
  linked : ∀ t, t ∈ s.waiters.map Wait.task ↔ (s.task t).pc.waits = true
  ok : ∀ t, (s.task t).Ok
  pending : s.locked = false → ∀ t, (s.task t).Sleeps → ∃ u, (s.task u).Provides

lemma inv_init : Inv Sys.init where
  guard t h := nomatch h
  locked t h := nomatch h
  unique t u h := nomatch h
  sees t h := nomatch h
  exclusive w h := nomatch h
  nodup := List.nodup_nil
  linked t := by simp [Sys.init, Pc.waits]
  ok t := by simp [Sys.init, Task.Ok]
  pending _ t h := nomatch h.2

variable {s s' : Sys} {t u : ℕ} {x : Task}

@[simp] lemma setTask_self : (s.setTask t x).task t = x := update_self ..

lemma setTask_of_ne (h : u ≠ t) : (s.setTask t x).task u = s.task u := update_of_ne h ..

lemma Task.Ok.running (h : x.Ok) (h1 : x.pc ≠ .published) (h2 : x.pc ≠ .sleeping) : x.state =
    .running := by
  by_contra hr
  exact (h.1 hr).elim h1 h2

lemma Task.ok_running {pc : Pc} (h : pc ≠ .published ∧ pc ≠ .sleeping) : (Task.mk pc .running).Ok :=
  ⟨fun hr => absurd rfl hr, fun hx => hx.elim (absurd · h.1) (absurd · h.2)⟩

lemma Task.not_sleeps {pc : Pc} {state} (h : pc ≠ .published ∧ pc ≠ .sleeping) :
    ¬ (Task.mk pc state).Sleeps := fun hx => hx.1.elim h.1 h.2

lemma forall_setTask {P : ℕ → Task → Prop} (hx : P t x) (h : ∀ u, u ≠ t → P u (s.task u)) (u : ℕ) :
    P u ((s.setTask t x).task u) := by
  by_cases hu : u = t
  · subst hu
    simpa using hx
  · rw [setTask_of_ne hu]
    exact h u hu

section

variable (h : Inv s)
include h

lemma Inv.ok_setPc {p pc : Pc} (ht : (s.task t).pc = p)
    (hpc : (p ≠ .published ∧ p ≠ .sleeping) ∧ pc ≠ .published ∧ pc ≠ .sleeping) :
    (Task.mk pc (s.task t).state).Ok := by
  rw [(h.ok t).running (ht ▸ hpc.1.1) (ht ▸ hpc.1.2)]
  exact Task.ok_running hpc.2

section

variable (t x) (g : Option ℕ) (hg : x.pc.inGuard = true → g = some t)
  (hothers : ∀ u, u ≠ t → (s.task u).pc.inGuard = true → g = some u)
  (howns : x.pc.owns = true → (s.task t).pc.owns = true) (hsees : x.pc.sees = true → s.locked =
  true)
  (hok : x.Ok)
  (hpending : s.locked = false → (x.Sleeps → (s.task t).Sleeps) ∧ ((s.task t).Provides →
    x.Provides ∨ ∀ u, (s.task u).Sleeps → ∃ v, v ≠ t ∧ (s.task v).Provides))
include hg hothers howns hsees hok hpending

/-- A task that moves without touching the flag. It may take or give back `guard`, and link or
unlink itself. -/
lemma Inv.update (q : List Wait) (hexcl : ∀ w ∈ q, w.exclusive = true)
    (hnodup : (q.map Wait.task).Nodup) (hself : t ∈ q.map Wait.task ↔ x.pc.waits = true)
    (hlinked : ∀ u, u ≠ t → (u ∈ q.map Wait.task ↔ u ∈ s.waiters.map Wait.task)) :
    Inv { s.setTask t x with guard := g, waiters := q } where
  guard := forall_setTask (P := fun u y => y.pc.inGuard = true → g = some u) hg hothers
  locked := forall_setTask (P := fun _ y => y.pc.owns = true → s.locked = true)
    (fun hx => h.locked t (howns hx)) fun u _ => h.locked u
  unique := by
    -- owners of the new state are owners of the old one
    have hold : ∀ u, ((s.setTask t x).task u).pc.owns = true → (s.task u).pc.owns = true :=
      forall_setTask (P := fun u y => y.pc.owns = true → (s.task u).pc.owns = true) howns fun _ _ =>
      id
    exact fun u v hu hv => h.unique u v (hold u hu) (hold v hv)
  sees := forall_setTask (P := fun _ y => y.pc.sees = true → s.locked = true) hsees fun u _ =>
  h.sees u
  exclusive := hexcl
  nodup := hnodup
  linked := forall_setTask (P := fun u y => u ∈ q.map Wait.task ↔ y.pc.waits = true) hself
    fun u hu => (hlinked u hu).trans (h.linked u)
  ok := forall_setTask (P := fun _ y => y.Ok) hok fun u _ => h.ok u
  pending hfree u hu := by
    obtain ⟨hsleep, hprov⟩ := hpending hfree
    have hold : (s.task u).Sleeps :=
      forall_setTask (P := fun u y => y.Sleeps → (s.task u).Sleeps) hsleep (fun _ _ => id) u hu
    obtain ⟨v, hv⟩ := h.pending hfree u hold
    by_cases hvt : v = t
    · subst hvt
      rcases hprov hv with hx | hother
      · exact ⟨v, by simpa using hx⟩
      · obtain ⟨w, hw, hwp⟩ := hother u hold
        exact ⟨w, (setTask_of_ne hw).symm ▸ hwp⟩
    · exact ⟨v, (setTask_of_ne hvt).symm ▸ hv⟩

lemma Inv.move (hwaits : x.pc.waits = (s.task t).pc.waits) :
    Inv { s.setTask t x with guard := g } :=
  h.update t x g hg hothers howns hsees hok hpending s.waiters h.exclusive h.nodup
    (hwaits ▸ h.linked t) fun _ _ => Iff.rfl

end

lemma Inv.eq_of_inGuard (ht : (s.task t).pc.inGuard = true) (hu : (s.task u).pc.inGuard = true) :
    u = t := some.inj ((h.guard u hu).symm.trans (h.guard t ht))

lemma Inv.moveInside (ht : (s.task t).pc.inGuard = true)
    (howns : x.pc.owns = true → (s.task t).pc.owns = true) (hsees : x.pc.sees = true → s.locked =
    true)
    (hwaits : x.pc.waits = (s.task t).pc.waits) (hok : x.Ok) (hlocked : s.locked = true) :
    Inv (s.setTask t x) := by
  refine h.move t x s.guard (fun _ => h.guard t ht) (fun u _ hu => h.guard u hu) howns hsees hok ?_
    hwaits
  exact fun hfree => absurd hlocked (by simp [hfree])

section

variable {pc : Pc} (howns : pc.owns = true → (s.task t).pc.owns = true) (hsees : pc.sees = false)
  (hwaits : pc.waits = (s.task t).pc.waits) (hok : (Task.mk pc (s.task t).state).Ok)
include howns hsees hwaits hok

lemma Inv.dropGuard (ht : (s.task t).pc.inGuard = true) (hx : pc.inGuard = false)
    (hpending : s.locked = false → ((Task.mk pc (s.task t).state).Sleeps → (s.task t).Sleeps) ∧
      ((s.task t).Provides → (Task.mk pc (s.task t).state).Provides)) :
    Inv (dropGuard s t pc) := by
  refine h.move t ⟨pc, (s.task t).state⟩ none (fun hg => absurd hg (by simp [hx])) (fun u hu hg =>
    ?_) howns (fun hs => absurd hs (by simp [hsees])) hok (fun hfree => ?_) hwaits
  · exact absurd (h.eq_of_inGuard ht hg) hu
  · exact ⟨(hpending hfree).1, fun hp => .inl ((hpending hfree).2 hp)⟩

lemma Inv.takeGuard (hs : takeGuard s t pc = some s')
    (hpending : ((Task.mk pc (s.task t).state).Sleeps → (s.task t).Sleeps) ∧
      ((s.task t).Provides → (Task.mk pc (s.task t).state).Provides)) : Inv s' := by
  obtain ⟨hfree, rfl⟩ := of_guard hs
  refine h.move t ⟨pc, (s.task t).state⟩ (some t) (fun _ => rfl) (fun u _ hg => ?_) howns
    (fun hs => absurd hs (by simp [hsees])) hok
    (fun _ => ⟨hpending.1, fun hp => .inl (hpending.2 hp)⟩) hwaits
  exact absurd (h.guard u hg) (by simp [hfree])

end

/-! ## The flag and the queue -/

lemma Inv.acquire {pc : Pc} (ht : (s.task t).pc.inGuard = true) (hfree : s.locked = false)
    (hwaits : pc.waits = (s.task t).pc.waits) (hok : (Task.mk pc (s.task t).state).Ok) :
    Inv { s.setPc t pc with locked := true } where
  __ := h
  guard := forall_setTask (P := fun u y => y.pc.inGuard = true → s.guard = some u)
    (fun _ => h.guard t ht) fun u _ => h.guard u
  locked _ _ := rfl
  unique := by
    have hnone : ∀ u, (s.task u).pc.owns ≠ true := fun u hu =>
      absurd (h.locked u hu) (by simp [hfree])
    have hown : ∀ u, ((s.setPc t pc).task u).pc.owns = true → u = t :=
      forall_setTask (P := fun u y => y.pc.owns = true → u = t) (fun _ => rfl) fun u _ hu =>
      absurd hu (hnone u)
    exact fun u v hu hv => (hown u hu).trans (hown v hv).symm
  sees _ _ := rfl
  linked := forall_setTask (P := fun u y => u ∈ s.waiters.map Wait.task ↔ y.pc.waits = true)
    (hwaits ▸ h.linked t) fun u _ => h.linked u
  ok := forall_setTask (P := fun _ y => y.Ok) hok fun u _ => h.ok u
  pending hf := nomatch hf

/-- The owner clears the flag; from then on it is due to call `__wake_up`. -/
lemma Inv.clear (ht : (s.task t).pc = .clearing) :
    Inv { s.setPc t .cleared with locked := false } where
  __ := h
  guard := forall_setTask (P := fun u y => y.pc.inGuard = true → s.guard = some u)
    (fun _ => h.guard t (by rw [ht]; rfl)) fun u _ => h.guard u
  locked := by
    refine forall_setTask (P := fun _ y => y.pc.owns = true → false = true) (fun hx => nomatch hx)
      fun u hu ho => ?_
    exact absurd (h.unique u t ho (by rw [ht]; rfl)) hu
  unique := by
    have hnone : ∀ u, ((s.setPc t .cleared).task u).pc.owns ≠ true := by
      refine forall_setTask (P := fun _ y => y.pc.owns ≠ true) Bool.false_ne_true fun u hu ho => ?_
      exact hu (h.unique u t ho (by rw [ht]; rfl))
    exact fun u _ hu => absurd hu (hnone u)
  sees := by
    refine forall_setTask (P := fun _ y => y.pc.sees = true → false = true) (fun hx => nomatch hx)
      fun u hu hs => ?_
    -- whoever has seen the flag set holds `guard`
    have hg : (s.task u).pc.inGuard = true := by
      cases hpc : (s.task u).pc <;> simp_all [Pc.sees, Pc.inGuard]
    exact absurd (h.eq_of_inGuard (by rw [ht]; rfl) hg) hu
  linked := forall_setTask (P := fun u y => u ∈ s.waiters.map Wait.task ↔ y.pc.waits = true)
    (ht ▸ h.linked t : _ ↔ Pc.clearing.waits = true) fun u _ => h.linked u
  ok := by
    exact forall_setTask (P := fun _ y => y.Ok) (h.ok_setPc ht (by decide)) fun u _ => h.ok u
  pending _ _ _ := ⟨t, by simp [Sys.setPc, Task.Provides]⟩

lemma Inv.enter (ht : (s.task t).pc = .out) :
    Inv { s.setPc t .queued with waiters := s.waiters ++ [⟨t, true⟩] } := by
  have hout : t ∉ s.waiters.map Wait.task := by
    rw [h.linked t, ht]
    exact Bool.false_ne_true
  refine h.update t ⟨.queued, _⟩ s.guard (fun hg => nomatch hg) (fun u _ => h.guard u)
    (fun ho => nomatch ho)
    (fun hs => nomatch hs) (h.ok_setPc ht (by decide)) (fun _ => ⟨fun hs => ?_, fun _ => .inl ?_⟩) _
    ?_ ?_ ?_ fun u hu => ?_
  · exact absurd hs (Task.not_sleeps (by decide))
  · exact .inr (.inr (.inl rfl))
  · exact List.forall_mem_append.2 ⟨h.exclusive, List.forall_mem_singleton.2 rfl⟩
  · rw [List.map_append, List.nodup_append]
    refine ⟨h.nodup, List.nodup_singleton _, fun a ha b hb hab => hout ?_⟩
    have hat : a = t := List.mem_singleton.1 (hab ▸ hb)
    exact hat ▸ ha
  · simp [Pc.waits]
  · simp [hu]

omit h in
lemma map_eraseP_task (q : List Wait) (t : ℕ) :
    (q.eraseP fun w => w.task = t).map Wait.task = (q.map Wait.task).erase t := by
  rw [List.erase_eq_eraseP, List.eraseP_map]
  congr 2
  funext w
  simp only [comp_apply, beq_eq_decide, eq_comm]

lemma Inv.leave (ht : (s.task t).pc = .leaving) :
    Inv { s.setPc t .holding with waiters := s.waiters.eraseP fun w => w.task = t } := by
  have hlocked := h.locked t (by rw [ht]; rfl)
  have hsub : (s.waiters.eraseP fun w => w.task = t).Sublist s.waiters := List.eraseP_sublist
  refine h.update t ⟨.holding, _⟩ s.guard (fun hg => nomatch hg) (fun u _ => h.guard u)
    (fun _ => by rw [ht]; rfl)
    (fun hs => nomatch hs) (h.ok_setPc ht (by decide))
    (fun hfree => absurd hlocked (by simp [hfree])) _
    (fun w hw => h.exclusive w (hsub.subset hw)) (h.nodup.sublist (hsub.map _)) ?_ fun u hu => ?_
  · rw [map_eraseP_task, h.nodup.mem_erase_iff]
    simp [Pc.waits]
  · rw [map_eraseP_task, h.nodup.mem_erase_iff]
    exact and_iff_right hu

/-! ## Waking -/

lemma Inv.wakeWqTarget (t : ℕ) : Inv (wakeWqTarget s t) := by
  rw [Mutex.wakeWqTarget]
  split_ifs with hb
  · have hasleep := (h.ok t).1 (by simp [hb])
    refine h.move t _ s.guard (fun hg => h.guard t hg) (fun u _ => h.guard u) id (h.sees t)
      ⟨fun _ => hasleep, fun _ => by simp⟩ (fun _ => ⟨fun hs => (nomatch hs.2), fun hp => .inl ?_⟩)
      rfl
    rcases hp with hp | hp | hp | hp | ⟨hp, -⟩
    · exact .inl hp
    · exact .inr (.inl hp)
    · exact .inr (.inr (.inl hp))
    · exact .inr (.inr (.inr (.inl hp)))
    · exact .inr (.inr (.inr (.inr ⟨hp, by simp⟩)))
  · exact h

omit h in
lemma wakeWqTarget_pc (s : Sys) (t u : ℕ) : ((wakeWqTarget s t).task u).pc = (s.task u).pc := by
  rw [wakeWqTarget]
  split_ifs
  · by_cases hu : u = t
    · subst hu
      simp
    · rw [setTask_of_ne hu]
  · rfl

omit h in
lemma wakeWqTarget_state_ne (s : Sys) (t : ℕ) : ((wakeWqTarget s t).task t).state ≠ .blocked := by
  rw [wakeWqTarget]
  split_ifs with hb
  · simp
  · exact hb

omit h in
lemma wakeWqTarget_setPc {pc : Pc} (htu : u ≠ t) :
    wakeWqTarget (s.setPc t pc) u = (wakeWqTarget s u).setPc t pc := by
  have hu : (s.setPc t pc).task u = s.task u := setTask_of_ne htu
  rw [wakeWqTarget, wakeWqTarget, hu]
  split_ifs with hb
  · have ht : (s.setTask u { s.task u with state := .ready }).task t = s.task t :=
      setTask_of_ne htu.symm
    rw [Sys.setPc, Sys.setPc, ht]
    simp only [Sys.setTask, update_comm htu]
  · rfl

lemma Inv.provides_of_waits (hfree : s.locked = false) (hw : (s.task t).pc.waits = true)
    (hawake : (s.task t).state ≠ .blocked) : (s.task t).Provides := by
  have hsees := h.sees t
  have howns := h.locked t
  cases hpc : (s.task t).pc <;> simp_all [Pc.sees, Pc.owns, Pc.waits, Task.Provides]

/-- `__wake_up` at the end of `mutex_unlock`. -/
lemma Inv.waking (ht : (s.task t).pc = .waking) :
    Inv ((wakeUp false s.waiters).foldl Mutex.wakeWqTarget (s.setPc t .out)) := by
  have hrun := (h.ok t).running (by simp [ht]) (by simp [ht])
  have hout : t ∉ s.waiters.map Wait.task := by
    rw [h.linked t, ht]
    exact Bool.false_ne_true
  -- the unlocker leaves; whoever still sleeps must find another task that provides
  have hleave : ∀ s1, Inv s1 → s1.task t = ⟨.waking, .running⟩ →
      (s1.locked = false → ∀ u, (s1.task u).Sleeps → ∃ v, v ≠ t ∧ (s1.task v).Provides) →
      Inv (s1.setPc t .out) := by
    intro s1 h1 ht1 hprov
    refine h1.move t _ s1.guard (fun hg => nomatch hg) (fun u _ => h1.guard u)
      (fun ho => nomatch ho)
      (fun hs => nomatch hs) ?_ (fun hfree => ⟨fun hs => ?_, fun _ => .inr (hprov hfree)⟩)
      (by simp [ht1, Pc.waits])
    · simpa only [ht1] using Task.ok_running (by decide)
    · exact absurd hs (Task.not_sleeps (by decide))
  have htask : s.task t = ⟨.waking, .running⟩ := by
    rw [← ht, ← hrun]
  cases hq : s.waiters with
  | nil =>
    -- nobody is in the queue, so nobody sleeps
    refine hleave s h htask fun _ u hu => ?_
    have hwaits : (s.task u).pc.waits = true := by
      rcases hu.1 with hpc | hpc <;> simp [hpc, Pc.waits]
    have := (h.linked u).2 hwaits
    simp [hq] at this
  | cons w q =>
    have hmem : w.task ∈ s.waiters.map Wait.task := by simp [hq]
    have hne : w.task ≠ t := fun hwt => hout (hwt ▸ hmem)
    rw [wakeUp_of_exclusive (hq ▸ h.exclusive)]
    change Inv (Mutex.wakeWqTarget (s.setPc t .out) w.task)
    rw [wakeWqTarget_setPc hne]
    have hother : (Mutex.wakeWqTarget s w.task).task t = s.task t := by
      rw [Mutex.wakeWqTarget]
      split_ifs
      · exact setTask_of_ne hne.symm
      · rfl
    have h1 := h.wakeWqTarget w.task
    refine hleave _ h1 (hother.trans htask) fun hfree _ _ => ⟨w.task, hne, ?_⟩
    refine h1.provides_of_waits hfree ?_ (wakeWqTarget_state_ne s w.task)
    rw [wakeWqTarget_pc]
    exact (h.linked w.task).1 hmem

/-! ## The steps -/

lemma Inv.advance (hs : advance s t = some s') : Inv s' := by
  have hok := h.ok t
  rw [Mutex.advance] at hs
  cases hpc : (s.task t).pc with
  | out | holding => simp [hpc] at hs
  | queued | unlocking | spinning =>
    -- the three places that take `guard`
    simp only [hpc] at hs
    refine h.takeGuard ?_ rfl ?_ (h.ok_setPc hpc (by decide)) hs ⟨fun hx => ?_, ?_⟩
    · simp [hpc, Pc.owns]
    · simp [hpc, Pc.waits]
    · exact absurd hx (Task.not_sleeps (by decide))
    · simp [hpc, Task.Provides]
  | checking =>
    simp only [hpc, some.injEq] at hs
    have hin : (s.task t).pc.inGuard = true := by rw [hpc]; rfl
    subst hs
    split_ifs with hl
    · exact h.moveInside hin (fun ho => nomatch ho) (fun _ => hl) (by simp [hpc, Pc.waits])
        (h.ok_setPc hpc (by decide)) hl
    · exact h.acquire hin (by simpa using hl) (by simp [hpc, Pc.waits]) (h.ok_setPc hpc (by decide))
  | found =>
    simp only [hpc, some.injEq] at hs
    subst hs
    have hl := h.sees t (by rw [hpc]; rfl)
    exact h.moveInside (by rw [hpc]; rfl) (fun ho => nomatch ho) (fun _ => hl)
      (by simp [hpc, Pc.waits]) ⟨fun _ => .inl rfl, fun _ => by simp⟩ hl
  | published =>
    simp only [hpc, some.injEq] at hs
    subst hs
    have hl := h.sees t (by rw [hpc]; rfl)
    exact h.dropGuard (fun ho => nomatch ho) rfl (by simp [hpc, Pc.waits])
      ⟨fun _ => .inr rfl, fun _ => hok.2 (.inl hpc)⟩ (by rw [hpc]; rfl) rfl fun hfree =>
      absurd hl (by simp [hfree])
  | sleeping =>
    simp only [hpc, ite_none_right_eq_some, some.injEq] at hs
    obtain ⟨hready, rfl⟩ := hs
    refine h.move t _ s.guard (fun hg => nomatch hg) (fun u _ => h.guard u) (fun ho => nomatch ho)
      (fun hx => nomatch hx) (Task.ok_running (by decide))
      (fun _ => ⟨fun hx => (nomatch hx.2), fun _ => .inl (.inr (.inr (.inl rfl)))⟩)
      (by simp [hpc, Pc.waits])
  | acquired | spinAcquired =>
    simp only [hpc, some.injEq] at hs
    subst hs
    have hl := h.locked t (by rw [hpc]; rfl)
    exact h.dropGuard (fun _ => by rw [hpc]; rfl) rfl (by simp [hpc, Pc.waits])
      (h.ok_setPc hpc (by decide)) (by rw [hpc]; rfl) rfl fun hfree => absurd hl (by simp [hfree])
  | leaving =>
    simp only [hpc, some.injEq] at hs
    exact hs ▸ h.leave hpc
  | clearing =>
    simp only [hpc, some.injEq] at hs
    exact hs ▸ h.clear hpc
  | cleared =>
    simp only [hpc, some.injEq] at hs
    subst hs
    refine h.dropGuard (fun ho => nomatch ho) rfl (by simp [hpc, Pc.waits])
      (h.ok_setPc hpc (by decide)) (by rw [hpc]; rfl) rfl fun _ =>
      ⟨fun hx => ?_, fun _ => .inr (.inl rfl)⟩
    exact absurd hx (Task.not_sleeps (by decide))
  | waking =>
    simp only [hpc, some.injEq] at hs
    exact hs ▸ h.waking hpc
  | spinChecking =>
    simp only [hpc, some.injEq] at hs
    have hin : (s.task t).pc.inGuard = true := by rw [hpc]; rfl
    subst hs
    split_ifs with hl
    · exact h.dropGuard (fun ho => nomatch ho) rfl (by simp [hpc, Pc.waits])
        (h.ok_setPc hpc (by decide)) hin rfl fun hfree => absurd hl (by simp [hfree])
    · exact h.acquire hin (by simpa using hl) (by simp [hpc, Pc.waits]) (h.ok_setPc hpc (by decide))

theorem inv_step {a : Act} (hs : step s a = some s') : Inv s' := by
  cases a with
  | lock t =>
    obtain ⟨ht, rfl⟩ := of_guard hs
    exact h.enter ht
  | bootLock t =>
    obtain ⟨ht, rfl⟩ := of_guard hs
    refine h.move t _ s.guard (fun hg => nomatch hg) (fun u _ => h.guard u) (fun ho => nomatch ho)
      (fun hx => nomatch hx) (h.ok_setPc ht (by decide)) (fun _ => ⟨fun hx => ?_, fun hp => ?_⟩)
      (by simp [ht, Pc.waits])
    · exact absurd hx (Task.not_sleeps (by decide))
    · simp [ht, Task.Provides] at hp
  | unlock t =>
    obtain ⟨ht, rfl⟩ := of_guard hs
    have hl := h.locked t (by rw [ht]; rfl)
    exact h.move t _ s.guard (fun hg => nomatch hg) (fun u _ => h.guard u)
      (fun _ => by rw [ht]; rfl)
      (fun hx => nomatch hx) (h.ok_setPc ht (by decide)) (fun hfree => absurd hl (by simp [hfree]))
      (by simp [ht, Pc.waits])
  | advance t => exact h.advance hs
  | wake t => exact some.inj hs ▸ h.wakeWqTarget t

lemma Inv.wakePending (hp : (s.task t).Provides) : s.WakePending := by
  -- a waiter at `pc` is in the queue
  have hawake : (s.task t).pc.waits = true → (s.task t).state ≠ .blocked → s.WakePending := by
    intro hw hb
    obtain ⟨w, hmem, rfl⟩ := List.mem_map.1 ((h.linked t).2 hw)
    exact .inr ⟨w, hmem, hb⟩
  rcases hp with hp | hp | hp | hp | ⟨hp, hb⟩
  · exact .inl ⟨t, .inl hp⟩
  · exact .inl ⟨t, .inr hp⟩
  · exact hawake (by rw [hp]; rfl) (by simp [(h.ok t).running (by simp [hp]) (by simp [hp])])
  · exact hawake (by rw [hp]; rfl) (by simp [(h.ok t).running (by simp [hp]) (by simp [hp])])
  · exact hawake (by rw [hp]; rfl) hb

end

/-- At most one task holds the mutex, and it is never free while somebody sleeps for it and no
wake-up is under way. -/
theorem mutex_safe {as : List Act} (h : exec step Sys.init as = some s) :
    (∀ t u, (s.task t).Holds → (s.task u).Holds → t = u) ∧
      ¬ (s.locked = false ∧ (∃ t, (s.task t).Sleeps) ∧ ¬ s.WakePending) := by
  have hinv : Inv s := exec_invariant (fun _ _ _ hI hs => inv_step hI hs) inv_init h
  refine ⟨fun t u ht hu => hinv.unique t u (by rw [ht]; rfl) (by rw [hu]; rfl), ?_⟩
  rintro ⟨hfree, ⟨t, ht⟩, hnone⟩
  obtain ⟨u, hu⟩ := hinv.pending hfree t ht
  exact hnone (hinv.wakePending hu)

/-- Task 1 finds the mutex held by task 0 and sleeps; task 0 clears the flag. -/
def handOver : List Act :=
  [.lock 0, .advance 0, .advance 0, .advance 0, .advance 0, .lock 1, .advance 1, .advance 1,
    .advance 1, .advance 1, .unlock 0, .advance 0, .advance 0]

theorem mutex_safe_hand_over : ∃ s, exec step Sys.init handOver = some s ∧ s.locked = false ∧
    (s.task 1).Sleeps ∧ s.WakePending := by
  obtain ⟨s, hs, hl, hpc, hb⟩ : ∃ s, exec step Sys.init handOver = some s ∧ s.locked = false ∧
      (s.task 1).pc = .sleeping ∧ (s.task 1).state = .blocked := by decide +kernel
  have hsleeps : (s.task 1).Sleeps := ⟨.inr hpc, hb⟩
  refine ⟨s, hs, hl, hsleeps, ?_⟩
  by_contra hnone
  exact (mutex_safe hs).2 ⟨hl, ⟨1, hsleeps⟩, hnone⟩

end XosKernel.Mutex
