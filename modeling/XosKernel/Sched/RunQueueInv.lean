/-
# The run-queue invariant

A task is on the queue of its CPU exactly when its `run_node` is linked, and is `READY` then.
What the loops do without a lock is safe as long as two things hold which the code does not
check: a wake-up that finds its target `BLOCKED` has the lock of the target's CPU, and a loop
that writes `RUNNING` has not been woken since it wrote `BLOCKED`.

The invariant has two parts. `Core` is about the queues, the tasks and where they are; it does
not see the counts. `Counts` is about the locks and `run_count`, which is behind by one while
the holder of the lock is between linking a task and storing the count.
-/
import XosKernel.Sched.RunQueue

namespace XosKernel.RunQueue

open Option Function Sys

variable {s s' : Sys} {t c : ℕ}

/-! ## The property -/

/-- For each CPU the count is the length of the queue; a task is on at most one queue, there
once, and that is the one of its CPU; a task on a queue is `READY`. -/
structure Sys.QueuesOk (s : Sys) : Prop where
  count : ∀ c, (s.cpu c).runCount = (s.cpu c).runQueue.length
  once : ∀ c, (s.cpu c).runQueue.Nodup
  assigned : ∀ c, ∀ t ∈ (s.cpu c).runQueue, (s.task t).assignedCpu = c
  ready : ∀ c, ∀ t ∈ (s.cpu c).runQueue, (s.task t).state = .ready

/-- A wake-up that is about to act on a `BLOCKED` task has the lock of the task's CPU, and a
task that is about to write `RUNNING` has not been made `READY`. -/
def Orderly (s : Sys) : Act → Prop
  | .wakeStep x =>
    match s.ctx x with
    | .test t c => (s.task t).state = .blocked → (s.task t).assignedCpu = c
    | _ => True
  | .finish t => (s.task t).state ≠ .ready
  | _ => True

instance (s : Sys) (a : Act) : Decidable (Orderly s a) := by
  unfold Orderly
  split
  · split <;> infer_instance
  · infer_instance
  · infer_instance

/-- No call is under way and the queues are in order. -/
structure Sys.Start (s : Sys) : Prop where
  queuesOk : s.QueuesOk
  linked : ∀ t, (s.task t).linked = true → t ∈ (s.cpu (s.task t).assignedCpu).runQueue
  queued : ∀ c, ∀ t ∈ (s.cpu c).runQueue, (s.task t).linked = true
  runnable : ∀ t, (s.task t).state ≠ .blocked
  out : ∀ t, (s.task t).phase = .out
  cur : ∀ c, (s.task (s.cpu c).cur).assignedCpu = c ∧ (s.task (s.cpu c).cur).linked = false
  idle : ∀ c, (s.task (s.cpu c).idle).assignedCpu = c ∧ (s.task (s.cpu c).idle).state = .running
  switching : ∀ c, (s.cpu c).switching = none
  lock : ∀ c, (s.cpu c).lock = none
  ctx : ∀ x, s.ctx x = .off

/-! ## The invariant -/

/-- The task may be found `BLOCKED` here. -/
def Phase.exposed : Phase → Bool
  | .out | .top _ => false
  | _ => true

/-- The task is in the loop with `BLOCKED` written, and has not called `schedule`. -/
def Phase.inLoop : Phase → Bool
  | .prepared _ | .sleeping _ | .leaving .. | .cancel .. => true
  | _ => false

/-- The wake-up has seen `t` `BLOCKED` under the lock of `c`. -/
def Wake.Aims (w : Wake) (t c : ℕ) : Prop := w = .ready t c ∨ w = .push t c

/-- The lock that the wake-up has. -/
def Wake.holds : Wake → Option ℕ
  | .off | .lock .. => none
  | .test _ c | .ready _ c | .push _ c | .count c .. => some c

/-- What `run_count` is behind by. -/
def Wake.pending : Wake → ℤ
  | .count .. => 1
  | _ => 0

structure Core (s : Sys) : Prop where
  queue : ∀ c t, t ∈ (s.cpu c).runQueue ↔ (s.task t).linked = true ∧ (s.task t).assignedCpu = c
  nodup : ∀ c, (s.cpu c).runQueue.Nodup
  ready : ∀ t, (s.task t).linked = true → (s.task t).state = .ready
  blocked : ∀ t, (s.task t).state = .blocked → (s.task t).phase.exposed = true
  inLoop : ∀ t, (s.task t).phase.inLoop = true →
    (s.cpu (s.task t).assignedCpu).cur = t ∧ (s.cpu (s.task t).assignedCpu).switching = none
  cur : ∀ c, (s.task (s.cpu c).cur).assignedCpu = c
  current : ∀ c, (s.cpu c).switching = none → (s.task (s.cpu c).cur).phase.exposed = false →
    (s.task (s.cpu c).cur).linked = false
  switching : ∀ c n, (s.cpu c).switching = some n → (s.task n).assignedCpu = c ∧
    (s.task n).state = .running ∧ (s.task n).phase.exposed = false
  idle : ∀ c, (s.task (s.cpu c).idle).assignedCpu = c ∧
    (s.task (s.cpu c).idle).state = .running ∧ (s.task (s.cpu c).idle).phase = .out
  target : ∀ x t c, (s.ctx x).Aims t c →
    (s.task t).assignedCpu = c ∧ (s.task t).phase.exposed = true
  pushing : ∀ x t c, s.ctx x = .push t c → (s.task t).state = .ready

/-- What the count of `c` is behind by. -/
def Sys.pending (s : Sys) (c : ℕ) : ℤ :=
  match (s.cpu c).lock with
  | none => 0
  | some x => (s.ctx x).pending

structure Counts (s : Sys) : Prop where
  held : ∀ x c, (s.ctx x).holds = some c ↔ (s.cpu c).lock = some x
  counting : ∀ x c d r, s.ctx x = .count c d r → d = c ∧ (s.cpu c).runCount = r
  count : ∀ c, (s.cpu c).runCount + s.pending c = (s.cpu c).runQueue.length

structure Inv (s : Sys) : Prop extends Core s, Counts s

lemma Inv.locked_of_aims (h : Inv s) {x : Ctx} (ha : (s.ctx x).Aims t c) :
    (s.cpu c).lock = some x := by
  refine (h.held x c).1 ?_
  rcases ha with ha | ha <;> rw [ha] <;> rfl

lemma Inv.eq_of_holds (h : Inv s) {x : Ctx} {d : ℕ} (hx : (s.ctx x).holds = some c)
    (hd : (s.cpu d).lock = some x) : d = c :=
  some.inj (((h.held x d).2 hd).symm.trans hx)

lemma Inv.not_aims (h : Inv s) (hfree : (s.cpu (s.task t).assignedCpu).lock = none) {x : Ctx}
    {d : ℕ} : ¬ (s.ctx x).Aims t d := by
  intro ha
  have hlock := h.locked_of_aims ha
  rw [← (h.target x t d ha).1, hfree] at hlock
  exact some_ne_none x hlock.symm

lemma Inv.queuesOk (h : Inv s) (hfree : ∀ c, (s.cpu c).lock = none) : s.QueuesOk where
  count c := by
    have hcount := h.count c
    rwa [pending, hfree c, add_zero] at hcount
  once := h.nodup
  assigned c t ht := ((h.queue c t).1 ht).2
  ready c t ht := h.ready t ((h.queue c t).1 ht).1

lemma Inv.start (h : s.Start) : Inv s where
  queue c t := ⟨fun ht => ⟨h.queued c t ht, h.queuesOk.assigned c t ht⟩,
    fun ⟨hl, hc⟩ => hc ▸ h.linked t hl⟩
  nodup := h.queuesOk.once
  ready t ht := h.queuesOk.ready _ t (h.linked t ht)
  blocked t ht := absurd ht (h.runnable t)
  inLoop t ht := by
    rw [h.out t] at ht
    exact absurd ht Bool.false_ne_true
  cur c := (h.cur c).1
  current c _ _ := (h.cur c).2
  switching c n hn := by
    rw [h.switching c] at hn
    exact absurd hn (by simp)
  idle c := ⟨(h.idle c).1, (h.idle c).2, h.out _⟩
  target x t c ha := by
    rw [h.ctx x] at ha
    rcases ha with ha | ha <;> exact absurd ha (by simp)
  pushing x t c hp := by
    rw [h.ctx x] at hp
    exact absurd hp (by simp)
  held x c := by
    rw [h.ctx x, h.lock c]
    simp [Wake.holds]
  counting x c d r hx := by
    rw [h.ctx x] at hx
    exact absurd hx (by simp)
  count c := by
    rw [pending, h.lock c, add_zero]
    exact h.queuesOk.count c

/-! ## Reading back an update -/

section Updates

variable {x : Task} {y : Cpu} {w : Wake} {k : Ctx} {u d : ℕ}

@[grind =] lemma setTask_task : (s.setTask t x).task u = if u = t then x else s.task u :=
  update_apply ..

@[simp] lemma setTask_self : (s.setTask t x).task t = x := update_self ..

lemma setTask_of_ne (h : u ≠ t) : (s.setTask t x).task u = s.task u := update_of_ne h ..

@[simp, grind =] lemma setTask_cpu : (s.setTask t x).cpu d = s.cpu d := rfl

@[simp, grind =] lemma setTask_ctx : (s.setTask t x).ctx k = s.ctx k := rfl

@[grind =] lemma setCpu_cpu : (s.setCpu c y).cpu d = if d = c then y else s.cpu d :=
  update_apply ..

@[simp] lemma setCpu_self : (s.setCpu c y).cpu c = y := update_self ..

lemma setCpu_of_ne (h : d ≠ c) : (s.setCpu c y).cpu d = s.cpu d := update_of_ne h ..

@[simp, grind =] lemma setCpu_task : (s.setCpu c y).task u = s.task u := rfl

@[simp, grind =] lemma setCpu_ctx : (s.setCpu c y).ctx k = s.ctx k := rfl

@[grind =] lemma setCtx_ctx {l : Ctx} : (s.setCtx k w).ctx l = if l = k then w else s.ctx l :=
  update_apply ..

@[simp, grind =] lemma setCtx_task : (s.setCtx k w).task u = s.task u := rfl

@[simp, grind =] lemma setCtx_cpu : (s.setCtx k w).cpu d = s.cpu d := rfl

@[grind =] lemma setLock_cpu {o : Option Ctx} :
    (s.setLock c o).cpu d = if d = c then { s.cpu c with lock := o } else s.cpu d := setCpu_cpu

@[simp, grind =] lemma setLock_ctx {o : Option Ctx} : (s.setLock c o).ctx k = s.ctx k := rfl

end Updates

/-! ## Steps that leave the counts alone -/

section Tasks

variable {x : Task} {y : Cpu}

lemma Core.update (h : Core s) (hc : (s.task t).assignedCpu = c) (hxc : x.assignedCpu = c)
    (hycur : y.cur = (s.cpu c).cur) (hyidle : y.idle = (s.cpu c).idle)
    (hyswitching : y.switching = (s.cpu c).switching)
    (hmem : ∀ u, u ≠ t → (u ∈ y.runQueue ↔ u ∈ (s.cpu c).runQueue))
    (hself : t ∈ y.runQueue ↔ x.linked = true) (hnodup : y.runQueue.Nodup)
    (hready : x.linked = true → x.state = .ready)
    (hblocked : x.state = .blocked → x.phase.exposed = true)
    (hinLoop : x.phase.inLoop = true → (s.cpu c).cur = t ∧ (s.cpu c).switching = none)
    (hcurrent : (s.cpu c).switching = none → (s.cpu c).cur = t → x.phase.exposed = false →
      x.linked = false)
    (hswitching : (s.cpu c).switching = some t → x.state = .running ∧ x.phase.exposed = false)
    (hidle : t ≠ (s.cpu c).idle)
    (htarget : ∀ k d, (s.ctx k).Aims t d → x.phase.exposed = true)
    (hpushing : ∀ k d, s.ctx k = .push t d → x.state = .ready) :
    Core ((s.setCpu c y).setTask t x) := by
  constructor
  case queue => grind [h.queue]
  case nodup => grind [h.nodup]
  case ready => grind [h.ready]
  case blocked => grind [h.blocked]
  case inLoop => grind [h.inLoop]
  case cur => grind [h.cur]
  case current => grind [h.current, h.cur]
  case switching => grind [h.switching]
  case idle => grind [h.idle]
  case target => grind [h.target]
  case pushing => grind [h.pushing]

lemma Counts.congr (h : Counts s) (hctx : s'.ctx = s.ctx)
    (hlock : ∀ c, (s'.cpu c).lock = (s.cpu c).lock)
    (hcount : ∀ c, (s'.cpu c).runCount = (s.cpu c).runCount)
    (hlen : ∀ c, (s'.cpu c).runQueue.length = (s.cpu c).runQueue.length) : Counts s' where
  held k c := by rw [hctx, hlock]; exact h.held k c
  counting k c d r := by rw [hctx, hcount]; exact h.counting k c d r
  count c := by
    rw [hcount, hlen, pending, hlock, hctx]
    exact h.count c

structure SameCore (y z : Cpu) : Prop where
  runQueue : y.runQueue = z.runQueue
  cur : y.cur = z.cur
  idle : y.idle = z.idle
  switching : y.switching = z.switching

lemma Core.congr (h : Core s) (htask : s'.task = s.task) (hctx : s'.ctx = s.ctx)
    (hcpu : ∀ c, SameCore (s'.cpu c) (s.cpu c)) : Core s' where
  queue c t := by rw [htask, (hcpu c).runQueue]; exact h.queue c t
  nodup c := by rw [(hcpu c).runQueue]; exact h.nodup c
  ready := by rw [htask]; exact h.ready
  blocked := by rw [htask]; exact h.blocked
  inLoop t := by rw [htask, (hcpu _).cur, (hcpu _).switching]; exact h.inLoop t
  cur c := by rw [htask, (hcpu c).cur]; exact h.cur c
  current c := by rw [htask, (hcpu c).cur, (hcpu c).switching]; exact h.current c
  switching c n := by rw [htask, (hcpu c).switching]; exact h.switching c n
  idle c := by rw [htask, (hcpu c).idle]; exact h.idle c
  target k := by rw [htask, hctx]; exact h.target k
  pushing k := by rw [htask, hctx]; exact h.pushing k

lemma Core.setLock (h : Core s) (c : ℕ) (o : Option Ctx) : Core (s.setLock c o) := by
  refine h.congr rfl rfl fun d => ?_
  rw [setLock_cpu]
  split_ifs with hd
  · exact hd ▸ ⟨rfl, rfl, rfl, rfl⟩
  · exact ⟨rfl, rfl, rfl, rfl⟩

lemma Core.setCtx (h : Core s) {k : Ctx} {w : Wake}
    (haims : ∀ t c, w.Aims t c → (s.task t).assignedCpu = c ∧ (s.task t).phase.exposed = true)
    (hpush : ∀ t c, w = .push t c → (s.task t).state = .ready) : Core (s.setCtx k w) :=
  { h with
    target := by grind [h.target]
    pushing := by grind [h.pushing] }

lemma setCpu_eq_self : s.setCpu c (s.cpu c) = s := by rw [setCpu, update_eq_self]

lemma Inv.setTask (h : Inv s) (he : s.executing t)
    (hassigned : x.assignedCpu = (s.task t).assignedCpu) (hlinked : x.linked = (s.task t).linked)
    (hready : x.linked = true → x.state = .ready)
    (hblocked : x.state = .blocked → x.phase.exposed = true)
    (hcurrent : x.phase.exposed = false → x.linked = false)
    (htarget : ∀ k d, (s.ctx k).Aims t d → x.phase.exposed = true)
    (hpushing : ∀ k d, s.ctx k = .push t d → x.state = .ready) : Inv (s.setTask t x) := by
  obtain ⟨hcur, hswitching, hidle⟩ := he
  refine ⟨?_, { h.toCounts with }⟩
  have hcore := h.toCore.update (y := s.cpu (s.task t).assignedCpu) rfl hassigned rfl rfl rfl
    (fun _ _ => Iff.rfl) ((h.queue _ t).trans (by rw [hlinked]; exact and_iff_left rfl))
    (h.nodup _) hready hblocked (fun _ => ⟨hcur, hswitching⟩) (fun _ _ => hcurrent)
    (fun hsome => nomatch hswitching.symm.trans hsome) hidle htarget hpushing
  rwa [setCpu_eq_self] at hcore

lemma Inv.setPhase (h : Inv s) (he : s.executing t) {ph : Phase} (hph : ph.exposed = true) :
    Inv (s.setPhase t ph) :=
  h.setTask he rfl rfl (h.ready t) (fun _ => hph)
    (fun hfalse => nomatch hph.symm.trans hfalse) (fun _ _ _ => hph)
    fun k d => h.pushing k t d

lemma Inv.setFile (h : Inv s) (f : ℕ) (z : Eventfd) : Inv (s.setFile f z) :=
  { h with }

lemma Inv.not_linked (h : Inv s) (he : s.executing t) (hph : (s.task t).phase.exposed = false) :
    (s.task t).linked = false := by
  have hcurrent := h.current (s.task t).assignedCpu he.2.1
  rw [he.1] at hcurrent
  exact hcurrent hph

end Tasks

/-! ## The steps of the loops -/

lemma Inv.enter (h : Inv s) {call : Call} (hs : s.enter t call = some s') : Inv s' := by
  obtain ⟨⟨he, hph⟩, hs⟩ := ite_none_right_eq_some.1 hs
  have hexp : (s.task t).phase.exposed = false := by rw [hph]; rfl
  have hlinked := h.not_linked he hexp
  have hrun : (s.task t).state ≠ .blocked := fun hb =>
    absurd (hexp.symm.trans (h.blocked t hb)) (by simp)
  have haims : ∀ k d, ¬ (s.ctx k).Aims t d := fun k d ha =>
    absurd (hexp.symm.trans (h.target k t d ha).2) (by simp)
  have hgo : ∀ x : Task, x.state = (s.task t).state → x.linked = (s.task t).linked →
      x.assignedCpu = (s.task t).assignedCpu → Inv (s.setTask t x) := fun x hstate hl hc =>
    h.setTask he hc hl (fun hx => absurd (hl.symm.trans hx) (by simp [hlinked]))
      (fun hb => absurd (hstate.symm.trans hb) hrun) (fun _ => hl.trans hlinked)
      (fun k d ha => absurd ha (haims k d)) fun k d hp => absurd (.inr hp) (haims k d)
  have htop : Inv (s.setPhase t (.top call)) := hgo _ rfl rfl rfl
  dsimp only at hs
  split_ifs at hs
  · exact some.inj hs ▸ hgo _ rfl rfl rfl
  · exact some.inj hs ▸ htop.setFile ..
  · exact some.inj hs ▸ htop

lemma Inv.prepare (h : Inv s) (hs : s.prepare t = some s') : Inv s' := by
  rw [Sys.prepare] at hs
  split at hs
  · next call hph =>
    obtain ⟨he, hs⟩ := ite_none_right_eq_some.1 hs
    have hexp : (s.task t).phase.exposed = false := by rw [hph]; rfl
    have hlinked := h.not_linked he hexp
    have haims : ∀ k d, ¬ (s.ctx k).Aims t d := fun k d ha =>
      absurd (hexp.symm.trans (h.target k t d ha).2) (by simp)
    have heq : (s.setState t .blocked).setPhase t (.prepared call) =
        s.setTask t { s.task t with state := .blocked, phase := .prepared call } := by
      simp only [Sys.setPhase, Sys.setState, Sys.setTask, update_self, update_idem]
    rw [heq] at hs
    refine some.inj hs ▸ h.setTask he rfl rfl ?_ (fun _ => rfl) (fun _ => hlinked)
      (fun k d ha => absurd ha (haims k d)) fun k d hp => absurd (.inr hp) (haims k d)
    exact fun hl => nomatch hlinked.symm.trans hl
  · exact nomatch hs

lemma Inv.check (h : Inv s) {signal copied : Bool} (hs : s.check t signal copied = some s') :
    Inv s' := by
  rw [Sys.check] at hs
  split at hs
  · next call hph =>
    obtain ⟨he, hs⟩ := ite_none_right_eq_some.1 hs
    dsimp only at hs
    split at hs
    · exact some.inj hs ▸ (h.setFile call.file _).setPhase he rfl
    · split_ifs at hs
      · exact some.inj hs ▸ h.setPhase he rfl
      · exact some.inj hs ▸ h.setPhase he rfl
      · exact some.inj hs ▸ h.setPhase he rfl
  · exact nomatch hs

lemma Inv.finish (h : Inv s) (hC : (s.task t).state ≠ .ready) (hs : s.finish t = some s') :
    Inv s' := by
  rw [Sys.finish] at hs
  split at hs
  · next call ret hph =>
    obtain ⟨⟨he, -⟩, hs⟩ := ite_none_right_eq_some.1 hs
    have hlinked : (s.task t).linked = false := by
      by_contra hl
      exact hC (h.ready t (by simpa using hl))
    have heq : (s.setState t .running).setPhase t (.cancel call ret) =
        s.setTask t { s.task t with state := .running, phase := .cancel call ret } := by
      simp only [Sys.setPhase, Sys.setState, Sys.setTask, update_self, update_idem]
    rw [heq] at hs
    refine some.inj hs ▸ h.setTask he rfl rfl ?_ (fun _ => rfl) (fun _ => hlinked)
      (fun _ _ _ => rfl) fun k d hp => absurd (h.pushing k t d hp) hC
    exact fun hl => nomatch hlinked.symm.trans hl
  · exact nomatch hs

/-! ## The steps of a wake-up -/

section Wakes

variable {k : Ctx} {w : Wake}

lemma Wake.not_aims_off (t c : ℕ) : ¬ Wake.off.Aims t c := by
  rintro (h | h) <;> exact absurd h (by simp)

lemma Counts.setCtx (h : Counts s) (hholds : w.holds = (s.ctx k).holds)
    (hpending : (s.ctx k).pending = 0) (hw : w.pending = 0) : Counts (s.setCtx k w) where
  held := by grind [h.held]
  counting := by grind [h.counting, Wake.pending]
  count := by grind [h.count, pending]

lemma Inv.wakeWqTarget (h : Inv s) (hs : s.wakeWqTarget k t = some s') : Inv s' := by
  obtain ⟨hoff, rfl⟩ := of_guard hs
  refine ⟨h.toCore.setCtx ?_ ?_, h.toCounts.setCtx ?_ ?_ rfl⟩
  · rintro u d (ha | ha) <;> exact absurd ha (by simp)
  · exact fun u d ha => absurd ha (by simp)
  · rw [hoff]
    rfl
  · rw [hoff]
    rfl

lemma Inv.wakeNext (h : Inv s) (hs : s.wakeNext t = some s') : Inv s' := by
  rw [Sys.wakeNext] at hs
  split at hs
  · obtain ⟨he, hs⟩ := ite_none_right_eq_some.1 hs
    exact (h.setPhase he rfl).wakeWqTarget hs
  · exact nomatch hs

lemma Counts.setLock (h : Counts s) {o : Option Ctx} (hfree : ∀ l, (s.cpu c).lock = some l → l = k)
    (ho : o = none ∧ w.holds = none ∨ o = some k ∧ w.holds = some c)
    (hk : ∀ d, (s.ctx k).holds = some d → d = c)
    (hpending : (s.ctx k).pending = 0) (hw : w.pending = 0) :
    Counts ((s.setLock c o).setCtx k w) where
  held := by grind [h.held]
  counting := by grind [h.counting, Wake.pending]
  count := by grind [h.count, h.held, pending]

lemma Inv.unlock (h : Inv s) (hholds : (s.ctx k).holds = some c)
    (hpending : (s.ctx k).pending = 0) : Inv ((s.setLock c none).setCtx k .off) := by
  have hlock := (h.held k c).1 hholds
  refine ⟨Core.setCtx (h.toCore.setLock c none) (fun u d ha => absurd ha (Wake.not_aims_off u d))
    (by simp), ?_⟩
  refine h.toCounts.setLock (fun l hl => ?_) (.inl ⟨rfl, rfl⟩) (fun d hd => ?_) hpending rfl
  · exact some.inj (hl.symm.trans hlock)
  · exact some.inj (hd.symm.trans hholds)

lemma Inv.lock (h : Inv s) (hk : s.ctx k = .lock t c) (hfree : (s.cpu c).lock = none) :
    Inv ((s.setLock c (some k)).setCtx k (.test t c)) := by
  refine ⟨Core.setCtx (h.toCore.setLock c _) (by rintro u d (ha | ha) <;> exact absurd ha (by simp))
    (by simp), ?_⟩
  exact h.toCounts.setLock (by grind) (.inr ⟨rfl, rfl⟩) (by grind [Wake.holds]) (by rw [hk]; rfl)
    rfl

lemma Core.exposed_ne_idle (h : Core s) (hexp : (s.task t).phase.exposed = true) :
    t ≠ (s.cpu c).idle := by
  rintro rfl
  rw [(h.idle c).2.2] at hexp
  exact absurd hexp Bool.false_ne_true

lemma Inv.makeReady (h : Inv s) (hk : s.ctx k = .ready t c) :
    Inv ((s.setState t .ready).setCtx k (.push t c)) := by
  obtain ⟨hc, hexp⟩ := h.target k t c (.inl hk)
  have hcore : Core (s.setState t .ready) := by
    have := h.toCore.update (x := { s.task t with state := .ready }) (y := s.cpu c) hc hc rfl rfl
      rfl (fun _ _ => Iff.rfl) ((h.queue c t).trans (and_iff_left hc)) (h.nodup c) (fun _ => rfl)
      (fun hb => absurd hb (by simp)) (fun hl => hc ▸ h.inLoop t hl)
      (fun _ _ hfalse => nomatch hexp.symm.trans hfalse)
      (fun hsome => absurd (hexp.symm.trans (h.switching c t hsome).2.2) (by simp))
      (h.exposed_ne_idle hexp) (fun _ _ _ => hexp) (fun _ _ _ => rfl)
    rwa [setCpu_eq_self] at this
  refine ⟨hcore.setCtx ?_ ?_, ?_⟩
  · rintro u d (ha | ha)
    · exact absurd ha (by simp)
    · obtain ⟨rfl, rfl⟩ := Wake.push.inj ha
      rw [setState, setTask_self]
      exact ⟨hc, hexp⟩
  · intro u d ha
    obtain ⟨rfl, rfl⟩ := Wake.push.inj ha
    rw [setState, setTask_self]
  · have hcounts : Counts (s.setState t .ready) :=
      { h.toCounts with }
    refine hcounts.setCtx ?_ ?_ rfl
    · change _ = (s.ctx k).holds
      rw [hk]
      rfl
    · change (s.ctx k).pending = 0
      rw [hk]
      rfl

/-- Linking the task keeps the core; the holder of the lock now has a count to store. -/
lemma Inv.pushLink (h : Inv s) (hk : s.ctx k = .push t c) (hlinked : (s.task t).linked = false) :
    Inv ((s.link c t).setCtx k (.count c c (s.cpu c).runCount)) := by
  obtain ⟨hc, hexp⟩ := h.target k t c (.inr hk)
  have hready := h.pushing k t c hk
  have hlock : (s.cpu c).lock = some k := h.locked_of_aims (.inr hk)
  have hmem : t ∉ (s.cpu c).runQueue := fun hm =>
    absurd (hlinked.symm.trans ((h.queue c t).1 hm).1) (by simp)
  have hcore : Core (s.link c t) :=
    h.toCore.update hc hc rfl rfl rfl
      (fun u hu => by simp [hu])
      (by simp) (List.nodup_append.2 ⟨h.nodup c, List.nodup_singleton t, by
        intro a ha b hb
        rw [List.mem_singleton.1 hb]
        exact fun hab => hmem (hab ▸ ha)⟩)
      (fun _ => hready) (fun hb => nomatch hready.symm.trans hb)
      (fun hl => hc ▸ h.inLoop t hl)
      (fun _ _ hfalse => nomatch hexp.symm.trans hfalse)
      (fun hsome => absurd (hexp.symm.trans (h.switching c t hsome).2.2) (by simp))
      (h.exposed_ne_idle hexp) (fun _ _ _ => hexp) (fun _ _ _ => hready)
  refine ⟨hcore.setCtx ?_ (by simp), ?_⟩
  · rintro u d (ha | ha) <;> exact absurd ha (by simp)
  have hcpu : ∀ d, ((s.link c t).cpu d).lock = (s.cpu d).lock ∧
      ((s.link c t).cpu d).runCount = (s.cpu d).runCount ∧
      (d ≠ c → ((s.link c t).cpu d).runQueue = (s.cpu d).runQueue) := by grind [link]
  have hlen : ((s.link c t).cpu c).runQueue.length = (s.cpu c).runQueue.length + 1 := by
    simp [link]
  have hctx : ∀ l, (s.link c t).ctx l = s.ctx l := fun _ => rfl
  have hown : ∀ d, (s.cpu d).lock = some k → d = c := fun d => h.eq_of_holds (by rw [hk]; rfl)
  constructor
  case held => grind [h.held, Wake.holds]
  case counting => grind [h.counting]
  case count => grind [h.count, pending, Wake.pending]

lemma Inv.storeCount (h : Inv s) {r : ℤ} (hk : s.ctx k = .count c c r) :
    Inv (((s.setCpu c { s.cpu c with runCount := r + 1 }).setLock c none).setCtx k .off) := by
  have hlock : (s.cpu c).lock = some k := (h.held k c).1 (by rw [hk]; rfl)
  obtain ⟨-, hr⟩ := h.counting k c c r hk
  have hlen : r + 1 = (s.cpu c).runQueue.length := by
    have hcount := h.count c
    rw [pending, hlock] at hcount
    simpa only [hk, hr, Wake.pending] using hcount
  refine ⟨Core.setCtx (Core.setLock ?_ c none) (fun u d ha => absurd ha (Wake.not_aims_off u d))
    (by simp), ?_⟩
  · exact h.toCore.congr rfl rfl fun d => by grind [SameCore]
  · have hown : ∀ d, (s.cpu d).lock = some k → d = c := fun d => h.eq_of_holds (by rw [hk]; rfl)
    have hcounts : ∀ l d e q, s.ctx l = .count d e q → (s.cpu d).lock = some l := fun l d e q hl =>
      (h.held l d).1 (by rw [hl]; rfl)
    constructor
    case held => grind [h.held, Wake.holds]
    case counting => grind [h.counting]
    case count => grind [h.count, pending]

theorem Inv.wakeStep (h : Inv s) (hC : Orderly s (.wakeStep k)) (hs : s.wakeStep k = some s') :
    Inv s' := by
  rw [Sys.wakeStep] at hs
  split at hs
  · exact nomatch hs
  · grind [h.lock]
  · next t c hk =>
    have hholds : (s.ctx k).holds = some c := by rw [hk]; rfl
    split_ifs at hs with hb
    · have hc : (s.task t).assignedCpu = c := by
        simp only [Orderly, hk] at hC
        exact hC hb
      refine some.inj hs ▸ ⟨h.toCore.setCtx ?_ (by simp), h.toCounts.setCtx ?_ ?_ rfl⟩
      · rintro u d (ha | ha)
        · obtain ⟨rfl, rfl⟩ := Wake.ready.inj ha
          exact ⟨hc, h.blocked t hb⟩
        · exact absurd ha (by simp)
      · rw [hk]
        rfl
      · rw [hk]
        rfl
    · exact some.inj hs ▸ h.unlock hholds (by rw [hk]; rfl)
  · next t c hk => exact some.inj hs ▸ h.makeReady hk
  · next t c hk =>
    have hholds : (s.ctx k).holds = some c := by rw [hk]; rfl
    split_ifs at hs with hl
    · exact some.inj hs ▸ h.unlock hholds (by rw [hk]; rfl)
    · rw [(h.target k t c (.inr hk)).1] at hs
      exact some.inj hs ▸ h.pushLink hk (by simpa using hl)
  · next c d r hk =>
    obtain ⟨rfl, -⟩ := h.counting k c d r hk
    exact some.inj hs ▸ h.storeCount hk

end Wakes

end XosKernel.RunQueue
