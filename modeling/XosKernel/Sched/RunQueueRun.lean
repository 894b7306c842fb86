/-
# The run-queue invariant along runs

The sections of `sched_cancel_spurious_wake`, `schedule` and `sched_try_steal_task` are under the
locks of the CPUs they change. Each is a sequence of changes to one task and the queue of its
CPU, so that the invariant follows from `Core.update`.
-/
import XosKernel.Sched.RunQueueInv

namespace XosKernel.RunQueue

open List Option Function Sys

variable {s s' : Sys} {t c : ℕ}

/-! ## Sections under a lock -/

lemma Counts.setFree (h : Counts s) {y : Cpu} (hctx : s'.ctx = s.ctx)
    (hcpu : s'.cpu = update s.cpu c y) (hfree : (s.cpu c).lock = none)
    (hlock : y.lock = none) (hlen : y.runCount = y.runQueue.length) : Counts s' := by
  replace hctx : ∀ k, s'.ctx k = s.ctx k := congrFun hctx
  replace hcpu : ∀ d, s'.cpu d = if d = c then y else s.cpu d := fun d => by rw [hcpu, update_apply]
  have hcounts : ∀ k d e r, s.ctx k = .count d e r → (s.cpu d).lock = some k := fun k d e r hk =>
    (h.held k d).1 (by rw [hk]; rfl)
  constructor
  case held => grind [h.held]
  case counting => grind [h.counting]
  case count => grind [h.count, pending]

lemma Inv.count_of_free (h : Inv s) (hfree : (s.cpu c).lock = none) :
    (s.cpu c).runCount = (s.cpu c).runQueue.length := by
  have hcount := h.count c
  rwa [pending, hfree, add_zero] at hcount

lemma Core.choose (h : Core s) {n : ℕ} (hcur : (s.task (s.cpu c).cur).phase.inLoop = false)
    (hassigned : (s.task n).assignedCpu = c) (hstate : (s.task n).state = .running)
    (hexp : (s.task n).phase.exposed = false) :
    Core (s.setCpu c { s.cpu c with switching := some n }) := by
  constructor
  case queue => grind [h.queue]
  case nodup => grind [h.nodup]
  case ready => exact h.ready
  case blocked => exact h.blocked
  case inLoop => grind [h.inLoop]
  case cur => grind [h.cur]
  case current => grind [h.current]
  case switching => grind [h.switching]
  case idle => grind [h.idle]
  case target => exact h.target
  case pushing => exact h.pushing

lemma Inv.switchTo (h : Inv s) (hs : s.switchTo c = some s') : Inv s' := by
  obtain ⟨n, hn, rfl⟩ := map_eq_some_iff.1 hs
  obtain ⟨hassigned, hstate, hexp⟩ := h.switching c n hn
  have hl : (s.task n).linked = false := by grind [h.ready]
  refine ⟨?_, h.toCounts.congr rfl (by grind) (by grind) (by grind)⟩
  constructor
  case queue => grind [h.queue]
  case nodup => grind [h.nodup]
  case ready => exact h.ready
  case blocked => exact h.blocked
  case inLoop =>
    intro u hu
    have hd : (s.task u).assignedCpu ≠ c := fun hd => by
      have hloop := (h.inLoop u hu).2
      rw [hd, hn] at hloop
      exact absurd hloop (by simp)
    rw [setCpu_task, setCpu_of_ne hd]
    exact h.inLoop u hu
  case cur => grind [h.cur]
  case current => grind [h.current]
  case switching => grind [h.switching]
  case idle => grind [h.idle]
  case target => exact h.target
  case pushing => exact h.pushing

/-! ## Leaving the loop -/

lemma Core.unlink (h : Core s) {x : Task} {r : ℤ} (hc : (s.task t).assignedCpu = c)
    (hxc : x.assignedCpu = c) (hlinked : x.linked = false)
    (hblocked : x.state = .blocked → x.phase.exposed = true) (hloop : x.phase.inLoop = false)
    (hswitching : (s.cpu c).switching = some t → x.state = .running ∧ x.phase.exposed = false)
    (hidle : t ≠ (s.cpu c).idle) (haims : ∀ k d, ¬ (s.ctx k).Aims t d) :
    Core ((s.setCpu c { s.cpu c with
      runQueue := (s.cpu c).runQueue.erase t, runCount := r }).setTask t x) :=
  h.update hc hxc rfl rfl rfl (fun _ hu => mem_erase_of_ne hu)
    ⟨fun hm => absurd hm (h.nodup c).not_mem_erase, fun hl => nomatch hlinked.symm.trans hl⟩
    ((h.nodup c).erase t) (fun hl => nomatch hlinked.symm.trans hl) hblocked
    (fun hl => nomatch hloop.symm.trans hl) (fun _ _ _ => hlinked) hswitching hidle
    (fun k d ha => absurd ha (haims k d)) fun k d hp => absurd (.inr hp) (haims k d)

@[grind =] lemma runQueuePop_apply {u : ℕ} :
    (s.runQueuePop c t).task u = if u = t then { s.task t with linked := false } else s.task u :=
    setTask_task

@[simp] lemma runQueuePop_task : (s.runQueuePop c t).task t = { s.task t with linked := false } :=
  setTask_self

lemma runQueuePop_cpu (hc : (s.task t).assignedCpu = c) :
    (s.runQueuePop c t).cpu = update s.cpu c { s.cpu c with
      runQueue := (s.cpu c).runQueue.erase t, runCount := (s.cpu c).runCount + -1 } := by
  rw [runQueuePop, hc]
  simp only [addCount, unlink, setCpu, setTask, update_self, update_idem]

/-- A section under the lock of the task's CPU takes the task off the queue, or finds it not
linked. -/
lemma Inv.popTask (h : Inv s) {x : Task} (hc : (s.task t).assignedCpu = c)
    (hfree : (s.cpu c).lock = none) (hl : (s.task t).linked = true) (hxc : x.assignedCpu = c)
    (hlinked : x.linked = false)
    (hblocked : x.state = .blocked → x.phase.exposed = true) (hloop : x.phase.inLoop = false)
    (hswitching : (s.cpu c).switching = some t → x.state = .running ∧ x.phase.exposed = false)
    (hidle : t ≠ (s.cpu c).idle) : Inv ((s.runQueuePop c t).setTask t x) := by
  have hmem : t ∈ (s.cpu c).runQueue := (h.queue c t).2 ⟨hl, hc⟩
  have hcpu := runQueuePop_cpu hc
  have heq : (s.runQueuePop c t).setTask t x = (s.setCpu c { s.cpu c with
      runQueue := (s.cpu c).runQueue.erase t, runCount := (s.cpu c).runCount + -1 }).setTask t
      x := by
    refine Sys.ext rfl hcpu ?_ rfl rfl
    simp only [Sys.runQueuePop, Sys.addCount, Sys.unlink, Sys.setCpu, Sys.setTask, update_idem]
  refine ⟨?_, h.toCounts.setFree rfl hcpu hfree hfree ?_⟩
  · rw [heq]
    exact h.toCore.unlink hc hxc hlinked hblocked hloop hswitching hidle fun k d =>
      h.not_aims (by rw [hc]; exact hfree)
  · have hcount := h.count_of_free hfree
    have hlen := length_erase_add_one hmem
    change (s.cpu c).runCount + -1 = ((s.cpu c).runQueue.erase t).length
    omega

lemma Inv.cancelSpuriousWake (h : Inv s) (hs : s.cancelSpuriousWake t = some s') : Inv s' := by
  rw [Sys.cancelSpuriousWake] at hs
  split at hs
  · next call ret hph =>
    obtain ⟨⟨he, hfree⟩, hs⟩ := ite_none_right_eq_some.1 hs
    have haims : ∀ k d, ¬ (s.ctx k).Aims t d := fun k d => h.not_aims hfree
    have hmain : Inv ((if (s.task t).linked = true then s.runQueuePop (s.task t).assignedCpu t
        else s).setTask t { (if (s.task t).linked = true then
          s.runQueuePop (s.task t).assignedCpu t else s).task t with
          state := .running, phase := .out, ret := some ret }) := by
      by_cases hl : (s.task t).linked = true
      · rw [if_pos hl, runQueuePop_task]
        exact h.popTask rfl hfree hl rfl rfl (fun hb => absurd hb (by simp)) rfl
          (fun _ => ⟨rfl, rfl⟩) he.2.2
      · rw [if_neg hl]
        exact h.setTask he rfl rfl (fun hx => absurd hx hl)
          (fun hb => absurd hb (by simp)) (fun _ => Bool.eq_false_iff.2 hl) (fun k d ha =>
          absurd ha (haims k d))
          fun k d hp => absurd (.inr hp) (haims k d)
    by_cases hwq : call.hasWq = true
    · rw [if_pos hwq] at hs
      exact some.inj hs ▸ hmain.setFile ..
    · rw [if_neg hwq] at hs
      exact some.inj hs ▸ hmain
  · exact nomatch hs

/-! ## `schedule` -/

lemma Phase.sleep_not_inLoop {ph : Phase} (h : ph.yields = true) : ph.sleep.inLoop = false := by
  cases ph <;> first | rfl | exact absurd h (by simp [Phase.yields])

lemma Phase.resume_exposed {ph : Phase} (h : ph.inLoop = false) : ph.resume.exposed = false := by
  cases ph <;> first | rfl | exact absurd h (by simp [Phase.inLoop])

lemma Phase.resume_inLoop {ph : Phase} (h : ph.inLoop = false) : ph.resume.inLoop = false := by
  cases ph <;> first | rfl | exact absurd h (by simp [Phase.inLoop])

lemma Inv.sleep (h : Inv s) (hnone : (s.cpu c).switching = none)
    (hy : (s.task (s.cpu c).cur).phase.yields = true) :
    Inv (s.setPhase (s.cpu c).cur (s.task (s.cpu c).cur).phase.sleep) := by
  have hc := h.cur c
  cases hph : (s.task (s.cpu c).cur).phase with
  | out =>
    have heq : s.setPhase (s.cpu c).cur (Phase.out).sleep = s := by
      rw [Phase.sleep, ← hph, Sys.setPhase, Sys.setTask, update_eq_self]
      all_goals simp
    rw [heq]
    exact h
  | sleeping call =>
    have hidle : (s.cpu c).cur ≠ (s.cpu c).idle := fun he => by
      have := (h.idle c).2.2
      rw [← he, hph] at this
      exact absurd this (by simp)
    exact h.setPhase (t := (s.cpu c).cur) (by rw [executing, hc]; exact ⟨rfl, hnone, hidle⟩) rfl
  | top call | prepared call | asleep call | leaving call ws ret | cancel call ret =>
    rw [hph] at hy
    exact absurd hy (by simp [Phase.yields])

lemma Inv.pushTask (h : Inv s) (hc : (s.task t).assignedCpu = c) (hfree : (s.cpu c).lock = none)
    (hl : (s.task t).linked = false) (hloop : (s.task t).phase.inLoop = false)
    (hcur : (s.cpu c).switching = none → (s.cpu c).cur ≠ t)
    (hswitching : (s.cpu c).switching ≠ some t) (hidle : t ≠ (s.cpu c).idle) :
    Inv ((s.setState t .ready).runQueuePush c t) := by
  have hmem : t ∉ (s.cpu c).runQueue := fun hm =>
    absurd (hl.symm.trans ((h.queue c t).1 hm).1) (by simp)
  have haims : ∀ k d, ¬ (s.ctx k).Aims t d := fun k d => h.not_aims (by rw [hc]; exact hfree)
  have heq : (s.setState t .ready).runQueuePush c t = (s.setCpu c { s.cpu c with
      runQueue := (s.cpu c).runQueue ++ [t], runCount := (s.cpu c).runCount + 1 }).setTask t
      { s.task t with state := .ready, linked := true } := by
    simp only [Sys.runQueuePush, Sys.addCount, Sys.link, Sys.setState, Sys.setCpu, Sys.setTask,
      update_self, update_idem]
  rw [heq]
  refine ⟨h.toCore.update hc hc rfl rfl rfl (fun u hu => by simp [hu]) (by simp)
    (nodup_append.2 ⟨h.nodup c, nodup_singleton t, ?_⟩) (fun _ => rfl)
    (fun hb => absurd hb (by simp)) (fun hx => by cases hloop.symm.trans hx)
    (fun hnone he => absurd he (hcur hnone)) (fun hsome => absurd hsome hswitching) hidle
    (fun k d ha => absurd ha (haims k d)) (fun _ _ _ => rfl),
    h.toCounts.setFree rfl rfl hfree hfree ?_⟩
  · intro a ha b hb
    rw [mem_singleton.1 hb]
    exact fun hab => hmem (hab ▸ ha)
  · have hcount := h.count_of_free hfree
    simp only [length_append, length_singleton]
    omega

lemma Inv.continue (h : Inv s) {prev : ℕ} (hprev : (s.cpu c).cur = prev)
    (hfree : (s.cpu c).lock = none) (hnone : (s.cpu c).switching = none)
    (hempty : (s.cpu c).runQueue = [])
    (hrun : ¬ (prev ≠ (s.cpu c).idle ∧ (s.task prev).state = .blocked)) :
    Inv (s.setPhase prev (s.task prev).phase.resume) := by
  have hc : (s.task prev).assignedCpu = c := hprev ▸ h.cur c
  by_cases hidle : prev = (s.cpu c).idle
  · have hout : (s.task prev).phase = .out := hidle ▸ (h.idle c).2.2
    have heq : s.setPhase prev (s.task prev).phase.resume = s := by
      have htask : ({ s.task prev with phase := (s.task prev).phase.resume } : Task) =
          s.task prev := by
        rw [hout]
        change ({ s.task prev with phase := .out } : Task) = s.task prev
        rw [← hout]
      rw [Sys.setPhase, htask, Sys.setTask, update_eq_self]
    rw [heq]
    exact h
  · have hlinked : (s.task prev).linked = false := by
      by_contra hl
      have hm := (h.queue c prev).2 ⟨by simpa using hl, hc⟩
      rw [hempty] at hm
      exact absurd hm not_mem_nil
    have haims : ∀ k d, ¬ (s.ctx k).Aims prev d := fun k d => h.not_aims (by rw [hc]; exact hfree)
    refine h.setTask ?_ rfl rfl (fun hx => by cases hlinked.symm.trans hx)
      (fun hb => absurd ⟨hidle, hb⟩ hrun) (fun _ => hlinked)
      (fun k d ha => absurd ha (haims k d)) fun k d hp => absurd (.inr hp) (haims k d)
    rw [executing, hc]
    exact ⟨hprev, hnone, hidle⟩

/-- The task at the head of the queue as it goes on. -/
def Sys.resumed (s : Sys) (next : ℕ) : Task :=
  { s.task next with state := .running, linked := false, phase := (s.task next).phase.resume }

/-- The state after the head of the queue has been taken off and chosen. -/
def Sys.picked (s : Sys) (c next : ℕ) (rest : List ℕ) : Sys :=
  ((s.runQueuePop c next).setTask next (s.resumed next)).setCpu c
    { s.cpu c with runQueue := rest, runCount := (s.cpu c).runCount + -1, switching := some next }

lemma picked_cpu {next : ℕ} {rest : List ℕ} : (s.picked c next rest).cpu c =
    { s.cpu c with
      runQueue := rest, runCount := (s.cpu c).runCount + -1, switching := some next } :=
  setCpu_self

lemma Inv.pick (h : Inv s) {next : ℕ} {rest : List ℕ} (hfree : (s.cpu c).lock = none)
    (hnone : (s.cpu c).switching = none)
    (hloop : (s.task (s.cpu c).cur).phase.inLoop = false)
    (hqueue : (s.cpu c).runQueue = next :: rest) :
    Inv (s.picked c next rest) := by
  obtain ⟨hl, hc⟩ := (h.queue c next).1 (hqueue ▸ mem_cons_self ..)
  have hnext : (s.task next).phase.inLoop = false := by
    by_contra hin
    have := (h.inLoop next (by simpa using hin)).1
    rw [hc] at this
    rw [this] at hloop
    exact hin hloop
  have hidle : next ≠ (s.cpu c).idle := by
    rintro rfl
    exact absurd ((h.ready _ hl).symm.trans (h.idle c).2.1) (by simp)
  have hpop := h.popTask (x := s.resumed next) hc hfree hl hc rfl
    (fun hb => absurd hb (by simp [Sys.resumed])) (Phase.resume_inLoop hnext)
    (fun hsome => nomatch hnone.symm.trans hsome) hidle
  have hcpu : ((s.runQueuePop c next).setTask next (s.resumed next)).cpu c =
      { s.cpu c with runQueue := rest, runCount := (s.cpu c).runCount + -1 } := by
    rw [setTask_cpu, runQueuePop_cpu hc, update_self, hqueue, erase_cons_head]
  have hchoose := hpop.toCore.choose (c := c) (n := next) ?_ ?_ ?_ ?_
  · rw [hcpu] at hchoose
    refine ⟨hchoose, hpop.toCounts.congr rfl (fun d => ?_) (fun d => ?_) fun d => ?_⟩
    all_goals
      rw [Sys.picked, setCpu_cpu]
      split_ifs with hd
      · rw [hd, hcpu]
      · rfl
  · rw [hcpu]
    rw [setTask_task]
    split_ifs with hn
    · exact Phase.resume_inLoop hnext
    · rwa [runQueuePop_apply, if_neg hn]
  · rw [setTask_self]
    exact hc
  · rw [setTask_self]
    rfl
  · rw [setTask_self]
    exact Phase.resume_exposed hnext

/-- `schedule` after the task has gone into it. -/
def Sys.reschedule (s : Sys) (c prev : ℕ) : Sys :=
  match (s.cpu c).runQueue with
  | [] =>
    if prev ≠ (s.cpu c).idle ∧ (s.task prev).state = .blocked then
      s.setCpu c { s.cpu c with switching := some (s.cpu c).idle }
    else s.setPhase prev (s.task prev).phase.resume
  | next :: rest =>
    let s1 := ((s.runQueuePop c next).setTask next { s.task next with
        state := .running, linked := false, phase := (s.task next).phase.resume }).setCpu c
      { s.cpu c with
        runQueue := rest
        runCount := (s.cpu c).runCount + -1
        switching := some next }
    if prev ≠ (s.cpu c).idle ∧ (s.task prev).state = .running then
      (s1.setState prev .ready).runQueuePush c prev
    else s1

lemma Inv.reschedule (h : Inv s) {prev : ℕ} (hprev : (s.cpu c).cur = prev)
    (hfree : (s.cpu c).lock = none) (hnone : (s.cpu c).switching = none)
    (hloop : (s.task prev).phase.inLoop = false) : Inv (s.reschedule c prev) := by
  have hc : (s.task prev).assignedCpu = c := hprev ▸ h.cur c
  rw [Sys.reschedule]
  split
  · next hempty =>
    split_ifs with hblock
    · obtain ⟨hassigned, hstate, hout⟩ := h.idle c
      refine ⟨h.toCore.choose (by rw [hprev]; exact hloop) hassigned hstate (by rw [hout]; rfl),
        h.toCounts.congr rfl (by grind) (by grind) (by grind)⟩
    · exact h.continue hprev hfree hnone hempty hblock
  · next next rest hqueue =>
    have hpick := h.pick hfree hnone (by rw [hprev]; exact hloop) hqueue
    split_ifs with hrun
    · obtain ⟨hl, -⟩ := (h.queue c next).1 (hqueue ▸ mem_cons_self ..)
      -- the task that is left is running, so it is not the one that was on the queue
      have hne : prev ≠ next := by
        rintro rfl
        exact absurd (hrun.2.symm.trans (h.ready prev hl)) (by simp)
      have htask : (s.picked c next rest).task prev = s.task prev := by
        rw [Sys.picked, setCpu_task, setTask_of_ne hne, runQueuePop_apply, if_neg hne]
      refine hpick.pushTask ?_ ?_ ?_ ?_ ?_ ?_ ?_
      · rw [htask]
        exact hc
      · rw [picked_cpu]
        exact hfree
      · rw [htask]
        by_contra hl'
        exact absurd (hrun.2.symm.trans (h.ready prev (by simpa using hl'))) (by simp)
      · rw [htask]
        exact hloop
      · rw [picked_cpu]
        exact fun hsome => absurd hsome (by simp)
      · rw [picked_cpu]
        exact fun hsome => hne (some.inj hsome).symm
      · rw [picked_cpu]
        exact hrun.1
    · exact hpick

/-- The chosen task is marked after the other one is put back; the order does not matter. -/
lemma schedule_eq (hs : s.schedule c = some s') :
    ((s.cpu c).lock = none ∧ (s.cpu c).switching = none ∧
      (s.task (s.cpu c).cur).phase.yields = true) ∧
    (Inv (s.setPhase (s.cpu c).cur (s.task (s.cpu c).cur).phase.sleep) →
      s' = (s.setPhase (s.cpu c).cur (s.task (s.cpu c).cur).phase.sleep).reschedule c
        (s.cpu c).cur) := by
  obtain ⟨hguard, hs⟩ := ite_none_right_eq_some.1 hs
  refine ⟨hguard, fun h1 => ?_⟩
  generalize hs1 : s.setPhase (s.cpu c).cur (s.task (s.cpu c).cur).phase.sleep = s1 at hs h1 ⊢
  generalize (s.cpu c).cur = prev at hs ⊢
  rw [reschedule]
  cases hqueue : (s1.cpu c).runQueue with
  | nil =>
    simp only [hqueue] at hs
    dsimp only
    split_ifs at hs ⊢
    · rw [hqueue]
      exact (some.inj hs).symm
    · exact (some.inj hs).symm
  | cons next rest =>
    obtain ⟨hl, hc⟩ := (h1.queue c next).1 (hqueue ▸ mem_cons_self ..)
    simp only [hqueue] at hs
    have hcpu := runQueuePop_cpu hc
    have hidle : ((s1.runQueuePop c next).cpu c).idle = (s1.cpu c).idle := by
      rw [hcpu, update_self]
    have hstate : ((s1.runQueuePop c next).task prev).state = (s1.task prev).state := by
      rw [runQueuePop_apply]
      split_ifs with hn
      · rw [hn]
      · rfl
    rw [hidle, hstate] at hs
    by_cases hrun : prev ≠ (s1.cpu c).idle ∧ (s1.task prev).state = .running
    · have hne : prev ≠ next := by
        rintro rfl
        exact absurd (hrun.2.symm.trans (h1.ready prev hl)) (by simp)
      simp only [if_pos hrun] at hs ⊢
      obtain rfl := some.inj hs
      refine Sys.ext rfl ?_ ?_ rfl rfl
      · simp only [Sys.runQueuePush, Sys.addCount, Sys.link, Sys.setState, Sys.setPhase,
          Sys.setCpu, Sys.setTask, update_self, update_idem, hcpu, hqueue,
          erase_cons_head]
      · funext u
        by_cases hu : u = next
        · subst hu
          simp [runQueuePush, addCount, link, setState, setPhase, setCpu,
            setTask, update_self, update_of_ne hne.symm]
        · by_cases hp : u = prev
          · subst hp
            simp [runQueuePush, addCount, link, setState, setPhase,
              setCpu, setTask, update_self, update_of_ne hu]
          · simp [runQueuePush, addCount, link, setState, setPhase,
              setCpu, setTask, update_of_ne hu, update_of_ne hp]
    · simp only [if_neg hrun] at hs ⊢
      obtain rfl := some.inj hs
      refine Sys.ext rfl ?_ ?_ rfl rfl
      · simp only [Sys.setState, Sys.setPhase, Sys.setCpu, Sys.setTask, update_self,
          update_idem, hcpu, hqueue, erase_cons_head]
      · funext u
        by_cases hu : u = next
        · subst hu
          simp [setState, setPhase, setCpu, setTask, update_self]
        · simp [setState, setPhase, setCpu, setTask, update_of_ne hu]

lemma Inv.schedule (h : Inv s) (hs : s.schedule c = some s') : Inv s' := by
  obtain ⟨⟨hfree, hnone, hy⟩, heq⟩ := schedule_eq hs
  have hsleep := h.sleep hnone hy
  rw [heq hsleep]
  refine hsleep.reschedule rfl hfree hnone ?_
  rw [Sys.setPhase, setTask_self]
  exact Phase.sleep_not_inLoop hy

/-! ## Stealing -/

lemma Inv.reassign (h : Inv s) {x : Task} (hl : (s.task t).linked = false)
    (hloop : (s.task t).phase.inLoop = false) (hcur : ∀ d, (s.cpu d).cur ≠ t)
    (hswitching : ∀ d, (s.cpu d).switching ≠ some t) (hidle : ∀ d, (s.cpu d).idle ≠ t)
    (haims : ∀ k d, ¬ (s.ctx k).Aims t d) (hstate : x.state = (s.task t).state)
    (hlinked : x.linked = (s.task t).linked) (hphase : x.phase = (s.task t).phase) :
    Inv (s.setTask t x) := by
  refine ⟨?_, { h.toCounts with }⟩
  constructor
  case queue => grind [h.queue]
  case nodup => exact h.nodup
  case ready => grind [h.ready]
  case blocked => grind [h.blocked]
  case inLoop => grind [h.inLoop]
  case cur => grind [h.cur]
  case current => grind [h.current]
  case switching => grind [h.switching]
  case idle => grind [h.idle]
  case target => grind [h.target]
  case pushing => grind [h.pushing, Wake.Aims]

lemma setTask_eq_self : s.setTask t (s.task t) = s := by
  rw [setTask, update_eq_self]

lemma setState_eq_self {st : TaskState} (h : (s.task t).state = st) : s.setState t st = s := by
  subst h
  exact setTask_eq_self

lemma Inv.moveTask (h : Inv s) {v my : ℕ} (hv : (s.cpu v).lock = none)
    (hmy : (s.cpu my).lock = none) (hne : v ≠ my) (hmem : t ∈ (s.cpu v).runQueue)
    (hcur : t ≠ (s.cpu v).cur) :
    Inv (((s.runQueuePop v t).setTask t { (s.runQueuePop v t).task t with
      assignedCpu := my }).runQueuePush my t) := by
  obtain ⟨hl, hc⟩ := (h.queue v t).1 hmem
  have hready := h.ready t hl
  have hloop : (s.task t).phase.inLoop = false := by
    by_contra hin
    have := (h.inLoop t (by simpa using hin)).1
    rw [hc] at this
    exact hcur this.symm
  have hidle : ∀ d, (s.cpu d).idle ≠ t := by
    rintro d rfl
    exact absurd (hready.symm.trans (h.idle d).2.1) (by simp)
  have hswitching : ∀ d, (s.cpu d).switching ≠ some t := fun d hsome =>
    absurd (hready.symm.trans (h.switching d t hsome).2.1) (by simp)
  have hcurs : ∀ d, (s.cpu d).cur ≠ t := fun d he => by
    have hd : d = v := by rw [← hc, ← he, h.cur d]
    subst hd
    exact hcur he.symm
  have hpop : Inv (s.runQueuePop v t) := by
    have := h.popTask (x := { s.task t with linked := false }) hc hv hl hc rfl
      (fun hb => nomatch hready.symm.trans hb) hloop
      (fun hsome => absurd hsome (hswitching v)) (hidle v).symm
    rwa [← runQueuePop_task (c := v), setTask_eq_self] at this
  have hcpu : ∀ d, ((s.runQueuePop v t).cpu d).cur = (s.cpu d).cur ∧
      ((s.runQueuePop v t).cpu d).switching = (s.cpu d).switching ∧
      ((s.runQueuePop v t).cpu d).idle = (s.cpu d).idle ∧
      ((s.runQueuePop v t).cpu d).lock = (s.cpu d).lock := fun d => by
    rw [runQueuePop_cpu hc, update_apply]
    split_ifs with hd
    · exact hd ▸ ⟨rfl, rfl, rfl, rfl⟩
    · exact ⟨rfl, rfl, rfl, rfl⟩
  have hmove : Inv ((s.runQueuePop v t).setTask t { (s.runQueuePop v t).task t with
      assignedCpu := my }) := by
    refine hpop.reassign ?_ ?_ (by grind) (by grind) (by grind) (fun k d => ?_) rfl rfl rfl
    · rw [runQueuePop_task]
    · rw [runQueuePop_task]
      exact hloop
    · exact h.not_aims (x := k) (d := d) (by rw [hc]; exact hv)
  have hpush := hmove.pushTask (t := t) (c := my) (by rw [setTask_self]) (by grind) (by grind)
    (by grind) (by grind) (by grind) (by grind)
  rwa [setState_eq_self (by rw [setTask_self, runQueuePop_task]; exact hready)] at hpush

lemma Inv.schedTryStealTask (h : Inv s) {my v : ℕ} (hs : s.schedTryStealTask my v = some s') :
    Inv s' := by
  obtain ⟨⟨hmy, -, -, hne⟩, hs⟩ := ite_none_right_eq_some.1 hs
  split at hs
  · exact some.inj hs ▸ h
  next hlock =>
    split at hs
    · exact some.inj hs ▸ h
    · next t hfind =>
      have hmem := mem_reverse.1 (mem_of_find?_eq_some hfind)
      have hcur := List.find?_some hfind
      exact some.inj hs ▸ h.moveTask (not_not.1 hlock) hmy hne hmem (by simpa using hcur)

/-! ## Runs -/

theorem Inv.step (h : Inv s) {a : Act} (hC : Orderly s a) (hs : step s a = some s') : Inv s' := by
  cases a with
  | wake i t => exact h.wakeWqTarget hs
  | wakeStep k => exact h.wakeStep hC hs
  | enter t call => exact h.enter hs
  | prepare t => exact h.prepare hs
  | check t signal copied => exact h.check hs
  | wakeNext t => exact h.wakeNext hs
  | finish t => exact h.finish hC hs
  | cancel t => exact h.cancelSpuriousWake hs
  | schedule c => exact h.schedule hs
  | switchTo c => exact h.switchTo hs
  | steal my v => exact h.schedTryStealTask hs

/-- From every orderly start, in every run in which a wake-up has the lock of the CPU of a task
it finds `BLOCKED` and a loop writes `RUNNING` only while it has not been woken: whenever no
`scheduler_lock` is held, the queues are in order. -/
theorem queues_in_order {s0 : Sys} (hstart : s0.Start) (as : List Act)
    (hC : Meets step Orderly s0 as) (hs : exec step s0 as = some s)
    (hfree : ∀ c, (s.cpu c).lock = none) : s.QueuesOk :=
  (exec_invariant_of_meets (fun _ _ _ hI hC hs => Inv.step hI hC hs) as _ _ (Inv.start hstart) hC
    hs).queuesOk hfree

/-- In such a run no task is executed by two CPUs; and a CPU neither switches to a task that is on a
queue nor executes one, unless that may be found `BLOCKED`. -/
theorem tasks_run_once {s0 : Sys} (hstart : s0.Start) (as : List Act)
    (hC : Meets step Orderly s0 as) (hs : exec step s0 as = some s) :
    (∀ c d, (s.cpu c).cur = (s.cpu d).cur → c = d) ∧
      ∀ c d, ∀ t ∈ (s.cpu d).runQueue, (s.cpu c).switching ≠ some t ∧
        ((s.cpu c).switching = none → (s.cpu c).cur = t → (s.task t).phase.exposed = true) := by
  have h : Inv s := exec_invariant_of_meets (fun _ _ _ hI hC hs => Inv.step hI hC hs) as _ _
    (Inv.start hstart) hC hs
  refine ⟨fun c d hcd => ?_, fun c d t ht => ?_⟩
  · rw [← h.cur c, hcd, h.cur d]
  · obtain ⟨hlinked, -⟩ := (h.queue d t).1 ht
    refine ⟨fun hsw => ?_, ?_⟩
    · cases (h.ready t hlinked).symm.trans (h.switching c t hsw).2.1
    · rintro hnone rfl
      by_contra hx
      cases hlinked.symm.trans (h.current c hnone (Bool.eq_false_of_not_eq_true hx))

/-! ## Two CPUs -/

/-- Task 0 runs on CPU 0, where tasks 1 and 2 are waiting; CPU 1 is idle. The idle task of a CPU
is its number plus 100. -/
def twoCpus : Sys where
  ncpu := 2
  cpu c :=
    { lock := none
      runQueue := if c = 0 then [1, 2] else []
      runCount := if c = 0 then 2 else 0
      cur := if c = 0 then 0 else 100 + c
      idle := 100 + c
      switching := none }
  task t :=
    { state := if t = 1 ∨ t = 2 then .ready else .running
      assignedCpu := t - 100
      linked := t = 1 ∨ t = 2
      phase := .out
      ret := none }
  file _ := ⟨0, false, false, []⟩
  ctx _ := .off

lemma twoCpus_start : twoCpus.Start where
  queuesOk :=
    { count := fun c => by by_cases hc : c = 0 <;> simp [twoCpus, hc]
      once := fun c => by by_cases hc : c = 0 <;> simp [twoCpus, hc]
      assigned := fun c t => by by_cases hc : c = 0 <;> simp [twoCpus, hc]; omega
      ready := fun c t ht => by
        by_cases hc : c = 0
        · have h12 : t = 1 ∨ t = 2 := by simpa [twoCpus, hc] using ht
          simp [twoCpus, h12]
        · simp [twoCpus, hc] at ht }
  linked t ht := by
    obtain rfl | rfl : t = 1 ∨ t = 2 := by simpa [twoCpus] using ht
    · simp [twoCpus]
    · simp [twoCpus]
  queued c t := by by_cases hc : c = 0 <;> simp [twoCpus, hc]
  runnable t := by by_cases ht : t = 1 ∨ t = 2 <;> simp [twoCpus, ht]
  out _ := rfl
  cur c := by
    by_cases hc : c = 0
    · simp [twoCpus, hc]
    · simp [twoCpus, hc]
      omega
  idle c := by
    simp [twoCpus]
    omega
  switching _ := rfl
  lock _ := rfl
  ctx _ := rfl

/-- Task 0 waits for the eventfd and is woken; CPU 1 steals it and runs it. -/
def wakeAndSteal : List Act :=
  [.enter 0 ⟨0, .read, true⟩, .prepare 0, .check 0 false true, .schedule 0, .switchTo 0,
    .wake 0 0, .wakeStep (.irq 0), .wakeStep (.irq 0), .wakeStep (.irq 0), .wakeStep (.irq 0),
    .wakeStep (.irq 0), .steal 1 0, .schedule 1, .switchTo 1]

theorem queues_in_order_stolen :
    ∃ s, exec step twoCpus wakeAndSteal = some s ∧ s.QueuesOk ∧ (s.cpu 1).cur = 0 := by
  obtain ⟨s, hs⟩ : ∃ s, exec step twoCpus wakeAndSteal = some s :=
    isSome_iff_exists.1 (by decide +kernel)
  have hlock : ∀ c, (exec step twoCpus wakeAndSteal).map (fun s => (s.cpu c).lock) = some none
    | 0 => by decide +kernel
    | 1 => by decide +kernel
    | _ + 2 => rfl
  have hcur : (exec step twoCpus wakeAndSteal).map (fun s => (s.cpu 1).cur) = some 0 := by
    decide +kernel
  rw [hs] at hcur
  refine ⟨s, hs, queues_in_order twoCpus_start wakeAndSteal (by decide +kernel) hs fun c => ?_,
    some.inj hcur⟩
  have := hlock c
  rw [hs] at this
  exact some.inj this

theorem tasks_run_once_stolen : ∃ s, exec step twoCpus wakeAndSteal = some s ∧
    ∀ c d, (s.cpu c).cur = (s.cpu d).cur → c = d :=
  exists_some_of (by decide +kernel) fun _ hs =>
    (tasks_run_once twoCpus_start wakeAndSteal (by decide +kernel) hs).1

/-- Task 0 writes to an eventfd on whose queue its own wait node is. -/
def selfWake : List Act :=
  [.enter 0 ⟨0, .write 8 1, true⟩, .prepare 0, .check 0 false true, .wakeNext 0,
    .wakeStep (.task 0), .wakeStep (.task 0), .wakeStep (.task 0), .wakeStep (.task 0),
    .wakeStep (.task 0), .finish 0]

/-- A wake-up has read the CPU of task 0; another one wakes the task, CPU 1 steals it, and it
blocks again there. The first wake-up then has the lock of CPU 0 and links the task on CPU 1,
while that is in `schedule`. -/
def staleCpu : List Act :=
  [.enter 0 ⟨0, .read, true⟩, .prepare 0, .check 0 false true, .schedule 0, .switchTo 0,
    .wake 0 0, .wake 1 0, .wakeStep (.irq 1), .wakeStep (.irq 1), .wakeStep (.irq 1),
    .wakeStep (.irq 1), .wakeStep (.irq 1), .steal 1 0, .schedule 1, .switchTo 1, .prepare 0,
    .check 0 false true, .wakeStep (.irq 0), .wakeStep (.irq 0), .wakeStep (.irq 0),
    .wakeStep (.irq 0), .schedule 1, .wakeStep (.irq 0), .switchTo 1]

/-- Two runs that end with all locks free: after the first a task on the queue is `RUNNING`,
after the second the count of an empty queue is 1. -/
theorem queues_out_of_order :
    (∃ s, exec step twoCpus selfWake = some s ∧ (∀ c, (s.cpu c).lock = none) ∧
      0 ∈ (s.cpu 0).runQueue ∧ (s.task 0).state = .running ∧ ¬ s.QueuesOk) ∧
    ∃ s, exec step twoCpus staleCpu = some s ∧ (∀ c, (s.cpu c).lock = none) ∧
      (s.cpu 1).runQueue = [] ∧ (s.cpu 1).runCount = 1 ∧ ¬ s.QueuesOk := by
  constructor
  · have hlock : ∀ c, (exec step twoCpus selfWake).map (fun s => (s.cpu c).lock) = some none
      | 0 => by decide +kernel
      | 1 => by decide +kernel
      | _ + 2 => rfl
    obtain ⟨s, hs, hmem, hstate⟩ : ∃ s, exec step twoCpus selfWake = some s ∧
        0 ∈ (s.cpu 0).runQueue ∧ (s.task 0).state = .running := by decide +kernel
    refine ⟨s, hs, fun c => ?_, hmem, hstate, fun hok => ?_⟩
    · have := hlock c
      rw [hs] at this
      exact some.inj this
    · exact absurd ((hok.ready 0 0 hmem).symm.trans hstate) (by simp)
  · have hlock : ∀ c, (exec step twoCpus staleCpu).map (fun s => (s.cpu c).lock) = some none
      | 0 => by decide +kernel
      | 1 => by decide +kernel
      | _ + 2 => rfl
    obtain ⟨s, hs, hqueue, hcount⟩ : ∃ s, exec step twoCpus staleCpu = some s ∧
        (s.cpu 1).runQueue = [] ∧ (s.cpu 1).runCount = 1 := by decide +kernel
    refine ⟨s, hs, fun c => ?_, hqueue, hcount, fun hok => ?_⟩
    · have := hlock c
      rw [hs] at this
      exact some.inj this
    · have := hok.count 1
      rw [hqueue, hcount] at this
      exact absurd this (by decide)

end XosKernel.RunQueue
