/-
# Whole processes, exactly once

When a group exits with one task only, and the waits give pointers that can be written, every
zombie is a whole process: a wait that reports it takes it off the table, a wait that fails
leaves the table alone, and no process is lost in between.

A task is named by the moment of its creation, since pids are used again.
-/
import XosKernel.Proc.WaitStep
import Mathlib.Data.List.Perm.Basic

namespace XosKernel.Wait

open List Option

variable {s s' : Sys} {t t' u w z : Task} {p : ℕ}

def Sys.claimed (s : Sys) : List ℕ := s.log.filterMap fun e => e.claimed.map Claim.born

/-- A call that reports a child reports a whole process, and any other call claims nothing. -/
def Return.Sound (e : Return) : Prop :=
  (∀ pid, e.outcome = .terminated pid →
      ∃ c, e.claimed = some c ∧ c.pid = pid ∧ c.leader = true ∧ c.exited = true) ∧
    ((∀ pid, e.outcome ≠ .terminated pid) → e.claimed = none)

/-- What the waits of a run have done. -/
structure WaitsSound (s : Sys) : Prop where
  sound : ∀ e ∈ s.log, e.Sound
  /-- no process is reported twice -/
  once : s.claimed.Nodup
  /-- no process is lost -/
  kept : ∀ b < s.nextBorn, (∃ t ∈ s.tasks, t.born = b ∧ t.state ≠ .reaping) ∨
    ∃ e ∈ s.log, ∃ c, e.claimed = some c ∧ c.born = b ∧ e.outcome = .terminated c.pid

/-- The pointers of the call can be written. -/
def Args.Sound (a : Args) : Prop := (0 < a.pid → a.badStatus = false) ∧ a.badRusage = false

instance (a : Args) : Decidable a.Sound := inferInstanceAs (Decidable (_ ∧ _))

/-- Exits of processes with one thread only, no stops, and good pointers. -/
def Single (s : Sys) : Act → Prop
  | .exitStart p _ => ∀ t ∈ s.tasks, t.pid = p →
      t.leader = true ∧ ∀ u ∈ s.tasks, u.sig = t.sig → u = t
  | .waitStart _ a => a.Sound
  | a => Plain a

instance (s : Sys) : (a : Act) → Decidable (Single s a) := by
  rintro ⟨⟩ <;> unfold Single <;> infer_instance

/-- The invariant of these runs. -/
structure Whole (s : Sys) : Prop where
  keys : s.Keys
  fresh : ∀ t ∈ s.tasks, t.sig < s.nextSig
  lone : ∀ t ∈ s.tasks, t.exit ≠ .none →
    t.leader = true ∧ ∀ u ∈ s.tasks, u.sig = t.sig → u = t
  dead : ∀ t ∈ s.tasks, t.exited = true → t.exit ≠ .none
  held : ∀ t ∈ s.tasks, t.state ≠ .reaping
  calls : ∀ t ∈ s.tasks, ∀ c, t.wait = some c → c.toArgs.Sound
  borns : (s.tasks.map Task.born ++ s.claimed).Perm (List.range s.nextBorn)
  log : ∀ e ∈ s.log, e.Sound

namespace Whole

lemma init : Whole Sys.init where
  keys := by simp [Sys.Keys, Sys.init]
  fresh := by simp [Sys.init]
  lone := by simp [Sys.init]
  dead := by simp [Sys.init, Task.exited]
  held := by simp [Sys.init]
  calls := by simp [Sys.init]
  borns := by simp [Sys.init, Sys.claimed]
  log := by simp [Sys.init]

section

variable (h : Whole s)
include h

lemma setTask (ht : t ∈ s.tasks) (hpid : t'.pid = t.pid) (hsig : t'.sig = t.sig)
    (hborn : t'.born = t.born)
    (hlone : t'.exit ≠ .none → t'.leader = true ∧ ∀ u ∈ s.tasks, u.sig = t.sig → u = t)
    (hdead : t'.exited = true → t'.exit ≠ .none) (hheld : t'.state ≠ .reaping)
    (hcalls : ∀ c, t'.wait = some c → c.toArgs.Sound) : Whole (s.setTask t t') where
  keys := h.keys.setTask ht hpid
  fresh := forall_setTask (hsig ▸ h.fresh t ht) h.fresh
  lone := by
    intro x hx hexit
    rcases h.keys.mem_setTask.1 hx with rfl | ⟨hxt, hx⟩
    · obtain ⟨hleader, hall⟩ := hlone hexit
      refine ⟨hleader, fun u hu hus => ?_⟩
      rcases h.keys.mem_setTask.1 hu with rfl | ⟨hut, hu⟩
      · rfl
      · exact absurd (hall u hu (hus.trans hsig)) hut
    · obtain ⟨hleader, hall⟩ := h.lone x hx hexit
      refine ⟨hleader, fun u hu hus => ?_⟩
      rcases h.keys.mem_setTask.1 hu with rfl | ⟨-, hu⟩
      · exact absurd (hall t ht (hsig.symm.trans hus)).symm hxt
      · exact hall u hu hus
  dead := forall_setTask hdead h.dead
  held := forall_setTask hheld h.held
  calls := forall_setTask hcalls h.calls
  borns := ((perm_setTask ht Task.born hborn).append_right _).trans h.borns
  log := h.log

lemma appendLog {entries : List Return} (hentries : ∀ e ∈ entries, Unclaimed e) :
    Whole { s with log := entries ++ s.log } where
  __ := h
  borns := by
    have hnone : entries.filterMap (fun e => e.claimed.map Claim.born) = [] := by
      refine filterMap_eq_nil_iff.2 fun e he => ?_
      rw [(hentries e he).1, map_none]
    rw [Sys.claimed, filterMap_append, hnone, nil_append]
    exact h.borns
  log := by
    intro e he
    rcases mem_append.1 he with he | he
    · exact ⟨fun pid hpid => absurd hpid ((hentries e he).2 pid), fun _ => (hentries e he).1⟩
    · exact h.log e he

lemma report (hz : z ∈ s.tasks) {c : Claim} (hpid : c.pid = z.pid)
    (hborn : c.born = z.born) (hleader : c.leader = true) (hexited : c.exited = true) :
    Whole { s.dropTask z with log := ⟨p, .terminated z.pid, some c⟩ :: s.log } := by
  have hmem : ∀ x ∈ (s.dropTask z).tasks, x ∈ s.tasks := fun x hx => mem_of_mem_erase hx
  refine ⟨h.keys.dropTask, fun x hx => h.fresh x (hmem x hx), fun x hx hexit => ?_,
    fun x hx => h.dead x (hmem x hx), fun x hx => h.held x (hmem x hx),
    fun x hx => h.calls x (hmem x hx), ?_, ?_⟩
  · obtain ⟨hxl, hall⟩ := h.lone x (hmem x hx) hexit
    exact ⟨hxl, fun u hu => hall u (hmem u hu)⟩
  · have hmove : ((s.tasks.erase z).map Task.born ++ c.born :: s.claimed).Perm
        ((z :: s.tasks.erase z).map Task.born ++ s.claimed) := by
      rw [hborn]
      exact perm_middle
    exact (hmove.trans (((perm_cons_erase hz).map _).append_right _).symm).trans h.borns
  · intro e he
    rcases mem_cons.1 he with rfl | he
    · refine ⟨fun pid hout => ⟨c, rfl, ?_, hleader, hexited⟩, fun hno => absurd rfl (hno z.pid)⟩
      exact hpid.trans (Outcome.terminated.inj hout)
    · exact h.log e he

lemma quiet (hq : Quiet Args.Sound s s') : Whole s' := by
  obtain ⟨w, st, wt, entries, notifies, hw, hlive, hst, hcall, hentries, -⟩ := hq
  have hnew : ({ w with state := st, wait := wt } : Task).exited = false := by
    rcases hst with rfl | ⟨rfl, -⟩ <;> rfl
  have hset : Whole (s.setTask w { w with state := st, wait := wt }) := by
    refine h.setTask hw rfl rfl rfl (h.lone w hw) ?_ ?_ ?_
    · intro hexited
      rw [hnew] at hexited
      cases hexited
    · rcases hst with rfl | ⟨rfl, -⟩ <;> rintro ⟨⟩
    · intro c hc
      rcases hcall c hc with hsound | ⟨d, hd, hcd⟩
      · exact hsound
      · rw [hcd]
        exact h.calls w hw d hd
  exact { hset.appendLog hentries with }

/-- A claim takes a whole process and is reported. -/
lemma claim (hc : Claims s s') : Whole s' := by
  obtain ⟨w, z, c, hw, hz, hwait, hready, hzombie⟩ := hc
  obtain ⟨hstatus, husage⟩ := h.calls w hw c hwait
  have hzexited : z.exited = true := by simp [Task.exited, hzombie]
  obtain ⟨hleader, hlone⟩ := h.lone z hz (h.dead z hz hzexited)
  have hwz : z ≠ w := by
    rintro rfl
    rw [hready] at hzombie
    cases hzombie
  have hset : Whole (s.setTask w { w with wait := none }) :=
    h.setTask hw rfl rfl rfl (h.lone w hw) (h.dead w hw) (h.held w hw) (by rintro c ⟨⟩)
  have hgood : ¬(0 < c.pid ∧ c.badStatus = true) := by
    rintro ⟨hpos, hbad⟩
    rw [hstatus hpos] at hbad
    cases hbad
  rw [Sys.reap, if_neg hgood, husage, if_neg (by decide)]
  refine hset.report (h.keys.mem_setTask.2 (.inr ⟨hwz, hz⟩)) rfl rfl hleader ?_
  refine all_eq_true.2 fun u hu => ?_
  by_cases hsig : u.sig = z.sig
  · rw [hlone u hu hsig, hzexited, Bool.or_true]
  · simp [hsig]

lemma clone {pid esig : ℕ} {kind : Kind} (hkind : kind ≠ .sighand)
    (hs : clone s p pid kind esig = some s') : Whole s' := by
  obtain ⟨t, ht, hrun, hfree, hs⟩ := clone_cases hkind hs
  obtain ⟨-, hexit, -⟩ := running_iff.1 hrun
  have hkeys : ∀ x : Task, x.pid = pid → ((x :: s.tasks).map Task.pid).Nodup := by
    rintro x rfl
    refine nodup_cons.2 ⟨fun hx => ?_, h.keys⟩
    obtain ⟨u, hu, hpid⟩ := mem_map.1 hx
    exact hfree u hu hpid
  have hborns : (s.nextBorn :: (s.tasks.map Task.born ++ s.claimed)).Perm
      (List.range (s.nextBorn + 1)) := by
    rw [range_succ]
    exact (h.borns.cons _).trans (perm_append_singleton _ _).symm
  -- the group of an exiting task gets no new member
  have hlone : ∀ x : Task, x.exit = .none → (∀ y ∈ s.tasks, y.exit ≠ .none → x.sig ≠ y.sig) →
      ∀ y ∈ x :: s.tasks, y.exit ≠ .none →
        y.leader = true ∧ ∀ u ∈ x :: s.tasks, u.sig = y.sig → u = y := by
    intro x hx hsep y hy hyexit
    rcases mem_cons.1 hy with rfl | hys
    · exact absurd hx hyexit
    · obtain ⟨hleader, hall⟩ := h.lone y hys hyexit
      refine ⟨hleader, fun u hu hus => ?_⟩
      rcases mem_cons.1 hu with rfl | hut
      · exact absurd hus (hsep y hys hyexit)
      · exact hall u hut hus
  rcases hs with rfl | ⟨pp, rfl⟩
  · refine ⟨hkeys _ rfl, ?_, hlone _ rfl fun y hy hyexit hsig => ?_, ?_, ?_, ?_, hborns, h.log⟩
    · exact forall_mem_cons.2 ⟨h.fresh t ht, h.fresh⟩
    · rw [← (h.lone y hy hyexit).2 t ht hsig] at hyexit
      exact hyexit hexit
    · exact forall_mem_cons.2 ⟨by rintro ⟨⟩, h.dead⟩
    · exact forall_mem_cons.2 ⟨by rintro ⟨⟩, h.held⟩
    · exact forall_mem_cons.2 ⟨by rintro c ⟨⟩, h.calls⟩
  · refine ⟨hkeys _ rfl, ?_, hlone _ rfl fun y hy _ hsig => ?_, ?_, ?_, ?_, hborns, h.log⟩
    · exact forall_mem_cons.2 ⟨Nat.lt_succ_self _, fun x hx => Nat.lt_succ_of_lt (h.fresh x hx)⟩
    · exact absurd hsig.symm (h.fresh y hy).ne
    · exact forall_mem_cons.2 ⟨by rintro ⟨⟩, h.dead⟩
    · exact forall_mem_cons.2 ⟨by rintro ⟨⟩, h.held⟩
    · exact forall_mem_cons.2 ⟨by rintro c ⟨⟩, h.calls⟩

lemma exitStart {code : ℕ} (hC : Single s (.exitStart p code))
    (hs : exitStart s p code = some s') : Whole s' := by
  obtain ⟨t, ht, htp, hrun, rfl⟩ := exitStart_cases hs
  have hset : Whole (s.setTask t { t with exitCode := code, exit := .started }) := by
    refine h.setTask ht rfl rfl rfl (fun _ => hC t ht htp) (fun _ => by rintro ⟨⟩)
      (h.held t ht) (h.calls t ht)
  exact { hset with }

lemma exitCount (hs : exitCount s p = some s') : Whole s' := by
  obtain ⟨t, ht, hstarted, pp, -, rfl⟩ := exitCount_cases hs
  have hlone := h.lone t ht (by rw [hstarted]; rintro ⟨⟩)
  have hset : Whole (s.setTask t { t with
      exit := .counted pp (decide ((s.sigs t.sig).threadCount - 1 = 0)) }) :=
    h.setTask ht rfl rfl rfl (fun _ => hlone) (fun _ => by rintro ⟨⟩) (h.held t ht) (h.calls t ht)
  exact { hset with }

lemma exitZombie (hs : exitZombie s p = some s') : Whole s' := by
  obtain ⟨t, ht, pp, notify, hexit, -, rfl⟩ := exitZombie_cases hs
  have hset : Whole (s.setTask t { t with state := .zombie }) :=
    h.setTask ht rfl rfl rfl (h.lone t ht) (fun _ => by rw [hexit]; rintro ⟨⟩) (by rintro ⟨⟩)
      (h.calls t ht)
  exact { hset with }

end

end Whole

/-! ## Runs -/

lemma Whole.step (h : Whole s) {a : Act} (ha : Single s a) (hs : step s a = some s') :
    Whole s' := by
  cases a with
  | clone p pid kind esig => exact h.clone ha hs
  | setNocldwait p ignored =>
    obtain ⟨t, -, rfl⟩ := setNocldwait_cases hs
    exact { h with }
  | doStop | doCont | waitReport => exact ha.elim
  | exitStart p code => exact h.exitStart ha hs
  | exitCount p => exact h.exitCount hs
  | exitZombie p => exact h.exitZombie hs
  | deliver n =>
    rcases deliver_cases h.keys hs with hq | ⟨rfl, -⟩
    · exact h.quiet hq
    · exact { h with }
  | waitStart p a => exact h.quiet (waitStart_quiet ha hs)
  | waitScan p found => exact h.quiet (waitScan_quiet hs)
  | waitChanged p cont => exact h.quiet (waitChanged_quiet hs)
  | waitClaim p z => exact (waitClaim_cases hs).elim h.quiet h.claim
  | waitBlock p found interrupted => exact (waitBlock_cases h.keys hs).elim h.quiet h.claim
  | waitValidate p => exact h.quiet (waitValidate_quiet hs)
  | waitCheck p interrupted => exact (waitCheck_cases hs).elim h.quiet h.claim
  | waitRecheck p => exact h.quiet (waitRecheck_quiet hs)
  | wakeBySignal p => exact h.quiet (wakeBySignal_quiet hs)

lemma Whole.waitsSound (h : Whole s) : WaitsSound s where
  sound := h.log
  once := by
    have hnodup := h.borns.nodup_iff.2 nodup_range
    exact (nodup_append.1 hnodup).2.1
  kept := by
    intro b hb
    rcases mem_append.1 (h.borns.symm.subset (mem_range.2 hb)) with hb | hb
    · obtain ⟨t, ht, rfl⟩ := mem_map.1 hb
      exact .inl ⟨t, ht, rfl, h.held t ht⟩
    · obtain ⟨e, he, hclaim⟩ := mem_filterMap.1 hb
      obtain ⟨c, hc, rfl⟩ := map_eq_some_iff.1 hclaim
      refine .inr ⟨e, he, c, hc, rfl, ?_⟩
      -- only a call that reports a child claims one
      by_contra hne
      have hterm : ∃ pid, e.outcome = .terminated pid := by
        by_contra hno
        rw [(h.log e he).2 (not_exists.1 hno)] at hc
        cases hc
      obtain ⟨pid, hpid⟩ := hterm
      obtain ⟨d, hd, rfl, -⟩ := (h.log e he).1 pid hpid
      obtain rfl := some.inj (hc.symm.trans hd)
      exact hne hpid

def childRun : List Act :=
  [.clone 2 3 (.process false) 17, .waitStart 2 { pid := -1 }, .exitStart 3 7, .exitCount 3,
    .exitZombie 3, .waitScan 2 (.zombie 3), .waitClaim 2 3]

def threadRun : List Act :=
  [.clone 2 3 (.process false) 17, .clone 3 4 .thread 0, .exitStart 4 0, .exitCount 4,
    .exitZombie 4, .waitStart 2 { pid := -1 }, .waitScan 2 (.zombie 4), .waitClaim 2 4]

/-- The child 3 exits while its thread 4 goes on. -/
def leaderRun : List Act :=
  [.clone 2 3 (.process false) 17, .clone 3 4 .thread 0, .exitStart 3 0, .exitCount 3,
    .exitZombie 3, .waitStart 2 { pid := -1 }, .waitScan 2 (.zombie 3), .waitClaim 2 3]

def badPointerRun : List Act :=
  [.clone 2 3 (.process false) 17, .exitStart 3 0, .exitCount 3, .exitZombie 3,
    .waitStart 2 { pid := 3, badStatus := true }, .waitValidate 2, .waitCheck 2 false,
    .waitStart 2 { pid := 3, nohang := true }, .waitValidate 2, .waitCheck 2 false]

/-- The stopped child 3 is found, and goes on before it is reported. -/
def stoppedRun : List Act :=
  [.clone 2 3 (.process false) 17, .doStop 3 19, .waitStart 2 { pid := -1, untraced := true },
    .waitScan 2 (.changed 3 false), .doCont 3 false, .waitReport 2 3 false]

end XosKernel.Wait
