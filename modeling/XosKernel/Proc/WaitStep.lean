/-
# What a step of a wait can do

Every step of `sys_waitpid_rusage`, and every wake-up, either changes nothing but the call of
one live task (and blocks it only when no zombie matches), or claims one zombie. The two
developments on top, on what is reported and on who is woken, look at these two cases only.
-/
import XosKernel.Proc.Wait

namespace XosKernel.Wait

open List Option

variable {s s' : Sys} {t t' u w : Task} {p : ℕ} {N : Args → Prop}

/-! ## The task table -/

def Sys.Keys (s : Sys) : Prop := (s.tasks.map Task.pid).Nodup

lemma task?_some (h : s.task? p = some t) : t ∈ s.tasks ∧ t.pid = p := by
  refine ⟨mem_of_find?_eq_some h, ?_⟩
  simpa using List.find?_some h

lemma task?_none (h : s.task? p = none) (ht : t ∈ s.tasks) : t.pid ≠ p := by
  simpa using List.find?_eq_none.1 h t ht

/-- A step of a task goes on with what it finds in the table. -/
lemma of_task? {α : Type*} {f : Task → Option α} {x : α}
    (hs : (match s.task? p with | none => none | some t => f t) = some x) :
    ∃ t ∈ s.tasks, t.pid = p ∧ f t = some x := by
  split at hs
  · cases hs
  next t ht =>
  obtain ⟨htm, htp⟩ := task?_some ht
  exact ⟨t, htm, htp, hs⟩

lemma Sys.Keys.ext (h : s.Keys) (ht : t ∈ s.tasks) (hu : u ∈ s.tasks) (hpid : t.pid = u.pid) :
    t = u :=
  inj_on_of_nodup_map h ht hu hpid

lemma Sys.Keys.nodup (h : s.Keys) : s.tasks.Nodup := List.Nodup.of_map _ h

lemma Sys.Keys.mem_setTask (h : s.Keys) {x : Task} :
    x ∈ (s.setTask t t').tasks ↔ x = t' ∨ x ≠ t ∧ x ∈ s.tasks := by
  rw [Sys.setTask, mem_cons, h.nodup.mem_erase_iff]

lemma forall_setTask {P : Task → Prop} (hnew : P t') (hold : ∀ x ∈ s.tasks, P x) :
    ∀ x ∈ (s.setTask t t').tasks, P x :=
  forall_mem_cons.2 ⟨hnew, fun x hx => hold x (mem_of_mem_erase hx)⟩

lemma perm_setTask (ht : t ∈ s.tasks) {β : Type*} (g : Task → β) (hg : g t' = g t) :
    ((s.setTask t t').tasks.map g).Perm (s.tasks.map g) := by
  show (g t' :: (s.tasks.erase t).map g).Perm (s.tasks.map g)
  rw [hg]
  exact ((perm_cons_erase ht).map g).symm

lemma Sys.Keys.setTask (h : s.Keys) (ht : t ∈ s.tasks) (hpid : t'.pid = t.pid) :
    (s.setTask t t').Keys :=
  (perm_setTask ht Task.pid hpid).nodup_iff.2 h

lemma Sys.Keys.dropTask (h : s.Keys) : (s.dropTask t).Keys :=
  h.sublist ((erase_sublist).map Task.pid)

/-! ## Quiet steps and claims -/

def Sys.NoZombie (s : Sys) (w : Task) (c : Call) : Prop :=
  ∀ t ∈ s.tasks, s.childMatches t c.pid w = true → t.state ≠ .zombie

/-- The entries of calls that end without a child. -/
def Unclaimed (e : Return) : Prop := e.claimed = none ∧ ∀ pid, e.outcome ≠ .terminated pid

/-- One live task goes on with its call, blocks or wakes up; a call that begins meets `N`. -/
inductive Quiet (N : Args → Prop) (s : Sys) : Sys → Prop
  | mk (w : Task) (st : State) (wt : Option Call) (entries : List Return)
      (notifies : List Notify) (hw : w ∈ s.tasks) (hlive : w.exited = false)
      (hst : st = .ready ∨ st = .blocked ∧ ∃ c, wt = some c ∧ s.NoZombie w c)
      (hcall : ∀ c, wt = some c → N c.toArgs ∨ ∃ d, w.wait = some d ∧ c.toArgs = d.toArgs)
      (hentries : ∀ e ∈ entries, Unclaimed e)
      (hnotifies : ∀ n ∈ s.notifies, n ∈ notifies ∨ n.ppid = w.pid ∧ st = .ready) :
      Quiet N s
        { s.setTask w { w with state := st, wait := wt } with
          log := entries ++ s.log, notifies := notifies }

inductive Claims (s : Sys) : Sys → Prop
  | mk (w z : Task) (c : Call) (hw : w ∈ s.tasks) (hz : z ∈ s.tasks) (hwait : w.wait = some c)
      (hready : w.state = .ready) (hzombie : z.state = .zombie) : Claims s (s.reap w c z)

lemma exited_of_ready (h : w.state = .ready) : w.exited = false := by simp [Task.exited, h]

lemma Quiet.finish (hw : w ∈ s.tasks) (hready : w.state = .ready) {o : Outcome}
    (ho : ∀ pid, o ≠ .terminated pid := by rintro pid ⟨⟩) : Quiet N s (s.finish w o) := by
  have h := Quiet.mk (N := N) w .ready none [⟨w.pid, o, none⟩] s.notifies hw
    (exited_of_ready hready)
    (.inl rfl) (by rintro c ⟨⟩) (by simpa [Unclaimed] using ho) fun n hn => .inl hn
  rwa [← hready] at h

lemma Quiet.start (hw : w ∈ s.tasks) (hready : w.state = .ready) {a : Args} {ph : Phase}
    (hcall : N a ∨ ∃ d, w.wait = some d ∧ a = d.toArgs) : Quiet N s (s.goto w a ph) := by
  have h := Quiet.mk (N := N) (s := s) w .ready (some ⟨a, ph⟩) [] s.notifies hw
    (exited_of_ready hready) (.inl rfl) (by rintro d ⟨⟩; exact hcall) (by simp) fun n hn => .inl hn
  rwa [← hready] at h

lemma Quiet.goto (hw : w ∈ s.tasks) (hready : w.state = .ready) {c : Call} {ph : Phase}
    (hwait : w.wait = some c) : Quiet N s (s.goto w c.toArgs ph) :=
  Quiet.start hw hready (.inr ⟨c, hwait, rfl⟩)

lemma Quiet.block (hw : w ∈ s.tasks) (hready : w.state = .ready) {c : Call} {ph : Phase}
    (hwait : w.wait = some c) (hnone : s.NoZombie w c) : Quiet N s (s.block w c.toArgs ph) :=
  Quiet.mk w .blocked (some ⟨c.toArgs, ph⟩) [] s.notifies hw (exited_of_ready hready)
    (.inr ⟨rfl, _, rfl, hnone⟩) (by rintro d ⟨⟩; exact .inr ⟨c, hwait, rfl⟩) (by simp)
    fun n hn => .inl hn

/-- A step of a call goes on with the task, which is not asleep, and the call. -/
lemma of_inPhase {ph : Phase} {f : Task × Call → Option Sys}
    (hs : (s.inPhase p ph).bind f = some s') :
    ∃ w c, w ∈ s.tasks ∧ w.wait = some c ∧ w.state = .ready ∧ f (w, c) = some s' := by
  obtain ⟨⟨w, c⟩, h, hs⟩ := bind_eq_some_iff.1 hs
  obtain ⟨v, hv, -, h⟩ := of_task? h
  cases hc : v.wait with
  | none => simp [hc] at h
  | some d =>
    simp only [hc] at h
    obtain ⟨⟨hready, -⟩, heq⟩ := ite_none_right_eq_some.1 h
    obtain ⟨rfl, rfl⟩ := Prod.mk.inj (some.inj heq)
    exact ⟨v, d, hv, hc, hready, hs⟩

/-! ## The steps -/

lemma waitStart_quiet {a : Args} (hN : N a) (hs : waitStart s p a = some s') : Quiet N s s' := by
  obtain ⟨w, hw, -, hs⟩ := of_task? hs
  obtain ⟨hrun, hs⟩ := ite_none_right_eq_some.1 hs
  simp only [Task.running, Bool.and_eq_true, decide_eq_true_eq] at hrun
  obtain ⟨⟨hready, -⟩, -⟩ := hrun
  split_ifs at hs
  · exact some.inj hs ▸ Quiet.finish hw hready
  · exact some.inj hs ▸ Quiet.start hw hready (.inl hN)
  · exact some.inj hs ▸ Quiet.finish hw hready
  · exact some.inj hs ▸ Quiet.start hw hready (.inl hN)

lemma waitScan_quiet {found : Found} (hs : waitScan s p found = some s') : Quiet N s s' := by
  obtain ⟨w, c, hw, hwait, hready, hs⟩ := of_inPhase hs
  obtain ⟨-, hs⟩ := ite_none_right_eq_some.1 hs
  split at hs
  · exact some.inj hs ▸ Quiet.finish hw hready
  cases found with
  | zombie z => exact some.inj hs ▸ Quiet.goto hw hready hwait
  | changed z cont => exact some.inj hs ▸ Quiet.goto hw hready hwait
  | nothing =>
    split_ifs at hs
    · exact some.inj hs ▸ Quiet.finish hw hready
    · exact some.inj hs ▸ Quiet.goto hw hready hwait

lemma waitChanged_quiet {cont : Bool} (hs : waitChanged s p cont = some s') : Quiet N s s' := by
  obtain ⟨w, c, hw, hwait, hready, hs⟩ := of_inPhase hs
  obtain ⟨t, -, -, hs⟩ := of_task? hs
  obtain ⟨-, rfl⟩ := of_guard hs
  exact Quiet.goto hw hready hwait

lemma waitClaim_cases {z : ℕ} (hs : waitClaim s p z = some s') : Quiet N s s' ∨ Claims s s' := by
  obtain ⟨w, c, hw, hwait, hready, hs⟩ := of_inPhase hs
  dsimp only at hs
  split at hs
  · exact .inl (some.inj hs ▸ Quiet.goto hw hready hwait)
  next t hz =>
  split_ifs at hs with hzombie
  · exact .inr (some.inj hs ▸ Claims.mk w t c hw (task?_some hz).1 hwait hready hzombie)
  · exact .inl (some.inj hs ▸ Quiet.goto hw hready hwait)

lemma waitValidate_quiet (hs : waitValidate s p = some s') : Quiet N s s' := by
  obtain ⟨w, c, hw, hwait, hready, hs⟩ := of_inPhase hs
  dsimp only at hs
  split at hs
  · exact some.inj hs ▸ Quiet.finish hw hready
  next t ht =>
  split_ifs at hs
  · exact some.inj hs ▸ Quiet.goto hw hready hwait
  · exact some.inj hs ▸ Quiet.finish hw hready

lemma waitCheck_cases {interrupted : Bool} (hs : waitCheck s p interrupted = some s') :
    Quiet N s s' ∨ Claims s s' := by
  obtain ⟨w, c, hw, hwait, hready, hs⟩ := of_inPhase hs
  have hrest : Quiet N s (if c.nohang then s.finish w .nothing
      else if interrupted then s.finish w (.error .EINTR) else s.goto w c.toArgs .prepare) := by
    split_ifs
    · exact Quiet.finish hw hready
    · exact Quiet.finish hw hready
    · exact Quiet.goto hw hready hwait
  dsimp only at hs
  split at hs
  · exact .inl (some.inj hs ▸ hrest)
  next t ht =>
  split at hs
  next hzombie =>
    exact .inr (some.inj hs ▸ Claims.mk w t c hw (task?_some ht).1 hwait hready hzombie)
  · exact .inl (some.inj hs ▸ hrest)

lemma waitRecheck_quiet (hs : waitRecheck s p = some s') : Quiet N s s' := by
  obtain ⟨w, c, hw, hwait, hready, hs⟩ := of_inPhase hs
  dsimp only at hs
  split at hs
  · exact some.inj hs ▸ Quiet.finish hw hready
  next t ht =>
  exact some.inj hs ▸ Quiet.goto hw hready hwait

lemma childMatches_pid {c : Call} (hpos : 0 < c.pid) (h : s.childMatches t c.pid w = true) :
    t.pid = c.pid.toNat := by
  rw [Sys.childMatches, Bool.and_eq_true, if_neg (by omega), if_neg (by omega),
    if_neg (by omega)] at h
  have hpid := of_decide_eq_true h.2
  omega

lemma waitBlock_cases {found : Found} {interrupted : Bool} (hkeys : s.Keys)
    (hs : waitBlock s p found interrupted = some s') : Quiet N s s' ∨ Claims s s' := by
  obtain ⟨w, c, hw, hwait, hready, hs⟩ := of_inPhase hs
  dsimp only at hs
  split at hs
  next hpid =>
    obtain ⟨hscan, hs⟩ := ite_none_right_eq_some.1 hs
    left
    split at hs
    · exact some.inj hs ▸ Quiet.finish hw hready
    cases found with
    | zombie z => exact some.inj hs ▸ Quiet.goto hw hready hwait
    | changed z cont => exact some.inj hs ▸ Quiet.goto hw hready hwait
    | nothing =>
      split_ifs at hs
      · exact some.inj hs ▸ Quiet.finish hw hready
      · exact some.inj hs ▸ Quiet.block hw hready hwait fun t ht hm => (hscan t ht hm).1
  next hpid =>
    have hslot : ∀ t ∈ s.tasks, s.childMatches t c.pid w = true → t.pid = c.pid.toNat :=
      fun t _ hm => childMatches_pid (by omega) hm
    split at hs
    next ht =>
      refine .inl (some.inj hs ▸ Quiet.block hw hready hwait fun t htm hm => ?_)
      exact absurd (hslot t htm hm) (task?_none ht htm)
    next u ht =>
    obtain ⟨hu, hupid⟩ := task?_some ht
    split_ifs at hs with hzombie
    · exact .inr (some.inj hs ▸ Claims.mk w u c hw hu hwait hready hzombie)
    · refine .inl (some.inj hs ▸ Quiet.block hw hready hwait fun t htm hm => ?_)
      rw [hkeys.ext htm hu ((hslot t htm hm).trans hupid.symm)]
      exact hzombie

lemma wakeBySignal_quiet (hs : wakeBySignal s p = some s') : Quiet N s s' := by
  obtain ⟨w, hw, -, hs⟩ := of_task? hs
  obtain ⟨hblocked, rfl⟩ := of_guard hs
  refine Quiet.mk w .ready w.wait [] s.notifies hw
    (by simp [Task.exited, hblocked]) (.inl rfl) (fun c hc => .inr ⟨c, hc, rfl⟩) (by simp)
    fun n hn => .inl hn

/-- A delivery wakes the parent, or finds it not waiting. -/
lemma deliver_cases {n : Notify} (hkeys : s.Keys) (hs : deliver s n = some s') :
    Quiet N s s' ∨
      s' = { s with notifies := s.notifies.erase n } ∧
        ∀ w ∈ s.tasks, w.pid = n.ppid → n.leader = true → w.state ≠ .blocked := by
  obtain ⟨hn, hs⟩ := ite_none_right_eq_some.1 hs
  split at hs
  next ht =>
    exact .inr ⟨(some.inj hs).symm, fun w hw hpid => absurd hpid (task?_none ht hw)⟩
  next q ht =>
  obtain ⟨hq, hqpid⟩ := task?_some ht
  split_ifs at hs with hwake
  · left
    simp only [Bool.and_eq_true, decide_eq_true_eq] at hwake
    refine some.inj hs ▸ Quiet.mk q .ready q.wait [] (s.notifies.erase n) hq
      (by simp [Task.exited, hwake.2]) (.inl rfl) (fun c hc => .inr ⟨c, hc, rfl⟩) (by simp)
      fun m hm => ?_
    by_cases hmn : m = n
    · exact .inr ⟨hmn ▸ hqpid.symm, rfl⟩
    · exact .inl ((mem_erase_of_ne hmn).2 hm)
  · refine .inr ⟨(some.inj hs).symm, fun w hw hpid hleader hblocked => hwake ?_⟩
    rw [hkeys.ext hw hq (hpid.trans hqpid.symm)] at hblocked
    simp [hleader, hblocked]

/-! ## The other steps -/

lemma running_iff : w.running = true ↔ w.state = .ready ∧ w.exit = .none ∧ w.wait = none := by
  simp only [Task.running, Bool.and_eq_true, decide_eq_true_eq, and_assoc]

lemma clone_cases {pid esig : ℕ} {kind : Kind} (hkind : kind ≠ .sighand)
    (hs : clone s p pid kind esig = some s') :
    ∃ t ∈ s.tasks, t.running = true ∧ (∀ u ∈ s.tasks, u.pid ≠ pid) ∧
      (s' = (s.setSig t.sig { s.sigs t.sig with
              threadCount := (s.sigs t.sig).threadCount + 1 }).enter (t.thread pid s.nextBorn) ∨
        ∃ pp, s' = { (s.setSig s.nextSig ⟨pp, 1, (s.sigs t.sig).nocldwait⟩).enter
            (t.child pid s.nextSig esig s.nextBorn) with nextSig := s.nextSig + 1 }) := by
  obtain ⟨t, htm, -, hs⟩ := of_task? hs
  obtain ⟨hcond, hs⟩ := ite_none_right_eq_some.1 hs
  simp only [Bool.and_eq_true, decide_eq_true_eq, isNone_iff_eq_none] at hcond
  obtain ⟨⟨hrun, -⟩, hfree⟩ := hcond
  refine ⟨t, htm, hrun, fun u hu => task?_none hfree hu, ?_⟩
  cases kind with
  | thread => exact .inl (some.inj hs).symm
  | sighand => exact absurd rfl hkind
  | process sibling => exact .inr ⟨_, (some.inj hs).symm⟩

lemma setNocldwait_cases {ignored : Bool} (hs : setNocldwait s p ignored = some s') :
    ∃ t ∈ s.tasks, s' = s.setSig t.sig { s.sigs t.sig with nocldwait := ignored } := by
  obtain ⟨t, ht, -, hs⟩ := of_task? hs
  obtain ⟨-, hs⟩ := ite_none_right_eq_some.1 hs
  exact ⟨t, ht, (some.inj hs).symm⟩

/-- The signal structures after the children of `p` have gone to `init`. -/
def Sys.orphaned (s : Sys) (p g : ℕ) : Sig :=
  if (s.sigs g).parentPid = p ∧ ∃ u ∈ s.tasks, u.sig = g then
    { s.sigs g with parentPid := initPid }
  else s.sigs g

lemma exitStart_cases {code : ℕ} (hs : exitStart s p code = some s') :
    ∃ t ∈ s.tasks, t.pid = p ∧ t.running = true ∧
      s' = { s.setTask t { t with exitCode := code, exit := .started } with
             sigs := s.orphaned p } := by
  obtain ⟨t, htm, htp, hs⟩ := of_task? hs
  obtain ⟨hrun, hs⟩ := ite_none_right_eq_some.1 hs
  exact ⟨t, htm, htp, hrun, (some.inj hs).symm⟩

lemma exitCount_cases (hs : exitCount s p = some s') :
    ∃ t ∈ s.tasks, t.exit = .started ∧ ∃ pp,
      ((s.sigs t.sig).threadCount - 1 ≠ 0 → pp = (s.sigs t.sig).parentPid) ∧
      s' = (s.setSig t.sig { s.sigs t.sig with
              parentPid := pp, threadCount := (s.sigs t.sig).threadCount - 1 }).setTask t
            { t with exit := .counted pp (decide ((s.sigs t.sig).threadCount - 1 = 0)) } := by
  obtain ⟨t, ht, -, hs⟩ := of_task? hs
  obtain ⟨hstarted, hs⟩ := ite_none_right_eq_some.1 hs
  refine ⟨t, ht, hstarted, _, fun hne => ?_, (some.inj hs).symm⟩
  rw [decide_eq_false hne, Bool.false_and, if_neg (by decide)]

lemma exitZombie_cases (hs : exitZombie s p = some s') :
    ∃ t ∈ s.tasks, ∃ pp notify, t.exit = .counted pp notify ∧ t.state = .ready ∧
      s' = { s.setTask t { t with state := .zombie } with
             notifies :=
               if notify && (t.leader || decide (t.esig ≠ 0)) then ⟨pp, t.leader⟩ :: s.notifies
               else s.notifies } := by
  obtain ⟨t, ht, -, hs⟩ := of_task? hs
  cases hexit : t.exit with
  | none | started => simp only [hexit, reduceCtorEq] at hs
  | counted pp notify =>
    simp only [hexit] at hs
    obtain ⟨hready, hs⟩ := ite_none_right_eq_some.1 hs
    rw [← hexit] at hs
    exact ⟨t, ht, pp, notify, hexit, hready, (some.inj hs).symm⟩

end XosKernel.Wait
