/-
# Waiting parents are woken

The wake-up of a parent is decided from what the last step before `ZOMBIE` read: the parent,
whether the thread is the last one, whether it is the leader. When a leader exits last and a
parent does not exit while a child is exiting, what was read is still true when the child
becomes a zombie, and a parent that sleeps over an exited child has a wake-up on its way.
-/
import XosKernel.Proc.WaitStep

namespace XosKernel.Wait

open List Function Sys Task

variable {s s' : Sys} {t t' u w z : Task} {p : ℕ} {N : Args → Prop}

def Sys.AllExited (s : Sys) (g : ℕ) : Prop := ∀ u ∈ s.tasks, u.sig = g → u.exited = true
deriving Decidable

/-- No task sleeps in a wait over an exited child without a wake-up on its way. -/
def Sys.Woken (s : Sys) : Prop :=
  ∀ w ∈ s.tasks, ∀ z ∈ s.tasks, ∀ c, w.state = .blocked → w.wait = some c →
    z.state = .zombie → s.childMatches z c.pid w = true → s.AllExited z.sig →
      ∃ n ∈ s.notifies, n.ppid = w.pid ∧ n.leader = true

instance (s : Sys) : Decidable s.Woken :=
  decidable_of_iff
    (∀ w ∈ s.tasks, ∀ z ∈ s.tasks, ∀ c ∈ w.wait, w.state = .blocked → z.state = .zombie →
      s.childMatches z c.pid w = true → s.AllExited z.sig →
        ∃ n ∈ s.notifies, n.ppid = w.pid ∧ n.leader = true)
    ⟨fun h w hw z hz c hb hc => h w hw z hz c hc hb,
      fun h w hw z hz c hc hb => h w hw z hz c hb hc⟩

/-- Nothing is stopped, a `signal_struct` is shared by threads only, a leader exits last, and a
parent only when each of its children has a thread that is not exiting. -/
def Ordered (s : Sys) : Act → Prop
  | .exitStart p _ => (∀ t ∈ s.tasks, t.pid = p → t.leader = true →
        ∀ u ∈ s.tasks, u.sig = t.sig → u ≠ t → u.exited = true) ∧
      ∀ u ∈ s.tasks, (s.sigs u.sig).parentPid = p → ∃ v ∈ s.tasks, v.sig = u.sig ∧ v.exit = .none
  | a => Plain a

instance (s : Sys) : (a : Act) → Decidable (Ordered s a) := by
  rintro ⟨⟩ <;> unfold Ordered <;> infer_instance

/-- The thread is still in `thread_count`. -/
def Task.uncounted (t : Task) : Bool := t.exit = .none || t.exit = .started

/-! ## The groups -/

/-- The table as a set of thread groups. -/
structure Tree (s : Sys) : Prop where
  keys : s.Keys
  fresh : ∀ t ∈ s.tasks, t.sig < s.nextSig
  group : ∀ t ∈ s.tasks, ∀ u ∈ s.tasks, t.sig = u.sig → t.tgid = u.tgid
  last : ∀ l ∈ s.tasks, l.leader = true → l.exit ≠ .none →
    ∀ u ∈ s.tasks, u.sig = l.sig → u ≠ l → u.exited = true
  dead : ∀ t ∈ s.tasks, t.exited = true → t.uncounted = false
  /-- the leader of a live thread is there -/
  led : ∀ t ∈ s.tasks, t.exited = false → ∃ l ∈ s.tasks, l.sig = t.sig ∧ l.leader = true

lemma exit_ne_none (h : t.uncounted = false) : t.exit ≠ .none := by
  intro hexit
  rw [uncounted, hexit] at h
  cases h

lemma uncounted_of_exit (h : t.exit = .none) : t.uncounted = true := by
  rw [uncounted, h]
  rfl

namespace Tree

lemma live (h : Tree s) (ht : t ∈ s.tasks) (hun : t.uncounted = true) : t.exited = false := by
  refine Bool.eq_false_iff.2 fun hex => ?_
  rw [h.dead t ht hex] at hun
  cases hun

lemma eq_leader (h : Tree s) {l : Task} (hl : l ∈ s.tasks) (hleader : l.leader = true)
    (hexit : l.exit ≠ .none) (ht : t ∈ s.tasks) (hsig : t.sig = l.sig)
    (hlive : t.exited = false) : t = l := by
  by_contra hne
  rw [h.last l hl hleader hexit t ht hsig hne] at hlive
  cases hlive

lemma setTask (h : Tree s) (ht : t ∈ s.tasks) (hpid : t'.pid = t.pid) (htgid : t'.tgid = t.tgid)
    (hsig : t'.sig = t.sig)
    (hlast : t'.leader = true → t'.exit ≠ .none →
      ∀ u ∈ s.tasks, u.sig = t.sig → u ≠ t → u.exited = true)
    (hdead : t'.exited = true → t'.uncounted = false)
    (hmono : t.exited = true → t'.exited = true) : Tree (s.setTask t t') := by
  have hleader : t'.leader = t.leader := by rw [leader, leader, hpid, htgid]
  constructor
  case keys => exact h.keys.setTask ht hpid
  case fresh =>
    exact forall_setTask (hsig ▸ h.fresh t ht) h.fresh
  case group =>
    intro x hx y hy hxy
    rcases h.keys.mem_setTask.1 hx with rfl | ⟨-, hxs⟩ <;>
      rcases h.keys.mem_setTask.1 hy with rfl | ⟨-, hys⟩
    · rfl
    · exact htgid.trans (h.group t ht y hys (hsig.symm.trans hxy))
    · exact (h.group x hxs t ht (hxy.trans hsig)).trans htgid.symm
    · exact h.group x hxs y hys hxy
  case last =>
    intro l hl hll hexit u hu hul hne
    rcases h.keys.mem_setTask.1 hl with rfl | ⟨hlt, hls⟩
    · rcases h.keys.mem_setTask.1 hu with rfl | ⟨hut, hus⟩
      · exact absurd rfl hne
      · exact hlast hll hexit u hus (hul.trans hsig) hut
    · rcases h.keys.mem_setTask.1 hu with rfl | ⟨-, hus⟩
      · exact hmono (h.last l hls hll hexit t ht (hsig.symm.trans hul) hlt.symm)
      · exact h.last l hls hll hexit u hus hul hne
  case dead =>
    exact forall_setTask hdead h.dead
  case led =>
    -- the leader found in the old table stands in the new one
    have hkept : ∀ x ∈ s.tasks, x.exited = false →
        ∃ l ∈ (s.setTask t t').tasks, l.sig = x.sig ∧ l.leader = true := by
      intro x hx hlive
      obtain ⟨l, hl, hls, hll⟩ := h.led x hx hlive
      by_cases hlt : l = t
      · subst hlt
        exact ⟨t', h.keys.mem_setTask.2 (.inl rfl), hsig.trans hls, hleader.trans hll⟩
      · exact ⟨l, h.keys.mem_setTask.2 (.inr ⟨hlt, hl⟩), hls, hll⟩
    intro x hx hlive
    rcases h.keys.mem_setTask.1 hx with rfl | ⟨-, hx⟩
    · rw [hsig]
      refine hkept t ht (Bool.eq_false_iff.2 fun hex => ?_)
      rw [hmono hex] at hlive
      cases hlive
    · exact hkept x hx hlive

lemma dropTask (h : Tree s) (hz : z ∈ s.tasks) (hzexited : z.exited = true) :
    Tree (s.dropTask z) := by
  have hmem : ∀ x ∈ (s.dropTask z).tasks, x ∈ s.tasks := fun x hx => mem_of_mem_erase hx
  refine ⟨h.keys.dropTask, fun x hx => h.fresh x (hmem x hx),
    fun x hx y hy => h.group x (hmem x hx) y (hmem y hy),
    fun l hl hll hexit u hu => h.last l (hmem l hl) hll hexit u (hmem u hu),
    fun x hx => h.dead x (hmem x hx), fun x hx hlive => ?_⟩
  obtain ⟨l, hl, hls, hll⟩ := h.led x (hmem x hx) hlive
  refine ⟨l, h.keys.nodup.mem_erase_iff.2 ⟨?_, hl⟩, hls, hll⟩
  rintro rfl
  rw [h.eq_leader hl hll (exit_ne_none (h.dead l hl hzexited)) (hmem x hx) hls.symm hlive,
    hzexited] at hlive
  cases hlive

lemma cons (h : Tree s) {x : Task} {n : ℕ} (hfree : ∀ u ∈ s.tasks, u.pid ≠ x.pid)
    (hx : x.exit = .none) (hready : x.state = .ready) (hn : s.nextSig ≤ n) (hxn : x.sig < n)
    (hgroup : (∃ t ∈ s.tasks, t.exited = false ∧ t.exit = .none ∧ x.sig = t.sig ∧
        x.tgid = t.tgid) ∨ x.sig = s.nextSig ∧ x.leader = true)
    (htasks : s'.tasks = x :: s.tasks) (hsig : s'.nextSig = n) : Tree s' := by
  have hnew : x.sig = s.nextSig → ∀ u ∈ s.tasks, u.sig ≠ x.sig := by
    intro hxs u hu
    rw [hxs]
    exact (h.fresh u hu).ne
  constructor
  case keys =>
    rw [Sys.Keys, htasks]
    refine nodup_cons.2 ⟨fun hmem => ?_, h.keys⟩
    obtain ⟨u, hu, hpid⟩ := mem_map.1 hmem
    exact hfree u hu hpid
  case fresh =>
    rw [htasks, hsig]
    exact forall_mem_cons.2 ⟨hxn, fun u hu => (h.fresh u hu).trans_le hn⟩
  case group =>
    have hside : ∀ u ∈ s.tasks, x.sig = u.sig → x.tgid = u.tgid := by
      intro u hu hxu
      rcases hgroup with ⟨t, ht, -, -, hxt, htg⟩ | ⟨hxs, -⟩
      · exact htg.trans (h.group t ht u hu (hxt.symm.trans hxu))
      · exact absurd hxu.symm (hnew hxs u hu)
    rw [htasks]
    intro a ha b hb hab
    rcases mem_cons.1 ha with rfl | has <;> rcases mem_cons.1 hb with rfl | hbs
    · rfl
    · exact hside b hbs hab
    · exact (hside a has hab.symm).symm
    · exact h.group a has b hbs hab
  case last =>
    rw [htasks]
    intro l hl hll hexit u hu hul hne
    rcases mem_cons.1 hl with rfl | hls
    · exact absurd hx hexit
    rcases mem_cons.1 hu with rfl | hus
    · rcases hgroup with ⟨t, ht, hlive, hnone, hxt, -⟩ | ⟨hxs, -⟩
      · rw [← h.eq_leader hls hll hexit ht (hxt.symm.trans hul) hlive] at hexit
        exact absurd hnone hexit
      · exact absurd hul.symm (hnew hxs l hls)
    · exact h.last l hls hll hexit u hus hul hne
  case dead =>
    rw [htasks]
    refine forall_mem_cons.2 ⟨fun hex => ?_, h.dead⟩
    rw [exited_of_ready hready] at hex
    cases hex
  case led =>
    rw [htasks]
    intro y hy hlive
    rcases mem_cons.1 hy with rfl | hys
    · rcases hgroup with ⟨t, ht, htlive, -, hxt, -⟩ | ⟨-, hleader⟩
      · obtain ⟨l, hl, hlt, hll⟩ := h.led t ht htlive
        exact ⟨l, mem_cons_of_mem _ hl, hlt.trans hxt.symm, hll⟩
      · exact ⟨y, mem_cons_self, rfl, hleader⟩
    · obtain ⟨l, hl, hlt, hll⟩ := h.led y hys hlive
      exact ⟨l, mem_cons_of_mem _ hl, hlt, hll⟩

end Tree

/-! ## The thread counts -/

/-- The threads of a group that have not been counted out. -/
def Sys.tally (s : Sys) (g : ℕ) : ℤ := s.tasks.countP fun t => decide (t.sig = g) && t.uncounted

lemma tally_eq (ht : t ∈ s.tasks) (g : ℕ) :
    s.tally g = (s.dropTask t).tally g + if t.sig = g ∧ t.uncounted = true then 1 else 0 := by
  rw [tally, (perm_cons_erase ht).countP_eq, countP_cons]
  simp only [Bool.and_eq_true, decide_eq_true_eq, Nat.cast_add, Nat.cast_ite, Nat.cast_one,
    Nat.cast_zero]
  rfl

lemma tally_setTask (g : ℕ) :
    (s.setTask t t').tally g =
      (s.dropTask t).tally g + if t'.sig = g ∧ t'.uncounted = true then 1 else 0 := by
  rw [tally, setTask, countP_cons]
  simp only [Bool.and_eq_true, decide_eq_true_eq, Nat.cast_add, Nat.cast_ite, Nat.cast_one,
    Nat.cast_zero]
  rfl

lemma tally_eq_zero {g : ℕ} :
    s.tally g = 0 ↔ ∀ u ∈ s.tasks, ¬(decide (u.sig = g) && u.uncounted) = true :=
  Int.natCast_eq_zero.trans countP_eq_zero

lemma tally_setTask_same (ht : t ∈ s.tasks) (hsig : t'.sig = t.sig)
    (hcount : t'.uncounted = t.uncounted) (g : ℕ) : (s.setTask t t').tally g = s.tally g := by
  rw [tally_setTask, tally_eq ht, hsig, hcount]

/-! ## The invariant -/

structure Awake (s : Sys) : Prop where
  tree : Tree s
  count : ∀ g < s.nextSig, (s.sigs g).threadCount = s.tally g
  /-- what an exiting leader has read is still true -/
  told : ∀ l ∈ s.tasks, l.leader = true → ∀ pp notify, l.exit = .counted pp notify →
    notify = true ∧ pp = (s.sigs l.sig).parentPid
  woken : s.Woken

lemma Sys.AllExited.of_setTask {g : ℕ} (hkeys : s.Keys) (h : (s.setTask t t').AllExited g)
    (hsig : t'.sig = t.sig) (hback : t.sig = g → t'.exited = true → t.exited = true) :
    s.AllExited g := by
  intro u hu hug
  by_cases hut : u = t
  · subst hut
    exact hback hug (h t' (hkeys.mem_setTask.2 (.inl rfl)) (hsig.trans hug))
  · exact h u (hkeys.mem_setTask.2 (.inr ⟨hut, hu⟩)) hug

namespace Awake

lemma init : Awake Sys.init where
  tree := by
    refine ⟨?_, ?_, ?_, ?_, ?_, ?_⟩ <;>
      simp [Sys.Keys, Sys.init, Task.exited, Task.leader]
  count := by
    intro g hg
    obtain rfl : g = 0 := Nat.lt_one_iff.1 hg
    rfl
  told := by simp [Sys.init]
  woken := by simp [Sys.Woken, Sys.init]

section

variable (h : Awake s)
include h

lemma quiet (hq : Quiet N s s') : Awake s' := by
  obtain ⟨w, st, wt, entries, notifies, hw, hlive, hst, -, -, hnotifies⟩ := hq
  have hnew : ({ w with state := st, wait := wt } : Task).exited = false := by
    rcases hst with rfl | ⟨rfl, -⟩ <;> rfl
  have hkeys := h.tree.keys
  constructor
  case tree =>
    have hset : Tree (s.setTask w { w with state := st, wait := wt }) := by
      refine h.tree.setTask hw rfl rfl rfl (h.tree.last w hw) (fun hex => ?_) (fun hex => ?_)
      · rw [hnew] at hex
        cases hex
      · rw [hlive] at hex
        cases hex
    exact { hset with }
  case count =>
    intro g hg
    exact (h.count g hg).trans (tally_setTask_same hw rfl rfl g).symm
  case told =>
    exact forall_setTask (h.told w hw) h.told
  case woken =>
    intro v hv z hz c hblocked hwait hzombie hmatch hall
    have hzs : z ∈ s.tasks := by
      rcases hkeys.mem_setTask.1 hz with rfl | ⟨-, hzs⟩
      · rw [exited, hzombie] at hnew
        cases hnew
      · exact hzs
    rcases hkeys.mem_setTask.1 hv with rfl | ⟨hvw, hvs⟩
    · -- the task has just gone to sleep, and no zombie matched
      rcases hst with rfl | ⟨-, d, hd, hnone⟩
      · cases hblocked
      · obtain rfl := Option.some.inj (hd.symm.trans hwait)
        exact absurd hzombie (hnone z hzs hmatch)
    · have hbefore : s.AllExited z.sig := by
        refine Sys.AllExited.of_setTask hkeys hall rfl fun _ hex => ?_
        rw [hnew] at hex
        cases hex
      obtain ⟨n, hn, hnp, hnl⟩ := h.woken v hvs z hzs c hblocked hwait hzombie hmatch hbefore
      rcases hnotifies n hn with hkept | ⟨hnw, -⟩
      · exact ⟨n, hkept, hnp, hnl⟩
      · exact absurd (hkeys.ext hvs hw (hnp.symm.trans hnw)) hvw

lemma eraseNotify {n : Notify}
    (hidle : ∀ w ∈ s.tasks, w.pid = n.ppid → n.leader = true → w.state ≠ .blocked) :
    Awake { s with notifies := s.notifies.erase n } := by
  refine ⟨{ h.tree with }, h.count, h.told, ?_⟩
  intro w hw z hz c hblocked hwait hzombie hmatch hall
  obtain ⟨m, hm, hmp, hml⟩ := h.woken w hw z hz c hblocked hwait hzombie hmatch hall
  refine ⟨m, (mem_erase_of_ne ?_).2 hm, hmp, hml⟩
  rintro rfl
  exact hidle w hw hmp.symm hml hblocked

lemma dropTask (hz : z ∈ s.tasks) (hzombie : z.state = .zombie) : Awake (s.dropTask z) := by
  have hexited : z.exited = true := by simp [exited, hzombie]
  have hmem : ∀ x ∈ (s.dropTask z).tasks, x ∈ s.tasks := fun x hx => mem_of_mem_erase hx
  refine ⟨h.tree.dropTask hz hexited, fun g hg => ?_, fun l hl => h.told l (hmem l hl), ?_⟩
  · rw [show (s.dropTask z).sigs g = s.sigs g from rfl, h.count g hg, tally_eq hz,
      h.tree.dead z hz hexited, if_neg (by simp), add_zero]
  · intro w hw y hy c hblocked hwait hyzombie hmatch hall
    refine h.woken w (hmem w hw) y (hmem y hy) c hblocked hwait hyzombie hmatch ?_
    intro u hu hus
    by_cases huz : u = z
    · rw [huz, hexited]
    · exact hall u (h.tree.keys.nodup.mem_erase_iff.2 ⟨huz, hu⟩) hus

lemma markReaping (hz : z ∈ s.tasks) (hzombie : z.state = .zombie) :
    Awake (s.setTask z { z with state := .reaping }) := by
  have hexited : z.exited = true := by simp [exited, hzombie]
  have hkeys := h.tree.keys
  constructor
  case tree =>
    exact h.tree.setTask hz rfl rfl rfl (h.tree.last z hz) (fun _ => h.tree.dead z hz hexited)
      fun _ => rfl
  case count =>
    intro g hg
    exact (h.count g hg).trans (tally_setTask_same hz rfl rfl g).symm
  case told =>
    exact forall_setTask (h.told z hz) h.told
  case woken =>
    intro w hw y hy c hblocked hwait hyzombie hmatch hall
    have hbefore := Sys.AllExited.of_setTask hkeys hall rfl fun _ _ => hexited
    rcases hkeys.mem_setTask.1 hw with rfl | ⟨-, hws⟩
    · cases hblocked
    rcases hkeys.mem_setTask.1 hy with rfl | ⟨-, hys⟩
    · cases hyzombie
    exact h.woken w hws y hys c hblocked hwait hyzombie hmatch hbefore

lemma claim (hc : Claims s s') : Awake s' := by
  obtain ⟨w, z, c, hw, hz, hwait, hready, hzombie⟩ := hc
  have hwz : z ≠ w := by
    rintro rfl
    rw [hready] at hzombie
    cases hzombie
  have hq := Quiet.mk (N := fun _ => False) w .ready none [] s.notifies hw
    (exited_of_ready hready) (.inl rfl) (by rintro d ⟨⟩) (by simp) fun n hn => .inl hn
  rw [← hready] at hq
  have hset : Awake (s.setTask w { w with wait := none }) :=
    { h.quiet hq with tree := { (h.quiet hq).tree with } }
  have hzs : z ∈ (s.setTask w { w with wait := none }).tasks :=
    h.tree.keys.mem_setTask.2 (.inr ⟨hwz, hz⟩)
  rw [reap]
  split
  · have hmark := hset.markReaping hzs hzombie
    exact { hmark with tree := { hmark.tree with } }
  · have hdrop := hset.dropTask hzs hzombie
    exact { hdrop with tree := { hdrop.tree with } }

lemma setNocldwait {ignored : Bool} (hs : setNocldwait s p ignored = some s') :
    Awake s' := by
  obtain ⟨t, -, rfl⟩ := setNocldwait_cases hs
  have hsame : ∀ g, ((s.setSig t.sig { s.sigs t.sig with nocldwait := ignored }).sigs g).parentPid
        = (s.sigs g).parentPid ∧
      ((s.setSig t.sig { s.sigs t.sig with nocldwait := ignored }).sigs g).threadCount
        = (s.sigs g).threadCount := by
    intro g
    rw [setSig]
    dsimp only
    by_cases hg : g = t.sig
    · subst hg
      rw [update_self]
      exact ⟨rfl, rfl⟩
    · rw [update_of_ne hg]
      exact ⟨rfl, rfl⟩
  refine ⟨{ h.tree with }, fun g hg => (hsame g).2.trans (h.count g hg), ?_, ?_⟩
  · intro l hl hll pp notify hexit
    rw [(hsame l.sig).1]
    exact h.told l hl hll pp notify hexit
  · intro w hw z hz c hblocked hwait hzombie hmatch hall
    rw [childMatches, (hsame z.sig).1] at hmatch
    exact h.woken w hw z hz c hblocked hwait hzombie hmatch hall

lemma cons {x : Task} {r : Sys} (htree : Tree r) (htasks : r.tasks = x :: s.tasks)
    (hcount : ∀ g < r.nextSig, (r.sigs g).threadCount = r.tally g) (hnotifies : r.notifies =
    s.notifies)
    (hparent : ∀ u ∈ s.tasks, (r.sigs u.sig).parentPid = (s.sigs u.sig).parentPid)
    (hx : x.state = .ready) (hexit : x.exit = .none) : Awake r := by
  refine ⟨htree, hcount, ?_, ?_⟩
  · rw [htasks]
    refine forall_mem_cons.2 ⟨fun _ _ _ hle => ?_, fun l hl hll pp notify hle => ?_⟩
    · cases hexit.symm.trans hle
    · exact (hparent l hl).symm ▸ h.told l hl hll pp notify hle
  · intro w hw z hz c hblocked hwait hzombie hmatch hall
    rw [htasks] at hw hz
    rw [hnotifies]
    rcases mem_cons.1 hw with rfl | hws
    · cases hx.symm.trans hblocked
    rcases mem_cons.1 hz with rfl | hzs
    · cases hx.symm.trans hzombie
    rw [childMatches, hparent z hzs] at hmatch
    refine h.woken w hws z hzs c hblocked hwait hzombie hmatch fun u hu => hall u ?_
    rw [htasks]
    exact mem_cons_of_mem _ hu

lemma clone {pid esig : ℕ} {kind : Kind} (hkind : kind ≠ .sighand)
    (hs : clone s p pid kind esig = some s') : Awake s' := by
  obtain ⟨t, ht, hrun, hfree, hs⟩ := clone_cases hkind hs
  obtain ⟨hready, hexit, -⟩ := running_iff.1 hrun
  have hlive := exited_of_ready hready
  rcases hs with rfl | ⟨pp, rfl⟩
  · refine h.cons (h.tree.cons (x := t.thread pid s.nextBorn) hfree rfl rfl le_rfl
      (h.tree.fresh t ht)
      (.inl ⟨t, ht, hlive, hexit, rfl, rfl⟩) rfl rfl) rfl (fun g hg => ?_) rfl (fun u _ => ?_) rfl
      rfl
    · dsimp only [setSig, enter]
      rw [tally, countP_cons]
      by_cases hgt : g = t.sig
      · subst hgt
        rw [update_self, if_pos (by simp [Task.thread, Task.uncounted])]
        exact congrArg (· + 1) (h.count _ hg)
      · rw [update_of_ne hgt, if_neg (by simp [Task.thread, Ne.symm hgt]), add_zero]
        exact h.count g hg
    · dsimp only [setSig, enter]
      rw [update_apply]
      split
      next hu => rw [hu]
      · rfl
  · have hold : ∀ g < s.nextSig, update s.sigs s.nextSig
        ⟨pp, 1, (s.sigs t.sig).nocldwait⟩ g = s.sigs g :=
      fun g hg => update_of_ne hg.ne _ _
    refine h.cons (h.tree.cons hfree rfl rfl (Nat.le_succ _) (Nat.lt_succ_self _)
      (.inr ⟨rfl, decide_eq_true rfl⟩) rfl rfl) rfl (fun g hg => ?_) rfl
      (fun u hu => congrArg Sig.parentPid (hold u.sig (h.tree.fresh u hu))) rfl rfl
    dsimp only [setSig, enter]
    rw [tally, countP_cons]
    by_cases hgn : g = s.nextSig
    · subst hgn
      rw [update_self, if_pos (by simp [child, uncounted])]
      have hzero : s.tally s.nextSig = 0 := by
        refine tally_eq_zero.2 fun u hu => ?_
        simp [(h.tree.fresh u hu).ne]
      exact congrArg (· + 1) hzero.symm
    · have hlt : g < s.nextSig := lt_of_le_of_ne (Nat.lt_succ_iff.1 hg) hgn
      rw [hold g hlt, if_neg (by simp [child, Ne.symm hgn]), add_zero]
      exact h.count g hlt

lemma exitStart {code : ℕ} (hC : Ordered s (.exitStart p code))
    (hs : exitStart s p code = some s') : Awake s' := by
  obtain ⟨t, ht, htp, hrun, rfl⟩ := exitStart_cases hs
  obtain ⟨hready, hexit, -⟩ := running_iff.1 hrun
  obtain ⟨hlast, hchildren⟩ := hC
  have hkeys := h.tree.keys
  have hlive := exited_of_ready hready
  -- a group that changes its parent has a live thread
  have hparent : ∀ g, (s.orphaned p g).parentPid = (s.sigs g).parentPid ∨
      ∃ v ∈ s.tasks, v.sig = g ∧ v.exit = .none := by
    intro g
    rw [orphaned]
    by_cases hg : (s.sigs g).parentPid = p ∧ ∃ u ∈ s.tasks, u.sig = g
    · obtain ⟨hgp, u, hu, rfl⟩ := hg
      exact .inr (hchildren u hu hgp)
    · rw [if_neg hg]
      exact .inl rfl
  have hcount : ∀ g, (s.orphaned p g).threadCount = (s.sigs g).threadCount := by
    intro g
    rw [orphaned]
    split_ifs <;> rfl
  constructor
  case tree =>
    have hset : Tree (s.setTask t { t with exitCode := code, exit := .started }) :=
      h.tree.setTask ht rfl rfl rfl (fun hll _ => hlast t ht htp hll)
        (fun hex => absurd hex (by rw [exited, hready]; decide))
        (fun hex => absurd hex (by rw [hlive]; decide))
    exact { hset with }
  case count =>
    intro g hg
    have htally : (s.setTask t { t with exitCode := code, exit := .started }).tally g
        = s.tally g := by
      refine tally_setTask_same ht ?_ ?_ g
      · rfl
      · rw [uncounted_of_exit hexit]
        rfl
    exact (hcount g).trans ((h.count g hg).trans htally.symm)
  case told =>
    intro l hl hll pp notify hle
    rcases hkeys.mem_setTask.1 hl with rfl | ⟨-, hls⟩
    · cases hle
    · rcases hparent l.sig with hsame | ⟨v, hv, hvs, hvexit⟩
      · rw [hsame]
        exact h.told l hls hll pp notify hle
      · have hvlive := h.tree.live hv (uncounted_of_exit hvexit)
        rw [← h.tree.eq_leader hls hll (by rw [hle]; rintro ⟨⟩) hv hvs hvlive, hvexit] at hle
        cases hle
  case woken =>
    intro w hw z hz c hblocked hwait hzombie hmatch hall
    have hbefore : s.AllExited z.sig := by
      exact Sys.AllExited.of_setTask hkeys hall rfl fun _ hex => hex
    rcases hkeys.mem_setTask.1 hw with rfl | ⟨-, hws⟩
    · rw [hready] at hblocked
      cases hblocked
    rcases hkeys.mem_setTask.1 hz with rfl | ⟨-, hzs⟩
    · rw [hready] at hzombie
      cases hzombie
    rcases hparent z.sig with hsame | ⟨v, hv, hvs, hvexit⟩
    · rw [childMatches, hsame] at hmatch
      exact h.woken w hws z hzs c hblocked hwait hzombie hmatch hbefore
    · exact absurd hvexit (exit_ne_none (h.tree.dead v hv (hbefore v hv hvs)))

/-- Counting out the leader leaves nobody, and counting out another thread leaves the leader. -/
lemma last_iff_leader (ht : t ∈ s.tasks) (hstarted : t.exit = .started) :
    (s.sigs t.sig).threadCount - 1 = 0 ↔ t.leader = true := by
  have hun : t.uncounted = true := by rw [uncounted, hstarted]; rfl
  have hlive := h.tree.live ht hun
  rw [h.count _ (h.tree.fresh t ht), tally_eq ht, if_pos ⟨rfl, hun⟩, add_sub_cancel_right]
  constructor
  · intro hzero
    by_contra hnl
    obtain ⟨l, hl, hls, hll⟩ := h.tree.led t ht hlive
    have hlt : l ≠ t := by
      rintro rfl
      exact hnl hll
    have hlexit : l.exit = .none := by
      by_contra hne
      exact hlt (h.tree.eq_leader hl hll hne ht hls.symm hlive).symm
    have hmem := h.tree.keys.nodup.mem_erase_iff.2 ⟨hlt, hl⟩
    refine tally_eq_zero.1 hzero l hmem ?_
    rw [uncounted_of_exit hlexit, decide_eq_true hls]
    rfl
  · intro hll
    refine tally_eq_zero.2 fun u hu => ?_
    obtain ⟨hut, hus⟩ := h.tree.keys.nodup.mem_erase_iff.1 hu
    by_cases hsig : u.sig = t.sig
    · have hex := h.tree.last t ht hll (by rw [hstarted]; rintro ⟨⟩) u hus hsig hut
      simp [h.tree.dead u hus hex]
    · simp [hsig]

lemma exitCount (hs : exitCount s p = some s') : Awake s' := by
  obtain ⟨t, ht, hstarted, pp, hpp, rfl⟩ := exitCount_cases hs
  have hlast := h.last_iff_leader ht hstarted
  have hkeys := h.tree.keys
  have hun : t.uncounted = true := by rw [uncounted, hstarted]; rfl
  have hlive := h.tree.live ht hun
  constructor
  case tree =>
    have hset : Tree (s.setTask t { t with
        exit := .counted pp (decide ((s.sigs t.sig).threadCount - 1 = 0)) }) :=
      h.tree.setTask ht rfl rfl rfl
        (fun hll _ => h.tree.last t ht hll (by rw [hstarted]; rintro ⟨⟩)) (fun _ => rfl)
        fun hex => hex
    exact { hset with }
  case count =>
    intro g hg
    show (update s.sigs t.sig _ g).threadCount = tally (s.setTask t _) g
    rw [tally_setTask, if_neg (by rintro ⟨-, ⟨⟩⟩), add_zero]
    by_cases hgt : g = t.sig
    · subst hgt
      rw [update_self]
      rw [h.count _ hg, tally_eq ht, if_pos ⟨rfl, hun⟩, add_sub_cancel_right]
    · rw [update_of_ne hgt, h.count g hg, tally_eq ht, if_neg fun hc => hgt hc.1.symm, add_zero]
  case told =>
    intro l hl hll qq notify hle
    show notify = true ∧ qq = (update s.sigs t.sig _ l.sig).parentPid
    rcases hkeys.mem_setTask.1 hl with rfl | ⟨hlt, hls⟩
    · obtain ⟨rfl, rfl⟩ := Exit.counted.inj hle
      rw [update_self]
      exact ⟨decide_eq_true (hlast.2 hll), rfl⟩
    · have hsep : l.sig ≠ t.sig := by
        intro hsig
        exact hlt (h.tree.eq_leader hls hll (by rw [hle]; rintro ⟨⟩) ht hsig.symm hlive).symm
      rw [update_of_ne hsep]
      exact h.told l hls hll qq notify hle
  case woken =>
    intro w hw z hz c hblocked hwait hzombie hmatch hall
    have hbefore : s.AllExited z.sig := by
      exact Sys.AllExited.of_setTask hkeys hall rfl fun _ hex => hex
    -- the group of the exiting thread is not over yet
    have hsep : z.sig ≠ t.sig := by
      intro hsig
      rw [hbefore t ht hsig.symm] at hlive
      cases hlive
    have hzs : z ∈ s.tasks := by
      rcases hkeys.mem_setTask.1 hz with rfl | ⟨-, hzs⟩
      · exact absurd rfl hsep
      · exact hzs
    have hmatch' : s.childMatches z c.pid w = true := by
      change (decide ((update s.sigs t.sig _ z.sig).parentPid = _) && _) = true at hmatch
      rwa [update_of_ne hsep] at hmatch
    rcases hkeys.mem_setTask.1 hw with rfl | ⟨-, hws⟩
    · exact h.woken t ht z hzs c hblocked hwait hzombie hmatch' hbefore
    · exact h.woken w hws z hzs c hblocked hwait hzombie hmatch' hbefore

lemma exitZombie (hs : exitZombie s p = some s') : Awake s' := by
  obtain ⟨t, ht, pp, notify, hexit, hready, rfl⟩ := exitZombie_cases hs
  have hkeys := h.tree.keys
  have hlive := exited_of_ready hready
  constructor
  case tree =>
    have hset : Tree (s.setTask t { t with state := .zombie }) :=
      h.tree.setTask ht rfl rfl rfl (h.tree.last t ht)
        (fun _ => by rw [uncounted, hexit]; rfl) fun _ => rfl
    exact { hset with }
  case count =>
    intro g hg
    exact (h.count g hg).trans (tally_setTask_same ht rfl rfl g).symm
  case told =>
    exact forall_setTask (h.told t ht) h.told
  case woken =>
    intro w hw z hz c hblocked hwait hzombie hmatch hall
    have hws : w ∈ s.tasks := by
      rcases hkeys.mem_setTask.1 hw with rfl | ⟨-, hws⟩
      · cases hblocked
      · exact hws
    by_cases hsig : z.sig = t.sig
    · -- the last thread of the group, and so the leader
      have hleader : t.leader = true := by
        obtain ⟨l, hl, hls, hll⟩ := h.tree.led t ht hlive
        by_cases hlt : l = t
        · exact hlt ▸ hll
        · have hlex := hall l (hkeys.mem_setTask.2 (.inr ⟨hlt, hl⟩)) (hls.trans hsig.symm)
          have hlexit := exit_ne_none (h.tree.dead l hl hlex)
          exact absurd (h.tree.eq_leader hl hll hlexit ht hls.symm hlive).symm hlt
      obtain ⟨rfl, rfl⟩ := h.told t ht hleader pp notify hexit
      rw [childMatches, Bool.and_eq_true, decide_eq_true_eq, hsig] at hmatch
      refine ⟨⟨(s.sigs t.sig).parentPid, t.leader⟩, ?_, hmatch.1, hleader⟩
      rw [hleader, Bool.true_or, Bool.and_self, if_pos rfl]
      exact mem_cons_self
    · have hzs : z ∈ s.tasks := by
        rcases hkeys.mem_setTask.1 hz with rfl | ⟨-, hzs⟩
        · exact absurd rfl hsig
        · exact hzs
      have hbefore : s.AllExited z.sig :=
        Sys.AllExited.of_setTask hkeys hall rfl fun hts _ => absurd hts.symm hsig
      obtain ⟨n, hn, hnp, hnl⟩ := h.woken w hws z hzs c hblocked hwait hzombie hmatch hbefore
      refine ⟨n, ?_, hnp, hnl⟩
      split_ifs
      · exact mem_cons_of_mem _ hn
      · exact hn

lemma step {a : Act} (ha : Ordered s a) (hs : step s a = some s') : Awake s' := by
  cases a with
  | clone p pid kind esig => exact h.clone ha hs
  | setNocldwait p ignored => exact h.setNocldwait hs
  | doStop | doCont | waitReport => exact ha.elim
  | exitStart p code => exact h.exitStart ha hs
  | exitCount p => exact h.exitCount hs
  | exitZombie p => exact h.exitZombie hs
  | deliver n =>
    rcases deliver_cases (N := fun _ => False) h.tree.keys hs with hq | ⟨rfl, hidle⟩
    · exact h.quiet hq
    · exact h.eraseNotify hidle
  | waitStart p a => exact h.quiet (waitStart_quiet (N := fun _ => True) trivial hs)
  | waitScan p found => exact h.quiet (waitScan_quiet (N := fun _ => False) hs)
  | waitChanged p cont => exact h.quiet (waitChanged_quiet (N := fun _ => False) hs)
  | waitClaim p z => exact (waitClaim_cases (N := fun _ => False) hs).elim h.quiet h.claim
  | waitBlock p found interrupted =>
    exact (waitBlock_cases (N := fun _ => False) h.tree.keys hs).elim h.quiet h.claim
  | waitValidate p => exact h.quiet (waitValidate_quiet (N := fun _ => False) hs)
  | waitCheck p interrupted => exact (waitCheck_cases (N := fun _ => False) hs).elim h.quiet h.claim
  | waitRecheck p => exact h.quiet (waitRecheck_quiet (N := fun _ => False) hs)
  | wakeBySignal p => exact h.quiet (wakeBySignal_quiet (N := fun _ => False) hs)

end

end Awake

/-! ## Runs -/

/-- `init` sleeps in a wait, and its child 3 with the thread 4 exits, the thread first. -/
def orderedRun : List Act :=
  [.clone 2 3 (.process false) 17, .clone 3 4 .thread 0, .waitStart 2 { pid := -1 },
    .waitScan 2 .nothing, .waitBlock 2 .nothing false, .exitStart 4 0, .exitCount 4, .exitZombie 4,
    .exitStart 3 0, .exitCount 3, .exitZombie 3]

/-- The grandchild 4 of `init` exits over its zombie 5 while `init` sleeps; the wake-up for the
exit of 4 goes to 3. -/
def orphanRun : List Act :=
  [.clone 2 3 (.process false) 17, .clone 3 4 (.process false) 17, .clone 4 5 (.process false) 17,
    .exitStart 5 0, .exitCount 5, .exitZombie 5, .deliver ⟨4, true⟩, .waitStart 2 { pid := -1 },
    .waitScan 2 .nothing, .waitBlock 2 .nothing false, .exitStart 4 0, .exitCount 4, .exitZombie 4,
    .deliver ⟨3, true⟩]

/-- The leader 3 exits before its thread 4, while `init` sleeps. -/
def threadLastRun : List Act :=
  [.clone 2 3 (.process false) 17, .clone 3 4 .thread 0, .waitStart 2 { pid := -1 },
    .waitScan 2 .nothing, .waitBlock 2 .nothing false, .exitStart 3 0, .exitCount 3, .exitZombie 3,
    .exitStart 4 0, .exitCount 4, .exitZombie 4]

/-- The parent 4 exits between the moment its child 5 reads it and the moment 5 is a zombie. -/
def staleParentRun : List Act :=
  [.clone 2 3 (.process false) 17, .clone 3 4 (.process false) 17, .clone 4 5 (.process false) 17,
    .waitStart 2 { pid := -1 }, .waitScan 2 .nothing, .waitBlock 2 .nothing false,
    .exitStart 5 0, .exitCount 5, .exitStart 4 0, .exitZombie 5, .deliver ⟨4, true⟩,
    .exitCount 4, .exitZombie 4, .deliver ⟨3, true⟩]

/-- The child 4 of 3 shares its `signal_struct` and is reaped; then 3 exits and counts to -1. -/
def sighandRun : List Act :=
  [.clone 2 3 (.process false) 17, .clone 3 4 .sighand 17, .exitStart 4 0, .exitCount 4,
    .exitZombie 4, .deliver ⟨2, true⟩, .waitStart 2 { pid := -1 }, .waitScan 2 (.zombie 4),
    .waitClaim 2 4, .waitStart 2 { pid := -1 }, .waitScan 2 .nothing, .waitBlock 2 .nothing false,
    .exitStart 3 0, .exitCount 3, .exitZombie 3]

end XosKernel.Wait
