/-
# No task stays blocked in a pipe that it could go on with

A task is stuck when it is `BLOCKED` in the pipe, could go on, and nobody is about to wake it.
The invariant behind the absence of stuck tasks says, for a `BLOCKED` reader, that the ring holds
no more bytes than the writer has written in its current call, at the end of which it wakes the
reader; and for a `BLOCKED` writer, that the ring is full or the reader is in its copy loop, at
the end of which it wakes the writer. A write that fits into the ring therefore never blocks
while the reader does.
-/
import XosKernel.Lib.Ring
import XosKernel.Lib.Run
import XosKernel.Ipc.Pipe

namespace XosKernel.Pipes

open Function Nat

def Pipe.used (p : Pipe) : ℕ := ringUsed p.size p.head p.tail

/-- The call has its `__wake_up` still before it, unless it is made to return earlier. -/
def Phase.bound : Phase → Bool
  | .out | .settle (.out _) | .put _ => false
  | _ => true

/-- `wake_pipe_peers` with these flags comes to a `__wake_up`. -/
def wakesPeers (fdFlags : ℕ) : Prop :=
  fdFlags &&& (oWronly ||| oRdwr) ≠ 0 ∨ fdFlags &&& (oRdonly ||| oRdwr) ≠ 0

/-- A wake-up of the task is under way: a sender of a signal, the last `file_put` of the other
end, or the other task, which is not `BLOCKED` and has moved bytes, is yet to make it. -/
def Sys.WakeInFlight (s : Sys) (t : Side) : Prop :=
  (∃ x ∈ s.sending t, x.wakes (s.task t)) ∨
  ((s.file t.peer).release = .waking ∧ wakesPeers ((s.file t.peer).flags t.peer)) ∨
  match t with
  | .reader =>
    (s.task .writer).phase = .wake ∨
      ((s.task .writer).state ≠ .blocked ∧ (s.task .writer).phase.bound = true ∧
        0 < (s.task .writer).moved)
  | .writer => (s.task .reader).phase = .move ∨ (s.task .reader).phase = .wake

/-- The task's own condition for going on: its readiness test or a deliverable signal. -/
def Sys.Continues (s : Sys) (t : Side) : Prop := s.pipe.ready t ∨ (s.task t).signalPending

/-- The task is `BLOCKED`, could go on, and nobody is about to wake it. -/
def Sys.Stuck (s : Sys) (t : Side) : Prop :=
  (s.task t).state = .blocked ∧ s.Continues t ∧ ¬ s.WakeInFlight t

/-- Outside of the calls, asleep, before the test of `signal_pending`, or on the way out. -/
def Phase.lets : Phase → Bool
  | .out | .asleep | .check | .settle (.out _) | .put _ => true
  | _ => false

/-- A deliverable signal does no harm now: the task has the test of `signal_pending` still before
it or is on its way out, and a sleeping writer has written nothing yet. -/
def Task.MaySignal (t : Side) (c : Task) : Prop :=
  c.phase.lets = true ∧ (t = .writer → c.phase = .asleep ∨ c.phase = .check → c.moved = 0)
deriving Decidable

/-- Every write is shorter than the ring. No call is entered with a deliverable signal pending,
one reaches a task only where it does no harm, and one that comes without a wake-up does not find
it `BLOCKED`. No task prepares to wait between the
`wake_pipe_peers` and the decrement of `p_count` by the last `file_put` of the other end, and the
read end is not closed while the writer is `BLOCKED`. -/
def Calm (s : Sys) : Act → Prop
  | .read _ => ¬ (s.task .reader).signalPending
  | .write data => ¬ (s.task .writer).signalPending ∧ data.length < s.pipe.size
  | .prepare t _ => (s.file t.peer).release ≠ .dropping
  | .timer t alarm => alarm = true → (s.task t).MaySignal t
  | .alarm t => (s.task t).MaySignal t
  | .post t x =>
    x.sig ∉ (s.task t).sigBlocked ∨ x.sig = sigkill ∨ x.sig = sigstop → (s.task t).MaySignal t
  | .notify t sig =>
    sig ∉ (s.task t).sigBlocked ∨ sig = sigkill ∨ sig = sigstop →
      (s.task t).MaySignal t ∧ (s.task t).state ≠ .blocked
  | .wakePeers t => t = .reader → (s.task .writer).state ≠ .blocked
  | _ => True

instance (s : Sys) (a : Act) : Decidable (Calm s a) := by
  unfold Calm
  split <;> infer_instance

/-- The node of a task that prepares to wait, sleeps or has just woken hangs on `p->wq`. -/
def Phase.hung : Phase → Bool
  | .prepare | .asleep | .check => true
  | _ => false

/-- The body of the writer's loop. -/
def Phase.inner : Phase → Bool
  | .full | .hang | .prepare | .asleep | .check | .settle .again | .settle .brk | .move => true
  | _ => false

/-- The bytes that the writer has written in its call and not yet announced. -/
def Task.unannounced (c : Task) : ℕ := if c.phase.bound then c.moved else 0

/-- What a `BLOCKED` task rests on, with the other task `peer`. -/
def Pipe.Waits (p : Pipe) : Side → Task → Prop
  | .reader, peer => p.used ≤ peer.unannounced
  | .writer, peer => p.used = p.size - 1 ∨ peer.phase = .move ∨ peer.phase = .wake

/-- What holds of a task by itself. -/
structure Task.Ok (t : Side) (size : ℕ) (c : Task) : Prop where
  asleep : c.state ≠ .running → c.phase = .asleep
  short : t = .writer → c.phase ≠ .out → c.len < size
  within : t = .writer → c.phase.inner = true → c.moved < c.len
  quiet : c.signalPending → c.MaySignal t
  kill : sigkill ∉ c.sigBlocked
  stop : sigstop ∉ c.sigBlocked

structure Inv (s : Sys) : Prop where
  size : 1 < s.pipe.size
  head : s.pipe.head < s.pipe.size
  tail : s.pipe.tail < s.pipe.size
  pCount : s.pipe.pCount = (if (s.file .reader).release = .closed then 0 else 1) +
    (if (s.file .writer).release = .closed then 0 else 1)
  ok : ∀ t, (s.task t).Ok t s.pipe.size
  hung : ∀ t, (s.task t).phase.hung = true → t ∈ s.pipe.wq
  held : ∀ t, (s.task t).holds ≤ (s.file t).fCount
  opened : ∀ t, 0 < (s.file t).fCount → (s.file t).release = .opened
  waits : ∀ t, (s.task t).state = .blocked → s.pipe.Waits t (s.task t.peer)
  peer : ∀ t, (s.task t).state = .blocked →
    (s.file t.peer).release ≠ .dropping ∧ (s.file t.peer).release ≠ .closed
  answered : ∀ t, (s.task t).state = .blocked → (s.task t).signalPending →
    ∃ x ∈ s.sending t, x.wakes (s.task t)

variable {s s' : Sys} {t u : Side} {c : Task} {n : ℕ}

lemma Task.Ok.idle : Task.idle.Ok t n where
  asleep h := absurd rfl h
  short _ h := absurd rfl h
  within _ h := absurd h (by decide)
  quiet h := absurd h (by decide)
  kill := Finset.notMem_empty _
  stop := Finset.notMem_empty _

lemma Inv.init (hsize : 1 < n) : Inv (Sys.init n) := by
  have hrunning : ∀ t, ((Sys.init n).task t).state ≠ .blocked := by
    intro t
    show Task.idle.state ≠ .blocked
    decide
  exact
    { size := hsize
      head := lt_of_succ_lt hsize
      tail := lt_of_succ_lt hsize
      pCount := rfl
      ok := fun _ => Task.Ok.idle
      hung := fun _ h => absurd h (by show ¬ Task.idle.phase.hung = true; decide)
      held := fun _ => zero_le _
      opened := fun _ _ => rfl
      waits := fun t h => absurd h (hrunning t)
      peer := fun t h => absurd h (hrunning t)
      answered := fun t h => absurd h (hrunning t) }

/-! ### The property from the invariant -/

lemma Task.Ok.asleep_of_blocked (h : c.Ok t n) (hb : c.state = .blocked) : c.phase = .asleep :=
  h.asleep (by rw [hb]; decide)

lemma Inv.writer_not_blocked (h : Inv s) (hr : (s.task .reader).state = .blocked) :
    (s.task .writer).state ≠ .blocked := by
  intro hw
  have hrp := (h.ok .reader).asleep_of_blocked hr
  have hwp := (h.ok .writer).asleep_of_blocked hw
  have hin : (s.task .writer).moved < (s.task .writer).len :=
    (h.ok .writer).within rfl (by rw [hwp]; rfl)
  have hlen : (s.task .writer).len < s.pipe.size :=
    (h.ok .writer).short rfl (by rw [hwp]; decide)
  have hle : s.pipe.used ≤ (s.task .writer).unannounced := h.waits .reader hr
  have hfull : s.pipe.used = s.pipe.size - 1 := by
    rcases h.waits .writer hw with hfull | hmove | hwake
    · exact hfull
    · exact nomatch hrp.symm.trans hmove
    · exact nomatch hrp.symm.trans hwake
  rw [Task.unannounced, hwp] at hle
  change s.pipe.used ≤ (s.task .writer).moved at hle
  omega

lemma Inv.pCount_eq (h : Inv s) (t : Side) :
    s.pipe.pCount = (if (s.file t).release = .closed then 0 else 1) +
      (if (s.file t.peer).release = .closed then 0 else 1) := by
  cases t with
  | reader => exact h.pCount
  | writer => exact h.pCount.trans (add_comm _ _)

lemma Inv.pCount_of_blocked (h : Inv s) (hb : (s.task t).state = .blocked) : s.pipe.pCount = 2 := by
  have hheld := h.held t
  rw [Task.holds, (h.ok t).asleep_of_blocked hb, if_neg (by decide)] at hheld
  have hown : (s.file t).release ≠ .closed := by
    rw [h.opened t hheld]
    decide
  rw [h.pCount_eq t, if_neg hown, if_neg (h.peer t hb).2]

lemma Inv.ready_inFlight (h : Inv s) (hb : (s.task t).state = .blocked) (hr : s.pipe.ready t) :
    s.WakeInFlight t := by
  refine Or.inr (Or.inr ?_)
  have hcount := h.pCount_of_blocked hb
  cases t with
  | reader =>
    rcases hr with hne | hone
    · have hpos : 0 < s.pipe.used := ringUsed_pos h.tail hne
      have hle : s.pipe.used ≤ (s.task .writer).unannounced := h.waits .reader hb
      rw [Task.unannounced] at hle
      split at hle
      next hbound =>
        exact Or.inr ⟨h.writer_not_blocked hb, hbound, by omega⟩
      next hbound =>
        omega
    · omega
  | writer =>
    rcases hr with hroom | hone
    · rcases h.waits .writer hb with hfull | hmoving
      · exact absurd ((ring_full_iff h.head h.tail).2 hfull) hroom
      · exact hmoving
    · omega

lemma Inv.not_stuck (h : Inv s) (t : Side) : ¬ s.Stuck t := by
  rintro ⟨hb, hr | hsig, hno⟩
  · exact hno (h.ready_inFlight hb hr)
  · exact hno (Or.inl (h.answered t hb hsig))

/-! ### One task, the ring and the queue change -/

lemma Side.peer_ne (t : Side) : t.peer ≠ t := by
  cases t <;> decide

lemma Side.peer_peer (t : Side) : t.peer.peer = t := by
  cases t <;> rfl

lemma Side.eq_peer_of_ne (h : u ≠ t) : u = t.peer := by
  cases u <;> cases t <;> first | rfl | exact absurd rfl h

lemma setTask_self : (s.setTask t c).task t = c := update_self ..

lemma setTask_of_ne (h : u ≠ t) : (s.setTask t c).task u = s.task u :=
  update_of_ne h ..

/-- A step of one task that may also write the ring and the queue. -/
lemma Inv.update (h : Inv s) {p : Pipe} (hsize : p.size = s.pipe.size)
    (hcount : p.pCount = s.pipe.pCount) (hhead : p.head < p.size) (htail : p.tail < p.size)
    (hwq : ∀ u, u ≠ t → u ∈ s.pipe.wq → u ∈ p.wq) (hok : c.Ok t s.pipe.size)
    (hhung : c.phase.hung = true → t ∈ p.wq) (hholds : c.holds ≤ (s.file t).fCount)
    (hpeer : (s.task t.peer).state = .blocked → p.Waits t.peer c)
    (hown : c.state = .blocked → p.Waits t (s.task t.peer) ∧
      ((s.file t.peer).release ≠ .dropping ∧ (s.file t.peer).release ≠ .closed) ∧
      (c.signalPending → ∃ x ∈ s.sending t, x.wakes c)) :
    Inv ({ s with pipe := p }.setTask t c) where
  size := hsize ▸ h.size
  head := hhead
  tail := htail
  pCount := hcount.trans h.pCount
  ok u := by
    show Task.Ok u p.size _
    rw [hsize]
    by_cases hu : u = t
    · subst hu
      rw [setTask_self]
      exact hok
    · rw [setTask_of_ne hu]
      exact h.ok u
  hung u := by
    by_cases hu : u = t
    · subst hu
      rw [setTask_self]
      exact hhung
    · rw [setTask_of_ne hu]
      exact fun hph => hwq u hu (h.hung u hph)
  held u := by
    by_cases hu : u = t
    · subst hu
      rw [setTask_self]
      exact hholds
    · rw [setTask_of_ne hu]
      exact h.held u
  opened := h.opened
  waits u := by
    by_cases hu : u = t
    · subst hu
      rw [setTask_self, setTask_of_ne u.peer_ne]
      exact fun hb => (hown hb).1
    · rw [setTask_of_ne hu, Side.eq_peer_of_ne hu, t.peer_peer, setTask_self]
      exact hpeer
  peer u := by
    by_cases hu : u = t
    · subst hu
      rw [setTask_self]
      exact fun hb => (hown hb).2.1
    · rw [setTask_of_ne hu]
      exact h.peer u
  answered u := by
    by_cases hu : u = t
    · subst hu
      rw [setTask_self]
      exact fun hb => (hown hb).2.2
    · rw [setTask_of_ne hu]
      exact h.answered u

lemma Inv.setTask (h : Inv s) (hok : c.Ok t s.pipe.size)
    (hhung : c.phase.hung = true → t ∈ s.pipe.wq) (hholds : c.holds ≤ (s.file t).fCount)
    (hpeer : (s.task t.peer).state = .blocked → s.pipe.Waits t.peer c)
    (hown : c.state = .blocked → s.pipe.Waits t (s.task t.peer) ∧
      ((s.file t.peer).release ≠ .dropping ∧ (s.file t.peer).release ≠ .closed) ∧
      (c.signalPending → ∃ x ∈ s.sending t, x.wakes c)) :
    Inv (s.setTask t c) :=
  h.update rfl rfl h.head h.tail (fun _ _ hu => hu) hok hhung hholds hpeer hown

/-- A step of one task that does not touch its call: what is known of its phase carries over. -/
lemma Inv.setTask_same (h : Inv s) (hok : c.Ok t s.pipe.size)
    (hphase : c.phase = (s.task t).phase) (hmoved : c.moved = (s.task t).moved)
    (hown : c.state = .blocked → (s.task t).state = .blocked ∧
      (c.signalPending → ∃ x ∈ s.sending t, x.wakes c)) :
    Inv (s.setTask t c) := by
  refine h.setTask hok (fun hph => h.hung t (hphase ▸ hph)) ?_ ?_ ?_
  · rw [Task.holds, hphase]
    exact h.held t
  · intro hb
    have hwaits := h.waits _ hb
    cases t with
    | reader =>
      show _ ∨ c.phase = _ ∨ c.phase = _
      rw [hphase]
      exact hwaits
    | writer =>
      show s.pipe.used ≤ c.unannounced
      rw [Task.unannounced, hphase, hmoved]
      exact hwaits
  · intro hb
    obtain ⟨hold, hans⟩ := hown hb
    exact ⟨h.waits t hold, h.peer t hold, hans⟩

/-! ### Wake-ups -/

lemma Task.Ok.running (h : c.Ok t n) (hph : c.phase ≠ .asleep) : c.state = .running := by
  by_contra hne
  exact hph (h.asleep hne)

lemma Inv.awaken (h : Inv s) (hok : c.Ok t s.pipe.size) (hphase : c.phase = (s.task t).phase)
    (hmoved : c.moved = (s.task t).moved) (hready : c.state = .ready) : Inv (s.setTask t c) :=
  h.setTask_same hok hphase hmoved fun hb => nomatch hready.symm.trans hb

lemma Inv.wakeWqTarget (h : Inv s) (t : Side) : Inv (s.wakeWqTarget t) := by
  unfold Sys.wakeWqTarget
  split_ifs with hb
  · have hok := h.ok t
    exact h.awaken { hok with asleep := fun _ => hok.asleep_of_blocked hb } rfl rfl rfl
  · exact h

lemma wakeWqTarget_not_blocked : ((s.wakeWqTarget t).task t).state ≠ .blocked := by
  unfold Sys.wakeWqTarget
  split_ifs with hb
  · rw [setTask_self]
    exact fun h => nomatch h
  · exact hb

lemma wakeWqTarget_frame (t u : Side) :
    (s.wakeWqTarget t).file = s.file ∧ ((s.wakeWqTarget t).task u).phase = (s.task u).phase ∧
      (((s.wakeWqTarget t).task u).state = .blocked → (s.task u).state = .blocked) := by
  unfold Sys.wakeWqTarget
  split_ifs with hb
  · refine ⟨rfl, ?_⟩
    by_cases hu : u = t
    · subst hu
      rw [setTask_self]
      exact ⟨rfl, fun h => nomatch h⟩
    · rw [setTask_of_ne hu]
      exact ⟨rfl, id⟩
  · exact ⟨rfl, rfl, id⟩

/-- `__wake_up` over a part of the queue: nothing but states change, and none of those it has met
stays `BLOCKED`. -/
lemma foldl_wake (l : List Side) (s : Sys) (h : Inv s) (u : Side) :
    Inv (l.foldl Sys.wakeWqTarget s) ∧ (l.foldl Sys.wakeWqTarget s).file = s.file ∧
      ((l.foldl Sys.wakeWqTarget s).task u).phase = (s.task u).phase ∧
      (((l.foldl Sys.wakeWqTarget s).task u).state = .blocked →
        (s.task u).state = .blocked ∧ u ∉ l) := by
  induction l generalizing s with
  | nil => exact ⟨h, rfl, rfl, fun hb => ⟨hb, List.not_mem_nil⟩⟩
  | cons t l ih =>
    obtain ⟨hinv, hfile, hphase, hstate⟩ := ih (s.wakeWqTarget t) (h.wakeWqTarget t)
    obtain ⟨hfile', hphase', hstate'⟩ := wakeWqTarget_frame (s := s) t u
    refine ⟨hinv, hfile.trans hfile', hphase.trans hphase', fun hb => ?_⟩
    obtain ⟨hb', hnot⟩ := hstate hb
    refine ⟨hstate' hb', List.not_mem_cons_of_ne_of_not_mem ?_ hnot⟩
    rintro rfl
    exact wakeWqTarget_not_blocked hb'

lemma Inv.wakeUp (h : Inv s) : Inv s.wakeUp := (foldl_wake _ s h .reader).1

lemma Inv.wakeUp_frame (h : Inv s) (u : Side) :
    s.wakeUp.file = s.file ∧ (s.wakeUp.task u).phase = (s.task u).phase := by
  obtain ⟨-, hfile, hphase, -⟩ := foldl_wake s.pipe.wq s h u
  exact ⟨hfile, hphase⟩

lemma Inv.wakeUp_not_blocked (h : Inv s) (u : Side) : (s.wakeUp.task u).state ≠ .blocked := by
  intro hb
  obtain ⟨hold, hnot⟩ := (foldl_wake s.pipe.wq s h u).2.2.2 hb
  refine hnot (h.hung u ?_)
  rw [(h.ok u).asleep_of_blocked hold]
  rfl

/-! ### The steps of the two calls -/

lemma Task.Ok.not_pending (h : c.Ok t n) (hph : c.phase.lets = false) : ¬ c.signalPending := by
  intro hsig
  exact absurd (hph.symm.trans (h.quiet hsig).1) (by decide)

/-- A task goes on to another point of its call; its node may be put on the queue or taken off. -/
lemma Inv.go (h : Inv s) (wq : List Side) (hwq : ∀ u, u ≠ t → u ∈ s.pipe.wq → u ∈ wq)
    (hrun : c.state = .running) (hold : (s.task t).phase ≠ .out) (hnew : c.phase ≠ .out)
    (hlen : c.len = (s.task t).len) (hmask : c.sigBlocked = (s.task t).sigBlocked)
    (hin : t = .writer → c.phase.inner = true → c.moved < c.len)
    (hquiet : c.signalPending → c.MaySignal t) (hhung : c.phase.hung = true → t ∈ wq)
    (hpeer : (s.task t.peer).state = .blocked → s.pipe.Waits t.peer c) :
    Inv ({ s with pipe := { s.pipe with wq := wq } }.setTask t c) := by
  have hok := h.ok t
  refine h.update rfl rfl h.head h.tail hwq
    { asleep := fun hne => absurd hrun hne
      short := fun ht _ => hlen ▸ hok.short ht hold
      within := hin
      quiet := hquiet
      kill := hmask ▸ hok.kill
      stop := hmask ▸ hok.stop } hhung ?_ hpeer fun hb => nomatch hrun.symm.trans hb
  have hheld := h.held t
  rw [Task.holds, if_neg hold] at hheld
  rw [Task.holds, if_neg hnew]
  exact hheld

lemma Inv.full_of_blocked (h : Inv s) (hm : (s.task .reader).phase ≠ .move)
    (hw : (s.task .reader).phase ≠ .wake) (hb : (s.task .writer).state = .blocked) :
    s.pipe.used = s.pipe.size - 1 := by
  rcases h.waits .writer hb with hfull | hmove | hwake
  · exact hfull
  · exact absurd hmove hm
  · exact absurd hwake hw

lemma Inv.used_of_blocked (h : Inv s) (hbound : (s.task .writer).phase.bound = true)
    (hb : (s.task .reader).state = .blocked) : s.pipe.used ≤ (s.task .writer).moved := by
  have hle : s.pipe.used ≤ (s.task .writer).unannounced := h.waits .reader hb
  rwa [Task.unannounced, if_pos hbound] at hle

/-- A point of the reader's call from which it goes on without leaving its copy loop. -/
def Phase.Reads (old new : Phase) : Prop :=
  old ≠ .out ∧ new ≠ .out ∧ (old.lets = true → new.lets = true) ∧
    (old = .move ∨ old = .wake → new = .move ∨ new = .wake)
deriving Decidable

lemma Inv.readerGo (h : Inv s) (wq : List Side) (hwq : .writer ∈ s.pipe.wq → .writer ∈ wq)
    (hrun : c.state = .running) (hreads : (s.task .reader).phase.Reads c.phase)
    (hlen : c.len = (s.task .reader).len) (hmask : c.sigBlocked = (s.task .reader).sigBlocked)
    (hpend : c.sigPending = (s.task .reader).sigPending)
    (hhung : c.phase.hung = true → .reader ∈ wq) :
    Inv ({ s with pipe := { s.pipe with wq := wq } }.setTask .reader c) := by
  obtain ⟨hold, hnew, hlets, hloop⟩ := hreads
  refine h.go wq ?_ hrun hold hnew hlen hmask (fun ht => nomatch ht) ?_ hhung ?_
  · intro u hu
    rw [Side.eq_peer_of_ne hu]
    exact hwq
  · intro hsig
    rw [Task.signalPending, Task.deliverable, hmask, hpend] at hsig
    exact ⟨hlets ((h.ok .reader).quiet hsig).1, fun ht => nomatch ht⟩
  · intro hb
    rcases h.waits .writer hb with hfull | hmoving
    · exact Or.inl hfull
    · exact Or.inr (hloop hmoving)

lemma Inv.readerGoto (h : Inv s) {ph : Phase} (hawake : (s.task .reader).phase ≠ .asleep)
    (hreads : (s.task .reader).phase.Reads ph)
    (hhung : ph.hung = true → (s.task .reader).phase.hung = true) : Inv (s.goto .reader ph) :=
  h.readerGo s.pipe.wq id ((h.ok .reader).running hawake) hreads rfl rfl rfl
    fun hph => h.hung _ (hhung hph)

lemma settle_reads (after : After) : (Phase.settle after).Reads after.next := by
  cases after with
  | again => decide
  | brk => decide
  | out ret => exact ⟨nofun, nofun, fun _ => rfl, nofun⟩

lemma next_not_hung (after : After) : after.next.hung = false := by
  cases after <;> rfl

lemma Inv.readerSettle (h : Inv s) {after : After}
    (hph : (s.task .reader).phase = .settle after) : Inv (s.settle .reader after) := by
  refine h.readerGo (s.pipe.wq.erase .reader)
    (fun hu => (List.mem_erase_of_ne (by decide)).2 hu) rfl ?_ rfl rfl rfl ?_
  · rw [hph]
    exact settle_reads after
  · exact fun hhung => absurd ((next_not_hung after).symm.trans hhung) (by decide)

lemma Inv.wake (h : Inv s) (hph : (s.task t).phase = .wake) (ret : Ret) :
    Inv (s.wakeUp.goto t (.put ret)) := by
  obtain ⟨-, hphase⟩ := h.wakeUp_frame t
  have hawake : (s.wakeUp.task t).phase ≠ .asleep := by
    rw [hphase, hph]
    decide
  have hin : (s.wakeUp.task t).phase ≠ .out := by
    rw [hphase, hph]
    decide
  refine h.wakeUp.go s.wakeUp.pipe.wq (fun _ _ hu => hu) ((h.wakeUp.ok t).running hawake) hin
    nofun rfl rfl nofun ?_ nofun fun hb => absurd hb (h.wakeUp_not_blocked _)
  intro hsig
  refine absurd hsig ((h.wakeUp.ok t).not_pending ?_)
  rw [hphase, hph]
  rfl

lemma Inv.take (h : Inv s) (hph : (s.task .reader).phase = .move) : Inv s.take := by
  have hok := h.ok .reader
  have hrun : (s.task .reader).state = .running := hok.running (by simp [hph])
  refine h.update rfl rfl h.head (ring_next_lt h.tail) (fun _ _ hu => hu)
    { hok with
      short := nofun
      within := nofun
      quiet := fun hsig => absurd hsig (hok.not_pending (by rw [hph]; rfl)) }
    (h.hung .reader) (h.held .reader) (fun _ => Or.inr (Or.inl hph)) ?_
  exact fun hb => nomatch hrun.symm.trans hb

/-! ### Files -/

lemma setFile_self {f : File} : (s.setFile t f).file t = f := update_self ..

lemma setFile_of_ne {f : File} (h : u ≠ t) : (s.setFile t f).file u = s.file u :=
  update_of_ne h ..

lemma Inv.setFile (h : Inv s) {f : File} (hheld : (s.task t).holds ≤ f.fCount)
    (hopened : 0 < f.fCount → f.release = .opened)
    (hclosed : f.release = .closed ↔ (s.file t).release = .closed)
    (hpeer : (s.task t.peer).state = .blocked → f.release ≠ .dropping) :
    Inv (s.setFile t f) := by
  have hsame : ∀ u, ((s.setFile t f).file u).release = .closed ↔ (s.file u).release = .closed := by
    intro u
    by_cases hu : u = t
    · subst hu
      rw [setFile_self]
      exact hclosed
    · rw [setFile_of_ne hu]
  refine { h with pCount := ?_, held := fun u => ?_, opened := fun u => ?_, peer := fun u hb => ?_ }
  · simp only [hsame]
    exact h.pCount
  · by_cases hu : u = t
    · subst hu
      rw [setFile_self]
      exact hheld
    · rw [setFile_of_ne hu]
      exact h.held u
  · by_cases hu : u = t
    · subst hu
      rw [setFile_self]
      exact hopened
    · rw [setFile_of_ne hu]
      exact h.opened u
  · refine ⟨?_, (hsame _).not.2 (h.peer u hb).2⟩
    by_cases hu : u = t
    · subst hu
      rw [setFile_of_ne u.peer_ne]
      exact (h.peer u hb).1
    · rw [Side.eq_peer_of_ne hu] at hb ⊢
      rw [t.peer_peer, setFile_self]
      exact hpeer hb

lemma Inv.put (h : Inv s) (hholds : (s.task t).holds < (s.file t).fCount) :
    Inv (s.setFile t (s.file t).put) := by
  have hopen := h.opened t (by omega)
  refine h.setFile (le_sub_one_of_lt hholds) ?_ ?_ ?_
  · intro hpos
    show (if _ then _ else _) = _
    have hne : (s.file t).fCount - 1 ≠ 0 := ne_of_gt hpos
    rw [if_neg hne]
    exact hopen
  · show (if _ then _ else _) = _ ↔ _
    rw [hopen]
    split_ifs <;> simp
  · intro _
    show (if _ then _ else _) ≠ _
    rw [hopen]
    split_ifs <;> simp

/-- `out: file_put(f); return ret`. -/
lemma Inv.leave (h : Inv s) {ret ret' : Ret} (hph : (s.task t).phase = .put ret') :
    Inv (s.leave t ret) := by
  have hok := h.ok t
  have hrun : (s.task t).state = .running := hok.running (by rw [hph]; exact nofun)
  have hheld := h.held t
  rw [Task.holds, hph, if_neg nofun] at hheld
  have hback : Inv (s.setTask t { s.task t with
      phase := .out
      ret := ret }) := by
    refine h.setTask
      { hok with
        asleep := fun hne => absurd hrun hne
        short := fun _ hne => absurd rfl hne
        within := nofun
        quiet := fun _ => ⟨rfl, nofun⟩ } nofun (zero_le _) ?_
      fun hb => nomatch hrun.symm.trans hb
    intro hb
    have hwaits := h.waits _ hb
    cases t with
    | reader =>
      exact Or.inl (h.full_of_blocked (by rw [hph]; exact nofun) (by rw [hph]; exact nofun) hb)
    | writer =>
      have hle : s.pipe.used ≤ (s.task .writer).unannounced := hwaits
      rwa [Task.unannounced, hph] at hle
  refine hback.put (t := t) ?_
  rw [setTask_self]
  exact hheld

end XosKernel.Pipes
