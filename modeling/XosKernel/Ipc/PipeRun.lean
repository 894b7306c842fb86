/-
# The runs of a pipe

Every step of the two calls, of the senders of signals and of the last `file_put` of an end keeps
the invariant when it is calm; and the runs that are not calm in one of five ways leave a task
stuck.
-/
import XosKernel.Ipc.PipeInv

namespace XosKernel.Pipes

open List Option Function Sys Task

variable {s s' : Sys} {t u : Side} {c : Task} {n : ℕ}

/-! ### `sys_read` and `sys_write` -/

lemma mem_addWaitQueue {wq : List Side} (hu : u ∈ wq) : u ∈ wq ++ [t] :=
  mem_append_left _ hu

lemma Inv.readerHang (h : Inv s) (hph : (s.task .reader).phase = .hang) (e : Errno) :
    Inv (s.hang .reader (.put (.error e))) := by
  unfold hang
  split_ifs
  · refine h.readerGoto (by simp [hph]) ?_ nofun
    rw [hph]
    exact ⟨nofun, nofun, nofun, nofun⟩
  · refine h.readerGo (c := { s.task .reader with phase := .prepare }) (s.pipe.wq ++ [.reader])
      mem_addWaitQueue
      ((h.ok .reader).running (by simp [hph])) ?_ rfl rfl rfl
      fun _ => mem_append_right _ (mem_singleton_self _)
    rw [hph]
    show Phase.Reads .hang .prepare
    decide

lemma Inv.readerCheck (h : Inv s) (hph : (s.task .reader).phase = .check)
    (hsig : ¬ (s.task .reader).signalPending) : Inv (s.goto .reader .prepare) := by
  refine h.go s.pipe.wq (fun _ _ hu => hu) ((h.ok .reader).running (by simp [hph]))
    (by simp [hph]) nofun rfl rfl nofun (fun hpend => absurd hpend hsig) ?_ ?_
  · exact fun _ => h.hung .reader (by rw [hph]; rfl)
  · exact fun hb => Or.inl (h.full_of_blocked (by simp [hph]) (by simp [hph]) hb)

lemma Inv.sysRead (h : Inv s) (hs : sysRead s = some s') : Inv s' := by
  unfold Pipes.sysRead at hs
  split at hs
  case h_1 hph | h_2 hph =>
    refine some.inj hs ▸ h.readerGoto (by simp [hph]) ?_ ?_
    · rw [hph]
      split_ifs <;> decide
    · split_ifs <;> exact nofun
  case h_3 hph => exact some.inj hs ▸ h.readerHang hph _
  case h_4 hph =>
    split at hs
    · refine some.inj hs ▸ h.readerGoto (by simp [hph]) ?_ nofun
      rw [hph]
      decide
    next hsig =>
      exact some.inj hs ▸ h.readerCheck hph hsig
  case h_5 after hph => exact some.inj hs ▸ h.readerSettle hph
  case h_6 hph =>
    split_ifs at hs with hmore
    · exact some.inj hs ▸ h.take hph
    · refine some.inj hs ▸ h.readerGoto (by simp [hph]) ?_ nofun
      rw [hph]
      decide
  case h_7 hph => exact some.inj hs ▸ h.wake hph _
  case h_8 ret hph => exact some.inj hs ▸ h.leave hph
  case h_9 => exact nomatch hs

lemma Inv.writerGo (h : Inv s) (wq : List Side) (hwq : .reader ∈ s.pipe.wq → .reader ∈ wq)
    (hrun : c.state = .running) (hold : (s.task .writer).phase ≠ .out) (hnew : c.phase ≠ .out)
    (hlen : c.len = (s.task .writer).len) (hmask : c.sigBlocked = (s.task .writer).sigBlocked)
    (hin : c.phase.inner = true → c.moved < c.len)
    (hquiet : c.signalPending → c.MaySignal .writer) (hhung : c.phase.hung = true → .writer ∈ wq)
    (hann : (s.task .writer).unannounced ≤ c.unannounced) :
    Inv ({ s with pipe := { s.pipe with wq := wq } }.setTask .writer c) := by
  refine h.go wq ?_ hrun hold hnew hlen hmask (fun _ => hin) hquiet hhung ?_
  · intro u hu
    rw [Side.eq_peer_of_ne hu]
    exact hwq
  · intro hb
    exact (show s.pipe.used ≤ _ from h.waits .reader hb).trans hann

variable {ph : Phase} {l : List Sender}

section

variable (h : Inv s)
include h

/-- The writer goes on inside its loop with no signal pending. -/
lemma Inv.writerGoto (hlets : (s.task .writer).phase.lets = false) (hnew : ph ≠ .out)
    (hin : ph.inner = true → (s.task .writer).moved < (s.task .writer).len)
    (hhung : ph.hung = false) (hbound : ph.bound = true ∨ (s.task .writer).moved = 0) :
    Inv (s.goto .writer ph) := by
  have hok := h.ok .writer
  have hrun : (s.task .writer).state = .running := by
    refine hok.running fun hph => ?_
    rw [hph] at hlets
    exact nomatch hlets
  have hold : (s.task .writer).phase ≠ .out := by
    intro hph
    rw [hph] at hlets
    exact nomatch hlets
  refine h.writerGo s.pipe.wq id hrun hold hnew rfl rfl hin
    (fun hsig => absurd hsig (hok.not_pending hlets)) ?_ ?_
  · exact fun hph => nomatch hhung.symm.trans hph
  · show (s.task .writer).unannounced ≤ if ph.bound = true then (s.task .writer).moved else 0
    unfold unannounced
    rcases hbound with hbound | hzero
    · rw [if_pos hbound]
      split_ifs <;> omega
    · rw [hzero]
      split_ifs <;> omega

lemma Inv.writeTop (hph : (s.task .writer).phase = .top) : Inv s.writeTop := by
  have hlets : (s.task .writer).phase.lets = false := by rw [hph]; rfl
  unfold Sys.writeTop
  split_ifs with hmore hcount hpos
  · exact h.writerGoto hlets (by rintro ⟨⟩) (by rintro ⟨⟩) rfl (Or.inl rfl)
  · refine h.writerGo s.pipe.wq id ((h.ok .writer).running (by simp [hph]))
      (by simp [hph]) (by rintro ⟨⟩) rfl rfl (by rintro ⟨⟩) (fun _ => ⟨rfl, by simp⟩) (by rintro ⟨⟩)
      ?_
    rw [unannounced, hph]
    exact Nat.not_lt.1 hpos
  · exact h.writerGoto hlets (by simp) (fun _ => hmore) rfl (Or.inl rfl)
  · exact h.writerGoto hlets (by rintro ⟨⟩) (by rintro ⟨⟩) rfl (Or.inl rfl)

lemma Inv.writerHang (hph : (s.task .writer).phase = .hang) (e : Errno) :
    Inv (s.hang .writer (if 0 < (s.task .writer).moved then .wake else .put (.error e))) := by
  have hlets : (s.task .writer).phase.lets = false := by rw [hph]; rfl
  unfold hang
  split
  next hnb =>
    split_ifs with hpos
    · exact h.writerGoto hlets nofun nofun rfl (Or.inl rfl)
    · exact h.writerGoto hlets nofun nofun rfl (Or.inr (by omega))
  · refine h.writerGo (c := { s.task .writer with phase := .prepare }) (s.pipe.wq ++ [.writer])
      mem_addWaitQueue ((h.ok .writer).running (by simp [hph])) (by simp [hph]) nofun
      rfl rfl (fun _ => (h.ok .writer).within rfl (by rw [hph]; rfl))
      (fun hsig => absurd hsig ((h.ok .writer).not_pending hlets))
      (fun _ => mem_append_right _ (mem_singleton_self _)) ?_
    rw [unannounced, hph]
    exact le_rfl

lemma Inv.writerCheck (hph : (s.task .writer).phase = .check) :
    Inv (s.goto .writer (if (s.task .writer).signalPending then s.interrupted else .prepare)) := by
  have hok := h.ok .writer
  have hrun : (s.task .writer).state = .running := hok.running (by simp [hph])
  have hold : (s.task .writer).phase ≠ .out := by rw [hph]; decide
  split_ifs with hsig
  · -- the condition on signals excludes the `break` that leaves the inner loop only
    have hzero : (s.task .writer).moved = 0 := (hok.quiet hsig).2 rfl (Or.inr hph)
    rw [interrupted, if_neg (by omega)]
    refine h.writerGo s.pipe.wq id hrun hold (by rintro ⟨⟩) rfl rfl (by rintro ⟨⟩)
      (fun _ => ⟨rfl, by simp⟩) (by rintro ⟨⟩) ?_
    rw [unannounced, hph]
    exact hzero.le
  · refine h.writerGo s.pipe.wq id hrun hold (by rintro ⟨⟩) rfl rfl
      (fun _ => hok.within rfl (by rw [hph]; rfl)) (fun hpend => absurd hpend hsig)
      (fun _ => h.hung .writer (by rw [hph]; rfl)) ?_
    rw [unannounced, hph]
    exact le_rfl

lemma Inv.writerSettle {after : After}
    (hph : (s.task .writer).phase = .settle after) : Inv (s.settle .writer after) := by
  have hok := h.ok .writer
  refine h.writerGo (s.pipe.wq.erase .writer) (fun hu => (mem_erase_of_ne (by decide)).2 hu)
    rfl (by rw [hph]; exact nofun) ?_ rfl rfl ?_ ?_ ?_ ?_
  · cases after <;> exact nofun
  · intro hin
    refine hok.within rfl ?_
    rw [hph]
    cases after with
    | again => rfl
    | brk => rfl
    | out ret => exact nomatch hin
  · intro hsig
    have hlets := (hok.quiet hsig).1
    rw [hph] at hlets
    cases after with
    | again => exact nomatch hlets
    | brk => exact nomatch hlets
    | out ret => exact ⟨rfl, nofun⟩
  · exact fun hhung => absurd ((next_not_hung after).symm.trans hhung) (by decide)
  · rw [unannounced, hph]
    cases after <;> exact le_rfl

lemma Inv.give (hph : (s.task .writer).phase = .move) : Inv s.give := by
  have hok := h.ok .writer
  have hrun : (s.task .writer).state = .running := hok.running (by simp [hph])
  have hold : (s.task .writer).phase ≠ .out := by rw [hph]; decide
  refine h.update rfl rfl (ring_next_lt h.head) h.tail (fun _ _ hu => hu)
    { hok with
      asleep := fun hne => absurd hrun hne
      short := fun ht _ => hok.short ht hold
      within := by rintro - ⟨⟩
      quiet := fun hsig => absurd hsig (hok.not_pending (by rw [hph]; rfl)) } (by rintro ⟨⟩) ?_ ?_
      ?_
  · have hheld := h.held .writer
    rwa [holds, if_neg hold] at hheld
  · intro hb
    have hle := h.used_of_blocked (by rw [hph]; rfl) hb
    exact (ringUsed_push_le h.head h.tail).trans (Nat.succ_le_succ hle)
  · exact fun hb => by cases hrun.symm.trans hb

lemma Inv.sysWrite (hs : sysWrite s = some s') : Inv s' := by
  unfold Pipes.sysWrite at hs
  split at hs
  case h_1 hph => exact some.inj hs ▸ h.writeTop hph
  case h_2 hph =>
    have hin := (h.ok .writer).within rfl (by rw [hph]; rfl)
    refine some.inj hs ▸ h.writerGoto (by rw [hph]; rfl) ?_ (fun _ => hin) ?_ (Or.inl ?_) <;>
      split_ifs <;> first | rfl | exact nofun
  case h_3 hph => exact some.inj hs ▸ h.writerHang hph _
  case h_4 hph => exact some.inj hs ▸ h.writerCheck hph
  case h_5 after hph => exact some.inj hs ▸ h.writerSettle hph
  case h_6 hph => exact some.inj hs ▸ h.give hph
  case h_7 hph => exact some.inj hs ▸ h.wake hph _
  case h_8 ret hph => exact some.inj hs ▸ h.leave hph
  case h_9 => exact nomatch hs

/-! ### Entering, preparing to wait and resuming -/

/-- What the other task rests on when this one goes on from outside its copy loop, or keeps the
bytes that it has not announced. -/
lemma Inv.waits_peer (hb : (s.task t.peer).state = .blocked)
    (hreader : t = .reader → (s.task t).phase ≠ .move ∧ (s.task t).phase ≠ .wake)
    (hwriter : t = .writer → (s.task t).unannounced ≤ c.unannounced) :
    s.pipe.Waits t.peer c := by
  cases t with
  | reader => exact Or.inl (h.full_of_blocked (hreader rfl).1 (hreader rfl).2 hb)
  | writer => exact (show s.pipe.used ≤ _ from h.waits .reader hb).trans (hwriter rfl)

lemma Inv.enter {len : ℕ} {bytes : List ℕ} (hph : (s.task t).phase = .out)
    (hopen : 0 < (s.file t).fCount) (hsig : ¬ (s.task t).signalPending)
    (hlen : t = .writer → len < s.pipe.size) : Inv (s.enter t len bytes) := by
  have hok := h.ok t
  have hrun : (s.task t).state = .running := hok.running (by simp [hph])
  have hrel := h.opened t hopen
  have hget : Inv (s.setFile t { s.file t with fCount := (s.file t).fCount + 1 }) :=
    h.setFile ((h.held t).trans (Nat.le_succ _)) (fun _ => hrel) Iff.rfl
      fun _ => by rw [hrel]; decide
  refine hget.setTask
    { hok with
      asleep := fun hne => absurd hrun hne
      short := fun ht _ => hlen ht
      within := nofun
      quiet := fun hpend => absurd hpend hsig } nofun ?_ ?_
    fun hb => nomatch hrun.symm.trans hb
  · rw [setFile_self]
    exact Nat.succ_le_succ (Nat.zero_le _)
  · refine fun hb => h.waits_peer hb (fun _ => ?_) fun _ => ?_
    · rw [hph]
      decide
    · rw [unannounced, hph]
      exact Nat.zero_le _

lemma Inv.not_closed_of_not_ready (hph : (s.task t).phase ≠ .out)
    (hr : ¬ s.pipe.ready t) : (s.file t.peer).release ≠ .closed := by
  intro hcl
  have hheld := h.held t
  rw [holds, if_neg hph] at hheld
  have hown := h.opened t hheld
  have hcount := h.pCount_eq t
  rw [if_neg (by rw [hown]; decide), if_pos hcl] at hcount
  cases t with
  | reader => exact hr (Or.inr hcount)
  | writer => exact hr (Or.inr hcount.le)

lemma Inv.waits_of_not_ready (hr : ¬ s.pipe.ready t) : s.pipe.Waits t c := by
  cases t with
  | reader =>
    have heq : s.pipe.head = s.pipe.tail := by
      by_contra hne
      exact hr (Or.inl hne)
    show ringUsed _ _ _ ≤ _
    rw [heq, ringUsed_self]
    exact Nat.zero_le _
  | writer =>
    refine Or.inl ((ring_full_iff h.head h.tail).1 ?_)
    by_contra hroom
    exact hr (Or.inl hroom)

lemma Inv.pipePrepareWait {alarmDl : ℕ} (hph : (s.task t).phase = .prepare)
    (hdrop : (s.file t.peer).release ≠ .dropping) : Inv (s.pipePrepareWait t alarmDl) := by
  have hok := h.ok t
  have hsig : ¬ (s.task t).signalPending := hok.not_pending (by rw [hph]; rfl)
  have hold : (s.task t).phase ≠ .out := by rw [hph]; decide
  have hin : t = .writer → (s.task t).moved < (s.task t).len := fun ht =>
    hok.within ht (by rw [hph]; rfl)
  have hpeer : ∀ c : Task, c.moved = (s.task t).moved → c.phase.bound = true →
      (s.task t.peer).state = .blocked → s.pipe.Waits t.peer c := by
    intro c hmoved hbound hb
    refine h.waits_peer hb (fun _ => by rw [hph]; decide) fun _ => ?_
    rw [unannounced, hph, unannounced, if_pos hbound, hmoved]
    exact le_rfl
  unfold Sys.pipePrepareWait
  split_ifs with hr
  · exact h.go s.pipe.wq (fun _ _ hu => hu) rfl hold (by simp) rfl rfl (fun ht _ => hin ht)
      (fun hpend => absurd hpend hsig) (by rintro ⟨⟩) (hpeer _ rfl rfl)
  · refine h.setTask
      { hok with
        asleep := fun _ => rfl
        short := fun ht _ => hok.short ht hold
        within := fun ht _ => hin ht
        quiet := fun hpend => absurd hpend hsig }
      (fun _ => h.hung t (by rw [hph]; rfl)) ?_ (hpeer _ rfl rfl) ?_
    · have hheld := h.held t
      rwa [holds, if_neg hold] at hheld
    · exact fun _ => ⟨h.waits_of_not_ready hr, ⟨hdrop, h.not_closed_of_not_ready hold hr⟩,
        fun hpend => absurd hpend hsig⟩

lemma Inv.resume (hph : (s.task t).phase = .asleep) :
    Inv (s.setTask t { s.task t with
      state := .running
      phase := .check }) := by
  have hok := h.ok t
  refine h.go s.pipe.wq (fun _ _ hu => hu) rfl (by simp [hph]) nofun rfl rfl
    (fun ht _ => hok.within ht (by rw [hph]; rfl)) ?_ (fun _ => h.hung t (by rw [hph]; rfl)) ?_
  · exact fun hsig => ⟨rfl, fun ht _ => (hok.quiet hsig).2 ht (Or.inl hph)⟩
  · refine fun hb => h.waits_peer hb (fun _ => by rw [hph]; decide) fun _ => ?_
    rw [unannounced, hph]
    exact le_rfl

/-! ### Signals -/

omit h in
lemma mem_deliverable {sig : ℕ} :
    sig ∈ c.deliverable ↔
      sig ∈ c.sigPending ∧ (sig ∉ c.sigBlocked ∨ sig = sigkill ∨ sig = sigstop) :=
  Finset.mem_filter

omit h in
lemma Task.Ok.setSignals (h : c.Ok t n) {pending mask : Finset ℕ} (hkill : sigkill ∉ mask)
    (hstop : sigstop ∉ mask)
    (hquiet : Task.signalPending { c with
      sigPending := pending
      sigBlocked := mask } → c.MaySignal t) :
    Task.Ok t n { c with
      sigPending := pending
      sigBlocked := mask } :=
  { h with
    quiet := hquiet
    kill := hkill
    stop := hstop }

lemma Inv.expire {alarm : Bool} (hb : (s.task t).state = .blocked)
    (hC : alarm = true → (s.task t).MaySignal t) :
    Inv (s.setTask t ((s.task t).expire alarm)) := by
  have hok := h.ok t
  have hasleep := hok.asleep_of_blocked hb
  cases alarm with
  | false => exact h.awaken { hok with asleep := fun _ => hasleep } rfl rfl rfl
  | true =>
    refine h.awaken ?_ rfl rfl rfl
    exact
      { hok with
        asleep := fun _ => hasleep
        quiet := fun _ => hC rfl
        kill := fun hmem => hok.kill (Finset.mem_of_mem_erase hmem)
        stop := fun hmem => hok.stop (Finset.mem_of_mem_erase hmem) }

lemma Inv.forceSig {sig : ℕ} (hrun : (s.task t).state = .running)
    (hC : (s.task t).MaySignal t) : Inv (s.setTask t ((s.task t).forceSig sig)) := by
  have hok := h.ok t
  refine h.setTask_same (hok.setSignals (fun hmem => hok.kill (Finset.mem_of_mem_erase hmem))
    (fun hmem => hok.stop (Finset.mem_of_mem_erase hmem)) fun _ => hC) rfl rfl ?_
  exact fun hb => nomatch hrun.symm.trans hb

lemma Inv.setSignals {pending mask : Finset ℕ} (hph : (s.task t).phase = .out)
    (hkill : sigkill ∉ mask) (hstop : sigstop ∉ mask) :
    Inv (s.setTask t { s.task t with
      sigPending := pending
      sigBlocked := mask }) := by
  have hok := h.ok t
  have hrun : (s.task t).state = .running := hok.running (by simp [hph])
  refine h.setTask_same (hok.setSignals hkill hstop fun _ => ⟨by rw [hph]; rfl, fun _ hor => ?_⟩)
    rfl rfl fun hb => nomatch hrun.symm.trans hb
  rw [hph] at hor
  exact absurd hor (by decide)

omit h in
lemma setSending_self : (s.setSending t l).sending t = l :=
  update_self ..

omit h in
lemma setSending_of_ne (h : u ≠ t) : (s.setSending t l).sending u = s.sending u:=
  update_of_ne h ..

lemma Inv.setSending (hl : (s.task t).state = .blocked → (s.task t).signalPending →
      ∃ x ∈ l, x.wakes (s.task t)) : Inv (s.setSending t l) := by
  refine { h with answered := fun u => ?_ }
  by_cases hu : u = t
  · subst hu
    rw [setSending_self]
    exact hl
  · rw [setSending_of_ne hu]
    exact h.answered u

lemma Inv.pend {sig : ℕ}
    (hC : sig ∉ (s.task t).sigBlocked ∨ sig = sigkill ∨ sig = sigstop → (s.task t).MaySignal t ∧
      ((s.task t).state = .blocked → ∃ x ∈ s.sending t, x.wakes (s.task t))) :
    Inv (s.pend t sig) := by
  have hok := h.ok t
  -- a signal that is deliverable now is the new one or was deliverable before
  have hcases : signalPending { s.task t with sigPending := insert sig (s.task t).sigPending } →
      (sig ∉ (s.task t).sigBlocked ∨ sig = sigkill ∨ sig = sigstop) ∨
        (s.task t).signalPending := by
    rintro ⟨y, hy⟩
    obtain ⟨hmem, hdel⟩ := mem_deliverable.1 hy
    rcases Finset.mem_insert.1 hmem with rfl | hold
    · exact Or.inl hdel
    · exact Or.inr ⟨y, mem_deliverable.2 ⟨hold, hdel⟩⟩
  refine h.setTask_same (hok.setSignals hok.kill hok.stop fun hsig => ?_) rfl rfl
    fun hb => ⟨hb, fun hsig => ?_⟩
  · exact (hcases hsig).elim (fun hdel => (hC hdel).1) hok.quiet
  · exact (hcases hsig).elim (fun hdel => (hC hdel).2 hb) (h.answered t hb)

lemma Inv.post {x : Sender}
    (hC : x.sig ∉ (s.task t).sigBlocked ∨ x.sig = sigkill ∨ x.sig = sigstop →
      (s.task t).MaySignal t) : Inv ((s.setSending t (x :: s.sending t)).pend t x.sig) := by
  have hmore : Inv (s.setSending t (x :: s.sending t)) := by
    refine h.setSending fun hb hsig => ?_
    obtain ⟨y, hy, hwakes⟩ := h.answered t hb hsig
    exact ⟨y, mem_cons_of_mem _ hy, hwakes⟩
  refine hmore.pend fun hdel => ⟨hC hdel, fun _ => ?_⟩
  rw [setSending_self]
  refine ⟨x, mem_cons_self, Or.inr ?_⟩
  rcases hdel with hnot | hkill | hstop
  · exact hnot
  · exact hkill ▸ (h.ok t).kill
  · exact hstop ▸ (h.ok t).stop

lemma Inv.signalWake (x : Sender) : Inv (s.signalWake t x) := by
  unfold Sys.signalWake
  split
  · simp only [Sys.wakeWqTarget]
    by_cases hb : (s.task t).state = .blocked
    · -- the wake-up first: then the sender is not needed any more
      have hwoken := h.wakeWqTarget t
      rw [Sys.wakeWqTarget, if_pos hb] at hwoken
      rw [if_pos (show ((s.setSending t ((s.sending t).erase x)).task t).state = .blocked from hb)]
      refine hwoken.setSending (t := t) fun hb' => ?_
      rw [setTask_self] at hb'
      exact nomatch hb'
    · rw [if_neg (show ((s.setSending t ((s.sending t).erase x)).task t).state ≠ .blocked from hb)]
      exact h.setSending fun hb' => absurd hb' hb
  next hwakes =>
    refine h.setSending fun hb hsig => ?_
    obtain ⟨y, hy, hywakes⟩ := h.answered t hb hsig
    have hne : y ≠ x := by
      rintro rfl
      exact hwakes hywakes
    exact ⟨y, (mem_erase_of_ne hne).2 hy, hywakes⟩

/-! ### The last `file_put` -/

omit h in
lemma wakePipePeers_reader (f : File) : s.wakePipePeers (f.flags .reader) = s := by
  have hflags : ∀ b : Bool, (oRdonly ||| if b then oNonblock else 0) &&& (oWronly ||| oRdwr) = 0 ∧
      (oRdonly ||| if b then oNonblock else 0) &&& (oRdonly ||| oRdwr) = 0 := by decide
  unfold wakePipePeers File.flags
  rw [(hflags f.nonblock).1, (hflags f.nonblock).2]
  rfl

omit h in
lemma wakePipePeers_writer (f : File) : s.wakePipePeers (f.flags .writer) = s.wakeUp := by
  have hflags : ∀ b : Bool, (oWronly ||| if b then oNonblock else 0) &&& (oWronly ||| oRdwr) = 1 ∧
      (oWronly ||| if b then oNonblock else 0) &&& (oRdonly ||| oRdwr) = 0 := by decide
  unfold wakePipePeers File.flags
  rw [(hflags f.nonblock).1, (hflags f.nonblock).2]
  rfl

lemma Inv.wakePeers (hrel : (s.file t).release = .waking)
    (hC : t = .reader → (s.task .writer).state ≠ .blocked) :
    Inv ((s.wakePipePeers ((s.file t).flags t)).setFile t
      { s.file t with release := .dropping }) := by
  have hzero : ¬ 0 < (s.file t).fCount := fun hpos =>
    absurd ((h.opened t hpos).symm.trans hrel) (by decide)
  cases t with
  | reader =>
    rw [wakePipePeers_reader]
    refine h.setFile (h.held _) (fun hpos => absurd hpos hzero) ?_ fun hb => absurd hb (hC rfl)
    rw [hrel]
    simp
  | writer =>
    rw [wakePipePeers_writer]
    obtain ⟨hfile, hphase⟩ := h.wakeUp_frame .writer
    refine h.wakeUp.setFile ?_ (fun hpos => absurd hpos hzero) ?_
      fun hb => absurd hb (h.wakeUp_not_blocked _)
    · rw [holds, hphase]
      exact h.held _
    · rw [hfile, hrel]
      simp

lemma Inv.drop (hrel : (s.file t).release = .dropping) :
    Inv (s.dropCount.setFile t { s.file t with release := .closed }) := by
  have hzero : ¬ 0 < (s.file t).fCount := fun hpos =>
    absurd ((h.opened t hpos).symm.trans hrel) (by decide)
  refine { h with pCount := ?_, held := fun u => ?_, opened := fun u => ?_, peer := fun u hb => ?_ }
  · have hcount := h.pCount_eq t
    rw [if_neg (by rw [hrel]; decide)] at hcount
    show s.pipe.pCount - 1 = _
    cases t with
    | reader =>
      rw [setFile_self, setFile_of_ne (by decide), if_pos rfl, hcount, Nat.add_sub_cancel_left,
        Nat.zero_add]
      rfl
    | writer =>
      rw [setFile_self, setFile_of_ne (by decide), if_pos rfl, hcount, Nat.add_sub_cancel_left]
      rfl
  · by_cases hu : u = t
    · subst hu
      rw [setFile_self]
      exact h.held u
    · rw [setFile_of_ne hu]
      exact h.held u
  · by_cases hu : u = t
    · subst hu
      rw [setFile_self]
      exact fun hpos => absurd hpos hzero
    · rw [setFile_of_ne hu]
      exact h.opened u
  · by_cases hu : u = t
    · subst hu
      rw [setFile_of_ne u.peer_ne]
      exact h.peer u hb
    · have hopen := (h.peer u hb).1
      rw [Side.eq_peer_of_ne hu, t.peer_peer] at hopen
      exact absurd hrel hopen

/-! ### Runs -/

lemma Inv.step {a : Act} (hC : Calm s a) (hs : step s a = some s') : Inv s' := by
  cases a with
  | read len =>
    obtain ⟨⟨hph, hopen⟩, rfl⟩ := of_guard hs
    exact h.enter hph hopen hC nofun
  | write data =>
    obtain ⟨⟨hph, hopen⟩, rfl⟩ := of_guard hs
    exact h.enter hph hopen hC.1 fun _ => hC.2
  | advance t =>
    cases t with
    | reader => exact h.sysRead hs
    | writer => exact h.sysWrite hs
  | prepare t alarmDl =>
    obtain ⟨hph, rfl⟩ := of_guard hs
    exact h.pipePrepareWait hph hC
  | resume t =>
    obtain ⟨hph, rfl⟩ := of_guard hs
    exact h.resume hph.1
  | timer t alarm =>
    obtain ⟨hb, rfl⟩ := of_guard hs
    exact h.expire hb.1 hC
  | alarm t =>
    obtain ⟨hrun, rfl⟩ := of_guard hs
    exact h.forceSig hrun hC
  | post t x => exact some.inj hs ▸ h.post hC
  | notify t sig =>
    exact some.inj hs ▸ h.pend fun hdel => (hC hdel).imp_right fun hb hb' => absurd hb' hb
  | signalWake t x =>
    obtain ⟨-, rfl⟩ := of_guard hs
    exact h.signalWake x
  | handle t sig =>
    obtain ⟨hph, rfl⟩ := of_guard hs
    exact h.setSignals hph (h.ok t).kill (h.ok t).stop
  | sigprocmask t mask =>
    obtain ⟨hph, rfl⟩ := of_guard hs
    refine h.setSignals hph ?_ (Finset.notMem_erase _ _)
    exact fun hmem => Finset.notMem_erase _ _ (Finset.mem_of_mem_erase hmem)
  | setfl t nonblock =>
    refine some.inj hs ▸ h.setFile (h.held t) (h.opened t) Iff.rfl fun hb => ?_
    have hopen := (h.peer _ hb).1
    rwa [t.peer_peer] at hopen
  | dup t =>
    obtain ⟨hpos, hs⟩ := ite_none_right_eq_some.1 hs
    have hrel := h.opened t hpos
    refine some.inj hs ▸ h.setFile ((h.held t).trans (Nat.le_succ _)) (fun _ => hrel)
      Iff.rfl fun _ => ?_
    rw [hrel]
    decide
  | close t =>
    obtain ⟨hlt, rfl⟩ := of_guard hs
    exact h.put hlt
  | wakePeers t =>
    obtain ⟨hrel, rfl⟩ := of_guard hs
    exact h.wakePeers hrel hC
  | drop t =>
    obtain ⟨hrel, rfl⟩ := of_guard hs
    exact h.drop hrel

end

/-- A reader that waits, is interrupted and calls again, waits again and is woken by a write. -/
def calmRun : List Act :=
  [.read 3, .advance .reader, .advance .reader, .advance .reader, .prepare .reader 0,
    .post .reader ⟨10, false⟩, .signalWake .reader ⟨10, false⟩, .resume .reader, .advance .reader,
    .advance .reader, .advance .reader, .handle .reader 10, .notify .reader 17, .handle .reader 17,
    .read 3, .advance .reader, .advance .reader, .advance .reader, .prepare .reader 0,
    .write [7, 8], .advance .writer,
    .advance .writer, .advance .writer, .advance .writer, .advance .writer, .advance .writer,
    .advance .writer, .advance .writer]

instance (s : Sys) : (t : Side) → Decidable (s.WakeInFlight t)
  | .reader => inferInstanceAs (Decidable (_ ∨ (_ ∧ (_ ∨ _)) ∨ _))
  | .writer => inferInstanceAs (Decidable (_ ∨ (_ ∧ (_ ∨ _)) ∨ _))

instance (s : Sys) (t : Side) : Decidable (s.Stuck t) :=
  inferInstanceAs (Decidable (_ ∧ (_ ∨ _) ∧ _))

def fillActs : ℕ → List Act
  | 0 => []
  | k + 1 => .advance .writer :: .advance .writer :: .advance .writer :: fillActs k

/-- The state after the writer has put bytes 0 into a ring of bytes 0. -/
def Sys.fed (s : Sys) (head moved : ℕ) : Sys :=
  { s with pipe := { s.pipe with head := head } }.setTask .writer
    { s.task .writer with moved := moved }

lemma goto_phase : ((s.goto t ph).task t).phase = ph := by
  rw [goto, setTask_self]

lemma setTask_setTask {d : Task} : (s.setTask t c).setTask t d = s.setTask t d := by
  unfold setTask
  rw [update_idem]

lemma goto_goto {ph' : Phase} : (s.goto t ph).goto t ph' = s.goto t ph' := by
  rw [goto, goto, setTask_setTask, setTask_self, goto]

/-- The writer is at the top of its loop with bytes 0 for a ring of bytes 0. -/
structure Sys.Feeds (s : Sys) : Prop where
  buf : s.pipe.buf = fun _ => 0
  bytes : ∀ i, (s.task .writer).bytes.getD i 0 = 0
  top : (s.task .writer).phase = .top
  count : s.pipe.pCount = 2
  tail : s.pipe.tail = 0

lemma task_fed {head moved : ℕ} :
    (s.fed head moved).task .writer = { s.task .writer with moved := moved } := setTask_self

lemma Sys.Feeds.fed (h : s.Feeds) (head moved : ℕ) : (s.fed head moved).Feeds :=
  ⟨h.buf, by rw [task_fed]; exact h.bytes, by rw [task_fed]; exact h.top, h.count, h.tail⟩

lemma give_eq_fed (h : s.Feeds)
    (hnext : (s.pipe.head + 1) % s.pipe.size = s.pipe.head + 1) :
    (s.goto .writer .move).give = s.fed (s.pipe.head + 1) ((s.task .writer).moved + 1) := by
  have hsame : update s.pipe.buf s.pipe.head
      ((s.task .writer).bytes.getD (s.task .writer).moved 0) = s.pipe.buf := by
    rw [h.bytes, h.buf, update_eq_self_iff]
  unfold give fed
  show setTask { s.goto .writer .move with
    pipe := { s.pipe with
      buf := update s.pipe.buf s.pipe.head ((s.task .writer).bytes.getD (s.task .writer).moved 0)
      head := (s.pipe.head + 1) % s.pipe.size } } .writer _ = _
  rw [hsame, hnext, ← h.top]
  exact setTask_setTask (s := { s with pipe := { s.pipe with head := s.pipe.head + 1 } })

/-- Three accesses put one byte into the ring. -/
lemma exec_byte (h : s.Feeds) (hlen : (s.task .writer).moved < (s.task .writer).len)
    (hroom : s.pipe.head + 1 < s.pipe.size) (as : List Act) :
    exec step s (.advance .writer :: .advance .writer :: .advance .writer :: as) =
      exec step (s.fed (s.pipe.head + 1) ((s.task .writer).moved + 1)) as := by
  have hnext : (s.pipe.head + 1) % s.pipe.size = s.pipe.head + 1 := Nat.mod_eq_of_lt hroom
  have hfull : step s (.advance .writer) = some (s.goto .writer .full) := by
    show sysWrite s = _
    have hcount : ¬ s.pipe.pCount ≤ 1 := by rw [h.count]; decide
    simp only [sysWrite, h.top, writeTop, if_pos hlen, if_neg hcount]
  have hmove : step (s.goto .writer .full) (.advance .writer) = some (s.goto .writer .move) := by
    have hne : (s.pipe.head + 1) % s.pipe.size ≠ s.pipe.tail := by
      rw [hnext, h.tail]
      exact Nat.succ_ne_zero _
    show sysWrite (s.goto .writer .full) = _
    rw [Pipes.sysWrite, goto_phase]
    show some ((s.goto .writer .full).goto .writer
      (if (s.pipe.head + 1) % s.pipe.size = s.pipe.tail then .hang else .move)) = _
    rw [if_neg hne, goto_goto]
  have hgive : step (s.goto .writer .move) (.advance .writer) =
      some (s.fed (s.pipe.head + 1) ((s.task .writer).moved + 1)) := by
    show sysWrite (s.goto .writer .move) = _
    rw [Pipes.sysWrite, goto_phase]
    exact congrArg some (give_eq_fed h hnext)
  rw [exec_cons, hfull, bind_some, exec_cons, hmove, bind_some, exec_cons, hgive, bind_some]

lemma fed_fed {head moved head' moved' : ℕ} :
    (s.fed head moved).fed head' moved' = s.fed head' moved' := by
  unfold fed
  exact setTask_setTask (s := { s with pipe := { s.pipe with head := head' } })

lemma exec_fillActs (k : ℕ) (h : s.Feeds)
    (hlen : (s.task .writer).moved + k ≤ (s.task .writer).len)
    (hroom : s.pipe.head + k < s.pipe.size) :
    exec step s (fillActs k) = some (s.fed (s.pipe.head + k) ((s.task .writer).moved + k)) := by
  induction k generalizing s with
  | zero =>
    have hsame : s.fed s.pipe.head (s.task .writer).moved = s := by
      show s.setTask .writer (s.task .writer) = s
      unfold setTask
      rw [update_eq_self]
    exact congrArg some hsame.symm
  | succ k ih =>
    rw [fillActs, exec_byte h (by omega) (by omega), ih (h.fed ..), task_fed, fed_fed]
    · show some (s.fed (s.pipe.head + 1 + k) ((s.task .writer).moved + 1 + k)) = _
      rw [Nat.add_right_comm _ 1 k, Nat.add_right_comm _ 1 k, Nat.add_assoc, Nat.add_assoc]
    · rw [task_fed]
      show (s.task .writer).moved + 1 + k ≤ (s.task .writer).len
      omega
    · show s.pipe.head + 1 + k < s.pipe.size
      omega

/-- A write of one byte more than the ring takes, up to the point where it finds the ring full. -/
def bigWrite : List Act :=
  .write (replicate pipeBufSize 0) :: fillActs (pipeBufSize - 1)

def Sys.filled (s : Sys) : Sys :=
  (s.enter .writer pipeBufSize (replicate pipeBufSize 0)).fed (pipeBufSize - 1)
    (pipeBufSize - 1)

/-- Nothing has been written yet. -/
structure Sys.Unwritten (s : Sys) : Prop where
  writer : s.task .writer = Task.idle
  file : 0 < (s.file .writer).fCount
  buf : s.pipe.buf = fun _ => 0
  size : s.pipe.size = pipeBufSize
  head : s.pipe.head = 0
  tail : s.pipe.tail = 0
  count : s.pipe.pCount = 2

lemma exec_bigWrite (h : s.Unwritten) : exec step s bigWrite = some s.filled := by
  have hbytes : ∀ i, (replicate pipeBufSize 0).getD i 0 = 0 := by
    intro i
    rw [getD_eq_getElem?_getD, getElem?_replicate]
    split_ifs <;> rfl
  have hphase : (s.task .writer).phase = .out := by rw [h.writer]; rfl
  have henter : step s (.write (replicate pipeBufSize 0)) =
      some (s.enter .writer pipeBufSize (replicate pipeBufSize 0)) := by
    show (if _ then _ else _) = _
    rw [if_pos ⟨hphase, h.file⟩, length_replicate]
  have htask : (s.enter .writer pipeBufSize (replicate pipeBufSize 0)).task .writer =
      { s.task .writer with
        phase := .top
        len := pipeBufSize
        moved := 0
        bytes := replicate pipeBufSize 0 } := setTask_self
  rw [bigWrite, exec_cons, henter, bind_some, exec_fillActs, htask]
  · show some (fed _ (s.pipe.head + (pipeBufSize - 1)) (0 + (pipeBufSize - 1))) = _
    rw [h.head, Nat.zero_add]
    rfl
  · exact ⟨h.buf, by rw [htask]; exact hbytes, by rw [htask], h.count, h.tail⟩
  · rw [htask]
    show 0 + (pipeBufSize - 1) ≤ pipeBufSize
    omega
  · show s.pipe.head + (pipeBufSize - 1) < s.pipe.size
    rw [h.head, h.size]
    decide

lemma exists_exec_bigWrite {s0 : Sys} {pre post : List Act} (hpre : exec step s0 pre = some s)
    (h : s.Unwritten)
    (hpost : (exec step s.filled post).map (fun u => decide (u.Stuck t)) = some true) :
    ∃ u, exec step s0 (pre ++ bigWrite ++ post) = some u ∧ u.Stuck t := by
  obtain ⟨u, hu, hstuck⟩ := map_eq_some_iff.1 hpost
  refine ⟨u, ?_, of_decide_eq_true hstuck⟩
  rw [exec_append, exec_append, hpre, bind_some, exec_bigWrite h, bind_some, hu]

/-- The reader blocks on the empty ring. -/
def waitForBytes : List Act :=
  [.read 1, .advance .reader, .advance .reader, .advance .reader, .prepare .reader 0]

def readerBlocked : Sys :=
  (exec step (Sys.init pipeBufSize) waitForBytes).getD (Sys.init pipeBufSize)

/-- The writer blocks on the full ring. -/
def waitForSpace : List Act :=
  [.advance .writer, .advance .writer, .advance .writer, .prepare .writer 0]

end XosKernel.Pipes
