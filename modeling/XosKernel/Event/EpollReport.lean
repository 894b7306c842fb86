/-
# What `sys_epoll_wait` reports

A pass of `sys_epoll_wait` walks the ready list from the head to the entry that was last when it
began, and sends level-triggered entries that are still ready back to the tail. The walk stops at
that last entry only if it reports it: when the entry turns out to be stale the walk goes on into
the entries it has sent back, and reports them again. What is reported for an edge-triggered entry
is what a callback or a poll has stored in it, and `ep_modify` leaves that alone on an entry that is
already on the list. This file states what the calls and the files have to look like for a report to
be right, and proves that it then is.
-/
import XosKernel.Event.EpollGraph

namespace XosKernel.Epoll

open Poll Option Function List Eventpoll

/-! ## Instances whose entries can be reported as they are -/

/-- One interest for each file, in events that its file does not exceed; what is stored in an
edge-triggered entry of the ready list is not empty and was asked for. -/
structure EpOk (type : ℕ → FileType) (e : Eventpoll) : Prop where
  nodup : e.files.Nodup
  asked : ∀ it ∈ e.items, (type it.file).unasked.Within (allowed it.events)
  edge : ∀ it ∈ e.ready, it.isEt = true → it.revents ≠ 0 ∧ it.revents.Within (allowed it.events)

variable {type : ℕ → FileType} {e : Eventpoll} {it : Item} {w : Wait}

namespace EpOk

lemma create : EpOk type .create where
  nodup := nodup_nil
  asked := fun _ h => nomatch h
  edge := fun _ h => nomatch h

section

variable (h : EpOk type e)
include h

lemma congr_type {type' : ℕ → FileType} (hty : ∀ f ∈ e.files, type' f = type f) : EpOk type' e where
  __ := h
  asked := fun it hit => hty _ (file_mem_files hit) ▸ h.asked it hit

lemma removeItem (f : ℕ) : EpOk type (e.removeItem f) where
  nodup := by
    refine h.nodup.sublist (List.Sublist.map _ ?_)
    exact filter_sublist.append filter_sublist
  asked := by
    intro it hit
    refine h.asked it (mem_append.2 ?_)
    exact (mem_append.1 hit).imp mem_of_mem_filter mem_of_mem_filter
  edge := fun it hit => h.edge it (mem_of_mem_filter hit)

lemma nodup_cons_removeItem (f : ℕ) : (f :: (e.removeItem f).files).Nodup :=
  nodup_cons.2 ⟨fun hf => (mem_files_removeItem.1 hf).2 rfl, (h.removeItem f).nodup⟩

section Asked

variable (hasked : (type it.file).unasked.Within (allowed it.events))
include hasked

lemma asked_cons :
    ∀ x ∈ it :: (e.removeItem it.file).items, (type x.file).unasked.Within (allowed x.events) :=
  forall_mem_cons.2 ⟨hasked, (h.removeItem _).asked⟩

lemma pushReady
    (hedge : it.isEt = true → it.revents ≠ 0 ∧ it.revents.Within (allowed it.events)) :
    EpOk type (e.pushReady it) where
  nodup := (files_pushReady_perm e it).nodup_iff.2 (h.nodup_cons_removeItem _)
  asked := by
    intro x hx
    rw [Eventpoll.items, Eventpoll.pushReady, List.append_assoc] at hx
    exact h.asked_cons hasked x (List.perm_middle.mem_iff.1 hx)
  edge := by
    intro x hx
    obtain hx | hx := mem_append.1 hx
    · exact (h.removeItem _).edge x hx
    · exact mem_singleton.1 hx ▸ hedge

lemma putIdle : EpOk type (e.putIdle it) where
  nodup := (files_putIdle_perm e it).nodup_iff.2 (h.nodup_cons_removeItem _)
  asked := fun x hx => h.asked_cons hasked x (perm_middle.mem_iff.1 hx)
  edge := (h.removeItem _).edge

lemma update
    (hedge : e.isReady it.file = true → it.isEt = true →
      it.revents ≠ 0 ∧ it.revents.Within (allowed it.events)) : EpOk type (e.update it) where
  nodup := (files_update e it).symm ▸ h.nodup
  asked := by
    intro x hx
    rw [Eventpoll.items, Eventpoll.update, ← List.map_append, List.mem_map] at hx
    obtain ⟨y, hy, rfl⟩ := hx
    by_cases hfile : y.file = it.file
    · rwa [if_pos hfile]
    · rw [if_neg hfile]
      exact h.asked y hy
  edge := by
    intro x hx
    obtain ⟨y, hy, rfl⟩ := mem_map.1 hx
    split
    next hfile =>
      exact hedge (any_eq_true.2 ⟨y, hy, by simpa using hfile⟩)
    · exact h.edge y hy

end Asked

lemma pollCallback (f : ℕ) (mask : Poll) : EpOk type (e.pollCallback f mask) := by
  cases hf : e.find f with
  | none => simpa only [Eventpoll.pollCallback, hf] using h
  | some it =>
    obtain ⟨hit, hfile⟩ := find_some hf
    have hasked := h.asked it hit
    have hwithin : (mask &&& it.events).Within (allowed it.events) :=
      (BitVec.and_comm mask _ ▸ and_within it.events mask).trans (events_within_allowed _)
    simp only [Eventpoll.pollCallback, hf]
    split_ifs with hdis het hready hzero hready
    · exact h
    · exact h
    · exact h.update hasked fun hr => absurd (hfile ▸ hr) hready
    · exact h.pushReady hasked fun _ => ⟨hzero, hwithin⟩
    · exact h.update hasked fun _ het' => absurd het' het
    · exact h.pushReady hasked fun het' => absurd het' het

end

end EpOk

lemma Eventpoll.find_mem_ready {f : ℕ} (hf : e.find f = some it)
    (hr : e.isReady f = true) : it ∈ e.ready := by
  obtain ⟨x, hx, hxf⟩ := any_eq_true.1 hr
  cases hfirst : e.ready.find? (·.file = f) with
  | none => exact absurd hxf (by simpa using List.find?_eq_none.1 hfirst x hx)
  | some y =>
    have : e.find f = some y := by rw [find, items, List.find?_append, hfirst]; rfl
    obtain rfl := some.inj (hf.symm.trans this)
    exact mem_of_find?_eq_some hfirst

/-- What a change of the interest in `f` has to observe: the file does not exceed the new events,
and an entry that stays on the ready list and becomes edge-triggered there holds a set that can
still be reported. -/
def ModSound (e : Eventpoll) (type : FileType) (f : ℕ) (ev : Poll) (p : Probe) : Prop :=
  type.unasked.Within (allowed (interest ev)) ∧
    ∀ it ∈ e.ready, it.file = f → hasFlag ev epollEt = true → filePoll type p (interest ev) ≠ 0 →
      it.revents ≠ 0 ∧ it.revents.Within (allowed (interest ev))

lemma EpOk.modify {e' : Eventpoll} {f : ℕ} {ev : Poll} {p : Probe}
    (h : EpOk type e) (hs : ModSound e (type f) f ev p) (he : e.modify (type f) f ev p = .ok e') :
    EpOk type e' := by
  cases hf : e.find f with
  | none => simp [Eventpoll.modify, hf] at he
  | some it =>
    obtain ⟨hit, rfl⟩ := Eventpoll.find_some hf
    simp only [Eventpoll.modify, hf] at he
    split_ifs at he with hex hready hzero
    · exact Except.ok.inj he ▸ h.pushReady hs.1 fun _ => ⟨hready.1, filePoll_within hs.1 p⟩
    · exact Except.ok.inj he ▸ h.putIdle hs.1
    · refine Except.ok.inj he ▸ h.update hs.1 fun hr het => ?_
      exact hs.2 it (find_mem_ready hf hr) rfl het hzero

lemma EpOk.insert {e' : Eventpoll} {f owner fd : ℕ} {ev : Poll} {p : Probe}
    (h : EpOk type e) (hs : (type f).unasked.Within (allowed (interest ev)))
    (he : e.insert (type f) f owner fd ev p = .ok e') : EpOk type e' := by
  simp only [Eventpoll.insert] at he
  split_ifs at he with hmax hdup hready
  · exact Except.ok.inj he ▸ h.pushReady hs fun _ => ⟨hready, filePoll_within hs p⟩
  · exact Except.ok.inj he ▸ h.putIdle hs

/-- An entry that goes back to the list is level-triggered. -/
lemma EpOk.requeue {rest idle : List Item}
    (h : EpOk type ⟨it :: rest, idle⟩) {x : Item} (hfile : x.file = it.file)
    (hevents : x.events = it.events) : EpOk type (requeue x rest idle) where
  nodup := (files_requeue_perm x rest idle).nodup_iff.2 (hfile ▸ h.nodup)
  asked := by
    have hx : (type x.file).unasked.Within (allowed x.events) := by
      rw [hfile, hevents]
      exact h.asked it mem_cons_self
    have hrest : ∀ y ∈ rest ++ idle, (type y.file).unasked.Within (allowed y.events) :=
      fun y hy => h.asked y (mem_cons_of_mem _ hy)
    intro y hy
    unfold Epoll.requeue at hy
    split at hy
    · rw [items, append_assoc, singleton_append] at hy
      obtain rfl | hy := mem_cons.1 (perm_middle.mem_iff.1 hy)
      · exact hx
      · exact hrest y hy
    · obtain rfl | hy := mem_cons.1 (perm_middle.mem_iff.1 hy)
      · exact hx
      · exact hrest y hy
  edge := by
    intro y hy het
    unfold Epoll.requeue at hy
    split at hy
    · next hback =>
      obtain hy | hy := mem_append.1 hy
      · exact h.edge y (mem_cons_of_mem _ hy) het
      · obtain rfl := mem_singleton.1 hy
        simp [het] at hback
    · exact h.edge y (mem_cons_of_mem _ hy) het

lemma EpOk.reportPass (w : Wait) (passEnd i : ℕ) (ready idle : List Item)
    (out : List (ℕ × Poll)) (h : EpOk type ⟨ready, idle⟩) :
    EpOk type (reportPass w type passEnd i ready idle out).ep := by
  fun_induction Epoll.reportPass w type passEnd i ready idle out with
  | case1 => exact h
  | case2 => exact h
  | case3 i idle out it rest _ _ ih =>
    refine ih { nodup := ?_, asked := ?_, edge := fun x hx => h.edge x (mem_cons_of_mem _ hx) }
    · exact (perm_middle.map Item.file).nodup_iff.2 h.nodup
    · exact fun x hx => h.asked x (perm_middle.mem_iff.1 hx)
  | case4 => exact h.requeue rfl rfl
  | case5 => exact h.requeue rfl rfl
  | case6 _ _ _ _ _ _ _ _ _ _ _ ih => exact ih (h.requeue rfl rfl)

lemma EpOk.wait (h : EpOk type e) (w : Wait) : EpOk type (epollWait type e w).1 := by
  unfold epollWait
  split
  · exact h
  · split
    · exact h
    · exact h.reportPass w _ 0 e.ready e.idle []

/-! ## The walk over the ready list -/

/-- What a turn of the pass is going to find: the entry at that place is not stale. -/
def fresh (w : Wait) (type : ℕ → FileType) (x : Item × ℕ) : Bool :=
  !x.1.stale type (w.probe x.2 x.1.file)

/-- What it takes for the walk to stop in time, before turn `i`: the last entry is fresh; or no
entry goes back to the list; or the user's buffer is full before the end. `back` holds the entries
that have gone back already, and `n` is the number of events reported so far. -/
def WalkSound (w : Wait) (type : ℕ → FileType) (i : ℕ) (ready back : List Item) (n : ℕ) : Prop :=
  (ready.zipIdx i).getLast?.any (fresh w type) = true ∨
    (back = [] ∧ ∀ x ∈ ready.zipIdx i, fresh w type x = true → x.1.isEt = true ∨ x.1.isOneshot =
    true) ∨
    w.maxevents.toNat ≤ n + (ready.zipIdx i).countP (fresh w type)

section Walk

variable {i n : ℕ} {rest back : List Item}

lemma WalkSound.of_stale (h : WalkSound w type i (it :: rest) back n)
    (hst : it.stale type (w.probe i it.file) = true) : WalkSound w type (i + 1) rest back n := by
  have hnot : fresh w type (it, i) = false := by simp [fresh, hst]
  obtain hlast | ⟨hback, hall⟩ | hmax := h
  · obtain ⟨x, hx, hf⟩ := (any_eq_true _ _).1 hlast
    rw [zipIdx_cons] at hx
    cases hrest : rest.zipIdx (i + 1) with
    | nil =>
      rw [hrest] at hx
      obtain rfl : (it, i) = x := by simpa using hx
      exact absurd hf (by simp [hnot])
    | cons y ys =>
      rw [hrest, List.getLast?_cons_cons] at hx
      exact .inl ((any_eq_true _ _).2 ⟨x, hrest ▸ hx, hf⟩)
  · exact .inr (.inl ⟨hback, fun x hx => hall x (zipIdx_cons ▸ mem_cons_of_mem _ hx)⟩)
  · rw [zipIdx_cons, countP_cons_of_neg (by simp [hnot])] at hmax
    exact .inr (.inr hmax)

lemma WalkSound.of_fresh (h : WalkSound w type i (it :: rest) back n) (hrest : rest ≠ [])
    (hst : ¬ it.stale type (w.probe i it.file) = true) {x : Item} (het : x.isEt = it.isEt)
    (hone : x.isOneshot = it.isOneshot) :
    WalkSound w type (i + 1) rest
      (if !x.isEt && !x.isOneshot then back ++ [x] else back) (n + 1) := by
  have hfresh : fresh w type (it, i) = true := by simp [fresh, hst]
  obtain hlast | ⟨hback, hall⟩ | hmax := h
  · obtain ⟨y, hy, hf⟩ := (any_eq_true _ _).1 hlast
    obtain ⟨z, zs, rfl⟩ := exists_cons_of_ne_nil hrest
    rw [zipIdx_cons, zipIdx_cons, List.getLast?_cons_cons] at hy
    exact .inl ((any_eq_true _ _).2 ⟨y, zipIdx_cons ▸ hy, hf⟩)
  · have hmode : it.isEt = true ∨ it.isOneshot = true :=
      hall (it, i) (zipIdx_cons ▸ mem_cons_self) hfresh
    refine .inr (.inl ⟨?_, fun y hy => hall y (zipIdx_cons ▸ mem_cons_of_mem _ hy)⟩)
    rw [if_neg, hback]
    rw [het, hone]
    obtain hmode | hmode := hmode <;> simp [hmode]
  · rw [zipIdx_cons, countP_cons_of_pos hfresh] at hmax
    exact .inr (.inr (by omega))

end Walk

lemma requeue_append_ready (x : Item) (rest back idle : List Item) :
    (requeue x (rest ++ back) idle).ready =
      rest ++ if !x.isEt && !x.isOneshot then back ++ [x] else back := by
  unfold requeue
  split
  · exact append_assoc ..
  · rfl

/-- What a walk that stops in time has reported: some of the entries, in the order of the list and
none of them twice, each with what its turn has found; and something if it meets a fresh entry,
unless the user's buffer cannot be written. -/
lemma reportPass_out (passEnd : ℕ) (ready : List Item) :
    ∀ (i : ℕ) (back idle : List Item) (out : List (ℕ × Poll)),
      (∀ it, ready.getLast? = some it → it.file = passEnd) →
      WalkSound w type i ready back out.length →
      ∃ new, (reportPass w type passEnd i (ready ++ back) idle out).out = out ++ new ∧
        (new.map Prod.fst).Sublist (ready.map Item.file) ∧
        (∀ x ∈ new, ∃ it ∈ ready, ∃ p, it.stale type p = false ∧ x = (it.file, it.report type p)) ∧
        (out.length < w.maxevents.toNat → (∃ x ∈ ready.zipIdx i, fresh w type x = true) →
          (reportPass w type passEnd i (ready ++ back) idle out).fault = true ∨ new ≠ []) := by
  induction ready with
  | nil =>
    intro i back idle out _ hw
    refine ⟨[], ?_, List.Sublist.refl _, fun _ hx => (by cases hx), fun _ hex => by simp at hex⟩
    rw [append_nil, nil_append]
    obtain hlast | ⟨rfl, -⟩ | hmax := hw
    · cases hlast
    · rw [reportPass]
    · cases back with
      | nil => rw [reportPass]
      | cons y ys => rw [reportPass, if_pos (by simpa using hmax)]
  | cons it rest ih =>
    intro i back idle out hend hw
    have hend' : ∀ x, rest.getLast? = some x → x.file = passEnd := by
      intro x hx
      cases rest with
      | nil => cases hx
      | cons y ys => exact hend x (by rwa [List.getLast?_cons_cons])
    rw [cons_append, reportPass]
    split
    next hmax =>
      exact ⟨[], (append_nil _).symm, nil_sublist _, fun _ hx => (by cases hx),
        fun hlt => absurd hmax hlt.not_ge⟩
    split
    next hst =>
      obtain ⟨new, hout, hsub, hnew, hmeet⟩ :=
        ih (i + 1) back (it :: idle) out hend' (hw.of_stale hst)
      refine ⟨new, hout, hsub.cons _, fun x hx => ?_, fun hlt hex => hmeet hlt ?_⟩
      · obtain ⟨y, hy, hyx⟩ := hnew x hx
        exact ⟨y, mem_cons_of_mem _ hy, hyx⟩
      · obtain ⟨x, hx, hf⟩ := hex
        obtain rfl | hx := mem_cons.1 hx
        · simp [fresh, hst] at hf
        · exact ⟨x, hx, hf⟩
    next hst =>
    split
    · exact ⟨[], (append_nil _).symm, nil_sublist _, fun _ hx => (by cases hx), fun _ _ => .inl rfl⟩
    -- the entry is reported; the walk ends here or goes on behind it
    have hit : ∃ x ∈ it :: rest, ∃ p, x.stale type p = false ∧
        (it.file, it.report type (w.probe i it.file)) = (x.file, x.report type p) :=
      ⟨it, mem_cons_self, w.probe i it.file, Bool.eq_false_of_not_eq_true hst, rfl⟩
    split
    · refine ⟨_, rfl, (nil_sublist _).cons_cons _, fun x hx => ?_,
        fun _ _ => .inr (cons_ne_nil _ _)⟩
      exact mem_singleton.1 hx ▸ hit
    next hstop =>
    dsimp only
    rw [requeue_append_ready]
    have hrest : rest ≠ [] := by
      rintro rfl
      exact hstop (.inl (hend it rfl))
    have hw' := hw.of_fresh (x := it.reported type (w.probe i it.file)) hrest hst rfl rfl
    obtain ⟨new, hout, hsub, hnew, -⟩ := ih (i + 1) _
      (requeue (it.reported type (w.probe i it.file)) (rest ++ back) idle).idle
      (out ++ [(it.file, it.report type (w.probe i it.file))]) hend'
      (by rw [length_append]; exact hw')
    refine ⟨(it.file, it.report type (w.probe i it.file)) :: new, ?_, hsub.cons_cons _, ?_,
      fun _ _ => .inr (cons_ne_nil _ _)⟩
    · exact hout.trans (append_assoc ..)
    · intro x hx
      obtain rfl | hx := mem_cons.1 hx
      · exact hit
      · obtain ⟨y, hy, hyx⟩ := hnew x hx
        exact ⟨y, mem_cons_of_mem _ hy, hyx⟩

/-! ## A call -/

/-- What a call has to find: a ready list whose walk stops in time and, if the call may not time
out, a fresh entry on it or, if it is empty, no alarm that has expired. -/
def WaitSound (type : ℕ → FileType) (e : Eventpoll) (w : Wait) : Prop :=
  WalkSound w type 0 e.ready [] 0 ∧
    (w.timeoutMs = -1 → if e.ready = [] then w.alarm = 0 ∨ w.now < w.alarm
      else ∃ x ∈ e.ready.zipIdx, fresh w type x = true)

/-- The report of a call: no file twice, each set not empty and asked for, and no empty report from
a call that may not time out. -/
structure ReportOk (e : Eventpoll) (w : Wait) (out : List (ℕ × Poll)) (res : WaitResult) :
    Prop where
  nodup : (out.map Prod.fst).Nodup
  asked : ∀ x ∈ out, ∃ it ∈ e.items, it.file = x.1 ∧ x.2 ≠ 0 ∧ x.2.Within (allowed it.events)
  waits : w.timeoutMs = -1 → res ≠ .ret 0

lemma ReportOk.nothing {res : WaitResult}
    (h : w.timeoutMs = -1 → res ≠ .ret 0) : ReportOk e w [] res :=
  ⟨nodup_nil, fun _ hx => absurd hx not_mem_nil, h⟩

lemma EpOk.report (h : EpOk type e)
    (hit : it ∈ e.ready) {p : Probe} (hst : it.stale type p = false) :
    it.report type p ≠ 0 ∧ (it.report type p).Within (allowed it.events) := by
  unfold Item.report
  split
  next het =>
    exact h.edge it hit het
  next het =>
    refine ⟨?_, filePoll_within (h.asked it (mem_append_left _ hit)) p⟩
    simpa [Item.stale, het] using hst

lemma waitEmpty_ne_zero (ht : w.timeoutMs = -1) (ha : w.alarm = 0 ∨ w.now < w.alarm) :
    waitEmpty w ≠ .ret 0 := by
  have hneg : ¬ (0 < w.timeoutMs) := by omega
  have hne : ¬ w.timeoutMs = 0 := by omega
  simp only [waitEmpty, if_neg hneg, if_neg hne, true_and]
  split_ifs with halarm hnow hnow hsig htimed
  all_goals first | omega | exact nofun

/-- A call on an instance whose entries can be reported as they are. -/
lemma EpOk.epollWait (h : EpOk type e)
    (hw : WaitSound type e w) :
    ReportOk e w (epollWait type e w).2.1 (epollWait type e w).2.2 := by
  unfold Epoll.epollWait
  split
  · exact .nothing nofun
  next hmax =>
  cases hlast : e.ready.getLast? with
  | none =>
    refine .nothing fun ht => ?_
    have halarm := hw.2 ht
    rw [if_pos (List.getLast?_eq_none_iff.1 hlast)] at halarm
    exact waitEmpty_ne_zero ht halarm
  | some last =>
    have hne : e.ready ≠ [] := by
      rintro hnil
      rw [hnil] at hlast
      exact nomatch hlast
    obtain ⟨new, hout, hsub, hnew, hmeet⟩ := reportPass_out last.file e.ready 0 [] e.idle []
      (fun it hit => congrArg Item.file (some.inj (hit.symm.trans hlast))) hw.1
    rw [append_nil] at hout hmeet
    rw [nil_append] at hout
    refine ⟨?_, ?_, fun ht => ?_⟩
    · change (List.map Prod.fst (Epoll.reportPass ..).out).Nodup
      rw [hout]
      refine (List.Nodup.sublist ?_ h.nodup).sublist hsub
      exact (sublist_append_left _ _).map _
    · intro x hx
      change x ∈ (Epoll.reportPass ..).out at hx
      rw [hout] at hx
      obtain ⟨it, hit, p, hst, rfl⟩ := hnew x hx
      exact ⟨it, mem_append_left _ hit, rfl, h.report hit hst⟩
    · have hfresh := hw.2 ht
      rw [if_neg hne] at hfresh
      obtain hfault | hpos := hmeet (by simp only [length_nil]; omega) hfresh
      · dsimp only
        rw [if_pos hfault]
        exact nofun
      · dsimp only
        split
        · exact nofun
        · exact fun hret => hpos (length_eq_zero_iff.1 (hout ▸ WaitResult.ret.inj hret))

/-! ## Runs -/

/-- What a call of `sys_epoll_ctl` has to observe. -/
def CtlSound (s : State) (c : Ctl) (p : Probe) : Prop :=
  match c.req with
  | .add f _ _ ev => (s.type f).unasked.Within (allowed (interest ev))
  | .mod f ev => ModSound (s.ep c.ep) (s.type f) f ev p
  | .del _ | .delFd _ _ => True

def CallSound (s : State) : Action → Prop
  | .ctlSection i p _ => ∀ c ∈ s.pend[i]?, CtlSound s c p
  | .wait e w => WaitSound s.type (s.ep e) w
  | _ => True

instance (e : Eventpoll) (type : FileType) (f : ℕ) (ev : Poll) (p : Probe) :
    Decidable (ModSound e type f ev p) := inferInstanceAs (Decidable (_ ∧ _))

instance (w : Wait) (type : ℕ → FileType) (i : ℕ) (ready back : List Item) (n : ℕ) :
    Decidable (WalkSound w type i ready back n) := inferInstanceAs (Decidable (_ ∨ _ ∨ _))

instance (type : ℕ → FileType) (e : Eventpoll) (w : Wait) : Decidable (WaitSound type e w) :=
  inferInstanceAs (Decidable (_ ∧ _))

instance (e : Eventpoll) (w : Wait) (out : List (ℕ × Poll)) (res : WaitResult) :
    Decidable (ReportOk e w out res) :=
  decidable_of_iff (_ ∧ _ ∧ _) ⟨fun ⟨h, h', h''⟩ => ⟨h, h', h''⟩, fun ⟨h, h', h''⟩ => ⟨h, h', h''⟩⟩

instance (s : State) : (c : Ctl) → (p : Probe) → Decidable (CtlSound s c p)
  | ⟨_, _, .add f _ _ ev⟩, _ =>
    inferInstanceAs (Decidable ((s.type f).unasked.Within (allowed (interest ev))))
  | ⟨_, e, .mod f ev⟩, p => inferInstanceAs (Decidable (ModSound (s.ep e) (s.type f) f ev p))
  | ⟨_, _, .del _⟩, _ => isTrue trivial
  | ⟨_, _, .delFd _ _⟩, _ => isTrue trivial

instance (s : State) (a : Action) : Decidable (CallSound s a) := by
  cases a <;> unfold CallSound <;> infer_instance

/-- Every instance has entries that can be reported as they are. -/
structure ReportInv (s : State) : Prop extends GraphInv s where
  ok : ∀ e, EpOk s.type (s.ep e)

lemma ReportInv.start : ReportInv init := ⟨GraphInv.start, fun _ => EpOk.create⟩

namespace ReportInv

variable {s t : State}

section

variable (h : ReportInv s)
include h

lemma setEp_ok {e : ℕ} {x : Eventpoll} (hx : EpOk s.type x) (a : ℕ) :
    EpOk (s.setEp e x).type ((s.setEp e x).ep a) := by
  rw [State.setEp_ep]
  split
  · exact hx
  · exact h.ok a

lemma openFile_ok (owner fd : ℕ) (type : FileType) (e : ℕ) :
    EpOk (s.openFile owner fd type).type (s.ep e) :=
  (h.ok e).congr_type fun _ hf => update_of_ne (h.file_lt e _ hf).ne _ _

lemma ctlSection_ok {c : Ctl} {i : ℕ} (hc : s.pend[i]? = some c) {p : Probe}
    {mem : Bool} (hs : CallSound s (.ctlSection i p mem)) (ht : s.ctlSection c p mem = .ok t)
    (e : ℕ) :
    EpOk t.type (t.ep e) := by
  obtain ⟨ef, ep, req⟩ := c
  have hs : CtlSound s ⟨ef, ep, req⟩ p := hs _ hc
  cases req with
  | add f owner fd ev =>
    simp only [State.ctlSection, State.epInsert] at ht
    split_ifs at ht
    cases hins : (s.ep ep).insert (s.type f) f owner fd ev p with
    | error err => simp [hins, Except.map] at ht
    | ok x =>
      rw [hins] at ht
      exact Except.ok.inj ht ▸ h.setEp_ok ((h.ok ep).insert hs hins) e
  | mod f ev =>
    simp only [State.ctlSection] at ht
    cases hm : (s.ep ep).modify (s.type f) f ev p with
    | error err => simp [hm, Except.map] at ht
    | ok x =>
      rw [hm] at ht
      exact Except.ok.inj ht ▸ h.setEp_ok ((h.ok ep).modify hs hm) e
  | del f =>
    simp only [State.ctlSection] at ht
    split_ifs at ht
    exact Except.ok.inj ht ▸ h.setEp_ok ((h.ok ep).removeItem f) e
  | delFd owner fd =>
    simp only [State.ctlSection] at ht
    split at ht
    · cases ht
    · exact Except.ok.inj ht ▸ h.setEp_ok ((h.ok ep).removeItem _) e

lemma step {a : Action} (hs : CallSound s a) (ht : step s a = some t) :
    ReportInv t := by
  refine ⟨h.toGraphInv.step ht, fun x => ?_⟩
  cases a with
  | epollCreate owner fd =>
    obtain ⟨-, rfl⟩ := of_guard ht
    change EpOk (s.openFile owner fd _).type (update s.ep s.neps .create x)
    rw [update_apply]
    split
    · exact EpOk.create
    · exact h.openFile_ok owner fd _ x
  | openFile owner fd type =>
    simp only [Epoll.step] at ht
    split at ht
    · cases ht
    · cases ht
    · exact some.inj ht ▸ h.openFile_ok owner fd _ x
  | dup owner fd owner' fd' =>
    simp only [Epoll.step] at ht
    split at ht
    · cases ht
    · obtain ⟨-, rfl⟩ := of_guard ht
      exact h.ok x
  | close owner fd =>
    obtain ⟨f, -, rfl⟩ := map_eq_some_iff.1 ht
    exact h.ok x
  | ctl owner epfd op fd ev =>
    simp only [Epoll.step] at ht
    split at ht
    · exact some.inj ht ▸ h.ok x
    · exact some.inj ht ▸ h.ok x
  | ctlSection i p mem =>
    simp only [Epoll.step] at ht
    split at ht
    · cases ht
    · next c hc =>
      split at ht
      · exact some.inj ht ▸ h.ok x
      · next u hu => exact some.inj ht ▸ h.ctlSection_ok hc hs hu x
  | fileRelease f e =>
    obtain ⟨-, rfl⟩ := of_guard ht
    exact h.setEp_ok ((h.ok e).removeItem f) x
  | release ef f =>
    simp only [Epoll.step] at ht
    split at ht
    · obtain ⟨-, rfl⟩ := of_guard ht
      exact h.setEp_ok ((h.ok _).removeItem f) x
    · cases ht
  | pollCallback e f mask => exact some.inj ht ▸ h.setEp_ok ((h.ok e).pollCallback f mask) x
  | wait e w => exact some.inj ht ▸ h.setEp_ok ((h.ok e).wait w) x

end

end ReportInv

/-- In every run whose calls observe the condition, every call of `sys_epoll_wait` reports a file at
most once, reports sets that are not empty and within the interest and `POLLERR`, `POLLHUP`, and
does not return 0 when it may not time out. -/
theorem wait_reports_of_callSound {as : List Action} {t : State} (h : exec step init as = some t)
    (hC : Meets step CallSound init as) {e : ℕ} {w : Wait} (hw : CallSound t (.wait e w)) :
    ReportOk (t.ep e) w (epollWait t.type (t.ep e) w).2.1 (epollWait t.type (t.ep e) w).2.2 :=
  ((exec_invariant_of_meets (fun _ _ _ hI => hI.step) as _ t ReportInv.start hC h).ok e).epollWait
  hw

/-- A program with two event counters, both of them signalled when it adds them. -/
def twoCounters : List Action :=
  [.epollCreate 0 3, .openFile 0 4 .eventfd, .openFile 0 5 .eventfd,
    .ctl 0 3 .add 4 (some pollIn), .ctlSection 0 ⟨true, true, false, false⟩ true,
    .ctl 0 3 .add 5 (some pollIn), .ctlSection 0 ⟨true, true, false, false⟩ true]

/-- An event counter whose interest is narrowed to `EPOLLOUT` and made edge-triggered while it is on
the ready list. -/
def narrowed : List Action :=
  [.epollCreate 0 3, .openFile 0 4 .eventfd,
    .ctl 0 3 .add 4 (some (pollIn ||| pollOut)), .ctlSection 0 ⟨true, true, false, false⟩ true,
    .ctl 0 3 .mod 4 (some (pollOut ||| epollEt)), .ctlSection 0 ⟨true, true, false, false⟩ true]

def watchRandom : List Action :=
  [.epollCreate 0 3, .openFile 0 4 .random, .ctl 0 3 .add 4 (some pollOut),
    .ctlSection 0 ⟨true, true, false, false⟩ true]

/-- A call for up to eight events without a timeout, where the files in `readable` can be read. -/
def waitFor (readable : List ℕ) : Wait :=
  { maxevents := 8
    timeoutMs := -1
    start := 0
    now := 0
    alarm := 0
    probe := fun _ f => ⟨f ∈ readable, true, false, false⟩
    copyFails := fun _ => false
    signalPending := false
    waitTimedOut := false }

/-- What a call reports after a run, and whether the report is right. -/
def reportAfter (as : List Action) (w : Wait) : Option (List (ℕ × Poll) × WaitResult × Bool) :=
  (exec step init as).map fun t =>
    let r := epollWait t.type (t.ep 0) w
    (r.2.1, r.2.2, decide (ReportOk (t.ep 0) w r.2.1 r.2.2))

/-- Two counters of which the second has been read again: the first one is reported twice; and when
both have been read, the call returns 0.  A set that was stored before `EPOLL_CTL_MOD` is reported
after it, and `/dev/random` reports what nobody asked for. -/
theorem wait_reports_wrong :
    reportAfter twoCounters (waitFor [1]) = some ([(1, pollIn), (1, pollIn)], .ret 2, false) ∧
    reportAfter twoCounters (waitFor []) = some ([], .ret 0, false) ∧
    reportAfter narrowed (waitFor [1]) = some ([(1, pollIn ||| pollOut)], .ret 1, false) ∧
    reportAfter watchRandom (waitFor []) =
      some ([(1, pollIn ||| epollRdnorm)], .ret 1, false) := by
  refine ⟨?_, ?_, ?_, ?_⟩ <;> decide +kernel

/-- While both counters can be read, each is reported once. -/
theorem wait_reports_two : ∃ t, exec step init twoCounters = some t ∧
    Meets step CallSound init twoCounters ∧
    ReportOk (t.ep 0) (waitFor [1, 2]) (epollWait t.type (t.ep 0) (waitFor [1, 2])).2.1
      (epollWait t.type (t.ep 0) (waitFor [1, 2])).2.2 := by
  have hmeets : Meets step CallSound init twoCounters := by decide +kernel
  obtain ⟨t, ht, hsound⟩ : ∃ t, exec step init twoCounters = some t ∧
      CallSound t (.wait 0 (waitFor [1, 2])) := by decide +kernel
  exact ⟨t, ht, hmeets, wait_reports_of_callSound ht hmeets hsound⟩

end XosKernel.Epoll
