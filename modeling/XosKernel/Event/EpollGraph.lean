/-
# The watch graph of epoll instances

An epoll instance can be watched by another one. If a circle of instances could watch each other,
a wake-up of one of them would travel around it forever, so `ep_insert` refuses an interest that
would close one. This file proves that it does: in every state that the system reaches, whatever
calls were waiting for the lock at the same time, the graph of instances and the instances they
watch is acyclic.
-/
import XosKernel.Event.Epoll
import XosKernel.Lib.Acyclic
import XosKernel.Lib.Run

namespace XosKernel.Epoll

open Relation Option Function List Eventpoll Except Nat

/-! ## The files an instance watches -/

variable {e : Eventpoll} {f g owner fd o n : ℕ} {it : Item} {ev : Poll} {p : Probe} {c : Ctl}

namespace Eventpoll

def files (e : Eventpoll) : List ℕ := e.items.map (·.file)

lemma mem_files : f ∈ e.files ↔ ∃ it ∈ e.items, it.file = f := by
  simp [files]

lemma file_mem_files (h : it ∈ e.items) : it.file ∈ e.files :=
  mem_files.2 ⟨it, h, rfl⟩

lemma find_some (h : e.find f = some it) : it ∈ e.items ∧ it.file = f :=
  ⟨mem_of_find?_eq_some h, by simpa using List.find?_some h⟩

lemma find_mem_files (h : e.find f = some it) : f ∈ e.files :=
  mem_files.2 ⟨it, find_some h⟩

lemma mem_files_removeItem : g ∈ (e.removeItem f).files ↔ g ∈ e.files ∧ g ≠ f := by
  simp only [files, items, removeItem, List.map_append, List.mem_append, List.mem_map,
    List.mem_filter, decide_eq_true_eq]
  constructor
  · rintro (⟨it, ⟨hit, hne⟩, rfl⟩ | ⟨it, ⟨hit, hne⟩, rfl⟩)
    · exact ⟨.inl ⟨it, hit, rfl⟩, hne⟩
    · exact ⟨.inr ⟨it, hit, rfl⟩, hne⟩
  · rintro ⟨⟨it, hit, rfl⟩ | ⟨it, hit, rfl⟩, hne⟩
    · exact .inl ⟨it, ⟨hit, hne⟩, rfl⟩
    · exact .inr ⟨it, ⟨hit, hne⟩, rfl⟩

lemma files_pushReady_perm (e : Eventpoll) (it : Item) :
    (e.pushReady it).files.Perm (it.file :: (e.removeItem it.file).files) := by
  simp only [files, items, pushReady, map_append, map_cons, append_assoc, cons_append, nil_append]
  exact perm_middle

lemma files_putIdle_perm (e : Eventpoll) (it : Item) :
    (e.putIdle it).files.Perm (it.file :: (e.removeItem it.file).files) := by
  simp only [files, items, putIdle, map_append, map_cons]
  exact perm_middle

lemma files_update (e : Eventpoll) (it : Item) : (e.update it).files = e.files := by
  simp only [files, items, update, ← List.map_append, List.map_map]
  refine List.map_congr_left fun x _ => ?_
  by_cases h : x.file = it.file
  · simp [h]
  · simp [h]

lemma mem_files_pushReady : g ∈ (e.pushReady it).files ↔ g = it.file ∨ g ∈ e.files := by
  rw [(files_pushReady_perm e it).mem_iff, mem_cons, mem_files_removeItem]
  tauto

lemma mem_files_putIdle : g ∈ (e.putIdle it).files ↔ g = it.file ∨ g ∈ e.files := by
  rw [(files_putIdle_perm e it).mem_iff, mem_cons, mem_files_removeItem]
  tauto

lemma mem_files_pollCallback {mask : Poll} : g ∈ (e.pollCallback f mask).files ↔ g ∈ e.files := by
  cases hf : e.find f with
  | none => simp only [pollCallback, hf]
  | some it =>
    obtain ⟨-, hfile⟩ := find_some hf
    have hpush : ∀ r, g ∈ (e.pushReady { it with revents := r }).files ↔ g ∈ e.files := by
      intro r
      rw [mem_files_pushReady]
      rw [hfile]
      exact or_iff_right_of_imp fun h => h ▸ find_mem_files hf
    simp only [pollCallback, hf]
    split_ifs <;> first | rfl | rw [files_update] | exact hpush _

lemma mem_files_modify {e' : Eventpoll} {type : FileType}
    (h : e.modify type f ev p = .ok e') : g ∈ e'.files ↔ g ∈ e.files := by
  cases hf : e.find f with
  | none => simp [modify, hf] at h
  | some it =>
    obtain ⟨-, hfile⟩ := find_some hf
    have hin : g = (it.setEvents ev).file ∨ g ∈ e.files ↔ g ∈ e.files := by
      change g = it.file ∨ _ ↔ _
      rw [hfile]
      exact or_iff_right_of_imp fun h => h ▸ find_mem_files hf
    simp only [modify, hf] at h
    split_ifs at h with hex hready hzero
    · exact ok.inj h ▸ mem_files_pushReady.trans hin
    · exact ok.inj h ▸ mem_files_putIdle.trans hin
    · exact ok.inj h ▸ by rw [files_update]

lemma mem_files_insert {e' : Eventpoll} {type : FileType}
    (h : e.insert type f owner fd ev p = .ok e') :
    g ∈ e'.files ↔ g = f ∨ g ∈ e.files := by
  simp only [insert] at h
  split_ifs at h with hmax hdup hready
  · exact ok.inj h ▸ mem_files_pushReady
  · exact ok.inj h ▸ mem_files_putIdle

end Eventpoll

lemma files_requeue_perm (it : Item) (rest idle : List Item) :
    (requeue it rest idle).files.Perm (it.file :: (⟨rest, idle⟩ : Eventpoll).files) := by
  unfold requeue
  split
  · simp only [files, items, map_append, map_cons, append_assoc, cons_append, nil_append]
    exact perm_middle
  · simp only [files, items, map_append, map_cons]
    exact perm_middle

lemma files_reportPass_perm (w : Wait) (type : ℕ → FileType) (passEnd i : ℕ)
    (ready idle : List Item) (out : List (ℕ × Poll)) :
    (reportPass w type passEnd i ready idle out).ep.files.Perm
    (⟨ready, idle⟩ : Eventpoll).files := by
  fun_induction reportPass w type passEnd i ready idle out with
  | case1 => exact .refl _
  | case2 => exact .refl _
  | case3 i idle out it rest _ _ ih =>
    refine ih.trans ?_
    simp only [files, items, map_append, map_cons]
    exact perm_middle
  | case4 | case5 => exact files_requeue_perm _ _ _
  | case6 _ _ _ _ _ _ _ _ _ _ _ ih => exact ih.trans (files_requeue_perm _ _ _)

lemma files_epollWait_perm (type : ℕ → FileType) (e : Eventpoll) (w : Wait) :
    (epollWait type e w).1.files.Perm e.files := by
  unfold epollWait
  split
  · exact .refl _
  · split
    · exact .refl _
    · exact files_reportPass_perm ..

/-! ## The graph -/

/-- Instance `a` has an interest whose file is instance `b`. -/
def Watches (s : State) (a b : ℕ) : Prop := ∃ f ∈ (s.ep a).files, s.type f = .epoll b

namespace State

lemma setEp_ep (s : State) (e : ℕ) (x : Eventpoll) (a : ℕ) :
    (s.setEp e x).ep a = if a = e then x else s.ep a := update_apply ..

lemma fdTable_fdInstall {s : State}
    (h : (s.fdInstall owner fd f).fdTable o n = some g) : g = f ∨ s.fdTable o n = some g := by
  change update s.fdTable owner _ o n = some g at h
  rw [update_apply] at h
  split_ifs at h with ho
  · rw [update_apply] at h
    split_ifs at h with hn
    · exact .inl (some.inj h).symm
    · exact .inr (ho ▸ h)
  · exact .inr h

lemma fdTable_fdUninstall {s : State}
    (h : (s.fdUninstall owner fd f).fdTable o n = some g) : s.fdTable o n = some g := by
  change update s.fdTable owner _ o n = some g at h
  rw [update_apply] at h
  split_ifs at h with ho
  · rw [update_apply] at h
    split_ifs at h
    exact ho ▸ h
  · exact h

/-- The target of an add is the file its descriptor refers to. -/
lemma fdTable_of_epollCtl {s : State} {epfd : ℕ} {op : CtlOp} {ev : Option Poll}
    {e : Poll} (hc : s.epollCtl owner epfd op fd ev = .ok c)
    (hreq : c.req = .add f o n e) : s.fdTable owner fd = some f := by
  revert hc
  fun_cases epollCtl s owner epfd op fd ev with
  | case2 | case5 | case8 =>
    rintro ⟨⟩
    exact nomatch hreq
  | case7 _ _ _ _ g hg =>
    rintro ⟨⟩
    exact hg.trans (congrArg some (CtlReq.add.inj hreq).1)
  | _ => exact nofun

lemma not_reaches_of_graphReaches {s : State} {target src : ℕ} {depth : ℕ}
    (h : s.graphReaches target depth src = false) : ¬ ReflTransGen (Watches s) src target := by
  refine not_reflTransGen_of_search (s.graphReaches target) (fun x => rfl) ?_ depth src h
  intro n x hx
  rw [graphReaches, Bool.or_eq_false_iff, List.any_eq_false] at hx
  refine ⟨by simpa using hx.1, fun y hxy => ?_⟩
  obtain ⟨f, hf, hty⟩ := hxy
  obtain ⟨it, hit, rfl⟩ := mem_files.1 hf
  have := hx.2 it hit
  rw [hty] at this
  exact Bool.eq_false_of_not_eq_true this

end State

/-- The invariant: no circle, and every file that is referred to exists. -/
structure GraphInv (s : State) : Prop where
  acyclic : Acyclic (Watches s)
  fd_lt : ∀ owner fd f, s.fdTable owner fd = some f → f < s.nfiles
  pend_lt : ∀ c ∈ s.pend, ∀ f owner fd ev, c.req = .add f owner fd ev → f < s.nfiles
  file_lt : ∀ e, ∀ f ∈ (s.ep e).files, f < s.nfiles

lemma GraphInv.start : GraphInv init where
  acyclic := acyclic_of_forall_not fun _ _ ⟨_, hf, _⟩ => nomatch hf
  fd_lt := fun _ _ _ h => nomatch h
  pend_lt := fun _ h => nomatch h
  file_lt := fun _ _ h => nomatch h

namespace GraphInv

variable {s t : State}

section

variable (h : GraphInv s)
include h

lemma setEp_of_subset {e : ℕ} {x : Eventpoll}
    (hx : ∀ f ∈ x.files, f ∈ (s.ep e).files) : GraphInv (s.setEp e x) := by
  have hsub : ∀ a, ∀ f ∈ ((s.setEp e x).ep a).files, f ∈ (s.ep a).files := by
    intro a f hf
    rw [State.setEp_ep] at hf
    by_cases ha : a = e
    · rw [if_pos ha] at hf
      exact ha ▸ hx f hf
    · rwa [if_neg ha] at hf
  exact { h with
    acyclic := h.acyclic.mono fun a b ⟨f, hf, hty⟩ => ⟨f, hsub a f hf, hty⟩
    file_lt := fun a f hf => h.file_lt a f (hsub a f hf) }

lemma removeItem (e f : ℕ) : GraphInv (s.setEp e ((s.ep e).removeItem f)) :=
  h.setEp_of_subset fun _ hg => (mem_files_removeItem.1 hg).1

/-- `ep_insert` adds an edge only from an instance that its target does not reach. -/
lemma epInsert {e : ℕ} {mem : Bool}
    (hf : f < s.nfiles) (ht : s.epInsert e f owner fd ev p mem = .ok t) : GraphInv t := by
  simp only [State.epInsert] at ht
  split_ifs at ht with hmem hloop hrefs
  cases hins : (s.ep e).insert (s.type f) f owner fd ev p with
  | error err => simp [hins, Except.map] at ht
  | ok x =>
    rw [hins] at ht
    obtain rfl : s.setEp e x = t := ok.inj ht
    have hfiles : ∀ a g, g ∈ ((s.setEp e x).ep a).files → g ∈ (s.ep a).files ∨ a = e ∧ g = f := by
      intro a g hg
      rw [State.setEp_ep] at hg
      split at hg
      next ha =>
        exact ((mem_files_insert hins).1 hg).symm.imp (ha ▸ ·) (⟨ha, ·⟩)
      · exact .inl hg
    have hacyclic : Acyclic (Watches (s.setEp e x)) := by
      cases hty : s.type f with
      | epoll b =>
        rw [hty] at hloop
        refine h.acyclic.insert (a := e) (b := b) ?_
          (State.not_reaches_of_graphReaches (Bool.eq_false_of_not_eq_true hloop))
        rintro a c ⟨g, hg, hgc⟩
        obtain hold | ⟨rfl, rfl⟩ := hfiles a g hg
        · exact .inl ⟨g, hold, hgc⟩
        · exact .inr ⟨rfl, (FileType.epoll.inj (hty.symm.trans hgc)).symm⟩
      | _ =>
        refine h.acyclic.mono fun a c ⟨g, hg, hgc⟩ => ?_
        obtain hold | ⟨rfl, rfl⟩ := hfiles a g hg
        · exact ⟨g, hold, hgc⟩
        · exact absurd (hty.symm.trans hgc) nofun
    exact { h with
      acyclic := hacyclic
      file_lt := fun a g hg => (hfiles a g hg).elim (h.file_lt a g) fun hg => hg.2 ▸ hf }

lemma openFile (owner fd : ℕ) (type : FileType) : GraphInv (s.openFile owner fd type) := by
  have hne : ∀ a, ∀ f ∈ (s.ep a).files, (s.openFile owner fd type).type f = s.type f := by
    intro a f hf
    exact update_of_ne (h.file_lt a f hf).ne _ _
  exact {
    acyclic := h.acyclic.mono fun a b ⟨f, hf, hty⟩ => ⟨f, hf, (hne a f hf).symm.trans hty⟩
    fd_lt := by
      intro o n f hf
      obtain rfl | hold := State.fdTable_fdInstall hf
      · exact lt_succ_self _
      · exact (h.fd_lt o n f hold).trans (lt_succ_self _)
    pend_lt := fun c hc f o n ev hreq =>
      (h.pend_lt c hc f o n ev hreq).trans (lt_succ_self _)
    file_lt := fun a f hf => (h.file_lt a f hf).trans (lt_succ_self _) }

lemma epollCreate (owner fd : ℕ) : GraphInv (s.epollCreate owner fd) := by
  have hempty := (h.openFile owner fd (.epoll s.neps)).setEp_of_subset (e := s.neps)
    (x := create) fun _ hf => nomatch hf
  exact { hempty with }

lemma ctl {epfd : ℕ} {op : CtlOp} {ev : Option Poll}
    (hc : s.epollCtl owner epfd op fd ev = .ok c) : GraphInv { s with pend := s.pend ++ [c] } := by
  refine { h with pend_lt := fun d hd f o n e hreq => ?_ }
  obtain hd | hd := mem_append.1 hd
  · exact h.pend_lt d hd f o n e hreq
  · obtain rfl := mem_singleton.1 hd
    exact h.fd_lt owner fd f (State.fdTable_of_epollCtl hc hreq)

lemma ctlSection (hc : c ∈ s.pend) {mem : Bool}
    (ht : s.ctlSection c p mem = .ok t) : GraphInv t := by
  unfold State.ctlSection at ht
  cases hreq : c.req with
  | add f owner fd ev =>
    rw [hreq] at ht
    exact h.epInsert (h.pend_lt c hc f owner fd ev hreq) ht
  | mod f ev =>
    rw [hreq] at ht
    cases hm : (s.ep c.ep).modify (s.type f) f ev p with
    | error err => simp [hm, Except.map] at ht
    | ok x =>
      simp only [hm, Except.map] at ht
      exact ok.inj ht ▸ h.setEp_of_subset fun _ => (mem_files_modify hm).1
  | del f =>
    simp only [hreq] at ht
    split_ifs at ht
    exact ok.inj ht ▸ h.removeItem _ _
  | delFd owner fd =>
    simp only [hreq] at ht
    split at ht
    · exact nomatch ht
    · exact ok.inj ht ▸ h.removeItem _ _

lemma step {a : Action} (ht : step s a = some t) : GraphInv t := by
  cases a with
  | epollCreate owner fd =>
    obtain ⟨-, rfl⟩ := of_guard ht
    exact h.epollCreate owner fd
  | openFile owner fd type =>
    simp only [Epoll.step] at ht
    split at ht
    · exact nomatch ht
    · exact nomatch ht
    · exact some.inj ht ▸ h.openFile owner fd _
  | dup owner fd owner' fd' =>
    simp only [Epoll.step] at ht
    split at ht
    · exact nomatch ht
    · next f hf =>
      obtain ⟨-, rfl⟩ := of_guard ht
      refine { h with fd_lt := fun o n g hg => ?_ }
      obtain rfl | hold := State.fdTable_fdInstall hg
      · exact h.fd_lt owner fd g hf
      · exact h.fd_lt o n g hold
  | close owner fd =>
    obtain ⟨f, -, rfl⟩ := map_eq_some_iff.1 ht
    exact { h with fd_lt := fun o n g hg => h.fd_lt o n g (State.fdTable_fdUninstall hg) }
  | ctl owner epfd op fd ev =>
    simp only [Epoll.step] at ht
    split at ht
    · exact some.inj ht ▸ h
    · next c hc => exact some.inj ht ▸ h.ctl hc
  | ctlSection i p mem =>
    simp only [Epoll.step] at ht
    have hdone : ∀ u : State, GraphInv u → GraphInv { u with pend := u.pend.eraseIdx i } :=
      fun u hu => { hu with pend_lt := fun c hc => hu.pend_lt c (mem_of_mem_eraseIdx hc) }
    split at ht
    · exact nomatch ht
    · next c hc =>
      split at ht
      · exact some.inj ht ▸ hdone s h
      · next u hu => exact some.inj ht ▸ hdone u (h.ctlSection (mem_of_getElem? hc) hu)
  | fileRelease f e =>
    obtain ⟨-, rfl⟩ := of_guard ht
    exact h.removeItem e f
  | release ef f =>
    simp only [Epoll.step] at ht
    split at ht
    · obtain ⟨-, rfl⟩ := of_guard ht
      exact h.removeItem _ f
    · exact nomatch ht
  | pollCallback e f mask =>
    exact some.inj ht ▸ h.setEp_of_subset fun _ => mem_files_pollCallback.1
  | wait e w =>
    exact some.inj ht ▸ h.setEp_of_subset fun f => (files_epollWait_perm _ _ w).mem_iff.1

end

end GraphInv

/-- Whatever calls run and whatever happens while they wait for the lock, no instance watches
itself through any number of others, and an add that is turned down, before the section or in it,
leaves every interest list as it was. -/
theorem watch_graph_acyclic {as : List Action} {t : State} (h : exec step init as = some t) :
    Acyclic (Watches t) ∧
      (∀ owner epfd fd ev err, t.epollCtl owner epfd .add fd ev = .error err →
        step t (.ctl owner epfd .add fd ev) = some t) ∧
      ∀ i c p mem err, t.pend[i]? = some c → t.ctlSection c p mem = .error err →
        ∃ u, step t (.ctlSection i p mem) = some u ∧ ∀ a b, Watches u a b ↔ Watches t a b := by
  refine ⟨?_, ?_, ?_⟩
  · exact (exec_invariant (fun _ _ _ hI => hI.step) GraphInv.start h).acyclic
  · intro owner epfd fd ev err herr
    simp only [step, herr]
  · intro i c p mem err hc herr
    refine ⟨{ t with pend := t.pend.eraseIdx i }, ?_, fun a b => Iff.rfl⟩
    simp only [step, hc, herr]

/-- Two instances of one process, the first of which watches the second: an interest the other way
is turned down with `ELOOP`. -/
theorem watch_graph_acyclic_two : ∃ t c, exec step init
      [.epollCreate 0 3, .epollCreate 0 4, .ctl 0 3 .add 4 (some pollIn),
        .ctlSection 0 ⟨false, false, false, false⟩ true, .ctl 0 4 .add 3 (some pollIn)] = some t ∧
    Watches t 0 1 ∧ Acyclic (Watches t) ∧ t.pend[0]? = some c ∧
    ∀ p, ∃ u, step t (.ctlSection 0 p true) = some u ∧ ∀ a b, Watches u a b ↔ Watches t a b := by
  obtain ⟨t, ht, hmem, hty, hty', hpend, hreach⟩ : ∃ t, exec step init
      [.epollCreate 0 3, .epollCreate 0 4, .ctl 0 3 .add 4 (some pollIn),
        .ctlSection 0 ⟨false, false, false, false⟩ true, .ctl 0 4 .add 3 (some pollIn)] = some t ∧
      1 ∈ (t.ep 0).files ∧ t.type 1 = .epoll 1 ∧ t.type 0 = .epoll 0 ∧
        t.pend = [⟨1, 1, .add 0 0 3 pollIn⟩] ∧ t.graphReaches 1 4 0 = true := by
    decide +kernel
  obtain ⟨hacyclic, -, hreject⟩ := watch_graph_acyclic ht
  have hpend0 : t.pend[0]? = some ⟨1, 1, .add 0 0 3 pollIn⟩ := by rw [hpend]; rfl
  refine ⟨t, _, ht, ⟨1, hmem, hty⟩, hacyclic, hpend0, fun p => ?_⟩
  refine hreject 0 _ p true .ELOOP hpend0 ?_
  simp only [State.ctlSection, State.epInsert, hty', State.maxDepth, hreach]
  rfl

end XosKernel.Epoll
