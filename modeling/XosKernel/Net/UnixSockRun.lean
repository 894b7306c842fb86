/-
# The peer links along a run

Every section keeps the invariant, except the one that connects a socket which already has a peer:
it leaves the old peer with a link that nothing leads back from, and so the peer links are in order
along a run exactly when it has no such step.
-/
import XosKernel.Net.UnixSockInv

namespace XosKernel.UnixSock

open Option Function Cont Sock Nat

variable {s s' : Sys} {place : ℕ → Option Place} {a b l x child : ℕ} {c : Cont} {f : Sock → Sock}

/-! ### Files -/

/-- A call begins, or goes on, that holds no reference to a socket. -/
lemma Inv.enter (h : Inv s place) (hholds : ∀ x, (s.push c).holds x ≤ s.fCount x)
    (hrefs : ∀ x, c.refs x = false) (hfree : ∀ x, c ≠ .free x)
    (hclosing : ∀ x, c = .close x → place x = some .closing ∧ s.pend.count c = 0)
    (haccepted : ∀ l x, c = .accepted l x → place x = some (.accepted l) ∧ s.pend.count c = 0) :
    Inv (s.push c) place := by
  refine { h with holds := hholds, closing := fun x => ?_, accepted := fun l x => ?_,
                  count := fun x => ?_, free := fun x => ?_ }
  · rw [Sys.push]
    by_cases hx : c = .close x
    · obtain ⟨hplace, hcount⟩ := hclosing x hx
      rw [← hx, List.count_cons_self, hcount, if_pos hplace]
    · rw [List.count_cons_of_ne hx]
      exact h.closing x
  · rw [Sys.push]
    by_cases hx : c = .accepted l x
    · obtain ⟨hplace, hcount⟩ := haccepted l x hx
      rw [← hx, List.count_cons_self, hcount, if_pos hplace]
    · rw [List.count_cons_of_ne hx]
      exact h.accepted l x
  · rw [Sys.push, List.countP_cons_of_neg (by simp [hrefs])]
    exact h.count x
  · rw [Sys.push, List.count_cons_of_ne (hfree x)]
    exact h.free x

lemma Inv.pushClose (h : Inv s place) (hplace : place a = some .closing)
    (hcount : s.pend.count (.close a) = 0) : Inv (s.push (.close a)) place := by
  refine h.enter (fun x => ?_) (fun _ => rfl) nofun (fun x hx => ?_) nofun
  · rw [Sys.holds, Sys.push, List.countP_cons_of_neg (by simp [Cont.holds])]
    exact h.holds x
  · cases hx
    exact ⟨hplace, hcount⟩

lemma Inv.filePut (h : Inv s place) (hfd : s.HasFd a) : ∃ place', Inv (s.filePut a) place' := by
  have hplace : place a = some .file := h.file a (zero_lt_of_lt hfd)
  have hlt : s.holds a < s.fCount a := hfd
  unfold Sys.filePut
  split_ifs with hlast
  · have hshut : Inv (s.setFCount a 0) place := h.setFCount (fun hpos => nomatch hpos) (by omega)
    have hadrift := hshut.adrift_at hplace (update_self ..)
    refine ⟨_, (hshut.setPlace (q := some .closing) nofun ?_ hadrift).pushClose
      (update_self ..) hadrift.close⟩
    rw [hplace]
    exact nofun
  · exact ⟨place, h.setFCount (fun _ => hplace) (by omega)⟩

lemma Inv.begin (h : Inv s place) (hfd : s.HasFd a) (hplain : c.plain = true)
    (hrefs : ∀ x, c.refs x = false) (hholds : ∀ x, c.holds x = true → x = a) :
    Inv ((s.fileGet a).push c) place := by
  have hget : Inv (s.fileGet a) place :=
    h.setFCount (fun _ => h.file a (zero_lt_of_lt hfd)) (le_succ_of_le (h.holds a))
  refine hget.enter (fun x => ?_) hrefs (fun x hx => nomatch hx ▸ hplain)
    (fun x hx => nomatch hx ▸ hplain) fun l x hx => nomatch hx ▸ hplain
  show (c :: s.pend).countP (Cont.holds x) ≤ update s.fCount a (s.fCount a + 1) x
  by_cases hx : x = a
  · subst hx
    rw [update_self, List.countP_cons]
    have hle : s.pend.countP (Cont.holds x) ≤ s.fCount x := h.holds x
    split_ifs <;> omega
  · rw [update_of_ne hx, List.countP_cons_of_neg (fun hc => hx (hholds x hc))]
    exact h.holds x

/-! ### The end of a socket -/

lemma modify_comm {g : Sock → Sock} (hab : a ≠ b) :
    (s.modify a f).modify b g = (s.modify b g).modify a f := by
  unfold Sys.modify Sys.setSock
  simp only [update_of_ne hab, update_of_ne hab.symm]
  rw [update_comm hab]

lemma modify_modify {g : Sock → Sock} : (s.modify a f).modify a g = s.modify a (g ∘ f) := by
  unfold Sys.modify Sys.setSock
  simp only [update_self, update_idem, map_map]

lemma setsPeer_detached : SetsPeer Sock.detached none := ⟨fun _ => rfl, fun _ => rfl, fun _ => rfl⟩

lemma setsPeer_abandoned : SetsPeer Sock.abandoned none :=
  ⟨fun _ => rfl, fun _ => rfl, fun _ => rfl⟩

lemma Sys.Adrift.modify (h : s.Adrift a) (hb : ∀ k, (f k).backlog = k.backlog) :
    (s.modify b f).Adrift a where
  __ := h
  backlog l hmem := h.backlog l (by rwa [bl_modify hb] at hmem)

/-- `unix_sock_close`: the two ends of the connection are detached before the socket leaves its
place. -/
lemma Inv.unixSockClose (h : Inv (s.push (.close a)) place) :
    ∃ place', Inv (s.unixSockClose a) place' := by
  have hclosing := h.closing a
  rw [Sys.push, List.count_cons_self] at hclosing
  have hplace : place a = some .closing := by
    by_contra hne
    rw [if_neg hne] at hclosing
    omega
  rw [if_pos hplace] at hclosing
  have hsome : place a ≠ none := by
    rw [hplace]
    exact nofun
  have hpop := h.pop
  have hadrift := hpop.adrift_at hplace (eq_zero_of_le_zero (le_of_succ_le_succ hclosing))
  unfold Sys.unixSockClose
  cases hpeer : s.peerOf a with
  | none =>
    exact ⟨_, hpop.retire hsome hadrift hpeer (fun _ => rfl) (fun _ => rfl)
      ((peerOf_modify (f := shut) fun _ => rfl).trans hpeer)⟩
  | some b =>
    obtain ⟨-, -, hne⟩ := hpop.peers a b hpeer
    have hdet := hpop.detach hpeer setsPeer_abandoned (fun _ => rfl) setsPeer_detached fun _ => rfl
    have hret := hdet.retire (f := shut) hsome
      ((hadrift.modify setsPeer_abandoned.backlog).modify setsPeer_detached.backlog)
      (peerOf_modify_none fun _ => rfl) (fun _ => rfl) (fun _ => rfl)
      ((peerOf_modify (f := shut) fun _ => rfl).trans (peerOf_modify_none fun _ => rfl))
    have horder : ((s.modify a shut).modify b abandoned).modify a detached =
        ((s.modify b abandoned).modify a detached).modify a shut := by
      rw [modify_comm hne, modify_modify, modify_modify]
      rfl
    refine ⟨update place a none, ?_⟩
    show Inv (Sys.borrow (Sys.push (Sys.modify _ a detached) _) b) _
    rw [horder]
    exact hret.borrow b

/-- `unix_sock_free`: a connection of the backlog is given up like one that is closed, and at the
end nothing refers to the socket any more. -/
lemma Inv.unixSockFree (h : Inv (s.push (.free a)) place) :
    ∃ place', Inv (s.unixSockFree a) place' := by
  have hfree : s.pend.count (.free a) + 1 ≤ if s.sock a ≠ none ∧ s.uc a = 0 then 1 else 0 :=
    List.count_cons_self.symm.le.trans (h.free a)
  have hdead : s.sock a ≠ none ∧ s.uc a = 0 := by
    by_contra hne
    rw [if_neg hne] at hfree
    omega
  rw [if_pos hdead] at hfree
  have hcount := h.pop.count a
  have hplace : place a = none := by
    by_contra hne
    rw [own_eq_one hne] at hcount
    omega
  unfold Sys.unixSockFree
  cases hbl : s.bl a with
  | nil => exact ⟨place, h.pop.kfree hplace (by omega) (by omega)⟩
  | cons bp rest =>
    obtain ⟨k, hk⟩ := ne_none_iff_exists'.1 hdead.1
    have hmem : ∀ x ∈ bp :: rest, place x = some (.backlog a) := fun x hx =>
      h.backlog a x (show x ∈ s.bl a from hbl ▸ hx)
    have hnodup : (bp :: rest).Nodup := hbl ▸ h.nodup a
    have hbp := hmem bp List.mem_cons_self
    have hcut : Inv ((s.modify a (Sock.setBacklog rest)).push (.free a)) place :=
      h.setBacklog (f := Sock.setBacklog rest) hk (fun x hx => hmem x (List.mem_cons_of_mem _ hx))
      hnodup.of_cons
    have hadrift : Sys.Adrift ((s.modify a (Sock.setBacklog rest)).push (.free a)) bp := by
      refine hcut.adrift_at hbp ?_
      show bp ∉ ((s.modify a (Sock.setBacklog rest)).sock a).elim [] Sock.backlog
      rw [modify_self, hk]
      exact (List.nodup_cons.1 hnodup).1
    have hsome : place bp ≠ none := by
      rw [hbp]
      exact nofun
    have hpeerOf : Sys.peerOf ((s.modify a (Sock.setBacklog rest)).push (.free a)) bp =
        s.peerOf bp := peerOf_modify fun _ => rfl
    dsimp only
    cases hpeer : s.peerOf bp with
    | none =>
      exact ⟨_, hcut.retire (f := givenUp) hsome hadrift (hpeerOf.trans hpeer) (fun _ => rfl)
        (fun _ => rfl) (peerOf_modify_none fun _ => rfl)⟩
    | some b =>
      have hdet := hcut.detach (hpeerOf.trans hpeer) setsPeer_detached (fun _ => rfl)
        setsPeer_detached fun _ => rfl
      have hret := hdet.retire (f := givenUp) hsome
        ((hadrift.modify setsPeer_detached.backlog).modify setsPeer_detached.backlog)
        (peerOf_modify_none fun _ => rfl) (fun _ => rfl) (fun _ => rfl)
        (peerOf_modify_none fun _ => rfl)
      rw [modify_modify] at hret
      exact ⟨_, hret.borrow b⟩

/-! ### Connections -/

lemma setSock_modify {k : Sock} : (s.setSock a (some k)).modify a f = s.setSock a (some (f k)) := by
  unfold Sys.modify Sys.setSock
  simp only [update_self, update_idem, map_some]

lemma Inv.place_of_holds (h : Inv (s.push c) place) (hc : c.holds a = true) :
    place a = some .file := by
  refine h.file a (lt_of_lt_of_le ?_ (h.holds a))
  rw [Sys.holds, Sys.push, List.countP_cons_of_pos hc]
  exact succ_pos _

lemma exists_sock_modify {k : Sock} (hk : s.sock x = some k)
    (hb : ∀ k, (f k).backlog = k.backlog) :
    ∃ k', (s.modify a f).sock x = some k' ∧ k'.backlog = k.backlog := by
  by_cases hx : x = a
  · subst hx
    exact ⟨f k, by rw [modify_self, hk]; rfl, hb k⟩
  · exact ⟨k, by rw [modify_of_ne hx, hk], rfl⟩

/-- `sys_connect` of a socket without a peer. -/
lemma Inv.link (h : Inv s place) (ha : place a = some .file) (hpeer : s.peerOf a = none)
    (hl : s.Accepts l) (hchild : s.sock child = none) :
    Inv (s.link a l child) (update place child (some (.backlog l))) := by
  have hne : a ≠ child := by
    rintro rfl
    cases ha.symm.trans (h.of_none hchild).1
  have halloc := h.alloc (k := { Sock.alloc .stream with state := .connected })
    (q := .backlog l) hchild rfl rfl rfl (by rintro ⟨⟩)
  have hatt := halloc.attach (a := a) (b := child)
    (f := Sock.connectTo a) (g := Sock.connectTo child) ?_ ?_ ?_ ?_ hne
    ⟨fun _ => rfl, fun _ => rfl, fun _ => rfl⟩ (by rintro _ ⟨⟩) ⟨fun _ => rfl, fun _ =>
    rfl, fun _ => rfl⟩
    (by rintro _ ⟨⟩)
  · rw [setSock_modify] at hatt
    have hlc : l ≠ child := by
      rintro rfl
      rw [Sys.Accepts, hchild] at hl
      cases hl
    obtain ⟨kl, hkl⟩ : ∃ k, s.sock l = some k := by
      refine ne_none_iff_exists'.1 fun hnone => ?_
      rw [Sys.Accepts, hnone] at hl
      cases hl
    obtain ⟨k, hk, hbk⟩ := exists_sock_modify (a := a) (s := s.setSock child _)
      (f := connectTo child) ((setSock_of_ne hlc).trans hkl) fun _ => rfl
    have hbl : ∀ x ∈ kl.backlog, place x = some (.backlog l) := fun x hx =>
      h.backlog l x (by rw [Sys.bl, hkl]; exact hx)
    have hfresh : child ∉ kl.backlog := fun hmem =>
      by cases (hbl child hmem).symm.trans (h.of_none hchild).1
    refine hatt.setBacklog hk ?_ ?_
    · intro x hx
      rcases List.mem_append.1 hx with hold | hnew
      · rw [hbk] at hold
        rw [update_of_ne (ne_of_mem_of_not_mem hold hfresh)]
        exact hbl x hold
      · rw [List.mem_singleton.1 hnew]
        exact update_self ..
    · have hnd := h.nodup l
      rw [Sys.bl, hkl] at hnd
      show (k.backlog ++ [child]).Nodup
      rw [hbk]
      exact List.Nodup.append hnd (List.nodup_singleton _) (List.disjoint_singleton.2 hfresh)
  · rw [Sys.peerOf, setSock_of_ne hne]
    exact hpeer
  · rw [Sys.peerOf, setSock_self]
    rfl
  · rw [update_of_ne hne, ha]
    rintro ⟨⟩
  · rw [update_self]
    rintro ⟨⟩

lemma Inv.toPut (h : Inv (s.push c) place) (hc : c.holds a = true) :
    Inv (s.push (.put a)) place := by
  refine Inv.swap [c] [.put a] h (by simp [plain]) (fun x => ?_) fun x => by simp [refs]
  by_cases hx : x = a
  · subst hx
    rw [List.countP_cons_of_pos hc]
    exact List.countP_le_length.trans (succ_le_succ (zero_le _))
  · rw [List.countP_cons_of_neg (by simpa [Cont.holds] using Ne.symm hx)]
    exact zero_le _

lemma Inv.toRelease (h : Inv (s.push c) place) (hc : c.holds a = true) (hr : c.refs b = true) :
    Inv ((s.push (.put a)).push (.release b)) place := by
  refine Inv.swap [c] [.release b, .put a] h (by simp [plain]) (fun x => ?_) fun x => ?_
  · by_cases hx : x = a
    · subst hx
      rw [List.countP_cons_of_pos hc]
      simp [Cont.holds]
    · have hxa : a ≠ x := Ne.symm hx
      simp [Cont.holds, hxa]
  · by_cases hx : x = b
    · subst hx
      rw [List.countP_cons_of_pos hr]
      simp [refs]
    · have hxb : b ≠ x := Ne.symm hx
      simp [refs, hxb]

lemma lookup_uc_pos {p : Sock → Bool} {o : Option ℕ} (hp : ∀ k, p k = true → 0 < k.uCount)
    (h : (o.filter fun l => (s.sock l).any p) = some b) : 0 < s.uc b := by
  obtain ⟨-, hany⟩ := filter_eq_some_iff.1 h
  cases hk : s.sock b with
  | none =>
    rw [hk] at hany
    exact nomatch hany
  | some k =>
    rw [hk] at hany
    rw [uc_eq hk]
    exact hp k hany

/-- The lookup takes a reference for the rest of the call. -/
lemma Inv.refer (h : Inv (s.push c) place) (hc : c.holds a = true) (hpos : 0 < s.uc b) {d : Cont}
    (hd : d = .connect a b ∨ d = .connectDgram a b) :
    Inv ((s.modify b Sock.addRef).push d) place := by
  have hput := (h.toPut hc).borrow b
  rw [Sys.borrow, if_pos (show 0 < (s.push (.put a)).uc b from hpos)] at hput
  have hprof : ∀ x, [d].countP (Cont.holds x) ≤ [Cont.release b, .put a].countP (Cont.holds x) ∧
      [d].countP (Cont.refs x) ≤ [Cont.release b, .put a].countP (Cont.refs x) := by
    intro x
    rcases hd with rfl | rfl <;> simp [Cont.holds, Cont.refs, List.countP_cons]
  have hplain : ∀ e ∈ [d], e.plain = true := by
    rcases hd with rfl | rfl <;> simp [plain]
  exact Inv.swap [.release b, .put a] [d] hput hplain (fun x => (hprof x).1) fun x => (hprof x).2

lemma Inv.connectLookup {path : ℕ} (h : Inv (s.push (.lookup a path)) place) :
    Inv (s.connectLookup a path) place := by
  have hc : (Cont.lookup a path).holds a = true := by simp [Cont.holds]
  unfold Sys.connectLookup
  split_ifs
  · split
    · exact h.toPut hc
    · next t ht =>
      refine h.refer hc (lookup_uc_pos (fun k hk => ?_) ht) (Or.inr rfl)
      exact (of_decide_eq_true hk).2.2
  · split
    · exact h.toPut hc
    · next l hl =>
      refine h.refer hc (lookup_uc_pos (fun k hk => ?_) hl) (Or.inl rfl)
      exact (of_decide_eq_true hk).2

lemma Inv.connectDgram {t : ℕ} (h : Inv (s.push (.connectDgram a t)) place) :
    Inv (s.connectDgram a t) place := by
  have hrel := h.toRelease (a := a) (b := t) (by simp [Cont.holds]) (by simp [Cont.refs])
  unfold Sys.connectDgram
  split_ifs
  · exact hrel
  · exact hrel.modify fun _ _ => by simp

lemma Inv.connectLink (h : Inv (s.push (.connect a l)) place) {o : Option ℕ}
    (hpeer : ∀ child, o = some child → s.Accepts l → s.peerOf a = none)
    (hs : s.connectLink a l o = some s') : ∃ place', Inv s' place' := by
  have hc : (Cont.connect a l).holds a = true := by simp [Cont.holds]
  have hrel := h.toRelease (b := l) hc (by simp [Cont.refs])
  unfold Sys.connectLink at hs
  cases o with
  | none => exact ⟨place, some.inj hs ▸ hrel⟩
  | some child =>
    dsimp only at hs
    split_ifs at hs with hacc hfresh
    · have hlink : Inv (((s.link a l child).push (.put a)).push (.release l)) _ :=
        hrel.link (h.place_of_holds hc) (hpeer child rfl hacc) hacc hfresh
      exact ⟨_, some.inj hs ▸ hlink⟩
    · exact ⟨place, some.inj hs ▸ hrel⟩

/-! ### Accepting and binding -/

lemma Inv.pushAccepted (h : Inv (s.push (.accept a)) place)
    (hplace : place child = some (.accepted a)) (hcount : s.pend.count (.accepted a child) = 0) :
    Inv (s.push (.accepted a child)) place := by
  refine h.pop.enter (fun x => ?_) (fun _ => rfl) nofun nofun fun l x hx => ?_
  · have hsame : (Cont.accepted a child).holds x = (Cont.accept a).holds x := rfl
    have hle := h.holds x
    rw [Sys.holds, Sys.push, List.countP_cons] at hle ⊢
    rwa [hsame]
  · cases hx
    exact ⟨hplace, hcount⟩

lemma Inv.acceptTurn (h : Inv (s.push (.accept a)) place) (stop : Bool) :
    ∃ place', Inv (s.acceptTurn a stop) place' := by
  have hc : (Cont.accept a).holds a = true := by simp [Cont.holds]
  unfold Sys.acceptTurn
  split
  next hlisten =>
    obtain ⟨k, hk⟩ : ∃ k, s.sock a = some k := by
      refine ne_none_iff_exists'.1 fun hnone => ?_
      rw [hnone] at hlisten
      cases hlisten
    cases hbl : s.bl a with
    | nil =>
      cases stop with
      | true => exact ⟨place, h.toPut hc⟩
      | false => exact ⟨place, h⟩
    | cons child rest =>
      have hmem : ∀ x ∈ child :: rest, place x = some (.backlog a) := fun x hx =>
        h.backlog a x (show x ∈ s.bl a from hbl ▸ hx)
      have hnodup : (child :: rest).Nodup := hbl ▸ h.nodup a
      have hchild := hmem child List.mem_cons_self
      have hcut := h.setBacklog (f := dequeued rest) hk
        (fun x hx => hmem x (List.mem_cons_of_mem _ hx)) hnodup.of_cons
      have hadrift : ((s.push (.accept a)).modify a (dequeued rest)).Adrift child := by
        refine hcut.adrift_at hchild ?_
        rw [Sys.Left, Sys.bl, modify_self, show (s.push (.accept a)).sock a = some k from hk]
        exact (List.nodup_cons.1 hnodup).1
      have hmoved := hcut.setPlace (q := some (.accepted a)) (by simp) (by simp [hchild])
        hadrift
      refine ⟨_, Inv.pushAccepted hmoved (update_self ..) ?_⟩
      have hzero := hadrift.accepted a
      rwa [show (Sys.modify _ a (dequeued rest)).pend = accept a :: s.pend from rfl,
        List.count_cons_of_ne (by simp)] at hzero
  · exact ⟨place, h.toPut hc⟩

lemma Inv.acceptFinish (h : Inv (s.push (.accepted a child)) place) (ok : Bool) :
    ∃ place', Inv (s.acceptFinish a child ok) place' := by
  have hc : (Cont.accepted a child).holds a = true := by simp [Cont.holds]
  have haccepted := h.accepted a child
  rw [Sys.push, List.count_cons_self] at haccepted
  have hplace : place child = some (.accepted a) := by
    by_contra hne
    rw [if_neg hne] at haccepted
    omega
  rw [if_pos hplace] at haccepted
  have hsome : place child ≠ none := by
    rw [hplace]
    rintro ⟨⟩
  have hput := h.toPut hc
  have hadrift : (s.push (.put a)).Adrift child := by
    refine hput.adrift_at hplace ?_
    rw [Sys.Left, Sys.push, List.count_cons_of_ne (by simp)]
    omega
  cases ok with
  | true =>
    have hfile := hput.setPlace (q := some .file) (by simp) hsome hadrift
    have hmod := hfile.modify (a := child) (f := fun k => { k with state := .connected })
      fun _ _ => by simp
    refine ⟨_, hmod.setFCount (fun _ => update_self ..) ?_⟩
    exact (hput.holds child).trans (hadrift.fCount.le.trans (zero_le _))
  | false =>
    have hback := hput.setPlace (q := some (.backlog a)) (by simp) hsome hadrift
    obtain ⟨k, hk⟩ : ∃ k, s.sock a = some k := by
      refine exists_of_uc_pos (hput.uc_pos (a := a) ?_)
      rw [h.place_of_holds hc]
      rintro ⟨⟩
    have hbl : s.bl a = k.backlog := by
      rw [Sys.bl, hk]
      rfl
    refine ⟨_, hback.setBacklog (f := requeued child) hk ?_ ?_⟩
    · intro x hx
      rcases List.mem_cons.1 hx with rfl | hold
      · exact update_self ..
      · exact hback.backlog a x (show x ∈ s.bl a from hbl ▸ hold)
    · refine List.nodup_cons.2 ⟨fun hmem => hadrift.backlog a ?_, ?_⟩
      · exact (show child ∈ s.bl a from hbl ▸ hmem)
      · exact hbl ▸ h.nodup a

lemma Inv.bindCommit {path : ℕ} (h : Inv (s.push c) place) (ok : Bool) :
    Inv ((s.bindCommit a path ok).push c) place := by
  unfold Sys.bindCommit
  split_ifs
  · refine (h.modify (f := bound path) fun k hk => ?_).names _
    unfold bound
    split_ifs
    · exact nofun
    · exact hk
  · exact h.modify fun _ hk => hk

/-! ### Runs -/

/-- No connection is made for a socket that has a peer. -/
def Unpaired (s : Sys) : Act → Prop
  | .go (.connect a l) (some _) => s.Accepts l → s.peerOf a = none
  | _ => True

instance (s : Sys) (act : Act) : Decidable (Unpaired s act) := by
  unfold Unpaired
  split <;> infer_instance

lemma Inv.resume (h : Inv (s.push c) place) {o : Option ℕ}
    (hpeer : ∀ a l child, c = .connect a l → o = some child → s.Accepts l → s.peerOf a = none)
    (hs : s.resume c o = some s') : ∃ place', Inv s' place' := by
  cases c with
  | bind a path =>
    have hput := h.toPut (a := a) (by simp [Cont.holds])
    exact ⟨place, some.inj hs ▸ hput.bindCommit o.isSome⟩
  | lookup a path => exact ⟨place, some.inj hs ▸ h.connectLookup⟩
  | connect a l => exact h.connectLink (fun child ho hacc => hpeer a l child rfl ho hacc) hs
  | connectDgram a t => exact ⟨place, some.inj hs ▸ h.connectDgram⟩
  | accept a => exact some.inj hs ▸ h.acceptTurn o.isSome
  | accepted a child => exact some.inj hs ▸ h.acceptFinish o.isSome
  | put a =>
    refine some.inj hs ▸ h.pop.filePut ?_
    have hle := h.holds a
    rwa [Sys.holds, Sys.push, List.countP_cons_of_pos (by simp [Cont.holds])] at hle
  | close a => exact some.inj hs ▸ h.unixSockClose
  | release a => exact ⟨place, some.inj hs ▸ h.unixSockRelease⟩
  | free a => exact some.inj hs ▸ h.unixSockFree

lemma Inv.newFile (h : Inv s place) (hplace : place a = some .file) (hzero : s.fCount a = 0) :
    Inv (s.setFCount a 1) place :=
  h.setFCount (fun _ => hplace) ((h.holds a).trans (hzero.le.trans (zero_le _)))

lemma Inv.socket (h : Inv s place) {type : SockType} (ha : s.sock a = none) :
    ∃ place', Inv ((s.setSock a (some (Sock.alloc type))).setFCount a 1) place' := by
  have hzero := (h.adrift (h.of_none ha).1).fCount
  have hnew := h.alloc (k := Sock.alloc type) (q := .file) ha rfl rfl rfl nofun
  exact ⟨_, hnew.newFile (update_self ..) hzero⟩

lemma setSock_modify_comm {k : Option Sock} (hne : a ≠ b) :
    (s.setSock b k).modify a f = (s.modify a f).setSock b k := by
  unfold Sys.modify Sys.setSock
  simp only [update_of_ne hne]
  rw [update_comm hne]

lemma Inv.socketpair (h : Inv s place) {type : SockType} (ha : s.sock a = none)
    (hb : s.sock b = none) (hne : a ≠ b) :
    ∃ place', Inv ((((s.setSock a (some (Sock.paired type b))).setSock b
      (some (Sock.paired type a))).setFCount a 1).setFCount b 1) place' := by
  have hza := (h.adrift (h.of_none ha).1).fCount
  have hzb := (h.adrift (h.of_none hb).1).fCount
  have hfirst := h.alloc (k := Sock.alloc type) (q := .file) ha rfl rfl rfl (by rintro ⟨⟩)
  have hsecond := hfirst.alloc (k := Sock.alloc type) (q := .file)
    ((setSock_of_ne hne.symm).trans hb) rfl rfl rfl (by rintro ⟨⟩)
  have hplace : ∀ x, x = a ∨ x = b → update (update place a (some Place.file)) b
      (some .file) x = some .file := by
    intro x hx
    by_cases hxb : x = b
    · rw [hxb]
      exact update_self ..
    · rw [update_of_ne hxb, hx.resolve_right hxb]
      exact update_self ..
  have hatt := hsecond.attach (a := a) (b := b)
    (f := connectTo a) (g := connectTo b) ?_ ?_ ?_ ?_ hne
    ⟨fun _ => rfl, fun _ => rfl, fun _ => rfl⟩ (by rintro _ ⟨⟩) ⟨fun _ => rfl, fun _ =>
    rfl, fun _ => rfl⟩
    (by rintro _ ⟨⟩)
  · rw [setSock_modify, setSock_modify_comm hne, setSock_modify] at hatt
    refine ⟨_, (hatt.newFile (hplace a (Or.inl rfl)) hza).newFile (hplace b (Or.inr rfl)) ?_⟩
    exact (update_of_ne hne.symm ..).trans hzb
  · rw [Sys.peerOf, setSock_of_ne hne, setSock_self]
    rfl
  · rw [Sys.peerOf, setSock_self]
    rfl
  · rw [hplace a (Or.inl rfl)]
    rintro ⟨⟩
  · rw [hplace b (Or.inr rfl)]
    rintro ⟨⟩

lemma Inv.step {act : Act} (h : Inv s place) (hC : Unpaired s act) (hs : step s act = some s') :
    ∃ place', Inv s' place' := by
  cases act with
  | socket a type =>
    obtain ⟨ha, rfl⟩ := of_guard hs
    exact h.socket ha
  | socketpair a b type =>
    obtain ⟨⟨ha, hb, hne⟩, rfl⟩ := of_guard hs
    exact h.socketpair ha hb hne
  | listen a backlog =>
    obtain ⟨-, rfl⟩ := of_guard hs
    refine ⟨place, ?_⟩
    exact h.modify fun _ _ => nofun
  | bind a path =>
    obtain ⟨hfd, hs⟩ := ite_none_right_eq_some.1 hs
    split at hs
    · have hmod := h.modify (a := a) (f := fun k => { k with bindInProgress := true })
        fun _ hk => hk
      refine ⟨place, some.inj hs ▸ hmod.begin hfd rfl (fun _ => rfl) fun x hx => ?_⟩
      simpa [Cont.holds, eq_comm] using hx
    · exact ⟨place, some.inj hs ▸ h⟩
  | connect a path | accept a =>
    obtain ⟨hfd, rfl⟩ := of_guard hs
    refine ⟨place, h.begin hfd rfl (fun _ => rfl) fun x hx => ?_⟩
    simpa [Cont.holds, eq_comm] using hx
  | dup a =>
    obtain ⟨hfd, rfl⟩ := of_guard hs
    refine ⟨place, ?_⟩
    exact h.setFCount (fun _ => h.file a (zero_lt_of_lt hfd)) (le_succ_of_le (h.holds a))
  | close a =>
    obtain ⟨hfd, rfl⟩ := of_guard hs
    exact h.filePut hfd
  | send a =>
    obtain ⟨-, rfl⟩ := of_guard hs
    refine ⟨place, ?_⟩
    cases s.peerOf a with
    | none => exact h
    | some b => exact h.borrow b
  | go c o =>
    obtain ⟨hc, hs⟩ := ite_none_right_eq_some.1 hs
    refine (h.front hc).resume (fun a l child hcl ho hacc => ?_) hs
    subst hcl
    subst ho
    exact hC hacc

lemma peerOf_link_of_ne (ha : x ≠ a) (hc : x ≠ child) :
    (s.link a l child).peerOf x = s.peerOf x := by
  unfold Sys.link
  rw [peerOf_modify (f := enqueued child) fun _ => rfl, peerOf_of_ne ha, Sys.peerOf,
    setSock_of_ne hc, Sys.peerOf]

lemma peerOf_link_self (ha : s.sock a ≠ none) (hc : a ≠ child) :
    (s.link a l child).peerOf a = some child := by
  unfold Sys.link
  rw [peerOf_modify (f := enqueued child) fun _ => rfl]
  refine peerOf_modify_self (fun _ => rfl) ?_
  rw [setSock_of_ne hc]
  exact ha

/-- Connecting a socket that has a peer leaves that peer with a link to a socket which is linked to
another. -/
lemma Inv.paired (h : Inv s place) {act : Act} (hC : ¬ Unpaired s act)
    (hs : UnixSock.step s act = some s') : ¬ s'.PeersOk := by
  unfold Unpaired at hC
  split at hC
  · next a l child =>
    rw [Classical.not_imp] at hC
    obtain ⟨hacc, hpeer⟩ := hC
    obtain ⟨b, hab⟩ := ne_none_iff_exists'.1 hpeer
    obtain ⟨hba, hplace, hne⟩ := h.peers a b hab
    obtain ⟨-, hs⟩ := ite_none_right_eq_some.1 hs
    -- the section makes the connection
    have hlink : s.sock child = none ∧ s'.sock = (s.link a l child).sock := by
      simp only [Sys.resume, Sys.connectLink] at hs
      rw [if_pos (show Sys.Accepts { s with pend := s.pend.erase (.connect a l) } l
        from hacc)] at hs
      obtain ⟨hfresh, rfl⟩ := of_guard hs
      exact ⟨hfresh, rfl⟩
    obtain ⟨hfresh, hsock⟩ := hlink
    have hpeerOf : ∀ x, s'.peerOf x = (s.link a l child).peerOf x := by
      intro x
      rw [Sys.peerOf, hsock, Sys.peerOf]
    have hbc : b ≠ child := by
      rintro rfl
      exact hplace (h.of_none hfresh).1
    have halloc : s.sock a ≠ none := by
      intro hnone
      rw [Sys.peerOf, hnone] at hab
      exact nomatch hab
    have hac : a ≠ child := by
      rintro rfl
      exact halloc hfresh
    intro hok
    obtain ⟨k, hk, -, hkb⟩ := hok b a (by rw [hpeerOf, peerOf_link_of_ne hne.symm hbc, hba])
    have hself : s'.peerOf a = some child := (hpeerOf a).trans (peerOf_link_self halloc hac)
    rw [Sys.peerOf, hk] at hself
    exact hbc (some.inj (hkb.symm.trans hself))
  · exact absurd trivial hC

/-- In a run the peer links are in order in every state exactly when no connection is made for a
socket that has a peer. -/
theorem peers_symmetric_iff (as : List Act) (hs : exec step Sys.init as = some s) :
    Meets step Unpaired Sys.init as ↔
      ∀ bs u, bs <+: as → exec step Sys.init bs = some u → u.PeersOk := by
  refine meets_iff_of_exact (I := fun s => ∃ place, Inv s place) (fun _ ⟨_, h⟩ => h.peersOk)
    (fun _ _ _ ⟨_, h⟩ hC hs => h.step hC hs) (fun _ _ _ ⟨_, h⟩ hC hs => h.paired hC hs) as _ _
    ⟨_, Inv.init⟩ hs

/-- A client connects, is accepted, sends a message and closes. -/
def connectOnce : List Act :=
  [.socket 1 .stream, .bind 1 7, .go (.bind 1 7) (some 0), .go (.put 1) none, .listen 1 4,
    .socket 2 .stream, .connect 2 7, .go (.lookup 2 7) none, .go (.connect 2 1) (some 3),
    .go (.release 1) none, .go (.put 2) none, .accept 1, .go (.accept 1) none,
    .go (.accepted 1 3) (some 0), .go (.put 1) none, .send 2, .close 2, .go (.close 2) none]

theorem peers_symmetric_iff_accepted :
    ∃ s, exec step Sys.init connectOnce = some s ∧
      ∀ bs u, bs <+: connectOnce → exec step Sys.init bs = some u → u.PeersOk := by
  exact exists_some_of (by decide +kernel) fun s hs =>
    (peers_symmetric_iff connectOnce hs).1 (by decide +kernel)

def connectTwice : List Act :=
  [.socket 1 .stream, .bind 1 7, .go (.bind 1 7) (some 0), .go (.put 1) none, .listen 1 4,
    .socket 2 .stream, .connect 2 7, .go (.lookup 2 7) none, .go (.connect 2 1) (some 3),
    .go (.release 1) none, .go (.put 2) none, .connect 2 7, .go (.lookup 2 7) none,
    .go (.connect 2 1) (some 4), .go (.release 1) none, .go (.put 2) none]

/-- After the second connection the first one is still linked to the client, which is linked to the
second; and after the client is closed the first one is linked to freed memory. -/
theorem peers_not_symmetric :
    (∃ s, exec step Sys.init connectTwice = some s ∧ s.peerOf 3 = some 2 ∧ s.peerOf 2 = some 4 ∧
      ¬ s.PeersOk) ∧
    (∃ s, exec step Sys.init (connectTwice ++ [.close 2, .go (.close 2) none,
        .go (.release 4) none, .go (.release 2) none, .go (.free 2) none]) = some s ∧
      s.peerOf 3 = some 2 ∧ s.sock 2 = none ∧ ¬ s.PeersOk) := by
  constructor
  · obtain ⟨s, hs, hthree, htwo⟩ : ∃ s, exec step Sys.init connectTwice = some s ∧
        s.peerOf 3 = some 2 ∧ s.peerOf 2 = some 4 := by decide +kernel
    refine ⟨s, hs, hthree, htwo, fun hok => ?_⟩
    obtain ⟨k, hk, -, hpeer⟩ := hok 3 2 hthree
    rw [Sys.peerOf, hk] at htwo
    cases hpeer.symm.trans htwo
  · obtain ⟨s, hs, hthree, htwo⟩ : ∃ s, exec step Sys.init (connectTwice ++ [.close 2,
        .go (.close 2) none, .go (.release 4) none, .go (.release 2) none, .go (.free 2) none]) =
        some s ∧ s.peerOf 3 = some 2 ∧ s.sock 2 = none := by decide +kernel
    refine ⟨s, hs, hthree, htwo, fun hok => ?_⟩
    obtain ⟨k, hk, -⟩ := hok 3 2 hthree
    cases hk.symm.trans htwo

end XosKernel.UnixSock
