/-
# Files passed over a unix socket

Every reference that a send has put into a buffer is in one place: in the queue, in one descriptor
of the receiver, or it has been given back once. A descriptor that holds a reference either has been
reported by a receive, or is listed by a receive that has not returned yet and will report it or
take it back.

The places are kept in a ledger, and each operation of the code moves references between its
columns. This needs every send to take no more references than a buffer has room for, and every
receive that has installed descriptors to return them: it does not go on to another buffer, and no
copy after the control message fails.
-/
import XosKernel.Net.UnixStream

namespace XosKernel.UnixMsg

open Option Function List State

/-! ## Counting descriptors -/

/-- The number of descriptors that hold the reference `k`. -/
def countRef (fds : ℕ → Slot) (k : ℕ) : ℕ :=
  ((Finset.range maxFd).filter fun fd => fds fd = .ref k).card

section CountRef

variable {fds : ℕ → Slot} {fd : ℕ}

lemma countRef_update (fds : ℕ → Slot) (hfd : fd < maxFd) (x : Slot) (k : ℕ) :
    countRef (update fds fd x) k + (if fds fd = .ref k then 1 else 0) =
      countRef fds k + if x = .ref k then 1 else 0 := by
  have hmem : fd ∈ Finset.range maxFd := Finset.mem_range.2 hfd
  rw [countRef, countRef, Finset.card_filter, Finset.card_filter,
    ← Finset.add_sum_erase _ _ hmem, ← Finset.add_sum_erase _ _ hmem, update_self]
  have hrest : ∑ j ∈ (Finset.range maxFd).erase fd, (if update fds fd x j = .ref k then 1 else 0) =
      ∑ j ∈ (Finset.range maxFd).erase fd, if fds j = .ref k then 1 else 0 :=
    Finset.sum_congr rfl fun j hj => by rw [update_of_ne (Finset.ne_of_mem_erase hj)]
  omega

lemma countRef_pos {k : ℕ} (hfd : fd < maxFd) (h : fds fd = .ref k) : 0 < countRef fds k :=
  Finset.card_pos.2 ⟨fd, Finset.mem_filter.2 ⟨Finset.mem_range.2 hfd, h⟩⟩

lemma eq_of_countRef_le_one {fd' k : ℕ} (hle : countRef fds k ≤ 1) (hfd : fd < maxFd)
    (h : fds fd = .ref k) (hfd' : fd' < maxFd) (h' : fds fd' = .ref k) : fd = fd' :=
  Finset.card_le_one.1 hle fd (Finset.mem_filter.2 ⟨Finset.mem_range.2 hfd, h⟩) fd'
    (Finset.mem_filter.2 ⟨Finset.mem_range.2 hfd', h'⟩)

end CountRef

/-! ## The ledger -/

/-- Where the references are: `queued` are those in the queue, and `held` are the descriptors that
receives have installed and not yet reported. -/
structure Ledger (queued : List ℕ) (released : ℕ → ℕ) (fds : ℕ → Slot) (reported : List ℕ)
    (next : ℕ) (held : List ℕ) : Prop where
  once : ∀ k, queued.count k + released k + countRef fds k = if k < next then 1 else 0
  known : ∀ fd < maxFd, ∀ k, fds fd = .ref k → k ∈ reported ∨ fd ∈ held
  unreported : ∀ fd ∈ held, fd < maxFd ∧ ∃ k, fds fd = .ref k ∧ k ∉ reported
  nodup : held.Nodup
  past : ∀ k ∈ reported, k < next ∧ k ∉ queued

namespace Ledger

variable {queued q : List ℕ} {released : ℕ → ℕ} {fds : ℕ → Slot} {reported : List ℕ} {next : ℕ}
  {held : List ℕ} {fd k : ℕ}

section

variable (h : Ledger queued released fds reported next held)
include h

lemma perm {held' : List ℕ}
    (hp : held.Perm held') : Ledger queued released fds reported next held' where
  __ := h
  known := fun fd hfd k hk => (h.known fd hfd k hk).imp_right hp.mem_iff.1
  unreported := fun fd hfd => h.unreported fd (hp.mem_iff.2 hfd)
  nodup := hp.nodup_iff.1 h.nodup

lemma countRef_le_one (k : ℕ) : countRef fds k ≤ 1 := by
  have := h.once k
  split_ifs at this <;> omega

lemma lt_and_not_mem (hfd : fd < maxFd) (hk : fds fd = .ref k) : k < next ∧ k ∉ queued := by
  have hpos := countRef_pos hfd hk
  have honce := h.once k
  split_ifs at honce with hlt
  · exact ⟨hlt, count_eq_zero.1 (by omega)⟩
  · omega

lemma send (n : ℕ) :
    Ledger (queued ++ (range n).map (next + ·)) released fds reported (next + n) held where
  __ := h
  once := by
    intro k
    have hcount : ((List.range n).map (next + ·)).count k =
        if next ≤ k ∧ k < next + n then 1 else 0 := by
      rw [(nodup_range.map fun a b hab => Nat.add_left_cancel hab).count]
      refine if_congr ?_ rfl rfl
      simp only [List.mem_map, List.mem_range]
      exact ⟨by rintro ⟨a, ha, rfl⟩; omega, fun hk => ⟨k - next, by omega, by omega⟩⟩
    have honce := h.once k
    rw [count_append, hcount]
    split_ifs at honce ⊢ <;> omega
  past := by
    intro k hk
    obtain ⟨hlt, hq⟩ := h.past k hk
    refine ⟨by omega, fun hmem => ?_⟩
    obtain hmem | hmem := mem_append.1 hmem
    · exact hq hmem
    · obtain ⟨a, -, rfl⟩ := mem_map.1 hmem
      omega

omit h in
lemma release {refs : List ℕ} (h : Ledger (refs ++ queued) released fds reported next held) :
    Ledger queued (fun k => released k + refs.count k) fds reported next held where
  __ := h
  once := by
    intro k
    have := h.once k
    rw [count_append] at this
    omega
  past := fun k hk => ⟨(h.past k hk).1, fun hq => (h.past k hk).2 (mem_append_right _ hq)⟩

omit h in
lemma installOne (h : Ledger (k :: queued) released fds reported next held) (hfd : fd < maxFd)
    (hfree : fds fd = .free) :
    Ledger queued released (update fds fd (.ref k)) reported next (fd :: held) where
  once := by
    intro j
    have honce := h.once j
    have hupd := countRef_update fds hfd (.ref k) j
    rw [hfree, if_neg nofun] at hupd
    rw [count_cons] at honce
    simp only [Slot.ref.injEq, beq_iff_eq] at hupd honce
    omega
  known := by
    intro fd' hfd' j hj
    by_cases heq : fd' = fd
    · exact .inr (heq ▸ mem_cons_self)
    · rw [update_of_ne heq] at hj
      exact (h.known fd' hfd' j hj).imp_right (mem_cons_of_mem _)
  unreported := by
    intro fd' hfd'
    by_cases heq : fd' = fd
    · subst heq
      refine ⟨hfd, k, update_self .., fun hk => ?_⟩
      exact (h.past k hk).2 mem_cons_self
    · rw [update_of_ne heq]
      exact h.unreported fd' ((mem_cons.1 hfd').resolve_left heq)
  nodup := by
    refine nodup_cons.2 ⟨fun hmem => ?_, h.nodup⟩
    obtain ⟨-, j, hj, -⟩ := h.unreported fd hmem
    exact nomatch hfree.symm.trans hj
  past := fun j hj => ⟨(h.past j hj).1, fun hq => (h.past j hj).2 (mem_cons_of_mem _ hq)⟩

/-- A descriptor that holds a reference is closed, and is one of a receive or has been reported. -/
lemma uninstall (hfd : fd < maxFd)
    (hk : fds fd = .ref k) {held' : List ℕ} (hsub : held'.Sublist held) (hout : fd ∉ held')
    (hkeep : ∀ fd' ∈ held, fd' ≠ fd → fd' ∈ held') :
    Ledger queued (fun j => released j + [k].count j) (update fds fd .free) reported next
      held' where
  once := by
    intro j
    have honce := h.once j
    have hupd := countRef_update fds hfd .free j
    rw [count_cons, count_nil]
    simp only [hk, Slot.ref.injEq, beq_iff_eq, reduceCtorEq, if_false] at hupd ⊢
    omega
  known := by
    intro fd' hfd' j hj
    by_cases heq : fd' = fd
    · rw [heq, update_self] at hj
      exact nomatch hj
    · rw [update_of_ne heq] at hj
      exact (h.known fd' hfd' j hj).imp_right fun hmem => hkeep fd' hmem heq
  unreported := by
    intro fd' hfd'
    have hne : fd' ≠ fd := fun heq => hout (heq ▸ hfd')
    rw [update_of_ne hne]
    exact h.unreported fd' (hsub.subset hfd')
  nodup := h.nodup.sublist hsub
  past := h.past

omit h in
lemma reportOne (h : Ledger queued released fds reported next (fd :: held)) (hk : fds fd = .ref k) :
    Ledger queued released fds (reported ++ [k]) next held where
  once := h.once
  known := by
    intro fd' hfd' j hj
    obtain hmem | hmem := h.known fd' hfd' j hj
    · exact .inl (mem_append_left _ hmem)
    · obtain rfl | hmem := mem_cons.1 hmem
      · exact .inl (mem_append_right _ (mem_singleton.2 (Slot.ref.inj (hj.symm.trans hk))))
      · exact .inr hmem
  unreported := by
    intro fd' hfd'
    obtain ⟨hlt, j, hj, hnew⟩ := h.unreported fd' (mem_cons_of_mem _ hfd')
    refine ⟨hlt, j, hj, fun hmem => ?_⟩
    obtain hmem | hmem := mem_append.1 hmem
    · exact hnew hmem
    · -- two descriptors would hold the same reference
      obtain rfl := mem_singleton.1 hmem
      have hfd := (h.unreported fd mem_cons_self).1
      have heq := eq_of_countRef_le_one (h.countRef_le_one j) hfd hk hlt hj
      exact (nodup_cons.1 h.nodup).1 (heq ▸ hfd')
  nodup := (nodup_cons.1 h.nodup).2
  past := by
    intro j hj
    obtain hj | hj := mem_append.1 hj
    · exact h.past j hj
    · obtain rfl := mem_singleton.1 hj
      exact h.lt_and_not_mem (h.unreported fd mem_cons_self).1 hk

lemma other (hfd : fd < maxFd) {x : Slot}
    (hold : ∀ k, fds fd ≠ .ref k) (hx : ∀ k, x ≠ .ref k) :
    Ledger queued released (update fds fd x) reported next held where
  __ := h
  once := by
    intro j
    have hupd := countRef_update fds hfd x j
    rw [if_neg (hold j), if_neg (hx j)] at hupd
    rw [← h.once j]
    omega
  known := by
    intro fd' hfd' j hj
    by_cases heq : fd' = fd
    · rw [heq, update_self] at hj
      exact absurd hj (hx j)
    · rw [update_of_ne heq] at hj
      exact h.known fd' hfd' j hj
  unreported := by
    intro fd' hfd'
    obtain ⟨hlt, j, hj, hnew⟩ := h.unreported fd' hfd'
    have hne : fd' ≠ fd := fun heq => hold j (heq ▸ hj)
    exact ⟨hlt, j, by rwa [update_of_ne hne], hnew⟩

end

lemma install {refs : List ℕ} : ∀ {s : State} {fds held : List ℕ}, fds.length = refs.length →
    fds.Nodup → (∀ fd ∈ fds, fd < maxFd ∧ s.fds fd = .free) →
    Ledger (refs ++ queued) s.released s.fds s.reported s.next held →
    Ledger queued s.released ((fds.zip refs).foldl State.fdInstall s).fds s.reported s.next
      (fds ++ held) := by
  induction refs with
  | nil =>
    intro s fds held hlen _ _ h
    obtain rfl := length_eq_zero_iff.1 hlen
    exact h
  | cons k refs ih =>
    intro s fds held hlen hnd hfree h
    cases fds with
    | nil => exact nomatch hlen
    | cons fd fds =>
      obtain ⟨hfd, hnd⟩ := nodup_cons.1 hnd
      obtain ⟨hlt, hfd0⟩ := hfree fd mem_cons_self
      have hrest : ∀ fd' ∈ fds, fd' < maxFd ∧ (s.fdInstall (fd, k)).fds fd' = .free := by
        intro fd' hfd'
        obtain ⟨hlt', hfree'⟩ := hfree fd' (mem_cons_of_mem _ hfd')
        have hne : fd' ≠ fd := fun heq => hfd (heq ▸ hfd')
        exact ⟨hlt', (update_of_ne hne _ _).trans hfree'⟩
      have hall := ih (s := s.fdInstall (fd, k)) (Nat.succ.inj hlen) hnd hrest
        (h.installOne hlt hfd0)
      exact hall.perm perm_middle

lemma rollback {fds : List ℕ} : ∀ {s : State} {held : List ℕ},
    Ledger queued s.released s.fds s.reported s.next (fds ++ held) →
    Ledger queued (fds.foldl State.fdUninstall s).released (fds.foldl State.fdUninstall s).fds
      s.reported s.next held := by
  induction fds with
  | nil => exact fun h => h
  | cons fd fds ih =>
    intro s held h
    obtain ⟨hlt, k, hk, -⟩ := h.unreported fd mem_cons_self
    have hone := h.uninstall hlt hk (sublist_cons_self _ _) (nodup_cons.1 h.nodup).1
      fun fd' hmem hne => (mem_cons.1 hmem).resolve_left hne
    have heq : s.fdUninstall fd = { s with fds := update s.fds fd .free }.release [k] := by
      rw [fdUninstall, hk]
    rw [foldl_cons, heq]
    exact ih hone

lemma report {s : State} {fds : List ℕ} : ∀ {reported held : List ℕ},
    Ledger queued s.released s.fds reported s.next (fds ++ held) →
    Ledger queued s.released s.fds (reported ++ fds.flatMap s.refAt) s.next held := by
  induction fds with
  | nil =>
    intro reported held h
    rwa [flatMap_nil, append_nil]
  | cons fd fds ih =>
    intro reported held h
    obtain ⟨hlt, k, hk, -⟩ := h.unreported fd mem_cons_self
    have hall := ih (h.reportOne hk)
    have heq : s.refAt fd = [k] := by rw [refAt, hk]
    rwa [append_assoc, ← heq, ← flatMap_cons] at hall

end Ledger

/-! ## The invariant -/

/-- The descriptors that a receive would report now. -/
def Call.listed (c : Call) : List ℕ := if c.ctlLen = 0 then [] else c.ctlFds

/-- What descriptor passing promises: no buffer holds more files than it has room for, each
reference that was sent is in one place, and each descriptor that holds one has been reported or
will be. -/
structure ScmExact (s : State) : Prop where
  small : ∀ skb ∈ s.queue, skb.files.length ≤ scmMaxFd
  once : ∀ k < s.next,
    (s.queue.flatMap Skb.files).count k + s.released k + countRef s.fds k = 1
  known : ∀ fd < maxFd, ∀ k, s.fds fd = .ref k → k ∈ s.reported ∨ ∃ c ∈ s.calls, fd ∈ c.listed

def State.Books (s : State) (held : List ℕ) : Prop :=
  Ledger (s.queue.flatMap Skb.files) s.released s.fds s.reported s.next held

/-- The invariant: the ledger, and a receive without a control buffer lists nothing. -/
structure ScmInv (s : State) : Prop where
  small : ∀ skb ∈ s.queue, skb.files.length ≤ scmMaxFd
  books : s.Books (s.calls.flatMap Call.listed)
  noCtl : ∀ c ∈ s.calls, c.ctlSize = 0 → c.listed = []

lemma ScmInv.exact {s : State} (h : ScmInv s) : ScmExact s where
  small := h.small
  once := fun k hk => (h.books.once k).trans (if_pos hk)
  known := fun fd hfd k hk => (h.books.known fd hfd k hk).imp_right mem_flatMap.1

/-- The invariant in the middle of a turn: `c` is what has become of the `i`-th call. -/
structure Mid (s : State) (i : ℕ) (c : Call) : Prop where
  small : ∀ skb ∈ s.queue, skb.files.length ≤ scmMaxFd
  books : s.Books (c.listed ++ (s.calls.eraseIdx i).flatMap Call.listed)
  noCtl : ∀ d ∈ s.calls.eraseIdx i, d.ctlSize = 0 → d.listed = []
  own : c.ctlSize = 0 → c.listed = []

variable {skb : Skb} {rest : List Skb}

section Mid

variable {s : State} {i : ℕ} {c : Call} {env : Env}

lemma flatMap_listed_perm {calls pre post : List Call} (h : calls = pre ++ c :: post) :
    (calls.flatMap Call.listed).Perm (c.listed ++ (pre ++ post).flatMap Call.listed) := by
  rw [h, flatMap_append, flatMap_cons, flatMap_append]
  exact perm_append_comm_assoc ..

lemma ScmInv.mid (h : ScmInv s) (hi : s.calls[i]? = some c) : Mid s i c := by
  obtain ⟨pre, post, hcalls, herase, -⟩ := exists_append_of_getElem? hi
  refine ⟨h.small, ?_, fun d hd => h.noCtl d (mem_of_mem_eraseIdx hd),
    h.noCtl c (mem_of_getElem? hi)⟩
  rw [herase]
  exact h.books.perm (flatMap_listed_perm hcalls)

namespace Mid

lemma again (h : Mid s i c) (hi : i < s.calls.length) :
    ScmInv { s with calls := s.calls.set i c } := by
  obtain ⟨pre, post, -, herase, hset⟩ := exists_append_of_getElem? (List.getElem?_eq_getElem hi)
  refine ⟨h.small, ?_, fun d hd => ?_⟩
  · have hbooks := h.books
    rw [herase] at hbooks
    exact hbooks.perm (flatMap_listed_perm (hset c)).symm
  · have hmem : d ∈ pre ++ c :: post := hset c ▸ hd
    obtain rfl | hmem := mem_cons.1 (perm_middle.mem_iff.1 hmem)
    · exact h.own
    · exact h.noCtl d (herase ▸ hmem)

lemma done (h : Mid s i c) (hc : c.listed = []) :
    ScmInv { s with calls := s.calls.eraseIdx i } := by
  have hbooks := h.books
  rw [hc, nil_append] at hbooks
  exact ⟨h.small, hbooks, h.noCtl⟩

end Mid

/-- Neither the copy of the sender's address nor that of the flags fails. -/
def Env.Quiet (env : Env) (dgram : Bool) : Prop :=
  env.flagsFail = false ∧ (dgram = true → env.nameFails = false)
deriving Decidable

namespace Mid

/-- The call returns: it reports its descriptors, or takes them back. -/
lemma ret (h : Mid s i c) (hq : env.Quiet s.dgram ∨ c.listed = []) (n : ℕ) :
    ScmInv ({ s with calls := s.calls.eraseIdx i }.finish c env n) := by
  by_cases hc : c.listed = []
  · -- nothing is listed, and whatever fails changes nothing
    have hdone := h.done hc
    rw [finish, publish]
    split_ifs with h1 h2 h3 h4
    · exact { hdone with }
    · rw [scmRollback]
      split_ifs with h0
      · exact { hdone with }
      · rw [Call.listed, if_neg h0] at hc
        rw [hc]
        exact { hdone with }
    · exact { hdone with }
    · exact { hdone with }
    · rw [Call.listed, if_neg h4] at hc
      simp only [hc, flatMap_nil, append_nil]
      exact { hdone with }
  · obtain ⟨hflags, hname⟩ := hq.resolve_right hc
    have h0 : c.ctlLen ≠ 0 := fun h0 => hc (if_pos h0)
    have hlisted : c.listed = c.ctlFds := if_neg h0
    have hbooks := h.books
    rw [hlisted] at hbooks
    rw [finish, publish, if_neg fun hd => Bool.false_ne_true ((hname hd.1).symm.trans hd.2)]
    split_ifs with h1 h2
    · rw [scmRollback, if_neg h0]
      obtain ⟨f, r, heq⟩ := foldl_fdUninstall_eq c.ctlFds
        { s with
          calls := s.calls.eraseIdx i
          received := s.received ++ Scatter.readBack 0 n c.view }
      have hroll := Ledger.rollback (s := { s with
          calls := s.calls.eraseIdx i
          received := s.received ++ Scatter.readBack 0 n c.view }) hbooks
      rw [heq] at hroll ⊢
      exact ⟨h.small, hroll, h.noCtl⟩
    · exact absurd (hflags.symm.trans h2) Bool.false_ne_true
    · exact ⟨h.small, Ledger.report hbooks, h.noCtl⟩

lemma takeFiles (h : Mid s i c) (hc : c.listed = [])
    (hq : s.queue = skb :: rest) {c' : Call} (hsize : c'.ctlSize = c.ctlSize) :
    Mid ({ s with queue := rest }.takeFiles c' skb.files).1 i
        ({ s with queue := rest }.takeFiles c' skb.files).2.1 ∧
      (({ s with queue := rest }.takeFiles c' skb.files).2.2 ≠ none ∨ skb.files = [] ∨
          c.ctlSize = 0 →
        ({ s with queue := rest }.takeFiles c' skb.files).2.1.listed = []) := by
  have hfiles : skb.files.take scmMaxFd = skb.files :=
    take_of_length_le (h.small skb (hq ▸ mem_cons_self))
  have hsmall : ∀ x ∈ rest, x.files.length ≤ scmMaxFd := fun x hx =>
    h.small x (hq ▸ mem_cons_of_mem _ hx)
  have hbooks := h.books
  rw [hc, List.nil_append, State.Books, hq, List.flatMap_cons] at hbooks
  rw [State.takeFiles]
  split
  next hnil =>
    rw [hnil, nil_append] at hbooks
    exact ⟨⟨hsmall, hbooks, h.noCtl, fun _ => rfl⟩, fun _ => rfl⟩
  next hnil =>
  rw [scmInstall, hfiles]
  split_ifs with hroom hfree
  · exact ⟨⟨hsmall, hbooks.release, h.noCtl, fun _ => rfl⟩, fun _ => rfl⟩
  · exact ⟨⟨hsmall, hbooks.release, h.noCtl, fun _ => rfl⟩, fun _ => rfl⟩
  -- the descriptors are distinct and free
  obtain ⟨f, heq⟩ := foldl_fdInstall_eq
    (({ s with queue := rest }.freeFds.take skb.files.length).zip skb.files) { s with queue :=
    rest }
  have hinst := Ledger.install (s := { s with queue := rest })
    (length_take_of_le (not_lt.1 hfree))
    ((nodup_range.filter _).sublist (take_sublist _ _))
    (fun fd hfd => by
      obtain ⟨hlt, hfd0⟩ := mem_filter.1 (mem_of_mem_take hfd)
      exact ⟨mem_range.1 hlt, of_decide_eq_true hfd0⟩) hbooks
  rw [heq] at hinst ⊢
  have hlisted : ({ c' with
      ctlLen := cmsgHdrLen + 4 * skb.files.length
      ctlFds := { s with queue := rest }.freeFds.take skb.files.length }).listed =
        { s with queue := rest }.freeFds.take skb.files.length := if_neg (by simp [cmsgHdrLen])
  refine ⟨⟨hsmall, ?_, h.noCtl, fun h0 => absurd (.inl h0) hroom⟩, ?_⟩
  · rw [hlisted]
    exact hinst
  · rintro (hno | hno | hno)
    · exact absurd rfl hno
    · exact absurd hno hnil
    · exact absurd (.inl (hsize.trans hno)) hroom

lemma after (h : Mid s i c) (hi : i < s.calls.length) {e : Option Errno}
    (he : e ≠ none → c.listed = []) (hq : env.Quiet s.dgram ∨ c.listed = []) :
    ScmInv (s.settle i env (c.after e)) := by
  cases e with
  | some e => exact h.done (he nofun)
  | none =>
    change ScmInv (s.settle i env c.more)
    rw [Call.more]
    split
    · exact h.ret hq _
    · exact h.again hi

end Mid

end Mid

/-! ## Steps -/

/-- The number of descriptors that the messages of a control buffer list from an offset on. -/
def controlFds (cmsg : ℕ → Cmsg) (controllen offset : ℕ) : ℕ :=
  if controllen < offset + cmsgHdrLen ∨ (cmsg offset).len < cmsgHdrLen then 0
  else
    ((cmsg offset).len - cmsgHdrLen) / 4 +
      if controllen - offset < cmsgAlign (cmsg offset).len then 0
      else controlFds cmsg controllen (offset + cmsgAlign (cmsg offset).len)
termination_by controllen - offset
decreasing_by
  simp only [cmsgAlign, cmsgHdrLen] at *
  omega

lemma scmResolve_ok {cmsg : ℕ → Cmsg} {controllen offset numFds n : ℕ}
    (h : scmResolve cmsg controllen offset numFds = .ok n) :
    n = numFds + controlFds cmsg controllen offset := by
  fun_induction scmResolve cmsg controllen offset numFds with
  | case1 offset numFds hend =>
    rw [controlFds, if_pos (.inl hend)]
    exact (Except.ok.inj h).symm
  | case2 | case3 | case4 | case5 => exact nomatch h
  | case6 offset numFds hend hlen _ _ _ hlast =>
    rw [controlFds, if_neg (by tauto), if_pos hlast]
    exact (Except.ok.inj h).symm
  | case7 offset numFds hend hlen _ _ _ hlast ih =>
    rw [controlFds, if_neg (by tauto), if_neg hlast, ih h]
    omega

lemma Send.numFds_le {m : Send} (h : controlFds m.cmsg m.controllen 0 ≤ scmMaxFd) :
    m.numFds ≤ scmMaxFd := by
  rw [Send.numFds]
  cases hres : scmResolve m.cmsg m.controllen 0 0 with
  | error e => exact Nat.zero_le _
  | ok n =>
    have := scmResolve_ok hres
    simp only [Except.toOption, getD_some]
    omega

/-- A turn of a receive that lists descriptors finds the queue empty and does not fail; and if the
copy of the sender's address or of the flags fails, there are no descriptors to report. -/
def ReportSound (s : State) (env : Env) (c : Call) : Prop :=
  (c.listed = [] ∨ s.queue = [] ∧ c.totalFilled ≠ 0) ∧
    (env.Quiet s.dgram ∨ c.ctlSize = 0 ∨ c.listed = [] ∧ ∀ skb ∈ s.queue.head?, skb.files = [])
deriving Decidable

/-- The condition on a step: the messages of a send list no more descriptors than a buffer has room
for, and the turns of receives are sound. -/
def ScmSound (s : State) : Action → Prop
  | .send m => controlFds m.cmsg m.controllen 0 ≤ scmMaxFd
  | .turn i env => ∀ c ∈ s.calls[i]?, ReportSound s env c
  | _ => True

instance (s : State) : (a : Action) → Decidable (ScmSound s a) := by
  rintro ⟨⟩ <;> unfold ScmSound <;> infer_instance

namespace ScmInv

variable {s : State} {i : ℕ} {c : Call} {env : Env}

section

variable (h : ScmInv s)
include h

section Turn

variable (hi : s.calls[i]? = some c) (hs : ReportSound s env c)
include hi hs

lemma settle_empty : ScmInv (s.settle i env (emptyTurn s c env)) := by
  have hmid := h.mid hi
  have hret : ScmInv (s.settle i env (.ret c c.totalFilled)) := by
    refine hmid.ret ?_ _
    obtain hquiet | hsize | hnone := hs.2
    · exact .inl hquiet
    · exact .inr (hmid.own hsize)
    · exact .inr hnone.1
  have hor (e : Errno) : ScmInv (s.settle i env (c.filledOr e)) := by
    rw [Call.filledOr]
    split
    · exact hret
    · exact hmid.done (hs.1.resolve_right fun hfill => by omega)
  rw [emptyTurn]
  split_ifs
  · exact hret
  · exact hor _
  · exact hor _
  · exact hor _
  · exact hmid.again (List.getElem?_eq_some_iff.1 hi).1

lemma settle_buffer (hq : s.queue = skb :: rest) (c' : Call) (hsize : c'.ctlSize = c.ctlSize) :
    let r := { s with queue := rest }.takeFiles c' skb.files
    Mid r.1 i r.2.1 ∧ (r.2.2 ≠ none → r.2.1.listed = []) ∧
      (env.Quiet r.1.dgram ∨ r.2.1.listed = []) ∧ i < r.1.calls.length := by
  have hc : c.listed = [] := hs.1.resolve_right fun hfill => by simp [hq] at hfill
  obtain ⟨hmid, hlist⟩ := (h.mid hi).takeFiles hc hq hsize
  obtain ⟨f, r, a, b, e, heq⟩ := takeFiles_eq { s with queue := rest } c' skb.files
  refine ⟨hmid, fun he => hlist (.inl he), ?_, ?_⟩
  · obtain hquiet | h0 | ⟨-, hfiles⟩ := hs.2
    · rw [heq]
      exact .inl hquiet
    · exact .inr (hlist (.inr (.inr h0)))
    · exact .inr (hlist (.inr (.inl (hfiles skb (by rw [hq]; rfl)))))
  · rw [heq]
    exact (List.getElem?_eq_some_iff.1 hi).1

lemma settle_dgram (hq : s.queue = skb :: rest) :
    ScmInv ((dgramTurn s c env skb rest).1.settle i env (dgramTurn s c env skb rest).2) := by
  have hc : c.listed = [] := hs.1.resolve_right fun hfill => by simp [hq] at hfill
  rw [dgramTurn]
  cases scatter env.copyFails c.nulls 0 c.kiov
    (skb.data.take (dgramToRead c.kiov skb.data.length)) with
  | none => exact (h.mid hi).done hc
  | some stores =>
    obtain ⟨hmid, herr, hquiet, -⟩ := h.settle_buffer hi hs hq
      (c.fill stores (dgramToRead c.kiov skb.data.length)) rfl
    dsimp only
    split
    · next e he => exact hmid.done (herr (by rw [he]; exact nofun))
    · exact hmid.ret hquiet _

lemma settle_stream (hq : s.queue = skb :: rest) :
    ScmInv ((streamTurn s c env skb rest).1.settle i env (streamTurn s c env skb rest).2) := by
  have hc : c.listed = [] := hs.1.resolve_right fun hfill => by simp [hq] at hfill
  rw [streamTurn]
  cases scatter env.copyFails c.nulls 0 c.kiov
      ((skb.data.drop skb.consumed).take (toRead c.kiov (skb.data.length - skb.consumed))) with
  | none => exact (h.mid hi).done hc
  | some stores =>
    split_ifs
    · obtain ⟨hmid, herr, hquiet, hlt⟩ := h.settle_buffer hi hs hq
        (c.fill stores (toRead c.kiov (skb.data.length - skb.consumed))) rfl
      exact hmid.after hlt herr hquiet
    · -- the files stay with the rest of the buffer
      have hmid := h.mid hi
      have hbooks := hmid.books
      rw [hc, nil_append, State.Books, hq] at hbooks
      have hsmall : ∀ x ∈ { skb with
          consumed := skb.consumed + toRead c.kiov (skb.data.length - skb.consumed) } :: rest,
          x.files.length ≤ scmMaxFd := by
        rintro x hx
        obtain rfl | hx := mem_cons.1 hx
        · exact h.small skb (hq ▸ mem_cons_self)
        · exact h.small x (hq ▸ mem_cons_of_mem _ hx)
      have hrest : Mid
          { s with
            queue := { skb with
              consumed := skb.consumed + toRead c.kiov (skb.data.length - skb.consumed) } :: rest }
          i { c.fill stores (toRead c.kiov (skb.data.length - skb.consumed)) with ctlLen := 0 } :=
        ⟨hsmall, hbooks, hmid.noCtl, fun _ => rfl⟩
      exact hrest.after (e := none) (List.getElem?_eq_some_iff.1 hi).1 (fun _ => rfl) (.inr rfl)

lemma turn : ScmInv ((recvTurn s c env).1.settle i env (recvTurn s c env).2) := by
  rw [recvTurn]
  cases hq : s.queue with
  | nil => exact h.settle_empty hi hs
  | cons skb rest =>
    dsimp only
    split
    · exact h.settle_dgram hi hs hq
    · exact h.settle_stream hi hs hq

end Turn

lemma send {m : Send} (hm : controlFds m.cmsg m.controllen 0 ≤ scmMaxFd) :
    ScmInv (sendmsg s m).1 := by
  rw [sendmsg]
  split
  · exact h
  · refine ⟨fun skb hskb => ?_, ?_, h.noCtl⟩
    · obtain hskb | hskb := mem_append.1 hskb
      · exact h.small skb hskb
      · rw [mem_singleton.1 hskb, length_map, length_range]
        exact Send.numFds_le hm
    · have hsend := h.books.send m.numFds
      rw [State.Books, enqueue, flatMap_append, flatMap_singleton]
      exact hsend

lemma drop : ScmInv s.dropQueue := by
  refine ⟨fun _ hx => absurd hx not_mem_nil, ?_, h.noCtl⟩
  have hbooks := h.books
  rw [State.Books, ← append_nil (s.queue.flatMap Skb.files)] at hbooks
  exact hbooks.release

lemma closeFd {fd : ℕ} (hfd : fd < maxFd) (hc : s.closable fd = true) :
    ScmInv (s.fdUninstall fd) := by
  rw [fdUninstall]
  cases hslot : s.fds fd with
  | free => simp [closable, hslot] at hc
  | other => exact ⟨h.small, h.books.other hfd (by simp [hslot]) (by simp), h.noCtl⟩
  | ref k =>
    have hk : k ∈ s.reported := by simpa [closable, hslot] using hc
    refine ⟨h.small, h.books.uninstall hfd hslot (List.Sublist.refl _) (fun hmem => ?_)
      fun _ hmem _ => hmem, h.noCtl⟩
    obtain ⟨-, j, hj, hnew⟩ := h.books.unreported fd hmem
    exact hnew (Slot.ref.inj (hslot.symm.trans hj) ▸ hk)

end

end ScmInv

theorem step_scmInv {s t : State} {a : Action} (h : ScmInv s) (hs : ScmSound s a)
    (hst : step s a = some t) : ScmInv t := by
  cases a with
  | send m =>
    exact some.inj hst ▸ h.send hs
  | recv lens nulls w n size =>
    obtain rfl := some.inj hst
    have hnew : (Call.start lens nulls w n size).listed = [] := by
      rw [Call.listed]
      split <;> rfl
    refine ⟨h.small, ?_, fun c hc => ?_⟩
    · have hbooks := h.books
      rw [State.Books, flatMap_append, flatMap_singleton, hnew, append_nil]
      exact hbooks
    · obtain hc | hc := mem_append.1 hc
      · exact h.noCtl c hc
      · exact fun _ => mem_singleton.1 hc ▸ hnew
  | turn i env =>
    obtain ⟨c, hi, rfl⟩ := map_eq_some_iff.1 hst
    exact h.turn hi (hs c hi)
  | shutdownRead | close =>
    obtain rfl := some.inj hst
    exact ⟨h.drop.small, h.drop.books, h.noCtl⟩
  | peerShutdownWrite | peerClose =>
    obtain rfl := some.inj hst
    exact { h with }
  | openFd fd =>
    obtain ⟨⟨hfree, hfd⟩, rfl⟩ := of_guard hst
    exact ⟨h.small, h.books.other hfd (by simp [hfree]) nofun, h.noCtl⟩
  | closeFd fd =>
    obtain ⟨⟨hc, hfd⟩, rfl⟩ := of_guard hst
    exact h.closeFd hfd hc

lemma scmInv_init (dgram : Bool) : ScmInv (init dgram) where
  small := fun _ hx => absurd hx not_mem_nil
  books :=
    { once := fun k => by simp [init, countRef]
      known := fun _ _ _ hk => nomatch hk
      unreported := fun _ hfd => absurd hfd not_mem_nil
      nodup := nodup_nil
      past := fun _ hk => absurd hk not_mem_nil }
  noCtl := fun _ hc => absurd hc not_mem_nil

/-- In every run whose steps all meet the condition descriptor passing is exact. -/
theorem scm_exact_of_sound (dgram : Bool) {as : List Action} {s : State}
    (hs : Meets step ScmSound (init dgram) as) (h : exec step (init dgram) as = some s) :
    ScmExact s :=
  (exec_invariant_of_meets (fun _ _ _ => step_scmInv) as _ s (scmInv_init dgram) hs h).exact

/-- A send of one byte with a control buffer that is full of messages of the given length. -/
def rightsSend (len controllen : ℕ) : Send :=
  { plainSend 1 1 with
    cmsg := fun _ => ⟨len, true, fun _ => true⟩
    controllen := controllen }

/-- Two files are received, and one is sent to a receive that has no room for it. -/
def twoFiles : List Action :=
  [.send (rightsSend 24 24), .recv [4] [] false false 64, .turn 0 calm, .send (rightsSend 20 20),
    .recv [4] [] false false 8, .turn 0 calm]

theorem scm_exact_two_files : ∃ s, exec step (init false) twoFiles = some s ∧
    s.reported = [0, 1] ∧ s.released 2 = 1 ∧ ScmExact s := by
  have hmeets : Meets step ScmSound (init false) twoFiles := by decide +kernel
  obtain ⟨s, hs, hrep, hrel⟩ : ∃ s, exec step (init false) twoFiles = some s ∧
      s.reported = [0, 1] ∧ s.released 2 = 1 := by decide +kernel
  exact ⟨s, hs, hrep, hrel, scm_exact_of_sound false hmeets hs⟩

/-- One control buffer with two messages of eight descriptors each. -/
def twoMessages : List Action := [.send (rightsSend 48 96)]

/-- A `MSG_WAITALL` receive gets a file with its first byte and none with its second. -/
def waitallFile : List Action :=
  [.send (rightsSend 20 20), .send (plainSend 2 1), .recv [1, 1] [] true false 64, .turn 0 calm,
    .turn 0 calm]

/-- A datagram with a file, whose sender's address cannot be stored. -/
def badName : List Action :=
  [.send (rightsSend 20 20), .recv [1] [] false false 64, .turn 0 { calm with nameFails := true }]

/-- A buffer holds more than `SCM_MAX_FD` files, and descriptors are installed that no receive
reports. -/
theorem scm_exact_wrong :
    (∃ s, exec step (init false) twoMessages = some s ∧ ¬ ScmExact s) ∧
    (∃ s, exec step (init false) waitallFile = some s ∧ s.calls = [] ∧ ¬ ScmExact s) ∧
    ∃ s, exec step (init true) badName = some s ∧ s.calls = [] ∧ ¬ ScmExact s := by
  obtain ⟨s, hs, skb, hskb, hlen⟩ : ∃ s, exec step (init false) twoMessages = some s ∧
      ∃ skb ∈ s.queue, ¬ skb.files.length ≤ scmMaxFd := by decide +kernel
  obtain ⟨t, ht, htl⟩ : ∃ s, exec step (init false) waitallFile = some s ∧
      s.calls = [] ∧ s.fds 0 = .ref 0 ∧ s.reported = [] := by decide +kernel
  obtain ⟨u, hu, hul⟩ : ∃ s, exec step (init true) badName = some s ∧
      s.calls = [] ∧ s.fds 0 = .ref 0 ∧ s.reported = [] := by decide +kernel
  have hlost {s : State} (h : s.calls = [] ∧ s.fds 0 = .ref 0 ∧ s.reported = []) :
    ¬ ScmExact s := by
    intro hs
    obtain hmem | ⟨c, hc, -⟩ := hs.known 0 (by decide) 0 h.2.1
    · exact absurd (h.2.2 ▸ hmem) not_mem_nil
    · exact absurd (h.1 ▸ hc) not_mem_nil
  exact ⟨⟨s, hs, fun h => hlen (h.small skb hskb)⟩, ⟨t, ht, htl.1, hlost htl⟩, u, hu, hul.1,
    hlost hul⟩

end XosKernel.UnixMsg
