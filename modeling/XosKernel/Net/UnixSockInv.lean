/-
# What keeps the peers of sockets alive

A socket that is not closed is in one place: a file owns it, its last `file_put` is on the way to
`unix_sock_close`, it waits in the backlog of a listener, or `do_accept` has taken it from there.
The place owns one of the references counted by `u_count`; the others are those of calls under
way. So a socket is freed only after it has left its place, and it leaves its place only together
with its peer link.
-/
import XosKernel.Lib.Run
import XosKernel.Net.UnixSock

namespace XosKernel.UnixSock

open List Option Function Sys

/-- A peer link leads to a socket that is neither freed nor closed and whose peer link leads
back. -/
def Sys.PeersOk (s : Sys) : Prop :=
  ∀ a b, s.peerOf a = some b →
    ∃ k, s.sock b = some k ∧ k.state ≠ .closed ∧ k.peerSock = some a

/-- Who owns a socket that is not closed. -/
inductive Place
  | file
  | closing
  | backlog (l : ℕ)
  | accepted (l : ℕ)
deriving DecidableEq

def own (p : Option Place) : ℕ := if p = none then 0 else 1

/-- The invariant, with the place of each socket. What the calls under way hold is bounded by what
there is to hold. -/
structure Inv (s : Sys) (place : ℕ → Option Place) : Prop where
  file : ∀ a, 0 < s.fCount a → place a = some .file
  holds : ∀ a, s.holds a ≤ s.fCount a
  closing : ∀ a, s.pend.count (.close a) ≤ if place a = some .closing then 1 else 0
  accepted : ∀ l a, s.pend.count (.accepted l a) ≤ if place a = some (.accepted l) then 1 else 0
  backlog : ∀ l a, a ∈ s.bl l → place a = some (.backlog l)
  nodup : ∀ l, (s.bl l).Nodup
  count : ∀ a, own (place a) + s.pend.countP (Cont.refs a) ≤ s.uc a
  opened : ∀ a k, s.sock a = some k → place a ≠ none → k.state ≠ .closed
  free : ∀ a, s.pend.count (.free a) ≤ if s.sock a ≠ none ∧ s.uc a = 0 then 1 else 0
  peers : ∀ a b, s.peerOf a = some b → s.peerOf b = some a ∧ place b ≠ none ∧ a ≠ b

variable {s s' : Sys} {place : ℕ → Option Place} {a b l x : ℕ} {c : Cont} {f : Sock → Sock}

lemma Inv.init : Inv Sys.init fun _ => none where
  file _ h := absurd h (lt_irrefl 0)
  holds _ := le_rfl
  closing _ := Nat.zero_le _
  accepted _ _ := Nat.zero_le _
  backlog _ _ h := absurd h not_mem_nil
  nodup _ := nodup_nil
  count _ := le_rfl
  opened _ _ h := nomatch h
  free _ := Nat.zero_le _
  peers _ _ h := nomatch h

lemma own_eq_one {p : Option Place} (h : p ≠ none) : own p = 1 := if_neg h

lemma Inv.uc_pos (h : Inv s place) (ha : place a ≠ none) : 0 < s.uc a := by
  have hcount := h.count a
  rw [own_eq_one ha] at hcount
  omega

lemma exists_of_uc_pos (h : 0 < s.uc a) : ∃ k, s.sock a = some k := by
  cases hk : s.sock a with
  | none =>
    rw [uc, hk] at h
    exact absurd h (lt_irrefl 0)
  | some k => exact ⟨k, rfl⟩

lemma Inv.peersOk (h : Inv s place) : s.PeersOk := by
  intro a b hab
  obtain ⟨hba, hplace, -⟩ := h.peers a b hab
  obtain ⟨k, hk⟩ := exists_of_uc_pos (h.uc_pos hplace)
  rw [peerOf, hk] at hba
  exact ⟨k, hk, h.opened b k hk hplace, hba⟩

/-! ### The accesses to a socket -/

@[grind =] lemma setSock_sock {k : Option Sock} :
    (s.setSock a k).sock x = if x = a then k else s.sock x := update_apply ..

lemma setSock_self {k : Option Sock} : (s.setSock a k).sock a = k := update_self ..

lemma setSock_of_ne {k : Option Sock} (h : x ≠ a) : (s.setSock a k).sock x = s.sock x :=
  update_of_ne h ..

@[grind =] lemma modify_sock : (s.modify a f).sock x = if x = a then (s.sock a).map f else s.sock
    x :=
  setSock_sock

lemma modify_self : (s.modify a f).sock a = (s.sock a).map f := setSock_self

lemma modify_of_ne (h : x ≠ a) : (s.modify a f).sock x = s.sock x := setSock_of_ne h

lemma modify_eq_none : (s.modify a f).sock x = none ↔ s.sock x = none := by
  rw [modify_sock]
  split_ifs with hx
  · rw [map_eq_none_iff, hx]
  · rfl

lemma elim_modify {β : Type} {e : β} {g : Sock → β} (hg : ∀ k, g (f k) = g k) :
    ((s.modify a f).sock x).elim e g = (s.sock x).elim e g := by
  rw [modify_sock]
  split_ifs with hx
  · subst hx
    cases s.sock x with
    | none => rfl
    | some k => exact hg k
  · rfl

lemma uc_modify (hf : ∀ k, (f k).uCount = k.uCount) : (s.modify a f).uc x = s.uc x := elim_modify hf

lemma bl_modify (hf : ∀ k, (f k).backlog = k.backlog) : (s.modify a f).bl x = s.bl x :=
    elim_modify hf

lemma peerOf_eq_elim : s.peerOf x = (s.sock x).elim none Sock.peerSock := by
  rw [peerOf]
  cases s.sock x <;> rfl

lemma peerOf_modify (hf : ∀ k, (f k).peerSock = k.peerSock) : (s.modify a f).peerOf x =
    s.peerOf x := by
  rw [peerOf_eq_elim, elim_modify hf, peerOf_eq_elim]

lemma peerOf_of_ne (h : x ≠ a) : (s.modify a f).peerOf x = s.peerOf x := by
  rw [peerOf, modify_of_ne h, peerOf]

lemma peerOf_modify_self {p : Option ℕ} (hf : ∀ k, (f k).peerSock = p) (ha : s.sock a ≠ none) :
    (s.modify a f).peerOf a = p := by
  obtain ⟨k, hk⟩ := ne_none_iff_exists'.1 ha
  rw [peerOf, modify_self, hk]
  exact hf k

lemma peerOf_modify_none (hf : ∀ k, (f k).peerSock = none) : (s.modify a f).peerOf a = none := by
  rw [peerOf, modify_self]
  cases s.sock a with
  | none => rfl
  | some k => exact hf k

variable {k : Sock} {p : List Cont}

lemma modify_eq_some (h : (s.modify a f).sock x = some k) :
    ∃ k0, s.sock x = some k0 ∧ k = if x = a then f k0 else k0 := by
  rw [modify_sock] at h
  split_ifs at h with hx
  · obtain ⟨k0, hk0, rfl⟩ := map_eq_some_iff.1 h
    exact ⟨k0, hx ▸ hk0, by rw [if_pos hx]⟩
  · exact ⟨k, h, by rw [if_neg hx]⟩

/-! ### Steps that keep every socket in its place -/

lemma Inv.pend (h : Inv s place)
    (hholds : ∀ a, p.countP (Cont.holds a) ≤ s.pend.countP (Cont.holds a))
    (hrefs : ∀ a, p.countP (Cont.refs a) ≤ s.pend.countP (Cont.refs a))
    (hclose : ∀ a, p.count (.close a) ≤ s.pend.count (.close a))
    (haccepted : ∀ l a, p.count (.accepted l a) ≤ s.pend.count (.accepted l a))
    (hfree : ∀ a, p.count (.free a) ≤ s.pend.count (.free a)) : Inv { s with pend := p } place :=
  { h with
    holds := fun a => (hholds a).trans (h.holds a)
    closing := fun a => (hclose a).trans (h.closing a)
    accepted := fun l a => (haccepted l a).trans (h.accepted l a)
    count := fun a => (Nat.add_le_add_left (hrefs a) _).trans (h.count a)
    free := fun a => (hfree a).trans (h.free a) }

lemma Inv.front (h : Inv s place) (hc : c ∈ s.pend) :
    Inv (Sys.push { s with pend := s.pend.erase c } c) place := by
  have hperm := (perm_cons_erase hc).symm
  exact h.pend (fun a => (hperm.countP_eq _).le) (fun a => (hperm.countP_eq _).le)
    (fun a => (hperm.count_eq _).le) (fun l a => (hperm.count_eq _).le)
    fun a => (hperm.count_eq _).le

lemma Inv.pop (h : Inv (s.push c) place) : Inv s place :=
  have hsub : s.pend.Sublist (s.push c).pend := sublist_cons_self c s.pend
  h.pend (fun _ => hsub.countP_le) (fun _ => hsub.countP_le) (fun _ => hsub.count_le _)
    (fun _ _ => hsub.count_le _) fun _ => hsub.count_le _

/-- A continuation that is not bound to the place of a socket. -/
def Cont.plain : Cont → Bool
  | .close _ | .accepted _ _ | .free _ => false
  | _ => true

lemma count_plain (ds : List Cont) (hds : ∀ d ∈ ds, d.plain = true) (hc : c.plain = false) :
    (ds ++ p).count c = p.count c := by
  rw [count_append, count_eq_zero.2, Nat.zero_add]
  intro hmem
  exact absurd ((hds c hmem).symm.trans hc) (by decide)

lemma Inv.swap (cs ds : List Cont) (h : Inv { s with pend := cs ++ p } place)
    (hds : ∀ d ∈ ds, d.plain = true)
    (hholds : ∀ a, ds.countP (Cont.holds a) ≤ cs.countP (Cont.holds a))
    (hrefs : ∀ a, ds.countP (Cont.refs a) ≤ cs.countP (Cont.refs a)) :
    Inv { s with pend := ds ++ p } place := by
  refine h.pend (fun a => ?_) (fun a => ?_) (fun a => ?_) (fun l a => ?_) fun a => ?_
  · rw [countP_append, countP_append]
    exact Nat.add_le_add_right (hholds a) _
  · rw [countP_append, countP_append]
    exact Nat.add_le_add_right (hrefs a) _
  all_goals
    rw [count_plain ds hds rfl]
    exact (sublist_append_right cs p).count_le _

lemma Inv.frame (h : Inv s place) (hfile : s'.fCount = s.fCount) (hpend : s'.pend = s.pend)
    (hsome : ∀ x, s'.sock x = none ↔ s.sock x = none) (huc : ∀ x, s'.uc x = s.uc x)
    (hbl : ∀ x, s'.bl x = s.bl x)
    (hopen : ∀ x k, s'.sock x = some k → place x ≠ none → k.state ≠ .closed)
    (hpeers : ∀ x y, s'.peerOf x = some y →
      s'.peerOf y = some x ∧ place y ≠ none ∧ x ≠ y) : Inv s' place where
  file a := by rw [hfile]; exact h.file a
  holds a := by rw [Sys.holds, hpend, hfile]; exact h.holds a
  closing a := by rw [hpend]; exact h.closing a
  accepted l a := by rw [hpend]; exact h.accepted l a
  backlog l a := by rw [hbl]; exact h.backlog l a
  nodup l := by rw [hbl]; exact h.nodup l
  count a := by rw [hpend, huc]; exact h.count a
  opened := hopen
  free a := by
    rw [hpend, huc]
    simp only [ne_eq, hsome]
    exact h.free a
  peers := hpeers

lemma Inv.modify (h : Inv s place) (hopen : ∀ k, k.state ≠ .closed → (f k).state ≠ .closed)
    (hu : ∀ k, (f k).uCount = k.uCount := by exact fun _ => rfl)
    (hb : ∀ k, (f k).backlog = k.backlog := by exact fun _ => rfl)
    (hp : ∀ k, (f k).peerSock = k.peerSock := by exact fun _ => rfl) :
    Inv (s.modify a f) place := by
  refine h.frame rfl rfl (fun _ => modify_eq_none) (fun _ => uc_modify hu) (fun _ => bl_modify hb)
    (fun x k hk hx => ?_) fun x y hxy => ?_
  · obtain ⟨k0, hk0, rfl⟩ := modify_eq_some hk
    grind [h.opened x k0 hk0 hx]
  · rw [peerOf_modify hp] at hxy ⊢
    exact h.peers x y hxy

lemma Inv.names (h : Inv s place) (names : List (ℕ × ℕ)) : Inv { s with names := names } place :=
  { h with }

/-- A write that sets the peer link and leaves counts and backlog alone. -/
structure SetsPeer (f : Sock → Sock) (p : Option ℕ) : Prop where
  uCount : ∀ k, (f k).uCount = k.uCount
  backlog : ∀ k, (f k).backlog = k.backlog
  peer : ∀ k, (f k).peerSock = p

lemma Inv.relink (h : Inv s place) {g : Sock → Sock} {p q : Option ℕ} (hf : SetsPeer f p)
    (hg : SetsPeer g q) (hsf : ∀ k, k.state ≠ .closed → (f k).state ≠ .closed)
    (hsg : ∀ k, k.state ≠ .closed → (g k).state ≠ .closed)
    (hpeers : ∀ x y, ((s.modify b f).modify a g).peerOf x = some y →
      ((s.modify b f).modify a g).peerOf y = some x ∧ place y ≠ none ∧ x ≠ y) :
    Inv ((s.modify b f).modify a g) place := by
  refine h.frame rfl rfl (fun _ => modify_eq_none.trans modify_eq_none)
    (fun _ => (uc_modify hg.uCount).trans (uc_modify hf.uCount))
    (fun _ => (bl_modify hg.backlog).trans (bl_modify hf.backlog)) (fun x k hk hx => ?_) hpeers
  obtain ⟨k1, hk1, rfl⟩ := modify_eq_some hk
  obtain ⟨k0, hk0, rfl⟩ := modify_eq_some hk1
  grind [h.opened x k0 hk0 hx]

lemma Inv.detach (h : Inv s place) {g : Sock → Sock} (hab : s.peerOf a = some b)
    (hf : SetsPeer f none) (hsf : ∀ k, (f k).state = k.state) (hg : SetsPeer g none)
    (hsg : ∀ k, (g k).state = k.state) : Inv ((s.modify b f).modify a g) place := by
  obtain ⟨hba, -, hne⟩ := h.peers a b hab
  refine h.relink hf hg (fun k hk => (hsf k).trans_ne hk) (fun k hk => (hsg k).trans_ne hk)
    fun x y hxy => ?_
  -- `x` and `y` are neither end of the connection that is given up
  have hga := peerOf_modify_none (s := s.modify b f) (a := a) hg.peer
  have hfb := peerOf_modify_none (s := s) (a := b) hf.peer
  grind [peerOf_of_ne, h.peers]

lemma Inv.attach (h : Inv s place) {g : Sock → Sock} (ha : s.peerOf a = none)
    (hb : s.peerOf b = none) (hpa : place a ≠ none) (hpb : place b ≠ none) (hne : a ≠ b)
    (hf : SetsPeer f (some a)) (hsf : ∀ k, (f k).state ≠ .closed) (hg : SetsPeer g (some b))
    (hsg : ∀ k, (g k).state ≠ .closed) : Inv ((s.modify b f).modify a g) place := by
  obtain ⟨ka, hka⟩ := exists_of_uc_pos (h.uc_pos hpa)
  obtain ⟨kb, hkb⟩ := exists_of_uc_pos (h.uc_pos hpb)
  have hpeerA : ((s.modify b f).modify a g).peerOf a = some b := by
    refine peerOf_modify_self hg.peer ?_
    rw [modify_of_ne hne, hka]
    exact nofun
  have hpeerB : ((s.modify b f).modify a g).peerOf b = some a := by
    rw [peerOf_of_ne hne.symm]
    refine peerOf_modify_self hf.peer ?_
    rw [hkb]
    exact nofun
  refine h.relink hf hg (fun k _ => hsf k) (fun k _ => hsg k) fun x y hxy => ?_
  grind [peerOf_of_ne, h.peers]

/-! ### References -/

lemma uc_modify_self (hk : s.sock a = some k) : (s.modify a f).uc a = (f k).uCount := by
  rw [uc, modify_self, hk]
  rfl

lemma uc_of_ne (h : x ≠ a) : (s.modify a f).uc x = s.uc x := by
  rw [uc, modify_of_ne h, uc]

/-- The count of one socket changes together with the references that calls hold on it. -/
lemma Inv.recount (h : Inv s place) (hk : s.sock a = some k)
    (hb : ∀ k, (f k).backlog = k.backlog) (hp : ∀ k, (f k).peerSock = k.peerSock)
    (hs : ∀ k, (f k).state = k.state)
    (hholds : ∀ x, p.countP (Cont.holds x) ≤ s.pend.countP (Cont.holds x))
    (hclose : ∀ x, p.count (.close x) ≤ s.pend.count (.close x))
    (haccepted : ∀ l x, p.count (.accepted l x) ≤ s.pend.count (.accepted l x))
    (hrefs : ∀ x, x ≠ a → p.countP (Cont.refs x) ≤ s.pend.countP (Cont.refs x))
    (hself : own (place a) + p.countP (Cont.refs a) ≤ (f k).uCount)
    (hfree : ∀ x, x ≠ a → p.count (.free x) ≤ s.pend.count (.free x))
    (hfreeSelf : p.count (.free a) ≤ if (f k).uCount = 0 then 1 else 0) :
    Inv { s.modify a f with pend := p } place where
  file := h.file
  holds x := (hholds x).trans (h.holds x)
  closing x := (hclose x).trans (h.closing x)
  accepted l x := (haccepted l x).trans (h.accepted l x)
  backlog l x := by
    show x ∈ (s.modify a f).bl l → _
    rw [bl_modify hb]
    exact h.backlog l x
  nodup l := by
    show ((s.modify a f).bl l).Nodup
    rw [bl_modify hb]
    exact h.nodup l
  count x := by
    show _ ≤ (s.modify a f).uc x
    grind [uc_modify_self, uc_of_ne, h.count x]
  opened x k' hk' hx := by
    obtain ⟨k0, hk0, rfl⟩ := modify_eq_some hk'
    grind [h.opened x k0 hk0 hx]
  free x := by
    show _ ≤ if (s.modify a f).sock x ≠ none ∧ (s.modify a f).uc x = 0 then 1 else 0
    by_cases hx : x = a
    · subst hx
      rw [uc_modify_self hk, modify_self, hk]
      simpa using hfreeSelf
    · rw [uc_of_ne hx, modify_of_ne hx]
      exact (hfree x hx).trans (h.free x)
  peers x y := by
    show (s.modify a f).peerOf x = some y → (s.modify a f).peerOf y = some x ∧ _
    rw [peerOf_modify hp, peerOf_modify hp]
    exact h.peers x y

lemma uc_eq (hk : s.sock a = some k) : s.uc a = k.uCount := by
  rw [uc, hk]
  rfl

lemma Inv.borrow (h : Inv s place) (b : ℕ) : Inv (s.borrow b) place := by
  unfold Sys.borrow
  split_ifs with hpos
  · obtain ⟨k, hk⟩ := exists_of_uc_pos hpos
    have hcount := h.count b
    have hfree := h.free b
    rw [uc_eq hk] at hcount hpos
    rw [uc_eq hk, if_neg (by omega)] at hfree
    refine h.recount (p := .release b :: s.pend) hk (fun _ => rfl) (fun _ => rfl) (fun _ => rfl)
      (fun x => ?_) (fun x => ?_) (fun l x => ?_) (fun x hx => ?_) ?_ (fun x _ => ?_) ?_
    · rw [countP_cons_of_neg (by simp [Cont.holds])]
    · rw [count_cons_of_ne (by simp)]
    · rw [count_cons_of_ne (by simp)]
    · rw [countP_cons_of_neg (by simpa [Cont.refs] using hx.symm)]
    · grind
    · rw [count_cons_of_ne (by simp)]
    · rw [count_cons_of_ne (by simp)]
      omega
  · exact h

lemma Inv.unixSockRelease (h : Inv (s.push (.release a)) place) :
    Inv (s.unixSockRelease a) place := by
  have hcount := h.count a
  have hfree := h.free a
  have hpop := h.pop
  have hrefs : (s.push (.release a)).pend.countP (Cont.refs a) =
      s.pend.countP (Cont.refs a) + 1 := countP_cons_of_pos (by simp [Cont.refs])
  have hcnt : (s.push (.release a)).pend.count (.free a) = s.pend.count (.free a) :=
    count_cons_of_ne (by simp)
  obtain ⟨k, hk⟩ : ∃ k, s.sock a = some k := exists_of_uc_pos (s := s.push (.release a)) (by omega)
  have huc : (s.push (.release a)).uc a = k.uCount := uc_eq (s := s) hk
  rw [if_neg (by omega), hcnt] at hfree
  unfold Sys.unixSockRelease
  simp only [uc_eq hk]
  split_ifs with hlast
  · refine Inv.names ?_ _
    refine hpop.recount (p := .free a :: s.pend) hk (fun _ => rfl) (fun _ => rfl) (fun _ => rfl)
      (fun x => ?_) (fun x => ?_) (fun l x => ?_) (fun x _ => ?_) ?_ (fun x hx => ?_) ?_
    · rw [countP_cons_of_neg (by simp [Cont.holds])]
    · rw [count_cons_of_ne (by simp)]
    · rw [count_cons_of_ne (by simp)]
    · rw [countP_cons_of_neg (by simp [Cont.refs])]
    · rw [countP_cons_of_neg (by simp [Cont.refs])]
      omega
    · rw [count_cons_of_ne (by simpa using hx.symm)]
    · rw [count_cons_self, if_pos hlast]
      omega
  · refine hpop.recount (p := s.pend) hk (fun _ => rfl) (fun _ => rfl) (fun _ => rfl)
      (fun x => le_rfl) (fun x => le_rfl) (fun l x => le_rfl) (fun x _ => le_rfl) ?_
      (fun x _ => le_rfl) ?_
    · show own (place a) + _ ≤ k.uCount - 1
      omega
    · omega

/-! ### Places -/

/-- Nothing says where the socket is: between two places. -/
structure Sys.Adrift (s : Sys) (a : ℕ) : Prop where
  fCount : s.fCount a = 0
  close : s.pend.count (.close a) = 0
  accepted : ∀ l, s.pend.count (.accepted l a) = 0
  backlog : ∀ l, a ∉ s.bl l

section

variable (h : Inv s place)
include h

lemma Inv.setPlace {q : Option Place} (hq : q ≠ none) (ha : place a ≠ none)
    (hadrift : s.Adrift a) : Inv s (update place a q) where
  __ := h
  file := by grind [h.file, hadrift.fCount]
  closing x := by grind [h.closing x, hadrift.close]
  accepted l x := by grind [h.accepted l x, hadrift.accepted]
  backlog := by grind [h.backlog, hadrift.backlog]
  count x := by grind [h.count x, own]
  opened := by grind [h.opened]
  peers := by grind [h.peers]

lemma Inv.setFCount {n : ℕ} (hfile : 0 < n → place a = some .file)
    (hholds : s.holds a ≤ n) : Inv (s.setFCount a n) place := by
  refine { h with file := fun x hx => ?_, holds := fun x => ?_ }
  · change 0 < update s.fCount a n x at hx
    grind [h.file x]
  · show s.holds x ≤ update s.fCount a n x
    grind [h.holds x]

lemma Inv.setBacklog (hk : s.sock l = some k)
    (hmem : ∀ x ∈ (f k).backlog, place x = some (.backlog l)) (hnodup : (f k).backlog.Nodup)
    (hu : ∀ k, (f k).uCount = k.uCount := by exact fun _ => rfl)
    (hp : ∀ k, (f k).peerSock = k.peerSock := by exact fun _ => rfl)
    (hs : ∀ k, (f k).state = k.state := by exact fun _ => rfl) : Inv (s.modify l f) place := by
  have hself : (s.modify l f).bl l = (f k).backlog := by
    rw [bl, modify_self, hk]
    rfl
  have hother : ∀ x, x ≠ l → (s.modify l f).bl x = s.bl x := by
    intro x hx
    rw [bl, modify_of_ne hx, bl]
  refine { h with backlog := ?_, nodup := ?_, count := fun x => ?_,
                  opened := fun x k' hk' hx => ?_, free := fun x => ?_, peers := fun x y => ?_ }
  · grind [h.backlog]
  · grind [h.nodup]
  · rw [uc_modify hu]
    exact h.count x
  · obtain ⟨k0, hk0, rfl⟩ := modify_eq_some hk'
    grind [h.opened x k0 hk0 hx]
  · rw [uc_modify hu]
    simp only [ne_eq, modify_eq_none]
    exact h.free x
  · rw [peerOf_modify hp, peerOf_modify hp]
    exact h.peers x y

/-- A socket without a peer is closed: the reference of its place is left to a call. -/
lemma Inv.retire (ha : place a ≠ none)
    (hadrift : s.Adrift a) (hpeer : s.peerOf a = none) (hu : ∀ k, (f k).uCount = k.uCount)
    (hb : ∀ k, (f k).backlog = k.backlog) (hp : (s.modify a f).peerOf a = none) :
    Inv ((s.modify a f).push (.release a)) (update place a none) where
  file x (hx : 0 < s.fCount x) := by grind [h.file, hadrift.fCount]
  holds x := by
    show (_ :: s.pend).countP _ ≤ _
    rw [countP_cons_of_neg (by simp [Cont.holds])]
    exact h.holds x
  closing x := by
    show (_ :: s.pend).count _ ≤ _
    rw [count_cons_of_ne (by simp)]
    grind [h.closing x, hadrift.close]
  accepted l x := by
    show (_ :: s.pend).count _ ≤ _
    rw [count_cons_of_ne (by simp)]
    grind [h.accepted l x, hadrift.accepted]
  backlog l x hx := by
    have hx' : x ∈ s.bl l := by
      rw [← bl_modify (a := a) hb]
      exact hx
    grind [h.backlog, hadrift.backlog]
  nodup l := by
    show ((s.modify a f).bl l).Nodup
    rw [bl_modify hb]
    exact h.nodup l
  count x := by
    show _ + (_ :: s.pend).countP _ ≤ (s.modify a f).uc x
    rw [uc_modify hu, countP_cons]
    grind [h.count x, own, Cont.refs]
  opened x k' hk' hx := by
    have hne : x ≠ a := by grind
    rw [update_of_ne hne] at hx
    exact h.opened x k' ((modify_of_ne hne).symm.trans hk') hx
  free x := by
    show (_ :: s.pend).count _ ≤ if (s.modify a f).sock x ≠ none ∧ (s.modify a f).uc x =
      0 then 1 else 0
    rw [count_cons_of_ne (by simp), uc_modify hu]
    simp only [ne_eq, modify_eq_none]
    exact h.free x
  peers x y (hxy : (s.modify a f).peerOf x = some y) := by
    show (s.modify a f).peerOf y = some x ∧ _
    grind [h.peers, peerOf_of_ne]

/-- The socket has been taken out of the place. -/
def Sys.Left (s : Sys) (a : ℕ) : Place → Prop
  | .file => s.fCount a = 0
  | .closing => s.pend.count (.close a) = 0
  | .backlog l => a ∉ s.bl l
  | .accepted l => s.pend.count (.accepted l a) = 0

lemma Inv.adrift_of (hleft : ∀ q, place a = some q → s.Left a q) : s.Adrift a where
  fCount := by
    by_contra hne
    exact hne (hleft .file (h.file a (Nat.pos_of_ne_zero hne)))
  close := by
    by_contra hne
    have hle := h.closing a
    split_ifs at hle with hplace
    · exact hne (hleft .closing hplace)
    · omega
  accepted l := by
    by_contra hne
    have hle := h.accepted l a
    split_ifs at hle with hplace
    · exact hne (hleft (.accepted l) hplace)
    · omega
  backlog l hmem := hleft (.backlog l) (h.backlog l a hmem) hmem

lemma Inv.adrift (ha : place a = none) : s.Adrift a :=
  h.adrift_of fun _ hp => nomatch ha.symm.trans hp

lemma Inv.adrift_at {q : Place} (ha : place a = some q) (hleft : s.Left a q) : s.Adrift a :=
  h.adrift_of fun _ hp => some.inj (ha.symm.trans hp) ▸ hleft

lemma Inv.of_none (ha : s.sock a = none) :
    place a = none ∧ s.pend.countP (Cont.refs a) = 0 ∧ s.pend.count (.free a) = 0 := by
  have hcount := h.count a
  have hfree := h.free a
  have huc : s.uc a = 0 := by rw [uc, ha]; rfl
  rw [if_neg (fun hne => hne.1 ha)] at hfree
  refine ⟨?_, by omega, by omega⟩
  by_contra hne
  rw [own_eq_one hne] at hcount
  omega

lemma Inv.alloc {q : Place} (ha : s.sock a = none)
    (hu : k.uCount = 1) (hb : k.backlog = []) (hp : k.peerSock = none) (hs : k.state ≠ .closed) :
    Inv (s.setSock a (some k)) (update place a (some q)) := by
  obtain ⟨hplace, hrefs, hfree⟩ := h.of_none ha
  have hadrift := h.adrift hplace
  have hbl : ∀ x, (s.setSock a (some k)).bl x = s.bl x := fun x => by
    unfold bl
    rw [setSock_sock]
    split_ifs with hx
    · rw [hx, ha]
      exact hb
    · rfl
  have hpeer : ∀ x, (s.setSock a (some k)).peerOf x = s.peerOf x := fun x => by
    unfold peerOf
    rw [setSock_sock]
    split_ifs with hx
    · rw [hx, ha]
      exact hp
    · rfl
  have huc : ∀ x, (s.setSock a (some k)).uc x = if x = a then 1 else s.uc x := fun x => by
    unfold uc
    rw [setSock_sock]
    split_ifs
    · exact hu
    · rfl
  refine
    { file := fun x (hx : 0 < s.fCount x) => by grind [h.file, hadrift.fCount]
      holds := h.holds
      closing := fun x => ?_
      accepted := fun l x => ?_
      backlog := by grind [h.backlog, hadrift.backlog]
      nodup := by grind [h.nodup]
      count := fun x => ?_
      opened := by grind [h.opened]
      free := fun x => ?_
      peers := by grind [h.peers] }
  · show s.pend.count _ ≤ _
    grind [h.closing x, hadrift.close]
  · show s.pend.count _ ≤ _
    grind [h.accepted l x, hadrift.accepted]
  · show _ + s.pend.countP _ ≤ _
    grind [h.count x, own]
  · show s.pend.count _ ≤ _
    grind [h.free x]

lemma Inv.kfree (ha : place a = none) (hrefs : s.pend.countP (Cont.refs a) = 0)
    (hfree : s.pend.count (.free a) = 0) : Inv (s.setSock a none) place := by
  have hbl : ∀ l, (s.setSock a none).bl l = if l = a then [] else s.bl l := fun l => by
    unfold bl
    rw [setSock_sock]
    split_ifs <;> rfl
  have hpeer : ∀ x, (s.setSock a none).peerOf x = if x = a then none else s.peerOf x := fun x => by
    unfold peerOf
    rw [setSock_sock]
    split_ifs <;> rfl
  have huc : ∀ x, (s.setSock a none).uc x = if x = a then 0 else s.uc x := fun x => by
    unfold uc
    rw [setSock_sock]
    split_ifs <;> rfl
  refine { h with backlog := ?_, nodup := ?_, count := fun x => ?_, opened := ?_
                  free := fun x => ?_, peers := ?_ }
  · grind [h.backlog]
  · grind [h.nodup, nodup_nil]
  · show own (place x) + s.pend.countP (Cont.refs x) ≤ _
    grind [h.count x, own]
  · grind [h.opened]
  · show s.pend.count _ ≤ _
    grind [h.free x]
  · grind [h.peers]

end

end XosKernel.UnixSock
