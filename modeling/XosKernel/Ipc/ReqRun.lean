/-
# Replies answer the request they are returned for

A reply is matched with a request by nothing but the caller's pid. What makes it the right
one is that a client has at most one request under way: its message is in one queue, or the
target holds it as the current caller, or the reply has been published. This is kept if a
client starts a request only when no earlier one of its own is still queued or held, and a
waiting client is woken by a signal only together with a pending bit. Neither is checked.
-/
import XosKernel.Ipc.Req

namespace XosKernel.Req

open List Option Function

variable {s s' : Sys} {c i : ℕ}

/-! ## The invariant -/

/-- The traces of the client's request: the message, as queued or as held by the target, and
the published reply. -/
def Sys.tokens (s : Sys) (c : ℕ) : ℕ :=
  ((s.queue (s.client c).target ++ (s.caller (s.client c).target).toList).countP
    fun m => m.src = c) + (s.client c).pub.toList.length

/-- The message belongs to the last request of its sender, and is where that was sent. -/
def Sys.Current (s : Sys) (i : ℕ) (m : Msg) : Prop :=
  (s.client m.src).target = i ∧ (s.client m.src).request = m.request

def Sys.Answers (s : Sys) (c : ℕ) (r : Reply) : Prop :=
  r.server = (s.client c).target ∧ r.request = (s.client c).request ∧
    r.result = (s.client c).result ∧ (r.bytes ≠ [] → s.mem c (s.client c).buf = some r)

/-- A return with result 0 has a reply by the target to this very request, and what is in the
buffer is that reply's bytes. -/
def Return.Answered (e : Return) : Prop :=
  e.outcome = .result 0 → ∃ r, e.pub = some r ∧ r.server = e.target ∧ r.request = e.request ∧
    r.result = 0 ∧ (r.bytes ≠ [] → e.seen = some r)

structure Inv (s : Sys) : Prop where
  queued : ∀ i, ∀ m ∈ s.queue i, s.Current i m
  held : ∀ i m, s.caller i = some m → s.Current i m
  tokens : ∀ c, s.tokens c ≤ 1
  armed : ∀ c, (s.client c).phase = .armed → s.tokens c = 0
  resp : ∀ i r, s.resp i = some r → s.caller i = some r.caller ∧
    (r.copied = true → s.mem r.caller.src (s.client r.caller.src).buf = some (r.reply i))
  pub : ∀ c r, (s.client c).pub = some r → s.Answers c r
  replied : ∀ c, (s.client c).replied = (s.client c).pub.isSome
  ready : ∀ c, (s.client c).phase = .ready →
    (s.client c).timedOut = true ∨ (s.client c).sigPending = true ∨ (s.client c).pub.isSome = true
  log : ∀ e ∈ s.log, e.Answered

lemma Inv.init : Inv Sys.init := by
  constructor <;> simp [Sys.init, Client.init, Sys.tokens]

@[simp] lemma setClient_self (x : Client) : (s.setClient c x).client c = x :=
  update_self ..

variable {x : Client} {m : Msg}

lemma setClient_of_ne {d : ℕ} (h : d ≠ c) : (s.setClient c x).client d = s.client d:=
  update_of_ne h ..

lemma forall_setClient {P : ℕ → Client → Prop} (hc : P c x)
    (hother : ∀ d, d ≠ c → P d (s.client d)) (d : ℕ) : P d ((s.setClient c x).client d) :=
  (forall_update_iff s.client P).2 ⟨hc, hother⟩ d

lemma Sys.Current.setClient (h : s.Current i m)
    (htarget : x.target = (s.client c).target) (hrequest : x.request = (s.client c).request) :
    (s.setClient c x).Current i m := by
  rw [Sys.Current]
  by_cases hd : m.src = c
  · rw [hd, setClient_self, htarget, hrequest, ← hd]
    exact h
  · rw [setClient_of_ne hd]
    exact h

section

variable (h : Inv s)
include h

/-- A client changes without touching its request: everything about tokens and replies stays,
and what is asked is about the phase alone. -/
lemma Inv.setClient {ph : Phase} {timedOut sigPending : Bool}
    (harmed : ph = .armed → (s.client c).phase = .armed)
    (hready : ph = .ready → timedOut = true ∨ sigPending = true ∨ (s.client c).pub.isSome = true) :
    Inv (s.setClient c { s.client c with phase := ph, timedOut, sigPending }) := by
  set x : Client := { s.client c with phase := ph, timedOut, sigPending }
  -- reading any of the kept fields gives the old value
  have hfield : ∀ {β : Type} (g : Client → β), g x = g (s.client c) →
      ∀ d, g ((s.setClient c x).client d) = g (s.client d) := fun g hg =>
    forall_setClient (P := fun d y => g y = g (s.client d)) hg fun _ _ => rfl
  have ht := hfield Client.target rfl
  have hrq := hfield Client.request rfl
  have hb := hfield Client.buf rfl
  have hr := hfield Client.replied rfl
  have hrs := hfield Client.result rfl
  have hp := hfield Client.pub rfl
  have htok : ∀ d, (s.setClient c x).tokens d = s.tokens d := by
    intro d
    rw [Sys.tokens, Sys.tokens, ht, hp]
    rfl
  constructor
  case queued =>
    exact fun i m hm => (h.queued i m hm).setClient rfl rfl
  case held =>
    exact fun i m hm => (h.held i m hm).setClient rfl rfl
  case tokens =>
    intro d
    rw [htok]
    exact h.tokens d
  case armed =>
    intro d hd
    rw [htok]
    exact h.armed d (forall_setClient
      (P := fun d y => y.phase = .armed → (s.client d).phase = .armed) harmed (fun _ _ => id) d hd)
  case resp =>
    intro i r hri
    rw [hb]
    exact h.resp i r hri
  case pub =>
    intro d r hdr
    rw [hp] at hdr
    rw [Sys.Answers, ht, hrq, hrs, hb]
    exact h.pub d r hdr
  case replied =>
    intro d
    rw [hr, hp]
    exact h.replied d
  case ready =>
    exact forall_setClient (P := fun _ y => y.phase = .ready →
      y.timedOut = true ∨ y.sigPending = true ∨ y.pub.isSome = true) hready fun d _ => h.ready d
  case log => exact h.log

/-! ## Clients -/

lemma Inv.finish {outcome : Outcome}
    (hans : Return.Answered ⟨c, (s.client c).target, (s.client c).request, outcome,
      (s.client c).pub, s.mem c (s.client c).buf⟩) : Inv (s.finish c outcome) := by
  have hset : Inv (s.setClient c { s.client c with phase := .idle }) := by
    refine h.setClient ?_ ?_
    · rintro ⟨⟩
    · rintro ⟨⟩
  exact { hset with log := forall_mem_cons.2 ⟨hans, hset.log⟩ }

lemma Inv.reqReturn (hs : reqReturn s c = some s') : Inv s' := by
  obtain ⟨hready, rfl⟩ := of_guard hs
  refine h.finish fun hzero => ?_
  split_ifs at hzero with htimeout hsignal
  -- neither a timeout nor a signal: the reply is there
  have hsome := ((h.ready c hready).resolve_left htimeout).resolve_left hsignal
  obtain ⟨r, hr⟩ := isSome_iff_exists.1 hsome
  obtain ⟨hserver, hrequest, hresult, hbytes⟩ := h.pub c r hr
  exact ⟨r, hr, hserver, hrequest, hresult.trans (Outcome.result.inj hzero), hbytes⟩

lemma Inv.reqWait (hs : reqWait s c = some s') : Inv s' := by
  obtain ⟨hsent, rfl⟩ := of_guard hs
  refine h.setClient ?_ ?_
  · intro harmed
    split_ifs at harmed
  · intro hready
    split_ifs at hready with hreplied
    exact .inr (.inr ((h.replied c).symm.trans hreplied))

lemma Inv.timeout (hs : timeout s c = some s') : Inv s' := by
  obtain ⟨hblocked, rfl⟩ := of_guard hs
  refine h.setClient ?_ fun _ => .inl rfl
  rintro ⟨⟩

lemma Inv.signal {masked : Bool}
    (hmask : masked = true → (s.client c).phase ≠ .blocked) : Inv (signal s c masked) := by
  rw [Req.signal, Client.wake]
  split
  next hblocked =>
    refine h.setClient ?_ fun _ => .inr (.inl ?_)
    · rintro ⟨⟩
    · have hunmasked : masked = false := Bool.eq_false_of_not_eq_true fun hm => hmask hm hblocked
      rw [hunmasked]
      exact Bool.or_true _
  · refine h.setClient id fun hready => ?_
    rcases h.ready c hready with ht | hp | hr
    · exact .inl ht
    · exact .inr (.inl (by rw [hp]; rfl))
    · exact .inr (.inr hr)

lemma Inv.handleSignals (hs : handleSignals s c = some s') : Inv s' := by
  obtain ⟨hrun, rfl⟩ := of_guard hs
  refine h.setClient id fun hready => ?_
  exact nomatch hrun.1.symm.trans hready

end

/-- No request of the client is queued or held anywhere. -/
def Sys.NoneUnderWay (s : Sys) (c : ℕ) : Prop :=
  ∀ i, (∀ m ∈ s.queue i, m.src ≠ c) ∧ ∀ m ∈ s.caller i, m.src ≠ c

lemma Sys.NoneUnderWay.countP (h : s.NoneUnderWay c) (i : ℕ) :
    ((s.queue i ++ (s.caller i).toList).countP fun m => m.src = c) = 0 := by
  refine countP_eq_zero.2 fun m hm => ?_
  rcases mem_append.1 hm with hm | hm
  · simpa using (h i).1 m hm
  · simpa using (h i).2 m (mem_toList.1 hm)

section

variable (h : Inv s)
include h

lemma Inv.reqArm {target buf : ℕ} (hnone : s.NoneUnderWay c)
    (hs : reqArm s c target buf = some s') : Inv s' := by
  obtain ⟨hrun, rfl⟩ := of_guard hs
  set x : Client := { s.client c with
    phase := .armed, target := target, request := s.next, buf := buf, replied := false
    result := 0, timedOut := false, pub := none } with hx
  have htok : ∀ d, (s.setClient c x).tokens d = if d = c then 0 else s.tokens d := by
    intro d
    by_cases hd : d = c
    · subst hd
      rw [if_pos rfl, Sys.tokens, setClient_self]
      exact hnone.countP target
    · rw [if_neg hd, Sys.tokens, setClient_of_ne hd]
      rfl
  have hother : ∀ {i m}, (m ∈ s.queue i ∨ s.caller i = some m) → m.src ≠ c := by
    rintro i m (hm | hm)
    · exact (hnone i).1 m hm
    · exact (hnone i).2 m hm
  suffices hinv : Inv (s.setClient c x) from { hinv with }
  constructor
  case queued =>
    intro i m hm
    rw [Sys.Current, setClient_of_ne (hother (.inl hm))]
    exact h.queued i m hm
  case held =>
    intro i m hm
    rw [Sys.Current, setClient_of_ne (hother (.inr hm))]
    exact h.held i m hm
  case tokens =>
    intro d
    rw [htok]
    split_ifs
    · exact Nat.zero_le _
    · exact h.tokens d
  case armed =>
    intro d hd
    rw [htok]
    split_ifs with hdc
    · rfl
    · rw [setClient_of_ne hdc] at hd
      exact h.armed d hd
  case resp =>
    intro i r hr
    obtain ⟨hcaller, hcopied⟩ := h.resp i r hr
    rw [setClient_of_ne (hother (.inr hcaller))]
    exact ⟨hcaller, hcopied⟩
  case pub =>
    refine forall_setClient (P := fun d y => ∀ r, y.pub = some r → r.server = y.target ∧
      r.request = y.request ∧ r.result = y.result ∧ (r.bytes ≠ [] → s.mem d y.buf = some r))
      ?_ fun d _ => h.pub d
    rintro r ⟨⟩
  case replied =>
    exact forall_setClient (P := fun _ y => y.replied = y.pub.isSome) rfl fun d _ => h.replied d
  case ready =>
    refine forall_setClient (P := fun _ y => y.phase = .ready →
      y.timedOut = true ∨ y.sigPending = true ∨ y.pub.isSome = true) ?_ fun d _ => h.ready d
    rintro ⟨⟩
  case log => exact h.log

/-- The message of an armed request is the first token of the request. -/
lemma Inv.enqueue (hcur : s.Current i m) (hzero : s.tokens m.src = 0)
    (hphase : (s.client m.src).phase ≠ .armed) :
    Inv { s with queue := update s.queue i (s.queue i ++ [m]) } := by
  have htok : ∀ d, Sys.tokens { s with queue := update s.queue i (s.queue i ++ [m]) } d =
      if d = m.src then 1 else s.tokens d := by
    intro d
    rw [Sys.tokens]
    dsimp only
    by_cases hd : (s.client d).target = i
    · rw [hd, update_self]
      have hold : s.tokens d = ((s.queue i ++ (s.caller i).toList).countP fun m => m.src = d) +
          (s.client d).pub.toList.length := by rw [Sys.tokens, hd]
      simp only [countP_append, countP_singleton, decide_eq_true_eq] at hold ⊢
      by_cases hdm : d = m.src
      · subst hdm
        rw [if_pos rfl, if_pos rfl]
        omega
      · rw [if_neg (Ne.symm hdm), if_neg hdm]
        omega
    · have hdm : d ≠ m.src := by
        rintro rfl
        exact hd hcur.1
      rw [update_of_ne hd, if_neg hdm]
      rfl
  refine { h with queued := ?queued, tokens := ?tokens, armed := ?armed }
  case queued =>
    refine (forall_update_iff s.queue fun j L => ∀ m' ∈ L, s.Current j m').2
      ⟨fun m' hm' => ?_, fun j _ => h.queued j⟩
    rcases mem_append.1 hm' with hm' | hm'
    · exact h.queued i m' hm'
    · exact mem_singleton.1 hm' ▸ hcur
  case tokens =>
    intro d
    rw [htok]
    split_ifs
    · exact le_rfl
    · exact h.tokens d
  case armed =>
    intro d hd
    rw [htok]
    split_ifs with hdm
    · subst hdm
      exact absurd hd hphase
    · exact h.armed d hd

lemma Inv.reqEnqueue (hs : reqEnqueue s c = some s') : Inv s' := by
  obtain ⟨harmed, hs⟩ := ite_none_right_eq_some.1 hs
  split at hs
  · obtain rfl := some.inj hs
    refine h.finish ?_
    rintro ⟨⟩
  · obtain rfl := some.inj hs
    have hset : Inv (s.setClient c { s.client c with phase := .sent }) := by
      refine h.setClient ?_ ?_
      · rintro ⟨⟩
      · rintro ⟨⟩
    refine hset.enqueue (m := ⟨c, (s.client c).request⟩) ?_ ?_ ?_
    · rw [Sys.Current, setClient_self]
      exact ⟨rfl, rfl⟩
    · rw [Sys.tokens, setClient_self]
      exact h.armed c harmed
    · rw [setClient_self]
      rintro ⟨⟩

/-! ## Servers -/

/-- A server moves messages: they stay where their requests were sent, and no request gets a
second token. -/
lemma Inv.serve {queue : ℕ → List Msg} {caller : ℕ → Option Msg}
    {resp : ℕ → Option Resp} (hqueue : ∀ i, ∀ m ∈ queue i, s.Current i m)
    (hcaller : ∀ i m, caller i = some m → s.Current i m)
    (htok : ∀ i d, ((queue i ++ (caller i).toList).countP fun m => m.src = d) ≤
      (s.queue i ++ (s.caller i).toList).countP fun m => m.src = d)
    (hresp : ∀ i r, resp i = some r → caller i = some r.caller ∧
      (r.copied = true → s.mem r.caller.src (s.client r.caller.src).buf = some (r.reply i))) :
    Inv { s with queue := queue, caller := caller, resp := resp } := by
  have hle : ∀ d, Sys.tokens { s with queue := queue, caller := caller, resp := resp } d ≤
      s.tokens d := fun d => Nat.add_le_add_right (htok _ d) _
  constructor
  case queued => exact hqueue
  case held => exact hcaller
  case tokens => exact fun d => (hle d).trans (h.tokens d)
  case armed => exact fun d hd => Nat.le_zero.1 ((hle d).trans (h.armed d hd).le)
  case resp => exact hresp
  case pub => exact h.pub
  case replied => exact h.replied
  case ready => exact h.ready
  case log => exact h.log

lemma Inv.setResp {x : Option Resp}
    (hx : ∀ r, x = some r → s.caller i = some r.caller ∧ r.copied = false) :
    Inv { s with resp := update s.resp i x } := by
  refine h.serve h.queued h.held (fun _ _ => le_rfl) ((forall_update_iff s.resp
    fun j x => ∀ r, x = some r → s.caller j = some r.caller ∧ (r.copied = true →
      s.mem r.caller.src (s.client r.caller.src).buf = some (r.reply j))).2
    ⟨fun r hr => ⟨(hx r hr).1, fun hcopied => ?_⟩, fun j _ => h.resp j⟩)
  exact absurd hcopied (by simp [(hx r hr).2])

lemma Inv.recv {fault : Bool} (hs : recv s i fault = some s') : Inv s' := by
  obtain ⟨hrun, hs⟩ := ite_none_right_eq_some.1 hs
  split at hs
  · obtain rfl := some.inj hs
    exact h
  next m rest hq =>
  have hrest : ∀ j, ∀ m' ∈ update s.queue i rest j, s.Current j m' :=
    (forall_update_iff s.queue fun j L => ∀ m' ∈ L, s.Current j m').2
      ⟨fun m' hm' => h.queued i m' (hq ▸ mem_cons_of_mem _ hm'), fun j _ => h.queued j⟩
  cases fault with
  | true =>
    obtain rfl := some.inj hs
    refine h.serve hrest h.held (fun j d => ?_) h.resp
    by_cases hj : j = i
    · subst hj
      rw [update_self, hq]
      exact ((sublist_cons_self m rest).append_right _).countP_le
    · rw [update_of_ne hj]
  | false =>
    obtain rfl := some.inj hs
    refine h.serve hrest ?_ (fun j d => ?_) fun j r hr => ?_
    · refine (forall_update_iff s.caller fun j x => ∀ m', x = some m' → s.Current j m').2
        ⟨?_, fun j _ => h.held j⟩
      rintro m' ⟨⟩
      exact h.queued i m (hq ▸ mem_cons_self)
    · -- the message moves from the queue to the place of the previous caller
      dsimp only
      by_cases hj : j = i
      · subst hj
        rw [update_self, update_self, hq]
        simp only [countP_append, countP_cons, toList_some, countP_nil]
        omega
      · rw [update_of_ne hj, update_of_ne hj]
    · have hj : j ≠ i := by
        rintro rfl
        rw [hrun.2] at hr
        cases hr
      rw [update_of_ne hj]
      exact h.resp j r hr

lemma Inv.respStart {bytes : List ℕ} {result : ℤ}
    (hs : respStart s i bytes result = some s') : Inv s' := by
  obtain ⟨hrun, hs⟩ := ite_none_right_eq_some.1 hs
  split at hs
  · obtain rfl := some.inj hs
    exact h
  next m hm =>
  obtain rfl := some.inj hs
  refine h.setResp ?_
  rintro r ⟨⟩
  exact ⟨hm, rfl⟩

lemma Inv.pub_none_of_held (hm : s.caller i = some m) : (s.client m.src).pub = none := by
  have htok := h.tokens m.src
  rw [Sys.tokens, (h.held i m hm).1, hm, countP_append] at htok
  have hone : ((some m).toList.countP fun m' => m'.src = m.src) = 1 := by simp
  cases hp : (s.client m.src).pub with
  | none => rfl
  | some r =>
    rw [hp, hone, toList_some, length_singleton] at htok
    omega

lemma Inv.respCopy {fault : Bool} (hs : respCopy s i fault = some s') :
    Inv s' := by
  rw [Req.respCopy] at hs
  split at hs
  · cases hs
  next r hr =>
  obtain ⟨hcaller, hcopied⟩ := h.resp i r hr
  split at hs
  · cases hs
  cases fault with
  | true =>
    obtain rfl := some.inj hs
    exact h.setResp nofun
  | false =>
    obtain rfl := some.inj hs
    have hnone := h.pub_none_of_held hcaller
    refine { h with resp := ?resp, pub := ?pub }
    case resp =>
      intro j q hq
      by_cases hj : j = i
      · subst hj
        dsimp only at hq ⊢
        rw [update_self] at hq
        obtain rfl := some.inj hq
        refine ⟨hcaller, fun _ => ?_⟩
        rw [update_self, update_self]
        rfl
      · dsimp only at hq ⊢
        rw [update_of_ne hj] at hq
        obtain ⟨hqcaller, hqcopied⟩ := h.resp j q hq
        -- another server holds another client's request
        have hne : q.caller.src ≠ r.caller.src := by
          intro he
          exact hj ((h.held j _ hqcaller).1.symm.trans (he ▸ (h.held i _ hcaller).1))
        rw [update_of_ne hne]
        exact ⟨hqcaller, hqcopied⟩
    case pub =>
      intro d q hd
      have hne : d ≠ r.caller.src := by
        rintro rfl
        rw [show (s.client r.caller.src).pub = none from hnone] at hd
        cases hd
      rw [Sys.Answers]
      dsimp only
      rw [update_of_ne hne]
      exact h.pub d q hd

end

lemma of_update_none {β : Type*} {g : ℕ → Option β} {j : ℕ} {b : β}
    (h : update g i none j = some b) : j ≠ i ∧ g j = some b := by
  by_cases hj : j = i
  · simp [hj] at h
  · exact ⟨hj, by rwa [update_of_ne hj] at h⟩

lemma Client.wake_eq (x : Client) :
    ∃ phase timedOut, x.wake = { x with phase := phase, timedOut := timedOut } ∧
      (phase = .armed → x.phase = .armed) := by
  rw [Client.wake]
  split_ifs
  · exact ⟨.ready, false, rfl, by rintro ⟨⟩⟩
  · exact ⟨x.phase, x.timedOut, rfl, id⟩

lemma Inv.respPublish (h : Inv s) (hs : respPublish s i = some s') : Inv s' := by
  rw [Req.respPublish] at hs
  split at hs
  · cases hs
  next r hr =>
  obtain ⟨hbytes, rfl⟩ := of_guard hs
  obtain ⟨hcaller, hcopied⟩ := h.resp i r hr
  obtain ⟨htarget, hrequest⟩ := h.held i _ hcaller
  have hnone := h.pub_none_of_held hcaller
  set c := r.caller.src with hc
  obtain ⟨phase, timedOut, hwake, harmed⟩ := Client.wake_eq { s.client c with
    result := r.result, replied := true, pub := some (r.reply i) }
  rw [hwake]
  set x : Client := { s.client c with
    phase := phase, result := r.result, replied := true, pub := some (r.reply i)
    timedOut := timedOut } with hx
  -- the token of the request passes from the held message to the reply
  have htok : ∀ d, Sys.tokens { s.setClient c x with
      resp := update s.resp i none
      caller := update s.caller i none } d = s.tokens d := by
    intro d
    rw [Sys.tokens, Sys.tokens]
    dsimp only
    by_cases hd : d = c
    · subst hd
      rw [setClient_self]
      have htx : x.target = i := htarget
      rw [htx, hnone, hcaller, update_self]
      simp [hx, ← hc, countP_append, Sys.setClient]
    · rw [setClient_of_ne hd]
      by_cases hdi : (s.client d).target = i
      · rw [hdi, update_self, hcaller]
        simp [← hc, Ne.symm hd, Sys.setClient]
      · rw [update_of_ne hdi]
        rfl
  constructor
  case queued =>
    intro j m hm
    exact (h.queued j m hm).setClient rfl rfl
  case held =>
    intro j m hm
    exact (h.held j m (of_update_none hm).2).setClient rfl rfl
  case tokens =>
    intro d
    rw [htok]
    exact h.tokens d
  case armed =>
    intro d hd
    rw [htok]
    exact h.armed d (forall_setClient
      (P := fun d y => y.phase = .armed → (s.client d).phase = .armed) harmed (fun _ _ => id) d hd)
  case resp =>
    intro j q hq
    obtain ⟨hj, hq⟩ := of_update_none hq
    dsimp only
    rw [update_of_ne hj]
    obtain ⟨hqcaller, hqcopied⟩ := h.resp j q hq
    have hne : q.caller.src ≠ c := by
      intro he
      exact hj ((h.held j _ hqcaller).1.symm.trans (he ▸ htarget))
    rw [setClient_of_ne hne]
    exact ⟨hqcaller, hqcopied⟩
  case pub =>
    refine forall_setClient (P := fun d y => ∀ r, y.pub = some r → r.server = y.target ∧
      r.request = y.request ∧ r.result = y.result ∧ (r.bytes ≠ [] → s.mem d y.buf = some r))
      ?_ fun d _ => h.pub d
    rintro q ⟨⟩
    exact ⟨htarget.symm, hrequest.symm, rfl, fun hne => hcopied (hbytes.resolve_left hne)⟩
  case replied =>
    exact forall_setClient (P := fun _ y => y.replied = y.pub.isSome) rfl fun d _ => h.replied d
  case ready =>
    exact forall_setClient (P := fun _ y => y.phase = .ready →
      y.timedOut = true ∨ y.sigPending = true ∨ y.pub.isSome = true)
      (fun _ => .inr (.inr rfl)) fun d _ => h.ready d
  case log => exact h.log

/-! ## Runs -/

/-- What the clients and the senders of signals must keep to. -/
def Orderly (s : Sys) : Act → Prop
  | .reqArm c _ _ => s.NoneUnderWay c
  | .signal c masked => masked = true → (s.client c).phase ≠ .blocked
  | _ => True

lemma Inv.step (h : Inv s) {a : Act} (ha : Orderly s a) (hs : step s a = some s') : Inv s' := by
  cases a with
  | reqArm c target buf => exact h.reqArm ha hs
  | reqEnqueue c => exact h.reqEnqueue hs
  | reqWait c => exact h.reqWait hs
  | reqReturn c => exact h.reqReturn hs
  | timeout c => exact h.timeout hs
  | signal c masked => exact some.inj hs ▸ h.signal ha
  | handleSignals c => exact h.handleSignals hs
  | recv i fault => exact h.recv hs
  | respStart i bytes result => exact h.respStart hs
  | respCopy i fault => exact h.respCopy hs
  | respPublish i => exact h.respPublish hs

/-- A request to task 1 and its reply. -/
def answeredRun : List Act :=
  [.reqArm 0 1 100, .reqEnqueue 0, .reqWait 0, .recv 1 false, .respStart 1 [7] 0,
    .respCopy 1 false, .respPublish 1, .reqReturn 0]

/-- The request to task 1 times out, and its answer arrives while the next request, to
task 2, waits. -/
def lateReplyRun : List Act :=
  [.reqArm 0 1 100, .reqEnqueue 0, .reqWait 0, .timeout 0, .reqReturn 0,
    .reqArm 0 2 200, .reqEnqueue 0, .reqWait 0,
    .recv 1 false, .respStart 1 [7] 0, .respCopy 1 false, .respPublish 1, .reqReturn 0]

/-- A signal that the waiting client has blocked. -/
def maskedSignalRun : List Act :=
  [.reqArm 0 1 100, .reqEnqueue 0, .reqWait 0, .signal 0 true, .reqReturn 0]

end XosKernel.Req
