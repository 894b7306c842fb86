/-
# Receives that fail

What the turns of one `sys_recvmsg` take from the queue. Each turn finds the socket in a state of
its own, as anything can happen between two turns. A call that fails before its first turn takes
nothing, nor does one with `MSG_PEEK`.
-/
import XosKernel.Net.UnixStream

namespace XosKernel.UnixMsg

/-- One of the copies of `State.publish` fails. -/
def State.PublishFails (s : State) (c : Call) (env : Env) : Prop :=
  s.dgram = true ∧ env.nameFails = true ∨ c.ctlSize ≠ 0 ∧ env.ctlFails = true ∨ env.flagsFail = true
deriving Decidable

/-- The end of `sys_recvmsg`, which turns a count into `EFAULT`. -/
def Turn.publish (fails : Bool) : Turn → Turn
  | .ret c n => if fails then .fail .EFAULT else .ret c n
  | t => t

/-- A turn of the call, with whether it has changed the queue. -/
def recvStep : Turn × Bool → State × Env → Option (Turn × Bool)
  | (.again c, taken), (s, env) =>
    let r := recvTurn s c env
    some (r.2.publish (s.PublishFails c env), taken || r.1.queue != s.queue)
  | _, _ => none

/-- No copy to an iovec fails once bytes have been taken and none at the end of the call once there
is something to take, the files of the first buffer find descriptors, and a call that goes on after
this buffer finds bytes in it. -/
def Sound : Turn × Bool → State × Env → Prop
  | (.again c, _), (s, env) =>
    (0 < c.totalFilled → ∀ i, env.copyFails i = false) ∧
      (0 < c.totalFilled ∨ s.queue ≠ [] → ¬ s.PublishFails c env) ∧
      ∀ skb ∈ s.queue.head?, (c.waitall = true → skb.consumed < skb.data.length) ∧
        (c.ctlSize = 0 ∨ skb.files.length ≤ s.freeFds.length)
  | _, _ => True

/-- What has been taken is counted, and a call that has failed has taken nothing. -/
def Untaken : Turn × Bool → Prop
  | (.again c, taken) => taken = true → 0 < c.totalFilled
  | (.fail _, taken) => taken = false
  | (.ret _ _, _) => True

variable {taken : Bool} {s : State} {c : Call} {env : Env}

lemma untaken_filledOr (h : Untaken (.again c, taken)) (e : Errno) :
    Untaken (c.filledOr e, taken) := by
  unfold Call.filledOr
  split
  · trivial
  next hfilled => exact Bool.eq_false_iff.2 fun ht => hfilled (h ht)

lemma untaken_more (h : c.waitall = true → taken = true → 0 < c.totalFilled) :
    Untaken (c.more, taken) := by
  unfold Call.more
  split
  · trivial
  next hmore =>
    rw [Bool.or_eq_true, not_or] at hmore
    exact h (by simpa using hmore.1)

lemma untaken_fault {bs : List UInt8} (h : Untaken (.again c, taken))
    (hs : Sound (.again c, taken) (s, env))
    (hfault : scatter env.copyFails c.nulls 0 c.kiov bs = none) : taken = false := by
  refine Bool.eq_false_iff.2 fun ht => ?_
  have hsome : (scatter env.copyFails c.nulls 0 c.kiov bs).isSome := scatter_isSome fun i _ _ =>
    hs.1 (h ht) i
  rw [hfault] at hsome
  exact nomatch hsome

lemma untaken_recvTurn (h : Untaken (.again c, taken)) (hs : Sound (.again c, taken) (s, env)) :
    Untaken ((recvTurn s c env).2, taken || (recvTurn s c env).1.queue != s.queue) := by
  unfold recvTurn
  split
  next hq =>
    rw [bne_self_eq_false, Bool.or_false]
    fun_cases emptyTurn s c env with
    | case1 => trivial
    | case5 => exact h
    | _ => exact untaken_filledOr h _
  next skb rest hq =>
  obtain ⟨hbytes, hfds⟩ := hs.2.2 skb (by rw [hq]; rfl)
  split
  · unfold dgramTurn
    dsimp only
    split
    next hfault =>
      rw [bne_self_eq_false, Bool.or_false]
      exact untaken_fault h hs hfault
    next stores _ =>
      obtain ⟨f, r, a, b, heq⟩ := takeFiles_fits { s with queue := rest }
        (c.fill stores (dgramToRead c.kiov skb.data.length)) hfds
      rw [heq]
      trivial
  unfold streamTurn
  dsimp only
  split
  next hfault =>
    rw [bne_self_eq_false, Bool.or_false]
    exact untaken_fault h hs hfault
  next stores _ =>
  set n := toRead c.kiov (skb.data.length - skb.consumed)
  split
  next hend =>
    obtain ⟨f, r, a, b, heq⟩ := takeFiles_fits { s with queue := rest } (c.fill stores n) hfds
    rw [heq]
    refine untaken_more fun hw _ => ?_
    have := hbytes hw
    change 0 < c.totalFilled + n
    omega
  · refine untaken_more fun _ ht => ?_
    change 0 < c.totalFilled + n
    obtain hn | hn := Nat.eq_zero_or_pos n
    · rw [hn, hq] at ht
      have := h (by simpa using ht)
      omega
    · omega

lemma untaken_publish (h : Untaken (.again c, taken)) (hs : Sound (.again c, taken) (s, env)) :
    Untaken ((recvTurn s c env).2.publish (s.PublishFails c env),
      taken || (recvTurn s c env).1.queue != s.queue) := by
  have hturn := untaken_recvTurn h hs
  cases hr : (recvTurn s c env).2 with
  | again | fail => rwa [hr] at hturn
  | ret c' n =>
    rw [Turn.publish]
    split
    next hfails =>
      obtain ⟨hfilled, hq⟩ := not_or.1 fun hsome => hs.2.1 hsome (of_decide_eq_true hfails)
      have htaken : taken = false := Bool.eq_false_iff.2 fun ht => hfilled (h ht)
      have hqueue : (recvTurn s c env).1.queue = s.queue := by
        rw [recvTurn, not_not.1 hq]
        exact not_not.1 hq
      rw [htaken, hqueue, bne_self_eq_false]
      rfl
    · trivial

lemma untaken_step {t t' : Turn × Bool} {x : State × Env} (h : Untaken t) (hs : Sound t x)
    (hstep : recvStep t x = some t') : Untaken t' := by
  obtain ⟨t, taken⟩ := t
  obtain ⟨s, env⟩ := x
  cases t with
  | fail | ret => exact nomatch hstep
  | again c =>
    obtain rfl := Option.some.inj hstep
    exact untaken_publish h hs

/-- A call all of whose turns are sound leaves the queue as it was if it fails. -/
theorem untaken_of_sound {turns : List (State × Env)} {e : Errno}
    (hs : Meets recvStep Sound (.again c, false) turns)
    (h : exec recvStep (.again c, false) turns = some (.fail e, taken)) : taken = false := by
  have h0 : Untaken (.again c, false) := fun ht => nomatch ht
  exact exec_invariant_of_meets (fun _ _ _ => untaken_step) turns _ (.fail e, taken) h0 hs h

def holding (buffers : List (List UInt8)) : State :=
  { init false with queue := buffers.map (⟨·, 0, []⟩) }

theorem untaken_of_sound_first : ∃ taken, exec recvStep (.again (.start [2] [] true false 0), false)
    [(holding [[1, 2]], { calm with copyFails := fun _ => true })] = some (.fail .EFAULT, taken) ∧
    taken = false := by
  refine ⟨false, ?run, untaken_of_sound ?sound ?run⟩
  · decide +kernel
  · simp [Meets, Sound, Call.start, holding, calm, State.PublishFails]

/-- A `MSG_WAITALL` receive fails in its second iovec, after it has taken the first buffer, and a
receive fails when it stores the flags. -/
theorem taken_and_failed : exec recvStep (.again (.start [2, 2] [] true false 0), false)
    [(holding [[1, 2], [3, 4]], calm),
      (holding [[3, 4]], { calm with copyFails := fun i => i = 1 })] = some (.fail .EFAULT, true) ∧
    exec recvStep (.again (.start [2] [] false false 0), false)
      [(holding [[1, 2]], { calm with flagsFail := true })] = some (.fail .EFAULT, true) := by
  decide +kernel

end XosKernel.UnixMsg
