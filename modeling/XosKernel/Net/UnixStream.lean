/-
# A unix stream is a sequence of bytes

The bytes that the receives of a stream return, followed by those that a receive holds which has not
returned yet and by those that stand in the queue, are the bytes that were sent. This needs every
send to make a buffer that holds its bytes and is not empty, every receive to see its iovecs with
their lengths, and every turn that takes bytes to hand them over: it is not cut short after that,
and no other receive holds bytes at the time.
-/
import XosKernel.Lib.Run
import XosKernel.Net.UnixMsg

namespace XosKernel.UnixMsg

open List Option State SendBuf Nat Bool

open SendBuf (Iovec UserMem)
open Scatter

/-! ## What the operations on files leave alone -/

section Shape

variable (s : State) (c : Call)

lemma foldl_fdInstall_eq (xs : List (ℕ × ℕ)) (s : State) :
    ∃ f, xs.foldl State.fdInstall s = { s with fds := f } := by
  induction xs generalizing s with
  | nil => exact ⟨s.fds, rfl⟩
  | cons x xs ih =>
    obtain ⟨f, hf⟩ := ih (s.fdInstall x)
    exact ⟨f, hf⟩

lemma fdUninstall_eq (fd : ℕ) : ∃ f r, s.fdUninstall fd = { s with fds := f, released := r } := by
  rw [fdUninstall]
  split
  · exact ⟨_, _, rfl⟩
  · exact ⟨_, s.released, rfl⟩

lemma foldl_fdUninstall_eq (fds : List ℕ) (s : State) :
    ∃ f r, fds.foldl State.fdUninstall s = { s with fds := f, released := r } := by
  induction fds generalizing s with
  | nil => exact ⟨s.fds, s.released, rfl⟩
  | cons fd fds ih =>
    obtain ⟨f, r, hfd⟩ := fdUninstall_eq s fd
    obtain ⟨f', r', hfds⟩ := ih { s with fds := f, released := r }
    exact ⟨f', r', by rw [foldl_cons, hfd, hfds]⟩

lemma scmRollback_eq : ∃ f r, s.scmRollback c = { s with fds := f, released := r } := by
  rw [scmRollback]
  split
  · exact ⟨s.fds, s.released, rfl⟩
  · exact foldl_fdUninstall_eq c.ctlFds s

lemma publish_eq (env : Env) :
    ∃ f r p, s.publish c env = { s with fds := f, released := r, reported := p } := by
  rw [publish]
  split_ifs
  · exact ⟨_, _, _, rfl⟩
  · obtain ⟨f, r, h⟩ := scmRollback_eq s c
    exact ⟨f, r, s.reported, h⟩
  all_goals exact ⟨_, _, _, rfl⟩

lemma takeFiles_eq (files : List ℕ) : ∃ f r a b e,
    s.takeFiles c files =
      ({ s with fds := f, released := r }, { c with ctlLen := a, ctlFds := b }, e) := by
  rw [takeFiles, scmInstall]
  split_ifs
  · exact ⟨_, _, _, _, _, rfl⟩
  · exact ⟨s.fds, _, _, _, _, rfl⟩
  · exact ⟨s.fds, _, _, _, _, rfl⟩
  · obtain ⟨f, hf⟩ := foldl_fdInstall_eq
      ((s.freeFds.take (files.take scmMaxFd).length).zip (files.take scmMaxFd)) s
    exact ⟨f, s.released, _, _, _, by rw [hf]⟩

lemma takeFiles_fits {files : List ℕ} (h : c.ctlSize = 0 ∨ files.length ≤ s.freeFds.length) :
    ∃ f r a b,
    s.takeFiles c files = ({ s with fds := f, released := r }, { c with ctlLen := a, ctlFds := b },
    none) := by
  obtain ⟨f, r, a, b, e, heq⟩ := takeFiles_eq s c files
  have hok : (s.takeFiles c files).2.2 = none := by
    rw [takeFiles, scmInstall]
    split_ifs with h1 h2 h3
    · rfl
    · rfl
    · have hle := length_take_le' scmMaxFd files
      have := h.resolve_left fun h0 => h2 (.inl h0)
      omega
    · rfl
  rw [heq] at hok
  exact ⟨f, r, a, b, hok ▸ heq⟩

end Shape

/-! ## The loops over the iovecs -/

def Narrow (kiov : List (ℕ × ℕ)) : Prop := ∀ x ∈ kiov, x.2 < 2 ^ 32

variable {kiov : List (ℕ × ℕ)} {fails : ℕ → Bool} {mem : UserMem} {n : ℕ} {iov : List Iovec}
  {c' : Call}

lemma toRead_eq (hn : Narrow kiov) (avail : ℕ) : toRead kiov avail = min (room kiov) avail := by
  induction kiov generalizing avail with
  | nil => exact (zero_min avail).symm
  | cons x kiov ih =>
    obtain ⟨p, l⟩ := x
    have hl : l % 2 ^ 32 = l := mod_eq_of_lt (hn _ mem_cons_self)
    rw [toRead, hl, ih fun x hx => hn x (mem_cons_of_mem _ hx), room_cons]
    omega

/-- What fits is stored at consecutive places. -/
lemma scatter_eq_stamp (hn : Narrow kiov) :
    ∀ {i q : ℕ} {bs : List UInt8} {stores : List (ℕ × UInt8)}, Consecutive q kiov →
      bs.length ≤ room kiov → scatter fails [] i kiov bs = some stores → stores = stamp q bs := by
  intro i q bs stores hc hle h
  fun_induction scatter fails [] i kiov bs generalizing q stores with
  | case1 => exact (some.inj h).symm
  | case2 => exact absurd hle (not_succ_le_zero _)
  | case3 i p l kiov b bs h0 ih =>
    obtain rfl : l = 0 := by simpa using h0
    rw [room_cons, zero_add] at hle
    exact ih (fun x hx => hn x (mem_cons_of_mem _ hx)) hc.2 hle h
  | case4 => exact nomatch h
  | case5 i p l kiov b bs h0 _ ih =>
    have hl : l % 2 ^ 32 = l := mod_eq_of_lt (hn _ mem_cons_self)
    rw [hl] at ih h
    obtain ⟨hp, hrest⟩ := hc
    obtain ⟨st, hst, rfl⟩ := map_eq_some_iff.1 h
    rw [hp (pos_of_ne_zero fun h => h0 (.inl h))]
    rw [room_cons] at hle
    have hdrop : ((b :: bs).drop l).length ≤ room kiov := by rw [length_drop]; omega
    rw [ih (fun x hx => hn x (mem_cons_of_mem _ hx)) hrest hdrop hst]
    by_cases hlen : l ≤ (b :: bs).length
    · rw [show q + l = q + ((b :: bs).take l).length by rw [length_take_of_le hlen],
        ← stamp_append, take_append_drop]
    · rw [drop_of_length_le (by omega), take_of_length_le (by omega), stamp_nil, append_nil]

lemma scatter_isSome :
    ∀ {nulls : List ℕ} {i : ℕ} {bs : List UInt8}, (∀ k, i ≤ k → k < i + kiov.length → fails k =
      false) → (scatter fails nulls i kiov bs).isSome := by
  intro nulls i bs hf
  fun_induction scatter fails nulls i kiov bs with
  | case1 => rfl
  | case2 => rfl
  | case3 i p l kiov b bs _ ih =>
    exact ih fun k hk hk' => hf k (by omega) (by rw [length_cons]; omega)
  | case4 i p l kiov b bs _ hi =>
    exact absurd (hf i le_rfl (by rw [length_cons]; omega)) (by simp [hi])
  | case5 i p l kiov b bs _ _ ih =>
    rw [isSome_map]
    exact ih fun k hk hk' => hf k (by omega) (by rw [length_cons]; omega)

/-! ## The bytes of a send -/

lemma movs_eq {src : ℕ} (h : (SendBuf.movs mem src n).2 = true) :
    (SendBuf.movs mem src n).1 = (List.range n).map fun j => (mem (src + j)).getD 0 := by
  refine ext_getElem (by rw [movs_length h, length_map, length_range]) ?_
  intro j hj hj'
  rw [(getElem_map ..), getElem_range, (movs_getElem? (List.getElem?_eq_getElem hj)).2, getD_some]

/-- The copy loop stores the bytes that the array names at consecutive places. -/
lemma copyLoop_eq_stamp (hbase : ∀ v ∈ iov, v.base ≠ 0) :
    ∀ {offset : ℕ}, offset + (iov.map Iovec.len).sum < 2 ^ 32 →
      (SendBuf.copyLoop mem offset iov).2 = true →
      (SendBuf.copyLoop mem offset iov).1 = stamp offset (iovBytes mem iov) := by
  induction iov with
  | nil => exact fun _ _ => rfl
  | cons v iov ih =>
    intro offset hlt hok
    rw [map_cons, sum_cons] at hlt
    have hbytes : iovBytes mem (v :: iov) =
        ((List.range v.len).map fun j => (mem (v.base + j)).getD 0) ++ iovBytes mem iov := rfl
    have ih := @ih fun u hu => hbase u (mem_cons_of_mem _ hu)
    by_cases hn : v.named = true
    · by_cases ha : accessOk v = true
      · by_cases hf : (movs mem v.base v.len).2 = true
        · rw [copyLoop_of_copied hn ha hf, mod_eq_of_lt (by omega)] at hok ⊢
          rw [ih (by omega) hok, hbytes, ← movs_eq hf, stamp_append, movs_length hf]
          rfl
        · rw [copyLoop_of_fault hn ha hf] at hok
          exact nomatch hok
      · rw [copyLoop_of_refused hn ha] at hok
        exact nomatch hok
    · have hv : v.len = 0 := by
        by_contra hv
        exact hn (decide_eq_true ⟨hbase v mem_cons_self, pos_of_ne_zero hv⟩)
      rw [copyLoop_of_not_named hn] at hok ⊢
      rw [hbytes, hv]
      exact ih (by omega) hok

lemma length_iovBytes (mem : UserMem) (iov : List Iovec) :
    (iovBytes mem iov).length = (iov.map Iovec.len).sum := by
  simp [iovBytes, length_flatMap]

lemma fill_ok {alloc : Bool} {post : Option Errno}
    (h : (SendBuf.fill mem iov alloc post).result = .ok n) :
    (SendBuf.fill mem iov alloc post).len = SendBuf.total iov ∧
      (SendBuf.fill mem iov alloc post).stores = (SendBuf.copyLoop mem 0 iov).1 ∧
      (SendBuf.copyLoop mem 0 iov).2 = true ∧ post = none := by
  revert h
  fun_cases SendBuf.fill mem iov alloc post with
  | case3 =>
    dsimp only
    split_ifs with hok
    · cases post with
      | some e => rintro ⟨⟩
      | none => exact fun _ => ⟨rfl, rfl, hok, rfl⟩
    · rintro ⟨⟩
  | _ => rintro ⟨⟩

lemma readBack_fill {alloc : Bool} {post : Option Errno}
    (hbase : ∀ v ∈ iov, v.base ≠ 0) (hlt : (iov.map Iovec.len).sum < 2 ^ 32)
    (h : (SendBuf.fill mem iov alloc post).result = .ok n) :
    readBack 0 (SendBuf.fill mem iov alloc post).len (SendBuf.fill mem iov alloc post).stores =
      iovBytes mem iov := by
  obtain ⟨hlen, hstores, hok, -⟩ := fill_ok h
  rw [hlen, hstores, copyLoop_eq_stamp hbase (by omega) hok, total_eq,
    mod_eq_of_lt hlt, ← length_iovBytes mem iov, readBack_stamp]

/-! ## The invariant -/

def Call.bytes (c : Call) : List UInt8 := readBack 0 c.totalFilled c.view

/-- A receive has stored `bs` from the beginning on and goes on behind it. -/
structure Call.Holds (c : Call) (bs : List UInt8) : Prop where
  view : c.view = stamp 0 bs
  filled : c.totalFilled = bs.length
  consecutive : Consecutive bs.length c.kiov
  room : room c.kiov + bs.length = c.cap
  narrow : Narrow c.kiov
  based : c.nulls = []

/-- What is still to be read of a buffer. -/
def Skb.left (skb : Skb) : List UInt8 := skb.data.drop skb.consumed

/-- Of two receives only one holds bytes. -/
def Call.Apart (c d : Call) : Prop := c.totalFilled = 0 ∨ d.totalFilled = 0

/-- The bytes on their way: those returned, those held by a receive, those in the queue. -/
def State.trail (s : State) : List UInt8 :=
  s.received ++ s.calls.flatMap Call.bytes ++ s.queue.flatMap Skb.left

/-- The bytes on their way are those sent, unless the socket has been shut down. -/
structure Fifo (s : State) : Prop where
  stream : s.dgram = false
  held : ∀ c ∈ s.calls, c.Holds c.bytes
  lone : s.calls.Pairwise Call.Apart
  fresh : ∀ skb ∈ s.queue, skb.consumed < skb.data.length
  order : s.trail <+: s.sent
  all : s.shutdownRead = false → s.trail = s.sent

lemma Call.Holds.bytes_eq {c : Call} {bs : List UInt8} (h : c.Holds bs) : c.bytes = bs := by
  rw [Call.bytes, h.filled, h.view, readBack_stamp]

lemma Call.bytes_of_zero {c : Call} (h : c.totalFilled = 0) : c.bytes = [] := by
  rw [Call.bytes, h]
  rfl

lemma Call.Apart.symm {c d : Call} (h : c.Apart d) : d.Apart c := Or.symm h

lemma flatMap_bytes_of_zero {calls : List Call} (h : ∀ c ∈ calls, c.totalFilled = 0) :
    calls.flatMap Call.bytes = [] :=
  flatMap_eq_nil_iff.2 fun c hc => Call.bytes_of_zero (h c hc)

lemma exists_append_of_getElem? {α : Type*} {l : List α} {i : ℕ} {x : α} (h : l[i]? = some x) :
    ∃ pre post, l = pre ++ x :: post ∧ l.eraseIdx i = pre ++ post ∧
      ∀ y, l.set i y = pre ++ y :: post := by
  obtain ⟨hi, rfl⟩ := List.getElem?_eq_some_iff.1 h
  refine ⟨l.take i, l.drop (i + 1), ?_, eraseIdx_eq_take_drop_succ l i, fun y => ?_⟩
  · rw [getElem_cons_drop, take_append_drop]
  · rw [set_eq_take_append_cons_drop, if_pos hi]

lemma pairwise_apart_middle {pre post : List Call} {c : Call} :
    (pre ++ c :: post).Pairwise Call.Apart ↔
      (∀ d ∈ pre ++ post, c.Apart d) ∧ (pre ++ post).Pairwise Call.Apart := by
  rw [pairwise_middle fun h => h.symm, pairwise_cons]

namespace Fifo

variable {s : State} {i : ℕ} {c : Call}

/-- A receive that returns what it has stored. -/
lemma ret (h : Fifo s) (hi : s.calls[i]? = some c) (env : Env) :
    Fifo ({ s with calls := s.calls.eraseIdx i }.finish c env c.totalFilled) := by
  obtain ⟨f, r, p, hpub⟩ := publish_eq
    { s with
      calls := s.calls.eraseIdx i
      received := s.received ++ readBack 0 c.totalFilled c.view } c env
  rw [finish, hpub]
  obtain ⟨pre, post, hcalls, herase, -⟩ := exists_append_of_getElem? hi
  obtain ⟨hc, hlone⟩ := pairwise_apart_middle.1 (hcalls ▸ h.lone)
  -- either it holds nothing, or the others do
  have hflat : c.bytes ++ (pre ++ post).flatMap Call.bytes =
      (pre ++ c :: post).flatMap Call.bytes := by
    by_cases h0 : c.totalFilled = 0
    · simp [Call.bytes_of_zero h0]
    · have hzero : ∀ d ∈ pre ++ post, d.totalFilled = 0 := fun d hd => (hc d hd).resolve_left h0
      have hpre := flatMap_bytes_of_zero fun d hd => hzero d (mem_append_left _ hd)
      have hpost := flatMap_bytes_of_zero fun d hd => hzero d (mem_append_right _ hd)
      simp [hpre, hpost]
  have htrail : s.received ++ readBack 0 c.totalFilled c.view ++
      (s.calls.eraseIdx i).flatMap Call.bytes ++ s.queue.flatMap Skb.left = s.trail := by
    rw [trail, herase, hcalls, ← hflat, ← append_assoc s.received]
    rfl
  refine ⟨h.stream, fun d hd => h.held d (mem_of_mem_eraseIdx hd), ?_, h.fresh, ?_, fun hs => ?_⟩
  · exact herase ▸ hlone
  · have horder := h.order
    rw [← htrail] at horder
    exact horder
  · exact htrail.trans (h.all hs)

lemma fail (h : Fifo s) (hi : s.calls[i]? = some c) (h0 : c.totalFilled = 0) :
    Fifo { s with calls := s.calls.eraseIdx i } := by
  obtain ⟨pre, post, hcalls, herase, -⟩ := exists_append_of_getElem? hi
  have htrail : { s with calls := s.calls.eraseIdx i }.trail = s.trail := by
    rw [trail, trail, herase, hcalls, flatMap_append, flatMap_append,
      flatMap_cons, Call.bytes_of_zero h0, nil_append]
  refine ⟨h.stream, fun d hd => h.held d (mem_of_mem_eraseIdx hd), ?_, h.fresh, ?_, fun hs => ?_⟩
  · exact h.lone.sublist (eraseIdx_sublist ..)
  · exact htrail ▸ h.order
  · exact htrail.trans (h.all hs)

lemma left_eq (skb : Skb) (n : ℕ) :
    skb.left = (skb.data.drop skb.consumed).take n ++ skb.data.drop (skb.consumed + n) := by
  rw [Skb.left, ← drop_drop, take_append_drop]

/-- A receive that stores bytes of the first buffer after those that it holds. -/
lemma holds_fill {bs t : List UInt8} {stores : List (ℕ × UInt8)} (hc : c.Holds bs)
    (ht : t.length ≤ Scatter.room c.kiov)
    (hst : scatter fails c.nulls 0 c.kiov t = some stores) (a : ℕ) (b : List ℕ) :
    { c.fill stores t.length with ctlLen := a, ctlFds := b }.Holds (bs ++ t) where
  view := by
    change c.view ++ stores = _
    rw [hc.based] at hst
    rw [hc.view, scatter_eq_stamp hc.narrow hc.consecutive ht hst, stamp_append, zero_add]
  filled := by
    change c.totalFilled + t.length = _
    rw [hc.filled, length_append]
  consecutive := by
    rw [length_append]
    exact consecutive_advance hc.consecutive ht
  room := by
    change Scatter.room (advance c.kiov t.length) + _ = c.cap
    rw [length_append, ← hc.room, ← room_advance ht]
    omega
  narrow := mem_advance_le hc.narrow
  based := by
    change c.nulls.filter _ = []
    rw [hc.based]
    rfl

/-- The call that has taken bytes takes its place among the others, which hold none. -/
lemma take (h : Fifo s) (hi : s.calls[i]? = some c) {skb : Skb} {rest queue : List Skb}
    (hq : s.queue = skb :: rest) (hothers : ∀ d ∈ s.calls.eraseIdx i, d.totalFilled = 0)
    {t later : List UInt8} (hc' : c'.Holds (c.bytes ++ t)) (hleft : skb.left = t ++ later)
    (hqueue : queue.flatMap Skb.left = later ++ rest.flatMap Skb.left)
    (hfresh : ∀ x ∈ queue, x.consumed < x.data.length) (f : ℕ → Slot) (r : ℕ → ℕ) :
    Fifo { s with queue := queue, fds := f, released := r, calls := s.calls.set i c' } := by
  obtain ⟨pre, post, hcalls, herase, hset⟩ := exists_append_of_getElem? hi
  rw [herase] at hothers
  have hpre := flatMap_bytes_of_zero fun d hd => hothers d (mem_append_left _ hd)
  have hpost := flatMap_bytes_of_zero fun d hd => hothers d (mem_append_right _ hd)
  have htrail : { s with
      queue := queue, fds := f, released := r, calls := s.calls.set i c' }.trail = s.trail := by
    rw [trail, trail, hq, hset, hcalls]
    simp only [flatMap_append, flatMap_cons, hpre, hpost, nil_append, append_nil,
      hc'.bytes_eq, hqueue, hleft, append_assoc]
  refine ⟨h.stream, fun d hd => ?_, ?_, hfresh, ?_, fun hs => ?_⟩
  · obtain hd | rfl := mem_or_eq_of_mem_set hd
    · exact h.held d hd
    · exact hc'.bytes_eq.symm ▸ hc'
  · rw [hset, pairwise_apart_middle]
    exact ⟨fun d hd => .inr (hothers d hd), (pairwise_apart_middle.1 (hcalls ▸ h.lone)).2⟩
  · have horder := h.order
    rw [← htrail] at horder
    exact horder
  · exact htrail.trans (h.all hs)

lemma settle_more {t : State} (ht : Fifo { t with calls := t.calls.set i c' })
    (hi : i < t.calls.length) (env : Env) : Fifo (t.settle i env c'.more) := by
  rw [Call.more]
  split
  · have hc' : (t.calls.set i c')[i]? = some c' := List.getElem?_set_self hi
    have hret := ht.ret hc' env
    rwa [eraseIdx_set_eq] at hret
  · exact ht

/-- A turn with an empty queue hands out what the call holds, or leaves it, or ends it when it holds
nothing. -/
lemma settle_empty (h : Fifo s) (hi : s.calls[i]? = some c) (env : Env) :
    Fifo (s.settle i env (emptyTurn s c env)) := by
  have hor (e : Errno) : Fifo (s.settle i env (c.filledOr e)) := by
    rw [Call.filledOr]
    split
    · exact h.ret hi env
    · exact h.fail hi (by omega)
  rw [emptyTurn]
  split_ifs
  · exact h.ret hi env
  · exact hor _
  · exact hor _
  · exact hor _
  · have hset : s.calls.set i c = s.calls := by
      obtain ⟨hlt, rfl⟩ := List.getElem?_eq_some_iff.1 hi
      exact set_getElem_self hlt
    simp only [settle, hset]
    exact h

end Fifo

/-! ## Steps -/

/-- A turn that takes bytes hands them over: no other receive holds bytes, the copy does not fail
after some have been handed over, and there are descriptors for the files. -/
def TurnSound (s : State) (i : ℕ) (env : Env) (c : Call) : Prop :=
  (∀ d ∈ s.calls.eraseIdx i, d.totalFilled = 0) ∧
    (c.totalFilled = 0 ∨ ∀ k < c.kiov.length, env.copyFails k = false) ∧
    (c.ctlSize = 0 ∨ ∀ skb ∈ s.queue.head?, skb.files.length ≤ s.freeFds.length)

/-- The condition on a step: no base is `NULL`, sends are not empty and their lengths fit 32 bits
together, the lengths of a receive fit 32 bits each, and turns that find a buffer are sound. -/
def FifoSound (s : State) : Action → Prop
  | .send m => (∀ v ∈ m.iov, v.base ≠ 0) ∧ (m.iov.map Iovec.len).sum ≠ 0 ∧
      (m.iov.map Iovec.len).sum < 2 ^ 32
  | .recv lens nulls _ _ _ => nulls = [] ∧ ∀ l ∈ lens, l < 2 ^ 32
  | .turn i env => s.queue = [] ∨ ∀ c ∈ s.calls[i]?, TurnSound s i env c
  | _ => True

instance (s : State) (i : ℕ) (env : Env) (c : Call) : Decidable (TurnSound s i env c) :=
  inferInstanceAs (Decidable (_ ∧ _ ∧ _))

instance (s : State) (a : Action) : Decidable (FifoSound s a) := by
  cases a <;> unfold FifoSound <;> infer_instance

namespace Fifo

variable {s : State} {i : ℕ} {c : Call}

lemma settle_stream (h : Fifo s) (hi : s.calls[i]? = some c) {skb : Skb} {rest : List Skb}
    (hq : s.queue = skb :: rest) {env : Env} (hs : TurnSound s i env c) :
    Fifo ((streamTurn s c env skb rest).1.settle i env (streamTurn s c env skb rest).2) := by
  obtain ⟨hothers, hfault, hfds⟩ := hs
  have hc : c.Holds c.bytes := h.held c (mem_of_getElem? hi)
  have hlt : i < s.calls.length := (List.getElem?_eq_some_iff.1 hi).1
  have hfresh : ∀ x ∈ rest, x.consumed < x.data.length := fun x hx =>
    h.fresh x (hq ▸ mem_cons_of_mem _ hx)
  set n := toRead c.kiov (skb.data.length - skb.consumed) with hn
  have hmin : n = min (room c.kiov) (skb.data.length - skb.consumed) := toRead_eq hc.narrow _
  have hlen : ((skb.data.drop skb.consumed).take n).length = n := by
    rw [length_take, length_drop]
    omega
  rw [streamTurn]
  simp only [← hn]
  cases hst : scatter env.copyFails c.nulls 0 c.kiov ((skb.data.drop skb.consumed).take n) with
  | none =>
    -- a fault: then nothing has been handed over, and nothing is taken
    refine h.fail hi (hfault.resolve_right fun hno => ?_)
    have hsome : (scatter env.copyFails [] 0 c.kiov ((skb.data.drop skb.consumed).take n)).isSome :=
      scatter_isSome fun k _ hk => hno k (zero_add c.kiov.length ▸ hk)
    rw [← hc.based, hst] at hsome
    exact nomatch hsome
  | some stores =>
    have hfill := fun a b => holds_fill hc (hlen.trans_le (hmin ▸ min_le_left _ _)) hst a b
    rw [hlen] at hfill
    dsimp only
    split
    next hend =>
      -- the buffer is finished
      obtain ⟨f, r, a, b, heq⟩ := takeFiles_fits { s with queue := rest } (c.fill stores n)
        (hfds.imp_right fun hf => hf skb (by rw [hq]; rfl))
      rw [heq]
      refine settle_more ?_ (by exact hlt) env
      refine h.take hi hq hothers (hfill a b) (left_eq skb n) ?_ hfresh f r
      rw [drop_of_length_le hend, nil_append]
    next hend =>
      refine settle_more ?_ (by exact hlt) env
      refine h.take hi hq hothers (hfill 0 c.ctlFds) (left_eq skb n) rfl ?_ s.fds s.released
      rintro x hx
      obtain rfl | hx := mem_cons.1 hx
      · exact not_le.1 hend
      · exact hfresh x hx

lemma turn (h : Fifo s) (hi : s.calls[i]? = some c) {env : Env}
    (hs : s.queue = [] ∨ TurnSound s i env c) :
    Fifo ((recvTurn s c env).1.settle i env (recvTurn s c env).2) := by
  rw [recvTurn]
  cases hq : s.queue with
  | nil => exact h.settle_empty hi env
  | cons skb rest =>
    simp only [h.stream]
    exact h.settle_stream hi hq (hs.resolve_left (by simp [hq]))

lemma send (h : Fifo s) {m : Send} (hbase : ∀ v ∈ m.iov, v.base ≠ 0)
    (hpos : (m.iov.map Iovec.len).sum ≠ 0) (hlt : (m.iov.map Iovec.len).sum < 2 ^ 32) :
    Fifo (sendmsg s m).1 := by
  rw [sendmsg]
  cases hres : (fill m.mem m.iov m.alloc (sendPost s m)).result with
  | error e => simpa only [hres] using h
  | ok n =>
    have hdata := readBack_fill hbase hlt hres
    obtain ⟨-, -, -, hpost⟩ := fill_ok hres
    -- the socket was open for the send, so nothing is missing of what was sent before
    have hopen : s.shutdownRead = false := by
      simp only [sendPost] at hpost
      split at hpost
      · exact nomatch hpost
      · simp only [sendCheck, h.stream] at hpost
        by_contra hsr
        simp [eq_true_of_not_eq_false hsr] at hpost
    have htrail : (s.enqueue m (fill m.mem m.iov m.alloc (sendPost s m))).trail =
        s.sent ++ iovBytes m.mem m.iov := by
      rw [← h.all hopen, trail, trail, enqueue, hdata]
      simp [Skb.left]
    refine ⟨h.stream, h.held, h.lone, fun skb hskb => ?_, ?_, fun _ => htrail⟩
    · obtain hskb | hskb := mem_append.1 hskb
      · exact h.fresh skb hskb
      · rw [mem_singleton.1 hskb, hdata, length_iovBytes]
        exact pos_of_ne_zero hpos
    · exact htrail ▸ prefix_rfl

lemma drop (h : Fifo s) : Fifo { s.dropQueue with shutdownRead := true } where
  __ := h
  fresh := fun _ hx => absurd hx not_mem_nil
  order := by
    refine List.IsPrefix.trans ?_ h.order
    exact prefix_append_right_inj _ |>.2 ( nil_prefix)
  all := fun hs => nomatch hs

lemma recv (h : Fifo s) {lens : List ℕ} (hlens : ∀ l ∈ lens, l < 2 ^ 32) (w n : Bool) (size : ℕ) :
    Fifo { s with calls := s.calls ++ [.start lens [] w n size] } := by
  have htrail : { s with calls := s.calls ++ [Call.start lens [] w n size] }.trail = s.trail := by
    rw [trail, trail, flatMap_append, flatMap_singleton, Call.bytes_of_zero rfl, append_nil]
  refine ⟨h.stream, fun c hc => ?_, ?_, h.fresh, ?_, fun hs => htrail.trans (h.all hs)⟩
  · obtain hc | hc := mem_append.1 hc
    · exact h.held c hc
    · obtain rfl := mem_singleton.1 hc
      exact ⟨rfl, rfl, consecutive_segments 0 lens, room_segments 0 lens,
        fun x hx => hlens _ (mem_segments hx), rfl⟩
  · refine pairwise_append.2 ⟨h.lone, pairwise_singleton _ _, fun c _ d hd => ?_⟩
    exact .inr (mem_singleton.1 hd ▸ rfl)
  · exact htrail ▸ h.order

end Fifo

theorem step_fifo {s t : State} {a : Action} (h : Fifo s) (hs : FifoSound s a)
    (hst : step s a = some t) : Fifo t := by
  cases a with
  | send m =>
    obtain ⟨hbase, hpos, hlt⟩ := hs
    exact some.inj hst ▸ h.send hbase hpos hlt
  | recv lens nulls w n size =>
    obtain ⟨rfl, hlens⟩ := hs
    exact some.inj hst ▸ h.recv hlens w n size
  | turn i env =>
    obtain ⟨c, hi, rfl⟩ := map_eq_some_iff.1 hst
    exact h.turn hi (hs.imp_right fun hc => hc c hi)
  | shutdownRead => exact some.inj hst ▸ h.drop
  | peerShutdownWrite =>
    obtain rfl := some.inj hst
    exact { h with }
  | close =>
    obtain rfl := some.inj hst
    exact { h.drop with }
  | peerClose =>
    obtain rfl := some.inj hst
    refine { h with all := fun hs => h.all ?_ }
    exact (or_eq_false_iff.1 hs).1
  | openFd fd =>
    obtain ⟨-, rfl⟩ := of_guard hst
    exact { h with }
  | closeFd fd =>
    obtain ⟨-, hst⟩ := ite_none_right_eq_some.1 hst
    obtain ⟨f, r, heq⟩ := fdUninstall_eq s fd
    obtain rfl := some.inj hst
    rw [heq]
    exact { h with }

lemma fifo_init : Fifo (init false) where
  stream := rfl
  held := fun _ hc => absurd hc not_mem_nil
  lone := List.Pairwise.nil
  fresh := fun _ hx => absurd hx not_mem_nil
  order := prefix_rfl
  all := fun _ => rfl

/-! ## Receives that return nothing -/

/-- The peer is open, and neither side has been shut down in this direction. -/
def State.Streaming (s : State) : Prop :=
  s.peerOpen = true ∧ s.shutdownRead = false ∧ s.peerShutdownWrite = false
deriving Decidable

lemma more_ne_ret_zero {c : Call} (h : 0 < c.totalFilled) : c.more ≠ .ret c' 0 := by
  intro heq
  rw [Call.more] at heq
  split at heq
  · have := (Turn.ret.inj heq).2
    omega
  · exact nomatch heq

lemma filledOr_ne_ret_zero (c c' : Call) (e : Errno) : c.filledOr e ≠ .ret c' 0 := by
  intro heq
  rw [Call.filledOr] at heq
  split at heq
  · have := (Turn.ret.inj heq).2
    omega
  · exact nomatch heq

/-- While data can still come, a receive with room for some does not return nothing. -/
lemma Fifo.ret_ne_zero {s : State} (h : Fifo s) (ho : s.Streaming) {c : Call} (hc : c ∈ s.calls)
    (hcap : c.cap ≠ 0) (env : Env) (c' : Call) : (recvTurn s c env).2 ≠ .ret c' 0 := by
  obtain ⟨hpeer, hread, hwrite⟩ := ho
  have hold := h.held c hc
  rw [recvTurn]
  cases hq : s.queue with
  | nil =>
    have heof : atEof s env = false := by simp [atEof, h.stream, hpeer, hread, hwrite]
    simp only [emptyTurn, heof, false_eq_true, if_false]
    split_ifs
    · exact filledOr_ne_ret_zero c c' _
    · exact filledOr_ne_ret_zero c c' _
    · exact filledOr_ne_ret_zero c c' _
    · exact nofun
  | cons skb rest =>
    simp only [if_neg (not_eq_true _ ▸ h.stream : ¬ s.dgram = true), streamTurn]
    have hskb := h.fresh skb (hq ▸ mem_cons_self)
    -- something has been filled already, or there is room for some of what is in the buffer
    have hpos : 0 < c.totalFilled + toRead c.kiov (skb.data.length - skb.consumed) := by
      have := hold.room
      rw [toRead_eq hold.narrow, hold.filled]
      omega
    cases scatter env.copyFails c.nulls 0 c.kiov
        ((skb.data.drop skb.consumed).take (toRead c.kiov (skb.data.length - skb.consumed))) with
    | none => exact nofun
    | some stores =>
      dsimp only
      split_ifs
      · obtain ⟨f, r, a, b, e, heq⟩ := takeFiles_eq { s with queue := rest }
          (c.fill stores (toRead c.kiov (skb.data.length - skb.consumed))) skb.files
        rw [heq]
        cases e with
        | some e => exact nofun
        | none => exact more_ne_ret_zero hpos
      · exact more_ne_ret_zero hpos

/-- In every run whose steps all meet the condition the bytes received are a prefix of those sent,
and while data can still come no receive with room returns nothing. -/
theorem stream_fifo_of_sound {as : List Action} {s : State}
    (hs : Meets step FifoSound (init false) as) (h : exec step (init false) as = some s) :
    s.received <+: s.sent ∧
      ∀ c ∈ s.calls, c.cap ≠ 0 → s.Streaming → ∀ env c', (recvTurn s c env).2 ≠ .ret c' 0 := by
  have hfifo := exec_invariant_of_meets (fun _ _ _ => step_fifo) as _ s fifo_init hs h
  refine ⟨?_, fun c hc hcap ho env c' => hfifo.ret_ne_zero ho hc hcap env c'⟩
  refine List.IsPrefix.trans ?_ hfifo.order
  rw [trail, append_assoc]
  exact prefix_append _ _

/-- A send of `n` bytes without files from a memory in which every address holds its low byte. -/
def plainSend (base n : ℕ) : Send :=
  { iov := [⟨base, n⟩]
    mem := fun a => some (UInt8.ofNat a)
    alloc := true
    cmsg := fun _ => ⟨0, false, fun _ => false⟩
    controllen := 0
    nonblock := false
    toPath := false
    lookup := none }

/-- A turn in which nothing goes wrong. -/
def calm : Env := ⟨false, fun _ => false, false, false, false, false, false⟩

/-- Two sends and a `MSG_WAITALL` receive of four bytes in between; then a receive of the rest, and
one that waits. -/
def waitallRun : List Action :=
  [.send (plainSend 1 3), .recv [2, 2] [] true false 0, .turn 0 calm, .send (plainSend 4 2),
    .turn 0 calm, .recv [8] [] false false 0, .turn 0 calm, .recv [1] [] false false 0]

theorem stream_fifo_waitall :
    ∃ s, exec step (init false) waitallRun = some s ∧ s.received = [1, 2, 3, 4, 5] ∧
      s.calls ≠ [] ∧ s.Streaming ∧ s.received <+: s.sent ∧
      ∀ c ∈ s.calls, c.cap ≠ 0 → s.Streaming → ∀ env c', (recvTurn s c env).2 ≠ .ret c' 0 := by
  have hmeets : Meets step FifoSound (init false) waitallRun := by decide +kernel
  obtain ⟨s, hs, hrec, hcalls, ho⟩ : ∃ s, exec step (init false) waitallRun = some s ∧
      s.received = [1, 2, 3, 4, 5] ∧ s.calls ≠ [] ∧ s.Streaming := by
    decide +kernel
  exact ⟨s, hs, hrec, hcalls, ho, stream_fifo_of_sound hmeets hs⟩

def emptySendRun : List Action := [.send (plainSend 1 0), .recv [1] [] false false 0]

/-- A `MSG_WAITALL` receive faults in its second iovec, after the bytes of the first send. -/
def faultRun : List Action :=
  [.send (plainSend 1 2), .send (plainSend 3 2), .recv [2, 2] [] true false 0, .turn 0 calm,
    .turn 0 { calm with copyFails := fun i => i = 1 }, .recv [2] [] false false 0, .turn 0 calm]

/-- A receive returns nothing while the peer is open, and the bytes of a failed receive are lost. -/
theorem stream_fifo_wrong :
    (∃ s, exec step (init false) emptySendRun = some s ∧
      ∃ c ∈ s.calls, c.cap ≠ 0 ∧ s.Streaming ∧ (recvTurn s c calm).2 = .ret c 0) ∧
    ∃ s, exec step (init false) faultRun = some s ∧ ¬ s.received <+: s.sent := by
  constructor <;> decide +kernel

end XosKernel.UnixMsg
