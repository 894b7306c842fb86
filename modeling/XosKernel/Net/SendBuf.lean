/-
# Filling a message buffer from an iovec array

`sys_sendmsg`, `unix_sock_sendmsg`, `unix_dgram_sendto` (`kernel/bsd/socket.c`) and
`netlink_sock_sendmsg` (`kernel/bsd/netlink.c`), as far as they allocate a message buffer and copy
the sender's bytes into it.

The length of the buffer is the sum of the 64-bit lengths in 32 bits; the copy loop uses the lengths
as they are and passes over entries without a base. So the buffer is filled exactly when the sum of
the lengths that are copied is the 32-bit sum of all of them.
-/
import XosKernel.Mem.Layout

namespace XosKernel.SendBuf

open List

/-- `struct iovec`; a base of zero is `NULL`. -/
structure Iovec where
  base : ℕ
  len : ℕ
deriving DecidableEq

def kernelVmaBoundary : ℕ := 0xFFFFFF8000000000

def maxSocketData : ℕ := 65536

/-- The memory of the sender: `none` where a load faults. -/
abbrev UserMem := ℕ → Option UInt8

/-- `validate_user_buf`, and `access_ok` for a size that is not zero. -/
def accessOk (v : Iovec) : Bool :=
  v.base ≠ 0 ∧ v.base ≤ u64 (v.base + v.len) ∧ v.base < kernelVmaBoundary ∧
    u64 (v.base + v.len) ≤ kernelVmaBoundary

/-- The string move of `copy_from_user`: the bytes moved before a fault, and whether there was
none. -/
def movs (mem : UserMem) : ℕ → ℕ → List UInt8 × Bool
  | _, 0 => ([], true)
  | src, n + 1 =>
    match mem src with
    | none => ([], false)
    | some b => (b :: (movs mem (src + 1) n).1, (movs mem (src + 1) n).2)

def copyFromUser (mem : UserMem) (v : Iovec) : List UInt8 × Bool :=
  if accessOk v then movs mem v.base v.len else ([], false)

/-- The entries that are copied: `iov_base && iov_len > 0`. -/
def Iovec.named (v : Iovec) : Bool := v.base ≠ 0 ∧ 0 < v.len

/-- `total += iov_len` over the array, in 32 bits. -/
def total (iov : List Iovec) : ℕ := iov.foldl (fun t v => (t + v.len) % 2 ^ 32) 0

/-- The copy loop with the 32-bit `offset`: what is stored where, and whether every copy
succeeded. -/
def copyLoop (mem : UserMem) : ℕ → List Iovec → List (ℕ × UInt8) × Bool
  | _, [] => ([], true)
  | offset, v :: iov =>
    if v.named then
      let c := copyFromUser mem v
      let w := c.1.mapIdx fun j b => (offset + j, b)
      if c.2 then
        (w ++ (copyLoop mem ((offset + v.len) % 2 ^ 32) iov).1,
          (copyLoop mem ((offset + v.len) % 2 ^ 32) iov).2)
      else (w, false)
    else copyLoop mem offset iov

/-- A send: the length of the buffer it has allocated, the bytes it has stored there, and what it
returns. -/
structure Outcome where
  len : ℕ
  stores : List (ℕ × UInt8)
  result : Except Errno ℕ

/-- A send that fails before it allocates a buffer. -/
def Outcome.reject (e : Errno) : Outcome := ⟨0, [], .error e⟩

/-- The part that the three functions share: `alloc` is whether the allocation succeeds, and `post`
what goes wrong after the copy, if anything does (the control message, the search for the receiver,
its state). -/
def fill (mem : UserMem) (iov : List Iovec) (alloc : Bool) (post : Option Errno) : Outcome :=
  if maxSocketData < total iov then .reject .EMSGSIZE
  else if ¬ alloc then .reject .ENOMEM
  else
    { len := total iov
      stores := (copyLoop mem 0 iov).1
      result :=
        if ¬ (copyLoop mem 0 iov).2 then .error .EFAULT
        else
          match post with
          | some e => .error e
          | none => .ok (total iov) }

/-- `unix_dgram_sendto`; `afUnix` is `sun_family == AF_UNIX`, `pathEmpty` is `sun_path[0] == 0`. -/
def unixDgramSendto (afUnix pathEmpty : Bool) (mem : UserMem) (iov : List Iovec) (alloc : Bool)
    (post : Option Errno) : Outcome :=
  if ¬ afUnix then .reject .EAFNOSUPPORT
  else if pathEmpty then .reject .EINVAL
  else fill mem iov alloc post

/-- `unix_sock_sendmsg`; a datagram socket with a cached destination goes through
`unix_dgram_sendto`. -/
def unixSockSendmsg (dgramDst : Bool) (mem : UserMem) (iov : List Iovec) (alloc : Bool)
    (post : Option Errno) : Outcome :=
  if dgramDst then unixDgramSendto true false mem iov alloc post else fill mem iov alloc post

/-- `netlink_sock_sendmsg`: once the bytes are there the broadcast does not fail. -/
def netlinkSockSendmsg (groups : ℕ) (mem : UserMem) (iov : List Iovec) (alloc : Bool) : Outcome :=
  if groups = 0 then .reject .ENOTCONN else fill mem iov alloc none

inductive Target
  | netlink (groups : ℕ)
  /-- A unix socket without a destination in the message. -/
  | unix (dgramDst : Bool)
  /-- A datagram socket with a destination in the message. -/
  | dgram (afUnix pathEmpty : Bool)
deriving DecidableEq

/-- The checks of `sys_sendmsg` on the array: its length, and `base + len` in 64 bits. -/
def Accepted (iov : List Iovec) : Prop :=
  iov.length ≠ 0 ∧ iov.length ≤ 1024 ∧
    ∀ v ∈ iov, v.base ≠ 0 → v.base < kernelVmaBoundary ∧ u64 (v.base + v.len) ≤ kernelVmaBoundary
deriving Decidable

def sysSendmsg (target : Target) (mem : UserMem) (iov : List Iovec) (alloc : Bool)
    (post : Option Errno) : Outcome :=
  if iov.length = 0 ∨ 1024 < iov.length then .reject .EINVAL
  else if ¬ Accepted iov then .reject .EFAULT
  else
    match target with
    | .netlink groups => netlinkSockSendmsg groups mem iov alloc
    | .unix dgramDst => unixSockSendmsg dgramDst mem iov alloc post
    | .dgram afUnix pathEmpty => unixDgramSendto afUnix pathEmpty mem iov alloc post

/-- The buffer is filled: nothing is stored outside of it, what is stored was read through the
array, and a send that succeeds has stored every byte of it. -/
structure Filled (mem : UserMem) (iov : List Iovec) (o : Outcome) : Prop where
  inside : ∀ x ∈ o.stores, x.1 < o.len
  source : ∀ x ∈ o.stores, ∃ v ∈ iov, ∃ j < v.len, mem (v.base + j) = some x.2
  full : ∀ n, o.result = .ok n → ∀ k < o.len, ∃ b, (k, b) ∈ o.stores

/-! ## What the array asks for -/

/-- The bytes that the loop asks `copy_from_user` for, up to the first entry that it refuses because
it wraps around. -/
def asked : List Iovec → ℕ
  | [] => 0
  | v :: iov => if v.named then (if accessOk v then v.len + asked iov else 0) else asked iov

/-- Some entry is refused whatever the memory holds. -/
def refused (iov : List Iovec) : Bool := iov.any fun v => v.named && !accessOk v

/-- The array is too long for a message, or what is copied is what the buffer was made for. -/
def FillSound (iov : List Iovec) : Prop :=
  maxSocketData < (iov.map Iovec.len).sum % 2 ^ 32 ∨
    asked iov = (iov.map Iovec.len).sum % 2 ^ 32 ∨
    asked iov ≤ (iov.map Iovec.len).sum % 2 ^ 32 ∧ refused iov = true
deriving Decidable

lemma foldl_total (iov : List Iovec) (t : ℕ) :
    iov.foldl (fun t v => (t + v.len) % 2 ^ 32) (t % 2 ^ 32) =
      (t + (iov.map Iovec.len).sum) % 2 ^ 32 := by
  induction iov generalizing t with
  | nil => rfl
  | cons v iov ih =>
    rw [foldl_cons, Nat.mod_add_mod, ih, map_cons, sum_cons, Nat.add_assoc]

lemma total_eq (iov : List Iovec) : total iov = (iov.map Iovec.len).sum % 2 ^ 32 :=
  (foldl_total iov 0).trans (by rw [Nat.zero_add])

/-! ## The copy loop -/

section CopyLoop

variable {mem : UserMem}

lemma movs_length {src n : ℕ} (h : (movs mem src n).2 = true) : (movs mem src n).1.length = n := by
  induction n generalizing src with
  | zero => rfl
  | succ n ih =>
    rw [movs] at h ⊢
    split at h
    · exact nomatch h
    · exact congrArg Nat.succ (ih h)

lemma movs_getElem? {src n j : ℕ} {b : UInt8} (h : (movs mem src n).1[j]? = some b) :
    j < n ∧ mem (src + j) = some b := by
  induction n generalizing src j with
  | zero => exact nomatch h
  | succ n ih =>
    rw [movs] at h
    split at h
    · exact nomatch h
    · next c hc =>
      cases j with
      | zero => exact ⟨Nat.succ_pos n, hc.trans h⟩
      | succ j =>
        obtain ⟨hj, hmem⟩ := ih h
        exact ⟨Nat.succ_lt_succ hj, by rw [← hmem]; congr 1; omega⟩

lemma movs_all (hmem : ∀ a, (mem a).isSome) (src n : ℕ) : (movs mem src n).2 = true := by
  induction n generalizing src with
  | zero => rfl
  | succ n ih =>
    obtain ⟨b, hb⟩ := Option.isSome_iff_exists.1 (hmem src)
    rw [movs, hb]
    exact ih (src + 1)

lemma mem_mapIdx_movs {src n offset : ℕ} {x : ℕ × UInt8}
    (h : x ∈ (movs mem src n).1.mapIdx fun j b => (offset + j, b)) :
    ∃ j < n, x.1 = offset + j ∧ mem (src + j) = some x.2 := by
  obtain ⟨j, hj, rfl⟩ := mem_mapIdx.1 h
  obtain ⟨hlt, hmem⟩ := movs_getElem? (List.getElem?_eq_getElem hj)
  exact ⟨j, hlt, rfl, hmem⟩

lemma exists_mem_mapIdx_movs {src n : ℕ} (offset k : ℕ) (hok : (movs mem src n).2 = true)
    (hk : offset ≤ k) (hk' : k < offset + n) :
    ∃ b, (k, b) ∈ (movs mem src n).1.mapIdx fun j b => (offset + j, b) := by
  have hj : k - offset < (movs mem src n).1.length := by rw [movs_length hok]; omega
  refine ⟨(movs mem src n).1[k - offset], mem_mapIdx.2 ⟨k - offset, hj, ?_⟩⟩
  rw [Nat.add_sub_cancel' hk]

lemma copyFromUser_of_accessOk {v : Iovec} (h : accessOk v = true) :
    copyFromUser mem v = movs mem v.base v.len := if_pos h

lemma copyFromUser_of_not_accessOk {v : Iovec} (h : ¬ accessOk v = true) :
    copyFromUser mem v = ([], false) := if_neg h

variable {v : Iovec} {iov : List Iovec} {offset : ℕ}

lemma copyLoop_of_not_named (h : ¬ v.named = true) :
    copyLoop mem offset (v :: iov) = copyLoop mem offset iov := by rw [copyLoop, if_neg h]

lemma copyLoop_of_refused (h : v.named = true) (ha : ¬ accessOk v = true) :
    copyLoop mem offset (v :: iov) = ([], false) := by
  rw [copyLoop, if_pos h, copyFromUser_of_not_accessOk ha]
  rfl

lemma copyLoop_of_fault (h : v.named = true) (ha : accessOk v = true)
    (hf : ¬ (movs mem v.base v.len).2 = true) :
    copyLoop mem offset (v :: iov) =
      ((movs mem v.base v.len).1.mapIdx fun j b => (offset + j, b), false) := by
  rw [copyLoop, if_pos h, copyFromUser_of_accessOk ha]
  exact if_neg hf

lemma copyLoop_of_copied (h : v.named = true) (ha : accessOk v = true)
    (hf : (movs mem v.base v.len).2 = true) :
    copyLoop mem offset (v :: iov) =
      (((movs mem v.base v.len).1.mapIdx fun j b => (offset + j, b)) ++
          (copyLoop mem ((offset + v.len) % 2 ^ 32) iov).1,
        (copyLoop mem ((offset + v.len) % 2 ^ 32) iov).2) := by
  rw [copyLoop, if_pos h, copyFromUser_of_accessOk ha]
  exact if_pos hf

lemma asked_of_not_named (h : ¬ v.named = true) : asked (v :: iov) = asked iov := by
  rw [asked, if_neg h]

lemma asked_of_accessOk (h : v.named = true) (ha : accessOk v = true) :
    asked (v :: iov) = v.len + asked iov := by rw [asked, if_pos h, if_pos ha]

/-- While the sum of what is asked for fits 32 bits, the loop stores below that sum, and what it has
read through the array. If it gets to the end it has stored all that was asked for, and nothing was
refused. -/
lemma copyLoop_spec (iov : List Iovec) : ∀ offset, offset + asked iov < 2 ^ 32 →
    (∀ x ∈ (copyLoop mem offset iov).1, x.1 < offset + asked iov ∧
      ∃ v ∈ iov, ∃ j < v.len, mem (v.base + j) = some x.2) ∧
    ((copyLoop mem offset iov).2 = true → refused iov = false ∧
      ∀ k, offset ≤ k → k < offset + asked iov → ∃ b, (k, b) ∈ (copyLoop mem offset iov).1) := by
  induction iov with
  | nil =>
    exact fun _ _ => ⟨fun _ hx => absurd hx not_mem_nil,
      fun _ => ⟨rfl, fun k hk hk' => absurd hk' hk.not_gt⟩⟩
  | cons v iov ih =>
    intro offset hlt
    by_cases hn : v.named = true
    · by_cases ha : accessOk v = true
      · rw [asked_of_accessOk hn ha] at hlt ⊢
        have hentry : ∀ x ∈ (movs mem v.base v.len).1.mapIdx fun j b => (offset + j, b),
            x.1 < offset + (v.len + asked iov) ∧
              ∃ u ∈ v :: iov, ∃ j < u.len, mem (u.base + j) = some x.2 := by
          intro x hx
          obtain ⟨j, hj, hx, hmem⟩ := mem_mapIdx_movs hx
          exact ⟨by omega, v, mem_cons_self, j, hj, hmem⟩
        by_cases hf : (movs mem v.base v.len).2 = true
        · rw [copyLoop_of_copied hn ha hf, Nat.mod_eq_of_lt (by omega)]
          obtain ⟨hrest, hend⟩ := ih (offset + v.len) (by omega)
          refine ⟨forall_mem_append.2 ⟨hentry, fun x hx => ?_⟩, fun hok => ?_⟩
          · obtain ⟨hx, u, hu, huj⟩ := hrest x hx
            exact ⟨by omega, u, mem_cons_of_mem _ hu, huj⟩
          obtain ⟨href, hall⟩ := hend hok
          refine ⟨by simpa [refused, ha] using href, fun k hk hk' => ?_⟩
          by_cases hkv : k < offset + v.len
          · obtain ⟨b, hb⟩ := exists_mem_mapIdx_movs offset k hf hk hkv
            exact ⟨b, mem_append_left _ hb⟩
          · obtain ⟨b, hb⟩ := hall k (by omega) (by omega)
            exact ⟨b, mem_append_right _ hb⟩
        · rw [copyLoop_of_fault hn ha hf]
          exact ⟨hentry, fun h => nomatch h⟩
      · rw [copyLoop_of_refused hn ha]
        exact ⟨fun _ hx => absurd hx not_mem_nil, fun h => nomatch h⟩
    · rw [copyLoop_of_not_named hn]
      rw [asked_of_not_named hn] at hlt ⊢
      obtain ⟨hrest, hend⟩ := ih offset hlt
      refine ⟨fun x hx => ?_, fun hok => ?_⟩
      · obtain ⟨hx, u, hu, huj⟩ := hrest x hx
        exact ⟨hx, u, mem_cons_of_mem _ hu, huj⟩
      · obtain ⟨href, hall⟩ := hend hok
        exact ⟨by simpa [refused, hn] using href, hall⟩

/-- Conversely, in a memory without faults, a loop that stores below `n` was asked for no more. -/
lemma asked_le_of_inside (hmem : ∀ a, (mem a).isSome) {n : ℕ} (hn32 : n < 2 ^ 32)
    (iov : List Iovec) : ∀ offset ≤ n, (∀ x ∈ (copyLoop mem offset iov).1, x.1 < n) →
      offset + asked iov ≤ n := by
  induction iov with
  | nil => exact fun offset hle _ => hle
  | cons v iov ih =>
    intro offset hle hin
    by_cases hn : v.named = true
    · by_cases ha : accessOk v = true
      · have hf := movs_all hmem v.base v.len
        rw [copyLoop_of_copied hn ha hf] at hin
        have hpos : 0 < v.len := (of_decide_eq_true hn).2
        -- the last byte of the entry lies below `n`, so the offset has not wrapped around
        obtain ⟨b, hb⟩ := exists_mem_mapIdx_movs offset (offset + v.len - 1) hf
          (by omega) (by omega)
        have hlast : offset + v.len - 1 < n := hin _ (mem_append_left _ hb)
        rw [Nat.mod_eq_of_lt (by omega)] at hin
        have := ih (offset + v.len) (by omega) fun x hx => hin x (mem_append_right _ hx)
        rw [asked_of_accessOk hn ha]
        omega
      · rw [asked, if_pos hn, if_neg ha]
        omega
    · rw [copyLoop_of_not_named hn] at hin
      rw [asked_of_not_named hn]
      exact ih offset hle hin

lemma copyLoop_ok (hmem : ∀ a, (mem a).isSome) (iov : List Iovec) (href : refused iov = false) :
    ∀ offset, (copyLoop mem offset iov).2 = true := by
  induction iov with
  | nil => exact fun _ => rfl
  | cons v iov ih =>
    intro offset
    obtain ⟨hv, hrest⟩ : ¬ (v.named = true ∧ accessOk v = false) ∧ refused iov = false := by
      simpa [refused] using href
    by_cases hn : v.named = true
    · have ha : accessOk v = true := Bool.eq_true_of_not_eq_false fun h => hv ⟨hn, h⟩
      rw [copyLoop_of_copied hn ha (movs_all hmem _ _)]
      exact ih hrest _
    · rw [copyLoop_of_not_named hn]
      exact ih hrest offset

end CopyLoop

/-! ## Sends -/

lemma filled_reject (mem : UserMem) (iov : List Iovec) (e : Errno) :
    Filled mem iov (.reject e) where
  inside := fun _ hx => absurd hx not_mem_nil
  source := fun _ hx => absurd hx not_mem_nil
  full := fun _ h => nomatch h

/-- What an array that asks for the right number of bytes leads to. -/
lemma filled_fill {iov : List Iovec} (h : FillSound iov) (mem : UserMem) (alloc : Bool)
    (post : Option Errno) : Filled mem iov (fill mem iov alloc post) := by
  fun_cases fill mem iov alloc post with
  | case1 => exact filled_reject ..
  | case2 => exact filled_reject ..
  | case3 hmax =>
    rw [FillSound, ← total_eq] at h
    have hmod : total iov < 2 ^ 32 := total_eq iov ▸ Nat.mod_lt _ (by norm_num)
    obtain ⟨hstored, hend⟩ := copyLoop_spec iov 0 (by omega)
    refine ⟨fun x hx => ?_, fun x hx => (hstored x hx).2, fun n hn k hk => ?_⟩
    · change x.1 < total iov
      have := (hstored x hx).1
      omega
    · have hok : (copyLoop mem 0 iov).2 = true := by
        by_contra hok
        simp [hok] at hn
      obtain ⟨href, hall⟩ := hend hok
      have hask : asked iov = total iov := by
        obtain h | h | h := h
        · exact absurd h hmax
        · exact h
        · exact nomatch h.2.symm.trans href
      exact hall k (Nat.zero_le k) (by rw [hask]; simpa using hk)

/-- The buffers of all three functions are filled exactly, whatever the sender's memory holds, if
and only if the lengths of the entries with a base, added up in full, are the 32-bit sum of all
lengths; or that sum is too large for a message; or an entry that wraps around makes the copy fail
and what comes before it fits. -/
theorem sendmsg_filled_iff {iov : List Iovec} (h : Accepted iov) :
    (∀ target mem alloc post, Filled mem iov (sysSendmsg target mem iov alloc post)) ↔
      FillSound iov := by
  have hlen : ¬ (iov.length = 0 ∨ 1024 < iov.length) := by
    have := h.1
    have := h.2.1
    omega
  constructor
  · intro hall
    -- the memory without faults decides: the loop stores all that it is asked for
    have hfill := hall (.unix false) (fun _ => some 0) true none
    rw [sysSendmsg, if_neg hlen, if_neg (not_not.2 h)] at hfill
    change Filled _ iov (fill _ iov true none) at hfill
    rw [FillSound, ← total_eq]
    by_cases hmax : maxSocketData < total iov
    · exact .inl hmax
    right
    rw [fill, if_neg hmax, if_neg (by decide)] at hfill
    have hmem : ∀ a, ((fun _ => some 0 : UserMem) a).isSome := fun _ => rfl
    have hmod : total iov < 2 ^ 32 := total_eq iov ▸ Nat.mod_lt _ (by norm_num)
    have hle := asked_le_of_inside hmem hmod iov 0 (Nat.zero_le _) hfill.inside
    rw [Nat.zero_add] at hle
    by_cases href : refused iov = true
    · exact .inr ⟨hle, href⟩
    left
    have hok := copyLoop_ok hmem iov (Bool.eq_false_of_not_eq_true href) 0
    by_contra hne
    obtain ⟨b, hb⟩ := hfill.full (total iov) (by simp [hok]) (asked iov) (by
      change asked iov < total iov
      omega)
    have := ((copyLoop_spec iov 0 (by omega)).1 _ hb).1
    omega
  · intro hs target mem alloc post
    unfold sysSendmsg
    rw [if_neg hlen, if_neg (not_not.2 h)]
    cases target with
    | netlink groups =>
      change Filled mem iov (netlinkSockSendmsg groups mem iov alloc)
      unfold netlinkSockSendmsg
      split
      · exact filled_reject ..
      · exact filled_fill hs ..
    | unix dgramDst => cases dgramDst <;> exact filled_fill hs ..
    | dgram afUnix pathEmpty =>
      cases afUnix
      · exact filled_reject ..
      · cases pathEmpty
        · exact filled_fill hs ..
        · exact filled_reject ..

/-- Sixteen bytes, and an entry without a base whose length makes the sum wrap around: the buffer
has 8 bytes. -/
theorem sendmsg_overruns :
    Accepted [⟨0x1000, 16⟩, ⟨0, 2 ^ 32 - 8⟩] ∧
      (sysSendmsg (.unix false) (fun _ => some 0) [⟨0x1000, 16⟩, ⟨0, 2 ^ 32 - 8⟩] true none).len =
      8 ∧
      (15, 0) ∈ (sysSendmsg (.unix false) (fun _ => some 0)
        [⟨0x1000, 16⟩, ⟨0, 2 ^ 32 - 8⟩] true none).stores ∧
      -- an entry without a base is part of the message all the same
      Accepted [⟨0, 16⟩] ∧
      (sysSendmsg (.unix false) (fun _ => some 0) [⟨0, 16⟩] true none).len = 16 ∧
      (sysSendmsg (.unix false) (fun _ => some 0) [⟨0, 16⟩] true none).stores = [] := by
  decide +kernel

/-- Two entries with a base. -/
theorem sendmsg_filled_two : Accepted [⟨0x1000, 16⟩, ⟨0x2000, 8⟩] ∧
    ∀ target mem alloc post, Filled mem [⟨0x1000, 16⟩, ⟨0x2000, 8⟩]
      (sysSendmsg target mem [⟨0x1000, 16⟩, ⟨0x2000, 8⟩] alloc post) :=
  ⟨by decide, (sendmsg_filled_iff (by decide)).2 (by decide)⟩

end XosKernel.SendBuf
