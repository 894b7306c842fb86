/-
# Split virtqueues

`vring_create`, `vring_alloc_desc`, `vring_free_desc`, `vring_add_buf` and `vring_poll_used_budget`
(`kernel/driver/virtio_ring.c`).

The arrays of a queue are functions on indices. The device chooses what stands in the used ring: the
index that a poll reads, and the descriptor and the length that each turn of its loop reads. The
turns of the loop are steps of their own, so that buffers can be added between them, as the
callbacks of the drivers may. A context is a pointer that is null or not.
-/
import XosKernel.Lib.Linked
import XosKernel.Lib.Run
import Mathlib.Data.List.Perm.Subperm

namespace XosKernel.Vring

open List Option Function

/-- `VRING_DESC_F_NEXT`, and the flags that a caller may give. -/
def descFNext : ℕ := 1
def descFWrite : ℕ := 2
def descFIndirect : ℕ := 4

def vringMaxSize : ℕ := 1024

structure Desc where
  addr : ℕ
  len : ℕ
  flags : ℕ
  next : ℕ
deriving DecidableEq

def Desc.hasNext (d : Desc) : Bool := d.flags &&& descFNext != 0

inductive DescState
  | free
  | building
  | available
deriving DecidableEq

/-- `struct virtqueue`; `callback` says whether one is set. -/
structure Vq where
  size : ℕ
  desc : ℕ → Desc
  availRing : ℕ → ℕ
  freeHead : ℕ
  freeCnt : ℕ
  nextFree : ℕ → ℕ
  descState : ℕ → DescState
  availIdx : ℕ
  usedIdx : ℕ
  callback : Bool
  ctx : ℕ → Option ℕ
  broken : Bool

/-- `vring_create`, when the memory is there. -/
def vringCreate (size : ℕ) (callback : Bool) : Option Vq :=
  if size = 0 ∨ size > vringMaxSize ∨ size &&& (size - 1) ≠ 0 then none
  else
    some
      { size := size
        desc := fun _ => ⟨0, 0, 0, 0⟩
        availRing := fun _ => 0
        freeHead := 0
        freeCnt := size
        nextFree := fun i => if i + 1 < size then i + 1 else if i + 1 = size then 0xFFFF else 0
        descState := fun _ => .free
        availIdx := 0
        usedIdx := 0
        callback := callback
        ctx := fun _ => none
        broken := false }

/-- `vring_alloc_desc`; `none` is `-1`. -/
def vringAllocDesc (vq : Vq) : Option ℕ × Vq :=
  if vq.size = 0 ∨ vq.freeCnt = 0 ∨ vq.freeHead ≥ vq.size then (none, vq)
  else if vq.descState vq.freeHead ≠ .free then (none, { vq with broken := true })
  else
    (some vq.freeHead,
      { vq with
        freeHead := vq.nextFree vq.freeHead
        freeCnt := vq.freeCnt - 1
        desc := update vq.desc vq.freeHead ⟨0, 0, 0, 0⟩
        descState := update vq.descState vq.freeHead .building })

/-- `vring_free_desc`; the first component says whether it returns `0`. -/
def vringFreeDesc (vq : Vq) (idx : ℕ) : Bool × Vq :=
  if idx ≥ vq.size ∨ vq.descState idx = .free ∨ vq.freeCnt ≥ vq.size then
    (false, { vq with broken := true })
  else
    (true,
      { vq with
        descState := update vq.descState idx .free
        ctx := update vq.ctx idx none
        nextFree := update vq.nextFree idx vq.freeHead
        freeHead := idx
        freeCnt := vq.freeCnt + 1 })

/-! ## Adding a buffer -/

/-- One element of the arrays that `vring_add_buf` gets. -/
structure Buf where
  addr : ℕ
  len : ℕ
  flags : ℕ
deriving DecidableEq

/-- The descriptor for an element, before its `next` is set. -/
def Buf.desc (b : Buf) (more : Bool) : Desc :=
  ⟨b.addr, b.len, b.flags &&& (descFWrite ||| descFIndirect) ||| (if more then descFNext else 0), 0⟩

/-- The first loop of `vring_add_buf`: allocate and fill a descriptor for each element. If that
fails, those allocated so far are freed, the last one first. -/
def allocLoop : Vq → List Buf → List ℕ → Option (List ℕ) × Vq
  | vq, [], allocated => (some allocated, vq)
  | vq, b :: rest, allocated =>
    match vringAllocDesc vq with
    | (none, vq) => (none, allocated.reverse.foldl (fun vq i => (vringFreeDesc vq i).2) vq)
    | (some idx, vq) =>
      allocLoop { vq with desc := update vq.desc idx (b.desc !rest.isEmpty) } rest
      (allocated ++ [idx])

/-- The second loop: link the descriptors and make them available. -/
def linkLoop : Vq → List ℕ → Vq
  | vq, [] => vq
  | vq, [i] => { vq with descState := update vq.descState i .available }
  | vq, i :: j :: l =>
    linkLoop
      { vq with
        desc := update vq.desc i { vq.desc i with next := j }
        descState := update vq.descState i .available } (j :: l)

/-- The end of `vring_add_buf`: store the context and publish the head. -/
def publish (vq : Vq) (head : ℕ) (ctx : Option ℕ) : Vq :=
  { vq with
    ctx := update vq.ctx head ctx
    availRing := update vq.availRing (vq.availIdx % vq.size) head
    availIdx := (vq.availIdx + 1) % 2 ^ 16 }

/-- `vring_add_buf`; `bufs` is `none` if one of the arrays is null, and the result is `none` for
`-1`. -/
def vringAddBuf (vq : Vq) (bufs : Option (List Buf)) (ctx : Option ℕ) : Option ℕ × Vq :=
  match bufs with
  | none => (none, vq)
  | some bufs =>
    if bufs.length = 0 ∨ bufs.length > vq.size ∨ vq.freeCnt < bufs.length ∨
      vq.broken then (none, vq)
    else
      match allocLoop vq bufs [] with
      | (some (head :: l), vq) => (some head, publish (linkLoop vq (head :: l)) head ctx)
      | (_, vq) => (none, vq)

/-! ## Polling -/

/-- The inner loop of `vring_poll_used_budget` from descriptor `cur` on, with `n` turns left of
`walked`; the first component says whether the chain came to its end. -/
def walk : ℕ → ℕ → Vq → Bool × Vq
  | 0, _, vq => (false, { vq with broken := true })
  | n + 1, cur, vq =>
    if cur ≥ vq.size then (false, { vq with broken := true })
    else if vq.descState cur ≠ .available then (false, { vq with broken := true })
    else if (vq.desc cur).hasNext ∧ (vq.desc cur).next ≥ vq.size then
      (false, { vq with broken := true })
    else
      match vringFreeDesc vq cur with
      | (false, vq) => (false, vq)
      | (true, vq') => if (vq.desc cur).hasNext then walk n (vq.desc cur).next vq' else (true, vq')

/-- A poll that is going on: its local variables. -/
structure Poll where
  pending : ℕ
  completions : ℕ
  budget : ℕ
deriving DecidableEq

/-- A descriptor and a context: what a buffer was added with, or what a callback is called for. -/
structure Key where
  head : ℕ
  ctx : Option ℕ
deriving DecidableEq

/-- The queue, the poll that is going on, and all buffers added and callbacks made so far. -/
structure Sys where
  vq : Vq
  polling : Option Poll
  adds : List Key
  calls : List Key

def Sys.start (vq : Vq) : Sys := ⟨vq, none, [], []⟩

/-- The beginning of `vring_poll_used_budget`, which reads `deviceUsed` from the used ring. -/
def pollUsed (s : Sys) (budget deviceUsed : ℕ) : Sys :=
  if s.vq.broken ∨ budget = 0 then s
  else if (deviceUsed + 2 ^ 16 - s.vq.usedIdx) % 2 ^ 16 > s.vq.size then
    { s with vq := { s.vq with broken := true } }
  else { s with polling := some ⟨(deviceUsed + 2 ^ 16 - s.vq.usedIdx) % 2 ^ 16, 0, budget⟩ }

/-- A turn of its loop, which reads the descriptor `id`. -/
def pollTurn (s : Sys) (p : Poll) (id : ℕ) : Sys :=
  if id ≥ s.vq.size ∨ s.vq.descState id ≠ .available then
    { s with vq := { s.vq with broken := true }, polling := none }
  else
    match walk s.vq.size id s.vq with
    | (false, vq) => { s with vq := vq, polling := none }
    | (true, vq) =>
      { s with
        vq := { vq with usedIdx := (vq.usedIdx + 1) % 2 ^ 16 }
        polling := some ⟨p.pending - 1, p.completions + 1, p.budget⟩
        calls := if vq.callback then s.calls ++ [⟨id, s.vq.ctx id⟩] else s.calls }

inductive Act
  | add (bufs : Option (List Buf)) (ctx : Option ℕ)
  | poll (budget deviceUsed : ℕ)
  /-- a turn of the loop; the length that the device reports only goes to the callback -/
  | turn (id : ℕ)
  /-- the loop ends -/
  | done
deriving DecidableEq

/-- The condition of the loop. -/
def Poll.more (p : Poll) : Prop := p.pending ≠ 0 ∧ p.completions < p.budget

instance (p : Poll) : Decidable p.more := inferInstanceAs (Decidable (_ ∧ _))

/-- The queue and the record of the buffers added, from what `vring_add_buf` gives. -/
def noteAdd (s : Sys) (ctx : Option ℕ) : Option ℕ × Vq → Sys
  | (none, vq) => { s with vq := vq }
  | (some head, vq) => { s with vq := vq, adds := s.adds ++ [⟨head, ctx⟩] }

def step (s : Sys) : Act → Option Sys
  | .add bufs ctx => some (noteAdd s ctx (vringAddBuf s.vq bufs ctx))
  | .poll budget deviceUsed =>
    if s.polling = none then some (pollUsed s budget deviceUsed) else none
  | .turn id => s.polling.bind fun p => if p.more then some (pollTurn s p id) else none
  | .done => s.polling.bind fun p => if p.more then none else some { s with polling := none }

/-! ## The free chain -/

def endOfChain : ℕ := 0xFFFF

/-- The free descriptors are those of `l`, in the order in which they are linked, and `free_cnt`
counts them. -/
structure FreeChain (vq : Vq) (l : List ℕ) : Prop where
  linked : Linked vq.nextFree vq.freeHead l endOfChain
  nodup : l.Nodup
  mem : ∀ i, i ∈ l ↔ i < vq.size ∧ vq.descState i = .free
  cnt : vq.freeCnt = l.length

variable {vq vq' : Vq} {l : List ℕ} {i : ℕ} {desc : ℕ → Desc}

lemma FreeChain.length_lt (h : FreeChain vq l) (hi : i < vq.size)
    (hstate : vq.descState i ≠ .free) : l.length < vq.size := by
  have hnot : i ∉ l := fun hmem => hstate ((h.mem i).1 hmem).2
  have hsub : i :: l ⊆ List.range vq.size := by
    intro j hj
    rcases mem_cons.1 hj with rfl | hj
    · exact mem_range.2 hi
    · exact mem_range.2 ((h.mem j).1 hj).1
  have := ((nodup_cons.2 ⟨hnot, h.nodup⟩).subperm hsub).length_le
  rwa [length_cons, length_range] at this

/-- Taking the front off. -/
def popDesc (vq : Vq) (i : ℕ) : Vq :=
  { vq with
    freeHead := vq.nextFree i
    freeCnt := vq.freeCnt - 1
    desc := update vq.desc i ⟨0, 0, 0, 0⟩
    descState := update vq.descState i .building }

lemma FreeChain.alloc (h : FreeChain vq (i :: l)) :
    vringAllocDesc vq = (some i, popDesc vq i) ∧ FreeChain (popDesc vq i) l := by
  have hhead : vq.freeHead = i := h.linked.eq_head
  obtain ⟨hi, hfree⟩ := (h.mem i).1 mem_cons_self
  have hcnt : vq.freeCnt = l.length + 1 := h.cnt
  have hsome : ¬ (vq.size = 0 ∨ vq.freeCnt = 0 ∨ vq.freeHead ≥ vq.size) := by omega
  have hnot : ¬ vq.descState vq.freeHead ≠ .free := by rw [hhead]; exact not_not_intro hfree
  refine ⟨?_, h.linked.tail, (nodup_cons.1 h.nodup).2, fun j => ?_, ?_⟩
  · rw [vringAllocDesc, if_neg hsome, if_neg hnot, hhead]
    rfl
  · have hmem := h.mem j
    change j ∈ l ↔ j < vq.size ∧ update vq.descState i .building j = .free
    by_cases hj : j = i
    · subst hj
      rw [update_self]
      exact iff_of_false (nodup_cons.1 h.nodup).1 fun h => nomatch h.2
    · rw [update_of_ne hj, ← hmem, mem_cons, or_iff_right hj]
  · change vq.freeCnt - 1 = l.length
    rw [hcnt, Nat.add_sub_cancel]

/-- Putting a descriptor in front. -/
def pushDesc (vq : Vq) (i : ℕ) : Vq :=
  { vq with
    descState := update vq.descState i .free
    ctx := update vq.ctx i none
    nextFree := update vq.nextFree i vq.freeHead
    freeHead := i
    freeCnt := vq.freeCnt + 1 }

lemma FreeChain.free (h : FreeChain vq l) (hi : i < vq.size) (hstate : vq.descState i ≠ .free) :
    vringFreeDesc vq i = (true, pushDesc vq i) ∧ FreeChain (pushDesc vq i) (i :: l) := by
  have hnot : i ∉ l := fun hmem => hstate ((h.mem i).1 hmem).2
  have hlen := h.length_lt hi hstate
  have hok : ¬ (i ≥ vq.size ∨ vq.descState i = .free ∨ vq.freeCnt ≥ vq.size) := by
    rw [h.cnt]
    exact fun hor => hor.elim (not_le.2 hi) fun hor => hor.elim hstate (not_le.2 hlen)
  refine ⟨by rw [vringFreeDesc, if_neg hok]; rfl, h.linked.push hnot, nodup_cons.2 ⟨hnot, h.nodup⟩,
    fun j => ?_, ?_⟩
  · change j ∈ i :: l ↔ j < vq.size ∧ update vq.descState i .free j = .free
    by_cases hj : j = i
    · subst hj
      rw [update_self]
      exact iff_of_true mem_cons_self ⟨hi, rfl⟩
    · rw [update_of_ne hj, ← h.mem j, mem_cons, or_iff_right hj]
  · change vq.freeCnt + 1 = (i :: l).length
    rw [h.cnt, length_cons]

lemma freeChain_create {size : ℕ} {cb : Bool} (h : vringCreate size cb = some vq) :
    FreeChain vq (range vq.size) := by
  obtain ⟨hsize, hvq⟩ := ite_none_left_eq_some.1 h
  obtain rfl := some.inj hvq
  push Not at hsize
  have hpos : 0 < size := Nat.pos_of_ne_zero hsize.1
  refine ⟨?_, nodup_range, fun i => ?_, length_range.symm⟩
  · rw [range_eq_range']
    refine Linked.range' (fun i _ hi => ?_) (fun _ => ?_) hpos
    · rw [Nat.zero_add] at hi
      exact if_pos hi
    · change (if 0 + size - 1 + 1 < size then _ else if 0 + size - 1 + 1 = size then _ else _) = _
      rw [if_neg (by omega), if_pos (by omega)]
      rfl
  · exact ⟨fun hi => ⟨mem_range.1 hi, rfl⟩, fun hi => mem_range.2 hi.1⟩

/-! ## Chains of descriptors

A buffer is a list of descriptors, each of them with the index of the following one. -/

/-- All descriptors of `l` but the last say that there is another one. -/
def NextFlags (desc : ℕ → Desc) : List ℕ → Prop
  | [] => True
  | [i] => (desc i).hasNext = false
  | i :: j :: l => (desc i).hasNext = true ∧ NextFlags desc (j :: l)

/-- `l` is linked as a buffer. -/
def Chain (desc : ℕ → Desc) : List ℕ → Prop
  | [] => False
  | [i] => (desc i).hasNext = false
  | i :: j :: l => ((desc i).hasNext = true ∧ (desc i).next = j) ∧ Chain desc (j :: l)

lemma Chain.congr {desc' : ℕ → Desc} : ∀ {l : List ℕ}, Chain desc l →
    (∀ i ∈ l, desc' i = desc i) → Chain desc' l
  | [], h, _ => h
  | [i], h, hc => by
    change (desc' i).hasNext = false
    rw [hc i mem_cons_self]
    exact h
  | i :: j :: l, h, hc => by
    obtain ⟨hi, hl⟩ := forall_mem_cons.1 hc
    exact ⟨hi.symm ▸ h.1, Chain.congr h.2 hl⟩

lemma Chain.drop {post : List ℕ} :
    ∀ (pre : List ℕ), Chain desc (pre ++ i :: post) → Chain desc (i :: post)
  | [], h => h
  | [_], h => h.2
  | _ :: j :: l, h => Chain.drop (j :: l) h.2

lemma Buf.hasNext_desc (b : Buf) (more : Bool) : (b.desc more).hasNext = more := by
  have hmask : b.flags &&& (descFWrite ||| descFIndirect) &&& descFNext = 0 := by
    rw [Nat.and_assoc]
    exact Nat.and_zero _
  change ((b.flags &&& (descFWrite ||| descFIndirect) ||| (if more then descFNext else 0)) &&&
    descFNext != 0) = more
  rw [Nat.and_or_distrib_right, hmask, Nat.zero_or]
  cases more <;> rfl

/-- What the two loops leave as it is: the descriptors outside `l`, and what is neither a descriptor
nor the free chain. -/
structure Outside (l : List ℕ) (vq vq' : Vq) : Prop where
  desc : ∀ i ∉ l, vq'.desc i = vq.desc i
  descState : ∀ i ∉ l, vq'.descState i = vq.descState i
  size : vq'.size = vq.size
  availRing : vq'.availRing = vq.availRing
  ctx : vq'.ctx = vq.ctx
  callback : vq'.callback = vq.callback
  usedIdx : vq'.usedIdx = vq.usedIdx

lemma Outside.trans {l' m : List ℕ} {vq'' : Vq} (h : Outside l vq vq') (h' : Outside l' vq' vq'')
    (hl : l ⊆ m) (hl' : l' ⊆ m) : Outside m vq vq'' where
  desc i hi := (h'.desc i fun hmem => hi (hl' hmem)).trans (h.desc i fun hmem => hi (hl hmem))
  descState i hi := (h'.descState i fun hmem => hi (hl' hmem)).trans (h.descState i fun hmem =>
  hi (hl hmem))
  size := h'.size.trans h.size
  availRing := h'.availRing.trans h.availRing
  ctx := h'.ctx.trans h.ctx
  callback := h'.callback.trans h.callback
  usedIdx := h'.usedIdx.trans h.usedIdx

lemma outside_fill (vq : Vq) (i : ℕ) (d : Desc) :
    Outside [i] vq { popDesc vq i with desc := update (popDesc vq i).desc i d } where
  desc j hj := by
    have hji : j ≠ i := fun h => hj (mem_singleton.2 h)
    exact (update_of_ne hji _ _).trans (update_of_ne hji _ _)
  descState j hj := update_of_ne (fun h => hj (mem_singleton.2 h)) _ _
  size := rfl
  availRing := rfl
  ctx := rfl
  callback := rfl
  usedIdx := rfl

/-- With enough free descriptors, the first loop takes them off the front of the free chain. -/
lemma allocLoop_spec : ∀ (bufs : List Buf) (acc : List ℕ) {vq : Vq} {l free : List ℕ},
    FreeChain vq (l ++ free) → l.length = bufs.length →
    ∃ vq', allocLoop vq bufs acc = (some (acc ++ l), vq') ∧ FreeChain vq' free ∧ Outside l vq vq' ∧
      (∀ i ∈ l, vq'.descState i = .building) ∧ NextFlags vq'.desc l := by
  intro bufs
  induction bufs with
  | nil =>
    intro acc vq l free h hlen
    obtain rfl := length_eq_zero_iff.1 hlen
    refine ⟨vq, ?_, h, ⟨fun _ _ => rfl, fun _ _ => rfl, rfl, rfl, rfl, rfl, rfl⟩,
      fun _ hi => absurd hi not_mem_nil, trivial⟩
    rw [append_nil]
    rfl
  | cons b rest ih =>
    intro acc vq l free h hlen
    obtain ⟨i, l, rfl⟩ := exists_cons_of_length_eq_add_one hlen
    obtain ⟨halloc, hpop⟩ := h.alloc
    have hfill := outside_fill vq i (b.desc !rest.isEmpty)
    set vq1 : Vq := { popDesc vq i with desc := update (popDesc vq i).desc i (b.desc !rest.isEmpty)
      } with hvq1
    have hfree : FreeChain vq1 (l ++ free) := { hpop with }
    obtain ⟨vq', hrun, hfree', hout, hbuild, hflags⟩ := ih (acc ++ [i]) hfree (Nat.succ.inj hlen)
    have hil : i ∉ l := fun hmem => (nodup_cons.1 h.nodup).1 (mem_append_left _ hmem)
    refine ⟨vq', ?_, hfree', hfill.trans hout (cons_subset_cons i (nil_subset l))
      (subset_cons_self i l), fun j hj => ?_, ?_⟩
    · rw [allocLoop, halloc]
      change allocLoop vq1 rest (acc ++ [i]) = _
      rw [hrun, append_assoc]
      rfl
    · rcases mem_cons.1 hj with rfl | hj
      · rw [hout.descState j hil]
        exact update_self ..
      · exact hbuild j hj
    · have hi : (vq'.desc i).hasNext = !rest.isEmpty := by
        rw [hout.desc i hil, hvq1]
        change (update (popDesc vq i).desc i (b.desc !rest.isEmpty) i).hasNext = _
        rw [update_self, Buf.hasNext_desc]
      cases l with
      | nil =>
        obtain rfl := length_eq_zero_iff.1 (Nat.succ.inj hlen).symm
        exact hi
      | cons j l =>
        obtain ⟨b', rest, rfl⟩ := exists_cons_of_length_eq_add_one (Nat.succ.inj hlen).symm
        exact ⟨hi, hflags⟩

lemma NextFlags.link (h : NextFlags desc l) (i j : ℕ) :
    NextFlags (update desc i { desc i with next := j }) l := by
  have hsame : ∀ k, (update desc i { desc i with next := j } k).hasNext = (desc k).hasNext := by
    intro k
    by_cases hk : k = i
    · rw [hk, update_self]
      rfl
    · rw [update_of_ne hk]
  induction l with
  | nil => trivial
  | cons k l ih =>
    cases l with
    | nil => exact (hsame k).trans h
    | cons m l => exact ⟨(hsame k).trans h.1, ih h.2⟩

/-- The second loop makes a chain of the descriptors and makes them available. -/
lemma linkLoop_spec : ∀ (l : List ℕ) {vq : Vq} {free : List ℕ}, l ≠ [] → l.Nodup →
    NextFlags vq.desc l → (∀ i ∈ l, vq.descState i = .building) → FreeChain vq free →
    FreeChain (linkLoop vq l) free ∧ Outside l vq (linkLoop vq l) ∧
      (∀ i ∈ l, (linkLoop vq l).descState i = .available) ∧ Chain (linkLoop vq l).desc l := by
  intro l
  induction l with
  | nil => exact fun h => absurd rfl h
  | cons i l ih =>
    intro vq free _ hnodup hflags hbuild hfree
    have hstate : ∀ k, update vq.descState i .available k = .free ↔ vq.descState k = .free := by
      intro k
      by_cases hk : k = i
      · rw [hk, update_self, hbuild i mem_cons_self]
        exact iff_of_false (fun h => nomatch h) fun h => nomatch h
      · rw [update_of_ne hk]
    have hmem : ∀ k, k ∈ free ↔ k < vq.size ∧ update vq.descState i .available k = .free :=
      fun k => by rw [hstate, hfree.mem]
    have hother : ∀ k ∉ [i], update vq.descState i .available k = vq.descState k :=
      fun k hk => update_of_ne (fun h => hk (mem_singleton.2 h)) _ _
    cases l with
    | nil =>
      refine ⟨{ hfree with mem := hmem }, ⟨fun _ _ => rfl, hother, rfl, rfl, rfl, rfl, rfl⟩, ?_,
        hflags⟩
      exact forall_mem_singleton.2 (update_self ..)
    | cons j l =>
      obtain ⟨hil, hnodup⟩ := nodup_cons.1 hnodup
      set vq1 : Vq :=
        { vq with
          desc := update vq.desc i { vq.desc i with next := j }
          descState := update vq.descState i .available } with hvq1
      have hout1 : Outside [i] vq vq1 :=
        ⟨fun k hk => update_of_ne (fun h => hk (mem_singleton.2 h)) _ _, hother, rfl, rfl, rfl, rfl,
        rfl⟩
      have hbuild1 : ∀ k ∈ j :: l, vq1.descState k = .building := fun k hk =>
        (hout1.descState k fun h => hil (mem_singleton.1 h ▸ hk)).trans
        (hbuild k (mem_cons_of_mem i hk))
      obtain ⟨hfree', hout', havail, hchain⟩ := ih (cons_ne_nil j l) hnodup (hflags.2.link i j)
        hbuild1
        { hfree with mem := hmem }
      have hdesc : (linkLoop vq1 (j :: l)).desc i = { vq.desc i with next := j } :=
        (hout'.desc i hil).trans (update_self ..)
      refine ⟨hfree', hout1.trans hout' (cons_subset_cons i (nil_subset _)) (subset_cons_self i _),
        forall_mem_cons.2 ⟨(hout'.descState i hil).trans (update_self ..), havail⟩, ?_, hchain⟩
      change ((linkLoop vq1 (j :: l)).desc i).hasNext = true ∧ ((linkLoop vq1 (j :: l)).desc i).next
        = j
      rw [hdesc]
      exact ⟨hflags.1, rfl⟩

/-- What `vring_add_buf` does: nothing, or it makes a chain of the first free descriptors and stores
the context at its head. -/
inductive Added (vq : Vq) (ctx : Option ℕ) : Option ℕ × Vq → Prop
  | refused : Added vq ctx (none, vq)
  | chain (i : ℕ) (l free : List ℕ) (vq' : Vq) (before : FreeChain vq (i :: l ++ free))
      (after : FreeChain vq' free) (outside : Outside (i :: l) vq vq')
      (available : ∀ j ∈ i :: l, vq'.descState j = .available) (linked : Chain vq'.desc (i :: l)) :
      Added vq ctx (some i, publish vq' i ctx)

lemma added (vq : Vq) {all : List ℕ} (h : FreeChain vq all) (bufs : Option (List Buf))
    (ctx : Option ℕ) : Added vq ctx (vringAddBuf vq bufs ctx) := by
  cases bufs with
  | none => exact .refused
  | some bufs =>
    unfold vringAddBuf
    dsimp only
    split
    · exact .refused
    next hbad =>
      push Not at hbad
      -- the descriptors needed are the first of the free chain
      have hall : FreeChain vq (all.take bufs.length ++ all.drop bufs.length) := by
        rw [take_append_drop]
        exact h
      have hlen : (all.take bufs.length).length = bufs.length := by
        rw [length_take, ← h.cnt, min_eq_left hbad.2.2.1]
      obtain ⟨vq1, hrun, hfree, hout, hbuild, hflags⟩ := allocLoop_spec bufs [] hall hlen
      obtain ⟨i, l, hl⟩ := exists_cons_of_length_pos (hlen.symm ▸ Nat.pos_of_ne_zero hbad.1)
      rw [hl] at hall hrun hout hbuild hflags
      rw [hrun]
      obtain ⟨hfree', hout', havail, hchain⟩ := linkLoop_spec (i :: l) (cons_ne_nil i l)
        (nodup_append.1 hall.nodup).1 hflags hbuild hfree
      exact .chain i l _ _ hall hfree' (hout.trans hout' (List.Subset.refl _) (List.Subset.refl _))
        havail hchain

/-! ## What holds whatever the device writes -/

/-- All indices stored are indices of the table, and the free chain is what `free_cnt` and the
states of the descriptors say it is. -/
structure Safe (vq : Vq) : Prop where
  pos : 0 < vq.size
  chain : ∃ free, FreeChain vq free
  next : ∀ i, vq.descState i = .available → (vq.desc i).hasNext → (vq.desc i).next < vq.size
  avail : ∀ k, vq.availRing k < vq.size

structure Freed (vq vq' : Vq) : Prop where
  desc : vq'.desc = vq.desc
  state : ∀ i, vq'.descState i = .free ∨ vq'.descState i = vq.descState i
  size : vq'.size = vq.size
  availRing : vq'.availRing = vq.availRing
  callback : vq'.callback = vq.callback

lemma Freed.broken (vq : Vq) : Freed vq { vq with broken := true } :=
  ⟨rfl, fun _ => .inr rfl, rfl, rfl, rfl⟩

lemma Freed.push (vq : Vq) (i : ℕ) : Freed vq (pushDesc vq i) where
  desc := .refl _
  state j := by
    by_cases hj : j = i
    · exact .inl (hj ▸ update_self ..)
    · exact .inr (update_of_ne hj ..)
  size := .refl _
  availRing := .refl _
  callback := .refl _

lemma Freed.trans {vq'' : Vq} (h : Freed vq vq') (h' : Freed vq' vq'') : Freed vq vq'' where
  desc := h'.desc.trans h.desc
  state i := (h'.state i).elim .inl fun he => he.symm ▸ h.state i
  size := h'.size.trans h.size
  availRing := h'.availRing.trans h.availRing
  callback := h'.callback.trans h.callback

lemma Safe.freed (h : Safe vq) (hf : Freed vq vq') (hc : ∃ free, FreeChain vq' free) :
    Safe vq' where
  pos := hf.size ▸ h.pos
  chain := hc
  next i hi := by
    rw [hf.desc, hf.size]
    refine h.next i ((hf.state i).elim (fun hfree => ?_) fun he => he.symm.trans hi)
    exact nomatch hfree.symm.trans hi
  avail := by
    rw [hf.availRing, hf.size]
    exact h.avail

lemma Safe.break (h : Safe vq) : Safe { vq with broken := true } :=
  ⟨h.pos, h.chain.imp fun _ hc => { hc with }, h.next, h.avail⟩

/-- The inner loop of a poll only frees descriptors, each of them once. -/
lemma walk_safe : ∀ (n cur : ℕ) {vq : Vq}, Safe vq → Freed vq (walk n cur vq).2 ∧
    Safe (walk n cur vq).2 := by
  intro n cur vq h
  -- an available descriptor is not free, and freeing it works
  have hpush {vq : Vq} {cur : ℕ} (h : Safe vq) (hcur : ¬cur ≥ vq.size)
    (hstate : ¬vq.descState cur ≠ .available) :
      vringFreeDesc vq cur = (true, pushDesc vq cur) ∧ Safe (pushDesc vq cur) := by
    obtain ⟨free, hfree⟩ := h.chain
    obtain ⟨hpush, hfree'⟩ := hfree.free (not_le.1 hcur) (by rw [not_not.1 hstate]; exact fun h =>
      nomatch h)
    exact ⟨hpush, h.freed (Freed.push vq cur) ⟨_, hfree'⟩⟩
  fun_induction walk n cur vq with
  | case5 n cur vq hcur hstate _ vq' heq => exact nomatch heq.symm.trans (hpush h hcur hstate).1
  | case6 n cur vq hcur hstate _ vq' heq _ ih =>
    obtain ⟨heq', hsafe⟩ := hpush h hcur hstate
    obtain rfl : vq' = pushDesc vq cur := (Prod.mk.inj (heq.symm.trans heq')).2
    obtain ⟨hfr, hsf⟩ := ih hsafe
    exact ⟨(Freed.push vq cur).trans hfr, hsf⟩
  | case7 n cur vq hcur hstate _ vq' heq _ =>
    obtain ⟨heq', hsafe⟩ := hpush h hcur hstate
    obtain rfl : vq' = pushDesc vq cur := (Prod.mk.inj (heq.symm.trans heq')).2
    exact ⟨Freed.push vq cur, hsafe⟩
  | _ => exact ⟨Freed.broken _, h.break⟩

lemma Chain.next_mem : ∀ {l : List ℕ}, Chain desc l → ∀ i ∈ l, (desc i).hasNext → (desc i).next ∈ l
  | [], h, _, _, _ => h.elim
  | [j], h, i, hi, hn => by
    rw [mem_singleton.1 hi, show (desc j).hasNext = false from h] at hn
    exact nomatch hn
  | j :: k :: l, h, i, hi, hn => by
    rcases mem_cons.1 hi with rfl | hi
    · rw [h.1.2]
      exact mem_cons_of_mem _ mem_cons_self
    · exact mem_cons_of_mem _ (Chain.next_mem h.2 i hi hn)

lemma Safe.added (h : Safe vq) {ctx : Option ℕ} {r : Option ℕ × Vq} (hr : Added vq ctx r) :
    Safe r.2 := by
  cases hr with
  | refused => exact h
  | chain i l free vq' before after outside available linked =>
    have hmem : ∀ j ∈ i :: l, j < vq.size := fun j hj => ((before.mem j).1 (mem_append_left _ hj)).1
    refine ⟨outside.size ▸ h.pos, ⟨free, { after with }⟩, fun j hj hn => ?_, fun k => ?_⟩
    · change (vq'.desc j).next < vq'.size
      rw [outside.size]
      by_cases hjl : j ∈ i :: l
      · exact hmem _ (linked.next_mem j hjl hn)
      · change (vq'.desc j).hasNext at hn
        change vq'.descState j = _ at hj
        rw [outside.desc j hjl] at hn ⊢
        rw [outside.descState j hjl] at hj
        exact h.next j hj hn
    · change update vq'.availRing (vq'.availIdx % vq'.size) i k < vq'.size
      rw [outside.availRing, outside.size]
      by_cases hk : k = vq'.availIdx % vq.size
      · rw [hk, update_self]
        exact hmem i mem_cons_self
      · rw [update_of_ne hk]
        exact h.avail k

lemma safe_create {size : ℕ} {cb : Bool} (h : vringCreate size cb = some vq) : Safe vq := by
  have hc := freeChain_create h
  obtain ⟨hsize, hvq⟩ := ite_none_left_eq_some.1 h
  obtain rfl := some.inj hvq
  push Not at hsize
  exact ⟨Nat.pos_of_ne_zero hsize.1, ⟨_, hc⟩, fun _ hi => (nomatch hi), fun _ =>
    Nat.pos_of_ne_zero hsize.1⟩

end XosKernel.Vring
