/-
# Overflow of an input queue

`evdev_owner_write` and `evdev_consumer_read` for one client (`bsd/evdev_broker.c`) with its ring
(`bsd/kfifo.c`). The reader takes no lock, so a read may come between any two events of a batch.
Blocking, wake-ups and revoked clients are left out.
-/
import XosKernel.Lib.Run
import XosKernel.Lib.RingList

namespace XosKernel.Evdev

open List Option Prod

structure Event where
  time : ℕ
  type : ℕ
  code : ℕ
  value : ℤ
deriving DecidableEq

def evSyn : ℕ := 0
def synReport : ℕ := 0
def synDropped : ℕ := 3

def drop : Event := ⟨0, evSyn, synDropped, 0⟩

/-- `EVDEV_CLIENT_KFIFO_CAP`; one slot stays empty. -/
def kfifoCap : ℕ := 64

structure Kfifo where
  buf : ℕ → Event
  head : ℕ
  tail : ℕ
  head_lt : head < kfifoCap
  tail_lt : tail < kfifoCap

def kfifoLen (kf : Kfifo) : ℕ :=
  if kf.head ≤ kf.tail then kf.tail - kf.head else kfifoCap - kf.head + kf.tail

def kfifoIn (kf : Kfifo) (e : Event) : Option Kfifo :=
  let next := (kf.tail + 1) % kfifoCap
  if next = kf.head then none
  else
    some { kf with
      buf := Function.update kf.buf kf.tail e
      tail := next
      tail_lt := Nat.mod_lt _ (by decide) }

def kfifoOut (kf : Kfifo) : Option (Event × Kfifo) :=
  if kf.head = kf.tail then none
  else
    some (kf.buf kf.head, { kf with
      head := (kf.head + 1) % kfifoCap
      head_lt := Nat.mod_lt _ (by decide) })

def kfifoOutBatch : ℕ → Kfifo → List Event × Kfifo
  | 0, kf => ([], kf)
  | count + 1, kf =>
    match kfifoOut kf with
    | none => ([], kf)
    | some (e, kf) => (e :: (kfifoOutBatch count kf).1, (kfifoOutBatch count kf).2)

/-- What the ring holds. -/
def Kfifo.list (kf : Kfifo) : List Event := ringTake kfifoCap kf.buf (kfifoLen kf) kf.head

structure Client where
  buffer : Kfifo
  inFrame : Bool
  dropped : ℕ

/-- What becomes of an event; one that is `marked` is lost and a marker queued in its place. -/
inductive Fate
  | queued
  | lost
  | marked
deriving DecidableEq

def ownerWrite (c : Client) (e : Event) : Client × Fate :=
  if c.inFrame then
    if e.type = evSyn ∧ e.code = synReport then
      -- the frame is over, whether or not the marker finds room
      match kfifoIn c.buffer drop with
      | some buffer => ({ c with buffer := buffer, inFrame := false }, .marked)
      | none => ({ c with inFrame := false }, .lost)
    else (c, .lost)
  else
    match kfifoIn c.buffer e with
    | some buffer => ({ c with buffer := buffer }, .queued)
    | none => ({ c with dropped := c.dropped + 1, inFrame := true }, .lost)

/-- A client, what it has read, and what was written to it, the newest first. -/
structure State extends Client where
  received : List Event
  fates : List (Event × Fate)

/-- What the queue holds has been queued before. -/
def start (c : Client) : State := ⟨c, [], c.buffer.list.reverse.map (·, .queued)⟩

inductive Act
  | write (e : Event)
  | read (n : ℕ)

def step (s : State) : Act → Option State
  | .write e =>
    let r := ownerWrite s.toClient e
    some { s with toClient := r.1, fates := (e, r.2) :: s.fates }
  | .read n =>
    let r := kfifoOutBatch n s.buffer
    some { s with buffer := r.2, received := s.received ++ r.1 }

/-- What was put into the queue, in order. -/
def visible (fs : List (Event × Fate)) : List Event :=
  fs.reverse.filterMap fun
    | (e, .queued) => some e
    | (_, .lost) => none
    | (_, .marked) => some drop

def Act.event : Act → Option Event
  | .write e => some e
  | .read _ => none

/-- If an event between two that are queued is lost, there is a marker between them. -/
def Marked (fs : List (Event × Fate)) : Prop :=
  ∀ a b d x y, fs = a ++ (y, .queued) :: (b ++ (x, .queued) :: d) →
    (∃ z ∈ b, z.2 ≠ .queued) → ∃ z ∈ b, z.2 = .marked

/-- The marker at the end of a frame that was cut short finds room. -/
def Room (s : State) : Act → Prop
  | .write e => s.inFrame = true → e.type = evSyn ∧ e.code = synReport →
      kfifoLen s.buffer + 1 < kfifoCap
  | .read _ => True

instance (s : State) (a : Act) : Decidable (Room s a) := by
  cases a <;> unfold Room <;> infer_instance

structure Inv (s : State) : Prop where
  queue : s.received ++ s.buffer.list = visible s.fates
  marked : Marked s.fates
  gap : s.inFrame = false → ∀ e, s.fates.head? ≠ some (e, .lost)

variable {s s' : State} {e : Event} {fs : List (Event × Fate)} {kf kf' : Kfifo}

/-! ## The ring as a list -/

lemma kfifoLen_eq (kf : Kfifo) : kfifoLen kf = (kf.tail + 64 - kf.head) % 64 := by
  have hhead : kf.head < 64 := kf.head_lt
  have htail : kf.tail < 64 := kf.tail_lt
  simp only [kfifoLen, kfifoCap]
  split_ifs <;> omega

lemma kfifoIn_ne_none (h : kfifoLen kf + 1 < kfifoCap) : kfifoIn kf e ≠ none := by
  have hhead : kf.head < 64 := kf.head_lt
  have htail : kf.tail < 64 := kf.tail_lt
  refine (if_neg ?_).trans_ne (some_ne_none _)
  rw [kfifoLen_eq] at h
  simp only [kfifoCap] at h ⊢
  omega

lemma list_kfifoIn (h : kfifoIn kf e = some kf') : kf'.list = kf.list ++ [e] := by
  have hhead : kf.head < 64 := kf.head_lt
  have htail : kf.tail < 64 := kf.tail_lt
  obtain ⟨hfull, h⟩ := ite_none_left_eq_some.1 h
  obtain rfl := some.inj h
  have hlen := kfifoLen_eq kf
  simp only [kfifoCap] at hfull
  have hpush := @ringTake_push _ 64 kf.buf (kfifoLen kf) kf.head (by omega) e
  rw [show (kf.head + kfifoLen kf) % 64 = kf.tail by omega, Nat.mod_eq_of_lt hhead] at hpush
  refine Eq.trans ?_ hpush
  rw [Kfifo.list, kfifoLen_eq]
  simp only [kfifoCap]
  rw [show ((kf.tail + 1) % 64 + 64 - kf.head) % 64 = kfifoLen kf + 1 by omega]

lemma list_kfifoOut_none (h : kfifoOut kf = none) : kf.list = [] := by
  have hempty : kf.head = kf.tail := by simpa [kfifoOut] using h
  simp [Kfifo.list, kfifoLen, hempty, ringTake]

lemma list_kfifoOut_some (h : kfifoOut kf = some (e, kf')) : kf.list = e :: kf'.list := by
  have hhead : kf.head < 64 := kf.head_lt
  have htail : kf.tail < 64 := kf.tail_lt
  obtain ⟨hne, h⟩ := ite_none_left_eq_some.1 h
  obtain ⟨rfl, rfl⟩ := mk.inj (some.inj h)
  rw [Kfifo.list, Kfifo.list, kfifoLen_eq, kfifoLen_eq]
  simp only [kfifoCap]
  rw [show (kf.tail + 64 - kf.head) % 64 = (kf.tail + 64 - (kf.head + 1) % 64) % 64 + 1 by omega]
  rfl

/-- A read takes the first elements of the list. -/
lemma kfifoOutBatch_spec (n : ℕ) (kf : Kfifo) :
    (kfifoOutBatch n kf).1 = kf.list.take n ∧ (kfifoOutBatch n kf).2.list = kf.list.drop n := by
  fun_induction kfifoOutBatch n kf with
  | case1 => exact ⟨rfl, rfl⟩
  | case2 _ _ h => simp [list_kfifoOut_none h]
  | case3 _ _ _ _ h ih =>
    rw [list_kfifoOut_some h, ih.1, ih.2]
    exact ⟨rfl, rfl⟩

/-! ## Gaps -/

lemma Marked.cons {f : Fate} (h : Marked fs) (hf : f ≠ .queued) : Marked ((e, f) :: fs) := by
  intro a b d x y heq hlost
  cases a with
  | nil => exact absurd (congrArg snd (cons.inj heq).1) hf
  | cons g a => exact h a b d x y (cons.inj heq).2 hlost

/-- An event may be queued behind anything but a lost one. -/
lemma Marked.queued (h : Marked fs) (hgap : ∀ e, fs.head? ≠ some (e, .lost)) :
    Marked ((e, .queued) :: fs) := by
  intro a b d x y heq hlost
  cases a with
  | cons g a => exact h a b d x y (cons.inj heq).2 hlost
  | nil =>
    obtain rfl := (cons.inj heq).2
    obtain ⟨l, hl, hne⟩ := hlost
    cases b with
    | nil => exact nomatch hl
    | cons g b =>
      obtain ⟨z, f⟩ := g
      cases f with
      | lost => exact absurd rfl (hgap z)
      | marked => exact ⟨_, mem_cons_self, rfl⟩
      | queued =>
        have hb : l ∈ b := (mem_cons.1 hl).resolve_left fun h => hne (congrArg snd h)
        obtain ⟨w, hw, hmark⟩ := h [] b d x z rfl ⟨l, hb, hne⟩
        exact ⟨w, mem_cons_of_mem _ hw, hmark⟩

lemma Inv.step {a : Act} (h : Inv s) (hroom : Room s a) (hs : step s a = some s') : Inv s' := by
  obtain ⟨hqueue, hmarked, hgap⟩ := h
  cases a with
  | read n =>
    obtain rfl := some.inj hs
    refine ⟨?_, hmarked, hgap⟩
    obtain ⟨htaken, hleft⟩ := kfifoOutBatch_spec n s.buffer
    dsimp only
    rw [htaken, hleft, append_assoc, take_append_drop, hqueue]
  | write e =>
    obtain rfl := some.inj hs
    fun_cases ownerWrite s.toClient e with
    | case1 _ _ buffer hk =>
      refine ⟨?_, hmarked.cons nofun, nofun⟩
      simp [visible, list_kfifoIn hk, ← append_assoc, hqueue]
    | case2 hin hrep hk => exact absurd hk (kfifoIn_ne_none (hroom hin hrep))
    | case3 hin =>
      exact ⟨by simp [visible, hqueue], hmarked.cons nofun, fun hf => nomatch hin.symm.trans hf⟩
    | case4 hin buffer hk =>
      refine ⟨?_, hmarked.queued (hgap (Bool.eq_false_iff.2 hin)), fun _ _ hf => nomatch hf⟩
      simp [visible, list_kfifoIn hk, ← append_assoc, hqueue]
    | case5 => exact ⟨by simp [visible, hqueue], hmarked.cons nofun, nofun⟩

lemma fates_of_exec {acts : List Act} (h : exec Evdev.step s acts = some s') :
    (s'.fates.map fst).reverse = (s.fates.map fst).reverse ++ acts.filterMap Act.event := by
  induction acts generalizing s with
  | nil => simp [some.inj h]
  | cons a acts ih =>
    obtain ⟨s1, hs, h⟩ := exec_cons_eq_some.1 h
    rw [ih h]
    cases a with
    | write e => simp [← some.inj hs, Act.event]
    | read n =>
      rw [← some.inj hs]
      rfl

lemma inv_start (c : Client) : Inv (start c) := by
  refine ⟨by simp [start, visible], fun a b d x y heq hlost => ?_, fun _ e he => ?_⟩
  · obtain ⟨z, hz, hne⟩ := hlost
    have hmem : z ∈ (start c).fates := heq ▸ by simp [hz]
    obtain ⟨w, -, rfl⟩ := mem_map.1 hmem
    exact absurd rfl hne
  · obtain ⟨w, -, hw⟩ := mem_map.1 (mem_of_mem_head? he)
    exact nomatch hw

/-- Where every marker finds room, a client gets what its queue held and what was written, in order,
with a marker in each gap. -/
theorem marked_of_room (c : Client) (acts : List Act) (hroom : Meets step Room (start c) acts)
    (h : exec step (start c) acts = some s) : s.received ++ s.buffer.list = visible s.fates ∧
      (s.fates.map fst).reverse = c.buffer.list ++ acts.filterMap Act.event ∧ Marked s.fates := by
  have hI := exec_invariant_of_meets (fun _ _ _ => Inv.step) acts _ s (inv_start c) hroom h
  refine ⟨hI.queue, ?_, hI.marked⟩
  rw [fates_of_exec h]
  simp [start, Function.comp_def]

/-- A key, and the end of a frame. -/
def key : Event := ⟨0, 1, 30, 1⟩
def report : Event := ⟨0, evSyn, synReport, 0⟩

/-- A client whose queue is full of keys. -/
def fullClient : Client := ⟨⟨fun _ => key, 0, 63, by decide, by decide⟩, false, 0⟩

/-- A key finds no room; after a read the marker does, and after another one the next key. -/
def overflow : List Act := [.write key, .read 1, .write report, .read 1, .write key]

theorem marked_of_room_overflow : ∃ s, exec step (start fullClient) overflow = some s ∧
    (s.fates.take 3 = [(key, .queued), (report, .marked), (key, .lost)] ∧ drop ∈ s.buffer.list) ∧
    Marked s.fates := by
  obtain ⟨s, hs, h⟩ : ∃ s, exec step (start fullClient) overflow = some s ∧
      s.fates.take 3 = [(key, .queued), (report, .marked), (key, .lost)] ∧
      drop ∈ s.buffer.list := by decide +kernel
  exact ⟨s, hs, h, (marked_of_room _ _ (by decide +kernel) hs).2.2⟩

/-- In a full queue a key and the marker for it are lost, and after a read a key is queued. -/
theorem marker_lost : ∃ fs, (exec step (start fullClient)
    [.write key, .write report, .read 1, .write key]).map State.fates = some fs ∧ ¬Marked fs := by
  refine ⟨(key, .queued) :: (report, .lost) :: (key, .lost) ::
    replicate 63 (key, .queued), by decide +kernel, fun h => ?_⟩
  have := h [] [(report, .lost), (key, .lost)] (replicate 62 (key, .queued)) key key rfl
  simp at this

end XosKernel.Evdev
