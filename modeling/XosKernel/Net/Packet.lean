/-
# Slots of the packet rings

`net_packet_rx_publish`, `net_packet_rx_take_recycled`, `net_packet_tx_take_batch` and
`net_packet_tx_complete` (`kernel/bsd/net_packet.c`), with the operations that change the owner of
the broker.

The rings lie in memory that the owner writes at any time, so every single load from a ring is an
input: an entry is not a value but the list of the values that the loads of its fields give. The
states of the slots are the kernel's own. Reading a state with an index behind the array gives
whatever lies there, and writing one there is only noted. Beside the broker stands what the driver
knows from the calls it made: which receive slots it has published and not got back, and which
transmit slots it has got and not completed.
-/
import XosKernel.Lib.Run

namespace XosKernel.NetPacket

open List Function

/-- `NETPKT_RX_SLOTS`, `NETPKT_TX_SLOTS`, `NETPKT_RING_CAPACITY`, `NETPKT_MAX_FRAME`. -/
def rxSlots : ℕ := 256
def txSlots : ℕ := 256
def ringCapacity : ℕ := 256
def maxFrame : ℕ := 1514

inductive RxState
  | device
  | user
deriving DecidableEq

inductive TxState
  | userFree
  | device
deriving DecidableEq

/-- `struct net_packet_broker`; `stray` notes a write behind one of the arrays. -/
structure Broker where
  rxState : ℕ → RxState
  txState : ℕ → TxState
  generation : ℕ
  owner : Bool
  started : Bool
  stopped : Bool
  permanent : Bool
  stray : Bool

def Broker.create : Broker :=
  { rxState := fun _ => .device
    txState := fun _ => .userFree
    generation := 1
    owner := false
    started := false
    stopped := false
    permanent := false
    stray := false }

/-- What the loads from the fields of one ring entry give, in one turn of a loop: `slot` and
`length` are loaded for each use anew. `behind` says whether the byte behind the array, should
`slotState` lead there, is the state that is looked for. -/
structure Loads where
  generation : ℕ
  slot : ℕ
  length : ℕ
  lengthMax : ℕ
  flags : ℕ
  status : ℤ
  slotState : ℕ
  behind : Bool
  slotSet : ℕ
  slotOut : ℕ
  lengthOut : ℕ
deriving DecidableEq

/-- The entry with these fields, read without anybody writing to it. -/
def Loads.entry (generation slot length : ℕ) : Loads :=
  ⟨generation, slot, length, length, 0, 0, slot, false, slot, slot, length⟩

/-- The two indices of a ring, as one call loads them. -/
structure Cursors where
  producer : UInt32
  consumer : UInt32
deriving DecidableEq

/-- `(uint32_t)(producer - consumer)`. -/
def Cursors.used (c : Cursors) : ℕ := (c.producer - c.consumer).toNat

def brokerCorrupt (b : Broker) : Broker :=
  { b with stopped := true, generation := (b.generation + 1) % 2 ^ 32 }

inductive Ret
  | ok
  | einval
  | eproto
  | enotconn
  | enospc
  | ebusy
  | enodev
  | estale
  | slots (l : List ℕ)
  | items (l : List (ℕ × ℕ))
deriving DecidableEq

/-- `net_packet_rx_publish`; `ring_produce` loads the indices of `rx_ready`. -/
def rxPublish (b : Broker) (slot frameLen : ℕ) (c : Cursors) : Ret × Broker :=
  if slot ≥ rxSlots ∨ frameLen > maxFrame then (.einval, b)
  else if b.rxState slot ≠ .device then (.eproto, b)
  else if ¬ b.owner ∨ ¬ b.started ∨ b.stopped then (.enotconn, b)
  else if c.used ≥ ringCapacity then (.enospc, b)
  else (.ok, { b with rxState := update b.rxState slot .user })

/-! ## Taking entries off a ring -/

/-- The loop of `net_packet_rx_take_recycled` and of `net_packet_tx_take_batch`: `turn` checks an
entry and takes its slot; the first entry that fails the check ends the call. -/
def takeLoop {α : Type} (turn : Broker → Loads → Option (α × Broker)) : List Loads → Broker →
    Option (List α) × Broker
  | [], b => (some [], b)
  | l :: ls, b =>
    match turn b l with
    | none => (none, brokerCorrupt b)
    | some (x, b) => ((takeLoop turn ls b).1.map (x :: ·), (takeLoop turn ls b).2)

/-- The entries read by a loop that stops when the ring is empty or `max` entries are taken. -/
def entries (loads : ℕ → Loads) (c : Cursors) (max : ℕ) : List Loads :=
    (range (min c.used max)).map loads

/-- The check of a recycled slot. -/
def RxValid (b : Broker) (l : Loads) : Prop :=
  l.generation = b.generation ∧ l.slot < rxSlots ∧ l.length = 0 ∧ l.flags = 0 ∧ l.status = 0 ∧
    if l.slotState < rxSlots then b.rxState l.slotState = .user else l.behind
deriving Decidable

def takeRx (b : Broker) (slot : ℕ) : Broker :=
  if slot < rxSlots then { b with rxState := update b.rxState slot .device } else { b with stray :=
    true }

def rxTurn (b : Broker) (l : Loads) : Option (ℕ × Broker) :=
  if RxValid b l then some (l.slotOut, takeRx b l.slotSet) else none

/-- Without an owner, the slots that it had are taken back. -/
def rxScan (b : Broker) (max : ℕ) : List ℕ :=
  ((range rxSlots).filter fun slot => b.rxState slot = .user).take max

def rxTakeRecycled (b : Broker) (max : ℕ) (c : Cursors) (loads : ℕ → Loads) : Ret × Broker :=
  if ¬ b.owner then (.slots (rxScan b max), (rxScan b max).foldl takeRx b)
  else if c.used > ringCapacity then (.eproto, brokerCorrupt b)
  else
    match takeLoop rxTurn (entries loads c max) b with
    | (none, b) => (.eproto, b)
    | (some l, b) => (.slots l, b)

/-- The check of a frame to send. -/
def TxValid (b : Broker) (l : Loads) : Prop :=
  l.generation = b.generation ∧ l.slot < txSlots ∧ 14 ≤ l.length ∧ l.lengthMax ≤ maxFrame ∧
  l.flags = 0 ∧
    l.status = 0 ∧ if l.slotState < txSlots then b.txState l.slotState = .userFree else l.behind
deriving Decidable

def takeTx (b : Broker) (slot : ℕ) : Broker :=
  if slot < txSlots then { b with txState := update b.txState slot .device } else { b with stray :=
    true }

def txTurn (b : Broker) (l : Loads) : Option ((ℕ × ℕ) × Broker) :=
  if TxValid b l then some ((l.slotOut, l.lengthOut), takeTx b l.slotSet) else none

def txTakeBatch (b : Broker) (max : ℕ) (c : Cursors) (loads : ℕ → Loads) : Ret × Broker :=
  if c.used > ringCapacity then (.eproto, brokerCorrupt b)
  else
    match takeLoop txTurn (entries loads c max) b with
    | (none, b) => (.eproto, b)
    | (some l, b) => (.items l, b)

/-- `net_packet_tx_complete`, which returns nothing. -/
def txComplete (b : Broker) (slot : ℕ) (c : Cursors) : Broker :=
  if slot ≥ txSlots then b
  else if b.txState slot ≠ .device then brokerCorrupt b
  else if b.owner ∧ b.started ∧ ¬ b.stopped ∧ c.used ≥ ringCapacity then
    brokerCorrupt { b with txState := update b.txState slot .userFree }
  else { b with txState := update b.txState slot .userFree }

/-! ## Calls in a row -/

inductive Call
  | rxPublish (slot frameLen : ℕ) (c : Cursors)
  | rxTakeRecycled (max : ℕ) (c : Cursors) (loads : ℕ → Loads)
  | txTakeBatch (max : ℕ) (c : Cursors) (loads : ℕ → Loads)
  | txComplete (slot : ℕ) (c : Cursors)
  /-- `netpkt_open`, `netpkt_close` and the `NETPKT_START` request of the owner -/
  | netpktOpen
  | netpktClose
  | start (generation ringMask : ℕ)
  /-- `net_packet_broker_stop` and `net_packet_broker_rearm` -/
  | stop (permanent : Bool)
  | rearm

/-- The broker, the receive slots that the driver has published and not got back, and the transmit
slots that it has got and not completed. -/
structure Sys where
  broker : Broker
  published : ℕ → Bool
  sending : ℕ → Bool

def Sys.start : Sys := ⟨.create, fun _ => false, fun _ => false⟩

def call (b : Broker) : Call → Ret × Broker
  | .rxPublish slot frameLen c => rxPublish b slot frameLen c
  | .rxTakeRecycled max c loads => rxTakeRecycled b max c loads
  | .txTakeBatch max c loads => txTakeBatch b max c loads
  | .txComplete slot c => (.ok, txComplete b slot c)
  | .netpktOpen =>
    if b.owner ∨ b.permanent then (if b.owner then .ebusy else .enodev, b)
    else (.ok, { b with owner := true, started := false, stopped := false, generation :=
      (b.generation + 1) % 2 ^ 32 })
  | .netpktClose =>
    (.ok, { b with owner := false, started := false, generation := (b.generation + 1) % 2 ^ 32 })
  | .start generation ringMask =>
    if generation ≠ b.generation then (.estale, b)
    else if ringMask ≠ 0 ∨ b.permanent then (if b.permanent then .enodev else .einval, b)
    else (.ok, { b with stopped := false, started := true })
  | .stop permanent =>
    (.ok, { b with stopped := true, permanent := permanent, generation :=
    (b.generation + 1) % 2 ^ 32 })
  | .rearm =>
    (.ok, { b with started := false, stopped := false, rxState := fun _ => .device, txState :=
    fun _ => .userFree })

def setAll {α : Type} (f : ℕ → α) (l : List ℕ) (v : α) : ℕ → α := fun i => if i ∈ l then v else f i

lemma setAll_cons {α : Type} (f : ℕ → α) (i : ℕ) (l : List ℕ) (v : α) :
    setAll (update f i v) l v = setAll f (i :: l) v := by
  funext j
  by_cases hj : j = i
  · simp [setAll, hj]
  · simp [setAll, hj]

/-- What the driver knows after a call. -/
def learn (s : Sys) (c : Call) (r : Ret) : (ℕ → Bool) × (ℕ → Bool) :=
  match c, r with
  | .rxPublish slot _ _, .ok => (setAll s.published [slot] true, s.sending)
  | .rxTakeRecycled _ _ _, .slots l => (setAll s.published l false, s.sending)
  | .txTakeBatch _ _ _, .items l => (s.published, setAll s.sending (l.map Prod.fst) true)
  | .txComplete slot _, _ => (s.published, setAll s.sending [slot] false)
  | .rearm, _ => (fun _ => false, fun _ => false)
  | _, _ => (s.published, s.sending)

def step (s : Sys) (c : Call) : Option Sys :=
  some ⟨(call s.broker c).2, (learn s c (call s.broker c).1).1, (learn s c (call s.broker c).1).2⟩

/-- A call gives the driver only slots that exist and that the owner had, each of them once, and
only lengths of frames; and if it reports a protocol error, the slots have not changed hands. -/
def Fine (s : Sys) (c : Call) : Prop :=
  match (call s.broker c).1 with
  | .slots l => l.Nodup ∧ ∀ slot ∈ l, slot < rxSlots ∧ s.published slot = true
  | .items l => (l.map Prod.fst).Nodup ∧
      ∀ x ∈ l, x.1 < txSlots ∧ s.sending x.1 = false ∧ 14 ≤ x.2 ∧ x.2 ≤ maxFrame
  | .eproto =>
    (call s.broker c).2.rxState = s.broker.rxState ∧ (call s.broker c).2.txState = s.broker.txState
  | _ => True

/-! ## The condition -/

/-- All loads of the slot, and all loads of the length, give one value. -/
structure Loads.Agree (l : Loads) : Prop where
  slotState : l.slotState = l.slot
  slotSet : l.slotSet = l.slot
  slotOut : l.slotOut = l.slot
  lengthMax : l.lengthMax = l.length
  lengthOut : l.lengthOut = l.length

instance (l : Loads) : Decidable l.Agree :=
  decidable_of_iff (l.slotState = l.slot ∧ l.slotSet = l.slot ∧ l.slotOut = l.slot ∧ l.lengthMax =
      l.length ∧ l.lengthOut = l.length)
    ⟨fun ⟨h1, h2, h3, h4, h5⟩ => ⟨h1, h2, h3, h4, h5⟩, fun ⟨h1, h2, h3, h4, h5⟩ =>
    ⟨h1, h2, h3, h4, h5⟩⟩

/-- A batch is rejected at its first entry, or all of its entries are good: nobody writes to them
while they are read, they pass the check, and they are for different slots. -/
def Batch (Valid : Broker → Loads → Prop) (b : Broker) (ls : List Loads) : Prop :=
  (∃ l ∈ ls.head?, ¬ Valid b l) ∨ (∀ l ∈ ls, l.Agree ∧ Valid b l) ∧ (ls.map Loads.slot).Nodup

instance {Valid : Broker → Loads → Prop} [∀ b l, Decidable (Valid b l)] (b : Broker)
    (ls : List Loads) : Decidable (Batch Valid b ls) :=
  inferInstanceAs (Decidable (_ ∨ _))

def Steady (s : Sys) : Call → Prop
  | .rxTakeRecycled max c loads =>
    s.broker.owner → c.used ≤ ringCapacity → Batch RxValid s.broker (entries loads c max)
  | .txTakeBatch max c loads => c.used ≤ ringCapacity → Batch TxValid s.broker (entries loads c max)
  | _ => True

instance (s : Sys) (c : Call) : Decidable (Steady s c) := by
  cases c <;> unfold Steady <;> infer_instance

/-! ## Good batches -/

/-- A loop over good entries takes all of them; taking one slot does not touch the validity of the
entries for other slots. -/
lemma takeLoop_good {α : Type} {turn : Broker → Loads → Option (α × Broker)}
    {Valid : Broker → Loads → Prop} {take : Broker → ℕ → Broker} {item : Loads → α}
    (hturn : ∀ b l, l.Agree → Valid b l → turn b l = some (item l, take b l.slot))
    (hframe : ∀ b i l, l.Agree → i ≠ l.slot → Valid b l → Valid (take b i) l) :
    ∀ (ls : List Loads) (b : Broker), (∀ l ∈ ls, l.Agree ∧ Valid b l) → (ls.map Loads.slot).Nodup →
      takeLoop turn ls b = (some (ls.map item), (ls.map Loads.slot).foldl take b) := by
  intro ls
  induction ls with
  | nil => exact fun _ _ _ => rfl
  | cons l ls ih =>
    intro b hgood hnodup
    obtain ⟨⟨hagree, hvalid⟩, hrest⟩ := forall_mem_cons.1 hgood
    obtain ⟨hl, hnodup⟩ := nodup_cons.1 hnodup
    have hrest' : ∀ l' ∈ ls, l'.Agree ∧ Valid (take b l.slot) l' := fun l' hl' =>
      ⟨(hrest l' hl').1, hframe b l.slot l' (hrest l' hl').1 (fun h => hl (h ▸ mem_map_of_mem hl'))
      (hrest l' hl').2⟩
    rw [takeLoop, hturn b l hagree hvalid]
    simp only [ih (take b l.slot) hrest' hnodup]
    rfl

variable {b : Broker} {l : Loads} {s : Sys}

lemma takeLoop_bad {α : Type} {turn : Broker → Loads → Option (α × Broker)} {ls : List Loads}
    (hl : l ∈ ls.head?) (hturn : turn b l = none) : takeLoop turn ls b =
    (none, brokerCorrupt b) := by
  obtain ⟨rest, rfl⟩ := head?_eq_some_iff.1 hl
  rw [takeLoop, hturn]

lemma rxTurn_good (b : Broker) (l : Loads) (ha : l.Agree) (hv : RxValid b l) :
    rxTurn b l = some (l.slot, takeRx b l.slot) := by
  rw [rxTurn, if_pos hv, ha.slotOut, ha.slotSet]

lemma txTurn_good (b : Broker) (l : Loads) (ha : l.Agree) (hv : TxValid b l) :
    txTurn b l = some ((l.slot, l.length), takeTx b l.slot) := by
  rw [txTurn, if_pos hv, ha.slotOut, ha.slotSet, ha.lengthOut]

lemma rxValid_takeRx (b : Broker) (i : ℕ) (l : Loads) (ha : l.Agree) (hi : i ≠ l.slot)
    (hv : RxValid b l) : RxValid (takeRx b i) l := by
  unfold takeRx
  split
  · unfold RxValid at hv ⊢
    rw [ha.slotState] at hv ⊢
    simpa only [update_of_ne hi.symm] using hv
  · exact hv

lemma txValid_takeTx (b : Broker) (i : ℕ) (l : Loads) (ha : l.Agree) (hi : i ≠ l.slot)
    (hv : TxValid b l) : TxValid (takeTx b i) l := by
  unfold takeTx
  split
  · unfold TxValid at hv ⊢
    rw [ha.slotState] at hv ⊢
    simpa only [update_of_ne hi.symm] using hv
  · exact hv

lemma foldl_takeRx : ∀ (l : List ℕ) (b : Broker), (∀ i ∈ l, i < rxSlots) →
    l.foldl takeRx b = { b with rxState := setAll b.rxState l .device } := by
  intro l
  induction l with
  | nil => exact fun _ _ => rfl
  | cons i l ih =>
    intro b hl
    obtain ⟨hi, hl⟩ := forall_mem_cons.1 hl
    rw [foldl_cons, ih _ hl, takeRx, if_pos hi, setAll_cons]

lemma foldl_takeTx : ∀ (l : List ℕ) (b : Broker), (∀ i ∈ l, i < txSlots) →
    l.foldl takeTx b = { b with txState := setAll b.txState l .device } := by
  intro l
  induction l with
  | nil => exact fun _ _ => rfl
  | cons i l ih =>
    intro b hl
    obtain ⟨hi, hl⟩ := forall_mem_cons.1 hl
    rw [foldl_cons, ih _ hl, takeTx, if_pos hi, setAll_cons]

lemma RxValid.user (h : RxValid b l) (ha : l.Agree) :
    l.slot < rxSlots ∧ b.rxState l.slot = .user := by
  obtain ⟨_, hlt, _, _, _, hstate⟩ := h
  rw [ha.slotState, if_pos hlt] at hstate
  exact ⟨hlt, hstate⟩

lemma TxValid.userFree (h : TxValid b l) (ha : l.Agree) :
    l.slot < txSlots ∧ b.txState l.slot = .userFree ∧ 14 ≤ l.length ∧ l.length ≤ maxFrame := by
  obtain ⟨_, hlt, hmin, hmax, _, _, hstate⟩ := h
  rw [ha.slotState, if_pos hlt] at hstate
  exact ⟨hlt, hstate, hmin, ha.lengthMax ▸ hmax⟩

/-- The receive slots of a list change hands: they exist, they are the owner's, and they become the
device's. -/
structure RxTaken (b : Broker) (l : List ℕ) (b' : Broker) : Prop where
  nodup : l.Nodup
  user : ∀ i ∈ l, i < rxSlots ∧ b.rxState i = .user
  rxState : b'.rxState = setAll b.rxState l .device
  txState : b'.txState = b.txState

/-- The transmit slots of a list change hands. -/
structure TxTaken (b : Broker) (l : List (ℕ × ℕ)) (b' : Broker) : Prop where
  nodup : (l.map Prod.fst).Nodup
  user : ∀ x ∈ l, x.1 < txSlots ∧ b.txState x.1 = .userFree ∧ 14 ≤ x.2 ∧ x.2 ≤ maxFrame
  txState : b'.txState = setAll b.txState (l.map Prod.fst) .device
  rxState : b'.rxState = b.rxState

/-- The slots stay with whom they are. -/
structure Kept (b b' : Broker) : Prop where
  rxState : b'.rxState = b.rxState
  txState : b'.txState = b.txState

/-- What `net_packet_rx_take_recycled` does under the condition. -/
lemma rxTakeRecycled_spec (s : Sys) (max : ℕ) (c : Cursors) (loads : ℕ → Loads)
    (h : Steady s (.rxTakeRecycled max c loads)) :
    (∃ b, rxTakeRecycled s.broker max c loads = (.eproto, b) ∧ Kept s.broker b) ∨
      ∃ l b, rxTakeRecycled s.broker max c loads = (.slots l, b) ∧ RxTaken s.broker l b := by
  unfold rxTakeRecycled
  split_ifs with howner hused
  · exact .inl ⟨_, rfl, rfl, rfl⟩
  · rcases h howner (not_lt.1 hused) with ⟨l, hl, hbad⟩ | ⟨hgood, hnodup⟩
    · rw [takeLoop_bad hl (if_neg hbad)]
      exact .inl ⟨_, rfl, rfl, rfl⟩
    · have hmem : ∀ i ∈ (entries loads c max).map Loads.slot, i < rxSlots ∧ s.broker.rxState i =
        .user :=
        forall_mem_map.2 fun l hl => (hgood l hl).2.user (hgood l hl).1
      rw [takeLoop_good rxTurn_good rxValid_takeRx _ _ hgood hnodup, foldl_takeRx _ _ fun i hi =>
        (hmem i hi).1]
      exact .inr ⟨_, _, rfl, hnodup, hmem, rfl, rfl⟩
  · have hmem : ∀ i ∈ rxScan s.broker max, i < rxSlots ∧ s.broker.rxState i = .user := by
      intro i hi
      obtain ⟨hrange, huser⟩ := mem_filter.1 (mem_of_mem_take hi)
      exact ⟨mem_range.1 hrange, of_decide_eq_true huser⟩
    rw [foldl_takeRx _ _ fun i hi => (hmem i hi).1]
    exact .inr ⟨_, _, rfl, (take_sublist _ _).nodup (nodup_range.filter _), hmem, rfl, rfl⟩

lemma txTakeBatch_spec (s : Sys) (max : ℕ) (c : Cursors) (loads : ℕ → Loads)
    (h : Steady s (.txTakeBatch max c loads)) :
    (∃ b, txTakeBatch s.broker max c loads = (.eproto, b) ∧ Kept s.broker b) ∨
      ∃ l b, txTakeBatch s.broker max c loads = (.items l, b) ∧ TxTaken s.broker l b := by
  unfold txTakeBatch
  split
  · exact .inl ⟨_, rfl, rfl, rfl⟩
  next hused =>
  rcases h (not_lt.1 hused) with ⟨l, hl, hbad⟩ | ⟨hgood, hnodup⟩
  · rw [takeLoop_bad hl (if_neg hbad)]
    exact .inl ⟨_, rfl, rfl, rfl⟩
  · have hvalid := fun l hl => (hgood l hl).2.userFree (hgood l hl).1
    have hfst : ((entries loads c max).map fun l => (l.slot, l.length)).map Prod.fst =
        (entries loads c max).map Loads.slot := by
      rw [map_map]
      rfl
    rw [takeLoop_good txTurn_good txValid_takeTx _ _ hgood hnodup,
      foldl_takeTx _ _ (forall_mem_map.2 fun l hl => (hvalid l hl).1)]
    exact .inr ⟨_, _, rfl, hfst.symm ▸ hnodup, forall_mem_map.2 hvalid, by rw [hfst], rfl⟩

/-! ## Runs -/

/-- The states of the slots are what the driver knows from its calls. -/
structure Known (s : Sys) : Prop where
  rx : ∀ i < rxSlots, s.published i = true ↔ s.broker.rxState i = .user
  tx : ∀ i < txSlots, s.sending i = true ↔ s.broker.txState i = .device

lemma known_start : Known Sys.start :=
  ⟨fun _ _ => iff_of_false Bool.false_ne_true fun h => (nomatch h),
    fun _ _ => iff_of_false Bool.false_ne_true fun h => (nomatch h)⟩

lemma Known.kept (h : Known s) (hb : Kept s.broker b) : Known ⟨b, s.published, s.sending⟩ :=
  ⟨fun i hi => by rw [hb.rxState]; exact h.rx i hi, fun i hi => by rw [hb.txState]; exact h.tx i hi⟩

lemma setAll_iff {α : Type} [DecidableEq α] {f : ℕ → Bool} {g : ℕ → α} {u v : α} {w : Bool} {i : ℕ}
    (l : List ℕ)
    (h : f i = true ↔ g i = u) (hv : w = true ↔ v = u) : setAll f l w i = true ↔ setAll g l v i =
    u := by
  unfold setAll
  by_cases hi : i ∈ l
  · rw [if_pos hi, if_pos hi]
    exact hv
  · rw [if_neg hi, if_neg hi]
    exact h

lemma update_eq_setAll {α : Type} (f : ℕ → α) (i : ℕ) (v : α) : update f i v = setAll f [i] v := by
  funext j
  by_cases hj : j = i
  · simp [setAll, hj]
  · simp [setAll, hj]

lemma Known.taken (h : Known s) {l : List ℕ} (hb : RxTaken s.broker l b) :
    Known ⟨b, setAll s.published l false, s.sending⟩ := by
  refine ⟨fun i hi => ?_, fun i hi => ?_⟩
  · rw [hb.rxState]
    exact setAll_iff l (h.rx i hi) (by decide)
  · rw [hb.txState]
    exact h.tx i hi

lemma Known.takenTx (h : Known s) {l : List (ℕ × ℕ)} (hb : TxTaken s.broker l b) :
    Known ⟨b, s.published, setAll s.sending (l.map Prod.fst) true⟩ := by
  refine ⟨fun i hi => ?_, fun i hi => ?_⟩
  · rw [hb.rxState]
    exact h.rx i hi
  · rw [hb.txState]
    exact setAll_iff _ (h.tx i hi) (by decide)

lemma rxPublish_spec (b : Broker) (slot frameLen : ℕ) (c : Cursors) :
    (∃ r, rxPublish b slot frameLen c = (r, b) ∧ (r = .einval ∨ r = .eproto ∨ r = .enotconn ∨ r =
    .enospc)) ∨
      rxPublish b slot frameLen c = (.ok, { b with rxState := setAll b.rxState [slot] .user }) := by
  fun_cases rxPublish b slot frameLen c with
  | case5 =>
    rw [update_eq_setAll]
    exact .inr rfl
  | _ => exact .inl ⟨_, rfl, by simp⟩

/-- A completed slot is the user's again, and the driver has it no longer. -/
lemma Known.complete (h : Known s) (slot : ℕ) (c : Cursors) :
    Known ⟨txComplete s.broker slot c, s.published, setAll s.sending [slot] false⟩ := by
  have hdone : ∀ i < txSlots, setAll s.sending [slot] false i = true ↔
      setAll s.broker.txState [slot] .userFree i = .device := fun i hi =>
      setAll_iff _ (h.tx i hi) (by decide)
  unfold txComplete
  rw [update_eq_setAll]
  split_ifs with h1 h2
  · refine ⟨h.rx, fun i hi => ?_⟩
    have hne : i ∉ [slot] := fun hmem => absurd (mem_singleton.1 hmem ▸ hi) (not_lt.2 h1)
    change setAll s.sending [slot] false i = true ↔ _
    rw [setAll, if_neg hne]
    exact h.tx i hi
  · refine ⟨h.rx, fun i hi => ?_⟩
    change setAll s.sending [slot] false i = true ↔ s.broker.txState i = .device
    by_cases hmem : i ∈ [slot]
    · obtain rfl := mem_singleton.1 hmem
      rw [setAll, if_pos hmem]
      exact iff_of_false Bool.false_ne_true h2
    · rw [setAll, if_neg hmem]
      exact h.tx i hi
  · exact ⟨h.rx, hdone⟩
  · exact ⟨h.rx, hdone⟩

lemma known_step (s : Sys) (c : Call) (s' : Sys) (h : Known s) (hC : Steady s c)
    (hs : step s c = some s') : Known s' := by
  obtain rfl := Option.some.inj hs
  cases c with
  | rxPublish slot frameLen c =>
    rcases rxPublish_spec s.broker slot frameLen c with ⟨r, hr, hor⟩ | hr
    · simp only [call, hr]
      rcases hor with rfl | rfl | rfl | rfl <;> exact h
    · simp only [call, hr]
      exact ⟨fun i hi => setAll_iff _ (h.rx i hi) (by decide), h.tx⟩
  | rxTakeRecycled max c loads =>
    rcases rxTakeRecycled_spec s max c loads hC with ⟨b, hr, hk⟩ | ⟨l, b, hr, ht⟩
    · simp only [call, hr]
      exact h.kept hk
    · simp only [call, hr]
      exact h.taken ht
  | txTakeBatch max c loads =>
    rcases txTakeBatch_spec s max c loads hC with ⟨b, hr, hk⟩ | ⟨l, b, hr, ht⟩
    · simp only [call, hr]
      exact h.kept hk
    · simp only [call, hr]
      exact h.takenTx ht
  | txComplete slot c => exact h.complete slot c
  | netpktOpen =>
    unfold call
    dsimp only
    split
    · exact h
    · exact h.kept ⟨rfl, rfl⟩
  | netpktClose => exact h.kept ⟨rfl, rfl⟩
  | start generation ringMask =>
    unfold call
    dsimp only
    split
    · exact h
    split
    · exact h
    · exact h.kept ⟨rfl, rfl⟩
  | stop permanent => exact h.kept ⟨rfl, rfl⟩
  | rearm => exact ⟨fun _ _ => iff_of_false Bool.false_ne_true fun h => (nomatch h),
      fun _ _ => iff_of_false Bool.false_ne_true fun h => (nomatch h)⟩

lemma fine_of_steady (s : Sys) (c : Call) (h : Known s) (hC : Steady s c) : Fine s c := by
  unfold Fine
  cases c with
  | rxPublish slot frameLen c =>
    rcases rxPublish_spec s.broker slot frameLen c with ⟨r, hr, hor⟩ | hr
    · simp only [call, hr]
      rcases hor with rfl | rfl | rfl | rfl <;> simp only [and_self]
    · simp only [call, hr]
  | rxTakeRecycled max c loads =>
    rcases rxTakeRecycled_spec s max c loads hC with ⟨b, hr, hk⟩ | ⟨l, b, hr, ht⟩
    · simp only [call, hr]
      exact ⟨hk.rxState, hk.txState⟩
    · simp only [call, hr]
      exact ⟨ht.nodup, fun i hi => ⟨(ht.user i hi).1, (h.rx i (ht.user i hi).1).2 (ht.user i hi).2⟩⟩
  | txTakeBatch max c loads =>
    rcases txTakeBatch_spec s max c loads hC with ⟨b, hr, hk⟩ | ⟨l, b, hr, ht⟩
    · simp only [call, hr]
      exact ⟨hk.rxState, hk.txState⟩
    · simp only [call, hr]
      refine ⟨ht.nodup, fun x hx => ?_⟩
      obtain ⟨hlt, hfree, hlen⟩ := ht.user x hx
      refine ⟨hlt, Bool.eq_false_iff.2 fun hsend => ?_, hlen⟩
      exact nomatch hfree.symm.trans ((h.tx x.1 hlt).1 hsend)
  | txComplete slot c => trivial
  | netpktOpen =>
    by_cases ho : s.broker.owner ∨ s.broker.permanent
    · simp only [call, if_pos ho]
      cases s.broker.owner <;> trivial
    · simp only [call, if_neg ho]
  | netpktClose => trivial
  | start generation ringMask =>
    by_cases hg : generation ≠ s.broker.generation
    · simp only [call, if_pos hg]
    by_cases hp : ringMask ≠ 0 ∨ s.broker.permanent
    · simp only [call, if_neg hg, if_pos hp]
      cases s.broker.permanent <;> trivial
    · simp only [call, if_neg hg, if_neg hp]
  | stop permanent => trivial
  | rearm => trivial

/-- In every run in which the entries of a batch do not change while they are read, and only the
first entry of a batch is ever rejected, every call gives the driver only slots that exist and that
the owner had, and lengths of frames, and a protocol error leaves all slots where they are. -/
theorem slots_change_hands_properly (calls : List Call) (h : Meets step Steady Sys.start calls) :
    Meets step Fine Sys.start calls :=
  Meets.imp_of_invariant known_step fine_of_steady calls Sys.start known_start h

/-- The owner opens the device, starts it, and sends the frames of two slots. -/
def sendTwo : List Call :=
  [.netpktOpen, .start 2 0, .txTakeBatch 32 ⟨2, 0⟩ fun k => Loads.entry 2 k 60,
  .txComplete 0 ⟨0, 0⟩]

theorem slots_change_hands_properly_send_two :
    (exec step Sys.start sendTwo).map (fun s => (s.sending 0, s.sending 1)) = some (false, true) ∧
      Meets step Fine Sys.start sendTwo :=
  ⟨by decide +kernel, slots_change_hands_properly sendTwo (by decide +kernel)⟩

/-- The state after the owner has opened the device and started it. -/
def started : Sys :=
  ⟨{ Broker.create with owner := true, started := true, generation := 2 }, fun _ => false, fun _ =>
  false⟩

/-- An entry whose slot is loaded as `0` for the checks and as `300` when it is handed out. -/
def loadedAgain : Call := .txTakeBatch 32 ⟨1, 0⟩ fun _ => { Loads.entry 2 0 60 with slotOut := 300 }

/-- A good entry and then one of an older generation. -/
def halfBatch : Call := .txTakeBatch 32 ⟨2, 0⟩ fun k => Loads.entry (2 - k) k 60

lemma Fine.items {c : Call} {l : List (ℕ × ℕ)} (h : Fine s c) (hr : (call s.broker c).1 = .items l)
    : ∀ x ∈ l, x.1 < txSlots := by
  unfold Fine at h
  rw [hr] at h
  exact fun x hx => (h.2 x hx).1

lemma Fine.eproto {c : Call} (h : Fine s c) (hr : (call s.broker c).1 = .eproto) :
    (call s.broker c).2.txState = s.broker.txState := by
  unfold Fine at h
  rw [hr] at h
  exact h.2

/-- The driver gets a slot that does not exist if the slot changes between two loads; and a batch
whose second entry is bad takes the slot of the first one although it fails. -/
theorem entries_loaded_again_and_half_batches :
    exec step Sys.start [.netpktOpen, .start 2 0] = some started ∧
      ((call started.broker loadedAgain).1 = .items [(300, 60)] ∧ ¬ Fine started loadedAgain) ∧
      (call started.broker halfBatch).1 = .eproto ∧ ¬ Fine started halfBatch := by
  have hitems : (call started.broker loadedAgain).1 = .items [(300, 60)] := by decide +kernel
  have heproto : (call started.broker halfBatch).1 = .eproto := by decide +kernel
  refine ⟨rfl, ⟨hitems, fun h => ?_⟩, heproto, fun h => ?_⟩
  · exact absurd (h.items hitems _ mem_cons_self) (by decide)
  · exact absurd (congrFun (h.eproto heproto) 0) (by decide +kernel)

end XosKernel.NetPacket
