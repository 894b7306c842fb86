/-
# Completions of a virtqueue

Over all runs of a queue, with whatever the device writes to the used ring, the free chain and the
stored indices stay sound and a poll ends. A completion is taken for any descriptor that is
available, also for one in the middle of a buffer: then the callback gets a context that nobody
gave. The callbacks are for different buffers that were added, each with its context, exactly as
long as every completion of an available descriptor names the head of a buffer that is not yet
complete.
-/
import XosKernel.Driver.Vring

namespace XosKernel.Vring

open Option Function List

/-! ## The inner loop on a chain -/

def pushAll (vq : Vq) (l : List ℕ) : Vq := l.foldl pushDesc vq

lemma pushAll_freed (l : List ℕ) (vq : Vq) : Freed vq (pushAll vq l) := by
  induction l generalizing vq with
  | nil => exact ⟨rfl, fun _ => .inr rfl, rfl, rfl, rfl⟩
  | cons i l ih => exact (Freed.push vq i).trans (ih (pushDesc vq i))

variable {l : List ℕ} {s s' : Sys} {bs : List Buffer} {b : Buffer} {ctx : Option ℕ}
  {r : Option ℕ × Vq} {id : ℕ}

lemma pushAll_of_notMem {j : ℕ} (h : j ∉ l) (vq : Vq) :
    (pushAll vq l).descState j = vq.descState j ∧ (pushAll vq l).ctx j = vq.ctx j := by
  induction l generalizing vq with
  | nil => exact ⟨rfl, rfl⟩
  | cons i l ih =>
    obtain ⟨hi, hl⟩ := ne_and_not_mem_of_not_mem_cons h
    obtain ⟨hs, hc⟩ := ih hl (pushDesc vq i)
    exact ⟨hs.trans (update_of_ne hi ..), hc.trans (update_of_ne hi ..)⟩

lemma pushAll_of_mem {j : ℕ} (h : j ∈ l) (vq : Vq) : (pushAll vq l).descState j = .free := by
  induction l generalizing vq with
  | nil => exact absurd h not_mem_nil
  | cons i l ih =>
    by_cases hl : j ∈ l
    · exact ih hl (pushDesc vq i)
    · obtain rfl := (mem_cons.1 h).resolve_right hl
      exact (pushAll_of_notMem hl (pushDesc vq j)).1.trans (update_self ..)

lemma walk_chain : ∀ (l : List ℕ) (i n : ℕ) {vq : Vq} {free : List ℕ}, FreeChain vq free →
    Chain vq.desc (i :: l) → (∀ j ∈ i :: l, j < vq.size ∧ vq.descState j = .available) →
    (i :: l).Nodup →
    (i :: l).length ≤ n → walk n i vq = (true, pushAll vq (i :: l)) := by
  intro l
  induction l with
  | nil =>
    intro i n vq free hfree hchain hmem _ hn
    obtain ⟨n, rfl⟩ := Nat.exists_eq_succ_of_ne_zero (Nat.ne_zero_of_lt hn)
    obtain ⟨hi, hstate⟩ := hmem i mem_cons_self
    obtain ⟨hpush, _⟩ := hfree.free hi (by rw [hstate]; exact fun h => nomatch h)
    have hlast : (vq.desc i).hasNext = false := hchain
    rw [walk, if_neg (not_le.2 hi), if_neg (not_not_intro hstate), if_neg (by simp [hlast]), hpush]
    simp only [hlast]
    rfl
  | cons j l ih =>
    intro i n vq free hfree hchain hmem hnodup hn
    obtain ⟨n, rfl⟩ := Nat.exists_eq_succ_of_ne_zero (Nat.ne_zero_of_lt hn)
    obtain ⟨⟨hi, hstate⟩, hmem⟩ := forall_mem_cons.1 hmem
    obtain ⟨hil, hnodup⟩ := nodup_cons.1 hnodup
    obtain ⟨⟨hnext, rfl⟩, hchain⟩ := hchain
    obtain ⟨hpush, hfree'⟩ := hfree.free hi (by rw [hstate]; exact fun h => nomatch h)
    have hj := (hmem (vq.desc i).next mem_cons_self).1
    rw [walk, if_neg (not_le.2 hi), if_neg (not_not_intro hstate),
      if_neg (fun h => absurd hj (not_lt.2 h.2)), hpush]
    simp only [if_pos hnext]
    refine ih (vq.desc i).next n hfree' hchain (fun k hk => ?_) hnodup
      (by simp only [length_cons] at hn ⊢; omega)
    exact ⟨(hmem k hk).1, (update_of_ne (ne_of_mem_of_not_mem hk hil) ..).trans (hmem k hk).2⟩

/-! ## The buffers that are not yet complete -/

/-- A buffer that was added, with its context. -/
structure Buffer where
  head : ℕ
  tail : List ℕ
  ctx : Option ℕ
deriving DecidableEq

def Buffer.chain (b : Buffer) : List ℕ := b.head :: b.tail

def Buffer.key (b : Buffer) : Key := ⟨b.head, b.ctx⟩

/-- The available descriptors are those of the buffers `bs`, which are the ones added and not yet
complete. -/
structure Whole (s : Sys) (bs : List Buffer) : Prop where
  chain : ∀ b ∈ bs, Chain s.vq.desc b.chain
  nodup : (bs.flatMap Buffer.chain).Nodup
  mem : ∀ i, i ∈ bs.flatMap Buffer.chain ↔ i < s.vq.size ∧ s.vq.descState i = .available
  ctx : ∀ b ∈ bs, s.vq.ctx b.head = b.ctx
  perm : (s.calls ++ bs.map Buffer.key).Perm s.adds

lemma Buffer.head_mem (b : Buffer) : b.head ∈ b.chain := mem_cons_self

section

variable (h : Whole s bs)
include h

lemma Whole.of_perm {bs' : List Buffer} (hp : bs.Perm bs') : Whole s bs' where
  chain b hb := h.chain b (hp.mem_iff.2 hb)
  nodup := (hp.flatMap_right _).nodup_iff.1 h.nodup
  mem i := ((hp.flatMap_right _).mem_iff.symm).trans (h.mem i)
  ctx b hb := h.ctx b (hp.mem_iff.2 hb)
  perm := ((hp.map _).append_left _).symm.trans h.perm

lemma Whole.available (hb : b ∈ bs) :
    ∀ j ∈ b.chain, j < s.vq.size ∧ s.vq.descState j = .available :=
  fun j hj => (h.mem j).1 (mem_flatMap.2 ⟨b, hb, hj⟩)

lemma Whole.chain_nodup (hb : b ∈ bs) : b.chain.Nodup :=
  (nodup_flatMap.1 h.nodup).1 b hb

lemma Whole.count_head (i : ℕ) :
    (s.calls.map Key.head).count i + (bs.map Buffer.head).count i = (s.adds.map Key.head).count
    i := by
  have := (h.perm.map Key.head).count_eq i
  rwa [List.map_append, List.count_append, List.map_map] at this

lemma Whole.length_le (hb : b ∈ bs) : b.chain.length ≤ s.vq.size := by
  have hsub : b.chain ⊆ List.range s.vq.size := fun j hj => mem_range.2 (h.available hb j hj).1
  simpa using ((h.chain_nodup hb).subperm hsub).length_le

lemma Whole.walk_eq (hs : Safe s.vq) (hb : b ∈ bs)
    {i : ℕ} {pre post : List ℕ} (hi : b.chain = pre ++ i :: post) :
    walk s.vq.size i s.vq = (true, pushAll s.vq (i :: post)) := by
  obtain ⟨free, hfree⟩ := hs.chain
  have hlen := h.length_le hb
  have hchain := h.chain b hb
  have hmem := h.available hb
  have hnodup := h.chain_nodup hb
  rw [hi] at hchain hmem hnodup hlen
  rw [length_append] at hlen
  exact walk_chain post i _ hfree (Chain.drop pre hchain)
    (fun j hj => hmem j (mem_append_right _ hj))
    (nodup_append.1 hnodup).2.1 (le_trans (Nat.le_add_left _ _) hlen)

omit h in
lemma Whole.complete (h : Whole s (b :: bs))
    (hdesc : s'.vq.desc = s.vq.desc) (hsize : s'.vq.size = s.vq.size)
    (hstate : s'.vq.descState = (pushAll s.vq b.chain).descState)
    (hctx : s'.vq.ctx = (pushAll s.vq b.chain).ctx)
    (hcalls : s'.calls = s.calls ++ [b.key]) (hadds : s'.adds = s.adds) : Whole s' bs := by
  have hnodup := h.nodup
  obtain ⟨_, hrest, hdisj⟩ := nodup_append.1 hnodup
  have hnot : ∀ i ∈ bs.flatMap Buffer.chain, i ∉ b.chain := fun i hi hb => hdisj i hb i hi rfl
  refine ⟨fun c hc => hdesc.symm ▸ h.chain c (mem_cons_of_mem b hc), hrest, fun i => ?_, fun c hc =>
    ?_, ?_⟩
  · rw [hsize, hstate]
    have hmem := h.mem i
    rw [flatMap_cons, mem_append] at hmem
    by_cases hib : i ∈ b.chain
    · rw [pushAll_of_mem hib]
      exact iff_of_false (fun hi => hnot i hi hib) fun hi => nomatch hi.2
    · rw [(pushAll_of_notMem hib _).1, ← hmem, or_iff_right hib]
  · rw [hctx, (pushAll_of_notMem (hnot _ (mem_flatMap.2 ⟨c, hc, c.head_mem⟩)) _).2]
    exact h.ctx c (mem_cons_of_mem b hc)
  · rw [hcalls, hadds, append_assoc]
    exact h.perm

/-- What becomes of the buffers when one is added. -/
lemma Whole.add {i : ℕ} {free : List ℕ} {vq' : Vq}
    (before : FreeChain s.vq (i :: l ++ free)) (outside : Outside (i :: l) s.vq vq')
    (available : ∀ j ∈ i :: l, vq'.descState j = .available) (linked : Chain vq'.desc (i :: l)) :
    Whole { s with vq := publish vq' i ctx, adds := s.adds ++ [⟨i, ctx⟩] } (⟨i, l, ctx⟩ :: bs) := by
  have hfree : ∀ j ∈ i :: l, j < s.vq.size ∧ s.vq.descState j = .free :=
    fun j hj => (before.mem j).1 (mem_append_left _ hj)
  have hnot : ∀ j ∈ bs.flatMap Buffer.chain, j ∉ i :: l := fun j hj hjl =>
    nomatch ((h.mem j).1 hj).2.symm.trans (hfree j hjl).2
  have hold : ∀ c ∈ bs, ∀ j ∈ c.chain, j ∉ i :: l := fun c hc j hj =>
    hnot j (mem_flatMap.2 ⟨c, hc, hj⟩)
  refine ⟨forall_mem_cons.2 ⟨linked, fun c hc => ?_⟩, ?_, fun j =>
    ?_, forall_mem_cons.2 ⟨?_, fun c hc => ?_⟩, ?_⟩
  · exact (h.chain c hc).congr fun j hj => outside.desc j (hold c hc j hj)
  · rw [flatMap_cons]
    refine nodup_append.2 ⟨(nodup_append.1 before.nodup).1, h.nodup, fun j hj k hk hjk => ?_⟩
    exact hnot k hk (hjk ▸ hj)
  · rw [flatMap_cons, mem_append, h.mem]
    change j ∈ i :: l ∨ _ ↔ j < vq'.size ∧ vq'.descState j = .available
    rw [outside.size]
    by_cases hj : j ∈ i :: l
    · exact iff_of_true (.inl hj) ⟨(hfree j hj).1, available j hj⟩
    · rw [outside.descState j hj, or_iff_right hj]
  · exact update_self ..
  · have hne : c.head ≠ i := fun hci => hold c hc c.head c.head_mem (hci ▸ mem_cons_self)
    exact (update_of_ne hne ..).trans ((congrFun outside.ctx _).trans (h.ctx c hc))
  · change (s.calls ++ ⟨i, ctx⟩ :: bs.map Buffer.key).Perm (s.adds ++ [⟨i, ctx⟩])
    exact perm_middle.trans ((h.perm.cons _).trans (perm_append_singleton _ _).symm)

end

/-! ## Runs -/

/-- What holds in every state: besides the soundness of the queue, the bound on the turns that are
left. -/
structure Inv (s : Sys) : Prop where
  safe : Safe s.vq
  bound : ∀ p, s.polling = some p → p.pending ≤ s.vq.size
  silent : s.vq.callback = false → s.calls = []

lemma inv_start {size : ℕ} {cb : Bool} {vq : Vq} (h : vringCreate size cb = some vq) :
    Inv (Sys.start vq) :=
  ⟨safe_create h, fun _ hp => (nomatch hp), fun _ => rfl⟩

lemma Added.size_callback {vq : Vq} (h : Added vq ctx r) :
    r.2.size = vq.size ∧ r.2.callback = vq.callback := by
  cases h with
  | refused => exact ⟨rfl, rfl⟩
  | chain _ _ _ _ _ _ outside => exact ⟨outside.size, outside.callback⟩

lemma Inv.add (h : Inv s) (hr : Added s.vq ctx r) : Inv (noteAdd s ctx r) := by
  obtain ⟨hsize, hcb⟩ := hr.size_callback
  obtain ⟨_ | i, vq⟩ := r <;>
    exact ⟨h.safe.added hr, fun p hp => (h.bound p hp).trans hsize.ge, fun hc =>
      h.silent (hcb.symm.trans hc)⟩

lemma Inv.break (h : Inv s) : Inv { s with vq := { s.vq with broken := true }, polling := none } :=
  ⟨h.safe.break, fun _ hp => (nomatch hp), h.silent⟩

lemma Inv.pollUsed (h : Inv s) (hnone : s.polling = none) (budget deviceUsed : ℕ) :
    Inv (pollUsed s budget deviceUsed) := by
  fun_cases Vring.pollUsed s budget deviceUsed with
  | case1 => exact h
  | case2 => exact ⟨h.safe.break, fun p hp => (nomatch hnone.symm.trans hp), h.silent⟩
  | case3 _ hmany => exact ⟨h.safe, fun p hp => some.inj hp ▸ not_lt.1 hmany, h.silent⟩

lemma Inv.pollTurn (h : Inv s) {p : Poll} (hp : s.polling = some p) (id : ℕ) :
    Inv (pollTurn s p id) := by
  unfold Vring.pollTurn
  split
  · exact h.break
  · obtain ⟨hfreed, hsafe⟩ := walk_safe s.vq.size id h.safe
    rcases hw : walk s.vq.size id s.vq with ⟨ok, vq⟩
    rw [hw] at hfreed hsafe
    cases ok with
    | false =>
      exact ⟨hsafe, fun _ hp => (nomatch hp), fun hc => h.silent (hfreed.callback.symm.trans hc)⟩
    | true =>
      refine ⟨⟨hsafe.pos, hsafe.chain.imp fun _ hc => { hc with }, hsafe.next,
        hsafe.avail⟩, fun q hq => ?_, fun hc => ?_⟩
      · obtain rfl := some.inj hq
        exact (Nat.sub_le _ _).trans ((h.bound p hp).trans hfreed.size.ge)
      · change vq.callback = false at hc
        change (if vq.callback = true then _ else s.calls) = []
        rw [if_neg (by rw [hc]; exact Bool.false_ne_true)]
        exact h.silent (hfreed.callback.symm.trans hc)

lemma inv_step (s : Sys) (a : Act) (s' : Sys) (h : Inv s) (hs : step s a = some s') : Inv s' := by
  cases a with
  | add bufs ctx =>
    obtain ⟨free, hfree⟩ := h.safe.chain
    exact some.inj hs ▸ h.add (added s.vq hfree bufs ctx)
  | poll budget deviceUsed =>
    obtain ⟨hnone, rfl⟩ := of_guard hs
    exact h.pollUsed hnone budget deviceUsed
  | turn id =>
    obtain ⟨p, hp, hs⟩ := bind_eq_some_iff.1 hs
    obtain ⟨_, rfl⟩ := of_guard hs
    exact h.pollTurn hp id
  | done =>
    obtain ⟨p, hp, hs⟩ := bind_eq_some_iff.1 hs
    obtain ⟨_, hs⟩ := ite_none_left_eq_some.1 hs
    exact some.inj hs ▸ ⟨h.safe, fun _ hp => (nomatch hp), h.silent⟩

/-- The turns that a poll can still take. -/
def turnsLeft (s : Sys) : ℕ := (s.polling.map Poll.pending).getD 0

lemma turnsLeft_turn (hs : step s (.turn id) = some s') : turnsLeft s' + 1 ≤ turnsLeft s := by
  obtain ⟨p, hp, hs⟩ := bind_eq_some_iff.1 hs
  obtain ⟨hmore, rfl⟩ := of_guard hs
  have hpos : 0 < p.pending := Nat.pos_of_ne_zero hmore.1
  have hleft : turnsLeft s = p.pending := by rw [turnsLeft, hp]; rfl
  rw [hleft]
  unfold pollTurn
  split
  · exact hpos
  · rcases walk s.vq.size id s.vq with ⟨ok, vq⟩
    cases ok with
    | false => exact hpos
    | true => exact (Nat.sub_add_cancel hpos).le

lemma turns_le : ∀ (ids : List ℕ) {s t : Sys}, exec step s (ids.map .turn) = some t →
    ids.length ≤ turnsLeft s := by
  intro ids
  induction ids with
  | nil => exact fun _ => Nat.zero_le _
  | cons id ids ih =>
    intro s t ht
    obtain ⟨s', hs', ht⟩ := exec_cons_eq_some.1 ht
    exact (Nat.succ_le_succ (ih ht)).trans (turnsLeft_turn hs')

/-! ## Whose buffers are completed -/

/-- The callbacks made are for different buffers that were added, each with its head and its
context. -/
def Attributed (s : Sys) : Prop := s.calls.Subperm s.adds

/-- A completion of an available descriptor names the head of a buffer that was added more often
than it was completed. -/
def HeadsOnly (s : Sys) : Act → Prop
  | .turn id => s.vq.callback = true → id < s.vq.size → s.vq.descState id = .available →
      (s.calls.map Key.head).count id < (s.adds.map Key.head).count id
  | _ => True

instance (s : Sys) (a : Act) : Decidable (HeadsOnly s a) :=
  match a with
  | .add _ _ => isTrue trivial
  | .poll _ _ => isTrue trivial
  | .turn _ => inferInstanceAs (Decidable (_ → _ → _ → _))
  | .done => isTrue trivial

def Sound (s : Sys) : Prop := Inv s ∧ (s.vq.callback = true → ∃ bs, Whole s bs)

lemma Sound.attributed (h : Sound s) : Attributed s := by
  cases hcb : s.vq.callback with
  | false =>
    rw [Attributed, h.1.silent hcb]
    exact nil_subperm
  | true =>
    obtain ⟨bs, hw⟩ := h.2 hcb
    exact (sublist_append_left _ _).subperm.trans hw.perm.subperm

section

variable (h : Whole s bs)
include h

lemma whole_add (hr : Added s.vq ctx r) : ∃ bs', Whole (noteAdd s ctx r) bs' := by
  cases hr with
  | refused => exact ⟨bs, h⟩
  | chain i l free vq' before after outside available linked =>
    exact ⟨_, h.add before outside available linked⟩

lemma whole_pollUsed (budget deviceUsed : ℕ) : Whole (pollUsed s budget deviceUsed) bs := by
  fun_cases pollUsed s budget deviceUsed with
  | case1 => exact h
  | case2 => exact { h with }
  | case3 => exact { h with }

lemma pollTurn_available (hs : Safe s.vq) (hb : b ∈ bs)
    (pre post : List ℕ) (hid : b.chain = pre ++ id :: post) (hcb : s.vq.callback = true) (p : Poll)
    :
    pollTurn s p id =
      { s with
        vq := { pushAll s.vq (id :: post) with usedIdx := ((pushAll s.vq (id :: post)).usedIdx + 1)
        % 2 ^ 16 }
        polling := some ⟨p.pending - 1, p.completions + 1, p.budget⟩
        calls := s.calls ++ [⟨id, s.vq.ctx id⟩] } := by
  obtain ⟨hlt, hav⟩ := h.available hb id (hid ▸ mem_append_right _ mem_cons_self)
  have hok : ¬ (id ≥ s.vq.size ∨ s.vq.descState id ≠ .available) :=
    fun hor => hor.elim (not_le.2 hlt) fun hne => hne hav
  have hcb' : (pushAll s.vq (id :: post)).callback = true :=
    (pushAll_freed (id :: post) s.vq).callback.trans hcb
  rw [pollTurn, if_neg hok, h.walk_eq hs hb hid]
  simp only [if_pos hcb']

lemma whole_pollTurn (hs : Safe s.vq) (hcb : s.vq.callback = true)
    (hhead : HeadsOnly s (.turn id)) (p : Poll) : ∃ bs', Whole (pollTurn s p id) bs' := by
  by_cases hbad : id ≥ s.vq.size ∨ s.vq.descState id ≠ .available
  · rw [pollTurn, if_pos hbad]
    exact ⟨bs, { h with }⟩
  · push Not at hbad
    have hlt := hhead hcb hbad.1 hbad.2
    -- more added than completed: one of the buffers that are left has this head
    rw [← h.count_head] at hlt
    obtain ⟨b, hb, rfl⟩ := mem_map.1 (count_pos_iff.1 (Nat.lt_add_right_iff_pos.1 hlt))
    have hw := h.of_perm (perm_cons_erase hb)
    rw [pollTurn_available h hs hb [] b.tail rfl hcb]
    have hfreed := pushAll_freed b.chain s.vq
    refine ⟨_, hw.complete hfreed.desc hfreed.size rfl rfl ?_ rfl⟩
    rw [Buffer.key, ← h.ctx b hb]

end

lemma Freed.callback_pollTurn (h : Safe s.vq) (p : Poll) (id : ℕ) :
    (pollTurn s p id).vq.callback = s.vq.callback := by
  unfold pollTurn
  split
  · rfl
  · have hfreed := (walk_safe s.vq.size id h).1
    rcases hw : walk s.vq.size id s.vq with ⟨ok, vq⟩
    rw [hw] at hfreed
    cases ok <;> exact hfreed.callback

lemma sound_step (s : Sys) (a : Act) (s' : Sys) (h : Sound s) (hC : HeadsOnly s a)
    (hs : step s a = some s') : Sound s' := by
  refine ⟨inv_step s a s' h.1 hs, fun hcb => ?_⟩
  cases a with
  | add bufs ctx =>
    obtain ⟨free, hfree⟩ := h.1.safe.chain
    have hr := added s.vq hfree bufs ctx
    obtain rfl := some.inj hs
    have hsame : (noteAdd s ctx (vringAddBuf s.vq bufs ctx)).vq.callback = s.vq.callback := by
      have hcb := hr.size_callback.2
      revert hcb
      rcases vringAddBuf s.vq bufs ctx with ⟨_ | i, vq⟩ <;> exact id
    obtain ⟨bs, hw⟩ := h.2 (hsame.symm.trans hcb)
    exact whole_add hw hr
  | poll budget deviceUsed =>
    obtain ⟨_, rfl⟩ := of_guard hs
    have hsame : (pollUsed s budget deviceUsed).vq.callback = s.vq.callback := by
      unfold pollUsed
      split_ifs <;> rfl
    obtain ⟨bs, hw⟩ := h.2 (hsame.symm.trans hcb)
    exact ⟨bs, whole_pollUsed hw budget deviceUsed⟩
  | turn id =>
    obtain ⟨p, hp, hs⟩ := bind_eq_some_iff.1 hs
    obtain ⟨_, rfl⟩ := of_guard hs
    have hcb := (Freed.callback_pollTurn h.1.safe p id).symm.trans hcb
    obtain ⟨bs, hw⟩ := h.2 hcb
    exact whole_pollTurn hw h.1.safe hcb hC p
  | done =>
    obtain ⟨p, hp, hs⟩ := bind_eq_some_iff.1 hs
    obtain ⟨_, hs⟩ := ite_none_left_eq_some.1 hs
    obtain rfl := some.inj hs
    obtain ⟨bs, hw⟩ := h.2 hcb
    exact ⟨bs, { hw with }⟩

/-- A completion in the middle of a buffer, or of a head whose buffer is complete, is a callback for
nothing that was added. -/
lemma not_attributed_of_not_headsOnly (s : Sys) (a : Act) (s' : Sys) (h : Sound s)
    (hC : ¬ HeadsOnly s a) (hs : step s a = some s') : ¬ Attributed s' := by
  cases a with
  | add => exact absurd trivial hC
  | poll => exact absurd trivial hC
  | done => exact absurd trivial hC
  | turn id =>
    unfold HeadsOnly at hC
    push Not at hC
    obtain ⟨hcb, hlt, hav, hcount⟩ := hC
    obtain ⟨p, hp, hs⟩ := bind_eq_some_iff.1 hs
    obtain ⟨_, rfl⟩ := of_guard hs
    obtain ⟨bs, hw⟩ := h.2 hcb
    obtain ⟨b, hb, hid⟩ := mem_flatMap.1 ((hw.mem id).2 ⟨hlt, hav⟩)
    obtain ⟨pre, post, hid⟩ := append_of_mem hid
    rw [pollTurn_available hw h.1.safe hb pre post hid hcb]
    rintro ⟨l, hperm, hsub⟩
    have := (hsub.map Key.head).count_le id
    rw [(hperm.map Key.head).count_eq id] at this
    rw [map_append, count_append] at this
    change _ + [id].count id ≤ (s.adds.map Key.head).count id at this
    rw [count_singleton_self] at this
    omega

/-- For every sequence of buffers added and polls made, whatever the device writes to the used ring,
the queue stays sound and a poll makes at most `size` turns. All callbacks, up to every point of the
run, are for different buffers that were added and with their contexts, exactly if every completion
of an available descriptor names the head of a buffer that is not yet complete. -/
theorem virtqueue_under_any_device {size : ℕ} {cb : Bool} {vq : Vq} {as : List Act} {s : Sys}
    (hvq : vringCreate size cb = some vq) (hrun : exec step (Sys.start vq) as = some s) :
    Safe s.vq ∧ (∀ (ids : List ℕ) t, exec step s (ids.map .turn) = some t → ids.length ≤ s.vq.size)
      ∧ (Meets step HeadsOnly (Sys.start vq) as ↔
        ∀ bs u, bs <+: as → exec step (Sys.start vq) bs = some u → Attributed u) := by
  have hinv : Inv s := exec_invariant inv_step (inv_start hvq) hrun
  have hwhole : Whole (Sys.start vq) [] := by
    obtain ⟨_, hvq⟩ := ite_none_left_eq_some.1 hvq
    obtain rfl := some.inj hvq
    exact ⟨fun _ hb => absurd hb not_mem_nil, nodup_nil,
      fun i => iff_of_false not_mem_nil fun hi => (nomatch hi.2), fun _ hb => absurd hb not_mem_nil,
      .refl _⟩
  refine ⟨hinv.safe, fun ids t ht => (turns_le ids ht).trans ?_, ?_⟩
  · rcases hp : s.polling with _ | p
    · rw [turnsLeft, hp]
      exact Nat.zero_le _
    · rw [turnsLeft, hp]
      exact hinv.bound p hp
  · exact meets_iff_of_exact (fun _ h => h.attributed) sound_step not_attributed_of_not_headsOnly as
      _ s ⟨inv_start hvq, fun _ => ⟨[], hwhole⟩⟩ hrun

def twoBufs : List Buf := [⟨0x1000, 16, 0⟩, ⟨0x2000, 32, descFWrite⟩]

theorem virtqueue_two_descriptors :
    ∃ vq s, vringCreate 4 true = some vq ∧
      exec step (Sys.start vq) [.add (some twoBufs) (some 7), .poll 4 1, .turn 0] = some s ∧
      s.calls = [⟨0, some 7⟩] ∧ Safe s.vq ∧ Attributed s := by
  obtain ⟨vq, hvq, s, hs, hcalls, hmeets⟩ : ∃ vq, vringCreate 4 true = some vq ∧
      ∃ s, exec step (Sys.start vq) [.add (some twoBufs) (some 7), .poll 4 1, .turn 0] = some s ∧
        s.calls = [⟨0, some 7⟩] ∧ Meets step HeadsOnly (Sys.start vq)
          [.add (some twoBufs) (some 7), .poll 4 1, .turn 0] := by
    decide +kernel
  obtain ⟨hsafe, _, hiff⟩ := virtqueue_under_any_device hvq hs
  exact ⟨vq, s, hvq, hs, hcalls, hsafe, hiff.1 hmeets _ s (prefix_refl _) hs⟩

/-- A completion of the second descriptor of a buffer calls back with a null context, although the
only buffer was added with another one. -/
theorem completion_inside_buffer :
    ∃ vq s, vringCreate 4 true = some vq ∧
      exec step (Sys.start vq) [.add (some twoBufs) (some 7), .poll 4 1, .turn 1] = some s ∧
      s.adds = [⟨0, some 7⟩] ∧ s.calls = [⟨1, none⟩] ∧ ¬ Attributed s := by
  obtain ⟨vq, hvq, s, hs, hadds, hcalls⟩ : ∃ vq, vringCreate 4 true = some vq ∧
      ∃ s, exec step (Sys.start vq) [.add (some twoBufs) (some 7), .poll 4 1, .turn 1] = some s ∧
        s.adds = [⟨0, some 7⟩] ∧ s.calls = [⟨1, none⟩] := by
    decide +kernel
  refine ⟨vq, s, hvq, hs, hadds, hcalls, fun hsub => ?_⟩
  have hmem := hsub.subset (hcalls ▸ mem_cons_self)
  rw [hadds] at hmem
  exact absurd hmem (by decide)

end XosKernel.Vring
