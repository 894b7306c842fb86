/-
# Runs of the page allocator

The system is the allocator together with the list of blocks its callers hold. A caller may
allocate, free a block it holds, and overwrite the descriptors of the pages it holds (the
slab layer keeps its own data in the same union). `Inv` is the invariant of all runs from
the state that `init_mem` leaves.
-/
import XosKernel.Mem.BfcInit

namespace XosKernel.Bfc

open DList FreeList List

/-- The allocator and the blocks that are allocated and not yet freed. -/
structure State where
  mem : Mem
  live : List Block

inductive Action
  | alloc (n : ℕ)
  | allocLow (n : ℕ)
  | free (b : Block)
  | write (b : Block) (i : ℕ) (pg : Page)

/-- Record the result of a request for `n` pages. -/
def State.grant (s : State) (n : ℕ) : Option ℕ × Mem → State
  | (none, m) => { s with mem := m }
  | (some p, m) => ⟨m, ⟨p, n⟩ :: s.live⟩

/-- One call. A call is not enabled when its caller does not hold the block it names; the
allocator itself would only stop a run by failing to return. -/
def step (s : State) : Action → Option State
  | .alloc n => (bfcAllocPage s.mem n).map (s.grant n)
  | .allocLow n => (bfcAllocPageLow s.mem n).map (s.grant n)
  | .free b =>
      if b ∈ s.live then
        (bfcFreePage s.mem (some b.start) b.len).map fun r => ⟨r.2, s.live.erase b⟩
      else none
  | .write b i pg =>
      if b ∈ s.live ∧ b.start ≤ i ∧ i < b.start + b.len then
        some { s with mem := s.mem.modify i fun _ => pg }
      else none

def boot (bi : BootInfo) : State := ⟨initMem bi, []⟩

/-- The invariant: `L` is the free list, held blocks are apart from each other and from the
free blocks, and `total` pages are free or held. -/
structure Inv (total : ℕ) (s : State) (L : List Block) : Prop where
  list : FreeListIs s.mem L
  frames : s.mem.totalPageFrames ≤ 2 ^ 24
  inside : ∀ b ∈ s.live, 0 < b.len ∧ b.start + b.len ≤ s.mem.totalPageFrames
  liveApart : s.live.Pairwise Block.Apart
  apart : ∀ b ∈ s.live, ∀ f ∈ L, b.Apart f
  conserved : size L + size s.live = total

variable {total : ℕ} {s s' : State} {L : List Block} {n : ℕ}

/-! ## Steps -/

variable {b : Block} {fits : ℕ → Bool}

lemma Inv.take {L1 L2 : List Block} (h : Inv total s (L1 ++ b :: L2)) (hn : 0 < n)
    (hle : n ≤ b.len) :
    Inv total ⟨takeBlock s.mem (lst (starts L1) none) b.start n, ⟨b.start, n⟩ :: s.live⟩
      (L1 ++ (cut b n ++ L2)) := by
  obtain ⟨hlist, hframes, hin, hlive, hap, hcons⟩ := h
  obtain ⟨-, hb, -, hLb, hbM, -⟩ := coalesced_middle.1 hlist.coalesced
  have hbound := hlist.bounded b (by simp)
  refine ⟨takeBlock_freeListIs hlist hn hle, by simpa using hframes, ?_, ?_, ?_, ?_⟩
  · simp only [mem_cons, forall_eq_or_imp, takeBlock_total]
    exact ⟨⟨hn, by omega⟩, hin⟩
  · refine pairwise_cons.2 ⟨fun c hc => ?_, hlive⟩
    have hcb := hap c hc b (by simp)
    unfold Block.Apart at *
    dsimp only
    omega
  · intro c hc f hf
    simp only [mem_append] at hf
    rcases mem_cons.1 hc with rfl | hc
    · unfold Block.Apart
      dsimp only
      rcases hf with hf | hf | hf
      · have := hLb f hf
        omega
      · have := mem_cut hle hf
        omega
      · have := hbM f hf
        omega
    · rcases hf with hf | hf | hf
      · exact hap c hc f (by simp [hf])
      · have hcb := hap c hc b (by simp)
        have := mem_cut hle hf
        unfold Block.Apart at *
        omega
      · exact hap c hc f (by simp [hf])
  · have hcut := size_cut hle
    simp only [size_append, size_cons] at hcons ⊢
    omega

def HeldPage (live : List Block) (j : ℕ) : Prop :=
  ∃ b ∈ live, b.start ≤ j ∧ j < b.start + b.len

/-- What holds after `n` pages from `p` on have been handed out: the invariant, the header
that `kfree` will read, and the frame condition. -/
structure Handed (total : ℕ) (s : State) (n p : ℕ) (m' : Mem) (L' : List Block) : Prop where
  inv : Inv total ⟨m', ⟨p, n⟩ :: s.live⟩ L'
  status : (m'.bfcFrames p).status = .used
  cont : m'.cont p = n
  frame : ∀ j, HeldPage s.live j → m'.bfcFrames j = s.mem.bfcFrames j
  noSlab : ∀ j, (m'.bfcFrames j).status = .slab → (s.mem.bfcFrames j).status = .slab

/-- The two outcomes of a request: nothing fits and nothing changes, or the front of a free
block that fits is handed out. -/
lemma Inv.allocWith (h : Inv total s L) (hn : 0 < n)
    (hfits : ∀ b ∈ L, fits b.start = true → n ≤ b.len) :
    ((∀ b ∈ L, fits b.start = false) ∧ allocWith fits s.mem n = some (none, s.mem)) ∨
      ∃ L1 b L2 m', L = L1 ++ b :: L2 ∧ fits b.start = true ∧ n ≤ b.len ∧
        Bfc.allocWith fits s.mem n = some (some b.start, m') ∧
        Handed total s n b.start m' (L1 ++ (cut b n ++ L2)) := by
  rcases allocWith_cases h.list hn fits with hno | ⟨L1, b, L2, rfl, hfit, hcall⟩
  · exact .inl hno
  · have hle := hfits b (by simp) hfit
    have hrep := h.list.toRep
    obtain ⟨hst, hcont⟩ := takeBlock_header hrep hn
    refine .inr ⟨L1, b, L2, _, rfl, hfit, hle, hcall, h.take hn hle, hst, hcont, ?_,
      fun _ => takeBlock_status⟩
    rintro j ⟨c, hc, hj⟩
    refine takeBlock_frame hrep hle (fun f hf hjf => ?_) h.list.coalesced.1
    have := h.apart c hc f hf
    unfold Block.Apart at this
    omega

lemma Inv.fitsAny_iff (h : Inv total s L) (hb : b ∈ L) :
    fitsAny s.mem n b.start = true ↔ n ≤ b.len := by
  simp [fitsAny, h.list.len b hb]

/-- The block has `n` pages, and its first `n` pages end at or below 4 GiB. -/
def FitsBelow4G (n : ℕ) (b : Block) : Prop :=
  n ≤ b.len ∧ (b.start + n) * pageSize ≤ 0x100000000

lemma Inv.fitsLow_iff (h : Inv total s L) (hb : b ∈ L) :
    fitsLow s.mem n b.start = true ↔ FitsBelow4G n b := by
  have hframes := h.frames
  have hbound := h.list.bounded b hb
  have hlen : (s.mem.bfcFrames b.start).contPageNum = b.len := h.list.len b hb
  simp only [fitsLow, decide_eq_true_eq, hlen, FitsBelow4G, pageSize]
  refine and_congr_right fun hle => ?_
  have h1 : u64 (b.start * 4096) = b.start * 4096 := u64_of_lt (by omega)
  have h2 : u64 (n * 4096) = n * 4096 := u64_of_lt (by omega)
  have h3 : u64 (b.start * 4096 + n * 4096) = b.start * 4096 + n * 4096 :=
    u64_of_lt (by omega)
  rw [h1, h2, h3, add_mul]

lemma Inv.alloc_cases (h : Inv total s L) (hfits : ∀ b ∈ L, fits b.start = true → n ≤ b.len) :
    Bfc.allocWith fits s.mem n = some (none, s.mem) ∨
      ∃ p m' L', Bfc.allocWith fits s.mem n = some (some p, m') ∧ Handed total s n p m' L' := by
  rcases Nat.eq_zero_or_pos n with rfl | hn
  · exact .inl rfl
  · rcases h.allocWith hn hfits with ⟨-, hcall⟩ | ⟨L1, b, L2, m', -, -, -, hcall, hhand⟩
    · exact .inl hcall
    · exact .inr ⟨b.start, m', _, hcall, hhand⟩

lemma Inv.bfcAllocPage_cases (h : Inv total s L) (n : ℕ) :
    bfcAllocPage s.mem n = some (none, s.mem) ∨
      ∃ p m' L', bfcAllocPage s.mem n = some (some p, m') ∧ Handed total s n p m' L' :=
  h.alloc_cases fun _ hb hfit => (h.fitsAny_iff hb).1 hfit

lemma Inv.bfcAllocPageLow_cases (h : Inv total s L) (n : ℕ) :
    bfcAllocPageLow s.mem n = some (none, s.mem) ∨
      ∃ p m' L', bfcAllocPageLow s.mem n = some (some p, m') ∧ Handed total s n p m' L' :=
  h.alloc_cases fun _ hb hfit => ((h.fitsLow_iff hb).1 hfit).1

lemma Inv.perm {m : Mem} {live live' : List Block} (h : Inv total ⟨m, live⟩ L)
    (hp : live.Perm live') : Inv total ⟨m, live'⟩ L := by
  obtain ⟨hlist, hframes, hin, hlive, hap, hcons⟩ := h
  refine ⟨hlist, hframes, fun b hb => hin b (hp.mem_iff.2 hb),
    hp.pairwise hlive Block.Apart.symm, fun b hb => hap b (hp.mem_iff.2 hb), ?_⟩
  have hsize : size live' = size live := ((hp.map Block.len).sum_eq).symm
  simpa [hsize] using hcons

lemma Inv.free (h : Inv total s L) (hb : b ∈ s.live) :
    ∃ r m' L', bfcFreePage s.mem (some b.start) b.len = some (r, m') ∧
      Inv total ⟨m', s.live.erase b⟩ L' ∧
      ∀ j, HeldPage (s.live.erase b) j → m'.bfcFrames j = s.mem.bfcFrames j := by
  obtain ⟨hlist, hframes, hin, hlive, hap, hcons⟩ := h
  obtain ⟨hpos, hbound⟩ := hin b hb
  obtain ⟨L1, L2, rfl, h₁, h₂⟩ :=
    exists_place hlist.coalesced fun a ha => (hap b hb a ha).symm
  obtain ⟨r, m', hcall, hlist', htot, hframe⟩ := bfcFreePage_spec hlist hpos hbound h₁ h₂
  have hperm := perm_cons_erase hb
  have hsymm : ∀ {a c : Block}, a.Apart c → c.Apart a := Block.Apart.symm
  have hrest := pairwise_cons.1 (hperm.pairwise hlive hsymm)
  have hsub : ∀ c ∈ s.live.erase b, c ∈ s.live := fun c hc => mem_of_mem_erase hc
  refine ⟨r, m', _, hcall, ⟨hlist', htot.trans_le hframes, ?_, hrest.2, ?_, ?_⟩, ?_⟩
  · intro c hc
    rw [htot]
    exact hin c (hsub c hc)
  · intro c hc
    refine forall_give (fun a d ha hd had => ha.glue (hin c (hsub c hc)).1 hd had)
      (fun a ha => hap c (hsub c hc) a (by simp [ha]))
      (fun a ha => hap c (hsub c hc) a (by simp [ha])) (hrest.1 c hc).symm
  · have hsize : size s.live = b.len + size (s.live.erase b) := by
      exact (hperm.map Block.len).sum_eq
    simp only [size_give, size_append] at hcons ⊢
    omega
  · rintro j ⟨c, hc, hj⟩
    refine hframe j fun hmem => ?_
    have hcb := hrest.1 c hc
    have hcap : ∀ a ∈ L1 ++ L2, c.Apart a := hap c (hsub c hc)
    obtain ⟨a, ha, rfl⟩ := mem_starts.1 hmem
    have hmem' : a ∈ L1 ++ L2 ∨ a = b := by simpa [or_left_comm, or_comm, or_assoc] using ha
    rcases hmem' with ha | rfl
    · have h1 := hcap a ha
      have h2 := hlist.coalesced.1 a ha
      unfold Block.Apart at h1
      omega
    · unfold Block.Apart at hcb
      omega

lemma Inv.write {i : ℕ} (h : Inv total s L) (hb : b ∈ s.live)
    (hi : b.start ≤ i ∧ i < b.start + b.len) (pg : Page) :
    Inv total { s with mem := s.mem.modify i fun _ => pg } L := by
  obtain ⟨⟨⟨hlinks, hhead, hlen⟩, hc, hbound⟩, hframes, hin, hlive, hap, hcons⟩ := h
  have hne : ∀ f ∈ L, f.start ≠ i := fun f hf hfi => by
    have h1 := hap b hb f hf
    have h2 := hc.1 f hf
    unfold Block.Apart at h1
    omega
  have hne' : ∀ j ∈ starts L, j ≠ i := fun j hj => by
    obtain ⟨f, hf, rfl⟩ := mem_starts.1 hj
    exact hne f hf
  refine ⟨⟨⟨hlinks.congr (fun j hj => ?_) (fun j hj => ?_), hhead, fun f hf => ?_⟩, hc, hbound⟩,
    hframes, hin, hlive, hap, hcons⟩
  · simp [hne' j hj]
  · simp [hne' j hj]
  · simp [hne f hf, hlen f hf]

lemma Inv.step {a : Action} (h : ∃ L, Inv total s L) (hs : step s a = some s') :
    ∃ L, Inv total s' L := by
  obtain ⟨L, h⟩ := h
  -- both requests run the same body
  have halloc : ∀ (fits : ℕ → Bool) (n : ℕ), (∀ b ∈ L, fits b.start = true → n ≤ b.len) →
      (Bfc.allocWith fits s.mem n).map (s.grant n) = some s' → ∃ L, Inv total s' L := by
    intro fits n hfits hs
    rcases h.alloc_cases hfits with hcall | ⟨p, m', L', hcall, hhand⟩
    · obtain rfl : s = s' := by simpa [hcall, State.grant] using hs
      exact ⟨L, h⟩
    · obtain rfl := by simpa [hcall, State.grant] using hs
      exact ⟨_, hhand.inv⟩
  cases a with
  | alloc n =>
    exact halloc _ n (fun b hb hfit => (h.fitsAny_iff hb).1 hfit) hs
  | allocLow n =>
    exact halloc _ n (fun b hb hfit => ((h.fitsLow_iff hb).1 hfit).1) hs
  | free b =>
    simp only [Bfc.step, Option.ite_none_right_eq_some] at hs
    obtain ⟨hb, hs⟩ := hs
    obtain ⟨r, m', L', hcall, hinv, -⟩ := h.free hb
    obtain rfl := by simpa [hcall] using hs
    exact ⟨L', hinv⟩
  | write b i pg =>
    simp only [Bfc.step, Option.ite_none_right_eq_some, Option.some.injEq] at hs
    obtain ⟨⟨hb, hi⟩, rfl⟩ := hs
    exact ⟨L, h.write hb hi pg⟩

lemma total_le (bi : BootInfo) : bi.total ≤ 2 ^ 24 := by
  have hmax : bi.maxPhysAddr ≤ directMapMax := min_le_left _ _
  unfold BootInfo.total getPageNum u64 pageSize
  unfold directMapMax at hmax
  omega

lemma boot_inv (bi : BootInfo) : ∃ L, Inv (freeBelow bi bi.total) (boot bi) L := by
  obtain ⟨⟨L, hL, hsize⟩, htot⟩ := initMem_spec bi
  exact ⟨L, hL, htot.trans_le (total_le bi), by simp [boot], by simp [boot], by simp [boot],
    by simpa [boot] using hsize⟩

/-! ## Whole runs -/

lemma bfcFreePageNums_eq {m : Mem} {fuel : ℕ} {l : Option ℕ}
    (hlinks : DSeg m.nx m.pv l (starts L) none) (hlen : ∀ b ∈ L, m.cont b.start = b.len)
    (hfuel : L.length ≤ fuel) :
    bfcFreePageNums m fuel (fst (starts L) none) = some (size L) := by
  induction L generalizing l fuel with
  | nil => cases fuel <;> rfl
  | cons b L ih =>
    obtain ⟨k, rfl⟩ : ∃ k, fuel = k + 1 := ⟨fuel - 1, by simp at hfuel; omega⟩
    rw [starts_cons, dSeg_cons] at hlinks
    obtain ⟨-, hnx, hrest⟩ := hlinks
    have hk := ih (l := some b.start) hrest (fun c hc => hlen c (by simp [hc]))
      (by simpa using hfuel)
    rw [starts_cons, fst_cons, bfcFreePageNums, Mem.next_eq, hnx, hk, Mem.contPageNum_eq,
      hlen b (by simp), size_cons]
    rfl

/-- What a request for `n` pages must do on the free list `L`: it returns; it fails for
`n = 0` and when no block of the list qualifies, and only then; and freeing the pages it
returns makes the list `L` again. -/
def RequestSpec (L : List Block) (n : ℕ) (Fits : Block → Prop)
    (call : Option (Option ℕ × Mem)) : Prop :=
  ∃ r m', call = some (r, m') ∧ (r = none ↔ n = 0 ∨ ∀ b ∈ L, ¬Fits b) ∧
    ∀ p, r = some p → ∃ q m'', bfcFreePage m' (some p) n = some (q, m'') ∧ Rep m'' L

lemma Inv.requestSpec {Fits : Block → Prop} (h : Inv total s L)
    (hfits : ∀ b ∈ L, fits b.start = true ↔ Fits b) (hle : ∀ b, Fits b → n ≤ b.len) :
    RequestSpec L n Fits (Bfc.allocWith fits s.mem n) := by
  rcases Nat.eq_zero_or_pos n with rfl | hn
  · exact ⟨none, s.mem, rfl, by simp, by simp⟩
  rcases h.allocWith hn fun b hb hfit => hle b ((hfits b hb).1 hfit) with
    ⟨hno, hcall⟩ | ⟨L1, b, L2, m', rfl, hfit, hb, hcall, hhand⟩
  · refine ⟨none, s.mem, hcall, ?_, by simp⟩
    have hall : ∀ b ∈ L, ¬Fits b := fun b hb hF => by
      simpa [hno b hb] using (hfits b hb).2 hF
    simpa using .inr hall
  · have hinv := hhand.inv
    refine ⟨some b.start, m', hcall, ?_, ?_⟩
    · have hF : Fits b := (hfits b (by simp)).1 hfit
      simpa [hn.ne'] using ⟨b, by simp, hF⟩
    · rintro p ⟨⟩
      obtain ⟨-, -, -, hLb, hbM, -⟩ := coalesced_middle.1 h.list.coalesced
      -- the block goes back in front of the remainder it was cut from
      have h₂ : ∀ c ∈ cut b n ++ L2, b.start + n ≤ c.start := fun c hc => by
        rcases mem_append.1 hc with hc | hc
        · exact (mem_cut hb hc).1.ge
        · have := hbM c hc
          omega
      have hbound : b.start + n ≤ m'.totalPageFrames := (hinv.inside ⟨b.start, n⟩ (by simp)).2
      obtain ⟨q, m'', hfree, hlist, -, -⟩ := bfcFreePage_spec (b := ⟨b.start, n⟩) hinv.list hn
        hbound (fun a ha => (hLb a ha).le) h₂
      rw [give_cut h.list.coalesced hb] at hlist
      exact ⟨q, m'', hfree, hlist.toRep⟩

/-- In every state that callers can reach after boot, the free list is linked consistently,
sorted and fully coalesced; held blocks overlap neither each other nor a free block; the
free and the held pages together are the pages that were free at boot; every call returns;
a request fails exactly when it asks for no page at all or no free block qualifies; and
freeing what a request returned restores the list. -/
theorem bfc_allocator_correct (bi : BootInfo) (acts : List Action) (s : State)
    (h : exec step (boot bi) acts = some s) :
    ∃ L, Rep s.mem L ∧ Coalesced L ∧ s.live.Pairwise Block.Apart ∧
      (∀ b ∈ s.live, ∀ f ∈ L, b.Apart f) ∧
      bfcFreePageNums s.mem s.mem.totalPageFrames s.mem.bfcFreeList = some (size L) ∧
      size L + size s.live = freeBelow bi bi.total ∧
      (∀ b ∈ s.live, ∃ s', step s (.free b) = some s') ∧
      (∀ n, RequestSpec L n (fun b => n ≤ b.len) (bfcAllocPage s.mem n)) ∧
      ∀ n, RequestSpec L n (FitsBelow4G n) (bfcAllocPageLow s.mem n) := by
  obtain ⟨L, hinv⟩ := exec_invariant (I := fun s => ∃ L, Inv (freeBelow bi bi.total) s L)
    (fun s a s' hs => Inv.step hs) (boot_inv bi) h
  have hlen : L.length ≤ s.mem.totalPageFrames := by simpa [starts] using hinv.list.length_le
  refine ⟨L, hinv.list.toRep, hinv.list.coalesced, hinv.liveApart, hinv.apart, ?_,
    hinv.conserved, fun b hb => ?_, fun n => ?_, fun n => ?_⟩
  · rw [hinv.list.head]
    exact bfcFreePageNums_eq hinv.list.links hinv.list.len hlen
  · obtain ⟨r, m', -, hcall, -⟩ := hinv.free hb
    exact ⟨⟨m', s.live.erase b⟩, by simp [step, hb, hcall]⟩
  · exact hinv.requestSpec (fun b hb => hinv.fitsAny_iff hb) fun b hb => hb
  · exact hinv.requestSpec (fun b hb => hinv.fitsLow_iff hb) fun b hb => hb.1

/-- A machine with two pages of conventional memory. -/
def tiny : BootInfo := ⟨[⟨7, 0, 2⟩], 0x1000000, 0, none⟩

theorem bfc_allocator_correct_tiny :
    ∃ s, exec step (boot tiny) [.alloc 1, .allocLow 1, .free ⟨0, 1⟩] = some s ∧
      ∃ L, Rep s.mem L ∧ Coalesced L ∧ size L + size s.live = freeBelow tiny tiny.total := by
  refine exists_some_of (by decide) fun s hs => ?_
  obtain ⟨L, hrep, hc, -, -, -, hcons, -⟩ := bfc_allocator_correct tiny _ s hs
  exact ⟨L, hrep, hc, hcons⟩

/-- A request for no page fails although a free block has (at least) no page. -/
theorem zero_page_request_fails :
    ∃ s L, exec step (boot tiny) [] = some s ∧ Rep s.mem L ∧ (∃ b ∈ L, 0 ≤ b.len) ∧
      (bfcAllocPage s.mem 0).map Prod.fst = some none := by
  refine ⟨boot tiny, [⟨0, 2⟩], rfl, ⟨⟨?_, ?_, trivial⟩, ?_, ?_⟩, ⟨⟨0, 2⟩, by simp, by simp⟩, rfl⟩
  · decide
  · decide
  · decide
  · decide

end XosKernel.Bfc
