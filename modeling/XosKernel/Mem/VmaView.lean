/-
# What a region list says about memory

The meaning of a region list is a partial function from bytes to views: protection, flags,
backing object and the place in it.

Lists are described window by window: `Window P lo hi A` says that `P` lies in `[lo, hi)` and
that what it says about a byte `v` of the window meets `A v`. Windows are put together by
`Window.append`. The pieces that `vma_split` makes of a region are windows that show the
bytes of that region.
-/
import XosKernel.Mem.Vma

namespace XosKernel.Vma

open List Option

/-! ## Views -/

/-- What the list says about one byte. -/
structure View where
  prot : ℕ
  flags : ℕ
  shmObj : Option ℕ
  inode : Option ℕ
  shmPrivateSrc : Option ℕ
  owner : Option ℕ
  fd : ℤ
  offset : ℕ
  phys : ℕ
deriving DecidableEq

def Region.view (r : Region) (v : ℕ) : View where
  prot := r.prot
  flags := r.flags
  shmObj := r.shmObj
  inode := r.inode
  shmPrivateSrc := r.shmPrivateSrc
  owner := r.owner
  fd := r.fd
  offset := u64 (r.offset + (v - r.vaddr))
  phys := if r.phys = 0 then 0 else r.phys + (v - r.vaddr)

def Region.Contains (r : Region) (v : ℕ) : Prop := r.vaddr ≤ v ∧ v < r.vaddr + r.size
deriving Decidable

def viewAt (L : List Region) (v : ℕ) : Option View :=
  (L.find? fun r => r.Contains v).map fun r => r.view v

@[simp] lemma viewAt_nil (v : ℕ) : viewAt [] v = none := rfl

lemma viewAt_append (L M : List Region) (v : ℕ) :
    viewAt (L ++ M) v = (viewAt L v).or (viewAt M v) := by
  simp only [viewAt, List.find?_append]
  cases L.find? fun r => decide (r.Contains v) <;> rfl

lemma viewAt_singleton (r : Region) (v : ℕ) :
    viewAt [r] v = if r.Contains v then some (r.view v) else none := by
  by_cases h : r.Contains v <;> simp [viewAt, h]

lemma viewAt_eq_none {L : List Region} {v : ℕ} (h : ∀ r ∈ L, ¬r.Contains v) :
    viewAt L v = none := by
  simpa [viewAt] using h

/-! ## Well-formed lists -/

/-- A region is page aligned, and its bytes and its physical range are ranges of 64-bit
addresses. -/
structure Region.Ok (r : Region) : Prop where
  vaddr : pageSize ∣ r.vaddr
  size : pageSize ∣ r.size
  stop : r.vaddr + r.size ≤ 2 ^ 64
  phys : r.phys ≠ 0 → r.phys + r.size ≤ 2 ^ 64

/-- A sorted list of disjoint regions in `[lo, hi)`. -/
structure Within (lo hi : ℕ) (L : List Region) : Prop where
  ok : ∀ r ∈ L, r.Ok
  lo : ∀ r ∈ L, lo ≤ r.vaddr
  hi : ∀ r ∈ L, r.vaddr + r.size ≤ hi
  sorted : L.Pairwise fun a b => a.vaddr + a.size ≤ b.vaddr

/-- A sorted list of disjoint, page-aligned regions. -/
def WellFormed (L : List Region) : Prop := Within 0 (2 ^ 64) L

variable {lo mid hi a b addr len size v : ℕ} {L M P Q : List Region} {r : Region}

lemma Within.nil : Within lo hi [] := ⟨by simp, by simp, by simp, List.Pairwise.nil⟩

lemma Within.append (hP : Within lo mid P) (hQ : Within mid hi Q) (h1 : lo ≤ mid)
    (h2 : mid ≤ hi) : Within lo hi (P ++ Q) := by
  refine ⟨fun r hr => ?_, fun r hr => ?_, fun r hr => ?_, ?_⟩
  · exact (mem_append.1 hr).elim (hP.ok r) (hQ.ok r)
  · rcases mem_append.1 hr with hr | hr
    · exact hP.lo r hr
    · exact h1.trans (hQ.lo r hr)
  · rcases mem_append.1 hr with hr | hr
    · exact (hP.hi r hr).trans h2
    · exact hQ.hi r hr
  · refine pairwise_append.2 ⟨hP.sorted, hQ.sorted, fun p hp q hq => ?_⟩
    exact (hP.hi p hp).trans (hQ.lo q hq)

lemma Within.cons (h : Within lo hi (r :: L)) :
    r.Ok ∧ lo ≤ r.vaddr ∧ r.vaddr + r.size ≤ hi ∧ Within (r.vaddr + r.size) hi L := by
  obtain ⟨hok, hlo, hhi, hs⟩ := h
  obtain ⟨hr, hs⟩ := pairwise_cons.1 hs
  refine ⟨hok r (by simp), hlo r (by simp), hhi r (by simp), fun q hq => hok q (by simp [hq]),
    fun q hq => hr q hq, fun q hq => hhi q (by simp [hq]), hs⟩

lemma Within.viewAt_eq_none (h : Within lo hi L) (hv : v < lo ∨ hi ≤ v) : viewAt L v = none := by
  refine Vma.viewAt_eq_none ?_
  rintro r hr ⟨hc1, hc2⟩
  have h1 := h.lo r hr
  have h2 := h.hi r hr
  omega

lemma Within.viewAt_eq (h : Within lo hi L) (hr : r ∈ L) (hv : r.Contains v) :
    viewAt L v = some (r.view v) := by
  induction L generalizing lo with
  | nil => cases hr
  | cons q L ih =>
    obtain ⟨-, -, -, hL⟩ := h.cons
    rw [← singleton_append, viewAt_append, viewAt_singleton]
    rcases mem_cons.1 hr with rfl | hr
    · rw [if_pos hv]
      rfl
    · have hq : ¬q.Contains v := by
        rintro ⟨h1, h2⟩
        have h3 := hL.lo r hr
        have h4 := hv.1
        omega
      rw [if_neg hq, none_or]
      exact ih hL hr

/-- `P` lies in the window, and what it says about each byte of the window meets `A`. -/
structure Window (P : List Region) (lo hi : ℕ) (A : ℕ → Option View → Prop) : Prop where
  within : Within lo hi P
  view : ∀ v, lo ≤ v → v < hi → A v (viewAt P v)

variable {A A' : ℕ → Option View → Prop}

lemma Window.append (hP : Window P lo mid A) (hQ : Window Q mid hi A) (h1 : lo ≤ mid)
    (h2 : mid ≤ hi) : Window (P ++ Q) lo hi A := by
  refine ⟨hP.within.append hQ.within h1 h2, fun v hv1 hv2 => ?_⟩
  rw [viewAt_append]
  rcases lt_or_ge v mid with hv | hv
  · rw [hQ.within.viewAt_eq_none (.inl hv), or_none]
    exact hP.view v hv1 hv
  · rw [hP.within.viewAt_eq_none (.inr hv), none_or]
    exact hQ.view v hv hv2

lemma Window.mono (h : Window P lo hi A)
    (hA : ∀ v x, lo ≤ v → v < hi → A v x → A' v x) : Window P lo hi A' :=
  ⟨h.within, fun v h1 h2 => hA v _ h1 h2 (h.view v h1 h2)⟩

lemma Window.nil (h : ∀ v, lo ≤ v → v < hi → A v none) : Window [] lo hi A :=
  ⟨Within.nil, h⟩

/-! ## Pieces of a region -/

def Shows (r : Region) (v : ℕ) (x : Option View) : Prop := x = some (r.view v)

lemma window_singleton (hr : r.Ok) {q : Region} (hv : r.vaddr = a) (hs : r.vaddr + r.size = b)
    (hview : ∀ v, a ≤ v → v < b → r.view v = q.view v) : Window [r] a b (Shows q) := by
  refine ⟨⟨?_, ?_, ?_, pairwise_singleton _ _⟩, fun v h1 h2 => ?_⟩
  · simpa using hr
  · simpa using hv.ge
  · simpa using hs.le
  · have hc : r.Contains v := ⟨by omega, by omega⟩
    rw [viewAt_singleton, if_pos hc, hview v h1 h2]
    rfl

lemma piece_window (hr : r.Ok) (ha : pageSize ∣ addr) (hs : pageSize ∣ size) (hpos : 0 < size)
    (h1 : r.vaddr ≤ addr) (h2 : addr + size ≤ r.vaddr + r.size) :
    (piece r addr size).Ok ∧ Window [piece r addr size] addr (addr + size) (Shows r) := by
  have hstop := hr.stop
  have hdelta : u64Sub addr r.vaddr = addr - r.vaddr := u64Sub_of_le (by omega) h1
  -- the physical base of the piece does not wrap around to null
  have hphys : r.phys ≠ 0 → u64 (r.phys + (addr - r.vaddr)) = r.phys + (addr - r.vaddr) := by
    intro h0
    have := hr.phys h0
    exact u64_of_lt (by omega)
  have hok : (piece r addr size).Ok := by
    refine ⟨ha, hs, by simp only [piece]; omega, fun h0 => ?_⟩
    have hr0 : r.phys ≠ 0 := fun h => h0 (by simp [piece, h])
    have := hr.phys hr0
    simp only [piece, hr0, if_false, hdelta, hphys hr0]
    omega
  refine ⟨hok, window_singleton hok rfl rfl fun v hv1 hv2 => ?_⟩
  have hoff : u64 (u64 (r.offset + (addr - r.vaddr)) + (v - addr)) =
      u64 (r.offset + (v - r.vaddr)) := by
    simp only [u64]
    omega
  by_cases h0 : r.phys = 0
  · simp [Region.view, piece, vmaResetReadahead, hdelta, hoff, h0]
  · have hp := hphys h0
    have hne : r.phys + (addr - r.vaddr) ≠ 0 := by omega
    have hsum : r.phys + (addr - r.vaddr) + (v - addr) = r.phys + (v - r.vaddr) := by omega
    simp only [Region.view, piece, vmaResetReadahead, hdelta, hoff, h0, if_false, hp, hne, hsum]

lemma frontPiece_window (hr : r.Ok) (ha : pageSize ∣ addr) (h1 : r.vaddr ≤ addr)
    (h2 : addr ≤ r.vaddr + r.size) (hlt : addr < 2 ^ 64) :
    Window (frontPiece r addr) r.vaddr addr (Shows r) := by
  rw [frontPiece]
  split_ifs with h
  · exact Window.nil fun v hv1 hv2 => by omega
  · rw [u64Sub_of_le hlt h1]
    have hok : ({ vmaResetReadahead r with size := addr - r.vaddr } : Region).Ok := by
      refine ⟨hr.vaddr, Nat.dvd_sub ha hr.vaddr, ?_, fun h0 => ?_⟩
      · simp only [vmaResetReadahead]
        omega
      · have h3 : r.phys + r.size ≤ 2 ^ 64 := hr.phys h0
        simp only [vmaResetReadahead]
        omega
    refine window_singleton hok rfl ?_ fun v _ _ => rfl
    simp only [vmaResetReadahead]
    omega

/-- The two outcomes of a split inside a region: an allocation failed, or the region is
replaced by three parts that show the same bytes. -/
lemma vmaSplit_cases (oracle : ℕ → Bool) (c : Ctx) (hr : r.Ok)
    (hstop : r.vaddr + r.size < 2 ^ 64) (ha : pageSize ∣ addr) (hs : pageSize ∣ size)
    (hpos : 0 < size) (h1 : r.vaddr ≤ addr) (h2 : addr + size ≤ r.vaddr + r.size) :
    (∃ n c', oracle n = false ∧ vmaSplit oracle c r addr size = (none, c')) ∨
      ∃ front tail c', vmaSplit oracle c r addr size = (some ⟨front, piece r addr size, tail⟩, c') ∧
        Window front r.vaddr addr (Shows r) ∧
        Window tail (addr + size) (r.vaddr + r.size) (Shows r) := by
  have hrstop : r.stop = r.vaddr + r.size := u64_of_lt hstop
  have hsum : u64 (addr + size) = addr + size := u64_of_lt (by omega)
  obtain ⟨c', ⟨hnone, -, hbad | ⟨n, hn⟩⟩ | ⟨-, -, hsome, -⟩⟩ := vmaSplit_inv oracle c r addr size
  · rw [hrstop, hsum] at hbad
    omega
  · exact .inl ⟨n, c', hn, hnone⟩
  · refine .inr ⟨_, _, c', hsome, frontPiece_window hr ha h1 (by omega) (by omega), ?_⟩
    rw [tailPiece, hsum, hrstop]
    split_ifs with htail
    · have hsize : pageSize ∣ r.vaddr + r.size - (addr + size) :=
        Nat.dvd_sub (Nat.dvd_add hr.vaddr hr.size) (Nat.dvd_add ha hs)
      have hw := (piece_window hr (Nat.dvd_add ha hs) hsize (by omega) (by omega) (by omega)).2
      rwa [Nat.add_sub_cancel' (by omega)] at hw
    · exact Window.nil fun v hv1 hv2 => by omega

end XosKernel.Vma
