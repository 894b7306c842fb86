/-
# Unmapping and protecting a range

Unmapping a range removes the bytes of the range from the views of a region list, and
changing the protection of a range changes one component of the views inside it. This
module proves that `vma_unmap_range` and `vma_protect_range` do exactly that as long as
neither the end of the range nor the end of an affected region is `2 ^ 64`, where the sums
of the code wrap around to zero, and that they do not otherwise.

Both functions are one loop with another operation on the pieces. `Turn` lists what a turn
of the loop can do; everything about the loop is an induction over the list with one case
for each turn.
-/
import XosKernel.Mem.VmaView

namespace XosKernel.Vma

open Option

variable {lo hi addr len size : ℕ} {L P : List Region} {r : Region}

/-! ## The range loop -/

/-- What an operation does to the views of the pieces it is given: `g` is `none` where the
byte is no longer mapped. -/
def PieceOp (onPiece : Ctx → Region → List Region × Ctx) (g : View → Option View) : Prop :=
  ∀ c m, m.Ok → Window (onPiece c m).1 m.vaddr (m.vaddr + m.size) fun v x => x = g (m.view v)

def update (g : View → Option View) (addr len v : ℕ) (x : Option View) : Option View :=
  if addr ≤ v ∧ v < addr + len then x.bind g else x

/-- The region has a byte in the range. -/
def Overlaps (r : Region) (addr len : ℕ) : Prop :=
  max r.vaddr addr < min (r.vaddr + r.size) (addr + len)
deriving Decidable

/-- The operation changes nothing about this region. -/
def Fixed (g : View → Option View) (r : Region) : Prop :=
  ∀ v, g (r.view v) = some (r.view v)

variable {onPiece : Ctx → Region → List Region × Ctx} {g : View → Option View}

/-- Replacing a region by the parts of a split, with the middle part handed to the
operation. -/
lemma split_window {front kept tail : List Region} {v0 : ℕ} (h1 : r.vaddr ≤ v0)
    (h2 : v0 + size ≤ r.vaddr + r.size)
    (hrange : ∀ v, r.vaddr ≤ v → v < r.vaddr + r.size →
      ((addr ≤ v ∧ v < addr + len) ↔ v0 ≤ v ∧ v < v0 + size))
    (hfront : Window front r.vaddr v0 (Shows r))
    (hkept : Window kept v0 (v0 + size) fun v x => x = g (r.view v))
    (htail : Window tail (v0 + size) (r.vaddr + r.size) (Shows r)) :
    Window (front ++ kept ++ tail) r.vaddr (r.vaddr + r.size)
      fun v x => x = update g addr len v (some (r.view v)) := by
  refine Window.append (Window.append (hfront.mono fun v x hv1 hv2 hx => ?_)
    (hkept.mono fun v x hv1 hv2 hx => ?_) h1 (by omega)) (htail.mono fun v x hv1 hv2 hx => ?_)
    (by omega) h2
  · have hv : ¬(addr ≤ v ∧ v < addr + len) := by
      rw [hrange v hv1 (by omega)]
      omega
    rw [update, if_neg hv]
    exact hx
  · have hv : addr ≤ v ∧ v < addr + len := (hrange v (by omega) (by omega)).2 ⟨hv1, hv2⟩
    rw [update, if_pos hv]
    exact hx
  · have hv : ¬(addr ≤ v ∧ v < addr + len) := by
      rw [hrange v (by omega) hv2]
      omega
    rw [update, if_neg hv]
    exact hx

/-- The two outcomes of cutting a piece out of a region: an allocation failed, or the region
is replaced by parts that show the updated views. -/
lemma cutOut_cases (oracle : ℕ → Bool) (addr len : ℕ) (hop : PieceOp onPiece g) (c : Ctx)
    (hr : r.Ok)
    (hstop : r.vaddr + r.size < 2 ^ 64) {v0 : ℕ} (ha : pageSize ∣ v0) (hs : pageSize ∣ size)
    (hpos : 0 < size) (h1 : r.vaddr ≤ v0) (h2 : v0 + size ≤ r.vaddr + r.size)
    (hrange : ∀ v, r.vaddr ≤ v → v < r.vaddr + r.size →
      ((addr ≤ v ∧ v < addr + len) ↔ v0 ≤ v ∧ v < v0 + size)) :
    (∃ n c', oracle n = false ∧ cutOut oracle onPiece c r v0 size = (none, c')) ∨
      ∃ P c', cutOut oracle onPiece c r v0 size = (some P, c') ∧
        Window P r.vaddr (r.vaddr + r.size)
          fun v x => x = update g addr len v (some (r.view v)) := by
  rcases vmaSplit_cases oracle c hr hstop ha hs hpos h1 h2 with
    ⟨n, c', hn, hsplit⟩ | ⟨front, tail, c', hsplit, hfront, htail⟩
  · exact .inl ⟨n, c', hn, by rw [cutOut, hsplit]⟩
  · obtain ⟨hok, hpiece⟩ := piece_window hr ha hs hpos h1 h2
    have hkept : Window (onPiece c' (piece r v0 size)).1 v0 (v0 + size)
        fun v x => x = g (r.view v) := by
      refine (hop c' _ hok).mono fun v x hv1 hv2 hx => ?_
      have hview := hpiece.view v hv1 hv2
      have hc : (piece r v0 size).Contains v := ⟨hv1, hv2⟩
      rw [Shows, viewAt_singleton, if_pos hc, some.injEq] at hview
      rw [hx, hview]
    refine .inr ⟨_, _, by rw [cutOut, hsplit], ?_⟩
    exact split_window h1 h2 hrange hfront hkept htail

/-- The loop's result on a region and its successors, put together from the parts: `P` for
the region and `R` for the rest of the list. -/
lemma window_cons {P R : List Region} {e : Option Errno} (hL : Within lo hi (r :: L))
    (hP : Window P r.vaddr (r.vaddr + r.size) fun v x => x = update g addr len v (some (r.view v)))
    (hR : Window R (r.vaddr + r.size) hi fun v x =>
      x = update g addr len v (viewAt L v) ∨ (e ≠ none ∧ x = viewAt L v)) :
    Window (P ++ R) lo hi fun v x =>
      x = update g addr len v (viewAt (r :: L) v) ∨ (e ≠ none ∧ x = viewAt (r :: L) v) := by
  obtain ⟨-, hlo, hhi, hL'⟩ := hL.cons
  have hcons : ∀ v, viewAt (r :: L) v = (viewAt [r] v).or (viewAt L v) := fun v =>
    viewAt_append [r] L v
  rw [← List.nil_append (P ++ R)]
  refine Window.append (Window.nil fun v hv1 hv2 => ?_) (Window.append
    (hP.mono fun v x hv1 hv2 hx => ?_) (hR.mono fun v x hv1 hv2 hx => ?_) (by omega) hhi) hlo
    (by omega)
  · have hnone : viewAt (r :: L) v = none := by
      have hc : ¬r.Contains v := by
        rintro ⟨h1, h2⟩
        omega
      rw [hcons, viewAt_singleton, if_neg hc, none_or, hL'.viewAt_eq_none (.inl (by omega))]
    left
    rw [hnone, update]
    split_ifs <;> rfl
  · have hc : r.Contains v := ⟨hv1, hv2⟩
    left
    rw [hcons, viewAt_singleton, if_pos hc]
    exact hx
  · have hc : ¬r.Contains v := by
      rintro ⟨h1, h2⟩
      omega
    rw [hcons, viewAt_singleton, if_neg hc, none_or]
    exact hx

lemma window_unchanged {e : Option Errno} (hL : Within lo hi L)
    (h : e ≠ none ∨ ∀ v, viewAt L v = update g addr len v (viewAt L v)) :
    Window L lo hi fun v x =>
      x = update g addr len v (viewAt L v) ∨ (e ≠ none ∧ x = viewAt L v) := by
  refine ⟨hL, fun v _ _ => ?_⟩
  rcases h with he | hv
  · exact .inr ⟨he, rfl⟩
  · exact .inl (hv v)

/-- What one turn of the loop does with the region at the head of the list. -/
inductive Turn (oracle : ℕ → Bool) (onPiece : Ctx → Region → List Region × Ctx)
    (g : View → Option View) (addr len : ℕ) (c : Ctx) (r : Region) (L : List Region) :
    Option Errno × List Region × Ctx → Prop
  /-- The region lies behind the range, and the loop ends. -/
  | stop : addr + len ≤ r.vaddr → Turn oracle onPiece g addr len c r L (none, r :: L, c)
  /-- The region is passed over. -/
  | skip {e R c'} : r.stop ≤ addr →
      rangeLoop oracle onPiece addr (addr + len) c L = (e, R, c') →
      Turn oracle onPiece g addr len c r L (e, r :: R, c')
  /-- A split fails: the range is empty or there is no memory. -/
  | fail {c'} : len = 0 ∨ (∃ n, oracle n = false) →
      Turn oracle onPiece g addr len c r L (some .ENOMEM, r :: L, c')
  /-- The part of the region in the range is replaced. -/
  | done {P c' e R c''} :
      Window P r.vaddr (r.vaddr + r.size)
        (fun v x => x = update g addr len v (some (r.view v))) →
      ¬r.stop ≤ addr →
      rangeLoop oracle onPiece addr (addr + len) c' L = (e, R, c'') →
      Turn oracle onPiece g addr len c r L (e, P ++ R, c'')

section Loop

variable {oracle : ℕ → Bool} {c : Ctx} {e : Option Errno} (hop : PieceOp onPiece g)
    (ha : pageSize ∣ addr)
  (hl : pageSize ∣ len)
include hop ha hl

/-- A turn that cuts out `[v0, v0 + n)`, the part of the region that lies in the range. -/
lemma turn_cutOut (hr : r.Ok) (hlt : r.vaddr + r.size < 2 ^ 64) (hskip : ¬r.stop ≤ addr) {v0 n : ℕ}
    (hv0 : v0 = max r.vaddr addr) (hn : n = min (r.vaddr + r.size) (addr + len) - v0)
    (hpos : 0 < n) :
    Turn oracle onPiece g addr len c r L
      (match cutOut oracle onPiece c r v0 n with
        | (none, c) => (some .ENOMEM, r :: L, c)
        | (some pieces, c) =>
            let (e, rest, c) := rangeLoop oracle onPiece addr (addr + len) c L
            (e, pieces ++ rest, c)) := by
  have hdvd : pageSize ∣ v0 := by
    rcases max_choice r.vaddr addr with h | h <;> rw [hv0, h]
    · exact hr.vaddr
    · exact ha
  have hn' : pageSize ∣ n := by
    rw [hn]
    refine Nat.dvd_sub ?_ hdvd
    rcases min_choice (r.vaddr + r.size) (addr + len) with h | h <;> rw [h]
    · exact Nat.dvd_add hr.vaddr hr.size
    · exact Nat.dvd_add ha hl
  rcases cutOut_cases oracle addr len hop c hr hlt hdvd hn' hpos
    (by omega) (by omega) (fun v _ _ => by omega) with ⟨m, c1, hm, h⟩ | ⟨P, c1, h, hP⟩
  · rw [h]
    exact .fail (.inr ⟨m, hm⟩)
  · rw [h]
    exact .done hP hskip rfl

lemma rangeLoop_turn (oracle : ℕ → Bool) (c : Ctx) (L : List Region) (hstop : addr + len < 2 ^ 64)
    (hr : r.Ok) : Turn oracle onPiece g addr len c r L
      (rangeLoop oracle onPiece addr (addr + len) c (r :: L)) := by
  rw [rangeLoop]
  split
  next hbreak => exact .stop hbreak
  split
  next hskip => exact .skip hskip rfl
  next hbreak hskip =>
  -- from here on the region does not end at the top of the address space
  have hlt : r.vaddr + r.size < 2 ^ 64 := by
    rcases hr.stop.lt_or_eq with h | h
    · exact h
    · rw [Region.stop, h] at hskip
      simp [u64] at hskip
  have hrstop : r.stop = r.vaddr + r.size := u64_of_lt hlt
  rw [hrstop]
  split
  next hfront =>
    have hlen : u64Sub (addr + len) addr = len := by
      rw [u64Sub_of_le hstop (by omega)]
      omega
    rcases Nat.eq_zero_or_pos len with rfl | hpos
    · -- an empty range inside the region: the split is refused
      have hn : (if r.vaddr + r.size < addr + 0 then u64Sub (r.vaddr + r.size) addr
          else u64Sub (addr + 0) addr) = 0 := by
        rw [if_neg (by omega), hlen]
      simp only [hn, cutOut, vmaSplit, true_or, if_true]
      exact .fail (.inl rfl)
    · rw [hlen, u64Sub_of_le hlt (by omega)]
      exact turn_cutOut hop ha hl hr hlt hskip (by omega) (by split_ifs <;> omega)
        (by split_ifs <;> omega)
  next hfront =>
  split
  · rw [u64Sub_of_le hstop (by omega)]
    exact turn_cutOut hop ha hl hr hlt hskip (by omega) (by omega) (by omega)
  · -- the whole region lies in the range
    refine .done ((hop c r hr).mono fun v x hv1 hv2 hx => ?_) hskip rfl
    have hv : addr ≤ v ∧ v < addr + len := by omega
    rw [update, if_pos hv]
    exact hx

/-- The loop maps the views of a list by `g` inside the range; when it stops early with an
error, each byte has its old or its new view. -/
lemma rangeLoop_window (hstop : addr + len < 2 ^ 64) (hL : Within lo hi L)
    (hcond : ∀ r ∈ L, Overlaps r addr len → r.vaddr + r.size < 2 ^ 64 ∨ Fixed g r) :
    Window (rangeLoop oracle onPiece addr (addr + len) c L).2.1 lo hi fun v x =>
      x = update g addr len v (viewAt L v) ∨
        ((rangeLoop oracle onPiece addr (addr + len) c L).1 ≠ none ∧ x = viewAt L v) := by
  induction L generalizing lo c with
  | nil => exact window_unchanged (L := []) Within.nil (.inr fun v => by simp [update])
  | cons r L ih =>
    obtain ⟨hr, hlo, hhi, hL'⟩ := hL.cons
    have hrec : ∀ {c1 e1 R c2}, rangeLoop oracle onPiece addr (addr + len) c1 L = (e1, R, c2) →
        Window R (r.vaddr + r.size) hi fun v x =>
          x = update g addr len v (viewAt L v) ∨ (e1 ≠ none ∧ x = viewAt L v) := by
      intro c1 e1 R c2 h
      have := ih (c := c1) hL' fun q hq => hcond q (by simp [hq])
      rwa [h] at this
    have hturn := rangeLoop_turn hop ha hl oracle c L hstop hr
    generalize rangeLoop oracle onPiece addr (addr + len) c (r :: L) = res at hturn ⊢
    cases hturn with
    | stop hbreak =>
      -- every region that is left lies behind the range
      refine window_unchanged hL (.inr fun v => ?_)
      rw [update]
      split_ifs with hv
      · have hW : Within r.vaddr hi (r :: L) := by
          refine ⟨hL.ok, fun q hq => ?_, hL.hi, hL.sorted⟩
          rcases List.mem_cons.1 hq with rfl | hq
          · exact le_rfl
          · exact (Nat.le_add_right _ _).trans (hL'.lo q hq)
        rw [hW.viewAt_eq_none (.inl (by omega))]
        rfl
      · rfl
    | skip hskip hR =>
      -- a region that wraps around may be passed over only if nothing is to change
      refine window_cons (P := [r]) hL ⟨?_, fun v hv1 hv2 => ?_⟩ (hrec hR)
      · exact (window_singleton hr rfl rfl fun _ _ _ => rfl).within
      · rw [viewAt_singleton, if_pos ⟨hv1, hv2⟩, update]
        split_ifs with hv
        · have hov : Overlaps r addr len := by
            rw [Overlaps]
            omega
          rcases hcond r (by simp) hov with hlt | hfix
          · rw [Region.stop, u64_of_lt hlt] at hskip
            omega
          · exact (hfix v).symm
        · rfl
    | fail => exact window_unchanged hL (.inl (by simp))
    | done hP _ hR => exact window_cons hL hP (hrec hR)

/-- With memory for every descriptor, the loop ends without an error. -/
lemma rangeLoop_ok (hstop : addr + len < 2 ^ 64) (hL : ∀ r ∈ L, r.Ok) (hpos : 0 < len)
    (hmem : ∀ n, oracle n = true) :
    (rangeLoop oracle onPiece addr (addr + len) c L).1 = none := by
  induction L generalizing c with
  | nil => rfl
  | cons q L ih =>
    have hrec : ∀ {c1 e1 R c2}, rangeLoop oracle onPiece addr (addr + len) c1 L = (e1, R, c2) →
        e1 = none := by
      intro c1 e1 R c2 h
      have := ih (c := c1) fun p hp => hL p (by simp [hp])
      rwa [h] at this
    have hturn := rangeLoop_turn hop ha hl oracle c L hstop (hL q (by simp))
    generalize rangeLoop oracle onPiece addr (addr + len) c (q :: L) = res at hturn ⊢
    cases hturn with
    | stop => rfl
    | skip _ hR => exact hrec hR
    | fail h =>
      rcases h with rfl | ⟨n, hn⟩
      · exact absurd hpos (lt_irrefl 0)
      · simp [hmem n] at hn
    | done _ _ hR => exact hrec hR

end Loop

/-! ## The two operations -/

/-- The outcome of an operation on `[addr, addr + len)`: it is complete on success and
partial on failure, and the list is in order again. -/
structure Applied (g : View → Option View) (addr len : ℕ) (L : List Region)
    (res : Option Errno × List Region × Ctx) : Prop where
  success : res.1 = none → ∀ v, viewAt res.2.1 v = update g addr len v (viewAt L v)
  failure : res.1 ≠ none → ∀ v,
    viewAt res.2.1 v = viewAt L v ∨ viewAt res.2.1 v = update g addr len v (viewAt L v)
  wellFormed : WellFormed res.2.1

lemma Window.applied {res : Option Errno × List Region × Ctx} (hL : WellFormed L)
    (h : Window res.2.1 0 (2 ^ 64) fun v x =>
      x = update g addr len v (viewAt L v) ∨ (res.1 ≠ none ∧ x = viewAt L v)) :
    Applied g addr len L res := by
  have hview : ∀ v, viewAt res.2.1 v = update g addr len v (viewAt L v) ∨
      (res.1 ≠ none ∧ viewAt res.2.1 v = viewAt L v) := by
    intro v
    rcases lt_or_ge v (2 ^ 64) with hv | hv
    · exact h.view v (Nat.zero_le v) hv
    · rw [h.within.viewAt_eq_none (.inr hv), Within.viewAt_eq_none hL (.inr hv), update]
      left
      split_ifs <;> rfl
  refine ⟨fun he v => ?_, fun _ v => ?_, h.within⟩
  · exact (hview v).resolve_right fun h => h.1 he
  · exact (hview v).symm.imp (fun h => h.2) id

lemma update_eq_self (hL : WellFormed L) (hfix : ∀ r ∈ L, Overlaps r addr len → Fixed g r)
    (v : ℕ) : viewAt L v = update g addr len v (viewAt L v) := by
  rw [update]
  split_ifs with hv
  · by_cases hc : ∃ r ∈ L, r.Contains v
    · obtain ⟨r, hr, hc⟩ := hc
      obtain ⟨h1, h2⟩ := id hc
      have hov : Overlaps r addr len := by
        rw [Overlaps]
        omega
      rw [Within.viewAt_eq hL hr hc]
      exact (hfix r hr hov v).symm
    · rw [viewAt_eq_none fun r hr h => hc ⟨r, hr, h⟩]
      rfl
  · rfl

lemma rangeLoop_zero (oracle : ℕ → Bool) (onPiece : Ctx → Region → List Region × Ctx)
    (addr : ℕ) (c : Ctx) (L : List Region) :
    rangeLoop oracle onPiece addr 0 c L = (none, L, c) := by
  cases L with
  | nil => rfl
  | cons r L => rw [rangeLoop, if_pos (Nat.zero_le _)]

/-- The operation is applied, whichever allocations fail, exactly if every region that it has
to change ends below `2 ^ 64` and so does the range. -/
theorem rangeLoop_applied_iff (hop : PieceOp onPiece g)
    (hg : ∀ r : Region, Fixed g r ∨ ∀ v, g (r.view v) ≠ some (r.view v)) (hL : WellFormed L)
    (ha : pageSize ∣ addr) (hl : pageSize ∣ len) (hrange : addr + len ≤ 2 ^ 64) :
    (∀ oracle c, Applied g addr len L
        (rangeLoop oracle onPiece addr (u64 (addr + len)) c L)) ↔
      ∀ r ∈ L, Overlaps r addr len →
        (addr + len < 2 ^ 64 ∧ r.vaddr + r.size < 2 ^ 64) ∨ Fixed g r := by
  constructor
  · intro h r hr hov
    by_contra hcon
    obtain ⟨hwrap, hfix⟩ := not_or.1 hcon
    have hne := (hg r).resolve_left hfix
    have happ := h (fun _ => true) ⟨0, []⟩
    -- a byte that the operation has to change
    have hv : r.Contains (max r.vaddr addr) ∧ addr ≤ max r.vaddr addr ∧
        max r.vaddr addr < addr + len := by
      rw [Overlaps] at hov
      rw [Region.Contains]
      omega
    obtain ⟨hc, hin⟩ := hv
    -- yet the loop succeeds and leaves the region in the list
    have hkept : (rangeLoop (fun _ => true) onPiece addr (u64 (addr + len)) ⟨0, []⟩ L).1 =
          none ∧ r ∈ (rangeLoop (fun _ => true) onPiece addr (u64 (addr + len)) ⟨0, []⟩ L).2.1 := by
      rcases hrange.lt_or_eq with hlt | heq
      · rw [u64_of_lt hlt]
        have hend : r.vaddr + r.size = 2 ^ 64 := by
          have := (hL.ok r hr).stop
          omega
        have hskip : r.stop ≤ addr := by
          rw [Region.stop, hend]
          simp [u64]
        exact ⟨rangeLoop_ok hop ha hl hlt hL.ok (by omega) fun _ => rfl,
          mem_rangeLoop hr (.inl hskip)⟩
      · have h0 : u64 (addr + len) = 0 := by rw [heq]; rfl
        rw [h0, rangeLoop_zero]
        exact ⟨rfl, hr⟩
    have hview := happ.success hkept.1 (max r.vaddr addr)
    rw [Within.viewAt_eq happ.wellFormed hkept.2 hc, Within.viewAt_eq hL hr hc, update,
      if_pos hin] at hview
    exact hne _ hview.symm
  · intro hcond oracle c
    rcases hrange.lt_or_eq with hlt | heq
    · rw [u64_of_lt hlt]
      exact (rangeLoop_window hop ha hl hlt hL fun r hr hov =>
        (hcond r hr hov).imp_left fun h => h.2).applied hL
    · have h0 : u64 (addr + len) = 0 := by rw [heq]; rfl
      rw [h0, rangeLoop_zero]
      refine (window_unchanged hL (.inr (update_eq_self hL fun r hr hov => ?_))).applied hL
      exact (hcond r hr hov).resolve_left fun h => absurd heq h.1.ne

lemma pieceOp_unmap : PieceOp (fun c mid => ([], c.emit (.release mid))) fun _ => none :=
  fun _ _ _ => Window.nil fun _ _ _ => rfl

lemma pieceOp_protect (prot : ℕ) :
    PieceOp (fun c mid => ([{ mid with prot := prot }], c))
      fun x => some { x with prot := prot } := by
  intro c m hm
  have hok : ({ m with prot := prot } : Region).Ok := { hm with }
  exact window_singleton hok rfl rfl fun _ _ _ => rfl

lemma not_fixed_unmap (r : Region) : ¬Fixed (fun _ => none) r := fun h => by
  simpa using h 0

lemma fixed_protect_iff (prot : ℕ) (r : Region) :
    Fixed (fun x => some { x with prot := prot }) r ↔ r.prot = prot := by
  constructor
  · intro h
    exact (congrArg View.prot (some.inj (h 0))).symm
  · rintro rfl v
    rfl

/-- Which calls of `vma_unmap_range` and `vma_protect_range` do what they are for, whichever
allocations fail: those in which neither the range nor a region to be changed ends at
`2 ^ 64`. -/
theorem range_operations_applied_iff (addr len : ℕ) (hL : WellFormed L) (ha : pageSize ∣ addr)
    (hl : pageSize ∣ len) (hrange : addr + len ≤ 2 ^ 64) (prot : ℕ) :
    ((∀ oracle c, Applied (fun _ => none) addr len L (vmaUnmapRange oracle c L addr len)) ↔
      ∀ r ∈ L, Overlaps r addr len → addr + len < 2 ^ 64 ∧ r.vaddr + r.size < 2 ^ 64) ∧
    ((∀ oracle c, Applied (fun x => some { x with prot := prot }) addr len L
        (vmaProtectRange oracle c L addr len prot)) ↔
      ∀ r ∈ L, Overlaps r addr len →
        (addr + len < 2 ^ 64 ∧ r.vaddr + r.size < 2 ^ 64) ∨ r.prot = prot) := by
  constructor
  · refine (rangeLoop_applied_iff pieceOp_unmap (fun r => ?_) hL ha hl hrange).trans ?_
    · exact .inr fun v => by simp
    · simp only [not_fixed_unmap, or_false]
  · refine (rangeLoop_applied_iff (pieceOp_protect prot) (fun r => ?_) hL ha hl hrange).trans ?_
    · by_cases h : r.prot = prot
      · exact .inl ((fixed_protect_iff prot r).2 h)
      · exact .inr fun v hv => h (congrArg View.prot (some.inj hv)).symm
    · simp only [fixed_protect_iff]

def lowPage : Region where
  vaddr := 0x1000
  size := 0x1000
  phys := 0
  shmObj := none
  prot := 3
  fd := -1
  offset := 0
  flags := 0x22
  inode := none
  shmPrivateSrc := none
  owner := none
  raLastPage := 2 ^ 64 - 1
  raNextPage := 0
  raWindowPages := 0
  raSequentialFaults := 0

/-- Unmapping everything above the first page: the end of the range wraps around to zero, the
call succeeds, and the page is still mapped. -/
theorem unmap_to_top_keeps_page :
    (vmaUnmapRange (fun _ => true) ⟨0, []⟩ [lowPage] 0x1000 (2 ^ 64 - 0x1000)).1 = none ∧
    viewAt (vmaUnmapRange (fun _ => true) ⟨0, []⟩ [lowPage] 0x1000 (2 ^ 64 - 0x1000)).2.1 0x1000 =
      some (lowPage.view 0x1000) ∧
    ¬Applied (fun _ => none) 0x1000 (2 ^ 64 - 0x1000) [lowPage]
      (vmaUnmapRange (fun _ => true) ⟨0, []⟩ [lowPage] 0x1000 (2 ^ 64 - 0x1000)) := by
  refine ⟨rfl, by decide, fun h => ?_⟩
  have hview := h.success rfl 0x1000
  revert hview
  decide

def lowPages : Region := { lowPage with size := 0x3000 }

lemma wellFormed_lowPages : WellFormed [lowPages] := by
  have hok : lowPages.Ok := ⟨by decide, by decide, by decide, by decide⟩
  exact ⟨by simpa using hok, by simp, by simp [lowPages, lowPage], List.pairwise_singleton _ _⟩

/-- Both operations cut the middle page out. -/
theorem range_operations_applied_middle :
    (∀ oracle c, Applied (fun _ => none) 0x2000 0x1000 [lowPages]
      (vmaUnmapRange oracle c [lowPages] 0x2000 0x1000)) ∧
    ∀ oracle c, Applied (fun x => some { x with prot := 1 }) 0x2000 0x1000 [lowPages]
      (vmaProtectRange oracle c [lowPages] 0x2000 0x1000 1) := by
  have h := range_operations_applied_iff 0x2000 0x1000 wellFormed_lowPages
    (by decide) (by decide) (by decide) 1
  exact ⟨h.1.2 (by decide), h.2.2 (by decide)⟩

end XosKernel.Vma
