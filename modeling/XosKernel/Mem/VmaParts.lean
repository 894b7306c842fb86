/-
# What a range operation keeps and what it releases

`vma_split` replaces a region by parts, and the range operations of `kernel/xcore/mem/vma.c` keep
some of the parts in the list and release the others. A quantity of regions that adds up over the
parts of a region is therefore conserved by the whole operation: what the list has lost is what was
released.
-/
import XosKernel.Mem.VmaSum

namespace XosKernel.Vma

open List

def released : Effect → List Region
  | .release r => [r]
  | .get _ | .put _ => []

def releases (c : Ctx) : List Region := c.log.flatMap released

lemma releases_emit (c : Ctx) (e : Effect) : releases (c.emit e) = releases c ++ released e := by
  rw [releases, releases, Ctx.emit, flatMap_append, flatMap_singleton]

/-! ## The parts of a region -/

/-- A region of whole pages that does not reach the top of the address space. -/
structure Whole (r : Region) : Prop where
  vaddr : pageSize ∣ r.vaddr
  size : pageSize ∣ r.size
  stop : r.vaddr + r.size < 2 ^ 64

instance (r : Region) : Decidable (Whole r) :=
  decidable_of_iff (pageSize ∣ r.vaddr ∧ pageSize ∣ r.size ∧ r.vaddr + r.size < 2 ^ 64)
    ⟨fun ⟨h1, h2, h3⟩ => ⟨h1, h2, h3⟩, fun h => ⟨h.vaddr, h.size, h.stop⟩⟩

/-- A range of whole pages inside of the region. -/
structure Inside (r : Region) (v n : ℕ) : Prop where
  start : pageSize ∣ v
  len : pageSize ∣ n
  lo : r.vaddr ≤ v
  hi : v + n ≤ r.vaddr + r.size

def parts (r : Region) (v n : ℕ) : List Region :=
  frontPiece r v ++ piece r v n :: tailPiece r (u64 (v + n))

/-- The part of a region that a range operation cuts out where the region starts in front of the
range. -/
lemma inside_front {r : Region} (h : Whole r) {addr len : ℕ} (ha : pageSize ∣ addr)
    (hl : pageSize ∣ len) (hle : addr + len ≤ 2 ^ 64) (h1 : r.vaddr < u64 (addr + len))
    (h2 : addr < r.stop) (h3 : r.vaddr < addr) :
    Inside r addr (if r.stop < u64 (addr + len) then u64Sub r.stop addr
      else u64Sub (u64 (addr + len)) addr) := by
  have hstop := h.stop
  have hrstop : r.stop = r.vaddr + r.size := u64_of_lt hstop
  have hlt : addr + len < 2 ^ 64 := by
    refine lt_of_le_of_ne hle fun heq => ?_
    rw [heq] at h1
    exact absurd h1 (Nat.not_lt_zero _)
  rw [hrstop] at h2 ⊢
  rw [u64_of_lt hlt] at h1 ⊢
  rw [u64Sub_of_le (by omega) (by omega), u64Sub_of_le hlt (by omega)]
  have hend : pageSize ∣ r.vaddr + r.size := Nat.dvd_add h.vaddr h.size
  split_ifs
  · exact ⟨ha, Nat.dvd_sub hend ha, by omega, by omega⟩
  · exact ⟨ha, by rwa [Nat.add_sub_cancel_left], by omega, by omega⟩

lemma inside_tail {r : Region} (h : Whole r) {addr len : ℕ} (ha : pageSize ∣ addr)
    (hl : pageSize ∣ len) (hle : addr + len ≤ 2 ^ 64) (h1 : r.vaddr < u64 (addr + len))
    (h2 : u64 (addr + len) < r.stop) : Inside r r.vaddr (u64Sub (u64 (addr + len)) r.vaddr) := by
  have hstop := h.stop
  have hrstop : r.stop = r.vaddr + r.size := u64_of_lt hstop
  have hlt : addr + len < 2 ^ 64 := by
    refine lt_of_le_of_ne hle fun heq => ?_
    rw [heq] at h1
    exact absurd h1 (Nat.not_lt_zero _)
  rw [u64_of_lt hlt] at h1 h2 ⊢
  rw [u64Sub_of_le hlt h1.le]
  exact ⟨h.vaddr, Nat.dvd_sub (Nat.dvd_add ha hl) h.vaddr, le_rfl, by omega⟩

/-! ## Range operations -/

section Operation

variable {w : Region → ℤ} {good : Region → Prop} {out : List Region → ℤ} {oracle : ℕ → Bool}
  {onPiece : Ctx → Region → List Region × Ctx} {addr len : ℕ}

/-- The quantity adds up over the parts of a good region, and the parts are good. What a good region
does not need to be, a range of whole pages, is no condition on the part that is cut out. -/
def Splits (w : Region → ℤ) (good : Region → Prop) : Prop :=
  ∀ r v n, good r → (Whole r → Inside r v n) →
    total w (parts r v n) = w r ∧ ∀ p ∈ parts r v n, good p

/-- What the operation does with a good piece changes no balance. -/
def Handles (w : Region → ℤ) (out : List Region → ℤ) (good : Region → Prop)
    (onPiece : Ctx → Region → List Region × Ctx) : Prop :=
  ∀ c m, good m → Conserves w (fun c => out (releases c)) good c m
    (some (onPiece c m).1, (onPiece c m).2)

lemma cutOut_parts (hw : Splits w good) (hop : Handles w out good onPiece) (c : Ctx) {r : Region}
    {v n : ℕ} (hr : good r) (hi : Whole r → Inside r v n) :
    Conserves w (fun c => out (releases c)) good c r (cutOut oracle onPiece c r v n) := by
  obtain ⟨c', ⟨hnone, hlog, -⟩ | ⟨-, -, hsome, hlog⟩⟩ := vmaSplit_inv oracle c r v n
  · rw [cutOut, hnone]
    refine congrArg out ?_
    rcases hlog with hlog | hlog <;> simp [releases, hlog, released]
  · have hlog : releases c' = releases c := by
      rw [releases, hlog]
      split_ifs <;> simp [releases, released, flatMap_map]
    obtain ⟨hsum, hgood⟩ := hw r v n hr hi
    rw [parts, total_append, total_cons] at hsum
    obtain ⟨hfront, hrest⟩ := forall_mem_append.1 hgood
    obtain ⟨hmid, htail⟩ := forall_mem_cons.1 hrest
    obtain ⟨hkept, hkeptGood⟩ := hop c' _ hmid
    rw [cutOut, hsome]
    refine ⟨?_, ?_⟩
    · dsimp only at hkept ⊢
      rw [hlog] at hkept
      rw [total_append, total_append]
      linarith
    · exact forall_mem_append.2 ⟨forall_mem_append.2 ⟨hfront, hkeptGood⟩, htail⟩

/-- A range operation changes no balance. -/
theorem rangeLoop_parts (hw : Splits w good) (hop : Handles w out good onPiece) (c : Ctx)
    {L : List Region} (hL : ∀ r ∈ L, good r) (ha : pageSize ∣ addr) (hl : pageSize ∣ len)
    (hle : addr + len ≤ 2 ^ 64) :
    (total w (rangeLoop oracle onPiece addr (u64 (addr + len)) c L).2.1 -
        out (releases (rangeLoop oracle onPiece addr (u64 (addr + len)) c L).2.2) =
      total w L - out (releases c)) ∧
      ∀ r ∈ (rangeLoop oracle onPiece addr (u64 (addr + len)) c L).2.1, good r := by
  refine rangeLoop_conserves w (fun c => out (releases c)) good ?_ ?_ ?_ L c hL
  · exact fun c r hr h1 h2 h3 =>
      cutOut_parts hw hop c hr fun hwhole => inside_front hwhole ha hl hle h1 h2 h3
  · exact fun c r hr h1 _ _ h4 =>
      cutOut_parts hw hop c hr fun hwhole => inside_tail hwhole ha hl hle h1 h4
  · exact fun c r hr _ _ _ _ => hop c r hr

lemma handles_release : Handles w (fun L => -total w L) good
    fun c mid => ([], c.emit (.release mid)) := by
  intro c m _
  refine ⟨?_, fun _ hp => absurd hp not_mem_nil⟩
  dsimp only
  rw [releases_emit, released, total_append, total_cons, total_nil]
  ring

end Operation

end XosKernel.Vma
