/-
# Free lists of coalesced blocks

A free list is a list of blocks of consecutive cells. It is `Coalesced` when its blocks
are nonempty, in increasing order, and never adjacent. Allocation cuts cells off the front
of a block (`cut`); freeing inserts a block and glues it to the neighbours it touches
(`give`). Both keep the list coalesced, and giving back what was cut restores the list.
-/
import Mathlib.Tactic

namespace XosKernel.FreeList

open List

/-- The cells `start, …, start + len - 1`. -/
structure Block where
  start : ℕ
  len : ℕ
deriving DecidableEq

/-- Two blocks have no cell in common, and one lies entirely before the other. -/
def Block.Apart (a b : Block) : Prop :=
  a.start + a.len ≤ b.start ∨ b.start + b.len ≤ a.start

lemma Block.Apart.symm {a b : Block} (h : a.Apart b) : b.Apart a := Or.symm h

/-- The invariant of a free list. -/
def Coalesced (L : List Block) : Prop :=
  (∀ b ∈ L, 0 < b.len) ∧ L.Pairwise fun a b => a.start + a.len < b.start

def size (L : List Block) : ℕ := (L.map Block.len).sum

@[simp] lemma size_nil : size [] = 0 := rfl

@[simp] lemma size_cons (b : Block) (L : List Block) : size (b :: L) = b.len + size L := by
  simp [size]

@[simp] lemma size_append (L M : List Block) : size (L ++ M) = size L + size M := by
  simp [size]

/-- What is left of a block after its first `n` cells are taken. -/
def cut (b : Block) (n : ℕ) : List Block :=
  if b.len = n then [] else [⟨b.start + n, b.len - n⟩]

/-- Put `b` in front of `L`, glued to the first block when it touches it. -/
def glue (b : Block) : List Block → List Block
  | [] => [b]
  | c :: L =>
      if b.start + b.len = c.start then ⟨b.start, b.len + c.len⟩ :: L else b :: c :: L

/-- Glue `b` to the last block of `L` when it touches it. -/
def joinLast (L : List Block) (b : Block) : List Block × Block :=
  match L.getLast? with
  | none => (L, b)
  | some a =>
      if a.start + a.len = b.start then (L.dropLast, ⟨a.start, a.len + b.len⟩) else (L, b)

/-- Insert `b` between `L` and `M`, glued to the neighbours it touches. -/
def give (L : List Block) (b : Block) (M : List Block) : List Block :=
  (joinLast L b).1 ++ glue (joinLast L b).2 M

variable {L M : List Block} {b : Block} {n : ℕ}

lemma coalesced_append :
    Coalesced (L ++ M) ↔ Coalesced L ∧ Coalesced M ∧
      ∀ a ∈ L, ∀ c ∈ M, a.start + a.len < c.start := by
  simp only [Coalesced, pairwise_append, mem_append]
  constructor
  · rintro ⟨hpos, hL, hM, hLM⟩
    exact ⟨⟨fun b hb => hpos b (.inl hb), hL⟩, ⟨fun b hb => hpos b (.inr hb), hM⟩, hLM⟩
  · rintro ⟨⟨hposL, hL⟩, ⟨hposM, hM⟩, hLM⟩
    exact ⟨fun b hb => hb.elim (hposL b) (hposM b), hL, hM, hLM⟩

lemma coalesced_cons :
    Coalesced (b :: M) ↔ 0 < b.len ∧ Coalesced M ∧ ∀ c ∈ M, b.start + b.len < c.start := by
  simp only [Coalesced, pairwise_cons, mem_cons, forall_eq_or_imp]
  tauto

@[simp] lemma coalesced_nil : Coalesced [] := ⟨by simp, List.Pairwise.nil⟩

lemma coalesced_middle :
    Coalesced (L ++ b :: M) ↔ Coalesced L ∧ 0 < b.len ∧ Coalesced M ∧
      (∀ a ∈ L, a.start + a.len < b.start) ∧ (∀ c ∈ M, b.start + b.len < c.start) ∧
      ∀ a ∈ L, ∀ c ∈ M, a.start + a.len < c.start := by
  rw [coalesced_append, coalesced_cons]
  constructor
  · rintro ⟨hL, ⟨hb, hM, hbM⟩, hLM⟩
    exact ⟨hL, hb, hM, fun a ha => hLM a ha b (by simp), hbM,
      fun a ha c hc => hLM a ha c (by simp [hc])⟩
  · rintro ⟨hL, hb, hM, hLb, hbM, hLM⟩
    refine ⟨hL, ⟨hb, hM, hbM⟩, fun a ha c hc => ?_⟩
    rcases mem_cons.1 hc with rfl | hc
    · exact hLb a ha
    · exact hLM a ha c hc

lemma length_le_size (h : Coalesced L) : L.length ≤ size L := by
  induction L with
  | nil => simp
  | cons b L ih =>
    obtain ⟨hb, hL, -⟩ := coalesced_cons.1 h
    have := ih hL
    simp only [length_cons, size_cons]
    omega

lemma size_add_le {a bound : ℕ} (h : Coalesced L) (hlo : ∀ b ∈ L, a ≤ b.start)
    (hb : ∀ b ∈ L, b.start + b.len ≤ bound) (hle : a ≤ bound) : a + size L ≤ bound := by
  induction L generalizing a with
  | nil => simpa using hle
  | cons b L ih =>
    obtain ⟨-, hL, hbL⟩ := coalesced_cons.1 h
    have h1 := hlo b (by simp)
    have h2 := hb b (by simp)
    have h3 := ih (a := b.start + b.len) hL (fun c hc => (hbL c hc).le)
      (fun c hc => hb c (by simp [hc])) h2
    simp only [size_cons]
    omega

/-! ### Cutting -/

lemma size_cut (hn : n ≤ b.len) : size (cut b n) + n = b.len := by
  unfold cut
  split_ifs with h
  · simpa using h.symm
  · simp only [size_cons, size_nil]
    omega

lemma mem_cut {c : Block} (hn : n ≤ b.len) (hc : c ∈ cut b n) :
    c.start = b.start + n ∧ c.start + c.len = b.start + b.len ∧ 0 < c.len := by
  unfold cut at hc
  split_ifs at hc with h
  · simp at hc
  · obtain rfl := mem_singleton.1 hc
    refine ⟨rfl, ?_, ?_⟩ <;> dsimp only <;> omega

lemma coalesced_cut (h : Coalesced (L ++ b :: M)) (hn : n ≤ b.len) :
    Coalesced (L ++ (cut b n ++ M)) := by
  obtain ⟨hL, hb, hM, hLb, hbM, hLM⟩ := coalesced_middle.1 h
  unfold cut
  split_ifs with hlen
  · rw [nil_append, coalesced_append]
    exact ⟨hL, hM, hLM⟩
  · rw [singleton_append, coalesced_middle]
    refine ⟨hL, by dsimp only; omega, hM, fun a ha => ?_, fun c hc => ?_, hLM⟩
    · have := hLb a ha
      dsimp only
      omega
    · have := hbM c hc
      dsimp only
      omega

/-! ### Giving back -/

lemma joinLast_cases (L : List Block) (b : Block) :
    (joinLast L b = (L, b) ∧ ∀ a ∈ L.getLast?, a.start + a.len ≠ b.start) ∨
      ∃ L' a, L = L' ++ [a] ∧ a.start + a.len = b.start ∧
        joinLast L b = (L', ⟨a.start, a.len + b.len⟩) := by
  rcases eq_nil_or_concat L with rfl | ⟨L', a, rfl⟩
  · exact .inl ⟨rfl, by simp⟩
  · rw [concat_eq_append]
    by_cases h : a.start + a.len = b.start
    · exact .inr ⟨L', a, rfl, h, by simp [joinLast, h]⟩
    · exact .inl ⟨by simp [joinLast, h], by simpa using h⟩

lemma size_glue : size (glue b M) = b.len + size M := by
  cases M with
  | nil => simp [glue]
  | cons c M =>
    rw [glue]
    split_ifs
    · simp only [size_cons]
      omega
    · simp

lemma size_give : size (give L b M) = size L + b.len + size M := by
  rcases joinLast_cases L b with ⟨h, -⟩ | ⟨L', a, rfl, -, h⟩
  · rw [give, h, size_append, size_glue]
    dsimp only
    omega
  · rw [give, h, size_append, size_glue, size_append, size_cons, size_nil]
    dsimp only
    omega

lemma coalesced_glue (hb : 0 < b.len) (hM : Coalesced M)
    (hle : ∀ c ∈ M, b.start + b.len ≤ c.start) : Coalesced (glue b M) := by
  cases M with
  | nil => exact coalesced_cons.2 ⟨hb, coalesced_nil, by simp⟩
  | cons c M =>
    obtain ⟨hc, hM', hcM⟩ := coalesced_cons.1 hM
    rw [glue]
    split_ifs with h
    · refine coalesced_cons.2 ⟨by dsimp only; omega, hM', fun d hd => ?_⟩
      have := hcM d hd
      dsimp only
      omega
    · refine coalesced_cons.2 ⟨hb, hM, fun d hd => ?_⟩
      have h1 := hle c (by simp)
      rcases mem_cons.1 hd with rfl | hd
      · omega
      · have := hcM d hd
        omega

lemma start_le_of_mem_glue {d : Block} (hle : ∀ c ∈ M, b.start + b.len ≤ c.start)
    (hd : d ∈ glue b M) : b.start ≤ d.start := by
  cases M with
  | nil => simp [glue] at hd; simp [hd]
  | cons c M =>
    rw [glue] at hd
    split_ifs at hd
    · rcases mem_cons.1 hd with rfl | hd
      · exact le_rfl
      · have := hle d (by simp [hd])
        omega
    · rcases mem_cons.1 hd with rfl | hd
      · exact le_rfl
      · have := hle d hd
        omega

/-- Inserting a block that fits between two parts of a coalesced list. -/
lemma coalesced_give (h : Coalesced (L ++ M)) (hb : 0 < b.len)
    (hL : ∀ a ∈ L, a.start + a.len ≤ b.start) (hM : ∀ c ∈ M, b.start + b.len ≤ c.start) :
    Coalesced (give L b M) := by
  obtain ⟨hcL, hcM, -⟩ := coalesced_append.1 h
  rcases joinLast_cases L b with ⟨hj, hlast⟩ | ⟨L', a, rfl, hab, hj⟩
  · rw [give, hj, coalesced_append]
    refine ⟨hcL, coalesced_glue hb hcM hM, fun a ha d hd => ?_⟩
    have hd' := start_le_of_mem_glue hM hd
    -- only the last block of `L` could touch `b`, and it does not
    have hne : a.start + a.len < b.start := by
      rcases eq_nil_or_concat L with rfl | ⟨L', z, rfl⟩
      · simp at ha
      · rw [concat_eq_append] at hL hcL ha hlast
        have hz := hlast z (by simp)
        have hz' := hL z (by simp)
        rcases mem_append.1 ha with ha | ha
        · have := (coalesced_append.1 hcL).2.2 a ha z (by simp)
          omega
        · obtain rfl := mem_singleton.1 ha
          omega
    omega
  · rw [give, hj, coalesced_append]
    obtain ⟨hcL', -, hL'a⟩ := coalesced_append.1 hcL
    have hM' : ∀ c ∈ M, a.start + (a.len + b.len) ≤ c.start := fun c hc => by
      have := hM c hc
      omega
    refine ⟨hcL', coalesced_glue (by dsimp only; omega) hcM hM', fun z hz d hd => ?_⟩
    have hd' : a.start ≤ d.start :=
      start_le_of_mem_glue (b := ⟨a.start, a.len + b.len⟩) hM' hd
    have := hL'a z hz a (by simp)
    omega

section Glue

variable {P : Block → Prop}
  (hP : ∀ a b : Block, P a → P b → a.start + a.len = b.start → P ⟨a.start, a.len + b.len⟩)
include hP

lemma forall_glue (hM : ∀ c ∈ M, P c) (hb : P b) : ∀ c ∈ glue b M, P c := by
  cases M with
  | nil => simpa [glue] using hb
  | cons d M =>
    have hd := hM d (by simp)
    rw [glue]
    split_ifs with h
    · simpa using ⟨hP b d hb hd h, fun c hc => hM c (by simp [hc])⟩
    · simpa using ⟨hb, hd, fun c hc => hM c (by simp [hc])⟩

lemma forall_give (hL : ∀ a ∈ L, P a) (hM : ∀ c ∈ M, P c) (hb : P b) : ∀ c ∈ give L b M, P c := by
  rcases joinLast_cases L b with ⟨hj, -⟩ | ⟨L', a, rfl, hab, hj⟩
  · rw [give, hj]
    intro c hc
    exact (mem_append.1 hc).elim (hL c) (forall_glue hP hM hb c)
  · rw [give, hj]
    intro c hc
    rcases mem_append.1 hc with hc | hc
    · exact hL c (by simp [hc])
    · exact forall_glue hP hM (hP a b (hL a (by simp)) hb hab) c hc

end Glue

lemma Block.Apart.glue {a b d : Block} (hd : 0 < d.len) (ha : d.Apart a) (hb : d.Apart b)
    (hab : a.start + a.len = b.start) : d.Apart ⟨a.start, a.len + b.len⟩ := by
  unfold Block.Apart at *
  dsimp only
  omega

lemma exists_place (h : Coalesced L) (hap : ∀ a ∈ L, a.Apart b) :
    ∃ L1 L2, L = L1 ++ L2 ∧ (∀ a ∈ L1, a.start + a.len ≤ b.start) ∧
      ∀ c ∈ L2, b.start + b.len ≤ c.start := by
  induction L with
  | nil => exact ⟨[], [], rfl, by simp, by simp⟩
  | cons a L ih =>
    obtain ⟨ha, hL, haL⟩ := coalesced_cons.1 h
    rcases hap a (by simp) with hab | hba
    · obtain ⟨L1, L2, rfl, h₁, h₂⟩ := ih hL fun c hc => hap c (by simp [hc])
      refine ⟨a :: L1, L2, rfl, ?_, h₂⟩
      simpa using ⟨hab, h₁⟩
    · refine ⟨[], a :: L, rfl, by simp, fun c hc => ?_⟩
      rcases mem_cons.1 hc with rfl | hc
      · exact hba
      · have := haL c hc
        omega

lemma give_cut (h : Coalesced (L ++ b :: M)) (hn : n ≤ b.len) :
    give L ⟨b.start, n⟩ (cut b n ++ M) = L ++ b :: M := by
  obtain ⟨-, hb, -, hLb, hbM, -⟩ := coalesced_middle.1 h
  have hj : joinLast L ⟨b.start, n⟩ = (L, ⟨b.start, n⟩) := by
    rcases joinLast_cases L ⟨b.start, n⟩ with ⟨hj, -⟩ | ⟨L', a, rfl, hab, -⟩
    · exact hj
    · have := hLb a (by simp)
      dsimp only at hab
      omega
  rw [give, hj]
  unfold cut
  split_ifs with hlen
  · subst hlen
    cases M with
    | nil => rfl
    | cons c M =>
      have hc : b.start + b.len ≠ c.start := (hbM c (by simp)).ne
      simp [glue, hc]
  · have hsum : n + (b.len - n) = b.len := by omega
    simp [glue, hsum]

end XosKernel.FreeList
