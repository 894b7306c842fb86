/-
# Bytes kept in blocks

A sequence of bytes can be kept in blocks of `B` bytes each, named by a list: byte `p` is at
offset `p % B` of the block that entry `p / B` of the list names. What can be read does not
depend on the memory of other blocks, it is not affected by adding blocks at the end or by
taking away blocks behind the byte, and a store into one block is seen at the positions of
that block only, provided the list names no block twice.
-/
import Mathlib.Data.List.Nodup
import Mathlib.Tactic

namespace XosKernel.Paged

open Option

variable {F β : Type*}

/-- Byte `p` of the sequence kept in the blocks `fs`. -/
def look (B : ℕ) (fs : List F) (mem : F → ℕ → β) (p : ℕ) : Option β :=
  fs[p / B]?.map fun f => mem f (p % B)

def fill [DecidableEq F] (mem : F → ℕ → β) (f : F) (off n : ℕ) (src : ℕ → β) (g : F) (i : ℕ) : β :=
  if g = f ∧ off ≤ i ∧ i < off + n then src (i - off) else mem g i

variable {B : ℕ} {fs gs : List F} {mem mem' : F → ℕ → β} {p : ℕ} {b : β}

lemma div_lt_length (h : p < B * fs.length) : p / B < fs.length :=
  Nat.div_lt_of_lt_mul h

lemma look_congr (h : ∀ f ∈ fs, mem' f = mem f) : look B fs mem' p = look B fs mem p := by
  unfold look
  cases hf : fs[p / B]? with
  | none => rfl
  | some f => simp only [map_some, h f (List.mem_of_getElem? hf)]

lemma look_append_of_lt (h : p < B * fs.length) : look B (fs ++ gs) mem p = look B fs mem p := by
  unfold look
  rw [List.getElem?_append_left (div_lt_length h)]

lemma look_take_of_lt {n : ℕ} (h : p < B * n) : look B (fs.take n) mem p = look B fs mem p := by
  unfold look
  rw [List.getElem?_take_of_lt (Nat.div_lt_of_lt_mul h)]

lemma look_append_of_const (h : ∀ f ∈ gs, ∀ i, mem f i = b) (hle : B * fs.length ≤ p)
    (hp : p < B * (fs ++ gs).length) : look B (fs ++ gs) mem p = some b := by
  unfold look
  have hB : 0 < B := Nat.pos_of_ne_zero fun h0 => by simp [h0] at hp
  have hge : fs.length ≤ p / B := (Nat.le_div_iff_mul_le hB).2 (by rwa [Nat.mul_comm])
  have hlt : p / B - fs.length < gs.length := by
    have := div_lt_length hp
    rw [List.length_append] at this
    omega
  rw [List.getElem?_append_right hge, List.getElem?_eq_getElem hlt, map_some,
    h _ (List.getElem_mem hlt)]

section Fill

variable [DecidableEq F] {f g : F} {off n k : ℕ} {src : ℕ → β}

lemma fill_of_ne (h : g ≠ f) : fill mem f off n src g = mem g := by
  funext i
  simp only [fill, h, false_and, if_false]

/-- A store into the `k`-th block is seen at the positions of that block. -/
theorem look_fill (hnd : fs.Nodup) (hk : fs[k]? = some f) (hn : off + n ≤ B) :
    look B fs (fill mem f off n src) p =
      if B * k + off ≤ p ∧ p < B * k + off + n then some (src (p - (B * k + off)))
      else look B fs mem p := by
  unfold look
  by_cases hpk : p / B = k
  · have hp : p = B * k + p % B := by rw [← hpk, Nat.div_add_mod]
    rw [hpk, hk, map_some, map_some]
    simp only [fill, true_and]
    by_cases hin : off ≤ p % B ∧ p % B < off + n
    · rw [if_pos hin, if_pos (by omega), show p - (B * k + off) = p % B - off by omega]
    · rw [if_neg hin, if_neg (by omega)]
  · -- another block: its position is outside the stored range, and it is another name
    have hout : ¬(B * k + off ≤ p ∧ p < B * k + off + n) := by
      rintro ⟨h1, h2⟩
      exact hpk (Nat.div_eq_of_lt_le (by rw [Nat.mul_comm]; omega)
        (by rw [Nat.add_mul, Nat.mul_comm k B]; omega))
    rw [if_neg hout]
    cases hg : fs[p / B]? with
    | none => rfl
    | some g =>
      have hne : g ≠ f := by
        rintro rfl
        obtain ⟨hlt, hgl⟩ := List.getElem?_eq_some_iff.1 hg
        obtain ⟨hlt', hkl⟩ := List.getElem?_eq_some_iff.1 hk
        exact hpk ((List.Nodup.getElem_inj_iff hnd).1 (hgl.trans hkl.symm))
      rw [map_some, map_some, fill_of_ne hne]

end Fill

end XosKernel.Paged
