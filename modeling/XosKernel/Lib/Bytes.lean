/-
# Little-endian words in a byte memory

A memory assigns a byte to every address. `readLE m n a` is the number stored in the `n`
bytes from `a` on and `writeLE m n a v` stores the low `n` bytes of `v` there. A read sees
the last write to the same bytes, and is not affected by a write elsewhere.
-/
import Mathlib.Tactic

namespace XosKernel.Bytes

/-- The number in the `n` bytes from address `a` on. -/
def readLE (m : ℕ → ℕ) : ℕ → ℕ → ℕ
  | 0, _ => 0
  | n + 1, a => m a + 256 * readLE m n (a + 1)

/-- Store the low `n` bytes of `v` from address `a` on. -/
def writeLE (m : ℕ → ℕ) (n a v : ℕ) (x : ℕ) : ℕ :=
  if a ≤ x ∧ x < a + n then v / 256 ^ (x - a) % 256 else m x

variable {m m' : ℕ → ℕ} {n a b k v : ℕ}

lemma readLE_congr (h : ∀ x, a ≤ x → x < a + n → m' x = m x) : readLE m' n a = readLE m n a := by
  induction n generalizing a with
  | zero => rfl
  | succ n ih =>
    have hhead : m' a = m a := h a le_rfl (by omega)
    have htail : readLE m' n (a + 1) = readLE m n (a + 1) :=
      ih fun x h1 h2 => h x (by omega) (by omega)
    rw [readLE, readLE, hhead, htail]

lemma readLE_writeLE (hv : v < 256 ^ n) : readLE (writeLE m n a v) n a = v := by
  induction n generalizing a v with
  | zero =>
    have : v = 0 := by simpa using hv
    simp [readLE, this]
  | succ n ih =>
    have hdiv : v / 256 < 256 ^ n := by
      rw [Nat.div_lt_iff_lt_mul (by norm_num)]
      simpa [pow_succ] using hv
    -- from the second byte on, the write stores `v / 256`
    have htail : readLE (writeLE m (n + 1) a v) n (a + 1) = v / 256 := by
      rw [← ih (a := a + 1) hdiv]
      refine readLE_congr fun x h1 h2 => ?_
      have hx : x - a = x - (a + 1) + 1 := by omega
      simp only [writeLE, show a ≤ x ∧ x < a + (n + 1) by omega,
        show a + 1 ≤ x ∧ x < a + 1 + n by omega, and_self, if_true, hx, pow_succ']
      rw [Nat.div_div_eq_div_mul]
    rw [readLE, htail]
    simp only [writeLE, le_refl, true_and, show a < a + (n + 1) by omega, if_true, Nat.sub_self,
      pow_zero, Nat.div_one]
    omega

lemma readLE_writeLE_of_apart (h : a + n ≤ b ∨ b + k ≤ a) :
    readLE (writeLE m k b v) n a = readLE m n a := by
  refine readLE_congr fun x h1 h2 => ?_
  have hx : ¬(b ≤ x ∧ x < b + k) := by omega
  simp [writeLE, hx]

end XosKernel.Bytes
