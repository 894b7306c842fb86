/-
# Records in a byte memory

A record in memory is a list of fields, each with an offset, a width and a value. Storing
a record writes its fields one after the other; if no two fields overlap, loading a field
gives back the value that was stored.
-/
import XosKernel.Lib.Bytes

namespace XosKernel.Bytes

/-- A field of `bytes` bytes at some offset in a record. -/
structure Field where
  offset : ℕ
  bytes : ℕ
  value : BitVec (8 * bytes)

/-- The two fields share no byte. -/
def Field.Apart (f g : Field) : Prop :=
  f.offset + f.bytes ≤ g.offset ∨ g.offset + g.bytes ≤ f.offset

/-- The `n`-byte word at address `a`. -/
def load (m : ℕ → ℕ) (n a : ℕ) : BitVec (8 * n) := BitVec.ofNat (8 * n) (readLE m n a)

/-- Store the fields of a record at `base`. -/
def storeFields (m : ℕ → ℕ) (base : ℕ) : List Field → ℕ → ℕ
  | [] => m
  | f :: fs => writeLE (storeFields m base fs) f.bytes (base + f.offset) f.value.toNat

variable {m m' : ℕ → ℕ} {base : ℕ}

lemma load_copy {size n o : ℕ} (h : ∀ k < size, m' (base + k) = m k) (ho : o + n ≤ size) :
    load m' n (base + o) = load m n o := by
  have hread : readLE m' n (base + o) = readLE m n o := by
    induction n generalizing o with
    | zero => rfl
    | succ n ih =>
      have htail : readLE m' n (base + (o + 1)) = readLE m n (o + 1) := ih (by omega)
      rw [readLE, readLE, h o (by omega), ← htail]
      rfl
  rw [load, load, hread]

lemma pairwise_apart {fs : List Field}
    (h : fs.IsChain fun f g => f.offset + f.bytes ≤ g.offset) : fs.Pairwise Field.Apart := by
  have : IsTrans Field fun f g => f.offset + f.bytes ≤ g.offset :=
    ⟨fun f g k hfg hgk => by omega⟩
  exact (List.isChain_iff_pairwise.1 h).imp fun hfg => .inl hfg

lemma load_storeFields {fs : List Field} (hfs : fs.Pairwise Field.Apart) {f : Field}
    (hf : f ∈ fs) : load (storeFields m base fs) f.bytes (base + f.offset) = f.value := by
  induction fs with
  | nil => cases hf
  | cons g fs ih =>
    obtain ⟨hg, hfs⟩ := List.pairwise_cons.1 hfs
    rw [storeFields, load]
    rcases List.mem_cons.1 hf with rfl | hf
    · have hlt : f.value.toNat < 256 ^ f.bytes := by
        have := f.value.isLt
        rwa [pow_mul] at this
      rw [readLE_writeLE hlt, BitVec.ofNat_toNat, BitVec.setWidth_eq]
    · -- the write of `g` does not touch the bytes of `f`
      have happ : base + f.offset + f.bytes ≤ base + g.offset ∨
          base + g.offset + g.bytes ≤ base + f.offset := by
        have := hg f hf
        rw [Field.Apart] at this
        omega
      rw [readLE_writeLE_of_apart happ]
      exact ih hfs hf

end XosKernel.Bytes
