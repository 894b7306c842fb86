/-
# Freeing a cluster chain

`fat32_free_chain` of `kernel/bsd/fat32.c` walks a chain twice. `fat32_chain_is_acyclic` follows it
with two cursors, one twice as fast as the other, and accepts it only if it ends inside the volume;
then the entries are cleared one by one. The first walk accepts exactly the chains that end, so the
second one meets every cluster once and is not misled by the entries it has cleared.

An entry is written by writing its sector, as it is in the first copy of the FAT, to both copies: in
the second copy whatever else stood in the sector goes. Reads see the first copy. Disk errors,
statistics and messages are left out.
-/
import XosKernel.Fs.FatWalk

namespace XosKernel.Fat

open List Function Nat

/-- The two copies of the FAT, by entry, with what `fat32_free_chain` uses of the volume; the count
of free clusters and the other FSInfo data are left out. -/
structure Volume where
  fat1 : ℕ → ℕ
  fat2 : ℕ → ℕ
  spf32 : ℕ
  totalDataClusters : ℕ
  nextFreeHint : ℕ

def Volume.readEntry (v : Volume) (c : ℕ) : ℕ := v.fat1 c % 2 ^ 28

/-- `fat32_write_fat_entry`: the upper four bits stay, and the sector goes to both copies. -/
def Volume.writeFatEntry (v : Volume) (c value : ℕ) : Volume :=
  let fat1 := Function.update v.fat1 c (v.fat1 c / 2 ^ 28 * 2 ^ 28 + value % 2 ^ 28)
  { v with fat1 := fat1, fat2 := fun j => if j / 128 = c / 128 then fat1 j else v.fat2 j }

section

variable (fat : ℕ → ℕ) (limit : ℕ)

/-- `fat32_chain_step`: `*next` and `*at_end`, or nothing if it returns false. -/
def chainStep (c : ℕ) : Option (ℕ × Bool) :=
  if endOfChain ≤ c then some (c, true)
  else if c < 2 ∨ limit ≤ c then none
  else if fat c < endOfChain ∧ (fat c < 2 ∨ limit ≤ fat c) then none
  else some (fat c, endOfChain ≤ fat c)

/-- The loop of `fat32_chain_is_acyclic`, with `left` turns to go. -/
def acyclicLoop : (left slow fast : ℕ) → Bool
  | 0, _, _ => false
  | left + 1, slow, fast =>
    match chainStep fat limit slow with
    | none => false
    | some (_, true) => true
    | some (slow, false) =>
      match chainStep fat limit fast with
      | none => false
      | some (_, true) => true
      | some (fast, false) =>
        match chainStep fat limit fast with
        | none => false
        | some (_, true) => true
        | some (fast, false) => if slow = fast then false else acyclicLoop left slow fast

def chainIsAcyclic (startCluster : ℕ) : Bool :=
  acyclicLoop fat limit (limit - 2) startCluster startCluster

/-- The entries lead from a cluster through `l`, inside the volume, to an end of chain. -/
inductive Chain : ℕ → List ℕ → Prop
  | nil {c : ℕ} (hend : endOfChain ≤ c) : Chain c []
  | cons {c : ℕ} {l : List ℕ} (hc : Data c) (hlt : c < limit) (hl : Chain (fat c) l) :
    Chain c (c :: l)

end

/-- One turn of the loop that frees. -/
def Volume.free (v : Volume) (c : ℕ) : Volume :=
  let v := v.writeFatEntry c 0
  if c < v.nextFreeHint then { v with nextFreeHint := c } else v

/-- The loop of `fat32_free_chain`. -/
def freeLoop : (remaining : ℕ) → Volume → ℕ → Volume
  | 0, v, _ => v
  | remaining + 1, v, c =>
    if Data c then
      let next := v.readEntry c
      if endOfChain ≤ next then v.free c else freeLoop remaining (v.free c) next
    else v

def Volume.clusterLimit (v : Volume) : ℕ :=
  min (if v.totalDataClusters = 0 then v.spf32 * 128 else v.totalDataClusters + 2) (v.spf32 * 128)

def freeChain (v : Volume) (startCluster : ℕ) : Volume :=
  if ¬ Data startCluster then v
  else if v.clusterLimit ≤ 2 ∨ ¬ chainIsAcyclic v.readEntry v.clusterLimit startCluster then v
  else freeLoop (v.clusterLimit - 2) v startCluster

variable {fat : ℕ → ℕ} {limit c d x : ℕ} {l l' : List ℕ} {v : Volume}

/-! ## Chains -/

lemma Chain.unique (h : Chain fat limit c l) (h' : Chain fat limit c l') : l = l' := by
  induction h generalizing l' with
  | nil hend =>
    cases h' with
    | nil => rfl
    | cons hc => exact absurd hc (not_data_of_le hend)
  | cons hc _ _ ih =>
    cases h' with
    | nil hend => exact absurd hc (not_data_of_le hend)
    | cons _ _ hl => rw [ih hl]

lemma Chain.congr {fat' : ℕ → ℕ} (h : Chain fat limit c l) (hc : ∀ x ∈ l, fat' x = fat x) :
    Chain fat' limit c l := by
  induction h with
  | nil hend => exact .nil hend
  | cons hd hlt _ ih =>
    obtain ⟨hx, hl⟩ := forall_mem_cons.1 hc
    exact .cons hd hlt (hx.symm ▸ ih hl)

lemma Chain.exists_of_mem (h : Chain fat limit c l) (hx : x ∈ l) :
    (2 ≤ x ∧ x < limit) ∧ ∃ l', Chain fat limit x l' ∧ l'.length ≤ l.length := by
  induction h with
  | nil => cases hx
  | cons hc hlt hl ih =>
    rcases mem_cons.1 hx with rfl | hx
    · exact ⟨⟨hc.1, hlt⟩, _, .cons hc hlt hl, le_rfl⟩
    · obtain ⟨hin, l', hl', hle⟩ := ih hx
      exact ⟨hin, l', hl', hle.trans (le_succ _)⟩

/-- A chain that ends visits no cluster twice. -/
lemma Chain.nodup (h : Chain fat limit c l) : l.Nodup := by
  induction h with
  | nil => exact nodup_nil
  | cons hc hlt hl ih =>
    refine nodup_cons.2 ⟨fun hx => ?_, ih⟩
    -- the rest of the chain from `c` would be the whole chain from `c`
    obtain ⟨-, l', hl', hle⟩ := hl.exists_of_mem hx
    rw [hl'.unique (.cons hc hlt hl), length_cons] at hle
    omega

lemma Chain.length_le (h : Chain fat limit c l) : l.length ≤ limit - 2 := by
  have hsub : l.toFinset ⊆ Finset.Ico 2 limit := fun x hx =>
    Finset.mem_Ico.2 (h.exists_of_mem (mem_toFinset.1 hx)).1
  rw [← toFinset_card_of_nodup h.nodup, ← card_Ico]
  exact Finset.card_le_card hsub

/-! ## The guard -/

lemma chainStep_of_cons (h : Chain fat limit c (x :: l)) :
    chainStep fat limit c = some (fat c, decide (l = [])) := by
  obtain _ | ⟨⟨h2, hc⟩, hlt, hl⟩ := h
  rw [chainStep, if_neg hc.not_ge, if_neg (by omega)]
  obtain hend | ⟨⟨hy2, hy⟩, hylt, -⟩ := hl
  · rw [if_neg (by omega)]
    simpa using hend
  · rw [if_neg (by omega)]
    simpa using hy

lemma chain_of_chainStep (h : chainStep fat limit c = some (d, false)) (hd : Chain fat limit d l) :
    Chain fat limit c (c :: l) := by
  unfold chainStep at h
  split_ifs at h with hc hin hnext
  · cases h
  · obtain ⟨rfl, -⟩ := Prod.mk.inj (Option.some.inj h)
    exact .cons ⟨by omega, by omega⟩ (by omega) hd

lemma exists_chain_of_chainStep (h : chainStep fat limit c = some (d, true)) :
    ∃ l, Chain fat limit c l := by
  unfold chainStep at h
  split_ifs at h with hc hin hnext
  · exact ⟨[], .nil hc⟩
  · have hend : endOfChain ≤ fat c := of_decide_eq_true (Prod.mk.inj (Option.some.inj h)).2
    exact ⟨[c], .cons ⟨by omega, by omega⟩ (by omega) (.nil hend)⟩

/-- The loop accepts only if one of the cursors comes to the end. -/
lemma chain_of_acyclicLoop {Q : Prop} {n slow fast : ℕ}
    (hslow : ∀ l, Chain fat limit slow l → Q) (hfast : ∀ l, Chain fat limit fast l → Q)
    (h : acyclicLoop fat limit n slow fast = true) : Q := by
  fun_induction acyclicLoop fat limit n slow fast with
  | case3 n slow fast _ hs => exact (exists_chain_of_chainStep hs).elim hslow
  | case5 n slow fast _ _ _ hf => exact (exists_chain_of_chainStep hf).elim hfast
  | case7 n slow fast slow' hs fast' hf _ hf' =>
    obtain ⟨l, hl⟩ := exists_chain_of_chainStep hf'
    exact hfast _ (chain_of_chainStep hf hl)
  | case9 n slow fast slow' hs fast' hf fast'' hf' _ ih =>
    exact ih (fun l hl => hslow _ (chain_of_chainStep hs hl))
      (fun l hl => hfast _ (chain_of_chainStep hf (chain_of_chainStep hf' hl))) h
  | _ => cases h

/-- Along a chain the fast cursor stays ahead of the slow one, so they do not meet. -/
lemma acyclicLoop_of_chain {n slow fast : ℕ} (hslow : Chain fat limit slow l)
    (hfast : Chain fat limit fast l') (hle : l'.length ≤ l.length) (hne : l' ≠ [])
    (hn : l.length ≤ n) :
    acyclicLoop fat limit n slow fast = true := by
  induction n generalizing slow fast l l' with
  | zero => exact absurd (length_eq_zero_iff.1 (by omega)) hne
  | succ n ih =>
    obtain _ | @⟨y, l', hy, hylt, hfast⟩ := hfast
    · exact absurd rfl hne
    obtain _ | @⟨x, l, hx, hxlt, hslow⟩ := hslow
    · exact absurd hle (by simp)
    simp only [length_cons] at hle hn
    rw [acyclicLoop, chainStep_of_cons (.cons hx hxlt hslow)]
    rcases eq_or_ne l [] with rfl | hl
    · rfl
    rw [decide_eq_false hl, chainStep_of_cons (.cons hy hylt hfast)]
    obtain _ | @⟨z, l', hz, hzlt, hfast⟩ := hfast
    · rfl
    rw [decide_eq_false (cons_ne_nil _ _)]
    dsimp only
    rw [chainStep_of_cons (.cons hz hzlt hfast)]
    rcases eq_or_ne l' [] with rfl | hl'
    · rfl
    rw [decide_eq_false hl']
    dsimp only
    simp only [length_cons] at hle
    rw [if_neg]
    · exact ih hslow hfast (by omega) hl' (by omega)
    · intro heq
      have := congrArg List.length (hslow.unique (heq ▸ hfast))
      omega

lemma chainIsAcyclic_iff (hlimit : 2 < limit) :
    chainIsAcyclic fat limit c = true ↔ ∃ l, Chain fat limit c l := by
  constructor
  · exact chain_of_acyclicLoop (fun l hl => ⟨l, hl⟩) fun l hl => ⟨l, hl⟩
  · rintro ⟨l, hl⟩
    rw [chainIsAcyclic]
    rcases eq_or_ne l [] with rfl | hne
    · obtain ⟨hend⟩ := hl
      obtain ⟨n, hn⟩ := exists_eq_succ_of_ne_zero (n := limit - 2) (by omega)
      rw [hn, acyclicLoop, chainStep, if_pos hend]
    · exact acyclicLoop_of_chain hl hl le_rfl hne hl.length_le

/-! ## The entries -/

lemma Volume.free_fat1 (v : Volume) (c : ℕ) :
    (v.free c).fat1 = update v.fat1 c (v.fat1 c / 2 ^ 28 * 2 ^ 28) := by
  have hwrite : (v.writeFatEntry c 0).fat1 =
      update v.fat1 c (v.fat1 c / 2 ^ 28 * 2 ^ 28) := by simp [Volume.writeFatEntry]
  rw [← hwrite, Volume.free]
  split <;> rfl

lemma Volume.free_fat2 (v : Volume) (c j : ℕ) :
    (v.free c).fat2 j = if j / 128 = c / 128 then (v.free c).fat1 j else v.fat2 j := by
  rw [Volume.free]
  split <;> rfl

lemma Volume.free_hint (v : Volume) (c : ℕ) : (v.free c).nextFreeHint = min v.nextFreeHint c := by
  rw [Volume.free]
  split
  next h => exact (min_eq_right (le_of_lt h)).symm
  next h => exact (min_eq_left (not_lt.1 h)).symm

/-- Clearing entries does not lead the walk astray: the rest of the chain is still there. -/
lemma freeLoop_eq {n : ℕ} (h : Chain v.readEntry limit c l) (hn : l.length ≤ n) :
    freeLoop n v c = l.foldl Volume.free v := by
  induction n generalizing v c l with
  | zero =>
    rw [length_eq_zero_iff.1 (le_zero.1 hn)]
    rfl
  | succ n ih =>
    have hnd := h.nodup
    cases h with
    | nil hend => rw [freeLoop, if_neg (not_data_of_le hend), foldl_nil]
    | cons hc _ hl =>
      rw [freeLoop, if_pos hc, foldl_cons]
      dsimp only
      split
      next hend => rw [hl.unique (.nil hend), foldl_nil]
      next hend =>
        refine ih (hl.congr fun y hy => ?_) (le_of_succ_le_succ hn)
        have hne : y ≠ c := fun he => (nodup_cons.1 hnd).1 (he ▸ hy)
        rw [Volume.readEntry, Volume.free_fat1, update_of_ne hne, Volume.readEntry]

lemma foldl_free_fat1 (l : List ℕ) (v : Volume) (j : ℕ) :
    (l.foldl Volume.free v).fat1 j = if j ∈ l then v.fat1 j / 2 ^ 28 * 2 ^ 28 else v.fat1 j := by
  induction l generalizing v with
  | nil => rfl
  | cons c l ih =>
    rw [foldl_cons, ih, Volume.free_fat1, update_apply]
    by_cases hj : j = c
    · subst hj
      simp
    · simp [hj]

lemma foldl_free_fat2 (l : List ℕ) (v : Volume) (j : ℕ) :
    (l.foldl Volume.free v).fat2 j =
      if ∃ c ∈ l, j / 128 = c / 128 then (l.foldl Volume.free v).fat1 j else v.fat2 j := by
  induction l generalizing v with
  | nil => simp
  | cons c l ih =>
    rw [foldl_cons, ih, Volume.free_fat2]
    by_cases hl : ∃ d ∈ l, j / 128 = d / 128
    · simp [hl]
    · -- the sector is written once, and then nothing in it changes
      have hj : j ∉ l := fun hj => hl ⟨j, hj, rfl⟩
      rw [foldl_free_fat1, if_neg hj]
      simp [hl]

lemma foldl_free_hint (l : List ℕ) (v : Volume) :
    (l.foldl Volume.free v).nextFreeHint = l.foldl min v.nextFreeHint := by
  induction l generalizing v with
  | nil => rfl
  | cons c l ih => rw [foldl_cons, ih, Volume.free_hint, foldl_cons]

lemma freeChain_of_chain (h : Chain v.readEntry v.clusterLimit c l) :
    freeChain v c = l.foldl Volume.free v := by
  obtain hend | ⟨hc, hlt, hl⟩ := h
  · rw [freeChain, if_pos (not_data_of_le hend), foldl_nil]
  · have h := Chain.cons hc hlt hl
    have hlimit : 2 < v.clusterLimit := lt_of_le_of_lt hc.1 hlt
    rw [freeChain, if_neg (not_not.2 hc), if_neg, freeLoop_eq h h.length_le]
    rw [(chainIsAcyclic_iff hlimit).2 ⟨_, h⟩]
    simp [hlimit]

lemma freeChain_of_no_chain (h : ¬ ∃ l, Chain v.readEntry v.clusterLimit c l) : freeChain v c =
    v := by
  rw [freeChain]
  split
  · rfl
  split
  · rfl
  next hguard =>
    obtain ⟨hlimit, hacyclic⟩ := not_or.1 hguard
    exact absurd ((chainIsAcyclic_iff (not_le.1 hlimit)).1 (not_not.1 hacyclic)) h

/-- For every content of the FAT and every start: the guard accepts exactly the starts from which
the entries stay in the volume and come to an end. From such a start the low 28 bits of the chain's
entries, and nothing else, are cleared in the first copy, the sectors of the second copy that hold
such an entry become those of the first, and the hint is the least of the freed clusters and what it
was. From any other start nothing changes. -/
theorem freeChain_spec (v : Volume) (start : ℕ) :
    (∀ limit, 2 < limit → (chainIsAcyclic v.readEntry limit start = true ↔
      ∃ l, Chain v.readEntry limit start l)) ∧
    (∀ l, Chain v.readEntry v.clusterLimit start l →
      (∀ j, (freeChain v start).fat1 j =
        if j ∈ l then v.fat1 j / 2 ^ 28 * 2 ^ 28 else v.fat1 j) ∧
      (∀ j, (freeChain v start).fat2 j =
        if ∃ c ∈ l, j / 128 = c / 128 then (freeChain v start).fat1 j else v.fat2 j) ∧
      (freeChain v start).nextFreeHint = l.foldl min v.nextFreeHint) ∧
    ((¬ ∃ l, Chain v.readEntry v.clusterLimit start l) → freeChain v start = v) := by
  refine ⟨fun limit hlimit => chainIsAcyclic_iff hlimit, fun l hl => ?_, freeChain_of_no_chain⟩
  rw [freeChain_of_chain hl]
  exact ⟨foldl_free_fat1 l v, foldl_free_fat2 l v, foldl_free_hint l v⟩

/-- A volume whose copies differ: cluster 5 is a chain of its own, cluster 6 is in use in the first
copy and free in the second. -/
def twoCopies : Volume where
  fat1 := fun j => if j = 5 then 0x0FFFFFFF else if j = 6 then 7 else 0
  fat2 := fun j => if j = 5 then 0x0FFFFFFF else 0
  spf32 := 1
  totalDataClusters := 100
  nextFreeHint := 8

/-- Freeing the chain of cluster 5 changes the entry of cluster 6 in the second copy. -/
theorem freeChain_second_copy :
    Chain twoCopies.readEntry twoCopies.clusterLimit 5 [5] ∧
      twoCopies.fat2 6 = 0 ∧ (freeChain twoCopies 5).fat2 6 = 7 := by
  exact ⟨.cons (by decide) (by decide) (.nil (by decide)), rfl, by decide⟩

end XosKernel.Fat
