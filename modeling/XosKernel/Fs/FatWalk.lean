/-
# The cluster chains of a FAT volume

`kernel/bsd/fat32.c`: `fat32_walk_chain` follows the FAT entries from the first cluster of a file;
`fat32_walk_chain_cached` keeps the clusters it has passed in a map of the inode, and falls back on
a cursor, the last cluster it came to together with its index, when the map cannot grow. The cached
walk returns what the plain one does, and leaves map and cursor on the chain.

What `fat32_read_entry` returns for a cluster is the parameter `fat`. Statistics are left out, and
so is the `map_lock`, under which a call runs from beginning to end.
-/
import XosKernel.Lib.Chase

namespace XosKernel.Fat

open List Option

/-- The first of the values that mark the end of a chain. -/
def endOfChain : ℕ := 0x0FFFFFF8

/-- A cluster of the data area, as far as the walks look. -/
def Data (c : ℕ) : Prop := 2 ≤ c ∧ c < endOfChain

instance : DecidablePred Data := fun _ => inferInstanceAs (Decidable (_ ∧ _))

/-- `struct fat32_inode_info`, as far as the walks use it: `clusterMap` holds the first
`cluster_map_count` entries. -/
structure Info where
  startCluster : ℕ
  walkCursor : ℕ
  clusterMap : List ℕ
  clusterMapCapacity : ℕ

variable (fat : ℕ → ℕ)

/-- The loop of `fat32_walk_chain` on turn `i`, with `left` turns to go. -/
def walkChainLoop (maxWalk : ℕ) : (left i c : ℕ) → ℕ
  | 0, _, c => c
  | left + 1, i, c =>
    if ¬ Data c then c
    else if maxWalk < i then endOfChain
    else if endOfChain ≤ fat c then fat c
    else walkChainLoop maxWalk left (i + 1) (fat c)

def walkChain (startCluster pageIndex : ℕ) : ℕ :=
  walkChainLoop fat (pageIndex * 2 + 1) pageIndex 0 startCluster

/-- The loop of `fat32_walk_chain_cursor`: what it returns, and the index and the cluster it has
reached unless the chain ends before. -/
def cursorLoop : (left curIdx c : ℕ) → ℕ × Option (ℕ × ℕ)
  | 0, curIdx, c => (c, some (curIdx, c))
  | left + 1, curIdx, c =>
    if ¬ Data c then (c, none)
    else if ¬ Data (fat c) then (fat c, none)
    else cursorLoop left (curIdx + 1) (fat c)

def Info.setCursor (info : Info) (idx c : ℕ) : Info := { info with walkCursor := idx <<< 32 ||| c }

/-- `fat32_walk_chain_cursor`. -/
def walkChainCursor (info : Info) (clusterIndex : ℕ) : ℕ × Info :=
  let curIdx := info.walkCursor / 2 ^ 32
  let c := info.walkCursor % 2 ^ 32
  let (curIdx, c) :=
    if ¬ Data c ∨ clusterIndex < curIdx then (0, info.startCluster) else (curIdx, c)
  match cursorLoop fat (clusterIndex - curIdx) curIdx c with
  | (ret, none) => (ret, info)
  | (ret, some (curIdx, c)) => (ret, if Data c then info.setCursor curIdx c else info)

/-- The loop that doubles the capacity. -/
def growCapacity (needed capacity : ℕ) : ℕ :=
  if 0 < capacity ∧ capacity < needed then
    if (2 ^ 32 - 1) / 2 < capacity then needed else growCapacity needed (capacity * 2)
  else capacity
termination_by needed - capacity

/-- The loop that extends the map by `left` entries: what is met at the end of the chain, if it is
met. -/
def extendMap : (left : ℕ) → (clusterMap : List ℕ) → Option ℕ × List ℕ
  | 0, clusterMap => (none, clusterMap)
  | left + 1, clusterMap =>
    let next := fat (clusterMap.getLastD 0)
    if ¬ Data next then (some next, clusterMap) else extendMap left (clusterMap ++ [next])

/-- The map is made large enough for `needed` entries. -/
def Info.reserve (info : Info) (needed : ℕ) : Info :=
  if info.clusterMapCapacity < needed then
    { info with
      clusterMapCapacity := growCapacity needed
        (if info.clusterMapCapacity = 0 then 256 else info.clusterMapCapacity) }
  else info

/-- The map is extended to the entry of `clusterIndex`, unless the chain ends before. -/
def Info.extend (info : Info) (clusterIndex : ℕ) : ℕ × Info :=
  if info.clusterMap = [] ∧ ¬ Data info.startCluster then (info.startCluster, info)
  else
    let clusterMap := if info.clusterMap = [] then [info.startCluster] else info.clusterMap
    match extendMap fat (clusterIndex + 1 - clusterMap.length) clusterMap with
    | (some next, clusterMap) => (next, { info with clusterMap := clusterMap })
    | (none, clusterMap) =>
      (clusterMap.getD clusterIndex 0,
        { info with clusterMap := clusterMap }.setCursor (clusterMap.length - 1)
          (clusterMap.getD (clusterMap.length - 1) 0))

/-- `fat32_walk_chain_cached`; `memory` is whether `krealloc` succeeds. -/
def walkChainCached (info : Info) (clusterIndex : ℕ) (memory : Bool) : ℕ × Info :=
  if 2 ^ 32 - 1 ≤ clusterIndex then walkChainCursor fat info clusterIndex
  else
    match info.clusterMap[clusterIndex]? with
    | some cluster => (cluster, info)
    | none =>
      if info.clusterMapCapacity < clusterIndex + 1 ∧ ¬ memory then
        walkChainCursor fat info clusterIndex
      else (info.reserve (clusterIndex + 1)).extend fat clusterIndex

/-- The map is the beginning of the chain, and a cursor that can be used is on the chain. -/
structure Info.Ok (info : Info) : Prop where
  map : ∀ i c, info.clusterMap[i]? = some c → Elem fat Data info.startCluster i c
  cursor : Data (info.walkCursor % 2 ^ 32) →
    Elem fat Data info.startCluster (info.walkCursor / 2 ^ 32) (info.walkCursor % 2 ^ 32)

variable {fat} {info : Info} {c i n start : ℕ}

/-! ## The plain walk -/

lemma not_data_of_le (h : endOfChain ≤ c) : ¬ Data c := fun hc => absurd hc.2 h.not_gt

lemma walkChainLoop_eq (maxWalk : ℕ) (hi : i + n ≤ maxWalk + 1) :
    walkChainLoop fat maxWalk n i c = chase fat Data n c := by
  fun_induction walkChainLoop fat maxWalk n i c with
  | case1 => rfl
  | case2 n i c hc => rw [chase_of_not hc]
  | case3 => omega
  | case4 n i c hc _ hend => rw [chase_succ (not_not.1 hc), chase_of_not (not_data_of_le hend)]
  | case5 n i c hc _ _ ih => rw [chase_succ (not_not.1 hc), ih (by omega)]

/-- The guard against loops never takes effect. -/
lemma walkChain_eq (start n : ℕ) : walkChain fat start n = chase fat Data n start :=
  walkChainLoop_eq _ (by omega)

/-! ## The cursor -/

lemma cursor_split (hc : Data c) : (i <<< 32 ||| c) / 2 ^ 32 = i ∧ (i <<< 32 ||| c) % 2 ^ 32 =
    c := by
  have hlt : c < 2 ^ 32 := hc.2.trans (by decide)
  rw [← Nat.shiftLeft_add_eq_or_of_lt hlt, Nat.shiftLeft_eq]
  omega

lemma Info.Ok.setCursor (h : info.Ok fat) (hc : Elem fat Data info.startCluster i c) :
    (info.setCursor i c).Ok fat := by
  refine ⟨h.map, fun _ => ?_⟩
  obtain ⟨hidx, hcluster⟩ := cursor_split (i := i) hc.holds
  simpa only [Info.setCursor, hidx, hcluster] using hc

/-- From a cluster of the chain, the loop returns what the plain walk does. -/
lemma cursorLoop_spec (h : Data c → Elem fat Data start i c) :
    (cursorLoop fat n i c).1 = chase fat Data n c ∧
      ∀ j b, (cursorLoop fat n i c).2 = some (j, b) → Data b → Elem fat Data start j b := by
  fun_induction cursorLoop fat n i c with
  | case1 i c =>
    refine ⟨rfl, fun j b hj => ?_⟩
    obtain ⟨rfl, rfl⟩ := Prod.mk.inj (some.inj hj)
    exact h
  | case2 n i c hc => exact ⟨(chase_of_not hc).symm, nofun⟩
  | case3 n i c hc hnext =>
    rw [chase_succ (not_not.1 hc), chase_of_not hnext]
    exact ⟨rfl, nofun⟩
  | case4 n i c hc hnext ih =>
    rw [chase_succ (not_not.1 hc)]
    exact ih fun hnext => ⟨c, h (not_not.1 hc), rfl, hnext⟩

lemma walkChainCursor_spec (h : info.Ok fat) (n : ℕ) :
    (walkChainCursor fat info n).1 = walkChain fat info.startCluster n ∧
      (walkChainCursor fat info n).2.Ok fat ∧
      (walkChainCursor fat info n).2.startCluster = info.startCluster := by
  -- where the walk begins, and what is left of it from there
  obtain ⟨i, c, hbegin, helem, hrest⟩ : ∃ i c,
      (if ¬ Data (info.walkCursor % 2 ^ 32) ∨ n < info.walkCursor / 2 ^ 32 then
      (0, info.startCluster)
        else (info.walkCursor / 2 ^ 32, info.walkCursor % 2 ^ 32)) = (i, c) ∧
      (Data c → Elem fat Data info.startCluster i c) ∧
      chase fat Data (n - i) c = chase fat Data n info.startCluster := by
    split
    · exact ⟨0, _, rfl, fun hc => ⟨rfl, hc⟩, rfl⟩
    · next hgood =>
      obtain ⟨hdata, hle⟩ := not_or.1 hgood
      have hcursor := h.cursor (not_not.1 hdata)
      refine ⟨_, _, rfl, fun _ => hcursor, ?_⟩
      rw [← hcursor.chase_add, Nat.add_sub_cancel' (not_lt.1 hle)]
  obtain ⟨hret, hreached⟩ := cursorLoop_spec (n := n - i) helem
  rw [walkChain_eq, ← hrest, ← hret]
  simp only [walkChainCursor, hbegin]
  generalize cursorLoop fat (n - i) i c = r at hreached ⊢
  obtain ⟨ret, _ | ⟨j, b⟩⟩ := r
  · exact ⟨rfl, h, rfl⟩
  · refine ⟨rfl, ?_⟩
    dsimp only
    split
    · next hb => exact ⟨h.setCursor (hreached j b rfl hb), rfl⟩
    · exact ⟨h, rfl⟩

/-! ## The map -/

/-- What the map has to be: the beginning of the chain, and not empty. -/
def Begins (fat : ℕ → ℕ) (start : ℕ) (l : List ℕ) : Prop :=
  l ≠ [] ∧ ∀ i c, l[i]? = some c → Elem fat Data start i c

lemma Begins.last {l : List ℕ} (h : Begins fat start l) :
    Elem fat Data start (l.length - 1) (l.getLastD 0) := by
  refine h.2 _ _ ?_
  rw [← getLast?_eq_getElem?, getLastD_eq_getLast?, getLast?_eq_some_getLast h.1]
  rfl

lemma Begins.append {l : List ℕ} (h : Begins fat start l) (hnext : Data (fat (l.getLastD 0))) :
    Begins fat start (l ++ [fat (l.getLastD 0)]) := by
  have hpos := length_pos_of_ne_nil h.1
  refine ⟨by simp, fun i c hi => ?_⟩
  rcases lt_or_ge i l.length with hlt | hge
  · exact h.2 i c (by rwa [getElem?_append_left hlt] at hi)
  · rw [getElem?_append_right hge, getElem?_singleton] at hi
    obtain ⟨hzero, hc⟩ := ite_none_right_eq_some.1 hi
    obtain rfl : i = l.length - 1 + 1 := by omega
    exact ⟨_, h.last, some.inj hc, some.inj hc ▸ hnext⟩

lemma extendMap_spec {l : List ℕ} (h : Begins fat start l) :
    Begins fat start (extendMap fat n l).2 ∧
      match extendMap fat n l with
      | (some next, _) => next = chase fat Data (l.length - 1 + n) start
      | (none, l') => l'.length = l.length + n := by
  fun_induction extendMap fat n l with
  | case1 => exact ⟨h, rfl⟩
  | case2 n l next hend =>
    refine ⟨h, ?_⟩
    rw [h.last.chase_add, chase_succ h.last.holds, chase_of_not hend]
  | case3 n l next hdata ih =>
    have hpos := length_pos_of_ne_nil h.1
    have hlen : (l ++ [next]).length = l.length + 1 := by simp
    have := ih (h.append (not_not.1 hdata))
    rwa [hlen, show l.length + 1 - 1 + n = l.length - 1 + (n + 1) by omega,
      show l.length + 1 + n = l.length + (n + 1) by omega] at this

lemma extend_spec (h : info.Ok fat) (hlen : info.clusterMap.length ≤ n) :
    (info.extend fat n).1 = walkChain fat info.startCluster n ∧ (info.extend fat n).2.Ok fat ∧
      (info.extend fat n).2.startCluster = info.startCluster := by
  rw [walkChain_eq, Info.extend]
  split
  · next hend => exact ⟨(chase_of_not hend.2).symm, h, rfl⟩
  · next hdata =>
    set l := if info.clusterMap = [] then [info.startCluster] else info.clusterMap with hl
    have hbegins : Begins fat info.startCluster l ∧ l.length ≤ n + 1 := by
      rw [hl]
      split
      next hnil =>
        have hstart : Data info.startCluster := by simpa [hnil] using hdata
        refine ⟨⟨by simp, fun i c hi => ?_⟩, by simp⟩
        obtain ⟨rfl, hc⟩ := ite_none_right_eq_some.1 (getElem?_singleton.symm.trans hi)
        exact ⟨(some.inj hc).symm, some.inj hc ▸ hstart⟩
      next hnil => exact ⟨⟨hnil, h.map⟩, by omega⟩
    obtain ⟨hbegins, hle⟩ := hbegins
    have hpos := length_pos_of_ne_nil hbegins.1
    have hspec := extendMap_spec (n := n + 1 - l.length) hbegins
    rw [show l.length - 1 + (n + 1 - l.length) = n by omega,
      show l.length + (n + 1 - l.length) = n + 1 by omega] at hspec
    dsimp only
    generalize extendMap fat (n + 1 - l.length) l = r at hspec ⊢
    obtain ⟨_ | next, l'⟩ := r
    · obtain ⟨⟨-, hl'⟩, hlen'⟩ := hspec
      have hlt : n < l'.length := Nat.lt_of_lt_of_eq (Nat.lt_succ_self n) hlen'.symm
      have hat : Elem fat Data info.startCluster n (l'.getD n 0) :=
        hl' n _ (by simp [getElem?_eq_getElem hlt])
      dsimp only at hlen' ⊢
      rw [hlen', Nat.add_sub_cancel]
      exact ⟨(hat.chase_add 0).symm, Info.Ok.setCursor ⟨hl', h.cursor⟩ hat, rfl⟩
    · exact ⟨hspec.2, ⟨hspec.1.2, h.cursor⟩, rfl⟩

/-- For every FAT, every inode whose map is the beginning of its chain and whose cursor, if it can
be used, is on the chain, and every index below `UINT32_MAX`: `fat32_walk_chain_cached` returns what
`fat32_walk_chain` returns, whether or not the map can grow, and map and cursor stay on the chain.
-/
theorem walkChainCached_refines (h : info.Ok fat) {clusterIndex : ℕ}
    (hidx : clusterIndex < 2 ^ 32 - 1) (memory : Bool) :
    (walkChainCached fat info clusterIndex memory).1 = walkChain fat info.startCluster clusterIndex
      ∧ (walkChainCached fat info clusterIndex memory).2.Ok fat ∧
      (walkChainCached fat info clusterIndex memory).2.startCluster = info.startCluster := by
  rw [walkChainCached, if_neg hidx.not_ge]
  cases hmap : info.clusterMap[clusterIndex]? with
  | some cluster =>
    refine ⟨?_, h, rfl⟩
    rw [walkChain_eq]
    exact ((h.map _ _ hmap).chase_add 0).symm
  | none =>
    have hlen := getElem?_eq_none_iff.1 hmap
    dsimp only
    split
    · exact walkChainCursor_spec h clusterIndex
    · unfold Info.reserve
      split
      · exact extend_spec ⟨h.map, h.cursor⟩ hlen
      · exact extend_spec h hlen

def twoClusters (c : ℕ) : ℕ := if c = 5 then 9 else 0x0FFFFFFF

/-- The map has the first cluster and cannot grow. -/
theorem walkChainCached_refines_two :
    (walkChainCached twoClusters ⟨5, 0, [5], 1⟩ 1 false).1 = walkChain twoClusters 5 1 := by
  refine (walkChainCached_refines ⟨fun i c hi => ?_, fun h => absurd h (by decide)⟩
    (by decide) false).1
  obtain ⟨rfl, hc⟩ := ite_none_right_eq_some.1 (getElem?_singleton.symm.trans hi)
  exact some.inj hc ▸ ⟨rfl, by decide⟩

end XosKernel.Fat
