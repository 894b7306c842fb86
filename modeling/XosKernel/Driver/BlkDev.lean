/-
# Block devices and partitions

`block_scan_mbr`, `block_read`, `block_write`, `partition_read` and `partition_write`
(`kernel/driver/blk_dev.c`).

The numbers of the device and of the callers are machine words; sums are computed in 64 bits. A
device command is a call of `ops->read` or `ops->write`; what the device answers to the `n`-th
command of a call is a parameter, and so are the bytes of the first sector. The statistics are left
out.

Commands are described by `Tiles`: they follow each other without a gap or an overlap, each within
the size that the device takes at once, and each with the part of the buffer that belongs to its
sectors.
-/
import XosKernel.Lib.Bytes
import XosKernel.Lib.Run
import XosKernel.Mem.Layout

namespace XosKernel.BlkDev

open List Option Nat

/-- `EFAULT`, `EINVAL` and `EOPNOTSUPP`. -/
def efault : ℤ := 14
def einval : ℤ := 22
def eopnotsupp : ℤ := 95

def blockMaxPartitions : ℕ := 4

/-- `struct block_partition`; `bdev` says whether the pointer to the device is set. -/
structure Partition where
  bdev : Bool
  startSector : UInt64
  sectorCount : UInt64
  mbrType : ℕ
  index : ℕ
  openers : ℕ
  mounted : Bool
deriving DecidableEq

/-- The sector after the last one. -/
def Partition.stop (p : Partition) : ℕ := p.startSector.toNat + p.sectorCount.toNat

/-- An entry of a zeroed table. -/
def Partition.zero : Partition := ⟨false, 0, 0, 0, 0, 0, false⟩

/-- `struct block_device`; `ops` and `write` say whether these pointers are set. -/
structure Device where
  ops : Bool
  write : Bool
  sectors : UInt64
  logicalSectorSize : UInt32
  maxSectorsPerIo : UInt32
  partitions : List Partition
  partitionCount : ℕ
  partitionsScanned : Bool
  partitionScanResult : ℤ
deriving DecidableEq

/-- A device before the first scan. -/
def Device.fresh (ops write : Bool) (sectors : UInt64) (size maxIo : UInt32) : Device where
  ops := ops
  write := write
  sectors := sectors
  logicalSectorSize := size
  maxSectorsPerIo := maxIo
  partitions := replicate blockMaxPartitions .zero
  partitionCount := 0
  partitionsScanned := false
  partitionScanResult := 0

/-- A device command, with the place in the caller's buffer. -/
structure Command where
  write : Bool
  sector : ℕ
  count : ℕ
  cursor : ℕ
deriving DecidableEq

/-! ## Reading and writing -/

def isPowerOfTwo (value : ℕ) : Bool := value != 0 && value &&& (value - 1) == 0

/-- `block_validate_range`; `0` is success. -/
def blockValidateRange (d : Device) (sector count : ℕ) (buf : Bool) : ℤ :=
  if !d.ops || !buf then (if !buf then -efault else -einval)
  else if count = 0 ∨ d.sectors = 0 ∨ !isPowerOfTwo d.logicalSectorSize.toNat ∨ d.maxSectorsPerIo =
    0 then -einval
  else if sector ≥ d.sectors.toNat ∨ count > u64Sub d.sectors.toNat sector then -einval
  else 0

/-- The loop of `block_read` and `block_write`: `remaining` sectors from `sector` on, of which the
next command is the `n`-th. `fuel` bounds the number of turns; every turn takes at least one sector.
-/
def blockLoop (write : Bool) (d : Device) (answer : ℕ → ℤ) : (fuel n sector remaining cursor : ℕ) →
    ℤ × List Command
  | 0, _, _, _, _ => (0, [])
  | fuel + 1, n, sector, remaining, cursor =>
    if remaining = 0 then (0, [])
    else
      let chunk := if remaining > d.maxSectorsPerIo.toNat then d.maxSectorsPerIo.toNat else
        remaining
      let command : Command := ⟨write, sector, chunk, cursor⟩
      if answer n ≠ 0 then (answer n, [command])
      else
        let rest := blockLoop write d answer fuel (n + 1) (u64 (sector + chunk)) (remaining - chunk)
          (cursor + chunk * d.logicalSectorSize.toNat)
        (rest.1, command :: rest.2)

def blockRead (d : Device) (sector count : ℕ) (buf : Bool) (answer : ℕ → ℤ) : ℤ × List Command :=
  if blockValidateRange d sector count buf ≠ 0 then (blockValidateRange d sector count buf, [])
  else blockLoop false d answer count 0 sector count 0

def blockWrite (d : Device) (sector count : ℕ) (buf : Bool) (answer : ℕ → ℤ) : ℤ × List Command :=
  if blockValidateRange d sector count buf ≠ 0 then (blockValidateRange d sector count buf, [])
  else if !d.write then (-eopnotsupp, [])
  else blockLoop true d answer count 0 sector count 0

def partitionTranslate (part : Option Partition) (sector count : ℕ) : Option ℕ :=
  match part with
  | none => none
  | some p =>
    if !p.bdev ∨ count = 0 ∨ sector ≥ p.sectorCount.toNat ∨ count > u64Sub p.sectorCount.toNat
      sector then none
    else if p.startSector.toNat > u64Sub (2 ^ 64 - 1) sector then none
    else some (u64 (p.startSector.toNat + sector))

/-- `partition_read` and `partition_write` up to the function of the device they call. -/
def partitionIo (io : ℕ → ℕ → Bool → (ℕ → ℤ) → ℤ × List Command) (part : Option Partition)
    (sector : UInt64) (count : UInt32) (buf : Bool) (answer : ℕ → ℤ) : ℤ × List Command :=
  if !buf then (-efault, [])
  else
    match partitionTranslate part sector.toNat count.toNat with
    | none => (-einval, [])
    | some absolute => io absolute count.toNat buf answer

def partitionRead (d : Device) := partitionIo (blockRead d)

def partitionWrite (d : Device) := partitionIo (blockWrite d)

/-! ## The partition table -/

def getLe32 (sector : ℕ → UInt8) (a : ℕ) : ℕ := Bytes.readLE (fun i => (sector i).toNat) 4 a

def unsupportedPartitionType (type : ℕ) : Bool := type == 0x05 || type == 0x0f || type ==
    0x85 || type == 0xee

def overlapsParsed (parsed : List Partition) (start stop : ℕ) : Bool :=
  parsed.any fun p => p.bdev && decide (start < p.stop ∧ p.startSector.toNat < stop)

/-- The turn for table entry `i`: `none` for an invalid table, `some none` for an empty entry. -/
def parseEntry (sectors : ℕ) (sector : ℕ → UInt8) (parsed : List Partition) (i : ℕ) :
    Option (Option Partition) :=
  let entry := 0x1be + i * 16
  let type := (sector (entry + 4)).toNat
  let start := getLe32 sector (entry + 8)
  let count := getLe32 sector (entry + 12)
  if type = 0 ∧ start = 0 ∧ count = 0 then some none
  else if type = 0 ∨ start = 0 ∨ count = 0 ∨ unsupportedPartitionType type ∨ start ≥ sectors ∨
      count > u64Sub sectors start then none
  else if overlapsParsed parsed start (u64 (start + count)) then none
  else some (some ⟨true, .ofNat start, .ofNat count, type, i + 1, 0, false⟩)

/-- The loop of `block_scan_mbr` over the entries `is`, with `parsed` and `found`. -/
def scanLoop (sectors : ℕ) (sector : ℕ → UInt8) : List ℕ → List Partition → ℕ →
    Option (List Partition × ℕ)
  | [], parsed, found => some (parsed, found)
  | i :: is, parsed, found =>
    match parseEntry sectors sector parsed i with
    | none => none
    | some none => scanLoop sectors sector is parsed found
    | some (some p) => scanLoop sectors sector is (parsed.set i p) (found + 1)

/-- The part of `block_scan_mbr` that finds out the result, with the table if there is one. -/
def scanTable (d : Device) (sector : ℕ → UInt8) (answer : ℕ → ℤ) :
    ℤ × Option (List Partition × ℕ) :=
  if d.logicalSectorSize < 512 ∨ d.logicalSectorSize > 4096 then (-einval, none)
  else if (blockRead d 0 1 true answer).1 ≠ 0 then ((blockRead d 0 1 true answer).1, none)
  else if sector 510 ≠ 0x55 ∨ sector 511 ≠ 0xaa then (-einval, none)
  else
    match scanLoop d.sectors.toNat sector (range blockMaxPartitions)
        (replicate blockMaxPartitions .zero) 0 with
    | none => (-einval, none)
    | some (parsed, found) => if found = 0 then (-einval, none) else (0, some (parsed, found))

/-- `block_scan_mbr`; `sector` is what the read of the first sector brings. -/
def blockScanMbr (d : Device) (sector : ℕ → UInt8) (answer : ℕ → ℤ) : ℤ × Device :=
  if d.partitionsScanned then (d.partitionScanResult, d)
  else
    match scanTable d sector answer with
    | (rc, none) => (rc, { d with partitionScanResult := rc, partitionsScanned := true })
    | (rc, some (parsed, found)) =>
      (rc, { d with
        partitions := parsed
        partitionCount := found
        partitionScanResult := rc
        partitionsScanned := true })

/-! ## What a call issues -/

/-- The commands take the sectors from `sector` up to `stop` in order, at most `maxIo` at a time,
and the bytes of the buffer from `cursor` on. -/
inductive Tiles (write : Bool) (maxIo size : ℕ) : List Command → (sector cursor stop : ℕ) → Prop
  | nil {sector cursor : ℕ} : Tiles write maxIo size [] sector cursor sector
  | cons {rest : List Command} {sector cursor count stop : ℕ} : 0 < count → count ≤ maxIo →
      Tiles write maxIo size rest (sector + count) (cursor + count * size) stop →
      Tiles write maxIo size (⟨write, sector, count, cursor⟩ :: rest) sector cursor stop

/-- A call was served: its commands take the `count` sectors from `sector` on, all of them if it
succeeds. If it fails, the device failed the last command, and what was issued takes the first
sectors of the range. -/
structure Served (write : Bool) (d : Device) (answer : ℕ → ℤ) (sector count : ℕ)
    (r : ℤ × List Command) : Prop where
  tiles : ∃ stop ≤ sector + count,
    Tiles write d.maxSectorsPerIo.toNat d.logicalSectorSize.toNat r.2 sector 0 stop ∧
      (r.1 = 0 → stop = sector + count)
  failed : r.1 ≠ 0 → r.2 ≠ [] ∧ r.1 = answer (r.2.length - 1)

variable {d : Device} {answer : ℕ → ℤ} {write : Bool}

lemma blockLoop_spec (write : Bool) (answer : ℕ → ℤ) (hmax : 0 < d.maxSectorsPerIo.toNat) :
    ∀ fuel n sector remaining cursor : ℕ,
    remaining ≤ fuel → sector + remaining < 2 ^ 64 →
    let r := blockLoop write d answer fuel n sector remaining cursor
    (∃ stop ≤ sector + remaining,
      Tiles write d.maxSectorsPerIo.toNat d.logicalSectorSize.toNat r.2 sector cursor stop ∧
        (r.1 = 0 → stop = sector + remaining)) ∧
      (r.1 ≠ 0 → r.2 ≠ [] ∧ r.1 = answer (n + (r.2.length - 1))) := by
  intro fuel
  induction fuel with
  | zero =>
    intro n sector remaining cursor hfuel _
    obtain rfl := le_zero.1 hfuel
    exact ⟨⟨sector, le_rfl, .nil, fun _ => rfl⟩, fun h => absurd rfl h⟩
  | succ fuel ih =>
    intro n sector remaining cursor hfuel hlt
    rw [blockLoop]
    split
    next hzero =>
      exact ⟨⟨sector, by omega, .nil, fun _ => by omega⟩, fun h => absurd rfl h⟩
    next hzero =>
    -- the next command takes `chunk` sectors
    generalize hchunk : (if remaining > d.maxSectorsPerIo.toNat then d.maxSectorsPerIo.toNat else
      remaining) = chunk
    have hpos : 0 < chunk ∧ chunk ≤ d.maxSectorsPerIo.toNat ∧ chunk ≤ remaining := by
      split_ifs at hchunk <;> omega
    by_cases hfail : answer n ≠ 0
    · rw [if_pos hfail]
      exact ⟨⟨sector + chunk, by omega, .cons hpos.1 hpos.2.1 .nil, fun h => absurd h hfail⟩,
        fun _ => ⟨cons_ne_nil _ _, rfl⟩⟩
    rw [if_neg hfail, u64_of_lt (by omega)]
    obtain ⟨⟨stop, hstop, htiles, hall⟩, hlast⟩ := ih (n + 1) (sector + chunk) (remaining - chunk)
      (cursor + chunk * d.logicalSectorSize.toNat) (by omega) (by omega)
    refine ⟨⟨stop, by omega, .cons hpos.1 hpos.2.1 htiles, fun h => ?_⟩, fun h =>
      ⟨cons_ne_nil _ _, ?_⟩⟩
    · have := hall h
      omega
    · obtain ⟨hne, hrc⟩ := hlast h
      have hlen := length_pos_iff.2 hne
      rw [hrc, length_cons]
      congr 1
      omega

lemma of_blockValidateRange {sector count : ℕ} {buf : Bool}
    (h : blockValidateRange d sector count buf = 0) :
    0 < count ∧ 0 < d.maxSectorsPerIo.toNat ∧ sector + count ≤ d.sectors.toNat := by
  have hsectors := d.sectors.toNat_lt
  revert h
  fun_cases blockValidateRange d sector count buf with
  | case5 _ hbad hrange =>
    intro
    push Not at hbad hrange
    rw [u64Sub_of_le hsectors hrange.1.le] at hrange
    refine ⟨pos_of_ne_zero hbad.1, pos_of_ne_zero fun hz => hbad.2.2.2 ?_, by omega⟩
    exact UInt32.toNat_inj.1 hz
  | _ => exact fun h => absurd h (by decide)

lemma served_blockLoop {sector count : ℕ} {buf : Bool} (h : blockValidateRange d sector count buf =
    0) : Served write d answer sector count (blockLoop write d answer count 0 sector count 0) := by
  obtain ⟨-, hmax, hrange⟩ := of_blockValidateRange h
  have hsectors := d.sectors.toNat_lt
  obtain ⟨htiles, hfailed⟩ := blockLoop_spec write answer hmax count 0 sector count 0 le_rfl
    (by omega)
  exact ⟨htiles, fun hne => by simpa using hfailed hne⟩

/-- A partition passes a call on to a range of its own, and the sum does not wrap around. -/
lemma of_partitionTranslate {part : Option Partition} {sector : UInt64} {count : UInt32}
    {absolute : ℕ} (h : partitionTranslate part sector.toNat count.toNat = some absolute) :
    ∃ p, part = some p ∧ absolute = p.startSector.toNat + sector.toNat ∧
      sector.toNat + count.toNat ≤ p.sectorCount.toNat := by
  revert h
  fun_cases partitionTranslate part sector.toNat count.toNat with
  | case4 p hbad hwrap =>
    intro h
    have hcount := p.sectorCount.toNat_lt
    push Not at hbad hwrap
    rw [u64Sub_of_le (by omega) (by omega)] at hwrap
    rw [u64Sub_of_le hcount hbad.2.2.1.le, u64_of_lt (by omega)] at *
    exact ⟨p, rfl, (some.inj h).symm, by omega⟩
  | _ => exact nofun

/-- A call for a partition fails without a command, or serves the range shifted to the start of the
partition. -/
def FailsOrServes (write : Bool) (d : Device) (answer : ℕ → ℤ) (part : Option Partition)
    (sector : UInt64) (count : UInt32) (r : ℤ × List Command) : Prop :=
  (r.1 ≠ 0 ∧ r.2 = []) ∨ ∃ p, part = some p ∧ sector.toNat + count.toNat ≤ p.sectorCount.toNat ∧
    Served write d answer (p.startSector.toNat + sector.toNat) count.toNat r

lemma partitionIo_spec {io : ℕ → ℕ → Bool → (ℕ → ℤ) → ℤ × List Command}
    (hio : ∀ a n buf, ((io a n buf answer).1 ≠ 0 ∧ (io a n buf answer).2 = []) ∨
      Served write d answer a n (io a n buf answer))
    (part : Option Partition) (sector : UInt64) (count : UInt32) (buf : Bool) :
    FailsOrServes write d answer part sector count
    (partitionIo io part sector count buf answer) := by
  rw [partitionIo]
  split
  · exact .inl ⟨by decide, rfl⟩
  cases ht : partitionTranslate part sector.toNat count.toNat with
  | none => exact .inl ⟨(by decide : -einval ≠ 0), rfl⟩
  | some absolute =>
    obtain ⟨p, rfl, rfl, hrange⟩ := of_partitionTranslate ht
    rcases hio (p.startSector.toNat + sector.toNat) count.toNat buf with h | h
    · exact .inl h
    · exact .inr ⟨p, rfl, hrange, h⟩

lemma blockRead_spec (d : Device) (answer : ℕ → ℤ) (a n : ℕ) (buf : Bool) :
    ((blockRead d a n buf answer).1 ≠ 0 ∧ (blockRead d a n buf answer).2 = []) ∨
      Served false d answer a n (blockRead d a n buf answer) := by
  fun_cases blockRead d a n buf answer with
  | case1 hv => exact .inl ⟨hv, rfl⟩
  | case2 hv => exact .inr (served_blockLoop (not_not.1 hv))

lemma blockWrite_spec (d : Device) (answer : ℕ → ℤ) (a n : ℕ) (buf : Bool) :
    ((blockWrite d a n buf answer).1 ≠ 0 ∧ (blockWrite d a n buf answer).2 = []) ∨
      Served true d answer a n (blockWrite d a n buf answer) := by
  fun_cases blockWrite d a n buf answer with
  | case1 hv => exact .inl ⟨hv, rfl⟩
  | case2 => exact .inl ⟨(by decide : -eopnotsupp ≠ 0), rfl⟩
  | case3 hv => exact .inr (served_blockLoop (not_not.1 hv))

/-! ## What a scan records -/

/-- Two recorded partitions share no sector. -/
def Apart (p q : Partition) : Prop :=
  p.bdev = true → q.bdev = true → p.stop ≤ q.startSector.toNat ∨ q.stop ≤ p.startSector.toNat

/-- The recorded entries of a table for a device of `sectors` sectors. -/
structure Table (sectors : ℕ) (parts : List Partition) : Prop where
  inside : ∀ p ∈ parts, p.bdev = true → 0 < p.sectorCount.toNat ∧ 0 < p.startSector.toNat ∧
  p.stop ≤ sectors
  apart : ∀ (i j : ℕ) (p q : Partition), i ≠ j → parts[i]? = some p → parts[j]? = some q → Apart p q

lemma table_zero (sectors : ℕ) : Table sectors (replicate blockMaxPartitions .zero) where
  inside p hp hb := by
    rw [eq_of_mem_replicate hp] at hb
    exact nomatch hb
  apart i j p q _ hp _ hb := by
    rw [eq_of_mem_replicate (mem_of_getElem? hp)] at hb
    exact nomatch hb

variable {sectors : ℕ} {sector : ℕ → UInt8} {parsed : List Partition} {i : ℕ} {p : Partition}

lemma getLe32_lt (sector : ℕ → UInt8) (a : ℕ) : getLe32 sector a < 2 ^ 32 := by
  have hbyte : ∀ i, (sector i).toNat < 256 := fun i => (sector i).toNat_lt
  have h0 := hbyte a
  have h1 := hbyte (a + 1)
  have h2 := hbyte (a + 1 + 1)
  have h3 := hbyte (a + 1 + 1 + 1)
  simp only [getLe32, Bytes.readLE]
  omega

lemma of_parseEntry (hsectors : sectors < 2 ^ 64) (h : parseEntry sectors sector parsed i =
    some (some p)) :
    p.bdev = true ∧ (0 < p.sectorCount.toNat ∧ 0 < p.startSector.toNat ∧ p.stop ≤ sectors) ∧
      ∀ q ∈ parsed, Apart p q := by
  have hstart := getLe32_lt sector (0x1be + i * 16 + 8)
  have hcount := getLe32_lt sector (0x1be + i * 16 + 12)
  simp only [parseEntry] at h
  revert h hstart hcount
  generalize getLe32 sector (0x1be + i * 16 + 8) = start
  generalize getLe32 sector (0x1be + i * 16 + 12) = count
  intro h hstart hcount
  split_ifs at h with hempty hbad hover
  · exact nomatch h
  · obtain rfl := some.inj (some.inj h)
    push Not at hbad
    obtain ⟨-, hs, hc, -, hlt, hle⟩ := hbad
    rw [u64Sub_of_le hsectors hlt.le] at hle
    have hs' : (UInt64.ofNat start).toNat = start :=
      UInt64.toNat_ofNat_of_lt (hstart.trans (by decide))
    have hc' : (UInt64.ofNat count).toNat = count :=
      UInt64.toNat_ofNat_of_lt (hcount.trans (by decide))
    rw [u64_of_lt (by omega)] at hover
    refine ⟨rfl, ?_, fun q hq _ hqb => ?_⟩
    · simp only [Partition.stop, hs', hc']
      omega
    · have hno := any_eq_false.1 (Bool.eq_false_iff.2 hover) q hq
      simp only [hqb, Bool.true_and, decide_eq_true_eq] at hno
      simp only [Partition.stop, hs', hc'] at hno ⊢
      omega

lemma Table.set (h : Table sectors parsed) (hb : 0 < p.sectorCount.toNat ∧ 0 < p.startSector.toNat ∧
    p.stop ≤ sectors) (hp : ∀ q ∈ parsed, Apart p q) : Table sectors (parsed.set i p) where
  inside q hq hqb := by
    rcases mem_or_eq_of_mem_set hq with hq | rfl
    · exact h.inside q hq hqb
    · exact hb
  apart j k q r hjk hq hr := by
    -- one of the two may be the new entry
    by_cases hj : i = j
    · subst hj
      rw [getElem?_set_ne hjk] at hr
      rw [getElem?_set_self'] at hq
      obtain ⟨-, -, rfl⟩ := map_eq_some_iff.1 hq
      exact hp r (mem_of_getElem? hr)
    rw [getElem?_set_ne hj] at hq
    by_cases hk : i = k
    · subst hk
      rw [getElem?_set_self'] at hr
      obtain ⟨-, -, rfl⟩ := map_eq_some_iff.1 hr
      exact fun hqb hpb => (hp q (mem_of_getElem? hq) hpb hqb).symm
    · rw [getElem?_set_ne hk] at hr
      exact h.apart j k q r hjk hq hr

/-- The loop keeps the table sound, and `found` counts what it stores. -/
lemma scanLoop_spec (hsectors : sectors < 2 ^ 64) : ∀ (is : List ℕ) (parsed : List Partition)
    (found : ℕ)
    {parts : List Partition} {n : ℕ}, (∀ i ∈ is, i < parsed.length) → Table sectors parsed →
    (0 < found → ∃ p ∈ parsed, p.bdev = true) →
    scanLoop sectors sector is parsed found = some (parts, n) →
    Table sectors parts ∧ (0 < n → ∃ p ∈ parts, p.bdev = true) := by
  intro is
  induction is with
  | nil =>
    intro parsed found parts n _ htable hfound h
    obtain ⟨rfl, rfl⟩ := Prod.mk.inj (some.inj h)
    exact ⟨htable, hfound⟩
  | cons i is ih =>
    intro parsed found parts n his htable hfound h
    obtain ⟨hi, his⟩ := forall_mem_cons.1 his
    rw [scanLoop] at h
    cases hp : parseEntry sectors sector parsed i with
    | none => simp [hp] at h
    | some o =>
      cases o with
      | none =>
        simp only [hp] at h
        exact ih parsed found his htable hfound h
      | some p =>
        simp only [hp] at h
        obtain ⟨hbdev, hb, hapart⟩ := of_parseEntry hsectors hp
        refine ih (parsed.set i p) (found + 1) (by simpa using his) (htable.set hb hapart)
          (fun _ => ?_) h
        exact ⟨p, mem_set hi p, hbdev⟩

/-- What a successful scan records. -/
structure Recorded (d : Device) : Prop where
  table : Table d.sectors.toNat d.partitions
  some : ∃ p ∈ d.partitions, p.bdev = true

/-- A scan that fails has no table, one that succeeds a sound one. -/
lemma scanTable_spec (d : Device) (sector : ℕ → UInt8) (answer : ℕ → ℤ) :
    ((scanTable d sector answer).1 ≠ 0 ∧ (scanTable d sector answer).2 = none) ∨
      ∃ parts n, scanTable d sector answer = (0, some (parts, n)) ∧ Table d.sectors.toNat parts ∧
        ∃ p ∈ parts, p.bdev = true := by
  fun_cases scanTable d sector answer with
  | case2 _ hread => exact .inl ⟨hread, rfl⟩
  | case6 _ _ _ parts n hloop hn =>
    obtain ⟨htable, hsome⟩ := scanLoop_spec d.sectors.toNat_lt _ _ _ (by simp) (table_zero _)
      (fun h => absurd h (lt_irrefl 0)) hloop
    exact .inr ⟨parts, n, rfl, htable, hsome (pos_of_ne_zero hn)⟩
  | _ => exact .inl ⟨(by decide : -einval ≠ 0), rfl⟩

/-- A call of `block_scan_mbr`: the bytes of the first sector and the answers of the device. -/
def step (d : Device) (call : (ℕ → UInt8) × (ℕ → ℤ)) : Option Device :=
    some (blockScanMbr d call.1 call.2).2

/-- A device that has been scanned with success has a sound table. -/
def Inv (d : Device) : Prop := d.partitionsScanned = true → d.partitionScanResult = 0 → Recorded d

/-- A scan keeps the invariant; if it returns `0` the table is sound, and else it is what it was. -/
lemma blockScanMbr_spec (h : Inv d) (sector : ℕ → UInt8) (answer : ℕ → ℤ) :
    Inv (blockScanMbr d sector answer).2 ∧
      ((blockScanMbr d sector answer).1 = 0 → Recorded (blockScanMbr d sector answer).2) ∧
      ((blockScanMbr d sector answer).1 ≠ 0 → (blockScanMbr d sector answer).2.partitions =
      d.partitions) := by
  rw [blockScanMbr]
  split
  next hdone =>
    exact ⟨h, h hdone, fun _ => rfl⟩
  rcases scanTable_spec d sector answer with ⟨hrc, hnone⟩ | ⟨parts, n, heq, htable, hsome⟩
  · rcases hscan : scanTable d sector answer with ⟨rc, o⟩
    rw [hscan] at hrc hnone
    obtain rfl : o = none := hnone
    exact ⟨fun _ hz => absurd hz hrc, fun hz => absurd hz hrc, fun _ => rfl⟩
  · rw [heq]
    exact ⟨fun _ _ => ⟨htable, hsome⟩, fun _ => ⟨htable, hsome⟩, fun hz => absurd rfl hz⟩

/-- The isolation of partitions: what scans of a new device record, and what a call for a partition
issues. A call either fails before it issues a command, or is served. -/
theorem partitions_isolated :
    (∀ ops write sectors size maxIo scans d,
      exec step (Device.fresh ops write sectors size maxIo) scans = some d → ∀ sector answer,
        ((blockScanMbr d sector answer).1 = 0 → Recorded (blockScanMbr d sector answer).2) ∧
        ((blockScanMbr d sector answer).1 ≠ 0 → (blockScanMbr d sector answer).2.partitions =
        d.partitions)) ∧
    ∀ d part sector count buf answer,
      FailsOrServes false d answer part sector count (partitionRead d part sector count buf answer)
      ∧
      FailsOrServes true d answer part sector count
      (partitionWrite d part sector count buf answer) := by
  refine ⟨fun ops write sectors size maxIo scans d h sector answer => ?_,
    fun d part sector count buf answer => ⟨?_, ?_⟩⟩
  · have hinv : Inv d := by
      refine exec_invariant (I := Inv) (fun d call d' hd hs => ?_) (fun hscanned =>
        absurd hscanned Bool.false_ne_true) h
      exact some.inj hs ▸ (blockScanMbr_spec hd call.1 call.2).1
    exact (blockScanMbr_spec hinv sector answer).2
  · exact partitionIo_spec (blockRead_spec d answer) part sector count buf
  · exact partitionIo_spec (blockWrite_spec d answer) part sector count buf

/-- A device of 100 sectors that takes two sectors at a time, with a partition of 50 sectors from
sector 10 on. -/
def smallDevice : Device := Device.fresh true true 100 512 2

def smallPartition : Partition := ⟨true, 10, 50, 0x83, 1, 0, false⟩

/-- The device fails the first of the two commands that four sectors take: the call fails although
it has issued a command, and its commands do not cover the range. -/
theorem failed_command_cuts_range :
    let r := partitionRead smallDevice (some smallPartition) 5 4 true (fun _ => -5)
    r.1 ≠ 0 ∧ r.2 ≠ [] ∧ ¬ Tiles false 2 512 r.2 15 0 19 := by
  refine ⟨by decide, by decide, fun h => ?_⟩
  cases h with
  | cons _ _ h => exact nomatch h

/-- One entry of type `0x83` for the sectors from 10 up to 60. -/
def smallMbr : ℕ → UInt8
  | 450 => 0x83
  | 454 => 10
  | 458 => 50
  | 510 => 0x55
  | 511 => 0xaa
  | _ => 0

theorem partitions_isolated_small :
    (blockScanMbr smallDevice smallMbr fun _ => 0).1 = 0 ∧
      Recorded (blockScanMbr smallDevice smallMbr fun _ => 0).2 ∧
      FailsOrServes false smallDevice (fun _ => 0) (some smallPartition) 5 4
        (partitionRead smallDevice (some smallPartition) 5 4 true fun _ => 0) := by
  have hscan : (blockScanMbr smallDevice smallMbr fun _ => 0).1 = 0 := by decide +kernel
  have hsmall := partitions_isolated.1 true true 100 512 2 [] smallDevice rfl smallMbr fun _ => 0
  exact ⟨hscan, hsmall.1 hscan, (partitions_isolated.2 smallDevice (some smallPartition) 5 4 true
    fun _ => 0).1⟩

end XosKernel.BlkDev
