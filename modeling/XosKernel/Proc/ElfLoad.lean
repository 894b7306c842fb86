/-
# The ELF loader

`elf_load_internal` and `map_page` (`kernel/bsd/elf_loader.c`).

An image is a string of bytes somewhere in memory; beyond its end lies whatever else is there. The
loader is executed on it with all additions of header fields wrapping as they do on 64-bit words,
and every read of the image and every page that is mapped is recorded. Whether `map_page` gets its
memory is an input. The loop over the pages of a segment has no bound of its own: it is given fuel,
and a run that uses it up has not come to an end.
-/
import XosKernel.Lib.Bytes
import XosKernel.Mem.Layout

namespace XosKernel.Elf

open List

/-- A string of bytes in memory, with the bytes at all offsets from its start: nothing lies on the
first page, and the string ends before the last address. -/
structure Image where
  addr : ℕ
  size : ℕ
  byte : ℕ → UInt8
  low : pageSize ≤ addr
  high : addr + size ≤ 2 ^ 64

def Image.field (img : Image) (n off : ℕ) : ℕ := Bytes.readLE (fun o => (img.byte (u64 o)).toNat) n
    off

/-- What the loader does to the world. -/
inductive Event
  /-- the bytes of the image that are read -/
  | read (off len : ℕ)
  /-- a page mapped, with the flags of its entry -/
  | map (vaddr pteFlags : ℕ)
deriving DecidableEq

/-- The reads lie in the image, and the pages in the part of the address space that is the user's.
-/
def Event.Ok (img : Image) : Event → Prop
  | .read off len => off + len ≤ img.size
  | .map vaddr _ => vaddr < userVmaUpperBound

/-! ## Headers -/

/-- `sizeof(Elf64_Ehdr)`, `sizeof(Elf64_Phdr)`. -/
def ehdrSize : ℕ := 64
def phdrSize : ℕ := 56

/-- `PT_LOAD`, `PT_TLS`, `PF_X`, `PF_W`. -/
def ptLoad : ℕ := 1
def ptTls : ℕ := 7
def pfX : ℕ := 1
def pfW : ℕ := 2

def Image.eEntry (img : Image) : ℕ := img.field 8 24
def Image.ePhoff (img : Image) : ℕ := img.field 8 32
def Image.ePhentsize (img : Image) : ℕ := img.field 2 54
def Image.ePhnum (img : Image) : ℕ := img.field 2 56

/-- The tests of the magic number and of the class. -/
def Image.isElf64 (img : Image) : Prop :=
  img.byte 0 = 0x7f ∧ img.byte 1 = 0x45 ∧ img.byte 2 = 0x4c ∧ img.byte 3 = 0x46 ∧ img.byte 4 = 2

instance (img : Image) : Decidable img.isElf64 := inferInstanceAs (Decidable (_ ∧ _))

/-- `i * e_phentsize` as an `int`, converted to 64 bits. -/
def intProduct (x : ℕ) : ℕ := (Int.bmod x (2 ^ 32) % 2 ^ 64).toNat

def Image.phOff (img : Image) (i : ℕ) : ℕ := u64 (img.ePhoff + intProduct (i * img.ePhentsize))

structure Phdr where
  type : ℕ
  flags : ℕ
  offset : ℕ
  vaddr : ℕ
  filesz : ℕ
  memsz : ℕ
  align : ℕ
deriving DecidableEq

def Image.phdr (img : Image) (off : ℕ) : Phdr :=
  { type := img.field 4 off
    flags := img.field 4 (off + 4)
    offset := img.field 8 (off + 8)
    vaddr := img.field 8 (off + 16)
    filesz := img.field 8 (off + 32)
    memsz := img.field 8 (off + 40)
    align := img.field 8 (off + 48) }

/-! ## Pages -/

def Phdr.firstPage (ph : Phdr) (base : ℕ) : ℕ := u64 (base + alignDown ph.vaddr)

def Phdr.lastPage (ph : Phdr) (base : ℕ) : ℕ :=
    u64 (base + alignDown (u64Sub (u64 (ph.vaddr + ph.memsz)) 1))

def Phdr.fileEnd (ph : Phdr) : ℕ := u64 (ph.offset + ph.filesz)

def Phdr.pageFileStart (ph : Phdr) (base page : ℕ) : ℕ :=
  u64 (alignDown ph.offset + u64Sub page (ph.firstPage base))

def Phdr.pageFileEnd (ph : Phdr) (base page : ℕ) : ℕ :=
  if u64 (ph.pageFileStart base page + pageSize) > ph.fileEnd then ph.fileEnd
  else u64 (ph.pageFileStart base page + pageSize)

/-- The bytes of the image that are copied to the page. -/
def Phdr.copy (ph : Phdr) (base page : ℕ) : List Event :=
  if ph.pageFileStart base page < ph.fileEnd then
    [.read (ph.pageFileStart base page) (u64Sub (ph.pageFileEnd base page)
    (ph.pageFileStart base page))]
  else []

/-- What becomes of a call of `map_page`: no memory for the page, no memory for a page table, or a
page. -/
inductive MapOutcome
  | noPage
  | noTable
  | mapped
deriving DecidableEq

/-- The flags of the page table entry: `PTE_PRESENT`, `PTE_USER`, `PTE_RW`, `PTE_NX`. -/
def pteFlags (elfFlags : ℕ) : ℕ :=
  1 ||| 4 ||| (if elfFlags &&& pfW ≠ 0 then 2 else 0) |||
  (if elfFlags &&& pfX ≠ 0 then 0 else 2 ^ 63)

inductive Status
  | next
  /-- the loader has returned -/
  | returned
  | outOfFuel
deriving DecidableEq

/-- What the loop over the pages does: its events, how it ends, and the number of calls of
`map_page` so far. -/
structure Pages where
  events : List Event
  status : Status
  calls : ℕ

/-- The fields of the header that a turn of the loop reads: `p_offset`, `p_filesz`, `p_flags`. -/
def pageFields (off : ℕ) : List Event := [.read (off + 8) 8, .read (off + 32) 8, .read (off + 4) 4]

/-- The loop over the pages of the segment whose header is at `off`, from `page` on. -/
def pageLoop (oracle : ℕ → MapOutcome) (ph : Phdr) (off base : ℕ) : ℕ → ℕ → ℕ → Pages
  | 0, _, n => ⟨[], .outOfFuel, n⟩
  | fuel + 1, page, n =>
    if page ≤ ph.lastPage base then
      match oracle n with
      | .noPage => ⟨pageFields off, .returned, n + 1⟩
      | .noTable => ⟨pageFields off ++ ph.copy base page, .returned, n + 1⟩
      | .mapped =>
        let rest := pageLoop oracle ph off base fuel (u64 (page + pageSize)) (n + 1)
        ⟨pageFields off ++ ph.copy base page ++ [.map page (pteFlags ph.flags)] ++ rest.events,
        rest.status, rest.calls⟩
    else ⟨[], .next, n⟩

/-! ## The loader -/

structure ElfLoadResult where
  entry : ℕ := 0
  success : Bool := false
  tlsTdataSize : ℕ := 0
  tlsTbssSize : ℕ := 0
  tlsAlign : ℕ := 0
  tlsTemplateOff : ℕ := 0
  phdrVaddr : ℕ := 0
  phnum : ℕ := 0
  phent : ℕ := 0
  loadBase : ℕ := 0
deriving DecidableEq

/-- A run of the loader: its events, whether it ended, and its result. -/
structure Run where
  events : List Event
  ended : Bool
  result : ElfLoadResult

def Run.after (evs : List Event) (r : Run) : Run := { r with events := evs ++ r.events }

def ElfLoadResult.tls (r : ElfLoadResult) (ph : Phdr) : ElfLoadResult :=
  { r with
    tlsTdataSize := ph.filesz
    tlsTbssSize := u64Sub ph.memsz ph.filesz
    tlsAlign := ph.align
    tlsTemplateOff := ph.offset }

/-- The result after a `PT_LOAD` header, which matters for the first one only. -/
def ElfLoadResult.phdrAddr (r : ElfLoadResult) (img : Image) (ph : Phdr) (base : ℕ) (found : Bool) :
    ElfLoadResult :=
  if found then r
  else { r with phdrVaddr := u64 (base + u64Sub (u64 (ph.vaddr + img.ePhoff)) ph.offset) }

/-- How a turn of the loop over the headers ends: with a return (or not at all), or with the number
of calls of `map_page` so far, the result and `phdr_found` for the next header. -/
inductive Turn
  | stop (ended : Bool) (r : ElfLoadResult)
  | go (n : ℕ) (r : ElfLoadResult) (found : Bool)

def loadTurn (img : Image) (base : ℕ) (ph : Phdr) (off : ℕ) (pages : Pages) (r : ElfLoadResult)
    (found : Bool) : List Event × Turn :=
  ([.read off 4, .read (off + 40) 8, .read (off + 16) 8, .read (off + 8) 8] ++ pages.events,
    match pages.status with
    | .next => .go pages.calls (r.phdrAddr img ph base found) true
    | .returned => .stop true (r.phdrAddr img ph base found)
    | .outOfFuel => .stop false (r.phdrAddr img ph base found))

/-- A turn of the loop, with what it reads and maps. -/
def phTurn (oracle : ℕ → MapOutcome) (fuel : ℕ) (img : Image) (base i n : ℕ) (r : ElfLoadResult)
    (found : Bool) : List Event × Turn :=
  if u64 (img.phOff i + phdrSize) > img.size then ([], .stop true r)
  else
    let off := img.phOff i
    let ph := img.phdr off
    if ph.type = ptTls then
      ([.read off 4, .read (off + 32) 8, .read (off + 40) 8, .read (off + 48) 8, .read (off + 8) 8],
      .go n (r.tls ph) found)
    else if ph.type ≠ ptLoad then ([.read off 4], .go n r found)
    else if ph.memsz = 0 then ([.read off 4, .read (off + 40) 8], .go n r found)
    else loadTurn img base ph off (pageLoop oracle ph off base fuel (ph.firstPage base) n) r found

def Turn.andThen (t : List Event × Turn) (rest : ℕ → ElfLoadResult → Bool → Run) : Run :=
  match t with
  | (evs, .stop ended r) => ⟨evs, ended, r⟩
  | (evs, .go n r found) => (rest n r found).after evs

/-- The loop over the program headers `is`. -/
def phLoop (oracle : ℕ → MapOutcome) (fuel : ℕ) (img : Image) (base : ℕ) : List ℕ → ℕ →
    ElfLoadResult → Bool → Run
  | [], _, r, _ => ⟨[], true, { r with success := true }⟩
  | i :: is, n, r, found =>
    Turn.andThen (phTurn oracle fuel img base i n r found) (phLoop oracle fuel img base is)

/-- `elf_load_at`; `elf_load` is the case of base `0`. -/
def elfLoadAt (oracle : ℕ → MapOutcome) (fuel : ℕ) (img : Image) (base : ℕ) : Run :=
  if img.size < ehdrSize then ⟨[], true, { loadBase := base }⟩
  else if ¬ img.isElf64 then ⟨[.read 0 5], true, { loadBase := base }⟩
  else
    (phLoop oracle fuel img base (range img.ePhnum) 0
        { loadBase := base, entry := u64 (base + img.eEntry), phnum := img.ePhnum, phent :=
          img.ePhentsize } false).after
      [.read 0 5, .read 24 8, .read 32 8, .read 54 2, .read 56 2]

/-- Loading is safe: whatever memory there is for pages, the loader comes to an end, reads only the
image and maps only pages of the user. -/
def LoadSafe (img : Image) (base : ℕ) : Prop :=
  ∀ oracle, ∃ fuel, (elfLoadAt oracle fuel img base).ended = true ∧
    ∀ e ∈ (elfLoadAt oracle fuel img base).events, e.Ok img

/-! ## The condition on the headers -/

/-- A segment to be loaded: it has no pages, because an addition wraps, or its last page is below
the bound, and what is copied to each of its pages lies in the image. -/
def SegmentOk (img : Image) (base : ℕ) (ph : Phdr) : Prop :=
  ph.firstPage base ≤ ph.lastPage base →
    ph.lastPage base < userVmaUpperBound ∧
      ∀ k, ph.firstPage base + pageSize * k ≤ ph.lastPage base →
        u64 (alignDown ph.offset + pageSize * k) < ph.fileEnd →
          min (u64 (alignDown ph.offset + pageSize * k) + pageSize) ph.fileEnd ≤ img.size

/-- A header that the loader looks at: it lies in the image, and so does what it loads. -/
def HeaderOk (img : Image) (base i : ℕ) : Prop :=
  img.phOff i + phdrSize ≤ img.size ∧
    ((img.phdr (img.phOff i)).type = ptLoad → (img.phdr (img.phOff i)).memsz ≠ 0 →
      SegmentOk img base (img.phdr (img.phOff i)))

/-- All headers up to the first one that the loader finds to be outside the image. -/
def HeadersOk (img : Image) (base : ℕ) : Prop :=
  ehdrSize ≤ img.size → img.isElf64 →
    ∀ i < img.ePhnum, (∀ j ≤ i, u64 (img.phOff j + phdrSize) ≤ img.size) → HeaderOk img base i

/-! ## The pages of a segment -/

lemma Image.size_le (img : Image) : img.size ≤ 2 ^ 64 - pageSize := by
  have := img.low
  have := img.high
  omega

variable {base off fuel n i : ℕ} {img : Image}

lemma Phdr.lastPage_eq (ph : Phdr) (h : ph.firstPage base ≤ ph.lastPage base) :
    ∃ k, ph.lastPage base = ph.firstPage base + pageSize * k := by
  refine ⟨(ph.lastPage base - ph.firstPage base) / pageSize, ?_⟩
  revert h
  unfold Phdr.lastPage Phdr.firstPage alignDown u64 pageSize
  omega

/-- What is copied to a page lies in the image exactly if it does so as a range of offsets; a range
that wraps around never does. -/
lemma Phdr.copy_ok (img : Image) (ph : Phdr) {k : ℕ}
    (hk : ph.firstPage base + pageSize * k < 2 ^ 64) :
    (∀ e ∈ ph.copy base (ph.firstPage base + pageSize * k), e.Ok img) ↔
      (u64 (alignDown ph.offset + pageSize * k) < ph.fileEnd →
        min (u64 (alignDown ph.offset + pageSize * k) + pageSize) ph.fileEnd ≤ img.size) := by
  have hsub : u64Sub (ph.firstPage base + pageSize * k) (ph.firstPage base) = pageSize * k := by
    rw [u64Sub_of_le hk (Nat.le_add_right _ _), Nat.add_sub_cancel_left]
  have hstart : ph.pageFileStart base (ph.firstPage base + pageSize * k) =
      u64 (alignDown ph.offset + pageSize * k) := by
    rw [Phdr.pageFileStart, hsub]
  have hlt : u64 (alignDown ph.offset + pageSize * k) < 2 ^ 64 := u64_lt _
  have hend : ph.fileEnd < 2 ^ 64 := u64_lt _
  have hsize := img.size_le
  unfold Phdr.copy Phdr.pageFileEnd
  rw [hstart]
  generalize u64 (alignDown ph.offset + pageSize * k) = start at hlt ⊢
  split
  next hdata =>
    rw [forall_mem_singleton, imp_iff_right hdata]
    change start + u64Sub _ start ≤ img.size ↔ _
    unfold pageSize at *
    by_cases hwrap : start + 4096 < 2 ^ 64
    · -- the end of the page is an offset
      rw [u64_of_lt hwrap]
      split
      · rw [u64Sub_of_le hend hdata.le]
        omega
      · rw [u64Sub_of_le hwrap (Nat.le_add_right _ _)]
        omega
    · have hover : u64 (start + 4096) = start + 4096 - 2 ^ 64 := by
        unfold u64
        omega
      rw [hover, if_neg (by omega)]
      unfold u64Sub u64
      omega
  next hdata => exact iff_of_true (fun _ he => absurd he not_mem_nil) fun h => absurd h hdata

lemma pageFields_ok (h : off + phdrSize ≤ img.size) : ∀ e ∈ pageFields off, e.Ok img := by
  unfold phdrSize at h
  simp only [pageFields, forall_mem_cons, Event.Ok]
  exact ⟨by omega, by omega, by omega, fun _ he => absurd he not_mem_nil⟩

/-- With a good segment the loop over its pages ends, whatever memory there is, and does nothing
wrong. -/
lemma pageLoop_ok (oracle : ℕ → MapOutcome) {ph : Phdr} (hoff : off + phdrSize ≤ img.size)
    (hseg : SegmentOk img base ph) : ∀ fuel k n,
    ph.lastPage base < ph.firstPage base + pageSize * (k + fuel) →
    (pageLoop oracle ph off base (fuel + 1) (ph.firstPage base + pageSize * k) n).status ≠
    .outOfFuel ∧
      ∀ e ∈ (pageLoop oracle ph off base (fuel + 1) (ph.firstPage base + pageSize * k) n).events,
      e.Ok img := by
  intro fuel
  induction fuel with
  | zero =>
    intro k n hlt
    rw [Nat.add_zero] at hlt
    rw [pageLoop, if_neg (not_le.2 hlt)]
    exact ⟨fun h => (nomatch h), fun _ he => absurd he not_mem_nil⟩
  | succ fuel ih =>
    intro k n hlt
    rw [pageLoop]
    split
    next hle =>
      obtain ⟨hbound, hcopy⟩ := hseg (le_trans (Nat.le_add_right _ _) hle)
      have hpage : ph.firstPage base + pageSize * k < userVmaUpperBound := lt_of_le_of_lt hle hbound
      have hcopied := (ph.copy_ok img (hpage.trans (by decide))).2 (hcopy k hle)
      cases oracle n with
      | noPage => exact ⟨fun h => (nomatch h), pageFields_ok hoff⟩
      | noTable => exact ⟨fun h => (nomatch h), forall_mem_append.2 ⟨pageFields_ok hoff, hcopied⟩⟩
      | mapped =>
        have hnext : u64 (ph.firstPage base + pageSize * k + pageSize) =
          ph.firstPage base + pageSize * (k + 1) := by
          rw [u64_of_lt (lt_of_lt_of_le (Nat.add_lt_add_right hpage _) (by decide)), Nat.mul_succ,
            Nat.add_assoc]
        have hfuel : k + 1 + fuel = k + (fuel + 1) := by omega
        obtain ⟨hend, hrest⟩ := ih (k + 1) (n + 1) (hfuel.symm ▸ hlt)
        simp only [hnext]
        refine ⟨hend, forall_mem_append.2 ⟨forall_mem_append.2 ⟨forall_mem_append.2
          ⟨pageFields_ok hoff, hcopied⟩, ?_⟩, hrest⟩⟩
        exact forall_mem_singleton.2 hpage
    · exact ⟨fun h => (nomatch h), fun _ he => absurd he not_mem_nil⟩

/-- There is always memory. -/
def plenty : ℕ → MapOutcome := fun _ => .mapped

lemma pageLoop_plenty_status (ph : Phdr) (off base : ℕ) : ∀ fuel page n,
    (pageLoop plenty ph off base fuel page n).status = .next ∨
      (pageLoop plenty ph off base fuel page n).status = .outOfFuel := by
  intro fuel
  induction fuel with
  | zero => exact fun _ _ => .inr rfl
  | succ fuel ih =>
    intro page n
    by_cases hle : page ≤ ph.lastPage base
    · rw [pageLoop, if_pos hle]
      exact ih (u64 (page + pageSize)) (n + 1)
    · rw [pageLoop, if_neg hle]
      exact .inl rfl

/-- With memory, every page up to the last one is filled and mapped. -/
lemma pageLoop_plenty_mem (ph : Phdr) (off base : ℕ) : ∀ fuel page n k,
    (pageLoop plenty ph off base fuel page n).status ≠ .outOfFuel →
    page + pageSize * k ≤ ph.lastPage base →
    (∀ e ∈ ph.copy base (page + pageSize * k), e ∈ (pageLoop plenty ph off base fuel page n).events)
    ∧
      .map (page + pageSize * k) (pteFlags ph.flags) ∈
      (pageLoop plenty ph off base fuel page n).events := by
  intro fuel
  induction fuel with
  | zero => exact fun _ _ _ h => absurd rfl h
  | succ fuel ih =>
    intro page n k hend hk
    have hle : page ≤ ph.lastPage base := le_trans (Nat.le_add_right _ _) hk
    rw [pageLoop, if_pos hle] at hend ⊢
    cases k with
    | zero =>
      exact ⟨fun e he => mem_append_left _ (mem_append_left _ (mem_append_right _ he)),
        mem_append_left _ (mem_append_right _ mem_cons_self)⟩
    | succ k =>
      have hlast : ph.lastPage base < 2 ^ 64 := u64_lt _
      have hnext : u64 (page + pageSize) = page + pageSize := by
        refine u64_of_lt (lt_of_le_of_lt ?_ hlast)
        rw [Nat.mul_succ] at hk
        omega
      have heq : page + pageSize * (k + 1) = page + pageSize + pageSize * k := by
        rw [Nat.mul_succ]
        omega
      rw [hnext] at hend ⊢
      rw [heq] at hk ⊢
      obtain ⟨hcopy, hmap⟩ := ih (page + pageSize) (n + 1) k hend hk
      exact ⟨fun e he => mem_append_right _ (hcopy e he), mem_append_right _ hmap⟩

lemma segmentOk_of_pageLoop {ph : Phdr}
    (hend : (pageLoop plenty ph off base fuel (ph.firstPage base) n).status ≠ .outOfFuel)
    (hev : ∀ e ∈ (pageLoop plenty ph off base fuel (ph.firstPage base) n).events, e.Ok img) :
    SegmentOk img base ph := by
  intro hle
  have hlast : ph.lastPage base < 2 ^ 64 := u64_lt _
  have hpages := fun k hk => pageLoop_plenty_mem ph off base fuel (ph.firstPage base) n k hend hk
  obtain ⟨k, hk⟩ := ph.lastPage_eq hle
  refine ⟨?_, fun j hj => ?_⟩
  · rw [hk]
    exact hev _ (hpages k hk.ge).2
  · exact (ph.copy_ok img (lt_of_le_of_lt hj hlast)).1 fun e he => hev e ((hpages j hj).1 e he)

/-! ## The headers -/

/-- A turn for a good header, or for one that is found to be outside, comes to its end and does
nothing wrong. -/
lemma phTurn_ok (oracle : ℕ → MapOutcome) (hfuel : userVmaUpperBound ≤ pageSize * fuel)
    (h : u64 (img.phOff i + phdrSize) ≤ img.size → HeaderOk img base i) (n : ℕ) (r : ElfLoadResult)
    (found : Bool) :
    (∀ r', (phTurn oracle (fuel + 1) img base i n r found).2 ≠ .stop false r') ∧
      ∀ e ∈ (phTurn oracle (fuel + 1) img base i n r found).1, e.Ok img := by
  have hin (hout : ¬u64 (img.phOff i + phdrSize) > img.size) (a m : ℕ) (ham : a + m ≤ phdrSize) :
      (Event.read (img.phOff i + a) m).Ok img := by
    have hoff := (h (not_lt.1 hout)).1
    change img.phOff i + a + m ≤ img.size
    omega
  have htype (hout : ¬u64 (img.phOff i + phdrSize) > img.size) : (Event.read (img.phOff i) 4).Ok
    img := by
    have := hin hout 0 4 (by decide)
    rwa [Nat.add_zero] at this
  fun_cases phTurn oracle (fuel + 1) img base i n r found with
  | case1 => exact ⟨nofun, fun _ he => absurd he not_mem_nil⟩
  | case2 hout off ph =>
    refine ⟨nofun, ?_⟩
    simp only [forall_mem_cons]
    exact ⟨htype hout, hin hout 32 8 (by decide), hin hout 40 8 (by decide),
      hin hout 48 8 (by decide), hin hout 8 8 (by decide), fun _ he => absurd he not_mem_nil⟩
  | case3 hout => exact ⟨nofun, forall_mem_singleton.2 (htype hout)⟩
  | case4 hout off ph =>
    refine ⟨nofun, ?_⟩
    simp only [forall_mem_cons]
    exact ⟨htype hout, hin hout 40 8 (by decide), fun _ he => absurd he not_mem_nil⟩
  | case5 hout off ph _ hload hmem =>
    obtain ⟨hoff, hseg⟩ := h (not_lt.1 hout)
    have hseg : SegmentOk img base ph := hseg (not_not.1 hload) hmem
    -- the pages below the bound are fewer than the fuel
    have hpages : ph.lastPage base < ph.firstPage base + pageSize * (0 + fuel) := by
      rw [Nat.zero_add]
      by_cases hle : ph.firstPage base ≤ ph.lastPage base
      · have := (hseg hle).1
        omega
      · omega
    obtain ⟨hend, hev⟩ := pageLoop_ok oracle hoff hseg fuel 0 n hpages
    unfold loadTurn
    refine ⟨fun r' hstop => ?_, forall_mem_append.2 ⟨?_, hev⟩⟩
    · generalize (pageLoop oracle ph off base (fuel + 1) (ph.firstPage base) n).status =
        st at hend hstop
      cases st with
      | next => exact nomatch hstop
      | returned => exact nomatch hstop
      | outOfFuel => exact hend rfl
    · simp only [forall_mem_cons]
      exact ⟨htype hout, hin hout 40 8 (by decide), hin hout 16 8 (by decide),
        hin hout 8 8 (by decide), fun _ he => absurd he not_mem_nil⟩

/-- With memory, a turn that ends and does nothing wrong, for a header that is not found to be
outside, has a good header and goes on. -/
lemma headerOk_of_phTurn {r : ElfLoadResult} {found : Bool}
    (hcheck : u64 (img.phOff i + phdrSize) ≤ img.size)
    (hend : ∀ r', (phTurn plenty fuel img base i n r found).2 ≠ .stop false r')
    (hev : ∀ e ∈ (phTurn plenty fuel img base i n r found).1, e.Ok img) :
    HeaderOk img base i ∧ ∃ n' r' found', (phTurn plenty fuel img base i n r found).2 =
    .go n' r' found' := by
  -- the type is read, so the header does not lie across the end of the address space
  have hheader : (Event.read (img.phOff i) 4).Ok img → img.phOff i + phdrSize ≤ img.size := by
    intro hread
    change img.phOff i + 4 ≤ img.size at hread
    have hsize := img.size_le
    unfold u64 phdrSize at *
    unfold pageSize at hsize
    omega
  revert hend hev
  fun_cases phTurn plenty fuel img base i n r found with
  | case1 hout => exact absurd hcheck (not_le.2 hout)
  | case2 _ off ph htls =>
    refine fun _ hev => ⟨⟨hheader (hev _ mem_cons_self), fun hload => ?_⟩, _, _, _, rfl⟩
    exact nomatch htls.symm.trans hload
  | case3 _ off ph _ hload =>
    exact fun _ hev => ⟨⟨hheader (hev _ mem_cons_self), fun hl => absurd hl hload⟩, _, _, _, rfl⟩
  | case4 _ off ph _ _ hmem =>
    exact fun _ hev => ⟨⟨hheader (hev _ mem_cons_self), fun _ hm => absurd hmem hm⟩, _, _, _, rfl⟩
  | case5 _ off ph =>
    intro hend hev
    unfold loadTurn at hend hev ⊢
    obtain ⟨hread, hev⟩ := forall_mem_append.1 hev
    have hnext := pageLoop_plenty_status ph off base fuel (ph.firstPage base) n
    have hnot : (pageLoop plenty ph off base fuel (ph.firstPage base) n).status ≠ .outOfFuel := by
      intro hst
      rw [hst] at hend
      exact hend _ rfl
    refine ⟨⟨hheader (hread _ mem_cons_self), fun _ _ => segmentOk_of_pageLoop hnot hev⟩, ?_⟩
    rw [hnext.resolve_right hnot]
    exact ⟨_, _, _, rfl⟩

/-- The headers `is` are good, up to the first one that is found to be outside. -/
def ListOk (img : Image) (base : ℕ) : List ℕ → Prop
  | [] => True
  | i :: is => u64 (img.phOff i + phdrSize) ≤ img.size → HeaderOk img base i ∧ ListOk img base is

lemma listOk_range' (img : Image) (base : ℕ) : ∀ n a, ListOk img base (range' a n) ↔
    ∀ i, a ≤ i → i < a + n → (∀ j, a ≤ j → j ≤ i → u64 (img.phOff j + phdrSize) ≤ img.size) →
    HeaderOk img base i := by
  intro n
  induction n with
  | zero => exact fun a => iff_of_true trivial fun i h1 h2 => absurd h2 (not_lt.2 h1)
  | succ n ih =>
    intro a
    rw [range'_succ, ListOk, ih]
    constructor
    · intro h i h1 h2 hall
      obtain ⟨ha, hrest⟩ := h (hall a le_rfl h1)
      rcases h1.eq_or_lt with rfl | h1
      · exact ha
      · exact hrest i h1 (by omega) fun j hj => hall j (by omega)
    · intro h ha
      have hone : ∀ j, a ≤ j → j ≤ a → u64 (img.phOff j + phdrSize) ≤ img.size := fun j h1 h2 =>
        (le_antisymm h2 h1).symm ▸ ha
      refine ⟨h a le_rfl (by omega) hone, fun i h1 h2 hall =>
        h i (by omega) (by omega) fun j hj hji => ?_⟩
      rcases hj.eq_or_lt with rfl | hj
      · exact ha
      · exact hall j hj hji

lemma check_of_phTurn {oracle : ℕ → MapOutcome} {n' : ℕ} {r r' : ElfLoadResult}
    {found found' : Bool} (h : (phTurn oracle fuel img base i n r found).2 = .go n' r' found') :
    u64 (img.phOff i + phdrSize) ≤ img.size := by
  by_contra hcheck
  rw [phTurn, if_pos (not_le.1 hcheck)] at h
  exact nomatch h

lemma phLoop_ok (oracle : ℕ → MapOutcome) (hfuel : userVmaUpperBound ≤ pageSize * fuel)
    : ∀ (is : List ℕ) n r found, ListOk img base is →
      (phLoop oracle (fuel + 1) img base is n r found).ended = true ∧
        ∀ e ∈ (phLoop oracle (fuel + 1) img base is n r found).events, e.Ok img := by
  intro is
  induction is with
  | nil => exact fun _ _ _ _ => ⟨rfl, fun _ he => absurd he not_mem_nil⟩
  | cons i is ih =>
    intro n r found hok
    obtain ⟨hend, hev⟩ := phTurn_ok oracle hfuel (fun hcheck => (hok hcheck).1) n r found
    rw [phLoop]
    rcases hturn : phTurn oracle (fuel + 1) img base i n r found with ⟨evs, t⟩
    rw [hturn] at hend hev
    cases t with
    | stop ended r' =>
      cases ended with
      | false => exact absurd rfl (hend r')
      | true => exact ⟨rfl, hev⟩
    | go n' r' found' =>
      have hcheck := check_of_phTurn (congrArg Prod.snd hturn)
      obtain ⟨hended, hrest⟩ := ih n' r' found' (hok hcheck).2
      exact ⟨hended, forall_mem_append.2 ⟨hev, hrest⟩⟩

lemma listOk_of_phLoop : ∀ (is : List ℕ) n r found,
    (phLoop plenty fuel img base is n r found).ended = true →
    (∀ e ∈ (phLoop plenty fuel img base is n r found).events, e.Ok img) → ListOk img base is := by
  intro is
  induction is with
  | nil => exact fun _ _ _ _ _ => trivial
  | cons i is ih =>
    intro n r found hended hev hcheck
    have hturn := @headerOk_of_phTurn base fuel n i img r found hcheck
    rw [phLoop] at hended hev
    rcases hpt : phTurn plenty fuel img base i n r found with ⟨evs, t⟩
    rw [hpt] at hended hev hturn
    cases t with
    | stop ended r' =>
      obtain ⟨_, _, _, _, hgo⟩ := hturn (fun r'' h => by
        rw [Turn.stop.injEq] at h
        exact nomatch h.1.symm.trans hended) hev
      exact nomatch hgo
    | go n' r' found' =>
      obtain ⟨hevs, hrest⟩ := forall_mem_append.1 hev
      exact ⟨(hturn (fun _ h => (nomatch h)) hevs).1, ih n' r' found' hended hrest⟩

lemma headers_iff_listOk (img : Image) (base : ℕ) :
    (∀ i < img.ePhnum, (∀ j ≤ i, u64 (img.phOff j + phdrSize) ≤ img.size) → HeaderOk img base i) ↔
      ListOk img base (range img.ePhnum) := by
  rw [range_eq_range', listOk_range']
  simp only [Nat.zero_le, forall_const, Nat.zero_add]

lemma headersOk_of_loadSafe (h : LoadSafe img base) : HeadersOk img base := by
  intro hsize helf
  obtain ⟨fuel, hended, hev⟩ := h plenty
  rw [elfLoadAt, if_neg (not_lt.2 hsize), if_neg (not_not_intro helf)] at hended hev
  exact (headers_iff_listOk img base).2 (listOk_of_phLoop _ _ _ _ hended
    (forall_mem_append.1 hev).2)

lemma loadSafe_of_headersOk (h : HeadersOk img base) : LoadSafe img base := by
  intro oracle
  unfold elfLoadAt
  split
  · exact ⟨0, rfl, fun _ he => absurd he not_mem_nil⟩
  next hsize =>
  have hin : ∀ a m, a + m ≤ ehdrSize → (Event.read a m).Ok img := fun a m ham =>
    ham.trans (not_lt.1 hsize)
  split
  · exact ⟨0, rfl, forall_mem_singleton.2 (hin 0 5 (by decide))⟩
  next helf =>
  have hok := (headers_iff_listOk img base).1 (h (not_lt.1 hsize) (not_not.1 helf))
  obtain ⟨fuel, hfuel⟩ : ∃ fuel, userVmaUpperBound ≤ pageSize * fuel := ⟨2 ^ 35, by decide⟩
  obtain ⟨hended, hev⟩ := phLoop_ok oracle hfuel (range img.ePhnum) 0
    { loadBase := base, entry := u64 (base + img.eEntry), phnum := img.ePhnum, phent :=
      img.ePhentsize } false hok
  refine ⟨fuel + 1, hended, forall_mem_append.2 ⟨?_, hev⟩⟩
  simp only [forall_mem_cons]
  exact ⟨hin 0 5 (by decide), hin 24 8 (by decide), hin 32 8 (by decide), hin 54 2 (by decide),
    hin 56 2 (by decide), fun _ he => absurd he not_mem_nil⟩

/-- Loading an arbitrary string of bytes at an arbitrary base is safe, whatever memory there is,
exactly if all headers that the loader looks at lie in the image, the last page of each segment is
the user's, and what is copied to its pages lies in the image. -/
theorem elf_load_safe_iff (img : Image) (base : ℕ) : LoadSafe img base ↔ HeadersOk img base :=
  ⟨headersOk_of_loadSafe, loadSafe_of_headersOk⟩

/-- An image with one program header behind the ELF header, for a segment to be loaded. -/
def oneSegment (vaddr filesz memsz : ℕ) : Image where
  addr := 0x100000
  size := 120
  byte o :=
    if o < 16 then ([0x7f, 0x45, 0x4c, 0x46, 2] : List UInt8).getD o 0
    else if o = 32 then 64
    else if o = 54 then 56
    else if o = 56 ∨ o = 64 then 1
    else if 80 ≤ o ∧ o < 88 then .ofNat (vaddr / 256 ^ (o - 80))
    else if 96 ≤ o ∧ o < 104 then .ofNat (filesz / 256 ^ (o - 96))
    else if 104 ≤ o ∧ o < 112 then .ofNat (memsz / 256 ^ (o - 104))
    else 0
  low := by decide
  high := by decide

lemma not_loadSafe_oneSegment {vaddr filesz memsz : ℕ}
    (helf : (oneSegment vaddr filesz memsz).isElf64 ∧ (oneSegment vaddr filesz memsz).ePhnum = 1 ∧
      (oneSegment vaddr filesz memsz).phOff 0 = 64 ∧ ((oneSegment vaddr filesz memsz).phdr 64).type
      = ptLoad ∧
      ((oneSegment vaddr filesz memsz).phdr 64).memsz ≠ 0)
    (hseg : ¬ SegmentOk (oneSegment vaddr filesz memsz) base
    ((oneSegment vaddr filesz memsz).phdr 64)) :
    ¬ LoadSafe (oneSegment vaddr filesz memsz) base := by
  intro hsafe
  obtain ⟨helf, hnum, hoff, hload, hmem⟩ := helf
  have hcheck : ∀ j ≤ 0, u64 ((oneSegment vaddr filesz memsz).phOff j + phdrSize) ≤
    (oneSegment vaddr filesz memsz).size := by
    intro j hj
    obtain rfl := Nat.le_zero.1 hj
    rw [hoff]
    change u64 (64 + phdrSize) ≤ 120
    decide
  have hok := headersOk_of_loadSafe hsafe (by change ehdrSize ≤ 120; decide) helf 0
    (by rw [hnum]; decide) hcheck
  rw [HeaderOk, hoff] at hok
  exact hseg (hok.2 hload hmem)

/-- A segment at a kernel address is mapped there, and a segment with more bytes than the file has
is read from beyond its end. -/
theorem elf_load_unsafe :
    ¬ LoadSafe (oneSegment 0xffffff8000000000 0 0x1000) 0 ∧
    ¬ LoadSafe (oneSegment 0x400000 0x1000 0x1000) 0 := by
  constructor
  · refine not_loadSafe_oneSegment (by decide +kernel) fun hseg => ?_
    exact absurd (hseg (by decide +kernel)).1 (by decide +kernel)
  · refine not_loadSafe_oneSegment (by decide +kernel) fun hseg => ?_
    exact absurd ((hseg (by decide +kernel)).2 0 (by decide +kernel) (by decide +kernel))
      (by decide +kernel)

end XosKernel.Elf
