/-
# `mmap` stays in user space

Every branch of `sys_mmap` keeps the invariant of `PlaceInv` if its arguments are inside
user space: a fixed address together with its length, or a hint.
-/
import XosKernel.Mem.PlaceInv

namespace XosKernel.Mmap

open Vma Option

variable {va len n : ℕ} {mm mm' : Mm} {oracle : ℕ → Bool} {r : Region} {L : List Region}
  {q : Request} {fetch : ℕ → Mm → Bool × Mm}

/-! ## Mapping -/

/-- A request that `vma_pick_addr` can serve. -/
def Request.Ok (q : Request) : Prop := Placeable q.addr q.size q.flags q.hint

section

variable (h : Inv mm)
include h

lemma Inv.mmapAdvanceBrk {vaddr size : ℕ} (hv : UserRange vaddr size)
    (requestedAddr flags : ℕ) : Inv (mmapAdvanceBrk mm requestedAddr flags vaddr size) := by
  rw [Mmap.mmapAdvanceBrk]
  split_ifs
  · refine ⟨⟨h.regions, h.installed⟩, ?_, h.physBrk, h.physBase⟩
    rw [hv.u64_eq le_rfl]
    exact Nat.dvd_add hv.start hv.pages
  · exact h

lemma Inv.mmapPlaceFileRegion (hq : q.Ok) (inode shmPrivateSrc : Option ℕ) :
    Inv (mmapPlaceFileRegion oracle mm q inode shmPrivateSrc).2 := by
  rw [Mmap.mmapPlaceFileRegion]
  generalize ha : mm.alloc oracle = p
  obtain ⟨b, mm1⟩ := p
  have h1 : Inv mm1 := h.of_alloc ha
  cases b with
  | false => exact h1
  | true =>
    dsimp only
    generalize hpick : q.pick oracle mm1 = p
    obtain ⟨ret, mm2⟩ := p
    obtain ⟨h2, hv⟩ := h1.vmaPickAddr hq hpick
    cases ret with
    | err e => exact h2
    | neg v => exact h2
    | ok v =>
      have hrange : UserRange v q.size := hv v rfl
      dsimp only
      split
      · exact h2
      · rename_i L hL
        exact (h2.setRegions (UserList.insert h2.regions hrange hL)).mmapAdvanceBrk hrange _ _

omit h in
lemma Inv.mapLoop (hfetch : ∀ i mm, Inv mm → Inv (fetch i mm).2) {vaddr i : ℕ} (h : Inv mm)
    (hva : ∀ j < i + n, UserRange (u64 (vaddr + j * pageSize)) pageSize) :
    Inv (mapLoop oracle fetch vaddr n i mm).2 := by
  induction n generalizing i mm with
  | zero => exact h
  | succ n ih =>
    rw [Mmap.mapLoop]
    have hf := hfetch i mm h
    generalize fetch i mm = p at hf
    obtain ⟨b, mm1⟩ := p
    cases b with
    | false => exact hf
    | true =>
      have hm := Inv.mapUserPageDirect hf oracle (hva i (by omega))
      dsimp only at hm ⊢
      generalize Mmap.mapUserPageDirect oracle mm1 (u64 (vaddr + i * pageSize)) = p at hm
      obtain ⟨b, mm2⟩ := p
      cases b with
      | false => exact hm
      | true => exact ih hm fun j hj => hva j (by omega)

lemma Inv.mapAndInsert (oracle : ℕ → Bool) (fetch : ℕ → Mm → Bool × Mm)
    (hfetch : ∀ i mm, Inv mm → Inv (fetch i mm).2) (checked : Bool) {vaddr : ℕ}
    (hva : UserRange vaddr len)
    (hr : UserRange r.vaddr r.size) :
    Inv (mapAndInsert oracle mm fetch checked vaddr (len / pageSize) r).2 := by
  have hloop : Inv (Mmap.mapLoop oracle fetch vaddr (len / pageSize) 0 mm).2 :=
    h.mapLoop hfetch fun j hj => hva.page (by omega)
  rw [Mmap.mapAndInsert]
  generalize Mmap.mapLoop oracle fetch vaddr (len / pageSize) 0 mm = p at hloop
  obtain ⟨mapped, mm1⟩ := p
  dsimp only at hloop ⊢
  split
  · exact hloop.clearPages _ _
  · generalize ha : mm1.alloc oracle = p
    obtain ⟨b, mm2⟩ := p
    have h2 : Inv mm2 := hloop.of_alloc ha
    cases b with
    | false => exact h2.clearPages _ _
    | true =>
      dsimp only
      split
      · rename_i L hL
        exact h2.setRegions (UserList.insert h2.regions hr hL)
      · split_ifs
        · exact h2.clearPages _ _
        · exact h2

lemma Inv.mapExisting (hq : q.Ok) (has : ℕ → Bool) (checked : Bool)
    {region : ℕ → Region} (hregion : ∀ v, (region v).vaddr = v ∧ (region v).size = q.size) :
    Inv (mapExisting oracle mm q has checked region).2 := by
  rw [Mmap.mapExisting]
  generalize hpick : q.pick oracle mm = p
  obtain ⟨ret, mm1⟩ := p
  obtain ⟨h1, hv⟩ := h.vmaPickAddr hq hpick
  cases ret with
  | err e => exact h1
  | neg v => exact h1
  | ok v =>
    have hrange : UserRange v q.size := hv v rfl
    have hr : UserRange (region v).vaddr (region v).size := by
      rw [(hregion v).1, (hregion v).2]
      exact hrange
    have hm := h1.mapAndInsert oracle (fun i mm => (has i, mm)) (fun _ _ h => h) checked hrange hr
    dsimp only
    generalize Mmap.mapAndInsert oracle mm1 (fun i mm => (has i, mm)) checked v
      (q.size / pageSize) (region v) = p at hm
    obtain ⟨b, mm2⟩ := p
    cases b with
    | false => exact hm
    | true => exact Inv.mmapAdvanceBrk hm hrange _ _

lemma Inv.mmapShm (hq : q.Ok) (s : ShmInfo) : Inv (mmapShm oracle mm q s).2 := by
  rw [Mmap.mmapShm]
  split_ifs
  · exact h
  · exact h
  · exact h.mapExisting hq _ _ fun _ => ⟨rfl, rfl⟩

lemma Inv.devMmapCommit
    (hq : Placeable q.addr q.size q.flags (if q.addr = 0 then 0 else alignDown q.addr))
    (owner : Option ℕ) (pages : List Bool) (uc : Bool) :
    Inv (devMmapCommit oracle mm q owner pages uc).2 := by
  fun_cases Mmap.devMmapCommit oracle mm q owner pages uc with
  | case1 => exact h
  | case2 =>
    have hq' : Request.Ok { q with hint := if q.addr = 0 then 0 else alignDown q.addr } := hq
    exact h.mapExisting hq' _ _ fun _ => ⟨rfl, rfl⟩

lemma Inv.sysMmapTmpfsShared (hq : q.Ok) (size : ℕ) (writable : Bool)
    (shm : Option ShmInfo) : Inv (sysMmapTmpfsShared oracle mm q size writable shm).2 := by
  rw [Mmap.sysMmapTmpfsShared.eq_def]
  split_ifs
  · exact h
  · exact h
  · cases shm with
    | none => exact h
    | some s =>
      dsimp only
      split_ifs
      · exact h
      · exact h.mapExisting hq _ _ fun _ => ⟨rfl, rfl⟩

lemma Inv.sysMmapShmPrivate (hq : q.Ok) (shm : Option ShmInfo) :
    Inv (sysMmapShmPrivate oracle mm q shm).2 := by
  rw [Mmap.sysMmapShmPrivate.eq_def]
  cases shm with
  | none => exact h
  | some s =>
    dsimp only
    split_ifs
    · exact h
    · exact h.mmapPlaceFileRegion hq _ _

lemma Inv.sysMmapFileBacked (hq : q.Ok) {file : Option FileKind} {res : Ret × Mm}
    (hres : sysMmapFileBacked oracle mm q file = some res) : Inv res.2 := by
  revert hres
  -- every branch returns an error in the same state or one of the calls above
  fun_cases Mmap.sysMmapFileBacked oracle mm q file with
  | case3 => exact nofun
  | case4 =>
    rintro ⟨⟩
    exact h.sysMmapShmPrivate hq _
  | case5 => exact nofun
  | case6 => exact nofun
  | case9 =>
    rintro ⟨⟩
    exact h.sysMmapTmpfsShared hq _ _ _
  | case12 | case14 =>
    rintro ⟨⟩
    exact h.mmapPlaceFileRegion hq _ _
  | _ =>
    rintro ⟨⟩
    exact h

lemma Inv.mmapSharedFd (hq : q.Ok) (file : Option FileKind) :
    Inv (mmapSharedFd oracle mm q file).2 := by
  fun_cases Mmap.mmapSharedFd oracle mm q file with
  | case2 => exact h.mmapShm hq _
  | case6 => exact h.mmapShm hq _
  | _ => exact h

lemma Inv.mmapAnonymous (hq : q.Ok) : Inv (mmapAnonymous oracle mm q).2 := by
  rw [Mmap.mmapAnonymous]
  generalize hpick : q.pick oracle mm = p
  obtain ⟨ret, mm1⟩ := p
  obtain ⟨h1, hv⟩ := h.vmaPickAddr hq hpick
  cases ret with
  | err e => exact h1
  | neg v => exact h1
  | ok v =>
    have hrange : UserRange v q.size := hv v rfl
    dsimp only
    generalize ha : mm1.alloc oracle = p
    obtain ⟨b, mm2⟩ := p
    have h2 : Inv mm2 := h1.of_alloc ha
    cases b with
    | false => exact h2
    | true =>
      have hm := h2.mapAndInsert oracle (fun _ mm => mm.alloc oracle)
        (fun _ mm h => h.of_alloc (mm.alloc_eq oracle)) false hrange
        (r := newRegion v q.size q.prot q.flags q.fd q.offset) hrange
      dsimp only
      generalize Mmap.mapAndInsert oracle mm2 (fun _ mm => mm.alloc oracle) false v
        (q.size / pageSize) (newRegion v q.size q.prot q.flags q.fd q.offset) = p at hm
      obtain ⟨b, mm3⟩ := p
      cases b with
      | false => exact hm
      | true => exact Inv.mmapAdvanceBrk hm hrange _ _

lemma Inv.physRange {offset size : ℕ}
    (hb : mm.mmapPhysBrk + physSpan offset size ≤ userVmaUpperBound) :
    UserRange mm.mmapPhysBrk (physSpan offset size / pageSize * pageSize) := by
  have hle : physSpan offset size / pageSize * pageSize ≤ physSpan offset size :=
    Nat.div_mul_le_self _ _
  have hbase : sigTrampolineAddr + pageSize ≤ mapPhysicalBase := by decide
  exact ⟨h.physBrk, Nat.dvd_mul_left _ _, by omega, .inr (hbase.trans h.physBase)⟩

lemma Inv.mmapPhysical {hw : Machine}
    (hb : mm.mmapPhysBrk + physSpan q.offset q.size ≤ userVmaUpperBound) :
    Inv (mmapPhysical hw oracle mm q).2 := by
  have hrange := h.physRange hb
  rw [Mmap.mmapPhysical]
  split_ifs
  · exact h
  · exact h
  · exact h
  · have hm := h.mapAndInsert oracle (fun _ mm => (true, mm)) (fun _ _ h => h) false hrange
      (r := { newRegion mm.mmapPhysBrk (physSpan q.offset q.size / pageSize * pageSize) 0 q.flags
        (-1) q.offset with phys := alignDown q.offset }) hrange
    rw [Nat.mul_div_cancel _ (by decide)] at hm
    generalize Mmap.mapAndInsert oracle mm (fun _ mm => (true, mm)) false mm.mmapPhysBrk _ _ =
      p at hm
    obtain ⟨b, mm1⟩ := p
    cases b with
    | false => exact hm
    | true =>
      have hend : u64 (mm.mmapPhysBrk + physSpan q.offset q.size / pageSize * pageSize) =
          mm.mmapPhysBrk + physSpan q.offset q.size / pageSize * pageSize :=
        hrange.u64_eq le_rfl
      refine ⟨⟨hm.regions, hm.installed⟩, hm.brk, ?_, ?_⟩
      · show pageSize ∣ u64 (_ + _)
        rw [hend]
        exact Nat.dvd_add h.physBrk (Nat.dvd_mul_left _ _)
      · show mapPhysicalBase ≤ u64 (_ + _)
        rw [hend]
        exact h.physBase.trans (Nat.le_add_right _ _)

end

/-- What `sys_mmap` does not check: that a fixed range or a hint lies below the bound, and
that the physical cursor stays below it. -/
structure MmapBounded (mm : Mm) (addr size flags offset : ℕ) : Prop where
  fixed : isFixed flags = true → addr + alignUp size ≤ userVmaUpperBound
  hint : isFixed flags = false → alignDown addr ≤ userVmaUpperBound
  physical : hasFlag flags mapPhysical = true →
    mm.mmapPhysBrk + physSpan offset (alignUp size) ≤ userVmaUpperBound

lemma Inv.sysMmap {hw : Machine} (h : Inv mm) {addr size prot flags offset : ℕ} {fd : ℤ}
    {file : Option FileKind} (hb : MmapBounded mm addr size flags offset) :
    Inv (sysMmap hw oracle mm addr size prot flags fd offset file).2 := by
  rw [Mmap.sysMmap]
  split_ifs with _ _ _ _ hfix
  iterate 5 exact h
  have haligned : ∀ hint, hint = mmapHint addr flags ∨
      hint = (if addr = 0 then 0 else alignDown addr) →
      Placeable addr (alignUp size) flags hint := by
    intro hint hhint
    refine ⟨alignUp_dvd _, fun hf => ?_, fun hf => ?_⟩
    · have hmod : addr % pageSize = 0 := by
        by_contra hne
        exact hfix ⟨hf, hne⟩
      exact ⟨Nat.dvd_of_mod_eq_zero hmod, hb.fixed hf⟩
    · have hdown : pageSize ∣ alignDown addr ∧ alignDown addr ≤ userVmaUpperBound :=
        ⟨alignDown_dvd _, hb.hint hf⟩
      have hzero : pageSize ∣ 0 ∧ 0 ≤ userVmaUpperBound := ⟨dvd_zero _, Nat.zero_le _⟩
      rcases hhint with rfl | rfl
      · rw [mmapHint]
        split_ifs
        · exact hdown
        · exact hzero
      · split_ifs
        · exact hzero
        · exact hdown
  dsimp only
  set q : Request :=
    { addr, size := alignUp size, prot, flags, fd, offset, hint := mmapHint addr flags } with hqdef
  have hq : q.Ok := haligned _ (.inl rfl)
  cases hprep : sysMmapDevicePrepared oracle mm q file with
  | some res =>
    rw [sysMmapDevicePrepared.eq_def] at hprep
    split_ifs at hprep
    · obtain rfl := some.inj hprep
      exact h
    · split at hprep
      · obtain rfl := some.inj hprep
        exact h
      · obtain rfl := some.inj hprep
        exact h
      · obtain rfl := some.inj hprep
        exact h.devMmapCommit (haligned _ (.inr rfl)) _ _ _
      · cases hprep
  | none =>
    show Inv (mmapDispatch hw oracle mm q file).2
    rw [mmapDispatch]
    split
    · rename_i res hres
      split_ifs at hres
      exact h.sysMmapFileBacked hq hres
    · split_ifs with _ hphys
      · exact h.mmapSharedFd hq _
      · exact h.mmapPhysical (hb.physical hphys)
      · exact h.mmapAnonymous hq

end XosKernel.Mmap
