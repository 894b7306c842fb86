/-
# Runs of the calls on a memfd

`writeLoop_spec` says what the copying loop of `sys_write` does to the bytes of the file, and
`call_ok` that every call keeps the invariant and reports errors with nothing changed, under a
condition on the allocations, on the bytes a shrinking call cuts off and on the buffer of a
write that has to grow the file.
-/
import XosKernel.Mem.MemfdInv

namespace XosKernel.MemfdData

open Option Function Prod List

open Memfd (pagesOf)

/-! ## Writing -/

section Write

variable {s : State} {buf : UserBuf} {offset : ℕ}

/-- The loop of `sys_write` changes bytes of the range only, and stores it all if it can be
read. -/
structure Copied (s : State) (buf : UserBuf) (offset : ℕ) (r : State × ℕ) : Prop where
  same : r.1 = { s with byte := r.1.byte }
  outside : ∀ p, p < offset ∨ offset + buf.len ≤ p → r.1.look p = s.look p
  all : buf.len ≤ buf.readable → r.2 = buf.len

theorem writeLoop_spec (hnd : s.pages.Nodup) (hin : offset + buf.len ≤ pageSize * s.total)
    (fuel written : ℕ) (hfuel : buf.len ≤ written + fuel) (hle : written ≤ buf.len) :
    Copied s buf offset (writeLoop buf offset fuel written s) := by
  induction fuel generalizing written s with
  | zero => exact ⟨rfl, fun _ _ => rfl, fun _ => by change written = buf.len; omega⟩
  | succ fuel ih =>
    rw [writeLoop]
    split
    next hlt =>
      set pos := offset + written
      set chunk := min (pageSize - pos % pageSize) (buf.len - written)
      set got := min chunk (buf.readable - written)
      set s1 : State := { s with
        byte := Paged.fill s.byte (s.pageAt (pos / pageSize)) (pos % pageSize) got
          fun j => buf.data (written + j) } with hs1
      have hmod : pos % pageSize < pageSize := Nat.mod_lt _ (by decide)
      have hdiv : pageSize * (pos / pageSize) + pos % pageSize = pos := Nat.div_add_mod _ _
      have hpage : s.pages[pos / pageSize]? = some (s.pageAt (pos / pageSize)) :=
        getElem?_pages (Nat.div_lt_of_lt_mul (by omega))
      -- the bytes of this chunk lie in the range of the call
      have hlook : ∀ p, p < offset ∨ offset + buf.len ≤ p → s1.look p = s.look p := by
        intro p hp
        have hbyte : s1.byte = Paged.fill s.byte (s.pageAt (pos / pageSize)) (pos % pageSize) got
            fun j => buf.data (written + j) := rfl
        rw [State.look, State.look, show s1.pages = s.pages from rfl, hbyte,
          Paged.look_fill hnd hpage (by omega), hdiv, if_neg (by omega)]
      by_cases hfault : got < chunk
      · rw [if_pos hfault]
        exact ⟨rfl, hlook, fun hr => by omega⟩
      · rw [if_neg hfault]
        obtain ⟨hsame, hout, hall⟩ := ih (s := s1) hnd hin (written + chunk) (by omega) (by omega)
        refine ⟨?_, fun p hp => (hout p hp).trans (hlook p hp), hall⟩
        rw [hsame]
    next hlt =>
      exact ⟨rfl, fun _ _ => rfl, fun _ => by change written = buf.len; omega⟩

lemma Inv.of_copied {r : State × ℕ} (file : OpenFile) (hI : Inv s)
    (hin : offset + buf.len ≤ s.fileSize) (h : Copied s buf offset r) :
    Inv { r.1 with file := file } := by
  have hlook : ∀ p, ({ r.1 with file := file } : State).look p = r.1.look p := fun _ => rfl
  have hout := h.outside
  have hsame := h.same
  generalize r.1.byte = byte at hsame
  generalize r.1 = t at *
  subst hsame
  exact ⟨hI.size, hI.nodup, hI.live, hI.list, fun p h1 h2 => by
    rw [hlook, hout p (.inr (le_trans hin h1))]
    exact hI.tail p h1 h2, hI.overrun⟩

/-- `State.writeData` inside the file. -/
structure Written (s : State) (buf : UserBuf) (offset : ℕ) (o : Except Errno ℕ × State) : Prop where
  inv : Inv o.2
  fileSize : o.2.fileSize = s.fileSize
  pages : o.2.pages = s.pages
  live : o.2.live = s.live
  outside : ∀ p, p < offset ∨ offset + buf.len ≤ p → o.2.look p = s.look p
  all : buf.len ≤ buf.readable → o.1 = .ok buf.len

theorem writeData_spec (buf : UserBuf) (offset : ℕ) (hI : Inv s)
    (hin : offset + buf.len ≤ s.fileSize) (hpos : buf.len ≠ 0) :
    Written s buf offset (s.writeData buf offset) := by
  have hle : s.fileSize ≤ pageSize * s.total := by
    rw [hI.size]
    exact le_pagesOf _
  have hcopy := writeLoop_spec hI.nodup (hin.trans hle) buf.len 0 (by omega) (Nat.zero_le _)
  unfold State.writeData
  set r := writeLoop buf offset buf.len 0 s
  have hshm : r.1.toShm = s.toShm := by rw [hcopy.same]
  have hlive : r.1.live = s.live := by rw [hcopy.same]
  have hpages : r.1.pages = s.pages := by rw [hcopy.same]; rfl
  by_cases h0 : r.2 = 0
  · rw [if_pos h0]
    refine ⟨hI.of_copied r.1.file hin hcopy, by rw [hshm], hpages, hlive, hcopy.outside,
      fun hr => ?_⟩
    rw [hcopy.all hr] at h0
    exact (hpos h0).elim
  · rw [if_neg h0]
    refine ⟨hI.of_copied _ hin hcopy, by rw [hshm], hpages, hlive, hcopy.outside, fun hr => ?_⟩
    rw [hcopy.all hr]

end Write

/-! ## The calls -/

def Call.Stored (s : State) (a : Call) (r : Except Errno ℕ) (p : ℕ) : Prop :=
  match a, r with
  | .write _ _, .ok n => s.writePos ≤ p ∧ p < s.writePos + n
  | _, _ => False

/-- The calls on the object itself. -/
def Call.own : Call → Bool
  | .ftruncate .. | .fallocate .. | .write .. => true
  | .control .. | .outside .. => false

def Clear (s : State) : Call → Prop
  | .ftruncate size q => TruncClear s size q
  | .fallocate _ off len q =>
    s.total * pageSize < u64 (off.toNat + len.toNat) →
      TruncClear s (i64 (u64 (off.toNat + len.toNat))) q
  | .write buf q =>
    s.fileSize < u64 (s.writePos + buf.len) →
      TruncClear s (i64 (u64 (s.writePos + buf.len))) q ∧ buf.len ≤ buf.readable
  | .control .. | .outside .. => True

instance (s : State) (a : Call) : Decidable (Clear s a) := by
  unfold Clear
  cases a <;> infer_instance

section Calls

variable {s s' : State} {q : Oracle} {r : Except Errno ℕ}

lemma sysFallocate_ok (hI : Inv s) {mode off len : ℤ} (hC : Clear s (.fallocate mode off len q))
    (h : sysFallocate s mode off len q = some (r, s')) :
    Inv s' ∧ StepOk s s' r fun _ => False := by
  revert h
  fun_cases sysFallocate s mode off len q with
  | case5 _ _ _ _ hmore =>
    intro h
    have ht := sysFtruncate_truncated hI (hC (Nat.lt_of_not_le hmore)) h
    exact ⟨ht.inv, ht.ok⟩
  | _ =>
    rintro ⟨⟩
    exact ⟨hI, hI.stepOk_refl _ _⟩

lemma i64_toNat {x : ℕ} (h : 0 ≤ i64 x) (hx : x < 2 ^ 64) : (i64 x).toNat = x := by
  unfold i64 at *
  split at h
  · rw [if_pos (by assumption), Int.toNat_natCast]
  · omega

lemma sysFtruncate_neg {size : ℤ} (hneg : size < 0) (h : sysFtruncate s size q = some (r, s')) :
    r = .error .EINVAL := by
  rw [sysFtruncate, if_pos hneg] at h
  exact (mk.inj (some.inj h)).1.symm

lemma Written.step_ok {t : State} {buf : UserBuf} {o : Except Errno ℕ × State} (hI : Inv s)
    (hsame : t = s ∨ (buf.len ≤ buf.readable ∧ StepOk s t (.ok 0) fun _ => False))
    (h : Written t buf s.writePos o) : StepOk s o.2 o.1 (Call.Stored s (.write buf q) o.1) := by
  obtain rfl | ⟨hread, hok⟩ := hsame
  · refine ⟨fun _ _ => ⟨h.fileSize, h.pages, h.live⟩, fun f => ?_, fun p h1 h2 => ?_⟩
    · rw [h.live, h.pages]
      exact hI.noLeak f
    · rw [h.fileSize] at h2
      omega
  · have hr := h.all hread
    refine ⟨fun e he => ?_, fun f => ?_, fun p h1 h2 hp => ?_⟩
    · exact nomatch hr.symm.trans he
    · rw [h.live, h.pages]
      exact hok.noLeak f
    · rw [hr] at hp
      change ¬(s.writePos ≤ p ∧ p < s.writePos + buf.len) at hp
      rw [h.outside p (by omega)]
      exact hok.zero p h1 (by rwa [← h.fileSize]) not_false

lemma sysWrite_ok (hI : Inv s) {buf : UserBuf} (hC : Clear s (.write buf q))
    (h : sysWrite s buf q = some (r, s')) :
    Inv s' ∧ StepOk s s' r (Call.Stored s (.write buf q) r) := by
  have hfin (hlow : ¬(u64 (buf.addr + buf.len) < buf.addr ∨ kernelVmaBoundary ≤ buf.addr ∨
      kernelVmaBoundary < u64 (buf.addr + buf.len) ∨ u64 (s.writePos + buf.len) < s.writePos)) :
      u64 (s.writePos + buf.len) = s.writePos + buf.len := by
    have hlen := buf.len_lt
    unfold u64 at *
    omega
  revert h
  fun_cases sysWrite s buf q with
  | case6 _ _ h3 _ ptrEnd offset fin hlow hgrow =>
    intro h
    obtain ⟨htc, hread⟩ := hC hgrow
    obtain ⟨⟨r1, s1⟩, hs1, h⟩ := map_eq_some_iff.1 h
    have ht := sysFtruncate_truncated hI htc hs1
    cases r1 with
    | error e =>
      obtain ⟨rfl, rfl⟩ := mk.inj h
      exact ⟨ht.inv, ht.ok.error, ht.ok.noLeak, fun p a b _ => ht.ok.zero p a b not_false⟩
    | ok n =>
      have hnn : 0 ≤ i64 fin := by
        by_contra hneg
        exact nomatch sysFtruncate_neg (by omega) hs1
      have hsize : s1.fileSize = s.writePos + buf.len := by
        rw [ht.size n rfl, i64_toNat hnn (u64_lt _)]
        exact hfin hlow
      have hw := writeData_spec buf s.writePos ht.inv hsize.ge h3
      change s1.writeData buf s.writePos = (r, s') at h
      rw [h] at hw
      have hgrown : StepOk s s1 (.ok 0) fun _ => False :=
        ⟨fun _ he => (nomatch he), ht.ok.noLeak, ht.ok.zero⟩
      exact ⟨hw.inv, hw.step_ok hI (.inr ⟨hread, hgrown⟩)⟩
  | case7 _ _ h3 _ ptrEnd offset fin hlow hfits =>
    intro h
    have hw := writeData_spec buf s.writePos hI (hfin hlow ▸ Nat.le_of_not_lt hfits) h3
    rw [some.inj h] at hw
    exact ⟨hw.inv, hw.step_ok hI (.inl rfl)⟩
  | _ =>
    rintro ⟨⟩
    exact ⟨hI, hI.stepOk_refl _ _⟩

lemma Inv.outside (hI : Inv s) {f i : ℕ} {isLive : Bool} {b : UInt8} (hf : f ∉ s.pages) :
    Inv { s with
      live := update s.live f isLive
      byte := Paged.fill s.byte f i 1 fun _ => b } := by
  have hne : ∀ g ∈ s.pages, g ≠ f := fun g hg hgf => hf (hgf ▸ hg)
  refine ⟨hI.size, hI.nodup, fun g hg => ⟨?_, (hI.live g hg).2⟩, hI.list, fun p h1 h2 => ?_,
    hI.overrun⟩
  · change update s.live f isLive g = true
    rw [update_of_ne (hne g hg)]
    exact hI.pages_live g hg
  · refine Eq.trans ?_ (hI.tail p h1 h2)
    refine Paged.look_congr fun g hg => ?_
    change Paged.fill s.byte f i 1 (fun _ => b) g = s.byte g
    exact Paged.fill_of_ne (hne g hg)

/-- Every step keeps the invariant, and a call on the object does what it must. -/
theorem call_ok (hI : Inv s) {a : Call} (hC : Clear s a) (h : call s a = some (r, s')) :
    Inv s' ∧ (a.own = true → StepOk s s' r (a.Stored s r)) := by
  cases a with
  | ftruncate size q =>
    have ht := sysFtruncate_truncated hI hC h
    exact ⟨ht.inv, fun _ => ht.ok⟩
  | fallocate mode off len q =>
    obtain ⟨hinv, hok⟩ := sysFallocate_ok hI hC h
    exact ⟨hinv, fun _ => hok⟩
  | write buf q =>
    obtain ⟨hinv, hok⟩ := sysWrite_ok hI hC h
    exact ⟨hinv, fun _ => hok⟩
  | control g h' w file =>
    obtain ⟨rfl, rfl⟩ := mk.inj (some.inj h)
    exact ⟨{ hI with }, fun hc => nomatch hc⟩
  | outside f isLive i b =>
    obtain ⟨hf, h⟩ := ite_none_left_eq_some.1 h
    obtain ⟨rfl, rfl⟩ := mk.inj (some.inj h)
    exact ⟨hI.outside hf, fun hc => nomatch hc⟩

end Calls

/-! ## Runs -/

/-- The object records its contents properly: enough pages for the size, each of them allocated
and at one index only, and all entries inside the array. -/
structure Represented (s : State) : Prop where
  size : s.fileSize ≤ pageSize * s.total
  allocated : ∀ i < s.total, s.live (s.pageAt i) = true
  distinct : ∀ i < s.total, ∀ j < s.total, s.pageAt i = s.pageAt j → i = j
  inArray : s.overrun = false

lemma Inv.represented {s : State} (hI : Inv s) : Represented s := by
  refine ⟨?_, fun i hi => ?_, fun i hi j hj hij => ?_, hI.overrun⟩
  · rw [hI.size]
    exact le_pagesOf _
  · exact hI.pages_live _ (mem_of_getElem? (getElem?_pages hi))
  · refine (getElem?_inj (by rwa [length_pages]) hI.nodup).1 ?_
    rw [getElem?_pages hi, getElem?_pages hj, hij]

/-- A step on the object leaks nothing, changes nothing when it fails and shows zero bytes in
what it adds. -/
def Fine (s : State) (a : Call) : Prop :=
  a.own = true → ∀ r s', call s a = some (r, s') → StepOk s s' r (a.Stored s r)

lemma inv_create (live : ℕ → Bool) (byte : ℕ → ℕ → UInt8) : Inv (State.create live byte) where
  size := by
    change 0 = pagesOf 0
    decide
  nodup := nodup_nil
  live := fun _ h => (not_mem_nil h).elim
  list := fun _ h => nomatch h
  tail := fun _ _ h => absurd h (Nat.not_lt_zero _)
  overrun := rfl

/-- In every run whose steps meet the condition, with any answer of the allocators otherwise, the
object records its contents properly in every state, and every call is fine. -/
theorem memfd_representation (live : ℕ → Bool) (byte : ℕ → ℕ → UInt8) (as : List Call) (s : State)
    (hC : Meets step Clear (State.create live byte) as)
    (h : exec step (State.create live byte) as = some s) :
    Represented s ∧ Meets step Fine (State.create live byte) as := by
  have hstep : ∀ s a s', Inv s → Clear s a → step s a = some s' → Inv s' := by
    intro s a s' hI hCa hs
    obtain ⟨⟨r, t⟩, ht, rfl⟩ := map_eq_some_iff.1 hs
    exact (call_ok hI hCa ht).1
  refine ⟨(exec_invariant_of_meets hstep as _ s (inv_create live byte) hC h).represented, ?_⟩
  exact Meets.imp_of_invariant hstep (fun s a hI hCa hown r s' hr => (call_ok hI hCa hr).2 hown)
    as _ (inv_create live byte) hC

/-- A system in which no frame is in use and all of them hold old bytes. -/
def unused : State := State.create (fun _ => false) fun _ _ => 0xAA

/-- Allocators that answer every request, from frame `f` on. -/
def plenty (f : ℕ) : Oracle := ⟨⟨some f, true, fun i => some (f + i)⟩, fun _ => true⟩

def twoBytes : UserBuf where
  addr := 0x1000
  len := 2
  data := fun j => if j = 0 then 65 else 66
  readable := 2
  addr_lt := by norm_num
  len_lt := by norm_num

/-- A run that converts the block, fills it over a page boundary, shrinks it to a whole page and
lets it grow again. -/
def growWriteShrinkGrow : List Call :=
  [.ftruncate 100 (plenty 5), .ftruncate 4097 (plenty 9), .control false false false
  ⟨true, false, 4095⟩,
    .write twoBytes (plenty 20), .fallocate 0 4096 4096 (plenty 20), .ftruncate 4096 (plenty 20),
    .outside 9 true 0 7, .ftruncate 4098 (plenty 30)]

theorem memfd_representation_grow_write_shrink_grow :
    Meets step Clear unused growWriteShrinkGrow ∧
    ((exec step unused growWriteShrinkGrow).map fun s => (s.fileSize, s.pages, s.look 4095)) =
      some (4098, [5, 30], some 65) ∧
    (∃ s, exec step unused growWriteShrinkGrow = some s ∧ Represented s) ∧
    Meets step Fine unused growWriteShrinkGrow := by
  have hC : Meets step Clear unused growWriteShrinkGrow := of_decide_eq_true (by decide +kernel)
  obtain ⟨s, hs, hrun⟩ : ∃ s, exec step unused growWriteShrinkGrow = some s ∧
      (s.fileSize, s.pages, s.look 4095) = (4098, [5, 30], some 65) := by decide +kernel
  obtain ⟨hrep, hfine⟩ := memfd_representation _ _ growWriteShrinkGrow s hC hs
  exact ⟨hC, by rw [hs, map_some, hrun], ⟨s, hs, hrep⟩, hfine⟩

/-- Allocators that have a block or an array but no single page. -/
def noPages (f : Option ℕ) : Oracle := ⟨⟨f, true, fun _ => none⟩, fun _ => true⟩

def errorOf : Except Errno ℕ → Option Errno
  | .error e => some e
  | .ok _ => none

lemma convert_overruns {s : State} (hl : s.pageList = none) (hn : s.npages = 17)
    (hs : s.sealGrow = false) :
    (call s (.ftruncate 0x80000000000 (noPages none))).map (fun x => x.2.overrun) = some true := by
  have htotal : s.total = 17 := by rw [← length_pages, pages_of_block hl, length_block, hn]
  have hfail : ∀ n t, addPages (noPages none) (n + 1) 0 t = some (t, 0, false) := fun _ _ => rfl
  have hpages : pagesOf (0x80000000000 : ℤ).toNat = 17 + (2147483630 + 1) := by
    decide
  have hcap : listCap (17 + (2147483630 + 1)) = 16 := by decide
  have hextra : 17 + (2147483630 + 1) - 17 = 2147483630 + 1 := by decide
  simp only [call, sysFtruncate, hpages, htotal, State.grow, hs, hl, State.growPages, hn, hextra,
    hfail, hcap]
  change some (s.overrun || decide (16 < s.npages)) = some true
  rw [hn, decide_eq_true (by decide), Bool.or_true]

/-- What goes wrong without the condition. With no block for an empty object the size is set
although there is no page. When the conversion of a block cannot get a page, the call fails and
the object has lost the page it had, which stays allocated; with so large a size that `list_cap`
is not positive as an `int`, the entries also run over the end of the array. Bytes that a
shrinking call has cut off are back when the file grows within the page. A write whose buffer
cannot be read fails with the size changed. -/
theorem pages_lost_and_stale_bytes_shown :
    ((call unused (.ftruncate 4096 (noPages none))).map fun x =>
      (errorOf x.1, x.2.fileSize, x.2.total)) = some (none, 4096, 0) ∧
    ((exec step unused [.ftruncate 4096 (plenty 5)]).bind fun s =>
      (call s (.ftruncate 8192 (noPages none))).map fun x =>
        (errorOf x.1, s.pages, x.2.pages, x.2.fileSize, x.2.live 5)) =
      some (some .ENOMEM, [5], [], 4096, true) ∧
    ((exec step unused [.ftruncate 0x11000 (plenty 5)]).bind fun s =>
      (call s (.ftruncate 0x80000000000 (noPages none))).map fun x => x.2.overrun) = some true ∧
    ((exec step unused [.ftruncate 2 (plenty 5), .write twoBytes (plenty 9),
      .ftruncate 1 (plenty 9), .ftruncate 2 (plenty 9)]).bind fun s => s.look 1) = some 66 ∧
    ((call unused (.write { twoBytes with readable := 0 } (plenty 5))).map fun x =>
      (errorOf x.1, x.2.fileSize, x.2.pages)) = some (some .EFAULT, 2, [5]) := by
  refine ⟨by decide +kernel, by decide +kernel, ?_, by decide +kernel, by decide +kernel⟩
  obtain ⟨s, hs, hlist, hnpages, hseal⟩ : ∃ s, exec step unused [.ftruncate 0x11000 (plenty 5)] =
      some s ∧ s.pageList = none ∧ s.npages = 17 ∧ s.sealGrow = false := by decide +kernel
  rw [hs, bind_some]
  exact convert_overruns hlist hnpages hseal

end XosKernel.MemfdData
