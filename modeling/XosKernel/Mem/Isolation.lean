/-
# Private memory stays private

In every run whose `mprotect` calls grant write permission only to private pages that are
mapped nowhere else, and in which no frame is freed while it is mapped, no private frame is
writable while two address spaces map it, and no store to a private page is seen by another
address space. Runs without the conditions follow.
-/
import XosKernel.Mem.ForkRun

namespace XosKernel.Fork

open Option List Bool

variable {tr : ℕ} {s : Sys} {l x : Leaf} {as vpn : ℕ}

structure Isolated (s : Sys) : Prop where
  /-- a private frame that two address spaces map is writable through neither -/
  read_only : ∀ l ∈ s.leaves, ∀ x ∈ s.leaves, s.external l.pte.frame = false →
    l.as ≠ x.as → l.pte.frame = x.pte.frame → l.pte.writable = false
  /-- an attempt to store to a private page, fault or not, changes nothing that another
  address space reads -/
  unseen : ∀ as vpn v alloc s', store s as vpn v alloc = some s' →
    (∀ l, s.lookupPte as vpn = some l → s.external l.pte.frame = false) →
    ∀ as', as' ≠ as → ∀ vpn', s'.read as' vpn' = s.read as' vpn'

/-! ## Reads of the other address spaces -/

lemma find?_erase_of_not {α : Type*} [DecidableEq α] {q : α → Bool} {a : α} (ha : q a = false)
    (L : List α) : (L.erase a).find? q = L.find? q := by
  induction L with
  | nil => rfl
  | cons b L ih =>
    by_cases hb : b = a
    · subst hb
      rw [erase_cons_head, find?_cons_of_neg (by simp [ha])]
    · rw [erase_cons_tail (by simpa using hb), find?_cons, find?_cons, ih]

lemma lookupPte_setPte (p : Pte) {as' : ℕ} (hne : l.as ≠ as') (vpn' : ℕ) :
    (s.setPte l p).lookupPte as' vpn' = s.lookupPte as' vpn' := by
  show find? _ ({ l with pte := p } :: s.leaves.erase l) = _
  rw [find?_cons_of_neg (by simp [hne]), find?_erase_of_not (by simp [hne])]
  rfl

lemma read_setMem {f v as' vpn' : ℕ}
    (hf : ∀ x, s.lookupPte as' vpn' = some x → x.pte.frame ≠ f) :
    (s.setMem f v).read as' vpn' = s.read as' vpn' := by
  have hlook : (s.setMem f v).lookupPte as' vpn' = s.lookupPte as' vpn' := rfl
  rw [Sys.read, Sys.read, hlook]
  cases h : s.lookupPte as' vpn' with
  | none => rfl
  | some x => exact congrArg some (Function.update_of_ne (hf x h) ..)

lemma Inv.read_resolveCowFault (h : Inv tr s) (hlas : l.as = as)
    {alloc : Option ℕ} (halloc : ∀ new ∈ alloc, s.refcount new = 0) {as' : ℕ} (hne : as' ≠ as)
    (vpn' : ℕ) : (Fork.resolveCowFault s l alloc).read as' vpn' = s.read as' vpn' := by
  have hlas' : l.as ≠ as' := fun e => hne (e.symm.trans hlas)
  rw [Fork.resolveCowFault.eq_def]
  split_ifs with hone
  · show Option.map _ ((s.setPte l _).lookupPte as' vpn') = _
    rw [lookupPte_setPte _ hlas']
    rfl
  · cases alloc with
    | none => rfl
    | some new =>
      -- the copy goes to a frame that no leaf maps
      have hfree : ∀ x, s.lookupPte as' vpn' = some x → x.pte.frame ≠ new := by
        rintro x hx rfl
        have hpos := uses_pos (lookupPte_some hx).1
        rw [h.uses_of_free (halloc _ rfl)] at hpos
        omega
      calc ((((s.setCount new 1).setMem new (s.mem l.pte.frame)).setPte l _).refcountDec
              l.pte.frame).read as' vpn'
          = Option.map (fun x => (s.setMem new (s.mem l.pte.frame)).mem x.pte.frame)
              ((s.setPte l _).lookupPte as' vpn') := rfl
        _ = (s.setMem new (s.mem l.pte.frame)).read as' vpn' := by
              rw [lookupPte_setPte _ hlas']
              rfl
        _ = s.read as' vpn' := read_setMem hfree

lemma Inv.read_store (h : Inv tr s) {v : ℕ} {alloc : Option ℕ} {s' : Sys}
    (hs : Fork.store s as vpn v alloc = some s')
    (hpriv : ∀ l, s.lookupPte as vpn = some l → s.external l.pte.frame = false)
    {as' : ℕ} (hne : as' ≠ as) (vpn' : ℕ) : s'.read as' vpn' = s.read as' vpn' := by
  rw [Fork.store] at hs
  split at hs
  · rw [some.inj hs]
  next l hlook =>
  obtain ⟨hl, hlas, -⟩ := lookupPte_some hlook
  split_ifs at hs with hw hcow halloc
  · -- the store goes through: the frame has no other leaf
    obtain rfl := some.inj hs
    refine read_setMem fun x hx hf => ?_
    obtain ⟨hx, hxas, -⟩ := lookupPte_some hx
    have hxl : x ≠ l := by
      rintro rfl
      exact hne (hxas.symm.trans hlas)
    have htwo := two_le_uses hl hx hxl hf
    have hrw : l.pte.rw = true := (and_eq_true_iff.1 (and_eq_true_iff.1 hw).1).2
    have hone := h.sole l hl (hpriv l hlook) hrw
    omega
  · rw [← some.inj hs]
    exact h.read_resolveCowFault hlas halloc hne vpn'
  · rw [some.inj hs]

lemma Inv.isolated (h : Inv tr s) : Isolated s := by
  constructor
  · intro l hl x hx hext has hf
    by_contra hw
    have hw' := eq_true_of_not_eq_false hw
    have hrw : l.pte.rw = true := (and_eq_true_iff.1 (and_eq_true_iff.1 hw').1).2
    have hne : x ≠ l := by
      rintro rfl
      exact has rfl
    have htwo := two_le_uses hl hx hne hf.symm
    have hone := h.sole l hl hext hrw
    omega
  · intro as vpn v alloc s' hs hpriv as' hne vpn'
    exact h.read_store hs hpriv hne vpn'

/-! ## Runs -/

lemma Inv.step (h : Inv tr s) {c : Call} (hun : Unshared tr s c) {s' : Sys}
    (hs : step tr s c = some s') : Inv tr s' := by
  cases c with
  | mapPrivate as vpn f prot region => exact h.mapPrivate hs
  | mapExternal as vpn f prot b => exact h.mapExternal hs
  | mapTrampoline as vpn => exact h.mapTrampoline hs
  | lend f => exact h.lend hs
  | giveBack f => exact h.giveBack hs hun
  | fork parent child lost => exact h.fork hs hun
  | forkFailed parent child n => exact h.forkFailed hs hun
  | store as vpn v alloc => exact h.store hs
  | mprotect as addr size prot split => exact some.inj hs ▸ h.sysMprotect hun
  | munmap as vpns => exact some.inj hs ▸ h.munmapPages as vpns
  | exit as => exact some.inj hs ▸ h.mmRelease as

/-- A private page, a fork that fails, an shm page and a fork that does not; the child copies the
private page and changes its protection, and the shm object goes when both have dropped its page. -/
def forkCalls : List Call :=
  [.mapPrivate 0 16 7 3 true, .forkFailed 0 1 1, .lend 9, .mapExternal 0 17 9 3 (.shm [9]),
    .fork 0 1 [], .store 1 16 42 (some 8), .store 1 16 42 none,
    .mprotect 1 (16 * 4096) 4096 3 true, .munmap 0 [17], .exit 1, .giveBack 9,
    .mapPrivate 1 17 9 3 true]

/-- After a fork the parent asks for the write permission that the page had all along. -/
def mprotectCalls : List Call :=
  [.mapPrivate 0 16 7 3 true, .fork 0 1 [], .mprotect 0 (16 * 4096) 4096 3 true]

/-- A failing fork frees a page of an shm object, and another process gets it. -/
def forkFailedCalls : List Call :=
  [.lend 9, .mapExternal 0 17 9 3 (.shm [9]), .forkFailed 0 1 1, .mapPrivate 2 16 9 3 true,
    .store 2 16 42 none]

lemma leaves_mprotectCalls :
    (exec (step 1) (Sys.boot 1) mprotectCalls).map (fun t => (t.leaves, t.external 7)) =
      some ([⟨0, 16, protPte 7 3⟩, ⟨1, 16, cowPte (protPte 7 3)⟩], false) := by
  decide +kernel

end XosKernel.Fork
