/-
# The copy-on-write invariant

For frames of the page allocator the page count is the number of leaves over the frame, and
a leaf that allows writing is the only one over its frame. The rest of the invariant says
that regions and leaves agree on which pages are somebody else's, so that fork and exit
skip exactly the external ones.
-/
import XosKernel.Mem.Fork

namespace XosKernel.Fork

open List Function Bool

def Sys.uses (s : Sys) (f : ℕ) : ℕ := s.leaves.countP fun l => l.pte.frame = f

def Leaf.key (l : Leaf) : ℕ × ℕ := (l.as, l.vpn)

def Area.key (a : Area) : ℕ × ℕ := (a.as, a.vpn)

variable {tr : ℕ} {s : Sys} {l x : Leaf} {p : Pte}

structure Inv (tr : ℕ) (s : Sys) : Prop where
  keys : (s.leaves.map Leaf.key).Nodup
  areaKeys : (s.areas.map Area.key).Nodup
  counts : ∀ f, s.external f = false → s.refcount f = s.uses f
  held : ∀ f, s.external f = true → s.refcount f = 1
  tramp : s.external tr = true
  sole : ∀ l ∈ s.leaves, s.external l.pte.frame = false → l.pte.rw = true →
    s.uses l.pte.frame = 1
  cow : ∀ l ∈ s.leaves, l.pte.cow = true → s.external l.pte.frame = false
  named : ∀ a ∈ s.areas, ∀ f ∈ a.backing.frames, s.external f = true
  /-- a leaf over an external frame is the trampoline or lies in a region that says so -/
  backed : ∀ l ∈ s.leaves, s.external l.pte.frame = true → l.pte.frame = tr ∨
    ∃ a ∈ s.areas, a.key = l.key ∧ a.claims l.vpn l.pte.frame = true
  /-- the leaves in anonymous regions are the private ones -/
  anon : ∀ l ∈ s.leaves, ∀ a ∈ s.areas, a.key = l.key →
    (a.backing = .anon ↔ s.external l.pte.frame = false)

lemma Inv.boot (tr : ℕ) : Inv tr (Sys.boot tr) := by
  constructor <;> simp +contextual [Sys.boot, Sys.uses]

/-! ## Leaves and their number -/

lemma Inv.leaf_nodup (h : Inv tr s) : s.leaves.Nodup := List.Nodup.of_map _ h.keys

lemma Inv.leaf_ext (h : Inv tr s) (hl : l ∈ s.leaves) (hx : x ∈ s.leaves)
    (hk : l.key = x.key) : l = x :=
  inj_on_of_nodup_map h.keys hl hx hk

variable {as vpn : ℕ} {a : Area}

lemma lookupPte_some (hl : s.lookupPte as vpn = some l) :
    l ∈ s.leaves ∧ l.as = as ∧ l.vpn = vpn := by
  refine ⟨mem_of_find?_eq_some hl, ?_⟩
  simpa using find?_some hl

lemma lookupPte_none (h : s.lookupPte as vpn = none) (hl : l ∈ s.leaves) : l.key ≠ (as, vpn) := by
  intro hk
  have := find?_eq_none.1 h l hl
  simp only [Leaf.key, Prod.mk.injEq] at hk
  simp [hk] at this

lemma vmaFind_some (ha : s.vmaFind as vpn = some a) : a ∈ s.areas ∧ a.as = as ∧ a.vpn = vpn := by
  refine ⟨mem_of_find?_eq_some ha, ?_⟩
  simpa using find?_some ha

lemma vmaFind_none (h : s.vmaFind as vpn = none) (ha : a ∈ s.areas) : a.key ≠ (as, vpn) := by
  intro hk
  have := find?_eq_none.1 h a ha
  simp only [Area.key, Prod.mk.injEq] at hk
  simp [hk] at this

lemma uses_addLeaf (f : ℕ) :
    (s.addLeaf l).uses f = s.uses f + if l.pte.frame = f then 1 else 0 := by
  simp [Sys.uses, Sys.addLeaf, countP_cons]

section

variable (hl : l ∈ s.leaves)
include hl

lemma uses_dropLeaf (f : ℕ) :
    (s.dropLeaf l).uses f = s.uses f - if l.pte.frame = f then 1 else 0 := by
  simp [Sys.uses, Sys.dropLeaf, countP_erase, hl]

lemma uses_pos : 0 < s.uses l.pte.frame :=
  countP_pos_iff.2 ⟨l, hl, by simp⟩

lemma uses_setPte (hp : p.frame = l.pte.frame) (f : ℕ) : (s.setPte l p).uses f = s.uses f := by
  have hpos := uses_pos hl
  rw [Sys.setPte, uses_addLeaf, uses_dropLeaf hl]
  rw [hp]
  split_ifs with hf
  · subst hf
    omega
  · rfl

lemma two_le_uses (hx : x ∈ s.leaves) (hne : x ≠ l)
    (hf : x.pte.frame = l.pte.frame) : 2 ≤ s.uses l.pte.frame := by
  have hdrop := uses_dropLeaf hl l.pte.frame
  have hx' : x ∈ (s.dropLeaf l).leaves := (mem_erase_of_ne hne).2 hx
  have hpos := uses_pos hx'
  rw [hf] at hpos
  rw [if_pos rfl] at hdrop
  omega

end

section

variable (h : Inv tr s)
include h

lemma Inv.uses_eq_one (hl : l ∈ s.leaves)
    (honly : ∀ x ∈ s.leaves, x.pte.frame = l.pte.frame → x = l) : s.uses l.pte.frame = 1 := by
  have hzero : (s.dropLeaf l).uses l.pte.frame = 0 := by
    refine countP_eq_zero.2 fun x hx => ?_
    have hx' := (h.leaf_nodup.mem_erase_iff).1 hx
    simpa using fun hf => hx'.1 (honly x hx'.2 hf)
  have hpos := uses_pos hl
  rw [uses_dropLeaf hl, if_pos rfl] at hzero
  omega

lemma Inv.mem_dropLeaf : x ∈ (s.dropLeaf l).leaves ↔ x ≠ l ∧ x ∈ s.leaves :=
  h.leaf_nodup.mem_erase_iff

/-! ## One leaf at a time -/

lemma Inv.drop (hl : l ∈ s.leaves) {rc : ℕ → ℕ}
    (hrc : ∀ f, s.external f = false → rc f = s.refcount f - if l.pte.frame = f then 1 else 0)
    (hheld : ∀ f, s.external f = true → rc f = s.refcount f) :
    Inv tr { s.dropLeaf l with refcount := rc } := by
  have huses := uses_dropLeaf hl
  have hsub : ∀ x ∈ (s.dropLeaf l).leaves, x ∈ s.leaves := fun x hx => (h.mem_dropLeaf.1 hx).2
  constructor
  case keys => exact h.keys.sublist ((erase_sublist).map Leaf.key)
  case areaKeys => exact h.areaKeys
  case counts =>
    intro f hf
    exact (hrc f hf).trans (by rw [h.counts f hf]; exact (huses f).symm)
  case held => exact fun f hf => (hheld f hf).trans (h.held f hf)
  case tramp => exact h.tramp
  case sole =>
    intro x hx hext hrw
    have hone := h.sole x (hsub x hx) hext hrw
    have hne : l.pte.frame ≠ x.pte.frame := by
      intro hf
      have := two_le_uses hl (hsub x hx) (h.mem_dropLeaf.1 hx).1 hf.symm
      rw [hf] at this
      omega
    refine (huses _).trans ?_
    rw [if_neg hne]
    exact hone
  case cow => exact fun x hx => h.cow x (hsub x hx)
  case named => exact h.named
  case backed => exact fun x hx => h.backed x (hsub x hx)
  case anon => exact fun x hx => h.anon x (hsub x hx)

lemma Inv.drop_external (hl : l ∈ s.leaves)
    (hext : s.external l.pte.frame = true) : Inv tr (s.dropLeaf l) := by
  refine h.drop hl (fun f hf => ?_) fun _ _ => rfl
  rw [if_neg]
  · rfl
  · rintro rfl
    rw [hext] at hf
    cases hf

lemma Inv.drop_dec (hl : l ∈ s.leaves) (hpriv : s.external l.pte.frame = false) :
    Inv tr ((s.dropLeaf l).refcountDec l.pte.frame) := by
  refine h.drop hl (fun f _ => ?_) fun f hf => update_of_ne ?_ ..
  · by_cases hf : l.pte.frame = f
    · subst hf
      exact (update_self ..).trans (by rw [if_pos rfl]; rfl)
    · exact (update_of_ne (Ne.symm hf) ..).trans (by rw [if_neg hf]; rfl)
  · rintro rfl
    rw [hpriv] at hf
    cases hf

/-- Adding a leaf at an unused page: its reference is counted, the leaves over its frame are
read-only unless it is alone, and the regions at the page fit. -/
lemma Inv.add (hkey : ∀ x ∈ s.leaves, x.key ≠ l.key) {rc : ℕ → ℕ}
    (hrc : ∀ f, s.external f = false → rc f = s.refcount f + if l.pte.frame = f then 1 else 0)
    (hheld : ∀ f, s.external f = true → rc f = s.refcount f)
    (hro : s.external l.pte.frame = false → s.uses l.pte.frame = 0 ∨
      l.pte.rw = false ∧ ∀ x ∈ s.leaves, x.pte.frame = l.pte.frame → x.pte.rw = false)
    (hcow : l.pte.cow = true → s.external l.pte.frame = false)
    (hbacked : s.external l.pte.frame = true → l.pte.frame = tr ∨
      ∃ a ∈ s.areas, a.key = l.key ∧ a.claims l.vpn l.pte.frame = true)
    (hanon : ∀ a ∈ s.areas, a.key = l.key →
      (a.backing = .anon ↔ s.external l.pte.frame = false)) :
    Inv tr { s.addLeaf l with refcount := rc } := by
  have huses : ∀ f, Sys.uses { s.addLeaf l with refcount := rc } f =
      s.uses f + if l.pte.frame = f then 1 else 0 := fun f => uses_addLeaf f
  constructor
  case keys =>
    refine nodup_cons.2 ⟨?_, h.keys⟩
    rw [mem_map]
    rintro ⟨x, hx, hk⟩
    exact hkey x hx hk
  case areaKeys => exact h.areaKeys
  case counts =>
    intro f hf
    rw [huses, ← h.counts f hf]
    exact hrc f hf
  case held => exact fun f hf => (hheld f hf).trans (h.held f hf)
  case tramp => exact h.tramp
  case sole =>
    intro x hx hext hrw
    rw [huses]
    rcases mem_cons.1 hx with rfl | hx
    · rcases hro hext with hzero | ⟨hro, -⟩
      · rw [if_pos rfl, hzero]
      · rw [hro] at hrw
        cases hrw
    · have hne : l.pte.frame ≠ x.pte.frame := by
        intro hf
        rcases hro (hf ▸ hext) with hzero | ⟨-, hothers⟩
        · have := uses_pos hx
          rw [← hf] at this
          omega
        · rw [hothers x hx hf.symm] at hrw
          cases hrw
      rw [if_neg hne]
      exact h.sole x hx hext hrw
  case cow => exact forall_mem_cons.2 ⟨hcow, h.cow⟩
  case named => exact h.named
  case backed =>
    intro x hx
    rcases mem_cons.1 hx with rfl | hx
    · exact hbacked
    · exact h.backed x hx
  case anon =>
    intro x hx
    rcases mem_cons.1 hx with rfl | hx
    · exact hanon
    · exact h.anon x hx

/-- Rewriting an entry over the same frame, writable only if the leaf is alone. -/
lemma Inv.setPte (hl : l ∈ s.leaves) (hp : p.frame = l.pte.frame)
    (hrw : s.external l.pte.frame = false → p.rw = true → s.uses l.pte.frame = 1)
    (hcow : p.cow = true → s.external l.pte.frame = false) :
    Inv tr (s.setPte l p) := by
  -- the leaf goes, and comes back with the new entry
  have hdrop : Inv tr { s.dropLeaf l with
      refcount f := if s.external f then s.refcount f else
        s.refcount f - if l.pte.frame = f then 1 else 0 } :=
    h.drop hl (by simp +contextual) (by simp +contextual)
  have hadd : Inv tr { s.setPte l p with refcount := s.refcount } := by
    refine hdrop.add (fun x hx hk => ?_) (fun f hf => ?_) (fun f hf => (if_pos hf).symm)
      ?_ ?_ ?_ ?_
    · obtain ⟨hne, hx⟩ := h.mem_dropLeaf.1 hx
      exact hne (h.leaf_ext hx hl hk)
    all_goals simp only [hp]
    · have hpos := uses_pos hl
      rw [h.counts f hf, if_neg (by rw [show s.external f = false from hf]; decide)]
      split_ifs with hlf
      · rw [← hlf]
        omega
      · rfl
    · intro hext
      cases hprw : p.rw with
      | true => exact .inl ((uses_dropLeaf hl _).trans (by rw [if_pos rfl, hrw hext hprw]))
      | false =>
        refine .inr ⟨rfl, fun x hx hf => eq_false_iff.2 fun hxrw => ?_⟩
        obtain ⟨hne, hx⟩ := h.mem_dropLeaf.1 hx
        have htwo := two_le_uses hl hx hne hf
        rw [← hf, h.sole x hx (hf ▸ hext) hxrw] at htwo
        omega
    · exact hcow
    · exact h.backed l hl
    · exact h.anon l hl
  exact hadd

/-! ## Regions -/

lemma Inv.add_area (hkey : ∀ b ∈ s.areas, b.key ≠ a.key)
    (hleaf : ∀ x ∈ s.leaves, x.key ≠ a.key) (hext : ∀ f ∈ a.backing.frames, s.external f = true) :
    Inv tr { s with areas := a :: s.areas } := by
  refine { h with areaKeys := ?areaKeys, named := ?named, backed := ?backed, anon := ?anon }
  case areaKeys =>
    refine nodup_cons.2 ⟨?_, h.areaKeys⟩
    rw [mem_map]
    rintro ⟨b, hb, hk⟩
    exact hkey b hb hk
  case named => exact forall_mem_cons.2 ⟨hext, h.named⟩
  case backed =>
    intro x hx hxe
    refine (h.backed x hx hxe).imp_right ?_
    rintro ⟨b, hb, hk⟩
    exact ⟨b, mem_cons_of_mem _ hb, hk⟩
  case anon =>
    intro x hx b hb hk
    rcases mem_cons.1 hb with rfl | hb
    · exact absurd hk.symm (hleaf x hx)
    · exact h.anon x hx b hb hk

lemma Inv.drop_areas {areas : List Area} (hsub : areas.Sublist s.areas)
    (hleaf : ∀ a ∈ s.areas, a ∉ areas → ∀ x ∈ s.leaves, x.key ≠ a.key) :
    Inv tr { s with areas := areas } := by
  refine { h with areaKeys := ?areaKeys, named := ?named, backed := ?backed, anon := ?anon }
  case areaKeys => exact h.areaKeys.sublist (hsub.map Area.key)
  case named => exact fun a ha => h.named a (hsub.subset ha)
  case backed =>
    intro x hx hxe
    refine (h.backed x hx hxe).imp_right ?_
    rintro ⟨a, ha, hk, hc⟩
    refine ⟨a, ?_, hk, hc⟩
    by_contra hna
    exact hleaf a ha hna x hx hk.symm
  case anon => exact fun x hx a ha => h.anon x hx a (hsub.subset ha)

/-- Fork and exit skip exactly the leaves over external frames. -/
lemma Inv.skips_iff (hl : l ∈ s.leaves) : s.skips tr l = true ↔ s.external l.pte.frame = true := by
  simp only [Sys.skips, Sys.isShared, or_eq_true, decide_eq_true_eq, any_eq_true,
    and_eq_true]
  constructor
  · rintro (ht | ⟨a, ha, has, hc⟩)
    · rw [ht]
      exact h.tramp
    · by_contra hext
      have hnamed := h.named a ha
      have hanon hk := (h.anon l hl a ha hk).2 (eq_false_of_not_eq_true hext)
      rw [Area.claims] at hc
      cases hb : a.backing with
      | anon => simp [hb] at hc
      | shm frames | phys frames =>
        rw [hb] at hc hnamed
        exact hext (hnamed _ (by simpa [Backing.frames] using hc))
      | owner =>
        -- an owner's region at the page itself: a private leaf cannot be there
        rw [hb] at hc
        have hvpn : a.vpn = l.vpn := by simpa using hc
        have := hanon (Prod.ext has hvpn)
        rw [hb] at this
        cases this
  · intro hext
    refine (h.backed l hl hext).imp_right ?_
    rintro ⟨a, ha, hk, hc⟩
    exact ⟨a, ha, congrArg Prod.fst hk, hc⟩

end

end XosKernel.Fork
