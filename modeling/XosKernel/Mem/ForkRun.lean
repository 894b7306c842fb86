/-
# The calls keep the copy-on-write invariant

Every call keeps the invariant of `ForkInv`, some on a condition. Where `mprotect` grants
write permission, the private pages it touches are mapped nowhere else: the code does not
look at the page count there and drops the copy-on-write mark. The frames of shm objects,
devices and owners are not freed while they are mapped: a fork that runs out of memory
releases a child without regions and does just that.
-/
import XosKernel.Mem.ForkInv

namespace XosKernel.Fork

open Option Function List Prod

variable {tr : ℕ} {s : Sys} {l x : Leaf} {as vpn f : ℕ}

/-! ## New mappings -/

lemma Inv.private_of_free (h : Inv tr s) (hf : s.refcount f = 0) : s.external f = false := by
  refine Bool.eq_false_of_not_eq_true fun he => ?_
  rw [h.held f he] at hf
  cases hf

lemma Inv.uses_of_free (h : Inv tr s) (hf : s.refcount f = 0) : s.uses f = 0 :=
  (h.counts f (h.private_of_free hf)).symm.trans hf

lemma protPte_frame (prot : ℕ) : (protPte f prot).frame = f := rfl

lemma Inv.add_fresh (h : Inv tr s) (hf : s.refcount l.pte.frame = 0)
    (hkey : ∀ x ∈ s.leaves, x.key ≠ l.key)
    (hanon : ∀ a ∈ s.areas, a.key = l.key → a.backing = .anon) :
    Inv tr ((s.setCount l.pte.frame 1).addLeaf l) := by
  have hext := h.private_of_free hf
  refine h.add hkey (fun g _ => ?_) (fun g hg => update_of_ne ?_ ..)
    (fun _ => .inl (h.uses_of_free hf)) (fun _ => hext) (fun he => ?_)
    fun a ha hk => iff_of_true (hanon a ha hk) hext
  · by_cases hg : l.pte.frame = g
    · subst hg
      exact (update_self ..).trans (by rw [if_pos rfl, hf])
    · exact (update_of_ne (Ne.symm hg) ..).trans (by rw [if_neg hg, Nat.add_zero])
  · rintro rfl
    rw [hext] at hg
    cases hg
  · rw [hext] at he
    cases he

lemma Inv.mem (h : Inv tr s) (m : ℕ → ℕ) : Inv tr { s with mem := m } :=
  { h with }

lemma Inv.mapPrivate (h : Inv tr s) {prot : ℕ} {region : Bool} {s' : Sys}
    (hs : mapPrivate s as vpn f prot region = some s') : Inv tr s' := by
  rw [Fork.mapPrivate] at hs
  split at hs
  next hc =>
    obtain rfl := some.inj hs
    obtain ⟨hf, hleaf, harea⟩ := hc
    have hkey : ∀ x ∈ s.leaves, x.key ≠ (as, vpn) := fun x hx => lookupPte_none hleaf hx
    have hakey : ∀ a ∈ s.areas, a.key ≠ (as, vpn) := fun a ha => vmaFind_none harea ha
    cases region with
    | false =>
      exact (h.add_fresh (l := ⟨as, vpn, protPte f prot⟩) hf hkey
        fun a ha hk => absurd hk (hakey a ha)).mem _
    | true =>
      have h₁ := h.add_area (a := ⟨as, vpn, .anon⟩) hakey hkey (by rintro g ⟨⟩)
      refine (h₁.add_fresh (l := ⟨as, vpn, protPte f prot⟩) hf hkey ?_).mem _
      intro a ha hk
      rcases mem_cons.1 ha with rfl | ha
      · rfl
      · exact absurd hk (hakey a ha)
  · cases hs

lemma Inv.add_external (h : Inv tr s) (hext : s.external l.pte.frame = true)
    (hcow : l.pte.cow = false) (hkey : ∀ x ∈ s.leaves, x.key ≠ l.key)
    (hbacked : l.pte.frame = tr ∨
      ∃ a ∈ s.areas, a.key = l.key ∧ a.claims l.vpn l.pte.frame = true)
    (hanon : ∀ a ∈ s.areas, a.key = l.key → a.backing ≠ .anon) : Inv tr (s.addLeaf l) := by
  have hpriv : s.external l.pte.frame ≠ false := by
    rw [hext]
    decide
  refine h.add hkey (fun g hg => ?_) (fun _ _ => rfl) (fun he => absurd he hpriv) (fun hc => ?_)
    (fun _ => hbacked) fun a ha hk => iff_of_false (hanon a ha hk) hpriv
  case refine_2 =>
    rw [hcow] at hc
    cases hc
  rw [if_neg, Nat.add_zero]
  rintro rfl
  exact hpriv hg

lemma Inv.mapExternal (h : Inv tr s) {prot : ℕ} {b : Backing} {s' : Sys}
    (hs : mapExternal s as vpn f prot b = some s') : Inv tr s' := by
  rw [Fork.mapExternal] at hs
  split_ifs at hs with hc
  obtain rfl := some.inj hs
  obtain ⟨hext, hclaims, hb, hleaf, harea⟩ := hc
  have hkey : ∀ x ∈ s.leaves, x.key ≠ (as, vpn) := fun x hx => lookupPte_none hleaf hx
  have hakey : ∀ a ∈ s.areas, a.key ≠ (as, vpn) := fun a ha => vmaFind_none harea ha
  have h₁ := h.add_area (a := ⟨as, vpn, b⟩) hakey hkey hb
  refine h₁.add_external (l := ⟨as, vpn, protPte f prot⟩) hext rfl hkey
    (.inr ⟨⟨as, vpn, b⟩, mem_cons_self, rfl, hclaims⟩) fun a ha hk => ?_
  rcases mem_cons.1 ha with rfl | ha
  · rintro rfl
    cases hclaims
  · exact absurd hk (hakey a ha)

lemma Inv.mapTrampoline (h : Inv tr s) {s' : Sys}
    (hs : mapTrampoline tr s as vpn = some s') : Inv tr s' := by
  rw [Fork.mapTrampoline] at hs
  split_ifs at hs with hc
  obtain rfl := some.inj hs
  exact h.add_external (l := ⟨as, vpn, protPte tr 5⟩) h.tramp
    rfl (fun x hx => lookupPte_none hc.1 hx) (.inl rfl)
    fun a ha hk => absurd hk (vmaFind_none hc.2 ha)

/-- A frame that nobody maps changes hands. -/
lemma Inv.setOwner (h : Inv tr s) {b : Bool} (hleaf : ∀ l ∈ s.leaves, l.pte.frame ≠ f)
    (hb : b = true ∨ f ≠ tr ∧ ∀ a ∈ s.areas, f ∉ a.backing.frames) : Inv tr (s.setOwner f b) := by
  have huses : s.uses f = 0 := countP_eq_zero.2 fun l hl => by simpa using hleaf l hl
  have hext : ∀ l ∈ s.leaves, (s.setOwner f b).external l.pte.frame = s.external l.pte.frame :=
    fun l hl => update_of_ne (hleaf l hl) ..
  have hkeep : ∀ g, g ≠ f → (s.setOwner f b).external g = s.external g ∧
      (s.setOwner f b).refcount g = s.refcount g :=
    fun g hg => ⟨update_of_ne hg .., update_of_ne hg ..⟩
  have hself : (s.setOwner f b).external f = b ∧ (s.setOwner f b).refcount f = b.toNat :=
    ⟨update_self .., update_self ..⟩
  constructor
  case keys => exact h.keys
  case areaKeys => exact h.areaKeys
  case counts =>
    intro g hg
    by_cases hgf : g = f
    · subst hgf
      rw [hself.2, ← hself.1, hg]
      exact huses.symm
    · rw [(hkeep g hgf).1] at hg
      exact (hkeep g hgf).2.trans (h.counts g hg)
  case held =>
    intro g hg
    by_cases hgf : g = f
    · subst hgf
      rw [hself.2, ← hself.1, hg]
      rfl
    · rw [(hkeep g hgf).1] at hg
      exact (hkeep g hgf).2.trans (h.held g hg)
  case tramp =>
    by_cases ht : tr = f
    · subst ht
      exact hself.1.trans (hb.resolve_right fun hne => hne.1 rfl)
    · exact (hkeep tr ht).1.trans h.tramp
  case sole => exact fun l hl he => h.sole l hl ((hext l hl).symm.trans he)
  case cow => exact fun l hl hc => (hext l hl).trans (h.cow l hl hc)
  case named =>
    intro a ha g hg
    by_cases hgf : g = f
    · subst hgf
      exact hself.1.trans (hb.resolve_right fun hno => hno.2 a ha hg)
    · exact (hkeep g hgf).1.trans (h.named a ha g hg)
  case backed => exact fun l hl he => h.backed l hl ((hext l hl).symm.trans he)
  case anon =>
    intro l hl a ha hk
    rw [hext l hl]
    exact h.anon l hl a ha hk

lemma Inv.lend (h : Inv tr s) {s' : Sys} (hs : lend s f = some s') : Inv tr s' := by
  rw [Fork.lend] at hs
  split_ifs at hs with hf
  obtain rfl := some.inj hs
  refine h.setOwner (fun l hl e => ?_) (.inl rfl)
  have hpos := uses_pos hl
  rw [e, h.uses_of_free hf] at hpos
  cases hpos

lemma Inv.giveBack (h : Inv tr s) {s' : Sys} (hs : giveBack tr s f = some s')
    (hun : (∀ l ∈ s.leaves, l.pte.frame ≠ f) ∧ ∀ a ∈ s.areas, f ∉ a.backing.frames) :
    Inv tr s' := by
  rw [Fork.giveBack] at hs
  split_ifs at hs with hf
  obtain rfl := some.inj hs
  exact h.setOwner hun.1 (.inr ⟨hf.2, hun.2⟩)

/-! ## Walks over the leaves of one address space -/

/-- The leaves still to visit are in the tables. -/
structure Pending (tr : ℕ) (ls : List Leaf) (s : Sys) : Prop where
  inv : Inv tr s
  nodup : ls.Nodup
  mem : ∀ l ∈ ls, l ∈ s.leaves

lemma Inv.pending (h : Inv tr s) (as : ℕ) : Pending tr (s.leavesOf as) s :=
  ⟨h, h.leaf_nodup.filter _, fun _ hl => mem_of_mem_filter hl⟩

lemma Pending.tail {ls : List Leaf} (h : Pending tr (l :: ls) s) {s' : Sys} (hinv : Inv tr s')
    (hkeep : ∀ x ∈ s.leaves, x ≠ l → x ∈ s'.leaves) : Pending tr ls s' := by
  refine ⟨hinv, h.nodup.of_cons, fun x hx => ?_⟩
  refine hkeep x (h.mem x (mem_cons_of_mem _ hx)) ?_
  rintro rfl
  exact (nodup_cons.1 h.nodup).1 hx

lemma mem_setPte_of_ne {p : Pte} (hx : x ∈ s.leaves) (hne : x ≠ l) : x ∈ (s.setPte l p).leaves :=
  mem_cons_of_mem _ ((mem_erase_of_ne hne).2 hx)

lemma foldl_visits {P : List Leaf → Sys → Prop} {g : Sys → Leaf → Sys}
    (hvisit : ∀ l ls s, P (l :: ls) s → P ls (g s l)) :
    ∀ (ls : List Leaf) (s : Sys), P ls s → P [] (ls.foldl g s) := by
  intro ls
  induction ls with
  | nil => exact fun _ h => h
  | cons l ls ih => exact fun s h => ih _ (hvisit l ls s h)

lemma Inv.private_of_not_skips (h : Inv tr s) (hl : l ∈ s.leaves) (hskip : ¬s.skips tr l = true) :
    s.external l.pte.frame = false :=
  Bool.eq_false_of_not_eq_true fun he => hskip ((h.skips_iff hl).2 he)

/-- An exiting address space gives back its references. -/
lemma Inv.mmRelease (h : Inv tr s) (as : ℕ) : Inv tr (mmRelease tr s as) := by
  have hfold := foldl_visits
    (P := fun ls s => Pending tr ls s ∧ ∀ x ∈ s.leaves, x.as = as → x ∈ ls)
    (g := releaseLeaf tr) ?_ _ _
    ⟨h.pending as, fun x hx has => mem_filter.2 ⟨hx, by simpa using has⟩⟩
  · refine hfold.1.inv.drop_areas filter_sublist fun a ha hna x hx hk => ?_
    have hx' := hfold.2 x hx
    have has : a.as = as := by simpa [ha] using hna
    exact absurd (hx' ((congrArg fst hk).trans has)) not_mem_nil
  · rintro l ls s ⟨hp, hall⟩
    have hl : l ∈ s.leaves := hp.mem l mem_cons_self
    have hleaves : (releaseLeaf tr s l).leaves = (s.dropLeaf l).leaves := by
      rw [releaseLeaf]
      split_ifs <;> rfl
    have hinv : Inv tr (releaseLeaf tr s l) := by
      rw [releaseLeaf]
      split_ifs with hskip
      · exact hp.inv.drop_external hl ((hp.inv.skips_iff hl).1 hskip)
      · exact hp.inv.drop_dec hl (hp.inv.private_of_not_skips hl hskip)
    refine ⟨hp.tail hinv fun x hx hne => ?_, fun x hx has => ?_⟩
    · rw [hleaves]
      exact hp.inv.mem_dropLeaf.2 ⟨hne, hx⟩
    · rw [hleaves] at hx
      obtain ⟨hne, hx⟩ := hp.inv.mem_dropLeaf.1 hx
      exact (mem_cons.1 (hall x hx has)).resolve_left hne

/-! ## Fork -/

section CopyPageTable

variable {parent child : ℕ}

/-- The regions of the child are copies. -/
def Sourced (s : Sys) (parent child : ℕ) : Prop :=
  ∀ a ∈ s.areas, a.as = child → { a with as := parent } ∈ s.areas

/-- A copy of a leaf for the child, over the same frame and without write permission where
the frame is private. -/
lemma Inv.add_copy (h : Inv tr s) (hm : Sourced s parent child) (hl : l ∈ s.leaves)
    (has : l.as = parent) (hkey : ∀ x ∈ s.leaves, x.key ≠ (child, l.vpn)) {p : Pte}
    (hp : p.frame = l.pte.frame) (hext : s.external l.pte.frame = false)
    (hro : p.rw = false) (hothers : ∀ x ∈ s.leaves, x.pte.frame = l.pte.frame → x.pte.rw = false) :
    Inv tr ((s.refcountInc l.pte.frame).addLeaf ⟨child, l.vpn, p⟩) := by
  refine h.add (l := ⟨child, l.vpn, p⟩) hkey (fun g _ => ?_) (fun g hg => update_of_ne ?_ ..)
    (fun _ => ?_)
    (fun _ => hp ▸ hext) (fun he => ?_) fun a ha hk => ?_
  · by_cases hg : p.frame = g
    · rw [if_pos hg, ← hg, hp]
      exact update_self ..
    · rw [if_neg hg, Nat.add_zero]
      exact update_of_ne (fun e => hg (hp.trans e.symm)) ..
  · rintro rfl
    rw [hext] at hg
    cases hg
  · rw [hp]
    exact .inr ⟨hro, hothers⟩
  · rw [hp, hext] at he
    cases he
  · -- the parent's region at the page is anonymous, and the child's is its copy
    have ha' := hm a ha (congrArg fst hk)
    have hvpn : a.vpn = l.vpn := congrArg Prod.snd hk
    rw [hp]
    exact h.anon l hl { a with as := parent } ha' (Prod.ext has.symm hvpn)

lemma Inv.others_read_only (h : Inv tr s) (hl : l ∈ s.leaves)
    (hext : s.external l.pte.frame = false) (hro : l.pte.rw = false) :
    ∀ x ∈ s.leaves, x.pte.frame = l.pte.frame → x.pte.rw = false := by
  intro x hx hf
  by_contra hrw
  have hne : x ≠ l := by
    rintro rfl
    exact hrw hro
  have htwo := two_le_uses hl hx hne hf
  have hone := h.sole x hx (hf ▸ hext) (Bool.eq_true_of_not_eq_false hrw)
  rw [hf] at hone
  omega

/-- What `copy_page_table` needs for the leaves it has yet to visit. -/
structure Copying (tr : ℕ) (parent child : ℕ) (ls : List Leaf) (s : Sys) : Prop where
  pending : Pending tr ls s
  sourced : Sourced s parent child
  source : ∀ l ∈ ls, l.as = parent
  /-- the child has the regions of the frames of others -/
  covered : ∀ l ∈ ls, s.external l.pte.frame = true → l.pte.frame = tr ∨
    ∀ a ∈ s.areas, a.key = l.key → { a with as := child } ∈ s.areas
  target : ∀ l ∈ ls, ∀ x ∈ s.leaves, x.key ≠ (child, l.vpn)

lemma Copying.tail {ls : List Leaf} (h : Copying tr parent child (l :: ls) s) {s' : Sys}
    (hinv : Inv tr s') (hareas : s'.areas = s.areas) (hext : s'.external = s.external)
    (hkeep : ∀ x ∈ s.leaves, x ≠ l → x ∈ s'.leaves)
    (hnew : ∀ x ∈ s'.leaves, x.key = (child, l.vpn) ∨ ∃ y ∈ s.leaves, y.key = x.key) :
    Copying tr parent child ls s' := by
  refine ⟨h.pending.tail hinv hkeep, ?_, fun y hy => h.source y (mem_cons_of_mem _ hy), ?_, ?_⟩
  · rw [Sourced, hareas]
    exact h.sourced
  · rw [hareas, hext]
    exact fun y hy => h.covered y (mem_cons_of_mem _ hy)
  · intro y hy x hx hk
    rcases hnew x hx with hx | ⟨z, hz, hzk⟩
    · -- two leaves of the parent at one page
      have hvpn : l.vpn = y.vpn := congrArg snd (hx.symm.trans hk)
      have has : l.as = y.as := (h.source l mem_cons_self).trans
        (h.source y (mem_cons_of_mem _ hy)).symm
      have := h.pending.inv.leaf_ext (h.pending.mem l mem_cons_self)
        (h.pending.mem y (mem_cons_of_mem _ hy)) (Prod.ext has hvpn)
      exact (nodup_cons.1 h.pending.nodup).1 (this ▸ hy)
    · exact h.target y (mem_cons_of_mem _ hy) z hz (hzk.trans hk)

/-- The copy of the leaf is in front of leaves at the pages from before. -/
lemma Copying.tail_cons {ls : List Leaf} (h : Copying tr parent child (l :: ls) s) {s' : Sys}
    {p : Pte} {L : List Leaf} (hinv : Inv tr s') (hareas : s'.areas = s.areas)
    (hext : s'.external = s.external) (hleaves : s'.leaves = { l with as := child, pte := p } :: L)
    (hkeep : ∀ x ∈ s.leaves, x ≠ l → x ∈ L) (hold : ∀ x ∈ L, ∃ y ∈ s.leaves, y.key = x.key) :
    Copying tr parent child ls s' := by
  refine h.tail hinv hareas hext (fun x hx hne => ?_) fun x hx => ?_
  · exact hleaves ▸ mem_cons_of_mem _ (hkeep x hx hne)
  · rcases mem_cons.1 (hleaves ▸ hx) with rfl | hx
    · exact .inl rfl
    · exact .inr (hold x hx)

lemma Copying.copyLeaf {ls : List Leaf} (h : Copying tr parent child (l :: ls) s) :
    Copying tr parent child ls (copyLeaf tr child s l) := by
  have hinv := h.pending.inv
  have hl : l ∈ s.leaves := h.pending.mem l mem_cons_self
  have has := h.source l mem_cons_self
  have hkey := h.target l mem_cons_self
  fun_cases Fork.copyLeaf tr child s l with
  | case1 => exact h.tail hinv rfl rfl (fun x hx _ => hx) fun x hx => .inr ⟨x, hx, rfl⟩
  | case2 _ hskip =>
    -- somebody else's page: the entry is copied as it is
    have hext := (hinv.skips_iff hl).1 hskip
    have hcow : l.pte.cow = false := by
      refine Bool.eq_false_of_not_eq_true fun hc => ?_
      rw [hinv.cow l hl hc] at hext
      cases hext
    refine h.tail_cons (p := l.pte) (hinv.add_external (l := { l with as := child }) hext hcow hkey
      ?_ fun a ha hk => ?_) rfl rfl rfl (fun x hx _ => hx) fun x hx => ⟨x, hx, rfl⟩
    · refine (h.covered l mem_cons_self hext).elim .inl fun hcopy => ?_
      refine (hinv.backed l hl hext).imp_right ?_
      rintro ⟨a, ha, hk, hc⟩
      have hvpn : a.vpn = l.vpn := congrArg Prod.snd hk
      exact ⟨_, hcopy a ha hk, Prod.ext rfl hvpn, hc⟩
    · have hvpn : a.vpn = l.vpn := congrArg Prod.snd hk
      have hanon := hinv.anon l hl _ (h.sourced a ha (congrArg fst hk)) (Prod.ext has.symm hvpn)
      rw [hext] at hanon
      exact fun hb => absurd (hanon.1 hb) (by decide)
  | case3 _ hskip hrw =>
    -- writable: both sides become copy-on-write
    have hext := hinv.private_of_not_skips hl hskip
    have hset : Inv tr (s.setPte l (cowPte l.pte)) := by
      refine hinv.setPte hl rfl ?_ fun _ => hext
      intro _ hc
      cases hc
    have hmem : { l with pte := cowPte l.pte } ∈ (s.setPte l (cowPte l.pte)).leaves :=
      mem_cons_self
    have hkeys : ∀ x ∈ (s.setPte l (cowPte l.pte)).leaves, ∃ y ∈ s.leaves, y.key = x.key := by
      intro x hx
      rcases mem_cons.1 hx with rfl | hx
      · exact ⟨l, hl, rfl⟩
      · exact ⟨x, mem_of_mem_erase hx, rfl⟩
    refine h.tail_cons (p := cowPte l.pte) (hset.add_copy (p := cowPte l.pte) h.sourced hmem has ?_
      rfl hext rfl (hset.others_read_only hmem hext rfl)) rfl rfl rfl
      (fun x hx hne => mem_setPte_of_ne hx hne) hkeys
    intro x hx hk
    obtain ⟨y, hy, hyk⟩ := hkeys x hx
    exact hkey y hy (hyk.trans hk)
  | case4 _ hskip hrw =>
    -- read-only already: shared as it is
    have hext := hinv.private_of_not_skips hl hskip
    have hro := Bool.eq_false_of_not_eq_true hrw
    exact h.tail_cons (p := l.pte) (hinv.add_copy (p := l.pte) h.sourced hl has hkey rfl hext hro
      (hinv.others_read_only hl hext hro)) rfl rfl rfl (fun x hx _ => hx) fun x hx => ⟨x, hx, rfl⟩

lemma Copying.foldl {ls : List Leaf} (h : Copying tr parent child ls s) :
    Inv tr (ls.foldl (Fork.copyLeaf tr child) s) :=
  (foldl_visits (P := Copying tr parent child) (fun _ _ _ hc => hc.copyLeaf) _ _ h).pending.inv

variable {lost : List ℕ}

lemma copyMmapRegions_copyLeaf (has : l.as = parent) (hne : child ≠ parent) :
    copyMmapRegions (copyLeaf tr child s l) parent child lost =
      copyLeaf tr child (copyMmapRegions s parent child lost) l := by
  have hskips : (copyMmapRegions s parent child lost).skips tr l = s.skips tr l := by
    have hchild : (s.areas.any fun _ => false) = false := any_eq_false.2 (by simp)
    simp [Sys.skips, Sys.isShared, copyMmapRegions, any_append, has, hne, hchild]
  rw [copyLeaf, copyLeaf, hskips]
  split_ifs <;> rfl

lemma copyMmapRegions_foldl (hne : child ≠ parent) :
    ∀ (ls : List Leaf) (s : Sys), (∀ l ∈ ls, l.as = parent) →
      copyMmapRegions (ls.foldl (copyLeaf tr child) s) parent child lost =
        ls.foldl (copyLeaf tr child) (copyMmapRegions s parent child lost) := by
  intro ls
  induction ls with
  | nil => exact fun _ _ => rfl
  | cons l ls ih =>
    intro s hls
    rw [foldl_cons, foldl_cons, ih _ fun y hy => hls y (mem_cons_of_mem _ hy),
      copyMmapRegions_copyLeaf (hls l mem_cons_self) hne]

lemma mem_copyMmapRegions {a : Area} :
    a ∈ (copyMmapRegions s parent child lost).areas ↔
      (∃ b ∈ s.areas, (b.as = parent ∧ b.vpn ∉ lost) ∧ a = { b with as := child }) ∨
        a ∈ s.areas := by
  simp only [copyMmapRegions, mem_append, List.mem_map, mem_filter, decide_eq_true_eq,
    and_assoc, @eq_comm _ a]

lemma Inv.copyMmapRegions (h : Inv tr s) (hblank : s.Blank child) :
    Inv tr (copyMmapRegions s parent child lost) := by
  refine { h with areaKeys := ?areaKeys, named := ?named, backed := ?backed, anon := ?anon }
  case areaKeys =>
    rw [Fork.copyMmapRegions, List.map_append, List.map_map]
    refine List.Nodup.append ?_ h.areaKeys ?_
    · have hfil := h.areaKeys.sublist ((List.filter_sublist
        (p := fun a : Area => decide (a.as = parent ∧ a.vpn ∉ lost))).map Area.key)
      refine List.Nodup.map_on ?_ (List.Nodup.of_map _ hfil)
      intro a ha b hb hk
      have haf := mem_filter.1 ha
      have hbf := mem_filter.1 hb
      have hvpn : a.vpn = b.vpn := congrArg snd hk
      have has : a.as = b.as := (of_decide_eq_true haf.2).1.trans (of_decide_eq_true hbf.2).1.symm
      exact inj_on_of_nodup_map h.areaKeys haf.1 hbf.1 (Prod.ext has hvpn)
    · intro k hk hk'
      obtain ⟨a, -, rfl⟩ := mem_map.1 hk
      obtain ⟨b, hb, hbk⟩ := mem_map.1 hk'
      exact hblank.2 b hb (congrArg fst hbk)
  case named =>
    intro a ha
    rcases mem_copyMmapRegions.1 ha with ⟨b, hb, -, rfl⟩ | ha
    · exact h.named b hb
    · exact h.named a ha
  case backed =>
    intro x hx hext
    refine (h.backed x hx hext).imp_right ?_
    rintro ⟨a, ha, hk⟩
    exact ⟨a, mem_copyMmapRegions.2 (.inr ha), hk⟩
  case anon =>
    intro x hx a ha hk
    rcases mem_copyMmapRegions.1 ha with ⟨b, hb, -, rfl⟩ | ha
    · exact absurd (congrArg fst hk).symm (hblank.1 x hx)
    · exact h.anon x hx a ha hk

lemma Sourced.copyMmapRegions (hblank : s.Blank child) :
    Sourced (copyMmapRegions s parent child lost) parent child := by
  intro a ha has
  rcases mem_copyMmapRegions.1 ha with ⟨b, hb, hbp, rfl⟩ | ha
  · refine mem_copyMmapRegions.2 (.inr ?_)
    rwa [show ({ ({ b with as := child } : Area) with as := parent } : Area) = b from by
      rw [← hbp.1]]
  · exact absurd has (hblank.2 a ha)

lemma mem_leavesOf : l ∈ s.leavesOf parent ↔ l ∈ s.leaves ∧ l.as = parent := by
  simp [Sys.leavesOf]

lemma Inv.fork (h : Inv tr s) {s' : Sys} (hs : fork tr s parent child lost = some s')
    (hun : ∀ a ∈ s.areas, a.as = parent → a.vpn ∈ lost → a.backing = .anon) : Inv tr s' := by
  rw [Fork.fork] at hs
  split_ifs at hs with hc
  obtain rfl := some.inj hs
  obtain ⟨hblank, hne⟩ := hc
  have hsource : ∀ l ∈ s.leavesOf parent, l.as = parent := fun l hl => (mem_leavesOf.1 hl).2
  rw [copyPageTable, copyMmapRegions_foldl hne _ _ hsource]
  refine Copying.foldl ⟨?_, Sourced.copyMmapRegions hblank, hsource, ?_, ?_⟩
  · exact ⟨h.copyMmapRegions hblank, (h.pending parent).nodup, (h.pending parent).mem⟩
  · intro l hl hext
    obtain ⟨hl, has⟩ := mem_leavesOf.1 hl
    refine .inr fun a ha hk => mem_copyMmapRegions.2 ?_
    rcases mem_copyMmapRegions.1 ha with ⟨b, hb, hbp, rfl⟩ | ha
    · exact .inl ⟨b, hb, hbp, rfl⟩
    · -- an anonymous region holds no frame of others, so this one was copied
      have hap : a.as = parent := (congrArg fst hk).trans has
      refine .inl ⟨a, ha, ⟨hap, fun hlost => ?_⟩, rfl⟩
      exact absurd (((h.anon l hl a ha hk).1 (hun a ha hap hlost)).symm.trans hext) (by decide)
  · intro l _ x hx hk
    exact hblank.1 x hx (congrArg fst hk)

lemma Inv.forkFailed (h : Inv tr s) {n : ℕ} {s' : Sys}
    (hs : forkFailed tr s parent child n = some s')
    (hun : ∀ l ∈ (s.leavesOf parent).take n, s.external l.pte.frame = true → l.pte.frame = tr) :
    Inv tr s' := by
  rw [Fork.forkFailed] at hs
  split_ifs at hs with hc
  obtain rfl := some.inj hs
  obtain ⟨hblank, hne⟩ := hc
  have hcopy : Copying tr parent child ((s.leavesOf parent).take n) s := by
    refine ⟨⟨h, ?_, ?_⟩, ?_, ?_, fun l hl he => .inl (hun l hl he), ?_⟩
    · exact (h.pending parent).nodup.sublist (take_sublist _ _)
    · exact fun l hl => (mem_leavesOf.1 (mem_of_mem_take hl)).1
    · exact fun a ha has => absurd has (hblank.2 a ha)
    · exact fun l hl => (mem_leavesOf.1 (mem_of_mem_take hl)).2
    · intro l _ x hx hk
      exact hblank.1 x hx (congrArg fst hk)
  exact hcopy.foldl.mmRelease child

end CopyPageTable

/-! ## Stores -/

/-- The copy of a fault is a fresh leaf in the place of the shared one. -/
lemma Inv.cow_copy (h : Inv tr s) (hl : l ∈ s.leaves) {new : ℕ} {p : Pte}
    (hfree : s.refcount new = 0) (hp : p.frame = new) (hpriv : s.external l.pte.frame = false)
    (m : ℕ → ℕ) :
    Inv tr ((({ s.setCount new 1 with mem := m }).setPte l p).refcountDec l.pte.frame) := by
  subst hp
  have hne : p.frame ≠ l.pte.frame := by
    intro hf
    have hpos := uses_pos hl
    rw [← hf, h.uses_of_free hfree] at hpos
    omega
  have hdrop := h.drop_dec hl hpriv
  have hfree' : ((s.dropLeaf l).refcountDec l.pte.frame).refcount p.frame = 0 :=
    (update_of_ne hne ..).trans hfree
  have hadd := hdrop.add_fresh (l := { l with pte := p }) hfree'
    (fun x hx hk => (h.mem_dropLeaf.1 hx).1 (h.leaf_ext (h.mem_dropLeaf.1 hx).2 hl hk))
    (fun a ha hk => (h.anon l hl a ha hk).2 hpriv)
  -- the two counters are independent
  have hcount : update (update s.refcount l.pte.frame
      (s.refcount l.pte.frame - 1)) p.frame 1 =
      update (update s.refcount p.frame 1) l.pte.frame
        (update s.refcount p.frame 1 l.pte.frame - 1) := by
    rw [update_of_ne hne.symm, update_comm hne]
  have hadd' := hadd.mem m
  simp only [Sys.addLeaf, Sys.setCount, Sys.refcountDec, Sys.dropLeaf, hcount] at hadd'
  exact hadd'

lemma Inv.resolveCowFault (h : Inv tr s) (hl : l ∈ s.leaves) (hcow : l.pte.cow = true)
    {alloc : Option ℕ} (halloc : ∀ new ∈ alloc, s.refcount new = 0) :
    Inv tr (resolveCowFault s l alloc) := by
  have hpriv := h.cow l hl hcow
  rw [Fork.resolveCowFault.eq_def]
  split
  next hone =>
    exact h.setPte hl rfl (fun _ _ => (h.counts _ hpriv).symm.trans hone) fun _ => hpriv
  · cases alloc with
    | none => exact h
    | some new => exact h.cow_copy hl (halloc new rfl) rfl hpriv _

lemma Inv.store (h : Inv tr s) {v : ℕ} {alloc : Option ℕ} {s' : Sys}
    (hs : store s as vpn v alloc = some s') : Inv tr s' := by
  rw [Fork.store] at hs
  split at hs
  · exact some.inj hs ▸ h
  next l hlook =>
  split_ifs at hs with hw hcow halloc
  · exact some.inj hs ▸ h.mem _
  · obtain ⟨-, hcow⟩ := Bool.and_eq_true_iff.1 hcow
    exact some.inj hs ▸ h.resolveCowFault (lookupPte_some hlook).1 hcow halloc
  · exact some.inj hs ▸ h

/-! ## Changing the protection -/

/-- Where the loop may grant write permission, the private leaves are alone. -/
lemma Inv.mprotectLoop {as prot : ℕ} :
    ∀ (n vpn : ℕ) (s : Sys), Inv tr s →
      (∀ l ∈ s.leaves, l.as = as → vpn ≤ l.vpn → l.vpn < vpn + n →
        s.external l.pte.frame = false → prot &&& protWrite ≠ 0 → s.uses l.pte.frame = 1) →
      Inv tr (mprotectLoop as prot n vpn s).2 := by
  intro n
  induction n with
  | zero => exact fun _ _ h _ => h
  | succ n ih =>
    intro vpn s h halone
    rw [Fork.mprotectLoop]
    cases hlook : s.lookupPte as vpn with
    | none =>
      split_ifs
      · exact h
      · exact ih _ _ h fun l hl has hle hlt => halone l hl has (by omega) (by omega)
    | some l =>
      obtain ⟨hl, has, hvpn⟩ := lookupPte_some hlook
      refine ih _ _ (h.setPte hl rfl ?_ fun hc => ?_) fun x hx hxas hle hlt hext hw => ?_
      · intro hext hrw
        refine halone l hl has hvpn.ge (by omega) hext ?_
        simpa using (Bool.and_eq_true_iff.1 hrw).2
      · cases hc
      · -- the leaves of the later pages are those from before
        rw [uses_setPte hl (protPte_frame prot)]
        rcases mem_cons.1 hx with rfl | hx
        · exact absurd hle (by show ¬vpn + 1 ≤ l.vpn; omega)
        · exact halone x (mem_of_mem_erase hx) hxas (by omega) (by omega) hext hw

/-- The pages of an `mprotect` that grants write permission are mapped nowhere else, a frame is
given back when nobody maps it, and a fork that runs out of memory has neither left out a region of
such frames nor come to a page of one. -/
def Unshared (tr : ℕ) (s : Sys) : Call → Prop
  | .mprotect as addr size prot _ =>
    protMasked prot &&& protWrite ≠ 0 →
      ∀ l ∈ s.leaves, l.as = as → addr ≤ l.vpn * pageSize →
        l.vpn * pageSize < addr + alignUp size → s.external l.pte.frame = false →
        ∀ x ∈ s.leaves, x.pte.frame = l.pte.frame → x = l
  | .giveBack f => (∀ l ∈ s.leaves, l.pte.frame ≠ f) ∧ ∀ a ∈ s.areas, f ∉ a.backing.frames
  | .fork parent _ lost => ∀ a ∈ s.areas, a.as = parent → a.vpn ∈ lost → a.backing = .anon
  | .forkFailed parent _ n =>
    ∀ l ∈ (s.leavesOf parent).take n, s.external l.pte.frame = true → l.pte.frame = tr
  | _ => True

instance (c : Call) : Decidable (Unshared tr s c) := by
  cases c <;> unfold Unshared <;> infer_instance

lemma Inv.sysMprotect (h : Inv tr s) {addr size prot : ℕ} {split : Bool}
    (hun : Unshared tr s (.mprotect as addr size prot split)) :
    Inv tr (sysMprotect s as addr size prot split).2 := by
  rw [Fork.sysMprotect]
  split_ifs with h1 h2 h3 h4 h5 h6
  any_goals exact h
  refine Inv.mprotectLoop _ _ _ h fun l hl has hle hlt hext hw => ?_
  refine h.uses_eq_one hl (hun hw l hl has ?_ ?_ hext)
  · have := Nat.div_mul_cancel (Nat.dvd_of_mod_eq_zero (not_not.1 h2))
    exact this ▸ Nat.mul_le_mul_right _ hle
  · have ha := Nat.div_mul_cancel (Nat.dvd_of_mod_eq_zero (not_not.1 h2))
    have hs := Nat.div_mul_cancel (alignUp_dvd size)
    calc l.vpn * pageSize
        < (addr / pageSize + alignUp size / pageSize) * pageSize :=
          Nat.mul_lt_mul_of_pos_right hlt (by decide)
      _ = addr + alignUp size := by rw [Nat.add_mul, ha, hs]

/-! ## Dropping mappings -/

lemma Inv.unmapPage (h : Inv tr s) (as vpn : ℕ) : Inv tr (unmapPage s as vpn) := by
  rw [Fork.unmapPage]
  cases harea : s.vmaFind as vpn with
  | none => exact h
  | some a =>
    obtain ⟨ha, haas, havpn⟩ := vmaFind_some harea
    have hkey : a.key = (as, vpn) := Prod.ext haas havpn
    -- the regions left over have another key than the one that goes
    have hgone : ∀ {s' : Sys}, Inv tr s' → s'.areas = s.areas →
        (∀ x ∈ s'.leaves, x.key ≠ (as, vpn)) → Inv tr { s' with areas := s.areas.erase a } := by
      intro s' h' hareas hleaf
      refine h'.drop_areas (hareas ▸ erase_sublist) fun b hb hnb x hx => ?_
      obtain rfl : b = a := by
        by_contra hne
        exact hnb ((mem_erase_of_ne hne).2 (hareas ▸ hb))
      rw [hkey]
      exact hleaf x hx
    cases hlook : s.lookupPte as vpn with
    | none => exact hgone h rfl fun x hx => lookupPte_none hlook hx
    | some l =>
      obtain ⟨hl, has, hvpn⟩ := lookupPte_some hlook
      have hdropped : ∀ x ∈ (s.dropLeaf l).leaves, x.key ≠ (as, vpn) := by
        intro x hx hk
        obtain ⟨hne, hx⟩ := h.mem_dropLeaf.1 hx
        exact hne (h.leaf_ext hx hl (hk.trans (Prod.ext has.symm hvpn.symm)))
      have hiff := h.anon l hl a ha (hkey.trans (Prod.ext has.symm hvpn.symm))
      dsimp only
      split_ifs with hanon
      · exact hgone (h.drop_dec hl (hiff.1 hanon)) rfl hdropped
      · exact hgone (h.drop_external hl (Bool.eq_true_of_not_eq_false (mt hiff.2 hanon))) rfl
          hdropped

lemma Inv.munmapPages (h : Inv tr s) (as : ℕ) (vpns : List ℕ) : Inv tr (munmapPages s as vpns) := by
  induction vpns generalizing s with
  | nil => exact h
  | cons vpn vpns ih => exact ih (h.unmapPage as vpn)

end XosKernel.Fork
