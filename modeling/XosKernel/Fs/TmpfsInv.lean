/-
# What the tmpfs lists and counts keep

Two invariants, each preserved by the small moves the operations are made of. `Shape` says that
the lists hang together: each entry is on one list, under a name of its own, and points back at
it; a directory comes after its parent. `Counts` says what each reference count and link count
is, up to the references the running call holds and the links it still owes.
-/
import XosKernel.Fs.Tmpfs
import XosKernel.Lib.NameTree

namespace XosKernel.Tmpfs

open List Option Function State Nat

/-! ### What the moves change -/

variable {ip ti x : ℕ} {i : Info}

namespace State

variable (s : State)

lemma children_setInfo (c : ℕ) (i : Info) (q : ℕ) :
    (s.setInfo c i).children q = if q = c then i.children else s.children q := by
  simp only [children, setInfo, update_apply, apply_ite Info.children]

lemma nameOf_setInfo (c : ℕ) (i : Info) (q : ℕ) :
    (s.setInfo c i).nameOf q = if q = c then i.name else s.nameOf q := by
  simp only [nameOf, setInfo, update_apply, apply_ite Info.name]

lemma inodeOf_setInfo (c : ℕ) (i : Info) (q : ℕ) :
    (s.setInfo c i).inodeOf q = if q = c then i.inode else s.inodeOf q := by
  simp only [inodeOf, setInfo, update_apply, apply_ite Info.inode]

lemma parentOf_setInfo (c : ℕ) (i : Info) (q : ℕ) :
    (s.setInfo c i).parentOf q = if q = c then i.parent else s.parentOf q := by
  simp only [parentOf, setInfo, update_apply, apply_ite Info.parent]

lemma children_setChildren (ti : ℕ) (l : List ℕ) (q : ℕ) :
    (s.setChildren ti l).children q = if q = ti then l else s.children q :=
  children_setInfo ..

@[simp] lemma nameOf_setChildren (ti : ℕ) (l : List ℕ) :
    (s.setChildren ti l).nameOf = s.nameOf := by
  ext q : 1
  rw [setChildren, nameOf_setInfo]
  exact ite_eq_right_iff.2 fun h => h ▸ rfl

@[simp] lemma inodeOf_setChildren (ti : ℕ) (l : List ℕ) :
    (s.setChildren ti l).inodeOf = s.inodeOf := by
  ext q : 1
  rw [setChildren, inodeOf_setInfo]
  exact ite_eq_right_iff.2 fun h => h ▸ rfl

@[simp] lemma parentOf_setChildren (ti : ℕ) (l : List ℕ) :
    (s.setChildren ti l).parentOf = s.parentOf := by
  ext q : 1
  rw [setChildren, parentOf_setInfo]
  exact ite_eq_right_iff.2 fun h => h ▸ rfl

@[simp] lemma isDir_setChildren (ti : ℕ) (l : List ℕ) : (s.setChildren ti l).isDir = s.isDir := by
  ext c : 1
  rw [isDir, inodeOf_setChildren]
  rfl

lemma typeOf_setInode {i : Inode} (hi : i.type = s.typeOf ip) :
    (s.setInode ip i).typeOf = s.typeOf := by
  ext q : 1
  simp only [typeOf, setInode, update_apply, apply_ite Inode.type]
  exact ite_eq_right_iff.2 fun hq => hq ▸ hi

lemma inodeGet_self (ip : ℕ) : (s.inodeGet ip).inode ip =
    { s.inode ip with count := (s.inode ip).count + 1 } := update_self ..

@[simp] lemma typeOf_addNlink (ip : ℕ) (n : ℤ) : (s.addNlink ip n).typeOf = s.typeOf :=
  s.typeOf_setInode rfl

@[simp] lemma inodeOf_detach (p c : ℕ) : (s.detach p c).inodeOf = s.inodeOf :=
  s.inodeOf_setChildren ..

@[simp] lemma isDir_detach (p c : ℕ) : (s.detach p c).isDir = s.isDir := s.isDir_setChildren ..

lemma typeOf_ne_dir {c : ℕ} (h : s.isDir c = false) : s.typeOf (s.inodeOf c) ≠ .dir :=
  of_decide_eq_false h

lemma isDir_eq_true {c : ℕ} : s.isDir c = true ↔ s.typeOf (s.inodeOf c) = .dir :=
  decide_eq_true_iff

lemma mem_entries {c : ℕ} : c ∈ s.entries ip ↔ c < s.infoTop ∧ s.Listed c ∧ s.inodeOf c = ip := by
  rw [entries, Finset.mem_filter, Finset.mem_range]

lemma dirEntries_of_priv (h : (s.inode ip).priv = some ti) : s.dirEntries ip = s.children ti := by
  rw [dirEntries, h]

lemma find_eq_some {c : ℕ} {name : Name} (h : s.find ti name = some c) :
    c ∈ s.children ti ∧ s.nameOf c = name := by
  refine ⟨mem_of_find?_eq_some h, ?_⟩
  have hn := List.find?_some h
  exact of_decide_eq_true hn

lemma find_eq_none {name : Name} (h : s.find ti name = none) {c : ℕ}
    (hc : c ∈ s.children ti) : s.nameOf c ≠ name := fun he =>
  List.find?_eq_none.1 h c hc (decide_eq_true he)

/-- The inode whose `nlink` counts an entry of the directory with node `p`: the parent for a
subdirectory, else the inode named. -/
def owner (p c : ℕ) : ℕ := if s.isDir c then s.inodeOf p else s.inodeOf c

@[simp] lemma owner_detach (p c q x : ℕ) : (s.detach p c).owner q x = s.owner q x := by
  simp [owner]

end State

/-! ### The invariants -/

/-- The lists hang together. `busy` are the inodes that the running call makes, moves or
removes. -/
structure Shape (s : State) (busy : Set ℕ) : Prop where
  root_type : s.typeOf root = .dir
  root_priv : (s.inode root).priv = some 0
  root_inode : s.inodeOf 0 = root
  root_parent : s.parentOf 0 = none
  top_pos : 0 < s.infoTop
  info_top : ∀ i, s.infoTop ≤ i → s.info i = Info.free
  inode_top : ∀ ip, s.inodeTop ≤ ip → s.inode ip = Inode.free
  short : ∀ c, (s.nameOf c).length < 256
  parent : ∀ p c, c ∈ s.children p → s.parentOf c = some p
  nodup : ∀ p, (s.children p).Nodup
  names : ∀ p c c', c ∈ s.children p → c' ∈ s.children p → s.nameOf c = s.nameOf c' → c = c'
  holder : ∀ p c, c ∈ s.children p →
    s.isDir p = true ∧ (s.inode (s.inodeOf p)).priv = some p
  entry : ∀ p c, c ∈ s.children p → s.isDir c = true →
    (s.inode (s.inodeOf c)).priv = some c ∧ p < c
  dirs : ∀ ip, s.typeOf ip = .dir → ip ∈ busy ∨
    ∃ c, (s.inode ip).priv = some c ∧ s.inodeOf c = ip ∧ (c = 0 ∨ s.Listed c)

/-- The counts are right, up to the references held by the running call and the links it has
not yet put right. -/
structure Counts (s : State) (held : ℕ → ℕ) (slack : ℕ → ℤ) : Prop where
  count : ∀ ip, (s.inode ip).count =
    (s.entries ip).card + s.opens ip + (if ip = root then 1 else 0) + held ip
  free : ∀ ip, (s.inode ip).count = 0 → s.inode ip = Inode.free
  file : ∀ ip, s.typeOf ip = .regular → 0 < (s.inode ip).count →
    (s.inode ip).nlink = (s.entries ip).card + slack ip
  dir : ∀ ip, s.typeOf ip = .dir →
    (s.inode ip).nlink = (if ip = root then 1 else 2) + (s.subdirs ip : ℤ) + slack ip
  closed : ∀ ip, s.typeOf ip = .dir → s.opens ip = 0

namespace Shape

variable {s s' : State} {busy busy' : Set ℕ} {p q c : ℕ}

section

variable (h : Shape s busy)
include h

lemma lt_top (hc : c ∈ s.children p) : c < s.infoTop := by
  by_contra hge
  have hp := h.parent p c hc
  rw [parentOf, h.info_top c (not_lt.1 hge)] at hp
  exact nomatch hp

lemma holder_lt_top (hc : c ∈ s.children p) : p < s.infoTop := by
  by_contra hge
  rw [children, h.info_top p (not_lt.1 hge)] at hc
  exact absurd hc (not_mem_nil)

lemma listed_iff : s.Listed c ↔ ∃ p, c ∈ s.children p :=
  ⟨fun ⟨p, _, hc⟩ => ⟨p, hc⟩, fun ⟨p, hc⟩ => ⟨p, h.holder_lt_top hc, hc⟩⟩

lemma listed (hc : c ∈ s.children p) : s.Listed c := h.listed_iff.2 ⟨p, hc⟩

lemma holder_eq (hp : c ∈ s.children p) (hq : c ∈ s.children q) : p = q :=
  some.inj ((h.parent p c hp).symm.trans (h.parent q c hq))

lemma root_not_listed : ¬s.Listed 0 := by
  rintro ⟨p, -, hc⟩
  exact nomatch h.root_parent.symm.trans (h.parent p 0 hc)

lemma mem_entries_of_mem (hc : c ∈ s.children p) : c ∈ s.entries (s.inodeOf c) :=
  s.mem_entries.2 ⟨h.lt_top hc, h.listed hc, rfl⟩

lemma mem_entries : ∀ q x, x ∈ s.children q → x ∈ s.entries (s.inodeOf x) :=
  fun _ _ hx => h.mem_entries_of_mem hx

lemma inodeOf_of_priv {d : ℕ} (hd : s.typeOf d = .dir) (hb : d ∉ busy)
    (hti : (s.inode d).priv = some ti) : s.inodeOf ti = d := by
  obtain hb' | ⟨c, hc, hi, -⟩ := h.dirs d hd
  · exact absurd hb' hb
  · rw [hti] at hc
    exact some.inj hc ▸ hi

lemma mono (hsub : busy ⊆ busy') : Shape s busy' :=
  { h with dirs := fun ip hip => (h.dirs ip hip).imp_left fun hb => hsub hb }

lemma lt_top_of_priv (hq : (s.inode (s.inodeOf q)).priv = some q) : q < s.infoTop := by
  by_contra hge
  -- an address past the top names inode 0, whose node is 0
  have hi : s.inodeOf q = root := by
    rw [inodeOf, h.info_top q (not_lt.1 hge)]
    rfl
  rw [hi, h.root_priv] at hq
  exact hge (some.inj hq ▸ h.top_pos)

lemma mem_children_detach (hc : c ∈ s.children p) :
    x ∈ (s.detach p c).children q ↔ x ∈ s.children q ∧ x ≠ c := by
  rw [detach, children_setChildren]
  by_cases hq : q = p
  · rw [if_pos hq, (h.nodup p).mem_erase_iff, hq, and_comm]
  · rw [if_neg hq]
    refine ⟨fun hx => ⟨hx, fun he => hq ?_⟩, fun hx => hx.1⟩
    exact h.holder_eq (he ▸ hx) hc

lemma listed_detach (hc : c ∈ s.children p) : (s.detach p c).Listed x ↔ s.Listed x ∧ x ≠ c := by
  constructor
  · rintro ⟨q, hq, hx⟩
    obtain ⟨hx, hne⟩ := (h.mem_children_detach hc).1 hx
    exact ⟨⟨q, hq, hx⟩, hne⟩
  · rintro ⟨⟨q, hq, hx⟩, hne⟩
    exact ⟨q, hq, (h.mem_children_detach hc).2 ⟨hx, hne⟩⟩

lemma setChildren {l : List ℕ} (hp : p < s.infoTop) (hnodup : l.Nodup)
    (hparent : ∀ x ∈ l, s.parentOf x = some p)
    (hnames : ∀ x ∈ l, ∀ y ∈ l, s.nameOf x = s.nameOf y → x = y)
    (hholder : ∀ x ∈ l, s.isDir p = true ∧ (s.inode (s.inodeOf p)).priv = some p)
    (hentry : ∀ x ∈ l, s.isDir x = true → (s.inode (s.inodeOf x)).priv = some x ∧ p < x)
    (hdirs : ∀ ip, s.typeOf ip = .dir → ip ∈ busy' ∨ ∃ x, (s.inode ip).priv = some x ∧
      s.inodeOf x = ip ∧ (x = 0 ∨ (s.setChildren p l).Listed x)) :
    Shape (s.setChildren p l) busy' where
  __ := h
  root_inode := (congrFun (s.inodeOf_setChildren ..) 0).trans h.root_inode
  root_parent := (congrFun (s.parentOf_setChildren ..) 0).trans h.root_parent
  info_top := fun i hi =>
    (update_of_ne (lt_of_lt_of_le hp hi).ne' ..).trans (h.info_top i hi)
  short := fun x => (congrFun (s.nameOf_setChildren ..) x).symm ▸ h.short x
  parent := fun q x hx => by
    rw [s.parentOf_setChildren]
    rw [children_setChildren] at hx
    split at hx
    next hq => exact hq ▸ hparent x hx
    · exact h.parent q x hx
  nodup := fun q => by
    rw [children_setChildren]
    split
    · exact hnodup
    · exact h.nodup q
  names := fun q x y hx hy hn => by
    rw [s.nameOf_setChildren] at hn
    rw [children_setChildren] at hx hy
    split at hx
    next hq => exact hnames x hx y (by rwa [if_pos hq] at hy) hn
    next hq => exact h.names q x y hx (by rwa [if_neg hq] at hy) hn
  holder := fun q x hx => by
    rw [s.isDir_setChildren, s.inodeOf_setChildren]
    rw [children_setChildren] at hx
    split at hx
    next hq => exact hq ▸ hholder x hx
    · exact h.holder q x hx
  entry := fun q x hx hd => by
    rw [s.isDir_setChildren] at hd
    rw [s.inodeOf_setChildren]
    rw [children_setChildren] at hx
    split at hx
    next hq => exact hq ▸ hentry x hx hd
    · exact h.entry q x hx hd
  dirs := fun ip hip => by
    rw [s.inodeOf_setChildren]
    exact hdirs ip hip

lemma detach (hc : c ∈ s.children p) : Shape (s.detach p c) (insert (s.inodeOf c) busy) := by
  have hmem : ∀ x ∈ (s.children p).erase c, x ∈ s.children p := fun x hx =>
    mem_of_mem_erase hx
  refine h.setChildren (h.holder_lt_top hc) ((h.nodup p).erase c)
    (fun x hx => h.parent p x (hmem x hx))
    (fun x hx y hy => h.names p x y (hmem x hx) (hmem y hy))
    (fun x hx => h.holder p x (hmem x hx)) (fun x hx => h.entry p x (hmem x hx)) ?_
  intro ip hip
  obtain hb | ⟨x, hx, hi, hl⟩ := h.dirs ip hip
  · exact .inl (.inr hb)
  · by_cases he : x = c
    · exact .inl (.inl (he ▸ hi.symm))
    · exact .inr ⟨x, hx, hi, hl.imp_right fun hl => (h.listed_detach hc).2 ⟨hl, he⟩⟩

omit h in
lemma mem_children_headInsert :
    x ∈ (s.headInsert p c).children q ↔ x ∈ s.children q ∨ (q = p ∧ x = c) := by
  rw [headInsert, children_setChildren]
  by_cases hq : q = p
  · rw [if_pos hq, mem_cons, hq, or_comm]
    simp
  · rw [if_neg hq]
    simp [hq]

omit h in
lemma listed_headInsert (hp : p < s.infoTop) :
    (s.headInsert p c).Listed x ↔ s.Listed x ∨ x = c := by
  constructor
  · rintro ⟨q, hq, hx⟩
    obtain hx | ⟨-, he⟩ := mem_children_headInsert.1 hx
    · exact .inl ⟨q, hq, hx⟩
    · exact .inr he
  · rintro (⟨q, hq, hx⟩ | he)
    · exact ⟨q, hq, mem_children_headInsert.2 (.inl hx)⟩
    · exact ⟨p, hp, mem_children_headInsert.2 (.inr ⟨rfl, he⟩)⟩

omit h in
lemma headInsert (h : Shape s (insert (s.inodeOf c) busy)) (hc : ¬s.Listed c)
    (hparent : s.parentOf c = some p) (hname : ∀ x ∈ s.children p, s.nameOf x ≠ s.nameOf c)
    (hd : s.isDir p = true) (hp : (s.inode (s.inodeOf p)).priv = some p)
    (hentry : s.isDir c = true → (s.inode (s.inodeOf c)).priv = some c ∧ p < c) :
    Shape (s.headInsert p c) busy := by
  have hlt := h.lt_top_of_priv hp
  refine h.setChildren hlt ?_ ?_ ?_ ?_ ?_ ?_
  · exact nodup_cons.2 ⟨fun hm => hc (h.listed hm), h.nodup p⟩
  · intro x hx
    obtain rfl | hx := mem_cons.1 hx
    · exact hparent
    · exact h.parent p x hx
  · intro x hx y hy hn
    obtain hxc | hx := mem_cons.1 hx <;> obtain hyc | hy := mem_cons.1 hy
    · rw [hxc, hyc]
    · exact absurd (hxc ▸ hn).symm (hname y hy)
    · exact absurd (hyc ▸ hn) (hname x hx)
    · exact h.names p x y hx hy hn
  · exact fun _ _ => ⟨hd, hp⟩
  · intro x hx
    obtain rfl | hx := mem_cons.1 hx
    · exact hentry
    · exact h.entry p x hx
  · intro ip hip
    have hlisted : ∀ {x}, s.Listed x ∨ x = c → (s.headInsert p c).Listed x :=
      (listed_headInsert hlt).2
    obtain (he | hb) | ⟨x, hx, hi, hl⟩ := h.dirs ip hip
    · have hdc : s.isDir c = true := s.isDir_eq_true.2 (he ▸ hip)
      exact .inr ⟨c, he ▸ (hentry hdc).1, he.symm, .inr (hlisted (.inr rfl))⟩
    · exact .inl hb
    · exact .inr ⟨x, hx, hi, hl.imp_right fun hl => hlisted (.inl hl)⟩

lemma perm {l : List ℕ} (hl : l.Perm (s.children p)) (hne : l ≠ []) :
    Shape (s.setChildren p l) busy := by
  obtain ⟨c, hc⟩ := exists_mem_of_ne_nil l hne
  have hlt := h.holder_lt_top (hl.mem_iff.1 hc)
  have hchildren : ∀ q x, x ∈ s.children q → x ∈ (s.setChildren p l).children q := by
    intro q x hx
    rw [children_setChildren]
    split
    next hq => exact hl.mem_iff.2 (hq ▸ hx)
    · exact hx
  refine h.setChildren hlt (hl.nodup_iff.2 (h.nodup p))
    (fun x hx => h.parent p x (hl.mem_iff.1 hx))
    (fun x hx y hy => h.names p x y (hl.mem_iff.1 hx) (hl.mem_iff.1 hy))
    (fun x hx => h.holder p x (hl.mem_iff.1 hx)) (fun x hx => h.entry p x (hl.mem_iff.1 hx)) ?_
  intro ip hip
  obtain hb | ⟨x, hx, hi, hd⟩ := h.dirs ip hip
  · exact .inl hb
  · exact .inr ⟨x, hx, hi, hd.imp_right fun ⟨q, hq, hm⟩ => ⟨q, hq, hchildren q x hm⟩⟩

omit h in
lemma children_setInfo_of_eq (hi : i.children = s.children c) :
    (s.setInfo c i).children = s.children := by
  ext q : 1
  rw [children_setInfo]
  exact ite_eq_right_iff.2 fun hq => hq ▸ hi

omit h in
lemma listed_setInfo (hi : i.children = s.children c) : (s.setInfo c i).Listed x ↔ s.Listed x := by
  rw [State.Listed, children_setInfo_of_eq hi]
  rfl

lemma setInfo (hc : ¬s.Listed c) (h0 : c ≠ 0) (hlt : c < s.infoTop)
    (hi : i.children = s.children c) (hshort : i.name.length < 256)
    (hinode : i.inode = s.inodeOf c ∨ s.children c = [] ∧
      ∀ ip, s.typeOf ip = .dir → ip ∉ busy → (s.inode ip).priv ≠ some c) :
    Shape (s.setInfo c i) busy := by
  have hch := children_setInfo_of_eq hi
  have hne : ∀ {q x}, x ∈ s.children q → x ≠ c := fun hx he => hc (he ▸ h.listed hx)
  have hin : ∀ {x}, x ≠ c → (s.setInfo c i).inodeOf x = s.inodeOf x := fun hx => by
    rw [inodeOf_setInfo, if_neg hx]
  -- the node itself keeps its inode if it heads a list
  have hhead : ∀ {q x}, x ∈ s.children q → (s.setInfo c i).inodeOf q = s.inodeOf q := by
    intro q x hx
    by_cases hq : q = c
    · obtain he | ⟨he, -⟩ := hinode
      · rw [inodeOf_setInfo, if_pos hq, he, hq]
      · rw [hq, he] at hx
        exact absurd hx not_mem_nil
    · exact hin hq
  exact
    { h with
      root_inode := (hin h0.symm).trans h.root_inode
      root_parent := by rw [parentOf_setInfo, if_neg h0.symm, h.root_parent]
      info_top := fun j hj =>
        (update_of_ne (lt_of_lt_of_le hlt hj).ne' ..).trans (h.info_top j hj)
      short := fun x => by
        rw [nameOf_setInfo]
        split
        · exact hshort
        · exact h.short x
      parent := fun q x hx => by
        rw [hch] at hx
        rw [parentOf_setInfo, if_neg (hne hx), h.parent q x hx]
      nodup := fun q => by rw [hch]; exact h.nodup q
      names := fun q x y hx hy hn => by
        rw [hch] at hx hy
        rw [nameOf_setInfo, nameOf_setInfo, if_neg (hne hx), if_neg (hne hy)] at hn
        exact h.names q x y hx hy hn
      holder := fun q x hx => by
        rw [hch] at hx
        rw [isDir_eq_true, hhead hx]
        exact ⟨s.isDir_eq_true.1 (h.holder q x hx).1, (h.holder q x hx).2⟩
      entry := fun q x hx hd => by
        rw [hch] at hx
        rw [isDir_eq_true, hin (hne hx)] at hd
        rw [hin (hne hx)]
        exact h.entry q x hx (s.isDir_eq_true.2 hd)
      dirs := fun ip hip => by
        by_cases hb : ip ∈ busy
        · exact .inl hb
        obtain ⟨x, hx, hxi, hl⟩ := (h.dirs ip hip).resolve_left hb
        refine .inr ⟨x, hx, ?_, hl.imp_right (listed_setInfo hi).2⟩
        by_cases hxc : x = c
        · obtain he | ⟨-, hp⟩ := hinode
          · rw [inodeOf_setInfo, if_pos hxc, he, ← hxc, hxi]
          · exact absurd (hxc ▸ hx) (hp ip hip hb)
        · exact (hin hxc).trans hxi }

omit h in
lemma take_lt (name : Name) : (name.take 255).length < 256 :=
  lt_succ_of_le (length_take_le 255 name)

lemma rename (hc : ¬s.Listed c) (h0 : c ≠ 0) (hlt : c < s.infoTop)
    (name : Name) : Shape (s.rename c p name) busy :=
  h.setInfo hc h0 hlt rfl (take_lt name) (.inl rfl)

lemma kfree (hc : ¬s.Listed c) (h0 : c ≠ 0) (hlt : c < s.infoTop)
    (hch : s.children c = [])
    (hp : ∀ ip, s.typeOf ip = .dir → ip ∉ busy → (s.inode ip).priv ≠ some c) :
    Shape (s.kfree c) busy :=
  h.setInfo hc h0 hlt hch.symm (succ_pos 255) (.inr ⟨hch, hp⟩)

lemma grow : Shape { s with infoTop := s.infoTop + 1 } busy where
  __ := h
  top_pos := succ_pos _
  info_top := fun i hi => h.info_top i (le_of_succ_le hi)
  dirs := fun ip hip => (h.dirs ip hip).imp_right fun ⟨x, hx, hi, hl⟩ =>
    ⟨x, hx, hi, hl.imp_right fun ⟨q, hq, hm⟩ => ⟨q, lt_succ_of_lt hq, hm⟩⟩

lemma children_top : s.children s.infoTop = [] := by
  rw [children, h.info_top _ le_rfl]
  rfl

lemma newInfo
    (hp : ∀ d, s.typeOf d = .dir → d ∉ busy → (s.inode d).priv ≠ some s.infoTop) (name : Name) :
    Shape (s.newInfo ip p name) busy :=
  h.grow.setInfo (c := s.infoTop) (fun ⟨_, _, hm⟩ => lt_irrefl _ (h.lt_top hm)) h.top_pos.ne'
    (lt_succ_self _) h.children_top.symm (take_lt name) (.inr ⟨h.children_top, hp⟩)

/-- Changes to inodes. Those outside `F` keep their type and node; the lists use no other. -/
lemma of_inode (F : Set ℕ) {f : ℕ → Inode} {top : ℕ}
    (hsame : ∀ ip, ip ∉ F → (f ip).type = s.typeOf ip ∧ (f ip).priv = (s.inode ip).priv)
    (hroot : root ∉ F)
    (hused : ∀ q x, x ∈ s.children q → s.inodeOf x ∉ F ∧ s.inodeOf q ∉ F)
    (htop : ∀ ip, top ≤ ip → f ip = Inode.free)
    (hbusy : ∀ ip, (f ip).type = .dir → ip ∈ F ∨ ip ∈ busy → ip ∈ busy') :
    Shape { s with inode := f, inodeTop := top } busy' :=
  { h with
    root_type := (hsame root hroot).1.trans h.root_type
    root_priv := (hsame root hroot).2.trans h.root_priv
    inode_top := htop
    holder := fun q x hx => by
      obtain ⟨htype, hpriv⟩ := hsame _ (hused q x hx).2
      obtain ⟨hd, hp⟩ := h.holder q x hx
      exact ⟨isDir_eq_true _ |>.2 (htype.trans (s.isDir_eq_true.1 hd)), hpriv.trans hp⟩
    entry := fun q x hx hd => by
      obtain ⟨htype, hpriv⟩ := hsame _ (hused q x hx).1
      have hd' := s.isDir_eq_true.2 (htype.symm.trans (isDir_eq_true _ |>.1 hd))
      exact ⟨hpriv.trans (h.entry q x hx hd').1, (h.entry q x hx hd').2⟩
    dirs := fun ip hip => by
      by_cases hF : ip ∈ F
      · exact .inl (hbusy ip hip (.inl hF))
      obtain ⟨htype, hpriv⟩ := hsame ip hF
      obtain hb | ⟨x, hx, hi, hl⟩ := h.dirs ip (htype.symm.trans hip)
      · exact .inl (hbusy ip hip (.inr hb))
      · exact .inr ⟨x, hpriv.trans hx, hi, hl⟩ }

lemma lt_inodeTop (hip : s.inode ip ≠ Inode.free) : ip < s.inodeTop := by
  by_contra hge
  exact hip (h.inode_top ip (not_lt.1 hge))

lemma lt_inodeTop_of_count (hpos : 0 < (s.inode ip).count) : ip < s.inodeTop :=
  h.lt_inodeTop fun he => by
    rw [he] at hpos
    exact lt_irrefl 0 hpos

lemma lt_inodeTop_of_dir (hip : s.typeOf ip = .dir) : ip < s.inodeTop := by
  refine h.lt_inodeTop fun he => ?_
  rw [typeOf, he] at hip
  exact nomatch hip

lemma setInode {i : Inode} (hlt : ip < s.inodeTop)
    (htype : i.type = s.typeOf ip) (hpriv : i.priv = (s.inode ip).priv) :
    Shape (s.setInode ip i) busy := by
  refine h.of_inode ∅ (fun j _ => ?_) id (fun _ _ _ => ⟨id, id⟩) (fun j hj => ?_)
    fun _ _ hb => hb.resolve_left id
  · rw [update_apply]
    split
    next hj => rw [hj]; exact ⟨htype, hpriv⟩
    · exact ⟨rfl, rfl⟩
  · rw [update_of_ne (lt_of_lt_of_le hlt hj).ne', h.inode_top j hj]

omit h in
lemma same_of_update {i : Inode} (hip : ip ∉ ({c} : Set ℕ)) :
    (update s.inode c i ip).type = s.typeOf ip ∧
      (update s.inode c i ip).priv = (s.inode ip).priv := by
  rw [update_of_ne hip]
  exact ⟨rfl, rfl⟩

omit h in
/-- Freeing an inode that no entry names and whose node heads no entries. -/
lemma freeInode (h : Shape s (insert c busy)) (h0 : c ≠ root)
    (hnamed : ∀ q x, x ∈ s.children q → s.inodeOf x ≠ c)
    (hhead : ∀ q x, x ∈ s.children q → s.inodeOf q ≠ c) :
    Shape (s.setInode c Inode.free) busy := by
  refine h.of_inode {c} (fun _ => same_of_update) h0.symm
    (fun q x hx => ⟨hnamed q x hx, hhead q x hx⟩) (fun ip hip => ?_) fun ip hip hb => ?_
  · rw [update_apply, h.inode_top ip hip, ite_self]
  · have hne : ip ≠ c := by
      rintro rfl
      rw [update_self] at hip
      exact nomatch hip
    exact (hb.resolve_left hne).resolve_left hne

/-- A new inode, which no entry names yet. -/
lemma newInode (hnamed : ∀ q x, x ∈ s.children q → s.inodeOf x ≠ s.inodeTop)
    (type : InodeType) : Shape (s.newInode type) (insert s.inodeTop busy) := by
  refine h.of_inode {s.inodeTop} (fun _ => same_of_update) (h.lt_inodeTop_of_dir h.root_type).ne
    (fun q x hx => ⟨hnamed q x hx, ?_⟩) (fun ip hip => ?_) fun _ _ hb => hb
  · exact (h.lt_inodeTop_of_dir (s.isDir_eq_true.1 (h.holder q x hx).1)).ne
  · exact (update_of_ne (lt_of_succ_le hip).ne' ..).trans
      (h.inode_top ip (le_of_succ_le hip))

end

end Shape

end XosKernel.Tmpfs
