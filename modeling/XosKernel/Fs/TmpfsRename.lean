/-
# Renames in tmpfs

A rename takes an entry off its list, perhaps takes another one off the list it goes to, and puts
it there under the new name. What it does not do is look after the link counts: a subdirectory
that changes its directory is counted where it was, and what is overwritten keeps its link.
-/
import XosKernel.Fs.TmpfsOps

namespace XosKernel.Tmpfs

open List Option State

variable {s t : State} {held : ℕ → ℕ} {slack : ℕ → ℤ} {busy : Set ℕ} {d d' p q c : ℕ}
  {name : Name}

/-! ### Finding and moving an entry -/

lemma Shape.find_eq_some_iff (h : Shape s busy) :
    s.find p name = some c ↔ c ∈ s.children p ∧ s.nameOf c = name := by
  refine ⟨s.find_eq_some, fun ⟨hc, hn⟩ => ?_⟩
  rcases hf : s.find p name with _ | x
  · exact absurd hn (s.find_eq_none hf hc)
  · obtain ⟨hx, hxn⟩ := s.find_eq_some hf
    rw [h.names p x c hx hc (hxn.trans hn.symm)]

lemma Shape.find_detach (h : Shape s busy) (hc : c ∈ s.children p)
    (hne : p = q → s.nameOf c ≠ name) : (s.detach p c).find q name = s.find q name := by
  have hS := h.detach hc
  ext x
  rw [hS.find_eq_some_iff, h.find_eq_some_iff, h.mem_children_detach hc, State.detach,
    s.nameOf_setChildren]
  refine ⟨fun hx => ⟨hx.1.1, hx.2⟩, fun hx => ⟨⟨hx.1, ?_⟩, hx.2⟩⟩
  rintro rfl
  exact hne (h.holder_eq hc hx.1) hx.2

section

variable (s : State) (c q : ℕ) (name : Name)

@[simp] lemma inodeOf_rename : (s.rename c q name).inodeOf = s.inodeOf := by
  ext x : 1
  rw [rename, inodeOf_setInfo]
  exact ite_eq_right_iff.2 fun h => h ▸ rfl

@[simp] lemma children_rename : (s.rename c q name).children = s.children :=
  Shape.children_setInfo_of_eq rfl

@[simp] lemma listed_rename : (s.rename c q name).Listed = s.Listed := by
  ext x
  rw [State.Listed, children_rename]
  rfl

@[simp] lemma isDir_rename : (s.rename c q name).isDir = s.isDir := by
  ext x : 1
  rw [isDir, inodeOf_rename]
  rfl

end

/-- A node that is on no list, and the node of the directory it goes to. -/
structure Loose (s : State) (c q : ℕ) : Prop where
  not_listed : ¬s.Listed c
  ne_root : c ≠ 0
  lt_top : c < s.infoTop
  dir : s.isDir q = true
  priv : (s.inode (s.inodeOf q)).priv = some q

/-- An entry that is on no list goes to a directory where its new name is free. -/
lemma Loose.shape (hL : Loose s c q) (hS : Shape s (insert (s.inodeOf c) busy))
    (hname : s.find q name = none) (hlen : name.length < 256)
    (hentry : s.isDir c = true → (s.inode (s.inodeOf c)).priv = some c ∧ q < c) :
    Shape ((s.rename c q name).headInsert q c) busy := by
  refine Shape.headInsert (s := s.rename c q name) ?_ ?_ ?_ ?_ ?_ ?_ ?_
  · rw [inodeOf_rename]
    exact hS.rename hL.not_listed hL.ne_root hL.lt_top name
  · rw [listed_rename]
    exact hL.not_listed
  · exact (s.parentOf_setInfo ..).trans (if_pos rfl)
  · intro x hx
    rw [children_rename] at hx
    have hne : x ≠ c := fun he => hL.not_listed (he ▸ hS.listed hx)
    have hx' : (s.rename c q name).nameOf x = s.nameOf x :=
      (s.nameOf_setInfo ..).trans (if_neg hne)
    have hc' : (s.rename c q name).nameOf c = name.take 255 :=
      (s.nameOf_setInfo ..).trans (if_pos rfl)
    rw [hx', hc', take_of_length_le (by omega)]
    exact s.find_eq_none hname hx
  · rw [isDir_rename]
    exact hL.dir
  · rw [inodeOf_rename]
    exact hL.priv
  · rw [isDir_rename, inodeOf_rename]
    exact hentry

lemma Loose.counts (hL : Loose s c q) (hS : Shape s busy)
    (hC : Counts s (held + Pi.single (s.inodeOf c) 1) slack)
    (hown : ∀ x, s.typeOf x = .dir → (s.inode x).priv = some q → x = s.inodeOf q) (name : Name) :
    Counts ((s.rename c q name).headInsert q c) held (slack - Pi.single (s.owner q c) 1) := by
  have howner : (s.rename c q name).owner q c = s.owner q c := by simp [owner]
  rw [← howner]
  refine Counts.headInsert (s := s.rename c q name) ?_
    (hS.rename hL.not_listed hL.ne_root hL.lt_top name) hL.lt_top ?_ ?_ ?_ ?_
  · rw [inodeOf_rename]
    exact hC.setInfo hS hL.not_listed rfl
  · rw [listed_rename]
    exact hL.not_listed
  · rw [isDir_rename]
    exact hL.dir
  · rw [inodeOf_rename]
    exact hL.priv
  · rw [inodeOf_rename]
    exact hown

/-! ### A free name -/

/-- The moved node and the directory it goes to. -/
structure Moving (s : State) (d p node d' q : ℕ) : Prop where
  entry : Entry s d p node
  dir : s.typeOf d' = .dir
  priv : (s.inode d').priv = some q

namespace Moving

variable {node : ℕ}

section

variable (hM : Moving s d p node d' q) (h : Inv s 0)
include hM h

lemma inodeOf : s.inodeOf q = d' := (h.shape.own q d' hM.dir hM.priv).symm

lemma isDir : s.isDir q = true := s.isDir_eq_true.2 ((hM.inodeOf h).symm ▸ hM.dir)

lemma priv' : (s.inode (s.inodeOf q)).priv = some q := (hM.inodeOf h).symm ▸ hM.priv

lemma owner (x : ℕ) : s.owner q x = if s.isDir x then d' else s.inodeOf x := by
  rw [State.owner, hM.inodeOf h]

lemma dir_entry (hdir : s.isDir node = true) :
    (s.inode (s.inodeOf node)).priv = some node ∧ p < node :=
  h.shape.entry p node hM.entry.mem hdir

lemma loose : Loose (s.detach p node) node q :=
  ⟨hM.entry.not_listed_detach h, hM.entry.ne_root h, hM.entry.lt_top h,
    by rw [s.isDir_detach]; exact hM.isDir h, by rw [s.inodeOf_detach]; exact hM.priv' h⟩

/-- The counts after a move to a free name: a subdirectory is still counted in its old
directory, and not yet in its new one. -/
lemma free_counts (name : Name) :
    Counts (((s.detach p node).rename node q name).headInsert q node) 0
      (Pi.single (if s.isDir node then d else s.inodeOf node) 1 -
        Pi.single (if s.isDir node then d' else s.inodeOf node) 1) := by
  rw [← hM.owner h, ← s.owner_detach p node]
  refine (hM.loose h).counts (hM.entry.detach_shape h) ?_ ?_ name
  · rw [s.inodeOf_detach]
    exact hM.entry.detach_counts h
  · rw [s.inodeOf_detach]
    exact h.shape.own q

lemma free_shape (hname : (s.detach p node).find q name = none) (hlen : name.length < 256)
    (hq : s.isDir node = true → q < node) :
    Shape (((s.detach p node).rename node q name).headInsert q node) ∅ := by
  refine (hM.loose h).shape ?_ hname hlen ?_
  · rw [s.inodeOf_detach]
    exact hM.entry.detach_shape h
  · rw [s.isDir_detach, s.inodeOf_detach]
    exact fun hd => ⟨(hM.dir_entry h hd).1, hq hd⟩

lemma free_keeps (hname : (s.detach p node).find q name = none) (hlen : name.length < 256)
    (hsafe : s.isDir node = true → p = q) :
    Keeps s (((s.detach p node).rename node q name).headInsert q node) 0 := by
  refine ⟨⟨hM.free_shape h hname hlen fun hd => hsafe hd ▸ (hM.dir_entry h hd).2, ?_⟩, fun _ => id⟩
  refine (hM.free_counts h name).congr_slack fun x _ _ => ?_
  split
  next hd =>
    have : d = d' := hM.entry.inode.symm.trans ((hsafe hd).symm ▸ hM.inodeOf h)
    rw [this, sub_self]
  · rw [sub_self]

end

end Moving

/-! ### What a wrong count shows -/

lemma not_exact_of_dir (hC : Counts t held slack) (hlive : t.LiveDir d) (hs : slack d ≠ 0) :
    ¬Exact t := by
  intro hE
  have h₁ := hE.dir d hlive
  rw [hC.dir d hlive.1] at h₁
  exact hs (by linarith)

lemma not_exact_of_file (hC : Counts t held slack) (ip : ℕ) (hip : t.typeOf ip = .regular)
    (hpos : 0 < (t.inode ip).count) (hs : slack ip ≠ 0) : ¬Exact t := by
  intro hE
  have h₁ := hE.file ip hpos hip
  rw [hC.file ip hip hpos] at h₁
  exact hs (by linarith)

lemma liveDir_of_listed (h : Inv s held) (hd : s.typeOf d = .dir) (hp : (s.inode d).priv = some p)
    (htype : t.typeOf d = .dir) (htop : t.infoTop = s.infoTop) (hin : t.inodeOf p = s.inodeOf p)
    (hlisted : s.Listed p → t.Listed p) : t.LiveDir d := by
  refine ⟨htype, ?_⟩
  obtain hb | ⟨x, hx, hi, rfl | hl⟩ := h.shape.dirs d hd
  · exact absurd hb (Set.notMem_empty d)
  · exact .inl (hi.symm.trans h.shape.root_inode)
  · obtain rfl := some.inj (hp.symm.trans hx)
    obtain ⟨r, -, hr⟩ := hl
    refine .inr ⟨p, t.mem_entries.2 ⟨?_, hlisted (h.shape.listed hr), hin.trans hi⟩⟩
    rw [htop]
    exact h.shape.lt_top hr

lemma Moving.free_not_exact {node : ℕ} (hM : Moving s d p node d' q) (h : Inv s 0) (name : Name)
    (hdir : s.isDir node = true) (hne : p ≠ q) :
    ¬Exact (((s.detach p node).rename node q name).headInsert q node) := by
  have hC := hM.free_counts h name
  rw [hdir, if_pos rfl, if_pos rfl] at hC
  have hdd : d ≠ d' := fun he => hne (some.inj (hM.entry.node.symm.trans (he ▸ hM.priv)))
  refine not_exact_of_dir (d := d) hC ?_ ?_
  · refine liveDir_of_listed h hM.entry.dir hM.entry.node hM.entry.dir rfl ?_ fun hl => ?_
    · rw [headInsert, inodeOf_setChildren, inodeOf_rename, s.inodeOf_detach]
    · have hqlt := h.shape.lt_top_of_priv (hM.priv' h)
      refine (Shape.listed_headInsert (s := (s.detach p node).rename node q name) hqlt).2 (.inl ?_)
      rw [listed_rename]
      exact (h.shape.listed_detach hM.entry.mem).2 ⟨hl, (hM.dir_entry h hdir).2.ne⟩
  · rw [Pi.sub_apply, Pi.single_eq_same, Pi.single_eq_of_ne hdd]
    norm_num

/-! ### A name that exists -/

lemma isUnder_congr (hp : t.parentOf = s.parentOf) (c fuel a : ℕ) :
    isUnder t c fuel a = isUnder s c fuel a := by
  induction fuel generalizing a with
  | zero => rfl
  | succ fuel ih =>
    rw [isUnder, isUnder, hp]
    split
    · rfl
    · rw [ih]

lemma Inv.putBack (h : Inv s 0) (hc : c ∈ s.children p) :
    Keeps s ((s.detach p c).headInsert p c) 0 := by
  have heq : (s.detach p c).headInsert p c = s.setChildren p (c :: (s.children p).erase c) := by
    have hch : (s.detach p c).children p = (s.children p).erase c := by
      rw [detach, children_setChildren, if_pos rfl]
    rw [headInsert, hch]
    simp only [setChildren, setInfo, detach, Function.update_self, Function.update_idem]
  have hperm := (perm_cons_erase hc).symm
  rw [heq]
  exact ⟨⟨h.shape.perm hperm (cons_ne_nil _ _), h.counts.perm hperm⟩, fun _ => id⟩

namespace Moving

variable {node exist : ℕ}

/-- The lists after an overwriting move, before anything is reclaimed. -/
def replaced (s : State) (p node q exist : ℕ) (name : Name) : State :=
  (((s.detach p node).detach q exist).rename node q name).headInsert q node

section

variable (hM : Moving s d p node d' q) (h : Inv s 0)
include hM h

section

variable (hexist : exist ∈ (s.detach p node).children q)
include hexist

lemma both_shape : Shape ((s.detach p node).detach q exist)
    (insert (s.inodeOf node) (insert (s.inodeOf exist) ∅)) := by
  have := (hM.entry.detach_shape h).detach hexist
  rwa [s.inodeOf_detach, Set.insert_comm] at this

lemma both_not_listed {x : ℕ} :
    ((s.detach p node).detach q exist).Listed x ↔ s.Listed x ∧ x ≠ node ∧ x ≠ exist := by
  rw [(hM.entry.detach_shape h).listed_detach hexist, h.shape.listed_detach hM.entry.mem, and_assoc]

lemma both_loose : Loose ((s.detach p node).detach q exist) node q where
  not_listed := fun hl => ((hM.both_not_listed h hexist).1 hl).2.1 rfl
  ne_root := hM.entry.ne_root h
  lt_top := hM.entry.lt_top h
  dir := by
    rw [isDir_detach, s.isDir_detach]
    exact hM.isDir h
  priv := by
    rw [inodeOf_detach, s.inodeOf_detach]
    exact hM.priv' h

/-- The counts after an overwriting move: the overwritten entry's link is still counted. -/
lemma replaced_counts (name : Name) :
    Counts (replaced s p node q exist name) (0 + Pi.single (s.inodeOf exist) 1)
      (Pi.single (if s.isDir node then d else s.inodeOf node) 1 +
        Pi.single (if s.isDir exist then d' else s.inodeOf exist) 1 -
        Pi.single (if s.isDir node then d' else s.inodeOf node) 1) := by
  have hC := (hM.entry.detach_counts h).detach (hM.entry.detach_shape h) hexist
    (by rw [s.inodeOf_detach]; exact h.shape.own q)
  rw [s.owner_detach, s.inodeOf_detach, add_right_comm] at hC
  have hown : ((s.detach p node).detach q exist).owner q node = s.owner q node := by simp
  rw [← hM.owner h, ← hM.owner h, ← hown]
  refine (hM.both_loose h hexist).counts (hM.both_shape h hexist) ?_ ?_ name
  · rwa [inodeOf_detach, s.inodeOf_detach]
  · rw [inodeOf_detach, s.inodeOf_detach]
    exact h.shape.own q

end

lemma replaced_shape (hexist : (s.detach p node).find q name = some exist)
    (hlen : name.length < 256) (hnode : s.isDir node = false) (hdir : s.isDir exist = false) :
    Shape (replaced s p node q exist name) ∅ := by
  obtain ⟨hmem, hname⟩ := find_eq_some _ hexist
  have hS := hM.entry.detach_shape h
  have hfree : ((s.detach p node).detach q exist).find q name = none := by
    rcases hf : ((s.detach p node).detach q exist).find q name with _ | x
    · rfl
    · obtain ⟨hx, hxn⟩ := find_eq_some _ hf
      obtain ⟨hx, hne⟩ := (hS.mem_children_detach hmem).1 hx
      rw [detach, nameOf_setChildren] at hxn
      exact absurd (hS.names q x exist hx hmem (hxn.trans hname.symm)) hne
  have hS' : Shape (replaced s p node q exist name) (insert (s.inodeOf exist) ∅) := by
    refine (hM.both_loose h hmem).shape ?_ hfree hlen ?_
    · rw [inodeOf_detach, s.inodeOf_detach]
      exact hM.both_shape h hmem
    · rw [isDir_detach, s.isDir_detach, hnode]
      rintro ⟨⟩
  exact hS'.drop_busy (s.typeOf_ne_dir hdir)

lemma replaced_not_listed (hexist : exist ∈ (s.detach p node).children q) (name : Name) {x : ℕ} :
    (replaced s p node q exist name).Listed x ↔ s.Listed x ∧ x ≠ exist ∨ x = node := by
  have hqlt : q < (((s.detach p node).detach q exist).rename node q name).infoTop :=
    h.shape.lt_top_of_priv (hM.priv' h)
  rw [replaced, Shape.listed_headInsert hqlt, listed_rename, hM.both_not_listed h hexist]
  by_cases hx : x = node
  · simp [hx]
  · simp [hx]

omit hM h in
lemma replaced_inodeOf (s : State) (p node q exist : ℕ) (name : Name) :
    (replaced s p node q exist name).inodeOf = s.inodeOf := by
  rw [replaced, headInsert, inodeOf_setChildren, inodeOf_rename, inodeOf_detach, s.inodeOf_detach]

lemma replaced_mem (hexist : exist ∈ (s.detach p node).children q) (name : Name) :
    ∀ r x, x ∈ (replaced s p node q exist name).children r →
      x ∈ (replaced s p node q exist name).entries
        ((replaced s p node q exist name).inodeOf x) := by
  intro r x hx
  have hqlt : q < s.infoTop := h.shape.lt_top_of_priv (hM.priv' h)
  have hr : r < s.infoTop ∧ x < s.infoTop := by
    obtain hx' | ⟨rfl, rfl⟩ := Shape.mem_children_headInsert.1 hx
    · rw [children_rename] at hx'
      exact ⟨(hM.both_shape h hexist).holder_lt_top hx', (hM.both_shape h hexist).lt_top hx'⟩
    · exact ⟨hqlt, hM.entry.lt_top h⟩
  exact mem_entries _ |>.2 ⟨hr.2, ⟨r, hr.1, hx⟩, rfl⟩

/-- Overwriting a file that nothing else refers to, or one whose links are not counted. -/
lemma replaced_keeps (hexist : (s.detach p node).find q name = some exist)
    (hlen : name.length < 256) (hnode : s.isDir node = false) (hdir : s.isDir exist = false)
    (hsafe : s.typeOf (s.inodeOf exist) ≠ .regular ∨ (s.inode (s.inodeOf exist)).count = 1) :
    Keeps s (if (s.inode (s.inodeOf exist)).count = 1
      then ((replaced s p node q exist name).inodePut (s.inodeOf exist)).kfree exist
      else (replaced s p node q exist name).inodePut (s.inodeOf exist)) 0 := by
  have hmem := (find_eq_some _ hexist).1
  obtain ⟨hmem', hne⟩ := (h.shape.mem_children_detach hM.entry.mem).1 hmem
  have htype := s.typeOf_ne_dir hdir
  have hS := hM.replaced_shape h hexist hlen hnode hdir
  have hC := hM.replaced_counts h hmem name
  rw [hnode, hdir] at hC
  obtain ⟨hS', hdirs⟩ := put_shape hS hC
  have hinv : Inv ((replaced s p node q exist name).inodePut (s.inodeOf exist)) 0 := by
    refine ⟨hS', (hC.inodePut (hM.replaced_mem h hmem name)).congr_slack fun x hx hxt => ?_⟩
    by_cases hxe : x = s.inodeOf exist
    · exfalso
      rw [hxe] at hx hxt
      by_cases h1 : (s.inode (s.inodeOf exist)).count = 1
      · rw [inodePut_of_last (s := replaced s p node q exist name) h1] at hx
        exact lt_irrefl 0 hx
      · have hpos := h.count_pos (.inr ⟨exist, h.shape.mem_entries_of_mem hmem'⟩)
        have hmore : 1 < ((replaced s p node q exist name).inode (s.inodeOf exist)).count := by
          change 1 < (s.inode (s.inodeOf exist)).count
          omega
        rw [(inodePut_of_not_last hmore).1] at hxt
        exact hxt.elim (hsafe.resolve_right h1) htype
    · simp [hxe]
  have hkeep : Keeps s ((replaced s p node q exist name).inodePut (s.inodeOf exist)) 0 :=
    ⟨hinv, hdirs⟩
  refine hkeep.reclaim (fun hl => ?_) ?_ (h.shape.lt_top hmem') ?_ _
  · obtain ⟨-, hx⟩ | hx := (hM.replaced_not_listed h hmem name).1 hl
    · exact hx rfl
    · exact hne hx
  · rintro rfl
    exact h.shape.root_not_listed (h.shape.listed hmem')
  · refine eq_nil_iff_forall_not_mem.2 fun x hx => ?_
    have hd := (hS.holder exist x hx).1
    rw [isDir_eq_true, replaced_inodeOf] at hd
    exact htype hd

lemma replaced_not_exact (hexist : exist ∈ (s.detach p node).children q) (name : Name)
    (hnode : s.isDir node = false) (hreg : s.typeOf (s.inodeOf exist) = .regular)
    (hcount : (s.inode (s.inodeOf exist)).count ≠ 1) :
    ¬Exact ((replaced s p node q exist name).inodePut (s.inodeOf exist)) := by
  have hmem' := ((h.shape.mem_children_detach hM.entry.mem).1 hexist).1
  have hdir : s.isDir exist = false := by rw [State.isDir, hreg]; rfl
  have hC := hM.replaced_counts h hexist name
  rw [hnode, hdir] at hC
  have hpos := h.count_pos (.inr ⟨exist, h.shape.mem_entries_of_mem hmem'⟩)
  have hmore : 1 < ((replaced s p node q exist name).inode (s.inodeOf exist)).count := by
    change 1 < (s.inode (s.inodeOf exist)).count
    omega
  obtain ⟨htype, hcount'⟩ := inodePut_of_not_last hmore
  refine not_exact_of_file (hC.inodePut (hM.replaced_mem h hexist name)) (s.inodeOf exist) ?_ ?_ ?_
  · exact (congrFun htype _).trans hreg
  · rw [hcount']
    omega
  · simp

/-- A directory moved over an empty one: its old directory counts it still, or was the one that is
gone, with the moved directory in it. -/
lemma replaced_dir_wrong (hexist : exist ∈ (s.detach p node).children q) (name : Name)
    (hnode : s.isDir node = true) (hdir : s.isDir exist = true) :
    ¬(Exact ((replaced s p node q exist name).inodePut (s.inodeOf exist)) ∧
      OnlyEmptyRemoved s ((replaced s p node q exist name).inodePut (s.inodeOf exist))) := by
  obtain ⟨hmem', hne⟩ := (h.shape.mem_children_detach hM.entry.mem).1 hexist
  have hpexist := (h.shape.entry q exist hmem' hdir).1
  have hin : ((replaced s p node q exist name).inodePut (s.inodeOf exist)).inodeOf = s.inodeOf := by
    rw [← replaced_inodeOf s p node q exist name]
    ext x : 1
    rw [State.inodeOf, (info_inodePut _ _).1]
    rfl
  have hlisted : ∀ {x}, ((replaced s p node q exist name).inodePut (s.inodeOf exist)).Listed x ↔
      s.Listed x ∧ x ≠ exist ∨ x = node := by
    intro x
    rw [listed_inodePut]
    exact hM.replaced_not_listed h hexist name
  rintro ⟨hE, hO⟩
  by_cases hep : exist = p
  · -- the old directory itself is overwritten
    have hdi : s.inodeOf exist = d := hep ▸ hM.entry.inode
    have hgone : ¬((replaced s p node q exist name).inodePut (s.inodeOf exist)).LiveDir d := by
      rintro ⟨-, hr | ⟨x, hx⟩⟩
      · have := h.shape.root_priv
        rw [← hr, hM.entry.node, ← hep] at this
        exact h.shape.root_not_listed (some.inj this ▸ h.shape.listed hmem')
      · obtain ⟨-, hl, hi⟩ := (mem_entries _).1 hx
        rw [hin] at hi
        obtain ⟨⟨r, -, hr⟩, hxe⟩ | hx := hlisted.1 hl
        · have hxd : s.isDir x = true := s.isDir_eq_true.2 (hi ▸ hM.entry.dir)
          have hpx := (h.shape.entry r x hr hxd).1
          rw [hi, ← hdi, hpexist] at hpx
          exact hxe (some.inj hpx).symm
        · exact hM.entry.inodeOf_ne h (hx ▸ hi)
    have hempty := hO d (h.shape.liveDir hM.entry.dir) hgone
    rw [s.dirEntries_of_priv hM.entry.node] at hempty
    exact absurd hM.entry.mem (hempty ▸ not_mem_nil)
  · have hC := hM.replaced_counts h hexist name
    rw [hnode, hdir] at hC
    refine not_exact_of_dir (d := d) (hC.inodePut (hM.replaced_mem h hexist name)) ?_ ?_ hE
    · have hdne : d ≠ s.inodeOf exist := fun he => by
        rw [← he, hM.entry.node] at hpexist
        exact hep (some.inj hpexist).symm
      refine liveDir_of_listed h hM.entry.dir hM.entry.node ?_ (info_inodePut _ _).2
        (congrFun hin p) fun hl => hlisted.2 (.inl ⟨hl, Ne.symm hep⟩)
      exact (congrArg Inode.type (inodePut_other hdne)).trans hM.entry.dir
    · simp

end

end Moving

/-! ### The whole call -/

section Rename

variable {oldName newName : Name} {node : ℕ}

lemma tmpfsRename_found (hne : ¬(d = d' ∧ oldName = newName)) (hp : (s.inode d).priv = some p)
    (hq : (s.inode d').priv = some q) (hnode : s.find p oldName = some node) :
    (tmpfsRename s d oldName d' newName).1 =
      match (s.detach p node).find q newName with
      | none => ((s.detach p node).rename node q newName).headInsert q node
      | some exist =>
        match renameCheck (s.detach p node) node q exist with
        | some _ => (s.detach p node).headInsert p node
        | none =>
          if (s.inode (s.inodeOf exist)).count = 1 ∧ (!s.isDir exist) = true
          then ((Moving.replaced s p node q exist newName).inodePut (s.inodeOf exist)).kfree exist
          else (Moving.replaced s p node q exist newName).inodePut (s.inodeOf exist) := by
  rw [tmpfsRename, if_neg hne, hp, hq]
  simp only [hnode]
  cases (s.detach p node).find q newName with
  | none => rfl
  | some exist =>
    cases hr : renameCheck (s.detach p node) node q exist with
    | some rc => simp only [hr]
    | none =>
      simp only [hr]
      rw [s.inodeOf_detach, s.isDir_detach]
      rfl

lemma tmpfsRename_not_found
    (h : ∀ p q node, (s.inode d).priv = some p → (s.inode d').priv = some q →
      s.find p oldName = some node → d = d' ∧ oldName = newName) :
    (tmpfsRename s d oldName d' newName).1 = s := by
  rw [tmpfsRename]
  split
  · rfl
  next hne =>
    split
    next p q hp hq =>
      split
      · rfl
      next node hnode => exact absurd (h p q node hp hq hnode) hne
    · rfl

/-- When a rename over an existing entry is refused. -/
lemma renameCheck_eq_none (h : Inv s 0) (hM : Moving s d p node d' q) (exist : ℕ) :
    renameCheck (s.detach p node) node q exist = none ↔
      if s.isDir node then s.isDir exist = true ∧ (∀ c ∈ s.children exist, c = node) ∧
        isUnder s node (s.infoTop + 1) q = false
      else s.isDir exist = false := by
  have hunder : isUnder (s.detach p node) node (s.infoTop + 1) q =
      isUnder s node (s.infoTop + 1) q := isUnder_congr (s.parentOf_setChildren ..) ..
  have hch : (s.detach p node).children exist = [] ↔ ∀ c ∈ s.children exist, c = node := by
    rw [eq_nil_iff_forall_not_mem]
    refine forall_congr' fun c => ?_
    rw [h.shape.mem_children_detach hM.entry.mem]
    exact ⟨fun hc hm => not_not.1 fun hne => hc ⟨hm, hne⟩, fun hc ⟨hm, hne⟩ => hne (hc hm)⟩
  rw [renameCheck, s.isDir_detach]
  change (if _ then if isUnder (s.detach p node) node (s.infoTop + 1) q then _ else _ else _) = _ ↔
    _
  rw [hunder]
  split
  next hn =>
    cases hu : isUnder s node (s.infoTop + 1) q with
    | true => simp
    | false =>
      cases he : s.isDir exist with
      | false => simp
      | true => simp [hch]
  next hn => cases s.isDir exist <;> simp

lemma Moving.find_detach (hM : Moving s d p node d' q) (h : Inv s 0)
    (hname : s.nameOf node = oldName) (hne : ¬(d = d' ∧ oldName = newName)) :
    (s.detach p node).find q newName = s.find q newName := by
  refine h.shape.find_detach hM.entry.mem fun hpq hn => hne ⟨?_, hname.symm.trans hn⟩
  rw [← hM.entry.inode, hpq]
  exact hM.inodeOf h

lemma tmpfsRename_keeps (h : Inv s 0) (hd : s.typeOf d = .dir) (hd' : s.typeOf d' = .dir)
    (hlen : newName.length < 256)
    (hsafe : ∀ p q, (s.inode d).priv = some p → (s.inode d').priv = some q →
      d = d' ∧ oldName = newName ∨ ∀ node ∈ s.find p oldName, RenameSafe s p q node newName) :
    Keeps s (tmpfsRename s d oldName d' newName).1 0 := by
  by_cases hfound : ∃ p q node, (s.inode d).priv = some p ∧ (s.inode d').priv = some q ∧
      s.find p oldName = some node ∧ ¬(d = d' ∧ oldName = newName)
  · obtain ⟨p, q, node, hp, hq, hnode, hne⟩ := hfound
    have hsafe := (hsafe p q hp hq).resolve_left hne node hnode
    obtain ⟨hmem, hname⟩ := s.find_eq_some hnode
    have hM : Moving s d p node d' q := ⟨h.entry hd hp hmem, hd', hq⟩
    have hfind := hM.find_detach h hname hne
    rw [tmpfsRename_found hne hp hq hnode, hfind]
    rw [RenameSafe] at hsafe
    split
    next hnone =>
      rw [hnone] at hsafe
      exact hM.free_keeps h (hfind.trans hnone) hlen hsafe
    next exist hexist =>
      rw [hexist] at hsafe
      have hcheck := renameCheck_eq_none h hM exist
      split
      · exact h.putBack hmem
      next hnone =>
        have hok := hcheck.1 hnone
        cases hnd : s.isDir node with
        | true =>
          simp only [hnd, if_true] at hsafe hok
          obtain ⟨hed, hall, hu⟩ := hok
          obtain hsafe | ⟨c, hc, hcn⟩ | hsafe := hsafe
          · cases hed.symm.trans hsafe
          · exact absurd (hall c hc) hcn
          · cases hu.symm.trans hsafe
        | false =>
          simp only [hnd, Bool.false_eq_true, if_false] at hsafe hok
          simp only [hok, Bool.not_false, and_true]
          refine hM.replaced_keeps h (hfind.trans hexist) hlen hnd hok (hsafe.resolve_left ?_)
          rw [hok]
          rintro ⟨⟩
  · rw [tmpfsRename_not_found]
    · exact .refl h
    · intro p q node hp hq hnode
      by_contra hne
      exact hfound ⟨p, q, node, hp, hq, hnode, hne⟩

lemma tmpfsRename_wrong (h : Inv s 0) (hd : s.typeOf d = .dir) (hd' : s.typeOf d' = .dir)
    (hp : (s.inode d).priv = some p) (hq : (s.inode d').priv = some q)
    (hne : ¬(d = d' ∧ oldName = newName)) (hnode : s.find p oldName = some node)
    (hbad : ¬RenameSafe s p q node newName) :
    ¬(Exact (tmpfsRename s d oldName d' newName).1 ∧
      OnlyEmptyRemoved s (tmpfsRename s d oldName d' newName).1) := by
  obtain ⟨hmem, hname⟩ := s.find_eq_some hnode
  have hM : Moving s d p node d' q := ⟨h.entry hd hp hmem, hd', hq⟩
  have hfind := hM.find_detach h hname hne
  rw [tmpfsRename_found hne hp hq hnode, hfind]
  rw [RenameSafe] at hbad
  split
  next hnone =>
    rw [hnone] at hbad
    obtain ⟨hdir, hpq⟩ := Classical.not_imp.1 hbad
    exact fun hall => hM.free_not_exact h newName hdir hpq hall.1
  next exist hexist =>
    rw [hexist] at hbad
    have hexist' := (find_eq_some _ (hfind.trans hexist)).1
    have hcheck := renameCheck_eq_none h hM exist
    cases hnd : s.isDir node with
    | true =>
      simp only [hnd, if_true, not_or, not_exists, not_and, not_not] at hbad hcheck
      obtain ⟨hed, hall, hu⟩ := hbad
      have hed : s.isDir exist = true := Bool.not_eq_false _ ▸ hed
      rw [hcheck.2 ⟨hed, hall, Bool.not_eq_true _ ▸ hu⟩]
      simp only [hed, Bool.not_true, Bool.false_eq_true, and_false, if_false]
      exact hM.replaced_dir_wrong h hexist' newName hnd hed
    | false =>
      simp only [hnd, Bool.false_eq_true, if_false, not_or, not_not] at hbad hcheck
      obtain ⟨hed, hreg, hcount⟩ := hbad
      rw [hcheck.2 (Bool.not_eq_true _ ▸ hed)]
      simp only [hcount, false_and, if_false]
      exact fun hall => hM.replaced_not_exact h hexist' newName hnd hreg hcount hall.1

end Rename

end XosKernel.Tmpfs
