/-
# The tmpfs namespace over whole runs

The invariants hold in every state of a run whose calls meet `Safe`, and they make the namespace a
tree with exact link counts. A call that does not meet `Safe` breaks a count or removes a
directory that is not empty, so the condition is exactly what it takes.
-/
import XosKernel.Fs.TmpfsRename

namespace XosKernel.Tmpfs

open List Option Function Nat

variable {s t : State} {held : ℕ → ℕ} {d ip : ℕ} {name : Name}

/-! ### From the invariants to the tree -/

lemma pathWalk_eq_walk (s : State) (dir : ℕ) (path : List Name) :
    pathWalk s none dir path = walk (lookupSegment s) dir path := by
  induction path generalizing dir with
  | nil => rfl
  | cons seg rest ih =>
    rw [pathWalk, walk_cons]
    cases lookupSegment s dir seg with
    | none => rfl
    | some next =>
      rw [bind_some]
      dsimp only
      split
      next hlnk =>
        -- a symlink has no entries, so nothing is found under it
        obtain ⟨hne, htype⟩ := hlnk
        obtain ⟨n, ns, rfl⟩ := exists_cons_of_ne_nil hne
        have hnone : lookupSegment s next n = none := by
          rw [lookupSegment]
          split
          · rfl
          · rw [if_pos (by rw [htype]; exact nofun)]
        rw [walk_cons, hnone]
        rfl
      · exact ih next

lemma lookupSegment_eq_some (h : Shape s ∅) {u v : ℕ} {n : Name}
    (hl : lookupSegment s u n = some v) : ∃ ti c,
      (s.inode u).priv = some ti ∧ s.inodeOf ti = u ∧ c ∈ s.children ti ∧ s.nameOf c = n ∧
        s.inodeOf c = v := by
  rw [lookupSegment] at hl
  split at hl
  · exact nomatch hl
  split at hl
  · exact nomatch hl
  next hdir =>
    have hu := not_not.1 hdir
    rw [tmpfsLookup] at hl
    split at hl
    · exact nomatch hl
    next ti hti =>
      obtain ⟨c, hc, hv⟩ := map_eq_some_iff.1 hl
      obtain ⟨hmem, hn⟩ := s.find_eq_some hc
      exact ⟨ti, c, hti, (h.own ti u hu hti).symm, hmem, hn, hv⟩

lemma lookupSegment_of_mem (h : Shape s ∅) {q x : ℕ} (hx : x ∈ s.children q) :
    lookupSegment s (s.inodeOf q) (s.nameOf x) = some (s.inodeOf x) := by
  obtain ⟨hd, hp⟩ := h.holder q x hx
  rw [lookupSegment, if_neg (not_le.2 (h.short x)), if_neg (not_not.2 (s.isDir_eq_true.1 hd)),
    tmpfsLookup, hp]
  dsimp only
  rw [h.find_eq_some_iff.2 ⟨hx, rfl⟩]
  rfl

/-- The live directories hang under each other, in the order of their nodes. -/
lemma Shape.isNameTree (h : Shape s ∅) :
    IsNameTree (lookupSegment s) root s.LiveDir fun ip => ((s.inode ip).priv).getD 0 where
  parent := fun v hv hr => by
    obtain ⟨x, hx⟩ := hv.2.resolve_left hr
    obtain ⟨-, ⟨q, -, hq⟩, rfl⟩ := s.mem_entries.1 hx
    refine ⟨s.inodeOf q, s.nameOf x, h.liveDir ?_, lookupSegment_of_mem h hq⟩
    exact s.isDir_eq_true.1 (h.holder q x hq).1
  place := fun u n u' n' v hv hl hl' => by
    obtain ⟨ti, c, -, rfl, hc, rfl, hcv⟩ := lookupSegment_eq_some h hl
    obtain ⟨ti', c', -, rfl, hc', rfl, hcv'⟩ := lookupSegment_eq_some h hl'
    have hnode : ∀ {p x}, x ∈ s.children p → s.inodeOf x = v → (s.inode v).priv = some x :=
      fun hx he => by
        rw [← he]
        exact (h.entry _ _ hx (s.isDir_eq_true.2 (he ▸ hv.1))).1
    obtain rfl := some.inj ((hnode hc hcv).symm.trans (hnode hc' hcv'))
    obtain rfl := h.holder_eq hc hc'
    exact ⟨rfl, rfl⟩
  rank_lt := fun u n v hv hl => by
    obtain ⟨ti, c, hti, -, hc, -, rfl⟩ := lookupSegment_eq_some h hl
    obtain ⟨hp, hlt⟩ := h.entry ti c hc (s.isDir_eq_true.2 hv.1)
    rw [hti, hp]
    exact hlt
  root_top := fun u n hl => by
    obtain ⟨ti, c, -, -, hc, -, hr⟩ := lookupSegment_eq_some h hl
    have hp := (h.entry ti c hc (s.isDir_eq_true.2 (hr ▸ h.root_type))).1
    rw [hr, h.root_priv] at hp
    exact h.root_not_listed (some.inj hp ▸ h.listed hc)

lemma Inv.exact (h : Inv s 0) : Exact s where
  path := fun d hd => by
    simp only [pathWalk_eq_walk]
    exact h.shape.isNameTree.existsUnique_walk hd
  acyclic := fun d hd path hne => by
    rw [pathWalk_eq_walk]
    exact h.shape.isNameTree.walk_ne_self hd hne
  file := fun ip hpos hip => (h.counts.file ip hip hpos).trans (add_zero _)
  dir := fun d hd => (h.counts.dir d hd.1).trans (add_zero _)

lemma Inv.onlyEmptyRemoved (h : Inv t 0)
    (hdirs : ∀ d, s.typeOf d = .dir → t.typeOf d = .dir ∨ s.dirEntries d = []) :
    OnlyEmptyRemoved s t := fun d hd hgone =>
  (hdirs d hd.1).resolve_left fun hd' => hgone (h.shape.liveDir hd')

lemma Keeps.good (h : Keeps s t 0) : Inv t 0 ∧ OnlyEmptyRemoved s t :=
  ⟨h.inv, h.inv.onlyEmptyRemoved fun d hd => .inl (h.dirs d hd)⟩

lemma children_init (q : ℕ) : init.children q = [] := by
  change (update (fun _ => Info.free) 0 _ q).children = []
  rw [update_apply]
  split <;> rfl

lemma inode_init (ip : ℕ) :
    init.inode ip = if ip = root then ⟨.dir, 1, 1, some 0⟩ else Inode.free := by
  change update (fun _ => Inode.free) root _ ip = _
  rw [update_apply]

lemma typeOf_init (h : init.typeOf ip = .dir) : ip = root := by
  by_contra hne
  rw [State.typeOf, inode_init, if_neg hne] at h
  cases h

lemma shape_init : Shape init ∅ where
  root_type := rfl
  root_priv := rfl
  root_inode := rfl
  root_parent := rfl
  top_pos := one_pos
  info_top := fun i hi => by
    change update (fun _ => Info.free) 0 _ i = _
    rw [update_of_ne (pos_iff_ne_zero.1 hi)]
  inode_top := fun ip hip => by
    have hne : ip ≠ root := pos_iff_ne_zero.1 hip
    rw [inode_init, if_neg hne]
  short := fun c => by
    change (update (fun _ => Info.free) 0 _ c).name.length < 256
    rw [update_apply]
    split <;> exact succ_pos 255
  parent := fun p c hc => absurd (children_init p ▸ hc) not_mem_nil
  nodup := fun p => children_init p ▸ nodup_nil
  names := fun p c _ hc => absurd (children_init p ▸ hc) not_mem_nil
  holder := fun p c hc => absurd (children_init p ▸ hc) not_mem_nil
  entry := fun p c hc => absurd (children_init p ▸ hc) not_mem_nil
  dirs := fun ip hip => .inr ⟨0, typeOf_init hip ▸ rfl, (typeOf_init hip).symm, .inl rfl⟩

lemma counts_init : Counts init 0 0 := by
  have hentries : ∀ ip, init.entries ip = ∅ := fun ip => by
    refine Finset.eq_empty_of_forall_notMem fun x hx => ?_
    obtain ⟨-, ⟨p, -, hp⟩, -⟩ := init.mem_entries.1 hx
    exact absurd (children_init p ▸ hp) not_mem_nil
  constructor
  · intro ip
    rw [hentries, inode_init]
    split <;> rfl
  · intro ip
    rw [inode_init]
    split
    · exact fun h => absurd h one_ne_zero
    · exact fun _ => rfl
  · intro ip hip hpos
    rw [inode_init] at hpos
    split at hpos
    next hr => exact absurd (hr ▸ hip) nofun
    · exact absurd hpos (lt_irrefl 0)
  · intro ip hip
    rw [typeOf_init hip]
    rfl
  · exact fun _ _ => rfl

lemma inv_init : Inv init 0 := ⟨shape_init, counts_init⟩

/-! ### Where a path leads -/

lemma walkParent_ok {dir : ℕ} {seg : Name} {rest : List Name}
    (h : walkParent s dir seg rest = .ok (d, name)) : s.typeOf d = .dir ∧ name.length < 256 := by
  fun_induction walkParent s dir seg rest with
  | case3 dir seg hlen hdir =>
    obtain ⟨rfl, rfl⟩ : dir = d ∧ seg = name := by simpa using h
    exact ⟨not_not.1 hdir, not_le.1 hlen⟩
  | case7 _ _ _ _ _ _ _ _ ih => exact ih h
  | _ => exact nomatch h

lemma pathWalkParent_ok {path : List Name} (h : pathWalkParent s path = .ok (d, name)) :
    s.typeOf d = .dir ∧ name.length < 256 := by
  cases path with
  | nil => exact nomatch h
  | cons seg rest => exact walkParent_ok h

lemma pathWalk_live (h : Shape s ∅) {via : Option ℕ} (hvia : s.Resolvable via) {dir : ℕ}
    {path : List Name} (hdir : dir = root ∨ (s.entries dir).Nonempty)
    (hp : pathWalk s via dir path = some ip) : ip = root ∨ (s.entries ip).Nonempty := by
  fun_induction pathWalk s via dir path with
  | case1 dir => exact (some.inj hp : dir = ip) ▸ hdir
  | case2 => exact nomatch hp
  | case3 => exact hvia ip hp
  | case4 dir seg rest next hv _ ih =>
    obtain ⟨ti, c, -, -, hc, -, rfl⟩ := lookupSegment_eq_some h hv
    exact ih (.inr ⟨c, h.mem_entries_of_mem hc⟩) hp

/-! ### One call -/

lemma sysOpen_keeps (h : Inv s 0) {via : Option ℕ} (hvia : s.Resolvable via) (path : List Name)
    (excl directory fd : Bool) (k : Kmalloc) :
    Keeps s (sysOpen s path via excl directory fd k).1 0 := by
  rw [sysOpen]
  split
  next ip hip =>
    split
    · exact .refl h
    · have hpos := h.count_pos (pathWalk_live h.shape hvia (.inl rfl) hip)
      have hlt := h.shape.lt_inodeTop_of_count hpos
      have htype : (s.inodeGet ip).typeOf = s.typeOf := s.typeOf_setInode rfl
      have hget : Keeps s (s.inodeGet ip) (0 + Pi.single ip 1) :=
        ⟨⟨h.shape.setInode hlt rfl rfl, h.counts.inodeGet hpos⟩,
          fun d hd => (congrFun htype d).trans hd⟩
      exact hget.trans (openInode_keeps hget.inv directory fd)
  · split
    · exact .refl h
    next parent name hpath =>
      obtain ⟨hd, hlen⟩ := pathWalkParent_ok hpath
      obtain ⟨e, he⟩ | ⟨t, ip, he, hK⟩ := tmpfsCreate_spec h hd hlen false k
      · rw [he]
        exact .refl h
      · rw [he]
        exact hK.trans (openInode_keeps hK.inv directory fd)

lemma sysMknod_keeps (h : Inv s 0) (path : List Name) (sock : Bool) (k : Kmalloc) :
    Keeps s (sysMknod s path sock k).1 0 := by
  rw [sysMknod]
  split
  · exact .refl h
  next parent name hpath =>
    obtain ⟨hd, hlen⟩ := pathWalkParent_ok hpath
    obtain ⟨e, he⟩ | ⟨t, ip, he, hK⟩ := tmpfsCreate_spec h hd hlen sock k
    · rw [he]
      exact .refl h
    · rw [he]
      exact hK.trans hK.inv.inodePut

lemma doSymlinkat_keeps (h : Inv s 0) (target : List UInt8) (path : List Name) (k : Kmalloc) :
    Keeps s (doSymlinkat s target path k).1 0 := by
  rw [doSymlinkat]
  split
  · exact .refl h
  next dir name hpath =>
    obtain ⟨hd, hlen⟩ := pathWalkParent_ok hpath
    split
    · exact .refl h
    obtain ⟨t, e, he, hK⟩ | ⟨t, ip, he, hK⟩ := tmpfsSymlink_spec h hd hlen target k
    · rw [he]
      exact hK
    · rw [he]
      exact hK.trans hK.inv.inodePut

lemma step_keeps {a : Action} (h : Inv s 0) (hsafe : Safe s a) (hs : step s a = some t) :
    Inv t 0 ∧ OnlyEmptyRemoved s t := by
  cases a with
  | mkdir path k =>
    obtain rfl := some.inj hs
    refine Keeps.good ?_
    rw [sysMkdir]
    split
    · exact .refl h
    next parent name hpath =>
      obtain ⟨hd, hlen⟩ := pathWalkParent_ok hpath
      split
      · exact .refl h
      · exact tmpfsMkdir_keeps h hd hlen k
  | creat path via excl directory fd k =>
    obtain ⟨hvia, rfl⟩ := of_guard hs
    exact (sysOpen_keeps h hvia path excl directory fd k).good
  | close ip =>
    obtain ⟨hopen, rfl⟩ := of_guard hs
    exact (h.close hopen).good
  | mknod path sock k => exact some.inj hs ▸ (sysMknod_keeps h path sock k).good
  | link old via new k =>
    obtain ⟨hvia, rfl⟩ := of_guard hs
    refine Keeps.good ?_
    rw [doLinkat]
    split
    · exact .refl h
    next target htarget =>
      split
      · exact .refl h
      next newdir newname hpath =>
        obtain ⟨hd, hlen⟩ := pathWalkParent_ok hpath
        exact tmpfsLink_keeps h hd hlen
          (h.count_pos (pathWalk_live h.shape hvia (.inl rfl) htarget)) k
  | symlink target path k => exact some.inj hs ▸ (doSymlinkat_keeps h target path k).good
  | unlink path =>
    obtain rfl := some.inj hs
    refine Keeps.good ?_
    rw [Safe] at hsafe
    rw [sysUnlink]
    split
    · exact .refl h
    next parent name hpath =>
      rw [hpath] at hsafe
      refine tmpfsUnlink_keeps h (pathWalkParent_ok hpath).1 fun ti hti => ?_
      simpa only [hti] using hsafe
  | rmdir path =>
    obtain rfl := some.inj hs
    rw [sysRmdir]
    split
    · exact (Keeps.refl h).good
    next parent name hpath =>
      obtain ⟨hinv, hdirs⟩ : Inv (tmpfsRmdir s parent name).1 0 ∧ _ :=
        tmpfsRmdir_keeps h (pathWalkParent_ok hpath).1
      exact ⟨hinv, hinv.onlyEmptyRemoved hdirs⟩
  | rename old new =>
    obtain rfl := some.inj hs
    refine Keeps.good ?_
    rw [Safe] at hsafe
    rw [sysRename]
    split
    · exact .refl h
    next oldDir oldName hold =>
      split
      · exact .refl h
      next newDir newName hnew =>
        rw [hold, hnew] at hsafe
        obtain ⟨hd', hlen⟩ := pathWalkParent_ok hnew
        refine tmpfsRename_keeps h (pathWalkParent_ok hold).1 hd' hlen fun p q hp hq => ?_
        simpa only [hp, hq] using hsafe

lemma tmpfsUnlink_not_exact (h : Inv s 0) (hd : s.typeOf d = .dir) {ti c : ℕ}
    (hti : (s.inode d).priv = some ti) (hc : s.find ti name = some c) (hdir : s.isDir c = true) :
    ¬Exact (tmpfsUnlink s d name).1 := by
  have hE := h.entry hd hti (s.find_eq_some hc).1
  have hC := hE.detach_counts h
  rw [hdir, if_pos rfl] at hC
  have heq : (tmpfsUnlink s d name).1 = (s.detach ti c).inodePut (s.inodeOf c) := by
    rw [tmpfsUnlink, hti]
    simp only [hc, hdir, Bool.not_true, Bool.false_and, Bool.false_eq_true, if_false, and_false]
  rw [heq]
  refine not_exact_of_dir (d := d) (hC.inodePut (hE.detach_shape h).mem_entries) ?_ ?_
  · refine liveDir_of_listed h hd hti ?_ (info_inodePut _ _).2 ?_ fun hl => ?_
    · exact (congrArg Inode.type (inodePut_other (hE.inodeOf_ne h).symm)).trans hd
    · rw [State.inodeOf, (info_inodePut _ _).1]
      exact congrFun (s.inodeOf_setChildren ..) ti
    · rw [listed_inodePut]
      exact (h.shape.listed_detach hE.mem).2 ⟨hl, (h.shape.entry ti c hE.mem hdir).2.ne⟩
  · rw [Pi.single_eq_same]
    exact one_ne_zero

lemma step_wrong {a : Action} (h : Inv s 0) (hbad : ¬Safe s a) (hs : step s a = some t) :
    ¬(Exact t ∧ OnlyEmptyRemoved s t) := by
  cases a with
  | unlink path =>
    obtain rfl := some.inj hs
    rw [Safe] at hbad
    rw [sysUnlink]
    split
    next e hpath =>
      rw [hpath] at hbad
      exact absurd trivial hbad
    next parent name hpath =>
      rw [hpath] at hbad
      dsimp only at hbad
      split at hbad
      · exact absurd trivial hbad
      next ti hti =>
        push Not at hbad
        obtain ⟨c, hc, hdir⟩ := hbad
        exact fun hall => tmpfsUnlink_not_exact h (pathWalkParent_ok hpath).1 hti hc
          (Bool.not_eq_false _ ▸ hdir) hall.1
  | rename old new =>
    obtain rfl := some.inj hs
    rw [Safe] at hbad
    rw [sysRename]
    split
    next e hold =>
      rw [hold] at hbad
      exact absurd trivial hbad
    next oldDir oldName hold =>
      split
      next e hnew =>
        rw [hold, hnew] at hbad
        exact absurd trivial hbad
      next newDir newName hnew =>
        rw [hold, hnew] at hbad
        dsimp only at hbad
        split at hbad
        next p q hp hq =>
          push Not at hbad
          obtain ⟨hne, node, hnode, hbad⟩ := hbad
          exact tmpfsRename_wrong h (pathWalkParent_ok hold).1 (pathWalkParent_ok hnew).1 hp hq
            (fun he => hne he.1 he.2) hnode hbad
        · exact absurd trivial hbad
  | _ => exact absurd trivial hbad

/-- **The tmpfs namespace.**  Along a run from the empty mount the namespace is a tree with exact
link counts in every state, and no directory that has entries ever goes away, exactly when every
call of the run meets `Safe`. -/
theorem namespace_exact_iff (as : List Action) (t : State) (h : exec step init as = some t) :
    Meets step Safe init as ↔
      (∀ bs u, bs <+: as → exec step init bs = some u → Exact u) ∧
        ∀ bs a u v, bs ++ [a] <+: as → exec step init bs = some u → step u a = some v →
          OnlyEmptyRemoved u v :=
  meets_iff_of_exact_steps (fun _ h => Inv.exact h) (fun _ _ _ h hC hs => step_keeps h hC hs)
    (fun _ _ _ h hC hs => step_wrong h hC hs) as init t inv_init h

/-- All allocations succeed. -/
def Kmalloc.ok : Kmalloc := ⟨true, true, true⟩

/-- A data base file that is replaced by writing a new one beside it and renaming that over it. -/
def replaceRun : List Action :=
  [.mkdir [[100]] .ok, .creat [[100], [102]] none false false true .ok, .close 2,
    .creat [[100], [116]] none true false true .ok, .close 3, .rename [[100], [116]] [[100], [102]]]

theorem namespace_exact_iff_replace :
    (exec step init replaceRun).isSome ∧
      ∀ bs u, bs <+: replaceRun → exec step init bs = some u → Exact u := by
  have hsome : (exec step init replaceRun).isSome := by decide +kernel
  obtain ⟨t, ht⟩ := isSome_iff_exists.1 hsome
  refine ⟨hsome, ((namespace_exact_iff replaceRun t ht).1 ?_).1⟩
  decide +kernel

/-- With nothing in the root, a path leads nowhere else. -/
lemma pathWalk_of_empty_root (hroot : t.dirEntries root = []) (hd : d ≠ root) (path : List Name) :
    pathWalk t none root path ≠ some d := by
  cases path with
  | nil => exact fun h => hd (some.inj h).symm
  | cons seg rest =>
    have hnone : lookupSegment t root seg = none := by
      rw [lookupSegment]
      split
      · rfl
      split
      · rfl
      rw [State.dirEntries] at hroot
      rw [tmpfsLookup]
      split
      · rfl
      next ti hti =>
        rw [hti] at hroot
        rw [State.find, show t.children ti = [] from hroot]
        rfl
    rw [pathWalk, hnone]
    rintro ⟨⟩

/-- The root has one link fewer than other directories. Unlinking a directory that has a
subdirectory, or moving a directory into itself, leaves a live directory that no path leads to.
Moving `a/c` to `b/c` leaves three links to `a`, which has no subdirectory any more. A file with
two names that loses one to a rename still has two links. Moving `a/b` to `a` replaces a directory
that was not empty. -/
theorem namespace_not_exact :
    ((init.inode root).nlink = 1 ∧ init.LiveDir root ∧ init.subdirs root = 0) ∧
    (∃ t, exec step init [.mkdir [[97]] .ok, .mkdir [[97], [98]] .ok, .unlink [[97]]] = some t ∧
      t.LiveDir 2 ∧ ∀ path, pathWalk t none root path ≠ some 2) ∧
    (∃ t, exec step init [.mkdir [[97]] .ok, .rename [[97]] [[97], [98]]] = some t ∧
      t.LiveDir 1 ∧ (∀ path, pathWalk t none root path ≠ some 1) ∧
      pathWalk t none 1 [[98]] = some 1) ∧
    (∃ t, exec step init [.mkdir [[97]] .ok, .mkdir [[98]] .ok, .mkdir [[97], [99]] .ok,
        .rename [[97], [99]] [[98], [99]]] = some t ∧
      t.LiveDir 1 ∧ (t.inode 1).nlink = 3 ∧ t.subdirs 1 = 0) ∧
    (∃ t, exec step init [.mknod [[102]] false .ok, .link [[102]] none [[103]] .ok,
        .mknod [[104]] false .ok, .rename [[104]] [[103]]] = some t ∧
      0 < (t.inode 1).count ∧ t.typeOf 1 = .regular ∧ (t.inode 1).nlink = 2 ∧
      (t.entries 1).card = 1) ∧
    ∃ s t, exec step init [.mkdir [[97]] .ok, .mkdir [[97], [98]] .ok] = some s ∧
      step s (.rename [[97], [98]] [[97]]) = some t ∧ ¬OnlyEmptyRemoved s t := by
  refine ⟨⟨rfl, by decide, rfl⟩, ?_, ?_, ?_, ?_, ?_⟩
  · obtain ⟨t, ht, hlive, hroot⟩ : ∃ t, exec step init [.mkdir [[97]] .ok,
        .mkdir [[97], [98]] .ok, .unlink [[97]]] = some t ∧ t.LiveDir 2 ∧ t.dirEntries root =
        [] := by
      decide +kernel
    exact ⟨t, ht, hlive, pathWalk_of_empty_root hroot (by decide)⟩
  · obtain ⟨t, ht, hlive, hroot, hcycle⟩ : ∃ t, exec step init [.mkdir [[97]] .ok,
        .rename [[97]] [[97], [98]]] = some t ∧ t.LiveDir 1 ∧ t.dirEntries root = [] ∧
        pathWalk t none 1 [[98]] = some 1 := by
      decide +kernel
    exact ⟨t, ht, hlive, pathWalk_of_empty_root hroot (by decide), hcycle⟩
  · decide +kernel
  · decide +kernel
  · obtain ⟨s, hs, t, ht, hlive, hgone, hne⟩ : ∃ s, exec step init [.mkdir [[97]] .ok,
        .mkdir [[97], [98]] .ok] = some s ∧ ∃ t, step s (.rename [[97], [98]] [[97]]) = some t ∧
        s.LiveDir 1 ∧ ¬t.LiveDir 1 ∧ s.dirEntries 1 ≠ [] := by
      decide +kernel
    exact ⟨s, t, hs, ht, fun hO => hne (hO 1 hlive hgone)⟩

end XosKernel.Tmpfs
