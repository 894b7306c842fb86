/-
# The tmpfs operations keep the invariants

Each operation is a short sequence of moves; here their effects are put together, call by call.
-/
import XosKernel.Fs.TmpfsCount

namespace XosKernel.Tmpfs

open List Option Function State Set Nat Finset

variable {s t : State} {held : ℕ → ℕ} {d ti ip c : ℕ} {name : Name}

/-- The state between two calls; `held` is what a call passes on to the next part of it. -/
structure Inv (s : State) (held : ℕ → ℕ) : Prop where
  shape : Shape s ∅
  counts : Counts s held 0

/-- The invariant holds and every directory is still one. -/
structure Keeps (s t : State) (held : ℕ → ℕ) : Prop where
  inv : Inv t held
  dirs : ∀ d, s.typeOf d = .dir → t.typeOf d = .dir

namespace Keeps

lemma refl (h : Inv s held) : Keeps s s held := ⟨h, fun _ => id⟩

lemma trans {u : State} {held' : ℕ → ℕ} (h : Keeps s t held) (h' : Keeps t u held') :
    Keeps s u held' :=
  ⟨h'.inv, fun d hd => h'.dirs d (h.dirs d hd)⟩

end Keeps

namespace Shape

lemma own (h : Shape s ∅) (p : ℕ) :
    ∀ d, s.typeOf d = .dir → (s.inode d).priv = some p → d = s.inodeOf p := fun d hd hp =>
  (h.inodeOf_of_priv hd (notMem_empty d) hp).symm

lemma node_lt (h : Shape s ∅) (hd : s.typeOf d = .dir) (hti : (s.inode d).priv = some ti) :
    ti < s.infoTop := by
  have hi := h.own ti d hd hti
  exact h.lt_top_of_priv (hi ▸ hti)

lemma liveDir (h : Shape s ∅) (hd : s.typeOf d = .dir) : s.LiveDir d := by
  obtain hb | ⟨x, -, hi, rfl | ⟨q, hq, hx⟩⟩ := h.dirs d hd
  · exact absurd hb (notMem_empty d)
  · exact ⟨hd, .inl (hi.symm.trans h.root_inode)⟩
  · exact ⟨hd, .inr ⟨x, s.mem_entries.2 ⟨h.lt_top hx, ⟨q, hq, hx⟩, hi⟩⟩⟩

lemma drop_busy {busy : Set ℕ} (h : Shape s (insert ip busy)) (hip : s.typeOf ip ≠ .dir) :
    Shape s busy :=
  { h with
    dirs := fun q hq => by
      obtain (rfl | hb) | hx := h.dirs q hq
      · exact absurd hq hip
      · exact .inl hb
      · exact .inr hx }

end Shape

namespace Inv

lemma count_pos (h : Inv s held) (hip : ip = root ∨ (s.entries ip).Nonempty) :
    0 < (s.inode ip).count := by
  have hc := h.counts.count ip
  obtain hr | hne := hip
  · rw [if_pos hr] at hc
    omega
  · have := card_pos.2 hne
    omega

end Inv

/-! ### Dropping references -/

/-- `inode_put` of a reference the call holds, when the directories are all in their places. -/
lemma put_shape {slack : ℕ → ℤ} (hS : Shape s ∅) (hC : Counts s (held + Pi.single ip 1) slack) :
    Shape (s.inodePut ip) ∅ ∧ ∀ d, s.typeOf d = .dir → (s.inodePut ip).typeOf d = .dir := by
  rw [inodePut]
  split
  next h1 =>
    obtain ⟨hempty, hroot⟩ := hC.last_put h1
    -- what is freed is no directory: directories are named by an entry
    have hdir : s.typeOf ip ≠ .dir := fun hd => by
      obtain ⟨-, hr | hne⟩ := hS.liveDir hd
      · exact hroot hr
      · exact absurd hempty hne.ne_empty
    have hne : ∀ {q}, s.typeOf q = .dir → q ≠ ip := fun hq he => hdir (he ▸ hq)
    refine ⟨?_, fun q hq => ?_⟩
    · refine (hS.mono (empty_subset _)).freeInode hroot (fun q x hx he => ?_)
        fun q x hx => hne (s.isDir_eq_true.1 (hS.holder q x hx).1)
      have hm := hS.mem_entries_of_mem hx
      rw [he, hempty] at hm
      exact absurd hm (notMem_empty x)
    · exact (congrArg Inode.type (update_of_ne (hne hq) ..)).trans hq
  next h1 =>
    have hlt : ip < s.inodeTop := hS.lt_inodeTop fun he => h1 (by rw [he]; rfl)
    refine ⟨hS.setInode hlt rfl rfl, fun q hq => ?_⟩
    refine (congrFun (s.typeOf_setInode ?_) q).trans hq
    rfl

lemma Inv.inodePut (h : Inv s (held + Pi.single ip 1)) : Keeps s (s.inodePut ip) held :=
  ⟨⟨(put_shape h.shape h.counts).1, h.counts.inodePut h.shape.mem_entries⟩,
  (put_shape h.shape h.counts).2⟩

lemma openInode_keeps (h : Inv s (held + Pi.single ip 1)) (directory fd : Bool) :
    Keeps s (openInode s ip directory fd).1 held := by
  unfold openInode
  split
  · exact h.inodePut
  next hdir =>
    split
    · exact h.inodePut
    split
    · exact h.inodePut
    split
    · exact h.inodePut
    refine ⟨⟨?_, h.counts.openFile hdir⟩, fun _ => id⟩
    exact { h.shape with }

lemma Inv.close (h : Inv s 0) (hopen : 0 < s.opens ip) : Keeps s (sysClose s ip) 0 := by
  have hclose : Inv { s with opens := update s.opens ip (s.opens ip - 1) }
      (0 + Pi.single ip 1) := ⟨{ h.shape with }, h.counts.closeFile hopen⟩
  exact Keeps.trans ⟨hclose, fun _ => id⟩ hclose.inodePut

/-! ### New entries -/

lemma tmpfsLookup_eq_none (hti : (s.inode d).priv = some ti)
    (h : ¬(tmpfsLookup s d name).isSome = true) : s.find ti name = none := by
  rw [tmpfsLookup, hti] at h
  simpa using h

lemma newEntry_keeps (hS : Shape s {ip}) {slack : ℕ → ℤ} (hC : Counts s held slack)
    (hpos : 0 < (s.inode ip).count) (hd : s.typeOf d = .dir) (hdip : d ≠ ip)
    (hti : (s.inode d).priv = some ti) (hname : s.find ti name = none) (hlen : name.length < 256)
    (hfresh : ∀ q, s.typeOf q = .dir → q ≠ ip → (s.inode q).priv ≠ some s.infoTop)
    (hip : s.typeOf ip = .dir → (s.inode ip).priv = some s.infoTop) :
    Shape (s.newEntry ip ti name) ∅ ∧
      Counts (s.newEntry ip ti name) held
        (slack - Pi.single (if s.typeOf ip = .dir then d else ip) 1) := by
  have hown : ∀ q, s.typeOf q = .dir → q ≠ ip → (s.inode q).priv = some ti → q = s.inodeOf ti :=
    fun q hq hne hp => (hS.inodeOf_of_priv hq hne hp).symm
  have hdi : d = s.inodeOf ti := hown d hd hdip hti
  have hlt : ti < s.infoTop := hS.lt_top_of_priv (hdi ▸ hti)
  -- the new node, and the reference for it
  have hS1 : Shape (s.newInfo ip ti name) {ip} := hS.newInfo hfresh name
  have hC1 : Counts (s.newInfo ip ti name) held slack := hC.newInfo hS name
  set u := (s.newInfo ip ti name).inodeGet ip
  have hS2 : Shape u {ip} := hS1.setInode (hS1.lt_inodeTop_of_count hpos) rfl rfl
  have hC2 : Counts u (held + Pi.single ip 1) slack := hC1.inodeGet hpos
  have htype : u.typeOf = s.typeOf := (s.newInfo ip ti name).typeOf_setInode rfl
  have hpriv : ∀ q, (u.inode q).priv = (s.inode q).priv := by
    intro q
    change (update s.inode ip _ q).priv = _
    rw [update_apply, apply_ite Inode.priv]
    exact ite_eq_right_iff.2 fun hq => hq ▸ rfl
  have htop : u.inodeOf s.infoTop = ip := (s.inodeOf_setInfo ..).trans (if_pos rfl)
  have hch : u.children = s.children := Shape.children_setInfo_of_eq hS.children_top.symm
  have hnot : ¬u.Listed s.infoTop := by
    rintro ⟨q, -, hx⟩
    rw [hch] at hx
    exact lt_irrefl _ (hS.lt_top hx)
  have hti' : u.inodeOf ti = d :=
    ((s.inodeOf_setInfo ..).trans (if_neg hlt.ne)).trans hdi.symm
  have hpd : u.isDir ti = true := by rw [isDir_eq_true, hti', htype, hd]
  have hdir : u.isDir s.infoTop = true ↔ s.typeOf ip = .dir := by
    rw [isDir_eq_true, htop, htype]
  have howner : u.owner ti s.infoTop = if s.typeOf ip = .dir then d else ip := by
    rw [owner, hti', htop]
    simp only [hdir]
  refine ⟨?_, ?_⟩
  · refine Shape.headInsert (s := u) (c := s.infoTop) ?_ hnot ?_ ?_ hpd ?_ ?_
    · rw [htop]
      exact hS2.mono fun x hx => .inl hx
    · exact (s.parentOf_setInfo ..).trans (if_pos rfl)
    · intro x hx
      rw [hch] at hx
      have hx' : u.nameOf x = s.nameOf x :=
        (s.nameOf_setInfo ..).trans (if_neg (hS.lt_top hx).ne)
      have hn : u.nameOf s.infoTop = name.take 255 := (s.nameOf_setInfo ..).trans (if_pos rfl)
      rw [hx', hn, take_of_length_le (by omega)]
      exact s.find_eq_none hname hx
    · rw [hti', hpriv, hti]
    · intro hdt
      rw [htop, hpriv]
      exact ⟨hip (hdir.1 hdt), hlt⟩
  · rw [← howner]
    refine Counts.headInsert (s := u) (c := s.infoTop) ?_ hS2 (lt_succ_self _) hnot hpd ?_ ?_
    · rwa [htop]
    · rw [hti', hpriv, hti]
    · intro q hq hp
      rw [htype] at hq
      rw [hpriv] at hp
      rw [hti']
      by_cases hqi : q = ip
      · rw [hqi] at hq hp
        exact absurd (some.inj ((hip hq).symm.trans hp)) hlt.ne'
      · exact (hown q hq hqi hp).trans hdi.symm

/-- What `tmpfs_new_node` leaves: the reference it returns, and for a directory one link owed by
the new inode and one by its parent. -/
structure NewNode (s t : State) (d : ℕ) (type : InodeType) : Prop where
  shape : Shape t ∅
  counts : Counts t (Pi.single s.inodeTop 1)
    (if type = .dir then -Pi.single s.inodeTop 1 - Pi.single d 1 else 0)
  dirs : ∀ q, s.typeOf q = .dir → t.typeOf q = .dir
  inode : t.inode s.inodeTop = ⟨type, 1, 2, some s.infoTop⟩

lemma tmpfsNewNode_spec (h : Inv s 0) (hd : s.typeOf d = .dir) (hti : (s.inode d).priv = some ti)
    (hname : s.find ti name = none) (hlen : name.length < 256) (type : InodeType) (k : Kmalloc) :
    tmpfsNewNode s ti name type k = (s, none) ∨
      ∃ t, tmpfsNewNode s ti name type k = (t, some s.inodeTop) ∧ NewNode s t d type := by
  rw [tmpfsNewNode]
  split
  · exact .inl rfl
  split
  · exact .inl rfl
  refine .inr ⟨_, rfl, ?_⟩
  have htop := Counts.count_inodeTop h.shape
  have hdtop : d ≠ s.inodeTop := (h.shape.lt_inodeTop_of_dir hd).ne
  have hself : (s.newInode type).inode s.inodeTop = ⟨type, 1, 1, some s.infoTop⟩ :=
    update_self ..
  have hother : ∀ {q}, q ≠ s.inodeTop → (s.newInode type).inode q = s.inode q := fun hne =>
    update_of_ne hne ..
  have htype : ∀ {q}, q ≠ s.inodeTop → (s.newInode type).typeOf q = s.typeOf q := fun hne =>
    congrArg Inode.type (hother hne)
  have hnew : (s.newInode type).typeOf s.inodeTop = type := congrArg Inode.type hself
  have hS : Shape (s.newInode type) {s.inodeTop} := by
    have := h.shape.newInode (fun q x hx => h.counts.inodeOf_ne_of_count h.shape hx htop) type
    rwa [insert_empty_eq] at this
  have hC := h.counts.newInode h.shape type
  have hfresh : ∀ q, (s.newInode type).typeOf q = .dir → q ≠ s.inodeTop →
      ((s.newInode type).inode q).priv ≠ some s.infoTop := by
    intro q hq hne hp
    rw [htype hne] at hq
    rw [hother hne] at hp
    exact lt_irrefl _ (h.shape.node_lt hq hp)
  obtain ⟨hS', hC'⟩ := newEntry_keeps hS hC (by rw [hself]; exact one_pos) ((htype hdtop).trans hd)
    hdtop ((congrArg Inode.priv (hother hdtop)).trans hti) hname hlen
    hfresh (fun _ => congrArg Inode.priv hself)
  refine ⟨hS', ?_, fun q hq => ?_, ?_⟩
  · rw [hnew] at hC'
    refine hC'.congr_slack fun q _ _ => ?_
    split
    · simp [Pi.single_neg]
    · simp
  · have hne : q ≠ s.inodeTop := (h.shape.lt_inodeTop_of_dir hq).ne
    have hg : ((s.newInode type).newEntry s.inodeTop ti name).typeOf = (s.newInode type).typeOf :=
      typeOf_setInode _ rfl
    rw [hg, htype hne, hq]
  · rw [newEntry, inodeGet_self]
    change { (s.newInode type).inode s.inodeTop with
      count := ((s.newInode type).inode s.inodeTop).count + 1 } = _
    rw [hself]

lemma NewNode.keeps {type : InodeType} (hN : NewNode s t d type) (htype : type ≠ .dir) :
    Keeps s t (0 + Pi.single s.inodeTop 1) := by
  refine ⟨⟨hN.shape, ?_⟩, hN.dirs⟩
  have := hN.counts
  rwa [if_neg htype, ← zero_add (Pi.single s.inodeTop 1 : ℕ → ℕ)] at this

/-- `tmpfs_create` fails and changes nothing, or returns a new file with a reference to it. -/
lemma tmpfsCreate_spec (h : Inv s 0) (hd : s.typeOf d = .dir) (hlen : name.length < 256)
    (sock : Bool) (k : Kmalloc) :
    (∃ e, tmpfsCreate s d name sock k = (s, .error e)) ∨
      ∃ t ip, tmpfsCreate s d name sock k = (t, .ok ip) ∧ Keeps s t (0 + Pi.single ip 1) := by
  rw [tmpfsCreate]
  split
  · exact .inl ⟨_, rfl⟩
  next ti hti =>
    split
    · exact .inl ⟨_, rfl⟩
    next hnone =>
      have htype : (if sock then InodeType.socket else .regular) ≠ .dir := by
        cases sock <;> rintro ⟨⟩
      obtain he | ⟨t, he, hN⟩ :=
        tmpfsNewNode_spec h hd hti (tmpfsLookup_eq_none hti hnone) hlen _ k
      · rw [he]
        exact .inl ⟨_, rfl⟩
      · rw [he]
        exact .inr ⟨t, _, rfl, hN.keeps htype⟩

/-- `tmpfs_symlink`: without memory for the text the entry stays, with its own reference only. -/
lemma tmpfsSymlink_spec (h : Inv s 0) (hd : s.typeOf d = .dir) (hlen : name.length < 256)
    (target : List UInt8) (k : Kmalloc) :
    (∃ t e, tmpfsSymlink s d name target k = (t, .error e) ∧ Keeps s t 0) ∨
      ∃ t ip, tmpfsSymlink s d name target k = (t, .ok ip) ∧ Keeps s t (0 + Pi.single ip 1) := by
  rw [tmpfsSymlink]
  split
  · exact .inl ⟨s, _, rfl, .refl h⟩
  next ti hti =>
    split
    · exact .inl ⟨s, _, rfl, .refl h⟩
    next hnone =>
      split
      · exact .inl ⟨s, _, rfl, .refl h⟩
      obtain he | ⟨t, he, hN⟩ :=
        tmpfsNewNode_spec h hd hti (tmpfsLookup_eq_none hti hnone) hlen .lnk k
      · rw [he]
        exact .inl ⟨s, _, rfl, .refl h⟩
      · have hK := hN.keeps (by simp)
        rw [he]
        dsimp only
        split
        · exact .inl ⟨_, _, rfl, hK.trans hK.inv.inodePut⟩
        · exact .inr ⟨t, _, rfl, hK⟩

/-- The link counts that `tmpfs_mkdir` puts right after making the node. -/
lemma NewNode.mkdir (hN : NewNode s t d .dir) (hd : s.typeOf d = .dir) (hdtop : d ≠ s.inodeTop) :
    Keeps s (((t.inodePut s.inodeTop).addNlink d 1).setNlink s.inodeTop 2) 0 := by
  have hcount := congrArg Inode.count hN.inode
  set u := t.inodePut s.inodeTop with hu
  have hput : u = t.setInode s.inodeTop
      { t.inode s.inodeTop with count := (t.inode s.inodeTop).count - 1 } := by
    rw [hu, inodePut, if_neg (by rw [hcount]; exact one_ne_zero)]
  have htop : u.inode s.inodeTop = ⟨.dir, 1, 1, some s.infoTop⟩ := by
    rw [hput, hN.inode]
    exact update_self ..
  have htype : u.typeOf = t.typeOf := by
    rw [hput]
    exact t.typeOf_setInode rfl
  have hC : Counts u 0 (-Pi.single s.inodeTop 1 - Pi.single d 1) :=
    (show Counts t (0 + Pi.single s.inodeTop 1) _ by rw [zero_add]; exact hN.counts).inodePut
      hN.shape.mem_entries
  have hS : Shape u ∅ := by
    rw [hput]
    exact hN.shape.setInode (hN.shape.lt_inodeTop_of_count (by rw [hcount]; exact two_pos)) rfl rfl
  have hd' : u.typeOf d = .dir := (congrFun htype d).trans (hN.dirs d hd)
  have hS1 : Shape (u.addNlink d 1) ∅ := hS.setInode (hS.lt_inodeTop_of_dir hd') rfl rfl
  have htop1 : (u.addNlink d 1).inode s.inodeTop = ⟨.dir, 1, 1, some s.infoTop⟩ :=
    (update_of_ne hdtop.symm ..).trans htop
  have hpos : 0 < ((u.addNlink d 1).inode s.inodeTop).count := by
    rw [htop1]
    exact one_pos
  have hC2 := (hC.addNlink (hC.count_pos_of_dir hd') 1).setNlink hpos 2
  refine ⟨⟨hS1.setInode (hS1.lt_inodeTop_of_count hpos) rfl rfl, hC2.congr_slack fun q _ _ => ?_⟩,
    fun q hq => ?_⟩
  · rw [htop1]
    simp only [Pi.add_apply, Pi.sub_apply, Pi.neg_apply, Pi.zero_apply]
    have : (2 : ℤ) - 1 = 1 := rfl
    ring_nf
  · rw [setNlink, typeOf_setInode _ (by rfl), typeOf_addNlink, htype, hN.dirs q hq]

lemma tmpfsMkdir_keeps (h : Inv s 0) (hd : s.typeOf d = .dir) (hlen : name.length < 256)
    (k : Kmalloc) : Keeps s (tmpfsMkdir s d name k).1 0 := by
  rw [tmpfsMkdir]
  split
  · exact .refl h
  next ti hti =>
    split
    · exact .refl h
    next hnone =>
      obtain he | ⟨t, he, hN⟩ :=
        tmpfsNewNode_spec h hd hti (tmpfsLookup_eq_none hti hnone) hlen .dir k
      · rw [he]
        exact .refl h
      · rw [he]
        exact hN.mkdir hd (h.shape.lt_inodeTop_of_dir hd).ne

lemma tmpfsLink_keeps (h : Inv s 0) (hd : s.typeOf d = .dir) (hlen : name.length < 256)
    (hip : 0 < (s.inode ip).count) (k : Kmalloc) : Keeps s (tmpfsLink s d ip name k).1 0 := by
  fun_cases tmpfsLink s d ip name k with
  | case5 hdir ti hti hnone =>
    have hne : d ≠ ip := fun he => hdir (he ▸ hd)
    obtain ⟨hS, hC⟩ := newEntry_keeps (h.shape.mono (empty_subset {ip})) h.counts hip hd
      hne hti (tmpfsLookup_eq_none hti hnone) hlen
      (fun q hq _ hp => lt_irrefl _ (h.shape.node_lt hq hp)) fun hd' => absurd hd' hdir
    have htype : (s.newEntry ip ti name).typeOf = s.typeOf := typeOf_setInode _ rfl
    have hself : (s.newEntry ip ti name).inode ip =
        { s.inode ip with count := (s.inode ip).count + 1 } := update_self ..
    have hpos : 0 < ((s.newEntry ip ti name).inode ip).count := by
      rw [hself]
      exact succ_pos _
    refine ⟨⟨hS.setInode (hS.lt_inodeTop_of_count hpos) rfl rfl, (hC.addNlink hpos 1).congr_slack
      fun q _ _ => ?_⟩, fun q hq => ?_⟩
    · rw [if_neg hdir]
      simp
    · rw [typeOf_addNlink, htype, hq]
  | _ => exact .refl h

/-! ### Removing entries -/

lemma Inv.kfree (h : Inv s held) (hc : ¬s.Listed c) (h0 : c ≠ 0) (hlt : c < s.infoTop)
    (hch : s.children c = []) : Keeps s (s.kfree c) held := by
  refine ⟨⟨h.shape.kfree hc h0 hlt hch fun q hq _ hp => ?_, ?_⟩, fun _ => id⟩
  · obtain hb | ⟨x, hx, -, rfl | hl⟩ := h.shape.dirs q hq
    · exact absurd hb (notMem_empty q)
    · exact h0 (some.inj (hp.symm.trans hx))
    · exact hc (some.inj (hp.symm.trans hx) ▸ hl)
  · exact h.counts.setInfo h.shape hc hch.symm

lemma inodePut_of_last (h : (s.inode ip).count = 1) : (s.inodePut ip).inode ip = Inode.free := by
  rw [inodePut, if_pos (by rw [h])]
  exact update_self ..

lemma inodePut_of_not_last (h : 1 < (s.inode ip).count) :
    (s.inodePut ip).typeOf = s.typeOf ∧ ((s.inodePut ip).inode ip).count =
    (s.inode ip).count - 1 := by
  rw [inodePut, if_neg (by omega)]
  refine ⟨s.typeOf_setInode rfl, ?_⟩
  change (update s.inode ip _ ip).count = _
  rw [update_self]

lemma inodePut_other {q : ℕ} (hq : q ≠ ip) : (s.inodePut ip).inode q = s.inode q := by
  rw [inodePut]
  split <;> exact update_of_ne hq ..

lemma info_inodePut (s : State) (ip : ℕ) :
    (s.inodePut ip).info = s.info ∧ (s.inodePut ip).infoTop = s.infoTop := by
  rw [inodePut]
  split <;> exact ⟨rfl, rfl⟩

lemma children_inodePut (s : State) (ip : ℕ) : (s.inodePut ip).children = s.children := by
  ext q : 1
  rw [children, (info_inodePut s ip).1]
  rfl

lemma listed_inodePut (s : State) (ip : ℕ) : (s.inodePut ip).Listed = s.Listed := by
  ext x
  rw [State.Listed, children_inodePut, (info_inodePut s ip).2]
  rfl

/-- How `tmpfs_unlink` and an overwriting `tmpfs_rename` end: the reference of the entry goes,
and with the last one the node. -/
lemma Keeps.reclaim (hput : Keeps t (s.inodePut ip) 0) (hc : ¬s.Listed c) (h0 : c ≠ 0)
    (hlt : c < s.infoTop) (hch : s.children c = []) (last : Prop) [Decidable last] :
    Keeps t (if last then (s.inodePut ip).kfree c else s.inodePut ip) 0 := by
  split
  · refine hput.trans (hput.inv.kfree ?_ h0 ?_ ?_)
    · rwa [listed_inodePut]
    · rwa [(info_inodePut s ip).2]
    · rw [children_inodePut, hch]
  · exact hput

/-- What is known of an entry found in a directory. -/
structure Entry (s : State) (d ti c : ℕ) : Prop where
  mem : c ∈ s.children ti
  dir : s.typeOf d = .dir
  node : (s.inode d).priv = some ti
  inode : s.inodeOf ti = d

lemma Inv.entry (h : Inv s held) (hd : s.typeOf d = .dir) (hti : (s.inode d).priv = some ti)
    (hc : c ∈ s.children ti) : Entry s d ti c :=
  ⟨hc, hd, hti, (h.shape.own ti d hd hti).symm⟩

namespace Entry

lemma children_eq_nil (h : Inv s held) (hdir : s.isDir c = false) : s.children c = [] := by
  refine eq_nil_iff_forall_not_mem.2 fun x hx => ?_
  rw [(h.shape.holder c x hx).1] at hdir
  exact nomatch hdir

variable (hE : Entry s d ti c) (h : Inv s held)
include hE h

lemma ne_root : c ≠ 0 := by
  rintro rfl
  exact h.shape.root_not_listed (h.shape.listed hE.mem)

lemma lt_top : c < s.infoTop := h.shape.lt_top hE.mem

lemma inodeOf_ne : s.inodeOf c ≠ d := by
  intro he
  have hcd : s.isDir c = true := s.isDir_eq_true.2 (he ▸ hE.dir)
  obtain ⟨hp, hlt⟩ := h.shape.entry ti c hE.mem hcd
  rw [he, hE.node] at hp
  exact hlt.ne (some.inj hp)

lemma detach_shape : Shape (s.detach ti c) (insert (s.inodeOf c) ∅) := h.shape.detach hE.mem

lemma detach_counts :
    Counts (s.detach ti c) (held + Pi.single (s.inodeOf c) 1)
      (Pi.single (if s.isDir c then d else s.inodeOf c) 1) := by
  have := h.counts.detach h.shape hE.mem (h.shape.own ti)
  rwa [zero_add, owner, hE.inode] at this

lemma not_listed_detach : ¬(s.detach ti c).Listed c :=
  fun hl => ((h.shape.listed_detach hE.mem).1 hl).2 rfl

lemma children_detach (hch : s.children c = []) : (s.detach ti c).children c = [] := by
  refine eq_nil_iff_forall_not_mem.2 fun x hx => ?_
  have hx := ((h.shape.mem_children_detach hE.mem).1 hx).1
  rw [hch] at hx
  exact not_mem_nil hx

end Entry

lemma tmpfsUnlink_keeps (h : Inv s 0) (hd : s.typeOf d = .dir)
    (hsafe : ∀ ti, (s.inode d).priv = some ti → ∀ c ∈ s.find ti name, s.isDir c = false) :
    Keeps s (tmpfsUnlink s d name).1 0 := by
  rw [tmpfsUnlink]
  split
  · exact .refl h
  next ti hti =>
  split
  · exact .refl h
  next c hc =>
  have hE := h.entry hd hti (s.find_eq_some hc).1
  have hdir := hsafe ti hti c hc
  have htype := s.typeOf_ne_dir hdir
  have hS : Shape (s.detach ti c) ∅ := (hE.detach_shape h).drop_busy htype
  have hC := hE.detach_counts h
  rw [hdir, if_neg (by simp)] at hC
  have hch := hE.children_detach h (Entry.children_eq_nil h hdir)
  have hpos : 0 < ((s.detach ti c).inode (s.inodeOf c)).count := by
    have := hC.count (s.inodeOf c)
    rw [Pi.add_apply, Pi.single_eq_same] at this
    omega
  simp only [hdir, Bool.not_false, Bool.true_and, decide_eq_true_eq, and_true]
  by_cases hnl : 0 < ((s.detach ti c).inode (s.inodeOf c)).nlink
  · rw [if_pos hnl]
    have hS1 : Shape ((s.detach ti c).addNlink (s.inodeOf c) (-1)) ∅ :=
      hS.setInode (hS.lt_inodeTop_of_count hpos) rfl rfl
    have hC1 : Counts ((s.detach ti c).addNlink (s.inodeOf c) (-1))
        (0 + Pi.single (s.inodeOf c) 1) 0 :=
      (hC.addNlink hpos (-1)).congr_slack fun q _ _ => by simp [Pi.single_neg]
    have hkeep := (Inv.inodePut ⟨hS1, hC1⟩).reclaim (hE.not_listed_detach h) (hE.ne_root h)
      (hE.lt_top h) hch ((s.inode (s.inodeOf c)).count = 1)
    exact ⟨hkeep.inv, fun q hq => hkeep.dirs q (by rw [typeOf_addNlink]; exact hq)⟩
  · rw [if_neg hnl]
    have hC1 : Counts (s.detach ti c) (0 + Pi.single (s.inodeOf c) 1) 0 := by
      refine hC.congr_slack fun q hq hqt => ?_
      by_cases hqi : q = s.inodeOf c
      · -- a regular file has a link for each entry, so this one would have had one
        rw [hqi] at hq hqt
        have hf := hC.file (s.inodeOf c) (hqt.resolve_right htype) hq
        rw [Pi.single_eq_same] at hf
        exact absurd (by rw [hf]; positivity) hnl
      · rw [Pi.single_eq_of_ne hqi]
        rfl
    have hkeep := (Inv.inodePut ⟨hS, hC1⟩).reclaim (hE.not_listed_detach h) (hE.ne_root h)
      (hE.lt_top h) hch ((s.inode (s.inodeOf c)).count = 1)
    exact ⟨hkeep.inv, hkeep.dirs⟩

/-- The inode of an empty directory whose entry is gone is freed with the entry's reference. -/
lemma rmdir_put (hS : Shape s (insert ip ∅)) (hC : Counts s (0 + Pi.single ip 1) 0)
    (hdir : s.typeOf ip = .dir) (hroot : ip ≠ root)
    (hnamed : ∀ q x, x ∈ s.children q → s.inodeOf x ≠ ip)
    (hhead : ∀ q x, x ∈ s.children q → s.inodeOf q ≠ ip) :
    Inv (s.inodePut ip) 0 ∧ ∀ q, q ≠ ip → (s.inodePut ip).typeOf q = s.typeOf q := by
  have hempty : s.entries ip = ∅ := by
    refine eq_empty_of_forall_notMem fun x hx => ?_
    obtain ⟨-, ⟨q, -, hq⟩, hi⟩ := s.mem_entries.1 hx
    exact hnamed q x hq hi
  have hcount : (s.inode ip).count = 1 := by
    rw [hC.count ip, hempty, hC.closed ip hdir, if_neg hroot, Pi.add_apply, Pi.single_eq_same]
    rfl
  have hput : s.inodePut ip = s.setInode ip Inode.free := by
    rw [inodePut, if_pos (by rw [hcount])]
  have hC' := hC.inodePut hS.mem_entries
  rw [hput] at hC' ⊢
  exact ⟨⟨hS.freeInode hroot hnamed hhead, hC'⟩, fun q hq =>
    congrArg Inode.type (update_of_ne hq ..)⟩

lemma tmpfsRmdir_keeps (h : Inv s 0) (hd : s.typeOf d = .dir) :
    Inv (tmpfsRmdir s d name).1 0 ∧
      ∀ q, s.typeOf q = .dir → (tmpfsRmdir s d name).1.typeOf q = .dir ∨ s.dirEntries q = [] := by
  rw [tmpfsRmdir]
  split
  · exact ⟨h, fun _ hq => .inl hq⟩
  next ti hti =>
  split
  · exact ⟨h, fun _ hq => .inl hq⟩
  next c hc =>
  split
  · exact ⟨h, fun _ hq => .inl hq⟩
  next hempty =>
  have hch : s.children c = [] := not_not.1 hempty
  have hE := h.entry hd hti (mem_of_find?_eq_some hc)
  have hfound := List.find?_some hc
  have hcd : s.isDir c = true := (of_decide_eq_true hfound).2
  have hpriv := (h.shape.entry ti c hE.mem hcd).1
  have hroot : s.inodeOf c ≠ root := fun he => by
    rw [he, h.shape.root_priv] at hpriv
    exact hE.ne_root h (some.inj hpriv).symm
  have hS := hE.detach_shape h
  have hC := hE.detach_counts h
  rw [hcd, if_pos rfl] at hC
  -- the parent loses a link
  set u := (s.detach ti c).addNlink d (-1)
  have hS1 : Shape u (insert (s.inodeOf c) ∅) :=
    hS.setInode (hS.lt_inodeTop_of_dir hd) rfl rfl
  have hC1 : Counts u (0 + Pi.single (s.inodeOf c) 1) 0 :=
    (hC.addNlink (hC.count_pos_of_dir hd) (-1)).congr_slack fun q _ _ => by
      simp [Pi.single_neg]
  have htype : u.typeOf = s.typeOf := typeOf_addNlink ..
  have hmem : ∀ {q x}, x ∈ u.children q ↔ x ∈ s.children q ∧ x ≠ c :=
    h.shape.mem_children_detach hE.mem
  have hino : u.inodeOf = s.inodeOf := s.inodeOf_detach ..
  have hch1 : u.children c = [] := hE.children_detach h hch
  -- the node goes
  have hS2 : Shape (u.kfree c) (insert (s.inodeOf c) ∅) := by
    refine hS1.kfree (hE.not_listed_detach h) (hE.ne_root h) (hE.lt_top h) hch1 ?_
    intro q hq hb hp
    have hi := hS1.inodeOf_of_priv hq hb hp
    rw [hino] at hi
    exact hb (.inl hi.symm)
  have hC2 : Counts (u.kfree c) _ _ :=
    hC1.setInfo hS1 (hE.not_listed_detach h) hch1.symm
  have hchild : ∀ {q x}, x ∈ (u.kfree c).children q → x ∈ s.children q ∧ x ≠ c := fun hx => by
    rw [kfree, Shape.children_setInfo_of_eq hch1.symm] at hx
    exact hmem.1 hx
  have hin : ∀ {q}, q ≠ c → (u.kfree c).inodeOf q = s.inodeOf q := fun hq => by
    rw [kfree, inodeOf_setInfo, if_neg hq, hino]
  -- any node of the removed directory is the one that went
  have honly : ∀ {q}, (s.inode (s.inodeOf q)).priv = some q → s.inodeOf q = s.inodeOf c →
      q = c := fun hq he => by
    rw [he, hpriv] at hq
    exact (some.inj hq).symm
  obtain ⟨hinv, hother⟩ := rmdir_put hS2 hC2
    ((congrFun htype _).trans (s.isDir_eq_true.1 hcd)) hroot
    (fun q x hx => by
      obtain ⟨hx, hne⟩ := hchild hx
      rw [hin hne]
      intro he
      have hxd : s.isDir x = true := by rwa [isDir, he]
      exact hne (honly (h.shape.entry q x hx hxd).1 he))
    (fun q x hx => by
      have hxq := (hchild hx).1
      have hq : q ≠ c := fun he => by
        rw [he, hch] at hxq
        exact not_mem_nil hxq
      rw [hin hq]
      exact fun he => hq (honly (h.shape.holder q x hxq).2 he))
  refine ⟨hinv, fun q hq => ?_⟩
  by_cases hqi : q = s.inodeOf c
  · right
    rw [hqi, s.dirEntries_of_priv hpriv, hch]
  · left
    exact (hother q hqi).trans ((congrFun htype q).trans hq)

end XosKernel.Tmpfs
