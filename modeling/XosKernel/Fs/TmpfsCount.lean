/-
# Reference and link counts in tmpfs

What each move adds to or takes from the counts. An entry that leaves its list leaves its
reference to the running call, and leaves the inode that counts it one link too many.
-/
import XosKernel.Fs.TmpfsInv

namespace XosKernel.Tmpfs

open List Function State Pi Finset Nat

variable {s s' : State} {busy : Set ℕ} {held held' : ℕ → ℕ} {slack slack' : ℕ → ℤ} {p c ip : ℕ}

namespace Shape

lemma entries_detach (h : Shape s busy) (hc : c ∈ s.children p) (ip : ℕ) :
    (s.detach p c).entries ip = (s.entries ip).erase c := by
  ext x
  rw [State.mem_entries, mem_erase, State.mem_entries, h.listed_detach hc, State.detach,
    s.inodeOf_setChildren]
  constructor
  · rintro ⟨hlt, ⟨hl, hne⟩, hi⟩
    exact ⟨hne, hlt, hl, hi⟩
  · rintro ⟨hne, hlt, hl, hi⟩
    exact ⟨hlt, ⟨hl, hne⟩, hi⟩

lemma card_entries_detach (h : Shape s busy) (hc : c ∈ s.children p) (ip : ℕ) :
    ((s.detach p c).entries ip).card + (Pi.single (s.inodeOf c) 1 : ℕ → ℕ) ip =
      (s.entries ip).card := by
  rw [h.entries_detach hc, single_apply]
  by_cases hip : ip = s.inodeOf c
  · rw [if_pos hip, card_erase_add_one (hip ▸ h.mem_entries_of_mem hc)]
  · rw [if_neg hip, erase_eq_of_notMem fun hm => hip (s.mem_entries.1 hm).2.2.symm]
    rfl

lemma card_entries_headInsert (hp : p < s.infoTop) (hlt : c < s.infoTop) (hc : ¬s.Listed c)
    (ip : ℕ) :
    ((s.headInsert p c).entries ip).card =
      (s.entries ip).card + (Pi.single (s.inodeOf c) 1 : ℕ → ℕ) ip := by
  have hmem : ∀ x, x ∈ (s.headInsert p c).entries ip ↔
      x ∈ s.entries ip ∨ x = c ∧ s.inodeOf c = ip := by
    intro x
    rw [State.mem_entries, State.mem_entries, listed_headInsert hp, State.headInsert,
      s.inodeOf_setChildren]
    constructor
    · rintro ⟨hx, hl | rfl, hi⟩
      · exact .inl ⟨hx, hl, hi⟩
      · exact .inr ⟨rfl, hi⟩
    · rintro (⟨hx, hl, hi⟩ | ⟨rfl, hi⟩)
      · exact ⟨hx, .inl hl, hi⟩
      · exact ⟨hlt, .inr rfl, hi⟩
  rw [single_apply]
  by_cases hip : ip = s.inodeOf c
  · have hnot : c ∉ s.entries ip := fun hm => hc (s.mem_entries.1 hm).2.1
    rw [if_pos hip, ← card_insert_of_notMem hnot]
    congr 1
    ext x
    rw [hmem, mem_insert, hip]
    simp [or_comm]
  · rw [if_neg hip, add_zero]
    congr 1
    ext x
    rw [hmem]
    simp [Ne.symm hip]

end Shape

namespace Counts

lemma of_lists (h : Counts s held slack) (hi : s'.inode = s.inode) (ho : s'.opens = s.opens)
    (hcount : ∀ ip, (s'.entries ip).card + held' ip = (s.entries ip).card + held ip)
    (hfile : ∀ ip, s.typeOf ip = .regular →
      ((s'.entries ip).card : ℤ) + slack' ip = (s.entries ip).card + slack ip)
    (hdir : ∀ ip, s.typeOf ip = .dir → (s'.subdirs ip : ℤ) + slack' ip = s.subdirs ip + slack ip) :
    Counts s' held' slack' where
  count := fun ip => by
    have := hcount ip
    rw [hi, ho, h.count ip]
    omega
  free := fun ip => by
    rw [hi]
    exact h.free ip
  file := fun ip hip hpos => by
    have htype : s.typeOf ip = .regular := by rwa [typeOf, hi] at hip
    rw [hi] at hpos
    rw [hi, h.file ip htype hpos, hfile ip htype]
  dir := fun ip hip => by
    have htype : s.typeOf ip = .dir := by rwa [typeOf, hi] at hip
    rw [hi, h.dir ip htype, add_assoc, add_assoc, hdir ip htype]
  closed := fun ip hip => by
    rw [typeOf, hi] at hip
    rw [ho]
    exact h.closed ip hip

lemma subdirs_setChildren {l : List ℕ} {ti : ℕ} (hti : (s.inode ip).priv = some ti) :
    (s.setChildren p l).subdirs ip = if ti = p then l.countP s.isDir else s.subdirs ip := by
  have hti' : ((s.setChildren p l).inode ip).priv = some ti := hti
  rw [subdirs, dirEntries_of_priv _ hti', children_setChildren,
    s.isDir_setChildren, subdirs, s.dirEntries_of_priv hti]
  exact apply_ite (List.countP s.isDir) _ _ _

lemma subdirs_of_priv_none (hti : (s.inode ip).priv = none) : s.subdirs ip = 0 := by
  rw [subdirs, dirEntries, hti]
  rfl

/-- What subdirectories gained or lost on the list of node `p` do to a directory's count. -/
lemma subdirs_of_countP {l : List ℕ} {n m : ℕ} (hip : s.typeOf ip = .dir)
    (hown : ∀ d, s.typeOf d = .dir → (s.inode d).priv = some p → d = s.inodeOf p)
    (hpriv : (s.inode (s.inodeOf p)).priv = some p)
    (hl : l.countP s.isDir + n = (s.children p).countP s.isDir + m) :
    (s.setChildren p l).subdirs ip + (Pi.single (s.inodeOf p) n : ℕ → ℕ) ip =
      s.subdirs ip + (Pi.single (s.inodeOf p) m : ℕ → ℕ) ip := by
  rw [single_apply, single_apply]
  by_cases he : ip = s.inodeOf p
  · have hp : (s.inode ip).priv = some p := he ▸ hpriv
    rw [if_pos he, if_pos he, subdirs_setChildren hp, if_pos rfl, hl, subdirs,
      s.dirEntries_of_priv hp]
  · rw [if_neg he, if_neg he]
    rcases hti : (s.inode ip).priv with _ | ti
    · have hti' : ((s.setChildren p l).inode ip).priv = none := hti
      rw [subdirs_of_priv_none hti, subdirs_of_priv_none hti']
    · rw [subdirs_setChildren hti, if_neg]
      exact fun hpi => he (hown ip hip (hpi ▸ hti))

lemma owner_of_dir (hd : s.isDir c = true) : s.owner p c = s.inodeOf p := if_pos hd

lemma owner_of_not_dir (hd : s.isDir c = false) : s.owner p c = s.inodeOf c := by
  rw [owner, hd]
  rfl

lemma single_owner_file (hp : s.isDir p = true) (hip : s.typeOf ip = .regular) :
    (Pi.single (s.owner p c) 1 : ℕ → ℤ) ip = ((Pi.single (s.inodeOf c) 1 : ℕ → ℕ) ip : ℕ) := by
  have hne : ∀ {q}, s.isDir q = true → ip ≠ s.inodeOf q := fun hq he => by
    rw [he, s.isDir_eq_true.1 hq] at hip
    exact nomatch hip
  cases hd : s.isDir c with
  | true => rw [owner_of_dir hd, single_eq_of_ne (hne hp), single_eq_of_ne (hne hd)]; rfl
  | false =>
    rw [owner_of_not_dir hd, single_apply, single_apply]
    split <;> rfl

lemma single_owner_dir (hip : s.typeOf ip = .dir) :
    (Pi.single (s.owner p c) 1 : ℕ → ℤ) ip =
      ((Pi.single (s.inodeOf p) (s.isDir c).toNat : ℕ → ℕ) ip : ℕ) := by
  cases hd : s.isDir c with
  | true =>
    rw [owner_of_dir hd, single_apply, single_apply]
    split <;> rfl
  | false =>
    have hne : ip ≠ s.inodeOf c := fun he => by
      rw [s.isDir_eq_true.2 (he ▸ hip)] at hd
      exact nomatch hd
    rw [owner_of_not_dir hd, single_eq_of_ne hne, single_apply]
    split <;> rfl

lemma countP_cons_toNat (f : ℕ → Bool) (c : ℕ) (l : List ℕ) :
    (c :: l).countP f = l.countP f + (f c).toNat := by
  rw [countP_cons]
  cases f c <;> rfl

lemma add_single_self : (held + Pi.single ip 1 : ℕ → ℕ) ip = held ip + 1 := by
  rw [Pi.add_apply, Pi.single_eq_same]

lemma add_single_of_ne {q : ℕ} (hq : q ≠ ip) : (held + Pi.single ip 1 : ℕ → ℕ) q = held q := by
  rw [Pi.add_apply, Pi.single_eq_of_ne hq, add_zero]

section

variable (h : Counts s held slack)
include h

lemma detach (hS : Shape s busy) (hc : c ∈ s.children p)
    (hown : ∀ d, s.typeOf d = .dir → (s.inode d).priv = some p → d = s.inodeOf p) :
    Counts (s.detach p c) (held + Pi.single (s.inodeOf c) 1)
      (slack + Pi.single (s.owner p c) 1) := by
  obtain ⟨hpd, hpriv⟩ := hS.holder p c hc
  have hcard := hS.card_entries_detach hc
  have hcountP : ((s.children p).erase c).countP s.isDir + (s.isDir c).toNat =
      (s.children p).countP s.isDir + 0 := by
    rw [(perm_cons_erase hc).countP_eq, countP_cons_toNat, add_zero]
  refine h.of_lists rfl rfl (fun ip => ?_) (fun ip hip => ?_) fun ip hip => ?_
  · have := hcard ip
    rw [Pi.add_apply]
    omega
  · have := hcard ip
    rw [Pi.add_apply, single_owner_file hpd hip]
    omega
  · have : (s.detach p c).subdirs ip + _ = _ := subdirs_of_countP hip hown hpriv hcountP
    rw [Pi.single_zero, Pi.zero_apply] at this
    rw [Pi.add_apply, single_owner_dir hip]
    omega

omit h in
lemma headInsert (h : Counts s (held + Pi.single (s.inodeOf c) 1) slack) (hS : Shape s busy)
    (hlt : c < s.infoTop) (hc : ¬s.Listed c) (hpd : s.isDir p = true)
    (hpriv : (s.inode (s.inodeOf p)).priv = some p)
    (hown : ∀ d, s.typeOf d = .dir → (s.inode d).priv = some p → d = s.inodeOf p) :
    Counts (s.headInsert p c) held (slack - Pi.single (s.owner p c) 1) := by
  have hp := hS.lt_top_of_priv hpriv
  have hcard := Shape.card_entries_headInsert hp hlt hc
  refine h.of_lists rfl rfl (fun ip => ?_) (fun ip hip => ?_) fun ip hip => ?_
  · have := hcard ip
    rw [Pi.add_apply]
    omega
  · have := hcard ip
    rw [Pi.sub_apply, single_owner_file hpd hip]
    omega
  · have : (s.headInsert p c).subdirs ip + (Pi.single (s.inodeOf p) 0 : ℕ → ℕ) ip = _ :=
      subdirs_of_countP hip hown hpriv (countP_cons_toNat s.isDir c (s.children p))
    rw [Pi.single_zero, Pi.zero_apply] at this
    rw [Pi.sub_apply, single_owner_dir hip]
    omega

lemma of_views (hi : s'.inode = s.inode) (ho : s'.opens = s.opens)
    (hentries : ∀ ip, s'.entries ip = s.entries ip)
    (hsubdirs : ∀ ip, s.typeOf ip = .dir → s'.subdirs ip = s.subdirs ip) :
    Counts s' held slack :=
  h.of_lists hi ho (fun ip => by rw [hentries]) (fun ip _ => by rw [hentries])
    fun ip hip => by rw [hsubdirs ip hip]

lemma perm {l : List ℕ} (hl : l.Perm (s.children p)) : Counts (s.setChildren p l) held slack := by
  have hlisted : ∀ x, (s.setChildren p l).Listed x ↔ s.Listed x := fun x => by
    refine exists_congr fun q => and_congr_right fun _ => ?_
    rw [children_setChildren]
    split
    next hq => rw [hq, hl.mem_iff]
    · rfl
  refine h.of_views rfl rfl (fun ip => ?_) fun ip _ => ?_
  · ext x
    rw [mem_entries, mem_entries, hlisted, s.inodeOf_setChildren]
    rfl
  · rcases hti : (s.inode ip).priv with _ | ti
    · have hti' : ((s.setChildren p l).inode ip).priv = none := hti
      rw [subdirs_of_priv_none hti, subdirs_of_priv_none hti']
    · rw [subdirs_setChildren hti]
      split
      next he => rw [subdirs, s.dirEntries_of_priv hti, he, hl.countP_eq]
      · rfl

omit h in
lemma subdirs_congr (hpriv : (s'.inode ip).priv = (s.inode ip).priv)
    (hch : s'.children = s.children) (hd : ∀ q, ∀ x ∈ s.children q, s'.isDir x = s.isDir x) :
    s'.subdirs ip = s.subdirs ip := by
  rw [subdirs, subdirs, dirEntries, dirEntries, hpriv, hch]
  rcases (s.inode ip).priv with _ | ti
  · rfl
  · exact countP_congr fun x hx => by rw [hd ti x hx]

lemma setInfo (hS : Shape s busy) {i : Info} (hc : ¬s.Listed c)
    (hi : i.children = s.children c) : Counts (s.setInfo c i) held slack := by
  have hne : ∀ {x}, s.Listed x → x ≠ c := fun hx he => hc (he ▸ hx)
  refine h.of_views rfl rfl (fun ip => ?_) fun ip _ => ?_
  · ext x
    rw [mem_entries, mem_entries, Shape.listed_setInfo hi, inodeOf_setInfo]
    refine and_congr_right fun _ => and_congr_right fun hx => ?_
    rw [if_neg (hne hx)]
  · refine subdirs_congr rfl (Shape.children_setInfo_of_eq hi) fun q x hx => ?_
    rw [isDir, inodeOf_setInfo, if_neg (hne (hS.listed hx))]
    rfl

lemma grow (hS : Shape s busy) : Counts { s with infoTop := s.infoTop + 1 } held slack := by
  refine h.of_views rfl rfl (fun ip => ?_) fun _ _ => rfl
  ext x
  rw [mem_entries, mem_entries, hS.grow.listed_iff, hS.listed_iff]
  exact ⟨fun ⟨_, ⟨q, hx⟩, hi⟩ => ⟨hS.lt_top hx, ⟨q, hx⟩, hi⟩,
    fun ⟨hlt, hx, hi⟩ => ⟨lt_succ_of_lt hlt, hx, hi⟩⟩

lemma newInfo (hS : Shape s busy) (name : Name) : Counts (s.newInfo ip p name) held slack :=
  (h.grow hS).setInfo hS.grow (c := s.infoTop) (fun ⟨_, _, hm⟩ => lt_irrefl _ (hS.lt_top hm))
    hS.children_top.symm

/-- Changes to one inode; if an entry names it, it keeps its type. -/
lemma of_inode {i : Inode} {top : ℕ} (hnamed : ∀ q x, x ∈ s.children q → s.inodeOf x = ip →
      i.type = s.typeOf ip)
    (hcount : i.count + held ip = (s.inode ip).count + held' ip)
    (hheld : ∀ q, q ≠ ip → held' q = held q) (hslack : ∀ q, q ≠ ip → slack' q = slack q)
    (hfree : i.count = 0 → i = Inode.free)
    (hfile : i.type = .regular → 0 < i.count → i.nlink = (s.entries ip).card + slack' ip)
    (hdir : i.type = .dir → s.opens ip = 0 ∧ i.nlink = (if ip = root then 1 else 2) +
      ((i.priv.elim 0 fun ti => (s.children ti).countP s.isDir : ℕ) : ℤ) + slack' ip) :
    Counts { s with inode := update s.inode ip i, inodeTop := top } held' slack' := by
  set u : State := { s with inode := update s.inode ip i, inodeTop := top }
  have hother : ∀ {q}, q ≠ ip → u.inode q = s.inode q := fun hne => update_of_ne hne ..
  have hself : u.inode ip = i := update_self ..
  have htypeOf : ∀ {q}, q ≠ ip → u.typeOf q = s.typeOf q := fun hq =>
    congrArg Inode.type (hother hq)
  have hisDir : ∀ q, ∀ x ∈ s.children q, u.isDir x = s.isDir x := fun q x hx => by
    have htype : u.typeOf (s.inodeOf x) = s.typeOf (s.inodeOf x) := by
      by_cases hxi : s.inodeOf x = ip
      · rw [hxi, typeOf, hself, hnamed q x hx hxi]
      · exact htypeOf hxi
    exact congrArg (fun ty => decide (ty = InodeType.dir)) htype
  constructor
  · intro q
    have := h.count q
    change _ = (s.entries q).card + s.opens q + _ + _
    by_cases hq : q = ip
    · rw [hq] at this ⊢
      rw [hself]
      omega
    · rw [hother hq, hheld q hq, this]
  · intro q
    by_cases hq : q = ip
    · rw [hq, hself]
      exact hfree
    · rw [hother hq]
      exact h.free q
  · intro q hreg hpos
    change _ = ((s.entries q).card : ℤ) + _
    by_cases hq : q = ip
    · rw [hq, typeOf, hself] at hreg
      rw [hq, hself] at hpos ⊢
      exact hfile hreg hpos
    · rw [htypeOf hq] at hreg
      rw [hother hq] at hpos ⊢
      rw [hslack q hq, h.file q hreg hpos]
  · intro q hqd
    by_cases hq : q = ip
    · rw [hq, typeOf, hself] at hqd
      rw [hq, subdirs, dirEntries, hself, (hdir hqd).2]
      cases i.priv with
      | none => rfl
      | some ti =>
        rw [countP_congr fun x hx => by rw [hisDir ti x hx]]
        rfl
    · have hsub : u.subdirs q = s.subdirs q :=
        subdirs_congr (congrArg Inode.priv (hother hq)) rfl hisDir
      rw [htypeOf hq] at hqd
      rw [hother hq, hsub, hslack q hq, h.dir q hqd]
  · intro q hqd
    by_cases hq : q = ip
    · rw [hq, typeOf, hself] at hqd
      exact hq ▸ (hdir hqd).1
    · exact h.closed q (htypeOf hq ▸ hqd)

lemma setInode {i : Inode} (htype : i.type = s.typeOf ip)
    (hpriv : i.priv = (s.inode ip).priv) (hpos : 0 < (s.inode ip).count) {n : ℤ}
    (hcount : i.count + held ip = (s.inode ip).count + held' ip) (hipos : 0 < i.count)
    (hheld : ∀ q, q ≠ ip → held' q = held q) (hnlink : i.nlink = (s.inode ip).nlink + n) :
    Counts (s.setInode ip i) held' (slack + Pi.single ip n) := by
  refine h.of_inode (fun _ _ _ _ => htype) hcount hheld (fun q hq => ?_)
    (fun h0 => absurd h0 hipos.ne') (fun hreg _ => ?_) fun hdir => ?_
  · rw [Pi.add_apply, Pi.single_eq_of_ne hq, add_zero]
  · rw [Pi.add_apply, Pi.single_eq_same, hnlink, h.file ip (htype ▸ hreg) hpos, add_assoc]
  · have hdir' : s.typeOf ip = .dir := htype ▸ hdir
    refine ⟨h.closed ip hdir', ?_⟩
    rw [Pi.add_apply, Pi.single_eq_same, hnlink, h.dir ip hdir', ← add_assoc, hpriv, subdirs,
      dirEntries]
    cases (s.inode ip).priv <;> rfl

lemma addNlink (hpos : 0 < (s.inode ip).count) (n : ℤ) :
    Counts (s.addNlink ip n) held (slack + Pi.single ip n) :=
  h.setInode (i := { s.inode ip with nlink := (s.inode ip).nlink + n }) rfl rfl hpos rfl hpos
    (fun _ _ => rfl) rfl

lemma setNlink (hpos : 0 < (s.inode ip).count) (n : ℤ) :
    Counts (s.setNlink ip n) held (slack + Pi.single ip (n - (s.inode ip).nlink)) :=
  h.setInode (i := { s.inode ip with nlink := n }) rfl rfl hpos rfl hpos (fun _ _ => rfl)
    (add_sub_cancel _ n).symm

lemma inodeGet (hpos : 0 < (s.inode ip).count) :
    Counts (s.inodeGet ip) (held + Pi.single ip 1) slack := by
  have : Counts (s.inodeGet ip) (held + single ip 1) (slack + single ip 0) :=
    h.setInode (i := { s.inode ip with count := (s.inode ip).count + 1 }) rfl rfl hpos
      (by rw [add_single_self]; ring) (succ_pos _) (fun _ => add_single_of_ne)
      (add_zero _).symm
  rwa [single_zero, add_zero] at this

lemma entries_eq_empty (h0 : (s.inode ip).count = 0) : s.entries ip = ∅ := by
  have := h.count ip
  exact card_eq_zero.1 (by omega)

lemma inodeOf_ne_of_count (hS : Shape s busy) {q x : ℕ}
    (hx : x ∈ s.children q) (h0 : (s.inode ip).count = 0) : s.inodeOf x ≠ ip := by
  rintro rfl
  have hm := hS.mem_entries_of_mem hx
  rw [h.entries_eq_empty h0] at hm
  exact absurd hm (notMem_empty x)

omit h in
lemma last_put (h : Counts s (held + Pi.single ip 1) slack) (h1 : (s.inode ip).count - 1 = 0) :
    s.entries ip = ∅ ∧ ip ≠ root := by
  have := h.count ip
  rw [add_single_self] at this
  refine ⟨card_eq_zero.1 (by omega), fun he => ?_⟩
  rw [if_pos he] at this
  omega

omit h in
lemma freeInode (h : Counts s (held + Pi.single ip 1) slack)
    (hmem : ∀ q x, x ∈ s.children q → x ∈ s.entries (s.inodeOf x))
    (h1 : (s.inode ip).count - 1 = 0) : Counts (s.setInode ip Inode.free) held slack := by
  have hpos := h.count ip
  rw [add_single_self] at hpos
  refine h.of_inode (fun q x hx he => ?_) ?_ (fun q hq => (add_single_of_ne hq).symm)
    (fun _ _ => rfl) (fun _ => rfl) nofun nofun
  · have hm := hmem _ _ hx
    rw [he, (h.last_put h1).1] at hm
    exact absurd hm (notMem_empty _)
  · rw [add_single_self]
    change 0 + _ = _
    omega

omit h in
lemma inodePut (h : Counts s (held + Pi.single ip 1) slack)
    (hmem : ∀ q x, x ∈ s.children q → x ∈ s.entries (s.inodeOf x)) :
    Counts (s.inodePut ip) held slack := by
  rw [State.inodePut]
  split
  next h1 => exact h.freeInode hmem h1
  next h1 =>
    have : Counts (s.setInode ip { s.inode ip with count := (s.inode ip).count - 1 }) held
        (slack + single ip 0) :=
      h.setInode (i := { s.inode ip with count := (s.inode ip).count - 1 }) rfl rfl (by omega)
        (by rw [add_single_self]; change _ - 1 + _ = _; omega) (pos_of_ne_zero h1)
        (fun _ hq => (add_single_of_ne hq).symm) (add_zero _).symm
    rwa [single_zero, add_zero] at this

omit h in
lemma count_inodeTop (hS : Shape s busy) : (s.inode s.inodeTop).count = 0 := by
  rw [hS.inode_top _ le_rfl]
  rfl

omit h in
/-- A new inode: the reference is the call's, and a directory owes itself one more link where a
file has one too many. -/
lemma newInode (h : Counts s 0 0) (hS : Shape s busy) (type : InodeType) :
    Counts (s.newInode type) (Pi.single s.inodeTop 1)
      (Pi.single s.inodeTop (if type = .dir then -1 else 1)) := by
  have h0 := count_inodeTop hS
  have hempty := h.entries_eq_empty h0
  have hroot : s.inodeTop ≠ root := (hS.lt_inodeTop_of_dir hS.root_type).ne'
  have hopen : s.opens s.inodeTop = 0 := by
    have := h.count s.inodeTop
    omega
  refine h.of_inode (fun q x hx he => absurd he (h.inodeOf_ne_of_count hS hx h0)) ?_
    (fun q hq => single_eq_of_ne hq 1) (fun q hq => single_eq_of_ne hq _)
    (fun he => absurd he one_ne_zero) (fun hreg _ => ?_) fun hdir => ⟨hopen, ?_⟩
  · rw [h0, single_eq_same]
    rfl
  · have hreg : type = .regular := hreg
    rw [hempty, single_eq_same, if_neg (by rw [hreg]; exact nofun)]
    rfl
  · have hdir : type = .dir := hdir
    rw [if_neg hroot, single_eq_same, if_pos hdir]
    change (1 : ℤ) = 2 + (((s.children s.infoTop).countP s.isDir : ℕ) : ℤ) + -1
    rw [hS.children_top]
    rfl

lemma setOpens {n : ℕ} (hip : s.typeOf ip ≠ .dir) (hn : n + held' ip = s.opens ip + held ip)
    (hheld : ∀ q, q ≠ ip → held' q = held q) :
    Counts { s with opens := update s.opens ip n } held' slack where
  __ := h
  count := fun q => by
    have := h.count q
    change (s.inode q).count = (s.entries q).card + update s.opens ip n q + _ + _
    by_cases hq : q = ip
    · subst hq
      rw [update_self]
      omega
    · rw [update_of_ne hq, hheld q hq, this]
  closed := fun q hq => by
    have hne : q ≠ ip := fun he => hip (he ▸ hq)
    exact (update_of_ne hne ..).trans (h.closed q hq)

omit h in
lemma openFile (h : Counts s (held + Pi.single ip 1) slack) (hip : s.typeOf ip ≠ .dir) :
    Counts { s with opens := update s.opens ip (s.opens ip + 1) } held slack :=
  h.setOpens hip (by rw [add_single_self]; omega) fun _ hq => (add_single_of_ne hq).symm

lemma closeFile (hopen : 0 < s.opens ip) :
    Counts { s with opens := update s.opens ip (s.opens ip - 1) } (held + Pi.single ip 1) slack :=
  h.setOpens (fun hdir => hopen.ne' (h.closed ip hdir)) (by rw [add_single_self]; omega)
    fun _ hq => add_single_of_ne hq

lemma count_pos_of_dir (hip : s.typeOf ip = .dir) : 0 < (s.inode ip).count := by
  refine pos_of_ne_zero fun h0 => ?_
  rw [typeOf, h.free ip h0] at hip
  cases hip

lemma congr_slack
    (hs : ∀ ip, 0 < (s.inode ip).count → s.typeOf ip = .regular ∨ s.typeOf ip = .dir →
      slack' ip = slack ip) : Counts s held slack' :=
  { h with
    file := fun ip hip hpos => by rw [hs ip hpos (.inl hip), h.file ip hip hpos]
    dir := fun ip hip => by rw [hs ip (h.count_pos_of_dir hip) (.inr hip), h.dir ip hip] }

end

end Counts

end XosKernel.Tmpfs
