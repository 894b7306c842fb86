/-
# When path resolution is safe

The loop of `path_walk` turn by turn in terms of the graph of names and links, and from it: the
walk returns a referenced inode or `NULL` without using a bad pointer exactly when the path is
sound in that graph (`walkLoop_iff`).
-/
import XosKernel.Fs.PathWalk

namespace XosKernel.PathWalk

open Option Vfs Prod List

open LinkWalk (LinkGraph Target Turn Leads Sound Clean)

variable {v : Vfs} {walk : Mount → Text → Refs → Option (Out × Refs)} {m : Mount} {r r' : Refs}
  {dir k w s fuel : ℕ} {seg : Text} {rest ns : List Text} {o : Out}

/-! ## References -/

@[simp] lemma inodePut_get (i : ℕ) (r : Refs) : inodePut i (inodeGet i r) = r := by
  simp [inodePut, inodeGet]

lemma inodePut_get_get (i j : ℕ) (r : Refs) :
    inodePut i (inodeGet j (inodeGet i r)) = inodeGet j r := by
  unfold inodePut inodeGet
  abel

/-- The references left to the caller. -/
def Ptr.held : Option ℕ → Refs → Refs
  | some i, r => inodeGet i r
  | none, r => r

/-- The pointer returned. -/
def Ptr.ofResult : Option ℕ → Ptr
  | some i => .inode i
  | none => .null

/-! ## One turn -/

lemma link_eq_some_iff {t : Target ℕ Text} :
    v.graph.link w = some t ↔ ∃ target, v.node w = .lnk target ∧ v.targetOf target = t := by
  simp only [graph]
  cases v.node w <;> simp

lemma link_eq_none_iff : v.graph.link w = none ↔ ∀ target, v.node w ≠ .lnk target := by
  simp only [graph]
  cases v.node w <;> simp

lemma followSymlink_refused {t : Target ℕ Text} (hw : v.graph.link w = some t)
    (h : symlinkMax ≤ k ∨ t = .refused) :
    ∃ e, ∀ walk r, v.followSymlink walk w k r = some (.ptr (.err e), r) := by
  obtain ⟨target, hn, rfl⟩ := link_eq_some_iff.1 hw
  unfold followSymlink
  rw [hn]
  by_cases hk : symlinkMax < k + 1
  · exact ⟨_, fun _ _ => if_pos hk⟩
  simp only [if_neg hk]
  have ht := h.resolve_left (by omega)
  cases target with
  | none => exact ⟨_, fun _ _ => rfl⟩
  | some target =>
    unfold targetOf at ht
    by_cases hlen : pathMax ≤ target.length
    · exact ⟨_, fun _ _ => if_pos hlen⟩
    simp only [if_neg hlen] at ht ⊢
    split at ht
    case h_1 hres => exact ⟨_, fun _ _ => rfl⟩
    case h_2 m rel hres =>
      split at ht
      · exact nomatch ht
      · exact nomatch ht

lemma followSymlink_eq {t : Target ℕ Text} (hw : v.graph.link w = some t) (hk : k < symlinkMax)
    (ht : t ≠ .refused) : ∃ m rel, (t = match m.root with
        | none => .nowhere
        | some d => .path d (segments rel)) ∧
      ∀ walk r, v.followSymlink walk w k r = walk m rel r := by
  obtain ⟨target, hn, rfl⟩ := link_eq_some_iff.1 hw
  cases target with
  | none => exact (ht rfl).elim
  | some target =>
    unfold targetOf at ht ⊢
    dsimp only at ht ⊢
    by_cases hlen : pathMax ≤ target.length
    · rw [if_pos hlen] at ht
      exact (ht rfl).elim
    rw [if_neg hlen] at ht ⊢
    cases hres : v.vfsResolve target with
    | none =>
      rw [hres] at ht
      exact (ht rfl).elim
    | some x =>
      refine ⟨x.1, x.2, rfl, fun walk r => ?_⟩
      unfold followSymlink
      rw [hn]
      dsimp only
      rw [if_neg (by omega), if_neg hlen, hres]

lemma followSymlink_path {d : ℕ} {ns : List Text} (hw : v.graph.link w = some (.path d ns))
    (hk : k < symlinkMax) : ∃ m rel, m.root = some d ∧ segments rel = ns ∧
      ∀ walk r, v.followSymlink walk w k r = walk m rel r := by
  obtain ⟨m, rel, hm, hf⟩ := followSymlink_eq hw hk (by simp)
  cases hroot : m.root with
  | none =>
    rw [hroot] at hm
    exact nomatch hm
  | some d' =>
    rw [hroot] at hm
    obtain ⟨rfl, rfl⟩ := Target.path.inj hm
    exact ⟨m, rel, hroot, rfl, hf⟩

/-- What the loop does with the answer of `follow_symlink` for the link `w`. -/
def Vfs.resume (v : Vfs) (walk : Mount → Text → Refs → Option (Out × Refs)) (rest : List Text)
    (w k : ℕ) : Out × Refs → Option (Out × Refs)
  | (.fault, r) => some (.fault, r)
  | (.ptr (.err _), r) => some (.ptr .null, inodePut w r)
  | (.ptr .null, r) => some (.fault, inodePut w r)
  | (.ptr (.inode d), r) => v.walkLoop walk rest d (k + 1) (inodePut w r)

lemma walkLoop_link {target : Option Text} (hlen : ¬pathMax ≤ seg.length)
    (hv : v.lookup dir seg = some w) (hrest : rest ≠ []) (hw : v.node w = .lnk target) :
    v.walkLoop walk (seg :: rest) dir k (inodeGet dir r) =
      (v.followSymlink walk w k (inodeGet w r)).bind (v.resume walk rest w k) := by
  rw [walkLoop, if_neg hlen, hv]
  dsimp only
  rw [inodePut_get_get, hw, isEmpty_eq_false_iff.2 hrest]
  dsimp only
  congr 1
  funext ⟨x, y⟩
  rcases x with (_ | _ | _) | _ <;> rfl

lemma walkLoop_cons : v.walkLoop walk (seg :: rest) dir k (inodeGet dir r) =
    match v.graph.turn symlinkMax dir k seg rest with
    | .stop => some (.ptr .null, r)
    | .plain w => v.walkLoop walk rest w k (inodeGet w r)
    | .void w | .path w _ _ =>
      (v.followSymlink walk w k (inodeGet w r)).bind (v.resume walk rest w k) := by
  have hchild : v.graph.child dir seg = if pathMax ≤ seg.length then none else v.lookup dir seg :=
    rfl
  split at hchild
  next hlen =>
    have ht : v.graph.turn symlinkMax dir k seg rest = .stop := by
      rw [LinkGraph.turn, hchild]
    rw [walkLoop, if_pos hlen, inodePut_get, ht]
  next hlen =>
  obtain ⟨hv, ht⟩ | ⟨w, hv, hcase⟩ := v.graph.turn_cases symlinkMax dir k seg rest
  · rw [hchild] at hv
    rw [walkLoop, if_neg hlen, hv, ht]
    rw [inodePut_get]
  rw [hchild] at hv
  obtain ⟨hp, ht⟩ | ⟨hrest, t, hw, hcase⟩ := hcase
  · rw [walkLoop, if_neg hlen, hv, ht]
    dsimp only
    rw [inodePut_get_get]
    obtain rfl | hp := hp
    · rfl
    · split
      case h_1 target _ hn => exact (link_eq_none_iff.1 hp _ hn).elim
      case h_2 => rfl
  · obtain ⟨target, hn, -⟩ := link_eq_some_iff.1 hw
    rw [walkLoop_link hlen hv hrest hn]
    obtain ⟨href, ht⟩ | ⟨-, -, ht⟩ | ⟨-, s, ns, -, ht⟩ := hcase
    · obtain ⟨e, he⟩ := followSymlink_refused hw href
      rw [he, ht, bind_some]
      simp only [resume, inodePut_get]
    · rw [ht]
    · rw [ht]

/-! ## What the walk returns -/

/-- An answer that is a pointer comes from a path that is clean in the graph. -/
def WalkSpec (v : Vfs) (walk : Mount → Text → Refs → Option (Out × Refs)) : Prop :=
  ∀ m rel r p r', walk m rel r = some (.ptr p, r') →
    ∃ res, p = Ptr.ofResult res ∧ r' = Ptr.held res r ∧
      ((m.root = none ∧ res = none) ∨
        ∃ d, m.root = some d ∧ Clean v.graph symlinkMax d 0 (segments rel) res)

variable {t rel : Text} {as : List Text} {res : Option ℕ} {i : ℕ} {nofollow : Bool}

/-- The loop, given this of the nested calls. -/
lemma clean_of_walkLoop (hwalk : WalkSpec v walk) {p : Ptr}
    (h : v.walkLoop walk as dir k (inodeGet dir r) = some (.ptr p, r')) :
    ∃ res, p = Ptr.ofResult res ∧ r' = Ptr.held res r ∧ Clean v.graph symlinkMax dir k as res := by
  induction as generalizing dir k with
  | nil =>
    obtain ⟨hp, rfl⟩ := mk.inj (some.inj h)
    exact ⟨some dir, (Out.ptr.inj hp).symm, rfl, .done dir k⟩
  | cons a as ih =>
    rw [walkLoop_cons] at h
    cases ht : v.graph.turn symlinkMax dir k a as with
    | stop =>
      rw [ht] at h
      obtain ⟨hp, rfl⟩ := mk.inj (some.inj h)
      exact ⟨none, (Out.ptr.inj hp).symm, rfl, .stop ht⟩
    | plain w =>
      rw [ht] at h
      obtain ⟨res, hp, hr, hc⟩ := ih h
      exact ⟨res, hp, hr, .plain ht hc⟩
    | void w =>
      rw [ht] at h
      obtain ⟨hk, hw⟩ := LinkGraph.link_of_turn ht
      obtain ⟨m, rel, hm, hf⟩ := followSymlink_eq hw hk (by simp)
      obtain ⟨⟨o, r1⟩, ho, hres⟩ := bind_eq_some_iff.1 h
      rw [hf] at ho
      cases o with
      | fault => exact nomatch hres
      | ptr p1 =>
        obtain ⟨res, rfl, -, hroot⟩ := hwalk m rel _ p1 r1 ho
        obtain ⟨-, rfl⟩ | ⟨d, hd, -⟩ := hroot
        · exact nomatch hres
        · rw [hd] at hm
          exact nomatch hm
    | path w s ns =>
      rw [ht] at h
      obtain ⟨hk, hw⟩ := LinkGraph.link_of_turn ht
      obtain ⟨m, rel, hm, hf⟩ := followSymlink_eq hw hk (by simp)
      obtain ⟨⟨o, r1⟩, ho, hres⟩ := bind_eq_some_iff.1 h
      rw [hf] at ho
      cases o with
      | fault => exact nomatch hres
      | ptr p1 =>
        obtain ⟨res, rfl, rfl, hroot⟩ := hwalk m rel _ p1 r1 ho
        cases res with
        | none => exact nomatch hres
        | some d =>
          obtain ⟨-, hc⟩ | ⟨d', hd, hc⟩ := hroot
          · exact nomatch hc
          rw [hd] at hm
          obtain ⟨rfl, rfl⟩ := Target.path.inj hm
          change v.walkLoop walk as d (k + 1) (inodePut w (inodeGet d (inodeGet w r))) = _ at hres
          rw [inodePut_get_get] at hres
          obtain ⟨res', hp, hr, hc'⟩ := ih hres
          exact ⟨res', hp, hr, .follow ht hc hc'⟩

lemma pathWalk_spec (v : Vfs) (fuel : ℕ) : WalkSpec v (v.pathWalk fuel) := by
  induction fuel with
  | zero => exact fun _ _ _ _ _ h => nomatch h
  | succ fuel ih =>
    intro m rel r p r' h
    rw [pathWalk] at h
    split at h
    next hd =>
      obtain ⟨hp, rfl⟩ := mk.inj (some.inj h)
      exact ⟨none, (Out.ptr.inj hp).symm, rfl, .inl ⟨hd, rfl⟩⟩
    next d hd =>
      obtain ⟨res, hp, hr, hc⟩ := clean_of_walkLoop ih h
      exact ⟨res, hp, hr, .inr ⟨d, hd, hc⟩⟩

lemma walkLoop_of_clean (h : Clean v.graph symlinkMax dir k as res) :
    ∃ f0, ∀ fuel ≥ f0, ∀ r, v.walkLoop (v.pathWalk fuel) as dir k (inodeGet dir r) =
      some (.ptr (Ptr.ofResult res), Ptr.held res r) := by
  induction h with
  | done dir k => exact ⟨0, fun _ _ _ => rfl⟩
  | stop ht =>
    refine ⟨0, fun fuel _ r => ?_⟩
    rw [walkLoop_cons, ht]
    rfl
  | plain ht _ ih =>
    obtain ⟨f0, hf⟩ := ih
    refine ⟨f0, fun fuel hfuel r => ?_⟩
    rw [walkLoop_cons, ht]
    exact hf fuel hfuel r
  | @follow dir k a as w s ns d res ht _ _ ih ih' =>
    obtain ⟨f1, hf1⟩ := ih
    obtain ⟨f2, hf2⟩ := ih'
    obtain ⟨hk, hw⟩ := LinkGraph.link_of_turn ht
    obtain ⟨m, rel, hroot, rfl, hfollow⟩ := followSymlink_path hw hk
    refine ⟨max (f1 + 1) f2, fun fuel hfuel r => ?_⟩
    obtain ⟨f, rfl⟩ : ∃ f, fuel = f + 1 := ⟨fuel - 1, by omega⟩
    rw [walkLoop_cons, ht]
    dsimp only
    rw [hfollow, pathWalk, hroot]
    dsimp only
    rw [hf1 f (by omega), bind_some]
    change v.walkLoop (v.pathWalk (f + 1)) as d (k + 1) (inodePut w (inodeGet d (inodeGet w r))) = _
    rw [inodePut_get_get]
    exact hf2 (f + 1) (by omega) r

lemma pathWalk_of_clean {d : ℕ} (hd : m.root = some d)
    (h : Clean v.graph symlinkMax d 0 (segments rel) res) :
    ∃ f0, ∀ fuel ≥ f0, ∀ r, v.pathWalk fuel m rel r =
      some (.ptr (Ptr.ofResult res), Ptr.held res r) := by
  obtain ⟨f0, hf⟩ := walkLoop_of_clean h
  refine ⟨f0 + 1, fun fuel hfuel r => ?_⟩
  obtain ⟨f, rfl⟩ : ∃ f, fuel = f + 1 := ⟨fuel - 1, by omega⟩
  rw [pathWalk, hd]
  exact hf f (by omega) r

/-- `path_walk` returns a referenced inode or `NULL`, and uses no bad pointer. -/
def WalkOk (v : Vfs) (m : Mount) (rel : Text) : Prop :=
  ∃ fuel res, ∀ r, v.pathWalk fuel m rel r = some (.ptr (Ptr.ofResult res), Ptr.held res r)

def WalkFromOk (v : Vfs) (start : ℕ) (rel : Text) : Prop :=
  ∃ fuel res, ∀ r, v.pathWalkFrom fuel start rel r =
    some (.ptr (Ptr.ofResult res), Ptr.held res r)

theorem walkOk_iff : WalkOk v m rel ↔
    ∀ d, m.root = some d → Sound v.graph symlinkMax d 0 (segments rel) := by
  constructor
  · rintro ⟨fuel, res, h⟩ d hd
    obtain ⟨res', -, -, ⟨hn, -⟩ | ⟨d', hd', hc⟩⟩ := pathWalk_spec v fuel m rel 0 _ _ (h 0)
    · exact nomatch hd.symm.trans hn
    · obtain rfl := some.inj (hd.symm.trans hd')
      exact hc.sound
  · intro h
    cases hd : m.root with
    | none => exact ⟨1, none, fun r => by rw [pathWalk, hd]; rfl⟩
    | some d =>
      obtain ⟨res, hc⟩ := LinkWalk.clean_iff_sound.2 (h d hd)
      obtain ⟨f0, hf⟩ := pathWalk_of_clean hd hc
      exact ⟨f0, res, hf f0 le_rfl⟩

theorem walkFromOk_iff {start : ℕ} : WalkFromOk v start rel ↔
    Sound v.graph symlinkMax start 0 (segments rel) := by
  constructor
  · rintro ⟨fuel, res, h⟩
    obtain ⟨res', -, -, hc⟩ := clean_of_walkLoop (pathWalk_spec v fuel) (h 0)
    exact hc.sound
  · intro h
    obtain ⟨res, hc⟩ := LinkWalk.clean_iff_sound.2 h
    obtain ⟨f0, hf⟩ := walkLoop_of_clean hc
    exact ⟨f0, res, hf f0 le_rfl⟩

/-! ## `vfs_statx` -/

/-- The link `i`, followed in the last place, stands for a node or is refused. -/
def LinkStands (v : Vfs) (i : ℕ) : Prop :=
  ∀ t, v.graph.link i = some t → t = .refused ∨
    ∃ s ns u, t = .path s ns ∧ Sound v.graph symlinkMax s 0 ns ∧ Leads v.graph symlinkMax s 0 ns
    (some u)

/-- The path from `d` is sound, and so is the link it may end in. -/
def StatSound (v : Vfs) (nofollow : Bool) (d : ℕ) (as : List Text) : Prop :=
  Sound v.graph symlinkMax d 0 as ∧
    (nofollow = false → ∀ i, Leads v.graph symlinkMax d 0 as (some i) → LinkStands v i)

lemma statInode_of_stands (h : nofollow = false → LinkStands v i) :
    ∃ f0 out, out ≠ .fault ∧ ∀ fuel ≥ f0, ∀ r,
      v.statInode fuel nofollow (.ptr (.inode i)) (inodeGet i r) = some (out, r) := by
  have hplain : (nofollow = true ∨ ∀ target, v.node i ≠ .lnk target) → ∀ fuel r,
      v.statInode fuel nofollow (.ptr (.inode i)) (inodeGet i r) = some (.attr i, r) := by
    intro hno fuel r
    unfold statInode
    dsimp only
    rw [inodePut_get]
    obtain rfl | hno := hno
    · rfl
    · split
      case h_1 target hn => exact (hno _ hn).elim
      case h_2 => rfl
  cases nofollow with
  | true => exact ⟨0, .attr i, by simp, fun fuel _ => hplain (.inl rfl) fuel⟩
  | false =>
    cases hl : v.graph.link i with
    | none => exact ⟨0, .attr i, by simp, fun fuel _ => hplain (.inr (link_eq_none_iff.1 hl)) fuel⟩
    | some t =>
      obtain ⟨target, hn, -⟩ := link_eq_some_iff.1 hl
      obtain rfl | ⟨s, ns, u, rfl, hsound, hlead⟩ := h rfl t hl
      · obtain ⟨e, he⟩ := followSymlink_refused (k := 0) hl (.inr rfl)
        refine ⟨0, .error e, by simp, fun fuel _ r => ?_⟩
        simp only [statInode, hn, he, map_some, inodePut_get]
      · obtain ⟨m, rel, hroot, rfl, hf⟩ := followSymlink_path (k := 0) hl (by decide)
        obtain ⟨f0, hw⟩ := pathWalk_of_clean hroot (hlead.clean hsound)
        refine ⟨f0, .attr u, by simp, fun fuel hfuel r => ?_⟩
        simp only [statInode, hn, hf, hw fuel hfuel, map_some, Ptr.ofResult, Ptr.held,
          inodePut_get_get, inodePut_get]

lemma stands_of_statInode {out : StatOut} (hout : out ≠ .fault)
    (h : v.statInode fuel false (.ptr (.inode i)) r = some (out, r')) : LinkStands v i := by
  intro t hl
  by_cases ht : t = .refused
  · exact .inl ht
  obtain ⟨target, hn, -⟩ := link_eq_some_iff.1 hl
  obtain ⟨m, rel, hm, hf⟩ := followSymlink_eq (k := 0) hl (by decide) ht
  simp only [statInode, hn, hf] at h
  obtain ⟨⟨o, r1⟩, ho, h⟩ := map_eq_some_iff.1 h
  cases o with
  | fault => exact (hout (mk.inj h).1.symm).elim
  | ptr p =>
    obtain ⟨res, rfl, -, hroot⟩ := pathWalk_spec v fuel m rel _ p r1 ho
    cases res with
    | none => exact (hout (mk.inj h).1.symm).elim
    | some u =>
      obtain ⟨-, hc⟩ | ⟨d, hd, hc⟩ := hroot
      · exact nomatch hc
      rw [hd] at hm
      exact .inr ⟨d, _, u, hm, hc.sound, hc.leads⟩

lemma inodePut_held (i : ℕ) (res : Option ℕ) (r : Refs) :
    inodePut i (Ptr.held res (inodeGet i r)) = Ptr.held res r := by
  cases res with
  | none => exact inodePut_get i r
  | some j => exact inodePut_get_get i j r

lemma stat_of_clean (hc : Clean v.graph symlinkMax dir 0 as res) (h : StatSound v nofollow dir as) :
    ∃ f0 out, out ≠ .fault ∧ ∀ fuel ≥ f0, ∀ r,
      v.statInode fuel nofollow (.ptr (Ptr.ofResult res)) (Ptr.held res r) = some (out, r) := by
  cases res with
  | none => exact ⟨0, .error Errno.ENOENT, by simp, fun _ _ _ => rfl⟩
  | some i => exact statInode_of_stands fun hno => h.2 hno i hc.leads

lemma statSound_of_stat {out : StatOut}
    (hc : Clean v.graph symlinkMax dir 0 as res) (hout : out ≠ .fault)
    (h : v.statInode fuel nofollow (.ptr (Ptr.ofResult res)) r = some (out, r')) :
    StatSound v nofollow dir as := by
  refine ⟨hc.sound, ?_⟩
  rintro rfl i hi
  obtain rfl := hc.leads.det hi
  exact stands_of_statInode hout h

/-- `vfs_statx` returns without using a bad pointer and without keeping a reference. -/
def StatxOk (v : Vfs) (path : Where) (nofollow : Bool) : Prop :=
  ∃ fuel out, out ≠ StatOut.fault ∧ ∀ r, v.vfsStatx fuel path nofollow r = some (out, r)

def Where.Sound (v : Vfs) (nofollow : Bool) : Where → Prop
  | .absolute path => ∀ m rel d, v.vfsResolve path = some (m, rel) → m.root = some d →
      StatSound v nofollow d (segments rel)
  | .relative start rel => StatSound v nofollow start (segments rel)

theorem statxOk_iff {path : Where} : StatxOk v path nofollow ↔ path.Sound v nofollow := by
  cases path with
  | absolute path =>
    cases hres : v.vfsResolve path with
    | none =>
      refine iff_of_true ⟨0, .error Errno.ENOENT, by simp, fun r => ?_⟩ ?_
      · rw [vfsStatx, hres]
      · intro m rel d h
        cases hres.symm.trans h
    | some x =>
      obtain ⟨m, rel⟩ := x
      have hstat : ∀ fuel r, v.vfsStatx fuel (.absolute path) nofollow r =
          (v.pathWalk fuel m rel r).bind fun x => v.statInode fuel nofollow x.1 x.2 := by
        intro fuel r
        rw [vfsStatx, hres]
      constructor
      · rintro ⟨fuel, out, hout, h⟩ m' rel' d h' hd
        obtain ⟨rfl, rfl⟩ := mk.inj (some.inj (hres.symm.trans h'))
        have h0 := h 0
        rw [hstat] at h0
        obtain ⟨⟨o, r1⟩, ho, h0⟩ := bind_eq_some_iff.1 h0
        cases o with
        | fault => exact (hout (mk.inj (some.inj h0)).1.symm).elim
        | ptr p =>
          obtain ⟨res, rfl, -, ⟨hn, -⟩ | ⟨d', hd', hc⟩⟩ := pathWalk_spec v fuel m rel 0 p r1 ho
          · cases hd.symm.trans hn
          · obtain rfl := some.inj (hd.symm.trans hd')
            exact statSound_of_stat hc hout h0
      · intro h
        cases hd : m.root with
        | none =>
          refine ⟨1, .error Errno.ENOENT, by simp, fun r => ?_⟩
          rw [hstat, pathWalk, hd]
          rfl
        | some d =>
          have hs := h m rel d hres hd
          obtain ⟨res, hc⟩ := LinkWalk.clean_iff_sound.2 hs.1
          obtain ⟨f1, hf1⟩ := pathWalk_of_clean hd hc
          obtain ⟨f2, out, hout, hf2⟩ := stat_of_clean hc hs
          refine ⟨max f1 f2, out, hout, fun r => ?_⟩
          rw [hstat, hf1 _ (le_max_left _ _)]
          exact hf2 _ (le_max_right _ _) r
  | relative start rel =>
    have hstat : ∀ fuel r, v.vfsStatx fuel (.relative start rel) nofollow r =
        (v.walkLoop (v.pathWalk fuel) (segments rel) start 0
        (inodeGet start (inodeGet start r))).bind
          fun x => v.statInode fuel nofollow x.1 (inodePut start x.2) := fun _ _ => rfl
    constructor
    · rintro ⟨fuel, out, hout, h⟩
      have h0 := h 0
      obtain ⟨⟨o, r1⟩, ho, h0⟩ := bind_eq_some_iff.1 h0
      cases o with
      | fault => exact (hout (mk.inj (some.inj h0)).1.symm).elim
      | ptr p =>
        obtain ⟨res, rfl, -, hc⟩ := clean_of_walkLoop (pathWalk_spec v fuel) ho
        exact statSound_of_stat hc hout h0
    · intro hs
      obtain ⟨res, hc⟩ := LinkWalk.clean_iff_sound.2 hs.1
      obtain ⟨f1, hf1⟩ := walkLoop_of_clean hc
      obtain ⟨f2, out, hout, hf2⟩ := stat_of_clean hc hs
      refine ⟨max f1 f2, out, hout, fun r => ?_⟩
      rw [hstat, hf1 _ (le_max_left _ _), bind_some]
      dsimp only
      rw [inodePut_held]
      exact hf2 _ (le_max_right _ _) r

/-! ## Relative targets -/

/-- A path that does not start at the root. -/
def Relative (t : Text) : Prop := t.head? ≠ some '/'

/-- The mount at `/`. -/
def Vfs.rootMount (v : Vfs) : Option Mount :=
  v.mounts.find? fun m => !m.dying && decide (m.mntpoint = ['/'])

lemma betterMount_of_relative (ht : Relative t) {best : Option Mount} (m : Mount)
    (hbest : ∀ b, best = some b → b.mntpoint = ['/']) :
    betterMount t best m = best.or (if !m.dying && decide (m.mntpoint = ['/']) then some m else
    none) := by
  unfold betterMount
  by_cases hroot : m.mntpoint = ['/']
  · have hcov : m.covers t = true := by simp [Mount.covers, hroot]
    cases best with
    | none => simp [hcov, hroot]
    | some b => simp [hbest b rfl, hroot]
  · -- another mount point starts with a slash, so it is no prefix
    have hcov : m.covers t = false := by
      have habs := m.absolute
      cases hm : m.mntpoint with
      | nil => simp [hm] at habs
      | cons c mp =>
        rw [hm] at habs
        obtain rfl : c = '/' := by simpa using habs
        cases t with
        | nil => simp [Mount.covers, hm] at hroot ⊢; exact hroot
        | cons d t =>
          have hd : d ≠ '/' := fun hd => ht (by simp [hd])
          simp [Mount.covers, hm, hd.symm] at hroot ⊢
          exact hroot
    simp [hcov, hroot]

lemma foldl_betterMount (ht : Relative t) (ms : List Mount) (best : Option Mount)
    (hbest : ∀ b, best = some b → b.mntpoint = ['/']) :
    ms.foldl (betterMount t) best =
      best.or (ms.find? fun m => !m.dying && decide (m.mntpoint = ['/'])) := by
  induction ms generalizing best with
  | nil => simp
  | cons m ms ih =>
    rw [foldl_cons, betterMount_of_relative ht m hbest, ih, find?_cons]
    · cases best with
      | some b => simp
      | none => cases (!m.dying && decide (m.mntpoint = ['/'])) <;> simp
    · intro b hb
      cases best with
      | some b' => exact hbest b (by simpa using hb)
      | none =>
        obtain ⟨⟨-, hm⟩, rfl⟩ : (m.dying = false ∧ m.mntpoint = ['/']) ∧ m = b := by simpa using hb
        exact hm

/-- `vfs_resolve` takes a relative target to the root mount, without its first character. -/
theorem vfsResolve_relative (ht : Relative t) :
    v.vfsResolve t = v.rootMount.map fun m =>
      (m, relpathOf (if t = [] then v.junk else t.tail)) := by
  unfold vfsResolve
  rw [foldl_betterMount ht v.mounts none (fun _ h => nomatch h), none_or]
  unfold rootMount
  cases hfind : v.mounts.find? fun m => !m.dying && decide (m.mntpoint = ['/']) with
  | none => rfl
  | some m =>
    have hm := find?_some hfind
    have hroot : m.mntpoint = ['/'] := by
      simp only [Bool.and_eq_true, decide_eq_true_eq] at hm
      exact hm.2
    cases t with
    | nil => simp [hroot]
    | cons c t => simp [hroot]

def Reaches (f : ℕ → Refs → Option (Out × Refs)) (i : ℕ) : Prop :=
  ∃ fuel r r', f fuel r = some (.ptr (.inode i), r')

def LeadsTo (v : Vfs) (m : Mount) (rel : Text) (i : ℕ) : Prop :=
  ∃ d, m.root = some d ∧ Sound v.graph symlinkMax d 0 (segments rel) ∧
    Leads v.graph symlinkMax d 0 (segments rel) (some i)

lemma reaches_pathWalk_iff : Reaches (fun fuel => v.pathWalk fuel m rel) i ↔ LeadsTo v m rel i := by
  constructor
  · rintro ⟨fuel, r, r', h⟩
    obtain ⟨res, hp, -, hroot⟩ := pathWalk_spec v fuel m rel r _ r' h
    cases res with
    | none => exact nomatch hp
    | some j =>
      obtain rfl : i = j := Ptr.inode.inj hp
      obtain ⟨-, hn⟩ | ⟨d, hd, hc⟩ := hroot
      · exact nomatch hn
      · exact ⟨d, hd, hc.sound, hc.leads⟩
  · rintro ⟨d, hd, hs, hl⟩
    obtain ⟨f0, hf⟩ := pathWalk_of_clean hd (hl.clean hs)
    exact ⟨f0, 0, _, hf f0 le_rfl 0⟩

lemma reaches_vfsOpenKern_iff {path : Text} :
    Reaches (fun fuel => v.vfsOpenKern fuel path) i ↔
      ∃ m rel, v.vfsResolve path = some (m, rel) ∧ LeadsTo v m rel i := by
  unfold vfsOpenKern
  cases hres : v.vfsResolve path with
  | none => exact iff_of_false (fun ⟨_, _, _, h⟩ => nomatch h) fun ⟨_, _, h, _⟩ => nomatch h
  | some x =>
    refine reaches_pathWalk_iff.trans ⟨fun h => ⟨x.1, x.2, rfl, h⟩, ?_⟩
    rintro ⟨m, rel, h, hl⟩
    obtain rfl := some.inj h
    exact hl

lemma reaches_followSymlink_iff {l : ℕ} (hl : v.node l = .lnk (some t))
    (hlen : t.length < pathMax) :
    Reaches (fun fuel => v.followSymlink (v.pathWalk fuel) l 0) i ↔
      ∃ m rel, v.vfsResolve t = some (m, rel) ∧ LeadsTo v m rel i := by
  rw [← reaches_vfsOpenKern_iff]
  unfold followSymlink vfsOpenKern
  rw [hl]
  simp only [if_neg (show ¬symlinkMax < 0 + 1 by decide), if_neg (Nat.not_le_of_lt hlen)]
  cases v.vfsResolve t with
  | none => exact iff_of_false (fun ⟨_, _, _, h⟩ => nomatch h) fun ⟨_, _, _, h⟩ => nomatch h
  | some x => exact reaches_pathWalk_iff.trans reaches_pathWalk_iff.symm

/-- Every relative link target resolves to the same inode as `/` followed by the target. -/
def RelativeOk (v : Vfs) : Prop :=
  ∀ l t, v.node l = .lnk (some t) → t.length < pathMax → Relative t → ∀ i,
    Reaches (fun fuel => v.followSymlink (v.pathWalk fuel) l 0) i ↔
      Reaches (fun fuel => v.vfsOpenKern fuel ('/' :: t)) i

/-- Every relative link target leads, without its first character and from the root mount, to the
same inode as `/` followed by the target. -/
def RelativeSame (v : Vfs) : Prop :=
  ∀ l t, v.node l = .lnk (some t) → t.length < pathMax → Relative t → ∀ i,
    (∃ m, v.rootMount = some m ∧
      LeadsTo v m (relpathOf (if t = [] then v.junk else t.tail)) i) ↔
      ∃ m rel, v.vfsResolve ('/' :: t) = some (m, rel) ∧ LeadsTo v m rel i

theorem relativeOk_iff : RelativeOk v ↔ RelativeSame v := by
  refine forall₅_congr fun l t hl hlen ht => forall_congr' fun i => ?_
  rw [reaches_followSymlink_iff hl hlen, reaches_vfsOpenKern_iff, vfsResolve_relative ht]
  refine iff_congr ?_ Iff.rfl
  constructor
  · rintro ⟨m, rel, h, hl⟩
    obtain ⟨m', hm, h⟩ := map_eq_some_iff.1 h
    obtain ⟨rfl, rfl⟩ := mk.inj h
    exact ⟨m', hm, hl⟩
  · rintro ⟨m, hm, hl⟩
    exact ⟨m, _, by rw [hm, map_some], hl⟩

/-! ## Path resolution -/

/-- For every structure of directories and links and every path: the walks return a referenced
inode or `NULL`, and `vfs_statx` handles what they return, exactly when every link to be followed
stands for an inode; and relative targets resolve as from the root exactly when the loss of their
first character makes no difference. -/
theorem path_resolution_safe_iff (v : Vfs) (m : Mount) (start : ℕ) (rel : Text) (path : Where)
    (nofollow : Bool) :
    (WalkOk v m rel ↔ ∀ d, m.root = some d → Sound v.graph symlinkMax d 0 (segments rel)) ∧
    (WalkFromOk v start rel ↔ Sound v.graph symlinkMax start 0 (segments rel)) ∧
    (StatxOk v path nofollow ↔ path.Sound v nofollow) ∧
    (RelativeOk v ↔ RelativeSame v) :=
  ⟨walkOk_iff, walkFromOk_iff, statxOk_iff, relativeOk_iff⟩

/-- A tmpfs at `/run` with a link that goes through itself, a dangling link and a relative one:
`/run/a -> /run/a/b`, `/run/d -> /run/n`, `/run/r -> run/x`, and the file `/run/x`. -/
def runMount : Mount := ⟨['/', 'r', 'u', 'n'], some 1, false, rfl⟩

def threeLinks : Vfs where
  node
    | 0 => .dir [(['r', 'u', 'n'], 6)]
    | 1 => .dir [(['a'], 2), (['d'], 3), (['r'], 4), (['x'], 5)]
    | 2 => .lnk (some ['/', 'r', 'u', 'n', '/', 'a', '/', 'b'])
    | 3 => .lnk (some ['/', 'r', 'u', 'n', '/', 'n'])
    | 4 => .lnk (some ['r', 'u', 'n', '/', 'x'])
    | 5 => .file
    | _ => .dir []
  mounts := [⟨['/'], some 0, false, rfl⟩, runMount]
  junk := []

/-- The walk of `a/y` never returns, the walk of `d/y` and `vfs_statx` of `/run/d` use `NULL`, and
the relative link resolves to nothing where `/run/x` resolves to the file. -/
theorem walks_for_ever_or_through_null :
    (∀ fuel r, threeLinks.pathWalk fuel runMount ['a', '/', 'y'] r = none) ∧
    (threeLinks.pathWalk 3 runMount ['d', '/', 'y'] 0).map fst = some .fault ∧
    (threeLinks.vfsStatx 3 (.absolute ['/', 'r', 'u', 'n', '/', 'd']) false 0).map fst =
      some .fault ∧
    (threeLinks.followSymlink (threeLinks.pathWalk 3) 4 0 0).map fst = some (.ptr .null) ∧
    (threeLinks.vfsOpenKern 3 ['/', 'r', 'u', 'n', '/', 'x'] 0).map fst =
      some (.ptr (.inode 5)) := by
  refine ⟨?_, by decide +kernel, by decide +kernel, by decide +kernel, by decide +kernel⟩
  -- the target of the link is a path through the link again
  have hfollow : ∀ walk r, threeLinks.followSymlink walk 2 0 r = walk runMount ['a', '/', 'b'] r :=
    fun _ _ => rfl
  have hstep : ∀ fuel rel x r, segments rel = [['a'], x] →
      threeLinks.pathWalk fuel runMount ['a', '/', 'b'] (inodeGet 2 r) = none →
      threeLinks.pathWalk (fuel + 1) runMount rel r = none := by
    intro fuel rel x r hrel hnone
    change threeLinks.walkLoop (threeLinks.pathWalk fuel) (segments rel) 1 0 (inodeGet 1 r) = none
    rw [hrel, walkLoop_link (w := 2) (by decide) rfl (by simp) rfl, hfollow, hnone, bind_none]
  have hloop : ∀ fuel r, threeLinks.pathWalk fuel runMount ['a', '/', 'b'] r = none := by
    intro fuel
    induction fuel with
    | zero => exact fun _ => rfl
    | succ fuel ih => exact fun r => hstep fuel _ ['b'] r (by decide) (ih _)
  intro fuel r
  cases fuel with
  | zero => rfl
  | succ fuel => exact hstep fuel _ ['y'] r (by decide) (hloop fuel _)

end XosKernel.PathWalk
