/-
# Record locks

`find_conflict`, `locks_delete_range`, `locks_insert`, `apply_lock`, `do_fcntl_lock`,
`do_fcntl_lock_ofd` and the release functions of `bsd/file_lock.c`, for one inode. POSIX locks
belong to a pid and OFD locks to an open file description; the two classes share the list.

What the locks are for is a partial function: each owner has at each byte no lock, a read lock
or a write lock. The list is a list of segments of that function, and each operation that is
granted changes the function of its owner on its range and nowhere else. An operation that
blocks is granted by a later attempt, so each attempt stands for itself.
-/
import XosKernel.Lib.Run
import XosKernel.Lib.Segments
import XosKernel.Mem.Layout

namespace XosKernel.FileLock

open Except

inductive LockType
  | rdlck
  | wrlck
deriving DecidableEq

/-- `l_type`: a lock, or `F_UNLCK`. -/
inductive LockOp
  | lock (type : LockType)
  | unlck
deriving DecidableEq

/-- `struct file_lock`; a file is its address, and `0` is `NULL`. -/
structure Lock where
  ownerPid : ℕ
  ownerFile : ℕ
  isOfd : Bool
  isBsd : Bool
  type : LockType
  start : ℕ
  /-- exclusive; `FLOCK_END_EOF` is without end -/
  stop : ℕ
deriving DecidableEq

/-- The pid, the description and the class that a call passes down. -/
structure Caller where
  pid : ℕ
  file : ℕ
  isOfd : Bool
deriving DecidableEq

def flockEndEof : ℕ := 2 ^ 64 - 1

def flockEnd (start len : ℕ) : ℕ := if len = 0 then flockEndEof else (start + len) % 2 ^ 64

def Lock.sameOwner (fl : Lock) (c : Caller) : Bool :=
  fl.isOfd == c.isOfd && if c.isOfd then fl.ownerFile == c.file else fl.ownerPid == c.pid

def findConflict (l : List Lock) (c : Caller) (type : LockType) (start stop : ℕ) : Option Lock :=
  l.find? fun fl =>
    !fl.isBsd && !fl.sameOwner c && !(fl.type == .rdlck && type == .rdlck) &&
      decide (fl.start < stop ∧ start < fl.stop)

/-- The lock is one that `locks_delete_range` takes out. -/
def Lock.hit (c : Caller) (start stop : ℕ) (fl : Lock) : Bool :=
  !fl.isBsd && fl.sameOwner c && !decide (fl.stop ≤ start ∨ stop ≤ fl.start)

/-- What is put back of a lock that was taken out. -/
def Lock.rest (c : Caller) (start stop : ℕ) (fl : Lock) : List Lock :=
  (if fl.start < start then [⟨c.pid, c.file, c.isOfd, false, fl.type, fl.start, start⟩] else []) ++
    (if stop < fl.stop then [⟨c.pid, c.file, c.isOfd, false, fl.type, stop, fl.stop⟩] else [])

/-- The pieces are pushed at the end of the list that is being walked; the walk passes over
them, since they do not overlap the range. -/
def locksDeleteRange (l : List Lock) (c : Caller) (start stop : ℕ) : List Lock :=
  l.filter (fun fl => !fl.hit c start stop) ++
    (l.filter (Lock.hit c start stop)).flatMap (Lock.rest c start stop)

def locksInsert (l : List Lock) (c : Caller) (type : LockType) (start stop : ℕ) : List Lock :=
  locksDeleteRange l c start stop ++ [⟨c.pid, c.file, c.isOfd, false, type, start, stop⟩]

/-- One attempt of `apply_lock` under `i_flock_lock`. -/
def applyLock (l : List Lock) (c : Caller) (op : LockOp) (start stop : ℕ) :
    Except Errno (List Lock) :=
  match op with
  | .unlck => .ok (locksDeleteRange l c start stop)
  | .lock type =>
    match findConflict l c type start stop with
    | none => .ok (locksInsert l c type start stop)
    | some _ => .error .EAGAIN

/-- The byte range of a request; `base` is what `l_whence` stands for. -/
def resolveRange (base : ℕ) (lStart lLen : ℤ) : Except Errno (ℕ × ℕ) :=
  if lStart < 0 then .error .EINVAL
  else
    let start := (base + lStart.toNat) % 2 ^ 64
    let stop := flockEnd start (lLen % 2 ^ 64).toNat
    if stop < start then .error .EINVAL else .ok (start, stop)

/-- `do_fcntl_lock` and `do_fcntl_lock_ofd` for the setting commands. -/
def doFcntlLock (l : List Lock) (c : Caller) (op : LockOp) (base : ℕ) (lStart lLen : ℤ) :
    Except Errno (List Lock) :=
  match resolveRange base lStart lLen with
  | .error e => .error e
  | .ok (start, stop) => applyLock l c op start stop

def releasePidOnInode (l : List Lock) (pid : ℕ) : List Lock :=
  l.filter fun fl => !(!fl.isOfd && fl.ownerPid == pid)

def fileLockReleaseFile (l : List Lock) (file : ℕ) : List Lock :=
  l.filter fun fl => !(fl.ownerFile == file && (fl.isOfd || fl.isBsd))

/-! ## The operations -/

inductive Act
  | posix (pid : ℕ) (op : LockOp) (base : ℕ) (lStart lLen : ℤ)
  | ofd (pid file : ℕ) (op : LockOp) (base : ℕ) (lStart lLen : ℤ)
  | releasePid (pid : ℕ)
  | releaseFile (file : ℕ)
deriving DecidableEq

/-- The list after an operation that is granted. -/
def perform (l : List Lock) : Act → Except Errno (List Lock)
  | .posix pid op base lStart lLen => doFcntlLock l ⟨pid, 0, false⟩ op base lStart lLen
  | .ofd pid file op base lStart lLen => doFcntlLock l ⟨pid, file, true⟩ op base lStart lLen
  | .releasePid pid => .ok (releasePidOnInode l pid)
  | .releaseFile file => .ok (fileLockReleaseFile l file)

/-- An operation that is refused leaves the list alone. -/
def step (l : List Lock) (a : Act) : Option (List Lock) :=
  match perform l a with
  | .ok l' => some l'
  | .error _ => some l

/-! ## The locks as a partial function -/

inductive Owner
  | posix (pid : ℕ)
  | ofd (file : ℕ)
deriving DecidableEq

def Lock.owner (fl : Lock) : Owner := if fl.isOfd then .ofd fl.ownerFile else .posix fl.ownerPid

def Caller.owner (c : Caller) : Owner := if c.isOfd then .ofd c.file else .posix c.pid

def Lock.seg (fl : Lock) : Seg Owner LockType ℕ := ⟨fl.owner, fl.type, fl.start, fl.stop⟩

/-- The lock that an owner has at a byte. -/
def lockMap (l : List Lock) : Owner → ℕ → Option LockType := Seg.view (l.map Lock.seg)

def LockOp.value : LockOp → Option LockType
  | .lock type => some type
  | .unlck => none

def setRange (m : Owner → ℕ → Option LockType) (o : Owner) (op : LockOp)
    (range : Except Errno (ℕ × ℕ)) : Owner → ℕ → Option LockType :=
  match range with
  | .error _ => m
  | .ok (start, stop) => fun o' b => if o' = o ∧ start ≤ b ∧ b < stop then op.value else m o' b

/-- What an operation does to the partial function. -/
def Act.effect (m : Owner → ℕ → Option LockType) : Act → Owner → ℕ → Option LockType
  | .posix pid op base lStart lLen => setRange m (.posix pid) op (resolveRange base lStart lLen)
  | .ofd _ file op base lStart lLen => setRange m (.ofd file) op (resolveRange base lStart lLen)
  | .releasePid pid => fun o b => if o = .posix pid then none else m o b
  | .releaseFile file => fun o b => if o = .ofd file then none else m o b

/-! ## The list implements the segments -/

variable {l l' : List Lock} {c : Caller} {fl : Lock} {start stop : ℕ}

lemma sameOwner_iff : fl.sameOwner c = true ↔ fl.owner = c.owner := by
  rw [Lock.sameOwner, Lock.owner, Caller.owner, Bool.and_eq_true, beq_iff_eq]
  cases fl.isOfd <;> cases c.isOfd <;> simp

lemma hit_iff (hbsd : fl.isBsd = false) :
    fl.hit c start stop = true ↔ fl.seg.key = c.owner ∧ fl.seg.Meets start stop := by
  rw [Lock.hit, hbsd, Bool.not_false, Bool.true_and, Bool.and_eq_true, sameOwner_iff,
    Bool.not_eq_true', decide_eq_false_iff_not, not_or, not_le, not_le]
  rfl

lemma map_seg_rest (howner : fl.owner = c.owner) :
    (fl.rest c start stop).map Lock.seg = fl.seg.residuals start stop := by
  have hseg : ∀ (type : LockType) (a b : ℕ),
      Lock.seg ⟨c.pid, c.file, c.isOfd, false, type, a, b⟩ = ⟨fl.owner, type, a, b⟩ := by
    intro type a b
    rw [Lock.seg, howner]
    rfl
  rw [Lock.rest, Seg.residuals, List.map_append]
  congr 1
  · rw [apply_ite (List.map Lock.seg), List.map_singleton, hseg]
    rfl
  · rw [apply_ite (List.map Lock.seg), List.map_singleton, hseg]
    rfl

def NoBsd (l : List Lock) : Prop := ∀ fl ∈ l, fl.isBsd = false

lemma map_seg_locksDeleteRange (hl : NoBsd l) :
    (locksDeleteRange l c start stop).map Lock.seg =
      Seg.clear c.owner start stop (l.map Lock.seg) := by
  have hcongr : ∀ fl ∈ l, fl.hit c start stop =
      decide (fl.seg.key = c.owner ∧ fl.seg.Meets start stop) := by
    intro fl hfl
    rw [Bool.eq_iff_iff, decide_eq_true_eq]
    exact hit_iff (hl fl hfl)
  rw [locksDeleteRange, Seg.clear, List.map_append, List.filter_map, List.filter_map]
  congr 1
  · refine congrArg _ (List.filter_congr fun fl hfl => ?_)
    rw [hcongr fl hfl, Function.comp_apply, decide_not]
  · rw [List.map_flatMap, List.flatMap_map, List.filter_congr hcongr]
    refine List.flatMap_congr fun fl hfl => map_seg_rest ?_
    exact (of_decide_eq_true (List.mem_filter.1 hfl).2).1

lemma map_seg_locksInsert (hl : NoBsd l) (type : LockType) :
    (locksInsert l c type start stop).map Lock.seg =
      Seg.put c.owner type start stop (l.map Lock.seg) := by
  rw [locksInsert, List.map_append, map_seg_locksDeleteRange hl]
  rfl

lemma resolveRange_le {base : ℕ} {lStart lLen : ℤ}
    (h : resolveRange base lStart lLen = .ok (start, stop)) : start ≤ stop := by
  rw [resolveRange] at h
  by_cases hneg : lStart < 0
  · rw [if_pos hneg] at h
    cases h
  dsimp only at h
  split_ifs at h with hlt
  obtain ⟨rfl, rfl⟩ := Prod.mk.inj (ok.inj h)
  exact not_lt.1 hlt

/-! ## The range of a request -/

/-- The range that `l_start` and `l_len` mean: without end if the length is zero, and the bytes
before the start if it is negative. -/
def meantRange (base : ℕ) (lStart lLen : ℤ) : ℤ × ℤ :=
  let s := base + lStart
  if lLen = 0 then (s, flockEndEof) else (min s (s + lLen), max s (s + lLen))

/-- The range, unless it starts below zero or overflows. -/
def requestedRange (base : ℕ) (lStart lLen : ℤ) : Except Errno (ℕ × ℕ) :=
  let r := meantRange base lStart lLen
  if r.1 < 0 ∨ flockEndEof < max r.1 r.2 then .error .EINVAL else .ok (r.1.toNat, r.2.toNat)

/-- Neither value is negative and the start does not wrap around; or the range is one to refuse and
the code refuses it for another reason: a negative start, or a sum that wraps around twice. -/
def RangeFits (base : ℕ) (lStart lLen : ℤ) : Prop :=
  if lStart < 0 then base + lStart + min lLen 0 < 0 ∨ flockEndEof < base + lStart + max lLen 0
  else if lLen < 0 then 2 ^ 64 ≤ base + lStart + lLen
  else base + lStart < 2 ^ 64

/-- The requests whose range is resolved as it is meant. -/
theorem resolveRange_eq_iff {base : ℕ} {lStart lLen : ℤ} (hbase : base < 2 ^ 64)
    (hstart : -2 ^ 63 ≤ lStart ∧ lStart < 2 ^ 63) (hlen : -2 ^ 63 ≤ lLen ∧ lLen < 2 ^ 63) :
    resolveRange base lStart lLen = requestedRange base lStart lLen ↔
    RangeFits base lStart lLen := by
  unfold resolveRange requestedRange meantRange RangeFits flockEnd flockEndEof
  rcases lt_or_ge lStart 0 with hneg | hneg
  · -- refused because of the start
    rcases eq_or_ne lLen 0 with rfl | hne
    · simp only [hneg, if_true]
      split_ifs <;> simp <;> omega
    · simp only [hneg, hne, if_true, if_false]
      split_ifs <;> simp <;> omega
  rcases lt_trichotomy lLen 0 with hlt | rfl | hgt
  · simp only [hlt, hlt.ne, if_true, if_false]
    split_ifs <;> simp <;> omega
  · simp only [if_true, lt_irrefl, if_false]
    split_ifs <;> simp <;> omega
  · simp only [hgt.ne', not_lt.2 hgt.le, if_false]
    split_ifs <;> simp <;> omega

/-- The bytes `[15, 35)` after an offset of ten. -/
theorem resolveRange_eq_plain : resolveRange 10 5 20 = requestedRange 10 5 20 :=
  (resolveRange_eq_iff (by decide) (by decide) (by decide)).2 (by simp [RangeFits])

/-- The byte before the file, which is not refused: the whole file is locked. -/
theorem negative_length_locks_file :
    resolveRange 0 0 (-1) = .ok (0, flockEndEof) ∧ requestedRange 0 0 (-1) = .error .EINVAL :=
  ⟨rfl, rfl⟩

/-! ## The invariant -/

/-- Two overlapping locks of different owners are both read locks. -/
def Exclusive (l : List Lock) : Prop :=
  ∀ fl ∈ l, ∀ gl ∈ l, fl.owner ≠ gl.owner → ∀ b, fl.seg.Covers b → gl.seg.Covers b →
    fl.type = .rdlck ∧ gl.type = .rdlck

structure Inv (l : List Lock) : Prop where
  noBsd : NoBsd l
  disjoint : Seg.Disjoint (l.map Lock.seg)
  exclusive : Exclusive l

lemma Inv.nil : Inv [] := ⟨by simp [NoBsd], List.Pairwise.nil, by simp [Exclusive]⟩

lemma mem_rest {gl : Lock} (h : gl ∈ fl.rest c start stop) : gl.isBsd = false := by
  rw [Lock.rest, List.mem_append] at h
  rcases h with h | h
  · split_ifs at h
    · rw [List.mem_singleton.1 h]
    · cases h
  · split_ifs at h
    · rw [List.mem_singleton.1 h]
    · cases h

lemma NoBsd.locksDeleteRange (hl : NoBsd l) : NoBsd (locksDeleteRange l c start stop) := by
  intro fl hfl
  rcases List.mem_append.1 hfl with hfl | hfl
  · exact hl fl (List.mem_filter.1 hfl).1
  · obtain ⟨gl, -, hgl⟩ := List.mem_flatMap.1 hfl
    exact mem_rest hgl

lemma exists_of_mem_locksDeleteRange (hl : NoBsd l) (h : fl ∈ locksDeleteRange l c start stop) :
    ∃ gl ∈ l, fl.owner = gl.owner ∧ fl.type = gl.type ∧ ∀ b, fl.seg.Covers b → gl.seg.Covers b := by
  have hmem : fl.seg ∈ Seg.clear c.owner start stop (l.map Lock.seg) := by
    rw [← map_seg_locksDeleteRange hl]
    exact List.mem_map_of_mem h
  obtain ⟨g, hg, hkey, hval, hcov⟩ := Seg.exists_of_mem_clear hmem
  obtain ⟨gl, hgl, rfl⟩ := List.mem_map.1 hg
  exact ⟨gl, hgl, hkey, hval, hcov⟩

lemma Inv.locksDeleteRange (h : Inv l) (hle : start ≤ stop) :
    Inv (locksDeleteRange l c start stop) where
  noBsd := h.noBsd.locksDeleteRange
  disjoint := by
    rw [map_seg_locksDeleteRange h.noBsd]
    exact h.disjoint.clear hle
  exclusive := by
    intro fl hfl gl hgl hne b hfb hgb
    obtain ⟨fl', hfl', hfo, hft, hfc⟩ := exists_of_mem_locksDeleteRange h.noBsd hfl
    obtain ⟨gl', hgl', hgo, hgt, hgc⟩ := exists_of_mem_locksDeleteRange h.noBsd hgl
    rw [hft, hgt]
    exact h.exclusive fl' hfl' gl' hgl' (hfo ▸ hgo ▸ hne) b (hfc b hfb) (hgc b hgb)

lemma findConflict_none {type : LockType} (hl : NoBsd l)
    (h : findConflict l c type start stop = none) (hfl : fl ∈ l) (howner : fl.owner ≠ c.owner)
    {b : ℕ} (hb : fl.seg.Covers b) (hstart : start ≤ b) (hstop : b < stop) :
    fl.type = .rdlck ∧ type = .rdlck := by
  have hnot := List.find?_eq_none.1 h fl hfl
  have hover : fl.start < stop ∧ start < fl.stop := ⟨hb.1.trans_lt hstop, hstart.trans_lt hb.2⟩
  have hother : fl.sameOwner c = false := Bool.eq_false_iff.2 fun hs => howner (sameOwner_iff.1 hs)
  rw [hl fl hfl, hother, decide_eq_true hover] at hnot
  simpa using hnot

lemma Inv.locksInsert (h : Inv l) (hle : start ≤ stop) {type : LockType}
    (hnone : findConflict l c type start stop = none) :
    Inv (locksInsert l c type start stop) where
  noBsd := by
    intro fl hfl
    rcases List.mem_append.1 hfl with hfl | hfl
    · exact h.noBsd.locksDeleteRange fl hfl
    · rw [List.mem_singleton.1 hfl]
  disjoint := by
    rw [map_seg_locksInsert h.noBsd]
    exact h.disjoint.put hle
  exclusive := by
    -- the new lock against an old one
    have hnew : ∀ gl ∈ FileLock.locksDeleteRange l c start stop, gl.owner ≠ c.owner →
        ∀ b, start ≤ b → b < stop → gl.seg.Covers b → gl.type = .rdlck ∧ type = .rdlck := by
      intro gl hgl hne b hsb hbs hgb
      obtain ⟨gl', hgl', hgo, hgt, hgc⟩ := exists_of_mem_locksDeleteRange h.noBsd hgl
      rw [hgt]
      exact findConflict_none h.noBsd hnone hgl' (hgo ▸ hne) (hgc b hgb) hsb hbs
    intro fl hfl gl hgl hne b hfb hgb
    rcases List.mem_append.1 hfl with hfl | hfl <;> rcases List.mem_append.1 hgl with hgl | hgl
    · exact (h.locksDeleteRange hle).exclusive fl hfl gl hgl hne b hfb hgb
    · obtain rfl := List.mem_singleton.1 hgl
      exact hnew fl hfl hne b hgb.1 hgb.2 hfb
    · obtain rfl := List.mem_singleton.1 hfl
      exact (hnew gl hgl hne.symm b hfb.1 hfb.2 hgb).symm
    · rw [List.mem_singleton.1 hfl, List.mem_singleton.1 hgl] at hne
      exact absurd rfl hne

lemma Inv.filter (h : Inv l) (p : Lock → Bool) : Inv (l.filter p) where
  noBsd := fun fl hfl => h.noBsd fl (List.mem_filter.1 hfl).1
  disjoint := h.disjoint.sublist (List.filter_sublist.map _)
  exclusive := fun fl hfl gl hgl =>
    h.exclusive fl (List.mem_filter.1 hfl).1 gl (List.mem_filter.1 hgl).1

/-! ## Each operation does what it should -/

/-- A granted request: the invariant, and its effect on the partial function. -/
lemma doFcntlLock_spec (h : Inv l) {op : LockOp} {base : ℕ} {lStart lLen : ℤ}
    (hok : doFcntlLock l c op base lStart lLen = .ok l') :
    Inv l' ∧ lockMap l' = setRange (lockMap l) c.owner op (resolveRange base lStart lLen) := by
  rw [doFcntlLock] at hok
  cases hrange : resolveRange base lStart lLen with
  | error e =>
    rw [hrange] at hok
    cases hok
  | ok range =>
    obtain ⟨start, stop⟩ := range
    have hle := resolveRange_le hrange
    rw [hrange] at hok
    dsimp only at hok
    cases op with
    | unlck =>
      obtain rfl := ok.inj hok
      refine ⟨h.locksDeleteRange hle, ?_⟩
      rw [lockMap, map_seg_locksDeleteRange h.noBsd, Seg.view_clear h.disjoint hle]
      rfl
    | lock type =>
      rw [applyLock] at hok
      cases hconf : findConflict l c type start stop with
      | some fl =>
        simp only [hconf, reduceCtorEq] at hok
      | none =>
        simp only [hconf, ok.injEq] at hok
        subst hok
        refine ⟨h.locksInsert hle hconf, ?_⟩
        rw [lockMap, map_seg_locksInsert h.noBsd, Seg.view_put h.disjoint hle]
        rfl

lemma lockMap_filter_owner (h : Inv l) (p : Lock → Bool) (o : Owner)
    (hp : ∀ fl ∈ l, p fl = decide (fl.owner ≠ o)) :
    lockMap (l.filter p) = fun o' b => if o' = o then none else lockMap l o' b := by
  have hmap : (l.filter p).map Lock.seg = (l.map Lock.seg).filter fun g => decide (g.key ≠ o) := by
    rw [List.filter_map, List.filter_congr hp]
    rfl
  rw [lockMap, hmap, Seg.view_filter_key h.disjoint fun k => decide (k ≠ o)]
  funext o' b
  by_cases ho : o' = o
  · rw [if_neg (by simpa using ho), if_pos ho]
  · rw [if_pos (decide_eq_true ho), if_neg ho]
    rfl

lemma perform_spec (h : Inv l) {a : Act} (hok : perform l a = .ok l') :
    Inv l' ∧ lockMap l' = a.effect (lockMap l) := by
  cases a with
  | posix pid op base lStart lLen | ofd pid file op base lStart lLen => exact doFcntlLock_spec h hok
  | releasePid pid =>
    obtain rfl := ok.inj hok
    refine ⟨h.filter _, lockMap_filter_owner h _ (.posix pid) fun fl hfl => ?_⟩
    rw [Lock.owner, beq_eq_decide]
    cases fl.isOfd <;> simp
  | releaseFile file =>
    obtain rfl := ok.inj hok
    refine ⟨h.filter _, lockMap_filter_owner h _ (.ofd file) fun fl hfl => ?_⟩
    rw [Lock.owner, h.noBsd fl hfl, beq_eq_decide]
    cases fl.isOfd <;> simp

lemma Inv.step (h : Inv l) {a : Act} (hs : step l a = some l') : Inv l' := by
  rw [FileLock.step] at hs
  cases hok : perform l a with
  | error e =>
    simp only [hok, Option.some.injEq] at hs
    exact hs ▸ h
  | ok l'' =>
    simp only [hok, Option.some.injEq] at hs
    exact hs ▸ (perform_spec h hok).1

/-- **Record locks.**  After every sequence of operations no two overlapping locks of different
owners are held with one of them a write lock, the locks of one owner are disjoint, and the
next operation, if it is granted, changes exactly its owner's locks on exactly its range. -/
theorem record_locks_refine (acts : List Act) (l : List Lock)
    (hexec : exec step [] acts = some l) :
    Exclusive l ∧ Seg.Disjoint (l.map Lock.seg) ∧
      ∀ a l', perform l a = .ok l' → lockMap l' = a.effect (lockMap l) := by
  have h : Inv l := exec_invariant (fun _ _ _ h hs => h.step hs) Inv.nil hexec
  exact ⟨h.exclusive, h.disjoint, fun a l' hok => (perform_spec h hok).2⟩

/-- A write lock on `[0, 100)`, a hole unlocked in it, and another owner's lock in the hole. -/
def splitRun : List Act :=
  [.posix 1 (.lock .wrlck) 0 0 100, .posix 1 .unlck 0 40 20, .ofd 2 7 (.lock .rdlck) 0 45 5]

theorem record_locks_refine_split :
    exec step [] splitRun = some
        [⟨1, 0, false, false, .wrlck, 0, 40⟩, ⟨1, 0, false, false, .wrlck, 60, 100⟩,
          ⟨2, 7, true, false, .rdlck, 45, 50⟩] ∧
      ∀ l, exec step [] splitRun = some l → Exclusive l ∧ Seg.Disjoint (l.map Lock.seg) ∧
        ∀ a l', perform l a = .ok l' → lockMap l' = a.effect (lockMap l) :=
  ⟨by decide +kernel, fun l hexec => record_locks_refine splitRun l hexec⟩

end XosKernel.FileLock
