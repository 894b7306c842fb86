/-
# The life of a lock

`do_flock`, and `file_put` and `proc_reap` as far as they concern the locks of one inode: a
description has a count of references and goes with the last one. A pid is that of a process with
one thread: `proc_reap` of a further thread is not covered. Then `apply_lock` and `do_flock`
with a `kmalloc` that can fail.
-/
import XosKernel.Fs.FileLock

namespace XosKernel.FileLock

def bsdFlockConflict (l : List Lock) (file : ℕ) (type : LockType) : Option Lock :=
  l.find? fun fl => fl.isBsd && !(fl.ownerFile == file) && !(fl.type == .rdlck && type == .rdlck)

def bsdFlockDrop (l : List Lock) (file : ℕ) : List Lock :=
  l.filter fun fl => !(fl.isBsd && fl.ownerFile == file)

/-- What a call returns, `none` for zero, and the list it leaves. -/
abbrev Reply := Option Errno × List Lock

/-- One attempt of `do_flock` under `i_flock_lock`. A conflict ends in `refusal`: `EAGAIN`, or for a
call that waits `ERESTART` or `ENOMEM`. -/
def doFlock (kmalloc : Bool) (refusal : Errno) (l : List Lock) (pid file : ℕ) : LockOp → Reply
  | .unlck => (none, bsdFlockDrop l file)
  | .lock type =>
    match bsdFlockConflict l file type with
    | some _ => (some refusal, l)
    | none =>
      if kmalloc then
        (none, bsdFlockDrop l file ++ [⟨pid, file, false, true, type, 0, flockEndEof⟩])
      else (some .ENOMEM, bsdFlockDrop l file)

/-! ## References -/

/-- The list, and `f_count` of each description. -/
structure Files where
  locks : List Lock
  count : ℕ → ℕ

def filePut (s : Files) (file : ℕ) : Files where
  locks := if s.count file = 1 then fileLockReleaseFile s.locks file else s.locks
  count := Function.update s.count file (s.count file - 1)

/-- What takes references away: a descriptor that is closed in a process, with the references of
the epoll interests that go with it; the end of a process, with its whole table, or nothing of it
if others share the table; and a reference that no process holds. -/
inductive Drop
  | close (pid : ℕ) (files : List ℕ)
  | reap (pid : ℕ) (files : List ℕ)
  | put (files : List ℕ)

def Drop.files : Drop → List ℕ
  | .close _ files | .reap _ files | .put files => files

/-- The process that closes the file. -/
def Drop.closer : Drop → Option ℕ
  | .close pid _ | .reap pid _ => some pid
  | .put _ => none

def Drop.apply (s : Files) : Drop → Files
  | .close _ files | .put files => files.foldl filePut s
  | .reap pid files => files.foldl filePut ⟨releasePidOnInode s.locks pid, s.count⟩

/-- The references are the last ones to the description. -/
def lastOf (count : ℕ → ℕ) (files : List ℕ) (file : ℕ) : Bool :=
  decide (file ∈ files ∧ count file = files.count file)

/-- The lock belongs to a description, not to a process. -/
def Lock.ofFile (fl : Lock) : Bool := fl.isOfd || fl.isBsd

/-- The locks that should go: the POSIX locks of the process that closes the file, and those of a
description with the last reference to it. -/
def Lock.goes (fl : Lock) (s : Files) (d : Drop) : Bool :=
  if fl.ofFile then lastOf s.count d.files fl.ownerFile else some fl.ownerPid == d.closer

/-- A process has no POSIX lock when it closes the file, and its end is the end of each description
that it has taken a BSD lock for. -/
def Drop.Scoped (s : Files) : Drop → Prop
  | .close pid _ => ∀ fl ∈ s.locks, fl.ofFile = false → fl.ownerPid ≠ pid
  | .reap pid files => ∀ fl ∈ s.locks, fl.isBsd = true → fl.isOfd = false → fl.ownerPid = pid →
      lastOf s.count files fl.ownerFile = true
  | .put _ => True

lemma locks_filePut (s : Files) (f : ℕ) : (filePut s f).locks =
    s.locks.filter fun fl => !(fl.ofFile && decide (fl.ownerFile = f ∧ s.count f = 1)) := by
  rw [filePut]
  by_cases h1 : s.count f = 1
  · simp [h1, fileLockReleaseFile, Lock.ofFile, Bool.and_comm, beq_eq_decide]
  · simp [h1]

lemma count_filePut (s : Files) (f g : ℕ) :
    (filePut s f).count g = if g = f then s.count f - 1 else s.count g :=
  Function.update_apply ..

lemma lastOf_cons {s : Files} {f : ℕ} {files : List ℕ} (h : files.count f < s.count f) (g : ℕ) :
    lastOf s.count (f :: files) g =
      (decide (g = f ∧ s.count f = 1) || lastOf (filePut s f).count files g) := by
  rw [lastOf, lastOf, ← Bool.decide_or, decide_eq_decide, count_filePut, List.mem_cons,
    List.count_cons]
  by_cases hg : g = f
  · subst hg
    rw [← List.count_pos_iff]
    simp only [if_true, BEq.rfl, true_or, true_and]
    omega
  · simp [hg, Ne.symm hg]

lemma locks_foldl_filePut (files : List ℕ) (s : Files) (h : ∀ f, files.count f ≤ s.count f) :
    (files.foldl filePut s).locks =
      s.locks.filter fun fl => !(fl.ofFile && lastOf s.count files fl.ownerFile) := by
  induction files generalizing s with
  | nil => simp [lastOf]
  | cons f files ih =>
    have hf : files.count f < s.count f := by simpa using h f
    rw [List.foldl_cons, ih, locks_filePut, List.filter_filter]
    · refine List.filter_congr fun fl _ => ?_
      rw [lastOf_cons hf, Bool.and_or_distrib_left, Bool.not_or, Bool.and_comm]
    · intro g
      have hg := h g
      rw [List.count_cons] at hg
      rw [count_filePut]
      split_ifs with he
      · exact Nat.le_sub_one_of_lt (he ▸ hf)
      · exact (Nat.le_add_right ..).trans hg

lemma filter_eq_filter_iff {α : Type} {p q : α → Bool} {l : List α} :
    l.filter p = l.filter q ↔ ∀ x ∈ l, p x = q x := by
  refine ⟨fun h x hx => ?_, fun h => List.filter_congr h⟩
  have hm : x ∈ l.filter p ↔ x ∈ l.filter q := by rw [h]
  rw [List.mem_filter, List.mem_filter, and_iff_right hx, and_iff_right hx] at hm
  exact Bool.eq_iff_iff.2 hm

/-- **Lock ownership.**  References that are held are dropped: exactly the locks that should go do
so if and only if a process that closes the file has no POSIX lock, and the end of a process is the
end of the descriptions it has taken BSD locks for. -/
theorem locks_go_iff (s : Files) (d : Drop) (hheld : ∀ f, d.files.count f ≤ s.count f) :
    (d.apply s).locks = s.locks.filter (fun fl => !fl.goes s d) ↔ d.Scoped s := by
  cases d with
  | close pid files =>
    rw [Drop.apply, locks_foldl_filePut files s hheld, filter_eq_filter_iff]
    refine forall₂_congr fun fl _ => ?_
    cases hfl : fl.ofFile <;> simp [Lock.goes, hfl, Drop.closer, Drop.files, beq_eq_decide]
  | put files =>
    rw [Drop.apply, locks_foldl_filePut files s hheld, filter_eq_filter_iff, Drop.Scoped, iff_true]
    intro fl _
    cases hfl : fl.ofFile <;> simp [Lock.goes, hfl, Drop.closer, Drop.files]
  | reap pid files =>
    rw [Drop.apply, locks_foldl_filePut files ⟨releasePidOnInode s.locks pid, s.count⟩ hheld,
      releasePidOnInode, List.filter_filter, filter_eq_filter_iff]
    refine forall₂_congr fun fl _ => ?_
    cases ho : fl.isOfd <;> cases hb : fl.isBsd <;>
      cases hl : lastOf s.count files fl.ownerFile <;>
      simp [Lock.goes, Lock.ofFile, ho, hb, hl, Drop.closer, Drop.files, beq_eq_decide]

/-- A process exits that has a BSD lock and the only reference to the file. -/
theorem locks_go_single :
    (Drop.reap 1 [7]).Scoped ⟨[⟨1, 7, false, true, .wrlck, 0, flockEndEof⟩], fun _ => 1⟩ :=
  (locks_go_iff _ (.reap 1 [7]) fun _ => List.count_le_length).1 rfl

/-- A description that a child has inherited loses its BSD lock when the parent is reaped. -/
theorem flock_lost_on_reap :
    let s : Files := ⟨[⟨1, 7, false, true, .wrlck, 0, flockEndEof⟩], fun _ => 2⟩
    doFlock true .EAGAIN [] 1 7 (.lock .wrlck) = (none, s.locks) ∧
      ((Drop.reap 1 [7]).apply s).locks = [] ∧
      ((Drop.reap 1 [7]).apply s).count 7 = 1 ∧
      s.locks.filter (fun fl => !fl.goes s (.reap 1 [7])) = s.locks := by
  decide

/-! ## Requests that run out of memory -/

namespace Alloc

/-- What `locks_delete_range` wants to put back. -/
def pieces (l : List Lock) (c : Caller) (start stop : ℕ) : List Lock :=
  (l.filter (Lock.hit c start stop)).flatMap (Lock.rest c start stop)

/-- `kmalloc` says whether there is memory for a lock. -/
def locksDeleteRange (kmalloc : Lock → Bool) (l : List Lock) (c : Caller) (start stop : ℕ) :
    List Lock :=
  l.filter (fun fl => !fl.hit c start stop) ++ (pieces l c start stop).filter kmalloc

def applyLock (kmalloc : Lock → Bool) (refusal : Errno) (l : List Lock) (c : Caller) (op : LockOp)
    (start stop : ℕ) : Reply :=
  match op with
  | .unlck => (none, locksDeleteRange kmalloc l c start stop)
  | .lock type =>
    match findConflict l c type start stop with
    | some _ => (some refusal, l)
    | none =>
      let fl : Lock := ⟨c.pid, c.file, c.isOfd, false, type, start, stop⟩
      if kmalloc fl then (none, locksDeleteRange kmalloc l c start stop ++ [fl])
      else (some .ENOMEM, locksDeleteRange kmalloc l c start stop)

/-- An error has no effect, and success leaves the locks of others and those outside the range. -/
def Clean (l kept : List Lock) : Reply → Prop
  | (some _, l') => l'.Perm l
  | (none, l') => kept.Subperm l'

/-- A conflict refuses the request, or nothing in the range is held, or there is memory for the new
lock and for what is left of the old ones. -/
def Fed (kmalloc : Lock → Bool) (l : List Lock) (c : Caller) (start stop : ℕ) : LockOp → Prop
  | .unlck => ∀ fl ∈ pieces l c start stop, kmalloc fl
  | .lock type => findConflict l c type start stop ≠ none ∨
      (∀ fl ∈ l, fl.hit c start stop = false) ∨
      kmalloc ⟨c.pid, c.file, c.isOfd, false, type, start, stop⟩ ∧
        ∀ fl ∈ pieces l c start stop, kmalloc fl

def FlockFed (kmalloc : Bool) (l : List Lock) (file : ℕ) : LockOp → Prop
  | .unlck => True
  | .lock type => bsdFlockConflict l file type ≠ none ∨
      (∀ fl ∈ l, fl.isBsd = false ∨ fl.ownerFile ≠ file) ∨ kmalloc = true

variable {kmalloc : Lock → Bool} {l : List Lock} {c : Caller} {start stop : ℕ} {x : Lock}

lemma outside_of_mem_pieces (hx : x ∈ pieces l c start stop) :
    x.hit c start stop = false ∧ (x.start < start ∨ stop < x.stop) := by
  obtain ⟨fl, -, hx⟩ := List.mem_flatMap.1 hx
  rw [Lock.rest, List.mem_append] at hx
  rcases hx with hx | hx
  · split_ifs at hx with hlt
    · obtain rfl := List.mem_singleton.1 hx
      exact ⟨by simp [Lock.hit], .inl hlt⟩
    · cases hx
  · split_ifs at hx with hlt
    · obtain rfl := List.mem_singleton.1 hx
      exact ⟨by simp [Lock.hit], .inr hlt⟩
    · cases hx

lemma pieces_eq_nil (h : ∀ fl ∈ l, fl.hit c start stop = false) : pieces l c start stop = [] := by
  rw [pieces, List.filter_eq_nil_iff.2 (by simpa using h), List.flatMap_nil]

lemma perm_locksDeleteRange_iff :
    (locksDeleteRange kmalloc l c start stop).Perm l ↔ ∀ fl ∈ l, fl.hit c start stop = false := by
  refine ⟨fun h fl hfl => ?_, fun h => ?_⟩
  · rcases List.mem_append.1 (h.mem_iff.2 hfl) with hm | hm
    · simpa using (List.mem_filter.1 hm).2
    · exact (outside_of_mem_pieces (List.mem_filter.1 hm).1).1
  · rw [locksDeleteRange, pieces_eq_nil h, List.filter_eq_self.2 (by simpa using h)]
    exact .of_eq (List.append_nil l)

/-- Nothing outside the range is lost if and only if every piece gets memory. -/
lemma subperm_iff (new : List Lock) (hnew : ∀ x ∈ new, x.start = start ∧ x.stop = stop) :
    (FileLock.locksDeleteRange l c start stop).Subperm
        (locksDeleteRange kmalloc l c start stop ++ new) ↔
      ∀ x ∈ pieces l c start stop, kmalloc x = true := by
  rw [FileLock.locksDeleteRange, locksDeleteRange, List.append_assoc, List.subperm_append_left]
  refine ⟨fun h x hx => ?_, fun h => ?_⟩
  · rcases List.mem_append.1 (h.subset hx) with hm | hm
    · exact (List.mem_filter.1 hm).2
    · have := hnew x hm
      have := (outside_of_mem_pieces hx).2
      omega
  · rw [List.filter_eq_self.2 h]
    exact (List.sublist_append_left ..).subperm

lemma applyLock_clean_iff (refusal : Errno) (op : LockOp) :
    Clean l (FileLock.locksDeleteRange l c start stop)
      (applyLock kmalloc refusal l c op start stop) ↔ Fed kmalloc l c start stop op := by
  cases op with
  | unlck => rw [applyLock, Clean, Fed, ← subperm_iff [] nofun, List.append_nil]
  | lock type =>
    rw [applyLock, Fed]
    cases findConflict l c type start stop with
    | some fl => exact iff_of_true (.refl l) (.inl nofun)
    | none =>
      simp only [ne_eq, not_true_eq_false, false_or]
      split_ifs with hk
      · rw [Clean, subperm_iff _ (by simp), and_iff_right hk, or_iff_right_of_imp]
        intro h
        rw [pieces_eq_nil h]
        exact nofun
      · rw [Clean, perm_locksDeleteRange_iff]
        exact (or_iff_left fun h => hk h.1).symm

lemma doFlock_clean_iff (kmalloc : Bool) (refusal : Errno) (pid file : ℕ) (op : LockOp) :
    Clean l (bsdFlockDrop l file) (doFlock kmalloc refusal l pid file op) ↔
      FlockFed kmalloc l file op := by
  cases op with
  | unlck => exact iff_of_true (.refl _) trivial
  | lock type =>
    rw [doFlock, FlockFed]
    cases bsdFlockConflict l file type with
    | some fl => exact iff_of_true (.refl l) (.inl nofun)
    | none =>
      cases kmalloc with
      | true => exact iff_of_true (List.sublist_append_left ..).subperm (.inr (.inr rfl))
      | false =>
        have hperm : (bsdFlockDrop l file).Perm l ↔ bsdFlockDrop l file = l :=
          ⟨fun h => List.filter_sublist.eq_of_length h.length_eq, fun h => .of_eq h⟩
        simpa [Clean, bsdFlockDrop] using hperm.trans List.filter_eq_self

/-- **Failed requests.**  A lock request that returns an error leaves the locks alone, and one that
returns zero loses nothing outside its range, if and only if it is refused, or nothing is held
there, or there is memory for the new lock and for all that is left of the old ones. -/
theorem requests_clean_iff (kmalloc : Lock → Bool) (refusal : Errno) (l : List Lock) :
    (∀ c op start stop, Clean l (FileLock.locksDeleteRange l c start stop)
      (applyLock kmalloc refusal l c op start stop) ↔ Fed kmalloc l c start stop op) ∧
    ∀ memory pid file op, Clean l (bsdFlockDrop l file)
      (doFlock memory refusal l pid file op) ↔ FlockFed memory l file op :=
  ⟨fun _ op _ _ => applyLock_clean_iff refusal op, fun memory => doFlock_clean_iff memory refusal⟩

/-- There is no memory for a weaker lock, and the old one is gone. -/
theorem downgrade_loses_lock :
    applyLock (fun _ => false) .EAGAIN [⟨1, 0, false, false, .wrlck, 0, 100⟩] ⟨1, 0, false⟩
      (.lock .rdlck) 0 100 = (some .ENOMEM, []) :=
  rfl

end Alloc

end XosKernel.FileLock
