/-
# The tmpfs namespace

A tmpfs directory keeps its entries on a list of `tmpfs_inode_info` nodes. An entry's node names
an inode; a directory's node is at once the entry for it and the head of its own list, and the
inode's `i_priv` points back at it. A hard link is a further node for the same inode. Each entry
holds a reference to its inode, an open descriptor holds another, and the inode goes when the last
reference does.

The model follows tmpfs.c and the path syscalls of vfs.c and syscall.c over one mount. Addresses
are numbers and never reused; node 0 and inode 0 are the root's. A path is the list of its
segments. File contents, inode numbers, modes, owners, inotify events and locks are left out, and
each call is one step.
-/
import XosKernel.Lib.Run
import XosKernel.Mem.Layout

namespace XosKernel.Tmpfs

open Errno Function

/-- The `INODE_` types that tmpfs creates. -/
inductive InodeType
  | regular | dir | socket | lnk
deriving DecidableEq

/-- The bytes of a C string. -/
abbrev Name := List UInt8

/-- `struct tmpfs_inode_info`; `children` is the list that starts there and runs along the
`sibling` pointers. -/
structure Info where
  inode : ℕ
  parent : Option ℕ
  children : List ℕ
  name : Name
deriving DecidableEq

/-- `struct inode`: `type`, `nlink`, `i_count` and `i_priv`. -/
structure Inode where
  type : InodeType
  nlink : ℤ
  count : ℕ
  priv : Option ℕ
deriving DecidableEq

/-- What stands at an address that is not allocated. -/
def Info.free : Info := ⟨0, none, [], []⟩

/-- What stands at an address that is not allocated; a live inode has a positive count. -/
def Inode.free : Inode := ⟨.regular, 0, 0, none⟩

/-- The nodes, the inodes and the number of open descriptors of each inode. -/
structure State where
  info : ℕ → Info
  inode : ℕ → Inode
  opens : ℕ → ℕ
  infoTop : ℕ
  inodeTop : ℕ

/-- Which allocations of a call succeed: the inode, the node, and a symlink's target text. -/
structure Kmalloc where
  inode : Bool
  info : Bool
  data : Bool

/-- `m->root`. -/
def root : ℕ := 0

/-- `tmpfs_mount_root`: the mount keeps one reference, and `nlink` is what `inode_create` gave. -/
def init : State where
  info := update (fun _ => Info.free) 0 ⟨root, none, [], []⟩
  inode := update (fun _ => Inode.free) root ⟨.dir, 1, 1, some 0⟩
  opens := fun _ => 0
  infoTop := 1
  inodeTop := 1

namespace State

variable (s : State)

def children (ti : ℕ) : List ℕ := (s.info ti).children

def nameOf (c : ℕ) : Name := (s.info c).name

def inodeOf (c : ℕ) : ℕ := (s.info c).inode

def parentOf (c : ℕ) : Option ℕ := (s.info c).parent

def typeOf (ip : ℕ) : InodeType := (s.inode ip).type

def isDir (c : ℕ) : Bool := s.typeOf (s.inodeOf c) = .dir

def find (ti : ℕ) (name : Name) : Option ℕ := (s.children ti).find? fun c => s.nameOf c = name

def setInfo (c : ℕ) (i : Info) : State := { s with info := update s.info c i }

def setChildren (ti : ℕ) (l : List ℕ) : State := s.setInfo ti { s.info ti with children := l }

/-- Take a node off the list it is on. -/
def detach (ti c : ℕ) : State := s.setChildren ti ((s.children ti).erase c)

def headInsert (ti c : ℕ) : State := s.setChildren ti (c :: s.children ti)

/-- Write the name (the buffer holds 255 bytes and a NUL) and the parent of a node. -/
def rename (c ti : ℕ) (name : Name) : State :=
  s.setInfo c { s.info c with name := name.take 255, parent := some ti }

def kfree (c : ℕ) : State := s.setInfo c Info.free

def setInode (ip : ℕ) (i : Inode) : State := { s with inode := update s.inode ip i }

def addNlink (ip : ℕ) (n : ℤ) : State :=
  s.setInode ip { s.inode ip with nlink := (s.inode ip).nlink + n }

def setNlink (ip : ℕ) (n : ℤ) : State := s.setInode ip { s.inode ip with nlink := n }

def inodeGet (ip : ℕ) : State :=
  s.setInode ip { s.inode ip with count := (s.inode ip).count + 1 }

/-- `inode_put`: the last reference frees the inode. -/
def inodePut (ip : ℕ) : State :=
  if (s.inode ip).count - 1 = 0 then s.setInode ip Inode.free
  else s.setInode ip { s.inode ip with count := (s.inode ip).count - 1 }

/-- `inode_create` and the `i_priv` that `tmpfs_new_node` then gives it. -/
def newInode (type : InodeType) : State :=
  { s.setInode s.inodeTop ⟨type, 1, 1, some s.infoTop⟩ with inodeTop := s.inodeTop + 1 }

/-- `new_tmpfs_info` and the name that its caller copies. -/
def newInfo (ip ti : ℕ) (name : Name) : State :=
  { s.setInfo s.infoTop ⟨ip, some ti, [], name.take 255⟩ with infoTop := s.infoTop + 1 }

/-- A new node for `ip` at the head of a directory's list, with its reference. -/
def newEntry (ip ti : ℕ) (name : Name) : State :=
  ((s.newInfo ip ti name).headInsert ti s.infoTop).inodeGet ip

end State

/-! ### Lookup and path resolution -/

/-- `tmpfs_lookup`; the reference it returns is dropped by every caller modelled here. -/
def tmpfsLookup (s : State) (dir : ℕ) (name : Name) : Option ℕ :=
  match (s.inode dir).priv with
  | none => none
  | some ti => (s.find ti name).map s.inodeOf

/-- One segment of a path: it has to fit the name buffer, and only directories have a `lookup`. -/
def lookupSegment (s : State) (dir : ℕ) (seg : Name) : Option ℕ :=
  if 256 ≤ seg.length then none
  else if s.typeOf dir ≠ .dir then none
  else tmpfsLookup s dir seg

/-- `path_walk`. A symlink before the last segment is followed by `follow_symlink`, which resolves
its text from the mount table again; `via` is what the rest of the walk then arrives at. -/
def pathWalk (s : State) (via : Option ℕ) : ℕ → List Name → Option ℕ
  | dir, [] => some dir
  | dir, seg :: rest =>
    match lookupSegment s dir seg with
    | none => none
    | some next => if rest ≠ [] ∧ s.typeOf next = .lnk then via else pathWalk s via next rest

/-- The loop of `path_walk_parent`, which follows no symlinks. -/
def walkParent (s : State) : ℕ → Name → List Name → Except Errno (ℕ × Name)
  | dir, seg, [] =>
    if 256 ≤ seg.length then .error ENAMETOOLONG
    else if s.typeOf dir ≠ .dir then .error ENOTDIR
    else .ok (dir, seg)
  | dir, seg, next :: rest =>
    if 256 ≤ seg.length then .error ENAMETOOLONG
    else if s.typeOf dir ≠ .dir then .error ENOTDIR
    else match tmpfsLookup s dir seg with
      | none => .error ENOENT
      | some child => walkParent s child next rest

/-- `path_walk_parent`: the parent directory and the last segment. -/
def pathWalkParent (s : State) : List Name → Except Errno (ℕ × Name)
  | [] => .error EBUSY
  | seg :: rest => walkParent s root seg rest

/-! ### The inode operations -/

/-- `tmpfs_new_node`. If there is no memory for the node, the inode just made is put again. -/
def tmpfsNewNode (s : State) (ti : ℕ) (name : Name) (type : InodeType) (k : Kmalloc) :
    State × Option ℕ :=
  if !k.inode then (s, none)
  else if !k.info then (s, none)
  else ((s.newInode type).newEntry s.inodeTop ti name, some s.inodeTop)

/-- `tmpfs_create`; `sock` is `(mode & S_IFMT) == S_IFSOCK`. -/
def tmpfsCreate (s : State) (dir : ℕ) (name : Name) (sock : Bool) (k : Kmalloc) :
    State × Except Errno ℕ :=
  match (s.inode dir).priv with
  | none => (s, .error EFAULT)
  | some ti =>
    if (tmpfsLookup s dir name).isSome then (s, .error EEXIST)
    else match tmpfsNewNode s ti name (if sock then .socket else .regular) k with
      | (s, none) => (s, .error ENOMEM)
      | (s, some ip) => (s, .ok ip)

/-- `tmpfs_symlink`. With no memory for the text the call fails, but the entry stays. -/
def tmpfsSymlink (s : State) (dir : ℕ) (name : Name) (target : List UInt8) (k : Kmalloc) :
    State × Except Errno ℕ :=
  match (s.inode dir).priv with
  | none => (s, .error EFAULT)
  | some ti =>
    if (tmpfsLookup s dir name).isSome then (s, .error EEXIST)
    else if 256 ≤ target.length then (s, .error ENAMETOOLONG)
    else match tmpfsNewNode s ti name .lnk k with
      | (s, none) => (s, .error ENOMEM)
      | (s, some ip) => if !k.data then (s.inodePut ip, .error ENOMEM) else (s, .ok ip)

def tmpfsLink (s : State) (dir target : ℕ) (newname : Name) (k : Kmalloc) :
    State × Except Errno Unit :=
  if s.typeOf target = .dir then (s, .error EPERM)
  else match (s.inode dir).priv with
    | none => (s, .error EFAULT)
    | some ti =>
      if (tmpfsLookup s dir newname).isSome then (s, .error EEXIST)
      else if !k.info then (s, .error ENOMEM)
      else ((s.newEntry target ti newname).addNlink target 1, .ok ())

def tmpfsMkdir (s : State) (dir : ℕ) (name : Name) (k : Kmalloc) : State × Except Errno Unit :=
  match (s.inode dir).priv with
  | none => (s, .error EFAULT)
  | some ti =>
    if (tmpfsLookup s dir name).isSome then (s, .error EEXIST)
    else match tmpfsNewNode s ti name .dir k with
      | (s, none) => (s, .error ENOMEM)
      | (s, some ip) => (((s.inodePut ip).addNlink dir 1).setNlink ip 2, .ok ())

/-- `tmpfs_unlink`. It does not ask what it takes off the list; only the `nlink` of a directory
is left alone. -/
def tmpfsUnlink (s : State) (dir : ℕ) (name : Name) : State × Except Errno Unit :=
  match (s.inode dir).priv with
  | none => (s, .error EFAULT)
  | some ti =>
    match s.find ti name with
    | none => (s, .error ENOENT)
    | some c =>
      let ip := s.inodeOf c
      let last := (s.inode ip).count = 1
      let isDir := s.isDir c
      let s := s.detach ti c
      let s := if !isDir && decide (0 < (s.inode ip).nlink) then s.addNlink ip (-1) else s
      let s := s.inodePut ip
      (if last ∧ !isDir then s.kfree c else s, .ok ())

def tmpfsRmdir (s : State) (dir : ℕ) (name : Name) : State × Except Errno Unit :=
  match (s.inode dir).priv with
  | none => (s, .error EFAULT)
  | some ti =>
    match (s.children ti).find? fun c => s.nameOf c = name ∧ s.isDir c with
    | none => (s, .error ENOENT)
    | some c =>
      if s.children c ≠ [] then (s, .error ENOTEMPTY)
      else ((((s.detach ti c).addNlink dir (-1)).kfree c).inodePut (s.inodeOf c), .ok ())

/-- The walk from `new_ti` along the parent pointers that looks for the node being moved. -/
def isUnder (s : State) (node : ℕ) : ℕ → ℕ → Bool
  | 0, _ => false
  | fuel + 1, a => a = node || match s.parentOf a with
    | none => false
    | some b => isUnder s node fuel b

/-- The checks that `tmpfs_rename` makes when the new name exists. The walk along the parents is
made last, and what it finds takes the place of the other errors. -/
def renameCheck (s : State) (node newTi exist : ℕ) : Option Errno :=
  if s.isDir node then
    if isUnder s node (s.infoTop + 1) newTi then some EINVAL
    else if !s.isDir exist then some EISDIR
    else if s.children exist ≠ [] then some ENOTEMPTY
    else none
  else if s.isDir exist then some ENOTDIR
  else none

/-- `tmpfs_rename`. The old entry is off its list when the new name is looked at; a refused
rename puts it back at the head. -/
def tmpfsRename (s : State) (oldDir : ℕ) (oldName : Name) (newDir : ℕ) (newName : Name) :
    State × Except Errno Unit :=
  if oldDir = newDir ∧ oldName = newName then (s, .ok ())
  else match (s.inode oldDir).priv, (s.inode newDir).priv with
    | some oldTi, some newTi =>
      match s.find oldTi oldName with
      | none => (s, .error ENOENT)
      | some node =>
        let s := s.detach oldTi node
        match s.find newTi newName with
        | none => ((s.rename node newTi newName).headInsert newTi node, .ok ())
        | some exist =>
          match renameCheck s node newTi exist with
          | some rc => (s.headInsert oldTi node, .error rc)
          | none =>
            let ip := s.inodeOf exist
            let last := (s.inode ip).count = 1
            let isDir := s.isDir exist
            let s := s.detach newTi exist
            let s := (s.rename node newTi newName).headInsert newTi node
            let s := s.inodePut ip
            (if last ∧ !isDir then s.kfree exist else s, .ok ())
    | _, _ => (s, .error EFAULT)

/-! ### The system calls -/

def sysMkdir (s : State) (path : List Name) (k : Kmalloc) : State × Except Errno Unit :=
  match pathWalkParent s path with
  | .error e => (s, .error e)
  | .ok (parent, name) =>
    -- the walk to the parent met directories only, so this one meets no symlink either
    if (pathWalk s none root path).isSome then (s, .error EEXIST)
    else tmpfsMkdir s parent name k

/-- The end of `sys_open` with `O_CREAT`, holding one reference to the inode: it goes back unless
a descriptor takes it over. `directory` is `O_DIRECTORY`, `fd` says whether there is a free
descriptor and a `struct file`. -/
def openInode (s : State) (ip : ℕ) (directory fd : Bool) : State × Except Errno Unit :=
  if s.typeOf ip = .dir then (s.inodePut ip, .error EISDIR)
  else if directory then (s.inodePut ip, .error ENOTDIR)
  else if s.typeOf ip = .socket then (s.inodePut ip, .error ENXIO)
  else if !fd then (s.inodePut ip, .error EMFILE)
  else ({ s with opens := update s.opens ip (s.opens ip + 1) }, .ok ())

/-- `sys_open` with `O_CREAT`; `excl` is `O_EXCL`. -/
def sysOpen (s : State) (path : List Name) (via : Option ℕ) (excl directory fd : Bool)
    (k : Kmalloc) : State × Except Errno Unit :=
  match pathWalk s via root path with
  | some ip => if excl then (s, .error EEXIST) else openInode (s.inodeGet ip) ip directory fd
  | none =>
    match pathWalkParent s path with
    | .error e => (s, .error e)
    | .ok (parent, name) =>
      match tmpfsCreate s parent name false k with
      | (s, .error e) => (s, .error e)
      | (s, .ok ip) => openInode s ip directory fd

/-- The last `close` of a descriptor. -/
def sysClose (s : State) (ip : ℕ) : State :=
  ({ s with opens := update s.opens ip (s.opens ip - 1) } : State).inodePut ip

def sysMknod (s : State) (path : List Name) (sock : Bool) (k : Kmalloc) :
    State × Except Errno Unit :=
  match pathWalkParent s path with
  | .error e => (s, .error e)
  | .ok (parent, name) =>
    match tmpfsCreate s parent name sock k with
    | (s, .error e) => (s, .error e)
    | (s, .ok ip) => (s.inodePut ip, .ok ())

def doSymlinkat (s : State) (target : List UInt8) (path : List Name) (k : Kmalloc) :
    State × Except Errno Unit :=
  match pathWalkParent s path with
  | .error e => (s, .error e)
  | .ok (dir, name) =>
    if (tmpfsLookup s dir name).isSome then (s, .error EEXIST)
    else match tmpfsSymlink s dir name target k with
      | (s, .error e) => (s, .error e)
      | (s, .ok ip) => (s.inodePut ip, .ok ())

def doLinkat (s : State) (old : List Name) (via : Option ℕ) (new : List Name) (k : Kmalloc) :
    State × Except Errno Unit :=
  match pathWalk s via root old with
  | none => (s, .error ENOENT)
  | some target =>
    match pathWalkParent s new with
    | .error e => (s, .error e)
    | .ok (newdir, newname) => tmpfsLink s newdir target newname k

def sysUnlink (s : State) (path : List Name) : State × Except Errno Unit :=
  match pathWalkParent s path with
  | .error e => (s, .error e)
  | .ok (parent, name) => tmpfsUnlink s parent name

def sysRmdir (s : State) (path : List Name) : State × Except Errno Unit :=
  match pathWalkParent s path with
  | .error e => (s, .error e)
  | .ok (parent, name) => tmpfsRmdir s parent name

/-- `sys_rename` within the mount. -/
def sysRename (s : State) (old new : List Name) : State × Except Errno Unit :=
  match pathWalkParent s old with
  | .error e => (s, .error e)
  | .ok (oldParent, oldName) =>
    match pathWalkParent s new with
    | .error e => (s, .error e)
    | .ok (newParent, newName) => tmpfsRename s oldParent oldName newParent newName

/-! ### Entries and directories -/

namespace State

variable (s : State)

/-- The node is an entry of some directory, still attached or not. -/
def Listed (c : ℕ) : Prop := ∃ p < s.infoTop, c ∈ s.children p

instance (c : ℕ) : Decidable (s.Listed c) :=
  inferInstanceAs (Decidable (∃ p < s.infoTop, c ∈ s.children p))

def entries (ip : ℕ) : Finset ℕ :=
  (Finset.range s.infoTop).filter fun c => s.Listed c ∧ s.inodeOf c = ip

/-- A directory that has not been removed: the root, or one that an entry names. -/
def LiveDir (ip : ℕ) : Prop := s.typeOf ip = .dir ∧ (ip = root ∨ (s.entries ip).Nonempty)
deriving Decidable

def dirEntries (ip : ℕ) : List ℕ :=
  match (s.inode ip).priv with
  | none => []
  | some ti => s.children ti

def subdirs (ip : ℕ) : ℕ := (s.dirEntries ip).countP s.isDir

/-- A path can only lead to what an entry names, or to the root. -/
def Resolvable (via : Option ℕ) : Prop := ∀ v ∈ via, v = root ∨ (s.entries v).Nonempty
deriving Decidable

end State

/-! ### Runs -/

/-- A system call with what it cannot decide by itself. -/
inductive Action
  | mkdir (path : List Name) (k : Kmalloc)
  | creat (path : List Name) (via : Option ℕ) (excl directory fd : Bool) (k : Kmalloc)
  | close (ip : ℕ)
  | mknod (path : List Name) (sock : Bool) (k : Kmalloc)
  | link (old : List Name) (via : Option ℕ) (new : List Name) (k : Kmalloc)
  | symlink (target : List UInt8) (path : List Name) (k : Kmalloc)
  | unlink (path : List Name)
  | rmdir (path : List Name)
  | rename (old new : List Name)

def step (s : State) : Action → Option State
  | .mkdir path k => some (sysMkdir s path k).1
  | .creat path via excl directory fd k =>
    if s.Resolvable via then some (sysOpen s path via excl directory fd k).1 else none
  | .close ip => if 0 < s.opens ip then some (sysClose s ip) else none
  | .mknod path sock k => some (sysMknod s path sock k).1
  | .link old via new k =>
    if s.Resolvable via then some (doLinkat s old via new k).1 else none
  | .symlink target path k => some (doSymlinkat s target path k).1
  | .unlink path => some (sysUnlink s path).1
  | .rmdir path => some (sysRmdir s path).1
  | .rename old new => some (sysRename s old new).1

/-- The namespace is a tree and the link counts are right; the root's count starts one lower. -/
structure Exact (s : State) : Prop where
  path : ∀ d, s.LiveDir d → ∃! path, pathWalk s none root path = some d
  acyclic : ∀ d, s.LiveDir d → ∀ path, path ≠ [] → pathWalk s none d path ≠ some d
  file : ∀ ip, 0 < (s.inode ip).count → s.typeOf ip = .regular →
    (s.inode ip).nlink = (s.entries ip).card
  dir : ∀ d, s.LiveDir d →
    (s.inode d).nlink = (if d = root then 1 else 2) + (s.subdirs d : ℤ)

/-- A directory that goes away from `s` to `t` had no entries. -/
def OnlyEmptyRemoved (s t : State) : Prop :=
  ∀ d, s.LiveDir d → ¬t.LiveDir d → s.dirEntries d = []

/-- The entry that a rename would replace, if it gets that far. -/
def RenameSafe (s : State) (oldTi newTi node : ℕ) (newName : Name) : Prop :=
  match s.find newTi newName with
  | none => s.isDir node → oldTi = newTi
  | some exist =>
    if s.isDir node then
      s.isDir exist = false ∨ (∃ c ∈ s.children exist, c ≠ node) ∨
        isUnder s node (s.infoTop + 1) newTi
    else
      s.isDir exist ∨ s.typeOf (s.inodeOf exist) ≠ .regular ∨
        (s.inode (s.inodeOf exist)).count = 1

instance (s : State) (oldTi newTi node : ℕ) (newName : Name) :
    Decidable (RenameSafe s oldTi newTi node newName) := by
  unfold RenameSafe
  split <;> infer_instance

/-- No directory is unlinked. A rename that goes through gives a directory a free name in its own
directory, or moves something else to a free name or over a file nothing else refers to. -/
def Safe (s : State) : Action → Prop
  | .unlink path =>
    match pathWalkParent s path with
    | .error _ => True
    | .ok (dir, name) =>
      match (s.inode dir).priv with
      | none => True
      | some ti => ∀ c ∈ s.find ti name, s.isDir c = false
  | .rename old new =>
    match pathWalkParent s old, pathWalkParent s new with
    | .ok (oldDir, oldName), .ok (newDir, newName) =>
      match (s.inode oldDir).priv, (s.inode newDir).priv with
      | some oldTi, some newTi =>
        (oldDir = newDir ∧ oldName = newName) ∨
          ∀ node ∈ s.find oldTi oldName, RenameSafe s oldTi newTi node newName
      | _, _ => True
    | _, _ => True
  | _ => True

instance (s : State) (a : Action) : Decidable (Safe s a) := by
  unfold Safe
  split
  · split
    · infer_instance
    · split <;> infer_instance
  · split
    · split <;> infer_instance
    · infer_instance
  · infer_instance

end XosKernel.Tmpfs
