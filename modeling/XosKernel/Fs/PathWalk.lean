/-
# Path resolution

`vfs_resolve` (`bsd/mount.c`), `follow_symlink`, `path_walk`, `path_walk_from` and `vfs_statx`
(`bsd/vfs.c`) over directories, files and symbolic links, with the inode references they take
and drop. The recursion of `path_walk` through `follow_symlink` is bounded by an argument: `none`
means that the calls were nested deeper than that. `Out.fault` is the use of a pointer that is
not one.

`Vfs.graph` is the same structure as nodes with names and links.
-/
import XosKernel.Lib.LinkWalk
import XosKernel.Mem.Layout

namespace XosKernel.PathWalk

open LinkWalk (LinkGraph Target)
open Errno

/-! ## State -/

/-- A C string. -/
abbrev Text := List Char

inductive Node
  | dir (entries : List (Text × ℕ))
  | file
  /-- the target that `readlink` returns; `none` for a link without data -/
  | lnk (target : Option Text)
deriving DecidableEq

/-- A mount in use; `root` is what `mount_root` returns. -/
structure Mount where
  mntpoint : Text
  root : Option ℕ
  dying : Bool
  absolute : mntpoint.head? = some '/'

structure Vfs where
  node : ℕ → Node
  mounts : List Mount
  /-- what a buffer for a link target happens to hold behind an empty target -/
  junk : Text

/-- Changes of the `i_count` of the inodes. -/
abbrev Refs := ℕ → ℤ

def inodeGet (i : ℕ) (r : Refs) : Refs := r + Pi.single i 1

def inodePut (i : ℕ) (r : Refs) : Refs := r - Pi.single i 1

inductive Ptr
  | inode (i : ℕ)
  | null
  | err (e : Errno)
deriving DecidableEq

inductive Out
  | ptr (p : Ptr)
  | fault
deriving DecidableEq

def symlinkMax : ℕ := 40

/-- The size of the buffers for paths and names. -/
def pathMax : ℕ := 256

/-! ## The mount table -/

/-- The mount point is the root or a prefix of the path that ends where a name ends. -/
def Mount.covers (m : Mount) (path : Text) : Bool :=
  m.mntpoint = ['/'] ||
    (m.mntpoint.isPrefixOf path &&
      (path.length = m.mntpoint.length || path[m.mntpoint.length]? = some '/'))

/-- One turn of the loop over the mount table. -/
def betterMount (path : Text) (best : Option Mount) (m : Mount) : Option Mount :=
  if !m.dying && m.covers path && decide ((best.elim 0 fun b => b.mntpoint.length) <
    m.mntpoint.length)
  then some m else best

/-- What `vfs_resolve` stores in `relpath`: the rest without leading slashes, cut to the buffer. -/
def relpathOf (rest : Text) : Text := (rest.dropWhile (· = '/')).take (pathMax - 1)

/-- `vfs_resolve`: the mount and the path below it. -/
def Vfs.vfsResolve (v : Vfs) (path : Text) : Option (Mount × Text) :=
  (v.mounts.foldl (betterMount path) none).map fun m =>
    -- `path + best_len` lies behind the end of an empty path
    let rest := if path.length < m.mntpoint.length then v.junk else path.drop m.mntpoint.length
    (m, relpathOf rest)

/-! ## Walking -/

def segments (path : Text) : List Text := (path.splitOn '/').filter fun seg => !seg.isEmpty

/-- `i_op->lookup`, which only directories have. -/
def Vfs.lookup (v : Vfs) (dir : ℕ) (name : Text) : Option ℕ :=
  match v.node dir with
  | .dir entries => entries.lookup name
  | _ => none

/-- `follow_symlink` with `depth` links followed before. The branches for absolute and for
relative targets make the same calls. -/
def Vfs.followSymlink (v : Vfs) (walk : Mount → Text → Refs → Option (Out × Refs)) (lnk depth : ℕ)
    (r : Refs) : Option (Out × Refs) :=
  match v.node lnk with
  | .lnk target =>
    if symlinkMax < depth + 1 then some (.ptr (.err ELOOP), r)
    else
      match target with
      | none => some (.ptr (.err EIO), r)
      | some target =>
        if pathMax ≤ target.length then some (.ptr (.err ENAMETOOLONG), r)
        else
          match v.vfsResolve target with
          | none => some (.ptr (.err ENOENT), r)
          | some (m, relpath) => walk m relpath r
  | _ => some (.ptr (.err EINVAL), r)

/-- The loop of `path_walk` and `path_walk_from`, with a reference to `dir`. -/
def Vfs.walkLoop (v : Vfs) (walk : Mount → Text → Refs → Option (Out × Refs)) :
    List Text → ℕ → ℕ → Refs → Option (Out × Refs)
  | [], dir, _, r => some (.ptr (.inode dir), r)
  | seg :: rest, dir, depth, r =>
    if pathMax ≤ seg.length then some (.ptr .null, inodePut dir r)
    else
      match v.lookup dir seg with
      | none => some (.ptr .null, inodePut dir r)
      | some next =>
        let r := inodePut dir (inodeGet next r)
        match rest.isEmpty, v.node next with
        | false, .lnk _ =>
          (v.followSymlink walk next depth r).bind fun (resolved, r) =>
            match resolved with
            | .fault => some (.fault, r)
            | .ptr (.err _) => some (.ptr .null, inodePut next r)
            -- `NULL` is not an error pointer: the next turn reads `dir->i_op`
            | .ptr .null => some (.fault, inodePut next r)
            | .ptr (.inode dir) => v.walkLoop walk rest dir (depth + 1) (inodePut next r)
        | _, _ => v.walkLoop walk rest next depth r

def Vfs.pathWalk (v : Vfs) : ℕ → Mount → Text → Refs → Option (Out × Refs)
  | 0, _, _, _ => none
  | fuel + 1, m, relpath, r =>
    match m.root with
    | none => some (.ptr .null, r)
    | some dir => v.walkLoop (v.pathWalk fuel) (segments relpath) dir 0 (inodeGet dir r)

def Vfs.pathWalkFrom (v : Vfs) (fuel start : ℕ) (relpath : Text) (r : Refs) : Option (Out × Refs) :=
  v.walkLoop (v.pathWalk fuel) (segments relpath) start 0 (inodeGet start r)

def Vfs.vfsOpenKern (v : Vfs) (fuel : ℕ) (path : Text) (r : Refs) : Option (Out × Refs) :=
  match v.vfsResolve path with
  | none => some (.ptr .null, r)
  | some (m, relpath) => v.pathWalk fuel m relpath r

/-! ## `vfs_statx` -/

/-- A normalised path: absolute, or below the directory of a descriptor. -/
inductive Where
  | absolute (path : Text)
  | relative (start : ℕ) (path : Text)

/-- What `vfs_statx` returns: the attributes of an inode or an error. -/
inductive StatOut
  | attr (i : ℕ)
  | error (e : Errno)
  | fault
deriving DecidableEq

/-- The part of `vfs_statx` behind the walk. -/
def Vfs.statInode (v : Vfs) (fuel : ℕ) (nofollow : Bool) (ip : Out) (r : Refs) :
    Option (StatOut × Refs) :=
  match ip with
  | .fault => some (.fault, r)
  | .ptr (.err _) => some (.fault, r)
  | .ptr .null => some (.error ENOENT, r)
  | .ptr (.inode i) =>
    match nofollow, v.node i with
    | false, .lnk _ =>
      (v.followSymlink (v.pathWalk fuel) i 0 r).map fun (resolved, r) =>
        match resolved with
        | .fault => (.fault, r)
        | .ptr (.err e) => (.error e, inodePut i r)
        -- `NULL` is not an error pointer: `ip->i_op` is read
        | .ptr .null => (.fault, inodePut i r)
        | .ptr (.inode j) => (.attr j, inodePut j (inodePut i r))
    | _, _ => some (.attr i, inodePut i r)

/-- `vfs_statx` for a path that is not empty. -/
def Vfs.vfsStatx (v : Vfs) (fuel : ℕ) (path : Where) (nofollow : Bool) (r : Refs) :
    Option (StatOut × Refs) :=
  match path with
  | .absolute path =>
    match v.vfsResolve path with
    | none => some (.error ENOENT, r)
    | some (m, relpath) =>
      (v.pathWalk fuel m relpath r).bind fun (ip, r) => v.statInode fuel nofollow ip r
  | .relative start relpath =>
    (v.pathWalkFrom fuel start relpath (inodeGet start r)).bind fun (ip, r) =>
      v.statInode fuel nofollow ip (inodePut start r)

/-! ## The graph -/

/-- What a link stands for. -/
def Vfs.targetOf (v : Vfs) : Option Text → Target ℕ Text
  | none => .refused
  | some target =>
    if pathMax ≤ target.length then .refused
    else
      match v.vfsResolve target with
      | none => .refused
      | some (m, relpath) =>
        match m.root with
        | none => .nowhere
        | some dir => .path dir (segments relpath)

def Vfs.graph (v : Vfs) : LinkGraph ℕ Text where
  child dir name := if pathMax ≤ name.length then none else v.lookup dir name
  link i :=
    match v.node i with
    | .lnk target => some (v.targetOf target)
    | _ => none

end XosKernel.PathWalk
