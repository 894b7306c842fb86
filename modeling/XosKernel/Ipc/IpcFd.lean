/-
# The descriptor of a task's receive queue

`sys_ipcfd_create` and `ipcfd_close` of `bsd/ipcfd.c` with `file_put` of `bsd/proc.c`. A file is the
number of its allocation, a task its slot in the task table.
-/
import XosKernel.Lib.Run

namespace XosKernel.IpcFd

open Function

structure Sys where
  /-- the next file allocated -/
  next : ℕ
  ipcfdOwner : ℕ → ℕ
  fCount : ℕ → ℕ
  /-- the descriptors of a file, in any table -/
  fdRefs : ℕ → ℕ
  /-- how often a file was released -/
  freed : ℕ → ℕ
  /-- the task in the slot has the slot's pid -/
  live : ℕ → Bool
  ipcfdFile : ℕ → Option ℕ
  /-- a `BUG_ON` was met -/
  bug : Bool

def Sys.init : Sys := ⟨0, 0, 0, 0, 0, fun _ => false, fun _ => none, false⟩

/-- Called when no reference is left, so that the `file_put` in it counts below zero. -/
def Sys.ipcfdClose (s : Sys) (f : ℕ) : Sys :=
  let o := s.ipcfdOwner f
  if s.live o ∧ s.ipcfdFile o = some f then
    { s with ipcfdFile := update s.ipcfdFile o none, bug := true }
  else s

def Sys.filePut (s : Sys) (f : ℕ) : Sys :=
  let s := { s with fCount := update s.fCount f (s.fCount f - 1) }
  if 0 < s.fCount f then s
  else { s.ipcfdClose f with freed := update s.freed f (s.freed f + 1) }

inductive Act
  /-- `xtask_alloc` takes the slot -/
  | spawn (t : ℕ)
  | create (t : ℕ)
  /-- `dup`, `fork` and the passing of descriptors -/
  | dup (f : ℕ)
  /-- `close`, and each descriptor of a table that goes away -/
  | close (f : ℕ)
  | exit (t : ℕ)

def step (s : Sys) : Act → Option Sys
  | .spawn t =>
    if s.live t = false then
      some { s with live := update s.live t true, ipcfdFile := update s.ipcfdFile t none }
    else none
  | .create t =>
    if s.live t then
      some { s with
        next := s.next + 1
        ipcfdOwner := update s.ipcfdOwner s.next t
        fCount := update s.fCount s.next 2
        fdRefs := update s.fdRefs s.next 1
        ipcfdFile := update s.ipcfdFile t (some s.next) }
    else none
  | .dup f =>
    if f < s.next ∧ 0 < s.fdRefs f then
      some { s with
        fCount := update s.fCount f (s.fCount f + 1)
        fdRefs := update s.fdRefs f (s.fdRefs f + 1) }
    else none
  | .close f =>
    if f < s.next ∧ 0 < s.fdRefs f then
      some (Sys.filePut { s with fdRefs := update s.fdRefs f (s.fdRefs f - 1) } f)
    else none
  | .exit t => if s.live t then some { s with live := update s.live t false } else none

/-- A file without descriptors has been released once and its owner does not point to it; tasks
point to files that have not been released. -/
structure Sys.Released (s : Sys) : Prop where
  last : ∀ f < s.next, s.fdRefs f = 0 → s.freed f = 1 ∧ s.ipcfdFile (s.ipcfdOwner f) ≠ some f
  link : ∀ t f, s.ipcfdFile t = some f → f < s.next ∧ s.freed f = 0

/-- The references are those of the descriptors and the one taken for the back-link. -/
structure Inv (s : Sys) : Prop where
  held : ∀ f < s.next, s.fCount f = s.fdRefs f + 1
  freed : ∀ f, s.freed f = 0
  link : ∀ t f, s.ipcfdFile t = some f → f < s.next

lemma Inv.step (s : Sys) (a : Act) (s' : Sys) (h : Inv s) (hs : step s a = some s') : Inv s' := by
  cases a with
  | spawn t | exit t =>
    obtain ⟨-, rfl⟩ := of_guard hs
    exact ⟨h.held, h.freed, by grind [→ Inv.link]⟩
  | create t =>
    obtain ⟨-, rfl⟩ := of_guard hs
    exact ⟨by grind [h.held], h.freed, by grind [→ Inv.link]⟩
  | dup f =>
    obtain ⟨-, rfl⟩ := of_guard hs
    exact ⟨by grind [h.held], h.freed, h.link⟩
  | close f =>
    obtain ⟨⟨hf, hpos⟩, rfl⟩ := of_guard hs
    -- the reference of the back-link keeps `file_put` from the teardown
    have hmore : 0 < update s.fCount f (s.fCount f - 1) f := by
      rw [update_self, h.held f hf, Nat.add_sub_cancel]
      exact hpos
    rw [Sys.filePut, if_pos hmore]
    exact ⟨by grind [h.held], h.freed, h.link⟩

/-- The files of a run are released as they should be exactly as long as none of them has lost its
last descriptor: the reference of the back-link is dropped only where no reference is left. -/
theorem released_iff {s : Sys} (as : List Act) (hrun : exec step .init as = some s) :
    s.Released ↔ ∀ f < s.next, 0 < s.fdRefs f := by
  have h : Inv s := exec_invariant Inv.step
    ⟨fun _ hf => absurd hf (Nat.not_lt_zero _), fun _ => rfl, by simp [Sys.init]⟩ hrun
  constructor
  · intro hr f hf
    refine Nat.pos_of_ne_zero fun h0 => ?_
    exact absurd ((h.freed f).symm.trans (hr.last f hf h0).1) Nat.zero_ne_one
  · exact fun hd => ⟨fun f hf h0 => absurd h0 (hd f hf).ne', fun t f ht =>
      ⟨h.link t f ht, h.freed f⟩⟩

theorem released_iff_dup : ∃ s, exec step .init [.spawn 0, .create 0, .dup 0, .close 0] = some s ∧
    (s.Released ↔ ∀ f < s.next, 0 < s.fdRefs f) :=
  exists_some_of rfl fun _ hrun => released_iff _ hrun

theorem closed_not_released : ∃ s, exec step .init [.spawn 0, .create 0, .close 0] = some s ∧
    s.fdRefs 0 = 0 ∧ s.freed 0 = 0 ∧ s.ipcfdFile 0 = some 0 ∧ ¬ s.Released :=
  ⟨_, rfl, rfl, rfl, rfl, fun h => absurd (h.last 0 Nat.one_pos rfl).1 Nat.zero_ne_one⟩

end XosKernel.IpcFd
