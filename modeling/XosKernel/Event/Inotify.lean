/-
# The locks of inotify

`sys_inotify_add_watch`, `sys_inotify_rm_watch` and `inotify_inode_event` of `bsd/inotify.c`, cut
where a lock is taken or released. Adding a watch takes the index lock inside the lock of its
instance; an event takes the locks of the instances inside the index lock.

Where a call stands says which locks it has; a step that takes a lock waits until no call has it.
What a call finds on the list of its instance, whether there is memory and whether a watch wants the
event are part of the action. Masks and event queues are left out.
-/
import XosKernel.Lib.Run

namespace XosKernel.Inotify

open Function

inductive Lock
  | index
  | inst (i : ℕ)
deriving DecidableEq

inductive Call
  | addWatch (i ip : ℕ)
  | rmWatch (i ip : ℕ)
  | inodeEvent (ip : ℕ)
deriving DecidableEq

/-- Where a call stands: `i` is its instance, `ip` its inode, `rest` the instances still to be told.
-/
inductive Pc
  | idle
  | start (c : Call)
  | added (i ip : ℕ)
  | link (i ip : ℕ)
  | linking (i ip : ℕ)
  | unlock (i : ℕ)
  | removing (i ip : ℕ)
  | unlink (i ip : ℕ)
  | unlinking (i ip : ℕ)
  | walk (rest : List ℕ)
  | notify (i : ℕ) (rest : List ℕ)
  | queue (i : ℕ) (rest : List ℕ)
deriving DecidableEq

namespace Pc

/-- The lock that the call takes next. -/
def wants : Pc → Option Lock
  | start (.addWatch i _) | start (.rmWatch i _) | notify i _ => some (.inst i)
  | start (.inodeEvent _) | link _ _ | unlink _ _ => some .index
  | _ => none

def holds : Pc → List Lock
  | added i _ | link i _ | unlock i | removing i _ => [.inst i]
  | linking i _ | queue i _ => [.inst i, .index]
  | unlinking _ _ | walk _ | notify _ _ => [.index]
  | _ => []

/-- The call goes on; `b` if it makes, finds or tells a watch. -/
def next (index : ℕ → List ℕ) (b : Bool) : Pc → Pc
  | idle => idle
  | start (.addWatch i ip) => added i ip
  | added i ip => if b then link i ip else idle
  | link i ip => linking i ip
  | linking i _ => unlock i
  | unlock _ => idle
  | start (.rmWatch i ip) => removing i ip
  | removing i ip => if b then unlink i ip else idle
  | unlink i ip => unlinking i ip
  | unlinking _ _ => idle
  | start (.inodeEvent ip) => walk (index ip)
  | walk [] => idle
  | walk (i :: rest) => if b then notify i rest else walk rest
  | notify i rest => queue i rest
  | queue _ rest => walk rest

def reindex (index : ℕ → List ℕ) (b : Bool) : Pc → ℕ → List ℕ
  | linking i ip => if b then update index ip (index ip ++ [i]) else index
  | unlinking i ip => update index ip ((index ip).erase i)
  | _ => index

/-- A watch is being added, and the index lock has not been taken yet. -/
def midway : Pc → Bool
  | added _ _ | link _ _ => true
  | _ => false

/-- An event goes through the watches of its inode. -/
def inEvent : Pc → Bool
  | walk _ | notify _ _ | queue _ _ => true
  | _ => false

end Pc

structure Sys (T : Type*) where
  /-- the instances that watch an inode -/
  index : ℕ → List ℕ
  pc : T → Pc

inductive Act (T : Type*)
  | call (t : T) (c : Call)
  | go (t : T) (b : Bool)

variable {T : Type*} [DecidableEq T]

def Sys.init : Sys T := ⟨fun _ => [], fun _ => .idle⟩

def Sys.goto (s : Sys T) (t : T) (pc : Pc) : Sys T := { s with pc := update s.pc t pc }

def step [Fintype T] (s : Sys T) : Act T → Option (Sys T)
  | .call t c => if s.pc t = .idle then some (s.goto t (.start c)) else none
  | .go t b =>
    if ∀ l ∈ (s.pc t).wants, ∀ u, l ∉ (s.pc u).holds then
      some ({ s with index := (s.pc t).reindex s.index b }.goto t ((s.pc t).next s.index b))
    else none

/-- Two calls have one of the two locks each and want the other. -/
def Sys.Deadlock (s : Sys T) : Prop :=
  ∃ t u i, .inst i ∈ (s.pc t).holds ∧ (s.pc t).wants = some .index ∧
    .index ∈ (s.pc u).holds ∧ (s.pc u).wants = some (.inst i)

/-- A call that adds a watch starts only while no event goes through a list, and an event only while
no such call is midway. -/
def Exclusive (s : Sys T) : Act T → Prop
  | .go t _ =>
    match s.pc t with
    | .start (.addWatch _ _) => ∀ u, (s.pc u).inEvent = false
    | .start (.inodeEvent _) => ∀ u, (s.pc u).midway = false
    | _ => True
  | .call _ _ => True

instance [Fintype T] (s : Sys T) (a : Act T) : Decidable (Exclusive s a) := by
  unfold Exclusive
  split
  · split <;> infer_instance
  · infer_instance

def Sys.Apart (s : Sys T) : Prop := ∀ t u, (s.pc t).midway = true → (s.pc u).inEvent = false

variable {s s' : Sys T} {t : T} {pc : Pc}

lemma Pc.midway_next {index : ℕ → List ℕ} {b : Bool} (h : (pc.next index b).midway = true) :
    pc.midway = true ∨ ∃ i ip, pc = .start (.addWatch i ip) := by
  fun_cases Pc.next index b pc <;> simp_all [Pc.next, midway]

lemma Pc.inEvent_next {index : ℕ → List ℕ} {b : Bool} (h : (pc.next index b).inEvent = true) :
    pc.inEvent = true ∨ ∃ ip, pc = .start (.inodeEvent ip) := by
  fun_cases Pc.next index b pc <;> simp_all [Pc.next, inEvent]

lemma Sys.Apart.goto (h : s.Apart) (hmid : pc.midway = true → ∀ u, u ≠ t → (s.pc u).inEvent = false)
    (hev : pc.inEvent = true → ∀ u, u ≠ t → (s.pc u).midway = false) : (s.goto t pc).Apart := by
  intro u v hu
  by_cases hut : u = t <;> by_cases hvt : v = t <;> simp only [Sys.goto, hut, hvt, update_self,
    ne_eq, not_false_eq_true, update_of_ne] at hu ⊢
  · cases pc <;> simp_all [Pc.midway, Pc.inEvent]
  · exact hmid hu v hvt
  · by_contra hin
    exact absurd hu (by simp [hev (by simpa using hin) u hut])
  · exact h u v hu

variable [Fintype T]

lemma Sys.Apart.step (h : s.Apart) {a : Act T} (hC : Exclusive s a) (hs : step s a = some s') :
    s'.Apart := by
  cases a with
  | call t c =>
    obtain ⟨-, rfl⟩ := of_guard hs
    exact h.goto nofun nofun
  | go t b =>
    obtain ⟨-, rfl⟩ := of_guard hs
    refine Sys.Apart.goto (s := { s with index := _ }) h (fun hm u _ => ?_) fun he u _ => ?_
    · rcases Pc.midway_next hm with hmid | ⟨i, ip, hpc⟩
      · exact h t u hmid
      · simp only [Exclusive, hpc] at hC
        exact hC u
    · rcases Pc.inEvent_next he with hin | ⟨ip, hpc⟩
      · by_contra hmid
        exact absurd (h u t (by simpa using hmid)) (by simp [hin])
      · simp only [Exclusive, hpc] at hC
        exact hC u

/-- In every run in which adding a watch and going through the watches of an inode exclude each
other, no two calls have one of the two locks each and wait for the other. -/
theorem inotify_no_deadlock (as : List (Act T)) (hC : Meets step Exclusive Sys.init as)
    (hs : exec step Sys.init as = some s) : ¬ s.Deadlock := by
  have hapart : s.Apart :=
    exec_invariant_of_meets (fun _ _ _ h hC hs => h.step hC hs) as _ _ (fun _ _ _ => rfl) hC hs
  rintro ⟨t, u, i, ht, hwt, hu, hwu⟩
  -- only a call that adds a watch wants the index lock inside another one, and only an event wants
  -- one
  -- inside the index lock
  have hmid : (s.pc t).midway = true := by
    cases hpc : s.pc t <;> simp_all [Pc.wants, Pc.holds, Pc.midway]
  have hin : (s.pc u).inEvent = true := by
    cases hpc : s.pc u <;> simp_all [Pc.wants, Pc.holds, Pc.inEvent]
  exact absurd (hapart t u hmid) (by simp [hin])

/-- One task adds a watch of inode 5 to instance 0, and an event of the other comes to it. -/
def watchedEvent : List (Act Bool) :=
  [.call true (.addWatch 0 5), .go true true, .go true true, .go true true, .go true true,
    .go true true, .call false (.inodeEvent 5), .go false true, .go false true, .go false true]

theorem inotify_no_deadlock_watched :
    ∃ s, exec step Sys.init watchedEvent = some s ∧ (s.pc false).holds = [.inst 0, .index] ∧
      ¬ s.Deadlock :=
  ⟨_, rfl, rfl, inotify_no_deadlock watchedEvent (by decide +kernel) rfl⟩

/-- Instance 0 watches inode 5.  One task adds another watch to it and has its lock; an event on
inode 5 has the index lock. -/
theorem inotify_deadlock :
    ∃ s : Sys Bool, exec step Sys.init [.call true (.addWatch 0 5), .go true true, .go true true,
      .go true true, .go true true, .go true true, .call true (.addWatch 0 6), .go true true,
      .go true true,
      .call false (.inodeEvent 5), .go false true, .go false true] = some s ∧ s.Deadlock :=
  ⟨_, rfl, true, false, 0, .head _, rfl, .head _, rfl⟩

end XosKernel.Inotify
