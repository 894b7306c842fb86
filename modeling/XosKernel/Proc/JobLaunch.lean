/-
# Starting a pipeline

The loop of `job_launch` of `shell_command.cc`, with the returns where `pipe` or `fork` fails.
-/
import Mathlib.Tactic

namespace XosKernel.JobLaunch

open Prod

/-- What the shell has done for the job. A pipe end is the stage its pipe was made for and whether
it is the write end. -/
structure Shell where
  opened : List (ℕ × Bool)
  started : List ℕ
  /-- the entry in the job table -/
  used : Bool
  /-- the terminal is the job's -/
  ttyJob : Bool
deriving DecidableEq

/-- The pipeline, and by stage which calls succeed. -/
structure Job where
  count : ℕ
  foreground : Bool
  jobControl : Bool
  pipe : ℕ → Bool
  fork : ℕ → Bool

namespace Job

variable (j : Job)

/-- One turn of the loop; it gives the read end for the next stage, or `none` if the call returns.
-/
def stage (i : ℕ) (previous : Option ℕ) (s : Shell) : Shell × Option (Option ℕ) :=
  let fds := decide (i + 1 < j.count)
  if fds && !j.pipe i then ({ s with used := false }, none)
  else
    let opened := if fds then (i, false) :: (i, true) :: s.opened else s.opened
    let opened := previous.elim opened fun p => opened.erase (p, false)
    if !j.fork i then
      ({ s with opened := (opened.erase (i, false)).erase (i, true), used := false }, none)
    else
      ({ s with
        opened := opened.erase (i, true)
        started := i :: s.started
        ttyJob := s.ttyJob || (i == 0 && j.foreground && j.jobControl) },
        some (if fds then some i else none))

/-- The first turns of the loop. -/
def launch (j : Job) : ℕ → Shell × Option (Option ℕ)
  | 0 => (⟨[], [], true, false⟩, some none)
  | n + 1 => match j.launch n with
    | (s, none) => (s, none)
    | (s, some previous) => j.stage n previous s

end Job

/-- No child runs without an entry, no pipe end is open, and the terminal is the shell's. -/
def Shell.Clean (s : Shell) (running : ℕ → Bool) : Prop :=
  (s.used = false → ∀ i ∈ s.started, running i = false) ∧ s.opened = [] ∧ s.ttyJob = false

variable {j : Job} {i : ℕ}

/-- The shell at a stage after the first when no call has failed. -/
lemma launch_of_ok (hi : i + 1 < j.count) (hok : ∀ k ≤ i, j.pipe k ∧ j.fork k) :
    ∃ started, (∀ k, k ∈ started ↔ k ≤ i) ∧ j.launch (i + 1) =
      (⟨[(i, false)], started, true, j.foreground && j.jobControl⟩, some (some i)) := by
  induction i with
  | zero => exact ⟨[0], by simp, by simp [Job.launch, Job.stage, hi, hok]⟩
  | succ i ih =>
    obtain ⟨started, hmem, hs⟩ := ih (by omega) fun k hk => hok k (by omega)
    refine ⟨(i + 1) :: started, fun k => ?_, ?_⟩
    · rw [List.mem_cons, hmem]
      omega
    · rw [Job.launch, hs]
      simp [Job.stage, hi, hok]

/-- After a return the loop does not go on. -/
lemma launch_of_return {n : ℕ} (hn : i ≤ n) (h : (j.launch i).2 = none) : j.launch n =
    j.launch i := by
  induction n, hn using Nat.le_induction with
  | base => rfl
  | succ n _ ih =>
    rw [Job.launch, ih]
    split
    next hs => exact hs.symm
    next hs => exact nomatch h.symm.trans (congrArg snd hs)

/-- A launch that fails at a stage leaves things in order exactly if this is the first stage, or if
it is the `fork` that fails, the job has not been given the terminal and the stages started have
ended. -/
theorem launch_clean_iff (running : ℕ → Bool) (hi : i < j.count) (hok : ∀ k < i, j.pipe k ∧
    j.fork k) (hfail : i + 1 < j.count ∧ j.pipe i = false ∨ j.fork i = false) :
    (j.launch j.count).1.Clean running ↔ i = 0 ∨ (i + 1 < j.count → j.pipe i) ∧
      (j.foreground && j.jobControl) = false ∧ ∀ k < i, running k = false := by
  cases i with
  | zero =>
    have hs : j.launch 1 = (⟨[], [], false, false⟩, none) := by
      rcases hfail with ⟨hlt, hp⟩ | hf
      · simp [Job.launch, Job.stage, hlt, hp]
      · grind [Job.launch, Job.stage]
    rw [launch_of_return (Nat.succ_le_of_lt hi) (congrArg snd hs), hs]
    simp [Shell.Clean]
  | succ i =>
    obtain ⟨started, hmem, hs⟩ := launch_of_ok hi fun k hk => hok k (Nat.lt_succ_of_le hk)
    by_cases hp : i + 1 + 1 < j.count → j.pipe (i + 1)
    · have hr : j.launch (i + 2) = (⟨[], started, false, j.foreground && j.jobControl⟩, none) := by
        rw [Job.launch, hs]
        grind [Job.stage]
      rw [launch_of_return hi (congrArg snd hr), hr]
      simp [Shell.Clean, hmem, iff_true_intro hp, and_comm]
    · have hr : j.launch (i + 2) =
          (⟨[(i, false)], started, false, j.foreground && j.jobControl⟩, none) := by
        rw [Job.launch, hs]
        grind [Job.stage]
      rw [launch_of_return hi (congrArg snd hr), hr]
      simp [Shell.Clean, hp]

/-- The second `fork` of three background stages fails, and the first stage has ended. -/
theorem launch_clean_iff_second : let j : Job := ⟨3, false, true, fun _ => true, (· == 0)⟩
    (j.launch j.count).1.started = [0] ∧ (j.launch j.count).1.Clean fun _ => false :=
  ⟨rfl, (launch_clean_iff (i := 1) _ (by decide) (by decide) (.inr rfl)).2 (.inr (by simp))⟩

/-- The second `pipe` of three stages fails: the first stage runs without an entry, the end for the
second is open, and the terminal is the job's. -/
theorem failed_pipe_leaves_stages : let j : Job := ⟨3, true, true, (· == 0), fun _ => true⟩
    (j.launch j.count).1 = ⟨[(0, false)], [0], false, true⟩ ∧
      ¬ (j.launch j.count).1.Clean fun _ => true :=
  ⟨rfl, fun h => nomatch h.2.2⟩

end XosKernel.JobLaunch
