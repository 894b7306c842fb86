/-
# Read-copy-update

`rcu_read_lock`, `rcu_read_unlock`, `rcu_quiescent` (`kernel/xcore/rcu.h`) and `synchronize_rcu`
(`kernel/xcore/rcu.c`) on any number of CPUs.

A CPU reports by reading `global_gen` and storing what it read into its `cpu_gen`. It does so with
interrupts off, so nothing else happens on that CPU in between, but other CPUs go on; each access to
a shared counter is a step of its own. A caller of `synchronize_rcu` makes a step only while its CPU
is outside of read-side sections: it is not called inside of one, and a section that an interrupt
begins ends before the interrupted caller goes on. The inter-processor interrupts that the caller
sends only bring about reports, which can happen at any time here.

Every section carries its number, in the order in which the sections began, and the generation in
which it began. A CPU inside of a section does not report, so its `cpu_gen` is at most the
generation of each of its open sections; and the sections that began before a call belong to
generations before the one that the call waits for.
-/
import XosKernel.Lib.Run

namespace XosKernel.Rcu

open List Option Function

/-- The value of an `int` after wrapping around. -/
def s32 (x : ℤ) : ℤ := Int.bmod x (2 ^ 32)

lemma s32_of_lt {n : ℕ} (h : n < 2 ^ 31) : s32 n = n := by
  rw [s32, Int.bmod_def]
  omega

/-! ## The model -/

structure Section where
  /-- how many sections began before it -/
  no : ℕ
  /-- `global_gen` when it began -/
  gen : ℤ
deriving DecidableEq

/-- Where a CPU is in reporting a quiescent state. -/
inductive Report
  | idle
  /-- is about to read `global_gen` -/
  | due
  /-- has read `global_gen` and is about to store it -/
  | read (gen : ℤ)
deriving DecidableEq

/-- A CPU: `rcu_local.nesting`, `cpu_gen`, and the sections that are open on it, the innermost
first. -/
structure Cpu where
  nesting : ℕ
  gen : ℤ
  report : Report
  sections : List Section
deriving DecidableEq

/-- Where a caller is in `synchronize_rcu`. -/
inductive Pc
  | entered
  /-- holds `writer_lock` -/
  | locked
  /-- has incremented `global_gen` to `newGen` -/
  | counted (newGen : ℤ)
  /-- has stored `newGen` into the `cpu_gen` of its own CPU -/
  | published (newGen : ℤ)
  | waiting (newGen : ℤ) (i : ℕ)
  | returned
deriving DecidableEq

/-- A call of `synchronize_rcu` on a CPU; the sections with numbers below `since` began before it.
-/
structure Call where
  cpu : ℕ
  since : ℕ
  pc : Pc
deriving DecidableEq

structure Sys where
  ncpu : ℕ
  globalGen : ℤ
  writerLock : Bool
  cpu : ℕ → Cpu
  calls : List Call
  begun : ℕ
  /-- the number of grace periods that have begun -/
  grace : ℕ

/-- `rcu_init`. -/
def Sys.init (ncpu : ℕ) : Sys where
  ncpu := ncpu
  globalGen := 0
  writerLock := false
  cpu := fun _ => ⟨0, 0, .idle, []⟩
  calls := []
  begun := 0
  grace := 0

def Sys.setCpu (s : Sys) (c : ℕ) (x : Cpu) : Sys := { s with cpu := Function.update s.cpu c x }

def Sys.setPc (s : Sys) (k : ℕ) (call : Call) (pc : Pc) : Sys :=
  { s with calls := s.calls.set k { call with pc := pc } }

/-- The CPU is neither inside of a section nor in a report. -/
def Cpu.Outside (x : Cpu) : Prop := x.nesting = 0 ∧ x.report = .idle
deriving Decidable

inductive Act
  | readLock (c : ℕ)
  | readUnlock (c : ℕ)
  /-- an interrupt calls `rcu_quiescent` -/
  | quiescent (c : ℕ)
  /-- the next access of a report -/
  | report (c : ℕ)
  /-- `synchronize_rcu` is called -/
  | call (c : ℕ)
  /-- the next step of the call with index `k` -/
  | advance (k : ℕ)
deriving DecidableEq

def rcuReadLock (s : Sys) (c : ℕ) : Sys :=
  { s.setCpu c
      { s.cpu c with
        nesting := (s.cpu c).nesting + 1
        sections := ⟨s.begun, s.globalGen⟩ :: (s.cpu c).sections } with
    begun := s.begun + 1 }

/-- `rcu_read_unlock`, up to the report of the outermost one. -/
def rcuReadUnlock (s : Sys) (c : ℕ) : Sys :=
  s.setCpu c
    { s.cpu c with
      nesting := (s.cpu c).nesting - 1
      sections := (s.cpu c).sections.tail
      report := if (s.cpu c).nesting - 1 = 0 then .due else .idle }

/-- `rcu_quiescent`, up to the report. -/
def rcuQuiescent (s : Sys) (c : ℕ) : Sys :=
  if (s.cpu c).nesting ≠ 0 then s else s.setCpu c { s.cpu c with report := .due }

def report (s : Sys) (c : ℕ) : Option Sys :=
  match (s.cpu c).report with
  | .idle => none
  | .due => some (s.setCpu c { s.cpu c with report := .read s.globalGen })
  | .read gen => some (s.setCpu c { s.cpu c with report := .idle, gen := gen })

/-- The next step of a call of `synchronize_rcu`. -/
def synchronizeRcu (s : Sys) (k : ℕ) (call : Call) : Option Sys :=
  match call.pc with
  | .entered =>
    if s.writerLock then none else some { s.setPc k call .locked with writerLock := true }
  | .locked =>
    let newGen := s32 (s.globalGen + 1)
    some { s.setPc k call (.counted newGen) with globalGen := newGen, grace := s.grace + 1 }
  | .counted newGen =>
    some ((s.setPc k call (.published newGen)).setCpu call.cpu { s.cpu call.cpu with gen :=
      newGen })
  | .published newGen => some { s.setPc k call (.waiting newGen 0) with writerLock := false }
  | .waiting newGen i =>
    if s.ncpu ≤ i then some (s.setPc k call .returned)
    else if i = call.cpu then some (s.setPc k call (.waiting newGen (i + 1)))
    else if (s.cpu i).gen < newGen then some s
    else some (s.setPc k call (.waiting newGen (i + 1)))
  | .returned => none

def step (s : Sys) : Act → Option Sys
  | .readLock c => if c < s.ncpu ∧ (s.cpu c).report = .idle then some (rcuReadLock s c) else none
  | .readUnlock c => if 0 < (s.cpu c).nesting then some (rcuReadUnlock s c) else none
  | .quiescent c => if c < s.ncpu ∧ (s.cpu c).report = .idle then some (rcuQuiescent s c) else none
  | .report c => report s c
  | .call c =>
    if c < s.ncpu ∧ (s.cpu c).Outside then
      some { s with calls := s.calls ++ [⟨c, s.begun, .entered⟩] }
    else none
  | .advance k =>
    s.calls[k]?.bind fun call =>
      if (s.cpu call.cpu).Outside then synchronizeRcu s k call else none

/-! ## The invariant -/

/-- What holds of a CPU when `global_gen` is `global`. -/
structure CpuOk (global : ℤ) (x : Cpu) : Prop where
  nesting : x.nesting = x.sections.length
  quiet : x.report ≠ .idle → x.sections = []
  gen : x.gen ≤ global
  read : ∀ g, x.report = .read g → g ≤ global
  behind : ∀ σ ∈ x.sections, x.gen ≤ σ.gen
  opened : ∀ σ ∈ x.sections, σ.gen ≤ global

def Passed (s : Sys) (call : Call) (c : ℕ) : Prop := ∀ σ ∈ (s.cpu c).sections, call.since ≤ σ.no

/-- The generation that a call waits for. -/
def Pc.target : Pc → Option ℤ
  | .entered | .locked | .returned => none
  | .counted g | .published g | .waiting g _ => some g

/-- The call has finished waiting for CPU `c`. -/
def Pc.Past (ncpu : ℕ) : Pc → ℕ → Prop
  | .entered, _ | .locked, _ | .counted _, _ | .published _, _ => False
  | .waiting _ i, c => c < i
  | .returned, c => c < ncpu

structure CallOk (s : Sys) (call : Call) : Prop where
  since : call.since ≤ s.begun
  own : Passed s call call.cpu
  target : ∀ g ∈ call.pc.target, g ≤ s.globalGen ∧
    ∀ c, ∀ σ ∈ (s.cpu c).sections, σ.no < call.since → σ.gen < g
  past : ∀ c, call.pc.Past s.ncpu c → Passed s call c

/-- The invariant while `global_gen` has not wrapped around. -/
structure Inv (s : Sys) : Prop where
  global : s.globalGen = s.grace
  cpu : ∀ c, CpuOk s.globalGen (s.cpu c)
  calls : ∀ call ∈ s.calls, CallOk s call

lemma inv_init (ncpu : ℕ) : Inv (Sys.init ncpu) where
  global := rfl
  cpu _ := ⟨rfl, fun _ => rfl, le_rfl, by simp [Sys.init], by simp [Sys.init], by simp [Sys.init]⟩
  calls := by simp [Sys.init]

variable {s s' : Sys} {c k : ℕ} {call : Call} {x : Cpu}

lemma CpuOk.mono {g g' : ℤ} (h : CpuOk g x) (hg : g ≤ g') : CpuOk g' x where
  __ := h
  gen := h.gen.trans hg
  read v hv := (h.read v hv).trans hg
  opened σ hσ := (h.opened σ hσ).trans hg

lemma CpuOk.sections_nil {g : ℤ} (h : CpuOk g x) (hn : x.nesting = 0) : x.sections = [] :=
  eq_nil_of_length_eq_zero (h.nesting ▸ hn)

/-- The sections of `s'` are sections of `s` or have begun since. -/
structure Onward (s s' : Sys) : Prop where
  ncpu : s'.ncpu = s.ncpu
  begun : s.begun ≤ s'.begun
  global : s.globalGen ≤ s'.globalGen
  sections : ∀ c, ∀ σ ∈ (s'.cpu c).sections, σ ∈ (s.cpu c).sections ∨ s.begun ≤ σ.no

lemma CallOk.onward (h : CallOk s call) (ho : Onward s s') : CallOk s' call := by
  have hpassed : ∀ c, Passed s call c → Passed s' call c := fun c hc σ hσ =>
    (ho.sections c σ hσ).elim (hc σ) h.since.trans
  refine ⟨h.since.trans ho.begun, hpassed _ h.own, fun g hg => ?_, fun c hc => ?_⟩
  · obtain ⟨hle, hbefore⟩ := h.target g hg
    refine ⟨hle.trans ho.global, fun c σ hσ hno => ?_⟩
    rcases ho.sections c σ hσ with hσ | hσ
    · exact hbefore c σ hσ hno
    · exact absurd hno (not_lt.2 (h.since.trans hσ))
  · exact hpassed c (h.past c (ho.ncpu ▸ hc))

lemma sections_setCpu {d : ℕ} {σ : Section} (hσ : σ ∈ ((s.setCpu c x).cpu d).sections) :
    d = c ∧ σ ∈ x.sections ∨ σ ∈ (s.cpu d).sections := by
  by_cases hd : d = c
  · subst hd
    exact .inl ⟨rfl, by simpa [Sys.setCpu] using hσ⟩
  · exact .inr (by simpa [Sys.setCpu, hd] using hσ)

section

variable (h : Inv s)
include h

lemma Inv.setCpu (hx : CpuOk s.globalGen x)
    (hsub : ∀ σ ∈ x.sections, σ ∈ (s.cpu c).sections) : Inv (s.setCpu c x) where
  global := h.global
  cpu d := by
    by_cases hd : d = c
    · subst hd
      simpa [Sys.setCpu] using hx
    · simpa [Sys.setCpu, hd] using h.cpu d
  calls call hcall := (h.calls call hcall).onward
    { ncpu := rfl
      begun := le_rfl
      global := le_rfl
      sections := fun d σ hσ =>
        .inl <| (sections_setCpu hσ).elim (fun ⟨hd, hσ⟩ => hd ▸ hsub σ hσ) id }

lemma Inv.setPc (k : ℕ) (call : Call) (pc : Pc) (hpc : CallOk s { call with pc := pc }) :
    Inv (s.setPc k call pc) where
  __ := h
  calls call' hcall := by
    have ho : Onward s (s.setPc k call pc) := ⟨rfl, le_rfl, le_rfl, fun _ _ hσ => .inl hσ⟩
    rcases mem_or_eq_of_mem_set hcall with hcall | rfl
    · exact (h.calls call' hcall).onward ho
    · exact hpc.onward ho

/-! ## The steps -/

lemma Inv.rcuReadLock (hidle : (s.cpu c).report = .idle) : Inv (rcuReadLock s c) := by
  have hc := h.cpu c
  refine ⟨h.global, fun d => ?_, fun call hcall => (h.calls call hcall).onward ?_⟩
  · by_cases hd : d = c
    · subst hd
      change CpuOk s.globalGen (update s.cpu d _ d)
      rw [update_self]
      refine ⟨by simp [hc.nesting], fun hr => absurd hidle hr, hc.gen, hc.read, ?_, ?_⟩
      · exact forall_mem_cons.2 ⟨hc.gen, hc.behind⟩
      · exact forall_mem_cons.2 ⟨le_rfl, hc.opened⟩
    · change CpuOk s.globalGen (update s.cpu c _ d)
      rw [update_of_ne hd]
      exact h.cpu d
  · refine ⟨rfl, Nat.le_succ _, le_rfl, fun d σ hσ => ?_⟩
    rcases sections_setCpu hσ with ⟨rfl, hσ⟩ | hσ
    · rcases mem_cons.1 hσ with rfl | hσ
      · exact .inr le_rfl
      · exact .inl hσ
    · exact .inl hσ

lemma Inv.rcuReadUnlock : Inv (rcuReadUnlock s c) := by
  have hc := h.cpu c
  have hlen := hc.nesting
  refine h.setCpu ⟨?_, fun hr => ?_, hc.gen, fun g hg => ?_, fun σ hσ => ?_, fun σ hσ => ?_⟩
    fun σ hσ => mem_of_mem_tail hσ
  · simp [hlen]
  · -- the report is due because this was the outermost section
    by_cases hn : (s.cpu c).nesting - 1 = 0
    · exact eq_nil_of_length_eq_zero (by simp [← hlen, hn])
    · exact absurd (if_neg hn) hr
  · dsimp only at hg
    split_ifs at hg
  · exact hc.behind σ (mem_of_mem_tail hσ)
  · exact hc.opened σ (mem_of_mem_tail hσ)

lemma Inv.rcuQuiescent : Inv (rcuQuiescent s c) := by
  rw [Rcu.rcuQuiescent]
  split_ifs with hn
  · exact h
  · have hc := h.cpu c
    have hnil := hc.sections_nil (not_not.1 hn)
    exact h.setCpu ⟨hc.nesting, fun _ => hnil, hc.gen, fun g hg => Report.noConfusion hg, hc.behind,
      hc.opened⟩ fun σ hσ => hσ

lemma Inv.report (hs : report s c = some s') : Inv s' := by
  have hc := h.cpu c
  rw [Rcu.report] at hs
  cases hr : (s.cpu c).report with
  | idle => simp [hr] at hs
  | due =>
    have hnil := hc.quiet (by simp [hr])
    simp only [hr, some.injEq] at hs
    subst hs
    refine h.setCpu ⟨hc.nesting, fun _ => hnil, hc.gen, fun g hg => ?_, hc.behind, hc.opened⟩
      fun σ hσ => hσ
    exact (Report.read.inj hg).ge
  | read gen =>
    have hnil := hc.quiet (by simp [hr])
    simp only [hr, some.injEq] at hs
    subst hs
    refine h.setCpu ⟨hc.nesting, fun hi => absurd rfl hi, hc.read gen hr, fun g hg =>
      Report.noConfusion hg, ?_, hc.opened⟩ fun σ hσ => hσ
    -- outside of sections any generation may be stored
    simp [hnil]

lemma Inv.newCall (hout : (s.cpu c).Outside) :
    Inv { s with calls := s.calls ++ [⟨c, s.begun, .entered⟩] } := by
  have ho : Onward s { s with calls := s.calls ++ [⟨c, s.begun, .entered⟩] } :=
    ⟨rfl, le_rfl, le_rfl, fun _ _ hσ => .inl hσ⟩
  refine ⟨h.global, h.cpu, forall_mem_append.2 ⟨fun call hcall => (h.calls call hcall).onward ho,
    ?_⟩⟩
  refine forall_mem_singleton.2 ⟨le_rfl, ?_, fun _ hg => (nomatch hg), fun d hd => hd.elim⟩
  intro σ hσ
  have hnil := (h.cpu c).sections_nil hout.1
  exact absurd hσ (by simp [hnil])

/-- The increment of `global_gen`: all sections that are open now belong to earlier generations. -/
lemma Inv.counted (hcall : CallOk s call) (hw : s.grace + 1 < 2 ^ 31) :
    Inv { s.setPc k call (.counted (s32 (s.globalGen + 1))) with
      globalGen := s32 (s.globalGen + 1), grace := s.grace + 1 } := by
  have hnext : s32 (s.globalGen + 1) = s.globalGen + 1 := by
    rw [h.global, ← Nat.cast_succ, s32_of_lt hw]
  have ho : Onward s { s.setPc k call (.counted (s32 (s.globalGen + 1))) with
      globalGen := s32 (s.globalGen + 1), grace := s.grace + 1 } :=
    ⟨rfl, le_rfl, by simp only [hnext]; omega, fun _ _ hσ => .inl hσ⟩
  refine ⟨?_, fun c => (h.cpu c).mono ho.global, fun call' hcall' => ?_⟩
  · change s32 (s.globalGen + 1) = ((s.grace + 1 : ℕ) : ℤ)
    rw [hnext, h.global, Nat.cast_succ]
  · rcases mem_or_eq_of_mem_set hcall' with hcall' | rfl
    · exact (h.calls call' hcall').onward ho
    · refine ⟨hcall.since, hcall.own, fun g hg => ?_, fun _ hc => hc.elim⟩
      obtain rfl := some.inj hg
      refine ⟨le_rfl, fun c σ hσ _ => ?_⟩
      rw [hnext]
      exact Int.lt_add_one_of_le ((h.cpu c).opened σ hσ)

lemma passed_of_target_le (hcall : CallOk s call) {g : ℤ} (hg : g ∈ call.pc.target)
    (hle : g ≤ (s.cpu c).gen) : Passed s call c := by
  intro σ hσ
  by_contra hno
  have hlt := (hcall.target g hg).2 c σ hσ (not_le.1 hno)
  have hbehind := (h.cpu c).behind σ hσ
  omega

lemma Inv.synchronizeRcu (hcall : call ∈ s.calls) (hout : (s.cpu call.cpu).Outside)
    (hs : synchronizeRcu s k call = some s') (hw : s'.grace < 2 ^ 31) : Inv s' := by
  have hok := h.calls call hcall
  rw [Rcu.synchronizeRcu] at hs
  cases hpc : call.pc with
  | entered =>
    simp only [hpc, ite_none_left_eq_some, some.injEq] at hs
    obtain ⟨-, rfl⟩ := hs
    have h' := h.setPc k call .locked
      ⟨hok.since, hok.own, fun _ hg => (nomatch hg), fun c hc => hc.elim⟩
    exact ⟨h'.global, h'.cpu, fun call' hcall' => (h'.calls call' hcall').onward
      ⟨rfl, le_rfl, le_rfl, fun _ _ hσ => .inl hσ⟩⟩
  | locked =>
    simp only [hpc, some.injEq] at hs
    subst hs
    exact h.counted hok hw
  | counted newGen =>
    simp only [hpc, some.injEq] at hs
    subst hs
    have htarget := hok.target newGen (by simp [hpc, Pc.target])
    have hc := h.cpu call.cpu
    have hnil := hc.sections_nil hout.1
    have h' := h.setPc k call (.published newGen)
      ⟨hok.since, hok.own, fun g hg => some.inj hg ▸ htarget, fun c hc => hc.elim⟩
    refine h'.setCpu ⟨hc.nesting, hc.quiet, htarget.1, hc.read, ?_, hc.opened⟩ fun σ hσ => hσ
    simp [hnil]
  | published newGen =>
    simp only [hpc, some.injEq] at hs
    subst hs
    have htarget := hok.target newGen (by simp [hpc, Pc.target])
    have h' := h.setPc k call (.waiting newGen 0)
      ⟨hok.since, hok.own, fun g hg => some.inj hg ▸ htarget, fun c hc =>
      absurd hc (Nat.not_lt_zero c)⟩
    exact ⟨h'.global, h'.cpu, fun call' hcall' => (h'.calls call' hcall').onward
      ⟨rfl, le_rfl, le_rfl, fun _ _ hσ => .inl hσ⟩⟩
  | waiting newGen i =>
    have htarget := hok.target newGen (by simp [hpc, Pc.target])
    have hpast : ∀ c < i, Passed s call c := fun c hc =>
      hok.past c (by simpa [hpc, Pc.Past] using hc)
    -- going on to the next CPU once this one is done
    have hnext : Passed s call i → Inv (s.setPc k call (.waiting newGen (i + 1))) := by
      refine fun hi => h.setPc _ _ _ ⟨hok.since, hok.own, fun g hg => some.inj hg ▸ htarget,
        fun c hc => ?_⟩
      rcases Nat.lt_succ_iff_lt_or_eq.1 hc with hc | rfl
      · exact hpast c hc
      · exact hi
    simp only [hpc] at hs
    split at hs
    next hend =>
      obtain rfl := some.inj hs
      exact h.setPc _ _ _ ⟨hok.since, hok.own, fun _ hg => (nomatch hg), fun c hc =>
        hpast c (lt_of_lt_of_le hc hend)⟩
    split at hs
    next hown =>
      obtain rfl := some.inj hs
      exact hnext (hown ▸ hok.own)
    split at hs
    · exact some.inj hs ▸ h
    next hlt =>
      obtain rfl := some.inj hs
      exact hnext (passed_of_target_le h hok (by simp [hpc, Pc.target]) (not_lt.1 hlt))
  | returned => simp [hpc] at hs

end

lemma synchronizeRcu_mono (hs : synchronizeRcu s k call = some s') : s.ncpu = s'.ncpu ∧
    s.grace ≤ s'.grace := by
  rw [Rcu.synchronizeRcu] at hs
  cases hpc : call.pc <;> simp only [hpc] at hs
  case entered | locked | counted | published | returned => grind [Sys.setPc, Sys.setCpu]
  case waiting => grind [Sys.setPc]

/-- Grace periods only become more, and the number of CPUs is fixed. -/
lemma step_mono {a : Act} (hs : step s a = some s') : s.ncpu = s'.ncpu ∧ s.grace ≤ s'.grace := by
  cases a with
  | readLock c | readUnlock c | call c =>
    obtain ⟨-, rfl⟩ := of_guard hs
    exact ⟨rfl, le_rfl⟩
  | quiescent c =>
    obtain ⟨-, rfl⟩ := of_guard hs
    rw [rcuQuiescent]
    split_ifs <;> exact ⟨rfl, le_rfl⟩
  | report c =>
    simp only [step, report] at hs
    cases hr : (s.cpu c).report with
    | idle => simp [hr] at hs
    | due | read gen =>
      simp only [hr, some.injEq] at hs
      exact hs ▸ ⟨rfl, le_rfl⟩
  | advance k =>
    obtain ⟨call, -, hs⟩ := bind_eq_some_iff.1 hs
    exact synchronizeRcu_mono (ite_none_right_eq_some.1 hs).2

lemma Inv.step (h : Inv s) {a : Act} (hs : step s a = some s') (hw : s'.grace < 2 ^ 31) :
    Inv s' := by
  cases a with
  | readLock c =>
    obtain ⟨hc, rfl⟩ := of_guard hs
    exact h.rcuReadLock hc.2
  | readUnlock c =>
    obtain ⟨-, rfl⟩ := of_guard hs
    exact h.rcuReadUnlock
  | quiescent c =>
    obtain ⟨-, rfl⟩ := of_guard hs
    exact h.rcuQuiescent
  | report c => exact h.report hs
  | call c =>
    obtain ⟨hc, rfl⟩ := of_guard hs
    exact h.newCall hc.2
  | advance k =>
    obtain ⟨call, hk, hs⟩ := bind_eq_some_iff.1 hs
    obtain ⟨hout, hs⟩ := ite_none_right_eq_some.1 hs
    exact h.synchronizeRcu (mem_of_getElem? hk) hout hs hw

lemma inv_of_exec {ncpu : ℕ} {as : List Act} (h : exec step (Sys.init ncpu) as = some s) :
    s.ncpu = ncpu ∧ (s.grace < 2 ^ 31 → Inv s) := by
  refine exec_invariant (I := fun s => s.ncpu = ncpu ∧ (s.grace < 2 ^ 31 → Inv s))
    (fun s a s' hI hs => ?_) ⟨rfl, fun _ => inv_init ncpu⟩ h
  obtain ⟨hncpu, hmono⟩ := step_mono hs
  exact ⟨hncpu ▸ hI.1, fun hw => (hI.2 (lt_of_le_of_lt hmono hw)).step hs hw⟩

/-- When `synchronize_rcu` has returned, every section that is still open began after the call. -/
theorem grace_period {ncpu : ℕ} {as : List Act} (h : exec step (Sys.init ncpu) as = some s)
    (hw : s.grace < 2 ^ 31) (hcall : call ∈ s.calls) (hret : call.pc = .returned) :
    ∀ c < ncpu, ∀ σ ∈ (s.cpu c).sections, call.since ≤ σ.no := by
  intro c hc
  obtain ⟨rfl, hinv⟩ := inv_of_exec h
  exact ((hinv hw).calls call hcall).past c (by simpa [hret, Pc.Past] using hc)

/-- CPU 1 is in a section when CPU 0 calls; it reports at the end of it, and begins another section
before the call returns. -/
def graceRun : List Act :=
  [.readLock 1, .call 0, .advance 0, .advance 0, .advance 0, .advance 0, .advance 0, .advance 0,
    .readUnlock 1, .report 1, .report 1, .readLock 1, .advance 0, .advance 0]

theorem grace_period_two_cpus : ∃ s, exec step (Sys.init 2) graceRun = some s ∧
    (∃ call ∈ s.calls, call.pc = .returned ∧ call.since = 1 ∧
      ∀ c < 2, ∀ σ ∈ (s.cpu c).sections, call.since ≤ σ.no) ∧ (s.cpu 1).sections ≠ [] := by
  obtain ⟨s, hs, hw, hcalls, hopen⟩ : ∃ s, exec step (Sys.init 2) graceRun = some s ∧ s.grace = 1 ∧
      s.calls = [⟨0, 1, .returned⟩] ∧ (s.cpu 1).sections ≠ [] := by decide +kernel
  refine ⟨s, hs, ⟨⟨0, 1, .returned⟩, by simp [hcalls], rfl, rfl, ?_⟩, hopen⟩
  exact grace_period hs (by omega) (by simp [hcalls]) rfl

end XosKernel.Rcu
