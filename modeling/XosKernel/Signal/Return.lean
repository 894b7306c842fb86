/-
# What a signal return restores

Two facts about the pair of `deliver_signal` and `sys_sigreturn`. Returning through the
frame that delivery wrote restores the interrupted context, unless that was on an enabled
alternate stack, which the return leaves. Returning through an arbitrary
frame, which is user memory, restores whatever that frame says: the general registers, and
also the code selector and the flags. The result is a user context only if the frame says
so.
-/
import XosKernel.Signal.Deliver

namespace XosKernel.Signal

open Bytes BitVec

/-- The user code selector. -/
def userCs : ℕ := 0x2B

/-- `IF`. -/
def interruptFlag (rflags : BitVec 64) : Bool := rflags.getLsbD 9

def iopl (rflags : BitVec 64) : BitVec 2 := rflags.extractLsb' 12 2

/-- The registers that both frames have, in the order of `struct sigcontext`. -/
def Trapframe.registers (tf : Trapframe) : List (BitVec 64) :=
  [tf.r8, tf.r9, tf.r10, tf.r11, tf.r12, tf.r13, tf.r14, tf.r15, tf.rdi, tf.rsi, tf.rbp, tf.rbx,
    tf.rdx, tf.rax, tf.rcx, tf.rsp, tf.rip, tf.rflags]

@[inherit_doc Trapframe.registers]
def Sigcontext.registers (sc : Sigcontext) : List (BitVec 64) :=
  [sc.r8, sc.r9, sc.r10, sc.r11, sc.r12, sc.r13, sc.r14, sc.r15, sc.rdi, sc.rsi, sc.rbp, sc.rbx,
    sc.rdx, sc.rax, sc.rcx, sc.rsp, sc.rip, sc.eflags]

/-! ## Return through any frame -/

/-- The context that is left after a return through the frame `f` from the trap frame `tf0`
is a user context, and it is the one the frame describes. -/
structure RestoresUser (f : RtSigframe) (tf0 : Trapframe) (t : Task) (tf : Trapframe) : Prop where
  cs : tf.cs = BitVec.ofNat 64 userCs
  interrupts : interruptFlag tf.rflags = true
  iopl : iopl tf.rflags = 0
  sigkill : has t.sigBlocked (sigmask sigkill) = false
  sigstop : has t.sigBlocked (sigmask sigstop) = false
  registers : tf.registers = f.ucMcontext.registers
  blocked : t.sigBlocked = f.ucSigmask &&& ~~~(sigmask Signal.sigkill ||| sigmask Signal.sigstop)
  stack : tf.ss = tf0.ss

variable (m : UserMem) (t : Task) (tf : Trapframe)

lemma sysSigreturn_sigBlocked : (sysSigreturn m t tf).1.sigBlocked =
    (loadFrame m.byte tf.rsp.toNat).ucSigmask &&& ~~~(sigmask sigkill ||| sigmask sigstop) := by
  have hmask : ∀ x : BitVec 64, x &&& ~~~sigmask sigkill &&& ~~~sigmask sigstop =
      x &&& ~~~(sigmask sigkill ||| sigmask sigstop) := fun x => by
    rw [BitVec.and_assoc, BitVec.not_or]
  rw [← hmask]
  simp only [sysSigreturn]
  split_ifs <;> rfl

lemma sysSigreturn_cs : (sysSigreturn m t tf).2.cs =
    (loadFrame m.byte tf.rsp.toNat).ucMcontext.cs.setWidth 64 := by
  simp only [sysSigreturn]

lemma sysSigreturn_rflags : (sysSigreturn m t tf).2.rflags =
    (loadFrame m.byte tf.rsp.toNat).ucMcontext.eflags := by
  simp only [sysSigreturn]

lemma sysSigreturn_ss : (sysSigreturn m t tf).2.ss = tf.ss := by
  simp only [sysSigreturn]

lemma sysSigreturn_registers : (sysSigreturn m t tf).2.registers =
    (loadFrame m.byte tf.rsp.toNat).ucMcontext.registers := by
  simp only [sysSigreturn, Trapframe.registers, Sigcontext.registers]

lemma has_and_not_unblockable (x : BitVec 64) :
    has (x &&& ~~~(sigmask sigkill ||| sigmask sigstop)) (sigmask sigkill) = false ∧
      has (x &&& ~~~(sigmask sigkill ||| sigmask sigstop)) (sigmask sigstop) = false := by
  have hk : ~~~(sigmask sigkill ||| sigmask sigstop) &&& sigmask sigkill = 0 := by decide
  have hs : ~~~(sigmask sigkill ||| sigmask sigstop) &&& sigmask sigstop = 0 := by decide
  constructor
  · rw [has, BitVec.and_assoc, hk]
    simp
  · rw [has, BitVec.and_assoc, hs]
    simp

/-- A return restores a user context exactly if the frame in user memory holds the user code
selector and flags with `IF` set and `IOPL` zero. -/
theorem sigreturn_restores_user_iff :
    RestoresUser (loadFrame m.byte tf.rsp.toNat) tf (sysSigreturn m t tf).1
        (sysSigreturn m t tf).2 ↔
      (loadFrame m.byte tf.rsp.toNat).ucMcontext.cs = BitVec.ofNat 16 userCs ∧
        interruptFlag (loadFrame m.byte tf.rsp.toNat).ucMcontext.eflags = true ∧
        iopl (loadFrame m.byte tf.rsp.toNat).ucMcontext.eflags = 0 := by
  have hcs : ∀ x : BitVec 16,
      x.setWidth 64 = BitVec.ofNat 64 userCs ↔ x = BitVec.ofNat 16 userCs := by
    intro x
    constructor
    · intro h
      have := congrArg (setWidth 16) h
      simpa [userCs] using this
    · rintro rfl
      rfl
  rw [← hcs, ← sysSigreturn_cs m t tf, ← sysSigreturn_rflags m t tf]
  constructor
  · intro h
    exact ⟨h.cs, h.interrupts, h.iopl⟩
  · rintro ⟨h1, h2, h3⟩
    have hb := sysSigreturn_sigBlocked m t tf
    have hu := has_and_not_unblockable (loadFrame m.byte tf.rsp.toNat).ucSigmask
    rw [← hb] at hu
    exact ⟨h1, h2, h3, hu.1, hu.2, sysSigreturn_registers m t tf, hb, sysSigreturn_ss m t tf⟩

/-- A frame with the kernel code selector, interrupts off and full port access. -/
def ring0Frame : RtSigframe where
  pretcode := 0
  info := ⟨0, 0, 0, 0⟩
  ucFlags := 0
  ucLink := 0
  ucStack := ⟨0, 0, 0⟩
  ucMcontext :=
    { r8 := 0, r9 := 0, r10 := 0, r11 := 0, r12 := 0, r13 := 0, r14 := 0, r15 := 0, rdi := 0,
      rsi := 0, rbp := 0, rbx := 0, rdx := 0, rax := 0, rcx := 0, rsp := 0x7000, rip := 0x400000,
      eflags := 0x3002, cs := 0x08, cr2 := 0 }
  ucSigmask := 0

def ring0Mem : UserMem where
  byte := fun x => ring0Frame.bytes (x - 0x6000)
  writable := fun _ => true

/-- The trap frame of a system call made with `rsp = 0x6000`. -/
def userTrapframe : Trapframe where
  r15 := 0
  r14 := 0
  r13 := 0
  r12 := 0
  r11 := 0x202
  r10 := 0
  r9 := 0
  r8 := 0
  rdi := 0
  rsi := 0
  rbp := 0
  rdx := 0
  rcx := 0x400000
  rbx := 0
  rax := 15
  trapno := 128
  errCode := 0
  rip := 0x400000
  cs := 0x2B
  rflags := 0x202
  rsp := 0x6000
  ss := 0x23

def quietTask : Task where
  sigPending := 0
  sharedPending := 0
  sigBlocked := 0
  signalPending := false
  sigForceInfo := ⟨0, 0, 0, 0⟩
  action := fun _ => ⟨0, 0, 0, 0⟩
  sasSsSp := 0
  sasSsSize := 0
  sasSsFlags := 0

/-- A return through a forged frame leaves a trap frame with the kernel code selector. -/
theorem sigreturn_restores_ring0 :
    (sysSigreturn ring0Mem quietTask userTrapframe).2.cs = 0x08 ∧
    interruptFlag (sysSigreturn ring0Mem quietTask userTrapframe).2.rflags = false ∧
    iopl (sysSigreturn ring0Mem quietTask userTrapframe).2.rflags = 3 ∧
    ¬RestoresUser (loadFrame ring0Mem.byte userTrapframe.rsp.toNat) userTrapframe
      (sysSigreturn ring0Mem quietTask userTrapframe).1
      (sysSigreturn ring0Mem quietTask userTrapframe).2 := by
  have hframe : loadFrame ring0Mem.byte userTrapframe.rsp.toNat = ring0Frame := by
    have hrsp : userTrapframe.rsp.toNat = 0x6000 := by decide
    rw [hrsp]
    refine loadFrame_copy ring0Frame fun k _ => ?_
    simp only [ring0Mem, Nat.add_sub_cancel_left]
  have hcs : (sysSigreturn ring0Mem quietTask userTrapframe).2.cs = 0x08 := by
    rw [sysSigreturn_cs, hframe]
    rfl
  have hflags : (sysSigreturn ring0Mem quietTask userTrapframe).2.rflags = 0x3002 := by
    rw [sysSigreturn_rflags, hframe]
    rfl
  refine ⟨hcs, by rw [hflags]; decide, by rw [hflags]; decide, fun h => ?_⟩
  have := h.cs
  exact absurd this (by decide)

/-! ## Return through a delivered frame -/

section Copy

variable {m t tf} {dst : BitVec 64} {src : ℕ → ℕ} {n x : ℕ}

lemma copyToUser_byte (h : (copyToUser m dst src n).1 = true) {k : ℕ} (hk : k < n) :
    (copyToUser m dst src n).2.byte (dst.toNat + k) = src k := by
  rw [copyToUser] at h ⊢
  split_ifs at h ⊢ with hbad
  have hw : ∀ k < n, m.writable (dst.toNat + k) = true := of_decide_eq_true h
  have hin : dst.toNat ≤ dst.toNat + k ∧ dst.toNat + k < dst.toNat + n ∧
      ∀ j < dst.toNat + k - dst.toNat + 1, m.writable (dst.toNat + j) = true :=
    ⟨by omega, by omega, fun j hj => hw j (by omega)⟩
  show (if _ then _ else _) = src k
  rw [if_pos hin, Nat.add_sub_cancel_left]

lemma copyToUser_other (m : UserMem) (dst : BitVec 64) (src : ℕ → ℕ) (n x : ℕ) (h : x < dst.toNat ∨
    dst.toNat + n ≤ x) : (copyToUser m dst src n).2.byte x = m.byte x := by
  rw [copyToUser]
  split_ifs with hbad
  · rfl
  · show (if _ then _ else _) = m.byte x
    rw [if_neg (by omega)]

lemma validateUserBuf_of_copyToUser (h : (copyToUser m dst src n).1 = true) (hn : n ≠ 0) :
    validateUserBuf dst (BitVec.ofNat 64 n) = true := by
  rw [copyToUser] at h
  split_ifs at h with hbad
  exact Bool.of_not_eq_false fun hv => hbad ⟨hn, hv⟩

end Copy

variable (sig : ℕ) (sa : Sigaction)

/-- The frame and the return address have been copied to the user stack. -/
def Built : Prop :=
  let frame := copyToUser m (deliverRsp t tf sa) (deliverFrame t tf sig sa).bytes sizeofFrame
  frame.1 = true ∧
    (copyToUser frame.2 (deliverRsp t tf sa - 8) (storeFields (fun _ => 0) 0 [⟨0, 8, sa.tramp⟩])
    8).1 = true

/-- The handler has returned to the frame, which is as delivery wrote it. -/
def AtFrame (m' : UserMem) (tf' : Trapframe) : Prop :=
  tf'.rsp = (deliverSignal m t tf sig sa).2.2.rsp + 8 ∧
    ∀ k < sizeofFrame, m'.byte (tf'.rsp.toNat + k) =
      (deliverSignal m t tf sig sa).1.byte (tf'.rsp.toNat + k)

/-- The two outcomes of a delivery: the stack cannot hold the frame, and `SIGSEGV` is made
pending, or the frame is in memory and the trap frame enters the handler. -/
lemma deliverSignal_cases :
    (¬ Built m t tf sig sa ∧ (deliverSignal m t tf sig sa).2.2 = tf) ∨
    (Built m t tf sig sa ∧
      (deliverSignal m t tf sig sa).2.2 = enterHandler tf sig sa (deliverRsp t tf sa) ∧
      ∀ k < sizeofFrame, (deliverSignal m t tf sig sa).1.byte ((deliverRsp t tf sa).toNat + k) =
        (deliverFrame t tf sig sa).bytes k) := by
  rw [deliverSignal, Built]
  generalize deliverRsp t tf sa = u
  obtain ⟨b1, m1, h₁⟩ : ∃ b1 m1,
    copyToUser m u (deliverFrame t tf sig sa).bytes sizeofFrame = (b1, m1) := ⟨_, _, rfl⟩
  obtain ⟨b2, m2, h₂⟩ : ∃ b2 m2,
    copyToUser m1 (u - 8) (storeFields (fun _ => 0) 0 [⟨0, 8, sa.tramp⟩]) 8 = (b2, m2) :=
    ⟨_, _, rfl⟩
  simp only [h₁, h₂]
  split_ifs with hfail
  · exact .inl ⟨fun hb => by simp [hb] at hfail, rfl⟩
  · right
    obtain ⟨rfl, rfl⟩ : b1 = true ∧ b2 = true := by simpa using hfail
    refine ⟨⟨rfl, rfl⟩, rfl, fun k hk => ?_⟩
    -- the return address lies below the frame
    have hvalid : validateUserBuf (u - 8) 8 = true :=
      validateUserBuf_of_copyToUser (by rw [h₂]) (by decide)
    have hbelow : (u - 8).toNat + 8 ≤ u.toNat := by
      simp only [validateUserBuf, Bool.not_eq_true', Bool.or_eq_false_iff, decide_eq_false_iff_not,
        sub_add_cancel] at hvalid
      have := hvalid.1.1.2
      bv_omega
    have hother : m2.byte (u.toNat + k) = m1.byte (u.toNat + k) := by
      have := copyToUser_other m1 (u - 8) (storeFields (fun _ => 0) 0 [⟨0, 8, sa.tramp⟩]) 8
        (u.toNat + k) (.inr (by omega))
      rwa [h₂] at this
    have hbyte := copyToUser_byte (k := k) (by rw [h₁]) hk
    rw [h₁] at hbyte
    exact hother.trans hbyte

variable {m t tf sig sa} {m' : UserMem} {t' : Task} {tf' : Trapframe}

lemma loadFrame_of_atFrame (hb : Built m t tf sig sa) (h : AtFrame m t tf sig sa m' tf') :
    loadFrame m'.byte tf'.rsp.toNat = deliverFrame t tf sig sa := by
  obtain ⟨hrsp, hmem⟩ := h
  rcases deliverSignal_cases m t tf sig sa with ⟨hnot, -⟩ | ⟨-, henter, hframe⟩
  · exact absurd hb hnot
  · have hbase : tf'.rsp = deliverRsp t tf sa := by
      have hhandler : (enterHandler tf sig sa (deliverRsp t tf sa)).rsp =
          deliverRsp t tf sa - 8 := by
        rw [enterHandler]
        split_ifs <;> rfl
      rw [hrsp, henter, hhandler, sub_add_cancel]
    refine loadFrame_copy _ fun k hk => ?_
    rw [hmem k hk, hbase]
    exact hframe k hk

/-! ### Nested deliveries -/

/-- What happens to a task between two points of a handler: signals are delivered, their handlers
return through the frames as they were written, and all but the alternate stack changes in any
way. -/
inductive Nested : Task → Task → Prop
  | other {t t' : Task} (hflags : t'.sasSsFlags = t.sasSsFlags) : Nested t t'
  | round {t0 t t' t1 : Task} {m m' : UserMem} {tf tf' : Trapframe} {sig : ℕ} {sa : Sigaction}
      (before : Nested t0 t) (hb : Built m t tf sig sa) (inside : Nested (deliverTask t sig sa) t')
      (hf : AtFrame m t tf sig sa m' tf')
      (hflags : t1.sasSsFlags = (sysSigreturn m' t' tf').1.sasSsFlags) : Nested t0 t1

/-- Flags of a task that is not on the alternate stack, or is on it while it is off, stay so. -/
structure Keeps (x y : BitVec 32) : Prop where
  off : has x ssOnstack = false → has y ssOnstack = false
  disabled : has x ssOnstack = true → has x ssDisable = true →
    has y ssOnstack = true ∧ has y ssDisable = true

lemma has_and_ssOnstack (x y : BitVec 32) :
    has (x &&& y) ssOnstack = (has x ssOnstack && y.getLsbD 0) := by
  have hbit : ∀ z : BitVec 32, has z ssOnstack = z.getLsbD 0 := fun z => by
    have hz : z &&& ssOnstack = (ofBool (z.getLsbD 0)).setWidth 32 :=
      and_one_eq_setWidth_ofBool_getLsbD
    rw [has, hz]
    cases z.getLsbD 0 <;> rfl
  rw [hbit, hbit, getLsbD_and]

lemma has_and_not_ssOnstack (x : BitVec 32) : has (x &&& ~~~ssOnstack) ssOnstack = false := by
  rw [has_and_ssOnstack]
  exact Bool.and_false _

/-- A return leaves the alternate stack if delivery has switched to it, or has found the task on it
while it was not off. -/
lemma sasSsFlags_sigreturn (hb : Built m t tf sig sa) (hf : AtFrame m t tf sig sa m' tf') :
    (sysSigreturn m' t' tf').1.sasSsFlags =
      if t.switchesStack sa = true ∨ has t.sasSsFlags ssOnstack = true ∧ has t.sasSsFlags ssDisable
        = false
      then t'.sasSsFlags &&& ~~~ssOnstack else t'.sasSsFlags := by
  have hflag : has (deliverFrame t tf sig sa).ucStack.ssFlags ssOnstack = true ↔
    t.switchesStack sa = true ∨
      has t.sasSsFlags ssOnstack = true ∧ has t.sasSsFlags ssDisable = false := by
    simp only [deliverFrame]
    split_ifs with hs hd
    · simp only [hs, true_or, iff_true]
      rfl
    · simp only [hs, hd, Bool.true_eq_false, and_false, or_false]
      decide
    · rw [has_and_ssOnstack]
      simp [hs, hd, ssOnstack]
  simp only [sysSigreturn, loadFrame_of_atFrame hb hf, hflag]
  split_ifs <;> rfl

lemma Keeps.round (h : Keeps (deliverTask t sig sa).sasSsFlags t'.sasSsFlags)
    (hb : Built m t tf sig sa)
    (hf : AtFrame m t tf sig sa m' tf') :
    Keeps t.sasSsFlags (sysSigreturn m' t' tf').1.sasSsFlags := by
  rw [sasSsFlags_sigreturn hb hf]
  by_cases hs : t.switchesStack sa = true
  · rw [if_pos (.inl hs)]
    refine ⟨fun _ => has_and_not_ssOnstack _, fun _ hdis => ?_⟩
    simp [Task.switchesStack, hdis] at hs
  · have hsame : (deliverTask t sig sa).sasSsFlags = t.sasSsFlags := by simp [deliverTask, hs]
    rw [hsame] at h
    refine ⟨fun hoff => ?_, fun hon hdis => ?_⟩
    · rw [if_neg (by simp [hs, hoff])]
      exact h.off hoff
    · rw [if_neg (by simp [hs, hdis])]
      exact h.disabled hon hdis

lemma Nested.keeps {t0 : Task} (h : Nested t0 t) : Keeps t0.sasSsFlags t.sasSsFlags := by
  induction h with
  | other hflags => exact hflags ▸ ⟨id, .intro⟩
  | round before hb inside hf hflags ihBefore ihInside =>
    have hround := ihInside.round hb hf
    rw [hflags]
    exact ⟨fun hoff => hround.off (ihBefore.off hoff), fun hon hdis =>
      (ihBefore.disabled hon hdis).elim hround.disabled⟩

lemma and_not_eq_self_iff (x y : BitVec 64) : x &&& ~~~y = x ↔ x &&& y = 0#64 := by
  have hsplit : x &&& y ||| x &&& ~~~y = x := by
    rw [← and_or_distrib_left, or_not_self, and_allOnes]
  constructor
  · intro h
    rw [← h, BitVec.and_assoc, BitVec.and_comm (~~~y), BitVec.and_not_self]
    exact BitVec.and_zero
  · intro h
    rwa [h, zero_or] at hsplit

/-- Registers, mask and being on the alternate stack are those before the delivery. -/
def RestoresContext (t : Task) (tf : Trapframe) (t' : Task) (tf' : Trapframe) : Prop :=
  tf'.registers = tf.registers ∧ t'.sigBlocked = t.sigBlocked ∧
    has t'.sasSsFlags ssOnstack = has t.sasSsFlags ssOnstack

/-- A handler that returns through the frame as it was written, with any deliveries that have
returned in between, restores the context exactly if `SIGKILL` and `SIGSTOP` were not blocked and
the task was not on an alternate stack, or that was off. -/
theorem sigreturn_restores_context_iff (hb : Built m t tf sig sa)
    (hin : Nested (deliverTask t sig sa) t') (hf : AtFrame m t tf sig sa m' tf') :
    RestoresContext t tf (sysSigreturn m' t' tf').1 (sysSigreturn m' t' tf').2 ↔
      t.sigBlocked &&& (sigmask sigkill ||| sigmask sigstop) = 0 ∧
        (has t.sasSsFlags ssOnstack = true → has t.sasSsFlags ssDisable = true) := by
  have hload := loadFrame_of_atFrame hb hf
  have hkeeps := hin.keeps.round hb hf
  have hregs : (sysSigreturn m' t' tf').2.registers = tf.registers := by
    rw [sysSigreturn_registers, hload]
    rfl
  have hmask : (sysSigreturn m' t' tf').1.sigBlocked = t.sigBlocked ↔
      t.sigBlocked &&& (sigmask sigkill ||| sigmask sigstop) = 0 := by
    rw [sysSigreturn_sigBlocked, hload]
    exact and_not_eq_self_iff _ _
  have hstack : has (sysSigreturn m' t' tf').1.sasSsFlags ssOnstack = has t.sasSsFlags ssOnstack ↔
      (has t.sasSsFlags ssOnstack = true → has t.sasSsFlags ssDisable = true) := by
    cases hon : has t.sasSsFlags ssOnstack with
    | false => simp [hkeeps.off hon]
    | true =>
      cases hdis : has t.sasSsFlags ssDisable with
      | true => simp [(hkeeps.disabled hon hdis).1]
      | false =>
        rw [sasSsFlags_sigreturn hb hf, if_pos (.inr ⟨hon, hdis⟩), has_and_not_ssOnstack]
        simp
  rw [RestoresContext, hmask, hstack]
  exact and_iff_right hregs

/-- User memory that can be written everywhere. -/
def blankMem : UserMem := ⟨fun _ => 0, fun _ => true⟩

def onstackAction : Sigaction := ⟨0x401000, 0, saOnstack, 0⟩

def altTask : Task := { quietTask with sasSsSp := 0x9000, sasSsSize := 0x2000 }

def handlerTask : Task := deliverTask altTask 10 onstackAction

/-- The trap frame in which a handler comes back to its frame. -/
def returnFrame (t : Task) (sig : ℕ) : Trapframe :=
  { userTrapframe with rsp := (deliverSignal blankMem t userTrapframe sig onstackAction).2.2.rsp + 8
    }

def returned (t : Task) : Task × Trapframe :=
  sysSigreturn (deliverSignal blankMem t userTrapframe 12 onstackAction).1
    (deliverTask t 12 onstackAction) (returnFrame t 12)

lemma atFrame_returnFrame (t : Task) (sig : ℕ) : AtFrame blankMem t userTrapframe sig onstackAction
    (deliverSignal blankMem t userTrapframe sig onstackAction).1 (returnFrame t sig) :=
  ⟨rfl, fun _ _ => rfl⟩

/-- Signal 10 is handled on the alternate stack, with a delivery of signal 12 in between. -/
theorem sigreturn_restores_context_nested :
    let m := (deliverSignal blankMem altTask userTrapframe 10 onstackAction).1
    let r := sysSigreturn m (returned handlerTask).1 (returnFrame altTask 10)
    has handlerTask.sasSsFlags ssOnstack = true ∧ RestoresContext altTask userTrapframe r.1
    r.2 := by
  have hb : Built blankMem altTask userTrapframe 10 onstackAction :=
    ⟨by decide +kernel, by decide +kernel⟩
  have hinner : Built blankMem handlerTask userTrapframe 12 onstackAction :=
    ⟨by decide +kernel, by decide +kernel⟩
  have hin : Nested handlerTask (returned handlerTask).1 :=
    .round (.other rfl) hinner (.other rfl) (atFrame_returnFrame _ 12) rfl
  exact ⟨by decide, (sigreturn_restores_context_iff hb hin (atFrame_returnFrame _ 10)).2
    (by decide)⟩

/-- A second signal is delivered to a handler on the alternate stack. When its own handler has
returned, the first one goes on and is no longer marked as being on that stack. -/
theorem sigreturn_leaves_stack :
    Built blankMem handlerTask userTrapframe 12 onstackAction ∧
      has handlerTask.sasSsFlags ssOnstack = true ∧
      has (returned handlerTask).1.sasSsFlags ssOnstack = false := by
  have hb : Built blankMem handlerTask userTrapframe 12 onstackAction :=
    ⟨by decide +kernel, by decide +kernel⟩
  refine ⟨hb, by decide, ?_⟩
  rw [returned, sasSsFlags_sigreturn hb (atFrame_returnFrame _ 12)]
  decide

end XosKernel.Signal
