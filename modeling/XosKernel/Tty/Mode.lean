/-
# Mode switches of a terminal

`TCSETS` and `TCSETSW` of `pty_ioctl` and the choice that `pty_slave_read` makes between its two
rings (`kernel/bsd/pty.c`). A call that is refused changes nothing and is left out.
-/
import XosKernel.Tty.Ldisc

namespace XosKernel.Ldisc

/-- A terminal with its mode and the ring of the raw mode. -/
structure Term extends Pty where
  icanon : Bool
  mToSBuf : ℕ → UInt8
  mToSHead : ℕ
  mToSTail : ℕ

namespace Term

variable (x : Term)

/-- The bytes of the lines that are committed. -/
def canonBytes : List UInt8 := ringTake ptyBufSize x.canonBuf (ldiscCanonAvail x.toPty) x.canonTail

def rawBytes : List UInt8 := ringTake ptyBufSize x.mToSBuf (ptyRingAvail x.mToSHead x.mToSTail)
    x.mToSTail

/-- What reads can return without further input. -/
def readable : List UInt8 := if x.icanon then x.canonBytes else x.rawBytes

/-- Leaving the canonical mode also takes back what is committed. -/
def tcsets (icanon : Bool) : Term :=
  if x.icanon && !icanon then
    { x with canonCommit := x.canonTail, canonHead := x.canonTail, icanon := icanon }
  else { x with icanon := icanon }

/-- All that has been released, in either mode, can be read after the call. -/
def Keeps (icanon : Bool) : Prop := (x.tcsets icanon).readable = x.canonBytes ++ x.rawBytes

/-- The ring of the other mode is empty. -/
def Drained (icanon : Bool) : Prop := if icanon then x.rawBytes = [] else x.canonBytes = []

variable {x}

lemma readable_tcsets (icanon : Bool) :
    (x.tcsets icanon).readable = if icanon then x.canonBytes else x.rawBytes := by
  obtain ⟨pty, canon, buf, head, tail⟩ := x
  cases canon <;> cases icanon <;> simp [tcsets, readable, canonBytes, rawBytes]

lemma keeps_iff (icanon : Bool) : x.Keeps icanon ↔ x.Drained icanon := by
  unfold Keeps Drained
  rw [readable_tcsets]
  split_ifs
  · exact List.self_eq_append_right
  · exact List.self_eq_append_left

/-- A sequence of calls keeps all that has been released exactly if at each of them the ring of the
other mode is empty. -/
theorem tcsets_keeps_iff (x : Term) (modes : List Bool) :
    Meets (fun x m => some (tcsets x m)) Keeps x modes ↔ Meets (fun x m => some (tcsets x m))
    Drained x modes := by
  induction modes generalizing x with
  | nil => exact Iff.rfl
  | cons m modes ih => exact and_congr (keeps_iff m) (forall₂_congr fun x' _ => ih x')

def typed : Term := ⟨ldiscInput .default (ldiscInput .default .create 97) 10, true, fun _ =>
    0, 0, 0⟩

/-- When it leaves the canonical mode, nothing can be read any more. -/
theorem tcsets_drops_line : typed.readable = [97, 10] ∧ (typed.tcsets false).readable = [] := by
  decide +kernel

end Term

end XosKernel.Ldisc
