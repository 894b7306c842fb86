/-
# The canonical line discipline of a terminal

`ldisc_input`, `pty_slave_read` and the ring they share (`kernel/bsd/pty.c`), in canonical mode with
fixed settings and without signal characters. Echo goes to the other direction and leaves the input
alone.

Beside the code stands what the discipline is for: lines are edited, and released one by one; what
has been released is a queue of lines and of ends of file, and a read takes from its first entry.
-/
import XosKernel.Lib.RingList
import XosKernel.Lib.Run

namespace XosKernel.Ldisc

def ptyBufSize : ℕ := 4096

/-- The settings that the canonical mode looks at: `ICRNL`, `IEXTEN`, and the characters of `c_cc`.
-/
structure Termios where
  icrnl : Bool
  iexten : Bool
  veof : UInt8
  verase : UInt8
  vkill : UInt8
  vwerase : UInt8
  vreprint : UInt8
  vlnext : UInt8
deriving DecidableEq

def Termios.default : Termios := ⟨true, true, 0x04, 0x7f, 0x15, 0x17, 0x12, 0x16⟩

/-- What a byte means. -/
inductive Key
  | eof
  | erase
  | kill
  | werase
  | reprint
  | lnext
  | char (b : UInt8)
deriving DecidableEq

/-- The input mapping of `ldisc_input`. -/
def Termios.mapped (t : Termios) (literal : Bool) (b : UInt8) : UInt8 :=
  if !literal && t.icrnl && b == 13 then 10 else b

/-- The tests of `ldisc_input`, in order, for a byte after the mapping; a character that is zero is
disabled. -/
def Termios.key (t : Termios) (literal : Bool) (b : UInt8) : Key :=
  if !literal && b != 0 && b == t.veof then .eof
  else if !literal && b != 0 && b == t.verase then .erase
  else if !literal && b != 0 && b == t.vkill then .kill
  else if !literal && t.iexten && b != 0 && b == t.vwerase then .werase
  else if !literal && t.iexten && b != 0 && b == t.vreprint then .reprint
  else if !literal && t.iexten && b != 0 && b == t.vlnext then .lnext
  else .char b

/-- `'\n'`. -/
def newline : UInt8 := 10

/-- `ldisc_word_space`. -/
def wordSpace (b : UInt8) : Bool := b == 32 || b == 9

/-! ## The code -/

/-- The part of `struct pty` that the canonical mode uses. -/
structure Pty where
  canonBuf : ℕ → UInt8
  canonTail : ℕ
  canonCommit : ℕ
  canonHead : ℕ
  eofPending : Bool
  lnextPending : Bool

def Pty.create : Pty := ⟨fun _ => 0, 0, 0, 0, false, false⟩

/-- `pty_ring_avail`: the difference of two 32-bit values. -/
def ptyRingAvail (head tail : ℕ) : ℕ := (head + 2 ^ 32 - tail) % 2 ^ 32 % ptyBufSize

def ptyRingSpace (head tail : ℕ) : ℕ := ptyBufSize - 1 - ptyRingAvail head tail

def ldiscCanonAvail (p : Pty) : ℕ := ptyRingAvail p.canonCommit p.canonTail

def prevIndex (i : ℕ) : ℕ := (i + ptyBufSize - 1) % ptyBufSize

/-- The loops of the word erase: back from `head` over bytes that meet `stay`, at most `n` of them;
`n` is how far `canon_commit` is away. -/
def eraseWhile (stay : UInt8 → Bool) (buf : ℕ → UInt8) : ℕ → ℕ → ℕ
  | 0, head => head
  | n + 1, head =>
    if stay (buf (prevIndex head)) then eraseWhile stay buf n (prevIndex head) else head

/-- `canon_head` after the two loops. -/
def werase (p : Pty) : ℕ :=
  let head := eraseWhile wordSpace p.canonBuf (ptyRingAvail p.canonHead p.canonCommit) p.canonHead
  eraseWhile (fun b => !wordSpace b) p.canonBuf (ptyRingAvail head p.canonCommit) head

def putByte (p : Pty) (b : UInt8) : Pty :=
  if ptyRingSpace p.canonHead p.canonTail = 0 then p
  else
    { p with
      canonBuf := Function.update p.canonBuf p.canonHead b
      canonHead := (p.canonHead + 1) % ptyBufSize
      canonCommit := if b = newline then (p.canonHead + 1) % ptyBufSize else p.canonCommit }

/-- `ldisc_input` for the meaning of the byte, after `lnext_pending` has been cleared. -/
def applyKey (p : Pty) : Key → Pty
  | .eof => if p.canonHead = p.canonCommit then { p with eofPending := true } else
    { p with canonCommit := p.canonHead }
  | .erase =>
    if p.canonHead ≠ p.canonCommit then { p with canonHead := prevIndex p.canonHead } else p
  | .kill => { p with canonHead := p.canonCommit }
  | .werase => { p with canonHead := werase p }
  | .reprint => p
  | .lnext => { p with lnextPending := true }
  | .char b => putByte p b

def ldiscInput (t : Termios) (p : Pty) (b : UInt8) : Pty :=
  applyKey { p with lnextPending := false } (t.key p.lnextPending (t.mapped p.lnextPending b))

/-- What a read returns, and the bytes it stores. -/
structure Answer where
  ret : ℤ
  bytes : List UInt8
deriving DecidableEq

/-- `(int)len`. -/
def intOf (len : ℕ) : ℤ := Int.bmod len (2 ^ 32)

/-- `pty_ring_read` of the canonical ring. -/
def ptyRingRead (p : Pty) (len : ℕ) : Answer × Pty :=
  let n := if intOf len < ldiscCanonAvail p then intOf len else ldiscCanonAvail p
  (⟨n, ringTake ptyBufSize p.canonBuf n.toNat p.canonTail⟩,
    { p with canonTail := (p.canonTail + n.toNat) % ptyBufSize })

/-- The answer of a read that finds an end of file. -/
def takeEof (p : Pty) : Answer × Pty := (⟨0, []⟩, { p with eofPending := false })

/-- A turn of the loop of `pty_slave_read`; `none` if the reader has to wait. -/
def slaveLoop (p : Pty) (len : ℕ) : Option (Answer × Pty) :=
  if ldiscCanonAvail p > 0 then some (ptyRingRead p len)
  else if p.eofPending then some (takeEof p)
  else none

/-- `pty_slave_read` up to the first time that it has to wait. -/
def slaveRead (p : Pty) (len : ℕ) : Option (Answer × Pty) :=
  if p.eofPending then some (takeEof p) else slaveLoop p len

/-! ## What it is for -/

/-- What is released: a line, or what is left of it, or an end of file. -/
inductive Item
  | line (l : List UInt8)
  | eof
deriving DecidableEq

/-- The line being edited, whether the next byte is taken literally, and what is released and not
yet read. -/
structure Tty where
  line : List UInt8
  literal : Bool
  queue : List Item
deriving DecidableEq

def Tty.create : Tty := ⟨[], false, []⟩

/-- A line without its last word and the blanks after it. -/
def eraseWord (l : List UInt8) : List UInt8 :=
  ((l.reverse.dropWhile wordSpace).dropWhile fun b => !wordSpace b).reverse

/-- Editing, and the release of lines. -/
def Tty.apply (x : Tty) : Key → Tty
  | .eof =>
    if x.line = [] then { x with queue := x.queue ++ [.eof] }
    else { x with line := [], queue := x.queue ++ [.line x.line] }
  | .erase => { x with line := x.line.dropLast }
  | .kill => { x with line := [] }
  | .werase => { x with line := eraseWord x.line }
  | .reprint => x
  | .lnext => { x with literal := true }
  | .char b =>
    if b = newline then { x with line := [], queue := x.queue ++ [.line (x.line ++ [b])] }
    else { x with line := x.line ++ [b] }

def Tty.type (t : Termios) (x : Tty) (b : UInt8) : Tty :=
  ({ x with literal := false } : Tty).apply (t.key x.literal (t.mapped x.literal b))

/-- A read of up to `len` bytes takes from the first entry only; `none` if there is nothing. -/
def Tty.read (x : Tty) (len : ℕ) : Option (List UInt8 × Tty) :=
  match x.queue with
  | [] => none
  | .eof :: q => some ([], { x with queue := q })
  | .line l :: q =>
    some (l.take len, { x with queue := if len < l.length then .line (l.drop len) :: q else q })

/-! ## Both side by side -/

/-- The code and what it should do, the length that a waiting reader has asked for, the answers that
reads got and those they should have got. -/
structure Sys where
  pty : Pty
  tty : Tty
  waiting : Option ℕ
  answers : List Answer
  wanted : List (Option (List UInt8))

def Sys.start : Sys := ⟨.create, .create, none, [], []⟩

def answer (s : Sys) (len : ℕ) (r : Answer × Pty) : Sys :=
  { pty := r.2
    tty := ((s.tty.read len).map Prod.snd).getD s.tty
    waiting := none
    answers := s.answers ++ [r.1]
    wanted := s.wanted ++ [(s.tty.read len).map Prod.fst] }

inductive Act
  /-- the master writes a byte -/
  | input (b : UInt8)
  /-- `pty_slave_read` is called; it fails instead of waiting if so -/
  | read (len : ℕ) (nonblock : Bool)
  /-- a waiting reader looks again -/
  | wake
  /-- a waiting reader is interrupted -/
  | interrupt
deriving DecidableEq

def step (t : Termios) (s : Sys) : Act → Option Sys
  | .input b => some { s with pty := ldiscInput t s.pty b, tty := s.tty.type t b }
  | .read len nonblock =>
    if s.waiting = none then
      match slaveRead s.pty len with
      | some r => some (answer s len r)
      | none => some (if nonblock then s else { s with waiting := some len })
    else none
  | .wake => s.waiting.map fun len =>
      match slaveLoop s.pty len with
      | some r => answer s len r
      | none => s
  | .interrupt => some { s with waiting := none }

def Agree (a : Answer) (w : Option (List UInt8)) : Prop := w = some a.bytes ∧ a.ret = a.bytes.length

/-- All reads got what they should have got, and nothing that is released is held back. -/
def Delivered (s : Sys) : Prop :=
  List.Forall₂ Agree s.answers s.wanted ∧
    (ldiscCanonAvail s.pty = 0 → s.pty.eofPending = false → s.tty.queue = [])

end XosKernel.Ldisc
