/-
# Machine words, pages and the memory layout

The constants and address macros shared by the memory modules: `xos/page.h`,
`arch/x64/memlayout.h`, `utils/macro.h`, `kernel/xcore/mem/vma.h` and `xos/signal.h`.
A 64-bit value is a natural number below `2 ^ 64`; an operation that can wrap around is
reduced by `u64` at the place where the C code computes it.
-/
import Mathlib.Tactic

namespace XosKernel

def u64 (x : ℕ) : ℕ := x % 2 ^ 64

def pageSize : ℕ := 4096

/-- `ALIGN_UP(x, PAGE_SIZE)`: the addition wraps before the mask is applied. -/
def alignUp (x : ℕ) : ℕ := u64 (x + (pageSize - 1)) / pageSize * pageSize

/-- `ALIGN_DOWN(x, PAGE_SIZE)`. -/
def alignDown (x : ℕ) : ℕ := x / pageSize * pageSize

def phyToPage (addr : ℕ) : ℕ := addr / pageSize

def getPageNum (len : ℕ) : ℕ := u64 (len + (pageSize - 1)) / pageSize

/-- `USER_VMA_UPPER_BOUND`: addresses from here on belong to the kernel. -/
def userVmaUpperBound : ℕ := 0x800000000000

/-- `SIG_TRAMPOLINE_ADDR`: the fixed page of the signal trampoline. -/
def sigTrampolineAddr : ℕ := 0x50000000

/-- `DIRECT_MAP_MAX_GB * 1 GiB`. -/
def directMapMax : ℕ := 64 * 0x40000000

/-- `a - b` on 64-bit values. -/
def u64Sub (a b : ℕ) : ℕ := u64 (a + (2 ^ 64 - b))

/-- The error codes of `xos/errno.h` that the modelled functions return, negated there. -/
inductive Errno
  | EPERM | ENOENT | ESRCH | EINTR | EIO | ENXIO | EBADF | ECHILD | EAGAIN | ENOMEM | EACCES
  | EFAULT | EBUSY | EEXIST | EXDEV | ENODEV | ENOTDIR | EISDIR | EINVAL | EMFILE | EFBIG
  | ENOSPC | EPIPE | ENAMETOOLONG | ENOSYS | ENOTEMPTY | ENOTSUP | EOVERFLOW | EADDRINUSE
  | ENOTCONN | ETIMEDOUT | ECONNREFUSED | ELOOP | EAFNOSUPPORT | EMSGSIZE | ERESTART
deriving DecidableEq

lemma u64_of_lt {x : ℕ} (h : x < 2 ^ 64) : u64 x = x := Nat.mod_eq_of_lt h

lemma u64_lt (x : ℕ) : u64 x < 2 ^ 64 := Nat.mod_lt _ (by norm_num)

lemma u64Sub_of_le {a b : ℕ} (ha : a < 2 ^ 64) (h : b ≤ a) : u64Sub a b = a - b := by
  unfold u64Sub u64
  omega

lemma alignUp_dvd (x : ℕ) : pageSize ∣ alignUp x := Dvd.intro_left _ rfl

lemma alignDown_dvd (x : ℕ) : pageSize ∣ alignDown x := Dvd.intro_left _ rfl

end XosKernel
