import Mathlib.Data.Nat.Bitwise

/-!
# Kernel constants, machine words and faults

What the modules of the driver take from the kernel: page geometry, the widths
of `unsigned int` and `unsigned long`, the tagged values an xarray stores, and
the ways an operation can go wrong instead of returning.
-/

namespace Multiswap

/-- `PAGE_SHIFT`. -/
def pageShift : ℕ := 12

/-- `PAGE_SIZE`. -/
def pageSize : ℕ := 1 <<< pageShift

/-- `ONEGB`. -/
def oneGb : ℕ := 1024 * 1024 * 1024

/-- `REMOTE_BUF_SIZE`, the client's own limit. -/
def remoteBufSize : ℕ := oneGb * 8

/-- Wrap-around of `unsigned int`. -/
def u32 (n : ℕ) : ℕ := n % 2 ^ 32

/-- Wrap-around of `unsigned long` and `u64`. -/
def u64 (n : ℕ) : ℕ := n % 2 ^ 64

/-- `DIV_ROUND_UP`. -/
def divRoundUp (n d : ℕ) : ℕ := (n + d - 1) / d

/-- `xa_mk_value`: an integer tagged as an xarray entry. Entry `0` is `NULL`. -/
def xaMkValue (v : ℕ) : ℕ := u64 (v <<< 1) ||| 1

/-- `xa_to_value`. -/
def xaToValue (entry : ℕ) : ℕ := entry >>> 1

/-- How an operation fails to return. -/
inductive Fault where
  -- `remote_spaces` indexed at or beyond `nr_remote_spaces`.
  | remoteSpaces (index : ℕ)
  -- `remote_map` indexed outside the groups that `init_remote_bitmap` built.
  | remoteMap (type group : ℕ)
  -- `gctrl` indexed at or beyond the number of servers.
  | gctrl (dev : ℕ)
  -- A `BUG`, `BUG_ON` or `VM_BUG_ON` fired.
  | bug
  -- A null pointer was dereferenced.
  | nullDeref
  deriving DecidableEq, Repr

@[simp] theorem pageShift_eq : pageShift = 12 := rfl
@[simp] theorem pageSize_eq : pageSize = 4096 := rfl
@[simp] theorem remoteBufSize_eq : remoteBufSize = 8589934592 := rfl

theorem u32_of_lt {n : ℕ} (h : n < 2 ^ 32) : u32 n = n := Nat.mod_eq_of_lt h

theorem u64_of_lt {n : ℕ} (h : n < 2 ^ 64) : u64 n = n := Nat.mod_eq_of_lt h

/-- A tagged value is never the null entry. -/
theorem xaMkValue_ne_zero (v : ℕ) : xaMkValue v ≠ 0 := by
  intro h
  have hbit := congrArg (Nat.testBit · 0) h
  simp [xaMkValue] at hbit

/-- The tag bit costs the top bit of the word and nothing else. -/
theorem xaToValue_xaMkValue {v : ℕ} (h : v < 2 ^ 63) : xaToValue (xaMkValue v) = v := by
  have hv : v <<< 1 < 2 ^ 64 := by rw [Nat.shiftLeft_eq]; omega
  have hor : v <<< 1 ||| 1 = v <<< 1 + 1 :=
    (Nat.shiftLeft_add_eq_or_of_lt (by decide : 1 < 2 ^ 1) v).symm
  rw [xaMkValue, xaToValue, u64_of_lt hv, hor, Nat.shiftLeft_eq, Nat.shiftRight_eq_div_pow]
  omega

end Multiswap
