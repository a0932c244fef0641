import Mathlib.Algebra.Order.Ring.Nat
import Mathlib.Data.List.Basic

/-!
# Numbers in byte buffers

`toBytes k n` is the number `n` in `k` bytes, the most significant first, `ofBytes` what such bytes
stand for. A number that does not fit is cut off: `ofBytes_toBytes`. A buffer is a function from
offsets to bytes; `put` stores bytes at an offset and `get` reads them.
-/

namespace DriverLib

/-- The lowest `k` bytes of a number, big-endian. -/
def toBytes : ℕ → ℕ → List (BitVec 8)
  | 0, _ => []
  | k + 1, n => toBytes k (n / 256) ++ [BitVec.ofNat 8 n]

/-- The number that bytes stand for. -/
def ofBytes (bytes : List (BitVec 8)) : ℕ := bytes.foldl (fun n b => n * 256 + b.toNat) 0

theorem ofBytes_concat (bytes : List (BitVec 8)) (b : BitVec 8) :
    ofBytes (bytes ++ [b]) = ofBytes bytes * 256 + b.toNat := by
  rw [ofBytes, List.foldl_append]
  rfl

theorem ofBytes_toBytes (k n : ℕ) : ofBytes (toBytes k n) = n % 256 ^ k := by
  induction k generalizing n with
  | zero => rw [Nat.pow_zero, Nat.mod_one]; rfl
  | succ k ih =>
    have hpow : 256 ^ (k + 1) = 256 * 256 ^ k := Nat.pow_succ'
    rw [toBytes, ofBytes_concat, ih, BitVec.toNat_ofNat, hpow, Nat.mod_mul]
    omega

/-- A number that fits survives. -/
theorem ofBytes_toBytes_eq_iff {k n : ℕ} : ofBytes (toBytes k n) = n ↔ n < 256 ^ k := by
  rw [ofBytes_toBytes]
  exact ⟨fun h => h ▸ Nat.mod_lt _ (Nat.pow_pos (by decide)), Nat.mod_eq_of_lt⟩

/-! ### Buffers -/

/-- A buffer of bytes. -/
abbrev Buffer := ℕ → BitVec 8

namespace Buffer

/-- `bytes` are stored at `off`. -/
def put (buf : Buffer) (off : ℕ) (bytes : List (BitVec 8)) : Buffer := fun i =>
  if off ≤ i then bytes.getD (i - off) (buf i) else buf i

/-- `k` bytes are read at `off`. -/
def get (buf : Buffer) (off k : ℕ) : List (BitVec 8) := (List.range k).map fun i => buf (off + i)

/-- What is stored is read. -/
theorem get_put (buf : Buffer) (off : ℕ) (bytes : List (BitVec 8)) :
    (buf.put off bytes).get off bytes.length = bytes := by
  refine List.ext_getElem (by simp [get]) fun i h₁ h₂ => ?_
  simp [get, put, h₂]

end Buffer

end DriverLib
