import Mathlib.Data.Nat.Bitwise

/-!
# Fields of hardware registers

A register packs several fields, and a driver changes one of them by reading the register, clearing
the bits of the field with a mask, or-ing in the shifted value and writing the register back. The
value is not masked, so one that is too large spills into the fields above. The lemmas say what a
read of a field gives after such a write: the value modulo the size of the field for the field
itself, the old value for a field below it or in another register, and the old value for a field
above it when the written value fits.
-/

namespace DriverLib

variable {n : ℕ}

/-! ### Bits -/

/-- `width` ones from bit `shift` on. -/
def fieldMask (n shift width : ℕ) : BitVec n :=
  (if width ≠ 0 then BitVec.allOnes n >>> (n - width) else 0) <<< shift

/-- `(reg & mask) >> shift` -/
def getField (shift width : ℕ) (reg : BitVec n) : BitVec n :=
  (reg &&& fieldMask n shift width) >>> shift

/-- `(reg & ~mask) | (val << shift)` -/
def setField (shift width : ℕ) (reg : BitVec n) (val : ℕ) : BitVec n :=
  (reg &&& ~~~fieldMask n shift width) ||| BitVec.ofNat n (val <<< shift)

variable {shift width : ℕ}

theorem getLsbD_fieldMask (hw : width ≤ n) {k : ℕ} (hk : k < n) :
    (fieldMask n shift width).getLsbD k = decide (shift ≤ k ∧ k < shift + width) := by
  unfold fieldMask
  rw [BitVec.getLsbD_shiftLeft]
  by_cases hzero : width = 0
  · simp [hzero]
  · rw [if_pos hzero, BitVec.getLsbD_ushiftRight, BitVec.getLsbD_allOnes]
    by_cases hs : shift ≤ k
    · simp [hk, hs, Nat.not_lt.mpr hs]
      omega
    · simp [hs, Nat.not_le.mp hs]

/-- The bits of a register after a field was set. -/
theorem getLsbD_setField (hw : width ≤ n) (reg : BitVec n) (val : ℕ) {k : ℕ} (hk : k < n) :
    (setField shift width reg val).getLsbD k =
      if shift ≤ k ∧ k < shift + width then val.testBit (k - shift)
      else reg.getLsbD k || (decide (shift ≤ k) && val.testBit (k - shift)) := by
  unfold setField
  rw [BitVec.getLsbD_or, BitVec.getLsbD_and, BitVec.getLsbD_not, getLsbD_fieldMask hw hk,
    BitVec.getLsbD_ofNat, Nat.testBit_shiftLeft]
  by_cases hin : shift ≤ k ∧ k < shift + width
  · simp [hin, hk]
  · simp [hin, hk]

/-- A field is read off its own bits. -/
theorem getLsbD_getField (hw : width ≤ n) (reg : BitVec n) (i : ℕ) :
    (getField shift width reg).getLsbD i = (reg.getLsbD (shift + i) && decide (i < width)) := by
  unfold getField
  rw [BitVec.getLsbD_ushiftRight, BitVec.getLsbD_and]
  by_cases hlt : shift + i < n
  · rw [getLsbD_fieldMask hw hlt]
    simp
  · rw [BitVec.getLsbD_of_ge _ _ (Nat.not_lt.mp hlt), Bool.false_and, Bool.false_and]

/-- A value that fits changes no bit outside the field. -/
theorem getLsbD_setField_of_lt (hw : width ≤ n) (reg : BitVec n) {val : ℕ} (hval : val < 2 ^ width)
    {k : ℕ} (hk : ¬(shift ≤ k ∧ k < shift + width)) :
    (setField shift width reg val).getLsbD k = reg.getLsbD k := by
  by_cases hlt : k < n
  · rw [getLsbD_setField hw reg val hlt, if_neg hk]
    by_cases habove : shift ≤ k
    · have hzero : val.testBit (k - shift) = false := by
        apply Nat.testBit_lt_two_pow
        exact hval.trans_le (Nat.pow_le_pow_right (by decide) (by omega))
      rw [hzero, Bool.and_false, Bool.or_false]
    · rw [decide_eq_false habove, Bool.false_and, Bool.or_false]
  · rw [BitVec.getLsbD_of_ge _ _ (Nat.not_lt.mp hlt), BitVec.getLsbD_of_ge _ _ (Nat.not_lt.mp hlt)]

/-! ### Registers -/

/-- A field of a register file: the offset of its register and its place in it. -/
structure Field where
  offset : ℕ
  shift : ℕ
  width : ℕ
  deriving DecidableEq, Repr

namespace Field

variable (f g : Field) (regs : ℕ → BitVec n) (v : ℕ)

/-- The value of the field. -/
def read : ℕ := (getField f.shift f.width (regs f.offset)).toNat

/-- Read the register, set the field, write the register. -/
def write : ℕ → BitVec n :=
  Function.update regs f.offset (setField f.shift f.width (regs f.offset) v)

variable {f g regs v}

theorem testBit_read (hw : f.width ≤ n) (i : ℕ) :
    (f.read regs).testBit i = ((regs f.offset).getLsbD (f.shift + i) && decide (i < f.width)) := by
  rw [read, BitVec.testBit_toNat, getLsbD_getField hw]

/-- Registers that agree on the bits of a field have the same value in it. -/
theorem read_congr {regs' : ℕ → BitVec n} (hw : g.width ≤ n)
    (h : ∀ i < g.width, (regs' g.offset).getLsbD (g.shift + i) =
      (regs g.offset).getLsbD (g.shift + i)) : g.read regs' = g.read regs := by
  apply Nat.eq_of_testBit_eq
  intro i
  rw [testBit_read hw, testBit_read hw]
  by_cases hi : i < g.width
  · rw [h i hi]
  · rw [decide_eq_false hi, Bool.and_false, Bool.and_false]

/-- What was written is read back, as far as it fits. -/
theorem read_write_self (h : f.shift + f.width ≤ n) :
    f.read (f.write regs v) = v % 2 ^ f.width := by
  have hw : f.width ≤ n := by omega
  apply Nat.eq_of_testBit_eq
  intro i
  rw [testBit_read hw, Nat.testBit_mod_two_pow, write, Function.update_self, Bool.and_comm]
  by_cases hi : i < f.width
  · rw [getLsbD_setField hw _ _ (by omega), if_pos ⟨Nat.le_add_right _ _, by omega⟩,
      Nat.add_sub_cancel_left]
  · rw [decide_eq_false hi, Bool.false_and, Bool.false_and]

/-- Fields below the written one, and in other registers, are kept whatever is written. -/
theorem read_write_of_below (hf : f.width ≤ n) (hg : g.shift + g.width ≤ n)
    (h : f.offset ≠ g.offset ∨ g.shift + g.width ≤ f.shift) :
    g.read (f.write regs v) = g.read regs := by
  refine read_congr (by omega) fun i hi => ?_
  unfold write
  by_cases hoff : g.offset = f.offset
  · have hbelow := h.resolve_left (fun hne => hne hoff.symm)
    rw [hoff, Function.update_self, getLsbD_setField hf _ _ (by omega), if_neg (by omega),
      decide_eq_false (by omega), Bool.false_and, Bool.or_false]
  · rw [Function.update_of_ne hoff]

/-- Fields apart from the written one are kept when the value fits. -/
theorem read_write_of_apart (hf : f.width ≤ n) (hg : g.shift + g.width ≤ n)
    (h : f.offset ≠ g.offset ∨ g.shift + g.width ≤ f.shift ∨ f.shift + f.width ≤ g.shift)
    (hv : v < 2 ^ f.width) : g.read (f.write regs v) = g.read regs := by
  by_cases hbelow : f.offset ≠ g.offset ∨ g.shift + g.width ≤ f.shift
  · exact read_write_of_below hf hg hbelow
  have hoff : g.offset = f.offset := by
    by_contra hne
    exact hbelow (Or.inl (Ne.symm hne))
  have habove : f.shift + f.width ≤ g.shift := by omega
  refine read_congr (by omega) fun i hi => ?_
  unfold write
  rw [hoff, Function.update_self]
  apply getLsbD_setField_of_lt hf _ hv
  omega

/-- A field of ones stays one when a field apart from it is written, whatever the value: what spills
is or-ed. -/
theorem read_write_of_full (hf : f.width ≤ n) (hg : g.shift + g.width ≤ n)
    (h : f.offset ≠ g.offset ∨ g.shift + g.width ≤ f.shift ∨ f.shift + f.width ≤ g.shift)
    (hfull : g.read regs = 2 ^ g.width - 1) : g.read (f.write regs v) = 2 ^ g.width - 1 := by
  rw [← hfull]
  refine read_congr (by omega) fun i hi => ?_
  have hone : (regs g.offset).getLsbD (g.shift + i) = true := by
    have hbit : (g.read regs).testBit i =
        ((regs g.offset).getLsbD (g.shift + i) && decide (i < g.width)) :=
      testBit_read (by omega) i
    rw [hfull, Nat.testBit_two_pow_sub_one, decide_eq_true hi, Bool.and_true] at hbit
    exact hbit.symm
  unfold write
  by_cases hoff : g.offset = f.offset
  · have hapart := h.resolve_left (fun hne => hne hoff.symm)
    rw [hoff] at hone ⊢
    rw [Function.update_self, getLsbD_setField hf _ _ (by omega), if_neg (by omega), hone,
      Bool.true_or]
  · rw [Function.update_of_ne hoff]

/-- A write of `v` to the field changes no bit outside it, whatever the registers hold. -/
def Contained (n : ℕ) (f : Field) (v : ℕ) : Prop :=
  ∀ (regs : ℕ → BitVec n) (off k : ℕ),
    ¬(off = f.offset ∧ f.shift ≤ k ∧ k < f.shift + f.width) →
      (f.write regs v off).getLsbD k = (regs off).getLsbD k

theorem contained_of_lt (hw : f.width ≤ n) (hv : v < 2 ^ f.width) : f.Contained n v := by
  intro regs off k hout
  unfold write
  by_cases hoff : off = f.offset
  · subst hoff
    rw [Function.update_self]
    exact getLsbD_setField_of_lt hw _ hv fun hin => hout ⟨rfl, hin⟩
  · rw [Function.update_of_ne hoff]

/-- A contained value has no bit above the field that is still in the register. -/
theorem Contained.testBit {b : ℕ} (h : f.Contained n v) (hw : f.width ≤ n) (hb : f.width ≤ b)
    (hn : f.shift + b < n) : v.testBit b = false := by
  have hzero := h (fun _ => 0#n) f.offset (f.shift + b) (by omega)
  unfold write at hzero
  rw [Function.update_self, getLsbD_setField hw _ _ hn, if_neg (by omega),
    BitVec.getLsbD_zero, Nat.add_sub_cancel_left, decide_eq_true (Nat.le_add_right _ _)] at hzero
  simpa using hzero

/-- A field of no bits keeps the register when zero is written to it. -/
theorem write_of_width_zero (h : f.width = 0) : f.write regs 0 = regs := by
  have hset : setField f.shift 0 (regs f.offset) 0 = regs f.offset := by
    unfold setField fieldMask
    simp
  unfold write
  rw [h, hset, Function.update_eq_self]

/-- A series of writes. -/
def writeAll (ws : List (Field × ℕ)) (regs : ℕ → BitVec n) : ℕ → BitVec n :=
  ws.foldl (fun r w => w.1.write r w.2) regs

/-- A register that none of them is for is kept. -/
theorem writeAll_of_ne {off : ℕ} {ws : List (Field × ℕ)} (h : ∀ w ∈ ws, w.1.offset ≠ off) :
    writeAll ws regs off = regs off := by
  induction ws generalizing regs with
  | nil => rfl
  | cons w ws ih =>
    have hw : w.1.write regs w.2 off = regs off :=
      Function.update_of_ne (h w List.mem_cons_self).symm _ _
    rw [← hw]
    exact ih fun u hu => h u (List.mem_cons_of_mem w hu)

end Field

end DriverLib
