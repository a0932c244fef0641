import LonganPi.Kernel
import LonganPi.Lib.Polling
import Mathlib.Algebra.Ring.Int.Defs

/-!
# Skipping the slice header

The H.264 decoder has to start behind the slice header. `cedrus_set_params` initialises the VLD and
`cedrus_skip_bits` lets it flush the bits of the header, at most 32 with one trigger. A trigger
must not be written while the VLD works on the one before, so both wait until
`VE_H264_STATUS_VLD_BUSY` is clear, and give up with `-ETIMEDOUT` when it is still set after 100000
readings.

The VLD is a polled device, its answers an arbitrary stream. That a loop was left by `break` is seen
by its index, which then is not the limit. The count never passes `num`, so the sums are those of an
`int`.
-/

open DriverLib DriverLib.PollEvent

namespace LonganPi.Cedrus

/-- What is written to `VE_H264_TRIGGER_TYPE`; the second is `VE_H264_TRIGGER_TYPE_FLUSH_BITS` with
its `VE_H264_TRIGGER_TYPE_N_BITS`. -/
inductive Trigger
  | INIT_SWDEC
  | FLUSH_BITS (nBits : ℤ)
  deriving DecidableEq

/-- How often the status is read. -/
def VLD_READS : ℕ := 100000

/-- The VLD, and what `dev_err` has printed. -/
structure Vld (busy : ℕ → Bool) where
  regs : Polled Trigger busy
  log : List String

namespace Vld

/-- Nothing was written yet. -/
def start (busy : ℕ → Bool) : Vld busy := ⟨.start, []⟩

variable {busy : ℕ → Bool}

/-- A trigger is written and its end waited for: the index of the loop, and the VLD. -/
def trigger (d : Vld busy) (t : Trigger) : ℕ × Vld busy :=
  let r := (d.regs.write t).poll VLD_READS 0
  (r.1, { d with regs := r.2 })

def devErr (d : Vld busy) (msg : String) : Vld busy := { d with log := d.log ++ [msg] }

end Vld

variable {busy : ℕ → Bool}

/-- The loop of `cedrus_skip_bits` from `count` on. -/
def skipBits (num count : ℤ) (d : Vld busy) : ℤ × Vld busy :=
  if count < num then
    let tmp := min (num - count) 32
    let r := d.trigger (.FLUSH_BITS tmp)
    if r.1 = VLD_READS then (-ETIMEDOUT, r.2.devErr "cedrus: VLD timeout in skip_bits\n")
    else skipBits num (count + tmp) r.2
  else (0, d)
termination_by (num - count).toNat

/-- `cedrus_skip_bits` -/
def cedrusSkipBits (num : ℤ) (d : Vld busy) : ℤ × Vld busy := skipBits num 0 d

/-- `cedrus_set_params` from `INIT_SWDEC` to the end of the header, where it goes on if this is `0`.
The header's size is passed as an `int`. -/
def cedrusSetParams (headerBitSize : BitVec 32) (d : Vld busy) : ℤ × Vld busy :=
  let r := d.trigger .INIT_SWDEC
  if r.1 = VLD_READS then (-ETIMEDOUT, r.2.devErr "cedrus: VLD timeout after INIT_SWDEC\n")
  else
    let r := cedrusSkipBits headerBitSize.toInt r.2
    if r.1 ≠ 0 then (-ETIMEDOUT, r.2) else (0, r.2)

/-! ### The loop -/

/-- A trigger after completed ones. -/
theorem trigger_spec {d : Vld busy} {ts : List Trigger}
    (h : Completed VLD_READS ts d.regs.trace) (t : Trigger) :
    ((d.trigger t).1 ≠ VLD_READS ∧
      Completed VLD_READS (ts ++ [t]) (d.trigger t).2.regs.trace) ∨
    ((d.trigger t).1 = VLD_READS ∧
      TimedOut VLD_READS (ts ++ [t]) (d.trigger t).2.regs.trace) :=
  Polled.completed_command h t

/-- What a loop that has `rest` bits to skip adds to the triggers `ts`. -/
def Skips (ts : List Trigger) (rest : ℤ) (r : ℤ × Vld busy) : Prop :=
  ∃ ns : List ℤ, (∀ n ∈ ns, 1 ≤ n ∧ n ≤ 32) ∧
    ((r.1 = 0 ∧ Completed VLD_READS (ts ++ ns.map .FLUSH_BITS) r.2.regs.trace ∧ ns.sum = rest) ∨
      (r.1 = -ETIMEDOUT ∧ TimedOut VLD_READS (ts ++ ns.map .FLUSH_BITS) r.2.regs.trace ∧
        ns.sum ≤ rest))

theorem skipBits_spec {num count : ℤ} {d : Vld busy} {ts : List Trigger} (hle : count ≤ num)
    (h : Completed VLD_READS ts d.regs.trace) : Skips ts (num - count) (skipBits num count d) := by
  fun_induction skipBits num count d generalizing ts with
  | case1 count d hlt tmp r =>
    rename_i hlimit
    rcases trigger_spec h (.FLUSH_BITS tmp) with ⟨hne, -⟩ | ⟨-, hout⟩
    · exact absurd hlimit hne
    · refine ⟨[tmp], ?_, Or.inr ⟨rfl, hout, ?_⟩⟩
      · intro n hn
        rw [List.mem_singleton.mp hn]
        omega
      · rw [List.sum_singleton]
        omega
  | case2 count d hlt tmp r hidle =>
    rename_i ih
    rcases trigger_spec h (.FLUSH_BITS tmp) with ⟨-, hdone⟩ | ⟨heq, -⟩
    · obtain ⟨ns, hsize, hend⟩ := ih (by omega) hdone
      refine ⟨tmp :: ns, ?_, ?_⟩
      · intro n hn
        rcases List.mem_cons.mp hn with rfl | hn
        · omega
        · exact hsize n hn
      · rw [List.map_cons, List.sum_cons, List.append_cons]
        refine hend.imp ?_ ?_
        · rintro ⟨hret, htrace, hsum⟩
          exact ⟨hret, htrace, by omega⟩
        · rintro ⟨hret, htrace, hsum⟩
          exact ⟨hret, htrace, by omega⟩
    · exact absurd heq hidle
  | case3 count d hge =>
    refine ⟨[], fun n hn => absurd hn List.not_mem_nil, Or.inl ⟨rfl, ?_, ?_⟩⟩
    · rwa [List.map_nil, List.append_nil]
    · rw [List.sum_nil]
      omega

/-- A size that is not positive is skipped at once. -/
theorem cedrusSkipBits_of_nonpos {num : ℤ} (h : num ≤ 0) (d : Vld busy) :
    cedrusSkipBits num d = (0, d) := by
  rw [cedrusSkipBits, skipBits, if_neg (by omega)]

theorem cedrusSkipBits_spec {num : ℤ} {d : Vld busy} {ts : List Trigger} (hnum : 0 ≤ num)
    (h : Completed VLD_READS ts d.regs.trace) : Skips ts num (cedrusSkipBits num d) := by
  have hskip := skipBits_spec hnum h
  rwa [Int.sub_zero] at hskip

/-! ### The whole of it -/

theorem cedrusSetParams_spec {headerBitSize : BitVec 32} (hsize : 0 ≤ headerBitSize.toInt)
    (busy : ℕ → Bool) :
    Skips [.INIT_SWDEC] headerBitSize.toInt
      (cedrusSetParams headerBitSize (Vld.start busy)) := by
  have hstart : Completed VLD_READS [] (Vld.start busy).regs.trace := completed_nil
  rcases trigger_spec hstart .INIT_SWDEC with ⟨hidle, hdone⟩ | ⟨hlimit, hout⟩
  · obtain ⟨ns, hns, hend⟩ := cedrusSkipBits_spec hsize hdone
    refine ⟨ns, hns, ?_⟩
    unfold cedrusSetParams
    rw [if_neg hidle]
    rcases hend with ⟨hret, htrace, hsum⟩ | ⟨hret, htrace, hsum⟩
    · rw [if_neg (not_not.mpr hret)]
      exact Or.inl ⟨rfl, htrace, hsum⟩
    · rw [if_pos (hret ▸ by decide)]
      exact Or.inr ⟨rfl, htrace, hsum⟩
  · unfold cedrusSetParams
    rw [if_pos hlimit]
    exact ⟨[], fun n hn => absurd hn List.not_mem_nil, Or.inr ⟨rfl, hout, hsize⟩⟩

theorem Skips.orderly {ts : List Trigger} {rest : ℤ} {r : ℤ × Vld busy} (h : Skips ts rest r) :
    Orderly false r.2.regs.trace := by
  obtain ⟨ns, -, ⟨-, htrace, -⟩ | ⟨-, htrace, -⟩⟩ := h
  · exact htrace.orderly
  · exact htrace.orderly

/-- **Skipping the header.** Whatever the VLD answers, between two triggers it was observed idle,
and either all bits of the header are flushed, or the last trigger stayed busy, no other one did
before it, and no more than the bits of the header were to be flushed. -/
theorem skip_header (headerBitSize : BitVec 32) (hsize : 0 ≤ headerBitSize.toInt)
    (busy : ℕ → Bool) :
    (∀ pre t mid t' post,
      (cedrusSetParams headerBitSize (Vld.start busy)).2.regs.trace
        = pre ++ .cmd t :: (mid ++ .cmd t' :: post) → .reading false ∈ mid) ∧
    ∃ ns : List ℤ, (∀ n ∈ ns, 1 ≤ n ∧ n ≤ 32) ∧
      (((cedrusSetParams headerBitSize (Vld.start busy)).1 = 0 ∧
          Completed VLD_READS (.INIT_SWDEC :: ns.map .FLUSH_BITS)
            (cedrusSetParams headerBitSize (Vld.start busy)).2.regs.trace ∧
          ns.sum = headerBitSize.toInt) ∨
        ((cedrusSetParams headerBitSize (Vld.start busy)).1 = -ETIMEDOUT ∧
          TimedOut VLD_READS (.INIT_SWDEC :: ns.map .FLUSH_BITS)
            (cedrusSetParams headerBitSize (Vld.start busy)).2.regs.trace ∧
          ns.sum ≤ headerBitSize.toInt)) := by
  have hskip := cedrusSetParams_spec hsize busy
  exact ⟨fun pre t mid t' post => hskip.orderly.idle_between, hskip⟩

/-- A header of 40 bits, and a VLD that is always idle. -/
theorem skip_header_forty :
    (∀ pre t mid t' post,
      (cedrusSetParams 40 (Vld.start fun _ => false)).2.regs.trace
        = pre ++ .cmd t :: (mid ++ .cmd t' :: post) → .reading false ∈ mid) ∧
    ∃ ns : List ℤ, (∀ n ∈ ns, 1 ≤ n ∧ n ≤ 32) ∧
      (((cedrusSetParams 40 (Vld.start fun _ => false)).1 = 0 ∧
          Completed VLD_READS (.INIT_SWDEC :: ns.map .FLUSH_BITS)
            (cedrusSetParams 40 (Vld.start fun _ => false)).2.regs.trace ∧
          ns.sum = 40) ∨
        ((cedrusSetParams 40 (Vld.start fun _ => false)).1 = -ETIMEDOUT ∧
          TimedOut VLD_READS (.INIT_SWDEC :: ns.map .FLUSH_BITS)
            (cedrusSetParams 40 (Vld.start fun _ => false)).2.regs.trace ∧
          ns.sum ≤ 40)) :=
  skip_header 40 (by decide) fun _ => false

/-! ### The messages -/

theorem skipBits_log (num count : ℤ) (d : Vld busy) :
    ((skipBits num count d).1 = 0 ∧ (skipBits num count d).2.log = d.log) ∨
      ((skipBits num count d).1 = -ETIMEDOUT ∧
        (skipBits num count d).2.log = d.log ++ ["cedrus: VLD timeout in skip_bits\n"]) := by
  fun_induction skipBits num count d with
  | case1 => exact Or.inr ⟨rfl, rfl⟩
  | case2 count d hlt tmp r hidle =>
    rename_i ih
    exact ih
  | case3 => exact Or.inl ⟨rfl, rfl⟩

/-- A timeout is reported, once. -/
theorem cedrusSetParams_log (headerBitSize : BitVec 32) (busy : ℕ → Bool) :
    ((cedrusSetParams headerBitSize (Vld.start busy)).1 = 0 ∧
        (cedrusSetParams headerBitSize (Vld.start busy)).2.log = []) ∨
      ((cedrusSetParams headerBitSize (Vld.start busy)).1 = -ETIMEDOUT ∧
        ∃ msg ∈ ["cedrus: VLD timeout after INIT_SWDEC\n", "cedrus: VLD timeout in skip_bits\n"],
          (cedrusSetParams headerBitSize (Vld.start busy)).2.log = [msg]) := by
  unfold cedrusSetParams cedrusSkipBits
  by_cases hlimit : ((Vld.start busy).trigger .INIT_SWDEC).1 = VLD_READS
  · rw [if_pos hlimit]
    exact Or.inr ⟨rfl, _, List.mem_cons_self, rfl⟩
  rw [if_neg hlimit]
  rcases skipBits_log headerBitSize.toInt 0 ((Vld.start busy).trigger .INIT_SWDEC).2
    with ⟨hret, hlog⟩ | ⟨hret, hlog⟩
  · rw [if_neg (not_not.mpr hret)]
    exact Or.inl ⟨rfl, hlog⟩
  · rw [if_pos (hret ▸ by decide)]
    exact Or.inr ⟨rfl, _, List.mem_cons_of_mem _ List.mem_cons_self, hlog⟩

end LonganPi.Cedrus
