import Mathlib.Data.List.Basic
import Mathlib.Data.List.Range

/-!
# Commands to a device that is polled

A driver writes a command to a device and reads the status until the device is idle, but only so
many times. The device is a stream of answers: `busy n` is what the `n`-th reading gives, whenever
it is made. A `Polled` device records what was done to it, and carries that its readings are those
of the stream.

* `Completed limit cs l`: the trace `l` consists of the commands `cs`, each observed idle in fewer
  than `limit` busy readings before anything else was done.
* `TimedOut limit cs l`: all commands but the last are completed, and the last one stayed busy for
  `limit` readings, the end of the trace.
* `Orderly`: a command is written only after the one before was observed idle.

`Completed.command` is the rule for one command and the loop that waits for it. Traces of both kinds
are orderly, and behind a `TimedOut` trace stand `limit` busy answers in a row (`TimedOut.busy`).
-/

namespace DriverLib

/-- What is done to a polled device. -/
inductive PollEvent (Cmd : Type*)
  | cmd (c : Cmd)
  | reading (busy : Bool)

namespace PollEvent

variable {Cmd : Type*}

/-- What was read. -/
def readings (l : List (PollEvent Cmd)) : List Bool :=
  l.filterMap fun
    | .cmd _ => none
    | .reading b => some b

@[simp] theorem readings_nil : readings ([] : List (PollEvent Cmd)) = [] := rfl

@[simp] theorem readings_cmd (c : Cmd) (l : List (PollEvent Cmd)) :
    readings (.cmd c :: l) = readings l := rfl

@[simp] theorem readings_reading (b : Bool) (l : List (PollEvent Cmd)) :
    readings (.reading b :: l) = b :: readings l := rfl

@[simp] theorem readings_append (l l' : List (PollEvent Cmd)) :
    readings (l ++ l') = readings l ++ readings l' := List.filterMap_append

/-! ### Traces -/

/-- A command that is busy for so many readings, and then idle. -/
def round (r : Cmd × ℕ) : List (PollEvent Cmd) :=
  .cmd r.1 :: (List.replicate r.2 (.reading true) ++ [.reading false])

/-- Each command was observed idle in time. -/
def Completed (limit : ℕ) (cs : List Cmd) (l : List (PollEvent Cmd)) : Prop :=
  ∃ rs : List (Cmd × ℕ), rs.map Prod.fst = cs ∧ (∀ r ∈ rs, r.2 < limit) ∧ l = rs.flatMap round

/-- Each command but the last was observed idle in time; the last one was not. -/
def TimedOut (limit : ℕ) (cs : List Cmd) (l : List (PollEvent Cmd)) : Prop :=
  ∃ cs₀ c l₀, Completed limit cs₀ l₀ ∧ cs = cs₀ ++ [c] ∧
    l = l₀ ++ .cmd c :: List.replicate limit (.reading true)

/-- No command is written while another one waits to be observed idle. -/
def Orderly : Bool → List (PollEvent Cmd) → Prop
  | _, [] => True
  | waiting, .cmd _ :: l => waiting = false ∧ Orderly true l
  | waiting, .reading b :: l => Orderly (waiting && b) l

variable {limit : ℕ} {cs : List Cmd} {l : List (PollEvent Cmd)}

theorem completed_nil : Completed limit ([] : List Cmd) [] :=
  ⟨[], rfl, fun _ hr => absurd hr List.not_mem_nil, rfl⟩

theorem Completed.snoc (h : Completed limit cs l) (c : Cmd) {k : ℕ} (hk : k < limit) :
    Completed limit (cs ++ [c]) (l ++ round (c, k)) := by
  obtain ⟨rs, hcs, hlt, rfl⟩ := h
  refine ⟨rs ++ [(c, k)], by rw [List.map_append, hcs]; rfl, ?_, by simp⟩
  intro r hr
  rcases List.mem_append.mp hr with hr | hr
  · exact hlt r hr
  · rw [List.mem_singleton.mp hr]
    exact hk

theorem Completed.timedOut (h : Completed limit cs l) (c : Cmd) :
    TimedOut limit (cs ++ [c]) (l ++ .cmd c :: List.replicate limit (.reading true)) :=
  ⟨cs, c, l, h, rfl, rfl⟩

/-! ### Order -/

theorem orderly_replicate (n : ℕ) (waiting : Bool) :
    Orderly waiting (List.replicate n (.reading true) ++ l) ↔ Orderly waiting l := by
  induction n with
  | zero => exact Iff.rfl
  | succ n ih =>
    rw [List.replicate_succ, List.cons_append, Orderly, Bool.and_true]
    exact ih

theorem orderly_round (r : Cmd × ℕ) : Orderly false (round r ++ l) ↔ Orderly false l := by
  rw [round, List.cons_append, Orderly, List.append_assoc, orderly_replicate]
  exact and_iff_right rfl

theorem Completed.orderly_append (h : Completed limit cs l) (l' : List (PollEvent Cmd)) :
    Orderly false (l ++ l') ↔ Orderly false l' := by
  obtain ⟨rs, -, -, rfl⟩ := h
  induction rs with
  | nil => exact Iff.rfl
  | cons r rs ih => rw [List.flatMap_cons, List.append_assoc, orderly_round, ih]

theorem Completed.orderly (h : Completed limit cs l) : Orderly false l := by
  have hnil := h.orderly_append []
  rw [List.append_nil] at hnil
  exact hnil.mpr trivial

theorem TimedOut.orderly (h : TimedOut limit cs l) : Orderly false l := by
  obtain ⟨cs₀, c, l₀, h₀, -, rfl⟩ := h
  rw [h₀.orderly_append, ← List.append_nil (List.replicate limit _)]
  exact ⟨rfl, (orderly_replicate limit true).mpr trivial⟩

/-- A command that waits is observed idle before the next one. -/
theorem Orderly.idle_mem {c : Cmd} {mid post : List (PollEvent Cmd)}
    (h : Orderly true (mid ++ .cmd c :: post)) : .reading false ∈ mid := by
  induction mid with
  | nil => exact absurd h.1 Bool.noConfusion
  | cons e mid ih =>
    cases e with
    | cmd d => exact absurd h.1 Bool.noConfusion
    | reading b =>
      cases b with
      | false => exact List.mem_cons_self
      | true => exact List.mem_cons_of_mem _ (ih h)

theorem Orderly.after {waiting : Bool} {c : Cmd} {pre post : List (PollEvent Cmd)}
    (h : Orderly waiting (pre ++ .cmd c :: post)) : Orderly true post := by
  induction pre generalizing waiting with
  | nil => exact h.2
  | cons e pre ih =>
    cases e with
    | cmd d => exact ih h.2
    | reading b => exact ih h

/-- Between two commands of an orderly trace the device is observed idle. -/
theorem Orderly.idle_between {c d : Cmd} {pre mid post : List (PollEvent Cmd)}
    (h : Orderly false l) (hl : l = pre ++ .cmd c :: (mid ++ .cmd d :: post)) :
    .reading false ∈ mid := by
  subst hl
  exact h.after.idle_mem

end PollEvent

open PollEvent

/-- A device whose status is answered by the stream `busy`, and what was done to it. -/
structure Polled (Cmd : Type*) (busy : ℕ → Bool) where
  /-- What was done, in order. -/
  trace : List (PollEvent Cmd)
  /-- What was read is what the stream answers. -/
  answered : readings trace = (List.range (readings trace).length).map busy

namespace Polled

variable {Cmd : Type*} {busy : ℕ → Bool}

/-- Nothing was done yet. -/
def start : Polled Cmd busy := ⟨[], rfl⟩

/-- A command is written. -/
def write (d : Polled Cmd busy) (c : Cmd) : Polled Cmd busy :=
  ⟨d.trace ++ [.cmd c], by
    rw [readings_append, readings_cmd, readings_nil, List.append_nil]
    exact d.answered⟩

/-- What the next reading gives. -/
def status (d : Polled Cmd busy) : Bool := busy (readings d.trace).length

/-- The status is read. -/
def read (d : Polled Cmd busy) : Polled Cmd busy :=
  ⟨d.trace ++ [.reading d.status], by
    rw [readings_append, readings_reading, readings_nil, List.length_append, List.length_singleton,
      List.range_succ, List.map_append, ← d.answered]
    rfl⟩

/-- The status is read while it is busy and fewer than `limit` readings were made; `i` counts them.
The count at the end and the device. -/
def poll (limit i : ℕ) (d : Polled Cmd busy) : ℕ × Polled Cmd busy :=
  if i < limit then
    if d.status then poll limit (i + 1) d.read else (i, d.read)
  else (i, d)
termination_by limit - i

@[simp] theorem trace_write (d : Polled Cmd busy) (c : Cmd) :
    (d.write c).trace = d.trace ++ [.cmd c] := rfl

theorem trace_read {d : Polled Cmd busy} {b : Bool} (h : d.status = b) :
    d.read.trace = d.trace ++ [.reading b] := h ▸ rfl

/-- The loop ends at an idle reading, or after the last one. -/
theorem poll_spec {limit i : ℕ} (hi : i ≤ limit) (d : Polled Cmd busy) :
    (∃ k, i + k < limit ∧ (poll limit i d).1 = i + k ∧
      (poll limit i d).2.trace
        = d.trace ++ (List.replicate k (.reading true) ++ [.reading false])) ∨
    ((poll limit i d).1 = limit ∧
      (poll limit i d).2.trace = d.trace ++ List.replicate (limit - i) (.reading true)) := by
  fun_induction poll limit i d with
  | case1 i d hlt hbusy ih =>
    have htrace : d.read.trace = d.trace ++ [.reading true] := trace_read hbusy
    rcases ih hlt with ⟨k, hk, hidx, hend⟩ | ⟨hidx, hend⟩
    · refine Or.inl ⟨k + 1, by omega, by rw [hidx]; omega, ?_⟩
      rw [hend, htrace, List.replicate_succ, List.append_assoc]
      rfl
    · refine Or.inr ⟨hidx, ?_⟩
      rw [hend, htrace, List.append_assoc, ← Nat.succ_sub_succ limit i, Nat.succ_sub hlt,
        List.replicate_succ]
      rfl
  | case2 i d hlt hidle =>
    have htrace : d.read.trace = d.trace ++ [.reading false] :=
      trace_read (Bool.eq_false_iff.mpr hidle)
    exact Or.inl ⟨0, hlt, rfl, htrace⟩
  | case3 i d hge =>
    obtain rfl : i = limit := by omega
    refine Or.inr ⟨rfl, ?_⟩
    rw [Nat.sub_self, List.replicate_zero, List.append_nil]

/-- **One command.** After completed ones a command is written and waited for. The count at the end
says which of the two has happened. -/
theorem completed_command {limit : ℕ} {cs : List Cmd} {d : Polled Cmd busy}
    (h : Completed limit cs d.trace) (c : Cmd) :
    ((poll limit 0 (d.write c)).1 ≠ limit ∧
      Completed limit (cs ++ [c]) (poll limit 0 (d.write c)).2.trace) ∨
    ((poll limit 0 (d.write c)).1 = limit ∧
      TimedOut limit (cs ++ [c]) (poll limit 0 (d.write c)).2.trace) := by
  rcases poll_spec (Nat.zero_le limit) (d.write c) with ⟨k, hk, hidx, hend⟩ | ⟨hidx, hend⟩
  · rw [Nat.zero_add] at hk hidx
    refine Or.inl ⟨by omega, ?_⟩
    rw [hend, trace_write, List.append_assoc]
    exact h.snoc c hk
  · refine Or.inr ⟨hidx, ?_⟩
    rw [hend, trace_write, List.append_assoc]
    exact h.timedOut c

end Polled

end DriverLib
