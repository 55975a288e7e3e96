import Mathlib
import ScalarEval.Proofs.Accumulation
import ScalarEval.Proofs.Integer

/-! Runs of integer operators compute in the integers modulo `2 ^ width`. They are exact as long
as no step of addition, subtraction or multiplication overflows. -/
namespace ScalarEval

/-- A word, read at a kind. -/
def Kind.readWord (k : Kind) (w : BitVec 64) : ℤ :=
  k.wrap w.toNat

/-- The steps that commute with reduction modulo `2 ^ width`, their arguments plain words. Only
signed kinds have a negation. -/
inductive ModularStep (k : Kind) where
  | arithmetic (op : Arithmetic) (exact : op.divides = false) (w : BitVec 64) (swapped : Bool)
  | shiftLeft (w : BitVec 64) (kind : Kind)
  | complement
  | negation (signed : k.isSigned = true)

namespace ModularStep
variable {k : Kind}

def toStep : ModularStep k → Step
  | arithmetic op _ w swapped => .binary (.arithmetic op) k ⟨.ofBits w, k⟩ swapped
  | shiftLeft w kind => .binary (.shift .left) k ⟨.ofBits w, kind⟩ false
  | complement => .unary .not k
  | negation _ => .unary .neg k

/-- The step in unbounded integers, its argument read from its word. -/
def exact (reading : BitVec 64 → ℤ) : ModularStep k → ℤ → ℤ
  | arithmetic op _ w false, x => op.exact x (reading w)
  | arithmetic op _ w true, x => op.exact (reading w) x
  | shiftLeft w _, x => x * 2 ^ (w.toNat % k.width)
  | complement, x => -x - 1
  | negation _, x => -x

def isArithmetic : ModularStep k → Bool
  | arithmetic .. => true
  | _ => false

end ModularStep

/-- Addition, subtraction and multiplication respect congruence. -/
theorem Arithmetic.exact_modEq {op : Arithmetic} (h : op.divides = false) {m a b a' b' : ℤ}
    (ha : a ≡ a' [ZMOD m]) (hb : b ≡ b' [ZMOD m]) : op.exact a b ≡ op.exact a' b' [ZMOD m] := by
  cases op with
  | add => exact ha.add hb
  | sub => exact ha.sub hb
  | mul => exact ha.mul hb
  | div | rem => cases h

namespace ModularStep
variable {k : Kind}

theorem exact_modEq (s : ModularStep k) {reading reading' : BitVec 64 → ℤ}
    (hr : ∀ w, reading w ≡ reading' w [ZMOD 2 ^ k.width]) {x y : ℤ}
    (hx : x ≡ y [ZMOD 2 ^ k.width]) :
    s.exact reading x ≡ s.exact reading' y [ZMOD 2 ^ k.width] := by
  cases s with
  | arithmetic op hop w swapped =>
    cases swapped with
    | false => exact Arithmetic.exact_modEq hop hx (hr w)
    | true => exact Arithmetic.exact_modEq hop (hr w) hx
  | shiftLeft w kind => exact hx.mul_right _
  | complement => exact hx.neg.sub_right 1
  | negation => exact hx.neg

/-- One step on plain data: it succeeds, stores the exact result of what was read, and reports in
arithmetic whether that fits. -/
theorem outcome_toStep (hk : k.isInteger = true) (s : ModularStep k) {v : Value}
    (hv : v.alloc = none) :
    ∃ r, s.toStep.outcome v = .ok r ∧ r.value = .ofInt (s.exact k.readWord (v.read k)) k ∧
      (s.isArithmetic = true → ∃ x, r = .binary x ∧
        x.overflow = !k.fits (s.exact k.readWord (v.read k))) := by
  cases s with
  | arithmetic op hop w swapped =>
    have hz : ∀ n : ℤ, ¬ (op.divides = true ∧ n = 0) := fun n h => by simp [hop] at h
    cases swapped with
    | false =>
      have ho := Evaluate.outcome_arithmetic hk op (l := v) (r := .ofBits w) hv (hz _)
      rw [Arithmetic.measured_eq_exact hop] at ho
      exact ⟨_, congrArg (Except.map StepResult.binary) ho, rfl, fun _ => ⟨_, rfl, rfl⟩⟩
    | true =>
      have ho := Evaluate.outcome_arithmetic hk op (l := .ofBits w) (r := v) hv.symm (hz _)
      rw [Arithmetic.measured_eq_exact hop] at ho
      exact ⟨_, congrArg (Except.map StepResult.binary) ho, rfl, fun _ => ⟨_, rfl, rfl⟩⟩
  | shiftLeft w kind =>
    have ho := Evaluate.outcome_shift hk .left (l := v) (r := .ofBits w) hv kind
    exact ⟨_, congrArg (Except.map StepResult.binary) ho, rfl, fun h => by cases h⟩
  | complement =>
    have ho := Evaluate.outcome_complement hk v
    exact ⟨_, congrArg (Except.map StepResult.unary) ho, rfl, fun h => by cases h⟩
  | negation hs =>
    have ho := Evaluate.outcome_negation hk hs v
    exact ⟨_, congrArg (Except.map StepResult.unary) ho, rfl, fun h => by cases h⟩

theorem next_toStep (hk : k.isInteger = true) (s : ModularStep k) {v : Value}
    (hv : v.alloc = none) :
    s.toStep.next v = .ofInt (s.exact k.readWord (v.read k)) k := by
  obtain ⟨r, hr, hvalue, -⟩ := s.outcome_toStep hk hv
  rw [Step.next_of_ok hr, hvalue]

end ModularStep

/-- A run in unbounded integers. -/
def exactRun {k : Kind} (reading : BitVec 64 → ℤ) (x : ℤ) (steps : List (ModularStep k)) : ℤ :=
  steps.foldl (fun y s => s.exact reading y) x

/-- The outcome of a binary operator that reported no overflow. -/
def isWithinBounds : Except Failure StepResult → Bool
  | .ok (.binary r) => !r.overflow
  | _ => false

section
variable {k : Kind} {v : Value} {steps : List (ModularStep k)}

theorem isOk_of_mem_run (hk : k.isInteger = true) (hv : v.alloc = none) :
    ∀ x ∈ run v (steps.map ModularStep.toStep), x.isOk = true := by
  induction steps generalizing v with
  | nil => simp [run]
  | cons s steps ih =>
    obtain ⟨r, hr, -⟩ := s.outcome_toStep hk hv
    rw [List.map_cons, run_cons, s.next_toStep hk hv, hr]
    exact List.forall_mem_cons.mpr ⟨rfl, ih rfl⟩

theorem read_accumulated (hk : k.isInteger = true) (hv : v.alloc = none)
    {reading : BitVec 64 → ℤ} (hr : ∀ w, reading w ≡ w.toNat [ZMOD 2 ^ k.width]) {x : ℤ}
    (hx : v.read k ≡ x [ZMOD 2 ^ k.width]) :
    (accumulated v (steps.map ModularStep.toStep)).read k = k.wrap (exactRun reading x steps) := by
  -- Value and exact result stay congruent. They are equal only at the end, after wrapping.
  induction steps generalizing v x with
  | nil =>
    change v.read k = k.wrap x
    rw [← Value.wrap_read, Kind.wrap_congr hx]
  | cons s steps ih =>
    rw [List.map_cons, accumulated_cons, s.next_toStep hk hv]
    apply ih rfl
    rw [Value.read_ofInt]
    have hread : ∀ w, k.readWord w ≡ reading w [ZMOD 2 ^ k.width] :=
      fun w => (k.wrap_modEq _).trans (hr w).symm
    exact (k.wrap_modEq _).trans (s.exact_modEq hread hx)

theorem read_accumulated_of_fits (hk : k.isInteger = true) (hv : v.alloc = none)
    (ha : ∀ s ∈ steps, s.isArithmetic = true)
    (hn : ∀ x ∈ run v (steps.map ModularStep.toStep), isWithinBounds x = true) :
    (accumulated v (steps.map ModularStep.toStep)).read k =
      exactRun k.readWord (v.read k) steps := by
  -- Value and exact result stay equal, since wrapping does not change a result that fits.
  induction steps generalizing v with
  | nil => rfl
  | cons s steps ih =>
    obtain ⟨hs, ha⟩ := List.forall_mem_cons.mp ha
    obtain ⟨r, hr, -, hflag⟩ := s.outcome_toStep hk hv
    obtain ⟨x, rfl, hfits⟩ := hflag hs
    rw [List.map_cons, run_cons, hr, s.next_toStep hk hv] at hn
    obtain ⟨hwithin, hn⟩ := List.forall_mem_cons.mp hn
    have hfit : k.fits (s.exact k.readWord (v.read k)) = true := by
      simpa [isWithinBounds, hfits] using hwithin
    rw [List.map_cons, accumulated_cons, s.next_toStep hk hv, ih rfl ha hn, Value.read_ofInt,
      Kind.wrap_eq_of_fits hfit]
    rfl

/-- A run succeeds and computes modulo `2 ^ width`, however its words are read. Without overflow
in a run of arithmetic it computes exactly. -/
theorem run_modular (hk : k.isInteger = true) (hv : v.alloc = none)
    (steps : List (ModularStep k)) :
    (∀ x ∈ run v (steps.map ModularStep.toStep), x.isOk = true) ∧
    (∀ reading : BitVec 64 → ℤ, (∀ w, reading w ≡ w.toNat [ZMOD 2 ^ k.width]) →
      (accumulated v (steps.map ModularStep.toStep)).read k =
        k.wrap (exactRun reading (reading v.bits) steps)) ∧
    ((∀ s ∈ steps, s.isArithmetic = true) →
      (∀ x ∈ run v (steps.map ModularStep.toStep), isWithinBounds x = true) →
      (accumulated v (steps.map ModularStep.toStep)).read k =
        exactRun k.readWord (k.readWord v.bits) steps) := by
  refine ⟨isOk_of_mem_run hk hv, fun reading hr => ?_, read_accumulated_of_fits hk hv⟩
  exact read_accumulated hk hv hr ((v.read_modEq k).trans (hr v.bits).symm)

/-- From the greatest `i8` the addition overflows, and the run goes on modulo 256. Where
subtractions from -100 fit, the result is exact. -/
theorem run_modular_i8 :
    (accumulated (.ofBits 0x7f) [.binary (.arithmetic .add) .i8 ⟨.ofBits 2, .i8⟩ false,
        .binary (.shift .left) .i8 ⟨.ofBits 9, .u64⟩ false, .unary .not .i8, .unary .neg .i8]).read
        .i8 = Kind.i8.wrap (-(-((127 + 2) * 2 ^ 1) - 1)) ∧
    (accumulated (.ofBits 0x9c) [.binary (.arithmetic .sub) .i8 ⟨.ofBits 0xff, .i8⟩ false,
        .binary (.arithmetic .sub) .i8 ⟨.ofBits 0xfe, .i8⟩ true]).read .i8 = -2 - (-100 - -1) := by
  have hwrap := (run_modular (k := .i8) (v := .ofBits 0x7f) rfl rfl
    [.arithmetic .add rfl 2 false, .shiftLeft 9 .u64, .complement, .negation rfl]).2.1
    Kind.i8.readWord fun w => Kind.i8.wrap_modEq w.toNat
  have hexact := (run_modular (k := .i8) (v := .ofBits 0x9c) rfl rfl
    [.arithmetic .sub rfl 0xff false, .arithmetic .sub rfl 0xfe true]).2.2 (by decide) (by decide)
  refine ⟨hwrap.trans ?_, hexact.trans ?_⟩
  · decide
  · decide

end
end ScalarEval
