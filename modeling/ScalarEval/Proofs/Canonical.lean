import Mathlib
import ScalarEval.Proofs.Accumulation
import ScalarEval.Proofs.Dispatch
import ScalarEval.Proofs.Ieee.Pattern

/-! Canonical words: those in which a kind stores its values. Every operator that succeeds on
canonical operands leaves a canonical word without an allocation. -/
namespace ScalarEval

namespace Kind

/-- The low bits of a word, as many as the kind is wide, extended by sign or by zeros. -/
def extendLow (k : Kind) (w : BitVec 64) : BitVec 64 :=
  if k.isSigned then (w.setWidth k.width).signExtend 64 else (w.setWidth k.width).setWidth 64

/-- At `f64` and `ptr` every word is canonical. -/
structure Canonical (k : Kind) (w : BitVec 64) : Prop where
  integer : k.isInteger = true → k.extendLow w = w
  bool : k = .bool → w = 0 ∨ w = 1
  f32 : k = .f32 → w.toNat < 2 ^ 32

instance (k : Kind) (w : BitVec 64) : Decidable (k.Canonical w) :=
  decidable_of_iff ((k.isInteger = true → k.extendLow w = w) ∧ (k = .bool → w = 0 ∨ w = 1) ∧
    (k = .f32 → w.toNat < 2 ^ 32)) ⟨fun h => ⟨h.1, h.2.1, h.2.2⟩, fun h => ⟨h.1, h.2, h.3⟩⟩

theorem extendLow_eq_extend (k : Kind) (w : BitVec 64) : k.extendLow w = k.extend w.toNat := by
  unfold extendLow extend wrap
  split
  · rw [← BitVec.toInt_setWidth]
    rfl
  · apply BitVec.eq_of_toNat_eq
    have hlt : w.toNat % 2 ^ k.width < 2 ^ 64 :=
      (Nat.mod_le _ _).trans_lt w.isLt
    rw [BitVec.toNat_ofInt, BitVec.toNat_setWidth, BitVec.toNat_setWidth]
    norm_cast

theorem canonical_extend {k : Kind} (hk : k.isInteger = true) (n : ℤ) :
    k.Canonical (k.extend n) where
  integer _ := by rw [extendLow_eq_extend, extend_extend]
  bool hb := by subst hb; cases hk
  f32 hf := by subst hf; cases hk

theorem canonical_ofBool (b : Bool) : Kind.bool.Canonical (Value.ofBool b).bits := by
  cases b <;> decide

theorem canonical_ofDouble {k : Kind} (hk : k.isFloating = true) (p : ℕ) :
    k.Canonical (k.ofDouble p) where
  integer hi := by rw [isFloating_eq_false hi] at hk; cases hk
  bool hb := by subst hb; cases hk
  f32 hf := by
    subst hf
    have := Ieee.narrow_lt p
    simp only [ofDouble, if_true, BitVec.toNat_ofNat]
    omega

theorem canonical_f64 (w : BitVec 64) : Kind.f64.Canonical w where
  integer h := by cases h
  bool h := by cases h
  f32 h := by cases h

theorem canonical_ptr (w : BitVec 64) : Kind.ptr.Canonical w where
  integer h := by cases h
  bool h := by cases h
  f32 h := by cases h

theorem canonical_f32 {w : BitVec 64} (h : w.toNat < 2 ^ 32) : Kind.f32.Canonical w where
  integer h := by cases h
  bool h := by cases h
  f32 _ := h

theorem canonical_negated_f32 (w : BitVec 64) :
    Kind.f32.Canonical ((w &&& 0xffffffff) ^^^ 0x80000000) := by
  have hw : (w &&& 0xffffffff).toNat < 2 ^ 32 := Nat.and_lt_two_pow _ (by decide)
  exact canonical_f32 (Nat.xor_lt_two_pow hw (by decide))

/-- There are two formats, and each belongs to one kind. -/
theorem format?_eq_some_iff {k : Kind} {F : Ieee.Format} :
    k.format? = some F ↔ k = f32 ∧ F = Ieee.binary32 ∨ k = f64 ∧ F = Ieee.binary64 := by
  cases k <;> simp [format?, eq_comm]

/-- A kind is as wide as its format. -/
theorem two_pow_width {k : Kind} {F : Ieee.Format} (hk : k.format? = some F) :
    2 ^ k.width = 2 * F.signBit := by
  obtain ⟨rfl, rfl⟩ | ⟨rfl, rfl⟩ := format?_eq_some_iff.mp hk <;> decide

/-- Extension by sign or by zeros commutes with the bitwise operators, so their results need no
extension of their own. -/
theorem extendLow_onWords (k : Kind) (op : Bitwise) (l r : BitVec 64) :
    k.extendLow (op.onWords l r) = op.onWords (k.extendLow l) (k.extendLow r) := by
  unfold extendLow
  cases op <;> split <;> simp [Bitwise.onWords]

theorem canonical_onWords {k : Kind} (op : Bitwise) {l r : BitVec 64} (hl : k.Canonical l)
    (hr : k.Canonical r) : k.Canonical (op.onWords l r) where
  integer hi := by rw [extendLow_onWords, hl.integer hi, hr.integer hi]
  bool hb := by
    rcases hl.bool hb with rfl | rfl <;> rcases hr.bool hb with rfl | rfl <;> cases op <;> decide
  f32 hf := by
    have hl' := hl.f32 hf
    have hr' := hr.f32 hf
    cases op with
    | or => exact Nat.or_lt_two_pow hl' hr'
    | and => exact Nat.and_lt_two_pow _ hr'
    | xor => exact Nat.xor_lt_two_pow hl' hr'

end Kind

/-- The word in canonical form is that of the integer read from it. -/
theorem Value.ofInt_read (w : BitVec 64) (k : Kind) :
    Value.ofInt ((Value.ofBits w).read k) k = .ofBits (k.extendLow w) := by
  rw [Kind.extendLow_eq_extend]
  exact congrArg Value.ofBits (k.extend_wrap _)

/-- The word of an operand is one in which its kind stores values. -/
def Operand.Canonical (o : Operand) : Prop :=
  o.kind.Canonical o.value.bits

namespace Evaluate

theorem alloc_of_onWords? {op : BinaryOp} {lk rk : Kind} {l r : BitVec 64} {x : Result}
    (h : onWords? op lk rk l r = some (.ok x)) : x.value.alloc = none := by
  cases op with
  | shift _ | comparison _ | bitwise _ | arithmetic _ =>
    simp only [onWords?] at h
    split_ifs at h <;> cases h <;> rfl

/-- Results are plain data, whatever the operands are. -/
theorem alloc_of_binary {op : BinaryOp} {l r : Operand} {x : Result}
    (h : (binary op l r).outcome = .ok x) : x.value.alloc = none := by
  rcases binary_eq_ok (Evaluation.ending_eq_ok_iff.mpr h) with hw | ⟨-, b, rfl⟩
  · exact alloc_of_onWords? hw
  · rfl

theorem onWords?_canonical {op : BinaryOp} {lk rk : Kind} {l r : BitVec 64} {x : Result}
    (hl : lk.Canonical l) (hr : rk.Canonical r) (h : onWords? op lk rk l r = some (.ok x)) :
    (Command.resultKind op lk).Canonical x.value.bits := by
  cases op with
  | comparison c =>
    simp only [onWords?] at h
    split at h
    · obtain rfl := Except.ok.inj (Option.some.inj h)
      exact Kind.canonical_ofBool _
    · cases h
  | bitwise b =>
    simp only [onWords?] at h
    split at h
    next hk =>
      subst hk
      obtain rfl := Except.ok.inj (Option.some.inj h)
      exact Kind.canonical_onWords b hl hr
    next => cases h
  | shift s =>
    simp only [onWords?] at h
    split at h
    next hi =>
      obtain rfl := Except.ok.inj (Option.some.inj h)
      exact Kind.canonical_extend hi _
    next => cases h
  | arithmetic a =>
    simp only [onWords?] at h
    split_ifs at h with hk hf hi hz
    · obtain rfl := Except.ok.inj (Option.some.inj h)
      exact Kind.canonical_ofDouble hf _
    · cases h
    · obtain rfl := Except.ok.inj (Option.some.inj h)
      have hi' : lk.isInteger = true := by simpa using hi
      exact Kind.canonical_extend hi' _

theorem onWord?_canonical {op : UnaryOp} {k : Kind} {w : BitVec 64} {v : Value}
    (h : onWord? op k w = some (.ok v)) : k.Canonical v.bits ∧ v.alloc = none := by
  cases op with
  | not =>
    simp only [onWord?] at h
    split_ifs at h with hb hw hi
    · subst hb
      obtain rfl := Except.ok.inj (Option.some.inj h)
      exact ⟨Kind.canonical_ofBool _, rfl⟩
    · cases h
    · obtain rfl := Except.ok.inj (Option.some.inj h)
      exact ⟨Kind.canonical_extend hi _, rfl⟩
  | neg =>
    simp only [onWord?] at h
    split_ifs at h with hi h32 h64
    · obtain rfl := Except.ok.inj (Option.some.inj h)
      exact ⟨Kind.canonical_extend (Bool.and_eq_true_iff.mp hi).1 _, rfl⟩
    · subst h32
      obtain rfl := Except.ok.inj (Option.some.inj h)
      exact ⟨Kind.canonical_negated_f32 w, rfl⟩
    · subst h64
      obtain rfl := Except.ok.inj (Option.some.inj h)
      exact ⟨Kind.canonical_f64 _, rfl⟩

theorem binary_canonical {op : BinaryOp} {l r : Operand} {x : Result} (hl : l.Canonical)
    (hr : r.Canonical) (h : (binary op l r).outcome = .ok x) :
    (Command.resultKind op l.kind).Canonical x.value.bits ∧ x.value.alloc = none := by
  refine ⟨?_, alloc_of_binary h⟩
  rcases binary_eq_ok (Evaluation.ending_eq_ok_iff.mpr h) with hw | ⟨hc, b, rfl⟩
  · exact onWords?_canonical hl hr hw
  · have hk : Command.resultKind op l.kind = .bool := if_pos hc
    rw [hk]
    exact Kind.canonical_ofBool b

theorem unary_canonical {op : UnaryOp} {o : Operand} {v : Value}
    (h : (unary op o).outcome = .ok v) : o.kind.Canonical v.bits ∧ v.alloc = none := by
  have he := Evaluation.ending_eq_ok_iff.mpr h
  rw [ending_unary] at he
  cases hw : onWord? op o.kind o.value.bits with
  | none =>
    rw [hw, ending_unimplementedUnary_eq] at he
    cases he
  | some e =>
    rw [hw] at he
    exact onWord?_canonical (hw.trans (congrArg some he))

/-- Complement of a truth value is the only unary operator that refuses words, and it refuses
neither 0 nor 1. -/
theorem unary_not_violated_of_bool {o : Operand}
    (ho : o.kind = .bool → o.value.bits = 0 ∨ o.value.bits = 1) (op : UnaryOp) (x : Violation) :
    (unary op o).outcome ≠ .error (.violation x) := by
  intro h
  have he : (unary op o).ending = .error .violation :=
    Evaluation.ending_eq_error_iff.mpr ⟨_, h, rfl⟩
  rw [ending_unary, ending_unimplementedUnary_eq] at he
  cases op with
  | not =>
    by_cases hb : o.kind = .bool
    · have hw : o.value.bits.toNat ≤ 1 := by
        rcases ho hb with hz | hz <;> rw [hz] <;> decide
      simp [onWord?, hb, hw] at he
    · simp only [onWord?, if_neg hb] at he
      split_ifs at he <;> cases he
  | neg =>
    simp only [onWord?] at he
    split_ifs at he <;> cases he

theorem unary_not_violated {o : Operand} (ho : o.Canonical) (op : UnaryOp) (x : Violation) :
    (unary op o).outcome ≠ .error (.violation x) :=
  unary_not_violated_of_bool ho.bool op x

end Evaluate

namespace Step

def ArgumentCanonical : Step → Prop
  | binary _ _ argument _ => argument.Canonical
  | unary .. => True

/-- One step keeps the accumulated value canonical, at the kind on which it is passed. -/
theorem outcome_canonical {s : Step} {v : Value} {x : StepResult} (hv : s.kind.Canonical v.bits)
    (ha : s.ArgumentCanonical) (h : s.outcome v = .ok x) :
    s.resultKind.Canonical x.value.bits ∧ x.value.alloc = none := by
  cases s with
  | binary op k a swapped =>
    obtain ⟨r, rfl, hr⟩ := outcome_binary_eq_ok h
    cases swapped with
    | true => exact Evaluate.binary_canonical (l := a) (r := ⟨v, k⟩) ha hv hr
    | false => exact Evaluate.binary_canonical (l := ⟨v, k⟩) (r := a) hv ha hr
  | unary op k =>
    obtain ⟨u, rfl, hu⟩ := outcome_unary_eq_ok h
    exact Evaluate.unary_canonical (o := ⟨v, k⟩) hu

end Step

/-- Each step takes the accumulated value at the kind of the result before it, beside a canonical
argument. -/
def Chained : Kind → List Step → Prop
  | _, [] => True
  | k, s :: steps => s.kind = k ∧ s.ArgumentCanonical ∧ Chained s.resultKind steps

/-- The kind of the value that a run accumulates. -/
def accumulatedKind (k : Kind) (steps : List Step) : Kind :=
  steps.foldl (fun _ s => s.resultKind) k

/-- A step ended with plain data: a canonical word of the kind of its result. -/
def Step.LeavesCanonical (s : Step) (x : Except Failure StepResult) : Prop :=
  ∃ r, x = .ok r ∧ r.value.bits.toNat ≤ 2 ^ 64 - 1 ∧ s.resultKind.Canonical r.value.bits ∧
    r.value.alloc = none

variable {o : Operand} {steps : List Step}

theorem leavesCanonical_of_chained (ho : o.Canonical) (hc : Chained o.kind steps)
    (hs : ∀ x ∈ run o.value steps, x.isOk = true) :
    List.Forall₂ Step.LeavesCanonical steps (run o.value steps) ∧
      (accumulatedKind o.kind steps).Canonical (accumulated o.value steps).bits := by
  -- The operand passed on is canonical, whichever it is.
  induction steps generalizing o with
  | nil => exact ⟨.nil, ho⟩
  | cons s steps ih =>
    obtain ⟨hk, ha, hc⟩ := hc
    rw [run_cons] at hs ⊢
    cases hx : s.outcome o.value with
    | error e =>
      have := hs _ List.mem_cons_self
      rw [hx] at this
      cases this
    | ok r =>
      obtain ⟨hr, hplain⟩ := s.outcome_canonical (hk ▸ ho) ha hx
      have hrange : r.value.bits.toNat ≤ 2 ^ 64 - 1 := by
        have := r.value.bits.isLt
        omega
      rw [accumulated_cons]
      rw [Step.next_of_ok hx] at hs ⊢
      have hs' : ∀ x ∈ run r.value steps, x.isOk = true :=
        fun x hx => hs x (List.mem_cons_of_mem _ hx)
      obtain ⟨hrun, hlast⟩ := ih (o := ⟨r.value, s.resultKind⟩) hr hc hs'
      exact ⟨.cons ⟨r, rfl, hrange, hr, hplain⟩ hrun, hlast⟩

/-- A run of successful steps on canonical operands leaves canonical plain data at every step,
and complement cannot meet an invalid truth value after it. -/
theorem run_canonical (ho : o.Canonical) (hc : Chained o.kind steps)
    (hs : ∀ x ∈ run o.value steps, x.isOk = true) :
    List.Forall₂ Step.LeavesCanonical steps (run o.value steps) ∧
      ∀ n, (Evaluate.unary .not
          ⟨accumulated o.value steps, accumulatedKind o.kind steps⟩).outcome ≠
        .error (.violation (.invalidBoolean n)) := by
  obtain ⟨hrun, hlast⟩ := leavesCanonical_of_chained ho hc hs
  refine ⟨hrun, fun n => ?_⟩
  exact Evaluate.unary_not_violated
    (o := ⟨accumulated o.value steps, accumulatedKind o.kind steps⟩) hlast .not _

/-- The least `i8` has all other bits set, is ordered against 3 as a word, is complemented as a
truth value, and is then the amount of a shift. -/
def mixedSteps : List Step :=
  [.binary (.bitwise .xor) .i8 ⟨.ofBits 0x7f, .i8⟩ true,
    .binary (.comparison .lt) .i8 ⟨.ofBits 3, .i8⟩ true, .unary .not .bool,
    .binary (.shift .left) .bool ⟨.ofBits 0x8001, .u16⟩ true]

theorem run_canonical_mixedSteps :
    List.Forall₂ Step.LeavesCanonical mixedSteps
        (run (.ofBits 0xffffffffffffff80) mixedSteps) ∧
      ∀ n, (Evaluate.unary .not ⟨accumulated (.ofBits 0xffffffffffffff80) mixedSteps,
          accumulatedKind .i8 mixedSteps⟩).outcome ≠ .error (.violation (.invalidBoolean n)) := by
  have ho : Kind.i8.Canonical 0xffffffffffffff80 := by decide
  have hc : Chained .i8 mixedSteps :=
    ⟨rfl, (by decide : Kind.i8.Canonical 0x7f), rfl, (by decide : Kind.i8.Canonical 3), rfl,
      trivial, rfl, (by decide : Kind.u16.Canonical 0x8001), trivial⟩
  have hs : ∀ x ∈ run (.ofBits 0xffffffffffffff80) mixedSteps, x.isOk = true := by decide
  exact run_canonical (o := ⟨.ofBits 0xffffffffffffff80, .i8⟩) ho hc hs

end ScalarEval
