import Mathlib
import ScalarEval.Proofs.Canonical
import ScalarEval.Proofs.Integer

/-! Bits above the width of a kind. Arithmetic, shifts and unary operators at integer kinds and at
`f32`, and comparisons at `f32`, do not see them; bitwise operators keep them apart. -/
namespace ScalarEval

theorem Value.hasText_ofBits (w : BitVec 64) : (Value.ofBits w).HasText := by
  rintro a ⟨⟩

namespace Kind
variable {k : Kind} {w w' : BitVec 64}

/-- The canonical word with the low bits of a given one, at an integer kind or at `f32`. -/
def canon (k : Kind) (w : BitVec 64) : BitVec 64 :=
  if k = .f32 then (w.setWidth 32).setWidth 64 else k.extendLow w

theorem canon_of_isInteger (hk : k.isInteger = true) (w : BitVec 64) :
    k.canon w = k.extend w.toNat := by
  have hf : k ≠ .f32 := by
    rintro rfl
    cases hk
  rw [canon, if_neg hf, extendLow_eq_extend]

theorem toNat_canon_f32 (w : BitVec 64) : (Kind.f32.canon w).toNat = w.toNat % 2 ^ 32 := by
  have hlt : w.toNat % 2 ^ 32 < 2 ^ 64 := (Nat.mod_le _ _).trans_lt w.isLt
  simp only [canon, if_true, BitVec.toNat_setWidth, Nat.mod_eq_of_lt hlt]

/-- Bitwise operators act on each bit alone, so they commute with the choice of canonical words. -/
theorem canon_onWords (k : Kind) (op : Bitwise) (l r : BitVec 64) :
    k.canon (op.onWords l r) = op.onWords (k.canon l) (k.canon r) := by
  unfold canon
  split
  · cases op <;> simp [Bitwise.onWords]
  · exact k.extendLow_onWords op l r

/-- Words agree at a kind on the bits within its width. -/
def LowEq (k : Kind) (w w' : BitVec 64) : Prop :=
  (w.toNat : ℤ) ≡ w'.toNat [ZMOD 2 ^ k.width]

theorem lowEq_canon (hk : k.isInteger = true ∨ k = .f32) (w : BitVec 64) :
    k.LowEq (k.canon w) w := by
  unfold LowEq
  rcases hk with hk | rfl
  · rw [canon_of_isInteger hk]
    exact k.extend_modEq _
  · rw [toNat_canon_f32]
    push_cast
    exact Int.mod_modEq _ _

theorem lowEq_of_mem (hk : k.isInteger = true ∨ k = .f32) (h : w' ∈ [w, k.canon w]) :
    k.LowEq w' w := by
  rcases List.mem_pair.mp h with rfl | rfl
  · exact Int.ModEq.rfl
  · exact lowEq_canon hk w

theorem LowEq.wrap_eq (h : k.LowEq w w') : k.wrap w.toNat = k.wrap w'.toNat :=
  wrap_congr h

theorem LowEq.mod_eq (h : k.LowEq w w') : w.toNat % 2 ^ k.width = w'.toNat % 2 ^ k.width := by
  have h' : ((w.toNat % 2 ^ k.width : ℕ) : ℤ) = (w'.toNat % 2 ^ k.width : ℕ) := by
    push_cast
    exact h
  exact_mod_cast h'

theorem LowEq.decode_eq {F : Ieee.Format} (hk : k.format? = some F) (h : k.LowEq w w') :
    F.decode w.toNat = F.decode w'.toNat := by
  have hmod := h.mod_eq
  rw [two_pow_width hk] at hmod
  rw [← F.decode_mod w.toNat, ← F.decode_mod w'.toNat, hmod]

theorem LowEq.toDouble_eq (h : Kind.f32.LowEq w w') :
    Kind.f32.toDouble w = Kind.f32.toDouble w' := by
  change Ieee.binary32.convert Ieee.binary64 w.toNat = Ieee.binary32.convert Ieee.binary64 w'.toNat
  rw [← Ieee.Format.convert_mod, ← Ieee.Format.convert_mod _ _ w'.toNat]
  exact congrArg _ h.mod_eq

theorem toNat_mask (w : BitVec 64) : (w &&& 0xffffffff).toNat = w.toNat % 2 ^ 32 :=
  Nat.and_two_pow_sub_one_eq_mod w.toNat 32

theorem LowEq.mask_eq (h : Kind.f32.LowEq w w') : w &&& 0xffffffff = w' &&& 0xffffffff := by
  apply BitVec.eq_of_toNat_eq
  rw [toNat_mask, toNat_mask]
  exact h.mod_eq

theorem width_dvd (hk : k.isInteger = true) : k.width ∣ 2 ^ 6 := by
  revert hk
  cases k <;> decide

theorem six_le_width (hk : k.isInteger = true ∨ k = .f32) : 6 ≤ k.width := by
  revert hk
  cases k <;> decide

/-- The amount of a shift is read from fewer bits than any integer kind has. -/
theorem LowEq.amount_eq {j : Kind} (hj : j.isInteger = true ∨ j = .f32) (hk : k.isInteger = true)
    (h : j.LowEq w w') : w.toNat % k.width = w'.toNat % k.width := by
  have hd : k.width ∣ 2 ^ j.width := (width_dvd hk).trans (pow_dvd_pow 2 (six_le_width hj))
  exact Nat.ModEq.of_dvd hd h.mod_eq

end Kind

namespace Evaluate
variable {k : Kind} {l r l' r' w w' : BitVec 64}

theorem onWords?_arithmetic_congr (hk : k.isInteger = true ∨ k = .f32) (op : Arithmetic)
    (hl : k.LowEq l' l) (hr : k.LowEq r' r) :
    onWords? (.arithmetic op) k k l' r' = onWords? (.arithmetic op) k k l r := by
  rcases hk with hk | rfl
  · rw [onWords?_arithmetic hk, onWords?_arithmetic hk, hl.wrap_eq, hr.wrap_eq]
  · rw [onWords?_floating rfl, onWords?_floating rfl]
    simp only [floatArithmetic, hl.toDouble_eq, hr.toDouble_eq]

theorem onWords?_comparison_congr (c : Comparison) (hl : Kind.f32.LowEq l' l)
    (hr : Kind.f32.LowEq r' r) :
    onWords? (.comparison c) .f32 .f32 l' r' = onWords? (.comparison c) .f32 .f32 l r := by
  have ho : order .f32 l' r' = order .f32 l r :=
    congrArg₂ Ieee.Datum.compare? (hl.decode_eq rfl) (hr.decode_eq rfl)
  simp only [onWords?, ho]

theorem onWords?_shift_congr (op : Shift) {rk : Kind} (hl : k.LowEq l' l)
    (hr : k.isInteger = true → r'.toNat % k.width = r.toNat % k.width) :
    onWords? (.shift op) k rk l' r' = onWords? (.shift op) k rk l r := by
  cases hi : k.isInteger with
  | true => simp only [onWords?, hl.wrap_eq, hr hi]
  | false => simp only [onWords?, hi, Bool.false_eq_true, if_false]

theorem onWord?_not_f32 (w : BitVec 64) : onWord? .not .f32 w = none := rfl

theorem onWord?_neg_f32 (w : BitVec 64) :
    onWord? .neg .f32 w = some (.ok (.ofBits ((w &&& 0xffffffff) ^^^ 0x80000000))) := rfl

theorem onWord?_congr (hk : k.isInteger = true ∨ k = .f32) (op : UnaryOp) (h : k.LowEq w' w) :
    onWord? op k w' = onWord? op k w := by
  rcases hk with hk | rfl
  · have hb : k ≠ .bool := by
      rintro rfl
      cases hk
    have hf := Kind.isFloating_eq_false hk
    have h32 : k ≠ .f32 := by
      rintro rfl
      cases hf
    have h64 : k ≠ .f64 := by
      rintro rfl
      cases hf
    cases op with
    | not => simp only [onWord?, if_neg hb, h.wrap_eq]
    | neg => simp only [onWord?, if_neg h32, if_neg h64, h.wrap_eq]
  · cases op with
    | not => rw [onWord?_not_f32, onWord?_not_f32]
    | neg => rw [onWord?_neg_f32, onWord?_neg_f32, h.mask_eq]

theorem ending_binary_plain (op : BinaryOp) (j k : Kind) (l r : BitVec 64) :
    (binary op ⟨.ofBits l, j⟩ ⟨.ofBits r, k⟩).ending =
      (onWords? op j k l r).getD (.error .unimplemented) := by
  have hl : (Operand.mk (.ofBits l) j).value.HasText := Value.hasText_ofBits l
  have hr : (Operand.mk (.ofBits r) k).value.HasText := Value.hasText_ofBits r
  rw [ending_binary op hl hr]
  exact if_pos rfl

theorem ending_bitwise_plain (op : Bitwise) (k : Kind) (l r : BitVec 64) :
    (binary (.bitwise op) ⟨.ofBits l, k⟩ ⟨.ofBits r, k⟩).ending =
      .ok ⟨.ofBits (op.onWords l r), false⟩ :=
  Evaluation.ending_eq_ok_iff.mpr (outcome_bitwise op k l r)

theorem ending_unary_plain (op : UnaryOp) (k : Kind) (w : BitVec 64) :
    (unary op ⟨.ofBits w, k⟩).ending = (onWord? op k w).getD (.error .unimplemented) := by
  have hw : (Operand.mk (.ofBits w) k).value.HasText := Value.hasText_ofBits w
  rw [ending_unary, ending_unimplementedUnary op hw]
  rfl

/-- What an operator reads at a kind of the words of plain operands, told by putting canonical
words in their places. -/
structure ReadsLowBits (k : Kind) : Prop where
  arithmetic (op : Arithmetic) (l r : BitVec 64) : ∀ l' ∈ [l, k.canon l], ∀ r' ∈ [r, k.canon r],
    (binary (.arithmetic op) ⟨.ofBits l', k⟩ ⟨.ofBits r', k⟩).ending =
      (binary (.arithmetic op) ⟨.ofBits l, k⟩ ⟨.ofBits r, k⟩).ending
  comparison (c : Comparison) (l r : BitVec 64) : k = .f32 →
    ∀ l' ∈ [l, k.canon l], ∀ r' ∈ [r, k.canon r],
      (binary (.comparison c) ⟨.ofBits l', k⟩ ⟨.ofBits r', k⟩).ending =
        (binary (.comparison c) ⟨.ofBits l, k⟩ ⟨.ofBits r, k⟩).ending
  shift_left (op : Shift) (j : Kind) (l r : BitVec 64) :
    (binary (.shift op) ⟨.ofBits (k.canon l), k⟩ ⟨.ofBits r, j⟩).ending =
      (binary (.shift op) ⟨.ofBits l, k⟩ ⟨.ofBits r, j⟩).ending
  shift_right (op : Shift) (j : Kind) (l r : BitVec 64) : j.isInteger = true ∨ j = .f32 →
    (binary (.shift op) ⟨.ofBits l, k⟩ ⟨.ofBits (j.canon r), j⟩).ending =
      (binary (.shift op) ⟨.ofBits l, k⟩ ⟨.ofBits r, j⟩).ending
  unary (op : UnaryOp) (w : BitVec 64) :
    (unary op ⟨.ofBits (k.canon w), k⟩).ending = (unary op ⟨.ofBits w, k⟩).ending
  bitwise (op : Bitwise) (l r : BitVec 64) : ∃ w,
    (binary (.bitwise op) ⟨.ofBits l, k⟩ ⟨.ofBits r, k⟩).ending = .ok ⟨.ofBits w, false⟩ ∧
      (binary (.bitwise op) ⟨.ofBits (k.canon l), k⟩ ⟨.ofBits (k.canon r), k⟩).ending =
        .ok ⟨.ofBits (k.canon w), false⟩

/-- At integer kinds and at `f32` bits above the width of the kind decide nothing, comparisons at
integer kinds excepted. -/
theorem readsLowBits (hk : k.isInteger = true ∨ k = .f32) : ReadsLowBits k where
  arithmetic op l r l' hl r' hr := by
    rw [ending_binary_plain, ending_binary_plain, onWords?_arithmetic_congr hk op
      (Kind.lowEq_of_mem hk hl) (Kind.lowEq_of_mem hk hr)]
  comparison c l r h l' hl r' hr := by
    subst h
    rw [ending_binary_plain, ending_binary_plain, onWords?_comparison_congr c
      (Kind.lowEq_of_mem hk hl) (Kind.lowEq_of_mem hk hr)]
  shift_left op j l r := by
    rw [ending_binary_plain, ending_binary_plain,
      onWords?_shift_congr op (Kind.lowEq_canon hk l) fun _ => rfl]
  shift_right op j l r hj := by
    rw [ending_binary_plain, ending_binary_plain,
      onWords?_shift_congr op Int.ModEq.rfl fun hi => (Kind.lowEq_canon hj r).amount_eq hj hi]
  unary op w := by
    rw [ending_unary_plain, ending_unary_plain, onWord?_congr hk op (Kind.lowEq_canon hk w)]
  bitwise op l r :=
    ⟨op.onWords l r, ending_bitwise_plain op k l r, by
      rw [ending_bitwise_plain, Kind.canon_onWords]⟩

/-- A divisor of 256 is zero at `u8`, and a single is not made larger by a bit above it. -/
theorem readsLowBits_excess_bits :
    (Kind.u8.isInteger = true ∨ Kind.u8 = .f32) ∧
      (binary (.arithmetic .div) ⟨.ofBits 7, .u8⟩ ⟨.ofBits (Kind.u8.canon 0x100), .u8⟩).ending =
        (binary (.arithmetic .div) ⟨.ofBits 7, .u8⟩ ⟨.ofBits 0x100, .u8⟩).ending ∧
      (Kind.f32.isInteger = true ∨ Kind.f32 = .f32) ∧
      (binary (.comparison .lt) ⟨.ofBits (Kind.f32.canon 0x17f800000), .f32⟩
          ⟨.ofBits 0x7f800000, .f32⟩).ending =
        (binary (.comparison .lt) ⟨.ofBits 0x17f800000, .f32⟩ ⟨.ofBits 0x7f800000, .f32⟩).ending := by
  have hu8 := readsLowBits (k := .u8) (.inl rfl)
  have hf32 := readsLowBits (k := .f32) (.inr rfl)
  exact ⟨.inl rfl, hu8.arithmetic .div 7 0x100 7 (by simp) _ (by simp), .inr rfl,
    hf32.comparison .lt 0x17f800000 0x7f800000 rfl _ (by simp) _ (by simp)⟩

/-- Comparisons at integer kinds see all bits. -/
example : (binary (.comparison .eq) ⟨.ofBits 0x100, .u8⟩ ⟨.ofBits 0, .u8⟩).ending =
    .ok ⟨.ofBool false, false⟩ := by decide

end Evaluate
end ScalarEval
