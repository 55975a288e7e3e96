import Mathlib
import ScalarEval.Ieee.Arithmetic

/-! Laws of floating arithmetic that hold of all data: infinities, signed zeros and NaN
included. -/
namespace ScalarEval.Ieee
namespace Format
variable (F : Format)

theorem addData_comm (x y : Datum) : F.addData x y = F.addData y x := by
  cases x with
  | nan => cases y <;> rfl
  | infinite s =>
    cases y with
    | infinite t => cases s <;> cases t <;> rfl
    | nan | finite t n => rfl
  | finite s m =>
    cases y with
    | nan | infinite t => rfl
    | finite t n =>
      have hsum : Datum.signed s m + Datum.signed t n = Datum.signed t n + Datum.signed s m :=
        Int.add_comm _ _
      simp only [addData, hsum, Bool.and_comm s t]

theorem mulData_comm (x y : Datum) : F.mulData x y = F.mulData y x := by
  cases x with
  | nan => cases y <;> rfl
  | infinite s =>
    cases y with
    | infinite t => simp only [mulData, Bool.xor_comm s t]
    | nan | finite t n => rfl
  | finite s m =>
    cases y with
    | nan | infinite t => rfl
    | finite t n => simp only [mulData, Bool.xor_comm s t, Nat.mul_comm m n]

protected theorem add_comm (p q : ℕ) : F.add p q = F.add q p :=
  F.addData_comm _ _

protected theorem mul_comm (p q : ℕ) : F.mul p q = F.mul q p :=
  F.mulData_comm _ _

end Format
end ScalarEval.Ieee
