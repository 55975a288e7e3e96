import Mathlib
import ScalarEval.Proofs.Dispatch

/-! Allocations are opaque. Operators see of them which are equal and which are absent, and
where they differ see nothing else of the operands. -/
namespace ScalarEval

/-- Renames the allocation of a pointer. Plain data stay plain. -/
def Value.rename (f : AllocId → AllocId) (v : Value) : Value :=
  ⟨v.bits, v.alloc.map f⟩

def Operand.rename (f : AllocId → AllocId) (o : Operand) : Operand :=
  ⟨o.value.rename f, o.kind⟩

namespace Value
variable {f : AllocId → AllocId} {v w : Value}

@[simp] theorem isPointer_rename (f : AllocId → AllocId) (v : Value) :
    (v.rename f).isPointer = v.isPointer := by
  simp [rename, isPointer]

theorem hasText_rename (hf : Set.MapsTo f {a | a.HasText} {a | a.HasText}) (hv : v.HasText) :
    (v.rename f).HasText := by
  intro b hb
  obtain ⟨a, ha, rfl⟩ := Option.map_eq_some_iff.mp hb
  exact hf (hv a ha)

theorem alloc_rename_eq_iff (hf : Set.InjOn f {a | a.HasText}) (hv : v.HasText)
    (hw : w.HasText) : (v.rename f).alloc = (w.rename f).alloc ↔ v.alloc = w.alloc := by
  refine ⟨fun h => ?_, fun h => congrArg (Option.map f) h⟩
  unfold rename at h
  cases ha : v.alloc with
  | none =>
    cases hb : w.alloc with
    | none => rfl
    | some b => simp [ha, hb] at h
  | some a =>
    cases hb : w.alloc with
    | none => simp [ha, hb] at h
    | some b =>
      have hab : f a = f b := by simpa [ha, hb] using h
      rw [hf (hv a ha) (hw b hb) hab]

end Value

namespace Evaluate
variable {l r : Operand}

theorem ending_binary_rename (op : BinaryOp) (hl : l.value.HasText) (hr : r.value.HasText)
    {f : AllocId → AllocId} (hinj : Set.InjOn f {a | a.HasText})
    (hmaps : Set.MapsTo f {a | a.HasText} {a | a.HasText}) :
    (binary op (l.rename f) (r.rename f)).ending = (binary op l r).ending := by
  have hl' : (l.rename f).value.HasText := Value.hasText_rename hmaps hl
  have hr' : (r.rename f).value.HasText := Value.hasText_rename hmaps hr
  have ha : (l.rename f).value.alloc = (r.rename f).value.alloc ↔
      l.value.alloc = r.value.alloc := Value.alloc_rename_eq_iff hinj hl hr
  have hpl : (l.rename f).value.isPointer = l.value.isPointer := l.value.isPointer_rename f
  have hpr : (r.rename f).value.isPointer = r.value.isPointer := r.value.isPointer_rename f
  rw [ending_binary op hl' hr', ending_binary op hl hr]
  simp only [ha, hpl, hpr]
  rfl

theorem ending_binary_of_alloc_ne (op : BinaryOp) (hl : l.value.HasText)
    (hr : r.value.HasText) (h : l.value.alloc ≠ r.value.alloc) (u w : BitVec 64) (j k : Kind) :
    (binary op ⟨⟨u, l.value.alloc⟩, j⟩ ⟨⟨w, r.value.alloc⟩, k⟩).ending =
      (binary op l r).ending := by
  have hl' : (Value.mk u l.value.alloc).HasText := hl
  have hr' : (Value.mk w r.value.alloc).HasText := hr
  rw [ending_binary (l := ⟨_, j⟩) (r := ⟨_, k⟩) op hl' hr', ending_binary op hl hr]
  rw [if_neg h, if_neg h]
  rfl

/-- Renaming allocations changes no ending, and the endings of unrelated operands depend on
neither words nor kinds. -/
theorem allocations_hidden (op : BinaryOp) (hl : l.value.HasText) (hr : r.value.HasText) :
    (∀ f : AllocId → AllocId, Set.InjOn f {a | a.HasText} →
      Set.MapsTo f {a | a.HasText} {a | a.HasText} →
      (binary op (l.rename f) (r.rename f)).ending = (binary op l r).ending) ∧
    (l.value.alloc ≠ r.value.alloc → ∀ (u w : BitVec 64) (j k : Kind),
      (binary op ⟨⟨u, l.value.alloc⟩, j⟩ ⟨⟨w, r.value.alloc⟩, k⟩).ending =
        (binary op l r).ending) :=
  ⟨fun _ hinj hmaps => ending_binary_rename op hl hr hinj hmaps,
    ending_binary_of_alloc_ne op hl hr⟩

end Evaluate

/-- Renames numbered allocations by their opposite numbers. -/
def AllocId.opposite : AllocId → AllocId
  | number n => number (-n)
  | name s => name s

theorem Evaluate.allocations_hidden_opposite :
    (binary (.comparison .lt) (.rename .opposite ⟨⟨8, some (.number 5)⟩, .ptr⟩)
        (.rename .opposite ⟨⟨9, some (.number 5)⟩, .ptr⟩)).ending =
      (binary (.comparison .lt) ⟨⟨8, some (.number 5)⟩, .ptr⟩
        ⟨⟨9, some (.number 5)⟩, .ptr⟩).ending ∧
    (binary (.arithmetic .sub) ⟨⟨0, some (.number 5)⟩, .f64⟩ ⟨⟨1, none⟩, .i8⟩).ending =
      (binary (.arithmetic .sub) ⟨⟨8, some (.number 5)⟩, .ptr⟩ ⟨⟨9, none⟩, .ptr⟩).ending := by
  have hinj : Set.InjOn AllocId.opposite {a | a.HasText} := by
    intro a _ b _ h
    cases a <;> cases b <;> simp [AllocId.opposite] at h ⊢ <;> exact h
  have hmaps : Set.MapsTo AllocId.opposite {a | a.HasText} {a | a.HasText} := by
    intro a ha
    cases a with
    | number n => simpa [AllocId.opposite, AllocId.HasText] using ha
    | name s => trivial
  have hl : (Value.mk 8 (some (.number 5))).HasText := by decide
  have hr : (Value.mk 9 (some (.number 5))).HasText := by decide
  have hplain : (Value.mk 9 none).HasText := by decide
  exact ⟨(allocations_hidden (l := ⟨⟨8, some (.number 5)⟩, .ptr⟩)
      (r := ⟨⟨9, some (.number 5)⟩, .ptr⟩) (.comparison .lt) hl hr).1 _ hinj hmaps,
    (allocations_hidden (l := ⟨⟨8, some (.number 5)⟩, .ptr⟩) (r := ⟨⟨9, none⟩, .ptr⟩)
      (.arithmetic .sub) hl hplain).2 (by decide) 0 1 .f64 .i8⟩

end ScalarEval
