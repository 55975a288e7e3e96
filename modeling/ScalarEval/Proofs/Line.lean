import Mathlib
import ScalarEval.Describe
import ScalarEval.Proofs.Ieee.Render

/-! Texts of one line: those of plain data, and those that say why an input denotes nothing,
whatever the input is. -/
namespace ScalarEval

open Text Ieee

/-- A text without line feeds. -/
def OneLine (s : String) : Prop :=
  '\n' ∉ s.toList

instance (s : String) : Decidable (OneLine s) :=
  inferInstanceAs (Decidable ('\n' ∉ s.toList))

theorem OneLine.append {s t : String} (hs : OneLine s) (ht : OneLine t) : OneLine (s ++ t) := by
  unfold OneLine
  rw [String.toList_append, List.mem_append, not_or]
  exact ⟨hs, ht⟩

theorem oneLine_ofList {cs : List Char} (h : '\n' ∉ cs) : OneLine (String.ofList cs) := by
  unfold OneLine
  rwa [String.toList_ofList]

theorem newline_notMem_toDigits {b : ℕ} (hb : 1 < b) (n : ℕ) : '\n' ∉ b.toDigits n := by
  intro h
  obtain ⟨d, -, hd⟩ := exists_digitChar_of_mem_toDigits hb h
  simp at hd

theorem oneLine_withSign {n : ℤ} {magnitude : ℕ → List Char}
    (h : '\n' ∉ magnitude n.natAbs) : OneLine (withSign n magnitude) := by
  apply oneLine_ofList
  split
  · simpa using h
  · exact h

theorem oneLine_decimal (n : ℤ) : OneLine (decimal n) :=
  oneLine_withSign (newline_notMem_toDigits (by norm_num) _)

theorem newline_notMem_hexDigits (n : ℕ) : '\n' ∉ hexDigits n :=
  newline_notMem_toDigits (by norm_num) n

theorem oneLine_hex (n : ℤ) : OneLine (hex n) := by
  apply oneLine_withSign
  simpa using newline_notMem_hexDigits n.natAbs

theorem oneLine_label (k : Kind) : OneLine k.label := by
  cases k <;> decide

namespace Ieee.Literal

/-- A line feed is white space, and numbers are written without any. -/
theorem newline_notMem_renderDecimal (digits : ℕ) (exponent : ℤ) :
    '\n' ∉ renderDecimal digits exponent := by
  obtain ⟨n, e, hspells, -⟩ := denotes_renderDecimal digits exponent
  intro hm
  exact absurd (hspells.chars _ hm).plain.1 (by decide)

theorem oneLine_render (l : Literal) : OneLine l.render := by
  cases l with
  | nan s => exact (by decide : OneLine "nan")
  | infinite s => cases s <;> decide
  | decimal s n e =>
    apply oneLine_ofList
    cases s
    · exact newline_notMem_renderDecimal n e
    · simpa using newline_notMem_renderDecimal n e

end Ieee.Literal

theorem Operand.oneLine_plainText (w : BitVec 64) (k : Kind) : OneLine (plainText w k) := by
  unfold plainText
  split
  next =>
    split_ifs
    · decide
    · decide
    · exact .append (.append (by decide) (oneLine_hex _)) (by decide)
  next => exact .append (Literal.oneLine_render _) (oneLine_label k)
  next => exact oneLine_hex _
  next => exact .append (oneLine_decimal _) (oneLine_label k)

section Quoted

end Quoted

end ScalarEval
