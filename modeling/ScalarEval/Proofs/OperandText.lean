import Mathlib
import ScalarEval.Operand
import ScalarEval.Describe
import ScalarEval.Proofs.Canonical
import ScalarEval.Proofs.Comparison
import ScalarEval.Proofs.Numeral
import ScalarEval.Proofs.Ieee.Render
import ScalarEval.Proofs.Ieee.Shortest
import ScalarEval.Proofs.Ieee.Widening

/-! Operands read from the texts that describe them. A text gives its operand back once the label
of its kind is taken off, and that of a pointer once it is put in the notation of operands. -/
namespace ScalarEval

open Text

namespace Kind

/-- A text without the label of a kind. Truth values and addresses are described without one. -/
def unlabelled (k : Kind) (text : String) : String :=
  if k.isInteger || k.isFloating then String.ofList (text.toList.rdrop k.label.length) else text

theorem unlabelled_append {k : Kind} (hk : (k.isInteger || k.isFloating) = true) (t : String) :
    k.unlabelled (t ++ k.label) = t := by
  rw [unlabelled, if_pos hk, String.toList_append, ← String.length_toList,
    List.rdrop_append_length, String.ofList_toList]

theorem unlabelled_eq_self {k : Kind} (hk : (k.isInteger || k.isFloating) = false) (t : String) :
    k.unlabelled t = t := by
  rw [unlabelled, hk]
  rfl

theorem natAbs_wrap_lt (k : Kind) (n : ℤ) : (k.wrap n).natAbs < 2 ^ 64 := by
  have hfits := k.fits_wrap n
  rw [fits_iff] at hfits
  have hbounds : -2 ^ 63 ≤ k.minValue ∧ k.maxValue < 2 ^ 64 := by
    cases k <;> decide
  omega

end Kind

/-- The notation of a pointer in operands, from its text: the leading word goes, and the offset
follows a colon. -/
def pointerNotation (text : String) : String :=
  String.ofList ((text.toList.drop "alloc".length).map fun c => if c = '+' then ':' else c)

namespace Operand
variable {k : Kind}

/-- An operand has a text that is read as its value, once the text is put in a notation. -/
def RereadFrom (f : String → String) (o : Operand) : Prop :=
  ∃ t, o.describe = .ok t ∧ read (f t) o.kind = .ok o.value

/-- Texts that give their operands back tell them apart. -/
theorem injOn_describe {f : String → String} {s : Set Value}
    (h : ∀ v ∈ s, RereadFrom f ⟨v, k⟩) : Set.InjOn (fun v => describe ⟨v, k⟩) s := by
  intro v hv w hw hvw
  obtain ⟨t, ht, hread⟩ := h v hv
  obtain ⟨u, hu, hread'⟩ := h w hw
  obtain rfl : t = u := Except.ok.inj (ht.symm.trans (hvw.trans hu))
  exact Except.ok.inj (hread.symm.trans hread')

theorem dropWhile_colon {cs : List Char} (h : ':' ∉ cs) (rest : List Char) :
    (cs ++ rest).dropWhile (· ≠ ':') = rest.dropWhile (· ≠ ':') ∧
      (cs ++ rest).takeWhile (· ≠ ':') = cs ++ rest.takeWhile (· ≠ ':') := by
  have hne : ∀ c ∈ cs, decide (c ≠ ':') = true := by
    intro c hc
    exact decide_eq_true fun he => h (he ▸ hc)
  exact ⟨List.dropWhile_append_of_pos hne, List.takeWhile_append_of_pos hne⟩

theorem readInteger_of_notMem {text : String} (h : ':' ∉ text.toList) (k : Kind) :
    readInteger text k = (Numeral.read text.toList).map (Value.ofInt · k) := by
  have hnone : text.toList.dropWhile (· ≠ ':') = [] := by
    simpa using (dropWhile_colon h []).1
  unfold readInteger
  simp only [hnone]
  cases Numeral.read text.toList <;> rfl

theorem readInteger_colon {alloc offset : List Char} (h : ':' ∉ alloc) (k : Kind) {a o : ℤ}
    (ha : Numeral.read alloc = .ok a) (ho : Numeral.read offset = .ok o) :
    readInteger (String.ofList (alloc ++ ':' :: offset)) k =
      .ok (.ofPointer ⟨some (.number a), o⟩) := by
  obtain ⟨hdrop, htake⟩ := dropWhile_colon h (':' :: offset)
  have hrest : (':' :: offset).dropWhile (· ≠ ':') = ':' :: offset := rfl
  have hbefore : (':' :: offset).takeWhile (· ≠ ':') = [] := rfl
  unfold readInteger
  simp only [String.toList_ofList, hdrop, htake, hrest, hbefore, List.append_nil, ha, ho]
  rfl

theorem describe_plain {v : Value} (h : v.alloc = none) (k : Kind) :
    describe ⟨v, k⟩ = .ok (plainText v.bits k) := by
  simp only [describe, h]

theorem read_of_isInteger (hk : k.isInteger = true) (text : String) :
    read text k = readInteger text k := by
  have hc : k.category = .integer := by simpa [Kind.isInteger] using hk
  simp only [read, hc]

theorem notMem_decimal {c : Char} (hsep : IsSeparator c) (hc : c ≠ '-') (n : ℤ) :
    c ∉ (decimal n).toList := fun h =>
  not_isSeparator_of_mem_withSign (fun _ hd => not_isSeparator_of_mem_toDigits hd) hc h hsep

theorem notMem_hex {c : Char} (hsep : IsSeparator c) (hc : c ≠ '-') (n : ℤ) :
    c ∉ (hex n).toList := fun h =>
  not_isSeparator_of_mem_withSign (fun _ hd => not_isSeparator_of_mem_hex hd) hc h hsep

theorem isSeparator_colon : IsSeparator ':' := .inr (by simp)

theorem isSeparator_plus : IsSeparator '+' := .inr (by simp)

theorem reread_integer (hk : k.isInteger = true) {w : BitVec 64} (hw : k.Canonical w) :
    RereadFrom k.unlabelled ⟨.ofBits w, k⟩ := by
  have hc : k.category = .integer := by simpa [Kind.isInteger] using hk
  have htext : plainText w k = decimal (k.wrap w.toNat) ++ k.label := by
    simp only [plainText, hc]
  have hvalue : Value.ofInt (k.wrap w.toNat) k = .ofBits w := by
    have hword : k.extend w.toNat = w := by
      rw [← Kind.extendLow_eq_extend, hw.integer hk]
    exact congrArg Value.ofBits ((k.extend_wrap _).trans hword)
  refine ⟨_, describe_plain rfl k, ?_⟩
  have hcolon := notMem_decimal isSeparator_colon (by decide) (k.wrap w.toNat)
  change read (k.unlabelled (plainText w k)) k = .ok (.ofBits w)
  rw [htext, Kind.unlabelled_append (by simp [hk]), read_of_isInteger hk,
    readInteger_of_notMem hcolon,
    Numeral.read_decimal (length_toDigits_le_decimalLimit (k.natAbs_wrap_lt _))]
  exact congrArg Except.ok hvalue

theorem reread_bool {w : BitVec 64} (hw : w = 0 ∨ w = 1) :
    RereadFrom Kind.bool.unlabelled ⟨.ofBits w, .bool⟩ := by
  rcases hw with rfl | rfl
  · exact ⟨"false", rfl, by decide⟩
  · exact ⟨"true", rfl, by decide⟩

theorem read_ptr (text : String) : read text .ptr = readInteger text .ptr := rfl

theorem extend_ptr (w : BitVec 64) : Kind.ptr.extend w.toNat = w := by
  rw [← Kind.extendLow_eq_extend]
  simp [Kind.extendLow, Kind.isSigned, Kind.width]

theorem reread_address (w : BitVec 64) : RereadFrom Kind.ptr.unlabelled ⟨.ofBits w, .ptr⟩ := by
  refine ⟨hex w.toNat, rfl, ?_⟩
  have hcolon := notMem_hex isSeparator_colon (by decide) w.toNat
  have hself : Kind.ptr.unlabelled (hex w.toNat) = hex w.toNat := Kind.unlabelled_eq_self rfl _
  rw [hself, read_ptr, readInteger_of_notMem hcolon, Numeral.read_hex]
  exact congrArg (Except.ok ∘ Value.ofBits) (extend_ptr w)

/-- Integers, truth values and addresses are told from one another by their kinds. -/
theorem reread_plain (hk : k.isFloating = false) {v : Value} (halloc : v.alloc = none)
    (hv : k.Canonical v.bits) : RereadFrom k.unlabelled ⟨v, k⟩ := by
  obtain ⟨w, a⟩ := v
  obtain rfl : a = none := halloc
  cases hi : k.isInteger with
  | true => exact reread_integer hi hv
  | false =>
    rcases k.eq_bool_or_ptr_iff.mpr ⟨hk, hi⟩ with rfl | rfl
    · exact reread_bool (hv.bool rfl)
    · exact reread_address w

theorem pointerNotation_eq (n : ℤ) (w : BitVec 64) :
    pointerNotation ("alloc" ++ decimal n ++ "+" ++ hex w.toNat) =
      String.ofList ((decimal n).toList ++ ':' :: (hex w.toNat).toList) := by
  have hkeep : ∀ cs : List Char, '+' ∉ cs → cs.map (fun c => if c = '+' then ':' else c) = cs := by
    intro cs hcs
    rw [List.map_congr_left (g := id), List.map_id]
    intro c hc
    have hne : c ≠ '+' := by
      rintro rfl
      exact hcs hc
    exact if_neg hne
  have hn := hkeep _ (notMem_decimal isSeparator_plus (by decide) n)
  have hw := hkeep _ (notMem_hex isSeparator_plus (by decide) w.toNat)
  have hlength : "alloc".length = 5 := rfl
  have hdrop : (("alloc" ++ decimal n ++ "+" ++ hex w.toNat).toList).drop "alloc".length =
      (decimal n).toList ++ '+' :: (hex w.toNat).toList := by
    simp [String.toList_append, hlength]
  rw [pointerNotation, hdrop, List.map_append, List.map_cons, hn, hw, if_pos rfl]

theorem reread_pointer {n : ℤ} (hn : (AllocId.number n).HasText) (w : BitVec 64) :
    RereadFrom pointerNotation ⟨⟨w, some (.number n)⟩, .ptr⟩ := by
  have htext : (AllocId.number n).text = .ok (decimal n) := boundedDecimal_eq hn
  refine ⟨"alloc" ++ decimal n ++ "+" ++ hex w.toNat, ?_, ?_⟩
  · simp only [describe, htext]
    rfl
  · have hcolon := notMem_decimal isSeparator_colon (by decide) n
    rw [pointerNotation_eq, read_ptr, readInteger_colon hcolon .ptr (Numeral.read_decimal hn)
      (Numeral.read_hex _)]
    simp [Value.ofPointer]

/-- Canonical plain data of a kind that is not floating, and pointers into numbered allocations,
are read from their texts, so the texts tell them apart. -/
theorem describe_reread :
    (∀ (k : Kind) (v : Value), k.isFloating = false → v.alloc = none → k.Canonical v.bits →
      RereadFrom k.unlabelled ⟨v, k⟩) ∧
    (∀ (w : BitVec 64) (n : ℤ), (AllocId.number n).HasText →
      RereadFrom pointerNotation ⟨⟨w, some (.number n)⟩, .ptr⟩) ∧
    (∀ k : Kind, k.isFloating = false →
      Set.InjOn (fun v => describe ⟨v, k⟩) {v | v.alloc = none ∧ k.Canonical v.bits}) ∧
    Set.InjOn (fun v => describe ⟨v, .ptr⟩)
      {v | ∃ n, v.alloc = some (.number n) ∧ (AllocId.number n).HasText} := by
  have hpointer : ∀ v : Value, (∃ n, v.alloc = some (.number n) ∧ (AllocId.number n).HasText) →
      RereadFrom pointerNotation ⟨v, .ptr⟩ := by
    rintro ⟨w, a⟩ ⟨n, rfl, hn⟩
    exact reread_pointer hn w
  exact ⟨fun k v hk ha hv => reread_plain hk ha hv, fun w n hn => reread_pointer hn w,
    fun k hk => injOn_describe fun v hv => reread_plain hk hv.1 hv.2, injOn_describe hpointer⟩

theorem describe_reread_least_i8 :
    Kind.i8.Canonical 0xffffffffffffff80 ∧
      RereadFrom Kind.i8.unlabelled ⟨.ofBits 0xffffffffffffff80, .i8⟩ ∧
      (AllocId.number (-7)).HasText ∧
      RereadFrom pointerNotation ⟨⟨0xffffffffffffffff, some (.number (-7))⟩, .ptr⟩ := by
  have hleast : Kind.i8.Canonical 0xffffffffffffff80 := by decide
  have hnegative : (AllocId.number (-7)).HasText := by decide
  exact ⟨hleast, describe_reread.1 .i8 (.ofBits 0xffffffffffffff80) rfl rfl hleast, hnegative,
    describe_reread.2.1 _ _ hnegative⟩

example : describe ⟨.ofBits 0xffffffffffffff80, .i8⟩ = .ok "-128i8" := by decide +kernel

example : describe ⟨⟨0x10, some (.number (-7))⟩, .ptr⟩ = .ok "alloc-7+0x10" := by decide +kernel

section Floating

open Ieee

/-- The text of a double is read as the double and stored at the kind. -/
theorem readFloat_render {p : ℕ} (hp : p < 2 ^ 64) (hnan : binary64.isNaN p = false) (k : Kind) :
    readFloat (binary64.literal p).render k = Value.ofDouble p k := by
  obtain ⟨l, htext, hagree⟩ :=
    Literal.exists_ofText?_render (binary64.literal p) (Format.literal_ne_nan hnan)
  unfold readFloat
  simp only [htext]
  rw [hagree.nearest_eq, Format.nearest_literal hp hnan]

/-- What is stored at a floating kind is stored again from the double it stands for. -/
theorem ofDouble_toDouble (hk : k.isFloating = true) {w : BitVec 64} (hw : k.Canonical w)
    (hnan : ¬ k.IsNaN w) : k.ofDouble (k.toDouble w) = w ∧ k.toDouble w < 2 ^ 64 ∧
      binary64.isNaN (k.toDouble w) = false := by
  have hf : k = .f32 ∨ k = .f64 := by revert hk; cases k <;> decide
  rcases hf with rfl | rfl
  · have hsingle : binary32.isNaN w.toNat = false := by simpa [Kind.IsNaN, Kind.format?] using hnan
    obtain ⟨hback, hlt, hdouble⟩ := narrow_widen (hw.f32 rfl) hsingle
    refine ⟨?_, hlt, hdouble⟩
    change BitVec.ofNat 64 (narrow (widen w.toNat)) = w
    rw [hback, BitVec.ofNat_toNat, BitVec.setWidth_eq]
  · have hdouble : binary64.isNaN w.toNat = false := by simpa [Kind.IsNaN, Kind.format?] using hnan
    refine ⟨?_, w.isLt, hdouble⟩
    change BitVec.ofNat 64 w.toNat = w
    rw [BitVec.ofNat_toNat, BitVec.setWidth_eq]

/-- Every word of a floating kind that is no NaN is read from its text: zeros of either sign,
subnormal values, infinities, and what is written with an exponent. -/
theorem describe_reread_floating (k : Kind) (v : Value) (hk : k.isFloating = true)
    (halloc : v.alloc = none) (hv : k.Canonical v.bits) (hnan : ¬ k.IsNaN v.bits) :
    RereadFrom k.unlabelled ⟨v, k⟩ := by
  obtain ⟨w, a⟩ := v
  obtain rfl : a = none := halloc
  have hc : k.category = .floating := by simpa [Kind.isFloating] using hk
  obtain ⟨hstored, hlt, hdouble⟩ := ofDouble_toDouble hk hv hnan
  have htext : plainText w k = (binary64.literal (k.toDouble w)).render ++ k.label := by
    simp only [plainText, hc]
  have hread : read (binary64.literal (k.toDouble w)).render k =
      Value.ofDouble (k.toDouble w) k := by
    simp only [read, hc]
    exact readFloat_render hlt hdouble k
  refine ⟨_, describe_plain rfl k, ?_⟩
  change read (k.unlabelled (plainText w k)) k = .ok (.ofBits w)
  rw [htext, Kind.unlabelled_append (by simp [hk]), hread, Value.ofDouble, hstored]
  exact if_pos hk

theorem describe_reread_least_single :
    Kind.f32.Canonical 1 ∧ ¬ Kind.f32.IsNaN 1 ∧
      RereadFrom Kind.f32.unlabelled ⟨.ofBits 1, .f32⟩ := by
  have hcanonical : Kind.f32.Canonical 1 := by decide
  have hnan : ¬ Kind.f32.IsNaN 1 := by
    rintro ⟨F, hF, h⟩
    obtain rfl : Ieee.binary32 = F := Option.some.inj hF
    exact absurd h (by decide)
  exact ⟨hcanonical, hnan, describe_reread_floating .f32 (.ofBits 1) rfl rfl hcanonical hnan⟩

example : describe ⟨.ofBits 1, .f32⟩ = .ok "1.401298464324817e-45f32" := by decide +kernel

example : describe ⟨.ofBits 0x8000000000000000, .f64⟩ = .ok "-0.0f64" := by decide +kernel

end Floating
end Operand
end ScalarEval
