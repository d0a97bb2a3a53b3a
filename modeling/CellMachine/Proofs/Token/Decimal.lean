import CellMachine.Proofs.Binary.Finite
import CellMachine.Proofs.Token.Lexing

/-!
# Texts of finite numbers

A finite floating-point number is listed as digits with a point between them, whatever digits those
are (`Value.exists_decimal`). That is one lexeme, and a literal (`floatLiteral?_decimal`).
-/

namespace CellMachine

open Lexeme (isDigits isDigits_iff sign)

/-- Digits, with a point and more digits behind them or not. -/
def IsPositional (cs : List Char) : Prop :=
  isDigits cs = true ∨ ∃ whole fraction, isDigits whole = true ∧
    (∀ c ∈ fraction, Text.isDigit c = true) ∧ cs = whole ++ '.' :: fraction

theorem Binary.Decimal.isPositional (d : Decimal) : IsPositional d.positional.toList := by
  have hdigits : ∀ c ∈ Nat.toDigits 10 d.digits, Text.isDigit c = true :=
    fun c => Lexing.isDigit_of_mem_toDigits
  unfold positional
  dsimp only
  split
  · refine .inl (isDigits_iff.mpr ⟨by simp, fun c hc => ?_⟩)
    rw [String.toList_ofList] at hc
    rcases List.mem_append.mp hc with hc | hc
    · exact hdigits c hc
    · rw [List.eq_of_mem_replicate hc]
      decide
  · next hexponent =>
    generalize hpadded : List.replicate _ '0' ++ Nat.toDigits 10 d.digits = padded
    have hzeros : ∀ c ∈ padded, Text.isDigit c = true := by
      intro c hc
      rw [← hpadded] at hc
      rcases List.mem_append.mp hc with hc | hc
      · rw [List.eq_of_mem_replicate hc]
        decide
      · exact hdigits c hc
    have hlength : (-d.exponent).toNat < padded.length := by
      rw [← hpadded, List.length_append, List.length_replicate]
      omega
    refine .inr ⟨_, _, isDigits_iff.mpr ⟨?_, fun c hc => hzeros c (List.mem_of_mem_take hc)⟩,
      fun c hc => hzeros c (List.mem_of_mem_drop hc), String.toList_ofList⟩
    rw [Ne, List.take_eq_nil_iff]
    rintro (h | rfl)
    · omega
    · simp at hlength

theorem Binary.Format.exists_text {f : Format} {word : Nat} (h : (f.decode word).isFinite = true) :
    ∃ negative cs, (f.text word).toList = sign negative ++ cs ∧ IsPositional cs := by
  unfold text
  cases hdecode : f.decode word with
  | nan => simp [hdecode, Number.isFinite] at h
  | infinite negative => simp [hdecode, Number.isFinite] at h
  | finite negative m e =>
    have hmagnitude : IsPositional
        (if m == 0 then "0" else (f.shortest m e).positional).toList := by
      split
      · exact .inl (by decide)
      · exact (f.shortest m e).isPositional
    refine ⟨negative, _, ?_, hmagnitude⟩
    cases negative with
    | false => rfl
    | true => exact String.toList_append

namespace Value

theorem exists_withPoint {text : String} {negative : Bool} {cs : List Char}
    (htext : text.toList = sign negative ++ cs) (hcs : IsPositional cs) :
    ∃ whole fraction, isDigits whole = true ∧ (∀ c ∈ fraction, Text.isDigit c = true) ∧
      (withPoint true text).toList = (Lexeme.decimal negative whole fraction).chars := by
  unfold withPoint
  rcases hcs with hcs | ⟨whole, fraction, hwhole, hfraction, rfl⟩
  · have hpoint : '.' ∉ text.toList := by
      rw [htext, List.mem_append]
      rintro (h | h)
      · cases negative <;> simp at h
      · exact absurd ((isDigits_iff.mp hcs).2 _ h) (by decide)
    have hcontains : text.contains '.' = false := by simp [hpoint]
    refine ⟨cs, ['0'], hcs, List.forall_mem_singleton.mpr (by decide), ?_⟩
    rw [hcontains]
    simp [htext, Lexeme.chars]
  · have hcontains : text.contains '.' = true := by simp [htext]
    refine ⟨whole, fraction, hwhole, hfraction, ?_⟩
    rw [hcontains]
    exact htext

/-- A finite floating-point number is listed with a point. -/
theorem exists_decimal {v : Value} (hfloat : v.datatype.isFloat = true) (h : v.isFinite = true) :
    ∃ negative whole fraction, isDigits whole = true ∧ (∀ c ∈ fraction, Text.isDigit c = true) ∧
      v.text.toList = (Lexeme.decimal negative whole fraction).chars := by
  cases v with
  | f32 word =>
    obtain ⟨negative, cs, htext, hcs⟩ := Binary.Format.exists_text h
    have hpoint : (f32 word).text = withPoint true (Binary.Format.single.text word.toNat) :=
      congrArg (withPoint · _) h
    rw [hpoint]
    exact ⟨negative, exists_withPoint htext hcs⟩
  | f64 word =>
    obtain ⟨negative, cs, htext, hcs⟩ := Binary.Format.exists_text h
    have hpoint : (f64 word).text = withPoint true (Binary.Format.double.text word.toNat) :=
      congrArg (withPoint · _) h
    rw [hpoint]
    exact ⟨negative, exists_withPoint htext hcs⟩
  | _ => cases hfloat

end Value

/-- Digits with a point are a literal. -/
theorem floatLiteral?_decimal (negative : Bool) {whole fraction : List Char}
    (hwhole : isDigits whole = true) (hfraction : ∀ c ∈ fraction, Text.isDigit c = true) :
    ∃ word, floatLiteral? (String.ofList (Lexeme.decimal negative whole fraction).chars) =
      some word := by
  obtain ⟨hne, hdigits⟩ := isDigits_iff.mp hwhole
  have hsplit : splitSign (Lexeme.decimal negative whole fraction).chars =
      (negative, whole ++ '.' :: fraction) := by
    cases negative with
    | true => rfl
    | false =>
      obtain ⟨d, ds, rfl⟩ := List.exists_cons_of_ne_nil hne
      change splitSign (d :: (ds ++ '.' :: fraction)) = (false, d :: (ds ++ '.' :: fraction))
      have hd := hdigits d List.mem_cons_self
      unfold splitSign
      split
      · next heq =>
        cases heq
        exact absurd hd (by decide)
      · next heq =>
        cases heq
        exact absurd hd (by decide)
      · rfl
  have hpoint : ∀ c ∈ whole, (c != '.') = true := by
    intro c hc
    rw [bne_iff_ne]
    rintro rfl
    exact absurd (hdigits _ hc) (by decide)
  have htake : (whole ++ '.' :: fraction).takeWhile (· != '.') = whole := by
    rw [List.takeWhile_append_of_pos hpoint]
    simp
  have hdrop : (whole ++ '.' :: fraction).dropWhile (· != '.') = '.' :: fraction := by
    rw [List.dropWhile_append_of_pos hpoint]
    simp
  have hall : (whole ++ fraction).all Text.isDigit = true := by
    rw [List.all_append, Bool.and_eq_true_iff, List.all_eq_true, List.all_eq_true]
    exact ⟨hdigits, hfraction⟩
  have hempty : (whole ++ fraction).isEmpty = false := by simp [hne]
  unfold floatLiteral?
  rw [String.toList_ofList, hsplit]
  simp only [htake, hdrop, hall, hempty, Bool.not_false, Bool.and_self, if_true]
  exact ⟨_, rfl⟩

end CellMachine
