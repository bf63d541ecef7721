import ArtifactCache.Decimal.Word
import Mathlib.Data.List.Induction

/-! # Decimal texts of words

A text of digits without leading zeros is the only text of its value.  The text of a word consists
of digits that have the value of the word, and it starts with a zero only if the word is zero.

A word is read from exactly the texts that consist of digits of its value, with or without a plus
sign in front of them where signs are allowed.
-/

namespace ArtifactCache.Decimal

theorem exists_digitChar {c : Char} (digit : c.isDigit = true) :
    ∃ value, value < 10 ∧ c = value.digitChar := by
  obtain ⟨low, high⟩ := Char.isDigit_iff_toNat.mp digit
  simp only [Char.reduceToNat] at low high
  have small : c.toNat - 48 < 10 := by omega
  refine ⟨c.toNat - 48, small, ?_⟩
  apply Char.toNat_inj.mp
  rw [Nat.toNat_digitChar_of_lt_ten small]
  omega

/-- A number without leading zeros is written with the digits that it was read from. -/
theorem toDigits_ofDigitChars {text : List Char} (nonempty : text ≠ [])
    (digits : ∀ c ∈ text, c.isDigit = true) (leading : ∀ c ∈ text.head?, c ≠ '0') :
    Nat.toDigits 10 (Nat.ofDigitChars 10 text 0) = text := by
  induction text using List.reverseRecOn with
  | nil => exact absurd rfl nonempty
  | append_singleton before c ih =>
    obtain ⟨value, small, rfl⟩ := exists_digitChar (digits c (by simp))
    have total : Nat.ofDigitChars 10 (before ++ [value.digitChar]) 0 =
        10 * Nat.ofDigitChars 10 before 0 + value := by
      rw [Nat.ofDigitChars_append, Nat.ofDigitChars_cons_digitChar_of_lt_ten small,
        Nat.ofDigitChars_nil]
    rw [total]
    cases before with
    | nil => rw [Nat.ofDigitChars_nil, Nat.zero_add, Nat.toDigits_of_lt_base small, List.nil_append]
    | cons first rest =>
      have written := ih (List.cons_ne_nil _ _)
        (fun c member => digits c (List.mem_append_left _ member)) leading
      -- The digits in front are those of a positive number.
      have positive : 0 < Nat.ofDigitChars 10 (first :: rest) 0 := by
        apply Nat.pos_of_ne_zero
        intro zero
        rw [zero, Nat.toDigits_zero] at written
        exact leading first (by simp) (List.cons.inj written).1.symm
      rw [← Nat.toDigits_append_toDigits (by decide) positive small, written,
        Nat.toDigits_of_lt_base small]

theorem head?_toDigits_ne {value : Nat} (positive : value ≠ 0) :
    (Nat.toDigits 10 value).head? ≠ some '0' := by
  induction value using Nat.strongRecOn with
  | ind value ih =>
    by_cases small : value < 10
    · rw [Nat.toDigits_of_lt_base small]
      simpa using positive
    · have large : 10 ≤ value := Nat.not_lt.mp small
      rw [Nat.toDigits_of_base_le (by decide) large, List.head?_append,
        Option.or_of_isSome (List.isSome_head?.mpr Nat.toDigits_ne_nil)]
      exact ih (value / 10) (by omega) (by omega)

theorem isDigit_of_mem_render {word : UInt64} {c : Char} (member : c ∈ (render word).toList) :
    c.isDigit = true := by
  rw [render, String.toList_ofList] at member
  exact Nat.isDigit_of_mem_toDigits (by decide) (by decide) member

theorem ofDigitChars_render (word : UInt64) :
    Nat.ofDigitChars 10 (render word).toList 0 = word.toNat := by
  rw [render, String.toList_ofList]
  exact Nat.ofDigitChars_ten_toDigits

theorem exists_render (word : UInt64) :
    ∃ first rest, (render word).toList = first :: rest ∧ (word ≠ 0 → first ≠ '0') := by
  rw [render, String.toList_ofList, digits]
  obtain ⟨first, rest, split⟩ := List.exists_cons_of_ne_nil
    (Nat.toDigits_ne_nil : Nat.toDigits 10 word.toNat ≠ [])
  refine ⟨first, rest, split, ?_⟩
  rintro positive rfl
  refine head?_toDigits_ne (fun zero => positive (UInt64.toNat_inj.mp zero)) ?_
  rw [split, List.head?_cons]

/-- Whether a text writes a word: by digits, with or without a plus sign in front of them. -/
def Writes (text : List Char) (word : UInt64) : Prop :=
  ∃ digits, (text = digits ∨ text = '+' :: digits) ∧ digits ≠ [] ∧
    (∀ c ∈ digits, c.isDigit = true) ∧ Nat.ofDigitChars 10 digits 0 = word.toNat

theorem read?_eq_some_iff {text : List Char} {word : UInt64} :
    read? text = some word ↔ text ≠ [] ∧ (∀ c ∈ text, c.isDigit = true) ∧
      Nat.ofDigitChars 10 text 0 = word.toNat := by
  rw [read?]
  constructor
  · intro read
    split at read
    · rename_i digits
      exact ⟨digits.1, List.all_eq_true.mp digits.2, (toNat_of_word? read).symm⟩
    · cases read
  · rintro ⟨nonempty, digits, value⟩
    rw [if_pos ⟨nonempty, List.all_eq_true.mpr digits⟩, value, word?_toNat]

theorem readSigned?_eq_some_iff {text : List Char} {word : UInt64} :
    readSigned? text = some word ↔ Writes text word := by
  constructor
  · intro read
    unfold readSigned? at read
    split at read
    · exact ⟨_, .inr rfl, read?_eq_some_iff.mp read⟩
    · exact ⟨_, .inl rfl, read?_eq_some_iff.mp read⟩
  · rintro ⟨digits, rfl | rfl, writes⟩
    · unfold readSigned?
      split
      · cases writes.2.1 '+' List.mem_cons_self
      · exact read?_eq_some_iff.mpr writes
    · exact read?_eq_some_iff.mpr writes

end ArtifactCache.Decimal
