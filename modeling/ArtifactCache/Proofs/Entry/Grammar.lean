import ArtifactCache.Proofs.Entry.Name
import Mathlib.Algebra.Group.Nat.Defs

/-! # Reading accepts exactly the grammar

A file name is put together from pieces of text.  The grammar says which characters may
stand in each piece, without any regard to how names are read:

    name  = digest [ '-' size ] '-' token [ '.v1' ]
    digest = 64 characters from 0 to 9 and from a to f
    size  = a digit other than 0, then digits, of a value of 64 bits
    token = letters and digits, at least one

A text is read as a name exactly if it can be put together in this way.  It can be put
together in one way only, and the name says what the pieces say.
-/

namespace ArtifactCache

/-! ## Classes of characters -/

theorem isDigit_iff {c : Char} : c.isDigit = true ↔ '0' ≤ c ∧ c ≤ '9' := by
  simp only [Char.isDigit, Bool.and_eq_true, decide_eq_true_eq, ge_iff_le, Char.le_def]

theorem isDigit_and_ne_zero_iff {c : Char} : c.isDigit = true ∧ c ≠ '0' ↔ '1' ≤ c ∧ c ≤ '9' := by
  rw [isDigit_iff, ← Char.toNat_inj.ne]
  simp only [Char.le_def, UInt32.le_iff_toNat_le, Char.reduceVal, UInt32.reduceToNat,
    Char.reduceToNat]
  change (48 ≤ c.toNat ∧ c.toNat ≤ 57) ∧ c.toNat ≠ 48 ↔ 49 ≤ c.toNat ∧ c.toNat ≤ 57
  omega

theorem isHexDigit_iff_range {c : Char} :
    isHexDigit c = true ↔ '0' ≤ c ∧ c ≤ '9' ∨ 'a' ≤ c ∧ c ≤ 'f' := by
  simp only [isHexDigit, Bool.or_eq_true, Bool.and_eq_true, decide_eq_true_eq, isDigit_iff]

theorem isAlphanum_iff {c : Char} :
    c.isAlphanum = true ↔ '0' ≤ c ∧ c ≤ '9' ∨ 'A' ≤ c ∧ c ≤ 'Z' ∨ 'a' ≤ c ∧ c ≤ 'z' := by
  have classes : c.isAlphanum =
      ((decide ('A' ≤ c ∧ c ≤ 'Z') || 'a' ≤ c && c ≤ 'z') || '0' ≤ c && c ≤ '9') := rfl
  simp only [classes, Bool.or_eq_true, Bool.and_eq_true, decide_eq_true_eq]
  tauto

theorem isAlphanum_of_isHexDigit {c : Char} (hex : isHexDigit c = true) :
    c.isAlphanum = true := by
  rcases isHexDigit_iff_range.mp hex with digit | ⟨low, high⟩
  · exact isAlphanum_iff.mpr (.inl digit)
  · exact isAlphanum_iff.mpr (.inr (.inr ⟨low, Char.le_trans high (by decide)⟩))

/-- Letters and digits are ASCII characters, and the slash is none of them. -/
theorem ascii_of_isAlphanum {c : Char} (alphanumeric : c.isAlphanum = true) :
    c.toNat < 0x80 ∧ c ≠ '/' := by
  have bounded : ∀ {low high : Char}, low ≤ c ∧ c ≤ high → high.toNat < 0x80 → ¬ low ≤ '/' →
      c.toNat < 0x80 ∧ c ≠ '/' := by
    intro low high range small above
    refine ⟨Nat.lt_of_le_of_lt (UInt32.le_iff_toNat_le.mp range.2) small, ?_⟩
    rintro rfl
    exact above range.1
  rcases isAlphanum_iff.mp alphanumeric with digit | upper | lower
  · exact bounded digit (by decide) (by decide)
  · exact bounded upper (by decide) (by decide)
  · exact bounded lower (by decide) (by decide)

namespace EntryName

def SpellsDigest (text : List Char) : Prop :=
  text.length = 64 ∧ ∀ c ∈ text, '0' ≤ c ∧ c ≤ '9' ∨ 'a' ≤ c ∧ c ≤ 'f'

def SpellsSize (text : List Char) : Prop :=
  (∃ first rest, text = first :: rest ∧ ('1' ≤ first ∧ first ≤ '9') ∧
    ∀ c ∈ rest, '0' ≤ c ∧ c ≤ '9') ∧ Nat.ofDigitChars 10 text 0 ≤ 2 ^ 64 - 1

def SpellsToken (text : List Char) : Prop :=
  text ≠ [] ∧ ∀ c ∈ text, '0' ≤ c ∧ c ≤ '9' ∨ 'A' ≤ c ∧ c ≤ 'Z' ∨ 'a' ≤ c ∧ c ≤ 'z'

theorem spellsDigest_iff {text : List Char} : SpellsDigest text ↔ isDigestText text = true := by
  simp only [SpellsDigest, isDigestText, Bool.and_eq_true, beq_iff_eq, List.all_eq_true,
    isHexDigit_iff_range, digestLength]

theorem SpellsDigest.exists_digest {text : List Char} (spells : SpellsDigest text) :
    ∃ digest : Digest, digest.text.toList = text :=
  ⟨⟨String.ofList text, by rw [String.toList_ofList, spellsDigest_iff.mp spells]⟩,
    String.toList_ofList⟩

theorem spellsToken_iff {text : List Char} : SpellsToken text ↔ IsSegment text := by
  simp only [SpellsToken, IsSegment, isAlphanum_iff]

theorem spellsSize_iff {text : List Char} : SpellsSize text ↔ ∃ size, WritesSize text size := by
  have largest : UInt64.size = 2 ^ 64 := rfl
  constructor
  · rintro ⟨⟨first, rest, rfl, leading, digits⟩, small⟩
    obtain ⟨digit, nonzero⟩ := isDigit_and_ne_zero_iff.mpr leading
    refine ⟨UInt64.ofNat (Nat.ofDigitChars 10 (first :: rest) 0),
      List.forall_mem_cons.mpr ⟨digit, fun c member => isDigit_iff.mpr (digits c member)⟩,
      ⟨first, rest, rfl, nonzero⟩, (UInt64.toNat_ofNat_of_lt' ?_).symm⟩
    omega
  · rintro ⟨size, digits, ⟨first, rest, rfl, nonzero⟩, value⟩
    obtain ⟨digit, others⟩ := List.forall_mem_cons.mp digits
    refine ⟨⟨first, rest, rfl, isDigit_and_ne_zero_iff.mp ⟨digit, nonzero⟩,
      fun c member => isDigit_iff.mp (others c member)⟩, ?_⟩
    have bound := size.toNat_lt_size
    omega

/-! ## Names in pieces -/

/-- The pieces of text that a file name is put together from. -/
structure Pieces where
  digest : List Char
  size : Option (List Char)
  token : List Char
  legacy : Bool
  deriving DecidableEq, Repr

namespace Pieces

/-- The text that pieces are put together to. -/
def text (pieces : Pieces) : List Char :=
  pieces.digest ++ (match pieces.size with
    | some written => '-' :: written
    | none => []) ++ '-' :: pieces.token ++ (if pieces.legacy then ['.', 'v', '1'] else [])

structure IsGrammatical (pieces : Pieces) : Prop where
  digest : SpellsDigest pieces.digest
  size : ∀ written, pieces.size = some written → SpellsSize written
  token : SpellsToken pieces.token

/-- Whether a name says what pieces say.  A size counts with its value. -/
structure Say (pieces : Pieces) (name : EntryName) : Prop where
  digest : name.digest.text.toList = pieces.digest
  size : name.logicalSize.map UInt64.toNat = pieces.size.map (Nat.ofDigitChars 10 · 0)
  token : name.token.toList = pieces.token
  legacy : name.legacy = pieces.legacy

theorem mark_eq (legacy : Bool) : mark legacy = if legacy then ['.', 'v', '1'] else [] := by
  cases legacy <;> rfl

/-- Pieces that follow the grammar spell a name, and it says what they say. -/
theorem IsGrammatical.exists_spells {pieces : Pieces} (grammatical : pieces.IsGrammatical) :
    ∃ name, Spells pieces.text name ∧ pieces.Say name := by
  obtain ⟨digestText, size, tokenText, legacy⟩ := pieces
  obtain ⟨isDigest, isSize, isToken⟩ := grammatical
  obtain ⟨digest, rfl⟩ := isDigest.exists_digest
  obtain ⟨token, rfl⟩ : ∃ token : String, token.toList = tokenText :=
    ⟨String.ofList tokenText, String.toList_ofList⟩
  rw [text, ← mark_eq]
  cases size with
  | none =>
    rw [List.append_nil]
    exact ⟨_, Spells.plain digest legacy (spellsToken_iff.mp isToken), ⟨rfl, rfl, rfl, rfl⟩⟩
  | some written =>
    obtain ⟨size, writes⟩ := spellsSize_iff.mp (isSize written rfl)
    refine ⟨_, Spells.sized digest legacy writes (spellsToken_iff.mp isToken),
      ⟨rfl, congrArg some writes.2.2.symm, rfl, rfl⟩⟩

/-- A text that spells a name is put together from pieces that follow the grammar. -/
theorem exists_of_spells {text : List Char} {name : EntryName} (spells : Spells text name) :
    ∃ pieces : Pieces, pieces.IsGrammatical ∧ pieces.text = text := by
  cases spells with
  | plain digest legacy isToken =>
    rename_i token
    refine ⟨⟨digest.text.toList, none, token.toList, legacy⟩,
      ⟨spellsDigest_iff.mpr digest.valid, by simp, spellsToken_iff.mpr isToken⟩, ?_⟩
    rw [Pieces.text, ← mark_eq, List.append_nil]
  | sized digest legacy writes isToken =>
    rename_i written size token
    refine ⟨⟨digest.text.toList, some written, token.toList, legacy⟩,
      ⟨spellsDigest_iff.mpr digest.valid, ?_, spellsToken_iff.mpr isToken⟩, ?_⟩
    · intro other same
      exact Option.some.inj same ▸ spellsSize_iff.mpr ⟨size, writes⟩
    · rw [Pieces.text, ← mark_eq]

/-- Pieces are determined by the name that says what they say, because a size has only one
text. -/
theorem IsGrammatical.eq_of_say {pieces other : Pieces} {name : EntryName}
    (grammatical : pieces.IsGrammatical) (grammatical' : other.IsGrammatical)
    (say : pieces.Say name) (say' : other.Say name) : pieces = other := by
  have sizes : pieces.size = other.size := by
    have values := say.size.symm.trans say'.size
    cases written : pieces.size with
    | none =>
      rw [written] at values
      exact (Option.map_eq_none_iff.mp values.symm).symm
    | some first =>
      rw [written] at values
      obtain ⟨second, written', value⟩ := Option.map_eq_some_iff.mp values.symm
      obtain ⟨size, writes⟩ := spellsSize_iff.mp (grammatical.size first written)
      obtain ⟨size', writes'⟩ := spellsSize_iff.mp (grammatical'.size second written')
      have same : size = size' := by
        rw [← UInt64.toNat_inj, ← writes.2.2, ← writes'.2.2, value]
      rw [written', writes.eq_render, writes'.eq_render, same]
  obtain ⟨digest, size, token, legacy⟩ := pieces
  obtain ⟨digest', size', token', legacy'⟩ := other
  obtain ⟨digestSaid, -, tokenSaid, legacySaid⟩ := say
  obtain ⟨digestSaid', -, tokenSaid', legacySaid'⟩ := say'
  dsimp only at *
  subst digestSaid tokenSaid legacySaid digestSaid' tokenSaid' legacySaid' sizes
  rfl

end Pieces

/-- A text is read as a name exactly if it can be put together from pieces that follow the
grammar.  Then there is only one way to do so, and the name says what the pieces say.  A text
is read as a digest exactly if it spells one, and then it is the text of the digest. -/
theorem parse_accepts_grammar (input : String) :
    ((∃ name, parse input = .ok name) ↔
      ∃ pieces : Pieces, pieces.IsGrammatical ∧ pieces.text = input.toList) ∧
    (∀ pieces : Pieces, pieces.IsGrammatical → pieces.text = input.toList →
      (∃ name, parse input = .ok name ∧ pieces.Say name) ∧
        ∀ other : Pieces, other.IsGrammatical → other.text = input.toList → other = pieces) ∧
    ((∃ digest, Digest.parse input = .ok digest) ↔ SpellsDigest input.toList) ∧
    ∀ digest, Digest.parse input = .ok digest → digest.text = input := by
  have spelled : ∀ pieces : Pieces, pieces.IsGrammatical → pieces.text = input.toList →
      ∃ name, parse input = .ok name ∧ pieces.Say name := by
    intro pieces grammatical text
    obtain ⟨name, spells, say⟩ := grammatical.exists_spells
    exact ⟨name, parse_eq_ok_iff.mpr (text ▸ spells), say⟩
  refine ⟨⟨?_, ?_⟩, fun pieces grammatical text => ⟨spelled pieces grammatical text, ?_⟩,
    ⟨?_, ?_⟩, fun digest parsed => Digest.parse_eq_ok_iff.mp parsed⟩
  · rintro ⟨name, parsed⟩
    exact Pieces.exists_of_spells (parse_eq_ok_iff.mp parsed)
  · rintro ⟨pieces, grammatical, text⟩
    obtain ⟨name, parsed, -⟩ := spelled pieces grammatical text
    exact ⟨name, parsed⟩
  · -- Both ways to put the text together say what the text is read as.
    intro other grammatical' text'
    obtain ⟨name, parsed, say⟩ := spelled pieces grammatical text
    obtain ⟨name', parsed', say'⟩ := spelled other grammatical' text'
    obtain rfl : name = name' := Except.ok.inj (parsed.symm.trans parsed')
    exact grammatical'.eq_of_say grammatical say' say
  · rintro ⟨digest, parsed⟩
    rw [← Digest.parse_eq_ok_iff.mp parsed]
    exact spellsDigest_iff.mpr digest.valid
  · intro spells
    exact ⟨⟨input, spellsDigest_iff.mp spells⟩, Digest.parse_eq_ok_iff.mpr rfl⟩

/-- The largest size is read, in front of a token of one digit. -/
theorem parse_accepts_grammar_largest_size :
    let pieces : Pieces :=
      { digest := List.replicate 64 'f', size := some "18446744073709551615".toList
        token := ['0'], legacy := true }
    let input := String.ofList pieces.text
    pieces.IsGrammatical ∧ pieces.text = input.toList ∧
      (∃ name, parse input = .ok name ∧ pieces.Say name) ∧
        ∀ other : Pieces, other.IsGrammatical → other.text = input.toList → other = pieces := by
  intro pieces input
  have largest : size? "18446744073709551615".toList = some 18446744073709551615 := by decide
  have grammatical : pieces.IsGrammatical := by
    refine ⟨spellsDigest_iff.mpr (by decide), ?_,
      spellsToken_iff.mpr ⟨List.cons_ne_nil _ _, List.forall_mem_singleton.mpr rfl⟩⟩
    intro written same
    obtain rfl : "18446744073709551615".toList = written := Option.some.inj same
    exact spellsSize_iff.mpr ⟨_, size?_eq_some_iff.mp largest⟩
  have text : pieces.text = input.toList := String.toList_ofList.symm
  exact ⟨grammatical, text, (parse_accepts_grammar input).2.1 pieces grammatical text⟩

end EntryName

end ArtifactCache
