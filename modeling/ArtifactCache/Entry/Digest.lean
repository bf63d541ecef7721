import ArtifactCache.Entry.NameError

/-! # Digests

A digest names the content of an entry by 64 lowercase hexadecimal characters.
Its first two characters name the shard directory that its files live in.
-/

namespace ArtifactCache

/-- Whether a character is a lowercase hexadecimal digit. -/
def isHexDigit (c : Char) : Bool :=
  c.isDigit || ('a' ≤ c && c ≤ 'f')

/-- Whether a text consists of the right number of hexadecimal digits. -/
def isDigestText (text : List Char) : Bool :=
  text.length == digestLength && text.all isHexDigit

/-- A text of 64 lowercase hexadecimal characters. -/
structure Digest where
  text : String
  valid : isDigestText text.toList = true
  deriving DecidableEq, Repr

namespace Digest

/-- Read a digest from the front of a text.  The whole run of hexadecimal digits
must be taken, so a run of any other length is refused. -/
def takeFront? (text : List Char) : Option (Digest × List Char) :=
  let run := text.takeWhile isHexDigit
  if exact : run.length = digestLength then
    some (⟨String.ofList run, by
      simp only [isDigestText, String.toList_ofList, exact, beq_self_eq_true, Bool.true_and]
      exact List.all_takeWhile⟩, text.dropWhile isHexDigit)
  else none

def read (text : List Char) : Except NameFault Digest :=
  match takeFront? text with
  | none => .error .digest
  | some (digest, []) => .ok digest
  | some (_, _ :: _) => .error .trailing

/-- Read a digest that stands alone. -/
def parse (input : String) : Except NameError Digest :=
  (read input.toList).mapError fun fault => { input, fault }

def shard (digest : Digest) : String :=
  String.ofList (digest.text.toList.take 2)

theorem length_text (digest : Digest) : digest.text.toList.length = digestLength := by
  have valid := digest.valid
  simp only [isDigestText, Bool.and_eq_true, beq_iff_eq] at valid
  exact valid.1

theorem isHexDigit_of_mem {digest : Digest} {c : Char} (member : c ∈ digest.text.toList) :
    isHexDigit c = true := by
  have valid := digest.valid
  simp only [isDigestText, Bool.and_eq_true, List.all_eq_true] at valid
  exact valid.2 c member

theorem takeFront?_append (digest : Digest) {rest : List Char}
    (stops : ∀ c ∈ rest.head?, isHexDigit c = false) :
    takeFront? (digest.text.toList ++ rest) = some (digest, rest) := by
  have hex : ∀ c ∈ digest.text.toList, isHexDigit c = true := fun _ => isHexDigit_of_mem
  have stopped : rest.takeWhile isHexDigit = [] ∧ rest.dropWhile isHexDigit = rest := by
    cases rest with
    | nil => simp
    | cons c tail => simp [stops c (by simp)]
  unfold takeFront?
  simp only [List.takeWhile_append_of_pos hex, List.dropWhile_append_of_pos hex, stopped.1,
    stopped.2, List.append_nil, length_text, dif_pos, String.ofList_toList]

end Digest

end ArtifactCache
