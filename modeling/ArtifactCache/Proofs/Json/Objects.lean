import ArtifactCache.Json.Record
import ArtifactCache.Proofs.Json.Values

/-! # Records that are read as they were written

A record is read from an object by its members, one after the other, and each one changes the
record by the value that was read.  An object whose members have been written with the names of the
fields, each of them once, is taken as a whole.
-/

namespace ArtifactCache.Json

open Reader

/-- Whether members turn a record into another one, where certain fields have been read already. -/
inductive ReadsMembers {σ : Type} (fields : List (FieldReader σ)) :
    List String → List (String × String) → σ → σ → Prop
  | done {seen value}
      (complete : fields.find? (fun field => field.required && !seen.contains field.name) = none) :
    ReadsMembers fields seen [] value value
  | field {seen name text items field change value result}
      (known : fields.find? (fun field => field.name = name) = some field)
      (fresh : seen.contains name = false)
      (reads : ∀ {byte}, ClosesValue byte → ∀ rest,
        Takes field.read (Utf8.encode text.toList) (byte :: rest) change)
      (later : ReadsMembers fields (name :: seen) items (change value) result) :
    ReadsMembers fields seen ((name, text) :: items) value result

section Members

variable {σ : Type} {fields : List (FieldReader σ)} {field : FieldReader σ} {bound : Nat}
  {first : Bool} {seen : List String} {value result : σ} {change : σ → σ} {name : String}
  {written more rest : List UInt8}

/-- What stands in front of a member. -/
def separator (first : Bool) : List UInt8 :=
  if first then [] else [0x2C]

theorem takes_hasMember (first : Bool) (rest : List UInt8) :
    Takes (hasMember first) (separator first) (0x22 :: rest) true := by
  cases first with
  | true => exact fun position => ⟨position, rfl⟩
  | false => exact fun position => ⟨_, rfl⟩

theorem takes_colon (rest : List UInt8) : Takes colon [0x3A] rest () :=
  fun position => ⟨position.after 0x3A, rfl⟩

theorem takes_endObject (rest : List UInt8) : Takes endObject [0x7D] rest () :=
  fun position => ⟨position.after 0x7D, rfl⟩

theorem takes_members_field (known : fields.find? (fun field => field.name = name) = some field)
    (fresh : seen.contains name = false) (reads : Takes field.read written (more ++ rest) change)
    (later : Takes (members fields bound false (name :: seen) (change value)) more rest result) :
    Takes (members fields (bound + 1) first seen value)
      (separator first ++ (Utf8.encode (writtenText name).toList ++ ([0x3A] ++ (written ++ more))))
      rest result := by
  rw [members, encode_writtenText, List.append_assoc, List.append_assoc]
  refine (takes_hasMember first _).bind ?_
  rw [if_pos rfl]
  refine Takes.afterByte 0x22 ?_
  rw [← List.append_assoc]
  refine (takes_textBody name _).bind ?_
  simp only [known, fresh, Bool.false_eq_true, if_false]
  exact (takes_colon _).bind (reads.bind later)

theorem takes_members_end
    (complete : fields.find? (fun field => field.required && !seen.contains field.name) = none)
    (first : Bool) (rest : List UInt8) :
    Takes (members fields (bound + 1) first seen value) [] (0x7D :: rest) value := by
  have ends : Takes (hasMember first) [] (0x7D :: rest) false := by
    cases first with
    | true => exact fun position => ⟨position, rfl⟩
    | false => exact fun position => ⟨position, rfl⟩
  rw [members]
  refine ends.look ?_
  rw [if_neg Bool.false_ne_true, complete]
  exact .pure value _

def memberBytes (first : Bool) : List (String × String) → List UInt8
  | [] => []
  | (name, text) :: rest =>
    separator first ++ (Utf8.encode (writtenText name).toList ++
      ([0x3A] ++ (Utf8.encode text.toList ++ memberBytes false rest)))

theorem length_le_memberBytes (first : Bool) (items : List (String × String)) :
    items.length ≤ (memberBytes first items).length := by
  induction items generalizing first with
  | nil => exact Nat.le_refl 0
  | cons item items ih =>
    have tail := ih false
    simp only [memberBytes, List.length_append, List.length_cons, List.length_nil]
    omega

theorem exists_closes (items : List (String × String)) (rest : List UInt8) :
    ∃ byte more, memberBytes false items ++ 0x7D :: rest = byte :: more ∧ ClosesValue byte := by
  cases items with
  | nil => exact ⟨0x7D, rest, rfl, .inr rfl⟩
  | cons item items => exact ⟨0x2C, _, rfl, .inl rfl⟩

theorem ReadsMembers.takes {items : List (String × String)}
    (reads : ReadsMembers fields seen items value result) (enough : items.length < bound)
    (first : Bool) (rest : List UInt8) :
    Takes (members fields bound first seen value) (memberBytes first items) (0x7D :: rest)
      result := by
  induction reads generalizing bound first with
  | done complete =>
    obtain ⟨bound, rfl⟩ := Nat.exists_eq_add_one_of_ne_zero (Nat.ne_of_gt enough)
    exact takes_members_end complete first rest
  | @field seen name text items field change value result known fresh reads later ih =>
    obtain ⟨bound, rfl⟩ := Nat.exists_eq_add_one_of_ne_zero (Nat.ne_of_gt (Nat.zero_lt_of_lt enough))
    obtain ⟨byte, more, follows, closes⟩ := exists_closes items rest
    have reads := reads closes more
    rw [← follows] at reads
    exact takes_members_field known fresh reads (ih (Nat.lt_of_succ_lt_succ enough) false)

theorem encode_intercalate (items : List (String × String)) :
    Utf8.encode (",".intercalate (items.map fun (name, value) =>
      writtenText name ++ ":" ++ value)).toList = memberBytes true items := by
  have single : ∀ item : String × String,
      Utf8.encode (writtenText item.1 ++ ":" ++ item.2).toList =
        Utf8.encode (writtenText item.1).toList ++ ([0x3A] ++ Utf8.encode item.2.toList) := by
    intro item
    rw [String.toList_append, String.toList_append, Utf8.encode_append, Utf8.encode_append,
      List.append_assoc]
    rfl
  have comma : Utf8.encode ",".toList = [0x2C] := rfl
  induction items with
  | nil => rfl
  | cons item items ih =>
    cases items with
    | nil =>
      rw [List.map_cons, List.map_nil, String.intercalate_singleton, single]
      simp [memberBytes, separator]
    | cons next items =>
      rw [List.map_cons] at ih
      rw [List.map_cons, List.map_cons, String.intercalate_cons_cons, String.toList_append,
        String.toList_append, Utf8.encode_append, Utf8.encode_append, ih, single, comma]
      simp [memberBytes, separator]

theorem encode_writtenObject (items : List (String × String)) :
    Utf8.encode (writtenObject items).toList = [0x7B] ++ (memberBytes true items ++ [0x7D]) := by
  simp only [writtenObject, String.toList_append, Utf8.encode_append, encode_intercalate]
  rw [List.append_assoc]
  rfl

/-- A record is read from the object that its members were written to. -/
theorem ReadsMembers.run {title : String} {items : List (String × String)}
    (reads : ReadsMembers fields [] items value result) :
    run (record title fields value) (Utf8.encode (writtenObject items).toList) = .ok result := by
  have body : Takes (do
      let bound ← remaining
      closing (members fields (bound + 1) true [] value) endObject)
      (memberBytes true items ++ [0x7D]) [] result := by
    have enough : items.length < ((memberBytes true items ++ [0x7D]) ++ []).length + 1 := by
      have all := length_le_memberBytes true items
      simp only [List.length_append]
      omega
    refine (takes_remaining _).look ?_
    exact Takes.closing (reads.takes enough true [] : Takes _ _ ([0x7D] ++ []) _)
      (takes_endObject [])
  have whole : Takes (record title fields value)
      ([0x7B] ++ (memberBytes true items ++ [0x7D])) [] result := by
    rw [record]
    refine (takes_peekValue (by decide) _).look ?_
    exact (body.afterByte 0x7B).placing
  rw [encode_writtenObject]
  obtain ⟨reached, ended⟩ := whole { line := 1, column := 0 }
  rw [List.append_nil] at ended
  rw [Reader.run, document, Cursor.start, bind_of_ok ended]
  rfl

end Members

end ArtifactCache.Json
