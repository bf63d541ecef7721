import ArtifactCache.Index.Basic

/-! # Runs of an index

The operations that a user of the index can ask for, as values, and where a sequence
of them leads.
-/

namespace ArtifactCache.Index

/-- Something that is asked of an index. -/
inductive Operation where
  | insert (key : Key) (file : StoredFile)
  | touch (key : Key)
  | peek (key : Key)
  | contains (key : Key)
  | remove (key : Key)
  deriving DecidableEq, Repr

def perform (index : Index) : Operation → Index
  | .insert key file => (index.insert key file).index
  | .touch key => (index.touch key).2
  | .peek _ | .contains _ => index
  | .remove key => (index.remove key).2

/-- The entries whose files have to go because of an operation. -/
def releasedBy (index : Index) : Operation → List Entry
  | .insert key file => (index.insert key file).released
  | .touch _ | .peek _ | .contains _ | .remove _ => []

def performAll (index : Index) (operations : List Operation) : Index :=
  operations.foldl perform index

/-- The bytes that the files of entries occupy. -/
def weight : List Entry → Nat
  | [] => 0
  | entry :: rest => entry.2.diskSize.toNat + weight rest

theorem weight_append (first second : List Entry) :
    weight (first ++ second) = weight first + weight second := by
  induction first with
  | nil => simp [weight]
  | cons entry rest ih => simp only [List.cons_append, weight, ih, Nat.add_assoc]

end ArtifactCache.Index
