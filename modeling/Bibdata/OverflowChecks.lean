import Bibdata.NonLatin

/-!
# Linked fields in a build with overflow checks

The index of a pair is one less than the number in the $6. A build with overflow checks panics at
`0 - 1`; one without them goes on with the largest `usize`. The pairs are an iterator, and it is
left at the first pair that is looked for.
-/

namespace Bibdata

inductive Build
  | overflowChecks
  | noOverflowChecks
  deriving DecidableEq

inductive Panic
  | subtractWithOverflow
  deriving DecidableEq

def Build.sub (build : Build) (a b : ℕ) : Except Panic ℕ :=
  if b ≤ a then .ok (a - b)
  else match build with
    | .overflowChecks => .error .subtractWithOverflow
    | .noOverflowChecks => .ok (2 ^ 64 + a - b)

/-- `slice::get`. The largest `usize` is past the end of every vector. -/
def sliceGet {α : Type} (xs : List α) (index : ℕ) : Option α :=
  if index < 2 ^ 64 - 1 then xs[index]? else none

/-- The tag and the number of a linkage, where both can be read. -/
def linkageParts (linkage : String) : Option (List Char × ℕ) :=
  (byteRange 0 3 linkage.toList).bind fun tag =>
    (byteRange 4 6 linkage.toList).bind fun occurrence =>
      (parseUsize occurrence).map fun number => (tag, number)

section Run

variable (build : Build) (r : Record)

def parallelFieldPairIn (nonLatin : Field) : Except Panic (Option ParallelFieldPair) :=
  match (nonLatin.firstSubfield '6').bind linkageParts with
  | none => .ok none
  | some (tag, number) =>
    (build.sub number 1).map fun index =>
      (sliceGet (r.getFields (String.ofList tag)) index).map fun latin => ⟨nonLatin, latin⟩

/-- `parallel_field_pairs(record).any(..)`. -/
def anyPairOf (field : Field) : Except Panic Bool :=
  (r.getFields "880").anyM fun nonLatin =>
    (parallelFieldPairIn build r nonLatin).map fun pair => pair.any (·.nonLatin = field)

def isUnmatchedIn (field : Field) : Except Panic Bool :=
  if field.tag = "880" then (anyPairOf build r field).map (!·) else .ok false

def unmatchedParallelStringsIn : Except Panic (List String) :=
  r.fields.filterMapM fun field =>
    (isUnmatchedIn build r field).map fun unmatched =>
      if unmatched then some (joinSubfieldsByCode field ['a', 'b', 'c']) else none

end Run

end Bibdata
