import Bibdata.NonLatin

/-!
# The queries of the crate that reads the records

A query is a list of tags, each with the codes of subfields and perhaps with indicators. What the
crate gives for one is a parameter here; `plainMarctk` reads the queries of these modules.
-/

namespace Bibdata

structure Marctk where
  extractValues : String → Record → List String
  extractPartialFields : String → Record → List Field
  getParallelFields : String → Record → List Field

/-- The content of each subfield with one of these codes, field by field. -/
def Marctk.GivesEachSubfield (M : Marctk) (query : String) (tags : List String)
    (codes : List Char) : Prop :=
  ∀ r : Record, M.extractValues query r = (r.fields.filter (·.tag ∈ tags)).flatMap fun field =>
    subfieldContents (filterByCode codes field.subfields)

section Queries

structure FieldQuery where
  tag : String
  ind2 : Char
  codes : List Char
  deriving DecidableEq

def FieldQuery.ofString (s : String) : FieldQuery :=
  match s.toList.drop 3 with
  | '(' :: _ :: ind2 :: ')' :: codes => ⟨String.ofList (s.toList.take 3), ind2, codes⟩
  | codes => ⟨String.ofList (s.toList.take 3), '*', codes⟩

def FieldQuery.covers (query : FieldQuery) (field : Field) : Bool :=
  field.tag = query.tag && (query.ind2 = '*' || field.ind2 = String.singleton query.ind2)

/-- The subfields of a field that one of the queries asks for. -/
def queriedSubfields (query : String) (field : Field) : List Subfield :=
  let queries := (splitChar ':' query).map FieldQuery.ofString
  field.subfields.filter fun s => queries.any fun q => q.covers field && s.code ∈ q.codes

/-- One of the queries is for the field, whatever subfields it has. -/
def isQueried (query : String) (field : Field) : Bool :=
  ((splitChar ':' query).map FieldQuery.ofString).any (·.covers field)

def plainMarctk : Marctk where
  extractValues := fun query r => r.fields.flatMap fun field =>
    subfieldContents (queriedSubfields query field)
  extractPartialFields := fun query r =>
    (r.fields.filter (isQueried query)).map fun field =>
      { field with subfields := queriedSubfields query field }
  getParallelFields := fun tag r => r.fields.filter fun field =>
    field.tag = "880" && (field.firstSubfield '6').any (startsWith · tag)

/-- The queries with one list of codes. -/
theorem plainMarctk_givesEachSubfield {query : String} {tags : List String} {codes : List Char}
    (h : (splitChar ':' query).map FieldQuery.ofString = tags.map (⟨·, '*', codes⟩)) :
    plainMarctk.GivesEachSubfield query tags codes := by
  intro r
  have hqueried : ∀ field, queriedSubfields query field
      = if field.tag ∈ tags then filterByCode codes field.subfields else [] := by
    intro field
    simp only [queriedSubfields, h, List.any_map]
    split_ifs with htag
    · refine List.filter_congr fun s _ => ?_
      rw [Bool.eq_iff_iff, List.any_eq_true, decide_eq_true_eq]
      constructor
      · rintro ⟨tag, -, hcovers⟩
        exact of_decide_eq_true (Bool.and_eq_true _ _ ▸ hcovers).2
      · intro hcode
        exact ⟨field.tag, htag, by simp [FieldQuery.covers, hcode]⟩
    · refine List.filter_eq_nil_iff.2 fun s _ => ?_
      rw [List.any_eq_true]
      rintro ⟨tag, hmem, hcovers⟩
      have hsame : field.tag = tag := by
        simp [FieldQuery.covers] at hcovers
        exact hcovers.1
      exact htag (hsame ▸ hmem)
  show (r.fields.flatMap fun field => subfieldContents (queriedSubfields query field)) = _
  induction r.fields with
  | nil => rfl
  | cons field fields ih =>
    rw [List.flatMap_cons, ih, hqueried, List.filter_cons]
    by_cases htag : field.tag ∈ tags
    · simp [htag]
    · simp [htag, subfieldContents]

end Queries

end Bibdata
