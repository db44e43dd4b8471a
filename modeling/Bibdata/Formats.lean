import Bibdata.Marc

/-!
# Formats

The format facets of a record, from its leader and a few fields, and the one that is displayed.
-/

namespace Bibdata

inductive FormatFacet
  | archivalItem
  | audio
  | book
  | coin
  | dataFile
  | databases
  | journal
  | manuscript
  | map
  | microform
  | musicalScore
  | report
  | seniorThesis
  | videoProjectedMedium
  | visualMaterial
  deriving DecidableEq

namespace FormatFacet

def toText : FormatFacet → String
  | archivalItem => "Archival item"
  | audio => "Audio"
  | book => "Book"
  | coin => "Coin"
  | dataFile => "Data file"
  | databases => "Databases"
  | journal => "Journal"
  | manuscript => "Manuscript"
  | map => "Map"
  | microform => "Microform"
  | musicalScore => "Musical score"
  | report => "Report"
  | seniorThesis => "Senior thesis"
  | videoProjectedMedium => "Video/Projected medium"
  | visualMaterial => "Visual material"

def abbreviation : FormatFacet → String
  | archivalItem => "Archival"
  | audio => "Audio"
  | book => "Book"
  | coin => "Coin"
  | dataFile => "Data file"
  | databases => "Database"
  | journal => "Journal"
  | manuscript => "Manuscript"
  | map => "Map"
  | microform => "Microform"
  | musicalScore => "Music Score"
  | report => "Report"
  | seniorThesis => "Thesis"
  | videoProjectedMedium => "Video"
  | visualMaterial => "Image"

end FormatFacet

/-- The formats in the order in which one of them is chosen. -/
def displayPriority : List FormatFacet :=
  [.microform, .manuscript, .dataFile, .musicalScore, .seniorThesis, .archivalItem,
    .videoProjectedMedium, .visualMaterial, .map, .report, .coin, .databases, .audio, .book,
    .journal]

def displayFormat (formats : List String) : String :=
  ((displayPriority.find? (·.toText ∈ formats)).map (·.abbreviation)).getD ""

section Record

variable (r : Record)

inductive TypeOfRecord
  | languageMaterial
  | notatedMusic
  | manuscriptNotatedMusic
  | cartographicMaterial
  | manuscriptCartographicMaterial
  | projectedMedium
  | nonmusicalSoundRecording
  | musicalSoundRecording
  | twoDimensionalNonProjectableGraphic
  | computerFile
  | kit
  | mixedMaterials
  | threeDimensionalArtifactOrNaturallyOcurringObject
  | manuscriptLanguageMaterial
  deriving DecidableEq

def TypeOfRecord.ofChar : Char → Option TypeOfRecord
  | 'a' => some languageMaterial
  | 'c' => some notatedMusic
  | 'd' => some manuscriptNotatedMusic
  | 'e' => some cartographicMaterial
  | 'f' => some manuscriptCartographicMaterial
  | 'g' => some projectedMedium
  | 'i' => some nonmusicalSoundRecording
  | 'j' => some musicalSoundRecording
  | 'k' => some twoDimensionalNonProjectableGraphic
  | 'm' => some computerFile
  | 'o' => some kit
  | 'p' => some mixedMaterials
  | 'r' => some threeDimensionalArtifactOrNaturallyOcurringObject
  | 't' => some manuscriptLanguageMaterial
  | _ => none

def typeOfRecord : Option TypeOfRecord := r.leader.toList[6]?.bind TypeOfRecord.ofChar

inductive BibliographicLevel
  | monographicComponentPart
  | serialComponentPart
  | collection
  | subunit
  | integratingResource
  | monographItem
  | serial
  deriving DecidableEq

def BibliographicLevel.ofChar : Char → Option BibliographicLevel
  | 'a' => some monographicComponentPart
  | 'b' => some serialComponentPart
  | 'c' => some collection
  | 'd' => some subunit
  | 'i' => some integratingResource
  | 'm' => some monographItem
  | 's' => some serial
  | _ => none

def bibliographicLevel : Option BibliographicLevel :=
  r.leader.toList[7]?.bind BibliographicLevel.ofChar

def isMonograph : Bool :=
  match bibliographicLevel r with
  | some .monographicComponentPart | some .serialComponentPart | some .collection
  | some .subunit | some .monographItem => true
  | _ => false

def isPrincetonFindingAid : Bool := (r.getFieldValues "035" 'a').any (startsWith · "(PULFA)")

def usesArchivalDescription : Bool :=
  (r.getFieldValues "040" 'e').all fun code => trim code ∈ ["appm", "dacs"]

def isMicroform : Bool :=
  (r.controlFields.filter (·.tag = "007")).any (·.content.toList.head? = some 'h')

/-- Whether the record has this facet, for those that `format_facets` gives. -/
def includesFacet : FormatFacet → Bool
  | .journal => typeOfRecord r = some .languageMaterial && bibliographicLevel r = some .serial
  | .dataFile => typeOfRecord r = some .computerFile
  | .visualMaterial =>
    typeOfRecord r ∈ [some .twoDimensionalNonProjectableGraphic,
      some .threeDimensionalArtifactOrNaturallyOcurringObject, some .kit]
  | .videoProjectedMedium => typeOfRecord r = some .projectedMedium
  | .musicalScore => typeOfRecord r ∈ [some .notatedMusic, some .manuscriptNotatedMusic]
  | .audio => typeOfRecord r ∈ [some .musicalSoundRecording, some .nonmusicalSoundRecording]
  | .map => typeOfRecord r ∈ [some .cartographicMaterial, some .manuscriptCartographicMaterial]
  | .manuscript =>
    typeOfRecord r ∈ [some .manuscriptCartographicMaterial, some .manuscriptLanguageMaterial,
      some .manuscriptNotatedMusic, some .mixedMaterials]
  | .book =>
    typeOfRecord r = some .manuscriptLanguageMaterial && !isPrincetonFindingAid r
      || typeOfRecord r = some .languageMaterial && isMonograph r
  | .databases =>
    typeOfRecord r = some .languageMaterial && bibliographicLevel r = some .integratingResource
  | .archivalItem =>
    typeOfRecord r = some .manuscriptLanguageMaterial && bibliographicLevel r = some .monographItem
      && isPrincetonFindingAid r && usesArchivalDescription r
  | .microform => isMicroform r
  | .coin | .report | .seniorThesis => false

def formatFacets : List FormatFacet :=
  [.journal, .dataFile, .visualMaterial, .videoProjectedMedium, .musicalScore, .audio, .map,
    .manuscript, .book, .databases, .archivalItem, .microform].filter (includesFacet r)

def formats : List String := (formatFacets r).map (·.toText)

end Record

/-- The formats are read from the leader, the control fields, `035` and `040`. -/
theorem formats_congr {r r' : Record} (hleader : r.leader = r'.leader)
    (hcontrol : r.controlFields = r'.controlFields)
    (h : ∀ tag ∈ ["035", "040"], r.getFields tag = r'.getFields tag) :
    formats r = formats r' := by
  have htype : typeOfRecord r = typeOfRecord r' := by rw [typeOfRecord, typeOfRecord, hleader]
  have hlevel : bibliographicLevel r = bibliographicLevel r' := by
    rw [bibliographicLevel, bibliographicLevel, hleader]
  have hmicroform : isMicroform r = isMicroform r' := by rw [isMicroform, isMicroform, hcontrol]
  have haid : isPrincetonFindingAid r = isPrincetonFindingAid r' := by
    rw [isPrincetonFindingAid, isPrincetonFindingAid, Record.getFieldValues,
      Record.getFieldValues, h "035" (by simp)]
  have harchival : usesArchivalDescription r = usesArchivalDescription r' := by
    rw [usesArchivalDescription, usesArchivalDescription, Record.getFieldValues,
      Record.getFieldValues, h "040" (by simp)]
  have hsame : ∀ facet, includesFacet r facet = includesFacet r' facet := by
    intro facet
    cases facet <;>
      simp [includesFacet, isMonograph, htype, hlevel, hmicroform, haid, harchival]
  unfold formats formatFacets
  rw [show includesFacet r = includesFacet r' from funext hsame]

end Bibdata
