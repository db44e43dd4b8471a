import Mathlib.Algebra.Group.Int.Defs
import Bibdata.DataspaceDocument
import Bibdata.AuthorizedNames
import Bibdata.SolrDocument
import Bibdata.SerdeJson

/-!
# The Solr document of a thesis

Whether a thesis is under embargo, where it can be read, and what its Solr document says of both.
The two modules for documents of Dataspace normalize them by the same functions.
-/

namespace Bibdata

/-- What is called in other packages. A date may be well formed and too far away to be a `Zoned`. -/
structure ThesisPackages where
  Zoned : Type
  parseDatetime : String → Option (Option Zoned)
  timestamp : Zoned → ℤ
  now : ℤ
  strftime : Zoned → String
  languageName : String → Option String
  toLowercase : String → String
  isAlphanumeric : Char → Bool
  serde : SerdeJson

variable (env : ThesisPackages)

section Embargo

inductive Embargo
  | none
  | current (text : String)
  | expired
  | invalid
  deriving DecidableEq

def rawEmbargoDate (liftDates termsDates : Option (List String)) : Option String :=
  (liftDates.getD [] ++ termsDates.getD []).head?

def parsedEmbargoDate (liftDates termsDates : Option (List String)) : Option env.Zoned :=
  (rawEmbargoDate liftDates termsDates).bind fun date => (env.parseDatetime date).join

def embargoDate (liftDates termsDates : Option (List String)) : Option String :=
  (parsedEmbargoDate env liftDates termsDates).map env.strftime

def embargoText (liftDates termsDates : Option (List String)) (docId : String) : String :=
  match embargoDate env liftDates termsDates with
  | some date =>
    "This content is embargoed until " ++ date ++ ". For more information contact the "
      ++ "<a href=\"mailto:dspadmin@princeton.edu?subject=Regarding embargoed DataSpace Item 88435/"
      ++ docId ++ "\">Mudd Manuscript Library</a>."
  | none => ""

/-- The statement when the date cannot be parsed. -/
def undatedEmbargoText (docId : String) : String :=
  "This content is currently under embargo. For more information contact the "
    ++ "<a href=\"mailto:dspadmin@princeton.edu?subject=Regarding embargoed DataSpace Item 88435/"
    ++ docId ++ "\"> Mudd Manuscript Library</a>."

def Embargo.fromDates (liftDates termsDates : Option (List String)) (docId : String) : Embargo :=
  match rawEmbargoDate liftDates termsDates with
  | some date =>
    match env.parseDatetime date with
    | some parsed =>
      if parsed.any fun zoned => env.now < env.timestamp zoned then
        .current (embargoText env liftDates termsDates docId)
      else .expired
    | .none => .invalid
  | .none => .none

end Embargo

section Holdings

def callNumber (nonArkIds : Option (List String)) : String :=
  match nonArkIds.bind List.head? with
  | some id => "AC102 " ++ id
  | none => "AC102"

def onlineHoldingString (nonArkIds : Option (List String)) : Option String :=
  some (env.serde.toString (.obj [("thesis", .obj [
    ("call_number", .str (callNumber nonArkIds)),
    ("call_number_browse", .str (callNumber nonArkIds)),
    ("dspace", .bool true)])]))

def physicalHoldingString (nonArkIds : Option (List String)) : Option String :=
  some (env.serde.toString (.obj [("thesis", .obj [
    ("location", .str "Mudd Manuscript Library"),
    ("library", .str "Mudd Manuscript Library"),
    ("location_code", .str "mudd$stacks"),
    ("call_number", .str (callNumber nonArkIds)),
    ("call_number_browse", .str (callNumber nonArkIds)),
    ("dspace", .bool true)])]))

/-- There is no physical copy since 2013. -/
def physicalClassYear (classYears : List String) : Bool :=
  match classYears.head? with
  | some year => year < "2013"
  | none => false

inductive ThesisAvailability
  | availableOffSite
  | onSiteOnly
  deriving DecidableEq

def onSiteOnly (location accessRights muddWalkin : Bool) (classYear : List String)
    (embargo : Embargo) : ThesisAvailability :=
  match embargo with
  | .current _ => .onSiteOnly
  | _ =>
    if !physicalClassYear classYear then .availableOffSite
    else if location || accessRights || muddWalkin then .onSiteOnly
    else .availableOffSite

def dataspaceUrlWithMetadata (identifierUri : Option (List String))
    (location accessRights muddWalkin : Bool) (classYear : List String) (embargo : Embargo) :
    Option ElectronicAccess :=
  (identifierUri.bind List.head?).map fun firstArk =>
    { url := firstArk
      linkText := "Thesis Central"
      linkDescription :=
        match onSiteOnly location accessRights muddWalkin classYear embargo with
        | .onSiteOnly => some "Citation only"
        | .availableOffSite => some "Full text"
      iiifManifestPaths := none }

end Holdings

section Text

/-- Up to the `\)` on the same line. -/
def latexEnd : List Char → Option (List Char × List Char)
  | [] => none
  | '\\' :: ')' :: cs => some ([], cs)
  | c :: cs =>
    if c = '\n' then none else (latexEnd cs).map fun (inside, rest) => (c :: inside, rest)

/-- The regular expression replaced from left to right, over as many characters as there are. -/
def replaceLatex : ℕ → List Char → List Char
  | n + 1, '\\' :: '(' :: cs =>
    match latexEnd cs with
    | some (inside, rest) =>
      ('\\' :: '(' :: inside ++ ['\\', ')']).filter env.isAlphanumeric ++ replaceLatex n rest
    | none => '\\' :: replaceLatex n ('(' :: cs)
  | n + 1, c :: cs => c :: replaceLatex n cs
  | _, cs => cs

def normalizeLatex (original : String) : String :=
  String.ofList (replaceLatex env original.length original.toList)

def trimStartMatches (pattern : List Char) : ℕ → List Char → List Char
  | n + 1, cs =>
    if pattern.isPrefixOf cs then trimStartMatches pattern n (cs.drop pattern.length) else cs
  | 0, cs => cs

def isAsciiPunctuation (c : Char) : Bool :=
  33 ≤ c.toNat && c.toNat ≤ 47 || 58 ≤ c.toNat && c.toNat ≤ 64 || 91 ≤ c.toNat && c.toNat ≤ 96
    || 123 ≤ c.toNat && c.toNat ≤ 126

def titleSortKey (titles : Option (List String)) : Option String :=
  (titles.bind List.head?).map fun first =>
    let lower := (env.toLowercase first).toList.filter fun c => !isAsciiPunctuation c
    let trimmed := ["a ", "an ", "the "].foldl
      (fun cs article => trimStartMatches article.toList cs.length cs) lower
    String.ofList (trimmed.filter fun c => !isSpace c)

/-- `parse::<i16>`. -/
def parseI16 (s : String) : Option Int16 :=
  let (negative, digits) := match s.toList with
    | '-' :: cs => (true, cs)
    | '+' :: cs => (false, cs)
    | cs => (false, cs)
  let n : ℤ := if negative then -Nat.ofDigitChars 10 digits 0 else Nat.ofDigitChars 10 digits 0
  if digits ≠ [] ∧ digits.all Char.isDigit ∧ -2 ^ 15 ≤ n ∧ n < 2 ^ 15 then some (Int16.ofInt n)
  else none

def englishName (code : String) : String :=
  (env.languageName (String.ofList (code.toList.takeWhile (· ≠ '-')))).getD "English"

def codesToEnglishNames (codes : Option (List String)) : List String :=
  let names := ((codes.getD []).map (englishName env)).eraseDups
  if names ≠ [] then names else ["English"]

end Text

namespace DataspaceDocument

variable (doc : DataspaceDocument)

def embargo : Embargo :=
  .fromDates env (doc.values .embargoLift) (doc.values .embargoTerms) (doc.id.getD "")

def walkinIsYes : Bool := (doc.values .muddWalkin).bind List.head? = some "yes"

def availability : ThesisAvailability :=
  onSiteOnly (doc.values .location).isSome (doc.values .rightsAccessRights).isSome doc.walkinIsYes
    ((doc.values .dateClassyear).getD []) (doc.embargo env)

def accessFacet : Option AccessFacet :=
  match doc.embargo env, doc.availability env with
  | .current _, _ => none
  | _, .availableOffSite => some .online
  | _, .onSiteOnly => some .inTheLibrary

def advancedLocation : Option (List String) :=
  match doc.availability env with
  | .onSiteOnly => some ["mudd$stacks", "Mudd Manuscript Library"]
  | _ => none

def allAuthors : List String :=
  (doc.values .contributorAuthor).getD [] ++ (doc.values .contributorAdvisor).getD []
    ++ (doc.values .contributor).getD []
    ++ ((doc.values .department).getD []).filterMap mapDepartment
    ++ ((doc.values .certificate).getD []).filterMap mapProgram

def arkHash : Option ElectronicAccess :=
  dataspaceUrlWithMetadata (doc.values .identifierUri) (doc.values .location).isSome
    (doc.values .rightsAccessRights).isSome doc.walkinIsYes ((doc.values .dateClassyear).getD [])
    (doc.embargo env)

def authorizedCertificates : Option (List String) :=
  (doc.values .certificate).map (·.filterMap mapProgram)

def authorizedDepartments : Option (List String) :=
  (doc.values .department).map (·.filterMap mapDepartment)

def classYear : Option Int16 := (((doc.values .dateClassyear).getD []).head?).bind parseI16

def location : Option LibraryFacet :=
  match doc.availability env with
  | .onSiteOnly => some .mudd
  | _ => none

def locationDisplay : Option String :=
  match doc.availability env with
  | .onSiteOnly => some "Mudd Manuscript Library"
  | _ => none

def locationCode : Option String :=
  match doc.availability env with
  | .onSiteOnly => some "mudd$stacks"
  | _ => none

def onlinePortfolioStatements : Option String :=
  match doc.availability env, doc.embargo env with
  | .onSiteOnly, _ => none
  | _, .current _ => none
  | _, _ => onlineHoldingString env (doc.values .identifierOther)

def physicalHoldings : Option String :=
  match doc.availability env with
  | .availableOffSite => none
  | .onSiteOnly => physicalHoldingString env (doc.values .identifierOther)

def walkinNote : String :=
  "Walk-in Access. This thesis can only be viewed on computer terminals at the "
    ++ "'<a href=\"http://mudd.princeton.edu\">Mudd Manuscript Library</a>."

def undatedEmbargoNote : String := undatedEmbargoText (doc.id.getD "")

def restrictionsNoteDisplay : Option (List String) :=
  match doc.values .rightsAccessRights with
  | some rights => rights.head?.map fun s => [s]
  | none =>
    if doc.walkinIsYes then some [walkinNote]
    else
      match doc.embargo env with
      | .current text => some [text]
      | .none => none
      | .expired => none
      | .invalid => some [doc.undatedEmbargoNote]

def firstTitle : Option String := (doc.values .title).bind List.head?

def titleSearchVersions : Option (List String) :=
  doc.firstTitle.map fun title => [title, normalizeLatex env title].eraseDups

end DataspaceDocument

/-- `From<&DataspaceDocument>`, the same for both kinds of documents. -/
def SolrDocument.ofDataspace (doc : DataspaceDocument) : SolrDocument where
  id := doc.id.getD ""
  accessFacet := doc.accessFacet env
  advancedLocationS := doc.advancedLocation env
  authorCitationDisplay := doc.values .contributorAuthor
  advisorDisplay := doc.values .contributorAdvisor
  authorDisplay := doc.values .contributorAuthor
  authorS := some doc.allAuthors
  authorSortKey := (doc.values .contributorAuthor).bind List.head?
  callNumberBrowseS := callNumber (doc.values .identifierOther)
  callNumberDisplay := callNumber (doc.values .identifierOther)
  certificateDisplay := doc.authorizedCertificates
  contributorDisplay := doc.values .contributor
  departmentDisplay := doc.authorizedDepartments
  format := some [.seniorThesis]
  holdings1display := doc.physicalHoldings env
  location := doc.location env
  locationCodeS := doc.locationCode env
  locationDisplay := doc.locationDisplay env
  electronicAccess1display := doc.arkHash env
  restrictionsNoteDisplay := doc.restrictionsNoteDisplay env
  titleCitationDisplay := doc.firstTitle
  titleDisplay := doc.firstTitle
  titleSortKey := Bibdata.titleSortKey env (doc.values .title)
  titleT := doc.titleSearchVersions env
  languageFacet := codesToEnglishNames env (doc.values .languageIso)
  languageNameDisplay := codesToEnglishNames env (doc.values .languageIso)
  classYearS := doc.classYear.map fun year => [year]
  pubCitationDisplay := some (doc.authorizedDepartments.getD [])
  pubDateStartSort := doc.classYear
  pubDateEndSort := doc.classYear
  descriptionDisplay := doc.values .formatExtent
  summaryNoteDisplay := doc.values .descriptionAbstract

end Bibdata
