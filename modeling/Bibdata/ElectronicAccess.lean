import Bibdata.PartnerHoldings

/-!
# Electronic access

The links that a record has in its `856`s. Those with a `$0` are collected by holding, the others
by URL; all that was collected is gone through again after each field. The links of the holdings
go along with the others in `electronic_access_1display`, until they are moved into
`holdings_1display`.
-/

namespace Bibdata

/-- A URL after `url` has normalized it; it has a scheme. -/
structure NormalUrl where
  key : String
  host : Option String
  colon : ':' ∈ key.toList := by decide
  deriving DecidableEq

namespace URI.ARK

def arkRegex (url : String) : Bool :=
  url.toList.tails.any fun scheme =>
    "://".toList <+: scheme && (((scheme.drop 3).takeWhile (· ≠ '\n')).drop 1).tails.any fun ark =>
      "/ark:/".toList <+: ark && (ark.drop 7).tails.any fun name =>
        match name with
        | '/' :: _ :: _ => true
        | _ => false

def princetonArkRegex (url : String) : Bool :=
  url.toList.tails.any fun
    | c :: ark => (c = '/' || c = '?') && "ark:/88435/".toList <+: ark
        && (ark.drop 11).head?.any (· ≠ '\n')
    | [] => false

def princetonArk (url : String) : Bool :=
  !startsWith url "http:http:" && princetonArkRegex url && arkRegex url

end URI.ARK

/-- `OrangelightUrlBuilder`, for the id that an ARK has in the catalog. -/
def orangelightUrl (fragment bibId : String) : String :=
  "https://catalog.princeton.edu/catalog/" ++ bibId ++ "#" ++ fragment

/-- What is asked of others: URL parsing, the Figgy report, the extractor for `856`. A catalog URL
is parsed as it stands, and each `856` is extracted. -/
structure LinkServices where
  url : String → Option NormalUrl
  mmsId : NormalUrl → Option String
  manifestUrl : NormalUrl → Option String
  extracts : Field → Bool
  url_orangelight : ∀ ark id fragment, mmsId ark = some id →
    (url (orangelightUrl fragment id)).map (·.key) = some (orangelightUrl fragment id)
  extracts_856 : ∀ field, field.tag = "856" → extracts field = true

/-- `url` is that of the `url_key`, which is dropped if it has none. -/
structure ElectronicAccessLink where
  holdingId : Option String
  url : Option NormalUrl
  zLabel : Option String
  anchorText : Option String
  deriving DecidableEq

abbrev Labels := List (Option String)

namespace ElectronicAccessLink

variable (services : LinkServices)

def new (holdingId urlKey zLabel anchorText : Option String) : ElectronicAccessLink :=
  let url := urlKey.bind services.url
  { holdingId, url, zLabel
    anchorText :=
      match url.bind (·.host) with
      | some host => if present anchorText then anchorText else some host
      | none => anchorText }

variable (link : ElectronicAccessLink)

def urlKey : Option String := link.url.map (·.key)

def urlLabels : Labels := link.anchorText :: (link.zLabel.map some).toList

/-- The ARK is read off the URL. -/
def ark : Option NormalUrl := link.url.filter fun url => URI.ARK.princetonArk url.key

end ElectronicAccessLink

namespace ElectronicAccessLinkFactory

def lastValue (field : Field) (code : Char) : Option String :=
  (field.subfields.filter (·.code = code)).getLast?.map (·.content)

def anchorText (s : Subfield) : String := if s.code = 'y' || s.code = '3' then s.content else ""

/-- The texts that are not blank, the first of them twice where there are more. -/
def joinTexts : List String → Option String
  | [] => none
  | text :: texts => some (texts.foldl (fun u v => u ++ (u ++ ": " ++ v)) text)

def build (services : LinkServices) (field : Field) : ElectronicAccessLink :=
  let anchorTexts := (field.subfields.map anchorText).filter (!blank ·)
  .new services (lastValue field '0') (lastValue field 'u') (lastValue field 'z')
    (joinTexts anchorTexts <|> field.subfields.getLast?.map anchorText)

end ElectronicAccessLinkFactory

/-- `{ url_key => url_labels }`. -/
structure HoldingLink where
  urlKey : Option String
  labels : Labels
  deriving DecidableEq

/-- A value of the hash that `electronic_access_links` returns. -/
inductive AccessValue
  | labels (labels : Labels)
  | holdings (holding856s : OrderedHash String HoldingLink)
  | manifests (paths : OrderedHash (Option String) String)

structure AccessLinks where
  solrFieldValues : OrderedHash String AccessValue := {}
  holding856s : OrderedHash String HoldingLink := {}
  iiifManifestPaths : OrderedHash (Option String) String := {}
  output : List ElectronicAccessLink := []
  fragmentIndex : ℕ := 0

section Links

variable (services : LinkServices)

def fragmentValue (fragmentIndex : ℕ) : String :=
  if fragmentIndex = 0 then "view" else "view_" ++ toString fragmentIndex

/-- What is put out for a link: for an ARK of the catalog its page there. -/
def outputLink (fragmentIndex : ℕ) (link : ElectronicAccessLink) : ElectronicAccessLink :=
  match link.ark.bind services.mmsId with
  | some bibId =>
    let anchorText :=
      if link.url.bind (·.host) = link.anchorText then some "Digital content" else link.anchorText
    .new services link.holdingId (some (orangelightUrl (fragmentValue fragmentIndex) bibId))
      link.zLabel anchorText
  | none => link

def addManifest (link : ElectronicAccessLink) (paths : OrderedHash (Option String) String) :
    OrderedHash (Option String) String :=
  match link.ark.bind services.manifestUrl with
  | some manifest => paths.set link.urlKey (((services.url manifest).map (·.key)).getD "")
  | none => paths

def indexLink (s : AccessLinks) (link : ElectronicAccessLink) : AccessLinks :=
  match link.holdingId with
  | some id => { s with holding856s := s.holding856s.set id ⟨link.urlKey, link.urlLabels⟩ }
  | none =>
    match link.urlKey with
    | some key => { s with solrFieldValues := s.solrFieldValues.set key (.labels link.urlLabels) }
    | none => s

def collectField (s : AccessLinks) (field : Field) : AccessLinks :=
  let link := ElectronicAccessLinkFactory.build services field
  let s := { s with
    output := s.output ++ [outputLink services s.fragmentIndex link]
    iiifManifestPaths := addManifest services link s.iiifManifestPaths }
  let s := s.output.foldl indexLink s
  { s with fragmentIndex := s.fragmentIndex + 1 }

variable (r : Record)

/-- The lines of the record that are gone through. -/
def lines856 : List Field := r.fields.filter services.extracts

def electronicAccessLinks : OrderedHash String AccessValue :=
  let s := (lines856 services r).foldl (collectField services) {}
  let values := s.solrFieldValues
  let values :=
    if s.holding856s.entries.isEmpty then values
    else values.set "holding_record_856s" (.holdings s.holding856s)
  if s.iiifManifestPaths.entries.isEmpty then values
  else values.set "iiif_manifest_paths" (.manifests s.iiifManifestPaths)

def electronicAccess1display : Option (OrderedHash String AccessValue) :=
  let links := electronicAccessLinks services r
  if links.entries.isEmpty then none else some links

end Links

section Holdings

/-- A holding in `holdings_1display`, of a Princeton record or of a partner's. -/
inductive DisplayHolding
  | alma (holding : Holding Item)
  | partner (holding : PartnerHolding)

variable (toLowercase : String → String) (labels : HoldingLocations) (r : Record)

/-- `none` where it raises; a record without holdings has no such field. -/
def holdings1display : Option (Option (OrderedHash String DisplayHolding)) :=
  if isScsb r then
    (partnerHoldings toLowercase labels r).map fun holdings =>
      if holdings.isEmpty then none
      else some (.ofList (holdings.map fun h => (h.holdingId, .partner h)))
  else
    (processHoldings labels buildItem r).map fun holdings =>
      if holdings.entries.isEmpty then none
      else some (.ofList (holdings.entries.map fun e => (e.1.getD "", .alma e.2)))

end Holdings

section Merge

variable {η : Type*}

/-- A holding with its `electronic_access`. -/
structure HoldingDisplay (η : Type*) where
  holding : η
  electronicAccess : Option HoldingLink := none

/-- `none` where there is no such holding. -/
def addElectronicAccess (holdings : OrderedHash String (HoldingDisplay η))
    (e : String × HoldingLink) : Option (OrderedHash String (HoldingDisplay η)) :=
  (holdings.get e.1).map fun h => holdings.set e.1 { h with electronicAccess := some e.2 }

/-- `electronic_access_1display` and `holdings_1display`. -/
structure Display (η : Type*) where
  electronicAccess : Option (OrderedHash String AccessValue)
  holdings : Option (OrderedHash String (HoldingDisplay η))

/-- The final merge; `none` where it raises. -/
def mergeHolding856s (electronicAccess : Option (OrderedHash String AccessValue))
    (holdings : Option (OrderedHash String η)) : Option (Display η) :=
  let holdings := holdings.map (·.mapValues (⟨·, none⟩))
  match electronicAccess with
  | none => some ⟨none, holdings⟩
  | some bib856s =>
    match bib856s.get "holding_record_856s" with
    | some (.holdings holding856s) =>
      holdings.bind fun holdingsHash =>
        (holding856s.entries.foldlM addElectronicAccess holdingsHash).map fun merged =>
          ⟨some (bib856s.erase "holding_record_856s"), some merged⟩
    | _ => some ⟨some bib856s, holdings⟩

end Merge

/-- The two fields of a record after indexing; `none` where that raises. -/
def indexElectronicAccess (services : LinkServices) (toLowercase : String → String)
    (labels : HoldingLocations) (r : Record) : Option (Display DisplayHolding) :=
  (holdings1display toLowercase labels r).bind
    (mergeHolding856s (electronicAccess1display services r))

end Bibdata
