import Bibdata.IndigenousStudies
import Bibdata.Genre

/-!
# Primary sources

A term indicates a primary source when it contains one of the listed terms: both are cut at every
character that is neither a letter nor a number, and the pieces of the one are to be a window of
the other's.
-/

namespace Bibdata

section Comparable

structure ComparableTerm where
  words : List String

variable (isAlphanumeric : Char → Bool) (toLowercase : String → String)

def ComparableTerm.ofString (value : String) : ComparableTerm :=
  ⟨(value.toList.splitOnP fun c => !isAlphanumeric c).map fun part =>
    toLowercase (String.ofList part)⟩

def ComparableTerm.contains (term part : ComparableTerm) : Bool :=
  containsSubslice term.words part.words

def primarySourceGenres : List String :=
  ["atlases", "charters", "correspondence", "diaries", "documents", "interview", "interviews",
   "letters", "manuscripts", "maps", "notebooks, sketchbooks, etc", "oral history", "pamphlets",
   "personal narratives", "photographs", "pictorial works", "sources", "speeches", "statistics"]

def doesLcshGenreTermIndicatePrimarySource (value : String) : Bool :=
  (primarySourceGenres.map (ComparableTerm.ofString isAlphanumeric toLowercase)).any
    (ComparableTerm.ofString isAlphanumeric toLowercase value).contains

def primarySourceLcgftGenres : List String :=
  ["Primary sources", "Call documents", "Charters and articles of incorporation",
   "Church covenants", "Church orders", "Codes (Jewish law)", "Codices (Law)",
   "Collective labor agreements", "Commercial arbitration agreements", "Concordats", "Consilia",
   "Constitutional amendments", "Constitutions", "Contracts", "Cooperative agreements",
   "Court decisions and opinions", "Court rules", "Coutumes", "Customary laws", "Custumals",
   "Deeds", "Executive orders", "Fatwas", "Indulgences (Canon law)",
   "Intergovernmental agreements", "Legal instruments", "Legal memorandums", "Legal petitions",
   "Legislative materials", "Messages (Official communications)", "Monastic constitutions",
   "Monastic rules", "Official gazettes", "Papal documents", "Papal encyclicals", "Patents",
   "Privileges and immunities", "Proclamations", "Records (Documents)", "Records and briefs",
   "Registers (Lists)", "Religious inventories", "Remonstrances", "Resolutions (Law)",
   "Responsa (Jewish law)", "Session laws", "Statutes and codes",
   "Travaux préparatoires (Treaties)", "Treaties", "Trial and arbitral proceedings", "Wills",
   "Writs", "Year books (English law reports)", "Autobiographical comics",
   "Autobiographical drama", "Autobiographical films", "Autobiographical television programs",
   "Autobiographies", "Captivity narratives", "Diaries", "Personal narratives",
   "Slave narratives", "Census data", "City directories", "Data sets", "Death registers",
   "Demographic surveys", "Judicial statistics", "Medical statistics", "Statistics",
   "Vital statistics", "Field recordings", "Interviews", "Radio interviews",
   "Business correspondence", "Chirographa (Personal correspondence)", "Love letters",
   "Pastoral letters and charges", "Personal correspondence", "Manuscripts", "Atlases",
   "Cartographic materials", "Digital maps", "Early maps", "Geospatial data", "Globes",
   "Gores (Maps)", "Manuscript maps", "Mappae mundi", "Maps", "Military maps", "Mine maps",
   "Nautical charts", "Outline maps", "Physical maps", "Quadrangle maps", "Raster data",
   "Road maps", "Stick charts", "Strip maps", "Topographic maps", "Topological maps",
   "Upside-down maps", "World atlases", "World maps", "Zoning maps", "Field notes", "Notebooks",
   "Sketchbooks", "Oral histories", "Personal recordings", "Ephemera", "Tracts (Ephemera)",
   "Aerial photographs", "Aerial views", "Baby books", "Drawings", "Negatives (Photographs)",
   "Photographs", "Pictures", "Portraits", "Selfies", "Self-portraits", "Visual works",
   "Campaign speeches", "Occasional speeches", "Speeches"]

def doesLcgftGenreTermIndicatePrimarySource (value : String) : Bool :=
  (primarySourceLcgftGenres.map (ComparableTerm.ofString isAlphanumeric toLowercase)).any
    (ComparableTerm.ofString isAlphanumeric toLowercase value).contains

end Comparable

end Bibdata
