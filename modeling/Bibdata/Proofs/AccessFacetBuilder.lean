import Bibdata.AccessFacetBuilder
import Bibdata.Library.AnyOrder
import Mathlib.Data.List.ReduceOption

/-!
# Which link counts

The facet is of two values at most, each there once. `Online` is there for what other rules have
found, or else for the first link: so without them the order of the links matters as soon as one of
them is online and one is not (`answersInAnyOrder_iff`).
-/

namespace Bibdata

namespace AccessFacetBuilder

section Facet

variable {b : AccessFacetBuilder}

/-- A link to the resource or a version of it. -/
def LinksOnline (r : Record) : Prop :=
  ∃ field ∈ r.fields, field.tag = "856" ∧ indicatesOnline field.ind2 = true

/-- Another rule has found something online. -/
def FoundOnline (context : Context) : Prop :=
  context.present "electronic_portfolio_s" = true ∨ context.present "figgy_1display" = true

/-- What the facet says, however the fields of the record are ordered. -/
structure AnswersInAnyOrder (b : AccessFacetBuilder) : Prop where
  permuted : ∀ fields : List Field, fields.Perm b.record.fields →
    build ⟨{ b.record with fields := fields }, b.context⟩ = b.build
  online : "Online" ∈ b.build ↔ FoundOnline b.context ∨ LinksOnline b.record
  inLibrary : "In the Library" ∈ b.build ↔ b.context.present "location_code_s" = true
  values : ∀ value ∈ b.build, value ∈ ["Online", "In the Library"]
  once : b.build.Nodup

def linkIndicator (field : Field) : Option String :=
  if field.tag = "856" then some field.ind2 else none

def firstIndicates (fields : List Field) : Bool :=
  (fields.filterMap linkIndicator).head?.any indicatesOnline

theorem mem_linkIndicators {fields : List Field} {indicator : String} :
    indicator ∈ fields.filterMap linkIndicator
      ↔ ∃ field ∈ fields, field.tag = "856" ∧ field.ind2 = indicator := by
  simp only [List.mem_filterMap, linkIndicator]
  refine exists_congr fun field => and_congr_right fun _ => ?_
  split_ifs with htag <;> simp [htag]

theorem marcIndicator_eq :
    b.marcIndicator = if firstIndicates b.record.fields then some "Online" else none := by
  have hfirst : (b.record.fields.find? (·.tag = "856")).map (·.ind2)
      = (b.record.fields.filterMap linkIndicator).head? := by
    induction b.record.fields with
    | nil => rfl
    | cons field fields ih =>
      by_cases htag : field.tag = "856"
      · simp [htag, linkIndicator]
      · simp [htag, linkIndicator, ih]
  rw [marcIndicator, firstIndicates, ← hfirst]

/-- The facet by the four answers that it is made from. -/
def facet (portfolio library link figgy : Bool) : List String :=
  [if portfolio then some "Online" else none, if library then some "In the Library" else none,
    if link then some "Online" else none,
    if figgy then some "Online" else none].eraseDups.reduceOption

theorem build_eq :
    b.build = facet (b.context.present "electronic_portfolio_s")
      (b.context.present "location_code_s") (firstIndicates b.record.fields)
      (b.context.present "figgy_1display") := by
  rw [build, electronicPortfolio, AccessFacetBuilder.inLibrary, marcIndicator_eq,
    digitizedInFiggy, facet]

theorem online_mem_facet : ∀ portfolio library link figgy : Bool,
    "Online" ∈ facet portfolio library link figgy
      ↔ (portfolio = true ∨ figgy = true) ∨ link = true := by
  decide

theorem inLibrary_mem_facet : ∀ portfolio library link figgy : Bool,
    "In the Library" ∈ facet portfolio library link figgy ↔ library = true := by
  decide

theorem facet_values : ∀ portfolio library link figgy : Bool,
    (∀ value ∈ facet portfolio library link figgy, value ∈ ["Online", "In the Library"])
      ∧ (facet portfolio library link figgy).Nodup := by
  decide

theorem facet_eq_of_found : ∀ portfolio library link link' figgy : Bool,
    portfolio = true ∨ figgy = true →
      facet portfolio library link figgy = facet portfolio library link' figgy := by
  decide

end Facet

section Links

variable {b : AccessFacetBuilder}

/-- All links say the same of being online. -/
def LinksAgree (r : Record) : Prop :=
  ∀ field ∈ r.fields, ∀ other ∈ r.fields, field.tag = "856" → other.tag = "856" →
    indicatesOnline field.ind2 = indicatesOnline other.ind2

theorem linksAgree_iff (r : Record) :
    LinksAgree r ↔ ∀ fields : List Field, fields.Perm r.fields →
      firstIndicates fields = firstIndicates r.fields := by
  have halike : (∀ fields : List Field, fields.Perm r.fields →
      firstIndicates fields = firstIndicates r.fields)
        ↔ ∀ y ∈ r.fields.filterMap linkIndicator, ∀ z ∈ r.fields.filterMap linkIndicator,
          indicatesOnline y = indicatesOnline z :=
    AnyOrder.first_alike_iff indicatesOnline
  rw [halike]
  simp only [mem_linkIndicators]
  constructor
  · rintro h _ ⟨field, hfield, htag, rfl⟩ _ ⟨other, hother, htag', rfl⟩
    exact h field hfield other hother htag htag'
  · intro h field hfield other hother htag htag'
    exact h _ ⟨field, hfield, htag, rfl⟩ _ ⟨other, hother, htag', rfl⟩

theorem firstIndicates_iff {r : Record} (h : LinksAgree r) :
    firstIndicates r.fields = true ↔ LinksOnline r := by
  constructor
  · intro hfirst
    obtain ⟨y, hy, honline⟩ := (Option.any_eq_true _ _).1 hfirst
    obtain ⟨field, hfield, htag, rfl⟩ := mem_linkIndicators.1 (List.mem_of_head? hy)
    exact ⟨field, hfield, htag, honline⟩
  · rintro ⟨field, hfield, htag, honline⟩
    have hmem := mem_linkIndicators.2 ⟨field, hfield, htag, rfl⟩
    rcases hlinks : r.fields.filterMap linkIndicator with _ | ⟨y, rest⟩
    · rw [hlinks] at hmem
      cases hmem
    · have hy : y ∈ r.fields.filterMap linkIndicator := hlinks ▸ List.mem_cons_self
      obtain ⟨first, hmemFirst, htagFirst, rfl⟩ := mem_linkIndicators.1 hy
      rw [firstIndicates, hlinks, List.head?_cons, Option.any_some, ← honline]
      exact h first hmemFirst field hfield htagFirst htag

theorem online_mem_build :
    "Online" ∈ b.build ↔ FoundOnline b.context ∨ firstIndicates b.record.fields = true := by
  rw [build_eq, online_mem_facet, FoundOnline]

theorem answersInAnyOrder_iff (b : AccessFacetBuilder) :
    AnswersInAnyOrder b ↔ FoundOnline b.context ∨ LinksAgree b.record := by
  constructor
  · intro h
    by_cases hfound : FoundOnline b.context
    · exact .inl hfound
    · refine .inr ((linksAgree_iff b.record).2 fun fields hperm => ?_)
      have hmem : "Online" ∈ build ⟨{ b.record with fields := fields }, b.context⟩
          ↔ "Online" ∈ b.build := by rw [h.permuted fields hperm]
      rw [online_mem_build, online_mem_build] at hmem
      simp only [hfound, false_or] at hmem
      rwa [Bool.eq_iff_iff]
  · intro h
    obtain ⟨hvalues, honce⟩ := facet_values (b.context.present "electronic_portfolio_s")
      (b.context.present "location_code_s") (firstIndicates b.record.fields)
      (b.context.present "figgy_1display")
    rw [← build_eq] at hvalues honce
    refine ⟨fun fields hperm => ?_, ?_, by rw [build_eq, inLibrary_mem_facet], hvalues, honce⟩
    · rw [build_eq, build_eq]
      rcases h with hfound | hagree
      · exact facet_eq_of_found _ _ _ _ _ hfound
      · rw [(linksAgree_iff b.record).1 hagree fields hperm]
    · rw [online_mem_build]
      rcases h with hfound | hagree
      · simp only [hfound, true_or]
      · rw [firstIndicates_iff hagree]

/-- A link to a related resource comes before the one to the resource. -/
def relatedFirst : Record :=
  ⟨[], [⟨"856", [⟨'u', "https://example.com/findingaid"⟩], "2"⟩,
    ⟨"856", [⟨'u', "https://example.com/book"⟩], "0"⟩], ""⟩

theorem not_answersInAnyOrder_relatedFirst : ¬AnswersInAnyOrder ⟨relatedFirst, ⟨{}⟩⟩ := by
  intro h
  have honline := h.online.2
    (.inr ⟨⟨"856", [⟨'u', "https://example.com/book"⟩], "0"⟩, by simp [relatedFirst], rfl,
      by decide⟩)
  exact absurd honline (by decide)

end Links

end AccessFacetBuilder

end Bibdata
