import Bibdata.Proofs.Theses

/-!
# Suffixes of language codes

A locale after `-` is cut off before the code is looked up, one after `_` is not: there the look-up
fails, and a failed look-up is English.
-/

namespace Bibdata

variable {env : ThesisPackages}

section LanguageCodes

/-- The code without what its first `-` or `_` introduces. -/
def baseCode (code : String) : String :=
  String.ofList (code.toList.takeWhile fun c => c ≠ '-' ∧ c ≠ '_')

/-- Whether a suffix is there makes no difference, to the list or to any list with one of its
codes in it. -/
structure SuffixesIgnored (env : ThesisPackages) (codes : List String) : Prop where
  removed : codesToEnglishNames env (some codes)
    = codesToEnglishNames env (some (codes.map baseCode))
  entry : ∀ code ∈ codes, ∀ before after : List String,
    codesToEnglishNames env (some (before ++ code :: after))
      = codesToEnglishNames env (some (before ++ baseCode code :: after))

/-- A `_` comes after a `-` only, or English is right anyway. -/
def KeepsLanguage (env : ThesisPackages) (code : String) : Prop :=
  '_' ∉ code.toList.takeWhile (· ≠ '-')
    ∨ (env.languageName (baseCode code)).getD "English" = "English"

theorem baseCode_eq (code : String) :
    baseCode code = String.ofList ((code.toList.takeWhile (· ≠ '-')).takeWhile (· ≠ '_')) := by
  rw [baseCode, List.takeWhile_takeWhile]
  congr 2
  funext c
  simp [and_comm]

theorem englishName_baseCode (code : String) :
    englishName env (baseCode code) = (env.languageName (baseCode code)).getD "English" := by
  have hdash : (baseCode code).toList.takeWhile (· ≠ '-') = (baseCode code).toList := by
    rw [List.takeWhile_eq_self_iff]
    intro c hc
    rw [baseCode, String.toList_ofList] at hc
    have := List.mem_takeWhile_imp hc
    simp only [decide_eq_true_eq] at this ⊢
    exact this.1
  rw [englishName, hdash, String.ofList_toList]

theorem englishName_of_underscore
    (hletters : ∀ s name, env.languageName s = some name → s.toList.all Char.isAlpha)
    {code : String} (h : '_' ∈ code.toList.takeWhile (· ≠ '-')) :
    englishName env code = "English" := by
  rw [englishName]
  rcases hname : env.languageName (String.ofList (code.toList.takeWhile (· ≠ '-')))
    with _ | name
  · rfl
  · have hall := hletters _ _ hname
    rw [String.toList_ofList, List.all_eq_true] at hall
    exact absurd (hall _ h) (by decide)

theorem englishName_alike_iff
    (hletters : ∀ s name, env.languageName s = some name → s.toList.all Char.isAlpha)
    (code : String) : englishName env code = englishName env (baseCode code)
      ↔ KeepsLanguage env code := by
  rw [KeepsLanguage, ← englishName_baseCode]
  by_cases hmem : '_' ∈ code.toList.takeWhile (· ≠ '-')
  · rw [englishName_of_underscore hletters hmem]
    simp only [hmem, not_true_eq_false, false_or]
    exact eq_comm
  · have hbase : baseCode code = String.ofList (code.toList.takeWhile (· ≠ '-')) := by
      rw [baseCode_eq, List.takeWhile_eq_self_iff.2]
      intro c hc
      simpa using ne_of_mem_of_not_mem hc hmem
    refine iff_of_true ?_ (.inl hmem)
    rw [englishName_baseCode, hbase, englishName]

theorem codesToEnglishNames_congr {codes others : List String}
    (h : codes.map (englishName env) = others.map (englishName env)) :
    codesToEnglishNames env (some codes) = codesToEnglishNames env (some others) := by
  simp only [codesToEnglishNames, Option.getD_some, h]

theorem codesToEnglishNames_singleton (code : String) :
    codesToEnglishNames env (some [code]) = [englishName env code] := by
  have hnames : [englishName env code].eraseDups = [englishName env code] := rfl
  simp [codesToEnglishNames, hnames]

theorem codesToEnglishNames_suffixes (env : ThesisPackages) (codes : List String)
    (hletters : ∀ s name, env.languageName s = some name → s.toList.all Char.isAlpha) :
    SuffixesIgnored env codes ↔ ∀ code ∈ codes, KeepsLanguage env code := by
  refine ⟨fun h code hcode => ?_, fun h => ⟨?_, fun code hcode before after => ?_⟩⟩
  · have hentry := h.entry code hcode [] []
    rw [List.nil_append, List.nil_append, codesToEnglishNames_singleton,
      codesToEnglishNames_singleton, List.singleton_inj] at hentry
    exact (englishName_alike_iff hletters code).1 hentry
  · refine codesToEnglishNames_congr ?_
    rw [List.map_map]
    exact List.map_congr_left fun code hcode =>
      (englishName_alike_iff hletters code).2 (h code hcode)
  · refine codesToEnglishNames_congr ?_
    rw [List.map_append, List.map_append, List.map_cons, List.map_cons,
      (englishName_alike_iff hletters code).2 (h code hcode)]

/-- A table with two languages in it. -/
def frenchPackages : ThesisPackages :=
  { plainPackages with
    languageName code := if code = "fr" then some "French" else if code = "en" then some "English"
      else none }

theorem frenchPackages_letters (s name : String) (h : frenchPackages.languageName s = some name) :
    s.toList.all Char.isAlpha := by
  simp only [frenchPackages] at h
  split_ifs at h with hfr hen
  · subst hfr
    decide
  · subst hen
    decide

theorem codesToEnglishNames_suffixes_fr : SuffixesIgnored frenchPackages ["fr-CA", "en_US"] :=
  (codesToEnglishNames_suffixes frenchPackages ["fr-CA", "en_US"] frenchPackages_letters).2
    (by simp only [KeepsLanguage]; decide)

/-- `fr_CA` is English. -/
theorem codesToEnglishNames_underscore :
    ¬∀ (env : ThesisPackages) (codes : List String),
      (∀ s name, env.languageName s = some name → s.toList.all Char.isAlpha) →
        SuffixesIgnored env codes := by
  intro h
  have hremoved := (h frenchPackages ["fr_CA"] frenchPackages_letters).removed
  exact absurd hremoved (by decide)

end LanguageCodes

end Bibdata
