import Bibdata.IncrementalFiles
import Bibdata.Proofs.PartnerUpdates
import Mathlib.Data.List.Flatten

/-!
# Downloading and extracting

Archives that are downloaded are there under their base names (`run_fetchFiles`). Extracting them
replaces each by its entries, where no entry has a file in its way (`run_extractFiles`); one that
has stops the job, since a file is never overwritten by an entry.
-/

namespace Bibdata.IncrementalFiles

open Stoppable

section Steps

variable {w : World} {name path : String} {c : Content} {content : Option Content}
  {change : Db → Option Db}

@[simp] theorem run_setFile : run (setFile name content) w
    = some ((), { w with
        updateDirectory := Function.update w.updateDirectory name content }) := rfl

@[simp] theorem run_setScsbFile : run (setScsbFile path content) w
    = some ((), { w with scsbFiles := Function.update w.scsbFiles path content }) := rfl

@[simp] theorem run_exists? : run (exists? name) w
    = some ((w.updateDirectory name).isSome, w) := rfl

@[simp] theorem run_nextId : run nextId w = some (newId w.db, w) := rfl

@[simp] theorem run_raise {α : Type} : run (raise : Job α) w = none := rfl

@[simp] theorem run_setDb : run (setDb change) w
    = (change w.db).map fun db => ((), { w with db := db }) := run_op

theorem run_readZip {entries : List String} {w' : World} :
    run (readZip name) w = some (entries, w')
      ↔ w.updateDirectory name = some (.zip entries) ∧ w' = w := by
  unfold run readZip
  split
  · rename_i es h
    simp [h, eq_comm]
  · rename_i h
    simp only [reduceCtorEq, false_iff, not_and]
    exact fun hzip => absurd hzip (h entries)

theorem run_readText {text : String} {w' : World} :
    run (readText name) w = some (text, w')
      ↔ w.updateDirectory name = some (.text text) ∧ w' = w := by
  unfold run readText
  split
  · rename_i t h
    simp [h, eq_comm]
  · rename_i h
    simp only [reduceCtorEq, false_iff, not_and]
    exact fun htext => absurd htext (h text)

theorem run_readScsbText {text : String} (h : w.scsbFiles path = some (.text text)) :
    run (readScsbText path) w = some (text, w) := by
  simp [run, readScsbText, h]

theorem run_ofReader {α : Type} {o : Option α} {a : α} {w' : World} :
    run (ofReader o) w = some (a, w') ↔ o = some a ∧ w' = w := by
  cases o <;> simp [ofReader, eq_comm]

theorem run_unlink (h : (w.updateDirectory name).isSome) : run (unlink name) w
    = some ((), { w with updateDirectory := Function.update w.updateDirectory name none }) := by
  simp [unlink, run_bind, h]

theorem run_extract_of_free {target text : String} (h : w.updateDirectory target = none) :
    run (extract target text) w = some ((), { w with
      updateDirectory := Function.update w.updateDirectory target (some (.text text)) }) := by
  simp [extract, run_bind, h]

theorem run_extract_of_exists {target text : String} (h : w.updateDirectory target = some c) :
    run (extract target text) w = none := by
  simp [extract, run_bind, h]

end Steps

/-! ### The files of the update directory -/

abbrev Files := String → Option Content

def putTexts (es : List (String × String)) (files : Files) : Files :=
  es.foldl (fun files e => Function.update files e.1 (some (.text e.2))) files

def removeAll (names : List String) (files : Files) : Files :=
  fun name => if name ∈ names then none else files name

section Files

variable {es es' : List (String × String)} {e : String × String} {names names' : List String}
  {files : Files} {name : String}

theorem putTexts_cons : putTexts (e :: es) files
    = putTexts es (Function.update files e.1 (some (.text e.2))) := rfl

theorem putTexts_append : putTexts (es ++ es') files = putTexts es' (putTexts es files) :=
  List.foldl_append

theorem putTexts_of_not_mem (h : ∀ e ∈ es, e.1 ≠ name) : putTexts es files name = files name := by
  induction es generalizing files with
  | nil => rfl
  | cons e es ih =>
    rw [List.forall_mem_cons] at h
    rw [putTexts_cons, ih h.2, Function.update_of_ne h.1.symm]

theorem putTexts_of_mem (hnodup : (es.map Prod.fst).Nodup) (h : e ∈ es) :
    putTexts es files e.1 = some (.text e.2) := by
  induction es generalizing files with
  | nil => cases h
  | cons e' es ih =>
    obtain ⟨hnot, hnodup⟩ := List.nodup_cons.1 hnodup
    rw [putTexts_cons]
    rcases List.mem_cons.1 h with rfl | h
    · rw [putTexts_of_not_mem, Function.update_self]
      exact fun e' he' heq => hnot (heq ▸ List.mem_map_of_mem he')
    · exact ih hnodup h

theorem isSome_putTexts : (putTexts es files name).isSome
    ↔ (files name).isSome ∨ name ∈ es.map Prod.fst := by
  induction es generalizing files with
  | nil => simp [putTexts]
  | cons e es ih =>
    rw [putTexts_cons, ih]
    by_cases hname : name = e.1
    · simp [hname]
    · simp [hname]

theorem putTexts_eq_zip {entries : List String}
    (h : putTexts es files name = some (.zip entries)) : files name = some (.zip entries) := by
  induction es generalizing files with
  | nil => exact h
  | cons e es ih =>
    rw [putTexts_cons] at h
    have hrest := ih h
    by_cases hname : name = e.1
    · rw [hname, Function.update_self] at hrest
      cases hrest
    · rwa [Function.update_of_ne hname] at hrest

theorem removeAll_update (h : name ∉ names) {content : Option Content} :
    removeAll names (Function.update files name content)
      = Function.update (removeAll names files) name content := by
  funext n
  by_cases hn : n = name
  · subst hn
    simp [removeAll, h]
  · simp [removeAll, hn]

theorem removeAll_putTexts (h : ∀ e ∈ es, e.1 ∉ names) :
    removeAll names (putTexts es files) = putTexts es (removeAll names files) := by
  induction es generalizing files with
  | nil => rfl
  | cons e es ih =>
    rw [List.forall_mem_cons] at h
    rw [putTexts_cons, putTexts_cons, ih h.2, removeAll_update h.1]

theorem removeAll_of_keys (h : ∀ e ∈ es, e.1 ∈ names) :
    removeAll names (putTexts es files) = removeAll names files := by
  funext n
  by_cases hn : n ∈ names
  · simp [removeAll, hn]
  · simp only [removeAll, if_neg hn]
    exact putTexts_of_not_mem fun e he heq => hn (heq ▸ h e he)

theorem removeAll_removeAll :
    removeAll names' (removeAll names files) = removeAll (names ++ names') files := by
  funext n
  simp only [removeAll, List.mem_append]
  by_cases h : n ∈ names <;> by_cases h' : n ∈ names' <;> simp [h, h']

theorem update_none : Function.update files name none = removeAll [name] files := by
  funext n
  by_cases hn : n = name <;> simp [removeAll, hn]

end Files

/-! ### Downloading -/

/-- The archives by the names that they are downloaded under. -/
def named (archives : List Archive) : List (String × List String) :=
  archives.map fun a => (basename a.key, a.entries)

def putZips (zips : List (String × List String)) (files : Files) : Files :=
  zips.foldl (fun files z => Function.update files z.1 (some (.zip z.2))) files

section Download

variable {zips : List (String × List String)} {files : Files} {name : String} {w : World}

theorem putZips_of_not_mem (h : name ∉ zips.map Prod.fst) :
    putZips zips files name = files name := by
  induction zips generalizing files with
  | nil => rfl
  | cons z zips ih =>
    rw [List.map_cons, List.mem_cons, not_or] at h
    exact (ih h.2).trans (Function.update_of_ne h.1 _ _)

theorem putZips_of_mem {z : String × List String} (hnodup : (zips.map Prod.fst).Nodup)
    (h : z ∈ zips) : putZips zips files z.1 = some (.zip z.2) := by
  induction zips generalizing files with
  | nil => cases h
  | cons z' zips ih =>
    obtain ⟨hnot, hnodup⟩ := List.nodup_cons.1 hnodup
    rcases List.mem_cons.1 h with rfl | h
    · exact (putZips_of_not_mem hnot).trans (Function.update_self _ _ _)
    · exact ih hnodup h

theorem isSome_putZips : (putZips zips files name).isSome
    ↔ name ∈ zips.map Prod.fst ∨ (files name).isSome := by
  induction zips generalizing files with
  | nil => simp [putZips]
  | cons z zips ih =>
    refine ih.trans ?_
    by_cases hz : name = z.1
    · simp [hz]
    · simp [hz]

theorem removeAll_putZips : removeAll (zips.map Prod.fst) (putZips zips files)
    = removeAll (zips.map Prod.fst) files := by
  funext n
  by_cases hn : n ∈ zips.map Prod.fst
  · simp only [removeAll, if_pos hn]
  · simp only [removeAll, if_neg hn, putZips_of_not_mem hn]

theorem run_fetchFiles (archives : List Archive) : run (fetchFiles archives) w
    = some ((named archives).map Prod.fst,
        { w with updateDirectory := putZips (named archives) w.updateDirectory }) := by
  induction archives generalizing w with
  | nil => rfl
  | cons a archives ih =>
    simp only [fetchFiles, run_bind, run_setFile, Option.bind_some, Function.update_idem, ih,
      run_pure]
    rfl

end Download

/-! ### Extracting -/

/-- The targets of the entries of one archive, with the texts. -/
def entriesOf (target : String → ℕ → String) (zip : String × List String) :
    List (String × String) :=
  (zip.2.zipIdx 1).map fun t => (target zip.1 t.2, t.1)

def allEntries (target : String → ℕ → String) (zips : List (String × List String)) :
    List (String × String) :=
  zips.flatMap (entriesOf target)

/-- The targets are distinct, and none has a file in its way: what `Present` says is there is an
archive that was deleted before. -/
structure TargetsFree (target : String → ℕ → String) (Present : String → Prop)
    (zips : List (String × List String)) : Prop where
  nodup : ((allEntries target zips).map Prod.fst).Nodup
  free : ∀ before zip after, zips = before ++ zip :: after → ∀ e ∈ entriesOf target zip,
    Present e.1 → e.1 ∈ before.map Prod.fst

section Extract

variable {target : String → ℕ → String} {w w' : World} {xs : List String}
  {zips : List (String × List String)} {zip : String × List String} {Present : String → Prop}

theorem run_extractEntries_cons {file text : String} {n : ℕ} {texts : List String} :
    run (extractEntries target file n (text :: texts)) w
      = (run (extract (target file n) text) w).bind fun r =>
          (run (extractEntries target file (n + 1) texts) r.2).bind fun r' =>
            some (target file n :: r'.1, r'.2) := by
  simp only [extractEntries, run_bind, run_pure]

theorem run_extractEntries {file : String} (n : ℕ) (texts : List String) :
    run (extractEntries target file n texts) w = some (xs, w') ↔
      (((texts.zipIdx n).map fun t => target file t.2).Nodup
        ∧ ∀ t ∈ texts.zipIdx n, w.updateDirectory (target file t.2) = none)
      ∧ xs = (texts.zipIdx n).map (fun t => target file t.2)
      ∧ w' = { w with
          updateDirectory := putTexts ((texts.zipIdx n).map fun t => (target file t.2, t.1))
            w.updateDirectory } := by
  induction texts generalizing n w xs w' with
  | nil =>
    simp only [extractEntries, run_pure, List.zipIdx_nil, List.map_nil, List.nodup_nil,
      List.not_mem_nil, false_implies, implies_true, and_self, true_and, Option.some.injEq,
      Prod.mk.injEq]
    exact and_congr eq_comm eq_comm
  | cons text texts ih =>
    rw [run_extractEntries_cons]
    simp only [List.zipIdx_cons, List.map_cons, List.nodup_cons, List.forall_mem_cons]
    cases hfree : w.updateDirectory (target file n) with
    | some c => simp [run_extract_of_exists hfree]
    | none =>
      rw [run_extract_of_free hfree, Option.bind_some, Option.bind_eq_some_iff]
      simp only [Prod.exists, ih, Option.some.injEq, Prod.mk.injEq]
      constructor
      · rintro ⟨_, _, ⟨⟨hnodup, hrest⟩, rfl, rfl⟩, rfl, rfl⟩
        have hne : ∀ t ∈ texts.zipIdx (n + 1), target file t.2 ≠ target file n := by
          intro t ht heq
          have := hrest t ht
          rw [heq, Function.update_self] at this
          cases this
        refine ⟨⟨⟨?_, hnodup⟩, trivial, fun t ht => ?_⟩, rfl, rfl⟩
        · intro hmem
          obtain ⟨t, ht, heq⟩ := List.mem_map.1 hmem
          exact hne t ht heq
        · rw [← hrest t ht, Function.update_of_ne (hne t ht)]
      · rintro ⟨⟨⟨hnot, hnodup⟩, -, hrest⟩, rfl, rfl⟩
        refine ⟨_, _, ⟨⟨hnodup, fun t ht => ?_⟩, rfl, rfl⟩, rfl, rfl⟩
        rw [Function.update_of_ne]
        · exact hrest t ht
        · exact fun heq => hnot (List.mem_map.2 ⟨t, ht, heq⟩)

theorem allEntries_cons :
    allEntries target (zip :: zips) = entriesOf target zip ++ allEntries target zips :=
  List.flatMap_cons

theorem mem_allEntries_of_mem {e : String × String} (hz : zip ∈ zips)
    (he : e ∈ entriesOf target zip) : e.1 ∈ (allEntries target zips).map Prod.fst :=
  List.mem_map_of_mem (List.mem_flatMap.2 ⟨zip, hz, he⟩)

/-- The first archive, and the others once it is extracted and deleted. -/
theorem targetsFree_cons (hpresent : ∀ z ∈ zip :: zips, Present z.1) :
    TargetsFree target Present (zip :: zips) ↔
      (((entriesOf target zip).map Prod.fst).Nodup ∧ ∀ e ∈ entriesOf target zip, ¬ Present e.1)
      ∧ TargetsFree target (fun name => name ≠ zip.1
          ∧ (Present name ∨ name ∈ (entriesOf target zip).map Prod.fst)) zips := by
  obtain ⟨hzip, hzips⟩ := List.forall_mem_cons.1 hpresent
  constructor
  · rintro ⟨hnodup, hfree⟩
    rw [allEntries_cons, List.map_append, List.nodup_append] at hnodup
    obtain ⟨hnodup₁, hnodup₂, hdisjoint⟩ := hnodup
    refine ⟨⟨hnodup₁, fun e he hp => List.not_mem_nil (hfree [] zip zips rfl e he hp)⟩, hnodup₂,
      fun before z after hsplit e he hp => ?_⟩
    have hmem : e.1 ∈ (allEntries target zips).map Prod.fst :=
      mem_allEntries_of_mem (by rw [hsplit]; simp) he
    rcases hp with ⟨hne, hp | hp⟩
    · have hbefore := hfree (zip :: before) z after (by rw [hsplit]; rfl) e he hp
      exact (List.mem_cons.1 hbefore).resolve_left hne
    · exact absurd rfl (hdisjoint e.1 hp e.1 hmem)
  · rintro ⟨⟨hnodup₁, habsent⟩, hnodup₂, hfree⟩
    have hne : ∀ e ∈ entriesOf target zip, e.1 ≠ zip.1 := fun e he heq =>
      habsent e he (heq ▸ hzip)
    refine ⟨?_, fun before z after hsplit e he hp => ?_⟩
    · rw [allEntries_cons, List.map_append, List.nodup_append]
      refine ⟨hnodup₁, hnodup₂, fun n hn n' hn' heq => ?_⟩
      subst heq
      obtain ⟨e, he, rfl⟩ := List.mem_map.1 hn
      obtain ⟨e', he', heq⟩ := List.mem_map.1 hn'
      obtain ⟨z, hz, hez⟩ := List.mem_flatMap.1 he'
      obtain ⟨before, after, hsplit⟩ := List.append_of_mem hz
      -- the target would be there already, so it would be the name of an archive
      have hbefore := hfree before z after hsplit e' hez
        ⟨heq ▸ hne e he, .inr (heq ▸ List.mem_map_of_mem he)⟩
      obtain ⟨z', hz', hname⟩ := List.mem_map.1 hbefore
      refine habsent e he ?_
      rw [← heq, ← hname]
      exact hzips z' (by rw [hsplit]; exact List.mem_append_left _ hz')
    · cases before with
      | nil =>
        obtain ⟨rfl, -⟩ := List.cons.inj hsplit
        exact absurd hp (habsent e he)
      | cons z' before =>
        obtain ⟨rfl, htail⟩ := List.cons.inj hsplit
        by_cases hname : e.1 = zip.1
        · rw [hname]
          exact List.mem_cons_self
        · exact List.mem_cons_of_mem _ (hfree before z after htail e he ⟨hname, .inl hp⟩)

theorem run_extractFiles_cons {file : String} {files : List String} :
    run (extractFiles target (file :: files)) w
      = (run (readZip file) w).bind fun r =>
          (run (extractEntries target file 1 r.1) r.2).bind fun r₁ =>
            (run (unlink file) r₁.2).bind fun r₂ =>
              (run (extractFiles target files) r₂.2).bind fun r₃ => some (r₁.1 ++ r₃.1, r₃.2) := by
  simp only [extractFiles, run_bind, run_pure]

theorem run_extractEntries_entriesOf : run (extractEntries target zip.1 1 zip.2) w = some (xs, w') ↔
    (((entriesOf target zip).map Prod.fst).Nodup
      ∧ ∀ e ∈ entriesOf target zip, w.updateDirectory e.1 = none)
    ∧ xs = (entriesOf target zip).map Prod.fst
    ∧ w' = { w with updateDirectory := putTexts (entriesOf target zip) w.updateDirectory } := by
  rw [run_extractEntries, entriesOf]
  simp only [List.map_map, Function.comp_def, List.forall_mem_map]

/-- The files once the first archive is extracted and deleted. -/
def extracted (target : String → ℕ → String) (zip : String × List String) (files : Files) : Files :=
  putTexts (entriesOf target zip) (removeAll [zip.1] files)

section First

variable {files : Files}

theorem present_extracted (habsent : ∀ e ∈ entriesOf target zip, files e.1 = none)
    (hzip : (files zip.1).isSome) (name : String) : (extracted target zip files name).isSome
      ↔ name ≠ zip.1 ∧ ((files name).isSome ∨ name ∈ (entriesOf target zip).map Prod.fst) := by
  rw [extracted, isSome_putTexts]
  by_cases hname : name = zip.1
  · have hnot : name ∉ (entriesOf target zip).map Prod.fst := by
      intro hmem
      obtain ⟨e, he, rfl⟩ := List.mem_map.1 hmem
      rw [← hname, habsent e he] at hzip
      cases hzip
    simp [removeAll, hname ▸ hnot, hname]
  · simp [removeAll, hname]

theorem extracted_of_zip {z : String × List String}
    (habsent : ∀ e ∈ entriesOf target zip, files e.1 = none) (hz : files z.1 = some (.zip z.2))
    (hne : z.1 ≠ zip.1) : extracted target zip files z.1 = some (.zip z.2) := by
  rw [extracted, putTexts_of_not_mem, removeAll, if_neg (by simpa using hne), hz]
  intro e he heq
  rw [← heq, habsent e he] at hz
  cases hz

/-- The files at the end, those of the first archive put first. -/
theorem putTexts_extracted (habsent : ∀ e ∈ entriesOf target zip, files e.1 = none)
    (hzips : ∀ z ∈ zips, files z.1 = some (.zip z.2)) :
    putTexts (allEntries target zips)
        (removeAll (zips.map Prod.fst) (extracted target zip files))
      = putTexts (allEntries target (zip :: zips))
        (removeAll (zip.1 :: zips.map Prod.fst) files) := by
  have hne : ∀ e ∈ entriesOf target zip, e.1 ∉ zips.map Prod.fst := by
    intro e he hmem
    obtain ⟨z, hz, heq⟩ := List.mem_map.1 hmem
    have hnone := habsent e he
    rw [← heq, hzips z hz] at hnone
    cases hnone
  rw [allEntries_cons, putTexts_append, extracted, removeAll_putTexts hne, removeAll_removeAll]
  rfl

theorem targetsFree_files_cons (hpresent : ∀ z ∈ zip :: zips, (files z.1).isSome) :
    TargetsFree target (fun name => (files name).isSome) (zip :: zips) ↔
      (((entriesOf target zip).map Prod.fst).Nodup ∧ ∀ e ∈ entriesOf target zip, files e.1 = none)
      ∧ TargetsFree target (fun name => (extracted target zip files name).isSome) zips := by
  have hcons : TargetsFree target (fun name => (files name).isSome) (zip :: zips) ↔ _ :=
    targetsFree_cons hpresent
  simp only [Option.not_isSome_iff_eq_none] at hcons
  rw [hcons]
  refine and_congr_right fun hfirst => ?_
  have hP : (fun name => name ≠ zip.1 ∧ ((files name).isSome = true
        ∨ name ∈ (entriesOf target zip).map Prod.fst))
      = fun name => (extracted target zip files name).isSome = true :=
    funext fun name => propext (present_extracted hfirst.2
      (hpresent zip List.mem_cons_self) name).symm
  rw [hP]

theorem run_extractFiles_first {names : List String}
    (hnodup : ((entriesOf target zip).map Prod.fst).Nodup)
    (habsent : ∀ e ∈ entriesOf target zip, w.updateDirectory e.1 = none)
    (hzip : w.updateDirectory zip.1 = some (.zip zip.2)) :
    run (extractFiles target (zip.1 :: names)) w
      = (run (extractFiles target names)
          { w with updateDirectory := extracted target zip w.updateDirectory }).bind fun r =>
            some ((entriesOf target zip).map Prod.fst ++ r.1, r.2) := by
  have hne : ∀ e ∈ entriesOf target zip, e.1 ∉ [zip.1] := by
    intro e he hmem
    have habsent' := habsent e he
    rw [List.mem_singleton.1 hmem, hzip] at habsent'
    cases habsent'
  have hpresent : (putTexts (entriesOf target zip) w.updateDirectory zip.1).isSome := by
    rw [isSome_putTexts, hzip]
    exact .inl rfl
  rw [run_extractFiles_cons, run_readZip.2 ⟨hzip, rfl⟩, Option.bind_some,
    run_extractEntries_entriesOf.2 ⟨⟨hnodup, habsent⟩, rfl, rfl⟩, Option.bind_some]
  dsimp only
  rw [run_unlink hpresent, Option.bind_some]
  dsimp only
  rw [update_none, removeAll_putTexts hne, extracted]

theorem run_extractFiles_stuck {names : List String}
    (hstuck : ¬ (((entriesOf target zip).map Prod.fst).Nodup
      ∧ ∀ e ∈ entriesOf target zip, w.updateDirectory e.1 = none))
    (hzip : w.updateDirectory zip.1 = some (.zip zip.2)) :
    run (extractFiles target (zip.1 :: names)) w = none := by
  have hnone : run (extractEntries target zip.1 1 zip.2) w = none := by
    rw [Option.eq_none_iff_forall_ne_some]
    rintro ⟨xs, w'⟩ h
    exact hstuck (run_extractEntries_entriesOf.1 h).1
  rw [run_extractFiles_cons, run_readZip.2 ⟨hzip, rfl⟩, Option.bind_some, hnone, Option.bind_none]

end First

theorem run_extractFiles (hnodup : (zips.map Prod.fst).Nodup)
    (hzips : ∀ z ∈ zips, w.updateDirectory z.1 = some (.zip z.2)) :
    run (extractFiles target (zips.map Prod.fst)) w = some (xs, w') ↔
      TargetsFree target (fun name => (w.updateDirectory name).isSome) zips
      ∧ xs = (allEntries target zips).map Prod.fst
      ∧ w' = { w with
          updateDirectory :=
            putTexts (allEntries target zips)
              (removeAll (zips.map Prod.fst) w.updateDirectory) } := by
  induction zips generalizing w xs w' with
  | nil =>
    have hfree : TargetsFree target (fun name => (w.updateDirectory name).isSome) [] :=
      ⟨.nil, fun before z after h => by simp at h⟩
    rw [and_iff_right hfree]
    simp only [List.map_nil, extractFiles, run_pure, Option.some.injEq, Prod.mk.injEq]
    exact and_congr eq_comm eq_comm
  | cons zip zips ih =>
    obtain ⟨hnot, hnodup⟩ := List.nodup_cons.1 hnodup
    have hpresent : ∀ z ∈ zip :: zips, (w.updateDirectory z.1).isSome := fun z hz => by
      rw [hzips z hz]
      rfl
    obtain ⟨hzip, hrest⟩ := List.forall_mem_cons.1 hzips
    rw [targetsFree_files_cons hpresent, List.map_cons]
    by_cases hfirst : ((entriesOf target zip).map Prod.fst).Nodup
        ∧ ∀ e ∈ entriesOf target zip, w.updateDirectory e.1 = none
    · have hzips' : ∀ z ∈ zips, extracted target zip w.updateDirectory z.1 = some (.zip z.2) := by
        intro z hz
        exact extracted_of_zip hfirst.2 (hrest z hz)
          fun heq => hnot (heq ▸ List.mem_map_of_mem hz)
      have hend := putTexts_extracted hfirst.2 hrest
      rw [and_iff_right hfirst, run_extractFiles_first hfirst.1 hfirst.2 hzip,
        Option.bind_eq_some_iff]
      simp only [Prod.exists, Option.some.injEq, Prod.mk.injEq]
      constructor
      · rintro ⟨xs, w₂, hrun, rfl, rfl⟩
        obtain ⟨hfree, rfl, rfl⟩ := (ih hnodup hzips').1 hrun
        refine ⟨hfree, ?_, ?_⟩
        · rw [allEntries_cons, List.map_append]
        · rw [hend]
      · rintro ⟨hfree, rfl, rfl⟩
        refine ⟨_, _, (ih hnodup hzips').2 ⟨hfree, rfl, rfl⟩, ?_, ?_⟩
        · rw [allEntries_cons, List.map_append]
        · rw [hend]
    · rw [run_extractFiles_stuck hfirst hzip]
      simp only [reduceCtorEq, false_iff]
      exact fun h => hfirst h.1.1

/-- Only an archive is extracted, and no archive twice. -/
theorem nodup_of_run {names : List String} (h : run (extractFiles target names) w = some (xs, w')) :
    names.Nodup ∧ ∀ name ∈ names, ∃ entries, w.updateDirectory name = some (.zip entries) := by
  induction names generalizing w xs w' with
  | nil => simp
  | cons name names ih =>
    rw [run_extractFiles_cons, Option.bind_eq_some_iff] at h
    obtain ⟨⟨entries, w₁⟩, hread, hextract⟩ := h
    obtain ⟨⟨ts, w₂⟩, hentries, hunlink⟩ := Option.bind_eq_some_iff.1 hextract
    obtain ⟨⟨u, w₃⟩, hunlinked, hfiles⟩ := Option.bind_eq_some_iff.1 hunlink
    obtain ⟨⟨ys, w₄⟩, hrest, -⟩ := Option.bind_eq_some_iff.1 hfiles
    obtain ⟨hnodup, hzips⟩ := ih hrest
    obtain ⟨hzip, hw₁⟩ := run_readZip.1 hread
    obtain ⟨-, -, hw₂⟩ := (run_extractEntries 1 entries).1 hentries
    have hunlinked : w₃.updateDirectory = Function.update (putTexts
        ((entries.zipIdx 1).map fun t => (target name t.2, t.1)) w.updateDirectory) name none := by
      have hsome : (w₂.updateDirectory name).isSome := by
        rw [hw₂, isSome_putTexts, hw₁, hzip]
        exact .inl rfl
      rw [run_unlink hsome, hw₂, hw₁] at hunlinked
      cases hunlinked
      rfl
    refine ⟨List.nodup_cons.2 ⟨fun hmem => ?_, hnodup⟩, List.forall_mem_cons.2
      ⟨⟨entries, hzip⟩, fun name' hmem => ?_⟩⟩
    · obtain ⟨es, hes⟩ := hzips name hmem
      rw [hunlinked, Function.update_self] at hes
      cases hes
    · obtain ⟨es, hes⟩ := hzips name' hmem
      by_cases hname : name' = name
      · rw [hunlinked, hname, Function.update_self] at hes
        cases hes
      · rw [hunlinked, Function.update_of_ne hname] at hes
        exact ⟨es, putTexts_eq_zip hes⟩

end Extract

end Bibdata.IncrementalFiles
