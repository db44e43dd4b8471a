import Bibdata.Proofs.Extraction

/-!
# When the job recovers

The record files of the archives become rows of the dump (`run_processXmlFiles`), and its date and
its delete ids are set. A file that is in the way of an entry stops the job, and a row that is
attached already stays beside the new one: so the job recovers exactly where the stopped one left
neither, and where the archives themselves are such that it can run at all (`recovers_iff`).
-/

namespace Bibdata.IncrementalFiles

open Stoppable

/-! ### Attaching -/

section Attach

variable {db : Db} {id : ℕ} {path : String} {w w' : World} {dumpId : ℕ}

theorem foldl_max_le (ids : List ℕ) (m : ℕ) :
    m ≤ ids.foldl max m ∧ ∀ i ∈ ids, i ≤ ids.foldl max m := by
  induction ids generalizing m with
  | nil => simp
  | cons i ids ih =>
    obtain ⟨hm, hids⟩ := ih (max m i)
    rw [List.foldl_cons, List.forall_mem_cons]
    exact ⟨(le_max_left m i).trans hm, (le_max_right m i).trans hm, hids⟩

theorem ne_newId {f : DumpFile} (hf : f ∈ db.dumpFiles) : f.id ≠ newId db := by
  have := (foldl_max_le (db.dumpFiles.map (·.id)) 0).2 f.id (List.mem_map_of_mem hf)
  unfold newId
  omega

/-- The row that `attach_dump_file` leaves. -/
def attachedRow (db : Db) (dumpId : ℕ) (path : String) : DumpFile where
  id := newId db
  dumpId := some dumpId
  dumpFileType := some .recapRecords
  path := path ++ ".gz"

theorem updateFile_attach {f : DumpFile} (hid : f.id = newId db) {change : DumpFile → DumpFile} :
    updateFile (newId db) change (db.attach [f]) = db.attach [change f] := by
  have hold : db.dumpFiles.map (fun g => if g.id = newId db then change g else g)
      = db.dumpFiles := by
    conv_rhs => rw [← List.map_id db.dumpFiles]
    exact List.map_congr_left fun g hg => if_neg (ne_newId hg)
  simp [updateFile, Db.attach, hold, hid]

theorem run_attachDumpFile {text : String} (h : w.scsbFiles path = some (.text text)) :
    run (attachDumpFile dumpId path) w = some ((), { w with
      scsbFiles := Function.update (Function.update w.scsbFiles (path ++ ".gz") (some (.text text)))
        path none
      db := w.db.attach [attachedRow w.db dumpId path] }) := by
  have hne : path ≠ path ++ ".gz" := fun heq => by
    have := congrArg String.length heq
    simp at this
  have hread : ∀ db : Db, run (readScsbText path)
      { w with
        scsbFiles := Function.update w.scsbFiles (path ++ ".gz") (some .unfinished)
        db := db }
      = some (text, { w with
          scsbFiles := Function.update w.scsbFiles (path ++ ".gz") (some .unfinished)
          db := db }) := by
    intro db
    exact run_readScsbText ((Function.update_of_ne hne _ _).trans h)
  simp only [attachDumpFile, run_bind, run_nextId, run_setDb, run_setScsbFile, Option.bind_some,
    Option.map_some, hread, createFile, updateFile_attach, Function.update_idem]
  rfl

theorem attach_attach {fs gs : List DumpFile} :
    (db.attach fs).attach gs = db.attach (fs ++ gs) := by
  simp [Db.attach]

end Attach

/-! ### The record files and the delete files -/

section Files

variable {readers : Readers} {dir : String} {dumpId : ℕ} {w w' : World} {file text : String}
  {es : List (String × String)}

theorem run_processXmlFile_of_none (h : w.updateDirectory file = some (.text text))
    (hnone : readers.processRecords text = none) :
    run (processXmlFile readers dir dumpId file) w = none := by
  simp [processXmlFile, run_bind, run_readText.2 ⟨h, rfl⟩, hnone, ofReader]

theorem run_processXmlFile_of_some (dir : String) (dumpId : ℕ) {records : String}
    (h : w.updateDirectory file = some (.text text))
    (hsome : readers.processRecords text = some records) :
    ∃ scsbFiles, run (processXmlFile readers dir dumpId file) w = some ((),
      { updateDirectory := removeAll [file] w.updateDirectory
        scsbFiles := scsbFiles
        db := w.db.attach [attachedRow w.db dumpId (scsbPath dir file)] }) := by
  have hpresent : (w.updateDirectory file).isSome := by
    rw [h]
    rfl
  refine ⟨Function.update (Function.update (Function.update w.scsbFiles (scsbPath dir file)
    (some (.text records))) (scsbPath dir file ++ ".gz") (some (.text records)))
    (scsbPath dir file) none, ?_⟩
  simp only [processXmlFile, run_bind, run_readText.2 ⟨h, rfl⟩, Option.bind_some, run_setScsbFile,
    hsome, ofReader, run_pure, Function.update_idem]
  have hunlink : ∀ files, run (unlink file) { w with scsbFiles := files }
      = some ((), { w with
          updateDirectory := removeAll [file] w.updateDirectory, scsbFiles := files }) := by
    intro files
    rw [← update_none]
    exact run_unlink hpresent
  rw [hunlink, Option.bind_some, run_attachDumpFile (Function.update_self _ _ _)]

/-- The files that are left are there when the first is gone. -/
theorem texts_removeAll {e : String × String} (hnodup : ((e :: es).map Prod.fst).Nodup)
    (h : ∀ e' ∈ e :: es, w.updateDirectory e'.1 = some (.text e'.2)) :
    ∀ e' ∈ es, removeAll [e.1] w.updateDirectory e'.1 = some (.text e'.2) := by
  intro e' he'
  have hne : e'.1 ∉ [e.1] := fun hmem =>
    (List.nodup_cons.1 hnodup).1 (List.mem_singleton.1 hmem ▸ List.mem_map_of_mem he')
  rw [removeAll, if_neg hne, h e' (List.mem_cons_of_mem _ he')]

theorem run_processXmlFiles (readers : Readers) (dir : String) (dumpId : ℕ)
    (hnodup : (es.map Prod.fst).Nodup) (h : ∀ e ∈ es, w.updateDirectory e.1 = some (.text e.2)) :
    ((run (processXmlFiles readers dir dumpId (es.map Prod.fst)) w).isSome
        ↔ ∀ e ∈ es, (readers.processRecords e.2).isSome)
      ∧ ∀ u w', run (processXmlFiles readers dir dumpId (es.map Prod.fst)) w = some (u, w') →
        w'.updateDirectory = removeAll (es.map Prod.fst) w.updateDirectory
          ∧ ∃ rows, w'.db = w.db.attach rows
            ∧ rows.map (fun f => (f.dumpId, f.dumpFileType, f.path))
              = es.map fun e => (some dumpId, some .recapRecords, scsbPath dir e.1 ++ ".gz") := by
  induction es generalizing w with
  | nil =>
    refine ⟨by simp [processXmlFiles], fun u w' hrun => ?_⟩
    obtain ⟨-, rfl⟩ := Prod.mk.inj (Option.some.inj hrun)
    exact ⟨rfl, [], by simp [Db.attach], rfl⟩
  | cons e es ih =>
    have htexts := texts_removeAll hnodup h
    have hfirst := h e List.mem_cons_self
    rw [List.map_cons, processXmlFiles, run_bind]
    cases hrecords : readers.processRecords e.2 with
    | none =>
      rw [run_processXmlFile_of_none hfirst hrecords]
      simp [hrecords]
    | some records =>
      obtain ⟨scsbFiles, hrun⟩ := run_processXmlFile_of_some dir dumpId hfirst hrecords
      rw [hrun, Option.bind_some]
      obtain ⟨hsome, heffect⟩ := ih (w := { updateDirectory := removeAll [e.1] w.updateDirectory
                                            scsbFiles := scsbFiles
                                            db := w.db.attach
                                              [attachedRow w.db dumpId (scsbPath dir e.1)] })
        (List.nodup_cons.1 hnodup).2 htexts
      refine ⟨hsome.trans (by simp [hrecords]), fun u w' hrest => ?_⟩
      obtain ⟨hfiles, rows, hdb, hrows⟩ := heffect u w' hrest
      refine ⟨?_, attachedRow w.db dumpId (scsbPath dir e.1) :: rows, ?_, ?_⟩
      · rw [hfiles, removeAll_removeAll]
        rfl
      · rw [hdb, attach_attach]
        rfl
      · rw [List.map_cons, hrows, List.map_cons]
        rfl

theorem run_scsbIds_cons {files : List String} : run (scsbIds readers (file :: files)) w
    = (run (readText file) w).bind fun r => (run (ofReader (readers.bibIds r.1)) r.2).bind fun r₁ =>
        (run (unlink file) r₁.2).bind fun r₂ =>
          (run (scsbIds readers files) r₂.2).bind fun r₃ => some (r₁.1 ++ r₃.1, r₃.2) := by
  simp only [scsbIds, run_bind, run_pure]

theorem run_scsbIds {ids : List String} (hnodup : (es.map Prod.fst).Nodup)
    (h : ∀ e ∈ es, w.updateDirectory e.1 = some (.text e.2)) :
    run (scsbIds readers (es.map Prod.fst)) w = some (ids, w') ↔
      (∀ e ∈ es, (readers.bibIds e.2).isSome)
      ∧ ids = es.flatMap (fun e => (readers.bibIds e.2).getD [])
      ∧ w' = { w with
          updateDirectory := removeAll (es.map Prod.fst) w.updateDirectory } := by
  induction es generalizing w w' ids with
  | nil =>
    simp only [List.map_nil, scsbIds, run_pure, Option.some.injEq, Prod.mk.injEq,
      List.not_mem_nil, false_implies, implies_true, true_and, List.flatMap_nil]
    exact and_congr eq_comm eq_comm
  | cons e es ih =>
    have htexts := texts_removeAll hnodup h
    have hfirst := h e List.mem_cons_self
    have hpresent : (w.updateDirectory e.1).isSome := by
      rw [hfirst]
      rfl
    rw [List.map_cons, run_scsbIds_cons, run_readText.2 ⟨hfirst, rfl⟩, Option.bind_some]
    cases hids : readers.bibIds e.2 with
    | none => simp [hids, ofReader]
    | some first =>
      rw [run_ofReader.2 ⟨rfl, rfl⟩, Option.bind_some]
      dsimp only
      rw [run_unlink hpresent, Option.bind_some, update_none, Option.bind_eq_some_iff]
      simp only [Prod.exists, Option.some.injEq, Prod.mk.injEq]
      have hih : ∀ rest w₂, run (scsbIds readers (es.map Prod.fst))
          { w with updateDirectory := removeAll [e.1] w.updateDirectory } = some (rest, w₂) ↔ _ :=
        fun rest w₂ => ih (List.nodup_cons.1 hnodup).2 htexts
      simp only [hih, removeAll_removeAll, List.forall_mem_cons, List.flatMap_cons, hids,
        Option.isSome_some, Option.getD_some, true_and]
      constructor
      · rintro ⟨_, _, ⟨hall, rfl, rfl⟩, rfl, rfl⟩
        exact ⟨hall, rfl, rfl⟩
      · rintro ⟨hall, rfl, rfl⟩
        exact ⟨_, _, ⟨hall, rfl, rfl⟩, rfl, rfl⟩

end Files

/-! ### The whole job -/

/-- What is downloaded can be extracted: the archives have distinct names, and no target has a file
in its way. -/
def Extractable (target : String → ℕ → String) (Present : String → Prop)
    (archives : List Archive) : Prop :=
  ((named archives).map Prod.fst).Nodup
    ∧ TargetsFree target (fun name => name ∈ (named archives).map Prod.fst ∨ Present name)
        (named archives)

/-- The names that extracting the archives comes by. -/
def namesOf (target : String → ℕ → String) (archives : List Archive) : List String :=
  (named archives).map Prod.fst ++ (allEntries target (named archives)).map Prod.fst

/-- The files once the archives are downloaded, extracted and deleted. -/
def extractedAll (target : String → ℕ → String) (archives : List Archive) (files : Files) : Files :=
  putTexts (allEntries target (named archives)) (removeAll ((named archives).map Prod.fst) files)

section Job

variable {target : String → ℕ → String} {w w' : World} {xs : List String}

theorem run_extract_fetched (archives : List Archive) :
    run (extractFiles target ((named archives).map Prod.fst))
        { w with updateDirectory := putZips (named archives) w.updateDirectory } = some (xs, w')
      ↔ Extractable target (fun name => (w.updateDirectory name).isSome) archives
        ∧ xs = (allEntries target (named archives)).map Prod.fst
        ∧ w' = { w with updateDirectory := extractedAll target archives w.updateDirectory } := by
  by_cases hnodup : ((named archives).map Prod.fst).Nodup
  · have hzips : ∀ z ∈ named archives,
        putZips (named archives) w.updateDirectory z.1 = some (.zip z.2) :=
      fun z hz => putZips_of_mem hnodup hz
    rw [run_extractFiles hnodup hzips, Extractable, and_iff_right hnodup, removeAll_putZips,
      extractedAll]
    simp only [isSome_putZips]
  · refine ⟨fun h => absurd (nodup_of_run h).1 hnodup, fun h => absurd h.1.1 hnodup⟩

theorem run_processIncrementalFiles (readers : Readers) (dir : String) {dumpId : ℕ}
    (s3 : Listing) (timestamp : Time) (h : dumpId ∈ w.db.dumps.map (·.id)) :
    run (processIncrementalFiles readers dir dumpId s3 timestamp) w
      = (run (extractFiles updateTarget
            ((named (filesToDownload s3.updates timestamp)).map Prod.fst))
          { w with updateDirectory :=
              putZips (named (filesToDownload s3.updates timestamp)) w.updateDirectory }).bind
        fun r => (run (processXmlFiles readers dir dumpId r.1) r.2).bind
        fun r₁ => (generatedDate readers.parse r₁.2.db dumpId).bind
        fun db => (run (extractFiles deleteTarget
            ((named (filesToDownload s3.deletes timestamp)).map Prod.fst))
          { r₁.2 with
            db := db
            updateDirectory :=
              putZips (named (filesToDownload s3.deletes timestamp)) r₁.2.updateDirectory }).bind
        fun r₂ => (run (scsbIds readers r₂.1) r₂.2).bind
        fun r₃ => some ((), { r₃.2 with
          db := Bibdata.processPartnerDeletes r₃.2.db dumpId r₃.1 }) := by
  have hfind : run (findDump dumpId) w = some ((), w) := by
    simp only [run, findDump, if_pos h]
  simp only [processIncrementalFiles, processPartnerUpdates, processPartnerDeletes, run_bind, hfind,
    Option.bind_some, run_fetchFiles, run_setDb, Option.bind_assoc, Option.map_some,
    Option.bind_map, Function.comp_def]

/-- The texts of the record files and of the delete files, by the names they are extracted to. -/
def recordFiles (s3 : Listing) (timestamp : Time) : List (String × String) :=
  allEntries updateTarget (named (filesToDownload s3.updates timestamp))

def deleteFiles (s3 : Listing) (timestamp : Time) : List (String × String) :=
  allEntries deleteTarget (named (filesToDownload s3.deletes timestamp))

section Recovers

variable (readers : Readers) (dir : String) (dumpId : ℕ) (s3 : Listing) (timestamp : Time)

/-- Run from `w` the job completes, and the dump has one file for each record file and the ids of
the delete files. -/
def Recovers (w : World) : Prop :=
  ∃ w', run (processIncrementalFiles readers dir dumpId s3 timestamp) w = some ((), w')
    ∧ ((w'.db.dumpFiles.filter (·.dumpId = some dumpId)).map (·.path)).Perm
        ((recordFiles s3 timestamp).map fun e => scsbPath dir e.1 ++ ".gz")
    ∧ ∃ d ∈ w'.db.dumps, d.id = dumpId ∧ d.deleteIds
        = ((deleteFiles s3 timestamp).flatMap fun e => (readers.bibIds e.2).getD []).map
            ("SCSB-" ++ ·)

/-- The texts are what the readers can read, and the names of the files have dates. -/
structure Readable : Prop where
  records : ∀ e ∈ recordFiles s3 timestamp, (readers.processRecords e.2).isSome
  dates : ∀ e ∈ recordFiles s3 timestamp,
    (fileDate readers.parse (attachedRow {} dumpId (scsbPath dir e.1))).isSome
  ids : ∀ e ∈ deleteFiles s3 timestamp, (readers.bibIds e.2).isSome

/-- Nothing that was left is in the way of what is extracted. -/
structure NothingInTheWay (w : World) : Prop where
  updates : Extractable updateTarget (fun name => (w.updateDirectory name).isSome)
    (filesToDownload s3.updates timestamp)
  deletes : Extractable deleteTarget
    (fun name => name ∉ namesOf updateTarget (filesToDownload s3.updates timestamp)
      ∧ (w.updateDirectory name).isSome)
    (filesToDownload s3.deletes timestamp)

end Recovers

section Generated

variable {readers : Readers} {dir : String} {dumpId : ℕ} {db db' : Db} {rows : List DumpFile}
  {es : List (String × String)}

/-- The rows that the record files have made. -/
def RowsOf (dir : String) (dumpId : ℕ) (es : List (String × String))
    (rows : List DumpFile) : Prop :=
  rows.map (fun f => (f.dumpId, f.dumpFileType, f.path))
    = es.map fun e => (some dumpId, some .recapRecords, scsbPath dir e.1 ++ ".gz")

theorem dumpId_of_rowsOf (h : RowsOf dir dumpId es rows) {f : DumpFile} (hf : f ∈ rows) :
    f.dumpId = some dumpId := by
  have hmem := List.mem_map_of_mem (f := fun f : DumpFile => (f.dumpId, f.dumpFileType, f.path)) hf
  rw [h] at hmem
  obtain ⟨e, -, he⟩ := List.mem_map.1 hmem
  exact (Prod.mk.inj he).1.symm

theorem filter_attach (h : RowsOf dir dumpId es rows) :
    (db.attach rows).dumpFiles.filter (·.dumpId = some dumpId)
      = db.dumpFiles.filter (·.dumpId = some dumpId) ++ rows := by
  rw [Db.attach, List.filter_append]
  congr 1
  rw [List.filter_eq_self]
  exact fun f hf => by simpa using dumpId_of_rowsOf h hf

theorem paths_of_rowsOf (h : RowsOf dir dumpId es rows) :
    rows.map (·.path) = es.map fun e => scsbPath dir e.1 ++ ".gz" := by
  have hsnd := congrArg (List.map fun p => p.2.2) h
  rwa [List.map_map, List.map_map] at hsnd

theorem dates_of_rowsOf (h : RowsOf dir dumpId es rows) :
    (∀ f ∈ rows, (fileDate readers.parse f).isSome)
      ↔ ∀ e ∈ es, (fileDate readers.parse (attachedRow {} dumpId (scsbPath dir e.1))).isSome := by
  have hrows := List.forall_mem_map (l := rows)
    (f := fun f : DumpFile => (f.dumpId, f.dumpFileType, f.path))
    (P := fun p => (fileDate readers.parse ⟨0, p.1, p.2.1, p.2.2⟩).isSome)
  rw [h, List.forall_mem_map] at hrows
  exact hrows.symm

/-- Where the rows of the record files are the only ones, the date is set if they all have one. -/
theorem isSome_generatedDate (h : RowsOf dir dumpId es rows)
    (hnone : db.dumpFiles.filter (·.dumpId = some dumpId) = [])
    (hdates : ∀ f ∈ rows, (fileDate readers.parse f).isSome) :
    ∃ db', generatedDate readers.parse (db.attach rows) dumpId = some db' := by
  obtain ⟨dates, hm⟩ := mapM_isSome hdates
  rw [generatedDate, filter_attach h, hnone, List.nil_append, hm, Option.map_some]
  exact ⟨_, rfl⟩

theorem ids_update {id : ℕ} {change : Dump → Dump} {h : ∀ d, (change d).id = d.id} :
    (db.update id change h).dumps.map (·.id) = db.dumps.map (·.id) := by
  rw [Db.update, List.map_map]
  refine List.map_congr_left fun d _ => ?_
  simp only [Function.comp_apply]
  split_ifs
  · exact h d
  · rfl

theorem dates_of_generatedDate (h : RowsOf dir dumpId es rows)
    (hdate : generatedDate readers.parse (db.attach rows) dumpId = some db') :
    db'.dumpFiles = (db.attach rows).dumpFiles
      ∧ (∀ f ∈ rows, (fileDate readers.parse f).isSome)
      ∧ db'.dumps.map (·.id) = db.dumps.map (·.id) := by
  obtain ⟨dates, hm, rfl⟩ := Option.map_eq_some_iff.1 hdate
  refine ⟨rfl, fun f hf => ?_, ids_update⟩
  rw [filter_attach h] at hm
  obtain ⟨t, ht, -⟩ := (forall_mem_of_mapM (P := fun _ => True) hm).2.1 (fun _ _ => trivial) f
    (List.mem_append_right _ hf)
  exact Option.isSome_iff_exists.2 ⟨t, ht⟩

theorem deleteIds_processPartnerDeletes {ids : List String} (h : dumpId ∈ db.dumps.map (·.id)) :
    ∃ d ∈ (Bibdata.processPartnerDeletes db dumpId ids).dumps, d.id = dumpId
      ∧ d.deleteIds = ids.map ("SCSB-" ++ ·) := by
  obtain ⟨d, hd, rfl⟩ := List.mem_map.1 h
  exact ⟨_, List.mem_map.2 ⟨d, hd, if_pos rfl⟩, rfl, rfl⟩

end Generated

section Main

variable {readers : Readers} {dir : String} {dumpId : ℕ} {s3 : Listing} {timestamp : Time}

/-- The files of the update directory after the update files are processed. -/
theorem isSome_processed {files : Files} {archives : List Archive} {name : String} :
    (removeAll ((allEntries target (named archives)).map Prod.fst)
        (extractedAll target archives files) name).isSome
      ↔ name ∉ namesOf target archives ∧ (files name).isSome := by
  rw [extractedAll, removeAll_of_keys fun e he => List.mem_map_of_mem he, removeAll_removeAll,
    ← namesOf]
  by_cases hname : name ∈ namesOf target archives <;> simp [removeAll, hname]

theorem texts_extracted {archives : List Archive} {files : Files}
    (h : Extractable target (fun name => (files name).isSome) archives) :
    ∀ e ∈ allEntries target (named archives),
      extractedAll target archives files e.1 = some (.text e.2) :=
  fun _ he => putTexts_of_mem h.2.nodup he

theorem run_of_not_mem (h : dumpId ∉ w.db.dumps.map (·.id)) :
    run (processIncrementalFiles readers dir dumpId s3 timestamp) w = none := by
  have hfind : run (findDump dumpId) w = none := by
    simp only [run, findDump, if_neg h]
  rw [processIncrementalFiles, run_bind, hfind, Option.bind_none]

/-- What held of the state where the job completes, and the rows that it has added. -/
theorem of_run (h : run (processIncrementalFiles readers dir dumpId s3 timestamp) w
      = some ((), w')) :
    dumpId ∈ w.db.dumps.map (·.id) ∧ Readable readers dir dumpId s3 timestamp
      ∧ NothingInTheWay s3 timestamp w
      ∧ ∃ rows, RowsOf dir dumpId (recordFiles s3 timestamp) rows
        ∧ w'.db.dumpFiles = (w.db.attach rows).dumpFiles := by
  by_cases hdump : dumpId ∈ w.db.dumps.map (·.id)
  · rw [run_processIncrementalFiles _ _ _ _ hdump] at h
    obtain ⟨⟨xs, w₁⟩, hextract, hrest₁⟩ := Option.bind_eq_some_iff.1 h
    obtain ⟨hupdates, rfl, hw₁⟩ := (run_extract_fetched _).1 hextract
    obtain ⟨⟨u, w₂⟩, hprocess, hrest₂⟩ := Option.bind_eq_some_iff.1 hrest₁
    obtain ⟨db, hdate, hrest₃⟩ := Option.bind_eq_some_iff.1 hrest₂
    obtain ⟨⟨ys, w₃⟩, hextract', hrest₄⟩ := Option.bind_eq_some_iff.1 hrest₃
    obtain ⟨⟨ids, w₄⟩, hids, hend⟩ := Option.bind_eq_some_iff.1 hrest₄
    have htexts : ∀ e ∈ recordFiles s3 timestamp, w₁.updateDirectory e.1 = some (.text e.2) := by
      rw [hw₁]
      exact texts_extracted hupdates
    obtain ⟨hrecords, heffect⟩ := run_processXmlFiles readers dir dumpId hupdates.2.nodup htexts
    obtain ⟨hfiles, rows, hdb, hrows⟩ := heffect u w₂ hprocess
    have hpresent : (fun name => (w₂.updateDirectory name).isSome = true)
        = fun name => name ∉ namesOf updateTarget (filesToDownload s3.updates timestamp)
          ∧ (w.updateDirectory name).isSome := by
      funext name
      rw [hfiles, hw₁]
      exact propext isSome_processed
    obtain ⟨hdeletes, rfl, hw₃⟩ :=
      (run_extract_fetched (w := { w₂ with db := db }) _).1 hextract'
    rw [hpresent] at hdeletes
    have htexts' : ∀ e ∈ deleteFiles s3 timestamp, w₃.updateDirectory e.1 = some (.text e.2) := by
      rw [hw₃]
      refine texts_extracted ?_
      dsimp only
      rwa [hpresent]
    obtain ⟨hread, rfl, rfl⟩ := (run_scsbIds hdeletes.2.nodup htexts').1 hids
    have hw₁db : w₁.db = w.db := by rw [hw₁]
    obtain ⟨hdumpFiles, hdates, -⟩ := dates_of_generatedDate hrows (hw₁db ▸ hdb ▸ hdate)
    refine ⟨hdump, ⟨hrecords.1 (by rw [hprocess]; rfl), (dates_of_rowsOf hrows).1 hdates, hread⟩,
      ⟨hupdates, hdeletes⟩, rows, hrows, ?_⟩
    obtain ⟨-, rfl⟩ := Prod.mk.inj (Option.some.inj hend)
    rw [← hdumpFiles, hw₃]
    rfl
  · rw [run_of_not_mem hdump] at h
    cases h

theorem run_of (hdump : dumpId ∈ w.db.dumps.map (·.id))
    (hnone : w.db.dumpFiles.filter (·.dumpId = some dumpId) = [])
    (hread : Readable readers dir dumpId s3 timestamp) (hfree : NothingInTheWay s3 timestamp w) :
    ∃ rows db w', RowsOf dir dumpId (recordFiles s3 timestamp) rows
      ∧ db.dumpFiles = (w.db.attach rows).dumpFiles
      ∧ db.dumps.map (·.id) = w.db.dumps.map (·.id)
      ∧ run (processIncrementalFiles readers dir dumpId s3 timestamp) w = some ((), w')
      ∧ w'.db = Bibdata.processPartnerDeletes db dumpId
          ((deleteFiles s3 timestamp).flatMap fun e => (readers.bibIds e.2).getD []) := by
  obtain ⟨hrecords, heffect⟩ := run_processXmlFiles (w := { w with
      updateDirectory := extractedAll updateTarget (filesToDownload s3.updates timestamp)
        w.updateDirectory })
    readers dir dumpId hfree.updates.2.nodup (texts_extracted hfree.updates)
  obtain ⟨⟨u, w₂⟩, hprocess⟩ := Option.isSome_iff_exists.1 (hrecords.2 hread.records)
  obtain ⟨hfiles, rows, hdb, hrows⟩ := heffect u w₂ hprocess
  obtain ⟨db, hdate⟩ := isSome_generatedDate hrows hnone ((dates_of_rowsOf hrows).2 hread.dates)
  obtain ⟨hdumpFiles, -, hdumps⟩ := dates_of_generatedDate hrows hdate
  have hpresent : (fun name => (w₂.updateDirectory name).isSome = true)
      = fun name => name ∉ namesOf updateTarget (filesToDownload s3.updates timestamp)
        ∧ (w.updateDirectory name).isSome := by
    funext name
    rw [hfiles]
    exact propext isSome_processed
  have hdeletes : Extractable deleteTarget (fun name => (w₂.updateDirectory name).isSome)
      (filesToDownload s3.deletes timestamp) := by
    rw [hpresent]
    exact hfree.deletes
  have hextract := (run_extract_fetched (w := w) _).2 ⟨hfree.updates, rfl, rfl⟩
  have hextract' := (run_extract_fetched (w := { w₂ with db := db }) _).2 ⟨hdeletes, rfl, rfl⟩
  have hids := (run_scsbIds (w := { w₂ with
      db := db
      updateDirectory := extractedAll deleteTarget (filesToDownload s3.deletes timestamp)
        w₂.updateDirectory })
    hdeletes.2.nodup (texts_extracted hdeletes)).2 ⟨hread.ids, rfl, rfl⟩
  have hrun := run_processIncrementalFiles readers dir s3 timestamp hdump
  rw [hextract, Option.bind_some, hprocess, Option.bind_some, hdb, hdate, Option.bind_some,
    hextract', Option.bind_some] at hrun
  exact ⟨rows, db, _, hrows, hdumpFiles, hdumps, hrun.trans (by rw [hids, Option.bind_some]), rfl⟩

theorem recovers_of (hdump : dumpId ∈ w.db.dumps.map (·.id))
    (hnone : w.db.dumpFiles.filter (·.dumpId = some dumpId) = [])
    (hread : Readable readers dir dumpId s3 timestamp) (hfree : NothingInTheWay s3 timestamp w) :
    Recovers readers dir dumpId s3 timestamp w := by
  obtain ⟨rows, db, w', hrows, hdumpFiles, hdumps, hrun, hdb⟩ := run_of hdump hnone hread hfree
  refine ⟨w', hrun, ?_, ?_⟩
  · have hfiles : w'.db.dumpFiles = (w.db.attach rows).dumpFiles := by
      rw [hdb, ← hdumpFiles]
      rfl
    rw [hfiles, filter_attach hrows, hnone, List.nil_append, paths_of_rowsOf hrows]
  · rw [hdb]
    exact deleteIds_processPartnerDeletes (hdumps ▸ hdump)

theorem recovers_iff_of_state : Recovers readers dir dumpId s3 timestamp w ↔
    dumpId ∈ w.db.dumps.map (·.id)
      ∧ w.db.dumpFiles.filter (·.dumpId = some dumpId) = []
      ∧ Readable readers dir dumpId s3 timestamp
      ∧ NothingInTheWay s3 timestamp w := by
  constructor
  · rintro ⟨w', hrun, hperm, -⟩
    obtain ⟨hdump, hread, hfree, rows, hrows, hfiles⟩ := of_run hrun
    refine ⟨hdump, ?_, hread, hfree⟩
    -- with a row from before there would be more rows than record files
    rw [hfiles, filter_attach hrows, List.map_append, paths_of_rowsOf hrows] at hperm
    have hlength := hperm.length_eq
    rw [List.length_append, List.length_map] at hlength
    exact List.length_eq_zero_iff.1 (by omega)
  · rintro ⟨hdump, hnone, hread, hfree⟩
    exact recovers_of hdump hnone hread hfree

end Main

end Job

/-! ### Where the job is stopped -/

section Stopped

variable {ids : List ℕ} {name path : String} {content : Option Content}

/-- The dumps are those of `ids`. -/
def DumpsAre (ids : List ℕ) (w : World) : Prop := w.db.dumps.map (·.id) = ids

theorem keeps_setFile : Keeps (DumpsAre ids) (setFile name content) :=
  Keeps.op fun w r hw h => by
    obtain rfl := Option.some.inj h
    exact hw

theorem keeps_setScsbFile : Keeps (DumpsAre ids) (setScsbFile path content) :=
  Keeps.op fun w r hw h => by
    obtain rfl := Option.some.inj h
    exact hw

theorem keeps_setDb {change : Db → Option Db}
    (hchange : ∀ db db', change db = some db' → db'.dumps.map (·.id) = db.dumps.map (·.id)) :
    Keeps (DumpsAre ids) (setDb change) :=
  Keeps.op fun w r hw h => by
    obtain ⟨db, hdb, rfl⟩ := Option.map_eq_some_iff.1 h
    exact (hchange w.db db hdb).trans hw

theorem keeps_exists? : Keeps (DumpsAre ids) (exists? name) :=
  Keeps.of_run (fun _ => rfl) fun w r h => by
    obtain rfl := Option.some.inj h
    rfl

theorem keeps_nextId : Keeps (DumpsAre ids) nextId :=
  Keeps.of_run (fun _ => rfl) fun w r h => by
    obtain rfl := Option.some.inj h
    rfl

theorem keeps_raise {α : Type} : Keeps (DumpsAre ids) (raise : Job α) :=
  Keeps.of_run (fun _ => rfl) fun w r h => by
    cases h

theorem keeps_readZip : Keeps (DumpsAre ids) (readZip name) :=
  Keeps.of_run (fun w => by unfold readZip; split <;> rfl) fun w r h => (run_readZip.1 h).2

theorem keeps_readText : Keeps (DumpsAre ids) (readText name) :=
  Keeps.of_run (fun w => by unfold readText; split <;> rfl) fun w r h => (run_readText.1 h).2

theorem keeps_readScsbText : Keeps (DumpsAre ids) (readScsbText path) :=
  Keeps.of_run (fun w => by unfold readScsbText; split <;> rfl) fun w r h => by
    unfold run readScsbText at h
    split at h
    · obtain rfl := Option.some.inj h
      rfl
    · cases h

theorem keeps_ofReader {α : Type} (o : Option α) : Keeps (DumpsAre ids) (ofReader o) := by
  cases o with
  | none => exact keeps_raise
  | some a => exact Keeps.pure a

theorem keeps_unlink : Keeps (DumpsAre ids) (unlink name) :=
  keeps_exists?.bind fun present => by
    cases present
    · exact keeps_raise
    · exact keeps_setFile

theorem keeps_fetchFiles (archives : List Archive) :
    Keeps (DumpsAre ids) (fetchFiles archives) := by
  induction archives with
  | nil => exact Keeps.pure _
  | cons a archives ih =>
    exact keeps_setFile.bind fun _ => keeps_setFile.bind fun _ => ih.bind fun _ => Keeps.pure _

theorem keeps_extract {target text : String} : Keeps (DumpsAre ids) (extract target text) :=
  keeps_exists?.bind fun present => by
    cases present
    · exact keeps_setFile.bind fun _ => keeps_setFile
    · exact keeps_raise

theorem keeps_extractEntries {target : String → ℕ → String} {file : String} (n : ℕ)
    (texts : List String) : Keeps (DumpsAre ids) (extractEntries target file n texts) := by
  induction texts generalizing n with
  | nil => exact Keeps.pure _
  | cons text texts ih =>
    exact keeps_extract.bind fun _ => (ih (n + 1)).bind fun _ => Keeps.pure _

theorem keeps_extractFiles {target : String → ℕ → String} (files : List String) :
    Keeps (DumpsAre ids) (extractFiles target files) := by
  induction files with
  | nil => exact Keeps.pure _
  | cons file files ih =>
    exact keeps_readZip.bind fun entries => (keeps_extractEntries 1 entries).bind fun _ =>
      keeps_unlink.bind fun _ => ih.bind fun _ => Keeps.pure _

variable {readers : Readers} {dir : String} {dumpId : ℕ}

theorem keeps_attachDumpFile : Keeps (DumpsAre ids) (attachDumpFile dumpId path) := by
  refine keeps_nextId.bind fun id => (keeps_setDb ?_).bind fun _ => keeps_setScsbFile.bind fun _ =>
    keeps_readScsbText.bind fun _ => keeps_setScsbFile.bind fun _ => keeps_setScsbFile.bind fun _ =>
      (keeps_setDb ?_).bind fun _ => keeps_setDb ?_
  all_goals
    intro db db' h
    obtain rfl := Option.some.inj h
    rfl

theorem keeps_processXmlFile {file : String} :
    Keeps (DumpsAre ids) (processXmlFile readers dir dumpId file) :=
  keeps_readText.bind fun _ => keeps_setScsbFile.bind fun _ => (keeps_ofReader _).bind fun _ =>
    keeps_setScsbFile.bind fun _ => keeps_unlink.bind fun _ => keeps_attachDumpFile

theorem keeps_processXmlFiles (files : List String) :
    Keeps (DumpsAre ids) (processXmlFiles readers dir dumpId files) := by
  induction files with
  | nil => exact Keeps.pure _
  | cons file files ih => exact keeps_processXmlFile.bind fun _ => ih

theorem keeps_scsbIds (files : List String) : Keeps (DumpsAre ids) (scsbIds readers files) := by
  induction files with
  | nil => exact Keeps.pure _
  | cons file files ih =>
    exact keeps_readText.bind fun _ => (keeps_ofReader _).bind fun _ => keeps_unlink.bind fun _ =>
      ih.bind fun _ => Keeps.pure _

theorem keeps_findDump : Keeps (DumpsAre ids) (findDump dumpId) := by
  refine Keeps.of_run (fun w => ?_) fun w r h => ?_
  · unfold findDump
    split <;> rfl
  · unfold run findDump at h
    split at h
    · obtain rfl := Option.some.inj h
      rfl
    · cases h

theorem keeps_processIncrementalFiles (s3 : Listing) (timestamp : Time) :
    Keeps (DumpsAre ids) (processIncrementalFiles readers dir dumpId s3 timestamp) := by
  refine keeps_findDump.bind fun _ => (keeps_fetchFiles _).bind fun files =>
    ((keeps_extractFiles files).bind fun xmlFiles => keeps_processXmlFiles xmlFiles).bind fun _ =>
      (keeps_setDb ?_).bind fun _ => (keeps_fetchFiles _).bind fun deletes =>
        (keeps_extractFiles deletes).bind fun jsonFiles => (keeps_scsbIds jsonFiles).bind fun _ =>
          keeps_setDb ?_
  · intro db db' h
    obtain ⟨dates, -, rfl⟩ := Option.map_eq_some_iff.1 h
    exact ids_update
  · intro db db' h
    obtain rfl := Option.some.inj h
    exact ids_update

/-- What the job leaves that is stopped after `n` steps. -/
def stopped (readers : Readers) (dir : String) (dumpId : ℕ) (s3 : Listing) (timestamp : Time)
    (n : ℕ) (w : World) : World :=
  stopAt (processIncrementalFiles readers dir dumpId s3 timestamp) n w

/-- The job recovers exactly where it can read all there is and the stopped one has left the dump
without a file and nothing in the way. -/
theorem recovers_iff (readers : Readers) (dir : String) (dumpId : ℕ) (s3 : Listing)
    (timestamp : Time) (n : ℕ) (w : World) :
    Recovers readers dir dumpId s3 timestamp (stopped readers dir dumpId s3 timestamp n w) ↔
      (dumpId ∈ w.db.dumps.map (·.id) ∧ Readable readers dir dumpId s3 timestamp)
      ∧ (stopped readers dir dumpId s3 timestamp n w).db.dumpFiles.filter
          (·.dumpId = some dumpId) = []
      ∧ NothingInTheWay s3 timestamp (stopped readers dir dumpId s3 timestamp n w) := by
  have hdumps : DumpsAre (w.db.dumps.map (·.id))
      (stopped readers dir dumpId s3 timestamp n w) :=
    (keeps_processIncrementalFiles s3 timestamp).stopAt n rfl
  rw [recovers_iff_of_state, hdumps]
  tauto

def oneOfEach : Listing where
  updates := [{
    key := "data/CUL-NYPL-HL_20210622_183200.zip", lastModified := 5, entries := ["a"] }]
  deletes := [{
    key := "json/CUL-NYPL-HL_20210622_183300.zip", lastModified := 5, entries := ["12"] }]

def oneOfEachReaders : Readers where
  parse s := if s = "20210622" then some 5 else none
  processRecords text := some text
  bibIds text := some [text]

def newDump : World where
  db := { dumps := [{ id := 1, dumpType := .partnerRecap, event := { id := 1, start := 0 } }] }

/-- Stopped when the entry is extracted, the job raises when it is run again; stopped when the file
is attached, it attaches another. -/
theorem not_recovers_oneOfEach :
    (run (processIncrementalFiles oneOfEachReaders "/data" 1 oneOfEach 0) newDump).isSome
    ∧ ¬ Recovers oneOfEachReaders "/data" 1 oneOfEach 0
        (stopped oneOfEachReaders "/data" 1 oneOfEach 0 4 newDump)
    ∧ ¬ Recovers oneOfEachReaders "/data" 1 oneOfEach 0
        (stopped oneOfEachReaders "/data" 1 oneOfEach 0 14 newDump) := by
  refine ⟨by decide +kernel, ?_, ?_⟩
  · rintro ⟨w', hrun, -⟩
    have hnone : (run (processIncrementalFiles oneOfEachReaders "/data" 1 oneOfEach 0)
        (stopped oneOfEachReaders "/data" 1 oneOfEach 0 4 newDump)).isNone := by decide +kernel
    rw [hrun] at hnone
    cases hnone
  · intro hrecovers
    have hattached : (stopped oneOfEachReaders "/data" 1 oneOfEach 0 14 newDump).db.dumpFiles.filter
        (·.dumpId = some 1) ≠ [] := by decide +kernel
    exact hattached (recovers_iff_of_state.1 hrecovers).2.1

end Stopped

end Bibdata.IncrementalFiles
