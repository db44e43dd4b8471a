import Bibdata.ImportAlma
import Bibdata.Proofs.IncrementalFiles

/-!
# The import run again

An execution that completes adds one row for each remote file and leaves the whole file beside it
(`imported_of_run`), whatever was there before. So the dump has one row for each exactly where no
stopped execution had come to attach one (`imported_iff`).
-/

namespace Bibdata

namespace ImportAlma

open Stoppable

namespace AlmaDownloader

/-! ### Where the files go -/

section Paths

variable {config : Config} {listing : Listing} {jobId : String} {entry entry' : RemoteFile}

variable (config) in
def localPath (entry : RemoteFile) : String := dumpFilePath config (remotePath config entry)

theorem basename_remotePath (h : '/' ∉ entry.name.toList) :
    basename (remotePath config entry) = entry.name := by
  have hpath : (remotePath config entry).toList
      = config.remoteBasePath.toList ++ '/' :: entry.name.toList := by
    simp [remotePath]
  rw [basename, hpath, List.splitOn_append_cons_self, List.splitOn_eq_singleton h,
    List.getLast?_append, List.getLast?_singleton, Option.some_or, Option.getD_some,
    String.ofList_toList]

theorem name_eq_of_localPath (h : '/' ∉ entry.name.toList) (h' : '/' ∉ entry'.name.toList)
    (heq : localPath config entry = localPath config entry') : entry.name = entry'.name := by
  rw [localPath, localPath, dumpFilePath, dumpFilePath, basename_remotePath h,
    basename_remotePath h', String.append_right_inj] at heq
  exact heq

theorem notMem_name_of_mem (h : entry ∈ jobEntries listing jobId) : '/' ∉ entry.name.toList :=
  listing.notMem_name entry (List.mem_filter.1 h).1

variable (config listing jobId) in
/-- The files of a job go to different places. -/
theorem nodup_localPath : ((jobEntries listing jobId).map (localPath config)).Nodup := by
  have hnames : ((jobEntries listing jobId).map (·.name)).Nodup :=
    listing.nodup_name.sublist (List.filter_sublist.map _)
  refine List.Nodup.map_on (fun entry h entry' h' heq => ?_) hnames.of_map
  exact List.inj_on_of_nodup_map hnames h h'
    (name_eq_of_localPath (notMem_name_of_mem h) (notMem_name_of_mem h') heq)

end Paths

/-! ### Waiting for the downloads -/

section Wait

variable {w w' : World} {d : Download} {ds : List Download}

@[simp] theorem run_setFile (path : String) (content : Bytes) (w : World) :
    run (setFile path content) w
      = some ((), { w with disk := Function.update w.disk path (some content) }) := rfl

@[simp] theorem run_raise {α : Type} (w : World) : run (raise : Job α) w = none := rfl

/-- Where a download goes and what it should leave there. -/
def Download.goal (d : Download) : String × Bytes := (d.localPath, d.content)

theorem map_goal_set {i size : ℕ} (h : ds[i]? = some d) :
    (ds.set i (d.receive size)).map Download.goal = ds.map Download.goal := by
  obtain ⟨hi, rfl⟩ := List.getElem?_eq_some_iff.1 h
  have hlt : i < (ds.map Download.goal).length := by simpa using hi
  have hgoal : (ds[i].receive size).goal = (ds.map Download.goal)[i] := by
    rw [List.getElem_map]
    rfl
  rw [List.map_set, hgoal, List.set_getElem_self]

theorem written_of_isDone (h : d.isDone) : d.written = d.content := by
  have hreceived : d.received = some d.content.length := by simpa [Download.isDone] using h
  rw [Download.written, hreceived, Option.getD_some, List.take_length]

theorem isSome_of_isDone (h : d.isDone) : d.received.isSome := by
  have hreceived : d.received = some d.content.length := by simpa [Download.isDone] using h
  rw [hreceived, Option.isSome_some]

/-- No two downloads are to one place, and each open file holds what has been written to it. -/
structure UnderWay (ds : List Download) (w : World) : Prop where
  distinct : ((ds.map Download.goal).map Prod.fst).Nodup
  written : ∀ d ∈ ds, d.received.isSome → w.disk d.localPath = some d.written

theorem underWay_set {i size : ℕ} (h : UnderWay ds w) (hd : ds[i]? = some d) :
    UnderWay (ds.set i (d.receive size))
      { w with disk := Function.update w.disk d.localPath (some (d.receive size).written) } := by
  have hnodup : (((ds.set i (d.receive size)).map Download.goal).map Prod.fst).Nodup := by
    rw [map_goal_set hd]
    exact h.distinct
  refine ⟨hnodup, fun e he hsome => ?_⟩
  have hi : i < ds.length := (List.getElem?_eq_some_iff.1 hd).1
  by_cases hpath : e.localPath = d.localPath
  · have hreceived : e = d.receive size := by
      rw [List.map_map] at hnodup
      exact List.inj_on_of_nodup_map hnodup he (List.mem_set hi _) hpath
    rw [hreceived]
    exact Function.update_self ..
  · rcases List.mem_or_eq_of_mem_set he with he | rfl
    · exact (Function.update_of_ne hpath ..).trans (h.written e he hsome)
    · exact absurd rfl hpath

/-- When the downloads are done, each file holds the whole of the remote one. -/
theorem run_wait (packets : List Packet) (h : UnderWay ds w)
    (hrun : run (wait packets ds) w = some ((), w')) :
    w'.toSys = w.toSys ∧ ∀ g ∈ ds.map Download.goal, w'.disk g.1 = some g.2 := by
  induction packets generalizing ds w with
  | nil =>
    rw [wait] at hrun
    split at hrun
    · rename_i hall
      obtain ⟨-, rfl⟩ := Prod.mk.inj (Option.some.inj hrun)
      refine ⟨rfl, fun g hg => ?_⟩
      obtain ⟨d, hd, rfl⟩ := List.mem_map.1 hg
      have hdone := List.all_eq_true.1 hall d hd
      rw [Download.goal, h.written d hd (isSome_of_isDone hdone), written_of_isDone hdone]
    · simp at hrun
  | cons packet packets ih =>
    rw [wait] at hrun
    rcases hd : ds[packet.download]? with _ | d
    · rw [hd] at hrun
      exact ih h hrun
    · rw [hd] at hrun
      dsimp only at hrun
      rw [run_bind, run_setFile, Option.bind_some] at hrun
      obtain ⟨hsys, hfiles⟩ := ih (underWay_set h hd) hrun
      rw [map_goal_set hd] at hfiles
      exact ⟨hsys, hfiles⟩

end Wait

/-! ### The rows -/

section CreateFiles

variable {config : Config} {dumpFileType : DumpFileType} {w w' : World}

@[simp] theorem run_nextId : run nextId w = some (IncrementalFiles.newId w.db, w) := rfl

@[simp] theorem run_exists? {path : String} :
    run (exists? path) w = some ((w.disk path).isSome, w) := rfl

@[simp] theorem run_setDb {change : Db → Db} :
    run (setDb change) w = some ((), { w with db := change w.db }) := rfl

theorem run_transferFile (entry : RemoteFile) (path : String) (w : World) :
    ∃ disk, run (transferFile entry path) w
      = some ({ localPath := path, content := entry.content }, { w with disk := disk }) := by
  rcases hpath : w.disk path with _ | content
  · exact ⟨w.disk, by simp [transferFile, run_bind, hpath]⟩
  · exact ⟨Function.update w.disk path (some []), by simp [transferFile, run_bind, hpath]⟩

/-- Rows that were made for the entries: none is attached, and none has the id of an older one. -/
structure NewRows (config : Config) (entries : List RemoteFile) (db : Db)
    (rows : List DumpFile) : Prop where
  path : rows.map (·.path) = entries.map (localPath config)
  unattached : ∀ f ∈ rows, f.dumpId = none
  notMem : ∀ f ∈ db.dumpFiles, f.id ∉ rows.map (·.id)

theorem newRows_cons {entry : RemoteFile} {entries : List RemoteFile} {db : Db} {row : DumpFile}
    {rows : List DumpFile} (hid : row.id = IncrementalFiles.newId db) (hdump : row.dumpId = none)
    (hpath : row.path = localPath config entry)
    (h : NewRows config entries (db.attach [row]) rows) :
    NewRows config (entry :: entries) db (row :: rows) := by
  refine ⟨?_, ?_, fun f hf => ?_⟩
  · rw [List.map_cons, List.map_cons, hpath, h.path]
  · exact List.forall_mem_cons.2 ⟨hdump, h.unattached⟩
  · rw [List.map_cons, List.mem_cons, not_or, hid]
    exact ⟨IncrementalFiles.ne_newId hf, h.notMem f (List.mem_append_left _ hf)⟩

variable (config dumpFileType) in
theorem run_createFiles (entries : List RemoteFile) (w : World) :
    ∃ rows disk, NewRows config entries w.db rows
      ∧ run (createFiles config dumpFileType entries) w
        = some ((rows.map (·.id), entries.map fun entry =>
            { localPath := localPath config entry, content := entry.content }),
          { w with db := w.db.attach rows, disk := disk }) := by
  induction entries generalizing w with
  | nil =>
    refine ⟨[], w.disk, ⟨rfl, by simp, by simp⟩, ?_⟩
    simp [createFiles, Db.attach]
  | cons entry entries ih =>
    obtain ⟨disk, htransfer⟩ := run_transferFile entry (localPath config entry) { w with
      db := w.db.attach [{
        id := IncrementalFiles.newId w.db, dumpId := none, dumpFileType := some dumpFileType,
        path := localPath config entry }] }
    obtain ⟨rows, disk', hrows, hrest⟩ := ih { w with
      disk := disk
      db := w.db.attach [{
        id := IncrementalFiles.newId w.db, dumpId := none, dumpFileType := some dumpFileType,
        path := localPath config entry }] }
    refine ⟨_ :: rows, disk', newRows_cons rfl rfl rfl hrows, ?_⟩
    rw [createFiles, run_bind, run_nextId, Option.bind_some, run_bind, run_setDb, Option.bind_some,
      run_bind, ← localPath, htransfer, Option.bind_some, run_bind, hrest]
    simp [IncrementalFiles.attach_attach]

end CreateFiles

section FilesFor

variable {config : Config} {dumpFileType : DumpFileType} {listing : Listing} {jobId : String}
  {w w' : World} {ids : List ℕ}

theorem underWay_pending (w : World) :
    UnderWay ((jobEntries listing jobId).map fun entry =>
      { localPath := localPath config entry, content := entry.content }) w := by
  refine ⟨?_, fun d hd hsome => ?_⟩
  · rw [List.map_map, List.map_map]
    exact nodup_localPath config listing jobId
  · obtain ⟨entry, -, rfl⟩ := List.mem_map.1 hd
    simp at hsome

theorem run_filesFor {packets : List Packet}
    (h : run (filesFor config dumpFileType listing jobId packets) w = some (ids, w')) :
    ∃ rows, NewRows config (jobEntries listing jobId) w.db rows ∧ ids = rows.map (·.id)
      ∧ w'.db = w.db.attach rows
      ∧ ∀ entry ∈ jobEntries listing jobId,
        w'.disk (localPath config entry) = some entry.content := by
  obtain ⟨rows, disk, hrows, hcreate⟩ := run_createFiles config dumpFileType
    (jobEntries listing jobId) w
  rw [filesFor, run_bind, hcreate, Option.bind_some, run_bind] at h
  obtain ⟨⟨u, w₁⟩, hwait, hpure⟩ := Option.bind_eq_some_iff.1 h
  obtain ⟨rfl, rfl⟩ := Prod.mk.inj (Option.some.inj hpure)
  obtain ⟨hsys, hfiles⟩ := run_wait packets (underWay_pending _) hwait
  refine ⟨rows, hrows, rfl, congrArg Sys.db hsys, fun entry hentry => ?_⟩
  exact hfiles _ (List.mem_map_of_mem (List.mem_map_of_mem hentry))

end FilesFor

end AlmaDownloader

open AlmaDownloader

/-! ### An execution that completes -/

section Imported

/-- The rows by which a dump has the file at a path. -/
def attachedAt (dumpId : ℕ) (path : String) (db : Db) : List DumpFile :=
  db.dumpFiles.filter fun f => f.dumpId = some dumpId ∧ f.path = path

/-- The dump has one file for each remote file of the job, and it holds all of it. -/
structure Imported (config : Config) (listing : Listing) (dumpId : ℕ) (jobId : String)
    (w : World) : Prop where
  once : ∀ entry ∈ jobEntries listing jobId,
    (attachedAt dumpId (localPath config entry) w.db).length = 1
  complete : ∀ entry ∈ jobEntries listing jobId,
    ∀ f ∈ attachedAt dumpId (localPath config entry) w.db, w.disk f.path = some entry.content

variable {config : Config} {listing : Listing} {dumpId : ℕ} {jobId path : String} {w w' : World}

theorem run_findDump {dump : Dump} : run (findDump dumpId) w = some (dump, w') ↔
    w.db.dumps.find? (·.id = dumpId) = some dump ∧ w' = w := by
  unfold run findDump
  simp [eq_comm]

theorem run_dumpFileTypeOf {dump : Dump} {dumpFileType : DumpFileType} :
    run (dumpFileTypeOf dump) w = some (dumpFileType, w') ↔
      findDumpFileType dump = some dumpFileType ∧ w' = w := by
  unfold dumpFileTypeOf
  rcases findDumpFileType dump with _ | t
  · simp
  · simp [eq_comm]

theorem run_download {packets : List Packet} {dump : Dump} {ids : List ℕ}
    (h : run (download config listing dumpId jobId packets) w = some ((dump, ids), w')) :
    ∃ dumpFileType, w.db.dumps.find? (·.id = dumpId) = some dump
      ∧ findDumpFileType dump = some dumpFileType
      ∧ run (filesFor config dumpFileType listing jobId packets) w = some (ids, w') := by
  rw [download, run_bind] at h
  obtain ⟨⟨d, w₁⟩, hfind, hrest⟩ := Option.bind_eq_some_iff.1 h
  obtain ⟨hdump, rfl⟩ := run_findDump.1 hfind
  rw [run_bind] at hrest
  obtain ⟨⟨t, w₂⟩, htype, hrest'⟩ := Option.bind_eq_some_iff.1 hrest
  obtain ⟨hconfigured, rfl⟩ := run_dumpFileTypeOf.1 htype
  rw [run_bind] at hrest'
  obtain ⟨⟨is, w₃⟩, hfiles, hpure⟩ := Option.bind_eq_some_iff.1 hrest'
  rw [run_pure] at hpure
  obtain ⟨⟨rfl, rfl⟩, rfl⟩ : (d = dump ∧ is = ids) ∧ w₃ = w' := by simpa using hpure
  exact ⟨t, hdump, hconfigured, hfiles⟩

theorem run_attachFiles (dumpId : ℕ) (ids : List ℕ) (w : World) :
    ∃ db, run (attachFiles dumpId ids) w = some ((), { w with db := db })
      ∧ db.dumpFiles = w.db.dumpFiles.map fun f =>
          if f.id ∈ ids then { f with dumpId := some dumpId } else f := by
  induction ids generalizing w with
  | nil => exact ⟨w.db, rfl, by simp⟩
  | cons id ids ih =>
    obtain ⟨db, hrun, hdb⟩ := ih { w with
      db := attachFile dumpId id w.db }
    refine ⟨db, ?_, ?_⟩
    · rw [attachFiles, run_bind, run_setDb, Option.bind_some, hrun]
    · rw [hdb, attachFile, IncrementalFiles.updateFile, List.map_map]
      refine List.map_congr_left fun f _ => ?_
      simp only [Function.comp_apply, List.mem_cons]
      by_cases hid : f.id = id <;> by_cases hids : f.id ∈ ids <;> simp [hid, hids]

theorem run_indexRemaining {fuel : ℕ} (h : run (indexRemaining fuel) w = some ((), w')) :
    w'.db = w.db ∧ w'.disk = w.disk := by
  rw [indexRemaining, run_op] at h
  obtain ⟨s, hs, h⟩ := Option.map_eq_some_iff.1 h
  obtain ⟨-, rfl⟩ := Prod.mk.inj h
  obtain ⟨r, -, rfl⟩ := Option.map_eq_some_iff.1 hs
  split_ifs <;> exact ⟨rfl, rfl⟩

/-- The rows of the dump at a path once the new ones are attached. -/
theorem length_attachedAt {entries : List RemoteFile} {db db' : Db} {rows : List DumpFile}
    (hrows : NewRows config entries db rows)
    (hdb : db'.dumpFiles = (db.attach rows).dumpFiles.map fun f =>
      if f.id ∈ rows.map (·.id) then { f with dumpId := some dumpId } else f) :
    (attachedAt dumpId path db').length
      = (attachedAt dumpId path db).length + (entries.map (localPath config)).count path := by
  have hold : db.dumpFiles.map (fun f =>
      if f.id ∈ rows.map (·.id) then { f with dumpId := some dumpId } else f) = db.dumpFiles := by
    conv_rhs => rw [← List.map_id db.dumpFiles]
    exact List.map_congr_left fun f hf => if_neg (hrows.notMem f hf)
  have hnew : rows.map (fun f =>
      if f.id ∈ rows.map (·.id) then { f with dumpId := some dumpId } else f)
        = rows.map fun f => { f with dumpId := some dumpId } :=
    List.map_congr_left fun f hf => if_pos (List.mem_map_of_mem hf)
  rw [attachedAt, hdb, Db.attach, List.map_append, hold, hnew, List.filter_append,
    List.length_append, ← attachedAt, ← hrows.path, List.count, List.countP_map,
    ← List.countP_eq_length_filter, List.countP_map]
  congr 1
  refine List.countP_congr fun f _ => ?_
  simp

/-- What is left of `perform` when the files are there. -/
def attachAndIndex (dumpId fuel : ℕ) : Dump × List ℕ → Job Unit
  | (dump, ids) => do
    attachFiles dumpId ids
    if incrementalDump dump then indexRemaining fuel

theorem perform_eq {packets : List Packet} {fuel : ℕ} :
    perform config listing dumpId jobId packets fuel
      = download config listing dumpId jobId packets >>= attachAndIndex dumpId fuel := rfl

theorem run_attachAndIndex {fuel : ℕ} {dump : Dump} {ids : List ℕ}
    (h : run (attachAndIndex dumpId fuel (dump, ids)) w = some ((), w')) :
    (w'.db.dumpFiles = w.db.dumpFiles.map fun f =>
        if f.id ∈ ids then { f with dumpId := some dumpId } else f)
      ∧ w'.disk = w.disk := by
  obtain ⟨db, hattach, hdb⟩ := run_attachFiles dumpId ids w
  rw [attachAndIndex, run_bind, hattach, Option.bind_some] at h
  dsimp only at h
  split_ifs at h
  · obtain ⟨hdb', hdisk⟩ := run_indexRemaining h
    rw [hdb', hdisk]
    exact ⟨hdb, rfl⟩
  · obtain ⟨-, rfl⟩ := Prod.mk.inj (Option.some.inj h)
    exact ⟨hdb, rfl⟩

/-- Each remote file has one row more, and is there. -/
theorem length_attachedAt_of_run {packets : List Packet} {fuel : ℕ}
    (h : run (perform config listing dumpId jobId packets fuel) w = some ((), w'))
    {entry : RemoteFile} (hentry : entry ∈ jobEntries listing jobId) :
    (attachedAt dumpId (localPath config entry) w'.db).length
        = (attachedAt dumpId (localPath config entry) w.db).length + 1
      ∧ w'.disk (localPath config entry) = some entry.content := by
  rw [perform_eq, run_bind] at h
  obtain ⟨⟨⟨dump, ids⟩, w₁⟩, hdownload, hrest⟩ := Option.bind_eq_some_iff.1 h
  obtain ⟨t, -, -, hfiles⟩ := run_download hdownload
  obtain ⟨rows, hrows, rfl, hdb, hcontent⟩ := run_filesFor hfiles
  obtain ⟨hattached, hdisk⟩ := run_attachAndIndex hrest
  rw [hdb] at hattached
  rw [length_attachedAt hrows hattached, hdisk,
    List.count_eq_one_of_mem (nodup_localPath config listing jobId) (List.mem_map_of_mem hentry)]
  exact ⟨rfl, hcontent entry hentry⟩

theorem imported_iff_of_run {packets : List Packet} {fuel : ℕ}
    (h : run (perform config listing dumpId jobId packets fuel) w = some ((), w')) :
    Imported config listing dumpId jobId w' ↔ ∀ entry ∈ jobEntries listing jobId,
      attachedAt dumpId (localPath config entry) w.db = [] := by
  refine ⟨fun himported entry hentry => ?_, fun hnone => ⟨fun entry hentry => ?_, ?_⟩⟩
  · have hone := himported.once entry hentry
    rw [(length_attachedAt_of_run h hentry).1] at hone
    exact List.length_eq_zero_iff.1 (by omega)
  · rw [(length_attachedAt_of_run h hentry).1, hnone entry hentry, List.length_nil]
  · intro entry hentry f hf
    rw [(of_decide_eq_true (List.mem_filter.1 hf).2).2]
    exact (length_attachedAt_of_run h hentry).2

end Imported

/-! ### What holds of the tables while it runs -/

section Keeps

variable {config : Config} {listing : Listing} {dumpId : ℕ} {jobId : String} {I : Db → Prop}

/-- No step breaks what holds of the tables. -/
abbrev KeepsDb {α : Type} (I : Db → Prop) (p : Job α) : Prop := Stoppable.Keeps (fun w => I w.db) p

theorem keeps_setDb {change : Db → Db} (h : ∀ db, I db → I (change db)) :
    KeepsDb I (setDb change) :=
  Keeps.op fun w r hw hr => by
    obtain rfl := Option.some.inj hr
    exact h w.db hw

theorem keeps_setFile (path : String) (content : Bytes) :
    KeepsDb I (setFile path content) :=
  Keeps.op fun w r hw hr => by
    obtain rfl := Option.some.inj hr
    exact hw

theorem keeps_exists? (path : String) : KeepsDb I (exists? path) :=
  Keeps.of_run (fun _ => rfl) fun w r hr => by
    obtain rfl := Option.some.inj hr
    rfl

theorem keeps_nextId : KeepsDb I nextId :=
  Keeps.of_run (fun _ => rfl) fun w r hr => by
    obtain rfl := Option.some.inj hr
    rfl

theorem keeps_raise {α : Type} : KeepsDb I (raise : Job α) :=
  Keeps.of_run (fun _ => rfl) fun _ _ hr => by
    simp at hr

theorem keeps_findDump : KeepsDb I (findDump dumpId) :=
  Keeps.of_run (fun _ => rfl) fun _ _ hr => (run_findDump.1 hr).2

theorem keeps_dumpFileTypeOf (dump : Dump) : KeepsDb I (dumpFileTypeOf dump) := by
  unfold dumpFileTypeOf
  rcases findDumpFileType dump with _ | t
  · exact keeps_raise
  · exact Keeps.pure t

theorem keeps_indexRemaining (fuel : ℕ) : KeepsDb I (indexRemaining fuel) :=
  Keeps.op fun w r hw hr => by
    have hrun : run (indexRemaining fuel) w = some ((), r.2) := by
      rw [indexRemaining, run_op]
      exact hr
    rwa [(run_indexRemaining hrun).1]

theorem keeps_wait (packets : List Packet) (ds : List Download) :
    KeepsDb I (wait packets ds) := by
  induction packets generalizing ds with
  | nil =>
    rw [wait]
    split_ifs
    · exact Keeps.pure ()
    · exact keeps_raise
  | cons packet packets ih =>
    rw [wait]
    split
    · exact ih ds
    · exact (keeps_setFile _ _).bind fun _ => ih _

theorem keeps_transferFile (entry : RemoteFile) (path : String) :
    KeepsDb I (transferFile entry path) :=
  (keeps_exists? path).bind fun present => by
    cases present
    · exact Keeps.pure _
    · exact (keeps_setFile path []).bind fun _ => Keeps.pure _

variable (hnew : ∀ db row, row.dumpId = none → I db → I (db.attach [row]))

include hnew

theorem keeps_createFiles (dumpFileType : DumpFileType) (entries : List RemoteFile) :
    KeepsDb I (createFiles config dumpFileType entries) := by
  induction entries with
  | nil => exact Keeps.pure _
  | cons entry entries ih =>
    refine keeps_nextId.bind fun id => (keeps_setDb fun db => ?_).bind fun _ =>
      (keeps_transferFile entry _).bind fun download => ih.bind fun _ => Keeps.pure _
    exact hnew db _ rfl

theorem keeps_download (packets : List Packet) :
    KeepsDb I (download config listing dumpId jobId packets) :=
  keeps_findDump.bind fun dump => (keeps_dumpFileTypeOf dump).bind fun dumpFileType =>
    ((keeps_createFiles hnew dumpFileType _).bind fun files =>
      (keeps_wait packets files.2).bind fun _ => Keeps.pure _).bind fun _ => Keeps.pure _

omit hnew

variable (hattach : ∀ db id, I db → I (attachFile dumpId id db))

include hattach

theorem keeps_attachFiles (ids : List ℕ) :
    KeepsDb I (attachFiles dumpId ids) := by
  induction ids with
  | nil => exact Keeps.pure ()
  | cons id ids ih => exact (keeps_setDb fun db => hattach db id).bind fun _ => ih

theorem keeps_attachAndIndex (fuel : ℕ) (r : Dump × List ℕ) :
    KeepsDb I (attachAndIndex dumpId fuel r) :=
  (keeps_attachFiles hattach r.2).bind fun _ => by
    split_ifs
    · exact keeps_indexRemaining fuel
    · exact Keeps.pure ()

include hnew

variable (config listing jobId) in
theorem keeps_stopped (executions : List Execution) (w : World) (h : I w.db) :
    I (stopped config listing dumpId jobId executions w).db := by
  induction executions generalizing w with
  | nil => exact h
  | cons execution executions ih =>
    refine ih _ (Keeps.stopAt (I := fun w : World => I w.db) ?_ execution.steps h)
    exact (keeps_download hnew execution.packets).bind fun r => keeps_attachAndIndex hattach _ r

end Keeps

/-! ### Executions that are stopped -/

section Stopped

variable {config : Config} {listing : Listing} {dumpId : ℕ} {jobId path : String} {w w' : World}

theorem attachedAt_attach {db : Db} {row : DumpFile} (h : row.dumpId = none) :
    attachedAt dumpId path (db.attach [row]) = attachedAt dumpId path db := by
  simp [attachedAt, Db.attach, List.filter_append, h]

theorem attachedAt_attachFile_ne_nil {db : Db} {id : ℕ} (h : attachedAt dumpId path db ≠ []) :
    attachedAt dumpId path (attachFile dumpId id db) ≠ [] := by
  obtain ⟨f, hf⟩ := List.exists_mem_of_ne_nil _ h
  obtain ⟨hmem, hat⟩ := List.mem_filter.1 hf
  have hnew := List.mem_map_of_mem
    (f := fun f => if f.id = id then { f with dumpId := some dumpId } else f) hmem
  refine List.ne_nil_of_mem (List.mem_filter.2 ⟨hnew, ?_⟩)
  split_ifs
  · simpa using (of_decide_eq_true hat).2
  · exact hat

theorem attachedAt_attachFile_of_mem {db : Db} {row : DumpFile} (h : row ∈ db.dumpFiles)
    (hpath : row.path = path) : attachedAt dumpId path (attachFile dumpId row.id db) ≠ [] := by
  have hnew := List.mem_map_of_mem
    (f := fun f => if f.id = row.id then { f with dumpId := some dumpId } else f) h
  refine List.ne_nil_of_mem (List.mem_filter.2 ⟨hnew, ?_⟩)
  simp [hpath]

variable (config listing dumpId jobId) in
/-- The execution has not been stopped when `files_for` returns, and takes at least one step more:
the first `dump.dump_files <<`. -/
def Attaches (execution : Execution) (w : World) : Prop :=
  (run (download config listing dumpId jobId execution.packets) w).isSome
    ∧ (download config listing dumpId jobId execution.packets w).1.length < execution.steps

variable (config listing dumpId jobId) in
def NoneAttaches : List Execution → World → Prop
  | [], _ => True
  | execution :: executions, w =>
    ¬ Attaches config listing dumpId jobId execution w
      ∧ NoneAttaches executions (stopAt
        (perform config listing dumpId jobId execution.packets execution.fuel) execution.steps w)

theorem attachedAt_of_not_attaches {execution : Execution}
    (h : ¬ Attaches config listing dumpId jobId execution w) :
    attachedAt dumpId path (stopAt
        (perform config listing dumpId jobId execution.packets execution.fuel)
        execution.steps w).db
      = attachedAt dumpId path w.db := by
  have hstop : stopAt (perform config listing dumpId jobId execution.packets execution.fuel)
      execution.steps w
        = stopAt (download config listing dumpId jobId execution.packets) execution.steps w := by
    rw [perform_eq]
    rcases hrun : run (download config listing dumpId jobId execution.packets) w with _ | r
    · exact stopAt_bind_of_none hrun
    · apply stopAt_bind_of_le
      rw [Attaches, hrun] at h
      simpa using h
  rw [hstop]
  refine Keeps.stopAt (keeps_download
    (I := fun db => attachedAt dumpId path db = attachedAt dumpId path w.db) ?_ _) _ rfl
  intro db row hrow heq
  rw [attachedAt_attach hrow, heq]

theorem attachedAt_of_attaches {execution : Execution} {entry : RemoteFile}
    {entries : List RemoteFile} (hentries : jobEntries listing jobId = entry :: entries)
    (h : Attaches config listing dumpId jobId execution w) :
    attachedAt dumpId (localPath config entry) (stopAt
      (perform config listing dumpId jobId execution.packets execution.fuel)
      execution.steps w).db ≠ [] := by
  obtain ⟨hsome, hlt⟩ := h
  obtain ⟨⟨⟨dump, ids⟩, w₁⟩, hrun⟩ := Option.isSome_iff_exists.1 hsome
  obtain ⟨t, -, -, hfiles⟩ := run_download hrun
  obtain ⟨rows, hrows, rfl, hdb, -⟩ := run_filesFor hfiles
  have hpath := hrows.path
  rw [hentries, List.map_cons] at hpath
  obtain ⟨row, rows, rfl, hrow, -⟩ := List.map_eq_cons_iff.1 hpath
  -- the first step is the row's, and the others leave it attached
  have hfirst : (attachAndIndex dumpId execution.fuel (dump, (row :: rows).map (·.id)) w₁).1
      = { w₁ with db := attachFile dumpId row.id w₁.db }
        :: (attachAndIndex dumpId execution.fuel (dump, rows.map (·.id))
          { w₁ with db := attachFile dumpId row.id w₁.db }).1 := by
    rw [List.map_cons, attachAndIndex, attachFiles, bind_assoc, setDb]
    exact states_op_bind rfl
  have hattached : attachedAt dumpId (localPath config entry)
      (attachFile dumpId row.id w₁.db) ≠ [] :=
    attachedAt_attachFile_of_mem (by simp [hdb, Db.attach]) hrow
  have hmem := stopAt_bind_mem (k := attachAndIndex dumpId execution.fuel) hrun hlt
    (by rw [hfirst]; exact List.cons_ne_nil _ _)
  rw [hfirst, ← perform_eq] at hmem
  rcases List.mem_cons.1 hmem with heq | hlater
  · rw [heq]
    exact hattached
  · exact (keeps_attachAndIndex
      (I := fun db => attachedAt dumpId (localPath config entry) db ≠ [])
      (fun _ _ => attachedAt_attachFile_ne_nil) _ _).of_mem hattached hlater

/-- What the dump has when the stopped executions are over. -/
theorem attachedAt_stopped_iff (executions : List Execution) (w : World) :
    (∀ entry ∈ jobEntries listing jobId, attachedAt dumpId (localPath config entry)
        (stopped config listing dumpId jobId executions w).db = [])
      ↔ ∀ entry ∈ jobEntries listing jobId, attachedAt dumpId (localPath config entry) w.db = []
        ∧ NoneAttaches config listing dumpId jobId executions w := by
  induction executions generalizing w with
  | nil => simp [stopped, NoneAttaches]
  | cons execution executions ih =>
    rw [stopped, NoneAttaches]
    by_cases h : Attaches config listing dumpId jobId execution w
    · rcases hentries : jobEntries listing jobId with _ | ⟨entry, entries⟩
      · simp
      · have hstays := keeps_stopped config listing jobId
          (I := fun db => attachedAt dumpId (localPath config entry) db ≠ [])
          (fun db row hrow => by rw [attachedAt_attach hrow]; exact id)
          (fun db id => attachedAt_attachFile_ne_nil) executions _
          (attachedAt_of_attaches hentries h)
        refine ⟨fun hnone => absurd (hnone entry List.mem_cons_self) hstays, fun hnone => ?_⟩
        exact absurd h (hnone entry List.mem_cons_self).2.1
    · rw [ih]
      simp only [attachedAt_of_not_attaches h, h, not_false_eq_true, true_and]

/-- The execution that completes leaves one whole file for each remote one exactly where the dump
had none of them at first and no execution before it had come to attach one. -/
theorem imported_iff (config : Config) (listing : Listing) (dumpId : ℕ) (jobId : String)
    (executions : List Execution) (packets : List Packet) (fuel : ℕ) (w w' : World)
    (h : run (perform config listing dumpId jobId packets fuel)
      (stopped config listing dumpId jobId executions w) = some ((), w')) :
    Imported config listing dumpId jobId w' ↔ ∀ entry ∈ jobEntries listing jobId,
      attachedAt dumpId (localPath config entry) w.db = []
        ∧ NoneAttaches config listing dumpId jobId executions w :=
  (imported_iff_of_run h).trans (attachedAt_stopped_iff executions w)

def alma : Config where
  remoteBasePath := "/alma/publishing"
  dataDir := "data"

/-- Two files of a job and one of another. -/
def twoFiles : Listing where
  entries := [⟨"fulldump_17_new_1.tar.gz", [31]⟩, ⟨"fulldump_17_new_2.tar.gz", [139]⟩,
    ⟨"fulldump_16_new_1.tar.gz", [8]⟩]
  nodup_name := by decide
  notMem_name := by decide

def generalPublishing : Dump where
  id := 1
  dumpType := .fullDump
  event := {
    id := 1
    start := 0
    messageBody := some {
      id := "17", name := "Publishing Platform Job General Publishing", startTime := 0
      endTime := 0 } }

def created : World where
  db := { dumps := [generalPublishing] }

def bothArrive : List Packet := [⟨0, 0⟩, ⟨1, 0⟩, ⟨1, 1⟩, ⟨0, 1⟩]

/-- Stopped during the downloads, the import completes when it is run again. -/
theorem imported_iff_duringDownload :
    ∃ w', run (perform alma twoFiles 1 "17" bothArrive 0)
        (stopped alma twoFiles 1 "17" [⟨bothArrive, 0, 3⟩] created) = some ((), w')
      ∧ Imported alma twoFiles 1 "17" w' := by
  have hsome : (run (perform alma twoFiles 1 "17" bothArrive 0)
      (stopped alma twoFiles 1 "17" [⟨bothArrive, 0, 3⟩] created)).isSome := by decide +kernel
  obtain ⟨⟨u, w'⟩, hrun⟩ := Option.isSome_iff_exists.1 hsome
  refine ⟨w', hrun, (imported_iff alma twoFiles 1 "17" _ bothArrive 0 created w' hrun).2 ?_⟩
  intro entry _
  refine ⟨rfl, fun hattaches => ?_, trivial⟩
  exact absurd hattaches.2 (by decide +kernel)

/-- Stopped after the first of two rows is attached, it has that file twice. -/
theorem not_imported_rerun :
    ∃ w', run (perform alma twoFiles 1 "17" bothArrive 0)
        (stopped alma twoFiles 1 "17" [⟨bothArrive, 0, 7⟩] created) = some ((), w')
      ∧ ¬ Imported alma twoFiles 1 "17" w' := by
  have hsome : (run (perform alma twoFiles 1 "17" bothArrive 0)
      (stopped alma twoFiles 1 "17" [⟨bothArrive, 0, 7⟩] created)).isSome := by decide +kernel
  obtain ⟨⟨u, w'⟩, hrun⟩ := Option.isSome_iff_exists.1 hsome
  refine ⟨w', hrun, fun himported => ?_⟩
  have hnone := (imported_iff_of_run hrun).1 himported ⟨"fulldump_17_new_1.tar.gz", [31]⟩
    (by decide +kernel)
  exact absurd hnone (by decide +kernel)

end Stopped

end ImportAlma

end Bibdata
