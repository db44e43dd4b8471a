import Bibdata.PartnerFull

/-!
# What a full import of the partners brings

However jobs stop, are run again and interleave, records are attached only from a zip of an
institution whose CSV was validated before (`validated_of_run`), and the event is a success only
once every institution was validated and downloaded, and each file of a download was attached
(`attached_of_success`). The CSV and the zip are objects of the bucket with keys of the institution
(`FromCsv`, `FromZip`).
-/

namespace Bibdata

namespace PartnerFull

open Stoppable Transition

variable {settings : Settings} {readers : Readers} {s s' : State} {e : Attempt}

/-- From `s` to `s'` only files change, and dump files are attached that `ok` allows. -/
structure Attaches (ok : String × DumpFileType → Prop) (s s' : State) : Prop where
  bucket : s'.bucket = s.bucket
  validations : s'.validations = s.validations
  downloads : s'.downloads = s.downloads
  success : s'.success = s.success
  still : ∀ f ∈ s.attached, f ∈ s'.attached
  new : ∀ f ∈ s'.attached, f ∈ s.attached ∨ ok f

theorem Attaches.refl {ok : String × DumpFileType → Prop} : Attaches ok s s :=
  ⟨rfl, rfl, rfl, rfl, fun _ => id, fun _ => .inl⟩

/-- What `zip` and the rest of the jobs do to files. -/
theorem Attaches.files {ok : String × DumpFileType → Prop} {files : DownloadFullFileJob.Files}
    (h : Attaches ok s s') : Attaches ok s { s' with files } :=
  ⟨h.bucket, h.validations, h.downloads, h.success, h.still, h.new⟩

section Programs

variable {ok : String × DumpFileType → Prop} {s₀ : State} {α : Type}

theorem keeps_setFile {path : String} {text : Option String} :
    Keeps (Attaches ok s₀) (setFile path text) := by
  refine Keeps.op fun s r hs hr => ?_
  rw [← Option.some.inj hr]
  exact hs.files

theorem keeps_readFile {path : String} : Keeps (Attaches ok s₀) (readFile path) := by
  refine Keeps.of_run (fun s => ?_) fun s r hr => ?_
  · unfold readFile
    split <;> rfl
  · unfold run readFile at hr
    split at hr
    · rw [← Option.some.inj hr]
    · cases hr

theorem keeps_exists? {path : String} : Keeps (Attaches ok s₀) (exists? path) := by
  refine Keeps.of_run (fun s => rfl) fun s r hr => ?_
  rw [← Option.some.inj hr]

theorem keeps_raise : Keeps (Attaches ok s₀) (raise : Stoppable State α) :=
  Keeps.of_run (fun _ => rfl) fun _ _ hr => by cases hr

theorem keeps_ofReader {a : Option α} : Keeps (Attaches ok s₀) (ofReader a) := by
  cases a with
  | none => exact keeps_raise
  | some a => exact Keeps.pure a

theorem keeps_listRecent {institution : Institution} {extension : String} :
    Keeps (Attaches ok s₀) (listRecent settings institution extension) := by
  refine Keeps.of_run (fun s => rfl) fun s r hr => ?_
  rw [← Option.some.inj hr]

theorem keeps_unlinkIfExists {path : String} :
    Keeps (Attaches ok s₀) (unlinkIfExists path) := by
  refine Keeps.bind keeps_exists? fun b => ?_
  split
  · exact keeps_setFile
  · exact Keeps.pure _

theorem keeps_zip {path : String} : Keeps (Attaches ok s₀) (zip path) := by
  unfold zip
  split
  · exact Keeps.pure _
  · exact keeps_setFile.bind fun _ => keeps_readFile.bind fun _ => keeps_setFile.bind fun _ =>
      keeps_setFile

theorem keeps_attachDumpFile {path : String} {dumpFileType : DumpFileType}
    (hok : ok (zippedPath path, dumpFileType)) :
    Keeps (Attaches ok s₀) (attachDumpFile path dumpFileType) := by
  refine keeps_zip.bind fun _ => Keeps.op fun s r hs hr => ?_
  rw [← Option.some.inj hr]
  refine ⟨hs.bucket, hs.validations, hs.downloads, hs.success,
    fun f hf => List.mem_append_left _ (hs.still f hf), fun f hf => ?_⟩
  rcases List.mem_append.1 hf with hf | hf
  · exact hs.new f hf
  · rw [List.mem_singleton.1 hf]
    exact .inr hok

theorem keeps_downloadFullFile {institution : Institution} {extension : String} :
    Keeps (Attaches ok s₀) (downloadFullFile settings institution extension) := by
  refine keeps_listRecent.bind fun object => ?_
  cases object with
  | none => exact keeps_raise
  | some object =>
    exact keeps_setFile.bind fun _ => keeps_setFile.bind fun _ => Keeps.pure _

theorem keeps_validateCsv {institution : Institution}
    (hok : ∀ path, ok (path, .recapRecordsFullMetadata)) :
    Keeps (Attaches ok s₀) (validateCsv settings readers institution) := by
  refine keeps_downloadFullFile.bind fun file => keeps_readFile.bind fun text =>
    keeps_ofReader.bind fun groupIds => keeps_setFile.bind fun _ => keeps_setFile.bind fun _ =>
      (keeps_attachDumpFile (hok _)).bind fun _ => keeps_unlinkIfExists.bind fun _ => ?_
  split
  · exact Keeps.pure _
  · exact keeps_raise

theorem keeps_extractEntries {file filePrefix : String} :
    ∀ {fileIncrement : ℕ} {entries : List String},
      Keeps (Attaches ok s₀) (extractEntries settings file filePrefix fileIncrement entries)
  | _, [] => Keeps.pure _
  | fileIncrement, entry :: entries => by
    refine keeps_exists?.bind fun b => ?_
    split
    · exact keeps_extractEntries.bind fun _ => Keeps.pure _
    · exact keeps_setFile.bind fun _ => keeps_setFile.bind fun _ =>
        keeps_extractEntries.bind fun _ => Keeps.pure _

theorem keeps_downloadAndUnzip {institution : Institution} :
    Keeps (Attaches ok s₀) (downloadAndUnzip settings readers institution) :=
  keeps_downloadFullFile.bind fun _ => keeps_readFile.bind fun _ => keeps_ofReader.bind fun _ =>
    keeps_extractEntries.bind fun _ => Keeps.pure _

theorem keeps_processXmlFile {file : String}
    (hok : ok (zippedPath (recordsPath settings file), .recapRecordsFull)) :
    Keeps (Attaches ok s₀) (processXmlFile settings readers file) :=
  keeps_readFile.bind fun _ => keeps_setFile.bind fun _ => keeps_ofReader.bind fun _ =>
    keeps_setFile.bind fun _ => (keeps_attachDumpFile hok).bind fun _ => keeps_unlinkIfExists

end Programs

section Results

theorem run_bind_some {α β : Type} {p : Stoppable State α} {k : α → Stoppable State β}
    {r : β × State} (h : run (p >>= k) s = some r) :
    ∃ a s₁, run p s = some (a, s₁) ∧ run (k a) s₁ = some r := by
  rw [run_bind, Option.bind_eq_some_iff] at h
  obtain ⟨⟨a, s₁⟩, hp, hk⟩ := h
  exact ⟨a, s₁, hp, hk⟩

/-- An object with an export of the institution. -/
def IsExport (settings : Settings) (institution : Institution) (extension : String)
    (object : Object) : Prop :=
  settings.partnerFulls.toList <+: object.key.toList
    ∧ fileFilter institution extension object.key = true

/-- The CSV is the text of an object of the institution. -/
def FromCsv (settings : Settings) (bucket : List Object) (v : Validation) : Prop :=
  ∃ o ∈ bucket, IsExport settings v.institution "csv" o ∧ o.text = v.csv

/-- The zip is an object of the institution with these entries, and the files are numbered as they
come out of it. -/
structure FromZip (settings : Settings) (readers : Readers) (bucket : List Object)
    (d : Download) : Prop where
  object : ∃ o ∈ bucket, IsExport settings d.institution "zip" o
    ∧ d.zipFile = settings.updateDirectory ++ "/" ++ basename o.key
    ∧ readers.entries o.text = some d.entries
  xmlFiles : ∀ file ∈ d.xmlFiles, ∃ k, 1 ≤ k ∧ k ≤ d.entries.length
    ∧ file = DownloadFullFileJob.targetPath settings.updateDirectory d.zipFile
      d.institution.filePrefix k

variable {bucket bucket' : List Object}

theorem FromCsv.mono {v : Validation} (h : FromCsv settings bucket v)
    (hmono : ∀ o ∈ bucket, o ∈ bucket') : FromCsv settings bucket' v := by
  obtain ⟨o, ho, hexport⟩ := h
  exact ⟨o, hmono o ho, hexport⟩

theorem FromZip.mono {d : Download} (h : FromZip settings readers bucket d)
    (hmono : ∀ o ∈ bucket, o ∈ bucket') : FromZip settings readers bucket' d := by
  obtain ⟨o, ho, hexport⟩ := h.object
  exact ⟨⟨o, hmono o ho, hexport⟩, h.xmlFiles⟩

theorem mem_of_recentFile {institution : Institution} {extension : String} {object : Object}
    (h : recentFile settings bucket institution extension = some object) :
    object ∈ bucket ∧ IsExport settings institution extension object := by
  have hmem := List.mem_of_getLast? h
  rw [List.mem_insertionSort, List.mem_filter] at hmem
  exact ⟨hmem.1, by simpa [IsExport] using hmem.2⟩

theorem object_of_downloadFullFile {institution : Institution} {extension path : String}
    (h : run (downloadFullFile settings institution extension) s = some (path, s')) :
    ∃ o ∈ s.bucket, IsExport settings institution extension o
      ∧ path = settings.updateDirectory ++ "/" ++ basename o.key ∧ s'.files path = some o.text := by
  obtain ⟨object, s₁, hlist, h⟩ := run_bind_some h
  have hobject : object = recentFile settings s.bucket institution extension :=
    (congrArg Prod.fst (Option.some.inj hlist)).symm
  cases object with
  | none => cases h
  | some object =>
    obtain ⟨_, s₂, -, h⟩ := run_bind_some h
    obtain ⟨_, s₃, hset, h⟩ := run_bind_some h
    rw [run_pure, Option.some.injEq, Prod.mk.injEq] at h
    obtain ⟨rfl, rfl⟩ := h
    obtain ⟨hmem, hexport⟩ := mem_of_recentFile hobject.symm
    refine ⟨object, hmem, hexport, rfl, ?_⟩
    rw [setFile, run_op, Option.some.injEq, Prod.mk.injEq] at hset
    rw [← hset.2]
    exact Function.update_self ..

theorem text_of_readFile {path text : String} (h : run (readFile path) s = some (text, s')) :
    s.files path = some text ∧ s' = s := by
  unfold run readFile at h
  split at h
  · rename_i heq
    rw [Option.some.injEq, Prod.mk.injEq] at h
    exact ⟨h.1 ▸ heq, h.2.symm⟩
  · cases h

theorem value_of_ofReader {α : Type} {a : Option α} {value : α}
    (h : run (ofReader a) s = some (value, s')) : a = some value := by
  cases a with
  | none => cases h
  | some a => exact congrArg some (congrArg Prod.fst (Option.some.inj h))

theorem fromCsv_of_validateCsv {institution : Institution} {csv : String}
    (h : run (validateCsv settings readers institution) s = some (csv, s')) :
    readers.groupIds csv = some (some expectedCollections)
      ∧ FromCsv settings s.bucket ⟨institution, csv⟩ := by
  obtain ⟨file, s₁, hfile, h⟩ := run_bind_some h
  obtain ⟨text, s₂, htext, h⟩ := run_bind_some h
  obtain ⟨groupIds, s₃, hids, h⟩ := run_bind_some h
  obtain ⟨_, s₄, -, h⟩ := run_bind_some h
  obtain ⟨_, s₅, -, h⟩ := run_bind_some h
  obtain ⟨_, s₆, -, h⟩ := run_bind_some h
  obtain ⟨_, s₇, -, h⟩ := run_bind_some h
  split_ifs at h with hexpected
  · obtain rfl : text = csv := congrArg Prod.fst (Option.some.inj h)
    obtain ⟨o, ho, hexport, -, hwritten⟩ := object_of_downloadFullFile hfile
    refine ⟨hexpected ▸ value_of_ofReader hids, o, ho, hexport, ?_⟩
    exact Option.some.inj (hwritten.symm.trans (text_of_readFile htext).1)
  · cases h

theorem attached_of_attachDumpFile {path : String} {dumpFileType : DumpFileType} {r : Unit × State}
    (h : run (attachDumpFile path dumpFileType) s = some r) :
    (zippedPath path, dumpFileType) ∈ r.2.attached := by
  obtain ⟨_, s₁, -, h⟩ := run_bind_some h
  rw [run_op] at h
  rw [← Option.some.inj h]
  exact List.mem_append_right _ List.mem_cons_self

theorem attached_of_processXmlFile {file : String} {r : Unit × State}
    (h : run (processXmlFile settings readers file) s = some r) :
    (zippedPath (recordsPath settings file), .recapRecordsFull) ∈ r.2.attached := by
  obtain ⟨_, s₁, -, h⟩ := run_bind_some h
  obtain ⟨_, s₂, -, h⟩ := run_bind_some h
  obtain ⟨_, s₃, -, h⟩ := run_bind_some h
  obtain ⟨_, s₄, -, h⟩ := run_bind_some h
  obtain ⟨_, s₅, hattach, h⟩ := run_bind_some h
  have hmem := attached_of_attachDumpFile hattach
  have hkeeps : Keeps (Attaches (fun _ => True) s₅) (unlinkIfExists file) := keeps_unlinkIfExists
  exact ((hkeeps s₅ .refl).2 r h).still _ hmem

/-- Each file has the number of an entry, at most. -/
theorem targetPath_of_extractEntries {file filePrefix : String} : ∀ {fileIncrement : ℕ}
    {entries xmlFiles : List String} {s s' : State},
    run (extractEntries settings file filePrefix fileIncrement entries) s = some (xmlFiles, s') →
    ∀ path ∈ xmlFiles, ∃ k, fileIncrement ≤ k ∧ k < fileIncrement + entries.length
      ∧ path = DownloadFullFileJob.targetPath settings.updateDirectory file filePrefix k
  | _, [], _, _, _, h, path, hpath => by
    obtain rfl := congrArg Prod.fst (Option.some.inj h)
    cases hpath
  | fileIncrement, entry :: entries, xmlFiles, _, _, h, path, hpath => by
    obtain ⟨there, s₁, -, h⟩ := run_bind_some h
    split_ifs at h
    · obtain ⟨rest, s₂, hrest, h⟩ := run_bind_some h
      obtain rfl := congrArg Prod.fst (Option.some.inj h)
      rcases List.mem_cons.1 hpath with rfl | hpath
      · exact ⟨fileIncrement, le_refl _, by simp, rfl⟩
      · obtain ⟨k, hle, hlt, heq⟩ := targetPath_of_extractEntries hrest path hpath
        exact ⟨k, hle, by rw [List.length_cons]; omega, heq⟩
    · obtain ⟨_, s₂, -, h⟩ := run_bind_some h
      obtain ⟨_, s₃, -, h⟩ := run_bind_some h
      obtain ⟨rest, s₄, hrest, h⟩ := run_bind_some h
      obtain rfl := congrArg Prod.fst (Option.some.inj h)
      rcases List.mem_cons.1 hpath with rfl | hpath
      · exact ⟨fileIncrement, le_refl _, by simp, rfl⟩
      · obtain ⟨k, hle, hlt, heq⟩ := targetPath_of_extractEntries hrest path hpath
        exact ⟨k, by omega, by rw [List.length_cons]; omega, heq⟩

theorem fromZip_of_downloadAndUnzip {institution : Institution} {d : Download}
    (h : run (downloadAndUnzip settings readers institution) s = some (d, s')) :
    d.institution = institution ∧ FromZip settings readers s.bucket d := by
  obtain ⟨zipFile, s₁, hzip, h⟩ := run_bind_some h
  obtain ⟨text, s₂, htext, h⟩ := run_bind_some h
  obtain ⟨entries, s₃, hentries, h⟩ := run_bind_some h
  obtain ⟨xmlFiles, s₄, hfiles, h⟩ := run_bind_some h
  obtain rfl := congrArg Prod.fst (Option.some.inj h)
  obtain ⟨o, ho, hexport, hpath, hwritten⟩ := object_of_downloadFullFile hzip
  have htext : o.text = text := Option.some.inj (hwritten.symm.trans (text_of_readFile htext).1)
  refine ⟨rfl, ⟨o, ho, hexport, hpath, htext ▸ value_of_ofReader hentries⟩, fun file hfile => ?_⟩
  obtain ⟨k, hle, hlt, heq⟩ :=
    targetPath_of_extractEntries hfiles file (List.mem_eraseDups.1 hfile)
  exact ⟨k, hle, by dsimp only; omega, heq⟩

end Results

section Attempts

variable {α : Type} {p : Stoppable State α}

theorem attempt_keeps {I : State → Prop} (hp : Keeps I p) (hs : I s) : I (attempt p e s).1 := by
  unfold attempt
  split
  · exact hp.stopAt _ hs
  · split
    · rename_i hrun
      exact (hp s hs).2 _ hrun
    · exact hp.stopAt _ hs

theorem run_of_attempt {a : α} (h : (attempt p e s).2 = some a) :
    run p s = some (a, (attempt p e s).1) := by
  unfold attempt at h ⊢
  split at h
  · cases h
  · split at h
    · rename_i hrun
      rw [hrun, Option.some.inj h]
    · cases h

end Attempts

section Handlers

def Validated (s : State) (institution : Institution) : Prop :=
  ∃ v ∈ s.validations, v.institution = institution

def Downloaded (s : State) (institution : Institution) : Prop :=
  ∃ d ∈ s.downloads, d.institution = institution

def Listed (s : State) (file : String) : Prop := ∃ d ∈ s.downloads, file ∈ d.xmlFiles

def Attached (settings : Settings) (s : State) (file : String) : Prop :=
  (zippedPath (recordsPath settings file), .recapRecordsFull) ∈ s.attached

/-- Nothing that was achieved is lost. -/
structure Progress (s s' : State) : Prop where
  bucket : ∀ o ∈ s.bucket, o ∈ s'.bucket
  validations : ∀ v ∈ s.validations, v ∈ s'.validations
  downloads : ∀ d ∈ s.downloads, d ∈ s'.downloads
  attached : ∀ f ∈ s.attached, f ∈ s'.attached

theorem Attaches.progress {ok : String × DumpFileType → Prop} (h : Attaches ok s s') :
    Progress s s' :=
  ⟨fun _ ho => h.bucket ▸ ho, fun _ hv => h.validations ▸ hv, fun _ hd => h.downloads ▸ hd, h.still⟩

theorem Progress.validated (h : Progress s s') {institution : Institution}
    (hs : Validated s institution) : Validated s' institution := by
  obtain ⟨v, hv, hi⟩ := hs
  exact ⟨v, h.validations v hv, hi⟩

theorem Progress.downloaded (h : Progress s s') {institution : Institution}
    (hs : Downloaded s institution) : Downloaded s' institution := by
  obtain ⟨d, hd, hi⟩ := hs
  exact ⟨d, h.downloads d hd, hi⟩

/-- What an attempt at a job comes to. -/
inductive Performs (settings : Settings) (readers : Readers) (s : State) (e : Attempt) :
    Job → State → Option (List Work) → Prop
  | stopped {j s'} (h : Attaches (fun f => f.2 = .recapRecordsFullMetadata
      ∨ ∃ file, j = .processXmlFile file
        ∧ f = (zippedPath (recordsPath settings file), .recapRecordsFull)) s s') :
    Performs settings readers s e j s' none
  | started {work} (hwork : ∀ w ∈ work, w = .job .startWorkflow ∨ ∃ i, w = validateBatch i)
      (h : .job .startWorkflow ∈ work ∨ ∀ i, validateBatch i ∈ work) :
    Performs settings readers s e .startWorkflow s (some work)
  | validated {institution csv s'}
      (h : Attaches (fun f => f.2 = .recapRecordsFullMetadata) s s')
      (hids : readers.groupIds csv = some (some expectedCollections))
      (hcsv : FromCsv settings s.bucket ⟨institution, csv⟩) :
    Performs settings readers s e (.validateCsv institution)
      { s' with validations := s'.validations ++ [⟨institution, csv⟩] }
      (some (Batches.left e.again (.job (.validateCsv institution)) []))
  | downloaded {institution d s'} (h : Attaches (fun _ => False) s s')
      (hd : d.institution = institution) (hzip : FromZip settings readers s.bucket d) :
    Performs settings readers s e (.downloadFullFile institution)
      { s' with downloads := s'.downloads ++ [d] }
      (some (Batches.left e.again (.job (.downloadFullFile institution)) [processBatch d]))
  | processed {file s'}
      (h : Attaches (fun f => f = (zippedPath (recordsPath settings file), .recapRecordsFull)) s s')
      (hattached : Attached settings s' file) :
    Performs settings readers s e (.processXmlFile file) s'
      (some (Batches.left e.again (.job (.processXmlFile file)) []))

theorem Attaches.mono {ok ok' : String × DumpFileType → Prop} (h : Attaches ok s s')
    (hok : ∀ f, ok f → ok' f) : Attaches ok' s s' :=
  ⟨h.bucket, h.validations, h.downloads, h.success, h.still,
    fun f hf => (h.new f hf).imp_right (hok f)⟩

theorem eq_validateBatch {work : List Institution} {w : Work}
    (h : w ∈ work.map validateBatch) : ∃ i, w = validateBatch i := by
  obtain ⟨i, -, rfl⟩ := List.mem_map.1 h
  exact ⟨i, rfl⟩

theorem performs_perform (j : Job) :
    Performs settings readers s e j (perform settings readers s j e).1
      (perform settings readers s j e).2 := by
  cases j with
  | startWorkflow =>
    unfold perform
    dsimp only
    split
    · refine .started (fun w hw => ?_) (.inl (List.mem_append_right _ List.mem_cons_self))
      rcases List.mem_append.1 hw with hw | hw
      · exact .inr (eq_validateBatch hw)
      · exact .inl (List.mem_singleton.1 hw)
    · refine .started (fun w hw => (Batches.eq_of_mem_left hw).imp_right eq_validateBatch)
        (.inr fun i => Batches.mem_left (List.mem_map_of_mem ?_))
      cases i <;> simp [institutions]
  | validateCsv institution =>
    have hkeeps : Attaches (fun f => f.2 = .recapRecordsFullMetadata) s
        (attempt (validateCsv settings readers institution) e s).1 :=
      attempt_keeps (keeps_validateCsv fun _ => rfl) .refl
    unfold perform
    dsimp only
    split
    · rename_i s' csv heq
      have hrun := run_of_attempt (congrArg Prod.snd heq)
      rw [heq] at hkeeps
      obtain ⟨hids, hcsv⟩ := fromCsv_of_validateCsv hrun
      exact .validated hkeeps hids hcsv
    · rename_i s' heq
      rw [heq] at hkeeps
      exact .stopped (hkeeps.mono fun _ => .inl)
  | downloadFullFile institution =>
    have hkeeps : Attaches (fun _ => False) s
        (attempt (downloadAndUnzip settings readers institution) e s).1 :=
      attempt_keeps keeps_downloadAndUnzip .refl
    unfold perform
    dsimp only
    split
    · rename_i s' d heq
      have hrun := run_of_attempt (congrArg Prod.snd heq)
      rw [heq] at hkeeps
      obtain ⟨hd, hzip⟩ := fromZip_of_downloadAndUnzip hrun
      exact .downloaded hkeeps hd hzip
    · rename_i s' heq
      rw [heq] at hkeeps
      exact .stopped (hkeeps.mono fun _ => False.elim)
  | processXmlFile file =>
    have hkeeps : Attaches
        (fun f => f = (zippedPath (recordsPath settings file), .recapRecordsFull)) s
        (attempt (processXmlFile settings readers file) e s).1 :=
      attempt_keeps (keeps_processXmlFile rfl) .refl
    unfold perform
    dsimp only
    cases hr : (attempt (processXmlFile settings readers file) e s).2 with
    | none => exact .stopped (hkeeps.mono fun f hf => .inr ⟨file, rfl, hf⟩)
    | some u => exact .processed hkeeps (attached_of_processXmlFile (run_of_attempt hr))

theorem performs_of {j : Job} {new : Option (List Work)}
    (h : (handlers settings readers).perform s j e = some (s', new)) :
    Performs settings readers s e j s' new := by
  have hperforms : Performs settings readers s e j (perform settings readers s j e).1
      (perform settings readers s j e).2 := performs_perform j
  rwa [Option.some.inj h] at hperforms

theorem Performs.progress {j : Job} {new : Option (List Work)}
    (h : Performs settings readers s e j s' new) : Progress s s' := by
  cases h with
  | stopped h => exact h.progress
  | started _ _ => exact ⟨fun _ => id, fun _ => id, fun _ => id, fun _ => id⟩
  | validated h _ _ =>
    exact { h.progress with
      validations := fun v hv => List.mem_append_left _ (h.progress.validations v hv) }
  | downloaded h _ _ =>
    exact { h.progress with
      downloads := fun d hd => List.mem_append_left _ (h.progress.downloads d hd) }
  | processed h _ => exact h.progress

theorem Performs.success {j : Job} {new : Option (List Work)}
    (h : Performs settings readers s e j s' new) : s'.success = s.success := by
  cases h with
  | started _ _ => rfl
  | stopped h | validated h _ _ | downloaded h _ _ | processed h _ => exact h.success

/-- A callback changes at most the files. -/
theorem attaches_of_callback {c : Callback} {new : List Work}
    (h : (handlers settings readers).callback s c e = some (s', new)) :
    Attaches (fun _ => False) s s' := by
  cases c <;> cases h
  · exact .refl
  · exact .refl
  · exact Attaches.refl.files

end Handlers

section Pays

open Batches

variable {inv : State → Prop}

/-- A zip is downloaded once the CSV is validated, and a file processed that a download has. -/
def reliance : Reliance State Job Callback Unit where
  job s
    | .downloadFullFile institution => Validated s institution
    | .processXmlFile file => Listed s file
    | _ => True
  callback s
    | .validateCsvSuccess institution => fun _ => Validated s institution
    | _ => fun _ => True
  owedByJob
    | .validateCsvSuccess institution => fun _ j =>
      j = .startWorkflow ∨ j = .validateCsv institution
    | _ => fun _ _ => False
  owedByCallback _ _ _ := False

/-- An institution that is not validated yet is owed its validation. -/
theorem pays_validated (institution : Institution) :
    Pays reliance (handlers settings readers) inv (Validated · institution)
      (fun j => j = .startWorkflow ∨ j = .validateCsv institution) fun _ => False where
  failed s j e s' _ _ h hs := (performs_of h).progress.validated hs
  perform s j e s' new _ _ h howes := by
    have hperforms := performs_of h
    rcases howes with hs | hj
    · exact .inl (hperforms.progress.validated hs)
    cases hperforms with
    | started _ h =>
      rcases h with h | h
      · exact .inr ⟨_, h, .job (.inl rfl)⟩
      · exact .inr ⟨_, h institution, .inside List.mem_cons_self (.job (.inr rfl))⟩
    | validated _ _ _ =>
      rcases hj with hj | hj
      · cases hj
      · cases hj
        exact .inl ⟨_, List.mem_append_right _ List.mem_cons_self, rfl⟩
    | downloaded _ _ _ => rcases hj with hj | hj <;> cases hj
    | processed _ _ => rcases hj with hj | hj <;> cases hj
  callback s c e s' new _ _ h howes :=
    .inl ((attaches_of_callback h).progress.validated (howes.resolve_right id))

theorem pays_downloaded (institution : Institution) :
    Pays reliance (handlers settings readers) inv (Downloaded · institution)
      (fun j => j = .startWorkflow ∨ j = .downloadFullFile institution)
      (· = .validateCsvSuccess institution) where
  failed s j e s' _ _ h hs := (performs_of h).progress.downloaded hs
  perform s j e s' new _ _ h howes := by
    have hperforms := performs_of h
    rcases howes with hs | hj
    · exact .inl (hperforms.progress.downloaded hs)
    cases hperforms with
    | started _ h =>
      rcases h with h | h
      · exact .inr ⟨_, h, .job (.inl rfl)⟩
      · exact .inr ⟨_, h institution, .callback rfl⟩
    | downloaded _ hd _ =>
      rcases hj with hj | hj
      · cases hj
      · cases hj
        exact .inl ⟨_, List.mem_append_right _ List.mem_cons_self, hd⟩
    | validated _ _ _ => rcases hj with hj | hj <;> cases hj
    | processed _ _ => rcases hj with hj | hj <;> cases hj
  callback s c e s' new _ _ h howes := by
    rcases howes with hs | rfl
    · exact .inl ((attaches_of_callback h).progress.downloaded hs)
    · cases h
      exact .inr ⟨downloadBatch institution, mem_left List.mem_cons_self,
        .inside List.mem_cons_self (.job (.inr rfl))⟩

/-- A file of a download is attached. -/
def Handled (settings : Settings) (file : String) (s : State) : Prop :=
  Listed s file → Attached settings s file

theorem Attaches.handled {ok : String × DumpFileType → Prop} (h : Attaches ok s s') {file : String}
    (hs : Handled settings file s) : Handled settings file s' := by
  rintro ⟨d, hd, hfile⟩
  exact h.still _ (hs ⟨d, h.downloads ▸ hd, hfile⟩)

theorem pays_handled (file : String) :
    Pays reliance (handlers settings readers) inv (Handled settings file) (· = .processXmlFile file)
      fun _ => False where
  failed s j e s' _ _ h hs := by
    have hperforms := performs_of h
    cases hperforms with
    | stopped h => exact h.handled hs
  perform s j e s' new _ _ h howes := by
    have hperforms := performs_of h
    cases hperforms with
    | started _ _ => exact .inl (howes.resolve_right (by simp))
    | validated hattaches _ _ => exact .inl (hattaches.handled (howes.resolve_right (by simp)))
    | @downloaded institution d s₁ hattaches _ _ =>
      have hold : Handled settings file s₁ := hattaches.handled (howes.resolve_right (by simp))
      by_cases hd : file ∈ d.xmlFiles
      · exact .inr ⟨processBatch d, mem_left List.mem_cons_self,
          .inside (List.mem_map_of_mem hd) (.job rfl)⟩
      · refine .inl ?_
        rintro ⟨d', hd', hfile⟩
        rcases List.mem_append.1 hd' with hd' | hd'
        · exact hold ⟨d', hd', hfile⟩
        · rw [List.mem_singleton.1 hd'] at hfile
          exact absurd hfile hd
    | processed hattaches hattached =>
      rcases howes with hs | hj
      · exact .inl (hattaches.handled hs)
      · cases hj
        exact .inl fun _ => hattached
  callback s c e s' new _ _ h howes :=
    .inl ((attaches_of_callback h).handled (howes.resolve_right id))

end Pays

section Guards

open Batches

structure Inv (settings : Settings) (readers : Readers) (s : State) : Prop where
  validations : ∀ v ∈ s.validations,
    readers.groupIds v.csv = some (some expectedCollections) ∧ FromCsv settings s.bucket v
  downloads : ∀ d ∈ s.downloads,
    Validated s d.institution ∧ FromZip settings readers s.bucket d
  attached : ∀ f ∈ s.attached, f.2 = .recapRecordsFullMetadata ∨ ∃ file, Listed s file
    ∧ f = (zippedPath (recordsPath settings file), .recapRecordsFull)

theorem Progress.listed (h : Progress s s') {file : String} (hs : Listed s file) :
    Listed s' file := by
  obtain ⟨d, hd, hfile⟩ := hs
  exact ⟨d, h.downloads d hd, hfile⟩

theorem Progress.job (h : Progress s s') : ∀ j, reliance.job s j → reliance.job s' j
  | .startWorkflow, _ => trivial
  | .validateCsv _, _ => trivial
  | .downloadFullFile _, hj => h.validated hj
  | .processXmlFile _, hj => h.listed hj

theorem Progress.callback (h : Progress s s') :
    ∀ c i, reliance.callback s c i → reliance.callback s' c i
  | .validateCsvSuccess _, _, hc => h.validated hc
  | .downloadFileSuccess, _, _ => trivial
  | .processXmlFileSuccess _, _, _ => trivial

/-- What is attached is allowed by what is listed before. -/
theorem Inv.of_attaches {ok : String × DumpFileType → Prop} (hs : Inv settings readers s)
    (h : Attaches ok s s')
    (hok : ∀ f, ok f → f.2 = .recapRecordsFullMetadata ∨ ∃ file, Listed s file
      ∧ f = (zippedPath (recordsPath settings file), .recapRecordsFull)) :
    Inv settings readers s' where
  validations v hv :=
    (hs.validations v (h.validations ▸ hv)).imp_right (·.mono h.progress.bucket)
  downloads d hd := by
    obtain ⟨hvalidated, hzip⟩ := hs.downloads d (h.downloads ▸ hd)
    exact ⟨h.progress.validated hvalidated, hzip.mono h.progress.bucket⟩
  attached f hf := by
    refine ((h.new f hf).elim (hs.attached f) (hok f)).imp_right ?_
    rintro ⟨file, hlisted, heq⟩
    exact ⟨file, h.progress.listed hlisted, heq⟩

theorem Performs.inv {j : Job} {new : Option (List Work)}
    (h : Performs settings readers s e j s' new) (hs : Inv settings readers s)
    (hj : reliance.job s j) : Inv settings readers s' := by
  cases h with
  | stopped h =>
    refine hs.of_attaches h fun f hf => hf.imp_right ?_
    rintro ⟨file, rfl, heq⟩
    exact ⟨file, hj, heq⟩
  | started _ _ => exact hs
  | validated h hids hcsv =>
    have hs' := hs.of_attaches h fun _ => .inl
    refine ⟨fun v hv => ?_, fun d hd => ?_, hs'.attached⟩
    · rcases List.mem_append.1 hv with hv | hv
      · exact hs'.validations v hv
      · rw [List.mem_singleton.1 hv]
        exact ⟨hids, hcsv.mono h.progress.bucket⟩
    · obtain ⟨⟨v, hv, hi⟩, hzip⟩ := hs'.downloads d hd
      exact ⟨⟨v, List.mem_append_left _ hv, hi⟩, hzip⟩
  | downloaded h hd hzip =>
    have hs' := hs.of_attaches h fun _ => False.elim
    refine ⟨hs'.validations, fun d' hd' => ?_, fun f hf => (hs'.attached f hf).imp_right ?_⟩
    · rcases List.mem_append.1 hd' with hd' | hd'
      · exact hs'.downloads d' hd'
      · rw [List.mem_singleton.1 hd']
        refine ⟨?_, hzip.mono h.progress.bucket⟩
        rw [hd]
        exact h.progress.validated hj
    · rintro ⟨file, ⟨d', hd', hfile⟩, heq⟩
      exact ⟨file, ⟨d', List.mem_append_left _ hd', hfile⟩, heq⟩
  | processed h _ => exact hs.of_attaches h fun f hf => .inr ⟨_, hj, hf⟩

theorem sound_validateBatch (institution : Institution) :
    Batches.Sound reliance s (validateBatch institution) := by
  refine .batch (fun _ => .inr ⟨_, List.mem_cons_self, .job (.inr rfl)⟩) fun w hw => ?_
  rw [List.mem_singleton.1 hw]
  exact .job trivial

theorem Performs.sound {j : Job} {new : Option (List Work)}
    (h : Performs settings readers s e j s' new) (hj : reliance.job s j) :
    ∀ work ∈ new, ∀ w ∈ work, Batches.Sound reliance s' w := by
  have hagain : Batches.Sound reliance s' (.job j) := .job (h.progress.job j hj)
  cases h with
  | stopped _ => simp
  | started hwork _ =>
    rintro work ⟨⟩ w hw
    rcases hwork w hw with rfl | ⟨i, rfl⟩
    · exact hagain
    · exact sound_validateBatch i
  | validated _ _ _ =>
    rintro work ⟨⟩
    exact hagain.left (by simp)
  | downloaded _ _ _ =>
    rintro work ⟨⟩
    refine hagain.left fun w hw => ?_
    rw [List.mem_singleton.1 hw]
    refine .batch (fun _ => .inl trivial) fun v hv => ?_
    obtain ⟨file, hfile, rfl⟩ := List.mem_map.1 hv
    exact .job ⟨_, List.mem_append_right _ List.mem_cons_self, hfile⟩
  | processed _ _ =>
    rintro work ⟨⟩
    exact hagain.left (by simp)

theorem sound_of_callback {c : Callback} {new : List Work}
    (h : (handlers settings readers).callback s c e = some (s', new))
    (hc : ∀ i, reliance.callback s c i) : ∀ w ∈ new, Batches.Sound reliance s' w := by
  have hc' := fun i => (attaches_of_callback h).progress.callback c i (hc i)
  have hagain : Batches.Sound reliance s' (.batch c []) := .batch (fun i => .inl (hc' i)) (by simp)
  cases c with
  | validateCsvSuccess institution =>
    cases h
    refine hagain.left fun w hw => ?_
    rw [List.mem_singleton.1 hw]
    refine .batch (fun _ => .inl trivial) fun v hv => ?_
    rw [List.mem_singleton.1 hv]
    exact .job (hc ())
  | downloadFileSuccess =>
    cases h
    exact hagain.left (by simp)
  | processXmlFileSuccess zipFile =>
    cases h
    exact hagain.left (by simp)

theorem guards (success : Bool) : Guards reliance (handlers settings readers)
    fun s => Inv settings readers s ∧ s.success = success where
  pays
    | .validateCsvSuccess institution, _ => pays_validated institution
    | .downloadFileSuccess, _ => .of_forall fun _ => trivial
    | .processXmlFileSuccess _, _ => .of_forall fun _ => trivial
  perform s j e s' new hs hj h := by
    have hperforms := performs_of h
    exact ⟨⟨hperforms.inv hs.1 hj, hperforms.success.trans hs.2⟩, hperforms.progress.job,
      hperforms.progress.callback, hperforms.sound hj⟩
  callback s c e s' new hs hc h := by
    have hattaches := attaches_of_callback h
    exact ⟨⟨hs.1.of_attaches hattaches fun _ => False.elim, hattaches.success.trans hs.2⟩,
      hattaches.progress.job, hattaches.progress.callback, sound_of_callback h hc⟩

end Guards

section Runs

open Batches

variable {parse : String → Option Time} {y y' : System}

structure SystemInv (settings : Settings) (readers : Readers) (y : System) : Prop where
  state : Inv settings readers y.state
  work : ∀ w ∈ y.work, Batches.Sound reliance y.state w
  validated : ∀ institution, Owed (Validated y.state institution)
    (fun j => j = .startWorkflow ∨ j = .validateCsv institution) (fun _ => False) y.work
  downloaded : ∀ institution, Owed (Downloaded y.state institution)
    (fun j => j = .startWorkflow ∨ j = .downloadFullFile institution)
    (· = .validateCsvSuccess institution) y.work
  handled : ∀ file, Owed (Handled settings file y.state) (· = .processXmlFile file)
    (fun _ => False) y.work
  success : y.state.success = true → y.work = []

theorem systemInv_begun {bucket : List Object} {files : DownloadFullFileJob.Files} :
    SystemInv settings readers (begun settings bucket files) where
  state := ⟨by simp [begun], by simp [begun], by simp [begun]⟩
  work w hw := by
    rw [List.mem_singleton.1 hw]
    exact .job trivial
  validated _ := .inr ⟨_, List.mem_cons_self, .job (.inl rfl)⟩
  downloaded _ := .inr ⟨_, List.mem_cons_self, .job (.inl rfl)⟩
  handled file := by
    refine .inl ?_
    rintro ⟨d, hd, -⟩
    cases hd
  success h := by cases h

theorem stepAt_nil {path : List ℕ} :
    stepAt (handlers settings readers) s e path ([] : List Work) = none := by
  rcases path with _ | ⟨i, _ | ⟨k, path⟩⟩ <;> simp [stepAt]

theorem systemInv_step {a : Act} (hy : SystemInv settings readers y)
    (h : step settings readers parse y a = some y') : SystemInv settings readers y' := by
  cases a with
  | attempt path e =>
    obtain ⟨⟨s', work'⟩, hstep, heq⟩ := Option.map_eq_some_iff.1 h
    cases heq
    obtain ⟨⟨hinv, hsame⟩, -, -, hwork⟩ :=
      Batches.Sound.step (guards y.state.success) ⟨hy.state, rfl⟩ hstep hy.work
    exact {
      state := hinv
      work := hwork
      validated := fun i => (hy.validated i).step (pays_validated i) hy.state hstep hy.work
      downloaded := fun i => (hy.downloaded i).step (pays_downloaded i) hy.state hstep hy.work
      handled := fun file => (hy.handled file).step (pays_handled file) hy.state hstep hy.work
      success := fun hsuccess => by
        rw [hsame] at hsuccess
        rw [hy.success hsuccess, stepAt_nil] at hstep
        cases hstep }
  | upload object =>
    cases h
    have hprogress : Progress y.state { y.state with bucket := y.state.bucket ++ [object] } :=
      ⟨fun _ ho => List.mem_append_left _ ho, fun _ => id, fun _ => id, fun _ => id⟩
    have hinv : Inv settings readers { y.state with bucket := y.state.bucket ++ [object] } :=
      ⟨fun v hv => (hy.state.validations v hv).imp_right (·.mono hprogress.bucket),
        fun d hd => (hy.state.downloads d hd).imp_right (·.mono hprogress.bucket),
        hy.state.attached⟩
    exact ⟨hinv, fun w hw => (hy.work w hw).mono hprogress.job hprogress.callback, hy.validated,
      hy.downloaded, hy.handled, hy.success⟩
  | overallSuccess =>
    unfold step at h
    split_ifs at h with hempty
    obtain ⟨dates, -, heq⟩ := Option.map_eq_some_iff.1 h
    cases heq
    have hprogress : Progress y.state { y.state with success := true } :=
      ⟨fun _ => id, fun _ => id, fun _ => id, fun _ => id⟩
    exact ⟨⟨hy.state.1, hy.state.2, hy.state.3⟩,
      fun w hw => (hy.work w hw).mono hprogress.job hprogress.callback, hy.validated,
      hy.downloaded, hy.handled, fun _ => List.isEmpty_iff.1 hempty⟩

/-- Each letter of a zip is an entry, and the text of a CSV its collections. -/
def byLetter : Readers where
  groupIds text := some (some text)
  entries text := some (text.toList.map fun c => String.ofList [c])
  processRecords := some

def inData : Settings := { scsbFileDir := "/data" }

def csvOf (institution : Institution) (lastModified : Time) (text : String) : Object :=
  { key := inData.partnerFulls ++ "/ExportDataDump_Full_" ++ institution.name ++ "_20210430.csv",
    lastModified, text }

def zipOf (institution : Institution) (text : String) : Object :=
  { key := inData.partnerFulls ++ "/" ++ institution.name ++ "_20210430.zip", lastModified := 1,
    text }

def exports : List Object :=
  [csvOf .nypl 1 expectedCollections, zipOf .nypl "ab", csvOf .cul 1 "1*2", zipOf .cul "",
    csvOf .hl 1 expectedCollections, zipOf .hl ""]

/-- CUL is wrong at first; a job for NYPL is stopped; and CUL is done before the rest of NYPL. -/
def fullImport : List Act :=
  [.attempt [0] {}, .attempt [1, 0] {}, .attempt [0, 0] { stop := some 5 }, .attempt [0, 0] {},
    .attempt [0] {}, .upload (csvOf .cul 2 expectedCollections), .attempt [0, 0] {},
    .attempt [1, 0] {}, .attempt [1] {}, .attempt [1, 0] {}, .attempt [1, 0] {}, .attempt [1] {},
    .attempt [0, 0, 1] {}, .attempt [0, 0, 0] {}, .attempt [0, 0] {}, .attempt [0] {},
    .attempt [0, 0] {}, .attempt [0] {}, .attempt [0, 0] {}, .attempt [0, 0] {}, .attempt [0] {},
    .overallSuccess]

/-- The records in a dump file come from a file of a zip of the bucket, and the institution that
the zip is of was validated before, with a CSV of the bucket. -/
theorem validated_of_run {bucket : List Object} {files : DownloadFullFileJob.Files} {es : List Act}
    (h : Run (step settings readers parse) (fun _ _ => True) (begun settings bucket files) es y)
    {path : String} (hpath : (path, .recapRecordsFull) ∈ y.state.attached) :
    ∃ d ∈ y.state.downloads, ∃ file ∈ d.xmlFiles,
      path = zippedPath (recordsPath settings file)
        ∧ FromZip settings readers y.state.bucket d
        ∧ ∃ v ∈ y.state.validations, v.institution = d.institution
          ∧ readers.groupIds v.csv = some (some expectedCollections)
          ∧ FromCsv settings y.state.bucket v := by
  have hinv := h.invariant (fun _ _ _ hs _ hstep => systemInv_step hs hstep) systemInv_begun
  rcases hinv.state.attached _ hpath with hmetadata | ⟨file, ⟨d, hd, hfile⟩, heq⟩
  · cases hmetadata
  · obtain ⟨⟨v, hv, hi⟩, hzip⟩ := hinv.state.downloads d hd
    exact ⟨d, hd, file, hfile, congrArg Prod.fst heq, hzip, v, hv, hi,
      hinv.state.validations v hv⟩

theorem validated_fullImport : ∃ y : System,
    Run (step inData byLetter fun _ => some 0) (fun _ _ => True)
        (begun inData exports fun _ => none) fullImport y
      ∧ ∃ d ∈ y.state.downloads, ∃ file ∈ d.xmlFiles,
        "/data/scsbfull_nypl_NYPL_20210430_1.xml.gz" = zippedPath (recordsPath inData file)
          ∧ FromZip inData byLetter y.state.bucket d
          ∧ ∃ v ∈ y.state.validations, v.institution = d.institution
            ∧ byLetter.groupIds v.csv = some (some expectedCollections)
            ∧ FromCsv inData y.state.bucket v := by
  obtain ⟨y, hy, hpath⟩ : ∃ y ∈ exec
      (guarded (step inData byLetter fun _ => some 0) fun _ _ => True)
      (begun inData exports fun _ => none) fullImport,
      ("/data/scsbfull_nypl_NYPL_20210430_1.xml.gz", .recapRecordsFull) ∈ y.state.attached := by
    decide +kernel
  have hrun := run_of_exec hy
  exact ⟨y, hrun, validated_of_run hrun hpath⟩

/-- Once the event is a success, each institution was validated with a CSV of the bucket and its zip
was downloaded from there, and each file that came out of a zip is attached as records. -/
theorem attached_of_success {bucket : List Object} {files : DownloadFullFileJob.Files}
    {es : List Act}
    (h : Run (step settings readers parse) (fun _ _ => True) (begun settings bucket files) es y)
    (hsuccess : y.state.success = true) :
    (∀ institution, (∃ v ∈ y.state.validations, v.institution = institution
        ∧ readers.groupIds v.csv = some (some expectedCollections)
        ∧ FromCsv settings y.state.bucket v)
      ∧ ∃ d ∈ y.state.downloads, d.institution = institution
        ∧ FromZip settings readers y.state.bucket d)
    ∧ ∀ d ∈ y.state.downloads, ∀ file ∈ d.xmlFiles,
      (zippedPath (recordsPath settings file), .recapRecordsFull) ∈ y.state.attached := by
  have hinv := h.invariant (fun _ _ _ hs _ hstep => systemInv_step hs hstep) systemInv_begun
  have hwork := hinv.success hsuccess
  refine ⟨fun institution => ⟨?_, ?_⟩, fun d hd file hfile => ?_⟩
  · obtain ⟨v, hv, hi⟩ := (hwork ▸ hinv.validated institution).of_nil
    exact ⟨v, hv, hi, hinv.state.validations v hv⟩
  · obtain ⟨d, hd, hi⟩ := (hwork ▸ hinv.downloaded institution).of_nil
    exact ⟨d, hd, hi, (hinv.state.downloads d hd).2⟩
  · exact (hwork ▸ hinv.handled file).of_nil ⟨d, hd, hfile⟩

theorem attached_fullImport : ∃ y : System,
    Run (step inData byLetter fun _ => some 0) (fun _ _ => True)
        (begun inData exports fun _ => none) fullImport y
      ∧ y.generatedDate = some 0
      ∧ ∀ institution, ∃ d ∈ y.state.downloads, d.institution = institution
        ∧ FromZip inData byLetter y.state.bucket d := by
  obtain ⟨y, hy, hsuccess, hdate⟩ : ∃ y ∈ exec
      (guarded (step inData byLetter fun _ => some 0) fun _ _ => True)
      (begun inData exports fun _ => none) fullImport,
      y.state.success = true ∧ y.generatedDate = some 0 := by
    decide +kernel
  have hrun := run_of_exec hy
  exact ⟨y, hrun, hdate, fun institution => ((attached_of_success hrun hsuccess).1 institution).2⟩

end Runs

end PartnerFull

end Bibdata
