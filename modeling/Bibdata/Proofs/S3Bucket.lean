import Bibdata.Library.Transition
import Bibdata.S3Bucket

/-!
# Each file of a window is in its own run

The window of a run is from the creation of the dump before its own to that of its own. A job
lists after its dump was created, so that what its window brought is in the bucket by then: it has
been downloaded or is still to come up (`Pending`), whatever the pages are. Later runs have later
timestamps.
-/

namespace Bibdata.IncrementalImport

open Transition

variable {env : String → Option String} {s s' s₀ : State} {j : Job} {i : ℕ} {o : S3Object}

section Statement

/-- The file is one that this step of a job downloads. -/
def Matches (env : String → Option String) (source : Source) (o : S3Object) : Prop :=
  (source.folder env).toList <+: o.key.toList ∧ S3Bucket.fileFilter o.key = true

/-- Dump `e` is the incremental after `d`. -/
def Consecutive (db : Db) (d e : Dump) : Prop :=
  d ∈ db.partnerRecap ∧ e ∈ db.partnerRecap ∧ d.id < e.id
    ∧ ∀ c ∈ db.partnerRecap, ¬ (d.id < c.id ∧ c.id < e.id)

/-- The ids of the incrementals increase with their creation. -/
def Increasing (db : Db) : Prop :=
  ∀ d ∈ db.partnerRecap, ∀ e ∈ db.partnerRecap, d.id < e.id → d.createdAt ≤ e.createdAt

/-- Before the first of the runs. -/
structure Initial (s : State) : Prop where
  jobs : s.jobs = []
  created : ∀ d ∈ s.db.partnerRecap, d.createdAt ≤ s.now
  increasing : Increasing s.db

/-- The file became visible in the window of dump `e`. -/
def InWindow (d e : Dump) (o : S3Object) : Prop :=
  d.createdAt < o.lastModified ∧ o.lastModified ≤ e.createdAt

structure EachInItsRun (env : String → Option String) (s₀ s : State) : Prop where
  byOwn : ∀ d e, Consecutive s.db d e → ∀ j ∈ s.jobs, j.dumpId = e.id → j.phase = .done →
    ∀ source, ∀ o ∈ s.bucket, Matches env source o → InWindow d e o → o ∈ j.downloaded
  byNoLater : ∀ d e, Consecutive s.db d e → ∀ o ∈ s.bucket, InWindow d e o →
    ∀ k ∈ s.jobs, e.id < k.dumpId → o ∉ k.downloaded
  noneMissed : (∀ j ∈ s.jobs, j.phase = .done) → ∀ d ∈ s.db.partnerRecap,
    (∀ e ∈ s₀.db.partnerRecap, e.id ≤ d.id) → ∀ e ∈ s.db.partnerRecap, ∀ source, ∀ o ∈ s.bucket,
      Matches env source o → InWindow d e o → ∃ j ∈ s.jobs, o ∈ j.downloaded

end Statement

section Invariant

/-- The file is still to come up on a page, or is to be fetched. -/
def Pending (source : Source) (o : S3Object) : Phase → Prop
  | .listing listed token files =>
    if source = listed then o ∈ files ∨ Pages.After S3Object.key token o else source = .deletes
  | .fetching listed files => if source = listed then o ∈ files else source = .deletes
  | .done => False

def todo : Phase → List S3Object
  | .fetching _ files => files
  | _ => []

structure JobInv (env : String → Option String) (s : State) (j : Job) : Prop where
  own : ∃ e ∈ s.db.partnerRecap, e.id = j.dumpId
  since : ∀ d ∈ s.db.partnerRecap, d.id < j.dumpId → d.createdAt ≤ j.timestamp
  last : ∀ d ∈ s.db.partnerRecap, d.id < j.dumpId →
    ∃ d' ∈ s.db.partnerRecap, d'.id < j.dumpId ∧ j.timestamp = d'.createdAt
  recent : ∀ o, o ∈ j.downloaded ∨ o ∈ todo j.phase → j.timestamp < o.lastModified
  started : j.phase = .start ∨ Created s j.dumpId
  window : ∀ e ∈ s.db.partnerRecap, e.id = j.dumpId → ∀ source, ∀ o ∈ s.bucket,
    Matches env source o → j.timestamp < o.lastModified → o.lastModified ≤ e.createdAt →
      o ∈ j.downloaded ∨ Pending source o j.phase

structure Inv (env : String → Option String) (s₀ s : State) : Prop where
  created : ∀ d ∈ s.db.partnerRecap, d.createdAt ≤ s.now
  increasing : Increasing s.db
  enqueued : ∀ e ∈ s.db.partnerRecap, e ∈ s₀.db.partnerRecap ∨ ∃ j ∈ s.jobs, j.dumpId = e.id
  jobs : ∀ j ∈ s.jobs, JobInv env s j

theorem inv_initial (h : Initial s) : Inv env s s where
  created := h.created
  increasing := h.increasing
  enqueued _ he := .inl he
  jobs j hj := by simp [h.jobs] at hj

theorem pending_start {source : Source} : Pending source o .start := by
  cases source
  · simp [Pending, Phase.start, Pages.after_none]
  · simp [Pending, Phase.start]

theorem mem_partnerRecap {db : Db} {d : Dump} :
    d ∈ db.partnerRecap ↔ d ∈ db.dumps ∧ d.dumpType = .partnerRecap := by
  simp [Db.partnerRecap]

/-- What a step that leaves the incrementals and the bucket leaves of a job that it leaves. -/
theorem JobInv.congr (h : JobInv env s j) (hdb : s'.db = s.db) (hbucket : s'.bucket = s.bucket)
    (hnow : s.now ≤ s'.now) : JobInv env s' j where
  own := hdb ▸ h.own
  since := hdb ▸ h.since
  last := hdb ▸ h.last
  recent := h.recent
  started := by
    refine h.started.imp_right fun ⟨d, hd, hid, hlt⟩ => ⟨d, hdb ▸ hd, hid, ?_⟩
    exact lt_of_lt_of_le hlt hnow
  window := by
    rw [hdb, hbucket]
    exact h.window

end Invariant

section Steps

theorem inv_wait {t : Time} (hinv : Inv env s₀ s) (h : s.now ≤ t) :
    Inv env s₀ (wait s t h) where
  created d hd := le_trans (hinv.created d hd) h
  increasing := hinv.increasing
  enqueued := hinv.enqueued
  jobs j hj := (hinv.jobs j hj).congr rfl rfl h

/-- A file that comes while a job waits for its dump comes up; later it is not of its window. -/
theorem jobInv_upload {key : String} (hinv : JobInv env s j)
    (h : key ∉ s.bucket.map (·.key)) : JobInv env (upload s key h) j where
  own := hinv.own
  since := hinv.since
  last := hinv.last
  recent := hinv.recent
  started := hinv.started
  window e he hid source o ho hmatch hrecent hle := by
    rcases List.mem_cons.1 ho with rfl | ho
    · rcases hinv.started with hstart | ⟨d, hd, hdid, hlt⟩
      · rw [hstart]
        exact .inr pending_start
      · have hde : d = e := Db.eq_of_id hd (mem_partnerRecap.1 he).1 (hdid.trans hid.symm)
        rw [hde] at hlt
        exact absurd hle (not_le.2 hlt)
    · exact hinv.window e he hid source o ho hmatch hrecent hle

theorem inv_upload {key : String} (hinv : Inv env s₀ s) (h : key ∉ s.bucket.map (·.key)) :
    Inv env s₀ (upload s key h) where
  created := hinv.created
  increasing := hinv.increasing
  enqueued := hinv.enqueued
  jobs j hj := jobInv_upload (hinv.jobs j hj) h

theorem timestamp_spec {db : Db} {d : Dump} (now : Time) (h : Increasing db)
    (hd : d ∈ db.partnerRecap) : ∃ m ∈ db.partnerRecap,
      incrementalUpdateTimestamp db none now = m.createdAt ∧ d.createdAt ≤ m.createdAt := by
  cases hm : db.partnerRecap.argmax (·.id) with
  | none =>
    rw [List.argmax_eq_none] at hm
    simp [hm] at hd
  | some m =>
    have hmem : m ∈ db.partnerRecap := List.argmax_mem hm
    refine ⟨m, hmem, by simp [incrementalUpdateTimestamp, lastIncrementalUpdate, hm], ?_⟩
    rcases (List.le_of_mem_argmax hd hm).lt_or_eq with hlt | heq
    · exact h d hd m hmem hlt
    · rw [Db.eq_of_id (mem_partnerRecap.1 hd).1 (mem_partnerRecap.1 hmem).1 heq]

section PartnerUpdate

variable {dumpId eventId : ℕ} (h : ∀ d ∈ s.db.dumps, d.id < dumpId)

theorem mem_partnerRecap_partnerUpdate {d : Dump} :
    d ∈ (partnerUpdate s dumpId eventId h).db.partnerRecap
      ↔ d = newDump s dumpId eventId ∨ d ∈ s.db.partnerRecap := by
  rw [mem_partnerRecap, mem_partnerRecap]
  simp only [partnerUpdate, Db.create, List.mem_cons]
  constructor
  · rintro ⟨rfl | hd, htype⟩
    · exact .inl rfl
    · exact .inr ⟨hd, htype⟩
  · rintro (rfl | ⟨hd, htype⟩)
    · exact ⟨.inl rfl, rfl⟩
    · exact ⟨.inr hd, htype⟩

include h in
theorem lt_of_mem_partnerRecap {d : Dump} (hd : d ∈ s.db.partnerRecap) : d.id < dumpId :=
  h d (mem_partnerRecap.1 hd).1

theorem jobInv_partnerUpdate (hinv : JobInv env s j) :
    JobInv env (partnerUpdate s dumpId eventId h) j := by
  -- the new dump is not before the job's own
  have hold : ∀ d, d ∈ (partnerUpdate s dumpId eventId h).db.partnerRecap → d.id ≤ j.dumpId →
      d ∈ s.db.partnerRecap := by
    intro d hd hle
    rcases (mem_partnerRecap_partnerUpdate h).1 hd with rfl | hd
    · obtain ⟨e, he, heid⟩ := hinv.own
      have hlt : e.id < dumpId := lt_of_mem_partnerRecap h he
      have hid : (newDump s dumpId eventId).id = dumpId := rfl
      omega
    · exact hd
  have hnew : ∀ d ∈ s.db.partnerRecap,
      d ∈ (partnerUpdate s dumpId eventId h).db.partnerRecap := fun d hd =>
    (mem_partnerRecap_partnerUpdate h).2 (.inr hd)
  refine ⟨?_, ?_, ?_, hinv.recent, ?_, ?_⟩
  · obtain ⟨e, he, heid⟩ := hinv.own
    exact ⟨e, hnew e he, heid⟩
  · exact fun d hd hlt => hinv.since d (hold d hd hlt.le) hlt
  · intro d hd hlt
    obtain ⟨d', hd', hlt', heq⟩ := hinv.last d (hold d hd hlt.le) hlt
    exact ⟨d', hnew d' hd', hlt', heq⟩
  · exact hinv.started.imp_right fun ⟨d, hd, hid⟩ => ⟨d, List.mem_cons_of_mem _ hd, hid⟩
  · exact fun e he hid => hinv.window e (hold e he hid.le) hid

theorem jobInv_enqueued (hinv : Inv env s₀ s) :
    JobInv env (partnerUpdate s dumpId eventId h)
      { dumpId, timestamp := incrementalUpdateTimestamp s.db none s.now } := by
  have hold : ∀ d, d ∈ (partnerUpdate s dumpId eventId h).db.partnerRecap → d.id < dumpId →
      d ∈ s.db.partnerRecap := by
    intro d hd hlt
    rcases (mem_partnerRecap_partnerUpdate h).1 hd with rfl | hd
    · exact absurd hlt (lt_irrefl dumpId)
    · exact hd
  refine ⟨?_, ?_, ?_, ?_, .inl rfl, fun _ _ _ _ _ _ _ _ _ => .inr pending_start⟩
  · exact ⟨newDump s dumpId eventId, (mem_partnerRecap_partnerUpdate h).2 (.inl rfl), rfl⟩
  · intro d hd hlt
    obtain ⟨m, -, heq, hle⟩ := timestamp_spec s.now hinv.increasing (hold d hd hlt)
    exact heq ▸ hle
  · intro d hd hlt
    obtain ⟨m, hm, heq, -⟩ := timestamp_spec s.now hinv.increasing (hold d hd hlt)
    exact ⟨m, (mem_partnerRecap_partnerUpdate h).2 (.inr hm), lt_of_mem_partnerRecap h hm, heq⟩
  · simp [todo, Phase.start]

theorem inv_partnerUpdate (hinv : Inv env s₀ s) :
    Inv env s₀ (partnerUpdate s dumpId eventId h) where
  created d hd := by
    rcases (mem_partnerRecap_partnerUpdate h).1 hd with rfl | hd
    · exact le_refl s.now
    · exact hinv.created d hd
  increasing d hd e he hlt := by
    rcases (mem_partnerRecap_partnerUpdate h).1 hd with rfl | hd
    · rcases (mem_partnerRecap_partnerUpdate h).1 he with rfl | he
      · exact absurd hlt (lt_irrefl _)
      · exact absurd (lt_of_mem_partnerRecap h he) (not_lt.2 hlt.le)
    · rcases (mem_partnerRecap_partnerUpdate h).1 he with rfl | he
      · exact hinv.created d hd
      · exact hinv.increasing d hd e he hlt
  enqueued e he := by
    rcases (mem_partnerRecap_partnerUpdate h).1 he with rfl | he
    · exact .inr ⟨_, List.mem_append_right _ (List.mem_singleton_self _), rfl⟩
    · exact (hinv.enqueued e he).imp_right fun ⟨j, hj, hid⟩ =>
        ⟨j, List.mem_append_left _ hj, hid⟩
  jobs j hj := by
    rcases List.mem_append.1 hj with hj | hj
    · exact jobInv_partnerUpdate h (hinv.jobs j hj)
    · rw [List.mem_singleton.1 hj]
      exact jobInv_enqueued h hinv

end PartnerUpdate

section Job

variable {j' : Job} {size : ℕ}

theorem mem_inFolder {bucket : List S3Object} {folder : String} :
    o ∈ S3Bucket.inFolder bucket folder ↔ o ∈ bucket ∧ folder.toList <+: o.key.toList := by
  simp [S3Bucket.inFolder]

theorem mem_filesToDownload {files : List S3Object} {t : Time} :
    o ∈ S3Bucket.filesToDownload files t
      ↔ o ∈ files ∧ S3Bucket.fileFilter o.key = true ∧ t < o.lastModified := by
  simp only [S3Bucket.filesToDownload, List.mem_filter, decide_eq_true_eq]
  tauto

/-- After a response a file that was to come up still is, or it is to be fetched. -/
theorem pending_listed {source source' : Source} {token : Option String} {files : List S3Object}
    {t : Time} (ho : o ∈ s.bucket) (hmatch : Matches env source' o) (ht : t < o.lastModified)
    (hsize : 0 < size) (h : Pending source' o (.listing source token files)) :
    Pending source' o (listed source t
      (files ++ (S3Bucket.listObjectsV2 s.bucket (source.folder env) token size).1)
      (S3Bucket.listObjectsV2 s.bucket (source.folder env) token size).2) := by
  by_cases hsource : source' = source
  · subst hsource
    simp only [Pending, if_true] at h
    have hfolder := mem_inFolder.2 ⟨ho, hmatch.1⟩
    have hdistinct : ((S3Bucket.inFolder s.bucket (source'.folder env)).map (·.key)).Nodup :=
      (List.filter_sublist.map _).nodup s.nodup_key
    have hcomes : o ∈ files ++ (S3Bucket.listObjectsV2 s.bucket (source'.folder env) token size).1
        ∨ ∃ k, (S3Bucket.listObjectsV2 s.bucket (source'.folder env) token size).2 = some k
          ∧ k < o.key := by
      rcases h with hfile | hafter
      · exact .inl (List.mem_append_left _ hfile)
      · exact (Pages.mem_page_or_after hdistinct hsize hfolder hafter).imp_left
          (List.mem_append_right _)
    cases hnext : (S3Bucket.listObjectsV2 s.bucket (source'.folder env) token size).2 with
    | some k =>
      simp only [listed, Pending, if_true]
      refine hcomes.imp_right ?_
      rintro ⟨k', hk', hlt⟩
      rw [hnext, Option.some.injEq] at hk'
      exact Pages.after_some.2 (hk' ▸ hlt)
    | none =>
      simp only [listed, Pending, if_true, mem_filesToDownload]
      refine ⟨hcomes.resolve_right ?_, hmatch.2, ht⟩
      rintro ⟨k, hk, -⟩
      rw [hnext] at hk
      cases hk
  · simp only [Pending, if_neg hsource] at h
    cases (S3Bucket.listObjectsV2 s.bucket (source.folder env) token size).2 with
    | some k => simpa only [listed, Pending, if_neg hsource] using h
    | none => simpa only [listed, Pending, if_neg hsource] using h

/-- A job that is changed keeps what it is about. -/
theorem JobInv.step (hinv : JobInv env s j) (hid : j'.dumpId = j.dumpId)
    (htime : j'.timestamp = j.timestamp)
    (hrecent : ∀ o, o ∈ j'.downloaded ∨ o ∈ todo j'.phase → j.timestamp < o.lastModified)
    (hstarted : j'.phase = .start ∨ Created s j.dumpId)
    (hpending : ∀ source, ∀ o ∈ s.bucket, Matches env source o → j.timestamp < o.lastModified →
      o ∈ j.downloaded ∨ Pending source o j.phase → o ∈ j'.downloaded ∨ Pending source o j'.phase) :
    JobInv env s j' where
  own := hid ▸ hinv.own
  since := by
    rw [hid, htime]
    exact hinv.since
  last := by
    rw [hid, htime]
    exact hinv.last
  recent := by
    rw [htime]
    exact hrecent
  started := hid ▸ hstarted
  window e he heid source o ho hmatch hlt hle := by
    rw [htime] at hlt
    rw [hid] at heid
    exact hpending source o ho hmatch hlt (hinv.window e he heid source o ho hmatch hlt hle)

/-- A job that goes on with nothing to fetch. -/
theorem JobInv.goOn {phase : Phase} (hinv : JobInv env s j) (htodo : todo phase = [])
    (hstarted : phase = .start ∨ Created s j.dumpId)
    (hpending : ∀ source o, Pending source o j.phase → Pending source o phase) :
    JobInv env s { j with phase := phase } := by
  refine hinv.step rfl rfl ?_ hstarted fun source o _ _ _ h => h.imp_right (hpending source o)
  intro o ho
  exact hinv.recent o (.inl (by simpa [htodo] using ho))

theorem jobInv_page (hinv : JobInv env s j) (hsize : 0 < size) (hcreated : Created s j.dumpId)
    (h : j.page env s.bucket size = some j') : JobInv env s j' := by
  unfold Job.page at h
  split at h
  · rename_i source token files hphase
    cases h
    refine hinv.step rfl rfl ?_ (.inr hcreated) ?_
    · rintro o (ho | ho)
      · exact hinv.recent o (.inl ho)
      · dsimp only at ho
        cases hnext : (S3Bucket.listObjectsV2 s.bucket (source.folder env) token size).2 with
        | some k => simp [hnext, listed, todo] at ho
        | none =>
          rw [hnext] at ho
          exact (mem_filesToDownload.1 ho).2.2
    · intro source' o ho hmatch hlt hbefore
      refine hbefore.imp_right fun hpending => ?_
      rw [hphase] at hpending
      exact pending_listed ho hmatch hlt hsize hpending
  · cases h

theorem jobInv_fetch (hinv : JobInv env s j) (h : j.fetch = some j') : JobInv env s j' := by
  have hstarted : j.phase ≠ .start → Created s j.dumpId := hinv.started.resolve_left
  unfold Job.fetch at h
  split at h
  · rename_i source o files hphase
    cases h
    refine hinv.step rfl rfl ?_ (.inr (hstarted (by simp [hphase, Phase.start]))) ?_
    · intro x hx
      refine hinv.recent x ?_
      rw [hphase]
      simp only [todo, List.mem_cons] at hx ⊢
      tauto
    · intro source' x _ _ _ hbefore
      rw [hphase] at hbefore
      simp only [Pending, List.mem_cons] at hbefore ⊢
      split_ifs at hbefore ⊢ with hsource
      · tauto
      · tauto
  · rename_i hphase
    cases h
    refine hinv.goOn rfl (.inr (hstarted (by simp [hphase, Phase.start]))) fun source x hx => ?_
    rw [hphase] at hx
    cases source
    · simp [Pending] at hx
    · simp [Pending, Pages.after_none]
  · rename_i hphase
    cases h
    refine hinv.goOn rfl (.inr (hstarted (by simp [hphase, Phase.start]))) fun source x hx => ?_
    rw [hphase] at hx
    cases source <;> simp [Pending] at hx
  · cases h

theorem dumpId_page {bucket : List S3Object} (h : j.page env bucket size = some j') :
    j'.dumpId = j.dumpId := by
  unfold Job.page at h
  split at h <;> cases h
  rfl

theorem dumpId_fetch (h : j.fetch = some j') : j'.dumpId = j.dumpId := by
  unfold Job.fetch at h
  split at h <;> cases h <;> rfl

theorem jobInv_restart (hinv : JobInv env s j) : JobInv env s { j with phase := .start } :=
  hinv.goOn rfl (.inl rfl) fun _ _ _ => pending_start

theorem inv_setJob (hinv : Inv env s₀ s) (hj : s.jobs[i]? = some j) (hid : j'.dumpId = j.dumpId)
    (hjob : JobInv env s j') : Inv env s₀ (setJob s i j') where
  created := hinv.created
  increasing := hinv.increasing
  enqueued e he := by
    refine (hinv.enqueued e he).imp_right fun ⟨k, hk, hkid⟩ => ?_
    obtain ⟨n, hn, rfl⟩ := List.getElem_of_mem hk
    obtain ⟨hi, rfl⟩ := List.getElem?_eq_some_iff.1 hj
    by_cases hin : i = n
    · subst hin
      exact ⟨j', List.mem_set hi j', hid.trans hkid⟩
    · refine ⟨s.jobs[n], List.mem_iff_getElem.2 ⟨n, by simpa [setJob] using hn, ?_⟩, hkid⟩
      simp [setJob, List.getElem_set_of_ne hin]
  jobs k hk := by
    rcases List.mem_or_eq_of_mem_set hk with hk | rfl
    · exact (hinv.jobs k hk).congr rfl rfl (le_refl s.now)
    · exact hjob.congr rfl rfl (le_refl s.now)

end Job

theorem inv_step {a : Act} (hinv : Inv env s₀ s) (h : step env s a = some s') :
    Inv env s₀ s' := by
  cases a with
  | wait t =>
    simp only [step, Option.dite_none_right_eq_some, Option.some.injEq] at h
    obtain ⟨hle, rfl⟩ := h
    exact inv_wait hinv hle
  | upload key =>
    simp only [step, Option.dite_none_right_eq_some, Option.some.injEq] at h
    obtain ⟨hkey, rfl⟩ := h
    exact inv_upload hinv hkey
  | partnerUpdate dumpId eventId =>
    simp only [step, Option.dite_none_right_eq_some, Option.some.injEq] at h
    obtain ⟨hid, rfl⟩ := h
    exact inv_partnerUpdate hid hinv
  | page i size =>
    simp only [step, Option.bind_eq_some_iff, Option.ite_none_right_eq_some,
      Option.map_eq_some_iff] at h
    obtain ⟨j, hj, ⟨hsize, hcreated⟩, j', hj', rfl⟩ := h
    have hjob := jobInv_page (hinv.jobs j (List.mem_of_getElem? hj)) hsize hcreated hj'
    exact inv_setJob hinv hj (dumpId_page hj') hjob
  | fetch i =>
    simp only [step, Option.bind_eq_some_iff, Option.map_eq_some_iff] at h
    obtain ⟨j, hj, j', hj', rfl⟩ := h
    have hjob := jobInv_fetch (hinv.jobs j (List.mem_of_getElem? hj)) hj'
    exact inv_setJob hinv hj (dumpId_fetch hj') hjob
  | restart i =>
    simp only [step, Option.map_eq_some_iff] at h
    obtain ⟨j, hj, rfl⟩ := h
    exact inv_setJob hinv hj rfl (jobInv_restart (hinv.jobs j (List.mem_of_getElem? hj)))

end Steps

section Windows

theorem timestamp_of_consecutive {d e : Dump} (hinv : Inv env s₀ s) (hj : j ∈ s.jobs)
    (hde : Consecutive s.db d e) (hid : j.dumpId = e.id) : j.timestamp = d.createdAt := by
  obtain ⟨hd, -, hlt, hbetween⟩ := hde
  have hjob := hinv.jobs j hj
  obtain ⟨d', hd', hlt', heq⟩ := hjob.last d hd (hid ▸ hlt)
  refine le_antisymm ?_ (hjob.since d hd (hid ▸ hlt))
  rw [heq]
  rcases lt_trichotomy d'.id d.id with h | h | h
  · exact hinv.increasing d' hd' d hd h
  · rw [Db.eq_of_id (mem_partnerRecap.1 hd').1 (mem_partnerRecap.1 hd).1 h]
  · exact absurd ⟨h, hid ▸ hlt'⟩ (hbetween d' hd')

theorem mem_downloaded {d e : Dump} (hinv : Inv env s₀ s) (hj : j ∈ s.jobs)
    (hde : Consecutive s.db d e) (hid : j.dumpId = e.id) (hdone : j.phase = .done)
    {source : Source} (ho : o ∈ s.bucket) (hmatch : Matches env source o)
    (hwindow : InWindow d e o) : o ∈ j.downloaded := by
  have htime := timestamp_of_consecutive hinv hj hde hid
  have h := (hinv.jobs j hj).window e hde.2.1 hid.symm source o ho hmatch
    (htime ▸ hwindow.1) hwindow.2
  rw [hdone] at h
  exact h.resolve_right id

/-- The first incremental created since the file became visible, and the one before. -/
theorem exists_consecutive {db : Db} {d e : Dump} {t : Time} (h : Increasing db)
    (hd : d ∈ db.partnerRecap) (he : e ∈ db.partnerRecap) (hdt : d.createdAt < t)
    (hte : t ≤ e.createdAt) : ∃ d' e', Consecutive db d' e' ∧ d.id ≤ d'.id
      ∧ d'.createdAt < t ∧ t ≤ e'.createdAt := by
  obtain ⟨e', he'⟩ : ∃ e', (db.partnerRecap.filter (t ≤ ·.createdAt)).argmin (·.id) = some e' := by
    refine Option.ne_none_iff_exists'.1 fun hnone => ?_
    rw [List.argmin_eq_none] at hnone
    have : e ∈ db.partnerRecap.filter (t ≤ ·.createdAt) :=
      List.mem_filter.2 ⟨he, by simpa using hte⟩
    rw [hnone] at this
    cases this
  have hmem : e' ∈ db.partnerRecap.filter (t ≤ ·.createdAt) := List.argmin_mem he'
  rw [List.mem_filter, decide_eq_true_eq] at hmem
  have hleast : ∀ c ∈ db.partnerRecap, c.id < e'.id → c.createdAt < t := by
    intro c hc hlt
    by_contra hnot
    have hcin : c ∈ db.partnerRecap.filter (t ≤ ·.createdAt) :=
      List.mem_filter.2 ⟨hc, by simpa using hnot⟩
    exact absurd (List.le_of_mem_argmin hcin he') (not_le.2 hlt)
  have hlt : d.id < e'.id := by
    by_contra hnot
    rcases (not_lt.1 hnot).lt_or_eq with hlt | heq
    · have := h e' hmem.1 d hd hlt
      exact absurd (hmem.2.trans this) (not_le.2 hdt)
    · rw [Db.eq_of_id (mem_partnerRecap.1 hmem.1).1 (mem_partnerRecap.1 hd).1 heq] at hmem
      exact absurd hmem.2 (not_le.2 hdt)
  obtain ⟨d', hd'⟩ : ∃ d', (db.partnerRecap.filter (·.id < e'.id)).argmax (·.id) = some d' := by
    refine Option.ne_none_iff_exists'.1 fun hnone => ?_
    rw [List.argmax_eq_none] at hnone
    have : d ∈ db.partnerRecap.filter (·.id < e'.id) := List.mem_filter.2 ⟨hd, by simpa using hlt⟩
    rw [hnone] at this
    cases this
  have hmem' : d' ∈ db.partnerRecap.filter (·.id < e'.id) := List.argmax_mem hd'
  rw [List.mem_filter, decide_eq_true_eq] at hmem'
  have hgreatest : ∀ c ∈ db.partnerRecap, c.id < e'.id → c.id ≤ d'.id := fun c hc hce =>
    List.le_of_mem_argmax (List.mem_filter.2 ⟨hc, by simpa using hce⟩) hd'
  refine ⟨d', e', ⟨hmem'.1, hmem.1, hmem'.2, fun c hc hbetween => ?_⟩, hgreatest d hd hlt,
    hleast d' hmem'.1 hmem'.2, hmem.2⟩
  exact absurd (hgreatest c hc hbetween.2) (not_le.2 hbetween.1)

theorem eachInItsRun_of_inv (hinv : Inv env s₀ s) : EachInItsRun env s₀ s where
  byOwn d e hde j hj hid hdone source o ho hmatch hwindow :=
    mem_downloaded hinv hj hde hid hdone ho hmatch hwindow
  byNoLater d e hde o _ hwindow k hk hlt hdownloaded := by
    have hrecent := (hinv.jobs k hk).recent o (.inl hdownloaded)
    have hsince := (hinv.jobs k hk).since e hde.2.1 hlt
    exact absurd (hwindow.2.trans hsince) (not_le.2 hrecent)
  noneMissed hdone d hd hlast e he source o ho hmatch hwindow := by
    obtain ⟨d', e', hde, hle, hdt, hte⟩ :=
      exists_consecutive hinv.increasing hd he hwindow.1 hwindow.2
    rcases hinv.enqueued e' hde.2.1 with hold | ⟨j, hj, hid⟩
    · have h₁ := hlast e' hold
      have h₂ := hde.2.2.1
      omega
    · exact ⟨j, hj, mem_downloaded hinv hj hde hid (hdone j hj) ho hmatch ⟨hdt, hte⟩⟩

/-- In every state that the runs reach, from any before the first. -/
theorem eachInItsRun (env : String → Option String) (s₀ s : State) (h₀ : Initial s₀)
    (h : Reaches (step env) s₀ s) : EachInItsRun env s₀ s := by
  obtain ⟨acts, hrun⟩ := h
  refine eachInItsRun_of_inv (hrun.invariant (fun s a s' hinv _ hstep => ?_) (inv_initial h₀))
  exact inv_step hinv hstep

/-- Two runs, a file visible between them, and the second run's job. -/
def twoRuns : List Act :=
  [.wait 1, .partnerUpdate 1 1, .wait 2,
    .upload "data-exports/PUL/MARCXml/Incremental/CUL-NYPL-HL_1.zip", .wait 5,
    .partnerUpdate 2 2, .wait 6, .page 1 10, .fetch 1, .fetch 1, .page 1 10, .fetch 1]

theorem eachInItsRun_twoRuns :
    ∃ s, exec (guarded (step fun _ => none) fun _ _ => True) {} twoRuns = some s
      ∧ s.jobs.map (fun j => (j.phase, j.downloaded.map (·.lastModified)))
        = [(.start, []), (.done, [2])]
      ∧ EachInItsRun (fun _ => none) {} s := by
  obtain ⟨s, hs⟩ := Option.isSome_iff_exists.1 (show
    (exec (guarded (step fun _ => none) fun _ _ => True) {} twoRuns).isSome by decide +kernel)
  have hjobs : (exec (guarded (step fun _ => none) fun _ _ => True) {} twoRuns).map
      (·.jobs.map fun j => (j.phase, j.downloaded.map (·.lastModified)))
        = some [(.start, []), (.done, [2])] := by decide +kernel
  rw [hs, Option.map_some, Option.some.injEq] at hjobs
  have h₀ : Initial {} := ⟨rfl, by simp [Db.partnerRecap], by simp [Increasing, Db.partnerRecap]⟩
  exact ⟨s, hs, hjobs, eachInItsRun (fun _ => none) {} s h₀ ⟨twoRuns, run_of_exec hs⟩⟩

end Windows

end Bibdata.IncrementalImport
