import Bibdata.DeleteEvents
import Mathlib.Data.List.Find

/-!
# What a run of the job leaves

The turn of an event comes if none before it in the order is held by an index manager; the files
of its dump are then gone, and its rows are gone unless it is held itself (`Outcome`). So the run
leaves what it should if the events that are held come last, and no file that goes is the file of
a row that stays (`cleansUp_iff`).
-/

namespace Bibdata.DeleteEventsJob

namespace Store

variable (s : Store)

/-- An index manager references the event's dump. -/
def Held (id : ℕ) : Prop := ∃ d ∈ s.dump id, s.Referenced d.id

instance (id : ℕ) : Decidable (s.Held id) := inferInstanceAs (Decidable (∃ d ∈ s.dump id, _))

/-- The turn of the event comes. -/
def Tried (ids : List ℕ) (id : ℕ) : Prop :=
  ∃ before after, ids = before ++ id :: after ∧ ∀ i ∈ before, ¬ s.Held i

/-- What is left when the files of the events `tried` and the rows of the events `gone` go. -/
structure Outcome (tried gone : ℕ → Prop) (s' : Store) : Prop where
  mem_events : ∀ e, e ∈ s'.events ↔ e ∈ s.events ∧ ¬ gone e.id
  mem_dumps : ∀ d, d ∈ s'.db.dumps ↔ d ∈ s.db.dumps ∧ ¬ ∃ i, gone i ∧ s.dump i = some d
  mem_dumpFiles : ∀ f, f ∈ s'.db.dumpFiles ↔
    f ∈ s.db.dumpFiles ∧ ¬ ∃ i d, gone i ∧ s.dump i = some d ∧ f ∈ s.db.filesOf d
  mem_disk : ∀ p, p ∈ s'.disk ↔
    p ∈ s.disk ∧ ¬ ∃ i d, tried i ∧ s.dump i = some d ∧ ∃ g ∈ s.db.filesOf d, g.path = p

end Store

open DeleteEventsJob.Store

variable {s s' : Store} {d : Dump} {id i : ℕ} {ids : List ℕ}

section DestroyFiles

/-- What the deletion of one file leaves, that of many leaves. -/
theorem foldl_destroyFile_frame {α : Type*} (field : Store → α)
    (hframe : ∀ s f, field (destroyFile s f) = field s) (fs : List DumpFile) :
    field (fs.foldl destroyFile s) = field s := by
  induction fs generalizing s with
  | nil => rfl
  | cons f fs ih => rw [List.foldl_cons, ih, hframe]

theorem managers_foldl_destroyFile (fs : List DumpFile) :
    (fs.foldl destroyFile s).managers = s.managers :=
  foldl_destroyFile_frame managers (fun _ _ => rfl) fs

theorem events_foldl_destroyFile (fs : List DumpFile) :
    (fs.foldl destroyFile s).events = s.events :=
  foldl_destroyFile_frame events (fun _ _ => rfl) fs

theorem dumps_foldl_destroyFile (fs : List DumpFile) :
    (fs.foldl destroyFile s).db.dumps = s.db.dumps :=
  foldl_destroyFile_frame (·.db.dumps) (fun _ _ => rfl) fs

/-- What is spared by one deletion, under a condition on the file, is spared by many under all. -/
theorem foldl_destroyFile_iff (holds : Store → Prop) {spares : DumpFile → Prop}
    (hstep : ∀ s f, holds (destroyFile s f) ↔ holds s ∧ spares f) (fs : List DumpFile) :
    holds (fs.foldl destroyFile s) ↔ holds s ∧ ∀ f ∈ fs, spares f := by
  induction fs generalizing s with
  | nil => simp
  | cons f fs ih => rw [List.foldl_cons, ih, hstep, List.forall_mem_cons, and_assoc]

theorem mem_dumpFiles_foldl_destroyFile {f : DumpFile} (fs : List DumpFile) :
    f ∈ (fs.foldl destroyFile s).db.dumpFiles ↔
      f ∈ s.db.dumpFiles ∧ ∀ g ∈ fs, f.id ≠ g.id :=
  foldl_destroyFile_iff (fun s => f ∈ s.db.dumpFiles)
    (fun _ _ => by simp [destroyFile, Db.deleteFile]) fs

theorem mem_disk_foldl_destroyFile {p : String} (fs : List DumpFile) :
    p ∈ (fs.foldl destroyFile s).disk ↔ p ∈ s.disk ∧ ∀ g ∈ fs, p ≠ g.path :=
  foldl_destroyFile_iff (fun s => p ∈ s.disk) (fun _ _ => by simp [destroyFile, deleteFile]) fs

end DestroyFiles

section Step

theorem of_dump_eq_some (h : s.dump i = some d) : d ∈ s.db.dumps ∧ d.event.id = i :=
  ⟨List.mem_of_find?_eq_some h, by simpa using List.find?_some h⟩

theorem ne_of_dump {j : ℕ} {e : Dump} (hd : s.dump i = some d) (he : s.dump j = some e)
    (hij : j ≠ i) : e.id ≠ d.id := by
  intro hid
  obtain ⟨hmem, hi⟩ := of_dump_eq_some hd
  obtain ⟨hmem', hj⟩ := of_dump_eq_some he
  have : e = d := Db.eq_of_id hmem' hmem hid
  exact hij (by rw [← hi, ← hj, this])

theorem mem_filesOf {f : DumpFile} :
    f ∈ s.db.filesOf d ↔ f ∈ s.db.dumpFiles ∧ f.dumpId = some d.id := by
  simp [Db.filesOf]

theorem mem_dumpFiles_foldl_filesOf {f : DumpFile} :
    f ∈ ((s.db.filesOf d).foldl destroyFile s).db.dumpFiles ↔
      f ∈ s.db.dumpFiles ∧ f ∉ s.db.filesOf d := by
  rw [mem_dumpFiles_foldl_destroyFile]
  refine and_congr_right fun hf => ⟨fun h hfd => h f hfd rfl, fun h g hg hid => h ?_⟩
  have hg' := (mem_filesOf.1 hg).1
  rwa [List.inj_on_of_nodup_map s.nodup_file hf hg' hid]

theorem referenced_foldl_destroyFile (fs : List DumpFile) (dumpId : ℕ) :
    (fs.foldl destroyFile s).Referenced dumpId ↔ s.Referenced dumpId := by
  rw [Referenced, managers_foldl_destroyFile, Referenced]

theorem held_iff (h : s.dump i = some d) : s.Held i ↔ s.Referenced d.id := by
  simp [Held, h]

theorem destroyEvent_of_none (h : s.dump i = none) :
    s.destroyEvent i = .ok (s.deleteEvent i) := by
  simp [destroyEvent, h]

theorem destroyEvent_of_held (h : s.dump i = some d) (hheld : s.Held i) :
    s.destroyEvent i = .error (s.rollback ((s.db.filesOf d).foldl destroyFile s)) := by
  have href := (referenced_foldl_destroyFile (s.db.filesOf d) d.id).2 ((held_iff h).1 hheld)
  simp only [destroyEvent, h, destroyDump, if_pos href]

theorem destroyEvent_of_not_held (h : s.dump i = some d) (hheld : ¬ s.Held i) :
    s.destroyEvent i
      = .ok ((((s.db.filesOf d).foldl destroyFile s).deleteDump d).deleteEvent i) := by
  have href := (referenced_foldl_destroyFile (s.db.filesOf d) d.id).not.2
    ((held_iff h).not.1 hheld)
  simp only [destroyEvent, h, destroyDump, if_neg href]

theorem outcome_of_held (hheld : s.Held i) :
    ∃ s', s.destroyEvent i = .error s' ∧ Outcome s (· = i) (fun _ => False) s' := by
  obtain ⟨d, hd, -⟩ := id hheld
  refine ⟨_, destroyEvent_of_held hd hheld, ?_, ?_, ?_, ?_⟩
  · simp [rollback]
  · simp [rollback]
  · simp [rollback]
  · intro p
    rw [rollback, mem_disk_foldl_destroyFile]
    refine and_congr_right fun _ => ?_
    simp [Option.mem_def.1 hd, eq_comm]

theorem outcome_of_not_held (hheld : ¬ s.Held i) :
    ∃ s', s.destroyEvent i = .ok s' ∧ Outcome s (· = i) (· = i) s' := by
  cases hd : s.dump i with
  | none =>
    refine ⟨_, destroyEvent_of_none hd, ?_, ?_, ?_, ?_⟩ <;> simp [deleteEvent, hd]
  | some d =>
    refine ⟨_, destroyEvent_of_not_held hd hheld, ?_, ?_, ?_, ?_⟩
    · simp [deleteEvent, deleteDump, events_foldl_destroyFile]
    · intro e
      simp only [deleteEvent, deleteDump, Db.deleteDump, dumps_foldl_destroyFile,
        List.mem_filter, decide_eq_true_eq, exists_eq_left, hd, Option.some.injEq]
      refine and_congr_right fun he => not_congr ⟨fun hid => ?_, fun h => by rw [h]⟩
      exact (Db.eq_of_id he (of_dump_eq_some hd).1 hid).symm
    · intro f
      rw [show ((((s.db.filesOf d).foldl destroyFile s).deleteDump d).deleteEvent i).db.dumpFiles
        = ((s.db.filesOf d).foldl destroyFile s).db.dumpFiles from rfl,
        mem_dumpFiles_foldl_filesOf]
      simp [hd]
    · intro p
      rw [show ((((s.db.filesOf d).foldl destroyFile s).deleteDump d).deleteEvent i).disk
        = ((s.db.filesOf d).foldl destroyFile s).disk from rfl, mem_disk_foldl_destroyFile]
      simp [hd, eq_comm]

end Step

section Others

variable {j : ℕ}

theorem not_held_of_ok (h : s.destroyEvent i = .ok s') : ¬ s.Held i := by
  intro hheld
  obtain ⟨_, herror, -⟩ := outcome_of_held hheld
  rw [herror] at h
  cases h

theorem dump_of_ok (h : s.destroyEvent i = .ok s') (hij : j ≠ i) : s'.dump j = s.dump j := by
  cases hd : s.dump i with
  | none =>
    rw [destroyEvent_of_none hd] at h
    cases h
    rfl
  | some d =>
    rw [destroyEvent_of_not_held hd (not_held_of_ok h)] at h
    cases h
    simp only [dump, deleteEvent, deleteDump, Db.deleteDump, dumps_foldl_destroyFile,
      List.find?_filter]
    -- the row that went is of another event
    refine List.find?_congr fun e he => ?_
    by_cases hj : e.event.id = j
    · have hne : e.id ≠ d.id := fun hid => by
        have : e = d := Db.eq_of_id he (of_dump_eq_some hd).1 hid
        exact hij (by rw [← hj, this, (of_dump_eq_some hd).2])
      simp [hj, hne]
    · simp [hj]

theorem managers_of_ok (h : s.destroyEvent i = .ok s') : s'.managers = s.managers := by
  cases hd : s.dump i with
  | none =>
    rw [destroyEvent_of_none hd] at h
    cases h
    rfl
  | some d =>
    rw [destroyEvent_of_not_held hd (not_held_of_ok h)] at h
    cases h
    exact managers_foldl_destroyFile _

theorem held_of_ok (h : s.destroyEvent i = .ok s') (hij : j ≠ i) : s'.Held j ↔ s.Held j := by
  rw [Held, dump_of_ok h hij, Held]
  simp only [Referenced, managers_of_ok h]

theorem mem_filesOf_of_ok {e : Dump} {f : DumpFile} (h : s.destroyEvent i = .ok s')
    (ho : Outcome s (· = i) (· = i) s') (he : s.dump j = some e) (hij : j ≠ i) :
    f ∈ s'.db.filesOf e ↔ f ∈ s.db.filesOf e := by
  rw [mem_filesOf, ho.mem_dumpFiles, mem_filesOf]
  refine ⟨fun ⟨⟨hf, _⟩, hid⟩ => ⟨hf, hid⟩, fun ⟨hf, hid⟩ => ⟨⟨hf, ?_⟩, hid⟩⟩
  rintro ⟨_, d, rfl, hd, hfd⟩
  have hid' := (mem_filesOf.1 hfd).2
  rw [hid, Option.some.injEq] at hid'
  exact ne_of_dump hd he hij hid'

theorem tried_nil : ¬ s.Tried [] i := by
  rintro ⟨before, after, h, -⟩
  simp at h

theorem tried_cons : s.Tried (i :: ids) j ↔ j = i ∨ ¬ s.Held i ∧ s.Tried ids j := by
  constructor
  · rintro ⟨before, after, h, hnot⟩
    cases before with
    | nil => exact .inl (by simpa using (List.cons.inj h).1.symm)
    | cons k before =>
      obtain ⟨rfl, rfl⟩ := List.cons.inj h
      rw [List.forall_mem_cons] at hnot
      exact .inr ⟨hnot.1, before, after, rfl, hnot.2⟩
  · rintro (rfl | ⟨hi, before, after, rfl, hnot⟩)
    · exact ⟨[], ids, rfl, by simp⟩
    · exact ⟨i :: before, after, rfl, List.forall_mem_cons.2 ⟨hi, hnot⟩⟩

theorem mem_of_tried (h : s.Tried ids i) : i ∈ ids := by
  obtain ⟨before, after, rfl, -⟩ := h
  simp

theorem tried_of_ok (h : s.destroyEvent i = .ok s') (hi : i ∉ ids) :
    s'.Tried ids j ↔ s.Tried ids j := by
  refine exists_congr fun before => exists_congr fun after => and_congr_right ?_
  rintro rfl
  refine forall₂_congr fun k hk => not_congr (held_of_ok h ?_)
  rintro rfl
  exact hi (by simp [hk])

end Others

section Destroy

variable {gone tried gone' tried' gone'' tried'' : ℕ → Prop}

theorem exists_or_exists {q q' r P P' : ℕ → Prop} (hr : ∀ i, r i ↔ q i ∨ q' i)
    (h : ∀ i, q' i → (P' i ↔ P i)) :
    (∃ i, q i ∧ P i) ∨ (∃ i, q' i ∧ P' i) ↔ ∃ i, r i ∧ P i := by
  rw [← exists_or]
  refine exists_congr fun i => ?_
  rw [hr, or_and_right, and_congr_right (h i)]

/-- One outcome after another. -/
theorem Store.Outcome.trans {s₁ s₂ : Store} (h : Outcome s tried gone s₁)
    (h' : Outcome s₁ tried' gone' s₂) (hgone : ∀ i, gone'' i ↔ gone i ∨ gone' i)
    (htried : ∀ i, tried'' i ↔ tried i ∨ tried' i)
    (hdump : ∀ i, tried' i → s₁.dump i = s.dump i)
    (hle : ∀ i, gone' i → tried' i)
    (hfiles : ∀ i d, tried' i → s.dump i = some d → ∀ f, f ∈ s₁.db.filesOf d ↔ f ∈ s.db.filesOf d) :
    Outcome s tried'' gone'' s₂ := by
  refine ⟨fun e => ?_, fun d => ?_, fun f => ?_, fun p => ?_⟩
  · rw [h'.mem_events, h.mem_events, hgone, not_or, and_assoc]
  · rw [h'.mem_dumps, h.mem_dumps, and_assoc, ← not_or]
    refine and_congr_right fun _ => not_congr (exists_or_exists hgone fun i hi => ?_)
    rw [hdump i (hle i hi)]
  · rw [h'.mem_dumpFiles, h.mem_dumpFiles, and_assoc, ← not_or]
    simp only [exists_and_left]
    refine and_congr_right fun _ => not_congr (exists_or_exists hgone fun i hi => ?_)
    rw [hdump i (hle i hi)]
    exact exists_congr fun d => and_congr_right fun hd => hfiles i d (hle i hi) hd f
  · rw [h'.mem_disk, h.mem_disk, and_assoc, ← not_or]
    simp only [exists_and_left]
    refine and_congr_right fun _ => not_congr (exists_or_exists htried fun i hi => ?_)
    rw [hdump i hi]
    refine exists_congr fun d => and_congr_right fun hd => exists_congr fun g => ?_
    rw [hfiles i d hi hd g]

theorem Store.Outcome.congr (h : Outcome s tried gone s') (htried : ∀ i, tried' i ↔ tried i)
    (hgone : ∀ i, gone' i ↔ gone i) : Outcome s tried' gone' s' := by
  obtain rfl : tried' = tried := funext fun i => propext (htried i)
  obtain rfl : gone' = gone := funext fun i => propext (hgone i)
  exact h

theorem outcome_destroy (hnodup : ids.Nodup) :
    Outcome s (s.Tried ids) (fun i => s.Tried ids i ∧ ¬ s.Held i) (s.destroy ids) := by
  induction ids generalizing s with
  | nil => constructor <;> simp [tried_nil, destroy]
  | cons i ids ih =>
    obtain ⟨hi, hnodup⟩ := List.nodup_cons.1 hnodup
    by_cases hheld : s.Held i
    · obtain ⟨s', hs', ho⟩ := outcome_of_held hheld
      rw [destroy, hs']
      refine ho.congr (fun j => ?_) fun j => ?_
      · simp [tried_cons, hheld]
      · rw [tried_cons, iff_false]
        rintro ⟨rfl | ⟨hnot, -⟩, hj⟩
        · exact hj hheld
        · exact hnot hheld
    · obtain ⟨s', hs', ho⟩ := outcome_of_not_held hheld
      rw [destroy, hs']
      have hne : ∀ j, s'.Tried ids j → j ≠ i := by
        rintro j hj rfl
        exact hi (mem_of_tried hj)
      refine ho.trans (ih hnodup) (fun j => ?_) (fun j => ?_)
        (fun j hj => dump_of_ok hs' (hne j hj)) (fun j hj => hj.1)
        fun j d hj hd f => mem_filesOf_of_ok hs' ho hd (hne j hj)
      · rw [tried_cons, tried_of_ok hs' hi]
        by_cases hj : j = i
        · simp [hj, hheld]
        · simp [hj, hheld, held_of_ok hs' hj]
      · rw [tried_cons, tried_of_ok hs' hi]
        simp [hheld]

end Destroy

section CleansUp

variable {dumpType : DumpType} {olderThan : Time}

/-- What the job is for: `s'` is left of `s`. -/
structure CleansUp (s : Store) (dumpType : DumpType) (olderThan : Time) (s' : Store) : Prop where
  deleted : ∀ e ∈ s.events, s.Selected dumpType olderThan e → ¬ s.Held e.id →
    e ∉ s'.events ∧ ∀ d, s.dump e.id = some d →
      d ∉ s'.db.dumps ∧ ∀ f ∈ s.db.filesOf d, f ∉ s'.db.dumpFiles ∧ f.path ∉ s'.disk
  kept : ∀ e ∈ s.events, ¬ (s.Selected dumpType olderThan e ∧ ¬ s.Held e.id) →
    e ∈ s'.events ∧ ∀ d ∈ s.db.dumps, d.event.id = e.id →
      d ∈ s'.db.dumps ∧ ∀ f ∈ s.db.filesOf d, f ∈ s'.db.dumpFiles
  onDisk : ∀ f ∈ s'.db.dumpFiles, f ∈ s.db.dumpFiles ∧ (f.path ∈ s.disk → f.path ∈ s'.disk)

/-- No event that an index manager holds comes before one that none holds. -/
def HeldLast (s : Store) (ids : List ℕ) : Prop := ids.Pairwise fun i j => s.Held i → s.Held j

/-- A file of an event whose turn comes is not that of a row that stays. -/
def FilesApart (s : Store) (ids : List ℕ) : Prop :=
  ∀ i d, s.Tried ids i → s.dump i = some d → ∀ g ∈ s.db.filesOf d, ∀ f ∈ s.db.dumpFiles,
    f.path = g.path → f.path ∈ s.disk →
      ∃ j ∈ ids, ¬ s.Held j ∧ ∃ d', s.dump j = some d' ∧ f ∈ s.db.filesOf d'

theorem mem_selected : i ∈ s.selected dumpType olderThan ↔
    ∃ e ∈ s.events, s.Selected dumpType olderThan e ∧ e.id = i := by
  simp [selected, and_assoc]

theorem nodup_selected : (s.selected dumpType olderThan).Nodup :=
  (List.filter_sublist.map _).nodup s.nodup_event

theorem tried_of_heldLast (h : HeldLast s ids) (hi : i ∈ ids) (hheld : ¬ s.Held i) :
    s.Tried ids i := by
  obtain ⟨before, after, rfl⟩ := List.append_of_mem hi
  refine ⟨before, after, rfl, fun j hj hheldj => hheld ?_⟩
  exact (List.pairwise_append.1 h).2.2 j hj i List.mem_cons_self hheldj

theorem heldLast_of_tried (hnodup : ids.Nodup) (h : ∀ i ∈ ids, ¬ s.Held i → s.Tried ids i) :
    HeldLast s ids := by
  induction ids with
  | nil => exact .nil
  | cons i ids ih =>
    obtain ⟨hi, hnodup⟩ := List.nodup_cons.1 hnodup
    have hcases : ∀ j ∈ ids, ¬ s.Held j → ¬ s.Held i ∧ s.Tried ids j := by
      intro j hj hheld
      rcases tried_cons.1 (h j (List.mem_cons_of_mem _ hj) hheld) with rfl | hrest
      · exact absurd hj hi
      · exact hrest
    refine List.pairwise_cons.2 ⟨fun j hj hheld => ?_, ih hnodup fun j hj hheld => ?_⟩
    · by_contra hnot
      exact (hcases j hj hnot).1 hheld
    · exact (hcases j hj hheld).2

section Outcome

variable (hids : ids.Perm (s.selected dumpType olderThan))
  (ho : Outcome s (s.Tried ids) (fun i => s.Tried ids i ∧ ¬ s.Held i) s')

include hids ho

theorem heldLast_of_cleansUp (h : CleansUp s dumpType olderThan s') : HeldLast s ids := by
  refine heldLast_of_tried (hids.nodup_iff.2 nodup_selected) fun i hi hheld => ?_
  obtain ⟨e, he, hsel, rfl⟩ := mem_selected.1 (hids.mem_iff.1 hi)
  have hgone := (h.deleted e he hsel hheld).1
  rw [ho.mem_events, not_and, not_not] at hgone
  exact (hgone he).1

omit hids in
theorem filesApart_of_cleansUp (h : CleansUp s dumpType olderThan s') : FilesApart s ids := by
  intro i d hi hd g hg f hf hpath hdisk
  by_contra hnot
  have hstays : f ∈ s'.db.dumpFiles := by
    refine (ho.mem_dumpFiles f).2 ⟨hf, ?_⟩
    rintro ⟨j, d', ⟨htried, hheld⟩, hd', hfd'⟩
    exact hnot ⟨j, mem_of_tried htried, hheld, d', hd', hfd'⟩
  have hdisk' := (h.onDisk f hstays).2 hdisk
  rw [ho.mem_disk] at hdisk'
  exact hdisk'.2 ⟨i, d, hi, hd, g, hg, hpath.symm⟩

theorem cleansUp_of_heldLast (hlast : HeldLast s ids) (hapart : FilesApart s ids) :
    CleansUp s dumpType olderThan s' where
  deleted e he hsel hheld := by
    have hmem : e.id ∈ ids := hids.mem_iff.2 (mem_selected.2 ⟨e, he, hsel, rfl⟩)
    have htried := tried_of_heldLast hlast hmem hheld
    refine ⟨fun h => ((ho.mem_events e).1 h).2 ⟨htried, hheld⟩, fun d hd => ⟨fun h => ?_, ?_⟩⟩
    · exact ((ho.mem_dumps d).1 h).2 ⟨e.id, ⟨htried, hheld⟩, hd⟩
    · refine fun f hf => ⟨fun h => ?_, fun h => ?_⟩
      · exact ((ho.mem_dumpFiles f).1 h).2 ⟨e.id, d, ⟨htried, hheld⟩, hd, hf⟩
      · exact ((ho.mem_disk f.path).1 h).2 ⟨e.id, d, htried, hd, f, hf, rfl⟩
  kept e he hnot := by
    have hstays : ∀ i, s.Tried ids i → ¬ s.Held i → i ≠ e.id := by
      rintro i htried hheld rfl
      obtain ⟨e', he', hsel, hid⟩ := mem_selected.1 (hids.mem_iff.1 (mem_of_tried htried))
      obtain rfl : e' = e := List.inj_on_of_nodup_map s.nodup_event he' he hid
      exact hnot ⟨hsel, hheld⟩
    refine ⟨(ho.mem_events e).2 ⟨he, fun h => hstays e.id h.1 h.2 rfl⟩, fun d hd hde => ⟨?_, ?_⟩⟩
    · refine (ho.mem_dumps d).2 ⟨hd, ?_⟩
      rintro ⟨i, ⟨htried, hheld⟩, hdi⟩
      exact hstays i htried hheld ((of_dump_eq_some hdi).2.symm.trans hde)
    · intro f hf
      refine (ho.mem_dumpFiles f).2 ⟨(mem_filesOf.1 hf).1, ?_⟩
      rintro ⟨i, d', ⟨htried, hheld⟩, hdi, hf'⟩
      obtain ⟨hd', hde'⟩ := of_dump_eq_some hdi
      have hid : some d'.id = some d.id := (mem_filesOf.1 hf').2.symm.trans (mem_filesOf.1 hf).2
      obtain rfl : d' = d := Db.eq_of_id hd' hd (Option.some.inj hid)
      exact hstays i htried hheld (hde'.symm.trans hde)
  onDisk f hf := by
    obtain ⟨hfs, hstays⟩ := (ho.mem_dumpFiles f).1 hf
    refine ⟨hfs, fun hdisk => (ho.mem_disk f.path).2 ⟨hdisk, ?_⟩⟩
    rintro ⟨i, d, hi, hd, g, hg, hpath⟩
    obtain ⟨j, hj, hheld, d', hd', hfd'⟩ := hapart i d hi hd g hg f hfs hpath.symm hdisk
    exact hstays ⟨j, d', ⟨tried_of_heldLast hlast hj hheld, hheld⟩, hd', hfd'⟩

end Outcome

theorem cleansUp_iff (s : Store) (dumpType : DumpType) (olderThan : Time) (ids : List ℕ)
    (hids : ids.Perm (s.selected dumpType olderThan)) :
    CleansUp s dumpType olderThan (s.perform dumpType olderThan ids hids)
      ↔ HeldLast s ids ∧ FilesApart s ids := by
  have ho := outcome_destroy (s := s) (hids.nodup_iff.2 nodup_selected)
  exact ⟨fun h => ⟨heldLast_of_cleansUp hids ho h, filesApart_of_cleansUp ho h⟩,
    fun ⟨hlast, hapart⟩ => cleansUp_of_heldLast hids ho hlast hapart⟩

def oldDump (id : ℕ) : Dump := { id, dumpType := .fullDump, event := { id, start := 0 } }

/-- Two old full dumps, of which a manager has completed the first. -/
def completedStore (files : List DumpFile) (disk : List String)
    (h : (files.map (·.id)).Nodup := by decide) : Store where
  events := [(oldDump 1).event, (oldDump 2).event]
  db := { dumps := [oldDump 1, oldDump 2], dumpFiles := files }
  managers := [{ lastDumpCompleted := some (oldDump 1) }]
  disk := disk
  nodup_file := h

theorem cleansUp_completedLast :
    CleansUp (completedStore [⟨1, some 2, none, "old.gz"⟩] ["old.gz"]) .fullDump 5
      ((completedStore [⟨1, some 2, none, "old.gz"⟩] ["old.gz"]).perform .fullDump 5 [2, 1]
        (by decide)) := by
  refine (cleansUp_iff _ _ _ _ _).2 ⟨by unfold HeldLast; decide, ?_⟩
  intro i d hi hd g hg f hf hpath hdisk
  obtain rfl : f = ⟨1, some 2, none, "old.gz"⟩ := List.mem_singleton.1 hf
  exact ⟨2, by simp, by decide, oldDump 2, rfl, by decide⟩

theorem not_cleansUp_completedFirst :
    ¬ CleansUp (completedStore [⟨1, some 1, none, "kept.gz"⟩] ["kept.gz"]) .fullDump 5
      ((completedStore [⟨1, some 1, none, "kept.gz"⟩] ["kept.gz"]).perform .fullDump 5 [1, 2]
        (by decide)) := by
  intro h
  have hgone : ("kept.gz" : String) ∈ ((completedStore [⟨1, some 1, none, "kept.gz"⟩]
      ["kept.gz"]).perform .fullDump 5 [1, 2] (by decide)).disk :=
    (h.onDisk ⟨1, some 1, none, "kept.gz"⟩ (by decide)).2 (by decide)
  exact absurd hgone (by decide)

end CleansUp

end Bibdata.DeleteEventsJob
