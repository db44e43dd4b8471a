import Bibdata.Dump

/-!
# The event and the dump made from a job message
-/

namespace Bibdata

/-- `dump_event`, where the message has no event yet. -/
def dumpEvent (m : JobMessage) (id : ℕ) : Event where
  id := id
  start := m.startTime
  finish := m.endTime
  success := true
  almaJobStatus := m.status
  messageBody := some m

/-- `bib_dump` for a message whose event is there; `none` where the job is not configured. -/
def bibDump (m : JobMessage) (event : Event) (id : ℕ) : Option Dump :=
  (jobsConfiguration m.name).map fun job =>
    { id := id, dumpType := job.dumpType, event := event, generatedDate := some event.start }

/-- `find_dump_file_type` of `Import::Alma`. -/
def findDumpFileType (d : Dump) : Option DumpFileType :=
  (d.event.messageBody.bind fun m => jobsConfiguration m.name).map (·.dumpFileType)

def incrementalDump (d : Dump) : Prop := findDumpFileType d = some .updatedRecords

instance (d : Dump) : Decidable (incrementalDump d) := inferInstanceAs (Decidable (_ = _))

theorem jobsConfiguration_changedRecords {name : String} {job : JobConfiguration}
    (h : jobsConfiguration name = some job) (hty : job.dumpType = .changedRecords) :
    job.dumpFileType = .updatedRecords := by
  unfold jobsConfiguration at h
  split at h <;> cases h <;> simp_all

/-- The files of a `changed_records` dump made from a message are updates. -/
theorem incrementalDump_bibDump {m : JobMessage} {eventId id : ℕ} {d : Dump}
    (h : bibDump m (dumpEvent m eventId) id = some d) (hty : d.isChangedRecords) :
    incrementalDump d := by
  simp only [bibDump, Option.map_eq_some_iff] at h
  obtain ⟨job, hjob, rfl⟩ := h
  simp only [incrementalDump, findDumpFileType, dumpEvent, Option.bind_some, hjob,
    Option.map_some, Option.some.injEq]
  exact jobsConfiguration_changedRecords hjob hty

theorem bibDump_event {m : JobMessage} {eventId id : ℕ} {d : Dump}
    (h : bibDump m (dumpEvent m eventId) id = some d) : d.event = dumpEvent m d.event.id := by
  simp only [bibDump, Option.map_eq_some_iff] at h
  obtain ⟨job, -, rfl⟩ := h
  rfl

end Bibdata
