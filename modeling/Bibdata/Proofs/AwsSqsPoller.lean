import Bibdata.AwsSqsPoller
import Bibdata.Library.Transition

/-!
# Which messages get their job

Once a message has its event, no delivery of it does anything more (`step_known`). So all is
decided by the first delivery that gets past `Event.create!`: the message has a job exactly when
this one gets past `perform_async` as well (`enqueued_iff`).
-/

namespace Bibdata.Poller

open Transition

variable {s s' : Poller} {m : JobMessage} {a : Act}

/-- An `Import::Alma` is enqueued for a dump of the message's event. -/
def Enqueued (s : Poller) (m : JobMessage) : Prop :=
  ∃ j ∈ s.jobs, ∃ d ∈ s.db.dumps, d.id = j.1 ∧ d.event.messageBody = some m

/-- A delivery of the message that gets past `Event.create!`, where there is no event yet. -/
def Act.PastCreate (m : JobMessage) : Act → Prop
  | .deliver m' _ _ failure => m' = m ∧ failure ≠ some .createEvent
  | .send _ => False

/-- A delivery that gets past `perform_async`, where it gets past `Event.create!`. -/
def Act.PastPerform : Act → Prop
  | .deliver _ _ _ failure => failure = none ∨ failure = some .returning
  | .send _ => False

instance (m : JobMessage) (a : Act) : Decidable (a.PastCreate m) := by
  cases a <;> unfold Act.PastCreate <;> infer_instance

instance (a : Act) : Decidable a.PastPerform := by
  cases a <;> unfold Act.PastPerform <;> infer_instance

/-! ### What the parts of a delivery change -/

theorem not_enqueued_of_not_known (h : ¬ s.Known m) : ¬ s.Enqueued m := by
  rintro ⟨j, -, d, hd, -, hm⟩
  exact h ⟨d.event, s.recorded d hd, hm⟩

@[simp] theorem known_finish {m' : JobMessage} {failure : Option Failure} :
    (s.finish m' failure).Known m ↔ s.Known m := by
  unfold finish
  split_ifs <;> rfl

@[simp] theorem enqueued_finish {m' : JobMessage} {failure : Option Failure} :
    (s.finish m' failure).Enqueued m ↔ s.Enqueued m := by
  unfold finish
  split_ifs <;> rfl

@[simp] theorem known_createEvent {m' : JobMessage} {id : ℕ} :
    (s.createEvent m' id).Known m ↔ m' = m ∨ s.Known m := by
  simp [Known, createEvent, dumpEvent]

@[simp] theorem enqueued_createEvent {m' : JobMessage} {id : ℕ} :
    (s.createEvent m' id).Enqueued m ↔ s.Enqueued m := Iff.rfl

@[simp] theorem known_createDump {d : Dump} {hid hevent} :
    (s.createDump d hid hevent).Known m ↔ s.Known m := Iff.rfl

/-- No job is there yet for a new dump. -/
@[simp] theorem enqueued_createDump {d : Dump} {hid hevent} :
    (s.createDump d hid hevent).Enqueued m ↔ s.Enqueued m := by
  constructor
  · rintro ⟨j, hj, e, he, hej, hm⟩
    rcases List.mem_cons.1 he with rfl | he
    · exact absurd (hej ▸ s.enqueued j hj) hid
    · exact ⟨j, hj, e, he, hej, hm⟩
  · rintro ⟨j, hj, e, he, h⟩
    exact ⟨j, hj, e, List.mem_cons_of_mem _ he, h⟩

@[simp] theorem known_performAsync {d : Dump} {jobId : String} {hd} :
    (s.performAsync d jobId hd).Known m ↔ s.Known m := Iff.rfl

theorem enqueued_performAsync {d : Dump} {jobId : String} (hd : d ∈ s.db.dumps) :
    (s.performAsync d jobId (List.mem_map_of_mem hd)).Enqueued m
      ↔ d.event.messageBody = some m ∨ s.Enqueued m := by
  constructor
  · rintro ⟨j, hj, e, he, hej, hm⟩
    rcases List.mem_cons.1 hj with rfl | hj
    · exact .inl (Db.eq_of_id hd he hej.symm ▸ hm)
    · exact .inr ⟨j, hj, e, he, hej, hm⟩
  · rintro (hm | ⟨j, hj, h⟩)
    · exact ⟨_, List.mem_cons_self, d, hd, rfl, hm⟩
    · exact ⟨j, List.mem_cons_of_mem _ hj, h⟩

section Import

variable {m' : JobMessage} {d : Dump} {failure : Option Failure} {hid hevent}

theorem known_importDump :
    (s.importDump m' d failure hid hevent).Known m ↔ m' = m ∨ s.Known m := by
  unfold importDump
  simp only []
  split_ifs
  · exact known_createEvent
  · exact known_createDump.trans known_createEvent
  · exact known_finish.trans
      (known_performAsync.trans (known_createDump.trans known_createEvent))

theorem enqueued_importDump (hfailure : failure ≠ some .createEvent) :
    (s.importDump m' d failure hid hevent).Enqueued m
      ↔ s.Enqueued m ∨ m' = m ∧ (failure = none ∨ failure = some .returning) := by
  have hbody : d.event.messageBody = some m ↔ m' = m := by
    rw [hevent]
    simp [dumpEvent]
  have hdump : ((s.createEvent m' d.event.id).createDump d hid
      (hevent ▸ List.mem_cons_self)).Enqueued m ↔ s.Enqueued m :=
    enqueued_createDump.trans enqueued_createEvent
  unfold importDump
  simp only []
  split_ifs with h₁ h₂
  · simp [h₁]
  · refine hdump.trans ?_
    simp [h₂]
  · have hreached : failure = none ∨ failure = some .returning := by
      rcases failure with _ | _ | _ | _ | _
      · exact .inl rfl
      · exact absurd rfl hfailure
      · exact absurd rfl h₁
      · exact absurd rfl h₂
      · exact .inr rfl
    refine enqueued_finish.trans ((enqueued_performAsync List.mem_cons_self).trans ?_)
    rw [hbody, hdump, and_iff_left hreached, or_comm]

end Import

theorem step_spec (hjob : (jobsConfiguration m.name).isSome) (h : s.step a = some s') :
    (s'.Known m ↔ s.Known m ∨ a.PastCreate m)
      ∧ (s'.Enqueued m ↔ s.Enqueued m ∨ ¬ s.Known m ∧ a.PastCreate m ∧ a.PastPerform) := by
  cases a with
  | send m' =>
    obtain rfl := Option.some.inj h
    simp only [Act.PastCreate, Act.PastPerform, or_false, and_false]
    exact ⟨Iff.rfl, Iff.rfl⟩
  | deliver m' eventId dumpId failure =>
    simp only [Act.PastCreate, Act.PastPerform]
    rw [step] at h
    by_cases hqueue : m' ∉ s.queue
    · rw [if_pos hqueue] at h
      cases h
    rw [if_neg hqueue] at h
    split at h
    · -- the job of another message is not configured
      rename_i hdump
      obtain rfl := Option.some.inj h
      have hne : m' ≠ m := by
        rintro rfl
        obtain ⟨job, hjob⟩ := Option.isSome_iff_exists.1 hjob
        rw [bibDump, hjob] at hdump
        cases hdump
      simp [hne]
    · rename_i d hdump
      split_ifs at h with hfail hknown hid
      · obtain rfl := Option.some.inj h
        simp [hfail]
      · obtain rfl := Option.some.inj h
        rw [known_finish, enqueued_finish]
        constructor
        · refine ⟨.inl, ?_⟩
          rintro (h | ⟨rfl, -⟩)
          · exact h
          · exact hknown
        · refine ⟨.inl, ?_⟩
          rintro (h | ⟨hnot, ⟨rfl, -⟩, -⟩)
          · exact h
          · exact absurd hknown hnot
      · obtain rfl := Option.some.inj h
        rw [known_importDump, enqueued_importDump hfail]
        constructor
        · simp [hfail, or_comm]
        · constructor
          · rintro (h | ⟨rfl, hreached⟩)
            · exact .inl h
            · exact .inr ⟨hknown, ⟨rfl, hfail⟩, hreached⟩
          · rintro (h | ⟨-, ⟨rfl, -⟩, hreached⟩)
            · exact .inl h
            · exact .inr ⟨rfl, hreached⟩

/-! ### All deliveries -/

theorem enqueued_of_known {as : List Act} (hjob : (jobsConfiguration m.name).isSome)
    (h : Run step (fun _ _ => True) s as s') (hknown : s.Known m) :
    s'.Enqueued m ↔ s.Enqueued m := by
  induction h with
  | nil => exact Iff.rfl
  | cons _ hstep _ ih =>
    obtain ⟨hknown', henq⟩ := step_spec hjob hstep
    rw [ih (hknown'.2 (.inl hknown)), henq]
    simp [hknown]

/-- A message has its job exactly when the first of its deliveries that gets past `Event.create!`
gets past `perform_async`. -/
theorem enqueued_iff {as : List Act} (hjob : (jobsConfiguration m.name).isSome)
    (h : Run step (fun _ _ => True) s as s') (hnew : ¬ s.Known m) :
    s'.Enqueued m ↔ ∃ a ∈ as.find? (·.PastCreate m), a.PastPerform := by
  induction h with
  | nil => simpa using not_enqueued_of_not_known hnew
  | @cons s s₁ s' a as _ hstep hrest ih =>
    obtain ⟨hknown, henq⟩ := step_spec hjob hstep
    have hnone := not_enqueued_of_not_known hnew
    by_cases ha : a.PastCreate m
    · rw [enqueued_of_known hjob hrest (hknown.2 (.inr ha)), henq,
        List.find?_cons_of_pos (by simpa)]
      simp [hnone, hnew, ha]
    · have hnew₁ : ¬ s₁.Known m := by
        rw [hknown]
        exact fun h => h.elim hnew ha
      rw [ih hnew₁, List.find?_cons_of_neg (by simpa)]

def incrementalJob : JobMessage where
  id := "6587815790006421"
  name := "Publishing Platform Job Incremental Publishing"
  startTime := 0
  endTime := 1

/-- The first delivery fails before it has made the event. -/
theorem enqueued_incrementalJob : ∃ s, ∃ as : List Act, Run step (fun _ _ => True) {} as s
    ∧ ¬ ({} : Poller).Known incrementalJob ∧ s.Enqueued incrementalJob := by
  obtain ⟨s, hs⟩ := Option.isSome_iff_exists.1 (by decide +kernel :
    (exec (guarded step fun _ _ => True) {} [.send incrementalJob,
      .deliver incrementalJob 1 1 (some .createEvent),
      .deliver incrementalJob 2 2 none]).isSome)
  have hrun := run_of_exec hs
  exact ⟨s, _, hrun, by decide,
    (enqueued_iff (by decide) hrun (by decide)).2 (by decide +kernel)⟩

/-- The first delivery fails once it has made the event, and the next one is discarded. -/
theorem not_enqueued_discarded : (jobsConfiguration incrementalJob.name).isSome
    ∧ ¬({} : Poller).Known incrementalJob
    ∧ ∃ s, Run step (fun _ _ => True) {} [.send incrementalJob,
        .deliver incrementalJob 1 1 (some .createDump), .deliver incrementalJob 2 2 none] s
      ∧ ¬s.Enqueued incrementalJob := by
  obtain ⟨s, hs, hjobs⟩ : ∃ s ∈ exec (guarded step fun _ _ => True) {} [.send incrementalJob,
      .deliver incrementalJob 1 1 (some .createDump), .deliver incrementalJob 2 2 none],
      s.jobs = [] ∧ s.queue = [] := by
    decide +kernel
  refine ⟨by decide, by decide, s, run_of_exec hs, ?_⟩
  rintro ⟨j, hj, -⟩
  rw [hjobs.1] at hj
  cases hj

end Bibdata.Poller
