import Bibdata.AlmaDumpFactory

/-!
# Polling the queue of job messages

The block of `poll` makes the event of a message, then its dump, and then enqueues
`Import::Alma`; each is committed at once, and the block may fail before any of them or at its
end. A message that has an event already is discarded. The queue deletes a message when the block
returns, and delivers it again otherwise.
-/

namespace Bibdata

/-- The step of the block that fails, the last being to return. -/
inductive Failure
  | createEvent | createDump | performAsync | returning
  deriving DecidableEq

structure Poller where
  queue : List JobMessage := []
  events : List Event := []
  db : Db := {}
  /-- The dump and the job instance of each `Import::Alma`. -/
  jobs : List (ℕ × String) := []
  recorded : ∀ d ∈ db.dumps, d.event ∈ events := by simp
  enqueued : ∀ j ∈ jobs, j.1 ∈ db.dumps.map (·.id) := by simp

namespace Poller

inductive Act
  | send (m : JobMessage)
  /-- A delivery, with the ids that new rows would get. -/
  | deliver (m : JobMessage) (eventId dumpId : ℕ) (failure : Option Failure)
  deriving DecidableEq

variable (s : Poller)

/-- The `message_body` is taken. -/
def Known (m : JobMessage) : Prop := ∃ e ∈ s.events, e.messageBody = some m

instance (m : JobMessage) : Decidable (s.Known m) := inferInstanceAs (Decidable (∃ e ∈ s.events, _))

def createEvent (m : JobMessage) (id : ℕ) : Poller :=
  { s with
    events := dumpEvent m id :: s.events
    recorded := fun d hd => List.mem_cons_of_mem _ (s.recorded d hd) }

def createDump (d : Dump) (hid : d.id ∉ s.db.dumps.map (·.id)) (hevent : d.event ∈ s.events) :
    Poller :=
  { s with
    db := s.db.create d hid
    recorded := fun e he => by
      rcases List.mem_cons.1 he with rfl | he
      · exact hevent
      · exact s.recorded e he
    enqueued := fun j hj => List.mem_cons_of_mem _ (s.enqueued j hj) }

def performAsync (d : Dump) (jobId : String) (hd : d.id ∈ s.db.dumps.map (·.id)) : Poller :=
  { s with
    jobs := (d.id, jobId) :: s.jobs
    enqueued := fun j hj => by
      rcases List.mem_cons.1 hj with rfl | hj
      · exact hd
      · exact s.enqueued j hj }

/-- The end of the block: unless it fails there, the message is deleted. -/
def finish (m : JobMessage) (failure : Option Failure) : Poller :=
  if failure = some .returning then s else { s with queue := s.queue.erase m }

def importDump (m : JobMessage) (d : Dump) (failure : Option Failure)
    (hid : d.id ∉ s.db.dumps.map (·.id)) (hevent : d.event = dumpEvent m d.event.id) : Poller :=
  let s₁ := s.createEvent m d.event.id
  if failure = some .createDump then s₁
  else
    let s₂ := s₁.createDump d hid (hevent ▸ List.mem_cons_self)
    if failure = some .performAsync then s₂
    else (s₂.performAsync d m.id List.mem_cons_self).finish m failure

def step : Act → Option Poller
  | .send m => some { s with queue := m :: s.queue }
  | .deliver m eventId dumpId failure =>
    if m ∉ s.queue then none
    else
      match h : bibDump m (dumpEvent m eventId) dumpId with
      | none => some (s.finish m failure)
      | some d =>
        if failure = some .createEvent then some s
        else if s.Known m then some (s.finish m failure)
        else if hid : d.id ∉ s.db.dumps.map (·.id) then
          some (s.importDump m d failure hid (bibDump_event h))
        else none

end Poller

end Bibdata
