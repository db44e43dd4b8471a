import Bibdata.Proofs.TrajectIndexer
import Bibdata.SolrCollection

/-!
# What the collection holds

While catch-ups come one at a time, the files of a dump are indexed at once, in any order and any
number of times, but dump after dump. So once a dump is done, the collection holds for an id what a
file of the last dump that says something about it says (`leaves_of_run`). A job goes on after a
process that was killed, and then gives up the ids that this one had not settled
(`Process.settled`).
-/

namespace Bibdata

open Transition

section Batches

variable {s s' : Sys} {a : Act}

/-- The files of a dump are put under a batch, or a catch-up is over; the batch before had no job
left. -/
structure GoesOn (s s' : Sys) (b : CatchUpBatch) : Prop where
  mem : b ∈ s.batches
  emptied : b = .queued ∨ ∃ d, b = .indexing d []
  next : (s'.batches = .finished :: s.batches.erase b ∧ s'.processed = s.processed)
    ∨ ∃ d, s'.batches = .indexing d (s.db.filesOf d) :: s.batches.erase b
      ∧ s'.processed = s.processed ++ [d] ∧ s'.db = s.db

theorem GoesOn.of_advance {b : CatchUpBatch} {r : IndexManager × CatchUpBatch}
    {m : IndexManager} {fuel : ℕ} (hmem : b ∈ s.batches)
    (hemptied : b = .queued ∨ ∃ d, b = .indexing d [])
    (h : catchUp s.db fuel m = some r) : GoesOn s (s.advance b r) b := by
  refine ⟨hmem, hemptied, ?_⟩
  rcases catchUp_cases h with ⟨-, -, rfl⟩ | ⟨d, -, -, rfl⟩
  · exact .inl ⟨rfl, List.append_nil _⟩
  · exact .inr ⟨d, rfl, rfl, rfl⟩

/-- The batches of dumps stay as they are. -/
def SameDumps (s s' : Sys) : Prop :=
  s'.processed = s.processed
    ∧ ∀ d jobs, .indexing d jobs ∈ s'.batches ↔ .indexing d jobs ∈ s.batches

theorem Sys.sameDumps_callIndexRemaining {copy : IndexManager} {fuel : ℕ}
    (h : s.callIndexRemaining copy fuel = some s') : SameDumps s s' := by
  simp only [callIndexRemaining, Option.map_eq_some_iff] at h
  obtain ⟨r, -, rfl⟩ := h
  split_ifs
  · exact ⟨rfl, by simp⟩
  · exact ⟨rfl, fun _ _ => Iff.rfl⟩

theorem step_dumps (ha : ∀ d jobs f, a ≠ .dumpFileJob d jobs f) (h : step s a = some s') :
    SameDumps s s' ∨ ∃ b, GoesOn s s' b := by
  cases a with
  | poll m eventId id =>
    simp only [step] at h
    split at h
    · cases h
    · split_ifs at h
      cases h
      exact .inl ⟨rfl, fun _ _ => Iff.rfl⟩
  | attach d f =>
    simp only [step] at h
    split_ifs at h
    cases h
    exact .inl ⟨rfl, fun _ _ => Iff.rfl⟩
  | imported d fuel =>
    simp only [step] at h
    split_ifs at h
    · have hsame := Sys.sameDumps_callIndexRemaining h
      exact .inl ⟨hsame.1, hsame.2⟩
    · cases h
      exact .inl ⟨rfl, fun _ _ => Iff.rfl⟩
  | scan rows =>
    simp only [step] at h
    split_ifs at h
    cases h
    exact .inl ⟨rfl, fun _ _ => Iff.rfl⟩
  | indexRemaining fuel => exact .inl (Sys.sameDumps_callIndexRemaining h)
  | reindex =>
    simp only [step] at h
    split_ifs at h
    cases h
    exact .inl ⟨rfl, fun _ _ => Iff.rfl⟩
  | reindexed copy fuel =>
    simp only [step] at h
    split_ifs at h
    have hsame := Sys.sameDumps_callIndexRemaining h
    exact .inl ⟨hsame.1, hsame.2⟩
  | remainingDumpsJob fuel =>
    simp only [step] at h
    split_ifs at h with hmem
    obtain ⟨r, hr, rfl⟩ := Option.map_eq_some_iff.1 h
    exact .inr ⟨_, .of_advance hmem (.inl rfl) hr⟩
  | dumpFileJob d jobs f => exact absurd rfl (ha d jobs f)
  | onSuccess d fuel =>
    simp only [step] at h
    split_ifs at h with hmem
    obtain ⟨r, hr, rfl⟩ := Option.map_eq_some_iff.1 h
    simp only [onSuccess, if_true] at hr
    exact .inr ⟨_, .of_advance hmem (.inr ⟨d, rfl⟩) hr⟩
  | indexedRemaining =>
    simp only [step] at h
    split_ifs at h
    cases h
    refine .inl ⟨rfl, fun d jobs => ?_⟩
    exact List.mem_erase_of_ne (by simp)

/-- While one catch-up runs at a time, the others are over. -/
theorem Sys.eq_finished_of_erase {b : CatchUpBatch} (hrunning : s.running ≤ 1)
    (hmem : b ∈ s.batches) (hb : b ≠ .finished) : ∀ c ∈ s.batches.erase b, c = .finished := by
  unfold running at hrunning
  rw [(List.perm_cons_erase hmem).countP_eq, List.countP_cons_of_pos (by simpa using hb)]
    at hrunning
  have hzero : (s.batches.erase b).countP (· ≠ .finished) = 0 := by omega
  rw [List.countP_eq_zero] at hzero
  simpa using hzero

theorem Sys.eq_of_running {b c : CatchUpBatch} (hrunning : s.running ≤ 1) (hb : b ∈ s.batches)
    (hc : c ∈ s.batches) (hb' : b ≠ .finished) (hc' : c ≠ .finished) : c = b := by
  by_contra hne
  exact hc' (s.eq_finished_of_erase hrunning hb hb' c ((List.mem_erase_of_ne hne).2 hc))

end Batches

section Processes

variable {ρ δ : Type*} {config : Traject.Configuration ρ δ} {content : DumpFile → List (List ρ)}

/-- What a process has not given up at its end it has settled. -/
theorem Process.settled {q : Process ρ δ} {id : String}
    (h : Traject.Inv config q.records q.state) (hmention : Traject.Mentions config q.records id)
    (hgiven : id ∉ q.givenUp config) : Traject.Settled config q.state q.records id := by
  unfold Process.givenUp at hgiven
  split_ifs at hgiven with hdone
  · exact h.settled_of_done hdone hmention hgiven
  · by_contra hnot
    exact hgiven (List.mem_filter.2 ⟨List.mem_append.2 hmention, by simpa using hnot⟩)

/-- The processes of a job have its files in turn. -/
structure FileRun.Inv (config : Traject.Configuration ρ δ) (content : DumpFile → List (List ρ))
    (p : FileRun ρ δ) : Prop where
  files : content p.file = p.processes.map (·.records) ++ p.left
  process : ∀ q ∈ p.processes, Traject.Inv config q.records q.state

namespace FileRun

variable {p p' : FileRun ρ δ} {q : Process ρ δ}

theorem processes_of_current (h : p.current = some q) : p.processes = p.ended ++ [q] := by
  rw [processes, h]
  rfl

theorem processes_withState (state : Traject.State ρ δ) :
    (p.withState q state).processes = p.ended ++ [{ q with state }] := rfl

theorem getElem?_withState {state : Traject.State ρ δ} {k : ℕ} {r : Process ρ δ}
    (h : p.current = some q) (hr : (p.withState q state).processes[k]? = some r) :
    p.processes[k]? = some r ∨ k = p.ended.length ∧ r = { q with state } := by
  rw [processes_withState, List.getElem?_append] at hr
  split_ifs at hr with hk
  · left
    rw [processes_of_current h, List.getElem?_append_left hk, hr]
  · rw [List.getElem?_singleton] at hr
    split_ifs at hr with hzero
    exact .inr ⟨by omega, (Option.some.inj hr).symm⟩

theorem processes_exited (h : p.current = some q) : (p.exited q).processes = p.processes := by
  rw [processes_of_current h, processes, exited]
  exact List.append_nil _

theorem openEntry_cases (h : p.openEntry = some p') : p.current = none ∧ ∃ entry left,
    p.left = entry :: left
      ∧ p' = { p with left := left, current := some ⟨entry, { unread := entry }⟩ } := by
  unfold openEntry at h
  split at h
  · rename_i entry left hcurrent hleft
    exact ⟨hcurrent, entry, left, hleft, (Option.some.inj h).symm⟩
  · cases h

theorem Inv.mem (h : p.Inv config content) (hq : q ∈ p.processes) : q.records ∈ content p.file := by
  rw [h.files]
  exact List.mem_append_left _ (List.mem_map_of_mem hq)

theorem Inv.openEntry (h : p.Inv config content) (hopen : p.openEntry = some p') :
    p'.Inv config content := by
  obtain ⟨hcurrent, entry, left, hleft, rfl⟩ := openEntry_cases hopen
  have hbefore : p.processes = p.ended := by
    rw [processes, hcurrent]
    exact List.append_nil _
  have hfiles := h.files
  have hprocess := h.process
  rw [hbefore, hleft] at hfiles
  rw [hbefore] at hprocess
  refine ⟨?_, fun q hq => ?_⟩
  · rw [processes_of_current rfl, List.map_append, List.append_assoc]
    exact hfiles
  · rw [processes_of_current rfl] at hq
    rcases List.mem_append.1 hq with hq | hq
    · exact hprocess q hq
    · rw [List.mem_singleton.1 hq]
      exact Traject.inv_init

theorem Inv.withState {state : Traject.State ρ δ} (h : p.Inv config content)
    (hcurrent : p.current = some q) (hinv : Traject.Inv config q.records state) :
    (p.withState q state).Inv config content := by
  obtain ⟨hfiles, hprocess⟩ := h
  rw [processes_of_current hcurrent] at hfiles hprocess
  refine ⟨?_, fun r hr => ?_⟩
  · rw [processes_withState, List.map_append]
    rw [List.map_append] at hfiles
    exact hfiles
  · rw [processes_withState] at hr
    rcases List.mem_append.1 hr with hr | hr
    · exact hprocess r (List.mem_append_left _ hr)
    · rw [List.mem_singleton.1 hr]
      exact hinv

theorem Inv.exited (h : p.Inv config content) (hcurrent : p.current = some q) :
    (p.exited q).Inv config content := by
  refine ⟨?_, fun r hr => h.process r ?_⟩
  · rw [processes_exited hcurrent]
    exact h.files
  · rwa [processes_exited hcurrent] at hr

/-- The place of a file among those of its dump file is that of its process. -/
theorem Inv.getElem?_content (h : p.Inv config content) {k : ℕ} (hk : p.processes[k]? = some q) :
    (content p.file)[k]? = some q.records := by
  have hlt : k < (p.processes.map (·.records)).length := by
    rw [List.length_map]
    exact (List.getElem?_eq_some_iff.1 hk).1
  rw [h.files, List.getElem?_append_left hlt, List.getElem?_map, hk]
  rfl

end FileRun

end Processes

namespace Collection

variable {ρ δ : Type*} {config : Traject.Configuration ρ δ} {content : DumpFile → List (List ρ)}
  {c c' : Collection ρ δ}

/-- A job of the batch is done that mentions the id, or a process has settled it. -/
def Begun (config : Traject.Configuration ρ δ) (content : DumpFile → List (List ρ))
    (files jobs : List DumpFile) (runs : List (FileRun ρ δ)) (id : String) : Prop :=
  (∃ f ∈ files, f ∉ jobs ∧ ∃ records ∈ content f, Traject.Mentions config records id)
    ∨ ∃ p ∈ runs, ∃ q ∈ p.processes, Traject.Mentions config q.records id
      ∧ Traject.Settled config q.state q.records id

/-- A file of a job that is left deletes the id, and no process on it has done so yet. -/
def ToDelete (config : Traject.Configuration ρ δ) (content : DumpFile → List (List ρ))
    (jobs : List DumpFile) (runs : List (FileRun ρ δ)) (id : String) : Prop :=
  ∃ f ∈ jobs, ∃ (k : ℕ) (records : List ρ), (content f)[k]? = some records
    ∧ id ∈ Traject.deletions config records
    ∧ ∀ p ∈ runs, p.file = f → ∀ q : Process ρ δ, p.processes[k]? = some q →
      id ∉ q.state.deleted

/-- The jobs of the batch of `files` that are left, and those that run, have brought the
collection so far for an id. -/
structure Under (config : Traject.Configuration ρ δ) (content : DumpFile → List (List ρ))
    (before : List (List DumpFile)) (files jobs : List DumpFile) (runs : List (FileRun ρ δ))
    (solr : SolrStore δ) (id : String) : Prop where
  unmentioned : ¬ MentionedIn config content files id →
    Leaves config content before id (solr id)
  /-- An update that a file says last may be followed by one of a file that says two things, as
  long as that one is not done. -/
  said : Begun config content files jobs runs id →
    SaidIn config content files id (solr id) ∨ ToDelete config content jobs runs id

structure Inv (config : Traject.Configuration ρ δ) (content : DumpFile → List (List ρ))
    (c : Collection ρ δ) : Prop where
  running : c.sys.running ≤ 1
  run : ∀ p ∈ c.runs, p.Inv config content
  once : (c.runs.map (·.file)).Nodup
  inBatch : ∀ p ∈ c.runs, ∃ d jobs, .indexing d jobs ∈ c.sys.batches ∧ p.file ∈ jobs
  idle : (∀ d jobs, .indexing d jobs ∉ c.sys.batches) →
    ∀ id ∉ c.givenUp, Leaves config content c.applied id (c.solr id)
  indexing : ∀ d jobs, .indexing d jobs ∈ c.sys.batches →
    ∃ before files, c.applied = before ++ [files] ∧ jobs ⊆ files
      ∧ ∀ id ∉ c.givenUp, Under config content before files jobs c.runs c.solr id

theorem inv_fresh {db : Db} : Inv config content (fresh db : Collection ρ δ) where
  running := by simp [fresh, Sys.fresh, Sys.running]
  run := by simp [fresh]
  once := by simp [fresh]
  inBatch := by simp [fresh]
  idle _ id _ := .nothing id
  indexing d jobs h := by simp [fresh, Sys.fresh] at h

section Rest

/-- Without a batch whose jobs are left, each dump before is done. -/
theorem Inv.at_rest (h : Inv config content c)
    (hrest : ∀ d jobs, .indexing d jobs ∈ c.sys.batches → jobs = []) :
    c.runs = [] ∧ ∀ id ∉ c.givenUp, Leaves config content c.applied id (c.solr id) := by
  constructor
  · rw [List.eq_nil_iff_forall_not_mem]
    intro p hp
    obtain ⟨d, jobs, hmem, hfile⟩ := h.inBatch p hp
    rw [hrest d jobs hmem] at hfile
    cases hfile
  · by_cases hidle : ∀ d jobs, .indexing d jobs ∉ c.sys.batches
    · exact h.idle hidle
    · push Not at hidle
      obtain ⟨d, jobs, hmem⟩ := hidle
      obtain rfl := hrest d jobs hmem
      obtain ⟨before, files, happlied, -, hunder⟩ := h.indexing d [] hmem
      intro id hid
      rw [happlied]
      by_cases hmention : MentionedIn config content files id
      · obtain ⟨f, hf, hin⟩ := hmention
        rcases (hunder id hid).said (.inl ⟨f, hf, List.not_mem_nil, hin⟩)
          with hsaid | ⟨g, hg, -⟩
        · exact .said hsaid
        · cases hg
      · exact .unmentioned ((hunder id hid).unmentioned hmention) hmention

theorem rest_of_emptied {b : CatchUpBatch} (hrunning : c.sys.running ≤ 1) (hmem : b ∈ c.sys.batches)
    (hemptied : b = .queued ∨ ∃ d, b = .indexing d []) :
    ∀ d jobs, .indexing d jobs ∈ c.sys.batches → jobs = [] := by
  intro d jobs hd
  rcases hemptied with rfl | ⟨e, rfl⟩
  · have := Sys.eq_of_running hrunning hmem hd (by simp) (by simp)
    cases this
  · have := Sys.eq_of_running hrunning hmem hd (by simp) (by simp)
    simp only [CatchUpBatch.indexing.injEq] at this
    exact this.2

theorem rest_of_finished (h : ∀ b ∈ c.sys.batches, b = .finished) :
    ∀ d jobs, .indexing d jobs ∈ c.sys.batches → jobs = [] := by
  intro d jobs hd
  cases h _ hd

end Rest

section SysSteps

variable {s : Sys}

theorem Inv.sameDumps (h : Inv config content c) (hrunning : s.running ≤ 1)
    (hsame : SameDumps c.sys s) : Inv config content (c.advance s) := by
  obtain ⟨hprocessed, hbatches⟩ := hsame
  have happlied : (c.advance s).applied = c.applied := by
    simp [advance, hprocessed]
  refine ⟨hrunning, h.run, h.once, fun p hp => ?_, fun hidle => ?_, fun d jobs hd => ?_⟩
  · obtain ⟨d, jobs, hmem, hfile⟩ := h.inBatch p hp
    exact ⟨d, jobs, (hbatches d jobs).2 hmem, hfile⟩
  · rw [happlied]
    exact h.idle fun d jobs hd => hidle d jobs ((hbatches d jobs).2 hd)
  · rw [happlied]
    exact h.indexing d jobs ((hbatches d jobs).1 hd)

theorem Inv.goesOn {b : CatchUpBatch} (h : Inv config content c) (hrunning : s.running ≤ 1)
    (hon : GoesOn c.sys s b) : Inv config content (c.advance s) := by
  obtain ⟨hruns, hleaves⟩ := h.at_rest (rest_of_emptied h.running hon.mem hon.emptied)
  have hb : b ≠ .finished := by
    rcases hon.emptied with rfl | ⟨d, rfl⟩ <;> simp
  have hothers := c.sys.eq_finished_of_erase h.running hon.mem hb
  have hnone : ∀ d jobs, .indexing d jobs ∉ c.sys.batches.erase b := by
    intro d jobs hd
    cases hothers _ hd
  have hrun : ∀ p, p ∉ (c.advance s).runs := by
    intro p hp
    rw [show (c.advance s).runs = c.runs from rfl, hruns] at hp
    cases hp
  rcases hon.next with ⟨hbatches, hprocessed⟩ | ⟨d, hbatches, hprocessed, hdb⟩
  · have happlied : (c.advance s).applied = c.applied := by
      simp [advance, hprocessed]
    refine ⟨hrunning, fun p hp => absurd hp (hrun p), h.once, fun p hp => absurd hp (hrun p),
      fun _ => happlied ▸ hleaves, fun d jobs hd => ?_⟩
    rw [show (c.advance s).sys.batches = s.batches from rfl, hbatches] at hd
    exact absurd ((List.mem_cons.1 hd).resolve_left (by simp)) (hnone d jobs)
  · have happlied : (c.advance s).applied = c.applied ++ [c.sys.db.filesOf d] := by
      simp [advance, hprocessed, hdb]
    refine ⟨hrunning, fun p hp => absurd hp (hrun p), h.once, fun p hp => absurd hp (hrun p),
      fun hidle => absurd ?_ (hidle d (c.sys.db.filesOf d)), fun e jobs he => ?_⟩
    · rw [show (c.advance s).sys.batches = s.batches from rfl, hbatches]
      exact List.mem_cons_self
    · rw [show (c.advance s).sys.batches = s.batches from rfl, hbatches] at he
      have he := (List.mem_cons.1 he).resolve_right (hnone e jobs)
      simp only [CatchUpBatch.indexing.injEq] at he
      refine ⟨c.applied, c.sys.db.filesOf d, happlied, he.2 ▸ List.Subset.refl _,
        fun id hid => ⟨fun _ => hleaves id hid, ?_⟩⟩
      rw [he.2]
      rintro (⟨f, hf, hno, -⟩ | ⟨p, hp, -⟩)
      · exact absurd hf hno
      · exact absurd hp (hrun p)

theorem Inv.wiped (h : Inv config content c) (hfinished : ∀ b ∈ c.sys.batches, b = .finished) :
    Inv config content c.wiped := by
  obtain ⟨hruns, -⟩ := h.at_rest (rest_of_finished hfinished)
  have hruns : c.wiped.runs = [] := hruns
  exact ⟨h.running, by simp [hruns], h.once, by simp [hruns], fun _ id _ => .nothing id,
    fun d jobs hd => by cases hfinished _ hd⟩

theorem inv_stepSys {a : Bibdata.Act} (h : Inv config content c) (hok : c.Orderly (.sys a))
    (hstep : c.stepSys a = some c') : Inv config content c' := by
  have hgo : ∀ c₀ : Collection ρ δ, c₀.sys = c.sys → Inv config content c₀ →
      ∀ s, OneAtATime c.sys a → (∀ d jobs f, a ≠ .dumpFileJob d jobs f) →
        Bibdata.step c.sys a = some s → Inv config content (c₀.advance s) := by
    intro c₀ hsys h₀ s hone hjob hs
    have hrunning := Sys.running_step h.running hone hs
    rcases step_dumps hjob hs with hsame | ⟨b, hon⟩
    · exact h₀.sameDumps hrunning (hsys.symm ▸ hsame)
    · exact h₀.goesOn hrunning (hsys.symm ▸ hon)
  unfold stepSys at hstep
  split at hstep
  · cases hstep
  · obtain ⟨s, hs, rfl⟩ := Option.map_eq_some_iff.1 hstep
    exact hgo c.wiped rfl (h.wiped hok.2) s hok.1 (by simp) hs
  · rename_i hnot hnot'
    obtain ⟨s, hs, rfl⟩ := Option.map_eq_some_iff.1 hstep
    refine hgo c rfl h s ?_ hnot hs
    cases a with
    | reindexed copy fuel => exact absurd rfl (hnot' copy fuel)
    | _ => exact hok

end SysSteps

section Runs

variable {before : List (List DumpFile)} {files jobs : List DumpFile} {runs : List (FileRun ρ δ)}
  {solr : SolrStore δ} {id : String}

theorem not_settled_init {records : List ρ} :
    ¬ Traject.Settled config { unread := records } records id := by
  unfold Traject.Settled
  split_ifs
  · exact List.not_mem_nil
  · rintro ⟨doc, hdoc, -⟩
    simp [SolrJsonWriter.State.served] at hdoc

/-- Jobs that start, stop and go on to another file leave the collection as it is. -/
theorem Under.same {runs' : List (FileRun ρ δ)}
    (h : Under config content before files jobs runs solr id)
    (hruns : ∀ p' ∈ runs', ∀ (k : ℕ) (q : Process ρ δ), p'.processes[k]? = some q →
      q.state = { unread := q.records } ∨ ∃ p ∈ runs, p.file = p'.file ∧ p.processes[k]? = some q) :
    Under config content before files jobs runs' solr id where
  unmentioned := h.unmentioned
  said hbegun := by
    have hbegun : Begun config content files jobs runs id := by
      refine hbegun.imp_right ?_
      rintro ⟨p', hp', q, hq, hmention, hsettled⟩
      obtain ⟨k, hk⟩ := List.mem_iff_getElem?.1 hq
      rcases hruns p' hp' k q hk with hinit | ⟨p, hp, -, hq⟩
      · rw [hinit] at hsettled
        exact absurd hsettled not_settled_init
      · exact ⟨p, hp, q, List.mem_of_getElem? hq, hmention, hsettled⟩
    refine (h.said hbegun).imp_right ?_
    rintro ⟨g, hg, k, records, hrecords, hdel, hno⟩
    refine ⟨g, hg, k, records, hrecords, hdel, fun p' hp' hfile q hq => ?_⟩
    rcases hruns p' hp' k q hq with hinit | ⟨p, hp, hpfile, hq⟩
    · rw [hinit]
      exact List.not_mem_nil
    · exact hno p hp (hpfile.trans hfile) q hq

/-- A job is done whose processes have made their updates, or given up. -/
theorem Under.finish {p : FileRun ρ δ} {runs' : List (FileRun ρ δ)}
    (h : Under config content before files jobs runs solr id) (hp : p ∈ runs)
    (hsub : runs' ⊆ runs) (hfiles : content p.file = p.processes.map (·.records))
    (hsettled : ∀ q ∈ p.processes, Traject.Mentions config q.records id →
      Traject.Settled config q.state q.records id) :
    Under config content before files (jobs.erase p.file) runs' solr id where
  unmentioned := h.unmentioned
  said hbegun := by
    have hbegun : Begun config content files jobs runs id := by
      rcases hbegun with ⟨f, hf, hno, records, hrecords, hmention⟩ | ⟨q, hq, hsettled⟩
      · by_cases hfile : f = p.file
        · subst hfile
          rw [hfiles] at hrecords
          obtain ⟨q, hq, rfl⟩ := List.mem_map.1 hrecords
          exact .inr ⟨p, hp, q, hq, hmention, hsettled q hq hmention⟩
        · exact .inl ⟨f, hf, fun hjob => hno ((List.mem_erase_of_ne hfile).2 hjob),
            records, hrecords, hmention⟩
      · exact .inr ⟨q, hsub hq, hsettled⟩
    refine (h.said hbegun).imp_right ?_
    rintro ⟨g, hg, k, records, hrecords, hdel, hno⟩
    have hfile : g ≠ p.file := by
      rintro rfl
      rw [hfiles, List.getElem?_map, Option.map_eq_some_iff] at hrecords
      obtain ⟨q, hq, rfl⟩ := hrecords
      have hgone := hsettled q (List.mem_of_getElem? hq) (.inl hdel)
      rw [Traject.Settled, if_pos hdel] at hgone
      exact hno p hp rfl q hq hgone
    exact ⟨g, (List.mem_erase_of_ne hfile).2 hg, k, records, hrecords, hdel,
      fun q hq => hno q (hsub hq)⟩

theorem mentions_of_update {q : Process ρ δ} {s : Traject.State ρ δ}
    {us : List (String × Option δ)} (hsound : Traject.Sound config q.records q.state s us)
    {u : String × Option δ} (hu : u ∈ us) : Traject.Mentions config q.records u.1 := by
  rcases hsound.updates u hu with ⟨doc, hdoc, rfl, -⟩ | ⟨id, hid, rfl⟩
  · exact .inr (List.mem_map_of_mem hdoc)
  · exact .inl hid

theorem settled_of_no_update {q : Process ρ δ} {s : Traject.State ρ δ}
    {us : List (String × Option δ)} (hsound : Traject.Sound config q.records q.state s us)
    (hnone : ∀ u ∈ us, u.1 ≠ id) (h : Traject.Settled config s q.records id) :
    Traject.Settled config q.state q.records id := by
  unfold Traject.Settled at h ⊢
  split_ifs at h ⊢
  · exact (hsound.deleted id h).resolve_right fun hu => hnone _ hu rfl
  · obtain ⟨doc, hdoc, hkey⟩ := h
    exact ⟨doc, (hsound.served doc hdoc).resolve_right fun hu => hnone _ hu hkey, hkey⟩

/-- A step of the process on one file. -/
theorem Under.run {p : FileRun ρ δ} {q : Process ρ δ} {s : Traject.State ρ δ}
    {us : List (String × Option δ)} {runs' : List (FileRun ρ δ)}
    (h : Under config content before files jobs runs solr id) (hp : p ∈ runs)
    (hinv : p.Inv config content) (hcurrent : p.current = some q) (hfile : p.file ∈ files)
    (hjob : p.file ∈ jobs)
    (hruns : ∀ p' ∈ runs', p' = p.withState q s ∨ p' ∈ runs ∧ p'.file ≠ p.file)
    (hsound : Traject.Sound config q.records q.state s us) :
    Under config content before files jobs runs' (KeyedStore.write solr us) id := by
  have hprocesses := FileRun.processes_of_current hcurrent
  have hq : p.processes[p.ended.length]? = some q := by
    rw [hprocesses, List.getElem?_concat_length]
  rcases KeyedStore.write_cases solr us id with ⟨hnone, heq⟩ | hlast
  · -- no update of the id, so what counts as settled or deleted was so before
    have hdeleted : id ∈ s.deleted → id ∈ q.state.deleted := fun hid =>
      (hsound.deleted id hid).resolve_right fun hu => hnone _ hu rfl
    refine ⟨fun hno => heq.symm ▸ h.unmentioned hno, fun hbegun => ?_⟩
    rw [heq]
    refine (h.said (hbegun.imp_right ?_)).imp_right ?_
    · rintro ⟨p', hp', r, hr, hmention, hsettled⟩
      rcases hruns p' hp' with rfl | ⟨hp', -⟩
      · rw [FileRun.processes_withState] at hr
        rcases List.mem_append.1 hr with hr | hr
        · exact ⟨p, hp, r, hprocesses ▸ List.mem_append_left _ hr, hmention, hsettled⟩
        · obtain rfl := List.mem_singleton.1 hr
          exact ⟨p, hp, q, List.mem_of_getElem? hq, hmention,
            settled_of_no_update hsound hnone hsettled⟩
      · exact ⟨p', hp', r, hr, hmention, hsettled⟩
    · rintro ⟨g, hg, k, records, hrecords, hdel, hno⟩
      refine ⟨g, hg, k, records, hrecords, hdel, fun p' hp' hpfile r hr => ?_⟩
      rcases hruns p' hp' with rfl | ⟨hp', -⟩
      · rcases FileRun.getElem?_withState hcurrent hr with hr | ⟨rfl, rfl⟩
        · exact hno p hp hpfile r hr
        · exact mt hdeleted (hno p hp hpfile q hq)
      · exact hno p' hp' hpfile r hr
  · have hmention : Traject.Mentions config q.records id := mentions_of_update hsound hlast
    have hin := hinv.mem (List.mem_of_getElem? hq)
    refine ⟨fun hno => absurd ⟨p.file, hfile, _, hin, hmention⟩ hno, fun _ => ?_⟩
    rcases hsound.updates _ hlast with ⟨doc, hdoc, hu, hdeleted⟩ | ⟨id', hid, hu⟩
    · obtain ⟨hkey, hv⟩ := Prod.mk.inj hu
      by_cases hdel : id ∈ Traject.deletions config q.records
      · refine .inr ⟨p.file, hjob, p.ended.length, q.records, hinv.getElem?_content hq, hdel,
          fun p' hp' hpfile r hr => ?_⟩
        rcases hruns p' hp' with rfl | ⟨-, hne⟩
        · rw [FileRun.processes_withState, List.getElem?_concat_length] at hr
          rw [← Option.some.inj hr, hdeleted]
          exact List.not_mem_nil
        · exact absurd hpfile hne
      · refine .inl ⟨p.file, hfile, q.records, hin, hmention, ?_⟩
        rw [Traject.Says, if_neg hdel]
        exact ⟨doc, hdoc, hkey.symm, hv⟩
    · obtain ⟨hkey, hv⟩ := Prod.mk.inj hu
      refine .inl ⟨p.file, hfile, q.records, hin, hmention, ?_⟩
      rw [Traject.Says, if_pos (hkey ▸ hid)]
      exact hv

theorem files_of_set {i : ℕ} {p p' : FileRun ρ δ} (hi : runs[i]? = some p)
    (hfile : p'.file = p.file) : (runs.set i p').map (·.file) = runs.map (·.file) := by
  refine List.ext_getElem? fun j => ?_
  rw [List.map_set, List.getElem?_set]
  split_ifs with hij hlt
  · rw [← hij, List.getElem?_map, hi, hfile]
    rfl
  · rw [← hij, List.getElem?_eq_none (not_lt.1 hlt)]
  · rfl

theorem of_mem_set {i : ℕ} {p p' r : FileRun ρ δ} (honce : (runs.map (·.file)).Nodup)
    (hi : runs[i]? = some p) (hr : r ∈ runs.set i p') :
    r = p' ∨ r ∈ runs ∧ r.file ≠ p.file := by
  obtain ⟨j, hj⟩ := List.mem_iff_getElem?.1 hr
  rw [List.getElem?_set] at hj
  split_ifs at hj with hij hlt
  · exact .inl (Option.some.inj hj).symm
  · refine .inr ⟨List.mem_of_getElem? hj, fun hfile => hij ?_⟩
    have hlt : i < (runs.map (·.file)).length := by
      rw [List.length_map]
      exact (List.getElem?_eq_some_iff.1 hi).1
    refine (List.getElem?_inj hlt honce).1 ?_
    rw [List.getElem?_map, List.getElem?_map, hi, hj, Option.map_some, Option.map_some, hfile]

theorem Inv.indexing_of_mem (h : Inv config content c) {p : FileRun ρ δ} (hp : p ∈ c.runs)
    {d : Dump} {jobs : List DumpFile} (hmem : .indexing d jobs ∈ c.sys.batches) :
    p.file ∈ jobs := by
  obtain ⟨e, jobs', hmem', hfile⟩ := h.inBatch p hp
  have := Sys.eq_of_running h.running hmem hmem' (by simp) (by simp)
  simp only [CatchUpBatch.indexing.injEq] at this
  rwa [← this.2]

theorem inv_start {d : Dump} {jobs : List DumpFile} {f : DumpFile} (h : Inv config content c)
    (hmem : .indexing d jobs ∈ c.sys.batches) (hf : f ∈ jobs) (hno : f ∉ c.runs.map (·.file)) :
    Inv config content { c with runs := c.runs ++ [⟨f, content f, [], none⟩] } where
  running := h.running
  run p hp := by
    rcases List.mem_append.1 hp with hp | hp
    · exact h.run p hp
    · obtain rfl := List.mem_singleton.1 hp
      exact ⟨rfl, by simp [FileRun.processes]⟩
  once := by
    rw [List.map_append]
    refine List.nodup_append.2 ⟨h.once, List.nodup_singleton _, ?_⟩
    rintro g hg _ hf' rfl
    obtain rfl := List.mem_singleton.1 hf'
    exact hno hg
  inBatch p hp := by
    rcases List.mem_append.1 hp with hp | hp
    · exact h.inBatch p hp
    · obtain rfl := List.mem_singleton.1 hp
      exact ⟨d, jobs, hmem, hf⟩
  idle := h.idle
  indexing e jobs' he := by
    obtain ⟨before, files, happlied, hsub, hunder⟩ := h.indexing e jobs' he
    refine ⟨before, files, happlied, hsub, fun id hid => (hunder id hid).same ?_⟩
    intro p hp k q hq
    rcases List.mem_append.1 hp with hp | hp
    · exact .inr ⟨p, hp, rfl, hq⟩
    · obtain rfl := List.mem_singleton.1 hp
      cases hq

/-- A job gets on without an update of the collection. -/
theorem inv_set {i : ℕ} {p p' : FileRun ρ δ} (h : Inv config content c) (hi : c.runs[i]? = some p)
    (hfile : p'.file = p.file) (hinv : p'.Inv config content)
    (hsame : ∀ (k : ℕ) (q : Process ρ δ), p'.processes[k]? = some q →
      q.state = { unread := q.records } ∨ p.processes[k]? = some q) :
    Inv config content { c with runs := c.runs.set i p' } where
  running := h.running
  run r hr := by
    rcases of_mem_set h.once hi hr with rfl | ⟨hr, -⟩
    · exact hinv
    · exact h.run r hr
  once := by
    rw [files_of_set hi hfile]
    exact h.once
  inBatch r hr := by
    rcases of_mem_set h.once hi hr with rfl | ⟨hr, -⟩
    · rw [hfile]
      exact h.inBatch p (List.mem_of_getElem? hi)
    · exact h.inBatch r hr
  idle := h.idle
  indexing d jobs hd := by
    obtain ⟨before, files, happlied, hsub, hunder⟩ := h.indexing d jobs hd
    refine ⟨before, files, happlied, hsub, fun id hid => (hunder id hid).same ?_⟩
    intro r hr k q hq
    rcases of_mem_set h.once hi hr with rfl | ⟨hr, -⟩
    · exact (hsame k q hq).imp_right fun hq => ⟨p, List.mem_of_getElem? hi, hfile.symm, hq⟩
    · exact .inr ⟨r, hr, rfl, hq⟩

theorem inv_entry {i : ℕ} {p p' : FileRun ρ δ} (h : Inv config content c)
    (hi : c.runs[i]? = some p) (hopen : p.openEntry = some p') :
    Inv config content { c with runs := c.runs.set i p' } := by
  have hinv := (h.run p (List.mem_of_getElem? hi)).openEntry hopen
  obtain ⟨hcurrent, entry, left, -, rfl⟩ := FileRun.openEntry_cases hopen
  refine inv_set h hi rfl hinv fun k q hq => ?_
  rw [FileRun.processes_of_current rfl, List.getElem?_append] at hq
  split_ifs at hq with hk
  · right
    rw [FileRun.processes, hcurrent]
    simpa using hq
  · rw [List.getElem?_singleton] at hq
    split_ifs at hq
    left
    rw [← Option.some.inj hq]

theorem inv_run {i : ℕ} {p : FileRun ρ δ} {q : Process ρ δ} {e : Traject.Event}
    {s : Traject.State ρ δ} {us : List (String × Option δ)} (h : Inv config content c)
    (hi : c.runs[i]? = some p) (hcurrent : p.current = some q)
    (hstep : Traject.step config q.state e = some (s, us)) :
    Inv config content
      { c with solr := KeyedStore.write c.solr us, runs := c.runs.set i (p.withState q s) } := by
  have hp := List.mem_of_getElem? hi
  have hq : q ∈ p.processes := by
    rw [FileRun.processes_of_current hcurrent]
    exact List.mem_append_right _ List.mem_cons_self
  obtain ⟨hinv, hsound⟩ := Traject.inv_step ((h.run p hp).process q hq) hstep
  have hruns : ∀ r ∈ c.runs.set i (p.withState q s),
      r = p.withState q s ∨ r ∈ c.runs ∧ r.file ≠ p.file := fun r hr => of_mem_set h.once hi hr
  obtain ⟨d, jobs, hmem, hjob⟩ := h.inBatch p hp
  refine ⟨h.running, fun r hr => ?_, ?_, fun r hr => ?_, fun hidle => absurd hmem (hidle d jobs),
    fun e jobs' he => ?_⟩
  · rcases hruns r hr with rfl | ⟨hr, -⟩
    · exact (h.run p hp).withState hcurrent hinv
    · exact h.run r hr
  · show ((c.runs.set i (p.withState q s)).map (·.file)).Nodup
    have hfiles : (c.runs.set i (p.withState q s)).map (·.file) = c.runs.map (·.file) :=
      files_of_set hi rfl
    rw [hfiles]
    exact h.once
  · rcases hruns r hr with rfl | ⟨hr, -⟩
    · exact ⟨d, jobs, hmem, hjob⟩
    · exact h.inBatch r hr
  · obtain ⟨before, files, happlied, hsub, hunder⟩ := h.indexing e jobs' he
    have hjob' := h.indexing_of_mem hp he
    exact ⟨before, files, happlied, hsub, fun id hid =>
      (hunder id hid).run hp (h.run p hp) hcurrent (hsub hjob') hjob' hruns hsound⟩

theorem inv_stop {i : ℕ} (h : Inv config content c) :
    Inv config content { c with runs := c.runs.eraseIdx i } where
  running := h.running
  run p hp := h.run p (List.mem_of_mem_eraseIdx hp)
  once := h.once.sublist ((List.eraseIdx_sublist ..).map _)
  inBatch p hp := h.inBatch p (List.mem_of_mem_eraseIdx hp)
  idle := h.idle
  indexing d jobs hd := by
    obtain ⟨before, files, happlied, hsub, hunder⟩ := h.indexing d jobs hd
    exact ⟨before, files, happlied, hsub, fun id hid =>
      (hunder id hid).same fun p hp k q hq => .inr ⟨p, List.mem_of_mem_eraseIdx hp, rfl, hq⟩⟩

theorem inv_exit {i : ℕ} {p : FileRun ρ δ} {q : Process ρ δ} (h : Inv config content c)
    (hi : c.runs[i]? = some p) (hcurrent : p.current = some q) :
    Inv config content { c with runs := c.runs.set i (p.exited q) } := by
  refine inv_set h hi rfl ((h.run p (List.mem_of_getElem? hi)).exited hcurrent) fun k r hr => ?_
  rw [FileRun.processes_exited hcurrent] at hr
  exact .inr hr

theorem file_ne_of_mem_eraseIdx {i : ℕ} {p q : FileRun ρ δ} (honce : (runs.map (·.file)).Nodup)
    (hi : runs[i]? = some p) (hq : q ∈ runs.eraseIdx i) : q.file ≠ p.file := by
  obtain ⟨j, hne, hj⟩ := List.mem_eraseIdx_iff_getElem?.1 hq
  intro hfile
  have hlt : i < (runs.map (·.file)).length := by
    rw [List.length_map]
    exact (List.getElem?_eq_some_iff.1 hi).1
  refine hne ((List.getElem?_inj hlt honce).1 ?_).symm
  rw [List.getElem?_map, List.getElem?_map, hi, hj, Option.map_some, Option.map_some, hfile]

theorem inv_finish {i : ℕ} {p : FileRun ρ δ} {d : Dump} {jobs : List DumpFile} {s : Sys}
    (h : Inv config content c) (hi : c.runs[i]? = some p) (hcurrent : p.current = none)
    (hleft : p.left = [])
    (hstep : Bibdata.step c.sys (.dumpFileJob d jobs p.file) = some s) :
    Inv config content { c with
      sys := s
      runs := c.runs.eraseIdx i
      givenUp := c.givenUp ++ p.ended.flatMap (Process.givenUp config) } := by
  have hrunning := Sys.running_step (a := .dumpFileJob d jobs p.file) h.running
    (by simp [OneAtATime, Act.copy]) hstep
  simp only [Bibdata.step] at hstep
  split_ifs at hstep with hcond
  obtain ⟨hmem, hjob⟩ := hcond
  rw [Option.some.injEq] at hstep
  have hp := List.mem_of_getElem? hi
  have hothers := c.sys.eq_finished_of_erase h.running hmem (by simp)
  have hbatches : s.batches
      = .indexing d (jobs.erase p.file) :: c.sys.batches.erase (.indexing d jobs) := by
    rw [← hstep]
  have hindexing :
      ∀ e jobs', .indexing e jobs' ∈ s.batches → e = d ∧ jobs' = jobs.erase p.file := by
    intro e jobs' he
    rw [hbatches] at he
    rcases List.mem_cons.1 he with he | he
    · simpa using he
    · cases hothers _ he
  refine ⟨hrunning, fun q hq => h.run q (List.mem_of_mem_eraseIdx hq),
    h.once.sublist ((List.eraseIdx_sublist ..).map _), fun q hq => ?_, fun hidle => ?_,
    fun e jobs' he => ?_⟩
  · refine ⟨d, jobs.erase p.file, ?_, ?_⟩
    · rw [hbatches]
      exact List.mem_cons_self
    · have hq' := h.indexing_of_mem (List.mem_of_mem_eraseIdx hq) hmem
      exact (List.mem_erase_of_ne (file_ne_of_mem_eraseIdx h.once hi hq)).2 hq'
  · refine absurd ?_ (hidle d (jobs.erase p.file))
    rw [hbatches]
    exact List.mem_cons_self
  · obtain ⟨rfl, rfl⟩ := hindexing e jobs' he
    obtain ⟨before, files, happlied, hsub, hunder⟩ := h.indexing e jobs hmem
    refine ⟨before, files, happlied, fun g hg => hsub (List.mem_of_mem_erase hg),
      fun id hid => ?_⟩
    rw [List.mem_append, not_or] at hid
    have hprocesses : p.processes = p.ended := by
      rw [FileRun.processes, hcurrent]
      exact List.append_nil _
    have hfiles := (h.run p hp).files
    rw [hleft, List.append_nil] at hfiles
    refine (hunder id hid.1).finish hp (fun q hq => List.mem_of_mem_eraseIdx hq) hfiles ?_
    intro q hq hmention
    refine Process.settled ((h.run p hp).process q hq) hmention fun hgiven => hid.2 ?_
    exact List.mem_flatMap.2 ⟨q, hprocesses ▸ hq, hgiven⟩

theorem inv_step {a : Act} (h : Inv config content c) (hok : c.Orderly a)
    (hstep : step config content c a = some c') : Inv config content c' := by
  cases a with
  | sys a => exact inv_stepSys h hok hstep
  | start d jobs f =>
    simp only [step] at hstep
    split_ifs at hstep with hcond
    cases hstep
    exact inv_start h hcond.1 hcond.2.1 hcond.2.2
  | entry i =>
    obtain ⟨p', hp', rfl⟩ := Option.map_eq_some_iff.1 hstep
    obtain ⟨p, hi, hopen⟩ := Option.bind_eq_some_iff.1 hp'
    exact inv_entry h hi hopen
  | run i e =>
    obtain ⟨p, hi, hstep⟩ := Option.bind_eq_some_iff.1 hstep
    obtain ⟨q, hcurrent, hstep⟩ := Option.bind_eq_some_iff.1 hstep
    obtain ⟨⟨s, us⟩, hs, rfl⟩ := Option.map_eq_some_iff.1 hstep
    exact inv_run h hi hcurrent hs
  | exit i e =>
    obtain ⟨p, hi, hstep⟩ := Option.bind_eq_some_iff.1 hstep
    obtain ⟨q, hcurrent, rfl⟩ := Option.map_eq_some_iff.1 hstep
    split_ifs
    · exact inv_stop h
    · exact inv_exit h hi hcurrent
  | stop i =>
    simp only [step] at hstep
    split_ifs at hstep
    cases hstep
    exact inv_stop h
  | finish i d jobs =>
    obtain ⟨p, hi, hstep⟩ := Option.bind_eq_some_iff.1 hstep
    split_ifs at hstep with hdone
    obtain ⟨s, hs, rfl⟩ := Option.map_eq_some_iff.1 hstep
    exact inv_finish h hi (Option.isNone_iff_eq_none.1 hdone.1) (List.isEmpty_iff.1 hdone.2) hs

theorem Leaves.of_unmentioned {v : Option δ} {applied : List (List DumpFile)}
    (h : Leaves config content applied id v) (happlied : applied = before ++ [files])
    (hno : ¬ MentionedIn config content files id) : Leaves config content before id v := by
  cases h with
  | nothing => simp at happlied
  | unmentioned h _ =>
    obtain ⟨rfl, -⟩ := List.append_inj' happlied rfl
    exact h
  | said h =>
    obtain ⟨-, hfiles⟩ := List.append_inj' happlied rfl
    obtain rfl : _ = files := by simpa using hfiles
    obtain ⟨f, hf, records, hrecords, hmention, -⟩ := h
    exact absurd ⟨f, hf, records, hrecords, hmention⟩ hno

/-- While nothing is indexed, the collection holds for each id what the dumps leave, and what a
dump says nothing about stays as it is also while that dump is indexed. -/
theorem leaves_of_run {db : Db} {es : List Act}
    (h : Run (step config content) Orderly (fresh db) es c) {id : String}
    (hid : id ∉ c.givenUp) :
    (c.Idle → Leaves config content c.applied id (c.solr id))
      ∧ ∀ before files, c.applied = before ++ [files] → ¬ MentionedIn config content files id →
        Leaves config content before id (c.solr id) := by
  have hinv := h.invariant (fun _ _ _ hs hok hstep => inv_step hs hok hstep) inv_fresh
  have hleaves : (∀ d jobs, .indexing d jobs ∉ c.sys.batches) →
      Leaves config content c.applied id (c.solr id) := fun hidle => hinv.idle hidle id hid
  refine ⟨fun hidle => hleaves fun d jobs hmem => ?_, fun before files happlied hno => ?_⟩
  · cases hidle _ hmem
  by_cases hidle : ∀ d jobs, .indexing d jobs ∉ c.sys.batches
  · exact (hleaves hidle).of_unmentioned happlied hno
  · push Not at hidle
    obtain ⟨d, jobs, hmem⟩ := hidle
    obtain ⟨before', files', happlied', -, hunder⟩ := hinv.indexing d jobs hmem
    obtain ⟨rfl, hfiles⟩ := List.append_inj' (happlied.symm.trans happlied') rfl
    obtain rfl : files = files' := by simpa using hfiles
    exact (hunder id hid).unmentioned hno

/-- A record is its id and whether it is marked as deleted; a document is its id and a title. -/
def twoFields : Traject.Configuration (String × Option String) (String × String) where
  leader r := if r.2.isSome then "00000cam".toList else "00000dam".toList
  id r := some r.1
  map r := r.2.elim .skipped fun title => .document (r.1, title)
  key doc := doc.1
  generates _ := true
  settings := { threadPool := 1 }

/-- The records of two dump files. The second is a tar of two files: one changes a record and
deletes another, and one changes the third. -/
def twoFiles (f : DumpFile) : List (List (String × Option String)) :=
  if f.id = 1 then [[("991", some "Emma"), ("992", some "Persuasion"), ("993", some "Lady Susan")]]
  else [[("991", some "Emma, 1816"), ("992", none)], [("993", some "Lady Susan, 1871")]]

/-- One process on a file whose records fit into one batch. -/
def processOf (records : ℕ) (deletes : Bool) : List Act :=
  .entry 0 :: List.replicate records (.run 0 .read) ++
    [.run 0 .close, .run 0 (.work 0 (.status 200) []), .run 0 (.finish (.status 200))]
    ++ (if deletes then [.run 0 (.delete (.response 503 "") []),
      .run 0 (.delete (.response 200 "") [])] else [])
    ++ [.exit 0 ⟨false, true⟩]

/-- Two incrementals. The first job fails on its way and runs again; the last process is killed, and
its job goes on. -/
def twoDumps : List Act :=
  [.sys (.indexRemaining 1), .sys (.remainingDumpsJob 1), .start (dumpOf 1) [fileOf 1] (fileOf 1),
    .entry 0, .run 0 .read, .run 0 .read, .exit 0 ⟨true, false⟩,
    .start (dumpOf 1) [fileOf 1] (fileOf 1)] ++ processOf 3 false ++
    [.finish 0 (dumpOf 1) [fileOf 1], .sys (.onSuccess (dumpOf 1) 1),
      .start (dumpOf 2) [fileOf 2] (fileOf 2)] ++ processOf 2 true ++
    [.entry 0, .run 0 .read, .exit 0 ⟨false, false⟩, .finish 0 (dumpOf 2) [fileOf 2],
      .sys (.onSuccess (dumpOf 2) 1), .sys .indexedRemaining]

theorem leaves_twoDumps : ∃ c : Collection (String × Option String) (String × String),
    Run (step twoFields twoFiles) Orderly
      (fresh { dumps := [dumpOf 1, dumpOf 2], dumpFiles := [fileOf 1, fileOf 2] }) twoDumps c
      ∧ c.solr "991" = some ("991", "Emma, 1816") ∧ c.solr "992" = none
      ∧ c.solr "993" = some ("993", "Lady Susan") ∧ c.givenUp = ["993"]
      ∧ ∀ id, id ≠ "993" → Leaves twoFields twoFiles [[fileOf 1], [fileOf 2]] id (c.solr id) := by
  obtain ⟨c, hc, hsolr, happlied, hgiven, hidle⟩ : ∃ c ∈ exec
      (guarded (step twoFields twoFiles) Orderly)
      (fresh { dumps := [dumpOf 1, dumpOf 2], dumpFiles := [fileOf 1, fileOf 2] }) twoDumps,
      (c.solr "991" = some ("991", "Emma, 1816") ∧ c.solr "992" = none
        ∧ c.solr "993" = some ("993", "Lady Susan"))
        ∧ c.applied = [[fileOf 1], [fileOf 2]] ∧ c.givenUp = ["993"] ∧ c.Idle := by
    decide +kernel
  have hrun := run_of_exec hc
  refine ⟨c, hrun, hsolr.1, hsolr.2.1, hsolr.2.2, hgiven, fun id hid => ?_⟩
  rw [← happlied]
  exact (leaves_of_run hrun (by simpa [hgiven] using hid)).1 hidle

end Runs

end Collection

end Bibdata
