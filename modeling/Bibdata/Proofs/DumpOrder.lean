import Bibdata.Proofs.SolrCollection

/-!
# The dump that an id was last mentioned in

From where the index manager stands, the next dump is an incremental that starts no earlier, so the
incrementals are indexed in the order of their starts, after the full dump (`Ordered.processed`).
What the collection holds for an id is then what the latest of the dumps says that mention it
(`latest_of_run`).
-/

namespace Bibdata

open Transition

/-- Nobody calls `reindex!`. -/
def Act.NoReindex : Act → Prop
  | .reindex | .reindexed _ _ => False
  | _ => True

instance : ∀ a : Act, Decidable a.NoReindex
  | .reindex | .reindexed _ _ => isFalse id
  | .poll _ _ _ | .attach _ _ | .imported _ _ | .scan _ | .indexRemaining _
  | .remainingDumpsJob _ | .dumpFileJob _ _ _ | .onSuccess _ _ | .indexedRemaining => isTrue trivial

/-- After the position there are only incrementals, from its start on or else after a full dump. -/
theorem NextDump.later {db : Db} {l y : Dump} {l'' : Option Dump}
    (hl : l ∈ db.dumps) (hn : NextDump db (some l) (some y, l'')) :
    y.isChangedRecords ∧ (l.isFullDump ∨ l.start ≤ y.start) := by
  by_cases hty : l.isFullDump
  · refine ⟨?_, .inl hty⟩
    rcases hn.of_full (Db.mem_fullDump.2 ⟨hl, hty⟩) with ⟨p, hp, hy, -⟩ | ⟨-, l', -, hn'⟩
    · rw [Option.some.inj hy]
      exact (Db.mem_changedRecords.1 hp).2
    · exact (Db.mem_changedRecords.1 hn'.some_spec.1).2
  · obtain ⟨l', -, hn'⟩ := hn.of_not_full hty
    exact ⟨(Db.mem_changedRecords.1 hn'.some_spec.1).2, .inr hn'.some_spec.2.2⟩

namespace Sys

variable {s s' : Sys} {fuel : ℕ}

/-- The dump that is being indexed, or else the last one that was. -/
def position (s : Sys) : Option Dump := s.underway.head?.or s.manager.lastDumpCompleted

/-- The dumps given a batch, against a position: what is indexed next comes after them. -/
structure UpTo (db : Db) (processed : List Dump) (position : Option Dump) : Prop where
  mem : ∀ l ∈ position, l ∈ db.dumps
  started : processed ≠ [] → position.isSome
  behind : ∀ q ∈ processed, q.isChangedRecords →
    ∃ l ∈ position, l.isChangedRecords ∧ q.start ≤ l.start
  kinds : ∀ q ∈ processed, q.isFullDump ∨ q.isChangedRecords
  sorted : processed.Pairwise fun a b => a.isChangedRecords → a.start ≤ b.start

theorem UpTo.nil {db : Db} : UpTo db [] none := by
  constructor <;> simp

theorem UpTo.mono {db db' : Db} {processed : List Dump} {position : Option Dump}
    (h : UpTo db processed position) (hdb : ∀ d ∈ db.dumps, d ∈ db'.dumps) :
    UpTo db' processed position :=
  ⟨fun l hl => hdb l (h.mem l hl), h.started, h.behind, h.kinds, h.sorted⟩

/-- A dump without files that the position moves to. -/
theorem UpTo.pass {db : Db} {processed : List Dump} {last l'' r : Option Dump}
    (h : UpTo db processed last) (hn : NextDump db last (r, l'')) : UpTo db processed l'' := by
  have hmem := (hn.mem h.mem).2
  rcases last with _ | l
  · obtain ⟨rfl, -⟩ := hn.of_none
    exact h
  · have hwalk : ∀ l' : Dump, NextIncremental db l (r, l') → UpTo db processed (some l') := by
      intro l' hn'
      obtain ⟨hle, hl', -⟩ := hn'.spec
      refine ⟨?_, by simp, fun q hq hqc => ?_, h.kinds, h.sorted⟩
      · simpa using (hn'.mem (h.mem l rfl)).2
      · obtain ⟨_, ⟨⟩, hlc, hql⟩ := h.behind q hq hqc
        refine ⟨l', rfl, ?_, hql.trans hle⟩
        rcases hl' with rfl | ⟨hl', -⟩
        · exact hlc
        · exact (Db.mem_changedRecords.1 hl').2
    by_cases hty : l.isFullDump
    · rcases hn.of_full (Db.mem_fullDump.2 ⟨h.mem l rfl, hty⟩) with
        ⟨-, -, -, rfl, -⟩ | ⟨-, l', rfl, hn'⟩
      · exact h
      · exact hwalk l' hn'
    · obtain ⟨l', rfl, hn'⟩ := hn.of_not_full hty
      exact hwalk l' hn'

theorem UpTo.next {db : Db} {processed : List Dump} {last l'' : Option Dump} {y : Dump}
    (h : UpTo db processed last) (hn : NextDump db last (some y, l'')) :
    UpTo db (processed ++ [y]) (some y) := by
  have hmem := (hn.mem h.mem).1
  rcases last with _ | l
  · -- it is the first
    have hnil : processed = [] := by
      by_contra hne
      have := h.started hne
      cases this
    subst hnil
    refine ⟨by simpa using hmem, by simp, ?_, ?_, List.pairwise_singleton _ y⟩
    · intro q hq hqc
      obtain rfl : q = y := by simpa using hq
      exact ⟨q, rfl, hqc, le_rfl⟩
    · intro q hq
      obtain rfl : q = y := by simpa using hq
      rcases hn.of_none.2 with ⟨f, hf, hlatest⟩ | ⟨-, ⟨z, hz, hy, -⟩ | ⟨hy, -⟩⟩
      · rw [Option.some.inj hf]
        exact .inl (Db.mem_fullDump.1 hlatest.1).2
      · rw [Option.some.inj hy]
        exact .inr (Db.mem_changedRecords.1 hz).2
      · cases hy
  · obtain ⟨hyc, hly⟩ := hn.later (h.mem l rfl)
    have hbehind : ∀ q ∈ processed, q.isChangedRecords → q.start ≤ y.start := by
      intro q hq hqc
      obtain ⟨_, ⟨⟩, hlc, hql⟩ := h.behind q hq hqc
      exact hql.trans (hly.resolve_left (Dump.not_isFullDump hlc))
    refine ⟨by simpa using hmem, by simp, fun q hq hqc => ⟨y, rfl, hyc, ?_⟩, fun q hq => ?_, ?_⟩
    · rcases List.mem_append.1 hq with hq | hq
      · exact hbehind q hq hqc
      · rw [List.mem_singleton.1 hq]
    · rcases List.mem_append.1 hq with hq | hq
      · exact h.kinds q hq
      · exact .inr (by rwa [List.mem_singleton.1 hq])
    · rw [List.pairwise_append]
      refine ⟨h.sorted, List.pairwise_singleton _ y, fun q hq z hz hqc => ?_⟩
      rw [List.mem_singleton.1 hz]
      exact hbehind q hq hqc

structure Ordered (s : Sys) : Prop where
  running : s.running ≤ 1
  upTo : UpTo s.db s.processed s.position

theorem ordered_fresh (db : Db) : Ordered (fresh db) where
  running := by simp [fresh, running]
  upTo := by
    have hposition : (fresh db).position = none := rfl
    rw [hposition]
    exact .nil

section Underway

theorem underway_of_indexing (hrunning : s.running ≤ 1) {d : Dump} {jobs : List DumpFile}
    (hmem : .indexing d jobs ∈ s.batches) : s.underway = [d] := by
  have hlen := (Single.of_running hrunning).one
  have hd : d ∈ s.underway := List.mem_filterMap.2 ⟨_, hmem, rfl⟩
  rcases hu : s.underway with _ | ⟨e, _ | ⟨e', ds⟩⟩
  · rw [hu] at hd
    cases hd
  · rw [hu] at hd
    rw [List.mem_singleton.1 hd]
  · rw [hu] at hlen
    simp at hlen

theorem underway_of_others {b : CatchUpBatch} {bs : List CatchUpBatch}
    (hbs : ∀ c ∈ bs, c = .finished) : (b :: bs).filterMap CatchUpBatch.dump = b.dump.toList := by
  have hnone : bs.filterMap CatchUpBatch.dump = [] := by
    rw [List.filterMap_eq_nil_iff]
    intro c hc
    rw [hbs c hc]
    rfl
  rw [underway_cons, hnone, List.append_nil]

theorem underway_of_queued (hrunning : s.running ≤ 1) (hmem : .queued ∈ s.batches) :
    s.underway = [] := by
  have hothers := s.eq_finished_of_erase hrunning hmem (by simp)
  have hperm := perm_underway_erase hmem
  rw [← underway_cons, underway_of_others hothers] at hperm
  exact hperm.eq_nil

theorem underway_erase_finished : ∀ bs : List CatchUpBatch,
    (bs.erase .finished).filterMap CatchUpBatch.dump = bs.filterMap CatchUpBatch.dump
  | [] => rfl
  | b :: bs => by
    by_cases hb : b = .finished
    · rw [hb, List.erase_cons_head]
      rfl
    · rw [List.erase_cons_tail (by simpa using hb), underway_cons, underway_cons,
        underway_erase_finished bs]

end Underway

section Steps

/-- The rows of `dumps` stay, and so does all that the position and the batches depend on. -/
theorem Ordered.congr (h : Ordered s) (hrunning : s'.running ≤ 1)
    (hdb : ∀ d ∈ s.db.dumps, d ∈ s'.db.dumps) (hprocessed : s'.processed = s.processed)
    (hunderway : s'.underway = s.underway)
    (hlast : s'.manager.lastDumpCompleted = s.manager.lastDumpCompleted) : Ordered s' where
  running := hrunning
  upTo := by
    have hposition : s'.position = s.position := by
      rw [position, position, hunderway, hlast]
    rw [hprocessed, hposition]
    exact h.upTo.mono hdb

/-- Where a catch-up is enqueued nothing is being indexed, and the position may be moved. -/
theorem Ordered.callIndexRemaining (h : Ordered s) (hrunning : s'.running ≤ 1)
    (hfinished : s.manager.inProgress = false →
      (∃ r ∈ nextDump s.db fuel s.manager.lastDumpCompleted, r.1.isSome) →
        ∀ b ∈ s.batches, b = .finished)
    (hcall : s.callIndexRemaining s.manager fuel = some s') : Ordered s' := by
  refine ⟨hrunning, ?_⟩
  simp only [Sys.callIndexRemaining, Bibdata.indexRemaining, Option.map_map,
    Option.map_eq_some_iff] at hcall
  obtain ⟨⟨r, l''⟩, hn, rfl⟩ := hcall
  simp only [Function.comp_apply]
  split_ifs with hr
  · simp only [Bool.and_eq_true, Bool.not_eq_true'] at hr
    have hall := hfinished hr.2 ⟨_, hn, hr.1⟩
    have hunderway : s.underway = [] := by
      rw [underway, List.filterMap_eq_nil_iff]
      intro b hb
      rw [hall b hb]
      rfl
    have hposition : s.position = s.manager.lastDumpCompleted := by
      rw [position, hunderway]
      rfl
    have hup := h.upTo
    rw [hposition] at hup
    have hnew : position { s with
        manager := s.manager.save s.manager { s.manager with lastDumpCompleted := l'' }
        batches := .queued :: s.batches } = l'' := by
      rw [IndexManager.save_self, position]
      show Option.or (List.filterMap _ (_ :: _)).head? _ = _
      rw [underway_of_others hall]
      rfl
    show UpTo s.db s.processed _
    rw [hnew]
    exact hup.pass (nextDump_nextDump hn)
  · exact h.upTo

/-- A job or callback goes on from `last`, where the batches are at rest. -/
theorem Ordered.advance {b : CatchUpBatch} {r : IndexManager × CatchUpBatch} {m : IndexManager}
    (h : Ordered s) (hmem : b ∈ s.batches) (hb : b ≠ .finished)
    (hrunning : (s.advance b r).running ≤ 1) (hposition : s.position = m.lastDumpCompleted)
    (hcatch : catchUp s.db fuel m = some r) : Ordered (s.advance b r) := by
  refine ⟨hrunning, ?_⟩
  have hothers := s.eq_finished_of_erase h.running hmem hb
  have hup := h.upTo
  rw [hposition] at hup
  rcases catchUp_cases hcatch with ⟨l'', -, rfl⟩ | ⟨y, l'', hn, rfl⟩
  · have hnew : (s.advance b (m, .finished)).position = m.lastDumpCompleted := by
      rw [position]
      show Option.or (List.filterMap _ (_ :: _)).head? _ = _
      rw [underway_of_others hothers]
      rfl
    have hprocessed : (s.advance b (m, .finished)).processed = s.processed := List.append_nil _
    rw [hnew, hprocessed]
    exact hup
  · have hnew : (s.advance b (indexNextDump { m with lastDumpCompleted := l'' } y,
        .indexing y (s.db.filesOf y))).position = some y := by
      rw [position]
      show Option.or (List.filterMap _ (_ :: _)).head? _ = _
      rw [underway_of_others hothers]
      rfl
    rw [hnew]
    exact hup.next hn

theorem Ordered.step {a : Act} (h : Ordered s) (ha : OneAtATime s a) (hno : a.NoReindex)
    (hstep : Bibdata.step s a = some s') : Ordered s' := by
  have hrunning := running_step h.running ha hstep
  cases a with
  | poll m eventId id =>
    simp only [Bibdata.step] at hstep
    split at hstep
    · cases hstep
    · split_ifs at hstep
      cases hstep
      exact h.congr hrunning (fun d hd => List.mem_cons_of_mem _ hd) rfl rfl rfl
  | attach d f =>
    simp only [Bibdata.step] at hstep
    split_ifs at hstep
    cases hstep
    exact h.congr hrunning (fun d hd => hd) rfl rfl rfl
  | imported d fuel =>
    simp only [Bibdata.step] at hstep
    split_ifs at hstep with hmem hinc
    · have h' : Ordered { s with imports := s.imports.erase d } :=
        h.congr h.running (fun d hd => hd) rfl rfl rfl
      refine h'.callIndexRemaining hrunning (fun hprogress hnext => ?_) hstep
      exact ha (s.manager, fuel) (by simp [Act.copy, hinc]) hprogress hnext
    · cases hstep
      exact h.congr hrunning (fun d hd => hd) rfl rfl rfl
  | scan rows =>
    simp only [Bibdata.step] at hstep
    split_ifs at hstep with hperm
    cases hstep
    exact h.congr hrunning (fun d hd => hperm.mem_iff.2 hd) rfl rfl rfl
  | indexRemaining fuel =>
    exact h.callIndexRemaining hrunning (ha (s.manager, fuel) rfl) hstep
  | reindex => exact hno.elim
  | reindexed copy fuel => exact hno.elim
  | remainingDumpsJob fuel =>
    simp only [Bibdata.step] at hstep
    split_ifs at hstep with hmem
    obtain ⟨r, hr, rfl⟩ := Option.map_eq_some_iff.1 hstep
    refine h.advance hmem (by simp) hrunning ?_ hr
    rw [position, underway_of_queued h.running hmem]
    rfl
  | dumpFileJob d jobs f =>
    simp only [Bibdata.step] at hstep
    split_ifs at hstep with hcond
    rw [Option.some.injEq] at hstep
    have hunderway : s'.underway = s.underway := by
      have hmem : .indexing d (jobs.erase f) ∈ s'.batches := by
        rw [← hstep]
        exact List.mem_cons_self
      rw [underway_of_indexing hrunning hmem, underway_of_indexing h.running hcond.1]
    refine h.congr hrunning ?_ ?_ hunderway ?_
    · rw [← hstep]
      exact fun d hd => hd
    · rw [← hstep]
    · rw [← hstep]
  | onSuccess d fuel =>
    simp only [Bibdata.step] at hstep
    split_ifs at hstep with hmem
    obtain ⟨r, hr, rfl⟩ := Option.map_eq_some_iff.1 hstep
    simp only [Bibdata.onSuccess, if_true] at hr
    refine h.advance hmem (by simp) hrunning ?_ hr
    rw [position, underway_of_indexing h.running hmem]
    rfl
  | indexedRemaining =>
    simp only [Bibdata.step] at hstep
    split_ifs at hstep
    cases hstep
    exact h.congr hrunning (fun d hd => hd) rfl (underway_erase_finished _) rfl

end Steps

end Sys

namespace Collection

variable {ρ δ : Type*} {config : Traject.Configuration ρ δ} {content : DumpFile → List (List ρ)}
  {c c' : Collection ρ δ} {id : String}

/-- Catch-ups come one at a time, and nobody calls `reindex!`. -/
def NeverWiped (c : Collection ρ δ) : Act → Prop
  | .sys a => OneAtATime c.sys a ∧ a.NoReindex
  | _ => True

instance : ∀ a : Act, Decidable (c.NeverWiped a)
  | .sys _ => inferInstanceAs (Decidable (_ ∧ _))
  | .start _ _ _ | .entry _ | .run _ _ | .exit _ _ | .stop _ | .finish _ _ _ => isTrue trivial

theorem NeverWiped.orderly {a : Act} (h : c.NeverWiped a) : c.Orderly a := by
  cases a with
  | sys a =>
    cases a with
    | reindexed copy fuel => exact h.2.elim
    | _ => exact h.1
  | _ => trivial

theorem Leaves.last_mention {v : Option δ} {applied : List (List DumpFile)}
    (h : Leaves config content applied id v) :
    (v = none ∧ ∀ files ∈ applied, ¬ MentionedIn config content files id)
      ∨ ∃ i files, applied[i]? = some files ∧ SaidIn config content files id v
        ∧ ∀ (j : ℕ) (files' : List DumpFile), applied[j]? = some files' →
          MentionedIn config content files' id → j ≤ i := by
  induction h with
  | nothing id => exact .inl ⟨rfl, by simp⟩
  | @unmentioned before files id v h hno ih =>
    rcases ih with ⟨rfl, hnone⟩ | ⟨i, files', hi, hsaid, hlast⟩
    · refine .inl ⟨rfl, fun files' hfiles' => ?_⟩
      rcases List.mem_append.1 hfiles' with hfiles' | hfiles'
      · exact hnone files' hfiles'
      · rwa [List.mem_singleton.1 hfiles']
    · have hlt := (List.getElem?_eq_some_iff.1 hi).1
      refine .inr ⟨i, files', ?_, hsaid, fun j files'' hj hin => ?_⟩
      · rw [List.getElem?_append_left hlt, hi]
      · by_cases hjlt : j < before.length
        · rw [List.getElem?_append_left hjlt] at hj
          exact hlast j files'' hj hin
        · rw [List.getElem?_append_right (not_lt.1 hjlt)] at hj
          obtain rfl := List.mem_singleton.1 (List.mem_of_getElem? hj)
          exact absurd hin hno
  | @said before files id v hsaid =>
    refine .inr ⟨before.length, files, by simp, hsaid, fun j files' hj _ => ?_⟩
    have hlt := (List.getElem?_eq_some_iff.1 hj).1
    simp only [List.length_append, List.length_singleton] at hlt
    omega

/-- Each dump given a batch has its files in `applied`, in the same place. -/
structure Aligned (c : Collection ρ δ) : Prop where
  ordered : c.sys.Ordered
  length : c.applied.length = c.sys.processed.length

theorem Aligned.advance {s : Sys} {a : Bibdata.Act} (h : Aligned c) (ha : OneAtATime c.sys a)
    (hno : a.NoReindex) (hjob : ∀ d jobs f, a ≠ .dumpFileJob d jobs f)
    (hstep : Bibdata.step c.sys a = some s) : Aligned (c.advance s) := by
  refine ⟨h.ordered.step ha hno hstep, ?_⟩
  show (c.applied ++ _).length = s.processed.length
  rw [List.length_append, List.length_map, List.length_drop, h.length]
  rcases step_dumps hjob hstep with ⟨hsame, -⟩ | ⟨b, -, -, ⟨-, hsame⟩ | ⟨d, -, hadd, -⟩⟩
  · rw [hsame]
    omega
  · rw [hsame]
    omega
  · rw [hadd, List.length_append]
    omega

theorem Aligned.step {a : Act} (h : Aligned c) (hno : c.NeverWiped a)
    (hstep : Collection.step config content c a = some c') : Aligned c' := by
  cases a with
  | sys a =>
    simp only [Collection.step, stepSys] at hstep
    split at hstep
    · cases hstep
    · exact hno.2.elim
    · rename_i hjob _
      obtain ⟨s, hs, rfl⟩ := Option.map_eq_some_iff.1 hstep
      exact h.advance hno.1 hno.2 hjob hs
  | start d jobs f =>
    simp only [Collection.step] at hstep
    split_ifs at hstep
    cases hstep
    exact ⟨h.ordered, h.length⟩
  | entry i =>
    obtain ⟨p, hp, rfl⟩ := Option.map_eq_some_iff.1 hstep
    exact ⟨h.ordered, h.length⟩
  | run i e =>
    obtain ⟨p, hi, hstep⟩ := Option.bind_eq_some_iff.1 hstep
    obtain ⟨q, hcurrent, hstep⟩ := Option.bind_eq_some_iff.1 hstep
    obtain ⟨r, hr, rfl⟩ := Option.map_eq_some_iff.1 hstep
    exact ⟨h.ordered, h.length⟩
  | exit i e =>
    obtain ⟨p, hi, hstep⟩ := Option.bind_eq_some_iff.1 hstep
    obtain ⟨q, hcurrent, rfl⟩ := Option.map_eq_some_iff.1 hstep
    exact ⟨h.ordered, h.length⟩
  | stop i =>
    simp only [Collection.step] at hstep
    split_ifs at hstep
    cases hstep
    exact ⟨h.ordered, h.length⟩
  | finish i d jobs =>
    obtain ⟨p, hi, hstep⟩ := Option.bind_eq_some_iff.1 hstep
    split_ifs at hstep
    obtain ⟨s, hs, rfl⟩ := Option.map_eq_some_iff.1 hstep
    refine ⟨h.ordered.step (a := .dumpFileJob d jobs p.file) (by simp [OneAtATime, Act.copy])
      trivial hs, ?_⟩
    simp only [Bibdata.step] at hs
    split_ifs at hs
    rw [Option.some.injEq] at hs
    rw [← hs]
    exact h.length

/-- While nothing is indexed, the collection holds for each id what the last dump says that mentions
it; every other that does is a full dump, or starts no later. -/
theorem latest_of_run {db : Db} {es : List Act}
    (h : Run (step config content) NeverWiped (fresh db) es c) (hidle : c.Idle)
    (hid : id ∉ c.givenUp) :
    (c.solr id = none ∧ ∀ files ∈ c.applied, ¬ MentionedIn config content files id)
      ∨ ∃ (i : ℕ) (d : Dump) (files : List DumpFile), c.sys.processed[i]? = some d
        ∧ c.applied[i]? = some files
        ∧ SaidIn config content files id (c.solr id)
        ∧ ∀ (j : ℕ) (e : Dump) (files' : List DumpFile), c.sys.processed[j]? = some e →
          c.applied[j]? = some files' → MentionedIn config content files' id →
            e.isFullDump ∨ e.start ≤ d.start := by
  have hinv : Inv config content c :=
    h.invariant (fun _ _ _ hs hok hstep => inv_step hs hok.orderly hstep) inv_fresh
  have haligned : Aligned c := h.invariant (fun _ _ _ hs hok hstep => hs.step hok hstep)
    ⟨Sys.ordered_fresh db, rfl⟩
  have hleaves := hinv.idle (fun d jobs hmem => by cases hidle _ hmem) id hid
  refine hleaves.last_mention.imp_right ?_
  rintro ⟨i, files, hi, hsaid, hlast⟩
  have hilt : i < c.sys.processed.length := by
    rw [← haligned.length]
    exact (List.getElem?_eq_some_iff.1 hi).1
  refine ⟨i, c.sys.processed[i], files, List.getElem?_eq_getElem hilt, hi,
    hsaid, fun j e files' hj hfiles' hin => ?_⟩
  have hji := hlast j files' hfiles' hin
  obtain ⟨hjlt, rfl⟩ := List.getElem?_eq_some_iff.1 hj
  rcases Nat.lt_or_eq_of_le hji with hji | rfl
  · have hsorted := List.pairwise_iff_getElem.1 haligned.ordered.upTo.sorted j i hjlt hilt hji
    exact (haligned.ordered.upTo.kinds _ (List.getElem_mem hjlt)).imp_right hsorted
  · exact .inr le_rfl

theorem latest_twoDumps : ∃ c : Collection (String × Option String) (String × String),
    Run (step twoFields twoFiles) NeverWiped
      (fresh { dumps := [dumpOf 1, dumpOf 2], dumpFiles := [fileOf 1, fileOf 2] }) twoDumps c
      ∧ c.sys.processed = [dumpOf 1, dumpOf 2] ∧ c.solr "992" = none
      ∧ ∃ (i : ℕ) (d : Dump) (files : List DumpFile), c.sys.processed[i]? = some d
        ∧ c.applied[i]? = some files
        ∧ SaidIn twoFields twoFiles files "992" (c.solr "992")
        ∧ ∀ (j : ℕ) (e : Dump) (files' : List DumpFile), c.sys.processed[j]? = some e →
          c.applied[j]? = some files' → MentionedIn twoFields twoFiles files' "992" →
            e.isFullDump ∨ e.start ≤ d.start := by
  obtain ⟨c, hc, hprocessed, hsolr, happlied, hgiven, hidle⟩ : ∃ c ∈ exec
      (guarded (step twoFields twoFiles) NeverWiped)
      (fresh { dumps := [dumpOf 1, dumpOf 2], dumpFiles := [fileOf 1, fileOf 2] }) twoDumps,
      c.sys.processed = [dumpOf 1, dumpOf 2] ∧ c.solr "992" = none
        ∧ c.applied = [[fileOf 1], [fileOf 2]] ∧ c.givenUp = ["993"] ∧ c.Idle := by
    decide +kernel
  have hrun := run_of_exec hc
  refine ⟨c, hrun, hprocessed, hsolr, ?_⟩
  have hid : "992" ∉ c.givenUp := by simp [hgiven]
  rcases latest_of_run hrun hidle hid with ⟨-, hnone⟩ | hlast
  · refine absurd ?_ (hnone [fileOf 1] (by simp [happlied]))
    decide +kernel
  · exact hlast

end Collection

end Bibdata
