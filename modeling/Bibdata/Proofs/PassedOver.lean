import Bibdata.PassedOver
import Bibdata.Proofs.CatchUp

/-!
# Nothing is passed over while every step keeps to its dump

From a position before a dump with files, `next_dump` finds that dump or another before it
(`NextDump.of_precedes`). So a dump with files stays covered: indexed, in a batch, carried on to
by a batch before it, or waiting with someone awake to go on.
-/

namespace Bibdata

open Transition

variable {db : Db} {l d : Dump} {last l'' : Option Dump} {r : Option Dump} {fuel : ℕ}

theorem nextDump_nextDump {r : Option Dump × Option Dump} (h : nextDump db fuel last = some r) :
    NextDump db last r :=
  ⟨_, fuel, List.Perm.refl _, h⟩

theorem NextIncremental.mem (h : NextIncremental db l (r, d)) (hl : l ∈ db.dumps) :
    (∀ y ∈ r, y ∈ db.dumps) ∧ d ∈ db.dumps := by
  refine ⟨?_, ?_⟩
  · rintro y rfl
    exact (Db.mem_changedRecords.1 h.some_spec.1).1
  · rcases h.spec.2.1 with rfl | ⟨hd, -⟩
    · exact hl
    · exact (Db.mem_changedRecords.1 hd).1

theorem NextDump.mem (h : NextDump db last (r, l'')) (hl : ∀ l ∈ last, l ∈ db.dumps) :
    (∀ y ∈ r, y ∈ db.dumps) ∧ ∀ l ∈ l'', l ∈ db.dumps := by
  rcases last with _ | l
  · obtain ⟨rfl, hr⟩ := h.of_none
    refine ⟨?_, by simp⟩
    rcases hr with ⟨f, rfl, hf⟩ | ⟨-, ⟨y, hy, rfl, -⟩ | ⟨rfl, -⟩⟩
    · rintro _ ⟨⟩
      exact (Db.mem_fullDump.1 hf.1).1
    · rintro _ ⟨⟩
      exact (Db.mem_changedRecords.1 hy).1
    · simp
  · have hl' := hl l rfl
    by_cases hty : l.isFullDump
    · rcases h.of_full (Db.mem_fullDump.2 ⟨hl', hty⟩) with
        ⟨p, hp, rfl, rfl, -⟩ | ⟨-, l', rfl, hn⟩
      · refine ⟨?_, hl⟩
        rintro _ ⟨⟩
        exact (Db.mem_changedRecords.1 hp).1
      · obtain ⟨h1, h2⟩ := hn.mem hl'
        exact ⟨h1, by rintro _ ⟨⟩; exact h2⟩
    · obtain ⟨l', rfl, hn⟩ := h.of_not_full hty
      obtain ⟨h1, h2⟩ := hn.mem hl'
      exact ⟨h1, by rintro _ ⟨⟩; exact h2⟩

theorem NextIncremental.of_precedes {l' : Dump} (h : NextIncremental db l (r, l'))
    (hd : d ∈ db.changedRecords) (hfiles : db.filesOf d ≠ []) (hpre : l.Precedes d) :
    (∃ y, r = some y ∧ (y = d ∨ y.Precedes d)) ∧ l'.Precedes d := by
  have hd' := Db.mem_changedRecords.1 hd
  obtain ⟨hahead, y, rfl, hyd⟩ := h.of_mem (Db.mem_ahead.2 ⟨hd', hpre⟩) hfiles
  refine ⟨⟨y, rfl, ?_⟩, (Db.mem_ahead.1 hahead).2⟩
  by_cases hid : d.id = y.id
  · exact .inl (Db.eq_of_id (Db.mem_changedRecords.1 h.some_spec.1).1 hd'.1 hid.symm)
  · exact .inr ⟨hyd, hid⟩

/-- From a position before a dump with files, `next_dump` finds it or another before it. -/
theorem NextDump.of_precedes (h : NextDump db (some l) (r, l'')) (hl : l ∈ db.dumps)
    (hd : d ∈ db.changedRecords) (hfiles : db.filesOf d ≠ []) (hpre : l.Precedes d) :
    (∃ y, r = some y ∧ (y = d ∨ y.Precedes d)) ∧ ∃ l', l'' = some l' ∧ l'.Precedes d := by
  by_cases hty : l.isFullDump
  · rcases h.of_full (Db.mem_fullDump.2 ⟨hl, hty⟩) with
      ⟨p, hp, rfl, rfl, hlt, -⟩ | ⟨-, l', rfl, hn⟩
    · have hpd : p.start < d.start := (hlt.trans_le (toS_le _)).trans_le hpre.1
      refine ⟨⟨p, rfl, .inr ⟨hpd.le, fun hid => ?_⟩⟩, l, rfl, hpre⟩
      rw [Db.eq_of_id (Db.mem_changedRecords.1 hd).1 (Db.mem_changedRecords.1 hp).1 hid] at hpd
      exact lt_irrefl _ hpd
    · obtain ⟨h1, h2⟩ := hn.of_precedes hd hfiles hpre
      exact ⟨h1, l', rfl, h2⟩
  · obtain ⟨l', rfl, hn⟩ := h.of_not_full hty
    obtain ⟨h1, h2⟩ := hn.of_precedes hd hfiles hpre
    exact ⟨h1, l', rfl, h2⟩

theorem catchUp_cases {m : IndexManager} {r : IndexManager × CatchUpBatch}
    (h : catchUp db fuel m = some r) :
    (∃ l, NextDump db m.lastDumpCompleted (none, l) ∧ r = (m, .finished))
      ∨ ∃ y l, NextDump db m.lastDumpCompleted (some y, l)
        ∧ r = (indexNextDump { m with lastDumpCompleted := l } y, .indexing y (db.filesOf y)) := by
  simp only [catchUp, Option.map_eq_some_iff] at h
  obtain ⟨⟨_ | y, l⟩, hn, rfl⟩ := h
  · exact .inl ⟨l, nextDump_nextDump hn, rfl⟩
  · exact .inr ⟨y, l, nextDump_nextDump hn, rfl⟩

namespace Sys

variable {s s' : Sys}

/-- The file `f` of `d` was indexed, or will be. -/
def Covered (s : Sys) (d : Dump) (f : DumpFile) : Prop :=
  f ∈ s.indexed ∨ (∃ jobs, .indexing d jobs ∈ s.batches ∧ f ∈ jobs) ∨ s.Carried d ∨ s.Waiting d

structure Inv (s : Sys) : Prop where
  flag : s.manager.inProgress → s.batches ≠ []
  last_mem : ∀ l ∈ s.manager.lastDumpCompleted, l ∈ s.db.dumps
  underway_mem : ∀ q ∈ s.underway, q ∈ s.db.dumps
  import_mem : ∀ d ∈ s.imports, d ∈ s.db.dumps
  incremental : ∀ d ∈ s.imports, d.isChangedRecords → incrementalDump d
  covered : ∀ i ∈ s.firstIncremental, ∀ d ∈ s.db.changedRecords, i.start < d.start →
    ∀ f ∈ s.db.filesOf d, s.Covered d f
  awake : ∀ l ∈ s.manager.lastDumpCompleted, ∀ d ∈ s.db.changedRecords, s.db.filesOf d ≠ [] →
    l.Precedes d → s.Awake s.imports

theorem inv_fresh (db : Db) : Inv (fresh db) where
  flag := by simp [fresh]
  last_mem := by simp [fresh]
  underway_mem := by simp [fresh, underway]
  import_mem := by simp [fresh]
  incremental := by simp [fresh]
  covered := by simp [fresh, firstIncremental]
  awake := by simp [fresh]

theorem Inv.caughtUp (hs : Inv s) (hq : s.Quiet) : s.CaughtUp := by
  obtain ⟨himports, -, hbatches⟩ := hq
  refine ⟨?_, fun i hi d hd hid f hf => ?_⟩
  · by_contra h
    exact hs.flag (by simpa using h) hbatches
  · rcases hs.covered i hi d hd hid f hf with h | ⟨jobs, hb, -⟩ | ⟨b, hb, -⟩ | ⟨⟨l, hl, hpre⟩, -⟩
    · exact h
    · simp [hbatches] at hb
    · simp [underway, hbatches] at hb
    · have := hs.awake l hl d hd (List.ne_nil_of_mem hf) hpre
      simp [Awake, hbatches, himports] at this

theorem underway_cons {b : CatchUpBatch} {bs : List CatchUpBatch} :
    (b :: bs).filterMap CatchUpBatch.dump = b.dump.toList ++ bs.filterMap CatchUpBatch.dump := by
  rw [List.filterMap_cons]
  rcases b.dump with _ | q <;> rfl

theorem perm_underway_erase {b : CatchUpBatch} (hb : b ∈ s.batches) :
    s.underway.Perm (b.dump.toList ++ (s.batches.erase b).filterMap CatchUpBatch.dump) := by
  rw [← underway_cons]
  exact (List.perm_cons_erase hb).filterMap _

section Advance

variable {b : CatchUpBatch} {m : IndexManager} (hs : Inv s) (hb : b ∈ s.batches)
  (hlast : ∀ l ∈ m.lastDumpCompleted, l ∈ s.db.dumps)
  (hcov : ∀ i ∈ s.firstIncremental, ∀ d ∈ s.db.changedRecords, i.start < d.start →
    ∀ f ∈ s.db.filesOf d, f ∈ s.indexed
      ∨ (∃ jobs, .indexing d jobs ∈ s.batches.erase b ∧ f ∈ jobs)
      ∨ (∃ q ∈ (s.batches.erase b).filterMap CatchUpBatch.dump, q.Precedes d)
      ∨ ∃ l ∈ m.lastDumpCompleted, l.Precedes d)
include hs hb hlast hcov

/-- No dump with files is ahead of the position. -/
theorem Inv.advance_finished (hn : NextDump s.db m.lastDumpCompleted (none, l'')) :
    Inv (s.advance b (m, .finished)) := by
  have hunder : (s.advance b (m, .finished)).underway
      = (s.batches.erase b).filterMap CatchUpBatch.dump := underway_cons
  have hno : ∀ l ∈ m.lastDumpCompleted, ∀ d ∈ s.db.changedRecords, s.db.filesOf d ≠ [] →
      ¬ l.Precedes d := by
    intro l hl d hd hfiles hpre
    rw [Option.mem_def.1 hl] at hn
    obtain ⟨⟨y, hy, -⟩, -⟩ := hn.of_precedes (hlast l hl) hd hfiles hpre
    cases hy
  refine ⟨by simp [Sys.advance], hlast, ?_, hs.import_mem, hs.incremental, ?_, ?_⟩
  · rw [hunder]
    exact fun q hq => hs.underway_mem q ((perm_underway_erase hb).mem_iff.2
      (List.mem_append_right _ hq))
  · intro i hi d hd hid f hf
    have hi' : i ∈ s.firstIncremental := by
      simpa [firstIncremental, Sys.advance, CatchUpBatch.dump] using hi
    rcases hcov i hi' d hd hid f hf with h | ⟨jobs, hj, hfj⟩ | hq | ⟨l, hl, hpre⟩
    · exact .inl h
    · exact .inr (.inl ⟨jobs, List.mem_cons_of_mem _ hj, hfj⟩)
    · refine .inr (.inr (.inl ?_))
      unfold Carried
      rwa [hunder]
    · exact absurd hpre (hno l hl d hd (List.ne_nil_of_mem hf))
  · intro l hl d hd hfiles hpre
    exact absurd hpre (hno l hl d hd hfiles)

/-- What comes after `y`, the batch of `y` carries on to. -/
theorem Inv.advance_indexing {y : Dump} (hn : NextDump s.db m.lastDumpCompleted (some y, l'')) :
    Inv (s.advance b
      (indexNextDump { m with lastDumpCompleted := l'' } y, .indexing y (s.db.filesOf y))) := by
  obtain ⟨hy, hl''⟩ := hn.mem hlast
  have hunder : (s.advance b (indexNextDump { m with lastDumpCompleted := l'' } y,
      .indexing y (s.db.filesOf y))).underway
        = y :: (s.batches.erase b).filterMap CatchUpBatch.dump := underway_cons
  refine ⟨by simp [Sys.advance], hl'', ?_, hs.import_mem, hs.incremental, ?_, ?_⟩
  · rw [hunder]
    rintro q hq
    rcases List.mem_cons.1 hq with rfl | hq
    · exact hy q rfl
    · exact hs.underway_mem q ((perm_underway_erase hb).mem_iff.2 (List.mem_append_right _ hq))
  · intro i hi d hd hid f hf
    unfold Covered Carried
    rw [hunder]
    have hcarry : y.Precedes d → ∃ q ∈ y :: (s.batches.erase b).filterMap CatchUpBatch.dump,
        q.Precedes d := fun hpre => ⟨y, List.mem_cons_self .., hpre⟩
    rcases hfirst : s.firstIncremental with _ | j
    · -- `y` is the first incremental
      have hi' : s.processed.find? (·.isChangedRecords) = none := hfirst
      simp only [firstIncremental, Sys.advance, CatchUpBatch.dump, Option.toList_some,
        List.find?_append, hi', Option.none_or] at hi
      obtain rfl : i = y := by simpa using List.mem_of_find?_eq_some hi
      refine .inr (.inr (.inl (hcarry ⟨hid.le, fun he => ?_⟩)))
      rw [Db.eq_of_id (Db.mem_changedRecords.1 hd).1 (hy i rfl) he] at hid
      exact lt_irrefl _ hid
    · obtain rfl : j = i := by
        have hi' : s.processed.find? (·.isChangedRecords) = some j := hfirst
        simpa [firstIncremental, Sys.advance, List.find?_append, hi'] using hi
      rcases hcov j hfirst d hd hid f hf with h | ⟨jobs, hj, hfj⟩ | ⟨q, hq, hpre⟩ | ⟨l, hl, hpre⟩
      · exact .inl h
      · exact .inr (.inl ⟨jobs, List.mem_cons_of_mem _ hj, hfj⟩)
      · exact .inr (.inr (.inl ⟨q, List.mem_cons_of_mem _ hq, hpre⟩))
      · rw [Option.mem_def.1 hl] at hn
        obtain ⟨⟨z, hz, hzd⟩, -⟩ := hn.of_precedes (hlast l hl) hd (List.ne_nil_of_mem hf) hpre
        obtain rfl : y = z := by simpa using hz
        rcases hzd with rfl | hyd
        · exact .inr (.inl ⟨_, List.mem_cons_self .., hf⟩)
        · exact .inr (.inr (.inl (hcarry hyd)))
  · intro _ _ _ _ _ _
    exact .inl ⟨_, List.mem_cons_self .., by simp⟩

/-- A job or callback of the batch `b` goes on from the position of `m`. -/
theorem Inv.advance {r : IndexManager × CatchUpBatch} (h : catchUp s.db fuel m = some r) :
    Inv (s.advance b r) := by
  rcases catchUp_cases h with ⟨l'', hn, rfl⟩ | ⟨y, l'', hn, rfl⟩
  · exact hs.advance_finished hb hlast hcov hn
  · exact hs.advance_indexing hb hlast hcov hn

end Advance

theorem Inv.scan (hs : Inv s) {rows : List Dump} (h : rows.Perm s.db.dumps) :
    Inv { s with db := s.db.scan rows h } where
  flag := hs.flag
  last_mem l hl := h.mem_iff.2 (hs.last_mem l hl)
  underway_mem q hq := h.mem_iff.2 (hs.underway_mem q hq)
  import_mem d hd := h.mem_iff.2 (hs.import_mem d hd)
  incremental := hs.incremental
  covered i hi d hd := hs.covered i hi d ((Db.mem_changedRecords_scan (h := h)).1 hd)
  awake l hl d hd := hs.awake l hl d ((Db.mem_changedRecords_scan (h := h)).1 hd)

theorem Inv.create (hs : Inv s) (h : d.id ∉ s.db.dumps.map (·.id))
    (hinc : d.isChangedRecords → incrementalDump d) (hfiles : s.db.filesOf d = []) :
    Inv (s.create d h) where
  flag := hs.flag
  last_mem l hl := List.mem_cons_of_mem _ (hs.last_mem l hl)
  underway_mem q hq := List.mem_cons_of_mem _ (hs.underway_mem q hq)
  import_mem e he := by
    rcases List.mem_cons.1 he with rfl | he
    · exact List.mem_cons_self ..
    · exact List.mem_cons_of_mem _ (hs.import_mem e he)
  incremental e he := by
    rcases List.mem_cons.1 he with rfl | he
    · exact hinc
    · exact hs.incremental e he
  covered i hi e he hie f hf := by
    obtain ⟨he, hty⟩ := Db.mem_changedRecords.1 he
    rcases List.mem_cons.1 he with rfl | he
    · change f ∈ s.db.filesOf e at hf
      rw [hfiles] at hf
      cases hf
    · exact hs.covered i hi e (Db.mem_changedRecords.2 ⟨he, hty⟩) hie f hf
  awake l hl e he hne hpre := by
    obtain ⟨he, hty⟩ := Db.mem_changedRecords.1 he
    rcases List.mem_cons.1 he with rfl | he
    · exact absurd hfiles hne
    · rcases hs.awake l hl e (Db.mem_changedRecords.2 ⟨he, hty⟩) hne hpre with h | ⟨e', he', h⟩
      · exact .inl h
      · exact .inr ⟨e', List.mem_cons_of_mem _ he', h⟩

theorem filesOf_attach {f : DumpFile} :
    (s.attach f).db.filesOf d = s.db.filesOf d ++ if f.dumpId = some d.id then [f] else [] := by
  simp only [Sys.attach, Db.filesOf_attach]
  split_ifs with h <;> simp [h]

theorem Inv.attach (hs : Inv s) {f : DumpFile} (hd : d ∈ s.imports) (hf : f.dumpId = some d.id)
    (hk : Keeps s (.attach d f)) : Inv (s.attach f) where
  flag := hs.flag
  last_mem := hs.last_mem
  underway_mem := hs.underway_mem
  import_mem := hs.import_mem
  incremental := hs.incremental
  covered i hi e he hie g hg := by
    rw [filesOf_attach] at hg
    rcases List.mem_append.1 hg with hg | hg
    · exact hs.covered i hi e he hie g hg
    · split_ifs at hg with hfe
      · rw [hf, Option.some.injEq] at hfe
        have he' := Db.mem_changedRecords.1 he
        obtain rfl := Db.eq_of_id (hs.import_mem d hd) he'.1 hfe
        exact .inr (.inr (hk he'.2 i hi hie))
      · cases hg
  awake l hl e he hne hpre := by
    rw [filesOf_attach] at hne
    split_ifs at hne with hfe
    · rw [hf, Option.some.injEq] at hfe
      have he' := Db.mem_changedRecords.1 he
      obtain rfl := Db.eq_of_id (hs.import_mem d hd) he'.1 hfe
      exact .inr ⟨d, hd, hs.incremental d hd he'.2⟩
    · exact hs.awake l hl e he (by simpa using hne) hpre

theorem Inv.imported (hs : Inv s) (hd : d ∈ s.imports) (hk : Keeps s (.imported d fuel))
    (h : step s (.imported d fuel) = some s') : Inv s' := by
  simp only [step, if_pos hd] at h
  split_ifs at h with hinc
  · simp only [callIndexRemaining, Bibdata.indexRemaining, Option.map_map,
      Option.map_eq_some_iff] at h
    obtain ⟨⟨r, l''⟩, hn, rfl⟩ := h
    have hnext := nextDump_nextDump hn
    simp only [Function.comp_apply]
    split_ifs with hr
    · -- a catch-up starts, from the position that `next_dump` left
      rw [IndexManager.save_self]
      refine ⟨by simp, (hnext.mem hs.last_mem).2, hs.underway_mem,
        fun e he => hs.import_mem e (List.mem_of_mem_erase he),
        fun e he => hs.incremental e (List.mem_of_mem_erase he), ?_,
        fun _ _ _ _ _ _ => .inl ⟨.queued, List.mem_cons_self .., by simp⟩⟩
      intro i hi e he hie f hf
      rcases hs.covered i hi e he hie f hf with h | ⟨jobs, hj, hfj⟩ | hq | ⟨⟨l, hl, hpre⟩, hall⟩
      · exact .inl h
      · exact .inr (.inl ⟨jobs, List.mem_cons_of_mem _ hj, hfj⟩)
      · exact .inr (.inr (.inl hq))
      · rw [Option.mem_def.1 hl] at hnext
        obtain ⟨-, l', rfl, hpre'⟩ :=
          hnext.of_precedes (hs.last_mem l hl) he (List.ne_nil_of_mem hf) hpre
        exact .inr (.inr (.inr ⟨⟨l', rfl, hpre'⟩, hall⟩))
    · refine ⟨hs.flag, hs.last_mem, hs.underway_mem,
        fun e he => hs.import_mem e (List.mem_of_mem_erase he),
        fun e he => hs.incremental e (List.mem_of_mem_erase he), hs.covered, ?_⟩
      intro l hl e he hne hpre
      rw [Option.mem_def.1 hl] at hnext
      obtain ⟨⟨y, rfl, -⟩, -⟩ := hnext.of_precedes (hs.last_mem l hl) he hne hpre
      -- there is a next dump, so the catch-up is in progress
      have hprog : s.manager.inProgress := by simpa using hr
      refine hk hinc hprog fun r' hr' => ?_
      rw [hn, Option.mem_some_iff] at hr'
      rw [← hr']
      rfl
  · obtain rfl : _ = s' := by simpa using h
    refine ⟨hs.flag, hs.last_mem, hs.underway_mem,
      fun e he => hs.import_mem e (List.mem_of_mem_erase he),
      fun e he => hs.incremental e (List.mem_of_mem_erase he), hs.covered, ?_⟩
    intro l hl e he hne hpre
    rcases hs.awake l hl e he hne hpre with h | ⟨e', he', hinc'⟩
    · exact .inl h
    · refine .inr ⟨e', (List.mem_erase_of_ne ?_).2 he', hinc'⟩
      rintro rfl
      exact hinc hinc'

theorem Inv.remainingDumpsJob (hs : Inv s) (hb : .queued ∈ s.batches)
    {r : IndexManager × CatchUpBatch} (h : catchUp s.db fuel s.manager = some r) :
    Inv (s.advance .queued r) := by
  refine hs.advance hb hs.last_mem (fun i hi e he hie f hf => ?_) h
  rcases hs.covered i hi e he hie f hf with h | ⟨jobs, hj, hfj⟩ | ⟨q, hq, hpre⟩ | ⟨hl, -⟩
  · exact .inl h
  · exact .inr (.inl ⟨jobs, (List.mem_erase_of_ne (by simp)).2 hj, hfj⟩)
  · exact .inr (.inr (.inl ⟨q, (perm_underway_erase hb).mem_iff.1 hq, hpre⟩))
  · exact .inr (.inr (.inr hl))

theorem Inv.onSuccess (hs : Inv s) (hb : .indexing d [] ∈ s.batches)
    {r : IndexManager × CatchUpBatch} (h : Bibdata.onSuccess s.db fuel s.manager true d = some r) :
    Inv (s.advance (.indexing d []) r) := by
  simp only [Bibdata.onSuccess, if_true] at h
  have hd : d ∈ s.underway := List.mem_filterMap.2 ⟨_, hb, rfl⟩
  refine hs.advance hb ?_ (fun i hi e he hie f hf => ?_) h
  · rintro _ ⟨⟩
    exact hs.underway_mem d hd
  · rcases hs.covered i hi e he hie f hf with h | ⟨jobs, hj, hfj⟩ | ⟨q, hq, hpre⟩ | ⟨-, hall⟩
    · exact .inl h
    · refine .inr (.inl ⟨jobs, (List.mem_erase_of_ne ?_).2 hj, hfj⟩)
      rintro ⟨⟩
      cases hfj
    · -- carried by `d` itself, whose place the position now is, or by another
      rcases List.mem_cons.1 ((perm_underway_erase hb).mem_iff.1 hq) with rfl | hq
      · exact .inr (.inr (.inr ⟨q, rfl, hpre⟩))
      · exact .inr (.inr (.inl ⟨q, hq, hpre⟩))
    · exact .inr (.inr (.inr ⟨d, rfl, hall d hd⟩))

theorem Inv.dumpFileJob (hs : Inv s) {jobs : List DumpFile} {f : DumpFile}
    (hb : .indexing d jobs ∈ s.batches) :
    Inv { s with
      batches := .indexing d (jobs.erase f) :: s.batches.erase (.indexing d jobs)
      indexed := f :: s.indexed } := by
  -- the dumps that are underway stay the same
  have hunder : ∀ q, q ∈ (CatchUpBatch.indexing d (jobs.erase f) ::
      s.batches.erase (.indexing d jobs)).filterMap CatchUpBatch.dump ↔ q ∈ s.underway := by
    intro q
    rw [underway_cons, (perm_underway_erase hb).mem_iff]
    rfl
  refine ⟨by simp, hs.last_mem, fun q hq => hs.underway_mem q ((hunder q).1 hq), hs.import_mem,
    hs.incremental, fun i hi e he hie g hg => ?_,
    fun _ _ _ _ _ _ => .inl ⟨_, List.mem_cons_self .., by simp⟩⟩
  rcases hs.covered i hi e he hie g hg with h | ⟨jobs', hj, hgj⟩ | ⟨q, hq, hpre⟩ | ⟨hl, hall⟩
  · exact .inl (List.mem_cons_of_mem _ h)
  · by_cases hgf : g = f
    · rw [hgf]
      exact .inl (List.mem_cons_self ..)
    · refine .inr (.inl ?_)
      rcases List.mem_cons.1 ((List.perm_cons_erase hb).mem_iff.1 hj) with he | hj
      · cases he
        exact ⟨_, List.mem_cons_self .., (List.mem_erase_of_ne hgf).2 hgj⟩
      · exact ⟨jobs', List.mem_cons_of_mem _ hj, hgj⟩
  · exact .inr (.inr (.inl ⟨q, (hunder q).2 hq, hpre⟩))
  · exact .inr (.inr (.inr ⟨hl, fun q hq => hall q ((hunder q).1 hq)⟩))

theorem Inv.indexedRemaining (hs : Inv s) (hb : .finished ∈ s.batches) :
    Inv { s with
      manager := Bibdata.indexedRemaining s.manager
      batches := s.batches.erase .finished } := by
  have hunder : ∀ q, q ∈ (s.batches.erase .finished).filterMap CatchUpBatch.dump
      ↔ q ∈ s.underway := fun q => by
    rw [(perm_underway_erase hb).mem_iff]
    rfl
  refine ⟨by simp [Bibdata.indexedRemaining], hs.last_mem,
    fun q hq => hs.underway_mem q ((hunder q).1 hq), hs.import_mem, hs.incremental,
    fun i hi e he hie f hf => ?_, fun l hl e he hne hpre => ?_⟩
  · rcases hs.covered i hi e he hie f hf with h | ⟨jobs, hj, hfj⟩ | ⟨q, hq, hpre⟩ | ⟨hl, hall⟩
    · exact .inl h
    · exact .inr (.inl ⟨jobs, (List.mem_erase_of_ne (by simp)).2 hj, hfj⟩)
    · exact .inr (.inr (.inl ⟨q, (hunder q).2 hq, hpre⟩))
    · exact .inr (.inr (.inr ⟨hl, fun q hq => hall q ((hunder q).1 hq)⟩))
  · rcases hs.awake l hl e he hne hpre with ⟨b, hb', hbf⟩ | h
    · exact .inl ⟨b, (List.mem_erase_of_ne hbf).2 hb', hbf⟩
    · exact .inr h

theorem Inv.step {a : Act} (hs : Inv s) (ha : a.OfImport) (hk : Keeps s a)
    (h : step s a = some s') : Inv s' := by
  cases a with
  | poll m eventId id =>
    simp only [Bibdata.step] at h
    split at h
    · cases h
    · rename_i d hd
      split_ifs at h with hid hfiles
      cases h
      exact hs.create hid (incrementalDump_bibDump hd) hfiles
  | attach d f =>
    simp only [Bibdata.step] at h
    split_ifs at h with hc
    cases h
    exact hs.attach hc.1 hc.2.1 hk
  | imported d fuel =>
    by_cases hd : d ∈ s.imports
    · exact hs.imported hd hk h
    · simp [Bibdata.step, hd] at h
  | scan rows =>
    simp only [Bibdata.step] at h
    split_ifs at h with hp
    cases h
    exact hs.scan hp
  | indexRemaining fuel => exact ha.elim
  | reindex => exact ha.elim
  | reindexed copy fuel => exact ha.elim
  | remainingDumpsJob fuel =>
    simp only [Bibdata.step] at h
    split_ifs at h with hb
    obtain ⟨r, hr, rfl⟩ := Option.map_eq_some_iff.1 h
    exact hs.remainingDumpsJob hb hr
  | dumpFileJob d jobs f =>
    simp only [Bibdata.step] at h
    split_ifs at h with hb
    cases h
    exact hs.dumpFileJob hb.1
  | onSuccess d fuel =>
    simp only [Bibdata.step] at h
    split_ifs at h with hb
    obtain ⟨r, hr, rfl⟩ := Option.map_eq_some_iff.1 h
    exact hs.onSuccess hb hr
  | indexedRemaining =>
    simp only [Bibdata.step] at h
    split_ifs at h with hb
    cases h
    exact hs.indexedRemaining hb

/-- Where every step keeps to its dump, nothing was passed over once all is quiet. -/
theorem caughtUp_of_run {es : List Act}
    (h : Run Bibdata.step (fun s a => a.OfImport ∧ Keeps s a) (fresh db) es s) (hq : s.Quiet) :
    s.CaughtUp :=
  (h.invariant (fun _ _ _ hs hok hstep => hs.step hok.1 hok.2 hstep) (inv_fresh db)).caughtUp hq

end Sys

section Runs

open Sys

def message (n : ℕ) : JobMessage where
  id := toString n
  name := "Publishing Platform Job Incremental Publishing"
  startTime := n
  endTime := n

def dumpOf (n : ℕ) : Dump where
  id := n
  dumpType := .changedRecords
  event := dumpEvent (message n) n
  generatedDate := some n

def fileOf (n : ℕ) : DumpFile := ⟨n, some n, some .updatedRecords, ""⟩

/-- The `n`-th incremental is made, gets a file and calls `index_remaining!`. -/
def importOf (n : ℕ) : List Act :=
  [.poll (message n) n n, .attach (dumpOf n) (fileOf n), .imported (dumpOf n) 1]

/-- A catch-up indexes the `n`-th incremental, up to the last callback. -/
def catchUpOf (n : ℕ) : List Act :=
  [.remainingDumpsJob 1, .dumpFileJob (dumpOf n) [fileOf n] (fileOf n), .onSuccess (dumpOf n) 1]

/-- The second incremental is imported between the two callbacks of the first one's catch-up. -/
theorem not_caughtUp_passedOver : ∃ s,
    Run step (fun _ a => a.OfImport) (fresh {})
        (importOf 1 ++ catchUpOf 1 ++ importOf 2 ++ [.indexedRemaining]) s
      ∧ s.Quiet ∧ ¬s.CaughtUp := by
  obtain ⟨s, hs, hq, hfirst, hd, hf, hout⟩ : ∃ s ∈ exec (guarded step fun _ a => a.OfImport)
      (fresh {}) (importOf 1 ++ catchUpOf 1 ++ importOf 2 ++ [.indexedRemaining]), s.Quiet
        ∧ s.firstIncremental = some (dumpOf 1) ∧ dumpOf 2 ∈ s.db.changedRecords
        ∧ fileOf 2 ∈ s.db.filesOf (dumpOf 2) ∧ fileOf 2 ∉ s.indexed := by
    decide +kernel
  exact ⟨s, run_of_exec hs, hq,
    fun hcaughtUp => hout (hcaughtUp.indexed _ hfirst _ hd (by decide) _ hf)⟩

/-- The second incremental is imported while the first one's batch is being indexed. -/
theorem caughtUp_importOf : ∃ s, ∃ es : List Act,
    Run step (fun s a => a.OfImport ∧ Keeps s a) (fresh {}) es s ∧ s.Quiet ∧ s.CaughtUp
      ∧ fileOf 2 ∈ s.indexed := by
  obtain ⟨s, hs, hq, hf⟩ : ∃ s ∈ exec (guarded step fun s a => a.OfImport ∧ Keeps s a) (fresh {})
      (importOf 1 ++ [.remainingDumpsJob 1] ++ importOf 2
        ++ [.dumpFileJob (dumpOf 1) [fileOf 1] (fileOf 1), .onSuccess (dumpOf 1) 1,
          .dumpFileJob (dumpOf 2) [fileOf 2] (fileOf 2), .onSuccess (dumpOf 2) 1,
          .indexedRemaining]), s.Quiet ∧ fileOf 2 ∈ s.indexed := by
    decide +kernel
  exact ⟨s, _, run_of_exec hs, hq, caughtUp_of_run (run_of_exec hs) hq, hf⟩

end Runs

end Bibdata
