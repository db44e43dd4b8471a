import Bibdata.CatchUp
import Bibdata.Proofs.NextDump
import Mathlib.Data.List.Perm.Subperm

/-!
# A catch-up ends, in order, exactly when no two dumps start together

Past two dumps with one start the position never gets (`NextDump.of_tie`), so the selection goes
on for ever. Without such a pair each dump selected starts later than the one before, and what
lies between two selected ones has no files.
-/

namespace Bibdata

variable {db : Db} {last last' d : Dump} {r : Option Dump}

namespace NextIncremental

theorem spec (h : NextIncremental db last (r, last')) :
    last.start ≤ last'.start
      ∧ (last' = last ∨ last' ∈ db.changedRecords ∧ db.filesOf last' = [])
      ∧ ∀ y, r = some y → y ∈ db.ahead last' ∧ db.filesOf y ≠ [] := by
  obtain ⟨rows, fuel, hp, h⟩ := h
  obtain ⟨h1, h2, -, h3⟩ := nextIncremental_spec h
  refine ⟨h1, by simpa using h2, fun y hy => ?_⟩
  obtain ⟨hy1, hy2⟩ := h3 y hy
  exact ⟨by simpa [Db.mem_ahead] using hy1, by simpa using hy2⟩

theorem of_mem (h : NextIncremental db last (r, last')) (hd : d ∈ db.ahead last)
    (hfiles : db.filesOf d ≠ []) : d ∈ db.ahead last' ∧ ∃ y, r = some y ∧ y.start ≤ d.start := by
  obtain ⟨rows, fuel, hp, h⟩ := h
  have hd' : d ∈ (db.scan rows hp).ahead last := by simpa [Db.mem_ahead] using hd
  obtain ⟨h1, h2⟩ := nextIncremental_of_mem h hd' (by simpa using hfiles)
  exact ⟨by simpa [Db.mem_ahead] using h1, h2⟩

theorem of_tie {a b : Dump} (ha : a ∈ db.changedRecords) (hb : b ∈ db.changedRecords)
    (hab : a.id ≠ b.id) (ht : a.start = b.start) (h : NextIncremental db last (r, last'))
    (hlast : last.start ≤ a.start) : ∃ y, r = some y ∧ y.start ≤ a.start := by
  obtain ⟨rows, fuel, hp, h⟩ := h
  exact nextIncremental_of_tie (by simpa using ha) (by simpa using hb) hab ht h hlast

theorem some_spec {y : Dump} (h : NextIncremental db last (some y, last')) :
    y ∈ db.changedRecords ∧ db.filesOf y ≠ [] ∧ last.start ≤ y.start := by
  obtain ⟨h1, -, h3⟩ := h.spec
  obtain ⟨hy, hfiles⟩ := h3 y rfl
  obtain ⟨hmem, hle, -⟩ := Db.mem_ahead.1 hy
  exact ⟨Db.mem_changedRecords.2 hmem, hfiles, h1.trans hle⟩

end NextIncremental

theorem toS_le (t : Time) : t.toS ≤ t := by
  have h : 0 ≤ t % 1000000 := Int.emod_nonneg t (by decide)
  unfold Time.toS
  exact Int.sub_le_self t h

namespace NextDump

variable {l'' : Option Dump}

theorem of_none (h : NextDump db none (r, l'')) :
    l'' = none ∧ ((∃ f, r = some f ∧ LatestFull db f) ∨ (db.fullDump = [] ∧
      ((∃ y ∈ db.changedRecords, r = some y ∧ ∀ d ∈ db.changedRecords, y.start ≤ d.start)
        ∨ r = none ∧ db.changedRecords = []))) := by
  obtain ⟨rows, fuel, hp, h⟩ := h
  simp only [nextDump, Option.some.injEq, Prod.mk.injEq] at h
  obtain ⟨h, rfl⟩ := h
  refine ⟨rfl, ?_⟩
  rcases hf : recentFullDump (db.scan rows hp) with _ | f
  · rw [hf] at h
    change firstIncremental _ = r at h
    rw [recentFullDump, List.argmax_eq_none, List.eq_nil_iff_forall_not_mem] at hf
    refine .inr ⟨List.eq_nil_iff_forall_not_mem.2 fun f => by simpa using hf f, ?_⟩
    rcases hi : firstIncremental (db.scan rows hp) with _ | y
    · rw [hi] at h
      rw [firstIncremental, List.argmin_eq_none, List.eq_nil_iff_forall_not_mem] at hi
      exact .inr ⟨h.symm, List.eq_nil_iff_forall_not_mem.2 fun f => by simpa using hi f⟩
    · rw [hi] at h
      refine .inl ⟨y, by simpa using List.argmin_mem hi, h.symm, fun d hd => ?_⟩
      exact List.le_of_mem_argmin (Db.mem_changedRecords_scan.2 hd) hi
  · rw [hf] at h
    change some f = r at h
    refine .inl ⟨f, h.symm, by simpa using List.argmax_mem hf, fun g hg => ?_⟩
    exact List.le_of_mem_argmax (Db.mem_fullDump_scan.2 hg) hf

/-- After a full dump: the last incremental before it, or else the walk from the full dump. -/
theorem of_full (hfull : last ∈ db.fullDump) (h : NextDump db (some last) (r, l'')) :
    (∃ p ∈ db.changedRecords, r = some p ∧ l'' = some last ∧ p.start < last.start.toS
        ∧ ∀ q ∈ db.changedRecords, q.start < last.start.toS → q.start ≤ p.start)
      ∨ (∀ q ∈ db.changedRecords, last.start.toS ≤ q.start)
        ∧ ∃ last', l'' = some last' ∧ NextIncremental db last (r, last') := by
  obtain ⟨rows, fuel, hp, h⟩ := h
  obtain ⟨hmem, hty⟩ := Db.mem_fullDump.1 hfull
  -- no incremental has the id of the full dump
  have hid : ∀ q ∈ db.changedRecords, q.id ≠ last.id := by
    intro q hq he
    obtain ⟨hq1, hq2⟩ := Db.mem_changedRecords.1 hq
    obtain rfl := Db.eq_of_id hq1 hmem he
    exact Dump.not_isFullDump hq2 hty
  simp only [nextDump, if_pos hty] at h
  rcases hprev : previousToFullIncremental (db.scan rows hp) last with _ | p
  · rw [hprev] at h
    simp only [Option.map_eq_some_iff, Prod.exists, Prod.mk.injEq] at h
    obtain ⟨r', last', h, rfl, rfl⟩ := h
    rw [previousToFullIncremental, List.argmax_eq_none, List.filter_eq_nil_iff] at hprev
    refine .inr ⟨fun q hq => ?_, last', rfl, rows, fuel, hp, h⟩
    have := hprev q (Db.mem_changedRecords_scan.2 hq)
    simp only [decide_eq_true_eq, not_and, ne_eq] at this
    exact not_lt.1 fun hlt => this hlt (hid q hq)
  · rw [hprev] at h
    simp only [Option.some.injEq, Prod.mk.injEq] at h
    obtain ⟨rfl, rfl⟩ := h
    have hmemp := List.argmax_mem hprev
    simp only [List.mem_filter, Db.mem_changedRecords_scan, decide_eq_true_eq] at hmemp
    refine .inl ⟨p, hmemp.1, rfl, rfl, hmemp.2.1, fun q hq hlt => ?_⟩
    refine List.le_of_mem_argmax (List.mem_filter.2 ⟨Db.mem_changedRecords_scan.2 hq, ?_⟩) hprev
    simpa using ⟨hlt, hid q hq⟩

theorem of_not_full (hty : ¬ last.isFullDump) (h : NextDump db (some last) (r, l'')) :
    ∃ last', l'' = some last' ∧ NextIncremental db last (r, last') := by
  obtain ⟨rows, fuel, hp, h⟩ := h
  simp only [nextDump, if_neg hty, Option.map_eq_some_iff, Prod.exists, Prod.mk.injEq] at h
  obtain ⟨r', last', h, rfl, rfl⟩ := h
  exact ⟨last', rfl, rows, fuel, hp, h⟩

end NextDump

/-! ### A tie is never passed -/

section Tie

variable {t : Time} {last₀ : Option Dump}

/-- The position has not passed `t`. -/
def Behind (db : Db) (t : Time) (last : Option Dump) : Prop :=
  ∀ l, last = some l → LatestFull db l ∨ ¬ l.isFullDump ∧ l.start ≤ t

theorem LatestFull.start_eq {f g : Dump} (hf : LatestFull db f) (hg : LatestFull db g) :
    f.start = g.start :=
  le_antisymm (hg.2 f hf.1) (hf.2 g hg.1)

/-- From a position that has not passed a tie there is a next dump, and it has not either. -/
theorem NextDump.of_tie {a b : Dump} {l'' : Option Dump} (ha : a ∈ db.changedRecords)
    (hb : b ∈ db.changedRecords) (hab : a.id ≠ b.id) (ht : a.start = b.start)
    (hreach : Reached db a.start) (hbehind : Behind db a.start last₀)
    (h : NextDump db last₀ (r, l'')) : ∃ y, r = some y ∧ Behind db a.start (some y) := by
  have hwalk : ∀ {l l' : Dump}, NextIncremental db l (r, l') → l.start ≤ a.start →
      ∃ y, r = some y ∧ Behind db a.start (some y) := by
    intro l l' hn hl
    obtain ⟨y, rfl, hy⟩ := hn.of_tie ha hb hab ht hl
    refine ⟨y, rfl, ?_⟩
    rintro _ ⟨⟩
    exact .inr ⟨Dump.not_isFullDump (Db.mem_changedRecords.1 hn.some_spec.1).2, hy⟩
  rcases last₀ with _ | l
  · rcases h.of_none.2 with ⟨f, rfl, hf⟩ | ⟨-, ⟨y, hy, rfl, hmin⟩ | ⟨-, hnil⟩⟩
    · exact ⟨f, rfl, by rintro _ ⟨⟩; exact .inl hf⟩
    · refine ⟨y, rfl, ?_⟩
      rintro _ ⟨⟩
      exact .inr ⟨Dump.not_isFullDump (Db.mem_changedRecords.1 hy).2, hmin a ha⟩
    · simp [hnil] at ha
  · rcases hbehind l rfl with hl | ⟨hty, hle⟩
    · rcases h.of_full hl.1 with ⟨p, hp, rfl, -, hlt, hmax⟩ | ⟨hno, l', -, hn⟩
      · refine ⟨p, rfl, ?_⟩
        rintro _ ⟨⟩
        refine .inr ⟨Dump.not_isFullDump (Db.mem_changedRecords.1 hp).2, ?_⟩
        rcases hreach l hl with hla | ⟨-, hall⟩
        · exact (hlt.le.trans (toS_le _)).trans hla
        · exact hall p hp hlt
      · rcases hreach l hl with hla | ⟨⟨p, hp, hlt⟩, -⟩
        · exact hwalk hn hla
        · exact absurd (hno p hp) (not_le.2 hlt)
    · obtain ⟨l', -, hn⟩ := h.of_not_full hty
      exact hwalk hn hle

theorem Selected.behind_of_tie {a b : Dump} {ds : List Dump} (ha : a ∈ db.changedRecords)
    (hb : b ∈ db.changedRecords) (hab : a.id ≠ b.id) (ht : a.start = b.start)
    (hreach : Reached db a.start) (h : Selected db last₀ ds) : Behind db a.start last₀ := by
  induction h with
  | start => rintro _ ⟨⟩
  | take _ hn ih =>
    obtain ⟨y, hy, hbehind⟩ := hn.of_tie ha hb hab ht hreach ih
    rwa [hy]

/-- With a tie the selection goes on for ever. -/
theorem CatchesUp.noTies (h : CatchesUp db) : NoTies db := by
  intro a ha b hb ht hreach
  by_contra hne
  have hab : a.id ≠ b.id := fun hid =>
    hne (Db.eq_of_id (Db.mem_changedRecords.1 ha).1 (Db.mem_changedRecords.1 hb).1 hid)
  have hlong : ∀ n, ∃ last ds, Selected db last ds ∧ ds.length = n := by
    intro n
    induction n with
    | zero => exact ⟨none, [], .start, rfl⟩
    | succ n ih =>
      obtain ⟨last, ds, hs, hlen⟩ := ih
      obtain ⟨fuel, hr⟩ := h.returns last ds hs db.dumps (List.Perm.refl _)
      obtain ⟨⟨r, l'⟩, hr⟩ := Option.isSome_iff_exists.1 hr
      have hn : NextDump db last (r, l') := ⟨_, fuel, _, hr⟩
      obtain ⟨y, rfl, -⟩ := hn.of_tie ha hb hab ht hreach (hs.behind_of_tie ha hb hab ht hreach)
      exact ⟨some y, ds ++ [y], .take hs hn, by simp [hlen]⟩
  obtain ⟨n, hn⟩ := h.ends
  obtain ⟨last, ds, hs, hlen⟩ := hlong (n + 1)
  have := hn last ds hs
  omega

end Tie

/-! ### Without ties -/

section Untied

theorem Reached.mono {t t' : Time} (h : Reached db t) (hle : t ≤ t') : Reached db t' := by
  intro f hf
  rcases h f hf with hft | ⟨hex, hall⟩
  · exact .inl (hft.trans hle)
  · exact .inr ⟨hex, fun p hp hlt => (hall p hp hlt).trans hle⟩

/-- The incrementals `incs` selected from `i` to `l`, each starting later than the one before,
and nothing with files left out between them. -/
structure Trail (db : Db) (i l : Dump) (incs : List Dump) : Prop where
  head : incs.head? = some i
  last : l ∈ incs
  le_last : ∀ d ∈ incs, d.start ≤ l.start
  mem : ∀ d ∈ incs, d ∈ db.changedRecords
  sorted : incs.Pairwise fun a b => a.start < b.start
  reached : Reached db i.start
  complete : ∀ d ∈ db.changedRecords, db.filesOf d ≠ [] → i.start ≤ d.start →
    d.start ≤ l.start → d ∈ incs

variable {i l y : Dump} {incs : List Dump}

theorem Trail.single (hno : NoTies db) (hi : i ∈ db.changedRecords)
    (hreach : Reached db i.start) : Trail db i i [i] where
  head := rfl
  last := List.mem_singleton_self i
  le_last := by simp
  mem := by simpa using hi
  sorted := List.pairwise_singleton _ _
  reached := hreach
  complete d hd _ h1 h2 := by
    rw [List.mem_singleton]
    exact (hno i hi d hd (le_antisymm h1 h2) hreach).symm

theorem Trail.head_mem (h : Trail db i l incs) : i ∈ incs :=
  List.mem_of_mem_head? h.head

theorem Trail.reached_last (h : Trail db i l incs) : Reached db l.start :=
  h.reached.mono (h.le_last i h.head_mem)

/-- Without ties the walk from the last one selected finds a later one. -/
theorem Trail.lt_next (hno : NoTies db) (h : Trail db i l incs)
    (hn : NextIncremental db l (some y, last')) : l.start < y.start := by
  obtain ⟨h1, h2, h3⟩ := hn.spec
  have hy := (Db.mem_ahead.1 (h3 y rfl).1)
  have hyc := Db.mem_changedRecords.2 hy.1
  have hl := h.mem l h.last
  refine lt_of_le_of_ne (h1.trans hy.2.1) fun he => hy.2.2 ?_
  obtain rfl := hno l hl y hyc he h.reached_last
  rcases h2 with rfl | ⟨hl', -⟩
  · rfl
  · rw [hno _ hl _ hl' (le_antisymm h1 hy.2.1) h.reached_last]

theorem Trail.snoc (hno : NoTies db) (h : Trail db i l incs)
    (hn : NextIncremental db l (some y, last')) : Trail db i y (incs ++ [y]) where
  head := by rw [List.head?_append, h.head]; rfl
  last := by simp
  le_last d hd := by
    rcases List.mem_append.1 hd with hd | hd
    · exact (h.le_last d hd).trans (h.lt_next hno hn).le
    · rw [List.mem_singleton.1 hd]
  mem d hd := by
    rcases List.mem_append.1 hd with hd | hd
    · exact h.mem d hd
    · rw [List.mem_singleton.1 hd]
      exact hn.some_spec.1
  sorted := by
    refine List.pairwise_append.2 ⟨h.sorted, List.pairwise_singleton _ _, fun a ha b hb => ?_⟩
    rw [List.mem_singleton.1 hb]
    exact (h.le_last a ha).trans_lt (h.lt_next hno hn)
  reached := h.reached
  complete d hd hfiles h1 h2 := by
    rcases le_or_gt d.start l.start with hle | hlt
    · exact List.mem_append_left _ (h.complete d hd hfiles h1 hle)
    · have hahead : d ∈ db.ahead l := by
        refine Db.mem_ahead.2 ⟨Db.mem_changedRecords.1 hd, hlt.le, fun hid => ?_⟩
        obtain rfl := Db.eq_of_id (Db.mem_changedRecords.1 hd).1
          (Db.mem_changedRecords.1 (h.mem l h.last)).1 hid
        exact lt_irrefl _ hlt
      obtain ⟨-, z, hz, hzd⟩ := hn.of_mem hahead hfiles
      obtain rfl : y = z := by simpa using hz
      have hyr := h.reached_last.mono (h.lt_next hno hn).le
      rw [hno y hn.some_spec.1 d hd (le_antisymm hzd h2) hyr]
      simp

theorem Trail.le_of_none (h : Trail db i l incs) (hn : NextIncremental db l (none, last'))
    {d : Dump} (hd : d ∈ db.changedRecords) (hfiles : db.filesOf d ≠ []) : d.start ≤ l.start := by
  by_contra hlt
  rw [not_le] at hlt
  have hahead : d ∈ db.ahead l := by
    refine Db.mem_ahead.2 ⟨Db.mem_changedRecords.1 hd, hlt.le, fun hid => ?_⟩
    obtain rfl := Db.eq_of_id (Db.mem_changedRecords.1 hd).1
      (Db.mem_changedRecords.1 (h.mem l h.last)).1 hid
    exact lt_irrefl _ hlt
  obtain ⟨-, z, hz, -⟩ := hn.of_mem hahead hfiles
  cases hz

/-- Where the selection stands: before it, after the full dump, or among the incrementals. -/
inductive Stage (db : Db) : Option Dump → List Dump → Prop
  | fresh : Stage db none []
  | full {f : Dump} (hf : LatestFull db f) : Stage db (some f) [f]
  | incs {pre incs : List Dump} {i l : Dump} (hpre : pre.Nodup)
      (hfull : ∀ f ∈ pre, f ∈ db.fullDump) (h : Trail db i l incs) :
      Stage db (some l) (pre ++ incs)

theorem Stage.next (hno : NoTies db) {last₀ l'' : Option Dump} {ds : List Dump}
    (hs : Stage db last₀ ds) (h : NextDump db last₀ (some y, l'')) :
    Stage db (some y) (ds ++ [y]) := by
  cases hs with
  | fresh =>
    rcases h.of_none.2 with ⟨f, hf, hlatest⟩ | ⟨hnil, ⟨z, hz, hy, -⟩ | ⟨hy, -⟩⟩
    · obtain rfl : y = f := by simpa using hf
      exact .full hlatest
    · obtain rfl : y = z := by simpa using hy
      refine .incs (by simp) (by simp) (Trail.single hno hz ?_)
      intro f hf
      have := hf.1
      simp [hnil] at this
    · cases hy
  | @full f hf =>
    refine .incs (List.nodup_singleton f) (by simpa using Db.mem_fullDump.1 hf.1)
      (Trail.single hno ?_ ?_)
    · rcases h.of_full hf.1 with ⟨p, hp, hy, -⟩ | ⟨-, l', -, hn⟩
      · obtain rfl : y = p := by simpa using hy
        exact hp
      · exact hn.some_spec.1
    · intro g hg
      rw [hg.start_eq hf]
      rcases h.of_full hf.1 with ⟨p, hp, hy, -, hlt, hmax⟩ | ⟨-, l', -, hn⟩
      · obtain rfl : y = p := by simpa using hy
        exact .inr ⟨⟨y, hp, hlt⟩, hmax⟩
      · exact .inl hn.some_spec.2.2
  | @incs pre incs i l hpre hfull ht =>
    obtain ⟨l', -, hn⟩ := h.of_not_full
      (Dump.not_isFullDump (Db.mem_changedRecords.1 (ht.mem l ht.last)).2)
    rw [List.append_assoc]
    exact .incs hpre hfull (ht.snoc hno hn)

theorem Selected.stage (hno : NoTies db) {last₀ : Option Dump} {ds : List Dump}
    (h : Selected db last₀ ds) : Stage db last₀ ds := by
  induction h with
  | start => exact .fresh
  | take _ hn ih => exact ih.next hno hn

theorem Stage.mem_dumps {last₀ : Option Dump} {ds : List Dump} (h : Stage db last₀ ds) :
    ∀ d ∈ ds, d ∈ db.dumps := by
  cases h with
  | fresh => simp
  | full hf => simpa using (Db.mem_fullDump.1 hf.1).1
  | incs hpre hfull ht =>
    intro d hd
    rcases List.mem_append.1 hd with hd | hd
    · exact (Db.mem_fullDump.1 (hfull d hd)).1
    · exact (Db.mem_changedRecords.1 (ht.mem d hd)).1

theorem Trail.nodup (h : Trail db i l incs) : incs.Nodup :=
  h.sorted.imp fun hlt he => by rw [he] at hlt; exact lt_irrefl _ hlt

theorem Stage.nodup {last₀ : Option Dump} {ds : List Dump} (h : Stage db last₀ ds) :
    ds.Nodup := by
  cases h with
  | fresh => simp
  | full hf => simp
  | incs hpre hfull ht =>
    refine List.nodup_append.2 ⟨hpre, ht.nodup, ?_⟩
    rintro f hf _ hd rfl
    exact Dump.not_isFullDump (Db.mem_changedRecords.1 (ht.mem f hd)).2
      (Db.mem_fullDump.1 (hfull f hf)).2

theorem Stage.dropWhile_eq {pre : List Dump} (hfull : ∀ f ∈ pre, f ∈ db.fullDump)
    (ht : Trail db i l incs) : (pre ++ incs).dropWhile (·.isFullDump) = incs := by
  rw [List.dropWhile_append_of_pos fun f hf => by simpa using (Db.mem_fullDump.1 (hfull f hf)).2]
  obtain ⟨tl, rfl⟩ := List.head?_eq_some_iff.1 ht.head
  have hi := Dump.not_isFullDump (Db.mem_changedRecords.1 (ht.mem i (by simp))).2
  rw [List.dropWhile_cons_of_neg (by simpa using hi)]

theorem Stage.find_eq {pre : List Dump} (hfull : ∀ f ∈ pre, f ∈ db.fullDump)
    (ht : Trail db i l incs) : (pre ++ incs).find? (·.isChangedRecords) = some i := by
  have hpre : pre.find? (·.isChangedRecords) = none := by
    rw [List.find?_eq_none]
    intro f hf hc
    exact Dump.not_isFullDump (by simpa using hc) (Db.mem_fullDump.1 (hfull f hf)).2
  obtain ⟨tl, rfl⟩ := List.head?_eq_some_iff.1 ht.head
  have hi := (Db.mem_changedRecords.1 (ht.mem i (by simp))).2
  rw [List.find?_append, hpre, Option.none_or, List.find?_cons_of_pos (by simpa using hi)]

theorem Stage.returns (hno : NoTies db) {last₀ : Option Dump} {ds rows : List Dump}
    (hs : Stage db last₀ ds) (h : rows.Perm db.dumps) :
    ∃ fuel, (nextDump (db.scan rows h) fuel last₀).isSome := by
  have hwalk : ∀ l ∈ db.dumps, Reached db l.start →
      ∃ fuel, (nextIncremental (db.scan rows h) fuel l).isSome := by
    intro l hl hreach
    refine ⟨_, nextIncremental_returns (t := l.start) (fun a ha b hb hle he => ?_)
      (Db.mem_scan.2 hl) le_rfl (Nat.lt_succ_self _)⟩
    rw [hno a (Db.mem_changedRecords_scan.1 ha) b (Db.mem_changedRecords_scan.1 hb) he
      (hreach.mono hle)]
  cases hs with
  | fresh => exact ⟨0, rfl⟩
  | @full f hf =>
    obtain ⟨hmem, hty⟩ := Db.mem_fullDump.1 hf.1
    obtain ⟨fuel, hr⟩ := hwalk f hmem fun g hg => .inl (hg.start_eq hf).le
    refine ⟨fuel, ?_⟩
    simp only [nextDump, if_pos hty]
    split
    · rfl
    · simpa using hr
  | @incs pre incs i l hpre hfull ht =>
    obtain ⟨hmem, hty⟩ := Db.mem_changedRecords.1 (ht.mem l ht.last)
    obtain ⟨fuel, hr⟩ := hwalk l hmem ht.reached_last
    refine ⟨fuel, ?_⟩
    simp only [nextDump, if_neg (Dump.not_isFullDump hty)]
    simpa using hr

theorem NoTies.catchesUp (hno : NoTies db) : CatchesUp db where
  returns last ds hs rows h := (hs.stage hno).returns hno h
  ordered last ds hs := by
    cases hs.stage hno with
    | fresh => simp
    | @full f hf =>
      rw [List.dropWhile_cons_of_pos (by simpa using (Db.mem_fullDump.1 hf.1).2)]
      simp
    | incs hpre hfull ht =>
      rw [Stage.dropWhile_eq hfull ht]
      exact ht.sorted.imp le_of_lt
  once last ds hs := (hs.stage hno).nodup
  ends := by
    refine ⟨db.dumps.length, fun last ds hs => ?_⟩
    have hst := hs.stage hno
    exact (List.Nodup.subperm hst.nodup hst.mem_dumps).length_le
  complete last last' ds hs hn i hi d hd hfiles hid := by
    have hst := hs.stage hno
    cases hst with
    | fresh => simp at hi
    | @full f hf =>
      have hf' := List.mem_of_find?_eq_some hi
      rw [List.mem_singleton] at hf'
      subst hf'
      exact absurd (Db.mem_fullDump.1 hf.1).2
        (Dump.not_isFullDump (by simpa using List.find?_some hi))
    | @incs pre incs j l hpre hfull ht =>
      rw [Stage.find_eq hfull ht] at hi
      obtain rfl : j = i := by simpa using hi
      obtain ⟨l', -, hn'⟩ := hn.of_not_full
        (Dump.not_isFullDump (Db.mem_changedRecords.1 (ht.mem l ht.last)).2)
      have hmem := ht.complete d hd hfiles hid (ht.le_of_none hn' hd hfiles)
      exact List.count_eq_one_of_mem (hs.stage hno).nodup (List.mem_append_right _ hmem)

end Untied

theorem catchesUp_iff_noTies (db : Db) : CatchesUp db ↔ NoTies db :=
  ⟨CatchesUp.noTies, NoTies.catchesUp⟩

def tied : Db where
  dumps := [{ id := 1, dumpType := .changedRecords, event := { id := 1, start := 5 } },
    { id := 2, dumpType := .changedRecords, event := { id := 2, start := 5 } }]
  dumpFiles := [⟨1, some 1, none, ""⟩, ⟨2, some 2, none, ""⟩]

/-- The first of them is selected, then the second, then the first again. -/
theorem not_catchesUp_tied : ¬ CatchesUp tied := by
  intro h
  have hsel : Selected tied tied.dumps[0]? [tied.dumps[0], tied.dumps[1], tied.dumps[0]] :=
    .take (.take (.take .start ⟨_, 1, .refl _, rfl⟩) ⟨_, 1, .refl _, rfl⟩) ⟨_, 1, .refl _, rfl⟩
  have := h.once _ _ hsel
  simp at this

end Bibdata
