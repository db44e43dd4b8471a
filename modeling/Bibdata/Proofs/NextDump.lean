import Bibdata.IndexManager

/-!
# What `next_dump` finds

`next_incremental` walks by hops, each to the earliest dump at or after the last one, over dumps
without files. It never goes past a dump with files that lies ahead (`nextIncremental_of_mem`),
nor past two dumps that start together (`nextIncremental_of_tie`), and where no two dumps ahead
start together it returns (`nextIncremental_returns`).
-/

namespace Bibdata

abbrev Db.ahead (db : Db) (last : Dump) : List Dump :=
  Successor.ahead Dump.start Dump.id db.changedRecords last

theorem Db.mem_ahead {db : Db} {last d : Dump} :
    d ∈ db.ahead last
      ↔ (d ∈ db.dumps ∧ d.isChangedRecords) ∧ last.start ≤ d.start ∧ d.id ≠ last.id := by
  rw [Successor.mem_ahead, mem_changedRecords]

variable {db : Db} {fuel : ℕ} {last last' d : Dump} {r : Option Dump}

theorem nextIncremental_zero : nextIncremental db 0 last = none := rfl

theorem nextIncremental_succ :
    nextIncremental db (fuel + 1) last =
      match Successor.successor Dump.start Dump.id db.changedRecords last with
      | none => some (none, last)
      | some d => if db.filesOf d = [] then nextIncremental db fuel d else some (some d, last) :=
  rfl

/-- Where the walk ends, and what it returns from there. -/
theorem nextIncremental_spec : ∀ {fuel : ℕ} {last : Dump},
    nextIncremental db fuel last = some (r, last') →
    last.start ≤ last'.start
      ∧ (last' = last ∨ last' ∈ db.changedRecords ∧ db.filesOf last' = [])
      ∧ (r = none → db.ahead last' = [])
      ∧ ∀ y, r = some y → y ∈ db.ahead last' ∧ db.filesOf y ≠ []
  | 0, _, h => by simp [nextIncremental_zero] at h
  | fuel + 1, last, h => by
    rw [nextIncremental_succ] at h
    split at h
    · rename_i hnone
      simp only [Option.some.injEq, Prod.mk.injEq] at h
      obtain ⟨rfl, rfl⟩ := h
      exact ⟨le_rfl, .inl rfl, fun _ => Successor.successor_eq_none hnone, by simp⟩
    · rename_i d hd
      obtain ⟨hmem, hle, hne⟩ := Successor.mem_ahead_of_successor hd
      split_ifs at h with hfiles
      · obtain ⟨h1, h2, h3⟩ := nextIncremental_spec h
        refine ⟨hle.trans h1, ?_, h3⟩
        rcases h2 with rfl | h2
        · exact .inr ⟨hmem, hfiles⟩
        · exact .inr h2
      · simp only [Option.some.injEq, Prod.mk.injEq] at h
        obtain ⟨rfl, rfl⟩ := h
        refine ⟨le_rfl, .inl rfl, by simp, fun y hy => ?_⟩
        obtain rfl : d = y := by simpa using hy
        exact ⟨Successor.mem_ahead.2 ⟨hmem, hle, hne⟩, hfiles⟩

/-- Where every position meets a dump ahead of it that starts by `t`, and a hop to a dump
without files that starts by `t` is to such a position again, the walk finds a dump by `t`. -/
theorem nextIncremental_le {P : Dump → Prop} {t : Time}
    (hP : ∀ x, P x → ∃ c ∈ db.ahead x, c.start ≤ t)
    (hhop : ∀ x y, P x → y ∈ db.ahead x → db.filesOf y = [] → y.start ≤ t → P y) :
    ∀ {fuel : ℕ} {last : Dump}, nextIncremental db fuel last = some (r, last') → P last →
      P last' ∧ ∃ y, r = some y ∧ y.start ≤ t
  | 0, _, h, _ => by simp [nextIncremental_zero] at h
  | fuel + 1, last, h, hlast => by
    obtain ⟨c, hc, hct⟩ := hP last hlast
    obtain ⟨d, hd, hdc⟩ := Successor.successor_le hc
    rw [nextIncremental_succ, hd] at h
    simp only [] at h
    split_ifs at h with hfiles
    · have hmem := Successor.mem_ahead.2 (Successor.mem_ahead_of_successor hd)
      exact nextIncremental_le hP hhop h (hhop last d hlast hmem hfiles (hdc.trans hct))
    · simp only [Option.some.injEq, Prod.mk.injEq] at h
      obtain ⟨rfl, rfl⟩ := h
      exact ⟨hlast, d, rfl, hdc.trans hct⟩

/-- The walk does not go past a dump with files that lies ahead. -/
theorem nextIncremental_of_mem (h : nextIncremental db fuel last = some (r, last'))
    (hd : d ∈ db.ahead last) (hfiles : db.filesOf d ≠ []) :
    d ∈ db.ahead last' ∧ ∃ y, r = some y ∧ y.start ≤ d.start := by
  refine nextIncremental_le (P := fun x => d ∈ db.ahead x) (fun x hx => ⟨d, hx, le_rfl⟩)
    (fun x y hx hy hyfiles hyd => ?_) h hd
  refine Db.mem_ahead.2 ⟨(Db.mem_ahead.1 hx).1, hyd, fun hid => hfiles ?_⟩
  rw [Db.filesOf_congr hid, hyfiles]

/-- The walk does not go past two dumps that start together. -/
theorem nextIncremental_of_tie {a b : Dump} (ha : a ∈ db.changedRecords)
    (hb : b ∈ db.changedRecords) (hab : a.id ≠ b.id) (ht : a.start = b.start)
    (h : nextIncremental db fuel last = some (r, last')) (hlast : last.start ≤ a.start) :
    ∃ y, r = some y ∧ y.start ≤ a.start := by
  refine (nextIncremental_le (P := fun x => x.start ≤ a.start) (fun x hx => ?_)
    (fun x y _ _ _ hy => hy) h hlast).2
  -- one of the two is not the position itself
  by_cases hxa : a.id = x.id
  · refine ⟨b, Successor.mem_ahead.2 ⟨hb, hx.trans ht.le, fun hbx => hab ?_⟩, ht.ge⟩
    rw [hxa, hbx]
  · exact ⟨a, Successor.mem_ahead.2 ⟨ha, hx, hxa⟩, le_rfl⟩

/-- Where no two dumps from `last` on start together, the walk returns. -/
theorem nextIncremental_returns {t : Time}
    (hties : ∀ a ∈ db.changedRecords, ∀ b ∈ db.changedRecords, t ≤ a.start →
      a.start = b.start → a.id = b.id) :
    ∀ {fuel : ℕ} {last : Dump}, last ∈ db.dumps → t ≤ last.start →
      (db.ahead last).length < fuel → (nextIncremental db fuel last).isSome
  | 0, _, _, _, h => by omega
  | fuel + 1, last, hlast, hle, h => by
    rw [nextIncremental_succ]
    rcases hd : Successor.successor Dump.start Dump.id db.changedRecords last with _ | d
    · simp
    · obtain ⟨hmem, hle', hne⟩ := Successor.mem_ahead_of_successor hd
      have hmem' := Db.mem_changedRecords.1 hmem
      simp only []
      split_ifs
      · refine nextIncremental_returns hties hmem'.1 (hle.trans hle') ?_
        have hlt : (db.ahead d).length < (db.ahead last).length := by
          refine Successor.ahead_length_lt hd fun z hz hid => ?_
          have hz' := Db.mem_changedRecords.1 hz
          obtain rfl := Db.eq_of_id hz'.1 hlast hid
          refine lt_of_le_of_ne hle' fun he => hne ?_
          exact (hties _ hz _ hmem hle he).symm
        omega
      · simp

end Bibdata
