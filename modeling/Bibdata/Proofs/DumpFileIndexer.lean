import Bibdata.DumpFileIndexer
import Bibdata.Library.Transition

/-!
# What indexing a dump file in place keeps

An execution alone on its files always leaves a complete one: it deletes a file only when the
other name holds the content, and truncates one only when the other is the row's (`At`). Between
a `File.delete` and the `save` after it the row names no file. So the content is kept in all runs
whose executions come one after the other, none of them failing there (`safe_of_run`).
-/

namespace Bibdata

open Transition

variable {χ : Type*} {content got : List χ} {st : Store χ} {e : Execution χ}

/-- What should hold of a dump file at any time. -/
structure Indexing.Safe (content : List χ) (s : Indexing χ) : Prop where
  kept : ∃ path, s.store.Holds content path
  passed : ∀ passed, .done passed ∈ s.executions → passed = content
  named : (∀ e ∈ s.executions, e.Ended) → s.store.Holds content s.store.path

/-- An execution goes on from its `find` only while no other is underway and with the path that
is still the row's, and none fails between a `File.delete` and the `save` after it. -/
def Indexing.Serial (s : Indexing χ) : Indexing.Act → Prop
  | .start => True
  | .advance i => ∀ e ∈ s.executions[i]?,
      e.Underway ∨ e = .found s.store.path ∧ ∀ e' ∈ s.executions, ¬ e'.Underway
  | .raise i => ∀ e ∈ s.executions[i]?, ¬ e.Unsaved
  | .kill i => ∀ e ∈ s.executions[i]?, ¬ e.Unsaved

instance [DecidableEq χ] (s : Indexing χ) : ∀ a, Decidable (s.Serial a)
  | .start => inferInstanceAs (Decidable True)
  | .advance i => inferInstanceAs (Decidable (∀ e ∈ s.executions[i]?, _))
  | .raise i => inferInstanceAs (Decidable (∀ e ∈ s.executions[i]?, _))
  | .kill i => inferInstanceAs (Decidable (∀ e ∈ s.executions[i]?, _))

theorem Execution.Unsaved.underway (h : e.Unsaved) : e.Underway := by
  cases e with
  | savePlain => exact id
  | saveGz passed => exact id
  | _ => exact h.elim

theorem Execution.Ended.not_underway (h : e.Ended) : ¬ e.Underway := by
  cases e with
  | done passed => exact fun hun => hun h
  | failed => exact fun hun => hun h
  | _ => exact h.elim

/-! ### One execution -/

/-- The file of that name is open and holds the chunks so far. -/
def Partial (st : Store χ) (path : FilePath) (dst : ℕ) (got : List χ) : Prop :=
  st.disk.names path = some dst ∧ st.disk.file path = some (got.map .chunk)

/-- What an execution that is alone finds on the disk and in the row. -/
def At (content : List χ) (st : Store χ) : Execution χ → Prop
  | .found path => st.Holds content st.path ∧ path = st.path
  | .unzip src => st.path = .gz ∧ st.Holds content .gz ∧ st.disk.names .gz = some src
  | .unzipRead src dst got => st.path = .gz ∧ st.Holds content .gz
      ∧ st.disk.names .gz = some src ∧ Partial st .plain dst got ∧ got <+: content
  | .unzipWrite src dst got c => st.path = .gz ∧ st.Holds content .gz
      ∧ st.disk.names .gz = some src ∧ Partial st .plain dst got ∧ got ++ [c] <+: content
  | .deleteGz => st.path = .gz ∧ st.Holds content .gz ∧ st.Holds content .plain
  | .savePlain => st.Holds content .plain
  | .openPlain => st.path = .plain ∧ st.Holds content .plain
  | .indexFile => st.path = .plain ∧ st.Holds content .plain
  | .indexRead src got => st.path = .plain ∧ st.Holds content .plain
      ∧ st.disk.names .plain = some src ∧ got <+: content
  | .zip passed => st.path = .plain ∧ st.Holds content .plain ∧ passed = content
  | .zipOpen dst passed => st.path = .plain ∧ st.Holds content .plain ∧ Partial st .gz dst []
      ∧ passed = content
  | .zipRead src dst got passed => st.path = .plain ∧ st.Holds content .plain
      ∧ st.disk.names .plain = some src ∧ Partial st .gz dst got ∧ got <+: content
      ∧ passed = content
  | .zipWrite src dst got c passed => st.path = .plain ∧ st.Holds content .plain
      ∧ st.disk.names .plain = some src ∧ Partial st .gz dst got ∧ got ++ [c] <+: content
      ∧ passed = content
  | .zipClose dst got passed => st.path = .plain ∧ st.Holds content .plain
      ∧ Partial st .gz dst got ∧ got = content ∧ passed = content
  | .deletePlain passed => st.path = .plain ∧ st.Holds content .plain ∧ st.Holds content .gz
      ∧ passed = content
  | .saveGz passed => st.Holds content .gz ∧ passed = content
  | .done passed => st.Holds content st.path ∧ passed = content
  | .failed => st.Holds content st.path

/-- Unless it is about to save the path, the row's file is complete. -/
theorem At.holds (h : At content st e) (hsaved : ¬ e.Unsaved) : st.Holds content st.path := by
  cases e <;> simp only [At, Execution.Unsaved] at h hsaved <;> grind

theorem At.kept (h : At content st e) : ∃ path, st.Holds content path := by
  by_cases hsaved : e.Unsaved
  · cases e <;> simp only [At, Execution.Unsaved] at h hsaved
    · exact ⟨_, h⟩
    · exact ⟨_, h.1⟩
  · exact ⟨_, h.holds hsaved⟩

theorem getElem?_of_prefix (h : got <+: content) :
    got = content ∨ ∃ c, content[got.length]? = some c ∧ got ++ [c] <+: content := by
  obtain ⟨rest, rfl⟩ := h
  rcases rest with _ | ⟨c, rest⟩
  · exact .inl (List.append_nil _).symm
  · exact .inr ⟨c, by simp, rest, by simp⟩

section Files

variable {path other : FilePath} {src dst n : ℕ} {c : χ} {b : Block χ}

def Store.write (st : Store χ) (dst n : ℕ) (b : Block χ) : Store χ :=
  { st with disk := st.disk.write .hole dst n b }

def Store.openWrite (st : Store χ) (path : FilePath) : Store χ :=
  { st with disk := (st.disk.openWrite path).2 }

def Store.delete (st : Store χ) (path : FilePath) : Store χ :=
  { st with disk := st.disk.delete path }

theorem Partial.write (h : Partial st path dst got) :
    Partial (st.write dst got.length (.chunk c)) path dst (got ++ [c]) := by
  refine ⟨h.1, ?_⟩
  have hlen : got.length = (got.map Block.chunk).length := (List.length_map _).symm
  rw [Store.write, Disk.file_write_self h.1 h.2, hlen, Disk.writeAt_length]
  simp

theorem Partial.close (h : Partial st .gz dst got) :
    (st.write dst got.length (.footer got)).Holds got .gz := by
  have hlen : got.length = (got.map Block.chunk).length := (List.length_map _).symm
  rw [Store.Holds, Store.write, Disk.file_write_self h.1 h.2, hlen, Disk.writeAt_length]
  rfl

theorem Store.Holds.write (h : st.Holds content other) (hp : Partial st path dst got)
    (hne : other ≠ path) : (st.write dst n b).Holds content other := by
  rw [Store.Holds, Store.write, Disk.file_write_of_ne hp.1 hne]
  exact h

theorem partial_openWrite : Partial (st.openWrite path) path (st.disk.openWrite path).1 [] :=
  ⟨Disk.names_openWrite_self, Disk.file_openWrite_self⟩

theorem Store.Holds.openWrite (h : st.Holds content other) (hne : other ≠ path) :
    (st.openWrite path).Holds content other := by
  rw [Store.Holds, Store.openWrite, Disk.file_openWrite_of_ne hne]
  exact h

theorem Store.Holds.delete (h : st.Holds content other) (hne : other ≠ path) :
    (st.delete path).Holds content other := by
  rw [Store.Holds, Store.delete, Disk.file_delete_of_ne hne]
  exact h

theorem Store.Holds.names (h : st.Holds content path) : ∃ i, st.disk.names path = some i := by
  obtain ⟨i, hi, -⟩ := Option.bind_eq_some_iff.1 h
  exact ⟨i, hi⟩

theorem Store.Holds.read_plain (h : st.Holds content .plain)
    (hsrc : st.disk.names .plain = some src) (hgot : got <+: content) :
    got = content ∧ st.disk.read src got.length = none
      ∨ ∃ c, got ++ [c] <+: content ∧ st.disk.read src got.length = some (.chunk c) := by
  rw [Disk.read_of_file hsrc h, blocks, List.getElem?_map]
  rcases getElem?_of_prefix hgot with rfl | ⟨c, hc, hpre⟩
  · exact .inl ⟨rfl, by simp⟩
  · exact .inr ⟨c, hpre, by simp [hc]⟩

theorem Store.Holds.read_gz (h : st.Holds content .gz) (hsrc : st.disk.names .gz = some src)
    (hgot : got <+: content) :
    got = content ∧ st.disk.read src got.length = some (.footer got)
      ∨ ∃ c, got ++ [c] <+: content ∧ st.disk.read src got.length = some (.chunk c) := by
  rw [Disk.read_of_file hsrc h]
  rcases getElem?_of_prefix hgot with rfl | ⟨c, hc, hpre⟩
  · exact .inl ⟨rfl, by simp [blocks]⟩
  · refine .inr ⟨c, hpre, ?_⟩
    obtain ⟨hlt, -⟩ := List.getElem?_eq_some_iff.1 hc
    rw [blocks, List.getElem?_append_left (by simpa using hlt), List.getElem?_map, hc]
    rfl

end Files

/-! ### The steps of an execution that is alone -/

theorem holds_of_raise (h : At content st e) (hsaved : ¬ e.Unsaved) :
    (e.raise st).1.Holds content (e.raise st).1.path := by
  have hst := h.holds hsaved
  cases e with
  | zipOpen dst passed =>
    obtain ⟨hpath, hplain, hpart, -⟩ := h
    simp only [Execution.raise]
    rw [hpath]
    exact hplain.write hpart (by decide)
  | zipRead src dst got passed =>
    obtain ⟨hpath, hplain, -, hpart, -⟩ := h
    simp only [Execution.raise]
    rw [hpath]
    exact hplain.write hpart (by decide)
  | zipWrite src dst got c passed =>
    obtain ⟨hpath, hplain, -, hpart, -⟩ := h
    simp only [Execution.raise]
    rw [hpath]
    exact hplain.write hpart (by decide)
  | zipClose dst got passed =>
    obtain ⟨hpath, hplain, hpart, -⟩ := h
    simp only [Execution.raise]
    rw [hpath]
    exact hplain.write hpart (by decide)
  | _ => exact hst

/-! ### All executions -/

/-- At most one execution is underway, and it finds its files as if it were alone. -/
structure Sound (content : List χ) (s : Indexing χ) : Prop where
  idle : (∀ e ∈ s.executions, ¬ e.Underway) → s.store.Holds content s.store.path
  underway : ∀ i e, s.executions[i]? = some e → e.Underway → At content s.store e
    ∧ ∀ (j : ℕ) (e' : Execution χ), s.executions[j]? = some e' → e'.Underway → j = i
  passed : ∀ passed, .done passed ∈ s.executions → passed = content

/-- Some execution goes on while the others are not underway. -/
theorem Sound.set {s : Indexing χ} (hs : Sound content s) {i : ℕ} (hi : i < s.executions.length)
    (hothers : ∀ (j : ℕ) (e' : Execution χ), s.executions[j]? = some e' → e'.Underway → j = i)
    {st' : Store χ} {e' : Execution χ} (h : At content st' e') :
    Sound content { store := st', executions := s.executions.set i e' } where
  idle hidle := by
    have hnot := hidle e' (List.mem_set hi e')
    exact h.holds fun hsaved => hnot hsaved.underway
  underway j e hj he := by
    have hji : j = i := by
      by_contra hne
      rw [List.getElem?_set_ne (Ne.symm hne)] at hj
      exact hne (hothers j e hj he)
    subst hji
    rw [List.getElem?_set_self hi] at hj
    cases hj
    refine ⟨h, fun k e hk hke => ?_⟩
    by_contra hne
    rw [List.getElem?_set_ne (Ne.symm hne)] at hk
    exact hne (hothers k e hk hke)
  passed passed hmem := by
    rcases List.mem_or_eq_of_mem_set hmem with hmem | rfl
    · exact hs.passed passed hmem
    · exact h.2

/-- Executions come or go that are not underway, and none completes. -/
theorem Sound.frame {s : Indexing χ} (hs : Sound content s) {es : List (Execution χ)}
    (hsame : ∀ (i : ℕ) (e : Execution χ), e.Underway →
      (es[i]? = some e ↔ s.executions[i]? = some e))
    (hdone : ∀ passed, .done passed ∈ es → .done passed ∈ s.executions) :
    Sound content { s with executions := es } where
  idle hidle := by
    refine hs.idle fun e he hun => ?_
    obtain ⟨i, hi⟩ := List.mem_iff_getElem?.1 he
    exact hidle e (List.mem_of_getElem? ((hsame i e hun).2 hi)) hun
  underway i e hi hun := by
    obtain ⟨hat, hothers⟩ := hs.underway i e ((hsame i e hun).1 hi) hun
    exact ⟨hat, fun j e' hj hun' => hothers j e' ((hsame j e' hun').1 hj) hun'⟩
  passed passed hmem := hs.passed passed (hdone passed hmem)

/-- An execution that has not gone on fails. -/
theorem Sound.setFailed {s : Indexing χ} (hs : Sound content s) {i : ℕ}
    (hi : s.executions[i]? = some e) (he : ¬ e.Underway) :
    Sound content { s with executions := s.executions.set i .failed } := by
  refine hs.frame (fun j e' hun => ?_) fun passed hmem => ?_
  · rw [List.getElem?_set]
    split_ifs with hij hlt
    · subst hij
      rw [hi, Option.some.injEq, Option.some.injEq]
      constructor
      · rintro rfl
        exact absurd trivial hun
      · rintro rfl
        exact absurd hun he
    · subst hij
      simp [List.getElem?_eq_none (Nat.not_lt.1 hlt)]
    · rfl
  · rcases List.mem_or_eq_of_mem_set hmem with hmem | h
    · exact hmem
    · cases h

/-- An execution loads the row. -/
theorem Sound.start {s : Indexing χ} (hs : Sound content s) (path : FilePath) :
    Sound content { s with executions := s.executions ++ [.found path] } := by
  refine hs.frame (fun i e hun => ?_) fun passed hmem => ?_
  · rw [List.getElem?_append]
    split_ifs with hi
    · rfl
    · have hne : ¬ [Execution.found path][i - s.executions.length]? = some e := by
        intro h
        obtain rfl : e = .found path := by simpa using List.mem_of_getElem? h
        exact hun
      simp [hne, List.getElem?_eq_none (Nat.not_lt.1 hi)]
  · simpa using hmem

theorem change_eq_some {s s' : Indexing χ} {i : ℕ}
    {f : Store χ → Execution χ → Store χ × Execution χ} (h : s.change i f = some s') :
    ∃ e, s.executions[i]? = some e ∧ ¬ e.Ended
      ∧ s' = { store := (f s.store e).1, executions := s.executions.set i (f s.store e).2 } := by
  obtain ⟨e, he, h⟩ := Option.bind_eq_some_iff.1 h
  split_ifs at h with hend
  exact ⟨e, he, hend, (Option.some.inj h).symm⟩

theorem raise_snd : (e.raise st).2 = .failed := by
  cases e <;> rfl

theorem raise_of_not_underway (he : ¬ e.Underway) : (e.raise st).1 = st := by
  cases e with
  | found path => rfl
  | done passed => rfl
  | failed => rfl
  | _ => exact absurd id he

theorem Sound.safe {s : Indexing χ} (hs : Sound content s) : s.Safe content where
  kept := by
    by_cases hidle : ∀ e ∈ s.executions, ¬ e.Underway
    · exact ⟨_, hs.idle hidle⟩
    · push Not at hidle
      obtain ⟨e, he, hun⟩ := hidle
      obtain ⟨i, hi⟩ := List.mem_iff_getElem?.1 he
      exact (hs.underway i e hi hun).1.kept
  passed := hs.passed
  named hended := hs.idle fun e he => (hended e he).not_underway

theorem sound_onlyGzipped : Sound content (onlyGzipped content) where
  idle _ := rfl
  underway i e hi := by simp [onlyGzipped] at hi
  passed passed hmem := by simp [onlyGzipped] at hmem

/-! ### The steps -/

variable [DecidableEq χ] [Inhabited χ]

theorem at_advance (h : At content st e) : At content (e.advance st).1 (e.advance st).2 := by
  cases e with
  | found path =>
    obtain ⟨hst, rfl⟩ := h
    rcases hpath : st.path with _ | _
    · rw [hpath] at hst
      exact ⟨hpath, hst⟩
    · rw [hpath] at hst
      obtain ⟨src, hsrc⟩ := hst.names
      have hheader : (st.disk.read src 0).any Execution.isHeader = true := by
        rcases hst.read_gz hsrc List.nil_prefix with ⟨-, hread⟩ | ⟨c, -, hread⟩ <;>
          simp only [List.length_nil] at hread <;> rw [hread] <;> rfl
      simp only [Execution.advance, hsrc, hheader, if_true]
      exact ⟨hpath, hst, hsrc⟩
  | unzip src =>
    obtain ⟨hpath, hgz, hsrc⟩ := h
    refine ⟨hpath, hgz.openWrite (by decide), ?_, partial_openWrite, List.nil_prefix⟩
    exact (Disk.names_openWrite_of_ne (by decide)).trans hsrc
  | unzipRead src dst got =>
    obtain ⟨hpath, hgz, hsrc, hpart, hgot⟩ := h
    rcases hgz.read_gz hsrc hgot with ⟨rfl, hread⟩ | ⟨c, hpre, hread⟩
    · simp only [Execution.advance, hread, if_true]
      exact ⟨hpath, hgz, hpart.2⟩
    · simp only [Execution.advance, hread]
      exact ⟨hpath, hgz, hsrc, hpart, hpre⟩
  | unzipWrite src dst got c =>
    obtain ⟨hpath, hgz, hsrc, hpart, hpre⟩ := h
    exact ⟨hpath, hgz.write hpart (by decide), hsrc, hpart.write, hpre⟩
  | deleteGz =>
    obtain ⟨-, hgz, hplain⟩ := h
    obtain ⟨i, hi⟩ := hgz.names
    simp only [Execution.advance, hi, Option.isSome_some, if_true]
    exact hplain.delete (by decide)
  | savePlain => exact ⟨rfl, h⟩
  | openPlain =>
    obtain ⟨i, hi⟩ := h.2.names
    simp only [Execution.advance, hi, Option.isSome_some, if_true]
    exact h
  | indexFile =>
    obtain ⟨i, hi⟩ := h.2.names
    simp only [Execution.advance, hi]
    exact ⟨h.1, h.2, hi, List.nil_prefix⟩
  | indexRead src got =>
    obtain ⟨hpath, hplain, hsrc, hgot⟩ := h
    rcases hplain.read_plain hsrc hgot with ⟨rfl, hread⟩ | ⟨c, hpre, hread⟩
    · simp only [Execution.advance, hread]
      exact ⟨hpath, hplain, rfl⟩
    · simp only [Execution.advance, hread]
      exact ⟨hpath, hplain, hsrc, hpre⟩
  | zip passed =>
    obtain ⟨hpath, hplain, hpassed⟩ := h
    exact ⟨hpath, hplain.openWrite (by decide), partial_openWrite, hpassed⟩
  | zipOpen dst passed =>
    obtain ⟨hpath, hplain, hpart, hpassed⟩ := h
    obtain ⟨i, hi⟩ := hplain.names
    simp only [Execution.advance, hi]
    exact ⟨hpath, hplain, hi, hpart, List.nil_prefix, hpassed⟩
  | zipRead src dst got passed =>
    obtain ⟨hpath, hplain, hsrc, hpart, hgot, hpassed⟩ := h
    rcases hplain.read_plain hsrc hgot with ⟨rfl, hread⟩ | ⟨c, hpre, hread⟩
    · simp only [Execution.advance, hread]
      exact ⟨hpath, hplain, hpart, rfl, hpassed⟩
    · simp only [Execution.advance, hread]
      exact ⟨hpath, hplain, hsrc, hpart, hpre, hpassed⟩
  | zipWrite src dst got c passed =>
    obtain ⟨hpath, hplain, hsrc, hpart, hpre, hpassed⟩ := h
    exact ⟨hpath, hplain.write hpart (by decide), hsrc, hpart.write, hpre, hpassed⟩
  | zipClose dst got passed =>
    obtain ⟨hpath, hplain, hpart, rfl, hpassed⟩ := h
    exact ⟨hpath, hplain.write hpart (by decide), hpart.close, hpassed⟩
  | deletePlain passed =>
    obtain ⟨-, hplain, hgz, hpassed⟩ := h
    obtain ⟨i, hi⟩ := hplain.names
    simp only [Execution.advance, hi, Option.isSome_some, if_true]
    exact ⟨hgz.delete (by decide), hpassed⟩
  | saveGz passed => exact h
  | done passed => exact h
  | failed => exact h

theorem sound_step {s s' : Indexing χ} {a : Indexing.Act} (hs : Sound content s)
    (hok : s.Serial a) (h : s.step a = some s') : Sound content s' := by
  cases a with
  | start =>
    obtain rfl := Option.some.inj h
    exact hs.start _
  | advance i =>
    obtain ⟨e, hi, hend, rfl⟩ := change_eq_some h
    have hlt := (List.getElem?_eq_some_iff.1 hi).1
    rcases hok e hi with hun | ⟨rfl, hidle⟩
    · obtain ⟨hat, hothers⟩ := hs.underway i e hi hun
      exact hs.set hlt hothers (at_advance hat)
    · refine hs.set hlt (fun j e' hj he' => ?_) (at_advance ⟨hs.idle hidle, rfl⟩)
      exact absurd he' (hidle e' (List.mem_of_getElem? hj))
  | raise i =>
    obtain ⟨e, hi, hend, rfl⟩ := change_eq_some h
    have hlt := (List.getElem?_eq_some_iff.1 hi).1
    rw [raise_snd]
    by_cases hun : e.Underway
    · obtain ⟨hat, hothers⟩ := hs.underway i e hi hun
      exact hs.set hlt hothers (holds_of_raise hat (hok e hi))
    · rw [raise_of_not_underway hun]
      exact hs.setFailed hi hun
  | kill i =>
    obtain ⟨e, hi, hend, rfl⟩ := change_eq_some (f := fun st _ => (st, .failed)) h
    have hlt := (List.getElem?_eq_some_iff.1 hi).1
    by_cases hun : e.Underway
    · obtain ⟨hat, hothers⟩ := hs.underway i e hi hun
      exact hs.set hlt hothers (hat.holds (hok e hi))
    · exact hs.setFailed hi hun

/-- Where executions come one after the other, and none fails between a `File.delete` and the
`save` after it, the content is kept, passed in full, and found at the path in the end. -/
theorem safe_of_run {s : Indexing χ} {as : List Indexing.Act}
    (h : Run Indexing.step Indexing.Serial (onlyGzipped content) as s) : s.Safe content :=
  (h.invariant (fun _ _ _ hs hok hstep => sound_step hs hok hstep) sound_onlyGzipped).safe

/-- Two executions load the row; the first is killed while it zips, so the second cannot go on with
its path and is killed as well; a third one starts and ends. -/
theorem safe_retried : ∃ s, ∃ as : List Indexing.Act,
    Run Indexing.step Indexing.Serial (onlyGzipped [7]) as s ∧ .done [7] ∈ s.executions
      ∧ s.Safe [7] := by
  obtain ⟨s, hs, hdone⟩ : ∃ s ∈ exec (guarded Indexing.step Indexing.Serial) (onlyGzipped [7])
      ([.start, .start] ++ List.replicate 13 (.advance 0) ++ [.kill 0, .kill 1, .start]
        ++ List.replicate 13 (.advance 2)), .done [7] ∈ s.executions := by
    decide +kernel
  exact ⟨s, _, run_of_exec hs, hdone, safe_of_run (run_of_exec hs)⟩

/-- The first execution has deleted the plain file when the second opens the archive to write it. -/
def overlapping : List Indexing.Act :=
  [.start] ++ List.replicate 7 (.advance 0) ++ [.start] ++ List.replicate 5 (.advance 1)
    ++ List.replicate 11 (.advance 0) ++ List.replicate 2 (.advance 1) ++ [.advance 0]

/-- What is left is an archive of nothing. -/
theorem not_safe_overlapping : ∃ s,
    Run Indexing.step (fun _ _ => True) (onlyGzipped [7]) overlapping s ∧ ¬s.Safe [7] := by
  obtain ⟨s, hs, hgz, hplain⟩ : ∃ s ∈ exec (guarded Indexing.step fun _ _ => True)
      (onlyGzipped [7]) overlapping,
      s.store.disk.file .gz = some [.footer []] ∧ s.store.disk.file .plain = none := by
    decide +kernel
  refine ⟨s, run_of_exec hs, fun hsafe => ?_⟩
  obtain ⟨path, hpath⟩ := hsafe.kept
  cases path <;> simp [Store.Holds, blocks, hgz, hplain] at hpath

end Bibdata
