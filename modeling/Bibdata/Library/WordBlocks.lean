import Bibdata.Library.Words
import Mathlib.Data.List.MinMax

/-!
# Blocks of words

A text is cut at every separator, and two separators in a row leave an empty piece. So the pieces
of one text are a block of another's only where it stands there with as many separators
(`pieces_infix_iff`), while its words are one however they are set. Every block of words can be set
so that it is found (`exists_found`), and so wide that no block of two words is
(`exists_not_found`).
-/

namespace WordBlocks

open Words

variable {α β : Type*} {p : α → Bool} {f : List α → β} {b : α} {xs ys : List α}

section Pieces

/-- What is between the separators, the empty pieces as well. -/
def pieces (p : α → Bool) (f : List α → β) (xs : List α) : List β := (xs.splitOnP p).map f

/-- The pieces with something in them. -/
def folded (p : α → Bool) (f : List α → β) (xs : List α) : List β := (words p xs).map f

theorem pieces_ne_nil : pieces p f xs ≠ [] := by
  simp [pieces, List.splitOnP_ne_nil]

variable [DecidableEq β]

theorem folded_eq_filter (hf : ∀ w, f w = f [] → w = []) (xs : List α) :
    folded p f xs = (pieces p f xs).filter (· ≠ f []) := by
  rw [folded, pieces, words, List.filter_map]
  congr 1
  refine List.filter_congr fun w _ => ?_
  simp only [Function.comp_apply, decide_eq_decide, ne_eq]
  refine not_congr ⟨fun h => ?_, hf w⟩
  rw [h]

theorem folded_infix (hf : ∀ w, f w = f [] → w = []) (h : pieces p f xs <:+: pieces p f ys) :
    folded p f xs <:+: folded p f ys := by
  rw [folded_eq_filter hf, folded_eq_filter hf]
  exact h.filter _

/-- A piece that is a word is found wherever the word is. -/
theorem singleton_infix_iff (hf : ∀ w, f w = f [] → w = []) {w : β} (hw : w ≠ f []) :
    [w] <:+: pieces p f xs ↔ w ∈ folded p f xs := by
  rw [folded_eq_filter hf, List.mem_filter, List.singleton_infix_iff]
  simp [hw]

end Pieces

section Cut

theorem splitOnP_eq_cons {w : List α} {ws : List (List α)} (h : xs.splitOnP p = w :: ws)
    (hws : ws ≠ []) :
    ∃ s rest, xs = w ++ s :: rest ∧ p s = true ∧ (∀ x ∈ w, p x = false)
      ∧ rest.splitOnP p = ws := by
  rcases hfind : xs.find? p with _ | s
  · have hnone : ∀ x ∈ xs, p x = false := by simpa using List.find?_eq_none.1 hfind
    rw [List.splitOnP_eq_singleton hnone, List.cons.injEq] at h
    exact absurd h.2.symm hws
  · obtain ⟨hs, before, rest, rfl, hbefore⟩ := List.find?_eq_some_iff_append.1 hfind
    have hfree : ∀ x ∈ before, p x = false := fun x hx => by simpa using hbefore x hx
    rw [List.splitOnP_append_cons_of_forall_mem hfree s hs, List.cons.injEq] at h
    obtain ⟨rfl, hrest⟩ := h
    exact ⟨s, rest, rfl, hs, hfree, hrest⟩

/-- Where the pieces are parted stands a separator. -/
theorem splitOnP_eq_append {vs ws : List (List α)} (h : xs.splitOnP p = vs ++ ws)
    (hvs : vs ≠ []) (hws : ws ≠ []) :
    ∃ before s rest, xs = before ++ s :: rest ∧ p s = true ∧ before.splitOnP p = vs
      ∧ rest.splitOnP p = ws := by
  induction vs generalizing xs with
  | nil => exact absurd rfl hvs
  | cons v vs ih =>
    obtain ⟨s, rest, rfl, hs, hv, hrest⟩ := splitOnP_eq_cons h (by simp [hws])
    rcases eq_or_ne vs [] with rfl | hne
    · exact ⟨v, s, rest, rfl, hs, List.splitOnP_eq_singleton hv, by simpa using hrest⟩
    · obtain ⟨before, s', rest', rfl, hs', hbefore, hrest'⟩ := ih hrest hne
      refine ⟨v ++ s :: before, s', rest', by simp, hs', ?_, hrest'⟩
      rw [List.splitOnP_append_cons_of_forall_mem hv s hs, hbefore]

/-- Parted by a separator, or at the end. -/
def Parted (p : α → Bool) (before after : List α) : Prop :=
  (∀ x ∈ before.getLast?, p x = true) ∧ ∀ x ∈ after.head?, p x = true

theorem splitOnP_suffix (h : ∀ x ∈ xs.getLast?, p x = true) (ys : List α) :
    ys.splitOnP p <:+ (xs ++ ys).splitOnP p := by
  rcases List.eq_nil_or_concat xs with rfl | ⟨before, s, rfl⟩
  · exact List.suffix_rfl
  · rw [List.concat_eq_append, List.append_assoc, List.singleton_append,
      List.splitOnP_append_cons before ys (h s (by simp))]
    exact List.suffix_append _ _

theorem splitOnP_isPrefix (h : ∀ x ∈ ys.head?, p x = true) (xs : List α) :
    xs.splitOnP p <+: (xs ++ ys).splitOnP p := by
  rcases ys with _ | ⟨s, after⟩
  · rw [List.append_nil]
  · rw [List.splitOnP_append_cons xs after (h s rfl)]
    exact List.prefix_append _ _

theorem exists_suffix {vs ws : List (List α)} (h : xs.splitOnP p = vs ++ ws) (hws : ws ≠ []) :
    ∃ before body, xs = before ++ body ∧ (∀ x ∈ before.getLast?, p x = true)
      ∧ body.splitOnP p = ws := by
  rcases eq_or_ne vs [] with rfl | hvs
  · exact ⟨[], xs, rfl, by simp, h⟩
  · obtain ⟨before, s, rest, rfl, hs, -, hrest⟩ := splitOnP_eq_append h hvs hws
    exact ⟨before ++ [s], rest, by simp, by simpa using hs, hrest⟩

theorem exists_isPrefix {vs ws : List (List α)} (h : xs.splitOnP p = vs ++ ws) (hvs : vs ≠ []) :
    ∃ body after, xs = body ++ after ∧ (∀ x ∈ after.head?, p x = true)
      ∧ body.splitOnP p = vs := by
  rcases eq_or_ne ws [] with rfl | hws
  · exact ⟨xs, [], by simp, by simp, by simpa using h⟩
  · obtain ⟨before, s, rest, rfl, hs, hbefore, -⟩ := splitOnP_eq_append h hvs hws
    exact ⟨before, s :: rest, rfl, by simpa using hs, hbefore⟩

/-- A part of the text, parted from the rest, is cut into the same pieces: it has the same words
with as many separators around them. -/
def Stands (p : α → Bool) (f : List α → β) (xs ys : List α) : Prop :=
  ∃ before body after, ys = before ++ body ++ after ∧ Parted p before after
    ∧ pieces p f body = pieces p f xs

theorem pieces_infix_iff : pieces p f xs <:+: pieces p f ys ↔ Stands p f xs ys := by
  constructor
  · rintro ⟨us, vs, h⟩
    obtain ⟨ws, after', hws, hus, -⟩ := List.map_eq_append_iff.1 h.symm
    obtain ⟨before', body', rfl, -, hbody'⟩ := List.map_eq_append_iff.1 hus
    have hne : body' ≠ [] := by
      rintro rfl
      exact pieces_ne_nil hbody'.symm
    obtain ⟨text, after, rfl, hafter, htext⟩ := exists_isPrefix hws (by simp [hne])
    obtain ⟨before, body, rfl, hbefore, hbody⟩ := exists_suffix htext hne
    exact ⟨before, body, after, rfl, ⟨hbefore, hafter⟩, by rw [pieces, hbody, hbody']⟩
  · rintro ⟨before, body, after, rfl, ⟨hbefore, hafter⟩, hbody⟩
    rw [← hbody, pieces, pieces]
    exact ((splitOnP_suffix hbefore body).isInfix.trans
      (splitOnP_isPrefix hafter (before ++ body)).isInfix).map f

end Cut

section Set

/-- Each word with separators behind it. -/
def spread (b : α) (n : ℕ) (ws : List (List α)) : List α :=
  ws.flatMap (· ++ List.replicate (n + 1) b)

theorem splitOnP_replicate_append (hb : p b = true) (n : ℕ) (xs : List α) :
    (List.replicate n b ++ xs).splitOnP p = List.replicate n [] ++ xs.splitOnP p := by
  induction n with
  | zero => rfl
  | succ n ih =>
    rw [List.replicate_succ, List.replicate_succ, List.cons_append, List.cons_append, ← ih]
    simpa using List.splitOnP_append_cons [] (List.replicate n b ++ xs) hb

theorem splitOnP_spread (hb : p b = true) (n : ℕ) {ws : List (List α)}
    (hws : ∀ w ∈ ws, ∀ x ∈ w, p x = false) (xs : List α) :
    (spread b n ws ++ xs).splitOnP p
      = ws.flatMap (fun w => w :: List.replicate n []) ++ xs.splitOnP p := by
  induction ws with
  | nil => rfl
  | cons w ws ih =>
    obtain ⟨hw, hrest⟩ := List.forall_mem_cons.1 hws
    have hspread : spread b n (w :: ws) ++ xs
        = w ++ b :: (List.replicate n b ++ (spread b n ws ++ xs)) := by
      simp [spread, List.replicate_succ]
    rw [hspread, List.splitOnP_append_cons_of_forall_mem hw b hb, splitOnP_replicate_append hb,
      ih hrest]
    simp

theorem words_spread (hb : p b = true) (n : ℕ) {ws : List (List α)}
    (hws : ∀ w ∈ ws, w ≠ [] ∧ ∀ x ∈ w, p x = false) (xs : List α) :
    words p (spread b n ws ++ xs) = ws ++ words p xs := by
  rw [words, splitOnP_spread hb n (fun w hw => (hws w hw).2), List.filter_append,
    List.filter_flatMap, words]
  congr 1
  induction ws with
  | nil => rfl
  | cons w ws ih =>
    obtain ⟨hw, hrest⟩ := List.forall_mem_cons.1 hws
    rw [List.flatMap_cons, ih hrest]
    simp [hw.1]

end Set

section Sparse

variable [DecidableEq β] {e : β} {n : ℕ} {us vs : List β}

/-- No window of so many pieces has two words in it. -/
def Sparse (e : β) (n : ℕ) (us : List β) : Prop :=
  ∀ window, window <:+: us → window.length ≤ n + 1 → window.countP (· ≠ e) ≤ 1

theorem sparse_singleton (e : β) (n : ℕ) : Sparse e n [e] := by
  intro window h _
  have hle := h.sublist.countP_le (p := (· ≠ e))
  have hnone : [e].countP (· ≠ e) = 0 := by simp
  omega

theorem Sparse.cons_empty (h : Sparse e n us) : Sparse e n (e :: us) := by
  intro window hwindow hlength
  rcases List.infix_cons_iff.1 hwindow with hbegins | hinfix
  · rcases window with _ | ⟨u, window⟩
    · simp
    · obtain ⟨rfl, htail⟩ := List.cons_prefix_cons.1 hbegins
      rw [List.length_cons] at hlength
      have hle := h window htail.isInfix (by omega)
      simpa using hle
  · exact h window hinfix hlength

theorem Sparse.replicate_append (h : Sparse e n us) (m : ℕ) :
    Sparse e n (List.replicate m e ++ us) := by
  induction m with
  | zero => exact h
  | succ m ih => exact ih.cons_empty

theorem Sparse.cons_word (h : Sparse e n us) (u : β) :
    Sparse e n (u :: List.replicate n e ++ us) := by
  intro window hwindow hlength
  rw [List.cons_append] at hwindow
  rcases List.infix_cons_iff.1 hwindow with hbegins | hinfix
  · have hshort : window <+: u :: List.replicate n e := by
      refine List.prefix_of_prefix_length_le hbegins ?_ (by simpa using hlength)
      rw [← List.cons_append]
      exact List.prefix_append _ us
    have hle := hshort.sublist.countP_le (p := (· ≠ e))
    have hempty : (List.replicate n e).countP (· ≠ e) = 0 := by simp
    rw [List.countP_cons, hempty] at hle
    split_ifs at hle <;> omega
  · exact h.replicate_append n window hinfix hlength

end Sparse

section Block

variable (hb : p b = true)
include hb

/-- A block of words can be set as the text it is to be found as. -/
theorem exists_found (h : folded p f xs <:+: folded p f ys) :
    ∃ zs, folded p f zs = folded p f ys ∧ pieces p f xs <:+: pieces p f zs := by
  obtain ⟨us, vs, h⟩ := h
  obtain ⟨ws, after, hwords, hws, -⟩ := List.map_eq_append_iff.1 h.symm
  obtain ⟨before, block, rfl, -, hblock⟩ := List.map_eq_append_iff.1 hws
  have hmem : ∀ w ∈ before ++ block ++ after, w ≠ [] ∧ ∀ x ∈ w, p x = false := fun w hw =>
    of_mem_words (hwords ▸ hw)
  simp only [List.forall_mem_append] at hmem
  refine ⟨spread b 0 before ++ (xs ++ b :: (spread b 0 after ++ [])), ?_, ?_⟩
  · rw [folded, folded, words_spread hb 0 hmem.1.1, words_append_cons hb,
      words_spread hb 0 hmem.2, hwords]
    rw [folded] at hblock
    simp only [List.map_append, hblock]
    simp [words, List.splitOnP_nil]
  · rw [pieces, pieces, splitOnP_spread hb 0 fun w hw => (hmem.1.1 w hw).2,
      List.splitOnP_append_cons _ _ hb]
    simp only [List.map_append, ← List.append_assoc]
    exact ⟨_, _, rfl⟩

variable [DecidableEq β] (hf : ∀ w, f w = f [] → w = [])
include hf

/-- The words of a text can be set so wide that no two of them are found together. -/
theorem exists_not_found (n : ℕ) (ys : List α) :
    ∃ zs, folded p f zs = folded p f ys ∧ ∀ xs, (pieces p f xs).length ≤ n + 1 →
      2 ≤ (folded p f xs).length → ¬pieces p f xs <:+: pieces p f zs := by
  have hmem : ∀ w ∈ words p ys, w ≠ [] ∧ ∀ x ∈ w, p x = false := fun w hw => of_mem_words hw
  have hsparse : ∀ ws : List (List α), Sparse (f []) n
      ((ws.flatMap (fun w => w :: List.replicate n []) ++ [[]]).map f) := by
    intro ws
    induction ws with
    | nil => exact sparse_singleton (f []) n
    | cons w ws ih =>
      have hcons := ih.cons_word (f w)
      simpa using hcons
  refine ⟨spread b n (words p ys) ++ [], ?_, fun xs hlength hwords hinfix => ?_⟩
  · rw [folded, words_spread hb n hmem]
    simp [folded, words, List.splitOnP_nil]
  · rw [pieces, pieces, splitOnP_spread hb n (fun w hw => (hmem w hw).2) [],
      List.splitOnP_nil] at hinfix
    have hle := hsparse (words p ys) _ hinfix (by simpa [pieces] using hlength)
    rw [folded_eq_filter hf, ← List.countP_eq_length_filter] at hwords
    rw [pieces] at hwords
    omega

variable {listed : List (List α)}

/-- Of the words of a text alone it depends whether a listed one is found in it, unless there is
one that is a block of its words and none that is a word. -/
theorem found_alike_iff
    (hlisted : ∀ xs ∈ listed, (∃ w, w ≠ f [] ∧ pieces p f xs = [w]) ∨ 2 ≤ (folded p f xs).length)
    (ys : List α) :
    ((∀ zs, folded p f zs = folded p f ys →
        ((∃ xs ∈ listed, pieces p f xs <:+: pieces p f zs)
          ↔ ∃ xs ∈ listed, pieces p f xs <:+: pieces p f ys))
      ∧ ((∃ xs ∈ listed, pieces p f xs <:+: pieces p f ys)
        ↔ ∃ xs ∈ listed, folded p f xs <:+: folded p f ys))
    ↔ ((∃ xs ∈ listed, folded p f xs <:+: folded p f ys)
      → ∃ xs ∈ listed, ∃ w ∈ folded p f ys, pieces p f xs = [w]) := by
  constructor
  · rintro ⟨halike, -⟩ ⟨xs, hxs, hblock⟩
    obtain ⟨zs, hzs, hfound⟩ := exists_found hb hblock
    have hys := (halike zs hzs).1 ⟨xs, hxs, hfound⟩
    obtain ⟨n, hn⟩ : ∃ n, ∀ xs ∈ listed, (pieces p f xs).length ≤ n + 1 := by
      refine ⟨(listed.map fun xs => (pieces p f xs).length).foldr max 0, fun xs hxs => ?_⟩
      have hle := List.le_max_of_le' 0 (List.mem_map_of_mem
        (f := fun xs => (pieces p f xs).length) hxs) le_rfl
      omega
    obtain ⟨wide, hwide, hnot⟩ := exists_not_found hb hf n ys
    obtain ⟨one, hone, hinfix⟩ := (halike wide hwide).2 hys
    rcases hlisted one hone with ⟨w, hw, hpieces⟩ | htwo
    · refine ⟨one, hone, w, ?_, hpieces⟩
      rw [hpieces, singleton_infix_iff hf hw, hwide] at hinfix
      exact hinfix
    · exact absurd hinfix (hnot one (hn one hone) htwo)
  · intro h
    have hblock : ∀ zs, folded p f zs = folded p f ys →
        ((∃ xs ∈ listed, pieces p f xs <:+: pieces p f zs)
          ↔ ∃ xs ∈ listed, folded p f xs <:+: folded p f ys) := by
      refine fun zs hzs => ⟨?_, fun hex => ?_⟩
      · rintro ⟨xs, hxs, hinfix⟩
        rw [← hzs]
        exact ⟨xs, hxs, folded_infix hf hinfix⟩
      · obtain ⟨xs, hxs, w, hw, hpieces⟩ := h hex
        have hne : w ≠ f [] := by
          rw [folded_eq_filter hf, List.mem_filter] at hw
          exact of_decide_eq_true hw.2
        refine ⟨xs, hxs, ?_⟩
        rw [hpieces, singleton_infix_iff hf hne, hzs]
        exact hw
    exact ⟨fun zs hzs => (hblock zs hzs).trans (hblock ys rfl).symm, hblock ys rfl⟩

end Block

end WordBlocks
