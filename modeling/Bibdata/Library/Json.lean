import Mathlib.Data.List.TakeWhile
import Mathlib.Tactic.Common

/-!
# JSON values and their text

Values whose numbers are integers, the text without white space that stands for each, and a parser
that reads white space anywhere. `parseValue_render` says that the parser reads back what was
written and leaves what follows it; so a text is one value, followed by white space at most, or
is rejected (`parse_toText`, `parse_toText_append`).
-/

inductive Json
  | null
  | bool (b : Bool)
  | int (n : ℤ)
  | str (s : String)
  | arr (elements : List Json)
  | obj (members : List (String × Json))

namespace Json

mutual

/-- No object has a key twice, the integers have 64 bits, and arrays and objects are not nested
deeper than `depth`. -/
def Readable : Json → ℕ → Prop
  | .int n, _ => -2 ^ 63 ≤ n ∧ n < 2 ^ 64
  | .arr elements, depth => 1 ≤ depth ∧ ReadableElements elements (depth - 1)
  | .obj members, depth =>
    1 ≤ depth ∧ (members.map Prod.fst).Nodup ∧ ReadableMembers members (depth - 1)
  | _, _ => True

def ReadableElements : List Json → ℕ → Prop
  | [], _ => True
  | v :: vs, depth => v.Readable depth ∧ ReadableElements vs depth

def ReadableMembers : List (String × Json) → ℕ → Prop
  | [], _ => True
  | (_, v) :: ms, depth => v.Readable depth ∧ ReadableMembers ms depth

end

mutual

theorem Readable.mono {depth depth' : ℕ} (hle : depth ≤ depth') :
    ∀ {v : Json}, v.Readable depth → v.Readable depth'
  | .null, h | .bool _, h | .int _, h | .str _, h => h
  | .arr _, h => ⟨h.1.trans hle, ReadableElements.mono (by omega) h.2⟩
  | .obj _, h => ⟨h.1.trans hle, h.2.1, ReadableMembers.mono (by omega) h.2.2⟩

theorem ReadableElements.mono {depth depth' : ℕ} (hle : depth ≤ depth') :
    ∀ {vs : List Json}, ReadableElements vs depth → ReadableElements vs depth'
  | [], _ => trivial
  | _ :: _, h => ⟨Readable.mono hle h.1, ReadableElements.mono hle h.2⟩

theorem ReadableMembers.mono {depth depth' : ℕ} (hle : depth ≤ depth') :
    ∀ {ms : List (String × Json)}, ReadableMembers ms depth → ReadableMembers ms depth'
  | [], _ => trivial
  | _ :: _, h => ⟨Readable.mono hle h.1, ReadableMembers.mono hle h.2⟩

end

section Render

def hexDigit (n : ℕ) : Char := Nat.digitChar n

def escapeChar (c : Char) : List Char :=
  if c = '"' then ['\\', '"']
  else if c = '\\' then ['\\', '\\']
  else if c = '\x08' then ['\\', 'b']
  else if c = '\x0c' then ['\\', 'f']
  else if c = '\n' then ['\\', 'n']
  else if c = '\r' then ['\\', 'r']
  else if c = '\t' then ['\\', 't']
  else if c.toNat < 0x20 then
    ['\\', 'u', '0', '0', hexDigit (c.toNat / 16), hexDigit (c.toNat % 16)]
  else [c]

def escape (s : String) : List Char := s.toList.flatMap escapeChar

def quote (s : String) : List Char := '"' :: (escape s ++ ['"'])

def renderInt : ℤ → List Char
  | .ofNat n => Nat.toDigits 10 n
  | .negSucc n => '-' :: Nat.toDigits 10 (n + 1)

mutual

def render : Json → List Char
  | .null => ['n', 'u', 'l', 'l']
  | .bool true => ['t', 'r', 'u', 'e']
  | .bool false => ['f', 'a', 'l', 's', 'e']
  | .int n => renderInt n
  | .str s => quote s
  | .arr elements => '[' :: (renderElements elements ++ [']'])
  | .obj members => '{' :: (renderMembers members ++ ['}'])

def renderElements : List Json → List Char
  | [] => []
  | [v] => render v
  | v :: w :: vs => render v ++ ',' :: renderElements (w :: vs)

def renderMembers : List (String × Json) → List Char
  | [] => []
  | [(key, v)] => quote key ++ ':' :: render v
  | (key, v) :: m :: ms => quote key ++ ':' :: (render v ++ ',' :: renderMembers (m :: ms))

end

end Render

section Parse

def isWhitespace (c : Char) : Bool := c = ' ' || c = '\t' || c = '\n' || c = '\r'

def skipWhitespace (cs : List Char) : List Char := cs.dropWhile isWhitespace

def hexValue (c : Char) : Option ℕ :=
  if c.isDigit then some (c.toNat - 48)
  else if 'a' ≤ c ∧ c ≤ 'f' then some (c.toNat - 87)
  else if 'A' ≤ c ∧ c ≤ 'F' then some (c.toNat - 55)
  else none

def hexValue4 (a b c d : Char) : Option ℕ := do
  let a ← hexValue a
  let b ← hexValue b
  let c ← hexValue c
  let d ← hexValue d
  return ((a * 16 + b) * 16 + c) * 16 + d

/-- What follows a backslash: the character, and the rest. -/
def unescape : List Char → Option (Char × List Char)
  | '"' :: cs => some ('"', cs)
  | '\\' :: cs => some ('\\', cs)
  | '/' :: cs => some ('/', cs)
  | 'b' :: cs => some ('\x08', cs)
  | 'f' :: cs => some ('\x0c', cs)
  | 'n' :: cs => some ('\n', cs)
  | 'r' :: cs => some ('\r', cs)
  | 't' :: cs => some ('\t', cs)
  | 'u' :: a :: b :: c :: d :: cs =>
    (hexValue4 a b c d).bind fun high =>
      if 0xD800 ≤ high ∧ high < 0xDC00 then
        match cs with
        | '\\' :: 'u' :: e :: f :: g :: h :: cs =>
          (hexValue4 e f g h).bind fun low =>
            if 0xDC00 ≤ low ∧ low < 0xE000 then
              some (Char.ofNat (0x10000 + (high - 0xD800) * 0x400 + (low - 0xDC00)), cs)
            else none
        | _ => none
      else if 0xDC00 ≤ high ∧ high < 0xE000 then none
      else some (Char.ofNat high, cs)
  | _ => none

/-- The inside of a string, up to the quotation mark that ends it. -/
def parseChars : ℕ → List Char → Option (List Char × List Char)
  | 0, _ => none
  | _ + 1, [] => none
  | fuel + 1, c :: cs =>
    if c = '"' then some ([], cs)
    else if c = '\\' then
      (unescape cs).bind fun (c, cs) => (parseChars fuel cs).map fun (s, rest) => (c :: s, rest)
    else if c.toNat < 0x20 then none
    else (parseChars fuel cs).map fun (s, rest) => (c :: s, rest)

def parseNat (cs : List Char) : Option (ℕ × List Char) :=
  let digits := cs.takeWhile Char.isDigit
  if digits = [] ∨ digits.head? = some '0' ∧ digits ≠ ['0'] then none
  else some (Nat.ofDigitChars 10 digits 0, cs.dropWhile Char.isDigit)

def parseInt : List Char → Option (ℤ × List Char)
  | '-' :: cs => (parseNat cs).map fun (n, rest) => (-(n : ℤ), rest)
  | cs => (parseNat cs).map fun (n, rest) => ((n : ℤ), rest)

mutual

def parseValue : ℕ → List Char → Option (Json × List Char)
  | 0, _ => none
  | fuel + 1, cs =>
    match skipWhitespace cs with
    | 'n' :: 'u' :: 'l' :: 'l' :: rest => some (.null, rest)
    | 't' :: 'r' :: 'u' :: 'e' :: rest => some (.bool true, rest)
    | 'f' :: 'a' :: 'l' :: 's' :: 'e' :: rest => some (.bool false, rest)
    | '"' :: rest => (parseChars fuel rest).map fun (s, rest) => (.str (String.ofList s), rest)
    | '[' :: rest =>
      match skipWhitespace rest with
      | ']' :: rest => some (.arr [], rest)
      | rest => (parseElements fuel rest).map fun (elements, rest) => (.arr elements, rest)
    | '{' :: rest =>
      match skipWhitespace rest with
      | '}' :: rest => some (.obj [], rest)
      | rest => (parseMembers fuel rest).map fun (members, rest) => (.obj members, rest)
    | rest => (parseInt rest).map fun (n, rest) => (.int n, rest)

/-- One element or more, and the bracket. -/
def parseElements : ℕ → List Char → Option (List Json × List Char)
  | 0, _ => none
  | fuel + 1, cs =>
    (parseValue fuel cs).bind fun (v, rest) =>
      match skipWhitespace rest with
      | ',' :: rest => (parseElements fuel rest).map fun (vs, rest) => (v :: vs, rest)
      | ']' :: rest => some ([v], rest)
      | _ => none

/-- One member or more, and the brace. -/
def parseMembers : ℕ → List Char → Option (List (String × Json) × List Char)
  | 0, _ => none
  | fuel + 1, cs =>
    match skipWhitespace cs with
    | '"' :: rest =>
      (parseChars fuel rest).bind fun (key, rest) =>
        match skipWhitespace rest with
        | ':' :: rest =>
          (parseValue fuel rest).bind fun (v, rest) =>
            match skipWhitespace rest with
            | ',' :: rest =>
              (parseMembers fuel rest).map fun (ms, rest) => ((String.ofList key, v) :: ms, rest)
            | '}' :: rest => some ([(String.ofList key, v)], rest)
            | _ => none
        | _ => none
    | _ => none

end

/-- The whole text is one value. -/
def parse (text : String) : Option Json :=
  match parseValue (text.length + 1) text.toList with
  | some (v, rest) => if skipWhitespace rest = [] then some v else none
  | none => none

end Parse

section Whitespace

@[simp] theorem skipWhitespace_nil : skipWhitespace [] = [] := rfl

theorem skipWhitespace_cons {c : Char} (h : isWhitespace c = false) (cs : List Char) :
    skipWhitespace (c :: cs) = c :: cs := by
  rw [skipWhitespace, List.dropWhile_cons_of_neg (by simp [h])]

end Whitespace

section Strings

theorem hexValue_hexDigit : ∀ n < 16, hexValue (hexDigit n) = some n := by decide

theorem unescape_control {c : Char} (h : c.toNat < 0x20) (rest : List Char) :
    unescape ('u' :: '0' :: '0' :: hexDigit (c.toNat / 16) :: hexDigit (c.toNat % 16) :: rest) =
      some (c, rest) := by
  have hvalue : hexValue4 '0' '0' (hexDigit (c.toNat / 16)) (hexDigit (c.toNat % 16)) =
      some c.toNat := by
    have hdiv := hexValue_hexDigit (c.toNat / 16) (by omega)
    have hmod := hexValue_hexDigit (c.toNat % 16) (by omega)
    have hzero : hexValue '0' = some 0 := rfl
    simp only [hexValue4, hdiv, hmod, hzero, Option.bind_eq_bind, Option.bind_some]
    show some _ = some _
    rw [Option.some_inj]
    omega
  rw [unescape, hvalue, Option.bind_some, if_neg (by omega), if_neg (by omega), Char.ofNat_toNat]

theorem parseChars_escapeChar (fuel : ℕ) (c : Char) (rest : List Char) :
    parseChars (fuel + 1) (escapeChar c ++ rest) =
      (parseChars fuel rest).map fun (s, rest) => (c :: s, rest) := by
  have hbackslash (cs : List Char) : parseChars (fuel + 1) ('\\' :: cs) =
      (unescape cs).bind fun (c, cs) =>
        (parseChars fuel cs).map fun (s, rest) => (c :: s, rest) := rfl
  unfold escapeChar
  split_ifs with hquote hback hb hf hn hr ht hcontrol
  · rw [hquote]; rfl
  · rw [hback]; rfl
  · rw [hb]; rfl
  · rw [hf]; rfl
  · rw [hn]; rfl
  · rw [hr]; rfl
  · rw [ht]; rfl
  · rw [List.cons_append, hbackslash]
    simp only [List.cons_append, List.nil_append]
    rw [unescape_control hcontrol, Option.bind_some]
  · rw [List.singleton_append, parseChars, if_neg hquote, if_neg hback, if_neg hcontrol]

theorem parseChars_flatMap (cs rest : List Char) :
    ∀ fuel, cs.length < fuel →
      parseChars fuel (cs.flatMap escapeChar ++ '"' :: rest) = some (cs, rest) := by
  induction cs with
  | nil =>
    rintro (_ | fuel) hfuel
    · cases hfuel
    · rfl
  | cons c cs ih =>
    rintro (_ | fuel) hfuel
    · cases hfuel
    · rw [List.length_cons] at hfuel
      rw [List.flatMap_cons, List.append_assoc, parseChars_escapeChar, ih fuel (by omega)]
      rfl

theorem length_le_length_escape (s : String) : s.toList.length ≤ (escape s).length := by
  unfold escape
  induction s.toList with
  | nil => simp
  | cons c cs ih =>
    have hpos : 1 ≤ (escapeChar c).length := by
      unfold escapeChar
      split_ifs <;> simp
    rw [List.flatMap_cons, List.length_append, List.length_cons]
    omega

theorem parseChars_escape (s : String) (rest : List Char) {fuel : ℕ}
    (hfuel : (escape s).length < fuel) :
    parseChars fuel (escape s ++ '"' :: rest) = some (s.toList, rest) := by
  have := length_le_length_escape s
  exact parseChars_flatMap s.toList rest fuel (by omega)

end Strings

section Numbers

/-- What may follow a number. -/
def NoDigit (rest : List Char) : Prop := ∀ c ∈ rest.head?, c.isDigit = false

theorem noDigit_nil : NoDigit [] := by simp [NoDigit]

theorem noDigit_cons {c : Char} (h : c.isDigit = false) (rest : List Char) :
    NoDigit (c :: rest) := by
  simp [NoDigit, h]

theorem isDigit_of_mem_toDigits {n : ℕ} : ∀ c ∈ Nat.toDigits 10 n, c.isDigit = true :=
  fun _ h => Nat.isDigit_of_mem_toDigits (by decide) (by decide) h

theorem toDigits_ne_nil (n : ℕ) : Nat.toDigits 10 n ≠ [] := Nat.toDigits_ne_nil

theorem digitChar_eq_zero : ∀ n < 10, Nat.digitChar n = '0' → n = 0 := by decide

theorem head?_toDigits (n : ℕ) (h : (Nat.toDigits 10 n).head? = some '0') : n = 0 := by
  induction n using Nat.strongRecOn with
  | ind n ih =>
    rcases Nat.lt_or_ge n 10 with hn | hn
    · rw [Nat.toDigits_of_lt_base hn, List.head?_cons, Option.some_inj] at h
      exact digitChar_eq_zero n hn h
    · have hsplit : Nat.toDigits 10 (n / 10) ++ Nat.toDigits 10 (n % 10) =
          Nat.toDigits 10 (10 * (n / 10) + n % 10) :=
        Nat.toDigits_append_toDigits (by omega) (by omega) (by omega)
      rw [Nat.div_add_mod] at hsplit
      have hhead : (Nat.toDigits 10 (n / 10)).head? = some '0' := by
        rw [← hsplit] at h
        rcases hdigits : Nat.toDigits 10 (n / 10) with _ | ⟨c, cs⟩
        · exact absurd hdigits (toDigits_ne_nil _)
        · rw [hdigits] at h
          exact h
      have := ih (n / 10) (by omega) hhead
      omega

theorem takeWhile_isDigit (n : ℕ) {rest : List Char} (h : NoDigit rest) :
    (Nat.toDigits 10 n ++ rest).takeWhile Char.isDigit = Nat.toDigits 10 n
      ∧ (Nat.toDigits 10 n ++ rest).dropWhile Char.isDigit = rest := by
  rw [List.takeWhile_append_of_pos isDigit_of_mem_toDigits,
    List.dropWhile_append_of_pos isDigit_of_mem_toDigits]
  rcases rest with _ | ⟨c, rest⟩
  · simp
  · have hc := h c rfl
    simp [hc]

theorem parseNat_toDigits (n : ℕ) {rest : List Char} (h : NoDigit rest) :
    parseNat (Nat.toDigits 10 n ++ rest) = some (n, rest) := by
  obtain ⟨htake, hdrop⟩ := takeWhile_isDigit n h
  have hno : ¬(Nat.toDigits 10 n = [] ∨
      (Nat.toDigits 10 n).head? = some '0' ∧ Nat.toDigits 10 n ≠ ['0']) := by
    rintro (hnil | ⟨hzero, hne⟩)
    · exact toDigits_ne_nil n hnil
    · rw [head?_toDigits n hzero] at hne
      exact hne rfl
  simp only [parseNat, htake, hdrop]
  rw [if_neg hno, Nat.ofDigitChars_ten_toDigits]

/-- The first character of a number. -/
def StartsNumber (c : Char) : Prop := c.isDigit = true ∨ c = '-'

theorem exists_renderInt (n : ℤ) : ∃ c cs, renderInt n = c :: cs ∧ StartsNumber c := by
  rcases n with n | n
  · rcases hdigits : Nat.toDigits 10 n with _ | ⟨c, cs⟩
    · exact absurd hdigits (toDigits_ne_nil n)
    · have hc : c.isDigit = true := isDigit_of_mem_toDigits (n := n) c (by simp [hdigits])
      exact ⟨c, cs, hdigits, .inl hc⟩
  · exact ⟨'-', _, rfl, .inr rfl⟩

theorem parseInt_renderInt (n : ℤ) {rest : List Char} (h : NoDigit rest) :
    parseInt (renderInt n ++ rest) = some (n, rest) := by
  rcases n with n | n
  · have hnat : parseInt (Nat.toDigits 10 n ++ rest) =
        (parseNat (Nat.toDigits 10 n ++ rest)).map fun (n, rest) => ((n : ℤ), rest) := by
      unfold parseInt
      split
      · rename_i cs heq
        rcases hdigits : Nat.toDigits 10 n with _ | ⟨c, digits⟩
        · exact absurd hdigits (toDigits_ne_nil n)
        · have hc : c.isDigit = true := isDigit_of_mem_toDigits (n := n) c (by simp [hdigits])
          rw [hdigits, List.cons_append] at heq
          injection heq with hminus
          rw [hminus] at hc
          cases hc
      · rfl
    rw [renderInt, hnat, parseNat_toDigits n h]
    rfl
  · rw [renderInt, List.cons_append, parseInt, parseNat_toDigits _ h]
    rfl

end Numbers

section Values

/-- What may come first in a value. -/
def StartsValue (c : Char) : Prop :=
  isWhitespace c = false ∧ c ≠ ']' ∧ c ≠ '}'

theorem StartsNumber.startsValue {c : Char} (h : StartsNumber c) : StartsValue c := by
  rcases h with h | rfl
  · refine ⟨?_, ?_, ?_⟩
    · cases hc : isWhitespace c with
      | false => rfl
      | true =>
        simp only [isWhitespace, Bool.or_eq_true, decide_eq_true_eq] at hc
        rcases hc with ((rfl | rfl) | rfl) | rfl <;> cases h
    · rintro rfl
      cases h
    · rintro rfl
      cases h
  · exact ⟨rfl, by decide, by decide⟩

theorem exists_render (v : Json) : ∃ c cs, render v = c :: cs ∧ StartsValue c := by
  have hletter {c : Char} {cs : List Char} (h : StartsValue c) :
      ∃ d ds, c :: cs = d :: ds ∧ StartsValue d := ⟨c, cs, rfl, h⟩
  cases v with
  | null => exact hletter ⟨rfl, by decide, by decide⟩
  | bool b => cases b <;> exact hletter ⟨rfl, by decide, by decide⟩
  | int n =>
    obtain ⟨c, cs, hrender, hc⟩ := exists_renderInt n
    exact ⟨c, cs, by rw [render, hrender], hc.startsValue⟩
  | str s => exact hletter ⟨rfl, by decide, by decide⟩
  | arr elements =>
    rw [render]
    exact hletter ⟨rfl, by decide, by decide⟩
  | obj members =>
    rw [render]
    exact hletter ⟨rfl, by decide, by decide⟩

theorem exists_renderElements (v : Json) (vs : List Json) :
    ∃ c cs, renderElements (v :: vs) = c :: cs ∧ StartsValue c := by
  obtain ⟨c, cs, hrender, hc⟩ := exists_render v
  rcases vs with _ | ⟨w, vs⟩
  · exact ⟨c, cs, by rw [renderElements, hrender], hc⟩
  · exact ⟨c, _, by rw [renderElements, hrender, List.cons_append], hc⟩

theorem parseValue_number {c : Char} (h : StartsNumber c) (fuel : ℕ) (cs : List Char) :
    parseValue (fuel + 1) (c :: cs) = (parseInt (c :: cs)).map fun (n, rest) => (.int n, rest) := by
  rw [parseValue, skipWhitespace_cons h.startsValue.1]
  split <;> rename_i heq <;> first
    | rfl
    | (injection heq with hc; rw [hc] at h; rcases h with h | h <;> cases h)

theorem parseValue_string (fuel : ℕ) (cs : List Char) :
    parseValue (fuel + 1) ('"' :: cs) =
      (parseChars fuel cs).map fun (s, rest) => (.str (String.ofList s), rest) := by
  rw [parseValue, skipWhitespace_cons rfl]
  rfl

theorem parseValue_array (fuel : ℕ) {c : Char} (h : StartsValue c) (cs : List Char) :
    parseValue (fuel + 1) ('[' :: c :: cs) =
      (parseElements fuel (c :: cs)).map fun (elements, rest) => (.arr elements, rest) := by
  rw [parseValue, skipWhitespace_cons rfl]
  simp only
  rw [skipWhitespace_cons h.1]
  split
  · rename_i heq
    injection heq with hc
    exact absurd hc h.2.1
  · rfl

theorem parseValue_object (fuel : ℕ) (cs : List Char) :
    parseValue (fuel + 1) ('{' :: '"' :: cs) =
      (parseMembers fuel ('"' :: cs)).map fun (members, rest) => (.obj members, rest) := by
  rw [parseValue, skipWhitespace_cons rfl]
  simp only
  rw [skipWhitespace_cons rfl]
  rfl

theorem renderMembers_cons (key : String) (v : Json) (ms : List (String × Json)) :
    ∃ cs, renderMembers ((key, v) :: ms) = '"' :: cs := by
  rcases ms with _ | ⟨m, ms⟩
  · exact ⟨_, rfl⟩
  · exact ⟨_, rfl⟩

mutual

/-- Reading gives back what was written, and leaves what follows. -/
theorem parseValue_render (v : Json) (fuel : ℕ) (rest : List Char)
    (hfuel : (render v).length < fuel) (hrest : NoDigit rest) :
    parseValue fuel (render v ++ rest) = some (v, rest) := by
  obtain ⟨fuel, rfl⟩ : ∃ n, fuel = n + 1 := ⟨fuel - 1, by omega⟩
  cases v with
  | null => rfl
  | bool b => cases b <;> rfl
  | int n =>
    obtain ⟨c, cs, hrender, hc⟩ := exists_renderInt n
    have hint := parseInt_renderInt n hrest
    rw [render]
    rw [hrender, List.cons_append] at hint ⊢
    rw [parseValue_number hc, hint]
    rfl
  | str s =>
    rw [render, quote, List.length_cons, List.length_append] at hfuel
    rw [render, quote, List.cons_append, parseValue_string, List.append_assoc,
      List.singleton_append, parseChars_escape s rest (by omega)]
    simp
  | arr elements =>
    rcases elements with _ | ⟨v, vs⟩
    · rfl
    · rw [render, List.length_cons, List.length_append, List.length_singleton] at hfuel
      have helements := parseElements_render v vs fuel rest (by omega)
      obtain ⟨c, cs, hrender, hc⟩ := exists_renderElements v vs
      rw [render, List.cons_append, List.append_assoc, List.singleton_append]
      rw [hrender, List.cons_append] at helements ⊢
      rw [parseValue_array fuel hc, helements]
      rfl
  | obj members =>
    rcases members with _ | ⟨⟨key, v⟩, ms⟩
    · rfl
    · rw [render, List.length_cons, List.length_append, List.length_singleton] at hfuel
      have hmembers := parseMembers_render key v ms fuel rest (by omega)
      obtain ⟨cs, hrender⟩ := renderMembers_cons key v ms
      rw [render, List.cons_append, List.append_assoc, List.singleton_append]
      rw [hrender, List.cons_append] at hmembers ⊢
      rw [parseValue_object, hmembers]
      rfl
termination_by fuel

theorem parseElements_render (v : Json) (vs : List Json) (fuel : ℕ) (rest : List Char)
    (hfuel : (renderElements (v :: vs)).length + 1 < fuel) :
    parseElements fuel (renderElements (v :: vs) ++ ']' :: rest) = some (v :: vs, rest) := by
  obtain ⟨fuel, rfl⟩ : ∃ n, fuel = n + 1 := ⟨fuel - 1, by omega⟩
  cases vs with
  | nil =>
    rw [renderElements] at hfuel ⊢
    rw [parseElements, parseValue_render v fuel _ (by omega) (noDigit_cons rfl _),
      Option.bind_some]
    rfl
  | cons w vs =>
    rw [renderElements, List.length_append, List.length_cons] at hfuel
    rw [renderElements, List.append_assoc, List.cons_append, parseElements,
      parseValue_render v fuel _ (by omega) (noDigit_cons rfl _), Option.bind_some]
    simp only
    rw [skipWhitespace_cons rfl]
    simp only
    rw [parseElements_render w vs fuel rest (by omega)]
    rfl
termination_by fuel

theorem parseMembers_render (key : String) (v : Json) (ms : List (String × Json)) (fuel : ℕ)
    (rest : List Char) (hfuel : (renderMembers ((key, v) :: ms)).length + 1 < fuel) :
    parseMembers fuel (renderMembers ((key, v) :: ms) ++ '}' :: rest) =
      some ((key, v) :: ms, rest) := by
  obtain ⟨fuel, rfl⟩ : ∃ n, fuel = n + 1 := ⟨fuel - 1, by omega⟩
  have hkey (more : List Char) : quote key ++ more = '"' :: (escape key ++ '"' :: more) := by
    rw [quote, List.cons_append, List.append_assoc, List.singleton_append]
  have hquote : (quote key).length = (escape key).length + 2 := by
    rw [quote, List.length_cons, List.length_append, List.length_singleton]
  cases ms with
  | nil =>
    rw [renderMembers, List.length_append, List.length_cons] at hfuel
    rw [renderMembers, List.append_assoc, List.cons_append, hkey, parseMembers,
      skipWhitespace_cons rfl]
    simp only
    rw [parseChars_escape key _ (by omega), Option.bind_some]
    simp only
    rw [skipWhitespace_cons rfl]
    simp only
    rw [parseValue_render v fuel _ (by omega) (noDigit_cons rfl _), Option.bind_some]
    simp only
    rw [skipWhitespace_cons rfl]
    simp
  | cons m ms =>
    obtain ⟨key', w⟩ := m
    rw [renderMembers, List.length_append, List.length_cons, List.length_append,
      List.length_cons] at hfuel
    rw [renderMembers, List.append_assoc, List.cons_append, List.append_assoc, List.cons_append,
      hkey, parseMembers, skipWhitespace_cons rfl]
    simp only
    rw [parseChars_escape key _ (by omega), Option.bind_some]
    simp only
    rw [skipWhitespace_cons rfl]
    simp only
    rw [parseValue_render v fuel _ (by omega) (noDigit_cons rfl _), Option.bind_some]
    simp only
    rw [skipWhitespace_cons rfl]
    simp only
    rw [parseMembers_render key' w ms fuel rest (by omega)]
    simp
termination_by fuel

end

def toText (v : Json) : String := String.ofList (render v)

theorem parse_toText (v : Json) : parse v.toText = some v := by
  have h := parseValue_render v ((render v).length + 1) [] (by omega) noDigit_nil
  rw [List.append_nil] at h
  rw [parse, toText, String.length_ofList, String.toList_ofList, h]
  rfl

/-- A value with something after it that is no white space is no text of one value. -/
theorem parse_toText_append {v : Json} {c : Char} (cs : List Char)
    (hdigit : c.isDigit = false) (hspace : isWhitespace c = false) :
    parse (v.toText ++ String.ofList (c :: cs)) = none := by
  have h := parseValue_render v ((render v ++ c :: cs).length + 1) (c :: cs)
    (by rw [List.length_append]; omega) (noDigit_cons hdigit cs)
  rw [parse, toText, ← String.ofList_append, String.length_ofList, String.toList_ofList, h]
  simp only
  rw [skipWhitespace_cons hspace, if_neg (by simp)]

theorem parse_empty : parse "" = none := by
  rw [parse, show "".length + 1 = 1 from rfl, String.toList_empty, parseValue]
  rfl

end Values

end Json
