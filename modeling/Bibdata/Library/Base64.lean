import Mathlib.Data.List.Nodup
import Mathlib.Tactic.Common

/-!
# Base64

Three bytes are four characters, and what is left over is filled up with `=`. The strict decoder
takes the texts that the encoder makes, and no others (`strictDecode_eq_some_iff`): it refuses
characters outside of the alphabet, missing padding, and bits that are set where padding begins.
-/

namespace Base64

section Digits

def alphabet : List Char :=
  "ABCDEFGHIJKLMNOPQRSTUVWXYZabcdefghijklmnopqrstuvwxyz0123456789+/".toList

def digit (n : ℕ) : Char := alphabet.getD n '='

def value (c : Char) : Option ℕ := alphabet.idxOf? c

theorem length_alphabet : alphabet.length = 64 := by decide

theorem nodup_alphabet : alphabet.Nodup := by decide +kernel

theorem digit_eq_getElem {n : ℕ} (h : n < alphabet.length) : digit n = alphabet[n] := by
  unfold digit
  rw [List.getD_eq_getElem?_getD, List.getElem?_eq_getElem h, Option.getD_some]

theorem value_digit {n : ℕ} (h : n < 64) : value (digit n) = some n := by
  have hlt : n < alphabet.length := length_alphabet ▸ h
  unfold value
  rw [digit_eq_getElem hlt, List.idxOf?_eq_some_iff]
  refine ⟨hlt, rfl, fun i hi heq => ?_⟩
  have hin : i = n := nodup_alphabet.getElem_inj_iff.1 heq
  omega

theorem value_eq_some {c : Char} {n : ℕ} (h : value c = some n) : n < 64 ∧ digit n = c := by
  unfold value at h
  obtain ⟨hlt, heq, -⟩ := List.idxOf?_eq_some_iff.1 h
  exact ⟨length_alphabet ▸ hlt, (digit_eq_getElem hlt).trans heq⟩

theorem value_pad : value '=' = none := by decide +kernel

theorem digit_ne_pad {n : ℕ} (h : n < 64) : digit n ≠ '=' := by
  intro heq
  have hvalue := value_digit h
  rw [heq, value_pad] at hvalue
  cases hvalue

end Digits

def encode : List UInt8 → List Char
  | [] => []
  | [a] => [digit (a.toNat / 4), digit (a.toNat % 4 * 16), '=', '=']
  | [a, b] =>
    [digit (a.toNat / 4), digit (a.toNat % 4 * 16 + b.toNat / 16), digit (b.toNat % 16 * 4), '=']
  | a :: b :: c :: bytes =>
    digit (a.toNat / 4) :: digit (a.toNat % 4 * 16 + b.toNat / 16)
      :: digit (b.toNat % 16 * 4 + c.toNat / 64) :: digit (c.toNat % 64) :: encode bytes

section Decode

def decodeOne (a b : Char) : Option (List UInt8) := do
  let x ← value a
  let y ← value b
  if y % 16 = 0 then some [UInt8.ofNat (x * 4 + y / 16)] else none

def decodeTwo (a b c : Char) : Option (List UInt8) := do
  let x ← value a
  let y ← value b
  let z ← value c
  if z % 4 = 0 then some [UInt8.ofNat (x * 4 + y / 16), UInt8.ofNat (y % 16 * 16 + z / 4)]
  else none

def decodeThree (a b c d : Char) : Option (List UInt8) := do
  let x ← value a
  let y ← value b
  let z ← value c
  let w ← value d
  some [UInt8.ofNat (x * 4 + y / 16), UInt8.ofNat (y % 16 * 16 + z / 4),
    UInt8.ofNat (z % 4 * 64 + w)]

/-- Padding is at the end only. -/
def strictDecode : List Char → Option (List UInt8)
  | [] => some []
  | [a, b, c, d] =>
    if d ≠ '=' then decodeThree a b c d else if c ≠ '=' then decodeTwo a b c else decodeOne a b
  | a :: b :: c :: d :: e :: chars =>
    (decodeThree a b c d).bind fun bytes => (strictDecode (e :: chars)).map (bytes ++ ·)
  | _ => none

end Decode

section RoundTrip

theorem ofNat_eq {n : ℕ} {a : UInt8} (h : n = a.toNat) : UInt8.ofNat n = a := by
  rw [h, UInt8.ofNat_toNat]

theorem toNat_ofNat {n : ℕ} (h : n < 256) : (UInt8.ofNat n).toNat = n := by
  rw [UInt8.toNat_ofNat', Nat.mod_eq_of_lt h]

theorem strictDecode_cons {a b c d : Char} {chars : List Char} (hd : d ≠ '=') :
    strictDecode (a :: b :: c :: d :: chars)
      = (decodeThree a b c d).bind fun bytes => (strictDecode chars).map (bytes ++ ·) := by
  cases chars with
  | nil => simp [strictDecode, hd]
  | cons e chars => rfl

/-- Whatever is encoded is read back. -/
theorem strictDecode_encode (bytes : List UInt8) : strictDecode (encode bytes) = some bytes := by
  fun_induction encode bytes with
  | case1 => rfl
  | case2 a =>
    have ha := a.toNat_lt
    simp only [strictDecode, decodeOne, ne_eq, not_true_eq_false, if_false]
    rw [value_digit (by omega), value_digit (by omega)]
    simp only [Option.bind_eq_bind, Option.bind_some]
    rw [if_pos (by omega), ofNat_eq (a := a) (by omega)]
  | case3 a b =>
    have ha := a.toNat_lt
    have hb := b.toNat_lt
    have hpad : digit (b.toNat % 16 * 4) ≠ '=' := digit_ne_pad (by omega)
    simp only [strictDecode, decodeTwo, ne_eq, not_true_eq_false, if_false, hpad,
      not_false_eq_true, if_true]
    rw [value_digit (by omega), value_digit (by omega), value_digit (by omega)]
    simp only [Option.bind_eq_bind, Option.bind_some]
    rw [if_pos (by omega), ofNat_eq (a := a) (by omega), ofNat_eq (a := b) (by omega)]
  | case4 a b c bytes ih =>
    have ha := a.toNat_lt
    have hb := b.toNat_lt
    have hc := c.toNat_lt
    rw [strictDecode_cons (digit_ne_pad (by omega)), ih]
    simp only [decodeThree]
    rw [value_digit (by omega), value_digit (by omega), value_digit (by omega),
      value_digit (by omega)]
    simp only [Option.bind_eq_bind, Option.bind_some, Option.map_some]
    rw [ofNat_eq (a := a) (by omega), ofNat_eq (a := b) (by omega), ofNat_eq (a := c) (by omega)]
    rfl

theorem encode_decodeOne {a b : Char} {bytes : List UInt8} (h : decodeOne a b = some bytes) :
    encode bytes = [a, b, '=', '='] := by
  unfold decodeOne at h
  simp only [Option.bind_eq_bind, Option.bind_eq_some_iff] at h
  obtain ⟨x, hx, y, hy, h⟩ := h
  split_ifs at h with hbits
  cases h
  obtain ⟨hxlt, rfl⟩ := value_eq_some hx
  obtain ⟨hylt, rfl⟩ := value_eq_some hy
  unfold encode
  rw [toNat_ofNat (by omega), show (x * 4 + y / 16) / 4 = x by omega,
    show (x * 4 + y / 16) % 4 * 16 = y by omega]

theorem encode_decodeTwo {a b c : Char} {bytes : List UInt8} (h : decodeTwo a b c = some bytes) :
    encode bytes = [a, b, c, '='] := by
  unfold decodeTwo at h
  simp only [Option.bind_eq_bind, Option.bind_eq_some_iff] at h
  obtain ⟨x, hx, y, hy, z, hz, h⟩ := h
  split_ifs at h with hbits
  cases h
  obtain ⟨hxlt, rfl⟩ := value_eq_some hx
  obtain ⟨hylt, rfl⟩ := value_eq_some hy
  obtain ⟨hzlt, rfl⟩ := value_eq_some hz
  unfold encode
  rw [toNat_ofNat (by omega), toNat_ofNat (by omega), show (x * 4 + y / 16) / 4 = x by omega,
    show (x * 4 + y / 16) % 4 * 16 + (y % 16 * 16 + z / 4) / 16 = y by omega,
    show (y % 16 * 16 + z / 4) % 16 * 4 = z by omega]

theorem encode_decodeThree {a b c d : Char} {bytes rest : List UInt8}
    (h : decodeThree a b c d = some bytes) :
    encode (bytes ++ rest) = a :: b :: c :: d :: encode rest := by
  unfold decodeThree at h
  simp only [Option.bind_eq_bind, Option.bind_eq_some_iff] at h
  obtain ⟨x, hx, y, hy, z, hz, w, hw, h⟩ := h
  cases h
  obtain ⟨hxlt, rfl⟩ := value_eq_some hx
  obtain ⟨hylt, rfl⟩ := value_eq_some hy
  obtain ⟨hzlt, rfl⟩ := value_eq_some hz
  obtain ⟨hwlt, rfl⟩ := value_eq_some hw
  simp only [List.cons_append, List.nil_append, encode]
  rw [toNat_ofNat (by omega), toNat_ofNat (by omega), toNat_ofNat (by omega),
    show (x * 4 + y / 16) / 4 = x by omega,
    show (x * 4 + y / 16) % 4 * 16 + (y % 16 * 16 + z / 4) / 16 = y by omega,
    show (y % 16 * 16 + z / 4) % 16 * 4 + (z % 4 * 64 + w) / 64 = z by omega,
    show (z % 4 * 64 + w) % 64 = w by omega]

/-- What is read back is what was encoded. -/
theorem encode_strictDecode {chars : List Char} {bytes : List UInt8}
    (h : strictDecode chars = some bytes) : encode bytes = chars := by
  fun_induction strictDecode chars generalizing bytes with
  | case1 =>
    cases h
    rfl
  | case2 a b c d hd =>
    have hencode : encode (bytes ++ []) = a :: b :: c :: d :: encode [] := encode_decodeThree h
    rwa [List.append_nil] at hencode
  | case3 a b c d hd hc =>
    rw [not_not.1 hd]
    exact encode_decodeTwo h
  | case4 a b c d hd hc =>
    rw [not_not.1 hd, not_not.1 hc]
    exact encode_decodeOne h
  | case5 a b c d e chars ih =>
    obtain ⟨first, hfirst, h⟩ := Option.bind_eq_some_iff.1 h
    obtain ⟨rest, hrest, rfl⟩ := Option.map_eq_some_iff.1 h
    rw [encode_decodeThree hfirst, ih hrest]
  | case6 => cases h

theorem strictDecode_eq_some_iff {chars : List Char} {bytes : List UInt8} :
    strictDecode chars = some bytes ↔ chars = encode bytes := by
  constructor
  · exact fun h => (encode_strictDecode h).symm
  · rintro rfl
    exact strictDecode_encode bytes

end RoundTrip

end Base64
