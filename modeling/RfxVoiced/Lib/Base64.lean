import RfxVoiced.Lib.BigEndian
import Mathlib.Tactic.Common

/-!
# Base64, as a reader takes it

The base64 of RFC 4648: four symbols of six bits stand for three bytes, and where the bytes run out
the last group is filled up with padding. The reader here is a strict one. It refuses a symbol that
is not in the alphabet, padding anywhere but at the end, and a last group whose spare bits are not
zero.

## Main definitions

* `alphabet`, `value` — the symbols, and the six bits that each stands for
* `decode` — the bytes that a text stands for

## Main results

* `value_alphabet` — a symbol stands for its place in the alphabet
* `decode_whole`, `decode_two`, `decode_one` — reading a group of each length
-/

namespace RfxVoiced.Base64

/-- The symbols, in the order of what they stand for. -/
def alphabet : List Char :=
  "ABCDEFGHIJKLMNOPQRSTUVWXYZabcdefghijklmnopqrstuvwxyz0123456789+/".toList

/-- The six bits that a symbol stands for. -/
def value (c : Char) : Option ℕ := alphabet.idxOf? c

/-- The number that symbols stand for. -/
def number (symbols : List Char) : Option ℕ :=
  symbols.foldlM (fun n c => (value c).map fun v => n * 64 + v) 0

/-- The `n` bytes that symbols stand for. The bits behind these must be zero. -/
def bytes (n : ℕ) (symbols : List Char) : Option (List UInt8) :=
  (number symbols).bind fun v =>
    let spare := 2 ^ (6 * symbols.length - 8 * n)
    if v % spare = 0 then some (BigEndian.digits n (v / spare)) else none

/-- The bytes that a text stands for. Only its last group may be padded. -/
def decode : List Char → Option (List UInt8)
  | [] => some []
  | a :: b :: c :: d :: rest =>
    if rest = [] ∧ c = '=' ∧ d = '=' then bytes 1 [a, b]
    else if rest = [] ∧ d = '=' then bytes 2 [a, b, c]
    else (bytes 3 [a, b, c, d]).bind fun group => (decode rest).map fun more => group ++ more
  | _ => none

variable {a b c d : Char} {rest : List Char}

theorem value_alphabet (i : Fin alphabet.length) : value (alphabet.get i) = some i := by
  revert i
  decide +kernel

/-- The padding is not a symbol. -/
theorem ne_pad_of_mem (h : c ∈ alphabet) : c ≠ '=' := by
  rintro rfl
  revert h
  decide

/-- Symbols whose number is that of some bytes, shifted by the spare bits, stand for these. -/
theorem bytes_eq_some {symbols : List Char} {data : List UInt8} (spare : ℕ)
    (hspare : 6 * symbols.length = 8 * data.length + spare)
    (h : number symbols = some (BigEndian.value data * 2 ^ spare)) :
    bytes data.length symbols = some data := by
  have hpow : 6 * symbols.length - 8 * data.length = spare := by omega
  rw [bytes, h, Option.bind_some, hpow]
  simp only [Nat.mul_mod_left, if_true, Nat.mul_div_cancel _ (Nat.two_pow_pos spare),
    BigEndian.digits_value]

/-- A group without padding. -/
theorem decode_whole {data : List UInt8} (hc : c ≠ '=') (hd : d ≠ '=') (hlen : data.length = 3)
    (h : number [a, b, c, d] = some (BigEndian.value data)) :
    decode (a :: b :: c :: d :: rest) = (decode rest).map fun more => data ++ more := by
  have hbytes : bytes 3 [a, b, c, d] = some data :=
    hlen ▸ bytes_eq_some 0 (by simp [hlen]) (by rw [h, pow_zero, Nat.mul_one])
  rw [decode, if_neg (by tauto), if_neg (by tauto), hbytes, Option.bind_some]

/-- A last group of two bytes. -/
theorem decode_two {data : List UInt8} (hc : c ≠ '=') (hlen : data.length = 2)
    (h : number [a, b, c] = some (BigEndian.value data * 2 ^ 2)) :
    decode [a, b, c, '='] = some data := by
  rw [decode, if_neg (by tauto), if_pos ⟨rfl, rfl⟩, ← hlen]
  exact bytes_eq_some _ (by simp [hlen]) h

/-- A last group of one byte. -/
theorem decode_one {data : List UInt8} (hlen : data.length = 1)
    (h : number [a, b] = some (BigEndian.value data * 2 ^ 4)) :
    decode [a, b, '=', '='] = some data := by
  rw [decode, if_pos ⟨rfl, rfl, rfl⟩, ← hlen]
  exact bytes_eq_some _ (by simp [hlen]) h

example : decode "TWFu".toList = some [77, 97, 110] := by decide

end RfxVoiced.Base64
