import Mathlib.Data.UInt

/-!
This module contains the lossy decoding of UTF-8 (`String::from_utf8_lossy`): every maximal sequence
of bytes that cannot be continued to a character is replaced by one U+FFFD.
-/

namespace Utf8

def replacement : Char := Char.ofNat 0xFFFD

def isCont (b : UInt8) : Bool := b &&& 192 = 128

def inRange (b lo hi : UInt8) : Bool := lo ≤ b ∧ b ≤ hi

-- The second bytes that a three-byte or four-byte sequence may have after its first byte.
def secondOk (b c : UInt8) : Bool :=
  (b = 0xE0 ∧ inRange c 0xA0 0xBF) ∨ (inRange b 0xE1 0xEC ∧ inRange c 0x80 0xBF)
    ∨ (b = 0xED ∧ inRange c 0x80 0x9F) ∨ (inRange b 0xEE 0xEF ∧ inRange c 0x80 0xBF)
    ∨ (b = 0xF0 ∧ inRange c 0x90 0xBF) ∨ (inRange b 0xF1 0xF3 ∧ inRange c 0x80 0xBF)
    ∨ (b = 0xF4 ∧ inRange c 0x80 0x8F)

def bits (b : UInt8) (n : Nat) : Nat := b.toNat % 2 ^ n

-- The character that starts with the byte `b`, or the replacement, and the bytes left after it.
def decodeChar (b : UInt8) (rest : List UInt8) : Char × List UInt8 :=
  if b < 0x80 then
    (Char.ofNat b.toNat, rest)
  else if inRange b 0xC2 0xDF then
    match rest with
    | c :: rest =>
      if isCont c then
        (Char.ofNat (bits b 5 * 64 + bits c 6), rest)
      else
        (replacement, c :: rest)
    | [] => (replacement, [])
  else if inRange b 0xE0 0xF4 then
    match rest with
    | c :: rest =>
      if secondOk b c then
        match rest with
        | d :: rest =>
          if isCont d then
            if b < 0xF0 then
              (Char.ofNat ((bits b 4 * 64 + bits c 6) * 64 + bits d 6), rest)
            else
              match rest with
              | e :: rest =>
                if isCont e then
                  (Char.ofNat (((bits b 3 * 64 + bits c 6) * 64 + bits d 6) * 64 + bits e 6), rest)
                else
                  (replacement, e :: rest)
              | [] => (replacement, [])
          else
            (replacement, d :: rest)
        | [] => (replacement, [])
      else
        (replacement, c :: rest)
    | [] => (replacement, [])
  else
    (replacement, rest)

def decodeLossy : Nat → List UInt8 → List Char
  | 0, _ => []
  | _ + 1, [] => []
  | fuel + 1, b :: rest => (decodeChar b rest).1 :: decodeLossy fuel (decodeChar b rest).2

def fromUtf8Lossy (bytes : List UInt8) : List Char := decodeLossy bytes.length bytes

example : fromUtf8Lossy [0x61, 0xC3, 0xA9, 0xE2, 0x82, 0x62] = ['a', 'é', replacement, 'b'] := by
  decide +kernel

end Utf8
