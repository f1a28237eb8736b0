/-! # Encoded text

The bytes of a text, and the texts that bytes encode: overlong forms, surrogates and codes
beyond the last one encode nothing. -/
namespace Stencil.Text

def encodeChar (c : Char) : List UInt8 :=
  let n := c.toNat
  if n < 0x80 then [n.toUInt8]
  else if n < 0x800 then [(0xC0 + n / 0x40).toUInt8, (0x80 + n % 0x40).toUInt8]
  else if n < 0x10000 then
    [(0xE0 + n / 0x1000).toUInt8, (0x80 + n / 0x40 % 0x40).toUInt8, (0x80 + n % 0x40).toUInt8]
  else
    [(0xF0 + n / 0x40000).toUInt8, (0x80 + n / 0x1000 % 0x40).toUInt8,
      (0x80 + n / 0x40 % 0x40).toUInt8, (0x80 + n % 0x40).toUInt8]

def encode (text : List Char) : List UInt8 := text.flatMap encodeChar

/-- A continuation byte owes its character six bits. -/
private def tail? (b : UInt8) : Option Nat :=
  if 0x80 ≤ b ∧ b < 0xC0 then some (b.toNat - 0x80) else none

/-- The character of a code that is at least `least`, the smallest that needs so many bytes. -/
private def code? (least n : Nat) : Option Char :=
  if h : least ≤ n ∧ n.isValidChar then some (Char.ofNatAux n h.2) else none

def decode? : List UInt8 → Option (List Char)
  | [] => some []
  | a :: rest =>
    if a < 0x80 then (decode? rest).map (Char.ofNat a.toNat :: ·)
    else if a < 0xC0 then none
    else match rest with
      | [] => none
      | b :: rest =>
        if a < 0xE0 then do
          let c ← code? 0x80 ((a.toNat - 0xC0) * 0x40 + (← tail? b))
          (decode? rest).map (c :: ·)
        else match rest with
          | [] => none
          | c :: rest =>
            if a < 0xF0 then do
              let c ← code? 0x800 ((a.toNat - 0xE0) * 0x1000 + (← tail? b) * 0x40 + (← tail? c))
              (decode? rest).map (c :: ·)
            else match rest with
              | [] => none
              | d :: rest =>
                if a < 0xF8 then do
                  let c ← code? 0x10000 ((a.toNat - 0xF0) * 0x40000 + (← tail? b) * 0x1000 +
                    (← tail? c) * 0x40 + (← tail? d))
                  (decode? rest).map (c :: ·)
                else none

def hexByte (digit : Nat → Char) (b : UInt8) : List Char :=
  [digit (b.toNat / 16), digit (b.toNat % 16)]

end Stencil.Text
