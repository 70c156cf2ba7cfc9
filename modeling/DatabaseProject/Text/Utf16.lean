/-!
# UTF-16 code units of a text

`units` lists the code units of a text. `decode` reads units back; a surrogate without its
partner becomes U+FFFD.
-/

namespace DatabaseProject.Text.Utf16

/-- One unit below U+10000, a surrogate pair from there on. -/
def unitsOfChar (c : Char) : List UInt16 :=
  if c.toNat < 0x10000 then [c.toNat.toUInt16]
  else
    let offset := c.toNat - 0x10000
    [(0xD800 + offset / 0x400).toUInt16, (0xDC00 + offset % 0x400).toUInt16]

/-- The code units of a text. -/
def units (text : String) : List UInt16 := text.toList.flatMap unitsOfChar

/-- First half of a surrogate pair. -/
def isHighSurrogate (u : UInt16) : Bool := decide (0xD800 ≤ u ∧ u < 0xDC00)

/-- Second half of a surrogate pair. -/
def isLowSurrogate (u : UInt16) : Bool := decide (0xDC00 ≤ u ∧ u < 0xE000)

/-- Stands for a surrogate without its partner. -/
def replacement : Char := '\uFFFD'

/-- The character of a unit that is in no pair. -/
def charOfUnit (u : UInt16) : Char :=
  if isHighSurrogate u || isLowSurrogate u then replacement else Char.ofNat u.toNat

/-- The character of a surrogate pair. -/
def charOfPair (high low : UInt16) : Char :=
  Char.ofNat (0x10000 + (high.toNat - 0xD800) * 0x400 + (low.toNat - 0xDC00))

/-- The text of code units. -/
def decode : List UInt16 → List Char
  | [] => []
  | [u] => [charOfUnit u]
  | u :: v :: rest =>
    if isHighSurrogate u && isLowSurrogate v then charOfPair u v :: decode rest
    else charOfUnit u :: decode (v :: rest)

end DatabaseProject.Text.Utf16
