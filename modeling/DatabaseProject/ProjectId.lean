/-!
# Project ids

Ids of projects and solutions: 128 random bits as a version 4 id, written in capital hexadecimal
digits between braces. A seed gives a sequence of ids.
-/

namespace DatabaseProject.ProjectId

def hexDigits : List Char :=
  ['0', '1', '2', '3', '4', '5', '6', '7', '8', '9', 'A', 'B', 'C', 'D', 'E', 'F']

/-- The lowest digits of a word, the highest of them first. -/
def hex (word : UInt64) : Nat → List Char
  | 0 => []
  | n + 1 => hex (word >>> 4) n ++ [hexDigits.getD (word.toNat % 16) '0']

/-- The id of two words; six bits give version and variant. -/
def ofWords (high low : UInt64) : String :=
  let high := (high &&& 0xFFFFFFFFFFFF0FFF) ||| 0x4000
  let low := (low &&& 0x3FFFFFFFFFFFFFFF) ||| 0x8000000000000000
  String.ofList (['\u007b'] ++ hex (high >>> 32) 8 ++ ['-'] ++ hex (high >>> 16) 4 ++ ['-']
    ++ hex high 4 ++ ['-'] ++ hex (low >>> 48) 4 ++ ['-'] ++ hex low 12 ++ ['\u007d'])

/-- Mixes the bits of a word; different words stay different. -/
def mix (word : UInt64) : UInt64 :=
  let word := (word ^^^ (word >>> 30)) * 0xBF58476D1CE4E5B9
  let word := (word ^^^ (word >>> 27)) * 0x94D049BB133111EB
  word ^^^ (word >>> 31)

/-- The n-th word of a seed. -/
def word (seed : UInt64) (n : Nat) : UInt64 := mix (seed + n.toUInt64 * 0x9E3779B97F4A7C15)

/-- The n-th id of a seed. -/
def nth (seed : UInt64) (n : Nat) : String := ofWords (word seed (2 * n)) (word seed (2 * n + 1))

end DatabaseProject.ProjectId
