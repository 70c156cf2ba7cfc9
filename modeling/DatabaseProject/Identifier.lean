import DatabaseProject.Text.Utf16

/-!
# Bracketed and shortened identifiers

`bracket?` writes a name in brackets and refuses a name with one bracket only. `shorten` keeps an
identifier within 128 UTF-16 code units; the digits it appends come from `hash`, which is the same
in every run.
-/

namespace DatabaseProject.Identifier

open DatabaseProject.Text

/-- Exactly one of the two brackets is there. -/
def isHalfBracketed (name : String) : Bool :=
  (name.toList.head? == some '[') != (name.toList.getLast? == some ']')

/-- Both brackets are there. -/
def isBracketed (name : String) : Bool :=
  (name.toList.head? == some '[') && (name.toList.getLast? == some ']')

/-- The name in brackets; a name that has both already stays as it is. -/
def bracket? (name : String) : Option String :=
  if isHalfBracketed name then none
  else if isBracketed name then some name
  else some ("[" ++ name ++ "]")

/-- The longest identifier that the server takes, in UTF-16 code units. -/
def maxUnits : Nat := 128

/-- The code units kept of an identifier that is too long. -/
def keptUnits : Nat := 116

/-- What both lanes of the hash start from. -/
def laneSeed : UInt32 := ((5381 : UInt32) <<< 16) + 5381

/-- One step of a lane. -/
def laneStep (lane : UInt32) (unit : UInt16) : UInt32 :=
  ((lane <<< 5) + lane) ^^^ unit.toUInt32

/-- Feeds the units at even positions to the first lane and the others to the second. -/
def lanes (first second : UInt32) : List UInt16 → UInt32 × UInt32
  | [] => (first, second)
  | [u] => (laneStep first u, second)
  | u :: v :: rest => lanes (laneStep first u) (laneStep second v) rest

/-- A hash of code units, in 32-bit arithmetic that wraps around. -/
def hashUnits (units : List UInt16) : Int32 :=
  let (first, second) := lanes laneSeed laneSeed units
  (first + second * 1566083941).toInt32

/-- A hash of a text. -/
def hash (text : String) : Int32 := hashUnits (Utf16.units text)

/-- An identifier of at most 128 code units: a longer one keeps its first 116 and goes on with the
absolute value of its hash and a closing bracket. -/
def shorten (identifier : String) : String :=
  let units := Utf16.units identifier
  if units.length ≤ maxUnits then identifier
  else
    String.ofList (Utf16.decode (units.take keptUnits)) ++ "_"
      ++ toString (hash identifier).toInt.natAbs ++ "]"

end DatabaseProject.Identifier
