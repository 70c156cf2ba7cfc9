/-!
# White space

The 25 characters that Unicode gives the property `White_Space`, and the text between them.
-/

namespace DatabaseProject.Text

/-- The characters with the Unicode property `White_Space`. -/
def blanks : List Char :=
  ['\u0009', '\u000A', '\u000B', '\u000C', '\u000D', '\u0020', '\u0085', '\u00A0', '\u1680',
    '\u2000', '\u2001', '\u2002', '\u2003', '\u2004', '\u2005', '\u2006', '\u2007', '\u2008',
    '\u2009', '\u200A', '\u2028', '\u2029', '\u202F', '\u205F', '\u3000']

def isBlank (c : Char) : Bool := blanks.contains c

/-- The characters from the first to the last that is not white space. -/
def trimmed (cs : List Char) : List Char :=
  ((cs.dropWhile isBlank).reverse.dropWhile isBlank).reverse

/-- The text without leading and trailing white space. -/
def trim (text : String) : String := String.ofList (trimmed text.toList)

end DatabaseProject.Text
