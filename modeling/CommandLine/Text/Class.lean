/-!
# Character classes

Three classes decide how text is read and shown: the spaces that may stand before
a value, the white space of Unicode, and the control characters. A character is
printable when a diagnostic may show it as it is.
-/

namespace CommandLine

namespace Text

/-- The six spaces that may stand before a value: blank, tab, line feed, vertical
tab, form feed and carriage return. -/
def isSpace (c : Char) : Bool :=
  c = ' ' || c = '\t' || c = '\n' || c = '\x0b' || c = '\x0c' || c = '\r'

/-- Whether a code point lies in one of some ranges, ends included. -/
def inRanges (ranges : List (Nat × Nat)) (code : Nat) : Bool :=
  ranges.any fun (low, high) => low ≤ code && code ≤ high

/-- The ranges of code points with the Unicode property `White_Space`, ends
included. -/
def whiteSpaceRanges : List (Nat × Nat) :=
  [(0x09, 0x0D), (0x20, 0x20), (0x85, 0x85), (0xA0, 0xA0), (0x1680, 0x1680),
    (0x2000, 0x200A), (0x2028, 0x2029), (0x202F, 0x202F), (0x205F, 0x205F),
    (0x3000, 0x3000)]

/-- Whether a character has the Unicode property `White_Space`. -/
def isWhiteSpace (c : Char) : Bool :=
  inRanges whiteSpaceRanges c.toNat

/-- Whether a character is in the Unicode category of control characters. -/
def isControl (c : Char) : Bool :=
  c.toNat ≤ 0x1F || (0x7F ≤ c.toNat && c.toNat ≤ 0x9F)

/-- Whether a diagnostic shows the character itself: the blank, and everything
that is neither a control character nor white space. -/
def isPrintable (c : Char) : Bool :=
  c = ' ' || (!isControl c && !isWhiteSpace c)

end Text

end CommandLine
