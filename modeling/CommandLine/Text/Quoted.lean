import CommandLine.Text.Visible

/-!
# Quoted text

Text inside double quotes on one line: the quote and the backslash are escaped,
the usual controls have short escapes, and the other characters that are not visible
are written as code points. Single quotes stand as they are.
-/

namespace CommandLine

namespace Text

/-- The escaped form of one character inside double quotes. -/
def escapeChar (c : Char) : List Char :=
  match c with
  | '\"' => ['\\', '\"']
  | '\\' => ['\\', '\\']
  | '\t' => ['\\', 't']
  | '\n' => ['\\', 'n']
  | '\r' => ['\\', 'r']
  | '\x00' => ['\\', '0']
  | c =>
      if isVisible c then
        [c]
      else
        ['\\', 'u', '\x7b'] ++ Nat.toDigits 16 c.toNat ++ ['\x7d']

/-- The text between double quotes. -/
def quote (text : String) : String :=
  "\"" ++ String.ofList (text.toList.flatMap escapeChar) ++ "\""

/-- A list of texts in brackets, each of them quoted. -/
def quoteList (texts : List String) : String :=
  "[" ++ ", ".intercalate (texts.map quote) ++ "]"

end Text

end CommandLine
