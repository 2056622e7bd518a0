import TransportStream.Text.Numeral

/-!
# One-line descriptions of structured values

Decoded structures can be shown on one line for inspection: a record as its name and its fields, a
case as its name around its content, a list in brackets.  This module holds those shapes, and the
quoting of the two kinds of text that occur inside them.

* `record`, `wrapped`, `listing`: the three shapes.
* `quoted`: a text in double quotes, with everything that would not show escaped.
* `asciiCode`: a byte string of which only printable ASCII shows as itself.
-/

namespace TransportStream.Text

/-- A record: its name, and its fields in order. -/
def record (name : String) (fields : List (String × String)) : String :=
  name ++ " \x7b " ++ ", ".intercalate (fields.map fun field => field.1 ++ ": " ++ field.2) ++
    " \x7d"

/-- A case that holds one value: its name, and the value in parentheses. -/
def wrapped (name content : String) : String :=
  name ++ "(" ++ content ++ ")"

/-- A list, in brackets. -/
def listing (items : List String) : String :=
  "[" ++ ", ".intercalate items ++ "]"

/-- True of the characters up to U+00FF that have no visible form of their own: the two blocks of
control characters, the no-break space and the soft hyphen. -/
def isHidden (c : Char) : Bool :=
  c.toNat < 0x20 || (0x7f ≤ c.toNat && c.toNat ≤ 0xa0) || c.toNat == 0xad

/-- A character as it stands inside double quotes. -/
def quotedChar (c : Char) : String :=
  match c with
  | '"' => "\\\""
  | '\\' => "\\\\"
  | '\t' => "\\t"
  | '\r' => "\\r"
  | '\n' => "\\n"
  | '\x00' => "\\0"
  | c => if isHidden c then "\\u\x7b" ++ hex 1 c.toNat ++ "\x7d" else c.toString

/-- A text of characters up to U+00FF in double quotes. -/
def quoted (text : String) : String :=
  "\"" ++ String.join (text.toList.map quotedChar) ++ "\""

/-- A byte as a character of an ASCII code: printable ones as themselves, quotes and the backslash
escaped, all others by name or by number. -/
def asciiByte (b : UInt8) : String :=
  match Char.ofNat b.toNat with
  | '\t' => "\\t"
  | '\r' => "\\r"
  | '\n' => "\\n"
  | '\'' => "\\'"
  | '"' => "\\\""
  | '\\' => "\\\\"
  | c => if 0x20 ≤ b.toNat && b.toNat ≤ 0x7e then c.toString else "\\x" ++ hex 2 b.toNat

/-- A byte string as an ASCII code. -/
def asciiCode (bytes : List UInt8) : String :=
  String.join (bytes.map asciiByte)

end TransportStream.Text
