import Garnet.Number.Binary64
import Garnet.Number.Integer
import Garnet.Yaml.Timestamp

/-! # Scalars of a block document

A text is written plainly if it can be. It is put between double quotes if a reader would take the
plain text for something else than a text, or if it holds characters that cannot be shown, and
between single quotes if its plain form would be read as part of the document's structure. A text
with line feeds is written line by line below a header.
-/

namespace Garnet.Yaml

/-! ### Texts that read as something else -/

/-- Words that stand for a truth value, nothing, or a special number. -/
def reservedWords : List String :=
  ["", "~", "null", "Null", "NULL", "true", "True", "TRUE", "false", "False", "FALSE",
    ".nan", ".NaN", ".NAN", ".inf", ".Inf", ".INF", "+.inf", "+.Inf", "+.INF",
    "-.inf", "-.Inf", "-.INF"]

/-- Words that older readers take for a truth value. -/
def oldTruthWords : List String :=
  ["y", "Y", "yes", "Yes", "YES", "on", "On", "ON", "n", "N", "no", "No", "NO", "off", "Off", "OFF"]

/-- Whether a text is a run of digits. -/
def isDigits (text : List Char) : Bool :=
  !text.isEmpty && text.all Char.isDigit

/-- Whether a text is an exponent, or empty. -/
def isExponent : List Char → Bool
  | [] => true
  | mark :: rest => (mark == 'e' || mark == 'E') && isDigits (Integer.splitSign rest).2

/-- Whether an unsigned text has the shape of a decimal number: digits with an optional point among
or behind them, or a point with digits behind it, and an optional exponent. -/
def isDecimalShape (text : List Char) : Bool :=
  let whole := text.takeWhile Char.isDigit
  match text.drop whole.length with
  | '.' :: rest =>
    let fraction := rest.takeWhile Char.isDigit
    (!whole.isEmpty || !fraction.isEmpty) && isExponent (rest.drop fraction.length)
  | rest => !whole.isEmpty && isExponent rest

/-- Whether a text reads as a floating point number. -/
def isFloat (text : List Char) : Bool :=
  isDecimalShape (Integer.splitSign text).2 && (Binary64.ofText? (String.ofList text)).isSome

/-- Whether a numeral without separators reads as an integer of 64 bits, with a sign or without. -/
def isInteger (text : List Char) : Bool :=
  let (_, rest) := Integer.splitSign text
  let unsigned := rest.length == text.length
  (Integer.read text).isOk || (unsigned && (Integer.natural? text).any (· < Integer.wordCount))

/-- Whether a numeral reads as an integer when the digits behind the mark of its base are taken by
themselves, which lets them have a sign of their own. -/
def isMarkedInteger (text : List Char) : Bool :=
  let inBase (base : Nat) (negative : Bool) (digits : List Char) : Bool :=
    let (sign, body) := if negative then (true, digits) else Integer.splitSign digits
    let unsigned := !negative && body.length == digits.length
    (Integer.digits? base body).any fun n =>
      Integer.fitsSigned (Integer.signed sign n) || (unsigned && n < Integer.wordCount)
  match text with
  | '0' :: 'b' :: digits => inBase 2 false digits
  | '-' :: '0' :: 'b' :: digits => inBase 2 true digits
  | '0' :: 'o' :: digits => inBase 8 false digits
  | '-' :: '0' :: 'o' :: digits => inBase 8 true digits
  | _ => false

/-- Whether the rest of a text is groups of at most two digits below sixty, each behind a colon,
with an optional fraction at the end. -/
def isSexagesimalTail : Nat → List Char → Bool
  | 0, _ => false
  | steps + 1, ':' :: rest =>
    let group := rest.takeWhile Char.isDigit
    let fits := match group with
      | [_] => true
      | [tens, _] => tens ≤ '5'
      | _ => false
    fits && match rest.drop group.length with
      | [] => true
      | '.' :: fraction => fraction.all fun c => c.isDigit || c == '_'
      | more => isSexagesimalTail steps more
  | _ + 1, _ => false

/-- Whether a text reads as a number in base sixty. -/
def isSexagesimal (text : List Char) : Bool :=
  match (Integer.splitSign text).2 with
  | first :: rest =>
    let head := rest.takeWhile fun c => c.isDigit || c == '_'
    first.isDigit && isSexagesimalTail text.length (rest.drop head.length)
  | [] => false

/-- Whether a text that begins with a digit or a sign reads as a number or a date. -/
def isNumeric (text : List Char) : Bool :=
  let bare := text.filter (· != '_')
  isTimestamp text || isInteger bare || isFloat bare || isMarkedInteger bare || isSexagesimal text

/-- Whether each underscore stands between two digits; the first argument says whether a digit
stands right before the text. -/
def separatesDigits (afterDigit : Bool) : List Char → Bool
  | [] => true
  | c :: rest =>
    (c != '_' || (afterDigit && rest.head?.any Char.isDigit)) && separatesDigits c.isDigit rest

/-- Whether a text that begins with a point reads as a number. -/
def isPointFloat (text : List Char) : Bool :=
  separatesDigits false text && isFloat (text.filter (· != '_'))

/-- Whether the plain form of a text would not be read as a text. -/
def readsAsOther (text : String) : Bool :=
  reservedWords.contains text || oldTruthWords.contains text ||
    match text.toList with
    | [] => true
    | c :: rest =>
      if c.isDigit || c == '+' || c == '-' then isNumeric (c :: rest)
      else if c == '.' then isPointFloat (c :: rest)
      else false

/-! ### Texts that disturb the structure -/

/-- Characters that cannot begin a plain text. -/
def isIndicator (c : Char) : Bool :=
  "#,[]{}&*!|>'\"%@`".toList.contains c

/-- Whether a text is a marker followed by a blank or by nothing. -/
def isLoneMark : List Char → Bool
  | mark :: rest =>
    (mark == '-' || mark == '?' || mark == ':') && (rest.isEmpty || rest.head? == some ' ')
  | [] => false

/-- Whether a colon before a blank or at the end, or a number sign after a blank, occurs. -/
def hasInnerMark : List Char → Bool
  | [] => false
  | [c] => c == ':'
  | c :: d :: rest =>
    (c == ':' && d == ' ') || (c == ' ' && d == '#') || hasInnerMark (d :: rest)

/-- Whether the plain form of a text would be read as structure. -/
def disturbs (text : List Char) : Bool :=
  text.head?.any isIndicator || isLoneMark text || ['-', '-', '-'].isPrefixOf text ||
    ['.', '.', '.'].isPrefixOf text || hasInnerMark text || text.head? == some ' ' ||
    text.getLast? == some ' '

/-! ### Line breaks -/

/-- Characters that end a line. -/
def isBreak (c : Char) : Bool :=
  c == '\n' || c == '\r' || c == '\x85' || c == '\u2028' || c == '\u2029'

/-- Whether two neighbours in a text are of given sorts. -/
def hasNeighbours (first second : Char → Bool) : List Char → Bool
  | a :: b :: rest => (first a && second b) || hasNeighbours first second (b :: rest)
  | _ => false

/-- Write a text of several lines. The first character behind line breaks is indented; empty lines
stay empty. -/
def writeLines (indent : Nat) (write : Char → List Char) (afterBreak : Bool) :
    List Char → List Char
  | [] => []
  | c :: rest =>
    if isBreak c then c :: writeLines indent write true rest
    else
      (if afterBreak then List.replicate indent ' ' else []) ++ write c ++
        writeLines indent write false rest

/-! ### Characters that cannot be shown -/

/-- Characters that may stand in a document as they are. -/
def isShown (c : Char) : Bool :=
  let n := c.toNat
  (0x20 ≤ n && n ≤ 0x7E) || (0xA0 ≤ n && n ≤ 0xFFFD && n != 0xFEFF)

/-- A number in hexadecimal with that many places, in upper case. -/
def hexUpper (width n : Nat) : List Char :=
  (List.range width).reverse.map fun place => (Nat.digitChar (n / Nat.pow 16 place % 16)).toUpper

/-- The escape sequence of a character. -/
def escaped (c : Char) : List Char :=
  match c.toNat with
  | 0x00 => ['\\', '0']
  | 0x07 => ['\\', 'a']
  | 0x08 => ['\\', 'b']
  | 0x09 => ['\\', 't']
  | 0x0A => ['\\', 'n']
  | 0x0B => ['\\', 'v']
  | 0x0C => ['\\', 'f']
  | 0x0D => ['\\', 'r']
  | 0x1B => ['\\', 'e']
  | 0x22 => ['\\', '"']
  | 0x5C => ['\\', '\\']
  | 0x85 => ['\\', 'N']
  | 0xA0 => ['\\', '_']
  | 0x2028 => ['\\', 'L']
  | 0x2029 => ['\\', 'P']
  | n =>
    if n ≤ 0xFF then '\\' :: 'x' :: hexUpper 2 n
    else if n ≤ 0xFFFF then '\\' :: 'u' :: hexUpper 4 n
    else '\\' :: 'U' :: hexUpper 8 n

/-- Characters that stand for themselves between double quotes. -/
def isLiteral (c : Char) : Bool :=
  isShown c && !isBreak c && c != '"' && c != '\\'

/-! ### Writing -/

/-- The four ways to write a text. -/
inductive Style where
  | plain | single | double
  /-- Line by line below a header. -/
  | block
deriving DecidableEq, Repr

/-- The way in which a text is written. -/
def styleOf (text : String) : Style :=
  let chars := text.toList
  let isHidden (c : Char) : Bool := c != '\n' && c != '\t' && !isShown c
  let needsEscapes := chars.any isHidden || hasNeighbours (· == ' ') isBreak chars
  if chars.contains '\n' then
    if needsEscapes || chars.getLast? == some ' ' then .double else .block
  else if readsAsOther text || needsEscapes || chars.contains '\t' ||
      hasNeighbours isBreak (· == ' ') chars then .double
  else if chars.any isBreak || disturbs chars then .single
  else .plain

/-- A text between single quotes, which are written twice inside. -/
def singleQuoted (indent : Nat) (text : List Char) : List Char :=
  let write (c : Char) : List Char := if c = '\'' then ['\'', '\''] else [c]
  '\'' :: writeLines indent write false text ++ ['\'']

/-- A text between double quotes. Behind a mark of byte order at its front nothing stands for
itself. -/
def doubleQuoted (text : List Char) : List Char :=
  let isMarked := text.head? == some '\uFEFF'
  let write (c : Char) : List Char := if isLiteral c && !isMarked then [c] else escaped c
  '"' :: text.flatMap write ++ ['"']

/-- The sign in a header for what becomes of line breaks at the end: none of them is meant, all of
them are, or else one. -/
def chomping (text : List Char) : List Char :=
  match text.reverse with
  | last :: before =>
    if !isBreak last then ['-'] else if before.head?.all isBreak then ['+'] else []
  | [] => ['-']

/-- A text line by line below a header. The header tells the depth of the lines if the first of them
does not show it. A line break at the front ends the line of the header. -/
def blockOf (indent : Nat) (text : List Char) : List Char :=
  let startsWith (test : Char → Bool) : Bool := text.head?.any test
  let depth := if startsWith fun c => c == ' ' || isBreak c then ['2'] else []
  '|' :: depth ++ chomping text ++ (if startsWith isBreak then [] else ['\n']) ++
    writeLines indent (fun c => [c]) true text

/-- The written form of a text, whose further lines are indented. -/
def scalar (indent : Nat) (text : String) : String :=
  match styleOf text with
  | .plain => text
  | .single => String.ofList (singleQuoted indent text.toList)
  | .double => String.ofList (doubleQuoted text.toList)
  | .block => String.ofList (blockOf indent text.toList)

end Garnet.Yaml
