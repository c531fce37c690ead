import Garnet.Text.Digit
import Garnet.Text.Letter
import Garnet.Text.Upper
import Garnet.Token.Basic

/-! # From text to tokens

A text is a sequence of gaps and lexemes. A gap holds blanks and comments; a lexeme is the longest
piece that the rules below allow at its place. Every rule looks at the text alone; the place of a
token is then counted from the characters in front of it.

The character U+0000 marks the end of the text wherever it stands outside a double-quoted escape.
-/

namespace Garnet.Token

/-- Ends the text. -/
def nul : Char := '\x00'

/-! ### Gaps -/

/-- Blanks that separate lexemes. -/
def isGapBlank (c : Char) : Bool :=
  c == ' ' || c == '\t' || c == '\r' || c == '\n'

/-- The number of characters of the gap at the front of a text. A comment runs from a number sign
to the end of its line. -/
def gapLength (inComment : Bool) : List Char → Nat
  | [] => 0
  | c :: rest =>
    if inComment && c != '\n' && c != nul then gapLength true rest + 1
    else if isGapBlank c then gapLength false rest + 1
    else if c == '#' then gapLength true rest + 1
    else 0

/-! ### Names -/

/-- Characters that begin a name. -/
def isNameStart (c : Char) : Bool :=
  Text.isLetter c || c == '_'

/-- Characters that continue a name. -/
def isNameChar (c : Char) : Bool :=
  Text.isLetter c || Text.isDigit c || c == '_'

/-- What follows the first character of a name. A name may end in one question or exclamation
mark, unless an equals sign comes next. -/
def nameTail (rest : List Char) : List Char :=
  let body := rest.takeWhile isNameChar
  match rest.drop body.length with
  | [] => body
  | mark :: more =>
    if (mark == '?' || mark == '!') && more.head? != some '=' then body ++ [mark] else body

/-- A name is a reserved word, a constant or an identifier. -/
def nameKind (name : String) : Kind :=
  match Keyword.ofText? name with
  | some word => .keyword word
  | none => if name.toList.head?.any Text.isUpper then .constant else .ident

/-! ### Numbers -/

/-- The part of a number after its first digit. -/
structure NumberTail where
  /-- The digits, and at most one point, without separators. -/
  literal : List Char
  /-- How many characters of the text this part takes. -/
  length : Nat
  /-- Whether there is a point. -/
  fractional : Bool
deriving DecidableEq, Repr

/-- Put characters in front of a part that begins `taken` characters later. -/
def NumberTail.extend (tail : NumberTail) (chars : List Char) (taken : Nat) : NumberTail :=
  { tail with literal := chars ++ tail.literal, length := tail.length + taken }

/-- Read on after a digit. One underscore may separate two digits, and one point with a digit
after it begins a fraction. -/
def numberTail (fractional : Bool) : List Char → NumberTail
  | [] => ⟨[], 0, fractional⟩
  | c :: rest =>
    if Text.isDigit c then (numberTail fractional rest).extend [c] 1
    else match rest with
      | [] => ⟨[], 0, fractional⟩
      | d :: more =>
        if c == '_' && Text.isDigit d then (numberTail fractional more).extend [d] 2
        else if c == '.' && !fractional && Text.isDigit d then
          (numberTail true more).extend ['.', d] 2
        else ⟨[], 0, fractional⟩

/-! ### Strings -/

/-- The part of a string literal after its opening quote. -/
structure StringTail where
  /-- The text that the literal denotes, as far as it was read. -/
  text : List Char
  /-- How many characters of the source this part takes, with the closing quote. -/
  length : Nat
  /-- Whether there is a closing quote. -/
  closed : Bool
deriving DecidableEq, Repr

/-- Put a character in front of a part that begins `taken` characters later. -/
def StringTail.extend (tail : StringTail) (c : Char) (taken : Nat) : StringTail :=
  { tail with text := c :: tail.text, length := tail.length + taken }

/-- What a backslash makes of the next character between double quotes. -/
def escapedChar (c : Char) : Char :=
  if c = 'n' then '\n' else if c = 't' then '\t' else c

/-- Read the characters of a literal up to its closing quote. Between single quotes a backslash
is special in front of a single quote and a backslash only; between double quotes it is special
in front of every character. -/
def stringTail (quote : Char) : List Char → StringTail
  | [] => ⟨[], 0, false⟩
  | c :: rest =>
    if c = nul then ⟨[], 0, false⟩
    else if c = quote then ⟨[], 1, true⟩
    else if c = '\\' then
      match rest with
      | [] => ⟨[], 1, false⟩
      | e :: more =>
        if quote = '\'' then
          if e = '\'' ∨ e = '\\' then (stringTail quote more).extend e 2
          else (stringTail quote (e :: more)).extend '\\' 1
        else (stringTail quote more).extend (escapedChar e) 2
    else (stringTail quote rest).extend c 1

/-! ### Lexemes -/

/-- A piece of text that makes a token. -/
structure Lexeme where
  kind : Kind
  literal : String
  /-- How many characters belong to the piece after its first one. -/
  further : Nat
deriving DecidableEq, Repr

/-- A lexeme that stands for itself. -/
def Lexeme.plain (kind : Kind) (text : String) : Lexeme :=
  ⟨kind, text, text.length - 1⟩

/-- A lexeme of one or two characters, by whether an equals sign follows the first. -/
def withEquals (rest : List Char) (both alone : Lexeme) : Lexeme :=
  if rest.head? = some '=' then both else alone

/-- The lexeme at the front of a text, given its first character. -/
def lexeme (c : Char) (rest : List Char) : Lexeme :=
  let illegal : Lexeme := ⟨.illegal, c.toString, 0⟩
  let operator (o : Operator) : Lexeme := .plain (.op o) o.text
  match c with
  | '+' => operator .add
  | '-' => operator .sub
  | '*' => operator .mul
  | '/' => operator .div
  | '%' => operator .rem
  | '(' => .plain .lparen "("
  | ')' => .plain .rparen ")"
  | ',' => .plain .comma ","
  | ';' => .plain .semicolon ";"
  | '.' => .plain .dot "."
  | ':' =>
    match rest with
    | [] => illegal
    | d :: more =>
      if d = ':' then .plain .scope "::"
      else if isNameStart d then
        let name := d :: nameTail more
        ⟨.symbol, String.ofList name, name.length⟩
      else illegal
  | '!' => withEquals rest (operator .ne) illegal
  | '=' => withEquals rest (operator .eq) (.plain .assign "=")
  | '>' => withEquals rest (operator .ge) (operator .gt)
  | '<' => withEquals rest (operator .le) (operator .lt)
  | '@' =>
    match rest with
    | [] => illegal
    | d :: more =>
      if isNameStart d then
        let name := d :: nameTail more
        ⟨.ivar, String.ofList ('@' :: name), name.length⟩
      else illegal
  | _ =>
    if c = '"' ∨ c = '\'' then
      let tail := stringTail c rest
      if tail.closed then ⟨.string, String.ofList tail.text, tail.length⟩
      else ⟨.illegal, "unterminated string", tail.length⟩
    else if isNameStart c then
      let tail := nameTail rest
      let name := String.ofList (c :: tail)
      ⟨nameKind name, name, tail.length⟩
    else if Text.isDigit c then
      let tail := numberTail false rest
      ⟨if tail.fractional then .float else .int, String.ofList (c :: tail.literal), tail.length⟩
    else illegal

/-! ### The whole text -/

/-- Cut a text into tokens, given the place of its first character. The second component is the
place of the end mark that stopped the reading, if one did. -/
def scan (pos : Pos) (text : List Char) : List Token × Option Pos :=
  let gap := gapLength false text
  let here := pos.after (text.take gap)
  match _hrest : text.drop gap with
  | [] => ([], none)
  | c :: rest =>
    if c = nul then ([], some here)
    else
      let piece := lexeme c rest
      let more := scan (here.after (c :: rest.take piece.further)) (rest.drop piece.further)
      (⟨piece.kind, piece.literal, here⟩ :: more.1, more.2)
termination_by text.length
decreasing_by
  have hlength := congrArg List.length _hrest
  simp only [List.length_drop, List.length_cons] at hlength ⊢
  omega

/-- The tokens of a source text. A text that is read to its end ends at its last character. -/
def Stream.ofSource (source : String) : Stream :=
  let (tokens, stop) := scan .start source.toList
  ⟨tokens, stop.getD (.ofLast source.toList)⟩

end Garnet.Token
