import Garnet.Toml.Number
import Garnet.Toml.Value

/-! # Settings files: reading

From bytes to lines. A text that breaks a rule is refused as a whole; why does not matter to the
callers.
-/

namespace Garnet.Toml

/-! ### Characters -/

/-- Whether all characters may stand in a settings file: no controls but tabs and line ends, and no
carriage return without a line feed. -/
def isClean : List Char → Bool
  | [] => true
  | '\r' :: rest => rest.head? == some '\n' && isClean rest
  | c :: rest =>
    (c == '\t' || c == '\n' || (0x20 ≤ c.toNat && c.toNat ≠ 0x7F)) && isClean rest

/-- Blanks within a line. -/
def isBlank (c : Char) : Bool :=
  c == ' ' || c == '\t'

/-- Characters of line ends. -/
def isLineEnd (c : Char) : Bool :=
  c == '\n' || c == '\r'

/-- Drop blanks. -/
def skipBlanks (text : List Char) : List Char :=
  text.dropWhile isBlank

/-- Drop blanks, line ends and comments. -/
def skipSpace (inComment : Bool) : List Char → List Char
  | [] => []
  | c :: rest =>
    if isLineEnd c then skipSpace false rest
    else if inComment then skipSpace true rest
    else if isBlank c then skipSpace false rest
    else if c == '#' then skipSpace true rest
    else c :: rest

/-- The text from the end of a line on, if nothing but blanks and a comment comes before it. -/
def lineEnd? (text : List Char) : Option (List Char) :=
  match skipBlanks text with
  | [] => some []
  | c :: rest =>
    if isLineEnd c then some (c :: rest)
    else if c = '#' then some (rest.dropWhile (!isLineEnd ·))
    else none

/-! ### Strings -/

/-- The value of hexadecimal digits. -/
def hex? (digits : List Char) : Option Nat :=
  Integer.digits? 16 digits

/-- The character with a code point, if there is one. -/
def charOf? (codePoint : Nat) : Option Char :=
  if Nat.isValidChar codePoint then some (Char.ofNat codePoint) else none

/-- What the text behind a backslash stands for, with the number of characters it takes. -/
def escaped? : List Char → Option (Char × Nat)
  | 'b' :: _ => some ('\x08', 1)
  | 't' :: _ => some ('\t', 1)
  | 'n' :: _ => some ('\n', 1)
  | 'f' :: _ => some ('\x0c', 1)
  | 'r' :: _ => some ('\r', 1)
  | 'e' :: _ => some ('\x1b', 1)
  | '"' :: _ => some ('"', 1)
  | '\\' :: _ => some ('\\', 1)
  | mark :: rest =>
    let width := if mark = 'x' then 2 else if mark = 'u' then 4 else if mark = 'U' then 8 else 0
    if width = 0 ∨ rest.length < width then none
    else do
      let c ← charOf? (← hex? (rest.take width))
      some (c, width + 1)
  | [] => none

/-- Read a string of one line between double quotes, behind the first quote. -/
def basicString (text : List Char) : Option (List Char × List Char) :=
  match text with
  | [] => none
  | c :: rest =>
    if c = '"' then some ([], rest)
    else if isLineEnd c then none
    else if c = '\\' then
      match escaped? rest with
      | none => none
      | some (e, taken) =>
        (basicString (rest.drop taken)).map fun (content, rest) => (e :: content, rest)
    else (basicString rest).map fun (content, rest) => (c :: content, rest)
termination_by text.length
decreasing_by all_goals simp only [List.length_cons, List.length_drop]; omega

/-- Read a string of one line between single quotes, behind the first quote. -/
def literalString : List Char → Option (List Char × List Char)
  | [] => none
  | c :: rest =>
    if c = '\'' then some ([], rest)
    else if isLineEnd c then none
    else (literalString rest).map fun (content, rest) => (c :: content, rest)

/-- Whether a backslash ends a line: only blanks come before the line end. -/
def isContinuation (text : List Char) : Bool :=
  (skipBlanks text).head?.any isLineEnd

/-- The largest number of quotes in a row at the end of a string of several lines. -/
def quoteLimit : Nat := 5

/-- Read a string of several lines behind its opening quotes. Three quotes end it, and more of them
before the end belong to the string, up to a limit. Right behind an escaped backslash the limit is
higher by one. -/
def longString (quote : Char) (limit : Nat) (text : List Char) :
    Option (List Char × List Char) :=
  match text with
  | [] => none
  | c :: rest =>
    if c = quote then
      let quotes := (c :: rest).takeWhile (· = quote)
      if quotes.length < 3 then
        (longString quote quoteLimit rest).map fun (content, rest) => (c :: content, rest)
      else if limit < quotes.length then none
      else some (quotes.drop 3, (c :: rest).drop quotes.length)
    else if c = '\\' ∧ quote = '"' then
      if isContinuation rest then
        longString quote quoteLimit (rest.dropWhile fun c => isBlank c || isLineEnd c)
      else match escaped? rest with
        | none => none
        | some (e, taken) =>
          let limit := if rest.head? = some '\\' then quoteLimit + 1 else quoteLimit
          (longString quote limit (rest.drop taken)).map fun (content, rest) => (e :: content, rest)
    else (longString quote quoteLimit rest).map fun (content, rest) => (c :: content, rest)
termination_by text.length
decreasing_by
  all_goals simp only [List.length_cons, List.length_drop]
  all_goals try omega
  exact Nat.lt_succ_of_le (List.dropWhile_sublist _).length_le

/-- The text behind a line end at its front. -/
def dropLineEnd : List Char → List Char
  | '\r' :: '\n' :: rest => rest
  | '\n' :: rest => rest
  | text => text

/-- Read a string behind its first quote. -/
def string? (quote : Char) : List Char → Option (List Char × List Char)
  | a :: b :: rest =>
    if a = quote ∧ b = quote then longString quote quoteLimit (dropLineEnd rest)
    else if quote = '"' then basicString (a :: b :: rest)
    else literalString (a :: b :: rest)
  | text => if quote = '"' then basicString text else literalString text

/-! ### Keys -/

/-- Characters of a key without quotes. -/
def isKeyChar (c : Char) : Bool :=
  c.isAlphanum || c == '_' || c == '-'

/-- Read one part of a key. -/
def keyPart : List Char → Option (String × List Char)
  | [] => none
  | c :: rest =>
    if c = '"' then (basicString rest).map fun (content, rest) => (String.ofList content, rest)
    else if c = '\'' then
      (literalString rest).map fun (content, rest) => (String.ofList content, rest)
    else
      let name := (c :: rest).takeWhile isKeyChar
      if name.isEmpty then none else some (String.ofList name, (c :: rest).drop name.length)

/-- Read a key: parts with points between them, and blanks around. -/
def key : Nat → List Char → Option (Key × List Char)
  | 0, _ => none
  | steps + 1, text => do
    let (first, rest) ← keyPart (skipBlanks text)
    match skipBlanks rest with
    | '.' :: rest =>
      let (more, rest) ← key steps rest
      some (first :: more, rest)
    | rest => some ([first], rest)

/-! ### Values -/

/-- Characters of a bare word in the place of a value. -/
def isWordChar (c : Char) : Bool :=
  c.isAlphanum || c == '_' || c == '+' || c == '-' || c == '.' || c == ':'

/-- A bare word at the front of a text. Behind a date, a time may follow after one space. -/
def bareWord (text : List Char) : List Char :=
  let first := text.takeWhile isWordChar
  match date? first, text.drop first.length with
  | some [], ' ' :: rest =>
    let second := rest.takeWhile isWordChar
    if second.head?.any Char.isDigit then first ++ ' ' :: second else first
  | _, _ => first

mutual

/-- Read a value. The first argument bounds the number of steps. -/
def value : Nat → List Char → Option (Value × List Char)
  | 0, _ => none
  | _ + 1, [] => none
  | steps + 1, c :: rest =>
    if c = '"' ∨ c = '\'' then
      (string? c rest).map fun (content, rest) => (.text (String.ofList content), rest)
    else if c = '[' then do
      let (items, rest) ← arrayItems steps (skipSpace false rest)
      some (.array items, rest)
    else if c = '\x7b' then do
      let (entries, rest) ← tableEntries steps (skipSpace false rest)
      some (.table entries, rest)
    else do
      let word := bareWord (c :: rest)
      let rest := (c :: rest).drop word.length
      match ← word? word with
      | .integer n => some (.integer n, rest)
      | .other => some (.scalar, rest)

/-- Read the items of an array up to its closing bracket. -/
def arrayItems : Nat → List Char → Option (List Value × List Char)
  | 0, _ => none
  | _ + 1, ']' :: rest => some ([], rest)
  | steps + 1, text => do
    let (item, rest) ← value steps text
    match skipSpace false rest with
    | ',' :: rest =>
      let (more, rest) ← arrayItems steps (skipSpace false rest)
      some (item :: more, rest)
    | ']' :: rest => some ([item], rest)
    | _ => none

/-- Read the entries of a table in braces up to the closing one. -/
def tableEntries : Nat → List Char → Option (List (Key × Value) × List Char)
  | 0, _ => none
  | _ + 1, '\x7d' :: rest => some ([], rest)
  | steps + 1, text => do
    let (name, rest) ← key text.length text
    match rest with
    | '=' :: rest =>
      let (item, rest) ← value steps (skipBlanks rest)
      match skipSpace false rest with
      | ',' :: rest =>
        let (more, rest) ← tableEntries steps (skipSpace false rest)
        some ((name, item) :: more, rest)
      | '\x7d' :: rest => some ([(name, item)], rest)
      | _ => none
    | _ => none

end

/-! ### Lines -/

/-- Read a line that is not empty. -/
def line (text : List Char) : Option (Line × List Char) :=
  match text with
  | '[' :: '[' :: rest => do
    let (name, rest) ← key text.length rest
    match rest with
    | ']' :: ']' :: rest => some (.tables name, rest)
    | _ => none
  | '[' :: rest => do
    let (name, rest) ← key text.length rest
    match rest with
    | ']' :: rest => some (.table name, rest)
    | _ => none
  | _ => do
    let (name, rest) ← key text.length text
    match rest with
    | '=' :: rest =>
      let (item, rest) ← value text.length (skipBlanks rest)
      some (.entry name item, rest)
    | _ => none

/-- Read all lines. The first argument bounds their number. -/
def lines : Nat → List Char → Option (List Line)
  | 0, _ => none
  | steps + 1, text =>
    match skipSpace false text with
    | [] => some []
    | text => do
      let (first, rest) ← line text
      let more ← lines steps (← lineEnd? rest)
      some (first :: more)

/-- The bytes behind a mark of byte order. -/
def dropByteOrderMark : List UInt8 → List UInt8
  | 0xFF :: 0xFE :: rest => rest
  | 0xFE :: 0xFF :: rest => rest
  | 0xEF :: 0xBB :: 0xBF :: rest => rest
  | content => content

/-- The lines of a settings file. -/
def lines? (content : List UInt8) : Option (List Line) := do
  let text := (← String.fromUTF8? ⟨(dropByteOrderMark content).toArray⟩).toList
  if isClean text then lines (text.length + 1) text else none

end Garnet.Toml
