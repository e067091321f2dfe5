import Ambient.Reading.Loop
import Ambient.Toml.Atom
import Ambient.Toml.Tree

/-!
# Reading TOML

A document is a sequence of lines: table headers, and values under dotted keys.
Reading tells only whether a text is a document, and what it says. Arrays and
inline tables may be nested to a fixed depth, which bounds the recursion.
-/

namespace Ambient.Toml

open Reading

abbrev Parser := StateT (List Char) Option

namespace Parser

/-! ## Blanks, comments and line ends -/

/-- Characters that text on one line may hold. -/
def isText (c : Char) : Bool :=
  c == '\t' || (0x20 ≤ c.toNat && c.toNat != 0x7F)

def isBlank (c : Char) : Bool := c == ' ' || c == '\t'

def blanks : Parser Unit := do
  let _ ← takeWhile isBlank

/-- A line feed, which a carriage return may precede. -/
def lineEnd? : Parser Bool := do
  if ← accept ['\n'] then return true else accept ['\r', '\n']

def comment : Parser Unit := do
  if ← accept ['#'] then
    let _ ← takeWhile isText

/-- Blanks, comments and line ends. -/
def space : Parser Unit :=
  iterate (fun _ => do
    blanks
    comment
    if ← lineEnd? then return some () else return none) ()

def expect (word : List Char) : Parser Unit := do
  if ! (← accept word) then failure

/-! ## Strings -/

/-- The character with a code point of `count` hexadecimal digits. -/
def codePoint (count : Nat) : Parser Char := do
  let digits := (← get).take count
  if digits.length = count && digits.all Text.isHexDigit then
    modify (·.drop count)
    let n := Text.numberOf 16 digits
    if n.isValidChar then return Char.ofNat n else failure
  else failure

/-- What follows a backslash. -/
def escape : Parser Char := do
  let c ← peek
  advance
  match c with
  | some 'b' => return '\x08'
  | some 't' => return '\t'
  | some 'n' => return '\n'
  | some 'f' => return '\x0C'
  | some 'r' => return '\r'
  | some 'e' => return '\x1B'
  | some '"' => return '"'
  | some '\\' => return '\\'
  | some 'x' => codePoint 2
  | some 'u' => codePoint 4
  | some 'U' => codePoint 8
  | _ => failure

/-- Reads units until there is none left; characters come last first on the way. -/
def units (unit : Parser (Option (List Char))) : Parser String := do
  let read ← iterate (fun read => do
    match ← unit with
    | none => return none
    | some cs => return some (cs.reverse ++ read)) []
  return String.ofList read.reverse

/-- One character of a string, as it stands. -/
def textChar : Parser (List Char) := do
  match ← peek with
  | some c =>
    if isText c then
      advance
      return [c]
    else failure
  | none => failure

/-- What a string on one line is made of, between double quotes. -/
def basicUnit : Parser (Option (List Char)) := do
  match ← peek with
  | some '"' => return none
  | some '\\' =>
    advance
    return some [← escape]
  | _ => some <$> textChar

def literalUnit : Parser (Option (List Char)) := do
  if (← peek) = some '\'' then return none else some <$> textChar

/-- Up to two quotes in a row belong to the text; more of them end it. -/
def quotes (quote : Char) : Parser (Option (List Char)) := do
  let run := (← get).takeWhile (· == quote)
  if run.length < 3 then
    modify (·.drop run.length)
    return some run
  else return none

/-- The end of a string over several lines: three quotes, and before them up to two more that
belong to the text. -/
def closingQuotes (quote : Char) : Parser String := do
  let count := min ((← get).takeWhile (· == quote)).length 5
  if count < 3 then failure
  modify (·.drop count)
  return String.ofList (List.replicate (count - 3) quote)

/-- A backslash at the end of a line: the line end goes, with all blanks and line ends after it. -/
def joinedLines : Parser Bool := do
  let text ← get
  blanks
  if ← lineEnd? then
    iterate (fun _ => do
      blanks
      if ← lineEnd? then return some () else return none) ()
    return true
  else
    set text
    return false

/-- One character of a string over several lines, or a line end as it stands. -/
def blockChar : Parser (List Char) := do
  if ← accept ['\n'] then return ['\n']
  else if ← accept ['\r', '\n'] then return ['\r', '\n']
  else textChar

/-- What a string over several lines is made of, between double quotes. -/
def basicBlockUnit : Parser (Option (List Char)) := do
  match ← peek with
  | some '"' => quotes '"'
  | some '\\' =>
    advance
    if ← joinedLines then return some [] else return some [← escape]
  | _ => some <$> blockChar

def literalBlockUnit : Parser (Option (List Char)) := do
  if (← peek) = some '\'' then quotes '\'' else some <$> blockChar

/-- A string between single quotes or double quotes, on one line. -/
def string : Parser String := do
  if ← accept ['"'] then
    let text ← units basicUnit
    expect ['"']
    return text
  else
    expect ['\'']
    let text ← units literalUnit
    expect ['\'']
    return text

/-- A string between three quotes of one kind. A line end at its beginning is left out. -/
def block (quote : Char) (unit : Parser (Option (List Char))) : Parser String := do
  let _ ← lineEnd?
  let text ← units unit
  return text ++ (← closingQuotes quote)

/-! ## Keys -/

def isBareKeyChar (c : Char) : Bool :=
  c.isAlphanum || c == '_' || c == '-'

def simpleKey : Parser String := do
  match ← peek with
  | some '"' | some '\'' => string
  | _ =>
    let cs ← takeWhile isBareKeyChar
    if cs.isEmpty then failure else return String.ofList cs

/-- A dotted key holds no more keys than this. -/
def maxKeys : Nat := 80

/-- A dotted key: the path to a table and the key in it. -/
def dottedKey : Parser (List String × String) := do
  let first ← simpleKey
  iterate (fun (path, key) => do
    let text ← get
    blanks
    if ← accept ['.'] then
      blanks
      let path := path ++ [key]
      if path.length = maxKeys then failure
      return some (path, ← simpleKey)
    else
      set text
      return none) ([], first)

/-! ## Values -/

/-- A word goes on up to a blank, a line end, a comment, or a mark of punctuation. -/
def isWordChar (c : Char) : Bool :=
  ! [' ', '\t', '\r', '\n', '#', ',', '=', '[', ']', '{', '}'].contains c

/-- Blanks and the word that follows them, if there is one. A point or a quote begins no word. -/
def wordAfterBlanks : Parser (List Char) := do
  let text ← get
  let gap ← takeWhile isBlank
  let word ← takeWhile isWordChar
  if word.head?.all fun c => c == '.' || c == '"' || c == '\'' then
    set text
    return []
  else return gap ++ word

/-- An atom is taken with all words that follow on its line. -/
def atom : Parser Value := do
  let first ← takeWhile isWordChar
  let words ← iterate (fun words => do
    match ← wordAfterBlanks with
    | [] => return none
    | word => return some (word :: words)) [first]
  StateT.lift (Atom.value? words.reverse.flatten)

/-- The items of an array after its opening bracket. -/
def arrayItems (value : Parser Value) : Parser (List Value) := do
  let (items, _) ← iterate (fun (items, isOpen) => do
    space
    if ! isOpen || (← peek) == some ']' then return none
    let item ← value
    space
    return some (item :: items, ← accept [','])) ([], true)
  expect [']']
  return items.reverse

/-- The members of an inline table after its opening brace. Lines may end everywhere in it but
inside a key. -/
def inlineMembers (value : Parser Value) : Parser Members := do
  let (members, _) ← iterate (fun ((members : Members), isOpen) => do
    space
    if ! isOpen || (← peek) == some '}' then return none
    let (path, key) ← dottedKey
    space
    expect ['=']
    space
    let item ← value
    let members ← StateT.lift (members.define path key item)
    space
    return some (members, ← accept [','])) ([], true)
  expect ['}']
  return members

/-- A value in which at most `depth` brackets are open at a time. -/
def value : (depth : Nat) → Parser Value := fun depth => do
  match ← peek with
  | some '"' =>
    if ← accept ['"', '"', '"'] then .text <$> block '"' basicBlockUnit else .text <$> string
  | some '\'' =>
    if ← accept ['\'', '\'', '\''] then .text <$> block '\'' literalBlockUnit
    else .text <$> string
  | some '[' =>
    match depth with
    | 0 => failure
    | depth + 1 =>
      advance
      .array <$> arrayItems (value depth)
  | some '{' =>
    match depth with
    | 0 => failure
    | depth + 1 =>
      advance
      return .table (Node.membersToValues (← inlineMembers (value depth)))
  | _ => atom

/-- How deep arrays and inline tables may be nested. -/
def maxDepth : Nat := 80

/-! ## Lines -/

/-- A table header, or a value under a key; nothing on a line without either. -/
def statement (document : Document) : Parser Document := do
  match ← peek with
  | some '[' =>
    advance
    let isItem ← accept ['[']
    blanks
    let (path, key) ← dottedKey
    blanks
    expect (if isItem then [']', ']'] else [']'])
    StateT.lift (document.openSection path key isItem)
  | some c =>
    if c == '#' || c == '\n' || c == '\r' then return document
    else
      let (path, key) ← dottedKey
      blanks
      expect ['=']
      blanks
      let v ← value maxDepth
      StateT.lift (document.define path key v)
  | none => return document

/-- One line, and whether another one follows. -/
def line (document : Document) : Parser (Document × Bool) := do
  blanks
  let document ← statement document
  blanks
  comment
  return (document, ← lineEnd?)

/-- All lines; nothing may be left after the last one. -/
def lines : Parser Document := do
  let _ ← accept ['\uFEFF']
  let (document, _) ← iterate (fun ((document : Document), hasNext) => do
    if hasNext then return some (← line document) else return none) ({}, true)
  if (← get).isEmpty then return document else failure

end Parser

/-- The members of the root table of a document, if the text is one. -/
def read? (content : String) : Option (List (String × Value)) := do
  let (document, _) ← Parser.lines.run content.toList
  let root ← document.finish
  return Node.membersToValues root

end Ambient.Toml
