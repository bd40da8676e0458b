import CommandWire.Bytes

/-!
# Tokens of TOML documents

A document is cut into tokens: words, texts in quotes, and marks. Blanks and comments separate
tokens and leave nothing behind; the end of a line is a token. The four kinds of quotes are
resolved here, so that a text token holds what the quotes stand for; only texts on one line may
serve as keys, so these are told apart from texts on several lines.
-/

namespace CommandWire.Toml

/-- The smallest unit of a document. -/
inductive Token where
  /-- A run of letters, digits, underscores and signs. -/
  | word (letters : String)
  /-- A text in single quotes or in double quotes. -/
  | text (content : String)
  /-- A text in three quotes. -/
  | block (content : String)
  | dot
  | equals
  | comma
  | openBracket
  | closeBracket
  | openBrace
  | closeBrace
  | newline
deriving DecidableEq

/-! ### Characters -/

/-- May be part of a word. -/
def isWordChar (c : Char) : Bool := c.isAlphanum || c = '_' || c = '-' || c = '+'

/-- May stand in quotes and comments as it is. -/
def isPlain (c : Char) : Bool := c = '\t' || 32 ≤ c.toNat && c.toNat ≠ 127

/-- The token that a single character is. -/
def mark? (c : Char) : Option Token :=
  if c = '.' then some .dot
  else if c = '=' then some .equals
  else if c = ',' then some .comma
  else if c = '[' then some .openBracket
  else if c = ']' then some .closeBracket
  else if c = '{' then some .openBrace
  else if c = '}' then some .closeBrace
  else none

/-- The character that a letter after a backslash stands for. -/
def escaped? (c : Char) : Option Char :=
  if c = 'b' then some (Char.ofNat 8)
  else if c = 't' then some '\t'
  else if c = 'n' then some '\n'
  else if c = 'f' then some (Char.ofNat 12)
  else if c = 'r' then some '\r'
  else if c = '"' then some '"'
  else if c = '\\' then some '\\'
  else none

/-- The value of a digit in a base up to sixteen. -/
def digit? (base : Nat) (c : Char) : Option Nat := (Bytes.hexDigit? c).filter (· < base)

/-- The character with a code point written in hexadecimal digits. -/
def codePoint? (digits : List Char) : Option Char := do
  let n ← digits.foldlM (fun n c => (digit? 16 c).map (16 * n + ·)) 0
  if n.isValidChar then some (Char.ofNat n) else none

/-! ### Cutting -/

/-- What the characters at hand belong to. Letters taken so far are kept in reverse. -/
inductive Mode where
  | between
  | word (taken : List Char)
  | comment
  /-- Within single quotes. -/
  | literal (taken : List Char)
  /-- Within double quotes. -/
  | quoted (taken : List Char)
  /-- Within three single quotes. -/
  | literalBlock (taken : List Char)
  /-- Within three double quotes. -/
  | quotedBlock (taken : List Char)
  /-- Within three double quotes, after a backslash at the end of a line. -/
  | joining (taken : List Char)

/-- The text whose letters are kept in reverse. -/
def textOf (taken : List Char) : String := .ofList taken.reverse

/-- The line ends here, up to blanks. -/
def endsLine (cs : List Char) : Bool :=
  match cs.dropWhile fun c => c = ' ' || c = '\t' with
  | '\n' :: _ => true
  | '\r' :: '\n' :: _ => true
  | _ => false

/-- The tokens of the characters, or none if some do not fit. A new line right after three opening
quotes does not belong to the text; up to two quotes right before three closing ones do. -/
def tokens : Mode → List Char → Option (List Token)
  | .between, cs =>
    match cs with
    | [] => some []
    | '\r' :: '\n' :: cs => (tokens .between cs).map (.newline :: ·)
    | '\'' :: '\'' :: '\'' :: '\r' :: '\n' :: cs => tokens (.literalBlock []) cs
    | '\'' :: '\'' :: '\'' :: '\n' :: cs => tokens (.literalBlock []) cs
    | '\'' :: '\'' :: '\'' :: cs => tokens (.literalBlock []) cs
    | '"' :: '"' :: '"' :: '\r' :: '\n' :: cs => tokens (.quotedBlock []) cs
    | '"' :: '"' :: '"' :: '\n' :: cs => tokens (.quotedBlock []) cs
    | '"' :: '"' :: '"' :: cs => tokens (.quotedBlock []) cs
    | c :: cs =>
      if c = ' ' || c = '\t' then tokens .between cs
      else if c = '\n' then (tokens .between cs).map (.newline :: ·)
      else if c = '#' then tokens .comment cs
      else if c = '\'' then tokens (.literal []) cs
      else if c = '"' then tokens (.quoted []) cs
      else if isWordChar c then tokens (.word [c]) cs
      else
        match mark? c with
        | some token => (tokens .between cs).map (token :: ·)
        | none => none
  | .word taken, cs =>
    match cs with
    | [] => some [.word (textOf taken)]
    | c :: rest =>
      if isWordChar c then tokens (.word (c :: taken)) rest
      else (tokens .between (c :: rest)).map (.word (textOf taken) :: ·)
  | .comment, cs =>
    match cs with
    | [] => some []
    | '\r' :: '\n' :: cs => (tokens .between cs).map (.newline :: ·)
    | c :: cs =>
      if c = '\n' then (tokens .between cs).map (.newline :: ·)
      else if isPlain c then tokens .comment cs
      else none
  | .literal taken, cs =>
    match cs with
    | [] => none
    | c :: cs =>
      if c = '\'' then (tokens .between cs).map (.text (textOf taken) :: ·)
      else if isPlain c then tokens (.literal (c :: taken)) cs
      else none
  | .quoted taken, cs =>
    match cs with
    | [] => none
    | '\\' :: 'u' :: a :: b :: c :: d :: cs =>
      (codePoint? [a, b, c, d]).bind fun letter => tokens (.quoted (letter :: taken)) cs
    | '\\' :: 'U' :: a :: b :: c :: d :: e :: f :: g :: h :: cs =>
      (codePoint? [a, b, c, d, e, f, g, h]).bind fun letter =>
        tokens (.quoted (letter :: taken)) cs
    | '\\' :: c :: cs =>
      (escaped? c).bind fun letter => tokens (.quoted (letter :: taken)) cs
    | c :: cs =>
      if c = '"' then (tokens .between cs).map (.text (textOf taken) :: ·)
      else if isPlain c && c ≠ '\\' then tokens (.quoted (c :: taken)) cs
      else none
  | .literalBlock taken, cs =>
    match cs with
    | [] => none
    | '\'' :: '\'' :: '\'' :: '\'' :: '\'' :: cs =>
      (tokens .between cs).map (.block (textOf ('\'' :: '\'' :: taken)) :: ·)
    | '\'' :: '\'' :: '\'' :: '\'' :: cs =>
      (tokens .between cs).map (.block (textOf ('\'' :: taken)) :: ·)
    | '\'' :: '\'' :: '\'' :: cs => (tokens .between cs).map (.block (textOf taken) :: ·)
    | '\r' :: '\n' :: cs => tokens (.literalBlock ('\n' :: taken)) cs
    | c :: cs => if isPlain c || c = '\n' then tokens (.literalBlock (c :: taken)) cs else none
  | .quotedBlock taken, cs =>
    match cs with
    | [] => none
    | '"' :: '"' :: '"' :: '"' :: '"' :: cs =>
      (tokens .between cs).map (.block (textOf ('"' :: '"' :: taken)) :: ·)
    | '"' :: '"' :: '"' :: '"' :: cs =>
      (tokens .between cs).map (.block (textOf ('"' :: taken)) :: ·)
    | '"' :: '"' :: '"' :: cs => (tokens .between cs).map (.block (textOf taken) :: ·)
    | '\\' :: 'u' :: a :: b :: c :: d :: cs =>
      (codePoint? [a, b, c, d]).bind fun letter => tokens (.quotedBlock (letter :: taken)) cs
    | '\\' :: 'U' :: a :: b :: c :: d :: e :: f :: g :: h :: cs =>
      (codePoint? [a, b, c, d, e, f, g, h]).bind fun letter =>
        tokens (.quotedBlock (letter :: taken)) cs
    | '\\' :: c :: cs =>
      match escaped? c with
      | some letter => tokens (.quotedBlock (letter :: taken)) cs
      | none => if endsLine (c :: cs) then tokens (.joining taken) (c :: cs) else none
    | '\r' :: '\n' :: cs => tokens (.quotedBlock ('\n' :: taken)) cs
    | c :: cs =>
      if (isPlain c || c = '\n') && c ≠ '\\' then tokens (.quotedBlock (c :: taken)) cs else none
  | .joining taken, cs =>
    match cs with
    | '\r' :: '\n' :: cs => tokens (.joining taken) cs
    | ' ' :: cs => tokens (.joining taken) cs
    | '\t' :: cs => tokens (.joining taken) cs
    | '\n' :: cs => tokens (.joining taken) cs
    | cs => tokens (.quotedBlock taken) cs
termination_by mode cs => (cs.length, match mode with | .word _ | .joining _ => 1 | _ => 0)

end CommandWire.Toml
