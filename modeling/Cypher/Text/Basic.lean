/-!
# Texts

Texts as lists of characters: blank ones, those that are collapsed in a query, quoted ones, and truth
values written as words.
-/

namespace Cypher.Text

/-! ## Blank characters

The characters with the Unicode property `White_Space`, and the three operations that depend on
them: trimming a text, splitting it into words, and telling whether it is blank altogether. -/

/-- The 25 characters with the Unicode property `White_Space`. -/
def isBlank (c : Char) : Bool :=
  let n := c.toNat
  (0x9 ≤ n && n ≤ 0xD) || n == 0x20 || n == 0x85 || n == 0xA0 || n == 0x1680 ||
    (0x2000 ≤ n && n ≤ 0x200A) || n == 0x2028 || n == 0x2029 || n == 0x202F || n == 0x205F ||
    n == 0x3000

def trimStart (cs : List Char) : List Char := cs.dropWhile isBlank

def trimEnd (cs : List Char) : List Char := (cs.reverse.dropWhile isBlank).reverse

def trim (cs : List Char) : List Char := trimEnd (trimStart cs)

def trimmed (s : String) : String := String.ofList (trim s.toList)

/-- The pieces between single blank characters; neighbouring blanks leave empty pieces. -/
def splitAtBlanks (cs : List Char) : List (List Char) :=
  cs.foldr
    (fun c pieces =>
      if isBlank c then [] :: pieces
      else match pieces with
        | [] => [[c]]
        | piece :: rest => (c :: piece) :: rest)
    [[]]

/-- The words of a text: its non-empty pieces between blank characters. -/
def words (cs : List Char) : List (List Char) :=
  (splitAtBlanks cs).filter fun piece => !piece.isEmpty

/-- ASCII letters in lower case, every other character as it is. -/
def lowered (cs : List Char) : List Char := cs.map Char.toLower

/-- ASCII letters in upper case, every other character as it is. -/
def uppered (cs : List Char) : List Char := cs.map Char.toUpper

@[simp] theorem isBlank_space : isBlank ' ' = true := by decide

@[simp] theorem toList_trimmed (s : String) : (trimmed s).toList = trim s.toList := by
  simp [trimmed]

/-! ## Collapsing blank runs

Every run of two or more blank characters becomes one space; a blank character that stands alone
is kept as it is, whatever its kind. -/

/-- Puts a character in front of a collapsed text: two blanks that meet become one space. -/
def settle (c : Char) : List Char → List Char
  | [] => [c]
  | d :: rest => if isBlank c && isBlank d then ' ' :: rest else c :: d :: rest

/-- Replaces each run of two or more blank characters by one space. -/
def collapse (cs : List Char) : List Char := cs.foldr settle []

@[simp] theorem collapse_nil : collapse [] = [] := rfl

@[simp] theorem collapse_cons (c : Char) (cs : List Char) :
    collapse (c :: cs) = settle c (collapse cs) := rfl

/-! ## Quoted literals

A text in single quotes, in which a backslash makes the next character literal. Writing escapes
the backslash and the quote and nothing else; reading stops at the first quote that is not escaped. -/

def escapeQuoted (c : Char) : List Char :=
  if c = '\\' ∨ c = '\'' then ['\\', c] else [c]

def quote (cs : List Char) : List Char := '\'' :: (cs.flatMap escapeQuoted ++ ['\''])

def quoted (s : String) : String := String.ofList (quote s.toList)

/-- Reads the rest of a literal whose opening quote is gone: its text, and what follows it. -/
def readQuotedBody : List Char → Option (List Char × List Char)
  | [] => none
  | '\'' :: rest => some ([], rest)
  | '\\' :: c :: rest => (readQuotedBody rest).map fun (text, after) => (c :: text, after)
  | c :: rest => (readQuotedBody rest).map fun (text, after) => (c :: text, after)

/-- Reads a literal in single quotes: its text, and what follows it. -/
def readQuoted : List Char → Option (List Char × List Char)
  | '\'' :: rest => readQuotedBody rest
  | _ => none

@[simp] theorem toList_quoted (s : String) : (quoted s).toList = quote s.toList := by
  simp [quoted]

/-! ## Truth values as text

A truth value is written as `true` or `false`. Reading also takes a digit or a word of agreement, in
any case of its letters and with blanks at its ends. -/

def flagText (flag : Bool) : String := if flag then "true" else "false"

def flagOfText? (s : String) : Option Bool :=
  let word := String.ofList (lowered (trim s.toList))
  if word ∈ ["true", "1", "yes"] then some true
  else if word ∈ ["false", "0", "no"] then some false
  else none

end Cypher.Text
