import Cypher.Decimal.Numeral

/-!
# JSON documents

JSON documents as trees, and their compact text. A string may be spelled with an escape that denotes
half of a surrogate pair alone; no text corresponds to such a string, and the tree keeps only that
fact. Members of an object keep their order, and names may repeat.
-/

namespace Cypher

inductive Json where
  | null
  | bool (flag : Bool)
  | number (numeral : Decimal.Numeral)
  /-- A string; `none` if an escape in it denotes half of a surrogate pair alone. -/
  | string (text : Option String)
  | array (items : List Json)
  /-- The members in order; a name may be broken like a string. -/
  | object (members : List (Option String × Json))

instance : Inhabited Json := ⟨.null⟩

namespace Json

/-- The hexadecimal digit of a number below sixteen, in lower case. -/
def hexDigit (n : Nat) : Char := Nat.digitChar n

def escapeChar (c : Char) : List Char :=
  if c = '"' then ['\\', '"']
  else if c = '\\' then ['\\', '\\']
  else if c = '\x08' then ['\\', 'b']
  else if c = '\t' then ['\\', 't']
  else if c = '\n' then ['\\', 'n']
  else if c = '\x0c' then ['\\', 'f']
  else if c = '\r' then ['\\', 'r']
  else if c.toNat < 0x20 then
    ['\\', 'u', '0', '0', hexDigit (c.toNat / 16), hexDigit (c.toNat % 16)]
  else [c]

/-- The text of a string, quoted. A string that no text corresponds to is written as half of a
surrogate pair. -/
def stringText : Option String → List Char
  | some s => '"' :: (s.toList.flatMap escapeChar ++ ['"'])
  | none => "\"\\ud800\"".toList

mutual

def compact : Json → List Char
  | .null => "null".toList
  | .bool true => "true".toList
  | .bool false => "false".toList
  | .number n => n.text true
  | .string s => stringText s
  | .array items => '[' :: ([','].intercalate (compactItems items) ++ [']'])
  | .object members => '\x7b' :: ([','].intercalate (compactMembers members) ++ ['\x7d'])

def compactItems : List Json → List (List Char)
  | [] => []
  | item :: rest => compact item :: compactItems rest

def compactMembers : List (Option String × Json) → List (List Char)
  | [] => []
  | (name, value) :: rest => (stringText name ++ ':' :: compact value) :: compactMembers rest

end

def text (document : Json) : String := String.ofList document.compact

def ofInt64 (n : Int64) : Json := .number (Decimal.Numeral.ofInt n.toInt)

def ofString (s : String) : Json := .string (some s)

def ofMembers (members : List (String × Json)) : Json :=
  .object (members.map fun (name, value) => (some name, value))

end Json

end Cypher

/-! ## Members of JSON objects

Looking up the members of an object by name, and the conditions under which an object can stand for
a structure with named fields: every name is a text, and no field occurs twice. Other members are
allowed and ignored. -/

namespace Cypher.Json

abbrev Members := List (Option String × Json)

def member? (members : Members) (name : String) : Option Json := members.lookup (some name)

def occurrences (members : Members) (name : String) : Nat :=
  members.countP fun member => member.1 == some name

/-- Whether the members can stand for a structure with the given fields: every name is a text, and
no field occurs twice. -/
def fitsFields (fields : List String) (members : Members) : Bool :=
  members.all (·.1.isSome) && fields.all fun field => decide (occurrences members field ≤ 1)

mutual

/-- Whether a document can be held in memory: its strings and names are texts, its numbers are not
too large, and its containers are nested at most so many levels deep. -/
def isSound : Nat → Json → Bool
  | _, .null => true
  | _, .bool _ => true
  | _, .number n => n.toBinary64?.isSome
  | _, .string s => s.isSome
  | 0, .array _ => false
  | levels + 1, .array items => itemsSound levels items
  | 0, .object _ => false
  | levels + 1, .object members => membersSound levels members

def itemsSound : Nat → List Json → Bool
  | _, [] => true
  | levels, item :: rest => isSound levels item && itemsSound levels rest

def membersSound : Nat → Members → Bool
  | _, [] => true
  | levels, (name, value) :: rest =>
    name.isSome && isSound levels value && membersSound levels rest

end

/-- Where a document is read from: straight from the text, with so many levels of containers left
that may be opened, or from memory, where it was put only after it was found sound. -/
inductive Source where
  | text (levels : Nat)
  | memory
deriving DecidableEq, Repr

namespace Source

/-- The nesting that a text may have. -/
def levelLimit : Nat := 127

def wholeText : Source := .text levelLimit

/-- The source inside a container, if one may be opened. -/
def enter? : Source → Option Source
  | .text 0 => none
  | .text (levels + 1) => some (.text levels)
  | .memory => some .memory

def canHold : Source → Json → Bool
  | .text levels, document => isSound levels document
  | .memory, _ => true

end Source

def asString? : Json → Option String
  | .string s => s
  | _ => none

def asBool? : Json → Option Bool
  | .bool flag => some flag
  | _ => none

def asInt64? : Json → Option Int64
  | .number n => n.toInt64?
  | _ => none

end Cypher.Json
