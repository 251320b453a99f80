import Cypher.Decimal.Numeral
import Cypher.Text.Basic
import Cypher.Text.Shown

/-!
# Connection settings

What is needed to open a session with the database, resolved from variables that may be set or
missing. A missing variable leaves its setting at the default. The first check that fails decides the
error, in the order port, encryption, laziness, host.
-/

namespace Cypher

/-- Settings needed to open a session. -/
structure Settings where
  host : String
  port : UInt16
  username : String
  password : String
  encrypted : Bool
  clientName : String
  /-- Whether rows are fetched only when they are consumed. -/
  lazy : Bool
deriving DecidableEq, Repr

inductive SettingsError where
  | emptyHost
  /-- A text that is no port, as it was given. -/
  | invalidPort (text : String)
  /-- A text that is no truth value, as it was given, and the variable that held it. -/
  | invalidFlag (name text : String)
deriving DecidableEq, Repr

def SettingsError.message : SettingsError → String
  | .emptyHost => "MG_HOST cannot be empty"
  | .invalidPort text => "MG_PORT must be a port in 1..=65535, got `" ++ text ++ "`"
  | .invalidFlag name text => name ++ " must be true|false|1|0|yes|no, got `" ++ text ++ "`"

/-- The port that a text spells: a number from 1 to 65535 in decimal digits, which may have a plus
sign and leading zeros, and blanks at its ends. -/
def portOfText? (s : String) : Option UInt16 :=
  let cs := Text.trim s.toList
  let ds := match cs with
    | '+' :: rest => rest
    | cs => cs
  if ds.isEmpty || !ds.all Char.isDigit then none
  else
    let n := Decimal.valueOf ds
    if 1 ≤ n ∧ n ≤ 65535 then some (UInt16.ofNat n) else none

namespace Settings

/-- The settings of a server on this machine. -/
def default : Settings where
  host := "127.0.0.1"
  port := 7687
  username := ""
  password := ""
  encrypted := false
  clientName := "GQLAlchemy"
  lazy := false

instance : Inhabited Settings := ⟨default⟩

def validate (s : Settings) : Except SettingsError Unit :=
  if (Text.trim s.host.toList).isEmpty then .error .emptyHost
  else if s.port = 0 then .error (.invalidPort "0")
  else .ok ()

/-- A setting read from its variable, or the default if the variable is missing. -/
def readOr {α : Type} (value : Option String) (fallback : α)
    (read : String → Except SettingsError α) : Except SettingsError α :=
  match value with
  | none => .ok fallback
  | some text => read text

@[simp] theorem readOr_none {α : Type} (fallback : α) (read : String → Except SettingsError α) :
    readOr none fallback read = .ok fallback := rfl

@[simp] theorem readOr_some {α : Type} (text : String) (fallback : α)
    (read : String → Except SettingsError α) : readOr (some text) fallback read = read text := rfl

def readPort (text : String) : Except SettingsError UInt16 :=
  match portOfText? text with
  | some port => .ok port
  | none => .error (.invalidPort text)

def readFlag (name text : String) : Except SettingsError Bool :=
  match Text.flagOfText? text with
  | some flag => .ok flag
  | none => .error (.invalidFlag name text)

def resolve (lookup : String → Option String) : Except SettingsError Settings := do
  let port ← readOr (lookup "MG_PORT") default.port readPort
  let encrypted ← readOr (lookup "MG_ENCRYPTED") default.encrypted (readFlag "MG_ENCRYPTED")
  let lazy ← readOr (lookup "MG_LAZY") default.lazy (readFlag "MG_LAZY")
  let settings : Settings :=
    { host := ((lookup "MG_HOST").map Text.trimmed).getD default.host
      port := port
      username := (lookup "MG_USERNAME").getD default.username
      password := (lookup "MG_PASSWORD").getD default.password
      encrypted := encrypted
      clientName := (lookup "MG_CLIENT_NAME").getD default.clientName
      lazy := lazy }
  settings.validate
  return settings

def uri (s : Settings) : String :=
  (if s.encrypted then "bolt+s" else "bolt") ++ "://" ++ s.host ++ ":" ++
    String.ofList (Decimal.digits s.port.toNat)

def hasCredentials (s : Settings) : Bool := !s.username.isEmpty

/-- The settings as they are shown to a reader, the password left out. -/
def description (s : Settings) : String :=
  "ConnectionConfig \x7b host: " ++ Text.displayed s.host ++
    ", port: " ++ String.ofList (Decimal.digits s.port.toNat) ++
    ", username: " ++ Text.displayed s.username ++
    ", password: \"<redacted>\", encrypted: " ++ Text.flagText s.encrypted ++
    ", client_name: " ++ Text.displayed s.clientName ++
    ", lazy: " ++ Text.flagText s.lazy ++ " \x7d"

end Settings

end Cypher
