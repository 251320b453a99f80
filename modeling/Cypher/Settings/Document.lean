import Cypher.Json.Basic
import Cypher.Settings.Basic

/-!
# Serialized settings

Settings as a JSON object with all fields, and back. A document is read without being validated.
-/

namespace Cypher.Settings

open Json (Source member? fitsFields)

def fieldNames : List String :=
  ["host", "port", "username", "password", "encrypted", "client_name", "lazy"]

def encode (s : Settings) : Json :=
  .ofMembers
    [("host", .ofString s.host),
      ("port", .number (.ofInt s.port.toNat)),
      ("username", .ofString s.username),
      ("password", .ofString s.password),
      ("encrypted", .bool s.encrypted),
      ("client_name", .ofString s.clientName),
      ("lazy", .bool s.lazy)]

/-- The port that a document gives, zero included. -/
def decodePort? (document : Json) : Option UInt16 := do
  let n ← document.asInt64?
  if 0 ≤ n.toInt ∧ n.toInt ≤ 65535 then some (UInt16.ofNat n.toInt.toNat) else none

def ofFields? : List Json → Option Settings
  | [host, port, username, password, encrypted, clientName, lazy] => do
    return {
      host := ← host.asString?
      port := ← decodePort? port
      username := ← username.asString?
      password := ← password.asString?
      encrypted := ← encrypted.asBool?
      clientName := ← clientName.asString?
      lazy := ← lazy.asBool? }
  | _ => none

/-- The settings that a document stands for: an object with all fields, or an array of them. -/
def decode? (source : Source) : Json → Option Settings
  | .object members => do
    let _ ← source.enter?
    if fitsFields fieldNames members then
      (fieldNames.mapM (member? members)).bind ofFields?
    else none
  | .array items => do
    let _ ← source.enter?
    ofFields? items
  | _ => none

end Cypher.Settings
