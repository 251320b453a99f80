import Cypher.Text.Basic

/-!
# Logging

Levels, directories for log files, and the one start of logging.
-/

namespace Cypher

/-! ## Log levels

The severities of log events. A level is named by a word in any case of its letters, with blanks at
its ends; one level has a second name. -/

inductive Level where
  | trace | debug | info | warn | error
deriving DecidableEq, Repr

namespace Level

def name : Level → String
  | trace => "trace"
  | debug => "debug"
  | info => "info"
  | warn => "warn"
  | error => "error"

/-- The form in which the name of a level is compared: trimmed and in lower case. -/
def normalSpelling (s : String) : String := String.ofList (Text.lowered (Text.trim s.toList))

def ofWord? (word : String) : Option Level :=
  match word with
  | "trace" => some .trace
  | "debug" => some .debug
  | "info" => some .info
  | "warn" => some .warn
  | "warning" => some .warn
  | "error" => some .error
  | _ => none

/-- The level at which programs log unless they are told otherwise. -/
def standard : Level := .debug

@[simp] theorem ofWord?_name (level : Level) : ofWord? level.name = some level := by
  cases level <;> rfl

end Level

end Cypher

/-! ## Log directories

Directories are named by paths, and two paths name the same directory if they agree component by
component; empty components and single dots do not count. Creating a directory creates those above
it first. It fails where the path runs into something that is no directory or holds a name that no
file can have, and where the path ends in a single dot although its directory does not exist yet:
only the directory above it is created then. -/

namespace Cypher.Logging

/-- The parts of a path between its slashes, empty ones included. -/
def pathParts (path : String) : List (List Char) :=
  path.toList.foldr
    (fun c parts =>
      if c = '/' then [] :: parts
      else match parts with
        | [] => [[c]]
        | part :: rest => (c :: part) :: rest)
    [[]]

def isAbsolute (path : String) : Bool := path.toList.head? == some '/'

/-- Whether a part of a path leads nowhere: it is empty or a single dot. -/
def leadsNowhere (part : List Char) : Bool := part.isEmpty || part == ['.']

/-- The components of an absolute path. Two dots count as a component. -/
def components (path : String) : List (List Char) :=
  (pathParts path).filter fun part => !leadsNowhere part

inductive CreationFailure where
  /-- The path holds a character that no path can hold. -/
  | nullCharacter
  /-- There is no directory at the path, and a path that ends in a single dot creates none. -/
  | missing
  /-- The path leads to something that is no directory. -/
  | alreadyExists
  /-- The path goes on below something that is no directory. -/
  | notDirectory
  /-- The path or one of its names is too long. -/
  | nameTooLong
deriving DecidableEq, Repr

def CreationFailure.message : CreationFailure → String
  | nullCharacter => "file name contained an unexpected NUL byte"
  | missing => "No such file or directory (os error 2)"
  | alreadyExists => "File exists (os error 17)"
  | notDirectory => "Not a directory (os error 20)"
  | nameTooLong => "File name too long (os error 36)"

def nameLimit : Nat := 255

/-- The longest path, in bytes. -/
def pathLimit : Nat := 4095

/-- A place among the directories, given by the names on the way from it up to the root. -/
abbrev Place := List (List Char)

/-- The one thing that paths are known to run into: the null device. -/
def nullDevice : Place := ["null".toList, "dev".toList]

structure DirectoryTree where
  places : List Place
deriving DecidableEq, Repr

/-- A walk along a path that creates directories on its way. -/
structure Walk where
  /-- Where the walk stands. -/
  place : Place
  /-- The directories that exist by now. -/
  places : List Place
  /-- Whether any directory was created. -/
  created : Bool
  /-- Whether the directory where the walk stands was created by the last step. -/
  fresh : Bool
deriving DecidableEq, Repr

namespace Walk

def start (tree : DirectoryTree) : Walk := ⟨[], tree.places, false, false⟩

/-- One step down to a name, which is created unless something is there. -/
def down (name : List Char) (w : Walk) : Walk :=
  let place := name :: w.place
  if place = nullDevice ∨ place ∈ w.places then { w with place := place, fresh := false }
  else ⟨place, place :: w.places, true, true⟩

def up (w : Walk) : Walk := { w with place := w.place.tail, fresh := false }

/-- The walk that does not create the directory where it stands. -/
def withdrawn (w : Walk) : Walk := { w with places := w.places.tail }

/-- Why a walk cannot go on to the parts that follow. Below something that is no directory nothing
can be; if directories had to be created on the way, creating that one is what fails, unless nothing
but single dots follows. -/
def blockedBy (w : Walk) (parts : List (List Char)) : CreationFailure :=
  if w.created && !parts.all leadsNowhere then .alreadyExists else .notDirectory

def along (w : Walk) : List (List Char) → Except CreationFailure Unit × Walk
  | [] => if w.place = nullDevice then (.error .alreadyExists, w) else (.ok (), w)
  | part :: rest =>
    if part.isEmpty then w.along rest
    else if w.place = nullDevice then (.error (w.blockedBy (part :: rest)), w)
    else if part = ['.'] then
      if w.fresh && rest.all leadsNowhere then (.error .missing, w.withdrawn) else w.along rest
    else if part = ['.', '.'] then w.up.along rest
    else if nameLimit < (String.ofList part).utf8ByteSize then (.error .nameTooLong, w)
    else (w.down part).along rest

end Walk

namespace DirectoryTree

def empty : DirectoryTree := ⟨[]⟩

/-- Creates the directory at an absolute path and those above it. Every directory is taken to be
writable. -/
def create (path : String) (tree : DirectoryTree) : Except CreationFailure Unit × DirectoryTree :=
  if path.toList.contains '\x00' then (.error .nullCharacter, tree)
  else if pathLimit < path.utf8ByteSize then (.error .nameTooLong, tree)
  else
    let (outcome, walk) := (Walk.start tree).along (pathParts path)
    (outcome, ⟨walk.places⟩)

def ofPaths (paths : List String) : DirectoryTree :=
  paths.foldl (fun tree path => (tree.create path).2) empty

end DirectoryTree

/-! ## Setting up logging

Logging is started at most once, with a level and a target, and is never switched afterwards. A
request is first checked by itself: its level, then the form of its target. A valid request starts
logging if it is not active yet, and must agree with the active level and target otherwise. Whether
starting succeeds is up to a backend, which may fail. -/

inductive Target where
  | stderr
  /-- Rolling files in a directory, whose path is kept as it was given. -/
  | directory (path : String)
deriving DecidableEq, Repr

def Target.text : Target → String
  | .stderr => "stderr"
  | .directory path => path

/-- Whether two targets are the same; directories are compared component by component. -/
def Target.same : Target → Target → Bool
  | .stderr, .stderr => true
  | .directory a, .directory b =>
    isAbsolute a == isAbsolute b && components a == components b
  | _, _ => false

inductive StartError where
  | directory (path cause : String)
  | backend (cause : String)
deriving DecidableEq, Repr

/-- What starts logging in its surroundings. It may fail, and the surroundings may change either
way. -/
abbrev Backend (σ : Type) := Level → Target → σ → Except StartError Unit × σ

inductive SetupError where
  /-- A text that names no level, in the form in which it was compared. -/
  | unsupportedLevel (text : String)
  | emptyDirectory
  | relativeDirectory (path : String)
  | startFailed (error : StartError)
  | levelConflict (active requested : Level)
  | targetConflict (active requested : Target)
deriving DecidableEq, Repr

def SetupError.message : SetupError → String
  | .unsupportedLevel text =>
    "unsupported log level `" ++ text ++ "`; expected trace|debug|info|warn|error"
  | .emptyDirectory => "log directory cannot be empty"
  | .relativeDirectory path => "log directory must be an absolute path, got `" ++ path ++ "`"
  | .startFailed (.directory path cause) =>
    "failed to create log directory `" ++ path ++ "`: " ++ cause
  | .startFailed (.backend cause) => "failed to start logger: " ++ cause
  | .levelConflict active requested =>
    "logging already initialized with level `" ++ active.name ++ "`; refusing to switch to `" ++
      requested.name ++ "`"
  | .targetConflict active requested =>
    "logging already initialized to `" ++ active.text ++ "`; refusing to switch to `" ++
      requested.text ++ "`"

def readLevel (text : String) : Except SetupError Level :=
  let word := Level.normalSpelling text
  match Level.ofWord? word with
  | some level => .ok level
  | none => .error (.unsupportedLevel word)

/-- Checks a target and trims its path. -/
def readTarget : Target → Except SetupError Target
  | .stderr => .ok .stderr
  | .directory path =>
    let path := Text.trimmed path
    if path.isEmpty then .error .emptyDirectory
    else if isAbsolute path then .ok (.directory path)
    else .error (.relativeDirectory path)

structure Active where
  level : Level
  target : Target
deriving DecidableEq, Repr

def Active.agrees (active : Active) (level : Level) (target : Target) : Except SetupError Unit :=
  if active.level ≠ level then .error (.levelConflict active.level level)
  else if active.target.same target then .ok ()
  else .error (.targetConflict active.target target)

/-- A program that logs: how logging is active, if it is, and the surroundings of its backend. -/
structure Host (σ : Type) where
  active : Option Active
  surroundings : σ

/-- Handles a request: its outcome, and the program afterwards. -/
def Host.request {σ : Type} (host : Host σ) (backend : Backend σ) (level : String)
    (target : Target) : Except SetupError Unit × Host σ :=
  match readLevel level with
  | .error error => (.error error, host)
  | .ok level =>
    match readTarget target with
    | .error error => (.error error, host)
    | .ok target =>
      match host.active with
      | some active => (active.agrees level target, host)
      | none =>
        match backend level target host.surroundings with
        | (.ok (), after) => (.ok (), ⟨some ⟨level, target⟩, after⟩)
        | (.error error, after) => (.error (.startFailed error), ⟨none, after⟩)

def prepare (target : Target) (tree : DirectoryTree) : Except StartError Unit × DirectoryTree :=
  match target with
  | .stderr => (.ok (), tree)
  | .directory path =>
    match tree.create path with
    | (.ok (), after) => (.ok (), after)
    | (.error failure, after) => (.error (.directory path failure.message), after)

/-- The backend that writes to the standard error stream or below a directory. It prepares its target
first, and cannot start if another logger is installed already. -/
def fileBackend (occupied : Bool) : Backend DirectoryTree := fun _ target tree =>
  match prepare target tree with
  | (.error error, after) => (.error error, after)
  | (.ok (), after) =>
    (if occupied then .error (.backend "Logger initialization failed") else .ok (), after)

end Cypher.Logging
