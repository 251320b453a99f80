import Cypher.Proofs.Logging.Requests

/-!
# Histories of requests

What a program that logs has become after any list of requests, each with a backend of its own, so
that every attempt to start may succeed or fail. A valid request reaches the backend only while
logging is idle, and only a request that succeeds there makes it active; nothing changes an active
program any more.
-/

namespace Cypher.Logging

variable {σ : Type}

namespace Host

/-- A program before its first request. -/
def idle (surroundings : σ) : Host σ := ⟨none, surroundings⟩

def handle (host : Host σ) (r : Request σ) : Except SetupError Unit × Host σ :=
  host.request r.backend r.level r.target

def after (host : Host σ) (requests : List (Request σ)) : Host σ :=
  requests.foldl (fun host r => (host.handle r).2) host

def outcomes (host : Host σ) : List (Request σ) → List (Except SetupError Unit)
  | [] => []
  | r :: rest => (host.handle r).1 :: (host.handle r).2.outcomes rest

/-- The first request that succeeded, and what it asked for. -/
def StartedBy (host : Host σ) (requests : List (Request σ)) (active : Active) : Prop :=
  ∃ before r later, requests = before ++ r :: later ∧ .ok () ∉ host.outcomes before ∧
    ((host.after before).handle r).1 = .ok () ∧ r.Asks active

section Step

variable {host : Host σ} {r : Request σ} {wanted active : Active} {e : SetupError}

theorem handle_eq (host : Host σ) (r : Request σ) :
    host.handle r = match r.read with
      | .error e => (.error e, host)
      | .ok wanted => match host.active with
        | some active => (active.agrees wanted.level wanted.target, host)
        | none => match r.backend wanted.level wanted.target host.surroundings with
          | (.ok (), after) => (.ok (), ⟨some wanted, after⟩)
          | (.error error, after) => (.error (.startFailed error), ⟨none, after⟩) := by
  simp only [handle, request, Request.read]
  cases readLevel r.level with
  | error e => rfl
  | ok level =>
      cases readTarget r.target with
      | error e => rfl
      | ok target => rfl

theorem handle_of_invalid (h : r.Invalid e) (host : Host σ) : host.handle r = (.error e, host) := by
  rw [handle_eq, Request.read_eq_error_iff.mpr h]

theorem handle_of_active (hactive : host.active = some active) (h : r.Asks wanted) :
    host.handle r = (active.agrees wanted.level wanted.target, host) := by
  rw [handle_eq, Request.read_eq_ok_iff.mpr h, hactive]

/-- While logging is idle, the outcome of a valid request is that of its backend. -/
theorem handle_of_idle (hidle : host.active = none) (h : r.Asks wanted) :
    let start := r.backend wanted.level wanted.target host.surroundings
    host.handle r = (start.1.mapError .startFailed,
      ⟨start.1.toOption.map fun _ => wanted, start.2⟩) := by
  rw [handle_eq, Request.read_eq_ok_iff.mpr h, hidle]
  dsimp only
  rcases r.backend wanted.level wanted.target host.surroundings with ⟨_ | _, after⟩
  all_goals rfl

theorem asks_of_ok (h : (host.handle r).1 = .ok ()) : ∃ wanted, r.Asks wanted := by
  rcases r.invalid_or_asks with ⟨e, hinvalid⟩ | hasks
  · rw [handle_of_invalid hinvalid] at h
    cases h
  · exact hasks

theorem handle_keeps_active (hactive : host.active = some active) :
    (host.handle r).2 = host := by
  rcases r.invalid_or_asks with ⟨e, h⟩ | ⟨wanted, h⟩
  · rw [handle_of_invalid h]
  · rw [handle_of_active hactive h]

theorem handle_of_ok (hidle : host.active = none) (h : (host.handle r).1 = .ok ()) :
    ∃ wanted, r.Asks wanted ∧ (host.handle r).2.active = some wanted := by
  obtain ⟨wanted, hasks⟩ := asks_of_ok h
  refine ⟨wanted, hasks, ?_⟩
  rw [handle_of_idle hidle hasks] at h ⊢
  cases hstart : (r.backend wanted.level wanted.target host.surroundings).1 with
  | ok => rfl
  | error e => simp [hstart, Except.mapError] at h

theorem handle_of_ne_ok (h : (host.handle r).1 ≠ .ok ()) :
    (host.handle r).2.active = host.active := by
  cases hactive : host.active with
  | some active => rw [handle_keeps_active hactive, hactive]
  | none =>
      rcases r.invalid_or_asks with ⟨e, hinvalid⟩ | ⟨wanted, hasks⟩
      · rw [handle_of_invalid hinvalid, hactive]
      · rw [handle_of_idle hactive hasks] at h ⊢
        cases hstart : (r.backend wanted.level wanted.target host.surroundings).1 with
        | ok => simp [hstart, Except.mapError] at h
        | error e => rfl

end Step

section Run

variable {host : Host σ} {requests : List (Request σ)} {active : Active}

@[simp] theorem after_cons (host : Host σ) (r : Request σ) (rest : List (Request σ)) :
    host.after (r :: rest) = (host.handle r).2.after rest := rfl

theorem after_append (host : Host σ) (before later : List (Request σ)) :
    host.after (before ++ later) = (host.after before).after later :=
  List.foldl_append

theorem after_of_active (hactive : host.active = some active) (requests : List (Request σ)) :
    host.after requests = host := by
  induction requests with
  | nil => rfl
  | cons r rest ih => rw [after_cons, handle_keeps_active hactive, ih]

theorem active_after_eq_none_iff (hidle : host.active = none) :
    (host.after requests).active = none ↔ .ok () ∉ host.outcomes requests := by
  induction requests generalizing host with
  | nil => simp [after, outcomes, hidle]
  | cons r rest ih =>
      rw [after_cons, outcomes, List.mem_cons, not_or]
      by_cases hok : (host.handle r).1 = .ok ()
      · -- from here on the rest of the requests change nothing
        obtain ⟨wanted, -, hactive⟩ := handle_of_ok hidle hok
        rw [after_of_active hactive, hactive]
        simp [hok]
      · rw [ih ((handle_of_ne_ok hok).trans hidle)]
        simp [Ne.symm hok]

theorem exists_startedBy (h : .ok () ∈ host.outcomes requests) :
    ∃ active, host.StartedBy requests active := by
  -- the first success is this request, or the first success of the rest
  induction requests generalizing host with
  | nil => cases h
  | cons r rest ih =>
      by_cases hok : (host.handle r).1 = .ok ()
      · obtain ⟨wanted, hasks⟩ := asks_of_ok hok
        exact ⟨wanted, [], r, rest, rfl, List.not_mem_nil, hok, hasks⟩
      · have hrest := (List.mem_cons.mp h).resolve_left (Ne.symm hok)
        obtain ⟨active, before, s, later, hsplit, hbefore, hstart, hasks⟩ := ih hrest
        refine ⟨active, r :: before, s, later, by rw [hsplit, List.cons_append], ?_, hstart, hasks⟩
        rw [outcomes, List.mem_cons, not_or]
        exact ⟨Ne.symm hok, hbefore⟩

theorem StartedBy.active_after (hidle : host.active = none) (h : host.StartedBy requests active) :
    (host.after requests).active = some active := by
  obtain ⟨before, r, later, rfl, hbefore, hok, hasks⟩ := h
  have hstill : (host.after before).active = none := (active_after_eq_none_iff hidle).mpr hbefore
  obtain ⟨wanted, hwanted, hactive⟩ := handle_of_ok hstill hok
  rw [after_append, after_cons, after_of_active hactive, hactive, hwanted.unique hasks]

theorem active_after_eq_some_iff (hidle : host.active = none) :
    (host.after requests).active = some active ↔ host.StartedBy requests active := by
  constructor
  · intro hactive
    have hok : .ok () ∈ host.outcomes requests := by
      by_contra hnone
      rw [(active_after_eq_none_iff hidle).mpr hnone] at hactive
      cases hactive
    obtain ⟨other, hstarted⟩ := exists_startedBy hok
    have hother := hstarted.active_after hidle
    rw [hactive] at hother
    obtain rfl := Option.some.inj hother
    exact hstarted
  · exact fun hstarted => hstarted.active_after hidle

end Run

end Host

/-- Logging is started at most once and never switched. It is idle as long as no request succeeds;
the first that succeeds makes it active with what it asks for, and the program stays as it then is.
While logging is idle the outcome of a valid request is that of its backend, and once it is active a
valid request is judged by what it asks for. A request that fails leaves the activity as it is, and
one that is invalid fails in every state for the same reason and changes nothing. -/
theorem logging_started_once (surroundings : σ) (requests : List (Request σ)) :
    let start := Host.idle surroundings
    let host := start.after requests
    (host.active = none ↔ .ok () ∉ start.outcomes requests) ∧
      (∀ active, host.active = some active ↔ start.StartedBy requests active) ∧
      (∀ active more, host.active = some active → host.after more = host) ∧
      (∀ r wanted, host.active = none → r.Asks wanted → (host.handle r).1 =
        (r.backend wanted.level wanted.target host.surroundings).1.mapError .startFailed) ∧
      (∀ active r wanted, host.active = some active → r.Asks wanted →
        Verdict active wanted (host.handle r).1) ∧
      (∀ r, (host.handle r).1 ≠ .ok () → (host.handle r).2.active = host.active) ∧
      ∀ r : Request σ, ((∃! wanted, r.Asks wanted) ↔ ∀ e, ¬r.Invalid e) ∧
        ∀ e, r.Invalid e → ∀ any : Host σ, any.handle r = (.error e, any) := by
  intro start host
  refine ⟨Host.active_after_eq_none_iff rfl, fun active => Host.active_after_eq_some_iff rfl,
    fun active more hactive => Host.after_of_active hactive more, ?_, ?_,
    fun r => Host.handle_of_ne_ok, ?_⟩
  · intro r wanted hidle hasks
    rw [Host.handle_of_idle hidle hasks]
  · intro active r wanted hactive hasks
    obtain ⟨-, first, -, -, -, -, hfirst⟩ := (Host.active_after_eq_some_iff rfl).mp hactive
    rw [Host.handle_of_active hactive hasks]
    exact verdict_agrees hfirst.target hasks.target
  · intro r
    exact ⟨Request.existsUnique_asks_iff, fun e hinvalid any => Host.handle_of_invalid hinvalid any⟩

/-- A start that fails and a text that names no level leave logging idle. Once it is active at a
directory, another path to that directory and another name of the level are accepted, and a path to
another directory is refused. -/
theorem later_start_accepted_again :
    let given : Target := .directory " /var//log/ "
    let requests : List (Request DirectoryTree) := [⟨" WARNING ", given, fileBackend true⟩,
      ⟨"verbose", given, fileBackend false⟩, ⟨" WARNING ", given, fileBackend false⟩]
    let host := (Host.idle DirectoryTree.empty).after requests
    host.active = some ⟨.warn, .directory "/var//log/"⟩ ∧
      (host.handle ⟨"Warn", .directory "/var/./log", fileBackend true⟩).1 = .ok () ∧
      (host.handle ⟨"warn", .directory "/var/logs", fileBackend false⟩).1 =
        .error (.targetConflict (.directory "/var//log/") (.directory "/var/logs")) ∧
      host.after [⟨"debug", given, fileBackend false⟩, ⟨"warn", .stderr, fileBackend false⟩] =
        host := by
  intro given requests host
  obtain ⟨-, hstarted, hforever, -, hverdict, -⟩ :=
    logging_started_once DirectoryTree.empty requests
  have hactive : host.active = some ⟨.warn, .directory "/var//log/"⟩ := by
    refine (hstarted _).mpr ⟨requests.take 2, ⟨" WARNING ", given, fileBackend false⟩, [], rfl, ?_⟩
    refine ⟨by decide +kernel, by decide +kernel, .inr ⟨?_, rfl⟩, .directory (by decide +kernel)⟩
    exact Text.foldsTo_iff.mpr (by decide +kernel)
  have hnames : NamesLevel "Warn" .warn ∧ NamesLevel "warn" .warn :=
    ⟨.inl (Text.foldsTo_iff.mpr (by decide +kernel)),
      .inl (Text.foldsTo_iff.mpr (by decide +kernel))⟩
  have hsame : (⟨"Warn", .directory "/var/./log", fileBackend true⟩ :
      Request DirectoryTree).Asks ⟨.warn, .directory "/var/./log"⟩ :=
    ⟨hnames.1, .directory (by decide +kernel)⟩
  have hother : (⟨"warn", .directory "/var/logs", fileBackend false⟩ :
      Request DirectoryTree).Asks ⟨.warn, .directory "/var/logs"⟩ :=
    ⟨hnames.2, .directory (by decide +kernel)⟩
  refine ⟨hactive, ?_, ?_, hforever _ _ hactive⟩
  · exact (hverdict _ _ _ hactive hsame).eq_ok_iff.mpr
      ⟨rfl, samePlace_directory_iff.mpr (by decide +kernel)⟩
  · apply (hverdict _ _ _ hactive hother).eq_targetConflict rfl
    exact samePlace_directory_iff.not.mpr (by decide +kernel)

end Cypher.Logging
