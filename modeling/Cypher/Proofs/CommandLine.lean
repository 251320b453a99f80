import Cypher.CommandLine
import Cypher.Proofs.Query.Running
import Cypher.Proofs.Settings.Resolution

/-!
# What the command shows

The sample query is always built, and its dry run on an empty script always succeeds, so the settings
alone decide how the command ends. Of the settings it shows the address only: the user name, the
password and the client name are read but have no part in what is printed, and no wording of an error
mentions them.
-/

namespace Cypher.CommandLine

open Script (connection)
open Settings (Variable)

def sampleText : String :=
  "MATCH (a:Person)-[r:KNOWS]->(b:Person) WHERE a.name = 'Ada' RETURN b.name AS friend LIMIT 10"

/-- The variables that decide how the command ends. -/
def targetNames : List String := ["MG_HOST", "MG_PORT", "MG_ENCRYPTED", "MG_LAZY"]

theorem exists_sampleQuery : ∃ q, sampleQuery = .ok q ∧ Text.trimmed q.text = sampleText := by
  refine ⟨_, rfl, ?_⟩
  decide +kernel

theorem answer_execute_empty (q : Query) :
    (q.execute connection Script.empty).answer = .ok [] := by
  rw [Query.execute, Query.run_eq]
  cases q.fetches <;> rfl

theorem executed_execute_empty (q : Query) :
    (q.execute connection Script.empty).state.executed = [q.text] :=
  Query.executed_run q q.fetches Script.empty

def transcript (address : String) : String :=
  "gqlalchemy_core version=" ++ version ++ "\n" ++ "target=" ++ address ++ "\n" ++
    "query=" ++ sampleText ++ "\n"

def complaint (e : SettingsError) : String :=
  "invalid connection settings: " ++ e.message ++ "\n"

/-- The outcome for an address, or for an error in the settings. -/
def outcomeOf : Except SettingsError String → Outcome
  | .error e => ⟨1, "", some (complaint e)⟩
  | .ok address => ⟨0, transcript address, none⟩

/-- Everything that the command shows of the settings is their address. -/
theorem run_eq (lookup : String → Option String) :
    run lookup = outcomeOf (Settings.uri <$> Settings.resolve lookup) := by
  rw [run]
  cases Settings.resolve lookup with
  | error e => rfl
  | ok s =>
      obtain ⟨q, hq, htext⟩ := exists_sampleQuery
      have hlines : queryLines (q.execute connection Script.empty).state.executed =
          "query=" ++ sampleText ++ "\n" := by
        rw [executed_execute_empty, queryLines, List.map_cons, htext]
        simp
      have hstdout : header s ++ ("query=" ++ sampleText ++ "\n") = transcript s.uri := by
        unfold header transcript
        simp only [String.append_assoc]
      simp only [hq, answer_execute_empty, hlines, hstdout]
      rfl

theorem exitCode_eq_zero_iff (lookup : String → Option String) :
    (run lookup).exitCode = 0 ↔ ∃ s, Settings.resolve lookup = .ok s := by
  rw [run_eq]
  cases Settings.resolve lookup with
  | error e => simp [outcomeOf]
  | ok s => simp [outcomeOf]

theorem uri_resolve_congr {lookup other : String → Option String}
    (h : ∀ name ∈ targetNames, lookup name = other name) :
    Settings.uri <$> Settings.resolve lookup = Settings.uri <$> Settings.resolve other := by
  have hreading : ∀ v : Variable, v.name ∈ targetNames → v.reading lookup = v.reading other := by
    intro v hv
    rw [Variable.reading, h v.name hv, Variable.reading]
  rw [Settings.resolve_eq, Settings.resolve_eq, hreading .port (by decide),
    hreading .encrypted (by decide), hreading .lazy (by decide), hreading .host (by decide)]
  -- the other three variables go into the settings, but not into the address
  simp only [map_bind, map_pure]
  rfl

theorem description_congr {s t : Settings}
    (h : ∀ v : Variable, v ≠ .password → v.setting s = v.setting t) :
    s.description = t.description := by
  have hhost : s.host = t.host := h .host (by decide)
  have hport : s.port = t.port := h .port (by decide)
  have husername : s.username = t.username := h .username (by decide)
  have hencrypted : s.encrypted = t.encrypted := h .encrypted (by decide)
  have hclient : s.clientName = t.clientName := h .clientName (by decide)
  have hlazy : s.lazy = t.lazy := h .lazy (by decide)
  unfold Settings.description
  rw [hhost, hport, husername, hencrypted, hclient, hlazy]

/-- The sample query is built, its dry run succeeds and records it once. So the command succeeds
exactly if the settings are found: it prints the version, their address and the query, and otherwise
nothing but the error of the settings. Environments that agree on the four variables of the target
have the same outcome, whatever the others hold, and settings that differ in the password alone are
described alike. -/
theorem outcome_follows_target_settings :
    (∃ q, sampleQuery = .ok q ∧ (q.execute connection Script.empty).answer = .ok [] ∧
      (q.execute connection Script.empty).state.executed = [q.text] ∧
      Text.trimmed q.text = sampleText) ∧
    (∀ lookup, ((run lookup).exitCode = 0 ↔ ∃ s, Settings.resolve lookup = .ok s) ∧
      (∀ e, Settings.resolve lookup = .error e → run lookup = ⟨1, "", some (complaint e)⟩) ∧
      ∀ s, Settings.resolve lookup = .ok s → run lookup = ⟨0, transcript s.uri, none⟩) ∧
    (∀ lookup other, (∀ name ∈ targetNames, lookup name = other name) →
      run lookup = run other) ∧
    ∀ lookup other s t, Settings.resolve lookup = .ok s → Settings.resolve other = .ok t →
      (∀ v : Variable, v ≠ .password → v.setting s = v.setting t) →
      s.description = t.description := by
  obtain ⟨q, hq, htext⟩ := exists_sampleQuery
  refine ⟨⟨q, hq, answer_execute_empty q, executed_execute_empty q, htext⟩, ?_, ?_, ?_⟩
  · intro lookup
    refine ⟨exitCode_eq_zero_iff lookup, ?_, ?_⟩
    · intro e he
      rw [run_eq, he]
      rfl
    · intro s hs
      rw [run_eq, hs]
      rfl
  · intro lookup other hagree
    rw [run_eq, run_eq, uri_resolve_congr hagree]
  · intro lookup other s t _ _ hsame
    exact description_congr hsame

/-- Environments with other credentials have the same outcome, also where the port is at fault, and
two passwords are described alike. -/
theorem credentials_not_shown :
    let lookup (port password : String) (name : String) : Option String :=
      if name = "MG_HOST" then some "db" else if name = "MG_PORT" then some port
      else if name = "MG_PASSWORD" then some password else none
    let other (port : String) (name : String) : Option String :=
      if name = "MG_USERNAME" then some "ada" else if name = "MG_CLIENT_NAME" then some "db\n"
      else lookup port "hunter2" name
    let s (password : String) : Settings :=
      { Settings.default with host := "db", port := 7688, password := password }
    run (other "7688") = run (lookup "7688" "secret") ∧
      run (lookup "7688" "secret") = ⟨0, transcript "bolt://db:7688", none⟩ ∧
      run (other "7688x") = run (lookup "7688x" "secret") ∧
      run (lookup "7688x" "secret") = ⟨1, "", some (complaint (.invalidPort "7688x"))⟩ ∧
      (s "secret").description = (s "hunter2").description := by
  intro lookup other s
  obtain ⟨-, houtcome, hagree, hdescribed⟩ := outcome_follows_target_settings
  have hsame (port : String) : run (other port) = run (lookup port "secret") := by
    apply hagree
    simp [targetNames, other, lookup]
  have hsecret : Settings.resolve (lookup "7688" "secret") = .ok (s "secret") := by decide +kernel
  have hhunter : Settings.resolve (lookup "7688" "hunter2") = .ok (s "hunter2") := by decide +kernel
  have hfault : Settings.resolve (lookup "7688x" "secret") = .error (.invalidPort "7688x") := by
    decide +kernel
  have huri : (s "secret").uri = "bolt://db:7688" := by decide +kernel
  refine ⟨hsame "7688", ?_, hsame "7688x", ?_, ?_⟩
  · rw [← huri]
    exact (houtcome _).2.2 _ hsecret
  · exact (houtcome _).2.1 _ hfault
  · apply hdescribed _ _ _ _ hsecret hhunter
    intro v hv
    cases v with
    | password => exact absurd rfl hv
    | _ => rfl

end Cypher.CommandLine
