import Cypher.Proofs.Data.Ordered
import Cypher.Proofs.Decimal.Digits
import Cypher.Proofs.Settings.Variables

/-!
# Resolving settings

Resolving reads every variable by itself. It succeeds exactly if each variable that is checked is
missing or has a text that gives something, and the first one at fault decides the error: the host
is the last to be checked, though it is the first of the settings. Each setting depends on its own
variable alone, and the settings that are found pass the check for settings from elsewhere.
-/

namespace Cypher.Settings

variable {lookup : String → Option String}

/-- The variables that are checked, in the order of the checks. -/
def checked : List Variable := [.port, .encrypted, .lazy, .host]

namespace Variable

/-- What a variable gives for its setting: the default if it is missing. -/
def Holds (lookup : String → Option String) (v : Variable) (content : v.Content) : Prop :=
  match lookup v.name with
  | none => content = v.setting default
  | some text => v.Gives text content

/-- The variable is missing, or its text gives something. -/
def Accepts (lookup : String → Option String) (v : Variable) : Prop :=
  ∀ text, lookup v.name = some text → ∃ content, v.Gives text content

/-- The variable has a text that gives nothing, and this is the error for it. -/
def AtFault (lookup : String → Option String) (e : SettingsError) (v : Variable) : Prop :=
  ∃ text, lookup v.name = some text ∧ (∀ content, ¬v.Gives text content) ∧ e = v.fault text

def reading (lookup : String → Option String) (v : Variable) : Except SettingsError v.Content :=
  readOr (lookup v.name) (v.setting default) v.read

theorem reading_eq_ok_iff {v : Variable} {content : v.Content} :
    v.reading lookup = .ok content ↔ v.Holds lookup content := by
  rw [reading, Holds]
  cases lookup v.name with
  | none =>
      rw [readOr_none, Except.ok.injEq]
      exact eq_comm
  | some text => exact read_eq_ok_iff

theorem reading_eq_error_iff {v : Variable} {e : SettingsError} :
    v.reading lookup = .error e ↔ v.AtFault lookup e := by
  rw [reading, AtFault]
  cases lookup v.name with
  | none => simp
  | some text => simpa using read_eq_error_iff

theorem one_le_of_reading {content : UInt16} (h : port.reading lookup = .ok content) :
    1 ≤ content.toNat := by
  rw [reading_eq_ok_iff, Holds] at h
  split at h
  · rw [h]
    decide
  · obtain ⟨-, -, -, -, -, -, -, hpos⟩ := h
    exact hpos

theorem exists_reading_eq_ok_iff {v : Variable} :
    (∃ content, v.reading lookup = .ok content) ↔ v.Accepts lookup := by
  simp only [reading_eq_ok_iff, Holds, Accepts]
  cases lookup v.name <;> simp

end Variable

/-- The error is that of the first variable at fault. -/
def FirstFault (lookup : String → Option String) (e : SettingsError) : List Variable → Prop
  | [] => False
  | v :: rest => v.AtFault lookup e ∨ v.Accepts lookup ∧ FirstFault lookup e rest

theorem validate_of_pos {s : Settings} (h : 1 ≤ s.port.toNat) :
    s.validate = if (Text.trim s.host.toList).isEmpty then .error .emptyHost else .ok () := by
  have hport : s.port ≠ 0 := by
    intro hzero
    rw [hzero] at h
    exact absurd h (by decide)
  rw [validate, if_neg hport]

/-- With a port at hand, checking the settings finds what reading the host finds. -/
theorem validate_bind_eq {s : Settings} (hport : 1 ≤ s.port.toNat)
    (hhost : s.host = ((lookup "MG_HOST").map Text.trimmed).getD default.host) :
    (s.validate >>= fun _ => .ok s) =
      Variable.host.reading lookup >>= fun host => .ok { s with host := host } := by
  rw [validate_of_pos hport, Variable.reading, Variable.name]
  cases hlookup : lookup "MG_HOST" with
  | none =>
      rw [hlookup, Option.map_none, Option.getD_none] at hhost
      have hfilled : (Text.trim s.host.toList).isEmpty = false := by
        rw [hhost]
        decide
      rw [hfilled, readOr_none, Variable.setting, ← hhost]
      rfl
  | some text =>
      -- the check trims the host once more, which changes nothing
      rw [hlookup, Option.map_some, Option.getD_some] at hhost
      have hagain : Text.trim s.host.toList = Text.trim text.toList := by
        rw [hhost, Text.toList_trimmed, Text.trim_trim]
      rw [hagain, readOr_some, Variable.read, ← hhost]
      split <;> rfl

theorem resolve_eq (lookup : String → Option String) :
    resolve lookup = (do
      let port ← Variable.port.reading lookup
      let encrypted ← Variable.encrypted.reading lookup
      let lazy ← Variable.lazy.reading lookup
      let host ← Variable.host.reading lookup
      return ⟨host, port, (lookup "MG_USERNAME").getD default.username,
        (lookup "MG_PASSWORD").getD default.password, encrypted,
        (lookup "MG_CLIENT_NAME").getD default.clientName, lazy⟩) := by
  rw [resolve]
  -- the port that was read is what the final check needs to know, so it is kept as a fact
  apply bind_congr_of_ok
  intro port hport
  apply bind_congr_of_ok
  intro encrypted _
  apply bind_congr_of_ok
  intro lazy _
  exact validate_bind_eq (Variable.one_le_of_reading hport) rfl

theorem reading_of_resolve {s : Settings} (h : resolve lookup = .ok s) (v : Variable) :
    v.reading lookup = .ok (v.setting s) := by
  rw [resolve_eq] at h
  obtain ⟨port, hport, h⟩ := bind_eq_ok h
  obtain ⟨encrypted, hencrypted, h⟩ := bind_eq_ok h
  obtain ⟨lazy, hlazy, h⟩ := bind_eq_ok h
  obtain ⟨host, hhost, h⟩ := bind_eq_ok h
  obtain rfl := Except.ok.inj h
  have hverbatim : ∀ (value : Option String) (fallback : String),
      readOr value fallback .ok = .ok (value.getD fallback) := by
    intro value fallback
    cases value <;> rfl
  cases v with
  | host => exact hhost
  | port => exact hport
  | encrypted => exact hencrypted
  | lazy => exact hlazy
  | username | password | clientName => exact hverbatim _ _

theorem Variable.AtFault.not_accepts {e : SettingsError} {v : Variable} (h : v.AtFault lookup e) :
    ¬v.Accepts lookup := by
  intro haccepts
  obtain ⟨text, htext, hnone, -⟩ := h
  obtain ⟨content, hcontent⟩ := haccepts text htext
  exact hnone content hcontent

theorem FirstFault.exists_not_accepts {e : SettingsError} {vs : List Variable}
    (h : FirstFault lookup e vs) : ∃ v ∈ vs, ¬v.Accepts lookup := by
  induction vs with
  | nil => exact absurd h id
  | cons v rest ih =>
      rcases h with hfault | ⟨-, hrest⟩
      · exact ⟨v, List.mem_cons_self, hfault.not_accepts⟩
      · obtain ⟨u, hu, hnot⟩ := ih hrest
        exact ⟨u, List.mem_cons_of_mem v hu, hnot⟩

theorem reading_bind_eq_error_iff {α : Type} {e : SettingsError} {v : Variable}
    {rest : List Variable} {f : v.Content → Except SettingsError α}
    (h : ∀ content, f content = .error e ↔ FirstFault lookup e rest) :
    v.reading lookup >>= f = .error e ↔ FirstFault lookup e (v :: rest) := by
  rw [bind_eq_error_iff, FirstFault, Variable.reading_eq_error_iff,
    ← Variable.exists_reading_eq_ok_iff]
  simp only [h, exists_and_right]

theorem resolve_eq_error_iff {e : SettingsError} :
    resolve lookup = .error e ↔ FirstFault lookup e checked := by
  rw [resolve_eq]
  apply reading_bind_eq_error_iff
  intro port
  apply reading_bind_eq_error_iff
  intro encrypted
  apply reading_bind_eq_error_iff
  intro lazy
  apply reading_bind_eq_error_iff
  intro host
  exact iff_of_false (fun h => nomatch h) id

theorem exists_resolve_eq_ok_iff :
    (∃ s, resolve lookup = .ok s) ↔ ∀ v ∈ checked, v.Accepts lookup := by
  constructor
  · intro hresolved v _
    obtain ⟨s, hs⟩ := hresolved
    exact Variable.exists_reading_eq_ok_iff.mp ⟨_, reading_of_resolve hs v⟩
  · intro haccepts
    cases hresolve : resolve lookup with
    | ok s => exact ⟨s, rfl⟩
    | error e =>
        obtain ⟨v, hv, hnot⟩ := (resolve_eq_error_iff.mp hresolve).exists_not_accepts
        exact absurd (haccepts v hv) hnot

theorem setting_eq_of_resolve {other : String → Option String} {s t : Settings}
    (hs : resolve lookup = .ok s) (ht : resolve other = .ok t) {v : Variable}
    (h : lookup v.name = other v.name) : v.setting s = v.setting t := by
  have hreading : v.reading lookup = v.reading other := by
    rw [Variable.reading, h, Variable.reading]
  rw [reading_of_resolve hs, reading_of_resolve ht] at hreading
  exact Except.ok.inj hreading

theorem host_of_holds {host : String} (h : Variable.host.Holds lookup host) :
    host ≠ "" ∧ Text.IsTrimmed host.toList := by
  rw [Variable.Holds] at h
  split at h
  · rw [h]
    exact ⟨by decide, Text.isTrimmed_iff.mpr (by decide)⟩
  · rename_i text _
    obtain ⟨⟨c, hc, hblank⟩, rfl⟩ := h
    refine ⟨?_, ?_⟩
    · intro hempty
      have hnil : Text.trim text.toList = [] := by
        rw [← Text.toList_trimmed, hempty]
        rfl
      rw [Text.trim_eq_nil_iff.mp hnil c hc] at hblank
      exact absurd hblank (by simp)
    · rw [Text.toList_trimmed]
      exact Text.isTrimmed_trim text.toList

theorem validate_of_filled {s : Settings} (hport : 1 ≤ s.port.toNat) (hhost : s.host ≠ "")
    (htrimmed : Text.IsTrimmed s.host.toList) : s.validate = .ok () := by
  rw [validate_of_pos hport, Text.isTrimmed_iff.mp htrimmed]
  simp [hhost]

/-- Resolving succeeds exactly if each of the four variables that are checked is missing or has a
text that gives something; otherwise the error is that of the first at fault. Each setting that is
found is what its own variable gives, so it is the same whatever the others are. The settings pass
their check; the host is not empty and has no blank at its ends, and the port is in its range. -/
theorem resolution_exact (lookup : String → Option String) :
    ((∃ s, resolve lookup = .ok s) ↔ ∀ v ∈ checked, v.Accepts lookup) ∧
      (∀ e, resolve lookup = .error e ↔ FirstFault lookup e checked) ∧
      ∀ s, resolve lookup = .ok s →
        (∀ v : Variable, v.Holds lookup (v.setting s)) ∧
        (∀ other t, resolve other = .ok t → ∀ v : Variable, lookup v.name = other v.name →
          v.setting s = v.setting t) ∧
        s.validate = .ok () ∧ s.host ≠ "" ∧ Text.IsTrimmed s.host.toList ∧
        1 ≤ s.port.toNat ∧ s.port.toNat ≤ 65535 := by
  refine ⟨exists_resolve_eq_ok_iff, fun e => resolve_eq_error_iff, ?_⟩
  intro s hs
  have hholds : ∀ v : Variable, v.Holds lookup (v.setting s) :=
    fun v => Variable.reading_eq_ok_iff.mp (reading_of_resolve hs v)
  have hport : 1 ≤ s.port.toNat := Variable.one_le_of_reading (reading_of_resolve hs .port)
  obtain ⟨hhost, htrimmed⟩ := host_of_holds (hholds .host)
  exact ⟨hholds, fun other t ht v => setting_eq_of_resolve hs ht,
    validate_of_filled hport hhost htrimmed, hhost, htrimmed, hport,
    Nat.le_of_lt_succ s.port.toNat_lt⟩

/-- Blanks around a host, a port and a truth value are dropped, a plus sign and a zero before the port
as well, and a truth value may be written in capitals; any other variables give the same host and the
same encryption for the same texts. -/
theorem padded_texts_resolved :
    let lookup (name : String) : Option String :=
      if name = "MG_HOST" then some " db\n" else if name = "MG_PORT" then some " +07688"
      else if name = "MG_ENCRYPTED" then some " TRUE " else if name = "MG_LAZY" then some "No"
      else none
    let s : Settings := { default with host := "db", port := 7688, encrypted := true, lazy := false }
    resolve lookup = .ok s ∧ s.validate = .ok () ∧ SpellsFlag " TRUE " true ∧
      ∀ other t, resolve other = .ok t → other "MG_HOST" = some " db\n" →
        other "MG_ENCRYPTED" = some " TRUE " → t.host = "db" ∧ t.encrypted = true := by
  intro lookup s
  have hs : resolve lookup = .ok s := by decide +kernel
  obtain ⟨-, -, hresolved⟩ := resolution_exact lookup
  obtain ⟨hholds, hsame, hvalid, -⟩ := hresolved s hs
  refine ⟨hs, hvalid, hholds .encrypted, ?_⟩
  intro other t ht hhost hencrypted
  exact ⟨(hsame other t ht .host hhost.symm).symm,
    (hsame other t ht .encrypted hencrypted.symm).symm⟩

end Cypher.Settings

/-! ## Addresses of servers

A host may be any text, also one with colons and slashes in it. The address can be taken apart all
the same: the digits at its end are the port, since a colon stands before them, and the character
behind the first four tells whether the session is encrypted. So an address stands for one target. -/

namespace Cypher.Settings

open Decimal (digits valueOf)

def addressFront (s : Settings) : List Char :=
  (if s.encrypted then "bolt+s://" else "bolt://").toList ++ s.host.toList

theorem toList_uri (s : Settings) :
    s.uri.toList = s.addressFront ++ ':' :: digits s.port.toNat := by
  cases hencrypted : s.encrypted <;> simp [uri, addressFront, hencrypted]

theorem append_digits_inj {as bs : List Char} {m n : Nat}
    (h : as ++ ':' :: digits m = bs ++ ':' :: digits n) : as = bs ∧ m = n := by
  have hreversed := congrArg List.reverse h
  simp only [List.reverse_append, List.reverse_cons, List.append_assoc, List.singleton_append]
    at hreversed
  have hdigits : ∀ k, ∀ c ∈ (digits k).reverse, c.isDigit = true := by
    intro k c hc
    exact Decimal.isDigit_of_mem_digits (List.mem_reverse.mp hc)
  have hcolon : ∀ cs, Text.StopsAt Char.isDigit (':' :: cs) := fun cs =>
    Text.stopsAt_cons (by decide)
  obtain ⟨hports, hfronts⟩ :=
    (hcolon as.reverse).append_inj (hcolon bs.reverse) (hdigits m) (hdigits n) hreversed
  constructor
  · exact List.reverse_inj.mp (List.cons.inj hfronts).2
  · exact Decimal.digits_injective (List.reverse_inj.mp hports)

/-- Whether the session is encrypted is found from the start, and then the host is what remains. -/
theorem addressFront_inj {a b : Settings} (h : a.addressFront = b.addressFront) :
    a.encrypted = b.encrypted ∧ a.host = b.host := by
  cases ha : a.encrypted <;> cases hb : b.encrypted <;>
    simp_all [addressFront, String.toList_inj]

theorem uri_eq_iff {a b : Settings} :
    a.uri = b.uri ↔ a.host = b.host ∧ a.port = b.port ∧ a.encrypted = b.encrypted := by
  constructor
  · intro h
    rw [← String.toList_inj, toList_uri, toList_uri] at h
    obtain ⟨hfront, hport⟩ := append_digits_inj h
    obtain ⟨hencrypted, hhost⟩ := addressFront_inj hfront
    exact ⟨hhost, UInt16.toNat_inj.mp hport, hencrypted⟩
  · rintro ⟨hhost, hport, hencrypted⟩
    rw [uri, uri, hhost, hport, hencrypted]

/-- Two addresses are the same exactly if host, port and encryption are. The address of settings that
were resolved ends in a colon and a port in its range, which is not written with leading zeros. -/
theorem address_determines_target :
    (∀ a b : Settings,
      a.uri = b.uri ↔ a.host = b.host ∧ a.port = b.port ∧ a.encrypted = b.encrypted) ∧
    ∀ lookup s, resolve lookup = .ok s →
      ∃ front port, s.uri.toList = front ++ ':' :: port ∧
        (∀ c ∈ port, c.isDigit = true) ∧ port.head? ≠ some '0' ∧
        1 ≤ valueOf port ∧ valueOf port ≤ 65535 ∧ valueOf port = s.port.toNat := by
  refine ⟨fun a b => uri_eq_iff, ?_⟩
  intro lookup s hs
  have hpos : 1 ≤ s.port.toNat := Variable.one_le_of_reading (reading_of_resolve hs .port)
  have hlast : s.port.toNat ≤ 65535 := Nat.le_of_lt_succ s.port.toNat_lt
  refine ⟨s.addressFront, digits s.port.toNat, s.toList_uri, ?_, ?_, ?_⟩
  · exact fun c hc => Decimal.isDigit_of_mem_digits hc
  · exact Decimal.head_digits_ne_zero hpos
  · rw [Decimal.valueOf_digits]
    exact ⟨hpos, hlast, rfl⟩

/-- A host that looks like an encrypted address with a port of its own does not hide the target, and
a port that was given with zeros in front is written without them. -/
theorem misleading_host_told_apart :
    let lookup (name : String) : Option String :=
      if name = "MG_HOST" then some " +s://db:7687 " else if name = "MG_PORT" then some "+007"
      else none
    let s : Settings := { default with host := "+s://db:7687", port := 7 }
    let t : Settings := { default with host := "db:7687", port := 7, encrypted := true }
    s.uri ≠ t.uri ∧ resolve lookup = .ok s ∧
      ∃ front port, s.uri.toList = front ++ ':' :: port ∧ port.head? ≠ some '0' ∧
        valueOf port = 7 := by
  intro lookup s t
  obtain ⟨hsame, hresolved⟩ := address_determines_target
  have hs : resolve lookup = .ok s := by decide +kernel
  obtain ⟨front, port, huri, -, hhead, -, -, hvalue⟩ := hresolved lookup s hs
  refine ⟨?_, hs, front, port, huri, hhead, hvalue⟩
  intro h
  exact absurd ((hsame s t).mp h).2.2 (by decide)

end Cypher.Settings
