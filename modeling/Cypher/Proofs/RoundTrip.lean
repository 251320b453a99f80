import Cypher.Proofs.Value.Codec
import Cypher.Settings.Document

/-!
# Serialized texts are read back

The text of a serialized value, node, relationship, record or of settings is a JSON text, and it
stands for what was serialized: durations are cut off to whole microseconds, and a leap second after a
second other than 59 has become the second behind it.
-/

namespace Cypher

open Json (Written parse?_text)

theorem levelLimit_eq : Json.Source.wholeText = .text Json.Source.levelLimit := rfl

/-- The names of the map, and of all maps in its values, are in order. -/
structure Properties.Ordered (p : Properties) : Prop where
  ascending : p.Ascending
  values : ∀ entry ∈ p.entries, entry.2.Ordered

def Properties.normalized (p : Properties) : Properties := ⟨Value.normalizedFields p.entries⟩

def NodeOf.normalized (n : Node) : Node :=
  { n with properties := Properties.normalized n.properties }

def RelationshipOf.normalized (r : Relationship) : Relationship :=
  { r with properties := Properties.normalized r.properties }

theorem PropertyMap.mem_insertEntry {α : Type} {name : String} {value : α}
    {entries : List (String × α)} {entry : String × α}
    (h : entry ∈ insertEntry name value entries) : entry = (name, value) ∨ entry ∈ entries := by
  induction entries with
  | nil => simpa [insertEntry] using h
  | cons head rest ih =>
      obtain ⟨first, old⟩ := head
      simp only [insertEntry] at h
      split at h
      · exact List.mem_cons.mp h
      · split at h
        · rcases List.mem_cons.mp h with heq | hmem
          · exact .inl heq
          · exact .inr (List.mem_cons_of_mem _ hmem)
        · rcases List.mem_cons.mp h with heq | hmem
          · exact .inr (heq ▸ List.mem_cons_self)
          · exact (ih hmem).imp_right (List.mem_cons_of_mem _)

theorem PropertyMap.mem_of_mem_ofPairs {α : Type} {pairs : List (String × α)} {entry : String × α}
    (h : entry ∈ (ofPairs pairs).entries) : entry ∈ pairs := by
  have hfold : ∀ m : PropertyMap α,
      entry ∈ (pairs.foldl (fun m pair => m.insert pair.1 pair.2) m).entries →
        entry ∈ m.entries ∨ entry ∈ pairs := by
    clear h
    induction pairs with
    | nil => exact fun m h => .inl h
    | cons pair rest ih =>
        intro m h
        rcases ih (m.insert pair.1 pair.2) h with hm | hrest
        · rcases mem_insertEntry hm with rfl | hm
          · exact .inr List.mem_cons_self
          · exact .inl hm
        · exact .inr (List.mem_cons_of_mem pair hrest)
  rcases hfold ∅ h with hempty | hpairs
  · exact absurd hempty List.not_mem_nil
  · exact hpairs

theorem Value.parse?_bind_decode? {v : Value} {d : Json} (hv : v.Ordered) (h : v.encode = .ok d)
    (hlevels : d.levels ≤ Json.Source.levelLimit) :
    (Json.parse? d.text).bind (Value.decode? .wholeText) = some v.normalized := by
  obtain ⟨hwritten, hread⟩ := Value.readBack_of_ordered hv d h
  rw [parse?_text hwritten, Option.bind_some, levelLimit_eq, hread _ hlevels]

theorem NodeOf.parse?_bind_decode? {n : Node} {d : Json} (hn : Properties.Ordered n.properties)
    (h : n.encode = .ok d) (hlevels : d.levels ≤ Json.Source.levelLimit) :
    (Json.parse? d.text).bind (NodeOf.decode? .wholeText) = some n.normalized := by
  obtain ⟨members, hmembers, rfl⟩ := map_eq_ok h
  obtain ⟨hwritten, hread⟩ := Value.decodeNode?_encodeEntries hmembers hn.ascending
    fun entry hentry => Value.readBack_of_ordered (hn.values entry hentry)
  rw [parse?_text hwritten, Option.bind_some, levelLimit_eq, NodeOf.decode?, hread _ hlevels]
  rfl

theorem RelationshipOf.parse?_bind_decode? {r : Relationship} {d : Json}
    (hr : Properties.Ordered r.properties) (h : r.encode = .ok d)
    (hlevels : d.levels ≤ Json.Source.levelLimit) :
    (Json.parse? d.text).bind (RelationshipOf.decode? .wholeText) = some r.normalized := by
  obtain ⟨members, hmembers, rfl⟩ := map_eq_ok h
  obtain ⟨hwritten, hread⟩ := Value.decodeRelationship?_encodeEntries hmembers hr.ascending
    fun entry hentry => Value.readBack_of_ordered (hr.values entry hentry)
  rw [parse?_text hwritten, Option.bind_some, levelLimit_eq, RelationshipOf.decode?,
    hread _ hlevels]
  rfl

theorem Properties.parse?_bind_decode? {p : Properties} {d : Json} (hp : p.Ordered)
    (h : Properties.encode p = .ok d) (hlevels : d.levels ≤ Json.Source.levelLimit) :
    (Json.parse? d.text).bind (Properties.decode? .wholeText) =
      some (Properties.normalized p) := by
  obtain ⟨members, hmembers, rfl⟩ := map_eq_ok h
  obtain ⟨hwritten, hread⟩ := Value.decodeMap?_encodeEntries hmembers hp.ascending
    fun entry hentry => Value.readBack_of_ordered (hp.values entry hentry)
  rw [parse?_text hwritten, Option.bind_some, levelLimit_eq, Properties.decode?, hread _ hlevels]
  rfl

theorem Settings.decodePort?_ofInt (port : UInt16) :
    decodePort? (.number (.ofInt port.toNat)) = some port := by
  have hlt := port.toNat_lt
  have hvalue : (Int64.ofInt port.toNat).toInt = port.toNat :=
    Int64.toInt_ofInt_of_le (by omega) (by omega)
  have hread := toInt64?_ofInt (Int64.ofInt port.toNat)
  rw [hvalue] at hread
  have hrange : 0 ≤ (port.toNat : Int) ∧ (port.toNat : Int) ≤ 65535 := by omega
  simp only [decodePort?, Json.asInt64?, hread, hvalue, hrange, Option.bind_eq_bind,
    Option.bind_some, and_self, if_true, Int.toNat_natCast, UInt16.ofNat_toNat]

theorem Settings.written_encode (s : Settings) : Written s.encode := by
  refine .object ?_
  simp only [List.mem_cons, List.not_mem_nil, or_false, forall_eq_or_imp, forall_eq]
  exact ⟨.string _, .number (by simp [Decimal.Numeral.ofInt]), .string _, .string _, .bool _,
    .string _, .bool _⟩

def Settings.fieldDocuments (s : Settings) : List Json :=
  [.ofString s.host, .number (.ofInt s.port.toNat), .ofString s.username, .ofString s.password,
    .bool s.encrypted, .ofString s.clientName, .bool s.lazy]

theorem Settings.encode_eq_object (s : Settings) :
    s.encode = .object ((fieldNames.map some).zip s.fieldDocuments) := rfl

theorem Settings.fitsFields_zip (s : Settings) :
    Json.fitsFields fieldNames ((fieldNames.map some).zip s.fieldDocuments) = true := by
  simp [fieldNames, fieldDocuments, Json.fitsFields, Json.occurrences]

theorem Settings.mapM_member?_zip (s : Settings) :
    fieldNames.mapM (Json.member? ((fieldNames.map some).zip s.fieldDocuments)) =
      some s.fieldDocuments := by
  simp [fieldNames, fieldDocuments, Json.member?, List.lookup]

theorem Settings.ofFields?_fieldDocuments (s : Settings) : ofFields? s.fieldDocuments = some s := by
  simp only [fieldDocuments, ofFields?, decodePort?_ofInt, Json.ofString, Json.asString?,
    Json.asBool?, Option.bind_eq_bind, Option.bind_some]
  rfl

theorem Settings.decode?_object (members : Json.Members) :
    Settings.decode? .wholeText (.object members) =
      if Json.fitsFields fieldNames members then
        (fieldNames.mapM (Json.member? members)).bind ofFields?
      else none := by
  have henter : Json.Source.wholeText.enter? = some (.text 126) := rfl
  simp only [decode?, henter, Option.bind_eq_bind, Option.bind_some]

theorem Settings.decode?_encode (s : Settings) :
    Settings.decode? .wholeText s.encode = some s := by
  rw [encode_eq_object, decode?_object, if_pos s.fitsFields_zip, mapM_member?_zip,
    Option.bind_some, ofFields?_fieldDocuments]

theorem Settings.parse?_bind_decode? (s : Settings) :
    (Json.parse? s.encode.text).bind (Settings.decode? .wholeText) = some s := by
  rw [parse?_text s.written_encode, Option.bind_some, s.decode?_encode]

end Cypher
