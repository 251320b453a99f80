import Cypher.Proofs.Json.Structure
import Cypher.Proofs.Value.Stability

/-!
# What documents are read as

A document is read as a value or as the content of a value of some kind; nodes, relationships and
property maps are contents. What stands inside is read in turn: the member `value` of a value, the
items of a list, the entries of a map, the properties of an entity. Through the document around it
nothing is seen of such a document but what it is read as (`Encloses.exists_reading`).
-/

namespace Cypher.Value

open Json (Members Source Frame member? member?_cons member?_append fitsFields)

/-- What a document is read as. -/
inductive Role where
  | value
  | content (kind : Kind)

def decodeAs (source : Source) : Role → Json → Option Value
  | .value => decode? source
  | .content kind => decodeContent? source kind

/-- In what is read as `outer`, the document in the frame is read as `inner`. -/
inductive Role.Encloses : Role → Frame → Role → Prop
  | content {kind : Kind} {before after : Members}
      (hkind : (member? (before ++ after) "type").bind (kindOfMember? .memory) = some kind) :
      Encloses .value (.member before (some "value") after) (.content kind)
  | second {kind : Kind} {tag : Json} (hkind : kindOfItem? .memory tag = some kind) :
      Encloses .value (.item [tag] []) (.content kind)
  | item {before after : List Json} : Encloses (.content .list) (.item before after) .value
  | entry {before after : Members} {name : Option String} :
      Encloses (.content .map) (.member before name after) .value
  | nodeField {before after : Members} :
      Encloses (.content .node) (.member before (some "properties") after) (.content .map)
  | nodeItem {id labels : Json} :
      Encloses (.content .node) (.item [id, labels] []) (.content .map)
  | relationshipField {before after : Members} :
      Encloses (.content .relationship) (.member before (some "properties") after) (.content .map)
  | relationshipItem {id startNode endNode type : Json} :
      Encloses (.content .relationship) (.item [id, startNode, endNode, type] []) (.content .map)

/-- Whether the document in the frame is held until its kind is known. -/
def Role.holds : Role → Frame → Bool
  | .value, .member before _ _ => (member? before "type").isNone
  | _, _ => false

theorem decode?_object (source : Source) (members : Members) :
    decode? source (.object members) =
      source.enter?.bind fun inner =>
        if fitsFields ["type", "value"] members then
          ((member? members "type").bind (kindOfMember? inner)).bind fun kind =>
            match member? members "value" with
            | none => if kind = .null then some .null else none
            | some content =>
              (contentSource? inner members).bind fun contentSource =>
                decodeContent? contentSource kind content
        else none := by
  rw [decode?]
  simp only [Option.bind_eq_bind, decodeMember?_eq_bind]
  cases member? members "value" <;> simp

theorem decode?_pair (source : Source) (tag content : Json) :
    decode? source (.array [tag, content]) =
      source.enter?.bind fun inner =>
        (kindOfItem? inner tag).bind fun kind => decodeContent? inner kind content := by
  rw [decode?]
  rfl

theorem decodeContent?_list (source : Source) (items : List Json) :
    decodeContent? source .list (.array items) =
      source.enter?.bind fun inner => (decodeItems? inner items).map .list := by
  rw [decodeContent?]
  simp only [Option.bind_eq_bind, Option.map_eq_bind]
  rfl

theorem decodeContent?_map (source : Source) (members : Members) :
    decodeContent? source .map (.object members) =
      source.enter?.bind fun inner => (decodeEntries? inner members).map .ofPairs := by
  rw [decodeContent?]
  simp only [Option.bind_eq_bind, Option.map_eq_bind]
  rfl

theorem decodeContent?_node (source : Source) (members : Members) :
    decodeContent? source .node (.object members) =
      source.enter?.bind fun inner =>
        (nodeOfMembers? inner members
          ((member? members "properties").bind (Properties.decode? inner))).map .node := by
  rw [decodeContent?]
  simp only [Option.bind_eq_bind, Option.map_eq_bind, propertiesMember?_eq_bind]
  rfl

theorem decodeContent?_relationship (source : Source) (members : Members) :
    decodeContent? source .relationship (.object members) =
      source.enter?.bind fun inner =>
        (relationshipOfMembers? members
          ((member? members "properties").bind (Properties.decode? inner))).map .relationship := by
  rw [decodeContent?]
  simp only [Option.bind_eq_bind, Option.map_eq_bind, propertiesMember?_eq_bind]
  rfl

theorem decodeContent?_nodeItems (source : Source) (id labels properties : Json) :
    decodeContent? source .node (.array [id, labels, properties]) =
      source.enter?.bind fun inner =>
        (decodeId? id).bind fun id =>
          (decodeLabels? inner labels).bind fun labels =>
            (Properties.decode? inner properties).map fun p => .node ⟨id, labels, p⟩ := by
  cases properties with
  | object members =>
      rw [decodeContent?]
      simp only [Option.bind_eq_bind, decode?_properties, Option.map_eq_bind, Option.bind_assoc,
        Function.comp_def, Option.bind_some]
      rfl
  | _ => simp [decodeContent?, Properties.decode?]

theorem decodeContent?_relationshipItems (source : Source)
    (id startNode endNode type properties : Json) :
    decodeContent? source .relationship (.array [id, startNode, endNode, type, properties]) =
      source.enter?.bind fun inner =>
        (decodeId? id).bind fun id =>
          (decodeId? startNode).bind fun startNode =>
            (decodeId? endNode).bind fun endNode =>
              type.asString?.bind fun type =>
                (Properties.decode? inner properties).map fun p =>
                  .relationship ⟨id, startNode, endNode, type, p⟩ := by
  cases properties with
  | object members =>
      rw [decodeContent?]
      simp only [Option.bind_eq_bind, decode?_properties, Option.map_eq_bind, Option.bind_assoc,
        Function.comp_def, Option.bind_some]
      rfl
  | _ => simp [decodeContent?, Properties.decode?]

theorem decodeContent?_nodeItems_of_length {items : List Json} (h : items.length ≠ 3)
    (source : Source) : decodeContent? source .node (.array items) = none := by
  rw [decodeContent?.eq_def]
  split <;> simp_all

theorem decodeContent?_relationshipItems_of_length {items : List Json} (h : items.length ≠ 5)
    (source : Source) : decodeContent? source .relationship (.array items) = none := by
  rw [decodeContent?.eq_def]
  split <;> simp_all

theorem decodeItems?_plug (source : Source) (before after : List Json) (d : Json) :
    decodeItems? source (before ++ d :: after) =
      (decodeItems? source before).bind fun values =>
        (decode? source d).bind fun value =>
          (decodeItems? source after).map fun others => values ++ value :: others := by
  induction before with
  | nil => simp [decodeItems?, Option.map_eq_bind]
  | cons item rest ih =>
      simp only [List.cons_append, decodeItems?, ih, Option.bind_eq_bind, Option.bind_assoc,
        Option.map_eq_bind, Function.comp_def, Option.bind_some, Option.pure_def]

theorem decodeEntries?_plug (source : Source) (before after : Members) (name : Option String)
    (d : Json) :
    decodeEntries? source (before ++ (name, d) :: after) =
      (decodeEntries? source before).bind fun entries =>
        name.bind fun name =>
          (decode? source d).bind fun value =>
            (decodeEntries? source after).map fun others => entries ++ (name, value) :: others := by
  induction before with
  | nil => simp [decodeEntries?, Option.map_eq_bind]
  | cons member rest ih =>
      obtain ⟨other, document⟩ := member
      simp only [List.cons_append, decodeEntries?, ih, Option.bind_eq_bind, Option.bind_assoc,
        Option.map_eq_bind, Function.comp_def, Option.bind_some, Option.pure_def]

/-- What is read in place as a kind is never another kind than what is read from memory; only an
object with an empty object in it may be a kind in memory alone. -/
theorem kindOfMember?_cases (source : Source) (d : Json) :
    kindOfMember? source d = kindOfMember? .memory d ∨
      kindOfMember? source d = none ∧
        (source.enter? = none ∧ 0 < d.levels ∨ ∃ name, d = .object [(some name, .object [])]) := by
  cases source with
  | memory => exact .inl rfl
  | text levels =>
      cases d with
      | object members =>
          cases levels with
          | zero =>
              refine .inr ⟨?_, .inl ⟨rfl, by simp [Json.levels]⟩⟩
              rw [kindOfMember?.eq_def]
              split <;> simp_all [Source.enter?]
          | succ levels =>
              rcases members with _ | ⟨⟨_ | name, content⟩, _ | _⟩
              · exact .inl rfl
              · exact .inl rfl
              · exact .inl rfl
              · cases content with
                | object inside =>
                    cases inside with
                    | nil => exact .inr ⟨rfl, .inr ⟨name, rfl⟩⟩
                    | cons _ _ => exact .inl rfl
                | _ => exact .inl rfl
              · exact .inl rfl
      | _ => exact .inl rfl

theorem kindOfItem?_cases (source : Source) (d : Json) :
    kindOfItem? source d = kindOfItem? .memory d ∨
      kindOfItem? source d = none ∧ ∃ n, d = .number n := by
  cases source with
  | memory => exact .inl rfl
  | text levels =>
      cases d with
      | number n => exact .inr ⟨rfl, n, rfl⟩
      | _ => exact .inl rfl

theorem typeComesFirst_plug {before after : Members} (h : member? before "value" = none)
    (d : Json) :
    typeComesFirst (before ++ (some "value", d) :: after) = (member? before "type").isSome := by
  induction before with
  | nil => simp [typeComesFirst, member?]
  | cons member rest ih =>
      obtain ⟨name, document⟩ := member
      rw [member?_cons] at h
      by_cases hvalue : name = some "value"
      · rw [if_pos hvalue] at h
        cases h
      · rw [if_neg hvalue] at h
        rw [List.cons_append, typeComesFirst, member?_cons, if_neg hvalue, ih h]
        by_cases htype : name = some "type"
        · rw [if_pos htype, if_pos htype, Option.isSome_some]
        · rw [if_neg htype, if_neg htype]

theorem contentSource?_plug {before after : Members} {d : Json} {enclosed : Source}
    (hfits : fitsFields ["type", "value"] (before ++ (some "value", d) :: after) = true)
    (hplace : enclosed = .memory ∨ (member? before "type").isSome = true) :
    contentSource? enclosed (before ++ (some "value", d) :: after) = some enclosed := by
  rw [contentSource?, Json.member?_plug_of_fits hfits (by simp),
    typeComesFirst_plug (Json.member?_eq_none_of_fits hfits (by simp))]
  rcases hplace with rfl | htype
  · simp [Source.canHold]
  · rw [if_pos htype]

theorem exists_nodeOfMembers? (source : Source) (before after : Members) :
    ∃ g : Option Properties → Option Node, g none = none ∧ ∀ d,
      nodeOfMembers? source (before ++ (some "properties", d) :: after)
        ((member? (before ++ (some "properties", d) :: after) "properties").bind
          (Properties.decode? source)) = g (Properties.decode? source d) := by
  have hplug (d : Json) := Json.fitsFields_plug ["id", "labels", "properties"] before after
    (some "properties") d .null
  cases hfits : fitsFields ["id", "labels", "properties"]
    (before ++ (some "properties", .null) :: after) with
  | false =>
      refine ⟨fun _ => none, rfl, fun d => ?_⟩
      rw [nodeOfMembers?, hplug, hfits, if_neg Bool.false_ne_true]
  | true =>
      refine ⟨nodeOfMembers? source (before ++ (some "properties", .null) :: after),
        by simp [nodeOfMembers?], fun d => ?_⟩
      rw [Json.member?_plug_of_fits ((hplug d).trans hfits) (by simp), Option.bind_some]
      simp only [nodeOfMembers?, idMember?, hplug,
        Json.member?_plug_of_ne (show some "properties" ≠ some "id" by decide),
        Json.member?_plug_of_ne (show some "properties" ≠ some "labels" by decide)]

theorem exists_relationshipOfMembers? (source : Source) (before after : Members) :
    ∃ g : Option Properties → Option Relationship, g none = none ∧ ∀ d,
      relationshipOfMembers? (before ++ (some "properties", d) :: after)
        ((member? (before ++ (some "properties", d) :: after) "properties").bind
          (Properties.decode? source)) = g (Properties.decode? source d) := by
  have hplug (d : Json) := Json.fitsFields_plug
    ["id", "start_node_id", "end_node_id", "type", "properties"] before after
    (some "properties") d .null
  cases hfits : fitsFields ["id", "start_node_id", "end_node_id", "type", "properties"]
    (before ++ (some "properties", .null) :: after) with
  | false =>
      refine ⟨fun _ => none, rfl, fun d => ?_⟩
      rw [relationshipOfMembers?, hplug, hfits, if_neg Bool.false_ne_true]
  | true =>
      refine ⟨relationshipOfMembers? (before ++ (some "properties", .null) :: after),
        by simp [relationshipOfMembers?], fun d => ?_⟩
      rw [Json.member?_plug_of_fits ((hplug d).trans hfits) (by simp), Option.bind_some]
      simp only [relationshipOfMembers?, idMember?, hplug,
        Json.member?_plug_of_ne (show some "properties" ≠ some "id" by decide),
        Json.member?_plug_of_ne (show some "properties" ≠ some "start_node_id" by decide),
        Json.member?_plug_of_ne (show some "properties" ≠ some "end_node_id" by decide),
        Json.member?_plug_of_ne (show some "properties" ≠ some "type" by decide)]

theorem exists_decode?_content {kind : Kind} {before after : Members} {source enclosed : Source}
    (hkind : (member? (before ++ after) "type").bind (kindOfMember? .memory) = some kind)
    (henter : source.enter? = some enclosed)
    (hplace : enclosed = .memory ∨ (member? before "type").isSome = true) :
    ∃ g : Option Value → Option Value, g none = none ∧ ∀ d,
      decode? source (.object (before ++ (some "value", d) :: after)) =
        g (decodeContent? enclosed kind d) := by
  have hplug (d : Json) := Json.fitsFields_plug ["type", "value"] before after (some "value") d .null
  -- with a field given twice nothing is read, whatever the content is
  cases hfits : fitsFields ["type", "value"] (before ++ (some "value", .null) :: after) with
  | false =>
      refine ⟨fun _ => none, rfl, fun d => ?_⟩
      rw [decode?_object, henter, Option.bind_some, hplug, hfits, if_neg Bool.false_ne_true]
  | true =>
      have hread (d : Json) : decode? source (.object (before ++ (some "value", d) :: after)) =
          ((member? (before ++ after) "type").bind (kindOfMember? enclosed)).bind fun kind =>
            decodeContent? enclosed kind d := by
        have hfits := (hplug d).trans hfits
        rw [decode?_object, henter, Option.bind_some, if_pos hfits,
          Json.member?_plug_of_fits hfits (by simp), contentSource?_plug hfits hplace,
          Json.member?_plug_of_ne (by decide)]
        rfl
      obtain ⟨tag, htag, hkind⟩ := Option.bind_eq_some_iff.mp hkind
      simp only [htag, Option.bind_some] at hread
      rcases kindOfMember?_cases enclosed tag with hsame | ⟨hnone, -⟩
      · simp only [hsame, hkind, Option.bind_some] at hread
        exact ⟨id, rfl, hread⟩
      · simp only [hnone, Option.bind_none] at hread
        exact ⟨fun _ => none, rfl, hread⟩

/-- Of a document that is read in place, or from memory like all around it, nothing is seen through
its frame but what it gives; if it gives nothing, neither does the whole. -/
theorem Role.Encloses.exists_reading {outer inner : Role} {frame : Frame}
    (h : outer.Encloses frame inner) (source : Source) {enclosed : Source}
    (henter : source.enter? = some enclosed)
    (hplace : enclosed = .memory ∨ outer.holds frame = false) :
    ∃ g : Option Value → Option Value, g none = none ∧
      ∀ d, decodeAs source outer (frame.plug d) = g (decodeAs enclosed inner d) := by
  cases h with
  | content hkind =>
      apply exists_decode?_content hkind henter
      simpa [Role.holds, Option.isSome_iff_ne_none] using hplace
  | @second kind tag hkind =>
      have hread (d : Json) : decodeAs source .value (.array [tag, d]) =
          (kindOfItem? enclosed tag).bind fun kind => decodeContent? enclosed kind d := by
        rw [decodeAs, decode?_pair, henter, Option.bind_some]
      rcases kindOfItem?_cases enclosed tag with hsame | ⟨hnone, -⟩
      · simp only [hsame, hkind, Option.bind_some] at hread
        exact ⟨id, rfl, hread⟩
      · simp only [hnone, Option.bind_none] at hread
        exact ⟨fun _ => none, rfl, hread⟩
  | @item before after =>
      refine ⟨fun read => ((decodeItems? enclosed before).bind fun values =>
        read.bind fun value =>
          (decodeItems? enclosed after).map fun others => values ++ value :: others).map .list,
        by simp, fun d => ?_⟩
      simp only [decodeAs, Frame.plug]
      rw [decodeContent?_list, henter, Option.bind_some, decodeItems?_plug]
  | @entry before after name =>
      refine ⟨fun read => ((decodeEntries? enclosed before).bind fun entries =>
        name.bind fun name => read.bind fun value =>
          (decodeEntries? enclosed after).map fun others =>
            entries ++ (name, value) :: others).map .ofPairs, by simp, fun d => ?_⟩
      simp only [decodeAs, Frame.plug]
      rw [decodeContent?_map, henter, Option.bind_some, decodeEntries?_plug]
  | @nodeField before after =>
      obtain ⟨g, hnone, hg⟩ := exists_nodeOfMembers? enclosed before after
      refine ⟨fun read => (g (read.bind asMap?)).map .node, by simp [hnone], fun d => ?_⟩
      simp only [decodeAs, Frame.plug]
      rw [decodeContent?_node, henter, Option.bind_some, hg, Properties.decode?]
  | @nodeItem id labels =>
      refine ⟨fun read => (decodeId? id).bind fun id =>
        (decodeLabels? enclosed labels).bind fun labels =>
          (read.bind asMap?).map fun p => .node ⟨id, labels, p⟩, by simp, fun d => ?_⟩
      simp only [decodeAs, Frame.plug, List.cons_append, List.nil_append]
      rw [decodeContent?_nodeItems, henter, Option.bind_some]
      rfl
  | @relationshipField before after =>
      obtain ⟨g, hnone, hg⟩ := exists_relationshipOfMembers? enclosed before after
      refine ⟨fun read => (g (read.bind asMap?)).map .relationship, by simp [hnone], fun d => ?_⟩
      simp only [decodeAs, Frame.plug]
      rw [decodeContent?_relationship, henter, Option.bind_some, hg, Properties.decode?]
  | @relationshipItem id startNode endNode type =>
      refine ⟨fun read => (decodeId? id).bind fun id =>
        (decodeId? startNode).bind fun startNode =>
          (decodeId? endNode).bind fun endNode =>
            type.asString?.bind fun type =>
              (read.bind asMap?).map fun p =>
                .relationship ⟨id, startNode, endNode, type, p⟩, by simp, fun d => ?_⟩
      simp only [decodeAs, Frame.plug, List.cons_append, List.nil_append]
      rw [decodeContent?_relationshipItems, henter, Option.bind_some]
      rfl

end Cypher.Value
