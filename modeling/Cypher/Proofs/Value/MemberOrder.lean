import Cypher.Proofs.Data.Ordered
import Cypher.Proofs.Value.HeldReading
import Cypher.Settings.Document

/-!
# The order of members

Documents with their members in another order, or with more members that no field is named after,
stand for the same: values, nodes, relationships, property maps and settings alike. From memory this
holds without exception. A text may be refused where another one is not, if a value that is read in
place is spelled loosely.
-/

namespace Cypher

open Json (Members Source Frame Reordered member? fitsFields isSound Written)

namespace Value

/-- The fields of the objects that are read in a role; entries of maps and items of lists are no
fields. -/
def Role.fieldNames? : Role → Option (List String)
  | .value => some ["type", "value"]
  | .content .node => some ["id", "labels", "properties"]
  | .content .relationship => some ["id", "start_node_id", "end_node_id", "type", "properties"]
  | _ => none

/-- In one object, at any depth, the members stand in another order. An object with fields may also
have more members than before; a property map must have different names and keeps its members. -/
inductive Rearranged : Role → Json → Json → Prop
  | fields {role : Role} {names : List String} {members others : Members}
      (hrole : role.fieldNames? = some names) (h : Reordered names members others) :
      Rearranged role (.object members) (.object others)
  | entries {members others : Members} (hdistinct : (members.map Prod.fst).Nodup)
      (h : others.Perm members) :
      Rearranged (.content .map) (.object members) (.object others)
  | inside {outer inner : Role} {d d' : Json} (frame : Frame) (h : outer.Encloses frame inner)
      (hd : Rearranged inner d d') : Rearranged outer (frame.plug d) (frame.plug d')

/-- An entry as it is read from a member. -/
def EntryOf (source : Source) (member : Option String × Json) (entry : String × Value) : Prop :=
  member.1 = some entry.1 ∧ decode? source member.2 = some entry.2

theorem decodeEntries?_eq_some_iff {source : Source} {members : Members}
    {entries : List (String × Value)} :
    decodeEntries? source members = some entries ↔
      List.Forall₂ (EntryOf source) members entries := by
  induction members generalizing entries with
  | nil => simp [decodeEntries?, eq_comm]
  | cons member rest ih =>
      obtain ⟨name, document⟩ := member
      rw [decodeEntries?, List.forall₂_cons_left_iff]
      simp only [Option.bind_eq_bind, Option.bind_eq_some_iff, ih, Option.pure_def,
        Option.some.injEq]
      constructor
      · rintro ⟨name, rfl, value, hvalue, entries, hentries, rfl⟩
        exact ⟨_, _, ⟨rfl, hvalue⟩, hentries, rfl⟩
      · rintro ⟨⟨name, value⟩, entries, ⟨rfl, hvalue⟩, hentries, rfl⟩
        exact ⟨name, rfl, value, hvalue, entries, hentries, rfl⟩

theorem names_of_forall₂_entryOf {source : Source} {members : Members}
    {entries : List (String × Value)} (h : List.Forall₂ (EntryOf source) members entries) :
    members.map Prod.fst = (entries.map Prod.fst).map some := by
  induction h with
  | nil => rfl
  | cons hentry _ ih => rw [List.map_cons, List.map_cons, List.map_cons, ih, hentry.1]

theorem ofPairs_decodeEntries?_of_perm {source : Source} {members others : Members}
    (hdistinct : (members.map Prod.fst).Nodup) (h : others.Perm members) :
    (decodeEntries? source others).map ofPairs = (decodeEntries? source members).map ofPairs := by
  have hread {ms ms' : Members} {entries : List (String × Value)} (hperm : ms'.Perm ms)
      (hentries : decodeEntries? source ms = some entries) :
      ∃ entries', decodeEntries? source ms' = some entries' ∧ entries'.Perm entries := by
    obtain ⟨entries', hforall, hperm⟩ :=
      List.perm_comp_forall₂ hperm (decodeEntries?_eq_some_iff.mp hentries)
    exact ⟨entries', decodeEntries?_eq_some_iff.mpr hforall, hperm⟩
  cases hmembers : decodeEntries? source members with
  | some entries =>
      obtain ⟨entries', hentries', hperm⟩ := hread h hmembers
      have hnodup : (entries.map Prod.fst).Nodup := by
        rw [names_of_forall₂_entryOf (decodeEntries?_eq_some_iff.mp hmembers)] at hdistinct
        exact hdistinct.of_map some
      rw [hentries', Option.map_some, Option.map_some, ofPairs, ofPairs,
        PropertyMap.ofPairs_eq_of_perm hperm.symm hnodup]
  | none =>
      cases hothers : decodeEntries? source others with
      | none => rfl
      | some entries =>
          obtain ⟨entries', hentries', -⟩ := hread h.symm hothers
          rw [hmembers] at hentries'
          cases hentries'

theorem decode?_memory_eq_of_reordered {members others : Members}
    (h : Reordered ["type", "value"] members others) :
    decode? .memory (.object others) = decode? .memory (.object members) := by
  rw [decode?_object, decode?_object, Source.enter?_memory, Option.bind_some, Option.bind_some,
    h.fitsFields_eq]
  by_cases hfits : fitsFields ["type", "value"] members = true
  · have hvalue := h.member?_eq hfits "value" (by simp)
    rw [h.member?_eq hfits "type" (by simp), hvalue]
    cases hcontent : member? members "value" with
    | none => rfl
    | some content =>
        have hheld {ms : Members} (hms : member? ms "value" = some content) :
            contentSource? .memory ms = some .memory := by
          simp [contentSource?, hms, Source.canHold]
        simp only [hheld hcontent, hheld (hvalue.trans hcontent)]
  · simp only [if_neg hfits]

theorem nodeOfMembers?_eq_of_reordered {members others : Members}
    (h : Reordered ["id", "labels", "properties"] members others) (source : Source) :
    nodeOfMembers? source others ((member? others "properties").bind (Properties.decode? source)) =
      nodeOfMembers? source members
        ((member? members "properties").bind (Properties.decode? source)) := by
  rw [nodeOfMembers?, nodeOfMembers?, h.fitsFields_eq]
  by_cases hfits : fitsFields ["id", "labels", "properties"] members = true
  · simp only [idMember?, h.member?_eq hfits "id" (by simp),
      h.member?_eq hfits "labels" (by simp),
      h.member?_eq hfits "properties" (by simp)]
  · rw [if_neg hfits, if_neg hfits]

theorem relationshipOfMembers?_eq_of_reordered {members others : Members}
    (h : Reordered ["id", "start_node_id", "end_node_id", "type", "properties"] members others)
    (source : Source) :
    relationshipOfMembers? others
        ((member? others "properties").bind (Properties.decode? source)) =
      relationshipOfMembers? members
        ((member? members "properties").bind (Properties.decode? source)) := by
  rw [relationshipOfMembers?, relationshipOfMembers?, h.fitsFields_eq]
  by_cases hfits : fitsFields ["id", "start_node_id", "end_node_id", "type", "properties"]
      members = true
  · simp only [idMember?, h.member?_eq hfits "id" (by simp),
      h.member?_eq hfits "start_node_id" (by simp),
      h.member?_eq hfits "end_node_id" (by simp),
      h.member?_eq hfits "type" (by simp),
      h.member?_eq hfits "properties" (by simp)]
  · rw [if_neg hfits, if_neg hfits]

theorem decodeAs_memory_eq_of_rearranged {role : Role} {d d' : Json} (h : Rearranged role d d') :
    decodeAs .memory role d' = decodeAs .memory role d := by
  induction h with
  | @fields role names members others hrole h =>
      cases role with
      | value =>
          cases hrole
          exact decode?_memory_eq_of_reordered h
      | content kind =>
          cases kind with
          | node =>
              cases hrole
              simp only [decodeAs]
              rw [decodeContent?_node, decodeContent?_node]
              simp only [nodeOfMembers?_eq_of_reordered h]
          | relationship =>
              cases hrole
              simp only [decodeAs]
              rw [decodeContent?_relationship, decodeContent?_relationship]
              simp only [relationshipOfMembers?_eq_of_reordered h]
          | _ => cases hrole
  | entries hdistinct h =>
      simp only [decodeAs]
      rw [decodeContent?_map, decodeContent?_map]
      simp only [ofPairs_decodeEntries?_of_perm hdistinct h]
  | inside frame h _ ih =>
      obtain ⟨g, -, hg⟩ := h.exists_reading .memory rfl (.inl rfl)
      rw [hg, hg, ih]

theorem decodeAs_memory_eq {role : Role} {d d' : Json}
    (h : Relation.ReflTransGen (Rearranged role) d d') :
    decodeAs .memory role d' = decodeAs .memory role d := by
  induction h with
  | refl => rfl
  | tail _ hstep ih => rw [decodeAs_memory_eq_of_rearranged hstep, ih]

end Value

/-- Two readings have the same outcome, unless there is a reason to refuse one of them. -/
structure SameOutcome {α : Type} (refuse refuse' : Prop) (a b : Option α) : Prop where
  same : ¬refuse → ¬refuse' → a = b
  refused : refuse → a = none
  refused' : refuse' → b = none

theorem SameOutcome.bind {α β : Type} {refuse refuse' : Prop} {a b : Option α}
    (h : SameOutcome refuse refuse' a b) (f : α → Option β) :
    SameOutcome refuse refuse' (a.bind f) (b.bind f) where
  same hrefuse hrefuse' := by rw [h.same hrefuse hrefuse']
  refused hrefuse := by rw [h.refused hrefuse, Option.bind_none]
  refused' hrefuse := by rw [h.refused' hrefuse, Option.bind_none]

/-- Sound documents that are rearrangements of each other are read alike. -/
theorem Value.sameOutcome {role : Role} {d d' : Json} {levels : Nat}
    (h : Relation.ReflTransGen (Rearranged role) d d') (hsound : isSound levels d = true)
    (hsound' : isSound levels d' = true) :
    SameOutcome (LooseIn role d) (LooseIn role d') (decodeAs (.text levels) role d)
      (decodeAs (.text levels) role d') where
  same hplain hplain' := by
    have hread := (agrees_memory hsound role).resolve_right fun hnone => hplain hnone.2
    have hread' := (agrees_memory hsound' role).resolve_right fun hnone => hplain' hnone.2
    rw [hread, hread', decodeAs_memory_eq h]
  refused hloose := decodeAs_of_looseIn hloose hsound
  refused' hloose := decodeAs_of_looseIn hloose hsound'

theorem Settings.decode?_eq_of_reordered {members others : Members}
    (h : Reordered fieldNames members others) (source : Source) :
    Settings.decode? source (.object others) = Settings.decode? source (.object members) := by
  rw [decode?, decode?, h.fitsFields_eq]
  by_cases hfits : fitsFields fieldNames members = true
  · have hfields : ∀ names : List String, names ⊆ fieldNames →
        names.mapM (member? others) = names.mapM (member? members) := by
      intro names hnames
      induction names with
      | nil => rfl
      | cons name rest ih =>
          obtain ⟨hname, hrest⟩ := List.cons_subset.mp hnames
          rw [List.mapM_cons, List.mapM_cons, h.member?_eq hfits name hname, ih hrest]
    rw [hfields fieldNames (List.Subset.refl _)]
  · simp only [if_neg hfits]

open Value (Rearranged LooseIn)

/-- The texts of two sound documents that are rearrangements of each other give the same value, node,
relationship or property map, or both give none, as long as no value that is read in place is spelled
loosely; with such a value a text gives none. The texts of settings give the same settings. -/
theorem member_order_immaterial {text text' : String} {d d' : Json}
    (htext : Json.parse? text = some d) (htext' : Json.parse? text' = some d')
    (hsound : isSound Source.levelLimit d = true) (hsound' : isSound Source.levelLimit d' = true) :
    (Relation.ReflTransGen (Rearranged .value) d d' →
      SameOutcome (LooseIn .value d) (LooseIn .value d')
        ((Json.parse? text).bind (Value.decode? .wholeText))
        ((Json.parse? text').bind (Value.decode? .wholeText))) ∧
    (Relation.ReflTransGen (Rearranged (.content .node)) d d' →
      SameOutcome (LooseIn (.content .node) d) (LooseIn (.content .node) d')
        ((Json.parse? text).bind (NodeOf.decode? .wholeText))
        ((Json.parse? text').bind (NodeOf.decode? .wholeText))) ∧
    (Relation.ReflTransGen (Rearranged (.content .relationship)) d d' →
      SameOutcome (LooseIn (.content .relationship) d) (LooseIn (.content .relationship) d')
        ((Json.parse? text).bind (RelationshipOf.decode? .wholeText))
        ((Json.parse? text').bind (RelationshipOf.decode? .wholeText))) ∧
    (Relation.ReflTransGen (Rearranged (.content .map)) d d' →
      SameOutcome (LooseIn (.content .map) d) (LooseIn (.content .map) d')
        ((Json.parse? text).bind (Properties.decode? .wholeText))
        ((Json.parse? text').bind (Properties.decode? .wholeText))) ∧
    ∀ members others, d = .object members → d' = .object others →
      Reordered Settings.fieldNames members others →
      (Json.parse? text).bind (Settings.decode? .wholeText) =
        (Json.parse? text').bind (Settings.decode? .wholeText) := by
  rw [htext, htext']
  refine ⟨fun h => ?value, fun h => ?node, fun h => ?relationship, fun h => ?properties, ?settings⟩
  case value => exact Value.sameOutcome h hsound hsound'
  case node => exact (Value.sameOutcome h hsound hsound').bind Value.asNode?
  case relationship => exact (Value.sameOutcome h hsound hsound').bind Value.asRelationship?
  case properties => exact (Value.sameOutcome h hsound hsound').bind Value.asMap?
  case settings =>
    rintro members others rfl rfl h
    exact (Settings.decode?_eq_of_reordered h .wholeText).symm

/-- The document of a value with its content before its kind. -/
def contentFirst (kind : Kind) (content : Json) : Json :=
  .ofMembers [("value", content), ("type", .ofString kind.name)]

theorem rearranged_contentFirst (kind : Kind) (content : Json) :
    Rearranged .value (tagged kind content) (contentFirst kind content) :=
  .fields rfl ⟨[], by simp, .swap _ _ _⟩

theorem written_contentFirst {kind : Kind} {content : Json} (h : Written content) :
    Written (contentFirst kind content) := by
  apply Written.object
  simpa using ⟨h, .string _⟩

/-- Members in another order at every depth, and one more member. -/
theorem rearranged_map_read_alike :
    let flag := tagged .bool (.bool true)
    let d := tagged .map (.ofMembers [("a", tagged .int (.ofInt64 5)), ("b", flag)])
    let d' := Json.ofMembers [("of", .array []),
      ("value", .ofMembers [("b", flag), ("a", contentFirst .int (.ofInt64 5))]),
      ("type", .ofString "map")]
    Relation.ReflTransGen (Rearranged .value) d d' ∧
      ((Json.parse? d.text).bind (Value.decode? .wholeText)).map Value.literal =
        some "\x7ba: 5, b: true\x7d" ∧
      (Json.parse? d.text).bind (Value.decode? .wholeText) =
        (Json.parse? d'.text).bind (Value.decode? .wholeText) := by
  intro flag d d'
  have hint : Written (.ofInt64 5) := Value.written_encodeId (some 5)
  have hflag : Written flag := Value.written_tagged (.bool true)
  have hd : Json.parse? d.text = some d := by
    apply Json.parse?_text
    apply Value.written_tagged
    apply Written.object
    simpa using ⟨Value.written_tagged hint, hflag⟩
  have hd' : Json.parse? d'.text = some d' := by
    apply Json.parse?_text
    apply Written.object
    have hmap : Written (.ofMembers [("b", flag), ("a", contentFirst .int (.ofInt64 5))]) := by
      apply Written.object
      simpa using ⟨hflag, written_contentFirst hint⟩
    simpa using ⟨Written.array (by simp), hmap, .string _⟩
  have hinner : Rearranged .value d
      (tagged .map (.ofMembers [("a", contentFirst .int (.ofInt64 5)), ("b", flag)])) :=
    .inside (.member [(some "type", .ofString "map")] (some "value") [])
      (.content (by decide))
      (.inside (.member [] (some "a") [(some "b", flag)]) .entry
        (rearranged_contentFirst _ _))
  have hentries : Rearranged .value
      (tagged .map (.ofMembers [("a", contentFirst .int (.ofInt64 5)), ("b", flag)]))
      (tagged .map (.ofMembers [("b", flag), ("a", contentFirst .int (.ofInt64 5))])) :=
    .inside (.member [(some "type", .ofString "map")] (some "value") [])
      (.content (by decide)) (.entries (by decide) (.swap _ _ _))
  have hfields : Rearranged .value
      (tagged .map (.ofMembers [("b", flag), ("a", contentFirst .int (.ofInt64 5))])) d' :=
    .fields rfl ⟨[(some "of", .array [])], by simp, List.reverse_perm [_, _, _]⟩
  have hsteps : Relation.ReflTransGen (Rearranged .value) d d' :=
    ((Relation.ReflTransGen.single hinner).tail hentries).tail hfields
  have hread : ((Json.parse? d.text).bind (Value.decode? .wholeText)).map Value.literal =
      some "\x7ba: 5, b: true\x7d" := by decide +kernel
  have hread' : ((Json.parse? d'.text).bind (Value.decode? .wholeText)).map Value.literal =
      some "\x7ba: 5, b: true\x7d" := by decide +kernel
  have houtcome := (member_order_immaterial hd hd' (by decide +kernel) (by decide +kernel)).1 hsteps
  refine ⟨hsteps, hread, houtcome.same ?_ ?_⟩
  · intro hloose
    rw [houtcome.refused hloose] at hread
    cases hread
  · intro hloose
    rw [houtcome.refused' hloose] at hread'
    cases hread'

/-- From a text, a kind is read by its number only in a content that stands before its own kind. -/
theorem numbered_kind_read_if_held :
    let content := Json.array [.array [.ofInt64 2, .ofInt64 5]]
    let text := "\x7b\"type\":\"list\",\"value\":[[2,5]]\x7d"
    let text' := "\x7b\"value\":[[2,5]],\"type\":\"list\"\x7d"
    Json.parse? text = some (tagged .list content) ∧
      Json.parse? text' = some (contentFirst .list content) ∧
      isSound Source.levelLimit (tagged .list content) = true ∧
      isSound Source.levelLimit (contentFirst .list content) = true ∧
      Rearranged .value (tagged .list content) (contentFirst .list content) ∧
      (Json.parse? text).bind (Value.decode? .wholeText) = none ∧
      ((Json.parse? text').bind (Value.decode? .wholeText)).map Value.literal = some "[5]" := by
  intro content text text'
  have hwritten : Written content := by
    have hitem : Written (.array [.ofInt64 2, .ofInt64 5]) := by
      apply Written.array
      simpa using ⟨Value.written_encodeId (some 2), Value.written_encodeId (some 5)⟩
    exact .array (by simpa using hitem)
  have htext : text = (tagged .list content).text := by decide +kernel
  have htext' : text' = (contentFirst .list content).text := by decide +kernel
  have hread : ((Json.parse? text).bind (Value.decode? .wholeText)).map Value.literal = none := by
    decide +kernel
  refine ⟨?_, ?_, by decide +kernel, by decide +kernel, rearranged_contentFirst _ _,
    Option.map_eq_none_iff.mp hread, by decide +kernel⟩
  · rw [htext]
    exact Json.parse?_text (Value.written_tagged hwritten)
  · rw [htext']
    exact Json.parse?_text (written_contentFirst hwritten)

end Cypher
