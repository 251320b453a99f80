import Cypher.Proofs.Value.Roles

/-!
# Reading in place and from memory

What is read straight from a sound text is what would be read from memory, unless a value that is
read in place is spelled in one of the two ways that only held values may be. Then nothing is read
from the text.
-/

namespace Cypher.Value

open Json (Members Source Frame member? isSound fitsFields)

/-- The ways to spell a value that are read from memory only: its kind given by number, or the name
of its kind with an empty object in place of a content. -/
inductive Loose : Json → Prop
  | number (n : Decimal.Numeral) (content : Json) : Loose (.array [.number n, content])
  | member {members : Members} {name : String}
      (h : member? members "type" = some (.object [(some name, .object [])])) :
      Loose (.object members)

/-- Some value that is read in place is spelled loosely. -/
inductive LooseIn : Role → Json → Prop
  | self {d : Json} (h : Loose d) : LooseIn .value d
  | inside {outer inner : Role} {d : Json} (frame : Frame) (h : outer.Encloses frame inner)
      (hplace : outer.holds frame = false) (hd : LooseIn inner d) : LooseIn outer (frame.plug d)

theorem decode?_of_loose {d : Json} (h : Loose d) (levels : Nat) :
    decode? (.text levels) d = none := by
  cases levels with
  | zero =>
      cases h with
      | number n content => exact decode?_pair _ _ _
      | member h => exact decode?_object _ _
  | succ levels =>
      cases h with
      | number n content => exact decode?_pair _ _ _
      | @member members name h =>
          have hkind : kindOfMember? (.text levels) (.object [(some name, .object [])]) = none := by
            cases levels <;> rfl
          rw [decode?_object, Source.enter?_text, Option.bind_some, h, Option.bind_some, hkind]
          split <;> rfl

theorem decodeAs_of_looseIn {role : Role} {d : Json} (h : LooseIn role d) {levels : Nat}
    (hsound : isSound levels d = true) : decodeAs (.text levels) role d = none := by
  induction h generalizing levels with
  | self h => exact decode?_of_loose h levels
  | @inside outer inner d frame h hplace hd ih =>
      obtain ⟨inside, rfl, hcontents⟩ := Json.exists_contents_sound hsound (Json.levels_plug_pos _ _)
      obtain ⟨g, hnone, hg⟩ := h.exists_reading (.text (inside + 1)) rfl (.inr hplace)
      rw [hg, ih (hcontents d (frame.mem_contents_plug d)), hnone]

/-- What is read in place is what is read from memory, or it is nothing for a certain reason. -/
def Agrees {α : Type} (reason : Prop) (inPlace held : Option α) : Prop :=
  inPlace = held ∨ inPlace = none ∧ reason

namespace Agrees

variable {α β : Type} {reason : Prop} {a b : Option α}

theorem refl (a : Option α) : Agrees reason a a := .inl rfl

theorem mono {other : Prop} (h : Agrees reason a b) (himp : reason → other) : Agrees other a b :=
  h.imp_right fun hnone => ⟨hnone.1, himp hnone.2⟩

theorem strict (h : Agrees reason a b) {g : Option α → Option β} (hg : g none = none) :
    Agrees reason (g a) (g b) := by
  rcases h with rfl | ⟨rfl, hreason⟩
  · exact .inl rfl
  · exact .inr ⟨hg, hreason⟩

theorem bind (h : Agrees reason a b) {f g : α → Option β}
    (hfg : ∀ x, b = some x → Agrees reason (f x) (g x)) : Agrees reason (a.bind f) (b.bind g) := by
  rcases h with rfl | ⟨rfl, hreason⟩
  · cases a with
    | none => exact .inl rfl
    | some x => exact hfg x rfl
  · exact .inr ⟨rfl, hreason⟩

theorem enter {levels : Nat} {f : Source → Option α}
    (h : Agrees reason (f (.text levels)) (f .memory)) :
    Agrees reason ((Source.text (levels + 1)).enter?.bind f) (Source.memory.enter?.bind f) := h

end Agrees

theorem agrees_decodeItems? {reason : Prop} {source : Source} {items : List Json}
    (h : ∀ item ∈ items, Agrees reason (decode? source item) (decode? .memory item)) :
    Agrees reason (decodeItems? source items) (decodeItems? .memory items) := by
  induction items with
  | nil => exact .refl _
  | cons item rest ih =>
      obtain ⟨hitem, hrest⟩ := List.forall_mem_cons.mp h
      rw [decodeItems?, decodeItems?]
      exact hitem.bind fun value _ => (ih hrest).bind fun values _ => .refl _

theorem agrees_decodeEntries? {reason : Prop} {source : Source} {members : Members}
    (h : ∀ member ∈ members,
      Agrees reason (decode? source member.2) (decode? .memory member.2)) :
    Agrees reason (decodeEntries? source members) (decodeEntries? .memory members) := by
  induction members with
  | nil => exact .refl _
  | cons member rest ih =>
      obtain ⟨name, document⟩ := member
      obtain ⟨hmember, hrest⟩ := List.forall_mem_cons.mp h
      rw [decodeEntries?, decodeEntries?]
      exact (Agrees.refl name).bind fun name _ => hmember.bind fun value _ =>
        (ih hrest).bind fun entries _ => .refl _

theorem agrees_kindOfItem? (levels : Nat) (tag content : Json) :
    Agrees (LooseIn .value (.array [tag, content])) (kindOfItem? (.text levels) tag)
      (kindOfItem? .memory tag) := by
  rcases kindOfItem?_cases (.text levels) tag with hsame | ⟨hnone, n, rfl⟩
  · exact .inl hsame
  · exact .inr ⟨hnone, .self (.number n content)⟩

theorem agrees_kindOfMember? {levels : Nat} {members : Members}
    (h : ∀ content ∈ (Json.object members).contents, isSound levels content = true) :
    Agrees (LooseIn .value (.object members))
      ((member? members "type").bind (kindOfMember? (.text levels)))
      ((member? members "type").bind (kindOfMember? .memory)) := by
  cases htag : member? members "type" with
  | none => exact .refl none
  | some tag =>
      rw [Option.bind_some, Option.bind_some]
      rcases kindOfMember?_cases (.text levels) tag with hsame | ⟨hnone, hentered | ⟨name, rfl⟩⟩
      · exact .inl hsame
      · obtain ⟨henter, hcontainer⟩ := hentered
        obtain ⟨inside, rfl, -⟩ :=
          Json.exists_contents_sound (h tag (Json.mem_contents_of_member? htag)) hcontainer
        cases henter
      · exact .inr ⟨hnone, .self (.member htag)⟩

theorem decodeLabels?_of_isSound {levels : Nat} {d : Json} (h : isSound levels d = true) :
    decodeLabels? (.text levels) d = decodeLabels? .memory d := by
  cases d with
  | array items =>
      obtain ⟨inside, rfl, -⟩ := Json.exists_contents_sound h (by simp [Json.levels])
      rfl
  | _ => rfl

theorem nodeOfMembers?_of_isSound {levels : Nat} {members : Members}
    (h : ∀ content ∈ (Json.object members).contents, isSound levels content = true)
    (p : Option Properties) :
    nodeOfMembers? (.text levels) members p = nodeOfMembers? .memory members p := by
  have hlabels : (member? members "labels").bind (decodeLabels? (.text levels)) =
      (member? members "labels").bind (decodeLabels? .memory) := by
    cases hmember : member? members "labels" with
    | none => rfl
    | some labels => exact decodeLabels?_of_isSound (h labels (Json.mem_contents_of_member? hmember))
  rw [nodeOfMembers?, nodeOfMembers?, hlabels]

def ContentsAgree (levels : Nat) (d : Json) : Prop :=
  ∀ content ∈ d.contents, ∀ role : Role,
    Agrees (LooseIn role content) (decodeAs (.text levels) role content)
      (decodeAs .memory role content)

theorem agrees_inside {levels : Nat} {outer inner : Role} {d : Json} (frame : Frame)
    (h : ContentsAgree levels (frame.plug d)) (hencloses : outer.Encloses frame inner)
    (hplace : outer.holds frame = false) :
    Agrees (LooseIn outer (frame.plug d)) (decodeAs (.text levels) inner d)
      (decodeAs .memory inner d) :=
  (h d (frame.mem_contents_plug d) inner).mono (.inside frame hencloses hplace)

theorem agrees_properties {levels : Nat} {outer : Role} {d : Json} (frame : Frame)
    (h : ContentsAgree levels (frame.plug d)) (hencloses : outer.Encloses frame (.content .map))
    (hplace : outer.holds frame = false) :
    Agrees (LooseIn outer (frame.plug d)) (Properties.decode? (.text levels) d)
      (Properties.decode? .memory d) :=
  (agrees_inside frame h hencloses hplace).strict (g := fun read => read.bind asMap?) rfl

theorem agrees_propertiesMember {levels : Nat} {members : Members} (outer : Role)
    (h : ContentsAgree levels (.object members))
    (hencloses : ∀ before after,
      outer.Encloses (.member before (some "properties") after) (.content .map))
    (hplace : ∀ before after, outer.holds (.member before (some "properties") after) = false) :
    Agrees (LooseIn outer (.object members))
      ((member? members "properties").bind (Properties.decode? (.text levels)))
      ((member? members "properties").bind (Properties.decode? .memory)) := by
  cases hmember : member? members "properties" with
  | none => exact .refl none
  | some d =>
      obtain ⟨before, after, rfl, -⟩ := Json.exists_plug_of_member? hmember
      exact agrees_properties (.member before (some "properties") after) h
        (hencloses before after) (hplace before after)

theorem agrees_value_object {levels : Nat} {members : Members}
    (hsound : ∀ content ∈ (Json.object members).contents, isSound levels content = true)
    (h : ContentsAgree levels (.object members)) :
    Agrees (LooseIn .value (.object members)) (decode? (.text (levels + 1)) (.object members))
      (decode? .memory (.object members)) := by
  rw [decode?_object, decode?_object]
  refine Agrees.enter ?_
  by_cases hfits : fitsFields ["type", "value"] members = true
  · rw [if_pos hfits, if_pos hfits]
    refine (agrees_kindOfMember? hsound).bind fun kind hkind => ?_
    cases hcontent : member? members "value" with
    | none => exact .refl _
    | some content =>
        obtain ⟨before, after, rfl, hbefore⟩ := Json.exists_plug_of_member? hcontent
        have hheld : contentSource? .memory (before ++ (some "value", content) :: after) =
            some .memory := contentSource?_plug hfits (.inl rfl)
        dsimp only
        rw [hheld, Option.bind_some]
        cases htype : (member? before "type").isSome with
        | true =>
            -- the kind is known, so the content is read in place
            rw [contentSource?_plug hfits (.inr htype), Option.bind_some]
            rw [Json.member?_plug_of_ne (by decide)] at hkind
            refine agrees_inside (.member before (some "value") after) h (.content hkind) ?_
            simpa [Role.holds, Option.isSome_iff_ne_none] using htype
        | false =>
            have hcanHold : (Source.text levels).canHold content = true :=
              hsound content (Json.mem_contents_of_member? hcontent)
            rw [contentSource?, typeComesFirst_plug hbefore, htype, hcontent]
            simp only [Bool.false_eq_true, if_false, hcanHold, if_true, Option.bind_some]
            exact .refl _
  · rw [if_neg hfits, if_neg hfits]
    exact .refl none

theorem agrees_content_object {levels : Nat} {members : Members} (kind : Kind)
    (hsound : ∀ content ∈ (Json.object members).contents, isSound levels content = true)
    (h : ContentsAgree levels (.object members)) :
    Agrees (LooseIn (.content kind) (.object members))
      (decodeContent? (.text (levels + 1)) kind (.object members))
      (decodeContent? .memory kind (.object members)) := by
  cases kind with
  | map =>
      rw [decodeContent?_map, decodeContent?_map]
      have hentries : ∀ member ∈ members, Agrees (LooseIn (.content .map) (.object members))
          (decode? (.text levels) member.2) (decode? .memory member.2) := by
        rintro ⟨name, document⟩ hmember
        obtain ⟨before, after, rfl⟩ := List.append_of_mem hmember
        exact agrees_inside (.member before name after) h .entry rfl
      exact .enter ((agrees_decodeEntries? hentries).strict rfl)
  | node =>
      rw [decodeContent?_node, decodeContent?_node]
      refine Agrees.enter ?_
      rw [nodeOfMembers?_of_isSound hsound]
      have hproperties := agrees_propertiesMember (.content .node) h
        (fun _ _ => .nodeField) fun _ _ => rfl
      exact hproperties.strict (g := fun p => (nodeOfMembers? .memory members p).map Value.node)
        (by simp [nodeOfMembers?])
  | relationship =>
      rw [decodeContent?_relationship, decodeContent?_relationship]
      refine Agrees.enter ?_
      have hproperties := agrees_propertiesMember (.content .relationship) h
        (fun _ _ => .relationshipField) fun _ _ => rfl
      exact hproperties.strict
        (g := fun p => (relationshipOfMembers? members p).map Value.relationship)
        (by simp [relationshipOfMembers?])
  | _ => exact .inl rfl

theorem agrees_content_array {levels : Nat} {items : List Json} (kind : Kind)
    (hsound : ∀ content ∈ (Json.array items).contents, isSound levels content = true)
    (h : ContentsAgree levels (.array items)) :
    Agrees (LooseIn (.content kind) (.array items))
      (decodeContent? (.text (levels + 1)) kind (.array items))
      (decodeContent? .memory kind (.array items)) := by
  cases kind with
  | list =>
      rw [decodeContent?_list, decodeContent?_list]
      have hitems : ∀ item ∈ items, Agrees (LooseIn (.content .list) (.array items))
          (decode? (.text levels) item) (decode? .memory item) := by
        intro item hitem
        obtain ⟨before, after, rfl⟩ := List.append_of_mem hitem
        exact agrees_inside (.item before after) h .item rfl
      exact .enter ((agrees_decodeItems? hitems).strict rfl)
  | node =>
      by_cases hlength : items.length = 3
      · obtain ⟨id, labels, properties, rfl⟩ := List.length_eq_three.mp hlength
        rw [decodeContent?_nodeItems, decodeContent?_nodeItems]
        refine Agrees.enter ?_
        rw [decodeLabels?_of_isSound (hsound labels (by simp [Json.contents]))]
        have hproperties := agrees_properties (.item [id, labels] []) h .nodeItem rfl
        exact (Agrees.refl _).bind fun _ _ => (Agrees.refl _).bind fun _ _ =>
          hproperties.strict rfl
      · rw [decodeContent?_nodeItems_of_length hlength, decodeContent?_nodeItems_of_length hlength]
        exact .refl none
  | relationship =>
      by_cases hlength : items.length = 5
      · obtain ⟨id, rest, rfl⟩ := List.exists_cons_of_length_eq_add_one hlength
        obtain ⟨startNode, rest, rfl⟩ :=
          List.exists_cons_of_length_eq_add_one (Nat.succ.inj hlength)
        obtain ⟨endNode, type, properties, rfl⟩ :=
          List.length_eq_three.mp (Nat.succ.inj (Nat.succ.inj hlength))
        rw [decodeContent?_relationshipItems, decodeContent?_relationshipItems]
        refine Agrees.enter ?_
        have hproperties := agrees_properties (.item [id, startNode, endNode, type] [])
          h .relationshipItem rfl
        exact (Agrees.refl _).bind fun _ _ => (Agrees.refl _).bind fun _ _ =>
          (Agrees.refl _).bind fun _ _ => (Agrees.refl _).bind fun _ _ => hproperties.strict rfl
      · rw [decodeContent?_relationshipItems_of_length hlength,
          decodeContent?_relationshipItems_of_length hlength]
        exact .refl none
  | _ => exact .inl rfl

theorem agrees_value_array {levels : Nat} {items : List Json}
    (h : ContentsAgree levels (.array items)) :
    Agrees (LooseIn .value (.array items)) (decode? (.text (levels + 1)) (.array items))
      (decode? .memory (.array items)) := by
  match items with
  | [tag, content] =>
      rw [decode?_pair, decode?_pair]
      refine Agrees.enter ?_
      refine (agrees_kindOfItem? levels tag content).bind fun kind hkind => ?_
      exact agrees_inside (.item [tag] []) h (.second hkind) rfl
  | [] | [_] | _ :: _ :: _ :: _ => exact .inl rfl

/-- From a sound text nothing else is read than from memory, and nothing less unless a value that is
read in place is spelled loosely. -/
theorem agrees_memory {d : Json} {levels : Nat} (hsound : isSound levels d = true) (role : Role) :
    Agrees (LooseIn role d) (decodeAs (.text levels) role d) (decodeAs .memory role d) := by
  induction d using Json.induction_contents generalizing levels role with
  | step d ih =>
      have hcontents {inside : Nat}
          (hinside : ∀ content ∈ d.contents, isSound inside content = true) :
          ContentsAgree inside d :=
        fun content hcontent role => ih content hcontent (hinside content hcontent) role
      cases d with
      | array items =>
          obtain ⟨inside, rfl, hinside⟩ :=
            Json.exists_contents_sound hsound (by simp [Json.levels])
          cases role with
          | value => exact agrees_value_array (hcontents hinside)
          | content kind => exact agrees_content_array kind hinside (hcontents hinside)
      | object members =>
          obtain ⟨inside, rfl, hinside⟩ :=
            Json.exists_contents_sound hsound (by simp [Json.levels])
          cases role with
          | value => exact agrees_value_object hinside (hcontents hinside)
          | content kind => exact agrees_content_object kind hinside (hcontents hinside)
      | _ =>
          cases role with
          | value => exact .inl rfl
          | content kind => cases kind <;> exact .inl rfl

end Cypher.Value
