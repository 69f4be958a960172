import LiveLayout.Engine.Session
import LiveLayout.Proofs.Documents
import LiveLayout.Proofs.SnapshotCodec
import Mathlib.Data.List.Perm.Basic
/-!
# Entries encoded again

A change that was read can be written and read again. What keeps the two
forms of constraints and the catch-all apart is that each is the form of its
own value (`ConstraintsField.Shaped`): the catch-all never holds null, a list
or an object of texts, since those are read otherwise. All other fields are
either there, and are what they were read from, or left out. Records are read
by the names of their members (`Json.fields?_written`), so the order these are
written in has no part in it, and a change comes back from the text of its
fields in their order as from a value, whose members are in the order of their
keys (`reencoded_entry`).
-/

namespace LiveLayout

namespace Json

/-! ## Members in order -/

section Members

variable {α : Type} {key : String} {value : α} {members : List (String × α)}

/-- A member of a new key goes in without taking another's place. -/
theorem insertMember_perm (h : key ∉ members.map (·.1)) :
    (insertMember key value members).Perm ((key, value) :: members) := by
  induction members with
  | nil => exact .refl _
  | cons m rest ih =>
    rw [List.map_cons, List.mem_cons, not_or] at h
    unfold insertMember
    rw [if_neg h.1]
    split
    · exact .refl _
    · exact ((ih h.2).cons m).trans (.swap _ _ _)

/-- **Members of different keys are put in order** and all stay. -/
theorem sortMembers_perm (h : (members.map (·.1)).Nodup) : (sortMembers members).Perm members := by
  -- the members put into place so far, with the rest behind them
  have hfold : ∀ rest sorted : List (String × α), ((sorted ++ rest).map (·.1)).Nodup →
      (rest.foldl (fun sorted m => insertMember m.1 m.2 sorted) sorted).Perm (sorted ++ rest) := by
    intro rest
    induction rest with
    | nil =>
      intro sorted _
      rw [List.append_nil]
      exact .refl _
    | cons m rest ih =>
      intro sorted hnodup
      have hmiddle : ((m :: sorted ++ rest).map (·.1)).Nodup :=
        (List.perm_middle.map fun m : String × α => m.1).nodup_iff.1 hnodup
      have hnew : m.1 ∉ sorted.map (·.1) := fun hmem =>
        (List.nodup_cons.1 hmiddle).1 (List.map_append ▸ List.mem_append_left _ hmem)
      have hplaced : (insertMember m.1 m.2 sorted ++ rest).Perm (m :: sorted ++ rest) :=
        (insertMember_perm hnew).append_right rest
      exact ((ih _ ((hplaced.map _).nodup_iff.2 hmiddle)).trans hplaced).trans
        List.perm_middle.symm
  exact hfold members [] h

/-- Members in order stay where they are. -/
theorem sortMembers_eq_self (h : members.Pairwise fun m m' => m.1 < m'.1) :
    sortMembers members = members := by
  refine List.Perm.eq_of_pairwise (fun m m' _ _ hlt hgt => ?_) (sortMembers_spec members).1 h
    (sortMembers_perm (nodup_keys h))
  exact absurd (String.lt_trans hlt hgt) (String.lt_irrefl m.1)

end Members

/-! ## Values and data -/

variable {j : Json} {items : List Json} {members : List (String × Json)} {names : List String}

theorem itemsOfData?_itemsToData (h : ∀ item ∈ items, ofDatum? item.toDatum = some item) :
    itemsOfData? (itemsToData items) = some items := by
  induction items with
  | nil => rfl
  | cons item rest ih =>
    obtain ⟨hitem, hrest⟩ := List.forall_mem_cons.1 h
    simp only [itemsToData, itemsOfData?, hitem, ih hrest]

theorem membersOfData?_membersToData (h : ∀ m ∈ members, ofDatum? m.2.toDatum = some m.2) :
    membersOfData? (membersToData members) = some members := by
  induction members with
  | nil => rfl
  | cons m rest ih =>
    obtain ⟨hm, hrest⟩ := List.forall_mem_cons.1 h
    simp only [membersToData, membersOfData?, hm, ih hrest]

/-- An object of values that are in order gets its members put in order. -/
theorem ofDatum?_object (h : ∀ m ∈ members, ofDatum? m.2.toDatum = some m.2) :
    ofDatum? (object members).toDatum = some (.object (sortMembers members)) := by
  rw [toDatum, ofDatum?, membersOfData?_membersToData h, Option.map_some]

/-- **A value in order is the value its data are.** -/
theorem Ordered.ofDatum?_toDatum (h : j.Ordered) : ofDatum? j.toDatum = some j := by
  induction h with
  | null => rfl
  | bool b => rfl
  | number n => cases n <;> rfl
  | string s => rfl
  | array _ ih => rw [toDatum, ofDatum?, itemsOfData?_itemsToData ih, Option.map_some]
  | object hsorted _ ih => rw [ofDatum?_object ih, sortMembers_eq_self hsorted]

/-! ## Records by their fields -/

/-- **An object written from slots is read into them**, with its members in
any order. -/
theorem fields?_written (hnames : names.Nodup) {slots : List (Option Json)}
    (hlength : slots.length = names.length)
    (hperm : members.Perm (Fields.written names slots)) :
    (object members).fields? names = some slots := by
  have hwritten : ((Fields.written names slots).map Prod.fst).Nodup :=
    hnames.sublist (Fields.keys_written names slots)
  have hmembers : (members.map Prod.fst).Nodup := (hperm.map _).nodup_iff.2 hwritten
  have hslots : (object members).fields? names = some (names.map fun name => members.lookup name) :=
    Fields.ofMembers?_map hnames hmembers fun _ _ => rfl
  simp only [hslots, lookup_perm hwritten hperm, Fields.map_lookup_written hnames hlength]

/-- A field that may be null or left out, written if it is there. -/
theorem valueOr_map {α : Type} {encode : α → Json} {decode : Json → Option α} {value : Option α}
    (h : ∀ a, value = some a → encode a ≠ .null ∧ decode (encode a) = some a) :
    Fields.valueOr none (optional? decode) (value.map encode) = some value := by
  cases value with
  | none => rfl
  | some a =>
    obtain ⟨hnull, hdecode⟩ := h a rfl
    show optional? decode (encode a) = _
    unfold optional?
    split
    · exact absurd ‹_› hnull
    · rw [hdecode, Option.map_some]

end Json

/-! ## Constraints -/

namespace ConstraintsField

variable {value : Json} {members : List (String × Json)} {field : ConstraintsField}

/-- **Constraints in the form of their own value**: the catch-all holds
nothing that another form is read from. -/
inductive Shaped : ConstraintsField → Prop
  | expressions (entries : List (String × String)) : Shaped (.expressions entries)
  | indexed (configs : List Json) : Shaped (.indexed configs)
  | unsupported {value : Json} : value ≠ .null → value.array? = none →
      (∀ members, value = .object members → ∃ m ∈ members, m.2.string? = none) →
      Shaped (.unsupported value)

/-- Members are no map of expressions exactly if one of them is no text. -/
theorem textMembers?_eq_none_iff :
    textMembers? members = none ↔ ∃ m ∈ members, m.2.string? = none := by
  induction members with
  | nil => exact iff_of_false nofun nofun
  | cons m rest ih =>
    obtain ⟨key, value⟩ := m
    rw [List.exists_mem_cons_iff]
    cases value with
    | string text =>
      have hrest : textMembers? ((key, .string text) :: rest) = none ↔ textMembers? rest = none :=
        Option.map_eq_none_iff
      exact hrest.trans (ih.trans (or_iff_right nofun).symm)
    | _ => exact iff_of_true rfl (.inl rfl)

theorem textMembers?_map (entries : List (String × String)) :
    textMembers? (entries.map fun e => (e.1, Json.string e.2)) = some entries := by
  induction entries with
  | nil => rfl
  | cons e rest ih => simp only [List.map_cons, textMembers?, ih, Option.map_some]

/-- **Constraints that are read have the form of their value.** -/
theorem shaped_ofJson (h : value ≠ .null) : (ofJson value).Shaped := by
  unfold ofJson
  split
  · rename_i members
    split
    · exact .expressions _
    · rename_i hnone
      refine .unsupported h rfl fun others heq => ?_
      cases heq
      exact textMembers?_eq_none_iff.1 hnone
  · exact .indexed _
  · rename_i hobject harray
    refine .unsupported h ?_ fun members heq => absurd heq (hobject members)
    cases value with
    | array items => exact absurd rfl (harray items)
    | _ => rfl

/-- **Such constraints are read back**: none of them is taken for another
form. -/
theorem Shaped.ofJson_toJson (h : field.Shaped) : ofJson field.toJson = field := by
  cases h with
  | expressions entries => simp only [toJson, ofJson, textMembers?_map]
  | indexed configs => rfl
  | @unsupported value _ harray htexts =>
    cases value with
    | object members =>
      simp only [toJson, ofJson, textMembers?_eq_none_iff.2 (htexts members rfl)]
    | array items => cases harray
    | _ => rfl

theorem Shaped.toJson_ne_null (h : field.Shaped) : field.toJson ≠ .null := by
  cases h with
  | unsupported hnull => exact hnull
  | _ => exact Json.noConfusion

end ConstraintsField

/-! ## Views -/

namespace ViewChange

variable {view : ViewChange} {members : List (String × Json)}

theorem nodup_fieldNames : fieldNames.Nodup := by decide

/-- The slots of a view, the first one always filled. -/
def slots (view : ViewChange) : List (Option Json) :=
  [some ((view.id.map Json.string).getD .null), view.superview.map .string,
    view.index.map fun n => .number (.natural n), view.typeTag.map .string,
    view.frame.map .object, view.properties.map .object, view.layer.map .object,
    view.constraints.map ConstraintsField.toJson]

theorem toJson_eq (view : ViewChange) :
    view.toJson = .object (Fields.written fieldNames view.slots) := by
  have hend : Fields.written ([] : List String) ([] : List (Option Json)) = [] := rfl
  unfold toJson fieldNames slots
  simp only [Fields.written_map, Fields.written_some, hend, List.append_assoc, List.append_nil]

/-- **A view is read back**, with its members in any order, if its constraints
have the form of their value. -/
theorem ofJson?_written (hshaped : ∀ field, view.constraints = some field → field.Shaped)
    (hperm : members.Perm (Fields.written fieldNames view.slots)) :
    ofJson? (.object members) = some view := by
  have hid : Fields.valueOr none (Json.optional? Json.string?)
      (some ((view.id.map Json.string).getD .null)) = some view.id := by
    cases view.id <;> rfl
  have htext : ∀ text : Option String,
      Fields.valueOr none (Json.optional? Json.string?) (text.map .string) = some text :=
    fun _ => Json.valueOr_map fun _ _ => ⟨Json.noConfusion, rfl⟩
  have hindex : Fields.valueOr none (Json.optional? Json.unsigned?)
      (view.index.map fun n => .number (.natural n)) = some view.index :=
    Json.valueOr_map fun _ _ => ⟨Json.noConfusion, rfl⟩
  have hbag : ∀ bag : Option (List (String × Json)),
      Fields.valueOr none (Json.optional? Json.object?) (bag.map .object) = some bag :=
    fun _ => Json.valueOr_map fun _ _ => ⟨Json.noConfusion, rfl⟩
  have hconstraints : Fields.valueOr none
      (Json.optional? fun j => some (ConstraintsField.ofJson j))
      (view.constraints.map ConstraintsField.toJson) = some view.constraints :=
    Json.valueOr_map fun field hfield =>
      ⟨(hshaped field hfield).toJson_ne_null, congrArg some (hshaped field hfield).ofJson_toJson⟩
  unfold ofJson?
  rw [Json.fields?_written nodup_fieldNames rfl hperm]
  simp only [slots, hid, htext, hindex, hbag, hconstraints, Option.bind_eq_bind, Option.bind_some]
  rfl

/-- The values of a view in order. -/
theorem ordered_of_mem_slots (hview : view.Ordered)
    (hconstraints : ∀ field, view.constraints = some field → field.toJson.Ordered) :
    ∀ v, some v ∈ view.slots → v.Ordered := by
  have hslots : view.slots.Forall (Fields.Holds Json.Ordered) := by
    refine ⟨.some ?_, .map fun _ _ => .string _, .map fun _ _ => .number _,
      .map fun _ _ => .string _, .map hview.frame, .map hview.properties, .map hview.layer,
      .map hconstraints⟩
    cases view.id with
    | none => exact .null
    | some id => exact .string id
  exact fun v hv => List.forall_iff_forall_mem.1 hslots _ hv v rfl

end ViewChange

/-! ## Entries -/

namespace Change

variable {value view : Json} {change : Change} {members : List (String × Json)}
variable {field : ConstraintsField}

theorem nodup_fieldNames : fieldNames.Nodup := by decide

/-- **An entry is read back**, with its members in any order, if its view
is. -/
theorem ofJson?_written (hview : ViewChange.ofJson? view = some change.view)
    (hperm : members.Perm [("operation", .string change.operationTag), ("view", view)]) :
    ofJson? (.object members) = some change := by
  have hslots : (Json.object members).fields? fieldNames =
      some [some (.string change.operationTag), some view] :=
    Json.fields?_written nodup_fieldNames rfl hperm
  unfold ofJson?
  rw [hslots]
  simp only [Fields.value?, Fields.valueOr, Option.bind_some, Json.string?, hview]

/-- **What the constraints of an entry were read from**: a value inside it that
is not null, and in order if the entry is. -/
theorem constraints_of_ofJson? (h : ofJson? value = some change)
    (hfield : change.view.constraints = some field) :
    ∃ v, v ≠ .null ∧ ConstraintsField.ofJson v = field ∧ (value.Ordered → v.Ordered) := by
  rcases view_of_ofJson? h with hempty | ⟨slots, held, hslots, hheld, hview⟩
  · rw [hempty] at hfield
    cases hfield
  · obtain ⟨parts, hparts, -, hconstraints⟩ := ViewChange.parts_of_ofJson? hview
    obtain ⟨v, hv, hnull, hform⟩ := hconstraints field hfield
    exact ⟨v, hnull, hform, fun hordered =>
      (hordered.of_fields? hslots held hheld).of_fields? hparts v hv⟩

/-- So they have the form of their value. -/
theorem shaped_of_ofJson? (h : ofJson? value = some change)
    (hfield : change.view.constraints = some field) : field.Shaped := by
  obtain ⟨v, hnull, rfl, -⟩ := constraints_of_ofJson? h hfield
  exact ConstraintsField.shaped_ofJson hnull

/-- And they are written as a value in order, if they were read from one. -/
theorem ordered_constraints (h : value.Ordered) (hchange : ofJson? value = some change)
    (hfield : change.view.constraints = some field) : field.toJson.Ordered := by
  obtain ⟨v, -, rfl, hordered⟩ := constraints_of_ofJson? hchange hfield
  rw [ConstraintsField.toJson_ofJson]
  exact hordered h

/-- **An entry that was read is read back** from what it is written as. -/
theorem ofJson?_toJson (h : ofJson? value = some change) : ofJson? change.toJson = some change := by
  refine ofJson?_written ?_ (.refl _)
  rw [ViewChange.toJson_eq]
  exact ViewChange.ofJson?_written (fun _ => shaped_of_ofJson? h) (.refl _)

/-- **And from that put in order**, which moves the members of the entry and
of its view, and nothing inside these. -/
theorem exists_encoded (h : value.Ordered) (hchange : ofJson? value = some change) :
    ∃ encoded, Json.ofDatum? change.toJson.toDatum = some encoded ∧
      ofJson? encoded = some change := by
  have hslots := ViewChange.ordered_of_mem_slots (ordered_of_ofJson? h hchange)
    fun _ => ordered_constraints h hchange
  have hkeys := ViewChange.nodup_fieldNames.sublist
    (Fields.keys_written ViewChange.fieldNames change.view.slots)
  have hview : Json.ofDatum? change.view.toJson.toDatum = some (.object
      (Json.sortMembers (Fields.written ViewChange.fieldNames change.view.slots))) := by
    rw [ViewChange.toJson_eq]
    exact Json.ofDatum?_object fun m hm =>
      (hslots m.2 (Fields.mem_of_mem_written hm).2).ofDatum?_toDatum
  have hread := ViewChange.ofJson?_written (fun _ => shaped_of_ofJson? hchange)
    (Json.sortMembers_perm hkeys)
  refine ⟨_, ?_, ofJson?_written hread (Json.sortMembers_perm nodup_fieldNames)⟩
  simp only [toJson, Json.toDatum, Json.membersToData, Json.ofDatum?, Json.membersOfData?, hview,
    Option.map_some]

end Change

/-! ## Sequences -/

namespace Session

variable {value encoded : Json} {change : Change}

/-- **Entries that are one change** do the same. -/
theorem apply_congr (session : Session) (h : Change.ofJson? encoded = Change.ofJson? value) :
    session.apply encoded = session.apply value := by
  unfold apply resolve
  rw [h]

/-- So one can stand for the other in any sequence. -/
theorem tweak_congr (h : Change.ofJson? encoded = Change.ofJson? value) (session : Session)
    (before after : List Json) :
    session.tweak (before ++ encoded :: after) = session.tweak (before ++ value :: after) := by
  induction before generalizing session with
  | nil => simp only [List.nil_append, tweak, session.apply_congr h]
  | cons entry rest ih => simp only [List.cons_append, tweak, ih]

/-- **A value that restates an entry**: it is read as the same change, and in
the place of the entry it leaves any session and report as they are. -/
structure Restates (encoded value : Json) (change : Change) : Prop where
  reads : Change.ofJson? encoded = some change
  tweaks : ∀ (session : Session) (before after : List Json),
    session.tweak (before ++ encoded :: after) = session.tweak (before ++ value :: after)

theorem Restates.of_reads (h : Change.ofJson? value = some change)
    (hencoded : Change.ofJson? encoded = some change) : Restates encoded value change :=
  ⟨hencoded, tweak_congr (hencoded.trans h.symm)⟩

/-- **Entries survive being encoded again.** Take any value that is read as a
change. The change is written as a value that is read as the same change: the
operation, the fields that are there and what they hold. So it is as the value
whose members are put in order, if those of the first one were. Either does
to a session what the first one did. Constraints come back in the form they
had, for the catch-all holds nothing that is read as a map of expressions, as
a list, or as none at all. -/
theorem reencoded_entry (h : Change.ofJson? value = some change) :
    Restates change.toJson value change ∧
      (value.Ordered → ∃ encoded, Json.ofDatum? change.toJson.toDatum = some encoded ∧
        encoded.Ordered ∧ Restates encoded value change) ∧
      ∀ field, change.view.constraints = some field →
        field.Shaped ∧ ConstraintsField.ofJson field.toJson = field := by
  refine ⟨.of_reads h (Change.ofJson?_toJson h), fun hordered => ?_, fun field hfield => ?_⟩
  · obtain ⟨encoded, hencoded, hread⟩ := Change.exists_encoded hordered h
    exact ⟨encoded, hencoded, Json.ordered_of_ofDatum? hencoded, .of_reads h hread⟩
  · have hshaped := Change.shaped_of_ofJson? h hfield
    exact ⟨hshaped, hshaped.ofJson_toJson⟩

/-- An entry given as a list, whose view has a key that means nothing, an
index that is null, and constraints of which one is a number. -/
def boxGlowing : Json :=
  .array [.string "modify",
    .object [("constraints", .object [("height", .string "40"), ("width", .number (.natural 20))]),
      ("glow", .bool true), ("id", .string "box"), ("index", .null)]]

/-- It comes back as an object, without the key and the index, its constraints
as they were. -/
theorem reencoded_entry_of_box :
    let sizes := Json.object [("height", .string "40"), ("width", .number (.natural 20))]
    let change : Change := ⟨"modify", { id := "box", constraints := some (.unsupported sizes) }⟩
    let written := Json.object [("operation", .string "modify"),
      ("view", .object [("id", .string "box"), ("constraints", sizes)])]
    boxGlowing.Ordered ∧ Change.ofJson? boxGlowing = some change ∧
      Restates written boxGlowing change ∧
      (∃ encoded, Json.ofDatum? written.toDatum = some encoded ∧ encoded.Ordered ∧
        Restates encoded boxGlowing change) ∧
      ConstraintsField.ofJson sizes = .unsupported sizes := by
  intro sizes change written
  have hordered : boxGlowing.Ordered := by decide +kernel
  have hread : Change.ofJson? boxGlowing = some change := rfl
  have hwritten : change.toJson = written := rfl
  obtain ⟨hrestates, hencoded, hform⟩ := reencoded_entry hread
  rw [hwritten] at hrestates hencoded
  exact ⟨hordered, hread, hrestates, hencoded hordered, (hform _ rfl).2⟩

end Session

end LiveLayout
