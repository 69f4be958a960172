import LiveLayout.Json.Reader
import LiveLayout.Change
/-!
# Documents in order

An object is a map: its members stand in ascending order of their keys, and
no key is there twice. `Json.Ordered` says so of a value at every depth.
Every value that is read is of this kind (`ordered_of_parse?`), and so are
the parts of an entry (`ordered_of_ofJson?`).
-/

namespace LiveLayout

namespace Json

/-- **Every object in the value is a map**, its keys ascending. -/
inductive Ordered : Json → Prop
  | null : Ordered .null
  | bool (b : Bool) : Ordered (.bool b)
  | number (n : Number) : Ordered (.number n)
  | string (s : String) : Ordered (.string s)
  | array {items : List Json} : (∀ item ∈ items, Ordered item) → Ordered (.array items)
  | object {members : List (String × Json)} : members.Pairwise (fun m m' => m.1 < m'.1) →
      (∀ m ∈ members, Ordered m.2) → Ordered (.object members)

mutual

/-- Being in order can be checked, value by value. -/
def decideOrdered : (j : Json) → Decidable j.Ordered
  | .null => isTrue .null
  | .bool b => isTrue (.bool b)
  | .number n => isTrue (.number n)
  | .string s => isTrue (.string s)
  | .array items =>
    match decideItems items with
    | isTrue h => isTrue (.array h)
    | isFalse h => isFalse fun
      | .array hitems => h hitems
  | .object members =>
    match (inferInstance : Decidable (members.Pairwise fun m m' => m.1 < m'.1)),
      decideMembers members with
    | isTrue hp, isTrue hm => isTrue (.object hp hm)
    | isFalse hp, _ => isFalse fun
      | .object hsorted _ => hp hsorted
    | _, isFalse hm => isFalse fun
      | .object _ hmembers => hm hmembers

def decideItems : (items : List Json) → Decidable (∀ item ∈ items, item.Ordered)
  | [] => isTrue fun _ hitem => absurd hitem List.not_mem_nil
  | item :: rest =>
    match decideOrdered item, decideItems rest with
    | isTrue h, isTrue hrest => isTrue (List.forall_mem_cons.2 ⟨h, hrest⟩)
    | isFalse h, _ => isFalse fun hall => h (List.forall_mem_cons.1 hall).1
    | _, isFalse hrest => isFalse fun hall => hrest (List.forall_mem_cons.1 hall).2

def decideMembers : (members : List (String × Json)) → Decidable (∀ m ∈ members, m.2.Ordered)
  | [] => isTrue fun _ hm => absurd hm List.not_mem_nil
  | (_, value) :: rest =>
    match decideOrdered value, decideMembers rest with
    | isTrue h, isTrue hrest => isTrue (List.forall_mem_cons.2 ⟨h, hrest⟩)
    | isFalse h, _ => isFalse fun hall => h (List.forall_mem_cons.1 hall).1
    | _, isFalse hrest => isFalse fun hall => hrest (List.forall_mem_cons.1 hall).2

end

instance : DecidablePred Ordered := decideOrdered

/-! ## Members in order -/

section Members

variable {α : Type} {key : String} {value : α} {m : String × α} {members : List (String × α)}

theorem mem_insertMember (h : m ∈ insertMember key value members) :
    m = (key, value) ∨ m ∈ members := by
  induction members with
  | nil => exact .inl (List.mem_singleton.1 h)
  | cons m' rest ih =>
    unfold insertMember at h
    split at h
    · exact List.mem_cons.1 h
    · split at h
      · rcases List.mem_cons.1 h with rfl | h
        · exact .inl rfl
        · exact .inr (List.mem_cons_of_mem _ h)
      · rcases List.mem_cons.1 h with rfl | h
        · exact .inr List.mem_cons_self
        · exact (ih h).imp_right (List.mem_cons_of_mem _)

/-- **A member put into its place leaves the keys ascending.** -/
theorem pairwise_insertMember (h : members.Pairwise fun m m' => m.1 < m'.1) :
    (insertMember key value members).Pairwise fun m m' => m.1 < m'.1 := by
  induction members with
  | nil => exact List.pairwise_singleton _ _
  | cons m' rest ih =>
    obtain ⟨hfirst, hrest⟩ := List.pairwise_cons.1 h
    unfold insertMember
    split
    · rename_i hlt
      refine List.pairwise_cons.2 ⟨fun m hm => ?_, h⟩
      rcases List.mem_cons.1 hm with rfl | hm
      · exact hlt
      · exact String.lt_trans hlt (hfirst m hm)
    · rename_i hnot
      split
      · rename_i heq
        exact List.pairwise_cons.2 ⟨fun m hm => heq ▸ hfirst m hm, hrest⟩
      · rename_i hne
        refine List.pairwise_cons.2 ⟨fun m hm => ?_, ih hrest⟩
        rcases mem_insertMember hm with rfl | hm
        · refine String.not_le.1 fun hle => hne ?_
          exact String.le_antisymm hle (String.not_lt.1 hnot)
        · exact hfirst m hm

/-- Sorted members ascend, and are among the ones that were sorted. -/
theorem sortMembers_spec (members : List (String × α)) :
    (sortMembers members).Pairwise (fun m m' => m.1 < m'.1) ∧
      ∀ m ∈ sortMembers members, m ∈ members := by
  -- the members put into place so far ascend, and the rest follow one by one
  have hfold : ∀ rest sorted : List (String × α),
      sorted.Pairwise (fun m m' => m.1 < m'.1) → (∀ m ∈ sorted, m ∈ members) →
      (∀ m ∈ rest, m ∈ members) →
      (rest.foldl (fun sorted m => insertMember m.1 m.2 sorted) sorted).Pairwise
          (fun m m' => m.1 < m'.1) ∧
        ∀ m ∈ rest.foldl (fun sorted m => insertMember m.1 m.2 sorted) sorted, m ∈ members := by
    intro rest
    induction rest with
    | nil => exact fun sorted h hin _ => ⟨h, hin⟩
    | cons m' rest ih =>
      intro sorted h hin hrest
      refine ih _ (pairwise_insertMember h) (fun m hm => ?_) fun m hm =>
        hrest m (List.mem_cons_of_mem _ hm)
      rcases mem_insertMember hm with rfl | hm
      · exact hrest m' List.mem_cons_self
      · exact hin m hm
  exact hfold members [] .nil (fun m hm => absurd hm List.not_mem_nil) fun m hm => hm

end Members

/-- Keys that ascend are different. -/
theorem nodup_keys {α : Type} {members : List (String × α)}
    (h : members.Pairwise fun m m' => m.1 < m'.1) : (members.map (·.1)).Nodup := by
  refine List.pairwise_map.2 (h.imp ?_)
  intro m m' hlt heq
  exact String.lt_irrefl m.1 (heq ▸ hlt)

/-! ## Members by their keys -/

section Keys

variable {α : Type} {key : String} {value : α} {members others : List (String × α)}

/-- Where keys are different, a key leads to its member. -/
theorem lookup_eq_some_iff_mem (h : (members.map (·.1)).Nodup) :
    members.lookup key = some value ↔ (key, value) ∈ members := by
  rw [List.lookup_eq_some_iff]
  constructor
  · rintro ⟨before, after, rfl, -⟩
    exact List.mem_append_right _ List.mem_cons_self
  · intro hmem
    obtain ⟨before, after, rfl⟩ := List.append_of_mem hmem
    refine ⟨before, after, rfl, fun m hm => bne_iff_ne.2 fun heq => ?_⟩
    rw [List.map_append, List.nodup_append] at h
    exact h.2.2 m.1 (List.mem_map_of_mem hm) key List.mem_cons_self heq.symm

/-- The order of members has no part in where keys lead. -/
theorem lookup_perm (h : (members.map (·.1)).Nodup) (hperm : others.Perm members)
    (key : String) : others.lookup key = members.lookup key := by
  have hothers : (others.map (·.1)).Nodup := (hperm.map _).nodup_iff.2 h
  refine Option.ext fun value => ?_
  rw [lookup_eq_some_iff_mem hothers, lookup_eq_some_iff_mem h]
  exact hperm.mem_iff

end Keys

/-! ## Values that are read -/

mutual

/-- **A value made of data is in order.** -/
theorem ordered_of_ofDatum? : ∀ {d : Datum} {j : Json}, ofDatum? d = some j → j.Ordered
  | .null, _, h => by
    cases h
    exact .null
  | .bool b, _, h => by
    cases h
    exact .bool b
  | .natural n, _, h => by
    cases h
    exact .number _
  | .integer i, _, h => by
    cases h
    exact .number _
  | .double x, _, h => by
    cases h
    exact .number _
  | .text s, _, h => by
    cases h
    exact .string s
  | .list items, _, h => by
    obtain ⟨values, hvalues, rfl⟩ := Option.map_eq_some_iff.1 h
    exact .array (ordered_of_itemsOfData? hvalues)
  | .record members, _, h => by
    obtain ⟨values, hvalues, rfl⟩ := Option.map_eq_some_iff.1 h
    obtain ⟨hsorted, hin⟩ := sortMembers_spec values
    exact .object hsorted fun m hm => ordered_of_membersOfData? hvalues m (hin m hm)
  | .single _, _, h => by cases h
  | .bytes _, _, h => by cases h
  | .invalid, _, h => by cases h

theorem ordered_of_itemsOfData? : ∀ {items : List Datum} {values : List Json},
    itemsOfData? items = some values → ∀ value ∈ values, value.Ordered
  | [], _, h => by
    cases h
    exact fun value hvalue => absurd hvalue List.not_mem_nil
  | item :: rest, _, h => by
    unfold itemsOfData? at h
    split at h
    · rename_i hitem hrest
      cases h
      intro value hvalue
      rcases List.mem_cons.1 hvalue with rfl | hvalue
      · exact ordered_of_ofDatum? hitem
      · exact ordered_of_itemsOfData? hrest value hvalue
    · cases h

theorem ordered_of_membersOfData? : ∀ {members : List (Datum × Datum)}
    {values : List (String × Json)},
    membersOfData? members = some values → ∀ m ∈ values, m.2.Ordered
  | [], _, h => by
    cases h
    exact fun m hm => absurd hm List.not_mem_nil
  | (key, item) :: rest, _, h => by
    unfold membersOfData? at h
    split at h
    · rename_i heq
      cases heq
    · rename_i heq
      cases heq
      split at h
      · rename_i hitem hrest
        cases h
        intro m hm
        rcases List.mem_cons.1 hm with rfl | hm
        · exact ordered_of_ofDatum? hitem
        · exact ordered_of_membersOfData? hrest m hm
      · cases h
    · cases h

end

/-- **Every value that a text spells is in order.** -/
theorem ordered_of_parse? {text : String} {j : Json} (h : parse? text = some j) : j.Ordered := by
  obtain ⟨d, -, hd⟩ := Option.bind_eq_some_iff.1 h
  exact ordered_of_ofDatum? hd

end Json

/-! ## The parts of an entry -/

theorem Fields.forall_of_ofList? {α : Type} {P : α → Prop} {count : Nat} {items : List α}
    {filled : List (Option α)} (hitems : ∀ v ∈ items, P v) (h : ofList? count items = some filled) :
    ∀ v, some v ∈ filled → P v := by
  unfold ofList? at h
  split at h
  · cases h
    intro v hv
    rcases List.mem_append.1 hv with hv | hv
    · obtain ⟨item, hitem, heq⟩ := List.mem_map.1 hv
      cases heq
      exact hitems _ hitem
    · cases (List.mem_replicate.1 hv).2
  · cases h

theorem Fields.forall_of_ofMembers? {α : Type} {P : α → Prop}
    {members : List (Option Nat × α)} {slots filled : List (Option α)}
    (hslots : ∀ v, some v ∈ slots → P v) (hmembers : ∀ m ∈ members, P m.2)
    (h : ofMembers? slots members = some filled) : ∀ v, some v ∈ filled → P v := by
  induction members generalizing slots with
  | nil =>
    cases h
    exact hslots
  | cons m rest ih =>
    have hrest : ∀ m ∈ rest, P m.2 := fun m hm => hmembers m (List.mem_cons_of_mem _ hm)
    obtain ⟨_ | index, value⟩ := m
    · exact ih hslots hrest h
    · obtain ⟨placed, hplaced, h⟩ := Option.bind_eq_some_iff.1 h
      refine ih (fun v hv => ?_) hrest h
      unfold place? at hplaced
      split at hplaced
      · cases hplaced
        rcases List.mem_or_eq_of_mem_set hv with hv | heq
        · exact hslots v hv
        · cases heq
          exact hmembers _ List.mem_cons_self
      · cases hplaced

namespace Json

variable {α : Type} {names : List String} {value j : Json} {slots : List (Option Json)}

/-- The fields of a value in order are in order. -/
theorem Ordered.of_fields? (h : value.Ordered) (hslots : value.fields? names = some slots) :
    ∀ v, some v ∈ slots → v.Ordered := by
  cases h with
  | array hitems => exact Fields.forall_of_ofList? hitems hslots
  | object _ hmembers =>
    refine Fields.forall_of_ofMembers? (fun v hv => ?_) (fun m hm => ?_) hslots
    · obtain ⟨_, -, heq⟩ := List.mem_map.1 hv
      cases heq
    · obtain ⟨m', hm', rfl⟩ := List.mem_map.1 hm
      exact hmembers m' hm'
  | null => cases hslots
  | bool => cases hslots
  | number => cases hslots
  | string => cases hslots

/-- A value under an optional field is what its slot decodes to, which is not
null. -/
theorem slot_of_valueOr {decode : Json → Option α} {slot : Option Json} {a : α}
    (h : Fields.valueOr none (optional? decode) slot = some (some a)) :
    ∃ v, slot = some v ∧ v ≠ .null ∧ decode v = some a := by
  cases slot with
  | none => cases h
  | some v =>
    have hv : optional? decode v = some (some a) := h
    unfold optional? at hv
    split at hv
    · cases hv
    · rename_i hnull
      obtain ⟨_, hdecode, heq⟩ := Option.map_eq_some_iff.1 hv
      cases heq
      exact ⟨v, rfl, hnull, hdecode⟩

theorem eq_object_of_object? {members : List (String × Json)} (h : j.object? = some members) :
    j = .object members := by
  cases j with
  | object => exact congrArg object (Option.some.inj h)
  | _ => cases h

end Json

namespace ConstraintsField

/-- An expression map written is the object it was read from. -/
theorem members_of_textMembers? {members : List (String × Json)}
    {entries : List (String × String)} (h : textMembers? members = some entries) :
    entries.map (fun e => (e.1, Json.string e.2)) = members := by
  induction members generalizing entries with
  | nil =>
    cases h
    rfl
  | cons m rest ih =>
    unfold textMembers? at h
    split at h
    · rename_i heq
      cases heq
    · rename_i heq
      cases heq
      obtain ⟨others, hothers, rfl⟩ := Option.map_eq_some_iff.1 h
      rw [List.map_cons, ih hothers]
    · cases h

/-- **Constraints written are the value they were read from**, whatever form
that had. -/
theorem toJson_ofJson (value : Json) : (ofJson value).toJson = value := by
  unfold ofJson
  split
  · split
    · rename_i hentries
      exact congrArg Json.object (members_of_textMembers? hentries)
    · rfl
  · rfl
  · rfl

end ConstraintsField

/-- **The parts of a view are maps**: bags are in order, and no name has two
expressions. -/
structure ViewChange.Ordered (view : ViewChange) : Prop where
  properties : ∀ bag, view.properties = some bag → (Json.object bag).Ordered
  layer : ∀ bag, view.layer = some bag → (Json.object bag).Ordered
  frame : ∀ bag, view.frame = some bag → (Json.object bag).Ordered
  expressions : ∀ entries, view.constraints = some (.expressions entries) →
    (entries.map (·.1)).Nodup

/-- The attributes of a map of expressions are different. -/
theorem ConstraintsField.nodup_of_ofJson {value : Json} {entries : List (String × String)}
    (h : value.Ordered) (hv : ofJson value = .expressions entries) :
    (entries.map (·.1)).Nodup := by
  have hvalue := toJson_ofJson value
  rw [hv] at hvalue
  obtain rfl := hvalue
  cases h with
  | object hsorted _ =>
    have hkeys := Json.nodup_keys hsorted
    rwa [List.map_map] at hkeys

/-- **What a view took from a value**: its bags are fields of it, and so is
what its constraints were read from, which was not null. -/
theorem ViewChange.parts_of_ofJson? {value : Json} {view : ViewChange}
    (hview : ofJson? value = some view) :
    ∃ slots, value.fields? fieldNames = some slots ∧
      (∀ bag, view.frame = some bag ∨ view.properties = some bag ∨ view.layer = some bag →
        some (Json.object bag) ∈ slots) ∧
      ∀ field, view.constraints = some field →
        ∃ v, some v ∈ slots ∧ v ≠ .null ∧ ConstraintsField.ofJson v = field := by
  unfold ofJson? at hview
  split at hview
  · rename_i id superview index typeTag frame properties layer constraints hslots
    simp only [Option.bind_eq_bind, Option.bind_eq_some_iff] at hview
    obtain ⟨_, -, _, -, _, -, _, -, _, hframe, _, hproperties, _, hlayer, _, hconstraints, hview⟩ :=
      hview
    cases hview
    have hbag : ∀ {slot : Option Json} {bag : List (String × Json)},
        Fields.valueOr none (Json.optional? Json.object?) slot = some (some bag) →
        slot = some (.object bag) := by
      intro slot bag hslot
      obtain ⟨v, rfl, -, hv⟩ := Json.slot_of_valueOr hslot
      rw [Json.eq_object_of_object? hv]
    refine ⟨_, hslots, fun bag hin => ?_, fun field hfield => ?_⟩
    · rcases hin with rfl | rfl | rfl
      · simp only [hbag hframe, List.mem_cons, true_or, or_true]
      · simp only [hbag hproperties, List.mem_cons, true_or, or_true]
      · simp only [hbag hlayer, List.mem_cons, true_or, or_true]
    · obtain rfl := hfield
      obtain ⟨v, rfl, hnull, hv⟩ := Json.slot_of_valueOr hconstraints
      exact ⟨v, by simp only [List.mem_cons, true_or, or_true], hnull, Option.some.inj hv⟩
  · cases hview

/-- **The view of an entry** is left out, or read from a field of it. -/
theorem Change.view_of_ofJson? {entry : Json} {change : Change}
    (hchange : ofJson? entry = some change) :
    change.view = {} ∨ ∃ slots v, entry.fields? fieldNames = some slots ∧ some v ∈ slots ∧
      ViewChange.ofJson? v = some change.view := by
  unfold ofJson? at hchange
  split at hchange
  · rename_i tag view hslots
    split at hchange
    · rename_i hview
      cases hchange
      cases view with
      | none =>
        cases hview
        exact .inl rfl
      | some v =>
        refine .inr ⟨_, v, hslots, ?_, hview⟩
        simp only [List.mem_cons, true_or, or_true]
    · cases hchange
  · cases hchange

theorem ViewChange.ordered_of_ofJson? {value : Json} {view : ViewChange} (h : value.Ordered)
    (hview : ofJson? value = some view) : view.Ordered := by
  obtain ⟨slots, hslots, hbags, hconstraints⟩ := parts_of_ofJson? hview
  have hordered := h.of_fields? hslots
  refine ⟨fun bag hbag => hordered _ (hbags bag (.inr (.inl hbag))),
    fun bag hbag => hordered _ (hbags bag (.inr (.inr hbag))),
    fun bag hbag => hordered _ (hbags bag (.inl hbag)), fun entries hentries => ?_⟩
  obtain ⟨v, hmem, -, hv⟩ := hconstraints _ hentries
  exact ConstraintsField.nodup_of_ofJson (hordered v hmem) hv

/-- **The view of an entry in order is in order.** -/
theorem Change.ordered_of_ofJson? {entry : Json} {change : Change} (h : entry.Ordered)
    (hchange : ofJson? entry = some change) : change.view.Ordered := by
  rcases view_of_ofJson? hchange with hempty | ⟨slots, v, hslots, hmem, hview⟩
  · rw [hempty]
    exact ⟨nofun, nofun, nofun, nofun⟩
  · exact ViewChange.ordered_of_ofJson? (h.of_fields? hslots v hmem) hview

end LiveLayout
