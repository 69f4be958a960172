import LiveLayout.Proofs.Admission
import LiveLayout.Proofs.SnapshotCodec
import LiveLayout.Proofs.Wording
/-!
# Finite constants

A literal is finite, and so is every number that a description gives, since
the numbers of a value are (`Json.Finite`). The numeral of an offset has any
length and is not held to the range, so the offset of an accepted expression
may be infinite: from one natural on, and from no smaller one
(`Expression.isFinite_offset_iff`). These offsets are all that an arena can
hold besides finite constants (`Constraint.Sourced`), and it does hold every
one of them as soon as it is accepted.
-/

namespace LiveLayout

/-! ## Offsets -/

/-- A reference has a finite offset unless its shift is too large. -/
theorem Wording.isFinite_offset_iff (w : Wording) :
    w.offset.isFinite = true ↔ ∀ shift, w.shift = some shift → shift.magnitude < Format.excess := by
  unfold Wording.offset
  cases w.shift with
  | none => exact iff_of_true (by decide) fun _ h => nomatch h
  | some shift =>
    simp only [Option.elim_some, Option.some.injEq, forall_eq']
    exact shift.isFinite_signedOffset_iff

namespace Expression

variable {text : String} {e : Expression}

theorem isFinite_of_parseNumber {x : Binary64} (h : parseNumber text = .ok x) :
    x.isFinite = true := by
  unfold parseNumber at h
  split at h
  · rename_i y hread
    cases h
    rw [readNumber?_eq] at hread
    exact (Option.filter_eq_some_iff.1 hread).2
  · cases h

/-- **The offset is finite** unless the text is a reference with a shift that
is too large. -/
theorem isFinite_offset_iff (h : parse text = .ok e) :
    e.offset.isFinite = true ↔
      ∀ (w : Wording) (shift : Shift), w.write = text → w.shift = some shift →
        shift.magnitude < Format.excess := by
  rcases parse_cases text with ⟨w, rfl, hparse⟩ | ⟨hnone, hnumber⟩
  · rw [hparse] at h
    cases h
    refine w.isFinite_offset_iff.trans ⟨fun hbelow v shift hv => ?_, fun hbelow shift => ?_⟩
    · rw [Wording.write_injective hv]
      exact hbelow shift
    · exact hbelow w shift rfl
  · refine iff_of_true ?_ fun w _ hw => absurd ⟨w, hw⟩ hnone
    rcases hnumber with ⟨x, hx, hliteral⟩ | ⟨-, herror⟩
    · rw [hliteral] at h
      cases h
      exact isFinite_of_parseNumber hx
    · rw [herror] at h
      cases h

/-- **The numeral of a shift, alone**, is refused if it is too large. -/
theorem parseNumber_numeral (shift : Shift) :
    parseNumber (String.ofList shift.numeral) =
      if shift.magnitude < Format.excess then .ok (signedOffset false shift.digits)
      else .error (.notANumber (String.ofList shift.numeral)) := by
  have hread : readNumber? (String.ofList shift.numeral) =
      if shift.magnitude < Format.excess then some (signedOffset false shift.digits) else none := by
    unfold Shift.numeral
    rw [readNumber?_eq, String.toList_ofList, Numeral.trim_writeDigits shift.areDigits,
      Numeral.read?_writeDigits shift.areDigits shift.nonempty, Option.filter_some]
    have hfinite := Decimal.isFinite_toBinary_iff false shift.magnitude
    by_cases h : shift.magnitude < Format.excess
    · exact (if_pos (hfinite.2 h)).trans (if_pos h).symm
    · exact (if_neg fun hin => h (hfinite.1 hin)).trans (if_neg h).symm
  unfold parseNumber
  by_cases h : shift.magnitude < Format.excess
  · simp only [hread, if_pos h]
  · simp only [hread, if_neg h]

end Expression

/-! ## Values with finite numbers -/

namespace Json

mutual

/-- The floating-point numbers in a value, at every depth. -/
def doubles : Json → List Binary64
  | number (.double x) => [x]
  | array items => doublesOfItems items
  | object members => doublesOfMembers members
  | _ => []

def doublesOfItems : List Json → List Binary64
  | [] => []
  | item :: rest => item.doubles ++ doublesOfItems rest

def doublesOfMembers : List (String × Json) → List Binary64
  | [] => []
  | (_, value) :: rest => value.doubles ++ doublesOfMembers rest

end

/-- **A value whose numbers are finite**, as those of every document are. -/
def Finite (j : Json) : Prop := ∀ x ∈ j.doubles, x.isFinite = true

instance : DecidablePred Finite :=
  fun j => inferInstanceAs (Decidable (∀ x ∈ j.doubles, x.isFinite = true))

/-- The values that a value is made of. -/
def parts : Json → List Json
  | array items => items
  | object members => members.map (·.2)
  | _ => []

variable {j v : Json} {names : List String}

theorem mem_doublesOfItems {x : Binary64} {items : List Json} (hv : v ∈ items)
    (hx : x ∈ v.doubles) : x ∈ doublesOfItems items := by
  induction items with
  | nil => cases hv
  | cons item rest ih =>
    rcases List.mem_cons.1 hv with rfl | hv
    · exact List.mem_append_left _ hx
    · exact List.mem_append_right _ (ih hv)

theorem mem_doublesOfMembers {x : Binary64} {m : String × Json} {members : List (String × Json)}
    (hm : m ∈ members) (hx : x ∈ m.2.doubles) : x ∈ doublesOfMembers members := by
  induction members with
  | nil => cases hm
  | cons first rest ih =>
    rcases List.mem_cons.1 hm with rfl | hm
    · exact List.mem_append_left _ hx
    · exact List.mem_append_right _ (ih hm)

/-- The parts of a value with finite numbers are such values. -/
theorem Finite.part (h : j.Finite) (hv : v ∈ j.parts) : v.Finite := by
  intro x hx
  cases j with
  | array items => exact h x (mem_doublesOfItems hv hx)
  | object members =>
    obtain ⟨m, hm, rfl⟩ := List.mem_map.1 hv
    exact h x (mem_doublesOfMembers hm hx)
  | _ => cases hv

/-- **A number of such a value is finite**, however it is given. -/
theorem Finite.toDouble {n : Number} (h : (number n).Finite) : n.toDouble.isFinite = true := by
  have hexcess : 2 ^ 64 ≤ Format.excess := by decide +kernel
  cases n with
  | natural n =>
    have hlt : n.toNat < 2 ^ 64 := n.toNat_lt
    exact (Binary.isFinite_ofRatio_one_iff _).2 (by omega)
  | negative i =>
    have hlow : -2 ^ 63 ≤ i.toInt := i.le_toInt
    have hhigh : i.toInt < 2 ^ 63 := i.toInt_lt
    exact (Binary.isFinite_ofRatio_one_iff _).2 (by omega)
  | double x => exact h x List.mem_cons_self

/-- The fields of a value are parts of it. -/
theorem mem_parts_of_fields? {slots : List (Option Json)} (hslots : j.fields? names = some slots) :
    ∀ v, some v ∈ slots → v ∈ j.parts := by
  cases j with
  | array items => exact Fields.forall_of_ofList? (fun _ hv => hv) hslots
  | object members =>
    refine Fields.forall_of_ofMembers? (fun v hv => ?_) (fun m hm => ?_) hslots
    · obtain ⟨_, -, heq⟩ := List.mem_map.1 hv
      cases heq
    · obtain ⟨m', hm', rfl⟩ := List.mem_map.1 hm
      exact List.mem_map_of_mem hm'
  | _ => cases hslots

theorem itemsToData_eq_map (items : List Json) : itemsToData items = items.map toDatum := by
  induction items with
  | nil => rfl
  | cons item rest ih => exact congrArg (item.toDatum :: ·) ih

theorem membersToData_eq_map (members : List (String × Json)) :
    membersToData members = members.map fun m => (Datum.text m.1, m.2.toDatum) := by
  induction members with
  | nil => rfl
  | cons m rest ih => exact congrArg ((Datum.text m.1, m.2.toDatum) :: ·) ih

/-- The fields of a value as a datum are parts of it as data. -/
theorem part_of_fields?_toDatum {slots : List (Option Datum)}
    (hslots : j.toDatum.fields? names = some slots) :
    ∀ d, some d ∈ slots → ∃ v ∈ j.parts, v.toDatum = d := by
  cases j with
  | array items =>
    refine Fields.forall_of_ofList? (fun d hd => ?_) hslots
    rw [itemsToData_eq_map] at hd
    exact List.mem_map.1 hd
  | object members =>
    have hkeys : (membersToData members).mapM
        (fun m : Datum × Datum => (Datum.fieldOf? names m.1).map fun index => (index, m.2)) =
        some (members.map fun m => (names.idxOf? m.1, m.2.toDatum)) := by
      rw [membersToData_eq_map]
      exact mapM_map_eq_some fun _ _ => rfl
    obtain ⟨keyed, hkeyed, hslots⟩ := Option.bind_eq_some_iff.1 hslots
    cases hkeys.symm.trans hkeyed
    refine Fields.forall_of_ofMembers? (fun d hd => ?_) (fun m hm => ?_) hslots
    · obtain ⟨_, -, heq⟩ := List.mem_map.1 hd
      cases heq
    · obtain ⟨m', hm', rfl⟩ := List.mem_map.1 hm
      exact ⟨m'.2, List.mem_map_of_mem hm', rfl⟩
  | number n => cases n <;> cases hslots
  | null => cases hslots
  | bool => cases hslots
  | string => cases hslots

/-- A value read as a number is one. -/
theorem eq_number_of_double? {x : Binary64} (h : j.toDatum.double? = some x) :
    ∃ n, j = .number n ∧ n.toDouble = x := by
  cases j with
  | number n => cases n <;> exact ⟨_, rfl, Option.some.inj h⟩
  | _ => cases h

end Json

/-! ## Descriptions and entries -/

/-- **What a description gives for a constant is finite.** -/
theorem ConstraintConfig.isFinite_of_ofDatum? {j : Json} {c : ConstraintConfig} {x : Binary64}
    (h : j.Finite) (hc : ofDatum? j.toDatum = some c) (hx : c.constant = some x) :
    x.isFinite = true := by
  unfold ofDatum? at hc
  split at hc
  · rename_i first second relation slot multiplier isActive priority idx added hslots
    simp only [Option.bind_eq_bind, Option.bind_eq_some_iff] at hc
    obtain ⟨_, -, _, -, _, -, _, hslot, _, -, _, -, _, -, _, -, _, -, hc⟩ := hc
    cases hc
    obtain rfl := hx
    cases slot with
    | none => cases hslot
    | some d =>
      have hmem : some d ∈
          [first, second, relation, some d, multiplier, isActive, priority, idx, added] := by
        simp only [List.mem_cons, true_or, or_true]
      obtain ⟨v, hv, rfl⟩ := Json.part_of_fields?_toDatum hslots d hmem
      have hdouble : v.toDatum.double? = some x := by
        have hoptional : Datum.optional? Datum.double? v.toDatum = some (some x) := hslot
        unfold Datum.optional? at hoptional
        split at hoptional
        · cases hoptional
        · obtain ⟨_, hdouble, heq⟩ := Option.map_eq_some_iff.1 hoptional
          cases heq
          exact hdouble
      obtain ⟨n, rfl, rfl⟩ := Json.eq_number_of_double? hdouble
      exact (h.part hv).toDouble
  · cases hc

theorem ViewChange.finite_of_ofJson? {value : Json} {view : ViewChange} {configs : List Json}
    (h : value.Finite) (hview : ofJson? value = some view)
    (hconfigs : view.constraints = some (.indexed configs)) :
    ∀ config ∈ configs, config.Finite := by
  obtain ⟨slots, hslots, -, hconstraints⟩ := parts_of_ofJson? hview
  obtain ⟨v, hmem, -, hv⟩ := hconstraints _ hconfigs
  have hwritten := ConstraintsField.toJson_ofJson v
  rw [hv] at hwritten
  obtain rfl : Json.array configs = v := hwritten
  have hfinite := h.part (Json.mem_parts_of_fields? hslots _ hmem)
  exact fun config hconfig => hfinite.part hconfig

/-- **The descriptions of an entry** have finite numbers if the entry has. -/
theorem Change.finite_of_ofJson? {entry : Json} {change : Change} {configs : List Json}
    (h : entry.Finite) (hchange : ofJson? entry = some change)
    (hconfigs : change.view.constraints = some (.indexed configs)) :
    ∀ config ∈ configs, config.Finite := by
  rcases view_of_ofJson? hchange with hempty | ⟨slots, v, hslots, hmem, hview⟩
  · rw [hempty] at hconfigs
    cases hconfigs
  · exact ViewChange.finite_of_ofJson? (h.part (Json.mem_parts_of_fields? hslots v hmem)) hview
      hconfigs

/-! ## The arena -/

/-- **A constant that is finite or the offset of an expression** in the log,
which was accepted for these anchors. -/
def Constraint.Sourced (log : List Acceptance) (c : Constraint) : Prop :=
  c.constant.isFinite = true ∨
    ∃ a ∈ log, c.first = a.target ∧ c.second = a.second ∧ c.constant = a.expression.offset

theorem Constraint.unswitched_sourced (log : List Acceptance) : Unswitched (Sourced log) :=
  fun _ _ _ h => h

namespace Tree

variable {tree : Tree} {registry : Registry} {idx : NodeIndex} {modify : Bool}
variable {log accepted : List Acceptance} {a : Acceptance}

/-- A constant that a description may leave out is zero then, and finite. -/
theorem isFinite_getD_constant {config : ConstraintConfig}
    (h : ∀ x, config.constant = some x → x.isFinite = true) :
    (config.constant.getD .zero).isFinite = true := by
  cases hx : config.constant with
  | none => decide
  | some x => exact h x hx

/-- Acceptances put in force are in the log. -/
theorem Throughout.sourced_constrainAll (h : tree.Throughout (Constraint.Sourced log))
    (hlog : ∀ a ∈ accepted, a ∈ log) :
    (tree.constrainAll modify accepted).Throughout (Constraint.Sourced log) := by
  induction accepted generalizing tree with
  | nil => exact h
  | cons a rest ih =>
    have hstep : (tree.constrain modify a.constraint).Throughout (Constraint.Sourced log) :=
      h.constrain (Constraint.unswitched_sourced log)
        (.inr ⟨a, hlog a List.mem_cons_self, rfl, rfl, rfl⟩) modify
    exact ih hstep fun b hb => hlog b (List.mem_cons_of_mem _ hb)

theorem constant_of_toLive? {config : ConstraintConfig} {c : Constraint}
    (h : config.toLive? tree idx = some c) : c.constant = config.constant.getD .zero := by
  unfold ConstraintConfig.toLive? at h
  split at h
  · split at h
    · cases h
      rfl
    · cases h
  · cases h

/-- **A description leaves finite constants.** -/
theorem Throughout.sourced_applyConfig (h : tree.Throughout (Constraint.Sourced log))
    {entry : Json × Nat} (hfinite : entry.1.Finite) :
    (tree.applyConfig idx entry).1.Throughout (Constraint.Sourced log) := by
  have hkeep := Constraint.unswitched_sourced log
  unfold applyConfig
  split
  · exact h
  · rename_i config hconfig
    have hconstant := isFinite_getD_constant fun x hx =>
      ConstraintConfig.isFinite_of_ofDatum? hfinite hconfig hx
    split
    · exact h.updateConstraint hkeep (fun _ _ => .inl hconstant) _ _
    · split
      · rename_i live hlive
        exact h.addConstraint hkeep (.inl (constant_of_toLive? hlive ▸ hconstant))
      · exact h

theorem Throughout.sourced_applyConfigs {entries : List (Json × Nat)}
    (h : tree.Throughout (Constraint.Sourced log)) (hfinite : ∀ e ∈ entries, e.1.Finite) :
    (Diagnostic.collect (applyConfig idx) tree entries).1.Throughout (Constraint.Sourced log) := by
  induction entries generalizing tree with
  | nil => exact h
  | cons e rest ih =>
    exact ih (h.sourced_applyConfig (hfinite e List.mem_cons_self)) fun e' he' =>
      hfinite e' (List.mem_cons_of_mem _ he')

/-! ## What an entry accepts is there -/

/-- **Every acceptance for an attribute of its own** has its constraint in
the arena. -/
theorem Coherent.exists_constraint?_constrainAll (h : tree.Coherent)
    (hanchored : ∀ a ∈ accepted, tree.Anchored a.constraint)
    (hnodup : (accepted.map (·.target)).Nodup) (ha : a ∈ accepted) :
    ∃ id owner, (tree.constrainAll modify accepted).constraint? id =
      some { a.constraint with owner := some owner } := by
  induction accepted generalizing tree with
  | nil => cases ha
  | cons b rest ih =>
    have hb := hanchored b List.mem_cons_self
    obtain ⟨owner, ho, -⟩ := h.exists_ownerFor? hb
    obtain ⟨hnotin, hrest⟩ := List.nodup_cons.1 hnodup
    have hshape : tree.SameShape (tree.constrain modify b.constraint) := sameShape_constrain
    have hanchored' : ∀ c ∈ rest, (tree.constrain modify b.constraint).Anchored c.constraint :=
      fun c hc => hshape.anchored (hanchored c (List.mem_cons_of_mem _ hc))
    have hcoherent := h.constrain modify hb
    rcases List.mem_cons.1 ha with rfl | ha
    · have hput : (tree.constrain modify a.constraint).constraint?
          (tree.slotFor (tree.prior? modify a.constraint)) =
          some { a.constraint with owner := some owner } :=
        ((h.enforced modify rfl ho).constraint? _).trans (if_pos rfl)
      have hne : ∀ c ∈ rest, a.target ≠ c.target :=
        fun c hc heq => hnotin (List.mem_map.2 ⟨c, hc, heq.symm⟩)
      exact ⟨_, owner, (hcoherent.constraint?_constrainAll_of_ne hanchored' hne).2 hput⟩
    · exact ih hcoherent hanchored' hrest ha

end Tree

namespace Engine

variable {engine : Engine} {idx : NodeIndex} {log : List Acceptance} {view : ViewChange}

/-- **The content of an entry** leaves constants that are accounted for. -/
theorem sourced_applyContent (h : engine.tree.Throughout (Constraint.Sourced log)) (modify : Bool)
    (hfinite : ∀ configs, view.constraints = some (.indexed configs) →
      ∀ config ∈ configs, config.Finite) :
    (engine.applyContent idx modify view).1.tree.Throughout
      (Constraint.Sourced (log ++ engine.accepted idx modify view)) := by
  have hstyled : (engine.styled idx view).tree.Throughout
      (Constraint.Sourced (log ++ engine.accepted idx modify view)) := by
    intro id c hc
    unfold Tree.constraint? at hc
    rw [constraints_styled] at hc
    exact (h id c hc).imp_right fun ⟨a, ha, hsame⟩ => ⟨a, List.mem_append_left _ ha, hsame⟩
  rw [applyContent_eq]
  cases hfield : view.constraints with
  | none => exact hstyled
  | some field =>
    cases field with
    | expressions entries =>
      simp only [Tree.applyConstraints, Tree.collect_applyExpression]
      refine hstyled.sourced_constrainAll fun a ha => List.mem_append_right _ ?_
      unfold accepted
      rw [hfield]
      simp only [Tree.accepted_eq]
      exact ha
    | indexed configs =>
      refine hstyled.sourced_applyConfigs fun e he => hfinite configs hfield e.1 ?_
      exact List.fst_mem_of_mem_zipIdx he
    | unsupported value => exact hstyled

/-- **What the content accepts is in the arena** after it. -/
theorem Sound.exists_constraint?_applyContent {modify : Bool} (h : engine.Sound)
    (hidx : idx < engine.tree.size) (hview : view.Ordered) {a : Acceptance}
    (ha : a ∈ engine.accepted idx modify view) :
    ∃ id owner, (engine.applyContent idx modify view).1.tree.constraint? id =
      some { a.constraint with owner := some owner } := by
  have hedited := edited_styled engine idx view
  have hstyled : (engine.styled idx view).Sound := h.of_edited hidx hedited
  have hidx' : idx < (engine.styled idx view).tree.size := hedited.tree.sameShape.size ▸ hidx
  rw [applyContent_eq]
  unfold accepted at ha
  cases hfield : view.constraints with
  | none =>
    rw [hfield] at ha
    cases ha
  | some field =>
    rw [hfield] at ha
    cases field with
    | expressions entries =>
      simp only [Tree.accepted_eq] at ha
      simp only [Tree.applyConstraints, Tree.collect_applyExpression]
      exact hstyled.coherent.exists_constraint?_constrainAll
        (fun b hb => Tree.anchored_of_mem_acceptances hstyled.coherent.toRooted hidx' hb)
        (Tree.nodup_targets (hview.expressions entries hfield)) ha
    | indexed configs => cases ha
    | unsupported value => cases ha

end Engine

namespace Session

variable {session : Session} {log : List Acceptance} {entry : Json}

/-- A modify's frame has no part in the arena. -/
theorem constraint?_modify (engine : Engine) (idx : NodeIndex) (view : ViewChange)
    (id : ConstraintId) :
    (engine.modify idx view).1.tree.constraint? id =
      (engine.applyContent idx true view).1.tree.constraint? id := by
  rw [Engine.modify_eq]
  cases view.frame with
  | none => rfl
  | some fields => exact Tree.constraint?_applyFrame fields id

/-- **Every entry with finite numbers** leaves constants that are accounted
for. -/
theorem sourced_apply (h : session.engine.tree.Throughout (Constraint.Sourced log))
    (hfinite : entry.Finite) :
    (session.apply entry).1.engine.tree.Throughout
      (Constraint.Sourced (log ++ session.acceptedBy entry)) := by
  unfold apply acceptedBy
  cases hr : session.resolve entry with
  | error diagnostic =>
    rw [List.append_nil]
    exact h
  | ok action =>
    cases action with
    | insert id parent type view =>
      obtain ⟨-, change, hchange, rfl⟩ := resolve_insert hr
      have hplanted : (session.engine.planted id parent type change.view).tree.Throughout
          (Constraint.Sourced log) := h
      exact Engine.sourced_applyContent hplanted false fun configs =>
        Change.finite_of_ofJson? hfinite hchange
    | modify idx view =>
      obtain ⟨-, change, hchange, rfl⟩ := resolve_modify hr
      intro id c hc
      refine Engine.sourced_applyContent h true
        (fun configs => Change.finite_of_ofJson? hfinite hchange) id c ?_
      exact (constraint?_modify session.engine idx change.view id).symm.trans hc

/-- **What an entry accepts is in the arena** after it. -/
theorem exists_constraint?_of_acceptedBy (h : session.engine.Sound) (hordered : entry.Ordered)
    {a : Acceptance} (ha : a ∈ session.acceptedBy entry) :
    ∃ id owner, (session.apply entry).1.engine.tree.constraint? id =
      some { a.constraint with owner := some owner } := by
  unfold apply
  unfold acceptedBy at ha
  cases hr : session.resolve entry with
  | error diagnostic =>
    rw [hr] at ha
    cases ha
  | ok action =>
    rw [hr] at ha
    cases action with
    | insert id parent type view =>
      obtain ⟨hparent, change, hchange, rfl⟩ := resolve_insert hr
      have hplanted := h.planted (h.within _ _ hparent) id type change.view
      exact hplanted.exists_constraint?_applyContent
        (session.engine.nextIndex_lt_planted id parent type change.view)
        (Change.ordered_of_ofJson? hordered hchange) ha
    | modify idx view =>
      obtain ⟨⟨id, -, hid⟩, change, hchange, rfl⟩ := resolve_modify hr
      obtain ⟨slot, owner, hslot⟩ := h.exists_constraint?_applyContent (h.within _ _ hid)
        (Change.ordered_of_ofJson? hordered hchange) ha
      exact ⟨slot, owner, (constraint?_modify session.engine idx change.view slot).trans hslot⟩

/-- One more entry leads to a session reached. -/
theorem Reached.apply (h : session.Reached) (entry : Json) : (session.apply entry).1.Reached :=
  h.tweak [entry]

/-- What was accepted of the entries that were met. -/
def acceptedOf (met : List (Session × Json)) : List Acceptance :=
  met.flatMap fun m => m.1.acceptedBy m.2

/-- **Every constant of a session reached is accounted for.** -/
theorem Course.sourced {met : List (Session × Json)}
    (h : session.Course (fun session entry => [(session, entry)]) met)
    (hfinite : ∀ m ∈ met, m.2.Finite) :
    session.engine.tree.Throughout (Constraint.Sourced (acceptedOf met)) := by
  revert hfinite
  refine h.invariant
    (P := fun engine met => (∀ m ∈ met, m.2.Finite) →
      engine.tree.Throughout (Constraint.Sourced (acceptedOf met)))
    (fun config images _ id c hc => by cases hc) fun s met _ hmet entry hfinite => ?_
  obtain ⟨hbefore, hentry⟩ := List.forall_mem_append.1 hfinite
  have hstep := sourced_apply (hmet hbefore) (hentry (s, entry) List.mem_cons_self)
  unfold acceptedOf at hstep ⊢
  rwa [List.flatMap_append, List.flatMap_singleton]

/-- **What is finite of constants.** The offset of an expression is finite
unless it is a shift by a numeral that is too large; the numeral alone
decides. In a session reached every constant of the arena is finite or the
offset of an expression that was accepted for its anchors, so all are as
long as no such shift is accepted. And the arena has the offset of every
expression of an entry once it is accepted. -/
theorem constants_finite_but_for_shifts {met : List (Session × Json)}
    (h : session.Course (fun session entry => [(session, entry)]) met)
    (hfinite : ∀ m ∈ met, m.2.Finite) :
    (∀ text e, Expression.parse text = .ok e →
      (e.offset.isFinite = true ↔
        ∀ (w : Wording) (shift : Shift), w.write = text → w.shift = some shift →
          shift.magnitude < Format.excess)) ∧
      (∀ id c, session.engine.tree.constraint? id = some c →
        c.constant.isFinite = true ∨
          ∃ a ∈ acceptedOf met, c.first = a.target ∧ c.second = a.second ∧
            c.constant = a.expression.offset) ∧
      ∀ entry, entry.Ordered → ∀ a ∈ session.acceptedBy entry,
        ∃ id c, (session.apply entry).1.engine.tree.constraint? id = some c ∧
          c.active = true ∧ c.first = a.target ∧ c.second = a.second ∧
          c.constant = a.expression.offset := by
  refine ⟨fun _ _ => Expression.isFinite_offset_iff, h.sourced hfinite,
    fun entry hordered a ha => ?_⟩
  obtain ⟨id, owner, hid⟩ :=
    exists_constraint?_of_acceptedBy h.reached.sound hordered ha
  exact ⟨id, _, hid, rfl, rfl, rfl, rfl⟩

/-! ### A shift that is too large -/

/-- An entry that gives the box a height by a description. -/
def boxRaised : Json :=
  .object [("operation", .string "modify"),
    ("view", .object [("constraints", .array [.object [
      ("constant", .number (.double (.ofBits 0x3fe0000000000000))),
      ("first", .object [("attribute", .string "height"), ("item", .string "box")])]]),
      ("id", .string "box")])]

/-- A box as wide as the root and half a point high. -/
def boxRaisedSession : Session :=
  ((initial .standard .none).tweak [boxInserted, boxRaised]).1

/-- An entry that gives the box its width by an expression. -/
def boxSized (text : String) : Json :=
  .object [("operation", .string "modify"),
    ("view", .object [("constraints", .object [("width", .string text)]), ("id", .string "box")])]

/-- A shift by a one and 309 zeros. -/
def farShift : Shift where
  negative := false
  digits := 1 :: List.replicate 309 0
  areDigits := List.forall_mem_cons.2 ⟨by decide, Numeral.areDigits_zeros 309⟩
  nonempty := List.cons_ne_nil _ _
  leading := by decide

/-- The root's attribute, shifted by that. -/
def farReference : Wording where
  target := ⟨['s', 'u', 'p', 'e', 'r', 'v', 'i', 'e', 'w'], by decide,
    List.all_eq_true.1 (by decide)⟩
  field := none
  shift := some farShift

theorem ordered_boxSized (text : String) : (boxSized text).Ordered := by
  have hentry : "operation" < "view" := by decide
  have hview : "constraints" < "id" := by decide
  refine .object (List.pairwise_pair.2 hentry) (List.forall_mem_cons.2 ⟨.string _, ?_⟩)
  refine List.forall_mem_singleton.2 (.object (List.pairwise_pair.2 hview) ?_)
  refine List.forall_mem_cons.2 ⟨?_, List.forall_mem_singleton.2 (.string _)⟩
  exact .object (List.pairwise_singleton _ _) (List.forall_mem_singleton.2 (.string _))

theorem excess_le_farShift : Format.excess ≤ farShift.magnitude := by decide +kernel

/-- It is read as a reference to the root, with an infinite offset. -/
theorem exists_parse_farReference :
    ∃ offset, Expression.parse farReference.write = .ok (.relative "superview" none offset) ∧
      offset.isFinite = false := by
  have htarget : farReference.target.text = "superview" := by decide
  refine ⟨farReference.offset, ?_, ?_⟩
  · rw [Expression.parse_write, Wording.expression, htarget]
    rfl
  · rw [← Bool.not_eq_true, farReference.isFinite_offset_iff]
    exact fun hbelow => Nat.not_lt_of_le excess_le_farShift (hbelow farShift rfl)

/-- The box takes its width from the root, whatever the offset is. -/
theorem mem_acceptedBy_boxSized {text : String} {offset : Binary64}
    (h : Expression.parse text = .ok (.relative "superview" none offset)) :
    ⟨⟨1, .width⟩, some ⟨0, .width⟩, .relative "superview" none offset⟩ ∈
      boxRaisedSession.acceptedBy (boxSized text) := by
  have hown : Attribute.ofName? "width" = some .width := by decide
  have hsecond : boxRaisedSession.engine.tree.secondFor boxRaisedSession.engine.registry 1 "width"
      .width (.relative "superview" none offset) = .ok (some ⟨0, .width⟩) := by
    have hresolve : boxRaisedSession.engine.registry.resolve? boxRaisedSession.engine.tree 1
        (Reference.ofTarget "superview") = some 0 := by decide +kernel
    unfold Tree.secondFor
    simp only [hresolve, Option.getD_none, hown, if_true]
  have howner : boxRaisedSession.engine.tree.ownerFor? ⟨1, .width⟩ (some ⟨0, .width⟩) = some 0 := by
    decide +kernel
  have haccept : boxRaisedSession.engine.tree.accept? boxRaisedSession.engine.registry 1
      ("width", text) =
      some ⟨⟨1, .width⟩, some ⟨0, .width⟩, .relative "superview" none offset⟩ := by
    unfold Tree.accept?
    simp only [h, hown, hsecond, howner, Option.map_some]
  show _ ∈ (boxRaisedSession.engine.tree.accept? boxRaisedSession.engine.registry 1
    ("width", text)).toList ++ []
  rw [haccept]
  exact List.mem_cons_self

/-- The constants of a box are finite, its described height of a half among
them, until its width is shifted out of the range. -/
theorem constants_finite_but_for_shifts_of_box :
    let session := boxRaisedSession
    let met := (initial .standard .none).account (fun session entry => [(session, entry)])
      [boxInserted, boxRaised]
    session.Course (fun session entry => [(session, entry)]) met ∧ (∀ m ∈ met, m.2.Finite) ∧
      session.engine.tree.constraints.size = 2 ∧
      (∀ id c, session.engine.tree.constraint? id = some c → c.constant.isFinite = true) ∧
      ∃ id c, (session.apply (boxSized farReference.write)).1.engine.tree.constraint? id = some c ∧
        c.active = true ∧ c.first = ⟨1, .width⟩ ∧ c.constant.isFinite = false := by
  intro session met
  have hcourse : session.Course (fun session entry => [(session, entry)]) met :=
    .tweak _ (.initial _ _ _)
  have hfinite : ∀ m ∈ met, m.2.Finite := by
    have hentries : ∀ entry ∈ [boxInserted, boxRaised], entry.Finite := by decide +kernel
    exact List.forall_mem_map.1 hentries
  have haccepted : ∀ a ∈ acceptedOf met, a.expression.offset.isFinite = true := by decide +kernel
  obtain ⟨-, harena, hput⟩ := constants_finite_but_for_shifts hcourse hfinite
  refine ⟨hcourse, hfinite, by decide +kernel, fun id c hc => ?_, ?_⟩
  · rcases harena id c hc with hfinite | ⟨a, ha, -, -, heq⟩
    · exact hfinite
    · rw [heq]
      exact haccepted a ha
  · obtain ⟨offset, hparse, hinfinite⟩ := exists_parse_farReference
    obtain ⟨id, c, hc, hon, hfirst, -, hconstant⟩ :=
      hput (boxSized farReference.write) (ordered_boxSized _) _ (mem_acceptedBy_boxSized hparse)
    refine ⟨id, c, hc, hon, hfirst, ?_⟩
    rw [hconstant]
    exact hinfinite

/-- **A shift is not held to the range** that a literal is held to. The
numeral alone is refused; behind a reference it is accepted and becomes an
infinite constant in force. -/
theorem shift_out_of_range :
    let numeral := String.ofList farShift.numeral
    Expression.parseNumber numeral = .error (.notANumber numeral) ∧
      farReference.write = "$(superview) + " ++ numeral ∧
      (∃ offset, Expression.parse farReference.write = .ok (.relative "superview" none offset) ∧
        offset.isFinite = false) ∧
      (∃ id c, (boxRaisedSession.apply (boxSized farReference.write)).1.engine.tree.constraint? id =
        some c ∧ c.active = true ∧ c.constant.isFinite = false) ∧
      (¬∀ text e, Expression.parse text = .ok e → e.offset.isFinite = true) ∧
      ¬∀ (session : Session) id c, session.Reached →
        session.engine.tree.constraint? id = some c → c.constant.isFinite = true := by
  intro numeral
  obtain ⟨offset, hparse, hinfinite⟩ := exists_parse_farReference
  have hreached : boxRaisedSession.Reached := .tweak _ (.initial _ _ _)
  obtain ⟨id, owner, hid⟩ := exists_constraint?_of_acceptedBy hreached.sound
    (ordered_boxSized farReference.write) (mem_acceptedBy_boxSized hparse)
  refine ⟨?_, ?_, ⟨offset, hparse, hinfinite⟩, ⟨id, _, hid, rfl, hinfinite⟩,
    fun hall => ?_, fun hall => ?_⟩
  · rw [Expression.parseNumber_numeral, if_neg (Nat.not_lt_of_le excess_le_farShift)]
  · have hfront : "$(" ++ farReference.target.text ++ ")" ++ "" ++ " + " = "$(superview) + " := by
      decide
    have hwrite (target : Word Expression.isTargetChar) (shift : Shift)
        (h : shift.negative = false) : (Wording.mk target none (some shift)).write =
          "$(" ++ target.text ++ ")" ++ "" ++ " + " ++ String.ofList shift.numeral := by
      simp only [Wording.write_eq, Option.elim_none, Option.elim_some, h, Bool.false_eq_true,
        if_false, String.append_assoc]
    exact (hwrite farReference.target farShift rfl).trans (congrArg (· ++ numeral) hfront)
  · cases hinfinite.symm.trans (hall _ _ hparse)
  · have hnext := hreached.apply (boxSized farReference.write)
    cases hinfinite.symm.trans (hall _ id _ hnext hid)

end Session

end LiveLayout
