import LiveLayout.Proofs.Baselines
import LiveLayout.Proofs.JsonText
import LiveLayout.Proofs.SnapshotCodec
/-!
# Snapshots in both transmissions

Bytes carry every description. Text carries everything of a description but
its numbers, and those as far as a number's own text is read back as the
number (`ConstraintConfig.Survives`): that decides whether the two
transmissions of a baseline agree. Infinite numbers have no text, and
baselines can hold them: a priority becomes infinite when a change gives one
that is too large for its format.
-/

namespace LiveLayout

-- Powers of naturals are the ones of the core library, whatever else is imported.
attribute [local instance (high)] instPowNat

/-! ## Numbers -/

/-- **A 64-bit number survives** if its text is read as the number. -/
def Binary64.Survives (x : Binary64) : Prop :=
  (Json.read? (Datum.double x).render).bind Datum.double? = some x

/-- **A 32-bit number survives** if its text is read as the number. -/
def Binary32.Survives (x : Binary32) : Prop :=
  (Json.read? (Datum.single x).render).bind Datum.single? = some x

instance (x : Binary64) : Decidable (Binary64.Survives x) :=
  inferInstanceAs (Decidable (_ = some x))

instance (x : Binary32) : Decidable (Binary32.Survives x) :=
  inferInstanceAs (Decidable (_ = some x))

theorem Binary64.survives_iff (x : Binary64) :
    Binary64.Survives x ↔ (Datum.retoldNumber .double x).double? = some x := by
  unfold Survives
  rw [(Datum.Printable.double x).read?_render]
  rfl

theorem Binary32.survives_iff (x : Binary32) :
    Binary32.Survives x ↔ (Datum.retoldNumber .single x).single? = some x := by
  unfold Survives
  rw [(Datum.Printable.single x).read?_render]
  rfl

/-- A number that is not finite is read as null. -/
theorem Datum.retoldNumber_of_not_finite {f : Format} (layout : Layout) {x : Binary f}
    (h : x.isFinite = false) : retoldNumber layout x = .null := by
  have hfield : x.exponentField = 2 ^ f.exponentBits - 1 := by
    unfold Binary.isFinite at h
    exact eq_of_beq (Bool.not_eq_false' .. ▸ h)
  have hnone : x.numeral? layout = none := by
    unfold Binary.numeral? Binary.value
    rw [if_pos hfield]
    by_cases hfraction : x.fraction = 0
    · rw [if_pos hfraction]
    · rw [if_neg hfraction]
  unfold retoldNumber
  rw [hnone]

/-! ## Data retold -/

namespace Fields

variable {α β : Type}

theorem map_written (change : α → β) (names : List String) (slots : List (Option α)) :
    (written names slots).map (fun m => (m.1, change m.2)) =
      written names (slots.map (Option.map change)) := by
  induction names generalizing slots with
  | nil => rfl
  | cons name names ih =>
    cases slots with
    | nil => rfl
    | cons slot slots =>
      cases slot with
      | none => exact ih slots
      | some value => exact congrArg ((name, change value) :: ·) (ih slots)

end Fields

namespace Datum

theorem retold_written (names : List String) (slots : List (Option Datum)) :
    (Datum.named (Fields.written names slots)).retold =
      .named (Fields.written names (slots.map (Option.map retold))) := by
  unfold Datum.named
  rw [retold, retoldMembers_eq_map, ← Fields.map_written, List.map_map, List.map_map]
  rfl

/-- A record is printable if its values are. -/
theorem Printable.written {levels : Nat} {names : List String} {slots : List (Option Datum)}
    (h : slots.Forall (Fields.Holds (Printable levels))) :
    Printable (levels + 1) (.named (Fields.written names slots)) :=
  .record fun _ hm => List.forall_iff_forall_mem.1 h _ (Fields.mem_of_mem_written hm).2 _ rfl

theorem retold_ofSigned (i : Int64) : (ofSigned i).retold = ofSigned i := by
  unfold ofSigned
  split
  · rfl
  · rename_i hneg
    show ofSigned i = _
    unfold ofSigned
    rw [if_neg hneg]

end Datum

variable {levels : Nat}

theorem Symbol.printable (symbol : Symbol) : Datum.Printable levels symbol.toDatum := by
  cases symbol with
  | name text => exact .text text
  | code value =>
    show Datum.Printable levels (.ofSigned value)
    unfold Datum.ofSigned
    split
    · exact .natural _
    · exact .integer _

theorem AnchorConfig.printable (a : AnchorConfig) : Datum.Printable (levels + 1) a.toDatum := by
  have hitem : Datum.Printable levels ((a.item.map Datum.text).getD .null) := by
    cases a.item with
    | none => exact .null
    | some item => exact .text item
  have hsymbol : Datum.Printable levels ((a.symbol.map Symbol.toDatum).getD .null) := by
    cases a.symbol with
    | none => exact .null
    | some symbol => exact symbol.printable
  rw [toDatum_eq]
  exact .written ⟨.some hitem, .some hsymbol⟩

/-- **Every description is printable**, whatever it holds. -/
theorem ConstraintConfig.printable (c : ConstraintConfig) :
    Datum.Printable (levels + 2) c.toDatum := by
  rw [toDatum_eq]
  exact .written
    ⟨.some c.first.printable, .map fun a _ => a.printable, .map fun symbol _ => symbol.printable,
      .map fun x _ => .double x, .map fun x _ => .double x, .some (.bool _), .some (.single _),
      .map fun n _ => .natural n, .some (.bool _)⟩

theorem Symbol.retold_toDatum (symbol : Symbol) : symbol.toDatum.retold = symbol.toDatum := by
  cases symbol with
  | name text => rfl
  | code value => exact Datum.retold_ofSigned value

theorem AnchorConfig.retold_toDatum (a : AnchorConfig) : a.toDatum.retold = a.toDatum := by
  have hslots : a.slots.map (Option.map Datum.retold) = a.slots := by
    have hitem : ((a.item.map Datum.text).getD .null).retold =
        (a.item.map Datum.text).getD .null := by
      cases a.item <;> rfl
    have hsymbol : ((a.symbol.map Symbol.toDatum).getD .null).retold =
        (a.symbol.map Symbol.toDatum).getD .null := by
      cases a.symbol with
      | none => rfl
      | some symbol => exact symbol.retold_toDatum
    simp only [slots, List.map_cons, List.map_nil, Option.map_some, hitem, hsymbol]
  rw [toDatum_eq, Datum.retold_written, hslots]

namespace ConstraintConfig

/-- **The text of a description** keeps everything but its numbers. -/
theorem retold_toDatum (c : ConstraintConfig) :
    c.toDatum.retold = .named (Fields.written fieldNames
      (c.slotsWith (c.constant.map (Datum.retoldNumber .double))
        (c.multiplier.map (Datum.retoldNumber .double))
        (Datum.retoldNumber .single c.priority))) := by
  have hsecond : (c.second.map AnchorConfig.toDatum).map Datum.retold =
      c.second.map AnchorConfig.toDatum := by
    rw [Option.map_map]
    exact Option.map_congr fun a _ => a.retold_toDatum
  have hrelation : (c.relation.map Symbol.toDatum).map Datum.retold =
      c.relation.map Symbol.toDatum := by
    rw [Option.map_map]
    exact Option.map_congr fun symbol _ => symbol.retold_toDatum
  rw [toDatum_eq, Datum.retold_written]
  simp only [slots, slotsWith, List.map_cons, List.map_nil, Option.map_some, hsecond, hrelation,
    c.first.retold_toDatum, Option.map_map]
  rfl

/-- **A description survives** if its numbers do. -/
structure Survives (c : ConstraintConfig) : Prop where
  constant : ∀ x ∈ c.constant, Binary64.Survives x
  multiplier : ∀ x ∈ c.multiplier, Binary64.Survives x
  priority : Binary32.Survives c.priority

/-- A number that may be absent is decoded as it was if it survives. -/
theorem valueOr_retoldNumber (value : Option Binary64) :
    Fields.valueOr none (Datum.optional? Datum.double?)
        (value.map (Datum.retoldNumber .double)) = some value ↔
      ∀ x ∈ value, Binary64.Survives x := by
  cases value with
  | none => exact iff_of_true rfl fun _ hx => nomatch hx
  | some x =>
    have hsurvives : (∀ y ∈ some x, Binary64.Survives y) ↔ Binary64.Survives x :=
      ⟨fun h => h x rfl, fun h y hy => Option.some.inj hy ▸ h⟩
    rw [hsurvives, Binary64.survives_iff]
    show Datum.optional? Datum.double? (Datum.retoldNumber .double x) = some (some x) ↔ _
    unfold Datum.optional?
    split
    · rename_i hnull
      rw [hnull]
      constructor
      · intro h
        cases h
      · intro h
        cases h
    · rw [Option.map_eq_some_iff]
      constructor
      · rintro ⟨y, hy, heq⟩
        cases heq
        exact hy
      · exact fun h => ⟨x, h, rfl⟩

/-- **A description is decoded from its text** exactly if it survives. -/
theorem ofDatum?_retold (c : ConstraintConfig) :
    ofDatum? c.toDatum.retold = some c ↔ c.Survives := by
  rw [retold_toDatum, ofDatum?_slotsWith]
  constructor
  · intro h
    obtain ⟨constant, hconstant, h⟩ := Option.bind_eq_some_iff.1 h
    obtain ⟨multiplier, hmultiplier, h⟩ := Option.bind_eq_some_iff.1 h
    obtain ⟨priority, hpriority, heq⟩ := Option.map_eq_some_iff.1 h
    have hc := congrArg (fun c : ConstraintConfig => (c.constant, c.multiplier, c.priority)) heq
    obtain ⟨rfl, rfl, rfl⟩ : constant = c.constant ∧ multiplier = c.multiplier ∧
        priority = c.priority := by
      simpa only [Prod.mk.injEq] using hc
    exact ⟨(valueOr_retoldNumber _).1 hconstant, (valueOr_retoldNumber _).1 hmultiplier,
      (Binary32.survives_iff _).2 hpriority⟩
  · intro h
    rw [(valueOr_retoldNumber _).2 h.constant, (valueOr_retoldNumber _).2 h.multiplier,
      Option.bind_some, Option.bind_some, (Binary32.survives_iff _).1 h.priority]
    rfl

/-- **A priority that is not finite** leaves a text that describes nothing:
null is not a priority. -/
theorem ofDatum?_retold_of_not_finite {c : ConstraintConfig} (h : c.priority.isFinite = false) :
    ofDatum? c.toDatum.retold = none := by
  have hpriority : (Datum.retoldNumber .single c.priority).single? = none := by
    rw [Datum.retoldNumber_of_not_finite _ h]
    rfl
  rw [retold_toDatum, ofDatum?_slotsWith, hpriority]
  simp only [Option.map_none, Option.bind_fun_none]

end ConstraintConfig

/-- A list is decoded item by item as it was if every item is. -/
theorem mapM_map_eq_some_iff {α β : Type} {decode : β → Option α} {encode : α → β} {l : List α} :
    (l.map encode).mapM decode = some l ↔ ∀ a ∈ l, decode (encode a) = some a := by
  induction l with
  | nil => exact iff_of_true rfl fun _ ha => nomatch ha
  | cons a rest ih =>
    rw [List.map_cons, List.mapM_cons, List.forall_mem_cons, ← ih]
    cases decode (encode a) with
    | none => simp
    | some b =>
      cases (rest.map encode).mapM decode with
      | none => simp
      | some bs => simp

/-- A list is not decoded if one of its items is not. -/
theorem mapM_map_eq_none {α β : Type} {decode : β → Option α} {encode : α → β} {l : List α}
    {a : α} (ha : a ∈ l) (hnone : decode (encode a) = none) :
    (l.map encode).mapM decode = none := by
  induction l with
  | nil => cases ha
  | cons b rest ih =>
    rw [List.map_cons, List.mapM_cons]
    rcases List.mem_cons.1 ha with rfl | ha
    · rw [hnone]
      rfl
    · rw [ih ha]
      cases decode (encode b) <;> rfl

/-! ## Lists of descriptions -/

namespace Snapshot

variable {configs : List ConstraintConfig}

theorem printable (configs : List ConstraintConfig) :
    Datum.Printable (levels + 3) (toDatum configs) := by
  refine .list fun d hd => ?_
  obtain ⟨c, -, rfl⟩ := List.mem_map.1 hd
  exact c.printable

/-- **What JSON text decodes to**: the retold descriptions, each on its
own. -/
theorem decode_encodeJson (configs : List ConstraintConfig) :
    decodeJson (encodeJson configs) =
      match (configs.map fun c => c.toDatum.retold).mapM ConstraintConfig.ofDatum? with
      | some configs => .ok configs
      | none => .error .json := by
  have hprintable : Datum.Printable (124 + 3) (toDatum configs) := printable configs
  have hretold : (toDatum configs).retold = .list (configs.map fun c => c.toDatum.retold) := by
    unfold toDatum
    rw [Datum.retold, Datum.retoldItems_eq_map, List.map_map]
    rfl
  unfold decodeJson encodeJson
  rw [Datum.Printable.read?_render hprintable, hretold]
  rfl

/-- **JSON snapshots round trip** exactly if every number survives. -/
theorem decode_encodeJson_iff :
    decodeJson (encodeJson configs) = .ok configs ↔ ∀ c ∈ configs, c.Survives := by
  have hdecoded : (configs.map fun c => c.toDatum.retold).mapM ConstraintConfig.ofDatum? =
      some configs ↔ ∀ c ∈ configs, ConstraintConfig.ofDatum? c.toDatum.retold = some c :=
    mapM_map_eq_some_iff
  simp only [ConstraintConfig.ofDatum?_retold] at hdecoded
  rw [decode_encodeJson, ← hdecoded]
  constructor
  · intro h
    split at h
    · rename_i heq
      cases h
      exact heq
    · cases h
  · intro h
    rw [h]

/-- Text is not decoded at all if a priority is not finite. -/
theorem decode_encodeJson_of_not_finite {c : ConstraintConfig} (hc : c ∈ configs)
    (h : c.priority.isFinite = false) : decodeJson (encodeJson configs) = .error .json := by
  rw [decode_encodeJson,
    mapM_map_eq_none hc (ConstraintConfig.ofDatum?_retold_of_not_finite h)]

end Snapshot

/-! ## Baselines -/

/-- **A constraint survives** if its numbers do. -/
structure Constraint.Survives (c : Constraint) : Prop where
  constant : Binary64.Survives c.constant
  multiplier : Binary64.Survives c.multiplier
  priority : Binary32.Survives c.priority

instance (c : Constraint) : Decidable c.Survives :=
  decidable_of_iff
    (Binary64.Survives c.constant ∧ Binary64.Survives c.multiplier ∧ Binary32.Survives c.priority)
    ⟨fun h => ⟨h.1, h.2.1, h.2.2⟩, fun h => ⟨h.constant, h.multiplier, h.priority⟩⟩

theorem Constraint.survives_described {c : Constraint} {first : AnchorConfig}
    {second : Option AnchorConfig} {i : Nat} :
    (c.described first second i).Survives ↔ c.Survives := by
  constructor
  · intro h
    exact ⟨h.constant _ rfl, h.multiplier _ rfl, h.priority⟩
  · intro h
    exact ⟨fun x hx => Option.some.inj hx ▸ h.constant,
      fun x hx => Option.some.inj hx ▸ h.multiplier, h.priority⟩

namespace Tree

variable {tree : Tree} {n : NodeIndex} {config : ConstraintConfig}

/-- **What a baseline lists**: the descriptions of what the snapshot list
addresses. -/
theorem mem_baseline : config ∈ tree.baseline n ↔
    ∃ id i, (tree.snapshot n)[i]? = some id ∧ ConstraintConfig.ofLive? tree id i = some config := by
  unfold baseline
  rw [List.mem_filterMap]
  constructor
  · rintro ⟨⟨id, i⟩, hentry, hlive⟩
    exact ⟨id, i, List.mem_zipIdx_iff_getElem?.1 hentry, hlive⟩
  · rintro ⟨id, i, hi, hlive⟩
    exact ⟨(id, i), List.mem_zipIdx_iff_getElem?.2 hi, hlive⟩

/-- **Short identifiers**: those of the node and its children are. -/
def ShortNames (tree : Tree) (n : NodeIndex) : Prop :=
  ∀ m node, tree.Family n m → tree.node? m = some node → Short [node.id]

theorem ShortNames.texts_of_describeAnchor? {anchor : Anchor} {a : AnchorConfig}
    (h : tree.ShortNames n) (hm : tree.Family n anchor.node)
    (ha : ConstraintConfig.describeAnchor? tree anchor = some a) : Short a.texts := by
  obtain ⟨node, hnode, rfl⟩ := Option.map_eq_some_iff.1 ha
  exact h anchor.node node hm hnode

/-- **The description of a local constraint** has short texts: the
identifiers are all it has. -/
theorem ShortNames.texts_described {c : Constraint} {a : AnchorConfig} {b : Option AnchorConfig}
    (h : tree.ShortNames n) (hlocal : tree.LocalTo n c)
    (ha : ConstraintConfig.describeAnchor? tree c.first = some a)
    (hb : ConstraintConfig.describeSecond? tree c.second = some b) (i : Nat) :
    Short (c.described a b i).texts := by
  have hfirst : Short a.texts := h.texts_of_describeAnchor? hlocal.first ha
  have hsecond : Short (b.elim [] AnchorConfig.texts) := by
    cases hs : c.second with
    | none =>
      rw [hs] at hb
      obtain rfl := Option.some.inj hb
      exact fun _ hnil => nomatch hnil
    | some s =>
      rw [hs] at hb
      obtain ⟨described, hdescribed, heq⟩ := Option.map_eq_some_iff.1 hb
      rw [← heq]
      exact h.texts_of_describeAnchor? (hlocal.second s hs) hdescribed
  intro s hs
  rcases List.mem_append.1 hs with hs | hs
  · rcases List.mem_append.1 hs with hs | hs
    · exact hfirst s hs
    · exact hsecond s hs
  · cases hs

end Tree

namespace Session

variable {session : Session}

/-- **What a list addresses is described** at each position, by short
texts. -/
theorem Reached.described (h : session.Reached) {n : NodeIndex}
    (hshort : session.engine.tree.ShortNames n) {id : ConstraintId} {i : Nat}
    (hi : (session.engine.tree.snapshot n)[i]? = some id) :
    ∃ c a b, session.engine.tree.constraint? id = some c ∧
      ConstraintConfig.ofLive? session.engine.tree id i = some (c.described a b i) ∧
      Short (c.described a b i).texts := by
  have hid := List.mem_of_getElem? hi
  obtain ⟨c, hc⟩ := Tree.constraint?_of_lt (h.sound.recorded n id hid)
  obtain ⟨a, b, ha, hb, hlive⟩ :=
    Tree.ofLive?_of_anchored (h.sound.coherent.anchored id c hc) hc i
  have hlocal := h.describable.domestic n id c hid hc
  exact ⟨c, a, b, hc, hlive, hshort.texts_described hlocal ha hb i⟩

/-- What is in a baseline describes something on the list. -/
theorem Reached.of_mem_baseline (h : session.Reached) {n : NodeIndex}
    (hshort : session.engine.tree.ShortNames n) {config : ConstraintConfig}
    (hconfig : config ∈ session.engine.tree.baseline n) :
    ∃ id c a b i, id ∈ session.engine.tree.snapshot n ∧
      session.engine.tree.constraint? id = some c ∧ config = c.described a b i ∧
      Short config.texts := by
  obtain ⟨id, i, hi, hlive⟩ := Tree.mem_baseline.1 hconfig
  obtain ⟨c, a, b, hc, hdescribed, htexts⟩ := h.described hshort hi
  obtain rfl : c.described a b i = config := Option.some.inj (hdescribed.symm.trans hlive)
  exact ⟨id, c, a, b, i, List.mem_of_getElem? hi, hc, rfl, htexts⟩

/-- What is on the list is described in the baseline. -/
theorem Reached.mem_baseline (h : session.Reached) {n : NodeIndex}
    (hshort : session.engine.tree.ShortNames n) {id : ConstraintId} {c : Constraint}
    (hid : id ∈ session.engine.tree.snapshot n)
    (hc : session.engine.tree.constraint? id = some c) :
    ∃ a b i, c.described a b i ∈ session.engine.tree.baseline n := by
  obtain ⟨i, hi⟩ := List.mem_iff_getElem?.1 hid
  obtain ⟨c', a, b, hc', hlive, -⟩ := h.described hshort hi
  cases hc'.symm.trans hc
  exact ⟨a, b, i, Tree.mem_baseline.2 ⟨id, i, hi, hlive⟩⟩

/-- **Bytes carry every baseline** of a short list. -/
theorem Reached.bytes_baseline (h : session.Reached) {n : NodeIndex}
    (hcount : (session.engine.tree.snapshot n).length < 2 ^ 32)
    (hshort : session.engine.tree.ShortNames n) :
    Snapshot.decodeMessagePack (Snapshot.encodeMessagePack (session.engine.tree.baseline n)) =
      .ok (session.engine.tree.baseline n) := by
  have hlength : (session.engine.tree.baseline n).length < 2 ^ 32 := by
    rw [h.sound.coherent.length_baseline h.sound.recorded]
    exact hcount
  have htexts : ∀ config ∈ session.engine.tree.baseline n, Short config.texts := by
    intro config hconfig
    obtain ⟨-, -, -, -, -, -, -, -, htexts⟩ := h.of_mem_baseline hshort hconfig
    exact htexts
  have hportable : Datum.Portable MessagePack.nestingLimit
      (Snapshot.toDatum (session.engine.tree.baseline n)) := Snapshot.portable hlength htexts
  have hread := Snapshot.decodeMessagePack_of_portable hportable []
  rwa [List.append_nil] at hread

/-- **A baseline survives** exactly if what is on the list does. -/
theorem Reached.survives_iff (h : session.Reached) {n : NodeIndex}
    (hshort : session.engine.tree.ShortNames n) :
    (∀ config ∈ session.engine.tree.baseline n, config.Survives) ↔
      ∀ id ∈ session.engine.tree.snapshot n, ∀ c,
        session.engine.tree.constraint? id = some c → c.Survives := by
  constructor
  · intro hsurvives id hid c hc
    obtain ⟨a, b, i, hlisted⟩ := h.mem_baseline hshort hid hc
    exact Constraint.survives_described.1 (hsurvives _ hlisted)
  · intro hsurvives config hconfig
    obtain ⟨id, c, a, b, i, hid, hc, rfl, -⟩ := h.of_mem_baseline hshort hconfig
    exact Constraint.survives_described.2 (hsurvives id hid c hc)

/-- **Where the transmissions of a baseline agree.** In a session that was
reached, where a snapshot list and the identifiers around it are shorter
than `2 ^ 32`, bytes carry the baseline of the list's node. Text yields the
same descriptions as bytes do exactly if the numbers of every constraint on
the list survive, and nothing at all if the priority of one is not
finite. -/
theorem transmissions_agree_iff (h : session.Reached) {name : Identifier} {n : NodeIndex}
    (hname : session.engine.registry.lookup? name = some n)
    (hcount : (session.engine.tree.snapshot n).length < 2 ^ 32)
    (hshort : session.engine.tree.ShortNames n) :
    ∃ configs, session.baseline? name = some configs ∧
      Snapshot.decodeMessagePack (Snapshot.encodeMessagePack configs) = .ok configs ∧
      (Snapshot.decodeJson (Snapshot.encodeJson configs) =
          Snapshot.decodeMessagePack (Snapshot.encodeMessagePack configs) ↔
        ∀ id ∈ session.engine.tree.snapshot n, ∀ c,
          session.engine.tree.constraint? id = some c → c.Survives) ∧
      ∀ id ∈ session.engine.tree.snapshot n, ∀ c,
        session.engine.tree.constraint? id = some c → c.priority.isFinite = false →
          Snapshot.decodeJson (Snapshot.encodeJson configs) = .error .json := by
  have hbaseline : session.baseline? name = some (session.engine.tree.baseline n) := by
    unfold baseline?
    rw [hname]
    rfl
  have hbytes := h.bytes_baseline hcount hshort
  refine ⟨_, hbaseline, hbytes, ?_, fun id hid c hc hpriority => ?_⟩
  · rw [hbytes, Snapshot.decode_encodeJson_iff, h.survives_iff hshort]
  · obtain ⟨a, b, i, hlisted⟩ := h.mem_baseline hshort hid hc
    exact Snapshot.decode_encodeJson_of_not_finite hlisted hpriority

/-- The card's constraints survive, so its baseline is the same in text as
in bytes. -/
theorem transmissions_agree_card :
    let session := ((initial .standard .none).tweak cardBuilt).1
    session.Reached ∧ session.engine.registry.lookup? "card" = some 1 ∧
      (session.engine.tree.snapshot 1).length < 2 ^ 32 ∧ session.engine.tree.ShortNames 1 ∧
      ∃ configs, session.baseline? "card" = some configs ∧
        Snapshot.decodeJson (Snapshot.encodeJson configs) = .ok configs := by
  intro session
  have hreached : session.Reached := .tweak _ (.initial _ _ _)
  have hcard : session.engine.registry.lookup? "card" = some 1 := by decide +kernel
  have hcount : (session.engine.tree.snapshot 1).length < 2 ^ 32 := by decide +kernel
  have hchildren : session.engine.tree.children 1 = [2] := by decide +kernel
  have hnames : ∀ m ∈ [1, 2], ∀ node ∈ session.engine.tree.node? m, Short [node.id] := by
    decide +kernel
  have hshort : session.engine.tree.ShortNames 1 := by
    intro m node hm hnode
    unfold Tree.Family at hm
    rw [hchildren] at hm
    exact hnames m (List.mem_cons.2 hm) node hnode
  have hsurvive : ∀ id ∈ session.engine.tree.snapshot 1,
      ∀ c ∈ session.engine.tree.constraint? id, c.Survives := by decide +kernel
  obtain ⟨configs, hconfigs, hbytes, hagree, -⟩ :=
    transmissions_agree_iff hreached hcard hcount hshort
  exact ⟨hreached, hcard, hcount, hshort, configs, hconfigs, (hagree.2 hsurvive).trans hbytes⟩

/-- An entry that inserts a card and describes its width with a priority too
large for its format. -/
def overweight : List Json :=
  [.object [("operation", .string "insert"),
      ("view", .object
        [("constraints", .array [.object
            [("constant", .number (.natural 10)),
              ("first", .object [("attribute", .string "width"), ("item", .string "card")]),
              ("priority", .number (.double (.ofNat (10 ^ 300))))]]),
          ("id", .string "card"), ("superview", .string "root"), ("type", .string "View")])]]

/-- **Not every baseline survives in text.** The card's, with a priority
that became infinite, is decoded from bytes and refused as text. -/
theorem baseline_lost_in_text :
    let session := ((initial .standard .none).tweak overweight).1
    session.Reached ∧ session.engine.registry.lookup? "card" = some 1 ∧
      ∃ configs, session.baseline? "card" = some configs ∧
        Snapshot.decodeMessagePack (Snapshot.encodeMessagePack configs) = .ok configs ∧
        Snapshot.decodeJson (Snapshot.encodeJson configs) = .error .json := by
  intro session
  have hreached : session.Reached := .tweak _ (.initial _ _ _)
  have hcard : session.engine.registry.lookup? "card" = some 1 := by decide +kernel
  have hconfigs : session.baseline? "card" = some
      [{ first := ⟨some "card", some (.code 7)⟩, relation := some (.code 0),
         constant := some (.ofNat 10), multiplier := some .one, priority := .infinite false,
         idx := some 0, added := true }] := by decide +kernel
  exact ⟨hreached, hcard, _, hconfigs, by decide +kernel, by decide +kernel⟩

end Session

end LiveLayout
