import LiveLayout.Proofs.PackedData
import LiveLayout.Snapshot.Encoding
import Mathlib.Data.List.Nodup
/-!
# Snapshots packed and unpacked

A list of constraint descriptions survives its encoding in bytes: nothing
is lost or made up, whatever is absent and whatever the numbers are. Below
that lies what does not depend on the encoding: a record of named members
gives each field the member of its name (`Datum.fields?_named`), and so
every description is the one its data describe (`ofDatum?_toDatum`).
-/

namespace LiveLayout

-- Powers of naturals are the ones of the core library, whatever else is imported.
attribute [local instance (high)] instPowNat

/-- What is decoded item by item is decoded as a list. -/
theorem mapM_map_eq_some {α β γ : Type} {decode : β → Option γ} {encode : α → β} {value : α → γ}
    {l : List α} (h : ∀ a ∈ l, decode (encode a) = some (value a)) :
    (l.map encode).mapM decode = some (l.map value) := by
  induction l with
  | nil => rfl
  | cons a rest ih =>
    have hrest := ih fun a ha => h a (List.mem_cons_of_mem _ ha)
    rw [List.map_cons, List.mapM_cons, h a List.mem_cons_self, hrest]
    rfl

/-! ## Named members -/

namespace Fields

variable {α β : Type} {names : List String}

/-- A slot filled, seen by the names of the fields. -/
theorem place?_map (hnames : names.Nodup) {slot : String → Option α} {index : Nat} {key : String}
    (hkey : names.idxOf? key = some index) (hfree : slot key = none) (value : α) :
    place? (names.map slot) index value =
      some (names.map fun name => if name = key then some value else slot name) := by
  obtain ⟨hlt, hget, -⟩ := List.idxOf?_eq_some_iff.1 hkey
  have hslot : (names.map slot)[index]? = some none := by
    rw [List.getElem?_map, List.getElem?_eq_getElem hlt, Option.map_some, hget, hfree]
  unfold place?
  rw [hslot]
  refine congrArg some (List.ext_getElem (by simp only [List.length_set, List.length_map]) ?_)
  intro i hi hi'
  rw [List.length_map] at hi'
  rw [List.getElem_set, List.getElem_map, List.getElem_map]
  split
  · rename_i heq
    subst heq
    rw [if_pos hget]
  · rename_i hne
    rw [if_neg]
    intro hsame
    exact hne ((hnames.getElem_inj_iff).1 (hget.trans hsame.symm))

/-- **Each field has the member of its name**, if no name is given twice. -/
theorem ofMembers?_map (hnames : names.Nodup) {members : List (String × α)}
    (hmembers : (members.map Prod.fst).Nodup) {slot : String → Option α}
    (hfree : ∀ m ∈ members, slot m.1 = none) :
    ofMembers? (names.map slot) (members.map fun m => (names.idxOf? m.1, m.2)) =
      some (names.map fun name => (slot name).or (members.lookup name)) := by
  induction members generalizing slot with
  | nil => simp only [List.map_nil, ofMembers?, List.lookup_nil, Option.or_none]
  | cons m rest ih =>
    obtain ⟨key, value⟩ := m
    obtain ⟨hnew, hrest⟩ := List.nodup_cons.1 hmembers
    have hkey : slot key = none := hfree _ List.mem_cons_self
    have hlookup : ∀ name, name ≠ key →
        ((key, value) :: rest).lookup name = rest.lookup name := by
      intro name hne
      rw [List.lookup_cons, beq_false_of_ne hne]
    cases hindex : names.idxOf? key with
    | none =>
      have hout : key ∉ names := List.idxOf?_eq_none_iff.1 hindex
      simp only [List.map_cons, hindex, ofMembers?]
      rw [ih hrest fun m hm => hfree m (List.mem_cons_of_mem _ hm)]
      refine congrArg some (List.map_congr_left fun name hname => ?_)
      rw [hlookup name (ne_of_mem_of_not_mem hname hout)]
    | some index =>
      simp only [List.map_cons, hindex, ofMembers?, place?_map hnames hindex hkey,
        Option.bind_some]
      rw [ih hrest fun m hm => ?_]
      · refine congrArg some (List.map_congr_left fun name _ => ?_)
        split
        · rename_i heq
          rw [heq, hkey, List.lookup_cons, beq_self_eq_true]
          rfl
        · rename_i hne
          rw [hlookup name hne]
      · -- the key is not given again
        have hne : m.1 ≠ key := by
          rintro heq
          have hmem : m.1 ∈ rest.map Prod.fst := List.mem_map_of_mem hm
          exact hnew (heq ▸ hmem)
        rw [if_neg hne]
        exact hfree m (List.mem_cons_of_mem _ hm)

/-- **The members of a record that are written**: one for each slot that is
filled. -/
def written (names : List String) (slots : List (Option α)) : List (String × α) :=
  (names.zip slots).filterMap fun entry => entry.2.map (entry.1, ·)

variable {name : String} {slots : List (Option α)} {P : α → Prop}

/-- A slot that is empty or holds a value with a property. -/
def Holds (P : α → Prop) (slot : Option α) : Prop := ∀ value, slot = some value → P value

theorem Holds.some {value : α} (h : P value) : Holds P (some value) := by
  rintro _ ⟨⟩
  exact h

theorem Holds.map {encode : β → α} {value : Option β} (h : ∀ b ∈ value, P (encode b)) :
    Holds P (value.map encode) := by
  intro a ha
  obtain ⟨b, hb, rfl⟩ := Option.map_eq_some_iff.1 ha
  exact h b hb

theorem written_some (value : α) :
    written (name :: names) (some value :: slots) = (name, value) :: written names slots := rfl

theorem written_map (encode : β → α) (value : Option β) :
    written (name :: names) (value.map encode :: slots) =
      optionalMember name encode value ++ written names slots := by
  cases value <;> rfl

theorem keys_written (names : List String) (slots : List (Option α)) :
    ((written names slots).map Prod.fst).Sublist names := by
  induction names generalizing slots with
  | nil => exact List.Sublist.refl _
  | cons name names ih =>
    cases slots with
    | nil => exact List.nil_sublist _
    | cons slot slots =>
      cases slot with
      | none => exact (ih slots).cons name
      | some value => exact (ih slots).cons_cons name

theorem mem_of_mem_written {entry : String × α} (h : entry ∈ written names slots) :
    entry.1 ∈ names ∧ some entry.2 ∈ slots := by
  obtain ⟨⟨name, slot⟩, hzip, hentry⟩ := List.mem_filterMap.1 h
  obtain ⟨value, rfl, rfl⟩ := Option.map_eq_some_iff.1 hentry
  exact List.of_mem_zip hzip

theorem lookup_written_of_not_mem (h : name ∉ names) :
    (written names slots).lookup name = none := by
  refine List.lookup_eq_none_iff.2 fun entry hentry => ?_
  exact bne_iff_ne.2 (ne_of_mem_of_not_mem (mem_of_mem_written hentry).1 h).symm

/-- Looking up every name gives the slots again. -/
theorem map_lookup_written (hnames : names.Nodup) (hlength : slots.length = names.length) :
    names.map (fun name => (written names slots).lookup name) = slots := by
  induction names generalizing slots with
  | nil => exact (List.length_eq_zero_iff.1 hlength).symm
  | cons name names ih =>
    obtain ⟨hnew, hrest⟩ := List.nodup_cons.1 hnames
    cases slots with
    | nil => cases hlength
    | cons slot slots =>
      have hhead : (written (name :: names) (slot :: slots)).lookup name = slot := by
        cases slot with
        | none =>
          show (written names slots).lookup name = none
          exact lookup_written_of_not_mem hnew
        | some value => exact List.lookup_cons_self
      have htail : ∀ other ∈ names, (written (name :: names) (slot :: slots)).lookup other =
          (written names slots).lookup other := by
        intro other hother
        cases slot with
        | none => rfl
        | some value =>
          rw [written_some, List.lookup_cons, beq_false_of_ne (ne_of_mem_of_not_mem hother hnew)]
      rw [List.map_cons, hhead, List.map_congr_left htail, ih hrest (Nat.succ.inj hlength)]

end Fields

/-- **A record read by its fields** has in each slot the member of its
name. -/
theorem Datum.fields?_named {names : List String} (hnames : names.Nodup)
    {members : List (String × Datum)} (hmembers : (members.map Prod.fst).Nodup) :
    (Datum.named members).fields? names = some (names.map fun name => members.lookup name) := by
  have hkeys : (members.map fun m => (Datum.text m.1, m.2)).mapM
      (fun m : Datum × Datum => (fieldOf? names m.1).map fun index => (index, m.2)) =
      some (members.map fun m => (names.idxOf? m.1, m.2)) :=
    mapM_map_eq_some fun _ _ => rfl
  show Option.bind ((members.map fun m => (Datum.text m.1, m.2)).mapM
    fun m : Datum × Datum => (fieldOf? names m.1).map fun index => (index, m.2)) _ = _
  rw [hkeys]
  exact Fields.ofMembers?_map hnames hmembers fun _ _ => rfl

/-- So a record that was written from slots is read into them. -/
theorem Datum.fields?_written {names : List String} (hnames : names.Nodup)
    {slots : List (Option Datum)} (hlength : slots.length = names.length) :
    (Datum.named (Fields.written names slots)).fields? names = some slots := by
  rw [fields?_named hnames (hnames.sublist (Fields.keys_written names slots)),
    Fields.map_lookup_written hnames hlength]

/-! ## Descriptions -/

/-- A field that may be null or left out. -/
theorem Fields.valueOr_map {α : Type} {encode : α → Datum} {decode : Datum → Option α}
    (hdecode : ∀ a, decode (encode a) = some a) (hnull : ∀ a, encode a ≠ .null) (value : Option α) :
    valueOr none (Datum.optional? decode) (value.map encode) = some value := by
  cases value with
  | none => rfl
  | some a =>
    show Datum.optional? decode (encode a) = _
    unfold Datum.optional?
    split
    · exact absurd ‹_› (hnull a)
    · rw [hdecode]
      rfl

namespace Symbol

/-- An integer from zero upwards is a natural number with the same bits. -/
theorem signed?_ofSigned (i : Int64) : (Datum.ofSigned i).signed? = some i := by
  unfold Datum.ofSigned
  split
  · rename_i hpos
    have hlt := i.toInt_lt
    have hnat : (UInt64.ofNat i.toInt.toNat).toNat = i.toInt.toNat :=
      UInt64.toNat_ofNat_of_lt' (Nat.lt_trans (by omega) (by decide : 2 ^ 63 < UInt64.size))
    have hle : UInt64.ofNat i.toInt.toNat ≤ Int64.maxValue.toUInt64 := by
      rw [UInt64.le_iff_toNat_le, hnat]
      show i.toInt.toNat ≤ 2 ^ 63 - 1
      omega
    show (if UInt64.ofNat i.toInt.toNat ≤ Int64.maxValue.toUInt64 then
      some (UInt64.ofNat i.toInt.toNat).toInt64 else none) = some i
    rw [if_pos hle, UInt64.toInt64_ofNat', ← Int64.ofInt_eq_ofNat, Int.toNat_of_nonneg hpos,
      Int64.ofInt_toInt]
  · rfl

/-- **A symbol is the one its data give**: which form it has is kept. -/
theorem ofDatum?_toDatum (symbol : Symbol) : ofDatum? symbol.toDatum = some symbol := by
  cases symbol with
  | name text => rfl
  | code value =>
    unfold ofDatum? toDatum
    rw [signed?_ofSigned]

theorem toDatum_ne_null (symbol : Symbol) : symbol.toDatum ≠ .null := by
  cases symbol with
  | name text => exact Datum.noConfusion
  | code value =>
    show Datum.ofSigned value ≠ .null
    unfold Datum.ofSigned
    split
    · exact Datum.noConfusion
    · exact Datum.noConfusion

end Symbol

namespace AnchorConfig

theorem nodup_fieldNames : fieldNames.Nodup := by decide

/-- The slots of an anchor, both filled. -/
def slots (a : AnchorConfig) : List (Option Datum) :=
  [some ((a.item.map Datum.text).getD .null), some ((a.symbol.map Symbol.toDatum).getD .null)]

theorem toDatum_eq (a : AnchorConfig) :
    a.toDatum = .named (Fields.written fieldNames a.slots) := rfl

theorem ofDatum?_toDatum (a : AnchorConfig) : ofDatum? a.toDatum = some a := by
  have hfields : a.toDatum.fields? fieldNames = some a.slots := by
    rw [toDatum_eq]
    exact Datum.fields?_written nodup_fieldNames rfl
  have hitem : Datum.optional? Datum.text? ((a.item.map Datum.text).getD .null) = some a.item := by
    cases a.item <;> rfl
  have hsymbol : Datum.optional? Symbol.ofDatum? ((a.symbol.map Symbol.toDatum).getD .null) =
      some a.symbol := by
    cases a.symbol with
    | none => rfl
    | some symbol =>
      exact Fields.valueOr_map Symbol.ofDatum?_toDatum Symbol.toDatum_ne_null (some symbol)
  unfold ofDatum?
  rw [hfields]
  simp only [slots, Fields.valueOr, hitem, hsymbol]

theorem toDatum_ne_null (a : AnchorConfig) : a.toDatum ≠ .null := Datum.noConfusion

end AnchorConfig

namespace ConstraintConfig

theorem nodup_fieldNames : fieldNames.Nodup := by decide

/-- The slots of a description whose numbers are given as these data. -/
def slotsWith (c : ConstraintConfig) (constant multiplier : Option Datum) (priority : Datum) :
    List (Option Datum) :=
  [some c.first.toDatum, c.second.map AnchorConfig.toDatum, c.relation.map Symbol.toDatum,
    constant, multiplier, some (.bool c.isActive), some priority, c.idx.map Datum.natural,
    some (.bool c.added)]

/-- The slots of a description. -/
def slots (c : ConstraintConfig) : List (Option Datum) :=
  c.slotsWith (c.constant.map Datum.double) (c.multiplier.map Datum.double) (.single c.priority)

theorem toDatum_eq (c : ConstraintConfig) :
    c.toDatum = .named (Fields.written fieldNames c.slots) := by
  unfold toDatum members fieldNames slots slotsWith
  simp only [Fields.written_map, Fields.written_some, List.append_assoc, List.cons_append,
    List.nil_append]
  rfl

/-- **A description is decoded** up to its numbers, and these are what their
data give. -/
theorem ofDatum?_slotsWith (c : ConstraintConfig) (constant multiplier : Option Datum)
    (priority : Datum) :
    ofDatum? (.named (Fields.written fieldNames (c.slotsWith constant multiplier priority))) =
      (Fields.valueOr none (Datum.optional? Datum.double?) constant).bind fun constant =>
      (Fields.valueOr none (Datum.optional? Datum.double?) multiplier).bind fun multiplier =>
      priority.single?.map fun priority => { c with constant, multiplier, priority } := by
  have hsecond : Fields.valueOr none (Datum.optional? AnchorConfig.ofDatum?)
      (c.second.map AnchorConfig.toDatum) = some c.second :=
    Fields.valueOr_map AnchorConfig.ofDatum?_toDatum AnchorConfig.toDatum_ne_null c.second
  have hrelation : Fields.valueOr none (Datum.optional? Symbol.ofDatum?)
      (c.relation.map Symbol.toDatum) = some c.relation :=
    Fields.valueOr_map Symbol.ofDatum?_toDatum Symbol.toDatum_ne_null c.relation
  have hnatural : ∀ value : Option UInt64,
      Fields.valueOr none (Datum.optional? Datum.unsigned?) (value.map Datum.natural) =
        some value :=
    Fields.valueOr_map (fun _ => rfl) fun _ h => Datum.noConfusion h
  unfold ofDatum?
  rw [Datum.fields?_written nodup_fieldNames rfl]
  simp only [slotsWith, Fields.value?, Option.bind_some, AnchorConfig.ofDatum?_toDatum, hsecond,
    hrelation, hnatural, Option.bind_eq_bind]
  cases Fields.valueOr none (Datum.optional? Datum.double?) constant with
  | none => rfl
  | some constant =>
    cases Fields.valueOr none (Datum.optional? Datum.double?) multiplier with
    | none => rfl
    | some multiplier =>
      show (priority.single?.bind fun _ => _) = _
      cases priority.single? <;> rfl

/-- **A description is the one its data describe.** -/
theorem ofDatum?_toDatum (c : ConstraintConfig) : ofDatum? c.toDatum = some c := by
  have hdouble : ∀ value : Option Binary64,
      Fields.valueOr none (Datum.optional? Datum.double?) (value.map Datum.double) = some value :=
    Fields.valueOr_map (fun _ => rfl) fun _ h => Datum.noConfusion h
  rw [toDatum_eq, slots, ofDatum?_slotsWith, hdouble, hdouble]
  rfl

end ConstraintConfig

/-! ## Lists of descriptions -/

namespace Snapshot

/-- **Descriptions are the ones their data list.** -/
theorem ofDatum?_toDatum (configs : List ConstraintConfig) :
    ofDatum? (toDatum configs) = some configs := by
  have hitems : (configs.map ConstraintConfig.toDatum).mapM ConstraintConfig.ofDatum? =
      some (configs.map id) :=
    mapM_map_eq_some fun c _ => c.ofDatum?_toDatum
  rw [List.map_id] at hitems
  exact hitems

end Snapshot

/-! ### What bytes can carry -/

/-- The text a symbol is made of, if it is a name. -/
def Symbol.texts : Symbol → List String
  | code _ => []
  | name text => [text]

/-- The texts in the description of an anchor. -/
def AnchorConfig.texts (a : AnchorConfig) : List String :=
  a.item.toList ++ a.symbol.elim [] Symbol.texts

/-- The texts in a description. -/
def ConstraintConfig.texts (c : ConstraintConfig) : List String :=
  c.first.texts ++ c.second.elim [] AnchorConfig.texts ++ c.relation.elim [] Symbol.texts

/-- **Short texts**, their spelling shorter than `2 ^ 32` bytes. -/
def Short (texts : List String) : Prop := ∀ s ∈ texts, s.utf8ByteSize < 2 ^ 32

instance (texts : List String) : Decidable (Short texts) :=
  inferInstanceAs (Decidable (∀ s ∈ texts, s.utf8ByteSize < 2 ^ 32))

namespace Datum

variable {levels : Nat}

theorem length_spelling (s : String) : (spelling s).length = s.utf8ByteSize := rfl

theorem Portable.of_short {s : String} {texts : List String} (h : Short texts) (hs : s ∈ texts) :
    Portable levels (.text s) :=
  .text (length_spelling s ▸ h s hs)

/-- A record of few fields with short names is portable if its values
are. -/
theorem Portable.written {names : List String} {slots : List (Option Datum)}
    (hcount : names.length < 2 ^ 32) (hnames : Short names)
    (hslots : slots.Forall (Fields.Holds (Portable levels))) :
    Portable (levels + 1) (.named (Fields.written names slots)) := by
  refine .record ?_ ?_ ?_
  · have hle := (Fields.keys_written names slots).length_le
    rw [List.length_map] at hle ⊢
    exact Nat.lt_of_le_of_lt hle hcount
  · intro m hm
    obtain ⟨entry, hentry, rfl⟩ := List.mem_map.1 hm
    exact .of_short hnames (Fields.mem_of_mem_written hentry).1
  · intro m hm
    obtain ⟨entry, hentry, rfl⟩ := List.mem_map.1 hm
    exact List.forall_iff_forall_mem.1 hslots _ (Fields.mem_of_mem_written hentry).2 _ rfl

end Datum

open Datum

variable {levels : Nat}

theorem Symbol.portable {symbol : Symbol} (h : Short symbol.texts) :
    Portable levels symbol.toDatum := by
  cases symbol with
  | name text => exact .of_short h List.mem_cons_self
  | code value =>
    show Portable levels (.ofSigned value)
    unfold Datum.ofSigned
    split
    · exact .natural _
    · exact .integer (Int.not_le.1 ‹_›)

theorem AnchorConfig.portable {a : AnchorConfig} (h : Short a.texts) :
    Portable (levels + 1) a.toDatum := by
  have hitem : Portable levels ((a.item.map Datum.text).getD .null) := by
    cases hitem : a.item with
    | none => exact .null
    | some item =>
      refine .of_short h (List.mem_append_left _ ?_)
      rw [hitem]
      exact List.mem_cons_self
  have hsymbol : Portable levels ((a.symbol.map Symbol.toDatum).getD .null) := by
    cases hsymbol : a.symbol with
    | none => exact .null
    | some symbol =>
      refine Symbol.portable fun s hs => h s (List.mem_append_right _ ?_)
      rw [hsymbol]
      exact hs
  rw [toDatum_eq]
  exact .written (by decide) (by decide) ⟨.some hitem, .some hsymbol⟩

/-- **A description of short texts is portable**, whatever its numbers. -/
theorem ConstraintConfig.portable {c : ConstraintConfig} (h : Short c.texts) :
    Portable (levels + 2) c.toDatum := by
  have hfirst : Portable (levels + 1) c.first.toDatum :=
    AnchorConfig.portable fun s hs => h s (List.mem_append_left _ (List.mem_append_left _ hs))
  have hsecond : ∀ a ∈ c.second, Portable (levels + 1) a.toDatum := by
    intro a ha
    refine AnchorConfig.portable fun s hs =>
      h s (List.mem_append_left _ (List.mem_append_right _ ?_))
    rw [ha]
    exact hs
  have hrelation : ∀ symbol ∈ c.relation, Portable (levels + 1) symbol.toDatum := by
    intro symbol hsymbol
    refine Symbol.portable fun s hs => h s (List.mem_append_right _ ?_)
    rw [hsymbol]
    exact hs
  rw [toDatum_eq]
  exact .written (by decide) (by decide)
    ⟨.some hfirst, .map hsecond, .map hrelation, .map fun x _ => .double x,
      .map fun x _ => .double x, .some (.bool _), .some (.single _), .map fun n _ => .natural n,
      .some (.bool _)⟩

namespace Snapshot

theorem portable {configs : List ConstraintConfig} (hcount : configs.length < 2 ^ 32)
    (h : ∀ c ∈ configs, Short c.texts) : Portable (levels + 3) (toDatum configs) := by
  refine .list ?_ fun d hd => ?_
  · rw [List.length_map]
    exact hcount
  · obtain ⟨c, hc, rfl⟩ := List.mem_map.1 hd
    exact ConstraintConfig.portable (h c hc)

/-- Descriptions that are portable are decoded from their bytes, whatever
bytes follow. -/
theorem decodeMessagePack_of_portable {configs : List ConstraintConfig}
    (h : Portable MessagePack.nestingLimit (toDatum configs)) (t : List UInt8) :
    decodeMessagePack (encodeMessagePack configs ++ t) = .ok configs := by
  have hread : MessagePack.read? (encodeMessagePack configs ++ t) = some (toDatum configs) :=
    h.read? t
  unfold decodeMessagePack
  rw [hread, Option.bind_some, ofDatum?_toDatum]

/-- **MessagePack snapshots round trip.** A list of fewer than `2 ^ 32`
descriptions, of texts shorter than that, is decoded from its encoding as it
was, bit for bit, whatever bytes follow. -/
theorem decode_encodeMessagePack (configs : List ConstraintConfig)
    (hcount : configs.length < 2 ^ 32) (hshort : ∀ c ∈ configs, Short c.texts)
    (t : List UInt8) :
    decodeMessagePack (encodeMessagePack configs ++ t) = .ok configs := by
  have hportable : Portable MessagePack.nestingLimit (toDatum configs) := portable hcount hshort
  exact decodeMessagePack_of_portable hportable t

/-- Descriptions with absent fields, a code below zero, a name in two
scripts and numbers that are none are decoded in front of other bytes. -/
theorem decode_encodeMessagePack_partial :
    let configs : List ConstraintConfig :=
      [{ first := ⟨none, some (.code (-33))⟩, constant := some (.ofBits 0x7FF8000000000001) },
        { first := ⟨some "Brücke-橋", some (.name "top")⟩, second := some ⟨none, none⟩,
          relation := some (.name "≤"), multiplier := some (.infinite true), isActive := false,
          priority := .nan, idx := some 0xFFFFFFFFFFFFFFFF, added := true }]
    configs.length < 2 ^ 32 ∧ (∀ c ∈ configs, Short c.texts) ∧
      decodeMessagePack (encodeMessagePack configs ++ [0xC1, 0x00]) = .ok configs := by
  intro configs
  have hshort : ∀ c ∈ configs, Short c.texts := by decide +kernel
  exact ⟨by decide, hshort, decode_encodeMessagePack configs (by decide) hshort _⟩

end Snapshot

end LiveLayout
