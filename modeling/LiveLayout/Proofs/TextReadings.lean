import LiveLayout.Proofs.KeyOrder
/-!
# Texts of labels and titles

Labels and titles of buttons have one record of text attributes and read it
from a bag each in its own way. What a bag of different keys leaves in an
attribute is the value under its key, if it fits, and otherwise what was there
(`Setting.read_collect`), so either reading comes to one function of the bag,
in which only two of the values are decoded differently
(`TextContent.given`): a title takes a font that is described by an array, and
a label takes a count of lines that is given as a floating-point number
(`Engine.label_and_title`).
-/

namespace LiveLayout

/-! ## What a bag leaves to be read -/

namespace Diagnostic

variable {σ ν : Type} {step : σ → String × Json → σ × List Diagnostic}
variable {bag : List (String × Json)}

/-- Other keys leave a reading alone. -/
theorem read_collect_of_absent {read : σ → ν} {key : String}
    (hother : ∀ s m, m.1 ≠ key → read (step s m).1 = read s)
    (habsent : key ∉ bag.map (·.1)) (s : σ) : read (collect step s bag).1 = read s := by
  induction bag generalizing s with
  | nil => rfl
  | cons m rest ih =>
    rw [List.map_cons, List.mem_cons, not_or] at habsent
    rw [collect_cons, ih habsent.2]
    exact hother s m (Ne.symm habsent.1)

/-- **What is read after a bag** is what its own key made of it. -/
theorem read_collect (step : σ → String × Json → σ × List Diagnostic) (read : σ → ν)
    (key : String) (update : ν → Json → ν)
    (hself : ∀ s value, read (step s (key, value)).1 = update (read s) value)
    (hother : ∀ s m, m.1 ≠ key → read (step s m).1 = read s) (hkeys : (bag.map (·.1)).Nodup)
    (s : σ) :
    read (collect step s bag).1 = ((bag.lookup key).map (update (read s))).getD (read s) := by
  induction bag generalizing s with
  | nil => rfl
  | cons m rest ih =>
    obtain ⟨name, value⟩ := m
    rw [List.map_cons, List.nodup_cons] at hkeys
    obtain ⟨hfresh, hkeys⟩ := hkeys
    rw [collect_cons, List.lookup_cons]
    by_cases hname : key = name
    · subst hname
      rw [beq_self_eq_true, read_collect_of_absent hother hfresh]
      exact hself s value
    · rw [beq_eq_false_iff_ne.2 hname, ih hkeys]
      rw [hother s (name, value) (Ne.symm hname)]

end Diagnostic

namespace Setting

variable {σ β ν : Type} {view : σ → β} {table : List (Setting σ)} {f : Setting σ}
variable {refusal : β → String × Json → List Diagnostic} {read : σ → ν} {made : f.Value → ν}
variable {bag : List (String × Json)}

/-- In a table of different keys each setting is found under its own. -/
theorem put?_of_mem (htable : (table.map (·.key)).Nodup) (hf : f ∈ table) (s : σ)
    (value : Json) : put? table s f.key value = (f.decode? value).map (f.put s) := by
  induction table with
  | nil => exact absurd hf List.not_mem_nil
  | cons g rest ih =>
    rw [List.map_cons, List.nodup_cons] at htable
    rcases List.mem_cons.1 hf with rfl | hrest
    · rw [put?, if_pos rfl]
    · have hne : f.key ≠ g.key := fun hkey =>
        htable.1 (hkey ▸ List.mem_map_of_mem (f := Setting.key) hrest)
      rw [put?, if_neg hne, ih htable.2 hrest]

/-- **What is read of a setting after a bag** is the value under its key, if it
fits. -/
theorem read_collect (htable : (table.map (·.key)).Nodup) (hf : f ∈ table)
    (hself : ∀ s v, read (f.put s v) = made v)
    (hother : ∀ g ∈ table, g.key ≠ f.key → ∀ s v, read (g.put s v) = read s)
    (hkeys : (bag.map (·.1)).Nodup) (s : σ) :
    read (Diagnostic.collect (takeMember view (put? table) refusal) s bag).1 =
      (((bag.lookup f.key).bind f.decode?).map made).getD (read s) := by
  have hown : ∀ s value, read (takeMember view (put? table) refusal s (f.key, value)).1 =
      ((f.decode? value).map made).getD (read s) := by
    intro s value
    have hput := put?_of_mem htable hf s value
    cases hvalue : f.decode? value with
    | none =>
      rw [hvalue, Option.map_none] at hput
      rw [Keywise.takeMember_of_none (m := (f.key, value)) hput]
      rfl
    | some v =>
      rw [hvalue, Option.map_some] at hput
      rw [Keywise.takeMember_of_some (m := (f.key, value)) hput]
      exact hself s v
  have hkept : ∀ s m, m.1 ≠ f.key →
      read (takeMember view (put? table) refusal s m).1 = read s := by
    intro s m hne
    cases hm : put? table s m.1 m.2 with
    | none => rw [Keywise.takeMember_of_none hm]
    | some t =>
      rw [Keywise.takeMember_of_some hm]
      obtain ⟨g, hg, hkey, v, rfl, -⟩ := put?_eq_some hm
      exact hother g hg (hkey ▸ hne) s v
  have hread := Diagnostic.read_collect (takeMember view (put? table) refusal) read f.key
    (fun old value => ((f.decode? value).map made).getD old) hown hkept hkeys s
  rw [hread]
  cases bag.lookup f.key <;> rfl

end Setting

/-! ## Texts -/

namespace TextContent

variable {level : Nat} {font? : Json → Option Font} {lines? : Json → Option Int64}
variable {content : TextContent} {bag fields : List (String × Json)}
variable {refusal : Unit → String × Json → List Diagnostic}

/-- **The text attributes**, with fonts and counts of lines decoded in one way
or another. -/
def settings (font? : Json → Option Font) (lines? : Json → Option Int64) :
    List (Setting TextContent) :=
  [textSetting, alignmentSetting, colorSetting, fontSetting font?, lineBreakSetting,
    linesSetting lines?]

/-- **The text that a bag gives**, each attribute the value under its key, if
it fits. -/
def given (font? : Json → Option Font) (lines? : Json → Option Int64) (content : TextContent)
    (bag : List (String × Json)) : TextContent where
  text := ((bag.lookup "text").bind Json.string?).or content.text
  color := ((bag.lookup "textColor").bind Color.ofJson?).or content.color
  font := ((bag.lookup "font").bind font?).or content.font
  numberOfLines := ((bag.lookup "numberOfLines").bind lines?).getD content.numberOfLines
  alignment := ((bag.lookup "textAlignment").bind alignmentOf?).getD content.alignment
  lineBreak := ((bag.lookup "lineBreakMode").bind lineBreakOf?).getD content.lineBreak

attribute [local simp] settings textSetting alignmentSetting colorSetting fontSetting
  lineBreakSetting linesSetting

/-- **A bag of text attributes gives a text**, in whatever order they are
looked up. -/
theorem collect_settings {table : List (Setting TextContent)}
    (htable : table.Perm (settings font? lines?)) (hkeys : (bag.map (·.1)).Nodup)
    (content : TextContent) :
    (Diagnostic.collect (takeMember (fun _ => ()) (Setting.put? table) refusal) content bag).1 =
      content.given font? lines? bag := by
  generalize hmade : (Diagnostic.collect
    (takeMember (fun _ => ()) (Setting.put? table) refusal) content bag).1 = made
  have hnames : ((settings font? lines?).map (·.key)).Nodup := by simp
  -- each attribute is read on its own
  have hread : ∀ {ν : Type} (f : Setting TextContent) (read : TextContent → ν) (put : f.Value → ν),
      f ∈ settings font? lines? → (∀ s v, read (f.put s v) = put v) →
      (∀ g ∈ settings font? lines?, g.key ≠ f.key → ∀ s v, read (g.put s v) = read s) →
      read made = (((bag.lookup f.key).bind f.decode?).map put).getD (read content) := by
    intro ν f read put hf hself hother
    rw [← hmade]
    exact Setting.read_collect ((htable.map _).nodup_iff.2 hnames) (htable.mem_iff.2 hf) hself
      (fun g hg => hother g (htable.mem_iff.1 hg)) hkeys content
  have hsome : ∀ {α : Type} (made old : Option α), (made.map some).getD old = made.or old := by
    intro α made old
    cases made <;> rfl
  have hself : ∀ {α : Type} (made : Option α) (old : α),
      (made.map id).getD old = made.getD old := by
    intro α made old
    rw [Option.map_id, id]
  have htext : made.text = ((bag.lookup "text").bind Json.string?).or content.text :=
    (hread textSetting (·.text) some (by simp) (fun _ _ => rfl) (by simp)).trans (hsome _ _)
  have hcolor : made.color = ((bag.lookup "textColor").bind Color.ofJson?).or content.color :=
    (hread colorSetting (·.color) some (by simp) (fun _ _ => rfl) (by simp)).trans (hsome _ _)
  have hfont : made.font = ((bag.lookup "font").bind font?).or content.font :=
    (hread (fontSetting font?) (·.font) some (by simp) (fun _ _ => rfl) (by simp)).trans
      (hsome _ _)
  have hlines : made.numberOfLines =
      ((bag.lookup "numberOfLines").bind lines?).getD content.numberOfLines :=
    (hread (linesSetting lines?) (·.numberOfLines) id (by simp) (fun _ _ => rfl) (by simp)).trans
      (hself _ _)
  have halignment : made.alignment =
      ((bag.lookup "textAlignment").bind alignmentOf?).getD content.alignment :=
    (hread alignmentSetting (·.alignment) id (by simp) (fun _ _ => rfl) (by simp)).trans
      (hself _ _)
  have hlineBreak : made.lineBreak =
      ((bag.lookup "lineBreakMode").bind lineBreakOf?).getD content.lineBreak :=
    (hread lineBreakSetting (·.lineBreak) id (by simp) (fun _ _ => rfl) (by simp)).trans
      (hself _ _)
  unfold given
  rw [← htext, ← hcolor, ← hfont, ← hlines, ← halignment, ← hlineBreak]

/-- **What a label reads of its properties.** -/
theorem collect_setProperty? (level : Nat) (hkeys : (bag.map (·.1)).Nodup)
    (content : TextContent) :
    (Diagnostic.collect (takeMember (fun _ => ()) (setProperty? level) refusal) content bag).1 =
      content.given (objectFont? level) Json.integral? bag := by
  have hmoved : [lineBreakSetting, textSetting, colorSetting, fontSetting (objectFont? level),
      linesSetting Json.integral?].Perm [textSetting, colorSetting,
        fontSetting (objectFont? level), lineBreakSetting, linesSetting Json.integral?] :=
    (@List.perm_middle _ _ [_, _, _] _).symm
  have htable : (properties level).Perm (settings (objectFont? level) Json.integral?) :=
    (hmoved.cons _).trans (.swap _ _ _)
  rw [setProperty?_eq]
  exact collect_settings htable hkeys content

/-- **What a title reads of its object.** -/
theorem setTitle_eq_given (hkeys : (fields.map (·.1)).Nodup) (content : TextContent) :
    content.setTitle level fields = content.given (Font.ofJson? level) Json.signed? fields := by
  rw [setTitle_eq, setTitleField?_eq]
  exact collect_settings (.refl _) hkeys content

end TextContent

/-! ## Kinds of nodes -/

section Kinds

variable {level : Nat} {images : ImageLoader} {id : Identifier} {view : ViewAttributes}
variable {bag : List (String × Json)} {type : NodeType}

/-- One property of what a kind of node holds, in silence. -/
def NodeKind.takePart (level : Nat) (images : ImageLoader) (type : NodeType) :
    Held type → String × Json → Held type × List Diagnostic :=
  takeMember (fun _ => ()) (part? level images type) fun _ _ => []

/-- A property of a look is put into what the kind holds, if it is one of the
kind's own. -/
theorem kind_takeProperty (held : NodeKind.Held type) (property : String × Json) :
    (takeProperty level images id (.make type held, view) property).1.1 =
      .make type (NodeKind.takePart level images type held property).1 := by
  have hsettle : (NodeKind.make type held).settle? level images property.1 property.2 =
      (NodeKind.part? level images type held property.1 property.2).map (.make type) :=
    NodeKind.settle?_make type held property.1 property.2
  unfold NodeKind.takePart takeProperty takeMember putProperty? orElse?
  rw [hsettle]
  cases NodeKind.part? level images type held property.1 property.2 with
  | some made => rfl
  | none =>
    rw [Option.map_none]
    cases view.set? property.1 property.2 <;> rfl

/-- **A bag of properties** is put into what the kind holds. -/
theorem kind_takeProperties (held : NodeKind.Held type) (bag : List (String × Json)) :
    (Diagnostic.collect (takeProperty level images id) (.make type held, view) bag).1.1 =
      .make type (Diagnostic.collect (NodeKind.takePart level images type) held bag).1 := by
  induction bag generalizing held view with
  | nil => rfl
  | cons property rest ih =>
    have hlook : (takeProperty level images id (.make type held, view) property).1 =
        (.make type (NodeKind.takePart level images type held property).1,
          (takeProperty level images id (.make type held, view) property).1.2) :=
      Prod.ext (kind_takeProperty held property) rfl
    rw [Diagnostic.collect_cons, hlook, ih]
    rfl

/-- **A button takes its title as a whole.** -/
theorem collect_takeTitle (level : Nat) (images : ImageLoader) (hkeys : (bag.map (·.1)).Nodup)
    (held : NodeKind.Held .button) :
    (Diagnostic.collect (NodeKind.takePart level images .button) held bag).1 =
      (held.1, (((bag.lookup "title").bind Json.object?).map (held.2.setTitle level)).getD
        held.2) := by
  have hread := Diagnostic.read_collect (NodeKind.takePart level images .button)
    (fun held : Identifier × TextContent => held) "title"
    (fun held value => (held.1, (value.object?.map (held.2.setTitle level)).getD held.2))
    ?_ ?_ hkeys held
  · refine hread.trans ?_
    cases bag.lookup "title" <;> rfl
  · intro held value
    have htitle : NodeKind.part? level images .button held "title" value =
        value.object?.map fun fields => (held.1, held.2.setTitle level fields) := by
      show NodeKind.titled? level held "title" value = _
      unfold NodeKind.titled?
      rw [if_pos rfl]
    unfold NodeKind.takePart takeMember
    simp only [htitle]
    cases value.object? <;> rfl
  · intro held property hne
    have hnone : NodeKind.part? level images .button held property.1 property.2 = none :=
      if_neg hne
    unfold NodeKind.takePart
    rw [Keywise.takeMember_of_none hnone]

end Kinds

namespace Engine

/-- **The text that a node shows** after a bag of properties. -/
def textAfter (engine : Engine) (idx : NodeIndex) (bag : List (String × Json)) :
    Option TextContent :=
  ((engine.applyProperties idx bag).1.tree.node? idx).bind Node.text?

variable {engine : Engine} {idx : NodeIndex} {node : Node} {content : TextContent}
variable {titleId : Identifier} {bag fields : List (String × Json)}

/-- The kind of node that a bag of properties makes. -/
theorem kind_applyProperties (type : NodeType) (held : NodeKind.Held type)
    (hn : engine.tree.node? idx = some node) (hkind : node.kind = .make type held)
    (bag : List (String × Json)) :
    ((engine.applyProperties idx bag).1.tree.node? idx).map (·.kind) =
      some (.make type (Diagnostic.collect (NodeKind.takePart engine.level
        (engine.images.atHand engine.config.mode) type) held bag).1) := by
  have hlook : node.look = (.make type held, node.view) := Prod.ext hkind rfl
  rw [fst_applyProperties hn, node?_putAsking hn, Option.map_some, hlook]
  exact congrArg some (kind_takeProperties held bag)

/-- A label has the text that its properties give. -/
theorem label_applyProperties (hn : engine.tree.node? idx = some node)
    (hkind : node.kind = .label content) (hkeys : (bag.map (·.1)).Nodup) :
    ((engine.applyProperties idx bag).1.tree.node? idx).map (·.kind) = some
      (.label (content.given (TextContent.objectFont? engine.level) Json.integral? bag)) := by
  have hlabel := kind_applyProperties .label content hn hkind bag
  exact hlabel.trans (congrArg (fun text => some (NodeKind.label text))
    (TextContent.collect_setProperty? engine.level hkeys content))

/-- A button has the title that its title object gives. -/
theorem button_applyProperties (hn : engine.tree.node? idx = some node)
    (hkind : node.kind = .button titleId content) (hkeys : (bag.map (·.1)).Nodup) :
    ((engine.applyProperties idx bag).1.tree.node? idx).map (·.kind) = some (.button titleId
      ((((bag.lookup "title").bind Json.object?).map (content.setTitle engine.level)).getD
        content)) := by
  have hbutton := kind_applyProperties .button (titleId, content) hn hkind bag
  have htitle := collect_takeTitle engine.level (engine.images.atHand engine.config.mode) hkeys
    (titleId, content)
  exact hbutton.trans (congrArg (fun held => some (NodeKind.make .button held)) htitle)

theorem textAfter_label (hn : engine.tree.node? idx = some node)
    (hkind : node.kind = .label content) (hkeys : (bag.map (·.1)).Nodup) :
    engine.textAfter idx bag =
      some (content.given (TextContent.objectFont? engine.level) Json.integral? bag) := by
  obtain ⟨changed, hchanged, hlabel⟩ := Option.map_eq_some_iff.1
    (label_applyProperties hn hkind hkeys)
  unfold textAfter Node.text?
  rw [hchanged, Option.bind_some, hlabel]

theorem textAfter_button (hn : engine.tree.node? idx = some node)
    (hkind : node.kind = .button titleId content) (hkeys : (bag.map (·.1)).Nodup) :
    engine.textAfter idx bag = some
      ((((bag.lookup "title").bind Json.object?).map (content.setTitle engine.level)).getD
        content) := by
  obtain ⟨changed, hchanged, hbutton⟩ := Option.map_eq_some_iff.1
    (button_applyProperties hn hkind hkeys)
  unfold textAfter Node.text?
  rw [hchanged, Option.bind_some, hbutton]

end Engine

/-! ## Labels and titles -/

namespace TextContent

variable {level : Nat} {content : TextContent} {fields : List (String × Json)}

/-- **A font given as an array** is another one than there was. -/
def GivesArrayFont (level : Nat) (content : TextContent) (fields : List (String × Json)) : Prop :=
  ∃ items font, ("font", .array items) ∈ fields ∧ Font.ofJson? level (.array items) = some font ∧
    content.font ≠ some font

/-- **A count of lines given as a floating-point number**, or out of range, is
another one than there was. -/
def GivesLooseLines (content : TextContent) (fields : List (String × Json)) : Prop :=
  ∃ value lines, ("numberOfLines", value) ∈ fields ∧ value.signed? = none ∧
    value.integral? = some lines ∧ content.numberOfLines ≠ lines

/-- A label and a title read the same font, but for one given as an array. -/
theorem given_font_eq_iff (hkeys : (fields.map (·.1)).Nodup) :
    ((fields.lookup "font").bind (Font.ofJson? level)).or content.font =
        ((fields.lookup "font").bind (objectFont? level)).or content.font ↔
      ¬content.GivesArrayFont level fields := by
  unfold GivesArrayFont
  simp only [← Json.lookup_eq_some_iff_mem hkeys]
  cases fields.lookup "font" with
  | none => simp
  | some value =>
    cases value with
    | array items =>
      have hlabel : objectFont? level (.array items) = none := rfl
      rw [Option.bind_some, Option.bind_some, hlabel]
      cases hfont : Font.ofJson? level (.array items) with
      | none => simp [hfont]
      | some font => simp [hfont, eq_comm]
    | object members =>
      have hlabel : objectFont? level (.object members) =
          Font.ofJson? level (.object members) := rfl
      simp [hlabel]
    | _ => simp [objectFont?, Json.object?, Font.ofJson?, FontDescriptor.ofJson?, Json.fields?]

theorem given_lines_eq_iff (hkeys : (fields.map (·.1)).Nodup) :
    ((fields.lookup "numberOfLines").bind Json.signed?).getD content.numberOfLines =
        ((fields.lookup "numberOfLines").bind Json.integral?).getD content.numberOfLines ↔
      ¬content.GivesLooseLines fields := by
  unfold GivesLooseLines
  simp only [← Json.lookup_eq_some_iff_mem hkeys]
  cases fields.lookup "numberOfLines" with
  | none => simp
  | some value =>
    rw [Option.bind_some, Option.bind_some]
    cases hsigned : value.signed? with
    | some lines =>
      have hlabel : value.integral? = some lines := by
        unfold Json.integral?
        rw [hsigned]
      simp [hlabel, hsigned]
    | none =>
      cases hlabel : value.integral? with
      | none => simp [hlabel, hsigned]
      | some lines => simp [hlabel, hsigned]

end TextContent

namespace Engine

variable {labels buttons : Engine} {i j : NodeIndex} {label button : Node} {content : TextContent}
variable {titleId : Identifier} {fields : List (String × Json)}

/-- **Labels and titles of buttons read text attributes alike, but for two.**
Where a label and a button have one text and a bag is given to the one as its
properties and to the other as its title, the texts they show agree but for
their fonts and counts of lines; the fonts agree exactly if no font is given as
an array, and the counts exactly if none is given as a floating-point number
or out of range, or else it is the one there was. -/
theorem label_and_title (hi : labels.tree.node? i = some label)
    (hj : buttons.tree.node? j = some button) (hlabel : label.kind = .label content)
    (hbutton : button.kind = .button titleId content) (hlevel : buttons.level = labels.level)
    (hkeys : (fields.map (·.1)).Nodup) :
    ∃ text title, labels.textAfter i fields = some text ∧
      buttons.textAfter j [("title", .object fields)] = some title ∧
      title = { text with font := title.font, numberOfLines := title.numberOfLines } ∧
      (title.font = text.font ↔ ¬content.GivesArrayFont labels.level fields) ∧
      (title.numberOfLines = text.numberOfLines ↔ ¬content.GivesLooseLines fields) := by
  have htitle : buttons.textAfter j [("title", .object fields)] =
      some (content.setTitle buttons.level fields) :=
    textAfter_button hj hbutton (List.nodup_singleton _)
  rw [TextContent.setTitle_eq_given hkeys, hlevel] at htitle
  exact ⟨_, _, textAfter_label hi hlabel hkeys, htitle, rfl, TextContent.given_font_eq_iff hkeys,
    TextContent.given_lines_eq_iff hkeys⟩

/-- An engine of one new node. -/
def alone (type : NodeType) : Engine :=
  (Engine.initial .standard .none).put Tree.root
    { id := Identifier.root, kind := .ofType type Identifier.root }

/-- **They do differ.** Two lines given as a floating-point number are two
lines to a new label and one line to a new title, and a font given as an array
is a font to the title only. -/
theorem label_and_title_differ :
    let lines : List (String × Json) := [("numberOfLines", .number (.double (.ofNat 2)))]
    let font : List (String × Json) :=
      [("font", .array [.string "System", .string "Bold", .number (.natural 12), .null])]
    (alone .label).textAfter Tree.root lines = some { numberOfLines := 2 } ∧
      (alone .button).textAfter Tree.root [("title", .object lines)] = some {} ∧
      (alone .label).textAfter Tree.root font = some {} ∧
      (alone .button).textAfter Tree.root [("title", .object font)] =
        some { font := some (.system (.ofNat 12) .bold) } := by
  decide +kernel

/-- A greeting on two lines, which are given as an integer. -/
theorem label_and_title_greeting :
    let fields : List (String × Json) :=
      [("numberOfLines", .number (.natural 2)), ("text", .string "Hello")]
    (fields.map (·.1)).Nodup ∧ ∃ text, (alone .label).textAfter Tree.root fields = some text ∧
      (alone .button).textAfter Tree.root [("title", .object fields)] = some text := by
  intro fields
  have hkeys : (fields.map (·.1)).Nodup := by decide
  have hnode : ∀ type, (alone type).tree.node? Tree.root =
      some { id := Identifier.root, kind := .ofType type Identifier.root } := by
    intro type
    cases type <;> decide +kernel
  obtain ⟨text, title, htext, htitle, hrest, hfont, hlines⟩ :=
    label_and_title (hnode .label) (hnode .button) rfl rfl rfl hkeys
  have hobject : ¬TextContent.GivesArrayFont (alone .label).level {} fields := by
    rintro ⟨items, font, hmem, -⟩
    simp [fields] at hmem
  have hinteger : ¬TextContent.GivesLooseLines {} fields := by
    rintro ⟨value, lines, hmem, hsigned, -⟩
    simp only [fields, List.mem_cons, Prod.mk.injEq, true_and, List.not_mem_nil, or_false,
      String.reduceEq, false_and] at hmem
    rw [hmem] at hsigned
    exact absurd hsigned (by decide)
  rw [hfont.2 hobject, hlines.2 hinteger] at hrest
  have hsame : title = text := hrest
  exact ⟨hkeys, text, htext, hsame ▸ htitle⟩

end Engine

end LiveLayout
