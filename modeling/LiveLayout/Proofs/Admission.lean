import LiveLayout.Proofs.BareInserts
import LiveLayout.Proofs.Idempotence
import LiveLayout.Proofs.LastWriter
import LiveLayout.Proofs.Reporting
import Mathlib.Data.List.Forall2
import Mathlib.Data.List.Nodup
/-!
# Which expressions are accepted

`Admitted` says what the text of an attribute comes to, without the tree and
its arena: it only asks which node a reference is to. In a tree grown from
its root, with a registry that leads into it, an expression is accepted
exactly if it is admissible (`Rooted.constraintFor_eq_ok_iff`), for the nodes
of one tree always share an ancestor. What is in force has no part in that,
and putting a constraint in force moves no node. So the keys of a map are
judged each by itself, whatever the ones before it did, and those that are
refused could as well not be there (`bad_attribute_skips_only_itself`).
-/

namespace LiveLayout

/-- **What the text of an attribute comes to**, for a node, where `resolve`
says which node a reference is to. A number sets the width or the height. A
reference ties the attribute to one on its axis, the one of the same name if
the text names none. -/
inductive Admitted (resolve : Reference → Option NodeIndex) (idx : NodeIndex)
    (name text : String) : Constraint → Prop
  | number {own : Attribute} {value : Binary64} :
      Expression.parse text = .ok (.literal value) → Attribute.ofName? name = some own →
      own = .width ∨ own = .height →
      Admitted resolve idx name text { first := ⟨idx, own⟩, constant := value, active := true }
  | reference {own other : Attribute} {target : String} {field : Option String}
      {offset : Binary64} {node : NodeIndex} :
      Expression.parse text = .ok (.relative target field offset) →
      Attribute.ofName? name = some own → resolve (Reference.ofTarget target) = some node →
      Attribute.ofName? (field.getD name) = some other → other.axis = own.axis →
      Admitted resolve idx name text
        { first := ⟨idx, own⟩, second := some ⟨node, other⟩, constant := offset, active := true }

/-- The text of an attribute comes to something. -/
def Admissible (resolve : Reference → Option NodeIndex) (idx : NodeIndex)
    (name text : String) : Prop :=
  ∃ c, Admitted resolve idx name text c

theorem Attribute.isDimension_iff (a : Attribute) :
    a.isDimension = true ↔ a = .width ∨ a = .height := by
  cases a <;> decide

namespace Admissible

variable {resolve : Reference → Option NodeIndex} {idx : NodeIndex} {name text : String}
variable {own : Attribute} {value offset : Binary64} {target : String} {field : Option String}

/-- It is of an attribute, and it parses. -/
theorem exists_attribute (h : Admissible resolve idx name text) :
    ∃ expression own, Expression.parse text = .ok expression ∧
      Attribute.ofName? name = some own := by
  obtain ⟨c, hc⟩ := h
  cases hc with
  | number hparse hown => exact ⟨_, _, hparse, hown⟩
  | reference hparse hown => exact ⟨_, _, hparse, hown⟩

theorem number_iff (hparse : Expression.parse text = .ok (.literal value))
    (hown : Attribute.ofName? name = some own) :
    Admissible resolve idx name text ↔ own.isDimension = true := by
  rw [Attribute.isDimension_iff]
  constructor
  · rintro ⟨c, hc⟩
    cases hc with
    | number _ hown' hdimension =>
      cases hown.symm.trans hown'
      exact hdimension
    | reference hparse' => cases hparse.symm.trans hparse'
  · exact fun hdimension => ⟨_, .number hparse hown hdimension⟩

theorem reference_iff (hparse : Expression.parse text = .ok (.relative target field offset))
    (hown : Attribute.ofName? name = some own) :
    Admissible resolve idx name text ↔
      (resolve (Reference.ofTarget target)).isSome = true ∧
        ∃ other ∈ Attribute.ofName? (field.getD name), other.axis = own.axis := by
  constructor
  · rintro ⟨c, hc⟩
    cases hc with
    | number hparse' => cases hparse.symm.trans hparse'
    | reference hparse' hown' hnode hother haxis =>
      cases hparse.symm.trans hparse'
      cases hown.symm.trans hown'
      exact ⟨Option.isSome_iff_exists.2 ⟨_, hnode⟩, _, hother, haxis⟩
  · rintro ⟨hresolves, other, hother, haxis⟩
    obtain ⟨node, hnode⟩ := Option.isSome_iff_exists.1 hresolves
    exact ⟨_, .reference hparse hown hnode hother haxis⟩

instance (resolve : Reference → Option NodeIndex) (idx : NodeIndex) (name text : String) :
    Decidable (Admissible resolve idx name text) :=
  match hparse : Expression.parse text, hown : Attribute.ofName? name with
  | .error cause, _ => isFalse fun h => by
    obtain ⟨_, _, hok, -⟩ := h.exists_attribute
    cases hparse.symm.trans hok
  | .ok _, none => isFalse fun h => by
    obtain ⟨_, _, -, hsome⟩ := h.exists_attribute
    cases hown.symm.trans hsome
  | .ok (.literal _), some _ => decidable_of_iff _ (number_iff hparse hown).symm
  | .ok (.relative _ _ _), some _ => decidable_of_iff _ (reference_iff hparse hown).symm

end Admissible

namespace Tree

variable {tree other : Tree} {registry : Registry} {idx n : NodeIndex} {name text : String}
variable {c k : Constraint} {cause : TweakError} {reference : Reference} {modify : Bool}
variable {entry : String × String} {entries : List (String × String)}
variable {accepted : List Acceptance} {j : ConstraintId}

/-! ## One expression -/

/-- **A reference is to a node of the tree**, seen from one. -/
theorem Rooted.resolve?_lt (h : tree.Rooted) (hwithin : registry.Within tree)
    (hidx : idx < tree.size) (hn : registry.resolve? tree idx reference = some n) :
    n < tree.size := by
  cases reference with
  | self =>
    cases hn
    exact hidx
  | superview => exact Nat.lt_trans (h.parent_lt hn) hidx
  | id name => exact hwithin name n hn

/-- What is admitted relates nodes of the tree. -/
theorem Rooted.anchored_of_admitted (h : tree.Rooted) (hwithin : registry.Within tree)
    (hidx : idx < tree.size) (hc : Admitted (registry.resolve? tree idx) idx name text c) :
    tree.Anchored c := by
  cases hc with
  | number => exact ⟨hidx, nofun⟩
  | reference _ _ hnode =>
    refine ⟨hidx, ?_⟩
    rintro s ⟨⟩
    exact h.resolve?_lt hwithin hidx hnode

/-- **An expression has a second anchor**, or does without one, exactly if it
is admitted. -/
theorem secondFor_eq_ok_iff {own : Attribute} {expression : Expression} {second : Option Anchor}
    (hparse : Expression.parse text = .ok expression) (hown : Attribute.ofName? name = some own) :
    tree.secondFor registry idx name own expression = .ok second ↔
      Admitted (registry.resolve? tree idx) idx name text
        { first := ⟨idx, own⟩, second, constant := expression.offset, active := true } := by
  constructor
  · intro hsecond
    cases expression with
    | literal value =>
      simp only [secondFor] at hsecond
      split at hsecond
      · rename_i hdimension
        cases hsecond
        exact .number hparse hown ((Attribute.isDimension_iff own).1 hdimension)
      · cases hsecond
    | relative target field offset =>
      simp only [secondFor] at hsecond
      split at hsecond
      · cases hsecond
      · rename_i node hnode
        split at hsecond
        · cases hsecond
        · rename_i other hother
          split at hsecond
          · rename_i haxis
            cases hsecond
            exact .reference hparse hown hnode hother haxis
          · cases hsecond
  · generalize hc : ({ first := ⟨idx, own⟩, second, constant := expression.offset,
                       active := true } : Constraint) = c
    intro hadmitted
    cases hadmitted with
    | number hparse' hown' hdimension =>
      cases hparse.symm.trans hparse'
      cases hown.symm.trans hown'
      cases hc
      simp only [secondFor, (Attribute.isDimension_iff own).2 hdimension, if_true]
    | reference hparse' hown' hnode hother haxis =>
      cases hparse.symm.trans hparse'
      cases hown.symm.trans hown'
      cases hc
      simp only [secondFor, hnode, hother, haxis, if_true]

/-- **An expression is accepted exactly if it is admitted**, and for the same
constraint: the node always shares an ancestor with the one it refers to. -/
theorem Rooted.constraintFor_eq_ok_iff (h : tree.Rooted) (hwithin : registry.Within tree)
    (hidx : idx < tree.size) :
    tree.constraintFor registry idx name text = .ok c ↔
      Admitted (registry.resolve? tree idx) idx name text c := by
  constructor
  · intro hok
    obtain ⟨expression, own, second, hparse, hown, hsecond, rfl⟩ := constraintFor_ok hok
    exact (secondFor_eq_ok_iff hparse hown).1 hsecond
  · intro hc
    obtain ⟨owner, howner, -⟩ := h.exists_ownerFor? (h.anchored_of_admitted hwithin hidx hc)
    have hsecond := hc
    cases hc with
    | number hparse hown =>
      have hnone := (secondFor_eq_ok_iff hparse hown).2 hsecond
      simp only [constraintFor, hparse, hown, hnone, howner]
      rfl
    | reference hparse hown =>
      have hsome := (secondFor_eq_ok_iff hparse hown).2 hsecond
      simp only [constraintFor, hparse, hown, hsome, howner]
      rfl

/-- A second anchor is not refused for want of an ancestor. -/
theorem secondFor_ne_noCommonAncestor {own : Attribute} {expression : Expression}
    (herror : tree.secondFor registry idx name own expression = .error cause) (label : String) :
    cause ≠ .anchorInvalid label .noCommonAncestor := by
  rintro rfl
  cases expression with
  | literal value =>
    simp only [secondFor] at herror
    split at herror <;> cases herror
  | relative target field offset =>
    simp only [secondFor] at herror
    split at herror
    · cases herror
    · split at herror
      · cases herror
      · split at herror <;> cases herror

/-- **No expression is refused because anchors share no ancestor**: in one
tree they do. -/
theorem Rooted.constraintFor_ne_noCommonAncestor (h : tree.Rooted)
    (hwithin : registry.Within tree) (hidx : idx < tree.size)
    (herror : tree.constraintFor registry idx name text = .error cause) (label : String) :
    cause ≠ .anchorInvalid label .noCommonAncestor := by
  unfold constraintFor at herror
  split at herror
  · cases herror
    nofun
  · rename_i expression hparse
    split at herror
    · cases herror
      nofun
    · rename_i own hown
      split at herror
      · rename_i hsecond
        cases herror
        exact secondFor_ne_noCommonAncestor hsecond label
      · rename_i second hsecond
        split at herror
        · -- both anchors are of nodes of the tree
          rename_i hnone
          have hadmitted := (secondFor_eq_ok_iff hparse hown).1 hsecond
          obtain ⟨owner, howner, -⟩ :=
            h.exists_ownerFor? (h.anchored_of_admitted hwithin hidx hadmitted)
          cases hnone.symm.trans howner
        · cases herror

/-- What is said of an expression. -/
theorem snd_applyExpression (tree : Tree) (entry : String × String) :
    (tree.applyExpression registry idx modify entry).2 =
      (tree.refusal? registry idx entry).toList := by
  rcases tree.applyExpression_cases registry idx modify entry with
    ⟨a, -, hrefusal, -, happly⟩ | ⟨d, -, hrefusal, happly⟩
  · rw [happly, hrefusal]
    rfl
  · rw [happly, hrefusal]
    rfl

/-- **Nothing is said of an expression that is admissible**, and of every
other one something is. -/
theorem Rooted.refusal?_eq_none_iff (h : tree.Rooted) (hwithin : registry.Within tree)
    (hidx : idx < tree.size) :
    tree.refusal? registry idx entry = none ↔
      Admissible (registry.resolve? tree idx) idx entry.1 entry.2 := by
  unfold refusal? Admissible
  simp only [← h.constraintFor_eq_ok_iff hwithin hidx]
  cases tree.constraintFor registry idx entry.1 entry.2 with
  | ok c => exact iff_of_true rfl ⟨c, rfl⟩
  | error cause => exact iff_of_false nofun fun ⟨c, hc⟩ => nomatch hc

/-- What a reference is to depends on the shape alone. -/
theorem SameShape.resolve?_funext (h : tree.SameShape other) (registry : Registry)
    (idx : NodeIndex) : registry.resolve? other idx = registry.resolve? tree idx :=
  funext fun reference => h.resolve?_eq registry idx reference

/-- **Whether an expression is accepted depends on the shape of the tree**,
whatever is in force in it and whether it comes with an insert or a modify. -/
theorem SameShape.snd_applyExpression_eq_nil_iff (h : tree.SameShape other) (hrooted : tree.Rooted)
    (hwithin : registry.Within tree) (hidx : idx < tree.size) (modify : Bool) :
    (other.applyExpression registry idx modify entry).2 = [] ↔
      Admissible (registry.resolve? tree idx) idx entry.1 entry.2 := by
  rw [snd_applyExpression, Option.toList_eq_nil_iff, h.refusal?_eq,
    hrooted.refusal?_eq_none_iff hwithin hidx]

/-! ## A map of expressions -/

/-- **The keys that are refused could as well not be there.** -/
theorem Rooted.collect_admissible (h : tree.Rooted) (hwithin : registry.Within tree)
    (hidx : idx < tree.size) :
    (Diagnostic.collect (applyExpression registry idx modify) tree
        (entries.filter fun e =>
          Admissible (registry.resolve? tree idx) idx e.1 e.2)).1 =
      (Diagnostic.collect (applyExpression registry idx modify) tree entries).1 := by
  have hfilter : (entries.filter fun e => Admissible (registry.resolve? tree idx) idx e.1 e.2) =
      entries.filter fun e => (tree.refusal? registry idx e).isNone := by
    refine List.filter_congr fun e _ => ?_
    rw [Bool.eq_iff_iff, decide_eq_true_eq, Option.isNone_iff_eq_none,
      h.refusal?_eq_none_iff hwithin hidx]
  rw [hfilter]
  refine @Diagnostic.collect_filter _ _ (applyExpression registry idx modify)
    (fun tree => tree.refusal? registry idx) (fun tree e d hd => ?_) (fun tree e f => ?_) tree
    entries
  · rcases tree.applyExpression_cases registry idx modify e with
      ⟨a, -, hnone, -, -⟩ | ⟨d', -, -, happly⟩
    · cases hnone.symm.trans hd
    · rw [happly]
  · exact congrFun (edits_applyExpression modify e).sameShape.refusal?_eq f

/-- **Each key that is refused is reported once**, in order. -/
theorem Rooted.forall₂_refusal? (h : tree.Rooted) (hwithin : registry.Within tree)
    (hidx : idx < tree.size) (entries : List (String × String)) :
    List.Forall₂ (fun e d => tree.refusal? registry idx e = some d)
      (entries.filter fun e => ¬Admissible (registry.resolve? tree idx) idx e.1 e.2)
      (entries.filterMap (tree.refusal? registry idx)) := by
  induction entries with
  | nil => exact .nil
  | cons e rest ih =>
    have hiff : tree.refusal? registry idx e = none ↔ _ :=
      h.refusal?_eq_none_iff hwithin hidx
    cases hrefusal : tree.refusal? registry idx e with
    | none =>
      have hadmissible := hiff.1 hrefusal
      rw [List.filter_cons_of_neg (by simpa using hadmissible),
        List.filterMap_cons_none hrefusal]
      exact ih
    | some d =>
      have hrefused := mt hiff.2 (Option.ne_none_iff_exists'.2 ⟨d, hrefusal⟩)
      rw [List.filter_cons_of_pos (by simpa using hrefused),
        List.filterMap_cons_some hrefusal]
      exact .cons hrefusal ih

/-- **Attributes that are not taken over keep their constraints**, whether
these are in force or not. -/
theorem Coherent.constraint?_constrainAll_of_ne (h : tree.Coherent)
    (hanchored : ∀ a ∈ accepted, tree.Anchored a.constraint)
    (hne : ∀ a ∈ accepted, k.first ≠ a.target) :
    (tree.constrainAll modify accepted).constraint? j = some k ↔
      tree.constraint? j = some k := by
  induction accepted generalizing tree with
  | nil => exact Iff.rfl
  | cons a rest ih =>
    have ha := hanchored a List.mem_cons_self
    obtain ⟨owner, ho, -⟩ := h.exists_ownerFor? ha
    have hshape : tree.SameShape (tree.constrain modify a.constraint) := sameShape_constrain
    have hstep : (tree.constrain modify a.constraint).constraint? j = some k ↔
        tree.constraint? j = some k :=
      h.constraint?_constrain_of_ne rfl ho (hne a List.mem_cons_self)
    refine Iff.trans (ih (h.constrain modify ha) (fun b hb => ?_) fun b hb => ?_) hstep
    · exact hshape.anchored (hanchored b (List.mem_cons_of_mem _ hb))
    · exact hne b (List.mem_cons_of_mem _ hb)

/-- **A key that is refused takes no attribute over**, and neither does
another key for it: names are of different attributes. -/
theorem target_ne_of_refused {own : Attribute} {a : Acceptance}
    (hkeys : (entries.map (·.1)).Nodup) (hentry : entry ∈ entries)
    (hrefused : tree.refusal? registry idx entry ≠ none)
    (hown : Attribute.ofName? entry.1 = some own)
    (ha : a ∈ tree.acceptances registry idx entries) : a.target ≠ ⟨idx, own⟩ := by
  rintro htarget
  obtain ⟨e, he, haccept⟩ := List.mem_filterMap.1 ha
  have hname := (accept?_eq_some haccept).2
  rw [htarget] at hname
  obtain rfl : e = entry := by
    refine List.inj_on_of_nodup_map hkeys he hentry ?_
    exact (Attribute.name_of_ofName? hname).symm.trans (Attribute.name_of_ofName? hown)
  rcases tree.applyExpression_cases registry idx false e with
    ⟨b, -, hnone, -, -⟩ | ⟨d, hnone, -, -⟩
  · exact hrefused hnone
  · cases hnone.symm.trans haccept

end Tree

/-! ## Entries -/

namespace Session

variable {session : Session} {action : Action} {entries : List (String × String)}

/-- **What an action does with its constraints** is all that they have a part
in. -/
theorem fst_perform_congr {constraints : Option ConstraintsField}
    (hcontent : ∀ modify,
      ((session.meeting action).engine.applyContent (session.meeting action).idx modify
          { (session.meeting action).view with constraints }).1 =
        ((session.meeting action).engine.applyContent (session.meeting action).idx modify
          (session.meeting action).view).1) :
    (session.perform (action.withView { (session.meeting action).view with constraints })).1 =
      (session.perform action).1 := by
  cases action with
  | insert id parent type view =>
    have hfilled : session.engine.filled id parent type { view with constraints } =
        session.engine.filled id parent type view := hcontent false
    have hinsert : (session.engine.insert id parent type { view with constraints }).1 =
        (session.engine.insert id parent type view).1 := by
      rw [Engine.insert_eq, Engine.insert_eq, hfilled]
    exact congrArg (Session.mk · _) hinsert
  | modify idx view =>
    have happlied : (session.engine.applyContent idx true { view with constraints }).1 =
        (session.engine.applyContent idx true view).1 := hcontent true
    have hmodify : (session.engine.modify idx { view with constraints }).1 =
        (session.engine.modify idx view).1 := by
      rw [Engine.modify_eq, Engine.modify_eq, happlied]
    exact congrArg (Session.mk · _) hmodify

/-- **A map without the keys that are refused** leads to the same session. -/
theorem perform_admissible (h : session.engine.Sound) (hfits : action.Fits session.engine.tree)
    (hentries : (session.meeting action).view.constraints = some (.expressions entries)) :
    let m := session.meeting action
    (session.perform (action.withView { m.view with
      constraints := some (.expressions (entries.filter fun e => Admissible
        (m.engine.registry.resolve? m.engine.tree m.idx) m.idx e.1 e.2)) })).1 =
      (session.perform action).1 := by
  intro m
  obtain ⟨hsound, hidx⟩ := sound_styled h hfits
  have hedited : Engine.Edited m.idx m.engine m.styled :=
    Engine.edited_styled m.engine m.idx m.view
  have hresolve : m.engine.registry.resolve? m.engine.tree m.idx =
      m.styled.registry.resolve? m.styled.tree m.idx := by
    rw [hedited.registry, hedited.tree.sameShape.resolve?_funext]
  refine fst_perform_congr fun modify => ?_
  rw [Engine.applyContent_eq, Engine.applyContent_eq, hentries, hresolve]
  exact congrArg (fun tree => { m.styled with tree })
    (hsound.coherent.toRooted.collect_admissible hsound.within hidx)

/-- **The constraints of an attribute whose key is refused** stay as they
are. -/
theorem constraint?_perform_of_refused (h : session.engine.Sound)
    (hfits : action.Fits session.engine.tree)
    (hentries : (session.meeting action).view.constraints = some (.expressions entries))
    (hkeys : (entries.map (·.1)).Nodup) {entry : String × String} (hentry : entry ∈ entries)
    {own : Attribute} (hown : Attribute.ofName? entry.1 = some own)
    (hrefused : ¬Admissible ((session.meeting action).engine.registry.resolve?
      (session.meeting action).engine.tree (session.meeting action).idx)
        (session.meeting action).idx entry.1 entry.2)
    (id : ConstraintId) (c : Constraint) (hfirst : c.first = ⟨(session.meeting action).idx, own⟩) :
    (session.perform action).1.engine.tree.constraint? id = some c ↔
      session.engine.tree.constraint? id = some c := by
  generalize hm : session.meeting action = m at hentries hrefused hfirst
  obtain ⟨hsound, hidx⟩ := sound_meeting h hfits
  obtain ⟨hsound', hidx'⟩ := sound_styled h hfits
  have hafter := constraints_perform (hm.symm ▸ hentries)
  rw [hm] at hsound hidx hsound' hidx' hafter
  have hedited : Engine.Edited m.idx m.engine m.styled :=
    Engine.edited_styled m.engine m.idx m.view
  -- a new node adds none, and neither does the look of a node
  have hmet : m.engine.tree.constraint? id = session.engine.tree.constraint? id := by
    subst hm
    cases action <;> rfl
  have hstyled : m.styled.tree.constraint? id = session.engine.tree.constraint? id := by
    rw [← hmet]
    unfold Tree.constraint? Meeting.styled
    rw [Engine.constraints_styled]
  have hrefusal : m.styled.tree.refusal? m.styled.registry m.idx entry ≠ none := by
    rw [hedited.registry, hedited.tree.sameShape.refusal?_eq]
    exact fun hnone => hrefused
      ((hsound.coherent.toRooted.refusal?_eq_none_iff hsound.within hidx).1 hnone)
  have happlied : m.styled.tree.applyConstraints m.styled.registry m.idx (!m.inserting)
      (.expressions entries) =
        (m.styled.tree.constrainAll (!m.inserting)
            (m.styled.tree.acceptances m.styled.registry m.idx entries),
          entries.filterMap (m.styled.tree.refusal? m.styled.registry m.idx)) :=
    Tree.collect_applyExpression entries
  rw [hafter, happlied, ← hstyled]
  refine hsound'.coherent.constraint?_constrainAll_of_ne (fun a ha => ?_) fun a ha heq => ?_
  · exact Tree.anchored_of_mem_acceptances hsound'.coherent.toRooted hidx' ha
  · exact Tree.target_ne_of_refused hkeys hentry hrefusal hown ha (heq.symm.trans hfirst)

/-- **A bad attribute skips only itself.** In a session that was reached, take
an insert or a modify with expressions for some attributes. An expression is
accepted exactly if it is admissible, in any tree of the shape that the node
is met in, whatever is in force there, with an insert as with a modify, and
every key meets such a tree. Without the keys that are refused the session
comes out the same. Of each of these one thing is said, in their order, and
the rest of the report is as it would be without the map. And of an attribute
whose key is refused all constraints are as they were before. -/
theorem bad_attribute_skips_only_itself (h : session.Reached)
    (hfits : action.Fits session.engine.tree)
    (hentries : (session.meeting action).view.constraints = some (.expressions entries))
    (hkeys : (entries.map (·.1)).Nodup) :
    let m := session.meeting action
    let admissible := fun e : String × String =>
      Admissible (m.engine.registry.resolve? m.engine.tree m.idx) m.idx e.1 e.2
    (∀ tree modify e, m.engine.tree.SameShape tree →
      ((tree.applyExpression m.engine.registry m.idx modify e).2 = [] ↔ admissible e)) ∧
    (∀ met ∈ Diagnostic.met (Tree.applyExpression m.engine.registry m.idx (!m.inserting))
      m.styled.tree entries, m.engine.tree.SameShape met.1) ∧
    (session.perform (action.withView
      { m.view with constraints := some (.expressions (entries.filter (admissible ·))) })).1 =
        (session.perform action).1 ∧
    (∃ look said frame, (session.perform action).2 = look ++ said ++ frame ∧
      (session.perform (action.withView { m.view with constraints := none })).2 =
        look ++ frame ∧
      List.Forall₂ (fun e d => m.engine.tree.refusal? m.engine.registry m.idx e = some d)
        (entries.filter fun e => ¬admissible e) said) ∧
    ∀ e ∈ entries, ¬admissible e → ∀ own, Attribute.ofName? e.1 = some own →
      ∀ id c, c.first = ⟨m.idx, own⟩ →
        ((session.perform action).1.engine.tree.constraint? id = some c ↔
          session.engine.tree.constraint? id = some c) := by
  intro m admissible
  obtain ⟨hsound, hidx⟩ := sound_meeting h.sound hfits
  have hrooted : m.engine.tree.Rooted := hsound.coherent.toRooted
  have hedited : Engine.Edited m.idx m.engine m.styled :=
    Engine.edited_styled m.engine m.idx m.view
  refine ⟨fun tree modify e hshape => ?_, fun met hmet => ?_,
    perform_admissible h.sound hfits hentries, ?_, fun e he hrefused own hown id c hfirst => ?_⟩
  · exact hshape.snd_applyExpression_eq_nil_iff hrooted hsound.within hidx modify
  · exact hedited.tree.sameShape.trans
      (Tree.edits_of_mem_met (fun _ => Tree.edits_applyExpression _) hmet).sameShape
  · obtain ⟨look, frame, hall, hrest⟩ := snd_perform hfits hentries
    refine ⟨look, _, frame, hall, hrest, ?_⟩
    show List.Forall₂ _ _ (Diagnostic.collect (Tree.applyExpression m.styled.registry m.idx
      (!m.inserting)) m.styled.tree entries).2
    rw [Tree.collect_applyExpression, hedited.registry, hedited.tree.sameShape.refusal?_eq]
    exact hrooted.forall₂_refusal? hsound.within hidx entries
  · exact constraint?_perform_of_refused h.sound hfits hentries hkeys he hown hrefused id c hfirst

/-- An entry that gives the box a depth, a height and a width that is no
expression. -/
def boxMisdescribed : Json :=
  .object [("operation", .string "modify"),
    ("view", .object [("constraints", .object [("depth", .string "3"), ("height", .string "40"),
        ("width", .string "wide")]),
      ("id", .string "box")])]

/-- The box gets its height. There is no depth, and its width stays in
force. -/
theorem bad_attribute_of_box :
    let session := ((initial .standard .none).tweak [boxInserted]).1
    let entries := [("depth", "3"), ("height", "40"), ("width", "wide")]
    let action := Action.modify 1 { id := "box", constraints := some (.expressions entries) }
    session.Reached ∧ session.resolve boxMisdescribed = .ok action ∧
      (session.perform (.modify 1
        { id := "box", constraints := some (.expressions [("height", "40")]) })).1 =
          (session.perform action).1 ∧
      (session.perform action).2.length = 2 ∧
      ∃ c, session.engine.tree.constraint? 0 = some c ∧ c.active = true ∧
        c.first = ⟨1, .width⟩ ∧ (session.perform action).1.engine.tree.constraint? 0 = some c := by
  intro session entries action
  have hreached : session.Reached := .tweak _ (.initial _ _ _)
  have hbox : session.engine.registry.lookup? "box" = some 1 := by decide +kernel
  have hresolve : session.resolve boxMisdescribed = .ok action :=
    resolve_modify_of_lookup rfl hbox rfl
  have hfits : action.Fits session.engine.tree := fits_of_resolve hreached.sound hresolve
  have hfilter : (entries.filter fun e => Admissible
      (session.engine.registry.resolve? session.engine.tree 1) 1 e.1 e.2) = [("height", "40")] := by
    decide +kernel
  have hwidth : ¬Admissible (session.engine.registry.resolve? session.engine.tree 1) 1 "width"
      "wide" := by
    decide +kernel
  obtain ⟨-, -, hsame, -, hkept⟩ := bad_attribute_skips_only_itself hreached hfits rfl
    (by decide : (entries.map (·.1)).Nodup)
  obtain ⟨c, hc⟩ := Tree.constraint?_of_lt
    (by decide +kernel : 0 < session.engine.tree.constraints.size)
  have hheld : (session.engine.tree.constraint? 0).map (fun c => (c.active, c.first)) =
      some (true, ⟨1, .width⟩) := by
    decide +kernel
  rw [hc] at hheld
  obtain ⟨hon, hfirst⟩ := Prod.mk.inj (Option.some.inj hheld)
  refine ⟨hreached, hresolve, ?_, by decide +kernel, c, hc, hon, hfirst, ?_⟩
  · rw [← hsame]
    exact congrArg (fun kept => (session.perform (.modify 1
      { id := "box", constraints := some (.expressions kept) })).1) hfilter.symm
  · exact (hkept ("width", "wide") (.tail _ (.tail _ (.head _))) hwidth .width rfl 0 c hfirst).2 hc

end Session

end LiveLayout
