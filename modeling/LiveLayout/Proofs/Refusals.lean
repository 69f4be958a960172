import LiveLayout.Proofs.Sessions
/-!
# Refused entries

An entry is refused for one of six reasons, each read off the entry and the
registry it meets (`Refused`). These are all the reasons there are
(`refused_iff`), and a refused entry does nothing but add one diagnostic
(`apply_of_refused`). So a change sequence without its refused entries leads
to the same session (`refused_entries_leave_no_trace`): what comes after a
refused entry meets what came before it, and is judged alike.
-/

namespace LiveLayout

/-- **A tag names no kind of node** if it is the tag of none, with or
without the platform's prefix. -/
theorem NodeType.ofTag?_eq_none_iff {tag : String} :
    ofTag? tag = none ↔ ∀ type : NodeType, tag ≠ type.tag ∧ tag ≠ "UI" ++ type.tag := by
  have hbare : ∀ bare : List Char,
      (all.find? fun type => type.tag.toList == bare) = none ↔
        ∀ type : NodeType, type.tag.toList ≠ bare := by
    intro bare
    rw [List.find?_eq_none]
    refine ⟨fun h type => ?_, fun h type _ => ?_⟩
    · have hmem : type ∈ all := by cases type <;> decide
      exact fun heq => h type hmem (beq_iff_eq.2 heq)
    · exact fun heq => h type (beq_iff_eq.1 heq)
  have hplain : ∀ type : NodeType, tag = type.tag ↔ type.tag.toList = tag.toList := by
    intro type
    rw [String.toList_inj]
    exact eq_comm
  have hmarked : ∀ type : NodeType,
      tag = "UI" ++ type.tag ↔ 'U' :: 'I' :: type.tag.toList = tag.toList := by
    intro type
    rw [← String.toList_inj, String.toList_append]
    exact eq_comm
  unfold ofTag?
  simp only [hbare, ne_eq, hplain, hmarked]
  -- a tag with the prefix is no bare one, and what follows the prefix is compared
  split
  · rename_i rest heq
    rw [heq]
    refine forall_congr' fun type => ?_
    have hnever : type.tag.toList ≠ 'U' :: 'I' :: rest := by
      cases type <;> intro hsame <;> cases hsame
    simp only [List.cons.injEq, true_and, hnever, not_false_eq_true]
  · rename_i hprefix
    refine forall_congr' fun type => ?_
    have hnever : 'U' :: 'I' :: type.tag.toList ≠ tag.toList := fun hsame =>
      hprefix _ hsame.symm
    simp only [hnever, not_false_eq_true, and_true]

namespace Session

variable {session : Session} {entry : Json}

/-! ## Reasons to refuse an entry -/

/-- **Why an entry is refused** by the session it meets. -/
inductive Refused (session : Session) (entry : Json) : Prop
  /-- It does not decode. -/
  | undecodable : Change.ofJson? entry = none → Refused session entry
  /-- Its operation is not known. -/
  | operation {change : Change} : Change.ofJson? entry = some change →
      change.operationTag ≠ "insert" → change.operationTag ≠ "modify" → Refused session entry
  /-- It has no identifier. -/
  | anonymous {change : Change} : Change.ofJson? entry = some change →
      change.view.id = none → Refused session entry
  /-- It inserts under a node that is not registered. -/
  | orphan {change : Change} : Change.ofJson? entry = some change →
      change.operationTag = "insert" →
      session.engine.registry.lookup? (change.view.superview.getD "") = none →
      Refused session entry
  /-- It inserts a node of a type that is not known. -/
  | typeless {change : Change} : Change.ofJson? entry = some change →
      change.operationTag = "insert" →
      (∀ type : NodeType, change.view.typeTag.getD "" ≠ type.tag ∧
        change.view.typeTag.getD "" ≠ "UI" ++ type.tag) →
      Refused session entry
  /-- It modifies a node that is not registered. -/
  | unregistered {change : Change} {id : Identifier} : Change.ofJson? entry = some change →
      change.operationTag = "modify" → change.view.id = some id →
      session.engine.registry.lookup? id = none → Refused session entry

/-- An operation is known by its tag. -/
theorem operation?_of_insert {change : Change} (h : change.operationTag = "insert") :
    change.operation? = some .insert := by
  unfold Change.operation? Operation.ofTag?
  rw [if_pos h]

theorem operation?_of_modify {change : Change} (h : change.operationTag = "modify") :
    change.operation? = some .modify := by
  have hne : ¬change.operationTag = "insert" := by
    rw [h]
    decide
  unfold Change.operation? Operation.ofTag?
  rw [if_neg hne, if_pos h]

/-- **An entry is refused for one of these reasons, and for no other.** -/
theorem refused_iff : session.Refused entry ↔ ∃ d, session.resolve entry = .error d := by
  constructor
  · intro h
    unfold resolve
    cases h with
    | undecodable hnone => exact ⟨_, by rw [hnone]⟩
    | @operation change hchange hinsert hmodify =>
      have hnone : change.operation? = none := by
        unfold Change.operation? Operation.ofTag?
        rw [if_neg hinsert, if_neg hmodify]
      simp only [hchange, hnone]
      exact ⟨_, rfl⟩
    | anonymous hchange hid =>
      simp only [hchange, resolveInsert, resolveModify, hid]
      split <;> exact ⟨_, rfl⟩
    | @orphan change hchange htag hparent =>
      simp only [hchange, operation?_of_insert htag, resolveInsert, hparent]
      cases change.view.id <;> exact ⟨_, rfl⟩
    | @typeless change hchange htag htype =>
      simp only [hchange, operation?_of_insert htag, resolveInsert,
        NodeType.ofTag?_eq_none_iff.2 htype]
      cases change.view.id with
      | none => exact ⟨_, rfl⟩
      | some id =>
        cases session.engine.registry.lookup? (change.view.superview.getD "") <;> exact ⟨_, rfl⟩
    | unregistered hchange htag hid hidx =>
      simp only [hchange, operation?_of_modify htag, resolveModify, hid, hidx]
      exact ⟨_, rfl⟩
  · rintro ⟨d, hd⟩
    refine Classical.byContradiction fun hnot => ?_
    -- with every reason excluded each step of the decoding goes through
    cases hchange : Change.ofJson? entry with
    | none => exact hnot (.undecodable hchange)
    | some change =>
      obtain ⟨id, hid⟩ := Option.ne_none_iff_exists'.1 fun hid => hnot (.anonymous hchange hid)
      by_cases hinsert : change.operationTag = "insert"
      · obtain ⟨parent, hparent⟩ := Option.ne_none_iff_exists'.1 fun hparent =>
          hnot (.orphan hchange hinsert hparent)
        obtain ⟨type, htype⟩ := Option.ne_none_iff_exists'.1 fun htype =>
          hnot (.typeless hchange hinsert (NodeType.ofTag?_eq_none_iff.1 htype))
        simp only [resolve, hchange, operation?_of_insert hinsert, resolveInsert, hid, hparent,
          htype] at hd
        cases hd
      · by_cases hmodify : change.operationTag = "modify"
        · obtain ⟨idx, hidx⟩ := Option.ne_none_iff_exists'.1 fun hidx =>
            hnot (.unregistered hchange hmodify hid hidx)
          simp only [resolve, hchange, operation?_of_modify hmodify, resolveModify, hid,
            hidx] at hd
          cases hd
        · exact hnot (.operation hchange hinsert hmodify)

instance (session : Session) : DecidablePred session.Refused := fun entry =>
  match h : session.resolve entry with
  | .error d => isTrue (refused_iff.2 ⟨d, h⟩)
  | .ok action => isFalse fun hrefused => by
    obtain ⟨d, hd⟩ := refused_iff.1 hrefused
    rw [h] at hd
    cases hd

/-- **A refused entry does nothing but say so**, once. -/
theorem apply_of_refused (h : session.Refused entry) :
    ∃ d, session.apply entry = (session, ⟨0, [d]⟩) := by
  obtain ⟨d, hd⟩ := refused_iff.1 h
  refine ⟨d, ?_⟩
  unfold apply
  rw [hd]

/-- Any other entry counts as applied. -/
theorem applied_of_not_refused (h : ¬session.Refused entry) :
    (session.apply entry).2.applied = 1 := by
  unfold apply
  cases hr : session.resolve entry with
  | error d => exact absurd (refused_iff.2 ⟨d, hr⟩) h
  | ok action => rfl

/-! ## Change sequences -/

/-- **The entries that are not refused** of a change sequence, each judged
in the session it meets. -/
def upheld (session : Session) (changes : List Json) : List Json :=
  ((session.met changes).filter fun m => ¬m.1.Refused m.2).map (·.2)

/-- How many entries of a change sequence are refused. -/
def refusals (session : Session) (changes : List Json) : Nat :=
  (session.met changes).countP fun m => m.1.Refused m.2

theorem upheld_cons (session : Session) (entry : Json) (rest : List Json) :
    session.upheld (entry :: rest) =
      (if session.Refused entry then [] else [entry]) ++
        (session.apply entry).1.upheld rest := by
  unfold upheld
  rw [met, List.filter_cons]
  by_cases h : session.Refused entry <;> simp only [h, not_true, not_false_eq_true, decide_true,
    decide_false, if_true, if_false, Bool.false_eq_true, List.map_cons, List.nil_append,
    List.singleton_append]

theorem refusals_cons (session : Session) (entry : Json) (rest : List Json) :
    session.refusals (entry :: rest) =
      (session.apply entry).1.refusals rest + if session.Refused entry then 1 else 0 := by
  unfold refusals
  rw [met, List.countP_cons]
  simp only [decide_eq_true_eq]

/-- **Each entry is either applied or refused.** -/
theorem applied_add_refusals (session : Session) (changes : List Json) :
    (session.tweak changes).2.applied + session.refusals changes = changes.length := by
  induction changes generalizing session with
  | nil => rfl
  | cons entry rest ih =>
    have hrest := ih (session.apply entry).1
    have happlied : (session.tweak (entry :: rest)).2.applied =
        (session.apply entry).2.applied + ((session.apply entry).1.tweak rest).2.applied := rfl
    rw [happlied, refusals_cons, List.length_cons]
    by_cases h : session.Refused entry
    · obtain ⟨d, hd⟩ := apply_of_refused h
      have hzero : (session.apply entry).2.applied = 0 := by rw [hd]
      rw [if_pos h, hzero]
      omega
    · rw [if_neg h, applied_of_not_refused h]
      omega

/-- **The refused entries can be left out**: the others lead to the same
session, and none of them is refused for it. -/
theorem tweak_upheld (session : Session) (changes : List Json) :
    (session.tweak (session.upheld changes)).1 = (session.tweak changes).1 ∧
      session.refusals (session.upheld changes) = 0 := by
  induction changes generalizing session with
  | nil => exact ⟨rfl, rfl⟩
  | cons entry rest ih =>
    obtain ⟨htweak, hrefusals⟩ := ih (session.apply entry).1
    rw [upheld_cons]
    by_cases h : session.Refused entry
    · -- the session that the rest meets is the one the entry met
      obtain ⟨d, hd⟩ := apply_of_refused h
      have hsame : (session.apply entry).1 = session := by rw [hd]
      rw [hsame] at htweak hrefusals ⊢
      rw [if_pos h, List.nil_append]
      refine ⟨htweak.trans ?_, hrefusals⟩
      show _ = ((session.apply entry).1.tweak rest).1
      rw [hsame]
    · rw [if_neg h, List.singleton_append, refusals_cons, hrefusals, if_neg h]
      exact ⟨htweak, rfl⟩

/-- **Refused entries leave no trace.** Whatever the session and the changes,
an entry that is refused as the session meets it adds one diagnostic and
leaves engine and identifiers as they are, and any other counts as applied.
So the applied and the refused make up the whole sequence, and without the
refused entries it leads to the same session, all of it applied. -/
theorem refused_entries_leave_no_trace (session : Session) (changes : List Json) :
    (∀ m ∈ session.met changes,
      (m.1.Refused m.2 → ∃ d, m.1.apply m.2 = (m.1, ⟨0, [d]⟩)) ∧
        (¬m.1.Refused m.2 → (m.1.apply m.2).2.applied = 1)) ∧
      (session.tweak changes).2.applied + session.refusals changes = changes.length ∧
      (session.tweak (session.upheld changes)).1 = (session.tweak changes).1 ∧
      (session.tweak (session.upheld changes)).2.applied = (session.upheld changes).length := by
  obtain ⟨hsame, hnone⟩ := session.tweak_upheld changes
  have hall := session.applied_add_refusals (session.upheld changes)
  rw [hnone, Nat.add_zero] at hall
  exact ⟨fun m _ => ⟨apply_of_refused, applied_of_not_refused⟩,
    session.applied_add_refusals changes, hsame, hall⟩

/-- An entry that inserts a plain view. -/
def viewInserted (id superview : String) : Json :=
  .object [("operation", .string "insert"),
    ("view", .object [("id", .string id), ("superview", .string superview),
      ("type", .string "View")])]

/-- A card is refused for want of its parent, and its badge for want of the
card. What the two leave is what the card that follows makes of a session
that has seen neither. -/
theorem refused_entries_of_shelf :
    let session := initial .standard .none
    let changes := [viewInserted "card" "shelf", viewInserted "badge" "card",
      viewInserted "card" "root"]
    session.refusals changes = 2 ∧ (session.tweak changes).2.applied = 1 ∧
      (∃ d, session.apply (viewInserted "card" "shelf") = (session, ⟨0, [d]⟩)) ∧
      (session.tweak [viewInserted "card" "root"]).1 = (session.tweak changes).1 := by
  intro session changes
  have htwo : session.refusals changes = 2 := by decide +kernel
  have hleft : session.upheld changes = [viewInserted "card" "root"] := rfl
  have hshelf : session.Refused (viewInserted "card" "shelf") := by decide +kernel
  obtain ⟨heach, hall, hsame, -⟩ := refused_entries_leave_no_trace session changes
  have hlength : changes.length = 3 := rfl
  rw [htwo, hlength] at hall
  rw [hleft] at hsame
  refine ⟨htwo, by omega, ?_, hsame⟩
  exact (heach (session, viewInserted "card" "shelf") (.head _)).1 hshelf

end Session

end LiveLayout
