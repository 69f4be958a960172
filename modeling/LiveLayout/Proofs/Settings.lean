import LiveLayout.Proofs.Documents
import LiveLayout.Engine.Properties
/-!
# Settings, key by key

A bag sets one thing a key. Whether a value fits does not depend on what
was set before (`Keywise.fits`), a value that is set stays set when it is
set again (`Keywise.settled`), and another key leaves it alone
(`Keywise.kept`). So a bag applied again to what it made changes nothing
and says the same (`Settles.collect_collect`). All records of a node are of
this kind.
-/

namespace LiveLayout

/-! ## Steps that settle -/

/-- **Steps that settle.** What a step reports depends on a view of the
state that no step changes; a good step is done once it is taken, and a step
that is done stays done under steps that are apart from it. -/
structure Settles {σ α β : Type} (view : σ → β) (good : α → Prop) (apart : α → α → Prop)
    (step : σ → α → σ × List Diagnostic) : Prop where
  view_eq : ∀ s a, view (step s a).1 = view s
  report : ∀ s t a, view s = view t → (step s a).2 = (step t a).2
  settled : ∀ s a, good a → (step (step s a).1 a).1 = (step s a).1
  kept : ∀ s a b, apart a b → (step s a).1 = s → (step (step s b).1 a).1 = (step s b).1

namespace Settles

open Diagnostic (collect)

variable {σ α β : Type} {view : σ → β} {good : α → Prop} {apart : α → α → Prop}
variable {step : σ → α → σ × List Diagnostic} {s t : σ} {a : α} {l : List α}

/-- What is done stays done while steps apart from it are taken. -/
theorem kept_collect (h : Settles view good apart step) (ha : (step s a).1 = s)
    (hl : ∀ b ∈ l, apart a b) : (step (collect step s l).1 a).1 = (collect step s l).1 := by
  induction l generalizing s with
  | nil => exact ha
  | cons b rest ih =>
    exact ih (h.kept s a b (hl b List.mem_cons_self) ha)
      fun c hc => hl c (List.mem_cons_of_mem _ hc)

/-- **Once all steps are taken each of them is done.** -/
theorem done_collect (h : Settles view good apart step) (hgood : ∀ a ∈ l, good a)
    (hl : l.Pairwise apart) :
    ∀ a ∈ l, (step (collect step s l).1 a).1 = (collect step s l).1 := by
  induction l generalizing s with
  | nil => exact fun a ha => absurd ha List.not_mem_nil
  | cons b rest ih =>
    obtain ⟨hb, hrest⟩ := List.pairwise_cons.1 hl
    intro a ha
    rcases List.mem_cons.1 ha with rfl | ha
    · have hdone := h.settled s a (hgood a List.mem_cons_self)
      have hkept := h.kept_collect hdone hb
      exact hkept
    · exact ih (fun c hc => hgood c (List.mem_cons_of_mem _ hc)) hrest a ha

/-- Where all steps are done, taking them changes nothing. -/
theorem collect_of_done (hl : ∀ a ∈ l, (step s a).1 = s) : (collect step s l).1 = s := by
  induction l with
  | nil => rfl
  | cons a rest ih =>
    show (collect step (step s a).1 rest).1 = s
    rw [hl a List.mem_cons_self]
    exact ih fun b hb => hl b (List.mem_cons_of_mem _ hb)

theorem view_collect (h : Settles view good apart step) : view (collect step s l).1 = view s := by
  induction l generalizing s with
  | nil => rfl
  | cons a rest ih => exact ih.trans (h.view_eq s a)

/-- Two states of one view report the same. -/
theorem report_collect (h : Settles view good apart step) (hst : view s = view t) :
    (collect step s l).2 = (collect step t l).2 := by
  induction l generalizing s t with
  | nil => rfl
  | cons a rest ih =>
    have hnext : view (step s a).1 = view (step t a).1 := by
      rw [h.view_eq, h.view_eq, hst]
    show (step s a).2 ++ (collect step (step s a).1 rest).2 = _ ++ _
    rw [h.report s t a hst, ih hnext]

/-- **Steps taken again change nothing and report the same.** -/
theorem collect_collect (h : Settles view good apart step) (hgood : ∀ a ∈ l, good a)
    (hl : l.Pairwise apart) : collect step (collect step s l).1 l = collect step s l :=
  Prod.ext (collect_of_done (h.done_collect hgood hl)) (h.report_collect h.view_collect)

end Settles

/-- Steps that are carried out inside a larger state. -/
theorem Diagnostic.collect_embed {σ τ α : Type} {step : σ → α → σ × List Diagnostic}
    {step' : τ → α → τ × List Diagnostic} (embed : σ → τ)
    (h : ∀ s a, step' (embed s) a = (embed (step s a).1, (step s a).2)) (s : σ) (l : List α) :
    collect step' (embed s) l = (embed (collect step s l).1, (collect step s l).2) := by
  induction l generalizing s with
  | nil => rfl
  | cons a rest ih => simp only [collect, h, ih]

/-- Steps that agree on a list take it to the same end. -/
theorem Diagnostic.collect_congr {σ α : Type} {step step' : σ → α → σ × List Diagnostic}
    {l : List α} (h : ∀ a ∈ l, ∀ s, step s a = step' s a) (s : σ) :
    collect step s l = collect step' s l := by
  induction l generalizing s with
  | nil => rfl
  | cons a rest ih =>
    have hrest := ih fun b hb => h b (List.mem_cons_of_mem _ hb)
    simp only [collect, h a List.mem_cons_self, hrest]

/-! ## Records set key by key -/

/-- **A record that is set key by key.** -/
structure Keywise {σ β : Type} (view : σ → β) (set? : σ → String → Json → Option σ) : Prop where
  view_eq : ∀ s t key value, set? s key value = some t → view t = view s
  fits : ∀ s t key value, view s = view t →
    (set? s key value).isSome = (set? t key value).isSome
  settled : ∀ s t key value, value.Ordered → set? s key value = some t → set? t key value = some t
  kept : ∀ s t key key' value value', key ≠ key' → set? s key value = some s →
    set? s key' value' = some t → set? t key value = some t

/-- One member of a bag put into a record, or reported as the record's view
says. -/
def takeMember {σ β : Type} (view : σ → β) (set? : σ → String → Json → Option σ)
    (refusal : β → String × Json → List Diagnostic) (s : σ) (m : String × Json) :
    σ × List Diagnostic :=
  match set? s m.1 m.2 with
  | some t => (t, [])
  | none => (s, refusal (view s) m)

namespace Keywise

variable {σ β : Type} {view : σ → β} {set? : σ → String → Json → Option σ}
variable {refusal : β → String × Json → List Diagnostic} {s : σ} {bag : List (String × Json)}

theorem takeMember_of_some {t : σ} {m : String × Json} (h : set? s m.1 m.2 = some t) :
    takeMember view set? refusal s m = (t, []) := by
  unfold takeMember
  rw [h]

theorem takeMember_of_none {m : String × Json} (h : set? s m.1 m.2 = none) :
    takeMember view set? refusal s m = (s, refusal (view s) m) := by
  unfold takeMember
  rw [h]

/-- A value that does not fit never fits. -/
theorem none_of_none (h : Keywise view set?) {t : σ} (hst : view s = view t) {key : String}
    {value : Json} (hs : set? s key value = none) : set? t key value = none := by
  have hfits := h.fits s t key value hst
  rw [hs] at hfits
  exact Option.isNone_iff_eq_none.1 (by rw [← Option.not_isSome, ← hfits]; rfl)

/-- **Members of a bag settle**, those of different keys apart. -/
theorem settles (h : Keywise view set?) :
    Settles view (fun m : String × Json => m.2.Ordered) (fun m m' => m.1 ≠ m'.1)
      (takeMember view set? refusal) where
  view_eq s m := by
    cases hs : set? s m.1 m.2 with
    | none => rw [takeMember_of_none hs]
    | some t =>
      rw [takeMember_of_some hs]
      exact h.view_eq s t _ _ hs
  report s t m hst := by
    cases hs : set? s m.1 m.2 with
    | none => rw [takeMember_of_none hs, takeMember_of_none (h.none_of_none hst hs), hst]
    | some s' =>
      cases ht : set? t m.1 m.2 with
      | none =>
        rw [h.none_of_none hst.symm ht] at hs
        cases hs
      | some t' => rw [takeMember_of_some hs, takeMember_of_some ht]
  settled s m hm := by
    cases hs : set? s m.1 m.2 with
    | none => rw [takeMember_of_none hs, takeMember_of_none hs]
    | some t => rw [takeMember_of_some hs, takeMember_of_some (h.settled s t _ _ hm hs)]
  kept s m m' hne hdone := by
    cases hs' : set? s m'.1 m'.2 with
    | none =>
      rw [takeMember_of_none hs']
      exact hdone
    | some t =>
      rw [takeMember_of_some hs']
      cases hs : set? s m.1 m.2 with
      | none =>
        have hview : view s = view t := (h.view_eq s t _ _ hs').symm
        rw [takeMember_of_none (h.none_of_none hview hs)]
      | some s' =>
        rw [takeMember_of_some hs] at hdone
        cases hdone
        rw [takeMember_of_some (h.kept _ t _ _ _ _ hne hs hs')]

/-- **A bag applied again** to the record it made changes nothing and
reports the same. -/
theorem collect_collect (h : Keywise view set?) (hbag : (Json.object bag).Ordered) (s : σ) :
    Diagnostic.collect (takeMember view set? refusal)
        (Diagnostic.collect (takeMember view set? refusal) s bag).1 bag =
      Diagnostic.collect (takeMember view set? refusal) s bag := by
  cases hbag with
  | object hsorted hmembers =>
    exact h.settles.collect_collect hmembers (List.pairwise_map.1 (Json.nodup_keys hsorted))

end Keywise

/-- A pair of records, a key taken by the first where it fits and otherwise
by the second. -/
def orElse? {σ τ : Type} (first : σ → String → Json → Option σ)
    (second : τ → String → Json → Option τ) (s : σ × τ) (key : String) (value : Json) :
    Option (σ × τ) :=
  match first s.1 key value with
  | some t => some (t, s.2)
  | none => (second s.2 key value).map (s.1, ·)

theorem orElse?_eq_some {σ τ : Type} {first : σ → String → Json → Option σ}
    {second : τ → String → Json → Option τ} {s t : σ × τ} {key : String} {value : Json} :
    orElse? first second s key value = some t ↔
      (first s.1 key value = some t.1 ∧ s.2 = t.2) ∨
        (first s.1 key value = none ∧ s.1 = t.1 ∧ second s.2 key value = some t.2) := by
  obtain ⟨x, y⟩ := s
  obtain ⟨x', y'⟩ := t
  unfold orElse?
  cases first x key value with
  | some made => simp only [Option.some.injEq, Prod.mk.injEq, reduceCtorEq, false_and, or_false]
  | none =>
    cases second y key value with
    | some made => simp only [Option.map_some, Option.some.injEq, Prod.mk.injEq, reduceCtorEq,
        false_and, true_and, false_or]
    | none => simp only [Option.map_none, reduceCtorEq, false_and, and_false, or_false]

/-- **What fits the first record always goes there**, and so the pair is set
key by key. -/
theorem Keywise.orElse {σ τ β γ : Type} {view : σ → β} {view' : τ → γ}
    {first : σ → String → Json → Option σ} {second : τ → String → Json → Option τ}
    (h : Keywise view first) (h' : Keywise view' second) :
    Keywise (fun s : σ × τ => (view s.1, view' s.2)) (orElse? first second) where
  view_eq s t key value hs := by
    rcases orElse?_eq_some.1 hs with ⟨hfirst, heq⟩ | ⟨-, heq, hsecond⟩
    · simp only [h.view_eq _ _ _ _ hfirst, heq]
    · simp only [h'.view_eq _ _ _ _ hsecond, heq]
  fits s t key value hst := by
    obtain ⟨hfirst, hsecond⟩ := Prod.mk.inj hst
    unfold orElse?
    cases hs : first s.1 key value with
    | none =>
      simp only [h.none_of_none hfirst hs, Option.isSome_map]
      exact h'.fits s.2 t.2 key value hsecond
    | some s' =>
      cases ht : first t.1 key value with
      | none =>
        rw [h.none_of_none hfirst.symm ht] at hs
        cases hs
      | some t' => rfl
  settled s t key value hvalue hs := by
    refine orElse?_eq_some.2 ?_
    rcases orElse?_eq_some.1 hs with ⟨hfirst, -⟩ | ⟨hnone, heq, hsecond⟩
    · exact .inl ⟨h.settled _ _ _ _ hvalue hfirst, rfl⟩
    · exact .inr ⟨heq ▸ hnone, rfl, h'.settled _ _ _ _ hvalue hsecond⟩
  kept s t key key' value value' hne hs hs' := by
    refine orElse?_eq_some.2 ?_
    -- each of the two keys goes to the first record or to the second
    rcases orElse?_eq_some.1 hs with ⟨hfirst, -⟩ | ⟨hnone, -, hsecond⟩ <;>
      rcases orElse?_eq_some.1 hs' with ⟨hfirst', heq⟩ | ⟨-, heq, hsecond'⟩
    · exact .inl ⟨h.kept _ _ _ _ _ _ hne hfirst hfirst', rfl⟩
    · exact .inl ⟨heq ▸ hfirst, rfl⟩
    · have hview : view s.1 = view t.1 := (h.view_eq _ _ _ _ hfirst').symm
      exact .inr ⟨h.none_of_none hview hnone, rfl, heq ▸ hsecond⟩
    · exact .inr ⟨heq ▸ hnone, rfl, h'.kept _ _ _ _ _ _ hne hsecond hsecond'⟩

/-- **Records of several forms**, set key by key within each form, are set
key by key: the form never changes. -/
theorem Keywise.forms {σ ι : Type} {ρ : ι → Type} {view : σ → ι}
    {set? : σ → String → Json → Option σ} {make : ∀ i, ρ i → σ}
    {part? : ∀ i, ρ i → String → Json → Option (ρ i)}
    (h : ∀ i, Keywise (fun _ => ()) (part? i)) (hview : ∀ i r, view (make i r) = i)
    (hmake : ∀ s, ∃ i r, s = make i r) (hinj : ∀ i r r', make i r = make i r' → r = r')
    (hset : ∀ i r key value, set? (make i r) key value = (part? i r key value).map (make i)) :
    Keywise view set? where
  view_eq s t key value hs := by
    obtain ⟨i, r, rfl⟩ := hmake s
    rw [hset] at hs
    obtain ⟨r', -, rfl⟩ := Option.map_eq_some_iff.1 hs
    rw [hview, hview]
  fits s t key value hst := by
    obtain ⟨i, r, rfl⟩ := hmake s
    obtain ⟨j, r', rfl⟩ := hmake t
    rw [hview, hview] at hst
    subst hst
    rw [hset, hset, Option.isSome_map, Option.isSome_map]
    exact (h i).fits r r' key value rfl
  settled s t key value hvalue hs := by
    obtain ⟨i, r, rfl⟩ := hmake s
    rw [hset] at hs
    obtain ⟨r', hr', rfl⟩ := Option.map_eq_some_iff.1 hs
    rw [hset, (h i).settled _ _ _ _ hvalue hr', Option.map_some]
  kept s t key key' value value' hne hs hs' := by
    obtain ⟨i, r, rfl⟩ := hmake s
    rw [hset] at hs hs'
    obtain ⟨r', hr', hsame⟩ := Option.map_eq_some_iff.1 hs
    cases hinj i r' r hsame
    obtain ⟨r'', hr'', rfl⟩ := Option.map_eq_some_iff.1 hs'
    rw [hset, (h i).kept _ _ _ _ _ _ hne hr' hr'', Option.map_some]

/-! ## Tables of settings -/

/-- **One setting of a record**: its key, what its values decode to, and
the record with it set. -/
structure Setting (σ : Type) where
  key : String
  Value : Type
  decode? : Json → Option Value
  put : σ → Value → σ

/-- The first setting of a table that has the key, set to a value that
fits. -/
def Setting.put? {σ : Type} : List (Setting σ) → σ → String → Json → Option σ
  | [], _, _, _ => none
  | f :: rest, s, key, value =>
    if key = f.key then (f.decode? value).map (f.put s) else put? rest s key value

/-- **Settings that have nothing to do with each other**: the last value of
each stands, and the order of two does not matter. -/
structure Setting.Independent {σ : Type} (table : List (Setting σ)) : Prop where
  put_put : ∀ f ∈ table, ∀ s v, f.put (f.put s v) v = f.put s v
  put_comm : table.Pairwise fun f g => ∀ s v w, f.put (g.put s w) v = g.put (f.put s v) w

namespace Setting

variable {σ : Type} {table : List (Setting σ)} {s t : σ} {key : String} {value : Json}

/-- Which setting it is, and to what value, does not depend on the record. -/
theorem put?_eq_some (h : put? table s key value = some t) :
    ∃ f ∈ table, f.key = key ∧ ∃ v, t = f.put s v ∧
      ∀ r, put? table r key value = some (f.put r v) := by
  induction table with
  | nil => cases h
  | cons f rest ih =>
    unfold put? at h
    split at h
    · rename_i hkey
      obtain ⟨v, hv, rfl⟩ := Option.map_eq_some_iff.1 h
      refine ⟨f, List.mem_cons_self, hkey.symm, v, rfl, fun r => ?_⟩
      rw [put?, if_pos hkey, hv, Option.map_some]
    · rename_i hkey
      obtain ⟨g, hg, hgkey, v, rfl, hall⟩ := ih h
      refine ⟨g, List.mem_cons_of_mem _ hg, hgkey, v, rfl, fun r => ?_⟩
      rw [put?, if_neg hkey, hall]

/-- Two settings, unless they have one key, that can be set in either
order. -/
def Commute (f g : Setting σ) : Prop :=
  f.key ≠ g.key → ∀ s v w, f.put (g.put s w) v = g.put (f.put s v) w

/-- The order of two settings of different keys does not matter. -/
theorem Independent.comm (h : Independent table) {f g : Setting σ} (hf : f ∈ table)
    (hg : g ∈ table) (hne : f.key ≠ g.key) (s : σ) (v : f.Value) (w : g.Value) :
    f.put (g.put s w) v = g.put (f.put s v) w := by
  have hcomm : table.Pairwise Commute := by
    refine h.put_comm.imp ?_
    intro f g hfg _
    exact hfg
  have hflip : table.Pairwise (flip Commute) := by
    refine h.put_comm.imp ?_
    intro f g hfg _ s v w
    exact (hfg s w v).symm
  have hall : ∀ f ∈ table, ∀ g ∈ table, Commute f g :=
    List.Pairwise.forall_of_forall_of_flip (fun f _ hself => absurd rfl hself) hcomm hflip
  exact hall f hf g hg hne s v w

/-- **A table of independent settings is set key by key.** -/
theorem Independent.keywise (h : Independent table) : Keywise (fun _ => ()) (put? table) where
  view_eq _ _ _ _ _ := rfl
  fits s t key value _ := by
    cases hs : put? table s key value with
    | some s' =>
      obtain ⟨f, -, -, v, -, hall⟩ := put?_eq_some hs
      rw [hall]
      rfl
    | none =>
      cases ht : put? table t key value with
      | none => rfl
      | some t' =>
        obtain ⟨f, -, -, v, -, hall⟩ := put?_eq_some ht
        rw [hall] at hs
        cases hs
  settled s t key value _ hs := by
    obtain ⟨f, hf, -, v, rfl, hall⟩ := put?_eq_some hs
    rw [hall, h.put_put f hf]
  kept s t key key' value value' hne hs hs' := by
    obtain ⟨f, hf, rfl, v, hsame, hall⟩ := put?_eq_some hs
    obtain ⟨g, hg, rfl, w, rfl, -⟩ := put?_eq_some hs'
    rw [hall, h.comm hf hg hne, ← hsame]

end Setting

/-! ## The records of a node -/

/-- The attributes that every node has. -/
def ViewAttributes.table : List (Setting ViewAttributes) :=
  [⟨"contentMode", Nat, fun value =>
      value.signed?.bind fun raw =>
        if 0 ≤ raw.toInt ∧ raw.toInt ≤ contentModeMax then some raw.toInt.toNat else none,
      fun view raw => { view with contentMode := raw }⟩,
    ⟨"semanticContentAttribute", Nat, fun value =>
      value.signed?.bind fun raw =>
        if 0 ≤ raw.toInt ∧ raw.toInt ≤ semanticContentAttributeMax then some raw.toInt.toNat
        else none,
      fun view raw => { view with semanticContentAttribute := raw }⟩,
    ⟨"backgroundColor", Color, Color.ofJson?,
      fun view color => { view with backgroundColor := some color }⟩,
    ⟨"tintColor", Color, Color.ofJson?, fun view color => { view with tintColor := some color }⟩,
    ⟨"alpha", Binary64, Json.double?, fun view alpha => { view with alpha }⟩,
    ⟨"tag", Int64, Json.integral?, fun view tag => { view with tag }⟩,
    ⟨"isHidden", Bool, Json.bool?, fun view isHidden => { view with isHidden }⟩,
    ⟨"clipsToBounds", Bool, Json.bool?, fun view clipsToBounds => { view with clipsToBounds }⟩,
    ⟨"isUserInteractionEnabled", Bool, Json.bool?,
      fun view isUserInteractionEnabled => { view with isUserInteractionEnabled }⟩]

theorem ViewAttributes.set?_eq : ViewAttributes.set? = Setting.put? table := by
  funext view key value
  -- a raw value in range is decoded and set in one step
  have hraw : ∀ (max : Int) (put : Nat → ViewAttributes),
      (value.signed?.bind fun raw =>
        if 0 ≤ raw.toInt ∧ raw.toInt ≤ max then some (put raw.toInt.toNat) else none) =
      (value.signed?.bind fun raw =>
        if 0 ≤ raw.toInt ∧ raw.toInt ≤ max then some raw.toInt.toNat else none).map put := by
    intro max put
    cases value.signed? with
    | none => rfl
    | some raw =>
      rw [Option.bind_some, Option.bind_some]
      split <;> rfl
  have hmode := hraw contentModeMax fun raw => { view with contentMode := raw }
  have hsemantic := hraw semanticContentAttributeMax
    fun raw => { view with semanticContentAttribute := raw }
  exact ite_congr rfl (fun _ => hmode) fun _ => ite_congr rfl (fun _ => hsemantic) fun _ => rfl

theorem ViewAttributes.independent_table : Setting.Independent table where
  put_put := by
    unfold table
    simp
  put_comm := by
    unfold table
    simp

/-- The attributes of a layer. -/
def LayerAttributes.table : List (Setting LayerAttributes) :=
  [⟨"backgroundColor", Color, Color.ofJson?,
      fun layer color => { layer with backgroundColor := some color }⟩,
    ⟨"borderColor", Color, Color.ofJson?,
      fun layer color => { layer with borderColor := some color }⟩,
    ⟨"shadowColor", Color, Color.ofJson?,
      fun layer color => { layer with shadowColor := some color }⟩,
    ⟨"cornerRadius", Binary64, Json.double?, fun layer cornerRadius => { layer with cornerRadius }⟩,
    ⟨"borderWidth", Binary64, Json.double?, fun layer borderWidth => { layer with borderWidth }⟩,
    ⟨"shadowOpacity", Binary64, Json.double?,
      fun layer shadowOpacity => { layer with shadowOpacity }⟩,
    ⟨"shadowRadius", Binary64, Json.double?, fun layer shadowRadius => { layer with shadowRadius }⟩,
    ⟨"opacity", Binary64, Json.double?, fun layer opacity => { layer with opacity }⟩,
    ⟨"masksToBounds", Bool, Json.bool?, fun layer masksToBounds => { layer with masksToBounds }⟩]

theorem LayerAttributes.set?_eq : LayerAttributes.set? = Setting.put? table := rfl

theorem LayerAttributes.independent_table : Setting.Independent table where
  put_put := by
    unfold table
    simp
  put_comm := by
    unfold table
    simp

/-! ## Texts -/

namespace TextContent

variable {level : Nat} {key : String} {value : Json} {content : TextContent}

def textSetting : Setting TextContent :=
  ⟨"text", String, Json.string?, fun content text => { content with text := some text }⟩

def alignmentSetting : Setting TextContent :=
  ⟨"textAlignment", TextAlignment, alignmentOf?,
    fun content alignment => { content with alignment }⟩

def colorSetting : Setting TextContent :=
  ⟨"textColor", Color, Color.ofJson?, fun content color => { content with color := some color }⟩

def fontSetting (decode? : Json → Option Font) : Setting TextContent :=
  ⟨"font", Font, decode?, fun content font => { content with font := some font }⟩

def lineBreakSetting : Setting TextContent :=
  ⟨"lineBreakMode", LineBreakMode, lineBreakOf?,
    fun content lineBreak => { content with lineBreak }⟩

def linesSetting (decode? : Json → Option Int64) : Setting TextContent :=
  ⟨"numberOfLines", Int64, decode?, fun content numberOfLines => { content with numberOfLines }⟩

/-- The font that an object describes. -/
def objectFont? (level : Nat) (value : Json) : Option Font :=
  value.object?.bind fun _ => Font.ofJson? level value

/-- The properties of a label. -/
def properties (level : Nat) : List (Setting TextContent) :=
  [alignmentSetting, lineBreakSetting, textSetting, colorSetting, fontSetting (objectFont? level),
    linesSetting Json.integral?]

/-- The fields of a title object. -/
def titleFields (level : Nat) : List (Setting TextContent) :=
  [textSetting, alignmentSetting, colorSetting, fontSetting (Font.ofJson? level), lineBreakSetting,
    linesSetting Json.signed?]

theorem setProperty?_eq (level : Nat) : setProperty? level = Setting.put? (properties level) := by
  funext content key value
  cases value <;> rfl

theorem setTitleField?_eq (level : Nat) :
    setTitleField? level = Setting.put? (titleFields level) := rfl

theorem independent_properties (level : Nat) : Setting.Independent (properties level) where
  put_put := by
    unfold properties
    simp [alignmentSetting, lineBreakSetting, textSetting, colorSetting, fontSetting, linesSetting]
  put_comm := by
    unfold properties
    simp [alignmentSetting, lineBreakSetting, textSetting, colorSetting, fontSetting, linesSetting]

theorem independent_titleFields (level : Nat) : Setting.Independent (titleFields level) where
  put_put := by
    unfold titleFields
    simp [alignmentSetting, lineBreakSetting, textSetting, colorSetting, fontSetting, linesSetting]
  put_comm := by
    unfold titleFields
    simp [alignmentSetting, lineBreakSetting, textSetting, colorSetting, fontSetting, linesSetting]

theorem keywise_setProperty? (level : Nat) : Keywise (fun _ => ()) (setProperty? level) := by
  rw [setProperty?_eq]
  exact (independent_properties level).keywise

theorem keywise_setTitleField? (level : Nat) :
    Keywise (fun _ => ()) (setTitleField? level) := by
  rw [setTitleField?_eq]
  exact (independent_titleFields level).keywise

/-- A title object is a bag that reports nothing. -/
theorem setTitle_eq (fields : List (String × Json)) :
    content.setTitle level fields =
      (Diagnostic.collect (takeMember (fun _ => ()) (setTitleField? level) fun _ _ => [])
        content fields).1 := by
  unfold setTitle
  induction fields generalizing content with
  | nil => rfl
  | cons m rest ih =>
    have hstep : (content.setTitleField? level m.1 m.2).getD content =
        (takeMember (fun _ => ()) (setTitleField? level) (fun _ _ => []) content m).1 := by
      unfold takeMember
      cases content.setTitleField? level m.1 m.2 <;> rfl
    rw [List.foldl_cons, hstep, ih]
    rfl

/-- **A title object applied again** changes nothing. -/
theorem setTitle_setTitle {fields : List (String × Json)} (h : (Json.object fields).Ordered) :
    (content.setTitle level fields).setTitle level fields = content.setTitle level fields := by
  rw [setTitle_eq, setTitle_eq, (keywise_setTitleField? level).collect_collect h]

end TextContent

/-! ## Kinds -/

namespace NodeKind

/-- The kind of node, without what only it has. -/
def type : NodeKind → NodeType
  | view => .view
  | label _ => .label
  | button _ _ => .button
  | imageView _ _ => .imageView

/-- An image view with one of its images set. -/
def withImage (kind : NodeKind) (slot : ImageSlot) (content : ImageContent) : NodeKind :=
  match kind, slot with
  | imageView _ highlighted, .image => imageView (some content) highlighted
  | imageView image _, .highlightedImage => imageView image (some content)
  | kind, _ => kind

end NodeKind

/-- **An image loaded at once**: fetched or looked up, under the source it
was requested by. -/
def ImageLoader.load (images : ImageLoader) (src : String) : Except String ImageContent :=
  if isRemote src then (images.fetch src).map fun content => { content with src }
  else
    match images.named? src with
    | some content => .ok { content with src }
    | Option.none => .error Engine.missingAsset

namespace NodeKind

variable {level : Nat} {images : ImageLoader} {kind changed : NodeKind} {key : String}
variable {value : Json}

/-- **A property of one kind of node**, images loaded at once. -/
def settle? (level : Nat) (images : ImageLoader) (kind : NodeKind) (key : String) (value : Json) :
    Option NodeKind :=
  match kind.imageRequest? key value with
  | some (slot, src) => (images.load src).toOption.map (kind.withImage slot)
  | none => kind.set? level key value

theorem key_of_ofKey? {slot : ImageSlot} (h : ImageSlot.ofKey? key = some slot) :
    slot.key = key := by
  unfold ImageSlot.ofKey? at h
  split at h
  · rename_i hkey
    cases h
    exact hkey.symm
  · split at h
    · rename_i hkey
      cases h
      exact hkey.symm
    · cases h

/-- What a kind of node holds. -/
def Held : NodeType → Type
  | .view => Unit
  | .label => TextContent
  | .button => Identifier × TextContent
  | .imageView => Option ImageContent × Option ImageContent

/-- The kind that holds it. -/
def make : ∀ type, Held type → NodeKind
  | .view, _ => view
  | .label, text => label text
  | .button, held => button held.1 held.2
  | .imageView, held => imageView held.1 held.2

/-- The title of a button, its only property. -/
def titled? (level : Nat) (held : Identifier × TextContent) (key : String) (value : Json) :
    Option (Identifier × TextContent) :=
  if key = "title" then
    value.object?.map fun fields => (held.1, held.2.setTitle level fields)
  else none

/-- The images of an image view. -/
def imageTable (images : ImageLoader) :
    List (Setting (Option ImageContent × Option ImageContent)) :=
  let loaded? (value : Json) :=
    (imageSource? value).bind fun src => (images.load src).toOption
  [⟨"image", ImageContent, loaded?, fun held content => (some content, held.2)⟩,
    ⟨"highlightedImage", ImageContent, loaded?, fun held content => (held.1, some content)⟩]

/-- Every kind of node is of a type and holds something. -/
theorem exists_make (kind : NodeKind) : ∃ type held, kind = make type held := by
  cases kind with
  | view => exact ⟨.view, (), rfl⟩
  | label text => exact ⟨.label, text, rfl⟩
  | button titleId title => exact ⟨.button, (titleId, title), rfl⟩
  | imageView image highlighted => exact ⟨.imageView, (image, highlighted), rfl⟩

/-- A property of what a kind of node holds. -/
def part? (level : Nat) (images : ImageLoader) :
    ∀ type, Held type → String → Json → Option (Held type)
  | .view, _, _, _ => none
  | .label, text, key, value => TextContent.setProperty? level text key value
  | .button, held, key, value => titled? level held key value
  | .imageView, held, key, value => Setting.put? (imageTable images) held key value

theorem settle?_button (titleId : Identifier) (title : TextContent) :
    (button titleId title).settle? level images key value =
      (titled? level (titleId, title) key value).map (make .button) := by
  show (if key = "title" then _ else none) = _
  unfold titled?
  split
  · cases value.object? <;> rfl
  · rfl

theorem settle?_imageView (image highlighted : Option ImageContent) :
    (imageView image highlighted).settle? level images key value =
      (Setting.put? (imageTable images) (image, highlighted) key value).map (make .imageView) := by
  unfold settle? imageRequest? imageTable ImageSlot.ofKey?
  simp only [Setting.put?]
  by_cases himage : key = "image"
  · simp only [if_pos himage]
    cases imageSource? value with
    | none => rfl
    | some src =>
      simp only [Option.bind_some]
      cases images.load src <;> rfl
  by_cases hhighlighted : key = "highlightedImage"
  · simp only [if_neg himage, if_pos hhighlighted]
    cases imageSource? value with
    | none => rfl
    | some src =>
      simp only [Option.bind_some]
      cases images.load src <;> rfl
  · simp only [if_neg himage, if_neg hhighlighted]
    rfl

theorem settle?_make (type : NodeType) (held : Held type) (key : String) (value : Json) :
    (make type held).settle? level images key value =
      (part? level images type held key value).map (make type) := by
  cases type with
  | view => rfl
  | label => rfl
  | button => exact settle?_button held.1 held.2
  | imageView => exact settle?_imageView held.1 held.2

/-- The title of a button is set as a whole. -/
theorem keywise_titled? (level : Nat) : Keywise (fun _ => ()) (titled? level) where
  view_eq _ _ _ _ _ := rfl
  fits s t key value _ := by
    unfold titled?
    split
    · rw [Option.isSome_map, Option.isSome_map]
    · rfl
  settled s t key value hvalue hs := by
    unfold titled? at hs ⊢
    split at hs
    · rename_i hkey
      obtain ⟨fields, hfields, rfl⟩ := Option.map_eq_some_iff.1 hs
      rw [Json.eq_object_of_object? hfields] at hvalue
      rw [if_pos hkey, hfields, Option.map_some, TextContent.setTitle_setTitle hvalue]
    · cases hs
  kept s t key key' value value' hne hs hs' := by
    -- there is no other key
    unfold titled? at hs hs'
    split at hs
    · rename_i hkey
      rw [if_neg fun hkey' => hne (hkey.trans hkey'.symm)] at hs'
      cases hs'
    · cases hs

theorem independent_imageTable (images : ImageLoader) :
    Setting.Independent (imageTable images) where
  put_put := by
    unfold imageTable
    simp
  put_comm := by
    unfold imageTable
    simp

/-- **The properties of every kind of node are set key by key.** -/
theorem keywise (level : Nat) (images : ImageLoader) : Keywise type (settle? level images) := by
  have hpart : ∀ type, Keywise (fun _ => ()) (part? level images type) := by
    intro type
    cases type with
    | view => exact ⟨fun _ _ _ _ _ => rfl, fun _ _ _ _ _ => rfl, fun _ _ _ _ _ => nofun,
        fun _ _ _ _ _ _ _ => nofun⟩
    | label => exact TextContent.keywise_setProperty? level
    | button => exact keywise_titled? level
    | imageView => exact (independent_imageTable images).keywise
  refine Keywise.forms hpart ?_ exists_make ?_ settle?_make
  · intro type held
    cases type <;> rfl
  · intro type held held' hsame
    cases type with
    | view => rfl
    | label =>
      cases hsame
      rfl
    | button =>
      obtain ⟨_, _⟩ := held
      obtain ⟨_, _⟩ := held'
      cases hsame
      rfl
    | imageView =>
      obtain ⟨_, _⟩ := held
      obtain ⟨_, _⟩ := held'
      cases hsame
      rfl

end NodeKind

end LiveLayout
