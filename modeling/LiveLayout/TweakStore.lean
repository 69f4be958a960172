import LiveLayout.Engine.Session
/-!
# Stored change sequences

Change sequences kept under names, to be applied again on demand.
-/

namespace LiveLayout

/-- Change sequences by name, in ascending order of their names. -/
structure TweakStore where
  tweaks : List (String × List Json)

namespace TweakStore

/-- Nothing is stored. -/
def empty : TweakStore := ⟨[]⟩

/-- A sequence stored under a name, in place of any earlier one. -/
def add (store : TweakStore) (name : String) (changes : List Json) : TweakStore :=
  ⟨Json.insertMember name changes store.tweaks⟩

/-- The sequence under a name. -/
def get? (store : TweakStore) (name : String) : Option (List Json) :=
  store.tweaks.lookup name

/-- How many sequences are stored. -/
def size (store : TweakStore) : Nat := store.tweaks.length

/-- The store an object of arrays describes. -/
def ofJson? (value : Json) : Option TweakStore :=
  value.object?.bind fun members =>
    (members.mapM fun (m : String × Json) => m.2.array?.map (m.1, ·)).map fun tweaks => ⟨tweaks⟩

/-- A store as an object of arrays. -/
def toJson (store : TweakStore) : Json :=
  .object (store.tweaks.map fun t => (t.1, .array t.2))

theorem get?_add (store : TweakStore) (name other : String) (changes : List Json) :
    (store.add name changes).get? other =
      if other = name then some changes else store.get? other :=
  Json.lookup_insertMember name other changes store.tweaks

end TweakStore

/-- A stored sequence applied, if there is one of that name. -/
def Session.applyStored? (session : Session) (store : TweakStore) (name : String) :
    Option (Session × Report) :=
  (store.get? name).map session.tweak

end LiveLayout
