import D20Tempest.Characters.Document

namespace D20Tempest.Characters
open Foundation Components

/-! ## What is taken from a document -/

/-- What `Character::Load` takes over from a document, up to where it throws. -/
structure Reading where
  characterID : Option UInt64
  name : Option Bytes
  abilities : List (Bytes × Ability)

def readAbilities (scripts : ScriptStore) : List (Bytes × Json) → List (Bytes × Ability)
  | [] => []
  | entry :: rest => match Character.loadedAbility scripts entry with
      | .error _ => []
      | .ok a => (entry.1, a) :: readAbilities scripts rest

def loads (scripts : ScriptStore) (entry : Bytes × Json) : Bool := (Character.loadedAbility scripts entry).isOk

theorem readAbilities_keys (scripts : ScriptStore) (entries : List (Bytes × Json)) :
    (readAbilities scripts entries).map Prod.fst = (entries.takeWhile (loads scripts)).map Prod.fst := by
  induction entries with
  | nil => rfl
  | cons entry rest ih =>
      rw [readAbilities, List.takeWhile_cons, loads]
      cases Character.loadedAbility scripts entry with
      | error e => rfl
      | ok a => exact congrArg (entry.1 :: ·) ih

def reading (scripts : ScriptStore) (root : Json) : Reading :=
  match root.index (str "id") >>= Json.getUInt64 with
  | .error _ => ⟨none, none, []⟩
  | .ok characterID => match root.index (str "name") >>= Json.getString with
      | .error _ => ⟨some characterID, none, []⟩
      | .ok name => match root.index (str "abilities") with
          | .error _ => ⟨some characterID, some name, []⟩
          | .ok abilities => ⟨some characterID, some name, readAbilities scripts abilities.items⟩

namespace Character
variable {scripts : ScriptStore} {root : Json} {c : Character}

def taking (c : Character) (r : Reading) : Character :=
  withAbilities { c with
    characterID := r.characterID.getD c.characterID
    name := r.name.getD c.name } r.abilities

theorem find_taking (c : Character) (r : Reading) (key : Bytes) :
    (c.taking r).abilities.find key = (c.abilities.find key).or ((r.abilities.find? (·.1 = key)).map Prod.snd) := by
  rw [taking, withAbilities, OrderedMap.find_foldl_insert]
  congr!

theorem loadAbilities_finalState (scripts : ScriptStore) (entries : List (Bytes × Json)) (c : Character) :
    finalState (loadAbilities scripts entries c) = c.withAbilities (readAbilities scripts entries) := by
  induction entries generalizing c with
  | nil => rfl
  | cons entry rest ih =>
      rw [loadAbilities, readAbilities]
      cases loadedAbility scripts entry with
      | error e => rfl
      | ok a =>
          rw [evaluate_ok, pure_bind, bind_of_ok (modify_apply ..), ih]
          rfl

theorem index_id_of_guard (guard : ((root.isDiscarded && (!root.contains (str "name") || !root.contains (str "abilities")))
    || !root.contains (str "id")) = true) : ∃ e, (root.index (str "id") >>= Json.getUInt64) = .error e := by
  cases read : root.index (str "id") >>= Json.getUInt64 with
  | error e => exact ⟨e, rfl⟩
  | ok characterID =>
      have identified : root.contains (str "id") = true := Json.contains_of_read read
      simp [identified, Json.isDiscarded_of_contains identified] at guard

/-- A load that throws keeps what it has read. -/
theorem load_finalState (scripts : ScriptStore) (root : Json) (c : Character) :
    finalState (load scripts root c) = c.taking (reading scripts root) := by
  unfold load
  split
  · rename_i guard
    obtain ⟨e, unread⟩ := index_id_of_guard guard
    rw [reading, unread]
    rfl
  · dsimp only
    rw [reading]
    cases root.index (str "id") >>= Json.getUInt64 with
    | error e => rfl
    | ok characterID =>
        rw [evaluate_ok, pure_bind, bind_of_ok (modify_apply ..)]
        cases root.index (str "name") >>= Json.getString with
        | error e => rfl
        | ok name =>
            rw [evaluate_ok, pure_bind, bind_of_ok (modify_apply ..)]
            cases root.index (str "abilities") with
            | error e => rfl
            | ok abilities =>
                rw [evaluate_ok, pure_bind, loadAbilities_finalState]
                rfl

end Character
end D20Tempest.Characters
