import D20Tempest.Characters.Reading

namespace D20Tempest.Characters
open Foundation Components

/-! ## Loads that throw -/

def Character.Saves (c : Character) (doc : Json) : Prop := ∃ d, Character.save c = .ok doc d

/-- Where `Load` throws, the character is saved as before. -/
def LoadsWholly (scripts : ScriptStore) (root : Json) (c : Character) : Prop :=
  ∀ e c', Character.load scripts root c = .error e c' → ∀ doc, c'.Saves doc ↔ c.Saves doc

/-- What the document holds, as far as it can be read, the character has already. -/
def Repeats (scripts : ScriptStore) (root : Json) (c : Character) : Prop :=
  ∀ characterID, (root.index (str "id") >>= Json.getUInt64) = .ok characterID → characterID = c.characterID ∧
    ∀ name, (root.index (str "name") >>= Json.getString) = .ok name → name = c.name ∧
      ∀ abilities, root.index (str "abilities") = .ok abilities →
        ∀ entry ∈ abilities.items.takeWhile (loads scripts), (c.abilities.find entry.1).isSome

@[mk_iff]
structure Has (c : Character) (r : Reading) : Prop where
  characterID : ∀ characterID, r.characterID = some characterID → characterID = c.characterID
  name : ∀ name, r.name = some name → name = c.name
  abilities : ∀ key ∈ r.abilities.map Prod.fst, (c.abilities.find key).isSome

theorem repeats_iff {scripts : ScriptStore} {root : Json} {c : Character} :
    Repeats scripts root c ↔ Has c (reading scripts root) := by
  rw [Repeats, reading, has_iff]
  cases root.index (str "id") >>= Json.getUInt64 with
  | error e => simp
  | ok characterID =>
      cases root.index (str "name") >>= Json.getString with
      | error e => simp
      | ok name =>
          cases root.index (str "abilities") with
          | error e => simp
          | ok abilities =>
              simp only [Except.ok.injEq, forall_eq', Option.some.injEq, readAbilities_keys, List.forall_mem_map]

namespace Character
variable {scripts : ScriptStore} {root : Json} {c : Character} {r : Reading}

theorem documentOf_inj {characterID characterID' : UInt64} {name name' : Bytes} {abilities abilities' : List (Bytes × Json)}
    (same : documentOf characterID name abilities = documentOf characterID' name' abilities') :
    characterID = characterID' ∧ name = name' ∧ abilities = abilities' := by
  have id := congrArg (Json.find (str "id")) same
  have named := congrArg (Json.find (str "name")) same
  have held := congrArg (Json.find (str "abilities")) same
  exact ⟨Json.unsigned.inj (Option.some.inj id), Json.string.inj (Option.some.inj named),
    Json.object.inj (Option.some.inj held)⟩

theorem find_isSome_iff (key : Bytes) : (c.abilities.find key).isSome ↔ key ∈ c.abilities.entries.map Prod.fst := by
  simp only [Option.isSome_iff_exists, List.mem_map, Prod.exists, exists_and_right, exists_eq_right,
    OrderedMap.mem_entries]

theorem keys_of_document {d : Character} (same : d.document = c.document) (key : Bytes) :
    (d.abilities.find key).isSome ↔ (c.abilities.find key).isSome := by
  have keys := congrArg (List.map Prod.fst) (documentOf_inj same).2.2
  rw [List.map_map, List.map_map] at keys
  rw [find_isSome_iff, find_isSome_iff]
  exact iff_of_eq (congrArg (key ∈ ·) keys)

theorem taking_of_has (has : Has c r) : c.taking r = c := by
  have id : r.characterID.getD c.characterID = c.characterID := by
    cases read : r.characterID with
    | none => rfl
    | some characterID => exact has.characterID characterID read
  have named : r.name.getD c.name = c.name := by
    cases read : r.name with
    | none => rfl
    | some name => exact has.name name read
  have held : (c.taking r).abilities = c.abilities := by
    apply OrderedMap.ext_find
    intro key
    rw [find_taking]
    cases held : c.abilities.find key with
    | some a => rfl
    | none =>
        rw [Option.none_or, Option.map_eq_none_iff, List.find?_eq_none]
        intro e mem here
        have present := has.abilities e.1 (List.mem_map_of_mem mem)
        rw [of_decide_eq_true here, held] at present
        cases present
  have parts : c.taking r = { c with
      characterID := r.characterID.getD c.characterID
      name := r.name.getD c.name
      abilities := (c.taking r).abilities } := rfl
  rw [parts, id, named, held]

theorem saves_iff {doc : Json} : c.Saves doc ↔ c.Savable ∧ doc = c.document := by
  simp only [Saves, save_ok_iff, exists_and_left, exists_eq, and_true]

theorem savable_of_taking (able : (c.taking r).Savable) : c.Savable := by
  intro key a found
  exact able key a (by rw [find_taking, found, Option.some_or])

theorem same_saves_iff (able : c.Savable) : (∀ doc, (c.taking r).Saves doc ↔ c.Saves doc) ↔ Has c r := by
  constructor
  · intro same
    obtain ⟨-, eq⟩ := saves_iff.mp ((same c.document).mpr (saves_iff.mpr ⟨able, rfl⟩))
    obtain ⟨id, name, -⟩ := documentOf_inj eq
    refine ⟨?_, ?_, ?_⟩
    · intro characterID read
      rw [id, taking, withAbilities, read, Option.getD_some]
    · intro n read
      rw [name, taking, withAbilities, read, Option.getD_some]
    · intro key mem
      obtain ⟨e, read, rfl⟩ := List.mem_map.mp mem
      rw [keys_of_document eq, find_taking, Option.isSome_or, Bool.or_eq_true, Option.isSome_map, List.find?_isSome]
      exact .inr ⟨e, read, decide_eq_true rfl⟩
  · intro has doc
    rw [taking_of_has has]

end Character

theorem loadsWholly_iff (scripts : ScriptStore) (root : Json) (c : Character) :
    LoadsWholly scripts root c ↔ Loadable scripts root ∨ ¬ c.Savable ∨ Repeats scripts root c := by
  have loaded := Character.load_finalState scripts root c
  constructor
  · intro wholly
    by_cases loadable : Loadable scripts root
    · exact .inl loadable
    by_cases able : c.Savable
    · refine .inr (.inr (repeats_iff.mpr ((Character.same_saves_iff able).mp ?_)))
      cases run : Character.load scripts root c with
      | ok u d => exact absurd ((Character.loadable_iff c).mpr ⟨d, run⟩) loadable
      | error e d =>
          rw [← loaded, run, finalState_error]
          exact wholly e d run
    · exact .inr (.inl able)
  · intro whole e d run
    rw [run, finalState_error] at loaded
    subst loaded
    rcases whole with loadable | unable | repeats
    · obtain ⟨d, returns⟩ := (Character.loadable_iff c).mp loadable
      cases returns.symm.trans run
    · intro doc
      exact iff_of_false (fun saves => unable (Character.savable_of_taking (Character.saves_iff.mp saves).1))
        fun saves => unable (Character.saves_iff.mp saves).1
    · intro doc
      rw [Character.taking_of_has (repeats_iff.mp repeats)]

end D20Tempest.Characters
