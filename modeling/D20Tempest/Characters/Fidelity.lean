import D20Tempest.Characters.Replacement
import D20Tempest.Foundation.Numeric

namespace D20Tempest.Characters
open Foundation Components

/-! ## What a document says, and what is saved of it -/

/-- The entry under a key of the abilities; of two entries with one key it is the first. -/
def abilityEntry (root : Json) (key : Bytes) : Option Json :=
  (root.find (str "abilities")).bind fun abilities => Assoc.find key abilities.items

def SameNumber (j k : Option Json) : Prop := ∃ x, j.bind Json.numeric = some x ∧ k.bind Json.numeric = some x

def WholeAt (lo hi : Int) (j : Option Json) : Prop := ∃ value, j = some value ∧ value.Whole lo hi

section Entries
variable {scripts : ScriptStore} {root : Json} {key : Bytes}

theorem loadedAbilities_find {entries : List (Bytes × Json)} {abilities : List (Bytes × Ability)}
    (read : loadedAbilities scripts entries = .ok abilities) (key : Bytes) :
    ((abilities.find? (·.1 = key)).map Prod.snd).map Except.ok =
      (Assoc.find key entries).map fun value => Character.loadedAbility scripts (key, value) := by
  induction entries generalizing abilities with
  | nil =>
      cases read
      rfl
  | cons entry rest ih =>
      obtain ⟨k, value⟩ := entry
      rw [loadedAbilities] at read
      cases head : Character.loadedAbility scripts (k, value) with
      | error e => simp [head] at read
      | ok a =>
          cases tail : loadedAbilities scripts rest with
          | error e => simp [head, tail] at read
          | ok others =>
              simp only [head, tail, Except.ok.injEq] at read
              subst read
              by_cases here : k = key
              · subst here
                simp [Assoc.find, head]
              · simp [Assoc.find, here, ih tail]

theorem readAbilities_of_ok {entries : List (Bytes × Json)} {abilities : List (Bytes × Ability)}
    (read : loadedAbilities scripts entries = .ok abilities) : readAbilities scripts entries = abilities := by
  induction entries generalizing abilities with
  | nil =>
      cases read
      rfl
  | cons entry rest ih =>
      rw [loadedAbilities] at read
      rw [readAbilities]
      cases head : Character.loadedAbility scripts entry with
      | error e => simp [head] at read
      | ok a =>
          cases tail : loadedAbilities scripts rest with
          | error e => simp [head, tail] at read
          | ok others =>
              simp only [head, tail, Except.ok.injEq] at read
              subst read
              rw [ih tail]

theorem described_of_describes {characterID : UInt64} {name : Bytes} {abilities : List (Bytes × Ability)}
    (describes : Describes scripts root characterID name abilities) (key : Bytes) :
    (described scripts root key).map Except.ok =
      (abilityEntry root key).map fun value => Character.loadedAbility scripts (key, value) := by
  obtain ⟨j, held, read⟩ := describes.reads_abilities
  rw [abilityEntry, Json.find_of_index held, Option.bind_some, ← loadedAbilities_find read, described, reading,
    describes.reads_id, describes.reads_name, held]
  simp only [readAbilities_of_ok read]

end Entries

section Saved
variable {scripts : ScriptStore} {root doc : Json} {c c' : Character}

theorem abilityEntry_document (c : Character) (key : Bytes) :
    abilityEntry c.document key = (c.abilities.find key).map fun a => a.document (savedModifier a) :=
  Character.find_document c key

theorem sameNumber_of_read {α : Type} {j saved : Json} {key : Bytes} {f : Json → Except Fault α} {v : α} {x : Rat}
    {lo hi : Int} (read : (j.index key >>= f) = .ok v) (known : saved.numeric = some x)
    (exact : ∀ value, f value = .ok v → (value.numeric = some x ↔ value.Whole lo hi)) :
    SameNumber (some saved) (j.find key) ↔ WholeAt lo hi (j.find key) := by
  cases held : j.index key with
  | error e =>
      rw [held] at read
      cases read
  | ok value =>
      rw [held] at read
      simp only [Json.find_of_index held, SameNumber, WholeAt, Option.bind_some, known, Option.some.injEq,
        exists_eq_left', ← exact value read]

/-- What a character without abilities accepts it keeps by name and by ability; a number stays the same exactly
where it is whole and in the range of the member it is read into. -/
theorem load_faithful_iff (bare : c.abilities = .empty) (run : Character.load scripts root c = .ok () c')
    (saves : c'.Saves doc) :
    doc.find (str "name") = root.find (str "name") ∧
      (∀ key, (abilityEntry doc key).isSome ↔ (abilityEntry root key).isSome) ∧
      (SameNumber (doc.find (str "id")) (root.find (str "id")) ↔ WholeAt 0 (2 ^ 64) (root.find (str "id"))) ∧
      ∀ key saved value, abilityEntry doc key = some saved → abilityEntry root key = some value →
        ∀ member ∈ [str "value", str "temp"],
          (SameNumber (saved.find member) (value.find member) ↔ WholeAt (-2 ^ 31) (2 ^ 31) (value.find member)) := by
  obtain ⟨able, rfl⟩ := Character.saves_iff.mp saves
  obtain ⟨characterID, n, abilities, describes, eq⟩ := Character.load_ok_iff.mp run
  have id : c'.characterID = characterID := by
    rw [eq]
    rfl
  have name : c'.name = n := by
    rw [eq]
    rfl
  have held : ∀ key, c'.abilities.find key = described scripts root key := by
    intro key
    rw [(Character.loaded run).2.2, bare, OrderedMap.find_empty, Option.none_or]
  refine ⟨?_, ?_, ?_, ?_⟩
  · have read := describes.reads_name
    cases there : root.index (str "name") with
    | error e =>
        rw [there] at read
        cases read
    | ok value =>
        rw [there] at read
        rw [Json.find_of_index there, Json.getString_ok.mp read, ← name]
        rfl
  · intro key
    have entry := congrArg Option.isSome (described_of_describes describes key)
    rw [Option.isSome_map, Option.isSome_map] at entry
    rw [abilityEntry_document, Option.isSome_map, held, entry]
  · have saved : c'.document.find (str "id") = some (.unsigned characterID) := by
      rw [← id]
      rfl
    rw [saved]
    exact sameNumber_of_read describes.reads_id rfl fun value => Json.getUInt64_exact_iff
  · intro key saved value savedAs entered member isMember
    obtain ⟨a, found, rfl⟩ := Option.map_eq_some_iff.mp ((abilityEntry_document c' key).symm.trans savedAs)
    have entry := described_of_describes describes key
    rw [← held, found, entered] at entry
    obtain ⟨script, -, doc, rfl, rfl⟩ := loadedAbility_ok_iff.mp (Option.some.inj entry).symm
    simp only [List.mem_cons, List.not_mem_nil, or_false] at isMember
    rcases isMember with rfl | rfl
    · exact sameNumber_of_read doc.reads_value (Json.numeric_toInt64 _) fun value => Json.getInt_exact_iff
    · exact sameNumber_of_read doc.reads_temp (Json.numeric_toInt64 _) fun value => Json.getInt_exact_iff

end Saved

theorem load_faithful_stronger :
    let c := finalState (Character.load shippedScripts strongerDocument (.make 3 [] none))
    c.document.find (str "name") = strongerDocument.find (str "name") ∧
      SameNumber (c.document.find (str "id")) (strongerDocument.find (str "id")) := by
  intro c
  obtain ⟨name, -, id, -⟩ := @load_faithful_iff shippedScripts strongerDocument c.document (.make 3 [] none) c
    rfl rfl ⟨_, rfl⟩
  exact ⟨name, id.mpr ⟨.unsigned 0, rfl, 0, by decide, by decide, by decide⟩⟩

def outOfRange : Json := Json.ofFields [(str "name", .string (str "Aldor")), (str "id", .integer (-1)),
  (str "abilities", .object [(str "strength",
    Json.ofFields [(str "value", .unsigned 4294967306), (str "temp", .unsigned 2147483648)])])]

/-- The id of -1 is saved as 18446744073709551615, the strength of 4294967306 as 10 and its bonus of 2147483648
as -2147483648. -/
theorem load_wraps : ¬ ∀ scripts root c c' doc, c.abilities = .empty → Character.load scripts root c = .ok () c' →
    c'.Saves doc → doc.find (str "name") = root.find (str "name") ∧
      (∀ key, (abilityEntry doc key).isSome ↔ (abilityEntry root key).isSome) ∧
      SameNumber (doc.find (str "id")) (root.find (str "id")) ∧
      ∀ key saved value, abilityEntry doc key = some saved → abilityEntry root key = some value →
        ∀ member ∈ [str "value", str "temp"], SameNumber (saved.find member) (value.find member) := by
  intro faithful
  obtain ⟨-, -, ⟨x, saved, read⟩, -⟩ := faithful shippedScripts outOfRange (.make 3 [] none)
    (finalState (Character.load shippedScripts outOfRange (.make 3 [] none))) _ rfl rfl ⟨_, rfl⟩
  have same := saved.trans read.symm
  revert same
  decide

end D20Tempest.Characters
