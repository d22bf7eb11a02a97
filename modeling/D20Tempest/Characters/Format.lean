import D20Tempest.Characters.Reading

namespace D20Tempest.Characters
open Foundation Components

/-! ## The format of documents -/

/-- The members that are read are there, in the document and in each entry of `abilities`. -/
structure WellFormed (root : Json) : Prop where
  name : root.contains (str "name") = true
  id : root.contains (str "id") = true
  abilities : root.contains (str "abilities") = true
  entries : ∀ abilities, root.find (str "abilities") = some abilities → ∀ entry ∈ abilities.items,
    entry.2.contains (str "value") = true ∧ entry.2.contains (str "temp") = true

/-- `Load` throws `std::invalid_argument` exactly where the document is not well formed, and asks for no
member that is not there. -/
structure FormatExact (scripts : ScriptStore) (root : Json) (c : Character) : Prop where
  rejects : (∃ c', Character.load scripts root c = .error .invalidArgument c') ↔ ¬ WellFormed root
  present : ∀ c', Character.load scripts root c ≠ .error .absentKey c'

/-- Everything is read up to an entry of `abilities` that is a discarded value. -/
def EndsDiscarded (scripts : ScriptStore) (root : Json) : Prop :=
  (root.index (str "id") >>= Json.getUInt64).isOk ∧ (root.index (str "name") >>= Json.getString).isOk ∧
    ∃ abilities entry, root.index (str "abilities") = .ok abilities ∧
      abilities.items.find? (fun e => !loads scripts e) = some entry ∧
      (scripts (scriptPath entry.1)).isSome ∧ entry.2.isDiscarded

/-! ## How a load fails -/

/-- A fault of reading a member: of the conversion, or of the access to a member that is not there. -/
def ReadFault (j : Json) (key : Bytes) (e : Fault) : Prop :=
  e = .typeError ∨ e = .unrepresentable ∨ e = .absentKey ∧ j.contains key = false

theorem index_fault {j : Json} {key : Bytes} {e : Fault} (fails : j.index key = .error e) : ReadFault j key e := by
  cases j with
  | object members =>
      simp only [Json.index] at fails
      cases found : Assoc.find key members with
      | some value => simp [found] at fails
      | none =>
          rw [found] at fails
          cases fails
          exact .inr (.inr ⟨rfl, by simp [Json.contains, Json.find, found]⟩)
  | _ =>
      cases fails
      exact .inl rfl

theorem read_fault {α : Type} {j : Json} {key : Bytes} {f : Json → Except Fault α} {e : Fault}
    (converts : ∀ value, f value = .error e → e = .typeError ∨ e = .unrepresentable)
    (fails : (j.index key >>= f) = .error e) : ReadFault j key e := by
  cases read : j.index key with
  | error e' =>
      rw [read] at fails
      cases fails
      exact index_fault read
  | ok value =>
      rw [read] at fails
      exact (converts value fails).imp id .inl

theorem getUInt64_fault {e : Fault} (j : Json) (fails : j.getUInt64 = .error e) : e = .typeError ∨ e = .unrepresentable := by
  unfold Json.getUInt64 at fails
  split at fails <;> (try split at fails) <;> cases fails <;> simp

theorem getInt_fault {e : Fault} (j : Json) (fails : j.getInt = .error e) : e = .typeError ∨ e = .unrepresentable := by
  unfold Json.getInt at fails
  split at fails <;> (try split at fails) <;> cases fails <;> simp

theorem getString_fault {e : Fault} (j : Json) (fails : j.getString = .error e) : e = .typeError ∨ e = .unrepresentable :=
  .inl (Json.getString_error fails)

def EntryFault (j : Json) (e : Fault) : Prop :=
  j.isDiscarded = true ∧ e = .invalidArgument ∨
    j.isDiscarded = false ∧ (ReadFault j (str "value") e ∨ ReadFault j (str "temp") e)

theorem ability_load_fault {j : Json} {a a' : Ability} {e : Fault} (fails : Components.Ability.load j a = .error e a') :
    EntryFault j e := by
  cases discarded : j.isDiscarded with
  | true =>
      refine .inl ⟨discarded, ?_⟩
      have same : j = .discarded := by
        cases j <;> first | rfl | cases discarded
      subst same
      cases fails
      rfl
  | false =>
      refine .inr ⟨discarded, ?_⟩
      simp only [Components.Ability.load, discarded, Bool.false_and, Bool.false_eq_true, ↓reduceIte] at fails
      cases value : (j.index (str "value") >>= Json.getInt) with
      | error e' =>
          simp only [value, evaluate_error, throw_bind, throw_apply, EStateM.Result.error.injEq] at fails
          obtain ⟨rfl, -⟩ := fails
          exact .inl (read_fault getInt_fault value)
      | ok v =>
          cases temp : (j.index (str "temp") >>= Json.getInt) with
          | error e' =>
              simp only [value, temp, evaluate_ok, evaluate_error, bind_apply, modify_apply, pure_apply, throw_apply] at fails
              cases fails
              exact .inr (read_fault getInt_fault temp)
          | ok t => simp [value, temp, bind_apply] at fails

theorem loadedAbility_fault {scripts : ScriptStore} {entry : Bytes × Json} {e : Fault}
    (fails : Character.loadedAbility scripts entry = .error e) :
    e = .scriptError ∨ (scripts (scriptPath entry.1)).isSome ∧ EntryFault entry.2 e := by
  unfold Character.loadedAbility at fails
  cases script : scripts (scriptPath entry.1) with
  | none =>
      rw [script] at fails
      cases fails
      exact .inl rfl
  | some s =>
      cases loaded : Components.Ability.load entry.2 (Components.Ability.make s 0) with
      | ok u a => simp [script, loaded] at fails
      | error e' a =>
          simp only [script, loaded, Except.error.injEq] at fails
          subst fails
          exact .inr ⟨rfl, ability_load_fault loaded⟩

namespace Character
variable {scripts : ScriptStore} {root : Json} {c : Character}

theorem loadAbilities_error_iff {e : Fault} (entries : List (Bytes × Json)) (c : Character) :
    (∃ c', loadAbilities scripts entries c = .error e c') ↔
      ∃ entry, entries.find? (fun e => !loads scripts e) = some entry ∧ loadedAbility scripts entry = .error e := by
  induction entries generalizing c with
  | nil => simp [loadAbilities]
  | cons entry rest ih =>
      rw [loadAbilities]
      cases loaded : loadedAbility scripts entry with
      | error e' =>
          have fails : loads scripts entry = false := by rw [loads, loaded]; rfl
          simp [fails, loaded, eq_comm]
      | ok a =>
          have passes : loads scripts entry = true := by rw [loads, loaded]; rfl
          rw [evaluate_ok, pure_bind, bind_of_ok (modify_apply ..), ih, List.find?_cons, passes]
          rfl

theorem load_of_unidentified (missing : root.contains (str "id") = false) :
    load scripts root c = .error .invalidArgument c := by
  simp [load, missing]

theorem load_error_iff {e : Fault} (identified : root.contains (str "id") = true) :
    (∃ c', load scripts root c = .error e c') ↔
      (root.index (str "id") >>= Json.getUInt64) = .error e ∨
      (root.index (str "id") >>= Json.getUInt64).isOk ∧ ((root.index (str "name") >>= Json.getString) = .error e ∨
      (root.index (str "name") >>= Json.getString).isOk ∧ (root.index (str "abilities") = .error e ∨
      ∃ abilities entry, root.index (str "abilities") = .ok abilities ∧
        abilities.items.find? (fun e => !loads scripts e) = some entry ∧ loadedAbility scripts entry = .error e)) := by
  simp only [load, identified, Json.isDiscarded_of_contains identified, Bool.false_and, Bool.not_true, Bool.or_self, Bool.false_eq_true, ↓reduceIte]
  cases root.index (str "id") >>= Json.getUInt64 with
  | error e' => simp [Except.isOk, Except.toBool]
  | ok characterID =>
      simp only [evaluate_ok, pure_bind]
      rw [bind_of_ok (modify_apply ..)]
      cases root.index (str "name") >>= Json.getString with
      | error e' => simp [Except.isOk, Except.toBool]
      | ok name =>
          simp only [evaluate_ok, pure_bind]
          rw [bind_of_ok (modify_apply ..)]
          cases root.index (str "abilities") with
          | error e' => simp [Except.isOk, Except.toBool]
          | ok abilities =>
              simp only [evaluate_ok, pure_bind, loadAbilities_error_iff]
              simp [Except.isOk, Except.toBool]

theorem load_fault {e : Fault} {c' : Character} (identified : root.contains (str "id") = true)
    (fails : load scripts root c = .error e c') :
    ReadFault root (str "id") e ∨ ReadFault root (str "name") e ∨ ReadFault root (str "abilities") e ∨ e = .scriptError ∨
      (root.index (str "id") >>= Json.getUInt64).isOk ∧ (root.index (str "name") >>= Json.getString).isOk ∧
      ∃ abilities entry, root.index (str "abilities") = .ok abilities ∧
        abilities.items.find? (fun e => !loads scripts e) = some entry ∧ (scripts (scriptPath entry.1)).isSome ∧
        EntryFault entry.2 e := by
  rcases (load_error_iff identified).mp ⟨c', fails⟩ with id | ⟨id, name | ⟨name, abilities | ⟨j, entry, held, first, failed⟩⟩⟩
  · exact .inl (read_fault getUInt64_fault id)
  · exact .inr (.inl (read_fault getString_fault name))
  · exact .inr (.inr (.inl (index_fault abilities)))
  · rcases loadedAbility_fault failed with script | ⟨script, entryFault⟩
    · exact .inr (.inr (.inr (.inl script)))
    · exact .inr (.inr (.inr (.inr ⟨id, name, j, entry, held, first, script, entryFault⟩)))

end Character

theorem ReadFault.ne_invalidArgument {j : Json} {key : Bytes} : ¬ ReadFault j key .invalidArgument := by
  simp [ReadFault]

theorem ReadFault.absentKey {j : Json} {key : Bytes} (fault : ReadFault j key .absentKey) : j.contains key = false := by
  simpa [ReadFault] using fault

section Format
variable {scripts : ScriptStore} {root : Json}

theorem endsDiscarded_of_rejected {c c' : Character} (identified : root.contains (str "id") = true)
    (fails : Character.load scripts root c = .error .invalidArgument c') : EndsDiscarded scripts root := by
  rcases Character.load_fault identified fails with id | name | abilities | script | ⟨id, name, j, entry, held, first, script, fault⟩
  · exact absurd id ReadFault.ne_invalidArgument
  · exact absurd name ReadFault.ne_invalidArgument
  · exact absurd abilities ReadFault.ne_invalidArgument
  · cases script
  · rcases fault with ⟨discarded, -⟩ | ⟨-, value | temp⟩
    · exact ⟨id, name, j, entry, held, first, script, discarded⟩
    · exact absurd value ReadFault.ne_invalidArgument
    · exact absurd temp ReadFault.ne_invalidArgument

theorem load_of_endsDiscarded (c : Character) (ends : EndsDiscarded scripts root) :
    ∃ c', Character.load scripts root c = .error .invalidArgument c' := by
  obtain ⟨id, name, abilities, entry, held, first, script, discarded⟩ := ends
  have identified : root.contains (str "id") = true := by
    cases read : root.index (str "id") >>= Json.getUInt64 with
    | error e =>
        rw [read] at id
        cases id
    | ok characterID => exact Json.contains_of_read read
  refine (Character.load_error_iff identified).mpr (.inr ⟨id, .inr ⟨name, .inr ⟨abilities, entry, held, first, ?_⟩⟩⟩)
  obtain ⟨s, found⟩ := Option.isSome_iff_exists.mp script
  have none : ∀ key, entry.2.contains key = false := by
    intro key
    cases there : entry.2.contains key with
    | false => rfl
    | true => cases discarded.symm.trans (Json.isDiscarded_of_contains there)
  simp [Character.loadedAbility, found, Components.Ability.load, discarded, none]

theorem not_wellFormed_of_endsDiscarded (ends : EndsDiscarded scripts root) : ¬ WellFormed root := by
  obtain ⟨-, -, abilities, entry, held, first, -, discarded⟩ := ends
  intro formed
  have there := (formed.entries abilities (Json.find_of_index held) entry (List.mem_of_find?_eq_some first)).1
  cases discarded.symm.trans (Json.isDiscarded_of_contains there)

theorem load_of_wellFormed {c c' : Character} {e : Fault} (formed : WellFormed root)
    (fails : Character.load scripts root c = .error e c') : e ≠ .invalidArgument ∧ e ≠ .absentKey := by
  have reads : ∀ j key, j.contains key = true → ReadFault j key e → e ≠ .invalidArgument ∧ e ≠ .absentKey := by
    rintro j key there fault
    constructor
    · rintro rfl
      exact fault.ne_invalidArgument
    · rintro rfl
      cases there.symm.trans fault.absentKey
  rcases Character.load_fault formed.id fails with id | name | abilities | script | ⟨-, -, j, entry, held, first, -, fault⟩
  · exact reads _ _ formed.id id
  · exact reads _ _ formed.name name
  · exact reads _ _ formed.abilities abilities
  · simp [script]
  · obtain ⟨value, temp⟩ := formed.entries j (Json.find_of_index held) entry (List.mem_of_find?_eq_some first)
    rcases fault with ⟨discarded, -⟩ | ⟨-, fault | fault⟩
    · cases discarded.symm.trans (Json.isDiscarded_of_contains value)
    · exact reads _ _ value fault
    · exact reads _ _ temp fault

/-- The format check is exact where there is no id, where nothing is missing, and where the first entry that
fails is a discarded value, which no parsed text holds. -/
theorem format_exact_iff (scripts : ScriptStore) (root : Json) (c : Character) :
    FormatExact scripts root c ↔
      root.contains (str "id") = false ∨ WellFormed root ∨ EndsDiscarded scripts root := by
  constructor
  · intro exactly
    cases identified : root.contains (str "id") with
    | false => exact .inl rfl
    | true =>
        by_cases formed : WellFormed root
        · exact .inr (.inl formed)
        · obtain ⟨c', fails⟩ := exactly.rejects.mpr formed
          exact .inr (.inr (endsDiscarded_of_rejected identified fails))
  · have rejected : (∃ c', Character.load scripts root c = .error .invalidArgument c') → ¬ WellFormed root →
        FormatExact scripts root c := by
      intro fails malformed
      refine ⟨iff_of_true fails malformed, fun c' run => ?_⟩
      obtain ⟨d, throws⟩ := fails
      cases throws.symm.trans run
    rintro (missing | formed | ends)
    · refine rejected ⟨c, Character.load_of_unidentified missing⟩ fun formed => ?_
      cases missing.symm.trans formed.id
    · refine ⟨iff_of_false ?_ (fun malformed => malformed formed), fun c' run => (load_of_wellFormed formed run).2 rfl⟩
      rintro ⟨c', run⟩
      exact (load_of_wellFormed formed run).1 rfl
    · exact rejected (load_of_endsDiscarded c ends) (not_wellFormed_of_endsDiscarded ends)

def nameless : Json := .object [(str "id", .unsigned 0)]

/-- The name is asked for although it is not there. -/
theorem nameless_is_read : ¬ ∀ scripts root c,
    (∀ abilities, root.index (str "abilities") = .ok abilities → ∀ entry ∈ abilities.items,
      (scripts (scriptPath entry.1)).isSome) → FormatExact scripts root c := by
  intro all
  have exactly := all shippedScripts nameless (.make 0 [] none) fun abilities held => by cases held
  exact exactly.present _ rfl

end Format
end D20Tempest.Characters
