import D20Tempest.Characters.Fidelity
import D20Tempest.Characters.RoundTrip
import D20Tempest.Foundation.Unobserved
import Mathlib.Data.List.Nodup

namespace D20Tempest.Characters
open Foundation Components

/-! ## Abilities behind shared pointers -/

/-- A character as its callers share it: `AddAbility` returns a pointer to the object that the map holds, and every
ability of the map is an object of its own. -/
structure Sheet where
  characterID : UInt64
  name : Bytes
  client : Option Ref
  abilities : OrderedMap Bytes Ref
  objects : Arena Ability
  alive : ∀ key r, abilities.find key = some r → (objects.get r).isSome
  separate : ∀ key key' r, abilities.find key = some r → abilities.find key' = some r → key = key'

def saveObjects : List (Bytes × Ref) → Action (Arena Ability) (List (Bytes × Json))
  | [] => pure []
  | (key, r) :: rest => do
      match (← get).get r with
      | none => throw .danglingPointer
      | some a => match Ability.save a with
          | .error e a' =>
              modify fun objects => objects.modify r fun _ => a'
              throw e
          | .ok doc a' =>
              modify fun objects => objects.modify r fun _ => a'
              let others ← saveObjects rest
              return (key, doc) :: others

def SameAlive (objects objects' : Arena Ability) : Prop := ∀ r, (objects'.get r).isSome = (objects.get r).isSome

instance : Std.Refl SameAlive := ⟨fun _ _ => rfl⟩

instance : IsTrans (Arena Ability) SameAlive := ⟨fun _ _ _ first second r => (second r).trans (first r)⟩

theorem sameAlive_modify (objects : Arena Ability) (r : Ref) (a : Ability) :
    SameAlive objects (objects.modify r fun _ => a) := by
  intro s
  rw [Arena.get_modify]
  split
  · rename_i same
    rw [same, Option.isSome_map]
  · rfl

theorem sameAlive_saveObjects (entries : List (Bytes × Ref)) : Moves SameAlive (saveObjects entries) := by
  induction entries with
  | nil => exact Moves.pure _
  | cons e rest ih =>
      obtain ⟨key, r⟩ := e
      have stored : ∀ a : Ability, Moves SameAlive
          (modify fun objects => objects.modify r fun _ => a : Action (Arena Ability) PUnit) :=
        fun a objects => sameAlive_modify objects r a
      intro objects
      rw [saveObjects, bind_of_ok (get_apply objects)]
      cases objects.get r with
      | none => exact fun _ => rfl
      | some a =>
          dsimp only
          cases Ability.save a with
          | error e a' => exact sameAlive_modify objects r a'
          | ok doc a' => exact Moves.bind (stored a') (fun _ => Moves.bind ih fun _ => Moves.pure _) objects

namespace Sheet

def withObjects (s : Sheet) (objects : Arena Ability) (same : SameAlive s.objects objects) : Sheet where
  characterID := s.characterID
  name := s.name
  client := s.client
  abilities := s.abilities
  objects := objects
  alive key r held := by
    rw [same]
    exact s.alive key r held
  separate := s.separate

theorem held_insert {s : Sheet} {scriptName key : Bytes} {r : Ref}
    (held : (s.abilities.insert scriptName s.objects.next).find key = some r) :
    s.abilities.find key = some r ∨ (key = scriptName ∧ r = s.objects.next) := by
  rw [OrderedMap.find_insert] at held
  split at held
  · rename_i same
    subst same
    cases old : s.abilities.find scriptName with
    | none =>
        rw [old] at held
        exact .inr ⟨rfl, (Option.some.inj held).symm⟩
    | some r' =>
        rw [old] at held
        exact .inl held
  · exact .inl held

theorem ne_next (s : Sheet) {key : Bytes} {r : Ref} (held : s.abilities.find key = some r) : r ≠ s.objects.next := by
  rintro rfl
  have there := s.alive key _ held
  rw [Arena.get_next] at there
  cases there

/-- The object is made, and inserted where the name is free. -/
def inserted (s : Sheet) (scriptName : Bytes) (a : Ability) : Sheet where
  characterID := s.characterID
  name := s.name
  client := s.client
  abilities := s.abilities.insert scriptName s.objects.next
  objects := s.objects.alloc a
  alive key r held := by
    rw [Arena.get_alloc]
    rcases held_insert held with old | ⟨-, rfl⟩
    · rw [if_neg (s.ne_next old)]
      exact s.alive key r old
    · rw [if_pos rfl]
      rfl
  separate key key' r held held' := by
    rcases held_insert held with old | ⟨rfl, new⟩ <;> rcases held_insert held' with old' | ⟨rfl, new'⟩
    · exact s.separate key key' r old old'
    · exact absurd new' (s.ne_next old)
    · exact absurd new (s.ne_next old')
    · rfl

def addAbility (scripts : ScriptStore) (scriptName : Bytes) (defaultValue : Int32) : Action Sheet (Option Ref) := do
  let s ← get
  if (s.abilities.find scriptName).isSome then return none
  match scripts (scriptPath scriptName) with
  | none => throw .scriptError
  | some script =>
      set (s.inserted scriptName (Ability.make script defaultValue))
      return some s.objects.next

def save : Action Sheet Json := fun s =>
  let left := s.withObjects (finalState (saveObjects s.abilities.entries s.objects)) (sameAlive_saveObjects _ _)
  match saveObjects s.abilities.entries s.objects with
  | .ok serializedAbilities _ => .ok (Character.documentOf s.characterID s.name serializedAbilities) left
  | .error e _ => .error e left

def through {α : Type} (r : Ref) (x : Action Ability α) : Action Sheet α := fun s =>
  match s.objects.get r with
  | none => .error .danglingPointer s
  | some a => match x a with
      | .ok result a' => .ok result (s.withObjects (s.objects.modify r fun _ => a') (sameAlive_modify _ _ _))
      | .error e a' => .error e (s.withObjects (s.objects.modify r fun _ => a') (sameAlive_modify _ _ _))

/-- The character with its abilities in place. -/
def character (s : Sheet) : Character where
  characterID := s.characterID
  name := s.name
  client := s.client
  abilities := s.abilities.filterMap s.objects.get

/-! ## Refinement -/

section Refinement
variable {s : Sheet} {scripts : ScriptStore} {scriptName : Bytes}

theorem character_find (s : Sheet) (key : Bytes) :
    s.character.abilities.find key = (s.abilities.find key).bind s.objects.get := OrderedMap.find_filterMap _ _ key

theorem character_find_isSome (s : Sheet) (key : Bytes) :
    (s.character.abilities.find key).isSome = (s.abilities.find key).isSome := by
  rw [character_find]
  cases held : s.abilities.find key with
  | none => rfl
  | some r => exact s.alive key r held

theorem inserted_character (free : s.abilities.find scriptName = none) (a : Ability) :
    (s.inserted scriptName a).character =
      { s.character with abilities := s.character.abilities.insert scriptName a } := by
  have abilities : (s.inserted scriptName a).character.abilities = s.character.abilities.insert scriptName a := by
    apply OrderedMap.ext_find
    intro key
    rw [character_find, OrderedMap.find_insert, character_find, character_find, free]
    show ((s.abilities.insert scriptName s.objects.next).find key).bind (s.objects.alloc a).get = _
    rw [OrderedMap.find_insert, free]
    split
    · exact Arena.get_alloc_next _ _
    · cases held : s.abilities.find key with
      | none => rfl
      | some r => exact (Arena.get_alloc _ _ _).trans (if_neg (s.ne_next held))
  rw [← abilities]
  rfl

theorem addAbility_apply (s : Sheet) (scripts : ScriptStore) (scriptName : Bytes) (defaultValue : Int32) :
    s.addAbility scripts scriptName defaultValue = match s.abilities.find scriptName, scripts (scriptPath scriptName) with
      | some _, _ => .ok none s
      | none, none => .error .scriptError s
      | none, some script => .ok (some s.objects.next) (s.inserted scriptName (Ability.make script defaultValue)) := by
  rw [addAbility, bind_of_ok (get_apply s)]
  cases held : s.abilities.find scriptName with
  | some r => rfl
  | none => cases store : scripts (scriptPath scriptName) <;> rfl

theorem addAbility_refines (s : Sheet) (scripts : ScriptStore) (scriptName : Bytes) (defaultValue : Int32) :
    returned (Character.addAbility scripts scriptName defaultValue s.character) =
        (returned (addAbility scripts scriptName defaultValue s)).map (Option.map fun _ => scriptName) ∧
      finalState (Character.addAbility scripts scriptName defaultValue s.character) =
        (finalState (addAbility scripts scriptName defaultValue s)).character := by
  have found := s.character_find_isSome scriptName
  rw [addAbility_apply, Character.addAbility, bind_of_ok (get_apply _)]
  cases held : s.abilities.find scriptName with
  | some r =>
      have present : (s.character.abilities.find scriptName).isSome = true := found.trans (congrArg Option.isSome held)
      rw [if_pos present]
      exact ⟨rfl, rfl⟩
  | none =>
      rw [held] at found
      rw [if_neg (by simp [found])]
      cases scripts (scriptPath scriptName) with
      | none => exact ⟨rfl, rfl⟩
      | some script => exact ⟨rfl, (inserted_character held _).symm⟩

def deref (entries : List (Bytes × Ref)) (objects : Arena Ability) : List (Bytes × Ability) :=
  entries.filterMap fun e => (objects.get e.2).map (Prod.mk e.1)

theorem deref_congr {entries : List (Bytes × Ref)} {objects objects' : Arena Ability}
    (same : ∀ e ∈ entries, objects'.get e.2 = objects.get e.2) : deref entries objects' = deref entries objects :=
  List.filterMap_congr fun e mem => by rw [same e mem]

section Stored
variable {key : Bytes} {r : Ref} {rest : List (Bytes × Ref)} {objects : Arena Ability} {a : Ability}

theorem deref_cons (found : objects.get r = some a) : deref ((key, r) :: rest) objects = (key, a) :: deref rest objects :=
  List.filterMap_cons_some (congrArg (Option.map (Prod.mk key)) found)

theorem get_stored (found : objects.get r = some a) (a' : Ability) : (objects.modify r fun _ => a').get r = some a' := by
  rw [Arena.get_modify_self, found]
  rfl

theorem get_stored_of_mem (fresh : r ∉ rest.map Prod.snd) (a' : Ability) {e : Bytes × Ref} (mem : e ∈ rest) :
    (objects.modify r fun _ => a').get e.2 = objects.get e.2 := by
  apply Arena.get_modify_of_ne
  rintro rfl
  exact fresh (List.mem_map_of_mem mem)

theorem get_stored_of_outside (a' : Ability) {r' : Ref} (outside : r' ∉ ((key, r) :: rest).map Prod.snd) :
    (objects.modify r fun _ => a').get r' = objects.get r' ∧ r' ∉ rest.map Prod.snd := by
  obtain ⟨ne, beyond⟩ := not_or.mp (mt List.mem_cons.mpr outside)
  exact ⟨Arena.get_modify_of_ne _ _ ne, beyond⟩

theorem saveObjects_of_error (found : objects.get r = some a) {e : Fault} {a' : Ability} (run : Ability.save a = .error e a') :
    saveObjects ((key, r) :: rest) objects = .error e (objects.modify r fun _ => a') := by
  rw [saveObjects, bind_of_ok (get_apply objects), found]
  dsimp only
  rw [run]
  rfl

theorem saveObjects_of_ok (found : objects.get r = some a) {doc : Json} {a' : Ability} (run : Ability.save a = .ok doc a') :
    saveObjects ((key, r) :: rest) objects =
      ((fun others => (key, doc) :: others) <$> saveObjects rest) (objects.modify r fun _ => a') := by
  rw [saveObjects, bind_of_ok (get_apply objects), found]
  dsimp only
  rw [run]
  dsimp only
  rw [bind_of_ok (modify_apply ..), ← bind_pure_comp]

end Stored

theorem saveObjects_refines (entries : List (Bytes × Ref)) (apart : (entries.map Prod.snd).Nodup) {objects : Arena Ability}
    (alive : ∀ e ∈ entries, (objects.get e.2).isSome) :
    returned (saveObjects entries objects) = returned (OrderedMap.visitEntries Ability.save (deref entries objects)) ∧
      deref entries (finalState (saveObjects entries objects)) =
        OrderedMap.leftEntries (OrderedMap.visitEntries Ability.save (deref entries objects)) ∧
      ∀ r, r ∉ entries.map Prod.snd → (finalState (saveObjects entries objects)).get r = objects.get r := by
  induction entries generalizing objects with
  | nil => exact ⟨rfl, rfl, fun _ _ => rfl⟩
  | cons e rest ih =>
      obtain ⟨key, r⟩ := e
      obtain ⟨fresh, apart⟩ := List.nodup_cons.mp apart
      obtain ⟨a, found⟩ := Option.isSome_iff_exists.mp (alive (key, r) (by simp))
      have same : ∀ a' : Ability, deref rest (objects.modify r fun _ => a') = deref rest objects := by
        intro a'
        apply deref_congr
        intro e mem
        exact get_stored_of_mem fresh a' mem
      rw [deref_cons found, OrderedMap.visitEntries]
      cases save : Ability.save a with
      | error e a' =>
          rw [saveObjects_of_error found save]
          refine ⟨rfl, ?_, fun r' outside => (get_stored_of_outside a' outside).1⟩
          exact (deref_cons (get_stored found a')).trans (congrArg _ (same a'))
      | ok doc a' =>
          rw [saveObjects_of_ok found save, map_apply]
          have still : ∀ e ∈ rest, (objects.modify r fun _ => a').Alive e.2 := by
            intro e mem
            rw [Arena.Alive, get_stored_of_mem fresh a' mem]
            exact alive e (List.mem_cons_of_mem _ mem)
          obtain ⟨results, left, kept⟩ := ih apart still
          rw [same] at results left
          have here := (kept r fresh).trans (get_stored found a')
          have outside : ∀ r', r' ∉ ((key, r) :: rest).map Prod.snd →
              (finalState (saveObjects rest (objects.modify r fun _ => a'))).get r' = objects.get r' := by
            intro r' outside
            obtain ⟨same, beyond⟩ := get_stored_of_outside a' outside
            exact (kept r' beyond).trans same
          rcases same_outcome results with ⟨docs, run, visited⟩ | ⟨e, run, visited⟩
          · rw [run] at here left outside ⊢
            rw [visited] at left ⊢
            exact ⟨rfl, (deref_cons here).trans (congrArg _ left), outside⟩
          · rw [run] at here left outside ⊢
            rw [visited] at left ⊢
            exact ⟨rfl, (deref_cons here).trans (congrArg _ left), outside⟩

theorem save_refines (s : Sheet) :
    returned (save s) = returned (Character.save s.character) ∧
      (finalState (save s)).character = finalState (Character.save s.character) := by
  have apart : (s.abilities.entries.map Prod.snd).Nodup := by
    refine List.Nodup.map_on ?_ (s.abilities.sorted.imp fun {a b} below same => below.ne (congrArg Prod.fst same))
    intro e mem e' mem' same
    have held := OrderedMap.mem_entries.mp mem
    have held' := OrderedMap.mem_entries.mp mem'
    exact Prod.ext (s.separate e.1 e'.1 e.2 held (same ▸ held')) same
  have alive : ∀ e ∈ s.abilities.entries, s.objects.Alive e.2 := fun e mem =>
    s.alive e.1 e.2 (OrderedMap.mem_entries.mp mem)
  obtain ⟨results, left, -⟩ := saveObjects_refines s.abilities.entries apart alive
  obtain ⟨visited, visitLeft⟩ := visit_outcome Ability.save s.character.abilities
  have abilities : s.abilities.filterMap (finalState (saveObjects s.abilities.entries s.objects)).get =
      finalState (s.character.abilities.visit Ability.save) := OrderedMap.ext (left.trans visitLeft.symm)
  have inPlace : (s.withObjects _ (sameAlive_saveObjects s.abilities.entries s.objects)).character =
      Character.mk s.characterID s.name s.client (finalState (s.character.abilities.visit Ability.save)) :=
    congrArg (Character.mk s.characterID s.name s.client) abilities
  rw [save, Character.save]
  generalize s.withObjects _ (sameAlive_saveObjects s.abilities.entries s.objects) = saved at inPlace ⊢
  rcases same_outcome (results.trans visited.symm) with ⟨docs, runS, runC⟩ | ⟨e, runS, runC⟩
  · rw [runS, runC]
    exact ⟨rfl, inPlace⟩
  · rw [runS, runC]
    exact ⟨rfl, inPlace⟩

def Saves (s : Sheet) (doc : Json) : Prop := ∃ left, save s = .ok doc left

theorem saves_iff {doc : Json} : s.Saves doc ↔ s.character.Saves doc := by
  have results := (save_refines s).1
  constructor
  · intro saves
    obtain ⟨left, run⟩ := saves
    rw [run] at results
    rcases same_outcome results with ⟨doc', eq, run'⟩ | ⟨e, eq, -⟩
    · cases eq
      exact ⟨_, run'⟩
    · cases eq
  · intro saves
    obtain ⟨left, run⟩ := saves
    rw [run] at results
    rcases same_outcome results with ⟨doc', run', eq⟩ | ⟨e, -, eq⟩
    · cases eq
      exact ⟨_, run'⟩
    · cases eq

theorem through_character {α : Type} {r : Ref} (held : s.abilities.find scriptName = some r) (x : Action Ability α) :
    ∃ a, s.character.abilities.find scriptName = some a ∧ (finalState (through r x s)).character =
      { s.character with abilities := s.character.abilities.assign scriptName (finalState (x a)) } := by
  obtain ⟨a, found⟩ := Option.isSome_iff_exists.mp (s.alive scriptName r held)
  have here : s.character.abilities.find scriptName = some a := by
    rw [character_find, held]
    exact found
  have changed : ∀ a', (s.withObjects (s.objects.modify r fun _ => a') (sameAlive_modify _ _ _)).character =
      { s.character with abilities := s.character.abilities.assign scriptName a' } := by
    intro a'
    refine congrArg (Character.mk s.characterID s.name s.client) (OrderedMap.ext_find fun key => ?_)
    rw [OrderedMap.find_filterMap, OrderedMap.find_assign, character_find]
    show (s.abilities.find key).bind (s.objects.modify r fun _ => a').get = _
    split
    · rename_i same
      rw [← same, held, Option.bind_some, Arena.get_modify_self, found]
      rfl
    · rename_i other
      cases held' : s.abilities.find key with
      | none => rfl
      | some r' =>
          refine Arena.get_modify_of_ne _ _ ?_
          rintro rfl
          exact other (s.separate scriptName key r' held held')
  refine ⟨a, here, ?_⟩
  rw [through, found]
  dsimp only
  cases x a with
  | ok result a' => exact changed a'
  | error e a' => exact changed a'

end Refinement
end Sheet

/-! ## Sequences of calls -/

/-- A call of `AddAbility`, with the script files as they are at that moment. -/
structure AddCall where
  scripts : ScriptStore
  scriptName : Bytes
  defaultValue : Int32

namespace AddCall

def ability (call : AddCall) : Option Ability :=
  (call.scripts (scriptPath call.scriptName)).map fun script => Ability.make script call.defaultValue

def Loads (call : AddCall) : Prop := (call.scripts (scriptPath call.scriptName)).isSome

instance (call : AddCall) : Decidable call.Loads := by unfold Loads; infer_instance

end AddCall

namespace Sheet

def add (call : AddCall) : Action Sheet (Option Ref) := addAbility call.scripts call.scriptName call.defaultValue

def after (s : Sheet) (calls : List AddCall) : Sheet := calls.foldl (fun s call => finalState (add call s)) s

end Sheet

def firstLoading (calls : List AddCall) (key : Bytes) : Option AddCall :=
  calls.find? fun call => call.scriptName = key ∧ call.Loads

def SameByName (calls calls' : List AddCall) : Prop :=
  ∀ scriptName, calls.filter (·.scriptName = scriptName) = calls'.filter (·.scriptName = scriptName)

section Sequences
variable {s : Sheet} {calls calls' : List AddCall}

theorem firstLoading_filter (calls : List AddCall) (key : Bytes) :
    firstLoading calls key = (calls.filter (·.scriptName = key)).find? fun call => call.Loads := by
  rw [firstLoading, List.find?_filter]
  simp

theorem firstLoading_cons (call : AddCall) (rest : List AddCall) (key : Bytes) :
    (firstLoading (call :: rest) key).bind AddCall.ability =
      (if call.scriptName = key then call.ability else none).or ((firstLoading rest key).bind AddCall.ability) := by
  rw [firstLoading, List.find?_cons]
  by_cases named : call.scriptName = key
  · subst named
    cases loaded : call.scripts (scriptPath call.scriptName) with
    | none => simp [AddCall.Loads, AddCall.ability, loaded, firstLoading]
    | some script => simp [AddCall.Loads, AddCall.ability, loaded]
  · simp [named, firstLoading]

theorem add_character (s : Sheet) (call : AddCall) : (finalState (Sheet.add call s)).character =
    { s.character with abilities := match call.ability with
      | none => s.character.abilities
      | some a => s.character.abilities.insert call.scriptName a } := by
  rw [Sheet.add, ← (Sheet.addAbility_refines s ..).2, Character.addAbility_apply, AddCall.ability]
  cases call.scripts (scriptPath call.scriptName) <;> rfl

theorem find_add (s : Sheet) (call : AddCall) (key : Bytes) : (finalState (Sheet.add call s)).character.abilities.find key =
    (s.character.abilities.find key).or (if call.scriptName = key then call.ability else none) := by
  rw [add_character]
  dsimp only
  cases call.ability with
  | none => simp
  | some a =>
      rw [OrderedMap.find_insert]
      split
      · rename_i same
        subst same
        cases s.character.abilities.find call.scriptName <;> rfl
      · rw [Option.or_none]

/-- The first call whose script loads decides, and what was there before decides over all. -/
theorem find_after (s : Sheet) (calls : List AddCall) (key : Bytes) : (s.after calls).character.abilities.find key =
    (s.character.abilities.find key).or ((firstLoading calls key).bind AddCall.ability) := by
  induction calls generalizing s with
  | nil => simp [Sheet.after, firstLoading]
  | cons call rest ih =>
      rw [firstLoading_cons, ← Option.or_assoc, ← find_add]
      exact ih _

theorem after_character (s : Sheet) (calls : List AddCall) :
    (s.after calls).character = { s.character with abilities := (s.after calls).character.abilities } := by
  induction calls generalizing s with
  | nil => rfl
  | cons call rest ih =>
      have later := ih (finalState (Sheet.add call s))
      rw [add_character] at later
      exact later

theorem after_congr (same : SameByName calls calls') : (s.after calls).character = (s.after calls').character := by
  have abilities : (s.after calls).character.abilities = (s.after calls').character.abilities := by
    apply OrderedMap.ext_find
    intro key
    rw [find_after, find_after, firstLoading_filter, firstLoading_filter, same key]
  rw [after_character s calls, after_character s calls', abilities]

theorem first_loads {key : Bytes} {call : AddCall} (first : firstLoading calls key = some call) :
    call ∈ calls ∧ call.scriptName = key ∧ ∃ script, call.ability = some (Ability.make script call.defaultValue) := by
  have chosen := List.find?_some first
  simp only [decide_eq_true_eq] at chosen
  obtain ⟨named, loads⟩ := chosen
  obtain ⟨script, loaded⟩ := Option.isSome_iff_exists.mp loads
  exact ⟨List.mem_of_find?_eq_some first, named, script, congrArg (Option.map _) loaded⟩

theorem find_isSome_iff_loads (s : Sheet) (calls : List AddCall) (key : Bytes) :
    ((s.after calls).character.abilities.find key).isSome ↔
      (s.abilities.find key).isSome ∨ ∃ call ∈ calls, call.scriptName = key ∧ call.Loads := by
  rw [find_after, Option.isSome_or, Bool.or_eq_true, s.character_find_isSome]
  refine or_congr Iff.rfl ?_
  cases first : firstLoading calls key with
  | none =>
      have unloaded := List.find?_eq_none.mp first
      simp only [Option.bind_none, Option.isSome_none, Bool.false_eq_true, false_iff]
      intro loads
      obtain ⟨call, mem, named, loads⟩ := loads
      exact unloaded call mem (decide_eq_true ⟨named, loads⟩)
  | some call =>
      have chosen := List.find?_some first
      obtain ⟨mem, -, script, made⟩ := first_loads first
      simp only [Option.bind_some, made, Option.isSome_some, true_iff]
      exact ⟨call, mem, of_decide_eq_true chosen⟩

/-- What `Save` writes after the calls: the names that were there, as they were, and each name whose script loads for
some call, with the default of the first such call. -/
structure SavesSet (s : Sheet) (calls : List AddCall) (doc : Json) : Prop where
  names : ∀ key, (abilityEntry doc key).isSome ↔
    (s.abilities.find key).isSome ∨ ∃ call ∈ calls, call.scriptName = key ∧ call.Loads
  defaults : ∀ key call, s.abilities.find key = none → firstLoading calls key = some call →
    (abilityEntry doc key).bind (·.find (str "value")) = some (.integer call.defaultValue.toInt64)
  kept : ∀ key before, (s.abilities.find key).isSome → s.Saves before → abilityEntry doc key = abilityEntry before key

theorem savesSet_of_saves {doc : Json} (saves : (s.after calls).Saves doc) : SavesSet s calls doc := by
  obtain ⟨-, rfl⟩ := Character.saves_iff.mp (Sheet.saves_iff.mp saves)
  refine ⟨?_, ?_, ?_⟩
  · intro key
    rw [abilityEntry_document, Option.isSome_map, find_isSome_iff_loads]
  · intro key call free first
    obtain ⟨-, -, script, made⟩ := first_loads first
    have absent : s.character.abilities.find key = none := by
      rw [Sheet.character_find, free, Option.bind_none]
    rw [abilityEntry_document, find_after, absent, Option.none_or, first, Option.bind_some, made]
    rfl
  · intro key before there saved
    obtain ⟨-, rfl⟩ := Character.saves_iff.mp (Sheet.saves_iff.mp saved)
    rw [← s.character_find_isSome] at there
    rw [abilityEntry_document, abilityEntry_document, find_after, Option.or_of_isSome there]

theorem add_cases (s : Sheet) (call : AddCall) :
    ((s.abilities.find call.scriptName).isSome ∧ Sheet.add call s = .ok none s) ∨
      (s.abilities.find call.scriptName = none ∧ Sheet.add call s = .error .scriptError s) ∨
      ∃ a, s.abilities.find call.scriptName = none ∧ Sheet.add call s = .ok (some s.objects.next) (s.inserted call.scriptName a) := by
  rw [Sheet.add, Sheet.addAbility_apply]
  cases held : s.abilities.find call.scriptName with
  | some r => exact .inl ⟨rfl, rfl⟩
  | none =>
      cases call.scripts (scriptPath call.scriptName) with
      | none => exact .inr (.inl ⟨rfl, rfl⟩)
      | some script => exact .inr (.inr ⟨_, rfl, rfl⟩)

theorem held_add {key : Bytes} {r : Ref} (held : s.abilities.find key = some r) (call : AddCall) :
    (finalState (Sheet.add call s)).abilities.find key = some r := by
  rcases add_cases s call with ⟨-, run⟩ | ⟨-, run⟩ | ⟨a, free, run⟩
  · rw [run]
    exact held
  · rw [run]
    exact held
  · rw [run]
    refine (OrderedMap.find_insert _ _ _ _).trans ?_
    split
    · rename_i same
      rw [← same, free] at held
      cases held
    · exact held

theorem held_after {key : Bytes} {r : Ref} (held : s.abilities.find key = some r) (calls : List AddCall) :
    (s.after calls).abilities.find key = some r := by
  induction calls generalizing s with
  | nil => exact held
  | cons call rest ih => exact ih (held_add held call)

theorem held_of_added {call : AddCall} {r : Ref} (added : returned (Sheet.add call s) = .ok (some r)) :
    (finalState (Sheet.add call s)).abilities.find call.scriptName = some r := by
  rcases add_cases s call with ⟨-, run⟩ | ⟨-, run⟩ | ⟨a, free, run⟩
  · rw [run] at added
    cases added
  · rw [run] at added
    cases added
  · rw [run] at added ⊢
    cases added
    refine (OrderedMap.find_insert _ _ _ _).trans ?_
    rw [if_pos rfl, free]
    rfl

end Sequences

/-- `AddAbility` over any history: first wins, a call that adds nothing changes nothing, the pointer that is returned is
the one that is saved through, and calls under different names commute. -/
theorem ability_sets (s : Sheet) (calls : List AddCall) :
    (∀ doc, (s.after calls).Saves doc → SavesSet s calls doc) ∧
      (∀ call, returned (Sheet.add call (s.after calls)) = .ok none ↔
        ((s.after calls).abilities.find call.scriptName).isSome) ∧
      (∀ call, (returned (Sheet.add call (s.after calls)) = .ok none ∨ ∃ e, returned (Sheet.add call (s.after calls)) = .error e) →
        ∀ doc, (finalState (Sheet.add call (s.after calls))).Saves doc ↔ (s.after calls).Saves doc) ∧
      (∀ call r, returned (Sheet.add call (s.after calls)) = .ok (some r) → ∀ more (α : Type) (x : Action Ability α),
        let t := (finalState (Sheet.add call (s.after calls))).after more
        ∃ a, t.character.abilities.find call.scriptName = some a ∧ ∀ doc, (finalState (Sheet.through r x t)).Saves doc ↔
          Character.Saves { t.character with
            abilities := t.character.abilities.assign call.scriptName (finalState (x a)) } doc) ∧
      ∀ calls', SameByName calls calls' → ∀ doc, (s.after calls).Saves doc ↔ (s.after calls').Saves doc := by
  refine ⟨fun doc saves => savesSet_of_saves saves, ?_, ?_, ?_, ?_⟩
  · intro call
    rcases add_cases (s.after calls) call with ⟨held, run⟩ | ⟨free, run⟩ | ⟨a, free, run⟩
    · rw [run]
      exact iff_of_true rfl held
    · rw [run, free]
      exact iff_of_false (by simp [returned]) (by simp)
    · rw [run, free]
      exact iff_of_false (by simp [returned]) (by simp)
  · intro call nothing doc
    rcases add_cases (s.after calls) call with ⟨-, run⟩ | ⟨-, run⟩ | ⟨a, -, run⟩
    · rw [run, finalState_ok]
    · rw [run, finalState_error]
    · rw [run] at nothing
      simp [returned] at nothing
  · intro call r added more α x t
    obtain ⟨a, found, changed⟩ := Sheet.through_character (held_after (held_of_added added) more) x
    refine ⟨a, found, fun doc => ?_⟩
    rw [Sheet.saves_iff, changed]
  · intro calls' same doc
    rw [Sheet.saves_iff, Sheet.saves_iff, after_congr same]

end D20Tempest.Characters
