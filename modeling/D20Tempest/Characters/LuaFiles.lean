import D20Tempest.Characters.SilentSaves
import D20Tempest.Components.ExactModifier
import D20Tempest.Components.LuaAbility
import D20Tempest.Foundation.LuaJudgements

namespace D20Tempest.Components
open Foundation

namespace LuaAbility

section
variable (r : Rounding) (depth : Nat)

def answer : AbilityUse → Action LuaState Answer
  | .value value => .accepted <$> setValue r depth value
  | .temp val => (fun _ => .nothing) <$> setTemp val
  | .resetTemp => (fun _ => .nothing) <$> resetTemp
  | .load root => (fun _ => .nothing) <$> load root
  | .modifier => .modifier <$> modifier (call r depth)
  | .save => .document <$> save r depth

theorem setValue_apply (value : Int32) (s : LuaState) : setValue r depth value s =
    if isValid s.host.checkValueBeforeSet then
      (call r depth s.host.checkValueBeforeSet [.number (.push value)] >>= fun v => do
        if v.isTrue then
          onHost fun a => { a with abilityValue := value, cacheInvalidated := true }
          return true
        return false) s
    else .ok false s := by
  rw [setValue, host, bind_assoc, bind_apply, get_apply]
  simp only [pure_bind]
  split <;> rfl

theorem save_apply (s : LuaState) : save r depth s =
    if s.host.cacheInvalidated then
      ((call r depth s.host.getModifier [] >>= fun v => evaluate (toInt v)) >>= fun m => do
        onHost fun a => { a with modifierCache := m }
        return (← host).document s.host.abilityValue) s
    else .ok (s.host.document s.host.abilityValue) s := by
  rw [bind_assoc, save, host, bind_assoc, bind_apply, get_apply]
  simp only [pure_bind, bind_assoc]
  split <;> rfl

end

/-! ## What no file can do -/

/-- What the constructor took from the file stays. -/
structure SameFile (a b : LuaAbility) : Prop where
  name : b.name = a.name
  shortName : b.shortName = a.shortName
  getModifier : b.getModifier = a.getModifier
  checkValueBeforeSet : b.checkValueBeforeSet = a.checkValueBeforeSet

-- all but the bonus, the cache and its mark
def Fixes (s t : LuaState) : Prop := SameFile s.host t.host ∧ t.host.abilityValue = s.host.abilityValue

theorem SameFile.refl (a : LuaAbility) : SameFile a a := ⟨rfl, rfl, rfl, rfl⟩

theorem SameFile.trans {a b c : LuaAbility} (first : SameFile a b) (second : SameFile b c) : SameFile a c :=
  ⟨second.name.trans first.name, second.shortName.trans first.shortName, second.getModifier.trans first.getModifier,
    second.checkValueBeforeSet.trans first.checkValueBeforeSet⟩

instance : Std.Refl Fixes := ⟨fun s => ⟨.refl s.host, rfl⟩⟩

instance : IsTrans LuaState Fixes := ⟨fun _ _ _ first second => ⟨first.1.trans second.1, second.2.trans first.2⟩⟩

section
variable {r : Rounding} {depth : Nat} {s : LuaState}

theorem fixes_host : Moves Fixes host := fun s => Std.Refl.refl s

theorem fixes_onHost {f : LuaAbility → LuaAbility} (same : ∀ a, SameFile a (f a) ∧ (f a).abilityValue = a.abilityValue) :
    Moves Fixes (onHost f) := fun s => same s.host

theorem fixes_setTemp (val : Int32) : Moves Fixes (setTemp val) := fixes_onHost fun _ => ⟨⟨rfl, rfl, rfl, rfl⟩, rfl⟩

theorem fixes_modifier {call : Lua.Call HostFunction LuaAbility} (calls : ∀ v args, Moves Fixes (call v args)) :
    Moves Fixes (modifier call) := by
  have stores : ∀ m, Moves Fixes (onHost fun a => { a with modifierCache := m, cacheInvalidated := false }) :=
    fun m => fixes_onHost fun _ => ⟨⟨rfl, rfl, rfl, rfl⟩, rfl⟩
  apply fixes_host.bind
  intro a
  split
  · apply (calls _ _).bind
    intro v
    exact (Moves.evaluate _).bind fun m => (stores m).bind fun _ => Moves.pure m
  · exact Moves.pure _

theorem fixes_native {call : Lua.Call HostFunction LuaAbility} (calls : ∀ v args, Moves Fixes (call v args)) (n : HostFunction)
    (args : List (Lua.Value HostFunction)) : Moves Fixes (native call n args) := by
  cases n with
  | modifier => exact (fixes_modifier calls).bind fun m => Moves.pure _
  | value => exact fixes_host.bind fun a => Moves.pure _
  | temp => exact fixes_host.bind fun a => Moves.pure _
  | setTemp => exact (Moves.evaluate _).bind fun val => (fixes_setTemp val).bind fun _ => Moves.pure _

theorem fixes_call (v : Lua.Value HostFunction) (args : List (Lua.Value HostFunction)) : Moves Fixes (call r depth v args) :=
  Lua.moves_callValue (fun _ _ s => ⟨.refl s.host, rfl⟩) (fun _ calls => fixes_native calls) depth v args

theorem fixes_save : Moves Fixes (save r depth) := by
  have stores : ∀ m, Moves Fixes (onHost fun a => { a with modifierCache := m }) :=
    fun m => fixes_onHost fun _ => ⟨⟨rfl, rfl, rfl, rfl⟩, rfl⟩
  apply fixes_host.bind
  intro a
  have document : Moves Fixes (do return (← host).document a.abilityValue : Action LuaState Json) :=
    fixes_host.bind fun b => Moves.pure _
  split
  · apply (fixes_call _ _).bind
    intro v
    exact (Moves.evaluate _).bind fun m => (stores m).bind fun _ => document
  · exact document

theorem fixes_resetTemp : Moves Fixes resetTemp := fixes_onHost fun _ => ⟨⟨rfl, rfl, rfl, rfl⟩, rfl⟩

end

/-- The call, from `s`, sets the value to `v`. -/
def Brings (r : Rounding) (depth : Nat) (s : LuaState) : AbilityUse → Int32 → Prop
  | .value value, v => value = v ∧ returned (setValue r depth value s) = .ok true
  | .load root, v => valueRead root = .ok v
  | _, _ => False

/-- The file stays, and the value stays but for what the call brings. -/
def Sets (r : Rounding) (depth : Nat) (use : AbilityUse) (s t : LuaState) : Prop :=
  SameFile s.host t.host ∧ (t.host.abilityValue = s.host.abilityValue ∨ Brings r depth s use t.host.abilityValue)

section
variable {r : Rounding} {depth : Nat} {s t : LuaState}

theorem Fixes.sets {use : AbilityUse} (fixes : Fixes s t) : Sets r depth use s t := ⟨fixes.1, .inl fixes.2⟩

theorem sets_setValue (value : Int32) : Sets r depth (.value value) s (finalState (setValue r depth value s)) := by
  have called : Fixes s (finalState (call r depth s.host.checkValueBeforeSet [.number (.push value)] s)) := fixes_call _ _ s
  have setting := setValue_apply r depth value s
  by_cases valid : isValid s.host.checkValueBeforeSet = true
  · rw [if_pos valid] at setting
    cases run : call r depth s.host.checkValueBeforeSet [.number (.push value)] s with
    | error e t =>
        rw [run] at called
        rw [setting, bind_of_error run]
        exact called.sets
    | ok v t =>
        rw [run] at called
        rw [bind_of_ok run] at setting
        cases accepts : v.isTrue with
        | true =>
            rw [accepts, if_pos rfl] at setting
            rw [setting]
            exact ⟨called.1.trans ⟨rfl, rfl, rfl, rfl⟩, .inr ⟨rfl, congrArg returned setting⟩⟩
        | false =>
            rw [accepts] at setting
            rw [setting]
            exact called.sets
  · rw [if_neg valid] at setting
    rw [setting]
    exact Fixes.sets (Std.Refl.refl s)

theorem sets_load (root : Json) : Sets r depth (.load root) s (finalState (load root s)) := by
  rw [load]
  split
  · exact Fixes.sets (Std.Refl.refl s)
  · cases read : root.index (str "value") >>= Json.getInt with
    | error e => exact Fixes.sets (Std.Refl.refl s)
    | ok value => cases root.index (str "temp") >>= Json.getInt <;> exact ⟨⟨rfl, rfl, rfl, rfl⟩, .inr read⟩

theorem finalState_map {α β : Type} (f : α → β) (x : Action LuaState α) : finalState ((f <$> x) s) = finalState (x s) := by
  rw [map_apply]
  cases x s <;> rfl

theorem sets_answer (use : AbilityUse) : Sets r depth use s (finalState (answer r depth use s)) := by
  cases use with
  | value value =>
      rw [answer, finalState_map]
      exact sets_setValue value
  | temp val => exact (fixes_setTemp val s).sets
  | resetTemp => exact (fixes_resetTemp s).sets
  | load root =>
      rw [answer, finalState_map]
      exact sets_load root
  | modifier =>
      rw [answer, finalState_map]
      exact (fixes_modifier fixes_call s).sets
  | save =>
      rw [answer, finalState_map]
      exact (fixes_save s).sets

end

end LuaAbility

def afterUses (r : Rounding) (depth : Nat) (s : LuaState) (uses : List AbilityUse) : LuaState :=
  uses.foldl (fun t use => finalState (LuaAbility.answer r depth use t)) s

/-- Whatever code a file holds, the value of an ability is the one it was made with, or one that the check of the file let
through, or one of a loaded document, and the functions and names that the ability took from the file stay. -/
theorem value_is_checked_or_loaded (r : Rounding) (depth : Nat) (s : LuaState) (uses : List AbilityUse) :
    let t := afterUses r depth s uses
    LuaAbility.SameFile s.host t.host ∧ (t.host.abilityValue = s.host.abilityValue ∨ ∃ done use rest,
      uses = done ++ use :: rest ∧ LuaAbility.Brings r depth (afterUses r depth s done) use t.host.abilityValue) := by
  intro t
  induction uses using List.reverseRecOn with
  | nil => exact ⟨.refl s.host, .inl rfl⟩
  | append_singleton uses use ih =>
      obtain ⟨file, value⟩ := ih
      have last : t = finalState (LuaAbility.answer r depth use (afterUses r depth s uses)) := by
        show List.foldl _ _ _ = _
        rw [List.foldl_append]
        rfl
      obtain ⟨file', value'⟩ := last ▸ LuaAbility.sets_answer use
      refine ⟨file.trans file', ?_⟩
      rcases value' with same | brings
      · rw [same]
        refine value.imp_right ?_
        rintro ⟨done, earlier, rest, rfl, brings⟩
        exact ⟨done, earlier, rest ++ [use], by simp, brings⟩
      · exact .inr ⟨uses, use, [], rfl, brings⟩

namespace LuaAbility

section
variable (r : Rounding) (depth : Nat)

/-! ## The script of a file -/

/-- The two functions in the state that the constructor leaves, for any value and bonus. -/
def scriptOf (s : LuaState) : Script where
  name := s.host.name
  shortName := s.host.shortName
  getModifier value temp :=
    returned (call r depth s.host.getModifier [] { s with host := { s.host with abilityValue := value, tempBonus := temp } }) >>= toInt
  checkValueBeforeSet :=
    if isValid s.host.checkValueBeforeSet then
      some fun value => Lua.Value.isTrue <$> returned (call r depth s.host.checkValueBeforeSet [.number (.push value)] s)
    else none

def scripted (s : LuaState) : Ability where
  abilityValue := s.host.abilityValue
  tempBonus := s.host.tempBonus
  modifierCache := s.host.modifierCache
  cacheInvalidated := s.host.cacheInvalidated
  script := scriptOf r depth s

end

/-- A path leads to a script if its file can be run. -/
def scripts (r : Rounding) (depth : Nat) (files : Bytes → Option (List Lua.Item)) : ScriptStore := fun path =>
  (files path).bind fun file => match construct r depth file (initial 0) with
    | .ok _ s => some (scriptOf r depth s)
    | .error _ _ => none

def Numeric : HostFunction → Prop
  | .value | .temp => True
  | _ => False

instance : DecidablePred Numeric
  | .value | .temp => .isTrue trivial
  | .modifier | .setTemp => .isFalse id

/-- The modifier is computed from the value and the bonus, and the check looks at neither. -/
structure OnlyObserves (s : LuaState) : Prop where
  getModifier : ∃ reads : List Bytes, (∀ x ∈ reads, (s.globals x).Within (.observer (· ∈ reads) Numeric)) ∧
    s.host.getModifier.Within (.observer (· ∈ reads) Numeric)
  check : ∃ reads : List Bytes, (∀ x ∈ reads, (s.globals x).Within (.observer (· ∈ reads) fun _ => False)) ∧
    s.host.checkValueBeforeSet.Within (.observer (· ∈ reads) fun _ => False)

def numbers (a : LuaAbility) : Int32 × Int32 := (a.abilityValue, a.tempBonus)

section
variable {r : Rounding} {depth : Nat} {s t : LuaState} {a : Ability}

theorem observing_numeric {globals : Bytes → Lua.Value HostFunction} {may : Lua.Permission HostFunction}
    {call : Lua.Call HostFunction LuaAbility} {n : HostFunction} {args : List (Lua.Value HostFunction)} (numeric : Numeric n) :
    (Lua.observing globals numbers).Holds (Lua.Value.Within may) (native call n args) (native call n args) := by
  intro s t _ _ same
  obtain ⟨sameValue, sameTemp⟩ := Prod.mk.inj same
  cases n with
  | value =>
      refine ⟨?_, rfl, fun v returns => ?_⟩
      · show Except.ok (Lua.Value.number (.push s.host.abilityValue)) = .ok (.number (.push t.host.abilityValue))
        rw [sameValue]
      · cases returns
        trivial
  | temp =>
      refine ⟨?_, rfl, fun v returns => ?_⟩
      · show Except.ok (Lua.Value.number (.push s.host.tempBonus)) = .ok (.number (.push t.host.tempBonus))
        rw [sameTemp]
      · cases returns
        trivial
  | _ => exact numeric.elim

/-- `t` is the state `s` after some calls, and `a` the ability with the script of `s`. -/
structure Like (r : Rounding) (depth : Nat) (s t : LuaState) (a : Ability) : Prop where
  globals : t.globals = s.globals
  abilityValue : t.host.abilityValue = a.abilityValue
  tempBonus : t.host.tempBonus = a.tempBonus
  modifierCache : t.host.modifierCache = a.modifierCache
  cacheInvalidated : t.host.cacheInvalidated = a.cacheInvalidated
  name : t.host.name = s.host.name
  shortName : t.host.shortName = s.host.shortName
  getModifier : t.host.getModifier = s.host.getModifier
  checkValueBeforeSet : t.host.checkValueBeforeSet = s.host.checkValueBeforeSet
  script : a.script = scriptOf r depth s

theorem like_scripted (s : LuaState) : Like r depth s s (scripted r depth s) := ⟨rfl, rfl, rfl, rfl, rfl, rfl, rfl, rfl, rfl, rfl⟩

theorem Like.document (like : Like r depth s t a) : t.host.document t.host.abilityValue = a.document a.modifierCache := by
  rw [LuaAbility.document, like.abilityValue, like.modifierCache, like.tempBonus, like.name, like.shortName,
    Ability.document, like.script]
  rfl

theorem simulates_setTemp (val : Int32) : Simulates (Like r depth s) (setTemp val) (Ability.setTemp val) := by
  intro t a like
  exact ⟨rfl, { like with tempBonus := congrArg (· + val) like.tempBonus, cacheInvalidated := rfl }⟩

theorem simulates_resetTemp : Simulates (Like r depth s) resetTemp Ability.resetTemp := by
  intro t a like
  exact ⟨rfl, { like with tempBonus := rfl, cacheInvalidated := rfl }⟩

theorem simulates_load (root : Json) : Simulates (Like r depth s) (load root) (Ability.load root) := by
  have value : ∀ v, Simulates (Like r depth s) (onHost fun a => { a with abilityValue := v })
      (modify fun a : Ability => { a with abilityValue := v }) :=
    fun v t a like => ⟨rfl, { like with abilityValue := rfl }⟩
  have temp : ∀ v, Simulates (Like r depth s) (onHost fun a => { a with tempBonus := v })
      (modify fun a : Ability => { a with tempBonus := v }) :=
    fun v t a like => ⟨rfl, { like with tempBonus := rfl }⟩
  have read : ∀ key, Simulates (Like r depth s) (evaluate (root.index key >>= Json.getInt)) (evaluate (root.index key >>= Json.getInt)) :=
    fun key => .evaluate _
  unfold load Ability.load
  split
  · exact (Simulates.throw _).bind fun _ => (read _).bind fun v => (value v).bind fun _ => (read _).bind temp
  · exact (read _).bind fun v => (value v).bind fun _ => (read _).bind temp

section
variable (observes : OnlyObserves s)
include observes

theorem call_getModifier (like : Like r depth s t a) :
    (call r depth t.host.getModifier [] >>= fun v => evaluate (toInt v)) t = evaluate a.getModifier t := by
  obtain ⟨reads, globalsWithin, within⟩ := observes.getModifier
  have calls : (Lua.observing s.globals numbers).Calls (.observer (· ∈ reads) Numeric) (call r depth) (call r depth) :=
    Lua.judge_call (Lua.observing_permits globalsWithin) (fun _ _ _ _ numeric _ => observing_numeric numeric) depth
  have ran := Lua.observing_run (calls _ [] within nofun) (s := t)
    (t := { s with host := { s.host with abilityValue := a.abilityValue, tempBonus := a.tempBonus } })
    like.globals rfl (by rw [numbers, like.abilityValue, like.tempBonus]; rfl)
  rw [Ability.getModifier, like.script, like.getModifier, bind_apply, ran, ← bind_apply, evaluate_bind]
  rfl

theorem call_check (like : Like r depth s t a) (value : Int32) :
    call r depth s.host.checkValueBeforeSet [.number (.push value)] t =
      evaluate (returned (call r depth s.host.checkValueBeforeSet [.number (.push value)] s)) t := by
  obtain ⟨reads, globalsWithin, within⟩ := observes.check
  have calls : (Lua.observing s.globals fun _ : LuaAbility => ()).Calls (.observer (· ∈ reads) fun _ => False) (call r depth) (call r depth) :=
    Lua.judge_call (Lua.observing_permits globalsWithin) (fun _ _ _ _ none _ => none.elim) depth
  refine Lua.observing_run (calls _ _ within ?_) like.globals rfl rfl
  intro a mem
  rw [List.mem_singleton.mp mem]
  trivial

theorem simulates_modifier : Simulates (Like r depth s) (modifier (call r depth)) Ability.modifier := by
  intro t a like
  by_cases invalidated : a.cacheInvalidated = true
  · have left := modifier_apply (call r depth) t
    rw [like.cacheInvalidated, if_pos invalidated] at left
    have right : Ability.modifier a = (evaluate a.getModifier >>= fun m => do
        set { a with modifierCache := m, cacheInvalidated := false }
        return m) a := by
      rw [Ability.modifier, bind_apply, get_apply]
      simp only [invalidated, if_true]
    rw [left, right, bind_apply, call_getModifier observes like]
    cases a.getModifier with
    | ok m => exact ⟨rfl, { like with modifierCache := rfl, cacheInvalidated := rfl }⟩
    | error e => exact ⟨rfl, like⟩
  · have left := modifier_apply (call r depth) t
    rw [like.cacheInvalidated, if_neg invalidated, like.modifierCache] at left
    have right : Ability.modifier a = .ok a.modifierCache a := by
      rw [Ability.modifier, bind_apply, get_apply]
      simp only [invalidated]
      rfl
    rw [left, right]
    exact ⟨rfl, like⟩

theorem simulates_save : Simulates (Like r depth s) (save r depth) Ability.save := by
  intro t a like
  by_cases invalidated : a.cacheInvalidated = true
  · have left := save_apply r depth t
    rw [like.cacheInvalidated, if_pos invalidated] at left
    have right : Ability.save a = (evaluate a.getModifier >>= fun m => do
        set { a with modifierCache := m }
        return a.document m) a := by
      rw [Ability.save, bind_apply, get_apply]
      simp only [invalidated, if_true]
    rw [left, right, bind_apply, call_getModifier observes like]
    cases a.getModifier with
    | ok m =>
        have stored : Like r depth s { t with host := { t.host with modifierCache := m } } { a with modifierCache := m } :=
          { like with modifierCache := rfl }
        exact ⟨congrArg Except.ok stored.document, stored⟩
    | error e => exact ⟨rfl, like⟩
  · have left := save_apply r depth t
    rw [like.cacheInvalidated, if_neg invalidated] at left
    have right : Ability.save a = .ok (a.document a.modifierCache) a := by
      rw [Ability.save, bind_apply, get_apply]
      simp only [invalidated]
      rfl
    rw [left, right]
    exact ⟨congrArg Except.ok like.document, like⟩

theorem simulates_setValue (value : Int32) : Simulates (Like r depth s) (setValue r depth value) (Ability.setValue value) := by
  intro t a like
  have check : a.script.checkValueBeforeSet = if isValid s.host.checkValueBeforeSet then
      some fun value => Lua.Value.isTrue <$> returned (call r depth s.host.checkValueBeforeSet [.number (.push value)] s)
      else none := by
    rw [like.script]
    rfl
  rw [setValue_apply, Ability.setValue_apply, check, like.checkValueBeforeSet]
  by_cases valid : isValid s.host.checkValueBeforeSet = true
  · simp only [valid, if_true]
    rw [bind_apply, call_check observes like]
    cases returned (call r depth s.host.checkValueBeforeSet [.number (.push value)] s) with
    | error e => exact ⟨rfl, like⟩
    | ok v =>
        simp only [evaluate_ok, pure_apply, Except.map_ok]
        cases v.isTrue with
        | true => exact ⟨rfl, { like with abilityValue := rfl, cacheInvalidated := rfl }⟩
        | false => exact ⟨rfl, like⟩
  · simp only [valid]
    exact ⟨rfl, like⟩

theorem simulates_answer (use : AbilityUse) : Simulates (Like r depth s) (answer r depth use) (Components.answer use) := by
  cases use with
  | value value => exact (simulates_setValue observes value).map _
  | temp val => exact (simulates_setTemp val).map _
  | resetTemp => exact simulates_resetTemp.map _
  | load root => exact (simulates_load root).map _
  | modifier => exact (simulates_modifier observes).map _
  | save => exact (simulates_save observes).map _

end
end

end LuaAbility

/-- An ability whose file only observes answers every sequence of calls as the ability with the script that its file is. -/
theorem observing_file_is_script (r : Rounding) (depth : Nat) {s : LuaState} (observes : LuaAbility.OnlyObserves s)
    (uses : List AbilityUse) :
    results (LuaAbility.answer r depth) s uses = results answer (LuaAbility.scripted r depth s) uses :=
  Simulates.results (LuaAbility.simulates_answer observes) uses (LuaAbility.like_scripted s)

/-- A file with a function of its own, and a check that sets its parameter. -/
def luckFile : List Lua.Item := [
  .stat (.assign (str "name") (.string (str "Luck"))),
  .stat (.assign (str "shortName") (.string (str "LCK"))),
  .function (str "half") [str "n"] [.ret (.call (.field (.name (str "math")) (str "floor"))
    [.binary .divide (.name (str "n")) (.numeral 2)])],
  .function (str "getModifier") [] [.ret (.binary .add (.call (.name (str "half")) [.call (.name (str "Luck")) []])
    (.call (.name (str "TempLCKBonus")) []))],
  .function (str "checkValueBeforeSet") [str "val"] [
    .assign (str "val") (.call (.name (str "half")) [.name (str "val")]),
    .ret (.binary .less (.name (str "val")) (.numeral 10))]]

def luck : LuaState := finalState (LuaAbility.construct exactRounding 4 luckFile (LuaAbility.initial 8))

theorem onlyObserves_luck : LuaAbility.OnlyObserves luck where
  getModifier := ⟨[str "math", str "half", str "Luck", str "TempLCKBonus"], by decide +kernel, by decide +kernel⟩
  check := ⟨[str "math", str "half"], by decide +kernel, by decide +kernel⟩

theorem observing_file_is_script_luck :
    results (LuaAbility.answer exactRounding 4) luck [.value 14, .temp 2, .modifier, .value 20, .save] =
      results answer (LuaAbility.scripted exactRounding 4 luck) [.value 14, .temp 2, .modifier, .value 20, .save] :=
  observing_file_is_script exactRounding 4 onlyObserves_luck _

namespace LuaAbility

/-! ## The six files -/

section
variable (r : Rounding) (depth : Nat) (name shortName : Bytes) (check : Lua.Expr) (defaultValue : Int32)

def registered (x : Bytes) : Lua.Value HostFunction :=
  if x = setTempBonusName shortName then .native .setTemp
  else if x = tempBonusName shortName then .native .temp
  else if x = name then .native .value
  else if x = shortName then .native .modifier
  else if x = str "checkValueBeforeSet" then .function [str "val"] [.ret check]
  else if x = str "getModifier" then .function [] [.ret (modifierExpr name shortName)]
  else if x = str "shortName" then .string shortName
  else if x = str "name" then .string name
  else openLibraries x

/-- What the constructor leaves of a file. -/
def constructed : LuaState where
  globals := registered name shortName check
  host := ⟨defaultValue, 0, 0, true, name, shortName, .function [] [.ret (modifierExpr name shortName)],
    .function [str "val"] [.ret check]⟩

theorem construct_abilityFile :
    construct r depth (abilityFile name shortName check) (initial defaultValue) =
      .ok () (constructed name shortName check defaultValue) := by
  have ran : construct r depth (abilityFile name shortName check) (initial defaultValue) = .ok () ⟨_, _⟩ := rfl
  rw [ran, constructed]
  congr 2
  funext x
  simp only [Function.update_apply, registered]

end

/-- What `getModifier` names is not registered over. -/
structure Distinct (name shortName : Bytes) : Prop where
  math : str "math" ∉ [name, shortName, tempBonusName shortName, setTempBonusName shortName]
  value : name ∉ [tempBonusName shortName, setTempBonusName shortName]
  temp : tempBonusName shortName ≠ setTempBonusName shortName

section
variable {r : Rounding} {depth : Nat} {name shortName : Bytes} {check : Lua.Expr} {defaultValue : Int32} {t : LuaState}

theorem registered_math (distinct : Distinct name shortName) :
    registered name shortName check (str "math") = .math := by
  obtain ⟨notName, notShortName, notTemp, notSetTemp⟩ : str "math" ≠ name ∧ str "math" ≠ shortName ∧
      str "math" ≠ tempBonusName shortName ∧ str "math" ≠ setTempBonusName shortName := by simpa using distinct.math
  simp only [registered, notName, notShortName, notTemp, notSetTemp, if_false]
  rfl

theorem registered_name (distinct : Distinct name shortName) :
    registered name shortName check name = .native .value := by
  obtain ⟨notTemp, notSetTemp⟩ : name ≠ tempBonusName shortName ∧ name ≠ setTempBonusName shortName := by simpa using distinct.value
  simp only [registered, notTemp, notSetTemp, if_false, if_true]

theorem registered_temp (distinct : Distinct name shortName) :
    registered name shortName check (tempBonusName shortName) = .native .temp := by
  simp only [registered, distinct.temp, if_false, if_true]

theorem onlyObserves_constructed (distinct : Distinct name shortName) (own : ∀ x ∈ check.names, x = str "val") :
    OnlyObserves (constructed name shortName check defaultValue) := by
  constructor
  · refine ⟨[str "math", name, tempBonusName shortName], ?_, ?_⟩
    · intro x mem
      show (registered name shortName check x).Within _
      simp only [List.mem_cons, List.not_mem_nil, or_false] at mem
      rcases mem with rfl | rfl | rfl
      · rw [registered_math distinct]
        trivial
      · rw [registered_name distinct]
        trivial
      · rw [registered_temp distinct]
        trivial
    · intro stat mem
      rw [List.mem_singleton.mp mem]
      intro x named
      right
      show x ∈ [str "math", name, tempBonusName shortName]
      simpa [modifierExpr, Lua.Expr.names, Lua.argNames] using named
  · refine ⟨[], nofun, ?_⟩
    intro stat mem
    rw [List.mem_singleton.mp mem]
    intro x named
    exact .inl (List.mem_singleton.mpr (own x named))

theorem eval_registered {x : Bytes} {n : HostFunction} (registered : t.globals x = .native n) :
    Lua.evalExpr r (call r (depth + 1)) [] (.call (.name x) []) t = native (call r depth) n [] t := by
  rw [Lua.evalExpr_call (Lua.evalExpr_global rfl t) (Lua.evalArgs_nil t), registered]
  rfl

theorem eval_modifierExpr (math : t.globals (str "math") = .math) (value : t.globals name = .native .value)
    (temp : t.globals (tempBonusName shortName) = .native .temp) :
    ∃ n, Lua.evalExpr r (call r (depth + 1)) [] (modifierExpr name shortName) t = .ok (.number n) t ∧
      n.toInt32 = luaModifier r t.host.abilityValue t.host.tempBonus := by
  have valueOf : Lua.evalExpr r (call r (depth + 1)) [] (.call (.name name) []) t = .ok (.number (.push t.host.abilityValue)) t :=
    eval_registered value
  have tempOf : Lua.evalExpr r (call r (depth + 1)) [] (.call (.name (tempBonusName shortName)) []) t =
      .ok (.number (.push t.host.tempBonus)) t := eval_registered temp
  have half : Lua.evalExpr r (call r (depth + 1)) [] (.binary .divide (.call (.name name) []) (.numeral 2)) t =
      .ok (.number ((LuaNumber.push t.host.abilityValue).divide r (.integer 2))) t := by
    rw [Lua.evalExpr_binary valueOf (Lua.evalExpr_numeral 2 t), Lua.Binary.apply, if_neg (by decide)]
    rfl
  have floor : Lua.evalExpr r (call r (depth + 1)) [] (.field (.name (str "math")) (str "floor")) t = .ok .floor t := by
    rw [Lua.evalExpr_field (Lua.evalExpr_global rfl t), math]
    rfl
  have floored := Lua.evalExpr_call floor (Lua.evalArgs_single half)
  have less : Lua.evalExpr r (call r (depth + 1)) [] (.binary .subtract (.call (.field (.name (str "math")) (str "floor"))
      [.binary .divide (.call (.name name) []) (.numeral 2)]) (.numeral 5)) t = .ok (.number
        (((LuaNumber.push t.host.abilityValue).divide r (.integer 2)).floor.subtract r (.integer 5))) t :=
    Lua.evalExpr_binary floored (Lua.evalExpr_numeral 5 t)
  exact ⟨_, Lua.evalExpr_binary less tempOf, rfl⟩

/-- `check` returns what `accepts` says of `val`. -/
def Decides (check : Lua.Expr) (accepts : Int32 → Bool) : Prop :=
  ∀ r (call : Lua.Call HostFunction LuaAbility) value t,
    Lua.evalExpr r call [(str "val", .number (.push value))] check t = .ok (.boolean (accepts value)) t

theorem decides_true : Decides (.boolean true) fun _ => true := fun _ _ _ _ => rfl

theorem decides_belowHundred : Decides belowHundred (· < 100) := by
  intro r call value t
  have val : Lua.evalExpr r call [(str "val", .number (.push value))] (.name (str "val")) t = .ok (.number (.push value)) t := rfl
  have below : ((value.toInt64.toInt : Rat) < (100 : Int64).toInt) ↔ value < 100 := by
    rw [Int.cast_lt, Int32.toInt_toInt64, Int32.lt_iff_toInt_lt]
    rfl
  rw [belowHundred, Lua.evalExpr_binary val (Lua.evalExpr_numeral 100 t)]
  show EStateM.Result.ok (Lua.Value.boolean (decide ((value.toInt64.toInt : Rat) < (100 : Int64).toInt))) t = _
  rw [decide_eq_decide.mpr below]

theorem scriptOf_constructed (distinct : Distinct name shortName) {accepts : Int32 → Bool} (decides : Decides check accepts) :
    scriptOf r (depth + 2) (constructed name shortName check defaultValue) = abilityScript name shortName accepts := by
  have modifier : (scriptOf r (depth + 2) (constructed name shortName check defaultValue)).getModifier =
      (abilityScript name shortName accepts).getModifier := by
    funext value temp
    let t : LuaState := { constructed name shortName check defaultValue with
      host := { (constructed name shortName check defaultValue).host with abilityValue := value, tempBonus := temp } }
    obtain ⟨n, ran, exact⟩ : ∃ n, Lua.evalExpr r (call r (depth + 1)) [] (modifierExpr name shortName) t = .ok (.number n) t ∧
        n.toInt32 = luaModifier r value temp :=
      eval_modifierExpr (registered_math distinct) (registered_name distinct) (registered_temp distinct)
    have called : call r (depth + 2) (.function [] [.ret (modifierExpr name shortName)]) [] t = .ok (.number n) t := by
      rw [call, Lua.callValue_ret]
      exact ran
    show returned (call r (depth + 2) (.function [] [.ret (modifierExpr name shortName)]) [] t) >>= toInt = _
    rw [called]
    show (Except.ok n.toInt32 : Except Fault Int32) = .ok (Int32.ofInt (value.toInt / 2 - 5 + temp.toInt))
    rw [exact, luaModifier_eq]
  have checks : (scriptOf r (depth + 2) (constructed name shortName check defaultValue)).checkValueBeforeSet =
      (abilityScript name shortName accepts).checkValueBeforeSet := by
    show some _ = some _
    congr 1
    funext value
    rw [call, constructed, Lua.callValue_ret]
    exact congrArg (fun outcome => Lua.Value.isTrue <$> returned outcome) (decides r _ value _)
  rw [Script.mk.injEq]
  exact ⟨rfl, rfl, modifier, checks⟩

theorem scripted_constructed (distinct : Distinct name shortName) {accepts : Int32 → Bool} (decides : Decides check accepts) :
    scripted r (depth + 2) (constructed name shortName check defaultValue) =
      Ability.make (abilityScript name shortName accepts) defaultValue := by
  rw [scripted, scriptOf_constructed distinct decides]
  rfl

theorem shipped_abilityFile {path : Bytes} {file : List Lua.Item} (shipped : (path, file) ∈ shippedFiles) :
    ∃ name shortName check accepts, file = abilityFile name shortName check ∧
      shippedScripts path = some (abilityScript name shortName accepts) ∧ Distinct name shortName ∧
      (∀ x ∈ check.names, x = str "val") ∧ Decides check accepts := by
  have distinct : ∀ name shortName, (str "math" ∉ [name, shortName, tempBonusName shortName, setTempBonusName shortName] ∧
      name ∉ [tempBonusName shortName, setTempBonusName shortName] ∧ tempBonusName shortName ≠ setTempBonusName shortName) →
      Distinct name shortName := fun name shortName apart => ⟨apart.1, apart.2.1, apart.2.2⟩
  have own : ∀ x ∈ belowHundred.names, x = str "val" := by simp [belowHundred, Lua.Expr.names]
  simp only [shippedFiles, List.mem_cons, Prod.mk.injEq, List.not_mem_nil, or_false] at shipped
  rcases shipped with ⟨rfl, rfl⟩ | others
  · exact ⟨_, _, _, _, rfl, rfl, distinct _ _ (by decide), by simp [Lua.Expr.names], decides_true⟩
  · rcases others with ⟨rfl, rfl⟩ | ⟨rfl, rfl⟩ | ⟨rfl, rfl⟩ | ⟨rfl, rfl⟩ | ⟨rfl, rfl⟩
    all_goals exact ⟨_, _, _, _, rfl, rfl, distinct _ _ (by decide), own, decides_belowHundred⟩

end

end LuaAbility

/-- The six files, run with the functions that an ability registers, answer every sequence of calls as their scripts. -/
theorem shipped_files_answer (r : Rounding) {depth : Nat} (deep : 2 ≤ depth) {path : Bytes} {file : List Lua.Item}
    (shipped : (path, file) ∈ LuaAbility.shippedFiles) :
    (∀ files, files path = some file → LuaAbility.scripts r depth files path = shippedScripts path) ∧
      ∀ defaultValue, ∃ script s, shippedScripts path = some script ∧
        LuaAbility.construct r depth file (LuaAbility.initial defaultValue) = .ok () s ∧
        ∀ uses, results (LuaAbility.answer r depth) s uses = results answer (Ability.make script defaultValue) uses := by
  obtain ⟨depth, rfl⟩ := Nat.exists_eq_add_of_le' deep
  obtain ⟨name, shortName, check, accepts, rfl, script, distinct, own, decides⟩ := LuaAbility.shipped_abilityFile shipped
  constructor
  · intro files found
    rw [LuaAbility.scripts, found, script, Option.bind_some, LuaAbility.construct_abilityFile]
    exact congrArg some (LuaAbility.scriptOf_constructed distinct decides)
  · intro defaultValue
    refine ⟨_, _, script, LuaAbility.construct_abilityFile r _ name shortName check defaultValue, fun uses => ?_⟩
    rw [← LuaAbility.scripted_constructed distinct decides]
    exact Simulates.results (LuaAbility.simulates_answer (LuaAbility.onlyObserves_constructed distinct own)) uses
      (LuaAbility.like_scripted _)

theorem shipped_files_answer_strength : ∃ script s, shippedScripts (str "./scripts/components/abilities/strength.lua") = some script ∧
    LuaAbility.construct exactRounding 2 LuaAbility.strength (LuaAbility.initial 17) = .ok () s ∧
    ∀ uses, results (LuaAbility.answer exactRounding 2) s uses = results answer (Ability.make script 17) uses :=
  (shipped_files_answer exactRounding (Nat.le_refl 2) (by simp [LuaAbility.shippedFiles])).2 17

end D20Tempest.Components
