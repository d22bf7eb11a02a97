import D20Tempest.Components.ExactModifier
import D20Tempest.Components.LuaAbility
import D20Tempest.Foundation.LuaJudgements

namespace D20Tempest.Components.LuaAbility
open Foundation

/-- The functions of an ability whose own modifier cannot be asked for. -/
def withoutModifier (call : Lua.Call HostFunction LuaAbility) :
    HostFunction → List (Lua.Value HostFunction) → Action LuaState (Lua.Value HostFunction)
  | .modifier, _ => throw .scriptError
  | n, args => native call n args

def Asks : HostFunction → Prop
  | .setTemp => False
  | _ => True

instance : DecidablePred Asks
  | .modifier | .value | .temp => .isTrue trivial
  | .setTemp => .isFalse id

/-- The code uses these globals only, and none of the library, which could catch an error. -/
def AsksWithin (reads : List Bytes) (v : Lua.Value HostFunction) : Prop :=
  v.Within (.observer (· ∈ reads) Asks) ∧ v.isLibrary = false

instance (reads : List Bytes) (v : Lua.Value HostFunction) : Decidable (AsksWithin reads v) :=
  inferInstanceAs (Decidable (_ ∧ _))

/-- The modifier is computed without a change but for what asking for the own modifier makes. -/
def OnlyAsks (s : LuaState) : Prop :=
  ∃ reads : List Bytes, (∀ x ∈ reads, AsksWithin reads (s.globals x)) ∧ AsksWithin reads s.host.getModifier

section
variable {r : Rounding} {depth more : Nat} {s : LuaState} {m : Int32} {call : Lua.Call HostFunction LuaAbility}

theorem returned_modifier (marked : s.host.cacheInvalidated = true) :
    returned (modifier call s) = .ok m ↔ ∃ v t, call s.host.getModifier [] s = .ok v t ∧ toInt v = .ok m := by
  rw [modifier_apply, if_pos marked, bind_apply, bind_apply]
  cases call s.host.getModifier [] s with
  | error e t => simp [returned]
  | ok v t =>
      cases converted : toInt v with
      | error e => simp [returned, converted]
      | ok n => simp [returned, converted, onHost, map_apply]

section
variable {reads : Bytes → Prop} (within : ∀ x, reads x → (s.globals x).Within (.observer reads Asks))
include within

/-- What is computed without the own modifier is computed with it. -/
theorem follows_with (depth : Nat) : (Lua.following s).Calls (.observer reads Asks)
    (Lua.callValue r withoutModifier depth) (LuaAbility.call r depth) := by
  refine Lua.judge_callValue (Lua.following_permits within) depth 0 ?_ depth (Nat.le_refl depth)
  intro depth _ _ n args asks _ v t ran
  cases n with
  | modifier => cases ran
  | setTemp => exact asks.elim
  | value | temp =>
      cases ran
      exact ⟨rfl, trivial, rfl⟩

/-- As deep as the own modifier does not answer, what is computed with it is computed without it. -/
theorem follows_without {deepest : Nat} (silent : ∀ depth < deepest, ∀ m, returned (modifier (LuaAbility.call r depth) s) ≠ .ok m)
    (more : Nat) : (Lua.following s).Calls (.observer reads Asks) (LuaAbility.call r deepest)
      (Lua.callValue r withoutModifier (deepest + more)) := by
  refine Lua.judge_callValue (Lua.following_permits within) deepest more ?_ deepest (Nat.le_refl deepest)
  intro depth inside _ n args asks _ v t ran
  cases n with
  | modifier =>
      obtain ⟨m, u, answers, -⟩ := bind_eq_ok.mp ran
      exact (silent depth inside m (congrArg returned answers)).elim
  | setTemp => exact asks.elim
  | value | temp =>
      cases ran
      exact ⟨rfl, trivial, rfl⟩

end

theorem exists_first_answer (answers : returned (modifier (LuaAbility.call r depth) s) = .ok m) :
    ∃ least, (∃ n, returned (modifier (LuaAbility.call r least) s) = .ok n) ∧
      ∀ d < least, ¬ ∃ n, returned (modifier (LuaAbility.call r d) s) = .ok n := by
  classical
  have exists_answer : ∃ d n, returned (modifier (LuaAbility.call r d) s) = .ok n := ⟨depth, m, answers⟩
  exact ⟨Nat.find exists_answer, Nat.find_spec exists_answer, fun d => Nat.find_min exists_answer⟩

/-- While the cache is marked, code that asks for the modifier that it is to compute gets no answer: what it computes is what
it computes where the own modifier cannot be asked for. -/
theorem own_modifier_unanswered (r : Rounding) (depth : Nat) (marked : s.host.cacheInvalidated = true) (asks : OnlyAsks s) :
    returned (modifier (LuaAbility.call r depth) s) = .ok m ↔
      returned (modifier (Lua.callValue r withoutModifier depth) s) = .ok m := by
  obtain ⟨reads, asking, within, -⟩ := asks
  have globals : ∀ x ∈ reads, (s.globals x).Within (.observer (· ∈ reads) Asks) := fun x mem => (asking x mem).1
  have with_of_without : ∀ {v t}, Lua.callValue r withoutModifier depth s.host.getModifier [] s = .ok v t →
      LuaAbility.call r depth s.host.getModifier [] s = .ok v s :=
    fun ran => (follows_with globals depth _ [] within nofun _ _ ran).2.2
  constructor
  · intro answers
    obtain ⟨least, ⟨n, first⟩, silent⟩ := exists_first_answer answers
    have enough : least ≤ depth := Nat.le_of_not_lt fun deeper => silent depth deeper ⟨m, answers⟩
    obtain ⟨more, rfl⟩ := Nat.exists_eq_add_of_le enough
    obtain ⟨v, t, ran, -⟩ := (returned_modifier marked).mp first
    obtain ⟨-, -, ran'⟩ := follows_without globals (fun d inside m answers => silent d inside ⟨m, answers⟩) more _ [] within nofun
      v t ran
    obtain ⟨w, u, ranDeep, converted⟩ := (returned_modifier marked).mp answers
    obtain ⟨rfl, -⟩ := EStateM.Result.ok.inj (ranDeep.symm.trans (with_of_without ran'))
    exact (returned_modifier marked).mpr ⟨w, s, ran', converted⟩
  · intro answers
    obtain ⟨v, t, ran, converted⟩ := (returned_modifier marked).mp answers
    exact (returned_modifier marked).mpr ⟨v, s, with_of_without ran, converted⟩

end

/-- `return Luck() < 10 and 0 or LCK()` -/
def askingFile : List Lua.Item := [
  .stat (.assign (str "name") (.string (str "Luck"))),
  .stat (.assign (str "shortName") (.string (str "LCK"))),
  .function (str "getModifier") [] [.ret (.or
    (.and (.binary .less (.call (.name (str "Luck")) []) (.numeral 10)) (.numeral 0))
    (.call (.name (str "LCK")) []))]]

def asking (value : Int32) : LuaState := finalState (construct exactRounding 8 askingFile (initial value))

theorem onlyAsks_asking (value : Int32) : OnlyAsks (asking value) := by
  refine ⟨[str "Luck", str "LCK"], ?_, ?_⟩
  · show ∀ x ∈ [str "Luck", str "LCK"], AsksWithin _ ((asking 0).globals x)
    decide +kernel
  · show AsksWithin _ (asking 0).host.getModifier
    decide +kernel

theorem own_modifier_unanswered_luck : returned (modifier (LuaAbility.call exactRounding 8) (asking 9)) = .ok 0 ∧
    ∀ m, returned (modifier (LuaAbility.call exactRounding 8) (asking 10)) ≠ .ok m := by
  constructor
  · exact (own_modifier_unanswered exactRounding 8 rfl (onlyAsks_asking 9)).mpr rfl
  · intro m answers
    have unanswered := (own_modifier_unanswered exactRounding 8 rfl (onlyAsks_asking 10)).mp answers
    have fails : returned (modifier (Lua.callValue exactRounding withoutModifier 8) (asking 10)) = .error .scriptError := rfl
    rw [fails] at unanswered
    cases unanswered

end D20Tempest.Components.LuaAbility
