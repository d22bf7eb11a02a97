import D20Tempest.Characters.SilentSaves
import D20Tempest.Server.DumpAll

namespace D20Tempest.Server
open Foundation Components Characters CharacterManager

/-! ## The registered characters but for their hidden caches -/

def worldView (w : World) : OrderedMap UInt64 Ref × (Ref → Option Character) :=
  (w.characters, fun r => (w.heap.get r).map Character.visible)

section Views
variable {w v : World} {α : Type}

theorem worldView_modify (r : Ref) (ch : Character) : worldView { w with heap := w.heap.modify r fun _ => ch } =
    ((worldView w).1, fun s => if s = r then ((worldView w).2 r).map fun _ => ch.visible else (worldView w).2 s) := by
  refine Prod.ext rfl (funext fun s => ?_)
  simp only [worldView, Arena.get_modify]
  split
  · cases w.heap.get r <;> rfl
  · rfl

theorem respects_onCharacter (r : Ref) {x : Action Character α} (respects : Respects Character.visible x) :
    Respects worldView (onCharacter r x) := by
  intro w v same
  have found := congrFun (congrArg Prod.snd same) r
  simp only [worldView] at found
  rw [onCharacter, onCharacter]
  cases heldW : w.heap.get r with
  | none =>
      rw [heldW, Option.map_none, eq_comm, Option.map_eq_none_iff] at found
      rw [found]
      exact ⟨rfl, same⟩
  | some c =>
      rw [heldW, Option.map_some, eq_comm, Option.map_eq_some_iff] at found
      obtain ⟨d, heldV, seen⟩ := found
      rw [heldV]
      obtain ⟨result, left⟩ := respects c d seen.symm
      dsimp only
      rcases same_outcome result with ⟨a, runC, runD⟩ | ⟨e, runC, runD⟩
      · rw [runC, runD]
        exact ⟨rfl, by rw [finalState_ok, finalState_ok, worldView_modify, worldView_modify, same, left]⟩
      · rw [runC, runD]
        exact ⟨rfl, by rw [finalState_error, finalState_error, worldView_modify, worldView_modify, same, left]⟩

theorem silent_onCharacter (r : Ref) {x : Action Character α} (silent : Silent Character.visible x) :
    Silent worldView (onCharacter r x) := by
  intro w
  rw [onCharacter]
  cases held : w.heap.get r with
  | none => rfl
  | some c =>
      have left := silent c
      have again : ∀ c', c'.visible = c.visible → worldView { w with heap := w.heap.modify r fun _ => c' } = worldView w := by
        intro c' seen
        rw [worldView_modify]
        refine Prod.ext rfl (funext fun s => ?_)
        by_cases here : s = r
        · subst here
          simp only [worldView, ↓reduceIte, held, Option.map_some, seen]
        · exact if_neg here
      dsimp only
      cases run : x c with
      | ok a c' =>
          rw [run] at left
          exact again c' left
      | error e c' =>
          rw [run] at left
          exact again c' left

end Views

/-! ## What saves characters -/

section Saves
variable (host : Host) (limit : Json.MaxSize)

theorem silent_openStream (name path : Bytes) : Silent worldView (openStream host name path) := by
  have removing : Silent worldView (removeFile host name path) := by
    intro w
    rw [removeFile_apply]
    cases w.files.remove host.cwd path <;> rfl
  have testing : Silent worldView (testFile host name path) := fun w => rfl
  have truncating : Silent worldView (truncateFile host name path) := fun w => rfl
  refine Moves.bind testing fun there => ?_
  split
  · exact Moves.bind removing fun _ => truncating
  · exact truncating

theorem silent_ensureDirectory : Silent worldView (ensureDirectory host) := by
  intro w
  rw [ensureDirectory_apply]
  split <;> rfl

theorem silent_deref (r : Ref) : Silent worldView (deref r) := by
  intro w
  cases found : w.heap.get r <;> simp [deref, bind_apply, found, Unseen]

theorem silent_dumpCharacter (r : Ref) : Silent worldView (dumpCharacter host r) := by
  have writing : ∀ name path text, Silent worldView (writeFile host name path text) := fun _ _ _ w => rfl
  refine Moves.bind (silent_deref r) fun ch => ?_
  refine Moves.bind (silent_openStream host _ _) fun _ => ?_
  exact Moves.bind (silent_onCharacter r Character.silent_save) fun doc => moves_streamDocument (writing _ _) doc

theorem silent_dumpAll : Silent worldView (dumpAll host) := by
  refine Moves.bind (silent_ensureDirectory host) fun _ w => ?_
  rw [bind_of_ok (get_apply w)]
  exact Moves.forM (silent_dumpCharacter host) _ w

theorem silent_dump (id : UInt64) : Silent worldView (dump host id) := by
  intro w
  rw [dump, bind_of_ok (get_apply w)]
  cases w.characters.find id with
  | none => rfl
  | some r => exact Moves.bind (silent_ensureDirectory host) (fun _ => silent_dumpCharacter host r) w

theorem respects_collect (entries : List (UInt64 × Ref)) (dat : Json) : Respects worldView (collect limit entries dat) := by
  induction entries generalizing dat with
  | nil => exact Respects.pure dat
  | cons e rest ih =>
      refine (respects_onCharacter e.2 Character.respects_save).bind fun saved => ?_
      exact (Respects.evaluate _).bind ih

theorem silent_collect (entries : List (UInt64 × Ref)) (dat : Json) : Silent worldView (collect limit entries dat) := by
  induction entries generalizing dat with
  | nil => exact Moves.pure dat
  | cons e rest ih =>
      refine Moves.bind (silent_onCharacter e.2 Character.silent_save) fun saved => ?_
      exact Moves.bind (Moves.evaluate _) ih

theorem respects_dumpAllJson : Respects worldView (dumpAllJson limit) :=
  Respects.get_bind (f := fun entries => collect limit entries .null) (g := fun w => w.characters.entries)
    (fun _ _ same => congrArg (·.1.entries) same) fun entries => respects_collect limit entries .null

theorem silent_dumpAllJson : Silent worldView (dumpAllJson limit) := by
  intro w
  rw [dumpAllJson, bind_of_ok (get_apply w)]
  exact silent_collect limit _ _ w

end Saves

/-! ## Deleting saves -/

inductive SheetCall where
  | ability (r : Ref) (scriptName : Bytes) (use : AbilityUse)
  | save (r : Ref)
  | dumpAllJson
  | dumpAll
  | dump (id : UInt64)

/-- What the call returns; what becomes of the files of a dump is not looked at. -/
def callSheet (host : Host) (limit : Json.MaxSize) : SheetCall → Action World (Option Answer)
  | .ability r scriptName use => onCharacter r (Character.onAbility scriptName (answer use))
  | .save r => (some ∘ .document) <$> onCharacter r Character.save
  | .dumpAllJson => (some ∘ .document) <$> CharacterManager.dumpAllJson limit
  | .dumpAll => (fun _ => none) <$> attempt (CharacterManager.dumpAll host)
  | .dump id => (fun _ => none) <$> attempt (CharacterManager.dump host id)

def SheetCall.Saves : SheetCall → Prop
  | .ability _ _ use => use = .save
  | _ => True

theorem respects_callSheet (host : Host) (limit : Json.MaxSize) (call : SheetCall) :
    Respects worldView (callSheet host limit call) := by
  cases call with
  | ability r scriptName use => exact respects_onCharacter r (Character.respects_onAbility scriptName (Ability.respects_answer use))
  | save r => exact (respects_onCharacter r Character.respects_save).map _
  | dumpAllJson => exact (respects_dumpAllJson limit).map _
  | dumpAll => exact (respects_attempt (silent_dumpAll host)).map _
  | dump id => exact (respects_attempt (silent_dump host id)).map _

theorem silent_callSheet (host : Host) (limit : Json.MaxSize) {call : SheetCall} (saves : call.Saves) :
    Silent worldView (callSheet host limit call) := by
  cases call with
  | ability r scriptName use =>
      obtain rfl : use = .save := saves
      exact silent_onCharacter r (Character.silent_onAbility scriptName (silent_map Ability.silent_save _))
  | save r => exact silent_map (silent_onCharacter r Character.silent_save) _
  | dumpAllJson => exact silent_map (silent_dumpAllJson limit) _
  | dumpAll => exact silent_map (silent_attempt (silent_dumpAll host)) _
  | dump id => exact silent_map (silent_attempt (silent_dump host id)) _

/-- Whatever saves are deleted from the calls on an ability, or on the abilities of the characters of a server, the
others return what they returned. -/
theorem saving_unobservable (host : Host) (limit : Json.MaxSize) (a : Ability) (w : World)
    {uses : List (AbilityUse × Bool)} {calls : List (SheetCall × Bool)}
    (onlySaves : ∀ use, (use, false) ∈ uses → use = .save) (onlySaving : ∀ call, (call, false) ∈ calls → call.Saves) :
    keptResults answer a uses = results answer a (kept uses) ∧
      keptResults (callSheet host limit) w calls = results (callSheet host limit) w (kept calls) := by
  constructor
  · refine keptResults_eq Ability.respects_answer uses (fun use deleted => ?_) rfl
    rw [onlySaves use deleted]
    exact silent_map Ability.silent_save _
  · exact keptResults_eq (respects_callSheet host limit) calls
      (fun call deleted => silent_callSheet host limit (onlySaving call deleted)) rfl

theorem saving_unobservable_strength :
    keptResults answer (.make strength 10) [(.save, false), (.load (valueDocument 20).json, true), (.modifier, true)] =
        results answer (.make strength 10) [.load (valueDocument 20).json, .modifier] ∧
      keptResults (callSheet (.knowing []) sixteenBytes) lastRegistered [(.dumpAll, false), (.dumpAllJson, true)] =
        results (callSheet (.knowing []) sixteenBytes) lastRegistered [.dumpAllJson] :=
  saving_unobservable (.knowing []) sixteenBytes (.make strength 10) lastRegistered (by simp) (by simp [SheetCall.Saves])

end D20Tempest.Server
