import D20Tempest.Server.Runs
import D20Tempest.Server.Saving

namespace D20Tempest.Server
open Foundation Components Characters CharacterManager TcpClient Stoppable

/-! ## Serving, step by step -/

/-- What is stopped inside has released nothing. -/
def keeping {α : Type} (r : Ref) (x : Stoppable World α) : Stoppable World α := ⟨holding r x.run, x.cut⟩

section
variable (host : Host) (c : Ref)

def creatingCharacter (name : Bytes) : Stoppable World Unit := do
  match ← atomic (createCharacter host name (some c)) with
  | none => atomic (sendError host c 409 (str "Unable to create character (already exist?)"))
  | some r => keeping r do
      let character ← atomic (deref r)
      saving host (some character.characterID)
      atomic (saveText host r >>= send c)

def leaving (r : Ref) : Stoppable World Unit := do
  atomic (log (.left c r))
  let character ← atomic (deref r)
  saving host (some character.characterID)

def ending : Stoppable World Unit := do
  (← atomic (clientAt c)).disconnectionHandlers.forM (leaving host c)

/-- One input, with the states that the process can be stopped in. Only saving writes files. -/
def stepping : Input → Stoppable World Unit
  | .data c evt => do
      match asks host (← atomic get) (.data c evt) with
      | some (.create name) =>
          atomic (log (.request c (host.parse evt.text)))
          creatingCharacter host c name
      | _ => atomic (step host (.data c evt))
  | .endOfStream c => do
      if IsOpen (← atomic get) c then
        atomic (onClient c close)
        ending host c
      else return
  | .dump => saving host none
  | i => atomic (step host i)

theorem run_creatingCharacter (name : Bytes) : (creatingCharacter host c name).run = createCharacterHandler host c name := by
  rw [creatingCharacter, createCharacterHandler, run_bind, run_atomic]
  congr 1
  funext answer
  cases answer with
  | none => rfl
  | some r =>
      show holding r _ = holding r _
      congr 1
      rw [run_bind, run_atomic]
      congr 1
      funext character
      rw [run_bind, run_dump, run_atomic]

theorem run_leaving (r : Ref) : (leaving host c r).run = leaveHandler host c r := by
  rw [leaving, leaveHandler, run_bind, run_atomic]
  congr 1
  funext _
  rw [run_bind, run_atomic]
  congr 1
  funext character
  exact run_dump host _

theorem run_ending : (ending host c).run = endEvent host c := by
  rw [ending, endEvent, run_bind, run_atomic]
  congr 1
  funext client
  rw [run_forM]
  congr 1
  funext r
  exact run_leaving host c r

theorem run_stepping (i : Input) : (stepping host i).run = step host i := by
  cases i with
  | data c evt =>
      funext w
      rw [stepping, run_bind, run_atomic, bind_of_ok (get_apply w)]
      split
      · rename_i name asked
        obtain ⟨cl, found, active, other, parsed, cmd⟩ := (asks_data_iff host evt).mp asked
        rw [run_bind, run_atomic, bind_of_ok (log_apply w _), run_creatingCharacter, step_data_of_open host evt found active, if_neg other,
          if_pos parsed, cmd, respond]
      · rfl
  | endOfStream c =>
      funext w
      rw [stepping, run_bind, run_atomic, bind_of_ok (get_apply w), step]
      by_cases isOpen : IsOpen w c
      · rw [if_pos isOpen, whenOpen_of_open isOpen, run_bind, run_atomic, run_ending]
      · rw [if_neg isOpen, whenOpen_of_closed isOpen]
        rfl
  | dump => exact run_dumpAll host
  | _ => rfl

end

/-- A step that an exception ended was stopped there. -/
theorem stops_of_failure {host : Host} {i : Input} {w : World} (fails : (returned (step host i w)).isOk = false) :
    (stepping host i).Stops w (finalState (step host i w)) := by
  right
  rw [run_stepping]
  cases run : step host i w with
  | ok u v =>
      rw [run] at fails
      cases fails
  | error e v => exact ⟨e, rfl⟩

end D20Tempest.Server
