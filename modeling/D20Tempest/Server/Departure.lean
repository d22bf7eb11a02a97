import D20Tempest.Server.Leaving
import D20Tempest.Server.LeaveHandlers

namespace D20Tempest.Server
open Foundation Components Characters CharacterManager TcpClient

/-! ## Connections that come to an end -/

section Definitions
variable {η : Type} (host : Host) (code : η → Code η)

/-- The handlers that are registered with a connection: by the characters that join it, by code that
holds the client, and by handlers of other connections while they run. -/
def registers (c : Ref) (s : Session η) : Occurrence η → List (LeaveHandler η)
  | .input (.endOfStream c') =>
      ((finalState (occur host code (.input (.endOfStream c')) s)).state.handlers c).drop (s.state.handlers c).length
  | .input i => (joins host c s.state.world i).map fun joined => .character joined.1
  | .onLeave c' handler =>
      if c' = c ∧ (s.state.world.clients.get c').isSome then handler.toList.map .other else []

def registered (c : Ref) (files : FileTree) (occurrences : List (Occurrence η)) : List (LeaveHandler η) :=
  gathered (occur host code) (registers host code c) (session files) occurrences

def Ends (c : Ref) : Occurrence η → Prop
  | .input i => Terminates c i
  | .onLeave _ _ => False

end Definitions

/-! ### Calls of handlers -/

section Calls
variable {η : Type} {host : Host} {code : η → Code η} {c : Ref} {s s' : Session η}

end Calls

/-! ### Runs -/

section Runs
variable {η : Type} {host : Host} {code : η → Code η} {c : Ref} {s s' : Session η}

end Runs

def idle {η : Type} (_ : η) : Code η := ⟨pure (), Moves.pure ()⟩

end D20Tempest.Server
