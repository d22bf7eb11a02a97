import D20Tempest.Server.TcpClient
import D20Tempest.Characters.RoundTrip

namespace D20Tempest.Server
open Foundation Components Characters TcpClient

inductive Input where
  | accept (connectionID : UInt64)
  | data (c : Ref) (evt : DataEvent)
  | endOfStream (c : Ref)
  | error (c : Ref) (readFailed : Bool)
  -- an operation on a character, by whoever holds a pointer to it
  | call (r : Ref) (call : CharacterCall)
  -- `Dump()`, as at the end of `main`
  | dump
  -- someone else changes the files
  | outside (files : FileTree)

def close (client : Client) : Client := { client with active := false }

/-- The event loop delivers nothing from a stream that has ended. -/
def whenOpen (c : Ref) (x : Action World Unit) : Action World Unit := do
  match (← get).clients.get c with
  | some client => if client.active then x
  | none => return

def step (host : Host) : Input → Action World Unit
  | .accept connectionID => modify fun w => { w with clients := w.clients.alloc (Client.make connectionID) }
  | .data c evt => whenOpen c (dataEvent host c evt)
  | .endOfStream c => whenOpen c do
      onClient c close
      endEvent host c
  -- the handler of an ErrorEvent is empty
  | .error c readFailed => whenOpen c do
      if readFailed then onClient c close
  | .call r call => modify fun w =>
      { w with heap := w.heap.modify r fun ch => Character.perform host.scripts ch call }
  | .dump => CharacterManager.dumpAll host
  | .outside files => modify fun w => { w with files := files }

def initial (files : FileTree) : World := ⟨files, .empty, .empty, .empty, []⟩

def Reachable (host : Host) (w : World) : Prop :=
  ∃ files inputs, Run (step host) (initial files) inputs w

theorem whenOpen_of_open {c : Ref} {w : World} (isOpen : IsOpen w c) (x : Action World Unit) :
    whenOpen c x w = x w := by
  obtain ⟨cl, found, active⟩ := isOpen
  rw [whenOpen, bind_of_ok (get_apply w), found]
  simp [active]

theorem whenOpen_of_closed {c : Ref} {w : World} (closed : ¬ IsOpen w c) (x : Action World Unit) :
    whenOpen c x w = .ok () w := by
  rw [whenOpen, bind_of_ok (get_apply w)]
  cases found : w.clients.get c with
  | none => rfl
  | some cl =>
      by_cases active : cl.active = true
      · exact absurd ⟨cl, found, active⟩ closed
      · simp only
        rw [if_neg active]
        rfl

/-! ## Requests about characters -/

def request (action name : Bytes) : Json := Json.ofFields [
  (str "action", .string action),
  (str "entity", .string (str "character")),
  (str "name", .string name)]

def requestText (action name : Bytes) : Bytes := ((request action name).dump (fun _ => []) none).getD []

def Input.request (c : Ref) (action name : Bytes) : Input := .data c (.of (requestText action name))

def Host.hearing (requests : List (Bytes × Bytes)) : Host :=
  .knowing (requests.map fun r => (requestText r.1 r.2, Server.request r.1 r.2))

def helo : DataEvent := .of [0x00, 0xC0, 0xFF, 0xEE]

def welcomed (host : Host) : World := finalState (play (step host) [.accept 0, .data 0 helo] (initial .root))

/-! ## Steps -/

/-- The command that an input has the server carry out. -/
def asks (host : Host) (w : World) : Input → Option Command
  | .data c evt => match w.clients.get c with
      | some cl =>
          if cl.active ∧ ¬ IsHelo evt.text ∧ cl.heloParsed then some (command (host.parse evt.text)) else none
      | none => none
  | _ => none

section Data
variable (host : Host) {c : Ref} {w : World} {cl : Client} (evt : DataEvent)

theorem step_data_of_closed (closed : ¬ IsOpen w c) : step host (.data c evt) w = .ok () w :=
  whenOpen_of_closed closed _

theorem step_data_of_open (found : w.clients.get c = some cl) (active : cl.active = true) :
    step host (.data c evt) w =
      if IsHelo evt.text then .ok () (greeted w c)
      else if cl.heloParsed then
        respond host c (command (host.parse evt.text)) (w.seen [.request c (host.parse evt.text)])
      else .ok () (w.seen [.sent c (errorText 400 (str "HELO was not received"))]) := by
  rw [step, whenOpen_of_open ⟨cl, found, active⟩, dataEvent_apply host found active, parseMsg_eq]
  rfl

theorem asks_data_iff {c : Ref} {cmd : Command} : asks host w (.data c evt) = some cmd ↔
    ∃ cl, w.clients.get c = some cl ∧ cl.active = true ∧ ¬ IsHelo evt.text ∧ cl.heloParsed = true ∧
      command (host.parse evt.text) = cmd := by
  cases found : w.clients.get c with
  | none => simp [asks, found]
  | some cl => simp [asks, found, and_assoc]

end Data

end D20Tempest.Server
