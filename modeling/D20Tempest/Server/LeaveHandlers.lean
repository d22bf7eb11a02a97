import D20Tempest.Foundation.Watched
import D20Tempest.Server.Tables

namespace D20Tempest.Server
open Foundation Components Characters CharacterManager TcpClient

/-! ## Ended connections -/

section Departed
variable {host : Host} {c : Ref} {w w' : World}

def Departed (clients : Arena Client) (c : Ref) : Prop := ∃ cl, clients.get c = some cl ∧ cl.active = false

end Departed

/-! ## Leave handlers -/

def leaveTable : HandlerTable where
  handlers := Client.disconnectionHandlers
  fresh _ := rfl
  adopts _ _ := rfl
  parsed _ := rfl
  closed _ := rfl

/-- What is called when a connection ends: the function that a character has registered, or one of other code. -/
inductive LeaveHandler (η : Type) where
  | character (r : Ref)
  | other (h : η)
  deriving DecidableEq

/-- The server, with all the handlers that are registered with its connections. -/
structure Lobby (η : Type) where
  world : World
  handlers : Ref → List (LeaveHandler η)

def Lobby.onLeave {η : Type} (l : Lobby η) (c : Ref) : Option η → Lobby η
  | none => l
  | some h => match l.world.clients.get c with
      | some _ => { l with handlers := Function.update l.handlers c (l.handlers c ++ [.other h]) }
      | none => l

/-- Other code does what it likes, but it cannot take back what was registered, nor open a connection again. -/
structure Considerate {η : Type} (l l' : Lobby η) : Prop where
  sound : Sound l'.world
  handlers : ∀ c, l.handlers c <+: l'.handlers c
  departed : ∀ c, Departed l.world.clients c → Departed l'.world.clients c

def Considerately {η : Type} (l l' : Lobby η) : Prop := Sound l.world → Considerate l l'

structure Code (η : Type) where
  run : Action (Lobby η) Unit
  considerately : Moves Considerately run

section Handlers
variable {η : Type}

/-- The handlers that characters have added to those of a connection. -/
def arrived (w w' : World) (c : Ref) : List (LeaveHandler η) :=
  ((leaveTable.on w'.clients c).drop (leaveTable.on w.clients c).length).map .character

def Lobby.after (l : Lobby η) (w : World) : Lobby η where
  world := w
  handlers c := l.handlers c ++ arrived l.world w c

def inWorld (x : Action World Unit) : Action (Lobby η) Unit := fun l =>
  match x l.world with
  | .ok u w => .ok u (l.after w)
  | .error e w => .error e (l.after w)

variable (host : Host) (code : η → Code η)

def react (c : Ref) : LeaveHandler η → Action (Lobby η) Unit
  | .character r => inWorld (leaveHandler host c r)
  | .other h => (code h).run

/-- A handler as the loop over the handlers of a connection calls it. -/
def callHandler (c : Ref) (handler : LeaveHandler η) : Action (Lobby η) Unit := do
  let before := (← get).handlers c
  react host code c handler
  -- the loop is left without its iterators if the handlers are more than they were
  if before.length < ((← get).handlers c).length then
    throw .danglingPointer

inductive Occurrence (η : Type) where
  | input (i : Input)
  -- code that holds the client registers a handler, or a null one
  | onLeave (c : Ref) (handler : Option η)

abbrev Session (η : Type) := Watched (Lobby η) (Ref × LeaveHandler η)

def endOfStream (c : Ref) : Action (Session η) Unit := do
  match (← get).state.world.clients.get c with
  | some client => if client.active then
      unwatched (inWorld (onClient c close))
      ((← get).state.handlers c).forM fun h => watch (c, h) (callHandler host code c h)
  | none => return

def occur : Occurrence η → Action (Session η) Unit
  | .input (.endOfStream c) => endOfStream host code c
  | .input i => unwatched (inWorld (step host i))
  | .onLeave c handler => unwatched (modify fun l => l.onLeave c handler)

def session (files : FileTree) : Session η := ⟨⟨initial files, fun _ => []⟩, []⟩

end Handlers

/-! ## Steps -/

section Steps
variable {η : Type} {host : Host} {code : η → Code η} {c : Ref} {w w' : World} {l : Lobby η} {s : Session η}

instance : Std.Refl (Considerately (η := η)) := ⟨fun _ sound => ⟨sound, fun _ => List.prefix_rfl, fun _ => id⟩⟩

instance : IsTrans (Lobby η) Considerately where
  trans _ _ _ first second sound := by
    have before := first sound
    have after := second before.sound
    exact ⟨after.sound, fun c => (before.handlers c).trans (after.handlers c), fun c => after.departed c ∘ before.departed c⟩

theorem handlers_after (l : Lobby η) (w : World) (c : Ref) : (l.after w).handlers c = l.handlers c ++ arrived l.world w c := rfl

theorem arrived_of_clients_eq (same : w'.clients = w.clients) (c : Ref) : arrived (η := η) w w' c = [] := by
  rw [arrived, same, List.drop_length, List.map_nil]

theorem sound_step (host : Host) (i : Input) (sound : Sound w) : Sound (finalState (step host i w)) :=
  (stepped host i sound fun _ _ _ _ => trivial).good

def ended (w : World) (c : Ref) : World := { w with clients := w.clients.modify c close }

def Lobby.ended (l : Lobby η) (c : Ref) : Lobby η := { l with world := Server.ended l.world c }

theorem after_ended (l : Lobby η) (c : Ref) : l.after (ended l.world c) = l.ended c := by
  have kept : ∀ c', arrived (η := η) l.world (ended l.world c) c' = [] := by
    intro c'
    have same := leaveTable.on_modify l.world.clients c c' (f := close) fun _ => rfl
    rw [arrived, ended, same, List.drop_length, List.map_nil]
  simp only [Lobby.after, kept, List.append_nil]
  rfl

theorem endOfStream_of_open (isOpen : IsOpen s.state.world c) : endOfStream host code c s =
    ((s.state.handlers c).forM fun h => watch (c, h) (callHandler host code c h)) ⟨s.state.ended c, s.calls⟩ := by
  obtain ⟨cl, found, active⟩ := isOpen
  have closes : unwatched (inWorld (onClient c close)) s = .ok () ⟨s.state.ended c, s.calls⟩ := by
    rw [← after_ended]
    rfl
  rw [endOfStream, bind_of_ok (get_apply s), found]
  simp only
  rw [if_pos active, bind_of_ok closes, bind_of_ok (get_apply _)]
  rfl

theorem endOfStream_of_closed (closed : ¬ IsOpen s.state.world c) : endOfStream host code c s = .ok () s := by
  rw [endOfStream, bind_of_ok (get_apply s)]
  cases found : s.state.world.clients.get c with
  | none => rfl
  | some cl =>
      have ended : cl.active = false := by
        by_contra active
        exact closed ⟨cl, found, by simpa using active⟩
      simp [ended]

end Steps

/-! ## The server alone -/

section Alone
variable {η : Type} {host : Host} {code : η → Code η}

/-- Nobody but its characters has registered a handler with the server. -/
structure Alone (s : Session η) (w : World) : Prop where
  world : s.state.world = w
  sound : Sound w
  handlers : ∀ c, s.state.handlers c = (leaveTable.on w.clients c).map .character

theorem alone_after {s : Session η} {w : World} (alone : Alone s w) {w' : World} (sound : Sound w')
    (grows : ∀ c, leaveTable.on w.clients c <+: leaveTable.on w'.clients c) (calls : List (Ref × LeaveHandler η)) :
    Alone ⟨s.state.after w', calls⟩ w' where
  world := rfl
  sound := sound
  handlers c := by
    obtain ⟨more, eq⟩ := grows c
    rw [handlers_after, alone.handlers, arrived, alone.world, ← eq, List.drop_left, List.map_append]

theorem simulates_inWorld {x : Action World Unit} (sound : ∀ w, Sound w → Sound (finalState (x w)))
    (grows : ∀ w c, Sound w → leaveTable.on w.clients c <+: leaveTable.on (finalState (x w)).clients c) :
    Simulates (Alone (η := η)) (unwatched (inWorld x)) x := by
  intro s w alone
  obtain rfl := alone.world
  have after := alone_after alone (sound _ alone.sound) (fun c => grows _ c alone.sound) s.calls
  unfold unwatched inWorld
  cases run : x s.state.world with
  | ok u w' =>
      rw [run] at after
      exact ⟨rfl, after⟩
  | error e w' =>
      rw [run] at after
      exact ⟨rfl, after⟩

theorem callHandler_character (c r : Ref) {l : Lobby η} (sound : Sound l.world) :
    callHandler host code c (.character r) l = inWorld (leaveHandler host c r) l := by
  have quiet : Quiet host (fun _ => True) l.world (finalState (leaveHandler host c r l.world)) :=
    quietly_leaveHandler c r l.world sound
  rw [callHandler, bind_of_ok (get_apply l), react]
  cases run : leaveHandler host c r l.world with
  | ok u w =>
      rw [run, finalState_ok] at quiet
      have calls : inWorld (leaveHandler host c r) l = .ok () (l.after w) := by rw [inWorld, run]
      have same : (l.after w).handlers c = l.handlers c := by
        rw [handlers_after, arrived_of_clients_eq quiet.clients, List.append_nil]
      rw [bind_of_ok calls, bind_of_ok (get_apply _), same, if_neg (Nat.lt_irrefl _), calls]
      rfl
  | error e w =>
      have calls : inWorld (leaveHandler host c r) l = .error e (l.after w) := by rw [inWorld, run]
      rw [bind_of_error calls, calls]

theorem simulates_callHandler (c r : Ref) :
    Simulates (Alone (η := η)) (watch (c, .character r) (callHandler host code c (.character r))) (leaveHandler host c r) := by
  have quiet : Moves (Quietly host fun _ => True) (leaveHandler host c r) := quietly_leaveHandler c r
  have calls : Simulates (Alone (η := η)) (unwatched (inWorld (leaveHandler host c r))) (leaveHandler host c r) := by
    apply simulates_inWorld
    · intro w sound
      exact (quiet w sound).good sound
    · intro w c' sound
      exact (quiet w sound).clients.symm ▸ List.prefix_rfl
  intro s w alone
  have seen : Alone ⟨s.state, s.calls ++ [(c, .character r)]⟩ w := ⟨alone.world, alone.sound, alone.handlers⟩
  have plain : callHandler host code c (.character r) s.state = inWorld (leaveHandler host c r) s.state :=
    callHandler_character c r (alone.world ▸ alone.sound)
  have same : watch (c, .character r) (callHandler host code c (.character r)) s =
      unwatched (inWorld (leaveHandler host c r)) ⟨s.state, s.calls ++ [(c, .character r)]⟩ :=
    (watch_apply ..).trans (unwatched_congr plain)
  rw [same]
  exact calls _ _ seen

theorem simulates_endOfStream (c : Ref) : Simulates Alone (endOfStream host code c) (step host (.endOfStream c)) := by
  intro s w alone
  obtain rfl := alone.world
  by_cases isOpen : IsOpen s.state.world c
  · have opens := isOpen
    obtain ⟨cl, found, -⟩ := isOpen
    have looked : clientAt c (ended s.state.world c) = .ok (close cl) (ended s.state.world c) := by
      apply clientAt_of_get
      rw [ended, Arena.get_modify_self, found, Option.map_some]
    have left : step host (.endOfStream c) s.state.world =
        (close cl).disconnectionHandlers.forM (leaveHandler host c) (ended s.state.world c) := by
      rw [step, whenOpen_of_open opens, bind_of_ok (onClient_apply _ c close), endEvent]
      exact bind_of_ok looked
    have registered : leaveTable.on s.state.world.clients c = (close cl).disconnectionHandlers := by
      simp [HandlerTable.on, found, leaveTable, close]
    have handlers : s.state.handlers c = (close cl).disconnectionHandlers.map .character := by
      rw [alone.handlers, registered]
    have closed : Alone ⟨s.state.ended c, s.calls⟩ (ended s.state.world c) := by
      have sound : Sound (ended s.state.world c) := alone.sound
      rw [← after_ended]
      refine alone_after alone sound (fun c' => ?_) s.calls
      have same := leaveTable.on_modify s.state.world.clients c c' (f := close) fun _ => rfl
      exact same.symm ▸ List.prefix_rfl
    have loop : Simulates Alone (((close cl).disconnectionHandlers.map .character).forM fun h => watch (c, h) (callHandler host code c h))
        ((close cl).disconnectionHandlers.forM (leaveHandler host c)) := by
      rw [List.forM_eq_forM, List.forM_map]
      exact Simulates.forM _ fun r _ => simulates_callHandler c r
    rw [endOfStream_of_open opens, handlers, left]
    exact loop _ _ closed
  · rw [endOfStream_of_closed isOpen, step, whenOpen_of_closed isOpen]
    exact ⟨rfl, alone⟩

/-- As long as no other code registers handlers, this is the server. -/
theorem simulates_occur (i : Input) : Simulates Alone (occur host code (.input i)) (step host i) := by
  have serves : Simulates (Alone (η := η)) (unwatched (inWorld (step host i))) (step host i) := by
    apply simulates_inWorld
    · intro w sound
      exact sound_step host i sound
    · intro w c sound
      rw [leaveTable.on_step host sound i c]
      exact List.prefix_append _ _
  cases i with
  | endOfStream c => exact simulates_endOfStream c
  | _ => exact serves

theorem alone_play (files : FileTree) (inputs : List Input) :
    returned (play (occur host code) (inputs.map .input) (session files)) = returned (play (step host) inputs (initial files)) ∧
      Alone (finalState (play (occur host code) (inputs.map .input) (session files)))
        (finalState (play (step host) inputs (initial files))) := by
  have start : Alone (session (η := η) files) (initial files) := ⟨rfl, good_initial _ files, fun _ => rfl⟩
  have plays : Simulates Alone (play (occur host code) (inputs.map .input)) (play (step host) inputs) := by
    induction inputs with
    | nil => exact Simulates.pure ()
    | cons i rest ih => exact (simulates_occur i).bind fun _ => ih
  exact plays _ _ start

end Alone

end D20Tempest.Server
