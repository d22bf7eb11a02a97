import D20Tempest.Server.Tables

namespace D20Tempest.Server
open Foundation Components Characters TcpClient

/-! ## Servers and their connections -/

/-- The stream handle of a connection, with the server whose handlers it has. -/
structure Handle where
  server : Nat
  data : Option Ref
  closing : Bool

/-- The servers of a process on its one event loop. -/
structure Network where
  world : World
  handles : Arena Handle
  -- the stream that each client reads from
  clientHandler : Ref → Ref
  -- how many shared pointers each client has
  uses : Ref → Nat
  clients : Nat → OrderedMap UInt64 Ref
  currentClientID : UInt64
  -- what has been accepted so far: the server, the id and the client
  accepted : List (Nat × UInt64 × Ref)

namespace Network

def start (files : FileTree) : Network where
  world := initial files
  handles := .empty
  clientHandler _ := 0
  uses _ := 0
  clients _ := .empty
  currentClientID := 0
  accepted := []

/-! ### Shared pointers -/

def retain (c : Ref) (n : Network) : Network := { n with uses := Function.update n.uses c (n.uses c + 1) }

/-- `TCPHandle::close` -/
def closeHandle (h : Ref) (n : Network) : Network :=
  { n with handles := n.handles.modify h fun handle => { handle with closing := true } }

def destroy (c : Ref) (n : Network) : Network :=
  let closed := n.closeHandle (n.clientHandler c)
  { closed with world := { closed.world with clients := closed.world.clients.free c } }

def drop (c : Ref) (n : Network) : Network :=
  let less := { n with uses := Function.update n.uses c (n.uses c - 1) }
  if n.uses c ≤ 1 then less.destroy c else less

end Network

/-! ### Handlers of a server -/

variable (host : Host)

/-- `TCPClient::TCPClient`, under the next id of the counter that the servers share. -/
def makeClient (clientHandle : Ref) : Action Network Ref := do
  let n ← get
  let client := n.world.clients.next
  let connectionID := n.currentClientID
  set { n with
    world := finalState (step host (.accept connectionID) n.world)
    clientHandler := Function.update n.clientHandler client clientHandle
    uses := Function.update n.uses client 1
    currentClientID := connectionID + 1 }
  return client

/-- Nothing is inserted where the id is taken. -/
def insertClient (server : Nat) (connectionID : UInt64) (client : Ref) : Action Network Unit := modify fun n =>
  match (n.clients server).find connectionID with
  | some _ => n
  | none => { n.retain client with
      clients := Function.update n.clients server ((n.clients server).assign connectionID client) }

def listenEvent (server : Nat) : Action Network Unit := do
  let clientHandle := (← get).handles.next
  let connectionID := (← get).currentClientID
  modify fun n => { n with handles := n.handles.alloc ⟨server, none, false⟩ }
  let client ← makeClient host clientHandle
  modify fun n => { n.retain client with
    handles := n.handles.modify clientHandle fun handle => { handle with data := some client } }
  insertClient server connectionID client
  modify fun n => { n with accepted := n.accepted ++ [(server, connectionID, client)] }
  -- the local pointer of the handler
  modify (·.drop client)

/-- The handler of a `CloseEvent` finds the client through the data of the handle. -/
def closeEvent (h : Ref) : Action Network Unit := do
  match (← get).handles.get h with
  | none => throw .danglingPointer
  | some handle => match handle.data with
      | none => throw .nullPointer
      | some c =>
          modify (·.retain c)
          match (← get).world.clients.get c with
          | none => throw .danglingPointer
          | some client =>
              match ((← get).clients handle.server).find client.id with
              | none => pure ()
              | some entry =>
                  modify fun n => { n with
                    clients := Function.update n.clients handle.server ((n.clients handle.server).erase client.id) }
                  modify (·.drop entry)
              modify (·.drop c)

/-- A handle that was closed is gone after its last event, and its data with it. -/
def closeCallback (h : Ref) : Action Network Unit := do
  closeEvent h
  match ((← get).handles.get h).bind Handle.data with
  | none => modify fun n => { n with handles := n.handles.free h }
  | some c =>
      modify fun n => { n with handles := n.handles.free h }
      modify (·.drop c)

inductive ServerInput where
  | listen (server : Nat)
  -- an event of a connection that was accepted, or what else happens to the world
  | connection (i : Input) (served : ∀ connectionID, i ≠ .accept connectionID)
  | closed (h : Ref)

def onWorld (x : Action World Unit) : Action Network Unit := fun n => match x n.world with
  | .ok u w => .ok u { n with world := w }
  | .error e w => .error e { n with world := w }

def serve : ServerInput → Action Network Unit
  | .listen server => listenEvent host server
  | .connection i _ => onWorld (step host i)
  -- the event loop closes nothing by itself
  | .closed h => do
      match (← get).handles.get h with
      | some handle => if handle.closing then closeCallback h
      | none => return

/-! ## What the servers keep -/

section Results
variable {host} {n n' : Network} {server : Nat}

structure Listened (server : Nat) (n n' : Network) : Prop where
  world : n'.world = { n.world with clients := n.world.clients.alloc (Client.make n.currentClientID) }
  handles : n'.handles = n.handles.alloc ⟨server, some n.world.clients.next, false⟩
  clients : n'.clients = Function.update n.clients server ((n.clients server).insert n.currentClientID n.world.clients.next)
  accepted : n'.accepted = n.accepted ++ [(server, n.currentClientID, n.world.clients.next)]
  currentClientID : n'.currentClientID = n.currentClientID + 1

theorem Network.drop_of_shared {c : Ref} (shared : 1 < n.uses c) :
    n.drop c = { n with uses := Function.update n.uses c (n.uses c - 1) } := if_neg (Nat.not_le.mpr shared)

theorem insertClient_apply (server : Nat) (connectionID : UInt64) (c : Ref) (n : Network) :
    ∃ uses, n.uses c ≤ uses c ∧ insertClient server connectionID c n = .ok () { n with
      uses := uses
      clients := Function.update n.clients server ((n.clients server).insert connectionID c) } := by
  rw [insertClient, modify_apply, OrderedMap.insert]
  cases (n.clients server).find connectionID with
  | none => exact ⟨Function.update n.uses c (n.uses c + 1), by simp, rfl⟩
  | some taken => exact ⟨n.uses, le_refl _, by simp⟩

theorem listenEvent_apply (host : Host) (server : Nat) (n : Network) :
    ∃ n', listenEvent host server n = .ok () n' ∧ Listened server n n' := by
  let c := n.world.clients.next
  let made : Network := { n with
    world := { n.world with clients := n.world.clients.alloc (Client.make n.currentClientID) }
    handles := n.handles.alloc ⟨server, some c, false⟩
    clientHandler := Function.update n.clientHandler c n.handles.next
    uses := Function.update n.uses c 2
    currentClientID := n.currentClientID + 1 }
  obtain ⟨uses, shared, inserts⟩ := insertClient_apply server n.currentClientID c made
  let inserted : Network := { made with
    uses := uses
    clients := Function.update n.clients server ((n.clients server).insert n.currentClientID c)
    accepted := n.accepted ++ [(server, n.currentClientID, c)] }
  have listens : listenEvent host server n = .ok () (inserted.drop c) := by
    simp only [listenEvent, makeClient, bind_apply, get_apply, set_apply, modify_apply, pure_apply, step, finalState_ok,
      Network.retain, Arena.modify_alloc, Function.update_self, Function.update_idem]
    rw [inserts]
  have two : 1 < inserted.uses c := by
    have start : made.uses c = 2 := Function.update_self ..
    exact lt_of_lt_of_le (by rw [start]; exact Nat.one_lt_two) shared
  rw [Network.drop_of_shared two] at listens
  exact ⟨_, listens, rfl, rfl, rfl, rfl, rfl⟩

end Results

/-! ## Runs of the servers -/

def Settled (n : Network) : Prop := ∀ h handle, n.handles.get h = some handle → handle.closing = false

/-- The clients of the servers are the open connections among those they accepted. -/
def Exact (n : Network) : Prop := ∀ server connectionID c, (n.clients server).find connectionID = some c ↔
  (server, connectionID, c) ∈ n.accepted ∧ IsOpen n.world c

/-- No connection comes to its end, and none is accepted under an id that its server still has. -/
def KeepsAll (n : Network) : ServerInput → Prop
  | .listen server => (n.clients server).find n.currentClientID = none
  | .connection i _ => ∀ c, Terminates c i → ¬ IsOpen n.world c
  | .closed _ => True

structure Unclosed (n : Network) : Prop where
  sound : Sound n.world
  settled : Settled n
  older : ∀ e ∈ n.accepted, e.2.2 < n.world.clients.next
  known : ∀ c, IsOpen n.world c → ∃ server connectionID, (server, connectionID, c) ∈ n.accepted

section Runs
variable {host : Host} {n n' : Network} {server : Nat}

theorem unclosed_start (files : FileTree) : Unclosed (.start files) where
  sound := good_initial _ files
  settled h handle found := by cases found
  older e mem := by cases mem
  known c isOpen := by
    obtain ⟨cl, found, -⟩ := isOpen
    cases found

theorem Listened.isOpen_iff (listened : Listened server n n') (c : Ref) :
    IsOpen n'.world c ↔ IsOpen n.world c ∨ c = n.world.clients.next := by
  rw [TcpClient.IsOpen, listened.world, Arena.get_alloc]
  split
  · rename_i same
    exact iff_of_true ⟨_, rfl, rfl⟩ (.inr same)
  · rename_i other
    exact (or_iff_left other).symm

theorem Listened.unclosed (listened : Listened server n n') (unclosed : Unclosed n) : Unclosed n' where
  sound := by
    rw [listened.world]
    exact unclosed.sound
  settled h handle found := by
    rw [listened.handles, Arena.get_alloc] at found
    split at found
    · cases found
      rfl
    · exact unclosed.settled h handle found
  older e mem := by
    rw [listened.accepted] at mem
    rw [listened.world]
    show _ < n.world.clients.next + 1
    rcases List.mem_append.mp mem with before | now
    · exact Nat.lt_succ_of_lt (unclosed.older e before)
    · obtain rfl := List.mem_singleton.mp now
      exact Nat.lt_succ_self _
  known c isOpen := by
    rw [listened.accepted]
    rcases (listened.isOpen_iff c).mp isOpen with before | rfl
    · obtain ⟨server', connectionID, mem⟩ := unclosed.known c before
      exact ⟨server', connectionID, List.mem_append_left _ mem⟩
    · exact ⟨server, n.currentClientID, List.mem_append_right _ (List.mem_singleton.mpr rfl)⟩

theorem Listened.exact_iff (listened : Listened server n n') (unclosed : Unclosed n) (exact : Exact n) :
    Exact n' ↔ (n.clients server).find n.currentClientID = none := by
  have old : ∀ {server connectionID c}, (server, connectionID, c) ∈ n.accepted → c ≠ n.world.clients.next :=
    fun mem => Nat.ne_of_lt (unclosed.older _ mem)
  have table : ∀ server' connectionID, (n'.clients server').find connectionID =
      if server' = server ∧ n.currentClientID = connectionID then
        some (((n.clients server).find n.currentClientID).getD n.world.clients.next)
      else (n.clients server').find connectionID := by
    intro server' connectionID
    rw [listened.clients, Function.update_apply]
    by_cases same : server' = server
    · subst same
      simp [OrderedMap.find_insert]
    · simp [same]
  constructor
  · intro after
    have entry := (after server n.currentClientID n.world.clients.next).mpr
      ⟨by rw [listened.accepted]; simp, (listened.isOpen_iff _).mpr (.inr rfl)⟩
    rw [table, if_pos ⟨rfl, rfl⟩] at entry
    cases taken : (n.clients server).find n.currentClientID with
    | none => rfl
    | some c =>
        rw [taken, Option.getD_some, Option.some.injEq] at entry
        exact absurd entry (old ((exact server n.currentClientID c).mp taken).1)
  · intro free server' connectionID c
    rw [table, listened.accepted, List.mem_append, List.mem_singleton, listened.isOpen_iff, free, Option.getD_none]
    split
    · rename_i key
      obtain ⟨rfl, rfl⟩ := key
      constructor
      · intro entry
        obtain rfl := Option.some.inj entry
        exact ⟨.inr rfl, .inr rfl⟩
      · intro held
        rcases held with ⟨before | now, opens⟩
        · have other := opens.resolve_right (old before)
          simp [(exact server' n.currentClientID c).mpr ⟨before, other⟩] at free
        · rw [(Prod.mk.inj (Prod.mk.inj now).2).2]
    · rename_i other
      rw [exact]
      constructor
      · intro held
        exact ⟨.inl held.1, .inl held.2⟩
      · intro held
        rcases held with ⟨before | now, opens⟩
        · exact ⟨before, opens.resolve_right (old before)⟩
        · obtain ⟨rfl, rest⟩ := Prod.mk.inj now
          exact absurd ⟨rfl, (Prod.mk.inj rest).1.symm⟩ other

/-! ### Events of connections -/

theorem finalState_onWorld (x : Action World Unit) (n : Network) :
    finalState (onWorld x n) = { n with world := finalState (x n.world) } := by
  rw [onWorld]
  cases x n.world <;> rfl

theorem next_step {i : Input} {w : World} (sound : Sound w) (served : ∀ connectionID, i ≠ .accept connectionID) :
    (finalState (step host i w)).clients.next = w.clients.next := by
  by_cases making : ∃ cmd, asks host w i = some cmd ∧ Constructs host w cmd
  · obtain ⟨cmd, asked, constructs⟩ := making
    obtain ⟨c, -, -, -, clients⟩ := step_clients_of_constructs sound asked constructs
    rw [clients]
    rfl
  · rw [step_clients_of_calm host i sound fun cmd asked constructs => making ⟨cmd, asked, constructs⟩]
    cases i with
    | accept connectionID => exact absurd rfl (served connectionID)
    | data c evt =>
        rw [calmClients]
        split <;> rfl
    | endOfStream c =>
        rw [calmClients]
        split <;> rfl
    | error c readFailed =>
        rw [calmClients]
        split <;> rfl
    | _ => rfl

theorem serve_closed (settled : Settled n) (h : Ref) : serve host (.closed h) n = .ok () n := by
  rw [serve, bind_of_ok (get_apply n)]
  cases found : n.handles.get h with
  | none => rfl
  | some handle =>
      simp only [settled h handle found]
      rfl

theorem unclosed_serve (host : Host) (unclosed : Unclosed n) (i : ServerInput) : Unclosed (finalState (serve host i n)) := by
  cases i with
  | listen server =>
      obtain ⟨n', run, listened⟩ := listenEvent_apply host server n
      rw [serve, run, finalState_ok]
      exact listened.unclosed unclosed
  | connection i served =>
      rw [serve, finalState_onWorld]
      refine ⟨(stepped host i unclosed.sound fun _ _ _ _ => trivial).good, unclosed.settled, ?_, ?_⟩
      · intro e mem
        show _ < (finalState (step host i n.world)).clients.next
        rw [next_step unclosed.sound served]
        exact unclosed.older e mem
      · intro c isOpen
        exact unclosed.known c ((isOpen_step host c i unclosed.sound served).mp isOpen).1
  | closed h =>
      rw [serve_closed unclosed.settled]
      exact unclosed

theorem exact_serve_iff (host : Host) (unclosed : Unclosed n) (exact : Exact n) (i : ServerInput) :
    Exact (finalState (serve host i n)) ↔ KeepsAll n i := by
  cases i with
  | listen server =>
      obtain ⟨n', run, listened⟩ := listenEvent_apply host server n
      rw [serve, run, finalState_ok]
      exact listened.exact_iff unclosed exact
  | connection i served =>
      have opens := fun c => isOpen_step host c i unclosed.sound served
      rw [serve, finalState_onWorld, KeepsAll]
      constructor
      · intro after c last isOpen
        obtain ⟨server, connectionID, mem⟩ := unclosed.known c isOpen
        have entry := (exact server connectionID c).mpr ⟨mem, isOpen⟩
        have still := ((after server connectionID c).mp entry).2
        exact ((opens c).mp still).2 last
      · intro stays server connectionID c
        show _ ↔ _ ∧ IsOpen (finalState (step host i n.world)) c
        rw [exact, opens]
        constructor
        · intro held
          exact ⟨held.1, held.2, fun last => stays c last held.2⟩
        · intro held
          exact ⟨held.1, held.2.1⟩
  | closed h =>
      rw [serve_closed unclosed.settled]
      exact iff_of_true exact trivial

theorem reachable_of_serve {files : FileTree} {inputs : List ServerInput}
    (run : Run (serve host) (.start files) inputs n) : Unclosed n ∧ Reachable host n.world := by
  refine run.always (P := fun n => Unclosed n ∧ Reachable host n.world) ⟨unclosed_start files, files, [], rfl⟩ ?_
  intro n i n' inv taken
  obtain ⟨unclosed, files, inputs, run⟩ := inv
  have next := unclosed_serve host unclosed i
  rw [taken, finalState_ok] at next
  refine ⟨next, files, ?_⟩
  cases i with
  | listen server =>
      obtain ⟨n₁, listens, listened⟩ := listenEvent_apply host server n
      obtain ⟨-, rfl⟩ := EStateM.Result.ok.inj (listens.symm.trans taken)
      exact ⟨inputs ++ [.accept n.currentClientID], run_snoc.mpr ⟨_, run, by rw [listened.world]; rfl⟩⟩
  | connection i served =>
      rw [serve, onWorld] at taken
      cases steps : step host i n.world with
      | ok u w =>
          rw [steps] at taken
          obtain ⟨-, rfl⟩ := EStateM.Result.ok.inj taken
          exact ⟨inputs ++ [i], run_snoc.mpr ⟨_, run, steps⟩⟩
      | error e w =>
          rw [steps] at taken
          cases taken
  | closed h =>
      rw [serve_closed unclosed.settled] at taken
      obtain ⟨-, rfl⟩ := EStateM.Result.ok.inj taken
      exact ⟨inputs, run⟩

end Runs

/-- In every state without outstanding closes the servers have exactly their open connections, as long as
no connection ends or fails and the ids of the accepted ones are free: a client is never removed. -/
theorem exact_iff_keepsAll (host : Host) (files : FileTree) (inputs : List ServerInput) :
    Meets (serve host) (fun n i => Settled (finalState (serve host i n)) → Exact (finalState (serve host i n)))
        (.start files) inputs ↔
      Meets (serve host) KeepsAll (.start files) inputs := by
  refine meets_congr (I := fun n => Unclosed n ∧ Exact n) ⟨unclosed_start files, ?_⟩ ?_ ?_
  · intro server connectionID c
    constructor
    · intro found
      cases found
    · intro held
      cases held.1
  · intro n i inv
    have settled := (unclosed_serve host inv.1 i).settled
    exact (forall_prop_of_true settled).trans (exact_serve_iff host inv.1 inv.2 i)
  · intro n i n' inv keeps taken
    have next := unclosed_serve host inv.1 i
    have exact := (exact_serve_iff host inv.1 inv.2 i).mpr keeps
    rw [taken] at next exact
    exact ⟨next, exact⟩

/-- The peer has left, and its client is still there. -/
theorem ended_connection_stays : ¬ Meets (serve (.knowing []))
    (fun n i => Settled (finalState (serve (.knowing []) i n)) → Exact (finalState (serve (.knowing []) i n)))
    (.start .root) [.listen 0, .connection (.endOfStream 0) nofun] := by
  intro met
  have run := run_play (serve (.knowing [])) (.start .root) [.listen 0] (by decide +kernel)
  have settled := (unclosed_serve (.knowing []) (reachable_of_serve run).1 (.connection (.endOfStream 0) nofun)).settled
  have opens := ((met.of_run run settled 0 0 0).mp (by decide +kernel)).2
  revert opens
  decide +kernel

end D20Tempest.Server
