import D20Tempest.Server.Robustness
import D20Tempest.Server.Routing

namespace D20Tempest.Server
open Foundation Components Characters CharacterManager TcpClient

/-! ## What the server is for -/

/-- A connection as its peer knows it, and for each character made on it whether the registry keeps it. -/
structure Connection where
  active : Bool
  heloParsed : Bool
  characters : List Bool

/-- The server without its objects: only the character that was created first is ever saved. -/
structure Service where
  files : FileTree
  registered : Option Bytes
  connections : Arena Connection
  replies : List (Ref × Bytes)

namespace Service

def start (files : FileTree) : Service := ⟨files, none, .empty, []⟩

variable (host : Host) (c : Ref)

def reply (msg : Bytes) : Action Service Unit := do
  if 2 ^ 32 ≤ msg.length then
    throw .narrowingError
  modify fun s => { s with replies := s.replies ++ [(c, msg)] }

def onConnection (f : Connection → Connection) : Action Service Unit :=
  modify fun s => { s with connections := s.connections.modify c f }

/-- A character is written as it was created, since nothing changes it. -/
def newText (name : Bytes) : Except Fault Bytes := dumpText host (some 4) (newborn name 0).document

def loadedText (name : Bytes) (data : Json) : Except Fault Bytes :=
  match Character.load host.scripts data (newborn name c) with
  | .error e _ => .error e
  | .ok _ ch => returned (Character.save ch) >>= dumpText host (some 4)

def prepare : Action Service Unit := do
  match readyFiles host (← get).files with
  | some files => modify fun s => { s with files := files }
  | none => throw .filesystemError

def save (name : Bytes) : Action Service Unit := do
  let text ← evaluate (newText host name)
  match savedFiles host (← get).files (charactersPath ++ name) text with
  | some files => modify fun s => { s with files := files }
  | none => throw .filesystemError

def store : Action Service Unit := do
  match (← get).registered with
  | none => return
  | some name =>
      prepare host
      save host name

def storeAll : Action Service Unit := do
  prepare host
  match (← get).registered with
  | none => return
  | some name => save host name

def join (kept : Bool) : Action Service Unit :=
  onConnection c fun connection => { connection with characters := connection.characters ++ [kept] }

def create (name : Bytes) : Action Service Unit := do
  let s ← get
  if s.files.pathExists host.cwd (charactersPath ++ name) then
    reply c (errorText 409 (str "Unable to create character (already exist?)"))
    return
  set { s with registered := some (s.registered.getD name) }
  join c s.registered.isNone
  store host
  reply c (← evaluate (newText host name))

def load (name : Bytes) : Action Service Unit := do
  let s ← get
  if !s.files.pathExists host.cwd (charactersPath ++ name) then
    reply c (errorText 404 (str "Unknown entity"))
    throw .nullPointer
  match savedDocument host s.files name with
  | none => throw .parseError
  | some data =>
      join c false
      reply c (← evaluate (loadedText host c name data))

def answer (connection : Connection) : Command → Action Service Unit
  | .malformed => reply c (errorText 400 (str "JSON malformed"))
  | .incomplete => reply c (errorText 400 (str "Missing elements in JSON"))
  | .mistyped => throw .typeError
  | .create name => create host c name
  | .load name => load host c name
  | .data _ entity _ _ =>
      if entity = abilityEntity ∧ connection.characters ≠ [] then return
      else reply c (errorText 404 (str "Unknown entity"))

def whenActive (x : Connection → Action Service Unit) : Action Service Unit := do
  match (← get).connections.get c with
  | some connection => if connection.active then x connection
  | none => return

/-- Saving through a character that is gone ends the server. -/
def leave (kept : Bool) : Action Service Unit := if kept then store host else throw .danglingPointer

def serve : Input → Action Service Unit
  | .accept _ => modify fun s => { s with connections := s.connections.alloc ⟨true, false, []⟩ }
  | .data c evt => whenActive c fun connection =>
      if IsHelo evt.text then do
        reply c heloReply
        onConnection c fun connection => { connection with heloParsed := true }
      else if connection.heloParsed then answer host c connection (command (host.parse evt.text))
      else reply c (errorText 400 (str "HELO was not received"))
  | .endOfStream c => whenActive c fun connection => do
      onConnection c fun connection => { connection with active := false }
      connection.characters.forM (leave host)
  | .error c readFailed => whenActive c fun _ => do
      if readFailed then onConnection c fun connection => { connection with active := false }
  | .call _ _ => return
  | .dump => storeAll host
  | .outside files => modify fun s => { s with files := files }

def Open (s : Service) (c : Ref) : Prop := ∃ connection, s.connections.get c = some connection ∧ connection.active = true

/-! ### Results -/

section
variable {host c} {s : Service} {name : Bytes}

theorem create_of_taken (exist : s.files.pathExists host.cwd (charactersPath ++ name) = true) : create host c name s =
    reply c (errorText 409 (str "Unable to create character (already exist?)")) s := by
  rw [create, bind_of_ok (get_apply s), exist, if_pos rfl]
  exact congrFun bind_pure_unit s

theorem create_of_free (missing : s.files.pathExists host.cwd (charactersPath ++ name) = false) : create host c name s =
    (join c s.registered.isNone >>= fun _ => store host >>= fun _ => evaluate (newText host name) >>= reply c)
      { s with registered := some (s.registered.getD name) } := by
  rw [create, bind_of_ok (get_apply s), missing, if_neg Bool.false_ne_true]
  rfl

theorem load_of_missing (missing : s.files.pathExists host.cwd (charactersPath ++ name) = false) : load host c name s =
    (reply c (errorText 404 (str "Unknown entity")) >>= fun _ => throw .nullPointer) s := by
  rw [load, bind_of_ok (get_apply s), missing]
  rfl

theorem load_of_found (exist : s.files.pathExists host.cwd (charactersPath ++ name) = true) : load host c name s =
    match savedDocument host s.files name with
      | none => .error .parseError s
      | some data => (join c false >>= fun _ => evaluate (loadedText host c name data) >>= reply c) s := by
  rw [load, bind_of_ok (get_apply s), exist]
  cases savedDocument host s.files name <;> rfl

theorem whenActive_of_get {connection : Connection} (found : s.connections.get c = some connection) (active : connection.active = true)
    (x : Connection → Action Service Unit) : whenActive c x s = x connection s := by
  rw [whenActive, bind_of_ok (get_apply s), found]
  simp only [active, ↓reduceIte]

theorem whenActive_of_closed (closed : ¬ s.Open c) (x : Connection → Action Service Unit) : whenActive c x s = .ok () s := by
  rw [whenActive, bind_of_ok (get_apply s)]
  cases found : s.connections.get c with
  | none => rfl
  | some connection =>
      have inactive : connection.active ≠ true := fun active => closed ⟨connection, found, active⟩
      simp only [inactive]
      rfl

end

/-! ### Data of a connection -/

/-- The command that an input has the service carry out. -/
def asks (s : Service) : Input → Option Command
  | .data c evt => match s.connections.get c with
      | some connection =>
          if connection.active ∧ ¬ IsHelo evt.text ∧ connection.heloParsed then some (command (host.parse evt.text)) else none
      | none => none
  | _ => none

/-- What the service does about the data of a connection. -/
inductive Hears (s : Service) (evt : DataEvent) : Action Service Unit → Prop
  | closed : ¬ s.Open c → asks host s (.data c evt) = none → Hears s evt (pure ())
  | helo : s.Open c → IsHelo evt.text → asks host s (.data c evt) = none → Hears s evt (do
      reply c heloReply
      onConnection c fun connection => { connection with heloParsed := true })
  | early : s.Open c → ¬ IsHelo evt.text → asks host s (.data c evt) = none →
      Hears s evt (reply c (errorText 400 (str "HELO was not received")))
  | request (connection : Connection) : s.connections.get c = some connection → s.Open c → ¬ IsHelo evt.text →
      asks host s (.data c evt) = some (command (host.parse evt.text)) →
      Hears s evt (answer host c connection (command (host.parse evt.text)))

theorem hears (s : Service) (evt : DataEvent) : ∃ x, Hears host c s evt x ∧ serve host (.data c evt) s = x s := by
  by_cases opens : s.Open c
  · obtain ⟨connection, found, active⟩ := opens
    have opens : s.Open c := ⟨connection, found, active⟩
    rw [serve, whenActive_of_get found active]
    by_cases helo : IsHelo evt.text
    · exact ⟨_, .helo opens helo (by simp [asks, found, helo]), by rw [if_pos helo]⟩
    rw [if_neg helo]
    by_cases parsed : connection.heloParsed = true
    · exact ⟨_, .request connection found opens helo (by simp [asks, found, active, helo, parsed]), by rw [if_pos parsed]⟩
    · exact ⟨_, .early opens helo (by simp [asks, found, parsed]), by rw [if_neg parsed]⟩
  · refine ⟨_, .closed opens ?_, whenActive_of_closed opens _⟩
    rw [asks]
    cases found : s.connections.get c with
    | none => rfl
    | some connection => exact if_neg fun both => opens ⟨connection, found, both.1⟩

end Service

/-! ## How the server stands for it -/

def said (events : List Event) : List (Ref × Bytes) := events.filterMap fun
  | .sent c msg => some (c, msg)
  | _ => none

def Connection.of (registered : List Ref) (client : Client) : Connection where
  active := client.active
  heloParsed := client.heloParsed
  characters := client.disconnectionHandlers.map fun r => decide (r ∈ registered)

/-- The one entry of the registry is a character that is as it was created. -/
def Registers (w : World) : Option Bytes → Prop
  | none => w.characters = .empty
  | some name => isUtf8 name = true ∧ ∃ r client, w.characters = OrderedMap.empty.assign createCharacterID r ∧
      w.heap.get r = some (.make createCharacterID name client)

/-- Each character has installed one handler of either kind. -/
structure Tabled (w : World) (client : Client) : Prop where
  known : ∀ r ∈ client.disconnectionHandlers, r < w.heap.next
  dispatch : ∀ entity, client.messageHandlers.find entity =
    if entity = abilityEntity ∧ client.disconnectionHandlers ≠ [] then some client.disconnectionHandlers else none

structure Represents (s : Service) (w : World) : Prop where
  files : w.files = s.files
  replies : said w.events = s.replies
  registry : Registers w s.registered
  connections : w.clients.map (Connection.of w.characters.values) = s.connections
  tables : ∀ c client, w.clients.get c = some client → Tabled w client

/-- Between steps, nobody but the registry keeps a character. -/
def Tidy (w : World) : Prop := ∀ r ch, w.heap.get r = some ch → r ∈ w.characters.values

end D20Tempest.Server
