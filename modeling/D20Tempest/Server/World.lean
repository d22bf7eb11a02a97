import D20Tempest.Characters.Document
import D20Tempest.Foundation.FileTree
import D20Tempest.Foundation.JsonOutput

namespace D20Tempest.Server
open Foundation Components Characters

/-- What the server runs on. `parse` is `json::parse` without exceptions, `read` is `operator>>` with
them; the JSON lexer takes a NUL byte for the end of the text, checks the encoding of strings, and
passes over white space around a text that has no byte order mark. -/
structure Host where
  parse : Bytes → Json
  read : Bytes → Option Json
  number : Rat → Bytes
  scripts : ScriptStore
  bigEndian : Bool
  cwd : Path
  parse_nul : ∀ rest, parse (0 :: rest) = .discarded
  parse_utf8 : ∀ text, (parse text).utf8 = true
  parse_blanks : ∀ before text after, (∀ b ∈ before, isBlank b) → (∀ b ∈ after, isBlank b) →
    text.head? ≠ some 0xEF → parse (before ++ text ++ after) = parse text

def Host.knowing (known : List (Bytes × Json)) : Host where
  parse text := match known.find? fun e => e.1 = trim text ∧ e.1.head? ≠ some 0 ∧ e.2.utf8 with
    | some e => e.2
    | none => .discarded
  read text := (known.find? (·.1 = text)).map Prod.snd
  number _ := []
  scripts := shippedScripts
  bigEndian := false
  cwd := []
  parse_nul rest := by
    rw [List.find?_eq_none.mpr]
    intro e _ found
    simp only [decide_eq_true_eq] at found
    exact found.2.1 (found.1 ▸ trim_nul rest)
  parse_utf8 text := by
    split
    · rename_i e found
      have kept := List.find?_some found
      simp only [decide_eq_true_eq] at kept
      exact kept.2.2
    · rfl
  parse_blanks before text after first last _ := by rw [trim_blanks first last]

def errorDocument (code : Int64) (msg : Bytes) : Json :=
  Json.ofFields [(str "code", .integer code), (str "msg", .string msg)]

/-! ## Clients -/

/-- One connection. The handlers are known by the object they capture. -/
structure Client where
  id : UInt64
  messageHandlers : OrderedMap Bytes (List Ref)
  disconnectionHandlers : List Ref
  heloParsed : Bool
  active : Bool

namespace Client

def make (connectionID : UInt64) : Client := ⟨connectionID, .empty, [], false, true⟩

def onMessage (client : Client) (path : Bytes) : Option Ref → Client
  | none => client
  | some handler =>
      let toUpperPath := upperCase path
      let handlers := client.messageHandlers.insert toUpperPath []
      { client with
        messageHandlers := handlers.assign toUpperPath ((handlers.find toUpperPath).getD [] ++ [handler]) }

def onLeave (client : Client) : Option Ref → Client
  | none => client
  | some handler => { client with disconnectionHandlers := client.disconnectionHandlers ++ [handler] }

end Client

/-! ## The world -/

inductive Access where
  | test | read | remove | truncate | write
  deriving DecidableEq

/-- What is seen of the server. No step depends on what was seen before. -/
inductive Event where
  -- a call of the file system on the path of a character of that name
  | file (access : Access) (name path : Bytes)
  -- the manager has returned a character to a client
  | obtained (client : Option Ref) (character : Ref)
  -- a text was handed to `ParseMsg`
  | request (client : Ref) (docJson : Json)
  | called (client handler : Ref) (entity action : Bytes) (data : Json)
  | left (client handler : Ref)
  | sent (client : Ref) (msg : Bytes)

structure World where
  files : FileTree
  heap : Arena Character
  characters : OrderedMap UInt64 Ref
  clients : Arena Client
  events : List Event

namespace World

def seen (w : World) (events : List Event) : World := { w with events := w.events ++ events }

@[simp] theorem seen_files (w : World) (events : List Event) : (w.seen events).files = w.files := rfl
@[simp] theorem seen_heap (w : World) (events : List Event) : (w.seen events).heap = w.heap := rfl
@[simp] theorem seen_clients (w : World) (events : List Event) : (w.seen events).clients = w.clients := rfl
@[simp] theorem seen_seen (w : World) (before after : List Event) :
    (w.seen before).seen after = w.seen (before ++ after) := by simp [seen]

end World

variable {α : Type}

def log (e : Event) : Action World Unit := modify (·.seen [e])

/-! ## Objects -/

def deref (r : Ref) : Action World Character := do
  match (← get).heap.get r with
  | some c => return c
  | none => throw .danglingPointer

def onCharacter (r : Ref) (x : Action Character α) : Action World α := fun w =>
  match w.heap.get r with
  | none => .error .danglingPointer w
  | some c => match x c with
      | .ok a c' => .ok a { w with heap := w.heap.modify r fun _ => c' }
      | .error e c' => .error e { w with heap := w.heap.modify r fun _ => c' }

/-- The last pointer outside the registry goes away. -/
def release (r : Ref) (w : World) : World :=
  if r ∈ w.characters.values then w else { w with heap := w.heap.free r }

@[simp] theorem release_files (r : Ref) (w : World) : (release r w).files = w.files := by
  unfold release
  split <;> rfl

@[simp] theorem release_characters (r : Ref) (w : World) : (release r w).characters = w.characters := by
  unfold release
  split <;> rfl

@[simp] theorem release_clients (r : Ref) (w : World) : (release r w).clients = w.clients := by
  unfold release
  split <;> rfl

@[simp] theorem release_events (r : Ref) (w : World) : (release r w).events = w.events := by
  unfold release
  split <;> rfl

/-- A local pointer to the object lives as long as the code that runs. -/
def holding (r : Ref) (x : Action World α) : Action World α := fun w =>
  match x w with
  | .ok a w' => .ok a (release r w')
  | .error e w' => .error e (release r w')

/-- The pointer is returned, and lost only by an exception. -/
def unlessThrown (r : Ref) (x : Action World α) : Action World α := fun w =>
  match x w with
  | .ok a w' => .ok a w'
  | .error e w' => .error e (release r w')

def clientAt (c : Ref) : Action World Client := do
  match (← get).clients.get c with
  | some client => return client
  | none => throw .danglingPointer

def onClient (c : Ref) (f : Client → Client) : Action World Unit :=
  modify fun w => { w with clients := w.clients.modify c f }

/-! ## Files -/

section Files
variable (host : Host) (name path : Bytes)

def testFile : Action World Bool := do
  log (.file .test name path)
  return (← get).files.pathExists host.cwd path

def readFile : Action World (Option Bytes) := do
  log (.file .read name path)
  return (← get).files.read host.cwd path

def removeFile : Action World Unit := do
  log (.file .remove name path)
  match (← get).files.remove host.cwd path with
  | some files => modify fun w => { w with files := files }
  | none => throw .filesystemError

/-- An `ofstream` that cannot be opened is not noticed. -/
def truncateFile : Action World Unit := do
  log (.file .truncate name path)
  modify fun w => { w with files := (w.files.openTruncated host.cwd path).getD w.files }

def writeFile (text : Bytes) : Action World Unit := do
  log (.file .write name path)
  modify fun w => { w with files := w.files.write host.cwd path text }

end Files

/-! ## Results -/

section Results
variable (host : Host) (name path : Bytes) (w : World)

@[simp] theorem log_apply (e : Event) : log e w = .ok () (w.seen [e]) := rfl

theorem forM_log_returns (e : Ref → Event) (rs : List Ref) :
    rs.forM (fun r => log (e r)) w = .ok () (w.seen (rs.map e)) := by
  induction rs generalizing w with
  | nil => simp [World.seen]
  | cons r rs ih =>
      show (log (e r) >>= fun _ => rs.forM fun r => log (e r)) w = _
      rw [bind_of_ok (log_apply w (e r)), ih, World.seen_seen]
      rfl

theorem deref_of_get {r : Ref} {ch : Character} (found : w.heap.get r = some ch) :
    deref r w = .ok ch w := by
  simp [deref, bind_apply, found]

theorem deref_ok_iff {r : Ref} {ch : Character} {w' : World} :
    deref r w = .ok ch w' ↔ w.heap.get r = some ch ∧ w' = w := by
  cases found : w.heap.get r <;> simp [deref, bind_apply, found, eq_comm]

theorem clientAt_of_get {c : Ref} {cl : Client} (found : w.clients.get c = some cl) :
    clientAt c w = .ok cl w := by
  simp [clientAt, bind_apply, found]

theorem onClient_apply (c : Ref) (f : Client → Client) :
    onClient c f w = .ok () { w with clients := w.clients.modify c f } := rfl

theorem onCharacter_ok_iff {r : Ref} {x : Action Character α} {a : α} {w' : World} :
    onCharacter r x w = .ok a w' ↔ ∃ ch ch', w.heap.get r = some ch ∧ x ch = .ok a ch' ∧
      w' = { w with heap := w.heap.modify r fun _ => ch' } := by
  unfold onCharacter
  cases found : w.heap.get r with
  | none => simp
  | some ch => cases run : x ch <;> simp [run, eq_comm]

theorem testFile_apply : testFile host name path w =
    .ok (w.files.pathExists host.cwd path) (w.seen [.file .test name path]) := rfl

theorem readFile_apply : readFile host name path w =
    .ok (w.files.read host.cwd path) (w.seen [.file .read name path]) := rfl

theorem removeFile_apply : removeFile host name path w = match w.files.remove host.cwd path with
    | some files => .ok () { w.seen [.file .remove name path] with files := files }
    | none => .error .filesystemError (w.seen [.file .remove name path]) := by
  cases removed : w.files.remove host.cwd path <;> simp [removeFile, bind_apply, removed]

theorem truncateFile_apply : truncateFile host name path w =
    .ok () { w.seen [.file .truncate name path] with
      files := (w.files.openTruncated host.cwd path).getD w.files } := rfl

theorem writeFile_apply (text : Bytes) : writeFile host name path text w =
    .ok () { w.seen [.file .write name path] with files := w.files.write host.cwd path text } := rfl

end Results

def dumpText (host : Host) (indent : Option Nat) (doc : Json) : Except Fault Bytes :=
  match doc.dump host.number indent with
  | some text => .ok text
  | none => .error .typeError

/-- `file << doc` with a width of 4. What was written before an exception is in the file. -/
def streamDocument (host : Host) (name path : Bytes) (doc : Json) : Action World Unit := do
  let written := doc.written host.number (some 4)
  writeFile host name path written.text
  if !written.whole then
    throw .typeError

section Documents
variable {host : Host} {name path : Bytes} {doc : Json} {w w' : World}

theorem written_of_dumpText {indent : Option Nat} {text : Bytes} (dumps : dumpText host indent doc = .ok text) :
    doc.written host.number indent = ⟨text, true⟩ := by
  apply Json.Written.eq_of_toOption
  rw [Json.toOption_written]
  unfold dumpText at dumps
  split at dumps
  · rename_i bytes same
    rw [same, Except.ok.inj dumps]
  · cases dumps

theorem written_of_fails {indent : Option Nat} {e : Fault} (fails : dumpText host indent doc = .error e) :
    e = .typeError ∧ (doc.written host.number indent).whole = false := by
  unfold dumpText at fails
  split at fails
  · cases fails
  · rename_i none
    exact ⟨(Except.error.inj fails).symm, Json.Written.whole_of_toOption ((Json.toOption_written ..).trans none)⟩

theorem streamDocument_apply (host : Host) (name path : Bytes) (doc : Json) (w : World) :
    streamDocument host name path doc w = match dumpText host (some 4) doc with
      | .ok text => writeFile host name path text w
      | .error _ => (writeFile host name path (doc.written host.number (some 4)).text >>= fun _ => throw .typeError) w := by
  rw [streamDocument]
  cases dumps : dumpText host (some 4) doc with
  | ok text =>
      rw [written_of_dumpText dumps]
      show (writeFile host name path text >>= fun _ => pure ()) w = _
      rw [bind_pure_unit]
  | error e =>
      rw [(written_of_fails dumps).2]
      rfl

theorem moves_streamDocument {R : World → World → Prop} [Std.Refl R] [IsTrans World R]
    (writes : ∀ text, Moves R (writeFile host name path text)) (doc : Json) : Moves R (streamDocument host name path doc) := by
  apply (writes _).bind
  intro _
  split
  · exact .throw _
  · exact .pure _

theorem streamDocument_ok_iff : streamDocument host name path doc w = .ok () w' ↔
    ∃ text, dumpText host (some 4) doc = .ok text ∧ writeFile host name path text w = .ok () w' := by
  rw [streamDocument_apply]
  cases dumpText host (some 4) doc with
  | ok text => simp
  | error e => simp [writeFile_apply, bind_apply]

end Documents

end D20Tempest.Server
