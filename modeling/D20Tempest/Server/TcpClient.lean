import D20Tempest.Server.CharacterManager
import D20Tempest.Foundation.Words

namespace D20Tempest.Server
open Foundation Components Characters

/-- A chunk of the stream in its buffer, which is never shorter than a word. -/
structure DataEvent where
  data : Bytes
  length : Nat
  word : 4 ≤ data.length
  within : length ≤ data.length

def DataEvent.of (text : Bytes) : DataEvent where
  data := text ++ List.replicate 4 0
  length := text.length
  word := by simp
  within := by simp

def DataEvent.text (evt : DataEvent) : Bytes := evt.data.take evt.length

/-! ## Messages -/

namespace TcpClient
variable (host : Host) (c : Ref)

def send (msg : Bytes) : Action World Unit := do
  if !(← clientAt c).active then
    return
  if 2 ^ 32 ≤ msg.length then
    throw .narrowingError
  log (.sent c msg)

def sendError (code : Int64) (msg : Bytes) : Action World Unit := do
  send c (← evaluate (dumpText host none (errorDocument code msg)))

def createCharacterHandler (name : Bytes) : Action World Unit := do
  match ← CharacterManager.createCharacter host name (some c) with
  | none => sendError host c 409 (str "Unable to create character (already exist?)")
  | some r => holding r do
      let character ← deref r
      CharacterManager.dump host character.characterID
      send c (← saveText host r)

def loadCharacterHandler (name : Bytes) : Action World Unit := do
  match ← CharacterManager.loadCharacter host name (some c) with
  | none =>
      sendError host c 404 (str "Unknown entity")
      -- the error branch does not return: Save is called through the null pointer
      throw .nullPointer
  | some r => holding r do
      send c (← saveText host r)

/-- Handlers return without an effect, like those of characters, whose branches are empty: a call is no more than an event. -/
def dataCharacterHandler (_name entity action : Bytes) (data : Json) : Action World Unit := do
  match (← clientAt c).messageHandlers.find entity with
  | none => sendError host c 404 (str "Unknown entity")
  | some handlers => handlers.forM fun h => log (.called c h entity action data)

def parseMsg (dataView : Bytes) : Action World Unit := do
  let docJson := host.parse dataView
  log (.request c docJson)
  if docJson.isDiscarded then
    sendError host c 400 (str "JSON malformed")
    return
  if !docJson.contains (str "name") || !docJson.contains (str "action")
      || !docJson.contains (str "entity") then
    sendError host c 400 (str "Missing elements in JSON")
    return
  let action ← evaluate (docJson.index (str "action") >>= Json.getString)
  let path ← evaluate (docJson.index (str "entity") >>= Json.getString)
  let name ← evaluate (docJson.index (str "name") >>= Json.getString)
  let action := upperCase action
  let path := upperCase path
  if action = str "CREATE" ∧ path = str "CHARACTER" then
    createCharacterHandler host c name
    return
  -- the source makes this test twice, and the second never succeeds
  if action = str "LOAD" ∧ path = str "CHARACTER" then
    loadCharacterHandler host c name
    return
  if !docJson.contains (str "data") then
    sendError host c 400 (str "Missing elements in JSON")
    return
  dataCharacterHandler host c name path action (← evaluate (docJson.index (str "data")))

/-! ## Events -/

def dataEvent (evt : DataEvent) : Action World Unit := do
  let firstFour := ntohl host.bigEndian (loadWord host.bigEndian evt.data)
  if evt.length ≥ 4 ∧ firstFour = 0x00C0FFEE then
    send c (storeWord host.bigEndian (htonl host.bigEndian 0x000B00B5))
    onClient c fun client => { client with heloParsed := true }
    return
  if !(← clientAt c).heloParsed then
    sendError host c 400 (str "HELO was not received")
    return
  parseMsg host c evt.text

def leaveHandler (r : Ref) : Action World Unit := do
  log (.left c r)
  let character ← deref r
  CharacterManager.dump host character.characterID

def endEvent : Action World Unit := do
  (← clientAt c).disconnectionHandlers.forM (leaveHandler host c)

/-! ## Sending -/

section Results
variable {host c} {w w' : World}

def IsOpen (w : World) (c : Ref) : Prop := ∃ cl, w.clients.get c = some cl ∧ cl.active = true

instance (w : World) (c : Ref) : Decidable (IsOpen w c) :=
  decidable_of_iff ((w.clients.get c).any (·.active) = true) (Option.any_eq_true _ _)

theorem send_apply (isOpen : IsOpen w c) (msg : Bytes) :
    send c msg w = if 2 ^ 32 ≤ msg.length then .error .narrowingError w else .ok () (w.seen [.sent c msg]) := by
  obtain ⟨cl, found, active⟩ := isOpen
  rw [send, bind_of_ok (clientAt_of_get _ found), active]
  simp only [Bool.not_true, Bool.false_eq_true, ↓reduceIte]
  by_cases long : 2 ^ 32 ≤ msg.length
  · rw [if_pos long, if_pos long]
    rfl
  · rw [if_neg long, if_neg long]
    rfl

def errorReplies : List (Int64 × Bytes) := [
  (400, str "HELO was not received"),
  (400, str "JSON malformed"),
  (400, str "Missing elements in JSON"),
  (404, str "Unknown entity"),
  (409, str "Unable to create character (already exist?)")]

def errorText (code : Int64) (msg : Bytes) : Bytes :=
  ((errorDocument code msg).dump (fun _ => []) none).getD []

theorem errorText_dumps (host : Host) : ∀ e ∈ errorReplies,
    dumpText host none (errorDocument e.1 e.2) = .ok (errorText e.1 e.2) ∧
      (errorText e.1 e.2).length < 2 ^ 32 := by
  simp only [errorReplies, List.forall_mem_cons, List.not_mem_nil, false_implies, implies_true, and_true]
  refine ⟨⟨rfl, ?_⟩, ⟨rfl, ?_⟩, ⟨rfl, ?_⟩, ⟨rfl, ?_⟩, ⟨rfl, ?_⟩⟩
  all_goals decide

theorem sendError_apply (host : Host) (isOpen : IsOpen w c) {code : Int64} {msg : Bytes} (listed : (code, msg) ∈ errorReplies) :
    sendError host c code msg w = .ok () (w.seen [.sent c (errorText code msg)]) := by
  obtain ⟨dumps, short⟩ := errorText_dumps host _ listed
  simp only at dumps short
  rw [sendError, dumps, evaluate_ok, pure_bind, send_apply isOpen, if_neg (Nat.not_le.mpr short)]

end Results

/-! ## What a message asks for -/

inductive Command where
  | malformed
  | incomplete
  -- an action, entity or name that is no string
  | mistyped
  | create (name : Bytes)
  | load (name : Bytes)
  | data (name entity action : Bytes) (data : Json)

def Command.target : Command → Option Bytes
  | .create name => some name
  | .load name => some name
  | _ => none

def command (docJson : Json) : Command :=
  if docJson.isDiscarded then .malformed
  else match docJson.find (str "name"), docJson.find (str "action"), docJson.find (str "entity") with
    | some name, some action, some entity =>
        match name.getString, action.getString, entity.getString with
        | .ok name, .ok action, .ok entity =>
            if upperCase action = str "CREATE" ∧ upperCase entity = str "CHARACTER" then .create name
            else if upperCase action = str "LOAD" ∧ upperCase entity = str "CHARACTER" then .load name
            else match docJson.find (str "data") with
              | some data => .data name (upperCase entity) (upperCase action) data
              | none => .incomplete
        | _, _, _ => .mistyped
    | _, _, _ => .incomplete

def respond (host : Host) (c : Ref) : Command → Action World Unit
  | .malformed => sendError host c 400 (str "JSON malformed")
  | .incomplete => sendError host c 400 (str "Missing elements in JSON")
  | .mistyped => throw .typeError
  | .create name => createCharacterHandler host c name
  | .load name => loadCharacterHandler host c name
  | .data name entity action data => dataCharacterHandler host c name entity action data

theorem read_strings {α : Type} (action entity name : Json) (k : Bytes → Bytes → Bytes → Action World α) :
    (do
      let action ← evaluate action.getString
      let entity ← evaluate entity.getString
      let name ← evaluate name.getString
      k action entity name) =
    match name.getString, action.getString, entity.getString with
    | .ok name, .ok action, .ok entity => k action entity name
    | _, _, _ => throw .typeError := by
  cases actionText : action.getString with
  | error f =>
      rw [Json.getString_error actionText]
      cases name.getString <;> rfl
  | ok _ =>
      cases entityText : entity.getString with
      | error f =>
          rw [Json.getString_error entityText]
          cases name.getString <;> rfl
      | ok _ =>
          cases nameText : name.getString with
          | error f => rw [Json.getString_error nameText]; rfl
          | ok _ => rfl

theorem parseMsg_eq (host : Host) (c : Ref) (dataView : Bytes) :
    parseMsg host c dataView =
      (log (.request c (host.parse dataView)) >>= fun _ => respond host c (command (host.parse dataView))) := by
  rw [parseMsg]
  congr 1
  funext _
  generalize host.parse dataView = doc
  cases discarded : doc.isDiscarded with
  | true => simp [command, discarded, respond]
  | false =>
      rcases name : doc.find (str "name") with _ | n
      · simp [command, discarded, name, Json.contains, respond]
      rcases action : doc.find (str "action") with _ | a
      · simp [command, discarded, name, action, Json.contains, respond]
      rcases entity : doc.find (str "entity") with _ | e
      · simp [command, discarded, name, action, entity, Json.contains, respond]
      simp only [Json.contains, name, action, entity, discarded, Json.index_bind_of_find name,
        Json.index_bind_of_find action, Json.index_bind_of_find entity, command]
      simp only [Option.isSome_some, Bool.not_true, Bool.or_self, Bool.false_eq_true, ↓reduceIte, read_strings]
      split
      · rcases Option.eq_none_or_eq_some (doc.find (str "data")) with data | ⟨d, data⟩
        · simp only [data, bind_pure_unit, Option.isSome_none, Bool.not_false, ↓reduceIte]
          split_ifs <;> rfl
        · simp only [data, bind_pure_unit, Json.index_of_find data, Option.isSome_some, Bool.not_true,
            Bool.false_eq_true, ↓reduceIte, evaluate_ok, pure_bind]
          split_ifs <;> rfl
      · rfl

/-! ## Chunks -/

def IsHelo (text : Bytes) : Prop := text.take 4 = [0x00, 0xC0, 0xFF, 0xEE]

instance (text : Bytes) : Decidable (IsHelo text) := by unfold IsHelo; infer_instance

def heloReply : Bytes := [0x00, 0x0B, 0x00, 0xB5]

theorem helo_iff (bigEndian : Bool) (evt : DataEvent) :
    evt.length ≥ 4 ∧ ntohl bigEndian (loadWord bigEndian evt.data) = 0x00C0FFEE ↔ IsHelo evt.text := by
  have word : (0x00C0FFEE : UInt32) = loadWord true [0x00, 0xC0, 0xFF, 0xEE] := by decide
  rw [word, ntohl_loadWord_eq_iff bigEndian evt.word, IsHelo, DataEvent.text, List.take_take]
  constructor
  · rintro ⟨long, first⟩
    rwa [Nat.min_eq_left long]
  · intro first
    have long : evt.length ≥ 4 := by
      have size := congrArg List.length first
      simp only [List.length_take, List.length_cons, List.length_nil] at size
      omega
    rw [Nat.min_eq_left long] at first
    exact ⟨long, first⟩

def greeted (w : World) (c : Ref) : World :=
  { w.seen [.sent c heloReply] with
    clients := w.clients.modify c fun client => { client with heloParsed := true } }

/-- An event depends on its text only, on machines of either byte order. -/
theorem dataEvent_apply (host : Host) {c : Ref} {w : World} {cl : Client} (found : w.clients.get c = some cl)
    (active : cl.active = true) (evt : DataEvent) :
    dataEvent host c evt w =
      if IsHelo evt.text then .ok () (greeted w c)
      else if cl.heloParsed then parseMsg host c evt.text w
      else .ok () (w.seen [.sent c (errorText 400 (str "HELO was not received"))]) := by
  have reply : storeWord host.bigEndian (htonl host.bigEndian 0x000B00B5) = heloReply := by
    cases host.bigEndian <;> decide
  rw [dataEvent, reply]
  by_cases helo : IsHelo evt.text
  · simp only [(helo_iff host.bigEndian evt).mpr helo, helo, and_self, ↓reduceIte]
    have sends := send_apply ⟨cl, found, active⟩ heloReply
    rw [if_neg (by decide)] at sends
    rw [bind_of_ok sends]
    rfl
  · have no := fun h => helo ((helo_iff host.bigEndian evt).mp h)
    rw [if_neg no, if_neg helo, bind_of_ok (clientAt_of_get _ found)]
    cases cl.heloParsed with
    | true => simp
    | false =>
        simp only [Bool.not_false, ↓reduceIte, Bool.false_eq_true]
        rw [bind_of_ok (sendError_apply host ⟨cl, found, active⟩ (by simp [errorReplies]))]
        rfl

end TcpClient
end D20Tempest.Server
