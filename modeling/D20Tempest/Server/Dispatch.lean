import D20Tempest.Server.Routing

namespace D20Tempest.Server
open Foundation Components Characters TcpClient

/-! ## Registrations -/

def register (client : Client) (registrations : List (Bytes × Option Ref)) : Client :=
  registrations.foldl (fun client e => client.onMessage e.1 e.2) client

/-- The handlers registered under a path equal to this one up to case, without the null ones. -/
def matching (registrations : List (Bytes × Option Ref)) (path : Bytes) : List Ref :=
  (registrations.filter fun e => EqualUpToCase e.1 path).filterMap Prod.snd

theorem matching_cons (registered : Bytes) (handler : Option Ref) (rest : List (Bytes × Option Ref)) (path : Bytes) :
    matching ((registered, handler) :: rest) path =
      (if upperCase registered = upperCase path then handler.toList else []) ++ matching rest path := by
  simp only [upperCase_eq_iff, matching, List.filter_cons, decide_eq_true_eq]
  split
  · cases handler <;> simp
  · rfl

theorem find_register (client : Client) (registrations : List (Bytes × Option Ref)) (path : Bytes) :
    (register client registrations).messageHandlers.find (upperCase path) =
      if matching registrations path = [] then client.messageHandlers.find (upperCase path)
      else some ((client.messageHandlers.find (upperCase path)).getD [] ++ matching registrations path) := by
  induction registrations generalizing client with
  | nil => rfl
  | cons registration rest ih =>
      obtain ⟨registered, handler⟩ := registration
      rw [register, List.foldl_cons, ← register, ih, matching_cons]
      cases handler with
      | none => simp [Client.onMessage]
      | some h =>
          rw [find_onMessage]
          by_cases same : upperCase registered = upperCase path
          · rw [if_pos same, if_pos same]
            simp
          · rw [if_neg same, if_neg same, List.nil_append]

/-! ## Messages -/

structure Message (docJson : Json) (name entity action : Bytes) (data : Json) : Prop where
  name : docJson.find (str "name") = some (.string name)
  entity : docJson.find (str "entity") = some (.string entity)
  action : docJson.find (str "action") = some (.string action)
  data : docJson.find (str "data") = some data

def Reserved (entity action : Bytes) : Prop :=
  (EqualUpToCase action (str "CREATE") ∨ EqualUpToCase action (str "LOAD")) ∧ EqualUpToCase entity (str "CHARACTER")

instance (entity action : Bytes) : Decidable (Reserved entity action) := by unfold Reserved; infer_instance

def outcome (registrations : List (Bytes × Option Ref)) (c : Ref) (entity action : Bytes) (data : Json) : List Event :=
  match matching registrations entity with
  | [] => [.sent c (errorText 404 (str "Unknown entity"))]
  | handlers => handlers.map fun h => .called c h (upperCase entity) (upperCase action) data

section Dispatch
variable {docJson : Json} {name entity action : Bytes} {data : Json}

theorem command_of_message (message : Message docJson name entity action data) (free : ¬ Reserved entity action) :
    command docJson = .data name (upperCase entity) (upperCase action) data := by
  have create : upperCase (str "CREATE") = str "CREATE" := by decide
  have load : upperCase (str "LOAD") = str "LOAD" := by decide
  have character : upperCase (str "CHARACTER") = str "CHARACTER" := by decide
  have present : docJson.isDiscarded = false :=
    Json.isDiscarded_of_contains (Json.contains_iff.mpr ⟨_, message.name⟩)
  rw [Reserved, ← upperCase_eq_iff, ← upperCase_eq_iff, ← upperCase_eq_iff, create, load, character] at free
  simp only [command, present, message.name, message.action, message.entity, message.data, Json.getString]
  rw [if_neg (by simp), if_neg fun reserved => free ⟨.inl reserved.1, reserved.2⟩,
    if_neg fun reserved => free ⟨.inr reserved.1, reserved.2⟩]

theorem reserved_congr {entity' action' : Bytes} (sameEntity : EqualUpToCase entity' entity)
    (sameAction : EqualUpToCase action' action) : Reserved entity' action' ↔ Reserved entity action := by
  simp only [Reserved, ← upperCase_eq_iff] at *
  rw [sameEntity, sameAction]

theorem outcome_congr {entity' action' : Bytes} (sameEntity : EqualUpToCase entity' entity)
    (sameAction : EqualUpToCase action' action) (registrations : List (Bytes × Option Ref)) (c : Ref) :
    outcome registrations c entity' action' data = outcome registrations c entity action data := by
  rw [← upperCase_eq_iff] at *
  have same : matching registrations entity' = matching registrations entity := by
    simp only [matching, ← upperCase_eq_iff, sameEntity]
  rw [outcome, outcome, same, sameEntity, sameAction]

theorem parseMsg_outcome (host : Host) {c : Ref} {w : World} {cl : Client} {id : UInt64} {text : Bytes}
    (registrations : List (Bytes × Option Ref)) (found : w.clients.get c = some cl) (active : cl.active = true)
    (registered : cl.messageHandlers = (register (.make id) registrations).messageHandlers)
    (message : Message (host.parse text) name entity action data) (free : ¬ Reserved entity action) :
    parseMsg host c text w =
      .ok () (w.seen (.request c (host.parse text) :: outcome registrations c entity action data)) := by
  have stored := find_register (.make id) registrations entity
  rw [← registered] at stored
  have looked : clientAt c (w.seen [.request c (host.parse text)]) = .ok cl _ := clientAt_of_get _ found
  rw [parseMsg_eq, command_of_message message free, respond, dataCharacterHandler, bind_of_ok (log_apply ..),
    bind_of_ok looked, stored, outcome]
  cases matching registrations entity with
  | nil =>
      have isOpen : TcpClient.IsOpen (w.seen [.request c (host.parse text)]) c := ⟨cl, found, active⟩
      have listed : (404, str "Unknown entity") ∈ errorReplies := by simp [errorReplies]
      have fresh : (Client.make id).messageHandlers.find (upperCase entity) = none := rfl
      rw [if_pos rfl, fresh]
      simp only [sendError_apply host isOpen listed, World.seen_seen]
      rfl
  | cons h rest =>
      rw [if_neg (List.cons_ne_nil h rest)]
      simp only [forM_log_returns, World.seen_seen]
      rfl

/-- A message that is not reserved runs the handlers that were registered for its entity, in whatever case, in the
order of their registrations, or is answered once; so does every message that differs from it in case only. -/
theorem dispatch_exact (host : Host) {c : Ref} {w : World} {cl : Client} {id : UInt64} {text : Bytes}
    (registrations : List (Bytes × Option Ref)) (found : w.clients.get c = some cl) (active : cl.active = true)
    (registered : cl.messageHandlers = (register (.make id) registrations).messageHandlers)
    (message : Message (host.parse text) name entity action data) (free : ¬ Reserved entity action) :
    parseMsg host c text w =
        .ok () (w.seen (.request c (host.parse text) :: outcome registrations c entity action data)) ∧
      ∀ text' entity' action', EqualUpToCase entity' entity → EqualUpToCase action' action →
        Message (host.parse text') name entity' action' data →
          parseMsg host c text' w =
            .ok () (w.seen (.request c (host.parse text') :: outcome registrations c entity action data)) := by
  refine ⟨parseMsg_outcome host registrations found active registered message free, ?_⟩
  intro text' entity' action' sameEntity sameAction message'
  have free' : ¬ Reserved entity' action' := fun reserved => free ((reserved_congr sameEntity sameAction).mp reserved)
  rw [parseMsg_outcome host registrations found active registered message' free',
    outcome_congr sameEntity sameAction]

end Dispatch

def listening : List (Bytes × Option Ref) := [(str "Character/Ability", some 7), (str "CHARACTER/ABILITY", none),
  (str "character/skill", some 8), (str "character/ability", some 9)]

def listeningWorld : World :=
  ⟨.root, .empty, .empty, Arena.empty.alloc (register (.make 0) listening), []⟩

theorem dispatch_listening : parseMsg twoAbilities 0 (aboutAbilityText (str "Berin")) listeningWorld =
    .ok () (listeningWorld.seen (.request 0 (twoAbilities.parse (aboutAbilityText (str "Berin"))) ::
      [.called 0 7 (str "CHARACTER/ABILITY") (str "SHOW") (Json.ofFields []),
        .called 0 9 (str "CHARACTER/ABILITY") (str "SHOW") (Json.ofFields [])])) := by
  have message : Message (twoAbilities.parse (aboutAbilityText (str "Berin"))) (str "Berin") (str "character/Ability")
      (str "show") (Json.ofFields []) := ⟨rfl, rfl, rfl, rfl⟩
  exact (dispatch_exact twoAbilities listening rfl rfl rfl message (by decide)).1

end D20Tempest.Server
