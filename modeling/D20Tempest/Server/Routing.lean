import D20Tempest.Server.Tables

namespace D20Tempest.Server
open Foundation Components Characters CharacterManager TcpClient

def abilityEntity : Bytes := str "CHARACTER/ABILITY"

/-- The characters that the inputs have constructed on a connection, with their names. -/
def company (host : Host) (c : Ref) : World → List Input → List (Ref × Bytes) :=
  gathered (step host) (joins host c)

def abilityTable : HandlerTable where
  handlers cl := (cl.messageHandlers.find abilityEntity).getD []
  fresh _ := rfl
  adopts cl r := by
    have installed := find_onMessage (cl.onLeave (some r)) (str "character/ability") r abilityEntity
    rw [if_pos (by decide)] at installed
    rw [installed, Option.getD_some]
    rfl
  parsed _ := rfl
  closed _ := rfl

theorem abilityTable_of_run {host : Host} {files : FileTree} {inputs : List Input} {w : World}
    (run : Run (step host) (initial files) inputs w) (c : Ref) :
    abilityTable.on w.clients c = (company host c (initial files) inputs).map Prod.fst := by
  have grown : abilityTable.on w.clients c =
      gathered (step host) (fun w i => (joins host c w i).map Prod.fst) (initial files) inputs := by
    refine run.gathered_eq (fun w => abilityTable.on w.clients c) (I := Sound) (good_initial _ files) rfl ?_
    intro w i w' sound taken
    have next := (stepped host i sound fun _ _ _ _ => trivial).good
    have table := abilityTable.on_step host sound i c
    rw [taken] at next table
    exact ⟨next, table⟩
  rw [grown, gathered_map]
  rfl

/-! ## Handlers run for a message -/

def calls (events : List Event) : List (Ref × Ref) := events.filterMap fun
  | .called c h _ _ _ => some (c, h)
  | _ => none

section Messages
variable {host : Host} {c : Ref} {w : World} {evt : DataEvent} {name entity action : Bytes} {data : Json}

theorem data_events (asked : asks host w (.data c evt) = some (.data name entity action data)) :
    ∃ cl, w.clients.get c = some cl ∧ since w (finalState (step host (.data c evt) w)) =
      .request c (host.parse evt.text) :: match cl.messageHandlers.find entity with
        | some handlers => handlers.map fun h => .called c h entity action data
        | none => [.sent c (errorText 404 (str "Unknown entity"))] := by
  obtain ⟨cl, found, active, other, parsed, eq⟩ := (asks_data_iff host evt).mp asked
  refine ⟨cl, found, since_of_append ?_⟩
  have looked : clientAt c (w.seen [.request c (host.parse evt.text)]) = .ok cl _ := clientAt_of_get _ found
  rw [step_data_of_open host evt found active, if_neg other, if_pos parsed, eq, respond, dataCharacterHandler,
    bind_of_ok looked]
  cases cl.messageHandlers.find entity with
  | none =>
      have isOpen : IsOpen (w.seen [.request c (host.parse evt.text)]) c := ⟨cl, found, active⟩
      have listed : (404, str "Unknown entity") ∈ errorReplies := by simp [errorReplies]
      have reply := sendError_apply host isOpen listed
      simp only [reply, World.seen_seen]
      rfl
  | some handlers =>
      simp only [forM_log_returns, World.seen_seen]
      rfl

theorem calls_data (asked : asks host w (.data c evt) = some (.data name abilityEntity action data)) :
    calls (since w (finalState (step host (.data c evt) w))) = (abilityTable.on w.clients c).map (c, ·) := by
  obtain ⟨cl, found, eq⟩ := data_events asked
  have installed : abilityTable.on w.clients c = (cl.messageHandlers.find abilityEntity).getD [] := by
    rw [HandlerTable.on, found]
    rfl
  rw [eq, installed]
  cases cl.messageHandlers.find abilityEntity with
  | none => rfl
  | some handlers =>
      show calls (handlers.map _) = _
      rw [calls, List.filterMap_map, ← List.filterMap_eq_map]
      rfl

end Messages

def Routed (host : Host) (c : Ref) (files : FileTree) (inputs : List Input) (evt : DataEvent) (name : Bytes) (w : World) : Prop :=
  calls (since w (finalState (step host (.data c evt) w))) =
    ((company host c (initial files) inputs).filter (·.2 = name)).map fun e => (c, e.1)

/-- A message about abilities reaches exactly the characters of its name only while the connection has
no character of another name. -/
theorem routed_iff (host : Host) (c : Ref) (files : FileTree) (inputs : List Input) (evt : DataEvent)
    (name action : Bytes) (data : Json) (w : World) (run : Run (step host) (initial files) inputs w)
    (asked : asks host w (.data c evt) = some (.data name (str "CHARACTER/ABILITY") action data)) :
    Routed host c files inputs evt name w ↔ ∀ e ∈ company host c (initial files) inputs, e.2 = name := by
  have all := calls_data asked
  rw [abilityTable_of_run run, List.map_map] at all
  rw [Routed, all]
  constructor
  · intro same
    have sizes := congrArg List.length same
    simp only [List.length_map] at sizes
    have kept := List.length_filter_eq_length_iff.mp sizes.symm
    exact fun e mem => by simpa using kept e mem
  · intro named
    rw [List.filter_eq_self.mpr fun e mem => by simpa using named e mem]
    rfl

def aboutAbility (name : Bytes) : Json := Json.ofFields [
  (str "action", .string (str "show")),
  (str "data", Json.ofFields []),
  (str "entity", .string (str "character/Ability")),
  (str "name", .string name)]

def aboutAbilityText (name : Bytes) : Bytes := ((aboutAbility name).dump (fun _ => []) none).getD []

def twoAbilities : Host := .knowing [
  (requestText (str "create") (str "Aldor"), Server.request (str "create") (str "Aldor")),
  (requestText (str "create") (str "Berin"), Server.request (str "create") (str "Berin")),
  (aboutAbilityText (str "Berin"), aboutAbility (str "Berin"))]

def aldorJoins : List Input := [.accept 0, .data 0 helo, .request 0 (str "create") (str "Aldor")]

def afterAldor : World := finalState (play (step twoAbilities) aldorJoins (initial .root))

def isAbout (name : Bytes) : Command → Bool
  | .data n entity _ _ => n = name ∧ entity = str "CHARACTER/ABILITY"
  | _ => false

theorem asks_of_isAbout {host : Host} {w : World} {i : Input} {name : Bytes}
    (about : (asks host w i).any (isAbout name) = true) :
    ∃ action data, asks host w i = some (.data name (str "CHARACTER/ABILITY") action data) := by
  obtain ⟨cmd, asked, holds⟩ := (Option.any_eq_true _ _).mp about
  cases cmd with
  | data n entity action data =>
      simp only [isAbout, decide_eq_true_eq] at holds
      obtain ⟨rfl, rfl⟩ := holds
      exact ⟨action, data, asked⟩
  | _ => cases holds

/-- Nobody on the connection is named Berin, and Aldor's handler runs. -/
theorem message_reaches_other_name :
    Run (step twoAbilities) (initial .root) aldorJoins afterAldor ∧
      (∃ action data, asks twoAbilities afterAldor (.data 0 (.of (aboutAbilityText (str "Berin")))) =
        some (.data (str "Berin") (str "CHARACTER/ABILITY") action data)) ∧
      ¬ Routed twoAbilities 0 .root aldorJoins (.of (aboutAbilityText (str "Berin"))) (str "Berin") afterAldor := by
  refine ⟨run_play _ _ _ (by decide +kernel), asks_of_isAbout (by decide +kernel), ?_⟩
  unfold Routed
  decide +kernel

def berinJoins : List Input := [.accept 0, .data 0 helo, .request 0 (str "create") (str "Berin")]

def afterBerin : World := finalState (play (step twoAbilities) berinJoins (initial .root))

theorem routed_berin :
    Routed twoAbilities 0 .root berinJoins (.of (aboutAbilityText (str "Berin"))) (str "Berin") afterBerin := by
  have about : (asks twoAbilities afterBerin (.data 0 (.of (aboutAbilityText (str "Berin"))))).any (isAbout (str "Berin")) = true := by
    decide +kernel
  obtain ⟨action, data, asked⟩ := asks_of_isAbout about
  exact (routed_iff twoAbilities 0 .root berinJoins _ _ action data afterBerin (run_play _ _ _ (by decide +kernel)) asked).mpr
    (by decide +kernel)

end D20Tempest.Server
