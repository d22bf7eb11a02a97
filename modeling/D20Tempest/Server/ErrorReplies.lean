import D20Tempest.Server.Tables

namespace D20Tempest.Server
open Foundation Components Characters CharacterManager TcpClient

/-! ## Texts that are no error -/

def IsErrorReply (host : Host) (msg : Bytes) : Prop :=
  ∃ code text, dumpText host none (errorDocument code text) = .ok msg

theorem dumpText_eq_ok_iff {host : Host} {indent : Option Nat} {doc : Json} {text : Bytes} :
    dumpText host indent doc = .ok text ↔ doc.dump host.number indent = some text := by
  unfold dumpText
  cases doc.dump host.number indent <;> simp

theorem error_text {host : Host} {msg : Bytes} (error : IsErrorReply host msg) : msg.take 2 = str "\x7b\"" := by
  obtain ⟨code, text, dumps⟩ := error
  have members : ∃ first rest, errorDocument code text = .object (first :: rest) := ⟨_, _, rfl⟩
  obtain ⟨first, rest, eq⟩ := members
  obtain ⟨inner, all, rfl⟩ := Json.dump_object (eq ▸ dumpText_eq_ok_iff.mp dumps)
  obtain ⟨more, rfl⟩ := Json.dumpMembers_cons all
  rfl

theorem document_not_error {host : Host} {ch : Character} {text : Bytes}
    (dumps : dumpText host (some 4) ch.document = .ok text) : ¬ IsErrorReply host text := by
  intro error
  have members : ∃ first rest, ch.document = .object (first :: rest) := ⟨_, _, rfl⟩
  obtain ⟨first, rest, eq⟩ := members
  obtain ⟨inner, -, rfl⟩ := Json.dump_object (eq ▸ dumpText_eq_ok_iff.mp dumps)
  have start := error_text error
  cases start

/-! ## What a reply with an error leaves -/

structure Untouched (w w' : World) : Prop where
  files : w'.files = w.files
  heap : w'.heap = w.heap
  characters : w'.characters = w.characters
  clients : w'.clients = w.clients
  uncalled : ∀ c h entity action data, .called c h entity action data ∉ since w w'

def NoErrorSent (host : Host) (e : Event) : Prop := ∀ c msg, e = .sent c msg → ¬ IsErrorReply host msg

section Replies
variable {host : Host} {c : Ref} {w w' : World}

theorem untouched_seen (w : World) (events : List Event)
    (uncalled : ∀ c h entity action data, .called c h entity action data ∉ events) : Untouched w (w.seen events) :=
  ⟨rfl, rfl, rfl, rfl, fun c h entity action data => by
    rw [since_of_append rfl]
    exact uncalled c h entity action data⟩

theorem emits_reply (c r : Ref) : Moves (Emits (NoErrorSent host)) (saveText host r >>= send c) := by
  intro w
  have first : Emits (NoErrorSent host) w (finalState (saveText host r w)) := emits_saveText r w
  rw [bind_apply]
  cases run : saveText host r w with
  | error e w₁ =>
      rw [run] at first
      exact first
  | ok text w₁ =>
      rw [run] at first
      obtain ⟨ch, -, -, dumps, -⟩ := saveText_ok_iff.mp run
      have plain : NoErrorSent host (.sent c text) := by
        intro c' msg eq
        obtain ⟨-, rfl⟩ := Event.sent.inj eq
        exact document_not_error dumps
      exact IsTrans.trans _ _ _ first (emits_send c (fun _ => plain) w₁)

theorem respond_untouched (isOpen : IsOpen w c) (cmd : Command) :
    (∃ events, finalState (respond host c cmd w) = w.seen events ∧
      ∀ c h entity action data, .called c h entity action data ∉ events) ∨
    Emits (NoErrorSent host) w (finalState (respond host c cmd w)) := by
  have files : ∀ access name path, NoErrorSent host (.file access name path) := fun _ _ _ _ _ eq => by cases eq
  cases cmd with
  | malformed =>
      left
      rw [respond, sendError_apply host isOpen (by simp [errorReplies])]
      exact ⟨_, rfl, by simp⟩
  | incomplete =>
      left
      rw [respond, sendError_apply host isOpen (by simp [errorReplies])]
      exact ⟨_, rfl, by simp⟩
  | mistyped => exact .inr (.of_eq rfl)
  | create name =>
      cases exist : w.files.pathExists host.cwd (charactersPath ++ name) with
      | true =>
          left
          rw [respond, createCharacterHandler_of_existing isOpen exist]
          exact ⟨_, rfl, by simp⟩
      | false =>
          right
          rw [respond, createCharacterHandler_of_missing exist]
          have made : Emits (NoErrorSent host) w (created w name (some c)) :=
            ⟨_, rfl, by simp [NoErrorSent]⟩
          exact IsTrans.trans _ _ _ made (emits_holding _ ((emits_dump files _).bind fun _ => emits_reply c _) _)
  | load name =>
      cases exist : w.files.pathExists host.cwd (charactersPath ++ name) with
      | false =>
          left
          rw [respond, loadCharacterHandler_of_missing isOpen exist]
          exact ⟨_, rfl, by simp⟩
      | true =>
          right
          cases held : savedDocument host w.files name with
          | none =>
              rw [respond, loadCharacterHandler_of_unreadable exist held]
              exact ⟨_, rfl, by simp [NoErrorSent]⟩
          | some data =>
              rw [respond, loadCharacterHandler_of_found held]
              cases Character.load host.scripts data (newborn name c) with
              | error e ch =>
                  exact ⟨_, release_events _ _, by simp [NoErrorSent]⟩
              | ok u ch =>
                  have made : Emits (NoErrorSent host) w (loaded w name (some c) ch) := ⟨_, rfl, by simp [NoErrorSent]⟩
                  exact IsTrans.trans _ _ _ made (emits_holding _ (emits_reply c _) _)
  | data name entity action data =>
      obtain ⟨cl, found, active⟩ := isOpen
      rw [respond, dataCharacterHandler, bind_of_ok (clientAt_of_get _ found)]
      cases cl.messageHandlers.find entity with
      | none =>
          left
          simp only
          rw [sendError_apply host ⟨cl, found, active⟩ (by simp [errorReplies])]
          exact ⟨_, rfl, by simp⟩
      | some handlers =>
          right
          simp only
          rw [forM_log_returns]
          exact ⟨_, rfl, by simp [NoErrorSent]⟩

end Replies

/-- When the answer to a message carries an error, nothing else has come of the message: no file, character
or connection is another, and no handler was called. -/
theorem error_reply_means_nothing (host : Host) (w : World) (c : Ref) (isOpen : IsOpen w c) (dataView : Bytes)
    (c' : Ref) (msg : Bytes) (sent : .sent c' msg ∈ since w (finalState (parseMsg host c dataView w)))
    (error : IsErrorReply host msg) : Untouched w (finalState (parseMsg host c dataView w)) := by
  have opens : IsOpen (w.seen [.request c (host.parse dataView)]) c := isOpen
  rw [parseMsg_eq, bind_of_ok (log_apply w _)] at sent ⊢
  rcases respond_untouched opens (command (host.parse dataView)) with ⟨events, eq, uncalled⟩ | emits
  · rw [eq, World.seen_seen]
    exact untouched_seen w _ (by simpa using uncalled)
  · obtain ⟨more, eq, plain⟩ := emits
    have all : since w _ = .request c (host.parse dataView) :: more :=
      since_of_append (eq.trans (List.append_assoc ..))
    rw [all, List.mem_cons] at sent
    rcases sent with request | later
    · cases request
    · exact absurd error (plain _ later c' msg rfl)

def speechless : Host := .knowing []

theorem malformed_means_nothing :
    Untouched (welcomed speechless) (finalState (parseMsg speechless 0 (str "\x7b") (welcomed speechless))) :=
  error_reply_means_nothing speechless (welcomed speechless) 0 (by decide +kernel) (str "\x7b") 0
    (errorText 400 (str "JSON malformed")) (List.mem_of_getElem? (i := 1) (by rfl))
    ⟨400, str "JSON malformed", (errorText_dumps speechless (400, str "JSON malformed") (by simp [errorReplies])).1⟩

end D20Tempest.Server
