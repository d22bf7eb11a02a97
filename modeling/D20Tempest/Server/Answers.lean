import D20Tempest.Server.Durability
import D20Tempest.Server.ErrorReplies
import D20Tempest.Server.Platform
import D20Tempest.Server.Refinement

namespace D20Tempest.Server
open Foundation Components Characters CharacterManager TcpClient

/-! ## What is answered -/

section
variable (host : Host) (c : Ref) (w : World)

/-- The answer to a command; there is none where the handlers of characters get the message. -/
def answerTo : Command → Option Bytes
  | .malformed => some (errorText 400 (str "JSON malformed"))
  | .incomplete => some (errorText 400 (str "Missing elements in JSON"))
  | .mistyped => none
  | .create name =>
      if w.files.pathExists host.cwd (charactersPath ++ name) then
        some (errorText 409 (str "Unable to create character (already exist?)"))
      else (Service.newText host name).toOption
  | .load name => (savedDocument host w.files name).bind fun data => (Service.loadedText host c name data).toOption
  | .data _ entity _ _ =>
      if entity = abilityEntity ∧ abilityTable.on w.clients c ≠ [] then none
      else some (errorText 404 (str "Unknown entity"))

/-- The answers to an input, each with the connection that it is sent on. -/
def answers : Input → List (Ref × Bytes)
  | .data c evt =>
      if IsOpen w c then
        if IsHelo evt.text then [(c, heloReply)]
        else match asks host w (.data c evt) with
          | some cmd => ((answerTo host c w cmd).map (c, ·)).toList
          | none => [(c, errorText 400 (str "HELO was not received"))]
      else []
  | _ => []

end

def Silent (s s' : Service) : Prop := s'.replies = s.replies

instance : Std.Refl Silent := ⟨fun _ => rfl⟩

instance : IsTrans Service Silent := ⟨fun _ _ _ first second => Eq.trans second first⟩

section
variable {host : Host} {c : Ref} {s s' : Service} {w : World} {name : Bytes}

theorem reply_ok_iff {msg : Bytes} : Service.reply c msg s = .ok () s' ↔ msg.length < 2 ^ 32 ∧ s' = s.replied c msg := by
  rw [Service.reply]
  by_cases long : 2 ^ 32 ≤ msg.length
  · rw [if_pos long]
    constructor
    · intro run
      cases run
    · intro short
      exact absurd long (Nat.not_le.mpr short.1)
  · rw [if_neg long]
    constructor
    · intro run
      cases run
      exact ⟨Nat.not_le.mp long, rfl⟩
    · intro short
      rw [short.2]
      rfl

theorem silent_onConnection (f : Connection → Connection) : Moves Silent (Service.onConnection c f) := fun _ => rfl

theorem silent_prepare : Moves Silent (Service.prepare host) := by
  intro s
  rw [Service.prepare, bind_of_ok (get_apply s)]
  cases readyFiles host s.files <;> rfl

theorem silent_save (name : Bytes) : Moves Silent (Service.save host name) := by
  intro s
  rw [Service.save]
  cases Service.newText host name with
  | error e => rfl
  | ok text =>
      rw [evaluate_ok, pure_bind, bind_of_ok (get_apply s)]
      cases savedFiles host s.files (charactersPath ++ name) text <;> rfl

theorem silent_store : Moves Silent (Service.store host) := by
  intro s
  rw [Service.store, bind_of_ok (get_apply s)]
  cases s.registered with
  | none => rfl
  | some name => exact (silent_prepare.bind fun _ => silent_save name) s

theorem silent_storeAll : Moves Silent (Service.storeAll host) := by
  apply silent_prepare.bind
  intro _ s
  rw [bind_of_ok (get_apply s)]
  cases s.registered with
  | none => rfl
  | some name => exact silent_save name s

theorem silent_leave (kept : Bool) : Moves Silent (Service.leave host kept) := by
  cases kept with
  | false => exact .throw _
  | true => exact silent_store

theorem replies_of_silent {x : Action Service Unit} (silent : Moves Silent x) (run : x s = .ok () s') : s'.replies = s.replies ++ [] := by
  have same := silent s
  rw [run] at same
  rw [List.append_nil]
  exact same

/-- Nothing is said before the answer. -/
theorem replies_of_text {x : Action Service Unit} (silent : Moves Silent x) {text : Except Fault Bytes}
    (run : (x >>= fun _ => evaluate text >>= Service.reply c) s = .ok () s') :
    s'.replies = s.replies ++ ((text.toOption).map (c, ·)).toList := by
  obtain ⟨u, t, ran, later⟩ := bind_eq_ok.mp run
  have same := silent s
  rw [ran] at same
  cases text with
  | error e => cases later
  | ok text =>
      rw [evaluate_ok, pure_bind] at later
      obtain ⟨-, rfl⟩ := reply_ok_iff.mp later
      exact congrArg (· ++ [(c, text)]) same

theorem replies_create (files : w.files = s.files) (run : Service.create host c name s = .ok () s') :
    s'.replies = s.replies ++ ((answerTo host c w (.create name)).map (c, ·)).toList := by
  rw [answerTo, files]
  cases exist : s.files.pathExists host.cwd (charactersPath ++ name) with
  | true =>
      rw [Service.create_of_taken exist] at run
      obtain ⟨-, rfl⟩ := reply_ok_iff.mp run
      rfl
  | false =>
      rw [Service.create_of_free exist] at run
      rw [if_neg Bool.false_ne_true]
      have quiet : Moves Silent (Service.join c s.registered.isNone >>= fun _ => Service.store host) :=
        (silent_onConnection _).bind fun _ => silent_store
      rw [← bind_assoc] at run
      have said := replies_of_text quiet run
      exact said

theorem replies_load (files : w.files = s.files) (run : Service.load host c name s = .ok () s') :
    s'.replies = s.replies ++ ((answerTo host c w (.load name)).map (c, ·)).toList := by
  rw [answerTo, files]
  cases exist : s.files.pathExists host.cwd (charactersPath ++ name) with
  | false =>
      rw [Service.load_of_missing exist] at run
      obtain ⟨u, t, -, later⟩ := bind_eq_ok.mp run
      cases later
  | true =>
      rw [Service.load_of_found exist] at run
      cases held : savedDocument host s.files name with
      | none =>
          rw [held] at run
          cases run
      | some data =>
          rw [held] at run
          have quiet : Moves Silent (Service.join c false) := silent_onConnection _
          exact replies_of_text quiet run

theorem on_abilityTable (rep : Represents s w) {connection : Connection} (found : s.connections.get c = some connection) :
    abilityTable.on w.clients c ≠ [] ↔ connection.characters ≠ [] := by
  rw [rep.get] at found
  obtain ⟨client, held, rfl⟩ := Option.map_eq_some_iff.mp found
  rw [HandlerTable.on, held]
  show (client.messageHandlers.find abilityEntity).getD [] ≠ [] ↔ _
  rw [(rep.tables c client held).dispatch, Connection.of]
  cases client.disconnectionHandlers <;> simp

theorem replies_answer (rep : Represents s w) {connection : Connection} (found : s.connections.get c = some connection) {cmd : Command}
    (run : Service.answer host c connection cmd s = .ok () s') :
    s'.replies = s.replies ++ ((answerTo host c w cmd).map (c, ·)).toList := by
  cases cmd with
  | malformed =>
      rw [Service.answer] at run
      obtain ⟨-, rfl⟩ := reply_ok_iff.mp run
      rfl
  | incomplete =>
      rw [Service.answer] at run
      obtain ⟨-, rfl⟩ := reply_ok_iff.mp run
      rfl
  | mistyped => cases run
  | create name => exact replies_create rep.files run
  | load name => exact replies_load rep.files run
  | data name entity action data =>
      rw [Service.answer] at run
      have handled := and_congr_right' (on_abilityTable rep found) (a := entity = abilityEntity)
      rw [answerTo]
      by_cases delivered : entity = abilityEntity ∧ connection.characters ≠ []
      · rw [if_pos delivered] at run
        rw [if_pos (handled.mpr delivered)]
        exact replies_of_silent (.pure ()) run
      · rw [if_neg delivered] at run
        rw [if_neg (mt handled.mp delivered)]
        obtain ⟨-, rfl⟩ := reply_ok_iff.mp run
        rfl

theorem silent_whenActive {x : Connection → Action Service Unit} (each : ∀ connection, Moves Silent (x connection)) :
    Moves Silent (Service.whenActive c x) := by
  intro s
  by_cases opens : s.Open c
  · obtain ⟨connection, found, active⟩ := opens
    rw [Service.whenActive_of_get found active]
    exact each connection s
  · rw [Service.whenActive_of_closed opens]
    exact Std.Refl.refl s

theorem replies_serve (rep : Represents s w) {i : Input} (run : Service.serve host i s = .ok () s') :
    s'.replies = s.replies ++ answers host w i := by
  cases i with
  | accept connectionID =>
      cases run
      exact (List.append_nil _).symm
  | data c evt =>
      obtain ⟨x, hears, runs⟩ := Service.hears host c s evt
      rw [runs] at run
      cases hears with
      | closed closed none =>
          rw [answers, if_neg (mt (rep.isOpen c).mpr closed)]
          exact replies_of_silent (.pure ()) run
      | helo opens helo none =>
          rw [answers, if_pos ((rep.isOpen c).mp opens), if_pos helo]
          obtain ⟨u, t, ran, later⟩ := bind_eq_ok.mp run
          obtain ⟨-, rfl⟩ := reply_ok_iff.mp ran
          cases later
          rfl
      | early opens other none =>
          rw [answers, if_pos ((rep.isOpen c).mp opens), if_neg other, ← rep.asks, none]
          obtain ⟨-, rfl⟩ := reply_ok_iff.mp run
          rfl
      | request connection found opens other asked =>
          rw [answers, if_pos ((rep.isOpen c).mp opens), if_neg other, ← rep.asks, asked]
          exact replies_answer rep found run
  | endOfStream c =>
      refine replies_of_silent (silent_whenActive fun connection => ?_) run
      exact (silent_onConnection _).bind fun _ => Moves.forM silent_leave _
  | error c readFailed =>
      refine replies_of_silent (silent_whenActive fun connection => ?_) run
      cases readFailed with
      | false => exact .pure ()
      | true => exact silent_onConnection _
  | call r call =>
      cases run
      exact (List.append_nil _).symm
  | dump => exact replies_of_silent silent_storeAll run
  | outside files =>
      cases run
      exact (List.append_nil _).symm

theorem answered_run {files : FileTree} {inputs : List Input} (run : Run (step host) (initial files) inputs w)
    (plain : ∀ i ∈ inputs, Plain i) :
    ∃ s, Stands s w ∧ s.replies = gathered (step host) (answers host) (initial files) inputs := by
  refine run.history (P := fun done w => (∀ i ∈ done, Plain i) → ∃ s, Stands s w ∧
    s.replies = gathered (step host) (answers host) (initial files) done) ?_ ?_ plain
  · exact fun _ => ⟨.start files, stands_initial files, rfl⟩
  · intro done w i w' before ih taken plain
    obtain ⟨s, stands, said⟩ := ih fun j mem => plain j (List.mem_append_left _ mem)
    obtain ⟨result, next⟩ := simulates_step host (plain i (List.mem_append_right _ (List.mem_singleton_self i))) s w stands
    rw [taken] at result next
    have serves : Service.serve host i s = .ok () (finalState (Service.serve host i s)) := by
      cases served : Service.serve host i s with
      | ok u s' => rfl
      | error e s' =>
          rw [served] at result
          cases result
    refine ⟨_, next, ?_⟩
    rw [replies_serve stands.1 serves, said, gathered_append before, gathered, gathered, List.append_nil]

end

/-- In every run each input is answered at once, at most once and on its own connection, and the peers are told nothing
else. -/
theorem said_of_run (host : Host) (files : FileTree) {inputs : List Input} {w : World} (plain : ∀ i ∈ inputs, Plain i)
    (run : Run (step host) (initial files) inputs w) :
    said w.events = gathered (step host) (answers host) (initial files) inputs ∧
      ∀ w i, (answers host w i).length ≤ 1 ∧ ∀ answer ∈ answers host w i, i.client = some answer.1 ∧ IsOpen w answer.1 := by
  constructor
  · obtain ⟨s, stands, replies⟩ := answered_run run plain
    exact stands.1.replies.trans replies
  · intro w i
    cases i with
    | data c evt =>
        rw [answers]
        by_cases opens : IsOpen w c
        · rw [if_pos opens]
          split
          · simpa [Input.client] using opens
          · split
            · rename_i cmd asked
              cases answerTo host c w cmd <;> simp [Input.client, opens]
            · simpa [Input.client] using opens
        · simp [if_neg opens]
    | _ => simp [answers]

def twoPeers : List Input := [.accept 0, .accept 1, .data 1 helo, .request 0 (str "create") (str "Aldor"),
  .request 1 (str "create") (str "Aldor"), .request 1 (str "create") (str "Aldor")]

theorem said_to_twoPeers :
    let w := finalState (play (step twoCreations) twoPeers (initial .root))
    said w.events = gathered (step twoCreations) (answers twoCreations) (initial .root) twoPeers ∧
      ∀ w i, (answers twoCreations w i).length ≤ 1 ∧
        ∀ answer ∈ answers twoCreations w i, i.client = some answer.1 ∧ IsOpen w answer.1 :=
  said_of_run twoCreations .root (by simp [Plain, Input.request, twoPeers]) (run_play _ _ _ (by decide +kernel))

/-! ## What the peers understand -/

section
variable {p : Platform} {c : Ref} {w : World}

/-- A greeting is no JSON; an error has a code; and everything else is the document of a character. -/
inductive Understood (p : Platform) (msg : Bytes) : Prop
  | greeting : msg = heloReply → p.host.parse msg = .discarded → Understood p msg
  | error (e : Int64 × Bytes) : e ∈ errorReplies → p.host.parse msg = (errorDocument e.1 e.2).normal → Understood p msg
  | character (ch : Character) : p.host.parse msg = ch.document.normal → ch.document.normal.find (str "code") = none → Understood p msg

theorem understood_error {code : Int64} {msg : Bytes} (listed : (code, msg) ∈ errorReplies) : Understood p (errorText code msg) := by
  refine .error _ listed ?_
  have built : Json.Built (Json.Prints p.number p.strtod) (errorDocument code msg) := by
    apply Json.built_ofFields
    simp [Json.Built]
  have dumps := dumpText_eq_ok_iff.mp (errorText_dumps p.host _ listed).1
  have parses : p.host.parse ([] ++ errorText code msg ++ []) = _ := Platform.parse_written built dumps (by simp) (by simp)
  rwa [List.nil_append, List.append_nil] at parses

theorem understood_document {ch : Character} {msg : Bytes} (dumps : dumpText p.host (some 4) ch.document = .ok msg) : Understood p msg := by
  refine .character ch ?_ ?_
  · have built : Json.Built (Json.Prints p.number p.strtod) ch.document := Character.built_document ch
    have parses : p.host.parse ([] ++ msg ++ []) = _ :=
      Platform.parse_written built (dumpText_eq_ok_iff.mp dumps) (by simp) (by simp)
    rwa [List.nil_append, List.append_nil] at parses
  · rw [Json.find_normal]
    rfl

theorem understood_loaded {name text : Bytes} {data : Json} (loads : Service.loadedText p.host c name data = .ok text) :
    Understood p text := by
  rw [Service.loadedText] at loads
  cases run : Character.load p.host.scripts data (newborn name c) with
  | error e ch =>
      rw [run] at loads
      cases loads
  | ok u ch =>
      rw [run] at loads
      change returned (Character.save ch) >>= dumpText p.host (some 4) = .ok text at loads
      cases saved : Character.save ch with
      | error e ch' =>
          rw [saved] at loads
          cases loads
      | ok doc ch' =>
          rw [saved] at loads
          obtain ⟨-, rfl, -⟩ := Character.save_ok_iff.mp saved
          exact understood_document loads

theorem understood_answer {cmd : Command} {msg : Bytes} (answer : answerTo p.host c w cmd = some msg) : Understood p msg := by
  cases cmd with
  | malformed =>
      cases answer
      exact understood_error (by simp [errorReplies])
  | incomplete =>
      cases answer
      exact understood_error (by simp [errorReplies])
  | mistyped => cases answer
  | create name =>
      rw [answerTo] at answer
      split at answer
      · cases answer
        exact understood_error (by simp [errorReplies])
      · cases dumps : Service.newText p.host name with
        | error e =>
            rw [dumps] at answer
            cases answer
        | ok text =>
            rw [dumps] at answer
            cases answer
            exact understood_document dumps
  | load name =>
      obtain ⟨data, -, loads⟩ := Option.bind_eq_some_iff.mp answer
      cases loaded : Service.loadedText p.host c name data with
      | error e =>
          rw [loaded] at loads
          cases loads
      | ok text =>
          rw [loaded] at loads
          cases loads
          exact understood_loaded loaded
  | data name entity action data =>
      rw [answerTo] at answer
      split at answer
      · cases answer
      · cases answer
        exact understood_error (by simp [errorReplies])

theorem understood_answers {i : Input} {answer : Ref × Bytes} (answered : answer ∈ answers p.host w i) : Understood p answer.2 := by
  cases i with
  | data c evt =>
      rw [answers] at answered
      split at answered
      · split at answered
        · rw [List.mem_singleton.mp answered]
          exact .greeting rfl (p.host.parse_nul _)
        · split at answered
          · rename_i cmd asked
            obtain ⟨msg, answer, rfl⟩ := Option.map_eq_some_iff.mp (Option.mem_toList.mp answered)
            exact understood_answer answer
          · have listed : (400, str "HELO was not received") ∈ errorReplies := by simp [errorReplies]
            rw [List.mem_singleton.mp answered]
            exact understood_error listed
      · cases answered
  | _ => cases answered

end

/-- Whatever the peers send, what they are told is the greeting, one of the errors, or the document of a character, and
its text parses as that. -/
theorem replies_understood (p : Platform) (files : FileTree) {inputs : List Input} {w : World} (plain : ∀ i ∈ inputs, Plain i)
    (run : Run (step p.host) (initial files) inputs w) : ∀ reply ∈ said w.events, Understood p reply.2 := by
  intro reply mem
  rw [(said_of_run p.host files plain run).1] at mem
  obtain ⟨w, i, answered⟩ := mem_gathered mem
  exact understood_answers answered

theorem twoPeers_understand :
    let w := finalState (play (step Platform.shipped.host) twoPeers (initial .root))
    (said w.events).length = 4 ∧ ∀ reply ∈ said w.events, Understood Platform.shipped reply.2 :=
  ⟨by decide +kernel, replies_understood Platform.shipped .root (by simp [Plain, Input.request, twoPeers])
    (run_play _ _ _ (by decide +kernel))⟩

end D20Tempest.Server
