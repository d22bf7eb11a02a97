import D20Tempest.Server.Durability
import D20Tempest.Server.Refinement

namespace D20Tempest.Server
open Foundation Components Characters CharacterManager TcpClient

/-! ## Peers that make no characters -/

/-- Neither a character is made nor an exception thrown. -/
def Harmless : Command → Prop
  | .malformed | .incomplete | .data .. => True
  | _ => False

/-- A peer whose requests are harmless may also greet again, fail and leave. -/
def Bystands (host : Host) : Input → Prop
  | .data _ evt => IsHelo evt.text ∨ Harmless (command (host.parse evt.text))
  | _ => True

/-- Two services that differ in one connection, which has no characters, and in what was said on it. -/
structure AlikeBut (c : Ref) (s t : Service) : Prop where
  files : s.files = t.files
  registered : s.registered = t.registered
  next : s.connections.next = t.connections.next
  others : ∀ c', c' ≠ c → s.connections.get c' = t.connections.get c'
  replies : s.replies.filter (·.1 ≠ c) = t.replies.filter (·.1 ≠ c)
  childless : ∀ connection, s.connections.get c = some connection → connection.characters = []

section
variable {host : Host} {c c' : Ref} {s t : Service} {name : Bytes}

theorem AlikeBut.refl (childless : ∀ connection, s.connections.get c = some connection → connection.characters = []) : AlikeBut c s s :=
  ⟨rfl, rfl, rfl, fun _ _ => rfl, rfl, childless⟩

/-! ### The others -/

theorem alike_reply (c' : Ref) (msg : Bytes) : Simulates (AlikeBut c) (Service.reply c' msg) (Service.reply c' msg) := by
  intro s t alike
  rw [Service.reply]
  by_cases long : 2 ^ 32 ≤ msg.length
  · rw [if_pos long]
    exact ⟨rfl, alike⟩
  · rw [if_neg long]
    obtain ⟨files, registered, next, others, replies, childless⟩ := alike
    refine ⟨rfl, files, registered, next, others, ?_, childless⟩
    show (s.replies ++ [(c', msg)]).filter _ = (t.replies ++ [(c', msg)]).filter _
    rw [List.filter_append, List.filter_append, replies]

theorem alike_onConnection (other : c' ≠ c) (f : Connection → Connection) :
    Simulates (AlikeBut c) (Service.onConnection c' f) (Service.onConnection c' f) := by
  intro s t alike
  obtain ⟨files, registered, next, others, replies, childless⟩ := alike
  refine ⟨rfl, files, registered, next, fun d apart => ?_, replies, fun connection found => ?_⟩
  · show (s.connections.modify c' f).get d = (t.connections.modify c' f).get d
    rw [Arena.get_modify, Arena.get_modify, others c' other, others d apart]
  · exact childless connection ((Arena.get_modify_of_ne _ _ other.symm).symm.trans found)

theorem AlikeBut.stored (alike : AlikeBut c s t) (files : FileTree) : AlikeBut c { s with files := files } { t with files := files } := by
  obtain ⟨-, registered, next, others, replies, childless⟩ := alike
  exact ⟨rfl, registered, next, others, replies, childless⟩

theorem alike_prepare : Simulates (AlikeBut c) (Service.prepare host) (Service.prepare host) := by
  intro s t alike
  rw [Service.prepare, bind_of_ok (get_apply s), bind_of_ok (get_apply t), alike.files]
  cases readyFiles host t.files with
  | none => exact ⟨rfl, alike⟩
  | some files => exact ⟨rfl, alike.stored files⟩

theorem alike_save (name : Bytes) : Simulates (AlikeBut c) (Service.save host name) (Service.save host name) := by
  intro s t alike
  rw [Service.save]
  cases Service.newText host name with
  | error e => exact ⟨rfl, alike⟩
  | ok text =>
      rw [evaluate_ok, pure_bind, bind_of_ok (get_apply s), bind_of_ok (get_apply t), alike.files]
      cases savedFiles host t.files (charactersPath ++ name) text with
      | none => exact ⟨rfl, alike⟩
      | some files => exact ⟨rfl, alike.stored files⟩

theorem alike_store : Simulates (AlikeBut c) (Service.store host) (Service.store host) := by
  intro s t alike
  rw [Service.store, bind_of_ok (get_apply s), bind_of_ok (get_apply t), alike.registered]
  cases t.registered with
  | none => exact ⟨rfl, alike⟩
  | some name => exact (alike_prepare.bind fun _ => alike_save name) s t alike

theorem alike_storeAll : Simulates (AlikeBut c) (Service.storeAll host) (Service.storeAll host) := by
  apply alike_prepare.bind
  intro _ s t alike
  rw [bind_of_ok (get_apply s), bind_of_ok (get_apply t), alike.registered]
  cases t.registered with
  | none => exact ⟨rfl, alike⟩
  | some name => exact alike_save name s t alike

theorem alike_text (c' : Ref) (text : Except Fault Bytes) :
    Simulates (AlikeBut c) (evaluate text >>= Service.reply c') (evaluate text >>= Service.reply c') := by
  cases text with
  | error e => exact .throw e
  | ok text => exact alike_reply c' text

theorem alike_create (other : c' ≠ c) : Simulates (AlikeBut c) (Service.create host c' name) (Service.create host c' name) := by
  intro s t alike
  cases exist : t.files.pathExists host.cwd (charactersPath ++ name) with
  | true =>
      rw [Service.create_of_taken exist, Service.create_of_taken (alike.files ▸ exist)]
      exact alike_reply c' _ s t alike
  | false =>
      have registers : AlikeBut c { s with registered := some (s.registered.getD name) } { t with registered := some (t.registered.getD name) } := by
        obtain ⟨files, registered, next, others, replies, childless⟩ := alike
        exact ⟨files, congrArg (fun r => some (r.getD name)) registered, next, others, replies, childless⟩
      rw [Service.create_of_free exist, Service.create_of_free (alike.files ▸ exist), alike.registered] at *
      exact ((alike_onConnection other _).bind fun _ => alike_store.bind fun _ => alike_text c' _) _ _ registers

theorem alike_load (other : c' ≠ c) : Simulates (AlikeBut c) (Service.load host c' name) (Service.load host c' name) := by
  intro s t alike
  cases exist : t.files.pathExists host.cwd (charactersPath ++ name) with
  | false =>
      rw [Service.load_of_missing exist, Service.load_of_missing (alike.files ▸ exist)]
      exact ((alike_reply c' _).bind fun _ => .throw _) s t alike
  | true =>
      rw [Service.load_of_found exist, Service.load_of_found (alike.files ▸ exist), alike.files]
      cases savedDocument host t.files name with
      | none => exact ⟨rfl, alike⟩
      | some data => exact ((alike_onConnection other _).bind fun _ => alike_text c' _) s t alike

theorem alike_answer (other : c' ≠ c) (connection : Connection) (cmd : Command) :
    Simulates (AlikeBut c) (Service.answer host c' connection cmd) (Service.answer host c' connection cmd) := by
  cases cmd with
  | malformed =>
      rw [Service.answer]
      exact alike_reply c' _
  | incomplete =>
      rw [Service.answer]
      exact alike_reply c' _
  | mistyped => exact .throw _
  | create name => exact alike_create other
  | load name => exact alike_load other
  | data name entity action data =>
      rw [Service.answer]
      split
      · exact .pure ()
      · exact alike_reply c' _

theorem alike_leave (kept : Bool) : Simulates (AlikeBut c) (Service.leave host kept) (Service.leave host kept) := by
  cases kept with
  | false => exact .throw _
  | true => exact alike_store

theorem alike_whenActive (other : c' ≠ c) {x : Connection → Action Service Unit} (each : ∀ connection, Simulates (AlikeBut c) (x connection) (x connection)) :
    Simulates (AlikeBut c) (Service.whenActive c' x) (Service.whenActive c' x) := by
  intro s t alike
  by_cases opens : s.Open c'
  · obtain ⟨connection, found, active⟩ := opens
    rw [Service.whenActive_of_get found active, Service.whenActive_of_get ((alike.others c' other).symm.trans found) active]
    exact each connection s t alike
  · have closed : ¬ t.Open c' := by rwa [Service.Open, ← alike.others c' other]
    rw [Service.whenActive_of_closed opens, Service.whenActive_of_closed closed]
    exact ⟨rfl, alike⟩

/-- What is not about the connection has the same effects in both. -/
theorem alike_serve {i : Input} (other : i.client ≠ some c) : Simulates (AlikeBut c) (Service.serve host i) (Service.serve host i) := by
  have apart : ∀ {c'}, i.client = some c' → c' ≠ c := by
    rintro c' eq rfl
    exact other eq
  cases i with
  | accept connectionID =>
      intro s t alike
      obtain ⟨files, registered, next, others, replies, childless⟩ := alike
      refine ⟨rfl, files, registered, congrArg (· + 1) next, fun d apart => ?_, replies, fun connection found => ?_⟩
      · show (s.connections.alloc _).get d = (t.connections.alloc _).get d
        rw [Arena.get_alloc, Arena.get_alloc, next, others d apart]
      · change (s.connections.alloc _).get c = some connection at found
        rw [Arena.get_alloc] at found
        split at found
        · cases found
          rfl
        · exact childless connection found
  | data c' evt =>
      refine alike_whenActive (apart rfl) fun connection => ?_
      split
      · exact (alike_reply c' _).bind fun _ => alike_onConnection (apart rfl) _
      · split
        · exact alike_answer (apart rfl) connection _
        · exact alike_reply c' _
  | endOfStream c' =>
      refine alike_whenActive (apart rfl) fun connection => ?_
      exact (alike_onConnection (apart rfl) _).bind fun _ => .forM _ fun kept _ => alike_leave kept
  | error c' readFailed =>
      refine alike_whenActive (apart rfl) fun connection => ?_
      cases readFailed with
      | false => exact .pure ()
      | true => exact alike_onConnection (apart rfl) _
  | call r call => exact .pure ()
  | dump => exact alike_storeAll
  | outside files =>
      intro s t alike
      exact ⟨rfl, alike.stored files⟩

/-! ### The bystander -/

theorem AlikeBut.replied (alike : AlikeBut c s t) (msg : Bytes) : AlikeBut c (s.replied c msg) t := by
  obtain ⟨files, registered, next, others, replies, childless⟩ := alike
  refine ⟨files, registered, next, others, ?_, childless⟩
  rw [Service.replied, List.filter_append, ← replies]
  simp

theorem AlikeBut.changed (alike : AlikeBut c s t) {f : Connection → Connection}
    (kept : ∀ connection, (f connection).characters = connection.characters) :
    AlikeBut c { s with connections := s.connections.modify c f } t := by
  obtain ⟨files, registered, next, others, replies, childless⟩ := alike
  refine ⟨files, registered, next, fun c' apart => ?_, replies, fun connection found => ?_⟩
  · exact (Arena.get_modify_of_ne _ _ apart).trans (others c' apart)
  · change (s.connections.modify c f).get c = some connection at found
    rw [Arena.get_modify_self] at found
    obtain ⟨before, held, rfl⟩ := Option.map_eq_some_iff.mp found
    exact (kept before).trans (childless before held)

theorem refused_alike (alike : AlikeBut c s t) {code : Int64} {msg : Bytes} (listed : (code, msg) ∈ errorReplies) :
    ∃ s', Service.reply c (errorText code msg) s = .ok () s' ∧ AlikeBut c s' t :=
  ⟨_, reply_error s c listed, alike.replied _⟩

theorem answer_alike (alike : AlikeBut c s t) {connection : Connection} (found : s.connections.get c = some connection) {cmd : Command}
    (harmless : Harmless cmd) : ∃ s', Service.answer host c connection cmd s = .ok () s' ∧ AlikeBut c s' t := by
  cases cmd with
  | malformed =>
      have listed : (400, str "JSON malformed") ∈ errorReplies := by simp [errorReplies]
      exact refused_alike alike listed
  | incomplete =>
      have listed : (400, str "Missing elements in JSON") ∈ errorReplies := by simp [errorReplies]
      exact refused_alike alike listed
  | data name entity action data =>
      have listed : (404, str "Unknown entity") ∈ errorReplies := by simp [errorReplies]
      have unhandled : ¬ (entity = abilityEntity ∧ connection.characters ≠ []) := fun both => both.2 (alike.childless connection found)
      rw [Service.answer, if_neg unhandled]
      exact refused_alike alike listed
  | _ => exact harmless.elim

/-- What a bystander sends returns, and is noticed by nobody else. -/
theorem bystands_serve {i : Input} (own : i.client = some c) (bystands : Bystands host i) (alike : AlikeBut c s t) :
    ∃ s', Service.serve host i s = .ok () s' ∧ AlikeBut c s' t := by
  have idle : ∃ s', (.ok () s : EStateM.Result Fault Service Unit) = .ok () s' ∧ AlikeBut c s' t := ⟨s, rfl, alike⟩
  have leaves : AlikeBut c { s with connections := s.connections.modify c fun connection => { connection with active := false } } t :=
    alike.changed fun _ => rfl
  cases i with
  | data c' evt =>
      obtain rfl := Option.some.inj own
      obtain ⟨x, hears, runs⟩ := Service.hears host c' s evt
      rw [runs]
      cases hears with
      | closed closed none => exact idle
      | helo opens helo none =>
          have short : ¬ 2 ^ 32 ≤ heloReply.length := by decide
          have replies : Service.reply c' heloReply s = .ok () (s.replied c' heloReply) := by
            rw [Service.reply, if_neg short]
            rfl
          rw [bind_of_ok replies]
          exact ⟨_, rfl, (alike.replied heloReply).changed fun _ => rfl⟩
      | early opens other none =>
          have listed : (400, str "HELO was not received") ∈ errorReplies := by simp [errorReplies]
          exact refused_alike alike listed
      | request connection found opens other asked => exact answer_alike alike found (bystands.resolve_left other)
  | endOfStream c' =>
      obtain rfl := Option.some.inj own
      rw [Service.serve]
      by_cases opens : s.Open c'
      · obtain ⟨connection, found, active⟩ := opens
        rw [Service.whenActive_of_get found active, alike.childless connection found]
        exact ⟨_, rfl, leaves⟩
      · rw [Service.whenActive_of_closed opens]
        exact idle
  | error c' readFailed =>
      obtain rfl := Option.some.inj own
      rw [Service.serve]
      by_cases opens : s.Open c'
      · obtain ⟨connection, found, active⟩ := opens
        rw [Service.whenActive_of_get found active]
        cases readFailed with
        | false => exact idle
        | true => exact ⟨_, rfl, leaves⟩
      · rw [Service.whenActive_of_closed opens]
        exact idle
  | _ => cases own

/-! ### Runs -/

/-- The inputs without those of one connection. -/
def without (c : Ref) (inputs : List Input) : List Input := inputs.filter fun i => i.client ≠ some c

theorem alike_play {inputs : List Input} (bystands : ∀ i ∈ inputs, i.client = some c → Bystands host i) (alike : AlikeBut c s t) :
    returned (play (Service.serve host) inputs s) = returned (play (Service.serve host) (without c inputs) t) ∧
      AlikeBut c (finalState (play (Service.serve host) inputs s)) (finalState (play (Service.serve host) (without c inputs) t)) := by
  induction inputs generalizing s t with
  | nil => exact ⟨rfl, alike⟩
  | cons i rest ih =>
      obtain ⟨first, others⟩ := List.forall_mem_cons.mp bystands
      by_cases own : i.client = some c
      · obtain ⟨s', serves, alike'⟩ := bystands_serve own (first own) alike
        have dropped : without c (i :: rest) = without c rest := List.filter_cons_of_neg (by simpa using own)
        rw [dropped, play, bind_of_ok serves]
        exact ih others alike'
      · have kept : without c (i :: rest) = i :: without c rest := List.filter_cons_of_pos (by simpa using own)
        rw [kept, play, play]
        obtain ⟨result, alike'⟩ := alike_serve own s t alike
        rcases same_outcome result with ⟨u, runS, runT⟩ | ⟨e, runS, runT⟩
        · rw [bind_of_ok runS, bind_of_ok runT]
          exact ih others alike'
        · rw [bind_of_error runS, bind_of_error runT]
          exact ⟨rfl, alike'⟩

end

theorem stands_clients {s : Service} {w : World} (stands : Stands s w) (c : Ref) :
    ((w.clients.get c).map fun client => (client.active, client.heloParsed)) =
      (s.connections.get c).map fun connection => (connection.active, connection.heloParsed) := by
  rw [stands.1.get c, Option.map_map]
  rfl

/-- Without the inputs of a peer that makes no characters, the server ends as it did, with the same files, and every other
peer has been told the same. -/
theorem bystander_unnoticed (host : Host) (files : FileTree) (c : Ref) {inputs : List Input} (plain : ∀ i ∈ inputs, Plain i)
    (bystands : ∀ i ∈ inputs, i.client = some c → Bystands host i) :
    let all := play (step host) inputs (initial files)
    let others := play (step host) (without c inputs) (initial files)
    returned all = returned others ∧ (finalState all).files = (finalState others).files ∧
      (said (finalState all).events).filter (·.1 ≠ c) = (said (finalState others).events).filter (·.1 ≠ c) ∧
      ∀ c', c' ≠ c → ((finalState all).clients.get c').map (fun client => (client.active, client.heloParsed)) =
        ((finalState others).clients.get c').map fun client => (client.active, client.heloParsed) := by
  intro all others
  have plain' : ∀ i ∈ without c inputs, Plain i := fun i mem => plain i (List.mem_of_mem_filter mem)
  have start : AlikeBut c (.start files) (.start files) := .refl fun connection found => by cases found
  obtain ⟨result, alike⟩ := alike_play bystands start
  obtain ⟨resultAll, standsAll⟩ := simulates_play host plain _ _ (stands_initial files)
  obtain ⟨resultOthers, standsOthers⟩ := simulates_play host plain' _ _ (stands_initial files)
  refine ⟨resultAll.symm.trans (result.trans resultOthers), ?_, ?_, fun c' apart => ?_⟩
  · rw [standsAll.1.files, standsOthers.1.files, alike.files]
  · rw [standsAll.1.replies, standsOthers.1.replies, alike.replies]
  · rw [stands_clients standsAll, stands_clients standsOthers, alike.others c' apart]

theorem bystander_of_aldor :
    let inputs := [.accept 0, .accept 1, .data 1 helo, .data 0 (.of (str "[")), .request 1 (str "create") (str "Aldor"), .data 0 helo,
      .data 0 (.of (str "[")), .endOfStream 0, .endOfStream 1]
    let all := play (step twoCreations) inputs (initial .root)
    let others := play (step twoCreations) (without 0 inputs) (initial .root)
    returned all = returned others ∧ (finalState all).files = (finalState others).files ∧
      (said (finalState all).events).filter (·.1 ≠ 0) = (said (finalState others).events).filter (·.1 ≠ 0) ∧
      ∀ c', c' ≠ 0 → ((finalState all).clients.get c').map (fun client => (client.active, client.heloParsed)) =
        ((finalState others).clients.get c').map fun client => (client.active, client.heloParsed) := by
  have helloed : IsHelo helo.text := by decide
  have malformed : command (twoCreations.parse (DataEvent.of (str "[")).text) = .malformed := rfl
  exact bystander_unnoticed twoCreations .root 0 (by simp [Plain, Input.request])
    (by simp [Bystands, Input.client, Input.request, helloed, malformed, Harmless])

end D20Tempest.Server
