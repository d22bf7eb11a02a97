import D20Tempest.Server.Ownership

namespace D20Tempest.Server
open Foundation Components Characters CharacterManager TcpClient

/-! ## The clients after a step -/

section Clients
variable {host : Host} {c : Ref} {w : World}

theorem respond_clients_of_constructs {cmd : Command} (sound : Sound w) (constructs : Constructs host w cmd) :
    (finalState (respond host c cmd w)).clients = adopted w (some c) w.heap.next := by
  cases cmd with
  | create name =>
      obtain ⟨w₁, quiet, eq⟩ := create_outcome (c := c) sound constructs
      rw [respond, eq, release_clients, quiet.clients]
      rfl
  | load name =>
      obtain ⟨data, held⟩ := constructs
      rw [respond, loadCharacterHandler_of_found held]
      cases Character.load host.scripts data (newborn name c) with
      | error e ch => exact release_clients _ _
      | ok u ch =>
          have quiet : Continues host (loaded w name (some c) ch) _ :=
            ((quietly_saveText w.heap.next).bind fun text => quietly_send c text) _ (sound_loaded host sound ch).1
          simp only [finalState_holding, release_clients]
          exact quiet.clients
  | _ => exact constructs.elim

theorem respond_clients_of_not {cmd : Command} (sound : Sound w) (isOpen : IsOpen w c)
    (no : ¬ Constructs host w cmd) : (finalState (respond host c cmd w)).clients = w.clients := by
  cases cmd with
  | malformed =>
      have quiet : Continues host w _ := quietly_sendError c 400 (str "JSON malformed") w sound
      exact quiet.clients
  | incomplete =>
      have quiet : Continues host w _ := quietly_sendError c 400 (str "Missing elements in JSON") w sound
      exact quiet.clients
  | mistyped => rfl
  | create name =>
      have exist : w.files.pathExists host.cwd (charactersPath ++ name) = true := by simpa [Constructs] using no
      rw [respond, createCharacterHandler_of_existing isOpen exist]
      rfl
  | load name =>
      cases exist : w.files.pathExists host.cwd (charactersPath ++ name) with
      | false =>
          rw [respond, loadCharacterHandler_of_missing isOpen exist]
          rfl
      | true =>
          have unreadable : savedDocument host w.files name = none := by
            simpa [Constructs, Option.eq_none_iff_forall_ne_some] using no
          rw [respond, loadCharacterHandler_of_unreadable exist unreadable]
          rfl
  | data name entity action data =>
      have quiet : Continues host w _ := quietly_dataCharacterHandler c name entity action data w sound
      exact quiet.clients

/-- The clients after an input that has no character constructed. -/
def calmClients (w : World) : Input → Arena Client
  | .accept connectionID => w.clients.alloc (Client.make connectionID)
  | .data c evt =>
      if IsOpen w c ∧ IsHelo evt.text then w.clients.modify c fun client => { client with heloParsed := true }
      else w.clients
  | .endOfStream c => if IsOpen w c then w.clients.modify c close else w.clients
  | .error c readFailed => if IsOpen w c ∧ readFailed then w.clients.modify c close else w.clients
  | _ => w.clients

theorem step_clients_of_constructs {i : Input} {cmd : Command} (sound : Sound w) (asked : asks host w i = some cmd)
    (constructs : Constructs host w cmd) :
    ∃ c evt, i = .data c evt ∧ IsOpen w c ∧
      (finalState (step host i w)).clients = adopted w (some c) w.heap.next := by
  cases i with
  | data c evt =>
      obtain ⟨cl, found, active, other, parsed, rfl⟩ := (asks_data_iff host evt).mp asked
      refine ⟨c, evt, rfl, ⟨cl, found, active⟩, ?_⟩
      rw [step_data_of_open host evt found active, if_neg other, if_pos parsed,
        respond_clients_of_constructs (w := w.seen _) sound constructs]
      rfl
  | _ => cases asked

theorem step_clients_of_calm (host : Host) (i : Input) (sound : Sound w)
    (no : ∀ cmd, asks host w i = some cmd → ¬ Constructs host w cmd) :
    (finalState (step host i w)).clients = calmClients w i := by
  cases i with
  | accept connectionID => rfl
  | data c evt =>
      by_cases isOpen : IsOpen w c
      · obtain ⟨cl, found, active⟩ := isOpen
        rw [step_data_of_open host evt found active, calmClients]
        by_cases helo : IsHelo evt.text
        · rw [if_pos helo, if_pos ⟨⟨cl, found, active⟩, helo⟩]
          rfl
        · have stays : ¬ (IsOpen w c ∧ IsHelo evt.text) := fun both => helo both.2
          rw [if_neg helo, if_neg stays]
          split
          · have asked := (asks_data_iff host evt).mpr ⟨cl, found, active, helo, ‹_›, rfl⟩
            exact respond_clients_of_not (w := w.seen _) sound ⟨cl, found, active⟩ (no _ asked)
          · rfl
      · rw [step_data_of_closed host evt isOpen, calmClients, if_neg fun both => isOpen both.1]
        rfl
  | endOfStream c =>
      rw [calmClients]
      by_cases isOpen : IsOpen w c
      · rw [step, whenOpen_of_open isOpen, bind_of_ok (onClient_apply w c close), if_pos isOpen]
        have quiet : Continues host { w with clients := w.clients.modify c close } _ := quietly_endEvent c _ sound
        exact quiet.clients
      · rw [step, whenOpen_of_closed isOpen, if_neg isOpen]
        rfl
  | error c readFailed =>
      rw [calmClients]
      by_cases isOpen : IsOpen w c
      · rw [step, whenOpen_of_open isOpen]
        cases readFailed <;> simp [isOpen, onClient_apply]
      · rw [step, whenOpen_of_closed isOpen, if_neg fun both => isOpen both.1]
        rfl
  | call r call => rfl
  | dump =>
      have quiet : Continues host w _ := quietly_dumpAll w sound
      exact quiet.clients
  | outside files => rfl

def Terminates (c : Ref) : Input → Prop
  | .endOfStream c' => c' = c
  | .error c' readFailed => c' = c ∧ readFailed = true
  | _ => False

theorem isOpen_of_active {w' : World}
    (same : (w'.clients.get c).map Client.active = (w.clients.get c).map Client.active) : IsOpen w' c ↔ IsOpen w c := by
  have spelled : ∀ w : World, IsOpen w c ↔ (w.clients.get c).map Client.active = some true := by simp [TcpClient.IsOpen]
  rw [spelled, spelled, same]

theorem isOpen_closed {w' : World} {c' : Ref} (clients : w'.clients = w.clients.modify c' close) :
    IsOpen w' c ↔ IsOpen w c ∧ c' ≠ c := by
  rw [TcpClient.IsOpen, clients, Arena.get_modify]
  split
  · rename_i same
    subst same
    constructor
    · intro opens
      obtain ⟨cl, found, active⟩ := opens
      obtain ⟨cl', -, rfl⟩ := Option.map_eq_some_iff.mp found
      cases active
    · intro both
      exact absurd rfl both.2
  · rename_i other
    exact ⟨fun opens => ⟨opens, fun eq => other eq.symm⟩, And.left⟩

theorem isOpen_step (host : Host) (c : Ref) (i : Input) (sound : Sound w) (served : ∀ connectionID, i ≠ .accept connectionID) :
    IsOpen (finalState (step host i w)) c ↔ IsOpen w c ∧ ¬ Terminates c i := by
  have stays : ∀ w' : World, w'.clients = w.clients → (IsOpen w' c ↔ IsOpen w c) := fun w' same =>
    isOpen_of_active (by rw [same])
  by_cases making : ∃ cmd, asks host w i = some cmd ∧ Constructs host w cmd
  · obtain ⟨cmd, asked, constructs⟩ := making
    obtain ⟨c', evt, rfl, -, clients⟩ := step_clients_of_constructs sound asked constructs
    generalize finalState (step host (.data c' evt) w) = w' at clients ⊢
    have same : IsOpen w' c ↔ IsOpen w c := by
      apply isOpen_of_active
      rw [clients]
      exact Arena.map_get_modify _ _ _ fun _ => rfl
    rw [same]
    exact (and_iff_left id).symm
  · have clients := step_clients_of_calm host i sound fun cmd asked constructs => making ⟨cmd, asked, constructs⟩
    generalize finalState (step host i w) = w' at clients ⊢
    cases i with
    | accept connectionID => exact absurd rfl (served connectionID)
    | data c' evt =>
        have same : IsOpen w' c ↔ IsOpen w c := by
          apply isOpen_of_active
          rw [clients, calmClients]
          split
          · exact Arena.map_get_modify _ _ _ fun _ => rfl
          · rfl
        rw [same]
        exact (and_iff_left id).symm
    | endOfStream c' =>
        rw [calmClients] at clients
        split at clients
        · exact isOpen_closed clients
        · rename_i isOpen
          rw [stays w' clients]
          exact ⟨fun opens => ⟨opens, fun same => isOpen (same ▸ opens)⟩, And.left⟩
    | error c' readFailed =>
        rw [calmClients] at clients
        split at clients
        · rename_i fails
          rw [isOpen_closed clients, Terminates, fails.2]
          simp
        · rename_i fails
          rw [stays w' clients]
          exact ⟨fun opens => ⟨opens, fun last => fails ⟨last.1 ▸ opens, last.2⟩⟩, And.left⟩
    | _ =>
        rw [stays w' clients]
        exact (and_iff_left id).symm

end Clients

/-! ## The characters of a connection -/

/-- The name of the character that a command has constructed, as far as it was loaded. -/
def constructed (host : Host) (c : Ref) (w : World) : Command → Option Bytes
  | .create name => if w.files.pathExists host.cwd (charactersPath ++ name) then none else some name
  | .load name => (savedDocument host w.files name).map fun data =>
      (finalState (Character.load host.scripts data (newborn name c))).name
  | _ => none

/-- The character that an input has constructed on a connection, with its name. -/
def joins (host : Host) (c : Ref) (w : World) : Input → List (Ref × Bytes)
  | .data c' evt => if c' = c then
        (((asks host w (.data c evt)).bind (constructed host c w)).map fun name => (w.heap.next, name)).toList
      else []
  | _ => []

/-- A list of handlers to which each character adds its own. -/
structure HandlerTable where
  handlers : Client → List Ref
  fresh : ∀ connectionID, handlers (Client.make connectionID) = []
  adopts : ∀ cl r, handlers ((cl.onLeave (some r)).onMessage (str "character/ability") (some r)) = handlers cl ++ [r]
  parsed : ∀ cl, handlers { cl with heloParsed := true } = handlers cl
  closed : ∀ cl, handlers (close cl) = handlers cl

def HandlerTable.on (table : HandlerTable) (clients : Arena Client) (c : Ref) : List Ref :=
  ((clients.get c).map table.handlers).getD []

section Joins
variable {host : Host} {c : Ref} {w : World} {i : Input} (table : HandlerTable)

theorem constructed_iff (c : Ref) {cmd : Command} : (∃ name, constructed host c w cmd = some name) ↔ Constructs host w cmd := by
  cases cmd with
  | create name => simp [constructed, Constructs]
  | load name => simp [constructed, Constructs]
  | _ => simp [constructed, Constructs]

theorem joins_of_calm (c : Ref) (calm : ∀ cmd, asks host w i = some cmd → ¬ Constructs host w cmd) :
    joins host c w i = [] := by
  cases i with
  | data c' evt =>
      have none : (asks host w (.data c evt)).bind (constructed host c w) = none ∨ c' ≠ c := by
        refine or_iff_not_imp_right.mpr fun same => ?_
        obtain rfl := not_not.mp same
        cases made : (asks host w (.data c' evt)).bind (constructed host c' w) with
        | none => rfl
        | some name =>
            obtain ⟨cmd, asked, named⟩ := Option.bind_eq_some_iff.mp made
            exact absurd ((constructed_iff c').mp ⟨name, named⟩) (calm cmd asked)
      rcases none with none | other
      · simp [joins, none]
      · simp [joins, other]
  | _ => rfl

namespace HandlerTable

theorem on_adopted (isOpen : IsOpen w c) (c' r : Ref) :
    table.on (adopted w (some c) r) c' = table.on w.clients c' ++ if c = c' then [r] else [] := by
  obtain ⟨cl, found, -⟩ := isOpen
  by_cases same : c = c'
  · subst same
    simp [on, adopted, found, table.adopts]
  · have other : (adopted w (some c) r).get c' = w.clients.get c' := get_adopted_of_ne _ fun eq => same (Option.some.inj eq)
    rw [on, other, if_neg same, List.append_nil, on]

theorem on_modify (clients : Arena Client) (c c' : Ref) {f : Client → Client}
    (kept : ∀ cl, table.handlers (f cl) = table.handlers cl) : table.on (clients.modify c f) c' = table.on clients c' := by
  rw [on, on, Arena.map_get_modify _ _ _ kept]

theorem on_calm (w : World) (i : Input) (c : Ref) : table.on (calmClients w i) c = table.on w.clients c := by
  cases i with
  | accept connectionID =>
      simp only [on, calmClients, Arena.get_alloc]
      split
      · rename_i same
        simp [same, table.fresh]
      · rfl
  | data c' evt =>
      rw [calmClients]
      split
      · exact table.on_modify _ c' c table.parsed
      · rfl
  | endOfStream c' =>
      rw [calmClients]
      split
      · exact table.on_modify _ c' c table.closed
      · rfl
  | error c' readFailed =>
      rw [calmClients]
      split
      · exact table.on_modify _ c' c table.closed
      · rfl
  | _ => rfl

theorem on_step (host : Host) (sound : Sound w) (i : Input) (c : Ref) :
    table.on (finalState (step host i w)).clients c = table.on w.clients c ++ (joins host c w i).map Prod.fst := by
  by_cases making : ∃ cmd, asks host w i = some cmd ∧ Constructs host w cmd
  · obtain ⟨cmd, asked, constructs⟩ := making
    obtain ⟨c', evt, rfl, isOpen, clients⟩ := step_clients_of_constructs sound asked constructs
    obtain ⟨name, made⟩ := (constructed_iff c').mpr constructs
    rw [clients, table.on_adopted isOpen, joins]
    split
    · rename_i same
      subst same
      simp [asked, made]
    · rfl
  · have calm : ∀ cmd, asks host w i = some cmd → ¬ Constructs host w cmd :=
      fun cmd asked constructs => making ⟨cmd, asked, constructs⟩
    rw [step_clients_of_calm host i sound calm, joins_of_calm c calm, List.map_nil, List.append_nil]
    exact table.on_calm w i c

end HandlerTable
end Joins

/-! ## What is seen in a step -/

def since (w w' : World) : List Event := w'.events.drop w.events.length

theorem since_of_append {w w' : World} {more : List Event} (eq : w'.events = w.events ++ more) : since w w' = more := by
  rw [since, eq, List.drop_left]

def Emits (P : Event → Prop) (w w' : World) : Prop := ∃ more, w'.events = w.events ++ more ∧ ∀ e ∈ more, P e

section Emits
variable {host : Host} {c : Ref} {w : World} {P : Event → Prop}

theorem Emits.of_eq {w' : World} (same : w'.events = w.events) : Emits P w w' := ⟨[], by simp [same], by simp⟩

instance : Std.Refl (Emits P) := ⟨fun _ => .of_eq rfl⟩

instance : IsTrans World (Emits P) := ⟨fun _ _ _ first second => seen_trans first second⟩

theorem emits_log {e : Event} (plain : P e) : Moves (Emits P) (log e) := fun w => ⟨[e], rfl, by simpa using plain⟩

theorem emits_modify {f : World → World} (same : ∀ w, (f w).events = w.events) :
    Moves (Emits P) (modify f : Action World PUnit) := fun w => .of_eq (same w)

theorem emits_deref (r : Ref) : Moves (Emits P) (deref r) := by
  intro w
  cases found : w.heap.get r <;> simp [deref, bind_apply, found, Emits.of_eq]

theorem emits_clientAt (c : Ref) : Moves (Emits P) (clientAt c) := by
  intro w
  cases found : w.clients.get c <;> simp [clientAt, bind_apply, found, Emits.of_eq]

theorem emits_onCharacter {α : Type} (r : Ref) (x : Action Character α) : Moves (Emits P) (onCharacter r x) := by
  intro w
  unfold onCharacter
  cases w.heap.get r with
  | none => exact .of_eq rfl
  | some ch => cases run : x ch <;> simp only [run] <;> exact .of_eq rfl

theorem emits_saveText (r : Ref) : Moves (Emits P) (saveText host r) :=
  (emits_onCharacter r _).bind fun _ => .evaluate _

theorem emits_holding {α : Type} (r : Ref) {x : Action World α} (emits : Moves (Emits P) x) :
    Moves (Emits P) (holding r x) := by
  intro w
  have first := emits w
  rw [finalState_holding]
  obtain ⟨more, eq, kinds⟩ := first
  exact ⟨more, (release_events _ _).trans eq, kinds⟩

theorem emits_send (c : Ref) {msg : Bytes} (sent : msg.length < 2 ^ 32 → P (.sent c msg)) :
    Moves (Emits P) (send c msg) := by
  apply (emits_clientAt c).bind
  intro client
  split
  · exact .pure _
  · split
    · rw [throw_bind]
      exact .throw _
    · rename_i short
      exact emits_log (sent (Nat.not_le.mp short))

theorem emits_ensureDirectory : Moves (Emits P) (ensureDirectory host) := by
  intro w
  rw [ensureDirectory_apply]
  cases readyFiles host w.files <;> exact .of_eq rfl

section Files
variable (files : ∀ access name path, P (.file access name path))
include files

theorem emits_openStream (name path : Bytes) : Moves (Emits P) (openStream host name path) := by
  have clears : Moves (Emits P) (removeFile host name path) := by
    intro w
    rw [removeFile_apply]
    cases w.files.remove host.cwd path <;> exact ⟨[_], rfl, by simpa using files ..⟩
  have opens : Moves (Emits P) (truncateFile host name path) :=
    (emits_log (files ..)).bind fun _ => emits_modify fun _ => rfl
  have tests : Moves (Emits P) (testFile host name path) := fun w => ⟨[_], rfl, by simpa using files ..⟩
  apply tests.bind
  intro present
  split
  · exact clears.bind fun _ => opens
  · exact opens

theorem emits_dumpCharacter (r : Ref) : Moves (Emits P) (dumpCharacter host r) := by
  have writes : ∀ name path text, Moves (Emits P) (writeFile host name path text) := fun _ _ _ =>
    (emits_log (files ..)).bind fun _ => emits_modify fun _ => rfl
  exact (emits_deref r).bind fun _ => (emits_openStream files _ _).bind fun _ => (emits_onCharacter r _).bind fun doc =>
    moves_streamDocument (writes _ _) doc

theorem emits_dump (id : UInt64) : Moves (Emits P) (dump host id) := by
  intro w
  cases held : w.characters.find id with
  | none =>
      rw [dump_of_unregistered held]
      exact .of_eq rfl
  | some r =>
      rw [dump_of_registered held]
      cases readyFiles host w.files with
      | none => exact .of_eq rfl
      | some ready => exact emits_dumpCharacter files r { w with files := ready }

theorem emits_dumpAll : Moves (Emits P) (dumpAll host) := by
  apply emits_ensureDirectory.bind
  intro _ w
  exact Moves.forM (emits_dumpCharacter files) _ w

theorem emits_createCharacter (obtained : ∀ o r, P (.obtained o r)) (name : Bytes) (client : Option Ref) :
    Moves (Emits P) (createCharacter host name client) := by
  intro w
  rw [createCharacter_apply]
  split
  · exact ⟨[_], rfl, by simpa using files ..⟩
  · exact ⟨[_, _], rfl, by simp [files, obtained]⟩

theorem emits_loadCharacter (obtained : ∀ o r, P (.obtained o r)) (name : Bytes) (client : Option Ref) :
    Moves (Emits P) (loadCharacter host name client) := by
  intro w
  cases exist : w.files.pathExists host.cwd (charactersPath ++ name) with
  | false =>
      rw [loadCharacter_of_missing exist]
      exact ⟨[_], rfl, by simpa using files ..⟩
  | true =>
      rw [loadCharacter_of_found client exist]
      split
      · exact ⟨[_, _], rfl, by simp [files]⟩
      · split
        · exact ⟨[_, _, _], rfl, by simp [files, obtained]⟩
        · exact ⟨[_, _], release_events _ _, by simp [files]⟩

end Files

theorem emits_sendError (c : Ref) (sent : ∀ msg, msg.length < 2 ^ 32 → P (.sent c msg)) (code : Int64) (msg : Bytes) :
    Moves (Emits P) (sendError host c code msg) := (Moves.evaluate _).bind fun _ => emits_send c (sent _)

theorem emits_respond (cmd : Command) (files : ∀ access name path, P (.file access name path))
    (obtained : ∀ o r, P (.obtained o r)) (sent : ∀ msg, msg.length < 2 ^ 32 → P (.sent c msg))
    (called : ∀ h entity action data, (∃ name, cmd = .data name entity action data) → P (.called c h entity action data)) :
    Moves (Emits P) (respond host c cmd) := by
  have replies : ∀ r, Moves (Emits P) (saveText host r >>= send c) := fun r =>
    (emits_saveText r).bind fun _ => emits_send c (sent _)
  cases cmd with
  | malformed => exact emits_sendError c sent _ _
  | incomplete => exact emits_sendError c sent _ _
  | mistyped => exact .throw _
  | create name =>
      apply (emits_createCharacter files obtained name (some c)).bind
      intro answer
      cases answer with
      | none => exact emits_sendError c sent _ _
      | some r =>
          exact emits_holding r ((emits_deref r).bind fun _ => (emits_dump files _).bind fun _ => replies r)
  | load name =>
      apply (emits_loadCharacter files obtained name (some c)).bind
      intro answer
      cases answer with
      | none => exact (emits_sendError c sent _ _).bind fun _ => .throw _
      | some r => exact emits_holding r (replies r)
  | data name entity action data =>
      apply (emits_clientAt c).bind
      intro client
      split
      · exact emits_sendError c sent _ _
      · exact Moves.forM (fun h => emits_log (called h _ _ _ ⟨name, rfl⟩)) _

theorem step_emits (host : Host) (i : Input) (w : World) (files : ∀ access name path, P (.file access name path))
    (obtained : ∀ o r, P (.obtained o r)) (request : ∀ c doc, P (.request c doc))
    (sent : ∀ c msg, msg.length < 2 ^ 32 → P (.sent c msg))
    (called : ∀ c evt h name entity action data, i = .data c evt →
      asks host w i = some (.data name entity action data) → P (.called c h entity action data))
    (left : ∀ c r, i = .endOfStream c → IsOpen w c → P (.left c r)) : Emits P w (finalState (step host i w)) := by
  cases i with
  | data c evt =>
      by_cases isOpen : IsOpen w c
      · obtain ⟨cl, found, active⟩ := isOpen
        rw [step_data_of_open host evt found active]
        split
        · have short : heloReply.length < 2 ^ 32 := by decide
          exact ⟨[_], rfl, by simpa using sent c _ short⟩
        · split
          · have asked := (asks_data_iff host evt).mpr ⟨cl, found, active, ‹_›, ‹_›, rfl⟩
            refine IsTrans.trans _ _ _ (emits_log (request c (host.parse evt.text)) w) ?_
            apply emits_respond _ files obtained (sent c)
            intro h entity action data asks
            obtain ⟨name, eq⟩ := asks
            exact called c evt h name entity action data rfl (asked.trans (congrArg some eq))
          · have short := (errorText_dumps host (400, str "HELO was not received") (by simp [errorReplies])).2
            exact ⟨[_], rfl, by simpa using sent c _ short⟩
      · rw [step_data_of_closed host evt isOpen]
        exact .of_eq rfl
  | endOfStream c =>
      by_cases isOpen : IsOpen w c
      · rw [step, whenOpen_of_open isOpen, bind_of_ok (onClient_apply w c close)]
        apply (emits_clientAt c).bind (f := fun client => client.disconnectionHandlers.forM (leaveHandler host c))
        intro client
        exact Moves.forM (fun r => (emits_log (left c r rfl isOpen)).bind fun _ =>
          (emits_deref r).bind fun _ => emits_dump files _) _
      · rw [step, whenOpen_of_closed isOpen]
        exact .of_eq rfl
  | error c readFailed =>
      by_cases isOpen : IsOpen w c
      · rw [step, whenOpen_of_open isOpen]
        cases readFailed <;> exact .of_eq rfl
      · rw [step, whenOpen_of_closed isOpen]
        exact .of_eq rfl
  | dump => exact emits_dumpAll files w
  | _ => exact .of_eq rfl

end Emits

end D20Tempest.Server
