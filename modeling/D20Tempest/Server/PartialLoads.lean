import D20Tempest.Characters.PartialLoads
import D20Tempest.Server.CharacterManager

namespace D20Tempest.Server
open Foundation Components Characters CharacterManager

def handlerTables (w : World) (client : Option Ref) : Option (OrderedMap Bytes (List Ref) × List Ref) :=
  client.bind fun c => (w.clients.get c).map fun cl => (cl.messageHandlers, cl.disconnectionHandlers)

/-- Where `LoadCharacter` throws, the registry, the files and the handlers of the client are as before. -/
def LeavesServer (host : Host) (name : Bytes) (client : Option Ref) (w : World) : Prop :=
  ∀ e w', loadCharacter host name client w = .error e w' →
    w'.characters = w.characters ∧ w'.files = w.files ∧ handlerTables w' client = handlerTables w client

theorem handlerTables_adopted {w w' : World} {client : Option Ref} {r : Ref} (clients : w'.clients = adopted w client r) :
    handlerTables w' client = handlerTables w client ↔ ∀ c, client = some c → w.clients.get c = none := by
  cases client with
  | none => simp [handlerTables]
  | some c =>
      cases found : w.clients.get c <;>
        simp [handlerTables, clients, adopted, found, Client.onLeave, Client.onMessage]

theorem leavesServer_iff (host : Host) (name : Bytes) (client : Option Ref) (w : World) :
    LeavesServer host name client w ↔
      (∀ root, savedDocument host w.files name = some root → Loadable host.scripts root) ∨
        ∀ c, client = some c → w.clients.get c = none := by
  unfold LeavesServer
  cases exist : w.files.pathExists host.cwd (charactersPath ++ name) with
  | false =>
      rw [loadCharacter_of_missing exist, savedDocument, FileTree.read_of_missing exist]
      exact iff_of_true (fun e w' run => by cases run) (.inl fun root held => by cases held)
  | true =>
      rw [loadCharacter_of_found client exist]
      cases held : savedDocument host w.files name with
      | none =>
          refine iff_of_true ?_ (.inl fun root same => by cases same)
          intro e w' run
          cases run
          exact ⟨rfl, rfl, rfl⟩
      | some root =>
          simp only [Option.some.injEq, forall_eq', Character.loadable_iff (Character.make createCharacterID name client)]
          cases run : Character.load host.scripts root (Character.make createCharacterID name client) with
          | ok u ch => exact iff_of_true (fun e w' throws => by cases throws) (.inl ⟨ch, rfl⟩)
          | error e ch =>
              have clients : (release w.heap.next (loading w name client ch)).clients = adopted w client w.heap.next :=
                release_clients _ _
              simp only [EStateM.Result.error.injEq, reduceCtorEq, exists_false, false_or, and_imp]
              rw [← handlerTables_adopted clients]
              constructor
              · intro leaves
                exact (leaves e _ rfl rfl).2.2
              · rintro same e w' - rfl
                exact ⟨release_characters _ _, release_files _ _, same⟩

/-- Exactly where a load that throws is all or nothing. -/
theorem all_or_nothing_iff (scripts : ScriptStore) (root : Json) (c : Character) (host : Host) (name : Bytes)
    (client : Option Ref) (w : World) :
    (LoadsWholly scripts root c ↔ Loadable scripts root ∨ ¬ c.Savable ∨ Repeats scripts root c) ∧
      (LeavesServer host name client w ↔
        (∀ root, savedDocument host w.files name = some root → Loadable host.scripts root) ∨
          ∀ c, client = some c → w.clients.get c = none) :=
  ⟨loadsWholly_iff scripts root c, leavesServer_iff host name client w⟩

def renumbered : Json := .object [(str "id", .unsigned 5), (str "name", .unsigned 3)]

def renumberedText : Bytes := str "\x7b\"id\":5,\"name\":3\x7d"

def renumberedHost : Host := .knowing [(renumberedText, renumbered)]

def renumberedWorld : World :=
  finalState ((do
    ensureDirectory renumberedHost
    truncateFile renumberedHost (str "Aldor") (str "./characters/Aldor")
    writeFile renumberedHost (str "Aldor") (str "./characters/Aldor") renumberedText : Action World Unit)
    ⟨.root, .empty, .empty, Arena.empty.alloc (.make 0), []⟩)

/-- The id is taken over before the name is found to be no string, and the handlers of the character that
is given up stay with the client. -/
theorem partial_load_is_kept : ¬ LoadsWholly shippedScripts renumbered (.make 0 (str "Aldor") none) ∧
    ¬ LeavesServer renumberedHost (str "Aldor") (some 0) renumberedWorld := by
  have throws : ∀ c d, Character.load shippedScripts renumbered c ≠ .ok () d := by
    intro c d run
    cases run
  constructor
  · intro wholly
    rcases (loadsWholly_iff _ _ _).mp wholly with loadable | unable | repeats
    · obtain ⟨d, run⟩ := (Character.loadable_iff (.make 0 (str "Aldor") none)).mp loadable
      exact throws _ d run
    · refine unable fun key a found => ?_
      cases found
    · exact absurd (repeats 5 rfl).1 (by decide)
  · intro leaves
    rcases (leavesServer_iff _ _ _ _).mp leaves with loadable | absent
    · have text : renumberedWorld.files.read renumberedHost.cwd (charactersPath ++ str "Aldor") = some renumberedText := by
        decide +kernel
      have held : savedDocument renumberedHost renumberedWorld.files (str "Aldor") = some renumbered := by
        rw [savedDocument, text, Option.bind_some]
        simp [renumberedHost, Host.knowing]
      obtain ⟨d, run⟩ := (Character.loadable_iff (.make 0 (str "Aldor") none)).mp (loadable _ held)
      exact throws _ d run
    · have present : (renumberedWorld.clients.get 0).isSome = true := by decide +kernel
      rw [absent 0 rfl] at present
      cases present

end D20Tempest.Server
