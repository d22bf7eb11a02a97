import D20Tempest.Server.Outcomes
import D20Tempest.Server.HeloGate

namespace D20Tempest.Server
open Foundation Components Characters CharacterManager TcpClient

/-! ## What a request needs -/

def Storable (host : Host) (ch : Character) : Prop :=
  ch.Savable ∧ ∃ text, dumpText host (some 4) ch.document = .ok text

def Sendable (host : Host) (ch : Character) : Prop :=
  ch.Savable ∧ ∃ text, dumpText host (some 4) ch.document = .ok text ∧ text.length < 2 ^ 32

/-- A creation needs the character under the one id to be fit to save; a load needs a file whose
document describes a character. -/
def Survives (host : Host) (c : Ref) (w : World) : Command → Prop
  | .mistyped => False
  | .create name => w.files.pathExists host.cwd (charactersPath ++ name) = true ∨
      (∃ ch, Dumped c name w ch ∧ Storable host ch) ∧ Sendable host (newborn name c)
  | .load name => ∃ data characterID n abilities, savedDocument host w.files name = some data ∧
      Describes host.scripts data characterID n abilities ∧
      Sendable host (Character.withAbilities { newborn name c with characterID := characterID, name := n } abilities)
  | _ => True

def NoFileFault {α : Type} (result : EStateM.Result Fault World α) : Prop := ∀ w', result ≠ .error .filesystemError w'

section Robustness
variable {host : Host} {c : Ref} {w : World} {name : Bytes}

theorem noFileFault_bind {α β : Type} {x : Action World α} {f : α → Action World β} (fine : NoFileFault ((x >>= f) w)) :
    NoFileFault (x w) := by
  intro w' stops
  exact fine w' (bind_of_error stops)

theorem noFileFault_holding {α : Type} {r : Ref} {x : Action World α} (fine : NoFileFault (holding r x w)) :
    NoFileFault (x w) := by
  intro w' stops
  exact fine (release r w') (by rw [holding, stops])

theorem dump_created_returns_iff (sound : Sound w)
    (fine : NoFileFault (dump host createCharacterID (created w name (some c)))) :
    (∃ w₁, dump host createCharacterID (created w name (some c)) = .ok () w₁) ↔
      ∃ ch, Dumped c name w ch ∧ Storable host ch := by
  constructor
  · intro returns
    obtain ⟨w₁, saves⟩ := returns
    obtain ⟨ready, -, ch, text, files, found, savable, dumps, -, -⟩ := (dump_ok_iff find_created).mp saves
    exact ⟨ch, (dumped_iff sound).mpr found, savable, text, dumps⟩
  · intro fit
    obtain ⟨ch, dumped, savable, text, dumps⟩ := fit
    rcases dump_of_savable host find_created ((dumped_iff sound).mp dumped) savable dumps with saves | ⟨w₁, stops⟩
    · exact saves
    · exact absurd stops (fine w₁)

theorem create_returns_iff (sound : Sound w) (isOpen : IsOpen w c)
    (fine : NoFileFault (createCharacterHandler host c name w)) :
    (∃ w', createCharacterHandler host c name w = .ok () w') ↔ Survives host c w (.create name) := by
  rw [Survives]
  cases exist : w.files.pathExists host.cwd (charactersPath ++ name) with
  | true => simp [createCharacterHandler_of_existing isOpen exist]
  | false =>
      have saving := fine
      rw [createCharacterHandler_of_missing exist] at saving
      rw [← dump_created_returns_iff sound (noFileFault_bind (noFileFault_holding saving))]
      simp only [Bool.false_eq_true, false_or]
      constructor
      · intro returns
        obtain ⟨w', answered⟩ := returns
        obtain ⟨w₁, text, saves, dumps, short, -⟩ := (createCharacterHandler_ok_iff isOpen exist).mp answered
        exact ⟨⟨w₁, saves⟩, savable_newborn, text, dumps, short⟩
      · intro fit
        obtain ⟨⟨w₁, saves⟩, -, text, dumps, short⟩ := fit
        exact ⟨_, (createCharacterHandler_ok_iff isOpen exist).mpr ⟨w₁, text, saves, dumps, short, rfl⟩⟩

theorem load_returns_iff (isOpen : IsOpen w c) :
    (∃ w', loadCharacterHandler host c name w = .ok () w') ↔ Survives host c w (.load name) := by
  simp only [Survives, loadCharacterHandler_ok_iff isOpen, Character.load_ok_iff]
  constructor
  · intro returns
    obtain ⟨w', data, held, ch, text, ⟨characterID, n, abilities, describes, rfl⟩, savable, dumps, short, -⟩ := returns
    exact ⟨data, characterID, n, abilities, held, describes, savable, text, dumps, short⟩
  · intro fit
    obtain ⟨data, characterID, n, abilities, held, describes, savable, text, dumps, short⟩ := fit
    exact ⟨_, data, held, _, text, ⟨characterID, n, abilities, describes, rfl⟩, savable, dumps, short, rfl⟩

theorem data_returns (isOpen : IsOpen w c) (name entity action : Bytes) (data : Json) :
    ∃ w', dataCharacterHandler host c name entity action data w = .ok () w' := by
  obtain ⟨cl, found, active⟩ := isOpen
  rw [dataCharacterHandler, bind_of_ok (clientAt_of_get w found)]
  cases cl.messageHandlers.find entity with
  | none => exact ⟨_, sendError_apply host ⟨cl, found, active⟩ (by simp [errorReplies])⟩
  | some handlers => exact ⟨_, forM_log_returns w _ handlers⟩

theorem respond_returns_iff (sound : Sound w) (isOpen : IsOpen w c) {cmd : Command}
    (fine : NoFileFault (respond host c cmd w)) : (∃ w', respond host c cmd w = .ok () w') ↔ Survives host c w cmd := by
  cases cmd with
  | malformed => exact ⟨fun _ => trivial, fun _ => ⟨_, sendError_apply host isOpen (by simp [errorReplies])⟩⟩
  | incomplete => exact ⟨fun _ => trivial, fun _ => ⟨_, sendError_apply host isOpen (by simp [errorReplies])⟩⟩
  | mistyped => simp [Survives, respond]
  | create name => exact create_returns_iff sound isOpen fine
  | load name => exact load_returns_iff isOpen
  | data name entity action data => exact ⟨fun _ => trivial, fun _ => data_returns isOpen name entity action data⟩

theorem dumpText_ok_iff {indent : Option Nat} {doc : Json} :
    (∃ text, dumpText host indent doc = .ok text) ↔ doc.utf8 = true := by
  rw [← Json.dump_isSome host.number indent, dumpText]
  cases doc.dump host.number indent <;> simp

theorem storable_newborn (valid : isUtf8 name = true) : Storable host (newborn name c) := by
  refine ⟨savable_newborn, dumpText_ok_iff.mpr ?_⟩
  have document : (newborn name c).document =
    .object [(str "abilities", .object []), (str "id", .unsigned 0), (str "name", .string name)] := rfl
  rw [document]
  simp only [Json.utf8, Json.utf8Members, valid, Bool.and_true]
  decide

theorem isUtf8_of_create {text : Bytes} (asked : command (host.parse text) = .create name) :
    isUtf8 name = true := by
  have valid := host.parse_utf8 text
  generalize host.parse text = doc at valid asked
  rw [command] at asked
  split at asked
  · cases asked
  · split at asked
    · rename_i n a e found _ _
      split at asked
      · rename_i nameText _ _
        split_ifs at asked
        · cases asked
          have named := Json.utf8_of_find valid found
          rw [Json.getString_ok.mp nameText] at named
          exact named
        · split at asked <;> cases asked
      · cases asked
    · cases asked

-- A message holds UTF-8 only, so the first creation can fail at the length of the document alone.
theorem survives_create_of_free {text : Bytes} (asked : command (host.parse text) = .create name)
    (free : w.characters.find createCharacterID = none) :
    Survives host c w (.create name) ↔ w.files.pathExists host.cwd (charactersPath ++ name) = true ∨
      ∀ text, dumpText host (some 4) (newborn name c).document = .ok text → text.length < 2 ^ 32 := by
  have storable : Storable host (newborn name c) := storable_newborn (isUtf8_of_create asked)
  obtain ⟨savable, text, dumps⟩ := storable
  rw [Survives]
  refine or_congr_right ⟨?_, ?_⟩
  · rintro ⟨-, -, other, dumps', short⟩ text' again
    rw [dumps', Except.ok.injEq] at again
    exact again ▸ short
  · intro short
    exact ⟨⟨_, .inl ⟨free, rfl⟩, savable, text, dumps⟩, savable, text, dumps, short text dumps⟩

end Robustness

/-- On a greeted connection the event callback returns exactly for greetings and for the messages that
the world is fit for. -/
theorem dataEvent_returns_iff_survives (host : Host) (w : World) (reachable : Reachable host w) (c : Ref) (cl : Client)
    (found : w.clients.get c = some cl) (active : cl.active = true) (greeted : cl.heloParsed = true)
    (evt : DataEvent) (fine : NoFileFault (dataEvent host c evt w)) :
    (∃ w', dataEvent host c evt w = .ok () w') ↔
      IsHelo evt.text ∨ Survives host c w (command (host.parse evt.text)) := by
  obtain ⟨files, inputs, run⟩ := reachable
  have sound : Sound w := good_run run
  rw [dataEvent_apply host found active, greeted] at fine ⊢
  by_cases helo : IsHelo evt.text
  · simp [helo]
  · rw [if_neg helo, if_pos rfl, parseMsg_eq, bind_of_ok (log_apply w _)] at fine ⊢
    rw [respond_returns_iff (w := w.seen _) sound ⟨cl, found, active⟩ fine]
    simp only [helo, false_or]
    rfl

def twoRequests : Host := .hearing [(str "create", str "Aldor"), (str "load", str "Aldor")]

theorem dataEvent_returns_iff_create :
    (∃ w', dataEvent twoRequests 0 (.of (requestText (str "create") (str "Aldor"))) (welcomed twoRequests) =
        .ok () w') ↔
      IsHelo (DataEvent.of (requestText (str "create") (str "Aldor"))).text ∨ Survives twoRequests 0 (welcomed twoRequests)
        (command (twoRequests.parse (DataEvent.of (requestText (str "create") (str "Aldor"))).text)) := by
  apply dataEvent_returns_iff_survives twoRequests _ ⟨.root, [.accept 0, .data 0 helo], rfl⟩ 0 _ rfl rfl rfl
  intro w' stops
  have returns := ok_of_isOk (x := dataEvent twoRequests 0 (.of (requestText (str "create") (str "Aldor"))))
    (s := welcomed twoRequests) (by decide +kernel)
  cases stops.symm.trans returns

/-- After the error has been sent for a name without a file, `Save` is called through the null pointer. -/
theorem load_of_missing_crashes : ¬ ∀ w c cl evt, Reachable twoRequests w → w.clients.get c = some cl →
    cl.active = true → cl.heloParsed = true → NoFileFault (dataEvent twoRequests c evt w) →
    ∃ w', dataEvent twoRequests c evt w = .ok () w' := by
  intro all
  have crashes : dataEvent twoRequests 0 (.of (requestText (str "load") (str "Aldor"))) (welcomed twoRequests) =
      .error .nullPointer _ := rfl
  have fine : NoFileFault (dataEvent twoRequests 0 (.of (requestText (str "load") (str "Aldor"))) (welcomed twoRequests)) := by
    intro w' stops
    cases crashes.symm.trans stops
  obtain ⟨w', returns⟩ := all _ 0 _ _ ⟨.root, [.accept 0, .data 0 helo], rfl⟩ rfl rfl rfl fine
  cases crashes.symm.trans returns

end D20Tempest.Server
