import D20Tempest.Server.Frame

namespace D20Tempest.Server
open Foundation Components Characters CharacterManager TcpClient

abbrev Continues (host : Host) (w w' : World) : Prop := Quiet host (fun _ => True) w w'

abbrev Sound (w : World) : Prop := Good (fun _ => True) w

theorem finalState_holding {α : Type} (r : Ref) (x : Action World α) (w : World) :
    finalState (holding r x w) = release r (finalState (x w)) := by
  unfold holding
  cases x w <;> rfl

theorem holding_ok_iff {α : Type} {r : Ref} {x : Action World α} {a : α} {w w' : World} :
    holding r x w = .ok a w' ↔ ∃ w₁, x w = .ok a w₁ ∧ w' = release r w₁ := by
  unfold holding
  cases x w <;> simp [eq_comm]

theorem saveAndSend_ok_iff {host : Host} {c r : Ref} {ch : Character} {w w' : World} (isOpen : IsOpen w c)
    (found : w.heap.get r = some ch) :
    (saveText host r >>= send c) w = .ok () w' ↔ ∃ text, ch.Savable ∧
      dumpText host (some 4) ch.document = .ok text ∧ text.length < 2 ^ 32 ∧
      w' = World.seen { w with heap := w.heap.modify r fun _ => ch.refreshed } [.sent c text] := by
  have sends : ∀ text, send c text { w with heap := w.heap.modify r fun _ => ch.refreshed } = _ :=
    send_apply (w := { w with heap := w.heap.modify r fun _ => ch.refreshed }) isOpen
  simp only [bind_eq_ok, saveText_ok_iff, found, Option.some.injEq, exists_eq_left']
  constructor
  · intro returns
    obtain ⟨text, w₁, ⟨savable, dumps, rfl⟩, sent⟩ := returns
    rw [sends] at sent
    split at sent
    · cases sent
    · cases sent
      exact ⟨text, savable, dumps, Nat.not_le.mp ‹_›, rfl⟩
  · intro fit
    obtain ⟨text, savable, dumps, short, rfl⟩ := fit
    exact ⟨text, _, ⟨savable, dumps, rfl⟩, by rw [sends, if_neg (Nat.not_le.mpr short)]⟩

/-! ## Creating -/

section Create
variable {host : Host} {c : Ref} {w w' : World} {name : Bytes}

def newborn (name : Bytes) (c : Ref) : Character := .make createCharacterID name (some c)

theorem savable_newborn : (newborn name c).Savable := by
  intro key a found
  cases found

theorem refreshed_newborn : (newborn name c).refreshed = newborn name c := rfl

theorem get_created : (created w name (some c)).heap.get w.heap.next = some (newborn name c) :=
  Arena.get_alloc_next ..

theorem createCharacterHandler_of_existing (isOpen : IsOpen w c)
    (exist : w.files.pathExists host.cwd (charactersPath ++ name) = true) :
    createCharacterHandler host c name w = .ok () (w.seen [.file .test name (charactersPath ++ name),
      .sent c (errorText 409 (str "Unable to create character (already exist?)"))]) := by
  have answer := createCharacter_apply host name (some c) w
  rw [if_pos exist] at answer
  rw [createCharacterHandler, bind_of_ok answer]
  have listed : (409, str "Unable to create character (already exist?)") ∈ errorReplies := by simp [errorReplies]
  have reply := sendError_apply host (w := w.seen [.file .test name (charactersPath ++ name)]) isOpen listed
  exact reply.trans (by rw [World.seen_seen]; rfl)

theorem createCharacterHandler_of_missing
    (missing : w.files.pathExists host.cwd (charactersPath ++ name) = false) :
    createCharacterHandler host c name w = holding w.heap.next
      (dump host createCharacterID >>= fun _ => saveText host w.heap.next >>= send c)
      (created w name (some c)) := by
  have answer := createCharacter_apply host name (some c) w
  rw [missing, if_neg (by simp)] at answer
  rw [createCharacterHandler, bind_of_ok answer]
  simp only [holding]
  rw [bind_of_ok (deref_of_get _ get_created)]
  rfl

theorem sound_created (host : Host) (sound : Sound w)
    (missing : w.files.pathExists host.cwd (charactersPath ++ name) = false) :
    Sound (created w name (some c)) := by
  have served : Served host (some c) (fun _ => True) w (finalState (createCharacter host name (some c) w)) :=
    serving_createCharacter trivial w sound
  rw [createCharacter_apply, missing] at served
  exact served.good

theorem create_outcome (sound : Sound w)
    (missing : w.files.pathExists host.cwd (charactersPath ++ name) = false) :
    ∃ w₁, Continues host (created w name (some c)) w₁ ∧
      finalState (createCharacterHandler host c name w) = release w.heap.next w₁ := by
  rw [createCharacterHandler_of_missing missing, finalState_holding]
  refine ⟨_, ?_, rfl⟩
  exact ((quietly_dump _).bind fun _ => (quietly_saveText _).bind fun text => quietly_send c text) _
    (sound_created host sound missing)

theorem find_created : (created w name (some c)).characters.find createCharacterID =
    some ((w.characters.find createCharacterID).getD w.heap.next) := by
  rw [created_characters, OrderedMap.find_insert, if_pos rfl]

def Dumped (c : Ref) (name : Bytes) (w : World) (ch : Character) : Prop :=
  (w.characters.find createCharacterID = none ∧ ch = newborn name c) ∨
    ∃ r, w.characters.find createCharacterID = some r ∧ w.heap.get r = some ch

theorem dumped_iff {ch : Character} (sound : Sound w) : Dumped c name w ch ↔
    (created w name (some c)).heap.get ((w.characters.find createCharacterID).getD w.heap.next) = some ch := by
  cases taken : w.characters.find createCharacterID with
  | none => simp [Dumped, taken, get_created, eq_comm]
  | some r =>
      have kept : (created w name (some c)).heap.get r = w.heap.get r :=
        (Arena.get_alloc ..).trans (if_neg (sound.ne_next taken))
      simp [Dumped, taken, kept]

theorem isOpen_adopted (isOpen : IsOpen w c) (r : Ref) :
    ∃ cl, (adopted w (some c) r).get c = some cl ∧ cl.active = true := by
  obtain ⟨cl, found, active⟩ := isOpen
  refine ⟨(cl.onLeave (some r)).onMessage (str "character/ability") (some r), ?_, active⟩
  rw [adopted, Arena.get_modify_self, found, Option.map_some]

theorem dump_created_ok {w₁ : World} (isOpen : IsOpen w c)
    (saves : dump host createCharacterID (created w name (some c)) = .ok () w₁) :
    w₁.heap.get w.heap.next = some (newborn name c) ∧ IsOpen w₁ c := by
  obtain ⟨ready, -, ch, text, files, found, savable, -, -, rfl⟩ := (dump_ok_iff find_created).mp saves
  refine ⟨?_, isOpen_adopted isOpen _⟩
  simp only [dumped, Arena.get_modify]
  split
  · rename_i same
    rw [← same] at found ⊢
    rw [found, Option.map_some]
    obtain rfl := Option.some.inj (found.symm.trans get_created)
    rfl
  · exact get_created

theorem createCharacterHandler_ok_iff (isOpen : IsOpen w c)
    (missing : w.files.pathExists host.cwd (charactersPath ++ name) = false) :
    createCharacterHandler host c name w = .ok () w' ↔
      ∃ w₁ text, dump host createCharacterID (created w name (some c)) = .ok () w₁ ∧
        dumpText host (some 4) (newborn name c).document = .ok text ∧ text.length < 2 ^ 32 ∧
        w' = release w.heap.next (w₁.seen [.sent c text]) := by
  simp only [createCharacterHandler_of_missing missing, holding_ok_iff, bind_eq_ok (x := dump _ _)]
  constructor
  · intro returns
    obtain ⟨w₂, ⟨_, w₁, saves, sends⟩, rfl⟩ := returns
    obtain ⟨born, opens⟩ := dump_created_ok isOpen saves
    obtain ⟨text, -, dumps, short, rfl⟩ := (saveAndSend_ok_iff opens born).mp sends
    exact ⟨w₁, text, saves, dumps, short, by rw [refreshed_newborn, Arena.modify_of_get born]⟩
  · intro fit
    obtain ⟨w₁, text, saves, dumps, short, rfl⟩ := fit
    obtain ⟨born, opens⟩ := dump_created_ok isOpen saves
    refine ⟨_, ⟨(), w₁, saves, (saveAndSend_ok_iff opens born).mpr ⟨text, savable_newborn, dumps, short, rfl⟩⟩, ?_⟩
    rw [refreshed_newborn, Arena.modify_of_get born]

end Create

/-! ## Loading -/

section Load
variable {host : Host} {c : Ref} {w w' : World} {name : Bytes}

theorem loadCharacterHandler_of_missing (isOpen : IsOpen w c)
    (missing : w.files.pathExists host.cwd (charactersPath ++ name) = false) :
    loadCharacterHandler host c name w = .error .nullPointer (w.seen
      [.file .test name (charactersPath ++ name), .sent c (errorText 404 (str "Unknown entity"))]) := by
  rw [loadCharacterHandler, bind_of_ok (loadCharacter_of_missing missing)]
  have listed : (404, str "Unknown entity") ∈ errorReplies := by simp [errorReplies]
  have reply := sendError_apply host (w := w.seen [.file .test name (charactersPath ++ name)]) isOpen listed
  simp only
  rw [bind_of_ok reply, World.seen_seen]
  rfl

theorem loadCharacterHandler_of_unreadable
    (found : w.files.pathExists host.cwd (charactersPath ++ name) = true)
    (unreadable : savedDocument host w.files name = none) :
    loadCharacterHandler host c name w = .error .parseError
      (w.seen [.file .test name (charactersPath ++ name), .file .read name (charactersPath ++ name)]) := by
  have answer := loadCharacter_of_found (some c) found
  rw [unreadable] at answer
  rw [loadCharacterHandler, bind_of_error answer]

theorem loadCharacterHandler_of_found {data : Json} (held : savedDocument host w.files name = some data) :
    loadCharacterHandler host c name w = match Character.load host.scripts data (newborn name c) with
      | .ok _ ch => holding w.heap.next (saveText host w.heap.next >>= send c) (loaded w name (some c) ch)
      | .error e ch => .error e (release w.heap.next (loading w name (some c) ch)) := by
  have answer := loadCharacter_of_found (some c) (pathExists_of_savedDocument held)
  rw [held] at answer
  simp only at answer
  rw [loadCharacterHandler, bind_apply, answer, newborn]
  cases Character.load host.scripts data (Character.make createCharacterID name (some c)) <;> rfl

theorem loadCharacterHandler_ok_iff (isOpen : IsOpen w c) :
    loadCharacterHandler host c name w = .ok () w' ↔ ∃ data, savedDocument host w.files name = some data ∧
      ∃ ch text, Character.load host.scripts data (newborn name c) = .ok () ch ∧ ch.Savable ∧
        dumpText host (some 4) ch.document = .ok text ∧ text.length < 2 ^ 32 ∧
        w' = release w.heap.next ((loaded w name (some c) ch.refreshed).seen [.sent c text]) := by
  cases held : savedDocument host w.files name with
  | none =>
      constructor
      · intro answered
        cases exist : w.files.pathExists host.cwd (charactersPath ++ name) with
        | false => cases (loadCharacterHandler_of_missing isOpen exist).symm.trans answered
        | true => cases (loadCharacterHandler_of_unreadable exist held).symm.trans answered
      · intro read
        obtain ⟨data, eq, -⟩ := read
        cases eq
  | some data =>
      rw [loadCharacterHandler_of_found held]
      simp only [Option.some.injEq, exists_eq_left']
      cases run : Character.load host.scripts data (newborn name c) with
      | error e ch => simp
      | ok u ch =>
          have next : (loaded w name (some c) ch).heap.get w.heap.next = some ch := Arena.get_alloc_next ..
          have opens : IsOpen (loaded w name (some c) ch) c := isOpen_adopted isOpen _
          simp only [holding_ok_iff, saveAndSend_ok_iff opens next, EStateM.Result.ok.injEq, true_and]
          constructor
          · intro returns
            obtain ⟨w₁, ⟨text, savable, dumps, short, rfl⟩, rfl⟩ := returns
            refine ⟨ch, text, rfl, savable, dumps, short, ?_⟩
            simp only [loaded, Arena.modify_alloc]
          · intro fit
            obtain ⟨_, text, rfl, savable, dumps, short, rfl⟩ := fit
            refine ⟨_, ⟨text, savable, dumps, short, rfl⟩, ?_⟩
            simp only [loaded, Arena.modify_alloc]

theorem sound_loaded (host : Host) (sound : Sound w) (ch : Character) :
    Sound (loaded w name (some c) ch) ∧ Sound (loading w name (some c) ch) := by
  constructor
  · have served : Served host (some c) (fun _ => True) w (loaded w name (some c) ch) :=
      served_construct sound ch _ (by simp [Event.Named])
    exact served.good
  · have served : Served host (some c) (fun _ => True) w (loading w name (some c) ch) :=
      served_construct sound ch _ (by simp [Event.Named])
    exact served.good

end Load

end D20Tempest.Server
