import D20Tempest.Server.Outcomes
import D20Tempest.Server.HeloGate

namespace D20Tempest.Server
open Foundation Components Characters CharacterManager TcpClient

/-- The reply that ends the step was written to the file of the name, which holds it; no other file has
changed; and whoever asks for the name while there is a file is refused. -/
structure Durable (host : Host) (c : Ref) (name : Bytes) (w w' : World) : Prop where
  written : ∃ text more, w'.events = w.events ++ more ++ [.sent c text] ∧
    .file .write name (charactersPath ++ name) ∈ more ∧
    w'.files.read host.cwd (charactersPath ++ name) = some text
  others : ∀ place, place ≠ resolve host.cwd (charactersPath ++ name) →
    w'.files.content place = w.files.content place
  refused : ∀ inputs later c' evt, Run (step host) w' inputs later →
    later.files.pathExists host.cwd (charactersPath ++ name) = true →
    asks host later (.data c' evt) = some (.create name) →
    step host (.data c' evt) later = .ok () (later.seen [.request c' (host.parse evt.text),
      .file .test name (charactersPath ++ name),
      .sent c' (errorText 409 (str "Unable to create character (already exist?)"))])

def CanOpen (host : Host) (files : FileTree) (name : Bytes) : Prop :=
  ∃ ready cleared, readyFiles host files = some ready ∧
    clearedFiles host ready (charactersPath ++ name) = some cleared ∧
    (cleared.openTruncated host.cwd (charactersPath ++ name)).isSome

/-- What `Dump` finds under the one id is written to the file of the name, and looks like a new character. -/
structure SavedUnderName (host : Host) (c : Ref) (name : Bytes) (w : World) : Prop where
  owner : w.characters.find createCharacterID = none ∨
    ∃ r ch, w.characters.find createCharacterID = some r ∧ w.heap.get r = some ch ∧ ch.name = name ∧
      dumpText host (some 4) ch.document = dumpText host (some 4) (newborn name c).document
  opens : CanOpen host w.files name

/-! ## The saved files -/

section Files
variable {host : Host} {files files' : FileTree} {path text : Bytes} {place : Path}

theorem read_clearedFiles {cleared : FileTree} (clears : clearedFiles host files path = some cleared) :
    cleared.read host.cwd path = none := by
  unfold clearedFiles at clears
  split at clears
  · exact FileTree.read_remove ‹_› clears
  · rename_i missing
    cases clears
    exact FileTree.read_of_missing (Bool.eq_false_iff.mpr missing)

theorem read_savedFiles_iff {seen : Bytes} (saves : savedFiles host files path text = some files') :
    files'.read host.cwd path = some seen ↔
      seen = text ∧ ∃ cleared, clearedFiles host files path = some cleared ∧
        (cleared.openTruncated host.cwd path).isSome := by
  obtain ⟨cleared, clears, rfl⟩ := Option.map_eq_some_iff.mp saves
  cases opens : cleared.openTruncated host.cwd path with
  | none =>
      rw [Option.getD_none, FileTree.write_of_not_open opens, read_clearedFiles clears]
      simp [clears, opens]
  | some opened =>
      rw [Option.getD_some, FileTree.read_write_of_open opens]
      simp only [clears, Option.some.injEq, exists_eq_left', opens, Option.isSome_some, and_true]
      exact eq_comm

theorem content_savedFiles (saves : savedFiles host files path text = some files') (ne : place ≠ resolve host.cwd path) :
    files'.content place = files.content place := by
  obtain ⟨cleared, clears, rfl⟩ := Option.map_eq_some_iff.mp saves
  apply FileTree.content_eq_of_find_eq
  rw [FileTree.find_write_of_ne _ ne, FileTree.find_openTruncated_of_ne ne]
  unfold clearedFiles at clears
  split at clears
  · exact FileTree.find_remove_of_ne clears ne
  · cases clears
    rfl

end Files

/-! ## The answer to a creation -/

section Answer
variable {host : Host} {c : Ref} {name : Bytes} {w w' : World}

theorem write_mem_openEvents {n p n' p' : Bytes} (b : Bool) : .file .write n p ∉ openEvents n' p' b := by
  cases b <;> simp [openEvents]

theorem answered_create {evt : DataEvent} (sound : Sound w)
    (asked : asks host w (.data c evt) = some (.create name))
    (missing : w.files.pathExists host.cwd (charactersPath ++ name) = false)
    (answered : step host (.data c evt) w = .ok () w') :
    ∃ ch text reply ready more, Dumped c name w ch ∧ dumpText host (some 4) ch.document = .ok text ∧
      dumpText host (some 4) (newborn name c).document = .ok reply ∧ readyFiles host w.files = some ready ∧
      savedFiles host ready (charactersPath ++ ch.name) text = some w'.files ∧
      w'.events = w.events ++ more ++ [.sent c reply] ∧
      ∀ n p, .file .write n p ∈ more ↔ n = ch.name ∧ p = charactersPath ++ ch.name := by
  obtain ⟨cl, found, active, other, parsed, cmd⟩ := (asks_data_iff host evt).mp asked
  rw [step_data_of_open host evt found active, if_neg other, if_pos parsed, cmd, respond,
    createCharacterHandler_ok_iff (w := w.seen _) ⟨cl, found, active⟩ missing] at answered
  obtain ⟨w₁, reply, saves, replies, short, rfl⟩ := answered
  obtain ⟨ready, readies, ch, text, files, held, -, dumps, saved, rfl⟩ := (dump_ok_iff find_created).mp saves
  refine ⟨ch, text, reply, ready, [.request c (host.parse evt.text), .file .test name (charactersPath ++ name),
    .obtained (some c) w.heap.next] ++
      (openEvents ch.name (charactersPath ++ ch.name) (ready.pathExists host.cwd (charactersPath ++ ch.name)) ++
        [.file .write ch.name (charactersPath ++ ch.name)]),
    (dumped_iff (w := w.seen _) sound).mpr held, dumps, replies, readies, ?_, ?_, ?_⟩
  · rw [release_files]
    exact saved
  · simp [dumped, created, World.seen]
  · intro n p
    simp [write_mem_openEvents]

theorem refused_of_exists {later : World} {c' : Ref} {evt : DataEvent}
    (exist : later.files.pathExists host.cwd (charactersPath ++ name) = true)
    (asked : asks host later (.data c' evt) = some (.create name)) :
    step host (.data c' evt) later = .ok () (later.seen [.request c' (host.parse evt.text),
      .file .test name (charactersPath ++ name),
      .sent c' (errorText 409 (str "Unable to create character (already exist?)"))]) := by
  obtain ⟨cl, found, active, other, parsed, cmd⟩ := (asks_data_iff host evt).mp asked
  rw [step_data_of_open host evt found active, if_neg other, if_pos parsed, cmd, respond,
    createCharacterHandler_of_existing (w := later.seen _) ⟨cl, found, active⟩ exist, World.seen_seen]
  rfl

/-- The answer to a creation is durable exactly when the one id is free, or taken by a character that
looks the same, and the file can be opened. -/
theorem durable_iff_saved_under_name (host : Host) (w w' : World) (reachable : Reachable host w) (c : Ref)
    (evt : DataEvent) (name : Bytes) (asked : asks host w (.data c evt) = some (.create name))
    (missing : w.files.pathExists host.cwd (charactersPath ++ name) = false)
    (answered : step host (.data c evt) w = .ok () w') :
    Durable host c name w w' ↔ SavedUnderName host c name w := by
  obtain ⟨files, inputs, run⟩ := reachable
  obtain ⟨ch, text, reply, ready, more, owner, dumps, replies, readies, saved, events, writes⟩ :=
    answered_create (good_run run) asked missing answered
  constructor
  · intro durable
    obtain ⟨seen, more', events', written, read⟩ := durable.written
    have same := List.append_inj' (events'.symm.trans events) rfl
    obtain ⟨rfl, -⟩ := (writes _ _).mp (List.append_cancel_left same.1 ▸ written)
    obtain ⟨rfl, cleared, clears, opens⟩ := (read_savedFiles_iff saved).mp read
    have eq : seen = reply := by simpa using same.2
    refine ⟨?_, ready, cleared, readies, clears, opens⟩
    rcases owner with ⟨free, -⟩ | ⟨r, taken, found⟩
    · exact .inl free
    · exact .inr ⟨r, ch, taken, found, rfl, by rw [dumps, replies, eq]⟩
  · intro kept
    obtain ⟨saver, ready', cleared, readies', clears, opens⟩ := kept
    obtain rfl := Option.some.inj (readies.symm.trans readies')
    have same : ch.name = name ∧ text = reply := by
      rcases owner with ⟨free, rfl⟩ | ⟨r, taken, found⟩
      · exact ⟨rfl, Except.ok.inj (dumps.symm.trans replies)⟩
      · rcases saver with free | ⟨r', ch', taken', found', named, looks⟩
        · cases free.symm.trans taken
        · obtain rfl := Option.some.inj (taken.symm.trans taken')
          obtain rfl := Option.some.inj (found.symm.trans found')
          exact ⟨named, Except.ok.inj (dumps.symm.trans (looks.trans replies))⟩
    obtain ⟨rfl, rfl⟩ := same
    refine ⟨⟨text, more, events, (writes _ _).mpr ⟨rfl, rfl⟩, ?_⟩, fun place ne => ?_, ?_⟩
    · exact (read_savedFiles_iff saved).mpr ⟨rfl, cleared, clears, opens⟩
    · rw [content_savedFiles saved ne, content_readyFiles readies]
    · exact fun _ _ _ _ _ exist asked => refused_of_exists exist asked

end Answer

def twoCreations : Host := .hearing [(str "create", str "Aldor"), (str "create", str "Berin")]

theorem durable_first_creation :
    let w := welcomed twoCreations
    let i : Input := .request 0 (str "create") (str "Aldor")
    Durable twoCreations 0 (str "Aldor") w (finalState (step twoCreations i w)) ↔
      SavedUnderName twoCreations 0 (str "Aldor") w :=
  durable_iff_saved_under_name twoCreations _ _ ⟨.root, [.accept 0, .data 0 helo], rfl⟩ 0 _ (str "Aldor") rfl
    (by decide +kernel) (ok_of_isOk (by decide +kernel))

/-- The second character is answered with its document, but `Dump` saves the first one again. -/
theorem second_creation_not_durable : ¬ ∀ w w' c evt name, Reachable twoCreations w →
    asks twoCreations w (.data c evt) = some (.create name) →
    w.files.pathExists twoCreations.cwd (charactersPath ++ name) = false →
    step twoCreations (.data c evt) w = .ok () w' → Durable twoCreations c name w w' := by
  intro all
  have run := run_play (step twoCreations) (initial .root)
    [.accept 0, .data 0 helo, .request 0 (str "create") (str "Aldor")] (by decide +kernel)
  generalize first : finalState (play (step twoCreations) _ (initial .root)) = w at run
  have greeted : (w.clients.get 0).any (fun cl => cl.active && cl.heloParsed) = true := by
    rw [← first]
    decide +kernel
  obtain ⟨cl, found, ready⟩ := (Option.any_eq_true _ _).mp greeted
  rw [Bool.and_eq_true] at ready
  have asked : asks twoCreations w (.request 0 (str "create") (str "Berin")) = some (.create (str "Berin")) :=
    (asks_data_iff _ _).mpr ⟨cl, found, ready.1, by decide, ready.2, rfl⟩
  have missing : w.files.pathExists twoCreations.cwd (charactersPath ++ str "Berin") = false := by
    rw [← first]
    decide +kernel
  have answered := ok_of_isOk (x := step twoCreations (.request 0 (str "create") (str "Berin"))) (s := w) (by
    rw [← first]
    decide +kernel)
  obtain ⟨text, -, -, -, held⟩ := (all w _ 0 _ (str "Berin") ⟨.root, _, run⟩ asked missing answered).written
  have lost : (finalState (step twoCreations (.request 0 (str "create") (str "Berin")) w)).files.read
      twoCreations.cwd (charactersPath ++ str "Berin") = none := by
    rw [← first]
    decide +kernel
  cases lost.symm.trans held

end D20Tempest.Server
