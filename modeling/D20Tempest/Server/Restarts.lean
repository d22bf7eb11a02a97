import D20Tempest.Server.Lifetimes
import D20Tempest.Server.Requests

namespace D20Tempest.Server
open Foundation Components Characters CharacterManager TcpClient Stoppable

/-! ## Servers that are started again -/

/-- The files after servers that ran one after the other; any of them may have been stopped within a step. -/
inductive Lives (p : Platform) (files₀ : FileTree) : Bool → FileTree → Prop
  | begin : Lives p files₀ false files₀
  | ended {stopped : Bool} {files : FileTree} {inputs : List Input} {w : World} : Lives p files₀ stopped files →
      Run (step p.host) (initial files) inputs w → (∀ i ∈ inputs, Spared i) → Lives p files₀ stopped w.files
  | stopped {stopped : Bool} {files : FileTree} {inputs : List Input} {w w' : World} {i : Input} : Lives p files₀ stopped files →
      Run (step p.host) (initial files) inputs w → (∀ i ∈ inputs, Spared i) → Spared i →
      (stepping p.host i).Stops w w' → Lives p files₀ true w'.files

section
variable {p : Platform} {files₀ files : FileTree} {stopped : Bool} {inputs : List Input} {w : World}

theorem enduring_initial {stopped : Prop} (kept : FilesKept p stopped files₀ files) : Enduring p stopped files₀ (initial files) :=
  ⟨fun r ch found => (by cases found), kept⟩

/-- Whatever happens to the servers, each file is what it was before them, or the whole text of a character that loads
as it was saved, or, where one was stopped, a text that cannot be read. -/
theorem lives_keep_files (well : WellScripted p.scripts) (lives : Lives p files₀ stopped files) :
    FilesKept p (stopped = true) files₀ files := by
  induction lives with
  | begin => exact fun place text held => .inl held
  | ended lives run spared ih => exact (enduring_run well spared (enduring_initial ih) run).files
  | stopped lives run spared also stop ih =>
      have recovered := (endures_stepping well also).stops _ _ (enduring_run well spared (enduring_initial ih) run) stop
      intro place text held
      exact (recovered place text held).imp_right fun new => new.imp_right fun torn => ⟨rfl, torn.2⟩

end

/-- A server that has saved one character. -/
def savedAldor : World :=
  finalState (play (step Platform.shipped.host) [.accept 0, .data 0 helo, .request 0 (str "create") (str "Aldor")] (initial .root))

/-- A server that is started over its files. -/
def startedAgain : World := finalState (play (step Platform.shipped.host) [.accept 0, .data 0 helo] (initial savedAldor.files))

/-- Nobody has saved the character that is loaded. -/
def failedLoad : World := finalState (step Platform.shipped.host (.request 0 (str "load") (str "Berin")) startedAgain)

theorem lives_aldorSaved : Lives Platform.shipped .root false savedAldor.files :=
  .ended .begin (run_play _ _ _ (by decide +kernel)) (by simp [Spared, Input.request])

theorem run_startedAgain : Run (step Platform.shipped.host) (initial savedAldor.files) [.accept 0, .data 0 helo] startedAgain :=
  run_play _ _ _ (by decide +kernel)

theorem lives_failedLoad : Lives Platform.shipped .root true failedLoad.files :=
  lives_aldorSaved.stopped run_startedAgain (by simp [Spared]) (by simp [Spared, Input.request]) (stops_of_failure (by decide +kernel))

theorem failedLoad_kept : FilesKept Platform.shipped (true = true) .root failedLoad.files :=
  lives_keep_files Character.wellScripted_shippedScripts lives_failedLoad

section
variable {p : Platform} {files₀ files : FileTree} {stopped : Bool} {inputs : List Input} {w : World}

theorem saved_of_read {text : Bytes} {name : Bytes} (kept : FilesKept p (stopped = true) files₀ w.files)
    (held : w.files.read p.host.cwd (charactersPath ++ name) = some text)
    (written : files₀.content (resolve p.host.cwd (charactersPath ++ name)) ≠ some text) :
    SavedText p text ∨ stopped = true ∧ p.host.read text = none := by
  have content : w.files.content (resolve p.host.cwd (charactersPath ++ name)) = some text := by
    rw [FileTree.content_of_pathExists (FileTree.pathExists_of_read held), held]
  exact (kept _ text content).resolve_left written

/-- A file that a server wrote is loaded as it is: the answer is the text of the file, and no file changes. Only where
a server was stopped the file may be one that the load cannot read. -/
theorem load_echoes (well : WellScripted p.scripts) (lives : Lives p files₀ stopped files)
    (run : Run (step p.host) (initial files) inputs w) (spared : ∀ i ∈ inputs, Spared i) {c : Ref} {evt : DataEvent} {name text : Bytes}
    (asked : asks p.host w (.data c evt) = some (.load name))
    (held : w.files.read p.host.cwd (charactersPath ++ name) = some text)
    (written : files₀.content (resolve p.host.cwd (charactersPath ++ name)) ≠ some text) (short : text.length < 2 ^ 32) :
    (∃ w', step p.host (.data c evt) w = .ok () w' ∧ w'.files = w.files ∧ ∃ r, since w w' =
      [.request c (p.host.parse evt.text), .file .test name (charactersPath ++ name), .file .read name (charactersPath ++ name),
        .obtained (some c) r, .sent c text]) ∨
    stopped = true ∧ ∃ w', step p.host (.data c evt) w = .error .parseError w' ∧ w'.files = w.files := by
  have kept := (enduring_run well spared (enduring_initial (lives_keep_files well lives)) run).files
  obtain ⟨cl, found, active, other, parsed, cmd⟩ := (asks_data_iff p.host evt).mp asked
  rw [step_data_of_open p.host evt found active, if_neg other, if_pos parsed, cmd, respond]
  let asking := w.seen [.request c (p.host.parse evt.text)]
  have isOpen : IsOpen asking c := ⟨cl, found, active⟩
  rcases saved_of_read kept held written with ⟨ch, faithful, dumps⟩ | ⟨torn, unread⟩
  · left
    have reads : savedDocument p.host asking.files name = some ch.document.normal := by
      have parses : Json.parse p.strtod false (text ++ []) = some ch.document.normal := Character.parse_text dumps []
      rw [List.append_nil] at parses
      rw [savedDocument]
      show (w.files.read p.host.cwd (charactersPath ++ name)).bind p.host.read = _
      rw [held]
      exact parses
    have loads := Character.load_document (d := newborn name c) faithful.reloadable rfl
    obtain ⟨savable, same⟩ := Character.save_reloaded well.total faithful.reloadable (some c)
    have dumps' : dumpText p.host (some 4) (ch.reloaded (some c)).document = .ok text := by
      rw [same]
      exact dumpText_eq_ok_iff.mpr dumps
    have answered := (loadCharacterHandler_ok_iff isOpen).mpr ⟨_, reads, _, text, loads, savable, dumps', short, rfl⟩
    refine ⟨_, answered, ?_, w.heap.next, ?_⟩
    · rw [release_files]
      rfl
    · rw [since, release_events]
      simp [loaded, asking, World.seen]
  · right
    refine ⟨torn, _, loadCharacterHandler_of_unreadable (FileTree.pathExists_of_read held) ?_, rfl⟩
    show (w.files.read p.host.cwd (charactersPath ++ name)).bind p.host.read = none
    rw [held]
    exact unread

end

theorem startedAgain_echoes : ∃ text, savedAldor.files.read [] (charactersPath ++ str "Aldor") = some text ∧
    ((∃ w', step Platform.shipped.host (.request 0 (str "load") (str "Aldor")) startedAgain = .ok () w' ∧
      w'.files = startedAgain.files ∧ ∃ r, since startedAgain w' =
        [.request 0 (Platform.shipped.host.parse (DataEvent.of (requestText (str "load") (str "Aldor"))).text),
          .file .test (str "Aldor") (charactersPath ++ str "Aldor"), .file .read (str "Aldor") (charactersPath ++ str "Aldor"),
          .obtained (some 0) r, .sent 0 text]) ∨
    false = true ∧ ∃ w', step Platform.shipped.host (.request 0 (str "load") (str "Aldor")) startedAgain = .error .parseError w' ∧
      w'.files = startedAgain.files) := by
  have saved : (savedAldor.files.read [] (charactersPath ++ str "Aldor")).any (·.length < 2 ^ 32) = true := by decide +kernel
  obtain ⟨text, held, short⟩ := (Option.any_eq_true _ _).mp saved
  refine ⟨text, held, ?_⟩
  have asked : asks Platform.shipped.host startedAgain (.request 0 (str "load") (str "Aldor")) = some (.load (str "Aldor")) := by
    have greeted : (startedAgain.clients.get 0).any (fun cl => cl.active && cl.heloParsed) = true := by decide +kernel
    obtain ⟨cl, found, flags⟩ := (Option.any_eq_true _ _).mp greeted
    obtain ⟨active, parsed⟩ := Bool.and_eq_true_iff.mp flags
    have tells : Tells Platform.shipped (request (str "load") (str "Aldor"))
        (DataEvent.of (requestText (str "load") (str "Aldor"))).text :=
      ⟨none, requestText (str "load") (str "Aldor"), [], [], by decide, by simp, by simp, by decide⟩
    refine (asks_data_iff Platform.shipped.host _).mpr ⟨cl, found, active, by decide, parsed, ?_⟩
    rw [tells.parse (Json.built_ofFields (by simp [Json.Built])), command_normal]
    rfl
  exact load_echoes Character.wellScripted_shippedScripts lives_aldorSaved run_startedAgain (by simp [Spared]) asked
    held nofun (of_decide_eq_true short)

end D20Tempest.Server
