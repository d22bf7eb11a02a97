import D20Tempest.Server.HeloGate

namespace D20Tempest.Server
open Foundation Components Characters CharacterManager TcpClient

def PlainNames (host : Host) (w : World) (i : Input) : Prop :=
  ∀ cmd name, asks host w i = some cmd → cmd.target = some name → IsPlain name

/-- With the next input, all calls of the file system so far are on the entry of the directory that
bears the character's name, and nothing else is removed or overwritten by the server. -/
structure Confined (host : Host) (w : World) (i : Input) : Prop where
  paths : ∀ access name path, .file access name path ∈ (finalState (step host i w)).events →
    resolve host.cwd path = name :: directory host
  apart : ∀ access name path access' name' path',
    .file access name path ∈ (finalState (step host i w)).events →
    .file access' name' path' ∈ (finalState (step host i w)).events → name ≠ name' →
    resolve host.cwd path ≠ resolve host.cwd path'
  elsewhere : (∀ files, i ≠ .outside files) → Elsewhere host w.files (finalState (step host i w)).files

def FilesNamed (w : World) : Prop := ∀ e ∈ w.events, e.Named IsPlain

variable {host : Host} {w w' : World} {i : Input}

theorem stepped_filesNamed (named : FilesNamed w) (next : Stepped host IsPlain i w w') : FilesNamed w' := by
  obtain ⟨more, eq, kinds⟩ := next.events
  intro e mem
  rw [eq] at mem
  rcases List.mem_append.mp mem with mem | mem
  · exact named e mem
  · exact (kinds e mem).1

theorem resolve_of_filesNamed (named : FilesNamed w) {access : Access} {name path : Bytes}
    (mem : .file access name path ∈ w.events) : resolve host.cwd path = name :: directory host := by
  obtain ⟨rfl, plain⟩ := named _ mem
  exact (resolve_characterPath_iff host name).mpr plain

theorem confined_of_plain (good : Good IsPlain w) (named : FilesNamed w) (plain : PlainNames host w i) :
    Confined host w i := by
  have next := stepped host i good plain
  have all := stepped_filesNamed named next
  refine ⟨fun _ _ _ => resolve_of_filesNamed all, ?_, next.elsewhere fun _ => id⟩
  intro _ name path _ name' path' mem mem' ne same
  rw [resolve_of_filesNamed all mem, resolve_of_filesNamed all mem'] at same
  exact ne (List.cons.inj same).1

theorem tests_kept {c : Option Ref} {e : Event} (w w' : World) (serving : Serving host c (fun _ => True) w w') :
    Good (fun _ => True) w ∧ e ∈ w.events → Good (fun _ => True) w' ∧ e ∈ w'.events := by
  rintro ⟨good, mem⟩
  have served := serving good
  obtain ⟨more, eq, -⟩ := served.events
  exact ⟨served.good, by rw [eq]; exact List.mem_append_left _ mem⟩

theorem respond_tests (c : Ref) {cmd : Command} {name : Bytes} (target : cmd.target = some name)
    (good : Good (fun _ => True) w) :
    .file .test name (charactersPath ++ name) ∈ (finalState (respond host c cmd w)).events := by
  cases cmd with
  | create n =>
      obtain rfl := Option.some.inj target
      obtain ⟨rest, eq, serving⟩ := createCharacterHandler_eq (N := fun _ => True) host c n
      have first : Good (fun _ => True) (finalState (createCharacter host n (some c) w)) :=
        (serving_createCharacter trivial w good).good
      rw [respond, eq]
      refine (Moves.after tests_kept serving ⟨first, ?_⟩).2
      rw [createCharacter_apply]
      split <;> simp [finalState, created, World.seen]
  | load n =>
      obtain rfl := Option.some.inj target
      obtain ⟨rest, eq, serving⟩ := loadCharacterHandler_eq (N := fun _ => True) host c n
      have first : Good (fun _ => True) (finalState (loadCharacter host n (some c) w)) :=
        (serving_loadCharacter trivial w good).good
      rw [respond, eq]
      refine (Moves.after tests_kept serving ⟨first, ?_⟩).2
      cases found : w.files.pathExists host.cwd (charactersPath ++ n) with
      | false =>
          rw [loadCharacter_of_missing found]
          simp [finalState, World.seen]
      | true =>
          rw [loadCharacter_of_found _ found]
          split
          · simp [finalState, World.seen]
          · split <;> simp [finalState, loaded, loading]
  | _ => cases target

theorem plain_of_confined (good : Good IsPlain w) (confined : Confined host w i) : PlainNames host w i := by
  intro cmd name asked target
  cases i with
  | data c evt =>
      obtain ⟨cl, found, active, other, parsed, rfl⟩ := (asks_data_iff host evt).mp asked
      have paths := confined.paths .test name (charactersPath ++ name)
      rw [step_data_of_open host evt found active, if_neg other, if_pos parsed] at paths
      have weak : Good (fun _ => True) w := fun id r held =>
        (good id r held).imp fun ch alive => ⟨alive.1, trivial⟩
      exact (resolve_characterPath_iff host name).mp (paths (respond_tests c target weak))
  | _ => cases asked

/-- In every run, crashes included, the server keeps to the files of the characters exactly as long as
the names it is sent are plain. -/
theorem confined_iff_plain_names (host : Host) (files : FileTree) (inputs : List Input) :
    Meets (step host) (Confined host) (initial files) inputs ↔
      Meets (step host) (PlainNames host) (initial files) inputs := by
  refine meets_congr (I := fun w => Good IsPlain w ∧ FilesNamed w) ⟨good_initial _ files, fun e mem => by cases mem⟩
    (fun w i inv => ⟨plain_of_confined inv.1, confined_of_plain inv.1 inv.2⟩) ?_
  intro w i w' inv plain taken
  have next := stepped host i inv.1 plain
  rw [taken] at next
  exact ⟨next.good, stepped_filesNamed inv.2 next⟩

def climbing : Host := .hearing [(str "create", str "../evil")]

/-- A character named `../evil` is written next to the directory, not into it. -/
theorem create_leaves_directory :
    ¬ Meets (step climbing) (Confined climbing) (initial .root)
      [.accept 0, .data 0 helo, .request 0 (str "create") (str "../evil")] := by
  intro met
  have run : Run (step climbing) (initial .root) [.accept 0, .data 0 helo] (welcomed climbing) := rfl
  have written := (met.of_run run).paths .write (str "../evil") (str "./characters/../evil")
    (List.mem_of_getElem? (i := 6) rfl)
  revert written
  decide

end D20Tempest.Server
