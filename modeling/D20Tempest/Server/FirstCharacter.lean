import D20Tempest.Server.Durability
import D20Tempest.Server.Refinement

namespace D20Tempest.Server
open Foundation Components Characters CharacterManager TcpClient

/-! ## What is ever saved -/

/-- The place holds what it held, or the text with which the character of this name was created. -/
def WrittenAs (host : Host) (registered : Option Bytes) (files files' : FileTree) : Prop :=
  ∀ place, files'.content place = files.content place ∨ ∃ name text, registered = some name ∧
    place = resolve host.cwd (charactersPath ++ name) ∧ Service.newText host name = .ok text ∧ files'.content place = some text

def Stores (host : Host) (s s' : Service) : Prop :=
  s'.registered = s.registered ∧ WrittenAs host s.registered s.files s'.files

section
variable {host : Host} {registered : Option Bytes} {files files' files'' : FileTree} {s s' : Service} {c : Ref} {name : Bytes}

theorem WrittenAs.of_content (same : ∀ place, files'.content place = files.content place) : WrittenAs host registered files files' :=
  fun place => .inl (same place)

theorem WrittenAs.trans (first : WrittenAs host registered files files') (second : WrittenAs host registered files' files'') :
    WrittenAs host registered files files'' := by
  intro place
  rcases second place with same | written
  · rw [same]
    exact first place
  · exact .inr written

theorem WrittenAs.mono {registered' : Option Bytes} (written : WrittenAs host registered files files')
    (keeps : ∀ name, registered = some name → registered' = some name) : WrittenAs host registered' files files' := by
  intro place
  refine (written place).imp_right fun new => ?_
  obtain ⟨name, text, eq, rest⟩ := new
  exact ⟨name, text, keeps name eq, rest⟩

instance : Std.Refl (Stores host) := ⟨fun _ => ⟨rfl, .of_content fun _ => rfl⟩⟩

instance : IsTrans Service (Stores host) :=
  ⟨fun _ _ _ first second => ⟨second.1.trans first.1, first.2.trans (first.1 ▸ second.2)⟩⟩

theorem stores_of_same (registered : s'.registered = s.registered) (files : s'.files = s.files) : Stores host s s' :=
  ⟨registered, .of_content fun place => by rw [files]⟩

theorem content_savedFiles_self {path text : Bytes} (saves : savedFiles host files path text = some files') :
    files'.content (resolve host.cwd path) = files.content (resolve host.cwd path) ∨
      files'.content (resolve host.cwd path) = some text := by
  obtain ⟨cleared, clears, rfl⟩ := Option.map_eq_some_iff.mp saves
  cases opens : cleared.openTruncated host.cwd path with
  | some opened =>
      right
      have held := FileTree.read_write_of_open opens text
      rw [Option.getD_some, ← held]
      exact FileTree.content_of_pathExists (FileTree.pathExists_of_read held)
  | none =>
      left
      rw [Option.getD_none, FileTree.write_of_not_open opens]
      unfold clearedFiles at clears
      split at clears
      · rename_i exist
        -- what cannot be opened after it was removed was an empty directory
        have unread : files.read host.cwd path = none := by
          cases held : files.read host.cwd path with
          | none => rfl
          | some bytes =>
              have opened := FileTree.openTruncated_of_remove held clears
              rw [opens] at opened
              cases opened
        rw [FileTree.content_remove exist clears, FileTree.content_of_pathExists exist, unread]
      · cases clears
        rfl

theorem stores_reply (c : Ref) (msg : Bytes) : Moves (Stores host) (Service.reply c msg) := by
  intro s
  rw [Service.reply]
  split
  · exact stores_of_same rfl rfl
  · exact stores_of_same rfl rfl

theorem stores_onConnection (c : Ref) (f : Connection → Connection) : Moves (Stores host) (Service.onConnection c f) :=
  fun _ => stores_of_same rfl rfl

theorem stores_prepare (host : Host) : Moves (Stores host) (Service.prepare host) := by
  intro s
  rw [Service.prepare, bind_of_ok (get_apply s)]
  cases readies : readyFiles host s.files with
  | none => exact Std.Refl.refl s
  | some files => exact ⟨rfl, .of_content (content_readyFiles readies)⟩

theorem stores_save (registered : s.registered = some name) : Stores host s (finalState (Service.save host name s)) := by
  rw [Service.save]
  cases dumps : Service.newText host name with
  | error e => exact Std.Refl.refl s
  | ok text =>
      rw [evaluate_ok, pure_bind, bind_of_ok (get_apply s)]
      cases saves : savedFiles host s.files (charactersPath ++ name) text with
      | none => exact Std.Refl.refl s
      | some files =>
          refine ⟨rfl, fun place => ?_⟩
          by_cases here : place = resolve host.cwd (charactersPath ++ name)
          · rw [here]
            exact (content_savedFiles_self saves).imp_right fun written => ⟨name, text, registered, rfl, dumps, written⟩
          · exact .inl (content_savedFiles saves here)

theorem stores_store : Moves (Stores host) (Service.store host) := by
  intro s
  rw [Service.store, bind_of_ok (get_apply s)]
  cases registered : s.registered with
  | none => exact Std.Refl.refl s
  | some name =>
      have first := stores_prepare host s
      simp only
      rw [bind_apply]
      cases run : Service.prepare host s with
      | error e t =>
          rw [run] at first
          exact first
      | ok u t =>
          rw [run] at first
          exact IsTrans.trans _ _ _ first (stores_save (first.1.trans registered))

theorem stores_storeAll : Moves (Stores host) (Service.storeAll host) := by
  apply (stores_prepare host).bind
  intro _ s
  rw [bind_of_ok (get_apply s)]
  cases registered : s.registered with
  | none => exact Std.Refl.refl s
  | some name => exact stores_save registered

theorem stores_load : Moves (Stores host) (Service.load host c name) := by
  intro s
  cases exist : s.files.pathExists host.cwd (charactersPath ++ name) with
  | false =>
      rw [Service.load_of_missing exist]
      exact ((stores_reply c _).bind fun _ => .throw _) s
  | true =>
      rw [Service.load_of_found exist]
      cases savedDocument host s.files name with
      | none => exact Std.Refl.refl s
      | some data => exact ((stores_onConnection c _).bind fun _ => (Moves.evaluate _).bind fun _ => stores_reply c _) s

/-- The first name that is created is the one that is saved from then on. -/
theorem stores_create (s : Service) : Stores host
    { s with registered := s.registered.or (if s.files.pathExists host.cwd (charactersPath ++ name) then none else some name) }
    (finalState (Service.create host c name s)) := by
  cases exist : s.files.pathExists host.cwd (charactersPath ++ name) with
  | true =>
      rw [Service.create_of_taken exist, if_pos rfl, Option.or_none]
      exact stores_reply c _ s
  | false =>
      have registers : s.registered.or (some name) = some (s.registered.getD name) := by cases s.registered <;> rfl
      rw [Service.create_of_free exist, if_neg Bool.false_ne_true, registers]
      apply (stores_onConnection c _).bind
      exact fun _ => stores_store.bind fun _ => (Moves.evaluate _).bind fun _ => stores_reply c _

/-! ## Steps -/

/-- The character that an input creates. -/
def creates (host : Host) (w : World) (i : Input) : Option Bytes := match asks host w i with
  | some (.create name) => if w.files.pathExists host.cwd (charactersPath ++ name) then none else some name
  | _ => none

def Service.creates (host : Host) (s : Service) (i : Input) : Option Bytes := match Service.asks host s i with
  | some (.create name) => if s.files.pathExists host.cwd (charactersPath ++ name) then none else some name
  | _ => none

/-- Only the server itself changes characters and files. -/
def Own : Input → Prop
  | .call _ _ => False
  | .outside _ => False
  | _ => True

theorem Own.plain {i : Input} (own : Own i) : Plain i := by
  cases i with
  | call r call => exact own
  | _ => trivial

theorem Represents.creates {w : World} (rep : Represents s w) (i : Input) : Service.creates host s i = Server.creates host w i := by
  rw [Service.creates, Server.creates, rep.asks, rep.files]

theorem stores_whenActive (c : Ref) {x : Connection → Action Service Unit} (each : ∀ connection, Moves (Stores host) (x connection)) :
    Moves (Stores host) (Service.whenActive c x) := by
  intro s
  by_cases opens : s.Open c
  · obtain ⟨connection, found, active⟩ := opens
    rw [Service.whenActive_of_get found active]
    exact each connection s
  · rw [Service.whenActive_of_closed opens]
    exact Std.Refl.refl s

theorem stores_answer (connection : Connection) {cmd : Command} (other : ∀ name, cmd ≠ .create name) :
    Moves (Stores host) (Service.answer host c connection cmd) := by
  cases cmd with
  | malformed =>
      rw [Service.answer]
      exact stores_reply c _
  | incomplete =>
      rw [Service.answer]
      exact stores_reply c _
  | mistyped => exact .throw _
  | create name => exact absurd rfl (other name)
  | load name => exact stores_load
  | data name entity action data =>
      dsimp only [Service.answer]
      split
      · exact .pure _
      · exact stores_reply c _

theorem stores_leave (kept : Bool) : Moves (Stores host) (Service.leave host kept) := by
  cases kept with
  | false => exact .throw _
  | true => exact stores_store

theorem stores_serve (host : Host) {i : Input} (own : Own i) (s : Service) :
    Stores host { s with registered := s.registered.or (s.creates host i) } (finalState (Service.serve host i s)) := by
  have silent : ∀ {x : Action Service Unit}, s.creates host i = none → Moves (Stores host) x →
      Stores host { s with registered := s.registered.or (s.creates host i) } (finalState (x s)) := by
    intro x none moves
    rw [none, Option.or_none]
    exact moves s
  have uncreating : Service.asks host s i = none → s.creates host i = none := by
    intro none
    rw [Service.creates, none]
  cases i with
  | accept connectionID => exact silent rfl fun s => stores_of_same rfl rfl
  | data c evt =>
      obtain ⟨x, hears, runs⟩ := Service.hears host c s evt
      rw [runs]
      cases hears with
      | closed _ none => exact silent (uncreating none) (.pure ())
      | helo _ _ none => exact silent (uncreating none) ((stores_reply c _).bind fun _ => stores_onConnection c _)
      | early _ _ none => exact silent (uncreating none) (stores_reply c _)
      | request connection found _ _ asked =>
          rw [Service.creates, asked] at silent ⊢
          cases cmd : command (host.parse evt.text) with
          | create name => exact stores_create s
          | _ =>
              rw [cmd] at silent
              exact silent rfl (stores_answer connection nofun)
  | endOfStream c =>
      refine silent rfl (stores_whenActive c fun connection => ?_)
      exact (stores_onConnection c _).bind fun _ => Moves.forM stores_leave _
  | error c readFailed =>
      refine silent rfl (stores_whenActive c fun connection => ?_)
      cases readFailed with
      | false => exact .pure ()
      | true => exact stores_onConnection c _
  | call r call => exact own.elim
  | dump => exact silent rfl stores_storeAll
  | outside files => exact own.elim

/-! ## Runs -/

/-- The names of the characters that were created, in their order. -/
def creations (host : Host) : World → List Input → List Bytes := gathered (step host) fun w i => (creates host w i).toList

theorem head?_append_toList (names : List Bytes) (name : Option Bytes) : (names ++ name.toList).head? = names.head?.or name := by
  cases names with
  | nil => cases name <;> rfl
  | cons first rest => rfl

/-- The service after the inputs, and what it has written. -/
structure Saved (host : Host) (files : FileTree) (done : List Input) (w : World) (s : Service) : Prop where
  stands : Stands s w
  first : s.registered = (creations host (initial files) done).head?
  written : WrittenAs host s.registered files s.files

theorem saved_step {done : List Input} {w : World} (run : Run (step host) (initial files) done w) {i : Input} (own : Own i)
    (saved : Saved host files done w s) :
    Saved host files (done ++ [i]) (finalState (step host i w)) (finalState (Service.serve host i s)) := by
  obtain ⟨stands, first, written⟩ := saved
  obtain ⟨registered, stored⟩ := stores_serve host own s
  have extended : (creations host (initial files) (done ++ [i])).head? = s.registered.or (s.creates host i) := by
    rw [creations, gathered_append run, gathered, gathered, List.append_nil, head?_append_toList, stands.1.creates, first]
    rfl
  refine ⟨(simulates_step host own.plain s w stands).2, registered.trans extended.symm, ?_⟩
  rw [registered]
  refine (written.mono fun name eq => ?_).trans stored
  rw [eq]
  rfl

theorem saved_run {done : List Input} {w : World} (run : Run (step host) (initial files) done w) (own : ∀ i ∈ done, Own i) :
    ∃ s, Saved host files done w s := by
  refine run.history (P := fun done w => (∀ i ∈ done, Own i) → ∃ s, Saved host files done w s) ?_ ?_ own
  · exact fun _ => ⟨.start files, stands_initial files, rfl, .of_content fun _ => rfl⟩
  · intro done w i w' run ih taken own
    obtain ⟨s, saved⟩ := ih fun j mem => own j (List.mem_append_left _ mem)
    have next := saved_step run (own i (List.mem_append_right _ (List.mem_singleton_self i))) saved
    rw [taken, finalState_ok] at next
    exact ⟨_, next⟩

end

/-- However the last input ends, a file has changed only if it is the one of the first character that was ever created,
and then it holds the text it was created with. -/
theorem only_first_is_written (host : Host) (files : FileTree) {inputs : List Input} {w : World} (own : ∀ i ∈ inputs, Own i)
    (run : Run (step host) (initial files) inputs w) {i : Input} (last : Own i) (place : Path)
    (changed : (finalState (step host i w)).files.content place ≠ files.content place) :
    ∃ name text, (creations host (initial files) (inputs ++ [i])).head? = some name ∧
      place = resolve host.cwd (charactersPath ++ name) ∧ dumpText host (some 4) (newborn name 0).document = .ok text ∧
      (finalState (step host i w)).files.content place = some text := by
  obtain ⟨s, saved⟩ := saved_run run own
  obtain ⟨stands, first, written⟩ := saved_step run last saved
  obtain ⟨name, text, registered, here, dumps, content⟩ := (written place).resolve_left (stands.1.files ▸ changed)
  exact ⟨name, text, first.symm.trans registered, here, dumps, by rw [stands.1.files, content]⟩

theorem only_aldor_is_written :
    let inputs := [.accept 0, .data 0 helo, .request 0 (str "create") (str "Aldor")]
    let last := finalState (step twoCreations (.request 0 (str "create") (str "Berin"))
      (finalState (play (step twoCreations) inputs (initial .root))))
    ∃ name text, (creations twoCreations (initial .root) (inputs ++ [.request 0 (str "create") (str "Berin")])).head? = some name ∧
      resolve twoCreations.cwd (charactersPath ++ str "Aldor") = resolve twoCreations.cwd (charactersPath ++ name) ∧
      dumpText twoCreations (some 4) (newborn name 0).document = .ok text ∧
      last.files.content (resolve twoCreations.cwd (charactersPath ++ str "Aldor")) = some text :=
  only_first_is_written twoCreations .root (by simp [Own, Input.request]) (run_play _ _ _ (by decide +kernel)) (by simp [Own, Input.request]) _
    (by decide +kernel)

end D20Tempest.Server
