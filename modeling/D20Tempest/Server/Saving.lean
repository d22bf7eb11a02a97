import D20Tempest.Foundation.Stoppable
import D20Tempest.Server.CharacterManager

namespace D20Tempest.Server
open Foundation Components Characters CharacterManager Stoppable

/-! ## Saving, step by step -/

def creatingDirectory (host : Host) : Stoppable World Unit where
  run := ensureDirectory host
  cut w w' := ∃ n files, w.files.createAlong (startOf host.cwd charactersPath) ((components charactersPath).take n) =
    some files ∧ w' = { w with files := files }

/-- The text reaches the file piece by piece. -/
def streaming (host : Host) (name path : Bytes) (doc : Json) : Stoppable World Unit where
  run := streamDocument host name path doc
  cut w w' := ∃ bytes, bytes <+: (doc.written host.number (some 4)).text ∧
    w' = { w with files := w.files.write host.cwd path bytes }

def openingStream (host : Host) (name path : Bytes) : Stoppable World Unit := do
  if ← atomic (testFile host name path) then
    atomic (removeFile host name path)
  atomic (truncateFile host name path)

def savingCharacter (host : Host) (r : Ref) : Stoppable World Unit := do
  let character ← atomic (deref r)
  let path := charactersPath ++ character.name
  openingStream host character.name path
  let doc ← atomic (onCharacter r Character.save)
  streaming host character.name path doc

/-- `Dump()` and `Dump(id)`, stopped anywhere. -/
def saving (host : Host) : Option UInt64 → Stoppable World Unit
  | none => do
      creatingDirectory host
      (← atomic get).characters.values.forM (savingCharacter host)
  | some id => do
      match (← atomic get).characters.find id with
      | none => return
      | some r =>
          creatingDirectory host
          savingCharacter host r

theorem run_openingStream (host : Host) (name path : Bytes) :
    (openingStream host name path).run = openStream host name path := by
  simp only [openingStream, openStream, run_bind, run_atomic]
  congr 1
  funext found
  cases found <;> rfl

theorem run_savingCharacter (host : Host) (r : Ref) : (savingCharacter host r).run = dumpCharacter host r := by
  simp only [savingCharacter, dumpCharacter, streaming, run_bind, run_atomic, run_openingStream]

theorem run_dumpAll (host : Host) : (saving host none).run = dumpAll host := by
  simp only [saving, dumpAll, creatingDirectory, run_bind, run_atomic, run_forM, run_savingCharacter]

theorem run_dump (host : Host) (id : UInt64) : (saving host (some id)).run = dump host id := by
  simp only [saving, dump, run_bind, run_atomic]
  congr 1
  funext w
  cases w.characters.find id with
  | none => rfl
  | some r => exact congrArg (fun rest => ensureDirectory host >>= fun _ => rest) (run_savingCharacter host r)

/-! ## What the files hold -/

def targets (w : World) : Option UInt64 → List Ref
  | none => w.characters.values
  | some id => (w.characters.find id).toList

def fileOf (host : Host) (ch : Character) : Path := resolve host.cwd (charactersPath ++ ch.name)

section Contents
variable (host : Host) (which : Option UInt64) (w : World)

/-- The place holds what it held before, or the whole text of a character that is saved there. -/
def Complete (files : FileTree) (place : Path) : Prop :=
  files.content place = w.files.content place ∨
    ∃ r ∈ targets w which, ∃ ch text, w.heap.get r = some ch ∧ fileOf host ch = place ∧ ch.Savable ∧
      dumpText host (some 4) ch.document = .ok text ∧ files.content place = some text

/-- The place is missing, or holds a beginning of what is written of a character that is saved there: of its
text, or of the part of it before a string that is not UTF-8. -/
def Unfinished (files : FileTree) (place : Path) : Prop :=
  ∃ r ∈ targets w which, ∃ ch, w.heap.get r = some ch ∧ fileOf host ch = place ∧
    ∀ bytes, files.content place = some bytes → bytes = [] ∨
      ch.Savable ∧ bytes <+: (ch.document.written host.number (some 4)).text

def AllComplete (v : World) : Prop := ∀ place, Complete host which w v.files place

def AllButOne (v : World) : Prop :=
  ∃ lost, Unfinished host which w v.files lost ∧ ∀ place, place ≠ lost → Complete host which w v.files place

abbrev AtMostOneLost (v : World) : Prop := AllComplete host which w v ∨ AllButOne host which w v

end Contents

theorem Complete.congr {host : Host} {which : Option UInt64} {w : World} {files files' : FileTree} {place : Path}
    (complete : Complete host which w files place) (same : files'.content place = files.content place) :
    Complete host which w files' place := by
  unfold Complete
  rwa [same]

/-- Saving changes nothing of a character but what its abilities have cached. -/
def SavedAs (ch₀ ch : Character) : Prop := ch = ch₀ ∨ ch₀.Savable ∧ ch = ch₀.refreshed

theorem SavedAs.name {ch₀ ch : Character} (saved : SavedAs ch₀ ch) : ch.name = ch₀.name := by
  rcases saved with rfl | ⟨-, rfl⟩ <;> rfl

theorem SavedAs.again {ch₀ ch : Character} (saved : SavedAs ch₀ ch) (savable : ch.Savable) :
    ch₀.Savable ∧ ch.document = ch₀.document ∧ SavedAs ch₀ ch.refreshed := by
  rcases saved with rfl | ⟨able, rfl⟩
  · exact ⟨savable, rfl, .inr ⟨savable, rfl⟩⟩
  · obtain ⟨-, document, refreshed⟩ := Character.save_refreshed able
    exact ⟨able, document, by rw [refreshed]; exact .inr ⟨able, rfl⟩⟩

section Saving
variable {host : Host} {which : Option UInt64} {w : World} {r : Ref} {ch : Character}

structure Between (host : Host) (which : Option UInt64) (w v : World) : Prop where
  heap : ∀ r ch, v.heap.get r = some ch → ∃ ch₀, w.heap.get r = some ch₀ ∧ SavedAs ch₀ ch
  complete : AllComplete host which w v

structure During (host : Host) (which : Option UInt64) (w : World) (r : Ref) (ch : Character) (v : World) : Prop where
  heap : ∀ r ch, v.heap.get r = some ch → ∃ ch₀, w.heap.get r = some ch₀ ∧ SavedAs ch₀ ch
  found : v.heap.get r = some ch
  others : ∀ place, place ≠ fileOf host ch → Complete host which w v.files place

/-- The old file is gone, and where none can be opened there was none. -/
structure Cleared (host : Host) (which : Option UInt64) (w : World) (ch : Character) (v : World) : Prop where
  content : v.files.content (fileOf host ch) = none ∨ Complete host which w v.files (fileOf host ch)
  shut : v.files.openTruncated host.cwd (charactersPath ++ ch.name) = none → Complete host which w v.files (fileOf host ch)

def Opened (host : Host) (which : Option UInt64) (w : World) (ch : Character) (v : World) : Prop :=
  v.files.content (fileOf host ch) = some [] ∧
      (∀ bytes, (v.files.write host.cwd (charactersPath ++ ch.name) bytes).content (fileOf host ch) = some bytes) ∨
    Complete host which w v.files (fileOf host ch) ∧
      ∀ bytes, v.files.write host.cwd (charactersPath ++ ch.name) bytes = v.files

theorem During.recovers {v : World} (mem : r ∈ targets w which) (during : During host which w r ch v)
    (begun : Complete host which w v.files (fileOf host ch) ∨ ∀ bytes, v.files.content (fileOf host ch) = some bytes →
      bytes = [] ∨ ch.Savable ∧ bytes <+: (ch.document.written host.number (some 4)).text) :
    AtMostOneLost host which w v := by
  rcases begun with complete | unfinished
  · refine .inl fun place => ?_
    by_cases here : place = fileOf host ch
    · rwa [here]
    · exact during.others place here
  · obtain ⟨ch₀, found, saved⟩ := during.heap r ch during.found
    refine .inr ⟨fileOf host ch, ⟨r, mem, ch₀, found, by rw [fileOf, fileOf, saved.name], ?_⟩, during.others⟩
    intro bytes held
    refine (unfinished bytes held).imp id fun beginning => ?_
    obtain ⟨savable, starts⟩ := beginning
    obtain ⟨able, same, -⟩ := saved.again savable
    exact ⟨able, same ▸ starts⟩

theorem Between.during {v : World} (between : Between host which w v) (found : v.heap.get r = some ch) :
    During host which w r ch v where
  heap := between.heap
  found := found
  others place _ := between.complete place

theorem cleared_of_missing {v : World} (complete : AllComplete host which w v) : Cleared host which w ch v where
  content := .inr (complete _)
  shut _ := complete _

theorem cleared_of_remove {v : World} {files : FileTree} (complete : AllComplete host which w v)
    (exist : v.files.pathExists host.cwd (charactersPath ++ ch.name) = true)
    (removes : v.files.remove host.cwd (charactersPath ++ ch.name) = some files) :
    Cleared host which w ch { v with files := files } := by
  have gone : files.content (fileOf host ch) = none := FileTree.content_remove exist removes
  refine ⟨.inl gone, fun shut => ?_⟩
  cases held : v.files.read host.cwd (charactersPath ++ ch.name) with
  | some bytes =>
      have opens := FileTree.openTruncated_of_remove held removes
      rw [shut] at opens
      cases opens
  | none =>
      -- an empty directory was removed
      refine (complete (fileOf host ch)).congr ?_
      rw [gone, fileOf, FileTree.content_of_pathExists exist, held]

theorem opened_of_cleared {v : World} (cleared : Cleared host which w ch v) (events : List Event) :
    Opened host which w ch { v.seen events with
      files := (v.files.openTruncated host.cwd (charactersPath ++ ch.name)).getD v.files } := by
  cases opens : v.files.openTruncated host.cwd (charactersPath ++ ch.name) with
  | none => exact .inr ⟨cleared.shut opens, FileTree.write_of_not_open opens⟩
  | some files =>
      refine .inl ⟨FileTree.content_openTruncated opens, fun bytes => ?_⟩
      have held := FileTree.read_write_of_open opens bytes
      rw [← held]
      exact FileTree.content_of_pathExists (FileTree.pathExists_of_read held)

theorem guards_truncate (mem : r ∈ targets w which) :
    Guards (fun v => During host which w r ch v ∧ Cleared host which w ch v)
      (atomic (truncateFile host ch.name (charactersPath ++ ch.name)))
      (fun _ v => During host which w r ch v ∧ Opened host which w ch v)
      (AtMostOneLost host which w) := by
  refine guards_atomic ?_ ?_ ?_
  · intro v start
    obtain ⟨during, cleared⟩ := start
    refine during.recovers mem (cleared.content.symm.imp id fun gone bytes held => ?_)
    cases gone.symm.trans held
  · intro v a v' start run
    obtain ⟨during, cleared⟩ := start
    rw [truncateFile_apply, EStateM.Result.ok.injEq] at run
    obtain ⟨-, rfl⟩ := run
    refine ⟨⟨during.heap, during.found, fun place ne => ?_⟩, opened_of_cleared cleared _⟩
    exact (during.others place ne).congr (FileTree.content_eq_of_find_eq (FileTree.find_openTruncated_of_ne ne))
  · intro v e v' start run
    rw [truncateFile_apply] at run
    cases run

theorem guards_test : Guards (fun v => Between host which w v ∧ v.heap.get r = some ch)
    (atomic (testFile host ch.name (charactersPath ++ ch.name)))
    (fun exist v => (Between host which w v ∧ v.heap.get r = some ch) ∧
      exist = v.files.pathExists host.cwd (charactersPath ++ ch.name))
    (AtMostOneLost host which w) := by
  refine guards_atomic (fun v start => .inl start.1.complete) ?_ ?_
  · intro v exist v' start run
    rw [testFile_apply, EStateM.Result.ok.injEq] at run
    obtain ⟨rfl, rfl⟩ := run
    exact ⟨⟨⟨start.1.heap, start.1.complete⟩, start.2⟩, rfl⟩
  · intro v e v' start run
    rw [testFile_apply] at run
    cases run

theorem guards_remove : Guards (fun v => (Between host which w v ∧ v.heap.get r = some ch) ∧
      true = v.files.pathExists host.cwd (charactersPath ++ ch.name))
    (atomic (removeFile host ch.name (charactersPath ++ ch.name)))
    (fun _ v => During host which w r ch v ∧ Cleared host which w ch v)
    (AtMostOneLost host which w) := by
  refine guards_atomic (fun v start => .inl start.1.1.complete) ?_ ?_
  · intro v a v' start run
    obtain ⟨⟨between, found⟩, exist⟩ := start
    rw [removeFile_apply] at run
    cases removes : v.files.remove host.cwd (charactersPath ++ ch.name) with
    | none =>
        rw [removes] at run
        cases run
    | some files =>
        rw [removes, EStateM.Result.ok.injEq] at run
        obtain ⟨-, rfl⟩ := run
        have during := between.during found
        refine ⟨⟨during.heap, during.found, fun place ne => ?_⟩, cleared_of_remove between.complete exist.symm removes⟩
        exact (during.others place ne).congr (FileTree.content_eq_of_find_eq (FileTree.find_remove_of_ne removes ne))
  · intro v e v' start run
    rw [removeFile_apply] at run
    cases removes : v.files.remove host.cwd (charactersPath ++ ch.name) with
    | none =>
        rw [removes, EStateM.Result.error.injEq] at run
        obtain ⟨-, rfl⟩ := run
        exact .inl start.1.1.complete
    | some files =>
        rw [removes] at run
        cases run

theorem guards_openingStream (mem : r ∈ targets w which) :
    Guards (fun v => Between host which w v ∧ v.heap.get r = some ch)
      (openingStream host ch.name (charactersPath ++ ch.name))
      (fun _ v => During host which w r ch v ∧ Opened host which w ch v)
      (AtMostOneLost host which w) := by
  refine guards_test.bind fun exist => ?_
  cases exist with
  | true => exact guards_remove.bind fun _ => guards_truncate mem
  | false =>
      refine (guards_truncate mem).strengthen ?_
      intro v start
      exact ⟨start.1.1.during start.1.2, cleared_of_missing start.1.1.complete⟩

theorem Opened.recovers {v : World} (mem : r ∈ targets w which) (during : During host which w r ch v)
    (opened : Opened host which w ch v) : AtMostOneLost host which w v := by
  refine during.recovers mem ?_
  rcases opened with ⟨empty, -⟩ | ⟨complete, -⟩
  · exact .inr fun bytes held => .inl (Option.some.inj (held.symm.trans empty))
  · exact .inl complete

theorem guards_save (mem : r ∈ targets w which) :
    Guards (fun v => During host which w r ch v ∧ Opened host which w ch v)
      (atomic (onCharacter r Character.save))
      (fun doc v => (During host which w r ch.refreshed v ∧ Opened host which w ch.refreshed v) ∧
        ch.Savable ∧ doc = ch.document)
      (AtMostOneLost host which w) := by
  refine guards_atomic (fun v start => start.2.recovers mem start.1) ?_ ?_
  · intro v doc v' start run
    obtain ⟨during, opened⟩ := start
    obtain ⟨ch', ch'', found, saved, rfl⟩ := (onCharacter_ok_iff v).mp run
    obtain rfl := Option.some.inj (during.found.symm.trans found)
    obtain ⟨savable, rfl, rfl⟩ := Character.save_ok_iff.mp saved
    refine ⟨⟨⟨?_, ?_, during.others⟩, opened⟩, savable, rfl⟩
    · intro s other held
      by_cases same : s = r
      · subst same
        rw [Arena.get_modify_self, found, Option.map_some, Option.some.injEq] at held
        obtain ⟨ch₀, first, kept⟩ := during.heap s ch found
        exact ⟨ch₀, first, held ▸ (kept.again savable).2.2⟩
      · rw [Arena.get_modify_of_ne _ _ same] at held
        exact during.heap s other held
    · rw [Arena.get_modify_self, found, Option.map_some]
  · intro v e v' start run
    have recovered := start.2.recovers mem start.1
    unfold onCharacter at run
    rw [start.1.found] at run
    cases saved : Character.save ch with
    | ok doc ch' => simp [saved] at run
    | error e' ch' =>
        simp only [saved, EStateM.Result.error.injEq] at run
        obtain ⟨-, rfl⟩ := run
        exact recovered

theorem During.written {v : World} (during : During host which w r ch v) (bytes : Bytes) :
    During host which w r ch { v with files := v.files.write host.cwd (charactersPath ++ ch.name) bytes } where
  heap := during.heap
  found := during.found
  others place ne :=
    (during.others place ne).congr (FileTree.content_eq_of_find_eq (FileTree.find_write_of_ne bytes ne))

theorem Opened.written {v : World} (mem : r ∈ targets w which) (savable : ch.Savable) (during : During host which w r ch v)
    (opened : Opened host which w ch v) {bytes : Bytes} (begins : bytes <+: (ch.document.written host.number (some 4)).text)
    (events : List Event) : AtMostOneLost host which w
      { v.seen events with files := v.files.write host.cwd (charactersPath ++ ch.name) bytes } := by
  have during' := during.written bytes
  have recovers : AtMostOneLost host which w { v with files := v.files.write host.cwd (charactersPath ++ ch.name) bytes } := by
    refine during'.recovers mem ?_
    rcases opened with ⟨-, holds⟩ | ⟨complete, still⟩
    · refine .inr fun seen held => .inr ⟨savable, ?_⟩
      obtain rfl := Option.some.inj ((holds bytes).symm.trans held)
      exact begins
    · exact .inl (complete.congr (congrArg (FileTree.content · _) (still bytes)))
  exact recovers

theorem guards_streaming {doc : Json} (mem : r ∈ targets w which) (savable : ch.Savable) (same : ch.document = doc) :
    Guards (fun v => During host which w r ch v ∧ Opened host which w ch v)
      (streaming host ch.name (charactersPath ++ ch.name) doc) (fun _ => Between host which w)
      (AtMostOneLost host which w) := by
  subst same
  constructor
  · intro v a v' start run
    obtain ⟨during, opened⟩ := start
    obtain ⟨text, dumps, writes⟩ := streamDocument_ok_iff.mp run
    rw [writeFile_apply, EStateM.Result.ok.injEq] at writes
    obtain ⟨-, rfl⟩ := writes
    have written := during.written text
    refine ⟨written.heap, fun place => ?_⟩
    by_cases here : place = fileOf host ch
    · subst here
      rcases opened with ⟨-, holds⟩ | ⟨complete, still⟩
      · obtain ⟨ch₀, found, saved⟩ := during.heap r ch during.found
        obtain ⟨able, same, -⟩ := saved.again savable
        exact .inr ⟨r, mem, ch₀, text, found, by rw [fileOf, fileOf, saved.name], able, same ▸ dumps, holds text⟩
      · exact complete.congr (congrArg (FileTree.content · _) (still text))
    · exact written.others place here
  · intro v v' start stop
    obtain ⟨during, opened⟩ := start
    rcases stop with ⟨bytes, begins, rfl⟩ | ⟨e, run⟩
    · exact opened.written mem savable during begins []
    · change streamDocument host ch.name (charactersPath ++ ch.name) ch.document v = _ at run
      rw [streamDocument_apply] at run
      cases dumps : dumpText host (some 4) ch.document with
      | ok text => simp [dumps, writeFile_apply] at run
      | error e =>
          simp only [dumps, bind_apply, writeFile_apply, throw_apply, EStateM.Result.error.injEq] at run
          obtain ⟨-, rfl⟩ := run
          exact opened.written mem savable during List.prefix_rfl _

theorem guards_deref (r : Ref) : Guards (Between host which w) (atomic (deref r))
    (fun ch v => Between host which w v ∧ v.heap.get r = some ch)
    (AtMostOneLost host which w) := by
  refine guards_atomic (fun v start => .inl start.complete) ?_ ?_
  · intro v ch v' start run
    obtain ⟨found, rfl⟩ := (deref_ok_iff v).mp run
    exact ⟨start, found⟩
  · intro v e v' start run
    cases found : v.heap.get r with
    | none =>
        simp only [deref, bind_apply, get_apply, found, throw_apply, EStateM.Result.error.injEq] at run
        obtain ⟨-, rfl⟩ := run
        exact .inl start.complete
    | some ch => simp [deref_of_get v found] at run

theorem guards_savingCharacter (mem : r ∈ targets w which) :
    Guards (Between host which w) (savingCharacter host r) (fun _ => Between host which w)
      (AtMostOneLost host which w) := by
  refine (guards_deref r).bind fun ch => (guards_openingStream mem).bind fun _ => (guards_save mem).bind fun doc => ?_
  refine guards_of_pre (fun v start => start.2) fun able => ?_
  obtain ⟨savable, rfl⟩ := able
  obtain ⟨again, same, -⟩ := Character.save_refreshed savable
  exact (guards_streaming mem again same).strengthen fun v start => start.1

theorem guards_creatingDirectory :
    Guards (fun v => v = w) (creatingDirectory host)
      (fun _ v => Between host which w v ∧ v.characters = w.characters)
      (AtMostOneLost host which w) := by
  have start : Between host which w w := ⟨fun r ch found => ⟨ch, found, .inl rfl⟩, fun place => .inl rfl⟩
  constructor
  · rintro v a v' rfl run
    simp only [creatingDirectory, ensureDirectory_apply] at run
    cases readies : readyFiles host v.files with
    | none => simp [readies] at run
    | some ready =>
        simp only [readies, EStateM.Result.ok.injEq, true_and] at run
        subst run
        exact ⟨⟨start.heap, fun place => (start.complete place).congr (content_readyFiles readies place)⟩, rfl⟩
  · rintro v v' rfl stop
    rcases stop with ⟨n, files, made, rfl⟩ | ⟨e, run⟩
    · exact .inl fun place => (start.complete place).congr (FileTree.content_createAlong made place)
    · simp only [creatingDirectory, ensureDirectory_apply] at run
      cases readies : readyFiles host v.files with
      | none =>
          simp only [readies, EStateM.Result.error.injEq] at run
          obtain ⟨-, rfl⟩ := run
          exact .inl start.complete
      | some ready => simp [readies] at run

theorem guards_get {P : World → Prop} {recovery : World → Prop} (holds : ∀ v, P v → recovery v) :
    Guards P (atomic get) (fun u v => u = v ∧ P v) recovery := by
  refine guards_atomic holds ?_ ?_
  · intro v u v' start run
    cases run
    exact ⟨rfl, start⟩
  · intro v e v' start run
    cases run

theorem guards_saving (host : Host) (w : World) (which : Option UInt64) :
    Guards (fun v => v = w) (saving host which) (fun _ => Between host which w)
      (AtMostOneLost host which w) := by
  have unchanged : ∀ v : World, v = w → AtMostOneLost host which w v :=
    fun v same => .inl (same ▸ fun place => .inl rfl)
  cases which with
  | none =>
      have listed := guards_get fun v (start : Between host none w v ∧ v.characters = w.characters) =>
        Or.inl (b := AllButOne host none w v) start.1.complete
      refine guards_creatingDirectory.bind fun _ => listed.bind fun u => ?_
      refine guards_of_pre (p := u.characters = w.characters) (fun v start => start.1 ▸ start.2.2) fun same => ?_
      rw [same]
      refine Guards.strengthen ?_ fun v start => start.2.1
      exact guards_forM (fun v between => .inl between.complete) _ fun r mem => guards_savingCharacter mem
  | some id =>
      refine (guards_get unchanged).bind fun u => ?_
      refine guards_of_pre (p := u = w) (fun v start => start.1.trans start.2) fun same => ?_
      subst same
      refine Guards.strengthen ?_ fun v start => start.2
      cases held : u.characters.find id with
      | none =>
          refine guards_pure unchanged ?_
          rintro v rfl
          exact ⟨fun r ch found => ⟨ch, found, .inl rfl⟩, fun place => .inl rfl⟩
      | some r =>
          refine guards_creatingDirectory.bind fun _ => ?_
          refine (guards_savingCharacter ?_).strengthen fun v start => start.1
          simp [targets, held]

end Saving

/-- Wherever a save stops, all files but one hold what they held or the whole new text, and that one is
missing or holds a beginning of what is written; once it returns, all do. -/
theorem all_but_one_file_complete (host : Host) (w : World) (which : Option UInt64) :
    (∀ w', (saving host which).Stops w w' → AllComplete host which w w' ∨ AllButOne host which w w') ∧
      ∀ w', (saving host which).run w = .ok () w' → AllComplete host which w w' := by
  have guards := guards_saving host w which
  exact ⟨fun w' => guards.stops w w' rfl, fun w' run => (guards.returns w () w' rfl run).complete⟩

def cursed : Script := { abilityScript (str "Luck") (str "LCK") fun _ => true with
  getModifier := fun _ _ => .error .scriptError }

def cursedHost : Host := { Host.knowing [] with scripts := fun _ => some cursed }

def curse : Action World Unit := do
  let _ ← createCharacter cursedHost (str "Aldor") none
  dump cursedHost createCharacterID
  let _ ← onCharacter 0 (Character.addAbility cursedHost.scripts (str "luck") 10)

def aldorCursed : World := finalState (curse ⟨.root, .empty, .empty, .empty, []⟩)

/-- `Save` throws when the file has been emptied already. -/
theorem failed_save_empties_file : ¬ ∀ host w which w', (saving host which).Stops w w' → AllComplete host which w w' := by
  intro all
  let place : Path := [str "Aldor", str "characters"]
  have saves := run_dump cursedHost createCharacterID
  cases run : dump cursedHost createCharacterID aldorCursed with
  | ok u w' =>
      have throws : (returned (dump cursedHost createCharacterID aldorCursed)).isOk = false := by decide +kernel
      rw [run] at throws
      cases throws
  | error e w' =>
      have empty : (finalState (dump cursedHost createCharacterID aldorCursed)).files.content place = some [] := by
        decide +kernel
      have full : aldorCursed.files.content place ≠ some [] := by decide +kernel
      have unable : ((targets aldorCursed (some createCharacterID)).all fun r => (aldorCursed.heap.get r).all fun ch =>
        (ch.abilities.find (str "luck")).any fun a => !(modifierRead a).isOk) = true := by decide +kernel
      rw [run, finalState_error] at empty
      rcases all cursedHost aldorCursed _ w' (.inr ⟨e, saves ▸ run⟩) place with same | ⟨r, mem, ch, text, found, -, able, -⟩
      · exact full (same.symm.trans empty)
      · have held := List.all_eq_true.mp unable r mem
        rw [found, Option.all_some] at held
        obtain ⟨a, here, fails⟩ := (Option.any_eq_true _ _).mp held
        obtain ⟨m, read⟩ := able _ a here
        simp [read, Except.isOk, Except.toBool] at fails

end D20Tempest.Server
