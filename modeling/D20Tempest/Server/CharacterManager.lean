import D20Tempest.Foundation.JsonArray
import D20Tempest.Server.World

namespace D20Tempest.Server
open Foundation Components Characters

def construct (characterID : UInt64) (name : Bytes) (client : Option Ref) : Action World Ref := do
  let r := (← get).heap.next
  modify fun w => { w with heap := w.heap.alloc (Character.make characterID name client) }
  match client with
  | none => return r
  | some c =>
      onClient c (·.onLeave (some r))
      onClient c (·.onMessage (str "character/ability") (some r))
      return r

def adopted (w : World) (client : Option Ref) (r : Ref) : Arena Client := match client with
  | none => w.clients
  | some c => w.clients.modify c fun cl =>
      (cl.onLeave (some r)).onMessage (str "character/ability") (some r)

theorem construct_apply (characterID : UInt64) (name : Bytes) (client : Option Ref) (w : World) :
    construct characterID name client w = .ok w.heap.next { w with
      heap := w.heap.alloc (Character.make characterID name client)
      clients := adopted w client w.heap.next } := by
  cases client with
  | none => rfl
  | some c =>
      simp only [construct, bind_apply, get_apply, modify_apply, onClient, pure_apply,
        Arena.modify_modify, adopted]
      rfl

def saveText (host : Host) (r : Ref) : Action World Bytes := do
  let doc ← onCharacter r Character.save
  evaluate (dumpText host (some 4) doc)

theorem saveText_ok_iff {host : Host} {r : Ref} {text : Bytes} {w w' : World} :
    saveText host r w = .ok text w' ↔ ∃ ch, w.heap.get r = some ch ∧ ch.Savable ∧
      dumpText host (some 4) ch.document = .ok text ∧
      w' = { w with heap := w.heap.modify r fun _ => ch.refreshed } := by
  simp only [saveText, bind_eq_ok, onCharacter_ok_iff, Character.save_ok_iff]
  constructor
  · intro saved
    obtain ⟨doc, t, ⟨ch, ch', found, ⟨savable, rfl, rfl⟩, rfl⟩, dumps⟩ := saved
    cases out : dumpText host (some 4) ch.document with
    | error e => simp [out] at dumps
    | ok bytes =>
        simp only [out, evaluate_ok, pure_apply, EStateM.Result.ok.injEq] at dumps
        exact ⟨ch, found, savable, by rw [out, dumps.1], dumps.2.symm⟩
  · intro saved
    obtain ⟨ch, found, savable, dumps, rfl⟩ := saved
    exact ⟨ch.document, _, ⟨ch, _, found, ⟨savable, rfl, rfl⟩, rfl⟩, by simp [dumps]⟩

namespace CharacterManager

def charactersPath : Bytes := str "./characters/"

def createCharacterID : UInt64 := 0

variable (host : Host)

def createCharacter (name : Bytes) (client : Option Ref) : Action World (Option Ref) := do
  let path := charactersPath ++ name
  if ← testFile host name path then
    return none
  let r ← construct createCharacterID name client
  let character ← deref r
  modify fun w => { w with characters := w.characters.insert character.characterID r }
  log (.obtained client r)
  return some r

def loadCharacter (name : Bytes) (client : Option Ref) : Action World (Option Ref) := do
  let path := charactersPath ++ name
  if !(← testFile host name path) then
    return none
  -- a stream that cannot be opened reads as an empty one
  match ((← readFile host name path).bind host.read) with
  | none => throw .parseError
  | some characterData =>
      let r ← construct createCharacterID name client
      unlessThrown r (onCharacter r (Character.load host.scripts characterData))
      log (.obtained client r)
      return some r

def ensureDirectory : Action World Unit := do
  let w ← get
  if !w.files.pathExists host.cwd charactersPath then
    match w.files.createDirectories host.cwd charactersPath with
    | some files => set { w with files := files }
    | none => throw .filesystemError

def openStream (name path : Bytes) : Action World Unit := do
  if ← testFile host name path then
    removeFile host name path
  truncateFile host name path

def dumpCharacter (r : Ref) : Action World Unit := do
  let character ← deref r
  let path := charactersPath ++ character.name
  openStream host character.name path
  let doc ← onCharacter r Character.save
  streamDocument host character.name path doc

/-- `Dump()` -/
def dumpAll : Action World Unit := do
  ensureDirectory host
  (← get).characters.values.forM (dumpCharacter host)

def dump (id : UInt64) : Action World Unit := do
  match (← get).characters.find id with
  | none => return
  | some r =>
      ensureDirectory host
      dumpCharacter host r

def collect (limit : Json.MaxSize) : List (UInt64 × Ref) → Json → Action World Json
  | [], dat => pure dat
  | (key, value) :: rest, dat => do
      let saved ← onCharacter value Character.save
      let dat ← evaluate (dat.assignElement limit key saved)
      collect limit rest dat

/-- `DumpAll()` -/
def dumpAllJson (limit : Json.MaxSize) : Action World Json := do
  collect limit (← get).characters.entries .null

def get (w : World) (id : UInt64) : Option Ref := w.characters.find id

/-! ## Results -/

section Results
variable {host} {name : Bytes} {client : Option Ref} {w w' : World}

def created (w : World) (name : Bytes) (client : Option Ref) : World where
  files := w.files
  heap := w.heap.alloc (Character.make createCharacterID name client)
  characters := w.characters.insert createCharacterID w.heap.next
  clients := adopted w client w.heap.next
  events := w.events ++ [.file .test name (charactersPath ++ name), .obtained client w.heap.next]

@[simp] theorem created_characters : (created w name client).characters =
    w.characters.insert createCharacterID w.heap.next := rfl

theorem createCharacter_apply (host : Host) (name : Bytes) (client : Option Ref) (w : World) :
    createCharacter host name client w =
      if w.files.pathExists host.cwd (charactersPath ++ name) then
        .ok none (w.seen [.file .test name (charactersPath ++ name)])
      else .ok (some w.heap.next) (created w name client) := by
  simp only [createCharacter, bind_apply, testFile_apply]
  split
  · rfl
  · simp [bind_apply, map_apply, construct_apply, deref, created, World.seen, adopted, Character.make]

def loaded (w : World) (name : Bytes) (client : Option Ref) (ch : Character) : World where
  files := w.files
  heap := w.heap.alloc ch
  characters := w.characters
  clients := adopted w client w.heap.next
  events := w.events ++ [.file .test name (charactersPath ++ name),
    .file .read name (charactersPath ++ name), .obtained client w.heap.next]

def savedDocument (host : Host) (files : FileTree) (name : Bytes) : Option Json :=
  (files.read host.cwd (charactersPath ++ name)).bind host.read

theorem pathExists_of_savedDocument {files : FileTree} {data : Json}
    (held : savedDocument host files name = some data) :
    files.pathExists host.cwd (charactersPath ++ name) = true := by
  obtain ⟨text, read, -⟩ := Option.bind_eq_some_iff.mp held
  exact FileTree.pathExists_of_read read

theorem loadCharacter_of_missing (missing : w.files.pathExists host.cwd (charactersPath ++ name) = false) :
    loadCharacter host name client w =
      .ok none (w.seen [.file .test name (charactersPath ++ name)]) := by
  simp [loadCharacter, bind_apply, testFile_apply, missing]

def loading (w : World) (name : Bytes) (client : Option Ref) (ch : Character) : World where
  files := w.files
  heap := w.heap.alloc ch
  characters := w.characters
  clients := adopted w client w.heap.next
  events := w.events ++ [.file .test name (charactersPath ++ name), .file .read name (charactersPath ++ name)]

theorem loadCharacter_of_found (client : Option Ref)
    (found : w.files.pathExists host.cwd (charactersPath ++ name) = true) :
    loadCharacter host name client w =
      match savedDocument host w.files name with
      | none => .error .parseError
          (w.seen [.file .test name (charactersPath ++ name), .file .read name (charactersPath ++ name)])
      | some data => match Character.load host.scripts data (Character.make createCharacterID name client) with
          | .ok _ ch => .ok (some w.heap.next) (loaded w name client ch)
          | .error e ch => .error e (release w.heap.next (loading w name client ch)) := by
  simp only [loadCharacter, bind_apply, testFile_apply, found, Bool.not_true, Bool.false_eq_true,
    ↓reduceIte, readFile_apply, World.seen_files, savedDocument]
  cases (w.files.read host.cwd (charactersPath ++ name)).bind host.read with
  | none => simp
  | some data =>
      simp only [bind_apply, construct_apply, unlessThrown, onCharacter, World.seen_heap, World.seen_files,
        Arena.get_alloc_next]
      cases Character.load host.scripts data (Character.make createCharacterID name client) with
      | error e ch => simp [Arena.modify_alloc, loading, World.seen, adopted]
      | ok u ch => simp [Arena.modify_alloc, loaded, World.seen, adopted]

def clearedFiles (host : Host) (files : FileTree) (path : Bytes) : Option FileTree :=
  if files.pathExists host.cwd path then files.remove host.cwd path else some files

/-- The files after the character at this path was saved; `none` where removing the old file throws. -/
def savedFiles (host : Host) (files : FileTree) (path text : Bytes) : Option FileTree :=
  (clearedFiles host files path).map fun cleared =>
    ((cleared.openTruncated host.cwd path).getD cleared).write host.cwd path text

def openEvents (name path : Bytes) : Bool → List Event
  | true => [.file .test name path, .file .remove name path, .file .truncate name path]
  | false => [.file .test name path, .file .truncate name path]

def opened (host : Host) (w : World) (name path : Bytes) (cleared : FileTree) : World :=
  { w.seen (openEvents name path (w.files.pathExists host.cwd path)) with
    files := (cleared.openTruncated host.cwd path).getD cleared }

theorem openStream_apply (name path : Bytes) : openStream host name path w =
    match clearedFiles host w.files path with
    | some cleared => .ok () (opened host w name path cleared)
    | none => .error .filesystemError (w.seen [.file .test name path, .file .remove name path]) := by
  rw [openStream, bind_of_ok (testFile_apply ..), clearedFiles]
  cases present : w.files.pathExists host.cwd path with
  | false => simp [truncateFile_apply, opened, openEvents, present]
  | true =>
      simp only [↓reduceIte]
      rw [bind_apply, removeFile_apply]
      cases removed : w.files.remove host.cwd path with
      | none => simp [removed]
      | some cleared => simp [removed, truncateFile_apply, opened, openEvents, present, World.seen]

def dumped (host : Host) (w : World) (r : Ref) (ch : Character) (files : FileTree) : World where
  files := files
  heap := w.heap.modify r fun _ => ch.refreshed
  characters := w.characters
  clients := w.clients
  events := w.events ++ (openEvents ch.name (charactersPath ++ ch.name)
    (w.files.pathExists host.cwd (charactersPath ++ ch.name)) ++
      [.file .write ch.name (charactersPath ++ ch.name)])

theorem dumpCharacter_ok_iff {r : Ref} :
    dumpCharacter host r w = .ok () w' ↔ ∃ ch text files, w.heap.get r = some ch ∧ ch.Savable ∧
      dumpText host (some 4) ch.document = .ok text ∧
      savedFiles host w.files (charactersPath ++ ch.name) text = some files ∧
      w' = dumped host w r ch files := by
  have finish : ∀ ch text cleared, writeFile host ch.name (charactersPath ++ ch.name) text
      { opened host w ch.name (charactersPath ++ ch.name) cleared with
        heap := w.heap.modify r fun _ => ch.refreshed } =
      .ok () (dumped host w r ch (((cleared.openTruncated host.cwd (charactersPath ++ ch.name)).getD
        cleared).write host.cwd (charactersPath ++ ch.name) text)) := by
    intro ch text cleared
    simp [writeFile_apply, opened, dumped, World.seen]
  simp only [dumpCharacter, bind_eq_ok, deref_ok_iff, openStream_apply, onCharacter_ok_iff, Character.save_ok_iff,
    streamDocument_ok_iff]
  constructor
  · intro returns
    obtain ⟨ch, w₁, ⟨found, rfl⟩, _, w₂, opens, doc, w₃, ⟨ch', _, found', ⟨savable, rfl, rfl⟩, rfl⟩, text, dumps, writes⟩ := returns
    cases clears : clearedFiles host w₁.files (charactersPath ++ ch.name) with
    | none => simp [clears] at opens
    | some cleared =>
        simp only [clears, EStateM.Result.ok.injEq, true_and] at opens
        subst opens
        obtain rfl : ch = ch' := Option.some.inj (found.symm.trans found')
        have same := (finish ch text cleared).symm.trans writes
        rw [EStateM.Result.ok.injEq] at same
        exact ⟨ch, text, _, found, savable, dumps, by rw [savedFiles, clears]; rfl, same.2.symm⟩
  · intro saved
    obtain ⟨ch, text, files, found, savable, dumps, saves, rfl⟩ := saved
    obtain ⟨cleared, clears, rfl⟩ := Option.map_eq_some_iff.mp saves
    exact ⟨ch, w, ⟨found, rfl⟩, (), opened host w ch.name (charactersPath ++ ch.name) cleared, by simp [clears],
      ch.document, _, ⟨ch, _, found, ⟨savable, rfl, rfl⟩, rfl⟩, text, dumps, finish ch text cleared⟩

theorem dumpCharacter_of_savable (host : Host) (w : World) {r : Ref} {ch : Character} {text : Bytes} (found : w.heap.get r = some ch)
    (savable : ch.Savable) (dumps : dumpText host (some 4) ch.document = .ok text) :
    (∃ files, dumpCharacter host r w = .ok () (dumped host w r ch files)) ∨
      ∃ w₁, dumpCharacter host r w = .error .filesystemError w₁ := by
  cases saves : savedFiles host w.files (charactersPath ++ ch.name) text with
  | some files =>
      exact .inl ⟨files, dumpCharacter_ok_iff.mpr ⟨ch, text, files, found, savable, dumps, saves, rfl⟩⟩
  | none =>
      have clears := Option.map_eq_none_iff.mp saves
      have stops : openStream host ch.name (charactersPath ++ ch.name) w = _ := openStream_apply ..
      rw [clears] at stops
      exact .inr ⟨_, by rw [dumpCharacter, bind_of_ok (deref_of_get _ found), bind_of_error stops]⟩

/-! ### Single dumps -/

def readyFiles (host : Host) (files : FileTree) : Option FileTree :=
  if files.pathExists host.cwd charactersPath then some files
  else files.createDirectories host.cwd charactersPath

theorem content_readyFiles {files ready : FileTree} (readies : readyFiles host files = some ready) (place : Path) :
    ready.content place = files.content place := by
  unfold readyFiles at readies
  split at readies
  · cases readies
    rfl
  · exact FileTree.content_createDirectories readies place

theorem ensureDirectory_apply : ensureDirectory host w = match readyFiles host w.files with
    | some files => .ok () { w with files := files }
    | none => .error .filesystemError w := by
  rw [ensureDirectory, bind_of_ok (get_apply w), readyFiles]
  cases w.files.pathExists host.cwd charactersPath with
  | true => rfl
  | false =>
      simp only [Bool.false_eq_true, ↓reduceIte, Bool.not_false]
      cases w.files.createDirectories host.cwd charactersPath <;> rfl

theorem dump_of_unregistered {id : UInt64} (free : w.characters.find id = none) :
    dump host id w = .ok () w := by
  rw [dump, bind_of_ok (get_apply w), free]
  rfl

theorem dump_of_registered {id : UInt64} {r : Ref} (held : w.characters.find id = some r) :
    dump host id w = match readyFiles host w.files with
      | some files => dumpCharacter host r { w with files := files }
      | none => .error .filesystemError w := by
  rw [dump, bind_of_ok (get_apply w), held]
  simp only
  rw [bind_apply, ensureDirectory_apply]
  cases readyFiles host w.files <;> rfl

theorem dump_ok_iff {id : UInt64} {r : Ref} (held : w.characters.find id = some r) :
    dump host id w = .ok () w' ↔ ∃ ready, readyFiles host w.files = some ready ∧ ∃ ch text files,
      w.heap.get r = some ch ∧ ch.Savable ∧ dumpText host (some 4) ch.document = .ok text ∧
      savedFiles host ready (charactersPath ++ ch.name) text = some files ∧
      w' = dumped host { w with files := ready } r ch files := by
  rw [dump_of_registered held]
  cases files : readyFiles host w.files with
  | none => simp
  | some ready =>
      simp only [dumpCharacter_ok_iff, Option.some.injEq, exists_eq_left']

theorem dump_of_savable (host : Host) {id : UInt64} {r : Ref} {ch : Character} {text : Bytes}
    (held : w.characters.find id = some r) (found : w.heap.get r = some ch) (savable : ch.Savable)
    (dumps : dumpText host (some 4) ch.document = .ok text) :
    (∃ w', dump host id w = .ok () w') ∨ ∃ w₁, dump host id w = .error .filesystemError w₁ := by
  rw [dump_of_registered held]
  cases files : readyFiles host w.files with
  | none => exact .inr ⟨w, rfl⟩
  | some ready =>
      rcases dumpCharacter_of_savable host { w with files := ready } found savable dumps with
        ⟨files, run⟩ | stops
      · exact .inl ⟨_, run⟩
      · exact .inr stops

end Results
end CharacterManager
end D20Tempest.Server
