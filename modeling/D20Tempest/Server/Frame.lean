import D20Tempest.Server.Runs

namespace D20Tempest.Server
open Foundation Components Characters CharacterManager TcpClient

/-! ## The directory of the characters -/

def directory (host : Host) : Path := resolve host.cwd charactersPath

theorem resolve_characterPath (cwd : Path) (name : Bytes) :
    resolve cwd (charactersPath ++ name) =
      (components name).foldl descend (resolve cwd charactersPath) := by
  have split : charactersPath = str "./characters" ++ [slash] := rfl
  rw [split, List.append_assoc, List.singleton_append]
  exact resolve_append cwd (by decide) (by decide) name

theorem resolve_characterPath_iff (host : Host) (name : Bytes) :
    resolve host.cwd (charactersPath ++ name) = name :: directory host ↔ IsPlain name := by
  rw [resolve_characterPath]
  constructor
  · exact foldl_descend_eq_child
  · intro plain
    rw [components_of_isPlain plain]
    exact descend_of_isPlain _ plain

def Elsewhere (host : Host) (files files' : FileTree) : Prop :=
  ∀ place node, (∀ name, place ≠ name :: directory host) → files.nodes.find place = some node →
    files'.nodes.find place = some node

theorem Elsewhere.of_find_eq {host : Host} {files files' : FileTree} {name : Bytes} (plain : IsPlain name)
    (same : ∀ place, place ≠ resolve host.cwd (charactersPath ++ name) →
      files'.nodes.find place = files.nodes.find place) : Elsewhere host files files' := by
  intro place node outside found
  rw [same, found]
  rw [(resolve_characterPath_iff host name).mpr plain]
  exact outside name

/-! ## Saving and replying -/

def identity (ch : Character) : UInt64 × Bytes × Option Ref := (ch.characterID, ch.name, ch.client)

def Event.Named (N : Bytes → Prop) : Event → Prop
  | .file _ name path => path = charactersPath ++ name ∧ N name
  | _ => True

def Event.Quiet : Event → Prop
  | .obtained _ _ => False
  | .request _ _ => False
  | _ => True

def Good (N : Bytes → Prop) (w : World) : Prop :=
  ∀ id r, w.characters.find id = some r → ∃ ch, w.heap.get r = some ch ∧ N ch.name

theorem seen_trans {P : Event → Prop} {before after later : List Event}
    (first : ∃ more, after = before ++ more ∧ ∀ e ∈ more, P e)
    (second : ∃ more, later = after ++ more ∧ ∀ e ∈ more, P e) :
    ∃ more, later = before ++ more ∧ ∀ e ∈ more, P e := by
  obtain ⟨some, rfl, kinds⟩ := first
  obtain ⟨others, rfl, kinds'⟩ := second
  refine ⟨some ++ others, List.append_assoc .., ?_⟩
  intro e mem
  rcases List.mem_append.mp mem with mem | mem
  · exact kinds e mem
  · exact kinds' e mem

/-- What saving characters and replying to clients leaves as it was. -/
structure Quiet (host : Host) (N : Bytes → Prop) (w w' : World) : Prop where
  characters : w'.characters = w.characters
  clients : w'.clients = w.clients
  next : w'.heap.next = w.heap.next
  identities : ∀ r, (w'.heap.get r).map identity = (w.heap.get r).map identity
  events : ∃ more, w'.events = w.events ++ more ∧ ∀ e ∈ more, e.Named N ∧ e.Quiet
  elsewhere : (∀ name, N name → IsPlain name) → Elsewhere host w.files w'.files

namespace Quiet
variable {host : Host} {N : Bytes → Prop} {w w' w'' : World}

theorem refl (w : World) : Quiet host N w w where
  characters := rfl
  clients := rfl
  next := rfl
  identities _ := rfl
  events := ⟨[], by simp, by simp⟩
  elsewhere _ _ _ _ found := found

theorem trans (first : Quiet host N w w') (second : Quiet host N w' w'') : Quiet host N w w'' where
  characters := second.characters.trans first.characters
  clients := second.clients.trans first.clients
  next := second.next.trans first.next
  identities r := (second.identities r).trans (first.identities r)
  events := seen_trans first.events second.events
  elsewhere plain place node outside found :=
    second.elsewhere plain place node outside (first.elsewhere plain place node outside found)

theorem alive_iff (quiet : Quiet host N w w') (r : Ref) : w'.heap.Alive r ↔ w.heap.Alive r := by
  have same := congrArg Option.isSome (quiet.identities r)
  rw [Option.isSome_map, Option.isSome_map] at same
  rw [Arena.Alive, Arena.Alive, same]

theorem get_of_get (quiet : Quiet host N w w') {r : Ref} {ch : Character} (found : w.heap.get r = some ch) :
    ∃ ch', w'.heap.get r = some ch' ∧ identity ch' = identity ch := by
  have same := quiet.identities r
  rw [found, Option.map_some, Option.map_eq_some_iff] at same
  exact same

theorem good (quiet : Quiet host N w w') (good : Good N w) : Good N w' := by
  intro id r held
  rw [quiet.characters] at held
  obtain ⟨ch, found, named⟩ := good id r held
  obtain ⟨ch', found', same⟩ := quiet.get_of_get found
  have name : ch'.name = ch.name := congrArg (·.2.1) same
  exact ⟨ch', found', name ▸ named⟩

theorem seen (w : World) {e : Event} (named : e.Named N) (quiet : e.Quiet) : Quiet host N w (w.seen [e]) :=
  { (refl w : Quiet host N w w) with events := ⟨[e], rfl, by simp [named, quiet]⟩ }

theorem file (w : World) (access : Access) {name : Bytes} (named : N name) {files : FileTree}
    (same : ∀ place, place ≠ resolve host.cwd (charactersPath ++ name) →
      files.nodes.find place = w.files.nodes.find place) :
    Quiet host N w { w.seen [.file access name (charactersPath ++ name)] with files := files } :=
  { (refl w : Quiet host N w w) with
    events := ⟨[_], rfl, by simp [Event.Named, Event.Quiet, named]⟩
    elsewhere := fun plain => Elsewhere.of_find_eq (plain name named) same }

theorem modify (w : World) {r : Ref} {f : Character → Character}
    (same : ∀ ch, w.heap.get r = some ch → identity (f ch) = identity ch) :
    Quiet host N w { w with heap := w.heap.modify r f } :=
  { (refl w : Quiet host N w w) with
    identities := fun s => by
      rw [Arena.get_modify]
      split
      · rename_i eq
        rw [eq]
        cases found : w.heap.get r with
        | none => rfl
        | some ch => simp [same ch found]
      · rfl }

end Quiet

def Quietly (host : Host) (N : Bytes → Prop) (w w' : World) : Prop := Good N w → Quiet host N w w'

section Quietly
variable {host : Host} {N : Bytes → Prop}

instance : Std.Refl (Quietly host N) := ⟨fun w _ => .refl w⟩

instance : IsTrans World (Quietly host N) :=
  ⟨fun _ _ _ first second good => (first good).trans (second ((first good).good good))⟩

theorem quietly_log {e : Event} (named : e.Named N) (quiet : e.Quiet) : Moves (Quietly host N) (log e) :=
  fun w _ => Quiet.seen w named quiet

theorem quietly_deref (r : Ref) : Moves (Quietly host N) (deref r) := by
  intro w _
  cases found : w.heap.get r <;> simp [deref, bind_apply, found, finalState, Quiet.refl]

theorem quietly_clientAt (c : Ref) : Moves (Quietly host N) (clientAt c) := by
  intro w _
  cases found : w.clients.get c <;> simp [clientAt, bind_apply, found, finalState, Quiet.refl]

theorem quietly_send (c : Ref) (msg : Bytes) : Moves (Quietly host N) (send c msg) := by
  apply (quietly_clientAt c).bind
  intro client
  split
  · exact .pure _
  · split
    · exact (Moves.throw _).bind fun _ => quietly_log trivial trivial
    · exact quietly_log trivial trivial

theorem quietly_sendError (c : Ref) (code : Int64) (msg : Bytes) :
    Moves (Quietly host N) (sendError host c code msg) :=
  (Moves.evaluate _).bind fun _ => quietly_send c _

theorem quietly_dataCharacterHandler (c : Ref) (name entity action : Bytes) (data : Json) :
    Moves (Quietly host N) (dataCharacterHandler host c name entity action data) := by
  apply (quietly_clientAt c).bind
  intro client
  split
  · exact quietly_sendError c 404 _
  · exact Moves.forM (fun h => quietly_log (by trivial) (by trivial)) _

theorem identity_save (ch : Character) : identity (finalState (Character.save ch)) = identity ch := by
  rw [Character.save]
  split <;> rfl

theorem quietly_onCharacter (r : Ref) {α : Type} {x : Action Character α}
    (same : ∀ ch, identity (finalState (x ch)) = identity ch) : Moves (Quietly host N) (onCharacter r x) := by
  intro w _
  unfold onCharacter
  cases found : w.heap.get r with
  | none => exact .refl w
  | some ch =>
      have kept := same ch
      cases run : x ch with
      | ok a ch' =>
          rw [run] at kept
          simp only [run]
          exact Quiet.modify w fun ch₀ held => by rw [Option.some.inj (held.symm.trans found)]; exact kept
      | error e ch' =>
          rw [run] at kept
          simp only [run]
          exact Quiet.modify w fun ch₀ held => by rw [Option.some.inj (held.symm.trans found)]; exact kept

theorem quietly_saveText (r : Ref) : Moves (Quietly host N) (saveText host r) :=
  (quietly_onCharacter r identity_save).bind fun _ => .evaluate _

section Files
variable {name : Bytes} (named : N name)
include named

theorem quietly_testFile : Moves (Quietly host N) (testFile host name (charactersPath ++ name)) :=
  fun w _ => Quiet.file w .test named fun _ _ => rfl

theorem quietly_removeFile : Moves (Quietly host N) (removeFile host name (charactersPath ++ name)) := by
  intro w _
  rw [removeFile_apply]
  cases removes : w.files.remove host.cwd (charactersPath ++ name) with
  | none => exact Quiet.file w .remove named fun _ _ => rfl
  | some files => exact Quiet.file w .remove named fun place ne => FileTree.find_remove_of_ne removes ne

theorem quietly_truncateFile : Moves (Quietly host N) (truncateFile host name (charactersPath ++ name)) :=
  fun w _ => Quiet.file w .truncate named fun _ ne => FileTree.find_openTruncated_of_ne ne

theorem quietly_writeFile (text : Bytes) :
    Moves (Quietly host N) (writeFile host name (charactersPath ++ name) text) :=
  fun w _ => Quiet.file w .write named fun _ ne => FileTree.find_write_of_ne text ne

theorem quietly_openStream : Moves (Quietly host N) (openStream host name (charactersPath ++ name)) := by
  apply (quietly_testFile named).bind
  intro present
  split
  · exact (quietly_removeFile named).bind fun _ => quietly_truncateFile named
  · exact quietly_truncateFile named

end Files

theorem quietly_ensureDirectory : Moves (Quietly host N) (ensureDirectory host) := by
  intro w _
  rw [ensureDirectory_apply, readyFiles]
  split
  · rename_i files ready
    split at ready
    · cases ready
      exact .refl w
    · refine { (Quiet.refl w : Quiet host N w w) with elsewhere := fun _ place node outside found => ?_ }
      rcases FileTree.find_createDirectories ready place with same | ⟨absent, -⟩
      · exact same.trans found
      · simp [absent] at found
  · exact .refl w

theorem quiet_dumpCharacter {w : World} (good : Good N w) {id : UInt64} {r : Ref}
    (held : w.characters.find id = some r) : Quiet host N w (finalState (dumpCharacter host r w)) := by
  obtain ⟨ch, found, named⟩ := good id r held
  rw [dumpCharacter, bind_of_ok (deref_of_get w found)]
  exact ((quietly_openStream named).bind fun _ => (quietly_onCharacter r identity_save).bind fun doc =>
    moves_streamDocument (quietly_writeFile named) doc) w good

theorem quietly_dump (id : UInt64) : Moves (Quietly host N) (dump host id) := by
  intro w good
  cases held : w.characters.find id with
  | none =>
      rw [dump_of_unregistered held]
      exact .refl w
  | some r =>
      have ready : Quiet host N w _ := quietly_ensureDirectory w good
      rw [ensureDirectory_apply] at ready
      rw [dump_of_registered held]
      cases files : readyFiles host w.files with
      | none => exact .refl w
      | some files' =>
          rw [files] at ready
          exact ready.trans (quiet_dumpCharacter (ready.good good) (ready.characters ▸ held))

theorem quiet_dumpCharacters {w : World} (good : Good N w) (rs : List Ref)
    (held : ∀ r ∈ rs, ∃ id, w.characters.find id = some r) :
    Quiet host N w (finalState (rs.forM (dumpCharacter host) w)) := by
  induction rs generalizing w with
  | nil => exact .refl w
  | cons r rs ih =>
      obtain ⟨id, first⟩ := held r (by simp)
      have quiet : Quiet host N w _ := quiet_dumpCharacter good first
      show Quiet host N w (finalState ((dumpCharacter host r >>= fun _ => rs.forM (dumpCharacter host)) w))
      rw [bind_apply]
      cases run : dumpCharacter host r w with
      | error e w₁ =>
          rw [run] at quiet
          exact quiet
      | ok u w₁ =>
          rw [run] at quiet
          apply quiet.trans
          apply ih (quiet.good good)
          intro r' mem
          obtain ⟨id', later⟩ := held r' (by simp [mem])
          exact ⟨id', (congrArg (·.find id') quiet.characters).trans later⟩

theorem quietly_dumpAll : Moves (Quietly host N) (dumpAll host) := by
  apply quietly_ensureDirectory.bind
  intro _ w good
  rw [bind_of_ok (get_apply w)]
  exact quiet_dumpCharacters good _ fun r mem => OrderedMap.mem_values.mp mem

theorem quietly_leaveHandler (c r : Ref) : Moves (Quietly host N) (leaveHandler host c r) :=
  (quietly_log (by trivial) (by trivial)).bind fun _ => (quietly_deref r).bind fun ch => quietly_dump ch.characterID

theorem quietly_endEvent (c : Ref) : Moves (Quietly host N) (endEvent host c) :=
  (quietly_clientAt c).bind fun _ => Moves.forM (quietly_leaveHandler c) _

end Quietly

/-! ## Serving a request -/

def flags (cl : Client) : Bool × Bool := (cl.heloParsed, cl.active)

/-- What a request of one client leaves as it was. -/
structure Served (host : Host) (c : Option Ref) (N : Bytes → Prop) (w w' : World) : Prop where
  good : Good N w'
  others : ∀ c', c ≠ some c' → w'.clients.get c' = w.clients.get c'
  flags : ∀ c', (w'.clients.get c').map flags = (w.clients.get c').map flags
  events : ∃ more, w'.events = w.events ++ more ∧ ∀ e ∈ more, e.Named N ∧ ∀ c doc, e ≠ .request c doc
  elsewhere : (∀ name, N name → IsPlain name) → Elsewhere host w.files w'.files

def Serving (host : Host) (c : Option Ref) (N : Bytes → Prop) (w w' : World) : Prop :=
  Good N w → Served host c N w w'

section Serving
variable {host : Host} {c : Option Ref} {N : Bytes → Prop} {w w' : World}

theorem Quiet.served (quiet : Quiet host N w w') (good : Good N w) : Served host c N w w' where
  good := quiet.good good
  others _ _ := by rw [quiet.clients]
  flags _ := by rw [quiet.clients]
  events := by
    obtain ⟨more, eq, kinds⟩ := quiet.events
    refine ⟨more, eq, fun e mem => ⟨(kinds e mem).1, ?_⟩⟩
    rintro c doc rfl
    exact (kinds _ mem).2
  elsewhere := quiet.elsewhere

theorem Served.trans {w'' : World} (first : Served host c N w w') (second : Served host c N w' w'') :
    Served host c N w w'' where
  good := second.good
  others c' ne := (second.others c' ne).trans (first.others c' ne)
  flags c' := (second.flags c').trans (first.flags c')
  events := seen_trans first.events second.events
  elsewhere plain place node outside found :=
    second.elsewhere plain place node outside (first.elsewhere plain place node outside found)

instance : Std.Refl (Serving host c N) := ⟨fun w good => (Quiet.refl w).served good⟩

instance : IsTrans World (Serving host c N) :=
  ⟨fun _ _ _ first second good => (first good).trans (second (first good).good)⟩

theorem serving_of_quietly {α : Type} {x : Action World α} (quietly : Moves (Quietly host N) x) :
    Moves (Serving host c N) x := fun w good => (quietly w good).served good

theorem get_adopted_of_ne {c' : Ref} (r : Ref) (ne : c ≠ some c') :
    (adopted w c r).get c' = w.clients.get c' := by
  cases c with
  | none => rfl
  | some c =>
      rw [adopted, Arena.get_modify_of_ne]
      rintro rfl
      exact ne rfl

theorem flags_adopted (r c' : Ref) : ((adopted w c r).get c').map flags = (w.clients.get c').map flags := by
  by_cases same : c = some c'
  · subst same
    rw [adopted, Arena.get_modify_self, Option.map_map]
    rfl
  · rw [get_adopted_of_ne r same]

theorem Good.ne_next (good : Good N w) {id : UInt64} {r : Ref} (held : w.characters.find id = some r) :
    r ≠ w.heap.next := by
  obtain ⟨ch, found, -⟩ := good id r held
  exact Nat.ne_of_lt (Arena.lt_next found)

theorem served_construct (good : Good N w) (ch : Character) (events : List Event)
    (kinds : ∀ e ∈ events, e.Named N ∧ ∀ c doc, e ≠ .request c doc) : Served host c N w { w with
      heap := w.heap.alloc ch
      clients := adopted w c w.heap.next
      events := w.events ++ events } where
  good id r held := by
    obtain ⟨ch, found, named⟩ := good id r held
    exact ⟨ch, (Arena.get_alloc ..).trans (by rw [if_neg (good.ne_next held), found]), named⟩
  others _ ne := get_adopted_of_ne _ ne
  flags _ := flags_adopted _ _
  events := ⟨events, rfl, kinds⟩
  elsewhere _ _ _ _ found := found

theorem served_register (good : Good N w) (id : UInt64) {r : Ref} {ch : Character}
    (found : w.heap.get r = some ch) (named : N ch.name) :
    Served host c N w { w with characters := w.characters.insert id r } :=
  { ((Quiet.refl w).served good : Served host c N w w) with
    good := fun id' r' held => by
      rw [OrderedMap.find_insert] at held
      split at held
      · cases taken : w.characters.find id with
        | none =>
            simp only [taken, Option.getD_none, Option.some.injEq] at held
            exact ⟨ch, held ▸ found, named⟩
        | some r'' =>
            simp only [taken, Option.getD_some, Option.some.injEq] at held
            exact good id r' (held ▸ taken)
      · exact good id' r' held }

theorem serving_release (r : Ref) (w : World) : Serving host c N w (release r w) := by
  intro good
  rw [release]
  split
  · exact (Quiet.refl w).served good
  · rename_i unregistered
    refine { ((Quiet.refl w).served good : Served host c N w w) with good := fun id s held => ?_ }
    obtain ⟨ch, found, named⟩ := good id s held
    have ne : s ≠ r := by
      intro same
      exact unregistered (OrderedMap.mem_values.mpr ⟨id, same ▸ held⟩)
    exact ⟨ch, by rw [Arena.get_free, if_neg ne, found], named⟩

theorem serving_holding (r : Ref) {α : Type} {x : Action World α} (serving : Moves (Serving host c N) x) :
    Moves (Serving host c N) (holding r x) := by
  intro w
  have first := serving w
  unfold holding
  cases run : x w with
  | ok a w₁ =>
      rw [run] at first
      exact IsTrans.trans _ _ _ first (serving_release r w₁)
  | error e w₁ =>
      rw [run] at first
      exact IsTrans.trans _ _ _ first (serving_release r w₁)

theorem serving_saveAndSend (r c' : Ref) : Moves (Serving host c N) (saveText host r >>= send c') :=
  serving_of_quietly ((quietly_saveText r).bind fun text => quietly_send c' text)

section Named
variable {name : Bytes} (named : N name)
include named

theorem serving_createCharacter : Moves (Serving host c N) (createCharacter host name c) := by
  intro w good
  rw [createCharacter_apply]
  split
  · exact serving_of_quietly (quietly_testFile named) w good
  · have constructed : Served host c N w _ := served_construct good (.make createCharacterID name c)
      [.file .test name (charactersPath ++ name), .obtained c w.heap.next] (by simp [Event.Named, named])
    exact constructed.trans (served_register constructed.good createCharacterID
      (Arena.get_alloc_next ..) named)

theorem serving_loadCharacter : Moves (Serving host c N) (loadCharacter host name c) := by
  intro w good
  by_cases found : w.files.pathExists host.cwd (charactersPath ++ name) = true
  · rw [loadCharacter_of_found _ found]
    split
    · exact { ((Quiet.refl w).served good : Served host c N w w) with
        events := ⟨_, rfl, by simp [Event.Named, named]⟩ }
    · split
      · exact served_construct good _ _ (by simp [Event.Named, named])
      · rename_i e ch run
        have first : Served host c N w (loading w name c ch) :=
          served_construct good ch _ (by simp [Event.Named, named])
        exact first.trans (serving_release _ _ first.good)
  · rw [loadCharacter_of_missing (Bool.eq_false_iff.mpr found)]
    exact serving_of_quietly (quietly_testFile named) w good

end Named

theorem createCharacterHandler_eq (host : Host) (c : Ref) (name : Bytes) :
    ∃ rest : Option Ref → Action World Unit,
      createCharacterHandler host c name = createCharacter host name (some c) >>= rest ∧
        ∀ o, Moves (Serving host (some c) N) (rest o) := by
  refine ⟨_, rfl, fun o => ?_⟩
  split
  · exact serving_of_quietly (quietly_sendError c 409 _)
  · apply serving_holding
    apply (serving_of_quietly (quietly_deref _)).bind
    intro ch
    exact (serving_of_quietly (quietly_dump ch.characterID)).bind fun _ => serving_saveAndSend _ c

theorem loadCharacterHandler_eq (host : Host) (c : Ref) (name : Bytes) :
    ∃ rest : Option Ref → Action World Unit,
      loadCharacterHandler host c name = loadCharacter host name (some c) >>= rest ∧
        ∀ o, Moves (Serving host (some c) N) (rest o) := by
  refine ⟨_, rfl, fun o => ?_⟩
  split
  · exact (serving_of_quietly (quietly_sendError c 404 _)).bind fun _ => .throw _
  · exact serving_holding _ (serving_saveAndSend _ c)

theorem serving_createCharacterHandler (c : Ref) {name : Bytes} (named : N name) :
    Moves (Serving host (some c) N) (createCharacterHandler host c name) := by
  obtain ⟨rest, eq, serving⟩ := createCharacterHandler_eq (N := N) host c name
  rw [eq]
  exact (serving_createCharacter named).bind serving

theorem serving_loadCharacterHandler (c : Ref) {name : Bytes} (named : N name) :
    Moves (Serving host (some c) N) (loadCharacterHandler host c name) := by
  obtain ⟨rest, eq, serving⟩ := loadCharacterHandler_eq (N := N) host c name
  rw [eq]
  exact (serving_loadCharacter named).bind serving

end Serving

theorem serving_respond {host : Host} {N : Bytes → Prop} (c : Ref) {cmd : Command}
    (named : ∀ name, cmd.target = some name → N name) : Moves (Serving host (some c) N) (respond host c cmd) := by
  cases cmd with
  | malformed => exact serving_of_quietly (quietly_sendError c 400 _)
  | incomplete => exact serving_of_quietly (quietly_sendError c 400 _)
  | mistyped => exact .throw _
  | create name => exact serving_createCharacterHandler c (named name rfl)
  | load name => exact serving_loadCharacterHandler c (named name rfl)
  | data name entity action data => exact serving_of_quietly (quietly_dataCharacterHandler c name entity action data)

/-! ## Taking a step -/

def Input.client : Input → Option Ref
  | .data c _ => some c
  | .endOfStream c => some c
  | .error c _ => some c
  | _ => none

/-- What one input leaves as it was, whether it is handled or ends the server. -/
structure Stepped (host : Host) (N : Bytes → Prop) (i : Input) (w w' : World) : Prop where
  good : Good N w'
  others : ∀ c cl, i.client ≠ some c → w.clients.get c = some cl → w'.clients.get c = some cl
  greeted : ∀ c cl', w'.clients.get c = some cl' → cl'.heloParsed = true →
    (∃ cl, w.clients.get c = some cl ∧ cl.heloParsed = true) ∨
      ∃ evt, i = .data c evt ∧ IsOpen w c ∧ IsHelo evt.text
  kept : ∀ c cl, w.clients.get c = some cl → cl.heloParsed = true →
    ∃ cl', w'.clients.get c = some cl' ∧ cl'.heloParsed = true
  events : ∃ more, w'.events = w.events ++ more ∧ ∀ e ∈ more, e.Named N ∧
    ∀ c doc, e = .request c doc → ∃ evt cl, i = .data c evt ∧ doc = host.parse evt.text ∧
      w.clients.get c = some cl ∧ cl.heloParsed = true
  elsewhere : (∀ name, N name → IsPlain name) → (∀ files, i ≠ .outside files) → Elsewhere host w.files w'.files

section Stepped
variable {host : Host} {N : Bytes → Prop} {i : Input} {w w' w'' : World}

theorem Stepped.refl (good : Good N w) : Stepped host N i w w where
  good := good
  others _ _ _ found := found
  greeted _ cl' found parsed := .inl ⟨cl', found, parsed⟩
  kept _ cl found parsed := ⟨cl, found, parsed⟩
  events := ⟨[], by simp, by simp⟩
  elsewhere _ _ _ _ _ found := found

theorem Stepped.quiet (first : Stepped host N i w w') (second : Quiet host N w' w'') : Stepped host N i w w'' where
  good := second.good first.good
  others c cl ne found := by
    rw [second.clients]
    exact first.others c cl ne found
  greeted c cl' found := first.greeted c cl' (second.clients ▸ found)
  kept c cl found parsed := by
    rw [second.clients]
    exact first.kept c cl found parsed
  events := by
    obtain ⟨more, eq, kinds⟩ := second.events
    refine seen_trans first.events ⟨more, eq, fun e mem => ⟨(kinds e mem).1, ?_⟩⟩
    intro c doc asked
    have quiet := (kinds e mem).2
    rw [asked] at quiet
    exact quiet.elim
  elsewhere plain inside place node outside found :=
    second.elsewhere plain place node outside (first.elsewhere plain inside place node outside found)

theorem Stepped.onClient (good : Good N w) {c : Ref} (own : i.client = some c) {f : Client → Client}
    (keeps : ∀ cl : Client, cl.heloParsed = true → (f cl).heloParsed = true)
    (gains : ∀ cl : Client, (f cl).heloParsed = true → cl.heloParsed = true ∨
      ∃ evt, i = .data c evt ∧ IsOpen w c ∧ IsHelo evt.text) :
    Stepped host N i w { w with clients := w.clients.modify c f } :=
  { (Stepped.refl good : Stepped host N i w w) with
    others := fun c' cl ne found => by
      rw [Arena.get_modify_of_ne, found]
      rintro rfl
      exact ne own
    greeted := fun c' cl' found parsed => by
      rw [Arena.get_modify] at found
      split at found
      · rename_i same
        obtain ⟨cl, held, rfl⟩ := Option.map_eq_some_iff.mp found
        rcases gains cl parsed with before | now
        · exact .inl ⟨cl, same ▸ held, before⟩
        · exact .inr (same ▸ now)
      · exact .inl ⟨cl', found, parsed⟩
    kept := fun c' cl found parsed => by
      rw [Arena.get_modify]
      split
      · rename_i same
        exact ⟨f cl, by rw [← same, found, Option.map_some], keeps cl parsed⟩
      · exact ⟨cl, found, parsed⟩ }

theorem stepped_request {c : Ref} {evt : DataEvent} {cl : Client} (found : w.clients.get c = some cl)
    (parsed : cl.heloParsed = true)
    (served : Served host (some c) N (w.seen [.request c (host.parse evt.text)]) w') :
    Stepped host N (.data c evt) w w' where
  good := served.good
  others c' cl' ne found' := (served.others c' ne).trans found'
  greeted c' cl' found' parsed' := by
    have same := served.flags c'
    rw [found', Option.map_some, World.seen_clients, eq_comm, Option.map_eq_some_iff] at same
    obtain ⟨before, held, eq⟩ := same
    exact .inl ⟨before, held, (congrArg Prod.fst eq).trans parsed'⟩
  kept c' cl' found' parsed' := by
    have same := served.flags c'
    rw [World.seen_clients, found', Option.map_some, Option.map_eq_some_iff] at same
    obtain ⟨after, held, eq⟩ := same
    exact ⟨after, held, (congrArg Prod.fst eq).trans parsed'⟩
  events := by
    obtain ⟨more, eq, kinds⟩ := served.events
    refine ⟨.request c (host.parse evt.text) :: more, by simp [eq, World.seen], fun e mem => ?_⟩
    rcases List.mem_cons.mp mem with rfl | mem
    · refine ⟨trivial, fun c' doc asked => ?_⟩
      cases asked
      exact ⟨evt, cl, rfl, rfl, found, parsed⟩
    · exact ⟨(kinds e mem).1, fun c' doc asked => absurd asked ((kinds e mem).2 c' doc)⟩
  elsewhere plain _ := served.elsewhere plain

theorem identity_perform (scripts : ScriptStore) (ch : Character) (call : CharacterCall) :
    identity (Character.perform scripts ch call) = identity ch := by
  cases call with
  | addAbility scriptName defaultValue =>
      rw [Character.perform, Character.addAbility_apply]
      split <;> rfl
  | ability scriptName call =>
      rw [Character.perform]
      split <;> rfl
  | save => exact identity_save ch

theorem stepped (host : Host) (i : Input) (good : Good N w)
    (named : ∀ cmd name, asks host w i = some cmd → cmd.target = some name → N name) :
    Stepped host N i w (finalState (step host i w)) := by
  cases i with
  | accept connectionID =>
      refine { (Stepped.refl good : Stepped host N _ w w) with
        others := fun c cl _ found => ?_
        greeted := fun c cl' found parsed => ?_
        kept := fun c cl found parsed => ?_ }
      · exact (Arena.get_alloc ..).trans (by rw [if_neg (Nat.ne_of_lt (Arena.lt_next found)), found])
      · have lookup := (Arena.get_alloc ..).symm.trans found
        split at lookup
        · cases lookup
          cases parsed
        · exact .inl ⟨cl', lookup, parsed⟩
      · exact ⟨cl, (Arena.get_alloc ..).trans (by rw [if_neg (Nat.ne_of_lt (Arena.lt_next found)), found]), parsed⟩
  | data c evt =>
      by_cases isOpen : IsOpen w c
      · obtain ⟨cl, found, active⟩ := isOpen
        rw [step_data_of_open host evt found active]
        split
        · rename_i helo
          have flagged : Stepped host N (.data c evt) w _ := Stepped.onClient good rfl
            (f := fun client => { client with heloParsed := true }) (fun _ _ => rfl)
            fun _ _ => .inr ⟨evt, rfl, ⟨cl, found, active⟩, helo⟩
          exact flagged.quiet (Quiet.seen _ (e := .sent c heloReply) trivial trivial)
        · split
          · rename_i parsed
            exact stepped_request found parsed (serving_respond c (fun name target =>
              named _ name ((asks_data_iff host evt).mpr ⟨cl, found, active, ‹_›, parsed, rfl⟩) target) _ good)
          · exact Stepped.quiet (Stepped.refl good) (Quiet.seen w (e := .sent c _) trivial trivial)
      · rw [step_data_of_closed host evt isOpen]
        exact .refl good
  | endOfStream c =>
      by_cases isOpen : IsOpen w c
      · have closed : Stepped host N (.endOfStream c) w _ :=
          Stepped.onClient good rfl (f := close) (fun _ parsed => parsed) fun _ parsed => .inl parsed
        rw [step, whenOpen_of_open isOpen, bind_of_ok (onClient_apply w c close)]
        exact closed.quiet (quietly_endEvent c _ closed.good)
      · rw [step, whenOpen_of_closed isOpen]
        exact .refl good
  | error c readFailed =>
      by_cases isOpen : IsOpen w c
      · rw [step, whenOpen_of_open isOpen]
        split
        · exact Stepped.onClient good rfl (f := close) (fun _ parsed => parsed) fun _ parsed => .inl parsed
        · exact .refl good
      · rw [step, whenOpen_of_closed isOpen]
        exact .refl good
  | call r call => exact Stepped.quiet (Stepped.refl good) (Quiet.modify w fun ch _ => identity_perform host.scripts ch call)
  | dump => exact Stepped.quiet (Stepped.refl good) (quietly_dumpAll w good)
  | outside files =>
      exact { (Stepped.refl good : Stepped host N (.outside files) w w) with
        elsewhere := fun _ inside => absurd rfl (inside files) }

end Stepped

end D20Tempest.Server
