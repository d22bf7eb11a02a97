import D20Tempest.Server.ErrorReplies
import D20Tempest.Server.Killing
import D20Tempest.Server.Platform

namespace D20Tempest.Server
open Foundation Components Characters CharacterManager TcpClient Stoppable

/-! ## What the files hold -/

section
variable (p : Platform)

/-- The text of a character that loads as it was saved. -/
def SavedText (text : Bytes) : Prop :=
  ∃ ch : Character, ch.Faithful p.scripts ∧ ch.document.dump p.number (some 4) = some text

/-- Each file is as it was at the start, or holds the text of a character; or, after a server was stopped, nothing
that can be read. -/
def FilesKept (stopped : Prop) (files₀ files : FileTree) : Prop :=
  ∀ place text, files.content place = some text →
    files₀.content place = some text ∨ SavedText p text ∨ stopped ∧ p.host.read text = none

structure Enduring (stopped : Prop) (files₀ : FileTree) (w : World) : Prop where
  heap : ∀ r ch, w.heap.get r = some ch → ch.Faithful p.scripts
  files : FilesKept p stopped files₀ w.files

def Recovers (files₀ : FileTree) (w : World) : Prop := FilesKept p True files₀ w.files

/-- What is kept wherever the code is stopped. -/
abbrev Endures {α : Type} (stopped : Prop) (files₀ : FileTree) (x : Stoppable World α) : Prop :=
  Guards (Enduring p stopped files₀) x (fun _ => Enduring p stopped files₀) (Recovers p files₀)

end

section
variable {p : Platform} {stopped : Prop} {files₀ : FileTree} {w v : World} {which : Option UInt64}

theorem Enduring.recovers (kept : Enduring p stopped files₀ w) : Recovers p files₀ w := by
  intro place text held
  exact (kept.files place text held).imp_right fun new => new.imp_right fun torn => ⟨trivial, torn.2⟩

theorem Enduring.complete (kept : Enduring p stopped files₀ w) {files : FileTree} {place : Path}
    (complete : Complete p.host which w files place) {text : Bytes} (held : files.content place = some text) :
    files₀.content place = some text ∨ SavedText p text ∨ stopped ∧ p.host.read text = none := by
  rcases complete with same | ⟨r, -, ch, text', found, -, -, dumps, content⟩
  · exact kept.files place text (same ▸ held)
  · obtain rfl := Option.some.inj (held.symm.trans content)
    exact .inr (.inl ⟨ch, kept.heap r ch found, dumpText_eq_ok_iff.mp dumps⟩)

/-- A beginning of a saved text is the whole text, or cannot be read. -/
theorem read_beginning (well : WellScripted p.scripts) {ch : Character} (faithful : ch.Faithful p.scripts) {bytes : Bytes}
    (begun : bytes = [] ∨ ch.Savable ∧ bytes <+: (ch.document.written p.number (some 4)).text) :
    SavedText p bytes ∨ p.host.read bytes = none := by
  obtain ⟨text, dumps⟩ := faithful.dumps well p.number
  have before : bytes <+: text := by
    rcases begun with rfl | ⟨-, beginning⟩
    · exact List.nil_prefix
    · rwa [Json.Written.eq_of_toOption ((Json.toOption_written ..).trans dumps)] at beginning
  by_cases whole : bytes = text
  · exact .inl ⟨ch, faithful, whole ▸ dumps⟩
  · exact .inr (Character.parse_torn_text dumps before whole)

/-! ## Saving -/

theorem endures_saving (well : WellScripted p.scripts) (which : Option UInt64) :
    Endures p stopped files₀ (saving p.host which) where
  returns w _ v kept run := by
    have between := (guards_saving p.host w which).returns w _ v rfl run
    refine ⟨fun r ch found => ?_, fun place text held => kept.complete (between.complete place) held⟩
    obtain ⟨ch₀, found₀, saved⟩ := between.heap r ch found
    have faithful := kept.heap r ch₀ found₀
    rcases saved with rfl | ⟨-, rfl⟩
    · exact faithful
    · exact faithful.refreshed well
  stops w v kept stop := by
    have all : AllComplete p.host which w v → Recovers p files₀ v := fun complete place text held =>
      (kept.complete (complete place) held).imp_right fun new => new.imp_right fun torn => ⟨trivial, torn.2⟩
    rcases (guards_saving p.host w which).stops w v rfl stop with complete | ⟨lost, unfinished, others⟩
    · exact all complete
    · intro place text held
      by_cases here : place = lost
      · subst here
        obtain ⟨r, -, ch, found, -, begun⟩ := unfinished
        rcases read_beginning well (kept.heap r ch found) (begun text held) with saved | unread
        · exact .inr (.inl saved)
        · exact .inr (.inr ⟨trivial, unread⟩)
      · exact (kept.complete (others place here) held).imp_right fun new => new.imp_right fun torn => ⟨trivial, torn.2⟩

/-! ## Everything else -/

/-- Neither a file nor a character changes. -/
def Still (w w' : World) : Prop := w'.files = w.files ∧ w'.heap = w.heap

instance : Std.Refl Still := ⟨fun _ => ⟨rfl, rfl⟩⟩

instance : IsTrans World Still := ⟨fun _ _ _ first second => ⟨second.1.trans first.1, second.2.trans first.2⟩⟩

theorem Enduring.still (kept : Enduring p stopped files₀ w) (still : Still w v) : Enduring p stopped files₀ v :=
  ⟨still.2 ▸ kept.heap, still.1 ▸ kept.files⟩

theorem endures_still {α : Type} {x : Action World α} (still : Moves Still x) : Endures p stopped files₀ (atomic x) := by
  refine guards_atomic (fun w kept => kept.recovers) ?_ ?_
  · intro w a v kept run
    have moved := still w
    rw [run] at moved
    exact kept.still moved
  · intro w e v kept run
    have moved := still w
    rw [run] at moved
    exact (kept.still moved).recovers

theorem still_log (e : Event) : Moves Still (log e) := fun _ => ⟨rfl, rfl⟩

theorem still_deref (r : Ref) : Moves Still (deref r) := by
  intro w
  cases found : w.heap.get r <;> simp [deref, bind_apply, found, Still]

theorem still_clientAt (c : Ref) : Moves Still (clientAt c) := by
  intro w
  cases found : w.clients.get c <;> simp [clientAt, bind_apply, found, Still]

theorem still_onClient (c : Ref) (f : Client → Client) : Moves Still (onClient c f) := fun _ => ⟨rfl, rfl⟩

theorem still_send (c : Ref) (msg : Bytes) : Moves Still (send c msg) := by
  apply (still_clientAt c).bind
  intro client
  split
  · exact .pure _
  · dsimp only
    split
    · exact (Moves.throw _).bind fun _ => still_log _
    · exact still_log _

theorem still_sendError (host : Host) (c : Ref) (code : Int64) (msg : Bytes) : Moves Still (sendError host c code msg) :=
  (Moves.evaluate _).bind fun _ => still_send c _

theorem still_dataCharacterHandler (host : Host) (c : Ref) (name entity action : Bytes) (data : Json) :
    Moves Still (dataCharacterHandler host c name entity action data) := by
  apply (still_clientAt c).bind
  intro client
  split
  · exact still_sendError host c _ _
  · exact Moves.forM (fun h => still_log _) _

/-! ### Characters -/

theorem name_of_target {docJson : Json} {cmd : Command} {name : Bytes} (asked : command docJson = cmd)
    (named : cmd.target = some name) : docJson.find (str "name") = some (.string name) := by
  subst asked
  unfold command at named
  split at named
  · cases named
  split at named
  · rename_i n a e found _ _
    split at named
    · rename_i name' _ _ text _ _
      rw [Json.getString_ok] at text
      subst text
      split_ifs at named
      · cases named
        exact found
      · cases named
        exact found
      · split at named <;> cases named
    · cases named
  · cases named

theorem utf8_of_target {host : Host} {text : Bytes} {cmd : Command} {name : Bytes} (asked : command (host.parse text) = cmd)
    (named : cmd.target = some name) : isUtf8 name = true :=
  Json.utf8_of_find (host.parse_utf8 text) (name_of_target asked named)

theorem Enduring.release (kept : Enduring p stopped files₀ w) (r : Ref) : Enduring p stopped files₀ (release r w) := by
  refine ⟨fun s ch found => ?_, by rw [release_files]; exact kept.files⟩
  unfold D20Tempest.Server.release at found
  split at found
  · exact kept.heap s ch found
  · rw [Arena.get_free] at found
    split at found
    · cases found
    · exact kept.heap s ch found

theorem Enduring.alloc (kept : Enduring p stopped files₀ w) {ch : Character} (faithful : ch.Faithful p.scripts)
    (same : v.files = w.files) (heap : v.heap = w.heap.alloc ch) : Enduring p stopped files₀ v := by
  refine ⟨fun r ch' found => ?_, same ▸ kept.files⟩
  rw [heap, Arena.get_alloc] at found
  split at found
  · cases found
    exact faithful
  · exact kept.heap r ch' found

theorem Enduring.modify (kept : Enduring p stopped files₀ w) {r : Ref} {f : Character → Character}
    (faithful : ∀ ch, w.heap.get r = some ch → (f ch).Faithful p.scripts)
    (same : v.files = w.files) (heap : v.heap = w.heap.modify r f) : Enduring p stopped files₀ v := by
  refine ⟨fun s ch found => ?_, same ▸ kept.files⟩
  rw [heap, Arena.get_modify] at found
  split at found
  · obtain ⟨ch₀, held, rfl⟩ := Option.map_eq_some_iff.mp found
    exact faithful ch₀ held
  · exact kept.heap s ch found

theorem endures_keeping {r : Ref} {x : Stoppable World Unit} (inside : Endures p stopped files₀ x) :
    Endures p stopped files₀ (keeping r x) where
  returns w _ v kept run := by
    obtain ⟨v', ran, rfl⟩ := holding_ok_iff.mp run
    exact (inside.returns w _ v' kept ran).release r
  stops w v kept stop := by
    rcases stop with cut | ⟨e, run⟩
    · exact inside.stops w v kept (.inl cut)
    · cases ran : x.run w with
      | ok u v' => simp [keeping, holding, ran] at run
      | error e' v' =>
          simp only [keeping, holding, ran, EStateM.Result.error.injEq] at run
          obtain ⟨rfl, rfl⟩ := run
          have recovered := inside.stops w v' kept (.inr ⟨_, ran⟩)
          rw [Recovers, release_files]
          exact recovered

theorem files_saveText (host : Host) (r : Ref) (w : World) : (finalState (saveText host r w)).files = w.files := by
  rw [saveText, bind_apply, onCharacter]
  cases w.heap.get r with
  | none => rfl
  | some ch =>
      dsimp only
      cases Character.save ch with
      | error e ch' => rfl
      | ok doc ch' =>
          dsimp only
          cases dumpText host (some 4) doc <;> rfl

theorem endures_saveText (well : WellScripted p.scripts) (r : Ref) : Endures p stopped files₀ (atomic (saveText p.host r)) := by
  refine guards_atomic (fun w kept => kept.recovers) ?_ ?_
  · intro w text v kept run
    obtain ⟨ch, found, -, -, rfl⟩ := saveText_ok_iff.mp run
    refine kept.modify (fun ch' held => ?_) rfl rfl
    obtain rfl := Option.some.inj (found.symm.trans held)
    exact (kept.heap r ch found).refreshed well
  · intro w e v kept run
    have same := files_saveText p.host r w
    rw [run, finalState_error] at same
    exact fun place text held => kept.recovers place text (same ▸ held)

theorem endures_saveAndSend (well : WellScripted p.scripts) (r c : Ref) :
    Endures p stopped files₀ (atomic (saveText p.host r >>= send c)) := by
  have stepwise : Endures p stopped files₀ (atomic (saveText p.host r) >>= fun text => atomic (send c text)) :=
    (endures_saveText well r).bind fun text => endures_still (still_send c text)
  exact stepwise.atomic fun w kept => kept.recovers

theorem endures_createCharacter {name : Bytes} (valid : isUtf8 name = true) (client : Option Ref) :
    Endures p stopped files₀ (atomic (createCharacter p.host name client)) := by
  refine guards_atomic (fun w kept => kept.recovers) ?_ ?_
  · intro w answer v kept run
    rw [createCharacter_apply] at run
    split at run
    · cases run
      exact kept.still ⟨rfl, rfl⟩
    · cases run
      exact kept.alloc (.make valid _ _) rfl rfl
  · intro w e v kept run
    rw [createCharacter_apply] at run
    split at run <;> cases run

theorem endures_loadCharacter {name : Bytes} (valid : isUtf8 name = true) (client : Option Ref) :
    Endures p stopped files₀ (atomic (loadCharacter p.host name client)) := by
  have outcome : ∀ w, Enduring p stopped files₀ w → (∀ answer v, loadCharacter p.host name client w = .ok answer v →
      Enduring p stopped files₀ v) ∧ (finalState (loadCharacter p.host name client w)).files = w.files := by
    intro w kept
    cases exist : w.files.pathExists p.host.cwd (charactersPath ++ name) with
    | false =>
        rw [loadCharacter_of_missing exist]
        refine ⟨fun answer v run => ?_, rfl⟩
        cases run
        exact kept.still ⟨rfl, rfl⟩
    | true =>
        rw [loadCharacter_of_found client exist]
        cases held : savedDocument p.host w.files name with
        | none => exact ⟨fun answer v run => (by cases run), rfl⟩
        | some data =>
            have utf8 : data.utf8 = true := by
              obtain ⟨text, -, reads⟩ := Option.bind_eq_some_iff.mp held
              exact Platform.utf8_read reads
            dsimp only
            cases loads : Character.load p.host.scripts data (Character.make createCharacterID name client) with
            | error e ch => exact ⟨fun answer v run => (by cases run), release_files _ _⟩
            | ok u ch =>
                refine ⟨fun answer v run => ?_, rfl⟩
                cases run
                exact kept.alloc (Character.Faithful.load utf8 (.make valid _ _) loads) rfl rfl
  refine guards_atomic (fun w kept => kept.recovers) (fun w answer v kept run => (outcome w kept).1 answer v run) ?_
  intro w e v kept run
  have same := (outcome w kept).2
  rw [run, finalState_error] at same
  exact fun place text held => kept.recovers place text (same ▸ held)

/-! ## Steps -/

theorem endures_creatingCharacter (well : WellScripted p.scripts) (c : Ref) {name : Bytes} (valid : isUtf8 name = true) :
    Endures p stopped files₀ (creatingCharacter p.host c name) := by
  apply (endures_createCharacter valid (some c)).bind
  intro answer
  cases answer with
  | none => exact endures_still (still_sendError p.host c _ _)
  | some r =>
      apply endures_keeping
      apply (endures_still (still_deref r)).bind
      intro character
      exact (endures_saving well _).bind fun _ => endures_saveAndSend well r c

theorem endures_loadCharacterHandler (well : WellScripted p.scripts) (c : Ref) {name : Bytes} (valid : isUtf8 name = true) :
    Endures p stopped files₀ (atomic (loadCharacterHandler p.host c name)) := by
  let handling : Option Ref → Action World Unit := fun answer =>
    answer.elim (sendError p.host c 404 (str "Unknown entity") >>= fun _ => throw .nullPointer)
      fun r => holding r (saveText p.host r >>= send c)
  have stepwise : Endures p stopped files₀ (atomic (loadCharacter p.host name (some c)) >>= fun answer => atomic (handling answer)) := by
    apply (endures_loadCharacter valid (some c)).bind
    intro answer
    cases answer with
    | none => exact endures_still ((still_sendError p.host c _ _).bind fun _ => .throw _)
    | some r => exact (endures_keeping (endures_saveAndSend well r c)).atomic fun w kept => kept.recovers
  have same : loadCharacterHandler p.host c name = loadCharacter p.host name (some c) >>= handling := by
    rw [loadCharacterHandler]
    congr 1
    funext answer
    cases answer <;> rfl
  rw [same]
  exact stepwise.atomic fun w kept => kept.recovers

theorem endures_respond (well : WellScripted p.scripts) (c : Ref) {cmd : Command}
    (named : ∀ name, cmd.target = some name → isUtf8 name = true) : Endures p stopped files₀ (atomic (respond p.host c cmd)) := by
  cases cmd with
  | malformed => exact endures_still (still_sendError p.host c _ _)
  | incomplete => exact endures_still (still_sendError p.host c _ _)
  | mistyped => exact endures_still (.throw _)
  | create name =>
      have stepwise : Endures p stopped files₀ (creatingCharacter p.host c name) := endures_creatingCharacter well c (named name rfl)
      have whole := stepwise.atomic fun w kept => kept.recovers
      rwa [run_creatingCharacter] at whole
  | load name => exact endures_loadCharacterHandler well c (named name rfl)
  | data name entity action data => exact endures_still (still_dataCharacterHandler p.host c name entity action data)

theorem endures_data (well : WellScripted p.scripts) (c : Ref) (evt : DataEvent) :
    Endures p stopped files₀ (atomic (step p.host (.data c evt))) := by
  refine guards_of_same (fun w kept => ?_) fun w kept => kept.recovers
  by_cases isOpen : IsOpen w c
  · obtain ⟨cl, found, active⟩ := isOpen
    rw [step_data_of_open p.host evt found active]
    by_cases helo : IsHelo evt.text
    · rw [if_pos helo]
      refine ⟨fun w => .ok () (greeted w c), rfl, endures_still fun w => ⟨rfl, rfl⟩⟩
    rw [if_neg helo]
    split
    · have parsing : Endures p stopped files₀ (atomic (log (.request c (p.host.parse evt.text))) >>= fun _ =>
          atomic (respond p.host c (command (p.host.parse evt.text)))) :=
        (endures_still (still_log _)).bind fun _ => endures_respond well c fun name named => utf8_of_target rfl named
      exact ⟨_, rfl, parsing.atomic fun w kept => kept.recovers⟩
    · exact ⟨log (.sent c (errorText 400 (str "HELO was not received"))), rfl, endures_still (still_log _)⟩
  · exact ⟨pure (), step_data_of_closed p.host evt isOpen, endures_still (.pure ())⟩

theorem endures_leaving (well : WellScripted p.scripts) (c r : Ref) : Endures p stopped files₀ (leaving p.host c r) := by
  apply (endures_still (still_log _)).bind
  intro _
  exact (endures_still (still_deref r)).bind fun character => endures_saving well _

theorem endures_ending (well : WellScripted p.scripts) (c : Ref) : Endures p stopped files₀ (ending p.host c) := by
  apply (endures_still (still_clientAt c)).bind
  intro client
  exact guards_forM (fun w kept => kept.recovers) _ fun r _ => endures_leaving well c r

/-- Nobody else changes the files, and no ability is loaded but with its character. -/
def Spared : Input → Prop
  | .outside _ => False
  | .call _ (.ability _ (.load _)) => False
  | _ => True

theorem endures_stepping (well : WellScripted p.scripts) {i : Input} (spared : Spared i) :
    Endures p stopped files₀ (stepping p.host i) := by
  cases i with
  | accept connectionID => exact endures_still fun w => ⟨rfl, rfl⟩
  | data c evt =>
      refine (guards_get fun w kept => kept.recovers).bind fun u => ?_
      refine Guards.strengthen ?_ fun w start => start.2
      split
      · rename_i name asked
        obtain ⟨cl, -, -, -, -, cmd⟩ := (asks_data_iff p.host evt).mp asked
        exact (endures_still (still_log _)).bind fun _ => endures_creatingCharacter well c (utf8_of_target cmd rfl)
      · exact endures_data well c evt
  | endOfStream c =>
      refine (guards_get fun w kept => kept.recovers).bind fun u => ?_
      refine Guards.strengthen ?_ fun w start => start.2
      split
      · exact (endures_still (still_onClient c close)).bind fun _ => endures_ending well c
      · exact guards_pure (fun w kept => kept.recovers) fun w kept => kept
  | error c readFailed =>
      refine endures_still fun w => ?_
      by_cases isOpen : IsOpen w c
      · rw [step, whenOpen_of_open isOpen]
        cases readFailed <;> exact ⟨rfl, rfl⟩
      · rw [step, whenOpen_of_closed isOpen]
        exact ⟨rfl, rfl⟩
  | call r call =>
      refine guards_atomic (fun w kept => kept.recovers) ?_ ?_
      · intro w u v kept run
        cases run
        refine kept.modify (fun ch held => (kept.heap r ch held).perform well call ?_) rfl rfl
        rintro key doc rfl
        exact spared
      · intro w e v kept run
        cases run
  | dump => exact endures_saving well none
  | outside files => exact spared.elim

theorem enduring_run (well : WellScripted p.scripts) {inputs : List Input} (spared : ∀ i ∈ inputs, Spared i) (kept : Enduring p stopped files₀ w)
    (run : Run (step p.host) w inputs v) : Enduring p stopped files₀ v := by
  induction inputs generalizing w with
  | nil => rwa [run_nil.mp run]
  | cons i rest ih =>
      obtain ⟨u, taken, later⟩ := run_cons.mp run
      obtain ⟨first, others⟩ := List.forall_mem_cons.mp spared
      refine ih others ((endures_stepping well first).returns w () u kept ?_) later
      rw [run_stepping, taken]

end
end D20Tempest.Server
