import D20Tempest.Server.Ownership

namespace D20Tempest.Server
open Foundation Components Characters CharacterManager TcpClient

/-- What the end of a connection is to leave behind: each character that was obtained through it is in
its file as it was, and out of the registry, and nothing else has changed. -/
structure Cleaned (host : Host) (c : Ref) (w w' : World) : Prop where
  saved : ∀ r, .obtained (some c) r ∈ w.events → ∃ ch text, w.heap.get r = some ch ∧
    dumpText host (some 4) ch.document = .ok text ∧
    w'.files.read host.cwd (charactersPath ++ ch.name) = some text
  destroyed : ∀ r, .obtained (some c) r ∈ w.events → ¬ Registered w' r
  files : ∀ place, (∀ r ch, .obtained (some c) r ∈ w.events → w.heap.get r = some ch →
    place ≠ resolve host.cwd (charactersPath ++ ch.name)) → w'.files.content place = w.files.content place
  others : ∀ id r, .obtained (some c) r ∉ w.events →
    (w'.characters.find id = some r ↔ w.characters.find id = some r)

/-! ## What the states have in common -/

section Kept
variable {host : Host} {c : Ref} {w w' : World}

theorem obtained_respond {cmd : Command} (sound : Sound w) (isOpen : IsOpen w c) (constructs : Constructs host w cmd)
    (answered : respond host c cmd w = .ok () w') (o : Option Ref) (r : Ref) :
    .obtained o r ∈ w'.events ↔ .obtained o r ∈ w.events ∨ o = some c ∧ r = w.heap.next := by
  cases cmd with
  | create name =>
      obtain ⟨w₁, quiet, eq⟩ := create_outcome (c := c) sound constructs
      change createCharacterHandler host c name w = _ at answered
      rw [answered] at eq
      have events : w'.events = w₁.events := (congrArg World.events eq).trans (release_events _ _)
      rw [events, (Calm.of_continues host quiet).obtained]
      simp [created]
  | load name =>
      obtain ⟨data, -, ch, text, -, -, -, -, rfl⟩ := (loadCharacterHandler_ok_iff isOpen).mp answered
      simp [loaded, World.seen]
  | _ => exact constructs.elim

structure Kept (w : World) : Prop where
  sound : Sound w
  registered : ∀ r, w.heap.Alive r → Registered w r
  obtained : ∀ c r, Leaves w c r → .obtained (some c) r ∈ w.events

theorem kept_initial (files : FileTree) : Kept (initial files) where
  sound := good_initial _ files
  registered r alive := by cases alive
  obtained c r leaves := by
    obtain ⟨cl, found, -⟩ := leaves
    cases found

theorem kept_step {i : Input} (kept : Kept w) (taken : step host i w = .ok () w') : Kept w' := by
  have next := stepped host i kept.sound fun _ _ _ _ => trivial
  rw [taken, finalState_ok] at next
  by_cases making : ∃ cmd, asks host w i = some cmd ∧ Constructs host w cmd
  · obtain ⟨cmd, asked, constructs⟩ := making
    obtain ⟨c, evt, rfl, isOpen, arrives⟩ := step_arrives kept.sound asked constructs
    rw [taken, finalState_ok] at arrives
    refine ⟨next.good, fun r alive => ?_, fun c' r leaves => ?_⟩
    · rw [Registered, arrives.characters]
      rcases (arrives.alive r).mp alive with before | ⟨rfl, taken⟩
      · exact registered_after cmd (kept.registered r before)
      · exact OrderedMap.mem_values.mp taken
    · obtain ⟨cl, found, active, other, parsed, rfl⟩ := (asks_data_iff host evt).mp asked
      rw [step_data_of_open host evt found active, if_neg other, if_pos parsed] at taken
      rw [obtained_respond (w := w.seen _) kept.sound isOpen constructs taken]
      rcases (arrives.leaves c' r).mp leaves with before | ⟨rfl, rfl⟩
      · exact .inl (by simp [World.seen, kept.obtained c' r before])
      · exact .inr ⟨rfl, rfl⟩
  · have calm : Calm w _ := step_calm host kept.sound fun cmd asked constructs => making ⟨cmd, asked, constructs⟩
    rw [taken, finalState_ok] at calm
    refine ⟨next.good, fun r alive => ?_, fun c r leaves => ?_⟩
    · rw [Registered, calm.characters]
      exact kept.registered r ((calm.alive r).mp alive)
    · exact (calm.obtained _ r).mpr (kept.obtained c r ((calm.leaves c r).mp leaves))

theorem kept_of_reachable (reachable : Reachable host w) : Kept w := by
  obtain ⟨files, inputs, run⟩ := reachable
  exact run.always (kept_initial files) fun s i s' kept taken => kept_step kept taken

end Kept

/-! ## The end of a connection -/

section Leaving
variable {host : Host} {c : Ref} {w w' : World}

theorem step_endOfStream_of_none (kept : Kept w) (isOpen : IsOpen w c)
    (none : ∀ r, .obtained (some c) r ∉ w.events) :
    step host (.endOfStream c) w = .ok () { w with clients := w.clients.modify c close } := by
  obtain ⟨cl, found, active⟩ := isOpen
  have empty : cl.disconnectionHandlers = [] := by
    apply List.eq_nil_iff_forall_not_mem.mpr
    intro r mem
    exact none r (kept.obtained c r ⟨cl, found, mem⟩)
  have closed : ({ w with clients := w.clients.modify c close } : World).clients.get c = some (close cl) := by
    rw [Arena.get_modify_self, found, Option.map_some]
  rw [step, whenOpen_of_open ⟨cl, found, active⟩, bind_of_ok (onClient_apply w c close), endEvent,
    bind_of_ok (clientAt_of_get _ closed)]
  show (cl.disconnectionHandlers.forM _ : Action World Unit) _ = _
  rw [empty]
  rfl

/-- A connection leaves as it should exactly when no character was obtained through it: the registry
keeps every character it has, and only its characters can be saved. -/
theorem cleaned_iff_none_obtained (host : Host) (c : Ref) (w : World) (reachable : Reachable host w)
    (isOpen : IsOpen w c) :
    (∃ w', step host (.endOfStream c) w = .ok () w' ∧ Cleaned host c w w') ↔
      ∀ r, .obtained (some c) r ∉ w.events := by
  have kept := kept_of_reachable reachable
  constructor
  · rintro ⟨w', taken, cleaned⟩ r obtained
    obtain ⟨ch, text, found, -⟩ := cleaned.saved r obtained
    have alive : w.heap.Alive r := by rw [Arena.Alive, found]; rfl
    have calm : Calm w _ := step_calm host (i := .endOfStream c) kept.sound fun cmd asked => by cases asked
    rw [taken, finalState_ok] at calm
    apply cleaned.destroyed r obtained
    rw [Registered, calm.characters]
    exact kept.registered r alive
  · intro none
    refine ⟨_, step_endOfStream_of_none kept isOpen none, ?_, ?_, fun _ _ => rfl, fun _ _ _ => Iff.rfl⟩
    · exact fun r obtained => absurd obtained (none r)
    · exact fun r obtained => absurd obtained (none r)

end Leaving

def oneName : Host := .hearing [(str "create", str "Aldor")]

def creating : List Input := [.accept 0, .data 0 helo, .request 0 (str "create") (str "Aldor")]

theorem cleaned_iff_after_create :
    let w := finalState (play (step oneName) creating (initial .root))
    (∃ w', step oneName (.endOfStream 0) w = .ok () w' ∧ Cleaned oneName 0 w w') ↔
      ∀ r, .obtained (some 0) r ∉ w.events :=
  cleaned_iff_none_obtained oneName 0 _ ⟨.root, creating, run_play _ _ _ (by decide +kernel)⟩ (by decide +kernel)

/-- The handler saves the character, and the registry still has it. -/
theorem leaving_keeps_character : ¬ ∀ w c, Reachable oneName w → IsOpen w c →
    ∃ w', step oneName (.endOfStream c) w = .ok () w' ∧ Cleaned oneName c w w' := by
  intro all
  have run : Run (step oneName) (initial .root) creating _ := run_play _ _ _ (by decide +kernel)
  obtain ⟨w', taken, cleaned⟩ := all _ 0 ⟨.root, creating, run⟩ (by decide +kernel)
  have obtained : ((finalState (play (step oneName) creating (initial .root))).events.any fun e => match e with
      | .obtained client r => client = some 0 ∧ r = 0
      | _ => false) = true := by decide +kernel
  obtain ⟨e, mem, which⟩ := List.any_eq_true.mp obtained
  have registry : (finalState (step oneName (.endOfStream 0)
      (finalState (play (step oneName) creating (initial .root))))).characters.values = [0] := by decide +kernel
  rw [taken, finalState_ok] at registry
  split at which
  · obtain ⟨rfl, rfl⟩ := of_decide_eq_true which
    exact cleaned.destroyed 0 mem (OrderedMap.mem_values.mp (by simp [registry]))
  · cases which

end D20Tempest.Server
