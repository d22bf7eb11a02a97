import D20Tempest.Server.Outcomes

namespace D20Tempest.Server
open Foundation Components Characters CharacterManager

inductive ManagerCall where
  | create (name : Bytes) (client : Option Ref)
  | load (name : Bytes) (client : Option Ref)
  | outside (files : FileTree)

def manage (host : Host) : ManagerCall → Action World Unit
  | .create name client => attempt (createCharacter host name client)
  | .load name client => attempt (loadCharacter host name client)
  | .outside files => modify fun w => { w with files := files }

def vacant (files : FileTree) (clients : Arena Client) : World := ⟨files, .empty, .empty, clients, []⟩

def Returned (w : World) (r : Ref) : Prop := ∃ client, .obtained client r ∈ w.events

/-- The characters returned so far have different ids, and each is found under its own. -/
structure Identified (w : World) : Prop where
  apart : ∀ r s ch ch', Returned w r → Returned w s → r ≠ s → w.heap.get r = some ch → w.heap.get s = some ch' →
    ch.characterID ≠ ch'.characterID
  found : ∀ r, Returned w r → ∃ ch, w.heap.get r = some ch ∧ CharacterManager.get w ch.characterID = some r

def KeepsIdentity (host : Host) (w : World) : ManagerCall → Prop
  | .create name _ => w.files.pathExists host.cwd (charactersPath ++ name) = true ∨
      w.characters.find createCharacterID = none
  | .load name _ => ∀ data, savedDocument host w.files name = some data → ¬ Loadable host.scripts data
  | .outside _ => True

section Identified
variable {host : Host} {name : Bytes} {client : Option Ref} {w w' : World}

def Found (w : World) : Prop := ∀ r, Returned w r → ∃ ch, w.heap.get r = some ch ∧ w.characters.find ch.characterID = some r

theorem identified_iff_found : Identified w ↔ Found w := by
  refine ⟨Identified.found, fun found => ⟨?_, found⟩⟩
  intro r s ch ch' returned returned' ne held held' same
  obtain ⟨_, eq, own⟩ := found r returned
  obtain rfl := Option.some.inj (eq.symm.trans held)
  obtain ⟨_, eq', own'⟩ := found s returned'
  obtain rfl := Option.some.inj (eq'.symm.trans held')
  rw [same] at own
  exact ne (Option.some.inj (own.symm.trans own'))

theorem returned_created (s : Ref) : Returned (created w name client) s ↔ Returned w s ∨ s = w.heap.next := by
  simp [Returned, created, exists_or]

theorem returned_loaded (ch : Character) (s : Ref) :
    Returned (loaded w name client ch) s ↔ Returned w s ∨ s = w.heap.next := by
  simp [Returned, loaded, exists_or]

theorem found_created_iff (sound : Sound w) (found : Found w) :
    Found (created w name client) ↔ w.characters.find createCharacterID = none := by
  constructor
  · intro after
    obtain ⟨ch, held, own⟩ := after w.heap.next ((returned_created _).mpr (.inr rfl))
    obtain rfl := Option.some.inj ((Arena.get_alloc_next ..).symm.trans held)
    rw [created_characters, Character.make, OrderedMap.find_insert, if_pos rfl, Option.some.injEq] at own
    cases taken : w.characters.find createCharacterID with
    | none => rfl
    | some r =>
        rw [taken, Option.getD_some] at own
        exact absurd own (sound.ne_next taken)
  · intro free r returned
    rcases (returned_created r).mp returned with before | rfl
    · obtain ⟨ch, held, own⟩ := found r before
      refine ⟨ch, ?_, ?_⟩
      · exact (Arena.get_alloc ..).trans (by rw [if_neg (Nat.ne_of_lt (Arena.lt_next held)), held])
      · rw [created_characters, OrderedMap.find_insert_of_ne, own]
        rintro same
        simp [← same, free] at own
    · refine ⟨_, Arena.get_alloc_next .., ?_⟩
      rw [created_characters, Character.make, OrderedMap.find_insert, if_pos rfl, free, Option.getD_none]

theorem not_found_loaded (sound : Sound w) (ch : Character) : ¬ Found (loaded w name client ch) := by
  intro after
  obtain ⟨ch', -, own⟩ := after w.heap.next ((returned_loaded ch _).mpr (.inr rfl))
  exact sound.ne_next own rfl

theorem found_dropped (sound : Sound w) (found : Found w) (ch : Character) :
    Found (release w.heap.next (loading w name client ch)) := by
  intro r returned
  have before : Returned w r := by simpa [Returned, loading] using returned
  obtain ⟨ch', held, own⟩ := found r before
  have ne : r ≠ w.heap.next := sound.ne_next own
  have unregistered : w.heap.next ∉ (loading w name client ch).characters.values := by
    intro mem
    obtain ⟨id, held⟩ := OrderedMap.mem_values.mp mem
    exact sound.ne_next held rfl
  refine ⟨ch', ?_, by rwa [release_characters]⟩
  rw [release, if_neg unregistered]
  change ((w.heap.alloc ch).free w.heap.next).get r = _
  rw [Arena.get_free, if_neg ne, Arena.get_alloc, if_neg ne, held]

theorem found_seen {events : List Event} (none : ∀ o r, .obtained o r ∉ events) (found : Found w) :
    Found (w.seen events) := by
  intro r returned
  exact found r (by simpa [Returned, World.seen, none] using returned)

theorem found_manage_iff (sound : Sound w) (found : Found w) (call : ManagerCall) :
    Found (finalState (manage host call w)) ↔ KeepsIdentity host w call := by
  cases call with
  | create name client =>
      simp only [manage, attempt, createCharacter_apply, KeepsIdentity]
      cases w.files.pathExists host.cwd (charactersPath ++ name) with
      | true => simpa using found_seen (by simp) found
      | false => simpa using found_created_iff sound found
  | load name client =>
      simp only [manage, attempt, KeepsIdentity]
      cases exist : w.files.pathExists host.cwd (charactersPath ++ name) with
      | false =>
          have missing : ∀ data, savedDocument host w.files name ≠ some data := by
            intro data held
            simp [pathExists_of_savedDocument held] at exist
          rw [loadCharacter_of_missing exist]
          exact ⟨fun _ data held => absurd held (missing data), fun _ => found_seen (by simp) found⟩
      | true =>
          rw [loadCharacter_of_found client exist]
          cases held : savedDocument host w.files name with
          | none => exact ⟨fun _ data eq => (by cases eq), fun _ => found_seen (by simp) found⟩
          | some data =>
              simp only [Option.some.injEq, forall_eq', Character.loadable_iff (.make createCharacterID name client)]
              cases run : Character.load host.scripts data (.make createCharacterID name client) with
              | ok u ch => simpa using not_found_loaded sound ch
              | error e ch => simpa using found_dropped sound found ch
  | outside files => exact ⟨fun _ => trivial, fun _ => found⟩

theorem sound_manage (host : Host) (sound : Sound w) (call : ManagerCall) : Sound (finalState (manage host call w)) := by
  cases call with
  | create name client =>
      have served : Served host client (fun _ => True) w (finalState (createCharacter host name client w)) :=
        serving_createCharacter trivial w sound
      exact served.good
  | load name client =>
      have served : Served host client (fun _ => True) w (finalState (loadCharacter host name client w)) :=
        serving_loadCharacter trivial w sound
      exact served.good
  | outside files => exact sound

end Identified

/-- Along any calls from an empty registry, the returned characters are told apart and found by their
ids exactly as long as no load succeeds and each creation that does finds the one id free. -/
theorem identified_iff_keepsIdentity (host : Host) (files : FileTree) (clients : Arena Client)
    (calls : List ManagerCall) :
    Meets (manage host) (fun w call => Identified (finalState (manage host call w))) (vacant files clients) calls ↔
      Meets (manage host) (KeepsIdentity host) (vacant files clients) calls := by
  refine meets_congr (I := fun w => Sound w ∧ Found w) ⟨fun id r held => (by cases held), ?_⟩ ?_ ?_
  · rintro r ⟨client, mem⟩
    cases mem
  · intro w call inv
    exact identified_iff_found.trans (found_manage_iff inv.1 inv.2 call)
  · intro w call w' inv keeps taken
    have sound := sound_manage host inv.1 call
    have found := (found_manage_iff inv.1 inv.2 call).mpr keeps
    rw [taken, finalState_ok] at sound found
    exact ⟨sound, found⟩

/-- Two characters that are created after each other have the same id, and the second is not found. -/
theorem created_twice : ¬ Meets (manage (.knowing []))
    (fun w call => Identified (finalState (manage (.knowing []) call w))) (vacant .root .empty)
    [.create (str "Aldor") none, .create (str "Berin") none] := by
  intro met
  have run := run_play (manage (.knowing [])) (vacant .root .empty) [.create (str "Aldor") none] (by decide)
  have identified := met.of_run run
  obtain ⟨ch, held, own⟩ := identified.found 1 ⟨none, List.mem_of_getElem? (i := 3) rfl⟩
  obtain rfl := Option.some.inj held
  revert own
  decide

end D20Tempest.Server
