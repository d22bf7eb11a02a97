import D20Tempest.Server.Ownership
import D20Tempest.Server.Registry

namespace D20Tempest.Server
open Foundation Components Characters CharacterManager

/-! ## Holders of characters -/

inductive HolderCall where
  | create (name : Bytes) (client : Option Ref)
  | load (name : Bytes) (client : Option Ref)
  | change (r : Ref) (call : CharacterCall)
  | dumpAll
  | dump (id : UInt64)
  -- a caller gives up its pointer
  | drop (r : Ref)

def hold (host : Host) : HolderCall → Action World Unit
  | .create name client => attempt (createCharacter host name client)
  | .load name client => attempt (loadCharacter host name client)
  | .change r call => modify fun w =>
      { w with heap := w.heap.modify r fun ch => Character.perform host.scripts ch call }
  | .dumpAll => attempt (CharacterManager.dumpAll host)
  | .dump id => attempt (CharacterManager.dump host id)
  | .drop r => modify (release r)

def nameAt (w : World) (r : Ref) : Option Bytes := (w.heap.get r).map Character.name

def OneCopy (w : World) : Prop := ∀ r s name, nameAt w r = some name → nameAt w s = some name → r = s

/-- While a character of the name is registered, loading the name gives one that is saved as that one is. -/
def LoadsCurrent (host : Host) (w : World) : HolderCall → Prop
  | .load name client => ∀ r ch, Registered w r → w.heap.get r = some ch → ch.name = name →
      ∃ s ch' doc c c', returned (loadCharacter host name client w) = .ok (some s) ∧
        (finalState (loadCharacter host name client w)).heap.get s = some ch' ∧
        Character.save ch = .ok doc c ∧ Character.save ch' = .ok doc c'
  | _ => True

/-- Nothing is created under the name of a character that is held, and nothing loaded under the name of
a registered one or from a document with the name of one that is held. -/
def KeepsApart (host : Host) (w : World) : HolderCall → Prop
  | .create name _ => w.files.pathExists host.cwd (charactersPath ++ name) = true ∨ ∀ r, nameAt w r ≠ some name
  | .load name _ => (∀ r, Registered w r → nameAt w r ≠ some name) ∧
      ∀ data id n abilities, savedDocument host w.files name = some data →
        Describes host.scripts data id n abilities → ∀ r, nameAt w r ≠ some n
  | _ => True

section Copies
variable {host : Host} {name : Bytes} {client : Option Ref} {w w' : World} {ch : Character}

theorem OneCopy.of_names (one : OneCopy w) (names : ∀ r n, nameAt w' r = some n → nameAt w r = some n) : OneCopy w' :=
  fun r s n held held' => one r s n (names r n held) (names s n held')

theorem nameAt_of_quiet (quiet : Continues host w w') (r : Ref) : nameAt w' r = nameAt w r := by
  have same := congrArg (Option.map (·.2.1)) (quiet.identities r)
  rwa [Option.map_map, Option.map_map] at same

theorem nameAt_alloc (heap : w'.heap = w.heap.alloc ch) (r : Ref) :
    nameAt w' r = if r = w.heap.next then some ch.name else nameAt w r := by
  rw [nameAt, heap, Arena.get_alloc]
  split <;> rfl

theorem nameAt_next (w : World) : nameAt w w.heap.next = none := by
  rw [nameAt, Arena.get_next, Option.map_none]

theorem oneCopy_alloc_iff (one : OneCopy w) (heap : w'.heap = w.heap.alloc ch) :
    OneCopy w' ↔ ∀ r, nameAt w r ≠ some ch.name := by
  have names := nameAt_alloc heap
  constructor
  · intro after r held
    have ne : r ≠ w.heap.next := by
      rintro rfl
      simp [nameAt_next] at held
    refine ne (after r w.heap.next ch.name ?_ ?_)
    · rw [names, if_neg ne, held]
    · rw [names, if_pos rfl]
  · intro other r s n held held'
    rw [names] at held held'
    split at held <;> split at held'
    · rw [‹r = _›, ‹s = _›]
    · exact absurd (held'.trans held.symm) (other s)
    · exact absurd (held.trans held'.symm) (other r)
    · exact one r s n held held'

theorem nameAt_release (r s : Ref) (n : Bytes) (held : nameAt (release r w) s = some n) : nameAt w s = some n := by
  unfold release at held
  split at held
  · exact held
  · rw [nameAt, Arena.get_free] at held
    split at held
    · cases held
    · exact held

theorem nameAt_dropped (sound : Sound w) (r : Ref) :
    nameAt (release w.heap.next (loading w name client ch)) r = nameAt w r := by
  have unregistered : w.heap.next ∉ (loading w name client ch).characters.values := by
    intro mem
    obtain ⟨id, held⟩ := OrderedMap.mem_values.mp mem
    exact sound.ne_next held rfl
  rw [release, if_neg unregistered, nameAt]
  change (((w.heap.alloc ch).free w.heap.next).get r).map _ = _
  rw [Arena.get_free]
  split
  · rename_i same
    rw [same, nameAt_next, Option.map_none]
  · rename_i other
    rw [Arena.get_alloc, if_neg other, nameAt]

theorem name_of_save {ch ch' c c' : Character} {doc : Json} (saved : Character.save ch = .ok doc c)
    (saved' : Character.save ch' = .ok doc c') : ch.name = ch'.name := by
  have name : ∀ c : Character, c.document.find (str "name") = some (.string c.name) := fun _ => rfl
  obtain ⟨-, rfl, -⟩ := Character.save_ok_iff.mp saved
  obtain ⟨-, same, -⟩ := Character.save_ok_iff.mp saved'
  have both := (name ch).symm.trans (same ▸ name ch')
  rwa [Option.some.injEq, Json.string.injEq] at both

/-! ## What each call keeps -/

theorem sound_hold (host : Host) (sound : Sound w) (call : HolderCall) : Sound (finalState (hold host call w)) := by
  cases call with
  | create name client => exact sound_manage host sound (.create name client)
  | load name client => exact sound_manage host sound (.load name client)
  | change r call =>
      have quiet : Continues host w { w with heap := w.heap.modify r fun ch => Character.perform host.scripts ch call } :=
        Quiet.modify w fun ch _ => identity_perform host.scripts ch call
      exact quiet.good sound
  | dumpAll =>
      have quiet : Continues host w _ := quietly_dumpAll w sound
      exact quiet.good sound
  | dump id =>
      have quiet : Continues host w _ := quietly_dump id w sound
      exact quiet.good sound
  | drop r =>
      have served : Served host none (fun _ => True) w (release r w) := serving_release r w sound
      exact served.good

theorem create_apart_iff (one : OneCopy w) (name : Bytes) (client : Option Ref) :
    OneCopy (finalState (createCharacter host name client w)) ↔ KeepsApart host w (.create name client) := by
  rw [createCharacter_apply, KeepsApart]
  cases w.files.pathExists host.cwd (charactersPath ++ name) with
  | true => exact iff_of_true one (.inl rfl)
  | false =>
      have copies : OneCopy (created w name client) ↔
          ∀ r, nameAt w r ≠ some (Character.make createCharacterID name client).name := oneCopy_alloc_iff one rfl
      simpa [Character.make] using copies

theorem load_apart_iff_of_fails {name : Bytes}
    (fails : ∀ s, returned (loadCharacter host name client w) ≠ .ok (some s))
    (undescribed : ∀ data id n abilities, savedDocument host w.files name = some data →
      ¬ Describes host.scripts data id n abilities)
    (one : OneCopy (finalState (loadCharacter host name client w))) :
    OneCopy (finalState (loadCharacter host name client w)) ∧ LoadsCurrent host w (.load name client) ↔
      KeepsApart host w (.load name client) := by
  constructor
  · intro kept
    refine ⟨?_, fun data id n abilities held describes => absurd describes (undescribed data id n abilities held)⟩
    intro r registered held
    obtain ⟨ch, found, named⟩ := Option.map_eq_some_iff.mp held
    obtain ⟨s, -, -, -, -, gives, -⟩ := kept.2 r ch registered found named
    exact fails s gives
  · intro apart
    refine ⟨one, fun r ch registered found named => ?_⟩
    exact absurd (by rw [nameAt, found, Option.map_some, named]) (apart.1 r registered)

theorem load_apart_iff_of_loads {name : Bytes} {data : Json} (one : OneCopy w)
    (held : savedDocument host w.files name = some data)
    (loads : Character.load host.scripts data (Character.make createCharacterID name client) = .ok () ch)
    (run : loadCharacter host name client w = .ok (some w.heap.next) (loaded w name client ch)) :
    OneCopy (finalState (loadCharacter host name client w)) ∧ LoadsCurrent host w (.load name client) ↔
      KeepsApart host w (.load name client) := by
  have copies : OneCopy (loaded w name client ch) ↔ ∀ r, nameAt w r ≠ some ch.name := oneCopy_alloc_iff one rfl
  obtain ⟨id, n, abilities, describes, eq⟩ := Character.load_ok_iff.mp loads
  have named : ch.name = n := by rw [eq]; rfl
  rw [run, finalState_ok, copies]
  constructor
  · intro kept
    obtain ⟨other, current⟩ := kept
    refine ⟨?_, ?_⟩
    · intro r registered heldName
      obtain ⟨old, found, oldName⟩ := Option.map_eq_some_iff.mp heldName
      obtain ⟨s, ch', doc, c, c', gives, new, saved, saved'⟩ := current r old registered found oldName
      rw [run] at gives new
      obtain rfl : w.heap.next = s := by simpa [returned] using gives
      obtain rfl : ch = ch' := Option.some.inj ((Arena.get_alloc_next ..).symm.trans new)
      exact other r (by rw [heldName, ← oldName, name_of_save saved saved'])
    · intro data' id' n' abilities' held' describes' r
      obtain rfl := Option.some.inj (held.symm.trans held')
      have same := describes.reads_name.symm.trans describes'.reads_name
      rw [Except.ok.injEq] at same
      rw [← same, ← named]
      exact other r
  · intro apart
    refine ⟨?_, fun r old registered found oldName => ?_⟩
    · rw [named]
      exact apart.2 data id n abilities held describes
    · exact absurd (by rw [nameAt, found, Option.map_some, oldName]) (apart.1 r registered)

theorem load_apart_iff (sound : Sound w) (one : OneCopy w) (name : Bytes) (client : Option Ref) :
    OneCopy (finalState (loadCharacter host name client w)) ∧ LoadsCurrent host w (.load name client) ↔
      KeepsApart host w (.load name client) := by
  cases exist : w.files.pathExists host.cwd (charactersPath ++ name) with
  | false =>
      have run : loadCharacter host name client w = _ := loadCharacter_of_missing exist
      refine load_apart_iff_of_fails (fun s gives => by simp [run, returned] at gives) ?_ (by rw [run]; exact one)
      intro data _ _ _ held
      simp [pathExists_of_savedDocument held] at exist
  | true =>
      have run := loadCharacter_of_found client exist
      cases held : savedDocument host w.files name with
      | none =>
          rw [held] at run
          simp only at run
          refine load_apart_iff_of_fails (fun s gives => by simp [run, returned] at gives) ?_ (by rw [run]; exact one)
          intro data _ _ _ found
          simp [held] at found
      | some data =>
          rw [held] at run
          simp only at run
          cases loads : Character.load host.scripts data (Character.make createCharacterID name client) with
          | ok u ch =>
              rw [loads] at run
              exact load_apart_iff_of_loads one held loads run
          | error e ch =>
              rw [loads] at run
              simp only at run
              refine load_apart_iff_of_fails (fun s gives => by simp [run, returned] at gives) ?_ ?_
              · intro data' id n abilities found describes
                obtain rfl := Option.some.inj (held.symm.trans found)
                obtain ⟨ch', loads'⟩ := (Character.loadable_iff (.make createCharacterID name client)).mp ⟨id, n, abilities, describes⟩
                rw [loads] at loads'
                cases loads'
              · rw [run]
                exact one.of_names fun r n heldName => (nameAt_dropped sound r).symm.trans heldName

theorem hold_apart_iff (sound : Sound w) (one : OneCopy w) (call : HolderCall) :
    OneCopy (finalState (hold host call w)) ∧ LoadsCurrent host w call ↔ KeepsApart host w call := by
  have quiet : ∀ w', Continues host w w' → OneCopy w' := fun w' quiet =>
    one.of_names fun r n held => (nameAt_of_quiet quiet r).symm.trans held
  cases call with
  | create name client => exact (and_iff_left trivial).trans (create_apart_iff one name client)
  | load name client => exact load_apart_iff sound one name client
  | change r call =>
      exact iff_of_true ⟨quiet _ (Quiet.modify w fun ch _ => identity_perform host.scripts ch call), trivial⟩ trivial
  | dumpAll => exact iff_of_true ⟨quiet _ (quietly_dumpAll w sound), trivial⟩ trivial
  | dump id => exact iff_of_true ⟨quiet _ (quietly_dump id w sound), trivial⟩ trivial
  | drop r => exact iff_of_true ⟨one.of_names (nameAt_release r), trivial⟩ trivial

end Copies

/-- Along any calls from an empty registry, no two characters that are held bear one name, and none is
read from its file while a registered one bears the name, exactly as long as each name is free when a
character is created or loaded under it. -/
theorem one_copy_iff_keepsApart (host : Host) (files : FileTree) (clients : Arena Client) (calls : List HolderCall) :
    Meets (hold host) (fun w call => OneCopy (finalState (hold host call w)) ∧ LoadsCurrent host w call)
        (vacant files clients) calls ↔
      Meets (hold host) (KeepsApart host) (vacant files clients) calls := by
  refine meets_congr (I := fun w => Sound w ∧ OneCopy w) ⟨fun id r held => (by cases held), fun r s n held => (by cases held)⟩
    (fun w call inv => hold_apart_iff inv.1 inv.2 call) ?_
  intro w call w' inv apart taken
  have sound := sound_hold host inv.1 call
  have one := ((hold_apart_iff inv.1 inv.2 call).mpr apart).1
  rw [taken] at sound one
  exact ⟨sound, one⟩

def newAldor : Character := .make createCharacterID (str "Aldor") none

def newAldorText : Bytes := (newAldor.document.dump (fun _ => []) (some 4)).getD []

def aldorSaved : Host := .knowing [(newAldorText, newAldor.document)]

/-- Aldor is saved, changed and loaded: the second Aldor is the one of the file, next to the first. -/
theorem load_gives_second_copy : ¬ Meets (hold aldorSaved)
    (fun w call => OneCopy (finalState (hold aldorSaved call w)) ∧ LoadsCurrent aldorSaved w call) (vacant .root .empty)
    [.create (str "Aldor") none, .dump 0, .change 0 (.addAbility (str "strength") 10), .load (str "Aldor") none] := by
  intro met
  have run := run_play (hold aldorSaved) (vacant .root .empty)
    [.create (str "Aldor") none, .dump 0, .change 0 (.addAbility (str "strength") 10)] (by decide +kernel)
  have copies := (met.of_run run).1 0 1 (str "Aldor") (by decide +kernel) (by decide +kernel)
  cases copies

end D20Tempest.Server
