import D20Tempest.Server.Outcomes
import D20Tempest.Server.HeloGate

namespace D20Tempest.Server
open Foundation Components Characters CharacterManager TcpClient

/-! ## Owners and users -/

def Registered (w : World) (r : Ref) : Prop := ∃ id, w.characters.find id = some r

def Client.Captures (cl : Client) (r : Ref) : Prop :=
  r ∈ cl.disconnectionHandlers ∨ ∃ path handlers, cl.messageHandlers.find path = some handlers ∧ r ∈ handlers

def Captured (w : World) (c r : Ref) : Prop :=
  ∃ cl, w.clients.get c = some cl ∧ cl.active = true ∧ cl.Captures r

def Leaves (w : World) (c r : Ref) : Prop :=
  ∃ cl, w.clients.get c = some cl ∧ r ∈ cl.disconnectionHandlers

/-- Every character that an open connection can reach is owned by the registry, and so alive. -/
def Owned (w : World) : Prop := ∀ c r, Captured w c r → Registered w r ∧ w.heap.Alive r

def Constructs (host : Host) (w : World) : Command → Prop
  | .create name => w.files.pathExists host.cwd (charactersPath ++ name) = false
  | .load name => ∃ data, savedDocument host w.files name = some data
  | _ => False

theorem find_onMessage (cl : Client) (path : Bytes) (r : Ref) (other : Bytes) :
    (cl.onMessage path (some r)).messageHandlers.find other =
      if upperCase path = other then some ((cl.messageHandlers.find other).getD [] ++ [r])
      else cl.messageHandlers.find other := by
  simp only [Client.onMessage, OrderedMap.find_assign, OrderedMap.find_insert]
  split
  · rename_i same
    subst same
    simp
  · rfl

theorem captures_adopted (cl : Client) (path : Bytes) (r s : Ref) :
    ((cl.onLeave (some r)).onMessage path (some r)).Captures s ↔ cl.Captures s ∨ s = r := by
  have leave : ((cl.onLeave (some r)).onMessage path (some r)).disconnectionHandlers =
      cl.disconnectionHandlers ++ [r] := rfl
  have message : (cl.onLeave (some r)).messageHandlers = cl.messageHandlers := rfl
  simp only [Client.Captures, leave, find_onMessage, message, List.mem_append, List.mem_singleton]
  constructor
  · rintro ((left | new) | ⟨other, handlers, found, mem⟩)
    · exact .inl (.inl left)
    · exact .inr new
    · split at found
      · cases found
        rcases List.mem_append.mp mem with mem | mem
        · cases held : cl.messageHandlers.find other with
          | none => simp [held] at mem
          | some old =>
              rw [held, Option.getD_some] at mem
              exact .inl (.inr ⟨other, old, held, mem⟩)
        · exact .inr (List.mem_singleton.mp mem)
      · exact .inl (.inr ⟨other, handlers, found, mem⟩)
  · rintro ((left | ⟨other, handlers, found, mem⟩) | new)
    · exact .inl (.inl left)
    · refine .inr ⟨other, ?_⟩
      split
      · exact ⟨_, rfl, by simp [found, mem]⟩
      · exact ⟨handlers, found, mem⟩
    · exact .inl (.inr new)

/-! ## Steps without a new character -/

structure Calm (w w' : World) : Prop where
  characters : w'.characters = w.characters
  alive : ∀ r, w'.heap.Alive r ↔ w.heap.Alive r
  captured : ∀ c r, Captured w' c r → Captured w c r
  leaves : ∀ c r, Leaves w' c r ↔ Leaves w c r
  obtained : ∀ o r, .obtained o r ∈ w'.events ↔ .obtained o r ∈ w.events

namespace Calm
variable {host : Host} {w w' w'' : World}

theorem trans (first : Calm w w') (second : Calm w' w'') : Calm w w'' where
  characters := second.characters.trans first.characters
  alive r := (second.alive r).trans (first.alive r)
  captured c r held := first.captured c r (second.captured c r held)
  leaves c r := (second.leaves c r).trans (first.leaves c r)
  obtained o r := (second.obtained o r).trans (first.obtained o r)

theorem refl (w : World) : Calm w w := ⟨rfl, fun _ => .rfl, fun _ _ => id, fun _ _ => .rfl, fun _ _ => .rfl⟩

theorem of_continues (host : Host) (quiet : Continues host w w') : Calm w w' where
  characters := quiet.characters
  alive := quiet.alive_iff
  captured c r held := by
    rw [Captured, quiet.clients] at held
    exact held
  leaves c r := by rw [Leaves, Leaves, quiet.clients]
  obtained o r := by
    obtain ⟨more, eq, kinds⟩ := quiet.events
    rw [eq, List.mem_append]
    refine ⟨?_, .inl⟩
    rintro (before | now)
    · exact before
    · exact (kinds _ now).2.elim

theorem seen (w : World) {events : List Event} (none : ∀ o r, .obtained o r ∉ events) : Calm w (w.seen events) :=
  { (refl w : Calm w w) with
    obtained := fun o r => by simp [World.seen, none o r] }

theorem onClient {c : Ref} {f : Client → Client} (message : ∀ cl, (f cl).messageHandlers = cl.messageHandlers)
    (leave : ∀ cl, (f cl).disconnectionHandlers = cl.disconnectionHandlers)
    (opens : ∀ cl, (f cl).active = true → cl.active = true) :
    Calm w { w with clients := w.clients.modify c f } :=
  { (refl w : Calm w w) with
    captured := fun c' r held => by
      obtain ⟨cl, found, active, captures⟩ := held
      rw [Arena.get_modify] at found
      split at found
      · rename_i same
        subst same
        obtain ⟨before, held, rfl⟩ := Option.map_eq_some_iff.mp found
        rw [Client.Captures, message, leave] at captures
        exact ⟨before, held, opens before active, captures⟩
      · exact ⟨cl, found, active, captures⟩
    leaves := fun c' r => by
      simp only [Leaves, Arena.get_modify]
      split
      · rename_i same
        subst same
        constructor
        · intro captured
          obtain ⟨cl, found, mem⟩ := captured
          obtain ⟨before, held, rfl⟩ := Option.map_eq_some_iff.mp found
          exact ⟨before, held, leave before ▸ mem⟩
        · intro captured
          obtain ⟨cl, found, mem⟩ := captured
          exact ⟨f cl, by rw [found, Option.map_some], by rwa [leave]⟩
      · exact Iff.rfl }

theorem closed (w : World) (c : Ref) : Calm w { w with clients := w.clients.modify c close } :=
  .onClient (fun _ => rfl) (fun _ => rfl) fun cl active => by simp [close] at active

end Calm

section Calm
variable {host : Host} {c : Ref} {w : World}

theorem respond_calm {cmd : Command} (sound : Sound w) (isOpen : IsOpen w c) (no : ¬ Constructs host w cmd) :
    Calm w (finalState (respond host c cmd w)) := by
  cases cmd with
  | malformed => exact .of_continues host (quietly_sendError c 400 _ w sound)
  | incomplete => exact .of_continues host (quietly_sendError c 400 _ w sound)
  | mistyped => exact .refl w
  | create name =>
      have exist : w.files.pathExists host.cwd (charactersPath ++ name) = true := by simpa [Constructs] using no
      rw [respond, createCharacterHandler_of_existing isOpen exist]
      exact .seen w (by simp)
  | load name =>
      cases exist : w.files.pathExists host.cwd (charactersPath ++ name) with
      | false =>
          rw [respond, loadCharacterHandler_of_missing isOpen exist]
          exact .seen w (by simp)
      | true =>
          have unreadable : savedDocument host w.files name = none := by
            simpa [Constructs, Option.eq_none_iff_forall_ne_some] using no
          rw [respond, loadCharacterHandler_of_unreadable exist unreadable]
          exact .seen w (by simp)
  | data name entity action data =>
      exact .of_continues host (quietly_dataCharacterHandler c name entity action data w sound)

theorem step_calm (host : Host) {i : Input} (sound : Sound w)
    (no : ∀ cmd, asks host w i = some cmd → ¬ Constructs host w cmd) : Calm w (finalState (step host i w)) := by
  cases i with
  | accept connectionID =>
      have fresh : ∀ c cl, (w.clients.alloc (Client.make connectionID)).get c = some cl →
          w.clients.get c = some cl ∨ cl = Client.make connectionID := by
        intro c cl found
        rw [Arena.get_alloc] at found
        split at found
        · exact .inr (Option.some.inj found).symm
        · exact .inl found
      have kept : ∀ c cl, w.clients.get c = some cl → (w.clients.alloc (Client.make connectionID)).get c = some cl := by
        intro c cl found
        rw [Arena.get_alloc, if_neg (Nat.ne_of_lt (Arena.lt_next found)), found]
      refine { (Calm.refl w : Calm w w) with captured := fun c r held => ?_, leaves := fun c r => ⟨?_, ?_⟩ }
      · obtain ⟨cl, found, active, captures⟩ := held
        rcases fresh c cl found with found | rfl
        · exact ⟨cl, found, active, captures⟩
        · rcases captures with left | ⟨path, handlers, found, -⟩
          · cases left
          · cases found
      · intro captured
        obtain ⟨cl, found, mem⟩ := captured
        rcases fresh c cl found with found | rfl
        · exact ⟨cl, found, mem⟩
        · cases mem
      · intro captured
        obtain ⟨cl, found, mem⟩ := captured
        exact ⟨cl, kept c cl found, mem⟩
  | data c evt =>
      by_cases isOpen : IsOpen w c
      · obtain ⟨cl, found, active⟩ := isOpen
        rw [step_data_of_open host evt found active]
        split
        · have answered : Calm w (w.seen [.sent c heloReply]) := .seen w (by simp)
          exact answered.trans (.onClient (fun _ => rfl) (fun _ => rfl) fun _ => id)
        · split
          · have asked := (asks_data_iff host evt).mpr ⟨cl, found, active, ‹_›, ‹_›, rfl⟩
            exact .trans (.seen w (by simp)) (respond_calm (w := w.seen _) sound ⟨cl, found, active⟩ (no _ asked))
          · exact .seen w (by simp)
      · rw [step_data_of_closed host evt isOpen]
        exact .refl w
  | endOfStream c =>
      by_cases isOpen : IsOpen w c
      · rw [step, whenOpen_of_open isOpen, bind_of_ok (onClient_apply w c close)]
        exact (Calm.closed w c).trans (.of_continues host (quietly_endEvent c _ sound))
      · rw [step, whenOpen_of_closed isOpen]
        exact .refl w
  | error c readFailed =>
      by_cases isOpen : IsOpen w c
      · rw [step, whenOpen_of_open isOpen]
        split
        · exact .closed w c
        · exact .refl w
      · rw [step, whenOpen_of_closed isOpen]
        exact .refl w
  | call r call =>
      exact .of_continues host (Quiet.modify w fun ch _ => identity_perform host.scripts ch call)
  | dump => exact .of_continues host (quietly_dumpAll w sound)
  | outside files => exact { (Calm.refl w : Calm w w) with }

end Calm

/-! ## Steps with a new character -/

structure Arrives (c : Ref) (registry : OrderedMap UInt64 Ref) (w w' : World) : Prop where
  characters : w'.characters = registry
  alive : ∀ r, w'.heap.Alive r ↔ w.heap.Alive r ∨ r = w.heap.next ∧ w.heap.next ∈ registry.values
  captured : ∀ c' r, Captured w' c' r ↔ Captured w c' r ∨ c' = c ∧ r = w.heap.next
  leaves : ∀ c' r, Leaves w' c' r ↔ Leaves w c' r ∨ c' = c ∧ r = w.heap.next

section Arrives
variable {host : Host} {c : Ref} {w w₀ w₁ : World}

theorem alive_release (r : Ref) (w : World) (s : Ref) :
    (release r w).heap.Alive s ↔ w.heap.Alive s ∧ (s = r → r ∈ w.characters.values) := by
  rw [release]
  split
  · rename_i registered
    exact ⟨fun alive => ⟨alive, fun _ => registered⟩, And.left⟩
  · rename_i unregistered
    rw [Arena.Alive, Arena.get_free]
    split
    · rename_i same
      simp [unregistered, same]
    · rename_i other
      simp [Arena.Alive, other]

theorem captured_adopted (isOpen : IsOpen w c) (clients : w₁.clients = adopted w (some c) w.heap.next) (c' s : Ref) :
    Captured w₁ c' s ↔ Captured w c' s ∨ c' = c ∧ s = w.heap.next := by
  obtain ⟨cl, found, active⟩ := isOpen
  by_cases same : c' = c
  · subst same
    simp only [Captured, clients, adopted, Arena.get_modify_self, found, Option.map_some, Option.some.injEq,
      exists_eq_left', captures_adopted, true_and]
    have stays : ((cl.onLeave (some w.heap.next)).onMessage (str "character/ability") (some w.heap.next)).active =
        true := active
    simp [stays, active]
  · have other : (adopted w (some c) w.heap.next).get c' = w.clients.get c' :=
      get_adopted_of_ne _ fun eq => same (Option.some.inj eq).symm
    simp [Captured, clients, other, same]

theorem leaves_adopted (isOpen : IsOpen w c) (clients : w₁.clients = adopted w (some c) w.heap.next) (c' s : Ref) :
    Leaves w₁ c' s ↔ Leaves w c' s ∨ c' = c ∧ s = w.heap.next := by
  obtain ⟨cl, found, active⟩ := isOpen
  by_cases same : c' = c
  · subst same
    have handlers : ((cl.onLeave (some w.heap.next)).onMessage (str "character/ability")
        (some w.heap.next)).disconnectionHandlers = cl.disconnectionHandlers ++ [w.heap.next] := rfl
    simp [Leaves, clients, adopted, found, handlers]
  · have other : (adopted w (some c) w.heap.next).get c' = w.clients.get c' :=
      get_adopted_of_ne _ fun eq => same (Option.some.inj eq).symm
    simp [Leaves, clients, other, same]

theorem arrives_of_release (host : Host) (w₀ : World) {ch : Character} (isOpen : IsOpen w c) (heap : w₀.heap = w.heap.alloc ch)
    (clients : w₀.clients = adopted w (some c) w.heap.next) (quiet : Continues host w₀ w₁) :
    Arrives c w₀.characters w (release w.heap.next w₁) where
  characters := by rw [release_characters, quiet.characters]
  alive r := by
    rw [alive_release, quiet.alive_iff, quiet.characters, heap, Arena.Alive, Arena.get_alloc]
    by_cases same : r = w.heap.next
    · subst same
      simp [Arena.Alive]
    · simp [same, Arena.Alive]
  captured := captured_adopted isOpen (by rw [release_clients, quiet.clients, clients])
  leaves := leaves_adopted isOpen (by rw [release_clients, quiet.clients, clients])

def registryAfter (w : World) : Command → OrderedMap UInt64 Ref
  | .create _ => w.characters.insert createCharacterID w.heap.next
  | _ => w.characters

theorem respond_arrives {cmd : Command} (sound : Sound w) (isOpen : IsOpen w c) (constructs : Constructs host w cmd) :
    Arrives c (registryAfter w cmd) w (finalState (respond host c cmd w)) := by
  cases cmd with
  | create name =>
      obtain ⟨w₁, quiet, eq⟩ := create_outcome (c := c) sound constructs
      rw [respond, eq]
      exact arrives_of_release host _ isOpen rfl rfl quiet
  | load name =>
      obtain ⟨data, held⟩ := constructs
      rw [respond, loadCharacterHandler_of_found held]
      cases Character.load host.scripts data (newborn name c) with
      | error e ch => exact arrives_of_release host (loading w name (some c) ch) isOpen rfl rfl (.refl _)
      | ok u ch =>
          simp only [finalState_holding]
          apply arrives_of_release host (loaded w name (some c) ch) isOpen rfl rfl
          exact ((quietly_saveText _).bind fun text => quietly_send c text) _ (sound_loaded host sound ch).1
  | _ => exact constructs.elim

theorem step_arrives {i : Input} {cmd : Command} (sound : Sound w) (asked : asks host w i = some cmd)
    (constructs : Constructs host w cmd) :
    ∃ c evt, i = .data c evt ∧ IsOpen w c ∧ Arrives c (registryAfter w cmd) w (finalState (step host i w)) := by
  cases i with
  | data c evt =>
      obtain ⟨cl, found, active, other, parsed, rfl⟩ := (asks_data_iff host evt).mp asked
      rw [step_data_of_open host evt found active, if_neg other, if_pos parsed]
      have arrives : Arrives c _ (w.seen [.request c (host.parse evt.text)]) (finalState (respond host c _ _)) :=
        respond_arrives sound ⟨cl, found, active⟩ constructs
      exact ⟨c, evt, rfl, ⟨cl, found, active⟩, arrives.characters, arrives.alive, arrives.captured, arrives.leaves⟩
  | _ => cases asked

theorem registered_next_iff {cmd : Command} (sound : Sound w) :
    w.heap.next ∈ (registryAfter w cmd).values ↔
      ∃ name, cmd = .create name ∧ w.characters.find createCharacterID = none := by
  have new : ∀ id, w.characters.find id ≠ some w.heap.next := fun id held => sound.ne_next held rfl
  rw [OrderedMap.mem_values]
  cases cmd with
  | create name =>
      simp only [registryAfter, Command.create.injEq, exists_eq_left']
      constructor
      · intro owned
        obtain ⟨id, held⟩ := owned
        rw [OrderedMap.find_insert] at held
        split at held
        · cases taken : w.characters.find createCharacterID with
          | none => rfl
          | some r =>
              rw [taken, Option.getD_some] at held
              exact absurd (taken.trans held) (new _)
        · exact absurd held (new _)
      · intro free
        exact ⟨createCharacterID, by rw [OrderedMap.find_insert, if_pos rfl, free, Option.getD_none]⟩
  | _ => simp [registryAfter, new]

theorem registered_after {r : Ref} (cmd : Command) (registered : Registered w r) :
    ∃ id, (registryAfter w cmd).find id = some r := by
  obtain ⟨id, held⟩ := registered
  refine ⟨id, ?_⟩
  cases cmd with
  | create name =>
      rw [registryAfter, OrderedMap.find_insert]
      split
      · rename_i same
        rw [same, held, Option.getD_some]
      · exact held
  | _ => exact held

end Arrives

/-! ## Every reachable handler has a live character -/

/-- A character is constructed only where it is the one the registry takes up. -/
def KeepsOwners (host : Host) (w : World) (i : Input) : Prop :=
  ∀ cmd, asks host w i = some cmd → Constructs host w cmd →
    ∃ name, cmd = .create name ∧ w.characters.find createCharacterID = none

section Owned
variable {host : Host} {w : World} {i : Input}

theorem Owned.calm {w' : World} (owned : Owned w) (calm : Calm w w') : Owned w' := by
  intro c r captured
  obtain ⟨registered, alive⟩ := owned c r (calm.captured c r captured)
  exact ⟨by rwa [Registered, calm.characters], (calm.alive r).mpr alive⟩

theorem owned_arrives_iff {c : Ref} {cmd : Command} {w' : World} (owned : Owned w)
    (arrives : Arrives c (registryAfter w cmd) w w') :
    Owned w' ↔ w.heap.next ∈ (registryAfter w cmd).values := by
  constructor
  · intro owned'
    have registered := (owned' c w.heap.next ((arrives.captured c _).mpr (.inr ⟨rfl, rfl⟩))).1
    rw [Registered, arrives.characters] at registered
    exact OrderedMap.mem_values.mpr registered
  · intro taken c' r captured
    rw [Registered, arrives.characters, arrives.alive]
    rcases (arrives.captured c' r).mp captured with before | ⟨-, rfl⟩
    · obtain ⟨registered, alive⟩ := owned c' r before
      exact ⟨registered_after cmd registered, .inl alive⟩
    · exact ⟨OrderedMap.mem_values.mp taken, .inr ⟨rfl, taken⟩⟩

theorem owned_step_iff (sound : Sound w) (owned : Owned w) :
    Owned (finalState (step host i w)) ↔ KeepsOwners host w i := by
  by_cases making : ∃ cmd, asks host w i = some cmd ∧ Constructs host w cmd
  · obtain ⟨cmd, asked, constructs⟩ := making
    obtain ⟨c, -, -, -, arrives⟩ := step_arrives sound asked constructs
    rw [owned_arrives_iff owned arrives, registered_next_iff sound]
    constructor
    · intro only cmd' asked' _
      obtain rfl := Option.some.inj (asked.symm.trans asked')
      exact only
    · intro keeps
      exact keeps cmd asked constructs
  · have none : ∀ cmd, asks host w i = some cmd → ¬ Constructs host w cmd :=
      fun cmd asked constructs => making ⟨cmd, asked, constructs⟩
    exact ⟨fun _ cmd asked constructs => absurd constructs (none cmd asked), fun _ => owned.calm (step_calm host sound none)⟩

end Owned

/-- After every input, also one that ends the server, the handlers of open connections have owned
characters exactly as long as characters are constructed only for the registry. -/
theorem owned_iff_keepsOwners (host : Host) (files : FileTree) (inputs : List Input) :
    Meets (step host) (fun w i => Owned (finalState (step host i w))) (initial files) inputs ↔
      Meets (step host) (KeepsOwners host) (initial files) inputs := by
  refine meets_congr (I := fun w => Sound w ∧ Owned w) ⟨good_initial _ files, ?_⟩
    (fun w i inv => owned_step_iff inv.1 inv.2) ?_
  · rintro c r ⟨cl, found, -⟩
    cases found
  · intro w i w' inv keeps taken
    have next := stepped host i inv.1 fun _ _ _ _ => trivial
    have owned := (owned_step_iff inv.1 inv.2).mpr keeps
    rw [taken] at next owned
    exact ⟨next.good, owned⟩

def twoNames : Host := .hearing [(str "create", str "Aldor"), (str "create", str "Berin")]

/-- The second character finds its id taken and dies when the request is answered; its handlers stay. -/
theorem second_create_leaves_handlers :
    ¬ Meets (step twoNames) (fun w i => Owned (finalState (step twoNames i w))) (initial .root)
      [.accept 0, .data 0 helo, .request 0 (str "create") (str "Aldor"), .request 0 (str "create") (str "Berin")] := by
  intro met
  have run := run_play (step twoNames) (initial .root)
    [.accept 0, .data 0 helo, .request 0 (str "create") (str "Aldor")] (by decide +kernel)
  have owned := met.of_run run 0 1
  generalize second : finalState (step twoNames (.request 0 (str "create") (str "Berin")) _) = w at owned
  have registry : w.characters.values = [0] := by
    rw [← second]
    decide +kernel
  have leave : (w.clients.get 0).any (fun cl => cl.active && cl.disconnectionHandlers = [0, 1]) = true := by
    rw [← second]
    decide +kernel
  obtain ⟨cl, found, holds⟩ := (Option.any_eq_true _ _).mp leave
  simp only [Bool.and_eq_true, decide_eq_true_eq] at holds
  obtain ⟨registered, -⟩ := owned ⟨cl, found, holds.1, .inl (by simp [holds.2])⟩
  have mem := OrderedMap.mem_values.mpr registered
  simp [registry] at mem

end D20Tempest.Server
