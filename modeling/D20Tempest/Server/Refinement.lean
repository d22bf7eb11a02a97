import D20Tempest.Server.Service

namespace D20Tempest.Server
open Foundation Components Characters CharacterManager TcpClient

/-! ## Single steps of the representation -/

section
variable {host : Host} {s : Service} {w v : World} {c r : Ref} {name : Bytes} {registered : Option Bytes}

theorem said_append (before after : List Event) : said (before ++ after) = said before ++ said after :=
  List.filterMap_append

/-- What a step leaves of the objects. -/
def SameObjects (w v : World) : Prop := v.heap = w.heap ∧ v.characters = w.characters ∧ v.clients = w.clients

theorem SameObjects.isOpen (same : SameObjects w v) (isOpen : IsOpen w c) : IsOpen v c := by
  rw [TcpClient.IsOpen, same.2.2]
  exact isOpen

theorem Registers.same (holds : Registers w registered) (heap : v.heap = w.heap) (characters : v.characters = w.characters) :
    Registers v registered := by
  cases registered with
  | none => exact characters.trans holds
  | some name => simpa only [Registers, heap, characters] using holds

theorem Represents.same (rep : Represents s w) (same : SameObjects w v) {files : FileTree} {replies : List (Ref × Bytes)}
    (holds : v.files = files) (events : said v.events = replies) : Represents { s with files := files, replies := replies } v where
  files := holds
  replies := events
  registry := rep.registry.same same.1 same.2.1
  connections := by
    obtain ⟨-, characters, clients⟩ := same
    rw [characters, clients]
    exact rep.connections
  tables c client found := by
    obtain ⟨heap, -, clients⟩ := same
    obtain ⟨known, dispatch⟩ := rep.tables c client (clients ▸ found)
    exact ⟨heap.symm ▸ known, dispatch⟩

theorem Represents.seen (rep : Represents s w) {events : List Event} (silent : said events = []) : Represents s (w.seen events) := by
  have same : SameObjects w (w.seen events) := ⟨rfl, rfl, rfl⟩
  exact rep.same same rep.files (by rw [World.seen, said_append, silent, List.append_nil, rep.replies])

theorem Represents.get (rep : Represents s w) (c : Ref) :
    s.connections.get c = (w.clients.get c).map (Connection.of w.characters.values) := by
  rw [← rep.connections, Arena.get_map]

theorem Represents.isOpen (rep : Represents s w) (c : Ref) : s.Open c ↔ IsOpen w c := by
  rw [Service.Open, TcpClient.IsOpen, rep.get c]
  cases w.clients.get c <;> simp [Connection.of]

theorem Represents.asks (rep : Represents s w) (i : Input) : Service.asks host s i = Server.asks host w i := by
  cases i with
  | data c evt =>
      rw [Service.asks, Server.asks, rep.get c]
      cases w.clients.get c <;> rfl
  | _ => rfl

theorem values_assign (r : Ref) : ((OrderedMap.empty : OrderedMap UInt64 Ref).assign createCharacterID r).values = [r] := rfl

theorem Registers.values (holds : Registers w registered) (mem : r ∈ w.characters.values) :
    ∃ name client, registered = some name ∧ isUtf8 name = true ∧ w.characters = OrderedMap.empty.assign createCharacterID r ∧
      w.heap.get r = some (.make createCharacterID name client) := by
  cases registered with
  | none =>
      rw [Registers] at holds
      rw [holds] at mem
      cases mem
  | some name =>
      obtain ⟨valid, r', client, characters, held⟩ := holds
      rw [characters, values_assign, List.mem_singleton] at mem
      subst mem
      exact ⟨name, client, rfl, valid, characters, held⟩

theorem newText_ok (host : Host) (valid : isUtf8 name = true) : ∃ text, Service.newText host name = .ok text :=
  (storable_newborn valid).2

/-! ## Sending -/

theorem simulates_send (msg : Bytes) (P : World → Prop) (frame : ∀ w v, SameObjects w v → P w → P v) :
    Simulates (fun s w => Represents s w ∧ IsOpen w c ∧ P w) (Service.reply c msg) (send c msg) := by
  intro s w related
  obtain ⟨rep, isOpen, holds⟩ := related
  rw [send_apply isOpen, Service.reply]
  by_cases long : 2 ^ 32 ≤ msg.length
  · rw [if_pos long, if_pos long]
    exact ⟨rfl, rep, isOpen, holds⟩
  · rw [if_neg long, if_neg long]
    have same : SameObjects w (w.seen [.sent c msg]) := ⟨rfl, rfl, rfl⟩
    refine ⟨rfl, ?_, isOpen, frame _ _ same holds⟩
    exact rep.same same rep.files (by rw [World.seen, said_append, rep.replies]; rfl)

def Service.replied (s : Service) (c : Ref) (msg : Bytes) : Service := { s with replies := s.replies ++ [(c, msg)] }

theorem reply_error (s : Service) (c : Ref) {code : Int64} {msg : Bytes} (listed : (code, msg) ∈ errorReplies) :
    Service.reply c (errorText code msg) s = .ok () (s.replied c (errorText code msg)) := by
  have short := (errorText_dumps (.knowing []) _ listed).2
  rw [Service.reply, if_neg (Nat.not_le.mpr short)]
  rfl

theorem Represents.replied (rep : Represents s w) (c : Ref) (msg : Bytes) (events : List Event) (silent : said events = []) :
    Represents (s.replied c msg) (w.seen (events ++ [.sent c msg])) := by
  have same : SameObjects w (w.seen (events ++ [.sent c msg])) := ⟨rfl, rfl, rfl⟩
  exact rep.same same rep.files (by rw [World.seen, said_append, said_append, silent, rep.replies]; rfl)

/-! ## Saving -/

theorem dumpCharacter_of_new {client : Option Ref} {text : Bytes} (held : w.heap.get r = some (.make createCharacterID name client))
    (dumps : Service.newText host name = .ok text) :
    ∃ w', dumpCharacter host r w = (match savedFiles host w.files (charactersPath ++ name) text with
      | some _ => .ok () w'
      | none => .error .filesystemError w') ∧ SameObjects w w' ∧ said w'.events = said w.events ∧
      w'.files = (savedFiles host w.files (charactersPath ++ name) text).getD w.files := by
  have silent : ∀ b, said (openEvents name (charactersPath ++ name) b) = [] := by
    intro b
    cases b <;> rfl
  cases saves : savedFiles host w.files (charactersPath ++ name) text with
  | some files =>
      refine ⟨_, dumpCharacter_ok_iff.mpr ⟨_, text, files, held, ?_, dumps, saves, rfl⟩, ⟨?_, rfl, rfl⟩, ?_, rfl⟩
      · exact (savable_newborn : (newborn name 0).Savable)
      · exact Arena.modify_of_get held
      · rw [dumped, said_append, said_append]
        show said w.events ++ (said (openEvents name (charactersPath ++ name) _) ++ []) = _
        rw [silent, List.append_nil, List.append_nil]
  | none =>
      have clears : clearedFiles host w.files (charactersPath ++ name) = none := Option.map_eq_none_iff.mp saves
      have stops : openStream host name (charactersPath ++ name) w = _ := openStream_apply ..
      rw [clears] at stops
      refine ⟨w.seen [.file .test name (charactersPath ++ name), .file .remove name (charactersPath ++ name)], ?_, ⟨rfl, rfl, rfl⟩, ?_, rfl⟩
      · rw [dumpCharacter, bind_of_ok (deref_of_get _ held)]
        exact bind_of_error stops
      · rw [World.seen, said_append]
        exact List.append_nil _

theorem simulates_prepare (host : Host) (P : World → Prop) (frame : ∀ w v, SameObjects w v → P w → P v) :
    Simulates (fun s w => Represents s w ∧ P w) (Service.prepare host) (ensureDirectory host) := by
  intro s w related
  obtain ⟨rep, holds⟩ := related
  rw [Service.prepare, bind_of_ok (get_apply s), ensureDirectory_apply, rep.files]
  cases readyFiles host s.files with
  | none => exact ⟨rfl, rep, holds⟩
  | some files =>
      have same : SameObjects w { w with files := files } := ⟨rfl, rfl, rfl⟩
      exact ⟨rfl, rep.same same rfl rep.replies, frame _ _ same holds⟩

theorem simulates_save (valid : isUtf8 name = true) (P : World → Prop) (frame : ∀ w v, SameObjects w v → P w → P v) :
    Simulates (fun s w => Represents s w ∧ (∃ client, w.heap.get r = some (.make createCharacterID name client)) ∧ P w)
      (Service.save host name) (dumpCharacter host r) := by
  intro s w related
  obtain ⟨rep, ⟨client, held⟩, holds⟩ := related
  obtain ⟨text, dumps⟩ := newText_ok host valid
  obtain ⟨w', saves, same, events, files⟩ := dumpCharacter_of_new held dumps
  have kept : (∃ client, w'.heap.get r = some (.make createCharacterID name client)) ∧ P w' :=
    ⟨⟨client, by rw [same.1, held]⟩, frame _ _ same holds⟩
  have represented := rep.same same files (events.trans rep.replies)
  rw [saves, Service.save, dumps, evaluate_ok, pure_bind, bind_of_ok (get_apply s), ← rep.files]
  cases saved : savedFiles host w.files (charactersPath ++ name) text with
  | some stored =>
      rw [saved] at represented
      exact ⟨rfl, represented, kept⟩
  | none =>
      rw [saved, Option.getD_none, rep.files] at represented
      exact ⟨rfl, represented, kept⟩

theorem simulates_store (host : Host) (P : World → Prop) (frame : ∀ w v, SameObjects w v → P w → P v) :
    Simulates (fun s w => Represents s w ∧ P w) (Service.store host) (dump host createCharacterID) := by
  intro s w related
  obtain ⟨rep, holds⟩ := related
  have registry := rep.registry
  rw [Service.store, dump, bind_of_ok (get_apply s), bind_of_ok (get_apply w)]
  cases registered : s.registered with
  | none =>
      rw [registered, Registers] at registry
      rw [registry]
      exact ⟨rfl, rep, holds⟩
  | some name =>
      rw [registered] at registry
      obtain ⟨valid, r, client, characters, held⟩ := registry
      have found : w.characters.find createCharacterID = some r := by
        rw [characters, OrderedMap.find_assign, if_pos rfl]
      rw [found]
      let keeps : World → Prop := fun w => (∃ client, w.heap.get r = some (.make createCharacterID name client)) ∧ P w
      have frames : ∀ w v, SameObjects w v → keeps w → keeps v := fun w v same kept =>
        ⟨kept.1.imp fun client held => by rw [same.1, held], frame w v same kept.2⟩
      have both : Simulates (fun s w => Represents s w ∧ keeps w) (Service.prepare host >>= fun _ => Service.save host name)
          (ensureDirectory host >>= fun _ => dumpCharacter host r) :=
        (simulates_prepare host keeps frames).bind fun _ => simulates_save valid P frame
      obtain ⟨result, related⟩ := both s w ⟨rep, ⟨client, held⟩, holds⟩
      exact ⟨result, related.1, related.2.2⟩

theorem simulates_storeAll (host : Host) (P : World → Prop) (frame : ∀ w v, SameObjects w v → P w → P v) :
    Simulates (fun s w => Represents s w ∧ P w) (Service.storeAll host) (dumpAll host) := by
  apply (simulates_prepare host P frame).bind
  intro _ s w related
  obtain ⟨rep, holds⟩ := related
  have registry := rep.registry
  rw [bind_of_ok (get_apply s), bind_of_ok (get_apply w)]
  cases registered : s.registered with
  | none =>
      rw [registered, Registers] at registry
      rw [registry]
      exact ⟨rfl, rep, holds⟩
  | some name =>
      rw [registered] at registry
      obtain ⟨valid, r, client, characters, held⟩ := registry
      rw [characters, values_assign]
      have saves : Simulates _ (Service.save host name) (dumpCharacter host r) := simulates_save valid P frame
      obtain ⟨result, related⟩ := saves s w ⟨rep, ⟨client, held⟩, holds⟩
      rw [forM_singleton]
      exact ⟨result, related.1, related.2.2⟩

/-! ## Making characters -/

/-- Apart from the registry, only the code that runs may keep this character. -/
def TidyBut (r : Ref) (w : World) : Prop := ∀ r' ch, w.heap.get r' = some ch → r' ∈ w.characters.values ∨ r' = r

theorem Represents.release (rep : Represents s w) (r : Ref) : Represents s (release r w) := by
  by_cases kept : r ∈ w.characters.values
  · rwa [D20Tempest.Server.release, if_pos kept]
  · rw [D20Tempest.Server.release, if_neg kept]
    refine ⟨rep.files, rep.replies, ?_, rep.connections, fun c client found => ?_⟩
    · have registry := rep.registry
      cases registered : s.registered with
      | none => rwa [registered] at registry
      | some name =>
          rw [registered] at registry
          obtain ⟨valid, r', client, characters, held⟩ := registry
          have other : r' ≠ r := by
            rintro rfl
            rw [characters, values_assign] at kept
            exact kept (List.mem_singleton_self _)
          exact ⟨valid, r', client, characters, by rw [Arena.get_free, if_neg other, held]⟩
    · obtain ⟨known, dispatch⟩ := rep.tables c client found
      exact ⟨known, dispatch⟩

theorem TidyBut.release (tidy : TidyBut r w) : Tidy (release r w) := by
  intro r' ch found
  rw [release_characters]
  by_cases kept : r ∈ w.characters.values
  · rw [D20Tempest.Server.release, if_pos kept] at found
    rcases tidy r' ch found with mem | rfl
    · exact mem
    · exact kept
  · rw [D20Tempest.Server.release, if_neg kept, Arena.get_free] at found
    split at found
    · cases found
    · exact (tidy r' ch found).resolve_right ‹_›

theorem Represents.adopt (rep : Represents s w) (c : Ref) {ch : Character} (files : v.files = w.files)
    (events : said v.events = said w.events) (heap : v.heap = w.heap.alloc ch) (clients : v.clients = adopted w (some c) w.heap.next)
    (registry : Registers v registered) (agree : ∀ r < w.heap.next, (r ∈ v.characters.values ↔ r ∈ w.characters.values)) :
    Represents { s with
      registered := registered
      connections := s.connections.modify c fun connection =>
        { connection with characters := connection.characters ++ [decide (w.heap.next ∈ v.characters.values)] } } v where
  files := files.trans rep.files
  replies := events.trans rep.replies
  registry := registry
  connections := by
    have same : ∀ r client, w.clients.get r = some client →
        Connection.of v.characters.values client = Connection.of w.characters.values client := by
      intro r client found
      rw [Connection.of, Connection.of]
      congr 1
      apply List.map_congr_left
      intro r mem
      exact decide_eq_decide.mpr (agree r ((rep.tables _ _ found).known r mem))
    rw [clients, ← rep.connections, ← Arena.map_congr same, adopted]
    apply Arena.map_modify
    intro client found
    show Connection.mk client.active client.heloParsed ((client.disconnectionHandlers ++ [w.heap.next]).map _) = _
    rw [List.map_append]
    rfl
  tables c' client found := by
    rw [clients, adopted, Arena.get_modify] at found
    have next : v.heap.next = w.heap.next + 1 := by rw [heap]; rfl
    split at found
    · obtain ⟨client', held, rfl⟩ := Option.map_eq_some_iff.mp found
      obtain ⟨known, dispatch⟩ := rep.tables _ _ held
      constructor
      · intro r mem
        rw [next]
        rcases List.mem_append.mp mem with old | new
        · exact Nat.lt_succ_of_lt (known r old)
        · rw [List.mem_singleton.mp new]
          exact Nat.lt_succ_self _
      · intro entity
        have installed := find_onMessage (client'.onLeave (some w.heap.next)) (str "character/ability") w.heap.next entity
        have path : upperCase (str "character/ability") = abilityEntity := by decide
        have before := dispatch entity
        rw [path] at installed
        rw [installed]
        show (if abilityEntity = entity then some ((client'.messageHandlers.find entity).getD [] ++ [w.heap.next])
          else client'.messageHandlers.find entity) = if entity = abilityEntity ∧ client'.disconnectionHandlers ++ [w.heap.next] ≠ [] then
            some (client'.disconnectionHandlers ++ [w.heap.next]) else none
        rw [before]
        by_cases ability : entity = abilityEntity
        · cases client'.disconnectionHandlers <;> simp [ability]
        · rw [if_neg fun same => ability same.symm, if_neg fun both => ability both.1, if_neg fun both => ability both.1]
    · obtain ⟨known, dispatch⟩ := rep.tables _ _ found
      exact ⟨fun r mem => next ▸ Nat.lt_succ_of_lt (known r mem), dispatch⟩

/-! ## Answering -/

theorem returned_holding {α : Type} (r : Ref) (x : Action World α) (w : World) : returned (holding r x w) = returned (x w) := by
  unfold holding
  cases x w <;> rfl

theorem saveText_new {client : Option Ref} {text : Bytes} (held : w.heap.get r = some (.make createCharacterID name client))
    (dumps : Service.newText host name = .ok text) : saveText host r w = .ok text w := by
  refine saveText_ok_iff.mpr ⟨_, held, (savable_newborn : (newborn name 0).Savable), dumps, ?_⟩
  have same : w.heap.modify r (fun _ => (Character.make createCharacterID name client).refreshed) = w.heap := Arena.modify_of_get held
  rw [same]

/-- An event of an open connection is being served. -/
def StandsOpen (c : Ref) (s : Service) (w : World) : Prop := Represents s w ∧ Tidy w ∧ IsOpen w c

theorem registers_created (rep : Represents s w) (valid : isUtf8 name = true) :
    Registers (created w name (some c)) (some (s.registered.getD name)) ∧
      (∀ r < w.heap.next, (r ∈ (created w name (some c)).characters.values ↔ r ∈ w.characters.values)) ∧
      decide (w.heap.next ∈ (created w name (some c)).characters.values) = s.registered.isNone := by
  have registry := rep.registry
  rw [created_characters]
  cases registered : s.registered with
  | none =>
      rw [registered, Registers] at registry
      have characters : w.characters.insert createCharacterID w.heap.next = OrderedMap.empty.assign createCharacterID w.heap.next := by
        rw [registry, OrderedMap.insert_of_find_none _ rfl]
      rw [characters, registry, values_assign]
      refine ⟨⟨valid, w.heap.next, some c, characters, get_created⟩, ?_, by simp⟩
      intro r old
      rw [List.mem_singleton]
      exact ⟨fun same => absurd same (Nat.ne_of_lt old), fun mem => (by cases mem)⟩
  | some first =>
      rw [registered] at registry
      obtain ⟨valid, r, client, characters, held⟩ := registry
      have other : r ≠ w.heap.next := Nat.ne_of_lt (Arena.lt_next held)
      have kept : w.characters.insert createCharacterID w.heap.next = w.characters := by
        refine OrderedMap.insert_of_find_some _ (show _ = some r from ?_)
        rw [characters, OrderedMap.find_assign, if_pos rfl]
      rw [kept]
      refine ⟨⟨valid, r, client, kept.trans characters, ?_⟩, fun _ _ => Iff.rfl, ?_⟩
      · exact (Arena.get_alloc ..).trans (by rw [if_neg other, held, Option.getD_some])
      · simpa [characters, values_assign] using other.symm

theorem tidyBut_alloc (tidy : Tidy w) {ch : Character} (heap : v.heap = w.heap.alloc ch)
    (known : ∀ r ∈ w.characters.values, r ∈ v.characters.values) : TidyBut w.heap.next v := by
  intro r ch' found
  rw [heap, Arena.get_alloc] at found
  split at found
  · exact .inr ‹_›
  · exact .inl (known r (tidy r ch' found))

theorem simulates_create (valid : isUtf8 name = true) :
    Simulates (StandsOpen c) (Service.create host c name) (createCharacterHandler host c name) := by
  intro s w related
  obtain ⟨rep, tidy, isOpen⟩ := related
  cases exist : s.files.pathExists host.cwd (charactersPath ++ name) with
  | true =>
      have listed : (409, str "Unable to create character (already exist?)") ∈ errorReplies := by simp [errorReplies]
      rw [createCharacterHandler_of_existing isOpen (rep.files ▸ exist), Service.create_of_taken exist, reply_error s c listed]
      exact ⟨rfl, rep.replied c _ [.file .test name (charactersPath ++ name)] rfl, tidy, isOpen⟩
  | false =>
      obtain ⟨text, dumps⟩ := newText_ok host valid
      obtain ⟨registers, agree, first⟩ := registers_created (c := c) rep valid
      have joined := rep.adopt (v := created w name (some c)) c rfl
        (by rw [created, said_append]; exact List.append_nil _) rfl rfl registers agree
      let keeps : World → Prop := fun v => v.heap.get w.heap.next = some (newborn name c) ∧ TidyBut w.heap.next v
      have frames : ∀ v v', SameObjects v v' → keeps v → keeps v' := by
        intro v v' same kept
        obtain ⟨heap, characters, -⟩ := same
        simpa only [keeps, TidyBut, heap, characters] using kept
      have both : Simulates (fun s v => Represents s v ∧ IsOpen v c ∧ keeps v)
          (Service.store host >>= fun _ => evaluate (Service.newText host name) >>= Service.reply c)
          (dump host createCharacterID >>= fun _ => saveText host w.heap.next >>= send c) := by
        apply (simulates_store host (fun v => IsOpen v c ∧ keeps v) fun v v' same kept =>
          ⟨same.isOpen kept.1, frames v v' same kept.2⟩).bind
        intro _ s v related
        rw [dumps, evaluate_ok, pure_bind, bind_of_ok (saveText_new related.2.2.1 dumps)]
        exact simulates_send text keeps frames s v related
      have tidy' : TidyBut w.heap.next (created w name (some c)) := tidyBut_alloc tidy rfl fun r mem => by
        obtain ⟨name', client, -, -, -, held⟩ := rep.registry.values mem
        exact (agree r (Arena.lt_next held)).mpr mem
      obtain ⟨result, represented, opens, -, after⟩ := both _ _ ⟨joined, isOpen_adopted isOpen _, get_created, tidy'⟩
      rw [createCharacterHandler_of_missing (rep.files ▸ exist), finalState_holding, returned_holding, Service.create_of_free exist]
      rw [first] at result represented
      refine ⟨result, represented.release _, after.release, ?_⟩
      rw [TcpClient.IsOpen, release_clients]
      exact opens

/-! ### Loading -/

theorem Represents.modify_loose (rep : Represents s w) (loose : r ∉ w.characters.values) (f : Character → Character) :
    Represents s { w with heap := w.heap.modify r f } where
  files := rep.files
  replies := rep.replies
  registry := by
    have registry := rep.registry
    cases registered : s.registered with
    | none => rwa [registered] at registry
    | some name =>
        rw [registered] at registry
        obtain ⟨valid, r', client, characters, held⟩ := registry
        have other : r' ≠ r := by
          rintro rfl
          rw [characters, values_assign] at loose
          exact loose (List.mem_singleton_self _)
        exact ⟨valid, r', client, characters, by rw [Arena.get_modify, if_neg other, held]⟩
  connections := rep.connections
  tables c client found := ⟨(rep.tables c client found).known, (rep.tables c client found).dispatch⟩

theorem tidyBut_modify (tidy : TidyBut r w) (f : Character → Character) : TidyBut r { w with heap := w.heap.modify r f } := by
  intro r' ch found
  rw [Arena.get_modify] at found
  split at found
  · exact .inr ‹_›
  · exact tidy r' ch found

theorem simulates_saveAndSend {ch : Character} (rep : Represents s w) (isOpen : IsOpen w c) (tidy : TidyBut r w)
    (loose : r ∉ w.characters.values) (held : w.heap.get r = some ch) {x : Action Service Bytes}
    (saves : x = evaluate (returned (Character.save ch) >>= dumpText host (some 4))) :
    let handled := holding r (saveText host r >>= send c) w
    returned ((x >>= Service.reply c) s) = returned handled ∧ StandsOpen c (finalState ((x >>= Service.reply c) s)) (finalState handled) := by
  intro handled
  have after : ∀ v, Represents s v → IsOpen v c → TidyBut r v → StandsOpen c s (release r v) := by
    intro v rep isOpen tidy
    refine ⟨rep.release r, tidy.release, ?_⟩
    rw [TcpClient.IsOpen, release_clients]
    exact isOpen
  have changed := fun f : Character → Character => (rep.modify_loose loose f)
  rw [finalState_holding, returned_holding, saves]
  cases saved : Character.save ch with
  | error e ch' =>
      have stops : saveText host r w = .error e { w with heap := w.heap.modify r fun _ => ch' } := by
        rw [saveText, bind_apply, onCharacter, held]
        simp only [saved]
      rw [bind_of_error stops]
      exact ⟨rfl, after _ (changed _) isOpen (tidyBut_modify tidy _)⟩
  | ok doc ch' =>
      have ends : saveText host r w = evaluate (dumpText host (some 4) doc) { w with heap := w.heap.modify r fun _ => ch' } := by
        rw [saveText, bind_apply, onCharacter, held]
        simp only [saved]
      cases dumps : dumpText host (some 4) doc with
      | error e =>
          rw [dumps] at ends
          have fails : returned (.ok doc ch' : EStateM.Result Fault Character Json) >>= dumpText host (some 4) = .error e := dumps
          rw [fails, bind_of_error ends]
          exact ⟨rfl, after _ (changed _) isOpen (tidyBut_modify tidy _)⟩
      | ok text =>
          rw [dumps] at ends
          have returns : returned (.ok doc ch' : EStateM.Result Fault Character Json) >>= dumpText host (some 4) = .ok text := dumps
          rw [returns, bind_of_ok ends, evaluate_ok, pure_bind]
          obtain ⟨result, represented, opens, tidy⟩ := simulates_send (c := c) text (TidyBut r)
            (fun v v' same tidy => by simpa only [TidyBut, same.1, same.2.1] using tidy) s _
            ⟨changed fun _ => ch', isOpen, tidyBut_modify tidy _⟩
          refine ⟨result, ⟨represented.release r, tidy.release, ?_⟩⟩
          rw [TcpClient.IsOpen, release_clients]
          exact opens

theorem Represents.next_loose (rep : Represents s w) : w.heap.next ∉ w.characters.values := by
  intro mem
  obtain ⟨name, client, -, -, -, held⟩ := rep.registry.values mem
  exact Nat.lt_irrefl _ (Arena.lt_next held)

theorem Represents.adopt_loose (rep : Represents s w) (c : Ref) {ch : Character} (files : v.files = w.files)
    (events : said v.events = said w.events) (heap : v.heap = w.heap.alloc ch) (clients : v.clients = adopted w (some c) w.heap.next)
    (characters : v.characters = w.characters) : Represents { s with
      connections := s.connections.modify c fun connection => { connection with characters := connection.characters ++ [false] } } v := by
  have registry : Registers v s.registered := by
    have registry := rep.registry
    cases registered : s.registered with
    | none =>
        rw [registered] at registry
        exact characters.trans registry
    | some name =>
        rw [registered] at registry
        obtain ⟨valid, r, client, eq, held⟩ := registry
        refine ⟨valid, r, client, characters.trans eq, ?_⟩
        rw [heap, Arena.get_alloc, if_neg (Nat.ne_of_lt (Arena.lt_next held)), held]
  have joined := rep.adopt c files events heap clients registry fun r _ => by rw [characters]
  rw [characters, decide_eq_false rep.next_loose] at joined
  exact joined

theorem simulates_load : Simulates (StandsOpen c) (Service.load host c name) (loadCharacterHandler host c name) := by
  intro s w related
  obtain ⟨rep, tidy, isOpen⟩ := related
  cases exist : s.files.pathExists host.cwd (charactersPath ++ name) with
  | false =>
      have listed : (404, str "Unknown entity") ∈ errorReplies := by simp [errorReplies]
      rw [loadCharacterHandler_of_missing isOpen (rep.files ▸ exist), Service.load_of_missing exist, bind_of_ok (reply_error s c listed)]
      exact ⟨rfl, rep.replied c _ [.file .test name (charactersPath ++ name)] rfl, tidy, isOpen⟩
  | true =>
      rw [Service.load_of_found exist]
      cases held : savedDocument host s.files name with
      | none =>
          rw [loadCharacterHandler_of_unreadable (rep.files ▸ exist) (rep.files ▸ held)]
          exact ⟨rfl, rep.seen rfl, tidy, isOpen⟩
      | some data =>
          rw [loadCharacterHandler_of_found (rep.files ▸ held)]
          dsimp only
          cases loads : Character.load host.scripts data (newborn name c) with
          | error e ch =>
              have joined := rep.adopt_loose (v := loading w name (some c) ch) c rfl (by rw [loading, said_append]; exact List.append_nil _) rfl rfl rfl
              have fails : Service.loadedText host c name data = .error e := by rw [Service.loadedText, loads]
              rw [fails]
              have tidy' : TidyBut w.heap.next (loading w name (some c) ch) := tidyBut_alloc tidy rfl fun r mem => mem
              refine ⟨rfl, joined.release _, tidy'.release, ?_⟩
              rw [finalState_error, TcpClient.IsOpen, release_clients]
              exact isOpen_adopted isOpen _
          | ok u ch =>
              have joined := rep.adopt_loose (v := loaded w name (some c) ch) c rfl (by rw [loaded, said_append]; exact List.append_nil _) rfl rfl rfl
              exact simulates_saveAndSend joined (isOpen_adopted isOpen _) (tidyBut_alloc tidy rfl fun r mem => mem) rep.next_loose
                (Arena.get_alloc_next ..) (by rw [Service.loadedText, loads])

/-! ### Messages -/

theorem answer_represents (host : Host) (rep : Represents s w) (tidy : Tidy w) {client : Client} (found : w.clients.get c = some client)
    (active : client.active = true) {cmd : Command} (named : ∀ name, cmd = .create name → isUtf8 name = true) :
    let answered := Service.answer host c (Connection.of w.characters.values client) cmd s
    returned answered = returned (respond host c cmd w) ∧ StandsOpen c (finalState answered) (finalState (respond host c cmd w)) := by
  have isOpen : IsOpen w c := ⟨client, found, active⟩
  have refused : ∀ code msg, (code, msg) ∈ errorReplies → returned (Service.reply c (errorText code msg) s) =
      returned (sendError host c code msg w) ∧
      StandsOpen c (finalState (Service.reply c (errorText code msg) s)) (finalState (sendError host c code msg w)) := by
    intro code msg listed
    rw [reply_error s c listed, sendError_apply host isOpen listed]
    exact ⟨rfl, rep.replied c _ [] rfl, tidy, isOpen⟩
  cases cmd with
  | malformed => exact refused 400 (str "JSON malformed") (by simp [errorReplies])
  | incomplete => exact refused 400 (str "Missing elements in JSON") (by simp [errorReplies])
  | mistyped => exact ⟨rfl, rep, tidy, isOpen⟩
  | create name => exact simulates_create (named name rfl) s w ⟨rep, tidy, isOpen⟩
  | load name => exact simulates_load s w ⟨rep, tidy, isOpen⟩
  | data name entity action data =>
      have dispatch := (rep.tables c client found).dispatch entity
      have joined : entity = abilityEntity ∧ (Connection.of w.characters.values client).characters ≠ [] ↔
          entity = abilityEntity ∧ client.disconnectionHandlers ≠ [] := and_congr_right' (not_congr List.map_eq_nil_iff)
      dsimp only [Service.answer, respond, dataCharacterHandler]
      rw [bind_of_ok (clientAt_of_get w found), dispatch]
      by_cases handled : entity = abilityEntity ∧ client.disconnectionHandlers ≠ []
      · rw [if_pos (joined.mpr handled), if_pos handled]
        dsimp only
        rw [forM_log_returns]
        refine ⟨rfl, rep.seen ?_, tidy, isOpen⟩
        rw [said, List.filterMap_map]
        exact List.filterMap_eq_nil_iff.mpr fun _ _ => rfl
      · rw [if_neg (mt joined.mp handled), if_neg handled]
        exact refused 404 (str "Unknown entity") (by simp [errorReplies])

/-! ## Leaving -/

theorem simulates_leave (host : Host) (c r : Ref) (values : List Ref) :
    Simulates (fun s w => Represents s w ∧ Tidy w ∧ w.characters.values = values)
      (Service.leave host (decide (r ∈ values))) (leaveHandler host c r) := by
  intro s w related
  obtain ⟨rep, tidy, rfl⟩ := related
  rw [Service.leave, leaveHandler, bind_of_ok (log_apply w _)]
  by_cases kept : r ∈ w.characters.values
  · obtain ⟨name, client, -, -, -, held⟩ := rep.registry.values kept
    rw [decide_eq_true kept, if_pos rfl, bind_of_ok (deref_of_get (w.seen _) held)]
    have rep' : Represents s (w.seen [.left c r]) := rep.seen rfl
    refine simulates_store host (fun v => Tidy v ∧ v.characters.values = w.characters.values) ?_ s _ ⟨rep', tidy, rfl⟩
    intro v v' same kept
    obtain ⟨heap, characters, -⟩ := same
    simpa only [Tidy, heap, characters] using kept
  · have gone : w.heap.get r = none := by
      cases held : w.heap.get r with
      | none => rfl
      | some ch => exact absurd (tidy r ch held) kept
    have fails : deref r (w.seen [.left c r]) = .error .danglingPointer (w.seen [.left c r]) := by
      simp [deref, bind_apply, gone]
    rw [decide_eq_false kept, bind_of_error fails]
    exact ⟨rfl, rep.seen rfl, tidy, rfl⟩

/-! ## Steps -/

/-- The service stands for the server between its steps. -/
def Stands (s : Service) (w : World) : Prop := Represents s w ∧ Tidy w

/-- Nobody has changed a character from outside. -/
def Plain : Input → Prop
  | .call _ _ => False
  | _ => True

theorem simulates_whenOpen {x : Connection → Action Service Unit} {y : Action World Unit}
    (within : ∀ s w client, Represents s w → Tidy w → w.clients.get c = some client → client.active = true →
      returned (x (Connection.of w.characters.values client) s) = returned (y w) ∧
        Stands (finalState (x (Connection.of w.characters.values client) s)) (finalState (y w))) :
    Simulates Stands (Service.whenActive c x) (whenOpen c y) := by
  intro s w related
  obtain ⟨rep, tidy⟩ := related
  have seen := rep.get c
  by_cases isOpen : IsOpen w c
  · obtain ⟨client, found, active⟩ := isOpen
    rw [found, Option.map_some] at seen
    rw [whenOpen_of_open ⟨client, found, active⟩, Service.whenActive_of_get seen active]
    exact within s w client rep tidy found active
  · have closed : ¬ s.Open c := mt (rep.isOpen c).mp isOpen
    rw [whenOpen_of_closed isOpen, Service.whenActive_of_closed closed]
    exact ⟨rfl, rep, tidy⟩

theorem Represents.onClient (rep : Represents s w) (c : Ref) {f : Client → Client} {g : Connection → Connection}
    (same : ∀ client, Connection.of w.characters.values (f client) = g (Connection.of w.characters.values client))
    (left : ∀ client, (f client).disconnectionHandlers = client.disconnectionHandlers)
    (messages : ∀ client, (f client).messageHandlers = client.messageHandlers) :
    Represents { s with connections := s.connections.modify c g } { w with clients := w.clients.modify c f } where
  files := rep.files
  replies := rep.replies
  registry := rep.registry.same rfl rfl
  connections := by
    rw [← rep.connections]
    exact Arena.map_modify fun client _ => same client
  tables c' client found := by
    rw [Arena.get_modify] at found
    split at found
    · obtain ⟨client', held, rfl⟩ := Option.map_eq_some_iff.mp found
      obtain ⟨known, dispatch⟩ := rep.tables _ _ held
      exact ⟨(left client').symm ▸ known, by rw [messages, left]; exact dispatch⟩
    · exact ⟨(rep.tables _ _ found).known, (rep.tables _ _ found).dispatch⟩

theorem Represents.accept (rep : Represents s w) (connectionID : UInt64) :
    Represents { s with connections := s.connections.alloc ⟨true, false, []⟩ }
      { w with clients := w.clients.alloc (Client.make connectionID) } where
  files := rep.files
  replies := rep.replies
  registry := rep.registry.same rfl rfl
  connections := by
    rw [← rep.connections]
    exact Arena.map_alloc _ _ _
  tables c client found := by
    rw [Arena.get_alloc] at found
    split at found
    · cases found
      refine ⟨by simp [Client.make], fun entity => ?_⟩
      rw [if_neg (by simp [Client.make])]
      rfl
    · exact ⟨(rep.tables _ _ found).known, (rep.tables _ _ found).dispatch⟩

theorem end_represents (rep : Represents s w) (tidy : Tidy w) {client : Client} (found : w.clients.get c = some client) :
    let ended := (Service.onConnection c (fun connection => { connection with active := false }) >>= fun _ =>
      (Connection.of w.characters.values client).characters.forM (Service.leave host)) s
    let ended' := (onClient c close >>= fun _ => endEvent host c) w
    returned ended = returned ended' ∧ Stands (finalState ended) (finalState ended') := by
  intro ended ended'
  have closed := rep.onClient c (f := close) (g := fun connection => { connection with active := false })
    (fun _ => rfl) (fun _ => rfl) fun _ => rfl
  have left : clientAt c { w with clients := w.clients.modify c close } =
      .ok (close client) { w with clients := w.clients.modify c close } := by
    apply clientAt_of_get
    rw [Arena.get_modify_self, found, Option.map_some]
  have leaves := Simulates.forM client.disconnectionHandlers fun r _ => simulates_leave host c r w.characters.values
  obtain ⟨result, rep', tidy', -⟩ := leaves _ _ ⟨closed, tidy, rfl⟩
  have same : ended' = client.disconnectionHandlers.forM (leaveHandler host c) { w with clients := w.clients.modify c close } := by
    show (onClient c close >>= fun _ => endEvent host c) w = _
    rw [bind_of_ok (onClient_apply w c close), endEvent, bind_of_ok left]
    rfl
  have same' : ended = client.disconnectionHandlers.forM (fun r => Service.leave host (decide (r ∈ w.characters.values)))
      { s with connections := s.connections.modify c fun connection => { connection with active := false } } :=
    congrFun (List.forM_map (g := fun r => decide (r ∈ w.characters.values)) (f := Service.leave host)) _
  rw [same, same']
  exact ⟨result, rep', tidy'⟩

/-- Step by step, the server does what the service does, and ends where it ends. -/
theorem simulates_step (host : Host) {i : Input} (plain : Plain i) :
    Simulates Stands (Service.serve host i) (step host i) := by
  cases i with
  | accept connectionID =>
      intro s w related
      obtain ⟨rep, tidy⟩ := related
      exact ⟨rfl, rep.accept connectionID, tidy⟩
  | data c evt =>
      apply simulates_whenOpen
      intro s w client rep tidy found active
      have isOpen : IsOpen w c := ⟨client, found, active⟩
      rw [dataEvent_apply host found active]
      by_cases helo : IsHelo evt.text
      · rw [if_pos helo, if_pos helo]
        have replied := rep.replied c heloReply [] rfl
        refine ⟨rfl, ?_, tidy⟩
        exact replied.onClient c (f := fun client => { client with heloParsed := true })
          (g := fun connection => { connection with heloParsed := true }) (fun _ => rfl) (fun _ => rfl) fun _ => rfl
      rw [if_neg helo, if_neg helo]
      cases parsed : client.heloParsed with
      | false =>
          have listed : (400, str "HELO was not received") ∈ errorReplies := by simp [errorReplies]
          have silent : (Connection.of w.characters.values client).heloParsed = false := parsed
          rw [silent, if_neg Bool.false_ne_true, if_neg Bool.false_ne_true, reply_error s c listed]
          exact ⟨rfl, rep.replied c _ [] rfl, tidy⟩
      | true =>
          have greeted : (Connection.of w.characters.values client).heloParsed = true := parsed
          rw [greeted, if_pos rfl, if_pos rfl, parseMsg_eq, bind_of_ok (log_apply w _)]
          have heard : Represents s (w.seen [.request c (host.parse evt.text)]) := rep.seen rfl
          have answered := answer_represents host heard tidy found active fun name (asked : command (host.parse evt.text) = .create name) =>
            isUtf8_of_create asked
          exact ⟨answered.1, answered.2.1, answered.2.2.1⟩
  | endOfStream c =>
      apply simulates_whenOpen
      intro s w client rep tidy found _
      exact end_represents rep tidy found
  | error c readFailed =>
      apply simulates_whenOpen
      intro s w client rep tidy found active
      cases readFailed with
      | false => exact ⟨rfl, rep, tidy⟩
      | true =>
          refine ⟨rfl, ?_, tidy⟩
          exact rep.onClient c (f := close) (g := fun connection => { connection with active := false })
            (fun _ => rfl) (fun _ => rfl) fun _ => rfl
  | call r call => exact plain.elim
  | dump =>
      refine simulates_storeAll host Tidy fun w v same tidy => ?_
      simpa only [Tidy, same.1, same.2.1] using tidy
  | outside files =>
      intro s w related
      obtain ⟨rep, tidy⟩ := related
      have same : SameObjects w { w with files := files } := ⟨rfl, rfl, rfl⟩
      exact ⟨rfl, rep.same same rfl rep.replies, tidy⟩

theorem stands_initial (files : FileTree) : Stands (.start files) (initial files) := by
  refine ⟨⟨rfl, rfl, rfl, rfl, ?_⟩, ?_⟩
  · intro c client found
    cases found
  · intro r ch found
    cases found

theorem simulates_play (host : Host) {inputs : List Input} (plain : ∀ i ∈ inputs, Plain i) :
    Simulates Stands (play (Service.serve host) inputs) (play (step host) inputs) :=
  Simulates.play fun i mem => simulates_step host (plain i mem)

/-- Whatever happens to it, the server returns or fails as the service does, with the same files, the same answers and
the same connections. -/
theorem server_refines_service (host : Host) (files : FileTree) {inputs : List Input} (plain : ∀ i ∈ inputs, Plain i) :
    let server := play (step host) inputs (initial files)
    let service := play (Service.serve host) inputs (.start files)
    returned server = returned service ∧ (finalState server).files = (finalState service).files ∧
      said (finalState server).events = (finalState service).replies ∧
      ∀ c, (((finalState server).clients.get c).map fun client => (client.active, client.heloParsed)) =
        ((finalState service).connections.get c).map fun connection => (connection.active, connection.heloParsed) := by
  intro server service
  obtain ⟨result, rep, -⟩ := simulates_play host plain _ _ (stands_initial files)
  refine ⟨result.symm, rep.files, rep.replies, fun c => ?_⟩
  rw [rep.get c, Option.map_map]
  rfl

end

theorem aldor_refines :
    let inputs := [.accept 0, .data 0 helo, .request 0 (str "create") (str "Aldor"), .request 0 (str "create") (str "Berin"), .endOfStream 0]
    let server := play (step (.hearing [(str "create", str "Aldor"), (str "create", str "Berin")])) inputs (initial .root)
    let service := play (Service.serve (.hearing [(str "create", str "Aldor"), (str "create", str "Berin")])) inputs (.start .root)
    returned server = returned service ∧ (finalState server).files = (finalState service).files ∧
      said (finalState server).events = (finalState service).replies ∧
      ∀ c, (((finalState server).clients.get c).map fun client => (client.active, client.heloParsed)) =
        ((finalState service).connections.get c).map fun connection => (connection.active, connection.heloParsed) :=
  server_refines_service _ .root (by simp [Plain, Input.request])

end D20Tempest.Server
