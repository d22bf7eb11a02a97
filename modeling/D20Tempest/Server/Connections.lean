import Mathlib.Data.List.Nodup
import D20Tempest.Server.TcpServer

namespace D20Tempest.Server
open Foundation Components Characters TcpClient

/-! ## Connections that are closed -/

/-- As `serve`, but whoever has the stream of a connection can have it closed. -/
def serveClosing (host : Host) : ServerInput → Action Network Unit
  | .listen server => listenEvent host server
  | .connection i _ => onWorld (step host i)
  | .closed h => do
      match (← get).handles.get h with
      | some _ => closeCallback h
      | none => return

def ServerInput.isListen : ServerInput → Bool
  | .listen _ => true
  | _ => false

structure ClientsIntact (host : Host) (n : Network) : Prop where
  keys : ∀ server connectionID c, (n.clients server).find connectionID = some c →
    (∃ cl, n.world.clients.get c = some cl ∧ cl.id = connectionID) ∧ connectionID < n.currentClientID
  recorded : ∀ c cl, n.world.clients.get c = some cl → ∃ server, (server, cl.id, c) ∈ n.accepted
  unique : (n.accepted.map fun e => e.2.1).Nodup
  listens : ∀ server, (n.clients server).find n.currentClientID = none ∧ ∃ n', listenEvent host server n = .ok () n' ∧
    ∀ server' connectionID c, (n'.clients server').find connectionID = some c ↔
      (n.clients server').find connectionID = some c ∨
        (server', connectionID, c) = (server, n.currentClientID, n.world.clients.next)
  closes : ∀ h handle, n.handles.get h = some handle → ∃ c n', handle.data = some c ∧ closeCallback h n = .ok () n' ∧
    ∀ server connectionID entry, (n'.clients server).find connectionID = some entry ↔
      (n.clients server).find connectionID = some entry ∧ entry ≠ c

/-! ### The connection of a handle -/

/-- The data of the handle and the entry of its server are the two pointers to the client. -/
structure Connected (n : Network) (h : Ref) (server : Nat) (connectionID : UInt64) (c : Ref) : Prop where
  handle : ∃ closing, n.handles.get h = some ⟨server, some c, closing⟩
  handler : n.clientHandler c = h
  id : (n.world.clients.get c).map Client.id = some connectionID
  uses : n.uses c = 2
  entry : (n.clients server).find connectionID = some c

structure Connecting (n : Network) : Prop where
  sound : Sound n.world
  below : ∀ e ∈ n.accepted, e.2.1 < n.currentClientID
  unique : (n.accepted.map fun e => e.2.1).Nodup
  recorded : ∀ c connectionID, (n.world.clients.get c).map Client.id = some connectionID →
    ∃ server, (server, connectionID, c) ∈ n.accepted
  handled : ∀ h handle, n.handles.get h = some handle → ∃ connectionID c, Connected n h handle.server connectionID c
  entered : ∀ server connectionID c, (n.clients server).find connectionID = some c → ∃ h, Connected n h server connectionID c

section Connections
variable {host : Host} {n n' : Network} {h : Ref} {server : Nat} {connectionID : UInt64} {c : Ref}

theorem Connected.alive (connected : Connected n h server connectionID c) :
    ∃ cl, n.world.clients.get c = some cl ∧ cl.id = connectionID := Option.map_eq_some_iff.mp connected.id

theorem Connecting.below_of_find (connecting : Connecting n) (found : (n.clients server).find connectionID = some c) :
    connectionID < n.currentClientID := by
  obtain ⟨h, connected⟩ := connecting.entered server connectionID c found
  obtain ⟨server', mem⟩ := connecting.recorded c connectionID connected.id
  exact connecting.below _ mem

theorem Connecting.free (connecting : Connecting n) (server : Nat) : (n.clients server).find n.currentClientID = none := by
  cases taken : (n.clients server).find n.currentClientID with
  | none => rfl
  | some c => exact absurd (connecting.below_of_find taken) (UInt64.lt_irrefl _)

theorem Connected.same {h' : Ref} {server' : Nat} {connectionID' : UInt64} (connected : Connected n h server connectionID c)
    (other : Connected n h' server' connectionID' c) : h' = h ∧ server' = server ∧ connectionID' = connectionID := by
  have handles : h' = h := other.handler.symm.trans connected.handler
  subst handles
  obtain ⟨closing, found⟩ := connected.handle
  obtain ⟨closing', found'⟩ := other.handle
  rw [found] at found'
  cases found'
  exact ⟨rfl, rfl, Option.some.inj (other.id.symm.trans connected.id)⟩

/-! ### Accepting -/

def listened (server : Nat) (n : Network) : Network := { n with
  world := { n.world with clients := n.world.clients.alloc (Client.make n.currentClientID) }
  handles := n.handles.alloc ⟨server, some n.world.clients.next, false⟩
  clientHandler := Function.update n.clientHandler n.world.clients.next n.handles.next
  uses := Function.update n.uses n.world.clients.next 2
  clients := Function.update n.clients server ((n.clients server).assign n.currentClientID n.world.clients.next)
  currentClientID := n.currentClientID + 1
  accepted := n.accepted ++ [(server, n.currentClientID, n.world.clients.next)] }

theorem listenEvent_of_free (host : Host) (free : (n.clients server).find n.currentClientID = none) :
    listenEvent host server n = .ok () (listened server n) := by
  simp only [listenEvent, makeClient, insertClient, bind_apply, get_apply, set_apply, modify_apply, pure_apply, step,
    finalState_ok, Network.retain, Arena.modify_alloc, Function.update_self, Function.update_idem, free]
  rw [Network.drop_of_shared (by simp)]
  simp [listened]

theorem find_listened (free : (n.clients server).find n.currentClientID = none) (server' : Nat) (connectionID : UInt64) (c : Ref) :
    ((listened server n).clients server').find connectionID = some c ↔
      (n.clients server').find connectionID = some c ∨
        (server', connectionID, c) = (server, n.currentClientID, n.world.clients.next) := by
  simp only [listened, Function.update_apply, Prod.mk.injEq]
  by_cases here : server' = server
  · subst here
    rw [if_pos rfl, OrderedMap.find_assign]
    split
    · rename_i key
      subst key
      simp [free, eq_comm]
    · rename_i other
      simp [Ne.symm other]
  · simp [here]

theorem Connected.listened (connected : Connected n h server connectionID c) {server' : Nat}
    (free : (n.clients server').find n.currentClientID = none) : Connected (listened server' n) h server connectionID c := by
  obtain ⟨closing, found⟩ := connected.handle
  obtain ⟨cl, held, -⟩ := connected.alive
  have older : c ≠ n.world.clients.next := Nat.ne_of_lt (Arena.lt_next held)
  have handleOlder : h ≠ n.handles.next := Nat.ne_of_lt (Arena.lt_next found)
  refine ⟨⟨closing, ?_⟩, ?_, ?_, ?_, ?_⟩
  · rw [Server.listened, Arena.get_alloc, if_neg handleOlder, found]
  · exact (Function.update_of_ne older ..).trans connected.handler
  · rw [Server.listened, Arena.get_alloc, if_neg older, connected.id]
  · exact (Function.update_of_ne older ..).trans connected.uses
  · exact (find_listened free server connectionID c).mpr (.inl connected.entry)

theorem connected_listened (free : (n.clients server).find n.currentClientID = none) :
    Connected (listened server n) n.handles.next server n.currentClientID n.world.clients.next := by
  refine ⟨⟨false, ?_⟩, ?_, ?_, ?_, ?_⟩
  · rw [listened, Arena.get_alloc_next]
  · exact Function.update_self ..
  · rw [listened, Arena.get_alloc_next]
    rfl
  · exact Function.update_self ..
  · exact (find_listened free _ _ _).mpr (.inr rfl)

theorem connecting_listened (connecting : Connecting n) (server : Nat) (few : n.currentClientID.toNat + 1 < 2 ^ 64) :
    Connecting (listened server n) := by
  have free := connecting.free server
  have next : n.currentClientID < n.currentClientID + 1 := by
    rw [UInt64.lt_iff_toNat_lt, UInt64.toNat_add]
    simp
    omega
  refine ⟨connecting.sound, ?_, ?_, ?_, ?_, ?_⟩
  · intro e mem
    rcases List.mem_append.mp mem with before | now
    · exact UInt64.lt_trans (connecting.below e before) next
    · obtain rfl := List.mem_singleton.mp now
      exact next
  · rw [listened, List.map_append, List.map_singleton, ← List.concat_eq_append]
    refine List.Nodup.concat ?_ connecting.unique
    intro mem
    obtain ⟨e, before, same⟩ := List.mem_map.mp mem
    exact UInt64.lt_irrefl _ (same ▸ connecting.below e before)
  · intro c connectionID held
    rw [listened, Arena.get_alloc] at held
    rw [listened]
    split at held
    · rename_i new
      obtain rfl := Option.some.inj held
      exact ⟨server, List.mem_append_right _ (by simp [new, Client.make])⟩
    · obtain ⟨server', mem⟩ := connecting.recorded c connectionID held
      exact ⟨server', List.mem_append_left _ mem⟩
  · intro h handle found
    rw [listened, Arena.get_alloc] at found
    split at found
    · rename_i new
      obtain rfl := Option.some.inj found
      exact ⟨_, _, new ▸ connected_listened free⟩
    · obtain ⟨connectionID, c, connected⟩ := connecting.handled h handle found
      exact ⟨connectionID, c, connected.listened free⟩
  · intro server' connectionID c found
    rcases (find_listened free server' connectionID c).mp found with before | now
    · obtain ⟨h, connected⟩ := connecting.entered server' connectionID c before
      exact ⟨h, connected.listened free⟩
    · cases now
      exact ⟨_, connected_listened free⟩

/-! ### Closing -/

def disconnected (h : Ref) (server : Nat) (connectionID : UInt64) (c : Ref) (n : Network) : Network := { n with
  world := { n.world with clients := n.world.clients.free c }
  handles := n.handles.free h
  uses := Function.update n.uses c 0
  clients := Function.update n.clients server ((n.clients server).erase connectionID) }

theorem closeEvent_of_connected (connected : Connected n h server connectionID c) :
    closeEvent h n = .ok () { n with
      uses := Function.update n.uses c 1
      clients := Function.update n.clients server ((n.clients server).erase connectionID) } := by
  obtain ⟨closing, found⟩ := connected.handle
  obtain ⟨cl, held, rfl⟩ := connected.alive
  rw [closeEvent, bind_of_ok (get_apply n), found]
  simp [bind_apply, Network.retain, Network.drop, held, connected.entry, connected.uses]

theorem closeCallback_of_connected (connected : Connected n h server connectionID c) :
    closeCallback h n = .ok () (disconnected h server connectionID c n) := by
  obtain ⟨closing, found⟩ := connected.handle
  rw [closeCallback, bind_of_ok (closeEvent_of_connected connected)]
  simp only [bind_apply, get_apply, found, Option.bind_some, modify_apply, Network.drop, Function.update_self, le_refl,
    ↓reduceIte, Network.destroy, Network.closeHandle, connected.handler, Arena.modify_free]
  simp [disconnected]

theorem find_disconnected (connecting : Connecting n) (last : Connected n h server connectionID c) (server' : Nat)
    (connectionID' : UInt64) (entry : Ref) :
    ((disconnected h server connectionID c n).clients server').find connectionID' = some entry ↔
      (n.clients server').find connectionID' = some entry ∧ entry ≠ c := by
  have elsewhere : (n.clients server').find connectionID' = some entry →
      (entry = c ↔ server' = server ∧ connectionID' = connectionID) := by
    intro found
    obtain ⟨h', connected⟩ := connecting.entered server' connectionID' entry found
    constructor
    · intro same
      exact (last.same (same ▸ connected)).2
    · intro same
      obtain ⟨rfl, rfl⟩ := same
      exact Option.some.inj (found.symm.trans last.entry)
  simp only [disconnected, Function.update_apply]
  by_cases here : server' = server
  · subst here
    rw [if_pos rfl, OrderedMap.find_erase]
    split
    · rename_i key
      simpa [eq_comm] using fun found => (elsewhere found).mpr ⟨rfl, key.symm⟩
    · rename_i key
      exact (and_iff_left_of_imp fun found same => key ((elsewhere found).mp same).2.symm).symm
  · rw [if_neg here]
    exact (and_iff_left_of_imp fun found same => here ((elsewhere found).mp same).1).symm

theorem Connected.disconnected (connecting : Connecting n) {h' : Ref} {server' : Nat} {connectionID' : UInt64} {c' : Ref}
    (connected : Connected n h server connectionID c) (last : Connected n h' server' connectionID' c')
    (other : c ≠ c') : Connected (disconnected h' server' connectionID' c' n) h server connectionID c := by
  obtain ⟨closing, found⟩ := connected.handle
  obtain ⟨closing', found'⟩ := last.handle
  refine ⟨⟨closing, ?_⟩, connected.handler, ?_, ?_, ?_⟩
  · rw [Server.disconnected, Arena.get_free, if_neg, found]
    intro same
    subst same
    rw [found] at found'
    cases found'
    exact other rfl
  · rw [Server.disconnected, Arena.get_free, if_neg other, connected.id]
  · exact (Function.update_of_ne other ..).trans connected.uses
  · exact (find_disconnected connecting last ..).mpr ⟨connected.entry, other⟩

theorem connecting_disconnected (connecting : Connecting n) (last : Connected n h server connectionID c) :
    Connecting (disconnected h server connectionID c n) := by
  refine ⟨connecting.sound, connecting.below, connecting.unique, ?_, ?_, ?_⟩
  · intro c' connectionID' held
    rw [disconnected, Arena.get_free] at held
    split at held
    · cases held
    · exact connecting.recorded c' connectionID' held
  · intro h' handle found
    rw [disconnected, Arena.get_free] at found
    split at found
    · cases found
    · rename_i otherHandle
      obtain ⟨connectionID', c', connected⟩ := connecting.handled h' handle found
      refine ⟨connectionID', c', connected.disconnected connecting last ?_⟩
      intro same
      subst same
      exact otherHandle (last.same connected).1
  · intro server' connectionID' c' found
    obtain ⟨before, other⟩ := (find_disconnected connecting last ..).mp found
    obtain ⟨h', connected⟩ := connecting.entered server' connectionID' c' before
    exact ⟨h', connected.disconnected connecting last other⟩

/-! ### What happens to the world -/

theorem id_step (host : Host) {i : Input} {w : World} (sound : Sound w) (served : ∀ connectionID, i ≠ .accept connectionID)
    (c : Ref) : ((finalState (step host i w)).clients.get c).map Client.id = (w.clients.get c).map Client.id := by
  by_cases making : ∃ cmd, asks host w i = some cmd ∧ Constructs host w cmd
  · obtain ⟨cmd, asked, constructs⟩ := making
    obtain ⟨c', -, -, -, clients⟩ := step_clients_of_constructs sound asked constructs
    rw [clients]
    exact Arena.map_get_modify _ _ _ fun _ => rfl
  · rw [step_clients_of_calm host i sound fun cmd asked constructs => making ⟨cmd, asked, constructs⟩]
    cases i with
    | accept connectionID => exact absurd rfl (served connectionID)
    | data c' evt =>
        rw [calmClients]
        split
        · exact Arena.map_get_modify _ _ _ fun _ => rfl
        · rfl
    | endOfStream c' =>
        rw [calmClients]
        split
        · exact Arena.map_get_modify _ _ _ fun _ => rfl
        · rfl
    | error c' readFailed =>
        rw [calmClients]
        split
        · exact Arena.map_get_modify _ _ _ fun _ => rfl
        · rfl
    | _ => rfl

theorem connecting_onWorld (connecting : Connecting n) {i : Input} (served : ∀ connectionID, i ≠ .accept connectionID) :
    Connecting { n with world := finalState (step host i n.world) } := by
  have ids := id_step host connecting.sound served
  have stays : ∀ {h server connectionID c}, Connected n h server connectionID c →
      Connected { n with world := finalState (step host i n.world) } h server connectionID c := fun connected =>
    ⟨connected.handle, connected.handler, (ids _).trans connected.id, connected.uses, connected.entry⟩
  refine ⟨(stepped host i connecting.sound fun _ _ _ _ => trivial).good, connecting.below, connecting.unique, ?_, ?_, ?_⟩
  · intro c connectionID held
    exact connecting.recorded c connectionID ((ids c).symm.trans held)
  · intro h handle found
    obtain ⟨connectionID, c, connected⟩ := connecting.handled h handle found
    exact ⟨connectionID, c, stays connected⟩
  · intro server connectionID c found
    obtain ⟨h, connected⟩ := connecting.entered server connectionID c found
    exact ⟨h, stays connected⟩

/-! ### Runs -/

theorem connecting_start (files : FileTree) : Connecting (.start files) where
  sound := good_initial _ files
  below e mem := by cases mem
  unique := .nil
  recorded c connectionID held := by cases held
  handled h handle found := by cases found
  entered server connectionID c found := by cases found

/-- The counter is the number of connections so far, as long as there are not too many of them. -/
theorem connecting_run {files : FileTree} {inputs : List ServerInput} (run : Run (serveClosing host) (.start files) inputs n)
    (few : inputs.countP ServerInput.isListen < 2 ^ 64) :
    Connecting n ∧ n.currentClientID.toNat = inputs.countP ServerInput.isListen := by
  revert few
  refine run.history (P := fun done n => done.countP ServerInput.isListen < 2 ^ 64 → Connecting n ∧
    n.currentClientID.toNat = done.countP ServerInput.isListen) (fun _ => ⟨connecting_start files, rfl⟩) ?_
  intro done n i n' before inv taken few
  rw [List.countP_append] at few ⊢
  obtain ⟨connecting, counted⟩ := inv (Nat.lt_of_le_of_lt (Nat.le_add_right _ _) few)
  cases i with
  | listen server =>
      rw [serveClosing, listenEvent_of_free host (connecting.free server)] at taken
      obtain ⟨-, rfl⟩ := EStateM.Result.ok.inj taken
      simp only [List.countP_cons, List.countP_nil, ServerInput.isListen, ↓reduceIte] at few ⊢
      refine ⟨connecting_listened connecting server (counted ▸ few), ?_⟩
      rw [listened, UInt64.toNat_add, counted]
      exact Nat.mod_eq_of_lt few
  | connection i served =>
      have left := congrArg finalState taken
      rw [serveClosing, finalState_onWorld, finalState_ok] at left
      rw [← left]
      exact ⟨connecting_onWorld connecting served, counted⟩
  | closed h =>
      rw [serveClosing, bind_of_ok (get_apply n)] at taken
      cases found : n.handles.get h with
      | none =>
          rw [found] at taken
          obtain ⟨-, rfl⟩ := EStateM.Result.ok.inj taken
          exact ⟨connecting, counted⟩
      | some handle =>
          obtain ⟨connectionID, c, connected⟩ := connecting.handled h handle found
          rw [found] at taken
          dsimp only at taken
          rw [closeCallback_of_connected connected] at taken
          obtain ⟨-, rfl⟩ := EStateM.Result.ok.inj taken
          exact ⟨connecting_disconnected connecting connected, counted⟩

theorem Connecting.intact (connecting : Connecting n) (host : Host) : ClientsIntact host n where
  keys server connectionID c found := by
    obtain ⟨h, connected⟩ := connecting.entered server connectionID c found
    exact ⟨connected.alive, connecting.below_of_find found⟩
  recorded c cl found := connecting.recorded c cl.id (by rw [found, Option.map_some])
  unique := connecting.unique
  listens server :=
    have free := connecting.free server
    ⟨free, _, listenEvent_of_free host free, find_listened free⟩
  closes h handle found := by
    obtain ⟨connectionID, c, connected⟩ := connecting.handled h handle found
    obtain ⟨closing, data⟩ := connected.handle
    rw [found] at data
    exact ⟨c, _, by rw [Option.some.inj data], closeCallback_of_connected connected,
      find_disconnected connecting connected⟩

end Connections

/-- However connections are accepted and closed on the servers, fewer than two to the 64 of them in all: their ids are
distinct, each server has its clients under their ids, and a connection that is closed takes its own entry with it. -/
theorem connections_intact {host : Host} {files : FileTree} {inputs : List ServerInput} {n : Network}
    (run : Run (serveClosing host) (.start files) inputs n) (few : inputs.countP ServerInput.isListen < 2 ^ 64) : ClientsIntact host n :=
  (connecting_run run few).1.intact host

theorem connections_intact_two : ClientsIntact (.knowing []) (finalState
    (play (serveClosing (.knowing [])) [.listen 0, .listen 1, .closed 0, .listen 0] (.start .root))) :=
  connections_intact (run_play _ _ _ (by decide +kernel)) (by decide)

end D20Tempest.Server
