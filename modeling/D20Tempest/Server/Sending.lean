import D20Tempest.Server.Segmentation
import D20Tempest.Server.Tables

namespace D20Tempest.Server
open Foundation

/-! ## Streams that are written to -/

/-- A write that was accepted, as long as bytes of it are to come. It has the address of the bytes, not a
copy. -/
structure WriteRequest where
  buffer : Ref
  base : Nat
  len : Nat
  -- the message at the time of the call
  msg : Bytes

structure Stream where
  active : Bool
  -- the memory of the messages that are alive
  buffers : Arena Bytes
  pending : List WriteRequest
  transmitted : Bytes
  accepted : List Bytes

namespace Stream

def fresh : Stream := ⟨true, .empty, [], [], []⟩

/-- Memory that is no longer the message's holds anything. -/
def readByte (buffers : Arena Bytes) (garbage : Nat → UInt8) (r : Ref) (i : Nat) : UInt8 :=
  ((buffers.get r).bind (·[i]?)).getD (garbage i)

def transmit (n : Nat) (garbage : Nat → UInt8) (s : Stream) : Stream := match s.pending with
  | [] => s
  | request :: rest =>
      let k := min n (request.len - request.base)
      { s with
        transmitted := s.transmitted ++ (List.range' request.base k).map (readByte s.buffers garbage request.buffer)
        pending := if request.base + k = request.len then rest
          else { request with base := request.base + k } :: rest }

/-- `TCPHandle::write`: the socket is tried at once if nothing is waiting, and takes up to `n` bytes. -/
def write (r : Ref) (n : Nat) : Action Stream Unit := do
  match (← get).buffers.get r with
  | none => throw .danglingPointer
  | some msg =>
      if 2 ^ 32 ≤ msg.length then
        throw .narrowingError
      let idle := (← get).pending.isEmpty
      modify fun s => { s with
        pending := s.pending ++ [⟨r, 0, msg.length, msg⟩]
        accepted := s.accepted ++ [msg] }
      if idle then
        modify (·.transmit n fun _ => 0)

/-- The overload for temporary vectors empties the vector when it is done. -/
inductive Overload where
  | vector | string
  deriving DecidableEq

def send (overload : Overload) (r : Ref) (n : Nat) : Action Stream Unit := do
  if !(← get).active then
    return
  write r n
  match overload with
  | .vector => modify fun s => { s with buffers := s.buffers.modify r fun _ => [] }
  | .string => return

/-- The message is a temporary of the statement that sends it. -/
def sending (overload : Overload) (msg : Bytes) (n : Nat) : Action Stream Unit := fun s =>
  let r := s.buffers.next
  match send overload r n { s with buffers := s.buffers.alloc msg } with
  | .ok u s' => .ok u { s' with buffers := s'.buffers.free r }
  | .error e s' => .error e { s' with buffers := s'.buffers.free r }

end Stream

inductive StreamInput where
  -- a reply, of which the socket takes `atOnce` bytes before the call returns
  | send (overload : Stream.Overload) (msg : Bytes) (atOnce : Nat)
  | transmit (n : Nat) (garbage : Nat → UInt8)

def deliver : StreamInput → Action Stream Unit
  | .send overload msg atOnce => Stream.sending overload msg atOnce
  | .transmit n garbage => modify (·.transmit n garbage)

/-- Each pending request has its message in memory as it was sent, and when none is left the peer has got all
messages in order. -/
structure Intact (s : Stream) : Prop where
  owned : ∀ request ∈ s.pending, s.buffers.get request.buffer = some request.msg
  complete : s.pending = [] → s.transmitted = s.accepted.flatten

def TakenAtOnce (_ : Stream) : StreamInput → Prop
  | .send _ msg atOnce => msg.length < 2 ^ 32 → msg.length ≤ atOnce
  | .transmit _ _ => True

section Results
variable {s : Stream} {msg : Bytes} {n : Nat} {overload : Stream.Overload}

theorem readBytes_of_alive {buffers : Arena Bytes} {r : Ref} (garbage : Nat → UInt8) (k : Nat)
    (alive : buffers.get r = some msg) :
    (List.range' 0 (min k msg.length)).map (Stream.readByte buffers garbage r) = msg.take k := by
  apply List.ext_getElem
  · simp
  · intro i short _
    have within : i < msg.length := by
      simp only [List.length_map, List.length_range'] at short
      omega
    simp [Stream.readByte, alive, within]

def waiting (r : Ref) (msg : Bytes) (n : Nat) : List WriteRequest :=
  if msg.length ≤ n then [] else [⟨r, n, msg.length, msg⟩]

theorem write_apply {r : Ref} (alive : s.buffers.get r = some msg) (short : msg.length < 2 ^ 32) (idle : s.pending = []) :
    Stream.write r n s = .ok () { s with
      pending := waiting r msg n
      transmitted := s.transmitted ++ msg.take n
      accepted := s.accepted ++ [msg] } := by
  rw [Stream.write, bind_of_ok (get_apply s), alive]
  simp only [Nat.not_le.mpr short, ↓reduceIte, bind_apply, get_apply, idle, List.isEmpty_nil, modify_apply, Stream.transmit,
    List.nil_append, Nat.sub_zero, Nat.zero_add, readBytes_of_alive _ n alive, waiting]
  by_cases whole : msg.length ≤ n
  · simp [whole]
  · have less : n < msg.length := Nat.not_le.mp whole
    simp [Nat.min_eq_left less.le, less.ne, whole]

theorem send_of_active (overload : Stream.Overload) (r : Ref) (n : Nat) (active : s.active = true) :
    Stream.send overload r n s = match Stream.write r n s with
      | .error e s' => .error e s'
      | .ok u s' => .ok u (match overload with
          | .vector => { s' with buffers := s'.buffers.modify r fun _ => [] }
          | .string => s') := by
  unfold Stream.send
  rw [bind_of_ok (get_apply s), active]
  simp only [Bool.not_true, Bool.false_eq_true, ↓reduceIte]
  rw [bind_apply]
  cases Stream.write r n s <;> cases overload <;> rfl

structure Sent (msg : Bytes) (n : Nat) (s s' : Stream) : Prop where
  active : s'.active = s.active
  gone : s'.buffers.get s.buffers.next = none
  pending : s'.pending = waiting s.buffers.next msg n
  transmitted : s'.transmitted = s.transmitted ++ msg.take n
  accepted : s'.accepted = s.accepted ++ [msg]

theorem sending_apply (overload : Stream.Overload) (n : Nat) (active : s.active = true) (idle : s.pending = [])
    (short : msg.length < 2 ^ 32) :
    ∃ s', Stream.sending overload msg n s = .ok () s' ∧ Sent msg n s s' := by
  let held : Stream := { s with buffers := s.buffers.alloc msg }
  have writes : Stream.write s.buffers.next n held = _ := write_apply (Arena.get_alloc_next ..) short idle
  have sends := send_of_active (s := held) overload s.buffers.next n active
  rw [writes] at sends
  rw [Stream.sending, sends]
  refine ⟨_, rfl, ?_, ?_, ?_, ?_, ?_⟩
  · cases overload <;> rfl
  · exact (Arena.get_free ..).trans (if_pos rfl)
  · cases overload <;> rfl
  · cases overload <;> rfl
  · cases overload <;> rfl

theorem sending_of_long (overload : Stream.Overload) (n : Nat) (active : s.active = true) (long : 2 ^ 32 ≤ msg.length) :
    Stream.sending overload msg n s =
      .error .narrowingError { s with buffers := (s.buffers.alloc msg).free s.buffers.next } := by
  let held : Stream := { s with buffers := s.buffers.alloc msg }
  have stops : Stream.write s.buffers.next n held = .error .narrowingError held := by
    rw [Stream.write, bind_of_ok (get_apply _), Arena.get_alloc_next]
    simp only [long, ↓reduceIte]
    rfl
  rw [Stream.sending, send_of_active (s := held) overload s.buffers.next n active, stops]

structure Idle (s : Stream) : Prop where
  active : s.active = true
  pending : s.pending = []
  complete : s.transmitted = s.accepted.flatten

theorem Idle.sent {s' : Stream} (idle : Idle s) (sent : Sent msg n s s') (whole : msg.length ≤ n) : Idle s' where
  active := sent.active.trans idle.active
  pending := by rw [sent.pending, waiting, if_pos whole]
  complete := by rw [sent.transmitted, sent.accepted, idle.complete, List.take_of_length_le whole]; simp

theorem Idle.intact (idle : Idle s) : Intact s where
  owned request mem := by
    rw [idle.pending] at mem
    cases mem
  complete _ := idle.complete

theorem Sent.intact_iff {s' : Stream} (idle : Idle s) (sent : Sent msg n s s') : Intact s' ↔ msg.length ≤ n := by
  constructor
  · intro intact
    by_contra part
    have mem : ⟨s.buffers.next, n, msg.length, msg⟩ ∈ s'.pending := by simp [sent.pending, waiting, part]
    have owned := intact.owned _ mem
    rw [sent.gone] at owned
    cases owned
  · intro whole
    exact (idle.sent sent whole).intact

theorem transmit_of_idle (idle : Idle s) (n : Nat) (garbage : Nat → UInt8) : s.transmit n garbage = s := by
  rw [Stream.transmit, idle.pending]

theorem intact_deliver_iff (idle : Idle s) (i : StreamInput) : Intact (finalState (deliver i s)) ↔ TakenAtOnce s i := by
  cases i with
  | send overload msg atOnce =>
      rw [deliver, TakenAtOnce]
      by_cases short : msg.length < 2 ^ 32
      · obtain ⟨s', run, sent⟩ := sending_apply overload atOnce idle.active idle.pending short
        rw [run, finalState_ok, sent.intact_iff idle]
        exact ⟨fun whole _ => whole, fun whole => whole short⟩
      · rw [sending_of_long overload atOnce idle.active (Nat.not_lt.mp short)]
        have same : Idle { s with buffers := (s.buffers.alloc msg).free s.buffers.next } :=
          ⟨idle.active, idle.pending, idle.complete⟩
        exact iff_of_true same.intact fun fits => absurd fits short
  | transmit n garbage =>
      rw [deliver, modify_apply, finalState_ok, transmit_of_idle idle]
      exact iff_of_true idle.intact trivial

theorem idle_deliver (idle : Idle s) (i : StreamInput) (atOnce : TakenAtOnce s i) : Idle (finalState (deliver i s)) := by
  cases i with
  | send overload msg n =>
      rw [deliver]
      by_cases short : msg.length < 2 ^ 32
      · obtain ⟨s', run, sent⟩ := sending_apply overload n idle.active idle.pending short
        rw [run, finalState_ok]
        exact idle.sent sent (atOnce short)
      · rw [sending_of_long overload n idle.active (Nat.not_lt.mp short)]
        exact ⟨idle.active, idle.pending, idle.complete⟩
  | transmit n garbage =>
      rw [deliver, modify_apply, finalState_ok, transmit_of_idle idle]
      exact idle

end Results

/-! ## Replies of the server -/

section Replies
variable {host : Host} {w : World} {c : Ref}

def Short (e : Event) : Prop := ∀ c msg, e = .sent c msg → msg.length < 2 ^ 32

theorem short_of_run {files : FileTree} {inputs : List Input} (run : Run (step host) (initial files) inputs w) :
    ∀ msg ∈ replies w c, msg.length < 2 ^ 32 := by
  have all : ∀ e ∈ w.events, Short e := by
    refine run.always (P := fun w => ∀ e ∈ w.events, Short e) (fun e mem => by cases mem) ?_
    intro w i w' short taken
    have emits : Emits Short w (finalState (step host i w)) := by
      refine step_emits host i w ?_ ?_ ?_ ?_ ?_ ?_
      · simp [Short]
      · simp [Short]
      · simp [Short]
      · intro _ msg fits _ _ eq
        cases eq
        exact fits
      · simp [Short]
      · simp [Short]
    rw [taken, finalState_ok] at emits
    obtain ⟨more, eq, fits⟩ := emits
    intro e mem
    rw [eq] at mem
    rcases List.mem_append.mp mem with before | now
    · exact short e before
    · exact fits e now
  intro msg mem
  obtain ⟨e, held, which⟩ := List.mem_filterMap.mp mem
  cases e with
  | sent c' msg' =>
      simp only at which
      split at which
      · obtain rfl := Option.some.inj which
        exact all _ held c' msg' rfl
      · cases which
  | _ => cases which

def sends (overload : Bytes → Stream.Overload) (msgs : List Bytes) : List StreamInput :=
  msgs.map fun msg => .send (overload msg) msg msg.length

theorem run_sends (overload : Bytes → Stream.Overload) (msgs : List Bytes) (short : ∀ msg ∈ msgs, msg.length < 2 ^ 32) :
    ∃ s, Run deliver .fresh (sends overload msgs) s ∧ Idle s ∧ s.accepted = msgs := by
  induction msgs using List.reverseRecOn with
  | nil => exact ⟨.fresh, rfl, ⟨rfl, rfl, rfl⟩, rfl⟩
  | append_singleton msgs msg ih =>
      obtain ⟨s, run, idle, accepted⟩ := ih fun m mem => short m (List.mem_append_left _ mem)
      have fits := short msg (by simp)
      obtain ⟨s', taken, sent⟩ := sending_apply (overload msg) msg.length idle.active idle.pending fits
      refine ⟨s', ?_, idle.sent sent (le_refl _), by rw [sent.accepted, accepted]⟩
      rw [sends, List.map_append]
      exact run_snoc.mpr ⟨s, run, taken⟩

theorem peer_gets_replies (overload : Bytes → Stream.Overload) {files : FileTree} {inputs : List Input}
    (run : Run (step host) (initial files) inputs w) (c : Ref) :
    ∃ s, Run deliver .fresh (sends overload (replies w c)) s ∧ s.transmitted = (replies w c).flatten := by
  obtain ⟨s, delivered, idle, accepted⟩ := run_sends overload (replies w c) (short_of_run run)
  exact ⟨s, delivered, by rw [idle.complete, accepted]⟩

end Replies

/-- The peer gets what was sent, from memory that is the message's, exactly as long as the socket takes each
message whole within the call that sends it. -/
theorem intact_iff_takenAtOnce (inputs : List StreamInput) :
    Meets deliver (fun s i => Intact (finalState (deliver i s))) .fresh inputs ↔ Meets deliver TakenAtOnce .fresh inputs := by
  refine meets_congr ⟨rfl, rfl, rfl⟩ (fun s i idle => intact_deliver_iff idle i) ?_
  intro s i s' idle atOnce taken
  have next := idle_deliver idle i atOnce
  rwa [taken] at next

/-- The socket is full when the greeting is answered: the answer is gone before a byte of it has left. -/
theorem pending_reply_has_no_memory : ¬ Meets deliver (fun s i => Intact (finalState (deliver i s))) .fresh
    [.send .vector TcpClient.heloReply 0, .transmit 4 fun _ => 0xFF] := by
  intro met
  have owned := met.1.owned ⟨0, 0, 4, TcpClient.heloReply⟩ (List.mem_of_getElem? (i := 0) rfl)
  revert owned
  decide

end D20Tempest.Server
