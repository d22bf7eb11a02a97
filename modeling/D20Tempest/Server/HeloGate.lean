import D20Tempest.Server.Frame

namespace D20Tempest.Server
open Foundation Components Characters TcpClient

variable {host : Host} {files : FileTree} {inputs : List Input} {w : World}

def Received (host : Host) (files : FileTree) (inputs : List Input) (c : Ref) (evt : DataEvent) : Prop :=
  ∃ done rest w, inputs = done ++ .data c evt :: rest ∧ Run (step host) (initial files) done w ∧ IsOpen w c

def ReceivedHelo (host : Host) (files : FileTree) (inputs : List Input) (c : Ref) : Prop :=
  ∃ evt, Received host files inputs c evt ∧ IsHelo evt.text

theorem ReceivedHelo.snoc {c : Ref} (received : ReceivedHelo host files inputs c) (i : Input) :
    ReceivedHelo host files (inputs ++ [i]) c := by
  obtain ⟨evt, ⟨done, rest, w, split, run, isOpen⟩, helo⟩ := received
  exact ⟨evt, ⟨done, rest ++ [i], w, by simp [split], run, isOpen⟩, helo⟩

theorem good_initial (N : Bytes → Prop) (files : FileTree) : Good N (initial files) := by
  intro id r held
  cases held

theorem good_run (run : Run (step host) (initial files) inputs w) : Good (fun _ => True) w := by
  apply run.always (good_initial _ files)
  intro t i t' good taken
  have next := stepped host i good fun _ _ _ _ => trivial
  rw [taken] at next
  exact next.good

theorem receivedHelo_of_parsed (run : Run (step host) (initial files) inputs w) :
    ∀ c cl, w.clients.get c = some cl → cl.heloParsed = true → ReceivedHelo host files inputs c := by
  refine run.history (P := fun inputs w => ∀ c cl, w.clients.get c = some cl → cl.heloParsed = true →
    ReceivedHelo host files inputs c) (fun c cl found _ => by cases found) ?_
  intro done t i t' before ih taken c cl found parsed
  have next := stepped host i (good_run before) fun _ _ _ _ => trivial
  rw [taken] at next
  rcases next.greeted c cl found parsed with ⟨cl₀, found₀, parsed₀⟩ | ⟨evt, rfl, isOpen, helo⟩
  · exact (ih c cl₀ found₀ parsed₀).snoc i
  · exact ⟨evt, ⟨done, [], t, rfl, before, isOpen⟩, helo⟩

theorem step_before_helo {c : Ref} (run : Run (step host) (initial files) inputs w) (isOpen : IsOpen w c)
    (quiet : ¬ ReceivedHelo host files inputs c) {evt : DataEvent} (other : ¬ IsHelo evt.text) :
    step host (.data c evt) w = .ok () (w.seen [.sent c (errorText 400 (str "HELO was not received"))]) := by
  obtain ⟨cl, found, active⟩ := isOpen
  have unparsed : ¬ cl.heloParsed = true := fun parsed => quiet (receivedHelo_of_parsed run c cl found parsed)
  rw [step_data_of_open host evt found active, if_neg other, if_neg unparsed]

structure Gated (host : Host) (files : FileTree) (inputs : List Input) (w : World) (i : Input) : Prop where
  -- a text is handed to `ParseMsg` only on a connection that was greeted
  asked : ∃ more, (finalState (step host i w)).events = w.events ++ more ∧ ∀ c doc, .request c doc ∈ more →
    ∃ evt, i = .data c evt ∧ doc = host.parse evt.text ∧ ReceivedHelo host files inputs c
  -- before that, any other chunk is answered with one error, and nothing changes
  refused : ∀ c evt, i = .data c evt → IsOpen w c → ¬ ReceivedHelo host files inputs c → ¬ IsHelo evt.text →
    step host i w = .ok () (w.seen [.sent c (errorText 400 (str "HELO was not received"))])
  -- the status never reverts
  kept : ∀ c cl, w.clients.get c = some cl → cl.heloParsed = true →
    ∃ cl', (finalState (step host i w)).clients.get c = some cl' ∧ cl'.heloParsed = true
  -- the records of other connections stay as they are
  others : ∀ c cl, i.client ≠ some c → w.clients.get c = some cl →
    (finalState (step host i w)).clients.get c = some cl

/-- Whatever was received before, and whatever comes next, the gate is kept on every connection. -/
theorem helo_gate (host : Host) (files : FileTree) (inputs : List Input) (w : World)
    (run : Run (step host) (initial files) inputs w) (i : Input) : Gated host files inputs w i := by
  have next := stepped host i (good_run run) fun _ _ _ _ => trivial
  refine ⟨?_, ?_, next.kept, next.others⟩
  · obtain ⟨more, eq, kinds⟩ := next.events
    refine ⟨more, eq, fun c doc mem => ?_⟩
    obtain ⟨evt, cl, rfl, rfl, found, parsed⟩ := (kinds _ mem).2 c doc rfl
    exact ⟨evt, rfl, rfl, receivedHelo_of_parsed run c cl found parsed⟩
  · rintro c evt rfl isOpen quiet other
    exact step_before_helo run isOpen quiet other

theorem helo_gate_two_connections :
    let inputs : List Input := [.accept 0, .accept 1, .data 0 helo]
    Gated (.knowing []) .root inputs (finalState (play (step (.knowing [])) inputs (initial .root)))
      (.data 1 (.of (str "\x7b\x7d"))) :=
  helo_gate (.knowing []) .root [.accept 0, .accept 1, .data 0 helo] _ rfl _

end D20Tempest.Server
