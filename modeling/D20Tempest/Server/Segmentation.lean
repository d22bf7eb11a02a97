import D20Tempest.Server.Runs

namespace D20Tempest.Server
open Foundation Components Characters TcpClient

/-! ## What a connection does -/

def requests (w : World) (c : Ref) : List Json := w.events.filterMap fun
  | .request c' docJson => if c' = c then some docJson else none
  | _ => none

def replies (w : World) (c : Ref) : List Bytes := w.events.filterMap fun
  | .sent c' msg => if c' = c then some msg else none
  | _ => none

def heloStatus (w : World) (c : Ref) : Option Bool := (w.clients.get c).map Client.heloParsed

structure SameOutcome (c : Ref) (w w' : World) : Prop where
  status : heloStatus w c = heloStatus w' c
  requests : requests w c = requests w' c
  replies : replies w c = replies w' c

/-! ## Streams -/

def greeting : Bytes := [0x00, 0xC0, 0xFF, 0xEE]

def IsDocument (host : Host) (text : Bytes) : Prop :=
  (host.parse text).isDiscarded = false ∧ text.head? ≠ some 0xEF

instance (host : Host) (text : Bytes) : Decidable (IsDocument host text) := inferInstanceAs (Decidable (_ ∧ _))

def Blank (text : Bytes) : Prop := ∀ b ∈ text, isBlank b

instance (text : Bytes) : Decidable (Blank text) := List.decidableBAll _ text

def Carries (doc chunk : Bytes) : Prop :=
  ∃ before after, Blank before ∧ Blank after ∧ chunk = before ++ doc ++ after

/-- The greeting comes in the first chunk, and each document in a chunk of its own. -/
def Aligned (docs : List Bytes) (chunks : List Bytes) : Prop :=
  ∃ after rest, chunks = (greeting ++ after) :: rest ∧ Blank after ∧ List.Forall₂ Carries docs rest

def separate (c : Ref) : Input → Bytes ⊕ Input
  | .data c' evt => if c' = c then .inl evt.text else .inr (.data c' evt)
  | i => .inr i

def chunks (c : Ref) (inputs : List Input) : List Bytes := inputs.filterMap fun i => (separate c i).getLeft?

def surroundings (c : Ref) (inputs : List Input) : List (Option Input) := inputs.map fun i => (separate c i).getRight?

/-! ## Chunks that are handled alike -/

section Alike
variable {host : Host} {c : Ref}

def Alike (host : Host) (text text' : Bytes) : Prop :=
  (IsHelo text ↔ IsHelo text') ∧ (¬ IsHelo text → host.parse text = host.parse text')

theorem step_data_congr {evt evt' : DataEvent} (alike : Alike host evt.text evt'.text) :
    step host (.data c evt) = step host (.data c evt') := by
  funext w
  by_cases isOpen : IsOpen w c
  · obtain ⟨cl, found, active⟩ := isOpen
    rw [step_data_of_open host evt found active, step_data_of_open host evt' found active]
    by_cases helo : IsHelo evt.text
    · rw [if_pos helo, if_pos (alike.1.mp helo)]
    · rw [if_neg helo, if_neg fun helo' => helo (alike.1.mpr helo'), alike.2 helo]
  · rw [step_data_of_closed host evt isOpen, step_data_of_closed host evt' isOpen]

theorem separate_cases (c : Ref) (i : Input) :
    (∃ evt, i = .data c evt ∧ separate c i = .inl evt.text) ∨ separate c i = .inr i := by
  cases i with
  | data c' evt =>
      by_cases own : c' = c
      · exact .inl ⟨evt, by rw [own], by rw [separate, if_pos own]⟩
      · exact .inr (by rw [separate, if_neg own])
  | _ => exact .inr rfl

theorem steps_congr {inputs inputs' : List Input} (same : surroundings c inputs = surroundings c inputs')
    (alike : List.Forall₂ (Alike host) (chunks c inputs) (chunks c inputs')) :
    inputs.map (step host) = inputs'.map (step host) := by
  induction inputs generalizing inputs' with
  | nil =>
      cases inputs' with
      | nil => rfl
      | cons j rest' => cases same
  | cons i rest ih =>
      cases inputs' with
      | nil => cases same
      | cons j rest' =>
          obtain ⟨head, tail⟩ := List.cons.inj same
          rcases separate_cases c i with ⟨evt, rfl, left⟩ | right
          · rcases separate_cases c j with ⟨evt', rfl, left'⟩ | right'
            · simp only [chunks, List.filterMap_cons, left, left', Sum.getLeft?_inl, List.forall₂_cons] at alike
              rw [List.map_cons, List.map_cons, step_data_congr alike.1, ih tail alike.2]
            · simp [left, right'] at head
          · rcases separate_cases c j with ⟨evt', rfl, left'⟩ | right'
            · simp [left', right] at head
            · obtain rfl : i = j := by simpa [right, right'] using head
              simp only [chunks, List.filterMap_cons, right, Sum.getLeft?_inr] at alike
              rw [List.map_cons, List.map_cons, ih tail alike]

theorem alike_greetings (after after' : Bytes) : Alike host (greeting ++ after) (greeting ++ after') :=
  ⟨⟨fun _ => rfl, fun _ => rfl⟩, fun other => absurd rfl other⟩

theorem not_isHelo_of_carries {doc chunk : Bytes} (valid : IsDocument host doc) (carries : Carries doc chunk) :
    ¬ IsHelo chunk := by
  obtain ⟨before, after, blank, blank', rfl⟩ := carries
  intro helo
  have start : (before ++ doc ++ after).head? = some 0 := by
    have first := congrArg List.head? helo
    rwa [List.head?_take, if_neg (by decide)] at first
  have nul : ∀ text : Bytes, Blank text → text.head? ≠ some 0 := by
    intro text blank first
    have := blank 0 (List.mem_of_mem_head? first)
    simp [isBlank] at this
  cases before with
  | cons b more => exact nul (b :: more) blank start
  | nil =>
      cases doc with
      | cons b more =>
          obtain rfl : b = 0 := by simpa using start
          simp [IsDocument, host.parse_nul, Json.isDiscarded] at valid
      | nil => exact nul after blank' (by simpa using start)

theorem alike_of_carries {doc chunk chunk' : Bytes} (valid : IsDocument host doc) (carries : Carries doc chunk)
    (carries' : Carries doc chunk') : Alike host chunk chunk' := by
  have other := not_isHelo_of_carries valid carries
  have other' := not_isHelo_of_carries valid carries'
  refine ⟨⟨fun helo => absurd helo other, fun helo => absurd helo other'⟩, fun _ => ?_⟩
  obtain ⟨before, after, first, last, rfl⟩ := carries
  obtain ⟨before', after', first', last', rfl⟩ := carries'
  rw [host.parse_blanks before doc after first last valid.2, host.parse_blanks before' doc after' first' last' valid.2]

theorem alike_of_forall {docs texts texts' : List Bytes} (valid : ∀ doc ∈ docs, IsDocument host doc)
    (carry : List.Forall₂ Carries docs texts) (carry' : List.Forall₂ Carries docs texts') :
    List.Forall₂ (Alike host) texts texts' := by
  induction carry generalizing texts' with
  | nil =>
      cases carry'
      exact .nil
  | cons head tail ih =>
      cases carry' with
      | cons head' tail' =>
          refine .cons (alike_of_carries (valid _ (by simp)) head head') (ih ?_ tail')
          exact fun doc mem => valid doc (List.mem_cons_of_mem _ mem)

end Alike

/-- Where the greeting and each document arrive in chunks of their own, it does not matter where the
white space between them goes, nor what else reaches the server in between: all comes to the same. -/
theorem aligned_cuts_agree (host : Host) (c : Ref) (docs : List Bytes) (valid : ∀ doc ∈ docs, IsDocument host doc)
    (inputs inputs' : List Input) (aligned : Aligned docs (chunks c inputs)) (aligned' : Aligned docs (chunks c inputs'))
    (same : surroundings c inputs = surroundings c inputs') (w : World) :
    play (step host) inputs w = play (step host) inputs' w := by
  obtain ⟨after, rest, eq, -, carry⟩ := aligned
  obtain ⟨after', rest', eq', -, carry'⟩ := aligned'
  have alike : List.Forall₂ (Alike host) (chunks c inputs) (chunks c inputs') := by
    rw [eq, eq']
    exact .cons (alike_greetings after after') (alike_of_forall valid carry carry')
  rw [play_congr (steps_congr same alike)]

def aldor : Bytes := requestText (str "create") (str "Aldor")

def oneRequest : Host := .hearing [(str "create", str "Aldor")]

theorem aligned_cuts_agree_line_feed :
    play (step oneRequest) [.accept 0, .data 0 (.of (greeting ++ str "\n")), .accept 1, .data 0 (.of aldor)]
        (initial .root) =
      play (step oneRequest) [.accept 0, .data 0 (.of greeting), .accept 1, .data 0 (.of (str "\n" ++ aldor))]
        (initial .root) := by
  apply aligned_cuts_agree oneRequest 0 [aldor]
  · decide +kernel
  · exact ⟨str "\n", [aldor], by decide +kernel, by decide, .cons ⟨[], [], by decide, by decide, by simp⟩ .nil⟩
  · exact ⟨[], [str "\n" ++ aldor], by decide +kernel, by decide,
      .cons ⟨str "\n", [], by decide, by decide, by simp⟩ .nil⟩
  · rfl

/-- A request that comes with the greeting is lost. -/
theorem merged_request_is_lost : ¬ ∀ (docs : List Bytes) (evts evts' : List DataEvent),
    (∀ doc ∈ docs, IsDocument oneRequest doc) → (∀ evt ∈ evts ++ evts', evt.text ≠ []) →
    (evts.map DataEvent.text).flatten = greeting ++ docs.flatten →
    (evts'.map DataEvent.text).flatten = greeting ++ docs.flatten →
    SameOutcome 0 (finalState (play (step oneRequest) (.accept 0 :: evts.map (.data 0)) (initial .root)))
      (finalState (play (step oneRequest) (.accept 0 :: evts'.map (.data 0)) (initial .root))) := by
  intro all
  have same := all [aldor] [helo, .of aldor] [.of (greeting ++ aldor)] (by decide +kernel) (by decide +kernel)
    (by decide +kernel) (by decide +kernel)
  have lengths := congrArg List.length same.requests
  revert lengths
  decide +kernel

end D20Tempest.Server
