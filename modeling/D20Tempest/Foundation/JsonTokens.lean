import D20Tempest.Foundation.JsonLexer

namespace Foundation.Json
open Scanner

/-! ## Strings -/

theorem following_of_blank {b : UInt8} (blank : isBlank b = true) : following b = none ∨ b = 0x20 := by
  simp only [isBlank, Bool.or_eq_true, decide_eq_true_eq] at blank
  rcases blank with ((rfl | rfl) | rfl) | rfl
  · exact .inr rfl
  all_goals exact .inl rfl

theorem hexValue_of_blank (b : UInt8) (blank : isBlank b = true) : hexValue b = none := by
  simp only [isBlank, Bool.or_eq_true, decide_eq_true_eq] at blank
  rcases blank with ((rfl | rfl) | rfl) | rfl <;> rfl

theorem escaped_of_blank (b : UInt8) (blank : isBlank b = true) : escaped b = none ∧ b ≠ 0x75 := by
  simp only [isBlank, Bool.or_eq_true, decide_eq_true_eq] at blank
  rcases blank with ((rfl | rfl) | rfl) | rfl <;> decide

theorem steady_getCodepoint : Steady getCodepoint := by
  have hex : Steady (accept hexValue) := steady_accept hexValue_of_blank
  refine hex.bind fun _ => hex.bind fun _ => hex.bind fun _ => ?_
  exact hex.bind fun _ => steady_pure _

theorem steady_scanCodepoint : Steady scanCodepoint := by
  apply steady_getCodepoint.bind
  intro codepoint1
  split
  · apply (steady_expect rfl).bind
    intro _
    apply steady_getCodepoint.bind
    intro codepoint2
    split
    · exact steady_pure _
    · exact steady_failure
  · split
    · exact steady_failure
    · exact steady_pure _

/-- The bytes that have to follow are above the white space. -/
theorem steady_nextBytesInRange {ranges : List (UInt8 × UInt8)} (high : ∀ range ∈ ranges, 0x80 ≤ range.1) :
    Steady (nextBytesInRange ranges) := by
  induction ranges with
  | nil => exact steady_pure _
  | cons range ranges ih =>
      apply Steady.bind
      · apply steady_accept
        intro b blank
        rw [if_neg]
        intro within
        have above := UInt8.le_trans (high range (List.mem_cons_self ..)) within.1
        simp only [isBlank, Bool.or_eq_true, decide_eq_true_eq] at blank
        rcases blank with ((rfl | rfl) | rfl) | rfl <;> exact absurd above (by decide)
      · intro b
        exact (ih fun range mem => high range (List.mem_cons_of_mem _ mem)).bind fun more => steady_pure _

theorem high_of_following {b : UInt8} {ranges : List (UInt8 × UInt8)} (follow : following b = some ranges) :
    ∀ range ∈ ranges, 0x80 ≤ range.1 := by
  unfold following at follow
  split_ifs at follow <;> (cases follow; simp)

theorem steady_scanChar (b : UInt8) : Steady (scanChar b) := by
  unfold scanChar
  split
  · exact steady_pure _
  · split
    · apply Steady.bind
      · apply steady_accept
        intro e blank
        obtain ⟨none, ne⟩ := escaped_of_blank e blank
        rw [if_neg ne, none, Option.map_none]
      · intro escape
        cases escape with
        | none => exact steady_scanCodepoint.bind fun codepoint => steady_pure _
        | some c => exact steady_pure _
    · split
      · exact steady_failure
      · rename_i ranges follow
        exact (steady_nextBytesInRange (high_of_following follow)).bind fun more => steady_pure _

theorem local_scanString : Local scanString := by
  intro text
  fun_induction scanString text with
  | case1 =>
      intro s rest run
      cases run
  | case2 b rest fails =>
      intro s rest' run
      cases run
  | case3 b rest rest' closes =>
      intro s rest'' run
      cases run
      obtain ⟨read, rfl, again⟩ := local_scanChar b rest _ rest' closes
      exact ⟨b :: read, rfl, fun more => scanString_of_close (again more)⟩
  | case4 b rest bytes rest' reads ih =>
      intro s rest'' run
      obtain ⟨⟨s', left⟩, inner, eq⟩ := Option.map_eq_some_iff.mp run
      cases eq
      obtain ⟨read, rfl, again⟩ := local_scanChar b rest _ rest' reads
      obtain ⟨later, rfl, finish⟩ := ih s' rest'' inner
      refine ⟨b :: (read ++ later), by simp, ?_⟩
      intro more
      rw [List.cons_append, List.append_assoc, scanString_of_char (again (later ++ more)), finish]
      rfl

/-- White space never closes a string. -/
theorem scanString_blanks {after : Bytes} (blank : ∀ b ∈ after, isBlank b) : scanString after = none := by
  induction after with
  | nil => rw [scanString]
  | cons b more ih =>
      have rest := ih fun c mem => blank c (List.mem_cons_of_mem b mem)
      have first := blank b (List.mem_cons_self ..)
      have apart : b ≠ 0x22 ∧ b ≠ 0x5C := by
        simp only [isBlank, Bool.or_eq_true, decide_eq_true_eq] at first
        rcases first with ((rfl | rfl) | rfl) | rfl <;> decide
      rcases following_of_blank first with none | rfl
      · apply scanString_of_none
        rw [scanChar, if_neg apart.1, if_neg apart.2, none]
        rfl
      · have space : scanChar 0x20 more = some (some [0x20], more) := rfl
        rw [scanString_of_char space, rest, Option.map_none]

theorem steady_scanString : Steady scanString := by
  apply local_scanString.steady
  intro text after blank
  fun_induction scanString text with
  | case1 => exact fun _ => scanString_blanks blank
  | case2 b rest fails => exact fun _ => scanString_of_none ((steady_scanChar b rest after blank).1 fails)
  | case3 b rest rest' closes =>
      intro fails
      cases fails
  | case4 b rest bytes rest' reads ih =>
      intro fails
      rw [List.cons_append, scanString_of_char ((local_scanChar b).append reads after),
        ih (Option.map_eq_none_iff.mp fails), Option.map_none]

/-! ## Numbers -/

/-- A byte that no number goes on with. -/
def Ends (b : UInt8) : Prop := ∀ state : NumberState, state.next b = none

theorem ends_of_blank {b : UInt8} (blank : isBlank b = true) : Ends b := by
  simp only [isBlank, Bool.or_eq_true, decide_eq_true_eq] at blank
  intro state
  rcases blank with ((rfl | rfl) | rfl) | rfl <;> cases state <;> rfl

theorem scanDigits_text {state : NumberState} {type type' : NumberType} {text buffer rest : Bytes}
    (scans : scanDigits state type text = some (buffer, type', rest)) : text = buffer ++ rest := by
  induction text generalizing state type buffer with
  | nil =>
      rw [scanDigits] at scans
      split at scans <;> cases scans
      rfl
  | cons b more ih =>
      rw [scanDigits] at scans
      split at scans
      · obtain ⟨⟨buffer', type'', rest'⟩, inner, eq⟩ := Option.map_eq_some_iff.mp scans
        cases eq
        rw [ih inner, List.cons_append]
      · split at scans <;> cases scans
        rfl

/-- A number ends where it did, unless it ended with the text and what comes now goes on with it. -/
theorem scanDigits_append {state : NumberState} {type type' : NumberType} {text buffer rest more : Bytes}
    (scans : scanDigits state type text = some (buffer, type', rest)) (ends : rest = [] → ∀ b ∈ more.head?, Ends b) :
    scanDigits state type (text ++ more) = some (buffer, type', rest ++ more) := by
  induction text generalizing state type buffer with
  | nil =>
      rw [scanDigits] at scans
      split at scans
      · rename_i done
        cases scans
        cases more with
        | nil => rw [List.append_nil, scanDigits, if_pos done]
        | cons b later =>
            have stop : state.next b = none := ends rfl b rfl state
            rw [List.nil_append, scanDigits, stop]
            exact if_pos done
      · cases scans
  | cons b later ih =>
      rw [scanDigits] at scans
      rw [List.cons_append, scanDigits]
      split at scans
      · obtain ⟨⟨buffer', type'', rest'⟩, inner, eq⟩ := Option.map_eq_some_iff.mp scans
        cases eq
        rw [ih inner]
        rfl
      · split at scans
        · rename_i done
          cases scans
          rw [if_pos done]
          rfl
        · cases scans

theorem scanDigits_blanks {state : NumberState} {type : NumberType} {text after : Bytes}
    (blank : ∀ b ∈ after, isBlank b) (fails : scanDigits state type text = none) :
    scanDigits state type (text ++ after) = none := by
  induction text generalizing state type with
  | nil =>
      rw [scanDigits] at fails
      split at fails
      · cases fails
      · rename_i unfinished
        cases after with
        | nil => rw [List.append_nil, scanDigits, if_neg unfinished]
        | cons b more =>
            rw [List.nil_append, scanDigits, ends_of_blank (blank b (List.mem_cons_self ..)) state]
            exact if_neg unfinished
  | cons b later ih =>
      rw [scanDigits] at fails
      rw [List.cons_append, scanDigits]
      split at fails
      · rw [ih (Option.map_eq_none_iff.mp fails), Option.map_none]
      · split at fails
        · cases fails
        · rename_i unfinished
          exact if_neg unfinished

/-! ## Tokens -/

def Token.isNumber : Token → Bool
  | .valueUnsigned _ | .valueInteger _ | .valueFloat _ => true
  | _ => false

theorem isNumber_numberToken (type : NumberType) (buffer : Bytes) : (numberToken type buffer).isNumber = true := by
  cases type with
  | unsigned =>
      rw [numberToken]
      split <;> rfl
  | integer =>
      rw [numberToken]
      split <;> rfl
  | float => rfl

theorem local_scanLiteral (expected : Bytes) (token : Token) : Local (scanLiteral expected token) :=
  (local_expect expected).bind fun _ => local_pure token

theorem steady_scanLiteral {expected : Bytes} (letters : expected.any isBlank = false) (token : Token) :
    Steady (scanLiteral expected token) := (steady_expect letters).bind fun _ => steady_pure token

theorem local_scanToken {b : UInt8} (other : ¬ (b = 0x2D ∨ isDigit b = true)) : Local (scanToken b) := by
  unfold scanToken
  iterate 6 refine .ite (fun _ => local_pure _) fun _ => ?_
  iterate 3 refine .ite (fun _ => local_scanLiteral _ _) fun _ => ?_
  refine .ite (fun _ => local_scanString.bind fun s => local_pure _) fun _ => ?_
  refine .ite (fun number => absurd number other) fun _ => ?_
  exact .ite (fun _ => local_pure _) fun _ => local_failure

theorem scanToken_of_number {b : UInt8} (number : b = 0x2D ∨ isDigit b = true) : scanToken b = scanNumber b := by
  have apart : ∀ c : UInt8, ¬ (c = 0x2D ∨ isDigit c = true) → b ≠ c := by
    rintro c other rfl
    exact other number
  unfold scanToken
  rw [if_neg (apart _ (by decide)), if_neg (apart _ (by decide)), if_neg (apart _ (by decide)), if_neg (apart _ (by decide)),
    if_neg (apart _ (by decide)), if_neg (apart _ (by decide)), if_neg (apart _ (by decide)), if_neg (apart _ (by decide)),
    if_neg (apart _ (by decide)), if_neg (apart _ (by decide)), if_pos number]

theorem scanNumber_append {b : UInt8} {text rest more : Bytes} {token : Token} (scans : scanNumber b text = some (token, rest))
    (ends : token.isNumber = true → rest = [] → ∀ b ∈ more.head?, Ends b) :
    scanNumber b (text ++ more) = some (token, rest ++ more) := by
  rw [scanNumber] at scans ⊢
  obtain ⟨⟨buffer, type, rest'⟩, inner, eq⟩ := Option.map_eq_some_iff.mp scans
  cases eq
  rw [scanDigits_append inner (ends (isNumber_numberToken _ _))]
  rfl

theorem steady_scanNumber (b : UInt8) : Steady (scanNumber b) := by
  intro text after blank
  constructor
  · intro fails
    rw [scanNumber, Option.map_eq_none_iff] at fails ⊢
    exact scanDigits_blanks blank fails
  · intro token rest scans
    refine ⟨after, blank, scanNumber_append scans ?_⟩
    intro _ _ c first
    exact ends_of_blank (blank c (List.mem_of_mem_head? first))

theorem steady_scanToken (b : UInt8) : Steady (scanToken b) := by
  unfold scanToken
  iterate 6 refine .ite (fun _ => steady_pure _) fun _ => ?_
  iterate 3 refine .ite (fun _ => steady_scanLiteral rfl _) fun _ => ?_
  refine .ite (fun _ => steady_scanString.bind fun s => steady_pure _) fun _ => ?_
  refine .ite (fun _ => steady_scanNumber b) fun _ => ?_
  exact .ite (fun _ => steady_pure _) fun _ => steady_failure

section
variable {b : UInt8} {text rest more after : Bytes} {token : Token}

theorem scanToken_append (scans : scanToken b text = some (token, rest))
    (ends : token.isNumber = true → rest = [] → ∀ b ∈ more.head?, Ends b) :
    scanToken b (text ++ more) = some (token, rest ++ more) := by
  by_cases number : b = 0x2D ∨ isDigit b = true
  · rw [scanToken_of_number number] at scans ⊢
    exact scanNumber_append scans ends
  · exact (local_scanToken number).append scans more

theorem scanToken_shorter (scans : scanToken b text = some (token, rest)) : rest.length ≤ text.length := by
  by_cases number : b = 0x2D ∨ isDigit b = true
  · rw [scanToken_of_number number, scanNumber] at scans
    obtain ⟨⟨buffer, type, rest'⟩, inner, eq⟩ := Option.map_eq_some_iff.mp scans
    cases eq
    rw [scanDigits_text inner]
    simp
  · exact (local_scanToken number).shorter scans

/-- The end of the text is a token of no length. -/
theorem scan_shorter (scans : scan text = some (token, rest)) :
    rest.length < text.length ∨ (token = .endOfInput ∧ rest = []) := by
  induction text with
  | nil =>
      cases scans
      exact .inr ⟨rfl, rfl⟩
  | cons b more ih =>
      rw [scan] at scans
      rw [List.length_cons]
      split at scans
      · exact (ih scans).imp_left Nat.lt_succ_of_lt
      · exact .inl (Nat.lt_succ_of_le (scanToken_shorter scans))

theorem scan_blank (blank : ∀ b ∈ after, isBlank b) (text : Bytes) : scan (after ++ text) = scan text := by
  induction after with
  | nil => rfl
  | cons b more ih =>
      rw [List.cons_append, scan, if_pos (blank b (List.mem_cons_self ..))]
      exact ih fun c mem => blank c (List.mem_cons_of_mem b mem)

theorem scan_blanks (blank : ∀ b ∈ after, isBlank b) : scan after = some (.endOfInput, []) := by
  rw [← List.append_nil after, scan_blank blank]
  rfl

/-- A token that does not reach the end of the text is there whatever comes behind the text. -/
theorem scan_append (scans : scan text = some (token, rest))
    (ends : rest = [] → token ≠ .endOfInput ∧ (token.isNumber = true → ∀ b ∈ more.head?, Ends b)) :
    scan (text ++ more) = some (token, rest ++ more) := by
  induction text with
  | nil =>
      cases scans
      exact absurd rfl (ends rfl).1
  | cons b later ih =>
      rw [scan] at scans
      rw [List.cons_append, scan]
      by_cases blank : isBlank b = true
      · rw [if_pos blank] at scans ⊢
        exact ih scans
      · rw [if_neg blank] at scans ⊢
        exact scanToken_append scans fun number last => (ends last).2 number

end

theorem steady_scan : Steady scan := by
  intro text after blank
  induction text with
  | nil =>
      constructor
      · intro fails
        cases fails
      · intro token rest scans
        cases scans
        exact ⟨[], by simp, scan_blanks blank⟩
  | cons b later ih =>
      rw [List.cons_append, scan, scan]
      split
      · exact ih
      · exact steady_scanToken b later after blank

end Foundation.Json
