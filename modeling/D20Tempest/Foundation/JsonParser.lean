import D20Tempest.Foundation.JsonTokens

namespace Foundation.Json
open Scanner

/-! ## The parser -/

/-- An array or object that is being parsed, with the key of the member that comes next. -/
inductive Frame where
  | array (elements : List Json)
  | object (members : List (Bytes × Json)) (key : Bytes)

/-- A turn of the loop begins with the last token, or with a value that belongs into the innermost frame. -/
inductive Position where
  | value (token : Token) (frames : List Frame)
  | evaluate (j : Json) (frames : List Frame)

def parseMember (members : List (Bytes × Json)) (frames : List Frame) : Token → Scanner Position
  | .valueString key => do
      if (← scan) = .nameSeparator then
        let token ← scan
        return .value token (.object members key :: frames)
      else failure
  | _ => failure

section
variable (strtod : Bytes → Option Rat)

/-- One turn of the loop of `sax_parse_internal`, which goes on or returns. What `strtod` does not have is a number
that overflows. -/
def parseStep : Position → Scanner (Position ⊕ Json)
  | .value token frames => match token with
      | .beginObject => do
          let token ← scan
          if token = .endObject then return .inl (.evaluate (.object []) frames)
          else .inl <$> parseMember [] frames token
      | .beginArray => do
          let token ← scan
          if token = .endArray then return .inl (.evaluate (.array []) frames)
          else return .inl (.value token (.array [] :: frames))
      | .valueFloat buffer => match strtod buffer with
          | some x => return .inl (.evaluate (.float x) frames)
          | none => failure
      | .literalFalse => return .inl (.evaluate (.boolean false) frames)
      | .literalNull => return .inl (.evaluate .null frames)
      | .literalTrue => return .inl (.evaluate (.boolean true) frames)
      | .valueInteger i => return .inl (.evaluate (.integer i) frames)
      | .valueString s => return .inl (.evaluate (.string s) frames)
      | .valueUnsigned n => return .inl (.evaluate (.unsigned n) frames)
      | _ => failure
  | .evaluate j [] => return .inr j
  | .evaluate j (.array elements :: frames) => do
      let token ← scan
      if token = .valueSeparator then
        let token ← scan
        return .inl (.value token (.array (elements ++ [j]) :: frames))
      else if token = .endArray then return .inl (.evaluate (.array (elements ++ [j])) frames)
      else failure
  | .evaluate j (.object members key :: frames) => do
      let token ← scan
      if token = .valueSeparator then
        let token ← scan
        .inl <$> parseMember (Assoc.assign key j members) frames token
      else if token = .endObject then return .inl (.evaluate (.object (Assoc.assign key j members)) frames)
      else failure

end

/-! ## Turns by their tokens -/

inductive Scans : Bytes → List Token → Bytes → Prop
  | nil {text : Bytes} : Scans text [] text
  | cons {text mid rest : Bytes} {token : Token} {tokens : List Token} :
      scan text = some (token, mid) → Scans mid tokens rest → Scans text (token :: tokens) rest

def scalar (strtod : Bytes → Option Rat) : Token → Option Json
  | .literalTrue => some (.boolean true)
  | .literalFalse => some (.boolean false)
  | .literalNull => some .null
  | .valueString s => some (.string s)
  | .valueUnsigned n => some (.unsigned n)
  | .valueInteger i => some (.integer i)
  | .valueFloat buffer => (strtod buffer).map .float
  | _ => none

/-- A turn of the loop, with the tokens it takes. -/
inductive Turns (strtod : Bytes → Option Rat) : Position → List Token → Position → Prop
  | scalar {token : Token} {j : Json} {frames : List Frame} (reads : scalar strtod token = some j) :
      Turns strtod (.value token frames) [] (.evaluate j frames)
  | emptyObject {frames : List Frame} :
      Turns strtod (.value .beginObject frames) [.endObject] (.evaluate (.object []) frames)
  | firstMember {frames : List Frame} {key : Bytes} {token : Token} :
      Turns strtod (.value .beginObject frames) [.valueString key, .nameSeparator, token]
        (.value token (.object [] key :: frames))
  | emptyArray {frames : List Frame} :
      Turns strtod (.value .beginArray frames) [.endArray] (.evaluate (.array []) frames)
  | firstElement {frames : List Frame} {token : Token} (opens : token ≠ .endArray) :
      Turns strtod (.value .beginArray frames) [token] (.value token (.array [] :: frames))
  | nextElement {j : Json} {elements : List Json} {frames : List Frame} {token : Token} :
      Turns strtod (.evaluate j (.array elements :: frames)) [.valueSeparator, token]
        (.value token (.array (elements ++ [j]) :: frames))
  | lastElement {j : Json} {elements : List Json} {frames : List Frame} :
      Turns strtod (.evaluate j (.array elements :: frames)) [.endArray] (.evaluate (.array (elements ++ [j])) frames)
  | nextMember {j : Json} {members : List (Bytes × Json)} {key next : Bytes} {frames : List Frame} {token : Token} :
      Turns strtod (.evaluate j (.object members key :: frames)) [.valueSeparator, .valueString next, .nameSeparator, token]
        (.value token (.object (Assoc.assign key j members) next :: frames))
  | lastMember {j : Json} {members : List (Bytes × Json)} {key : Bytes} {frames : List Frame} :
      Turns strtod (.evaluate j (.object members key :: frames)) [.endObject]
        (.evaluate (.object (Assoc.assign key j members)) frames)

section
variable {strtod : Bytes → Option Rat} {text mid rest : Bytes} {tokens more : List Token} {token : Token}
  {p next : Position} {frames : List Frame} {members : List (Bytes × Json)} {j : Json}

theorem scans_cons_iff : Scans text (token :: tokens) rest ↔ ∃ mid, scan text = some (token, mid) ∧ Scans mid tokens rest := by
  constructor
  · intro scans
    cases scans with
    | cons first later => exact ⟨_, first, later⟩
  · intro scans
    obtain ⟨mid, first, later⟩ := scans
    exact .cons first later

theorem scans_nil_iff : Scans text [] rest ↔ text = rest := by
  constructor
  · intro scans
    cases scans
    rfl
  · rintro rfl
    exact .nil

theorem parseMember_iff : parseMember members frames token text = some (next, rest) ↔
    ∃ key token', token = .valueString key ∧ next = .value token' (.object members key :: frames) ∧
      Scans text [.nameSeparator, token'] rest := by
  cases token with
  | valueString key =>
      simp only [parseMember, bind_eq_some, scans_cons_iff, scans_nil_iff]
      constructor
      · intro reads
        obtain ⟨first, mid, scans, reads⟩ := reads
        split at reads
        · rename_i separator
          obtain ⟨token', mid', scans', reads⟩ := bind_eq_some.mp reads
          cases reads
          exact ⟨key, token', rfl, rfl, mid, separator ▸ scans, rest, scans', rfl⟩
        · cases reads
      · intro reads
        obtain ⟨key', token', same, rfl, mid, scans, mid', scans', rfl⟩ := reads
        cases same
        refine ⟨.nameSeparator, mid, scans, ?_⟩
        rw [if_pos rfl, bind_of_some scans']
        rfl
  | _ =>
      simp only [parseMember, failure_apply]
      simp

theorem parseStep_of_turns {tokens : List Token} (turns : Turns strtod p tokens next) (scans : Scans text tokens rest) :
    parseStep strtod p text = some (.inl next, rest) := by
  cases turns with
  | @scalar token j frames reads =>
      obtain rfl := scans_nil_iff.mp scans
      cases token with
      | valueFloat buffer =>
          obtain ⟨x, eq, rfl⟩ := Option.map_eq_some_iff.mp reads
          rw [parseStep, eq]
          rfl
      | literalTrue | literalFalse | literalNull | valueString | valueUnsigned | valueInteger =>
          cases reads
          rfl
      | _ => cases reads
  | emptyObject =>
      obtain ⟨mid, closes, scans⟩ := scans_cons_iff.mp scans
      obtain rfl := scans_nil_iff.mp scans
      rw [parseStep, bind_of_some closes, if_pos rfl]
      rfl
  | firstMember =>
      obtain ⟨mid, opens, scans⟩ := scans_cons_iff.mp scans
      rw [parseStep, bind_of_some opens, if_neg (by simp)]
      exact map_eq_some.mpr ⟨_, parseMember_iff.mpr ⟨_, _, rfl, rfl, scans⟩, rfl⟩
  | emptyArray =>
      obtain ⟨mid, closes, scans⟩ := scans_cons_iff.mp scans
      obtain rfl := scans_nil_iff.mp scans
      rw [parseStep, bind_of_some closes, if_pos rfl]
      rfl
  | firstElement opens =>
      obtain ⟨mid, first, scans⟩ := scans_cons_iff.mp scans
      obtain rfl := scans_nil_iff.mp scans
      rw [parseStep, bind_of_some first, if_neg opens]
      rfl
  | nextElement =>
      obtain ⟨mid, separator, scans⟩ := scans_cons_iff.mp scans
      obtain ⟨mid', first, scans⟩ := scans_cons_iff.mp scans
      obtain rfl := scans_nil_iff.mp scans
      rw [parseStep, bind_of_some separator, if_pos rfl, bind_of_some first]
      rfl
  | lastElement =>
      obtain ⟨mid, closes, scans⟩ := scans_cons_iff.mp scans
      obtain rfl := scans_nil_iff.mp scans
      rw [parseStep, bind_of_some closes, if_neg (by simp), if_pos rfl]
      rfl
  | nextMember =>
      obtain ⟨mid, separator, scans⟩ := scans_cons_iff.mp scans
      obtain ⟨mid', name, scans⟩ := scans_cons_iff.mp scans
      rw [parseStep, bind_of_some separator, if_pos rfl, bind_of_some name]
      exact map_eq_some.mpr ⟨_, parseMember_iff.mpr ⟨_, _, rfl, rfl, scans⟩, rfl⟩
  | lastMember =>
      obtain ⟨mid, closes, scans⟩ := scans_cons_iff.mp scans
      obtain rfl := scans_nil_iff.mp scans
      rw [parseStep, bind_of_some closes, if_neg (by simp), if_pos rfl]
      rfl

/-- A turn goes on as a turn of the tokens that it took, or the value is complete. -/
theorem parseStep_cases {out : Position ⊕ Json} (step : parseStep strtod p text = some (out, rest)) :
    (∃ next tokens, out = .inl next ∧ Turns strtod p tokens next ∧ Scans text tokens rest) ∨
      ∃ j, out = .inr j ∧ p = .evaluate j [] ∧ text = rest := by
  cases p with
  | value token frames =>
      apply Or.inl
      cases token with
      | beginObject =>
          obtain ⟨first, mid, scans, step⟩ := bind_eq_some.mp step
          split at step
          · rename_i closes
            cases step
            exact ⟨_, _, rfl, .emptyObject, .cons (closes ▸ scans) .nil⟩
          · obtain ⟨position, member, rfl⟩ := map_eq_some.mp step
            obtain ⟨key, token', rfl, rfl, later⟩ := parseMember_iff.mp member
            exact ⟨_, _, rfl, .firstMember, .cons scans later⟩
      | beginArray =>
          obtain ⟨first, mid, scans, step⟩ := bind_eq_some.mp step
          split at step
          · rename_i closes
            cases step
            exact ⟨_, _, rfl, .emptyArray, .cons (closes ▸ scans) .nil⟩
          · rename_i opens
            cases step
            exact ⟨_, _, rfl, .firstElement opens, .cons scans .nil⟩
      | valueFloat buffer =>
          rw [parseStep] at step
          cases number : strtod buffer with
          | none =>
              rw [number] at step
              cases step
          | some x =>
              rw [number] at step
              cases step
              exact ⟨_, _, rfl, .scalar (by rw [scalar, number]; rfl), .nil⟩
      | literalTrue | literalFalse | literalNull | valueString | valueUnsigned | valueInteger =>
          cases step
          exact ⟨_, _, rfl, .scalar rfl, .nil⟩
      | _ => cases step
  | evaluate j frames =>
      cases frames with
      | nil =>
          cases step
          exact .inr ⟨j, rfl, rfl, rfl⟩
      | cons frame frames =>
          apply Or.inl
          cases frame with
          | array elements =>
              obtain ⟨first, mid, scans, step⟩ := bind_eq_some.mp step
              split at step
              · rename_i separator
                obtain ⟨token, mid', scans', step⟩ := bind_eq_some.mp step
                cases step
                exact ⟨_, _, rfl, .nextElement, .cons (separator ▸ scans) (.cons scans' .nil)⟩
              · split at step
                · rename_i closes
                  cases step
                  exact ⟨_, _, rfl, .lastElement, .cons (closes ▸ scans) .nil⟩
                · cases step
          | object members key =>
              obtain ⟨first, mid, scans, step⟩ := bind_eq_some.mp step
              split at step
              · rename_i separator
                obtain ⟨token, mid', scans', step⟩ := bind_eq_some.mp step
                obtain ⟨position, member, rfl⟩ := map_eq_some.mp step
                obtain ⟨next, token', rfl, rfl, later⟩ := parseMember_iff.mp member
                exact ⟨_, _, rfl, .nextMember, .cons (separator ▸ scans) (.cons scans' later)⟩
              · split at step
                · rename_i closes
                  cases step
                  exact ⟨_, _, rfl, .lastMember, .cons (closes ▸ scans) .nil⟩
                · cases step

/-! ## The loop -/

/-- What is still to be done: a text, and a turn for a value that ends it. -/
def Position.size (rest : Bytes) : Position → Nat
  | .value token _ => 2 * rest.length + if token = .endOfInput then 0 else 2
  | .evaluate _ _ => 2 * rest.length + 1

theorem scan_size (scans : scan text = some (token, rest)) (closed : token ≠ .endOfInput) : rest.length < text.length :=
  (scan_shorter scans).resolve_right fun last => closed last.1

theorem scan_size_value (scans : scan text = some (token, rest)) (frames : List Frame) :
    (Position.value token frames).size rest ≤ 2 * text.length := by
  rcases scan_shorter scans with shorter | ⟨rfl, rfl⟩
  · simp only [Position.size]
    split <;> omega
  · simp [Position.size]

theorem size_value (frames : List Frame) (text : Bytes) (closed : token ≠ .endOfInput) :
    (Position.value token frames).size text = 2 * text.length + 2 := by
  rw [Position.size, if_neg closed]

theorem Turns.shorter (turns : Turns strtod p tokens next) (scans : Scans text tokens rest) : next.size rest < p.size text := by
  cases turns with
  | @scalar token j frames reads =>
      obtain rfl := scans_nil_iff.mp scans
      have closed : token ≠ .endOfInput := by
        rintro rfl
        cases reads
      rw [size_value _ _ closed, Position.size]
      omega
  | emptyObject | emptyArray =>
      obtain ⟨mid, closes, scans⟩ := scans_cons_iff.mp scans
      obtain rfl := scans_nil_iff.mp scans
      have shorter := scan_size closes (by simp)
      rw [size_value _ _ (by simp), Position.size]
      omega
  | lastElement | lastMember =>
      obtain ⟨mid, closes, scans⟩ := scans_cons_iff.mp scans
      obtain rfl := scans_nil_iff.mp scans
      have shorter := scan_size closes (by simp)
      simp only [Position.size]
      omega
  | @firstElement frames token =>
      obtain ⟨mid, first, scans⟩ := scans_cons_iff.mp scans
      obtain rfl := scans_nil_iff.mp scans
      have shorter := scan_size_value first (.array [] :: frames)
      rw [size_value _ _ (show Token.beginArray ≠ .endOfInput by simp)]
      omega
  | @firstMember frames key token =>
      obtain ⟨mid, name, scans⟩ := scans_cons_iff.mp scans
      obtain ⟨after, separator, scans⟩ := scans_cons_iff.mp scans
      obtain ⟨last, first, scans⟩ := scans_cons_iff.mp scans
      obtain rfl := scans_nil_iff.mp scans
      have nameShorter := scan_size name (by simp)
      have separatorShorter := scan_size separator (by simp)
      have shorter := scan_size_value first (.object [] key :: frames)
      rw [size_value _ _ (show Token.beginObject ≠ .endOfInput by simp)]
      omega
  | @nextElement j elements frames token =>
      obtain ⟨mid, separator, scans⟩ := scans_cons_iff.mp scans
      obtain ⟨last, first, scans⟩ := scans_cons_iff.mp scans
      obtain rfl := scans_nil_iff.mp scans
      have separatorShorter := scan_size separator (by simp)
      have shorter := scan_size_value first (.array (elements ++ [j]) :: frames)
      rw [Position.size.eq_2]
      omega
  | @nextMember j members key next frames token =>
      obtain ⟨mid, separator, scans⟩ := scans_cons_iff.mp scans
      obtain ⟨after, name, scans⟩ := scans_cons_iff.mp scans
      obtain ⟨behind, colon, scans⟩ := scans_cons_iff.mp scans
      obtain ⟨last, first, scans⟩ := scans_cons_iff.mp scans
      obtain rfl := scans_nil_iff.mp scans
      have separatorShorter := scan_size separator (by simp)
      have nameShorter := scan_size name (by simp)
      have colonShorter := scan_size colon (by simp)
      have shorter := scan_size_value first (.object (Assoc.assign key j members) next :: frames)
      rw [Position.size.eq_2]
      omega

theorem parseStep_shorter (step : parseStep strtod p text = some (.inl next, rest)) : next.size rest < p.size text := by
  rcases parseStep_cases step with ⟨_, tokens, eq, turns, scans⟩ | ⟨_, eq, -⟩
  · cases eq
    exact turns.shorter scans
  · cases eq

end

/-- `sax_parse_internal` from any turn of its loop. -/
def parseLoop (strtod : Bytes → Option Rat) (p : Position) : Scanner Json := fun text =>
  match _step : parseStep strtod p text with
  | none => none
  | some (.inr j, rest) => some (j, rest)
  | some (.inl next, rest) => parseLoop strtod next rest
termination_by text => p.size text
decreasing_by exact parseStep_shorter _step

def parser (strtod : Bytes → Option Rat) (strict : Bool) : Scanner Json := do
  skipBom
  let token ← scan
  let j ← parseLoop strtod (.value token [])
  if strict then
    if (← scan) = .endOfInput then return j else failure
  else return j

/-- `parser::parse`: nothing for an error. Only the strict parser wants the text to end with the value. -/
def parse (strtod : Bytes → Option Rat) (strict : Bool) (text : Bytes) : Option Json := (parser strtod strict text).map Prod.fst

section
variable {strtod : Bytes → Option Rat} {text rest : Bytes} {p next : Position} {j : Json}

theorem parseLoop_next (step : parseStep strtod p text = some (.inl next, rest)) :
    parseLoop strtod p text = parseLoop strtod next rest := by
  rw [parseLoop]
  split <;> simp_all

theorem parseLoop_none (step : parseStep strtod p text = none) : parseLoop strtod p text = none := by
  rw [parseLoop]
  split <;> simp_all

theorem parseLoop_evaluate (strtod : Bytes → Option Rat) (j : Json) (text : Bytes) :
    parseLoop strtod (.evaluate j []) text = some (j, text) := by
  rw [parseLoop]
  rfl

end

end Foundation.Json
