import D20Tempest.Foundation.JsonText

namespace Foundation.Json
open Scanner

section
variable {strtod : Bytes → Option Rat} {text mid rest : Bytes} {j : Json} {p next : Position} {tokens : List Token}

theorem parseLoop_return (step : parseStep strtod p text = some (.inr j, rest)) : parseLoop strtod p text = some (j, rest) := by
  rw [parseLoop]
  split <;> simp_all

/-! ## White space around a text -/

theorem steady_parseMember (members : List (Bytes × Json)) (frames : List Frame) (token : Token) :
    Steady (parseMember members frames token) := by
  cases token with
  | valueString key =>
      apply steady_scan.bind
      intro separator
      exact .ite (fun _ => steady_scan.bind fun token => steady_pure _) fun _ => steady_failure
  | _ => exact steady_failure

theorem steady_parseStep (strtod : Bytes → Option Rat) (p : Position) : Steady (parseStep strtod p) := by
  cases p with
  | value token frames =>
      cases token with
      | beginObject =>
          apply steady_scan.bind
          intro token
          exact .ite (fun _ => steady_pure _) fun _ => (steady_parseMember [] frames token).map _
      | beginArray =>
          apply steady_scan.bind
          intro token
          exact .ite (fun _ => steady_pure _) fun _ => steady_pure _
      | valueFloat buffer =>
          rw [parseStep]
          cases strtod buffer with
          | none => exact steady_failure
          | some x => exact steady_pure _
      | literalTrue | literalFalse | literalNull | valueString | valueUnsigned | valueInteger => exact steady_pure _
      | _ => exact steady_failure
  | evaluate j frames =>
      cases frames with
      | nil => exact steady_pure _
      | cons frame frames =>
          cases frame with
          | array elements =>
              apply steady_scan.bind
              intro token
              apply Steady.ite
              · exact fun _ => steady_scan.bind fun token => steady_pure _
              · exact fun _ => .ite (fun _ => steady_pure _) fun _ => steady_failure
          | object members key =>
              apply steady_scan.bind
              intro token
              apply Steady.ite
              · exact fun _ => steady_scan.bind fun token => (steady_parseMember _ frames token).map _
              · exact fun _ => .ite (fun _ => steady_pure _) fun _ => steady_failure

theorem steady_parseLoop (strtod : Bytes → Option Rat) (p : Position) : Steady (parseLoop strtod p) := by
  intro text after blank
  fun_induction parseLoop strtod p text generalizing after with
  | case1 p text fails =>
      refine ⟨fun _ => parseLoop_none ((steady_parseStep strtod p text after blank).1 fails), ?_⟩
      intro j rest run
      cases run
  | case2 p text j rest returns =>
      obtain ⟨left, blankLeft, again⟩ := (steady_parseStep strtod p text after blank).2 _ rest returns
      refine ⟨fun fails => (by cases fails), ?_⟩
      intro j' rest' run
      cases run
      exact ⟨left, blankLeft, parseLoop_return again⟩
  | case3 p text next mid goes ih =>
      obtain ⟨left, blankLeft, again⟩ := (steady_parseStep strtod p text after blank).2 _ mid goes
      rw [parseLoop_next again]
      exact ih left blankLeft

theorem steady_skipBom : Steady skipBom := by
  intro text after blank
  have head : ∀ b ∈ after.head?, b ≠ 0xEF := by
    rintro b mem rfl
    cases blank _ (List.mem_of_mem_head? mem)
  cases text with
  | nil =>
      have again := skipBom_of_head after fun mark => head _ mark rfl
      refine ⟨fun fails => (by cases fails), ?_⟩
      intro u rest run
      cases run
      exact ⟨after, blank, again⟩
  | cons b more =>
      by_cases mark : b = 0xEF
      · subst mark
        have marked : Steady (expect [0xBB, 0xBF]) := steady_expect rfl
        exact marked more after blank
      · have plain : ∀ more, skipBom (b :: more) = some ((), b :: more) :=
          fun more => skipBom_of_head _ fun first => mark (Option.some.inj first)
        rw [plain, List.cons_append, plain]
        exact steady_pure () (b :: more) after blank

theorem steady_parsing (strtod : Bytes → Option Rat) (strict : Bool) : Steady (parser strtod strict) := by
  apply steady_skipBom.bind
  intro _
  apply steady_scan.bind
  intro token
  apply (steady_parseLoop strtod _).bind
  intro j
  apply Steady.ite
  · intro _
    apply steady_scan.bind
    intro token
    exact .ite (fun _ => steady_pure _) fun _ => steady_failure
  · exact fun _ => steady_pure _

theorem parse_after (strtod : Bytes → Option Rat) (strict : Bool) (text : Bytes) {after : Bytes} (blank : ∀ b ∈ after, isBlank b) :
    parse strtod strict (text ++ after) = parse strtod strict text := by
  obtain ⟨fails, returns⟩ := steady_parsing strtod strict text after blank
  unfold parse
  cases run : parser strtod strict text with
  | none => rw [fails run]
  | some pair =>
      obtain ⟨j, rest⟩ := pair
      obtain ⟨left, -, again⟩ := returns j rest run
      rw [again]
      rfl

theorem parse_before (strtod : Bytes → Option Rat) (strict : Bool) {before : Bytes} (blank : ∀ b ∈ before, isBlank b)
    (text : Bytes) (plain : text.head? ≠ some 0xEF) : parse strtod strict (before ++ text) = parse strtod strict text := by
  have first : (before ++ text).head? ≠ some 0xEF := by
    cases before with
    | nil => exact plain
    | cons b more =>
        intro mark
        cases mark
        cases blank _ (List.mem_cons_self ..)
  unfold parse parser
  rw [bind_of_some (skipBom_of_head _ first), bind_of_some (skipBom_of_head text plain)]
  cases scans : scan text with
  | none => rw [bind_of_none scans, bind_of_none ((scan_blank blank text).trans scans)]
  | some pair =>
      obtain ⟨token, mid⟩ := pair
      rw [bind_of_some scans, bind_of_some ((scan_blank blank text).trans scans)]

/-- White space around a text without a byte order mark makes no difference. -/
theorem parse_blanks (strtod : Bytes → Option Rat) (strict : Bool) {before after : Bytes} (first : ∀ b ∈ before, isBlank b)
    (text : Bytes) (last : ∀ b ∈ after, isBlank b) (plain : text.head? ≠ some 0xEF) :
    parse strtod strict (before ++ text ++ after) = parse strtod strict text := by
  rw [parse_after strtod strict _ last, parse_before strtod strict first text plain]

theorem parse_of_end (strtod : Bytes → Option Rat) (strict : Bool) (ends : scan text = some (.endOfInput, rest)) : parse strtod strict text = none := by
  have stops : parseLoop strtod (.value .endOfInput []) rest = none := parseLoop_none rfl
  rw [parse, parser, bind_of_some (skipBom_of_scan ends), bind_of_some ends, bind_of_none stops, Option.map_none]

/-- A NUL byte is the end of the text. -/
theorem parse_nul (strtod : Bytes → Option Rat) (strict : Bool) (rest : Bytes) : parse strtod strict (0 :: rest) = none :=
  parse_of_end strtod strict (show scan (0 :: rest) = some (.endOfInput, rest) from rfl)

/-! ## What is accepted is well formed -/

theorem utf8Elements_iff {elements : List Json} : utf8Elements elements = true ↔ ∀ j ∈ elements, j.utf8 = true := by
  induction elements with
  | nil => simp [utf8Elements]
  | cons j rest ih => simp [utf8Elements, ih]

/-- A value that can be written, and has its members in order. -/
structure Sound (strtod : Bytes → Option Rat) (j : Json) : Prop where
  utf8 : j.utf8 = true
  built : Built (fun x => ∃ buffer, strtod buffer = some x) j

structure SoundMembers (strtod : Bytes → Option Rat) (members : List (Bytes × Json)) : Prop where
  sorted : Assoc.Sorted members
  each : ∀ m ∈ members, isUtf8 m.1 = true ∧ Sound strtod m.2

theorem sound_array {elements : List Json} (each : ∀ j ∈ elements, Sound strtod j) : Sound strtod (.array elements) where
  utf8 := by
    rw [utf8, utf8Elements_iff]
    exact fun j mem => (each j mem).utf8
  built := by
    rw [Built, builtElements_iff]
    exact fun j mem => (each j mem).built

theorem sound_object {members : List (Bytes × Json)} (sound : SoundMembers strtod members) :
    Sound strtod (.object members) where
  utf8 := by
    rw [utf8, utf8Members_iff]
    exact fun m mem => ⟨(sound.each m mem).1, (sound.each m mem).2.utf8⟩
  built := by
    rw [Built, builtMembers_iff]
    exact ⟨sound.sorted, fun m mem => (sound.each m mem).2.built⟩

theorem soundMembers_nil : SoundMembers strtod [] := ⟨List.Pairwise.nil, by simp⟩

theorem SoundMembers.assign {members : List (Bytes × Json)} (sound : SoundMembers strtod members) {key : Bytes}
    (valid : isUtf8 key = true) (value : Sound strtod j) : SoundMembers strtod (Assoc.assign key j members) where
  sorted := Assoc.sorted_assign key j sound.sorted
  each m mem := by
    rcases Assoc.mem_assign mem with rfl | old
    · exact ⟨valid, value⟩
    · exact sound.each m old

def Frame.Sound (strtod : Bytes → Option Rat) : Frame → Prop
  | .array elements => ∀ j ∈ elements, Json.Sound strtod j
  | .object members key => SoundMembers strtod members ∧ isUtf8 key = true

def Token.Sound (token : Token) : Prop := ∀ s, token = .valueString s → isUtf8 s = true

def Position.Sound (strtod : Bytes → Option Rat) : Position → Prop
  | .value token frames => token.Sound ∧ ∀ frame ∈ frames, frame.Sound strtod
  | .evaluate j frames => Json.Sound strtod j ∧ ∀ frame ∈ frames, frame.Sound strtod

theorem sound_of_isNumber {token : Token} (number : token.isNumber = true) : token.Sound := by
  rintro s rfl
  cases number

theorem yields_scanToken (b : UInt8) : Yields Token.Sound (scanToken b) := by
  have scalar : ∀ token : Token, (∀ s, token ≠ .valueString s) → Yields Token.Sound (pure token) :=
    fun token other => yields_pure fun s eq => absurd eq (other s)
  have literal : ∀ expected (token : Token), (∀ s, token ≠ .valueString s) → Yields Token.Sound (scanLiteral expected token) :=
    fun expected token other => (yields_any _).bind fun _ _ => scalar token other
  unfold scanToken
  iterate 6 refine .ite (fun _ => scalar _ (by simp)) fun _ => ?_
  iterate 3 refine .ite (fun _ => literal _ _ (by simp)) fun _ => ?_
  apply Yields.ite
  · intro _
    have string : Yields (fun s => isUtf8 s = true) scanString := fun text s rest scans => utf8_scanString scans
    exact string.bind fun s valid => yields_pure fun s' eq => Token.valueString.inj eq ▸ valid
  intro _
  apply Yields.ite
  · intro _ text token rest scans
    obtain ⟨⟨buffer, type, rest'⟩, -, eq⟩ := Option.map_eq_some_iff.mp scans
    cases eq
    exact sound_of_isNumber (isNumber_numberToken type (b :: buffer))
  · exact fun _ => .ite (fun _ => scalar _ (by simp)) fun _ => yields_failure

theorem sound_scan {token : Token} (scans : scan text = some (token, rest)) : token.Sound := by
  induction text with
  | nil =>
      cases scans
      intro s eq
      cases eq
  | cons b more ih =>
      rw [scan] at scans
      split at scans
      · exact ih scans
      · exact yields_scanToken b more token rest scans

theorem sound_scalar {token : Token} (sound : token.Sound) (reads : scalar strtod token = some j) : Sound strtod j := by
  cases token with
  | valueString s =>
      cases reads
      exact ⟨sound s rfl, trivial⟩
  | valueFloat buffer =>
      obtain ⟨x, value, rfl⟩ := Option.map_eq_some_iff.mp reads
      exact ⟨rfl, buffer, value⟩
  | literalTrue | literalFalse | literalNull | valueUnsigned | valueInteger =>
      cases reads
      exact ⟨rfl, trivial⟩
  | _ => cases reads

theorem Turns.sound (turns : Turns strtod p tokens next) (read : ∀ token ∈ tokens, token.Sound) (sound : p.Sound strtod) :
    next.Sound strtod := by
  have grown : ∀ {j : Json} {elements : List Json}, Json.Sound strtod j → (∀ j ∈ elements, Json.Sound strtod j) →
      ∀ j' ∈ elements ++ [j], Json.Sound strtod j' := by
    intro j elements value each j' mem
    rcases List.mem_append.mp mem with mem | mem
    · exact each j' mem
    · rwa [List.mem_singleton.mp mem]
  cases turns with
  | scalar reads => exact ⟨sound_scalar sound.1 reads, sound.2⟩
  | emptyObject => exact ⟨sound_object soundMembers_nil, sound.2⟩
  | firstMember =>
      have key := read _ (List.mem_cons_self ..) _ rfl
      exact ⟨read _ (by simp), List.forall_mem_cons.mpr ⟨⟨soundMembers_nil, key⟩, sound.2⟩⟩
  | emptyArray => exact ⟨sound_array (by simp), sound.2⟩
  | firstElement opens => exact ⟨read _ (by simp), List.forall_mem_cons.mpr ⟨by simp [Frame.Sound], sound.2⟩⟩
  | nextElement =>
      obtain ⟨value, frames⟩ := sound
      obtain ⟨elements, frames⟩ := List.forall_mem_cons.mp frames
      exact ⟨read _ (by simp), List.forall_mem_cons.mpr ⟨grown value elements, frames⟩⟩
  | lastElement =>
      obtain ⟨value, frames⟩ := sound
      obtain ⟨elements, frames⟩ := List.forall_mem_cons.mp frames
      exact ⟨sound_array (grown value elements), frames⟩
  | nextMember =>
      obtain ⟨value, frames⟩ := sound
      obtain ⟨members, frames⟩ := List.forall_mem_cons.mp frames
      have key : isUtf8 _ = true := read _ (List.mem_cons_of_mem _ (List.mem_cons_self ..)) _ rfl
      exact ⟨read _ (by simp), List.forall_mem_cons.mpr ⟨⟨members.1.assign members.2 value, key⟩, frames⟩⟩
  | lastMember =>
      obtain ⟨value, frames⟩ := sound
      obtain ⟨members, frames⟩ := List.forall_mem_cons.mp frames
      exact ⟨sound_object (members.1.assign members.2 value), frames⟩

theorem Scans.sound (scans : Scans text tokens rest) : ∀ token ∈ tokens, token.Sound := by
  induction scans with
  | nil => simp
  | cons first later ih => exact List.forall_mem_cons.mpr ⟨sound_scan first, ih⟩

theorem sound_parseLoop (sound : p.Sound strtod) (run : parseLoop strtod p text = some (j, rest)) : Json.Sound strtod j := by
  fun_induction parseLoop strtod p text generalizing j rest with
  | case1 => cases run
  | case2 p text j' rest' returns =>
      cases run
      rcases parseStep_cases returns with ⟨next, tokens, eq, -⟩ | ⟨j', eq, rfl, -⟩
      · cases eq
      · cases eq
        exact sound.1
  | case3 p text next mid goes ih =>
      rcases parseStep_cases goes with ⟨next', tokens, eq, turns, scans⟩ | ⟨j', eq, -⟩
      · cases eq
        exact ih (turns.sound scans.sound sound) run
      · cases eq

/-- Whatever is accepted can be written, and has the members of its objects in order. -/
theorem sound_parse {strict : Bool} (parses : parse strtod strict text = some j) : Sound strtod j := by
  obtain ⟨⟨j', rest⟩, run, rfl⟩ := Option.map_eq_some_iff.mp parses
  obtain ⟨_, _, -, run⟩ := bind_eq_some.mp run
  obtain ⟨token, _, scans, run⟩ := bind_eq_some.mp run
  obtain ⟨j'', _, loop, run⟩ := bind_eq_some.mp run
  have sound := sound_parseLoop (p := .value token []) ⟨sound_scan scans, by simp⟩ loop
  cases strict with
  | false =>
      cases run
      exact sound
  | true =>
      rw [if_pos rfl] at run
      obtain ⟨last, _, -, run⟩ := bind_eq_some.mp run
      split at run
      · cases run
        exact sound
      · cases run

/-! ## Beginnings of a text -/

theorem scans_empty (scans : Scans [] tokens rest) : rest = [] ∧ ∀ token ∈ tokens, token = .endOfInput := by
  induction tokens with
  | nil => exact ⟨(scans_nil_iff.mp scans).symm, by simp⟩
  | cons token more ih =>
      obtain ⟨mid, first, later⟩ := scans_cons_iff.mp scans
      cases first
      obtain ⟨eq, ends⟩ := ih later
      exact ⟨eq, List.forall_mem_cons.mpr ⟨rfl, ends⟩⟩

theorem Scans.append_text (scans : Scans text tokens rest) (more : Bytes)
    (ends : rest = [] → ∀ token ∈ tokens, token ≠ .endOfInput ∧ token.isNumber = false) :
    Scans (text ++ more) tokens (rest ++ more) := by
  induction scans with
  | nil => exact .nil
  | @cons text mid rest token tokens first later ih =>
      refine .cons (scan_append first ?_) (ih fun last => (List.forall_mem_cons.mp (ends last)).2)
      rintro rfl
      obtain ⟨last, -⟩ := scans_empty later
      obtain ⟨closed, other⟩ := ends last token (List.mem_cons_self ..)
      refine ⟨closed, fun number => ?_⟩
      rw [other] at number
      cases number

/-- A turn reads marks only, or it goes on with a value inside a frame. -/
theorem Turns.closed (turns : Turns strtod p tokens next) :
    (∀ token ∈ tokens, token ≠ .endOfInput ∧ token.isNumber = false) ∨
      ∃ token frame frames, next = .value token (frame :: frames) := by
  cases turns with
  | scalar => exact .inl (by simp)
  | emptyObject | emptyArray | lastElement | lastMember => exact .inl (by simp [Token.isNumber])
  | firstMember | firstElement | nextElement | nextMember => exact .inr ⟨_, _, _, rfl⟩

/-- Nothing inside a frame is complete at the end of the text. -/
theorem parseLoop_inside (strtod : Bytes → Option Rat) (p : Position) (inside : ∃ token frame frames,
    p = .value token (frame :: frames) ∨ ∃ j, p = .evaluate j (frame :: frames)) : parseLoop strtod p [] = none := by
  generalize whole : ([] : Bytes) = text
  fun_induction parseLoop strtod p text with
  | case1 => rfl
  | case2 p text j rest returns =>
      obtain ⟨token, frame, frames, rfl | ⟨j', rfl⟩⟩ := inside
      all_goals
        rcases parseStep_cases returns with ⟨next, tokens, eq, -⟩ | ⟨j', -, eq, -⟩
        · cases eq
        · cases eq
  | case3 p text next mid goes ih =>
      subst whole
      rcases parseStep_cases goes with ⟨next', tokens, eq, turns, scans⟩ | ⟨j, eq, -⟩
      · cases eq
        obtain ⟨rfl, ends⟩ := scans_empty scans
        refine ih ?_ rfl
        obtain ⟨token, frame, frames, rfl | ⟨j', rfl⟩⟩ := inside
        · cases turns with
          | scalar => exact ⟨token, frame, frames, .inr ⟨_, rfl⟩⟩
          | firstElement => exact ⟨_, _, _, .inl rfl⟩
          | emptyObject | firstMember | emptyArray => cases ends _ (List.mem_cons_self ..)
        · cases turns with
          | nextElement | lastElement | nextMember | lastMember => cases ends _ (List.mem_cons_self ..)
      · cases eq

/-- What was parsed is parsed with any text behind it. -/
theorem parseLoop_append (run : parseLoop strtod p text = some (j, rest)) (more : Bytes) :
    parseLoop strtod p (text ++ more) = some (j, rest ++ more) := by
  fun_induction parseLoop strtod p text generalizing j rest with
  | case1 => cases run
  | case2 p text j' rest' returns =>
      cases run
      rcases parseStep_cases returns with ⟨next, tokens, eq, -⟩ | ⟨j', eq, rfl, rfl⟩
      · cases eq
      · cases eq
        exact parseLoop_evaluate strtod _ _
  | case3 p text next mid goes ih =>
      rcases parseStep_cases goes with ⟨next', tokens, eq, turns, scans⟩ | ⟨j', eq, -⟩
      · cases eq
        have again : Scans (text ++ more) tokens (mid ++ more) := by
          refine scans.append_text more ?_
          rintro rfl
          rcases turns.closed with closed | ⟨token, frame, frames, rfl⟩
          · exact closed
          · rw [parseLoop_inside strtod _ ⟨token, frame, frames, .inl rfl⟩] at run
            cases run
        rw [parseLoop_turns turns again]
        exact ih run
      · cases eq

theorem parser_object (strtod : Bytes → Option Rat) (rest : Bytes) :
    parser strtod false (0x7B :: rest) = parseLoop strtod (.value .beginObject []) rest := by
  have opens : scan (0x7B :: rest) = some (.beginObject, rest) := rfl
  rw [parser, bind_of_some (skipBom_of_scan opens), bind_of_some opens]
  simp only [Bool.false_eq_true, ↓reduceIte, bind_pure]

/-- No beginning of an object's text is accepted. -/
theorem parse_beginning (whole : parser strtod false text = some (j, [])) (opens : text.head? = some 0x7B) {beginning : Bytes}
    (before : beginning <+: text) (shorter : beginning ≠ text) : parse strtod false beginning = none := by
  obtain ⟨behind, rfl⟩ := before
  cases beginning with
  | nil => exact parse_of_end strtod false (show scan [] = some (.endOfInput, []) from rfl)
  | cons b more =>
      obtain rfl : b = 0x7B := Option.some.inj opens
      rw [List.cons_append, parser_object] at whole
      rw [parse, parser_object]
      cases run : parseLoop strtod (.value .beginObject []) more with
      | none => rfl
      | some pair =>
          obtain ⟨j', rest⟩ := pair
          have again := parseLoop_append run behind
          rw [whole, Option.some.injEq, Prod.mk.injEq] at again
          have none : behind = [] := (List.append_eq_nil_iff.mp again.2.symm).2
          rw [none, List.append_nil] at shorter
          exact absurd rfl shorter

theorem dump_object_head {number : Rat → Bytes} {indent : Option Nat} {members : List (Bytes × Json)}
    (dumps : (object members).dump number indent = some text) : text.head? = some 0x7B := by
  cases members with
  | nil =>
      cases dumps
      rfl
  | cons member rest =>
      obtain ⟨inner, -, rfl⟩ := dump_object dumps
      rfl

/-- A written object is not accepted before it is complete. -/
theorem parse_unfinished {number : Rat → Bytes} {indent : Option Nat} {members : List (Bytes × Json)}
    (built : Built (Prints number strtod) (.object members)) (dumps : (object members).dump number indent = some text)
    {beginning : Bytes} (before : beginning <+: text) (shorter : beginning ≠ text) : parse strtod false beginning = none := by
  have whole := parser_of_delivers (delivers_dumpAt _ built dumps [] fun _ => by simp)
  rw [List.append_nil] at whole
  exact parse_beginning whole (dump_object_head dumps) before shorter

end

end Foundation.Json
