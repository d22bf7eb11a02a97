import D20Tempest.Foundation.JsonLiterals
import D20Tempest.Foundation.JsonNormal
import D20Tempest.Foundation.JsonParser

namespace Foundation.Json
open Scanner

/-! ## What can be read again -/

section
variable (number : Rat → Bytes) (strtod : Bytes → Option Rat)

/-- `strtod` reads a number as it was written. -/
structure Prints (x : Rat) : Prop where
  value : strtod (number x) = some x
  scans : ∀ rest : Bytes, (∀ b ∈ rest.head?, Ends b) → scan (number x ++ rest) = some (.valueFloat (number x), rest)

end

section
variable (float : Rat → Prop)

mutual

/-- A value as the parser builds them, with numbers of one kind. -/
def Built : Json → Prop
  | .float x => float x
  | .array elements => BuiltElements elements
  | .object members => Assoc.Sorted members ∧ BuiltMembers members
  | .discarded => False
  | _ => True

def BuiltElements : List Json → Prop
  | [] => True
  | value :: rest => Built value ∧ BuiltElements rest

def BuiltMembers : List (Bytes × Json) → Prop
  | [] => True
  | (_, value) :: rest => Built value ∧ BuiltMembers rest

end

end

theorem builtElements_iff {float : Rat → Prop} {elements : List Json} :
    BuiltElements float elements ↔ ∀ j ∈ elements, Built float j := by
  induction elements with
  | nil => simp [BuiltElements]
  | cons j rest ih => simp [BuiltElements, ih]

theorem builtMembers_iff {float : Rat → Prop} {members : List (Bytes × Json)} :
    BuiltMembers float members ↔ ∀ m ∈ members, Built float m.2 := by
  induction members with
  | nil => simp [BuiltMembers]
  | cons m rest ih =>
      obtain ⟨key, value⟩ := m
      simp [BuiltMembers, ih]

mutual

theorem Built.mono {float float' : Rat → Prop} (implies : ∀ x, float x → float' x) : ∀ {j : Json}, Built float j → Built float' j
  | .float x, built => implies x built
  | .array _, built => BuiltElements.mono implies built
  | .object _, built => ⟨built.1, BuiltMembers.mono implies built.2⟩
  | .discarded, built => False.elim built
  | .null, _ | .boolean _, _ | .string _, _ | .integer _, _ | .unsigned _, _ => trivial

theorem BuiltElements.mono {float float' : Rat → Prop} (implies : ∀ x, float x → float' x) :
    ∀ {elements : List Json}, BuiltElements float elements → BuiltElements float' elements
  | [], _ => trivial
  | _ :: _, built => ⟨Built.mono implies built.1, BuiltElements.mono implies built.2⟩

theorem BuiltMembers.mono {float float' : Rat → Prop} (implies : ∀ x, float x → float' x) :
    ∀ {members : List (Bytes × Json)}, BuiltMembers float members → BuiltMembers float' members
  | [], _ => trivial
  | _ :: _, built => ⟨Built.mono implies built.1, BuiltMembers.mono implies built.2⟩

end

/-! ### Fields -/

theorem ofFields_members (fields : List (Bytes × Json)) :
    ∃ members, ofFields fields = .object members ∧ Assoc.Sorted members ∧ ∀ m ∈ members, m ∈ fields := by
  refine ⟨_, rfl, ?_⟩
  induction fields using List.reverseRecOn with
  | nil => exact ⟨List.Pairwise.nil, by simp⟩
  | append_singleton fields field ih =>
      obtain ⟨sorted, known⟩ := ih
      rw [List.foldl_append, List.foldl_cons, List.foldl_nil]
      refine ⟨Assoc.sorted_assign _ _ sorted, fun m mem => ?_⟩
      rcases Assoc.mem_assign mem with rfl | old
      · exact List.mem_append_right _ (List.mem_singleton_self _)
      · exact List.mem_append_left _ (known m old)

theorem built_ofFields {float : Rat → Prop} {fields : List (Bytes × Json)} (each : ∀ f ∈ fields, Built float f.2) :
    Built float (ofFields fields) := by
  obtain ⟨members, eq, sorted, known⟩ := ofFields_members fields
  rw [eq, Built, builtMembers_iff]
  exact ⟨sorted, fun m mem => each m (known m mem)⟩

theorem utf8_ofFields {fields : List (Bytes × Json)} (each : ∀ f ∈ fields, isUtf8 f.1 = true ∧ f.2.utf8 = true) :
    (ofFields fields).utf8 = true := by
  obtain ⟨members, eq, -, known⟩ := ofFields_members fields
  rw [eq, utf8, utf8Members_iff]
  exact fun m mem => each m (known m mem)

def isNumber : Json → Bool
  | .integer _ | .unsigned _ | .float _ => true
  | _ => false

/-! ## The text around a value -/

structure Layout.Plain (around : Layout) : Prop where
  opening : ∀ b ∈ around.opening, isBlank b
  lead : ∀ b ∈ around.lead, isBlank b
  colon : ∃ blanks, around.colon = 0x22 :: 0x3A :: blanks ∧ ∀ b ∈ blanks, isBlank b
  separator : ∃ blanks, around.separator = 0x2C :: blanks ∧ ∀ b ∈ blanks, isBlank b
  closing : ∀ b ∈ around.closing, isBlank b

theorem plain_layout (indent : Option Nat) (current : Nat) : (layout indent current).Plain := by
  have spaced : ∀ n, ∀ b ∈ spaces n, isBlank b := by
    intro n b mem
    rw [(List.mem_replicate.mp mem).2]
    rfl
  cases indent with
  | none => exact ⟨by simp [layout], by simp [layout], ⟨[], rfl, by simp⟩, ⟨[], rfl, by simp⟩, by simp [layout]⟩
  | some step =>
      refine ⟨?_, spaced _, ⟨str " ", rfl, List.all_eq_true.mp rfl⟩, ⟨str "\n", rfl, List.all_eq_true.mp rfl⟩, ?_⟩
      · show ∀ b ∈ str "\n", isBlank b
        exact List.all_eq_true.mp rfl
      · intro b mem
        rcases List.mem_append.mp mem with first | later
        · rw [List.mem_singleton.mp first]
          rfl
        · exact spaced _ b later

theorem ends_of_mark {b : UInt8} (mark : b = 0x2C ∨ b = 0x5D ∨ b = 0x7D) : Ends b := by
  intro state
  rcases mark with rfl | rfl | rfl <;> cases state <;> rfl

theorem ends_of_blanks {blanks : Bytes} (blank : ∀ b ∈ blanks, isBlank b) {mark : UInt8}
    (ends : mark = 0x2C ∨ mark = 0x5D ∨ mark = 0x7D) (rest : Bytes) : ∀ b ∈ (blanks ++ mark :: rest).head?, Ends b := by
  intro b first
  cases blanks with
  | nil =>
      cases first
      exact ends_of_mark ends
  | cons c more =>
      cases first
      exact ends_of_blank (blank b (List.mem_cons_self ..))

section
variable {around : Layout} {rest : Bytes}

theorem Layout.Plain.scan_closing (plain : around.Plain) (mark : UInt8) :
    scan (around.closing ++ mark :: rest) = scan (mark :: rest) := scan_blank plain.closing _

theorem Layout.Plain.scan_separator (plain : around.Plain) (rest : Bytes) :
    ∃ text, scan (around.separator ++ rest) = some (.valueSeparator, text) ∧
    scan text = scan rest ∧ ∀ b ∈ (around.separator ++ rest).head?, Ends b := by
  obtain ⟨blanks, eq, blank⟩ := plain.separator
  refine ⟨blanks ++ rest, by rw [eq]; rfl, scan_blank blank rest, ?_⟩
  rw [eq]
  intro b first
  cases first
  exact ends_of_mark (.inl rfl)

theorem Layout.Plain.scan_name (plain : around.Plain) {key name : Bytes} (escapes : dumpEscaped key = some name)
    (rest : Bytes) :
    ∃ mid text, scan (quote ++ name ++ around.colon ++ rest) = some (.valueString key, mid) ∧
      scan mid = some (.nameSeparator, text) ∧ scan text = scan rest := by
  obtain ⟨blanks, eq, blank⟩ := plain.colon
  have valid : isUtf8 key = true := by
    rw [← dumpEscaped_isSome, escapes]
    rfl
  rw [dumpEscaped, if_pos valid, Option.some.injEq] at escapes
  refine ⟨0x3A :: (blanks ++ rest), blanks ++ rest, ?_, rfl, scan_blank blank rest⟩
  have string := scanString_dump valid (0x3A :: (blanks ++ rest))
  rw [escapes] at string
  rw [eq, List.append_assoc, List.append_assoc]
  show scanToken 0x22 (name ++ 0x22 :: 0x3A :: (blanks ++ rest)) = _
  exact bind_of_some string

end

/-! ## Reading what was written -/

/-- The next value of the text, in whatever frames. -/
def Delivers (strtod : Bytes → Option Rat) (text : Bytes) (j : Json) (rest : Bytes) : Prop :=
  ∃ token mid, scan text = some (token, mid) ∧ token ≠ .endArray ∧
    ∀ frames, parseLoop strtod (.value token frames) mid = parseLoop strtod (.evaluate j frames) rest

section
variable {number : Rat → Bytes} {strtod : Bytes → Option Rat} {indent : Option Nat}

theorem parseLoop_turns {p next : Position} {tokens : List Token} {text rest : Bytes} (turns : Turns strtod p tokens next)
    (scans : Scans text tokens rest) : parseLoop strtod p text = parseLoop strtod next rest :=
  parseLoop_next (parseStep_of_turns turns scans)

theorem delivers_scalar {text rest : Bytes} (token : Token) {j : Json} (scans : scan text = some (token, rest))
    (reads : scalar strtod token = some j) : Delivers strtod text j rest := by
  refine ⟨token, rest, scans, ?_, fun frames => parseLoop_turns (.scalar reads) .nil⟩
  rintro rfl
  cases reads

theorem delivers_string {s name : Bytes} (escapes : dumpEscaped s = some name) (rest : Bytes) :
    Delivers strtod (quote ++ name ++ quote ++ rest) (.string s) rest := by
  have valid : isUtf8 s = true := by
    rw [← dumpEscaped_isSome, escapes]
    rfl
  rw [dumpEscaped, if_pos valid, Option.some.injEq] at escapes
  have string := scanString_dump valid rest
  rw [escapes] at string
  refine delivers_scalar (.valueString s) ?_ rfl
  rw [List.append_assoc, List.append_assoc]
  show scanToken 0x22 (name ++ 0x22 :: rest) = _
  exact bind_of_some string

theorem delivers_integer (i : Int64) {rest : Bytes} (ends : ∀ b ∈ rest.head?, Ends b) :
    Delivers strtod (str (toString i.toInt) ++ rest) (Json.integer i).normal rest := by
  rw [normal]
  split
  · rename_i negative
    exact delivers_scalar _ (scan_negative negative ends) rfl
  · rename_i nonnegative
    have size : i.toInt = i.toUInt64.toNat := by
      have nonneg : (0 : Int64) ≤ i := Int64.le_iff_toInt_le.mpr (not_lt.mp nonnegative)
      rw [Int64.toNat_toUInt64_of_le nonneg]
      exact (Int.toNat_of_nonneg (not_lt.mp nonnegative)).symm
    have text : str (toString i.toInt) = str (Nat.repr i.toUInt64.toNat) := by
      rw [size]
      rfl
    rw [text]
    exact delivers_scalar _ (scan_unsigned _ ends) rfl

theorem assign_last {key : Bytes} {entries : List (Bytes × Json)} (above : ∀ e ∈ entries, e.1 < key) (j : Json) :
    Assoc.assign key j entries = entries ++ [(key, j)] := by
  induction entries with
  | nil => rfl
  | cons e more ih =>
      have below := above e (List.mem_cons_self ..)
      rw [Assoc.assign, if_neg below.asymm, if_neg below.ne', ih fun e' mem => above e' (List.mem_cons_of_mem e mem)]
      rfl

section
variable {current : Nat}

theorem delivers_emptyArray (rest : Bytes) : Delivers strtod (str "[]" ++ rest) (.array []) rest :=
  ⟨.beginArray, 0x5D :: rest, rfl, by simp, fun _ => parseLoop_turns .emptyArray (.cons rfl .nil)⟩

theorem delivers_emptyObject (rest : Bytes) : Delivers strtod (str "\x7b\x7d" ++ rest) (.object []) rest :=
  ⟨.beginObject, 0x7D :: rest, rfl, by simp, fun _ => parseLoop_turns .emptyObject (.cons rfl .nil)⟩

mutual

theorem delivers_dumpAt : ∀ (j : Json) {current : Nat} {text : Bytes}, Built (Prints number strtod) j →
    j.dumpAt number indent current = some text → ∀ rest, (j.isNumber = true → ∀ b ∈ rest.head?, Ends b) →
      Delivers strtod (text ++ rest) j.normal rest
  | .null, _, _, _, dumps, rest, _ => by
      cases dumps
      exact delivers_scalar .literalNull rfl rfl
  | .boolean true, _, _, _, dumps, rest, _ => by
      cases dumps
      exact delivers_scalar .literalTrue rfl rfl
  | .boolean false, _, _, _, dumps, rest, _ => by
      cases dumps
      exact delivers_scalar .literalFalse rfl rfl
  | .string s, _, _, _, dumps, rest, _ => by
      obtain ⟨name, escapes, rfl⟩ := Option.map_eq_some_iff.mp dumps
      exact delivers_string escapes rest
  | .integer i, _, _, _, dumps, rest, ends => by
      cases dumps
      exact delivers_integer i (ends rfl)
  | .unsigned n, _, _, _, dumps, rest, ends => by
      cases dumps
      exact delivers_scalar _ (scan_unsigned n (ends rfl)) rfl
  | .float x, _, _, built, dumps, rest, ends => by
      cases dumps
      rw [Built] at built
      refine delivers_scalar _ (built.scans rest (ends rfl)) ?_
      rw [scalar, built.value]
      rfl
  | .array [], _, _, _, dumps, rest, _ => by
      cases dumps
      exact delivers_emptyArray rest
  | .array (value :: more), current, text, built, dumps, rest, _ => by
      rw [Built] at built
      have plain := plain_layout indent current
      rw [dumpAt] at dumps
      · obtain ⟨inner, eq, rfl⟩ := Option.map_eq_some_iff.mp dumps
        obtain ⟨token, mid, scans, opens, goes⟩ := delivers_dumpElements (value :: more) plain built eq rest (by simp)
        refine ⟨.beginArray, (layout indent current).opening ++ (inner ++ ((layout indent current).closing ++ 0x5D :: rest)),
          ?_, by simp, ?_⟩
        · simp only [List.append_assoc]
          rfl
        · intro frames
          have first := (scan_blank plain.opening _).trans scans
          rw [parseLoop_turns (.firstElement opens) (.cons first .nil), goes [] frames]
          rfl
      · simp
  | .object [], _, _, _, dumps, rest, _ => by
      cases dumps
      exact delivers_emptyObject rest
  | .object ((key, value) :: more), current, text, built, dumps, rest, _ => by
      rw [Built] at built
      have plain := plain_layout indent current
      rw [dumpAt] at dumps
      · obtain ⟨inner, eq, rfl⟩ := Option.map_eq_some_iff.mp dumps
        obtain ⟨_, _, _, mid, token, mid', same, name, scans, goes⟩ :=
          delivers_dumpMembers ((key, value) :: more) plain built.1 built.2 eq rest (by simp)
        cases same
        refine ⟨.beginObject, (layout indent current).opening ++ (inner ++ ((layout indent current).closing ++ 0x7D :: rest)),
          ?_, by simp, ?_⟩
        · simp only [List.append_assoc]
          rfl
        · intro frames
          have first := (scan_blank plain.opening _).trans name
          rw [parseLoop_turns .firstMember (.cons first scans), goes [] frames (by simp)]
          rfl
      · simp
  | .discarded, _, _, built, _, _, _ => False.elim built

theorem delivers_dumpElements : ∀ (values : List Json) {around : Layout} {text : Bytes}, around.Plain →
    BuiltElements (Prints number strtod) values → dumpElements number indent around values = some text → ∀ rest, values ≠ [] →
      ∃ token mid, scan (text ++ (around.closing ++ 0x5D :: rest)) = some (token, mid) ∧ token ≠ .endArray ∧
        ∀ done frames, parseLoop strtod (.value token (.array done :: frames)) mid =
          parseLoop strtod (.evaluate (.array (done ++ normalElements values)) frames) rest
  | [], _, _, _, _, _, _, filled => absurd rfl filled
  | [value], around, _, plain, built, dumps, rest, _ => by
      rw [BuiltElements] at built
      obtain ⟨inner, eq, rfl⟩ := Option.map_eq_some_iff.mp dumps
      have ends := ends_of_blanks plain.closing (.inr (.inl rfl)) rest
      obtain ⟨token, mid, scans, opens, goes⟩ := delivers_dumpAt value built.1 eq _ fun _ => ends
      refine ⟨token, mid, ?_, opens, ?_⟩
      · rw [List.append_assoc, scan_blank plain.lead, scans]
      · intro done frames
        have closes : scan (around.closing ++ 0x5D :: rest) = some (.endArray, rest) := plain.scan_closing 0x5D
        rw [goes, parseLoop_turns .lastElement (.cons closes .nil)]
        rfl
  | value :: next :: more, around, _, plain, built, dumps, rest, _ => by
      rw [BuiltElements] at built
      rw [dumpElements] at dumps
      · obtain ⟨inner, eq, dumps⟩ := Option.bind_eq_some_iff.mp dumps
        obtain ⟨later, eqMore, rfl⟩ := Option.map_eq_some_iff.mp dumps
        obtain ⟨token', mid', scans', opens', goes'⟩ := delivers_dumpElements (next :: more) plain built.2 eqMore rest (by simp)
        obtain ⟨behind, separates, behindScans, ends⟩ := plain.scan_separator (later ++ (around.closing ++ 0x5D :: rest))
        obtain ⟨token, mid, scans, opens, goes⟩ := delivers_dumpAt value built.1 eq _ fun _ => ends
        refine ⟨token, mid, ?_, opens, ?_⟩
        · simp only [List.append_assoc] at scans ⊢
          rw [scan_blank plain.lead, scans]
        · intro done frames
          rw [goes, parseLoop_turns .nextElement (.cons separates (.cons (behindScans.trans scans') .nil)), goes',
            List.append_assoc]
          rfl
      · simp

theorem delivers_dumpMembers : ∀ (members : List (Bytes × Json)) {around : Layout} {text : Bytes}, around.Plain →
    Assoc.Sorted members → BuiltMembers (Prints number strtod) members → dumpMembers number indent around members = some text →
      ∀ rest, members ≠ [] → ∃ key value others mid token mid', members = (key, value) :: others ∧
        scan (text ++ (around.closing ++ 0x7D :: rest)) = some (.valueString key, mid) ∧
        Scans mid [.nameSeparator, token] mid' ∧
        ∀ done frames, (∀ e ∈ done, e.1 < key) → parseLoop strtod (.value token (.object done key :: frames)) mid' =
          parseLoop strtod (.evaluate (.object (done ++ normalMembers members)) frames) rest
  | [], _, _, _, _, _, _, _, filled => absurd rfl filled
  | [(key, value)], around, _, plain, _, built, dumps, rest, _ => by
      rw [BuiltMembers] at built
      rw [dumpMembers] at dumps
      obtain ⟨name, escapes, dumps⟩ := Option.bind_eq_some_iff.mp dumps
      obtain ⟨inner, eq, rfl⟩ := Option.map_eq_some_iff.mp dumps
      have ends := ends_of_blanks plain.closing (.inr (.inr rfl)) rest
      obtain ⟨token, mid, scans, -, goes⟩ := delivers_dumpAt value built.1 eq _ fun _ => ends
      obtain ⟨behind, first, named, colon, firstScans⟩ := plain.scan_name escapes (inner ++ (around.closing ++ 0x7D :: rest))
      refine ⟨key, value, [], behind, token, mid, rfl, ?_, .cons colon (.cons (firstScans.trans scans) .nil), ?_⟩
      · simp only [List.append_assoc] at named ⊢
        rw [scan_blank plain.lead, named]
      · intro done frames above
        have closes : scan (around.closing ++ 0x7D :: rest) = some (.endObject, rest) := plain.scan_closing 0x7D
        rw [goes, parseLoop_turns .lastMember (.cons closes .nil), assign_last above]
        rfl
  | (key, value) :: (next, value') :: more, around, _, plain, sorted, built, dumps, rest, _ => by
      rw [BuiltMembers] at built
      rw [dumpMembers] at dumps
      · obtain ⟨name, escapes, dumps⟩ := Option.bind_eq_some_iff.mp dumps
        obtain ⟨inner, eq, dumps⟩ := Option.bind_eq_some_iff.mp dumps
        obtain ⟨later, eqMore, rfl⟩ := Option.map_eq_some_iff.mp dumps
        obtain ⟨above, sorted⟩ := List.pairwise_cons.mp sorted
        obtain ⟨_, _, _, mid', token', mid'', same, named', scans', goes'⟩ :=
          delivers_dumpMembers ((next, value') :: more) plain sorted built.2 eqMore rest (by simp)
        cases same
        obtain ⟨behind', separates, behindScans, ends⟩ := plain.scan_separator (later ++ (around.closing ++ 0x7D :: rest))
        obtain ⟨token, mid, scans, -, goes⟩ := delivers_dumpAt value built.1 eq _ fun _ => ends
        obtain ⟨behind, first, named, colon, firstScans⟩ :=
          plain.scan_name escapes (inner ++ (around.separator ++ (later ++ (around.closing ++ 0x7D :: rest))))
        refine ⟨key, value, _, behind, token, mid, rfl, ?_, .cons colon (.cons (firstScans.trans scans) .nil), ?_⟩
        · simp only [List.append_assoc] at named ⊢
          rw [scan_blank plain.lead, named]
        · intro done frames below
          have keys : ∀ e ∈ done ++ [(key, value.normal)], e.1 < next := by
            intro e mem
            rcases List.mem_append.mp mem with mem | mem
            · exact (below e mem).trans (above _ (List.mem_cons_self ..))
            · rw [List.mem_singleton.mp mem]
              exact above _ (List.mem_cons_self ..)
          rw [goes, parseLoop_turns .nextMember (.cons separates (.cons (behindScans.trans named') scans')), assign_last below,
            goes' _ frames keys, List.append_assoc]
          rfl
      · simp

end

end

end

/-! ## Whole texts -/

section
variable {strtod : Bytes → Option Rat} {text rest : Bytes} {j : Json}

theorem skipBom_of_head (text : Bytes) (plain : text.head? ≠ some 0xEF) : skipBom text = some ((), text) := by
  cases text with
  | nil => rfl
  | cons b more =>
      unfold skipBom
      split
      · rename_i eq
        cases eq
        exact absurd rfl plain
      · rfl

theorem skipBom_of_scan {token : Token} {mid : Bytes} (scans : scan text = some (token, mid)) :
    skipBom text = some ((), text) := by
  apply skipBom_of_head
  intro mark
  obtain ⟨more, rfl⟩ := List.head?_eq_some_iff.mp mark
  cases scans

theorem Delivers.before (delivers : Delivers strtod text j rest) {before : Bytes} (blank : ∀ b ∈ before, isBlank b) :
    Delivers strtod (before ++ text) j rest := by
  obtain ⟨token, mid, scans, delivered⟩ := delivers
  exact ⟨token, mid, (scan_blank blank text).trans scans, delivered⟩

theorem parser_of_delivers (delivers : Delivers strtod text j rest) : parser strtod false text = some (j, rest) := by
  obtain ⟨token, mid, scans, -, goes⟩ := delivers
  rw [parser, bind_of_some (skipBom_of_scan scans), bind_of_some scans,
    bind_of_some ((goes []).trans (parseLoop_evaluate strtod j rest))]
  rfl

theorem parse_of_delivers (delivers : Delivers strtod text j rest) (blank : ∀ b ∈ rest, isBlank b) (strict : Bool) :
    parse strtod strict text = some j := by
  cases strict with
  | false => rw [parse, parser_of_delivers delivers, Option.map_some]
  | true =>
      obtain ⟨token, mid, scans, -, goes⟩ := delivers
      rw [parse, parser, bind_of_some (skipBom_of_scan scans), bind_of_some scans,
        bind_of_some ((goes []).trans (parseLoop_evaluate strtod j rest)), if_pos rfl, bind_of_some (scan_blanks blank)]
      rfl

/-- What was written is parsed again, with any indentation and any white space around it. -/
theorem parse_dump {number : Rat → Bytes} {indent : Option Nat} (built : Built (Prints number strtod) j)
    (dumps : j.dump number indent = some text) {before after : Bytes} (first : ∀ b ∈ before, isBlank b)
    (last : ∀ b ∈ after, isBlank b) (strict : Bool) : parse strtod strict (before ++ text ++ after) = some j.normal := by
  rw [List.append_assoc]
  refine parse_of_delivers (Delivers.before (delivers_dumpAt j built dumps after fun _ => ?_) first) last strict
  intro b mem
  exact ends_of_blank (last b (List.mem_of_mem_head? mem))

/-- A text that is no number ends where it ends, whatever comes behind it. -/
theorem parse_dump_append {number : Rat → Bytes} {indent : Option Nat} (built : Built (Prints number strtod) j)
    (dumps : j.dump number indent = some text) (closed : j.isNumber = false) (rest : Bytes) :
    parse strtod false (text ++ rest) = some j.normal := by
  have delivers := delivers_dumpAt j built dumps rest fun number => by
    rw [closed] at number
    cases number
  rw [parse, parser_of_delivers delivers, Option.map_some]

end

end Foundation.Json
