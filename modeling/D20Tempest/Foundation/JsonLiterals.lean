import D20Tempest.Foundation.JsonTokens
import Mathlib.Algebra.Order.Ring.Int

namespace Foundation.Json
open Scanner

/-! ## Encoded characters -/

/-- What the decoder of the serializer still has to see, as the lexer has it. -/
def ranges : Utf8State → List (UInt8 × UInt8)
  | .accept => []
  | .tail1 => [(0x80, 0xBF)]
  | .tail2 => [(0x80, 0xBF), (0x80, 0xBF)]
  | .tail3 => [(0x80, 0xBF), (0x80, 0xBF), (0x80, 0xBF)]
  | .afterE0 => [(0xA0, 0xBF), (0x80, 0xBF)]
  | .afterED => [(0x80, 0x9F), (0x80, 0xBF)]
  | .afterF0 => [(0x90, 0xBF), (0x80, 0xBF), (0x80, 0xBF)]
  | .afterF4 => [(0x80, 0x8F), (0x80, 0xBF), (0x80, 0xBF)]

section
variable {b : UInt8} {state next : Utf8State} {s rest more : Bytes}

/-- The lexer and the serializer agree on the bytes that stand for themselves. -/
theorem following_eq (b : UInt8) : following b = if b ≤ 0x1F then none else (utf8Next .accept b).map ranges := by
  simp only [following, utf8Next]
  split_ifs <;> rfl

theorem utf8Next_tail (inside : state ≠ .accept) : ∃ lower upper next, ranges state = (lower, upper) :: ranges next ∧
    0x80 ≤ lower ∧ ∀ b, utf8Next state b = if lower ≤ b ∧ b ≤ upper then some next else none := by
  cases state with
  | accept => exact absurd rfl inside
  | tail1 => exact ⟨_, _, .accept, rfl, by decide, fun _ => rfl⟩
  | tail2 => exact ⟨_, _, .tail1, rfl, by decide, fun _ => rfl⟩
  | tail3 => exact ⟨_, _, .tail2, rfl, by decide, fun _ => rfl⟩
  | afterE0 => exact ⟨_, _, .tail1, rfl, by decide, fun _ => rfl⟩
  | afterED => exact ⟨_, _, .tail1, rfl, by decide, fun _ => rfl⟩
  | afterF0 => exact ⟨_, _, .tail2, rfl, by decide, fun _ => rfl⟩
  | afterF4 => exact ⟨_, _, .tail2, rfl, by decide, fun _ => rfl⟩

/-- The rest of a character is written as it is, and read again. -/
theorem nextBytes_of_utf8 (valid : utf8From state s = true) : ∃ tail later, s = tail ++ later ∧ isUtf8 later = true ∧
    tail.flatMap escapeByte = tail ∧ ∀ more, nextBytesInRange (ranges state) (tail ++ more) = some (tail, more) := by
  induction s generalizing state with
  | nil =>
      obtain rfl := of_decide_eq_true valid
      exact ⟨[], [], rfl, rfl, rfl, fun _ => rfl⟩
  | cons b rest ih =>
      by_cases inside : state = .accept
      · subst inside
        exact ⟨[], b :: rest, rfl, valid, rfl, fun _ => rfl⟩
      · obtain ⟨lower, upper, next, eq, high, step⟩ := utf8Next_tail inside
        rw [utf8From, step] at valid
        by_cases within : lower ≤ b ∧ b ≤ upper
        · rw [if_pos within] at valid
          obtain ⟨tail, later, rfl, validLater, plain, reads⟩ := ih valid
          refine ⟨b :: tail, later, rfl, validLater, ?_, ?_⟩
          · rw [List.flatMap_cons, escapeByte_of_high (UInt8.le_trans high within.1), plain]
            rfl
          · intro more
            have first : accept (fun b => if lower ≤ b ∧ b ≤ upper then some b else none) (b :: (tail ++ more)) =
                some (b, tail ++ more) := by rw [accept_cons, if_pos within, Option.map_some]
            rw [eq, nextBytesInRange, List.cons_append, bind_of_some first, bind_of_some (reads more)]
            rfl
        · rw [if_neg within] at valid
          cases valid

theorem utf8_of_nextBytes {text : Bytes} (reads : nextBytesInRange (ranges state) text = some (more, rest)) (s : Bytes) :
    utf8From state (more ++ s) = isUtf8 s := by
  induction more generalizing state text with
  | nil =>
      by_cases inside : state = .accept
      · rw [inside]
        rfl
      · obtain ⟨lower, upper, next, eq, -, -⟩ := utf8Next_tail inside
        rw [eq, nextBytesInRange, bind_eq_some] at reads
        obtain ⟨b, mid, first, reads⟩ := reads
        obtain ⟨tail, mid', -, reads⟩ := bind_eq_some.mp reads
        cases reads
  | cons c more ih =>
      by_cases inside : state = .accept
      · rw [inside] at reads
        cases reads
      · obtain ⟨lower, upper, next, eq, -, step⟩ := utf8Next_tail inside
        rw [eq, nextBytesInRange, bind_eq_some] at reads
        obtain ⟨b, mid, first, reads⟩ := reads
        obtain ⟨tail, mid', later, reads⟩ := bind_eq_some.mp reads
        cases reads
        obtain ⟨b, -, found⟩ := accept_eq_some.mp first
        split at found
        · rename_i within
          cases found
          rw [List.cons_append, utf8From, step, if_pos within]
          exact ih later
        · cases found

/-! ## Strings -/

theorem hexValue_hexDigit : ∀ n : UInt8, n < 16 → hexValue (hexDigit n) = some n.toNat := by
  have all : ∀ n : Fin 16, hexValue (hexDigit (UInt8.ofNat n)) = some n.val := by decide
  intro n small
  have value := all ⟨n.toNat, UInt8.lt_iff_toNat_lt.mp small⟩
  rwa [UInt8.ofNat_toNat] at value

theorem getCodepoint_of_hex {a b c d : UInt8} {k l m n : Nat} (first : hexValue a = some k) (second : hexValue b = some l)
    (third : hexValue c = some m) (last : hexValue d = some n) (rest : Bytes) :
    getCodepoint (a :: b :: c :: d :: rest) = some (k * 0x1000 + l * 0x100 + m * 0x10 + n, rest) := by
  have reads : ∀ {x : UInt8} {i : Nat} (more : Bytes), hexValue x = some i → accept hexValue (x :: more) = some (i, more) := by
    intro x i more found
    rw [accept_cons, found, Option.map_some]
  rw [getCodepoint, bind_of_some (reads _ first), bind_of_some (reads _ second), bind_of_some (reads _ third),
    bind_of_some (reads _ last)]
  rfl

/-- An escape of one letter. -/
theorem scanChar_escaped {e c : UInt8} (stands : escaped e = some c) (rest : Bytes) :
    scanChar 0x5C (e :: rest) = some (some [c], rest) := by
  have letter : e ≠ 0x75 := by
    rintro rfl
    cases stands
  have reads : accept (fun e => if e = 0x75 then some none else (escaped e).map some) (e :: rest) = some (some c, rest) := by
    rw [accept_cons, if_neg letter, stands]
    rfl
  rw [scanChar, if_neg (by decide), if_pos rfl, bind_of_some reads]
  rfl

/-- A control character is escaped with its code. -/
theorem scanChar_control (control : b ≤ 0x1F) (rest : Bytes) :
    scanChar 0x5C (str "u00" ++ [hexDigit (b / 16), hexDigit (b % 16)] ++ rest) = some (some [b], rest) := by
  have value := UInt8.le_iff_toNat_le.mp control
  have high : b / 16 < 16 := by
    rw [UInt8.lt_iff_toNat_lt, UInt8.toNat_div]
    simp at value ⊢
    omega
  have low : b % 16 < 16 := by
    rw [UInt8.lt_iff_toNat_lt, UInt8.toNat_mod]
    simp
    omega
  have zero : hexValue 0x30 = some 0 := rfl
  have code := getCodepoint_of_hex zero zero (hexValue_hexDigit _ high) (hexValue_hexDigit _ low) rest
  have sum : 0 * 0x1000 + 0 * 0x100 + (b / 16).toNat * 0x10 + (b % 16).toNat = b.toNat := by
    rw [UInt8.toNat_div, UInt8.toNat_mod]
    simp
    omega
  rw [sum] at code
  have first : accept (fun e => if e = 0x75 then some none else (escaped e).map some)
      (str "u00" ++ [hexDigit (b / 16), hexDigit (b % 16)] ++ rest) =
        some (none, 0x30 :: 0x30 :: hexDigit (b / 16) :: hexDigit (b % 16) :: rest) := rfl
  have below : b.toNat < 0x20 := Nat.lt_succ_of_le value
  have point : scanCodepoint (0x30 :: 0x30 :: hexDigit (b / 16) :: hexDigit (b % 16) :: rest) = some (b.toNat, rest) := by
    rw [scanCodepoint, bind_of_some code, if_neg (by omega), if_neg (by omega)]
    rfl
  have bytes : encode b.toNat = [b] := by rw [encode, if_pos (by omega), UInt8.ofNat_toNat]
  rw [scanChar, if_neg (by decide), if_pos rfl, bind_of_some first]
  dsimp only
  rw [bind_of_some point, bytes]
  rfl

theorem scanString_escapeByte (low : b ≤ 0x7F) (rest : Bytes) :
    scanString (escapeByte b ++ rest) = (scanString rest).map fun (s, rest) => (b :: s, rest) := by
  have escape : ∀ {e c : UInt8}, escaped e = some c →
      scanString (0x5C :: e :: rest) = (scanString rest).map fun (s, rest) => (c :: s, rest) :=
    fun stands => scanString_of_char (scanChar_escaped stands rest)
  unfold escapeByte
  split
  · rename_i same
    exact same ▸ escape rfl
  split
  · rename_i same
    exact same ▸ escape rfl
  split
  · rename_i same
    exact same ▸ escape rfl
  split
  · rename_i same
    exact same ▸ escape rfl
  split
  · rename_i same
    exact same ▸ escape rfl
  split
  · rename_i same
    exact same ▸ escape rfl
  split
  · rename_i same
    exact same ▸ escape rfl
  split
  · rename_i control
    exact scanString_of_char (scanChar_control control rest)
  · rename_i quote backslash control
    have alone : following b = some [] := by
      rw [following, if_neg control, if_pos low]
    have char : scanChar b rest = some (some [b], rest) := by
      rw [scanChar, if_neg quote, if_neg backslash, alone]
      rfl
    exact scanString_of_char char

/-- What `dump_escaped` writes is what `scan_string` reads. -/
theorem scanString_dump (valid : isUtf8 s = true) (rest : Bytes) :
    scanString (s.flatMap escapeByte ++ 0x22 :: rest) = some (s, rest) := by
  induction length : s.length using Nat.strong_induction_on generalizing s with
  | _ n ih =>
    subst length
    cases s with
    | nil => exact scanString_of_close (b := 0x22) rfl
    | cons b more =>
        by_cases low : b ≤ 0x7F
        · have valid' : isUtf8 more = true := by
            rw [isUtf8, utf8From, utf8Next, if_pos low] at valid
            exact valid
          rw [List.flatMap_cons, List.append_assoc, scanString_escapeByte low, ih _ (Nat.lt_succ_self _) valid' rfl]
          rfl
        · have high : 0x80 ≤ b := by
            rw [UInt8.le_iff_toNat_le] at low ⊢
            exact Nat.lt_of_not_le low
          rw [isUtf8, utf8From] at valid
          cases step : utf8Next .accept b with
          | none =>
              rw [step] at valid
              cases valid
          | some state =>
              rw [step] at valid
              obtain ⟨tail, later, rfl, validLater, plain, reads⟩ := nextBytes_of_utf8 valid
              have above : ∀ c : UInt8, c < 0x80 → b ≠ c := by
                rintro c small rfl
                exact absurd high (not_le.mpr small)
              have follow : following b = some (ranges state) := by
                rw [following_eq, if_neg fun small => low (UInt8.le_trans small (by decide)), step]
                rfl
              have char : scanChar b (tail ++ (later.flatMap escapeByte ++ 0x22 :: rest)) =
                  some (some (b :: tail), later.flatMap escapeByte ++ 0x22 :: rest) := by
                rw [scanChar, if_neg (above _ (by decide)), if_neg (above _ (by decide)), follow]
                dsimp only
                rw [bind_of_some (reads _)]
                rfl
              have shorter : later.length < (b :: (tail ++ later)).length := by
                rw [List.length_cons, List.length_append]
                omega
              rw [List.flatMap_cons, escapeByte_of_high high, List.flatMap_append, plain, List.append_assoc, List.append_assoc,
                List.singleton_append, scanString_of_char char, ih _ shorter validLater rfl]
              rfl

/-! ### What is read is UTF-8 -/

theorem utf8From_cons (step : utf8Next state b = some next) (s : Bytes) : utf8From state (b :: s) = utf8From next s := by
  rw [utf8From, step]

theorem utf8Next_two (lower : 0xC2 ≤ b.toNat) (upper : b.toNat ≤ 0xDF) : utf8Next .accept b = some .tail1 := by
  have notOne : ¬ b ≤ 0x7F := by
    rw [UInt8.le_iff_toNat_le]
    simp
    omega
  rw [utf8Next, if_neg notOne, if_pos ⟨UInt8.le_iff_toNat_le.mpr lower, UInt8.le_iff_toNat_le.mpr upper⟩]

theorem utf8Next_three (lower : 0xE1 ≤ b.toNat) (upper : b.toNat ≤ 0xEF) (proper : b.toNat ≠ 0xED) :
    utf8Next .accept b = some .tail2 := by
  have apart : ∀ c : UInt8, c.toNat ≠ b.toNat → b ≠ c := by
    rintro c ne rfl
    exact ne rfl
  have notOne : ¬ b ≤ 0x7F := by
    rw [UInt8.le_iff_toNat_le]
    simp
    omega
  have notTwo : ¬ (0xC2 ≤ b ∧ b ≤ 0xDF) := by
    rw [UInt8.le_iff_toNat_le, UInt8.le_iff_toNat_le]
    simp
    omega
  rw [utf8Next, if_neg notOne, if_neg notTwo, if_neg (apart 0xE0 (by simp; omega)), if_neg (apart 0xED (by simp; omega)),
    if_pos ⟨UInt8.le_iff_toNat_le.mpr lower, UInt8.le_iff_toNat_le.mpr upper⟩]

theorem utf8Next_four (lower : 0xF1 ≤ b.toNat) (upper : b.toNat ≤ 0xF3) : utf8Next .accept b = some .tail3 := by
  have apart : ∀ c : UInt8, c.toNat ≠ b.toNat → b ≠ c := by
    rintro c ne rfl
    exact ne rfl
  have notOne : ¬ b ≤ 0x7F := by
    rw [UInt8.le_iff_toNat_le]
    simp
    omega
  have notTwo : ¬ (0xC2 ≤ b ∧ b ≤ 0xDF) := by
    rw [UInt8.le_iff_toNat_le, UInt8.le_iff_toNat_le]
    simp
    omega
  have notThree : ¬ (0xE1 ≤ b ∧ b ≤ 0xEF) := by
    rw [UInt8.le_iff_toNat_le, UInt8.le_iff_toNat_le]
    simp
    omega
  rw [utf8Next, if_neg notOne, if_neg notTwo, if_neg (apart 0xE0 (by simp; omega)), if_neg (apart 0xED (by simp; omega)),
    if_neg notThree, if_neg (apart 0xF0 (by simp; omega)),
    if_pos ⟨UInt8.le_iff_toNat_le.mpr lower, UInt8.le_iff_toNat_le.mpr upper⟩]

theorem utf8From_within {lower upper : UInt8}
    (step : ∀ b, utf8Next state b = if lower ≤ b ∧ b ≤ upper then some next else none) {n : Nat} (s : Bytes)
    (above : lower.toNat ≤ n) (below : n ≤ upper.toNat) : utf8From state (UInt8.ofNat n :: s) = utf8From next s := by
  have value : (UInt8.ofNat n).toNat = n := UInt8.toNat_ofNat_of_lt' (Nat.lt_of_le_of_lt below upper.toNat_lt)
  apply utf8From_cons
  rw [step, if_pos]
  rw [UInt8.le_iff_toNat_le, UInt8.le_iff_toNat_le, value]
  exact ⟨above, below⟩

theorem utf8_encode {codepoint : Nat} (small : codepoint ≤ 0x10FFFF) (proper : ¬ (0xD800 ≤ codepoint ∧ codepoint ≤ 0xDFFF))
    (s : Bytes) : isUtf8 (encode codepoint ++ s) = isUtf8 s := by
  have value : ∀ n, n < 256 → (UInt8.ofNat n).toNat = n := fun n lt => UInt8.toNat_ofNat_of_lt' lt
  have tail1 := @utf8From_within .tail1 .accept 0x80 0xBF fun _ => rfl
  have tail2 := @utf8From_within .tail2 .tail1 0x80 0xBF fun _ => rfl
  unfold encode isUtf8
  split
  · rename_i one
    rw [List.singleton_append]
    apply utf8From_cons
    rw [utf8Next, if_pos]
    rw [UInt8.le_iff_toNat_le, value _ (by omega)]
    exact Nat.le_of_lt_succ one
  split
  · rename_i one two
    rw [List.cons_append, List.singleton_append]
    have lead := value (0xC0 + codepoint / 0x40) (by omega)
    rw [utf8From_cons (utf8Next_two (by omega) (by omega))]
    exact tail1 s (by simp) (by simp; omega)
  split
  · rename_i one two three
    simp only [List.cons_append, List.nil_append]
    have last := tail1 (n := 0x80 + codepoint % 0x40) s (by simp) (by simp; omega)
    by_cases first : codepoint / 0x1000 = 0
    · have lead : utf8Next .accept (UInt8.ofNat (0xE0 + 0)) = some .afterE0 := rfl
      rw [first, utf8From_cons lead, ← last]
      exact utf8From_within (fun _ => rfl) _ (by simp; omega) (by simp; omega)
    by_cases surrogate : codepoint / 0x1000 = 0xD
    · have lead : utf8Next .accept (UInt8.ofNat (0xE0 + 0xD)) = some .afterED := rfl
      rw [surrogate, utf8From_cons lead, ← last]
      exact utf8From_within (fun _ => rfl) _ (by simp) (by simp; omega)
    · have lead := value (0xE0 + codepoint / 0x1000) (by omega)
      rw [utf8From_cons (utf8Next_three (by omega) (by omega) (by omega)), ← last]
      exact tail2 _ (by simp) (by simp; omega)
  · rename_i one two three
    simp only [List.cons_append, List.nil_append]
    have last := tail1 (n := 0x80 + codepoint % 0x40) s (by simp) (by simp; omega)
    have third := tail2 (n := 0x80 + codepoint / 0x40 % 0x40) (UInt8.ofNat (0x80 + codepoint % 0x40) :: s) (by simp)
      (by simp; omega)
    by_cases first : codepoint / 0x40000 = 0
    · have lead : utf8Next .accept (UInt8.ofNat (0xF0 + 0)) = some .afterF0 := rfl
      rw [first, utf8From_cons lead, ← last, ← third]
      exact utf8From_within (fun _ => rfl) _ (by simp; omega) (by simp; omega)
    by_cases top : codepoint / 0x40000 = 4
    · have lead : utf8Next .accept (UInt8.ofNat (0xF0 + 4)) = some .afterF4 := rfl
      rw [top, utf8From_cons lead, ← last, ← third]
      exact utf8From_within (fun _ => rfl) _ (by simp) (by simp; omega)
    · have lead := value (0xF0 + codepoint / 0x40000) (by omega)
      rw [utf8From_cons (utf8Next_four (by omega) (by omega)), ← last, ← third]
      exact utf8From_within (fun _ => rfl) _ (by simp) (by simp; omega)

theorem hexValue_lt {n : Nat} (found : hexValue b = some n) : n < 16 := by
  have size := b.toNat_lt
  simp only [hexValue, UInt8.le_iff_toNat_le] at found
  split_ifs at found with digit upper lower <;> (cases found; simp at *; omega)

theorem getCodepoint_lt {text : Bytes} {codepoint : Nat} (reads : getCodepoint text = some (codepoint, rest)) :
    codepoint < 0x10000 := by
  have small : ∀ {text rest : Bytes} {n : Nat}, accept hexValue text = some (n, rest) → n < 16 := by
    intro text rest n read
    obtain ⟨b, -, found⟩ := accept_eq_some.mp read
    exact hexValue_lt found
  obtain ⟨a, _, first, reads⟩ := bind_eq_some.mp reads
  obtain ⟨b, _, second, reads⟩ := bind_eq_some.mp reads
  obtain ⟨c, _, third, reads⟩ := bind_eq_some.mp reads
  obtain ⟨d, _, last, reads⟩ := bind_eq_some.mp reads
  cases reads
  have := small first
  have := small second
  have := small third
  have := small last
  omega

theorem scanCodepoint_range {text : Bytes} {codepoint : Nat} (reads : scanCodepoint text = some (codepoint, rest)) :
    codepoint ≤ 0x10FFFF ∧ ¬ (0xD800 ≤ codepoint ∧ codepoint ≤ 0xDFFF) := by
  obtain ⟨codepoint1, mid, first, reads⟩ := bind_eq_some.mp reads
  have small := getCodepoint_lt first
  split at reads
  · obtain ⟨_, mid', -, reads⟩ := bind_eq_some.mp reads
    obtain ⟨codepoint2, mid'', -, reads⟩ := bind_eq_some.mp reads
    split at reads
    · obtain ⟨rfl, -⟩ := Prod.mk.inj (Option.some.inj (show some (_, mid'') = some (codepoint, rest) from reads))
      omega
    · cases reads
  · split at reads
    · cases reads
    · cases reads
      omega

theorem utf8_scanChar {text bytes : Bytes} (reads : scanChar b text = some (some bytes, rest)) (s : Bytes) :
    isUtf8 (bytes ++ s) = isUtf8 s := by
  unfold scanChar at reads
  split at reads
  · cases reads
  split at reads
  · obtain ⟨escape, mid, first, reads⟩ := bind_eq_some.mp reads
    cases escape with
    | none =>
        obtain ⟨codepoint, mid', point, reads⟩ := bind_eq_some.mp reads
        cases reads
        obtain ⟨small, proper⟩ := scanCodepoint_range point
        exact utf8_encode small proper s
    | some c =>
        cases reads
        obtain ⟨e, -, found⟩ := accept_eq_some.mp first
        split at found
        · cases found
        · obtain ⟨c', stands, same⟩ := Option.map_eq_some_iff.mp found
          cases same
          apply utf8From_cons
          unfold escaped at stands
          split_ifs at stands with same
          · cases stands
            rcases same with rfl | rfl | rfl <;> rfl
          all_goals
            cases stands
            rfl
  · cases follow : following b with
    | none =>
      rw [follow] at reads
      cases reads
    | some ranges' =>
      rw [follow] at reads
      obtain ⟨more, mid, later, reads⟩ := bind_eq_some.mp reads
      cases reads
      rw [following_eq] at follow
      split at follow
      · cases follow
      · obtain ⟨state, step, rfl⟩ := Option.map_eq_some_iff.mp follow
        rw [List.cons_append, isUtf8, utf8From_cons step]
        exact utf8_of_nextBytes later s

theorem utf8_scanString {text : Bytes} (scans : scanString text = some (s, rest)) : isUtf8 s = true := by
  fun_induction scanString text generalizing s rest with
  | case1 => cases scans
  | case2 => cases scans
  | case3 =>
      cases scans
      rfl
  | case4 b text bytes mid reads ih =>
      obtain ⟨⟨s', rest'⟩, inner, eq⟩ := Option.map_eq_some_iff.mp scans
      cases eq
      rw [utf8_scanChar reads]
      exact ih inner

end

/-! ## Integers -/

theorem str_append (s t : String) : str (s ++ t) = str s ++ str t := by
  rw [str, String.toList_append, List.flatMap_append]
  rfl

section
variable {n : Nat} {rest : Bytes}

theorem str_digit (small : n < 10) : str (Nat.repr n) = [UInt8.ofNat (0x30 + n)] := by
  have all : ∀ n : Fin 10, str (Nat.repr n) = [UInt8.ofNat (0x30 + n)] := by decide
  exact all ⟨n, small⟩

theorem str_repr (large : 10 ≤ n) : str (Nat.repr n) = str (Nat.repr (n / 10)) ++ [UInt8.ofNat (0x30 + n % 10)] := by
  rw [Nat.repr_eq_repr_append_repr large, str_append, str_digit (Nat.mod_lt n (by decide))]

theorem isDigit_digit (small : n < 10) : isDigit (UInt8.ofNat (0x30 + n)) = true := by
  have all : ∀ n : Fin 10, isDigit (UInt8.ofNat (0x30 + n)) = true := by decide
  exact all ⟨n, small⟩

theorem digitsValue_append (digits : Bytes) (b : UInt8) :
    digitsValue (digits ++ [b]) = 10 * digitsValue digits + (b.toNat - 0x30) := by
  rw [digitsValue, List.foldl_append]
  rfl

theorem digitsValue_repr (n : Nat) : digitsValue (str (Nat.repr n)) = n := by
  have value : ∀ n, n < 10 → (UInt8.ofNat (0x30 + n)).toNat - 0x30 = n := by
    intro n small
    rw [UInt8.toNat_ofNat_of_lt' (show 0x30 + n < 256 by omega)]
    omega
  induction n using Nat.strong_induction_on with
  | _ n ih =>
    rcases Nat.lt_or_ge n 10 with small | large
    · rw [str_digit small, digitsValue, List.foldl_cons, List.foldl_nil, value n small]
      omega
    · rw [str_repr large, digitsValue_append, ih _ (by omega), value _ (Nat.mod_lt n (by decide))]
      omega

/-- Only zero is written with a leading zero. -/
theorem repr_cons (n : Nat) : ∃ b more, str (Nat.repr n) = b :: more ∧ isDigit b = true ∧ (∀ c ∈ more, isDigit c = true) ∧
    (b = 0x30 → more = []) := by
  induction n using Nat.strong_induction_on with
  | _ n ih =>
    rcases Nat.lt_or_ge n 10 with small | large
    · exact ⟨_, [], str_digit small, isDigit_digit small, by simp, fun _ => rfl⟩
    · obtain ⟨b, more, eq, first, digits, zero⟩ := ih (n / 10) (by omega)
      refine ⟨b, more ++ [UInt8.ofNat (0x30 + n % 10)], by rw [str_repr large, eq, List.cons_append], first, ?_, ?_⟩
      · intro c mem
        rcases List.mem_append.mp mem with mem | mem
        · exact digits c mem
        · rw [List.mem_singleton.mp mem]
          exact isDigit_digit (Nat.mod_lt n (by decide))
      · rintro rfl
        have value := digitsValue_repr (n / 10)
        rw [eq, zero rfl] at value
        have : n / 10 = 0 := value.symm
        omega

theorem scanDigits_end {state : NumberState} (type : NumberType) (done : state.done = true)
    (ends : ∀ b ∈ rest.head?, Ends b) : scanDigits state type rest = some ([], type, rest) := by
  cases rest with
  | nil => rw [scanDigits, if_pos done]
  | cons b more => rw [scanDigits, ends b rfl state, if_pos done]

theorem scanDigits_digits {digits : Bytes} (all : ∀ b ∈ digits, isDigit b = true) (type : NumberType)
    (ends : ∀ b ∈ rest.head?, Ends b) : scanDigits .any1 type (digits ++ rest) = some (digits, type, rest) := by
  induction digits with
  | nil => exact scanDigits_end type rfl ends
  | cons b more ih =>
      have step : NumberState.any1.next b = some .any1 := by rw [NumberState.next, if_pos (all b (List.mem_cons_self ..))]
      rw [List.cons_append, scanDigits, step]
      dsimp only [NumberState.type]
      rw [ih fun c mem => all c (List.mem_cons_of_mem b mem)]
      rfl

theorem blank_of_digit {b : UInt8} (digit : b = 0x2D ∨ isDigit b = true) : isBlank b = false := by
  by_contra blank
  have blank := Bool.of_not_eq_false blank
  simp only [isBlank, Bool.or_eq_true, decide_eq_true_eq] at blank
  rcases blank with ((rfl | rfl) | rfl) | rfl <;> exact absurd digit (by decide)

theorem scan_of_number {b : UInt8} (number : b = 0x2D ∨ isDigit b = true) (text : Bytes) :
    scan (b :: text) = scanNumber b text := by
  rw [scan, blank_of_digit number]
  exact congrFun (scanToken_of_number number) text

theorem firstState_type_of_digit {b : UInt8} (digit : isDigit b = true) (type : NumberType) :
    (firstState b).type type = type := by
  have sign : b ≠ 0x2D := by
    rintro rfl
    cases digit
  rw [firstState, if_neg sign]
  split <;> rfl

theorem scanDigits_repr (n : Nat) (ends : ∀ b ∈ rest.head?, Ends b) : ∃ b more, str (Nat.repr n) = b :: more ∧
    isDigit b = true ∧ ∀ type, scanDigits (firstState b) type (more ++ rest) = some (more, type, rest) := by
  obtain ⟨b, more, eq, digit, digits, zero⟩ := repr_cons n
  refine ⟨b, more, eq, digit, ?_⟩
  intro type
  have sign : b ≠ 0x2D := by
    rintro rfl
    cases digit
  rw [firstState, if_neg sign]
  split
  · rename_i same
    rw [zero same]
    exact scanDigits_end type rfl ends
  · exact scanDigits_digits digits type ends

theorem scan_unsigned (n : UInt64) (ends : ∀ b ∈ rest.head?, Ends b) :
    scan (str (Nat.repr n.toNat) ++ rest) = some (.valueUnsigned n, rest) := by
  obtain ⟨b, more, eq, digit, scans⟩ := scanDigits_repr n.toNat ends
  have value := digitsValue_repr n.toNat
  rw [eq] at value ⊢
  rw [List.cons_append, scan_of_number (.inr digit), scanNumber, firstState_type_of_digit digit, scans]
  dsimp only [Option.map_some, numberToken]
  rw [value, if_pos n.toNat_lt, UInt64.ofNat_toNat]

theorem scan_negative {i : Int64} (negative : i.toInt < 0) (ends : ∀ b ∈ rest.head?, Ends b) :
    scan (str (toString i.toInt) ++ rest) = some (.valueInteger i, rest) := by
  obtain ⟨n, size⟩ := Int.eq_negSucc_of_lt_zero negative
  have low := i.le_toInt
  obtain ⟨b, more, eq, digit, scans⟩ := scanDigits_repr (n + 1) ends
  have value := digitsValue_repr (n + 1)
  have text : str (toString i.toInt) = 0x2D :: b :: more := by
    rw [size, ← eq]
    exact str_append "-" _
  have behind : NumberState.minus.next b = some (firstState b) := by
    have sign : b ≠ 0x2D := by
      rintro rfl
      cases digit
    rw [NumberState.next, firstState, if_neg sign, if_pos digit]
    split <;> rfl
  rw [eq] at value
  rw [text, List.cons_append, scan_of_number (.inl rfl), scanNumber, firstState, if_pos rfl, List.cons_append, scanDigits, behind]
  dsimp only
  have same : -((n + 1 : Nat) : Int) = i.toInt := by omega
  have token : numberToken .integer (0x2D :: b :: more) = .valueInteger i := by
    simp only [numberToken, List.tail_cons, value, same, Int64.ofInt_toInt]
    exact if_pos (by omega)
  rw [firstState_type_of_digit digit, scans, ← token]
  rfl

end

end Foundation.Json
