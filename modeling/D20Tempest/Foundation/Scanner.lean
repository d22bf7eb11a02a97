import D20Tempest.Foundation.Bytes
import Mathlib.Control.Basic

namespace Foundation

/-! ## Scanners that read byte by byte -/

/-- What is read is taken from the front of the text; nothing stands for an error. -/
abbrev Scanner (α : Type) := StateT Bytes Option α

namespace Scanner
variable {α β : Type} {x : Scanner α} {f : α → Scanner β}

/-- Reads one byte. At the end of the text there is none. -/
def get : Scanner UInt8 := fun text => match text with
  | [] => none
  | b :: rest => some (b, rest)

/-- Reads one byte and takes it for what it stands for. -/
def accept (f : UInt8 → Option α) : Scanner α := do
  match f (← get) with
  | some a => return a
  | none => failure

def expect : Bytes → Scanner Unit
  | [] => return
  | b :: rest => do
      accept fun c => if c = b then some () else none
      expect rest

/-- What is returned depends on what is read only, not on what comes behind it. -/
def Local (x : Scanner α) : Prop :=
  ∀ text a rest, x text = some (a, rest) → ∃ consumed, text = consumed ++ rest ∧ ∀ more, x (consumed ++ more) = some (a, more)

/-- White space at the end of the text makes no difference. -/
def Steady (x : Scanner α) : Prop :=
  ∀ text after, (∀ b ∈ after, isBlank b) → (x text = none → x (text ++ after) = none) ∧
    ∀ a rest, x text = some (a, rest) → ∃ left, (∀ b ∈ left, isBlank b) ∧ x (text ++ after) = some (a, rest ++ left)

/-- Whatever is returned has the property. -/
def Yields (P : α → Prop) (x : Scanner α) : Prop := ∀ text a rest, x text = some (a, rest) → P a

theorem bind_apply (text : Bytes) : (x >>= f) text = match x text with
    | some (a, rest) => f a rest
    | none => none := by
  show (StateT.bind x f) text = _
  unfold StateT.bind
  cases x text <;> rfl

theorem bind_of_some {text rest : Bytes} {a : α} (run : x text = some (a, rest)) : (x >>= f) text = f a rest := by
  rw [bind_apply, run]

theorem bind_of_none {text : Bytes} (fails : x text = none) : (x >>= f) text = none := by
  rw [bind_apply, fails]

theorem bind_eq_some {text rest : Bytes} {b : β} :
    (x >>= f) text = some (b, rest) ↔ ∃ a mid, x text = some (a, mid) ∧ f a mid = some (b, rest) := by
  rw [bind_apply]
  cases x text with
  | none => simp
  | some pair =>
      obtain ⟨a, mid⟩ := pair
      simp

theorem map_eq_some {g : α → β} {text rest : Bytes} {b : β} :
    (g <$> x) text = some (b, rest) ↔ ∃ a, x text = some (a, rest) ∧ g a = b := by
  rw [← bind_pure_comp, bind_eq_some]
  constructor
  · intro run
    obtain ⟨a, mid, runX, eq⟩ := run
    cases eq
    exact ⟨a, runX, rfl⟩
  · intro run
    obtain ⟨a, runX, rfl⟩ := run
    exact ⟨a, rest, runX, rfl⟩

theorem pure_apply (a : α) (text : Bytes) : (pure a : Scanner α) text = some (a, text) := rfl

theorem failure_apply (text : Bytes) : (failure : Scanner α) text = none := rfl

theorem get_cons (b : UInt8) (rest : Bytes) : get (b :: rest) = some (b, rest) := rfl

theorem accept_cons (f : UInt8 → Option α) (b : UInt8) (rest : Bytes) :
    accept f (b :: rest) = (f b).map fun a => (a, rest) := by
  rw [accept, bind_of_some (get_cons b rest)]
  cases f b <;> rfl

theorem accept_eq_some {f : UInt8 → Option α} {text rest : Bytes} {a : α} :
    accept f text = some (a, rest) ↔ ∃ b, text = b :: rest ∧ f b = some a := by
  cases text with
  | nil =>
      have ends : get [] = none := rfl
      simp [accept, bind_of_none ends]
  | cons c more =>
      rw [accept_cons, Option.map_eq_some_iff]
      constructor
      · intro read
        obtain ⟨a', found, eq⟩ := read
        cases eq
        exact ⟨c, rfl, found⟩
      · intro read
        obtain ⟨b, eq, found⟩ := read
        cases eq
        exact ⟨a, found, rfl⟩

/-! ### Local scanners -/

theorem local_pure (a : α) : Local (pure a : Scanner α) := by
  intro text a' rest run
  cases run
  exact ⟨[], rfl, fun _ => rfl⟩

theorem local_failure : Local (failure : Scanner α) := by
  intro text a rest run
  cases run

theorem local_get : Local get := by
  intro text b rest run
  cases text with
  | nil => cases run
  | cons c more =>
      cases run
      exact ⟨[b], rfl, fun _ => rfl⟩

theorem Local.bind (first : Local x) (second : ∀ a, Local (f a)) : Local (x >>= f) := by
  intro text b rest run
  obtain ⟨a, mid, runX, runF⟩ := bind_eq_some.mp run
  obtain ⟨read, rfl, again⟩ := first text a mid runX
  obtain ⟨more, rfl, finish⟩ := second a mid b rest runF
  refine ⟨read ++ more, by rw [List.append_assoc], ?_⟩
  intro after
  rw [List.append_assoc, bind_of_some (again _), finish]

theorem Local.ite {c : Prop} [Decidable c] {y : Scanner α} (yes : c → Local x) (no : ¬ c → Local y) :
    Local (if c then x else y) := by
  split
  · exact yes ‹c›
  · exact no ‹¬ c›

theorem local_accept (f : UInt8 → Option α) : Local (accept f) := by
  apply local_get.bind
  intro b
  cases f b with
  | some a => exact local_pure a
  | none => exact local_failure

theorem local_expect (expected : Bytes) : Local (expect expected) := by
  induction expected with
  | nil => exact local_pure ()
  | cons b rest ih => exact (local_accept _).bind fun _ => ih

theorem Local.append (loc : Local x) {text rest : Bytes} {a : α} (run : x text = some (a, rest)) (more : Bytes) :
    x (text ++ more) = some (a, rest ++ more) := by
  obtain ⟨consumed, rfl, again⟩ := loc text a rest run
  rw [List.append_assoc, again]

theorem Local.shorter (loc : Local x) {text rest : Bytes} {a : α} (run : x text = some (a, rest)) :
    rest.length ≤ text.length := by
  obtain ⟨consumed, rfl, -⟩ := loc text a rest run
  simp

/-! ### Steady scanners -/

theorem steady_pure (a : α) : Steady (pure a : Scanner α) := by
  intro text after blank
  refine ⟨fun fails => (by cases fails), ?_⟩
  intro a' rest run
  cases run
  exact ⟨after, blank, rfl⟩

theorem steady_failure : Steady (failure : Scanner α) := by
  intro text after _
  refine ⟨fun _ => rfl, ?_⟩
  intro a rest run
  cases run

theorem Steady.bind (first : Steady x) (second : ∀ a, Steady (f a)) : Steady (x >>= f) := by
  intro text after blank
  cases run : x text with
  | none =>
      rw [bind_of_none run, bind_of_none ((first text after blank).1 run)]
      exact ⟨fun _ => rfl, fun b rest run => (by cases run)⟩
  | some pair =>
      obtain ⟨a, mid⟩ := pair
      obtain ⟨left, blankLeft, again⟩ := (first text after blank).2 a mid run
      rw [bind_of_some run, bind_of_some again]
      exact second a mid left blankLeft

theorem Steady.map (first : Steady x) (g : α → β) : Steady (g <$> x) := by
  rw [← bind_pure_comp]
  exact first.bind fun a => steady_pure (g a)

theorem Steady.ite {c : Prop} [Decidable c] {y : Scanner α} (yes : c → Steady x) (no : ¬ c → Steady y) :
    Steady (if c then x else y) := by
  split
  · exact yes ‹c›
  · exact no ‹¬ c›

theorem Local.steady (loc : Local x)
    (fails : ∀ text after, (∀ b ∈ after, isBlank b) → x text = none → x (text ++ after) = none) : Steady x := by
  intro text after blank
  refine ⟨fails text after blank, ?_⟩
  intro a rest run
  exact ⟨after, blank, loc.append run after⟩

theorem steady_accept {f : UInt8 → Option α} (refuses : ∀ b, isBlank b → f b = none) : Steady (accept f) := by
  apply (local_accept f).steady
  intro text after blank fails
  cases text with
  | nil =>
      cases after with
      | nil => exact fails
      | cons b more => rw [List.nil_append, accept_cons, refuses b (blank b (List.mem_cons_self ..)), Option.map_none]
  | cons b more =>
      rw [accept_cons, Option.map_eq_none_iff] at fails
      rw [List.cons_append, accept_cons, fails, Option.map_none]

theorem steady_expect {expected : Bytes} (letters : expected.any isBlank = false) : Steady (expect expected) := by
  induction expected with
  | nil => exact steady_pure ()
  | cons b rest ih =>
      rw [List.any_cons, Bool.or_eq_false_iff] at letters
      apply Steady.bind
      · apply steady_accept
        intro c blank
        rw [if_neg]
        rintro rfl
        rw [letters.1] at blank
        cases blank
      · intro _
        exact ih letters.2

/-! ### What scanners return -/

section Yields
variable {P : α → Prop} {Q : β → Prop}

theorem yields_pure {a : α} (holds : P a) : Yields P (pure a : Scanner α) := by
  intro text a' rest run
  cases run
  exact holds

theorem yields_failure : Yields P (failure : Scanner α) := by
  intro text a rest run
  cases run

theorem yields_any (x : Scanner α) : Yields (fun _ => True) x := fun _ _ _ _ => trivial

theorem Yields.bind (first : Yields P x) (second : ∀ a, P a → Yields Q (f a)) : Yields Q (x >>= f) := by
  intro text b rest run
  obtain ⟨a, mid, runX, runF⟩ := bind_eq_some.mp run
  exact second a (first text a mid runX) mid b rest runF

theorem Yields.ite {c : Prop} [Decidable c] {y : Scanner α} (yes : c → Yields P x) (no : ¬ c → Yields P y) :
    Yields P (if c then x else y) := by
  split
  · exact yes ‹c›
  · exact no ‹¬ c›

end Yields

end Scanner
end Foundation
