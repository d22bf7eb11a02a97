import Mathlib.Order.Lattice
import Mathlib.Data.List.Pairwise
import Mathlib.Data.Prod.Basic

namespace Foundation
variable {κ α β : Type} [LinearOrder κ]

/-! ## Association lists in key order -/

namespace Assoc

def find (key : κ) : List (κ × α) → Option α
  | [] => none
  | (k, v) :: rest => if k = key then some v else find key rest

def assign (key : κ) (value : α) : List (κ × α) → List (κ × α)
  | [] => [(key, value)]
  | (k, v) :: rest =>
      if key < k then (key, value) :: (k, v) :: rest
      else if key = k then (key, value) :: rest
      else (k, v) :: assign key value rest

abbrev Sorted (entries : List (κ × α)) : Prop := entries.Pairwise fun x y => x.1 < y.1

theorem find_eq_none {key : κ} {entries : List (κ × α)} (h : ∀ e ∈ entries, e.1 ≠ key) :
    find key entries = none := by
  induction entries with
  | nil => rfl
  | cons e rest ih =>
      have headNe : e.1 ≠ key := h e (by simp)
      simp [find, headNe, ih fun e' he' => h e' (by simp [he'])]

theorem mem_of_find {key : κ} {value : α} {entries : List (κ × α)}
    (h : find key entries = some value) : (key, value) ∈ entries := by
  induction entries with
  | nil => cases h
  | cons e rest ih =>
      obtain ⟨k, v⟩ := e
      simp only [find] at h
      split at h
      · rename_i same
        cases h
        simp [same]
      · exact List.mem_cons_of_mem _ (ih h)

theorem find_of_mem {key : κ} {value : α} {entries : List (κ × α)} (sorted : Sorted entries)
    (h : (key, value) ∈ entries) : find key entries = some value := by
  induction entries with
  | nil => cases h
  | cons e rest ih =>
      obtain ⟨k, v⟩ := e
      rw [Sorted, List.pairwise_cons] at sorted
      rcases List.mem_cons.mp h with same | later
      · cases same
        simp [find]
      · have below : k < key := sorted.1 _ later
        simp [find, below.ne, ih sorted.2 later]

theorem mem_assign {key : κ} {value : α} {entries : List (κ × α)} {e : κ × α}
    (h : e ∈ assign key value entries) : e = (key, value) ∨ e ∈ entries := by
  induction entries with
  | nil => simpa [assign] using h
  | cons head rest ih =>
      obtain ⟨k, v⟩ := head
      simp only [assign] at h
      split at h
      · simpa using h
      · split at h
        · rcases List.mem_cons.mp h with h | h
          · exact .inl h
          · exact .inr (by simp [h])
        · rcases List.mem_cons.mp h with h | h
          · exact .inr (by simp [h])
          · rcases ih h with h | h
            · exact .inl h
            · exact .inr (by simp [h])

theorem sorted_assign (key : κ) (value : α) {entries : List (κ × α)} (sorted : Sorted entries) :
    Sorted (assign key value entries) := by
  induction entries with
  | nil => simp [assign, Sorted]
  | cons head rest ih =>
      obtain ⟨k, v⟩ := head
      have ⟨above, tailSorted⟩ := List.pairwise_cons.mp sorted
      simp only [assign]
      split
      · rename_i below
        refine List.pairwise_cons.mpr ⟨?_, sorted⟩
        intro e he
        rcases List.mem_cons.mp he with rfl | he
        · exact below
        · exact below.trans (above e he)
      · rename_i notBelow
        split
        · rename_i same
          subst same
          exact List.pairwise_cons.mpr ⟨above, tailSorted⟩
        · rename_i ne
          refine List.pairwise_cons.mpr ⟨?_, ih tailSorted⟩
          intro e he
          rcases mem_assign he with rfl | he
          · exact lt_of_le_of_ne (not_lt.mp notBelow) (Ne.symm ne)
          · exact above e he

theorem find_assign (key : κ) (value : α) (entries : List (κ × α)) (other : κ) :
    find other (assign key value entries) =
      if key = other then some value else find other entries := by
  induction entries with
  | nil => simp [assign, find]
  | cons head rest ih =>
      obtain ⟨k, v⟩ := head
      simp only [assign]
      split
      · simp [find]
      · split
        · rename_i same
          subst same
          by_cases h : key = other <;> simp [find, h]
        · rename_i ne
          by_cases h : k = other
          · subst h
            simp [find, ne]
          · simp [find, h, ih]

theorem ext {xs ys : List (κ × α)} (sx : Sorted xs) (sy : Sorted ys)
    (same : ∀ key, find key xs = find key ys) : xs = ys := by
  induction xs generalizing ys with
  | nil =>
      cases ys with
      | nil => rfl
      | cons y ys => simpa [find] using same y.1
  | cons x xs ih =>
      obtain ⟨k, v⟩ := x
      cases ys with
      | nil => simpa [find] using same k
      | cons y ys =>
          obtain ⟨k', v'⟩ := y
          have ⟨aboveX, tailX⟩ := List.pairwise_cons.mp sx
          have ⟨aboveY, tailY⟩ := List.pairwise_cons.mp sy
          have memX : (k, v) ∈ (k', v') :: ys := mem_of_find (by simpa [find] using (same k).symm)
          have memY : (k', v') ∈ (k, v) :: xs := mem_of_find (by simpa [find] using same k')
          have keys : k = k' := by
            rcases List.mem_cons.mp memX with h | h
            · exact congrArg Prod.fst h
            · rcases List.mem_cons.mp memY with h' | h'
              · exact (congrArg Prod.fst h').symm
              · exact absurd (aboveX _ h') (aboveY _ h).asymm
          subst keys
          have values : v = v' := by simpa [find] using same k
          subst values
          congr 1
          apply ih tailX tailY
          intro key
          by_cases h : k = key
          · subst h
            rw [find_eq_none fun e he => (aboveX e he).ne', find_eq_none fun e he => (aboveY e he).ne']
          · simpa [find, h] using same key

end Assoc

/-! ## Maps -/

/-- A `std::map`: the entries in increasing key order, each key once. -/
@[ext]
structure OrderedMap (κ α : Type) [LinearOrder κ] where
  entries : List (κ × α)
  sorted : Assoc.Sorted entries

namespace OrderedMap

def empty : OrderedMap κ α := ⟨[], List.Pairwise.nil⟩

def find (m : OrderedMap κ α) (key : κ) : Option α := Assoc.find key m.entries

def assign (m : OrderedMap κ α) (key : κ) (value : α) : OrderedMap κ α :=
  ⟨Assoc.assign key value m.entries, Assoc.sorted_assign key value m.sorted⟩

/-- `m.insert({key, value})`: an entry that is there already stays. -/
def insert (m : OrderedMap κ α) (key : κ) (value : α) : OrderedMap κ α :=
  match m.find key with
  | none => m.assign key value
  | some _ => m

def erase (m : OrderedMap κ α) (key : κ) : OrderedMap κ α :=
  ⟨m.entries.filter (·.1 ≠ key), m.sorted.filter _⟩

def keys (m : OrderedMap κ α) : List κ := m.entries.map Prod.fst

def values (m : OrderedMap κ α) : List α := m.entries.map Prod.snd

def map (m : OrderedMap κ α) (f : κ → α → β) : OrderedMap κ β :=
  ⟨m.entries.map fun e => (e.1, f e.1 e.2), by
    simpa [Assoc.Sorted, List.pairwise_map] using m.sorted⟩

theorem mem_entries {m : OrderedMap κ α} {key : κ} {value : α} :
    (key, value) ∈ m.entries ↔ m.find key = some value :=
  ⟨Assoc.find_of_mem m.sorted, Assoc.mem_of_find⟩

theorem mem_values {m : OrderedMap κ α} {value : α} :
    value ∈ m.values ↔ ∃ key, m.find key = some value := by
  simp only [values, List.mem_map, Prod.exists, mem_entries, exists_eq_right]

theorem ext_find {m n : OrderedMap κ α} (h : ∀ key, m.find key = n.find key) : m = n :=
  OrderedMap.ext (Assoc.ext m.sorted n.sorted h)

@[simp] theorem find_empty (key : κ) : (empty : OrderedMap κ α).find key = none := rfl

theorem find_assign (m : OrderedMap κ α) (key : κ) (value : α) (other : κ) :
    (m.assign key value).find other = if key = other then some value else m.find other :=
  Assoc.find_assign key value m.entries other

theorem assign_of_find {m : OrderedMap κ α} {key : κ} {value : α} (h : m.find key = some value) :
    m.assign key value = m := by
  apply ext_find
  intro other
  rw [find_assign]
  split
  · rename_i same
    rw [← same, h]
  · rfl

theorem insert_of_find_none {m : OrderedMap κ α} {key : κ} (value : α) (h : m.find key = none) :
    m.insert key value = m.assign key value := by simp [insert, h]

theorem insert_of_find_some {m : OrderedMap κ α} {key : κ} {old : α} (value : α)
    (h : m.find key = some old) : m.insert key value = m := by simp [insert, h]

theorem find_insert (m : OrderedMap κ α) (key : κ) (value : α) (other : κ) :
    (m.insert key value).find other =
      if key = other then some ((m.find key).getD value) else m.find other := by
  cases h : m.find key with
  | none => simp [insert_of_find_none value h, find_assign]
  | some old =>
      rw [insert_of_find_some value h]
      split
      · rename_i same
        simp [← same, h]
      · rfl

theorem find_insert_of_ne (m : OrderedMap κ α) {key other : κ} (value : α) (h : key ≠ other) :
    (m.insert key value).find other = m.find other := by simp [find_insert, h]

theorem find_erase (m : OrderedMap κ α) (key other : κ) :
    (m.erase key).find other = if key = other then none else m.find other := by
  split
  · rename_i same
    subst same
    apply Assoc.find_eq_none
    intro e he
    simpa using (List.mem_filter.mp he).2
  · rename_i ne
    apply Option.ext
    intro value
    rw [← mem_entries, ← mem_entries, erase, List.mem_filter]
    simp [Ne.symm ne]

theorem find_map (m : OrderedMap κ α) (f : κ → α → β) (key : κ) :
    (m.map f).find key = (m.find key).map (f key) := by
  apply Option.ext
  intro value
  rw [← mem_entries]
  simp only [map, List.mem_map, Prod.mk.injEq, Prod.exists, Option.map_eq_some_iff]
  constructor
  · intro visited
    obtain ⟨k, a, mem, rfl, rfl⟩ := visited
    exact ⟨a, mem_entries.mp mem, rfl⟩
  · intro held
    obtain ⟨a, found, rfl⟩ := held
    exact ⟨key, a, mem_entries.mpr found, rfl, rfl⟩

theorem map_entries (m : OrderedMap κ α) (f : κ → α → β) :
    (m.map f).entries = m.entries.map fun e => (e.1, f e.1 e.2) := rfl

theorem find_filterMap_entries {f : α → Option β} {entries : List (κ × α)} (sorted : Assoc.Sorted entries) (key : κ) :
    Assoc.find key (entries.filterMap fun e => (f e.2).map (Prod.mk e.1)) = (Assoc.find key entries).bind f := by
  induction entries with
  | nil => rfl
  | cons e rest ih =>
      obtain ⟨k, v⟩ := e
      have ⟨above, tailSorted⟩ := List.pairwise_cons.mp sorted
      have tail := ih tailSorted
      by_cases same : k = key
      · subst same
        have absent : Assoc.find k rest = none := Assoc.find_eq_none fun e mem => (above e mem).ne'
        rw [absent] at tail
        cases kept : f v <;> simp [Assoc.find, kept, tail]
      · cases kept : f v <;> simp [Assoc.find, kept, same, tail]

def filterMap (m : OrderedMap κ α) (f : α → Option β) : OrderedMap κ β where
  entries := m.entries.filterMap fun e => (f e.2).map (Prod.mk e.1)
  sorted := by
    refine List.Pairwise.filterMap _ ?_ m.sorted
    intro e e' below b held b' held'
    obtain ⟨v, -, rfl⟩ := Option.map_eq_some_iff.mp held
    obtain ⟨v', -, rfl⟩ := Option.map_eq_some_iff.mp held'
    exact below

theorem find_filterMap (m : OrderedMap κ α) (f : α → Option β) (key : κ) :
    (m.filterMap f).find key = (m.find key).bind f := find_filterMap_entries m.sorted key

theorem find_foldl_insert (entries : List (κ × β)) (g : κ × β → α) (m : OrderedMap κ α) (key : κ) :
    (entries.foldl (fun m e => m.insert e.1 (g e)) m).find key =
      (m.find key).or ((entries.find? (·.1 = key)).map g) := by
  induction entries generalizing m with
  | nil => simp
  | cons e rest ih =>
      rw [List.foldl_cons, ih, find_insert]
      by_cases same : e.1 = key
      · subst same
        cases m.find e.1 <;> simp
      · simp [same]

theorem find?_entries (m : OrderedMap κ α) (key : κ) :
    m.entries.find? (·.1 = key) = (m.find key).map (key, ·) := by
  rw [find]
  induction m.entries with
  | nil => rfl
  | cons e rest ih =>
      obtain ⟨k, v⟩ := e
      by_cases same : k = key
      · simp [Assoc.find, same]
      · simp [Assoc.find, same, ih]

/-! ## Visiting the values in place -/

section Visit
variable {ε : Type}

/-- Run an action on each value in key order and put back what it leaves; an exception ends the
visit. -/
def visitEntries (f : EStateM ε α β) :
    List (κ × α) → EStateM.Result ε (List (κ × α)) (List (κ × β))
  | [] => .ok [] []
  | (key, a) :: rest => match f a with
      | .error e a' => .error e ((key, a') :: rest)
      | .ok b a' => match visitEntries f rest with
          | .error e rest' => .error e ((key, a') :: rest')
          | .ok bs rest' => .ok ((key, b) :: bs) ((key, a') :: rest')

def leftEntries : EStateM.Result ε (List (κ × α)) (List (κ × β)) → List (κ × α)
  | .ok _ entries => entries
  | .error _ entries => entries

omit [LinearOrder κ] in
theorem visitEntries_keys (f : EStateM ε α β) (entries : List (κ × α)) :
    (leftEntries (visitEntries f entries)).map Prod.fst = entries.map Prod.fst := by
  induction entries with
  | nil => rfl
  | cons e rest ih =>
      obtain ⟨key, a⟩ := e
      simp only [visitEntries]
      cases f a with
      | error e a' => rfl
      | ok b a' =>
          cases visited : visitEntries f rest <;>
            simpa [visited, leftEntries] using ih

def visit (f : EStateM ε α β) (m : OrderedMap κ α) :
    EStateM.Result ε (OrderedMap κ α) (List (κ × β)) :=
  have sorted : Assoc.Sorted (leftEntries (visitEntries f m.entries)) := by
    have keys := visitEntries_keys f m.entries
    have before := m.sorted
    rw [Assoc.Sorted, ← List.pairwise_map (R := (· < ·))] at before ⊢
    rwa [keys]
  match visitEntries f m.entries with
  | .ok bs _ => .ok bs ⟨_, sorted⟩
  | .error e _ => .error e ⟨_, sorted⟩

omit [LinearOrder κ] in
theorem visitEntries_of_forall {f : EStateM ε α β} {g : α → β} {h : α → α} {entries : List (κ × α)}
    (all : ∀ e ∈ entries, f e.2 = .ok (g e.2) (h e.2)) :
    visitEntries f entries =
      .ok (entries.map fun e => (e.1, g e.2)) (entries.map fun e => (e.1, h e.2)) := by
  induction entries with
  | nil => rfl
  | cons e rest ih =>
      have head : f e.2 = .ok (g e.2) (h e.2) := all e (by simp)
      have tail := ih fun e' he' => all e' (by simp [he'])
      simp [visitEntries, head, tail]

theorem visit_of_forall {f : EStateM ε α β} {g : α → β} {h : α → α} {m : OrderedMap κ α}
    (all : ∀ key a, m.find key = some a → f a = .ok (g a) (h a)) :
    m.visit f = .ok (m.entries.map fun e => (e.1, g e.2)) (m.map fun _ a => h a) := by
  have visited : visitEntries f m.entries =
      .ok (m.entries.map fun e => (e.1, g e.2)) (m.entries.map fun e => (e.1, h e.2)) :=
    visitEntries_of_forall fun e he => all e.1 e.2 (mem_entries.mp he)
  unfold visit
  simp only [visited]
  rfl

omit [LinearOrder κ] in
theorem forall_of_visitEntries {f : EStateM ε α β} {entries left : List (κ × α)} {bs : List (κ × β)}
    (visited : visitEntries f entries = .ok bs left) : ∀ e ∈ entries, ∃ b a', f e.2 = .ok b a' := by
  induction entries generalizing bs left with
  | nil => simp
  | cons e rest ih =>
      obtain ⟨key, a⟩ := e
      simp only [visitEntries] at visited
      cases run : f a with
      | error e a' => simp [run] at visited
      | ok b a' =>
          cases more : visitEntries f rest with
          | error e rest' => simp [run, more] at visited
          | ok bs' rest' =>
              intro e he
              rcases List.mem_cons.mp he with rfl | he
              · exact ⟨b, a', run⟩
              · exact ih more e he

theorem forall_of_visit {f : EStateM ε α β} {m m' : OrderedMap κ α} {bs : List (κ × β)}
    (visited : m.visit f = .ok bs m') {key : κ} {a : α} (found : m.find key = some a) :
    ∃ b a', f a = .ok b a' := by
  unfold visit at visited
  cases entries : visitEntries f m.entries with
  | error e left => simp [entries] at visited
  | ok bs' left => exact forall_of_visitEntries entries _ (mem_entries.mpr found)

omit [LinearOrder κ] in
theorem forall_leftEntries {P : α → Prop} {f : EStateM ε α β} (returns : ∀ a b a', P a → f a = .ok b a' → P a')
    (throws : ∀ a e a', P a → f a = .error e a' → P a') (entries : List (κ × α)) (all : ∀ e ∈ entries, P e.2) :
    ∀ e ∈ leftEntries (visitEntries f entries), P e.2 := by
  induction entries with
  | nil => simp [visitEntries, leftEntries]
  | cons e rest ih =>
      obtain ⟨key, a⟩ := e
      obtain ⟨first, others⟩ := List.forall_mem_cons.mp all
      have more := ih others
      simp only [visitEntries]
      cases run : f a with
      | error e a' => exact List.forall_mem_cons.mpr ⟨throws a e a' first run, others⟩
      | ok b a' =>
          have head := returns a b a' first run
          cases visited : visitEntries f rest with
          | error e rest' =>
              rw [visited] at more
              exact List.forall_mem_cons.mpr ⟨head, more⟩
          | ok bs rest' =>
              rw [visited] at more
              exact List.forall_mem_cons.mpr ⟨head, more⟩

theorem visit_entries (f : EStateM ε α β) (m : OrderedMap κ α) :
    ∃ left, left.entries = leftEntries (visitEntries f m.entries) ∧
      ((∃ bs, m.visit f = .ok bs left) ∨ ∃ e, m.visit f = .error e left) := by
  unfold visit
  dsimp only
  split
  · refine ⟨_, ?_, .inl ⟨_, rfl⟩⟩
    rfl
  · refine ⟨_, ?_, .inr ⟨_, rfl⟩⟩
    rfl

theorem visit_forall {P : α → Prop} {f : EStateM ε α β} {m : OrderedMap κ α}
    (returns : ∀ a b a', P a → f a = .ok b a' → P a') (throws : ∀ a e a', P a → f a = .error e a' → P a')
    (all : ∀ key a, m.find key = some a → P a) :
    ∃ left, (∀ key a, left.find key = some a → P a) ∧
      ((∃ bs, m.visit f = .ok bs left) ∨ ∃ e, m.visit f = .error e left) := by
  obtain ⟨left, entries, visited⟩ := visit_entries f m
  refine ⟨left, fun key a found => ?_, visited⟩
  have kept := forall_leftEntries returns throws m.entries fun e mem => all e.1 e.2 (mem_entries.mp mem)
  exact kept (key, a) (entries ▸ mem_entries.mpr found)

end Visit
end OrderedMap
end Foundation
