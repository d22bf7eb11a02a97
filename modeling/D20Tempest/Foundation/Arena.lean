import Mathlib.Logic.Function.Basic

namespace Foundation
variable {α β : Type}

abbrev Ref := Nat

/-- The objects alive at a moment. An identity is used once, so a pointer that outlives its object
never comes to mean another one. -/
@[ext]
structure Arena (α : Type) where
  cells : Ref → Option α
  next : Ref
  unused : ∀ r, next ≤ r → cells r = none

namespace Arena

def empty : Arena α := ⟨fun _ => none, 0, fun _ _ => rfl⟩

def get (arena : Arena α) (r : Ref) : Option α := arena.cells r

def Alive (arena : Arena α) (r : Ref) : Prop := (arena.get r).isSome

def alloc (arena : Arena α) (object : α) : Arena α where
  cells := Function.update arena.cells arena.next (some object)
  next := arena.next + 1
  unused r le := by
    rw [Function.update_of_ne (Nat.ne_of_gt le)]
    exact arena.unused r (Nat.le_of_succ_le le)

def modify (arena : Arena α) (r : Ref) (f : α → α) : Arena α where
  cells := Function.update arena.cells r ((arena.cells r).map f)
  next := arena.next
  unused s le := by
    by_cases h : s = r
    · subst h
      simp [arena.unused s le]
    · rw [Function.update_of_ne h]
      exact arena.unused s le

def free (arena : Arena α) (r : Ref) : Arena α where
  cells := Function.update arena.cells r none
  next := arena.next
  unused s le := by
    by_cases h : s = r
    · simp [h]
    · rw [Function.update_of_ne h]
      exact arena.unused s le

@[simp] theorem get_next (arena : Arena α) : arena.get arena.next = none :=
  arena.unused _ (Nat.le_refl _)

theorem get_alloc (arena : Arena α) (object : α) (r : Ref) :
    (arena.alloc object).get r = if r = arena.next then some object else arena.get r := by
  simp [get, alloc, Function.update_apply]

@[simp] theorem get_alloc_next (arena : Arena α) (object : α) :
    (arena.alloc object).get arena.next = some object := by simp [get_alloc]

theorem get_modify (arena : Arena α) (r : Ref) (f : α → α) (s : Ref) :
    (arena.modify r f).get s = if s = r then (arena.get r).map f else arena.get s := by
  simp [get, modify, Function.update_apply]

@[simp] theorem get_modify_self (arena : Arena α) (r : Ref) (f : α → α) :
    (arena.modify r f).get r = (arena.get r).map f := by simp [get_modify]

theorem get_modify_of_ne (arena : Arena α) {r s : Ref} (f : α → α) (h : s ≠ r) :
    (arena.modify r f).get s = arena.get s := by simp [get_modify, h]

theorem map_get_modify (arena : Arena α) (r s : Ref) {f : α → α} {view : α → β} (kept : ∀ object, view (f object) = view object) :
    ((arena.modify r f).get s).map view = (arena.get s).map view := by
  rw [get_modify]
  split
  · rename_i same
    subst same
    cases arena.get s <;> simp [kept]
  · rfl

theorem get_free (arena : Arena α) (r s : Ref) :
    (arena.free r).get s = if s = r then none else arena.get s := by
  simp [get, free, Function.update_apply]

theorem modify_modify (arena : Arena α) (r : Ref) (f g : α → α) :
    (arena.modify r f).modify r g = arena.modify r (g ∘ f) := by
  apply Arena.ext
  · funext t
    by_cases same : t = r
    · subst same
      simp [modify]
    · simp [modify, same]
  · rfl

theorem modify_alloc (arena : Arena α) (object : α) (f : α → α) :
    (arena.alloc object).modify arena.next f = arena.alloc (f object) := by
  apply Arena.ext
  · funext t
    by_cases same : t = arena.next
    · subst same
      simp [modify, alloc]
    · simp [modify, alloc, same]
  · rfl

theorem modify_free (arena : Arena α) (r : Ref) (f : α → α) : (arena.free r).modify r f = arena.free r := by
  apply Arena.ext
  · funext t
    by_cases same : t = r
    · subst same
      simp [modify, free]
    · simp [modify, same]
  · rfl

theorem modify_of_get {arena : Arena α} {r : Ref} {object : α} (h : arena.get r = some object) :
    arena.modify r (fun _ => object) = arena := by
  apply Arena.ext
  · funext t
    by_cases same : t = r
    · subst same
      rw [get] at h
      simp [modify, h]
    · simp [modify, same]
  · rfl

/-! ### Objects seen through a function -/

def map (f : α → β) (arena : Arena α) : Arena β where
  cells r := (arena.cells r).map f
  next := arena.next
  unused r le := by rw [arena.unused r le, Option.map_none]

theorem get_map (f : α → β) (arena : Arena α) (r : Ref) : (arena.map f).get r = (arena.get r).map f := rfl

theorem map_congr {f g : α → β} {arena : Arena α} (same : ∀ r object, arena.get r = some object → f object = g object) :
    arena.map f = arena.map g := by
  apply Arena.ext
  · funext r
    exact Option.map_congr fun object held => same r object held
  · rfl

theorem map_alloc (f : α → β) (arena : Arena α) (object : α) : (arena.alloc object).map f = (arena.map f).alloc (f object) := by
  apply Arena.ext
  · funext r
    by_cases same : r = arena.next
    · subst same
      simp [map, alloc]
    · simp [map, alloc, same]
  · rfl

theorem map_modify {f : α → β} {arena : Arena α} {r : Ref} {g : α → α} {g' : β → β}
    (same : ∀ object, arena.get r = some object → f (g object) = g' (f object)) :
    (arena.modify r g).map f = (arena.map f).modify r g' := by
  apply Arena.ext
  · funext t
    by_cases here : t = r
    · subst here
      cases held : arena.cells t with
      | none => simp [map, modify, held]
      | some object => simp [map, modify, held, same object held]
    · simp [map, modify, here]
  · rfl

theorem lt_next {arena : Arena α} {r : Ref} {object : α} (h : arena.get r = some object) :
    r < arena.next := by
  by_contra le
  have dead : arena.get r = none := arena.unused r (Nat.not_lt.mp le)
  simp [dead] at h

end Arena
end Foundation
