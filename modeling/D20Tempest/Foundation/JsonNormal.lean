import D20Tempest.Foundation.Json

namespace Foundation.Json

/-! ## What a text is read as -/

mutual

/-- Only a negative integer is read as one. -/
def normal : Json → Json
  | .integer i => if i.toInt < 0 then .integer i else .unsigned i.toUInt64
  | .array elements => .array (normalElements elements)
  | .object members => .object (normalMembers members)
  | j => j

def normalElements : List Json → List Json
  | [] => []
  | value :: rest => value.normal :: normalElements rest

def normalMembers : List (Bytes × Json) → List (Bytes × Json)
  | [] => []
  | (key, value) :: rest => (key, value.normal) :: normalMembers rest

end

theorem normalElements_eq (elements : List Json) : normalElements elements = elements.map normal := by
  induction elements with
  | nil => rfl
  | cons value rest ih => rw [normalElements, ih, List.map_cons]

theorem normalMembers_eq (members : List (Bytes × Json)) :
    normalMembers members = members.map fun m => (m.1, m.2.normal) := by
  induction members with
  | nil => rfl
  | cons m rest ih =>
      obtain ⟨key, value⟩ := m
      rw [normalMembers, ih, List.map_cons]

/-! ## What is seen of it -/

section
variable {j : Json}

theorem normal_integer {α : Type} (i : Int64) {f : Json → α} (same : f (.unsigned i.toUInt64) = f (.integer i)) :
    f (integer i).normal = f (.integer i) := by
  rw [normal]
  split
  · rfl
  · exact same

theorem toInt32_toUInt64 (i : Int64) : i.toUInt64.toUInt32.toInt32 = i.toInt32 := by
  apply Int32.toBitVec_inj.mp
  show i.toBitVec.setWidth 32 = i.toBitVec.signExtend 32
  exact (BitVec.signExtend_eq_setWidth_of_le i.toBitVec (by decide)).symm

theorem isDiscarded_normal (j : Json) : j.normal.isDiscarded = j.isDiscarded := by
  cases j with
  | integer i => exact normal_integer i rfl
  | _ => rfl

theorem find_normal (j : Json) (key : Bytes) : j.normal.find key = (j.find key).map normal := by
  cases j with
  | integer i => exact normal_integer (f := (·.find key)) i rfl
  | object members =>
      rw [normal, normalMembers_eq, find, find]
      induction members with
      | nil => rfl
      | cons m rest ih =>
          obtain ⟨k, value⟩ := m
          rw [List.map_cons, Assoc.find, Assoc.find]
          split
          · rfl
          · exact ih
  | _ => rfl

theorem contains_normal (j : Json) (key : Bytes) : j.normal.contains key = j.contains key := by
  rw [contains, contains, find_normal, Option.isSome_map]

theorem index_normal (j : Json) (key : Bytes) : j.normal.index key = (j.index key).map normal := by
  cases j with
  | integer i => exact normal_integer (f := (·.index key)) i rfl
  | object members =>
      have found := find_normal (.object members) key
      rw [normal, find, find] at found
      rw [normal, index, index]
      simp only [found]
      cases Assoc.find key members <;> rfl
  | _ => rfl

theorem getString_normal (j : Json) : j.normal.getString = j.getString := by
  cases j with
  | integer i => exact normal_integer i rfl
  | _ => rfl

theorem getUInt64_normal (j : Json) : j.normal.getUInt64 = j.getUInt64 := by
  cases j with
  | integer i => exact normal_integer i rfl
  | _ => rfl

theorem getInt_normal (j : Json) : j.normal.getInt = j.getInt := by
  cases j with
  | integer i => exact normal_integer i (congrArg Except.ok (toInt32_toUInt64 i))
  | _ => rfl

theorem items_normal (j : Json) : j.normal.items = j.items.map fun e => (e.1, e.2.normal) := by
  cases j with
  | integer i =>
      rw [normal]
      split
      · rename_i negative
        simp only [items, List.map_cons, List.map_nil, normal, if_pos negative]
      · rename_i nonnegative
        simp only [items, List.map_cons, List.map_nil, normal, if_neg nonnegative]
  | object members => rw [normal, items, items, normalMembers_eq]
  | array elements =>
      rw [normal, normalElements_eq, items, items, List.zipIdx_map, List.map_map, List.map_map]
      rfl
  | _ => rfl

/-- What a member is read as does not change. -/
theorem index_bind_normal {α : Type} (j : Json) (key : Bytes) {read : Json → Except Fault α}
    (same : ∀ value : Json, read value.normal = read value) : (j.normal.index key >>= read) = (j.index key >>= read) := by
  rw [index_normal]
  cases j.index key with
  | error e => rfl
  | ok value => exact same value

end

end Foundation.Json
