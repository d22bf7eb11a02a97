import D20Tempest.Foundation.Bytes
import D20Tempest.Foundation.OrderedMap
import Mathlib.Data.List.TakeWhile

namespace Foundation

/-! ## Path names -/

/-- A place in the tree: the names from the place up to the root. -/
abbrev Path := List Bytes

def slash : UInt8 := 0x2F

def dot : Bytes := str "."

def dotDot : Bytes := str ".."

/-- A path name ends at its first NUL byte; `/` separates its components. -/
def components (path : Bytes) : List Bytes := (path.takeWhile (· ≠ 0)).splitOn slash

def descend (place : Path) (component : Bytes) : Path :=
  if component = [] ∨ component = dot then place
  else if component = dotDot then place.tail
  else component :: place

def startOf (cwd : Path) (path : Bytes) : Path := if path.head? = some slash then [] else cwd

def resolve (cwd : Path) (path : Bytes) : Path :=
  (components path).foldl descend (startOf cwd path)

def IsPlain (name : Bytes) : Prop :=
  name ≠ [] ∧ name ≠ dot ∧ name ≠ dotDot ∧ slash ∉ name ∧ 0 ∉ name

instance (name : Bytes) : Decidable (IsPlain name) := by unfold IsPlain; infer_instance

theorem splitOn_excludes {path c : Bytes} (h : c ∈ path.splitOn slash) : slash ∉ c := by
  induction path generalizing c with
  | nil => simp_all
  | cons b rest ih =>
      rw [List.splitOn_cons_eq_if_modifyHead] at h
      split at h
      · rcases List.mem_cons.mp h with rfl | h
        · simp
        · exact ih h
      · rename_i notSlash
        obtain ⟨w, ws, eq⟩ := List.exists_cons_of_ne_nil (List.splitOn_ne_nil slash rest)
        rw [eq, List.modifyHead_cons, List.mem_cons] at h
        rcases h with rfl | h
        · have tail : slash ∉ w := ih (by simp [eq])
          have head : slash ≠ b := fun e => notSlash (by simp [e])
          simp [tail, head]
        · exact ih (by simp [eq, h])

theorem splitOn_subset {path c : Bytes} (h : c ∈ path.splitOn slash) : c ⊆ path := by
  induction path generalizing c with
  | nil => simp_all
  | cons b rest ih =>
      rw [List.splitOn_cons_eq_if_modifyHead] at h
      split at h
      · rcases List.mem_cons.mp h with rfl | h
        · simp
        · exact List.subset_cons_of_subset _ (ih h)
      · obtain ⟨w, ws, eq⟩ := List.exists_cons_of_ne_nil (List.splitOn_ne_nil slash rest)
        rw [eq, List.modifyHead_cons, List.mem_cons] at h
        rcases h with rfl | h
        · exact List.cons_subset_cons _ (ih (by simp [eq]))
        · exact List.subset_cons_of_subset _ (ih (by simp [eq, h]))

theorem mem_components {path c : Bytes} (h : c ∈ components path) : slash ∉ c ∧ 0 ∉ c := by
  refine ⟨splitOn_excludes h, fun nul => ?_⟩
  have kept := List.mem_takeWhile_imp (splitOn_subset h nul)
  simp at kept

theorem components_of_isPlain {name : Bytes} (plain : IsPlain name) : components name = [name] := by
  have whole : name.takeWhile (· ≠ 0) = name := by
    apply List.takeWhile_eq_self_iff.mpr
    intro b mem
    have : b ≠ 0 := fun e => plain.2.2.2.2 (e ▸ mem)
    simpa using this
  rw [components, whole, List.splitOn_eq_singleton plain.2.2.2.1]

theorem components_append {base : Bytes} (h : 0 ∉ base) (name : Bytes) :
    components (base ++ slash :: name) = components base ++ components name := by
  have bytes : ∀ b ∈ base, decide (b ≠ 0) = true := fun b mem => by
    simpa using fun e : b = 0 => h (e ▸ mem)
  have kept : (slash :: name).takeWhile (· ≠ 0) = slash :: name.takeWhile (· ≠ 0) := rfl
  rw [components, List.takeWhile_append_of_pos bytes, kept, List.splitOn_append_cons_self, components,
    List.takeWhile_eq_self_iff.mpr bytes]
  rfl

theorem resolve_append (cwd : Path) {base : Bytes} (h : 0 ∉ base) (ne : base ≠ []) (name : Bytes) :
    resolve cwd (base ++ slash :: name) =
      (components name).foldl descend (resolve cwd (base ++ [slash])) := by
  obtain ⟨b, rest, rfl⟩ := List.exists_cons_of_ne_nil ne
  rw [resolve, resolve, components_append h, components_append h, List.foldl_append, List.foldl_append]
  rfl

theorem descend_of_isPlain (place : Path) {name : Bytes} (plain : IsPlain name) :
    descend place name = name :: place := by
  simp [descend, plain.1, plain.2.1, plain.2.2.1]

/-- What a walk reaches lies on the way up from its start, or was entered by one of its components
under that component's own name. -/
theorem foldl_descend (place : Path) (cs : List Bytes) :
    cs.foldl descend place <:+ place ∨
      ∃ c ∈ cs, c ≠ [] ∧ c ≠ dot ∧ c ≠ dotDot ∧ (cs.foldl descend place).head? = some c := by
  induction cs generalizing place with
  | nil => exact .inl List.suffix_rfl
  | cons c cs ih =>
      rcases ih (descend place c) with up | ⟨d, mem, ne, neDot, neDotDot, head⟩
      · simp only [List.foldl_cons]
        by_cases stay : c = [] ∨ c = dot
        · rw [descend, if_pos stay] at up ⊢
          exact .inl up
        · by_cases parent : c = dotDot
          · rw [descend, if_neg stay, if_pos parent] at up ⊢
            exact .inl (up.trans (List.tail_suffix _))
          · rw [descend, if_neg stay, if_neg parent] at up ⊢
            rcases List.suffix_cons_iff.mp up with entered | up
            · refine .inr ⟨c, by simp, ?_, ?_, parent, by simp [entered]⟩
              · exact fun e => stay (.inl e)
              · exact fun e => stay (.inr e)
            · exact .inl up
      · exact .inr ⟨d, by simp [mem], ne, neDot, neDotDot, by simpa using head⟩

theorem foldl_descend_eq_child {place : Path} {path name : Bytes} :
    (components path).foldl descend place = name :: place → IsPlain name := by
  intro reached
  rcases foldl_descend place (components path) with up | ⟨c, mem, ne, neDot, neDotDot, head⟩
  · have := up.length_le
    rw [reached, List.length_cons] at this
    omega
  · rw [reached, List.head?_cons, Option.some.injEq] at head
    subst head
    have bytes := mem_components mem
    exact ⟨ne, neDot, neDotDot, bytes.1, bytes.2⟩

/-! ## Trees -/

inductive Node where
  | directory
  | file (content : Bytes)
  deriving DecidableEq

/-- The files and directories; what is in the tree is in a directory of the tree. -/
@[ext]
structure FileTree where
  nodes : OrderedMap Path Node
  parents : ∀ name place, (nodes.find (name :: place)).isSome → nodes.find place = some .directory

namespace FileTree

def root : FileTree where
  nodes := ⟨[([], .directory)], List.pairwise_singleton ..⟩
  parents name place h := by
    simp [OrderedMap.find, Assoc.find] at h

def isDirectory (tree : FileTree) (place : Path) : Bool := tree.nodes.find place = some .directory

def content (tree : FileTree) (place : Path) : Option Bytes :=
  match tree.nodes.find place with
  | some (.file bytes) => some bytes
  | _ => none

def traverses (tree : FileTree) : Path → List Bytes → Bool
  | _, [] => true
  | place, c :: cs => tree.isDirectory place && tree.traverses (descend place c) cs

def locate (tree : FileTree) (cwd : Path) (path : Bytes) : Option Path :=
  if tree.traverses (startOf cwd path) (components path) then some (resolve cwd path) else none

def pathExists (tree : FileTree) (cwd : Path) (path : Bytes) : Bool :=
  match tree.locate cwd path with
  | some place => (tree.nodes.find place).isSome
  | none => false

def read (tree : FileTree) (cwd : Path) (path : Bytes) : Option Bytes :=
  (tree.locate cwd path).bind tree.content

def hasEntries (tree : FileTree) (place : Path) : Bool :=
  tree.nodes.keys.any fun other => other ≠ [] ∧ other.tail = place

theorem no_entries {tree : FileTree} {place : Path} (h : tree.hasEntries place = false)
    (name : Bytes) : tree.nodes.find (name :: place) = none := by
  by_contra found
  obtain ⟨node, eq⟩ := Option.ne_none_iff_exists'.mp found
  have key : name :: place ∈ tree.nodes.keys :=
    List.mem_map.mpr ⟨_, OrderedMap.mem_entries.mpr eq, rfl⟩
  rw [hasEntries, List.any_eq_false] at h
  simpa using h _ key

def erase (tree : FileTree) (place : Path) (bare : tree.hasEntries place = false) : FileTree where
  nodes := tree.nodes.erase place
  parents name up h := by
    rw [OrderedMap.find_erase] at h ⊢
    by_cases self : place = name :: up
    · simp [self] at h
    · rw [if_neg self] at h
      have dir := tree.parents name up h
      rw [if_neg, dir]
      rintro rfl
      simp [no_entries bare name] at h

/-- The last component but for slashes behind it is `.`, which `rmdir` refuses. -/
def endsInDot (path : Bytes) : Bool := ((components path).filter (· ≠ [])).getLast? = some dot

/-- `fs::remove`; `none` where it throws, at a directory that is not empty or is called by `.`. -/
def remove (tree : FileTree) (cwd : Path) (path : Bytes) : Option FileTree :=
  match tree.locate cwd path with
  | none => some tree
  | some place =>
      if (tree.nodes.find place).isSome then
        if bare : tree.hasEntries place = false ∧ endsInDot path = false then some (tree.erase place bare.1) else none
      else some tree

def set (tree : FileTree) (place : Path) (node : Node)
    (free : tree.nodes.find place ≠ some .directory ∧ tree.isDirectory place.tail) : FileTree where
  nodes := tree.nodes.assign place node
  parents name up h := by
    rw [OrderedMap.find_assign] at h ⊢
    by_cases self : place = name :: up
    · subst self
      have dir : tree.nodes.find up = some .directory := of_decide_eq_true free.2
      rw [if_neg (by simp), dir]
    · rw [if_neg self] at h
      have dir := tree.parents name up h
      rw [if_neg, dir]
      rintro rfl
      exact free.1 dir

def put (tree : FileTree) (place : Path) (bytes : Bytes) : Option FileTree :=
  if free : tree.nodes.find place ≠ some .directory ∧ tree.isDirectory place.tail then
    some (tree.set place (.file bytes) free)
  else none

/-- A stream opened for writing: the file is there and empty, or the stream has failed. -/
def openTruncated (tree : FileTree) (cwd : Path) (path : Bytes) : Option FileTree :=
  (tree.locate cwd path).bind fun place => tree.put place []

def write (tree : FileTree) (cwd : Path) (path bytes : Bytes) : FileTree :=
  ((tree.locate cwd path).bind fun place => tree.put place bytes).getD tree

def createAlong (tree : FileTree) (place : Path) : List Bytes → Option FileTree
  | [] => some tree
  | c :: cs =>
      let next := descend place c
      if tree.nodes.find next = some .directory then tree.createAlong next cs
      else if free : tree.nodes.find next = none ∧ tree.isDirectory next.tail then
        (tree.set next .directory ⟨by simp [free.1], free.2⟩).createAlong next cs
      else none

def createDirectories (tree : FileTree) (cwd : Path) (path : Bytes) : Option FileTree :=
  tree.createAlong (startOf cwd path) (components path)

/-! ## What the operations change -/

variable {tree tree' : FileTree} {cwd : Path} {path : Bytes}

theorem find_set (place : Path) (node : Node)
    (free : tree.nodes.find place ≠ some .directory ∧ tree.isDirectory place.tail) (other : Path) :
    (tree.set place node free).nodes.find other =
      if place = other then some node else tree.nodes.find other := by
  simp [set, OrderedMap.find_assign]

theorem find_put {place : Path} {bytes : Bytes} (h : tree.put place bytes = some tree')
    (other : Path) :
    tree'.nodes.find other = if place = other then some (.file bytes) else tree.nodes.find other := by
  unfold put at h
  split at h
  · cases h
    exact find_set _ _ _ _
  · cases h

theorem put_free {place : Path} {bytes : Bytes} (h : tree.put place bytes = some tree') :
    tree.nodes.find place ≠ some .directory ∧ tree.isDirectory place.tail := by
  unfold put at h
  split at h
  · assumption
  · cases h

theorem find_remove (h : tree.remove cwd path = some tree') (other : Path) :
    tree'.nodes.find other =
      if tree.locate cwd path = some other then none else tree.nodes.find other := by
  unfold remove at h
  split at h
  · rename_i lost
    cases h
    simp [lost]
  · rename_i place found
    split at h
    · split at h
      · cases h
        simp [found, erase, OrderedMap.find_erase]
      · cases h
    · rename_i absent
      cases h
      split
      · rename_i same
        rw [found, Option.some.injEq] at same
        subst same
        simpa using absent
      · rfl

theorem find_createAlong (place : Path) (cs : List Bytes)
    (h : tree.createAlong place cs = some tree') (other : Path) :
    tree'.nodes.find other = tree.nodes.find other ∨
      tree.nodes.find other = none ∧ tree'.nodes.find other = some .directory ∧
        ∃ n ≤ cs.length, other = (cs.take n).foldl descend place := by
  induction cs generalizing tree place with
  | nil =>
      cases h
      exact .inl rfl
  | cons c cs ih =>
      simp only [createAlong] at h
      split at h
      · rcases ih _ h with same | ⟨absent, made, n, le, eq⟩
        · exact .inl same
        · exact .inr ⟨absent, made, n + 1, by simpa using le, by simpa using eq⟩
      · split at h
        · rename_i free
          by_cases here : descend place c = other
          · rcases ih _ h with same | ⟨absent, _⟩
            · rw [find_set, if_pos here] at same
              exact .inr ⟨here ▸ free.1, same, 1, by simp, by simp [here]⟩
            · simp [find_set, here] at absent
          · rcases ih _ h with same | ⟨absent, made, n, le, eq⟩
            · rw [find_set, if_neg here] at same
              exact .inl same
            · rw [find_set, if_neg here] at absent
              exact .inr ⟨absent, made, n + 1, by simpa using le, by simpa using eq⟩
        · cases h

theorem find_createDirectories (h : tree.createDirectories cwd path = some tree') (other : Path) :
    tree'.nodes.find other = tree.nodes.find other ∨
      tree.nodes.find other = none ∧ tree'.nodes.find other = some .directory :=
  (find_createAlong _ _ h other).imp id fun made => ⟨made.1, made.2.1⟩

theorem directory_createAlong {place : Path} {cs : List Bytes} (h : tree.createAlong place cs = some tree')
    (start : cs = [] → tree.isDirectory place = true) : tree'.isDirectory (cs.foldl descend place) = true := by
  induction cs generalizing tree place with
  | nil =>
      cases h
      exact start rfl
  | cons c cs ih =>
      simp only [createAlong] at h
      split at h
      · rename_i there
        exact ih h fun _ => decide_eq_true there
      · split at h
        · exact ih h fun _ => decide_eq_true (by rw [find_set, if_pos rfl])
        · cases h

theorem directory_createDirectories (h : tree.createDirectories cwd path = some tree') :
    tree'.isDirectory (resolve cwd path) = true :=
  directory_createAlong h fun none => absurd none (List.splitOn_ne_nil slash _)

theorem content_eq_of_find_eq {place : Path} (h : tree'.nodes.find place = tree.nodes.find place) :
    tree'.content place = tree.content place := by rw [content, content, h]

theorem content_createAlong {start : Path} {cs : List Bytes} (h : tree.createAlong start cs = some tree') (place : Path) :
    tree'.content place = tree.content place := by
  rcases find_createAlong _ _ h place with same | ⟨absent, made, -⟩
  · exact content_eq_of_find_eq same
  · simp [content, absent, made]

theorem content_createDirectories (h : tree.createDirectories cwd path = some tree') (place : Path) :
    tree'.content place = tree.content place := content_createAlong h place

theorem traverses_congr (same : ∀ place, tree'.isDirectory place = tree.isDirectory place)
    (place : Path) (cs : List Bytes) : tree'.traverses place cs = tree.traverses place cs := by
  induction cs generalizing place with
  | nil => rfl
  | cons c cs ih => rw [traverses, traverses, same, ih]

theorem locate_congr (same : ∀ place, tree'.isDirectory place = tree.isDirectory place) :
    tree'.locate cwd path = tree.locate cwd path := by
  rw [locate, locate, traverses_congr same]

theorem resolve_of_locate {place : Path} (h : tree.locate cwd path = some place) :
    resolve cwd path = place := by
  unfold locate at h
  split at h
  · exact Option.some.inj h
  · cases h

theorem isDirectory_put {place : Path} {bytes : Bytes} (h : tree.put place bytes = some tree')
    (other : Path) : tree'.isDirectory other = tree.isDirectory other := by
  rw [isDirectory, isDirectory, find_put h]
  split
  · rename_i same
    subst same
    simp [(put_free h).1]
  · rfl

theorem locate_put {place : Path} {bytes : Bytes} (h : tree.put place bytes = some tree') :
    tree'.locate cwd path = tree.locate cwd path := locate_congr (isDirectory_put h)

/-! ## What they leave alone -/

theorem find_remove_of_ne {other : Path} (h : tree.remove cwd path = some tree') (ne : other ≠ resolve cwd path) :
    tree'.nodes.find other = tree.nodes.find other := by
  rw [find_remove h, if_neg]
  intro found
  exact ne (resolve_of_locate found).symm

theorem find_openTruncated_of_ne {other : Path} (ne : other ≠ resolve cwd path) :
    ((tree.openTruncated cwd path).getD tree).nodes.find other = tree.nodes.find other := by
  cases opens : tree.openTruncated cwd path with
  | none => rfl
  | some tree' =>
      obtain ⟨place, found, puts⟩ := Option.bind_eq_some_iff.mp opens
      rw [Option.getD_some, find_put puts, if_neg]
      intro same
      exact ne (same ▸ (resolve_of_locate found).symm)

theorem find_write_of_ne {other : Path} (bytes : Bytes) (ne : other ≠ resolve cwd path) :
    (tree.write cwd path bytes).nodes.find other = tree.nodes.find other := by
  rw [write]
  cases writes : (tree.locate cwd path).bind fun place => tree.put place bytes with
  | none => rfl
  | some tree' =>
      obtain ⟨place, found, puts⟩ := Option.bind_eq_some_iff.mp writes
      rw [Option.getD_some, find_put puts, if_neg]
      intro same
      exact ne (same ▸ (resolve_of_locate found).symm)

theorem pathExists_of_read {bytes : Bytes} (h : tree.read cwd path = some bytes) :
    tree.pathExists cwd path := by
  obtain ⟨place, found, held⟩ := Option.bind_eq_some_iff.mp h
  unfold content at held
  split at held
  · rename_i node
    simp [pathExists, found, node]
  · cases held

/-! ## What is read afterwards -/

theorem read_of_find_none (absent : tree.nodes.find (resolve cwd path) = none) : tree.read cwd path = none := by
  rw [read]
  cases found : tree.locate cwd path with
  | none => rfl
  | some place =>
      rw [resolve_of_locate found] at absent
      simp [content, absent]

theorem read_of_missing (missing : tree.pathExists cwd path = false) : tree.read cwd path = none := by
  cases held : tree.read cwd path with
  | none => rfl
  | some bytes => simp [pathExists_of_read held] at missing

theorem read_remove (exist : tree.pathExists cwd path = true) (removes : tree.remove cwd path = some tree') :
    tree'.read cwd path = none := by
  apply read_of_find_none
  cases found : tree.locate cwd path with
  | none => simp [pathExists, found] at exist
  | some place => rw [find_remove removes, found, resolve_of_locate found, if_pos rfl]

theorem put_isSome_iff {place : Path} (bytes : Bytes) : (tree.put place bytes).isSome ↔
    tree.nodes.find place ≠ some .directory ∧ tree.isDirectory place.tail := by
  unfold put
  split <;> simp_all

theorem read_write_of_open {opened : FileTree} (opens : tree.openTruncated cwd path = some opened) (bytes : Bytes) :
    (opened.write cwd path bytes).read cwd path = some bytes := by
  obtain ⟨place, found, puts⟩ := Option.bind_eq_some_iff.mp opens
  have still : opened.locate cwd path = some place := (locate_put puts).trans found
  have free : (opened.put place bytes).isSome := by
    rw [put_isSome_iff, isDirectory_put puts, find_put puts]
    exact ⟨by simp, (put_free puts).2⟩
  obtain ⟨tree', again⟩ := Option.isSome_iff_exists.mp free
  rw [write, still, Option.bind_some, again, Option.getD_some, read, locate_put again, still, Option.bind_some,
    content, find_put again, if_pos rfl]

theorem write_of_not_open (fails : tree.openTruncated cwd path = none) (bytes : Bytes) :
    tree.write cwd path bytes = tree := by
  rw [write]
  cases found : tree.locate cwd path with
  | none => rfl
  | some place =>
      have shut : ¬ (tree.put place bytes).isSome := by
        rw [put_isSome_iff, ← put_isSome_iff []]
        rw [openTruncated, found, Option.bind_some] at fails
        simp [fails]
      rw [Option.bind_some, Option.not_isSome_iff_eq_none.mp shut, Option.getD_none]

theorem locate_of_pathExists (exist : tree.pathExists cwd path = true) : tree.locate cwd path = some (resolve cwd path) := by
  unfold pathExists at exist
  split at exist
  · rename_i found
    rw [found, resolve_of_locate found]
  · cases exist

theorem content_of_pathExists (exist : tree.pathExists cwd path = true) :
    tree.content (resolve cwd path) = tree.read cwd path := by
  rw [read, locate_of_pathExists exist, Option.bind_some]

theorem content_remove (exist : tree.pathExists cwd path = true) (removes : tree.remove cwd path = some tree') :
    tree'.content (resolve cwd path) = none := by
  rw [content, find_remove removes, if_pos (locate_of_pathExists exist)]

theorem content_openTruncated (opens : tree.openTruncated cwd path = some tree') :
    tree'.content (resolve cwd path) = some [] := by
  obtain ⟨place, found, puts⟩ := Option.bind_eq_some_iff.mp opens
  rw [resolve_of_locate found, content, find_put puts, if_pos rfl]

theorem root_of_isDirectory {place : Path} (dir : tree.isDirectory place = true) : tree.isDirectory [] = true := by
  induction place with
  | nil => exact dir
  | cons name place ih =>
      have found : tree.nodes.find (name :: place) = some .directory := of_decide_eq_true dir
      exact ih (decide_eq_true (tree.parents name place (by rw [found]; rfl)))

theorem root_of_locate {place : Path} (found : tree.locate cwd path = some place) : tree.isDirectory [] = true := by
  unfold locate at found
  split at found
  · rename_i passes
    obtain ⟨c, cs, eq⟩ := List.exists_cons_of_ne_nil (List.splitOn_ne_nil slash (path.takeWhile (· ≠ 0)))
    rw [components, eq, traverses, Bool.and_eq_true] at passes
    exact root_of_isDirectory passes.1
  · cases found

theorem openTruncated_of_remove {bytes : Bytes} (held : tree.read cwd path = some bytes)
    (removes : tree.remove cwd path = some tree') : (tree'.openTruncated cwd path).isSome := by
  obtain ⟨place, found, content⟩ := Option.bind_eq_some_iff.mp held
  have node : tree.nodes.find place = some (.file bytes) := by
    unfold FileTree.content at content
    split at content
    · rename_i eq
      rw [eq, Option.some.inj content]
    · cases content
  have same : ∀ other, tree'.isDirectory other = tree.isDirectory other := by
    intro other
    rw [isDirectory, isDirectory, find_remove removes]
    split
    · rename_i here
      obtain rfl := Option.some.inj (found.symm.trans here)
      simp [node]
    · rfl
  have up : tree.isDirectory place.tail = true := by
    cases place with
    | nil =>
        have dir := root_of_locate found
        simp [isDirectory, node] at dir
    | cons name up => exact decide_eq_true (tree.parents name up (by rw [node]; rfl))
  rw [openTruncated, locate_congr same, found, Option.bind_some, put_isSome_iff, same]
  exact ⟨by simp [find_remove removes, found], up⟩

end FileTree
end Foundation
