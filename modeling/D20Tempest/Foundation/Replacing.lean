import D20Tempest.Foundation.Action
import D20Tempest.Foundation.FileTree

namespace Foundation

/-! ## The places that a path goes through -/

def along (place : Path) : List Bytes → List Path
  | [] => []
  | c :: cs => place :: along (descend place c) cs

/-- The directories that have to be there for the path to lead anywhere. -/
def through (cwd : Path) (path : Bytes) : List Path := along (startOf cwd path) (components path)

theorem along_append (place : Path) (cs ds : List Bytes) :
    along place (cs ++ ds) = along place cs ++ along (cs.foldl descend place) ds := by
  induction cs generalizing place with
  | nil => rfl
  | cons c cs ih => rw [List.cons_append, along, along, ih, List.foldl_cons, List.cons_append]

theorem components_ne_nil (path : Bytes) : components path ≠ [] := List.splitOn_ne_nil slash _

/-- A path that ends in `.` leads to a directory that it goes through. -/
theorem resolve_mem_through {path : Bytes} (dotted : FileTree.endsInDot path = true) (cwd : Path) :
    resolve cwd path ∈ through cwd path := by
  obtain ⟨named, last⟩ := List.getLast?_eq_some_iff.mp (of_decide_eq_true dotted)
  obtain ⟨before, rest, parts, -, tail⟩ := List.filter_eq_append_iff.mp last
  obtain ⟨skipped, after, eq, blank, -, later⟩ := List.filter_eq_cons_iff.mp tail
  have stays : ∀ (cs : List Bytes) (place : Path), (∀ c ∈ cs, c = []) → cs.foldl descend place = place := by
    intro cs place empties
    induction cs with
    | nil => rfl
    | cons c cs ih =>
        rw [List.foldl_cons, descend, if_pos (.inl (empties c (List.mem_cons_self ..)))]
        exact ih fun d mem => empties d (List.mem_cons_of_mem _ mem)
  have ending : ∀ c ∈ after, c = [] := by
    intro c mem
    by_contra ne
    have kept : c ∈ after.filter (· ≠ []) := List.mem_filter.mpr ⟨mem, by simpa using ne⟩
    rw [later] at kept
    cases kept
  have place : resolve cwd path = (before ++ skipped).foldl descend (startOf cwd path) := by
    have dots : ∀ q : Path, descend q dot = q := fun q => if_pos (.inr rfl)
    rw [resolve, parts, eq, ← List.append_assoc, List.foldl_append, List.foldl_cons, dots, stays after _ ending]
  rw [place, through, parts, eq, ← List.append_assoc, along_append]
  exact List.mem_append_right _ (List.mem_cons_self ..)

namespace FileTree
variable {tree tree' : FileTree} {cwd place : Path} {path : Bytes}

theorem eq_of_find (same : tree.nodes.find = tree'.nodes.find) : tree = tree' := FileTree.ext (OrderedMap.ext_find (congrFun same))

theorem traverses_iff (place : Path) (cs : List Bytes) :
    tree.traverses place cs = true ↔ ∀ q ∈ along place cs, tree.isDirectory q = true := by
  induction cs generalizing place with
  | nil => simp [traverses, along]
  | cons c cs ih => rw [traverses, along, Bool.and_eq_true, ih, List.forall_mem_cons]

def Passable (tree : FileTree) (cwd : Path) (path : Bytes) : Prop := ∀ q ∈ through cwd path, tree.isDirectory q = true

theorem locate_eq_some_iff : tree.locate cwd path = some place ↔ tree.Passable cwd path ∧ resolve cwd path = place := by
  rw [locate, Passable, through, ← traverses_iff]
  split
  · rename_i passes
    simp [passes]
  · rename_i fails
    simp [fails]

theorem locate_of_passable (passable : tree.Passable cwd path) : tree.locate cwd path = some (resolve cwd path) :=
  locate_eq_some_iff.mpr ⟨passable, rfl⟩

theorem locate_of_not_passable (lost : ¬ tree.Passable cwd path) : tree.locate cwd path = none := by
  rw [Option.eq_none_iff_forall_ne_some]
  intro place found
  exact lost (locate_eq_some_iff.mp found).1

theorem pathExists_of_passable (passable : tree.Passable cwd path) :
    tree.pathExists cwd path = (tree.nodes.find (resolve cwd path)).isSome := by
  simp only [pathExists, locate_of_passable passable]

theorem isDirectory_iff : tree.isDirectory place = true ↔ tree.nodes.find place = some .directory := decide_eq_true_iff

theorem hasEntries_iff : tree.hasEntries place = true ↔ ∃ name, (tree.nodes.find (name :: place)).isSome = true := by
  constructor
  · intro entries
    obtain ⟨other, key, below⟩ := List.any_eq_true.mp entries
    obtain ⟨⟨_, node⟩, entry, rfl⟩ := List.mem_map.mp key
    obtain ⟨ne, up⟩ := of_decide_eq_true below
    obtain ⟨name, rest, rfl⟩ := List.exists_cons_of_ne_nil ne
    obtain rfl : rest = place := up
    exact ⟨name, by rw [OrderedMap.mem_entries.mp entry, Option.isSome_some]⟩
  · intro entry
    obtain ⟨name, there⟩ := entry
    by_contra bare
    rw [no_entries (Bool.not_eq_true _ ▸ bare)] at there
    cases there

theorem isDirectory_of_hasEntries (entries : tree.hasEntries place = true) : tree.isDirectory place = true := by
  obtain ⟨name, there⟩ := hasEntries_iff.mp entries
  exact isDirectory_iff.mpr (tree.parents name place there)

end FileTree

/-! ## Replacing a file -/

/-- The directory that the path leads to cannot be removed. -/
def FileTree.Refuses (tree : FileTree) (cwd : Path) (path : Bytes) : Prop :=
  tree.isDirectory (resolve cwd path) = true ∧ (endsInDot path = true ∨ tree.hasEntries (resolve cwd path) = true)

/-- What is at the path is removed, and what takes its place is opened, written and, however that ends, closed. -/
def replaceFile (cwd : Path) (path text : Bytes) (ends : Except Fault Unit) : Action FileTree Unit := do
  let tree ← get
  match if tree.pathExists cwd path then tree.remove cwd path else some tree with
  | none => throw .filesystemError
  | some cleared =>
      set (((cleared.openTruncated cwd path).getD cleared).write cwd path text)
      evaluate ends

/-- What is left at the place when it could be cleared. -/
def replacement (cwd : Path) (path text : Bytes) : Option Node :=
  if resolve cwd path ∈ through cwd path then none else some (.file text)

theorem last_of_along (place : Path) {cs : List Bytes} (ne : cs ≠ []) :
    ∃ q ∈ along place cs, ∃ c, cs.foldl descend place = descend q c := by
  induction cs generalizing place with
  | nil => exact absurd rfl ne
  | cons c cs ih =>
      by_cases last : cs = []
      · subst last
        exact ⟨place, List.mem_cons_self .., c, rfl⟩
      · obtain ⟨q, mem, c', eq⟩ := ih (descend place c) last
        exact ⟨q, List.mem_cons_of_mem _ mem, c', eq⟩

section Replacing
variable {tree : FileTree} {cwd : Path} {path : Bytes}

theorem bare_of_yields (yields : ¬ tree.Refuses cwd path) : tree.hasEntries (resolve cwd path) = false := by
  by_contra entries
  have full := Bool.not_eq_false _ ▸ entries
  exact yields ⟨FileTree.isDirectory_of_hasEntries full, .inr full⟩

theorem undotted_of_yields (passable : tree.Passable cwd path) (yields : ¬ tree.Refuses cwd path) :
    FileTree.endsInDot path = false := by
  by_contra ends
  have dotted := Bool.not_eq_false _ ▸ ends
  exact yields ⟨passable _ (resolve_mem_through dotted cwd), .inl dotted⟩

theorem entered_of_passable (passable : tree.Passable cwd path) (bare : tree.hasEntries (resolve cwd path) = false)
    (off : resolve cwd path ∉ through cwd path) : ∃ name q, resolve cwd path = name :: q ∧ q ∈ through cwd path := by
  obtain ⟨q, mem, c, eq⟩ := last_of_along (startOf cwd path) (components_ne_nil path)
  have place : resolve cwd path = descend q c := eq
  unfold descend at place
  split at place
  · exact absurd (place ▸ mem) off
  · split at place
    · cases q with
      | nil => exact absurd (place ▸ mem) off
      | cons name up =>
          have there := FileTree.isDirectory_iff.mp (passable _ mem)
          obtain rfl : resolve cwd path = up := place
          rw [FileTree.no_entries bare] at there
          cases there
    · exact ⟨c, q, place, mem⟩

theorem cleared_of_passable (passable : tree.Passable cwd path) (yields : ¬ tree.Refuses cwd path) :
    ∃ cleared, (if tree.pathExists cwd path then tree.remove cwd path else some tree) = some cleared ∧
      ∀ q, cleared.nodes.find q = if q = resolve cwd path then none else tree.nodes.find q := by
  have found := FileTree.locate_of_passable passable
  by_cases there : (tree.nodes.find (resolve cwd path)).isSome = true
  · have exist := (FileTree.pathExists_of_passable passable).trans there
    have clear := And.intro (bare_of_yields yields) (undotted_of_yields passable yields)
    have removes : tree.remove cwd path = some (tree.erase _ clear.1) := by
      simp only [FileTree.remove, found]
      rw [if_pos there, dif_pos clear]
    rw [if_pos exist]
    refine ⟨_, removes, ?_⟩
    intro q
    rw [FileTree.find_remove removes, found]
    simp [eq_comm]
  · have missing := (FileTree.pathExists_of_passable passable).trans (Bool.not_eq_true _ ▸ there)
    rw [missing]
    refine ⟨tree, rfl, ?_⟩
    intro q
    split
    · rename_i same
      rw [same]
      simpa using there
    · rfl

theorem replaceFile_of_cleared {cleared : FileTree}
    (clears : (if tree.pathExists cwd path then tree.remove cwd path else some tree) = some cleared) (text : Bytes)
    (ends : Except Fault Unit) : replaceFile cwd path text ends tree =
      (evaluate ends : Action FileTree Unit) (((cleared.openTruncated cwd path).getD cleared).write cwd path text) := by
  rw [replaceFile, bind_of_ok (get_apply tree), clears]
  exact bind_of_ok (set_apply _ _)

theorem replaceFile_of_lost (lost : ¬ tree.Passable cwd path) (text : Bytes) (ends : Except Fault Unit) :
    replaceFile cwd path text ends tree = (evaluate ends : Action FileTree Unit) tree := by
  have nowhere := FileTree.locate_of_not_passable lost
  have clears : (if tree.pathExists cwd path then tree.remove cwd path else some tree) = some tree := by
    simp [FileTree.pathExists, nowhere]
  have shut : tree.openTruncated cwd path = none := by rw [FileTree.openTruncated, nowhere, Option.bind_none]
  rw [replaceFile_of_cleared clears, shut, Option.getD_none, FileTree.write_of_not_open shut]

theorem replaceFile_of_refuses (passable : tree.Passable cwd path) (refuses : tree.Refuses cwd path) (text : Bytes)
    (ends : Except Fault Unit) : replaceFile cwd path text ends tree = .error .filesystemError tree := by
  have found := FileTree.locate_of_passable passable
  obtain ⟨dir, holds⟩ := refuses
  have there := FileTree.isDirectory_iff.mp dir
  have exist : tree.pathExists cwd path = true := by
    rw [FileTree.pathExists_of_passable passable, there, Option.isSome_some]
  have none : tree.remove cwd path = none := by
    simp only [FileTree.remove, found]
    rw [if_pos (Option.isSome_of_eq_some there), dif_neg]
    rintro ⟨bare, undotted⟩
    rcases holds with dotted | entries
    · rw [undotted] at dotted
      cases dotted
    · rw [bare] at entries
      cases entries
  rw [replaceFile, bind_of_ok (get_apply tree), exist, if_pos rfl, none]
  rfl

section Cleared
variable {cleared : FileTree} (bare : ∀ q, cleared.nodes.find q = if q = resolve cwd path then none else tree.nodes.find q)
include bare

theorem not_passable_of_on (on : resolve cwd path ∈ through cwd path) : ¬ cleared.Passable cwd path := by
  intro passes
  have dir := FileTree.isDirectory_iff.mp (passes _ on)
  rw [bare, if_pos rfl] at dir
  cases dir

theorem openTruncated_of_off (passable : tree.Passable cwd path) (empty : tree.hasEntries (resolve cwd path) = false)
    (off : resolve cwd path ∉ through cwd path) :
    ∃ opened, cleared.openTruncated cwd path = some opened ∧ cleared.put (resolve cwd path) [] = some opened ∧
      cleared.locate cwd path = some (resolve cwd path) := by
  obtain ⟨name, up, eq, mem⟩ := entered_of_passable passable empty off
  have same : ∀ q, q ≠ resolve cwd path → cleared.isDirectory q = tree.isDirectory q := by
    intro q ne
    rw [FileTree.isDirectory, bare, if_neg ne, FileTree.isDirectory]
  have passes : cleared.Passable cwd path := fun q mem => (same q fun eq => off (eq ▸ mem)).trans (passable q mem)
  have found := FileTree.locate_of_passable passes
  have free : (cleared.put (resolve cwd path) []).isSome = true := by
    rw [FileTree.put_isSome_iff, bare, if_pos rfl]
    refine ⟨by simp, ?_⟩
    rw [eq, List.tail_cons, same up (by simp [eq])]
    exact passable up mem
  obtain ⟨opened, opens⟩ := Option.isSome_iff_exists.mp free
  refine ⟨opened, ?_, opens, found⟩
  simp only [FileTree.openTruncated, found, Option.bind_some, opens]

theorem find_replaced (passable : tree.Passable cwd path) (empty : tree.hasEntries (resolve cwd path) = false) (text : Bytes)
    (q : Path) : (((cleared.openTruncated cwd path).getD cleared).write cwd path text).nodes.find q =
      if q = resolve cwd path then replacement cwd path text else tree.nodes.find q := by
  by_cases on : resolve cwd path ∈ through cwd path
  · have nowhere := FileTree.locate_of_not_passable (not_passable_of_on bare on)
    have shut : cleared.openTruncated cwd path = none := by rw [FileTree.openTruncated, nowhere, Option.bind_none]
    rw [shut, Option.getD_none, FileTree.write_of_not_open shut, bare, replacement, if_pos on]
  · obtain ⟨opened, opensPath, opens, found⟩ := openTruncated_of_off bare passable empty on
    have again : (opened.put (resolve cwd path) text).isSome = true := by
      rw [FileTree.put_isSome_iff, FileTree.find_put opens, if_pos rfl, FileTree.isDirectory_put opens]
      exact ⟨by simp, (FileTree.put_free opens).2⟩
    obtain ⟨written, writes⟩ := Option.isSome_iff_exists.mp again
    have result : opened.write cwd path text = written := by simp [FileTree.write, FileTree.locate_put opens, found, writes]
    rw [opensPath, Option.getD_some, result, FileTree.find_put writes, FileTree.find_put opens, bare, replacement, if_neg on]
    simp only [eq_comm (a := q)]
    split <;> rfl

end Cleared

end Replacing

/-! ## Replacing several files -/

structure Job where
  path : Bytes
  text : Bytes
  ends : Except Fault Unit

def Job.place (job : Job) (cwd : Path) : Path := resolve cwd job.path

def runJob (cwd : Path) (job : Job) : Action FileTree Unit := replaceFile cwd job.path job.text job.ends

def NoNewDirectory (tree tree' : FileTree) : Prop := ∀ q, tree'.isDirectory q = true → tree.isDirectory q = true

instance : Std.Refl NoNewDirectory := ⟨fun _ _ => id⟩

instance : IsTrans FileTree NoNewDirectory := ⟨fun _ _ _ first second q dir => first q (second q dir)⟩

section Jobs
variable {cwd : Path} {tree : FileTree} {job : Job} {jobs : List Job}

inductive JobOutcome (cwd : Path) (tree : FileTree) (job : Job) : Prop where
  | lost (lost : ¬ tree.Passable cwd job.path) (returns : returned (runJob cwd job tree) = job.ends)
      (left : finalState (runJob cwd job tree) = tree)
  | refused (passable : tree.Passable cwd job.path) (refuses : tree.Refuses cwd job.path)
      (fails : returned (runJob cwd job tree) = .error .filesystemError) (left : finalState (runJob cwd job tree) = tree)
  | done (passable : tree.Passable cwd job.path) (yields : ¬ tree.Refuses cwd job.path)
      (returns : returned (runJob cwd job tree) = job.ends)
      (left : ∀ q, (finalState (runJob cwd job tree)).nodes.find q =
        if q = job.place cwd then replacement cwd job.path job.text else tree.nodes.find q)

theorem jobOutcome (cwd : Path) (tree : FileTree) (job : Job) : JobOutcome cwd tree job := by
  have ended : ∀ t : FileTree, returned ((evaluate job.ends : Action FileTree Unit) t) = job.ends ∧
      finalState ((evaluate job.ends : Action FileTree Unit) t) = t := by
    intro t
    cases job.ends <;> exact ⟨rfl, rfl⟩
  by_cases passable : tree.Passable cwd job.path
  · by_cases refuses : tree.Refuses cwd job.path
    · have fails := replaceFile_of_refuses passable refuses job.text job.ends
      exact .refused passable refuses (congrArg returned fails) (congrArg finalState fails)
    · obtain ⟨cleared, clears, bare⟩ := cleared_of_passable passable refuses
      have run : runJob cwd job tree = _ := replaceFile_of_cleared clears job.text job.ends
      refine .done passable refuses ((congrArg returned run).trans (ended _).1) ?_
      rw [run, (ended _).2]
      exact find_replaced bare passable (bare_of_yields refuses) job.text
  · have run := replaceFile_of_lost passable job.text job.ends
    exact .lost passable ((congrArg returned run).trans (ended tree).1) ((congrArg finalState run).trans (ended tree).2)

theorem replacement_ne_directory (cwd : Path) (path text : Bytes) : replacement cwd path text ≠ some .directory := by
  unfold replacement
  split <;> simp

theorem noNewDirectory_runJob (cwd : Path) (job : Job) : Moves NoNewDirectory (runJob cwd job) := by
  intro tree q dir
  cases jobOutcome cwd tree job with
  | lost _ _ left => rwa [left] at dir
  | refused _ _ _ left => rwa [left] at dir
  | done _ _ _ left =>
      rw [FileTree.isDirectory_iff, left] at dir
      split at dir
      · exact absurd dir (replacement_ne_directory _ _ _)
      · exact FileTree.isDirectory_iff.mpr dir

theorem noNewDirectory_jobs (cwd : Path) (jobs : List Job) : Moves NoNewDirectory (jobs.forM (runJob cwd)) :=
  Moves.forM (noNewDirectory_runJob cwd) jobs

end Jobs
end Foundation
