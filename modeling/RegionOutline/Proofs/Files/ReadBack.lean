import RegionOutline.Files

/-!
# Files that are read back

A file that was written is found under the path that it was written to, and its text is the one
that was written. The names on the way to it lead to the same places as before, since writing takes
no directory away.
-/

namespace RegionOutline

namespace FileNode

variable {root child : FileNode} {children : List (String × FileNode)} {name : String}
variable {folder : List String} {content : ByteArray}

theorem lookup_filter_ne {other : String} (h : other ≠ name) :
    (children.filter (·.1 != name)).lookup other = children.lookup other := by
  induction children with
  | nil => rfl
  | cons entry children ih =>
      obtain ⟨key, value⟩ := entry
      by_cases hkey : key = name
      · subst hkey
        have hother : (other == key) = false := beq_false_of_ne h
        simp [List.lookup_cons, ih, hother]
      · simp [List.lookup_cons, ih, hkey]

theorem child?_setChild (child : FileNode) (other : String) :
    ((directory children).setChild name child).child? other =
      if other = name then some child else (directory children).child? other := by
  by_cases h : other = name
  · simp [setChild, child?, h]
  · have hother : (other == name) = false := beq_false_of_ne h
    simp [setChild, child?, List.lookup_cons, h, hother, lookup_filter_ne]

theorem find?_concat (root : FileNode) (names : List String) (name : String) :
    root.find? (names ++ [name]) = (root.find? names).bind (child? name) := by
  induction names generalizing root with
  | nil => simp [find?]
  | cons first names ih =>
      simp only [List.cons_append, find?]
      cases root.child? first with
      | none => rfl
      | some child => exact ih child

/-- What is found in the old node is found in the new one, and directories stay directories. -/
def Grows (old new : FileNode) : Prop :=
  ∀ place was, old.find? place = some was →
    ∃ now, new.find? place = some now ∧ (was.isDirectory = true → now.isDirectory = true)

theorem grows_file (old new : ByteArray) : (file old).Grows (file new) := by
  intro place was h
  cases place with
  | nil =>
      obtain rfl := Option.some.inj h
      exact ⟨file new, rfl, id⟩
  | cons name names => cases h

/-- A directory grows by a child, in place of none or of one that grows into it. -/
theorem grows_setChild
    (grows : ∀ old, (directory children).child? name = some old → old.Grows child) :
    (directory children).Grows ((directory children).setChild name child) := by
  intro place was h
  cases place with
  | nil => exact ⟨_, rfl, fun _ => rfl⟩
  | cons first names =>
      obtain ⟨old, hold, hwas⟩ := Option.bind_eq_some_iff.1 h
      rw [find?, child?_setChild]
      split
      case isTrue same => exact grows old (same ▸ hold) names was hwas
      case isFalse => exact ⟨was, h, id⟩

/-- A tree grows by a file that takes the place of no directory. -/
theorem grows_update (parent : root.find? folder = some (directory children))
    (free : ∀ node, (directory children).child? name = some node → node.isDirectory = false) :
    root.Grows (root.update (·.setChild name (file content)) folder) := by
  induction folder generalizing root with
  | nil =>
      obtain rfl := Option.some.inj parent
      apply grows_setChild
      intro old hold
      cases old with
      | file old => exact grows_file old content
      | directory inner => cases free _ hold
  | cons first names ih =>
      obtain ⟨next, hnext, below⟩ := Option.bind_eq_some_iff.1 parent
      cases root with
      | file old => cases hnext
      | directory siblings =>
          rw [update, hnext]
          apply grows_setChild
          intro old hold
          obtain rfl := Option.some.inj (hnext.symm.trans hold)
          exact ih below

theorem find?_update (parent : root.find? folder = some (directory children)) :
    (root.update (·.setChild name child) folder).find? folder =
      some ((directory children).setChild name child) := by
  induction folder generalizing root with
  | nil =>
      obtain rfl := Option.some.inj parent
      rfl
  | cons first names ih =>
      obtain ⟨next, hnext, below⟩ := Option.bind_eq_some_iff.1 parent
      cases root with
      | file old => cases hnext
      | directory siblings =>
          rw [update, hnext, find?, child?_setChild, if_pos rfl]
          exact ih below

end FileNode

namespace FileTree

variable {tree after : FileTree} {path : Path} {place target names : List String}
variable {root new : FileNode} {name : String}

/-- Where a directory has been reached, one more name is followed. -/
theorem follow_cons {node : FileNode} (reached : root.find? place = some node)
    (directory : node.isDirectory = true) (rest : List String) :
    follow root place (name :: rest) =
      if name = "" ∨ name = "." then follow root place rest
      else if name = ".." then follow root place.dropLast rest
      else if Path.maxNameSize < name.utf8ByteSize then .error .nameTooLong
      else if (root.find? (place ++ [name])).isSome then follow root (place ++ [name]) rest
      else .error .notFound := by
  rw [follow, reached, FileNode.find?_concat, reached]
  simp [directory]

theorem exists_directory_of_follow {rest : List String}
    (h : follow root place (name :: rest) = .ok target) :
    ∃ node, root.find? place = some node ∧ node.isDirectory = true := by
  rw [follow] at h
  split at h
  case h_1 => cases h
  case h_2 node reached =>
    cases directory : node.isDirectory with
    | false => simp [directory] at h
    | true => exact ⟨node, reached, directory⟩

/-- Names lead to the same place in a tree that has grown, and more names lead on from there. -/
theorem follow_append_of_grows (grows : root.Grows new)
    (h : follow root place names = .ok target) (more : List String) :
    follow new place (names ++ more) = follow new target more := by
  induction names generalizing place with
  | nil =>
      obtain rfl := Except.ok.inj h
      rfl
  | cons name rest ih =>
      obtain ⟨node, reached, directory⟩ := exists_directory_of_follow h
      obtain ⟨now, reached', stays⟩ := grows place node reached
      rw [follow_cons reached directory] at h
      rw [List.cons_append, follow_cons reached' (stays directory)]
      by_cases idle : name = "" ∨ name = "."
      · rw [if_pos idle] at h ⊢
        exact ih h
      rw [if_neg idle] at h ⊢
      by_cases up : name = ".."
      · rw [if_pos up] at h ⊢
        exact ih h
      rw [if_neg up] at h ⊢
      -- A name that is too long or leads nowhere is refused, so the old tree had neither.
      by_cases long : Path.maxNameSize < name.utf8ByteSize
      · rw [if_pos long] at h
        cases h
      rw [if_neg long] at h ⊢
      cases found : root.find? (place ++ [name]) with
      | none =>
          rw [found] at h
          cases h
      | some child =>
          obtain ⟨now, found', -⟩ := grows _ child found
          rw [found] at h
          rw [found']
          exact ih h

theorem eq_concat_of_dropWhile {outer : List String}
    (split : names.reverse.dropWhile (· == "") = name :: outer)
    (bare : (names.getLast? == some "") = false) :
    names = outer.reverse ++ [name] ∧ name ≠ "" := by
  rw [← List.head?_reverse] at bare
  cases reversed : names.reverse with
  | nil =>
      rw [reversed] at split
      cases split
  | cons last others =>
      rw [reversed] at split bare
      have hlast : last ≠ "" := by simpa using bare
      have stays : (last :: others).dropWhile (· == "") = last :: others :=
        List.dropWhile_cons_of_neg (by simpa using hlast)
      obtain ⟨rfl, rfl⟩ := List.cons.inj (stays.symm.trans split)
      exact ⟨List.reverse_eq_cons_iff.1 reversed, hlast⟩

/-- A path without a slash at its end, taken apart. -/
theorem target_eq_ok {goal : Target} (h : tree.target path = .ok goal)
    (bare : goal.slash = false) :
    path.fault? = none ∧ ∃ outer, path.components = outer ++ [goal.name] ∧ goal.name ≠ "" ∧
      follow tree.root (tree.start path) outer = .ok goal.folder ∧
      ∃ children, tree.root.find? goal.folder = some (.directory children) := by
  cases fault : path.fault? with
  | some error =>
      rw [target, fault] at h
      cases h
  | none =>
      refine ⟨rfl, ?_⟩
      simp only [target, fault, bind, Except.bind, throw, throwThe, MonadExceptOf.throw, pure,
        Except.pure] at h
      split at h
      case h_1 =>
        obtain rfl := Except.ok.inj h
        cases bare
      case h_2 name outer split =>
        split at h
        case h_1 => cases h
        case h_2 folder followed =>
          split at h
          case h_1 children parent =>
            obtain rfl := Except.ok.inj h
            obtain ⟨ends, nonempty⟩ := eq_concat_of_dropWhile split bare
            exact ⟨outer.reverse, ends, nonempty, followed, children, parent⟩
          case h_2 => cases h
          case h_3 => cases h

theorem write_eq_ok {content : ByteArray} (h : tree.write path content = .ok after) :
    ∃ goal, tree.target path = .ok goal ∧ goal.isDots = false ∧ goal.slash = false ∧
      goal.name.utf8ByteSize ≤ Path.maxNameSize ∧
      (∀ node, tree.found? goal = some node → node.isDirectory = false) ∧
      after = tree.put goal (.file content) := by
  cases target : tree.target path with
  | error error =>
      rw [write, target] at h
      cases h
  | ok goal =>
      simp only [write, target, bind, Except.bind, throw, throwThe, MonadExceptOf.throw, pure,
        Except.pure] at h
      split at h
      case isTrue => cases h
      case isFalse plain =>
        split at h
        case isTrue => cases h
        case isFalse short =>
          split at h
          case h_1 => cases h
          case h_2 free =>
            obtain rfl := Except.ok.inj h
            obtain ⟨dots, bare⟩ := Bool.or_eq_false_iff.1 (Bool.eq_false_iff.2 plain)
            refine ⟨goal, rfl, dots, bare, Nat.le_of_not_lt short, ?_, rfl⟩
            intro node hnode
            cases node with
            | file content => rfl
            | directory children => exact absurd hnode (free children)

theorem find?_put {goal : Target} {children : List (String × FileNode)} (node : FileNode)
    (parent : tree.root.find? goal.folder = some (.directory children)) :
    (tree.put goal node).root.find? (goal.folder ++ [goal.name]) = some node := by
  rw [put, FileNode.find?_concat, FileNode.find?_update parent, Option.bind_some,
    FileNode.child?_setChild, if_pos rfl]

/-- A path leads to the file that was put where it points. -/
theorem resolve_put {goal : Target} {content : ByteArray} (aimed : tree.target path = .ok goal)
    (dots : goal.isDots = false) (bare : goal.slash = false)
    (short : goal.name.utf8ByteSize ≤ Path.maxNameSize)
    (free : ∀ node, tree.found? goal = some node → node.isDirectory = false) :
    (tree.put goal (.file content)).resolve path = .ok (goal.folder ++ [goal.name]) := by
  obtain ⟨fault, outer, hpath, nonempty, followed, children, parent⟩ := target_eq_ok aimed bare
  have grows : tree.root.Grows (tree.put goal (.file content)).root := by
    apply FileNode.grows_update parent
    intro node hnode
    apply free
    rw [found?, FileNode.find?_concat, parent, Option.bind_some, hnode]
  have folder : (tree.put goal (.file content)).root.find? goal.folder =
      some ((FileNode.directory children).setChild goal.name (.file content)) :=
    FileNode.find?_update parent
  obtain ⟨here, up⟩ : goal.name ≠ "." ∧ goal.name ≠ ".." := by simpa [Target.isDots] using dots
  have last : follow (tree.put goal (.file content)).root goal.folder [goal.name] =
      .ok (goal.folder ++ [goal.name]) := by
    rw [follow_cons folder rfl, find?_put _ parent]
    simp [nonempty, here, up, Nat.not_lt.2 short, follow]
  rw [resolve, fault, hpath]
  exact (follow_append_of_grows grows followed [goal.name]).trans last

/-- A text that was written is read back. -/
theorem readText_of_write {text : String} (h : tree.write path text.toUTF8 = .ok after) :
    after.readText path = .ok text := by
  obtain ⟨goal, aimed, dots, bare, short, free, rfl⟩ := write_eq_ok h
  obtain ⟨-, -, -, -, -, children, parent⟩ := target_eq_ok aimed bare
  have found := find?_put (.file text.toUTF8) parent
  have resolved : (tree.put goal (.file text.toUTF8)).resolve path = _ :=
    resolve_put aimed dots bare short free
  have decoded : String.fromUTF8? text.toUTF8 = some text := dif_pos text.isValidUTF8
  simp only [readText, node, resolved, found, decoded, bind, Except.bind]

end FileTree

namespace FileAction

variable {ε α β : Type} {tree after : FileTree}

/-- Work in two parts succeeds only if both parts do. -/
theorem runOn_bind_eq_ok {action : FileAction ε α} {next : α → FileAction ε β} {result : β}
    (h : (action >>= next).runOn tree = (.ok result, after)) :
    ∃ first between, action.runOn tree = (.ok first, between) ∧
      (next first).runOn between = (.ok result, after) := by
  have run : (action >>= next).runOn tree =
      (ExceptT.bindCont next (action.runOn tree).1).run (action.runOn tree).2 := rfl
  rw [h] at run
  cases first : action.runOn tree with
  | mk outcome between =>
      rw [first] at run
      cases outcome with
      | error error => cases run
      | ok value => exact ⟨value, between, rfl, run.symm⟩

theorem runOn_get_bind (next : FileTree → FileAction ε α) :
    (get >>= next).runOn tree = (next tree).runOn tree := rfl

theorem eq_ok_of_runOn_change {attempt : FileTree → Except FileError FileTree}
    (h : (change attempt).runOn tree = (.ok (), after)) : attempt tree = .ok after := by
  rw [change, runOn_get_bind] at h
  cases tried : attempt tree with
  | error error =>
      rw [tried] at h
      cases h
  | ok changed =>
      rw [tried] at h
      cases h
      rfl

/-- Work that only words its errors in another way succeeds as before. -/
theorem runOn_of_runOn_adapt {action : FileAction FileError α} {blame : FileError → ε} {result : α}
    (h : runOn (action.adapt blame) tree = (.ok result, after)) :
    action.runOn tree = (.ok result, after) := by
  have run : runOn (action.adapt blame) tree =
      Prod.map (Except.mapError blame) id (action.runOn tree) := rfl
  rw [h] at run
  cases first : action.runOn tree with
  | mk outcome between =>
      rw [first] at run
      cases outcome with
      | error error => cases run
      | ok value =>
          cases run
          rfl

end FileAction

end RegionOutline
