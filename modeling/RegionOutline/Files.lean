import RegionOutline.Text.Word

/-! # Files

A tree of directories and files as a value, with paths resolved the way a Unix
system resolves them: component by component, each of which needs a directory to
be looked up in. A change that fails half-way leaves what it did before. -/

namespace RegionOutline

/-- Why a file operation failed. -/
inductive FileError where
  | notFound
  | denied
  | alreadyExists
  | notDirectory
  | isDirectory
  | nameTooLong
  | zeroInName
  | notText
  deriving DecidableEq

namespace FileError

/-- The system's wording. -/
def message : FileError → String
  | .notFound => "No such file or directory (os error 2)"
  | .denied => "Permission denied (os error 13)"
  | .alreadyExists => "File exists (os error 17)"
  | .notDirectory => "Not a directory (os error 20)"
  | .isDirectory => "Is a directory (os error 21)"
  | .nameTooLong => "File name too long (os error 36)"
  | .zeroInName => "file name contained an unexpected NUL byte"
  | .notText => "stream did not contain valid UTF-8"

end FileError

inductive FileNode where
  | file (content : ByteArray)
  | directory (children : List (String × FileNode))

/-- A tree with a working directory, given by its components from the root. -/
structure FileTree where
  root : FileNode := .directory []
  workingDirectory : List String := []

/-- Paths are text; a slash divides components. -/
abbrev Path := String

namespace Path

/-- Cut at slashes after an already read part of the first component, in
reverse. -/
def componentsFrom : List Char → List Char → List (List Char)
  | current, [] => [current.reverse]
  | current, c :: rest =>
      if c = '/' then current.reverse :: componentsFrom [] rest
      else componentsFrom (c :: current) rest

/-- Cut a path at its slashes. -/
def components (path : Path) : List String :=
  (componentsFrom [] path.toList).map String.ofList

/-- The most octets that a path has. -/
def maxSize : Nat := 4095

/-- The most octets that one component has. -/
def maxNameSize : Nat := 255

/-- What is wrong with a path whatever the files are. -/
def fault? (path : Path) : Option FileError :=
  if path.toList.contains '\x00' then some .zeroInName
  else if path = "" then some .notFound
  else if maxSize < path.utf8ByteSize then some .nameTooLong
  else none

def isAbsolute (path : Path) : Bool :=
  path.toList.head? == some '/'

/-- Append a relative path, dividing by a slash unless one is there. -/
def join (path : Path) (name : String) : Path :=
  if path = "" ∨ path.toList.getLast? = some '/' then path ++ name else path ++ "/" ++ name

/-- The path without its last component and without the slashes and dots that
are then left at its end. The root has no parent, nor has the empty path. -/
def parent? (path : Path) : Option Path :=
  let idle (name : String) : Bool := name == "" || name == "."
  let names := (components path).reverse
  match names.dropWhile idle with
  | [] => none
  | _ :: outer =>
      match outer.dropWhile idle with
      | [] =>
          if path.isAbsolute then some "/"
          else if outer.getLast? == some "." then some "." else some ""
      | kept => some ("/".intercalate kept.reverse)

/-- The parents of a path, the nearest first and at most so many. The empty path
does not count. -/
def parents : Nat → Path → List Path
  | 0, _ => []
  | count + 1, path =>
      match path.parent? with
      | none | some "" => []
      | some parent => parent :: parents count parent

end Path

namespace FileNode

def child? (name : String) : FileNode → Option FileNode
  | .file _ => none
  | .directory children => children.lookup name

def isDirectory : FileNode → Bool
  | .file _ => false
  | .directory _ => true

/-- The node reached by a list of names. -/
def find? : List String → FileNode → Option FileNode
  | [], node => some node
  | name :: names, node => (node.child? name).bind (find? names)

/-- Give a directory an entry, over one of the same name. -/
def setChild (node : FileNode) (name : String) (child : FileNode) : FileNode :=
  match node with
  | .file content => .file content
  | .directory children => .directory ((name, child) :: children.filter (·.1 != name))

def removeChild (node : FileNode) (name : String) : FileNode :=
  match node with
  | .file content => .file content
  | .directory children => .directory (children.filter (·.1 != name))

/-- Change the node reached by a list of names. Where nothing is reached nothing
changes. -/
def update (change : FileNode → FileNode) : List String → FileNode → FileNode
  | [], node => change node
  | name :: names, node =>
      match node.child? name with
      | none => node
      | some child => node.setChild name (child.update change names)

end FileNode

namespace FileTree

/-- Follow components from a place, given by its names from the root. -/
def follow (root : FileNode) : List String → List String → Except FileError (List String)
  | place, [] => .ok place
  | place, name :: rest =>
      match root.find? place with
      | none => .error .notFound
      | some node =>
          if !node.isDirectory then .error .notDirectory
          else if name = "" ∨ name = "." then follow root place rest
          else if name = ".." then follow root place.dropLast rest
          else if Path.maxNameSize < name.utf8ByteSize then .error .nameTooLong
          else if (node.child? name).isSome then follow root (place ++ [name]) rest
          else .error .notFound

/-- Where a path starts. -/
def start (tree : FileTree) (path : Path) : List String :=
  if path.isAbsolute then [] else tree.workingDirectory

/-- The names from the root of what a path leads to. -/
def resolve (tree : FileTree) (path : Path) : Except FileError (List String) :=
  match path.fault? with
  | some error => .error error
  | none => follow tree.root (tree.start path) path.components

def node (tree : FileTree) (path : Path) : Except FileError FileNode := do
  let place ← tree.resolve path
  match tree.root.find? place with
  | none => .error .notFound
  | some node => .ok node

def isDirectory (tree : FileTree) (path : Path) : Bool :=
  match tree.node path with
  | .ok node => node.isDirectory
  | .error _ => false

/-- The text of a file. -/
def readText (tree : FileTree) (path : Path) : Except FileError String := do
  match ← tree.node path with
  | .directory _ => .error .isDirectory
  | .file content =>
      match String.fromUTF8? content with
      | none => .error .notText
      | some text => .ok text

/-- Where the last component of a path is looked up. -/
structure Target where
  /-- The directory, by its names from the root. -/
  folder : List String
  name : String
  /-- Whether a slash follows the component. -/
  slash : Bool
  deriving DecidableEq

/-- Whether the component leads to a directory that is there already. -/
def Target.isDots (target : Target) : Bool :=
  target.name == "." || target.name == ".."

/-- Where the last component of a path is looked up. The root is taken for a dot
in itself. -/
def target (tree : FileTree) (path : Path) : Except FileError Target := do
  if let some error := path.fault? then throw error
  let names := path.components
  match names.reverse.dropWhile (· == "") with
  | [] => return ⟨tree.start path, ".", true⟩
  | name :: outer =>
      let folder ← follow tree.root (tree.start path) outer.reverse
      match tree.root.find? folder with
      | some (.directory _) => return ⟨folder, name, names.getLast? == some ""⟩
      | some (.file _) => throw .notDirectory
      | none => throw .notFound

/-- What is found at a target, if anything. -/
def found? (tree : FileTree) (target : Target) : Option FileNode :=
  tree.root.find? (target.folder ++ [target.name])

/-- Put a node at a target. -/
def put (tree : FileTree) (target : Target) (node : FileNode) : FileTree :=
  { tree with root := tree.root.update (·.setChild target.name node) target.folder }

/-- Make a directory in one that is there. -/
def makeDirectory (tree : FileTree) (path : Path) : Except FileError FileTree := do
  let target ← tree.target path
  if target.isDots then throw .alreadyExists
  if Path.maxNameSize < target.name.utf8ByteSize then throw .nameTooLong
  if (tree.found? target).isSome then throw .alreadyExists
  return tree.put target (.directory [])

/-- Write a file, over an old one. A slash at the end asks for a directory. -/
def write (tree : FileTree) (path : Path) (content : ByteArray) : Except FileError FileTree := do
  let target ← tree.target path
  if target.isDots || target.slash then throw .isDirectory
  if Path.maxNameSize < target.name.utf8ByteSize then throw .nameTooLong
  match tree.found? target with
  | some (.directory _) => throw .isDirectory
  | _ => return tree.put target (.file content)

/-- Take a file or directory out of the tree. -/
def remove (tree : FileTree) (path : Path) : Except FileError FileTree := do
  let target ← tree.target path
  return { tree with root := tree.root.update (·.removeChild target.name) target.folder }

end FileTree

/-- Work on a tree. Where it fails, the changes made before stay. -/
abbrev FileAction (ε : Type) := ExceptT ε (StateM FileTree)

namespace FileAction

/-- A change that is made as a whole or not at all. -/
def change (change : FileTree → Except FileError FileTree) : FileAction FileError Unit := do
  match change (← get) with
  | .ok tree => set tree
  | .error error => throw error

/-- Make a directory unless it is there. -/
def ensureDirectory (path : Path) : FileAction FileError Unit := do
  match (← get).makeDirectory path with
  | .ok tree => set tree
  | .error error => unless (← get).isDirectory path do throw error

/-- Make the first of some directories, each of which lies in the next. Those in
which it lies are made only when they are missing. -/
def ensureNested : List Path → FileAction FileError Unit
  | [] => pure ()
  | path :: outer => do
      match (← get).makeDirectory path with
      | .error .notFound =>
          ensureNested outer
          ensureDirectory path
      | _ => ensureDirectory path

/-- Make a directory and those above it, where they are missing. -/
def createDirectories (path : Path) : FileAction FileError Unit :=
  if path = "" then pure () else ensureNested (path :: path.parents path.length)

/-- The outcome and the tree that is left. -/
def runOn {ε α : Type} (action : FileAction ε α) (tree : FileTree) : Except ε α × FileTree :=
  (ExceptT.run action).run tree

end FileAction

end RegionOutline
