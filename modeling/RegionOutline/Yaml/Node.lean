import RegionOutline.Yaml.Token

/-! # Nodes

The tree that a list of tokens stands for, and the scalars that its aliases stand
for.

Anchors are numbered. An anchor takes as its number how many names are known when
it is met. So a name that is given again takes a new number, and the next new
name takes the same one over. An alias has the number that its name has where it
stands; it means the last anchor of the document with that number. -/

namespace RegionOutline.Yaml

structure Scalar where
  text : String
  style : ScalarStyle
  /-- The type that it is marked with, if any. -/
  tag : Option Tag := none
  deriving DecidableEq

inductive Node where
  | scalar (scalar : Scalar)
  | sequence (items : List Node)
  | mapping (entries : List (Node × Node))
  /-- An alias of the anchor with this number. -/
  | reference (number : Nat)

/-- A node that is left out. -/
def Node.absent : Node := .scalar ⟨"", .plain, none⟩

/-- The tree of a document, with what its anchors mark: a scalar, or none for a
collection. The last anchor comes first. -/
structure Tree where
  root : Node
  anchors : List (Nat × Option Scalar) := []

namespace Tree

/-- The scalar that a node is or stands for. -/
def scalar? (tree : Tree) : Node → Option Scalar
  | .scalar scalar => some scalar
  | .reference number => (tree.anchors.lookup number).join
  | _ => none

end Tree

/-- What stands in front of a node. -/
structure Properties where
  anchor : Option String := none
  tag : Option Tag := none
  deriving DecidableEq

namespace Properties

def isNone (properties : Properties) : Bool :=
  properties.anchor.isNone && properties.tag.isNone

/-- A scalar with these properties. The unspecific tag says nothing about it. -/
def scalar (properties : Properties) (text : String) (style : ScalarStyle) : Scalar :=
  ⟨text, style, properties.tag.filter (· != Tag.unspecific)⟩

/-- A node that is left out behind these properties. -/
def absent (properties : Properties) : Scalar :=
  ⟨"", .plain, properties.tag⟩

end Properties

/-- The tokens ahead and the anchors behind. -/
structure Cursor where
  tokens : List Token
  handles : Handles := WrittenTag.knownHandles
  /-- The names known so far with the numbers they have. -/
  names : List (String × Nat) := []
  anchors : List (Nat × Option Scalar) := []

namespace Cursor

/-- Number an anchor, if there is one, and remember what it marks. -/
def anchored (cursor : Cursor) (name : Option String) (target : Option Scalar) : Cursor :=
  match name with
  | none => cursor
  | some name =>
      let number := cursor.names.length
      { cursor with
        names := (name, number) :: cursor.names.filter (·.1 != name)
        anchors := (number, target) :: cursor.anchors }

def startsIn (cursor : Cursor) (tokens : List Token) : Bool :=
  match cursor.tokens with
  | [] => true
  | token :: _ => tokens.contains token

def skip (cursor : Cursor) : Cursor :=
  { cursor with tokens := cursor.tokens.drop 1 }

/-- Properties in front of a node, at most one of each kind. -/
def properties? (cursor : Cursor) : Option (Properties × Cursor) :=
  match cursor.tokens with
  | .anchor name :: .tag written :: rest | .tag written :: .anchor name :: rest => do
      let tag ← written.expand? cursor.handles
      return (⟨some name, some tag⟩, { cursor with tokens := rest })
  | .anchor name :: rest => some (⟨some name, none⟩, { cursor with tokens := rest })
  | .tag written :: rest => do
      let tag ← written.expand? cursor.handles
      return (⟨none, some tag⟩, { cursor with tokens := rest })
  | _ => some ({}, cursor)

end Cursor

/-- Where a node stands: which collections may start there. -/
inductive Place where
  /-- Block collections may start. -/
  | block
  /-- Also a sequence whose dashes are not indented further. -/
  | value
  /-- Only flow collections may start. -/
  | flow
  deriving DecidableEq

mutual

/-- A node with its properties. -/
def node? : Nat → Place → Cursor → Option (Node × Cursor)
  | 0, _, _ => none
  | fuel + 1, place, cursor =>
      match cursor.tokens with
      | .aliasOf name :: rest =>
          (cursor.names.lookup name).map fun number =>
            (.reference number, { cursor with tokens := rest })
      | _ => do
          let (properties, cursor) ← cursor.properties?
          content? fuel place properties cursor

/-- A node after its properties. -/
def content? : Nat → Place → Properties → Cursor → Option (Node × Cursor)
  | 0, _, _, _ => none
  | fuel + 1, place, properties, cursor =>
      let collection := cursor.anchored properties.anchor none
      let leftOut : Option (Node × Cursor) :=
        if properties.isNone then none
        else some (.scalar properties.absent,
          cursor.anchored properties.anchor (some properties.absent))
      match cursor.tokens with
      | .scalar text style :: rest =>
          let scalar := properties.scalar text style
          some (.scalar scalar,
            { cursor.anchored properties.anchor (some scalar) with tokens := rest })
      | .flowSequenceStart :: rest =>
          (flowSequence? fuel true { collection with tokens := rest }).map
            fun (items, cursor) => (.sequence items, cursor)
      | .flowMappingStart :: rest =>
          (flowMapping? fuel true { collection with tokens := rest }).map
            fun (entries, cursor) => (.mapping entries, cursor)
      | token :: rest =>
          if token = .blockEntry ∧ place = .value then
            (dashes? fuel collection).map fun (items, cursor) => (.sequence items, cursor)
          else if token = .blockSequenceStart ∧ place ≠ .flow then
            (blockSequence? fuel { collection with tokens := rest }).map
              fun (items, cursor) => (.sequence items, cursor)
          else if token = .blockMappingStart ∧ place ≠ .flow then
            (blockMapping? fuel { collection with tokens := rest }).map
              fun (entries, cursor) => (.mapping entries, cursor)
          else leftOut
      | [] => leftOut

/-- A node that may be left out before one of the given tokens. -/
def optional? : Nat → Place → List Token → Cursor → Option (Node × Cursor)
  | 0, _, _, _ => none
  | fuel + 1, place, stops, cursor =>
      if cursor.startsIn stops then some (.absent, cursor) else node? fuel place cursor

/-- The items of a block sequence up to its end. -/
def blockSequence? : Nat → Cursor → Option (List Node × Cursor)
  | 0, _ => none
  | fuel + 1, cursor =>
      match cursor.tokens with
      | .blockEntry :: _ => do
          let (item, cursor) ← optional? fuel .block [.blockEntry, .blockEnd] cursor.skip
          let (items, cursor) ← blockSequence? fuel cursor
          return (item :: items, cursor)
      | .blockEnd :: _ => some ([], cursor.skip)
      | _ => none

/-- The items of a sequence whose dashes are not indented. -/
def dashes? : Nat → Cursor → Option (List Node × Cursor)
  | 0, _ => none
  | fuel + 1, cursor =>
      match cursor.tokens with
      | .blockEntry :: _ => do
          let (item, cursor) ←
            optional? fuel .block [.blockEntry, .key, .value, .blockEnd] cursor.skip
          let (items, cursor) ← dashes? fuel cursor
          return (item :: items, cursor)
      | _ => some ([], cursor)

/-- The entries of a block mapping up to its end. -/
def blockMapping? : Nat → Cursor → Option (List (Node × Node) × Cursor)
  | 0, _ => none
  | fuel + 1, cursor =>
      match cursor.tokens with
      | .key :: _ => do
          let stops : List Token := [.key, .value, .blockEnd]
          let (key, cursor) ← optional? fuel .value stops cursor.skip
          let (value, cursor) ← match cursor.tokens with
            | .value :: _ => optional? fuel .value stops cursor.skip
            | _ => some (Node.absent, cursor)
          let (entries, cursor) ← blockMapping? fuel cursor
          return ((key, value) :: entries, cursor)
      | .blockEnd :: _ => some ([], cursor.skip)
      | _ => none

/-- The items of a flow sequence up to its end. -/
def flowSequence? : Nat → Bool → Cursor → Option (List Node × Cursor)
  | 0, _, _ => none
  | fuel + 1, first, cursor =>
      match cursor.tokens with
      | .flowSequenceEnd :: _ => some ([], cursor.skip)
      | token :: _ => do
          let cursor ←
            if first then some cursor else if token = .flowEntry then some cursor.skip else none
          match cursor.tokens with
          | .flowSequenceEnd :: _ => some ([], cursor.skip)
          | .key :: _ =>
              let (item, cursor) ← pair? fuel cursor.skip
              let (items, cursor) ← flowSequence? fuel false cursor
              return (item :: items, cursor)
          | _ =>
              let (item, cursor) ← node? fuel .flow cursor
              let (items, cursor) ← flowSequence? fuel false cursor
              return (item :: items, cursor)
      | [] => none

/-- A mapping of one entry written as an item of a flow sequence. -/
def pair? : Nat → Cursor → Option (Node × Cursor)
  | 0, _ => none
  | fuel + 1, cursor => do
      let ends : List Token := [.flowEntry, .flowSequenceEnd]
      let (key, cursor) ←
        if cursor.startsIn (.value :: ends) then some (Node.absent, cursor.skip)
        else node? fuel .flow cursor
      let (value, cursor) ← match cursor.tokens with
        | .value :: _ => optional? fuel .flow ends cursor.skip
        | _ => some (Node.absent, cursor)
      return (.mapping [(key, value)], cursor)

/-- The entries of a flow mapping up to its end. -/
def flowMapping? : Nat → Bool → Cursor → Option (List (Node × Node) × Cursor)
  | 0, _, _ => none
  | fuel + 1, first, cursor =>
      match cursor.tokens with
      | .flowMappingEnd :: _ => some ([], cursor.skip)
      | token :: _ => do
          let cursor ←
            if first then some cursor else if token = .flowEntry then some cursor.skip else none
          let ends : List Token := [.flowEntry, .flowMappingEnd]
          match cursor.tokens with
          | .flowMappingEnd :: _ => some ([], cursor.skip)
          | .key :: _ =>
              let (key, cursor) ← optional? fuel .flow (.value :: ends) cursor.skip
              let (value, cursor) ← match cursor.tokens with
                | .value :: _ => optional? fuel .flow ends cursor.skip
                | _ => some (Node.absent, cursor)
              let (entries, cursor) ← flowMapping? fuel false cursor
              return ((key, value) :: entries, cursor)
          | _ =>
              let (key, cursor) ← node? fuel .flow cursor
              let (entries, cursor) ← flowMapping? fuel false cursor
              return ((key, .absent) :: entries, cursor)
      | [] => none

end

/-- The directives in front of a document, and what their handles stand for. A
version is given at most once and is one of two; a handle is given at most
once. -/
def directives? : Bool → Handles → List Token → Option (Handles × List Token)
  | versioned, handles, .directive (.version major minor) :: rest =>
      if !versioned && major == 1 && (minor == 1 || minor == 2) then
        directives? true handles rest
      else none
  | versioned, handles, .directive (.handle name expansion) :: rest =>
      if (handles.lookup name).isNone then
        directives? versioned ((name, expansion) :: handles) rest
      else none
  | _, handles, rest => some (handles, rest)

/-- Whether nothing but document ends is left. -/
def isFinished (cursor : Cursor) : Bool :=
  cursor.tokens.all (· == .documentEnd)

/-- The one document of a list of tokens. A list without any holds an absent
node. Directives need a line that starts the document. -/
def document? (tokens : List Token) : Option Tree := do
  let fuel := 4 * tokens.length + 8
  let (handles, rest) ← directives? false [] tokens
  let handles := handles ++ WrittenTag.knownHandles
  let (root, cursor) ← match rest with
    | .documentStart :: rest =>
        optional? fuel .block [.documentStart, .documentEnd] { tokens := rest, handles }
    | rest =>
        if tokens.isEmpty then some (Node.absent, { tokens := [] })
        else if rest.length < tokens.length then none
        else node? fuel .block { tokens, handles }
  if isFinished cursor then some { root, anchors := cursor.anchors } else none

/-- Read the one document of a text. -/
def read? (text : List Char) : Option Tree :=
  (tokens? text).bind document?

end RegionOutline.Yaml
