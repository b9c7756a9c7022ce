import RegionOutline.Entry

/-! # Classification of region tags

A region marker carries a tag and a description. Aliased spellings are first
brought to a canonical tag; the tag tables then decide the kind and the text
shown. -/

namespace RegionOutline

/-- What a tag and its description stand for. -/
structure Classification where
  kind : Kind
  text : String
  /-- Whether the tag was found among those of groups. -/
  isContainer : Bool
  deriving DecidableEq

namespace Classification

/-- A tag with the description that goes with it. -/
structure Tagged where
  tag : String
  description : String
  deriving DecidableEq

/-- The description after a leading word and one space. -/
def afterWord? (word description : String) : Option String :=
  (Text.stripStart? (word.toList ++ [' ']) description.toList).map String.ofList

/-- Like `afterWord?`, and the word alone leaves nothing. -/
def afterWordOrWhole? (word description : String) : Option String :=
  if description = word then some "" else afterWord? word description

/-- The first halves of compound macro tags, with the tags of the group and of the item
they lead to. -/
def compoundMacros : List (String × String × String) :=
  [("Object-like", "Object-like macros", "object-like macro"),
    ("object-like", "Object-like macros", "object-like macro"),
    ("Function-like", "Function-like macros", "function-like macro"),
    ("function-like", "Function-like macros", "function-like macro")]

/-- Join a compound macro tag with the word `macros` or `macro` that follows it. -/
def mergeMacro? (tag description : String) : Option Tagged :=
  match compoundMacros.lookup tag with
  | none => none
  | some (plural, singular) =>
      match afterWordOrWhole? "macros" description with
      | some rest => some ⟨plural, rest⟩
      | none => (afterWordOrWhole? "macro" description).map fun rest => ⟨singular, rest⟩

/-- Descriptions that turn the tag `Enum` into the group of scoped enumerations. -/
def scopedEnumWords : List String := ["Classes", "classes", "Structs", "structs"]

/-- Bring an aliased spelling to a tag of the tables. A spelling that no rule
covers stays as it is. -/
def canonical (tag description : String) : Tagged :=
  match mergeMacro? tag description with
  | some merged => merged
  | none =>
      if tag = "enum" then
        match (afterWord? "class" description).or (afterWord? "struct" description) with
        | some rest => ⟨"enum class", rest⟩
        | none => ⟨tag, description⟩
      else if tag = "Enums" then ⟨"Enums (unscoped)", description⟩
      else if tag = "Enum" ∧ description ∈ scopedEnumWords then ⟨"Enums", ""⟩
      else ⟨tag, description⟩

/-- The tags of groups. -/
def containerTags : List (String × Kind) :=
  [("Headers", .container .headers),
    ("Meta", .container .metaInfo),
    ("Usings", .container .usings),
    ("Macros", .container .macros),
    ("Object-like macros", .container .objectMacros),
    ("Function-like macros", .container .functionMacros),
    ("Friends", .container .friends),
    ("Components", .container .components),
    ("Concepts", .container .concepts),
    ("Classes", .container .classes),
    ("Structs", .container .structs),
    ("Unions", .container .unions),
    ("Stores", .container .stores),
    ("Members", .container .members),
    ("Properties", .container .properties),
    ("Fields", .container .fields),
    ("Enums", .container .scopedEnums),
    ("Enums (unscoped)", .container .plainEnums),
    ("Delegates", .container .delegates),
    ("Setters", .container .setters),
    ("Getters", .container .getters),
    ("Overrides", .container .overrides),
    ("Specials", .container .specials),
    ("Constructors", .container .constructors),
    ("Methods", .container .methods),
    ("Operators", .container .operators),
    ("Conversions", .container .conversions),
    ("Functions", .container .functions),
    ("Events", .container .events)]

/-- The tags of items. -/
def itemTags : List (String × Kind) :=
  [("namespace", .item .namespaceDecl),
    ("using", .item .usingDecl),
    ("macro", .item .macroDecl),
    ("object-like macro", .item .objectMacro),
    ("function-like macro", .item .functionMacro),
    ("friend", .item .friendDecl),
    ("component", .item .component),
    ("concept", .item .conceptDecl),
    ("class", .item .classDecl),
    ("struct", .item .structDecl),
    ("union", .item .unionDecl),
    ("store", .item .store),
    ("member", .item .member),
    ("property", .item .property),
    ("field", .item .field),
    ("enum class", .item .scopedEnum),
    ("enum", .item .plainEnum),
    ("delegate", .item .delegate),
    ("setter", .item .setter),
    ("getter", .item .getter),
    ("override", .item .overrideDecl),
    ("special", .item .special),
    ("constructor", .item .constructorDecl),
    ("method", .item .method),
    ("operator", .item .operatorDecl),
    ("conversion", .item .conversion),
    ("function", .item .functionDecl),
    ("event", .item .event)]

/-- Decide by the tables: a group shows its tag, an item its description, and
anything else both. -/
def ofCanonical (tagged : Tagged) : Classification :=
  match containerTags.lookup tagged.tag with
  | some kind => ⟨kind, tagged.tag, true⟩
  | none =>
      match itemTags.lookup tagged.tag with
      | some kind => ⟨kind, tagged.description, false⟩
      | none => ⟨.unrecognised, tagged.tag ++ " " ++ tagged.description, false⟩

end Classification

/-- What a region marker with this tag and description stands for. -/
def classify (tag description : String) : Classification :=
  .ofCanonical (Classification.canonical tag description)

end RegionOutline
