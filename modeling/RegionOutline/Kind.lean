import RegionOutline.Access

/-! # Kinds

The structural category of an outline row: a container that groups members under
a fixed label, a named item, an access block, or a marker that no rule
recognises. -/

namespace RegionOutline

/-- Groups of members. -/
inductive Container where
  | headers
  | metaInfo
  | usings
  | macros
  | objectMacros
  | functionMacros
  | friends
  | components
  | concepts
  | classes
  | structs
  | unions
  | stores
  | members
  | properties
  | fields
  | scopedEnums
  | plainEnums
  | delegates
  | setters
  | getters
  | overrides
  | specials
  | constructors
  | methods
  | operators
  | conversions
  | functions
  | events
  deriving DecidableEq

/-- Named items. A scoped enumeration is one declared with `enum class` or
`enum struct`. -/
inductive Item where
  | namespaceDecl
  | usingDecl
  | macroDecl
  | objectMacro
  | functionMacro
  | friendDecl
  | component
  | conceptDecl
  | classDecl
  | structDecl
  | unionDecl
  | store
  | member
  | property
  | field
  | scopedEnum
  | plainEnum
  | delegate
  | setter
  | getter
  | overrideDecl
  | special
  | constructorDecl
  | method
  | operatorDecl
  | conversion
  | functionDecl
  | event
  deriving DecidableEq

inductive Kind where
  | unrecognised
  | container (group : Container)
  | item (named : Item)
  | access (level : Access)
  deriving DecidableEq

namespace Container

def all : List Container :=
  [.headers, .metaInfo, .usings, .macros, .objectMacros, .functionMacros, .friends, .components,
    .concepts, .classes, .structs, .unions, .stores, .members, .properties, .fields, .scopedEnums,
    .plainEnums, .delegates, .setters, .getters, .overrides, .specials, .constructors, .methods,
    .operators, .conversions, .functions, .events]

/-- The group's name in exchanged data. -/
def name : Container → String
  | .headers => "Headers"
  | .metaInfo => "Meta"
  | .usings => "Usings"
  | .macros => "Macros"
  | .objectMacros => "ObjectLikeMacros"
  | .functionMacros => "FunctionLikeMacros"
  | .friends => "Friends"
  | .components => "Components"
  | .concepts => "Concepts"
  | .classes => "Classes"
  | .structs => "Structs"
  | .unions => "Unions"
  | .stores => "Stores"
  | .members => "Members"
  | .properties => "Properties"
  | .fields => "Fields"
  | .scopedEnums => "Enums"
  | .plainEnums => "EnumsUnscoped"
  | .delegates => "Delegates"
  | .setters => "Setters"
  | .getters => "Getters"
  | .overrides => "Overrides"
  | .specials => "Specials"
  | .constructors => "Constructors"
  | .methods => "Methods"
  | .operators => "Operators"
  | .conversions => "Conversions"
  | .functions => "Functions"
  | .events => "Events"

end Container

namespace Item

def all : List Item :=
  [.namespaceDecl, .usingDecl, .macroDecl, .objectMacro, .functionMacro, .friendDecl, .component,
    .conceptDecl, .classDecl, .structDecl, .unionDecl, .store, .member, .property, .field,
    .scopedEnum, .plainEnum, .delegate, .setter, .getter, .overrideDecl, .special,
    .constructorDecl, .method, .operatorDecl, .conversion, .functionDecl, .event]

/-- The item's name in exchanged data. -/
def name : Item → String
  | .namespaceDecl => "Namespace"
  | .usingDecl => "Using"
  | .macroDecl => "Macro"
  | .objectMacro => "ObjectLikeMacro"
  | .functionMacro => "FunctionLikeMacro"
  | .friendDecl => "Friend"
  | .component => "Component"
  | .conceptDecl => "Concept"
  | .classDecl => "Class"
  | .structDecl => "Struct"
  | .unionDecl => "Union"
  | .store => "Store"
  | .member => "Member"
  | .property => "Property"
  | .field => "Field"
  | .scopedEnum => "Enum"
  | .plainEnum => "EnumUnscoped"
  | .delegate => "Delegate"
  | .setter => "Setter"
  | .getter => "Getter"
  | .overrideDecl => "Override"
  | .special => "Special"
  | .constructorDecl => "Constructor"
  | .method => "Method"
  | .operatorDecl => "Operator"
  | .conversion => "Conversion"
  | .functionDecl => "Function"
  | .event => "Event"

end Item

namespace Kind

def all : List Kind :=
  .unrecognised :: Container.all.map .container ++ Item.all.map .item ++ Access.all.map .access

/-- The kind's name in exchanged data. -/
def name : Kind → String
  | .unrecognised => "None"
  | .container group => group.name
  | .item named => named.name
  | .access .pub => "Public"
  | .access .prot => "Protected"
  | .access .priv => "Private"

def ofName? (name : String) : Option Kind :=
  all.find? fun kind => kind.name == name

/-- The fixed label of a kind that groups members. -/
def containerLabel? : Kind → Option String
  | .container .headers => some "Headers"
  | .container .metaInfo => some "Meta"
  | .container .usings => some "Usings"
  | .container .macros => some "Macros"
  | .container .objectMacros => some "Object-like macros"
  | .container .functionMacros => some "Function-like macros"
  | .container .friends => some "Friends"
  | .container .components => some "Components"
  | .container .concepts => some "Concepts"
  | .container .classes => some "Classes"
  | .container .structs => some "Structs"
  | .container .unions => some "Unions"
  | .container .stores => some "Stores"
  | .container .members => some "Members"
  | .container .properties => some "Properties"
  | .container .fields => some "Fields"
  | .container .scopedEnums => some "Enums"
  | .container .plainEnums => some "Enums (unscoped)"
  | .container .delegates => some "Delegates"
  | .container .setters => some "Setters"
  | .container .getters => some "Getters"
  | .container .overrides => some "Overrides"
  | .container .specials => some "Specials"
  | .container .constructors => some "Constructors"
  | .container .methods => some "Methods"
  | .container .operators => some "Operators"
  | .container .conversions => some "Conversions"
  | .container .functions => some "Functions"
  | .container .events => some "Events"
  | _ => none

/-- Whether the kind groups members. -/
def isContainer (kind : Kind) : Bool :=
  kind.containerLabel?.isSome

/-- Whether the kind stands for an access block. -/
def isAccess : Kind → Bool
  | .access _ => true
  | _ => false

theorem mem_all (kind : Kind) : kind ∈ all := by
  rcases kind with _ | group | named | level
  · decide
  · cases group <;> decide
  · cases named <;> decide
  · cases level <;> decide

/-- No two kinds share a name, so a name finds its kind. -/
@[simp]
theorem ofName?_name (kind : Kind) : ofName? kind.name = some kind := by
  have hall : ∀ kind ∈ all, ofName? kind.name = some kind := by decide +kernel
  exact hall kind kind.mem_all

end Kind

end RegionOutline
