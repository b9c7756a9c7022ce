import RegionOutline.Kind

/-! # Appearance of kinds

One row of a style table for each kind: where its label comes from, the label's
colour and the icon in front of it. -/

namespace RegionOutline

/-- A 24-bit colour. -/
structure Color where
  red : UInt8
  green : UInt8
  blue : UInt8
  deriving DecidableEq

namespace Color

def white : Color := ⟨224, 224, 224⟩
def gray : Color := ⟨128, 128, 128⟩
def purple : Color := ⟨176, 128, 224⟩
def azure : Color := ⟨128, 176, 224⟩
def turquoise : Color := ⟨128, 224, 176⟩
def lime : Color := ⟨176, 224, 128⟩
def yellow : Color := ⟨224, 224, 128⟩
def orange : Color := ⟨224, 176, 128⟩
def coral : Color := ⟨224, 128, 128⟩
def pink : Color := ⟨224, 128, 224⟩
def darkGreen : Color := ⟨128, 176, 96⟩
def darkYellow : Color := ⟨152, 152, 96⟩
def darkRed : Color := ⟨176, 128, 96⟩

/-- The terminal escape that switches the foreground to the colour. -/
def escape (color : Color) : String :=
  "\x1b[38;2;" ++ toString color.red ++ ";" ++ toString color.green ++ ";"
    ++ toString color.blue ++ "m"

/-- The terminal escape that ends every style. -/
def reset : String := "\x1b[0m"

end Color

/-- Shape of the icon in front of a label. -/
inductive Icon where
  | blank
  | squareFull
  | squareDotted
  | circleFull
  | circleDotted
  | circleSmall
  deriving DecidableEq

namespace Icon

def glyph : Icon → Char
  | .blank => ' '
  | .squareFull => '■'
  | .squareDotted => '□'
  | .circleFull => '●'
  | .circleDotted => '○'
  | .circleSmall => '•'

def name : Icon → String
  | .blank => "Blank"
  | .squareFull => "SquareFull"
  | .squareDotted => "SquareDotted"
  | .circleFull => "CircleFull"
  | .circleDotted => "CircleDotted"
  | .circleSmall => "CircleSmall"

end Icon

/-- Where the label of a row comes from. -/
inductive Label where
  | fixed (text : String)
  | ofEntry
  deriving DecidableEq

structure Appearance where
  label : Label
  color : Color
  icon : Icon
  deriving DecidableEq

namespace Appearance

/-- A row that is labelled the same whatever its entry says. -/
def fixed (text : String) (color : Color) (icon : Icon) : Appearance :=
  ⟨.fixed text, color, icon⟩

/-- A row that is labelled with the text of its entry. -/
def named (color : Color) (icon : Icon) : Appearance :=
  ⟨.ofEntry, color, icon⟩

end Appearance

namespace Kind

/-- The style table. -/
def appearance : Kind → Appearance
  | .unrecognised => .named .white .blank
  | .container .headers => .fixed "Headers" .white .squareDotted
  | .container .metaInfo => .fixed "Meta" .white .squareFull
  | .container .usings => .fixed "Usings" .gray .squareFull
  | .container .macros => .fixed "Macros" .purple .squareFull
  | .container .objectMacros => .fixed "Object-like macros" .purple .squareFull
  | .container .functionMacros => .fixed "Function-like macros" .purple .squareDotted
  | .container .friends => .fixed "Friends" .azure .squareFull
  | .container .components => .fixed "Components" .turquoise .squareFull
  | .container .concepts => .fixed "Concepts" .lime .squareFull
  | .container .classes => .fixed "Classes" .lime .squareDotted
  | .container .structs => .fixed "Structs" .lime .squareDotted
  | .container .unions => .fixed "Unions" .lime .squareDotted
  | .container .stores => .fixed "Stores" .yellow .squareDotted
  | .container .members => .fixed "Members" .yellow .squareFull
  | .container .properties => .fixed "Properties" .orange .squareFull
  | .container .fields => .fixed "Fields" .coral .squareFull
  | .container .scopedEnums => .fixed "Enums" .coral .squareDotted
  | .container .plainEnums => .fixed "Enums (unscoped)" .coral .squareDotted
  | .container .delegates => .fixed "Delegates" .pink .squareFull
  | .container .setters => .fixed "Setters" .purple .circleFull
  | .container .getters => .fixed "Getters" .azure .circleFull
  | .container .overrides => .fixed "Overrides" .turquoise .circleFull
  | .container .specials => .fixed "Specials" .lime .circleFull
  | .container .constructors => .fixed "Constructors" .lime .circleDotted
  | .container .methods => .fixed "Methods" .yellow .circleFull
  | .container .operators => .fixed "Operators" .orange .circleFull
  | .container .conversions => .fixed "Conversions" .orange .circleDotted
  | .container .functions => .fixed "Functions" .coral .circleFull
  | .container .events => .fixed "Events" .pink .circleFull
  | .item .namespaceDecl => .named .gray .squareDotted
  | .item .usingDecl => .named .gray .squareFull
  | .item .macroDecl | .item .objectMacro => .named .purple .squareFull
  | .item .functionMacro => .named .purple .squareDotted
  | .item .friendDecl => .named .azure .squareFull
  | .item .component => .named .turquoise .squareFull
  | .item .conceptDecl => .named .lime .squareFull
  | .item .classDecl | .item .structDecl | .item .unionDecl => .named .lime .squareDotted
  | .item .store => .named .yellow .squareDotted
  | .item .member => .named .yellow .squareFull
  | .item .property => .named .orange .squareFull
  | .item .field => .named .coral .squareFull
  | .item .scopedEnum | .item .plainEnum => .named .coral .squareDotted
  | .item .delegate => .named .pink .squareFull
  | .item .setter => .named .purple .circleFull
  | .item .getter => .named .azure .circleFull
  | .item .overrideDecl => .named .turquoise .circleFull
  | .item .special => .named .lime .circleFull
  | .item .constructorDecl => .named .lime .circleDotted
  | .item .method => .named .yellow .circleFull
  | .item .operatorDecl => .named .orange .circleFull
  | .item .conversion => .named .orange .circleDotted
  | .item .functionDecl => .named .coral .circleFull
  | .item .event => .named .pink .circleFull
  | .access .pub => .fixed "Public" .darkGreen .circleSmall
  | .access .prot => .fixed "Protected" .darkYellow .circleSmall
  | .access .priv => .fixed "Private" .darkRed .circleSmall

end Kind

end RegionOutline
