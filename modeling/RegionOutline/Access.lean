import RegionOutline.Text.Word

/-! # Access levels

The three access levels of a class body. An entry outside every access block has
none, so stored levels are optional. -/

namespace RegionOutline

inductive Access where
  | pub
  | prot
  | priv
  deriving DecidableEq

namespace Access

def all : List Access := [.pub, .prot, .priv]

/-- The keyword that a bare specifier is written with. -/
def keyword : Access → String
  | .pub => "public"
  | .prot => "protected"
  | .priv => "private"

/-- The level's name in exchanged data. -/
def name : Access → String
  | .pub => "Public"
  | .prot => "Protected"
  | .priv => "Private"

/-- The level of a keyword, ignoring the case of ASCII letters. -/
def ofKeyword? (word : String) : Option Access :=
  all.find? fun level => Text.equalIgnoringCase level.keyword word

/-- The name of an optional level; the absent one is called `None`. -/
def optionName : Option Access → String
  | none => "None"
  | some level => level.name

def ofOptionName? (name : String) : Option (Option Access) :=
  (none :: all.map some).find? fun level => optionName level == name

@[simp]
theorem ofOptionName?_optionName (level : Option Access) :
    ofOptionName? (optionName level) = some level := by
  rcases level with _ | level
  · rfl
  · cases level <;> rfl

end Access

end RegionOutline
