import ChipHighlight.Config.Setting

/-!
# What can be wrong with a configuration

Each cause has a constructor.  Some causes lie in the value of one field and are
reported under the name of that field (`field?`); the others are that a value has
a shape that no field could be read from, or that there is no such field.  `message`
is the wording.
-/

namespace ChipHighlight.Config

def stringStyleField : Text := "string_style".toList

def extraKeywordsField : Text := "extra_keywords".toList

def lenientSharpsField : Text := "lenient_sharps".toList

/-- Why settings do not make a configuration. -/
inductive Fault
  | unknownStyle (name : Text)
  /-- The style of literals is neither a style nor a name. -/
  | notAStyle (given : Setting)
  /-- The further keywords are one text and not a collection. -/
  | bareText
  /-- One of the further keywords is empty or not a text. -/
  | invalidWord (given : Setting)
  /-- One of the further keywords is a collection itself. -/
  | nestedWord (given : Setting)
  /-- The further keywords are no collection. -/
  | notACollection (given : Setting)
  | noFields (given : Setting)
  /-- No setting has this name. -/
  | unknownField (name : Text)
  /-- This name stands for the configuration itself. -/
  | takenField (name : Text)

namespace Fault

/-- The field that a fault is reported under, if it lies in the value of one. -/
def field? : Fault → Option Text
  | unknownStyle _ | notAStyle _ => some stringStyleField
  | bareText | invalidWord _ => some extraKeywordsField
  | nestedWord _ | notACollection _ | noFields _ | unknownField _ | takenField _ =>
    none

/-- What is wrong, without the field. -/
def reason : Fault → Text
  | unknownStyle name => "unknown style ".toList ++ quoted name
  | notAStyle given => "expected a TokenClass, got ".toList ++ given.display
  | bareText => "expected a collection of identifiers".toList
  | invalidWord given => "invalid identifier ".toList ++ given.display
  | nestedWord given => "unhashable type: '".toList ++ given.kindName ++ "'".toList
  | notACollection given => '\'' :: given.kindName ++ "' object is not iterable".toList
  | noFields given => '\'' :: given.kindName ++ "' object has no attribute 'items'".toList
  | unknownField name =>
    "LexConfig.__init__() got an unexpected keyword argument '".toList ++ name ++ "'".toList
  | takenField name =>
    "LexConfig.__init__() got multiple values for argument '".toList ++ name ++ "'".toList

def underField (field reason : Text) : Text :=
  "LexConfig.".toList ++ field ++ ':' :: ' ' :: reason

def message (f : Fault) : Text :=
  match f.field? with
  | some field => underField field f.reason
  | none => f.reason

end Fault

end ChipHighlight.Config
