import ChipHighlight.Config.Basic
import ChipHighlight.Config.Fault

/-!
# Reading a configuration

A configuration is made from a `Draft`: the settings that were given, each of
them absent or present, not yet checked.  `Draft.build` checks the style of
literals first and the further keywords second, so of two faults the one in the
style is reported.  Among the words a collection inside the collection comes
first, because then there is no set of words at all; after that the first word, in the
order of the list, that is empty or not a text.  A set of words has no order, so where
several of them are bad a message may as well name another: only that it names a bad
one is settled, and the order of the list is the choice that is made here.

A host can fill in a draft by hand, and then a style has to be a style, and every
name that it uses the name of a setting (`checkNames`).
`Draft.ofFields` fills it in from the fields of a document, where a style goes by
its name and fields of other names are ignored.
-/

namespace ChipHighlight.Config

inductive GivenStyle
  | style (s : Style)
  | other (value : Setting)

/-- Settings that are not checked yet. -/
structure Draft where
  lenientSharps : Option Setting := none
  extraKeywords : Option Setting := none
  stringStyle : Option GivenStyle := none

/-! ### Words -/

/-- The items of a collection; those of an object are the names of its fields. -/
def items? : Setting → Except Fault (List Setting)
  | .text _ => .error .bareText
  | .list items => .ok items
  | .object fields => .ok (fields.map fun f => .text f.1)
  | given => .error (.notACollection given)

/-- Whether a value is a collection that can change, and so no member of a set. -/
def isNested : Setting → Bool
  | .list _ | .object _ => true
  | _ => false

/-- The words that are listed.  Of several bad ones the fault names the first in the list, where
in a set it could be any of them. -/
def wordsOf : List Setting → Except Fault (List Text)
  | [] => .ok []
  | .text (c :: t) :: rest => do
    let words ← wordsOf rest
    return (c :: t) :: words
  | given :: _ => .error (.invalidWord given)

def readWords (given : Setting) : Except Fault WordSet := do
  let items ← items? given
  match items.find? isNested with
  | some item => .error (.nestedWord item)
  | none =>
    let words ← wordsOf items
    return .ofList words

/-! ### Drafts -/

namespace Draft

def readStyle : Option GivenStyle → Except Fault Style
  | none => .ok .string
  | some (.style s) => .ok s
  | some (.other given) => .error (.notAStyle given)

def readKeywords : Option Setting → Except Fault WordSet
  | none => .ok .empty
  | some given => readWords given

/-- **The configuration of a draft**, or the first fault in it. -/
def build (d : Draft) : Except Fault Config := do
  let stringStyle ← readStyle d.stringStyle
  let extraKeywords ← readKeywords d.extraKeywords
  return {
    lenientSharps := d.lenientSharps.getD (.bool false)
    extraKeywords := extraKeywords
    stringStyle := stringStyle }

def names : List Text := [lenientSharpsField, extraKeywordsField, stringStyleField]

def ownName : Text := "self".toList

/-- Every name is the name of a setting; the first that is not is a fault. -/
def checkNames (given : List Text) : Except Fault Unit :=
  match given.find? fun name => !names.contains name with
  | some name => .error (if name = ownName then .takenField name else .unknownField name)
  | none => .ok ()

def namedStyle : Setting → Except Fault GivenStyle
  | .text name =>
    match Style.ofName? name with
    | some s => .ok (.style s)
    | none => .error (.unknownStyle name)
  | given => .ok (.other given)

def field? (name : Text) (fields : List (Text × Setting)) : Option Setting := fields.lookup name

def ofFields (fields : List (Text × Setting)) : Except Fault Draft := do
  let stringStyle ← (field? stringStyleField fields).mapM namedStyle
  return {
    lenientSharps := field? lenientSharpsField fields
    extraKeywords := field? extraKeywordsField fields
    stringStyle := stringStyle }

end Draft

def ofFields (fields : List (Text × Setting)) : Except Fault Config := do
  let draft ← Draft.ofFields fields
  draft.build

/-- **The configuration that a document describes.**  The document has to be an
object. -/
def ofSetting : Setting → Except Fault Config
  | .object fields => ofFields fields
  | given => .error (.noFields given)

end ChipHighlight.Config
