import ServiceKit.Lib.FreshName
import ServiceKit.Lib.Text

/-!
# `Goprotoc.Names` — the Go names of what a message declares

`names.go` of `plugins`: the names of the fields, the oneofs and the wrapper types of a generated message. An identifier
of a proto file is ASCII, so that its bytes are its runes.
-/

namespace ServiceKit
namespace Goprotoc

open Lib

def isASCIILower (c : Char) : Bool := 'a' ≤ c ∧ c ≤ 'z'

def isASCIIDigit (c : Char) : Bool := '0' ≤ c ∧ c ≤ '9'

/-- The loop of `CamelCase`; `inWord` where a lower case letter goes on with a word. -/
def camelCaseFrom : Bool → Text → Text
  | _, [] => []
  | inWord, c :: s =>
      if inWord ∧ isASCIILower c then c :: camelCaseFrom true s
      else if c = '_' ∧ s.head?.any isASCIILower then camelCaseFrom false s
      else if isASCIIDigit c then c :: camelCaseFrom false s
      else (if isASCIILower c then c.toUpper else c) :: camelCaseFrom true s

def CamelCase : Text → Text
  | [] => []
  | c :: s => if c = '_' then 'X' :: camelCaseFrom false s else camelCaseFrom false (c :: s)

/-- `camelCaseSlice`: the elements joined by `_`. -/
def camelCaseSlice (elem : List Text) : Text := CamelCase (List.intercalate ['_'] elem)

/-- A field, with the name of its oneof. The names in a message are all different. -/
structure FieldDescriptor where
  name : Text
  oneOf : Option Text

/-- A message: its name after those of the messages that it is nested in, its fields, and the names of the messages and
    enums nested in it. -/
structure MessageType where
  path : List Text
  fields : List FieldDescriptor
  nestedTypes : List Text

/-- `goSymbolFor(md)` -/
def MessageType.goName (md : MessageType) : Text := camelCaseSlice md.path

/-- `goSymbolFor` of what is nested in the message. -/
def MessageType.nestedNames (md : MessageType) : List Text :=
  md.nestedTypes.map fun name => camelCaseSlice (md.path ++ [name])

def reservedMethodNames : List Text :=
  ["Reset".toList, "String".toList, "ProtoMessage".toList, "Marshal".toList, "Unmarshal".toList,
    "ExtensionRangeArray".toList, "ExtensionMap".toList, "Descriptor".toList]

def getter (name : Text) : Text := "Get".toList ++ name

/-- What `computeMessage` fills: the names in use, the oneofs that are done, and the names of the fields, of the oneofs
    and of the wrapper types of fields. -/
structure GoNames where
  usedNames : List Text
  computedOneOfs : List Text
  fieldNames : List (Text × Text)
  oneOfNames : List (Text × Text)
  choiceTypes : List (Text × Text)
  deriving DecidableEq

def underscored (name : Text) : Text := name ++ ['_']

def computeField (usedNames : List Text) (fld : FieldDescriptor) : Option Text :=
  firstUntaken (fun name => usedNames.contains name || usedNames.contains (getter name)) underscored
    (2 * usedNames.length + 1) (CamelCase fld.name)

def computeOneOf (usedNames : List Text) (ood : Text) : Option Text :=
  firstUntaken usedNames.contains underscored (usedNames.length + 1) (CamelCase ood)

def computeChoice (md : MessageType) (fldName : Text) : Option Text :=
  firstUntaken md.nestedNames.contains underscored (md.nestedNames.length + 1)
    (md.goName ++ '_' :: fldName)

/-- One round of the loop over the fields. The type of the wrapper is computed with the oneof. -/
def computeNames (md : MessageType) (n : GoNames) (fld : FieldDescriptor) : Option GoNames :=
  (computeField n.usedNames fld).bind fun fldName =>
    let n := { n with usedNames := n.usedNames ++ [fldName], fieldNames := n.fieldNames ++ [(fld.name, fldName)] }
    match fld.oneOf with
    | none => some n
    | some ood =>
        if n.computedOneOfs.contains ood then some n
        else
          (computeOneOf n.usedNames ood).bind fun oodName =>
            (computeChoice md fldName).map fun oneofFieldName =>
              { n with
                usedNames := n.usedNames ++ [oodName]
                oneOfNames := n.oneOfNames ++ [(ood, oodName)]
                choiceTypes := n.choiceTypes ++ [(fld.name, oneofFieldName)]
                computedOneOfs := n.computedOneOfs ++ [ood] }

def computeMessage (md : MessageType) : Option GoNames :=
  md.fields.foldlM (computeNames md) ⟨reservedMethodNames, [], [], [], []⟩

end Goprotoc
end ServiceKit
