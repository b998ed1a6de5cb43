/-
# Type tags

The names that may stand where a type is expected. Nine tags name the kinds of
values; two more admit several kinds. A registry says which name stands for which
tag; the builtin registry knows every tag by its own name and `boolean` also as
`bool`.
-/

namespace Script

/-- A declarable type. -/
inductive TypeTag where
  | int | long | double | boolean | string | list | function | ns | void
  /-- Any of the three kinds of numbers. -/
  | number
  /-- Any value at all. -/
  | object
  deriving DecidableEq, Inhabited, Repr

namespace TypeTag

/-- The name by which a program refers to a type. -/
def name : TypeTag → String
  | int => "int"
  | long => "long"
  | double => "double"
  | boolean => "boolean"
  | string => "string"
  | list => "list"
  | function => "func"
  | ns => "ns"
  | void => "void"
  | number => "number"
  | object => "object"

/-- Every tag, in the order in which they are listed. -/
def all : List TypeTag :=
  [int, long, double, boolean, string, list, function, ns, void, number, object]

/-- Whether a value whose own kind is `kind` may be bound under a tag. -/
def admits (tag kind : TypeTag) : Bool :=
  match tag with
  | object => true
  | number => kind = int || kind = long || kind = double
  | _ => tag = kind

end TypeTag

/-- The names that are valid where a type is expected. A later entry for a name
stands before an earlier one. -/
structure TypeRegistry where
  entries : List (String × TypeTag)

namespace TypeRegistry

/-- Let a name stand for a tag. -/
def register (registry : TypeRegistry) (name : String) (tag : TypeTag) : TypeRegistry :=
  ⟨(name, tag) :: registry.entries⟩

/-- The tag that a name stands for, if it stands for one. -/
def resolve (registry : TypeRegistry) (name : String) : Option TypeTag :=
  registry.entries.lookup name

/-- Every tag under its own name, and `bool` for `boolean`. -/
def builtin : TypeRegistry :=
  ⟨TypeTag.all.map (fun tag => (tag.name, tag)) ++ [("bool", .boolean)]⟩

end TypeRegistry

end Script
