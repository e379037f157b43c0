/-!
# Referenced types

A `Catalog` describes the library that a document refers to: types that the document does not
declare, and the methods that rules ask about.
-/

namespace CodeMend

/-- A method of a referenced type. -/
structure ReferenceMethod where
  name : String
  isStatic : Bool := false
  /-- The names of the parameter types. -/
  parameters : List String := []
  returnType : Option String := none
deriving DecidableEq

/-- A type that the document does not declare. -/
structure ReferenceType where
  space : String
  name : String
  /-- Is it a class, an interface or a delegate, and not a value? -/
  isReference : Bool := true
  methods : List ReferenceMethod := []
deriving DecidableEq

namespace ReferenceType

/-- A class without methods. -/
def ofClass (space name : String) : ReferenceType := ⟨space, name, true, []⟩

/-- A value type without methods. -/
def ofValue (space name : String) : ReferenceType := ⟨space, name, false, []⟩

/-- The type with one more static method, which returns nothing. -/
def withStaticMethod (t : ReferenceType) (name : String) (parameters : List String) :
    ReferenceType :=
  { t with methods := t.methods ++ [⟨name, true, parameters, some "void"⟩] }

/-- The name with its namespace. -/
def fullName (t : ReferenceType) : String :=
  if t.space.isEmpty then t.name else t.space ++ "." ++ t.name

/-- The first method of a name. -/
def method? (t : ReferenceType) (name : String) : Option ReferenceMethod :=
  t.methods.find? (·.name == name)

end ReferenceType

/-- The referenced types that a document sees. -/
structure Catalog where
  types : List ReferenceType
deriving DecidableEq

namespace Catalog

/-- No types at all. -/
def empty : Catalog := ⟨[]⟩

/-- The catalog with a type, which takes the place of one with the same full name and comes last. -/
def withType (c : Catalog) (t : ReferenceType) : Catalog :=
  ⟨c.types.filter (fun u => u.fullName != t.fullName) ++ [t]⟩

/-- A type by its simple or its full name. -/
def lookup? (c : Catalog) (name : String) : Option ReferenceType :=
  c.types.find? (fun t => t.name == name || t.fullName == name)

/-- Has the type a static method of that name with so many parameters? -/
def hasStaticMethod (c : Catalog) (type method : String) (arity : Nat) : Bool :=
  (c.lookup? type).any fun t =>
    t.methods.any fun m => m.isStatic && m.name == method && m.parameters.length == arity

/-- The base library of a recent version. -/
def standard : Catalog :=
  ⟨[.ofClass "System" "Object",
    .ofClass "System" "String",
    .ofClass "System" "Exception",
    .ofClass "System" "ArgumentException",
    (ReferenceType.ofClass "System" "ArgumentNullException").withStaticMethod "ThrowIfNull"
      ["object"],
    .ofClass "System" "InvalidOperationException",
    .ofClass "System" "IDisposable",
    .ofValue "System" "Guid",
    .ofValue "System" "DateTime",
    .ofValue "System" "TimeSpan"]⟩

/-- The base library without the method that throws for a null argument. -/
def legacy : Catalog := standard.withType (.ofClass "System" "ArgumentNullException")

end Catalog

end CodeMend
