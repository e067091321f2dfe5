import Ambient.Text.Quoted

/-!
# Names in TypeScript

A type name must not be a word of the language, so a reserved word is escaped. A
property may be called by any word; a name that is no identifier is quoted.
-/

namespace Ambient.TypeScript

/-- Words that no type can be called by: the language's own and the names of its basic types. -/
def reservedWords : List String :=
  ["break", "case", "catch", "class", "const", "continue", "debugger", "default", "delete",
   "do", "else", "enum", "export", "extends", "false", "finally", "for", "function", "if",
   "import", "in", "instanceof", "new", "null", "return", "super", "switch", "this", "throw",
   "true", "try", "typeof", "var", "void", "while", "with",
   "any", "bigint", "boolean", "never", "number", "object", "string", "symbol", "undefined",
   "unknown"]

def isReserved (name : String) : Bool :=
  name ∈ reservedWords

def isIdentifierStart (c : Char) : Bool :=
  c.isAlpha || c == '_' || c == '$'

def isIdentifierRest (c : Char) : Bool :=
  c.isAlphanum || c == '_' || c == '$'

/-- An ASCII letter, `_` or `$`, then any number of these and of ASCII digits. -/
def isIdentifier (name : String) : Bool :=
  match name.toList with
  | [] => false
  | c :: cs => isIdentifierStart c && cs.all isIdentifierRest

/-- The name a type is declared under. -/
def typeName (name : String) : String :=
  if isReserved name then "_" ++ name else name

/-- The key a property is declared under. -/
def propertyName (name : String) : String :=
  if isIdentifier name then name else Text.quoted name

end Ambient.TypeScript
