import Ambient.TypeScript.Declaration

/-!
# Documents

A document is a tree of namespaces with declarations in them. Every namespace is
closed in the text, whatever it holds; comments and blank lines stand where they
are put.
-/

namespace Ambient.TypeScript

open Code (Builder Fragment)

inductive Item where
  | blank
  | comment (lines : List String)
  | alias (a : Alias)
  | interface (i : Interface)
  | namespace (keyword name : String) (body : List Item)
  deriving Inhabited, Repr

abbrev Document := List Item

mutual

def Item.fragments : Item → List Fragment
  | .blank => [.blank]
  | .comment lines => [.doc lines]
  | .alias a => a.fragments
  | .interface i => i.fragments
  | .namespace keyword name body =>
    [.block (keyword ++ " " ++ name ++ " \x7b") (documentFragments body) (some "\x7d")]

def documentFragments : List Item → List Fragment
  | [] => []
  | item :: items => item.fragments ++ documentFragments items

end

namespace Document

/-- Writes a document with a builder, at the depth of the builder. -/
def writeTo (document : Document) (builder : Builder) : Builder :=
  builder.applyAll (documentFragments document)

def text (document : Document) : String :=
  (document.writeTo {}).text

end Document

end Ambient.TypeScript
