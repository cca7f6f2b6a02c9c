import FeatureMarkup.Cursor.Reading

/-! Markup kept as it is: an element with its attributes and all that it contains.

Blank text is not kept. `Cursor.captureElement` reads an element into a tree, in as
many rounds as there are readings left: each round takes one, whether it goes down
into a child or on to the next sibling. -/
namespace FeatureMarkup

open Xml (Attribute)

mutual

/-- An element with what it contains. -/
structure MarkupTree where
  name : Name
  attributes : List Attribute
  children : List MarkupNode

/-- A child of an element. -/
inductive MarkupNode where
  | element (tree : MarkupTree)
  | text (text : String)

end

namespace MarkupTree

/-- The value of the first attribute with a name. -/
def attribute? (t : MarkupTree) (name : Name) : Option String :=
  (t.attributes.find? (·.name = name)).map (·.value)

/-- The children that are elements. -/
def childElements (t : MarkupTree) : List MarkupTree :=
  t.children.filterMap fun
    | .element tree => some tree
    | .text _ => none

end MarkupTree

mutual

/-- All text of an element and of those inside it, in document order. -/
def MarkupTree.text : MarkupTree → String
  | ⟨_, _, children⟩ => MarkupNode.joinText children

/-- All text of a node. -/
def MarkupNode.allText : MarkupNode → String
  | .element tree => tree.text
  | .text text => text

/-- All text of a run of nodes. -/
def MarkupNode.joinText : List MarkupNode → String
  | [] => ""
  | node :: rest => node.allText ++ MarkupNode.joinText rest

end

namespace Cursor

/-- The nodes up to the end of the element, after those read already, the latest
first, in so many rounds at most. -/
def nodesWithin : Nat → List MarkupNode → CursorM (List MarkupNode)
  | 0, _ => failMarkup .endOfDocument
  | rounds + 1, nodes => do
    match ← advance with
    | .startElement name attributes =>
      let children ← nodesWithin rounds []
      nodesWithin rounds (.element ⟨name, attributes, children⟩ :: nodes)
    | .characters text =>
      if Text.allBlank text then nodesWithin rounds nodes
      else nodesWithin rounds (.text text :: nodes)
    | .endElement _ => return nodes.reverse
    | .endDocument | .startDocument => failMarkup .endOfDocument

/-- The element the cursor is at the start of, as a tree. The cursor comes to its
end. -/
def captureElement : CursorM MarkupTree := do
  match (← get).event with
  | .startElement name attributes =>
    return ⟨name, attributes, ← nodesWithin ((← get).remaining + 1) []⟩
  | _ => failMarkup .noElement

end Cursor

end FeatureMarkup
