import FeatureMarkup.Proofs.Cursor.Element
import FeatureMarkup.Proofs.Schema.Arrangement
import FeatureMarkup.Reader.Feature

/-! Features before they are written.

A draft is a feature with the ids that its references ask for in place of links. `Conforms`
says that a schema has room for it, and `Written` which readings spell it, with blank text
and what is ignored wherever there is room between tags. `feature` is what it becomes when it
is read with so many links before it. -/
namespace FeatureMarkup

open Xml (Attribute Reading)

mutual

/-- The value of a property of a draft. -/
inductive DraftValue where
  | text (text : String)
  | code (code : Code)
  | tree (tree : MarkupTree)
  | feature (draft : Draft)
  | reference (targetId : String)

/-- A property of a draft. -/
structure DraftProperty where
  declaration : Declaration
  name : Name
  value : DraftValue

/-- A feature to be written. -/
structure Draft where
  id : String
  type : FeatureType
  properties : List DraftProperty

end

/-! ### What it becomes -/

mutual

/-- The ids in a draft, in the order in which the features are complete. -/
def Draft.ids : Draft → List String
  | ⟨id, _, properties⟩ => DraftProperty.allIds properties ++ if id = "" then [] else [id]

/-- The ids in some properties. -/
def DraftProperty.allIds : List DraftProperty → List String
  | [] => []
  | ⟨_, _, value⟩ :: rest => value.ids ++ DraftProperty.allIds rest

/-- The ids in a value. -/
def DraftValue.ids : DraftValue → List String
  | .feature draft => draft.ids
  | _ => []

end

mutual

/-- The ids that the references in a draft ask for, in document order. -/
def Draft.targets : Draft → List String
  | ⟨_, _, properties⟩ => DraftProperty.allTargets properties

/-- The ids asked for in some properties. -/
def DraftProperty.allTargets : List DraftProperty → List String
  | [] => []
  | ⟨_, _, value⟩ :: rest => value.targets ++ DraftProperty.allTargets rest

/-- The ids asked for in a value. -/
def DraftValue.targets : DraftValue → List String
  | .feature draft => draft.targets
  | .reference targetId => [targetId]
  | _ => []

end

section Feature
variable {κ : Type}

mutual

/-- The feature that a draft becomes, its links numbered from `next` on. -/
def Draft.feature (next : Nat) : Draft → Feature κ
  | ⟨id, type, properties⟩ => ⟨id, type, DraftProperty.allProperties next properties⟩

/-- The properties that some of a draft become. -/
def DraftProperty.allProperties (next : Nat) : List DraftProperty → List (Property κ)
  | [] => []
  | ⟨d, name, value⟩ :: rest =>
    ⟨d, name, value.value next⟩ :: DraftProperty.allProperties (next + value.targets.length) rest

/-- The value that one of a draft becomes. -/
def DraftValue.value (next : Nat) : DraftValue → Value κ
  | .text text => .text text
  | .code code => .code code
  | .tree tree => .tree tree
  | .feature draft => .feature (draft.feature next)
  | .reference _ => .link next

end

end Feature

/-! ### What it must be like -/

mutual

/-- Whether a draft is a feature of a schema: of a concrete type, with an id that may be
one, and with properties arranged under the declarations of its type. -/
def Draft.Conforms (s : Schema) : Draft → Prop
  | ⟨id, type, properties⟩ =>
    isFeatureId id = true ∧ s.featureType? type.name = some type ∧ type.isAbstract = false ∧
      Arranged s type.properties (properties.map fun p => (p.name, p.declaration)) ∧
      DraftProperty.AllConform s properties

/-- Whether the values of some properties are of the kinds that are asked for. -/
def DraftProperty.AllConform (s : Schema) : List DraftProperty → Prop
  | [] => True
  | ⟨d, name, value⟩ :: rest => value.Conforms s d.category name ∧ DraftProperty.AllConform s rest

/-- Whether a value is of the kind that a category asks for, in a property with a name. -/
def DraftValue.Conforms (s : Schema) (category : Category) (name : Name) : DraftValue → Prop
  | .text _ => category = .simple
  | .code _ => category = .code
  | .tree tree => category = .complex ∧ tree.name = name
  | .feature draft =>
    (∃ expected, category = .feature expected ∧
      ∀ type, expected = some type → s.derives type draft.type.name = true) ∧ draft.Conforms s
  | .reference _ => ∃ expected, category = .feature expected

end

theorem Draft.Conforms.featureType?_eq {s : Schema} {draft : Draft} (h : draft.Conforms s) :
    s.featureType? draft.type.name = some draft.type := by
  cases draft
  exact h.2.1

/-! ### How it is written -/

mutual

/-- Whether a draft is written as an element with these attributes and this inside it. -/
def Draft.Written (attributes : List Attribute) (inside : List Reading) : Draft → Prop
  | ⟨id, _, properties⟩ => featureId attributes = id ∧ DraftProperty.AllWritten inside properties

/-- Whether some properties are written one after another, with nothing but blank text
around them. -/
def DraftProperty.AllWritten (readings : List Reading) : List DraftProperty → Prop
  | [] => Spells readings []
  | ⟨_, name, value⟩ :: rest =>
    ∃ before offset attributes inside offset' name' more, Spells before [] ∧
      value.Written attributes inside ∧ DraftProperty.AllWritten more rest ∧
      readings = before ++ ⟨offset, .ok (.start name attributes)⟩ :: inside ++
        ⟨offset', .ok (.stop name')⟩ :: more

/-- Whether a value is written in the element of a property, with these attributes and this
inside it. -/
def DraftValue.Written (attributes : List Attribute) (inside : List Reading) : DraftValue → Prop
  | .text text => ∃ joined, SpellsText inside joined ∧ Text.trim joined = text
  | .code code =>
    Attribute.find? attributes none "codeSpace" = code.space ∧
      ∃ joined, SpellsText inside joined ∧ Text.trim joined = code.code
  | .tree tree => tree.attributes = attributes ∧ Spells inside tree.children
  | .feature draft =>
    Attribute.find? attributes (some Space.xlink) "href" = none ∧
      ∃ before offset attributes' inside' offset' name' after, Spells before [] ∧
        draft.Written attributes' inside' ∧ Spells after [] ∧
        inside = before ++ ⟨offset, .ok (.start draft.type.name attributes')⟩ :: inside' ++
          ⟨offset', .ok (.stop name')⟩ :: after
  | .reference targetId =>
    Attribute.find? attributes (some Space.xlink) "href" = some ("#" ++ targetId) ∧
      ∃ children, Spells inside children

end

/-! ### One way to write it -/

/-- The attributes that give a feature its id. -/
def Draft.attributes (draft : Draft) : List Attribute :=
  if draft.id = "" then [] else [⟨.qualified Space.gml32 "id", draft.id⟩]

/-- The attributes of a property with a value. -/
def DraftValue.attributes : DraftValue → List Attribute
  | .code ⟨_, some space⟩ => [⟨.unqualified "codeSpace", space⟩]
  | .tree markup => markup.attributes
  | .reference targetId => [⟨.qualified Space.xlink "href", "#" ++ targetId⟩]
  | _ => []

mutual

/-- What is inside the element of a draft. -/
def Draft.write : Draft → List Reading
  | ⟨_, _, properties⟩ => DraftProperty.writeAll properties

/-- The elements of some properties. -/
def DraftProperty.writeAll : List DraftProperty → List Reading
  | [] => []
  | ⟨_, name, value⟩ :: rest =>
    ⟨0, .ok (.start name value.attributes)⟩ :: value.write ++
      ⟨0, .ok (.stop name)⟩ :: DraftProperty.writeAll rest

/-- What is inside the element of a property with a value. -/
def DraftValue.write : DraftValue → List Reading
  | .text text => [⟨0, .ok (.text text)⟩]
  | .code code => [⟨0, .ok (.text code.code)⟩]
  | .tree tree => MarkupNode.readingsOf tree.children
  | .feature draft =>
    ⟨0, .ok (.start draft.type.name draft.attributes)⟩ :: draft.write ++
      [⟨0, .ok (.stop draft.type.name)⟩]
  | .reference _ => []

end

mutual

/-- Whether nothing is lost when a draft is written: its texts are trimmed, and its markup
has no blank text. -/
def Draft.Kept : Draft → Prop
  | ⟨_, _, properties⟩ => DraftProperty.AllKept properties

/-- Whether nothing is lost when some properties are written. -/
def DraftProperty.AllKept : List DraftProperty → Prop
  | [] => True
  | ⟨_, _, value⟩ :: rest => value.Kept ∧ DraftProperty.AllKept rest

/-- Whether nothing is lost when a value is written. -/
def DraftValue.Kept : DraftValue → Prop
  | .text text => Text.trim text = text
  | .code code => Text.trim code.code = code.code
  | .tree tree => tree.Kept
  | .feature draft => draft.Kept
  | .reference _ => True

end

theorem Draft.featureId_attributes (draft : Draft) : featureId draft.attributes = draft.id := by
  unfold attributes
  split
  next hid => exact hid.symm
  next => rfl

theorem spellsText_single (text : String) : SpellsText [⟨0, .ok (.text text)⟩] text := by
  have h : SpellsText [⟨0, .ok (.text text)⟩] (text ++ "") := .text .nil
  rwa [String.append_empty] at h

mutual

/-- A draft that loses nothing can be written. -/
theorem Draft.written_write : ∀ {draft : Draft}, draft.Kept →
    draft.Written draft.attributes draft.write
  | ⟨_, _, _⟩, h => ⟨Draft.featureId_attributes _, DraftProperty.written_writeAll h⟩

theorem DraftProperty.written_writeAll : ∀ {properties : List DraftProperty},
    DraftProperty.AllKept properties →
      DraftProperty.AllWritten (DraftProperty.writeAll properties) properties
  | [], _ => .nil
  | ⟨_, name, value⟩ :: _, h =>
    ⟨[], 0, value.attributes, value.write, 0, name, _, .nil, DraftValue.written_write h.1,
      DraftProperty.written_writeAll h.2, rfl⟩

theorem DraftValue.written_write : ∀ {value : DraftValue}, value.Kept →
    value.Written value.attributes value.write
  | .text text, h => ⟨text, spellsText_single text, h⟩
  | .code ⟨code, none⟩, h => ⟨rfl, code, spellsText_single code, h⟩
  | .code ⟨code, some _⟩, h => ⟨rfl, code, spellsText_single code, h⟩
  | .tree ⟨_, _, _⟩, h => ⟨rfl, MarkupNode.spells_readingsOf h⟩
  | .feature draft, h =>
    ⟨rfl, [], 0, draft.attributes, draft.write, 0, draft.type.name, [], .nil, Draft.written_write h,
      .nil, rfl⟩
  | .reference _, _ => ⟨rfl, [], .nil⟩

end

end FeatureMarkup
