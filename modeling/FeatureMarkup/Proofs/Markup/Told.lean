import FeatureMarkup.Cursor.Reading

/-! Readings that carry the same data.

What a comment stands between is the same without it, and so is text that comes in other runs:
`SameData` is all that these two make of readings. They do not show in what readings tell up
to the first fault, `Told`, which is the tags in order with the whole text before each. Both
sides of the relation are told alike, `SameData.told_eq`. -/
namespace FeatureMarkup

open Xml (Attribute Content Reading)

/-- Readings that differ only in what is ignored, in the runs that text comes in, in offsets
and in what the faults say. -/
inductive SameData : List Reading → List Reading → Prop where
  | nil : SameData [] []
  | cons {offset offset' content rest rest'} : SameData rest rest' →
      SameData (⟨offset, .ok content⟩ :: rest) (⟨offset', .ok content⟩ :: rest')
  | fault {offset offset' fault fault' rest rest'} : SameData rest rest' →
      SameData (⟨offset, .error fault⟩ :: rest) (⟨offset', .error fault'⟩ :: rest')
  | ignored {offset rest} : SameData (⟨offset, .ok .ignored⟩ :: rest) rest
  | empty {offset rest} : SameData (⟨offset, .ok (.text "")⟩ :: rest) rest
  | split {offset offset' offset'' text more rest} :
      SameData (⟨offset, .ok (.text (text ++ more))⟩ :: rest)
        (⟨offset', .ok (.text text)⟩ :: ⟨offset'', .ok (.text more)⟩ :: rest)
  | symm {rs rs'} : SameData rs rs' → SameData rs' rs
  | trans {rs rs' rs''} : SameData rs rs' → SameData rs' rs'' → SameData rs rs''

/-- What readings tell: the text before the next tag, the tag, and what is told behind it, as
far as there is no fault. -/
inductive Told where
  | finish (text : String)
  | fault (text : String)
  | start (text : String) (name : Name) (attributes : List Attribute) (behind : Told)
  | stop (text : String) (name : Name) (behind : Told)

namespace Told

/-- The same behind more text. -/
def after (more : String) : Told → Told
  | .finish text => .finish (more ++ text)
  | .fault text => .fault (more ++ text)
  | .start text name attributes behind => .start (more ++ text) name attributes behind
  | .stop text name behind => .stop (more ++ text) name behind

@[simp] theorem after_empty (t : Told) : t.after "" = t := by
  cases t <;> simp [after]

theorem after_append (text more : String) (t : Told) :
    t.after (text ++ more) = (t.after more).after text := by
  cases t <;> simp [after, String.append_assoc]

end Told

/-- What readings tell. -/
def told : List Reading → Told
  | [] => .finish ""
  | ⟨_, .error _⟩ :: _ => .fault ""
  | ⟨_, .ok .ignored⟩ :: rest => told rest
  | ⟨_, .ok (.text text)⟩ :: rest => (told rest).after text
  | ⟨_, .ok (.start name attributes)⟩ :: rest => .start "" name attributes (told rest)
  | ⟨_, .ok (.stop name)⟩ :: rest => .stop "" name (told rest)

theorem SameData.told_eq {rs rs' : List Reading} (h : SameData rs rs') : told rs = told rs' := by
  induction h with
  | nil | fault | ignored => rfl
  | @cons _ _ content _ _ _ ih => cases content <;> simp only [told, ih]
  | empty => exact Told.after_empty _
  | split => exact Told.after_append _ _ _
  | symm _ ih => exact ih.symm
  | trans _ _ ih ih' => exact ih.trans ih'

namespace Told

/-! ### What stands next -/

/-- The next tag, over blank text only, and what is told behind it. -/
def tag? : Told → Option (Tag × Told)
  | .finish text => if Text.allBlank text then some (.finish, .finish "") else none
  | .fault _ => none
  | .start text name attributes behind =>
    if Text.allBlank text then some (.start name attributes, behind) else none
  | .stop text name behind => if Text.allBlank text then some (.stop name, behind) else none

theorem tag?_after (text : String) (t : Told) :
    (t.after text).tag? = if Text.allBlank text then t.tag? else none := by
  cases hblank : Text.allBlank text <;>
    cases t <;> simp [after, tag?, Text.allBlank_append, hblank]

/-- The text up to the end of the element that is open, if no other tag comes before it. -/
def text? : Told → Option (String × Name × Told)
  | .stop text name behind => some (text, name, behind)
  | _ => none

theorem text?_after (text : String) (t : Told) :
    (t.after text).text? = t.text?.map fun (more, name, behind) => (text ++ more, name, behind) := by
  cases t <;> rfl

/-- The last end of the elements that are open when there are so many more than one, and what
is told behind it. -/
def past? : Nat → Told → Option (Name × Told)
  | depth, .start _ _ _ behind => past? (depth + 1) behind
  | 0, .stop _ name behind => some (name, behind)
  | depth + 1, .stop _ _ behind => past? depth behind
  | _, .finish _ | _, .fault _ => none

theorem past?_after (depth : Nat) (text : String) (t : Told) :
    (t.after text).past? depth = t.past? depth := by
  cases depth <;> cases t <;> rfl

end Told

end FeatureMarkup
