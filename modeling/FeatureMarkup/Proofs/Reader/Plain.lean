import FeatureMarkup.Proofs.Geometry.Plain
import FeatureMarkup.Reader.Feature

/-! What the reader of features itself can fail for.

What is wrong with a number or with a geometry is found only in the value of a property, and an
id that is registered already only at the end of a feature. All that the reader does around
values is plain and fails for other causes. -/
namespace FeatureMarkup

/-- Whether a cause is found only in what a number or a geometry is written as. -/
def Cause.isLeaf : Cause → Bool
  | .malformedNumber _ | .geometry _ | .unsupportedGeometry _ => true
  | _ => false

/-- Whether a cause is an id that is registered already. -/
def Cause.isRepeat : Cause → Bool
  | .duplicateFeatureId _ => true
  | _ => false

/-- A reading that fails for nothing that is wrong with a number or a geometry. -/
abbrev LeafFree {α : Type} (m : CursorM α) : Prop := Plain (fun cause => cause.isLeaf = false) m

variable {κ : Type}

theorem Violation.isLeaf_cause (v : Violation) (element : Name) (type : FeatureType) :
    (v.cause element type).isLeaf = false := by
  cases v <;> rfl

theorem Violation.isRepeat_cause (v : Violation) (element : Name) (type : FeatureType) :
    (v.cause element type).isRepeat = false := by
  cases v <;> rfl

section Plain
variable {P : Cause → Prop}
  (hP : ∀ cause : Cause, cause.isLeaf = false → cause.isRepeat = false → P cause)
include hP

namespace Cursor

theorem plain_skipToEnd (property : Name) : Plain P (skipToEnd property) := by
  have hmarkup (problem : MarkupProblem) : P (.markup problem) := hP _ rfl rfl
  refine .bind (plain_foldChildren hmarkup
    (fun _ _ _ => .bind (.note _ _) fun _ => plain_skipElement hmarkup) _) fun read => ?_
  dsimp only
  split
  · exact .pure _
  · exact .fail (hmarkup _)

end Cursor

namespace FeatureReader
variable (r : FeatureReader κ)

theorem plain_beginFeature : Plain P r.beginFeature := by
  refine .get (fun c => ?_) fun _ => rfl
  split
  · refine .guard (hP _ rfl rfl) ?_
    split
    · exact .fail (hP _ rfl rfl)
    · exact .guard (hP _ rfl rfl)
        (.get (fun _ => .bind (.note _ _) fun _ => .pure _) fun _ => rfl)
  · exact .fail (hP _ rfl rfl)

theorem plain_acceptProperty (type : FeatureType) (progress : Progress) (element : Name) :
    Plain P (r.acceptProperty type progress element) := by
  unfold acceptProperty
  refine .bind (.notes _) fun _ => ?_
  split
  · exact .pure _
  · exact .fail (hP _ (Violation.isLeaf_cause _ _ _) (Violation.isRepeat_cause _ _ _))

theorem plain_enterFeature (property : Name) (expected : Option Name) :
    Plain P (r.enterFeature property expected) := by
  refine .get (fun c => .bind (Cursor.plain_nextTag fun _ => hP _ rfl rfl) fun tag => ?_) fun _ => rfl
  split
  · refine .guard (hP _ rfl rfl) ?_
    split
    · exact .pure _
    · exact .ite (.fail (hP _ rfl rfl)) (.pure _)
  · exact .throw (hP _ rfl rfl)

end FeatureReader

end Plain

/-! ### Nothing wrong with a number or a geometry -/

namespace Cursor

theorem leafFree_nextTag : LeafFree nextTag := plain_nextTag fun _ => rfl

theorem leafFree_elementText : LeafFree elementText := plain_elementText fun _ => rfl

theorem leafFree_skipElement : LeafFree skipElement := plain_skipElement fun _ => rfl

theorem leafFree_captureElement : LeafFree captureElement := plain_captureElement fun _ => rfl

theorem leafFree_skipToEnd (property : Name) : LeafFree (skipToEnd property) :=
  plain_skipToEnd (fun _ hleaf _ => hleaf) property

end Cursor

namespace FeatureReader
variable (r : FeatureReader κ)

theorem leafFree_beginFeature : LeafFree r.beginFeature :=
  r.plain_beginFeature fun _ hleaf _ => hleaf

theorem leafFree_acceptProperty (type : FeatureType) (progress : Progress) (element : Name) :
    LeafFree (r.acceptProperty type progress element) :=
  r.plain_acceptProperty (fun _ hleaf _ => hleaf) type progress element

theorem leafFree_enterFeature (property : Name) (expected : Option Name) :
    LeafFree (r.enterFeature property expected) :=
  r.plain_enterFeature (fun _ hleaf _ => hleaf) property expected

end FeatureReader

end FeatureMarkup
