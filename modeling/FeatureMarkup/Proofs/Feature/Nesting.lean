import FeatureMarkup.Feature.Basic

/-! Features inside features.

`features` lists a feature and all that are inside it, each behind those inside it, which
is the order in which they are complete. `sources` lists the same features, each with the
element it comes from when the outermost one comes from a given element: an inline feature
comes from the first element inside that of its property. -/
namespace FeatureMarkup

variable {κ : Type}

mutual

/-- A feature and all inside it, the inner ones first. -/
def Feature.features : Feature κ → List (Feature κ)
  | ⟨id, type, properties⟩ => Property.allFeatures properties ++ [⟨id, type, properties⟩]

/-- The features inside some properties. -/
def Property.allFeatures : List (Property κ) → List (Feature κ)
  | [] => []
  | p :: rest => p.features ++ Property.allFeatures rest

/-- The features inside a property. -/
def Property.features : Property κ → List (Feature κ)
  | ⟨_, _, value⟩ => value.features

/-- The features inside a value. -/
def Value.features : Value κ → List (Feature κ)
  | .feature f => f.features
  | _ => []

end

mutual

/-- The features of `Feature.features`, with the elements they come from. -/
def Feature.sources : Feature κ → MarkupTree → List (MarkupTree × Feature κ)
  | ⟨id, type, properties⟩, tree =>
    Property.allSources properties tree.childElements ++ [(tree, ⟨id, type, properties⟩)]

/-- The features inside some properties, which come from these elements. -/
def Property.allSources : List (Property κ) → List MarkupTree → List (MarkupTree × Feature κ)
  | p :: rest, tree :: trees => p.sources tree ++ Property.allSources rest trees
  | _, _ => []

/-- The features inside a property. -/
def Property.sources : Property κ → MarkupTree → List (MarkupTree × Feature κ)
  | ⟨_, _, value⟩, tree => value.sources tree.childElements

/-- The features inside a value, which comes from these elements. -/
def Value.sources : Value κ → List MarkupTree → List (MarkupTree × Feature κ)
  | .feature f, tree :: _ => f.sources tree
  | _, _ => []

end

theorem Feature.features_eq (f : Feature κ) :
    f.features = Property.allFeatures f.properties ++ [f] := by
  cases f
  rfl

theorem Property.features_eq (p : Property κ) : p.features = p.value.features := by
  cases p
  rfl

/-- The features inside some properties are those inside each of them. -/
theorem Property.mem_allFeatures {g : Feature κ} {properties : List (Property κ)} :
    g ∈ allFeatures properties ↔ ∃ p ∈ properties, g ∈ p.features := by
  induction properties with
  | nil => simp [allFeatures]
  | cons p rest ih => simp [allFeatures, ih]

theorem Property.sources_eq (p : Property κ) (tree : MarkupTree) :
    p.sources tree = p.value.sources tree.childElements := by
  cases p
  rfl

end FeatureMarkup
