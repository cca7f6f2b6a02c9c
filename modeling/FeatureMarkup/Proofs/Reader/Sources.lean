import FeatureMarkup.Proofs.Feature.Nesting
import FeatureMarkup.Proofs.Pointwise
import FeatureMarkup.Proofs.Reader.Extent
import FeatureMarkup.Proofs.Schema.Arrangement

/-! The elements that the features inside a feature come from.

The properties of a feature are read one after another from the elements inside its own. Where
a feature stands inside a property it comes from an element there, so what holds of a feature and
its element, whenever the features inside are so, holds of all of them with theirs. -/
namespace FeatureMarkup

variable {κ : Type} {r : FeatureReader κ}

/-- Properties are read from elements, one from each, which are accepted one after another. -/
theorem properties_of_along {V : Declaration → List MarkupNode → Value κ → Prop} {type : FeatureType}
    {p p' : Partway κ} {nodes : List MarkupNode} (h : Along (PropertyRead r V type) p nodes p') :
    ∃ trees properties, nodes = trees.map MarkupNode.element ∧
      p'.properties.reverse = p.properties.reverse ++ properties ∧
      List.Forall₂ (fun property tree => property.name = tree.name ∧
        V property.declaration tree.children property.value) properties trees ∧
      Accepts r.schema type.properties p.progress
        (properties.map fun q => (q.name, q.declaration)) p'.progress := by
  induction h with
  | nil => exact ⟨[], [], rfl, by simp, .nil, .nil⟩
  | cons hstep _ ih =>
    obtain ⟨d, progress, value, haccept, hvalue, rfl⟩ := hstep
    obtain ⟨trees, properties, rfl, hproperties, hforall, haccepts⟩ := ih
    exact ⟨_ :: trees, ⟨d, _, value⟩ :: properties, rfl, by simpa using hproperties,
      .cons ⟨rfl, hvalue⟩ hforall, .cons haccept haccepts⟩

theorem childElements_elements (name : Name) (attributes : List Xml.Attribute)
    (trees : List MarkupTree) :
    MarkupTree.childElements ⟨name, attributes, trees.map .element⟩ = trees := by
  simp [MarkupTree.childElements, List.filterMap_map]

theorem ValueFrom.mono {F G : MarkupTree → Feature κ → Prop} (hFG : ∀ tree f, F tree f → G tree f)
    {category : Category} {children : List MarkupNode} {value : Value κ}
    (h : ValueFrom r F category children value) : ValueFrom r G category children value := by
  cases category with
  | feature expected =>
    refine Or.imp_right ?_ h
    intro hgiven
    obtain ⟨tree, more, hchildren, f, hf, hderives, hF⟩ := hgiven
    exact ⟨tree, more, hchildren, f, hf, hderives, hFG tree f hF⟩
  | simple | code | measure | geometry | envelope | complex => exact h

/-! ### The features inside -/

/-- Some features with the elements they come from, which are all of these, each standing in a
relation to its element. -/
def SourcedBy (P : MarkupTree → Feature κ → Prop) (sources : List (MarkupTree × Feature κ))
    (features : List (Feature κ)) : Prop :=
  sources.map (·.2) = features ∧ ∀ tree f, (tree, f) ∈ sources → P tree f

namespace SourcedBy
variable {P : MarkupTree → Feature κ → Prop} {sources sources' : List (MarkupTree × Feature κ)}
  {features features' : List (Feature κ)}

theorem nil : SourcedBy P [] [] := ⟨rfl, nofun⟩

theorem append (h : SourcedBy P sources features) (h' : SourcedBy P sources' features') :
    SourcedBy P (sources ++ sources') (features ++ features') := by
  refine ⟨by rw [List.map_append, h.1, h'.1], fun tree f hmem => ?_⟩
  rcases List.mem_append.1 hmem with hmem | hmem
  · exact h.2 tree f hmem
  · exact h'.2 tree f hmem

/-- The features inside a value come from what is inside the element of its property. Of that
something may be known, as long as it is known of what is inside it too. -/
theorem value {C : List MarkupNode → Prop}
    (hC : ∀ tree more, C (.element tree :: more) → C tree.children ∧ C more)
    {category : Category} {tree : MarkupTree} {value : Value κ}
    (h : ValueFrom r (fun tree f => C tree.children → SourcedBy P (f.sources tree) f.features) category
      tree.children value) (htree : C tree.children) :
    SourcedBy P (value.sources tree.childElements) value.features := by
  cases category with
  | feature expected =>
    rcases h with ⟨number, rfl⟩ | ⟨inner, more, hchildren, f, rfl, -, hsourced⟩
    · exact .nil
    · obtain ⟨others, helements⟩ : ∃ others, tree.childElements = inner :: others :=
        ⟨_, by rw [MarkupTree.childElements, hchildren]; rfl⟩
      rw [helements]
      exact hsourced (hC inner more (hchildren ▸ htree)).1
  | simple | code | measure | geometry | envelope | complex =>
    obtain ⟨a, rfl⟩ := h
    exact .nil

theorem properties {C : List MarkupNode → Prop}
    (hC : ∀ tree more, C (.element tree :: more) → C tree.children ∧ C more)
    {properties : List (Property κ)} {trees : List MarkupTree}
    (h : List.Forall₂ (fun property tree =>
      ValueFrom r (fun tree f => C tree.children → SourcedBy P (f.sources tree) f.features)
        property.declaration.category tree.children property.value) properties trees)
    (htrees : C (trees.map .element)) :
    SourcedBy P (Property.allSources properties trees) (Property.allFeatures properties) := by
  induction h with
  | nil => exact .nil
  | @cons p tree rest trees hp _ ih =>
    obtain ⟨htree, hrest⟩ := hC tree _ htrees
    rw [Property.allSources, Property.allFeatures, p.sources_eq, p.features_eq]
    exact (value hC hp htree).append (ih hrest)

/-- A feature comes behind those inside it. -/
theorem feature {name : Name} {attributes : List Xml.Attribute} {trees : List MarkupTree}
    {id : String} {type : FeatureType} {properties : List (Property κ)}
    (h : SourcedBy P (Property.allSources properties trees) (Property.allFeatures properties))
    (hself : P ⟨name, attributes, trees.map .element⟩ ⟨id, type, properties⟩) :
    SourcedBy P (Feature.sources ⟨id, type, properties⟩ ⟨name, attributes, trees.map .element⟩)
      (Feature.features ⟨id, type, properties⟩) := by
  rw [Feature.sources, Feature.features, childElements_elements]
  refine h.append ⟨rfl, fun tree f hmem => ?_⟩
  obtain ⟨rfl, rfl⟩ := Prod.mk.inj (List.mem_singleton.1 hmem)
  exact hself

end SourcedBy

namespace FeatureReader

/-- The element that a feature has been read from, with what a relation carried to it says. -/
theorem exists_source {srs : Option String} {s s' : Session κ} {f : Feature κ}
    {F : MarkupTree → Feature κ → Prop} (h : r.readFeature srs s = .ok f s')
    (hcarries : ∀ name attributes, Carries (· = .startElement name attributes) (r.readFeature srs)
      (ToEnd fun children => F ⟨name, attributes, children⟩)) :
    ∃ name attributes inside children offset name',
      s.cursor.event = .startElement name attributes ∧
      s.cursor.readings = inside ++ ⟨offset, .ok (.stop name')⟩ :: s'.cursor.readings ∧
      Spells inside children ∧ F ⟨name, attributes, children⟩ f := by
  obtain ⟨⟨name, attributes, hs⟩, name', hs'⟩ := featureWithin_ends h
  rcases hcarries name attributes hs h with
    hlost | ⟨taken, htakes, inside, children, offset, name₁, hi, rfl, he, hF⟩
  · rw [hs'] at hlost
    cases hlost
  · have hleft := htakes.left
    rw [List.append_assoc, List.singleton_append] at hleft
    exact ⟨name, attributes, inside, children, offset, name₁, hs, hleft, hi, hF⟩

end FeatureReader

end FeatureMarkup
