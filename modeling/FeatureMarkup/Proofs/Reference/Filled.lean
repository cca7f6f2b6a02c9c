import FeatureMarkup.Reference.Registry

/-! A reference system filled in where there is none.

A geometry or an envelope that has no reference system gets one, wherever it stands: in a
feature, in those inside it, and in the copies of features that a registry and its links hold.
Nothing else changes, so all that is done to a registry can be done before or after. -/
namespace FeatureMarkup

variable {κ : Type}

/-- The geometry with a reference system, its own if it has one. -/
def Geometry.fill (srs : Option String) (g : Geometry) : Geometry :=
  { g with srs := g.srs <|> srs }

/-- The envelope with a reference system, its own if it has one. -/
def Envelope.fill (srs : Option String) (e : Envelope) : Envelope :=
  { e with srs := e.srs <|> srs }

/-! ### Features -/

mutual

/-- The value with a reference system for every geometry and envelope in it that has none. -/
def Value.fill (srs : Option String) : Value κ → Value κ
  | .geometry geometry => .geometry (geometry.fill srs)
  | .envelope envelope => .envelope (envelope.fill srs)
  | .feature feature => .feature (feature.fill srs)
  | .text text => .text text
  | .code code => .code code
  | .measure measure => .measure measure
  | .link number => .link number
  | .tree tree => .tree tree
  | .custom value => .custom value

/-- The property with its value so filled in. -/
def Property.fill (srs : Option String) : Property κ → Property κ
  | ⟨declaration, name, value⟩ => ⟨declaration, name, value.fill srs⟩

/-- The properties with their values so filled in. -/
def Property.fillAll (srs : Option String) : List (Property κ) → List (Property κ)
  | [] => []
  | p :: rest => p.fill srs :: Property.fillAll srs rest

/-- The feature with the values of all properties so filled in. -/
def Feature.fill (srs : Option String) : Feature κ → Feature κ
  | ⟨id, type, properties⟩ => ⟨id, type, Property.fillAll srs properties⟩

end

section Feature
variable (srs : Option String)

theorem Property.fillAll_eq (properties : List (Property κ)) :
    Property.fillAll srs properties = properties.map (Property.fill srs) := by
  induction properties with
  | nil => rfl
  | cons p rest ih => rw [fillAll, ih, List.map_cons]

theorem Property.fill_eq (p : Property κ) :
    p.fill srs = ⟨p.declaration, p.name, p.value.fill srs⟩ := by
  cases p
  rfl

theorem Feature.fill_eq (f : Feature κ) :
    f.fill srs = ⟨f.id, f.type, f.properties.map (Property.fill srs)⟩ := by
  cases f
  rw [fill, Property.fillAll_eq]

@[simp] theorem Feature.fill_id (f : Feature κ) : (f.fill srs).id = f.id := by
  rw [fill_eq]

@[simp] theorem Value.link?_fill (value : Value κ) : (value.fill srs).link? = value.link? := by
  cases value <;> rfl

@[simp] theorem Feature.links_fill (f : Feature κ) : (f.fill srs).links = f.links := by
  rw [fill_eq, links, links, List.filterMap_map]
  congr 1
  funext p
  simp [Property.fill_eq]

end Feature

/-! ### Registries -/

/-- The slot with the feature in it filled in. -/
def Slot.fill (srs : Option String) : Slot κ → Slot κ
  | .unset => .unset
  | .bound feature => .bound (feature.fill srs)
  | .expired => .expired

/-- The link with its owner and its target filled in. -/
def Link.fill (srs : Option String) (l : Link κ) : Link κ :=
  { l with owner := l.owner.fill srs, target := l.target.fill srs }

/-- The registry with all features in it filled in. -/
def Registry.fill (srs : Option String) (r : Registry κ) : Registry κ :=
  ⟨r.features.map (Feature.fill srs), r.links.map (Link.fill srs), r.pending⟩

section Registry
variable (srs : Option String)

theorem Slot.fill_write (f : Feature κ) (slot : Slot κ) :
    (slot.fill srs).write (f.fill srs) = (slot.write f).fill srs := by
  cases slot <;> rfl

theorem Link.fill_bindOwner (f : Feature κ) (l : Link κ) :
    (l.fill srs).bindOwner (f.fill srs) = (l.bindOwner f).fill srs := by
  simp only [fill, bindOwner, Slot.fill_write]

theorem Link.fill_resolve (f : Feature κ) (l : Link κ) :
    (l.fill srs).resolve (f.fill srs) = (l.resolve f).fill srs := by
  simp only [fill, resolve, Slot.fill_write]

namespace Registry

@[simp] theorem feature?_fill (r : Registry κ) (id : String) :
    (r.fill srs).feature? id = (r.feature? id).map (Feature.fill srs) := by
  simp only [feature?, fill, List.find?_map, Function.comp_def, Feature.fill_id]

@[simp] theorem contains_fill (r : Registry κ) (id : String) :
    (r.fill srs).contains id = r.contains id := by
  simp [contains]

/-- A feature is registered or refused, filled in or not. -/
theorem register_fill (r : Registry κ) (f : Feature κ) :
    (r.fill srs).register (f.fill srs) = (r.register f).map (fill srs) := by
  unfold register
  rw [Feature.fill_id, contains_fill]
  split
  · rfl
  · split
    · rfl
    · simp [fill, Except.map]

theorem modifyLink_fill (r : Registry κ) (number : Nat) {change change' : Link κ → Link κ}
    (h : ∀ l, change' (l.fill srs) = (change l).fill srs) :
    (r.fill srs).modifyLink number change' = (r.modifyLink number change).fill srs := by
  simp only [modifyLink, fill, mk.injEq, true_and, and_true]
  refine List.ext_getElem? fun i => ?_
  simp only [List.getElem?_modify, List.getElem?_map]
  cases r.links[i]? with
  | none => split <;> rfl
  | some l =>
    split
    · exact congrArg some (h l)
    · rfl

theorem bindLinks_fill (r : Registry κ) (f : Feature κ) :
    (r.fill srs).bindLinks (f.fill srs) = (r.bindLinks f).fill srs := by
  unfold bindLinks
  rw [Feature.links_fill]
  induction f.links generalizing r with
  | nil => rfl
  | cons number rest ih =>
    rw [List.foldl_cons, List.foldl_cons, modifyLink_fill srs r number (Link.fill_bindOwner srs f), ih]

theorem refer_fill (r : Registry κ) (ownerId : String) (property : Name) (occurrence : Nat)
    (targetId : String) :
    (r.fill srs).refer ownerId property occurrence targetId =
      ((r.refer ownerId property occurrence targetId).1,
        (r.refer ownerId property occurrence targetId).2.fill srs) := by
  unfold refer
  rw [feature?_fill]
  cases r.feature? targetId <;> simp [fill, Link.fill, Link.unbound, Link.resolve, Slot.fill, Slot.write]

theorem settleAll_fill (r : Registry κ) (waiting : List PendingLink) :
    (r.fill srs).settleAll waiting =
      ((r.settleAll waiting).1.fill srs, (r.settleAll waiting).2) := by
  induction waiting generalizing r with
  | nil => rfl
  | cons w rest ih =>
    have hone : (r.fill srs).settleOne w = ((r.settleOne w).1.fill srs, (r.settleOne w).2) := by
      unfold settleOne
      rw [feature?_fill]
      cases r.feature? w.targetId with
      | none => rfl
      | some target =>
        simp only [Option.map_some, modifyLink_fill srs r w.number (Link.fill_resolve srs target)]
    simp only [settleAll, hone, ih]

theorem settle_fill (r : Registry κ) :
    (r.fill srs).settle = (r.settle.1.fill srs, r.settle.2) :=
  settleAll_fill srs { r with pending := [] } r.pending

end Registry

end Registry

end FeatureMarkup
