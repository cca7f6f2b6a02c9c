import FeatureMarkup.Proofs.Geometry.Defaults
import FeatureMarkup.Proofs.Reader.Derivation
import FeatureMarkup.Proofs.Reader.Plain

/-! What the reference system that is assumed does to a document.

A reading with a system assumed is set beside the reading of the same input with none. The two take
the same steps and fail together, and what they have read so far, properties and registry, differs
by `fill` alone: one lemma for each step, and `lockstep_readDocument` is the whole run. -/
namespace FeatureMarkup

open Xml (Attribute)

variable {κ : Type}

/-- The properties read so far, filled in. -/
def Partway.fill (given : Option String) (p : Partway κ) : Partway κ :=
  ⟨p.progress, p.properties.map (Property.fill given)⟩

/-- The document with all features in it and in its registry filled in. -/
def Document.fill (given : Option String) (d : Document κ) : Document κ :=
  ⟨d.root.fill given, d.registry.fill given, d.dangling⟩

/-- Two sessions apart from what has been reported, with the registry of the one that of the
other filled in. -/
def Session.FilledFrom (given : Option String) (s s' : Session κ) : Prop :=
  s.cursor.SameButLog s'.cursor ∧ s.registry = s'.registry.fill given

/-! ### Steps of a session -/

namespace Session
variable {given : Option String} {α α' : Type} {V : α → α' → Prop}

theorem lockstep_lift {m : CursorM α} {m' : CursorM α'} (h : Lockstep Cursor.SameButLog V m m') :
    Lockstep (FilledFrom given) V (liftM m : SessionM κ α) (liftM m' : SessionM κ α') := by
  intro s s' hs
  have hstep := h hs.1
  show InStep _ _ (onCursor m s) (onCursor m' s')
  unfold onCursor
  cases hm : m s.cursor <;> cases hm' : m' s'.cursor <;> rw [hm, hm'] at hstep
  · exact ⟨hstep.1, hstep.2, hs.2⟩
  · exact hstep.elim
  · exact hstep.elim
  · exact hstep

/-- A plain reading comes to the same in both sessions. -/
theorem lockstep_plain {P : Cause → Prop} {m : CursorM α} (hm : Plain P m) :
    Lockstep (FilledFrom given) Eq (liftM m : SessionM κ α) (liftM m : SessionM κ α) :=
  lockstep_lift hm.lockstep

theorem lockstep_notes (entries entries' : List Note) :
    Lockstep (FilledFrom given) Eq (notes entries : SessionM κ Unit) (notes entries') :=
  lockstep_lift (.notes entries entries')

theorem lockstep_fail (cause : Cause) :
    Lockstep (FilledFrom given) V (fail cause : SessionM κ α) (fail cause : SessionM κ α') :=
  lockstep_lift (.fail cause)

theorem lockstep_position :
    Lockstep (FilledFrom given) Eq (position : SessionM κ Position) position := by
  refine .get fun s s' hs => .pure ?_
  rw [hs.1.eq_with]
  rfl

theorem lockstep_bindLinks (f : Feature κ) :
    Lockstep (FilledFrom given) Eq
      (modify fun s => { s with registry := s.registry.bindLinks (f.fill given) } : SessionM κ PUnit)
      (modify fun s => { s with registry := s.registry.bindLinks f }) := by
  refine .modify fun s s' hs => ⟨hs.1, ?_⟩
  rw [hs.2]
  exact Registry.bindLinks_fill given s'.registry f

/-- A registry takes the place of another. -/
theorem lockstep_registry (registry : Registry κ) :
    Lockstep (FilledFrom given) Eq
      (modify fun s => { s with registry := registry.fill given } : SessionM κ PUnit)
      (modify fun s => { s with registry }) :=
  .modify fun _ _ hs => ⟨hs.1, rfl⟩

theorem lockstep_register (f : Feature κ) :
    Lockstep (FilledFrom given) Eq (register (f.fill given)) (register f) := by
  refine .get fun s s' hs => ?_
  rw [hs.2, Registry.register_fill]
  cases s'.registry.register f with
  | error duplicate => exact lockstep_fail _
  | ok registry => exact .bind (lockstep_registry registry) fun _ _ _ => lockstep_notes _ _

theorem lockstep_refer (ownerId targetId : String) (property : Name) (occurrence : Nat) :
    Lockstep (FilledFrom given) Eq (refer ownerId property occurrence targetId : SessionM κ Nat)
      (refer ownerId property occurrence targetId) := by
  refine .get fun s s' hs => ?_
  rw [hs.2, Registry.refer_fill]
  exact .bind (lockstep_registry _) fun _ _ _ => .pure rfl

theorem lockstep_settle :
    Lockstep (FilledFrom given) Eq (settle : SessionM κ (List DanglingReference)) settle := by
  refine .get fun s s' hs => ?_
  rw [hs.2, Registry.settle_fill]
  exact .bind (lockstep_registry _) fun _ _ _ => .bind (lockstep_notes _ _) fun _ _ _ => .pure rfl

end Session

/-! ### Steps of a reader -/

namespace FeatureReader
variable {r : FeatureReader κ} {given : Option String} {inline inline' : SessionM κ (Feature κ)}

theorem lockstep_readReference (d : Declaration) (ownerId : String) (occurrence : Nat) (href : String) :
    Lockstep (Session.FilledFrom given) (· = Value.fill given ·)
      (readReference d ownerId occurrence href : SessionM κ (Value κ))
      (readReference d ownerId occurrence href) := by
  unfold readReference
  split
  · exact Session.lockstep_fail _
  · refine .bind (Session.lockstep_plain Cursor.leafFree_skipElement) fun _ _ _ =>
      .bind (Session.lockstep_notes _ _) fun _ _ _ =>
        .bind (Session.lockstep_refer _ _ _ _) fun number number' h => .pure ?_
    rw [h]
    rfl

theorem lockstep_readFeatureValue (hinline : Lockstep (Session.FilledFrom given)
      (· = Feature.fill given ·) inline inline') (d : Declaration) (expected : Option Name)
    (attributes : List Attribute) (ownerId : String) (occurrence : Nat) :
    Lockstep (Session.FilledFrom given) (· = Value.fill given ·)
      (r.readFeatureValue inline d expected attributes ownerId occurrence)
      (r.readFeatureValue inline' d expected attributes ownerId occurrence) := by
  unfold readFeatureValue
  split
  · exact lockstep_readReference _ _ _ _
  · refine .bind (Session.lockstep_plain (r.leafFree_enterFeature _ _)) fun _ _ _ =>
      .bind hinline fun f f' hf =>
        .bind (Session.lockstep_plain (Cursor.leafFree_skipToEnd _)) fun _ _ _ => .pure ?_
    rw [hf]
    rfl

/-- A geometry or an envelope in a property. -/
theorem lockstep_readWithin {α : Type} {V : α → α → Prop} {read read' : CursorM α} (property : Name)
    (h : Lockstep Cursor.SameButLog V read read') :
    Lockstep Cursor.SameButLog V (Cursor.readWithin property read) (Cursor.readWithin property read') := by
  refine .bind Cursor.leafFree_nextTag.lockstep ?_
  rintro tag _ rfl
  cases tag with
  | stop | finish => exact .fail _
  | start =>
    refine .get fun c d hc => ?_
    rw [hc.eq_with]
    refine .bind (.inProperty h _ _) fun a a' ha => .bind Cursor.leafFree_nextTag.lockstep ?_
    rintro tag _ rfl
    cases tag with
    | stop => exact .pure ha
    | start | finish => exact .fail _

theorem lockstep_readByCategory (hgeometry : r.geometry = .standard) (hinline : Lockstep
      (Session.FilledFrom given) (· = Feature.fill given ·) inline inline') (d : Declaration)
    (attributes : List Attribute) (ownerId : String) (occurrence : Nat) :
    Lockstep (Session.FilledFrom given) (· = Value.fill given ·)
      (r.readByCategory inline d attributes ownerId occurrence given)
      (r.readByCategory inline' d attributes ownerId occurrence none) := by
  -- What is read is the same or filled in; the value that is made of it is then filled in.
  have hmade {α : Type} {V : α → α → Prop} {m m' : SessionM κ α} {f : α → Value κ}
      (hm : Lockstep (Session.FilledFrom given) V m m') (hf : ∀ a a', V a a' → f a = (f a').fill given) :
      Lockstep (Session.FilledFrom given) (· = Value.fill given ·) (m >>= fun a => pure (f a))
        (m' >>= fun a => pure (f a)) :=
    hm.bind fun a a' ha => .pure (hf a a' ha)
  unfold readByCategory
  rw [hgeometry]
  cases d.category with
  | simple | code =>
    refine hmade (Session.lockstep_plain Cursor.leafFree_elementText) ?_
    rintro text _ rfl
    rfl
  | complex =>
    refine hmade (Session.lockstep_plain Cursor.leafFree_captureElement) ?_
    rintro tree _ rfl
    rfl
  | measure =>
    refine .bind Session.lockstep_position ?_
    rintro position _ rfl
    refine hmade (.inProperty (Session.lockstep_plain Cursor.anyPlain_elementNumber) _ _) ?_
    rintro number _ rfl
    rfl
  | geometry =>
    exact hmade (Session.lockstep_lift (lockstep_readWithin _ (Cursor.lockstep_readGeometry none given)))
      fun g g' h => by rw [h]; rfl
  | envelope =>
    exact hmade (Session.lockstep_lift (lockstep_readWithin _ (Cursor.lockstep_readEnvelope none given)))
      fun e e' h => by rw [h]; rfl
  | feature expected => exact lockstep_readFeatureValue hinline _ _ _ _ _

theorem lockstep_readProperty (hgeometry : r.geometry = .standard) (hcustom : r.custom = [])
    (hinline : Lockstep (Session.FilledFrom given) (· = Feature.fill given ·) inline inline')
    (type : FeatureType) (id : String) (element : Name) (attributes : List Attribute) (p : Partway κ) :
    Lockstep (Session.FilledFrom given) (· = Partway.fill given ·)
      (r.readProperty inline given type id element attributes (p.fill given))
      (r.readProperty inline' none type id element attributes p) := by
  refine .bind (Session.lockstep_plain (r.leafFree_acceptProperty type p.progress element)) ?_
  rintro ⟨d, progress⟩ _ rfl
  refine .bind (Session.lockstep_notes _ _) fun _ _ _ => ?_
  have hnone := custom?_eq_none hcustom type.name d.name
  rw [readValue_of_custom?_eq_none hnone, readValue_of_custom?_eq_none hnone]
  refine .bind (lockstep_readByCategory hgeometry hinline d attributes id _) ?_
  rintro _ value rfl
  exact .pure rfl

theorem lockstep_endFeature (type : FeatureType) (id : String) (p : Partway κ) :
    Lockstep (Session.FilledFrom given) (· = Feature.fill given ·)
      (r.endFeature type id (p.fill given)) (r.endFeature type id p) := by
  have hfeature : (⟨id, type, (p.fill given).properties.reverse⟩ : Feature κ) =
      Feature.fill given ⟨id, type, p.properties.reverse⟩ := by
    rw [Feature.fill_eq, Partway.fill, List.map_reverse]
  have hprogress : (p.fill given).progress = p.progress := rfl
  unfold endFeature
  rw [hfeature, hprogress]
  cases p.progress.finish type.properties r.checkRest with
  | error violation => exact Session.lockstep_fail _
  | ok =>
    exact .bind (Session.lockstep_bindLinks _) fun _ _ _ => .bind (Session.lockstep_register _)
      fun _ _ _ => .bind Session.lockstep_position fun _ _ _ =>
        .bind (Session.lockstep_notes _ _) fun _ _ _ => .pure rfl

theorem lockstep_readProperties (hgeometry : r.geometry = .standard) (hcustom : r.custom = [])
    (hinline : Lockstep (Session.FilledFrom given) (· = Feature.fill given ·) inline inline')
    (type : FeatureType) (id : String) :
    Lockstep (Session.FilledFrom given) (fun read read' => read.1 = read'.1 ∧ read.2 = read'.2.fill given)
      (r.readProperties inline given type id) (r.readProperties inline' none type id) := by
  refine .get fun s s' hs => ?_
  rw [hs.1.eq_with]
  refine .foldTags (V := (· = Partway.fill given ·)) (Session.lockstep_plain Cursor.leafFree_nextTag)
    ?_ _ rfl
  rintro name attributes _ p rfl
  exact lockstep_readProperty hgeometry hcustom hinline type id name attributes p

/-- The induction is on the levels of nesting that are allowed: the same system is assumed for the
features inside a feature as for itself. -/
theorem lockstep_featureWithin (hgeometry : r.geometry = .standard) (hcustom : r.custom = [])
    (given : Option String) (depth : Nat) :
    Lockstep (Session.FilledFrom given) (· = Feature.fill given ·) (r.featureWithin given depth)
      (r.featureWithin none depth) := by
  induction depth with
  | zero => exact Session.lockstep_lift (.fail _)
  | succ depth ih =>
    rw [featureWithin_succ, featureWithin_succ]
    refine .bind (Session.lockstep_plain r.leafFree_beginFeature) ?_
    rintro ⟨type, id⟩ _ rfl
    refine .bind (lockstep_readProperties hgeometry hcustom ih type id) ?_
    rintro ⟨tag, q⟩ ⟨_, p⟩ ⟨rfl, hq⟩
    obtain rfl : q = p.fill given := hq
    cases tag with
    | stop => exact lockstep_endFeature type id p
    | start | finish => exact Session.lockstep_lift (.fail _)

theorem lockstep_readFeature (hgeometry : r.geometry = .standard) (hcustom : r.custom = [])
    (given : Option String) :
    Lockstep (Session.FilledFrom given) (· = Feature.fill given ·) (r.readFeature given)
      (r.readFeature none) := by
  refine .get fun s s' hs => ?_
  rw [hs.1.eq_with]
  exact lockstep_featureWithin hgeometry hcustom given _

theorem lockstep_readDocument (hgeometry : r.geometry = .standard) (hcustom : r.custom = [])
    (given : Option String) :
    Lockstep (Session.FilledFrom given) (· = Document.fill given ·) (r.readDocument given)
      (r.readDocument none) := by
  refine .bind (Session.lockstep_plain Cursor.leafFree_nextTag) ?_
  rintro tag _ rfl
  cases tag with
  | stop | finish => exact Session.lockstep_lift (.fail _)
  | start =>
    refine .bind (lockstep_readFeature hgeometry hcustom given) ?_
    rintro _ root rfl
    refine .bind Session.lockstep_settle ?_
    rintro dangling _ rfl
    refine .get fun s s' hs => .pure ?_
    rw [hs.2]
    rfl

end FeatureReader

end FeatureMarkup
