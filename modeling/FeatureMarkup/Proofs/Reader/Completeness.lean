import FeatureMarkup.Proofs.Feature.Draft
import FeatureMarkup.Proofs.Reader.Derivation
import FeatureMarkup.Proofs.Reference.Growth

/-! Every feature that a schema has room for can be read.

A draft that conforms to a schema and is written with new ids is read as the feature it
stands for, to the end of its element and no further. The registry gains the ids in it, and
a link for each of its references. -/
namespace FeatureMarkup

open Xml (Attribute Reading)

variable {κ : Type} {r : FeatureReader κ}

/-! ### The registry -/

/-- What a registry has more: features with these ids, and links to those ids. -/
structure Gains (before after : Registry κ) (ids targets : List String) : Prop where
  ids : after.ids = before.ids ++ ids
  targets : after.links.map (·.targetId) = before.links.map (·.targetId) ++ targets

namespace Gains
variable {before middle after : Registry κ} {ids ids' targets targets' : List String}

theorem refl (registry : Registry κ) : Gains registry registry [] [] :=
  ⟨(List.append_nil _).symm, (List.append_nil _).symm⟩

theorem trans (h : Gains before middle ids targets) (h' : Gains middle after ids' targets') :
    Gains before after (ids ++ ids') (targets ++ targets') :=
  ⟨by rw [h'.ids, h.ids, List.append_assoc], by rw [h'.targets, h.targets, List.append_assoc]⟩

theorem length_links (h : Gains before after ids targets) :
    after.links.length = before.links.length + targets.length := by
  simpa using congrArg List.length h.targets

/-- A reference is the link with the next number. -/
theorem refer (before : Registry κ) (ownerId targetId : String) (property : Name)
    (occurrence : Nat) : ∃ after,
      before.refer ownerId property occurrence targetId = (before.links.length, after) ∧
        Gains before after [] [targetId] := by
  unfold Registry.refer
  cases before.feature? targetId with
  | some target => exact ⟨_, rfl, by simp [Registry.ids], by simp [Link.resolve, Link.unbound]⟩
  | none => exact ⟨_, rfl, by simp [Registry.ids], by simp [Link.unbound]⟩

theorem bindLinks (before : Registry κ) (f : Feature κ) : Gains before (before.bindLinks f) [] [] := by
  obtain ⟨hfeatures, -, hlinks⟩ := before.bindLinks_eq f
  refine ⟨by simp [Registry.ids, hfeatures], ?_⟩
  rw [List.append_nil]
  refine List.ext_getElem? fun i => ?_
  rw [List.getElem?_map, List.getElem?_map, hlinks]
  split
  · cases before.links[i]? <;> rfl
  · rfl

/-- A complete feature is registered if its id is new. -/
theorem register {f : Feature κ} (h : Gains before middle ids targets)
    (hnew : (before.ids ++ (ids ++ if f.id = "" then [] else [f.id])).Nodup) :
    ∃ after, (middle.bindLinks f).register f = .ok after ∧
      Gains before after (ids ++ if f.id = "" then [] else [f.id]) targets := by
  have hbound : Gains before (middle.bindLinks f) ids targets := by
    simpa using h.trans (.bindLinks middle f)
  by_cases hid : f.id = ""
  · exact ⟨_, Registry.register_eq_ok.2 (.inl ⟨hid, rfl⟩), by simpa [hid] using hbound⟩
  · have hfresh : f.id ∉ (middle.bindLinks f).ids := by
      rw [hbound.ids]
      rw [if_neg hid, ← List.append_assoc] at hnew
      exact fun hmem => (List.nodup_append.1 hnew).2.2 _ hmem _ (List.mem_singleton_self _) rfl
    refine ⟨_, Registry.register_eq_ok.2 (.inr ⟨hid, hfresh, rfl⟩), ?_, hbound.targets⟩
    have hids := hbound.ids
    simp only [Registry.ids] at hids
    simp [Registry.ids, hids, hid]

end Gains

/-! ### One element -/

/-- A session at the start of an element, with this inside it and so much behind its end. -/
structure Session.StartsAt (s : Session κ) (name : Name) (attributes : List Attribute)
    (inside : List Reading) (stop : Name) (rest : List Reading) : Prop where
  event : s.cursor.event = .startElement name attributes
  left : ∃ offset, s.cursor.readings = inside ++ ⟨offset, .ok (.stop stop)⟩ :: rest

/-- A session at the end of an element, with so much left to read. -/
structure Session.EndsAt (s : Session κ) (name : Name) (rest : List Reading) : Prop where
  event : s.cursor.event = .endElement name
  left : s.cursor.readings = rest

/-- A reading that succeeds with a value at the end of an element, and with these gains. -/
def Yields {α : Type} (m : SessionM κ α) (s : Session κ) (a : α) (stop : Name)
    (rest : List Reading) (ids targets : List String) : Prop :=
  ∃ s', m s = .ok a s' ∧ s'.EndsAt stop rest ∧ Gains s.registry s'.registry ids targets

section Element
variable {s : Session κ} {name stop : Name} {attributes : List Attribute}
  {before inside rest : List Reading}

theorem Session.StartsAt.not_atEnd (h : s.StartsAt name attributes inside stop rest) :
    ¬s.cursor.AtEnd :=
  Cursor.not_atEnd_of_start h.event

theorem Session.EndsAt.not_atEnd (h : s.EndsAt stop rest) : ¬s.cursor.AtEnd := by
  intro hend
  have hend : s.cursor.event = .endDocument := hend
  rw [h.event] at hend
  cases hend

/-- The way from the start of an element to its end. -/
theorem Session.StartsAt.reaches (h : s.StartsAt name attributes inside stop rest) :
    ∃ c, s.cursor.Reaches inside (.stop stop) c ∧ Session.EndsAt ⟨c, s.registry⟩ stop rest := by
  obtain ⟨offset, hr⟩ := h.left
  exact ⟨_, Cursor.reaches_stop_iff.2 ⟨offset, rest, hr, rfl⟩, rfl, rfl⟩

/-- The way over blank text to the start of an element. -/
theorem Session.start_of_readings {offset offset' : Nat} (hnot : ¬s.cursor.AtEnd)
    (hb : Spells before [])
    (hr : s.cursor.readings = before ++ ⟨offset, .ok (.start name attributes)⟩ :: inside ++
      ⟨offset', .ok (.stop stop)⟩ :: rest) :
    ∃ c, Cursor.nextTag s.cursor = .ok (.start name attributes) c ∧
      Session.StartsAt ⟨c, s.registry⟩ name attributes inside stop rest ∧
      c.readings.length < s.cursor.readings.length := by
  rw [List.append_assoc, List.cons_append] at hr
  refine ⟨_, Cursor.nextTag_of_readings hnot hb rfl hr, ⟨rfl, offset', rfl⟩, ?_⟩
  rw [hr]
  simp
  omega

/-- The way over blank text to the end of the element outside. -/
theorem Session.stop_of_readings {offset : Nat} (hnot : ¬s.cursor.AtEnd) (hb : Spells before [])
    (hr : s.cursor.readings = before ++ ⟨offset, .ok (.stop stop)⟩ :: rest) :
    ∃ c, Cursor.nextTag s.cursor = .ok (.stop stop) c ∧ Session.EndsAt ⟨c, s.registry⟩ stop rest :=
  ⟨_, Cursor.nextTag_of_readings hnot hb rfl hr, rfl, rfl⟩

/-- A move of the cursor gains nothing. -/
theorem Yields.of_move {α β : Type} {move : CursorM α} {f : α → β} {a : α} {c : Cursor}
    (h : move s.cursor = .ok a c) (hends : Session.EndsAt ⟨c, s.registry⟩ stop rest) :
    Yields (liftM move >>= fun a => pure (f a)) s (f a) stop rest [] [] :=
  ⟨⟨c, s.registry⟩, bind_eq_ok.2 ⟨a, _, Session.lift_eq_ok.2 ⟨c, h, rfl⟩, rfl⟩, hends, .refl _⟩

end Element

namespace FeatureReader

/-! ### Values -/

section Value
variable {s : Session κ} {name stop : Name} {attributes : List Attribute}
  {inside rest : List Reading} {inline : SessionM κ (Feature κ)} {d : Declaration} {id : String}
  {occurrence : Nat} {srs : Option String}

theorem elementText_of_startsAt {joined : String}
    (hs : s.StartsAt name attributes inside stop rest) (hjoined : SpellsText inside joined) :
    ∃ c, Cursor.elementText s.cursor = .ok (Text.trim joined) c ∧
      Session.EndsAt ⟨c, s.registry⟩ stop rest := by
  obtain ⟨c, hreach, hends⟩ := hs.reaches
  exact ⟨c, Cursor.elementText_eq_ok_iff.2 ⟨⟨name, attributes, hs.event⟩, inside, joined, stop,
    hjoined, rfl, hreach⟩, hends⟩

theorem readByCategory_of_text {joined : String} (hcategory : d.category = .simple)
    (hs : s.StartsAt name attributes inside stop rest) (hjoined : SpellsText inside joined) :
    Yields (r.readByCategory inline d attributes id occurrence srs) s (.text (Text.trim joined))
      stop rest [] [] := by
  obtain ⟨c, htext, hends⟩ := elementText_of_startsAt hs hjoined
  unfold readByCategory
  rw [hcategory]
  exact .of_move htext hends

theorem readByCategory_of_code {joined : String} (hcategory : d.category = .code)
    (hs : s.StartsAt name attributes inside stop rest) (hjoined : SpellsText inside joined) :
    Yields (r.readByCategory inline d attributes id occurrence srs) s
      (.code ⟨Text.trim joined, Attribute.find? attributes none "codeSpace"⟩) stop rest [] [] := by
  obtain ⟨c, htext, hends⟩ := elementText_of_startsAt hs hjoined
  unfold readByCategory
  rw [hcategory]
  exact .of_move htext hends

theorem readByCategory_of_tree {children : List MarkupNode} (hcategory : d.category = .complex)
    (hs : s.StartsAt name attributes inside stop rest) (hchildren : Spells inside children) :
    Yields (r.readByCategory inline d attributes id occurrence srs) s
      (.tree ⟨name, attributes, children⟩) stop rest [] [] := by
  obtain ⟨c, hreach, hends⟩ := hs.reaches
  have hcapture : Cursor.captureElement s.cursor = .ok ⟨name, attributes, children⟩ c :=
    Cursor.captureElement_eq_ok_iff.2 ⟨name, attributes, hs.event, inside, children, stop, hchildren,
      rfl, hreach⟩
  unfold readByCategory
  rw [hcategory]
  exact .of_move hcapture hends

theorem localTarget?_hash (id : String) : localTarget? ("#" ++ id) = some id := by
  simp [localTarget?]

/-- A reference is read over whatever is inside its element. -/
theorem readByCategory_of_reference {expected : Option Name} {targetId : String}
    {children : List MarkupNode} (hcategory : d.category = .feature expected)
    (hhref : Attribute.find? attributes (some Space.xlink) "href" = some ("#" ++ targetId))
    (hs : s.StartsAt name attributes inside stop rest) (hchildren : Spells inside children) :
    Yields (r.readByCategory inline d attributes id occurrence srs) s
      (.link s.registry.links.length) stop rest [] [targetId] := by
  obtain ⟨c, hreach, hends⟩ := hs.reaches
  obtain ⟨registry, hrefer, hgains⟩ := Gains.refer s.registry id targetId d.name occurrence
  have hskip : Cursor.skipElement s.cursor = .ok () c :=
    Cursor.skipElement_eq_ok_iff.2 ⟨⟨name, attributes, hs.event⟩, inside, children, stop, hchildren,
      hreach⟩
  have hread : readReference d id occurrence ("#" ++ targetId) s =
      .ok (.link s.registry.links.length)
        (Session.logging ⟨c, registry⟩ [referenceNote d targetId]) :=
    readReference_eq_ok.2 ⟨targetId, c, _, localTarget?_hash targetId, hskip, hrefer, rfl, rfl⟩
  unfold readByCategory
  rw [hcategory]
  exact ⟨_, readFeatureValue_eq_ok.2 (.inl ⟨_, hhref, hread⟩), ⟨hends.event, hends.left⟩, hgains⟩

theorem skipToEnd_of_readings {after : List Reading} {offset : Nat} (property : Name)
    (hnot : ¬s.cursor.AtEnd) (hafter : Spells after [])
    (hr : s.cursor.readings = after ++ ⟨offset, .ok (.stop stop)⟩ :: rest) :
    ∃ c, Cursor.skipToEnd property s.cursor = .ok () c ∧
      Session.EndsAt ⟨c, s.registry⟩ stop rest := by
  obtain ⟨c, hnext, hends⟩ := Session.stop_of_readings hnot hafter hr
  refine ⟨c, bind_eq_ok.2 ⟨(.stop stop, ()), c, ?_, rfl⟩, hends⟩
  unfold Cursor.foldChildren
  rw [get_bind]
  exact bind_eq_ok.2 ⟨.stop stop, c, hnext, rfl⟩

/-- An inline feature is read with nothing but blank text around it. -/
theorem readByCategory_of_inline {expected : Option Name} {f : Feature κ} {found stop' : Name}
    {attributes' : List Attribute} {c : Cursor} {after : List Reading} {offset : Nat}
    {ids targets : List String} (hcategory : d.category = .feature expected)
    (hhref : Attribute.find? attributes (some Space.xlink) "href" = none)
    (hnext : Cursor.nextTag s.cursor = .ok (.start found attributes') c)
    (hknown : (r.schema.featureType? found).isSome = true)
    (hderives : ∀ type, expected = some type → r.schema.derives type found = true)
    (hafter : Spells after [])
    (hinline : Yields inline ⟨c, s.registry⟩ f stop' (after ++ ⟨offset, .ok (.stop stop)⟩ :: rest)
      ids targets) :
    Yields (r.readByCategory inline d attributes id occurrence srs) s (.feature f) stop rest ids
      targets := by
  obtain ⟨s₁, hread, hends, hgains⟩ := hinline
  obtain ⟨c', hskip, hends'⟩ := skipToEnd_of_readings d.name hends.not_atEnd hafter hends.left
  have henter : r.enterFeature d.name expected s.cursor = .ok () c :=
    enterFeature_eq_ok.2 ⟨found, attributes', hnext, hknown, hderives⟩
  unfold readByCategory
  rw [hcategory]
  exact ⟨⟨c', s₁.registry⟩, readFeatureValue_eq_ok.2 (.inr ⟨hhref, c, f, s₁, c', henter, hread, hskip,
    rfl, rfl⟩), hends', hgains⟩

/-- Reading properties goes on behind one whose value is read. -/
theorem foldTags_of_property (hcustom : r.custom = []) {type : FeatureType} {element : Name}
    {p : Partway κ} {progress : Progress} {c : Cursor} {value : Value κ} {ids targets : List String}
    (hnext : Cursor.nextTag s.cursor = .ok (.start element attributes) c)
    (haccept : r.schema.accept type.properties p.progress element = (.ok d, progress))
    (hvalue : Yields (r.readByCategory inline d attributes id (progress.count.toNat - 1) srs)
      (Session.logging ⟨c, s.registry⟩ (r.propertyNotes type p.progress progress element d)) value
      stop rest ids targets) :
    ∃ s₁ : Session κ, s₁.EndsAt stop rest ∧ Gains s.registry s₁.registry ids targets ∧
      ∀ rounds out s', foldTags (liftM Cursor.nextTag) (r.readProperty inline srs type id) rounds
          ⟨progress, ⟨d, element, value⟩ :: p.properties⟩ s₁ = .ok out s' →
        foldTags (liftM Cursor.nextTag) (r.readProperty inline srs type id) (rounds + 1) p s =
          .ok out s' := by
  obtain ⟨s₁, hread, hends, hgains⟩ := hvalue
  refine ⟨s₁, hends, hgains, fun rounds out s' hloop => ?_⟩
  exact bind_eq_ok.2 ⟨_, _, Session.lift_eq_ok.2 ⟨c, hnext, rfl⟩, bind_eq_ok.2 ⟨_, s₁,
    (readProperty_eq_ok hcustom).2 ⟨d, progress, value, haccept, hread, rfl⟩, hloop⟩⟩

end Value

/-! ### Drafts -/

section Drafts
variable {srs : Option String}

-- The recursion is that of the draft; the depth and the rounds are bounded by what is left to
-- read, which every start of an element takes from.
mutual

theorem featureWithin_of_draft (hcustom : r.custom = [])
    (hschema : ∀ name type, r.schema.featureType? name = some type →
      r.schema.Apart type.properties) :
    ∀ (draft : Draft) {depth : Nat} {s : Session κ} {attributes : List Attribute}
      {inside rest : List Reading} {stop : Name},
      draft.Conforms r.schema → draft.Written attributes inside →
      s.StartsAt draft.type.name attributes inside stop rest →
      s.cursor.readings.length < depth → (s.registry.ids ++ draft.ids).Nodup →
      Yields (r.featureWithin srs depth) s (draft.feature s.registry.links.length) stop rest
        draft.ids draft.targets
  | _, 0, _, _, _, _, _, _, _, _, hdepth, _ => absurd hdepth (Nat.not_lt_zero _)
  | ⟨id, type, properties⟩, depth + 1, s, attributes, inside, rest, stop, hconforms, hwritten, hs,
    hdepth, hnew => by
    obtain ⟨hid, htype, habstract, harranged, hall⟩ := hconforms
    obtain ⟨rfl, hwritten⟩ := hwritten
    obtain ⟨progress, haccepts, hfinish⟩ := harranged.accepts (hschema _ _ htype)
    obtain ⟨offset, hr⟩ := hs.left
    have hnew' : (s.registry.ids ++ DraftProperty.allIds properties).Nodup := by
      rw [Draft.ids, ← List.append_assoc] at hnew
      exact (List.nodup_append.1 hnew).1
    let s₀ := s.logging [beginNote type.name (featureId attributes) s.cursor.position]
    let p₀ : Partway κ := ⟨.initial, []⟩
    obtain ⟨s₁, hloop, hends, hgains⟩ := foldTags_of_drafts (p := p₀) (s := s₀) hcustom hschema
      properties hall hwritten haccepts hs.not_atEnd hr (Nat.le_of_lt_succ hdepth)
      s.cursor.length_lt_rounds hnew'
    let f : Feature κ := Draft.feature s.registry.links.length ⟨featureId attributes, type, properties⟩
    obtain ⟨registry, hregister, hgains'⟩ := Gains.register (f := f) hgains hnew
    refine ⟨Session.logging ⟨s₁.cursor, registry⟩ (endNotes f s₁.cursor.position),
      featureWithin_succ_eq_ok.2 ⟨type.name, attributes, type, hs.event, hid, htype, habstract, stop,
        _, s₁, hloop, endFeature_eq_ok.2 ⟨hfinish _, ?_, registry, hregister, rfl⟩⟩,
      ⟨hends.event, hends.left⟩, hgains'⟩
    simp [Draft.feature, p₀, s₀]

theorem foldTags_of_drafts (hcustom : r.custom = [])
    (hschema : ∀ name type, r.schema.featureType? name = some type →
      r.schema.Apart type.properties) {type : FeatureType} {id : String} {depth : Nat}
    {progress' : Progress} :
    ∀ (properties : List DraftProperty) {p : Partway κ} {rounds : Nat} {s : Session κ}
      {readings rest : List Reading} {offset : Nat} {stop : Name},
      DraftProperty.AllConform r.schema properties → DraftProperty.AllWritten readings properties →
      Accepts r.schema type.properties p.progress
        (properties.map fun q => (q.name, q.declaration)) progress' →
      ¬s.cursor.AtEnd → s.cursor.readings = readings ++ ⟨offset, .ok (.stop stop)⟩ :: rest →
      s.cursor.readings.length ≤ depth → s.cursor.readings.length < rounds →
      (s.registry.ids ++ DraftProperty.allIds properties).Nodup →
      Yields (foldTags (liftM Cursor.nextTag)
          (r.readProperty (r.featureWithin srs depth) srs type id) rounds p) s
        (.stop stop, ⟨progress',
          (DraftProperty.allProperties s.registry.links.length properties).reverse ++ p.properties⟩)
        stop rest (DraftProperty.allIds properties) (DraftProperty.allTargets properties)
  | [], _, 0, _, _, _, _, _, _, _, _, _, _, _, hrounds, _ => absurd hrounds (Nat.not_lt_zero _)
  | _ :: _, _, 0, _, _, _, _, _, _, _, _, _, _, _, hrounds, _ => absurd hrounds (Nat.not_lt_zero _)
  | [], p, rounds + 1, s, readings, rest, offset, stop, _, hwritten, haccepts, hnot, hr, _, _, _ => by
    rw [DraftProperty.AllWritten] at hwritten
    cases haccepts
    obtain ⟨c, hnext, hends⟩ := Session.stop_of_readings hnot hwritten hr
    exact ⟨⟨c, s.registry⟩, bind_eq_ok.2 ⟨_, _, Session.lift_eq_ok.2 ⟨c, hnext, rfl⟩, rfl⟩, hends,
      .refl _⟩
  | ⟨d, element, value⟩ :: later, p, rounds + 1, s, readings, rest, offset, stop, hconform, hwritten,
    haccepts, hnot, hr, hdepth, hrounds, hnew => by
    obtain ⟨hvalue, hlater⟩ := hconform
    obtain ⟨before, offset₁, attributes, inside, offset₂, stop₁, more, hbefore, hw, hmore, rfl⟩ :=
      hwritten
    rw [List.append_assoc, List.cons_append] at hr
    rw [DraftProperty.allIds, ← List.append_assoc] at hnew
    obtain ⟨c, hnext, hstarts, hlength⟩ := Session.start_of_readings hnot hbefore hr
    cases haccepts with
    | @cons _ progress _ _ _ _ haccept haccepts =>
      let s₀ := Session.logging ⟨c, s.registry⟩ (r.propertyNotes type p.progress progress element d)
      have hread : Yields (r.readByCategory (r.featureWithin srs depth) d attributes id
          (progress.count.toNat - 1) srs) s₀ (value.value s.registry.links.length) stop₁
          (more ++ ⟨offset, .ok (.stop stop)⟩ :: rest) value.ids value.targets :=
        readByCategory_of_draft hcustom hschema value hvalue hw ⟨hstarts.event, hstarts.left⟩
          (Nat.lt_of_lt_of_le hlength hdepth) (List.nodup_append.1 hnew).1
      obtain ⟨s₁, hends, hgains, hgo⟩ := foldTags_of_property hcustom hnext haccept hread
      have hfewer : s₁.cursor.readings.length < c.readings.length := by
        obtain ⟨offset', hleft⟩ := hstarts.left
        rw [hends.left, show c.readings = _ from hleft]
        simp
        omega
      have hdepth' : s₁.cursor.readings.length ≤ depth := by omega
      have hrounds' : s₁.cursor.readings.length < rounds := by omega
      let p₁ : Partway κ :=
        ⟨progress, ⟨d, element, value.value s.registry.links.length⟩ :: p.properties⟩
      obtain ⟨s', hloop, hends', hgains'⟩ := foldTags_of_drafts (p := p₁) hcustom hschema later hlater
        hmore haccepts hends.not_atEnd hends.left hdepth' hrounds' (by rwa [hgains.ids])
      refine ⟨s', ?_, hends', hgains.trans hgains'⟩
      rw [hgo _ _ _ hloop, hgains.length_links]
      simp [DraftProperty.allProperties, p₁]

theorem readByCategory_of_draft (hcustom : r.custom = [])
    (hschema : ∀ name type, r.schema.featureType? name = some type →
      r.schema.Apart type.properties) {d : Declaration} {id : String} {occurrence depth : Nat}
    {attributes : List Attribute} {name : Name} :
    ∀ (value : DraftValue) {s : Session κ} {inside rest : List Reading} {stop : Name},
      value.Conforms r.schema d.category name → value.Written attributes inside →
      s.StartsAt name attributes inside stop rest →
      s.cursor.readings.length < depth → (s.registry.ids ++ value.ids).Nodup →
      Yields (r.readByCategory (r.featureWithin srs depth) d attributes id occurrence srs) s
        (value.value s.registry.links.length) stop rest value.ids value.targets
  | .text _, _, _, _, _, hcategory, ⟨_, hjoined, htext⟩, hs, _, _ =>
    htext ▸ readByCategory_of_text hcategory hs hjoined
  | .code ⟨_, _⟩, _, _, _, _, hcategory, ⟨hspace, _, hjoined, htext⟩, hs, _, _ => by
    cases htext
    cases hspace
    exact readByCategory_of_code hcategory hs hjoined
  | .tree ⟨_, _, _⟩, _, _, _, _, ⟨hcategory, hname⟩, ⟨hattributes, hchildren⟩, hs, _, _ => by
    cases hname
    cases hattributes
    exact readByCategory_of_tree hcategory hs hchildren
  | .reference _, _, _, _, _, ⟨_, hcategory⟩, ⟨hhref, _, hchildren⟩, hs, _, _ =>
    readByCategory_of_reference hcategory hhref hs hchildren
  | .feature draft, s, inside, rest, stop, hconforms, hwritten, hs, hdepth, hnew => by
    obtain ⟨⟨expected, hcategory, hderives⟩, hdraft⟩ := hconforms
    obtain ⟨hhref, before, offset₁, attributes', inside', offset₂, stop', after, hbefore, hw, hafter,
      rfl⟩ := hwritten
    obtain ⟨offset, hr⟩ := hs.left
    rw [List.append_assoc, List.cons_append] at hr
    obtain ⟨c, hnext, hstarts, hlength⟩ := Session.start_of_readings hs.not_atEnd hbefore hr
    have hknown : (r.schema.featureType? draft.type.name).isSome = true := by
      rw [hdraft.featureType?_eq]
      exact Option.isSome_some
    have hinline : Yields (r.featureWithin srs depth) ⟨c, s.registry⟩
        (draft.feature s.registry.links.length) stop' (after ++ ⟨offset, .ok (.stop stop)⟩ :: rest)
        draft.ids draft.targets :=
      featureWithin_of_draft hcustom hschema draft hdraft hw hstarts (Nat.lt_trans hlength hdepth)
        hnew
    exact readByCategory_of_inline hcategory hhref hnext hknown hderives hafter hinline

end

end Drafts

/-- A draft that conforms to a schema is read wherever it is written with new ids: as the
feature it stands for, its links numbered behind those there are, up to the end of its
element. No two declarations of a type may take the same element. -/
theorem readFeature_of_written (r : FeatureReader κ) (hcustom : r.custom = [])
    (hschema : ∀ name type, r.schema.featureType? name = some type →
      r.schema.Apart type.properties)
    (draft : Draft) (hconforms : draft.Conforms r.schema) (attributes : List Attribute)
    (inside : List Reading) (hwritten : draft.Written attributes inside) (srs : Option String)
    (s : Session κ) (offset : Nat) (name : Name) (rest : List Reading)
    (hevent : s.cursor.event = .startElement draft.type.name attributes)
    (hreadings : s.cursor.readings = inside ++ ⟨offset, .ok (.stop name)⟩ :: rest)
    (hnew : (s.registry.ids ++ draft.ids).Nodup) :
    ∃ s', r.readFeature srs s = .ok (draft.feature s.registry.links.length) s' ∧
      s'.EndsAt name rest ∧ Gains s.registry s'.registry draft.ids draft.targets := by
  unfold readFeature
  rw [get_bind]
  exact featureWithin_of_draft hcustom hschema draft hconforms hwritten
    ⟨hevent, offset, hreadings⟩ s.cursor.length_lt_rounds hnew

/-- What is written of a draft is read back. -/
theorem readFeature_write (hcustom : r.custom = [])
    (hschema : ∀ name type, r.schema.featureType? name = some type →
      r.schema.Apart type.properties)
    {draft : Draft} (hconforms : draft.Conforms r.schema) (hkept : draft.Kept) (srs : Option String)
    {c : Cursor} {rest : List Reading}
    (hevent : c.event = .startElement draft.type.name draft.attributes)
    (hreadings : c.readings = draft.write ++ ⟨0, .ok (.stop draft.type.name)⟩ :: rest)
    (hnew : draft.ids.Nodup) :
    ∃ s', r.readFeature srs (.ofCursor c) = .ok (draft.feature 0) s' ∧
      s'.EndsAt draft.type.name rest ∧ Gains .empty s'.registry draft.ids draft.targets := by
  unfold readFeature
  rw [get_bind]
  exact featureWithin_of_draft (s := .ofCursor c) hcustom hschema draft hconforms
    (Draft.written_write hkept) ⟨hevent, 0, hreadings⟩ c.length_lt_rounds
    (by simpa [Session.ofCursor])

end FeatureReader

/-- A road without a note, and with a lane that leads back to it. -/
theorem readFeature_of_written_road :
    let note := Declaration.optional (.single (.unqualified "note") .simple)
    let part := Declaration.single (.unqualified "part") (.feature none)
    let road : FeatureType := ⟨.unqualified "Road", [note, part], none, false⟩
    let lane : FeatureType := ⟨.unqualified "Lane", [part], none, false⟩
    let reader : FeatureReader Unit := .ofSchema ⟨[road, lane], []⟩
    let inner : Draft := ⟨"", lane, [⟨part, part.name, .reference "r"⟩]⟩
    let draft : Draft := ⟨"r", road, [⟨part, part.name, .feature inner⟩]⟩
    let fid : List Attribute := [⟨.unqualified "fid", "r"⟩]
    let href : List Attribute := [⟨.qualified Space.xlink "href", "#r"⟩]
    let readings : List Reading := [⟨1, .ok (.text " ")⟩, ⟨2, .ok (.start part.name [])⟩,
      ⟨3, .ok (.start lane.name [])⟩, ⟨4, .ok (.start part.name href)⟩, ⟨5, .ok (.stop part.name)⟩,
      ⟨6, .ok (.stop lane.name)⟩, ⟨7, .ok (.stop part.name)⟩, ⟨8, .ok (.stop road.name)⟩]
    let session : Session Unit :=
      .ofCursor ((Cursor.ofReadings []).moved 0 (.startElement road.name fid) readings)
    ∃ s', reader.readFeature none session = .ok (draft.feature 0) s' ∧ s'.EndsAt road.name [] := by
  intro note part road lane reader inner draft fid href readings session
  have hschema : ∀ name type, reader.schema.featureType? name = some type →
      reader.schema.Apart type.properties := by
    intro name type htype
    have hmem : type ∈ [lane, road] := List.mem_of_find?_eq_some htype
    refine Schema.apart_of_elements_nil rfl ?_
    rcases List.mem_cons.1 hmem with rfl | hmem
    · decide
    · obtain rfl := List.mem_singleton.1 hmem
      decide
  have hpart : Run reader.schema part [(part.name, part)] := by
    refine ⟨fun e he => ?_, by decide, by decide, by decide⟩
    obtain rfl := List.mem_singleton.1 he
    exact ⟨rfl, by decide⟩
  have hinner : inner.Conforms reader.schema :=
    ⟨by decide, by decide, rfl, .cons hpart .nil, ⟨none, rfl⟩, trivial⟩
  have hrun : Arranged reader.schema road.properties ([] ++ ([(part.name, part)] ++ [])) :=
    .cons ⟨nofun, by decide, by decide, by decide⟩ (.cons hpart .nil)
  have hdraft : draft.Conforms reader.schema :=
    ⟨by decide, by decide, rfl, hrun, ⟨⟨none, rfl, nofun⟩, hinner⟩, trivial⟩
  have hlane : inner.Written [] [⟨4, .ok (.start part.name href)⟩, ⟨5, .ok (.stop part.name)⟩] :=
    ⟨by decide, [], 4, href, [], 5, part.name, [], .nil, ⟨by decide, [], .nil⟩, .nil, rfl⟩
  have hwritten : draft.Written fid (readings.take 7) :=
    ⟨by decide, [⟨1, .ok (.text " ")⟩], 2, [], (readings.drop 2).take 4, 7, part.name, [],
      .blank (by decide) .nil, ⟨by decide, [], 3, [], _, 6, lane.name, [], .nil, hlane, .nil, rfl⟩,
      .nil, rfl⟩
  obtain ⟨s', h, hends, -⟩ := reader.readFeature_of_written rfl hschema draft hdraft fid
    (readings.take 7) hwritten none session 8 road.name [] rfl rfl (by decide)
  exact ⟨s', h, hends⟩

end FeatureMarkup
