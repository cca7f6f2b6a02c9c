import FeatureMarkup.Proofs.Markup.Transcript
import FeatureMarkup.Proofs.Reader.Plain
import FeatureMarkup.Proofs.Reader.Strictness

/-! Which errors are wrapped with a property, and with which.

What is wrong with a number or a geometry is told together with the property it was found in,
and with that property alone: the properties around it, which hold the features around its own,
are not told. `FailsAs` bounds the ways in which a reading fails; a loop fails in a round that
complete ones lead to. -/
namespace FeatureMarkup

open Xml (Attribute)

/-! ### Ways to fail -/

/-- All failures of a reading from a state are of some kind. -/
def FailsAs {τ α : Type} (P : ReadError → τ → Prop) (m : EStateM ReadError τ α) (s : τ) : Prop :=
  ∀ ⦃e s'⦄, m s = .error e s' → P e s'

namespace FailsAs
variable {τ α β σ : Type} {P Q : ReadError → τ → Prop} {s : τ}

theorem mono {m : EStateM ReadError τ α} (h : FailsAs P m s) (hPQ : ∀ e s', P e s' → Q e s') :
    FailsAs Q m s :=
  fun e s' hread => hPQ e s' (h hread)

theorem pure (a : α) : FailsAs P (Pure.pure a) s := nofun

theorem modify (change : τ → τ) : FailsAs P (modify change : EStateM ReadError τ PUnit) s := nofun

/-- What comes second fails only behind a first that has succeeded. -/
theorem bind {m : EStateM ReadError τ α} {f : α → EStateM ReadError τ β} (hm : FailsAs P m s)
    (hf : ∀ a s₁, m s = .ok a s₁ → FailsAs P (f a) s₁) : FailsAs P (m >>= f) s := by
  intro e s' h
  change EStateM.bind m f s = _ at h
  unfold EStateM.bind at h
  cases hfirst : m s with
  | ok a s₁ =>
    rw [hfirst] at h
    exact hf a s₁ hfirst h
  | error e₁ s₁ =>
    rw [hfirst] at h
    cases h
    exact hm hfirst

theorem inProperty {property : Name} {position : Position} {m : EStateM ReadError τ α}
    (h : FailsAs (fun e s' => P (.inProperty property position e) s') m s) :
    FailsAs P (inProperty property position m) s := by
  intro e s' hread
  unfold FeatureMarkup.inProperty at hread
  cases hinner : m s with
  | ok a s₁ =>
    rw [hinner] at hread
    cases hread
  | error e₁ s₁ =>
    rw [hinner] at hread
    cases hread
    exact h hinner

theorem foldTags {next : EStateM ReadError τ Tag}
    {body : Name → List Attribute → σ → EStateM ReadError τ σ} (rounds : Nat) {a : σ}
    (hnext : ∀ s₁, FailsAs P next s₁)
    (hbody : ∀ a₁ s₁ name attributes s₂, Rounds next body a s a₁ s₁ →
      next s₁ = .ok (.start name attributes) s₂ → FailsAs P (body name attributes a₁) s₂) :
    FailsAs P (FeatureMarkup.foldTags next body rounds a) s := by
  induction rounds generalizing a s with
  | zero => exact .pure _
  | succ rounds ih =>
    refine .bind (hnext s) fun tag s₁ htag => ?_
    cases tag with
    | stop | finish => exact .pure _
    | start name attributes =>
      refine .bind (hbody a s name attributes s₁ .nil htag) fun a₁ s₂ hround => ?_
      exact ih fun a' s' name' attributes' s'' hrounds =>
        hbody a' s' name' attributes' s'' (.cons htag hround hrounds)

/-- A move of the cursor fails in a session as it does alone. -/
theorem lift {κ : Type} {P : ReadError → Session κ → Prop} {move : CursorM α} {s : Session κ}
    (h : FailsAs (fun e c => P e { s with cursor := c }) move s.cursor) :
    FailsAs P (liftM move : SessionM κ α) s := by
  intro e s' hread
  change Session.onCursor move s = _ at hread
  unfold Session.onCursor at hread
  cases hmove : move s.cursor with
  | ok a c =>
    rw [hmove] at hread
    cases hread
  | error e₁ c =>
    rw [hmove] at hread
    cases hread
    exact h hmove

end FailsAs

/-! ### Errors of values -/

/-- An error that is not wrapped, and not for what is wrong with a number or a geometry. -/
def ReadError.AroundValues (e : ReadError) : Prop :=
  ∃ cause position, e = .located cause position ∧ cause.isLeaf = false

/-- An error wrapped once, with a property whose value is a number or a geometry. -/
def ReadError.InValueOf (d : Declaration) (e : ReadError) : Prop :=
  (d.category = .measure ∨ d.category = .geometry ∨ d.category = .envelope) ∧
    ∃ position cause position', e = .inProperty d.name position (.located cause position')

theorem LeafFree.failsAs {α : Type} {m : CursorM α} (hm : LeafFree m) (c : Cursor) :
    FailsAs (fun e _ => e.AroundValues) m c := by
  intro e c' h
  obtain ⟨cause, position, rfl, hcause⟩ := hm.located h
  exact ⟨cause, position, rfl, hcause⟩

namespace FeatureReader
variable {κ : Type} {r : FeatureReader κ} {srs : Option String} {P : ReadError → Session κ → Prop}

section Session
variable (hP : ∀ e s, e.AroundValues → P e s)
include hP

theorem failsAs_of_leafFree {α : Type} {move : CursorM α} (hmove : LeafFree move) (s : Session κ) :
    FailsAs P (liftM move : SessionM κ α) s :=
  .lift ((hmove.failsAs _).mono fun e _ => hP e _)

theorem failsAs_fail {α : Type} {cause : Cause} (hcause : cause.isLeaf = false) (s : Session κ) :
    FailsAs P (Session.fail cause : SessionM κ α) s :=
  failsAs_of_leafFree hP (.fail hcause) s

theorem failsAs_register (f : Feature κ) (s : Session κ) : FailsAs P (Session.register f) s := by
  intro e s' h
  unfold Session.register at h
  rw [get_bind] at h
  cases hregister : s.registry.register f with
  | ok registry =>
    rw [hregister] at h
    exact FailsAs.bind (.modify _) (fun _ _ _ => nofun) h
  | error duplicate =>
    rw [hregister] at h
    exact failsAs_fail hP rfl s h

end Session

/-! ### Values -/

/-- A value in a property fails around its element, or inside it and is wrapped. -/
theorem failsAs_readWithin {α : Type} {read : CursorM α} {d : Declaration} (hread : AnyPlain read)
    (hcategory : d.category = .geometry ∨ d.category = .envelope) (c : Cursor) :
    FailsAs (fun e _ => e.AroundValues ∨ e.InValueOf d) (Cursor.readWithin d.name read) c := by
  have haround {β : Type} {m : CursorM β} (hm : LeafFree m) (c : Cursor) :
      FailsAs (fun e _ => e.AroundValues ∨ e.InValueOf d) m c :=
    (hm.failsAs c).mono fun _ _ => .inl
  refine .bind (haround Cursor.leafFree_nextTag c) fun tag c₁ _ => ?_
  cases tag with
  | stop | finish => exact haround (.fail rfl) c₁
  | start =>
    show FailsAs _ (inProperty d.name c₁.position read >>= _) c₁
    refine .bind (.inProperty fun e c₂ h => ?_) fun _ c₂ _ =>
      .bind (haround Cursor.leafFree_nextTag c₂) fun tag c₃ _ => ?_
    · obtain ⟨cause, position, rfl, -⟩ := hread.located h
      exact .inr ⟨.inr hcategory, _, cause, position, rfl⟩
    · cases tag with
      | stop => exact .pure _
      | start | finish => exact haround (.fail rfl) c₃

/-- An error of a value is wrapped with the property that the value is in, is not an error of
what it is written as, or is that of an inline feature as it is. -/
theorem failsAs_readByCategory (hgeometry : r.geometry = .standard)
    {inline : SessionM κ (Feature κ)} {d : Declaration} {attributes : List Attribute}
    {ownerId : String} {occurrence : Nat} {s : Session κ} :
    FailsAs (fun e s' => e.AroundValues ∨ e.InValueOf d ∨
        ∃ expected c, d.category = .feature expected ∧
          Attribute.find? attributes (some Space.xlink) "href" = none ∧
          r.enterFeature d.name expected s.cursor = .ok () c ∧
          inline ⟨c, s.registry⟩ = .error e s')
      (r.readByCategory inline d attributes ownerId occurrence srs) s := by
  have haround {α : Type} {m : CursorM α} (hm : LeafFree m) (s : Session κ) :=
    failsAs_of_leafFree (P := fun e _ => e.AroundValues) (fun _ _ => id) hm s
  unfold readByCategory
  cases hcategory : d.category with
  | simple | code =>
    exact ((haround Cursor.leafFree_elementText s).mono fun _ _ => .inl).bind fun _ _ _ => .pure _
  | complex =>
    exact ((haround Cursor.leafFree_captureElement s).mono fun _ _ => .inl).bind fun _ _ _ => .pure _
  | measure =>
    refine .bind (.pure _) fun position s₁ _ => .bind (.inProperty (.lift fun e c h => ?_))
      fun _ _ _ => .pure _
    obtain ⟨cause, position', rfl, -⟩ := Cursor.anyPlain_elementNumber.located h
    exact .inr (.inl ⟨.inl hcategory, position, cause, position', rfl⟩)
  | geometry =>
    rw [hgeometry]
    refine .bind (.lift ((failsAs_readWithin (Cursor.anyPlain_readGeometry srs) (.inl hcategory) _).mono
      fun e c h => ?_)) fun _ _ _ => .pure _
    exact h.imp_right .inl
  | envelope =>
    rw [hgeometry]
    refine .bind (.lift ((failsAs_readWithin (Cursor.anyPlain_readEnvelope srs) (.inr hcategory) _).mono
      fun e c h => ?_)) fun _ _ _ => .pure _
    exact h.imp_right .inl
  | feature expected =>
    show FailsAs _ (r.readFeatureValue inline d expected attributes ownerId occurrence) s
    unfold readFeatureValue
    cases hhref : Attribute.find? attributes (some Space.xlink) "href" with
    | some href =>
      refine FailsAs.mono (P := fun e _ => e.AroundValues) ?_ fun _ _ => .inl
      show FailsAs _ (readReference d ownerId occurrence href) s
      unfold readReference
      split
      · exact haround (.fail rfl) s
      · exact .bind (haround Cursor.leafFree_skipElement s) fun _ s₁ _ =>
          .bind (haround (.note _ _) s₁) fun _ _ _ => nofun
    | none =>
      refine .bind ((haround (r.leafFree_enterFeature _ _) s).mono fun _ _ => .inl) fun _ s₁ henter =>
        .bind (fun e s' h => ?_) fun _ s₂ _ =>
          .bind ((haround (Cursor.leafFree_skipToEnd _) s₂).mono fun _ _ => .inl) fun _ _ _ => .pure _
      obtain ⟨c, hc, rfl⟩ := Session.lift_eq_ok.1 henter
      exact .inr (.inr ⟨expected, c, rfl, rfl, hc, h⟩)

/-! ### Features -/

/-- A feature begins in one session; the error is that of a value of one of its own
properties, which complete properties stand before. -/
structure FailsInValue (r : FeatureReader κ) (srs : Option String) (depth : Nat) (s : Session κ)
    (type : FeatureType) (d : Declaration) (e : ReadError) (s' : Session κ) : Prop where
  comesTo : ∃ name attributes p s₁ element attributes₁ s₂ progress,
    s.cursor.event = .startElement name attributes ∧ r.schema.featureType? name = some type ∧
    Rounds (liftM Cursor.nextTag)
      (r.readProperty (r.featureWithin srs depth) srs type (featureId attributes)) ⟨.initial, []⟩
      (s.logging [beginNote name (featureId attributes) s.cursor.position]) p s₁ ∧
    (liftM Cursor.nextTag : SessionM κ Tag) s₁ = .ok (.start element attributes₁) s₂ ∧
    r.schema.accept type.properties p.progress element = (.ok d, progress) ∧
    r.readByCategory (r.featureWithin srs depth) d attributes₁ (featureId attributes)
      (progress.count.toNat - 1) srs
      (s₂.logging (r.propertyNotes type p.progress progress element d)) = .error e s'
  declared : d ∈ type.properties
  wrapped : e.InValueOf d

/-- The error is that of a value which the feature that begins here, or one inside it, has in a
property of its own. -/
def FailsInside (r : FeatureReader κ) (srs : Option String) (depth : Nat) (s : Session κ)
    (e : ReadError) (s' : Session κ) : Prop :=
  ∃ depth' s₀ type d, r.Inside srs depth s (depth' + 1) s₀ ∧
    r.FailsInValue srs depth' s₀ type d e s'

section Feature
variable (hgeometry : r.geometry = .standard) (hcustom : r.custom = [])
include hgeometry hcustom

/-- One property fails before its value, in its value, or in a feature that is its value. -/
theorem failsAs_readProperty {inline : SessionM κ (Feature κ)} {type : FeatureType} {id : String}
    {element : Name} {attributes : List Attribute} {p : Partway κ} {s : Session κ} :
    FailsAs (fun e s' => e.AroundValues ∨ ∃ d progress,
        r.schema.accept type.properties p.progress element = (.ok d, progress) ∧
          let s₁ := s.logging (r.propertyNotes type p.progress progress element d)
          (e.InValueOf d ∧ r.readByCategory inline d attributes id (progress.count.toNat - 1) srs s₁ =
              .error e s') ∨
            ∃ expected c, d.category = .feature expected ∧
              Attribute.find? attributes (some Space.xlink) "href" = none ∧
              r.enterFeature d.name expected s₁.cursor = .ok () c ∧
              inline ⟨c, s.registry⟩ = .error e s')
      (r.readProperty inline srs type id element attributes p) s := by
  unfold readProperty
  refine .bind (failsAs_of_leafFree (fun _ _ => .inl) (r.leafFree_acceptProperty _ _ _) s)
    fun ⟨d, progress⟩ s₁ haccept => .bind (fun _ _ => nofun) fun _ s₂ hnote =>
      .bind (fun e s' hvalue => ?_) fun _ _ _ => .pure _
  obtain ⟨c, hc, rfl⟩ := Session.lift_eq_ok.1 haccept
  obtain ⟨haccepted, rfl⟩ := acceptProperty_eq_ok.1 hc
  obtain rfl := Session.note_eq_ok.1 hnote
  have hnone := custom?_eq_none hcustom type.name d.name
  rw [readValue_of_custom?_eq_none hnone] at hvalue
  have hlogged : r.readByCategory inline d attributes id (progress.count.toNat - 1) srs
      (s.logging (r.propertyNotes type p.progress progress element d)) = .error e s' := by
    simpa [Session.logging, propertyNotes] using hvalue
  rcases failsAs_readByCategory hgeometry hlogged with haround | hvalue | hinline
  · exact .inl haround
  · exact .inr ⟨d, progress, haccepted, .inl ⟨hvalue, hlogged⟩⟩
  · exact .inr ⟨d, progress, haccepted, .inr hinline⟩

omit hgeometry hcustom in
/-- Behind the properties there is no value left to fail for. -/
theorem failsAs_endProperties {type : FeatureType} {id : String} {read : Tag × Partway κ}
    (s : Session κ) :
    FailsAs (fun e _ => e.AroundValues) (r.endProperties type id read) s := by
  unfold endProperties
  split
  · unfold endFeature
    split
    · exact .bind (.modify _) fun _ s₁ _ => .bind (failsAs_register (fun _ _ h => h) _ s₁)
        fun _ _ _ => .bind (.pure _) fun _ _ _ => .bind (fun _ _ => nofun) fun _ _ _ => .pure _
    · exact failsAs_fail (fun _ _ h => h) (Violation.isLeaf_cause _ _ _) s
  · exact failsAs_fail (fun _ _ h => h) rfl s

/-- A feature fails in a value of its own, in a feature inside it, or for what is around values.
The induction is on the levels of nesting that are allowed: the error of an inline feature
passes the property that holds it as it is. -/
theorem failsAs_featureWithin (depth : Nat) (s : Session κ) :
    FailsAs (fun e s' => e.AroundValues ∨ r.FailsInside srs depth s e s') (r.featureWithin srs depth) s := by
  induction depth generalizing s with
  | zero => exact failsAs_of_leafFree (fun _ _ => .inl) (.fail rfl) s
  | succ depth ih =>
    rw [featureWithin_succ]
    refine .bind (failsAs_of_leafFree (fun _ _ => .inl) r.leafFree_beginFeature s)
      fun ⟨type, id⟩ s₁ hbegin => .bind ?_ fun read s₂ _ => (failsAs_endProperties s₂).mono fun _ _ => .inl
    obtain ⟨c, hc, rfl⟩ := Session.lift_eq_ok.1 hbegin
    obtain ⟨name, attributes, hevent, rfl, -, htype, -, rfl⟩ := beginFeature_eq_ok.1 hc
    refine FailsAs.foldTags (s := s.logging _) _
      (failsAs_of_leafFree (fun _ _ => .inl) Cursor.leafFree_nextTag)
      fun p s₁ element attributes₁ s₂ hrounds hnext => ?_
    refine (failsAs_readProperty hgeometry hcustom).mono fun e s' h => ?_
    rcases h with haround | ⟨d, progress, haccept, ⟨hvalue, hread⟩ | hinline⟩
    · exact .inl haround
    · exact .inr ⟨depth, s, type, d, .self, ⟨⟨name, attributes, p, s₁, element, attributes₁, s₂,
        progress, hevent, htype, hrounds, hnext, haccept, hread⟩,
        List.mem_of_getElem? (Progress.accept_place haccept).2.1, hvalue⟩⟩
    · obtain ⟨expected, c, hcategory, hhref, henter, hread⟩ := hinline
      have hnone := custom?_eq_none hcustom type.name d.name
      rcases ih ⟨c, s₂.registry⟩ hread with haround | ⟨depth', s₀, type', d', hinside, hfails⟩
      · exact .inl haround
      · exact .inr ⟨depth', s₀, type', d', .inline hevent htype hrounds hnext haccept hnone hcategory
          hhref henter hinside, hfails⟩

/-- A feature cannot be read for a cause that is not wrapped and is none of a number or a
geometry; or the cause is wrapped once, with a property that is declared for the innermost
feature that was being read, as a measure, a geometry or an envelope. -/
theorem failures_wrapped_once {s s' : Session κ} {e : ReadError} (h : r.readFeature srs s = .error e s') :
    (∃ cause position, e = .located cause position ∧ cause.isLeaf = false) ∨
    ∃ depth s₀ type d position cause position',
      e = .inProperty d.name position (.located cause position') ∧ d ∈ type.properties ∧
      (d.category = .measure ∨ d.category = .geometry ∨ d.category = .envelope) ∧
      r.Inside srs (s.cursor.remaining + 1) s (depth + 1) s₀ ∧
      r.FailsInValue srs depth s₀ type d e s' := by
  rcases failsAs_featureWithin hgeometry hcustom _ s h with haround | hfails
  · exact .inl haround
  · obtain ⟨depth, s₀, type, d, hinside, hfails⟩ := hfails
    obtain ⟨hcategory, position, cause, position', rfl⟩ := hfails.wrapped
    exact .inr ⟨depth, s₀, type, d, position, cause, position', rfl, hfails.declared, hcategory,
      hinside, hfails⟩

end Feature

/-- A crossing that holds a bridge, of which a number of the place cannot be read: the place of the
bridge is named, and the crossing is not. -/
theorem failures_wrapped_once_bridge :
    let bridge := Name.unqualified "Bridge"
    let place := Name.unqualified "place"
    let crossing := Name.unqualified "crossing"
    let road := Name.unqualified "Road"
    let reader : FeatureReader Unit := .ofSchema ⟨[⟨road, [.single crossing (.feature none)], none, false⟩,
      ⟨bridge, [.single place .geometry], none, false⟩], []⟩
    let gml (localPart : String) : Name := ⟨some Space.gml, localPart, by decide⟩
    let point : MarkupTree := ⟨gml "Point", [], [.element ⟨gml "pos", [], [.text "1 x"]⟩]⟩
    let tree : MarkupTree := ⟨road, [], [.element ⟨crossing, [],
      [.element ⟨bridge, [], [.element ⟨place, [], [.element point]⟩]⟩]⟩]⟩
    let session : Session Unit := .ofCursor (Cursor.atTree tree)
    let e : ReadError := .inProperty place ⟨0, some (gml "Point")⟩
      (.located (.malformedNumber "x") ⟨0, some (gml "pos")⟩)
    ∃ s', reader.readFeature none session = .error e s' ∧
      ∃ depth s₀ type d, d.name = place ∧ d ∈ type.properties ∧
        reader.Inside none (session.cursor.remaining + 1) session (depth + 1) s₀ ∧
        reader.FailsInValue none depth s₀ type d e s' := by
  intro bridge place crossing road reader gml point tree session e
  obtain ⟨s', h⟩ := failure?_eq_some.1
    (show failure? (reader.readFeature none session) = some e by decide +kernel)
  refine ⟨s', h, ?_⟩
  rcases failures_wrapped_once rfl rfl h with ⟨_, _, heq, -⟩ | hwrapped
  · exact ReadError.noConfusion heq
  · obtain ⟨depth, s₀, type, d, _, _, _, heq, hmem, -, hinside, hfails⟩ := hwrapped
    obtain ⟨hname, -, -⟩ := ReadError.inProperty.inj heq
    exact ⟨depth, s₀, type, d, hname.symm, hmem, hinside, hfails⟩

end FeatureReader

end FeatureMarkup
