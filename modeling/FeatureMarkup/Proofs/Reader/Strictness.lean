import FeatureMarkup.Proofs.Cursor.Extent
import FeatureMarkup.Proofs.Reader.Derivation
import FeatureMarkup.Proofs.Schema.Places

/-! What it changes to hold the last declarations to their least numbers.

A strict reader does so at the end of every feature, a lenient one never. Until a feature
ends the two do the same, so they part at the first feature that is complete but lacks some
of a declaration, however deep inside the document it stands: there the strict reader fails,
and what the lenient one meets later does not matter. `SameBut` is how two such runs are
compared, step by step. -/
namespace FeatureMarkup

open Xml (Attribute)

/-! ### Rounds of a loop -/

/-- Complete rounds of a loop over tags, one after another, each from the start of an element to
where the body left it. A loop that fails has made some too. -/
inductive Rounds {τ σ : Type} (next : EStateM ReadError τ Tag)
    (body : Name → List Attribute → σ → EStateM ReadError τ σ) : σ → τ → σ → τ → Prop where
  | nil {a s} : Rounds next body a s a s
  | cons {a s name attributes s₁ a₁ s₂ a' s'} : next s = .ok (.start name attributes) s₁ →
      body name attributes a s₁ = .ok a₁ s₂ → Rounds next body a₁ s₂ a' s' →
      Rounds next body a s a' s'

/-! ### Two results -/

/-- The first result is the second, unless it is an error of some kind. -/
def SameBut {ε σ α : Type} (P : ε → σ → Prop) (x y : EStateM.Result ε σ α) : Prop :=
  x = y ∨ ∃ e s, x = .error e s ∧ P e s

namespace SameBut
variable {ε σ α β : Type} {P Q : ε → σ → Prop}

theorem refl (x : EStateM.Result ε σ α) : SameBut P x x := .inl rfl

theorem mono {x y : EStateM.Result ε σ α} (h : SameBut P x y) (hPQ : ∀ e s, P e s → Q e s) :
    SameBut Q x y :=
  h.imp_right fun ⟨e, s, hx, hP⟩ => ⟨e, s, hx, hPQ e s hP⟩

/-- A success is shared. -/
theorem of_ok {x y : EStateM.Result ε σ α} {a : α} {s : σ} (h : SameBut P x y)
    (hx : x = .ok a s) : y = .ok a s := by
  rcases h with rfl | ⟨e, s₁, herror, -⟩
  · exact hx
  · rw [hx] at herror
    cases herror

theorem bind {m m' : EStateM ε σ α} {f f' : α → EStateM ε σ β} {s : σ}
    (hm : SameBut P (m s) (m' s))
    (hf : ∀ a s₁, m s = .ok a s₁ → SameBut P (f a s₁) (f' a s₁)) :
    SameBut P ((m >>= f) s) ((m' >>= f') s) := by
  show SameBut P (EStateM.bind m f s) (EStateM.bind m' f' s)
  unfold EStateM.bind
  rcases hm with heq | ⟨e, s₁, herror, hP⟩
  · rw [← heq]
    cases hx : m s with
    | ok a s₁ => exact hf a s₁ hx
    | error e s₁ => exact .inl rfl
  · rw [herror]
    exact .inr ⟨e, s₁, rfl, hP⟩

/-- Two loops go on alike as long as their bodies do. -/
theorem foldTags {τ : Type} {P : ReadError → τ → Prop} {next : EStateM ReadError τ Tag}
    {body body' : Name → List Attribute → σ → EStateM ReadError τ σ} (rounds : Nat) {a : σ} {s : τ}
    (hbody : ∀ a₁ s₁ name attributes s₂, Rounds next body a s a₁ s₁ →
      next s₁ = .ok (.start name attributes) s₂ →
      SameBut P (body name attributes a₁ s₂) (body' name attributes a₁ s₂)) :
    SameBut P (FeatureMarkup.foldTags next body rounds a s)
      (FeatureMarkup.foldTags next body' rounds a s) := by
  induction rounds generalizing a s with
  | zero => exact refl _
  | succ rounds ih =>
    refine bind (refl _) fun tag s₁ hnext => ?_
    cases tag with
    | stop | finish => exact refl _
    | start name attributes =>
      refine bind (hbody a s name attributes s₁ .nil hnext) fun a₁ s₂ hround => ?_
      exact ih fun a' s' name' attributes' s'' hrounds => hbody a' s' name' attributes' s''
        (.cons hnext hround hrounds)

end SameBut

/-! ### Two readers -/

namespace FeatureReader
variable {κ : Type}

/-- The reader that holds the last declarations to their least numbers too. -/
def strict (r : FeatureReader κ) : FeatureReader κ := { r with checkRest := true }

/-- The reader that does not. -/
def lenient (r : FeatureReader κ) : FeatureReader κ := { r with checkRest := false }

/-- A feature begins in one session, and in the other the same feature or, as the value of
one of the properties, one inside it; each with the depth of nesting allowed there. -/
inductive Inside (r : FeatureReader κ) (srs : Option String) :
    Nat → Session κ → Nat → Session κ → Prop where
  | self {depth s} : Inside r srs depth s depth s
  | inline {depth s name attributes type p s₁ element attributes₁ s₂ d progress expected c depth' s'} :
      s.cursor.event = .startElement name attributes → r.schema.featureType? name = some type →
      Rounds (liftM Cursor.nextTag)
        (r.readProperty (r.featureWithin srs depth) srs type (featureId attributes)) ⟨.initial, []⟩
        (s.logging [beginNote name (featureId attributes) s.cursor.position]) p s₁ →
      (liftM Cursor.nextTag : SessionM κ Tag) s₁ = .ok (.start element attributes₁) s₂ →
      r.schema.accept type.properties p.progress element = (.ok d, progress) →
      r.custom? type.name d.name = none → d.category = .feature expected →
      Attribute.find? attributes₁ (some Space.xlink) "href" = none →
      r.enterFeature d.name expected
        (s₂.logging (r.propertyNotes type p.progress progress element d)).cursor = .ok () c →
      Inside r srs depth ⟨c, s₂.registry⟩ depth' s' →
      Inside r srs (depth + 1) s depth' s'

/-- A feature that begins in one session and whose properties have all been read in the
other, at the end of its element, where too few of a declaration have been found. -/
structure EndsShort (r : FeatureReader κ) (srs : Option String) (depth : Nat) (s s' : Session κ)
    (type : FeatureType) (d : Declaration) (found : UInt32) : Prop where
  complete : ∃ name attributes name' partway, s.cursor.event = .startElement name attributes ∧
    r.schema.featureType? name = some type ∧
    r.readProperties (r.featureWithin srs depth) srs type (featureId attributes)
      (s.logging [beginNote name (featureId attributes) s.cursor.position]) =
        .ok (.stop name', partway) s' ∧
    partway.progress.finish type.properties true = .error (.under d found)
  ended : ∃ name, s'.cursor.event = .endElement name
  declared : d ∈ type.properties
  lacks : found < d.minOccurs

/-- The error for a feature inside the one that begins here, which ends in the last session
with too few of a declaration. -/
def LacksInside (r : FeatureReader κ) (srs : Option String) (depth : Nat) (s : Session κ)
    (e : ReadError) (s' : Session κ) : Prop :=
  ∃ depth' s₀ type d found, r.Inside srs depth s (depth' + 1) s₀ ∧
    r.EndsShort srs depth' s₀ s' type d found ∧
    e = .located (.tooFewOccurrences d.name type.name d.minOccurs found) s'.cursor.position

variable {r : FeatureReader κ} {srs : Option String}

/-! ### One feature -/

section Inline
variable {P : ReadError → Session κ → Prop} {inline inline' : SessionM κ (Feature κ)}
  {type : FeatureType} {id : String} {s : Session κ}

/-- The readers part over a value only inside an inline feature. -/
theorem sameBut_readFeatureValue {d : Declaration} {expected : Option Name}
    {attributes : List Attribute} {occurrence : Nat}
    (hinline : ∀ c, Attribute.find? attributes (some Space.xlink) "href" = none →
      r.strict.enterFeature d.name expected s.cursor = .ok () c →
      SameBut P (inline ⟨c, s.registry⟩) (inline' ⟨c, s.registry⟩)) :
    SameBut P (r.strict.readFeatureValue inline d expected attributes id occurrence s)
      (r.lenient.readFeatureValue inline' d expected attributes id occurrence s) := by
  unfold readFeatureValue
  cases hhref : Attribute.find? attributes (some Space.xlink) "href" with
  | some href => exact .refl _
  | none =>
    refine .bind (.refl _) fun u s₁ henter => .bind ?_ fun f s₂ _ => .refl _
    obtain ⟨c, hc, rfl⟩ := Session.lift_eq_ok.1 henter
    exact hinline c hhref hc

theorem sameBut_readValue {d : Declaration} {attributes : List Attribute} {occurrence : Nat}
    (hinline : ∀ expected c, r.strict.custom? type.name d.name = none →
      d.category = .feature expected → Attribute.find? attributes (some Space.xlink) "href" = none →
      r.strict.enterFeature d.name expected s.cursor = .ok () c →
      SameBut P (inline ⟨c, s.registry⟩) (inline' ⟨c, s.registry⟩)) :
    SameBut P (r.strict.readValue inline type d attributes id occurrence srs s)
      (r.lenient.readValue inline' type d attributes id occurrence srs s) := by
  have hsame : r.lenient.custom? type.name d.name = r.strict.custom? type.name d.name := rfl
  unfold readValue
  rw [hsame]
  cases hcustom : r.strict.custom? type.name d.name with
  | some custom => exact .refl _
  | none =>
    dsimp only
    unfold readByCategory
    cases hcategory : d.category with
    | feature expected =>
      exact sameBut_readFeatureValue fun c => hinline expected c hcustom hcategory
    | _ => exact .refl _

theorem sameBut_readProperty {element : Name} {attributes : List Attribute} {p : Partway κ}
    (hinline : ∀ d progress expected c,
      r.schema.accept type.properties p.progress element = (.ok d, progress) →
      r.strict.custom? type.name d.name = none → d.category = .feature expected →
      Attribute.find? attributes (some Space.xlink) "href" = none →
      r.strict.enterFeature d.name expected
        (s.logging (r.strict.propertyNotes type p.progress progress element d)).cursor = .ok () c →
      SameBut P (inline ⟨c, s.registry⟩) (inline' ⟨c, s.registry⟩)) :
    SameBut P (r.strict.readProperty inline srs type id element attributes p s)
      (r.lenient.readProperty inline' srs type id element attributes p s) := by
  refine .bind (.refl _) fun ⟨d, progress⟩ s₁ haccept => .bind (.refl _) fun u s₂ hnote => ?_
  obtain ⟨c₁, hc₁, rfl⟩ := Session.lift_eq_ok.1 haccept
  obtain ⟨haccepted, rfl⟩ := acceptProperty_eq_ok.1 hc₁
  obtain rfl := Session.note_eq_ok.1 hnote
  refine .bind (sameBut_readValue fun expected c hcustom hcategory hhref henter => ?_)
    fun value s₃ _ => .refl _
  refine hinline d progress expected c haccepted hcustom hcategory hhref ?_
  simpa [Session.logging, propertyNotes] using henter

end Inline

/-- Where the strict reader refuses the end of a feature, the properties are complete and too
few of a declaration have been found. -/
theorem sameBut_endProperties {type : FeatureType} {id : String} {read : Tag × Partway κ}
    {s : Session κ} :
    SameBut (fun e s' => s' = s ∧ ∃ name d found, read.1 = .stop name ∧
        read.2.progress.finish type.properties true = .error (.under d found) ∧
        d ∈ type.properties ∧ found < d.minOccurs ∧
        e = .located (.tooFewOccurrences d.name type.name d.minOccurs found) s.cursor.position)
      (r.strict.endProperties type id read s) (r.lenient.endProperties type id read s) := by
  obtain ⟨tag, p⟩ := read
  cases tag with
  | start | finish => exact .refl _
  | stop name =>
    have hlenient : p.progress.finish type.properties r.lenient.checkRest = .ok () := rfl
    show SameBut _ (r.strict.endFeature type id p s) (r.lenient.endFeature type id p s)
    unfold endFeature
    rw [hlenient]
    cases hfinish : p.progress.finish type.properties r.strict.checkRest with
    | ok u => exact .refl _
    | error violation =>
      obtain ⟨d, found, rfl, hmem, hlt⟩ := Progress.finish_eq_error hfinish
      exact .inr ⟨_, s, rfl, rfl, name, d, found, rfl, hfinish, hmem, hlt, rfl⟩

/-- A feature is read alike by both readers, unless one inside it ends short. -/
theorem sameBut_featureWithin (depth : Nat) (s : Session κ) :
    SameBut (r.strict.LacksInside srs depth s) (r.strict.featureWithin srs depth s)
      (r.lenient.featureWithin srs depth s) := by
  induction depth generalizing s with
  | zero => exact .refl _
  | succ depth ih =>
    rw [featureWithin_succ, featureWithin_succ]
    refine SameBut.bind (m := liftM r.beginFeature) (.refl _) fun ⟨type, id⟩ s₁ hbegin => ?_
    obtain ⟨c, hc, rfl⟩ := Session.lift_eq_ok.1 hbegin
    obtain ⟨name, attributes, hevent, rfl, -, htype, -, rfl⟩ := beginFeature_eq_ok.1 hc
    refine .bind (.foldTags _ fun p s₁ element attributes₁ s₂ hrounds hnext => ?_)
      fun read s₁ hread => ?_
    · refine sameBut_readProperty fun d progress expected c haccept hcustom hcategory hhref henter => ?_
      refine (ih ⟨c, s₂.registry⟩).mono fun e s' hlacks => ?_
      obtain ⟨depth', s₀, type', d', found, hinside, hshort, he⟩ := hlacks
      exact ⟨depth', s₀, type', d', found,
        .inline hevent htype hrounds hnext haccept hcustom hcategory hhref henter hinside, hshort, he⟩
    · refine sameBut_endProperties.mono fun e s' hlacks => ?_
      obtain ⟨rfl, name', d, found, htag, hfinish, hmem, hlt, rfl⟩ := hlacks
      obtain ⟨tag, p⟩ := read
      obtain rfl : tag = .stop name' := htag
      have hended := foldTags_event (s := s.logging _) hread nofun
      exact ⟨depth, s, type, d, found, .self,
        ⟨⟨name, attributes, name', p, hevent, htype, hread, hfinish⟩, ⟨name', hended⟩, hmem, hlt⟩, rfl⟩

/-! ### Whole documents -/

theorem sameBut_readFeature (s : Session κ) :
    SameBut (r.strict.LacksInside srs (s.cursor.remaining + 1) s) (r.strict.readFeature srs s)
      (r.lenient.readFeature srs s) :=
  sameBut_featureWithin _ s

theorem sameBut_readDocument (s : Session κ) :
    SameBut (fun e s' => ∃ name attributes c,
        Cursor.nextTag s.cursor = .ok (.start name attributes) c ∧
        r.strict.LacksInside srs (c.remaining + 1) ⟨c, s.registry⟩ e s')
      (r.strict.readDocument srs s) (r.lenient.readDocument srs s) := by
  refine SameBut.bind (m := liftM Cursor.nextTag) (.refl _) fun tag s₁ hnext => ?_
  obtain ⟨c, hc, rfl⟩ := Session.lift_eq_ok.1 hnext
  cases tag with
  | stop | finish => exact .refl _
  | start name attributes =>
    refine .bind ((sameBut_readFeature _).mono fun e s' hlacks => ?_) fun f s₂ _ => .refl _
    exact ⟨name, attributes, c, hc, hlacks⟩

/-- Of two readers that differ only in whether the last declarations are held to their least
numbers, the strict one does what the lenient one does, down to the session that is left, or
it fails for a feature of the document that is complete and has too few of a declaration. -/
theorem strict_eq_lenient_or_endsShort (r : FeatureReader κ) (srs : Option String) :
    (∀ s, r.strict.readDocument srs s = r.lenient.readDocument srs s ∨
      ∃ name attributes c depth s₀ s' type d found,
        Cursor.nextTag s.cursor = .ok (.start name attributes) c ∧
        r.strict.Inside srs (c.remaining + 1) ⟨c, s.registry⟩ (depth + 1) s₀ ∧
        r.strict.EndsShort srs depth s₀ s' type d found ∧
        r.strict.readDocument srs s =
          .error (.located (.tooFewOccurrences d.name type.name d.minOccurs found)
            s'.cursor.position) s') ∧
    (∀ bytes, r.strict.parse srs bytes = r.lenient.parse srs bytes ∨
      ∃ property type least found position, found < least ∧
        r.strict.parse srs bytes =
          .error (.located (.tooFewOccurrences property type least found) position)) ∧
    (∀ s d s', r.strict.readDocument srs s = .ok d s' → r.lenient.readDocument srs s = .ok d s') ∧
    (∀ depth s f s', r.strict.featureWithin srs depth s = .ok f s' →
      r.lenient.featureWithin srs depth s = .ok f s') := by
  have hdocument : ∀ s, r.strict.readDocument srs s = r.lenient.readDocument srs s ∨
      ∃ name attributes c depth s₀ s' type d found,
        Cursor.nextTag s.cursor = .ok (.start name attributes) c ∧
        r.strict.Inside srs (c.remaining + 1) ⟨c, s.registry⟩ (depth + 1) s₀ ∧
        r.strict.EndsShort srs depth s₀ s' type d found ∧
        r.strict.readDocument srs s =
          .error (.located (.tooFewOccurrences d.name type.name d.minOccurs found)
            s'.cursor.position) s' := by
    intro s
    refine (sameBut_readDocument s).imp_right ?_
    rintro ⟨_, s', herror, name, attributes, c, hnext, depth, s₀, type, d, found, hinside, hshort, rfl⟩
    exact ⟨name, attributes, c, depth, s₀, s', type, d, found, hnext, hinside, hshort, herror⟩
  refine ⟨hdocument, fun bytes => ?_, fun s d s' => (sameBut_readDocument s).of_ok,
    fun depth s f s' => (sameBut_featureWithin depth s).of_ok⟩
  simp only [parse, parseLogged]
  rcases hdocument (.ofCursor (.ofBytes bytes)) with
    heq | ⟨_, _, _, _, _, s', type, d, found, -, -, hshort, herror⟩
  · exact .inl (by rw [heq])
  · exact .inr ⟨d.name, type.name, d.minOccurs, found, s'.cursor.position, hshort.lacks, by
      rw [herror]⟩

/-- A road without the name that it must have: read by the lenient reader, and refused by
the strict one for what it lacks. -/
theorem strict_eq_lenient_or_endsShort_road :
    let road := Name.unqualified "Road"
    let reader : FeatureReader Unit :=
      .ofSchema ⟨[⟨road, [.single (.unqualified "name") .simple], none, false⟩], []⟩
    let session : Session Unit := .ofCursor (.ofReadings
      [⟨6, .ok (.start road [])⟩, ⟨13, .ok (.stop road)⟩])
    (∃ d s', reader.lenient.readDocument none session = .ok d s') ∧
      ∃ depth s₀ s' type d found, reader.strict.EndsShort none depth s₀ s' type d found ∧
        reader.strict.readDocument none session =
          .error (.located (.tooFewOccurrences d.name type.name d.minOccurs found)
            s'.cursor.position) s' := by
  intro road reader session
  obtain ⟨d, s', hlenient⟩ : ∃ d s', reader.lenient.readDocument none session = .ok d s' :=
    ⟨_, _, rfl⟩
  obtain ⟨e, s₁, hstrict⟩ : ∃ e s₁, reader.strict.readDocument none session = .error e s₁ :=
    ⟨_, _, rfl⟩
  refine ⟨⟨d, s', hlenient⟩, ?_⟩
  rcases (strict_eq_lenient_or_endsShort reader none).1 session with
    heq | ⟨_, _, c, depth, s₀, s', type, d, found, -, -, hshort, herror⟩
  · rw [hlenient, hstrict] at heq
    cases heq
  · exact ⟨depth, s₀, s', type, d, found, hshort, herror⟩

end FeatureReader

end FeatureMarkup
