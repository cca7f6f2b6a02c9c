import FeatureMarkup.Proofs.Reader.Making
import FeatureMarkup.Proofs.Reader.Validity
import FeatureMarkup.Proofs.Schema.Limits

/-! The greatest numbers of occurrences in a document that has been read.

The properties of a feature take places as the validator answers, so that what it keeps over
any elements is kept in every feature, whatever reads the values. -/
namespace FeatureMarkup

open Progress

variable {κ : Type} {r : FeatureReader κ}

/-- Properties are made in the order in which their elements are accepted. -/
theorem PropertiesMade.accepts {F : Registry κ → Feature κ → Registry κ → Prop}
    {type : FeatureType} {id : String} {p p' : Partway κ} {a b : Registry κ}
    (h : PropertiesMade r F type id p a p' b) :
    ∃ properties, p'.properties.reverse = p.properties.reverse ++ properties ∧
      Accepts r.schema type.properties p.progress
        (properties.map fun q => (q.name, q.declaration)) p'.progress := by
  induction h with
  | nil => exact ⟨[], by simp, .nil⟩
  | @cons p a element d progress value b p' c haccept _ _ ih =>
    obtain ⟨properties, hproperties, haccepts⟩ := ih
    exact ⟨⟨d, element, value⟩ :: properties, by simpa using hproperties,
      .cons haccept haccepts⟩

/-- A feature whose properties take places among the declarations of its type, no place more
often than it should be but for the one element let through. -/
def Feature.Keeps (s : Schema) (f : Feature κ) : Prop :=
  ∃ places, Placed s f.type.properties 0 f.properties places ∧
    ∀ (i : Nat) (d : Declaration), f.type.properties[i]? = some d → d.Kept i (places.count i)

theorem FeatureMade.accepts {F : Registry κ → Feature κ → Registry κ → Prop} {a b : Registry κ}
    {f : Feature κ} (h : FeatureMade r F a f b) :
    ∃ p, Accepts r.schema f.type.properties .initial
      (f.properties.map fun q => (q.name, q.declaration)) p := by
  cases h with
  | intro _ _ _ hmade =>
    obtain ⟨properties, hproperties, haccepts⟩ := hmade.accepts
    obtain rfl := (List.nil_append _).symm.trans hproperties.symm
    exact ⟨_, haccepts⟩

theorem FeatureMade.keeps {F : Registry κ → Feature κ → Registry κ → Prop} {a b : Registry κ}
    {f : Feature κ} (h : FeatureMade r F a f b) (hfew : f.properties.length < UInt32.size) :
    f.Keeps r.schema := by
  obtain ⟨p, haccepts⟩ := h.accepts
  obtain ⟨places, hlength, hplaced, hkeeps⟩ := haccepts.placed
  have hkept := hkeeps [] (by rwa [List.length_nil, Nat.zero_add]) keeps_initial
  exact ⟨places, hplaced, fun i d hd => hkept.kept (hlength ▸ hfew) hd⟩

/-- Over any elements, accepted or not, and in every feature of a document, no declaration
has more occurrences than it allows, but for a single one where a declaration behind the
first allows none. -/
theorem FeatureReader.limits_kept (r : FeatureReader κ) :
    (∀ (α : Type) (takes : α → Declaration → Bool) (declarations : List Declaration)
        (word : List α), word.length < UInt32.size →
      (∀ answer ∈ answers takes declarations .initial word, ∀ d, answer.1 = .ok d →
        declarations[answer.2.active]? = some d) ∧
      ∀ (i : Nat) (d : Declaration), declarations[i]? = some d →
        d.Kept i ((taken takes declarations .initial word).count i)) ∧
    ∀ srs s d s', r.readDocument srs s = .ok d s' →
      ∀ f ∈ d.root.features, f.properties.length < UInt32.size → f.Keeps r.schema := by
  constructor
  · intro α takes declarations word hlength
    exact ⟨fun answer hmem d hd => answers_place hmem hd, fun i d hd => taken_kept takes hlength hd⟩
  · intro srs s d s' h
    obtain ⟨_, _, _, root, s₁, _, -, hroot, -, -, rfl⟩ := readDocument_eq_ok.1 h
    exact forall_features_of_made (fun _ _ _ hmade => hmade.keeps) srs _ _ _ _ hroot

/-- A road of which notes come at most once, and one that has a note. -/
theorem limits_kept_road :
    let road := Name.unqualified "Road"
    let note := Name.unqualified "note"
    let declarations := [(Declaration.single note .simple).optional]
    let reader : FeatureReader Unit := .ofSchema ⟨[⟨road, declarations, none, false⟩], []⟩
    let readings : List Xml.Reading := [⟨6, .ok (.start road [])⟩, ⟨12, .ok (.start note [])⟩,
      ⟨16, .ok (.text "left")⟩, ⟨23, .ok (.stop note)⟩, ⟨30, .ok (.stop road)⟩]
    let session : Session Unit := .ofCursor (.ofReadings readings)
    (Progress.taken (fun e d => e = d.name) declarations .initial [note, note]).count 0 ≤ 1 ∧
      ∃ d s', reader.readDocument none session = .ok d s' ∧ d.root.properties.length = 1 ∧
        d.root.Keeps reader.schema := by
  intro road note declarations reader readings session
  obtain ⟨hrun, hdocument⟩ := reader.limits_kept
  constructor
  · have hkept := (hrun Name (fun e d => e = d.name) declarations [note, note] (by decide)).2 0 _ rfl
    rcases hkept with hcovers | ⟨hfirst, -⟩
    · exact hcovers
    · exact absurd rfl hfirst
  · have hread : (yield? (reader.readDocument none session)).map (·.root.properties.length) =
        some 1 := by
      decide +kernel
    obtain ⟨d, hd, hlength⟩ := Option.map_eq_some_iff.1 hread
    obtain ⟨s', h⟩ := yield?_eq_some.1 hd
    refine ⟨d, s', h, hlength, hdocument none session d s' h d.root ?_ (by rw [hlength]; decide)⟩
    rw [d.root.features_eq]
    exact List.mem_append_right _ (List.mem_singleton_self _)

/-- The one that is let through: a road may have a note and no part, and a part is accepted
that comes without a note before it. -/
theorem limits_exceeded_road :
    let note := Name.unqualified "note"
    let part := Name.unqualified "part"
    let declarations := [(Declaration.single note .simple).optional,
      (Declaration.single part .simple).occurs 0 (.bounded 0)]
    ∃ d, declarations[1]? = some d ∧ d.maxOccurs = .bounded 0 ∧
      (Progress.taken (fun e d => e = d.name) declarations .initial [part]).count 1 = 1 ∧
      ¬ d.maxOccurs.Covers
        ((Progress.taken (fun e d => e = d.name) declarations .initial [part]).count 1) :=
  ⟨_, rfl, by decide, by decide, by decide⟩

end FeatureMarkup
