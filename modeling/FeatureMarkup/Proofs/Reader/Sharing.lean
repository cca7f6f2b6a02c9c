import FeatureMarkup.Proofs.Reader.Wrapping
import FeatureMarkup.Proofs.Reference.Extension

/-! A registry that several readings share.

A reading may fail half way through, and what it has registered by then stays. `Accords` says of a
reading, wherever it ends, that it continues the registry as it was at some time before. For the
properties of a feature that time is the feature's beginning, so that its links are told from
those before by their numbers. `accords_featureWithin` puts the parts together by the depth of
nesting, and `readFeature_continues` says it of any registry that readings have led to. -/
namespace FeatureMarkup

open Xml (Attribute)

variable {κ : Type}

/-- An error for an id that is registered already. -/
def ReadError.IsRepeat (e : ReadError) : Prop :=
  ∃ id position, e = .located (.duplicateFeatureId id) position

theorem Plain.failsAs_repeat {α : Type} {m : CursorM α}
    (hm : Plain (fun cause => cause.isRepeat = false) m) (c : Cursor) :
    FailsAs (fun e _ => ¬e.IsRepeat) m c := by
  intro e c' h
  obtain ⟨cause, position, rfl, hcause⟩ := hm.located h
  rintro ⟨id, position', heq⟩
  cases heq
  cases hcause

namespace Registry

/-- A reading continues a registry, wherever it ends, and refuses a feature only for one that stays;
if it succeeds, its value stands in some relation to the registry. -/
structure Accords (a : Registry κ) {α : Type} (V : α → Registry κ → Prop) (m : SessionM κ α)
    (s : Session κ) : Prop where
  ok : ∀ ⦃x after⦄, m s = .ok x after → a.Continues after.registry ∧ V x after.registry
  error : FailsAs (fun e after => a.Continues after.registry ∧ a.Refuses e after.registry) m s

namespace Accords
variable {a b : Registry κ} {α β σ : Type} {V W : α → Registry κ → Prop} {s : Session κ}

theorem mono {m : SessionM κ α} (h : a.Accords V m s) (hVW : ∀ x b, V x b → W x b) :
    a.Accords W m s :=
  ⟨fun x _ hread => (h.ok hread).imp_right (hVW x _), h.error⟩

/-- The registry may be looked back on from an earlier time. -/
theorem of_continues {m : SessionM κ α} (hab : a.Continues b) (h : b.Accords V m s) :
    a.Accords V m s :=
  ⟨fun _ _ hread => (h.ok hread).imp_left hab.trans,
    h.error.mono fun _ _ hfails => ⟨hab.trans hfails.1, hfails.2.of_extends hab.extended⟩⟩

theorem pure {x : α} (h : a.Continues s.registry) (hV : V x s.registry) :
    a.Accords V (Pure.pure x) s := by
  refine ⟨fun x' s' hread => ?_, .pure x⟩
  obtain ⟨rfl, rfl⟩ := pure_eq_ok.1 hread
  exact ⟨h, hV⟩

/-- What a reading continues may be kept for what is read next. -/
theorem continuing {m : SessionM κ α} (h : a.Accords V m s) :
    a.Accords (fun x b => a.Continues b ∧ V x b) m s :=
  ⟨fun _ _ hread => ⟨(h.ok hread).1, h.ok hread⟩, h.error⟩

theorem bind {m : SessionM κ α} {f : α → SessionM κ β} {U : β → Registry κ → Prop}
    (hm : a.Accords V m s)
    (hf : ∀ x s', m s = .ok x s' → a.Continues s'.registry → V x s'.registry →
      a.Accords U (f x) s') : a.Accords U (m >>= f) s := by
  constructor
  · intro y s' hread
    obtain ⟨x, s₁, hx, hread⟩ := bind_eq_ok.1 hread
    obtain ⟨hcontinues, hV⟩ := hm.ok hx
    exact (hf x s₁ hx hcontinues hV).ok hread
  · refine hm.error.bind fun x s₁ hx => ?_
    obtain ⟨hcontinues, hV⟩ := hm.ok hx
    exact (hf x s₁ hx hcontinues hV).error

theorem get {f : Session κ → SessionM κ α} (h : a.Accords V (f s) s) :
    a.Accords V (MonadState.get >>= f) s :=
  ⟨h.ok, h.error⟩

/-- A move of the cursor leaves the registry, and it cannot fail for an id. -/
theorem lift {move : CursorM α} (hmove : FailsAs (fun e _ => ¬e.IsRepeat) move s.cursor)
    (h : a.Continues s.registry) (hV : ∀ x, V x s.registry) :
    a.Accords V (liftM move : SessionM κ α) s := by
  constructor
  · intro x s' hread
    obtain ⟨c, -, rfl⟩ := Session.lift_eq_ok.1 hread
    exact ⟨h, hV x⟩
  · refine .lift (hmove.mono fun e c hrepeat => ⟨h, ?_⟩)
    intro id position he
    exact absurd ⟨id, position, he⟩ hrepeat

theorem plain {move : CursorM α} (hmove : Plain (fun cause => cause.isRepeat = false) move)
    (h : a.Continues s.registry) (hV : ∀ x, V x s.registry) :
    a.Accords V (liftM move : SessionM κ α) s :=
  .lift (hmove.failsAs_repeat _) h hV

theorem fail {cause : Cause} (hcause : cause.isRepeat = false) (h : a.Continues s.registry) :
    a.Accords V (Session.fail cause) s := by
  refine ⟨nofun, fun e s' hread => ?_⟩
  cases hread
  refine ⟨h, fun id position he => ?_⟩
  cases he
  cases hcause

theorem position (h : a.Continues s.registry) :
    a.Accords (fun _ _ => True) (Session.position) s := by
  refine ⟨fun p s' hread => ?_, nofun⟩
  obtain ⟨-, rfl⟩ := Session.position_eq_ok.1 hread
  exact ⟨h, trivial⟩

/-- A wrapped error is none of an id. -/
theorem inProperty {property : Name} {position : Position} {move : CursorM α}
    (h : a.Continues s.registry) (hV : ∀ x, V x s.registry) :
    a.Accords V (FeatureMarkup.inProperty property position (liftM move : SessionM κ α)) s := by
  constructor
  · intro x s' hread
    obtain ⟨c, -, rfl⟩ := Session.lift_eq_ok.1 (inProperty_eq_ok.1 hread)
    exact ⟨h, hV x⟩
  · refine .inProperty (.lift fun e c _ => ⟨h, fun id position he => ?_⟩)
    cases he

theorem foldTags {I : σ → Registry κ → Prop} {body : Name → List Attribute → σ → SessionM κ σ}
    (hbody : ∀ name attributes x s, a.Continues s.registry → I x s.registry →
      a.Accords I (body name attributes x) s)
    (rounds : Nat) {x : σ} (h : a.Continues s.registry) (hI : I x s.registry) :
    a.Accords (fun read b => I read.2 b)
      (FeatureMarkup.foldTags (liftM Cursor.nextTag) body rounds x) s := by
  induction rounds generalizing x s with
  | zero => exact .pure h hI
  | succ rounds ih =>
    refine .bind (.plain (V := fun _ b => I x b) (Cursor.plain_nextTag fun _ => rfl) h fun _ => hI)
      fun tag s₁ _ h₁ hI₁ => ?_
    cases tag with
    | stop | finish => exact .pure h₁ hI₁
    | start name attributes => exact .bind (hbody name attributes x s₁ h₁ hI₁) fun _ _ _ => ih

end Accords

end Registry

/-- The properties read so far have only links that are still to get the feature as their owner. -/
def Registry.Owing (a b : Registry κ) (properties : List (Property κ)) : Prop :=
  ∀ q ∈ properties, ∀ number, q.value.link? = some number → a.Fresh b number

namespace FeatureReader
open Registry
variable (r : FeatureReader κ) {srs : Option String} {a : Registry κ} {s : Session κ}

/-! ### Values -/

theorem failsAs_readWithin_repeat {α : Type} (property : Name) (read : CursorM α) (c : Cursor) :
    FailsAs (fun e _ => ¬e.IsRepeat) (Cursor.readWithin property read) c := by
  have hfail {β : Type} {cause : Cause} (h : cause.isRepeat = false) (c : Cursor) :
      FailsAs (fun e _ => ¬e.IsRepeat) (Cursor.fail cause : CursorM β) c :=
    Plain.failsAs_repeat (.fail h) c
  have hnext (c : Cursor) : FailsAs (fun e _ => ¬e.IsRepeat) Cursor.nextTag c :=
    (Cursor.plain_nextTag fun _ => rfl).failsAs_repeat c
  refine .bind (hnext c) fun tag c₁ _ => ?_
  cases tag with
  | stop | finish => exact hfail rfl c₁
  | start =>
    show FailsAs _ (FeatureMarkup.inProperty property c₁.position read >>= _) c₁
    refine .bind (.inProperty fun e c₂ _ hrepeat => ?_) fun _ c₂ _ => .bind (hnext c₂) fun tag c₃ _ => ?_
    · obtain ⟨_, _, he⟩ := hrepeat
      cases he
    · cases tag with
      | stop => exact .pure _
      | start | finish => exact hfail rfl c₃

/-- A value that is a reference has made a link. -/
theorem accords_readReference (d : Declaration) (ownerId : String) (occurrence : Nat) (href : String)
    (h : a.Continues s.registry) :
    a.Accords (fun v b => ∀ number, v.link? = some number → a.Fresh b number) (readReference d ownerId occurrence href) s := by
  unfold readReference
  split
  · exact .fail rfl h
  · refine .bind (.plain (V := fun _ _ => True) (Cursor.plain_skipElement fun _ => rfl) h
      fun _ => trivial) fun _ s₁ _ h₁ _ => ?_
    refine .bind (.plain (V := fun _ _ => True) (.note _ _) h₁ fun _ => trivial) fun _ s₂ _ h₂ _ => ?_
    refine .bind (V := fun number b => a.Fresh b number) ⟨fun number s₃ hrefer => ?_, nofun⟩
      fun number s₃ _ h₃ hfresh => .pure h₃ fun _ heq => Option.some.inj heq ▸ hfresh
    obtain ⟨hcontinues, hfresh⟩ := continues_refer (Session.refer_eq_ok.1 hrefer).1
    exact ⟨h₂.trans hcontinues, hfresh.of_extends h₂.extended⟩

section Value
variable {inline : SessionM κ (Feature κ)}
  (hinline : ∀ s : Session κ, s.registry.Accords (fun _ _ => True) inline s)
include hinline

theorem accords_readFeatureValue (d : Declaration) (expected : Option Name)
    (attributes : List Attribute) (ownerId : String) (occurrence : Nat) (h : a.Continues s.registry) :
    a.Accords (fun v b => ∀ number, v.link? = some number → a.Fresh b number)
      (r.readFeatureValue inline d expected attributes ownerId occurrence) s := by
  unfold readFeatureValue
  split
  · exact accords_readReference d ownerId occurrence _ h
  · refine .bind (.plain (V := fun _ _ => True) (r.plain_enterFeature (fun _ _ hrepeat => hrepeat) _ _)
      h fun _ => trivial) fun _ s₁ _ h₁ _ => ?_
    refine .bind (.of_continues h₁ (hinline s₁)) fun f s₂ _ h₂ _ => ?_
    exact .bind (.plain (V := fun _ _ => True) (Cursor.plain_skipToEnd (fun _ _ hrepeat => hrepeat) _)
      h₂ fun _ => trivial) fun _ s₃ _ h₃ _ => .pure h₃ nofun

theorem accords_readByCategory (d : Declaration) (attributes : List Attribute) (ownerId : String)
    (occurrence : Nat) (h : a.Continues s.registry) :
    a.Accords (fun v b => ∀ number, v.link? = some number → a.Fresh b number)
      (r.readByCategory inline d attributes ownerId occurrence srs) s := by
  have hkind {α : Type} {m : SessionM κ α} (hm : a.Accords (fun _ _ => True) m s) (f : α → Value κ)
      (hf : ∀ x, (f x).link? = none) :
      a.Accords (fun v b => ∀ number, v.link? = some number → a.Fresh b number) (m >>= fun x => pure (f x)) s :=
    .bind hm fun x s₁ _ h₁ _ => .pure h₁ (by rw [hf x]; nofun)
  unfold readByCategory
  cases d.category with
  | simple =>
    exact hkind (.plain (Cursor.plain_elementText fun _ => rfl) h fun _ => trivial) _ fun _ => rfl
  | code =>
    exact hkind (.plain (Cursor.plain_elementText fun _ => rfl) h fun _ => trivial)
      (fun text => .code ⟨text, _⟩) fun _ => rfl
  | measure =>
    exact .bind (.position h) fun position s₁ _ h₁ _ =>
      .bind (.inProperty (V := fun _ _ => True) h₁ fun _ => trivial) fun _ s₂ _ h₂ _ => .pure h₂ nofun
  | geometry =>
    exact hkind (.lift (failsAs_readWithin_repeat _ _ _) h fun _ => trivial) _ fun _ => rfl
  | envelope =>
    exact hkind (.lift (failsAs_readWithin_repeat _ _ _) h fun _ => trivial) _ fun _ => rfl
  | complex =>
    exact hkind (.plain (Cursor.plain_captureElement fun _ => rfl) h fun _ => trivial) _ fun _ => rfl
  | feature expected => exact r.accords_readFeatureValue hinline d expected attributes ownerId occurrence h

theorem accords_readValue (type : FeatureType) (d : Declaration) (attributes : List Attribute)
    (ownerId : String) (occurrence : Nat) (h : a.Continues s.registry) :
    a.Accords (fun v b => ∀ number, v.link? = some number → a.Fresh b number)
      (r.readValue inline type d attributes ownerId occurrence srs) s := by
  unfold readValue
  split
  · refine .bind (.plain (V := fun _ _ => True) (.note _ _) h fun _ => trivial) fun _ s₁ _ h₁ _ => ?_
    exact .bind (.position h₁) fun position s₂ _ h₂ _ =>
      .bind (.inProperty (V := fun _ _ => True) h₂ fun _ => trivial) fun _ s₃ _ h₃ _ => .pure h₃ nofun
  · exact r.accords_readByCategory hinline d attributes ownerId occurrence h

/-! ### Features -/

theorem accords_readProperty (type : FeatureType) (id : String) (element : Name)
    (attributes : List Attribute) (p : Partway κ) (h : a.Continues s.registry)
    (hp : a.Owing s.registry p.properties) :
    a.Accords (fun p b => a.Owing b p.properties)
      (r.readProperty inline srs type id element attributes p) s := by
  refine .bind (.plain (V := fun _ b => a.Owing b p.properties)
    (r.plain_acceptProperty (fun _ _ hrepeat => hrepeat) _ _ _) h fun _ => hp) fun accepted s₁ _ h₁ hp₁ => ?_
  refine .bind (.plain (V := fun _ b => a.Owing b p.properties) (.note _ _) h₁ fun _ => hp₁)
    fun _ s₂ _ h₂ hp₂ => ?_
  refine .bind (.of_continues h₂ (r.accords_readValue hinline type accepted.1 attributes id _
    (.refl s₂.registry)).continuing) fun v s₃ _ h₃ hv => .pure h₃ ?_
  obtain ⟨hcontinues, hfresh⟩ := hv
  intro q hq number hnumber
  rcases List.mem_cons.1 hq with rfl | hq
  · exact (hfresh number hnumber).of_extends h₂.extended
  · exact hcontinues.extended.fresh (hp₂ q hq number hnumber)

end Value

/-- A feature that has got its links is registered, or refused for another. -/
theorem accords_register {f : Feature κ} {b : Registry κ} (h : a.Continues b)
    (hfresh : ∀ number ∈ f.links, a.Fresh b number) (hs : s.registry = b.bindLinks f) :
    a.Accords (fun _ b => f.id ≠ "" → b.features.getLast? = some f) (Session.register f) s := by
  have hbound : a.Continues s.registry := hs ▸ continues_bindLinks h hfresh
  constructor
  · intro _ s' hread
    obtain ⟨registry, hregister, rfl⟩ := Session.register_eq_ok.1 hread
    exact continues_register hbound (hs ▸ owns_bindLinks hfresh) hregister
  · intro e s' hread
    unfold Session.register at hread
    rw [get_bind] at hread
    cases hregister : s.registry.register f with
    | ok registry =>
      rw [hregister] at hread
      cases hread
    | error duplicate =>
      rw [hregister] at hread
      cases hread
      rw [hs] at hregister ⊢
      exact ⟨hs ▸ hbound, refuses_register h.extended hregister _⟩

/-- The end of a feature gives it its links and registers it. -/
theorem accords_endFeature (type : FeatureType) (id : String) (p : Partway κ)
    (h : a.Continues s.registry) (hp : a.Owing s.registry p.properties) :
    a.Accords (fun f b => f.id ≠ "" → b.features.getLast? = some f) (r.endFeature type id p) s := by
  unfold endFeature
  split
  · let f : Feature κ := ⟨id, type, p.properties.reverse⟩
    have hfresh : ∀ number ∈ f.links, a.Fresh s.registry number := by
      intro number hnumber
      obtain ⟨q, hq, hnumber⟩ := List.mem_filterMap.1 hnumber
      exact hp q (List.mem_reverse.1 hq) number hnumber
    have hbind : a.Accords (fun _ b => b = s.registry.bindLinks f)
        (modify fun s => { s with registry := s.registry.bindLinks f } : SessionM κ PUnit) s := by
      refine ⟨fun _ s' hread => ?_, .modify _⟩
      obtain rfl := modify_eq_ok.1 hread
      exact ⟨continues_bindLinks h hfresh, rfl⟩
    refine .bind hbind fun _ s₁ _ _ hs₁ => .bind (accords_register h hfresh hs₁) fun _ s₂ _ h₂ hlast => ?_
    refine .bind (Accords.position h₂).continuing fun _ s₃ hposition _ _ => ?_
    obtain ⟨-, rfl⟩ := Session.position_eq_ok.1 hposition
    exact .bind (.plain (V := fun _ b => f.id ≠ "" → b.features.getLast? = some f) (.note _ _) h₂
      fun _ => hlast) fun _ s₃ _ h₃ hlast => .pure h₃ hlast
  · exact .fail (Violation.isRepeat_cause _ _ _) h

theorem accords_featureWithin (depth : Nat) (s : Session κ) :
    s.registry.Accords (fun f b => f.id ≠ "" → b.features.getLast? = some f)
      (r.featureWithin srs depth) s := by
  induction depth generalizing s with
  | zero => exact .fail rfl (.refl _)
  | succ depth ih =>
    refine .bind (.plain (V := fun _ _ => True) (r.plain_beginFeature fun _ _ hrepeat => hrepeat)
      (.refl _) fun _ => trivial) fun begun s₁ _ h₁ _ => ?_
    obtain ⟨type, id⟩ := begun
    have hinline : ∀ s : Session κ, s.registry.Accords (fun _ _ => True) (r.featureWithin srs depth) s :=
      fun s => (ih s).mono fun _ _ _ => trivial
    refine .get (.bind (.foldTags (I := fun p b => s.registry.Owing b p.properties)
      (fun name attributes p _ => r.accords_readProperty hinline type id name attributes p) _ h₁ nofun)
      fun read s₂ _ h₂ hp => ?_)
    obtain ⟨tag, partway⟩ := read
    cases tag with
    | stop => exact r.accords_endFeature type id partway h₂ hp
    | start | finish => exact .fail rfl h₂

end FeatureReader

/-! ### Any number of readings -/

/-- A registry that features have been read into, one after another, each from a cursor of its own
and with whatever outcome, and that may have been settled in between. -/
inductive Registry.Reached : Registry κ → Prop where
  | empty : Reached .empty
  | read {a : Registry κ} (r : FeatureReader κ) (srs : Option String) (c : Cursor) :
      Reached a → Reached (behind (r.readFeature srs ⟨c, a⟩)).registry
  | settle {a : Registry κ} : Reached a → Reached a.settle.1

theorem Registry.Accords.continues {a : Registry κ} {α : Type} {V : α → Registry κ → Prop}
    {m : SessionM κ α} {s : Session κ} (h : a.Accords V m s) :
    a.Continues (behind (m s)).registry := by
  cases hread : m s with
  | ok x s' => exact (h.ok hread).1
  | error e s' => exact (h.error hread).1

theorem FeatureReader.accords_readFeature (r : FeatureReader κ) (srs : Option String)
    (s : Session κ) :
    s.registry.Accords (fun f b => f.id ≠ "" → b.features.getLast? = some f)
      (r.readFeature srs) s :=
  .get (r.accords_featureWithin _ s)

theorem Registry.Reached.orderly {a : Registry κ} (h : a.Reached) : a.Orderly := by
  induction h with
  | empty => exact orderly_empty
  | read r srs c _ ih => exact (r.accords_readFeature srs _).continues.orderly ih
  | settle _ ih => exact ih.settle

namespace FeatureReader

/-- In every registry that readings lead to, all ids are distinct and every feature owns its links.
Reading one more feature, wherever it ends, leaves what was there in its place: the features, the
links with their owners and targets, and those that wait. A feature that is refused leaves its id
to the one that has it, and a feature with an id that is read is the last one registered. -/
theorem readFeature_continues (r : FeatureReader κ) (srs : Option String) (c : Cursor)
    {a : Registry κ} (hreached : a.Reached) :
    let result := r.readFeature srs ⟨c, a⟩
    let b := (behind result).registry
    a.Orderly ∧ b.Orderly ∧ a.Extends b ∧
      (∀ id position, failure? result = some (.located (.duplicateFeatureId id) position) →
        ∃ refused middle kept, a.Extends middle ∧ refused.id = id ∧
          middle.feature? id = some kept ∧ b = middle.bindLinks refused ∧
          b.register refused = .error ⟨id⟩ ∧ b.feature? id = some kept) ∧
      ∀ f, yield? result = some f → f.id ≠ "" → b.features.getLast? = some f := by
  intro result b
  have haccords := r.accords_readFeature srs ⟨c, a⟩
  obtain ⟨hextends, horderly⟩ := haccords.continues
  refine ⟨hreached.orderly, horderly hreached.orderly, hextends, fun id position hfails => ?_,
    fun f hyields => ?_⟩
  · obtain ⟨s', hread⟩ := failure?_eq_some.1 hfails
    have hb : b = s'.registry := congrArg (fun result => (behind result).registry) hread
    rw [hb]
    exact (haccords.error hread).2 id position rfl
  · obtain ⟨s', hread⟩ := yield?_eq_some.1 hyields
    have hb : b = s'.registry := congrArg (fun result => (behind result).registry) hread
    rw [hb]
    exact (haccords.ok hread).2

/-- A road is read twice into one registry, and the first one keeps the id. -/
theorem readFeature_continues_road :
    let road := Name.unqualified "Road"
    let reader : FeatureReader Unit := .ofSchema ⟨[⟨road, [], none, false⟩], []⟩
    let c : Cursor := .atTree ⟨road, [⟨.unqualified "fid", "r"⟩], []⟩
    let a : Registry Unit := (behind (reader.readFeature none ⟨c, .empty⟩)).registry
    let result := reader.readFeature none ⟨c, a⟩
    a.Reached ∧ a.ids = ["r"] ∧
      failure? result = some (.located (.duplicateFeatureId "r") ⟨0, some road⟩) ∧
      ∃ kept, a.Extends (behind result).registry ∧ (behind result).registry.feature? "r" = some kept := by
  intro road reader c a result
  have hreached : a.Reached := .read reader none c .empty
  obtain ⟨-, -, hextends, hrefused, -⟩ := readFeature_continues reader none c hreached
  have hfails : failure? result = some (.located (.duplicateFeatureId "r") ⟨0, some road⟩) := by
    decide +kernel
  obtain ⟨_, _, kept, -, -, -, -, -, hkept⟩ := hrefused "r" _ hfails
  exact ⟨hreached, by decide +kernel, hfails, kept, hextends, hkept⟩

end FeatureReader

end FeatureMarkup
