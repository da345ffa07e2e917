/-
  QueryLoom/Proofs/Config/Interpolation.lean
  ==========================================
  **Which texts of a configuration are expanded.**  A text stands as a value when it is the whole
  value, an item of a sequence, the value of a field or what a tag is written before, at any depth;
  the keys of fields do not.  `Yaml.texts` lists these texts from first to last, and notes of each
  whether a tag stands above it.  `Yaml.Replaces` relates two values that are the same tree, with
  the same keys in the same order, the same tags and the same other scalars, except for the texts
  that stand as values.

  References are expanded in the texts without a tag above them and in no others.

    * `Yaml.exists_replacesBelow_iff` — the texts of a value can be replaced just when each can;
    * `Yaml.ReplacesBelow.forall₂_texts` — the new texts are related to the old ones, one by one;
    * `Config.expandTexts_eq_ok_iff`, `Config.expandTexts_eq_error_iff` — what expansion gives, and
      what stops it;
    * `Config.expandTexts_exactly` — all of it, with what becomes of texts under tags;
    * `Config.not_replaces_of_tag` — a text under a tag keeps its references.
-/
import Mathlib.Data.List.Forall2
import QueryLoom.Config.Basic

namespace QueryLoom

namespace Yaml

/-! ### Texts that stand as values -/

/-- A text that stands as a value, and whether a tag stands above it. -/
structure ValueText where
  text : String
  underTag : Bool
deriving DecidableEq, Repr

mutual

/-- The texts that stand as values, from first to last. -/
def textsBelow (underTag : Bool) : Yaml → List ValueText
  | string s => [⟨s, underTag⟩]
  | sequence items => itemTexts underTag items
  | mapping fields => fieldTexts underTag fields
  | tagged _ content => content.textsBelow true
  | null | bool _ | integer _ | float _ => []

/-- The texts in the items of a sequence. -/
def itemTexts (underTag : Bool) : List Yaml → List ValueText
  | [] => []
  | v :: rest => v.textsBelow underTag ++ itemTexts underTag rest

/-- The texts in the values of a mapping. -/
def fieldTexts (underTag : Bool) : List (Yaml × Yaml) → List ValueText
  | [] => []
  | (_, v) :: rest => v.textsBelow underTag ++ fieldTexts underTag rest

end

/-- The texts of a value on its own. -/
def texts (v : Yaml) : List ValueText := v.textsBelow false

mutual

/-- `ReplacesBelow R underTag v w`: the value `w` is `v` with each text that stands as a value
    replaced by one that it is related to, and with nothing else changed. -/
inductive ReplacesBelow (R : ValueText → String → Prop) : Bool → Yaml → Yaml → Prop
  | null (underTag : Bool) : ReplacesBelow R underTag null null
  | bool (underTag b : Bool) : ReplacesBelow R underTag (bool b) (bool b)
  | integer (underTag : Bool) (n : Int) : ReplacesBelow R underTag (integer n) (integer n)
  | float (underTag : Bool) (x : Number.Binary .double) :
    ReplacesBelow R underTag (float x) (float x)
  | string {underTag : Bool} {s t : String} (htext : R ⟨s, underTag⟩ t) :
    ReplacesBelow R underTag (string s) (string t)
  | sequence {underTag : Bool} {items items' : List Yaml}
      (hitems : ReplacesItems R underTag items items') :
    ReplacesBelow R underTag (sequence items) (sequence items')
  | mapping {underTag : Bool} {fields fields' : List (Yaml × Yaml)}
      (hfields : ReplacesFields R underTag fields fields') :
    ReplacesBelow R underTag (mapping fields) (mapping fields')
  | tagged {underTag : Bool} {content content' : Yaml} (tag : String)
      (hcontent : ReplacesBelow R true content content') :
    ReplacesBelow R underTag (tagged tag content) (tagged tag content')

/-- The items of sequences, one by one. -/
inductive ReplacesItems (R : ValueText → String → Prop) : Bool → List Yaml → List Yaml → Prop
  | nil (underTag : Bool) : ReplacesItems R underTag [] []
  | cons {underTag : Bool} {v w : Yaml} {items items' : List Yaml}
      (hfirst : ReplacesBelow R underTag v w) (hrest : ReplacesItems R underTag items items') :
    ReplacesItems R underTag (v :: items) (w :: items')

/-- The fields of mappings, one by one.  The keys are the same. -/
inductive ReplacesFields (R : ValueText → String → Prop) :
    Bool → List (Yaml × Yaml) → List (Yaml × Yaml) → Prop
  | nil (underTag : Bool) : ReplacesFields R underTag [] []
  | cons {underTag : Bool} {v w : Yaml} {fields fields' : List (Yaml × Yaml)} (key : Yaml)
      (hfirst : ReplacesBelow R underTag v w) (hrest : ReplacesFields R underTag fields fields') :
    ReplacesFields R underTag ((key, v) :: fields) ((key, w) :: fields')

end

/-- The same tree with its texts replaced. -/
def Replaces (R : ValueText → String → Prop) (v w : Yaml) : Prop := ReplacesBelow R false v w

section

variable {R : ValueText → String → Prop} {underTag : Bool}

theorem replacesBelow_null {w : Yaml} : ReplacesBelow R underTag null w ↔ w = null := by
  constructor
  · rintro ⟨⟩
    rfl
  · rintro rfl
    exact .null underTag

theorem replacesBelow_bool {b : Bool} {w : Yaml} :
    ReplacesBelow R underTag (bool b) w ↔ w = bool b := by
  constructor
  · rintro ⟨⟩
    rfl
  · rintro rfl
    exact .bool underTag b

theorem replacesBelow_integer {n : Int} {w : Yaml} :
    ReplacesBelow R underTag (integer n) w ↔ w = integer n := by
  constructor
  · rintro ⟨⟩
    rfl
  · rintro rfl
    exact .integer underTag n

theorem replacesBelow_float {x : Number.Binary .double} {w : Yaml} :
    ReplacesBelow R underTag (float x) w ↔ w = float x := by
  constructor
  · rintro ⟨⟩
    rfl
  · rintro rfl
    exact .float underTag x

theorem replacesBelow_string {s : String} {w : Yaml} :
    ReplacesBelow R underTag (string s) w ↔ ∃ t, R ⟨s, underTag⟩ t ∧ w = string t := by
  constructor
  · intro h
    cases h with
    | string htext => exact ⟨_, htext, rfl⟩
  · rintro ⟨t, htext, rfl⟩
    exact .string htext

theorem replacesBelow_sequence {items : List Yaml} {w : Yaml} :
    ReplacesBelow R underTag (sequence items) w ↔
      ∃ items', ReplacesItems R underTag items items' ∧ w = sequence items' := by
  constructor
  · intro h
    cases h with
    | sequence hitems => exact ⟨_, hitems, rfl⟩
  · rintro ⟨items', hitems, rfl⟩
    exact .sequence hitems

theorem replacesBelow_mapping {fields : List (Yaml × Yaml)} {w : Yaml} :
    ReplacesBelow R underTag (mapping fields) w ↔
      ∃ fields', ReplacesFields R underTag fields fields' ∧ w = mapping fields' := by
  constructor
  · intro h
    cases h with
    | mapping hfields => exact ⟨_, hfields, rfl⟩
  · rintro ⟨fields', hfields, rfl⟩
    exact .mapping hfields

theorem replacesBelow_tagged {tag : String} {content w : Yaml} :
    ReplacesBelow R underTag (tagged tag content) w ↔
      ∃ content', ReplacesBelow R true content content' ∧ w = tagged tag content' := by
  constructor
  · intro h
    cases h with
    | tagged _ hcontent => exact ⟨_, hcontent, rfl⟩
  · rintro ⟨content', hcontent, rfl⟩
    exact .tagged tag hcontent

theorem replacesItems_nil {items' : List Yaml} :
    ReplacesItems R underTag [] items' ↔ items' = [] := by
  constructor
  · rintro ⟨⟩
    rfl
  · rintro rfl
    exact .nil underTag

theorem replacesItems_cons {v : Yaml} {items items' : List Yaml} :
    ReplacesItems R underTag (v :: items) items' ↔ ∃ w rest,
      ReplacesBelow R underTag v w ∧ ReplacesItems R underTag items rest ∧ items' = w :: rest := by
  constructor
  · intro h
    cases h with
    | cons hfirst hrest => exact ⟨_, _, hfirst, hrest, rfl⟩
  · rintro ⟨w, rest, hfirst, hrest, rfl⟩
    exact .cons hfirst hrest

theorem replacesFields_nil {fields' : List (Yaml × Yaml)} :
    ReplacesFields R underTag [] fields' ↔ fields' = [] := by
  constructor
  · rintro ⟨⟩
    rfl
  · rintro rfl
    exact .nil underTag

theorem replacesFields_cons {key v : Yaml} {fields fields' : List (Yaml × Yaml)} :
    ReplacesFields R underTag ((key, v) :: fields) fields' ↔ ∃ w rest,
      ReplacesBelow R underTag v w ∧ ReplacesFields R underTag fields rest ∧
        fields' = (key, w) :: rest := by
  constructor
  · intro h
    cases h with
    | cons _ hfirst hrest => exact ⟨_, _, hfirst, hrest, rfl⟩
  · rintro ⟨w, rest, hfirst, hrest, rfl⟩
    exact .cons key hfirst hrest

end

/-! ### Replacing texts -/

section

variable {R : ValueText → String → Prop}

mutual

/-- The texts of a value can be replaced just when each of them can. -/
theorem exists_replacesBelow_iff (underTag : Bool) : (v : Yaml) →
    ((∃ w, ReplacesBelow R underTag v w) ↔ ∀ p ∈ v.textsBelow underTag, ∃ t, R p t)
  | .null | .bool _ | .integer _ | .float _ => by
    simp [textsBelow, replacesBelow_null, replacesBelow_bool, replacesBelow_integer,
      replacesBelow_float]
  | .string s => by
    simp [textsBelow, replacesBelow_string]
  | .sequence items => by
    have hitems := exists_replacesItems_iff underTag items
    simp [textsBelow, replacesBelow_sequence, ← hitems]
  | .mapping fields => by
    have hfields := exists_replacesFields_iff underTag fields
    simp [textsBelow, replacesBelow_mapping, ← hfields]
  | .tagged _ content => by
    have hcontent := exists_replacesBelow_iff true content
    simp [textsBelow, replacesBelow_tagged, ← hcontent]

theorem exists_replacesItems_iff (underTag : Bool) : (items : List Yaml) →
    ((∃ items', ReplacesItems R underTag items items') ↔
      ∀ p ∈ itemTexts underTag items, ∃ t, R p t)
  | [] => by
    simp [itemTexts, replacesItems_nil]
  | v :: rest => by
    rw [itemTexts, List.forall_mem_append, ← exists_replacesBelow_iff underTag v,
      ← exists_replacesItems_iff underTag rest]
    simp [replacesItems_cons]

theorem exists_replacesFields_iff (underTag : Bool) : (fields : List (Yaml × Yaml)) →
    ((∃ fields', ReplacesFields R underTag fields fields') ↔
      ∀ p ∈ fieldTexts underTag fields, ∃ t, R p t)
  | [] => by
    simp [fieldTexts, replacesFields_nil]
  | (_, v) :: rest => by
    rw [fieldTexts, List.forall_mem_append, ← exists_replacesBelow_iff underTag v,
      ← exists_replacesFields_iff underTag rest]
    simp [replacesFields_cons]

end

mutual

/-- The new texts are related to the old ones, one by one. -/
theorem ReplacesBelow.forall₂_texts {underTag : Bool} : {v w : Yaml} →
    ReplacesBelow R underTag v w →
      List.Forall₂ R (v.textsBelow underTag) ((w.textsBelow underTag).map ValueText.text)
  | .null, _, .null _ | .bool _, _, .bool .. | .integer _, _, .integer ..
  | .float _, _, .float .. => .nil
  | .string _, _, .string htext => .cons htext .nil
  | .sequence _, _, .sequence hitems => hitems.forall₂_texts
  | .mapping _, _, .mapping hfields => hfields.forall₂_texts
  | .tagged .., _, .tagged _ hcontent => hcontent.forall₂_texts

theorem ReplacesItems.forall₂_texts {underTag : Bool} : {items items' : List Yaml} →
    ReplacesItems R underTag items items' →
      List.Forall₂ R (itemTexts underTag items) ((itemTexts underTag items').map ValueText.text)
  | [], _, .nil _ => .nil
  | _ :: _, _, .cons hfirst hrest => by
    rw [itemTexts, itemTexts, List.map_append]
    exact List.rel_append hfirst.forall₂_texts hrest.forall₂_texts

theorem ReplacesFields.forall₂_texts {underTag : Bool} : {fields fields' : List (Yaml × Yaml)} →
    ReplacesFields R underTag fields fields' →
      List.Forall₂ R (fieldTexts underTag fields) ((fieldTexts underTag fields').map ValueText.text)
  | [], _, .nil _ => .nil
  | _ :: _, _, .cons _ hfirst hrest => by
    rw [fieldTexts, fieldTexts, List.map_append]
    exact List.rel_append hfirst.forall₂_texts hrest.forall₂_texts

end

mutual

/-- Only what the texts of the value are related to matters. -/
theorem ReplacesBelow.imp {R' : ValueText → String → Prop} {underTag : Bool} : {v w : Yaml} →
    ReplacesBelow R underTag v w → (∀ p ∈ v.textsBelow underTag, ∀ t, R p t → R' p t) →
      ReplacesBelow R' underTag v w
  | .null, _, .null _, _ => .null _
  | .bool _, _, .bool .., _ => .bool ..
  | .integer _, _, .integer .., _ => .integer ..
  | .float _, _, .float .., _ => .float ..
  | .string _, _, .string htext, himp => .string (himp _ List.mem_cons_self _ htext)
  | .sequence _, _, .sequence hitems, himp => .sequence (hitems.imp himp)
  | .mapping _, _, .mapping hfields, himp => .mapping (hfields.imp himp)
  | .tagged .., _, .tagged tag hcontent, himp => .tagged tag (hcontent.imp himp)

theorem ReplacesItems.imp {R' : ValueText → String → Prop} {underTag : Bool} :
    {items items' : List Yaml} → ReplacesItems R underTag items items' →
      (∀ p ∈ itemTexts underTag items, ∀ t, R p t → R' p t) →
      ReplacesItems R' underTag items items'
  | [], _, .nil _, _ => .nil _
  | _ :: _, _, .cons hfirst hrest, himp => by
    rw [itemTexts, List.forall_mem_append] at himp
    exact .cons (hfirst.imp himp.1) (hrest.imp himp.2)

theorem ReplacesFields.imp {R' : ValueText → String → Prop} {underTag : Bool} :
    {fields fields' : List (Yaml × Yaml)} → ReplacesFields R underTag fields fields' →
      (∀ p ∈ fieldTexts underTag fields, ∀ t, R p t → R' p t) →
      ReplacesFields R' underTag fields fields'
  | [], _, .nil _, _ => .nil _
  | _ :: _, _, .cons key hfirst hrest, himp => by
    rw [fieldTexts, List.forall_mem_append] at himp
    exact .cons key (hfirst.imp himp.1) (hrest.imp himp.2)

end

mutual

/-- Nothing changes under a tag where every text there is replaced by itself. -/
theorem replacesBelow_true_iff (hsame : ∀ s t, R ⟨s, true⟩ t ↔ t = s) : (v : Yaml) → {w : Yaml} →
    (ReplacesBelow R true v w ↔ w = v)
  | .null, _ => replacesBelow_null
  | .bool _, _ => replacesBelow_bool
  | .integer _, _ => replacesBelow_integer
  | .float _, _ => replacesBelow_float
  | .string s, _ => by simp [replacesBelow_string, hsame]
  | .sequence items, _ => by
    simp [replacesBelow_sequence, replacesItems_true_iff hsame items]
  | .mapping fields, _ => by
    simp [replacesBelow_mapping, replacesFields_true_iff hsame fields]
  | .tagged _ content, _ => by
    simp [replacesBelow_tagged, replacesBelow_true_iff hsame content]

theorem replacesItems_true_iff (hsame : ∀ s t, R ⟨s, true⟩ t ↔ t = s) : (items : List Yaml) →
    {items' : List Yaml} → (ReplacesItems R true items items' ↔ items' = items)
  | [], _ => replacesItems_nil
  | v :: rest, _ => by
    simp [replacesItems_cons, replacesBelow_true_iff hsame v, replacesItems_true_iff hsame rest]

theorem replacesFields_true_iff (hsame : ∀ s t, R ⟨s, true⟩ t ↔ t = s) :
    (fields : List (Yaml × Yaml)) → {fields' : List (Yaml × Yaml)} →
    (ReplacesFields R true fields fields' ↔ fields' = fields)
  | [], _ => replacesFields_nil
  | (_, v) :: rest, _ => by
    simp [replacesFields_cons, replacesBelow_true_iff hsame v, replacesFields_true_iff hsame rest]

end

/-- Two ways to replace texts that give the same value agree on each text. -/
theorem Replaces.exists_and {R' : ValueText → String → Prop} {v w : Yaml} (h : v.Replaces R w)
    (h' : v.Replaces R' w) {p : ValueText} (hp : p ∈ v.texts) : ∃ t, R p t ∧ R' p t := by
  have hboth : ∀ {ps : List ValueText} {ts : List String}, List.Forall₂ R ps ts →
      List.Forall₂ R' ps ts → ∀ p ∈ ps, ∃ t, R p t ∧ R' p t := by
    intro ps ts hps hps'
    induction hps with
    | nil => simp
    | cons hfirst _ ih =>
      cases hps' with
      | cons hfirst' hrest' =>
        rw [List.forall_mem_cons]
        exact ⟨⟨_, hfirst, hfirst'⟩, ih hrest'⟩
  exact hboth h.forall₂_texts h'.forall₂_texts p hp

end

mutual

/-- All texts of a value under a tag are under a tag. -/
theorem underTag_of_mem_textsBelow {p : ValueText} : (v : Yaml) → p ∈ v.textsBelow true →
    p.underTag = true
  | .null, hp | .bool _, hp | .integer _, hp | .float _, hp => absurd hp List.not_mem_nil
  | .string _, hp => List.mem_singleton.1 hp ▸ rfl
  | .sequence items, hp => underTag_of_mem_itemTexts items hp
  | .mapping fields, hp => underTag_of_mem_fieldTexts fields hp
  | .tagged _ content, hp => underTag_of_mem_textsBelow content hp

theorem underTag_of_mem_itemTexts {p : ValueText} : (items : List Yaml) →
    p ∈ itemTexts true items → p.underTag = true
  | [], hp => absurd hp List.not_mem_nil
  | v :: rest, hp => by
    rw [itemTexts, List.mem_append] at hp
    exact hp.elim (underTag_of_mem_textsBelow v) (underTag_of_mem_itemTexts rest)

theorem underTag_of_mem_fieldTexts {p : ValueText} : (fields : List (Yaml × Yaml)) →
    p ∈ fieldTexts true fields → p.underTag = true
  | [], hp => absurd hp List.not_mem_nil
  | (_, v) :: rest, hp => by
    rw [fieldTexts, List.mem_append] at hp
    exact hp.elim (underTag_of_mem_textsBelow v) (underTag_of_mem_fieldTexts rest)

end

end Yaml

/-! ### Expanding texts -/

namespace Config

open Yaml

variable {lookup : String → Option String}

/-- The text is what a text expands to, whatever stands above it. -/
def Expands (lookup : String → Option String) (p : ValueText) (t : String) : Prop :=
  expand lookup p.text = .ok t

/-- The text is what a text expands to that no tag stands above; under a tag it is the text
    itself. -/
def ExpandsOpen (lookup : String → Option String) (p : ValueText) (t : String) : Prop :=
  if p.underTag then t = p.text else expand lookup p.text = .ok t

mutual

/-- What expansion gives is the same tree with the texts expanded that no tag stands above. -/
theorem expandTexts_eq_ok_iff : (v : Yaml) → {w : Yaml} →
    (expandTexts lookup v = .ok w ↔ ReplacesBelow (ExpandsOpen lookup) false v w)
  | .null, _ | .bool _, _ | .integer _, _ | .float _, _ => by
    simp [expandTexts, replacesBelow_null, replacesBelow_bool, replacesBelow_integer,
      replacesBelow_float, eq_comm]
  | .string s, _ => by
    rw [expandTexts, replacesBelow_string]
    cases hs : expand lookup s with
    | error e => simp [ExpandsOpen, hs, Except.map, Except.mapError]
    | ok t => simp [ExpandsOpen, hs, Except.map, Except.mapError, eq_comm]
  | .sequence items, w => by
    rw [expandTexts, replacesBelow_sequence]
    simp only [← expandItems_eq_ok_iff items]
    cases expandItems lookup items <;> simp [Except.map, eq_comm]
  | .mapping fields, w => by
    rw [expandTexts, replacesBelow_mapping]
    simp only [← expandFields_eq_ok_iff fields]
    cases expandFields lookup fields <;> simp [Except.map, eq_comm]
  | .tagged tag content, w => by
    have hsame : ∀ s t, ExpandsOpen lookup ⟨s, true⟩ t ↔ t = s := fun _ _ => Iff.rfl
    simp [expandTexts, replacesBelow_tagged, replacesBelow_true_iff hsame, eq_comm]

theorem expandItems_eq_ok_iff : (items : List Yaml) → {items' : List Yaml} →
    (expandItems lookup items = .ok items' ↔ ReplacesItems (ExpandsOpen lookup) false items items')
  | [], _ => by
    simp [expandItems, replacesItems_nil, eq_comm]
  | v :: rest, _ => by
    rw [expandItems, replacesItems_cons]
    simp only [← expandTexts_eq_ok_iff v, ← expandItems_eq_ok_iff rest]
    cases expandTexts lookup v <;> cases expandItems lookup rest <;>
      simp [bind, Except.bind, pure, Except.pure, eq_comm]

theorem expandFields_eq_ok_iff : (fields : List (Yaml × Yaml)) → {fields' : List (Yaml × Yaml)} →
    (expandFields lookup fields = .ok fields' ↔
      ReplacesFields (ExpandsOpen lookup) false fields fields')
  | [], _ => by
    simp [expandFields, replacesFields_nil, eq_comm]
  | (key, v) :: rest, _ => by
    rw [expandFields, replacesFields_cons]
    simp only [← expandTexts_eq_ok_iff v, ← expandFields_eq_ok_iff rest]
    cases expandTexts lookup v <;> cases expandFields lookup rest <;>
      simp [bind, Except.bind, pure, Except.pure, eq_comm]

end

/-- Why a text cannot be expanded.  Nothing is wrong with a text under a tag. -/
def fault? (lookup : String → Option String) (p : ValueText) : Option ReadError :=
  if p.underTag then none
  else
    match expand lookup p.text with
    | .ok _ => none
    | .error cause => some (.reference p.text cause)

theorem fault?_eq_some_iff {p : ValueText} {e : ReadError} : fault? lookup p = some e ↔
    p.underTag = false ∧ ∃ cause, expand lookup p.text = .error cause ∧
      e = .reference p.text cause := by
  rw [fault?]
  cases p.underTag with
  | true => simp
  | false => cases expand lookup p.text <;> simp [eq_comm]

theorem fault?_eq_none_iff {p : ValueText} : fault? lookup p = none ↔
    (p.underTag = false → ∃ t, expand lookup p.text = .ok t) := by
  rw [fault?]
  cases p.underTag with
  | true => simp
  | false => cases expand lookup p.text <;> simp

/-- A text without a fault is one that is replaced by something. -/
theorem exists_expandsOpen_iff {p : ValueText} :
    (∃ t, ExpandsOpen lookup p t) ↔ fault? lookup p = none := by
  rw [fault?_eq_none_iff]
  simp only [ExpandsOpen]
  cases p.underTag <;> simp

/-- A value is expanded just when no text in it has a fault. -/
theorem findSome?_fault?_eq_none_iff {v : Yaml} :
    v.texts.findSome? (fault? lookup) = none ↔ ∃ w, expandTexts lookup v = .ok w := by
  simp only [expandTexts_eq_ok_iff, exists_replacesBelow_iff, exists_expandsOpen_iff,
    List.findSome?_eq_none_iff, texts]

mutual

/-- Expansion stops at the first text that cannot be expanded. -/
theorem expandTexts_eq_error_iff : (v : Yaml) → {e : ReadError} →
    (expandTexts lookup v = .error e ↔ (v.textsBelow false).findSome? (fault? lookup) = some e)
  | .null, _ | .bool _, _ | .integer _, _ | .float _, _ => by
    simp [expandTexts, textsBelow]
  | .string s, _ => by
    simp only [expandTexts, textsBelow, List.findSome?_singleton, fault?]
    cases expand lookup s <;> simp [Except.map, Except.mapError]
  | .sequence items, _ => by
    rw [expandTexts, textsBelow, ← expandItems_eq_error_iff items]
    cases expandItems lookup items <;> simp [Except.map]
  | .mapping fields, _ => by
    rw [expandTexts, textsBelow, ← expandFields_eq_error_iff fields]
    cases expandFields lookup fields <;> simp [Except.map]
  | .tagged _ content, _ => by
    have hnone : (content.textsBelow true).findSome? (fault? lookup) = none := by
      rw [List.findSome?_eq_none_iff]
      intro p hp
      simp [fault?, underTag_of_mem_textsBelow content hp]
    simp [expandTexts, textsBelow, hnone]

theorem expandItems_eq_error_iff : (items : List Yaml) → {e : ReadError} →
    (expandItems lookup items = .error e ↔
      (itemTexts false items).findSome? (fault? lookup) = some e)
  | [], _ => by
    simp [expandItems, itemTexts]
  | v :: rest, e => by
    rw [expandItems, itemTexts, List.findSome?_append, Option.or_eq_some_iff, ← texts,
      findSome?_fault?_eq_none_iff, texts, ← expandTexts_eq_error_iff v,
      ← expandItems_eq_error_iff rest]
    cases expandTexts lookup v <;> cases expandItems lookup rest <;>
      simp [bind, Except.bind, pure, Except.pure]

theorem expandFields_eq_error_iff : (fields : List (Yaml × Yaml)) → {e : ReadError} →
    (expandFields lookup fields = .error e ↔
      (fieldTexts false fields).findSome? (fault? lookup) = some e)
  | [], _ => by
    simp [expandFields, fieldTexts]
  | (_, v) :: rest, e => by
    rw [expandFields, fieldTexts, List.findSome?_append, Option.or_eq_some_iff, ← texts,
      findSome?_fault?_eq_none_iff, texts, ← expandTexts_eq_error_iff v,
      ← expandFields_eq_error_iff rest]
    cases expandTexts lookup v <;> cases expandFields lookup rest <;>
      simp [bind, Except.bind, pure, Except.pure]

end

/-- **Which texts are expanded, and what expansion gives.**  A value is expanded just when every
    text that stands as a value without a tag above it can be.  The result is the same tree with
    these texts expanded, so all texts in it are expanded just when those under tags expand to
    themselves.  What stops it otherwise is the first text without a tag above it that cannot be
    expanded. -/
theorem expandTexts_exactly (lookup : String → Option String) (v : Yaml) :
    ((∃ w, expandTexts lookup v = .ok w) ↔
      ∀ p ∈ v.texts, p.underTag = false → ∃ t, expand lookup p.text = .ok t) ∧
    (∀ w, expandTexts lookup v = .ok w ↔ v.Replaces (ExpandsOpen lookup) w) ∧
    (∀ w, expandTexts lookup v = .ok w → (v.Replaces (Expands lookup) w ↔
      ∀ p ∈ v.texts, p.underTag = true → expand lookup p.text = .ok p.text)) ∧
    (∀ e, expandTexts lookup v = .error e ↔ ∃ before p after cause,
      v.texts = before ++ p :: after ∧ p.underTag = false ∧
        expand lookup p.text = .error cause ∧ e = .reference p.text cause ∧
        ∀ p' ∈ before, p'.underTag = false → ∃ t, expand lookup p'.text = .ok t) := by
  refine ⟨?_, fun w => expandTexts_eq_ok_iff v, fun w hw => ⟨?_, ?_⟩, ?_⟩
  · rw [← findSome?_fault?_eq_none_iff, List.findSome?_eq_none_iff]
    simp only [fault?_eq_none_iff]
  · intro hall p hp htag
    obtain ⟨t, hopen, hexpands⟩ := Replaces.exists_and ((expandTexts_eq_ok_iff v).1 hw) hall hp
    rw [ExpandsOpen, if_pos htag] at hopen
    rwa [hopen] at hexpands
  · intro htags
    refine ReplacesBelow.imp ((expandTexts_eq_ok_iff v).1 hw) ?_
    intro p hp t hopen
    by_cases htag : p.underTag = true
    · rw [ExpandsOpen, if_pos htag] at hopen
      rw [Expands, hopen]
      exact htags p hp htag
    · rwa [ExpandsOpen, if_neg htag] at hopen
  · intro e
    rw [expandTexts_eq_error_iff, List.findSome?_eq_some_iff]
    simp only [fault?_eq_some_iff, fault?_eq_none_iff]
    constructor
    · rintro ⟨before, p, after, hsplit, ⟨htag, cause, hfails, rfl⟩, hbefore⟩
      exact ⟨before, p, after, cause, hsplit, htag, hfails, rfl, hbefore⟩
    · rintro ⟨before, p, after, cause, hsplit, htag, hfails, rfl, hbefore⟩
      exact ⟨before, p, after, hsplit, ⟨htag, cause, hfails, rfl⟩, hbefore⟩

/-- A text under a tag keeps its references, though each text of the value can be expanded. -/
theorem not_replaces_of_tag :
    let lookup := fun name => if name = "FB" then some "3.0" else none
    let v := Yaml.mapping
      [(.string "server_version", .tagged "v" (.string "$\x7benv:FB\x7d"))]
    (∀ p ∈ v.texts, ∃ t, expand lookup p.text = .ok t) ∧ expandTexts lookup v = .ok v ∧
      ¬ v.Replaces (Expands lookup) v := by
  intro lookup v
  have hexpand : expand lookup "$\x7benv:FB\x7d" = .ok "3.0" := by
    decide +kernel
  have htexts : v.texts = [⟨"$\x7benv:FB\x7d", true⟩] := rfl
  have hsame : expandTexts lookup v = .ok v := rfl
  refine ⟨?_, hsame, ?_⟩
  · simp [htexts, hexpand]
  · intro hall
    obtain ⟨t, hopen, hexpands⟩ := Replaces.exists_and ((expandTexts_eq_ok_iff v).1 hsame) hall
      (p := ⟨"$\x7benv:FB\x7d", true⟩) (by simp [htexts])
    simp [Expands, ExpandsOpen, hexpand] at hopen hexpands
    simp [hopen] at hexpands

end Config

end QueryLoom
