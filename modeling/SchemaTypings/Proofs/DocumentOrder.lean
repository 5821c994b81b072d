import SchemaTypings.Proofs.Compatibility
import SchemaTypings.Proofs.Concatenation
import SchemaTypings.Proofs.SchemaRules

namespace SchemaTypings

theorem nodup_names_addNew {α : Type} [Named α] {l r : List α} :
    ((addNew l r).map name).Nodup ↔ (l.map name).Nodup := by
  rw [addNew_eq, List.map_append, List.nodup_append]
  constructor
  · exact fun h => h.1
  · refine fun h => ⟨h, nodup_names_unseen _ r, fun n hn m hm he => ?_⟩
    exact (mem_names_unseen.1 hm).2 (he ▸ hn)

/-- What the rules ask of definitions in any order. -/
structure Complete (ds : List Definition) : Prop where
  values : ∀ d ∈ ds, d.type.kind = .enum → ∃ e ∈ ds, name e = name d ∧ e.type.values ≠ []
  members : ∀ d ∈ ds, d.type.kind = .union → ∃ e ∈ ds, name e = name d ∧ e.type.members ≠ []
  known : ∀ d ∈ ds, (∀ n ∈ d.type.members, Known ds n) ∧ (∀ n ∈ d.type.implements, Known ds n) ∧
    ∀ f ∈ d.type.fields, Known ds f.type.baseName

/-- What the rules ask of the first definition of a name, which must not repeat an enum value, and of
the first declaration of a field, whose arguments must be of known types. -/
structure FirstsSound (ds : List Definition) : Prop where
  values : ∀ n first rest, definitionsOf n ds = first :: rest →
    (first.type.values.map EnumValue.name).Nodup
  arguments : ∀ n, ∀ f ∈ firstSeen ((definitionsOf n ds).flatMap fun d => d.type.fields),
    ∀ a ∈ f.arguments, Known ds a.type.baseName

structure KeptBy (known : String → Prop) (first : Definition) (rest : List Definition) :
    Prop where
  values : first.type.kind = .enum → ∃ e ∈ first :: rest, e.type.values ≠ []
  distinct : (first.type.values.map EnumValue.name).Nodup
  members : first.type.kind = .union → ∃ e ∈ first :: rest, e.type.members ≠ []
  references : ∀ e ∈ first :: rest, (∀ n ∈ e.type.members, known n) ∧
    (∀ n ∈ e.type.implements, known n) ∧ ∀ f ∈ e.type.fields, known f.type.baseName
  arguments : ∀ f ∈ firstSeen ((first :: rest).flatMap fun e => e.type.fields),
    ∀ a ∈ f.arguments, known a.type.baseName

section Merged

variable {α : Type} [Named α] (f : Definition → List α) {first : Definition}
  {rest : List Definition}

theorem mem_names_merged {n : String} :
    n ∈ (addNew (f first) (rest.flatMap f)).map name ↔ ∃ e ∈ first :: rest, n ∈ (f e).map name := by
  rw [mem_names_addNew, List.map_flatMap, List.mem_flatMap]
  simp only [List.mem_cons, or_and_right, exists_or, exists_eq_left]

theorem merged_ne_nil :
    addNew (f first) (rest.flatMap f) ≠ [] ↔ ∃ e ∈ first :: rest, f e ≠ [] := by
  have hn : ∀ l : List α, l ≠ [] ↔ ∃ n, n ∈ l.map name := fun l => by
    cases l <;> simp
  simp only [hn, mem_names_merged]
  exact ⟨fun ⟨n, e, he, hm⟩ => ⟨e, he, n, hm⟩, fun ⟨e, he, n, hm⟩ => ⟨n, e, he, hm⟩⟩

end Merged

theorem mem_strings_merged (f : Definition → List String) {first : Definition}
    {rest : List Definition} {n : String} :
    n ∈ addNew (f first) (rest.flatMap f) ↔ ∃ e ∈ first :: rest, n ∈ f e := by
  have h : n ∈ (addNew (f first) (rest.flatMap f)).map name ↔ _ := mem_names_merged f
  simpa only [names_strings] using h

namespace MergedFrom

variable {first : Definition} {rest : List Definition} {t : TypeDef} {known : String → Prop}

theorem forall_fieldTypes (h : MergedFrom first rest t)
    (hc : ∀ d ∈ first :: rest, ∀ e ∈ first :: rest, d.type.Fits e.type) (P : TypeRef → Prop) :
    (∀ f ∈ t.fields, P f.type) ↔ ∀ e ∈ first :: rest, ∀ f ∈ e.type.fields, P f.type := by
  constructor
  · intro ht e he f hf
    obtain ⟨g, hg, -, hgt⟩ := h.exists_sameType hc he hf
    exact hgt ▸ ht g hg
  · intro he g hg
    obtain ⟨e, hmem, f, hf, -, hft⟩ := h.exists_declaration hg
    exact hft ▸ he e hmem f hf

theorem forall_arguments (h : MergedFrom first rest t) (P : Argument → Prop) :
    (∀ f ∈ t.fields, ∀ a ∈ f.arguments, P a) ↔
      ∀ f ∈ firstSeen ((first :: rest).flatMap fun e => e.type.fields), ∀ a ∈ f.arguments, P a := by
  have hs : ∀ l : List Field, (∀ f ∈ l, ∀ a ∈ f.arguments, P a) ↔
      ∀ x ∈ l.map Field.signature, ∀ a ∈ x.2.2, P a := fun l => by
    rw [List.forall_mem_map]
    rfl
  rw [hs, hs, h.fields]

theorem forall_references (h : MergedFrom first rest t)
    (hc : ∀ d ∈ first :: rest, ∀ e ∈ first :: rest, d.type.Fits e.type) :
    (∀ r ∈ t.references, known r.target) ↔
      (∀ e ∈ first :: rest, (∀ n ∈ e.type.members, known n) ∧
        (∀ n ∈ e.type.implements, known n) ∧ ∀ f ∈ e.type.fields, known f.type.baseName) ∧
      ∀ f ∈ firstSeen ((first :: rest).flatMap fun e => e.type.fields), ∀ a ∈ f.arguments,
        known a.type.baseName := by
  have hmembers : ∀ n, n ∈ t.members ↔ ∃ e ∈ first :: rest, n ∈ e.type.members := fun n => by
    rw [h.members, ← addNew_strings]
    exact mem_strings_merged fun e => e.type.members
  have himplements : ∀ n, n ∈ t.implements ↔ ∃ e ∈ first :: rest, n ∈ e.type.implements :=
    fun n => by
      rw [h.implements, ← addNew_strings]
      exact mem_strings_merged fun e => e.type.implements
  have htypes := h.forall_fieldTypes hc fun r => known r.baseName
  have harguments := h.forall_arguments fun a => known a.type.baseName
  rw [TypeDef.forall_references_iff, ← harguments]
  constructor
  · rintro ⟨hm, hi, hf⟩
    refine ⟨fun e he => ⟨fun n hn => ?_, fun n hn => ?_, ?_⟩, fun f hmem => (hf f hmem).2⟩
    · exact hm n ((hmembers n).2 ⟨e, he, hn⟩)
    · exact hi n ((himplements n).2 ⟨e, he, hn⟩)
    · exact htypes.1 (fun f hmem => (hf f hmem).1) e he
  · rintro ⟨he, ha⟩
    refine ⟨fun n hn => ?_, fun n hn => ?_, fun f hf => ⟨?_, ha f hf⟩⟩
    · obtain ⟨e, hmem, hn⟩ := (hmembers n).1 hn
      exact (he e hmem).1 n hn
    · obtain ⟨e, hmem, hn⟩ := (himplements n).1 hn
      exact (he e hmem).2.1 n hn
    · exact htypes.2 (fun e hmem => (he e hmem).2.2) f hf

theorem keeps_iff (h : MergedFrom first rest t)
    (hc : ∀ d ∈ first :: rest, ∀ e ∈ first :: rest, d.type.Fits e.type) :
    t.Keeps known ↔ KeptBy known first rest := by
  have hkind : first.type.kind = t.kind := h.kind first (List.mem_cons_self ..)
  have hvalues : t.values ≠ [] ↔ ∃ e ∈ first :: rest, e.type.values ≠ [] := by
    rw [h.values, ← addNew_eq]
    exact merged_ne_nil fun e => e.type.values
  have hdistinct : (t.values.map EnumValue.name).Nodup ↔
      (first.type.values.map EnumValue.name).Nodup := by
    rw [h.values, ← addNew_eq]
    exact nodup_names_addNew
  have hmembers : t.members ≠ [] ↔ ∃ e ∈ first :: rest, e.type.members ≠ [] := by
    rw [h.members, ← addNew_strings]
    exact merged_ne_nil fun e => e.type.members
  constructor
  · intro hk
    obtain ⟨hknown, harguments⟩ := (h.forall_references hc).1 hk.references
    exact ⟨fun he => hvalues.1 (hk.hasValues (hkind ▸ he)), hdistinct.1 hk.distinct,
      fun hu => hmembers.1 (hk.hasMembers (hkind ▸ hu)), hknown, harguments⟩
  · intro hk
    exact ⟨fun he => hvalues.2 (hk.values (hkind.trans he)), hdistinct.2 hk.distinct,
      fun hu => hmembers.2 (hk.members (hkind.trans hu)),
      (h.forall_references hc).2 ⟨hk.references, hk.arguments⟩⟩

end MergedFrom

namespace Tracks

variable {ds : List Definition} {s : Schema}

theorem exists_type (h : Tracks ds s.types) {n : String} {first : Definition}
    {rest : List Definition} (hd : definitionsOf n ds = first :: rest) :
    ∃ t ∈ s.types.toList, t.name = n ∧ MergedFrom first rest t := by
  have hf : first ∈ definitionsOf n ds := hd ▸ List.mem_cons_self ..
  obtain ⟨hmem, hn⟩ := mem_definitionsOf.1 hf
  obtain ⟨t, ht, htn⟩ := List.mem_map.1 (h.mem_names.2 (List.mem_map_of_mem hmem))
  have htn : t.name = n := htn.trans hn
  obtain ⟨first', rest', hd', hm⟩ := h.entry t ht
  rw [htn, hd] at hd'
  obtain ⟨rfl, rfl⟩ := List.cons.inj hd'
  exact ⟨t, ht, htn, hm⟩

theorem forall_keeps_iff (h : Tracks ds s.types) (hc : Coherent ds) {known : String → Prop} :
    (∀ t ∈ s.types.toList, t.Keeps known) ↔
      ∀ n first rest, definitionsOf n ds = first :: rest → KeptBy known first rest := by
  constructor
  · intro hk n first rest hd
    obtain ⟨t, ht, -, hm⟩ := h.exists_type hd
    exact (hm.keeps_iff (hc.fits hd)).1 (hk t ht)
  · intro hk t ht
    obtain ⟨first, rest, hd, hm⟩ := h.entry t ht
    exact (hm.keeps_iff (hc.fits hd)).2 (hk t.name first rest hd)

end Tracks

theorem exists_definitionsOf {ds : List Definition} {d : Definition} (hd : d ∈ ds) :
    ∃ first rest, definitionsOf (name d) ds = first :: rest ∧ d ∈ first :: rest := by
  have hmem : d ∈ definitionsOf (name d) ds := mem_definitionsOf.2 ⟨hd, rfl⟩
  obtain ⟨first, rest, he⟩ := List.exists_cons_of_ne_nil (List.ne_nil_of_mem hmem)
  exact ⟨first, rest, he, he ▸ hmem⟩

theorem forall_keptBy_iff {ds : List Definition} (hc : Coherent ds) :
    (∀ n first rest, definitionsOf n ds = first :: rest → KeptBy (Known ds) first rest) ↔
      Complete ds ∧ FirstsSound ds := by
  have hmem : ∀ {n first rest}, definitionsOf n ds = first :: rest →
      ∀ e, e ∈ first :: rest ↔ e ∈ ds ∧ name e = n := fun hd e => by
    rw [← hd, mem_definitionsOf]
  have hkind : ∀ {n first rest}, definitionsOf n ds = first :: rest →
      ∀ e ∈ first :: rest, first.type.kind = e.type.kind := fun hd e he =>
    (hc.fits hd _ (List.mem_cons_self ..) e he).1
  constructor
  · intro hk
    have hof : ∀ d ∈ ds, ∃ first rest, KeptBy (Known ds) first rest ∧ d ∈ first :: rest ∧
        first.type.kind = d.type.kind ∧ ∀ e ∈ first :: rest, e ∈ ds ∧ name e = name d := by
      intro d hd
      obtain ⟨first, rest, hdefs, hin⟩ := exists_definitionsOf hd
      exact ⟨first, rest, hk _ _ _ hdefs, hin, hkind hdefs d hin,
        fun e he => (hmem hdefs e).1 he⟩
    refine ⟨⟨fun d hd hd' => ?_, fun d hd hd' => ?_, fun d hd => ?_⟩,
      ⟨fun n first rest hd => (hk n first rest hd).distinct, fun n f hf => ?_⟩⟩
    · obtain ⟨first, rest, hkept, -, hdk, hdefs⟩ := hof d hd
      obtain ⟨e, he, hne⟩ := hkept.values (hdk.trans hd')
      exact ⟨e, (hdefs e he).1, (hdefs e he).2, hne⟩
    · obtain ⟨first, rest, hkept, -, hdk, hdefs⟩ := hof d hd
      obtain ⟨e, he, hne⟩ := hkept.members (hdk.trans hd')
      exact ⟨e, (hdefs e he).1, (hdefs e he).2, hne⟩
    · obtain ⟨first, rest, hkept, hin, -⟩ := hof d hd
      exact hkept.references d hin
    · cases hd : definitionsOf n ds with
      | nil => simp [hd, firstSeen, unseen] at hf
      | cons first rest => exact (hk n first rest hd).arguments f (hd ▸ hf)
  · rintro ⟨hcomplete, hfirsts⟩ n first rest hd
    have hfirst := List.mem_cons_self (a := first) (l := rest)
    obtain ⟨hin, hn⟩ := (hmem hd first).1 hfirst
    refine ⟨fun hk => ?_, hfirsts.values n first rest hd, fun hk => ?_,
      fun e he => hcomplete.known e ((hmem hd e).1 he).1,
      fun f hf => hfirsts.arguments n f (hd ▸ hf)⟩
    · obtain ⟨e, he, hen, hne⟩ := hcomplete.values first hin hk
      exact ⟨e, (hmem hd e).2 ⟨he, hen.trans hn⟩, hne⟩
    · obtain ⟨e, he, hen, hne⟩ := hcomplete.members first hin hk
      exact ⟨e, (hmem hd e).2 ⟨he, hen.trans hn⟩, hne⟩

def Accepted (docs : List SourceText) : Prop :=
  ∃ s t, Schema.ofTexts docs = .ok s ∧ s.build = .ok t

instance (docs : List SourceText) : Decidable (Accepted docs) :=
  match hs : Schema.ofTexts docs with
  | .error e => isFalse fun ⟨s, t, h, _⟩ => by
    rw [hs] at h
    cases h
  | .ok s =>
    match ht : s.build with
    | .ok t => isTrue ⟨s, t, hs, ht⟩
    | .error e => isFalse fun ⟨s', t, h, hb⟩ => by
      obtain rfl := Except.ok.inj (hs.symm.trans h)
      rw [ht] at hb
      cases hb

/-- Only the soundness of what comes first depends on the order of the documents. -/
theorem accepted_iff {docs : List SourceText} :
    Accepted docs ↔ (∀ d ∈ docs, d.IsDocument) ∧
      Coherent (docs.flatMap SourceText.definitions) ∧
      Complete (docs.flatMap SourceText.definitions) ∧
      FirstsSound (docs.flatMap SourceText.definitions) := by
  by_cases hdocs : ∀ d ∈ docs, d.IsDocument
  · have hfits := Schema.mergeDefinitions_fits (SourceText.origin_flatMap_definitions docs)
    have hof := Schema.ofTexts_eq hdocs
    rw [and_iff_right hdocs]
    cases hm : Schema.empty.mergeDefinitions (docs.flatMap SourceText.definitions) with
    | mk m error =>
      rw [hm] at hfits hof
      cases error with
      | some e =>
        have hc : ¬ Coherent (docs.flatMap SourceText.definitions) := fun hc => by
          cases hfits.2 hc
        exact ⟨fun ⟨s, t, hs, _⟩ => (by cases hof.symm.trans hs), fun h => absurd h.1 hc⟩
      | none =>
        have hc := hfits.1 rfl
        obtain ⟨s, hs⟩ : ∃ s, Schema.ofTexts docs = .ok s := ⟨_, hof⟩
        obtain ⟨ht, -⟩ := Schema.ofTexts_tracks hs
        have hbuild := Schema.build_isOk_iff (s := s)
        simp only [Schema.mem_names_withBuiltins ht, ht.forall_keeps_iff hc,
          forall_keptBy_iff hc] at hbuild
        rw [and_iff_right hc, ← hbuild]
        constructor
        · rintro ⟨s', t, hs', hb⟩
          obtain rfl := Except.ok.inj (hs.symm.trans hs')
          exact ⟨t, hb⟩
        · exact fun ⟨t, hb⟩ => ⟨s, t, hs, hb⟩
  · refine ⟨fun ⟨s, t, hs, _⟩ => absurd ?_ hdocs, fun h => absurd h.1 hdocs⟩
    exact Schema.isDocument_of_foldlM hs

section Permuted

variable {ds es : List Definition}

theorem Known.perm (h : ds.Perm es) (n : String) : Known ds n ↔ Known es n :=
  or_congr (h.map name).mem_iff Iff.rfl

theorem Complete.perm (h : ds.Perm es) (hc : Complete ds) : Complete es := by
  refine ⟨fun d hd hk => ?_, fun d hd hk => ?_, fun d hd => ?_⟩
  · obtain ⟨e, he, hvalues⟩ := hc.values d (h.mem_iff.2 hd) hk
    exact ⟨e, h.mem_iff.1 he, hvalues⟩
  · obtain ⟨e, he, hmembers⟩ := hc.members d (h.mem_iff.2 hd) hk
    exact ⟨e, h.mem_iff.1 he, hmembers⟩
  · simpa only [Known.perm h] using hc.known d (h.mem_iff.2 hd)

theorem firstsSound_of_all (hv : ∀ d ∈ ds, (d.type.values.map EnumValue.name).Nodup)
    (ha : ∀ d ∈ ds, ∀ f ∈ d.type.fields, ∀ a ∈ f.arguments, Known ds a.type.baseName) :
    FirstsSound ds := by
  refine ⟨fun n first rest hd => ?_, fun n f hf => ?_⟩
  · have hfirst : first ∈ definitionsOf n ds := hd ▸ List.mem_cons_self ..
    exact hv first (mem_definitionsOf.1 hfirst).1
  · obtain ⟨d, hd, hf⟩ := List.mem_flatMap.1 (mem_of_mem_unseen hf)
    exact ha d (mem_definitionsOf.1 hd).1 f hf

end Permuted

/-- Documents that are accepted in one order are accepted in another if there, too, no first
definition of an enum repeats a value and no first declaration of a field has an argument of an
unknown type. If no definition does so, the order plays no part. -/
theorem accepted_of_perm {docs docs' : List SourceText} (h : docs.Perm docs') :
    (Accepted docs → FirstsSound (docs.flatMap SourceText.definitions) ∧
      (Accepted docs' ↔ FirstsSound (docs'.flatMap SourceText.definitions))) ∧
    ((∀ d ∈ docs.flatMap SourceText.definitions, (d.type.values.map EnumValue.name).Nodup) →
      (∀ d ∈ docs.flatMap SourceText.definitions, ∀ f ∈ d.type.fields, ∀ a ∈ f.arguments,
        Known (docs.flatMap SourceText.definitions) a.type.baseName) →
      (Accepted docs ↔ Accepted docs')) := by
  have hperm := h.flatMap_right SourceText.definitions
  have hshared : ∀ {l l' : List SourceText}, l.Perm l' → Accepted l →
      FirstsSound (l'.flatMap SourceText.definitions) → Accepted l' := by
    intro l l' hl ha hf
    obtain ⟨hdocs, hcoherent, hcomplete, -⟩ := accepted_iff.1 ha
    have hp := hl.flatMap_right SourceText.definitions
    exact accepted_iff.2 ⟨fun d hd => hdocs d (hl.mem_iff.2 hd), hcoherent.perm hp,
      hcomplete.perm hp, hf⟩
  have hfirsts : ∀ {l : List SourceText}, Accepted l →
      FirstsSound (l.flatMap SourceText.definitions) := fun ha => (accepted_iff.1 ha).2.2.2
  refine ⟨fun ha => ⟨hfirsts ha, hfirsts, hshared h ha⟩, fun hv hknown => ⟨fun ha => ?_, ?_⟩⟩
  · refine hshared h ha (firstsSound_of_all (fun d hd => hv d (hperm.mem_iff.2 hd)) ?_)
    simpa only [← hperm.mem_iff, ← Known.perm hperm] using hknown
  · exact fun ha => hshared h.symm ha (firstsSound_of_all hv hknown)

def enumInParts : List SourceText := [
  ("extend enum E { B }", some "a"),
  ("type T { f(a: E!): Int }", some "b"),
  ("enum E { A }", some "c")]

theorem accepted_enumInParts :
    enumInParts.Perm enumInParts.reverse ∧ Accepted enumInParts ∧
      FirstsSound (enumInParts.flatMap SourceText.definitions) ∧ Accepted enumInParts.reverse := by
  have hp := (List.reverse_perm enumInParts).symm
  have hc : Accepted enumInParts ∧
      (∀ d ∈ enumInParts.flatMap SourceText.definitions,
        (d.type.values.map EnumValue.name).Nodup) ∧
      ∀ d ∈ enumInParts.flatMap SourceText.definitions, ∀ f ∈ d.type.fields, ∀ a ∈ f.arguments,
        Known (enumInParts.flatMap SourceText.definitions) a.type.baseName := by
    decide +kernel
  obtain ⟨ha, hvalues, harguments⟩ := hc
  obtain ⟨hfirsts, hall⟩ := accepted_of_perm hp
  exact ⟨hp, ha, (hfirsts ha).1, (hall hvalues harguments).1 ha⟩

/-- Merging leaves out a repeated value, and the arguments of a field that is already there, before
they are looked at. -/
def repeatedValue : List SourceText := [("enum E { A }", none), ("enum E { B B }", none)]

def unknownArgument : List SourceText := [
  ("type T { f: Int }", none), ("type T { f(a: Missing): Int }", none)]

theorem accepted_only_in_order :
    (∀ d ∈ repeatedValue ++ unknownArgument, d.definitions.length = 1) ∧
      (repeatedValue.Perm repeatedValue.reverse ∧
        Accepted repeatedValue ∧ ¬ Accepted repeatedValue.reverse) ∧
      (unknownArgument.Perm unknownArgument.reverse ∧
        Accepted unknownArgument ∧ ¬ Accepted unknownArgument.reverse) := by
  have hone : ∀ d ∈ repeatedValue ++ unknownArgument, d.definitions.length = 1 := by
    decide +kernel
  have hvalue : Accepted repeatedValue ∧ ¬ Accepted repeatedValue.reverse := by decide +kernel
  have hargument : Accepted unknownArgument ∧ ¬ Accepted unknownArgument.reverse := by
    decide +kernel
  exact ⟨hone, ⟨(List.reverse_perm _).symm, hvalue⟩, (List.reverse_perm _).symm, hargument⟩

end SchemaTypings
