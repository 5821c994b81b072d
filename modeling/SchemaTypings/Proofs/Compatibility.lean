import Mathlib.Data.List.Nodup
import SchemaTypings.Proofs.MergeHistory

namespace SchemaTypings

/-- Two definitions of one type: they are of one kind, and agree on the types of common fields. -/
def TypeDef.Fits (c d : TypeDef) : Prop :=
  c.kind = d.kind ∧ ∀ f ∈ c.fields, ∀ g ∈ d.fields, f.name = g.name → f.type = g.type

theorem TypeDef.fits_self (d : TypeDef) : d.Fits d := by
  refine ⟨rfl, fun f hf g hg hn => ?_⟩
  rw [List.inj_on_of_nodup_map d.nodup_fields hf hg hn]

theorem TypeDef.Fits.symm {c d : TypeDef} (h : c.Fits d) : d.Fits c :=
  ⟨h.1.symm, fun g hg f hf hn => (h.2 f hf g hg hn.symm).symm⟩

theorem TypeDef.merge_fits (c d : TypeDef) : (c.merge d).2 = none ↔ c.Fits d := by
  obtain ⟨n, description, origin, body⟩ := c
  obtain ⟨n', description', origin', body'⟩ := d
  cases hb : mergeBody n body body' with
  | none =>
    have hk : body.kind ≠ body'.kind := mergeBody_eq_none_iff.1 hb
    simp only [merge, hb, reduceCtorEq, false_iff]
    exact fun h => hk h.1
  | some m =>
    simp only [merge, hb]
    cases BodyMerge.of_mergeBody hb with
    | enum vs ws | union ms ns | scalar => simp [Fits, kind, Body.kind, fields]
    | fields c is js fs gs =>
      rw [mergeFields_fits_iff gs.nodup]
      constructor
      · refine fun h => ⟨rfl, fun f hf g hg hn => h g hg f ?_⟩
        exact (congrArg fs.get? hn).symm.trans (Table.get?_of_mem hf)
      · intro h g hg f hf
        obtain ⟨hmem, hn⟩ := Table.mem_of_get? hf
        exact h.2 f hmem g hg hn

theorem Schema.mergeDefinition_fits (s : Schema) (d : Definition) :
    (s.mergeDefinition d).2 = none ↔ ∀ c, s.getType? d.type.name = some c → c.Fits d.type := by
  cases hg : s.getType? d.type.name with
  | none => simp [mergeDefinition, hg]
  | some c =>
    have hf : c.Fits d.incoming ↔ c.Fits d.type := by
      rw [TypeDef.Fits, TypeDef.Fits, d.incoming_kind, d.incoming_fields]
    simp only [mergeDefinition, hg, TypeDef.merge_fits, hf, Option.some.injEq, forall_eq']

/-- Any two definitions of one name fit each other. -/
def Coherent (ds : List Definition) : Prop :=
  ∀ d ∈ ds, ∀ e ∈ ds, name d = name e → d.type.Fits e.type

theorem Coherent.perm {ds es : List Definition} (h : ds.Perm es) (hc : Coherent ds) :
    Coherent es := fun d hd e he =>
  hc d (h.mem_iff.2 hd) e (h.mem_iff.2 he)

theorem coherent_snoc {ds : List Definition} {d : Definition} :
    Coherent (ds ++ [d]) ↔ Coherent ds ∧ ∀ e ∈ ds, name e = name d → e.type.Fits d.type := by
  constructor
  · intro h
    have hd : d ∈ ds ++ [d] := List.mem_append_right _ (List.mem_singleton_self d)
    exact ⟨fun e he f hf => h e (List.mem_append_left _ he) f (List.mem_append_left _ hf),
      fun e he => h e (List.mem_append_left _ he) d hd⟩
  · rintro ⟨hds, hd⟩ e he f hf hn
    obtain hed | hed := List.mem_append.1 he <;> obtain hfd | hfd := List.mem_append.1 hf
    · exact hds e hed f hfd hn
    · obtain rfl := List.mem_singleton.1 hfd
      exact hd e hed hn
    · obtain rfl := List.mem_singleton.1 hed
      exact (hd f hfd hn.symm).symm
    · rw [List.mem_singleton.1 hed, List.mem_singleton.1 hfd]
      exact d.type.fits_self

theorem mem_definitionsOf {n : String} {ds : List Definition} {d : Definition} :
    d ∈ definitionsOf n ds ↔ d ∈ ds ∧ name d = n := by
  simp [definitionsOf]

theorem Coherent.fits {ds : List Definition} (hc : Coherent ds) {n : String} {first : Definition}
    {rest : List Definition} (hd : definitionsOf n ds = first :: rest) :
    ∀ d ∈ first :: rest, ∀ e ∈ first :: rest, d.type.Fits e.type := by
  intro d hdm e hem
  obtain ⟨hdm, hdn⟩ := mem_definitionsOf.1 (hd ▸ hdm)
  obtain ⟨hem, hen⟩ := mem_definitionsOf.1 (hd ▸ hem)
  exact hc d hdm e hem (hdn.trans hen.symm)

namespace MergedFrom

variable {first : Definition} {rest : List Definition} {t : TypeDef}

theorem exists_field (h : MergedFrom first rest t) {e : Definition} (he : e ∈ first :: rest)
    {f : Field} (hf : f ∈ e.type.fields) : ∃ g ∈ t.fields, g.name = f.name := by
  have hmem : name f ∈ ((first :: rest).flatMap fun e => e.type.fields).map name :=
    List.mem_map_of_mem (List.mem_flatMap.2 ⟨e, he, hf⟩)
  exact List.mem_map.1 (h.names_fields.2 hmem)

theorem exists_declaration (h : MergedFrom first rest t) {g : Field} (hg : g ∈ t.fields) :
    ∃ e ∈ first :: rest, ∃ f ∈ e.type.fields, f.name = g.name ∧ f.type = g.type := by
  obtain ⟨f, hf, hs⟩ := List.mem_map.1 (h.fields ▸ List.mem_map_of_mem hg)
  obtain ⟨e, he, hf⟩ := List.mem_flatMap.1 (mem_of_mem_unseen hf)
  obtain ⟨hn, ht⟩ := Prod.mk.inj hs
  exact ⟨e, he, f, hf, hn, congrArg Prod.fst ht⟩

theorem exists_sameType (h : MergedFrom first rest t)
    (hc : ∀ d ∈ first :: rest, ∀ e ∈ first :: rest, d.type.Fits e.type) {e : Definition}
    (he : e ∈ first :: rest) {f : Field} (hf : f ∈ e.type.fields) :
    ∃ g ∈ t.fields, g.name = f.name ∧ g.type = f.type := by
  obtain ⟨g, hg, hgn⟩ := h.exists_field he hf
  obtain ⟨d, hd, k, hk, hkn, hkt⟩ := h.exists_declaration hg
  exact ⟨g, hg, hgn, hkt.symm.trans ((hc d hd e he).2 k hk f hf (hkn.trans hgn))⟩

end MergedFrom

namespace Tracks

variable {ds : List Definition} {s : Schema}

/-- A definition fits the type of its name if it fits all definitions that the type is made of. -/
theorem fits_iff (h : Tracks ds s.types) (hc : Coherent ds) (d : Definition) :
    (s.mergeDefinition d).2 = none ↔ ∀ e ∈ ds, name e = name d → e.type.Fits d.type := by
  rw [s.mergeDefinition_fits]
  constructor
  · intro hfits e he hn
    obtain ⟨t, ht, htn⟩ := List.mem_map.1 (h.mem_names.2 (List.mem_map_of_mem he))
    have hget : s.getType? d.type.name = some t :=
      (congrArg s.types.get? (htn.trans hn).symm).trans (Table.get?_of_mem ht)
    obtain ⟨hkind, hfields⟩ := hfits t hget
    obtain ⟨first, rest, hd, hm⟩ := h.entry t ht
    have hmem : e ∈ first :: rest := hd ▸ mem_definitionsOf.2 ⟨he, htn.symm⟩
    refine ⟨(hm.kind e hmem).trans hkind, fun f hf g hg hfg => ?_⟩
    obtain ⟨k, hk, hkn, hkt⟩ := hm.exists_sameType (hc.fits hd) hmem hf
    rw [← hkt, hfields k hk g hg (hkn.trans hfg)]
  · intro hfits t hget
    obtain ⟨ht, htn⟩ := Table.mem_of_get? hget
    obtain ⟨first, rest, hd, hm⟩ := h.entry t ht
    have hdef : ∀ e ∈ first :: rest, e.type.Fits d.type := fun e he => by
      obtain ⟨he, hen⟩ := mem_definitionsOf.1 (hd ▸ he)
      exact hfits e he (hen.trans htn)
    have hfirst := List.mem_cons_self (a := first) (l := rest)
    refine ⟨(hm.kind first hfirst).symm.trans (hdef first hfirst).1, fun k hk g hg hkg => ?_⟩
    obtain ⟨e, he, k', hk', hsn, hst⟩ := hm.exists_declaration hk
    rw [← hst]
    exact (hdef e he).2 k' hk' g hg (hsn.trans hkg)

theorem mergeDefinitions_fits (h : Tracks ds s.types) (hc : Coherent ds) {es : List Definition}
    (ho : ∀ e ∈ ds ++ es, e.type.origin.isSome) :
    (s.mergeDefinitions es).2 = none ↔ Coherent (ds ++ es) := by
  induction es generalizing ds s with
  | nil => simpa [Schema.mergeDefinitions] using hc
  | cons e es ih =>
    have hstep := h.fits_iff hc e
    have happend : ds ++ e :: es = (ds ++ [e]) ++ es := by simp
    cases hm : s.mergeDefinition e with
    | mk u error =>
      rw [hm] at hstep
      cases error with
      | none =>
        have hsnoc : Coherent (ds ++ [e]) := coherent_snoc.2 ⟨hc, hstep.1 rfl⟩
        have hu := h.mergeDefinition (fun a ha => ho a (List.mem_append_left _ ha)) hm
        rw [Schema.mergeDefinitions_cons hm, happend]
        exact ih hu hsnoc (happend ▸ ho)
      | some c =>
        rw [Schema.mergeDefinitions_cons_of_error hm]
        have he : e ∈ ds ++ e :: es := List.mem_append_right _ (List.mem_cons_self ..)
        constructor
        · intro h
          cases h
        · intro hall
          exact hstep.2 fun d hd => hall d (List.mem_append_left _ hd) e he

end Tracks

theorem Schema.mergeDefinitions_fits {ds : List Definition}
    (ho : ∀ d ∈ ds, d.type.origin.isSome) :
    (empty.mergeDefinitions ds).2 = none ↔ Coherent ds :=
  Tracks.mergeDefinitions_fits (s := empty) Tracks.empty (fun _ h => absurd h List.not_mem_nil) ho

end SchemaTypings
