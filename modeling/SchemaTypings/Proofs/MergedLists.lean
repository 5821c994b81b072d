import SchemaTypings.Proofs.RepeatedDocuments
import SchemaTypings.Proofs.TypeIndependence

namespace SchemaTypings

/-- The entries of `m` are those of `l` and, behind them, others, all different. -/
def Extends (l m : List String) : Prop :=
  ∃ added, m = l ++ added ∧ added.Nodup ∧ ∀ n ∈ added, n ∉ l

namespace Extends

variable {l m k : List String}

theorem refl (l : List String) : Extends l l :=
  ⟨[], (List.append_nil l).symm, List.nodup_nil, List.forall_mem_nil _⟩

theorem trans (h : Extends l m) (h' : Extends m k) : Extends l k := by
  obtain ⟨added, rfl, hd, hnew⟩ := h
  obtain ⟨added', rfl, hd', hnew'⟩ := h'
  refine ⟨added ++ added', List.append_assoc .., ?_, ?_⟩
  · refine List.nodup_append.2 ⟨hd, hd', ?_⟩
    rintro n hn _ hn' rfl
    exact hnew' n hn' (List.mem_append_right _ hn)
  · intro n hn hl
    obtain hn | hn := List.mem_append.1 hn
    · exact hnew n hn hl
    · exact hnew' n hn (List.mem_append_left _ hl)

theorem addNew (l r : List String) : Extends l (addNew l r) := by
  refine ⟨unseen l r, addNew_strings l r, ?_, ?_⟩
  · rw [← names_strings (unseen l r)]
    exact nodup_names_unseen l r
  · intro n hn
    rw [← names_strings (unseen l r)] at hn
    exact (mem_names_unseen.1 hn).2

theorem nodup_iff (h : Extends l m) : m.Nodup ↔ l.Nodup := by
  obtain ⟨added, rfl, hd, hnew⟩ := h
  rw [List.nodup_append]
  constructor
  · exact fun hm => hm.1
  · refine fun hl => ⟨hl, hd, ?_⟩
    rintro n hn _ hn' rfl
    exact hnew n hn' hn

end Extends

def TypeDef.listings : List (TypeDef → List String) :=
  [members, implements]

/-- Each of its lists is one of `d` with new entries behind it. -/
def TypeDef.Begins (d t : TypeDef) : Prop :=
  ∀ list ∈ listings, Extends (list d) (list t)

theorem TypeDef.Begins.refl (d : TypeDef) : d.Begins d :=
  fun list _ => Extends.refl (list d)

theorem TypeDef.Begins.trans {d t u : TypeDef} (h : d.Begins t) (h' : t.Begins u) : d.Begins u :=
  fun list hl => (h list hl).trans (h' list hl)

theorem TypeDef.begins_iff {d t : TypeDef} :
    d.Begins t ↔ Extends d.members t.members ∧ Extends d.implements t.implements := by
  simp [Begins, listings]

theorem TypeDef.begins_merge (c d : TypeDef) : c.Begins (c.merge d).1 := by
  obtain ⟨n, description, origin, body⟩ := c
  obtain ⟨n', description', origin', body'⟩ := d
  cases hb : mergeBody n body body' with
  | none =>
    simp only [merge, hb]
    exact .refl _
  | some merged =>
    simp only [merge, hb]
    refine begins_iff.2 ?_
    cases BodyMerge.of_mergeBody hb with
    | enum vs ws | scalar => exact ⟨.refl _, .refl _⟩
    | union ms ns => exact ⟨.addNew ms ns, .refl _⟩
    | fields c is js fs gs => exact ⟨.refl _, .addNew is js⟩

theorem Definition.begins_incoming (d : Definition) : d.type.Begins d.incoming := by
  rw [TypeDef.begins_iff, incoming_members, incoming_implements]
  exact ⟨.refl _, .refl _⟩

namespace Schema

variable {s u : Schema} {ds : List Definition} {d : Definition}

/-- The definitions that merging gets to: those that fit, and the first one that does not. -/
def reached (s : Schema) : List Definition → List Definition
  | [] => []
  | d :: ds =>
    d :: match s.mergeDefinition d with
      | (t, none) => t.reached ds
      | (_, some _) => []

theorem reached_cons (h : s.mergeDefinition d = (u, none)) (ds : List Definition) :
    s.reached (d :: ds) = d :: u.reached ds := by
  simp only [reached, h]

theorem reached_cons_of_error {e : MergeError} (h : s.mergeDefinition d = (u, some e))
    (ds : List Definition) : s.reached (d :: ds) = [d] := by
  simp only [reached, h]

def reachedInTexts (s : Schema) : List SourceText → List Definition
  | [] => []
  | d :: docs => s.reached d.definitions ++ (s.addText d.1 d.2).1.reachedInTexts docs

def StartsFrom (ds : List Definition) (s : Schema) : Prop :=
  ∀ n, Option.Rel (fun d t => d.type.Begins t) (definitionsOf n ds).head? (s.getType? n)

namespace StartsFrom

theorem empty : StartsFrom [] Schema.empty :=
  fun _ => .none

theorem mergeDefinition (h : StartsFrom ds s) (d : Definition) :
    StartsFrom (ds ++ [d]) (s.mergeDefinition d).1 := by
  intro n
  have hn := h n
  rw [getType?_mergeDefinition, definitionsOf_append, List.head?_append, definitionsOf_cons]
  by_cases hd : name d = n
  · subst hd
    rw [if_pos rfl, if_pos rfl, List.head?_cons]
    generalize (definitionsOf (name d) ds).head? = first at hn
    generalize hg : s.getType? (name d) = found at hn
    cases hn with
    | none =>
      rw [merged_of_new hg]
      exact .some d.begins_incoming
    | @some first c hc =>
      rw [merged_of_found hg]
      exact .some (hc.trans (c.begins_merge d.incoming))
  · rw [if_neg hd, if_neg hd]
    simpa [definitionsOf] using hn

theorem mergeDefinitions (h : StartsFrom ds s) (es : List Definition) :
    StartsFrom (ds ++ s.reached es) (s.mergeDefinitions es).1 := by
  induction es generalizing ds s with
  | nil => rwa [reached, List.append_nil]
  | cons d es ih =>
    have hd := h.mergeDefinition d
    match hm : s.mergeDefinition d with
    | (t, none) =>
      rw [hm] at hd
      rw [mergeDefinitions_cons hm, reached_cons hm, List.append_cons]
      exact ih hd
    | (t, some e) =>
      rw [hm] at hd
      rwa [mergeDefinitions_cons_of_error hm, reached_cons_of_error hm]

theorem addText (h : StartsFrom ds s) (d : SourceText) :
    StartsFrom (ds ++ s.reached d.definitions) (s.addText d.1 d.2).1 := by
  cases hp : parseDocument d.1 d.2 with
  | error e =>
    have hnone : d.definitions = [] := by
      unfold SourceText.definitions
      rw [hp]
    have hsame : (s.addText d.1 d.2).1 = s := by
      unfold Schema.addText
      rw [hp]
    rwa [hnone, reached, List.append_nil, hsame]
  | ok doc =>
    rw [addText_eq ⟨doc, hp⟩]
    exact h.mergeDefinitions d.definitions

theorem addTexts (h : StartsFrom ds s) (docs : List SourceText) :
    StartsFrom (ds ++ s.reachedInTexts docs) (s.addTexts docs) := by
  induction docs generalizing ds s with
  | nil => rwa [reachedInTexts, List.append_nil]
  | cons d docs ih =>
    rw [reachedInTexts, ← List.append_assoc]
    exact ih (h.addText d)

end StartsFrom

def firstListed (list : TypeDef → List String) (n : String) (ds : List Definition) : List String :=
  (definitionsOf n ds).head?.elim [] fun d => list d.type

theorem StartsFrom.extends_withBuiltins (h : StartsFrom ds s) {t : TypeDef}
    (ht : t ∈ s.withBuiltins.types.toList) :
    ∀ list ∈ TypeDef.listings, Extends (firstListed list t.name ds) (list t) := by
  have hl : s.withBuiltins.types.toList = _ := toList_foldl_addBuiltin s builtinScalars
  rw [hl] at ht
  intro list hlist
  have hn := h t.name
  unfold firstListed
  obtain ht | ht := List.mem_append.1 ht
  · have hget : s.getType? t.name = some t := Table.get?_of_mem ht
    rw [hget] at hn
    generalize (definitionsOf t.name ds).head? = first at hn ⊢
    cases hn with
    | some hbegins => exact hbegins list hlist
  · obtain ⟨n, hnew, rfl⟩ := List.mem_map.1 ht
    have hnames : n ∈ (unseen s.types.names builtinScalars).map name := List.mem_map_of_mem hnew
    have hget : s.getType? n = none := Table.get?_eq_none.2 (mem_names_unseen.1 hnames).2
    have hempty : ∀ list ∈ TypeDef.listings, list (builtin n) = [] := by
      simp [TypeDef.listings, TypeDef.members, TypeDef.implements, builtin]
    change Option.Rel _ (definitionsOf n ds).head? (s.getType? n) at hn
    change Extends ((definitionsOf n ds).head?.elim [] _) _
    rw [hget] at hn
    generalize (definitionsOf n ds).head? = first at hn ⊢
    cases hn with
    | none =>
      rw [hempty list hlist]
      exact .refl []

variable {docs : List SourceText}

/-- In a complete schema, whatever texts it is from and whether they all fit or not, the values of an
enum are different. The members of a union and the interfaces of a type are what the first definition
that is reached lists, with different new ones behind; so they are different if and only if that
definition repeats none. -/
theorem distinctEntries_of_build (h : (empty.addTexts docs).build = .ok u) :
    ∀ t ∈ u.types.toList, (t.values.map EnumValue.name).Nodup ∧
      ∀ list ∈ TypeDef.listings,
        Extends (firstListed list t.name (empty.reachedInTexts docs)) (list t) ∧
        ((list t).Nodup ↔ (firstListed list t.name (empty.reachedInTexts docs)).Nodup) := by
  obtain ⟨rfl, hv⟩ := build_eq_ok_iff.1 h
  intro t ht
  have hkeeps := violationOf_eq_none_iff.1 (List.findSome?_eq_none_iff.1 hv t ht)
  refine ⟨hkeeps.distinct, fun list hlist => ?_⟩
  have hext := (StartsFrom.empty.addTexts docs).extends_withBuiltins ht list hlist
  exact ⟨hext, hext.nodup_iff⟩

/-- Definitions that repeat a member and an interface, a text that stops after it has added to both
types, and one that is malformed. -/
def repeatedEntries : List SourceText := [
  ("interface I { x: Int } union U = A | A type A implements I & I { x: Int }", none),
  ("extend union U = B | B extend type A implements J { x: ID }", none),
  ("union V =", none),
  ("interface J { y: ID } type B { z: Int } union V = B extend union V = A | A", none)]

theorem distinctEntries_repeatedEntries :
    ∃ s u a v, (empty.addTexts repeatedEntries).build = .ok s ∧ u ∈ s.types.toList ∧
      a ∈ s.types.toList ∧ v ∈ s.types.toList ∧ u.members = ["A", "A", "B"] ∧ ¬ u.members.Nodup ∧
      a.implements = ["I", "I", "J"] ∧ ¬ a.implements.Nodup ∧ v.members = ["B", "A"] ∧
      v.members.Nodup := by
  have hdecided :
      (∃ s ∈ (empty.addTexts repeatedEntries).build.toOption,
        (∃ u ∈ s.types.toList, u.name = "U" ∧ u.members = ["A", "A", "B"]) ∧
        (∃ a ∈ s.types.toList, a.name = "A" ∧ a.implements = ["I", "I", "J"]) ∧
        ∃ v ∈ s.types.toList, v.name = "V" ∧ v.members = ["B", "A"]) ∧
      ∃ ds ∈ [empty.reachedInTexts repeatedEntries],
        firstListed TypeDef.members "U" ds = ["A", "A"] ∧
        firstListed TypeDef.implements "A" ds = ["I", "I"] ∧
        firstListed TypeDef.members "V" ds = ["B"] := by
    decide +kernel
  obtain ⟨⟨s, hs, ⟨u, hu, hun, hul⟩, ⟨a, ha, han, hal⟩, v, hv, hvn, hvl⟩, ds, hds, hu', ha', hv'⟩ :=
    hdecided
  obtain rfl := List.mem_singleton.1 hds
  have hok := eq_ok_of_toOption hs
  have hentries := distinctEntries_of_build hok
  have hmembers : TypeDef.members ∈ TypeDef.listings := List.mem_cons_self
  have himplements : TypeDef.implements ∈ TypeDef.listings :=
    List.mem_cons_of_mem _ List.mem_cons_self
  obtain ⟨-, hiffu⟩ := (hentries u hu).2 _ hmembers
  obtain ⟨-, hiffa⟩ := (hentries a ha).2 _ himplements
  obtain ⟨-, hiffv⟩ := (hentries v hv).2 _ hmembers
  rw [hun, hu'] at hiffu
  rw [han, ha'] at hiffa
  rw [hvn, hv'] at hiffv
  exact ⟨s, u, a, v, hok, hu, ha, hv, hul, mt hiffu.1 (by decide), hal, mt hiffa.1 (by decide), hvl,
    hiffv.2 (by decide)⟩

theorem repeatedEntries_not_distinct :
    ∃ docs s u a, (empty.addTexts docs).build = .ok s ∧ u ∈ s.types.toList ∧
      a ∈ s.types.toList ∧ ¬ u.members.Nodup ∧ ¬ a.implements.Nodup := by
  have hdecided :
      ∃ s ∈ (empty.addTexts (repeatedEntries.take 1)).build.toOption,
        ∃ u ∈ s.types.toList, ∃ a ∈ s.types.toList, ¬ u.members.Nodup ∧ ¬ a.implements.Nodup := by
    decide +kernel
  obtain ⟨s, hs, u, hu, a, ha, hrepeat⟩ := hdecided
  exact ⟨_, s, u, a, eq_ok_of_toOption hs, hu, ha, hrepeat⟩

end Schema

end SchemaTypings
