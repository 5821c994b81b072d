import Mathlib.Data.List.Infix
import SchemaTypings.Generate

namespace SchemaTypings

namespace Text

variable {a b : Char} {s : List Char}

/-- What stands before, between and behind the pairs `a b` of a text, cut from left to right. -/
def pieces (a b : Char) : List Char → List (List Char)
  | x :: y :: r =>
    if x = a ∧ y = b then [] :: pieces a b r else (pieces a b (y :: r)).modifyHead (x :: ·)
  | r => [r]

theorem pieces_pair (a b : Char) (r : List Char) : pieces a b (a :: b :: r) = [] :: pieces a b r := by
  rw [pieces, if_pos ⟨rfl, rfl⟩]

theorem pieces_cons {x y : Char} (h : ¬(x = a ∧ y = b)) (r : List Char) :
    pieces a b (x :: y :: r) = (pieces a b (y :: r)).modifyHead (x :: ·) := by
  rw [pieces, if_neg h]

theorem pieces_ne_nil (a b : Char) (s : List Char) : pieces a b s ≠ [] := by
  induction s using replacePair.induct a b with
  | case1 x y r h _ =>
    obtain ⟨rfl, rfl⟩ := h
    rw [pieces_pair]
    exact List.cons_ne_nil _ _
  | case2 x y r h ih =>
    rw [pieces_cons h]
    exact mt List.modifyHead_eq_nil_iff.1 ih
  | case3 s hs =>
    rw [pieces.eq_2 a b s hs]
    exact List.cons_ne_nil _ _

theorem intercalate_modifyHead (sep : List Char) (x : Char) {ps : List (List Char)} (h : ps ≠ []) :
    sep.intercalate (ps.modifyHead (x :: ·)) = x :: sep.intercalate ps := by
  cases ps with
  | nil => exact absurd rfl h
  | cons p ps => cases ps <;> simp [List.intercalate_cons_cons]

/-- What is put in is not searched: it only joins the pieces. -/
theorem replacePair_eq_intercalate (a b : Char) (new s : List Char) :
    replacePair a b new s = new.intercalate (pieces a b s) := by
  induction s using replacePair.induct a b with
  | case1 x y r h ih =>
    obtain ⟨rfl, rfl⟩ := h
    rw [pieces_pair, List.intercalate_cons_of_ne_nil (pieces_ne_nil x y r), replacePair,
      if_pos ⟨rfl, rfl⟩, ih]
    rfl
  | case2 x y r h ih =>
    rw [pieces_cons h, intercalate_modifyHead new x (pieces_ne_nil a b _), replacePair, if_neg h, ih]
  | case3 s hs => rw [pieces.eq_2 a b s hs, replacePair.eq_2 a b new s hs, List.intercalate_singleton]

theorem replacePair_pair (a b : Char) (s : List Char) : replacePair a b [a, b] s = s := by
  induction s using replacePair.induct a b with
  | case1 x y r h ih =>
    obtain ⟨rfl, rfl⟩ := h
    rw [replacePair, if_pos ⟨rfl, rfl⟩, ih]
    rfl
  | case2 x y r h ih => rw [replacePair, if_neg h, ih]
  | case3 s hs => exact replacePair.eq_2 a b [a, b] s hs

theorem intercalate_pieces (a b : Char) (s : List Char) : [a, b].intercalate (pieces a b s) = s := by
  rw [← replacePair_eq_intercalate, replacePair_pair]

theorem not_infix_of_mem_pieces (a b : Char) (s : List Char) :
    ∀ p ∈ pieces a b s, ¬[a, b] <:+: p := by
  induction s using replacePair.induct a b with
  | case1 x y r h ih =>
    obtain ⟨rfl, rfl⟩ := h
    rw [pieces_pair]
    exact List.forall_mem_cons.2 ⟨by simp, ih⟩
  | case2 x y r h ih =>
    have hjoined := intercalate_pieces a b (y :: r)
    rw [pieces_cons h]
    cases hp : pieces a b (y :: r) with
    | nil => exact absurd hp (pieces_ne_nil a b _)
    | cons p ps =>
      rw [hp] at ih hjoined
      obtain ⟨hfirst, hrest⟩ := List.forall_mem_cons.1 ih
      refine List.forall_mem_cons.2 ⟨fun hx => ?_, hrest⟩
      obtain hx | hx := List.infix_cons_iff.1 hx
      · -- The pair would start with the new character, and `y` is what stands behind it.
        obtain ⟨rfl, t, rfl⟩ := List.cons_prefix_cons.1 hx
        apply h
        refine ⟨rfl, ?_⟩
        cases ps <;> simp_all [List.intercalate_cons_cons]
      · exact hfirst hx
  | case3 s hs =>
    rw [pieces.eq_2 a b s hs]
    refine List.forall_mem_singleton.2 fun hx => ?_
    obtain ⟨l, r, rfl⟩ := hx
    cases l with
    | nil => exact hs a b r rfl
    | cons c l => cases l <;> exact hs _ _ _ rfl

theorem pieces_of_not_infix (h : ¬[a, b] <:+: s) : pieces a b s = [s] := by
  induction s using replacePair.induct a b with
  | case1 x y r hxy _ =>
    obtain ⟨rfl, rfl⟩ := hxy
    exact absurd ⟨[], r, rfl⟩ h
  | case2 x y r hxy ih =>
    rw [pieces_cons hxy, ih fun hr => h (List.infix_cons hr)]
    rfl
  | case3 s hs => exact pieces.eq_2 a b s hs

theorem pieces_append (hab : a ≠ b) (h : ¬[a, b] <:+: s) (r : List Char) :
    pieces a b (s ++ a :: b :: r) = s :: pieces a b r := by
  induction s with
  | nil => exact pieces_pair a b r
  | cons x s ih =>
    have hs : ¬[a, b] <:+: s := fun hs => h (List.infix_cons hs)
    have hx : ∀ y t, s ++ a :: b :: r = y :: t → ¬(x = a ∧ y = b) := by
      rintro y t hy ⟨rfl, rfl⟩
      cases s with
      | nil => exact hab (List.cons.inj hy).1
      | cons z s =>
        obtain ⟨rfl, -⟩ := List.cons.inj hy
        exact h ⟨[], s, rfl⟩
    cases hy : s ++ a :: b :: r with
    | nil => simp at hy
    | cons y t => rw [List.cons_append, hy, pieces_cons (hx y t hy), ← hy, ih hs]; rfl

/-- The pieces are the only ones: a pair of two different characters does not overlap itself. -/
theorem pieces_intercalate (hab : a ≠ b) {ps : List (List Char)} (hne : ps ≠ [])
    (h : ∀ p ∈ ps, ¬[a, b] <:+: p) : pieces a b ([a, b].intercalate ps) = ps := by
  induction ps with
  | nil => exact absurd rfl hne
  | cons p ps ih =>
    obtain ⟨hp, hps⟩ := List.forall_mem_cons.1 h
    cases ps with
    | nil => rw [List.intercalate_singleton, pieces_of_not_infix hp]
    | cons q ps =>
      rw [List.intercalate_cons_cons, List.append_assoc]
      exact (pieces_append hab hp _).trans (congrArg (p :: ·) (ih (List.cons_ne_nil q ps) hps))

end Text

def placeholder : String := "\x7b\x7d"

def IsFreeOf (p s : String) : Prop :=
  ¬p.toList <:+: s.toList

instance (p s : String) : Decidable (IsFreeOf p s) :=
  inferInstanceAs (Decidable (¬_))

/-- A text is cut at every placeholder, and nowhere else. -/
structure IsCutInto (text : String) (ps : List String) : Prop where
  nonempty : ps ≠ []
  free : ∀ p ∈ ps, IsFreeOf placeholder p
  joined : placeholder.intercalate ps = text

def templatePieces (text : String) : List String :=
  (Text.pieces '{' '}' text.toList).map String.ofList

theorem toList_templatePieces (text : String) :
    (templatePieces text).map String.toList = Text.pieces '{' '}' text.toList := by
  rw [templatePieces, List.map_map]
  exact (List.map_congr_left fun p _ => String.toList_ofList).trans (List.map_id _)

theorem isCutInto_templatePieces (text : String) : IsCutInto text (templatePieces text) where
  nonempty := mt List.map_eq_nil_iff.1 (Text.pieces_ne_nil '{' '}' text.toList)
  free := by
    refine List.forall_mem_map.2 fun p hp => ?_
    rw [IsFreeOf, String.toList_ofList]
    exact Text.not_infix_of_mem_pieces '{' '}' text.toList p hp
  joined := by
    apply String.toList_inj.1
    rw [String.toList_intercalate, toList_templatePieces]
    exact Text.intercalate_pieces '{' '}' text.toList

theorem IsCutInto.eq_templatePieces {text : String} {ps : List String} (h : IsCutInto text ps) :
    ps = templatePieces text := by
  apply (List.map_injective_iff.2 fun _ _ => String.toList_inj.1 : Function.Injective
    (List.map String.toList))
  rw [toList_templatePieces, ← h.joined, String.toList_intercalate]
  refine (Text.pieces_intercalate (by decide) ?_ ?_).symm
  · exact mt List.map_eq_nil_iff.1 h.nonempty
  · exact List.forall_mem_map.2 h.free

namespace NullableRenderer

variable {r r' : NullableRenderer}

theorem render_template (text e : String) :
    (template text).render e = e.intercalate (templatePieces text) := by
  apply String.toList_inj.1
  rw [render, String.toList_ofList, Text.replacePair_eq_intercalate, String.toList_intercalate,
    toList_templatePieces]

theorem render_template_of_cut {text : String} {ps : List String} (h : IsCutInto text ps)
    (e : String) : (template text).render e = e.intercalate ps := by
  rw [render_template, h.eq_templatePieces]

end NullableRenderer

section Congruence

variable {r r' : NullableRenderer}

theorem TypeRef.expression_congr (h : r.render = r'.render) :
    TypeRef.expression r = TypeRef.expression r' := by
  funext b t
  induction t generalizing b with
  | named n => rw [expression, expression, NullableRenderer.renderUnless, h,
      ← NullableRenderer.renderUnless]
  | list t ih => rw [expression, expression, NullableRenderer.renderUnless, h, ih,
      ← NullableRenderer.renderUnless]
  | nonNull t ih => exact ih true

theorem Argument.property_congr (h : r.render = r'.render) :
    Argument.property r = Argument.property r' := by
  funext a
  rw [property, property, TypeRef.expression_congr h]

theorem Field.group_congr (h : r.render = r'.render) : Field.group r = Field.group r' := by
  funext owner f
  rw [group, group, Argument.property_congr h]

theorem Field.argumentsType_congr (h : r.render = r'.render) :
    Field.argumentsType r = Field.argumentsType r' := by
  funext grouped owner f
  rw [argumentsType, argumentsType, TypeRef.expression_congr h]

theorem Field.member_congr (h : r.render = r'.render) : Field.member r = Field.member r' := by
  funext grouped owner f
  rw [member, member, TypeRef.expression_congr h, Field.argumentsType_congr h]

theorem NullableRenderers.render_get_set (n : NullableRenderers) (c d : Category)
    (h : r.render = r'.render) : ((n.set c r).get d).render = ((n.set c r').get d).render := by
  cases c <;> cases d <;> first | exact h | rfl

theorem Options.declare_withNullable (o : Options) (c : Category) (h : r.render = r'.render) :
    (o.withNullable c r).declare = (o.withNullable c r').declare := by
  funext t
  obtain ⟨n, description, origin, body⟩ := t
  cases body with
  | enum vs | scalar | union ms => rfl
  | fields d is fs =>
    have hd := o.nullable.render_get_set c d h
    simp only [declare, declareFields, groups, container, withNullable, Field.group_congr hd,
      Field.member_congr hd]
    rfl

theorem Schema.generate_withNullable (s : Schema) (o : Options) (c : Category)
    (h : r.render = r'.render) :
    s.generate (o.withNullable c r) = s.generate (o.withNullable c r') := by
  have hdeclarations : s.declarations (o.withNullable c r) = s.declarations (o.withNullable c r') := by
    rw [declarations, declarations, o.declare_withNullable c h]
    rfl
  rw [generate, generate, hdeclarations]
  rfl

end Congruence

namespace NullableRenderer

def joining (ps : List String) : NullableRenderer :=
  custom fun e => e.intercalate ps

def around (p s : String) : NullableRenderer :=
  custom fun e => p ++ e ++ s

theorem render_joining {text : String} {ps : List String} (h : IsCutInto text ps) :
    (template text).render = (joining ps).render :=
  funext fun e => render_template_of_cut h e

theorem isCutInto_around {p s : String} (hp : IsFreeOf placeholder p) (hs : IsFreeOf placeholder s) :
    IsCutInto (p ++ placeholder ++ s) [p, s] where
  nonempty := List.cons_ne_nil _ _
  free := List.forall_mem_cons.2 ⟨hp, List.forall_mem_singleton.2 hs⟩
  joined := by rw [String.intercalate_cons_cons, String.intercalate_singleton]

theorem render_around {p s : String} (hp : IsFreeOf placeholder p) (hs : IsFreeOf placeholder s) :
    (template (p ++ placeholder ++ s)).render = (around p s).render := by
  funext e
  rw [render_template_of_cut (isCutInto_around hp hs), String.intercalate_cons_cons,
    String.intercalate_singleton]
  rfl

theorem render_standard :
    standard.render = (template (placeholder ++ " | null | undefined")).render := by
  have hcut : IsCutInto (placeholder ++ " | null | undefined") ["", " | null | undefined"] :=
    isCutInto_around (p := "") (by decide) (by decide)
  funext e
  rw [render_template_of_cut hcut, String.intercalate_cons_cons, String.intercalate_singleton,
    String.empty_append]
  rfl

end NullableRenderer

/-- Renderers that write the same decoration are interchangeable in every category. A template is cut
at its placeholders in exactly one way, and puts its pieces around the expression as it is, at every
level of a type. -/
theorem renderers_of_decoration :
    (∀ p s : String, IsFreeOf placeholder p → IsFreeOf placeholder s →
      ∀ (schema : Schema) (o : Options) (c : Category),
        schema.generate (o.withNullable c (.template (p ++ placeholder ++ s))) =
          schema.generate (o.withNullable c (.around p s))) ∧
    (∀ (schema : Schema) (o : Options) (c : Category),
      schema.generate (o.withNullable c .standard) =
        schema.generate (o.withNullable c (.template (placeholder ++ " | null | undefined")))) ∧
    ∀ text : String, ∃ ps : List String, IsCutInto text ps ∧ (∀ qs, IsCutInto text qs → qs = ps) ∧
      (∀ e, (NullableRenderer.template text).render e = e.intercalate ps) ∧
      (∀ (t : TypeRef) (notNull : Bool),
        t.expression (.template text) notNull = t.expression (.joining ps) notNull) ∧
      ∀ (schema : Schema) (o : Options) (c : Category),
        schema.generate (o.withNullable c (.template text)) =
          schema.generate (o.withNullable c (.joining ps)) := by
  refine ⟨fun p s hp hs schema o c => ?_, fun schema o c => ?_, fun text => ?_⟩
  · exact schema.generate_withNullable o c (NullableRenderer.render_around hp hs)
  · exact schema.generate_withNullable o c NullableRenderer.render_standard
  · have hcut := isCutInto_templatePieces text
    have hrender := NullableRenderer.render_joining hcut
    refine ⟨templatePieces text, hcut, fun qs hq => hq.eq_templatePieces,
      NullableRenderer.render_template text, fun t notNull => ?_, fun schema o c => ?_⟩
    · rw [TypeRef.expression_congr hrender]
    · exact schema.generate_withNullable o c hrender

/-- Braces next to the placeholder. -/
def bracedBefore : String := "Maybe<\x7b"

def bracedBehind : String := "\x7d>"

def bracedField : Field := ⟨"f", .list (.named placeholder), none, []⟩

def bracedSchema : Schema :=
  Schema.empty.addType ⟨"T", none, some ⟨none, 1, 1⟩, .fields .object [] (.ofList [bracedField])⟩

theorem renderers_of_braces :
    IsFreeOf placeholder bracedBefore ∧ IsFreeOf placeholder bracedBehind ∧
    bracedSchema.generate (Options.default.withNullable .object
        (.template (bracedBefore ++ placeholder ++ bracedBehind))) =
      bracedSchema.generate (Options.default.withNullable .object
        (.around bracedBefore bracedBehind)) ∧
    bracedField.type.expression (.around bracedBefore bracedBehind) false =
      "Maybe<\x7bArray<Maybe<\x7b\x7b\x7d\x7d>>\x7d>" := by
  obtain ⟨haround, -, -⟩ := renderers_of_decoration
  have hbefore : IsFreeOf placeholder bracedBefore := by decide
  have hbehind : IsFreeOf placeholder bracedBehind := by decide
  exact ⟨hbefore, hbehind, haround _ _ hbefore hbehind bracedSchema .default .object, by decide⟩

end SchemaTypings
