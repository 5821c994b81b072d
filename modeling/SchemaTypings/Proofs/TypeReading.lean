import SchemaTypings.Proofs.Names
import SchemaTypings.TypeScript.TypeExpression

namespace SchemaTypings

open Sdl (IsWord isNameChar)

def EndsWord (r : List Char) : Prop :=
  ∀ c ∈ r.head?, isNameChar c = false

theorem takeWhile_of_endsWord {n : String} {r : List Char} (hn : IsWord n) (hr : EndsWord r) :
    (n.toList ++ r).takeWhile isNameChar = n.toList := by
  have hrest : r.takeWhile isNameChar = [] := by
    cases r with
    | nil => rfl
    | cons c r => rw [List.takeWhile_cons, hr c rfl, if_neg Bool.false_ne_true]
  rw [List.takeWhile_append_of_pos hn, hrest, List.append_nil]

theorem word_append_inj {n n' : String} {r r' : List Char} (hn : IsWord n) (hn' : IsWord n')
    (hr : EndsWord r) (hr' : EndsWord r') (h : n.toList ++ r = n'.toList ++ r') :
    n = n' ∧ r = r' := by
  have hword : n.toList = n'.toList := by
    rw [← takeWhile_of_endsWord hn hr, h, takeWhile_of_endsWord hn' hr']
  rw [hword] at h
  exact ⟨String.toList_inj.1 hword, List.append_cancel_left h⟩

def decoration (notNull : Bool) : List Char :=
  if notNull then [] else " | null | undefined".toList

theorem toList_renderUnless (notNull : Bool) (e : String) :
    (NullableRenderer.standard.renderUnless notNull e).toList = e.toList ++ decoration notNull := by
  cases notNull with
  | true => exact (List.append_nil _).symm
  | false => exact String.toList_append

/-- A type ends at the end of the text, of a list, of an argument, or of all arguments. -/
inductive EndsType : List Char → Prop
  | text : EndsType []
  | list (r : List Char) : EndsType ('>' :: r)
  | argument (r : List Char) : EndsType (',' :: r)
  | arguments (r : List Char) : EndsType (' ' :: '\x7d' :: r)

namespace EndsType

variable {b b' : Bool} {r r' : List Char}

theorem decoration_inj (hr : EndsType r) (hr' : EndsType r')
    (h : decoration b ++ r = decoration b' ++ r') : b = b' ∧ r = r' := by
  cases b <;> cases b'
  · exact ⟨rfl, List.append_cancel_left h⟩
  · cases hr' <;> cases h
  · cases hr <;> cases h
  · exact ⟨rfl, h⟩

theorem head?_decoration (hr : EndsType r) :
    ∀ c ∈ (decoration b ++ r).head?, isNameChar c = false ∧ c ≠ '<' := by
  cases b with
  | false =>
    rintro c ⟨⟩
    decide
  | true => cases hr <;> rintro c ⟨⟩ <;> decide

theorem endsWord (hr : EndsType r) (b : Bool) : EndsWord (decoration b ++ r) := fun c hc =>
  (hr.head?_decoration c hc).1

theorem word_ne_opened {m n : String} {q : List Char} (hr : EndsType r) (hm : IsWord m)
    (hn : IsWord n) : m.toList ++ (decoration b ++ r) ≠ n.toList ++ '<' :: q := fun h => by
  have hopened : EndsWord ('<' :: q) := by
    rintro c ⟨⟩
    decide
  obtain ⟨-, hrest⟩ := word_append_inj hm hn (hr.endsWord b) hopened h
  have hhead : '<' ∈ (decoration b ++ r).head? := by
    rw [hrest]
    rfl
  exact (hr.head?_decoration '<' hhead).2 rfl

end EndsType

namespace TypeRef

/-- One non-null mark in the place of marks directly around each other. -/
def collapse : TypeRef → TypeRef
  | named n => named n
  | list t => list t.collapse
  | nonNull t => t.collapse.required

/-- The collapsed reference, in a further non-null mark or not. -/
def marked (notNull : Bool) (t : TypeRef) : TypeRef :=
  if notNull then t.collapse.required else t.collapse

theorem required_required (t : TypeRef) : t.required.required = t.required := by
  cases t <;> rfl

theorem marked_nonNull (notNull : Bool) (t : TypeRef) :
    (nonNull t).marked notNull = t.marked true := by
  cases notNull with
  | false => rfl
  | true => exact required_required _

section Standard

variable {n : String} {t t' : TypeRef} {b b' : Bool} {r r' : List Char}

theorem toList_named (n : String) (b : Bool) (r : List Char) :
    ((named n).expression .standard b).toList ++ r = n.toList ++ (decoration b ++ r) := by
  rw [expression, toList_renderUnless, List.append_assoc]

theorem toList_list (t : TypeRef) (b : Bool) (r : List Char) :
    ((list t).expression .standard b).toList ++ r =
      "Array".toList ++
        '<' :: ((t.expression .standard false).toList ++ '>' :: (decoration b ++ r)) := by
  rw [expression, toList_renderUnless]
  simp

theorem opened_eq_array (ht : IsWord t.baseName) (hn : IsWord n) (hr : EndsType r)
    {q : List Char} (h : (t.expression .standard b).toList ++ r = n.toList ++ '<' :: q) :
    n = "Array" := by
  induction t generalizing b with
  | named m =>
    rw [toList_named] at h
    exact absurd h (hr.word_ne_opened ht hn)
  | list t =>
    have hopened : ∀ {q : List Char}, EndsWord ('<' :: q) := by
      rintro q c ⟨⟩
      decide
    rw [toList_list] at h
    exact (word_append_inj (by decide) hn hopened hopened h).1.symm
  | nonNull t ih => exact ih ht h

theorem expression_append_inj (ht : IsWord t.baseName) (ht' : IsWord t'.baseName)
    (hr : EndsType r) (hr' : EndsType r')
    (h : (t.expression .standard b).toList ++ r = (t'.expression .standard b').toList ++ r') :
    t.marked b = t'.marked b' ∧ r = r' := by
  induction t generalizing t' b b' r r' with
  | nonNull t ih =>
    rw [marked_nonNull]
    exact ih ht ht' hr hr' h
  | named n =>
    induction t' generalizing b' with
    | nonNull t' ih =>
      rw [marked_nonNull]
      exact ih ht' h
    | named n' =>
      rw [toList_named, toList_named] at h
      obtain ⟨rfl, hrest⟩ := word_append_inj ht ht' (hr.endsWord b) (hr'.endsWord b') h
      obtain ⟨rfl, rfl⟩ := hr.decoration_inj hr' hrest
      exact ⟨rfl, rfl⟩
    | list t' =>
      rw [toList_named, toList_list] at h
      exact absurd h (hr.word_ne_opened ht (by decide))
  | list t ih =>
    induction t' generalizing b' with
    | nonNull t' ih' =>
      rw [marked_nonNull]
      exact ih' ht' h
    | named n' =>
      rw [toList_named, toList_list] at h
      exact absurd h.symm (hr'.word_ne_opened ht' (by decide))
    | list t' =>
      have hword : IsWord t'.baseName := ht'
      rw [toList_list, toList_list] at h
      obtain ⟨-, hinside⟩ := List.cons.inj (List.append_cancel_left h)
      obtain ⟨hinner, hrest⟩ := ih ht hword (.list _) (.list _) hinside
      have hcollapse : t.collapse = t'.collapse := hinner
      obtain ⟨rfl, rfl⟩ := hr.decoration_inj hr' (List.cons.inj hrest).2
      exact ⟨by simp only [marked, collapse, hcollapse], rfl⟩

theorem collapse_eq_of_append (ht : IsWord t.baseName) (ht' : IsWord t'.baseName)
    (hr : EndsType r) (hr' : EndsType r')
    (h : (t.expression .standard false).toList ++ r =
      (t'.expression .standard false).toList ++ r') :
    t.collapse = t'.collapse ∧ r = r' :=
  expression_append_inj ht ht' hr hr' h

end Standard

end TypeRef

end SchemaTypings
