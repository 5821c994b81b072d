import Mathlib.Data.List.DropRight
import SchemaTypings.Proofs.TextLines
import SchemaTypings.TypeScript.Comment

namespace SchemaTypings.TypeScript

open Text

def opening : Line := ['/', '*', '*']

def terminator : Line := ['*', '/']

theorem head?_replacePair (x y : Char) (new r : List Char) (z : Char) :
    (replacePair x y (x :: new) (z :: r)).head? = some z := by
  cases r with
  | nil => rfl
  | cons u r =>
    by_cases h : z = x ∧ u = y
    · simp [replacePair, h]
    · simp [replacePair, h]

theorem terminator_not_infix_escape (s : List Char) : ¬terminator <:+: escapeTerminator s := by
  unfold escapeTerminator terminator
  induction s using replacePair.induct '*' '/' with
  | case1 x y r h ih =>
    have hn : ¬['*', '/'] <:+: '/' :: replacePair '*' '/' ['*', '\\', '/'] r := by
      simp [List.infix_cons_iff, ih]
    simpa [replacePair, h, List.infix_cons_iff] using hn
  | case2 x y r h ih =>
    have hh := head?_replacePair '*' '/' ['\\', '/'] r y
    have hp : ¬['*', '/'] <+: x :: replacePair '*' '/' ['*', '\\', '/'] (y :: r) := by
      rw [List.cons_prefix_cons]
      rintro ⟨rfl, t, ht⟩
      rw [← ht] at hh
      exact h ⟨rfl, (Option.some.inj hh).symm⟩
    have hn : ¬['*', '/'] <:+: x :: replacePair '*' '/' ['*', '\\', '/'] (y :: r) := by
      rw [List.infix_cons_iff]
      exact not_or.2 ⟨hp, ih⟩
    rwa [replacePair, if_neg h]
  | case3 s hs =>
    cases s with
    | nil => simp [replacePair]
    | cons x r =>
      cases r with
      | nil => simp [replacePair, List.infix_cons_iff]
      | cons y r => exact (hs x y r rfl).elim

theorem lines_isInfix (s : List Char) :
    (∀ l, (lines s).head? = some l → l <+: s) ∧ ∀ l ∈ lines s, l <:+: s := by
  induction s using lines.induct with
  | case1 => simp [lines]
  | case2 r ih =>
    have hr : ∀ l ∈ lines r, l <:+: '\n' :: r := fun l hl => List.infix_cons (ih.2 l hl)
    simpa [lines] using hr
  | case3 r ih =>
    have hr : ∀ l ∈ lines r, l <:+: '\r' :: '\n' :: r := fun l hl =>
      List.infix_cons (List.infix_cons (ih.2 l hl))
    simpa [lines] using hr
  | case4 c r hc hr hl ih =>
    have he : lines (c :: r) = [[c]] := by rw [lines_cons hc hr, hl]
    have hp : [c] <+: c :: r := ⟨r, rfl⟩
    rw [he]
    exact ⟨fun m hm => Option.some.inj hm ▸ hp, List.forall_mem_singleton.2 hp.isInfix⟩
  | case5 c r hc hr l ls hl ih =>
    have he : lines (c :: r) = (c :: l) :: ls := by rw [lines_cons hc hr, hl]
    rw [he]
    have hp : c :: l <+: c :: r := List.cons_prefix_cons.2 ⟨rfl, ih.1 l (by rw [hl]; rfl)⟩
    have hi : ∀ m ∈ ls, m <:+: c :: r := fun m hm =>
      List.infix_cons (ih.2 m (hl ▸ List.mem_cons_of_mem _ hm))
    exact ⟨fun m hm => Option.some.inj hm ▸ hp, List.forall_mem_cons.2 ⟨hp.isInfix, hi⟩⟩

theorem newline_not_mem_lines (s : List Char) : ∀ l ∈ lines s, '\n' ∉ l := by
  induction s using lines.induct with
  | case1 => simp [lines]
  | case2 r ih | case3 r ih => simpa [lines] using ih
  | case4 c r hc hr hl ih =>
    rw [lines_cons hc hr, hl]
    simpa using Ne.symm hc
  | case5 c r hc hr l ls hl ih =>
    obtain ⟨h, hs⟩ := List.forall_mem_cons.1 (hl ▸ ih)
    rw [lines_cons hc hr, hl]
    refine List.forall_mem_cons.2 ⟨fun hm => ?_, hs⟩
    exact (List.mem_cons.1 hm).elim (fun he => hc he.symm) h

/-- Lines of a comment: the first one opens it, and only the last one ends it. -/
structure IsComment (ls : List Line) : Prop where
  opens : ∀ l ∈ ls.head?, opening <+: l
  closes : ∃ r l, ls = r ++ [l] ∧ terminator <:+ l ∧ ∀ m ∈ r, ¬terminator <:+ m
  isLine : ∀ l ∈ ls, IsLine l
  start : ∀ l ∈ ls, l.head? = some '/' ∨ l.head? = some ' '

def commentText (l : Line) : Line :=
  match trimEnd l with
  | [] => [' ', '*']
  | t => [' ', '*', ' '] ++ t

def linesAround (t : List Char) : List Line :=
  if t.contains '\n' then opening :: (lines t).map commentText ++ [[' ', '*', '/']]
  else [['/', '*', '*', ' '] ++ t ++ [' ', '*', '/']]

def commentLines : Option String → List Line
  | none => []
  | some d =>
    match trim d.toList with
    | [] => []
    | t => linesAround (escapeTerminator t)

theorem commentText_of_blank {l : Line} (h : trimEnd l = []) : commentText l = [' ', '*'] := by
  unfold commentText
  rw [h]

theorem commentText_of_text {l : Line} (h : trimEnd l ≠ []) :
    commentText l = [' ', '*', ' '] ++ trimEnd l := by
  unfold commentText
  cases ht : trimEnd l with
  | nil => exact absurd ht h
  | cons c r => rfl

theorem commentLine_eq (l : Line) : commentLine l = commentText l ++ ['\n'] := by
  unfold commentLine commentText
  cases trimEnd l with
  | nil => rfl
  | cons c r => rfl

theorem commentAround_eq (t : List Char) :
    commentAround t = (linesAround t).flatMap (· ++ ['\n']) := by
  unfold commentAround linesAround
  split
  · have hl : (lines t).flatMap commentLine =
        ((lines t).map commentText).flatMap (· ++ ['\n']) := by
      rw [List.flatMap_map]
      exact congrArg (List.flatMap · (lines t)) (funext commentLine_eq)
    rw [hl]
    simp [opening]
  · simp

theorem docComment_eq (d : Option String) :
    docComment d = String.ofList ((commentLines d).flatMap (· ++ ['\n'])) := by
  cases d with
  | none => rfl
  | some d =>
    simp only [docComment, commentLines]
    cases trim d.toList with
    | nil => rfl
    | cons c r => exact congrArg String.ofList (commentAround_eq _)

theorem trimEnd_isPrefix (l : Line) : trimEnd l <+: l :=
  List.rdropWhile_prefix isBlank l

theorem isLine_commentText {l : Line} (h : '\n' ∉ l) : IsLine (commentText l) := by
  by_cases ht : trimEnd l = []
  · rw [commentText_of_blank ht]
    exact ⟨by decide, by decide⟩
  · rw [commentText_of_text ht]
    have hb : ¬isBlank ((trimEnd l).getLast ht) = true := List.rdropWhile_last_not isBlank l ht
    constructor
    · intro hm
      have hm : '\n' ∈ trimEnd l := by simpa using hm
      exact h ((trimEnd_isPrefix l).subset hm)
    · intro hlast
      rw [List.getLast?_append_of_ne_nil _ ht, List.getLast?_eq_some_getLast ht] at hlast
      rw [Option.some.inj hlast] at hb
      exact hb (by decide)

theorem terminator_not_suffix_commentText {l : Line} (h : ¬terminator <:+: l) :
    ¬terminator <:+ commentText l := by
  by_cases ht : trimEnd l = []
  · rw [commentText_of_blank ht]
    decide
  · rw [commentText_of_text ht]
    intro hs
    have hp := trimEnd_isPrefix l
    -- A terminator behind ` * ` is part of the line, unless the line is a single slash.
    cases hl : trimEnd l with
    | nil => exact ht hl
    | cons c r =>
      rw [hl] at hs hp
      cases r with
      | nil => simp [terminator, List.suffix_cons_iff] at hs
      | cons d r =>
        have hlen : terminator.length ≤ (c :: d :: r).length := by simp [terminator]
        have hr := List.suffix_of_suffix_length_le hs (List.suffix_append _ _) hlen
        exact h (hr.isInfix.trans hp.isInfix)

theorem isComment_linesAround {t : List Char} (h : ¬terminator <:+: t) :
    IsComment (linesAround t) := by
  unfold linesAround
  split
  · have hn := newline_not_mem_lines t
    have hi : ∀ l ∈ lines t, ¬terminator <:+: l := fun l hl hs =>
      h (hs.trans ((lines_isInfix t).2 l hl))
    constructor
    · simp
    · refine ⟨opening :: (lines t).map commentText, _, rfl, ⟨[' '], rfl⟩, ?_⟩
      refine List.forall_mem_cons.2 ⟨by decide, List.forall_mem_map.2 fun l hl => ?_⟩
      exact terminator_not_suffix_commentText (hi l hl)
    · refine List.forall_mem_append.2 ⟨List.forall_mem_cons.2 ⟨?_, ?_⟩, ?_⟩
      · exact ⟨by decide, by decide⟩
      · exact List.forall_mem_map.2 fun l hl => isLine_commentText (hn l hl)
      · exact List.forall_mem_singleton.2 ⟨by decide, by decide⟩
    · refine List.forall_mem_append.2 ⟨List.forall_mem_cons.2 ⟨.inl rfl, ?_⟩, by simp⟩
      refine List.forall_mem_map.2 fun l _ => .inr ?_
      unfold commentText
      split <;> rfl
  · rename_i hc
    have hn : '\n' ∉ t := by simpa using hc
    constructor
    · simp [opening]
    · refine ⟨[], _, rfl, ⟨['/', '*', '*', ' '] ++ t ++ [' '], by simp [terminator]⟩, by simp⟩
    · refine List.forall_mem_singleton.2 ⟨by simpa using hn, ?_⟩
      rw [List.getLast?_append_of_ne_nil _ (by simp)]
      decide
    · simp

/-- A description has no comment, or one comment of its own. -/
theorem isComment_commentLines (d : Option String) :
    commentLines d = [] ∨ IsComment (commentLines d) := by
  cases d with
  | none => exact .inl rfl
  | some d =>
    simp only [commentLines]
    cases trim d.toList with
    | nil => exact .inl rfl
    | cons c r => exact .inr (isComment_linesAround (terminator_not_infix_escape _))

end SchemaTypings.TypeScript
