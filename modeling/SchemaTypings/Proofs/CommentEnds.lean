import Mathlib.Data.List.Chain
import SchemaTypings.Proofs.CommentLines

namespace SchemaTypings.TypeScript

open Text

def Unterminated (s : List Char) : Prop :=
  s.IsChain fun c d => ¬(c = '*' ∧ d = '/')

def behindTerminator : List Char → List Char
  | '*' :: '/' :: r => r
  | _ :: r => behindTerminator r
  | [] => []

theorem unterminated_iff {s : List Char} : Unterminated s ↔ ¬terminator <:+: s := by
  rw [Unterminated, List.isChain_iff_forall_rel_of_append_cons_cons]
  constructor
  · rintro h ⟨l, r, hs⟩
    rw [List.append_assoc] at hs
    exact h hs.symm ⟨rfl, rfl⟩
  · rintro h c d l r rfl ⟨rfl, rfl⟩
    exact h ⟨l, r, List.append_assoc ..⟩

namespace Unterminated

variable {s t : List Char}

theorem append (hs : Unterminated s) (ht : Unterminated t) (h : t.head? ≠ some '/') :
    Unterminated (s ++ t) := by
  apply List.IsChain.append hs ht
  rintro c - d hd ⟨-, rfl⟩
  exact h hd

theorem cons {c : Char} (hc : c ≠ '*') (h : Unterminated s) : Unterminated (c :: s) :=
  List.isChain_cons.2 ⟨fun _ _ he => hc he.1, h⟩

/-- A star behind a text is the first one that can end it. -/
theorem behindTerminator_append (h : Unterminated (s ++ ['*'])) (r : List Char) :
    behindTerminator (s ++ '*' :: '/' :: r) = r := by
  induction s with
  | nil => rfl
  | cons c s ih =>
    obtain ⟨hc, hs⟩ := List.isChain_cons.1 h
    rw [List.cons_append, behindTerminator, ih hs]
    rintro q rfl he
    have hslash : (s ++ ['*']).head? = some '/' := by
      cases s with
      | nil => cases he
      | cons d s => rw [(List.cons.inj he).1]; rfl
    exact hc _ hslash ⟨rfl, rfl⟩

end Unterminated

theorem unterminated_commentLine {l : Line} (h : Unterminated l) : Unterminated (commentLine l) := by
  unfold commentLine
  split
  · exact unterminated_iff.2 (by decide)
  · have htrim : Unterminated (trimEnd l) := h.prefix (trimEnd_isPrefix l)
    have hline : Unterminated (trimEnd l ++ ['\n']) :=
      htrim.append (unterminated_iff.2 (by decide)) (by decide)
    have hstar : Unterminated [' ', '*'] := unterminated_iff.2 (by decide)
    exact hstar.append (hline.cons (by decide)) (by simp)

theorem unterminated_commentLines {ls : List Line} (h : ∀ l ∈ ls, Unterminated l) :
    Unterminated (ls.flatMap commentLine) := by
  induction ls with
  | nil => exact List.isChain_nil
  | cons l ls ih =>
    obtain ⟨hl, hs⟩ := List.forall_mem_cons.1 h
    apply (unterminated_commentLine hl).append (ih hs)
    cases ls with
    | nil => exact nofun
    | cons m ls =>
      rw [List.flatMap_cons, commentLine_eq, commentText]
      split <;> simp

/-- No text, or a comment that only its own terminator ends, with `behind` standing behind it. -/
def IsCommentText (behind : List Char) (s : String) : Prop :=
  s = "" ∨ ∃ body, s.toList = opening ++ body ++ terminator ++ behind ∧
    Unterminated (opening ++ body ++ ['*'])

theorem exists_body {t : List Char} (h : Unterminated t) :
    ∃ body, commentAround t = opening ++ body ++ terminator ++ ['\n'] ∧
      Unterminated (opening ++ body ++ ['*']) := by
  have hopen : Unterminated opening := unterminated_iff.2 (by decide)
  have hend : Unterminated [' ', '*'] := unterminated_iff.2 (by decide)
  unfold commentAround
  split
  · have hlines : Unterminated ((lines t).flatMap commentLine ++ [' ', '*']) := by
      apply Unterminated.append _ hend (by decide)
      exact unterminated_commentLines fun l hl => h.infix ((lines_isInfix t).2 l hl)
    refine ⟨'\n' :: (lines t).flatMap commentLine ++ [' '], by simp [opening, terminator], ?_⟩
    simpa [opening] using hopen.append (hlines.cons (c := '\n') (by decide)) (by simp)
  · have htext : Unterminated (t ++ [' ', '*']) := h.append hend (by decide)
    refine ⟨' ' :: t ++ [' '], by simp [opening, terminator], ?_⟩
    simpa [opening] using hopen.append (htext.cons (c := ' ') (by decide)) (by simp)

theorem isCommentText_docComment (d : Option String) : IsCommentText ['\n'] (docComment d) := by
  cases d with
  | none => exact .inl rfl
  | some d =>
    simp only [docComment]
    cases trim d.toList with
    | nil => exact .inl rfl
    | cons c r =>
      obtain ⟨body, hb, hu⟩ := exists_body (unterminated_iff.2 (terminator_not_infix_escape (c :: r)))
      exact .inr ⟨body, by rw [String.toList_ofList, hb], hu⟩

section Indented

def indented (s : List Char) : List Char :=
  s.flatMap fun c => if c = '\n' then ['\n', '\t'] else [c]

theorem toList_indented (s : String) : (indentContinuation s).toList = indented s.toList :=
  String.toList_ofList

theorem indented_append (s t : List Char) : indented (s ++ t) = indented s ++ indented t :=
  List.flatMap_append

theorem indentContinuation_append (s t : String) :
    indentContinuation (s ++ t) = indentContinuation s ++ indentContinuation t := by
  apply String.toList_inj.1
  simp only [toList_indented, String.toList_append, indented_append]

theorem indented_eq_self {s : List Char} (h : '\n' ∉ s) : indented s = s := by
  refine (List.flatMap_congr fun c hc => ?_).trans (List.flatMap_singleton' s)
  have hne : c ≠ '\n' := fun he => h (he ▸ hc)
  exact if_neg hne

theorem head?_indented (s : List Char) : (indented s).head? = s.head? := by
  cases s with
  | nil => rfl
  | cons c s => by_cases h : c = '\n' <;> simp [indented, h]

theorem unterminated_indented {s : List Char} (h : Unterminated s) : Unterminated (indented s) := by
  induction s with
  | nil => exact List.isChain_nil
  | cons c s ih =>
    obtain ⟨hc, hs⟩ := List.isChain_cons.1 h
    have htail := ih hs
    by_cases hn : c = '\n'
    · subst hn
      exact (htail.cons (c := '\t') (by decide)).cons (by decide)
    · have he : indented (c :: s) = c :: indented s := by simp [indented, hn]
      rw [he]
      exact List.isChain_cons.2 ⟨head?_indented s ▸ hc, htail⟩

theorem IsCommentText.indent {behind : List Char} {s : String} (h : IsCommentText behind s) :
    IsCommentText (indented behind) (indentContinuation s) := by
  obtain rfl | ⟨body, hs, hu⟩ := h
  · exact .inl rfl
  · refine .inr ⟨indented body, ?_, ?_⟩
    · simp only [toList_indented, hs, indented_append]
      rfl
    · have hi := unterminated_indented hu
      rwa [indented_append, indented_append] at hi

theorem isCommentText_indented (d : Option String) :
    IsCommentText ['\n', '\t'] (indentContinuation (docComment d)) :=
  (isCommentText_docComment d).indent

end Indented

end SchemaTypings.TypeScript
