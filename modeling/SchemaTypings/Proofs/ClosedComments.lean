import Mathlib.Logic.Function.Iterate
import SchemaTypings.Proofs.CommentEnds
import SchemaTypings.Proofs.DeclarationLines

namespace SchemaTypings.TypeScript

open Text

theorem trim_eq_nil_iff {s : List Char} : trim s = [] ↔ ∀ c ∈ s, isBlank c = true := by
  have hend : trim s = [] ↔ ∀ c ∈ trimStart s, isBlank c = true := List.rdropWhile_eq_nil_iff
  rw [hend]
  constructor
  · intro h
    have hstart : trimStart s = [] := by
      by_contra hne
      exact Bool.eq_false_iff.1 (List.head_dropWhile_not isBlank hne) (h _ (List.head_mem hne))
    exact List.dropWhile_eq_nil_iff.1 hstart
  · exact fun h c hc => h c ((List.dropWhile_suffix isBlank).subset hc)

def IsFilled (l : Line) : Prop :=
  ∃ c ∈ l.getLast?, isBlank c = false

theorem isFilled_append {l m : Line} (h : IsFilled m) : IsFilled (l ++ m) := by
  obtain ⟨c, hc, hb⟩ := h
  refine ⟨c, ?_, hb⟩
  rw [List.getLast?_append, Option.mem_def.1 hc]
  rfl

theorem isFilled_commentText (l : Line) : IsFilled (commentText l) := by
  by_cases h : trimEnd l = []
  · rw [commentText_of_blank h]
    exact ⟨'*', rfl, rfl⟩
  · rw [commentText_of_text h]
    apply isFilled_append
    have hlast : ¬isBlank ((trimEnd l).getLast h) = true := List.rdropWhile_last_not isBlank l h
    exact ⟨_, List.getLast?_eq_some_getLast h, Bool.not_eq_true _ ▸ hlast⟩

theorem star_prefix_commentText (l : Line) : [' ', '*'] <+: commentText l := by
  by_cases h : trimEnd l = []
  · exact ⟨[], by rw [commentText_of_blank h, List.append_nil]⟩
  · rw [commentText_of_text h]
    exact ⟨' ' :: trimEnd l, rfl⟩

/-- The first line of a comment opens it, and every further one starts with a star. -/
structure IsStarred (first : Line) (further : List Line) : Prop where
  opens : opening <+: first
  starred : ∀ l ∈ further, [' ', '*'] <+: l
  filled : ∀ l ∈ first :: further, IsFilled l

theorem isStarred_linesAround (t : List Char) :
    ∃ first further, linesAround t = first :: further ∧ IsStarred first further := by
  have hend : IsFilled [' ', '*', '/'] := ⟨'/', rfl, rfl⟩
  by_cases h : t.contains '\n' = true
  · refine ⟨opening, (lines t).map commentText ++ [[' ', '*', '/']], if_pos h, List.prefix_rfl, ?_, ?_⟩
    · refine List.forall_mem_append.2 ⟨List.forall_mem_map.2 fun l _ => star_prefix_commentText l, ?_⟩
      exact List.forall_mem_singleton.2 ⟨['/'], rfl⟩
    · refine List.forall_mem_cons.2 ⟨⟨'*', rfl, rfl⟩, List.forall_mem_append.2 ⟨?_, ?_⟩⟩
      · exact List.forall_mem_map.2 fun l _ => isFilled_commentText l
      · exact List.forall_mem_singleton.2 hend
  · refine ⟨['/', '*', '*', ' '] ++ t ++ [' ', '*', '/'], [], if_neg h, ?_, nofun, ?_⟩
    · exact ⟨' ' :: t ++ [' ', '*', '/'], rfl⟩
    · exact List.forall_mem_singleton.2 (isFilled_append hend)

theorem commentLines_eq_nil_iff {d : String} :
    commentLines (some d) = [] ↔ ∀ c ∈ d.toList, isBlank c = true := by
  rw [← trim_eq_nil_iff, commentLines]
  cases trim d.toList with
  | nil => exact iff_of_true rfl rfl
  | cons c r =>
    obtain ⟨first, further, he, -⟩ := isStarred_linesAround (escapeTerminator (c :: r))
    have hlines : linesAround (escapeTerminator (c :: r)) ≠ [] := he ▸ List.cons_ne_nil _ _
    exact iff_of_false hlines (List.cons_ne_nil _ _)

theorem isStarred_commentLines {d : String} {first : Line} {further : List Line}
    (h : commentLines (some d) = first :: further) : IsStarred first further := by
  rw [commentLines] at h
  cases ht : trim d.toList with
  | nil =>
    rw [ht] at h
    cases h
  | cons c r =>
    rw [ht] at h
    obtain ⟨first', further', he, hstarred⟩ := isStarred_linesAround (escapeTerminator (c :: r))
    obtain ⟨rfl, rfl⟩ := List.cons.inj (he.symm.trans h)
    exact hstarred

section Passes

def tabbed (k : Nat) (l : Line) : Line :=
  List.replicate k '\t' ++ l

theorem newline_not_mem_tabbed {l : Line} (h : '\n' ∉ l) (k : Nat) : '\n' ∉ tabbed k l := fun hm =>
  (List.mem_append.1 hm).elim (fun ht => absurd (List.eq_of_mem_replicate ht) (by decide)) h

theorem intercalate_tab (l : Line) (ls : List Line) :
    ['\n', '\t'].intercalate (l :: ls) = joinLines (l :: ls.map ('\t' :: ·)) := by
  by_cases h : ls = []
  · subst h
    rfl
  · have hmap : ls.map ('\t' :: ·) ≠ [] := mt List.map_eq_nil_iff.1 h
    rw [List.intercalate_cons_of_ne_nil h, joinLines_cons l hmap, joinLines_tabbed h,
      List.append_assoc]
    rfl

theorem toList_indented_passes {s : String} {first : Line} {ls : List Line}
    (hs : s.toList = joinLines (first :: ls)) (h : ∀ l ∈ first :: ls, '\n' ∉ l) (k : Nat) :
    (indentContinuation^[k] s).toList = joinLines (first :: ls.map (tabbed k)) := by
  induction k with
  | zero =>
    have hmap : ls.map (tabbed 0) = ls := List.map_id ls
    rw [hmap]
    exact hs
  | succ k ih =>
    obtain ⟨hfirst, hls⟩ := List.forall_mem_cons.1 h
    have hlines : ∀ l ∈ first :: ls.map (tabbed k), '\n' ∉ l :=
      List.forall_mem_cons.2 ⟨hfirst, List.forall_mem_map.2 fun l hl =>
        newline_not_mem_tabbed (hls l hl) k⟩
    rw [Function.iterate_succ_apply', toList_indentContinuation ih hlines, intercalate_tab,
      List.map_map]
    rfl

theorem isCommentText_passes (d : Option String) (k : Nat) :
    IsCommentText ('\n' :: List.replicate k '\t') (indentContinuation^[k] (docComment d)) := by
  induction k with
  | zero => exact isCommentText_docComment d
  | succ k ih =>
    have htabs : indented (List.replicate k '\t') = List.replicate k '\t' := by
      apply indented_eq_self
      simp
    have hbehind : indented ('\n' :: List.replicate k '\t') = '\n' :: List.replicate (k + 1) '\t' :=
      (indented_append ['\n'] _).trans (congrArg (['\n', '\t'] ++ ·) htabs)
    rw [Function.iterate_succ_apply', ← hbehind]
    exact ih.indent

end Passes

theorem toList_docComment (d : Option String) :
    (docComment d).toList = joinLines (commentLines d ++ [[]]) := by
  rw [docComment_eq, String.toList_ofList, joinLines, intercalate_append _ _ (List.cons_ne_nil _ _)]
  exact (List.append_nil _).symm

theorem passes_of_blank {d : Option String} (h : commentLines d = []) (k : Nat) :
    indentContinuation^[k] (docComment d) = "" := by
  have hempty : docComment d = "" := by
    apply String.toList_inj.1
    rw [toList_docComment, h]
    rfl
  rw [hempty]
  exact Function.iterate_fixed rfl k

theorem toList_passes {d : Option String} {first : Line} {further : List Line}
    (h : commentLines d = first :: further) (k : Nat) :
    (indentContinuation^[k] (docComment d)).toList =
      joinLines (first :: further.map (tabbed k) ++ [List.replicate k '\t']) ∧
    ∀ l ∈ first :: further.map (tabbed k) ++ [List.replicate k '\t'], '\n' ∉ l := by
  have hnewline := newline_not_mem_commentLines d
  rw [h] at hnewline
  obtain ⟨hfirst, hfurther⟩ := List.forall_mem_cons.1 hnewline
  have htext : (docComment d).toList = joinLines (first :: (further ++ [[]])) := by
    rw [toList_docComment, h]
    rfl
  have hbehind : ∀ l ∈ further ++ [[]], '\n' ∉ l :=
    List.forall_mem_append.2 ⟨hfurther, List.forall_mem_singleton.2 List.not_mem_nil⟩
  have hmap : (further ++ [[]]).map (tabbed k) = further.map (tabbed k) ++ [List.replicate k '\t'] := by
    rw [List.map_append, List.map_singleton, tabbed, List.append_nil]
  rw [List.cons_append, ← hmap]
  refine ⟨toList_indented_passes htext (List.forall_mem_cons.2 ⟨hfirst, hbehind⟩) k, ?_⟩
  exact List.forall_mem_cons.2 ⟨hfirst, List.forall_mem_map.2 fun l hl =>
    newline_not_mem_tabbed (hbehind l hl) k⟩

/-- However far a comment is indented, its own terminator is the first one in it. It is empty for a
blank description only; else all of its lines are filled, and start as those of a comment do. -/
theorem docComment_closed (d : String) (k : Nat) :
    (indentContinuation^[k] (docComment (some d)) = "" ↔ ∀ c ∈ d.toList, isBlank c = true) ∧
    ((∃ c ∈ d.toList, isBlank c = false) → ∃ body first further,
      (indentContinuation^[k] (docComment (some d))).toList =
        opening ++ body ++ terminator ++ '\n' :: List.replicate k '\t' ∧
      ¬terminator <:+: opening ++ body ++ ['*'] ∧
      splitLines (indentContinuation^[k] (docComment (some d))).toList =
        first :: further.map (tabbed k) ++ [List.replicate k '\t'] ∧
      IsStarred first further) := by
  cases hc : commentLines (some d) with
  | nil =>
    have hblank := commentLines_eq_nil_iff.1 hc
    refine ⟨iff_of_true (passes_of_blank hc k) hblank, ?_⟩
    rintro ⟨c, hd, hb⟩
    exact absurd (hblank c hd) (Bool.eq_false_iff.1 hb)
  | cons first further =>
    have hblank : ¬∀ c ∈ d.toList, isBlank c = true := fun h =>
      absurd (hc.symm.trans (commentLines_eq_nil_iff.2 h)) (List.cons_ne_nil _ _)
    obtain ⟨htext, hnewline⟩ := toList_passes hc k
    have hne : indentContinuation^[k] (docComment (some d)) ≠ "" := by
      intro he
      rw [he, List.cons_append, joinLines_cons _ (by simp)] at htext
      simp at htext
    refine ⟨iff_of_false hne hblank, fun _ => ?_⟩
    obtain ⟨body, hbody, hclosed⟩ := (isCommentText_passes (some d) k).resolve_left hne
    refine ⟨body, first, further, hbody, unterminated_iff.1 hclosed, ?_, isStarred_commentLines hc⟩
    rw [htext, splitLines_joinLines hnewline (List.cons_ne_nil _ _)]

/-- Stars and slashes that meet when lines are cut, and blank ends of lines. -/
def starredText : String := "  **//*\r\n\t\n/ x * \u2003\r\n/ "

theorem docComment_of_starredText : ∃ body first further,
    (indentContinuation^[2] (docComment (some starredText))).toList =
      opening ++ body ++ terminator ++ ['\n', '\t', '\t'] ∧
    ¬terminator <:+: opening ++ body ++ ['*'] ∧
    splitLines (indentContinuation^[2] (docComment (some starredText))).toList =
      first :: further.map (tabbed 2) ++ [['\t', '\t']] ∧
    IsStarred first further :=
  (docComment_closed starredText 2).2 ⟨'*', by decide, by decide⟩

example : docComment (some starredText) =
    "/**\n * **\\//*\n *\n * / x *\n * /\n */\n" := by
  decide

end SchemaTypings.TypeScript
