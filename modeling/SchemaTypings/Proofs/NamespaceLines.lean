import SchemaTypings.Proofs.DeclarationLines
import SchemaTypings.TypeScript.Declare

namespace SchemaTypings

open Text TypeScript

section Blocks

variable {ls : List Line} {lss : List (List Line)}

theorem forall_mem_blocks {P : Line → Prop} (hnil : P []) (h : ∀ ls ∈ lss, ∀ l ∈ ls, P l) :
    ∀ l ∈ [([] : Line)].intercalate lss, P l := by
  induction lss with
  | nil => exact List.forall_mem_nil _
  | cons ls lss ih =>
    obtain ⟨hl, hs⟩ := List.forall_mem_cons.1 h
    by_cases hne : lss = []
    · subst hne
      simpa using hl
    · rw [List.intercalate_cons_of_ne_nil hne, List.append_assoc]
      exact List.forall_mem_append.2 ⟨hl, List.forall_mem_cons.2 ⟨hnil, ih hs⟩⟩

theorem blocks_ne_nil (h : ∀ ls ∈ lss, ls ≠ []) (hne : lss ≠ []) :
    [([] : Line)].intercalate lss ≠ [] := by
  cases lss with
  | nil => exact absurd rfl hne
  | cons ls lss =>
    have hl := h ls (List.mem_cons_self ..)
    cases lss with
    | nil => simpa using hl
    | cons => simp [hl]

theorem getLast?_blocks (h : ∀ ls ∈ lss, ls ≠ [] ∧ ∀ l ∈ ls, l ≠ []) :
    ([([] : Line)].intercalate lss).getLast? ≠ some [] := by
  induction lss with
  | nil => simp
  | cons ls lss ih =>
    obtain ⟨hl, hs⟩ := List.forall_mem_cons.1 h
    by_cases hne : lss = []
    · subst hne
      rw [List.intercalate_singleton]
      exact fun he => hl.2 [] (List.mem_of_getLast? he) rfl
    · have hb := blocks_ne_nil (fun ls hls => (hs ls hls).1) hne
      rw [List.intercalate_cons_of_ne_nil hne, List.getLast?_append_of_ne_nil _ hb]
      exact ih hs

theorem map_blocks {f : Line → Line} (hf : f [] = []) (lss : List (List Line)) :
    ([([] : Line)].intercalate lss).map f = [[]].intercalate (lss.map (List.map f)) := by
  induction lss with
  | nil => rfl
  | cons ls lss ih =>
    by_cases hne : lss = []
    · subst hne
      simp
    · have hm : lss.map (List.map f) ≠ [] := by simpa using hne
      rw [List.map_cons, List.intercalate_cons_of_ne_nil hne, List.intercalate_cons_of_ne_nil hm,
        List.map_append, List.map_append, ih, List.map_singleton, hf]

theorem joinLines_blocks (h : ∀ ls ∈ lss, ls ≠ []) :
    joinLines ([([] : Line)].intercalate lss) = ['\n', '\n'].intercalate (lss.map joinLines) := by
  induction lss with
  | nil => rfl
  | cons ls lss ih =>
    obtain ⟨hl, hs⟩ := List.forall_mem_cons.1 h
    by_cases hne : lss = []
    · subst hne
      simp
    · have hb := blocks_ne_nil hs hne
      have hm : lss.map joinLines ≠ [] := by simpa using hne
      have hj : joinLines (ls ++ [] :: [[]].intercalate lss) =
          joinLines ls ++ ['\n'] ++ joinLines ([] :: [[]].intercalate lss) := by
        rw [joinLines, intercalate_append _ _ (List.cons_ne_nil _ _), flatMap_append_eq _ hl]
        rfl
      rw [List.map_cons, List.intercalate_cons_of_ne_nil hm, List.intercalate_cons_of_ne_nil hne,
        List.append_assoc, ← ih hs]
      exact hj.trans (by simp [joinLines_cons [] hb])

end Blocks

def Options.header (o : Options) : Line :=
  (o.visibility.modifier ++ "namespace " ++ o.namespaceName ++ " \x7b").toList

/-- The lines of declarations with a blank line between any two of them. -/
def bodyLines (ds : List Declaration) : List Line :=
  [[]].intercalate (ds.map Declaration.lines)

section Namespace

variable {ds : List Declaration}

theorem forall_mem_bodyLines {P : Line → Prop} (hnil : P []) (h : ∀ d ∈ ds, ∀ l ∈ d.lines, P l) :
    ∀ l ∈ bodyLines ds, P l :=
  forall_mem_blocks hnil (List.forall_mem_map.2 h)

theorem isLine_bodyLines (h : ∀ d ∈ ds, d.layout.IsPlain) : ∀ l ∈ bodyLines ds, IsLine l := by
  refine forall_mem_bodyLines ⟨by simp, by simp⟩ fun d hd l hl => ?_
  exact (Declaration.isLine_lines (h d hd) l hl).1

theorem bodyLines_ne_nil (hne : ds ≠ []) : bodyLines ds ≠ [] :=
  blocks_ne_nil (List.forall_mem_map.2 fun d _ => d.lines_ne_nil) (by simpa using hne)

theorem isLine_indentLine {l : Line} (h : IsLine l) : IsLine (indentLine l) := by
  unfold indentLine
  split
  · exact h
  · exact h.cons (by decide) (by decide)

theorem indentedBody_eq (h : ∀ d ∈ ds, d.layout.IsPlain) :
    indentedBody (ds.map Declaration.text) = joinLines ((bodyLines ds).map indentLine) := by
  have hl : ∀ ls ∈ ds.map Declaration.lines, ls ≠ [] ∧ ∀ l ∈ ls, l ≠ [] :=
    List.forall_mem_map.2 fun d hd =>
      ⟨d.lines_ne_nil, fun l hl => (Declaration.isLine_lines (h d hd) l hl).2⟩
  have ht : ("\n\n".intercalate (ds.map Declaration.text)).toList = joinLines (bodyLines ds) := by
    rw [bodyLines, joinLines_blocks fun ls hls => (hl ls hls).1, String.toList_intercalate,
      List.map_map, List.map_map]
    exact congrArg _ (List.map_congr_left fun d hd => Declaration.toList_text (h d hd))
  rw [indentedBody, ht, lines_joinLines (isLine_bodyLines h) (getLast?_blocks hl)]
  rfl

theorem toList_namespaceText {o : Options} (h : ∀ d ∈ ds, d.layout.IsPlain) (hne : ds ≠ []) :
    (o.namespaceText (ds.map Declaration.text)).toList =
      joinLines (o.header :: [] :: (bodyLines ds).map indentLine ++ [[], ['\x7d']]) := by
  have hb : (bodyLines ds).map indentLine ≠ [] := by simpa using bodyLines_ne_nil hne
  have hend : joinLines ((bodyLines ds).map indentLine ++ [[], ['\x7d']]) =
      joinLines ((bodyLines ds).map indentLine) ++ ['\n', '\n', '\x7d'] := by
    rw [joinLines, intercalate_append _ _ (List.cons_ne_nil _ _), flatMap_append_eq _ hb]
    simp [joinLines]
  rw [List.cons_append, List.cons_append, joinLines_cons _ (List.cons_ne_nil _ _),
    joinLines_cons _ (List.append_ne_nil_of_left_ne_nil hb _), hend, ← indentedBody_eq h]
  simp [Options.namespaceText, Options.header]

/-- The lines of a namespace, read off its text. -/
theorem splitLines_namespaceText {o : Options} (hn : SingleLine o.namespaceName)
    (h : ∀ d ∈ ds, d.layout.IsPlain) (hne : ds ≠ []) :
    splitLines (o.namespaceText (ds.map Declaration.text)).toList =
      o.header :: [] :: (bodyLines ds).map indentLine ++ [[], ['\x7d']] := by
  have hb : ∀ l ∈ (bodyLines ds).map indentLine, '\n' ∉ l :=
    List.forall_mem_map.2 fun l hl => (isLine_indentLine (isLine_bodyLines h l hl)).1
  have hh : '\n' ∉ o.header := by
    have hv : '\n' ∉ o.visibility.modifier.toList := by cases o.visibility <;> decide
    simp [Options.header, hn.1, hv]
  rw [toList_namespaceText h hne]
  refine splitLines_joinLines ?_ (List.cons_ne_nil _ _)
  refine List.forall_mem_cons.2 ⟨hh, List.forall_mem_cons.2 ⟨by simp, ?_⟩⟩
  exact List.forall_mem_append.2 ⟨hb, by simp⟩

end Namespace

end SchemaTypings
