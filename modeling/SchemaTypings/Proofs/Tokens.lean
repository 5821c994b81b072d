import Mathlib.Data.List.TakeWhile
import SchemaTypings.Proofs.CommentEnds
import SchemaTypings.Proofs.Names
import SchemaTypings.TypeScript.Declaration

namespace SchemaTypings.TypeScript

open Text
open Sdl (IsWord isNameChar)

inductive Token where
  | word (text : String)
  | literal (text : String)
  | mark (char : Char)
deriving DecidableEq

def Token.literal? : Token → Option String
  | literal t => some t
  | _ => none

theorem length_behindTerminator (s : List Char) : (behindTerminator s).length ≤ s.length := by
  induction s using behindTerminator.induct with
  | case1 r =>
    simp only [behindTerminator, List.length_cons]
    omega
  | case2 c r h ih =>
    rw [behindTerminator, List.length_cons]
    · omega
    · exact h
  | case3 => rfl

/-- A slash and a star open a comment, up to the first star and slash behind them. -/
def tokens : List Char → List Token
  | [] => []
  | '/' :: '*' :: r => tokens (behindTerminator r)
  | '\'' :: r =>
    .literal (String.ofList (r.takeWhile (· != '\''))) :: tokens (r.dropWhile (· != '\'')).tail
  | c :: r =>
    if isNameChar c then
      .word (String.ofList (c :: r.takeWhile isNameChar)) :: tokens (r.dropWhile isNameChar)
    else if isBlank c then tokens r
    else .mark c :: tokens r
termination_by s => s.length
decreasing_by
  · have := length_behindTerminator r
    simp only [List.length_cons]
    omega
  · have := (List.dropWhile_sublist (l := r) (· != '\'')).length_le
    simp only [List.length_cons, List.length_tail]
    omega
  · have := (List.dropWhile_sublist (l := r) isNameChar).length_le
    simp only [List.length_cons]
    omega
  · simp
  · simp

def literals (s : String) : List String :=
  (tokens s.toList).filterMap Token.literal?

/-- A text is read as these tokens, whatever stands behind it. -/
def Reads (s : String) (ts : List Token) : Prop :=
  ∀ r, tokens (s.toList ++ r) = ts ++ tokens r

theorem tokens_cons {c : Char} (hs : c ≠ '/') (hq : c ≠ '\'') (r : List Char) :
    tokens (c :: r) =
      if isNameChar c then
        .word (String.ofList (c :: r.takeWhile isNameChar)) :: tokens (r.dropWhile isNameChar)
      else if isBlank c then tokens r
      else .mark c :: tokens r := by
  apply tokens.eq_4
  · exact fun _ he _ => hs he
  · exact hq

namespace Reads

variable {s t : String} {ts us : List Token}

theorem tokens_eq (h : Reads s ts) : tokens s.toList = ts := by
  have hr := h []
  rwa [List.append_nil, tokens, List.append_nil] at hr

theorem empty : Reads "" [] := fun _ => rfl

theorem append (hs : Reads s ts) (ht : Reads t us) : Reads (s ++ t) (ts ++ us) := fun r => by
  rw [String.toList_append, List.append_assoc, hs, ht, List.append_assoc]

theorem intercalate {α : Type} {f : α → String} {g : α → List Token} {l : List α}
    (hs : Reads s ts) (h : ∀ a ∈ l, Reads (f a) (g a)) :
    Reads (s.intercalate (l.map f)) (ts.intercalate (l.map g)) := by
  induction l with
  | nil => exact empty
  | cons a l ih =>
    obtain ⟨ha, hl⟩ := List.forall_mem_cons.1 h
    cases l with
    | nil => simpa using ha
    | cons b l =>
      have hrest := (ha.append hs).append (ih hl)
      rw [List.map_cons, List.map_cons, String.intercalate_cons_cons, List.map_cons, List.map_cons]
      simpa using hrest

theorem blank {c : Char} (h : isBlank c = true) (hn : isNameChar c = false) :
    Reads (String.singleton c) [] := fun r => by
  have hs : c ≠ '/' := by rintro rfl; exact absurd h (by decide)
  have hq : c ≠ '\'' := by rintro rfl; exact absurd h (by decide)
  rw [String.toList_singleton, List.singleton_append, tokens_cons hs hq, hn, h]
  rfl

theorem mark {c : Char} (hs : c ≠ '/') (hq : c ≠ '\'') (hb : isBlank c = false)
    (hn : isNameChar c = false) : Reads (String.singleton c) [.mark c] := fun r => by
  rw [String.toList_singleton, List.singleton_append, tokens_cons hs hq, hn, hb]
  rfl

theorem word (h : IsWord s) (hne : s ≠ "") : Reads (s ++ " ") [.word s] := fun r => by
  obtain ⟨c, w, hw⟩ := List.exists_cons_of_ne_nil (String.toList_eq_nil_iff.not.2 hne)
  obtain ⟨hc, hall⟩ := List.forall_mem_cons.1 (hw ▸ h : ∀ d ∈ c :: w, isNameChar d = true)
  have hs : c ≠ '/' := by rintro rfl; exact absurd hc (by decide)
  have hq : c ≠ '\'' := by rintro rfl; exact absurd hc (by decide)
  have htake : (w ++ ' ' :: r).takeWhile isNameChar = w := by
    rw [List.takeWhile_append_of_pos hall]
    exact List.append_nil w
  have hdrop : (w ++ ' ' :: r).dropWhile isNameChar = ' ' :: r := List.dropWhile_append_of_pos hall
  have hblank : tokens (' ' :: r) = tokens r := blank (c := ' ') (by decide) (by decide) r
  have htext : (s ++ " ").toList ++ r = c :: (w ++ ' ' :: r) := by
    rw [String.toList_append, hw]
    simp
  rw [htext, tokens_cons hs hq, if_pos hc, htake, hdrop, hblank, ← hw, String.ofList_toList]
  rfl

theorem literal (h : '\'' ∉ s.toList) : Reads (TypeScript.literal s) [.literal s] := fun r => by
  have hall : ∀ d ∈ s.toList, (d != '\'') = true := fun d hd => by
    have hne : d ≠ '\'' := fun he => h (he ▸ hd)
    simpa using hne
  have htake : (s.toList ++ '\'' :: r).takeWhile (· != '\'') = s.toList := by
    rw [List.takeWhile_append_of_pos hall]
    exact List.append_nil _
  have hdrop : (s.toList ++ '\'' :: r).dropWhile (· != '\'') = '\'' :: r :=
    List.dropWhile_append_of_pos hall
  have htext : (TypeScript.literal s).toList ++ r = '\'' :: (s.toList ++ '\'' :: r) := by
    simp [TypeScript.literal]
  rw [htext, tokens, htake, hdrop, String.ofList_toList]
  rfl

theorem comment {behind : List Char} (h : IsCommentText behind s)
    (hb : Reads (String.ofList behind) []) : Reads s [] := by
  obtain rfl | ⟨body, hs, hu⟩ := h
  · exact empty
  · intro r
    have hstar : Unterminated ('*' :: body ++ ['*']) :=
      (List.isChain_cons.1 (List.isChain_cons.1 hu).2).2
    have htext : s.toList ++ r = '/' :: '*' :: ('*' :: body ++ '*' :: '/' :: (behind ++ r)) := by
      simp [hs, opening, terminator]
    have hbehind := hb r
    rw [String.toList_ofList] at hbehind
    rw [htext, tokens, hstar.behindTerminator_append, hbehind]

end Reads

end SchemaTypings.TypeScript
