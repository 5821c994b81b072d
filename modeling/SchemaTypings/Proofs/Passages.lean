import Mathlib.Data.List.Basic
import SchemaTypings.Proofs.TypeTexts

namespace SchemaTypings.Sdl

/-- From what is left of a text at one place to what is left of it at a later one. -/
abbrev Passage := List Char → List Char → Prop

namespace Passage

def accepted {α : Type} (p : Reader α) : Passage := fun s r =>
  ∃ a, p s = some (a, r)

def optionally (P : Passage) : Passage := fun s r =>
  s = r ∨ P s r

def inTurn : List Passage → Passage
  | [] => fun s r => s = r
  | P :: Ps => fun s r => ∃ q, P s q ∧ inTurn Ps q r

/-- These characters, in front of something that ends them, and what is passed over behind them. -/
def word (w : String) (ends : List Char → Prop) : Passage := fun s r =>
  ∃ q, s = w.toList ++ q ∧ ends q ∧ r = dropIgnored false q

def keyword (w : String) : Passage :=
  word w fun _ => True

def symbol (c : Char) : Passage :=
  keyword (String.singleton c)

def name (n : String) : Passage := fun s r =>
  IsName n ∧ word n EndsWord s r

/-- Items between brackets. Where there are no items, there are no brackets. -/
def bracketed (opening closing : Char) : List Passage → Passage
  | [] => inTurn []
  | P :: Ps => inTurn [symbol opening, inTurn (P :: Ps), symbol closing]

/-- Names behind a heading, with a separator between them, which may also stand in front. Where
there are no names, there is no heading. -/
def listed (heading : Passage) (separator : Char) : List String → Passage
  | [] => inTurn []
  | n :: ns => inTurn [heading, optionally (accepted (Sdl.symbol separator)), name n,
      inTurn (ns.map fun m => inTurn [symbol separator, name m])]

theorem exists_of_inTurn {α : Type} {P : α → Passage} {l : List α} {s r : List Char}
    (h : inTurn (l.map P) s r) : ∀ a ∈ l, ∃ s' r', P a s' r' := by
  induction l generalizing s with
  | nil => exact List.forall_mem_nil _
  | cons a l ih =>
    obtain ⟨q, ha, hl⟩ := h
    exact List.forall_mem_cons.2 ⟨⟨s, q, ha⟩, ih hl⟩

theorem exists_of_bracketed {α : Type} {P : α → Passage} {l : List α} {opening closing : Char}
    {s r : List Char} (h : bracketed opening closing (l.map P) s r) :
    ∀ a ∈ l, ∃ s' r', P a s' r' := by
  cases l with
  | nil => exact List.forall_mem_nil _
  | cons a l =>
    obtain ⟨q, -, q', hl, -⟩ := h
    exact exists_of_inTurn hl

theorem allNames_of_listed {heading : Passage} {separator : Char} {ns : List String}
    {s r : List Char} (h : listed heading separator ns s r) : AllNames ns := by
  cases ns with
  | nil => exact List.forall_mem_nil _
  | cons n ns =>
    obtain ⟨_, -, _, -, _, ⟨hn, -⟩, _, hns, -⟩ := h
    refine AllNames.cons hn fun m hm => ?_
    obtain ⟨_, _, _, -, _, ⟨hname, -⟩, -⟩ := exists_of_inTurn hns m hm
    exact hname

end Passage

namespace Reader

open Passage

variable {α β : Type} {p q : Reader α} {P : α → Passage} {s r : List Char} {a : α}

theorem bind_eq_some {f : α → Reader β} {b : β} :
    (p >>= f) s = some (b, r) ↔ ∃ a q, p s = some (a, q) ∧ f a q = some (b, r) := by
  change (p s).bind (fun x => f x.1 x.2) = some (b, r) ↔ _
  simp [Option.bind_eq_some_iff]

theorem map_eq_some {f : α → β} {b : β} :
    (f <$> p) s = some (b, r) ↔ ∃ a, p s = some (a, r) ∧ f a = b := by
  change (p s).bind (fun x => some (f x.1, x.2)) = some (b, r) ↔ _
  constructor
  · intro h
    obtain ⟨⟨a, q⟩, ha, hb⟩ := Option.bind_eq_some_iff.1 h
    obtain ⟨rfl, rfl⟩ := Prod.mk.inj (Option.some.inj hb)
    exact ⟨a, ha, rfl⟩
  · rintro ⟨a, ha, rfl⟩
    rw [ha]
    rfl

theorem pure_eq_some {b : α} : (pure a : Reader α) s = some (b, r) ↔ a = b ∧ s = r := by
  change some (a, s) = some (b, r) ↔ _
  simp

theorem orElse_eq_some (h : (p <|> q) s = some (a, r)) :
    p s = some (a, r) ∨ q s = some (a, r) := by
  change (p s <|> q s) = some (a, r) at h
  cases hp : p s with
  | none => exact .inr (by simpa [hp] using h)
  | some x => exact .inl (by simpa [hp] using h)

/-- What is taken off is the passage of the value that is given. -/
def Spells (p : Reader α) (P : α → Passage) : Prop :=
  ∀ s a r, p s = some (a, r) → P a s r

theorem spells_optionally (p : Reader α) : p.Spells fun _ => optionally (accepted p) :=
  fun _ a _ h => .inr ⟨a, h⟩

theorem spells_orElse (hp : p.Spells P) (hq : q.Spells P) : (p <|> q).Spells P := fun s a r h =>
  (orElse_eq_some h).elim (hp s a r) (hq s a r)

theorem spells_map {f : α → β} {Q : β → Passage} (h : p.Spells P)
    (hf : ∀ a s r, P a s r → Q (f a) s r) : Spells (do return f (← p)) Q := by
  intro s b r hs
  obtain ⟨a, q, ha, hpure⟩ := bind_eq_some.1 hs
  obtain ⟨rfl, rfl⟩ := pure_eq_some.1 hpure
  exact hf a s q (h s a q ha)

theorem spells_optional (p : Reader α) : (optional p).Spells fun _ => optionally (accepted p) := by
  intro s o r h
  obtain h | h := orElse_eq_some h
  · obtain ⟨a, ha, -⟩ := map_eq_some.1 h
    exact .inr ⟨a, ha⟩
  · exact .inl (pure_eq_some.1 h).2

theorem spells_orEmpty {p : Reader (List α)} {P : List α → Passage} (h : p.Spells P)
    (hempty : ∀ s, P [] s s) : (orEmpty p).Spells P := by
  refine spells_orElse h fun s as r hpure => ?_
  obtain ⟨rfl, rfl⟩ := pure_eq_some.1 hpure
  exact hempty s

theorem spells_orEmpty_accepted (p : Reader (List α)) :
    (orEmpty p).Spells fun _ => optionally (accepted p) :=
  spells_orEmpty (spells_optionally p) fun _ => .inl rfl

theorem word_eq_some :
    Sdl.word p s = some (a, r) ↔ ∃ q, p s = some (a, q) ∧ r = dropIgnored false q := by
  simp only [Sdl.word, bind_eq_some, pure_eq_some, skip, Option.some_inj, Prod.mk.injEq]
  constructor
  · rintro ⟨b, q, hb, u, q', ⟨-, rfl⟩, rfl, rfl⟩
    exact ⟨q, hb, rfl⟩
  · rintro ⟨q, hq, rfl⟩
    exact ⟨a, q, hq, (), _, ⟨trivial, rfl⟩, rfl, rfl⟩

theorem literal_eq_some {w : List Char} {u : Unit} : literal w s = some (u, r) ↔ s = w ++ r := by
  simp only [literal, Option.map_eq_some_iff, Prod.mk.injEq, true_and, exists_eq_right,
    List.isPrefixOf?_eq_some_iff_append_eq]
  exact eq_comm

theorem keyword_eq_some {w : String} {u : Unit} :
    Sdl.keyword w s = some (u, r) ↔ Passage.keyword w s r := by
  simp only [Sdl.keyword, word_eq_some, literal_eq_some, Passage.keyword, Passage.word, true_and]

theorem symbol_eq_some {c : Char} {u : Unit} :
    Sdl.symbol c s = some (u, r) ↔ Passage.symbol c s r := by
  rw [Passage.symbol, ← keyword_eq_some (u := u), Sdl.symbol, Sdl.keyword, String.toList_singleton]

theorem name_eq_some {n : String} : Sdl.name s = some (n, r) ↔ Passage.name n s r := by
  simp only [Sdl.name, word_eq_some, bareName_eq_some_iff, Passage.name, Passage.word, and_assoc,
    exists_and_left]

theorem inTurn_repeated (h : p.Spells P) (bound s : List Char) :
    inTurn ((repeated p bound s).1.map P) s (repeated p bound s).2 := by
  induction bound generalizing s with
  | nil => rfl
  | cons c bound ih =>
    cases hp : p s with
    | none =>
      simp only [repeated, hp]
      rfl
    | some x =>
      simp only [repeated, hp]
      exact ⟨x.2, h s x.1 x.2 hp, ih x.2⟩

theorem spells_many (h : p.Spells P) : (many p).Spells fun as => inTurn (as.map P) := by
  intro s as r hs
  have hrun := inTurn_repeated h s s
  rwa [Option.some.inj hs] at hrun

theorem spells_many1 (h : p.Spells P) :
    (many1 p).Spells fun as s r => as ≠ [] ∧ inTurn (as.map P) s r := by
  intro s as r hs
  simp only [many1, bind_eq_some, pure_eq_some] at hs
  obtain ⟨a, q, ha, as, q', has, rfl, rfl⟩ := hs
  exact ⟨List.cons_ne_nil a as, q, h _ _ _ ha, spells_many h _ _ _ has⟩

theorem seqRight_eq_some {q : Reader β} {b : β} :
    (p *> q) s = some (b, r) ↔ ∃ a t, p s = some (a, t) ∧ q t = some (b, r) :=
  bind_eq_some

theorem spells_listed {heading : Reader Unit} {P : Passage} (h : heading.Spells fun _ => P)
    (separator : Char) :
    Spells (do heading; separatedNames separator) (listed P separator) := by
  have hrest : (Sdl.symbol separator *> Sdl.name).Spells fun m =>
      inTurn [Passage.symbol separator, Passage.name m] := by
    intro s m r hs
    obtain ⟨u, q, hu, hm⟩ := seqRight_eq_some.1 hs
    exact ⟨q, symbol_eq_some.1 hu, r, name_eq_some.1 hm, rfl⟩
  intro s ns r hs
  simp only [separatedNames, bind_eq_some, pure_eq_some, name_eq_some] at hs
  obtain ⟨u, s₁, hheading, o, s₂, hfront, n, s₃, hn, ns, s₄, hns, rfl, rfl⟩ := hs
  exact ⟨s₁, h _ _ _ hheading, s₂, spells_optional _ _ _ _ hfront, s₃, hn,
    s₄, spells_many hrest _ _ _ hns, rfl⟩

theorem spells_block (opening closing : Char) (h : p.Spells P) :
    (block opening closing p).Spells fun as => bracketed opening closing (as.map P) := by
  intro s as r hs
  simp only [block, bind_eq_some, pure_eq_some, symbol_eq_some] at hs
  obtain ⟨-, s₁, hopening, as, s₂, has, -, s₃, hclosing, rfl, rfl⟩ := hs
  obtain ⟨hne, hitems⟩ := spells_many1 h _ _ _ has
  cases as with
  | nil => exact absurd rfl hne
  | cons a as => exact ⟨s₁, hopening, s₂, hitems, s₃, hclosing, rfl⟩

end Reader

end SchemaTypings.Sdl
