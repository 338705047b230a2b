/-
# Lexing loses nothing

`Lexes` is the lexer as its table describes it: at each spot the first rule of the topmost state
that matches, an error of one character where none does, back to the start behind a line feed that
no rule takes, and the end where no text is left.  **The tokens of a text are the only ones that it
lets have** (`lexes_iff`), so the theorems on the walk are theorems on the table.

Then the way to the terminal.  What is written around each line of a token is a control sequence in
front and one behind, and where the text itself has no escape, taking the sequences out leaves the
text that was lexed.
-/
import Literals.Highlight.Terminal
import Literals.Proofs.TokenRules
import Literals.Proofs.Unstyled

namespace Literals.Highlight

open Text

/-! ## 1. Lexing by the table -/

/-- The tokens of a text, from a spot on and from some states, and the states at its end. -/
inductive Lexes : Stack → Spot → List Token → Stack → Prop
  /-- The first rule that matches takes its match. -/
  | matched {s last : Stack} {x y : Spot} {r : TokenRule} {w : List Char} {ts : List Token}
      (hfirst : firstMatch? s.top.rules x = some (r, y)) (hrest : x.rest = w ++ y.rest)
      (hnext : Lexes (s.act r.action) y ts last) : Lexes s x (⟨r.tokenClass, w⟩ :: ts) last
  /-- A line feed that no rule takes leads back to the start. -/
  | feed {s last : Stack} {x : Spot} {rest : List Char} {ts : List Token}
      (hfirst : firstMatch? s.top.rules x = none) (hrest : x.rest = '\n' :: rest)
      (hnext : Lexes .start (x.forward 1) ts last) : Lexes s x (⟨.text, ['\n']⟩ :: ts) last
  /-- Any other character that no rule takes is an error. -/
  | unmatched {s last : Stack} {x : Spot} {c : Char} {rest : List Char} {ts : List Token}
      (hfirst : firstMatch? s.top.rules x = none) (hrest : x.rest = c :: rest) (hc : c ≠ '\n')
      (hnext : Lexes s (x.forward 1) ts last) : Lexes s x (⟨.error, [c]⟩ :: ts) last
  /-- No rule matches and nothing is left. -/
  | finished {s : Stack} {x : Spot} (hfirst : firstMatch? s.top.rules x = none)
      (hrest : x.rest = []) : Lexes s x [] s

theorem Lexes.unique {s last last' : Stack} {x : Spot} {ts ts' : List Token}
    (h : Lexes s x ts last) (h' : Lexes s x ts' last') : ts' = ts ∧ last' = last := by
  induction h generalizing ts' last' with
  | matched hfirst hrest _ ih =>
    cases h' with
    | matched hfirst' hrest' hnext' =>
      obtain ⟨rfl, rfl⟩ := Prod.mk.inj (Option.some.inj (hfirst.symm.trans hfirst'))
      obtain rfl := List.append_cancel_right (hrest.symm.trans hrest')
      obtain ⟨rfl, rfl⟩ := ih hnext'
      exact ⟨rfl, rfl⟩
    | feed hfirst' => cases hfirst.symm.trans hfirst'
    | unmatched hfirst' => cases hfirst.symm.trans hfirst'
    | finished hfirst' => cases hfirst.symm.trans hfirst'
  | feed hfirst hrest _ ih =>
    cases h' with
    | matched hfirst' => cases hfirst.symm.trans hfirst'
    | feed _ _ hnext' =>
      obtain ⟨rfl, rfl⟩ := ih hnext'
      exact ⟨rfl, rfl⟩
    | unmatched _ hrest' hc' => exact absurd (List.cons.inj (hrest'.symm.trans hrest)).1 hc'
    | finished _ hrest' => cases hrest.symm.trans hrest'
  | unmatched hfirst hrest hc _ ih =>
    cases h' with
    | matched hfirst' => cases hfirst.symm.trans hfirst'
    | feed _ hrest' => exact absurd (List.cons.inj (hrest.symm.trans hrest')).1 hc
    | unmatched _ hrest' _ hnext' =>
      obtain ⟨rfl, -⟩ := List.cons.inj (hrest.symm.trans hrest')
      obtain ⟨rfl, rfl⟩ := ih hnext'
      exact ⟨rfl, rfl⟩
    | finished _ hrest' => cases hrest.symm.trans hrest'
  | finished hfirst hrest =>
    cases h' with
    | matched hfirst' => cases hfirst.symm.trans hfirst'
    | feed _ hrest' => cases hrest.symm.trans hrest'
    | unmatched _ hrest' => cases hrest.symm.trans hrest'
    | finished => exact ⟨rfl, rfl⟩

/-- No rule matches where nothing is left. -/
theorem firstMatch?_nil (m : Mode) (b : Option Char) : firstMatch? m.rules ⟨b, []⟩ = none := by
  rw [firstMatch?, List.findSome?_eq_none_iff]
  intro r hr
  cases hmatch : r.pattern.match? ⟨b, []⟩ with
  | none => rfl
  | some y =>
    obtain ⟨n, -, hn, hpos⟩ := Pattern.forward_of_mem_ends (List.mem_of_head? hmatch)
    exact absurd hn (Nat.not_le.mpr (hpos (not_nullable m r hr)))

theorem top_stack (m : Mode) : m.stack.top = m := by
  cases m <;> rfl

theorem forward_step (b : Option Char) (c : Char) (s : List Char) (n : Nat) :
    Spot.forward ⟨b, c :: s⟩ (n + 1) = ⟨(c :: s.take n).getLast?, s.drop n⟩ := by
  rw [Spot.forward, List.take_succ_cons, List.drop_succ_cons, List.getLast?_cons]
  rfl

/-- The walk over a text makes the tokens of the table. -/
theorem lexes_lexFrom (m : Mode) (b : Option Char) (s : List Char) :
    Lexes m.stack ⟨b, s⟩ (lexFrom m b s).1 (lexFrom m b s).2.stack := by
  fun_induction lexFrom m b s with
  | case1 m b =>
    refine .finished ?_ rfl
    rw [top_stack]
    exact firstMatch?_nil m b
  | case2 m b c s step lexeme ts last heq ih =>
    rw [heq] at ih
    have hfollows := follows_nextStep m b c s
    have hnext : Spot.forward ⟨b, c :: s⟩ (step.extra + 1) = ⟨lexeme.getLast?, s.drop step.extra⟩ :=
      forward_step b c s step.extra
    cases hfirst : firstMatch? m.rules ⟨b, c :: s⟩ with
    | some found =>
      obtain ⟨r, y⟩ := found
      rw [hfirst] at hfollows
      obtain ⟨hy, hclass, hstack⟩ := hfollows
      rw [← top_stack m] at hfirst
      have hrest : c :: s = lexeme ++ y.rest := by
        rw [hy, forward_step, List.cons_append, List.take_append_drop]
      rw [← hclass]
      refine .matched hfirst hrest ?_
      rw [hstack, hy, hnext]
      exact ih
    | none =>
      rw [hfirst] at hfollows
      obtain ⟨hstep, hc⟩ := hfollows
      rw [← top_stack m] at hfirst
      change step = _ at hstep
      simp only [lexeme, hstep] at ih ⊢
      exact .unmatched hfirst rfl hc ih

/-- **The tokens of a text are those of the table, and no others.** -/
theorem lexes_iff {m : Mode} {b : Option Char} {s : List Char} {ts : List Token} {last : Stack} :
    Lexes m.stack ⟨b, s⟩ ts last ↔ ts = (lexFrom m b s).1 ∧ last = (lexFrom m b s).2.stack := by
  constructor
  · exact fun h => (lexes_lexFrom m b s).unique h
  · rintro ⟨rfl, rfl⟩
    exact lexes_lexFrom m b s

/-! ## 2. Preparation -/

theorem mem_unifyBreaks {c : Char} {s : List Char} (h : c ∈ unifyBreaks s) : c = '\n' ∨ c ∈ s := by
  fun_induction unifyBreaks s with
  | case1 => exact Or.inr h
  | case2 rest ih => rcases List.mem_cons.mp h with h | h <;> grind
  | case3 rest _ ih => rcases List.mem_cons.mp h with h | h <;> grind
  | case4 d rest _ _ ih => rcases List.mem_cons.mp h with h | h <;> grind

theorem mem_of_mem_stripFeeds {c : Char} {s : List Char} (h : c ∈ stripFeeds s) : c ∈ s :=
  (List.dropWhile_sublist _).mem (List.mem_reverse.mp
    ((List.dropWhile_sublist _).mem (List.mem_reverse.mp h)))

/-- Preparation brings in line feeds only. -/
theorem mem_prepare {c : Char} {s : List Char} (h : c ∈ prepare s) : c = '\n' ∨ c ∈ s := by
  rcases List.mem_append.mp h with h | h
  · rcases mem_unifyBreaks (mem_of_mem_stripFeeds h) with h | h
    · exact Or.inl h
    · refine Or.inr ?_
      split at h
      · exact List.mem_of_mem_tail h
      · exact h
  · exact Or.inl (List.mem_singleton.mp h)

/-! ## 3. On the terminal -/

open Text.Ansi

section Terminal

variable {c : TokenClass} {s : List Char}

theorem strip_colour (c : TokenClass) (t : List Char) : strip (c.colour ++ t) = strip t := by
  have hblue : strip ("\x1b[34m".toList ++ t) = strip t := strip_sequence rfl
  have hyellow : strip ("\x1b[33m".toList ++ t) = strip t := strip_sequence rfl
  have herror : strip ("\x1b[04m\x1b[91m".toList ++ t) = strip t :=
    (strip_sequence rfl).trans (strip_sequence rfl)
  cases c with
  | keyword | number | integer | float => exact hblue
  | singleQuoted | doubleQuoted | escape => exact hyellow
  | error => exact herror
  | text | punctuation => rfl

theorem strip_colourReset (t : List Char) : strip (colourReset ++ t) = strip t :=
  strip_sequence rfl

theorem strip_paint (h : esc ∉ s) (t : List Char) : strip (paint c s ++ t) = s ++ strip t := by
  unfold paint
  split
  · exact strip_append h t
  · rw [List.append_assoc, List.append_assoc, strip_colour, strip_append h, strip_colourReset]

theorem strip_paintLine {l : Line} (h : esc ∉ l.whole) (t : List Char) :
    strip (paintLine c l ++ t) = l.whole ++ strip t := by
  have hbody : esc ∉ l.body := fun hmem => h (List.mem_append_left _ hmem)
  unfold paintLine
  split
  next hfeed =>
    rw [List.append_assoc, strip_paint hbody, List.singleton_append, strip_cons_of_ne (by decide),
      Line.whole, hfeed, List.append_assoc, List.singleton_append]
  next => exact strip_paint h t

theorem strip_paintToken {tok : Token} (h : esc ∉ tok.lexeme) (t : List Char) :
    strip (paintToken tok ++ t) = tok.lexeme ++ strip t := by
  have hlines := flatMap_whole_lines tok.lexeme
  rw [paintToken, strip_flatMap (f := Line.whole), hlines]
  intro l hl
  refine strip_paintLine fun hmem => h ?_
  rw [← hlines]
  exact List.mem_flatMap_of_mem hl hmem

/-- **Coloured text without its control sequences is the text that was lexed.** -/
theorem plain_highlight {s : String} (h : esc ∉ s.toList) :
    plain (highlight s) = String.ofList (prepare s.toList) := by
  have hlexemes : (tokens s.toList).flatMap Token.lexeme = prepare s.toList :=
    flatMap_lexeme_lexFrom .root none (prepare s.toList)
  have hesc : ∀ tok ∈ tokens s.toList, esc ∉ tok.lexeme := fun tok htok hmem => by
    have hprepare : esc ∈ prepare s.toList := hlexemes ▸ List.mem_flatMap_of_mem htok hmem
    rcases mem_prepare hprepare with hfeed | hs
    · cases hfeed
    · exact h hs
  have hstrip := strip_flatMap (fun tok htok => strip_paintToken (hesc tok htok)) []
  rw [List.append_nil, hlexemes, strip, List.append_nil] at hstrip
  rw [plain, highlight, String.toList_ofList, hstrip]

end Terminal

/-! ## 4. Nothing is lost -/

/-- **Lexing loses nothing.**  Of every text the table makes exactly one division into tokens, none
of them empty, which are the prepared text one after the other; and if there is no escape in the
text, its colours can be taken out again. -/
theorem lexing_loses_nothing (s : String) :
    (∀ ts, (∃ last, Lexes .start ⟨none, prepare s.toList⟩ ts last) ↔ ts = tokens s.toList) ∧
      (∀ t ∈ tokens s.toList, t.lexeme ≠ []) ∧
      (tokens s.toList).flatMap Token.lexeme = prepare s.toList ∧
      (esc ∉ s.toList → plain (highlight s) = String.ofList (prepare s.toList)) := by
  refine ⟨fun ts => ⟨?_, ?_⟩, lexeme_ne_nil .root none _, flatMap_lexeme_lexFrom .root none _,
    plain_highlight⟩
  · rintro ⟨last, hlexes⟩
    exact (lexes_iff (m := .root).mp hlexes).1
  · rintro rfl
    exact ⟨_, lexes_lexFrom .root none _⟩

end Literals.Highlight
