/-
# The rules of the lexer

The lexer's table: for each state the rules in their order, each with a pattern, a class and what it
does to the stack of states.  **The next token is that of the first rule whose pattern matches**
(`follows_nextStep`).  No pattern of the table matches the empty text, so each token takes
something.
-/
import Literals.Proofs.NumberPatterns

namespace Literals.Highlight

open Text

/-! ## 1. Keywords -/

/-- Where one word at most is there, the first that leads on is the first that is there. -/
theorem findSome?_of_unique {α : Type} {p : List Char → Bool} {g : List Char → Option α}
    {ws : List (List Char)} (h : ∀ u ∈ ws, ∀ v ∈ ws, p u = true → p v = true → u = v) :
    (ws.findSome? fun w => if p w then g w else none) = (ws.find? p).bind g := by
  induction ws with
  | nil => rfl
  | cons w ws ih =>
    have hws := ih fun u hu v hv => h u (List.mem_cons_of_mem w hu) v (List.mem_cons_of_mem w hv)
    rw [List.findSome?_cons, hws, List.find?_cons]
    cases hw : p w with
    | false => rfl
    | true =>
      rw [if_pos rfl, Option.bind_some]
      cases hg : g w with
      | some a => rfl
      | none =>
        -- What is found further on is the same word.
        cases hfind : ws.find? p with
        | none => rfl
        | some v =>
          have hv := List.mem_of_find?_eq_some hfind
          rw [← h w List.mem_cons_self v (List.mem_cons_of_mem w hv) hw (List.find?_some hfind)]
          exact hg

theorem keywords_eq_of_head : ∀ u ∈ keywords, ∀ v ∈ keywords, u.head? = v.head? → u = v := by
  decide

theorem keywords_ends : ∀ w ∈ keywords,
    w ≠ [] ∧ w.head?.any isWordChar = true ∧ w.getLast?.any isWordChar = true := by
  decide

section Keywords

variable {w : List Char} {x : Spot}

theorem head?_of_keyword (hw : w ∈ keywords) (hpre : w.isPrefixOf x.rest = true) :
    x.rest.head? = w.head? := by
  obtain ⟨t, ht⟩ := List.isPrefixOf_iff_prefix.mp hpre
  obtain ⟨c, w, rfl⟩ := List.exists_cons_of_ne_nil (keywords_ends w hw).1
  rw [← ht, List.cons_append, List.head?_cons, List.head?_cons]

/-- A keyword starts and ends with a character of a word. -/
theorem wordChar_of_keyword (hw : w ∈ keywords) (hpre : w.isPrefixOf x.rest = true) :
    x.starts isWordChar = true ∧ (x.forward w.length).before.any isWordChar = true := by
  obtain ⟨-, hfirst, hlast⟩ := keywords_ends w hw
  refine ⟨?_, ?_⟩
  · rw [Spot.starts, head?_of_keyword hw hpre, hfirst]
  · obtain ⟨t, ht⟩ := List.isPrefixOf_iff_prefix.mp hpre
    rw [Spot.forward, ← ht, List.take_left]
    cases hl : w.getLast? with
    | none =>
      rw [hl] at hlast
      cases hlast
    | some c =>
      rw [hl] at hlast
      exact hlast

end Keywords

namespace Pattern

/-- A keyword that is a word of its own. -/
def keyword : Pattern :=
  wordEdge.andThen ((words keywords).andThen wordEdge)

theorem match?_keyword (x : Spot) :
    keyword.match? x = x.measured (keywordLength? x.before) := by
  rw [match?_eq_first, keyword, first_andThen, first_wordEdge, first_andThen, first_words,
    findSome?_of_unique, Spot.measured, keywordLength?]
  · cases hfind : keywords.find? fun w => w.isPrefixOf x.rest with
    | none => split <;> rfl
    | some w =>
      have hpre : w.isPrefixOf x.rest = true :=
        List.find?_some (p := fun v : List Char => v.isPrefixOf x.rest) hfind
      obtain ⟨hfirst, hlast⟩ := wordChar_of_keyword (List.mem_of_find?_eq_some hfind) hpre
      have hafter : (x.forward w.length).starts isWordChar =
        (x.rest.drop w.length).head?.any isWordChar := rfl
      rw [hfirst, Option.bind_some, first_wordEdge, hlast, hafter]
      dsimp only
      cases x.before.any isWordChar <;> cases (x.rest.drop w.length).head?.any isWordChar <;> rfl
  · intro u hu v hv hpu hpv
    exact keywords_eq_of_head u hu v hv
      ((head?_of_keyword hu hpu).symm.trans (head?_of_keyword hv hpv))

end Pattern

/-! ## 2. The table -/

/-- What a rule does to the states of the lexer. -/
inductive Action where
  | stay
  | enter (mode : Mode)
  | leave

/-- The states of the lexer, the one entered last on top.  There is always one. -/
structure Stack where
  top : Mode
  below : List Mode

namespace Stack

/-- The states that the lexer starts with. -/
def start : Stack :=
  ⟨.root, []⟩

/-- The states after an action.  The last state is never left. -/
def act (s : Stack) : Action → Stack
  | .stay => s
  | .enter m => ⟨m, s.top :: s.below⟩
  | .leave =>
    match s.below with
    | [] => s
    | m :: below => ⟨m, below⟩

end Stack

/-- A rule: where its pattern matches there is a token of its class. -/
structure TokenRule where
  pattern : Pattern
  tokenClass : TokenClass
  action : Action

open Pattern in
/-- The rules inside a string. -/
def stringRules (quote : Char) (c : TokenClass) : List TokenRule :=
  [⟨(char '\\').andThen (oneOf (· != '\n')), .escape, .stay⟩,
    ⟨atLeastOne fun d => d != quote && d != '\\', c, .stay⟩,
    ⟨char quote, c, .leave⟩]

open Pattern in
/-- The rules of a state, in their order. -/
def Mode.rules : Mode → List TokenRule
  | .root =>
    [⟨atLeastOne isBlank, .text, .stay⟩,
      ⟨char '\'', .singleQuoted, .enter .singleQuoted⟩,
      ⟨char '"', .doubleQuoted, .enter .doubleQuoted⟩,
      ⟨keyword, .keyword, .stay⟩,
      ⟨imaginary, .number, .stay⟩,
      ⟨pointed, .float, .stay⟩,
      ⟨scaled, .float, .stay⟩,
      ⟨integer, .integer, .stay⟩,
      ⟨oneOf ['+', '-'].contains, .number, .stay⟩,
      ⟨oneOf isPunctuation, .punctuation, .stay⟩,
      ⟨oneOf (· != '\n'), .error, .stay⟩]
  | .singleQuoted => stringRules '\'' .singleQuoted
  | .doubleQuoted => stringRules '"' .doubleQuoted

/-- No pattern of the table matches the empty text. -/
theorem not_nullable (m : Mode) : ∀ r ∈ m.rules, r.pattern.nullable = false := by
  cases m <;> decide

/-- The first rule that matches, and the spot behind its match. -/
def firstMatch? (rules : List TokenRule) (x : Spot) : Option (TokenRule × Spot) :=
  rules.findSome? fun r => (r.pattern.match? x).map (r, ·)

/-! ## 3. The first rule that matches -/

/-- The states that the lexer is in, by the one on top. -/
def Mode.stack : Mode → Stack
  | .root => .start
  | .singleQuoted => ⟨.singleQuoted, [.root]⟩
  | .doubleQuoted => ⟨.doubleQuoted, [.root]⟩

/-- A step is that of a rule that matches here, or, where none does, that of an error of one
character, which is no line feed. -/
def Follows (m : Mode) (b : Option Char) (c : Char) (s : List Char) (step : Step) :
    Option (TokenRule × Spot) → Prop
  | some (r, y) => y = Spot.forward ⟨b, c :: s⟩ (step.extra + 1) ∧ r.tokenClass = step.tokenClass ∧
    m.stack.act r.action = step.mode.stack
  | none => step = ⟨.error, 0, m⟩ ∧ c ≠ '\n'

section Follows

variable {m : Mode} {b : Option Char} {c : Char} {s : List Char} {step step' : Step}
  {r : TokenRule} {rs : List TokenRule} {f : Char → Bool} {p : Prop} [Decidable p]

theorem firstMatch?_cons_of_some {x y : Spot} (h : r.pattern.match? x = some y) :
    firstMatch? (r :: rs) x = some (r, y) := by
  rw [firstMatch?, List.findSome?_cons, h]
  rfl

theorem firstMatch?_cons_of_none {x : Spot} (h : r.pattern.match? x = none) :
    firstMatch? (r :: rs) x = firstMatch? rs x := by
  rw [firstMatch?, List.findSome?_cons, h]
  rfl

/-- A rule for one character of a class. -/
theorem follows_oneOf {cls : TokenClass} {a : Action} (hp : f c = true ↔ p)
    (hthen : Follows m b c s step (some (⟨.oneOf f, cls, a⟩, Spot.forward ⟨b, c :: s⟩ 1)))
    (helse : ¬ p → Follows m b c s step' (firstMatch? rs ⟨b, c :: s⟩)) :
    Follows m b c s (if p then step else step')
      (firstMatch? (⟨.oneOf f, cls, a⟩ :: rs) ⟨b, c :: s⟩) := by
  have hmatch := Pattern.match?_oneOf f ⟨b, c :: s⟩
  rw [Spot.starts_cons] at hmatch
  split
  next h =>
    rw [if_pos (hp.mpr h)] at hmatch
    rw [firstMatch?_cons_of_some hmatch]
    exact hthen
  next h =>
    rw [if_neg (mt hp.mp h)] at hmatch
    rw [firstMatch?_cons_of_none hmatch]
    exact helse h

/-- A rule for characters of a class, as many as there are. -/
theorem follows_atLeastOne {cls : TokenClass}
    (helse : f c = false → Follows m b c s step' (firstMatch? rs ⟨b, c :: s⟩)) :
    Follows m b c s (if f c then ⟨cls, countWhile f s, m⟩ else step')
      (firstMatch? (⟨.atLeastOne f, cls, .stay⟩ :: rs) ⟨b, c :: s⟩) := by
  have hmatch := Pattern.match?_atLeastOne f ⟨b, c :: s⟩
  rw [Spot.starts_cons] at hmatch
  cases hc : f c with
  | true =>
    rw [hc, if_pos rfl, Spot.past, Spot.run_cons_of_pos hc, Nat.add_comm] at hmatch
    rw [firstMatch?_cons_of_some hmatch]
    exact ⟨rfl, rfl, rfl⟩
  | false =>
    rw [hc, if_neg Bool.false_ne_true] at hmatch
    rw [firstMatch?_cons_of_none hmatch]
    exact helse hc

/-- A rule whose matches are measured. -/
theorem follows_measured {p : Pattern} {cls : TokenClass} {length? : List Char → Option Nat}
    (hp : p.match? ⟨b, c :: s⟩ = Spot.measured length? ⟨b, c :: s⟩) (hnull : p.nullable = false)
    (helse : Follows m b c s step' (firstMatch? rs ⟨b, c :: s⟩)) :
    Follows m b c s ((length? (c :: s)).elim step' fun n => ⟨cls, n - 1, m⟩)
      (firstMatch? (⟨p, cls, .stay⟩ :: rs) ⟨b, c :: s⟩) := by
  rw [Spot.measured] at hp
  cases hlength : length? (c :: s) with
  | none =>
    rw [hlength] at hp
    rw [firstMatch?_cons_of_none hp]
    exact helse
  | some n =>
    rw [hlength, Option.map_some] at hp
    have hpos := Pattern.pos_of_match? hnull hp
    rw [firstMatch?_cons_of_some hp]
    refine ⟨?_, rfl, rfl⟩
    rw [Option.elim_some, Nat.sub_add_cancel hpos]

/-- With the measurements of numbers tried one after the other. -/
theorem numberStep?_elim (step : Step) (s : List Char) : (numberStep? s).elim step id =
    (imaginaryLength? s).elim
      ((pointedLength? s).elim
        ((scaledLength? s).elim
          ((integerLength? s).elim step fun n => ⟨.integer, n - 1, .root⟩)
          fun n => ⟨.float, n - 1, .root⟩)
        fun n => ⟨.float, n - 1, .root⟩)
      fun n => ⟨.number, n - 1, .root⟩ := by
  unfold numberStep?
  cases imaginaryLength? s with
  | some n => rfl
  | none =>
    cases pointedLength? s with
    | some n => rfl
    | none =>
      cases scaledLength? s with
      | some n => rfl
      | none => cases integerLength? s <;> rfl

theorem rootStep_eq (b : Option Char) (c : Char) (s : List Char) : rootStep b c s =
    if isBlank c then ⟨.text, countWhile isBlank s, .root⟩
    else if c = '\'' then ⟨.singleQuoted, 0, .singleQuoted⟩
    else if c = '"' then ⟨.doubleQuoted, 0, .doubleQuoted⟩
    else (keywordLength? b (c :: s)).elim
      ((numberStep? (c :: s)).elim
        (if c = '+' ∨ c = '-' then ⟨.number, 0, .root⟩
          else if isPunctuation c then ⟨.punctuation, 0, .root⟩
          else ⟨.error, 0, .root⟩) id)
      fun n => ⟨.keyword, n - 1, .root⟩ := by
  unfold rootStep
  cases keywordLength? b (c :: s) <;> cases numberStep? (c :: s) <;> rfl

/-- Outside strings. -/
theorem follows_root (b : Option Char) (c : Char) (s : List Char) :
    Follows .root b c s (rootStep b c s) (firstMatch? Mode.root.rules ⟨b, c :: s⟩) := by
  rw [rootStep_eq, numberStep?_elim, Mode.rules]
  refine follows_atLeastOne fun hblank => ?_
  refine follows_oneOf beq_iff_eq ⟨rfl, rfl, rfl⟩ fun _ => ?_
  refine follows_oneOf beq_iff_eq ⟨rfl, rfl, rfl⟩ fun _ => ?_
  refine follows_measured (Pattern.match?_keyword _) rfl ?_
  refine follows_measured (Pattern.match?_imaginary _) rfl ?_
  refine follows_measured (Pattern.match?_pointed _) rfl ?_
  refine follows_measured (Pattern.match?_scaled _) rfl ?_
  refine follows_measured (Pattern.match?_integer _) rfl ?_
  refine follows_oneOf (by simp) ⟨rfl, rfl, rfl⟩ fun _ => ?_
  refine follows_oneOf Iff.rfl ⟨rfl, rfl, rfl⟩ fun _ => ?_
  have hfeed : c ≠ '\n' := by
    rintro rfl
    revert hblank
    decide
  have hmatch := Pattern.match?_oneOf (· != '\n') ⟨b, c :: s⟩
  rw [Spot.starts_cons, if_pos (bne_iff_ne.mpr hfeed)] at hmatch
  rw [firstMatch?_cons_of_some hmatch]
  exact ⟨rfl, rfl, rfl⟩

variable {quote : Char} {cls : TokenClass}

theorem match?_escape (c : Char) (s : List Char) :
    ((Pattern.char '\\').andThen (.oneOf (· != '\n'))).match? ⟨b, c :: s⟩ =
      if c = '\\' ∧ s.head?.any (· != '\n') then some (Spot.forward ⟨b, c :: s⟩ 2) else none := by
  have hmatch := Pattern.match?_oneOf_oneOf (· == '\\') (· != '\n') ⟨b, c :: s⟩
  simp only [Spot.starts_cons, beq_iff_eq] at hmatch
  exact hmatch

/-- A backslash starts an escape or belongs to no token. -/
theorem follows_backslash (hquote : quote ≠ '\\') (m : Mode) (b : Option Char) (s : List Char) :
    Follows m b '\\' s (stringStep quote cls m '\\' s)
      (firstMatch? (stringRules quote cls) ⟨b, '\\' :: s⟩) := by
  have hescape := match?_escape (b := b) '\\' s
  have hmany := Pattern.match?_atLeastOne (fun d => d != quote && d != '\\') ⟨b, '\\' :: s⟩
  have hclose := Pattern.match?_oneOf (· == quote) ⟨b, '\\' :: s⟩
  rw [Spot.starts_cons, if_neg (by simp)] at hmany
  rw [Spot.starts_cons, if_neg (by simpa using hquote.symm)] at hclose
  rw [stringRules]
  unfold stringStep
  rw [if_pos rfl]
  have hnone (h : s.head?.any (· != '\n') = false) : Follows m b '\\' s ⟨.error, 0, m⟩
      (firstMatch? (stringRules quote cls) ⟨b, '\\' :: s⟩) := by
    rw [if_neg (by simp [h])] at hescape
    rw [stringRules, firstMatch?_cons_of_none hescape, firstMatch?_cons_of_none hmany,
      firstMatch?_cons_of_none hclose]
    exact ⟨rfl, by decide⟩
  cases s with
  | nil => exact hnone rfl
  | cons d s =>
    dsimp only
    split
    next hd => exact hnone (by simp [hd])
    next hd =>
      rw [if_pos (by simp [hd])] at hescape
      rw [firstMatch?_cons_of_some hescape]
      exact ⟨rfl, rfl, rfl⟩

/-- Inside a string. -/
theorem follows_string (hquote : quote ≠ '\\') (hstack : m.stack = ⟨m, [.root]⟩)
    (b : Option Char) (c : Char) (s : List Char) : Follows m b c s (stringStep quote cls m c s)
      (firstMatch? (stringRules quote cls) ⟨b, c :: s⟩) := by
  by_cases hc : c = '\\'
  · rw [hc]
    exact follows_backslash hquote m b s
  · have hescape := match?_escape (b := b) c s
    rw [if_neg fun h => hc h.1] at hescape
    unfold stringStep
    rw [if_neg hc, stringRules, firstMatch?_cons_of_none hescape]
    have hmany := Pattern.match?_atLeastOne (fun d => d != quote && d != '\\') ⟨b, c :: s⟩
    rw [Spot.starts_cons] at hmany
    split
    next hq =>
      have hclose := Pattern.match?_oneOf (· == quote) ⟨b, c :: s⟩
      rw [Spot.starts_cons, if_pos (beq_iff_eq.mpr hq)] at hclose
      rw [if_neg (by simp [hq])] at hmany
      rw [firstMatch?_cons_of_none hmany, firstMatch?_cons_of_some hclose]
      exact ⟨rfl, rfl, by rw [hstack]; rfl⟩
    next hq =>
      have hin : (c != quote && c != '\\') = true := by simp [hc, hq]
      rw [if_pos hin, Spot.past, Spot.run_cons_of_pos hin, Nat.add_comm] at hmany
      rw [firstMatch?_cons_of_some hmany]
      exact ⟨rfl, rfl, rfl⟩

end Follows

/-- **The next token is that of the first rule that matches.** -/
theorem follows_nextStep (m : Mode) (b : Option Char) (c : Char) (s : List Char) :
    Follows m b c s (nextStep m b c s) (firstMatch? m.rules ⟨b, c :: s⟩) := by
  cases m with
  | root => exact follows_root b c s
  | singleQuoted => exact follows_string (by decide) rfl b c s
  | doubleQuoted => exact follows_string (by decide) rfl b c s

end Literals.Highlight
