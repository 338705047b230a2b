/-
# Where a string ends and what it stands for

Both are said here without a reader.  A quote is unescaped when an even number of backslashes stands
directly before it (`Unescaped`), and a raw text stands for another by a table of ten escapes
(`StandsFor`).

* **A string ends at the first unescaped quote** and is what the raw text before it stands for;
  without such a quote it is unclosed, at the end of the text (`string_at_quote`).
* **A quoted text is read back**, whatever follows it, and shows none of the control characters that
  have an escape.
-/
import Mathlib.Order.Bounds.Basic
import Literals.Proofs.Leaf
import Literals.Proofs.Rereading

namespace Literals

namespace Text.Quoted

variable {q c e : Char} {s t : List Char} {i : Nat}

/-! ## 1. Unescaped quotes -/

/-- How many backslashes a text ends with. -/
def backslashes (s : List Char) : Nat :=
  (s.reverse.takeWhile (· = '\\')).length

/-- The quote stands at the index, with an even number of backslashes directly before it. -/
def Unescaped (q : Char) (s : List Char) (i : Nat) : Prop :=
  s[i]? = some q ∧ backslashes (s.take i) % 2 = 0

instance (q : Char) (s : List Char) (i : Nat) : Decidable (Unescaped q s i) :=
  inferInstanceAs (Decidable (_ ∧ _))

/-- Text in front counts only behind nothing but backslashes. -/
theorem backslashes_append (s t : List Char) :
    backslashes (s ++ t) = if backslashes t = t.length then backslashes s + t.length
      else backslashes t := by
  rw [backslashes, backslashes, backslashes, List.reverse_append, List.takeWhile_append]
  simp only [List.length_reverse]
  split
  next => rw [List.length_append, List.length_reverse, Nat.add_comm]
  next => rfl

theorem Unescaped.lt_length (h : Unescaped q s i) : i < s.length :=
  (List.getElem?_eq_some_iff.mp h.1).1

theorem backslashes_cons (hc : c ≠ '\\') (s : List Char) :
    backslashes (c :: s) = backslashes s := by
  have hnone : backslashes [c] = 0 := by simp [backslashes, hc]
  rw [← List.singleton_append, backslashes_append, hnone]
  split
  next h => rw [h, Nat.zero_add]
  next => rfl

/-- A backslash and the character behind it leave the number as odd or even as it was, whether that
character is a backslash too or not. -/
theorem backslashes_escaped (e : Char) (s : List Char) :
    backslashes ('\\' :: e :: s) % 2 = backslashes s % 2 := by
  have hpair : backslashes ['\\', e] % 2 = 0 := by
    by_cases he : e = '\\' <;> simp [backslashes, he]
  rw [show '\\' :: e :: s = ['\\', e] ++ s from rfl, backslashes_append]
  split
  next h => rw [h, Nat.add_mod, hpair, Nat.zero_add, Nat.mod_mod]
  next => rfl

theorem unescaped_plain (hc : c ≠ '\\') (i : Nat) :
    Unescaped q (c :: s) (i + 1) ↔ Unescaped q s i := by
  rw [Unescaped, List.take_succ_cons, backslashes_cons hc]
  rfl

theorem unescaped_escaped (e : Char) (i : Nat) :
    Unescaped q ('\\' :: e :: s) (i + 2) ↔ Unescaped q s i := by
  rw [Unescaped, List.take_succ_cons, List.take_succ_cons, backslashes_escaped]
  rfl

theorem unescaped_zero : Unescaped q (c :: s) 0 ↔ c = q := by
  simp [Unescaped, backslashes]

theorem not_unescaped_of_lt_one (hc : c ≠ q) : ∀ j < 1, ¬ Unescaped q (c :: s) j := by
  intro j hj
  obtain rfl := Nat.lt_one_iff.mp hj
  exact mt unescaped_zero.mp hc

theorem not_unescaped_of_lt_two (hq : q ≠ '\\') {j : Nat} (hj : j < 2) :
    ¬ Unescaped q ('\\' :: e :: s) j := by
  interval_cases j
  · rw [unescaped_zero]
    exact hq.symm
  · simp [Unescaped, backslashes]

section Shifts

variable {P Q : Nat → Prop} {k : Nat}

/-- Where no character in front has a property, it is found behind them. -/
theorem exists_of_shift (hlow : ∀ j < k, ¬ P j) (hshift : ∀ j, P (j + k) ↔ Q j) {j : Nat}
    (h : P j) : ∃ i, j = i + k ∧ Q i := by
  have hge : k ≤ j := not_lt.mp fun hlt => hlow j hlt h
  obtain ⟨i, rfl⟩ := Nat.exists_eq_add_of_le' hge
  exact ⟨i, rfl, (hshift i).mp h⟩

theorem isLeast_add (hlow : ∀ j < k, ¬ P j) (hshift : ∀ j, P (j + k) ↔ Q j) {i : Nat}
    (h : IsLeast {j | Q j} i) : IsLeast {j | P j} (i + k) := by
  refine ⟨(hshift i).mpr h.1, fun j hj => ?_⟩
  obtain ⟨m, rfl, hm⟩ := exists_of_shift hlow hshift hj
  exact Nat.add_le_add_right (h.2 hm) k

theorem forall_not_of_shift (hlow : ∀ j < k, ¬ P j) (hshift : ∀ j, P (j + k) ↔ Q j)
    (h : ∀ j, ¬ Q j) (j : Nat) : ¬ P j := by
  intro hj
  obtain ⟨i, -, hi⟩ := exists_of_shift hlow hshift hj
  exact h i hi

end Shifts

/-! ## 2. What a raw text stands for -/

/-- The escapes: the character behind a backslash and what the two stand for. -/
def escapes : List (Char × Char) :=
  [('\\', '\\'), ('\'', '\''), ('"', '"'), ('a', '\x07'), ('b', '\x08'), ('f', '\x0c'),
    ('n', '\n'), ('r', '\r'), ('t', '\t'), ('v', '\x0b')]

/-- What a raw text stands for, from left to right.  A character behind a backslash that is in no
escape stands for itself. -/
inductive StandsFor : List Char → List Char → Prop
  | nil : StandsFor [] []
  | plain {c : Char} {s t : List Char} : c ≠ '\\' → StandsFor s t → StandsFor (c :: s) (c :: t)
  | known {e c : Char} {s t : List Char} : (e, c) ∈ escapes → StandsFor s t →
      StandsFor ('\\' :: e :: s) (c :: t)
  | unknown {e : Char} {s t : List Char} : (∀ c, (e, c) ∉ escapes) → StandsFor s t →
      StandsFor ('\\' :: e :: s) (e :: t)

theorem unescapeLetter_of_mem (h : (e, c) ∈ escapes) : unescapeLetter e = c := by
  have hall : ∀ p ∈ escapes, unescapeLetter p.1 = p.2 := by decide
  exact hall (e, c) h

theorem mem_escapes_of_ne (h : unescapeLetter e ≠ e) : (e, unescapeLetter e) ∈ escapes := by
  unfold unescapeLetter at h ⊢
  split at h <;> first | decide | exact absurd rfl h

theorem unescapeLetter_of_forall_notMem (h : ∀ c, (e, c) ∉ escapes) : unescapeLetter e = e := by
  by_contra hne
  exact h _ (mem_escapes_of_ne hne)

theorem StandsFor.escaped (e : Char) (h : StandsFor s t) :
    StandsFor ('\\' :: e :: s) (unescapeLetter e :: t) := by
  by_cases hknown : ∃ c, (e, c) ∈ escapes
  · obtain ⟨c, hc⟩ := hknown
    exact unescapeLetter_of_mem hc ▸ .known hc h
  · have hunknown := not_exists.mp hknown
    rw [unescapeLetter_of_forall_notMem hunknown]
    exact .unknown hunknown h

/-- **A raw text stands for one text only.** -/
theorem StandsFor.eq_unescape (h : StandsFor s t) : t = unescape s := by
  induction h with
  | nil => rfl
  | plain hc _ ih => rw [Reader.unescape_cons hc, ih]
  | known he _ ih => rw [unescape, unescapeLetter_of_mem he, ih]
  | unknown he _ ih => rw [unescape, unescapeLetter_of_forall_notMem he, ih]

/-! ## 3. What a quoted text shows -/

/-- The control characters that have an escape. -/
def controls : List Char :=
  ['\n', '\r', '\t', '\x07', '\x08', '\x0c', '\x0b']

theorem escapeLetter?_of_mem_controls (h : c ∈ controls) : (escapeLetter? c).isSome = true := by
  have hall : controls.all (fun c => (escapeLetter? c).isSome) = true := rfl
  exact List.all_eq_true.mp hall c h

theorem escapeLetter_notMem_controls {d : Char} (h : escapeLetter? e = some d) :
    d ∉ controls := by
  unfold escapeLetter? at h
  split at h <;> cases h <;> decide

theorem notMem_controls_of_mem_escape (h : c ∈ escape e) : c ∉ controls := by
  unfold escape at h
  split at h
  next d hd =>
    rcases List.mem_pair.mp h with rfl | rfl
    · decide
    · exact escapeLetter_notMem_controls hd
  next hnone =>
    obtain rfl := List.mem_singleton.mp h
    intro hc
    have hsome := escapeLetter?_of_mem_controls hc
    rw [hnone] at hsome
    cases hsome

/-- **No control character that has an escape is left in a quoted text.** -/
theorem notMem_controls_of_mem_encode (h : c ∈ encode s) : c ∉ controls := by
  rcases List.mem_cons.mp h with rfl | h
  · decide
  · rcases List.mem_append.mp h with h | h
    · obtain ⟨e, -, hc⟩ := List.mem_flatMap.mp h
      exact notMem_controls_of_mem_escape hc
    · obtain rfl := List.mem_singleton.mp h
      decide

end Text.Quoted

/-! ## 4. Reading strings -/

namespace Reader

open Text.Quoted Rule

/-- What reading the rest of a string has to find: the first unescaped quote and what the text before
it stands for, or that there is none. -/
def Ends (quote : Char) (o : Nat) (s : List Char) : Outcome (List Char) → Prop
  | .ok text stop => ∃ i, IsLeast {j | Unescaped quote s j} i ∧ StandsFor (s.take i) text ∧
      stop = ⟨o + i + 1, s.drop (i + 1)⟩
  | .failed cause stop => (∀ j, ¬ Unescaped quote s j) ∧ cause = .unclosedString ∧
      stop = ⟨o + s.length, []⟩

/-- **The rest of a string ends as it has to.** -/
theorem ends_stringBody {quote : Char} (hq : quote ≠ '\\') (o : Nat) (s : List Char) :
    Ends quote o s (stringBody quote o s) := by
  -- One character or an escape of two is read at a time, and the first unescaped quote is as far
  -- behind it as it is in the rest (`isLeast_add`).
  fun_induction stringBody quote o s with
  | case1 o => exact ⟨fun j hj => (by cases hj.1), rfl, rfl⟩
  | case2 o rest => exact ⟨0, ⟨unescaped_zero.mpr rfl, fun j _ => Nat.zero_le j⟩, .nil, rfl⟩
  | case3 o hback =>
    refine ⟨fun j hj => ?_, rfl, rfl⟩
    cases j with
    | zero => exact hback (unescaped_zero.mp hj)
    | succ j => cases hj.1
  | case4 o e rest text stop heq hback ih =>
    rw [heq] at ih
    obtain ⟨i, hi, htext, rfl⟩ := ih
    refine ⟨i + 2, ?_, htext.escaped e, ?_⟩
    · exact isLeast_add (fun j => not_unescaped_of_lt_two hq) (unescaped_escaped e) hi
    · simp only [List.drop_succ_cons, Point.mk.injEq, and_true]
      omega
  | case5 o e rest cause stop heq hback ih =>
    rw [heq] at ih
    obtain ⟨hnone, rfl, rfl⟩ := ih
    refine ⟨?_, rfl, ?_⟩
    · exact forall_not_of_shift (fun j => not_unescaped_of_lt_two hq) (unescaped_escaped e) hnone
    · simp only [List.length_cons, Point.mk.injEq, and_true]
      omega
  | case6 o c rest hquote hback text stop heq ih =>
    rw [heq] at ih
    obtain ⟨i, hi, htext, rfl⟩ := ih
    refine ⟨i + 1, ?_, .plain hback htext, ?_⟩
    · exact isLeast_add (not_unescaped_of_lt_one hquote) (unescaped_plain hback) hi
    · simp only [List.drop_succ_cons, Point.mk.injEq, and_true]
      omega
  | case7 o c rest hquote hback cause stop heq ih =>
    rw [heq] at ih
    obtain ⟨hnone, rfl, rfl⟩ := ih
    refine ⟨?_, rfl, ?_⟩
    · exact forall_not_of_shift (not_unescaped_of_lt_one hquote) (unescaped_plain hback) hnone
    · simp only [List.length_cons, Point.mk.injEq, and_true]
      omega

theorem string_of_body_ok {quote : Char} {o : Nat} {rest text : List Char} {stop : Point}
    (h : stringBody quote (o + 1) rest = .ok text stop) :
    string ⟨o, quote :: rest⟩ = .ok (.scalar (.str (String.ofList text))) stop := by
  have hnext : (next : Rule Id Char) ⟨o, quote :: rest⟩ = .ok quote ⟨o + 1, rest⟩ := rfl
  rw [string, bind_of_ok hnext]
  exact bind_of_ok h

theorem string_of_body_failed {quote : Char} {o : Nat} {rest : List Char} {cause : Cause}
    {stop : Point} (h : stringBody quote (o + 1) rest = .failed cause stop) :
    string ⟨o, quote :: rest⟩ = .failed cause stop := by
  have hnext : (next : Rule Id Char) ⟨o, quote :: rest⟩ = .ok quote ⟨o + 1, rest⟩ := rfl
  rw [string, bind_of_ok hnext]
  exact bind_of_failed h

section AtQuote

variable {quote : Char} {o : Nat} {rest : List Char}

/-- With an unescaped quote the string ends at the first one. -/
theorem string_of_first (hq : quote ≠ '\\') {i : Nat}
    (hi : IsLeast {j | Unescaped quote rest j} i) :
    ∃ text, StandsFor (rest.take i) text ∧
      string ⟨o, quote :: rest⟩ = .ok (.scalar (.str (String.ofList text)))
        ⟨o + 1 + i + 1, rest.drop (i + 1)⟩ := by
  have hends := ends_stringBody hq (o + 1) rest
  cases hbody : stringBody quote (o + 1) rest with
  | ok text stop =>
    rw [hbody] at hends
    obtain ⟨j, hj, htext, rfl⟩ := hends
    obtain rfl := hj.unique hi
    exact ⟨text, htext, string_of_body_ok hbody⟩
  | failed cause stop =>
    rw [hbody] at hends
    exact absurd hi.1 (hends.1 i)

/-- Without one the string is unclosed. -/
theorem string_of_none (hq : quote ≠ '\\') (hnone : ∀ j, ¬ Unescaped quote rest j) :
    string ⟨o, quote :: rest⟩ = .failed .unclosedString ⟨o + 1 + rest.length, []⟩ := by
  have hends := ends_stringBody hq (o + 1) rest
  cases hbody : stringBody quote (o + 1) rest with
  | ok text stop =>
    rw [hbody] at hends
    obtain ⟨j, hj, -⟩ := hends
    exact absurd hj.1 (hnone j)
  | failed cause stop =>
    rw [hbody] at hends
    obtain ⟨-, rfl, rfl⟩ := hends
    exact string_of_body_failed hbody

end AtQuote

/-- **Reading undoes quoting**, up to the text that follows. -/
theorem string_quote (s : String) (o : Nat) (r : List Char) :
    string ⟨o, (Text.Quoted.quote s).toList ++ r⟩ =
      .ok (.scalar (.str s)) ⟨o + (Text.Quoted.quote s).toList.length, r⟩ := by
  have hbody := stringBody_of_body (by decide) (Grammar.body_flatMap_escape s.toList) (o + 1) r
  rw [unescape_flatMap_escape] at hbody
  have htext : (Text.Quoted.quote s).toList ++ r =
      '\'' :: (s.toList.flatMap escape ++ '\'' :: r) := by
    simp [Text.Quoted.quote, encode]
  have hlength : (Text.Quoted.quote s).toList.length = (s.toList.flatMap escape).length + 2 := by
    simp [Text.Quoted.quote, encode]
  have hstop : o + (Text.Quoted.quote s).toList.length =
      o + 1 + ((s.toList.flatMap escape).length + 1) := by omega
  rw [htext, string_of_body_ok hbody, String.ofList_toList, hstop]

/-- **A string ends at the first unescaped quote**, where one follows the quote that opens it.  The
rule then finds what the raw text between them stands for and stops behind the closing quote.  If
none follows, the string is unclosed, and the rule stops at the end of the text.  A quoted text is
found again, whatever follows it, and shows no control character that has an escape. -/
theorem string_at_quote :
    (∀ (quote : Char) (o : Nat) (rest : List Char), isQuote quote = true →
      ((∃ x stop, string ⟨o, quote :: rest⟩ = .ok x stop) ↔ ∃ i, Unescaped quote rest i) ∧
      (∀ i, IsLeast {j | Unescaped quote rest j} i →
        ∃ text, (∀ t, StandsFor (rest.take i) t ↔ t = text) ∧
          string ⟨o, quote :: rest⟩ = .ok (.scalar (.str (String.ofList text)))
            ⟨o + 1 + i + 1, rest.drop (i + 1)⟩) ∧
      ((∀ i, ¬ Unescaped quote rest i) → ∃ cause, cause.reason = "unclosed string" ∧
        string ⟨o, quote :: rest⟩ = .failed cause ⟨o + 1 + rest.length, []⟩)) ∧
    ∀ (s : String) (o : Nat) (r : List Char),
      string ⟨o, (Text.Quoted.quote s).toList ++ r⟩ =
        .ok (.scalar (.str s)) ⟨o + (Text.Quoted.quote s).toList.length, r⟩ ∧
      ∀ c ∈ (Text.Quoted.quote s).toList, c ∉ controls := by
  refine ⟨fun quote o rest hquote => ?_, fun s o r => ⟨string_quote s o r, fun c hc => ?_⟩⟩
  · have hq : quote ≠ '\\' := by
      rintro rfl
      cases hquote
    refine ⟨⟨?_, ?_⟩, fun i hi => ?_, fun hnone => ⟨_, rfl, string_of_none hq hnone⟩⟩
    · rintro ⟨x, stop, hok⟩
      by_contra hnone
      exact nomatch hok.symm.trans (string_of_none hq (not_exists.mp hnone))
    · intro hsome
      have hfirst : IsLeast {j | Unescaped quote rest j} (Nat.find hsome) :=
        ⟨Nat.find_spec hsome, fun _ hj => Nat.find_min' hsome hj⟩
      obtain ⟨text, -, hok⟩ := string_of_first hq hfirst
      exact ⟨_, _, hok⟩
    · obtain ⟨text, htext, hok⟩ := string_of_first hq hi
      refine ⟨text, fun t => ⟨fun ht => ?_, fun ht => ht ▸ htext⟩, hok⟩
      exact ht.eq_unescape.trans htext.eq_unescape.symm
  · rw [Text.Quoted.quote, String.toList_ofList] at hc
    exact notMem_controls_of_mem_encode hc

/-- Behind two backslashes a quote closes the string, behind one it does not. -/
theorem string_at_quote_backslashes :
    isQuote '"' = true ∧
      string ⟨0, ['"', 'a', '\\', '\\', '"', '!']⟩ = .ok (.scalar (.str "a\\")) ⟨5, ['!']⟩ ∧
      ∃ cause, cause.reason = "unclosed string" ∧
        string ⟨0, ['"', 'a', '\\', '"', '!']⟩ = .failed cause ⟨5, []⟩ := by
  refine ⟨rfl, ?_, ?_⟩
  · obtain ⟨-, hfirst, -⟩ := string_at_quote.1 '"' 0 ['a', '\\', '\\', '"', '!'] rfl
    have hthree : IsLeast {j | Unescaped '"' ['a', '\\', '\\', '"', '!'] j} 3 := by
      have hlow : ∀ j < 3, ¬ Unescaped '"' ['a', '\\', '\\', '"', '!'] j := by decide
      exact ⟨by decide, fun j hj => not_lt.mp fun hlt => hlow j hlt hj⟩
    obtain ⟨text, htext, hok⟩ := hfirst 3 hthree
    have ha : StandsFor ['a', '\\', '\\'] ['a', '\\'] :=
      .plain (by decide) (.known (by decide) .nil)
    obtain rfl := (htext _).mp ha
    exact hok
  · obtain ⟨-, -, hnone⟩ := string_at_quote.1 '"' 0 ['a', '\\', '"', '!'] rfl
    have hlow : ∀ j < 4, ¬ Unescaped '"' ['a', '\\', '"', '!'] j := by decide
    exact hnone fun j hj => hlow j hj.lt_length hj

end Reader

end Literals
