/-
# Which settings are accepted

A document whose sections are tables describes settings when each limit in it is absent or allowed,
and the choice of colour is absent or a truth value.  **The entries are judged one by one**, in
order, and each setting is read off its own entry (`ofTable_eq_ok`); the first entry that is not
allowed is what the error is about (`ofTable_eq_error`).

A limit ought to be a non-negative integer.  Zero is recognised before the kinds are told apart,
though, and `false` and the two floating-point zeros compare equal to zero: **they are accepted as
no limit** (`not_only_integers`), while `true` and every other number with a point are refused.
-/
import Literals.Proofs.Shortest
import Literals.Settings

namespace Literals.Settings

open Number

/-! ## 1. Zeros -/

/-- Only the two zeros are equal to zero. -/
theorem eq_zero_iff {x : Binary64} :
    x.eq .zero = true ↔ ∃ negative, x = .finite negative .zero := by
  constructor
  · intro h
    cases x with
    | finite negative size =>
      have hunits : Binary64.signedUnits negative size = 0 := by
        simpa [Binary64.eq, Binary64.zero, Binary64.signedUnits, Magnitude.units, Magnitude.zero]
          using h
      have hzero : size.units = 0 := by
        rw [Binary64.signedUnits] at hunits
        split at hunits <;> omega
      exact ⟨negative, by rw [Magnitude.units_eq_zero hzero]⟩
    | infinite negative => cases h
    | nan mark => cases h
  · rintro ⟨negative, rfl⟩
    cases negative <;> rfl

/-- The values of other kinds that compare equal to zero. -/
def IsFalseZero (v : Toml.Value) : Prop :=
  v = .bool false ∨ ∃ negative, v = .float (.finite negative .zero)

theorem isZero_iff {v : Toml.Value} : isZero v = true ↔ v = .integer 0 ∨ IsFalseZero v := by
  cases v with
  | bool b => cases b <;> simp [isZero, IsFalseZero]
  | integer n => simp [isZero, IsFalseZero]
  | float x => simp [isZero, IsFalseZero, eq_zero_iff]
  | _ => simp [isZero, IsFalseZero]

/-! ## 2. One entry -/

/-- The value is a non-negative integer. -/
def IsLimit (v : Toml.Value) : Prop :=
  ∃ n : Nat, v = .integer n

/-- The value is accepted as a limit. -/
def Allowed (v : Toml.Value) : Prop :=
  IsLimit v ∨ IsFalseZero v

/-- The limit that an entry gives: none where there is no entry or a zero, else the integer. -/
inductive Gives : Option Toml.Value → Option Nat → Prop
  | absent : Gives none none
  | zero {v : Toml.Value} : v = .integer 0 ∨ IsFalseZero v → Gives (some v) none
  | positive {n : Nat} : 0 < n → Gives (some (.integer n)) (some n)

/-- The choice that an entry gives: the truth value, or `true` where there is no entry. -/
inductive Chooses : Option Toml.Value → Bool → Prop
  | absent : Chooses none true
  | given (b : Bool) : Chooses (some (.bool b)) b

section Entry

variable {name : String} {entry : Option Toml.Value} {v : Toml.Value} {e : SettingsError}

theorem limit_of_zero (h : v = .integer 0 ∨ IsFalseZero v) : limit name (some v) = .ok none := by
  unfold limit
  exact if_pos (isZero_iff.mpr h)

theorem limit_of_positive {n : Nat} (h : 0 < n) :
    limit name (some (.integer n)) = .ok (some n) := by
  have hzero : ¬ isZero (.integer n) = true := by simpa [isZero] using Nat.ne_of_gt h
  unfold limit
  refine (if_neg hzero).trans ?_
  exact if_neg (Int.not_lt.mpr (Int.natCast_nonneg n))

theorem limit_of_not_allowed (h : ¬ Allowed v) :
    limit name (some v) = .error (.badLimit name v) := by
  have hzero : ¬ isZero v = true := fun hzero => by
    rcases isZero_iff.mp hzero with rfl | hfalse
    · exact h (.inl ⟨0, rfl⟩)
    · exact h (.inr hfalse)
  unfold limit
  refine (if_neg hzero).trans ?_
  cases v with
  | integer n =>
    refine if_pos (Int.not_le.mp fun hn => ?_)
    obtain ⟨m, rfl⟩ := Int.eq_ofNat_of_zero_le hn
    exact h (.inl ⟨m, rfl⟩)
  | _ => rfl

/-- An entry is absent, a zero, a positive integer, or not allowed. -/
theorem gives_or_not_allowed (entry : Option Toml.Value) :
    (∃ l, Gives entry l) ∨ ∃ v, entry = some v ∧ ¬ Allowed v := by
  cases entry with
  | none => exact .inl ⟨none, .absent⟩
  | some v =>
    by_cases h : Allowed v
    · left
      rcases h with ⟨n, rfl⟩ | hfalse
      · rcases n.eq_zero_or_pos with rfl | hn
        · exact ⟨none, .zero (.inl rfl)⟩
        · exact ⟨some n, .positive hn⟩
      · exact ⟨none, .zero (.inr hfalse)⟩
    · exact .inr ⟨v, rfl, h⟩

theorem Gives.eq {l : Option Nat} (h : Gives entry l) : limit name entry = .ok l := by
  cases h with
  | absent => rfl
  | zero h => exact limit_of_zero h
  | positive h => exact limit_of_positive h

theorem Gives.allowed {l : Option Nat} (h : Gives entry l) : ∀ v ∈ entry, Allowed v := by
  rintro v hv
  cases h with
  | absent => cases hv
  | zero h =>
    obtain rfl := Option.some.inj hv
    exact h.elim (fun h => .inl ⟨0, h⟩) .inr
  | positive h =>
    obtain rfl := Option.some.inj hv
    exact .inl ⟨_, rfl⟩

theorem Chooses.isBool {b : Bool} (h : Chooses entry b) : ∀ v ∈ entry, ∃ b, v = .bool b := by
  intro v hv
  cases h with
  | absent => cases hv
  | given b => exact ⟨b, (Option.some.inj hv).symm⟩

/-- **A limit is what its entry gives.** -/
theorem limit_eq_ok {l : Option Nat} : limit name entry = .ok l ↔ Gives entry l := by
  refine ⟨fun h => ?_, Gives.eq⟩
  rcases gives_or_not_allowed entry with ⟨l', hl'⟩ | ⟨v, rfl, hv⟩
  · obtain rfl : l' = l := Except.ok.inj (hl'.eq.symm.trans h)
    exact hl'
  · cases (limit_of_not_allowed hv).symm.trans h

/-- A limit is refused when the value under its key is not allowed. -/
theorem limit_eq_error :
    limit name entry = .error e ↔ ∃ v, entry = some v ∧ ¬ Allowed v ∧ .badLimit name v = e := by
  constructor
  · intro h
    rcases gives_or_not_allowed entry with ⟨l, hl⟩ | ⟨v, rfl, hv⟩
    · cases hl.eq.symm.trans h
    · exact ⟨v, rfl, hv, Except.error.inj ((limit_of_not_allowed hv).symm.trans h)⟩
  · rintro ⟨v, rfl, hv, rfl⟩
    exact limit_of_not_allowed hv

/-- The choice of colour is what its entry gives. -/
theorem flag_eq_ok {b : Bool} : flag name entry = .ok b ↔ Chooses entry b := by
  constructor
  · intro h
    cases entry with
    | none =>
      obtain rfl : true = b := Except.ok.inj h
      exact .absent
    | some v =>
      cases v with
      | bool b' =>
        obtain rfl : b' = b := Except.ok.inj h
        exact .given b'
      | _ => cases h
  · rintro (_ | _) <;> rfl

theorem flag_eq_error : flag name entry = .error e ↔
    ∃ v, entry = some v ∧ (¬ ∃ b, v = .bool b) ∧ .badFlag name v = e := by
  constructor
  · intro h
    cases entry with
    | none => cases h
    | some v =>
      cases v with
      | bool b => cases h
      | _ => exact ⟨_, rfl, nofun, Except.error.inj h⟩
  · rintro ⟨v, rfl, hv, rfl⟩
    cases v with
    | bool b => exact absurd ⟨b, rfl⟩ hv
    | _ => rfl

end Entry

/-! ## 3. Whole documents -/

/-- Under the heading stands a table, if anything does. -/
def HasTable (t : Toml.Table) (heading : String) : Prop :=
  ∀ v ∈ t.value? heading, ∃ s, v = .table s

/-- The value under a key of the table under a heading. -/
def field? (t : Toml.Table) (heading key : String) : Option Toml.Value :=
  match t.value? heading with
  | some (.table s) => Toml.Table.value? s key
  | _ => none

/-- Where a table is expected, its entries are found. -/
theorem section?_of_hasTable {t : Toml.Table} {heading : String} (h : HasTable t heading) :
    ∃ s, section? t heading = .ok s ∧ ∀ key, s.value? key = field? t heading key := by
  unfold section? field?
  cases hv : t.value? heading with
  | none => exact ⟨[], rfl, fun _ => rfl⟩
  | some v =>
    obtain ⟨s, rfl⟩ := h v hv
    exact ⟨s, rfl, fun _ => rfl⟩

section Sequence

variable {α β : Type} {x : Except SettingsError α} {f : α → Except SettingsError β} {b : β}
  {e : SettingsError}

theorem bind_eq_ok : (x >>= f) = .ok b ↔ ∃ a, x = .ok a ∧ f a = .ok b := by
  cases x <;> simp [bind, Except.bind]

theorem bind_eq_error :
    (x >>= f) = .error e ↔ x = .error e ∨ ∃ a, x = .ok a ∧ f a = .error e := by
  cases x <;> simp [bind, Except.bind]

end Sequence

/-- The error about the first entry that is not allowed, where the limits come before the
choice. -/
inductive Refuses (maxDepth maxLength color : Option Toml.Value) : SettingsError → Prop
  | depth {v : Toml.Value} : maxDepth = some v → ¬ Allowed v →
      Refuses maxDepth maxLength color (.badLimit "parser.max_depth" v)
  | length {v : Toml.Value} : (∀ v ∈ maxDepth, Allowed v) → maxLength = some v → ¬ Allowed v →
      Refuses maxDepth maxLength color (.badLimit "parser.max_length" v)
  | color {v : Toml.Value} : (∀ v ∈ maxDepth, Allowed v) → (∀ v ∈ maxLength, Allowed v) →
      color = some v → (¬ ∃ b, v = .bool b) →
      Refuses maxDepth maxLength color (.badFlag "output.color" v)

section Document

variable {t : Toml.Table} {s : Settings} {e : SettingsError}

theorem ofTable_eq (hparser : HasTable t "parser") (houtput : HasTable t "output") :
    ofTable t = (do
      let maxDepth ← limit "parser.max_depth" (field? t "parser" "max_depth")
      let maxLength ← limit "parser.max_length" (field? t "parser" "max_length")
      let color ← flag "output.color" (field? t "output" "color")
      .ok ⟨maxDepth, maxLength, color⟩) := by
  obtain ⟨parser, hp, hp'⟩ := section?_of_hasTable hparser
  obtain ⟨output, ho, ho'⟩ := section?_of_hasTable houtput
  rw [ofTable, hp, ho, ← hp', ← hp', ← ho']
  rfl

/-- **Each setting is read off its own entry.** -/
theorem ofTable_eq_ok (hparser : HasTable t "parser") (houtput : HasTable t "output") :
    ofTable t = .ok s ↔ Gives (field? t "parser" "max_depth") s.maxDepth ∧
      Gives (field? t "parser" "max_length") s.maxLength ∧
      Chooses (field? t "output" "color") s.color := by
  rw [ofTable_eq hparser houtput]
  constructor
  · intro h
    obtain ⟨maxDepth, hdepth, h⟩ := bind_eq_ok.mp h
    obtain ⟨maxLength, hlength, h⟩ := bind_eq_ok.mp h
    obtain ⟨color, hcolor, h⟩ := bind_eq_ok.mp h
    obtain rfl := Except.ok.inj h
    exact ⟨limit_eq_ok.mp hdepth, limit_eq_ok.mp hlength, flag_eq_ok.mp hcolor⟩
  · rintro ⟨hdepth, hlength, hcolor⟩
    rw [limit_eq_ok.mpr hdepth, limit_eq_ok.mpr hlength, flag_eq_ok.mpr hcolor]
    rfl

/-- **The error is about the first entry that is not allowed.** -/
theorem ofTable_eq_error (hparser : HasTable t "parser") (houtput : HasTable t "output")
    (h : ofTable t = .error e) : Refuses (field? t "parser" "max_depth")
      (field? t "parser" "max_length") (field? t "output" "color") e := by
  rw [ofTable_eq hparser houtput] at h
  rcases bind_eq_error.mp h with h | ⟨maxDepth, hdepth, h⟩
  · obtain ⟨v, hentry, hv, rfl⟩ := limit_eq_error.mp h
    exact .depth hentry hv
  have hdepth := (limit_eq_ok.mp hdepth).allowed
  rcases bind_eq_error.mp h with h | ⟨maxLength, hlength, h⟩
  · obtain ⟨v, hentry, hv, rfl⟩ := limit_eq_error.mp h
    exact .length hdepth hentry hv
  have hlength := (limit_eq_ok.mp hlength).allowed
  rcases bind_eq_error.mp h with h | ⟨color, -, h⟩
  · obtain ⟨v, hentry, hv, rfl⟩ := flag_eq_error.mp h
    exact .color hdepth hlength hentry hv
  · cases h

/-- Allowed entries give settings. -/
theorem exists_ofTable_iff (hparser : HasTable t "parser") (houtput : HasTable t "output") :
    (∃ s, ofTable t = .ok s) ↔ (∀ v ∈ field? t "parser" "max_depth", Allowed v) ∧
      (∀ v ∈ field? t "parser" "max_length", Allowed v) ∧
      ∀ v ∈ field? t "output" "color", ∃ b, v = .bool b := by
  constructor
  · rintro ⟨s, hs⟩
    obtain ⟨hdepth, hlength, hcolor⟩ := (ofTable_eq_ok hparser houtput).mp hs
    exact ⟨hdepth.allowed, hlength.allowed, hcolor.isBool⟩
  · rintro ⟨hdepth, hlength, hcolor⟩
    cases h : ofTable t with
    | ok s => exact ⟨s, rfl⟩
    | error e =>
      exfalso
      cases ofTable_eq_error hparser houtput h with
      | depth hentry hv => exact hv (hdepth _ hentry)
      | length _ hentry hv => exact hv (hlength _ hentry)
      | color _ _ hentry hv => exact hv (hcolor _ hentry)

theorem ofBytes_of_parse {bytes : List UInt8} {text : List Char}
    (hdecode : Text.Utf8.decode bytes = .ok text) (hparse : Toml.parse text = .ok t) :
    ofBytes bytes = ofTable t := by
  simp only [ofBytes, hdecode, hparse]

end Document

/-- **What a document with its sections describes.**  There are settings when each limit is absent
or allowed and the choice of colour is absent or a truth value.  A limit is then the positive
integer under its key, or none where there is no entry or a zero; the choice is what its own entry
says.  Otherwise the error is about the first entry that is not allowed, and names it. -/
theorem settings_of_document {bytes : List UInt8} {text : List Char} {t : Toml.Table}
    (hdecode : Text.Utf8.decode bytes = .ok text) (hparse : Toml.parse text = .ok t)
    (hparser : HasTable t "parser") (houtput : HasTable t "output") :
    ((∃ s, ofBytes bytes = .ok s) ↔ (∀ v ∈ field? t "parser" "max_depth", Allowed v) ∧
        (∀ v ∈ field? t "parser" "max_length", Allowed v) ∧
        ∀ v ∈ field? t "output" "color", ∃ b, v = .bool b) ∧
      (∀ s, ofBytes bytes = .ok s ↔ Gives (field? t "parser" "max_depth") s.maxDepth ∧
        Gives (field? t "parser" "max_length") s.maxLength ∧
        Chooses (field? t "output" "color") s.color) ∧
      ∀ e, ofBytes bytes = .error e → Refuses (field? t "parser" "max_depth")
        (field? t "parser" "max_length") (field? t "output" "color") e := by
  rw [ofBytes_of_parse hdecode hparse]
  exact ⟨exists_ofTable_iff hparser houtput, fun _ => ofTable_eq_ok hparser houtput,
    fun _ => ofTable_eq_error hparser houtput⟩

/-- A document with a limit that is a positive integer and one that is negative. -/
def negativeLength : List Char :=
  ['[', 'p', 'a', 'r', 's', 'e', 'r', ']', '\n',
    'm', 'a', 'x', '_', 'd', 'e', 'p', 't', 'h', '=', '6', '4', '\n',
    'm', 'a', 'x', '_', 'l', 'e', 'n', 'g', 't', 'h', '=', '-', '1']

/-- The table of that document. -/
def negativeLengthTable : Toml.Table :=
  [("parser", .table [("max_depth", .integer 64), ("max_length", .integer (-1))])]

theorem hasTable_of_getD {t : Toml.Table} {heading : String} {s : Toml.Table}
    (h : (t.value? heading).getD (.table s) = .table s) : HasTable t heading := by
  intro v hv
  rw [hv] at h
  exact ⟨s, h⟩

/-- The negative limit is what the error is about. -/
theorem settings_of_negativeLength :
    Text.Utf8.decode (Text.Utf8.encode negativeLength) = .ok negativeLength ∧
      Toml.parse negativeLength = .ok negativeLengthTable ∧
      HasTable negativeLengthTable "parser" ∧ HasTable negativeLengthTable "output" ∧
      ofBytes (Text.Utf8.encode negativeLength) =
        .error (.badLimit "parser.max_length" (.integer (-1))) ∧
      Refuses (some (.integer 64)) (some (.integer (-1))) none
        (.badLimit "parser.max_length" (.integer (-1))) := by
  have hparser : HasTable negativeLengthTable "parser" := hasTable_of_getD rfl
  have houtput : HasTable negativeLengthTable "output" := hasTable_of_getD (s := []) rfl
  have hdecode : Text.Utf8.decode (Text.Utf8.encode negativeLength) = .ok negativeLength := rfl
  have hrefuses := (settings_of_document hdecode rfl hparser houtput).2.2
  exact ⟨hdecode, rfl, hparser, houtput, rfl, hrefuses _ rfl⟩

/-- A document in which a limit is a truth value. -/
def falseDepth : List Char :=
  ['[', 'p', 'a', 'r', 's', 'e', 'r', ']', '\n',
    'm', 'a', 'x', '_', 'd', 'e', 'p', 't', 'h', '=', 'f', 'a', 'l', 's', 'e']

/-- The table of that document. -/
def falseDepthTable : Toml.Table :=
  [("parser", .table [("max_depth", .bool false)])]

/-- **Not only integers are accepted as limits**: `false` is one, and means that there is none. -/
theorem not_only_integers :
    Toml.parse falseDepth = .ok falseDepthTable ∧ HasTable falseDepthTable "parser" ∧
      HasTable falseDepthTable "output" ∧
      ¬ ((∃ s, ofBytes (Text.Utf8.encode falseDepth) = .ok s) ↔
        (∀ v ∈ field? falseDepthTable "parser" "max_depth", IsLimit v) ∧
        (∀ v ∈ field? falseDepthTable "parser" "max_length", IsLimit v) ∧
        ∀ v ∈ field? falseDepthTable "output" "color", ∃ b, v = .bool b) := by
  refine ⟨rfl, hasTable_of_getD rfl, hasTable_of_getD (s := []) rfl, fun h => ?_⟩
  obtain ⟨n, hn⟩ := (h.mp ⟨.default, rfl⟩).1 (.bool false) rfl
  cases hn

end Literals.Settings
