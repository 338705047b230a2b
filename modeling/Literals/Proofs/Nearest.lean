/-
# The nearest configuration

A search starts in the directory of its place and goes up to the root.  Everything about it follows
from two facts on one directory: what stands there is the nearest, whatever lies above
(`nearest_of_there`), and where nothing stands the nearest is that of the directory above
(`nearest_concat`).  The walk up is an induction on the depth of the directory, and asks once for
each directory that it comes to.

**The settings are those of the nearest configuration, or the error about it**; the defaults stand
in only where there is none on the whole way up (`Loads`).
-/
import Literals.Files
import Mathlib.Data.List.Infix

namespace Literals

/-- The place of the configuration in a directory. -/
def configurationIn (d : Place) : Place :=
  d ++ [World.configurationName]

namespace World

/-! ## 1. On the way up -/

/-- The directory in which a search starts: the place itself, or the directory around a file. -/
def startDirectory (w : World Id) (start : Place) : Place :=
  match w.look start with
  | some (.file _) => start.dropLast
  | _ => start

/-- In the directory `d`, which is `home` or above it, the entry stands as the configuration, and
every other directory on the way that has one lies above `d`. -/
structure Nearest (w : World Id) (home d : Place) (e : Entry) : Prop where
  above : d <+: home
  there : w.look (configurationIn d) = some e
  closest : ∀ d', d' <+: home → w.look (configurationIn d') ≠ none → d' <+: d

/-- No directory on the way from `home` to the root has a configuration. -/
def Bare (w : World Id) (home : Place) : Prop :=
  ∀ d, d <+: home → w.look (configurationIn d) = none

section

variable {w : World Id} {home d d' : Place} {name : String} {e e' : Entry}

/-- There is one nearest configuration at most. -/
theorem Nearest.unique (h : w.Nearest home d e) (h' : w.Nearest home d' e') : d = d' ∧ e = e' := by
  have hthere : w.look (configurationIn d) ≠ none := fun hnone => by
    cases hnone.symm.trans h.there
  have hthere' : w.look (configurationIn d') ≠ none := fun hnone => by
    cases hnone.symm.trans h'.there
  have hle := (h'.closest d h.above hthere).length_le
  obtain rfl : d' = d := (h.closest d' h'.above hthere').eq_of_length_le hle
  exact ⟨rfl, Option.some.inj (h.there.symm.trans h'.there)⟩

/-- Where there is a nearest configuration, the way up is not bare. -/
theorem Nearest.not_bare (h : w.Nearest home d e) : ¬ w.Bare home := fun hbare => by
  cases (hbare d h.above).symm.trans h.there

/-- What stands in the directory itself is the nearest. -/
theorem nearest_of_there (h : w.look (configurationIn home) = some e) : w.Nearest home home e :=
  ⟨List.prefix_rfl, h, fun _ habove _ => habove⟩

/-- **Where nothing stands in a directory, the nearest configuration is that of the directory
above.** -/
theorem nearest_concat (h : w.look (configurationIn (home ++ [name])) = none) :
    w.Nearest (home ++ [name]) d e ↔ w.Nearest home d e := by
  constructor
  · intro hnear
    refine ⟨?_, hnear.there, fun d' hd' => hnear.closest d' (hd'.trans (List.prefix_append ..))⟩
    rcases List.prefix_concat_iff.mp hnear.above with rfl | habove
    · cases h.symm.trans hnear.there
    · exact habove
  · intro hnear
    refine ⟨hnear.above.trans (List.prefix_append ..), hnear.there, fun d' hd' hthere => ?_⟩
    rcases List.prefix_concat_iff.mp hd' with rfl | habove
    · exact absurd h hthere
    · exact hnear.closest d' habove hthere

theorem bare_concat (h : w.look (configurationIn (home ++ [name])) = none) :
    w.Bare (home ++ [name]) ↔ w.Bare home := by
  constructor
  · exact fun hbare d hd => hbare d (hd.trans (List.prefix_append ..))
  · intro hbare d hd
    rcases List.prefix_concat_iff.mp hd with rfl | habove
    · exact h
    · exact hbare d habove

end

/-! ## 2. The walk -/

section

variable (w : World Id)

/-- The root is the last directory of the walk. -/
theorem nearestAbove?_nil :
    w.nearestAbove? [] =
      match w.look (configurationIn []) with
      | some e => some (configurationIn [], e)
      | none => none := by
  change (w.look (configurationIn [])).map _ = _
  cases w.look (configurationIn []) <;> rfl

/-- In each directory, what stands there is found; else the walk goes on above. -/
theorem nearestAbove?_cons (name : String) (above : List String) :
    w.nearestAbove? (name :: above) =
      match w.look (configurationIn (above.reverse ++ [name])) with
      | some e => some (configurationIn (above.reverse ++ [name]), e)
      | none => w.nearestAbove? above := by
  rw [← List.reverse_cons]
  rfl

theorem nearest?_eq (start : Place) :
    w.nearest? start = w.nearestAbove? (w.startDirectory start).reverse := by
  unfold startDirectory
  change (match w.look start with | some (.file _) => _ | _ => _) = _
  split <;> rfl

/-- The walk finds the nearest configuration, or nothing where the way up is bare. -/
theorem nearestAbove?_cases (above : List String) :
    (∃ d e, w.nearestAbove? above = some (configurationIn d, e) ∧ w.Nearest above.reverse d e) ∨
      w.nearestAbove? above = none ∧ w.Bare above.reverse := by
  -- The names stand with the deepest first, so each step of the induction is one directory up.
  induction above with
  | nil =>
    rw [nearestAbove?_nil]
    cases hroot : w.look (configurationIn []) with
    | some e => exact Or.inl ⟨[], e, rfl, nearest_of_there hroot⟩
    | none =>
      refine Or.inr ⟨rfl, fun d hd => ?_⟩
      rw [List.prefix_nil.mp hd, hroot]
  | cons name above ih =>
    rw [nearestAbove?_cons, List.reverse_cons]
    cases hhere : w.look (configurationIn (above.reverse ++ [name])) with
    | some e => exact Or.inl ⟨_, e, rfl, nearest_of_there hhere⟩
    | none =>
      simp only [nearest_concat hhere, bare_concat hhere]
      exact ih

theorem nearest?_cases (start : Place) :
    (∃ d e, w.nearest? start = some (configurationIn d, e) ∧
      w.Nearest (w.startDirectory start) d e) ∨
      w.nearest? start = none ∧ w.Bare (w.startDirectory start) := by
  have hcases := w.nearestAbove?_cases (w.startDirectory start).reverse
  rwa [List.reverse_reverse, ← nearest?_eq] at hcases

variable {w} {start : Place}

/-- **What is found is the nearest configuration.** -/
theorem nearest?_eq_some_iff {place : Place} {e : Entry} :
    w.nearest? start = some (place, e) ↔
      ∃ d, w.Nearest (w.startDirectory start) d e ∧ place = configurationIn d := by
  constructor
  · intro h
    rcases w.nearest?_cases start with ⟨d, e', hfound, hnear⟩ | ⟨hnone, -⟩
    · obtain ⟨rfl, rfl⟩ := Prod.mk.inj (Option.some.inj (h.symm.trans hfound))
      exact ⟨d, hnear, rfl⟩
    · cases h.symm.trans hnone
  · rintro ⟨d, hnear, rfl⟩
    rcases w.nearest?_cases start with ⟨d', e', hfound, hnear'⟩ | ⟨-, hbare⟩
    · obtain ⟨rfl, rfl⟩ := hnear.unique hnear'
      exact hfound
    · exact absurd hbare hnear.not_bare

/-- **Nothing is found exactly where there is no configuration on the way up.** -/
theorem nearest?_eq_none_iff : w.nearest? start = none ↔ w.Bare (w.startDirectory start) := by
  rcases w.nearest?_cases start with ⟨d, e, hfound, hnear⟩ | ⟨hnone, hbare⟩
  · rw [hfound]
    exact iff_of_false nofun hnear.not_bare
  · exact iff_of_true hnone hbare

/-! ## 3. How long the walk takes -/

variable (w)

/-- The same surroundings, with a note of every place that was asked for. -/
def noting : World (StateM (List Place)) where
  workingDirectory := w.workingDirectory
  look p := do
    modify (· ++ [p])
    pure (w.look p)
  input := pure w.input

theorem nearestAbove?_cons_run (name : String) (above : List String) (asked : List Place) :
    (w.noting.nearestAbove? (name :: above)).run asked =
      match w.look (configurationIn (above.reverse ++ [name])) with
      | some e => (some (configurationIn (above.reverse ++ [name]), e),
          asked ++ [configurationIn (above.reverse ++ [name])])
      | none => (w.noting.nearestAbove? above).run
          (asked ++ [configurationIn (above.reverse ++ [name])]) := by
  rw [← List.reverse_cons]
  change (match w.look (configurationIn (name :: above).reverse) with
      | some e => (pure (some (configurationIn (name :: above).reverse, e)) : StateM _ _)
      | none => w.noting.nearestAbove? above).run _ = _
  split <;> rfl

/-- **The walk asks once for each directory up to the one where it ends.** -/
theorem run_nearestAbove?_noting (above : List String) (asked : List Place) :
    ∃ more, (w.noting.nearestAbove? above).run asked = (w.nearestAbove? above, asked ++ more) ∧
      more.length ≤ above.length + 1 := by
  induction above generalizing asked with
  | nil => exact ⟨[configurationIn []], rfl, le_rfl⟩
  | cons name above ih =>
    rw [nearestAbove?_cons_run]
    cases hhere : w.look (configurationIn (above.reverse ++ [name])) with
    | some e =>
      refine ⟨[configurationIn (above.reverse ++ [name])], ?_, Nat.le_add_left _ _⟩
      rw [nearestAbove?_cons, hhere]
    | none =>
      obtain ⟨more, hmore, hlength⟩ := ih (asked ++ [configurationIn (above.reverse ++ [name])])
      refine ⟨configurationIn (above.reverse ++ [name]) :: more, ?_, Nat.succ_le_succ hlength⟩
      rw [nearestAbove?_cons, hhere]
      exact hmore.trans (by rw [List.append_assoc, List.singleton_append])

theorem length_startDirectory_le (start : Place) :
    (w.startDirectory start).length ≤ start.length := by
  unfold startDirectory
  split
  · rw [List.length_dropLast]
    exact Nat.sub_le _ _
  · exact le_rfl

/-- **A search ends after two questions more than its place is deep**, with the same answer. -/
theorem run_nearest?_noting (start : Place) :
    ∃ asked, (w.noting.nearest? start).run [] = (w.nearest? start, asked) ∧
      asked.length ≤ start.length + 2 := by
  have hrun : (w.noting.nearest? start).run [] =
      (w.noting.nearestAbove? (w.startDirectory start).reverse).run [start] := by
    unfold startDirectory
    change (match w.look start with | some (.file _) => _ | _ => _ : StateM _ _).run [start] = _
    split <;> rfl
  obtain ⟨more, hmore, hlength⟩ :=
    w.run_nearestAbove?_noting (w.startDirectory start).reverse [start]
  refine ⟨[start] ++ more, ?_, ?_⟩
  · rw [hrun, hmore, nearest?_eq]
  · have hle := w.length_startDirectory_le start
    rw [List.length_reverse] at hlength
    rw [List.length_append, List.length_singleton]
    omega

/-! ## 4. The settings -/

/-- What loading the settings for a place amounts to: the nearest configuration alone decides, and
the defaults stand in for no configuration at all. -/
inductive Loads (start : Place) : Except LoadError Settings → Prop where
  | loaded {d : Place} {bytes : List UInt8} {s : Settings}
      (hnear : w.Nearest (w.startDirectory start) d (.file bytes))
      (hs : Settings.ofBytes bytes = .ok s) : Loads start (.ok s)
  | invalid {d : Place} {bytes : List UInt8} {e : SettingsError}
      (hnear : w.Nearest (w.startDirectory start) d (.file bytes))
      (he : Settings.ofBytes bytes = .error e) : Loads start (.error (.settings e))
  | directory {d : Place} (hnear : w.Nearest (w.startDirectory start) d .directory) :
      Loads start (.error (.access .isADirectory))
  | default (hbare : w.Bare (w.startDirectory start)) : Loads start (.ok .default)

variable {w} {r : Except LoadError Settings}

theorem discover_of_some {place : Place} {e : Entry} (h : w.nearest? start = some (place, e)) :
    w.discover start = e.settings := by
  unfold discover
  change (match w.nearest? start with | none => _ | some (_, e) => _) = _
  rw [h]
  rfl

theorem discover_of_none (h : w.nearest? start = none) : w.discover start = .ok .default := by
  unfold discover
  change (match w.nearest? start with | none => _ | some (_, e) => _) = _
  rw [h]
  rfl

theorem settings_file (bytes : List UInt8) :
    (Entry.file bytes).settings = (Settings.ofBytes bytes).mapError .settings := by
  unfold Entry.settings
  dsimp only
  split
  next s hs => rw [hs]; rfl
  next e he => rw [he]; rfl

/-- **Loading amounts to what the nearest configuration says**, and to nothing else. -/
theorem discover_eq_iff : w.discover start = r ↔ w.Loads start r := by
  constructor
  · rintro rfl
    rcases w.nearest?_cases start with ⟨d, e, hfound, hnear⟩ | ⟨hnone, hbare⟩
    · rw [discover_of_some hfound]
      cases e with
      | directory => exact .directory hnear
      | file bytes =>
        rw [settings_file]
        cases hs : Settings.ofBytes bytes with
        | ok s => exact .loaded hnear hs
        | error e => exact .invalid hnear hs
    · rw [discover_of_none hnone]
      exact .default hbare
  · intro h
    cases h with
    | loaded hnear hs =>
      rw [discover_of_some (nearest?_eq_some_iff.mpr ⟨_, hnear, rfl⟩), settings_file, hs]
      rfl
    | invalid hnear he =>
      rw [discover_of_some (nearest?_eq_some_iff.mpr ⟨_, hnear, rfl⟩), settings_file, he]
      rfl
    | directory hnear => exact discover_of_some (nearest?_eq_some_iff.mpr ⟨_, hnear, rfl⟩)
    | default hbare => exact discover_of_none (nearest?_eq_none_iff.mpr hbare)

/-- **The search finds the nearest configuration**, after at most two questions more than its place
is deep; it finds none exactly where the way up is bare.  The settings are those of the
configuration that was found, an error about that one, or the defaults where there is none. -/
theorem finds_nearest (w : World Id) (start : Place) :
    (∃ asked, (w.noting.nearest? start).run [] = (w.nearest? start, asked) ∧
      asked.length ≤ start.length + 2) ∧
    (∀ place e, w.nearest? start = some (place, e) ↔
      ∃ d, w.Nearest (w.startDirectory start) d e ∧ place = configurationIn d) ∧
    (w.nearest? start = none ↔ w.Bare (w.startDirectory start)) ∧
    (∀ r, w.discover start = r ↔ w.Loads start r) :=
  ⟨w.run_nearest?_noting start, fun _ _ => nearest?_eq_some_iff, nearest?_eq_none_iff,
    fun _ => discover_eq_iff⟩

/-- A directory under the name hides the configuration above it. -/
example :
    let w : World Id := {
      workingDirectory := []
      look := fun p =>
        if p = ["a", "literaltree.toml"] then some .directory
        else if p = ["literaltree.toml"] then some (.file [])
        else none
      input := [] }
    w.discover ["a", "b"] = .error (.access .isADirectory) := by
  rfl

end

end World

end Literals
