import Foreman.Document.Reading
import Foreman.Text.Blank
/-!
# Strategies

A strategy is a way of getting the work of a step done: by a fixed rule, by inference, or by a
person. Any other name stands for a strategy of its own, and is kept as it is written.

Blanks around a name never matter. Letter case matters only for the names of its own kind: the three
well-known names are recognised in any case. Of all characters that have a lower case, only the
capitals of the Latin alphabet have a lower case that occurs in those three names, so no other
letter has to be lowered.

## Main definitions

* `Foreman.Strategy`: the strategies.
* `Foreman.Strategy.name`, `Foreman.Strategy.ofName`: the name of a strategy and the strategy of a
  name.

## Main results

* `Foreman.Strategy.ofName_name_ofName`: the name of a strategy that was read from a text is read
  back as that strategy.
* `Foreman.Strategy.ofName_name_of_read`: so is that of a strategy that was read from a document.
-/

namespace Foreman

/-- A way of getting the work of a step done. -/
inductive Strategy where
  /-- By a fixed rule. -/
  | algorithmic
  /-- By inference. -/
  | ai
  /-- By a person. -/
  | human
  /-- Under any other name. -/
  | custom (name : String)
  deriving DecidableEq, Repr, Inhabited

namespace Strategy

/-- The name of a strategy. -/
def name : Strategy → String
  | algorithmic => "algorithmic"
  | ai => "ai"
  | human => "human"
  | custom name => name

/-- The well-known strategy of a name in lower case. -/
def wellKnown? (lowered : List Char) : Option Strategy :=
  if lowered = algorithmic.name.toList then some algorithmic
  else if lowered = ai.name.toList then some ai
  else if lowered = human.name.toList then some human
  else none

/-- The strategy of a name. -/
def ofName (s : String) : Strategy :=
  let trimmed := Text.trimChars s.toList
  (wellKnown? (trimmed.map Text.lowerLatin)).getD (custom (String.ofList trimmed))

/-- A strategy, given by its name. -/
def read (d : Document) : Except Misfit Strategy :=
  d.asText.map ofName

/-- The name of a strategy, as a value. -/
def json (s : Strategy) : Json :=
  .text s.name

/-! ### Names and strategies -/

@[simp] theorem ofName_algorithmic : ofName "algorithmic" = algorithmic := by decide

@[simp] theorem ofName_ai : ofName "ai" = ai := by decide

@[simp] theorem ofName_human : ofName "human" = human := by decide

/-- The name of a strategy that was read from a text is read back as that strategy. -/
theorem ofName_name_ofName (s : String) : ofName (ofName s).name = ofName s := by
  have hs : ofName s = (wellKnown? ((Text.trimChars s.toList).map Text.lowerLatin)).getD
      (custom (String.ofList (Text.trimChars s.toList))) := rfl
  cases h : wellKnown? ((Text.trimChars s.toList).map Text.lowerLatin) with
  | none =>
    rw [h] at hs
    rw [hs]
    simp [ofName, name, Text.trimChars_trimChars, h]
  | some a =>
    rw [h] at hs
    simp only [Option.getD_some] at hs
    rw [hs]
    simp only [wellKnown?] at h
    split at h
    · simp only [Option.some.injEq] at h; subst h; simp [name]
    · split at h
      · simp only [Option.some.injEq] at h; subst h; simp [name]
      · split at h
        · simp only [Option.some.injEq] at h; subst h; simp [name]
        · simp at h

/-- A strategy that was read is the one of its name. -/
theorem ofName_name_of_read {d : Document} {s : Strategy} (h : read d = .ok s) :
    ofName s.name = s := by
  unfold read at h
  cases htext : d.asText with
  | error why =>
    rw [htext] at h
    exact nomatch h
  | ok name =>
    rw [htext] at h
    obtain rfl := Except.ok.inj h
    exact ofName_name_ofName name

end Strategy

end Foreman
