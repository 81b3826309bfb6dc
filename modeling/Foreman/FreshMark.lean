import Foreman.Text.Quoted
/-!
# Fresh marks

A fresh mark is made from a number. It has thirty-two hexadecimal digits in groups of eight, four,
four, four and twelve; the third group starts with 4 and the fourth with 8, 9, a or b. The marks say
nothing to a reader, so in a text that is shown they are veiled.

## Main definitions

* `Foreman.FreshMark.ofNat`: the mark of a number.
* `Foreman.FreshMark.veil`: a text in which every mark is veiled.
-/

namespace Foreman.FreshMark

/-- The hexadecimal digits of a number, so many of them, the last ones. -/
def digits : Nat → Nat → List Char
  | 0, _ => []
  | width + 1, n => digits width (n / 16) ++ [Nat.digitChar (n % 16)]

/-- The mark of a number, which stands in its last group. -/
def ofNat (n : Nat) : String :=
  "00000000-0000-4000-8000-" ++ String.ofList (digits 12 n)

/-- Whether a character is a hexadecimal digit in small letters. -/
def isHex (c : Char) : Bool :=
  c.isDigit || ('a' ≤ c && c ≤ 'f')

/-- What may stand at the places of a mark. -/
def places : List (Char → Bool) :=
  let hex (n : Nat) : List (Char → Bool) := List.replicate n isHex
  let only (cs : List Char) : List (Char → Bool) := [cs.contains]
  hex 8 ++ only ['-'] ++ hex 4 ++ only ['-'] ++ only ['4'] ++ hex 3 ++ only ['-'] ++
    only ['8', '9', 'a', 'b'] ++ hex 3 ++ only ['-'] ++ hex 12

/-- What follows a mark, if a text starts with one. -/
def after? : List (Char → Bool) → List Char → Option (List Char)
  | [], cs => some cs
  | _ :: _, [] => none
  | p :: ps, c :: cs => if p c then after? ps cs else none

/-- A mark takes one character for each of its places. -/
theorem length_of_after? {ps : List (Char → Bool)} {cs rest : List Char}
    (h : after? ps cs = some rest) : rest.length + ps.length = cs.length := by
  induction ps generalizing cs with
  | nil => simp [after?] at h; simp [h]
  | cons p ps ih =>
    cases cs with
    | nil => simp [after?] at h
    | cons c cs =>
      simp only [after?] at h
      split at h
      · have := ih h
        simp only [List.length_cons]
        omega
      · simp at h

theorem length_places : places.length = 36 := by decide

/-- What stands for a mark in a text that is shown. -/
def veiled : List Char :=
  "<uuid>".toList

/-- A text, as characters, in which every mark is veiled. -/
def veilChars : List Char → List Char
  | [] => []
  | c :: cs =>
    match _h : after? places (c :: cs) with
    | some rest => veiled ++ veilChars rest
    | none => c :: veilChars cs
termination_by cs => cs.length
decreasing_by
  · have := length_of_after? _h
    rw [length_places] at this
    omega
  · simp

/-- A text in which every mark is veiled. -/
def veil (s : String) : String :=
  String.ofList (veilChars s.toList)

end Foreman.FreshMark
