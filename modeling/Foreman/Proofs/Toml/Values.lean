import Foreman.Proofs.Toml.Numbers
import Foreman.Proofs.Toml.Strings
import Foreman.Toml
/-!
# Values of sectioned texts are read back

Everything that is written as the value of a key is read back up to the end of its line: flags,
whole numbers, texts and lists of texts. A list of two texts or more goes over several lines, and
what stands between its texts there is passed over.

## Main definitions

* `Foreman.Toml.Solid`: there is nothing to pass over at the start of a text.

## Main results

* `Foreman.Toml.value?_writeTexts`: a list of texts is read back.
* `Foreman.Toml.value?_writeValue?`: so is every value that is written.
-/

namespace Foreman.Toml

variable {c : Char} {cs rest : List Char} {fuel depth : ℕ}

/-! ### What is passed over -/

/-- A text starts with no blank, no comment and no line end. -/
def Solid (cs : List Char) : Prop :=
  ∀ c ∈ cs.head?, isBlank c = false ∧ c ≠ '#' ∧ c ≠ '\n' ∧ c ≠ '\r'

theorem solid_cons (h : isBlank c = false ∧ c ≠ '#' ∧ c ≠ '\n' ∧ c ≠ '\r') (cs : List Char) :
    Solid (c :: cs) := by
  rintro _ ⟨⟩
  exact h

/-- The blanks before something else are passed over, and nothing more. -/
theorem skipAllFiller_blanks (blanks : List Char) (hblanks : ∀ c ∈ blanks, isBlank c = true)
    (hcs : Solid cs) : skipAllFiller (blanks ++ cs) = cs := by
  have hskip : skipBlanks (blanks ++ cs) = cs := by
    rw [skipBlanks, List.dropWhile_append_of_pos hblanks]
    cases cs with
    | nil => rfl
    | cons c cs => exact skipBlanks_cons_of_not (hcs c rfl).1 cs
  rw [skipAllFiller, skipFiller, hskip]
  cases cs with
  | nil => rfl
  | cons c cs =>
    obtain ⟨-, hcomment, hline, hreturn⟩ := hcs c rfl
    split
    · next heq => exact absurd (List.cons.inj heq).1 hcomment
    · rw [afterLineEnd?_cons_of_ne hline hreturn]

theorem skipAllFiller_of_solid (h : Solid cs) : skipAllFiller cs = cs :=
  skipAllFiller_blanks [] (fun _ hc => absurd hc List.not_mem_nil) h

theorem skipAllFiller_lineEnd (cs : List Char) : skipAllFiller ('\n' :: cs) = skipAllFiller cs :=
  rfl

/-! ### Texts and lists of texts -/

theorem solid_writeText (s : String) (rest : List Char) :
    Solid ((writeText s).toList ++ rest) := by
  obtain ⟨c, cs, hs, rfl | rfl⟩ := exists_writeText_eq s <;> rw [hs] <;>
    exact solid_cons (by decide) _

/-- What starts with no bracket and no brace is neither a list nor a table. -/
theorem value?_cons (hbracket : c ≠ '[') (hbrace : c ≠ Char.ofNat 0x7B) (fuel depth : ℕ)
    (cs : List Char) : value? (fuel + 1) depth (c :: cs) = scalarValue? (c :: cs) := by
  simp [value?, after?, afterOpenBrace?, hbracket.symm, hbrace.symm]

theorem value?_writeText (s : String) (hfuel : 0 < fuel) (hrest : ∀ c ∈ rest.head?, c ≠ '"') :
    value? fuel depth ((writeText s).toList ++ rest) = some (.text s, rest) := by
  obtain ⟨fuel, rfl⟩ := Nat.exists_eq_add_one_of_ne_zero (Nat.ne_of_gt hfuel)
  have hread := string?_writeText s hrest
  obtain ⟨c, cs, hs, rfl | rfl⟩ := exists_writeText_eq s <;>
  · rw [hs, List.cons_append] at hread ⊢
    rw [value?_cons (by decide) (by decide)]
    simp [scalarValue?, hread]

/-- The lines of a list of texts that goes over several lines. -/
def itemLines (items : List String) : List Char :=
  items.flatMap fun s => [' ', ' ', ' ', ' '] ++ (writeText s).toList ++ [',', '\n']

theorem solid_bracket (rest : List Char) : Solid (']' :: rest) :=
  solid_cons (by decide) rest

theorem items?_bracket (fuel depth : ℕ) (rest : List Char) :
    items? (fuel + 1) depth (']' :: rest) = some ([], rest) := by
  simp [items?]

/-- A text and the bracket after it are read as the end of a list. -/
theorem items?_writeText_bracket (s : String) (fuel depth : ℕ) (rest : List Char) :
    items? (fuel + 2) depth ((writeText s).toList ++ ']' :: rest) = some ([.text s], rest) := by
  have hread : value? (fuel + 1) depth ((writeText s).toList ++ ']' :: rest) =
      some (.text s, ']' :: rest) := value?_writeText s (Nat.succ_pos fuel) (by simp)
  obtain ⟨c, cs, hs, hc⟩ := exists_writeText_eq s
  rw [hs, List.cons_append] at hread ⊢
  unfold items?
  split
  · next heq =>
    rw [(List.cons.inj heq).1] at hc
    exact absurd hc (by decide)
  · simp [hread, skipAllFiller_of_solid (solid_bracket rest)]

/-- A text and the comma after it are read as an item of a list. -/
theorem items?_writeText_comma (s : String) (fuel depth : ℕ) (rest : List Char) :
    items? (fuel + 2) depth ((writeText s).toList ++ ',' :: rest) =
      (items? (fuel + 1) depth (skipAllFiller rest)).map fun x => (.text s :: x.1, x.2) := by
  have hread : value? (fuel + 1) depth ((writeText s).toList ++ ',' :: rest) =
      some (.text s, ',' :: rest) := value?_writeText s (Nat.succ_pos fuel) (by simp)
  have hcomma : Solid (',' :: rest) := solid_cons (by decide) rest
  obtain ⟨c, cs, hs, hc⟩ := exists_writeText_eq s
  rw [hs, List.cons_append] at hread ⊢
  rw [items?.eq_def]
  dsimp only
  split
  · next heq =>
    rw [(List.cons.inj heq).1] at hc
    exact absurd hc (by decide)
  · simp only [hread, Option.bind_eq_bind, Option.bind_some, skipAllFiller_of_solid hcomma]
    cases items? (fuel + 1) depth (skipAllFiller rest) <;> rfl

/-- A list that goes over several lines is read line by line. -/
theorem items?_itemLines {items : List String} (h : items.length < fuel) :
    items? fuel depth (skipAllFiller ('\n' :: (itemLines items ++ ']' :: rest))) =
      some (items.map .text, rest) := by
  induction items generalizing fuel with
  | nil =>
    obtain ⟨fuel, rfl⟩ := Nat.exists_eq_add_one_of_ne_zero (Nat.ne_of_gt h)
    have hskip : skipAllFiller ('\n' :: (itemLines [] ++ ']' :: rest)) = ']' :: rest := by
      rw [skipAllFiller_lineEnd]
      exact skipAllFiller_of_solid (solid_bracket rest)
    rw [hskip, items?_bracket]
    rfl
  | cons s items ih =>
    obtain ⟨fuel, rfl⟩ := Nat.exists_eq_add_of_lt h
    have hskip : skipAllFiller ('\n' :: (itemLines (s :: items) ++ ']' :: rest)) =
        (writeText s).toList ++ ',' :: '\n' :: (itemLines items ++ ']' :: rest) := by
      have hblanks := skipAllFiller_blanks [' ', ' ', ' ', ' '] (by simp [isBlank])
        (solid_writeText s (',' :: '\n' :: (itemLines items ++ ']' :: rest)))
      rw [skipAllFiller_lineEnd, ← hblanks]
      simp [itemLines]
    have hlength : items.length + 1 + fuel + 1 = items.length + fuel + 2 := by omega
    rw [hskip, List.length_cons, hlength, items?_writeText_comma, ih (by omega)]
    rfl

theorem toList_join_itemLines (items : List String) :
    (String.join (items.map fun s => "    " ++ writeText s ++ ",\n")).toList = itemLines items := by
  induction items with
  | nil => simp [itemLines]
  | cons s items ih => simp [itemLines] at ih ⊢; simp [ih]

/-- A list of texts is written as a bracket, and its items are read after that. -/
theorem exists_writeTexts_eq {items : List String} (hfuel : items.length < fuel) (depth : ℕ)
    (rest : List Char) : ∃ cs, (writeTexts items).toList ++ rest = '[' :: cs ∧
      items? fuel depth (skipAllFiller cs) = some (items.map .text, rest) := by
  match items with
  | [] =>
    obtain ⟨fuel, rfl⟩ := Nat.exists_eq_add_of_le' hfuel
    refine ⟨']' :: rest, by simp [writeTexts], ?_⟩
    rw [skipAllFiller_of_solid (solid_bracket rest)]
    exact items?_bracket fuel depth rest
  | [s] =>
    obtain ⟨fuel, rfl⟩ := Nat.exists_eq_add_of_le' hfuel
    refine ⟨(writeText s).toList ++ ']' :: rest, by simp [writeTexts], ?_⟩
    rw [skipAllFiller_of_solid (solid_writeText s _)]
    exact items?_writeText_bracket s fuel depth rest
  | s :: t :: items =>
    refine ⟨'\n' :: (itemLines (s :: t :: items) ++ ']' :: rest), ?_, items?_itemLines hfuel⟩
    simp only [writeTexts, String.toList_append, toList_join_itemLines]
    simp

/-- A list of texts that is written is read back. -/
theorem value?_writeTexts {items : List String} (hfuel : items.length + 1 < fuel)
    (hdepth : depth < depthLimit) (rest : List Char) :
    value? fuel depth ((writeTexts items).toList ++ rest) =
      some (.list (items.map .text), rest) := by
  obtain ⟨fuel, rfl⟩ := Nat.exists_eq_add_one_of_ne_zero (Nat.ne_zero_of_lt hfuel)
  obtain ⟨cs, htext, hitems⟩ :=
    exists_writeTexts_eq (Nat.lt_of_succ_lt_succ hfuel) (depth + 1) rest
  rw [htext, value?]
  simp [after?, hdepth, hitems]

/-! ### Values -/

/-- A list of texts is not longer than it is written. -/
theorem length_le_itemLines (items : List String) : items.length ≤ (itemLines items).length := by
  induction items with
  | nil => simp
  | cons s items ih =>
    simp only [itemLines, List.flatMap_cons, List.length_append, List.length_cons] at ih ⊢
    omega

theorem length_le_writeTexts (items : List String) :
    items.length ≤ (writeTexts items).toList.length := by
  match items with
  | [] => simp
  | [s] => simp [writeTexts]
  | s :: t :: items =>
    have hlines := length_le_itemLines (s :: t :: items)
    simp only [writeTexts, String.toList_append, toList_join_itemLines, List.length_append]
    omega

/-- What starts with no quote and with the letter of no word is read as a number. -/
theorem scalarValue?_cons (hquote : c ≠ '"') (hapostrophe : c ≠ '\'') (htrue : c ≠ 't')
    (hfalse : c ≠ 'f') (cs : List Char) : scalarValue? (c :: cs) =
      ((moment? (c :: cs)).or (float? (c :: cs))).or (integer? (c :: cs)) := by
  unfold scalarValue?
  split
  · next heq => exact absurd (List.cons.inj heq).1 hquote
  · next heq => exact absurd (List.cons.inj heq).1 hapostrophe
  · next heq => exact absurd (List.cons.inj heq).1 htrue
  · next heq => exact absurd (List.cons.inj heq).1 hfalse
  · rfl

/-- A whole number is read as such up to the end of its line. -/
theorem value?_number {n : ℤ} (h : -(Int.pow 2 63) ≤ n ∧ n < Int.pow 2 63) (fuel depth : ℕ)
    (rest : List Char) :
    value? (fuel + 1) depth ((toString n).toList ++ '\n' :: rest) =
      some (.int n, '\n' :: rest) := by
  have hmoment := moment?_number n rest
  have hfloat := float?_number n rest
  have hinteger := integer?_number h rest
  obtain ⟨c, cs, hn, hc⟩ := exists_toString_eq n
  have hne {d : Char} (hminus : d ≠ '-') (hdigit : d.isDigit = false) : c ≠ d :=
    ne_of_starts hc hminus hdigit
  rw [hn, List.cons_append] at hmoment hfloat hinteger ⊢
  rw [value?_cons (hne (by decide) (by decide)) (hne (by decide) (by decide)),
    scalarValue?_cons (hne (by decide) (by decide)) (hne (by decide) (by decide))
      (hne (by decide) (by decide)) (hne (by decide) (by decide)), hmoment, hfloat, hinteger]
  rfl

/-- Every value that is written is read back up to the end of its line. -/
theorem value?_writeValue? {item : Item} {v : String} (h : writeValue? item = some v)
    (hfuel : v.toList.length + 1 < fuel) (hdepth : depth < depthLimit) (rest : List Char) :
    value? fuel depth (v.toList ++ '\n' :: rest) = some (item.document, '\n' :: rest) := by
  have hpos : 0 < fuel := Nat.zero_lt_of_lt hfuel
  obtain ⟨fuel, rfl⟩ := Nat.exists_eq_add_one_of_ne_zero (Nat.ne_of_gt hpos)
  cases item with
  | flag b =>
    cases b <;>
    · obtain rfl := Option.some.inj h
      simp [value?, after?, afterOpenBrace?, scalarValue?, Item.document]
  | int n =>
    rw [writeValue?] at h
    split at h
    · next hrange =>
      obtain rfl := Option.some.inj h
      exact value?_number hrange fuel depth rest
    · cases h
  | text s =>
    obtain rfl := Option.some.inj h
    exact value?_writeText s hpos (by simp)
  | texts items =>
    obtain rfl := Option.some.inj h
    have hlength := length_le_writeTexts items
    exact value?_writeTexts (by omega) hdepth _
  | table members => cases h

end Foreman.Toml
