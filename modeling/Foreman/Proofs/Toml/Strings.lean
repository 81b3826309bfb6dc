import Foreman.Text.Blank
import Foreman.Toml.Printer
import Mathlib.Data.List.TakeWhile
/-!
# Strings of sectioned texts are read back

A text is written in one of three ways: between quotes, between apostrophes, or over several lines.
In each way it is read as itself, whatever stands after it but another quote.

## Main definitions

* `Foreman.Toml.WrittenAs`: how a character is written between quotes.

## Main results

* `Foreman.Toml.writtenAs_writeChar`: a character is written so that it can be read.
* `Foreman.Toml.string?_writeText`: a text that is written is read back.
-/

namespace Foreman.Toml

variable {c : Char} {cs rest acc : List Char} {manyLines : Bool} {fuel : ℕ}

/-! ### Characters -/

/-- A character is written between quotes as it stands, by an escape or, where line ends may stand,
as a line end. -/
inductive WrittenAs (manyLines : Bool) (c : Char) : List Char → Prop
  | raw (hprintable : isPrintable c = true) (hquote : c ≠ '"') (hbackslash : c ≠ '\\')
      (hreturn : c ≠ '\r') : WrittenAs manyLines c [c]
  | escaped {e : Char} {es : List Char} (hblank : isBlank e = false) (hline : e ≠ '\n')
      (hreturn : e ≠ '\r')
      (hread : ∀ rest, escape? (e :: es ++ rest) = some (c, rest)) :
      WrittenAs manyLines c ('\\' :: e :: es)
  | lineEnd (hmany : manyLines = true) (hline : c = '\n') : WrittenAs manyLines c ['\n']

theorem hex?_writeHex : ∀ n < 128, hex? ['0', '0', (Nat.digitChar (n / 16)).toUpper,
    (Nat.digitChar (n % 16)).toUpper] = some n := by
  decide

theorem scalar?_toNat (c : Char) : scalar? c.toNat = some c := by
  have hvalid : c.toNat.isValidChar := c.valid
  rw [scalar?, dif_pos hvalid]
  rfl

/-- A character that is not printable is written by its number. -/
theorem escape?_numbered (h : c.toNat < 128) (rest : List Char) :
    escape? ('u' :: '0' :: '0' :: (Nat.digitChar (c.toNat / 16)).toUpper ::
      (Nat.digitChar (c.toNat % 16)).toUpper :: rest) = some (c, rest) := by
  simp [escape?, escape?.numbered, hex?_writeHex _ h, scalar?_toNat]

/-- However a character is written, it can be read. -/
theorem writtenAs_writeChar (manyLines : Bool) (c : Char) :
    WrittenAs manyLines c (writeChar manyLines c) := by
  unfold writeChar
  split_ifs with hb ht hn hmany hf hr hq hs hnumber
  · subst hb
    exact .escaped (by decide) (by decide) (by decide) fun _ => rfl
  · subst ht
    exact .escaped (by decide) (by decide) (by decide) fun _ => rfl
  · exact .lineEnd hmany hn
  · subst hn
    exact .escaped (by decide) (by decide) (by decide) fun _ => rfl
  · subst hf
    exact .escaped (by decide) (by decide) (by decide) fun _ => rfl
  · subst hr
    exact .escaped (by decide) (by decide) (by decide) fun _ => rfl
  · subst hq
    exact .escaped (by decide) (by decide) (by decide) fun _ => rfl
  · subst hs
    exact .escaped (by decide) (by decide) (by decide) fun _ => rfl
  · exact .escaped (by decide) (by decide) (by decide) (escape?_numbered (by omega))
  · have hprintable : isPrintable c = true := by
      simp only [isPrintable, Bool.or_eq_true, Bool.and_eq_true, decide_eq_true_eq]
      omega
    exact .raw hprintable hq hs hr

theorem WrittenAs.ne_nil {ws : List Char} (h : WrittenAs manyLines c ws) : ws ≠ [] := by
  cases h <;> simp

/-- Nothing is written in fewer characters than it has. -/
theorem length_le_flatMap_writeChar (manyLines : Bool) (cs : List Char) :
    cs.length ≤ (cs.flatMap (writeChar manyLines)).length := by
  induction cs with
  | nil => simp
  | cons c cs ih =>
    have hpos := List.length_pos_iff.2 (writtenAs_writeChar manyLines c).ne_nil
    rw [List.flatMap_cons, List.length_append, List.length_cons]
    omega

/-! ### Strings on one line -/

theorem basic?_writeChar (c : Char) (fuel : ℕ) (acc rest : List Char) :
    basic? (fuel + 1) acc (writeChar false c ++ rest) = basic? fuel (c :: acc) rest := by
  have hwritten := writtenAs_writeChar false c
  generalize writeChar false c = ws at hwritten
  cases hwritten with
  | raw hprintable hquote hbackslash _ => simp [basic?, hprintable]
  | escaped _ _ _ hread =>
    have hread := hread rest
    simp only [List.cons_append] at hread ⊢
    simp [basic?, hread]
  | lineEnd hmany _ => cases hmany

/-- What is written between quotes is read up to the second one. -/
theorem basic?_writeChars (h : cs.length < fuel) (acc rest : List Char) :
    basic? fuel acc (cs.flatMap (writeChar false) ++ '"' :: rest) =
      some (String.ofList (acc.reverse ++ cs), rest) := by
  induction cs generalizing fuel acc with
  | nil =>
    obtain ⟨fuel, rfl⟩ := Nat.exists_eq_add_one_of_ne_zero (Nat.ne_of_gt h)
    simp [basic?]
  | cons c cs ih =>
    obtain ⟨fuel, rfl⟩ := Nat.exists_eq_add_one_of_ne_zero (Nat.ne_zero_of_lt h)
    rw [List.flatMap_cons, List.append_assoc, basic?_writeChar, ih (Nat.lt_of_succ_lt_succ h),
      List.reverse_cons, List.append_assoc]
    rfl

/-- Between apostrophes everything is read as it stands. -/
theorem literal?_append (h : ∀ c ∈ cs, isPrintable c = true ∧ c ≠ '\'') (rest : List Char) :
    literal? (cs ++ '\'' :: rest) = some (String.ofList cs, rest) := by
  have hbody : (cs ++ '\'' :: rest).takeWhile (fun c => isPrintable c && c ≠ '\'') = cs :=
    Text.takeWhile_append_eq (by simpa using h) (by simp)
  rw [literal?]
  simp only [hbody, List.drop_left]
  rfl

/-! ### Strings over several lines -/

theorem closing?_cons_of_ne {quote : Char} (h : c ≠ quote) (rest : List Char) :
    closing? quote (c :: rest) = none := by
  simp [closing?, h]

/-- Three quotes end a string if no other one follows. -/
theorem closing?_quotes {quote : Char} (h : ∀ c ∈ rest.head?, c ≠ quote) :
    closing? quote (quote :: quote :: quote :: rest) = some ([], rest) := by
  cases rest with
  | nil => simp [closing?]
  | cons c rest => simp [closing?, h c rfl]

theorem afterLineEnd?_cons_of_ne (hline : c ≠ '\n') (hreturn : c ≠ '\r') (rest : List Char) :
    afterLineEnd? (c :: rest) = none := by
  unfold afterLineEnd?
  split
  · next heq => exact absurd (List.cons.inj heq).1 hline
  · next heq => exact absurd (List.cons.inj heq).1 hreturn
  · rfl

theorem skipBlanks_cons_of_not (h : isBlank c = false) (rest : List Char) :
    skipBlanks (c :: rest) = c :: rest := by
  simp [skipBlanks, h]

theorem manyLines?_writeChar (c : Char) (fuel : ℕ) (acc rest : List Char) :
    manyLines? '"' (fuel + 1) acc (writeChar true c ++ rest) =
      manyLines? '"' fuel (c :: acc) rest := by
  have hwritten := writtenAs_writeChar true c
  generalize writeChar true c = ws at hwritten
  cases hwritten with
  | raw hprintable hquote hbackslash hreturn =>
    have hline : c ≠ '\n' := by
      rintro rfl
      exact absurd hprintable (by decide)
    simp [manyLines?, closing?_cons_of_ne hquote, afterLineEnd?_cons_of_ne hline hreturn,
      hbackslash, hprintable]
  | @escaped e es hblank hline hreturn hread =>
    have hcontinued : continued? (e :: (es ++ rest)) = none := by
      simp [continued?, skipBlanks_cons_of_not hblank, afterLineEnd?_cons_of_ne hline hreturn]
    have hread := hread rest
    rw [List.cons_append] at hread
    simp [manyLines?, closing?_cons_of_ne, afterLineEnd?_cons_of_ne, hcontinued, hread]
  | lineEnd _ hline =>
    subst hline
    simp [manyLines?, closing?_cons_of_ne, afterLineEnd?]

/-- What is written over several lines is read up to the three quotes at its end. -/
theorem manyLines?_writeChars (h : cs.length < fuel) (hrest : ∀ c ∈ rest.head?, c ≠ '"')
    (acc : List Char) :
    manyLines? '"' fuel acc (cs.flatMap (writeChar true) ++ '"' :: '"' :: '"' :: rest) =
      some (String.ofList (acc.reverse ++ cs), rest) := by
  induction cs generalizing fuel acc with
  | nil =>
    obtain ⟨fuel, rfl⟩ := Nat.exists_eq_add_one_of_ne_zero (Nat.ne_of_gt h)
    simp [manyLines?, closing?_quotes hrest]
  | cons c cs ih =>
    obtain ⟨fuel, rfl⟩ := Nat.exists_eq_add_one_of_ne_zero (Nat.ne_zero_of_lt h)
    rw [List.flatMap_cons, List.append_assoc, manyLines?_writeChar, ih (Nat.lt_of_succ_lt_succ h),
      List.reverse_cons, List.append_assoc]
    rfl

/-! ### Strings -/

theorem string?_quote (h : ∀ more, cs ≠ '"' :: '"' :: more) :
    string? ('"' :: cs) = basic? (cs.length + 1) [] cs := by
  unfold string?
  split
  · next heq => exact absurd (List.cons.inj heq).2 (h _)
  · next heq => cases (List.cons.inj heq).1
  · rfl

theorem string?_apostrophe (h : c ≠ '\'') : string? ('\'' :: c :: cs) = literal? (c :: cs) := by
  unfold string?
  split
  · next heq => cases (List.cons.inj heq).1
  · next heq => exact absurd (List.cons.inj (List.cons.inj heq).2).1 h
  · rfl

/-- What is written between quotes does not start with two of them. -/
theorem writeChars_ne_quotes (cs : List Char) (hrest : ∀ c ∈ rest.head?, c ≠ '"')
    (more : List Char) :
    cs.flatMap (writeChar false) ++ '"' :: rest ≠ '"' :: '"' :: more := by
  intro heq
  cases cs with
  | nil => exact hrest '"' (by rw [(List.cons.inj heq).2]; rfl) rfl
  | cons c cs =>
    rw [List.flatMap_cons, List.append_assoc] at heq
    have hwritten := writtenAs_writeChar false c
    generalize writeChar false c = ws at hwritten heq
    cases hwritten with
    | raw _ hquote _ _ => exact hquote (List.cons.inj heq).1
    | escaped _ _ _ _ => cases (List.cons.inj heq).1
    | lineEnd hmany _ => cases hmany

/-- A text that is written starts with a quote or an apostrophe. -/
theorem exists_writeText_eq (s : String) :
    ∃ c cs, (writeText s).toList = c :: cs ∧ (c = '"' ∨ c = '\'') := by
  unfold writeText
  simp only [String.toList_ofList]
  split_ifs
  · exact ⟨_, _, rfl, .inl rfl⟩
  · exact ⟨_, _, rfl, .inr rfl⟩
  · exact ⟨_, _, rfl, .inl rfl⟩

/-- A text that is written is read back, if no quote follows. -/
theorem string?_writeText (s : String) (hrest : ∀ c ∈ rest.head?, c ≠ '"') :
    string? ((writeText s).toList ++ rest) = some (s, rest) := by
  unfold writeText
  simp only [String.toList_ofList]
  split_ifs with hmany hsuits
  · have hfuel : s.toList.length <
        ('\n' :: (s.toList.flatMap (writeChar true) ++ '"' :: '"' :: '"' :: rest)).length + 1 := by
      have := length_le_flatMap_writeChar true s.toList
      simp only [List.length_append, List.length_cons]
      omega
    have hread := manyLines?_writeChars hfuel hrest []
    simpa [string?, string?.body, afterLineEnd?] using hread
  · simp only [suitsApostrophes, Bool.and_eq_true, Bool.or_eq_true, List.all_eq_true,
      decide_eq_true_eq] at hsuits
    obtain ⟨hneeds, hall⟩ := hsuits
    have hread := literal?_append hall rest
    cases hs : s.toList with
    | nil => simp [hs] at hneeds
    | cons c cs =>
      rw [hs] at hread hall
      have happend : '\'' :: (c :: cs) ++ ['\''] ++ rest = '\'' :: c :: (cs ++ '\'' :: rest) := by
        simp
      rw [happend, string?_apostrophe (hall c List.mem_cons_self).2]
      rw [List.cons_append, ← hs, String.ofList_toList] at hread
      exact hread
  · have hfuel : s.toList.length <
        (s.toList.flatMap (writeChar false) ++ '"' :: rest).length + 1 := by
      have := length_le_flatMap_writeChar false s.toList
      simp only [List.length_append, List.length_cons]
      omega
    have hread := basic?_writeChars hfuel [] rest
    have happend : '"' :: s.toList.flatMap (writeChar false) ++ ['"'] ++ rest =
        '"' :: (s.toList.flatMap (writeChar false) ++ '"' :: rest) := by
      simp
    rw [happend, string?_quote (writeChars_ne_quotes _ hrest), hread]
    simp

end Foreman.Toml
