import Foreman.Proofs.Toml.Values
/-!
# Lines of sectioned texts are read back

The lines of a table that are written one after another, each with a key and its value, are read
back as these keys and values. So is a heading, with the lines below it. Keys are meant that need no
quotes.

## Main definitions

* `Foreman.Toml.Item.isValue`: what can be written is no table.
* `Foreman.Toml.assignments`: the keys and values that the members of a table are read as.

## Main results

* `Foreman.Toml.lines?_own`: the line of a key is read back.
* `Foreman.Toml.lines?_writeOwn?`: so are all lines of a table.
* `Foreman.Toml.lines?_heading`: so is a heading.
-/

namespace Foreman.Toml

variable {c : Char} {cs rest : List Char} {fuel : ℕ} {name key : String} {item : Item}
  {members : List (String × Item)}

/-! ### Keys -/

theorem isKeyChar_of_isBareKey (h : isBareKey key = true) :
    ∀ c ∈ key.toList, isKeyChar c = true := by
  simp only [isBareKey, Bool.and_eq_true, List.all_eq_true] at h
  exact h.2

/-- A key that needs no quotes starts with a character that keys may have. -/
theorem exists_key_eq (h : isBareKey key = true) :
    ∃ c cs, key.toList = c :: cs ∧ isKeyChar c = true := by
  have hne : key.toList ≠ [] := by
    rintro hnil
    rw [String.toList_eq_nil_iff] at hnil
    subst hnil
    exact absurd h (by decide)
  obtain ⟨c, cs, hkey⟩ := List.exists_cons_of_ne_nil hne
  exact ⟨c, cs, hkey, isKeyChar_of_isBareKey h c (hkey ▸ List.mem_cons_self)⟩

theorem ne_of_isKeyChar (h : isKeyChar c = true) {d : Char} (hd : isKeyChar d = false) : c ≠ d := by
  rintro rfl
  rw [hd] at h
  cases h

theorem isBlank_eq_false_iff : isBlank c = false ↔ c ≠ ' ' ∧ c ≠ '\t' := by
  simp [isBlank]

theorem solid_of_isKeyChar (h : isKeyChar c = true) (cs : List Char) : Solid (c :: cs) := by
  have hne {d : Char} (hd : isKeyChar d = false) : c ≠ d := ne_of_isKeyChar h hd
  exact solid_cons ⟨isBlank_eq_false_iff.2 ⟨hne (by decide), hne (by decide)⟩, hne (by decide),
    hne (by decide), hne (by decide)⟩ cs

theorem simpleKey?_bare (h : isBareKey key = true) (hrest : ∀ c ∈ rest.head?, isKeyChar c = false) :
    simpleKey? (key.toList ++ rest) = some (key, rest) := by
  have hbare : (key.toList ++ rest).takeWhile isKeyChar = key.toList :=
    Text.takeWhile_append_eq (isKeyChar_of_isBareKey h) hrest
  obtain ⟨c, cs, hkey, -⟩ := exists_key_eq h
  rw [simpleKey?]
  simp only [hbare, List.drop_left, String.ofList_toList]
  simp [hkey]

theorem skipBlanks_key (h : isBareKey key = true) (rest : List Char) :
    skipBlanks (key.toList ++ rest) = key.toList ++ rest := by
  obtain ⟨c, cs, hkey, hc⟩ := exists_key_eq h
  rw [hkey]
  exact skipBlanks_cons_of_not ((solid_of_isKeyChar hc cs) c rfl).1 _

/-- A key is read up to the first character that is no blank and no dot. -/
theorem key?_last (h : isBareKey key = true) (hrest : ∀ c ∈ rest.head?, isKeyChar c = false)
    (hdot : ∀ c ∈ (skipBlanks rest).head?, c ≠ '.') (fuel : ℕ) :
    key? (fuel + 1) (key.toList ++ rest) = some (⟨[], key⟩, skipBlanks rest) := by
  simp only [key?, skipBlanks_key h, simpleKey?_bare h hrest, Option.bind_eq_bind,
    Option.bind_some]
  split
  · next heq => exact absurd rfl (hdot '.' (by rw [heq]; rfl))
  · rfl

/-- A key with a dot after it is a part of the path to the next one. -/
theorem key?_dot (h : isBareKey key = true) (fuel : ℕ) (rest : List Char) :
    key? (fuel + 1) (key.toList ++ '.' :: rest) =
      (key? fuel rest).map fun x => (⟨key :: x.1.path, x.1.last⟩, x.2) := by
  have hdot : skipBlanks ('.' :: rest) = '.' :: rest := skipBlanks_cons_of_not (by decide) rest
  have hread : simpleKey? (key.toList ++ '.' :: rest) = some (key, '.' :: rest) :=
    simpleKey?_bare h (by rintro _ ⟨⟩; decide)
  simp only [key?, skipBlanks_key h, hread, Option.bind_eq_bind, Option.bind_some, hdot]
  cases key? fuel rest <;> rfl

/-! ### Lines -/

theorem lineRest?_lineEnd (rest : List Char) : lineRest? ('\n' :: rest) = some rest :=
  rfl

/-- A value that is written starts with something that is not passed over. -/
theorem exists_writeValue?_eq {v : String} (h : writeValue? item = some v) :
    ∃ c cs, v.toList = c :: cs ∧ isBlank c = false := by
  cases item with
  | flag b =>
    cases b <;>
    · obtain rfl := Option.some.inj h
      exact ⟨_, _, rfl, by decide⟩
  | int n =>
    rw [writeValue?] at h
    split at h
    · obtain rfl := Option.some.inj h
      obtain ⟨c, cs, hn, hc⟩ := exists_toString_eq n
      exact ⟨c, cs, hn, isBlank_eq_false_iff.2 ⟨ne_of_starts hc (by decide) (by decide),
        ne_of_starts hc (by decide) (by decide)⟩⟩
    · cases h
  | text s =>
    obtain rfl := Option.some.inj h
    obtain ⟨c, cs, hs, rfl | rfl⟩ := exists_writeText_eq s <;> exact ⟨_, cs, hs, by decide⟩
  | texts items =>
    obtain rfl := Option.some.inj h
    obtain ⟨cs, hitems, -⟩ := exists_writeTexts_eq (Nat.lt_succ_self items.length) 0 []
    exact ⟨'[', cs, by simpa using hitems, by decide⟩
  | table members => cases h

/-- The line of a key is read back, and then the lines after it. -/
theorem lines?_own (hkey : isBareKey key = true) {v : String} (hv : writeValue? item = some v)
    (fuel : ℕ) (more : List Char) :
    lines? (fuel + 1) ((writeKey key ++ " = " ++ v ++ "\n").toList ++ more) =
      (lines? fuel more).map fun x => (⟨[], key, item.document⟩ :: x.1, x.2) := by
  have htext : (writeKey key ++ " = " ++ v ++ "\n").toList ++ more =
      key.toList ++ ' ' :: '=' :: ' ' :: (v.toList ++ '\n' :: more) := by
    simp [writeKey, hkey]
  have hread (fuel : ℕ) : key? (fuel + 1)
      (key.toList ++ ' ' :: '=' :: ' ' :: (v.toList ++ '\n' :: more)) =
        some (⟨[], key⟩, '=' :: ' ' :: (v.toList ++ '\n' :: more)) :=
    key?_last hkey (by rintro _ ⟨⟩; decide) (by rintro _ ⟨⟩; decide) fuel
  have hskip : skipBlanks (' ' :: (v.toList ++ '\n' :: more)) = v.toList ++ '\n' :: more := by
    obtain ⟨c, cs, hc, hblank⟩ := exists_writeValue?_eq hv
    rw [hc]
    exact skipBlanks_cons_of_not hblank _
  have hvalue : value? (2 * (' ' :: (v.toList ++ '\n' :: more)).length + 2) 0
      (v.toList ++ '\n' :: more) = some (item.document, '\n' :: more) := by
    refine value?_writeValue? hv ?_ (by decide) more
    simp only [List.length_cons, List.length_append]
    omega
  rw [htext]
  obtain ⟨c, cs, hc, hchar⟩ := exists_key_eq hkey
  rw [hc, List.cons_append] at hread ⊢
  rw [lines?, skipAllFiller_of_solid (solid_of_isKeyChar hchar _)]
  split
  · next heq => cases heq
  · next heq => exact absurd (List.cons.inj heq).1 (ne_of_isKeyChar hchar (by decide))
  · next heq => exact absurd (List.cons.inj heq).1 (ne_of_isKeyChar hchar (by decide))
  · simp only [hread, Option.bind_eq_bind, Option.bind_some, after?, if_true, hskip, hvalue,
      lineRest?_lineEnd]
    cases lines? fuel more <;> rfl

/-- The line of a heading with two parts. -/
def headingLine (name key : String) : String :=
  "[" ++ name ++ "." ++ key ++ "]\n"

theorem heading?_dotted (hname : isBareKey name = true) (hkey : isBareKey key = true)
    (rest : List Char) :
    heading? ('[' :: (name.toList ++ '.' :: (key.toList ++ ']' :: rest))) =
      some ((false, ⟨[name], key⟩), rest) := by
  have hbracket : skipBlanks (']' :: rest) = ']' :: rest := skipBlanks_cons_of_not (by decide) rest
  have hlast (fuel : ℕ) : key? (fuel + 1) (key.toList ++ ']' :: rest) =
      some (⟨[], key⟩, ']' :: rest) := by
    have hread : key? (fuel + 1) (key.toList ++ ']' :: rest) =
        some (⟨[], key⟩, skipBlanks (']' :: rest)) :=
      key?_last hkey (by rintro _ ⟨⟩; decide) (by rw [hbracket]; rintro _ ⟨⟩; decide) fuel
    rwa [hbracket] at hread
  have hread (fuel : ℕ) : key? (fuel + 2) (name.toList ++ '.' :: (key.toList ++ ']' :: rest)) =
      some (⟨[name], key⟩, ']' :: rest) := by
    rw [key?_dot hname, hlast]
    rfl
  obtain ⟨c, cs, hc, hchar⟩ := exists_key_eq hname
  rw [hc, List.cons_append] at hread ⊢
  unfold heading?
  split
  · next heq =>
    exact absurd (List.cons.inj (List.cons.inj heq).2).1 (ne_of_isKeyChar hchar (by decide))
  · next heq =>
    obtain ⟨-, rfl⟩ := List.cons.inj heq
    rw [List.length_cons, hread]
    rfl
  · next hne => exact absurd rfl (hne _)

/-- A heading is read back, with the lines below it. -/
theorem lines?_heading (hname : isBareKey name = true) (hkey : isBareKey key = true) (fuel : ℕ)
    (more : List Char) :
    lines? (fuel + 1) ((headingLine name key).toList ++ more) =
      (lines? fuel more).map fun x =>
        ([], ⟨some (false, ⟨[name], key⟩), x.1⟩ :: x.2) := by
  have htext : (headingLine name key).toList ++ more =
      '[' :: (name.toList ++ '.' :: (key.toList ++ ']' :: '\n' :: more)) := by
    simp [headingLine]
  rw [htext, lines?, skipAllFiller_of_solid (solid_cons (by decide) _)]
  simp only [heading?_dotted hname hkey, Option.bind_eq_bind, Option.bind_some,
    lineRest?_lineEnd]
  cases lines? fuel more <;> rfl

/-! ### The lines of a table -/

/-- What can be written is no table. -/
def Item.isValue : Item → Bool
  | .table _ => false
  | _ => true

/-- The keys and values that the members of a table are read as. -/
def assignments (members : List (String × Item)) : List Assignment :=
  members.map fun m => ⟨[], m.1, m.2.document⟩

theorem writeOwn?_cons (h : item.isValue = true) (key : String) (rest : List (String × Item)) :
    writeOwn? ((key, item) :: rest) = (writeValue? item).bind fun value =>
      (writeOwn? rest).map fun more => writeKey key ++ " = " ++ value ++ "\n" ++ more := by
  cases item with
  | table members => cases h
  | _ =>
    simp only [writeOwn?, Option.bind_eq_bind]
    cases writeValue? _ <;> cases writeOwn? rest <;> rfl

/-- The lines of a table are read back, and then the lines after them. -/
theorem lines?_writeOwn? {own : String} (h : writeOwn? members = some own)
    (hvalues : ∀ m ∈ members, m.2.isValue = true) (hbare : ∀ m ∈ members, isBareKey m.1 = true)
    (fuel : ℕ) (more : List Char) :
    lines? (fuel + members.length) (own.toList ++ more) =
      (lines? fuel more).map fun x => (assignments members ++ x.1, x.2) := by
  induction members generalizing own with
  | nil =>
    obtain rfl := Option.some.inj h
    cases hmore : lines? fuel more <;> simp [assignments, hmore]
  | cons m members ih =>
    obtain ⟨key, item⟩ := m
    obtain ⟨hvalue, hvalues⟩ := List.forall_mem_cons.1 hvalues
    obtain ⟨hkey, hbare⟩ := List.forall_mem_cons.1 hbare
    rw [writeOwn?_cons hvalue] at h
    obtain ⟨v, hv, h⟩ := Option.bind_eq_some_iff.1 h
    obtain ⟨rest, hrest, rfl⟩ := Option.map_eq_some_iff.1 h
    rw [String.toList_append, List.append_assoc, List.length_cons, ← Nat.add_assoc,
      lines?_own hkey hv, ih hrest hvalues hbare]
    cases lines? fuel more <;> rfl

theorem length_le_writeOwn? {own : String} (h : writeOwn? members = some own)
    (hvalues : ∀ m ∈ members, m.2.isValue = true) : members.length ≤ own.toList.length := by
  induction members generalizing own with
  | nil => simp
  | cons m members ih =>
    obtain ⟨key, item⟩ := m
    obtain ⟨hvalue, hvalues⟩ := List.forall_mem_cons.1 hvalues
    rw [writeOwn?_cons hvalue] at h
    obtain ⟨v, hv, h⟩ := Option.bind_eq_some_iff.1 h
    obtain ⟨rest, hrest, rfl⟩ := Option.map_eq_some_iff.1 h
    have hlength := ih hrest hvalues
    have hline : "\n".toList.length = 1 := rfl
    simp only [String.toList_append, List.length_append, List.length_cons, hline]
    omega

end Foreman.Toml
