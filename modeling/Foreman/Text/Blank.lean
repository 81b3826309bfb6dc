/-!
# Blank characters and trimming

The blank characters are those with the property `White_Space`: the ASCII blanks and line ends, the
no-break and ideographic spaces, the general-punctuation spaces and the line and paragraph
separators. Trimming removes them from both ends of a text and from nowhere else.

## Main definitions

* `Foreman.Text.isBlank`: the property `White_Space`.
* `Foreman.Text.trim`: a text without the blank characters at its two ends.

## Main results

* `Foreman.Text.trimEnd_append_blanks`, `Foreman.Text.trimStart_append_of_blank`: blanks at an end
  never matter.
* `Foreman.Text.trimChars_append_blanks`, `Foreman.Text.trimChars_trimChars`: trimming forgets the
  blanks at both ends, and trimming twice is trimming once.
* `Foreman.Text.append_inj_of_head`: a text splits in one way into characters of a class and what
  starts with no character of it.
* `Foreman.Text.exists_trimChars`, `Foreman.Text.trimChars_eq`: a text is its blanks at the two ends
  and what trimming leaves.
-/

namespace Foreman.Text

/-- The property `White_Space`. -/
def isBlank (c : Char) : Bool :=
  let n := c.toNat
  (0x09 ≤ n && n ≤ 0x0D) || n == 0x20 || n == 0x85 || n == 0xA0 || n == 0x1680 ||
    (0x2000 ≤ n && n ≤ 0x200A) || n == 0x2028 || n == 0x2029 || n == 0x202F || n == 0x205F ||
    n == 0x3000

/-- A text, as characters, without the blanks it starts with. -/
def trimStart (cs : List Char) : List Char :=
  cs.dropWhile isBlank

/-- A text, as characters, without the blanks it ends with. -/
def trimEnd (cs : List Char) : List Char :=
  (trimStart cs.reverse).reverse

/-- A text, as characters, without the blanks at its two ends. -/
def trimChars (cs : List Char) : List Char :=
  trimEnd (trimStart cs)

/-- A text without the blanks at its two ends. -/
def trim (s : String) : String :=
  String.ofList (trimChars s.toList)

/-- The capital letters of the Latin alphabet in lower case; every other character unchanged. -/
def lowerLatin (c : Char) : Char :=
  if 'A' ≤ c ∧ c ≤ 'Z' then Char.ofNat (c.toNat + 32) else c

/-! ### Blanks among other characters -/

theorem isBlank_eq_false_of_isDigit {c : Char} (h : c.isDigit = true) : isBlank c = false := by
  rw [Char.isDigit_iff_toNat] at h
  simp only [isBlank, Bool.or_eq_false_iff, Bool.and_eq_false_iff, decide_eq_false_iff_not,
    beq_eq_false_iff_ne]
  have h0 : '0'.toNat = 48 := rfl
  have h9 : '9'.toNat = 57 := rfl
  omega

/-! ### Texts in two parts -/

section Parts

variable {α : Type} {p : α → Bool} {as bs as' bs' : List α}

theorem takeWhile_append_eq (has : ∀ a ∈ as, p a = true) (hbs : ∀ b ∈ bs.head?, p b = false) :
    (as ++ bs).takeWhile p = as := by
  rw [List.takeWhile_append_of_pos has]
  cases bs with
  | nil => rw [List.takeWhile_nil, List.append_nil]
  | cons b bs => rw [List.takeWhile_cons_of_neg (by simp [hbs b rfl]), List.append_nil]

/-- A list splits in one way into what satisfies a condition and what starts with something that
does not. -/
theorem append_inj_of_head (has : ∀ a ∈ as, p a = true) (hbs : ∀ b ∈ bs.head?, p b = false)
    (has' : ∀ a ∈ as', p a = true) (hbs' : ∀ b ∈ bs'.head?, p b = false)
    (h : as ++ bs = as' ++ bs') : as = as' ∧ bs = bs' := by
  have heq : as = as' := by
    rw [← takeWhile_append_eq has hbs, h, takeWhile_append_eq has' hbs']
  subst heq
  exact ⟨rfl, List.append_cancel_left h⟩

end Parts

/-! ### Trimming -/

theorem trimStart_append_of_blank {pad : List Char} (h : ∀ c ∈ pad, isBlank c)
    (cs : List Char) : trimStart (pad ++ cs) = trimStart cs := by
  induction pad with
  | nil => rfl
  | cons c pad ih =>
    have hc := h c (by simp)
    simp only [trimStart, List.cons_append, List.dropWhile_cons, hc, if_true]
    exact ih fun d hd => h d (by simp [hd])

theorem trimEnd_append_blanks {pad : List Char} (h : ∀ c ∈ pad, isBlank c) (cs : List Char) :
    trimEnd (cs ++ pad) = trimEnd cs := by
  simp only [trimEnd, List.reverse_append]
  rw [trimStart_append_of_blank fun c hc => h c (List.mem_reverse.1 hc)]

/-- A text that does not start with a blank is its own trimmed start. -/
theorem trimStart_eq_self_iff (cs : List Char) :
    trimStart cs = cs ↔ ∀ c ∈ cs.head?, isBlank c = false := by
  cases cs with
  | nil => simp [trimStart]
  | cons c cs =>
    simp only [trimStart, List.dropWhile_cons, List.head?_cons, Option.mem_def, Option.some.injEq,
      forall_eq']
    cases hc : isBlank c with
    | false => simp
    | true =>
      simp only [if_true, Bool.true_eq_false, iff_false]
      intro heq
      have := congrArg List.length heq
      have hle := (List.dropWhile_suffix (l := cs) isBlank).length_le
      simp at this
      omega

theorem trimStart_trimStart (cs : List Char) : trimStart (trimStart cs) = trimStart cs := by
  induction cs with
  | nil => rfl
  | cons c cs ih =>
    cases hc : isBlank c with
    | true => simpa [trimStart, hc] using ih
    | false => simp [trimStart, hc]

theorem trimEnd_trimEnd (cs : List Char) : trimEnd (trimEnd cs) = trimEnd cs := by
  simp [trimEnd, trimStart_trimStart]

/-- Trimming the end of a text that starts with no blank leaves its start alone. -/
theorem head?_trimEnd (cs : List Char) (h : ∀ c ∈ cs.head?, isBlank c = false) :
    ∀ c ∈ (trimEnd cs).head?, isBlank c = false := by
  have hpre : trimEnd cs <+: cs := by
    have hs : trimStart cs.reverse <:+ cs.reverse := List.dropWhile_suffix _
    simpa [trimEnd] using List.reverse_prefix.2 hs
  intro c hc
  obtain ⟨rest, hrest⟩ := hpre
  cases ht : trimEnd cs with
  | nil => simp [ht] at hc
  | cons d ds =>
    rw [ht] at hc hrest
    apply h
    simp only [List.head?_cons, Option.mem_def, Option.some.injEq] at hc
    rw [← hrest, hc.symm]
    simp

theorem trimChars_trimChars (cs : List Char) : trimChars (trimChars cs) = trimChars cs := by
  have hstart : ∀ c ∈ (trimStart cs).head?, isBlank c = false :=
    (trimStart_eq_self_iff _).1 (trimStart_trimStart cs)
  have hend := head?_trimEnd _ hstart
  simp only [trimChars]
  rw [(trimStart_eq_self_iff _).2 hend, trimEnd_trimEnd]

/-- A text is some blanks, what trimming leaves of it, and some more blanks. -/
theorem exists_trimChars (cs : List Char) :
    ∃ before after, (∀ c ∈ before, isBlank c) ∧ (∀ c ∈ after, isBlank c) ∧
      cs = before ++ trimChars cs ++ after := by
  have hsplit (ds : List Char) : ∃ pad, (∀ c ∈ pad, isBlank c) ∧ ds = pad ++ trimStart ds :=
    ⟨ds.takeWhile isBlank, List.all_eq_true.1 List.all_takeWhile,
      List.takeWhile_append_dropWhile.symm⟩
  obtain ⟨before, hbefore, hstart⟩ := hsplit cs
  obtain ⟨after, hafter, hend⟩ := hsplit (trimStart cs).reverse
  refine ⟨before, after.reverse, hbefore, fun c hc => hafter c (List.mem_reverse.1 hc), ?_⟩
  have hend' := congrArg List.reverse hend
  rw [List.reverse_reverse, List.reverse_append] at hend'
  rw [trimChars, trimEnd, List.append_assoc, ← hend']
  exact hstart

/-- Trimming leaves what has no blank at its two ends. -/
theorem trimChars_eq {before cs after : List Char} (hbefore : ∀ c ∈ before, isBlank c)
    (hafter : ∀ c ∈ after, isBlank c) (hne : cs ≠ [])
    (hhead : ∀ c ∈ cs.head?, isBlank c = false) (hlast : ∀ c ∈ cs.getLast?, isBlank c = false) :
    trimChars (before ++ cs ++ after) = cs := by
  have hstart : trimStart (cs ++ after) = cs ++ after := by
    refine (trimStart_eq_self_iff _).2 ?_
    obtain ⟨c, rest, rfl⟩ := List.exists_cons_of_ne_nil hne
    exact hhead
  have hend : trimStart cs.reverse = cs.reverse := by
    refine (trimStart_eq_self_iff _).2 ?_
    rwa [List.head?_reverse]
  rw [List.append_assoc, trimChars, trimStart_append_of_blank hbefore, hstart,
    trimEnd_append_blanks hafter, trimEnd, hend, List.reverse_reverse]

/-- Blanks at the two ends of a text never matter. -/
theorem trimChars_append_blanks {before after : List Char} (hbefore : ∀ c ∈ before, isBlank c)
    (hafter : ∀ c ∈ after, isBlank c) (cs : List Char) :
    trimChars (before ++ cs ++ after) = trimChars cs := by
  have hnil : after.dropWhile isBlank = [] := by
    simpa [trimStart] using trimStart_append_of_blank hafter []
  rw [List.append_assoc, trimChars, trimStart_append_of_blank hbefore, trimChars]
  simp only [trimStart, List.dropWhile_append]
  split
  · rename_i hblank
    rw [List.isEmpty_iff] at hblank
    rw [hblank, hnil]
  · exact trimEnd_append_blanks hafter _

end Foreman.Text
