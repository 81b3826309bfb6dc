import Foreman.Proofs.Document.ReadBack
import Foreman.Proofs.Time.Calendar
import Foreman.Timestamp
/-!
# Timestamps and their texts

The text of a point in time is read as that point in time, if the calendar reaches its day and a
second that is inserted ends a minute. Every point in time that some text spells is of that kind:
zones are distant from universal time by whole minutes, and texts with days that the calendar does
not reach are refused.

## Main definitions

* `Foreman.Timestamp.Spelled`: the points in time that texts spell.

## Main results

* `Foreman.Timestamp.number_padded`, `Foreman.Timestamp.field_padded`,
  `Foreman.Timestamp.yearField_writeYear`, `Foreman.Timestamp.decimals_writeNanos`: the parts of a
  text that are written are read.
* `Foreman.Timestamp.Spelled.parse_write`: so is the text of a point in time.
* `Foreman.Timestamp.spelled_of_parse`: what a text spells is of that kind.
* `Foreman.Timestamp.readsBack`: a point in time is read back.
-/

namespace Foreman

namespace Decimal

theorem valueOf_toDigits (n : Nat) : valueOf (Nat.toDigits 10 n) = n :=
  Nat.ofDigitChars_toDigits (by decide) (by decide)

theorem valueOf_zeros_append (count : Nat) (ds : List Char) :
    valueOf (List.replicate count '0' ++ ds) = valueOf ds := by
  induction count with
  | zero => rfl
  | succ count ih => exact ih

/-- The digits that a text starts with are read if something else follows them. -/
theorem leadingDigits_append {ds rest : List Char} (hds : ∀ c ∈ ds, c.isDigit = true)
    (hrest : ∀ c ∈ rest.head?, c.isDigit = false) : leadingDigits (ds ++ rest) = ds :=
  Text.takeWhile_append_eq hds hrest

end Decimal

theorem Text.trimStart_cons {c : Char} (h : isBlank c = false) (cs : List Char) :
    trimStart (c :: cs) = c :: cs :=
  (trimStart_eq_self_iff _).2 (by simpa using h)

namespace Timestamp

variable {rest : List Char}

theorem number_append {width : Nat} {ds : List Char} (hne : ds ≠ []) (hlen : ds.length ≤ width)
    (hds : ∀ c ∈ ds, c.isDigit = true) (hrest : ∀ c ∈ rest.head?, c.isDigit = false) :
    number width (ds ++ rest) = .ok (Decimal.valueOf ds, rest) := by
  have htake : Decimal.leadingDigits ((ds ++ rest).take width) = ds := by
    rw [List.take_append, List.take_of_length_le hlen]
    refine Decimal.leadingDigits_append hds fun c hc => hrest c ?_
    rw [List.head?_take] at hc
    split at hc
    · exact nomatch hc
    · exact hc
  simp [number, htake, hne]

/-! ### Numbers that are written -/

theorem toList_padded (width n : Nat) : (padded width n).toList =
    List.replicate (width - (Nat.toDigits 10 n).length) '0' ++ Nat.toDigits 10 n := by
  simp [padded]

theorem isDigit_of_mem_padded {width n : Nat} {c : Char} (h : c ∈ (padded width n).toList) :
    c.isDigit = true := by
  rw [toList_padded, List.mem_append] at h
  rcases h with h | h
  · rw [List.eq_of_mem_replicate h]
    rfl
  · exact Nat.isDigit_of_mem_toDigits (by decide) (by decide) h

/-- A number that is written starts with a digit. -/
theorem exists_padded_eq (width n : Nat) :
    ∃ c cs, (padded width n).toList = c :: cs ∧ c.isDigit = true := by
  have hne : (padded width n).toList ≠ [] := by
    rw [toList_padded]
    simp [Nat.toDigits_ne_nil]
  obtain ⟨c, cs, h⟩ := List.exists_cons_of_ne_nil hne
  exact ⟨c, cs, h, isDigit_of_mem_padded (h ▸ List.mem_cons_self)⟩

theorem length_padded {width n : Nat} (hwidth : 0 < width) (h : n < 10 ^ width) :
    (padded width n).toList.length = width := by
  have := (Nat.length_toDigits_le_iff (b := 10) (by decide) hwidth).2 h
  rw [toList_padded, List.length_append, List.length_replicate]
  omega

theorem valueOf_padded (width n : Nat) : Decimal.valueOf (padded width n).toList = n := by
  rw [toList_padded, Decimal.valueOf_zeros_append, Decimal.valueOf_toDigits]

/-- A number that is written with zeros in front is read if something else follows it. -/
theorem number_padded {bound width n : Nat} (hlen : (padded width n).toList.length ≤ bound)
    (hrest : ∀ c ∈ rest.head?, c.isDigit = false) :
    number bound ((padded width n).toList ++ rest) = .ok (n, rest) := by
  obtain ⟨c, cs, hcs, -⟩ := exists_padded_eq width n
  rw [number_append (by simp [hcs]) hlen (fun _ => isDigit_of_mem_padded) hrest, valueOf_padded]

theorem trimStart_padded (width n : Nat) (rest : List Char) :
    Text.trimStart ((padded width n).toList ++ rest) = (padded width n).toList ++ rest := by
  obtain ⟨c, cs, hcs, hdigit⟩ := exists_padded_eq width n
  rw [Text.trimStart_eq_self_iff, hcs]
  simpa using Text.isBlank_eq_false_of_isDigit hdigit

theorem field_padded {low high n : Nat} (hlow : low ≤ n) (hhigh : n ≤ high) (hn : n < 100)
    (hrest : ∀ c ∈ rest.head?, c.isDigit = false) :
    field low high ((padded 2 n).toList ++ rest) = .ok (n, rest) := by
  have hlen : (padded 2 n).toList.length ≤ 2 := Nat.le_of_eq (length_padded (by decide) hn)
  rw [field, trimStart_padded, number_padded hlen hrest]
  simp [bind, Except.bind, pure, Except.pure, hlow, hhigh]

theorem afterMark_cons {mark : Char} (h : Text.isBlank mark = false) (rest : List Char) :
    afterMark mark (mark :: rest) = .ok rest := by
  simp [afterMark, Text.trimStart_cons h]

/-- A whole number is a year if the calendar reaches it. -/
theorem yearField_of_signedYear {cs : List Char} {year : Int} (h : reaches year = true)
    (hsigned : signedYear cs = .ok (year, rest)) : yearField cs = .ok (year, rest) := by
  have hlimit : -(Int.pow 2 31) ≤ year ∧ year < Int.pow 2 31 := by
    have hpow : Int.pow 2 31 = 2 ^ 31 := rfl
    simp only [reaches, decide_eq_true_eq] at h
    rw [hpow]
    omega
  rw [yearField, hsigned]
  exact if_pos hlimit

/-- A year is read from its digits, if no sign is in front of them. -/
theorem signedYear_padded {n : Nat} (hn : n < 10 ^ 4)
    (hrest : ∀ c ∈ rest.head?, c.isDigit = false) :
    signedYear ((padded 4 n).toList ++ rest) = .ok (n, rest) := by
  obtain ⟨c, cs, hcs, hdigit⟩ := exists_padded_eq 4 n
  have hnumber : number 4 ((padded 4 n).toList ++ rest) = .ok (n, rest) :=
    number_padded (Nat.le_of_eq (length_padded (by decide) hn)) hrest
  rw [signedYear, trimStart_padded]
  rw [hcs, List.cons_append] at hnumber ⊢
  split
  · next heq =>
    rw [(List.cons.inj heq).1] at hdigit
    exact nomatch hdigit
  · next heq =>
    rw [(List.cons.inj heq).1] at hdigit
    exact nomatch hdigit
  · rw [hnumber]
    rfl

/-- After a sign the digits of a year are read to their end. -/
theorem longNumber_padded (n : Nat) (hrest : ∀ c ∈ rest.head?, c.isDigit = false) :
    longNumber ((padded 4 n).toList ++ rest) = .ok (n, rest) :=
  number_padded (by simp) hrest

theorem signedYear_minus (n : Nat) (hrest : ∀ c ∈ rest.head?, c.isDigit = false) :
    signedYear ('-' :: ((padded 4 n).toList ++ rest)) = .ok (-n, rest) := by
  rw [signedYear, Text.trimStart_cons (by decide)]
  simp only [longNumber_padded n hrest]
  rfl

theorem signedYear_plus (n : Nat) (hrest : ∀ c ∈ rest.head?, c.isDigit = false) :
    signedYear ('+' :: ((padded 4 n).toList ++ rest)) = .ok (n, rest) := by
  rw [signedYear, Text.trimStart_cons (by decide)]
  simp only [longNumber_padded n hrest]
  rfl

/-- A year that is written is read. -/
theorem yearField_writeYear {year : Int} (h : reaches year = true)
    (hrest : ∀ c ∈ rest.head?, c.isDigit = false) :
    yearField ((writeYear year).toList ++ rest) = .ok (year, rest) := by
  refine yearField_of_signedYear h ?_
  unfold writeYear
  split
  · next hshort =>
    have hyear : (year.toNat : Int) = year := by omega
    rw [signedYear_padded (by omega) hrest, hyear]
  · split
    · next hneg =>
      have hyear : -(year.natAbs : Int) = year := by omega
      have hminus : "-".toList = ['-'] := by simp
      rw [String.toList_append, List.append_assoc, hminus, List.singleton_append,
        signedYear_minus _ hrest, hyear]
    · next hlong =>
      have hyear : (year.toNat : Int) = year := by omega
      have hplus : "+".toList = ['+'] := by simp
      rw [String.toList_append, List.append_assoc, hplus, List.singleton_append,
        signedYear_plus _ hrest, hyear]

/-! ### Decimals of a second -/

theorem decimals_padded {width n : Nat} (hwidth : 0 < width) (hbound : width ≤ 9)
    (hn : n < 10 ^ width) : decimals ('.' :: ((padded width n).toList ++ ['Z'])) =
      .ok (n * 10 ^ (9 - width), ['Z']) := by
  have hlen := length_padded hwidth hn
  have hnumber : number 9 ((padded width n).toList ++ ['Z']) = .ok (n, ['Z']) :=
    number_padded (by omega) (by simp)
  have hcount : ((padded width n).toList ++ ['Z']).length - ['Z'].length = width := by
    rw [List.length_append, hlen]
    rfl
  simp only [decimals, hnumber]
  simp only [bind, Except.bind, pure, Except.pure, hcount]
  rfl

theorem isDigit_head?_writeNanos (n : Nat) :
    ∀ c ∈ ((writeNanos n).toList ++ ['Z']).head?, c.isDigit = false := by
  unfold writeNanos
  split
  · simp
  · split
    · simp
    · split <;> simp

/-- The decimals of a second that are written are read. -/
theorem decimals_writeNanos {n : Nat} (h : n < 1000000000) :
    decimals ((writeNanos n).toList ++ ['Z']) = .ok (n, ['Z']) := by
  have hpoint (s : String) : ("." ++ s).toList ++ ['Z'] = '.' :: (s.toList ++ ['Z']) := by simp
  unfold writeNanos
  split
  · next hzero =>
    rw [hzero]
    rfl
  · split
    · rw [hpoint, decimals_padded (by decide) (by decide) (by omega)]
      congr 2
      omega
    · split
      · rw [hpoint, decimals_padded (by decide) (by decide) (by omega)]
        congr 2
        omega
      · rw [hpoint, decimals_padded (by decide) (by decide) (by omega)]
        congr 2
        omega

/-! ### Points in time -/

/-- A point in time that a text can spell: its day is one that the calendar reaches, and a second
that is inserted ends a minute. -/
structure Spelled (t : Timestamp) : Prop where
  day : reaches (Calendar.ofDayNumber (t.seconds / 86400)).1 = true
  nanos : t.nanos < 2000000000
  inserted : 1000000000 ≤ t.nanos → t.seconds % 60 = 59

/-- The time of day of a point in time, which a text spells in hours, minutes and seconds. -/
theorem Spelled.time_of_day {t : Timestamp} (h : t.Spelled) :
    ∃ hour minute second : Nat, (t.seconds % 86400).toNat / 3600 = hour ∧
      (t.seconds % 86400).toNat / 60 % 60 = minute ∧
      (t.seconds % 86400).toNat % 60 + t.nanos / 1000000000 = second ∧
      hour ≤ 23 ∧ minute ≤ 59 ∧ second ≤ 60 ∧
      (hour * 3600 + minute * 60 + second - (if second = 60 then 1 else 0 : Nat) : Int) =
        t.seconds % 86400 ∧
      t.nanos % 1000000000 + (if second = 60 then 1 else 0) * 1000000000 = t.nanos := by
  obtain ⟨-, hnanos, hinserted⟩ := h
  refine ⟨_, _, _, rfl, rfl, rfl, ?_⟩
  by_cases hlate : 1000000000 ≤ t.nanos
  · have := hinserted hlate
    rw [if_pos (by omega)]
    omega
  · rw [if_neg (by omega)]
    omega

/-- What is written of a point in time spells it. -/
theorem Spelled.parse_write {t : Timestamp} (h : t.Spelled) : parse t.write = .ok t := by
  obtain ⟨year, month, day, hday, hmonths, hdays, hnumber⟩ :=
    Calendar.ofDayNumber_spec (t.seconds / 86400)
  obtain ⟨hour, minute, second, hhour, hminute, hsecond, hhours, hminutes, hseconds, htime,
    hnanos⟩ := h.time_of_day
  have hreached := h.day
  rw [hday] at hreached
  have htext : t.write.toList = (writeYear year).toList ++ ('-' :: ((padded 2 month).toList ++
      ('-' :: ((padded 2 day).toList ++ ('T' :: ((padded 2 hour).toList ++
        (':' :: ((padded 2 minute).toList ++ (':' :: ((padded 2 second).toList ++
          ((writeNanos (t.nanos % 1000000000)).toList ++ ['Z']))))))))))) := by
    simp [write, hday, hhour, hminute, hsecond]
  have hdash (cs : List Char) : afterMark '-' ('-' :: cs) = .ok cs := afterMark_cons (by decide) cs
  have hcolon (cs : List Char) : afterMark ':' (':' :: cs) = .ok cs := afterMark_cons (by decide) cs
  have hzone : zone (Text.trimStart ['Z']) = .ok (0, []) := by decide
  have hlong := Calendar.daysIn_le year month
  -- field by field: each is followed by something that begins with no digit
  rw [parse, htext, yearField_writeYear hreached (by simp)]
  simp only [Except.ok_bind, hdash]
  rw [field_padded hmonths.1 hmonths.2 (by omega) (by simp)]
  simp only [Except.ok_bind, hdash]
  rw [field_padded hdays.1 (by omega) (by omega) (by simp)]
  simp only [Except.ok_bind, true_or, if_true, pure_bind]
  rw [field_padded (Nat.zero_le _) hhours (by omega) (by simp)]
  simp only [Except.ok_bind, hcolon]
  rw [field_padded (Nat.zero_le _) hminutes (by omega) (by simp)]
  simp only [Except.ok_bind, hcolon]
  rw [field_padded (Nat.zero_le _) hseconds (by omega)
    (isDigit_head?_writeNanos _)]
  simp only [Except.ok_bind, decimals_writeNanos (Nat.mod_lt _ (by decide)), hzone]
  have hvalid : ¬(day > Calendar.daysIn year month ∨ (!reaches year) = true ∨
      (0 : Int).natAbs ≥ 86400) := by
    simp [hreached, hdays.2]
  have hwhole : Calendar.dayNumber year month day * 86400 + (hour * 3600 + minute * 60 + second -
      (if second = 60 then 1 else 0 : Nat)) - 0 = t.seconds := by
    rw [htime, hnumber]
    omega
  rw [if_neg (by decide), if_neg hvalid, hwhole, hday, if_neg (by simp [hreached]), hnanos]
  rfl

/-! ### What a text spells -/

theorem digitValue_lt {c : Char} (h : c.isDigit = true) : Decimal.digitValue c < 10 := by
  rw [Char.isDigit_iff_toNat] at h
  have h9 : '9'.toNat = 57 := rfl
  unfold Decimal.digitValue
  omega

theorem valueOf_lt {ds : List Char} (h : ∀ c ∈ ds, c.isDigit = true) :
    Decimal.valueOf ds < 10 ^ ds.length := by
  suffices ∀ v, ds.foldl (fun v c => 10 * v + Decimal.digitValue c) v < (v + 1) * 10 ^ ds.length by
    simpa [Decimal.valueOf] using this 0
  induction ds with
  | nil => simp
  | cons c ds ih =>
    intro v
    have hc := digitValue_lt (h c List.mem_cons_self)
    calc ds.foldl _ (10 * v + Decimal.digitValue c)
      _ < (10 * v + Decimal.digitValue c + 1) * 10 ^ ds.length :=
        ih (fun d hd => h d (List.mem_cons_of_mem _ hd)) _
      _ ≤ (v + 1) * 10 * 10 ^ ds.length := Nat.mul_le_mul_right _ (by omega)
      _ = (v + 1) * 10 ^ (ds.length + 1) := by rw [Nat.mul_assoc, Nat.pow_succ']

/-- A number of so many digits is less than ten to the power of that. -/
theorem number_bounds {width n : Nat} {cs : List Char} (h : number width cs = .ok (n, rest)) :
    cs.length - rest.length ≤ width ∧ n < 10 ^ (cs.length - rest.length) := by
  unfold number at h
  split at h
  · exact nomatch h
  · dsimp only at h
    split at h
    · exact nomatch h
    · obtain ⟨rfl, rfl⟩ := Prod.mk.inj (Except.ok.inj h)
      have hlen : (Decimal.leadingDigits (cs.take width)).length ≤ min width cs.length := by
        rw [← List.length_take]
        exact (List.takeWhile_prefix _).length_le
      have hvalue : Decimal.valueOf (Decimal.leadingDigits (cs.take width)) <
          10 ^ (Decimal.leadingDigits (cs.take width)).length :=
        valueOf_lt fun c hc => List.all_eq_true.1 List.all_takeWhile c hc
      rw [List.length_drop]
      rw [show cs.length - (cs.length - (Decimal.leadingDigits (cs.take width)).length) =
        (Decimal.leadingDigits (cs.take width)).length by omega]
      exact ⟨by omega, hvalue⟩

theorem le_of_field {low high n : Nat} {cs : List Char} (h : field low high cs = .ok (n, rest)) :
    low ≤ n ∧ n ≤ high := by
  obtain ⟨⟨m, cs'⟩, -, h⟩ := Except.bind_eq_ok_iff.1 h
  dsimp only at h
  split at h
  · next hm =>
    obtain ⟨rfl, -⟩ := Prod.mk.inj (Except.ok.inj h)
    exact hm
  · exact nomatch h

theorem lt_of_decimals {n : Nat} {cs : List Char} (h : decimals cs = .ok (n, rest)) :
    n < 10 ^ 9 := by
  unfold decimals at h
  split at h
  · next rest' =>
    obtain ⟨⟨m, after⟩, hnumber, h⟩ := Except.bind_eq_ok_iff.1 h
    obtain ⟨rfl, -⟩ := Prod.mk.inj (Except.ok.inj h)
    obtain ⟨hcount, hm⟩ := number_bounds hnumber
    calc m * 10 ^ (9 - (rest'.length - after.length))
      _ < 10 ^ (rest'.length - after.length) * 10 ^ (9 - (rest'.length - after.length)) :=
        Nat.mul_lt_mul_of_pos_right hm (Nat.pow_pos (by decide))
      _ = 10 ^ 9 := by rw [← Nat.pow_add, Nat.add_sub_cancel' hcount]
  · obtain ⟨rfl, -⟩ := Prod.mk.inj (Except.ok.inj h)
    decide

theorem dvd_of_amount {offset : Int} {cs : List Char} (h : zone.amount cs = .ok (offset, rest)) :
    60 ∣ offset := by
  unfold zone.amount at h
  split at h
  · split at h
    · split at h
      · split at h
        · split at h
          · obtain ⟨rfl, -⟩ := Prod.mk.inj (Except.ok.inj h)
            omega
          · exact nomatch h
        · exact nomatch h
      · exact nomatch h
    · exact nomatch h
  · exact nomatch h

theorem dvd_of_map_amount {offset : Int} {cs : List Char}
    (h : (zone.amount cs).map (fun (n, rest) => (-n, rest)) = .ok (offset, rest)) :
    60 ∣ offset := by
  cases hamount : zone.amount cs with
  | error e =>
    rw [hamount] at h
    exact nomatch h
  | ok p =>
    rw [hamount] at h
    obtain ⟨rfl, rfl⟩ := Prod.mk.inj (Except.ok.inj h)
    exact Int.dvd_neg.2 (dvd_of_amount hamount)

/-- A zone is distant from universal time by whole minutes. -/
theorem dvd_of_zone {offset : Int} {cs : List Char} (h : zone cs = .ok (offset, rest)) :
    60 ∣ offset := by
  have hoffset {cs : List Char} (h : zone.offset cs = .ok (offset, rest)) : 60 ∣ offset := by
    unfold zone.offset at h
    split at h
    · exact nomatch h
    · obtain ⟨rfl, -⟩ := Prod.mk.inj (Except.ok.inj h)
      decide
    · obtain ⟨rfl, -⟩ := Prod.mk.inj (Except.ok.inj h)
      decide
    · exact dvd_of_amount h
    · exact dvd_of_map_amount h
    · exact dvd_of_map_amount h
    · exact nomatch h
  unfold zone at h
  split at h
  · split at h
    · obtain ⟨rfl, -⟩ := Prod.mk.inj (Except.ok.inj h)
      decide
    · exact hoffset h
  · exact hoffset h

/-- What a text spells is spelled by what is written of it. -/
theorem spelled_of_parse {s : String} {t : Timestamp} (h : parse s = .ok t) : t.Spelled := by
  -- the day is looked at again at the end, so nothing is needed of the fields that give it
  obtain ⟨⟨year, cs⟩, -, h⟩ := Except.bind_eq_ok_iff.1 h
  obtain ⟨cs, -, h⟩ := Except.bind_eq_ok_iff.1 h
  obtain ⟨⟨month, cs⟩, -, h⟩ := Except.bind_eq_ok_iff.1 h
  obtain ⟨cs, -, h⟩ := Except.bind_eq_ok_iff.1 h
  obtain ⟨⟨day, cs⟩, -, h⟩ := Except.bind_eq_ok_iff.1 h
  dsimp only at h
  cases cs with
  | nil => exact nomatch h
  | cons c cs =>
    dsimp only at h
    split at h
    · simp only [pure_bind] at h
      obtain ⟨⟨hour, cs⟩, hhour, h⟩ := Except.bind_eq_ok_iff.1 h
      obtain ⟨cs, -, h⟩ := Except.bind_eq_ok_iff.1 h
      obtain ⟨⟨minute, cs⟩, hminute, h⟩ := Except.bind_eq_ok_iff.1 h
      obtain ⟨cs, -, h⟩ := Except.bind_eq_ok_iff.1 h
      obtain ⟨⟨second, cs⟩, hsecond, h⟩ := Except.bind_eq_ok_iff.1 h
      obtain ⟨⟨nanos, cs⟩, hnanos, h⟩ := Except.bind_eq_ok_iff.1 h
      obtain ⟨⟨offset, cs⟩, hoffset, h⟩ := Except.bind_eq_ok_iff.1 h
      dsimp only at h
      split at h
      · exact nomatch h
      · split at h
        · exact nomatch h
        · generalize hinserted : (if second = 60 then 1 else 0 : Nat) = inserted at h
          split at h
          · exact nomatch h
          · next hreached =>
            have hnanos := lt_of_decimals hnanos
            have hsecond := le_of_field hsecond
            have hsixty : inserted = 0 ∨ inserted = 1 ∧ second = 60 := by
              split at hinserted <;> omega
            obtain ⟨minutes, rfl⟩ := dvd_of_zone hoffset
            obtain rfl := Except.ok.inj h
            exact ⟨by simpa using hreached, by dsimp only; omega, by dsimp only; omega⟩
    · exact nomatch h

theorem exists_parse_of_read {d : Document} {t : Timestamp} (h : read d = .ok t) :
    ∃ s, parse s = .ok t := by
  unfold read at h
  split at h
  · next s =>
    refine ⟨s, ?_⟩
    split at h
    · next hs => rw [hs, Except.ok.inj h]
    · exact nomatch h
  · next s =>
    refine ⟨s, ?_⟩
    split at h
    · next hs => rw [hs, Except.ok.inj h]
    · exact nomatch h
  · exact nomatch h

theorem json_ne_null (t : Timestamp) : t.json ≠ .null := by
  simp [json]

/-- A point in time that a text can spell is read back. -/
theorem Spelled.read_json {t : Timestamp} (h : t.Spelled) : read t.json.document = .ok t := by
  simp only [json, Json.document, read, h.parse_write]

/-- A point in time that was read is read back. -/
theorem readsBack : Document.ReadsBack read json := by
  intro d t _ h
  obtain ⟨s, hs⟩ := exists_parse_of_read h
  exact (spelled_of_parse hs).read_json

end Timestamp

end Foreman
