import Foreman.Run.Record
import Mathlib.Data.List.Forall2
import Mathlib.Data.List.TakeWhile
/-!
# What goes into a step

A step declares its inputs by name. A name without a dot asks for what any earlier step has put out
under it. A name with a dot asks a step of a given name for what it has put out under a key, and the
first dot separates the two. What goes in is the input of the run, overlaid one declared input after
another with the latest value put out that is asked for, if there is one.

## Main definitions

* `Foreman.TakenFrom`: what the name of an input asks for.
* `Foreman.PutOut`: the latest value that some steps have put out.
* `Foreman.Overlaid`: a table overlaid with what is declared.
* `Foreman.AgreeOn`: two records of steps differ in nothing that is declared.

## Main results

* `Foreman.RunRecord.source_eq_iff`: how the name of an input is read.
* `Foreman.RunRecord.overlaid_inputsFor`: what goes into the step of a run that is under way.
* `Foreman.Overlaid.get?`: under each key stands what the last declaration says that found a value.
* `Foreman.Overlaid.eq_of_agreeOn`: nothing but what is declared makes a difference.
-/

namespace Foreman

/-- What the name of an input asks for: what any step has put out under it or, if it has a dot, what
a step that is called like the part before the first dot has put out under the rest. -/
inductive TakenFrom : String → Option String → String → Prop
  | anyStep {name : String} (hplain : '.' ∉ name.toList) : TakenFrom name none name
  | ofStep {step key : String} (hplain : '.' ∉ step.toList) :
      TakenFrom (step ++ "." ++ key) (some step) key

/-- The record is that of a step of a name, if one is given. -/
def StepRecord.IsOf (t : StepRecord) (step : Option String) : Prop :=
  ∀ name ∈ step, t.name = name

/-- The latest of some steps, of a name if one is given, that has put out anything under a key has
put out a value. -/
inductive PutOut (step : Option String) (key : String) : List StepRecord → Json → Prop
  | latest {before : List StepRecord} {t : StepRecord} {after : List StepRecord} {value : Json}
      (hstep : t.IsOf step) (hvalue : t.outputs.get? key = some value)
      (hafter : ∀ u ∈ after, u.IsOf step → u.outputs.get? key = none) :
      PutOut step key (before ++ t :: after) value

/-- A table is overlaid, one declared input after another, with what earlier steps have put out. -/
inductive Overlaid (earlier : List StepRecord) : Bindings → List Field → Bindings → Prop
  | nil {base : Bindings} : Overlaid earlier base [] base
  | found {base result : Bindings} {field : Field} {rest : List Field} {step : Option String}
      {key : String} {value : Json} (hfrom : TakenFrom field.name step key)
      (hvalue : PutOut step key earlier value)
      (hrest : Overlaid earlier (base.insert key value) rest result) :
      Overlaid earlier base (field :: rest) result
  | missing {base result : Bindings} {field : Field} {rest : List Field} {step : Option String}
      {key : String} (hfrom : TakenFrom field.name step key)
      (hnone : ∀ value, ¬ PutOut step key earlier value)
      (hrest : Overlaid earlier base rest result) : Overlaid earlier base (field :: rest) result

/-! ### Names of inputs -/

namespace RunRecord

/-- Where the part without a dot ends and something follows, it is the first dot. -/
theorem eq_append_of_dropWhile {cs rest : List Char} {c : Char}
    (h : cs.dropWhile (· ≠ '.') = c :: rest) : cs = cs.takeWhile (· ≠ '.') ++ '.' :: rest := by
  have hdot : c = '.' := by
    have hhead := List.head?_dropWhile_not (· ≠ '.') cs
    rw [h] at hhead
    simpa using hhead
  have hsplit := List.takeWhile_append_dropWhile (p := (· ≠ '.')) (l := cs)
  rw [h, hdot] at hsplit
  exact hsplit.symm

theorem source_of_plain {name : String} (h : '.' ∉ name.toList) : source name = (none, name) := by
  have hnone : name.toList.dropWhile (· ≠ '.') = [] :=
    List.dropWhile_eq_nil_iff.2 fun c hc => by
      simpa using fun heq : c = '.' => h (heq ▸ hc)
  unfold source
  simp only [hnone]

theorem source_of_dotted {step key : String} (h : '.' ∉ step.toList) :
    source (step ++ "." ++ key) = (some step, key) := by
  have hbefore : ∀ c ∈ step.toList, decide (c ≠ '.') = true := fun c hc => by
    simpa using fun heq : c = '.' => h (heq ▸ hc)
  have hname : (step ++ "." ++ key).toList = step.toList ++ '.' :: key.toList := by
    simp [String.toList_append]
  have hdrop : (step.toList ++ '.' :: key.toList).dropWhile (· ≠ '.') = '.' :: key.toList := by
    rw [List.dropWhile_append_of_pos hbefore, List.dropWhile_cons_of_neg (by simp)]
  have htake : (step.toList ++ '.' :: key.toList).takeWhile (· ≠ '.') = step.toList :=
    Text.takeWhile_append_eq hbefore (by simp)
  unfold source
  simp only [hname, hdrop, htake, String.ofList_toList]

/-- The name of an input is read as what it asks for. -/
theorem takenFrom_source (name : String) : TakenFrom name (source name).1 (source name).2 := by
  cases h : name.toList.dropWhile (· ≠ '.') with
  | nil =>
    have hplain : '.' ∉ name.toList := fun hdot => by
      simpa using List.dropWhile_eq_nil_iff.1 h '.' hdot
    rw [source_of_plain hplain]
    exact .anyStep hplain
  | cons c rest =>
    have hbefore : '.' ∉ name.toList.takeWhile (· ≠ '.') := fun hdot => by
      simpa using List.mem_takeWhile_imp hdot
    have hname : name =
        String.ofList (name.toList.takeWhile (· ≠ '.')) ++ "." ++ String.ofList rest := by
      apply String.toList_inj.1
      simpa [String.toList_append] using eq_append_of_dropWhile h
    have hplain : '.' ∉ (String.ofList (name.toList.takeWhile (· ≠ '.'))).toList := by
      rwa [String.toList_ofList]
    rw [hname, source_of_dotted hplain]
    exact .ofStep hplain

theorem source_eq_iff {name : String} {step : Option String} {key : String} :
    source name = (step, key) ↔ TakenFrom name step key := by
  constructor
  · intro h
    simpa [h] using takenFrom_source name
  · intro h
    cases h with
    | anyStep hplain => exact source_of_plain hplain
    | ofStep hplain => exact source_of_dotted hplain

end RunRecord

/-! ### What has been put out -/

/-- What the record of a step shows under a key, if it is that of a step of a name. -/
def StepRecord.shown? (step : Option String) (key : String) (t : StepRecord) : Option Json :=
  if step.all (t.name = ·) then t.outputs.get? key else none

variable {step : Option String} {key : String} {value : Json} {earlier earlier' : List StepRecord}
  {base base' result result' : Bindings} {fields : List Field}

theorem StepRecord.all_eq_true_iff {t : StepRecord} :
    step.all (t.name = ·) = true ↔ t.IsOf step := by
  cases step <;> simp [IsOf]

theorem StepRecord.shown?_eq_some_iff {t : StepRecord} :
    t.shown? step key = some value ↔ t.IsOf step ∧ t.outputs.get? key = some value := by
  rw [shown?, ← all_eq_true_iff]
  split <;> simp [*]

theorem StepRecord.shown?_eq_none_iff {t : StepRecord} :
    t.shown? step key = none ↔ (t.IsOf step → t.outputs.get? key = none) := by
  rw [shown?, ← all_eq_true_iff]
  split <;> simp [*]

/-- The latest value is the first one met with on the way back. -/
theorem findSome?_eq_some_iff_putOut :
    earlier.reverse.findSome? (StepRecord.shown? step key) = some value ↔
      PutOut step key earlier value := by
  rw [List.findSome?_eq_some_iff]
  constructor
  · rintro ⟨after, t, before, hsplit, hshown, hnone⟩
    obtain ⟨hstep, hvalue⟩ := StepRecord.shown?_eq_some_iff.1 hshown
    have hearlier : earlier = before.reverse ++ t :: after.reverse := by
      simpa using congrArg List.reverse hsplit
    rw [hearlier]
    exact .latest hstep hvalue fun u hu =>
      StepRecord.shown?_eq_none_iff.1 (hnone u (List.mem_reverse.1 hu))
  · rintro ⟨hstep, hvalue, hafter⟩
    rename_i before t after
    refine ⟨after.reverse, t, before.reverse, by simp,
      StepRecord.shown?_eq_some_iff.2 ⟨hstep, hvalue⟩, fun u hu => ?_⟩
    exact StepRecord.shown?_eq_none_iff.2 (hafter u (List.mem_reverse.1 hu))

theorem findSome?_eq_none_iff_putOut :
    earlier.reverse.findSome? (StepRecord.shown? step key) = none ↔
      ∀ value, ¬ PutOut step key earlier value := by
  simp only [← findSome?_eq_some_iff_putOut, Option.eq_none_iff_forall_ne_some, ne_eq]

theorem PutOut.unique {value' : Json} (h : PutOut step key earlier value)
    (h' : PutOut step key earlier value') : value = value' := by
  rw [← findSome?_eq_some_iff_putOut] at h h'
  exact Option.some.inj (h.symm.trans h')

theorem TakenFrom.unique {name : String} {step step' : Option String} {key key' : String}
    (h : TakenFrom name step key) (h' : TakenFrom name step' key') : step = step' ∧ key = key' := by
  rw [← RunRecord.source_eq_iff] at h h'
  exact Prod.mk.inj (h.symm.trans h')

/-! ### What goes in -/

namespace RunRecord

/-- Of a run that is under way, the steps that are done are all that anything is taken from. -/
theorem latest?_eq {r : RunRecord} {last : List StepRecord} (hsteps : r.steps = earlier ++ last)
    (hearlier : ∀ t ∈ earlier, t.status = .completed) (hlast : ∀ t ∈ last, t.status ≠ .completed)
    (step : Option String) (key : String) :
    r.latest? step key = earlier.reverse.findSome? (StepRecord.shown? step key) := by
  have hnone : last.reverse.findSome? (fun t =>
      if t.status = .completed ∧ step.all (t.name = ·) then t.outputs.get? key else none) =
        none := by
    rw [List.findSome?_eq_none_iff]
    intro t ht
    simp [hlast t (List.mem_reverse.1 ht)]
  have hshown : earlier.reverse.findSome? (fun t =>
      if t.status = .completed ∧ step.all (t.name = ·) then t.outputs.get? key else none) =
        earlier.reverse.findSome? (StepRecord.shown? step key) := by
    have hdone : ∀ t ∈ earlier.reverse, t.status = .completed :=
      fun t ht => hearlier t (List.mem_reverse.1 ht)
    generalize earlier.reverse = steps at hdone ⊢
    induction steps with
    | nil => rfl
    | cons t rest ih =>
      obtain ⟨ht, hrest⟩ := List.forall_mem_cons.1 hdone
      rw [List.findSome?_cons, List.findSome?_cons, ih hrest]
      simp [StepRecord.shown?, ht]
  rw [latest?, hsteps, List.reverse_append, List.findSome?_append, hnone, hshown, Option.none_or]

/-- What goes into a step of a run that is under way is the input of the run, overlaid with what the
step declares and earlier steps have put out. -/
theorem overlaid_inputsFor {r : RunRecord} {last : List StepRecord}
    (hsteps : r.steps = earlier ++ last) (hearlier : ∀ t ∈ earlier, t.status = .completed)
    (hlast : ∀ t ∈ last, t.status ≠ .completed) (s : Step) :
    Overlaid earlier r.input s.inputs (r.inputsFor s) := by
  unfold inputsFor
  generalize r.input = base
  induction s.inputs generalizing base with
  | nil => exact .nil
  | cons field rest ih =>
    rcases hsource : source field.name with ⟨step, key⟩
    have hfrom := source_eq_iff.1 hsource
    rw [List.foldl_cons]
    cases hlatest : r.latest? step key with
    | none =>
      have hnone := latest?_eq hsteps hearlier hlast step key ▸ hlatest
      simpa only [hsource, hlatest] using
        .missing hfrom (findSome?_eq_none_iff_putOut.1 hnone) (ih base)
    | some value =>
      have hfound := latest?_eq hsteps hearlier hlast step key ▸ hlatest
      simpa only [hsource, hlatest] using
        .found hfrom (findSome?_eq_some_iff_putOut.1 hfound) (ih (base.insert key value))

end RunRecord

namespace Overlaid

/-- Under each key stands what the last declaration says that asks for something under it and finds
a value. Where there is none, the value stays that was there before. -/
theorem get? (h : Overlaid earlier base fields result) (key : String) :
    (∃ before field after step value, fields = before ++ field :: after ∧
      TakenFrom field.name step key ∧ PutOut step key earlier value ∧
      (∀ f ∈ after, ∀ step', TakenFrom f.name step' key → ∀ v, ¬ PutOut step' key earlier v) ∧
      result.get? key = some value) ∨
    ((∀ f ∈ fields, ∀ step, TakenFrom f.name step key → ∀ v, ¬ PutOut step key earlier v) ∧
      result.get? key = base.get? key) := by
  induction h with
  | nil => exact .inr ⟨fun f hf => absurd hf List.not_mem_nil, rfl⟩
  | @found base result field rest step key' value hfrom hvalue hrest ih =>
    rcases ih with ⟨before, f, after, step', v, hfields, hf⟩ | ⟨hnone, hbase⟩
    · exact .inl ⟨field :: before, f, after, step', v, by rw [hfields, List.cons_append], hf⟩
    · by_cases hkey : key = key'
      · subst hkey
        exact .inl ⟨[], field, rest, step, value, rfl, hfrom, hvalue, hnone, by simpa using hbase⟩
      · refine .inr ⟨fun f hf step' hstep' => ?_, by rw [hbase, Table.get?_insert_of_ne _ _ hkey]⟩
        rcases List.mem_cons.1 hf with rfl | hf
        · exact absurd (hfrom.unique hstep').2.symm hkey
        · exact hnone f hf step' hstep'
  | @missing base result field rest step key' hfrom hnone hrest ih =>
    rcases ih with ⟨before, f, after, step', v, hfields, hf⟩ | ⟨hnone', hbase⟩
    · exact .inl ⟨field :: before, f, after, step', v, by rw [hfields, List.cons_append], hf⟩
    · refine .inr ⟨fun f hf step' hstep' => ?_, hbase⟩
      rcases List.mem_cons.1 hf with rfl | hf
      · obtain ⟨rfl, rfl⟩ := hfrom.unique hstep'
        exact hnone
      · exact hnone' f hf step' hstep'

end Overlaid

/-! ### What makes no difference -/

/-- The records of two steps differ in nothing that some inputs ask for: they have the same name and
have put out the same under every key under which a step of that name is asked. -/
structure AgreeOn (fields : List Field) (t t' : StepRecord) : Prop where
  /-- They have the same name. -/
  name : t.name = t'.name
  /-- They have put out the same, as far as it is asked for. -/
  outputs : ∀ f ∈ fields, ∀ step key, TakenFrom f.name step key → t.IsOf step →
    t.outputs.get? key = t'.outputs.get? key

theorem AgreeOn.shown?_eq {t t' : StepRecord} (h : AgreeOn fields t t') {f : Field}
    (hf : f ∈ fields) (hfrom : TakenFrom f.name step key) :
    t.shown? step key = t'.shown? step key := by
  have hname : step.all (t'.name = ·) = step.all (t.name = ·) := by rw [h.name]
  rw [StepRecord.shown?, StepRecord.shown?, hname]
  split
  · next hall => exact h.outputs f hf step key hfrom (StepRecord.all_eq_true_iff.1 hall)
  · rfl

theorem AgreeOn.putOut_iff (h : List.Forall₂ (AgreeOn fields) earlier earlier') {f : Field}
    (hf : f ∈ fields) (hfrom : TakenFrom f.name step key) :
    PutOut step key earlier value ↔ PutOut step key earlier' value := by
  have hsame : earlier.reverse.findSome? (StepRecord.shown? step key) =
      earlier'.reverse.findSome? (StepRecord.shown? step key) := by
    have hreversed := List.forall₂_reverse_iff.2 h
    generalize earlier.reverse = steps at hreversed ⊢
    generalize earlier'.reverse = steps' at hreversed ⊢
    induction hreversed with
    | nil => rfl
    | cons hfirst _ ih =>
      rw [List.findSome?_cons, List.findSome?_cons, hfirst.shown?_eq hf hfrom, ih]
  rw [← findSome?_eq_some_iff_putOut, ← findSome?_eq_some_iff_putOut, hsame]

/-- Nothing but what is declared makes a difference to what goes in. -/
theorem Overlaid.eq_of_agreeOn (h : Overlaid earlier base fields result)
    (h' : Overlaid earlier' base fields result')
    (hagree : List.Forall₂ (AgreeOn fields) earlier earlier') : result = result' := by
  -- the records agree on all declared inputs, of which some are left
  suffices hleft : ∀ declared, fields ⊆ declared →
      List.Forall₂ (AgreeOn declared) earlier earlier' → result = result' from
    hleft fields (List.Subset.refl fields) hagree
  clear hagree
  intro declared hsubset hagree
  induction h with
  | nil =>
    cases h'
    rfl
  | @found base result field rest step key value hfrom hvalue hrest ih =>
    obtain ⟨hfield, hsubset⟩ := List.cons_subset.1 hsubset
    have hvalue' := (AgreeOn.putOut_iff hagree hfield hfrom).1 hvalue
    cases h' with
    | found hfrom' hfound hrest' =>
      obtain ⟨rfl, rfl⟩ := hfrom.unique hfrom'
      obtain rfl := hvalue'.unique hfound
      exact ih hrest' hsubset
    | missing hfrom' hnone hrest' =>
      obtain ⟨rfl, rfl⟩ := hfrom.unique hfrom'
      exact absurd hvalue' (hnone value)
  | @missing base result field rest step key hfrom hnone hrest ih =>
    obtain ⟨hfield, hsubset⟩ := List.cons_subset.1 hsubset
    cases h' with
    | @found _ _ _ _ _ _ value hfrom' hfound hrest' =>
      obtain ⟨rfl, rfl⟩ := hfrom.unique hfrom'
      exact absurd ((AgreeOn.putOut_iff hagree hfield hfrom).2 hfound) (hnone value)
    | missing hfrom' hnone' hrest' => exact ih hrest' hsubset

end Foreman
