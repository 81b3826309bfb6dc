import Foreman.Proofs.Config.ReadBack
import Foreman.Proofs.Run.ReadBack
import Foreman.Text.Lower
import Foreman.Workshop.Labour
/-!
# Names of strategies have a normal form

A name is trimmed, and if it then spells one of the three well-known names in any letter case, it
stands for that strategy. Otherwise it stands for a strategy of its own, under the trimmed name in
the letter case in which it was written. So a name has a normal form, and two names stand for the
same strategy exactly when they have the same one. Policies and seats compare strategies, and so
they compare names by their normal form.

Letter case is that of all characters. The three names consist of plain letters, so in a text that
spells one of them no letter outside the Latin alphabet has been lowered.

## Main definitions

* `Foreman.Strategy.wellKnown`: the strategies that are recognised in any letter case.
* `Foreman.Strategy.normalName`: the normal form of a name.

## Main results

* `Foreman.Strategy.ofName_eq_iff_of_wellKnown`: which names stand for a well-known strategy.
* `Foreman.Strategy.normalName_eq`: the name of a strategy is the normal form of every name that
  stands for it.
* `Foreman.Strategy.same_strategy_iff_same_normal_name`: names and strategies, in chains, among
  the strategies of a policy and at the seats of a workshop.
-/

namespace Foreman

namespace Strategy

/-- The strategies whose names are recognised in any letter case. -/
def wellKnown : List Strategy :=
  [algorithmic, ai, human]

variable (endsWord : List Char → List Char → Bool)

/-- The normal form of a name: trimmed, and in lower case if it is then a well-known name. -/
def normalName (s : String) : String :=
  let trimmed := Text.trim s
  let lowered := Text.lower endsWord trimmed
  if lowered ∈ wellKnown.map name then lowered else trimmed

/-! ### Well-known names -/

theorem wellKnown?_eq_some_iff {w : List Char} {k : Strategy} :
    wellKnown? w = some k ↔ k ∈ wellKnown ∧ w = k.name.toList := by
  constructor
  · intro h
    unfold wellKnown? at h
    split at h
    · obtain rfl := Option.some.inj h
      exact ⟨by decide, ‹_›⟩
    · split at h
      · obtain rfl := Option.some.inj h
        exact ⟨by decide, ‹_›⟩
      · split at h
        · obtain rfl := Option.some.inj h
          exact ⟨by decide, ‹_›⟩
        · exact nomatch h
  · rintro ⟨hk, rfl⟩
    revert k
    decide +kernel

theorem isPlain_of_wellKnown : ∀ k ∈ wellKnown, ∀ d ∈ k.name.toList, Text.IsPlain d := by
  simp [wellKnown, name, Text.IsPlain]

variable {endsWord}

/-- A name in lower case is a well-known one if it is where only the capitals of the Latin alphabet
are lowered. -/
theorem lower_eq_name_iff {k : Strategy} (hk : k ∈ wellKnown) (s : String) :
    Text.lower endsWord s = k.name ↔ s.toList.map Text.lowerLatin = k.name.toList := by
  rw [← Text.lowerChars_eq_iff endsWord (isPlain_of_wellKnown k hk), Text.lower,
    ← String.toList_inj, String.toList_ofList]

variable (endsWord) in
/-- The strategy of a name, by the letter case of all characters. -/
theorem wellKnown?_trimmed {k : Strategy} (s : String) :
    wellKnown? ((Text.trimChars s.toList).map Text.lowerLatin) = some k ↔
      k ∈ wellKnown ∧ Text.lower endsWord (Text.trim s) = k.name := by
  rw [wellKnown?_eq_some_iff]
  refine and_congr_right fun hk => ?_
  rw [lower_eq_name_iff hk, Text.trim, String.toList_ofList]

/-- A name that spells a well-known one stands for its strategy. -/
theorem ofName_eq_of_lower {k : Strategy} (hk : k ∈ wellKnown) {s : String}
    (h : Text.lower endsWord (Text.trim s) = k.name) : ofName s = k := by
  have hfound := (wellKnown?_trimmed endsWord s).2 ⟨hk, h⟩
  simp only [ofName, hfound, Option.getD_some]

/-- Every other name stands for a strategy of its own, under the trimmed name. -/
theorem ofName_eq_custom {s : String}
    (h : ∀ k ∈ wellKnown, Text.lower endsWord (Text.trim s) ≠ k.name) :
    ofName s = custom (Text.trim s) := by
  have hnone : wellKnown? ((Text.trimChars s.toList).map Text.lowerLatin) = none := by
    refine Option.eq_none_iff_forall_ne_some.2 fun k hfound => ?_
    obtain ⟨hk, hlower⟩ := (wellKnown?_trimmed endsWord s).1 hfound
    exact h k hk hlower
  simp only [ofName, hnone, Option.getD_none, Text.trim]

theorem custom_notMem_wellKnown (name : String) : custom name ∉ wellKnown := by
  simp [wellKnown]

/-- A name stands for a well-known strategy if it spells its name when it is trimmed and in lower
case. -/
theorem ofName_eq_iff_of_wellKnown {k : Strategy} (hk : k ∈ wellKnown) (s : String) :
    ofName s = k ↔ Text.lower endsWord (Text.trim s) = k.name := by
  refine ⟨fun h => ?_, ofName_eq_of_lower hk⟩
  by_contra hne
  by_cases hother : ∃ k' ∈ wellKnown, Text.lower endsWord (Text.trim s) = k'.name
  · obtain ⟨k', hk', hlower⟩ := hother
    rw [ofName_eq_of_lower hk' hlower] at h
    exact hne (h ▸ hlower)
  · have hcustom := ofName_eq_custom fun k' hk' hlower => hother ⟨k', hk', hlower⟩
    rw [← h, hcustom] at hk
    exact custom_notMem_wellKnown _ hk

/-! ### The normal form -/

/-- The name of a strategy is the normal form of every name that stands for it. -/
theorem normalName_eq (s : String) : normalName endsWord s = (ofName s).name := by
  by_cases h : Text.lower endsWord (Text.trim s) ∈ wellKnown.map name
  · obtain ⟨k, hk, hname⟩ := List.mem_map.1 h
    rw [normalName, if_pos h, ofName_eq_of_lower hk hname.symm, hname]
  · have hcustom := ofName_eq_custom fun k hk hlower => h (hlower ▸ List.mem_map_of_mem hk)
    rw [normalName, if_neg h, hcustom, name]

/-- Strategies that were read from texts are told apart by their names. -/
theorem ofName_inj_of_name {s t : String} (h : (ofName s).name = (ofName t).name) :
    ofName s = ofName t := by
  rw [← ofName_name_ofName s, h, ofName_name_ofName]

variable (endsWord)

/-- Two names stand for the same strategy if they have the same normal form. -/
theorem ofName_eq_ofName_iff {s t : String} :
    ofName s = ofName t ↔ normalName endsWord s = normalName endsWord t := by
  rw [normalName_eq, normalName_eq]
  exact ⟨congrArg name, ofName_inj_of_name⟩

/-- Blanks around a name never matter. -/
theorem ofName_append_blanks {before after : List Char} (hbefore : ∀ c ∈ before, Text.isBlank c)
    (hafter : ∀ c ∈ after, Text.isBlank c) (s : String) :
    ofName (String.ofList (before ++ s.toList ++ after)) = ofName s := by
  simp only [ofName, String.toList_ofList, Text.trimChars_append_blanks hbefore hafter]

/-! ### Lists of names -/

theorem asList_names (names : List String) :
    Document.asList read (.list (names.map .text)) = .ok (names.map ofName) := by
  show (names.map Document.text).mapM read = .ok (names.map ofName)
  rw [List.mapM_map]
  exact List.mapM_pure

theorem map_ofName_eq_iff {names names' : List String} :
    names.map ofName = names'.map ofName ↔
      names.map (normalName endsWord) = names'.map (normalName endsWord) := by
  induction names generalizing names' with
  | nil => cases names' <;> simp
  | cons s names ih =>
    cases names' with
    | nil => simp
    | cons t names' =>
      rw [List.map_cons, List.map_cons, List.map_cons, List.map_cons, List.cons.injEq,
        List.cons.injEq, ih, ofName_eq_ofName_iff endsWord]

theorem ofName_mem_iff {names : List String} {t : String} :
    ofName t ∈ names.map ofName ↔ ∃ u ∈ names, normalName endsWord u = normalName endsWord t := by
  simp only [List.mem_map, ofName_eq_ofName_iff endsWord]

end Strategy

namespace Policy

open Strategy

/-- A document that says the chain of a policy and the strategies that may be used. -/
def namesDocument (chain available : List String) : Document :=
  .record [(.text "default_chain", .list (chain.map .text)),
    (.text "available_types", .list (available.map .text))]

theorem read_namesDocument (chain available : List String) :
    Policy.read (namesDocument chain available) = .ok { standard with
      chain := chain.map ofName
      available := available.map ofName } := by
  obtain ⟨form, hform, hfields⟩ : ∃ form, Form.of? shape false (namesDocument chain available) =
      .ok form ∧ form.fields = .named [(.text "default_chain", .list (chain.map .text)),
        (.text "available_types", .list (available.map .text))] := ⟨_, rfl, rfl⟩
  have hchain : form.may "default_chain" standard.chain (Document.asList Strategy.read) =
      .done (chain.map ofName) := Form.may_named hfields rfl (asList_names chain)
  have hoverride : form.may "allow_human_override" standard.humanOverride Document.asFlag =
      .done standard.humanOverride := Form.may_named_absent hfields rfl
  have hattempts : form.may "max_retries" standard.attempts Document.asCount32 =
      .done standard.attempts := Form.may_named_absent hfields rfl
  have htimeout : form.may "execution_timeout_ms" standard.timeout Document.asCount64 =
      .done standard.timeout := Form.may_named_absent hfields rfl
  have havailable : form.may "available_types" standard.available
      (Document.asList Strategy.read) = .done (available.map ofName) :=
    Form.may_named hfields rfl (asList_names available)
  rw [Policy.read, hform, Except.ok_bind, hchain, hoverride, hattempts, htimeout, havailable]
  exact Form.close_named hfields _

end Policy

namespace Workshop

/-- The seats of a workshop without the one for a strategy. -/
theorem lookup_filter_ne (seats : List (Strategy × Nat)) (s t : Strategy) :
    (seats.filter (·.1 ≠ s)).lookup t = if t = s then none else seats.lookup t := by
  induction seats with
  | nil => simp
  | cons taken rest ih =>
    obtain ⟨u, place⟩ := taken
    by_cases hu : u = s
    · rw [List.filter_cons_of_neg (by simpa using hu), ih, List.lookup_cons]
      split
      · rfl
      · rename_i ht
        have htu : (t == u) = false := beq_eq_false_iff_ne.2 (hu ▸ ht)
        rw [htu]
    · rw [List.filter_cons_of_pos (by simpa using hu), List.lookup_cons, List.lookup_cons, ih]
      split
      · rename_i htu
        rw [if_neg (beq_iff_eq.1 htu ▸ hu)]
      · rfl

/-- Whoever is taken on for a strategy follows it from then on; nobody else's seat changes. -/
theorem seated_seat (w : Workshop) (s t : Strategy) (spec : WorkerSpec Command) (label : String) :
    (w.seat s spec label).seated t = if t = s then some w.workers.length else w.seated t := by
  simp only [seated, seat, List.lookup_append, lookup_filter_ne]
  by_cases ht : t = s
  · simp [ht]
  · have hts : (t == s) = false := beq_eq_false_iff_ne.2 ht
    simp [ht, List.lookup_cons, hts]

end Workshop

namespace Strategy

/-- Names of strategies have one normal form. The name of a strategy that was read from a text is
the normal form of that text; it is read back as the same strategy, also from a document, and no
other strategy that was read has it. Blanks around a name never matter. A name stands for a
well-known strategy exactly if, trimmed and in lower case, it is the name of that strategy;
otherwise it stands for the strategy of its own whose name is the trimmed text. So two names stand
for the same strategy exactly when they have the same normal form: two policies are read as the
same exactly when their names agree in order, a policy permits a name that has the normal form of
one of those it lists, and whoever is taken on under a name follows every name with its normal form
and no other. It does not matter when a sigma is said to end a word. -/
theorem same_strategy_iff_same_normal_name (endsWord : List Char → List Char → Bool) :
    (∀ s, (ofName s).name = normalName endsWord s ∧ ofName (ofName s).name = ofName s ∧
      read (ofName s).json.document = .ok (ofName s)) ∧
    (∀ s t, (ofName s).name = (ofName t).name → ofName s = ofName t) ∧
    (∀ before s after, (∀ c ∈ before, Text.isBlank c) → (∀ c ∈ after, Text.isBlank c) →
      ofName (String.ofList (before ++ s.toList ++ after)) = ofName s) ∧
    (∀ s, ∀ k ∈ wellKnown, ofName s = k ↔ Text.lower endsWord (Text.trim s) = k.name) ∧
    (∀ s, (∀ k ∈ wellKnown, Text.lower endsWord (Text.trim s) ≠ k.name) →
      ofName s = custom (Text.trim s)) ∧
    (∀ s t, ofName s = ofName t ↔ normalName endsWord s = normalName endsWord t) ∧
    (∀ chain available chain' available',
      Policy.read (Policy.namesDocument chain available) =
          Policy.read (Policy.namesDocument chain' available') ↔
        chain.map (normalName endsWord) = chain'.map (normalName endsWord) ∧
          available.map (normalName endsWord) = available'.map (normalName endsWord)) ∧
    (∀ chain available, ∃ p, Policy.read (Policy.namesDocument chain available) = .ok p ∧
      p.chain = chain.map ofName ∧
      ∀ t, p.permits (ofName t) ↔ ∃ u ∈ available, normalName endsWord u = normalName endsWord t) ∧
    ∀ (w : Workshop) s t spec label, (w.seat (ofName s) spec label).seated (ofName t) =
      if normalName endsWord t = normalName endsWord s then some w.workers.length
      else w.seated (ofName t) := by
  refine ⟨fun s => ⟨(normalName_eq s).symm, ofName_name_ofName s,
    congrArg Except.ok (ofName_name_ofName s)⟩, fun s t => ofName_inj_of_name,
    fun before s after hbefore hafter => ofName_append_blanks hbefore hafter s,
    fun s k hk => ofName_eq_iff_of_wellKnown hk s, fun s => ofName_eq_custom,
    fun s t => ofName_eq_ofName_iff endsWord, fun chain available chain' available' => ?_,
    fun chain available => ?_, fun w s t spec label => ?_⟩
  · rw [Policy.read_namesDocument, Policy.read_namesDocument, Except.ok.injEq, Policy.mk.injEq]
    simp only [map_ofName_eq_iff endsWord, true_and]
  · refine ⟨_, Policy.read_namesDocument chain available, rfl, fun t => ?_⟩
    rw [Policy.permits, List.contains_iff_mem, ofName_mem_iff]
  · simp only [Workshop.seated_seat, ofName_eq_ofName_iff endsWord]

/-- A well-known name partly in capitals and between blanks of several kinds, two names that differ
in letter case alone, and a name whose lower case is a well-known one but for a dot. -/
theorem same_strategy_iff_same_normal_name_spellings :
    (∀ c ∈ [' ', Char.ofNat 0xA0], Text.isBlank c) ∧ (∀ c ∈ [Char.ofNat 0x3000], Text.isBlank c) ∧
      ofName (String.ofList ([' ', Char.ofNat 0xA0] ++ "HUMan".toList ++ [Char.ofNat 0x3000])) =
        human ∧
      ofName " Night Shift" = custom "Night Shift" ∧
      ofName "Night Shift" ≠ ofName "night shift" ∧
      ofName "Aİ" = custom "Aİ" := by
  obtain ⟨-, -, hblanks, hknown, hcustom, hsame, -⟩ :=
    same_strategy_iff_same_normal_name fun _ after => after.isEmpty
  have hbefore : ∀ c ∈ [' ', Char.ofNat 0xA0], Text.isBlank c :=
    List.all_eq_true.1 (by decide)
  have hafter : ∀ c ∈ [Char.ofNat 0x3000], Text.isBlank c := List.all_eq_true.1 (by decide)
  refine ⟨hbefore, hafter, ?_, ?_, ?_, ?_⟩
  · rw [hblanks _ _ _ hbefore hafter]
    exact (hknown _ human (by decide)).2 (by cbv)
  · exact hcustom " Night Shift" (by decide +kernel)
  · exact fun h => absurd ((hsame _ _).1 h) (by decide +kernel)
  · exact hcustom "Aİ" (by decide +kernel)

end Strategy

end Foreman
