import Foreman.Config.Text
import Foreman.Proofs.Document.Order
import Foreman.Proofs.Toml.Sections
/-!
# Configurations are read back

A configuration that was read from a document is written as a text of two sections and read back
from it: the names of strategies are in their normal form, and the numbers have the bits there are
for them. Only a time of more than 63 bits cannot be written. What is read back is checked again, so
a configuration under whose policy every step would fail can be written but not read.

A configuration may stand by itself in a text or in a section of its own, in any order.

## Main definitions

* `Foreman.Policy.Spelled`: the policies that documents say.

## Main results

* `Foreman.Config.spelled_of_read`: the policy of a configuration that was read is one of these.
* `Foreman.Config.read_document`: a configuration is read from the document that is written of it.
* `Foreman.Config.orderBlind_read`: sections and keys may stand in any order.
* `Foreman.Config.texts_read_back`: a configuration is read back from its text, and reads the same
  in a section of its own.
-/

namespace Foreman

/-! ### Policies that were read -/

/-- A policy that some document says: names of strategies are in their normal form, and numbers have
the bits that there are for them. -/
structure Policy.Spelled (p : Policy) : Prop where
  /-- Every strategy is the one of its name. -/
  chain : ∀ s ∈ p.chain, Strategy.ofName s.name = s
  /-- The attempts are a number of 32 bits. -/
  attempts : p.attempts < 2 ^ 32
  /-- The time is a number of 64 bits. -/
  timeout : p.timeout < 2 ^ 64
  /-- Every strategy that may be used is the one of its name. -/
  available : ∀ s ∈ p.available, Strategy.ofName s.name = s

theorem Strategy.ofName_name_of_mem {d : Document} {ss : List Strategy}
    (h : d.asList Strategy.read = .ok ss) : ∀ s ∈ ss, ofName s.name = s := by
  obtain ⟨ds, -, h⟩ := Except.bind_eq_ok_iff.1 h
  intro s hs
  obtain ⟨x, -, hx⟩ := Document.exists_of_mem_mapM h s hs
  exact ofName_name_of_read hx

theorem Policy.spelled_standard : Policy.standard.Spelled where
  chain := by decide
  attempts := by decide
  timeout := by decide
  available := by decide

theorem Policy.spelled_of_read {d : Document} {p : Policy} (h : Policy.read d = .ok p) :
    p.Spelled := by
  obtain ⟨form, -, h⟩ := Except.bind_eq_ok_iff.1 h
  have hdone := Form.done_of_close h
  simp only [Reading.seq_eq_done_iff, Reading.map_eq_done_iff] at hdone
  obtain ⟨_, ⟨_, ⟨_, ⟨_, ⟨chain, hchain, rfl⟩, humanOverride, -, rfl⟩, attempts, hattempts, rfl⟩,
    timeout, htimeout, rfl⟩, available, havailable, rfl⟩ := hdone
  refine ⟨?_, ?_, ?_, ?_⟩
  · rcases Form.exists_of_may hchain with ⟨x, -, hx⟩ | rfl
    · exact Strategy.ofName_name_of_mem hx
    · exact Policy.spelled_standard.chain
  · rcases Form.exists_of_may hattempts with ⟨x, -, hx⟩ | rfl
    · exact Document.lt_of_asCount hx
    · exact Policy.spelled_standard.attempts
  · rcases Form.exists_of_may htimeout with ⟨x, -, hx⟩ | rfl
    · exact Document.lt_of_asCount hx
    · exact Policy.spelled_standard.timeout
  · rcases Form.exists_of_may havailable with ⟨x, -, hx⟩ | rfl
    · exact Strategy.ofName_name_of_mem hx
    · exact Policy.spelled_standard.available

namespace Config

theorem spelled_of_read {d : Document} {c : Config} (h : Config.read d = .ok c) :
    c.policy.Spelled := by
  obtain ⟨form, -, h⟩ := Except.bind_eq_ok_iff.1 h
  have hdone := Form.done_of_close h
  simp only [Reading.seq_eq_done_iff, Reading.map_eq_done_iff] at hdone
  obtain ⟨_, ⟨policy, hpolicy, rfl⟩, caching, -, rfl⟩ := hdone
  rcases Form.exists_of_may hpolicy with ⟨x, -, hx⟩ | rfl
  · exact Policy.spelled_of_read hx
  · exact Policy.spelled_standard

end Config

/-! ### Documents of configurations -/

theorem Document.asList_texts {ss : List Strategy} (h : ∀ s ∈ ss, Strategy.ofName s.name = s) :
    (Config.strategyItem ss).document.asList Strategy.read = .ok ss := by
  have hmap : (Config.strategyItem ss).document =
      .list (ss.map fun s => .text s.name) := by
    simp [Config.strategyItem, Toml.Item.document]
  rw [hmap]
  exact mapM_map_eq_ok fun s hs => congrArg Except.ok (h s hs)

/-- A policy is read from what is written of it. -/
theorem Policy.Spelled.read_document {p : Policy} (h : p.Spelled) :
    Policy.read (Config.policyItem p).document = .ok p := by
  obtain ⟨form, hform, hfields⟩ : ∃ form, Form.of? shape false (Config.policyItem p).document =
      .ok form ∧ form.fields = .named
        [(.text "default_chain", (Config.strategyItem p.chain).document),
          (.text "allow_human_override", .bool p.humanOverride),
          (.text "max_retries", .int p.attempts), (.text "execution_timeout_ms", .int p.timeout),
          (.text "available_types", (Config.strategyItem p.available).document)] :=
    ⟨_, rfl, rfl⟩
  have hchain : form.may "default_chain" standard.chain (Document.asList Strategy.read) =
      .done p.chain := Form.may_named hfields rfl (Document.asList_texts h.chain)
  have hoverride : form.may "allow_human_override" standard.humanOverride Document.asFlag =
      .done p.humanOverride := Form.may_named hfields rfl rfl
  have hattempts : form.may "max_retries" standard.attempts Document.asCount32 =
      .done p.attempts := Form.may_named hfields rfl (Document.asCount_int h.attempts _)
  have htimeout : form.may "execution_timeout_ms" standard.timeout Document.asCount64 =
      .done p.timeout := Form.may_named hfields rfl (Document.asCount_int h.timeout _)
  have havailable : form.may "available_types" standard.available
      (Document.asList Strategy.read) = .done p.available :=
    Form.may_named hfields rfl (Document.asList_texts h.available)
  rw [Policy.read, hform, Except.ok_bind, hchain, hoverride, hattempts, htimeout, havailable]
  exact Form.close_named hfields p

namespace Config

/-- The choices for the catalogue are read from what is written of them. -/
theorem readCaching_document (caching : Bool) :
    readCaching (Toml.Item.table [("cache_resolutions", .flag caching)]).document =
      .ok caching := by
  obtain ⟨form, hform, hfields⟩ : ∃ form, Form.of? marketShape false
      (Toml.Item.table [("cache_resolutions", .flag caching)]).document = .ok form ∧
        form.fields = .named [(.text "cache_resolutions", .bool caching)] := ⟨_, rfl, rfl⟩
  have hcaching : form.may "cache_resolutions" false Document.asFlag = .done caching :=
    Form.may_named hfields rfl rfl
  rw [readCaching, hform, Except.ok_bind, hcaching]
  exact Form.close_named hfields caching

/-- A configuration is read from what is written of it. -/
theorem read_document {c : Config} (h : c.policy.Spelled) :
    Config.read c.item.document = .ok c := by
  obtain ⟨form, hform, hfields⟩ : ∃ form, Form.of? shape false c.item.document = .ok form ∧
      form.fields = .named
        [(.text "execution", (policyItem c.policy).document),
          (.text "marketplace",
            (Toml.Item.table [("cache_resolutions", .flag c.caching)]).document)] :=
    ⟨_, rfl, rfl⟩
  have hpolicy : form.may "execution" .standard Policy.read = .done c.policy :=
    Form.may_named hfields rfl h.read_document
  have hcaching : form.may "marketplace" false readCaching = .done c.caching :=
    Form.may_named hfields rfl (readCaching_document c.caching)
  rw [Config.read, hform, Except.ok_bind, hpolicy, hcaching]
  exact Form.close_named hfields c

/-! ### Texts of configurations -/

/-- The sections of a configuration. -/
def sections (c : Config) : List (String × List (String × Toml.Item)) :=
  [("execution",
      [("default_chain", strategyItem c.policy.chain),
        ("allow_human_override", .flag c.policy.humanOverride),
        ("max_retries", .int c.policy.attempts), ("execution_timeout_ms", .int c.policy.timeout),
        ("available_types", strategyItem c.policy.available)]),
    ("marketplace", [("cache_resolutions", .flag c.caching)])]

theorem item_eq (c : Config) : c.item = .table (c.sections.map fun p => (p.1, .table p.2)) :=
  rfl

theorem sectioned_sections (c : Config) : Toml.Sectioned c.sections where
  nonempty := List.cons_ne_nil _ _
  bare := by simp [sections]; decide
  nodup := by simp [sections]
  values := by
    simp only [sections, List.forall_mem_cons, strategyItem, Toml.Item.isValue]
    simp
  bareKeys := by
    simp only [sections, List.forall_mem_cons]
    decide
  nodupKeys := by simp [sections]

/-- A configuration that can be written is read back as a document. -/
theorem readDocument?_text {c : Config} {s : String} (h : c.text = .ok s) :
    Toml.readDocument? s = some (.record [(.text sectionName, c.item.document)]) := by
  unfold text at h
  split at h
  · next hs =>
    obtain rfl := Except.ok.inj h
    exact Toml.readDocument?_write? c.sectioned_sections (by decide) hs
  · cases h

/-- A configuration can be written if its time has 63 bits. -/
theorem isSome_write?_iff {c : Config} (h : c.policy.Spelled) :
    (Toml.write? (.table [(sectionName, c.item)])).isSome = true ↔ c.policy.timeout < 2 ^ 63 := by
  have hattempts := h.attempts
  rw [item_eq, Toml.isSome_write? c.sectioned_sections (by decide)]
  simp only [sections, List.forall_mem_cons, strategyItem, Toml.isSome_writeValue?_flag,
    Toml.isSome_writeValue?_texts, Toml.isSome_writeValue?_natCast]
  simp
  omega

end Config

/-! ### The order of members -/

theorem Strategy.orderBlind_read : Document.OrderBlind Strategy.read :=
  Document.orderBlind_of_plain (fun _ _ h => by cases h) fun _ _ h => by cases h

theorem Policy.orderBlind_read : Document.OrderBlind Policy.read := by
  refine Document.orderBlind_record Policy.read (fun _ => rfl) fun h a => ?_
  simp only [Reading.seq_eq_done_iff, Reading.map_eq_done_iff,
    h.may Strategy.orderBlind_read.asList, h.may Document.orderBlind_asFlag,
    h.may Document.orderBlind_asCount32, h.may Document.orderBlind_asCount64]

namespace Config

theorem orderBlind_readCaching : Document.OrderBlind readCaching := by
  refine Document.orderBlind_record readCaching (fun _ => rfl) fun h a => ?_
  simp only [Reading.map_eq_done_iff, h.may Document.orderBlind_asFlag]

/-- Configurations are read without regard to the order of sections and keys. -/
theorem orderBlind_read : Document.OrderBlind Config.read := by
  refine Document.orderBlind_record Config.read (fun _ => rfl) fun h a => ?_
  simp only [Reading.seq_eq_done_iff, Reading.map_eq_done_iff, h.may Policy.orderBlind_read,
    h.may orderBlind_readCaching]

/-! ### Configurations in texts -/

/-- A configuration that is the same document but for the order comes to the same. -/
theorem ofDocument_eq_of_alike {d d' : Document} (h : (part d).Alike (part d')) :
    ofDocument d = ofDocument d' := by
  have hread := orderBlind_read h
  unfold ofDocument
  cases hd : Config.read (part d) with
  | ok c => rw [(hread c).1 hd]
  | error why =>
    cases hd' : Config.read (part d') with
    | ok c => exact absurd ((hread c).2 hd') (by rw [hd]; nofun)
    | error why' => rfl

theorem part_record_of_forall_ne {ms : List (Document × Document)}
    (h : ∀ m ∈ ms, m.1.keyText? ≠ some sectionName) : part (.record ms) = .record ms := by
  have hnone : (ms.find? fun m => m.1.keyText? = some sectionName) = none := by
    rw [List.find?_eq_none]
    simpa using h
  rw [part, hnone]

theorem part_section (d : Document) : part (.record [(.text sectionName, d)]) = d := by
  simp [part, Document.keyText?]

theorem checked_of_workable {c : Config} (hattempts : c.policy.attempts ≠ 0)
    (htimeout : c.policy.timeout ≠ 0) : checked c = .ok c := by
  simp [checked, Policy.flaw?, hattempts, htimeout]

/-- A configuration under whose policy every step would fail is refused. -/
theorem exists_flaw_of_idle {c : Config} (h : c.policy.attempts = 0 ∨ c.policy.timeout = 0) :
    ∃ flaw, c.policy.flaw? = some flaw ∧ checked c = .error (.flawedPolicy flaw) := by
  obtain ⟨flaw, hflaw⟩ : ∃ flaw, c.policy.flaw? = some flaw := by
    by_cases hattempts : c.policy.attempts = 0
    · exact ⟨.noAttempts, if_pos hattempts⟩
    · exact ⟨.noTime, (if_neg hattempts).trans (if_pos (h.resolve_left hattempts))⟩
  exact ⟨flaw, hflaw, by simp [checked, hflaw]⟩

/-- A configuration that is written is read back, and checked again. -/
theorem ofText_of_text {c : Config} {s : String} (hc : c.policy.Spelled) (h : c.text = .ok s) :
    ofText s = checked c := by
  rw [ofText, readDocument?_text h]
  simp only [ofDocument, part_section, read_document hc]

/-- A configuration cannot be written if its time has more than 63 bits, and only then. -/
theorem text_eq_error_iff {c : Config} (hc : c.policy.Spelled) {failure : Failure} :
    c.text = .error failure ↔ failure = .unwritableTime ∧ 2 ^ 63 - 1 < c.policy.timeout := by
  have hwritable := isSome_write?_iff hc
  unfold text
  cases hs : Toml.write? (.table [(sectionName, c.item)]) with
  | some s =>
    rw [hs] at hwritable
    have htime : c.policy.timeout < 2 ^ 63 := hwritable.1 rfl
    exact iff_of_false nofun fun h => by omega
  | none =>
    rw [hs] at hwritable
    have htime : ¬ c.policy.timeout < 2 ^ 63 := fun h => nomatch hwritable.2 h
    exact ⟨fun h => ⟨(Except.error.inj h).symm, by omega⟩, fun h => h.1 ▸ rfl⟩

/-- Configurations are read back from their texts.

A configuration that is read from an open value can be written unless its time has more than 63
bits. What is written is read as the same configuration, except that a configuration is refused
under whose policy every step would fail.

It does not matter whether a configuration stands by itself in a text or in the section for
configurations, and in which order its parts and keys stand there. -/
theorem texts_read_back :
    (∀ (v : Json) (c : Config), Config.read v.document = .ok c →
      (∀ failure, c.text = .error failure ↔
        failure = .unwritableTime ∧ 2 ^ 63 - 1 < c.policy.timeout) ∧
      ∀ s, c.text = .ok s →
        (c.policy.attempts ≠ 0 → c.policy.timeout ≠ 0 → ofText s = .ok c) ∧
        (c.policy.attempts = 0 ∨ c.policy.timeout = 0 →
          ∃ flaw, c.policy.flaw? = some flaw ∧ ofText s = .error (.flawedPolicy flaw))) ∧
    ∀ s s' ms t, Toml.readDocument? s = some (.record ms) →
      (∀ m ∈ ms, m.1.keyText? ≠ some sectionName) →
      Toml.readDocument? s' = some (.record [(.text sectionName, t)]) →
      (Document.record ms).Alike t → ofText s = ofText s' := by
  refine ⟨fun v c hread => ⟨fun failure => text_eq_error_iff (spelled_of_read hread),
    fun s hs => ?_⟩, fun s s' ms t hs hplain hs' halike => ?_⟩
  · have hback := ofText_of_text (spelled_of_read hread) hs
    refine ⟨fun hattempts htimeout => ?_, fun hidle => ?_⟩
    · rw [hback, checked_of_workable hattempts htimeout]
    · obtain ⟨flaw, hflaw, hchecked⟩ := exists_flaw_of_idle hidle
      exact ⟨flaw, hflaw, hback.trans hchecked⟩
  · have hparts : (part (.record ms)).Alike (part (.record [(.text sectionName, t)])) := by
      rwa [part_record_of_forall_ne hplain, part_section]
    simp only [ofText, hs, hs', ofDocument_eq_of_alike hparts]

/-- A value that says that a robot of some make works, and for how long. -/
def robotWork (time : ℕ) : Json :=
  .object
    [("execution", .object
        [("default_chain", .list [.text " robot \"R\"\n", .text "AI"]),
          ("execution_timeout_ms", .int time), ("max_retries", .int 1)]),
      ("marketplace", .list [.bool true])]

/-- The configuration that it is read as. -/
def robotConfig (time : ℕ) : Config :=
  ⟨⟨[.custom "robot \"R\"", .ai], true, 1, time, [.algorithmic, .ai, .human]⟩, true⟩

/-- A text of a configuration. -/
def bareText : String :=
  "[execution]\nmax_retries = 5\n[marketplace]\ncache_resolutions = true\n"

/-- The same configuration in its section, in another order. -/
def sectionText : String :=
  "[runtime.marketplace]\ncache_resolutions = true\n[runtime.execution]\nmax_retries = 5\n"

/-- The longest time that can be written is read back with the name of the robot. A millisecond more
cannot be written, and no time at all is refused. -/
theorem texts_read_back_robot :
    (∃ s, (robotConfig (2 ^ 63 - 1)).text = .ok s ∧ ofText s = .ok (robotConfig (2 ^ 63 - 1))) ∧
    (robotConfig (2 ^ 63)).text = .error .unwritableTime ∧
    (∃ s, (robotConfig 0).text = .ok s ∧ ofText s = .error (.flawedPolicy .noTime)) ∧
    ofText bareText = ofText sectionText := by
  obtain ⟨hwritten, hwrapped⟩ := texts_read_back
  have hlongest : Config.read (robotWork (2 ^ 63 - 1)).document =
      .ok (robotConfig (2 ^ 63 - 1)) := rfl
  have hlonger : Config.read (robotWork (2 ^ 63)).document = .ok (robotConfig (2 ^ 63)) := rfl
  have hidle : Config.read (robotWork 0).document = .ok (robotConfig 0) := rfl
  have hbare : Toml.readDocument? bareText = some (.record
      [(.text "execution", .record [(.text "max_retries", .int 5)]),
        (.text "marketplace", .record [(.text "cache_resolutions", .bool true)])]) := by
    cbv
  have hsection : Toml.readDocument? sectionText = some (.record [(.text sectionName, .record
      [(.text "marketplace", .record [(.text "cache_resolutions", .bool true)]),
        (.text "execution", .record [(.text "max_retries", .int 5)])])]) := by
    cbv
  refine ⟨?_, ?_, ?_, ?_⟩
  · cases htext : (robotConfig (2 ^ 63 - 1)).text with
    | error failure =>
      exact absurd (((hwritten _ _ hlongest).1 failure).1 htext).2 (Nat.lt_irrefl _)
    | ok s => exact ⟨s, rfl, ((hwritten _ _ hlongest).2 s htext).1 (by decide) (by decide)⟩
  · exact ((hwritten _ _ hlonger).1 _).2 ⟨rfl, by decide⟩
  · cases htext : (robotConfig 0).text with
    | error failure =>
      exact absurd (((hwritten _ _ hidle).1 failure).1 htext).2 (Nat.not_lt_zero _)
    | ok s =>
      obtain ⟨flaw, hflaw, hrefused⟩ := ((hwritten _ _ hidle).2 s htext).2 (.inr rfl)
      obtain rfl : Policy.Flaw.noTime = flaw := Option.some.inj hflaw
      exact ⟨s, rfl, hrefused⟩
  · refine hwrapped _ _ _ _ hbare ?_ hsection ?_
    · simp [Document.keyText?, sectionName]
    · exact .record (.swap _ _ _) rfl (Document.forall₂_refl _)

end Config

end Foreman
