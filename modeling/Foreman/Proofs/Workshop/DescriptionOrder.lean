import Foreman.Proofs.Workshop.PolicyBlind
/-!
# The order in which kinds are described

Kinds of resources may be described in any order: a kind before the one that it extends or after it,
some that extend each other, some that extend one that is never described. On the way the workshops
differ, in what the kinds offer that are known so far and in the index that is made of it each time.
In the end they differ in nothing but their journals, if every kind is described once. Instances may
be registered in between, as long as their own order is kept.

## Main definitions

* `Foreman.Command.Interleaved`: kinds are described and instances registered, in turns.
* `Foreman.Workshop.Exchangeable`: two commands come to the same in either order.

## Main results

* `Foreman.Workshop.exchangeable_define`, `Foreman.Workshop.exchangeable_register`: descriptions of
  kinds of different names can change places, and so can that of a kind and a registration.
* `Foreman.Workshop.description_order_irrelevant`: the order of the descriptions does not matter.
-/

namespace Foreman

/-- Some kinds are described and some instances are registered, in turns: the kinds in their order,
and the instances in theirs. -/
inductive Command.Interleaved : List ResourceKind → List Command → List Command → Prop
  | nil : Interleaved [] [] []
  | define {kinds : List ResourceKind} {registrations commands : List Command} (k : ResourceKind)
      (hrest : Interleaved kinds registrations commands) :
      Interleaved (k :: kinds) registrations (.define k :: commands)
  | register {kinds : List ResourceKind} {registrations commands : List Command} (kind : String)
      (attributes : Bindings) (nickname : Option String)
      (hrest : Interleaved kinds registrations commands) :
      Interleaved kinds (.register kind attributes nickname :: registrations)
        (.register kind attributes nickname :: commands)

theorem Command.quiet_define (k : ResourceKind) : (define k).Quiet :=
  rfl

theorem Command.quiet_register (kind : String) (attributes : Bindings)
    (nickname : Option String) : (register kind attributes nickname).Quiet :=
  rfl

/-- No executor is at work in the course of these commands, and none of them changes the policy. -/
theorem Command.Interleaved.quiet {kinds : List ResourceKind}
    {registrations commands : List Command} (h : Interleaved kinds registrations commands) :
    (∀ c ∈ registrations, c.Quiet) ∧ ∀ c ∈ commands, c.Quiet ∧ c.isUpdate = false := by
  induction h with
  | nil => simp
  | define k _ ih => exact ⟨ih.1, List.forall_mem_cons.2 ⟨⟨rfl, rfl⟩, ih.2⟩⟩
  | register kind attributes nickname _ ih =>
    exact ⟨List.forall_mem_cons.2 ⟨rfl, ih.1⟩, List.forall_mem_cons.2 ⟨⟨rfl, rfl⟩, ih.2⟩⟩

/-- Two kinds of different names may be described in either order. -/
theorem Store.define_define (s : Store) {k k' : ResourceKind} (hne : k.name ≠ k'.name) :
    (s.define k).define k' = (s.define k').define k := by
  have hkinds : (s.kinds.insert k.name k).insert k'.name k' =
      (s.kinds.insert k'.name k').insert k.name k := by
    refine Table.ext_get? fun name => ?_
    simp only [Table.get?_insert]
    split_ifs with h' h
    · exact absurd (h.symm.trans h') hne
    all_goals rfl
  simp only [define, hkinds]

namespace Workshop

open Command (Interleaved Quiet)

variable {levels : ℕ} {c d : Command} {kinds kinds' : List ResourceKind} {k k' : ResourceKind}
  {registrations commands commands' later : List Command} {v v' w : Workshop}

/-- Two commands come to the same in either order, but for the policy and the journal. -/
def Exchangeable (levels : ℕ) (c d : Command) : Prop :=
  ∀ v, (perform levels d (perform levels c v).2).2.bare =
    (perform levels c (perform levels d v).2).2.bare

theorem Exchangeable.symm (h : Exchangeable levels c d) : Exchangeable levels d c :=
  fun v => (h v).symm

theorem bare_replies (hcommands : ∀ c ∈ commands, c.Quiet) (h : v.bare = v'.bare) :
    (replies (perform levels) commands v).2.bare =
      (replies (perform levels) commands v').2.bare := by
  rw [bare_replies_filter hcommands h, bare_replies_filter hcommands rfl]

/-- What carrying out a command does, it does without regard to who attends to executors. -/
theorem bare_perform_eq (b : Attendant) (hc : c.Quiet) (v : Workshop) :
    (perform levels c v).2.bare = (answer b c v).2.bare := by
  obtain ⟨b', hb⟩ := exists_perform_eq levels
  have hfresh : { v with interludes := [] }.bare = v.bare := rfl
  rw [hb]
  exact bare_answer_congr b' b hc hfresh

theorem exchangeable_of_answer (b : Attendant) (hc : c.Quiet) (hd : d.Quiet)
    (h : ∀ v, (answer b d (answer b c v).2).2.bare = (answer b c (answer b d v).2).2.bare) :
    Exchangeable levels c d := by
  intro v
  have hafter (e : Command) {e' : Command} (he : e.Quiet) (he' : e'.Quiet) :
      (perform levels e' (perform levels e v).2).2.bare =
        (answer b e' (answer b e v).2).2.bare := by
    rw [bare_perform_eq b he']
    exact bare_answer_congr b b he' (bare_perform_eq b he v)
  rw [hafter c hc hd, hafter d hd hc, h]

/-- A workshop with another store, of whose kinds the catalogue that it is wired to is told. -/
def restock (v : Workshop) (s : Store) : Workshop :=
  { v with
    store := s
    market := if v.wiring = .own then v.market.replaceProviders s.kinds.advertised else v.market
    otherMarket :=
      if v.wiring = .foreign then v.otherMarket.replaceProviders s.kinds.advertised
      else v.otherMarket }

/-- Of what a catalogue was told before, nothing is left. -/
theorem restock_restock (v : Workshop) (s s' : Store) :
    (v.restock s).restock s' = v.restock s' := by
  cases v with
  | mk store wiring => cases wiring <;> rfl

theorem bare_define_eq (k : ResourceKind) (v : Workshop) :
    (v.define k).2.bare = (v.restock (v.store.define k)).bare := by
  cases v with
  | mk store wiring => cases wiring <;> rfl

/-- The descriptions of two kinds of different names can change places: the index is made anew of
all kinds each time. -/
theorem exchangeable_define (hne : k.name ≠ k'.name) :
    Exchangeable levels (.define k) (.define k') := by
  refine exchangeable_of_answer (fun _ w => (some [], w)) rfl rfl fun v => ?_
  have hboth (k k' : ResourceKind) : ((v.define k).2.define k').2.bare =
      (v.restock ((v.store.define k).define k')).bare := by
    rw [bare_congr (f := fun w => (w.define k').2) (bare_define k') (bare_define_eq k v),
      bare_define_eq, restock_restock]
    rfl
  have hstore := Store.define_define v.store hne
  exact (hboth k k').trans (hstore ▸ (hboth k' k).symm)

/-- Whether a kind is described makes no difference to the registration of an instance. -/
theorem bare_registerAs_restock (k : ResourceKind) (kind : String) (attributes : Bindings)
    (nickname : Option String) (v : Workshop) :
    (registerAs kind attributes nickname (v.restock (v.store.define k))).2.bare =
      ((registerAs kind attributes nickname v).2.restock
        ((registerAs kind attributes nickname v).2.store.define k)).bare := by
  by_cases h : v.store.has (Store.idFor kind attributes (FreshMark.ofNat v.marks)) = true
  · have hrestocked : (v.restock (v.store.define k)).store.has
        (Store.idFor kind attributes (FreshMark.ofNat (v.restock (v.store.define k)).marks)) =
          true := h
    simp only [registerAs_snd, register, Store.register, freshMark, h, hrestocked, if_true]
    rfl
  · have hrestocked : ¬(v.restock (v.store.define k)).store.has
        (Store.idFor kind attributes (FreshMark.ofNat (v.restock (v.store.define k)).marks)) =
          true := h
    simp only [registerAs_snd, register, Store.register, freshMark, h, hrestocked]
    cases nickname <;> rfl

/-- The description of a kind and the registration of an instance can change places: the instance
gets the same id, whether its kind is known or not. -/
theorem exchangeable_register (k : ResourceKind) (kind : String) (attributes : Bindings)
    (nickname : Option String) :
    Exchangeable levels (.register kind attributes nickname) (.define k) := by
  refine exchangeable_of_answer (fun _ w => (some [], w)) rfl rfl fun v => ?_
  have hlast := bare_define_eq k (registerAs kind attributes nickname v).2
  have hfirst := bare_answer_congr (fun _ w => (some [], w)) (fun _ w => (some [], w))
    (c := .register kind attributes nickname) rfl (bare_define_eq k v)
  exact hlast.trans ((bare_registerAs_restock k kind attributes nickname v).symm.trans hfirst.symm)

/-! ### Commands one after another -/

/-- Two commands that are given one after the other come to the same in either order. -/
theorem Exchangeable.replies (h : Exchangeable levels c d) (hc : c.Quiet) (hd : d.Quiet)
    (hlater : ∀ c ∈ later, c.Quiet) (v : Workshop) :
    (replies (perform levels) (c :: d :: later) v).2.bare =
      (replies (perform levels) (d :: c :: later) v).2.bare := by
  rw [replies_cons_snd hc, replies_cons_snd hd, replies_cons_snd hd, replies_cons_snd hc]
  exact bare_replies hlater (h v)

/-- The registration of an instance can be put off until some kinds are described. -/
theorem bare_replies_postponed (kind : String) (attributes : Bindings) (nickname : Option String)
    (kinds : List ResourceKind) (hlater : ∀ c ∈ later, c.Quiet) (v : Workshop) :
    (replies (perform levels)
        (.register kind attributes nickname :: (kinds.map .define ++ later)) v).2.bare =
      (replies (perform levels)
        (kinds.map .define ++ .register kind attributes nickname :: later) v).2.bare := by
  induction kinds generalizing v with
  | nil => rfl
  | cons k rest ih =>
    have hquiet : ∀ c ∈ rest.map Command.define ++ later, c.Quiet :=
      List.forall_mem_append.2 ⟨List.forall_mem_map.2 fun _ _ => rfl, hlater⟩
    calc (replies (perform levels) (.register kind attributes nickname :: .define k ::
          (rest.map Command.define ++ later)) v).2.bare
      _ = (replies (perform levels) (.define k :: .register kind attributes nickname ::
          (rest.map Command.define ++ later)) v).2.bare :=
        (exchangeable_register k kind attributes nickname).replies
          (Command.quiet_register kind attributes nickname) (Command.quiet_define k) hquiet v
      _ = (replies (perform levels) (.define k :: (rest.map Command.define ++
          .register kind attributes nickname :: later)) v).2.bare := by
        rw [replies_cons_snd (Command.quiet_define k), replies_cons_snd (Command.quiet_define k)]
        exact ih (perform levels (.define k) v).2

/-- All kinds may be described first, and the instances registered then. -/
theorem bare_replies_interleaved (h : Interleaved kinds registrations commands) (v : Workshop) :
    (replies (perform levels) commands v).2.bare =
      (replies (perform levels) (kinds.map .define ++ registrations) v).2.bare := by
  induction h generalizing v with
  | nil => rfl
  | define k _ ih =>
    rw [List.map_cons, List.cons_append, replies_cons_snd (Command.quiet_define k),
      replies_cons_snd (Command.quiet_define k)]
    exact ih _
  | @register kinds registrations _ kind attributes nickname hrest ih =>
    have hquiet := Command.quiet_register kind attributes nickname
    rw [← bare_replies_postponed kind attributes nickname kinds hrest.quiet.1 v,
      replies_cons_snd hquiet, replies_cons_snd hquiet]
    exact ih _

/-- Kinds of different names may be described in any order. -/
theorem bare_replies_perm (h : kinds.Perm kinds') (hnodup : (kinds.map ResourceKind.name).Nodup)
    (hlater : ∀ c ∈ later, c.Quiet) (v : Workshop) :
    (replies (perform levels) (kinds.map .define ++ later) v).2.bare =
      (replies (perform levels) (kinds'.map .define ++ later) v).2.bare := by
  induction h generalizing v with
  | nil => rfl
  | cons k _ ih =>
    rw [List.map_cons, List.map_cons, List.cons_append, List.cons_append,
      replies_cons_snd (Command.quiet_define k), replies_cons_snd (Command.quiet_define k)]
    exact ih (List.nodup_cons.1 hnodup).2 _
  | swap k k' rest =>
    have hne : k'.name ≠ k.name := fun heq => by simp [heq] at hnodup
    have hquiet : ∀ c ∈ rest.map Command.define ++ later, c.Quiet :=
      List.forall_mem_append.2 ⟨List.forall_mem_map.2 fun _ _ => rfl, hlater⟩
    exact (exchangeable_define hne).replies (Command.quiet_define _) (Command.quiet_define _)
      hquiet v
  | trans h _ ih ih' => exact (ih hnodup v).trans (ih' ((h.map _).nodup_iff.1 hnodup) v)

/-- It does not matter in which order kinds are described.

Take any workshop, in which some of the kinds may be known already, in other words; some kinds of
different names, in two orders; and some registrations of instances in between, at other places but
in the same order. It comes to the same, but for the journal: every kind offers the same, known or
not, both catalogues list the same, and whatever commands follow in the course of which no executor
is at work, every step is given the same and leaves the same store behind. -/
theorem description_order_irrelevant (levels : ℕ) (w : Workshop) (hperm : kinds.Perm kinds')
    (hnodup : (kinds.map ResourceKind.name).Nodup)
    (hcommands : Interleaved kinds registrations commands)
    (hcommands' : Interleaved kinds' registrations commands') :
    let v := (replies (perform levels) commands w).2
    let v' := (replies (perform levels) commands' w).2
    v.bare = v'.bare ∧ v.policy = w.policy ∧ v'.policy = w.policy ∧
    (∀ name, v.store.kinds.effective name = v'.store.kinds.effective name) ∧
    v.market.providers = v'.market.providers ∧
    v.otherMarket.providers = v'.otherMarket.providers ∧
    ∀ later, (∀ c ∈ later, c.Quiet) → ∀ step requirements,
      let u := (replies (perform levels) later v).2
      let u' := (replies (perform levels) later v').2
      (u.allocate step requirements).1 = (u'.allocate step requirements).1 ∧
        (u.allocate step requirements).2.store = (u'.allocate step requirements).2.store := by
  intro v v'
  have hsame : v.bare = v'.bare := by
    rw [bare_replies_interleaved hcommands, bare_replies_interleaved hcommands',
      bare_replies_perm hperm hnodup hcommands.quiet.1]
  refine ⟨hsame, ?_, ?_, fun name => ?_, ?_, ?_, fun later hlater step requirements => ?_⟩
  · exact replies_policy hcommands.quiet.2 w
  · exact replies_policy hcommands'.quiet.2 w
  · exact eq_of_bare_eq (fun w => w.store.kinds.effective name) (fun _ => rfl) hsame
  · exact eq_of_bare_eq (fun w => w.market.providers) (fun _ => rfl) hsame
  · exact eq_of_bare_eq (fun w => w.otherMarket.providers) (fun _ => rfl) hsame
  · have hafter : (replies (perform levels) later v).2.bare =
        (replies (perform levels) later v').2.bare := bare_replies hlater hsame
    exact ⟨eq_of_bare_eq (fun w => (w.allocate step requirements).1) (fun _ => rfl) hafter,
      eq_of_bare_eq (fun w => (w.allocate step requirements).2.store) (fun _ => rfl) hafter⟩

/-- A mixer that extends a machine, which extends the mixer in turn, and a trolley that extends what
is never described. -/
def machinery : List ResourceKind :=
  [⟨"mixer", some "machine", .ofList [("capabilities", .list ["mix"])]⟩,
    ⟨"machine", some "mixer", .ofList [("electric", .flag true)]⟩,
    ⟨"trolley", some "vehicle", .ofList [("capabilities", .list ["carry"])]⟩]

/-- A workshop in which a machine of another sort is known already. -/
def mill : Workshop :=
  ((new {} (.ofPlaybooks []) .own).define
    ⟨"machine", none, .ofList [("capabilities", .list ["grind"])]⟩).2

/-- The registration of a mixer. -/
def registration : Command :=
  .register "mixer" (.ofList [("id", .text "m1")]) none

/-- The mixer is described first, and an instance registered before all else is described. -/
def mixerFirst : List Command :=
  [.define machinery[0], registration, .define machinery[1], .define machinery[2]]

/-- The mixer is described last, when the instance is registered long since. -/
def mixerLast : List Command :=
  [registration, .define machinery[2], .define machinery[1], .define machinery[0]]

/-- The mill after some commands. -/
def millAfter (commands : List Command) : Workshop :=
  (replies (perform 0) commands mill).2

/-- On the way a mixer is listed in one order and not in the other. In the end the machine is listed
too as one that mixes, because it extends the mixer, and a step that requires a mixer is given the
instance. -/
theorem description_order_irrelevant_machinery :
    machinery.Perm machinery.reverse ∧ (machinery.map ResourceKind.name).Nodup ∧
    Interleaved machinery [registration] mixerFirst ∧
    Interleaved machinery.reverse [registration] mixerLast ∧
    (millAfter mixerFirst).bare = (millAfter mixerLast).bare ∧
    (millAfter (mixerFirst.take 2)).market.providersFor "mix" = ["mixer"] ∧
    (millAfter (mixerLast.take 2)).market.providersFor "mix" = [] ∧
    (millAfter mixerLast).market.providersFor "mix" = ["machine", "mixer"] := by
  have hperm : machinery.Perm machinery.reverse := machinery.reverse_perm.symm
  have hnodup : (machinery.map ResourceKind.name).Nodup := by decide
  have hearly : Interleaved machinery [registration] mixerFirst :=
    .define _ (.register _ _ _ (.define _ (.define _ .nil)))
  have hlate : Interleaved machinery.reverse [registration] mixerLast :=
    .register _ _ _ (.define _ (.define _ (.define _ .nil)))
  have hsame := (description_order_irrelevant 0 mill hperm hnodup hearly hlate).1
  exact ⟨hperm, hnodup, hearly, hlate, hsame, by decide +kernel, by decide +kernel,
    by decide +kernel⟩

end Workshop

end Foreman
