import Foreman.Proofs.Definition.Draft
import Foreman.Proofs.Market.LastFiled
/-!
# Entries of a manifest are neither lost nor duplicated

An interchange text that holds a draft is read as the manifest that remains when the draft is
sifted, and a workshop takes in that manifest. Every entry of the draft is then accounted for: it is
registered, or it is reported as left out. Each name stands for the last entry that was accepted
under it, responsibilities coming after capabilities; what is not named stays as it was.

## Main definitions

* `Foreman.Rejection.Before`: one entry that was set aside stood before another.
* `Foreman.Draft.SiftsTo`: what a manifest keeps of a draft, and what it sets aside.
* `Foreman.Workshop.Takes`: entries and kinds are taken in, and nothing else happens.
* `Foreman.Workshop.AccountsFor`: what is reported of a draft, and what becomes of its entries.

## Main results

* `Foreman.Manifest.ofText_json_eq_ok_iff`: which texts are read, and as which manifests.
* `Foreman.Workshop.takes_registerManifest`: what a workshop takes in with a manifest.
* `Foreman.manifest_entries_accounted_for`: every entry of a text is accounted for.
-/

namespace Foreman

/-! ### Documents of interchange texts -/

namespace Json

variable {fuel depth : Nat} {cs rest : List Char} {d : Document}

theorem isExplicit_number (t : NumberText) : t.document.isExplicit := by
  unfold NumberText.document
  dsimp only
  repeat' split
  all_goals rfl

/-- Whatever is read first, what is made of it says what it is. -/
theorem isExplicit_of_bind {α : Type} {x : Option α} {f : α → Document} {g : α → List Char}
    (hf : ∀ a, (f a).isExplicit) (h : (x >>= fun a => pure (f a, g a)) = some (d, rest)) :
    d.isExplicit := by
  obtain ⟨a, -, ha⟩ := Option.bind_eq_some_iff.1 h
  obtain ⟨rfl, -⟩ := Prod.mk.inj (Option.some.inj ha)
  exact hf a

theorem isExplicit_of_number? (h : number? cs = some (d, rest)) : d.isExplicit := by
  have hexponent {negative : Bool} {whole cs : List Char} {fraction : Option (List Char)}
      (h : (exponentText? cs >>= fun e => pure
        ((NumberText.mk negative whole fraction e.1).document, e.2)) = some (d, rest)) :
      d.isExplicit :=
    isExplicit_of_bind (fun _ => isExplicit_number _) h
  unfold number? at h
  dsimp only at h
  -- with a minus and without, the text goes on in the same way
  split at h
  all_goals
    split at h
    · exact nomatch h
    · split at h
      · split at h
        · exact nomatch h
        · exact hexponent h
      · exact hexponent h

theorem isExplicit_of_value? (h : value? fuel depth cs = some (d, rest)) : d.isExplicit := by
  have hword {word : String} {cs : List Char} {e : Document}
      (h : (word? word cs).map (e, ·) = some (d, rest)) : d = e := by
    obtain ⟨_, -, h⟩ := Option.map_eq_some_iff.1 h
    exact (Prod.mk.inj h).1.symm
  have hlist (items : List Document) :
      (if depth < depthLimit then Document.list items else .fault).isExplicit := by
    split <;> rfl
  have hrecord (members : List (Document × Document)) :
      (if depth < depthLimit then Document.record members else .fault).isExplicit := by
    split <;> rfl
  cases fuel with
  | zero => rw [value?] at h; cases h
  | succ fuel =>
    rw [value?] at h
    dsimp only at h
    split at h
    · rw [hword h]; rfl
    · rw [hword h]; rfl
    · rw [hword h]; rfl
    · obtain ⟨⟨s, _⟩, -, h⟩ := Option.map_eq_some_iff.1 h
      obtain ⟨rfl, -⟩ := Prod.mk.inj h
      cases s <;> rfl
    · split at h
      · exact isExplicit_of_bind (fun _ => hlist _) h
      · exact isExplicit_of_bind (fun _ => hlist _) h
    · split at h
      · split at h
        · split at h
          · exact isExplicit_of_bind (fun _ => hrecord _) h
          · exact isExplicit_of_bind (fun _ => hrecord _) h
        · exact nomatch h
      · exact isExplicit_of_number? h
    · exact nomatch h

/-- The document of an interchange text says what it is. -/
theorem isExplicit_of_readDocument? {s : String} (h : readDocument? s = some d) :
    d.isExplicit := by
  obtain ⟨⟨e, _⟩, hvalue, h⟩ := Option.bind_eq_some_iff.1 h
  dsimp only at h
  split at h
  · exact Option.some.inj h ▸ isExplicit_of_value? hvalue
  · exact nomatch h

end Json

/-- The texts that are read as manifests are those that hold a draft, and the manifest is what
remains of the draft. -/
theorem Manifest.ofText_json_eq_ok_iff {s : String} {m : Manifest} :
    Manifest.ofText .json s = .ok m ↔
      ∃ d D, Json.readDocument? s = some d ∧ d.draft? = some D ∧ D.sift = m := by
  unfold ofText Format.read Format.document?
  dsimp only
  cases hs : Json.readDocument? s with
  | none => simp [Except.map]
  | some d =>
    have hread := tolerant_eq_ok_iff (m := m) (Json.isExplicit_of_readDocument? hs)
    simp only [Option.some.injEq, exists_and_left, exists_eq_left']
    rw [← hread]
    cases tolerant Format.json.entry d <;> simp [Except.map]

/-! ### What remains of a draft -/

/-- One entry stood before another: under an earlier heading, or in an earlier place under the
same. -/
def Rejection.Before (r r' : Rejection) : Prop :=
  Document.headings.idxOf r.heading < Document.headings.idxOf r'.heading ∨
    (r.heading = r'.heading ∧ r.index < r'.index)

namespace Draft

/-- An entry of a draft does not fit, and is noted under its heading, with its place and why. -/
def Refuses (D : Draft) (r : Rejection) : Prop :=
  (r.heading = "capabilities" ∧ r.Explains (Capability.read false) D.capabilities) ∨
  (r.heading = "responsibilities" ∧ r.Explains Responsibility.read D.responsibilities) ∨
  (r.heading = "resources" ∧ r.Explains ResourceKind.read D.resources)

/-- A manifest keeps of a draft the entries that fit, in order, and sets each of the others aside
once. -/
structure SiftsTo (D : Draft) (m : Manifest) : Prop where
  /-- The capabilities are what is read of the entries under their heading that fit. -/
  capabilities : m.capabilities = accepted (Capability.read false) D.capabilities
  /-- So are the responsibilities. -/
  responsibilities : m.responsibilities = accepted Responsibility.read D.responsibilities
  /-- So are the kinds of resources. -/
  resources : m.resources = accepted ResourceKind.read D.resources
  /-- What is set aside is every entry that does not fit. -/
  mem_rejected_iff : ∀ r, r ∈ m.rejected ↔ D.Refuses r
  /-- It is set aside in order, and so no entry is twice. -/
  ordered : m.rejected.Pairwise Rejection.Before
  /-- What is told of it begins with the heading and the place. -/
  line : ∀ r ∈ m.rejected,
    r.line = r.heading ++ "[" ++ toString r.index ++ "]" ++ ": " ++ r.reason

theorem mem_rejected_sift_iff {D : Draft} {r : Rejection} :
    r ∈ D.sift.rejected ↔ D.Refuses r := by
  simp only [sift, List.mem_append, mem_refused_iff, or_assoc, Refuses]

/-- Within a section entries are set aside in the order of their places. -/
theorem pairwise_before_refused {α : Type} (heading : String) (read : Document → Except Misfit α)
    (entries : List Json) : (refused heading read entries).Pairwise Rejection.Before :=
  (pairwise_refused heading entries).imp_of_mem fun hr hr' hlt =>
    .inr ⟨(mem_refused_iff.1 hr).1.trans (mem_refused_iff.1 hr').1.symm, hlt⟩

/-- What is set aside under an earlier heading stood before what is set aside under a later one. -/
theorem before_of_mem_refused {α β : Type} {heading heading' : String}
    {read : Document → Except Misfit α} {read' : Document → Except Misfit β}
    {entries entries' : List Json} {r r' : Rejection}
    (hlt : Document.headings.idxOf heading < Document.headings.idxOf heading')
    (hr : r ∈ refused heading read entries) (hr' : r' ∈ refused heading' read' entries') :
    r.Before r' := by
  rw [← (mem_refused_iff.1 hr).1, ← (mem_refused_iff.1 hr').1] at hlt
  exact .inl hlt

theorem pairwise_before_sift (D : Draft) : D.sift.rejected.Pairwise Rejection.Before := by
  refine List.pairwise_append.2 ⟨List.pairwise_append.2 ⟨pairwise_before_refused _ _ _,
    pairwise_before_refused _ _ _, fun r hr r' hr' => ?_⟩, pairwise_before_refused _ _ _,
    fun r hr r' hr' => ?_⟩
  · exact before_of_mem_refused (by decide) hr hr'
  · rcases List.mem_append.1 hr with hr | hr
    · exact before_of_mem_refused (by decide) hr hr'
    · exact before_of_mem_refused (by decide) hr hr'

/-- A draft is sifted entry by entry. -/
theorem siftsTo_sift (D : Draft) : D.SiftsTo D.sift := by
  refine ⟨rfl, rfl, rfl, fun r => mem_rejected_sift_iff, D.pairwise_before_sift, fun r hr => ?_⟩
  have hwhy : r.why.isSome := by
    rcases mem_rejected_sift_iff.1 hr with
      ⟨-, _, _, -, -, h⟩ | ⟨-, _, _, -, -, h⟩ | ⟨-, _, _, -, -, h⟩
    all_goals rw [h]; rfl
  exact if_pos hwhy

/-- What is kept of a draft and what is set aside are as many as its entries. -/
theorem length_sift (D : Draft) : D.sift.capabilities.length + D.sift.responsibilities.length +
    D.sift.resources.length + D.sift.rejected.length = D.size := by
  have hcapabilities :=
    length_accepted_add_length_refused "capabilities" (Capability.read false) D.capabilities
  have hresponsibilities :=
    length_accepted_add_length_refused "responsibilities" Responsibility.read D.responsibilities
  have hresources :=
    length_accepted_add_length_refused "resources" ResourceKind.read D.resources
  simp only [sift, size, List.length_append]
  omega

end Draft

/-! ### What a manifest says of a name -/

/-- The kind that is described last under a name. -/
def Kinds.last? (ks : List ResourceKind) (name : String) : Option ResourceKind :=
  ks.reverse.find? fun k => k.name = name

theorem Kinds.last?_append (ks more : List ResourceKind) (name : String) :
    Kinds.last? (ks ++ more) name = (Kinds.last? more name).or (Kinds.last? ks name) := by
  rw [Kinds.last?, List.reverse_append, List.find?_append]
  rfl

namespace Manifest

/-- The entry that a manifest has for a name: the last responsibility of the name or, if there is
none, the last capability. -/
def entry? (m : Manifest) (name : String) : Option CatalogEntry :=
  ((m.responsibilities.reverse.find? fun r => r.capability.name = name).map .responsibility).or
    ((m.capabilities.reverse.find? fun c => c.name = name).map .capability)

/-- The entries of a manifest, in the order in which they are filed. -/
def entries (m : Manifest) : List CatalogEntry :=
  m.capabilities.map .capability ++ m.responsibilities.map .responsibility

/-- The kinds of resources that have a name. -/
def named (m : Manifest) : List ResourceKind :=
  m.resources.filter fun k => !k.name.isEmpty

theorem last?_entries (m : Manifest) (name : String) :
    Market.last? m.entries name = m.entry? name := by
  rw [entries, Market.last?_append]
  simp only [Market.last?, ← List.map_reverse, List.find?_map]
  rfl

theorem last?_named (m : Manifest) {name : String} (hname : name ≠ "") :
    Kinds.last? m.named name = Kinds.last? m.resources name := by
  simp only [Kinds.last?, named, ← List.filter_reverse, List.find?_filter]
  refine congrArg (List.find? · m.resources.reverse) (funext fun k => ?_)
  by_cases hk : k.name = name
  · simp [hk, hname]
  · simp [hk]

theorem last?_named_empty (m : Manifest) : Kinds.last? m.named "" = none := by
  simp [Kinds.last?, named]

end Manifest

/-! ### What a workshop takes in -/

theorem Market.resolve_fst (m : Market) (name : String) :
    (m.resolve name).1 = (m.memory.bind (·.get? name)).or (m.catalogue.get? name) := by
  unfold resolve
  split
  · next hnone => rw [hnone]; rfl
  · next memory hsome =>
    rw [hsome, Option.bind_some]
    split
    · next e he => rw [he]; rfl
    · next hforgotten =>
      rw [hforgotten, Option.none_or]
      split
      · next hunlisted => rw [hunlisted]
      · next e he => rw [he]

namespace Workshop

variable {w w' w'' : Workshop} {es es' : List CatalogEntry} {ks ks' : List ResourceKind}

/-- A workshop without what a manifest may change: the catalogue, what is remembered of it, the
indexes, the kinds of the store, and the journal. -/
def besides (w : Workshop) : Workshop :=
  { w with
    store := { w.store with kinds := .empty }
    market := { w.market with catalogue := .empty, providers := .empty, memory := none }
    otherMarket := { w.otherMarket with providers := .empty }
    journal := [] }

/-- Entries are filed and kinds are described, in order, and nothing else happens: under every name
stands what came last, or else what stood there before. -/
structure Takes (es : List CatalogEntry) (ks : List ResourceKind) (w w' : Workshop) : Prop where
  /-- Under a name stands the last entry. -/
  catalogue : ∀ name, w'.market.catalogue.get? name =
    (Market.last? es name).or (w.market.catalogue.get? name)
  /-- The entries of their names are no longer remembered. -/
  memory : ∀ name, w'.market.memory.map (·.get? name) =
    w.market.memory.map fun memory =>
      if (Market.last? es name).isSome then none else memory.get? name
  /-- Under a name stands the last kind. -/
  kinds : ∀ name, w'.store.kinds.get? name = (Kinds.last? ks name).or (w.store.kinds.get? name)
  /-- Nothing else happens. -/
  besides : w'.besides = w.besides

theorem Takes.trans (h : Takes es ks w w') (h' : Takes es' ks' w' w'') :
    Takes (es ++ es') (ks ++ ks') w w'' where
  catalogue name := by
    rw [h'.catalogue, h.catalogue, Market.last?_append, Option.or_assoc]
  memory name := by
    have hbefore := h.memory name
    rw [h'.memory, Market.last?_append]
    cases hw : w.market.memory with
    | none =>
      rw [hw] at hbefore
      rw [Option.map_eq_none_iff.1 hbefore]
      rfl
    | some memory =>
      rw [hw] at hbefore
      obtain ⟨memory', hw', hmemory⟩ := Option.map_eq_some_iff.1 hbefore
      rw [hw', Option.map_some, Option.map_some, hmemory]
      cases Market.last? es' name with
      | none => rfl
      | some e => simp
  kinds name := by
    rw [h'.kinds, h.kinds, Kinds.last?_append, Option.or_assoc]
  besides := h'.besides.trans h.besides

/-- Nothing is taken in. -/
theorem takes_nil (hcatalogue : w'.market.catalogue = w.market.catalogue)
    (hmemory : w'.market.memory = w.market.memory) (hkinds : w'.store.kinds = w.store.kinds)
    (hbesides : w'.besides = w.besides) : Takes [] [] w w' where
  catalogue name := by rw [hcatalogue]; rfl
  memory name := by rw [hmemory]; rfl
  kinds name := by rw [hkinds]; rfl
  besides := hbesides

theorem takes_noteAll (ns : List Notice) (w : Workshop) : Takes [] [] w (w.noteAll ns) :=
  takes_nil rfl rfl rfl rfl

theorem takes_file (e : CatalogEntry) (w : Workshop) : Takes [e] [] w (w.file e).2 where
  catalogue name := by
    have hfiled : (w.file e).2.market.catalogue = w.market.catalogue.insert e.name e := rfl
    rw [hfiled, Table.get?_insert]
    by_cases hname : name = e.name
    · simp [Market.last?, hname]
    · simp [Market.last?, hname, Ne.symm hname]
  memory name := by
    have hfiled : (w.file e).2.market.memory = w.market.memory.map (·.erase e.name) := rfl
    rw [hfiled, Option.map_map]
    refine congrArg (Option.map · w.market.memory) (funext fun memory => ?_)
    rw [Function.comp_apply, Table.get?_erase]
    by_cases hname : name = e.name
    · simp [Market.last?, hname]
    · simp [Market.last?, hname, Ne.symm hname]
  kinds name := rfl
  besides := rfl

theorem takes_publishOffers (w : Workshop) : Takes [] [] w w.publishOffers := by
  unfold publishOffers
  split <;> exact takes_nil rfl rfl rfl rfl

theorem takes_define (k : ResourceKind) (w : Workshop) : Takes [] [k] w (w.define k).2 := by
  have hdefined : Takes [] [k] w { w with store := w.store.define k } :=
    { catalogue := fun name => rfl
      memory := fun name => by simp [Market.last?]
      kinds := fun name => by
        rw [Store.define, Table.get?_insert]
        by_cases hname : name = k.name
        · simp [Kinds.last?, hname]
        · simp [Kinds.last?, hname, Ne.symm hname]
      besides := rfl }
  exact hdefined.trans (takes_publishOffers _)

/-! ### Registering a manifest -/

theorem takes_fileCapabilities (cs : List Capability) (w : Workshop) :
    Takes (cs.map .capability) [] w (w.fileCapabilities cs) := by
  induction cs generalizing w with
  | nil => exact takes_nil rfl rfl rfl rfl
  | cons c rest ih =>
    have hnoted : Takes [] [] w (if c.name.isEmpty then w.note .namelessCapability else w) := by
      split <;> exact takes_nil rfl rfl rfl rfl
    exact (hnoted.trans (takes_file (.capability c) _)).trans (ih _)

theorem takes_fileResponsibilities (rs : List Responsibility) (w : Workshop) :
    Takes (rs.map .responsibility) [] w (w.fileResponsibilities rs) := by
  induction rs generalizing w with
  | nil => exact takes_nil rfl rfl rfl rfl
  | cons r rest ih =>
    have hnoted : Takes [] []
        w (if r.capability.name.isEmpty then w.note .namelessResponsibility else w) := by
      split <;> exact takes_nil rfl rfl rfl rfl
    exact (hnoted.trans (takes_file (.responsibility r) _)).trans (ih _)

/-- Kinds without a name are left out. -/
theorem takes_defineAll (ks : List ResourceKind) (w : Workshop) :
    Takes [] (ks.filter fun k => !k.name.isEmpty) w (w.defineAll ks) := by
  induction ks generalizing w with
  | nil => exact takes_nil rfl rfl rfl rfl
  | cons k rest ih =>
    have hcons : w.defineAll (k :: rest) =
        (if k.name.isEmpty then w.note .namelessKind else (w.define k).2).defineAll rest := rfl
    rw [hcons]
    by_cases hname : k.name.isEmpty
    · have hnoted : Takes [] [] w (w.note .namelessKind) := takes_nil rfl rfl rfl rfl
      rw [if_pos hname, List.filter_cons_of_neg (by simpa using hname)]
      exact hnoted.trans (ih _)
    · rw [if_neg hname, List.filter_cons_of_pos (by simpa using hname)]
      exact (takes_define k w).trans (ih _)

/-- With a manifest a workshop takes in its entries and those of its kinds that have a name. -/
theorem takes_registerManifest (m : Manifest) (w : Workshop) :
    Takes m.entries m.named w (w.registerManifest m).2 := by
  have hnoted := takes_noteAll
    (m.rejected.map fun r => .malformedEntry r.heading r.index r.reason) w
  have hfiled := (hnoted.trans (takes_fileCapabilities m.capabilities _)).trans
    (takes_fileResponsibilities m.responsibilities _)
  have hdefined := hfiled.trans (takes_defineAll m.resources _)
  have hoffered (v : Workshop) : Takes [] [] v (if v.wiring = .own then v else
      { v.noteAll (Store.allCycleNotices v.store.kinds) with
        market := v.market.replaceProviders v.store.kinds.advertised }) := by
    split <;> exact takes_nil rfl rfl rfl rfl
  have hall := hdefined.trans (hoffered _)
  simp only [List.nil_append, List.append_nil] at hall
  exact hall

/-- What is looked up afterwards is the last entry that was taken in under the name, or else what
would have been found before. -/
theorem Takes.resolve_fst (h : Takes es ks w w') (name : String) :
    (w'.resolve name).1 = (Market.last? es name).or (w.resolve name).1 := by
  have hlookup (v : Workshop) : (v.resolve name).1 =
      (v.market.memory.map (·.get? name)).join.or (v.market.catalogue.get? name) := by
    refine (v.market.resolve_fst name).trans ?_
    cases v.market.memory <;> rfl
  rw [hlookup, hlookup, h.memory, h.catalogue]
  cases Market.last? es name with
  | none => rfl
  | some e => cases w.market.memory <;> rfl

/-- What is reported of a draft whose manifest is registered, and what becomes of its entries. -/
structure AccountsFor (D : Draft) (m : Manifest) (w : Workshop) (report : ManifestReport)
    (w' : Workshop) : Prop where
  /-- The capabilities kept are counted. -/
  capabilities : report.capabilities = m.capabilities.length
  /-- So are the responsibilities. -/
  responsibilities : report.responsibilities = m.responsibilities.length
  /-- So are the kinds of resources that have a name. -/
  resources : report.resources = m.resources.countP fun k => k.name ≠ ""
  /-- Kinds without a name are reported as left out, and then all that was set aside, in order. -/
  skipped : report.skipped =
    .replicate (m.resources.countP fun k => k.name = "") namelessKindLine ++
      m.rejected.map Rejection.line
  /-- What is counted and what is left out are all entries of the draft. -/
  total : report.capabilities + report.responsibilities + report.resources +
    report.skipped.length = D.size
  /-- Under a name stands the last responsibility or else the last capability, if there is one, and
  otherwise what stood there before. -/
  catalogue : ∀ name, w'.market.catalogue.get? name =
    (m.entry? name).or (w.market.catalogue.get? name)
  /-- Entries that were looked up before are forgotten if there are new ones of their names. -/
  memory : ∀ name, w'.market.memory.map (·.get? name) =
    w.market.memory.map fun memory => if (m.entry? name).isSome then none else memory.get? name
  /-- What is found under a name is the new entry or, if there is none, what was found before. -/
  resolve : ∀ name, (w'.resolve name).1 = (m.entry? name).or (w.resolve name).1
  /-- A kind is what was last said of it, or else what it was before. -/
  kinds : ∀ name, name ≠ "" →
    w'.store.kinds.get? name = (Kinds.last? m.resources name).or (w.store.kinds.get? name)
  /-- The kind without a name, if there is one, is left alone. -/
  nameless : w'.store.kinds.get? "" = w.store.kinds.get? ""
  /-- So is all the rest. -/
  besides : w'.besides = w.besides

theorem accountsFor_registerManifest (D : Draft) (w : Workshop) :
    w.AccountsFor D D.sift (w.registerManifest D.sift).1 (w.registerManifest D.sift).2 := by
  have htakes := takes_registerManifest D.sift w
  have hname (k : ResourceKind) : k.name.isEmpty = decide (k.name = "") := by
    rw [Bool.eq_iff_iff, decide_eq_true_iff]
    exact String.isEmpty_iff
  have hresources : (reportOf D.sift).resources =
      D.sift.resources.countP fun k => k.name ≠ "" := by
    simp [reportOf, List.countP_eq_length_filter, hname]
  have hskipped : (reportOf D.sift).skipped =
      .replicate (D.sift.resources.countP fun k => k.name = "") namelessKindLine ++
        D.sift.rejected.map Rejection.line := by
    simp [reportOf, List.countP_eq_length_filter, hname, List.map_const']
  have hkinds : D.sift.resources.length =
      D.sift.resources.countP (fun k => k.name = "") +
        D.sift.resources.countP (fun k => k.name ≠ "") := by
    simpa using List.length_eq_countP_add_countP (fun k : ResourceKind => k.name = "")
  exact
    { capabilities := rfl
      responsibilities := rfl
      resources := hresources
      skipped := hskipped
      total := by
        have hsize := D.length_sift
        change (reportOf D.sift).capabilities + (reportOf D.sift).responsibilities +
          (reportOf D.sift).resources + (reportOf D.sift).skipped.length = D.size
        rw [hresources, hskipped, List.length_append, List.length_replicate, List.length_map]
        simp only [reportOf]
        omega
      catalogue := fun name => by rw [htakes.catalogue, Manifest.last?_entries]
      memory := fun name => by rw [htakes.memory, Manifest.last?_entries]
      resolve := fun name => by rw [htakes.resolve_fst, Manifest.last?_entries]
      kinds := fun name hname => by rw [htakes.kinds, Manifest.last?_named _ hname]
      nameless := by rw [htakes.kinds, Manifest.last?_named_empty, Option.none_or]
      besides := htakes.besides }

end Workshop

/-- Every entry of a manifest is accounted for. A text that holds a draft is read as the manifest
that keeps, of each section and in order, the entries that fit, and sets each of the others aside
once, with its place. When the manifest is registered, in whatever workshop, the entries counted and
those reported as left out are as many as the draft has. Under each name then stands what was last
accepted under it, and everything that is not named is as it was. -/
theorem manifest_entries_accounted_for {s : String} {d : Document} {D : Draft}
    (hs : Json.readDocument? s = some d) (hD : d.draft? = some D) :
    ∃ m, Manifest.ofText .json s = .ok m ∧ D.SiftsTo m ∧
      ∀ w : Workshop, w.AccountsFor D m (w.registerManifest m).1 (w.registerManifest m).2 :=
  ⟨D.sift, Manifest.ofText_json_eq_ok_iff.2 ⟨d, D, hs, hD, rfl⟩, D.siftsTo_sift,
    Workshop.accountsFor_registerManifest D⟩

/-- A manifest in which an entry of each section does not fit or has no name. -/
def kitchenText : String :=
  "\x7b\"capabilities\": [3, \x7b\"name\": \"boil\"\x7d, \x7b\"name\": \"pour\"\x7d], " ++
    "\"responsibilities\": [\x7b\"name\": \"boil\"\x7d, \x7b\"name\": null\x7d], " ++
    "\"resources\": [\x7b\"name\": \"\"\x7d, null, \x7b\"name\": \"kettle\"\x7d]\x7d"

/-- What fits is registered, and the responsibility covers the capability of its name. -/
theorem manifest_entries_accounted_for_kitchen :
    ∃ m, Manifest.ofText .json kitchenText = .ok m ∧
      m.rejected.map Rejection.place =
        ["capabilities[0]", "responsibilities[1]", "resources[1]"] ∧
      ∀ w : Workshop,
        (w.registerManifest m).1.capabilities + (w.registerManifest m).1.responsibilities +
          (w.registerManifest m).1.resources + (w.registerManifest m).1.skipped.length = 8 ∧
        ((w.registerManifest m).2.resolve "boil").1.bind CatalogEntry.monitoring? =
          some .continuous ∧
        ((w.registerManifest m).2.resolve "tea").1 = (w.resolve "tea").1 := by
  have hdraft : ((Json.readDocument? kitchenText).bind Document.draft?).map (fun D =>
      (D.size, D.sift.rejected.map Rejection.place,
        (D.sift.entry? "boil").bind CatalogEntry.monitoring?, (D.sift.entry? "tea").isNone)) =
      some (8, ["capabilities[0]", "responsibilities[1]", "resources[1]"], some .continuous,
        true) := by
    decide +kernel
  obtain ⟨D, hread, hfacts⟩ := Option.map_eq_some_iff.1 hdraft
  obtain ⟨d, hs, hD⟩ := Option.bind_eq_some_iff.1 hread
  obtain ⟨m, hm, -, haccounts⟩ := manifest_entries_accounted_for hs hD
  obtain rfl : D.sift = m :=
    Except.ok.inj ((Manifest.ofText_json_eq_ok_iff.2 ⟨d, D, hs, hD, rfl⟩).symm.trans hm)
  simp only [Prod.mk.injEq] at hfacts
  obtain ⟨hsize, hplaces, hboil, htea⟩ := hfacts
  refine ⟨D.sift, hm, hplaces, fun w => ⟨(haccounts w).total.trans hsize, ?_, ?_⟩⟩
  · obtain ⟨e, he, hmode⟩ := Option.bind_eq_some_iff.1 hboil
    rw [(haccounts w).resolve, he]
    exact hmode
  · rw [(haccounts w).resolve, Option.isNone_iff_eq_none.1 htea]
    rfl

end Foreman
