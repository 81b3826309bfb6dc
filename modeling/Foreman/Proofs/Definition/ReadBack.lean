import Foreman.Definition.Manifest
import Foreman.Definition.Playbook
import Foreman.Proofs.Definition.Characteristic
/-!
# Reading back definitions

Playbooks, manifests and entries of the catalogue are written as objects. What was read from an open
value, as an object or as a list of fields, with fields left out and with members that nothing asks
for, is read back from what is written of it.

A record of which every field is read back is read back; where its fields are texts, flags and lists
of such, that holds of every record, and elsewhere of those that were read, and of all of which the
characteristics can be written as what they are.

## Main definitions

* `Foreman.Playbook.Writable`, `Foreman.Manifest.Writable`: all characteristics in a playbook or a
  manifest can be written as what they are.

## Main results

* `Foreman.Field.read_json`: a field is read back with all fields inside it.
* `Foreman.Capability.read_ofTable`, `Foreman.Responsibility.read_ofTable`: a record is read from an
  object in which its members stand among others.
* `Foreman.CatalogEntry.read_json`: an entry of the catalogue is read back.
* `Foreman.Preference.readsBack`, `Foreman.Playbook.readsBack`, `Foreman.Manifest.readsBack`: so is
  what holds characteristics.
* `Foreman.Playbook.Writable.read_json`, `Foreman.Manifest.Writable.read_json`: so is every playbook
  and every manifest that can be written.
* `Foreman.definitions_read_back`: all of them, from any open value, and all that can be written.
-/

namespace Foreman

namespace Field

/-- Fields as open values, one by one. -/
theorem jsonAll_eq_map (fields : List Field) : jsonAll fields = fields.map json := by
  induction fields with
  | nil => rfl
  | cons field rest ih => rw [jsonAll, ih, List.map_cons]

/-- The members of the record of a field. -/
def members : Field → List (String × Option Json)
  | mk name type description required fields =>
    [("name", some (.text name)), ("type", some (.text type)),
      ("description", some (.text description)), ("required", some (.bool required)),
      ("fields", if fields.isEmpty then none else some (.list (fields.map json)))]

theorem json_eq (f : Field) : f.json = .ofTable (Json.table f.members) := by
  obtain ⟨name, type, description, required, fields⟩ := f
  rw [json, jsonAll_eq_map]
  rfl

/-- A field is read from an object that has its members. -/
theorem read_ofTable {buffered : Bool} {t : Table Json} {f : Field} (h : t.Shows f.members)
    (hinner : ∀ g ∈ f.fields, read buffered g.json.document = .ok g) :
    read buffered (Json.ofTable t).document = .ok f := by
  obtain ⟨name, type, description, required, fields⟩ := f
  simp only [Table.Shows, members, List.forall_mem_cons] at h
  obtain ⟨hname, htype, hdescription, hrequired, hfields, -⟩ := h
  have hread : (Form.ofTable shape t).readWithin "fields" (fun _ _ => .done [])
      (fun x _ => x.asListWithin fun y _ => read buffered y) = .done fields := by
    cases fields with
    | nil => exact Form.readWithin_ofTable_none hfields
    | cons f fs =>
      refine Form.readWithin_ofTable_some hfields fun _ => ?_
      rw [Document.asListWithin_eq_asList]
      exact Document.asList_list hinner
  rw [read, Form.of?_ofTable]
  simp only [Form.may_text hname, Form.may_text htype, Form.may_text hdescription,
    Form.may_flag hrequired, hread]
  rfl

/-- A field is read back, however deep the fields inside it go. -/
theorem read_json (buffered : Bool) : (f : Field) → read buffered f.json.document = .ok f
  | mk name type description required fields => by
    have hinner : ∀ g ∈ fields, read buffered g.json.document = .ok g := fun g _ =>
      read_json buffered g
    rw [json_eq]
    exact read_ofTable (Table.shows_table (by simp [members])) hinner

end Field

namespace Capability

variable {buffered : Bool} {t : Table Json}

/-- A capability is read from an object that has its members, whatever else it has. -/
theorem read_ofTable {c : Capability} (h : t.Shows c.members) :
    read buffered (Json.ofTable t).document = .ok c := by
  simp only [Table.Shows, members, List.forall_mem_cons, Field.jsonAll_eq_map] at h
  obtain ⟨hname, hdescription, hmethod, hinputs, houtputs, hversion, hprovider, htags, -⟩ := h
  have hfield (f : Field) : Field.read buffered f.json.document = .ok f := f.read_json buffered
  simp only [read, Form.of?_ofTable, Except.ok_bind, Form.may_text hname,
    Form.may_text hdescription, Form.may_text hmethod, Form.may_list hinputs fun f _ => hfield f,
    Form.may_list houtputs fun f _ => hfield f, Form.may_optionalText hversion,
    Form.may_optionalText hprovider, Form.may_texts htags]
  rfl

/-- A capability is read back. -/
theorem read_json (c : Capability) : read buffered c.json.document = .ok c :=
  read_ofTable (Table.shows_table (by simp [members]))

end Capability

theorem Monitoring.readsBack : Document.ReadsBack Monitoring.read Monitoring.json :=
  Document.readsBack_asName fun m => by cases m <;> rfl

theorem Monitoring.read_json (m : Monitoring) : read m.json.document = .ok m := by
  cases m <;> rfl

namespace Responsibility

variable {t : Table Json}

/-- The members of the record of a responsibility. -/
def members (r : Responsibility) : List (String × Option Json) :=
  r.capability.members ++ [("monitoring_type", some r.monitoring.json)]

/-- A responsibility is read from an object that has its members, whatever else it has: what does
not say when it is looked at belongs to its capability. -/
theorem read_ofTable {r : Responsibility} (h : t.Shows r.members) :
    read (Json.ofTable t).document = .ok r := by
  have hmonitoring : t.get? "monitoring_type" = some r.monitoring.json :=
    h.right _ List.mem_cons_self
  have hcapability : (t.filter fun key _ => !shape.fields.contains key).Shows
      r.capability.members :=
    h.left.filter (by simp [Capability.members, shape])
  simp only [read, Form.named?_ofTable, Form.rest_ofTable, Json.aside_document, Except.ok_bind,
    Form.may_ofTable hmonitoring r.monitoring.read_json, Form.close_ofTable,
    Capability.read_ofTable hcapability]
  rfl

/-- A responsibility is read back. -/
theorem read_json (r : Responsibility) : read r.json.document = .ok r :=
  read_ofTable (Table.shows_table (by simp [Capability.members]))

end Responsibility

namespace CatalogEntry

/-- An entry of the catalogue is read back: its tag stands beside the members of its record. -/
theorem read_json (e : CatalogEntry) : read e.json.document = .ok e := by
  cases e with
  | capability c =>
    obtain ⟨t, hshows, huntag⟩ := Document.untag_record "kind" "internally tagged enum CatalogEntry"
      (.text "capability") c.members (by simp [Capability.members])
    rw [read, json, huntag]
    simp only [Except.ok_bind, Capability.read_ofTable hshows]
    rfl
  | responsibility r =>
    obtain ⟨t, hshows, huntag⟩ := Document.untag_record "kind" "internally tagged enum CatalogEntry"
      (.text "responsibility") r.members (by simp [Responsibility.members, Capability.members])
    rw [Responsibility.members] at huntag
    rw [read, json, List.cons_append, huntag]
    simp only [Except.ok_bind, Responsibility.read_ofTable hshows]
    rfl

end CatalogEntry

/-! ### Records that hold open values -/

namespace ResourceKind

variable {k : ResourceKind}

theorem read_json (hown : Characteristics.read (Characteristics.json k.own).document = .ok k.own) :
    read k.json.document = .ok k := by
  refine Table.record_cases (P := fun v => read v.document = .ok k) (by simp) fun t h => ?_
  simp only [Table.Shows, List.forall_mem_cons] at h
  obtain ⟨hname, hparent, hcharacteristics, -⟩ := h
  simp only [read, Form.of?_ofTable, Except.ok_bind, Form.may_text hname,
    Form.may_optionalText hparent, Form.may_ofTable hcharacteristics hown]
  rfl

/-- A kind of resource is read back. -/
theorem readsBack : Document.ReadsBack read json := by
  intro d k hd h
  obtain ⟨form, hform, h⟩ := Except.bind_eq_ok_iff.1 h
  have h := Form.done_of_close h
  simp only [Reading.seq_eq_done_iff, Reading.map_eq_done_iff] at h
  obtain ⟨_, ⟨_, ⟨name, -, rfl⟩, parent, -, rfl⟩, own, hown, rfl⟩ := h
  exact read_json ((hd.isOpen_form hform).may Characteristics.readsBack rfl hown)

end ResourceKind

namespace Preference

variable {matcher : Characteristics}

/-- The fields of a preference. -/
def fields : Preference → List (String × Option Json)
  | specific name => [("specific", some (.text name))]
  | matching matcher => [("characteristics", some (Characteristics.json matcher))]
  | emergency matcher warning =>
    [("characteristics", some (Characteristics.json matcher)), ("warning", some (.text warning))]

theorem asTag_kind (k : PreferenceKind) :
    k.json.document.asTag PreferenceKind.known false = .ok k := by
  cases k <;> rfl

/-- What is written of a preference is its kind, and beside it an object that has its fields. -/
theorem untag_json (p : Preference) : ∃ t : Table Json, t.Shows p.fields ∧
    p.json.document.untag "type" "internally tagged enum PriorityItem" =
      .ok (p.kind.json.document, (Json.ofTable t).document) := by
  have hnodup : ("type" :: p.fields.map (·.1)).Nodup := by cases p <;> simp [fields]
  exact Document.untag_record "type" _ p.kind.json p.fields hnodup

theorem read_specific (name : String) :
    read (specific name).json.document = .ok (specific name) := by
  obtain ⟨t, h, huntag⟩ := untag_json (specific name)
  have hname : t.get? "specific" = some (.text name) := h _ List.mem_cons_self
  simp only [read, huntag, Except.ok_bind, asTag_kind, Form.of?_ofTable, kind,
    Form.need_text hname]
  rfl

theorem read_matching
    (hmatcher : Characteristics.read (Characteristics.json matcher).document = .ok matcher) :
    read (matching matcher).json.document = .ok (matching matcher) := by
  obtain ⟨t, h, huntag⟩ := untag_json (matching matcher)
  have hcharacteristics : t.get? "characteristics" = some (Characteristics.json matcher) :=
    h _ List.mem_cons_self
  simp only [read, huntag, Except.ok_bind, asTag_kind, Form.of?_ofTable, kind,
    Form.need_ofTable hcharacteristics hmatcher]
  rfl

theorem read_emergency
    (hmatcher : Characteristics.read (Characteristics.json matcher).document = .ok matcher)
    (warning : String) :
    read (emergency matcher warning).json.document = .ok (emergency matcher warning) := by
  obtain ⟨t, h, huntag⟩ := untag_json (emergency matcher warning)
  simp only [Table.Shows, fields, List.forall_mem_cons] at h
  obtain ⟨hcharacteristics, hwarning, -⟩ := h
  simp only [read, huntag, Except.ok_bind, asTag_kind, Form.of?_ofTable, kind,
    Form.need_ofTable hcharacteristics hmatcher, Form.need_text hwarning]
  rfl

/-- A preference is read back: its kind stands beside what it asks for. -/
theorem readsBack : Document.ReadsBack read json := by
  intro d p hd h
  obtain ⟨⟨tag, rest⟩, huntag, h⟩ := Except.bind_eq_ok_iff.1 h
  obtain ⟨kind, -, h⟩ := Except.bind_eq_ok_iff.1 h
  obtain ⟨form, hform, h⟩ := Except.bind_eq_ok_iff.1 h
  have hopen := (hd.isOpen_untag huntag).2.isOpen_form hform
  cases kind with
  | specific =>
    obtain ⟨name, -, rfl⟩ := Reading.map_eq_done_iff.1 (Form.done_of_close h)
    exact read_specific name
  | matching =>
    obtain ⟨matcher, hmatcher, rfl⟩ := Reading.map_eq_done_iff.1 (Form.done_of_close h)
    exact read_matching (hopen.need Characteristics.readsBack hmatcher)
  | emergency =>
    have h := Form.done_of_close h
    simp only [Reading.seq_eq_done_iff, Reading.map_eq_done_iff] at h
    obtain ⟨_, ⟨matcher, hmatcher, rfl⟩, warning, -, rfl⟩ := h
    exact read_emergency (hopen.need Characteristics.readsBack hmatcher) warning

/-- What a preference asks for can be written. -/
def Writable : Preference → Prop
  | specific _ => True
  | matching matcher | emergency matcher _ => matcher.Writable

theorem Writable.read_json {p : Preference} (h : p.Writable) : read p.json.document = .ok p := by
  cases p with
  | specific name => exact read_specific name
  | matching matcher => exact read_matching (Characteristics.Writable.read_json h)
  | emergency matcher warning =>
    exact read_emergency (Characteristics.Writable.read_json h) warning

end Preference

namespace Requirement

variable {r : Requirement}

theorem read_json
    (hdirect : ∀ c ∈ r.direct, Characteristics.read (Characteristics.json c).document = .ok c)
    (hpreferences : ∀ p ∈ r.preferences, Preference.read p.json.document = .ok p) :
    read r.json.document = .ok r := by
  refine Table.record_cases (P := fun v => read v.document = .ok r) (by simp) fun t h => ?_
  simp only [Table.Shows, List.forall_mem_cons] at h
  obtain ⟨hname, hcharacteristics, hpriority, -⟩ := h
  simp only [read, Form.of?_ofTable, Except.ok_bind, Form.may_text hname,
    Form.may_ofTable_optional hcharacteristics hdirect fun _ => nofun,
    Form.may_list hpriority hpreferences]
  rfl

/-- A requirement is read back. -/
theorem readsBack : Document.ReadsBack read json := by
  intro d r hd h
  obtain ⟨form, hform, h⟩ := Except.bind_eq_ok_iff.1 h
  have hopen := hd.isOpen_form hform
  have h := Form.done_of_close h
  simp only [Reading.seq_eq_done_iff, Reading.map_eq_done_iff] at h
  obtain ⟨_, ⟨_, ⟨name, -, rfl⟩, direct, hdirect, rfl⟩, preferences, hpreferences, rfl⟩ := h
  exact read_json (hopen.mayOptional Characteristics.readsBack hdirect)
    (hopen.mayList Preference.readsBack hpreferences)

/-- What a requirement asks for can be written. -/
structure Writable (r : Requirement) : Prop where
  direct : ∀ c ∈ r.direct, c.Writable
  preferences : ∀ p ∈ r.preferences, p.Writable

theorem Writable.read_json (h : r.Writable) : read r.json.document = .ok r :=
  Requirement.read_json (fun c hc => (h.direct c hc).read_json)
    fun p hp => (h.preferences p hp).read_json

end Requirement

namespace Step

variable {s : Step}

theorem read_json
    (hrequirements : ∀ r ∈ s.requirements, Requirement.read r.json.document = .ok r) :
    read s.json.document = .ok s := by
  refine Table.record_cases (P := fun v => read v.document = .ok s) (by simp) fun t h => ?_
  simp only [Table.Shows, List.forall_mem_cons, Field.jsonAll_eq_map] at h
  obtain ⟨hname, hmethod, hlist, hinputs, houtputs, -⟩ := h
  have hfield (f : Field) : Field.read false f.json.document = .ok f := f.read_json false
  simp only [read, Form.of?_ofTable, Except.ok_bind, Form.may_text hname, Form.may_text hmethod,
    Form.may_list hlist hrequirements, Form.may_list hinputs fun f _ => hfield f,
    Form.may_list houtputs fun f _ => hfield f]
  rfl

/-- A step is read back. -/
theorem readsBack : Document.ReadsBack read json := by
  intro d s hd h
  obtain ⟨form, hform, h⟩ := Except.bind_eq_ok_iff.1 h
  have h := Form.done_of_close h
  simp only [Reading.seq_eq_done_iff, Reading.map_eq_done_iff] at h
  obtain ⟨_, ⟨_, ⟨_, ⟨_, ⟨name, -, rfl⟩, method, -, rfl⟩, requirements, hrequirements, rfl⟩, inputs,
    -, rfl⟩, outputs, -, rfl⟩ := h
  exact read_json ((hd.isOpen_form hform).mayList Requirement.readsBack hrequirements)

/-- What the requirements of a step ask for can be written. -/
def Writable (s : Step) : Prop :=
  ∀ r ∈ s.requirements, r.Writable

theorem Writable.read_json (h : s.Writable) : read s.json.document = .ok s :=
  Step.read_json fun r hr => (h r hr).read_json

end Step

namespace Playbook

variable {p : Playbook}

theorem read_json (hsteps : ∀ s ∈ p.steps, Step.read s.json.document = .ok s) :
    read p.json.document = .ok p := by
  refine Table.record_cases (P := fun v => read v.document = .ok p) (by simp) fun t h => ?_
  simp only [Table.Shows, List.forall_mem_cons] at h
  obtain ⟨hname, hdescription, hlist, -⟩ := h
  simp only [read, Form.of?_ofTable, Except.ok_bind, Form.may_text hname,
    Form.may_text hdescription, Form.may_list hlist hsteps]
  rfl

/-- A playbook is read back. -/
theorem readsBack : Document.ReadsBack read json := by
  intro d p hd h
  obtain ⟨form, hform, h⟩ := Except.bind_eq_ok_iff.1 h
  have h := Form.done_of_close h
  simp only [Reading.seq_eq_done_iff, Reading.map_eq_done_iff] at h
  obtain ⟨_, ⟨_, ⟨name, -, rfl⟩, description, -, rfl⟩, steps, hsteps, rfl⟩ := h
  exact read_json ((hd.isOpen_form hform).mayList Step.readsBack hsteps)

/-- What the steps of a playbook ask for can be written. -/
def Writable (p : Playbook) : Prop :=
  ∀ s ∈ p.steps, s.Writable

theorem Writable.read_json (h : p.Writable) : read p.json.document = .ok p :=
  Playbook.read_json fun s hs => (h s hs).read_json

end Playbook

namespace Manifest

variable {m : Manifest}

theorem strict_json (hrejected : m.rejected = [])
    (hresources : ∀ k ∈ m.resources, ResourceKind.read k.json.document = .ok k) :
    strict m.json.document = .ok m := by
  refine Table.record_cases (P := fun v => strict v.document = .ok m) (by simp) fun t h => ?_
  simp only [Table.Shows, List.forall_mem_cons] at h
  obtain ⟨hcapabilities, hresponsibilities, hkinds, -⟩ := h
  have hcapability (c : Capability) : Capability.read false c.json.document = .ok c :=
    c.read_json
  simp only [strict, Form.of?_ofTable, Except.ok_bind,
    Form.may_list hcapabilities fun c _ => hcapability c,
    Form.may_list hresponsibilities fun r _ => r.read_json, Form.may_list hkinds hresources,
    ← hrejected]
  rfl

/-- A manifest that was read strictly is read back. -/
theorem readsBack : Document.ReadsBack strict json := by
  intro d m hd h
  obtain ⟨form, hform, h⟩ := Except.bind_eq_ok_iff.1 h
  have h := Form.done_of_close h
  simp only [Reading.seq_eq_done_iff, Reading.map_eq_done_iff] at h
  obtain ⟨_, ⟨_, ⟨capabilities, -, rfl⟩, responsibilities, -, rfl⟩, resources, hresources, rfl⟩ := h
  exact strict_json rfl ((hd.isOpen_form hform).mayList ResourceKind.readsBack hresources)

/-- A manifest can be written: nothing in it was rejected, and its kinds of resources offer what can
be written. -/
structure Writable (m : Manifest) : Prop where
  rejected : m.rejected = []
  resources : ∀ k ∈ m.resources, k.own.Writable

theorem Writable.read_json (h : m.Writable) : strict m.json.document = .ok m :=
  strict_json h.rejected fun k hk => ResourceKind.read_json (h.resources k hk).read_json

end Manifest

/-! ### Definitions of all kinds -/

/-- Playbooks, manifests without rejected entries and entries of the catalogue that are read from an
open value are read back from what is written of them. A characteristic that is kept as it stands is
that value, and is written as it. Whatever it comes from, every characteristic, playbook and
manifest that can be written is read back, and so is every field, capability, responsibility and
entry of the catalogue. -/
theorem definitions_read_back :
    (∀ v : Json, v.WellFormed →
      (∀ p, Playbook.read v.document = .ok p → Playbook.read p.json.document = .ok p) ∧
      (∀ m, Manifest.strict v.document = .ok m → Manifest.strict m.json.document = .ok m) ∧
      (∀ e, CatalogEntry.read v.document = .ok e → CatalogEntry.read e.json.document = .ok e) ∧
      ∀ w, Characteristic.read v.document = .ok (.other w) →
        w = v ∧ Characteristic.read (Characteristic.other w).json.document = .ok (.other w)) ∧
    (∀ c : Characteristic, c.Writable → Characteristic.read c.json.document = .ok c) ∧
    (∀ p : Playbook, p.Writable → Playbook.read p.json.document = .ok p) ∧
    (∀ m : Manifest, m.Writable → Manifest.strict m.json.document = .ok m) ∧
    (∀ (buffered : Bool) (f : Field), Field.read buffered f.json.document = .ok f) ∧
    (∀ (buffered : Bool) (c : Capability), Capability.read buffered c.json.document = .ok c) ∧
    (∀ r : Responsibility, Responsibility.read r.json.document = .ok r) ∧
    ∀ e : CatalogEntry, CatalogEntry.read e.json.document = .ok e := by
  refine ⟨fun v hv => ?_, fun c hc => hc.read_json, fun p hp => hp.read_json,
    fun m hm => hm.read_json, Field.read_json, fun _ => Capability.read_json,
    Responsibility.read_json, CatalogEntry.read_json⟩
  have hd := Document.isOpen_document hv
  refine ⟨fun p hp => Playbook.readsBack hd hp, fun m hm => Manifest.readsBack hd hm,
    fun e _ => e.read_json, fun w hw => ⟨?_, Characteristic.readsBack hd hw⟩⟩
  exact ((Characteristic.read_eq_other_iff hv).1 hw).2

/-- A value that is a playbook and a manifest, some of it given as lists of fields. -/
def teaTime : Json :=
  .object
    [("name", .text "tea"),
      ("resources", .list [.object
        [("characteristics", .object
            [("modes", .list [.text "slow", .int 3]), ("volume", .int 2)]),
          ("name", .text "kettle")]]),
      ("steps", .list [.list [.text "boil", .text "slowly", .list [.object
        [("name", .text "pot"), ("priority", .list
          [.list [.text "emergency", .object [("metal", .bool true)], .text "hot"],
            .object [("specific", .text "kettle"), ("type", .text "specific")]])]]]])]

/-- An entry of the catalogue that is given as a list, with a field inside a field. -/
def teaEntry : Json :=
  .list [.text "capability", .text "tea", .text "", .text "",
    .list [.list [.text "leaf", .text "herb", .text "", .bool true,
      .list [.object [("colour", .null), ("name", .text "origin")]]]]]

/-- A pot of metal, as the last resort. -/
def teaPot : Requirement :=
  ⟨"pot", none, [.emergency (.ofList [("metal", .flag true)]) "hot"]⟩

/-- A way to make tea in it. -/
def teaPlaybook : Playbook :=
  ⟨"tea", "", [{ name := "boil", requirements := [teaPot] }]⟩

theorem definitions_read_back_tea :
    (∃ p, Playbook.read teaTime.document = .ok p ∧ p.steps.length = 1 ∧
      Playbook.read p.json.document = .ok p) ∧
    (∃ m, Manifest.strict teaTime.document = .ok m ∧ m.resources.length = 1 ∧
      Manifest.strict m.json.document = .ok m) ∧
    (∃ e, CatalogEntry.read teaEntry.document = .ok e ∧ e.described.inputs.length = 1 ∧
      CatalogEntry.read e.json.document = .ok e) ∧
    Characteristic.read teaTime.document = .ok (.other teaTime) ∧
    teaPlaybook.Writable ∧ Playbook.read teaPlaybook.json.document = .ok teaPlaybook := by
  have htime : teaTime.WellFormed := by
    refine ⟨?_, by simp [teaTime, Json.Finite], by simp [teaTime, Json.Sized]⟩
    simp only [teaTime, Json.Canonical, Json.CanonicalItems, Json.CanonicalMembers]
    decide
  have hentry : teaEntry.WellFormed := by
    refine ⟨?_, by simp [teaEntry, Json.Finite], by simp [teaEntry, Json.Sized]⟩
    simp only [teaEntry, Json.Canonical, Json.CanonicalItems, Json.CanonicalMembers]
    decide
  have hread : CatalogEntry.read teaEntry.document = .ok (.capability
      ⟨"tea", "", "", [.mk "leaf" "herb" "" true [.mk "origin" "" "" false []]], [], none, none,
        []⟩) := by cbv
  obtain ⟨hback, -, hwritten, -⟩ := definitions_read_back
  obtain ⟨hplaybook, hmanifest, -, -⟩ := hback teaTime htime
  obtain ⟨-, -, hcatalogue, -⟩ := hback teaEntry hentry
  have hmetal : Characteristics.Writable (.ofList [("metal", .flag true)]) := fun e he => by
    obtain rfl := List.mem_singleton.1 he
    trivial
  have hpot : teaPot.Writable := ⟨by simp [teaPot], List.forall_mem_singleton.2 hmetal⟩
  have hwritable : teaPlaybook.Writable :=
    List.forall_mem_singleton.2 (List.forall_mem_singleton.2 hpot)
  exact ⟨⟨_, rfl, rfl, hplaybook _ rfl⟩, ⟨_, rfl, rfl, hmanifest _ rfl⟩,
    ⟨_, hread, rfl, hcatalogue _ hread⟩, Characteristic.read_document htime, hwritable,
    hwritten _ hwritable⟩

end Foreman
