import Foreman.Proofs.Document.Open
/-!
# Reading back what was read

A record is written as an object, and what is written is read again. Whether the same record comes
back is asked for what was read before, from the document of any open value: in whatever form it was
given there, with whatever fields left out and whatever members besides.

A record that is written as an object is read from what its members say, so it can be written
together with other members, and read from among them.

## Main definitions

* `Foreman.Form.value?`: what a form has under the name of a field.
* `Foreman.Document.ReadsBack`: what a reader has read it reads again, as the same, from its value.
* `Foreman.Json.field?`: what an open value has in a field.
* `Foreman.Table.Shows`: a table has the members that a record is written with.
* `Foreman.Form.ofTable`: the form of an object.

## Main results

* `Foreman.Document.ReadsBack.asList`, `Foreman.Document.ReadsBack.asTable`: so are lists and tables
  of what is read back.
* `Foreman.Form.IsOpen.need`, `Foreman.Form.IsOpen.may`, `Foreman.Form.IsOpen.maybe`: what was read
  in the fields of a record is read back.
* `Foreman.Form.value?_eq_field?`: a form of an open value has what the value has in its fields.
* `Foreman.Table.record_cases`: what is written of a record is an object that has its members.
* `Foreman.Form.need_ofTable`, `Foreman.Form.may_ofTable`, `Foreman.Form.maybe_ofTable`,
  `Foreman.Form.rest_ofTable`, `Foreman.Document.untag_record`: what is read from such an object.
-/

namespace Foreman

/-! ### What a form was read as -/

namespace Reading

variable {α β : Type} {f : Reading (α → β)} {g : α → β} {x : Reading α} {b : β}

@[simp] theorem map_eq_done_iff : g <$> x = .done b ↔ ∃ a, x = .done a ∧ g a = b := by
  cases x with
  | done a => simp
  | unfit rank why => simp

@[simp] theorem seq_eq_done_iff :
    (f <*> x) = .done b ↔ ∃ g, f = .done g ∧ ∃ a, x = .done a ∧ g a = b := by
  cases f with
  | done g =>
    cases x with
    | done a => simp
    | unfit rank why => exact ⟨(nomatch ·), fun ⟨_, _, _, h, _⟩ => (nomatch h)⟩
  | unfit rank why =>
    refine ⟨fun h => ?_, fun ⟨_, h, _⟩ => (nomatch h)⟩
    cases x with
    | done a => exact nomatch h
    | unfit rank' why' =>
      change (if rank'.before rank then _ else _) = _ at h
      split at h <;> exact nomatch h

end Reading

@[simp] theorem Except.ok_bind {ε α β : Type} (a : α) (f : α → Except ε β) :
    (.ok a >>= f) = f a := rfl

theorem Except.bind_eq_ok_iff {ε α β : Type} {x : Except ε α} {f : α → Except ε β} {b : β} :
    x >>= f = .ok b ↔ ∃ a, x = .ok a ∧ f a = .ok b := by
  cases x with
  | error e => exact ⟨(nomatch ·), fun ⟨_, h, _⟩ => (nomatch h)⟩
  | ok a => exact ⟨fun h => ⟨a, rfl, h⟩, fun ⟨_, h, hf⟩ => Except.ok.inj h ▸ hf⟩

namespace Form

variable {α : Type} {d : Document} {form : Form d} {name : String} {a : α}

/-- A form is closed on the value that was read from it. -/
theorem done_of_close {reading : Reading α} (h : form.close reading = .ok a) :
    reading = .done a := by
  cases reading with
  | unfit rank why => exact nomatch h
  | done b =>
    obtain ⟨shape, fields, small⟩ := form
    cases fields with
    | named members => exact congrArg _ (Except.ok.inj h)
    | ordered items buffered =>
      simp only [close] at h
      split at h
      · exact congrArg _ (Except.ok.inj h)
      · split at h <;> exact nomatch h

/-- What a form has under a name, or in the place of that name. -/
def value? (form : Form d) (name : String) : Option Document :=
  match form.fields with
  | .named members => (occurrences name 0 members).head?.map (·.2)
  | .ordered items _ => items[form.shape.fields.idxOf name]?

theorem mem_values_of_value? {x : Document} (h : form.value? name = some x) :
    x ∈ form.fields.values := by
  obtain ⟨shape, fields, small⟩ := form
  cases fields with
  | named members =>
    obtain ⟨⟨i, y⟩, hy, rfl⟩ := Option.map_eq_some_iff.1 h
    exact mem_values_of_mem_occurrences (List.mem_of_head? hy)
  | ordered items buffered => exact List.mem_of_getElem? h

/-- A field was read from what the form has under its name, unless it was absent. -/
theorem readWithin_eq_done {absent : Rank → Misfit → Reading α}
    {read : (x : Document) → sizeOf x < sizeOf d → Except Misfit α}
    (h : form.readWithin name absent read = .done a) :
    (∃ x, ∃ hx : form.value? name = some x,
      read x (form.small x (mem_values_of_value? hx)) = .ok a) ∨
        ∃ rank why, absent rank why = .done a := by
  obtain ⟨shape, fields, small⟩ := form
  cases fields with
  | named members =>
    simp only [readWithin] at h
    split at h
    · exact .inr ⟨_, _, h⟩
    · next i x more hocc =>
      have hx : (⟨shape, .named members, small⟩ : Form d).value? name = some x := by
        simp [value?, hocc]
      refine .inl ⟨x, hx, ?_⟩
      cases hread : read x (small x (mem_values_of_value? hx)) with
      | error why => simp [hread] at h
      | ok b =>
        -- a name that stands there twice refuses the record, even if its first value fits
        cases more with
        | nil =>
          simp only [hread, Reading.done.injEq] at h
          rw [h]
        | cons _ _ => simp [hread] at h
  | ordered items buffered =>
    simp only [readWithin] at h
    split at h
    · exact .inr ⟨_, _, h⟩
    · next x hx =>
      split at h
      · cases h
      · next b hread => exact .inl ⟨x, hx, Reading.done.inj h ▸ hread⟩

variable {read : Document → Except Misfit α}

theorem exists_of_need (h : form.need name read = .done a) :
    ∃ x, form.value? name = some x ∧ read x = .ok a := by
  rcases readWithin_eq_done h with ⟨x, hx, hread⟩ | ⟨_, _, h⟩
  · exact ⟨x, hx, hread⟩
  · exact nomatch h

theorem exists_of_may {default : α} (h : form.may name default read = .done a) :
    (∃ x, form.value? name = some x ∧ read x = .ok a) ∨ a = default := by
  rcases readWithin_eq_done h with ⟨x, hx, hread⟩ | ⟨_, _, h⟩
  · exact .inl ⟨x, hx, hread⟩
  · exact .inr (Reading.done.inj h).symm

theorem exists_of_maybe {a : Option α} (h : form.maybe name read = .done a) :
    (∃ x, form.value? name = some x ∧ x.asOptional read = .ok a) ∨ a = none := by
  rcases readWithin_eq_done h with ⟨x, hx, hread⟩ | ⟨_, _, h⟩
  · exact .inl ⟨x, hx, hread⟩
  · split at h
    · exact .inr (Reading.done.inj h).symm
    · exact nomatch h

end Form

/-! ### What is read back -/

namespace Document

variable {α β : Type}

/-- What a reader has read from an open document it reads again, as the same, from the value that it
is written as. -/
def ReadsBack (read : Document → Except Misfit α) (json : α → Json) : Prop :=
  ∀ {d : Document} {a : α}, d.IsOpen → read d = .ok a → read (json a).document = .ok a

/-- An optional value was read, if it is there. -/
theorem some_of_asOptional {read : Document → Except Misfit α} {d : Document} {a : α}
    (h : d.asOptional read = .ok (some a)) : read d = .ok a := by
  unfold asOptional at h
  split at h
  · exact nomatch h
  · split at h
    · exact nomatch h
    · cases hread : read d with
      | error why => rw [hread] at h; exact nomatch h
      | ok b => rw [hread] at h; exact congrArg _ (Option.some.inj (Except.ok.inj h))

theorem exists_of_mem_mapM {f : α → Except Misfit β} {as : List α} {bs : List β}
    (h : as.mapM f = .ok bs) : ∀ b ∈ bs, ∃ a ∈ as, f a = .ok b := by
  induction as generalizing bs with
  | nil =>
    obtain rfl := Except.ok.inj h
    simp
  | cons a as ih =>
    rw [List.mapM_cons] at h
    obtain ⟨b, hb, h⟩ := Except.bind_eq_ok_iff.1 h
    obtain ⟨bs', hbs, h⟩ := Except.bind_eq_ok_iff.1 h
    obtain rfl := Except.ok.inj h
    intro c hc
    rcases List.mem_cons.1 hc with rfl | hc
    · exact ⟨a, List.mem_cons_self, hb⟩
    · obtain ⟨a', ha', hf⟩ := ih hbs c hc
      exact ⟨a', List.mem_cons_of_mem _ ha', hf⟩

theorem mapM_map_eq_ok {f : β → Except Misfit α} {g : α → β} {as : List α}
    (h : ∀ a ∈ as, f (g a) = .ok a) : (as.map g).mapM f = .ok as := by
  induction as with
  | nil => rfl
  | cons a as ih =>
    rw [List.map_cons, List.mapM_cons, h a List.mem_cons_self,
      ih fun b hb => h b (List.mem_cons_of_mem _ hb)]
    rfl

/-- Reading the items of a list needs not be told that they are smaller. -/
theorem asListWithin_eq_asList (d : Document) (read : Document → Except Misfit α) :
    d.asListWithin (fun x _ => read x) = d.asList read := by
  unfold asListWithin asList
  split
  · next h => simp only [h]; rfl
  · next xs h =>
    have hattach : xs.attach.mapM (read ∘ Subtype.val) = xs.mapM read := by
      rw [← List.mapM_map, List.attach_map_subtype_val]
    simp only [h]
    exact hattach

variable {read : Document → Except Misfit α} {json : α → Json}

theorem asList_list {vs : List α} (h : ∀ v ∈ vs, read (json v).document = .ok v) :
    asList read (Json.list (vs.map json)).document = .ok vs := by
  rw [Json.document_list, List.map_map]
  exact mapM_map_eq_ok h

/-- Every item of a list that was read is read back. -/
theorem ReadsBack.of_mem_asList (hr : ReadsBack read json) {d : Document} {as : List α}
    (hd : d.IsOpen) (h : d.asList read = .ok as) : ∀ a ∈ as, read (json a).document = .ok a := by
  obtain ⟨ds, hitems, h⟩ := Except.bind_eq_ok_iff.1 h
  intro a ha
  obtain ⟨x, hx, hread⟩ := exists_of_mem_mapM h a ha
  exact hr (hd.of_mem_items hitems x hx) hread

theorem ReadsBack.asList (hr : ReadsBack read json) :
    ReadsBack (asList read) fun as => .list (as.map json) :=
  fun hd h => asList_list (hr.of_mem_asList hd h)

theorem mem_ofList {entries : List (String × α)} {e : String × α}
    (h : e ∈ (Table.ofList entries).entries) : e ∈ entries := by
  have hget : (Table.ofList entries).get? e.1 = some e.2 := Table.get?_eq_some_iff.2 h
  rw [Table.get?_ofList] at hget
  obtain ⟨e', he', hvalue⟩ := Option.map_eq_some_iff.1 hget
  have hkey : e'.1 = e.1 := by simpa using List.find?_some he'
  have hmem := List.mem_of_find?_eq_some he'
  rw [List.mem_reverse] at hmem
  exact Prod.ext hkey hvalue ▸ hmem

theorem asTable_ofTable {t : Table α}
    (h : ∀ e ∈ t.entries, read (json e.2).document = .ok e.2) :
    asTable read (Json.ofTable (t.mapValues json)).document = .ok t := by
  rw [Json.document_ofTable]
  have hentries : ((t.mapValues json).entries.map Json.documentMember).mapM (asEntry read) =
      .ok t.entries := by
    simp only [Table.mapValues, List.map_map]
    refine mapM_map_eq_ok fun e he => ?_
    simp [asEntry, Json.documentMember, asText, h e he, bind, Except.bind, pure, Except.pure]
  simp [asTable, Document.members, hentries, bind, Except.bind, pure, Except.pure]

theorem ReadsBack.asTable (hr : ReadsBack read json) :
    ReadsBack (asTable read) fun t => .ofTable (t.mapValues json) := by
  intro d t hd h
  obtain ⟨ms, hms, h⟩ := Except.bind_eq_ok_iff.1 h
  obtain ⟨entries, hentries, h⟩ := Except.bind_eq_ok_iff.1 h
  obtain rfl := Except.ok.inj h
  refine asTable_ofTable fun e he => ?_
  obtain ⟨m, hm, hread⟩ := exists_of_mem_mapM hentries e (mem_ofList he)
  obtain ⟨key, -, hread⟩ := Except.bind_eq_ok_iff.1 hread
  obtain ⟨value, hvalue, hread⟩ := Except.bind_eq_ok_iff.1 hread
  obtain rfl := Except.ok.inj hread
  exact hr (hd.of_mem_members hms m hm) hvalue

theorem readsBack_asOpen : ReadsBack asOpen id := fun hd h =>
  ((hd.asOpen_eq_ok_iff.1 h).1).asOpen_document

theorem mapValues_id (t : Table α) : t.mapValues id = t := by
  simp [Table.mapValues]

theorem asBindings_ofTable {t : Bindings} (h : ∀ e ∈ t.entries, e.2.WellFormed) :
    (Json.ofTable t).document.asBindings = .ok t := by
  have hback : asTable asOpen (Json.ofTable (t.mapValues id)).document = .ok t :=
    asTable_ofTable fun e he => (h e he).asOpen_document
  rwa [mapValues_id] at hback

/-- Named open values are read back. -/
theorem readsBack_asBindings : ReadsBack asBindings Json.ofTable := by
  intro d t hd h
  have hback : asTable asOpen (Json.ofTable (t.mapValues id)).document = .ok t :=
    ReadsBack.asTable readsBack_asOpen hd h
  rwa [mapValues_id] at hback

/-- A count that was read is below its bound. -/
theorem lt_of_asCount {bound n : Nat} {kind : String} {d : Document}
    (h : asCount bound kind d = .ok n) : n < bound := by
  cases d with
  | int i =>
    simp only [asCount] at h
    split at h
    · next hi =>
      have := Except.ok.inj h
      omega
    · exact nomatch h
  | _ => exact nomatch h

theorem asCount_int {bound n : Nat} (h : n < bound) (kind : String) :
    asCount bound kind (.int n) = .ok n := by
  simp [asCount, h]

theorem readsBack_asCount (bound : Nat) (kind : String) :
    ReadsBack (asCount bound kind) fun n => .int n :=
  fun _ h => asCount_int (lt_of_asCount h) kind

theorem readsBack_asCount32 : ReadsBack asCount32 fun n => .int n :=
  readsBack_asCount _ _

theorem readsBack_asCount64 : ReadsBack asCount64 fun n => .int n :=
  readsBack_asCount _ _

/-- One of some names is read back if every value has a name of its own. -/
theorem readsBack_asName {known : List (String × α)} {name : α → String}
    (h : ∀ a, known.lookup (name a) = some a) :
    ReadsBack (asName known) fun a => .text (name a) := by
  intro d a _ _
  simp [Json.document, asName, asName.pick, h]

end Document

/-! ### Fields that were read -/

namespace Form.IsOpen

variable {α : Type} {d : Document} {form : Form d} {name : String} {a : α}
  {read : Document → Except Misfit α} {json : α → Json}

theorem value? (hform : form.IsOpen) {x : Document} (hx : form.value? name = some x) : x.IsOpen :=
  hform x (mem_values_of_value? hx)

theorem need (hform : form.IsOpen) (hr : Document.ReadsBack read json)
    (h : form.need name read = .done a) : read (json a).document = .ok a := by
  obtain ⟨x, hx, hread⟩ := exists_of_need h
  exact hr (hform.value? hx) hread

theorem needList (hform : form.IsOpen) (hr : Document.ReadsBack read json) {as : List α}
    (h : form.need name (Document.asList read) = .done as) :
    ∀ a ∈ as, read (json a).document = .ok a := by
  obtain ⟨x, hx, hread⟩ := exists_of_need h
  exact hr.of_mem_asList (hform.value? hx) hread

theorem may (hform : form.IsOpen) (hr : Document.ReadsBack read json) {default : α}
    (hdefault : read (json default).document = .ok default)
    (h : form.may name default read = .done a) : read (json a).document = .ok a := by
  rcases exists_of_may h with ⟨x, hx, hread⟩ | rfl
  · exact hr (hform.value? hx) hread
  · exact hdefault

theorem mayOptional (hform : form.IsOpen) (hr : Document.ReadsBack read json) {a : Option α}
    (h : form.may name none (Document.asOptional read) = .done a) :
    ∀ b ∈ a, read (json b).document = .ok b := by
  rintro b rfl
  rcases exists_of_may h with ⟨x, hx, hread⟩ | h
  · exact hr (hform.value? hx) (Document.some_of_asOptional hread)
  · exact nomatch h

theorem mayList (hform : form.IsOpen) (hr : Document.ReadsBack read json) {as : List α}
    (h : form.may name [] (Document.asList read) = .done as) :
    ∀ a ∈ as, read (json a).document = .ok a := by
  rcases exists_of_may h with ⟨x, hx, hread⟩ | rfl
  · exact hr.of_mem_asList (hform.value? hx) hread
  · exact List.forall_mem_nil _

theorem maybe (hform : form.IsOpen) (hr : Document.ReadsBack read json) {a : Option α}
    (h : form.maybe name read = .done a) : ∀ b ∈ a, read (json b).document = .ok b := by
  rintro b rfl
  rcases exists_of_maybe h with ⟨x, hx, hread⟩ | h
  · exact hr (hform.value? hx) (Document.some_of_asOptional hread)
  · exact nomatch h

end Form.IsOpen

/-! ### What was read somewhere -/

namespace Form

variable {α : Type} {d : Document} {form : Form d} {name : String}
  {read : Document → Except Misfit α}

theorem exists_read_of_need {a : α} (h : form.need name read = .done a) : ∃ x, read x = .ok a :=
  (exists_of_need h).imp fun _ hx => hx.2

theorem exists_read_of_needList {as : List α}
    (h : form.need name (Document.asList read) = .done as) : ∀ a ∈ as, ∃ x, read x = .ok a := by
  obtain ⟨x, hread⟩ := exists_read_of_need h
  obtain ⟨ds, -, hread⟩ := Except.bind_eq_ok_iff.1 hread
  intro a ha
  obtain ⟨y, -, hy⟩ := Document.exists_of_mem_mapM hread a ha
  exact ⟨y, hy⟩

theorem exists_read_of_maybe {a : α} (h : form.maybe name read = .done (some a)) :
    ∃ x, read x = .ok a := by
  rcases exists_of_maybe h with ⟨x, -, hread⟩ | h
  · exact ⟨x, Document.some_of_asOptional hread⟩
  · exact nomatch h

end Form

/-! ### Open values in their fields -/

namespace Json

/-- What an open value has in a field: the member of that name or, in a list of fields, the item in
its place. -/
def field? (fields : List String) (name : String) : Json → Option Json
  | .object members => (members.find? fun m => m.1 = name).map (·.2)
  | .list items => items[fields.idxOf name]?
  | _ => none

variable {fields : List String} {name : String} {v w : Json}

theorem WellFormed.field? (hv : v.WellFormed) (h : v.field? fields name = some w) :
    w.WellFormed := by
  cases v with
  | object members =>
    obtain ⟨m, hm, rfl⟩ := Option.map_eq_some_iff.1 h
    exact (wellFormed_object_iff.1 hv).2 m (List.mem_of_find?_eq_some hm)
  | list items => exact wellFormed_list_iff.1 hv w (List.mem_of_getElem? h)
  | _ => exact nomatch h

end Json

namespace Form

variable {α : Type} {shape : Shape} {buffered : Bool} {name : String} {v : Json} {a : α}
  {form : Form v.document} {read : Document → Except Misfit α}

theorem head?_occurrences (members : List (String × Json)) (i : Nat) :
    (occurrences name i (Json.documentMembers members)).head?.map (·.2) =
      (members.find? fun m => m.1 = name).map (·.2.document) := by
  induction members generalizing i with
  | nil => rfl
  | cons m rest ih =>
    simp only [Json.documentMembers, occurrences, Document.keyText?, List.find?_cons,
      Option.some.injEq]
    by_cases hm : m.1 = name
    · simp [hm]
    · simp [hm, ih]

/-- A form of an open value has what the value has in its fields. -/
theorem value?_eq_field? (hform : of? shape buffered v.document = .ok form) :
    form.value? name = (v.field? shape.fields name).map Json.document := by
  cases v with
  | object members =>
    simp only [Json.document, of?] at hform
    split at hform
    · obtain rfl := Except.ok.inj hform
      simpa [value?, Json.field?, Function.comp_def] using head?_occurrences members 0
    · cases hform
  | list items =>
    obtain rfl := Except.ok.inj hform
    simp [value?, Json.field?, Json.documentItems_eq_map]
  | _ => cases hform

theorem exists_field_of_need (hform : of? shape buffered v.document = .ok form)
    (h : form.need name read = .done a) :
    ∃ w, v.field? shape.fields name = some w ∧ read w.document = .ok a := by
  obtain ⟨x, hx, hread⟩ := exists_of_need h
  rw [value?_eq_field? hform] at hx
  obtain ⟨w, hw, rfl⟩ := Option.map_eq_some_iff.1 hx
  exact ⟨w, hw, hread⟩

theorem exists_field_of_maybe (hform : of? shape buffered v.document = .ok form)
    (h : form.maybe name read = .done (some a)) :
    ∃ w, v.field? shape.fields name = some w ∧ read w.document = .ok a := by
  rcases exists_of_maybe h with ⟨x, hx, hread⟩ | h
  · rw [value?_eq_field? hform] at hx
    obtain ⟨w, hw, rfl⟩ := Option.map_eq_some_iff.1 hx
    exact ⟨w, hw, Document.some_of_asOptional hread⟩
  · exact nomatch h

end Form

/-- Named open values are kept as they stand. -/
theorem Json.WellFormed.eq_of_asBindings {v : Json} (hv : v.WellFormed) {t : Bindings}
    (h : v.document.asBindings = .ok t) : v = .ofTable t := by
  cases v with
  | object members =>
    obtain ⟨hasc, hmembers⟩ := wellFormed_object_iff.1 hv
    have hback : (Json.ofTable ⟨members, hasc⟩).document.asBindings = .ok ⟨members, hasc⟩ :=
      Document.asBindings_ofTable hmembers
    rw [← Except.ok.inj (hback.symm.trans h)]
    rfl
  | _ => exact nomatch h

theorem Document.forall₂_of_mapM {α : Type} {read : Document → Except Misfit α} {items : List Json}
    {as : List α} (hitems : ∀ w ∈ items, w.WellFormed)
    (h : (items.map Json.document).mapM read = .ok as) :
    List.Forall₂ (fun w a => w.WellFormed ∧ read w.document = .ok a) items as := by
  induction items generalizing as with
  | nil =>
    obtain rfl := Except.ok.inj h
    exact .nil
  | cons item rest ih =>
    rw [List.map_cons, List.mapM_cons] at h
    obtain ⟨a, ha, h⟩ := Except.bind_eq_ok_iff.1 h
    obtain ⟨as', has, h⟩ := Except.bind_eq_ok_iff.1 h
    obtain rfl := Except.ok.inj h
    exact .cons ⟨hitems item List.mem_cons_self, ha⟩
      (ih (fun w hw => hitems w (List.mem_cons_of_mem _ hw)) has)

/-- A list was read item by item. -/
theorem Document.forall₂_of_asList {α : Type} {read : Document → Except Misfit α} {v : Json}
    {as : List α} (hv : v.WellFormed) (h : v.document.asList read = .ok as) :
    ∃ items, v = .list items ∧
      List.Forall₂ (fun w a => w.WellFormed ∧ read w.document = .ok a) items as := by
  cases v with
  | list items =>
    rw [Json.document_list] at h
    exact ⟨items, rfl, forall₂_of_mapM (Json.wellFormed_list_iff.1 hv) h⟩
  | _ => exact nomatch h

/-! ### Records that are written -/

namespace Json

/-- The table of named values, of which some are left out. -/
def table (members : List (String × Option Json)) : Table Json :=
  .ofList (members.filterMap fun m => m.2.map fun v => (m.1, v))

end Json

namespace Table

/-- A table has the members that a record is written with, and lacks those that are left out. -/
def Shows (t : Table Json) (members : List (String × Option Json)) : Prop :=
  ∀ m ∈ members, t.get? m.1 = m.2

variable {t : Table Json} {members more : List (String × Option Json)}

theorem shows_table (h : (members.map (·.1)).Nodup) : (Json.table members).Shows members := by
  rintro ⟨key, value⟩ hm
  have hkey {e : String × Json} (he : e ∈ (Json.table members).entries) (hek : e.1 = key) :
      some e.2 = value := by
    obtain ⟨m, hmem, hme⟩ := List.mem_filterMap.1 (Document.mem_ofList he)
    obtain ⟨v, hv, rfl⟩ := Option.map_eq_some_iff.1 hme
    obtain rfl := List.inj_on_of_nodup_map h hmem hm hek
    exact hv.symm
  cases hget : (Json.table members).get? key with
  | some v => exact hkey (get?_eq_some_iff.1 hget) rfl
  | none =>
    cases value with
    | none => rfl
    | some v =>
      rw [Json.table, get?_ofList, Option.map_eq_none_iff, List.find?_eq_none] at hget
      have hmem : (key, v) ∈ members.filterMap fun m => m.2.map fun v => (m.1, v) :=
        List.mem_filterMap.2 ⟨_, hm, rfl⟩
      exact absurd (beq_self_eq_true key) (hget (key, v) (List.mem_reverse.2 hmem))

/-- What is written of a record is an object that has its members. -/
theorem record_cases {P : Json → Prop} (hnodup : (members.map (·.1)).Nodup)
    (h : ∀ t : Table Json, t.Shows members → P (.ofTable t)) : P (.record members) :=
  h _ (shows_table hnodup)

theorem Shows.left (h : t.Shows (members ++ more)) : t.Shows members :=
  fun m hm => h m (List.mem_append_left _ hm)

theorem Shows.right (h : t.Shows (members ++ more)) : t.Shows more :=
  fun m hm => h m (List.mem_append_right _ hm)

/-- Without other members a table has the same ones. -/
theorem Shows.erase (h : t.Shows members) {key : String} (hkey : ∀ m ∈ members, m.1 ≠ key) :
    (t.erase key).Shows members := fun m hm => by
  rw [get?_erase, if_neg (hkey m hm), h m hm]

theorem get?_filter (t : Table Json) (keep : String → Json → Bool) (key : String) :
    (t.filter keep).get? key = (t.get? key).filter (keep key) := by
  cases hget : t.get? key with
  | some v =>
    rw [get?_eq_some_iff] at hget
    by_cases hkeep : keep key v
    · rw [Option.filter_some_pos hkeep, get?_eq_some_iff]
      exact List.mem_filter.2 ⟨hget, hkeep⟩
    · rw [Option.filter_some_neg (by simpa using hkeep), Option.eq_none_iff_forall_ne_some]
      intro w hw
      rw [get?_eq_some_iff] at hw
      obtain ⟨hmem, hkeep'⟩ := List.mem_filter.1 hw
      have := get?_eq_some_iff.2 hmem
      rw [get?_eq_some_iff.2 hget] at this
      exact hkeep (Option.some.inj this ▸ hkeep')
  | none =>
    rw [Option.filter_none, Option.eq_none_iff_forall_ne_some]
    intro w hw
    rw [get?_eq_some_iff] at hw
    rw [get?_eq_some_iff.2 (List.mem_filter.1 hw).1] at hget
    exact nomatch hget

theorem Shows.filter (h : t.Shows members) {keep : String → Json → Bool}
    (hkeep : ∀ m ∈ members, ∀ v, keep m.1 v = true) : (t.filter keep).Shows members := by
  intro m hm
  rw [get?_filter, h m hm]
  cases hvalue : m.2 with
  | none => rfl
  | some v => exact Option.filter_some_pos (hkeep m hm v)

end Table

namespace Form

/-- The form of an object. -/
def ofTable (shape : Shape) (t : Table Json) : Form (Json.ofTable t).document where
  shape := shape
  fields := .named (Json.documentMembers t.entries)
  small := Document.sizeOf_lt_of_mem_record

variable {α : Type} {shape : Shape} {t : Table Json} {name : String} {v : Json} {a : α}

theorem of?_ofTable (shape : Shape) (buffered : Bool) (t : Table Json) :
    of? shape buffered (Json.ofTable t).document = .ok (ofTable shape t) := by
  have hkeys : (Json.documentMembers t.entries).all fun m => m.1.keyText?.isSome := by
    simp [Json.documentMembers_eq_map, Json.documentMember, Document.keyText?]
  simp only [Json.ofTable, Json.document, of?]
  rw [if_pos hkeys]
  rfl

theorem named?_ofTable (shape : Shape) (t : Table Json) :
    named? shape (Json.ofTable t).document = .ok (ofTable shape t) :=
  of?_ofTable shape false t

theorem close_ofTable (shape : Shape) (t : Table Json) (a : α) :
    (ofTable shape t).close (.done a) = .ok a := rfl

theorem occurrences_eq_nil {entries : List (String × Json)} (h : ∀ m ∈ entries, m.1 ≠ name)
    (i : Nat) : occurrences name i (Json.documentMembers entries) = [] := by
  induction entries generalizing i with
  | nil => rfl
  | cons m rest ih =>
    have hm : m.1 ≠ name := h m List.mem_cons_self
    simp [Json.documentMembers, occurrences, Document.keyText?, hm,
      ih (fun m hm => h m (List.mem_cons_of_mem _ hm)) (i + 1)]

theorem occurrences_eq_singleton {entries : List (String × Json)}
    (hasc : entries.Pairwise fun a b => a.1 < b.1) (h : (name, v) ∈ entries) (i : Nat) :
    ∃ j, occurrences name i (Json.documentMembers entries) = [(j, v.document)] := by
  induction entries generalizing i with
  | nil => exact absurd h List.not_mem_nil
  | cons m rest ih =>
    rcases List.mem_cons.1 h with rfl | hrest
    · have hother : ∀ m ∈ rest, m.1 ≠ name := fun m hm heq =>
        String.lt_irrefl name (heq ▸ List.rel_of_pairwise_cons hasc hm)
      exact ⟨i, by simp [Json.documentMembers, occurrences, Document.keyText?,
        occurrences_eq_nil hother]⟩
    · have hlt : m.1 < name := List.rel_of_pairwise_cons hasc hrest
      have hm : m.1 ≠ name := fun heq => String.lt_irrefl name (heq ▸ hlt)
      obtain ⟨j, hj⟩ := ih hasc.of_cons hrest (i + 1)
      exact ⟨j, by simp [Json.documentMembers, occurrences, Document.keyText?, hm, hj]⟩

/-- A field that an object has is read from its value. -/
theorem readWithin_ofTable_some {absent : Rank → Misfit → Reading α}
    {read : (x : Document) → sizeOf x < sizeOf (Json.ofTable t).document → Except Misfit α}
    (h : t.get? name = some v) (hread : ∀ hx, read v.document hx = .ok a) :
    (ofTable shape t).readWithin name absent read = .done a := by
  obtain ⟨j, hocc⟩ := occurrences_eq_singleton t.ascending (Table.get?_eq_some_iff.1 h) 0
  simp only [readWithin, ofTable]
  split
  · next hnil => rw [hocc] at hnil; cases hnil
  · next i x more hcons =>
    rw [hocc] at hcons
    obtain ⟨hx, rfl⟩ := List.cons.inj hcons
    obtain ⟨-, rfl⟩ := Prod.mk.inj hx
    rw [hread]

/-- A field that an object lacks is absent. -/
theorem readWithin_ofTable_none {absent : Rank → Misfit → Reading α}
    {read : (x : Document) → sizeOf x < sizeOf (Json.ofTable t).document → Except Misfit α}
    (h : t.get? name = none) : (ofTable shape t).readWithin name absent read =
      absent ⟨true, shape.fields.idxOf name⟩ (.missing name) := by
  have hocc : occurrences name 0 (Json.documentMembers t.entries) = [] := by
    refine occurrences_eq_nil (fun m hm heq => ?_) 0
    subst heq
    rw [Table.get?_eq_some_iff.2 hm] at h
    cases h
  simp only [readWithin, ofTable]
  split
  · rfl
  · next hcons => rw [hocc] at hcons; cases hcons

variable {β : Type} {read : Document → Except Misfit α} {json : α → Json}

theorem need_ofTable (h : t.get? name = some v) (hread : read v.document = .ok a) :
    (ofTable shape t).need name read = .done a :=
  readWithin_ofTable_some h fun _ => hread

theorem need_text {s : String} (h : t.get? name = some (.text s)) :
    (ofTable shape t).need name Document.asText = .done s :=
  need_ofTable h rfl

theorem need_list {as : List α} (h : t.get? name = some (.list (as.map json)))
    (hread : ∀ a ∈ as, read (json a).document = .ok a) :
    (ofTable shape t).need name (Document.asList read) = .done as :=
  need_ofTable h (Document.asList_list hread)

theorem need_texts {as : List String} (h : t.get? name = some (.texts as)) :
    (ofTable shape t).need name (Document.asList Document.asText) = .done as :=
  need_list h fun _ _ => rfl

theorem may_ofTable (h : t.get? name = some v) {default : α} (hread : read v.document = .ok a) :
    (ofTable shape t).may name default read = .done a :=
  readWithin_ofTable_some h fun _ => hread

theorem may_text {s default : String} (h : t.get? name = some (.text s)) :
    (ofTable shape t).may name default Document.asText = .done s :=
  may_ofTable h rfl

theorem may_flag {b default : Bool} (h : t.get? name = some (.bool b)) :
    (ofTable shape t).may name default Document.asFlag = .done b :=
  may_ofTable h rfl

/-- A list field is read if its items are. -/
theorem may_list {as default : List α} (h : t.get? name = some (.list (as.map json)))
    (hread : ∀ a ∈ as, read (json a).document = .ok a) :
    (ofTable shape t).may name default (Document.asList read) = .done as :=
  may_ofTable h (Document.asList_list hread)

theorem may_texts {as default : List String} (h : t.get? name = some (.texts as)) :
    (ofTable shape t).may name default (Document.asList Document.asText) = .done as :=
  may_list h fun _ _ => rfl

theorem may_ofTable_none (h : t.get? name = none) (default : α) :
    (ofTable shape t).may name default read = .done default :=
  readWithin_ofTable_none h

theorem asOptional_document (hnull : v ≠ .null) (hread : read v.document = .ok a) :
    v.document.asOptional read = .ok (some a) := by
  rw [Document.asOptional, Json.isAbsent_document hnull, Json.deniesNull_document, hread]
  rfl

/-- An optional field that is left out where it is absent. -/
theorem may_ofTable_optional {o : Option α} (h : t.get? name = o.map json)
    (hread : ∀ a ∈ o, read (json a).document = .ok a) (hnull : ∀ a, json a ≠ .null) :
    (ofTable shape t).may name none (Document.asOptional read) = .done o := by
  cases o with
  | none => exact may_ofTable_none h none
  | some a => exact may_ofTable h (asOptional_document (hnull a) (hread a rfl))

theorem may_optionalText {o : Option String} (h : t.get? name = o.map .text) :
    (ofTable shape t).may name none (Document.asOptional Document.asText) = .done o :=
  may_ofTable_optional h (fun _ _ => rfl) fun _ => nofun

/-- An optional field that is null where it is absent. -/
theorem maybe_ofTable {o : Option α} (h : t.get? name = some (.ofOption json o))
    (hread : ∀ a ∈ o, read (json a).document = .ok a) (hnull : ∀ a, json a ≠ .null) :
    (ofTable shape t).maybe name read = .done o := by
  refine readWithin_ofTable_some h fun _ => ?_
  cases o with
  | none => rfl
  | some a => exact asOptional_document (hnull a) (hread a rfl)

theorem maybe_text {o : Option String} (h : t.get? name = some (.ofOption .text o)) :
    (ofTable shape t).maybe name Document.asText = .done o :=
  maybe_ofTable h (fun _ _ => rfl) fun _ => nofun

/-- The members that belong to no field are an object again. -/
theorem rest_ofTable (shape : Shape) (t : Table Json) : (ofTable shape t).rest =
    (Json.ofTable (t.filter fun key _ => !shape.fields.contains key)).document := by
  have hrest : (ofTable shape t).rest = (Document.record
      ((Json.documentMembers t.entries).filter _)).settled := rfl
  rw [hrest, Json.documentMembers_eq_map, List.filter_map, ← Json.document_object,
    Json.settled_document]
  rfl

end Form

/-- The tag of an object is one of its members, and the others are an object again. -/
theorem Document.untag_ofTable {t : Table Json} {tag : String} {v : Json}
    (h : t.get? tag = some v) (title : String) :
    (Json.ofTable t).document.untag tag title =
      .ok (v.document, (Json.ofTable (t.erase tag)).document) := by
  obtain ⟨j, hocc⟩ := Form.occurrences_eq_singleton t.ascending (Table.get?_eq_some_iff.1 h) 0
  have hrest : record ((Json.documentMembers t.entries).filter fun m =>
      m.1.keyText? != some tag) = (Json.ofTable (t.erase tag)).document := by
    rw [Json.documentMembers_eq_map, List.filter_map, ← Json.document_object]
    congr 2
  have haside := Json.aside_document (Json.ofTable (t.erase tag))
  simp only [Json.ofTable, Json.document, untag, hocc] at haside hrest ⊢
  rw [hrest, haside]
  rfl

/-- A record that is written beside its tag is found beside it. -/
theorem Document.untag_record (tag title : String) (v : Json)
    (members : List (String × Option Json)) (h : (tag :: members.map (·.1)).Nodup) :
    ∃ t : Table Json, t.Shows members ∧
      (Json.record ((tag, some v) :: members)).document.untag tag title =
        .ok (v.document, (Json.ofTable t).document) := by
  have hshows : (Json.table ((tag, some v) :: members)).Shows ((tag, some v) :: members) :=
    Table.shows_table h
  refine ⟨_, Table.Shows.erase (fun m hm => hshows m (List.mem_cons_of_mem _ hm)) ?_,
    untag_ofTable (hshows _ List.mem_cons_self) title⟩
  rintro m hm rfl
  exact (List.nodup_cons.1 h).1 (List.mem_map_of_mem hm)

end Foreman
