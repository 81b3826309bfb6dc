import Foreman.Proofs.Definition.Draft
/-!
# Strict and tolerant reading agree

A manifest is read strictly or entry by entry. Of an open value both readings tell the same: what
is read strictly is what is read tolerantly with nothing set aside, and a value of which entries are
set aside is read by both once these entries are struck out of it.

## Main definitions

* `Foreman.Json.strike`: a value without the entries that were set aside.

## Main results

* `Foreman.Json.WellFormed.strict_eq_ok_iff`: what is read strictly is what is read tolerantly with
  nothing set aside.
* `Foreman.Json.WellFormed.tolerant_strike`: what is left is read as the manifest of the others.
* `Foreman.strict_agrees_with_tolerant`: the two readings agree.
-/

namespace Foreman

namespace Rejection

/-- Whether an entry is among those that were set aside. -/
def strikes (rejected : List Rejection) (heading : String) (i : Nat) : Bool :=
  rejected.any fun r => r.heading = heading && r.index = i

end Rejection

namespace Json

/-- A section without the entries that were set aside under its heading. -/
def strikeSection (rejected : List Rejection) (heading : String) : Json → Json
  | .list items =>
    .list ((items.zipIdx.filter fun e => !Rejection.strikes rejected heading e.2).map (·.1))
  | v => v

/-- A manifest without the entries that were set aside. Its sections are found by name or, in a
list, by their place. -/
def strike (rejected : List Rejection) : Json → Json
  | .object members => .object (members.map fun m => (m.1, m.2.strikeSection rejected m.1))
  | .list sections => .list <| sections.zipIdx.map fun e =>
      e.1.strikeSection rejected (Document.headings.getD e.2 "")
  | v => v

/-- What stands under a heading: the values of that name in an object, the item in its place in a
list. -/
def under (heading : String) (place : Nat) : Json → List Json
  | .object members => (members.filter fun m => m.1 = heading).map (·.2)
  | .list items => items[place]?.toList
  | _ => []

variable {v : Json} {heading : String} {place : Nat} {rejected : List Rejection}

theorem under_document (v : Json) :
    v.document.under heading place = (v.under heading place).map document := by
  cases v with
  | object members =>
    simp [document_object, Document.under, under, List.filter_map, Function.comp_def,
      documentMember, Document.keyText?]
  | list items =>
    rw [document_list]
    simp only [Document.under, under, List.getElem?_map]
    cases items[place]? <;> rfl
  | _ => rfl

theorem under_strike (hheading : Document.headings[place]? = some heading) (v : Json) :
    (v.strike rejected).under heading place =
      (v.under heading place).map (strikeSection rejected heading) := by
  cases v with
  | object members =>
    simp only [strike, under, List.filter_map, List.map_map, Function.comp_def]
    refine List.map_congr_left fun m hm => ?_
    obtain ⟨-, hname⟩ := List.mem_filter.1 hm
    rw [of_decide_eq_true hname]
  | list items =>
    simp only [strike, under, List.getElem?_map, List.getElem?_zipIdx, List.getD_eq_getElem?_getD]
    cases items[place]? <;> simp [hheading]
  | _ => rfl

theorem isOutline_strike (v : Json) :
    (v.strike rejected).document.isOutline = v.document.isOutline := by
  cases v with
  | object members =>
    simp [strike, document_object, Document.isOutline, Function.comp_def, documentMember,
      Document.keyText?]
  | list items => simp [strike, document_list, Document.isOutline]
  | _ => rfl

theorem WellFormed.strikeSection (hv : v.WellFormed) :
    (v.strikeSection rejected heading).WellFormed := by
  cases v with
  | list items =>
    refine wellFormed_list_iff.2 fun item hi => wellFormed_list_iff.1 hv item ?_
    obtain ⟨e, he, rfl⟩ := List.mem_map.1 hi
    exact List.mem_of_getElem? (List.mem_zipIdx_iff_getElem?.1 (List.mem_filter.1 he).1)
  | _ => exact hv

/-- What is left of a value that a text can spell is such a value. -/
theorem WellFormed.strike (hv : v.WellFormed) : (v.strike rejected).WellFormed := by
  cases v with
  | object members =>
    obtain ⟨hasc, hmembers⟩ := wellFormed_object_iff.1 hv
    refine wellFormed_object_iff.2 ⟨List.pairwise_map.2 hasc, fun e he => ?_⟩
    obtain ⟨m, hm, rfl⟩ := List.mem_map.1 he
    exact (hmembers m hm).strikeSection
  | list sections =>
    refine wellFormed_list_iff.2 fun s hs => ?_
    obtain ⟨e, he, rfl⟩ := List.mem_map.1 hs
    exact (wellFormed_list_iff.1 hv _
      (List.mem_of_getElem? (List.mem_zipIdx_iff_getElem?.1 he))).strikeSection
  | _ => exact hv

theorem WellFormed.of_mem_under (hv : v.WellFormed) {w : Json} (hw : w ∈ v.under heading place) :
    w.WellFormed := by
  cases v with
  | object members =>
    obtain ⟨m, hm, rfl⟩ := List.mem_map.1 hw
    exact (wellFormed_object_iff.1 hv).2 m (List.mem_filter.1 hm).1
  | list items =>
    exact wellFormed_list_iff.1 hv w (List.mem_of_getElem? (Option.mem_toList.1 hw))
  | _ => exact nomatch hw

theorem WellFormed.asList_asOpen_eq_ok_iff (hv : v.WellFormed) {entries : List Json} :
    v.document.asList Document.asOpen = .ok entries ↔ v = .list entries := by
  cases v with
  | list items => rw [Document.asList_asOpen hv, Except.ok.injEq, list.injEq]
  | _ => exact ⟨(nomatch ·), (nomatch ·)⟩

/-- A section of what is left is the section without the entries that were set aside. -/
theorem WellFormed.section?_strike (hv : v.WellFormed)
    (hheading : Document.headings[place]? = some heading) {entries : List Json}
    (h : v.document.section? Document.asOpen heading place = some entries) :
    (v.strike rejected).document.section? Document.asOpen heading place =
      some ((entries.zipIdx.filter fun e =>
        !Rejection.strikes rejected heading e.2).map (·.1)) := by
  have hwf {w : Json} (hw : w ∈ v.under heading place) : w.WellFormed := hv.of_mem_under hw
  unfold Document.section? at h ⊢
  rw [under_document] at h
  rw [under_document, under_strike hheading]
  cases hunder : v.under heading place with
  | nil =>
    rw [hunder] at h
    obtain rfl := Option.some.inj h
    rfl
  | cons w more =>
    rw [hunder] at h hwf
    cases more with
    | cons _ _ => exact nomatch h
    | nil =>
      have hw := hwf List.mem_cons_self
      obtain rfl := hw.asList_asOpen_eq_ok_iff.1 (Form.toOption_eq_some_iff.1 h)
      exact Form.toOption_eq_some_iff.2 (hw.strikeSection.asList_asOpen_eq_ok_iff.2 rfl)

end Json

namespace Draft

variable {α : Type} {read : Document → Except Misfit α}

/-- An entry is struck out if it was refused. -/
theorem strikes_refused (heading : String) (entries : List Json) (heading' : String) (i : Nat) :
    Rejection.strikes (refused heading read entries) heading' i = true ↔ heading = heading' ∧
      ∃ v why, entries[i]? = some v ∧ read v.document = .error why := by
  simp only [Rejection.strikes, List.any_eq_true, Bool.and_eq_true, decide_eq_true_eq,
    mem_refused_iff]
  constructor
  · rintro ⟨r, ⟨rfl, v, why, hv, hwhy, -⟩, rfl, rfl⟩
    exact ⟨rfl, v, why, hv, hwhy⟩
  · rintro ⟨rfl, v, why, hv, hwhy⟩
    exact ⟨⟨_, _, some why⟩, ⟨rfl, v, why, hv, hwhy, rfl⟩, rfl, rfl⟩

/-- The entries that are read. -/
def fitting (read : Document → Except Misfit α) (entries : List Json) : List Json :=
  entries.filter fun v => (read v.document).toOption.isSome

theorem accepted_fitting (entries : List Json) :
    accepted read (fitting read entries) = accepted read entries := by
  unfold accepted fitting
  rw [List.filterMap_filter]
  refine List.filterMap_congr fun v _ => ?_
  cases read v.document <;> rfl

theorem refused_fitting (heading : String) (entries : List Json) :
    refused heading read (fitting read entries) = [] := by
  refine refused_eq_nil_iff.2 fun v hv => ?_
  obtain ⟨a, ha⟩ := Option.isSome_iff_exists.1 (List.mem_filter.1 hv).2
  exact ⟨a, Form.toOption_eq_some_iff.1 ha⟩

/-- What is left of a section if exactly the entries that do not fit are struck out. -/
theorem strike_eq_fitting {rejected : List Rejection} {heading : String} {entries : List Json}
    (h : ∀ i, Rejection.strikes rejected heading i = true ↔
      ∃ v why, entries[i]? = some v ∧ read v.document = .error why) :
    (entries.zipIdx.filter fun e => !Rejection.strikes rejected heading e.2).map (·.1) =
      fitting read entries := by
  have hfilter : (entries.zipIdx.filter fun e => !Rejection.strikes rejected heading e.2) =
      entries.zipIdx.filter fun e => (read e.1.document).toOption.isSome := by
    refine List.filter_congr fun e he => ?_
    have hv := List.mem_zipIdx_iff_getElem?.1 he
    have hstruck := h e.2
    cases hread : read e.1.document with
    | ok a =>
      have : Rejection.strikes rejected heading e.2 ≠ true := fun hstrikes => by
        obtain ⟨w, why, hw, hwhy⟩ := hstruck.1 hstrikes
        obtain rfl := Option.some.inj (hv.symm.trans hw)
        exact nomatch hread.symm.trans hwhy
      simpa [Except.toOption] using this
    | error why => simp [hstruck.2 ⟨_, why, hv, hread⟩, Except.toOption]
  have hmap := List.filter_map (f := Prod.fst) (l := entries.zipIdx)
    (p := fun v : Json => (read v.document).toOption.isSome)
  rw [List.zipIdx_map_fst] at hmap
  rw [hfilter, fitting, hmap]
  rfl

/-- The entries that fit their records. -/
def fit (D : Draft) : Draft where
  capabilities := fitting (Capability.read false) D.capabilities
  responsibilities := fitting Responsibility.read D.responsibilities
  resources := fitting ResourceKind.read D.resources

/-- Nothing is set aside of entries that fit. -/
theorem sift_fit (D : Draft) : D.fit.sift = { D.sift with rejected := [] } := by
  simp [sift, fit, accepted_fitting, refused_fitting]

/-- What a draft rejects strikes out of each section what does not fit there. -/
theorem strikes_sift (D : Draft) (i : Nat) :
    (Rejection.strikes D.sift.rejected "capabilities" i = true ↔ ∃ v why,
      D.capabilities[i]? = some v ∧ Capability.read false v.document = .error why) ∧
    (Rejection.strikes D.sift.rejected "responsibilities" i = true ↔ ∃ v why,
      D.responsibilities[i]? = some v ∧ Responsibility.read v.document = .error why) ∧
    (Rejection.strikes D.sift.rejected "resources" i = true ↔ ∃ v why,
      D.resources[i]? = some v ∧ ResourceKind.read v.document = .error why) := by
  have happend (rs rs' : List Rejection) (heading : String) :
      Rejection.strikes (rs ++ rs') heading i = true ↔
        Rejection.strikes rs heading i = true ∨ Rejection.strikes rs' heading i = true := by
    simp [Rejection.strikes]
  simp only [sift, happend, strikes_refused]
  simp

end Draft

namespace Json.WellFormed

variable {v : Json} {m : Manifest}

/-- Without the entries that were set aside a value holds the draft of those that fit. -/
theorem draft?_strike (hv : v.WellFormed) {D : Draft} (h : v.document.draft? = some D) :
    (v.strike D.sift.rejected).document.draft? = some D.fit := by
  obtain ⟨houtline, hcs, hrs, hks⟩ := Document.draft?_eq_some_iff.1 h
  refine Document.draft?_eq_some_iff.2 ⟨(isOutline_strike v).trans houtline, ?_, ?_, ?_⟩
  · rw [hv.section?_strike rfl hcs, Draft.strike_eq_fitting fun i => (D.strikes_sift i).1]
    rfl
  · rw [hv.section?_strike rfl hrs, Draft.strike_eq_fitting fun i => (D.strikes_sift i).2.1]
    rfl
  · rw [hv.section?_strike rfl hks, Draft.strike_eq_fitting fun i => (D.strikes_sift i).2.2]
    rfl

/-- What is read strictly is what is read tolerantly with nothing set aside. -/
theorem strict_eq_ok_iff (hv : v.WellFormed) : Manifest.strict v.document = .ok m ↔
    Manifest.tolerant Format.json.entry v.document = .ok m ∧ m.rejected = [] := by
  have hd := Document.isOpen_document hv
  rw [hd.strict_eq_ok_iff, Manifest.tolerant_eq_ok_iff hd.isExplicit]
  constructor
  · rintro ⟨D, hD, hm, hrejected⟩
    exact ⟨⟨D, hD, hm⟩, hrejected⟩
  · rintro ⟨⟨D, hD, hm⟩, hrejected⟩
    exact ⟨D, hD, hm, hrejected⟩

/-- What is not read strictly is not read tolerantly either, or something is set aside of it. -/
theorem exists_strict_eq_error_iff (hv : v.WellFormed) :
    (∃ why, Manifest.strict v.document = .error why) ↔
      (∃ why, Manifest.tolerant Format.json.entry v.document = .error why) ∨
        ∃ m, Manifest.tolerant Format.json.entry v.document = .ok m ∧ m.rejected ≠ [] := by
  cases htolerant : Manifest.tolerant Format.json.entry v.document with
  | error why =>
    cases hstrict : Manifest.strict v.document with
    | error _ => simp
    | ok m => exact nomatch htolerant.symm.trans (hv.strict_eq_ok_iff.1 hstrict).1
  | ok m =>
    cases hstrict : Manifest.strict v.document with
    | error _ =>
      have hrejected : m.rejected ≠ [] := fun hnil =>
        nomatch hstrict.symm.trans (hv.strict_eq_ok_iff.2 ⟨htolerant, hnil⟩)
      simp [hrejected]
    | ok m' =>
      obtain ⟨hm', hnil⟩ := hv.strict_eq_ok_iff.1 hstrict
      obtain rfl := Except.ok.inj (htolerant.symm.trans hm')
      simp [hnil]

/-- Without the entries that were set aside a value is read as the manifest of the others. -/
theorem tolerant_strike (hv : v.WellFormed)
    (h : Manifest.tolerant Format.json.entry v.document = .ok m) :
    Manifest.tolerant Format.json.entry (v.strike m.rejected).document =
      .ok { m with rejected := [] } := by
  have hd := Document.isOpen_document hv
  have hleft : (v.strike m.rejected).document.IsOpen := Document.isOpen_document hv.strike
  obtain ⟨D, hD, rfl⟩ := (Manifest.tolerant_eq_ok_iff hd.isExplicit).1 h
  exact (Manifest.tolerant_eq_ok_iff hleft.isExplicit).2 ⟨D.fit, hv.draft?_strike hD, D.sift_fit⟩

end Json.WellFormed

/-- Strict and tolerant reading of an open value agree. The value is read strictly if it is read
tolerantly and nothing is set aside, and then as the same manifest; it is not if it is not read
tolerantly or something is set aside; and once exactly the entries that were set aside are struck
out of it, both readings accept it as the manifest of the others. -/
theorem strict_agrees_with_tolerant {v : Json} (hv : v.WellFormed) :
    (∀ m, Manifest.strict v.document = .ok m ↔
      Manifest.tolerant Format.json.entry v.document = .ok m ∧ m.rejected = []) ∧
    ((∃ why, Manifest.strict v.document = .error why) ↔
      (∃ why, Manifest.tolerant Format.json.entry v.document = .error why) ∨
        ∃ m, Manifest.tolerant Format.json.entry v.document = .ok m ∧ m.rejected ≠ []) ∧
    ∀ m, Manifest.tolerant Format.json.entry v.document = .ok m →
      Manifest.strict (v.strike m.rejected).document = .ok { m with rejected := [] } ∧
        Manifest.tolerant Format.json.entry (v.strike m.rejected).document =
          .ok { m with rejected := [] } := by
  refine ⟨fun m => hv.strict_eq_ok_iff, hv.exists_strict_eq_error_iff, fun m hm => ?_⟩
  have hleft := hv.tolerant_strike hm
  exact ⟨hv.strike.strict_eq_ok_iff.2 ⟨hleft, rfl⟩, hleft⟩

/-- A manifest of which one capability and one kind of resource do not fit. -/
def tornManifest : Json :=
  .object
    [("capabilities", .list [.object [("name", .text "boil")], .int 3, .list [.text "pour"]]),
      ("notes", .null),
      ("resources", .list [.object [("name", .bool true)], .object [("name", .text "kettle")]])]

theorem strict_agrees_with_tolerant_torn :
    (∃ why, Manifest.strict tornManifest.document = .error why) ∧
    ∃ m, Manifest.tolerant Format.json.entry tornManifest.document = .ok m ∧
      m.rejected.map (fun r => (r.heading, r.index)) = [("capabilities", 1), ("resources", 0)] ∧
      m.capabilities.map Capability.name = ["boil", "pour"] ∧
      Manifest.strict (tornManifest.strike m.rejected).document =
        .ok { m with rejected := [] } := by
  have htorn : tornManifest.WellFormed := by
    refine ⟨?_, by simp [tornManifest, Json.Finite], by simp [tornManifest, Json.Sized]⟩
    simp only [tornManifest, Json.Canonical, Json.CanonicalItems, Json.CanonicalMembers]
    decide
  obtain ⟨m, hm, hrejected, hkept⟩ : ∃ m,
      Manifest.tolerant Format.json.entry tornManifest.document = .ok m ∧
        m.rejected.map (fun r => (r.heading, r.index)) = [("capabilities", 1), ("resources", 0)] ∧
        m.capabilities.map Capability.name = ["boil", "pour"] := ⟨_, rfl, rfl, rfl⟩
  obtain ⟨-, hfails, hstrike⟩ := strict_agrees_with_tolerant htorn
  refine ⟨hfails.2 (.inr ⟨m, hm, fun hnil => ?_⟩), m, hm, hrejected, hkept, (hstrike m hm).1⟩
  rw [hnil] at hrejected
  cases hrejected

end Foreman
