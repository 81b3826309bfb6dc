import Foreman.Proofs.Toml.Lines
import Mathlib.Data.List.Nodup
/-!
# Sectioned texts are read back

A table of tables, each of which has a section of its own, is written section by section. The text
is read back as the document that was written: the lines are, and the tree that grows from them is
that of the table, since every heading is new and so is every key below it.

## Main definitions

* `Foreman.Toml.Sectioned`: tables that have a section of their own each.

## Main results

* `Foreman.Toml.addKeys?_assignments`: keys of different names are put one after another.
* `Foreman.Toml.foldlM_addBlock?`: so are tables under headings of different names.
* `Foreman.Toml.readDocument?_write?`: a text of sections is read back.
* `Foreman.Toml.isSome_write?`: it can be written if all its values can.
-/

namespace Foreman.Toml

variable {name key : String} {members : List (String × Item)}

/-- Tables with keys and values of their own, each with a name of its own. No name and no key needs
quotes. -/
structure Sectioned (parts : List (String × List (String × Item))) : Prop where
  /-- There is a table. -/
  nonempty : parts ≠ []
  /-- The names need no quotes. -/
  bare : ∀ p ∈ parts, isBareKey p.1 = true
  /-- The names differ. -/
  nodup : (parts.map Prod.fst).Nodup
  /-- No table holds another one. -/
  values : ∀ p ∈ parts, ∀ m ∈ p.2, m.2.isValue = true
  /-- The keys need no quotes. -/
  bareKeys : ∀ p ∈ parts, ∀ m ∈ p.2, isBareKey m.1 = true
  /-- The keys of a table differ. -/
  nodupKeys : ∀ p ∈ parts, (p.2.map Prod.fst).Nodup

/-! ### The tree -/

theorem lookup_eq_none_of_notMem {ms : Members} (h : key ∉ ms.map Prod.fst) :
    ms.lookup key = none := by
  rw [List.lookup_eq_none_iff]
  intro m hm
  rw [bne_iff_ne]
  rintro rfl
  exact h (List.mem_map_of_mem hm)

/-- A new member is put after all others. -/
theorem put_of_notMem {ms : Members} (h : key ∉ ms.map Prod.fst) (n : Node) :
    put key n ms = ms ++ [(key, n)] := by
  induction ms with
  | nil => rfl
  | cons m ms ih =>
    obtain ⟨k, m⟩ := m
    rw [List.map_cons, List.mem_cons, not_or] at h
    rw [put, if_neg (Ne.symm h.1), ih h.2]
    rfl

/-- The members of a table as members of the tree. -/
def nodes (members : List (String × Item)) : Members :=
  members.map fun m => (m.1, .value m.2.document)

theorem addKey?_of_notMem {ms : Members} (h : key ∉ ms.map Prod.fst) (d : Document) :
    addKey? [] key d ms = some (ms ++ [(key, .value d)]) := by
  simp [addKey?, descend?, lookup_eq_none_of_notMem h, put_of_notMem h]

/-- Keys of different names are put one after another. -/
theorem addKeys?_assignments {ms : Members}
    (h : (ms.map Prod.fst ++ members.map Prod.fst).Nodup) :
    addKeys? ms (assignments members) = some (ms ++ nodes members) := by
  induction members generalizing ms with
  | nil => simp [addKeys?, assignments, nodes]
  | cons m members ih =>
    have hnew : m.1 ∉ ms.map Prod.fst := fun hmem =>
      (List.nodup_append.1 h).2.2 _ hmem _ List.mem_cons_self rfl
    have hrest : ((ms ++ [(m.1, Node.value m.2.document)]).map Prod.fst ++
        members.map Prod.fst).Nodup := by
      simpa using h
    have hstep : addKeys? ms (assignments (m :: members)) =
        (addKey? [] m.1 m.2.document ms).bind fun ms => addKeys? ms (assignments members) := rfl
    rw [hstep, addKey?_of_notMem hnew, Option.bind_some, ih hrest]
    simp [nodes]

/-- The heading of a table with its keys below it. -/
def block (name : String) (p : String × List (String × Item)) : Block :=
  ⟨some (false, ⟨[name], p.1⟩), assignments p.2⟩

/-- A table as a member of the tree, which a heading names. -/
def partNode (p : String × List (String × Item)) : String × Node :=
  (p.1, .table .heading (nodes p.2))

variable {p : String × List (String × Item)} {parts : List (String × List (String × Item))}

/-- The first heading makes a table that it passes through. -/
theorem addBlock?_first (name : String) (h : (p.2.map Prod.fst).Nodup) :
    addBlock? [] (block name p) = some [(name, .table .passing [partNode p])] := by
  have hkeys : addKeys? [] (assignments p.2) = some (nodes p.2) := addKeys?_assignments h
  simp [addBlock?, block, addSection?, descend?, hkeys, put, partNode]

/-- The next one passes through the same table. -/
theorem addBlock?_next (name : String) {done : Members} (h : (p.2.map Prod.fst).Nodup)
    (hnew : p.1 ∉ done.map Prod.fst) :
    addBlock? [(name, .table .passing done)] (block name p) =
      some [(name, .table .passing (done ++ [partNode p]))] := by
  have hkeys : addKeys? [] (assignments p.2) = some (nodes p.2) := addKeys?_assignments h
  simp [addBlock?, block, addSection?, descend?, hkeys, put, partNode,
    lookup_eq_none_of_notMem hnew, put_of_notMem hnew]

/-- Tables of different names are put one after another. -/
theorem foldlM_addBlock? (name : String) {done : Members}
    (hkeys : ∀ p ∈ parts, (p.2.map Prod.fst).Nodup)
    (h : (done.map Prod.fst ++ parts.map Prod.fst).Nodup) :
    (parts.map (block name)).foldlM addBlock? [(name, .table .passing done)] =
      some [(name, .table .passing (done ++ parts.map partNode))] := by
  induction parts generalizing done with
  | nil => simp
  | cons p parts ih =>
    obtain ⟨hp, hparts⟩ := List.forall_mem_cons.1 hkeys
    have hnew : p.1 ∉ done.map Prod.fst := fun hmem =>
      (List.nodup_append.1 h).2.2 _ hmem _ List.mem_cons_self rfl
    have hrest : ((done ++ [partNode p]).map Prod.fst ++ parts.map Prod.fst).Nodup := by
      simpa [partNode] using h
    rw [List.map_cons, List.foldlM_cons, addBlock?_next name hp hnew]
    simpa using ih hparts hrest

/-- The tree that grows from the sections of some tables. -/
theorem foldlM_addBlock?_sectioned (h : Sectioned parts) (name : String) :
    (⟨none, []⟩ :: parts.map (block name)).foldlM addBlock? [] =
      some [(name, .table .passing (parts.map partNode))] := by
  obtain ⟨p, rest, rfl⟩ := List.exists_cons_of_ne_nil h.nonempty
  obtain ⟨hp, hrest⟩ := List.forall_mem_cons.1 h.nodupKeys
  have hfold : (rest.map (block name)).foldlM addBlock? [(name, .table .passing [partNode p])] =
      some [(name, .table .passing ([partNode p] ++ rest.map partNode))] :=
    foldlM_addBlock? name hrest h.nodup
  have hnone : addBlock? [] ⟨none, []⟩ = some [] := rfl
  rw [List.foldlM_cons, hnone, List.map_cons]
  simpa [addBlock?_first name hp] using hfold

/-! ### Documents -/

theorem membersDocument_nodes (members : List (String × Item)) :
    membersDocument (nodes members) = memberDocuments members := by
  induction members with
  | nil => rfl
  | cons m members ih =>
    simpa [nodes, membersDocument, memberDocuments, Node.document] using ih

theorem membersDocument_partNode (parts : List (String × List (String × Item))) :
    membersDocument (parts.map partNode) =
      memberDocuments (parts.map fun p => (p.1, .table p.2)) := by
  induction parts with
  | nil => rfl
  | cons p parts ih =>
    simpa [partNode, membersDocument, memberDocuments, Node.document, Item.document,
      membersDocument_nodes] using ih

/-! ### Texts of sections -/

/-- A text is the section of a table. -/
def IsSection (name : String) (p : String × List (String × Item)) (s : String) : Prop :=
  ∃ own, writeOwn? p.2 = some own ∧ s = headingLine name p.1 ++ own

theorem writeOwn?_parts (parts : List (String × List (String × Item))) :
    writeOwn? (parts.map fun p => (p.1, .table p.2)) = some "" := by
  induction parts with
  | nil => rfl
  | cons p parts ih => simpa [writeOwn?] using ih

theorem innerSections?_values (path : List String) (h : ∀ m ∈ members, m.2.isValue = true) :
    innerSections? path members = some [] := by
  induction members with
  | nil => rfl
  | cons m members ih =>
    obtain ⟨key, item⟩ := m
    obtain ⟨hvalue, hrest⟩ := List.forall_mem_cons.1 h
    cases item with
    | table inner => cases hvalue
    | _ => simp [innerSections?, sections?, ih hrest]

/-- A table without tables has one section. -/
theorem sections?_part (hname : isBareKey name = true) (hp : isBareKey p.1 = true)
    (h : ∀ m ∈ p.2, m.2.isValue = true) :
    sections? [name, p.1] (.table p.2) =
      (writeOwn? p.2).map fun own => [headingLine name p.1 ++ own] := by
  have hheading : "[" ++ String.intercalate "." ([name, p.1].map writeKey) ++ "]\n" =
      headingLine name p.1 := by
    simp [writeKey, hname, hp, headingLine, String.intercalate_cons_cons, String.append_assoc]
  rw [sections?, innerSections?_values _ h, hheading]
  cases writeOwn? p.2 <;> simp

theorem forall₂_of_innerSections? (hname : isBareKey name = true)
    (hbare : ∀ p ∈ parts, isBareKey p.1 = true)
    (hvalues : ∀ p ∈ parts, ∀ m ∈ p.2, m.2.isValue = true) {sections : List String}
    (h : innerSections? [name] (parts.map fun p => (p.1, .table p.2)) = some sections) :
    List.Forall₂ (IsSection name) parts sections := by
  induction parts generalizing sections with
  | nil =>
    obtain rfl := Option.some.inj h
    exact .nil
  | cons p parts ih =>
    obtain ⟨hp, hbare⟩ := List.forall_mem_cons.1 hbare
    obtain ⟨hmembers, hvalues⟩ := List.forall_mem_cons.1 hvalues
    rw [List.map_cons, innerSections?] at h
    obtain ⟨these, hthese, h⟩ := Option.bind_eq_some_iff.1 h
    obtain ⟨those, hthose, h⟩ := Option.bind_eq_some_iff.1 h
    rw [List.singleton_append, sections?_part hname hp hmembers] at hthese
    obtain ⟨own, hown, rfl⟩ := Option.map_eq_some_iff.1 hthese
    obtain rfl := Option.some.inj h
    exact .cons ⟨own, hown, rfl⟩ (ih hbare hvalues hthose)

/-- A table that has nothing but tables has no section of its own. -/
theorem sections?_parts {sections : List String} (hne : sections ≠ [])
    (h : innerSections? [name] (parts.map fun p => (p.1, .table p.2)) = some sections) :
    sections? [name] (.table (parts.map fun p => (p.1, .table p.2))) = some sections := by
  rw [sections?, writeOwn?_parts, h]
  simp [hne]

/-- The text of some tables is that of their sections. -/
theorem write?_eq (h : Sectioned parts) (hname : isBareKey name = true) :
    write? (.table [(name, .table (parts.map fun p => (p.1, .table p.2)))]) =
      (innerSections? [name] (parts.map fun p => (p.1, .table p.2))).map
        (String.intercalate "\n") := by
  cases hinner : innerSections? [name] (parts.map fun p => (p.1, Item.table p.2)) with
  | none => simp [write?, sections?, innerSections?, writeOwn?, hinner]
  | some sections =>
    have hne : sections ≠ [] := by
      rintro rfl
      have hsections := forall₂_of_innerSections? hname h.bare h.values hinner
      exact h.nonempty (List.forall₂_nil_right_iff.1 hsections)
    simp [write?, sections?.eq_1 [], innerSections?, writeOwn?, sections?_parts hne hinner]

/-- How many headings and keys there are. -/
def lineCount (parts : List (String × List (String × Item))) : ℕ :=
  (parts.map fun p => p.2.length + 1).sum

theorem lines?_lineEnd (fuel : ℕ) (cs : List Char) :
    lines? (fuel + 1) ('\n' :: cs) = lines? (fuel + 1) cs := by
  rw [lines?, lines?, skipAllFiller_lineEnd]

/-- The sections of some tables are read back, with an empty line before each. -/
theorem lines?_sections (hname : isBareKey name = true) (hbare : ∀ p ∈ parts, isBareKey p.1 = true)
    (hvalues : ∀ p ∈ parts, ∀ m ∈ p.2, m.2.isValue = true)
    (hkeys : ∀ p ∈ parts, ∀ m ∈ p.2, isBareKey m.1 = true) {sections : List String}
    (h : List.Forall₂ (IsSection name) parts sections) (fuel : ℕ) :
    lines? (fuel + lineCount parts + 1) (sections.flatMap fun s => '\n' :: s.toList) =
      some ([], parts.map (block name)) := by
  induction h with
  | nil => rfl
  | @cons p s parts sections hs _ ih =>
    obtain ⟨own, hown, rfl⟩ := hs
    obtain ⟨hp, hbare⟩ := List.forall_mem_cons.1 hbare
    obtain ⟨hmembers, hvalues⟩ := List.forall_mem_cons.1 hvalues
    obtain ⟨hmemberKeys, hkeys⟩ := List.forall_mem_cons.1 hkeys
    have hfuel : fuel + lineCount (p :: parts) + 1 =
        fuel + lineCount parts + 1 + p.2.length + 1 := by
      simp only [lineCount, List.map_cons, List.sum_cons]
      omega
    rw [List.flatMap_cons, List.cons_append, hfuel, lines?_lineEnd, String.toList_append,
      List.append_assoc, lines?_heading hname hp, lines?_writeOwn? hown hmembers hmemberKeys,
      ih hbare hvalues hkeys]
    simp [block]

/-- There are more characters than headings and keys. -/
theorem lineCount_add_length_le (hvalues : ∀ p ∈ parts, ∀ m ∈ p.2, m.2.isValue = true)
    {sections : List String} (h : List.Forall₂ (IsSection name) parts sections) :
    lineCount parts + parts.length ≤ (sections.flatMap fun s => '\n' :: s.toList).length := by
  induction h with
  | nil => exact Nat.le_refl 0
  | @cons p s parts sections hs _ ih =>
    obtain ⟨own, hown, rfl⟩ := hs
    obtain ⟨hmembers, hvalues⟩ := List.forall_mem_cons.1 hvalues
    have hlength := length_le_writeOwn? hown hmembers
    have hrest := ih hvalues
    have hheading : 0 < (headingLine name p.1).toList.length := by simp [headingLine]
    simp only [lineCount, List.map_cons, List.sum_cons, List.flatMap_cons, List.length_append,
      List.length_cons, String.toList_append] at hrest ⊢
    omega

theorem flatMap_lineEnd {sections : List String} (h : sections ≠ []) :
    sections.flatMap (fun s => '\n' :: s.toList) =
      '\n' :: (String.intercalate "\n" sections).toList := by
  induction sections with
  | nil => exact absurd rfl h
  | cons s sections ih =>
    cases sections with
    | nil => simp
    | cons t sections =>
      rw [List.flatMap_cons, ih (List.cons_ne_nil _ _), String.intercalate_cons_cons]
      simp

/-- A text of sections is read back. -/
theorem readDocument?_write? (h : Sectioned parts) (hname : isBareKey name = true) {s : String}
    (hs : write? (.table [(name, .table (parts.map fun p => (p.1, .table p.2)))]) = some s) :
    readDocument? s =
      some (Item.table [(name, .table (parts.map fun p => (p.1, .table p.2)))]).document := by
  rw [write?_eq h hname] at hs
  obtain ⟨sections, hinner, rfl⟩ := Option.map_eq_some_iff.1 hs
  have hsections := forall₂_of_innerSections? hname h.bare h.values hinner
  have hpos : 0 < parts.length := List.length_pos_iff.2 h.nonempty
  have hne : sections ≠ [] := List.length_pos_iff.1 (hsections.length_eq ▸ hpos)
  have htext := flatMap_lineEnd hne
  have hlines (fuel : ℕ) : lines? (fuel + lineCount parts + 1)
      (String.intercalate "\n" sections).toList = some ([], parts.map (block name)) := by
    rw [← lines?_lineEnd, ← htext]
    exact lines?_sections hname h.bare h.values h.bareKeys hsections fuel
  have hcount := lineCount_add_length_le h.values hsections
  rw [htext, List.length_cons] at hcount
  obtain ⟨fuel, hfuel⟩ := Nat.exists_eq_add_of_le'
    (show lineCount parts ≤ (String.intercalate "\n" sections).toList.length by omega)
  -- the text starts with a bracket, so there is no mark in front of it
  obtain ⟨cs, hcs⟩ : ∃ cs, (String.intercalate "\n" sections).toList = '[' :: cs := by
    cases hsections with
    | nil => exact absurd rfl hne
    | cons hsection _ =>
      obtain ⟨own, -, rfl⟩ := hsection
      rw [List.flatMap_cons, List.cons_append] at htext
      rw [← (List.cons.inj htext).2]
      simp [headingLine]
  have hmark : ('[' : Char) ≠ byteOrderMark := by decide
  have hread := hlines fuel
  rw [← hfuel, hcs] at hread
  simp only [readDocument?, hcs, if_neg hmark, hread, Option.bind_eq_bind, Option.bind_some,
    foldlM_addBlock?_sectioned h]
  simp [Members.document, membersDocument, Item.document, memberDocuments, Node.document,
    membersDocument_partNode]

/-! ### What can be written -/

theorem isSome_writeValue?_flag (b : Bool) : (writeValue? (.flag b)).isSome = true := by
  cases b <;> rfl

theorem isSome_writeValue?_texts (items : List String) :
    (writeValue? (.texts items)).isSome = true :=
  rfl

/-- A number that is not below zero can be written if it has 63 bits. -/
theorem isSome_writeValue?_natCast (n : ℕ) :
    (writeValue? (.int n)).isSome = true ↔ n < 2 ^ 63 := by
  have hpow : Int.pow 2 63 = 2 ^ 63 := rfl
  rw [writeValue?, hpow]
  split
  · simp
    omega
  · simp
    omega

/-- The lines of a table can be written if its values can. -/
theorem isSome_writeOwn? (hvalues : ∀ m ∈ members, m.2.isValue = true) :
    (writeOwn? members).isSome = true ↔ ∀ m ∈ members, (writeValue? m.2).isSome = true := by
  induction members with
  | nil => simp [writeOwn?]
  | cons m members ih =>
    obtain ⟨key, item⟩ := m
    obtain ⟨hvalue, hvalues⟩ := List.forall_mem_cons.1 hvalues
    rw [List.forall_mem_cons, ← ih hvalues, writeOwn?_cons hvalue]
    cases writeValue? item <;> cases writeOwn? members <;> simp

theorem isSome_innerSections? (hname : isBareKey name = true)
    (hbare : ∀ p ∈ parts, isBareKey p.1 = true)
    (hvalues : ∀ p ∈ parts, ∀ m ∈ p.2, m.2.isValue = true) :
    (innerSections? [name] (parts.map fun p => (p.1, .table p.2))).isSome = true ↔
      ∀ p ∈ parts, ∀ m ∈ p.2, (writeValue? m.2).isSome = true := by
  induction parts with
  | nil => simp [innerSections?]
  | cons p parts ih =>
    obtain ⟨hp, hbare⟩ := List.forall_mem_cons.1 hbare
    obtain ⟨hmembers, hvalues⟩ := List.forall_mem_cons.1 hvalues
    rw [List.forall_mem_cons, ← ih hbare hvalues, ← isSome_writeOwn? hmembers, List.map_cons,
      innerSections?, List.singleton_append, sections?_part hname hp hmembers]
    cases writeOwn? p.2 <;>
      cases innerSections? [name] (parts.map fun p => (p.1, Item.table p.2)) <;> simp

/-- A text of sections can be written if all values can. -/
theorem isSome_write? (h : Sectioned parts) (hname : isBareKey name = true) :
    (write? (.table [(name, .table (parts.map fun p => (p.1, .table p.2)))])).isSome = true ↔
      ∀ p ∈ parts, ∀ m ∈ p.2, (writeValue? m.2).isSome = true := by
  rw [write?_eq h hname, Option.isSome_map, isSome_innerSections? hname h.bare h.values]

end Foreman.Toml
