import Foreman.Library
import Mathlib.Logic.Basic
/-!
# Playbooks in folders

In a folder a name stands for one of three files, and the first of them that is there decides: if it
cannot be read, or its text is no playbook, that is the answer, even if a later one would do. Only
where none of the three is there is there no playbook. So nothing else in the folder matters, not
even a later one of the three. The files asked for lie in the folder itself, for a name that could
lead anywhere else is refused before any file is asked for.

## Main definitions

* `Foreman.Folder.Lacks`, `Foreman.Folder.Unreadable`, `Foreman.Folder.Spells`: what becomes of a
  file that is asked for.
* `Foreman.Folder.follow`: where a path leads.
* `Foreman.Library.ComesTo`: what some files come to, of which the first that is there decides.

## Main results

* `Foreman.Library.comesTo_iff`: looking for a playbook is letting the first file decide.
* `Foreman.Library.follow_of_not_misleads`: the files of a name that does not mislead lie in the
  folder itself.
* `Foreman.Library.first_manifest_decides`: all of it, for every folder and every name.
-/

namespace Foreman

/-! ### Files -/

namespace Folder

variable {files files' : Folder} {file s : String}

/-- A file can have a name: it is not too long, and no character ends it early. -/
def IsFileName (file : String) : Prop :=
  file.utf8ByteSize ≤ longestName ∧ '\x00' ∉ file.toList

/-- A file that could be there is not. -/
def Lacks (files : Folder) (file : String) : Prop :=
  IsFileName file ∧ files.get? file = none

/-- A file cannot be read: no file can have that name, or what is there is a folder or no text. -/
def Unreadable (files : Folder) (file : String) : Prop :=
  ¬ IsFileName file ∨ files.get? file = some .garbled ∨ files.get? file = some .folder

/-- A file is there and holds a text. -/
def Spells (files : Folder) (file s : String) : Prop :=
  IsFileName file ∧ files.get? file = some (.text s)

instance : Decidable (IsFileName file) := inferInstanceAs (Decidable (_ ∧ _))

instance : Decidable (files.Lacks file) := inferInstanceAs (Decidable (_ ∧ _))

instance : Decidable (files.Unreadable file) := inferInstanceAs (Decidable (_ ∨ _ ∨ _))

instance : Decidable (files.Spells file s) := inferInstanceAs (Decidable (_ ∧ _))

theorem text?_of_not_isFileName (h : ¬ IsFileName file) :
    files.text? file = .error .unreadableFile := by
  have hbad : file.utf8ByteSize > longestName ∨ file.toList.contains '\x00' = true := by
    rw [IsFileName, Classical.not_and_iff_not_or_not] at h
    simpa using h
  rw [text?, if_pos hbad]

theorem text?_of_isFileName (h : IsFileName file) :
    files.text? file =
      match files.get? file with
      | none => .ok none
      | some (.text s) => .ok (some s)
      | some .garbled | some .folder => .error .unreadableFile := by
  have hgood : ¬ (file.utf8ByteSize > longestName ∨ file.toList.contains '\x00' = true) := by
    simpa [IsFileName] using h
  exact if_neg hgood

theorem text?_of_lacks (h : files.Lacks file) : files.text? file = .ok none := by
  rw [text?_of_isFileName h.1, h.2]

theorem text?_of_unreadable (h : files.Unreadable file) :
    files.text? file = .error .unreadableFile := by
  by_cases hname : IsFileName file
  · rcases h with hbad | hgarbled | hfolder
    · exact absurd hname hbad
    · rw [text?_of_isFileName hname, hgarbled]
    · rw [text?_of_isFileName hname, hfolder]
  · exact text?_of_not_isFileName hname

theorem text?_of_spells (h : files.Spells file s) : files.text? file = .ok (some s) := by
  rw [text?_of_isFileName h.1, h.2]

/-- A file that is asked for is not there, or cannot be read, or holds a text. -/
theorem lacks_or_unreadable_or_spells (files : Folder) (file : String) :
    files.Lacks file ∨ files.Unreadable file ∨ ∃ s, files.Spells file s := by
  by_cases hname : IsFileName file
  · rcases hget : files.get? file with _ | ⟨s⟩ | _ | _
    · exact .inl ⟨hname, hget⟩
    · exact .inr (.inr ⟨s, hname, hget⟩)
    · exact .inr (.inl (.inr (.inl hget)))
    · exact .inr (.inl (.inr (.inr hget)))
  · exact .inr (.inl (.inl hname))

theorem text?_congr (h : files.get? file = files'.get? file) :
    files.text? file = files'.text? file := by
  rw [text?, text?, h]

/-! ### Paths -/

/-- Whether a character stands between the parts of a path, on some machine. -/
def isSeparator (c : Char) : Bool :=
  c = '/' || c = '\\'

/-- One part of a path is followed: nothing and a dot stay, two dots lead up, and a name leads
down. A place is given by the names on the way there from the top. -/
def followPart (place : List String) (part : List Char) : List String :=
  if part = [] ∨ part = ['.'] then place
  else if part = ['.', '.'] then place.dropLast
  else place ++ [String.ofList part]

/-- Where a path leads from a place. One that starts with a separator leads there from the top. -/
def follow (place : List String) (path : String) : List String :=
  (path.toList.splitOnP isSeparator).foldl followPart
    (if path.toList.head?.any isSeparator then [] else place)

/-- A path of one part that is neither nothing nor made of dots leads to that entry of a place. -/
theorem follow_of_single {path : String} (hseparator : ∀ c ∈ path.toList, isSeparator c = false)
    (hhead : ∃ c rest, path.toList = c :: rest ∧ c ≠ '.') (place : List String) :
    follow place path = place ++ [path] := by
  obtain ⟨c, rest, hpath, hdot⟩ := hhead
  have hparts : path.toList.splitOnP isSeparator = [path.toList] :=
    List.splitOnP_eq_singleton fun d hd => by simp [hseparator d hd]
  have hstart : path.toList.head?.any isSeparator = false := by
    simp [hpath, hseparator c (by simp [hpath])]
  have hpart : followPart place path.toList = place ++ [path] := by
    have hplain : ¬ (path.toList = [] ∨ path.toList = ['.']) ∧ path.toList ≠ ['.', '.'] := by
      simp [hpath, hdot]
    rw [followPart, if_neg hplain.1, if_neg hplain.2, String.ofList_toList]
  simp [follow, hparts, hstart, hpart]

example : follow ["books"] "../etc/passwd" = ["etc", "passwd"] := by decide

end Folder

namespace Library

variable {files files' : Folder} {name file s : String} {format : Format}
  {r : Except Failure Playbook} {es : List (String × Format)}

/-! ### Names -/

/-- A name stands for nothing in a folder, or might lead out of it. -/
def Misleads (name : String) : Prop :=
  name = "" ∨ '/' ∈ name.toList ∨ '\\' ∈ name.toList ∨ name.toList.head? = some '.'

instance : Decidable (Misleads name) := inferInstanceAs (Decidable (_ ∨ _ ∨ _ ∨ _))

theorem isBadName_eq_true_iff : isBadName name = true ↔ Misleads name := by
  have hempty : name = "" ↔ name.toList = [] := by simp
  unfold isBadName Misleads
  rw [hempty]
  cases name.toList with
  | nil => simp
  | cons c rest =>
    simp only [List.contains_iff_mem, Bool.or_eq_true, decide_eq_true_eq, List.head?_cons,
      Option.some.injEq, reduceCtorEq, false_or]
    rw [or_assoc, or_comm, or_assoc]

/-- The files that a name may stand for, in order, and their formats. -/
def manifests (name : String) : List (String × Format) :=
  [(name ++ ".yaml", .yaml), (name ++ ".yml", .yaml), (name ++ ".json", .json)]

/-- The files of a name that does not mislead lie in the folder itself. -/
theorem follow_of_not_misleads (h : ¬ Misleads name) {m : String × Format}
    (hm : m ∈ manifests name) (place : List String) :
    Folder.follow place m.1 = place ++ [m.1] := by
  obtain ⟨hne, hslash, hbackslash, hdot⟩ :
      name ≠ "" ∧ '/' ∉ name.toList ∧ '\\' ∉ name.toList ∧ name.toList.head? ≠ some '.' := by
    simpa [Misleads] using h
  obtain ⟨c, rest, hname⟩ := List.exists_cons_of_ne_nil (l := name.toList) (by simpa using hne)
  have hplain (ending : String) (h : ending.toList.all fun d => !Folder.isSeparator d) :
      ∀ d ∈ ending.toList, Folder.isSeparator d = false := by
    simpa using h
  obtain ⟨ending, hm, hending⟩ : ∃ ending, m.1 = name ++ ending ∧
      ∀ d ∈ ending.toList, Folder.isSeparator d = false := by
    simp only [manifests, List.mem_cons, List.not_mem_nil, or_false] at hm
    rcases hm with rfl | rfl | rfl <;> exact ⟨_, rfl, hplain _ (by decide)⟩
  rw [hm]
  refine Folder.follow_of_single (fun d hd => ?_) ⟨c, rest ++ ending.toList, ?_, ?_⟩ place
  · rw [String.toList_append, List.mem_append] at hd
    rcases hd with hd | hd
    · have hne (e : Char) (he : e ∉ name.toList) : d ≠ e := fun heq => he (heq ▸ hd)
      simp [Folder.isSeparator, hne _ hslash, hne _ hbackslash]
    · exact hending d hd
  · simp [hname]
  · rintro rfl
    exact hdot (by simp [hname])

/-! ### The first file decides -/

/-- What some files come to that a name may stand for: the first that is there decides. -/
inductive ComesTo (files : Folder) (name : String) :
    List (String × Format) → Except Failure Playbook → Prop
  | absent {ms} (hlacks : ∀ m ∈ ms, files.Lacks m.1) :
      ComesTo files name ms (.error (.noPlaybook name))
  | unreadable {before file format after} (hlacks : ∀ m ∈ before, files.Lacks m.1)
      (hfile : files.Unreadable file) :
      ComesTo files name (before ++ (file, format) :: after) (.error .unreadableFile)
  | misspelt {before file format after s f} (hlacks : ∀ m ∈ before, files.Lacks m.1)
      (hfile : files.Spells file s) (htext : Playbook.ofText format s = .error f) :
      ComesTo files name (before ++ (file, format) :: after) (.error f)
  | read {before file format after s p} (hlacks : ∀ m ∈ before, files.Lacks m.1)
      (hfile : files.Spells file s) (htext : Playbook.ofText format s = .ok p) :
      ComesTo files name (before ++ (file, format) :: after)
        (.ok (if p.name = "" then { p with name } else p))

/-- The files of a name with some endings. -/
def filesOf (name : String) (es : List (String × Format)) : List (String × Format) :=
  es.map fun e => (name ++ e.1, e.2)

theorem filesOf_endings (name : String) : filesOf name endings = manifests name := rfl

theorem loadFrom_cons (files : Folder) (name ending : String) (format : Format)
    (es : List (String × Format)) :
    (loadFrom files name ((ending, format) :: es)).1 =
      match files.text? (name ++ ending) with
      | .error f => .error f
      | .ok none => (loadFrom files name es).1
      | .ok (some s) => (Playbook.ofText format s).map (named name) := by
  rw [loadFrom]
  rcases files.text? (name ++ ending) with f | _ | s <;> rfl

/-- Files that are not there leave it to the others. -/
theorem loadFrom_append {before : List (String × Format)}
    (hlacks : ∀ m ∈ filesOf name before, files.Lacks m.1) (es : List (String × Format)) :
    (loadFrom files name (before ++ es)).1 = (loadFrom files name es).1 := by
  induction before with
  | nil => rfl
  | cons e before ih =>
    obtain ⟨hfile, hbefore⟩ := List.forall_mem_cons.1 hlacks
    rw [List.cons_append, loadFrom_cons, Folder.text?_of_lacks hfile]
    exact ih hbefore

theorem ComesTo.of_lacks {ms : List (String × Format)} (hfile : files.Lacks file)
    (h : ComesTo files name ms r) : ComesTo files name ((file, format) :: ms) r := by
  have hall {before : List (String × Format)} (hbefore : ∀ m ∈ before, files.Lacks m.1) :
      ∀ m ∈ (file, format) :: before, files.Lacks m.1 :=
    List.forall_mem_cons.2 ⟨hfile, hbefore⟩
  cases h with
  | absent hlacks => exact .absent (hall hlacks)
  | unreadable hlacks hthere => exact .unreadable (hall hlacks) hthere
  | misspelt hlacks hthere htext => exact .misspelt (hall hlacks) hthere htext
  | read hlacks hthere htext => exact .read (hall hlacks) hthere htext

/-- Looking for a playbook lets the first file decide that is there. -/
theorem comesTo_loadFrom (files : Folder) (name : String) (es : List (String × Format)) :
    ComesTo files name (filesOf name es) (loadFrom files name es).1 := by
  induction es with
  | nil => exact .absent fun _ hm => absurd hm List.not_mem_nil
  | cons e es ih =>
    obtain ⟨ending, format⟩ := e
    have hnone : ∀ m ∈ ([] : List (String × Format)), files.Lacks m.1 := by simp
    rw [loadFrom_cons]
    rcases files.lacks_or_unreadable_or_spells (name ++ ending) with hlacks | hunreadable | ⟨s, hs⟩
    · rw [Folder.text?_of_lacks hlacks]
      exact ih.of_lacks hlacks
    · rw [Folder.text?_of_unreadable hunreadable]
      exact .unreadable hnone hunreadable
    · rw [Folder.text?_of_spells hs]
      cases htext : Playbook.ofText format s with
      | error f =>
        simp only [htext]
        exact .misspelt hnone hs htext
      | ok p =>
        have hnamed : named name p = if p.name = "" then { p with name } else p := by
          simp [named]
        simp only [htext, Except.map, hnamed]
        exact .read hnone hs htext

theorem exists_of_filesOf_eq {before after : List (String × Format)}
    (h : filesOf name es = before ++ (file, format) :: after) :
    ∃ eb ending ea, es = eb ++ (ending, format) :: ea ∧ filesOf name eb = before ∧
      name ++ ending = file := by
  obtain ⟨eb, rest, rfl, hbefore, hrest⟩ := List.map_eq_append_iff.1 h
  obtain ⟨⟨ending, format'⟩, ea, rfl, hfile, -⟩ := List.map_eq_cons_iff.1 hrest
  obtain ⟨rfl, rfl⟩ := Prod.mk.inj hfile
  exact ⟨eb, ending, ea, rfl, hbefore, rfl⟩

/-- What the first file that is there comes to is what looking for a playbook comes to. -/
theorem comesTo_iff :
    ComesTo files name (filesOf name es) r ↔ (loadFrom files name es).1 = r := by
  refine ⟨fun h => ?_, fun h => h ▸ comesTo_loadFrom files name es⟩
  generalize hms : filesOf name es = ms at h
  cases h with
  | absent hlacks =>
    subst hms
    have hskipped := loadFrom_append hlacks []
    rwa [List.append_nil] at hskipped
  | unreadable hlacks hfile =>
    obtain ⟨eb, ending, ea, rfl, rfl, rfl⟩ := exists_of_filesOf_eq hms
    rw [loadFrom_append hlacks, loadFrom_cons, Folder.text?_of_unreadable hfile]
  | misspelt hlacks hfile htext =>
    obtain ⟨eb, ending, ea, rfl, rfl, rfl⟩ := exists_of_filesOf_eq hms
    rw [loadFrom_append hlacks, loadFrom_cons, Folder.text?_of_spells hfile]
    simp only [htext, Except.map]
  | read hlacks hfile htext =>
    obtain ⟨eb, ending, ea, rfl, rfl, rfl⟩ := exists_of_filesOf_eq hms
    rw [loadFrom_append hlacks, loadFrom_cons, Folder.text?_of_spells hfile]
    simp [htext, Except.map, named]

/-- A text that is no playbook fails for a reason that says so. -/
theorem ofText_ne_noPlaybook {s missing : String} :
    Playbook.ofText format s ≠ .error (.noPlaybook missing) := by
  unfold Playbook.ofText Format.read
  split
  · cases format <;> simp [Format.failure]
  · split
    · simp
    · cases format <;> simp [Format.failure]

/-- There is no playbook only where none of the files is there. -/
theorem loadFrom_eq_noPlaybook_iff {missing : String} :
    (loadFrom files name es).1 = .error (.noPlaybook missing) ↔
      missing = name ∧ ∀ m ∈ filesOf name es, files.Lacks m.1 := by
  rw [← comesTo_iff]
  constructor
  · intro h
    generalize hms : filesOf name es = ms at h
    cases h with
    | absent hlacks => exact ⟨rfl, hlacks⟩
    | misspelt hlacks hfile htext => exact absurd htext ofText_ne_noPlaybook
  · rintro ⟨rfl, hlacks⟩
    exact .absent hlacks

/-! ### Two folders -/

/-- Two folders hold the same under the names of some files, up to and including the first that is
there in one of them. -/
def AgreeToFirst (files files' : Folder) (ms : List (String × Format)) : Prop :=
  ∀ before m after, ms = before ++ m :: after → (∀ b ∈ before, files.Lacks b.1) →
    files.get? m.1 = files'.get? m.1

theorem agreeToFirst_cons {m : String × Format} {ms : List (String × Format)} :
    AgreeToFirst files files' (m :: ms) ↔
      files.get? m.1 = files'.get? m.1 ∧ (files.Lacks m.1 → AgreeToFirst files files' ms) := by
  constructor
  · intro h
    refine ⟨h [] m ms rfl fun b hb => absurd hb List.not_mem_nil, fun hlacks => ?_⟩
    intro before n after hms hbefore
    exact h (m :: before) n after (congrArg (m :: ·) hms)
      (List.forall_mem_cons.2 ⟨hlacks, hbefore⟩)
  · rintro ⟨hfirst, hrest⟩ (_ | ⟨b, before⟩) n after hms hbefore
    · obtain ⟨rfl, rfl⟩ := List.cons.inj hms
      exact hfirst
    · obtain ⟨rfl, rfl⟩ := List.cons.inj hms
      obtain ⟨hlacks, hbefore⟩ := List.forall_mem_cons.1 hbefore
      exact hrest hlacks before n after rfl hbefore

theorem loadFrom_congr (h : AgreeToFirst files files' (filesOf name es)) :
    (loadFrom files name es).1 = (loadFrom files' name es).1 := by
  induction es with
  | nil => rfl
  | cons e es ih =>
    obtain ⟨ending, format⟩ := e
    obtain ⟨hfirst, hrest⟩ := agreeToFirst_cons.1 h
    rw [loadFrom_cons, loadFrom_cons, ← Folder.text?_congr hfirst]
    rcases files.lacks_or_unreadable_or_spells (name ++ ending) with hlacks | hunreadable | ⟨s, hs⟩
    · rw [Folder.text?_of_lacks hlacks]
      exact ih (hrest hlacks)
    · rw [Folder.text?_of_unreadable hunreadable]
    · rw [Folder.text?_of_spells hs]

/-! ### The files asked for -/

/-- Only files of the name are asked for. -/
theorem mem_of_mem_loadFrom (h : file ∈ (loadFrom files name es).2) :
    ∃ m ∈ filesOf name es, m.1 = file := by
  induction es with
  | nil => exact absurd h List.not_mem_nil
  | cons e es ih =>
    obtain ⟨ending, format⟩ := e
    have hfirst : file = name ++ ending →
        ∃ m ∈ filesOf name ((ending, format) :: es), m.1 = file := by
      rintro rfl
      exact ⟨_, List.mem_cons_self, rfl⟩
    rw [loadFrom] at h
    rcases htext : files.text? (name ++ ending) with f | _ | s
    · rw [htext] at h
      exact hfirst (List.mem_singleton.1 h)
    · rw [htext] at h
      rcases List.mem_cons.1 h with heq | hrest
      · exact hfirst heq
      · obtain ⟨m, hm, rfl⟩ := ih hrest
        exact ⟨m, List.mem_cons_of_mem _ hm, rfl⟩
    · rw [htext] at h
      exact hfirst (List.mem_singleton.1 h)

/-- The files behind the first that is there are not asked for. -/
theorem loadFrom_snd {before after : List (String × Format)}
    (hms : filesOf name es = before ++ (file, format) :: after)
    (hlacks : ∀ b ∈ before, files.Lacks b.1) (hthere : ¬ files.Lacks file) :
    (loadFrom files name es).2 = before.map Prod.fst ++ [file] := by
  obtain ⟨eb, ending, ea, rfl, rfl, rfl⟩ := exists_of_filesOf_eq hms
  clear hms
  induction eb with
  | nil =>
    rw [List.nil_append, loadFrom]
    rcases files.lacks_or_unreadable_or_spells (name ++ ending) with h | hunreadable | ⟨s, hs⟩
    · exact absurd h hthere
    · rw [Folder.text?_of_unreadable hunreadable]
      rfl
    · rw [Folder.text?_of_spells hs]
      rfl
  | cons e eb ih =>
    obtain ⟨hfile, hrest⟩ := List.forall_mem_cons.1 hlacks
    rw [List.cons_append, loadFrom, Folder.text?_of_lacks hfile]
    simp only [ih hrest]
    rfl

/-- A name that stands for nothing in a folder, or might lead out of it, is refused whatever the
folder holds, and no file is asked for. Any other name comes to what the first of its three files
comes to that is there: a file that cannot be read or whose text is no playbook is the answer, and a
playbook without a name gets the name it was asked for by. There is no playbook only where none of
the three files is there. A folder that holds the same up to and including the first file that is
there comes to the same, whatever else it holds. The files behind that one are not asked for, and
every file that is asked for is one of the three and lies in the folder itself. -/
theorem first_manifest_decides (files : Folder) (name : String) :
    let result := (folder files).load name
    let asked := (loadNoting files name).2
    (loadNoting files name).1 = result ∧
    (Misleads name → result = .error (.badName name) ∧ asked = []) ∧
    (¬ Misleads name →
      (∀ r, ComesTo files name (manifests name) r ↔ result = r) ∧
      (∀ missing, result = .error (.noPlaybook missing) ↔
        missing = name ∧ ∀ m ∈ manifests name, files.Lacks m.1) ∧
      (∀ files', AgreeToFirst files files' (manifests name) →
        (folder files').load name = result) ∧
      (∀ before file format after, manifests name = before ++ (file, format) :: after →
        (∀ b ∈ before, files.Lacks b.1) → ¬ files.Lacks file →
          asked = before.map Prod.fst ++ [file]) ∧
      ∀ file ∈ asked, (∃ m ∈ manifests name, m.1 = file) ∧
        ∀ place, Folder.follow place file = place ++ [file]) := by
  intro result asked
  refine ⟨rfl, fun h => ?_, fun h => ?_⟩
  · have hbad := isBadName_eq_true_iff.2 h
    exact ⟨congrArg Prod.fst (if_pos hbad), congrArg Prod.snd (if_pos hbad)⟩
  · have hgood : ¬ isBadName name = true := mt isBadName_eq_true_iff.1 h
    have hnoting (files' : Folder) : loadNoting files' name = loadFrom files' name endings :=
      if_neg hgood
    have hload (files' : Folder) : (folder files').load name = (loadFrom files' name endings).1 :=
      congrArg Prod.fst (hnoting files')
    have hresult : result = (loadFrom files name endings).1 := hload files
    have hasked : asked = (loadFrom files name endings).2 := congrArg Prod.snd (hnoting files)
    refine ⟨fun r => ?_, fun missing => ?_, fun files' hagree => ?_,
      fun before file format after hms hlacks hthere => ?_, fun file hfile => ?_⟩
    · rw [hresult, ← filesOf_endings]
      exact comesTo_iff
    · rw [hresult, ← filesOf_endings]
      exact loadFrom_eq_noPlaybook_iff
    · rw [hresult, hload files']
      exact (loadFrom_congr hagree).symm
    · rw [hasked]
      exact loadFrom_snd hms hlacks hthere
    · rw [hasked] at hfile
      obtain ⟨m, hm, rfl⟩ := mem_of_mem_loadFrom hfile
      exact ⟨⟨m, hm, rfl⟩, follow_of_not_misleads h hm⟩

/-- A manifest that does not say its name. -/
def rollsText : String :=
  "\x7b\"steps\": [\x7b\"name\": \"bake\"\x7d]\x7d"

/-- A folder with a broken manifest of bread, perhaps a sound one after it, and one of rolls. -/
def bakeryFiles (more : List (String × FileContent)) : Folder :=
  .ofList (more ++ [("bread.yml", .text "steps: [[["), ("rolls.json", .text rollsText)])

/-- The broken manifest decides, whether or not there is a sound one after it, which is not asked
for. The rolls get their name, and nothing is asked for outside the folder. -/
theorem first_manifest_decides_bakery :
    let files := bakeryFiles [("bread.json", .text "\x7b\x7d")]
    ¬ Misleads "bread" ∧ (folder files).load "bread" = .error .unreadableYaml ∧
    (loadNoting files "bread").2 = ["bread.yaml", "bread.yml"] ∧
    (folder (bakeryFiles [])).load "bread" = .error .unreadableYaml ∧
    ¬ Misleads "rolls" ∧ (folder files).load "rolls" = .ok ⟨"rolls", "", [{ name := "bake" }]⟩ ∧
    Misleads "../bread" ∧ (folder files).load "../bread" = .error (.badName "../bread") := by
  intro files
  have hbread : ¬ Misleads "bread" := by decide
  have hlacks : ∀ b ∈ [("bread.yaml", Format.yaml)], files.Lacks b.1 := by decide
  have hbroken : files.Spells "bread.yml" "steps: [[[" := by decide
  have htorn : Format.yaml.document? "steps: [[[" = none :=
    Option.isNone_iff_eq_none.1 (by decide +kernel)
  obtain ⟨-, -, hgood⟩ := first_manifest_decides files "bread"
  obtain ⟨hfirst, -, hagree, hasked, -⟩ := hgood hbread
  have hdecided : (folder files).load "bread" = .error .unreadableYaml :=
    (hfirst _).1 (.misspelt hlacks hbroken (Playbook.ofText_eq_error htorn))
  have hrolls : ¬ Misleads "rolls" := by decide
  have hnone : ∀ b ∈ [("rolls.yaml", Format.yaml), ("rolls.yml", .yaml)], files.Lacks b.1 := by
    decide
  have hsound : files.Spells "rolls.json" rollsText := by decide
  have hrolled : Playbook.ofText .json rollsText = .ok ⟨"", "", [{ name := "bake" }]⟩ := by cbv
  obtain ⟨-, -, hnamed⟩ := first_manifest_decides files "rolls"
  obtain ⟨hread, -⟩ := hnamed hrolls
  have hout : Misleads "../bread" := by decide
  obtain ⟨-, hrefused, -⟩ := first_manifest_decides files "../bread"
  refine ⟨hbread, hdecided, hasked _ _ _ _ rfl hlacks (by decide), ?_, hrolls,
    (hread _).1 (.read hnone hsound hrolled), hout, (hrefused hout).1⟩
  refine (hagree (bakeryFiles []) ?_).trans hdecided
  refine agreeToFirst_cons.2 ⟨by decide, fun _ => ?_⟩
  exact agreeToFirst_cons.2 ⟨by decide, fun hmissing => absurd hmissing (by decide)⟩

end Library

end Foreman
