import Foreman.Store.Lineage
import Mathlib.Data.List.Chain
import Mathlib.Data.List.Nodup
import Mathlib.Data.List.Perm.Subperm
/-!
# Walks along lineages

A walk goes from a kind to the kind it extends, from there to the one that extends, and so on, and
keeps in mind which names it has come by. It ends with a kind that extends none, at a name that is
not known, or at a name it has come by before. Every walk ends, whatever the kinds are and even
where they extend each other in a circle, and it visits just the lineage. What a kind offers under a
key is what the first kind on the walk says that says anything there.

## Main definitions

* `Foreman.Kinds.Walk`: a walk, and the name at which it has come round, if it has.
* `Foreman.Kinds.Visits`: where a walk leads and where it ends.

## Main results

* `Foreman.Kinds.exists_walk`: every walk ends, and it visits the lineage.
* `Foreman.Kinds.Walk.unique`: there is only one walk from a name.
* `Foreman.Kinds.get?_effective`: what a kind offers under a key, by its lineage.
* `Foreman.Kinds.effective_nearest`: all this of the walk from any kind that is known.
-/

namespace Foreman.Kinds

/-- A walk that has come by some names and goes on from a name, if there is one: the names and kinds
it visits from there on, and the name at which it has come round, if it ends for that. -/
inductive Walk (kinds : Kinds) :
    List String → Option String → List (String × ResourceKind) → Option String → Prop
  | origin {seen : List String} : Walk kinds seen none [] none
  | missing {seen : List String} {name : String} (hnew : name ∉ seen)
      (hunknown : kinds.get? name = none) : Walk kinds seen (some name) [] none
  | again {seen : List String} {name : String} (hseen : name ∈ seen) :
      Walk kinds seen (some name) [] (some name)
  | visit {seen : List String} {name : String} {k : ResourceKind}
      {path : List (String × ResourceKind)} {around : Option String} (hnew : name ∉ seen)
      (hknown : kinds.get? name = some k) (hrest : Walk kinds (name :: seen) k.parent path around) :
      Walk kinds seen (some name) ((name, k) :: path) around

variable {kinds left : Kinds} {seen : List String} {name key : String} {k : ResourceKind}
  {start : Option String} {path path' : List (String × ResourceKind)}
  {around around' : Option String}

/-! ### Every walk ends -/

/-- There is only one walk from a name. -/
theorem Walk.unique (h : kinds.Walk seen start path around)
    (h' : kinds.Walk seen start path' around') : path = path' ∧ around = around' := by
  induction h generalizing path' with
  | origin => cases h'; exact ⟨rfl, rfl⟩
  | missing hnew hunknown =>
    cases h' with
    | missing => exact ⟨rfl, rfl⟩
    | again hseen => exact absurd hseen hnew
    | visit _ hknown => simp [hunknown] at hknown
  | again hseen =>
    cases h' with
    | missing hnew => exact absurd hseen hnew
    | again => exact ⟨rfl, rfl⟩
    | visit hnew => exact absurd hseen hnew
  | visit hnew hknown _ ih =>
    cases h' with
    | missing _ hunknown => simp [hunknown] at hknown
    | again hseen => exact absurd hseen hnew
    | visit _ hknown' hrest =>
      obtain rfl := Option.some.inj (hknown.symm.trans hknown')
      obtain ⟨rfl, rfl⟩ := ih hrest
      exact ⟨rfl, rfl⟩

theorem lineage_of_unknown (h : kinds.get? name = none) : kinds.lineage name = [] := by
  rw [lineage]
  split
  · rfl
  · next hsome => simp [h] at hsome

theorem lineage_of_known (h : kinds.get? name = some k) :
    kinds.lineage name = k :: k.parent.elim [] (lineage (kinds.erase name)) := by
  rw [lineage]
  split
  · next hnone => simp [h] at hnone
  · next k' hsome =>
    obtain rfl := Option.some.inj (h.symm.trans hsome)
    cases k.parent <;> rfl

theorem lineageEnd?_of_unknown (h : kinds.get? name = none) :
    kinds.lineageEnd? name = some name := by
  rw [lineageEnd?]
  split
  · rfl
  · next hsome => simp [h] at hsome

theorem lineageEnd?_of_known (h : kinds.get? name = some k) :
    kinds.lineageEnd? name = k.parent.bind (lineageEnd? (kinds.erase name)) := by
  rw [lineageEnd?]
  split
  · next hnone => simp [h] at hnone
  · next k' hsome =>
    obtain rfl := Option.some.inj (h.symm.trans hsome)
    cases k.parent <;> rfl

/-- What is left of some kinds are those under names that a walk has not come by. -/
def LeftAfter (kinds : Kinds) (seen : List String) (left : Kinds) : Prop :=
  ∀ name, left.get? name = if name ∈ seen then none else kinds.get? name

theorem leftAfter_nil (kinds : Kinds) : kinds.LeftAfter [] kinds := fun name => by simp

theorem LeftAfter.erase (h : kinds.LeftAfter seen left) (name : String) :
    kinds.LeftAfter (name :: seen) (left.erase name) := by
  intro other
  rw [Table.get?_erase, h other]
  by_cases hother : other = name <;> simp [hother]

/-- Every walk from a name ends. It visits the lineage of the name among the kinds that are left,
and has come round if the lineage ends at a name that is known. -/
theorem exists_walk (hleft : kinds.LeftAfter seen left)
    (hseen : ∀ n ∈ seen, kinds.contains n = true) (name : String) :
    ∃ path, kinds.Walk seen (some name) path ((left.lineageEnd? name).filter kinds.contains) ∧
      left.lineage name = path.map Prod.snd := by
  induction left, name using lineage.induct generalizing seen with
  | case1 left name hnone =>
    refine ⟨[], ?_, lineage_of_unknown hnone⟩
    rw [lineageEnd?_of_unknown hnone]
    have hcases := hleft name
    rw [hnone] at hcases
    by_cases hmem : name ∈ seen
    · rw [Option.filter_some_pos (hseen name hmem)]
      exact .again hmem
    · have hunknown : kinds.get? name = none := by simpa [hmem] using hcases.symm
      rw [Option.filter_some_neg (by simp [Table.contains, hunknown])]
      exact .missing hmem hunknown
  | case2 left name k hsome ih =>
    rw [lineageEnd?_of_known hsome, lineage_of_known hsome]
    have hcases := hleft name
    rw [hsome] at hcases
    have hmem : name ∉ seen := fun hmem => by simp [hmem] at hcases
    have hknown : kinds.get? name = some k := by simpa [hmem] using hcases.symm
    -- from the parent on, the name is one more that the walk has come by
    have hrest : ∃ path, kinds.Walk (name :: seen) k.parent path
        ((k.parent.bind (lineageEnd? (left.erase name))).filter kinds.contains) ∧
          k.parent.elim [] (lineage (left.erase name)) = path.map Prod.snd := by
      cases k.parent with
      | none => exact ⟨[], .origin, rfl⟩
      | some parent =>
        refine ih parent (hleft.erase name) fun n hn => ?_
        rcases List.mem_cons.1 hn with rfl | hn
        · exact Table.contains_eq_true_iff.2 ⟨k, hknown⟩
        · exact hseen n hn
    obtain ⟨path, hwalk, hlineage⟩ := hrest
    exact ⟨(name, k) :: path, .visit hmem hknown hwalk, by rw [hlineage, List.map_cons]⟩

/-! ### Where a walk leads and where it ends -/

/-- A walk that has visited some names does not go on to the next one: it has come round there, or
else there is no next one that is known. -/
def EndsBefore (kinds : Kinds) (visited : List String) (next : Option String) :
    Option String → Prop
  | some met => next = some met ∧ met ∈ visited
  | none => ∀ name ∈ next, kinds.get? name = none

/-- Where a walk from a name leads, which has come round or not, and where it ends. -/
structure Visits (kinds : Kinds) (name : String) (path : List (String × ResourceKind))
    (around : Option String) : Prop where
  /-- It starts from the name. -/
  head : path.head?.map Prod.fst = some name
  /-- Under each name that it visits it finds the kind of that name. -/
  known : ∀ e ∈ path, kinds.get? e.1 = some e.2
  /-- From each kind it goes on to the one that this kind extends. -/
  linked : path.IsChain fun e e' => e.2.parent = some e'.1
  /-- It visits no name twice. -/
  nodup : (path.map Prod.fst).Nodup
  /-- It ends where it has come round to a name that it has visited, or else with a kind that
  extends none or one that is not known. -/
  ends : ∀ last ∈ path.getLast?, kinds.EndsBefore (path.map Prod.fst) last.2.parent around

namespace Walk

theorem known (h : kinds.Walk seen start path around) : ∀ e ∈ path, kinds.get? e.1 = some e.2 := by
  induction h with
  | origin | missing | again => simp
  | visit _ hknown _ ih => exact List.forall_mem_cons.2 ⟨hknown, ih⟩

theorem head (h : kinds.Walk seen start path around) : ∀ e ∈ path.head?, start = some e.1 := by
  cases h <;> simp

theorem linked (h : kinds.Walk seen start path around) :
    path.IsChain fun e e' => e.2.parent = some e'.1 := by
  induction h with
  | origin | missing | again => exact .nil
  | visit _ _ hrest ih => exact List.isChain_cons.2 ⟨hrest.head, ih⟩

/-- A walk visits no name that it has come by before. -/
theorem nodup (h : kinds.Walk seen start path around) :
    (path.map Prod.fst).Nodup ∧ ∀ n ∈ path.map Prod.fst, n ∉ seen := by
  induction h with
  | origin | missing | again => simp
  | @visit seen name k path around hnew _ _ ih =>
    obtain ⟨hnodup, hfresh⟩ := ih
    rw [List.map_cons, List.nodup_cons, List.forall_mem_cons]
    refine ⟨⟨fun hmem => hfresh name hmem List.mem_cons_self, hnodup⟩, hnew, fun n hn hseen => ?_⟩
    exact hfresh n hn (List.mem_cons_of_mem _ hseen)

/-- Where a walk would go on is where it has come round, or nowhere that is known. -/
theorem ends (h : kinds.Walk seen start path around) :
    kinds.EndsBefore (path.map Prod.fst ++ seen)
      (path.getLast?.elim start fun last => last.2.parent) around := by
  induction h with
  | origin => simp [EndsBefore]
  | missing _ hunknown => simpa [EndsBefore] using hunknown
  | again hseen => simpa [EndsBefore] using hseen
  | @visit seen name k path around _ _ _ ih =>
    have hlast : (((name, k) :: path).getLast?.elim (some name) fun last => last.2.parent) =
        path.getLast?.elim k.parent fun last => last.2.parent := by
      rw [List.getLast?_cons]
      cases path.getLast? <;> rfl
    rw [hlast]
    cases around with
    | none => exact ih
    | some met => exact ⟨ih.1, by simpa [or_left_comm] using ih.2⟩

theorem visits (h : kinds.Walk [] (some name) path around) (hne : path ≠ []) :
    kinds.Visits name path around where
  head := by
    obtain ⟨e, rest, rfl⟩ := List.exists_cons_of_ne_nil hne
    simpa using (h.head e rfl).symm
  known := h.known
  linked := h.linked
  nodup := h.nodup.1
  ends last hlast := by
    have hends := h.ends
    rw [hlast, Option.elim_some, List.append_nil] at hends
    exact hends

end Walk

/-- A walk takes no more steps than there are kinds. -/
theorem Visits.length_le (h : kinds.Visits name path around) : path.length ≤ kinds.size := by
  have hsubset : path.map Prod.fst ⊆ kinds.keys := fun n hn => by
    obtain ⟨e, he, rfl⟩ := List.mem_map.1 hn
    exact List.mem_map.2 ⟨e, Table.get?_eq_some_iff.1 (h.known e he), rfl⟩
  simpa [Table.keys, Table.size] using (h.nodup.subperm hsubset).length_le

/-! ### What a kind offers -/

/-- A kind that is not known offers nothing. -/
theorem effective_of_unknown (h : kinds.get? name = none) : kinds.effective name = .empty := by
  rw [effective, lineage_of_unknown h, List.foldr_nil]

/-- What a kind offers under a key is what the first kind of its lineage says that says anything
there. -/
theorem get?_effective (kinds : Kinds) (name key : String) :
    (kinds.effective name).get? key =
      (kinds.lineage name).findSome? fun k => k.own.get? key := by
  unfold effective
  induction kinds.lineage name with
  | nil => rfl
  | cons k rest ih =>
    rw [List.foldr_cons, Table.get?_overlay, ih, List.findSome?_cons]
    cases k.own.get? key <;> rfl

/-- What a kind offers is what the nearest kind says that it extends, whatever extends what.

From every kind that is known there is exactly one walk to the kinds that it extends. The walk ends:
it comes by no name twice, so it visits no more kinds than there are, and it ends with a kind that
extends none, before a name that is not known, or before the first name that it has come by
already. The kinds it visits are the lineage, and where it has come round is what is reported. Under
each key, a value is offered just if the first kind on the walk that says anything there says so. -/
theorem effective_nearest (hknown : kinds.contains name = true) :
    ∃ path around, kinds.Walk [] (some name) path around ∧
      (∀ path' around', kinds.Walk [] (some name) path' around' →
        path' = path ∧ around' = around) ∧
      kinds.Visits name path around ∧ path.length ≤ kinds.size ∧
      kinds.lineage name = path.map Prod.snd ∧ kinds.repetition? name = around ∧
      ∀ key value, (kinds.effective name).get? key = some value ↔
        ∃ before e after, path = before ++ e :: after ∧ e.2.own.get? key = some value ∧
          ∀ e' ∈ before, e'.2.own.get? key = none := by
  obtain ⟨k, hk⟩ := Table.contains_eq_true_iff.1 hknown
  obtain ⟨path, hwalk, hlineage⟩ :=
    exists_walk (leftAfter_nil kinds) (by simp) name
  have hne : path ≠ [] := fun hnil => by simp [lineage_of_known hk, hnil] at hlineage
  refine ⟨path, _, hwalk, fun path' around' h => h.unique hwalk, hwalk.visits hne,
    (hwalk.visits hne).length_le, hlineage, rfl, fun key value => ?_⟩
  rw [get?_effective, hlineage, List.findSome?_map, List.findSome?_eq_some_iff]
  rfl

/-- A van that extends a car, which extends a vehicle, which is to be a car again; and a cart that
extends something that nobody knows. -/
def fleet : Kinds :=
  .ofList
    [("van", ⟨"van", some "car", .ofList [("load", .text "large")]⟩),
      ("car", ⟨"car", some "vehicle", .ofList [("load", .text "small"), ("seats", .flag true)]⟩),
      ("vehicle", ⟨"vehicle", some "car", .ofList [("seats", .flag false), ("moves", .flag true)]⟩),
      ("cart", ⟨"cart", some "animal", .ofList [("wings", .flag false)]⟩)]

/-- The walk from the van enters a circle at the car and comes round there. What is said under each
key is settled by another of the three kinds, and what only the cart says does not count. -/
theorem effective_nearest_van :
    fleet.contains "van" = true ∧
    ∃ path, fleet.Walk [] (some "van") path (some "car") ∧
      path.map Prod.fst = ["van", "car", "vehicle"] ∧
      (fleet.effective "van").get? "load" = some (.text "large") ∧
      (fleet.effective "van").get? "seats" = some (.flag true) ∧
      (fleet.effective "van").get? "moves" = some (.flag true) ∧
      (fleet.effective "van").get? "wings" = none := by
  have hknown : fleet.contains "van" = true := by decide
  obtain ⟨path, around, -, hunique, -, -, -, -, hoffers⟩ := effective_nearest hknown
  have hvan : fleet.Walk [] (some "van") [("van", _), ("car", _), ("vehicle", _)] (some "car") :=
    .visit (by decide) rfl (.visit (by decide) rfl (.visit (by decide) rfl (.again (by decide))))
  obtain ⟨rfl, rfl⟩ := hunique _ _ hvan
  refine ⟨hknown, _, hvan, rfl, (hoffers _ _).2 ⟨[], _, _, rfl, rfl, by simp⟩,
    (hoffers _ _).2 ⟨[_], _, _, rfl, rfl, List.forall_mem_singleton.2 rfl⟩,
    (hoffers _ _).2 ⟨[_, _], _, _, rfl, rfl,
      List.forall_mem_cons.2 ⟨rfl, List.forall_mem_singleton.2 rfl⟩⟩, ?_⟩
  rw [Option.eq_none_iff_forall_ne_some]
  intro value hvalue
  obtain ⟨before, e, after, hpath, hsays, -⟩ := (hoffers _ _).1 hvalue
  have hmem : e ∈ before ++ e :: after := by simp
  rw [← hpath] at hmem
  rcases List.mem_cons.1 hmem with rfl | hmem
  · cases hsays
  · rcases List.mem_pair.1 hmem with rfl | rfl <;> cases hsays

end Foreman.Kinds
