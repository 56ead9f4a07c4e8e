import Mathlib.Data.List.Nodup
import Std.Data.TreeMap.Lemmas
import Lox.Resolution
import Lox.Proofs.Resolution.Scopes

namespace Lox

namespace Locals

def enterAll (locals : Locals) (entries : List (Nat × Nat)) : Locals :=
  entries.foldl (fun locals entry => locals.insert entry.1 entry.2) locals

theorem enterAll_append (locals : Locals) (first second : List (Nat × Nat)) :
    locals.enterAll (first ++ second) = (locals.enterAll first).enterAll second :=
  List.foldl_append

theorem getElem?_enterAll_of_not_mem {id : Nat} (locals : Locals) (entries : List (Nat × Nat))
    (absent : id ∉ entries.map Prod.fst) : (locals.enterAll entries)[id]? = locals[id]? := by
  induction entries generalizing locals with
  | nil => rfl
  | cons entry rest ih =>
    have other : entry.1 ≠ id := fun same => absent (by simp [same])
    have later : id ∉ rest.map Prod.fst := fun member => absent (by simp [member])
    have inner : (enterAll (locals.insert entry.1 entry.2) rest)[id]? = _ := ih _ later
    rw [Std.TreeMap.getElem?_insert] at inner
    simpa [enterAll, other] using inner

theorem getElem?_enterAll_of_mem {id distance : Nat} (locals : Locals) (entries : List (Nat × Nat))
    (distinct : (entries.map Prod.fst).Nodup) (member : (id, distance) ∈ entries) :
    (locals.enterAll entries)[id]? = some distance := by
  induction entries generalizing locals with
  | nil => cases member
  | cons entry rest ih =>
    obtain ⟨absent, distinct'⟩ := List.nodup_cons.mp distinct
    rcases List.mem_cons.mp member with rfl | later
    · have inner : (enterAll (locals.insert id distance) rest)[id]? = _ :=
        getElem?_enterAll_of_not_mem _ rest absent
      rwa [Std.TreeMap.getElem?_insert_self] at inner
    · exact ih _ distinct' later

theorem merge_eq (locals additions : Locals) :
    locals.merge additions = locals.enterAll additions.toList :=
  Std.TreeMap.foldl_eq_foldl_toList

theorem getElem?_merge (locals additions : Locals) (id : Nat) :
    (locals.merge additions)[id]? = additions[id]?.or locals[id]? := by
  rw [merge_eq]
  cases found : additions[id]? with
  | none =>
    have absent : id ∉ additions.toList.map Prod.fst := by
      intro member
      obtain ⟨⟨id', distance⟩, member', rfl⟩ := List.mem_map.mp member
      have known := Std.TreeMap.mem_toList_iff_getElem?_eq_some.mp member'
      rw [known] at found
      cases found
    rw [getElem?_enterAll_of_not_mem _ _ absent, Option.none_or]
  | some distance =>
    have distinct : (additions.toList.map Prod.fst).Nodup := by
      rw [List.Nodup, List.pairwise_map]
      exact Std.TreeMap.distinct_keys_toList.imp fun apart same => apart (by simp [same])
    have member := Std.TreeMap.mem_toList_iff_getElem?_eq_some.mpr found
    rw [getElem?_enterAll_of_mem _ _ distinct member, Option.some_or]

def entriesOf (sites : List Site) : List (Nat × Nat) :=
  sites.filterMap fun site => site.distance.map fun distance => (site.id, distance)

theorem entriesOf_append (first second : List Site) :
    entriesOf (first ++ second) = entriesOf first ++ entriesOf second :=
  List.filterMap_append

theorem entriesOf_ids_sublist (sites : List Site) :
    ((entriesOf sites).map Prod.fst).Sublist (sites.map Site.id) := by
  induction sites with
  | nil => exact .slnil
  | cons site rest ih =>
    cases h : site.distance with
    | none =>
      have same : entriesOf (site :: rest) = entriesOf rest := by simp [entriesOf, h]
      rw [same]
      exact ih.cons _
    | some distance =>
      have same : entriesOf (site :: rest) = (site.id, distance) :: entriesOf rest := by
        simp [entriesOf, h]
      rw [same]
      exact ih.cons_cons _

def record (locals : Locals) (sites : List Site) : Locals := locals.enterAll (entriesOf sites)

theorem record_append (locals : Locals) (first second : List Site) :
    locals.record (first ++ second) = (locals.record first).record second := by
  rw [record, entriesOf_append, enterAll_append]
  rfl

theorem getElem?_record_of_not_mem {id : Nat} (locals : Locals) {sites : List Site}
    (absent : id ∉ sites.map Site.id) : (locals.record sites)[id]? = locals[id]? :=
  getElem?_enterAll_of_not_mem _ _ fun member =>
    absent ((entriesOf_ids_sublist sites).subset member)

theorem getElem?_record_of_unused (locals : Locals) {sites : List Site}
    (distinct : (sites.map Site.id).Nodup) {site : Site} (member : site ∈ sites)
    (unused : locals[site.id]? = none) : (locals.record sites)[site.id]? = site.distance := by
  have distinct' := distinct.sublist (entriesOf_ids_sublist sites)
  cases h : site.distance with
  | some distance =>
    refine getElem?_enterAll_of_mem _ _ distinct' (List.mem_filterMap.mpr ⟨site, member, ?_⟩)
    rw [h]
    rfl
  | none =>
    have absent : site.id ∉ (entriesOf sites).map Prod.fst := by
      intro found
      obtain ⟨entry, member', same⟩ := List.mem_map.mp found
      obtain ⟨other, member'', made⟩ := List.mem_filterMap.mp member'
      obtain ⟨distance, known, rfl⟩ := Option.map_eq_some_iff.mp made
      have same' : other = site := List.inj_on_of_nodup_map distinct member'' member same
      rw [same', h] at known
      cases known
    rw [record, getElem?_enterAll_of_not_mem _ _ absent, unused]

theorem getElem?_record {sites : List Site} (distinct : (sites.map Site.id).Nodup) {site : Site}
    (member : site ∈ sites) : (record ∅ sites)[site.id]? = site.distance :=
  getElem?_record_of_unused ∅ distinct member Std.TreeMap.getElem?_emptyc

end Locals

end Lox
