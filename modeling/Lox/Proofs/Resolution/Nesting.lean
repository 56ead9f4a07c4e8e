import Lox.Proofs.Resolution.Landmarks
import Lox.Proofs.Resolution.Scopes

namespace Lox

namespace Landmarks

variable {text : Landmarks} {x : Landmark} {P : Landmark → Prop}

@[simp] theorem gain_nil (p : Region → Bool) : gain p [] = 0 := rfl

@[simp] theorem gain_cons (p : Region → Bool) (l : Landmark) (stretch : Landmarks) :
    gain p (l :: stretch) = l.change p + gain p stretch := by
  simp [gain]

@[simp] theorem gain_append (p : Region → Bool) (first second : Landmarks) :
    gain p (first ++ second) = gain p first + gain p second := by
  simp [gain]

theorem stays_nil : Stays [] := by
  intro start before
  rw [List.prefix_nil.mp before]
  exact Int.le_refl 0

theorem Stays.depth_nonneg {stretch : Landmarks} (h : Stays stretch) : 0 ≤ depth stretch :=
  h stretch (List.prefix_refl stretch)

theorem stays_snoc {stretch : Landmarks} :
    Stays (stretch ++ [x]) ↔ Stays stretch ∧ 0 ≤ depth (stretch ++ [x]) := by
  constructor
  · intro h
    exact ⟨fun start before => h start (before.trans (List.prefix_append _ _)), h.depth_nonneg⟩
  · rintro ⟨before, whole⟩ start isPrefix
    rcases List.prefix_concat_iff.mp isPrefix with rfl | shorter
    · exact whole
    · exact before start shorter

/-- A landmark of a kind has `t` regions between itself and the end of the text. -/
def Reaches (text : Landmarks) (P : Landmark → Prop) (t : Nat) : Prop :=
  ∃ earlier l later, text = earlier ++ l :: later ∧ P l ∧ Stays later ∧ depth later = t

theorem split_snoc {earlier later : Landmarks} (split : text ++ [x] = earlier ++ later)
    (stays : Stays later) :
    (later = [] ∧ earlier = text ++ [x]) ∨
      ∃ before, later = before ++ [x] ∧ text = earlier ++ before ∧ Stays before ∧
        ∃ t : Nat, depth before = t ∧ depth later = t + x.change (fun _ => true) ∧
          scopes later = scopes before + x.change Region.isScope := by
  rcases List.eq_nil_or_concat later with rfl | ⟨before, last, rfl⟩
  · exact .inl ⟨rfl, by simpa using split.symm⟩
  · rw [List.concat_eq_append] at split stays ⊢
    rw [← List.append_assoc] at split
    obtain ⟨rfl, last⟩ := List.append_inj' split rfl
    obtain rfl := (List.cons.inj last).1
    obtain ⟨stays', -⟩ := stays_snoc.mp stays
    obtain ⟨t, known⟩ := Int.eq_ofNat_of_zero_le stays'.depth_nonneg
    exact .inr ⟨before, rfl, rfl, stays', t, known, by simp [← known, depth], by simp [scopes]⟩

theorem reaches_snoc {t : Nat} :
    Reaches (text ++ [x]) P t ↔
      (P x ∧ t = 0) ∨ ∃ t', Reaches text P t' ∧ (t : Int) = t' + x.change (fun _ => true) := by
  constructor
  · rintro ⟨earlier, l, later, same, kind, stays, count⟩
    rw [List.append_cons earlier l later] at same
    obtain ⟨rfl, last⟩ | ⟨before, rfl, rfl, stays', t', count', whole, -⟩ := split_snoc same stays
    · obtain ⟨-, last⟩ := List.append_inj' last rfl
      obtain rfl := (List.cons.inj last).1
      exact .inl ⟨kind, by simpa [depth] using count.symm⟩
    · exact .inr ⟨t', ⟨earlier, l, before, by simp, kind, stays', count'⟩, by omega⟩
  · rintro (⟨kind, rfl⟩ | ⟨t', ⟨earlier, l, later, rfl, kind, stays, count⟩, same⟩)
    · exact ⟨text, x, [], rfl, kind, stays_nil, rfl⟩
    · have whole : depth (later ++ [x]) = t := by
        rw [same, ← count]
        simp [depth]
      exact ⟨earlier, l, later ++ [x], by simp, kind, stays_snoc.mpr ⟨stays, by omega⟩, whole⟩

theorem reaches_opens {region : Region} {t : Nat} :
    Reaches (text ++ [.opens region]) P t ↔
      (P (.opens region) ∧ t = 0) ∨ ∃ t', Reaches text P t' ∧ t = t' + 1 := by
  rw [reaches_snoc]
  simp only [Landmark.change, if_true]
  norm_cast

theorem reaches_closes {region : Region} {t : Nat} :
    Reaches (text ++ [.closes region]) P t ↔
      (P (.closes region) ∧ t = 0) ∨ Reaches text P (t + 1) := by
  rw [reaches_snoc]
  refine or_congr_right ⟨?_, fun found => ⟨t + 1, found, by simp only [Landmark.change, if_true]; omega⟩⟩
  rintro ⟨t', found, count⟩
  obtain rfl : t' = t + 1 := by simp only [Landmark.change, if_true] at count; omega
  exact found

theorem reaches_flat (flat : ∀ p, x.change p = 0) {t : Nat} :
    Reaches (text ++ [x]) P t ↔ (P x ∧ t = 0) ∨ Reaches text P t := by
  rw [reaches_snoc]
  refine or_congr_right ⟨?_, fun found => ⟨t, found, by simp [flat]⟩⟩
  rintro ⟨t', found, count⟩
  obtain rfl : t' = t := by simp only [flat] at count; omega
  exact found

end Landmarks

open Landmarks

/-- The open regions behind a text, innermost first, with the names that each has declared. -/
inductive Nesting : Landmarks → List (Region × List String) → Prop where
  | start : Nesting [] []
  | opens {text : Landmarks} {nest : List (Region × List String)} (h : Nesting text nest)
    (region : Region) : Nesting (text ++ [.opens region]) ((region, []) :: nest)
  | closes {text : Landmarks} {region : Region} {names : List String}
    {nest : List (Region × List String)} (h : Nesting text ((region, names) :: nest)) :
    Nesting (text ++ [.closes region]) nest
  | declares {text : Landmarks} {region : Region} {names : List String}
    {nest : List (Region × List String)} {l : Landmark} {name : String}
    (h : Nesting text ((region, names) :: nest)) (isScope : region.isScope = true)
    (declares : l.declared? = some name) :
    Nesting (text ++ [l]) ((region, name :: names) :: nest)
  | global {text : Landmarks} {l : Landmark} {name : String} (h : Nesting text [])
    (declares : l.declared? = some name) : Nesting (text ++ [l]) []
  | passes {text : Landmarks} {nest : List (Region × List String)} {l : Landmark}
    (h : Nesting text nest) (opensNot : ∀ region, l ≠ .opens region)
    (closesNot : ∀ region, l ≠ .closes region) (declaresNot : l.declared? = none) :
    Nesting (text ++ [l]) nest

namespace Landmark

theorem change_of_declared {l : Landmark} {name : String} (h : l.declared? = some name)
    (p : Region → Bool) : l.change p = 0 := by
  cases l <;> first | rfl | cases h

theorem ne_opens_of_declared {l : Landmark} {name : String} (h : l.declared? = some name)
    (region : Region) : l ≠ opens region := by
  rintro rfl
  cases h

theorem change_of_passes {l : Landmark} (opensNot : ∀ region, l ≠ .opens region)
    (closesNot : ∀ region, l ≠ .closes region) (p : Region → Bool) : l.change p = 0 := by
  cases l <;> first | rfl | exact absurd rfl (opensNot _) | exact absurd rfl (closesNot _)

end Landmark

def scopesOf (nest : List (Region × List String)) : Scopes :=
  (nest.filter fun entry => entry.1.isScope).map Prod.snd

def countScopes (nest : List (Region × List String)) : Nat :=
  nest.countP fun entry => entry.1.isScope

@[simp] theorem countScopes_nil : countScopes [] = 0 := rfl

@[simp] theorem countScopes_cons (region : Region) (names : List String)
    (nest : List (Region × List String)) :
    (countScopes ((region, names) :: nest) : Int) =
      countScopes nest + if region.isScope then 1 else 0 := by
  cases h : region.isScope <;> simp [countScopes, h]

namespace Nesting

variable {text : Landmarks} {nest : List (Region × List String)} {t : Nat}

theorem scopes_eq (h : Nesting text nest) : scopes text = countScopes nest := by
  induction h with
  | start => rfl
  | opens _ region ih =>
    rw [countScopes_cons, ← ih]
    simp only [scopes, gain_append, gain_cons, gain_nil, Landmark.change, Int.add_zero]
  | @closes _ region _ _ _ ih =>
    rw [countScopes_cons] at ih
    simp only [scopes, gain_append, gain_cons, gain_nil, Landmark.change] at ih ⊢
    cases isScope : region.isScope <;> simp only [isScope] at ih ⊢ <;> simp at ih ⊢ <;> omega
  | declares _ _ declares ih => simp_all [scopes, Landmark.change_of_declared declares]
  | global _ declares ih => simp_all [scopes, Landmark.change_of_declared declares]
  | passes _ opensNot closesNot _ ih =>
    simp_all [scopes, Landmark.change_of_passes opensNot closesNot]

theorem scopes_nothing (count : depth [] = t) :
    t ≤ nest.length ∧ scopes [] = countScopes (nest.take t) := by
  obtain rfl : t = 0 := by simp [depth] at count; omega
  simp [scopes]

theorem scopes_later (h : Nesting text nest) {earlier later : Landmarks}
    (split : text = earlier ++ later) (stays : Stays later) (count : depth later = t) :
    t ≤ nest.length ∧ scopes later = countScopes (nest.take t) := by
  induction h generalizing later t with
  | start =>
    obtain ⟨-, rfl⟩ := List.append_eq_nil_iff.mp split.symm
    exact scopes_nothing count
  | opens _ region ih =>
    obtain ⟨rfl, -⟩ | ⟨before, -, split', stays', t', count', whole, sum⟩ := split_snoc split stays
    · exact scopes_nothing count
    · obtain ⟨le, known⟩ := ih split' stays' count'
      obtain rfl : t = t' + 1 := by simp [Landmark.change] at whole; omega
      simp [sum, known, Landmark.change, le]
  | closes _ ih =>
    obtain ⟨rfl, -⟩ | ⟨before, -, split', stays', t', count', whole, sum⟩ := split_snoc split stays
    · exact scopes_nothing count
    · obtain ⟨le, known⟩ := ih split' stays' count'
      obtain rfl : t' = t + 1 := by simp [Landmark.change] at whole; omega
      simp only [sum, known, Landmark.change, List.take_succ_cons, countScopes_cons]
      exact ⟨by simpa using le, by split <;> omega⟩
  | declares _ _ declares ih =>
    obtain ⟨rfl, -⟩ | ⟨before, -, split', stays', t', count', whole, sum⟩ := split_snoc split stays
    · exact scopes_nothing count
    · obtain ⟨le, known⟩ := ih split' stays' count'
      rw [Landmark.change_of_declared declares] at whole sum
      obtain rfl : t = t' := by omega
      rw [sum, known, Int.add_zero]
      cases t with
      | zero => simp
      | succ t => exact ⟨by simpa using le, by simp⟩
  | global _ declares ih =>
    obtain ⟨rfl, -⟩ | ⟨before, -, split', stays', t', count', whole, sum⟩ := split_snoc split stays
    · exact scopes_nothing count
    · rw [Landmark.change_of_declared declares] at whole sum
      obtain rfl : t = t' := by omega
      simpa [sum] using ih split' stays' count'
  | passes _ opensNot closesNot _ ih =>
    obtain ⟨rfl, -⟩ | ⟨before, -, split', stays', t', count', whole, sum⟩ := split_snoc split stays
    · exact scopes_nothing count
    · rw [Landmark.change_of_passes opensNot closesNot] at whole sum
      obtain rfl : t = t' := by omega
      simpa [sum] using ih split' stays' count'

theorem opens_iff (h : Nesting text nest) {region : Region} :
    Reaches text (· = .opens region) t ↔ (nest.map Prod.fst)[t]? = some region := by
  induction h generalizing t with
  | start => simp [Reaches]
  | opens _ region' ih =>
    rw [reaches_opens]
    cases t with
    | zero => simp [eq_comm]
    | succ t => simp only [ih]; simp
  | closes _ ih =>
    rw [reaches_closes, ih]
    simp
  | declares _ _ declares ih =>
    rw [reaches_flat (Landmark.change_of_declared declares), ih]
    simp [Landmark.ne_opens_of_declared declares]
  | global _ declares ih =>
    rw [reaches_flat (Landmark.change_of_declared declares), ih]
    simp [Landmark.ne_opens_of_declared declares]
  | passes _ opensNot closesNot _ ih =>
    rw [reaches_flat (Landmark.change_of_passes opensNot closesNot), ih]
    simp [opensNot region]

theorem declares_iff (h : Nesting text nest) (inside : t < nest.length) {name : String} :
    Reaches text (·.declared? = some name) t ↔
      ∃ region names, nest[t]? = some (region, names) ∧ name ∈ names := by
  induction h generalizing t with
  | start => cases inside
  | opens _ region' ih =>
    rw [reaches_opens]
    cases t with
    | zero => simp [Landmark.declared?]
    | succ t => simp [ih (t := t) (by simpa using inside)]
  | closes _ ih =>
    rw [reaches_closes, ih (by simpa using inside)]
    simp [Landmark.declared?]
  | declares _ _ declares ih =>
    rw [reaches_flat (Landmark.change_of_declared declares), ih (by simpa using inside)]
    cases t with
    | zero => simp [declares, eq_comm]
    | succ t => simp
  | global _ declares ih => cases inside
  | passes _ opensNot closesNot declaresNot ih =>
    rw [reaches_flat (Landmark.change_of_passes opensNot closesNot), ih inside]
    simp [declaresNot]

theorem isScope_of_mem (h : Nesting text nest) {region : Region} {names : List String}
    {name : String} (member : (region, names) ∈ nest) (declared : name ∈ names) :
    region.isScope = true := by
  induction h with
  | start => cases member
  | opens _ region ih =>
    rcases List.mem_cons.mp member with same | outer
    · cases same
      cases declared
    · exact ih outer
  | closes _ ih => exact ih (List.mem_cons_of_mem _ member)
  | declares _ isScope _ ih =>
    rcases List.mem_cons.mp member with same | outer
    · cases same
      exact isScope
    · exact ih (List.mem_cons_of_mem _ outer)
  | global _ _ _ => cases member
  | passes _ _ _ _ ih => exact ih member

end Nesting

theorem countScopes_take_lt {nest : List (Region × List String)} {t : Nat} {region : Region}
    {names : List String} (found : nest[t]? = some (region, names))
    (isScope : region.isScope = true) : countScopes (nest.take t) < countScopes nest := by
  obtain ⟨lt, same⟩ := List.getElem?_eq_some_iff.mp found
  have split : countScopes nest = countScopes (nest.take t) + countScopes (nest.drop t) := by
    simp only [countScopes, ← List.countP_append, List.take_append_drop]
  have first : 0 < countScopes (nest.drop t) :=
    List.countP_pos_iff.mpr
      ⟨(region, names), List.mem_of_getElem? (i := 0) (by simp [found]), isScope⟩
  omega

theorem getElem?_scopesOf {nest : List (Region × List String)} {d : Nat} {names : List String} :
    (scopesOf nest)[d]? = some names ↔
      ∃ t region, nest[t]? = some (region, names) ∧ region.isScope = true ∧
        countScopes (nest.take t) = d := by
  induction nest generalizing d with
  | nil => simp [scopesOf]
  | cons entry outer ih =>
    obtain ⟨region, declared⟩ := entry
    rw [← Nat.or_exists_add_one]
    simp only [List.getElem?_cons_zero, List.getElem?_cons_succ, List.take_zero,
      List.take_succ_cons, Option.some.injEq, Prod.mk.injEq]
    cases h : region.isScope with
    | false =>
      have outside : scopesOf ((region, declared) :: outer) = scopesOf outer := by
        simp [scopesOf, h]
      simp only [outside, ih, countScopes, List.countP_cons, h]
      simp [h]
    | true =>
      have inside : scopesOf ((region, declared) :: outer) = declared :: scopesOf outer := by
        simp [scopesOf, h]
      rw [inside]
      cases d with
      | zero => simp [countScopes, h]
      | succ d => simp [ih, countScopes, h]

namespace Nesting

variable {text : Landmarks} {nest : List (Region × List String)}

theorem declaredAt_iff (h : Nesting text nest) {name : String} {d : Nat} :
    text.DeclaredAt name d ↔ ∃ names, (scopesOf nest)[d]? = some names ∧ name ∈ names := by
  simp only [getElem?_scopesOf]
  constructor
  · rintro ⟨earlier, l, later, rfl, declares, stays, count, inside⟩
    obtain ⟨t, known⟩ := Int.eq_ofNat_of_zero_le stays.depth_nonneg
    have split : earlier ++ l :: later = (earlier ++ [l]) ++ later := by simp
    obtain ⟨le, sum⟩ := h.scopes_later split stays known
    have whole := h.scopes_eq
    have reached : Reaches (earlier ++ l :: later) (·.declared? = some name) t :=
      ⟨earlier, l, later, rfl, declares, stays, known⟩
    have lt : t < nest.length := by
      refine Nat.lt_of_le_of_ne le ?_
      rintro rfl
      simp only [List.take_length] at sum
      simp [scopes, Landmark.change_of_declared declares] at whole sum inside
      omega
    obtain ⟨region, names, found, member⟩ := (h.declares_iff lt).mp reached
    exact ⟨names, ⟨t, region, found, h.isScope_of_mem (List.mem_of_getElem? found) member,
      by omega⟩, member⟩
  · rintro ⟨names, ⟨t, region, found, isScope, count⟩, member⟩
    obtain ⟨lt, -⟩ := List.getElem?_eq_some_iff.mp found
    obtain ⟨earlier, l, later, rfl, declares, stays, known⟩ :=
      (h.declares_iff lt).mpr ⟨region, names, found, member⟩
    have split : earlier ++ l :: later = (earlier ++ [l]) ++ later := by simp
    obtain ⟨-, sum⟩ := h.scopes_later split stays known
    refine ⟨earlier, l, later, rfl, declares, stays, by omega, ?_⟩
    have whole := h.scopes_eq
    have more := countScopes_take_lt found isScope
    simp [scopes, Landmark.change_of_declared declares] at whole sum ⊢
    omega

theorem lexicalDistance_iff (h : Nesting text nest) {name : String} {d : Nat} :
    text.LexicalDistance name d ↔ (scopesOf nest).distance? name = some d := by
  simp only [LexicalDistance, h.declaredAt_iff, Scopes.distance?, List.findIdx?_eq_some_iff_getElem,
    decide_eq_true_iff]
  constructor
  · rintro ⟨⟨names, found, member⟩, first⟩
    obtain ⟨lt, rfl⟩ := List.getElem?_eq_some_iff.mp found
    exact ⟨lt, member, fun closer before member' =>
      first closer before ⟨_, List.getElem?_eq_getElem (by omega), member'⟩⟩
  · rintro ⟨lt, member, first⟩
    refine ⟨⟨_, List.getElem?_eq_getElem lt, member⟩, ?_⟩
    rintro closer before ⟨names, found, member'⟩
    obtain ⟨lt', rfl⟩ := List.getElem?_eq_some_iff.mp found
    exact first closer before member'

theorem inside_iff (h : Nesting text nest) {p : Region → Bool} :
    text.Inside p ↔ ∃ region ∈ nest.map Prod.fst, p region = true := by
  constructor
  · rintro ⟨outer, region, inner, same, stays, kind⟩
    obtain ⟨t, known⟩ := Int.eq_ofNat_of_zero_le stays.depth_nonneg
    have found := h.opens_iff.mp ⟨outer, _, inner, same, rfl, stays, known⟩
    exact ⟨region, List.mem_of_getElem? found, kind⟩
  · rintro ⟨region, member, kind⟩
    obtain ⟨t, found⟩ := List.mem_iff_getElem?.mp member
    obtain ⟨outer, _, inner, same, rfl, stays, -⟩ := h.opens_iff.mpr found
    exact ⟨outer, region, inner, same, stays, kind⟩

theorem inner_of_depth_lt {outer outer' inner inner' : Landmarks} {region region' : Region}
    (same : outer ++ .opens region :: inner = outer' ++ .opens region' :: inner')
    (stays : Stays inner') (lt : depth inner' < depth inner) :
    ∃ between, inner = between ++ .opens region' :: inner' := by
  obtain ⟨between, -, rest⟩ | ⟨between, -, rest⟩ := List.append_eq_append_iff.mp same
  · cases between with
    | nil =>
      cases rest
      omega
    | cons _ between =>
      cases rest
      exact ⟨between, rfl⟩
  · cases between with
    | nil =>
      cases rest
      omega
    | cons _ between =>
      cases rest
      have := stays between (List.prefix_append _ _)
      simp [depth, Landmark.change] at lt this
      omega

theorem innermost_iff (h : Nesting text nest) {p : Region → Bool} {region : Region} :
    text.Innermost p region ↔ (nest.map Prod.fst).find? p = some region := by
  rw [List.find?_eq_some_iff_getElem]
  generalize regions : nest.map Prod.fst = open'
  have open_iff {t : Nat} {region : Region} :
      Reaches text (· = .opens region) t ↔ open'[t]? = some region := by
    rw [← regions]
    exact h.opens_iff
  constructor
  · rintro ⟨outer, inner, same, stays, kind, first⟩
    obtain ⟨t, known⟩ := Int.eq_ofNat_of_zero_le stays.depth_nonneg
    have found := open_iff.mp ⟨outer, _, inner, same, rfl, stays, known⟩
    obtain ⟨lt, rfl⟩ := List.getElem?_eq_some_iff.mp found
    refine ⟨kind, t, lt, rfl, fun t' before => ?_⟩
    rw [Bool.not_eq_true', Bool.eq_false_iff]
    intro kind'
    have found' : open'[t']? = some open'[t'] := List.getElem?_eq_getElem (by omega)
    obtain ⟨outer', _, inner', same', rfl, stays', known'⟩ := open_iff.mpr found'
    obtain ⟨between, inside⟩ := inner_of_depth_lt (same.symm.trans same') stays' (by omega)
    exact first ⟨between, _, inner', inside, stays', kind'⟩
  · rintro ⟨kind, t, lt, rfl, first⟩
    obtain ⟨outer, _, inner, same, rfl, stays, known⟩ :=
      open_iff.mpr (List.getElem?_eq_getElem lt)
    refine ⟨outer, inner, same, stays, kind, ?_⟩
    rintro ⟨between, region, inner', rfl, stays', kind'⟩
    obtain ⟨t', known'⟩ := Int.eq_ofNat_of_zero_le stays'.depth_nonneg
    have reached : Reaches text (· = .opens region) t' :=
      ⟨outer ++ .opens open'[t] :: between, _, inner', by simp [same], rfl, stays', known'⟩
    obtain ⟨lt', rfl⟩ := List.getElem?_eq_some_iff.mp (open_iff.mp reached)
    have := stays between (List.prefix_append _ _)
    simp [depth, Landmark.change] at known known' this
    have contrary := first t' (by omega)
    simp [kind'] at contrary

end Nesting

end Lox
