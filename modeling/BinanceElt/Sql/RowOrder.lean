import BinanceElt.Sql.Merge
import BinanceElt.Sql.Window
import Mathlib.Data.List.Perm.Basic

/-!
# Queries and the order of the rows

A table has no row order.  Every operator of a query takes tables with the same
rows to tables with the same rows, whatever the order they are listed in, and
fails on both or on none; so does a merge into a table.  The window function
needs keys without ties for that.

## Main results

* `innerJoin_perm`, `leftJoin_perm`, `map_groupBy_perm`, `lagOver_perm` — the
  operators.
* `SameRows.bind`, `sameRows_mapM` — queries that may fail.
* `merge_sameRows`, `tableAfter_perm` — a run of an incremental model.
-/

namespace Sql

universe u

variable {α β γ κ π : Type*}

/-! ## Operators -/

theorem innerJoin_perm {as as' : List α} {bs bs' : List β} (on : α → β → Bool)
    (ha : as.Perm as') (hb : bs.Perm bs') :
    (innerJoin as bs on).Perm (innerJoin as' bs' on) :=
  (ha.flatMap_right _).trans (List.Perm.flatMap_left _ fun _ _ => (hb.filter _).map _)

theorem leftJoin_perm {as as' : List α} {bs bs' : List β} (on : α → β → Bool)
    (ha : as.Perm as') (hb : bs.Perm bs') :
    (leftJoin as bs on).Perm (leftJoin as' bs' on) := by
  refine (ha.flatMap_right _).trans (List.Perm.flatMap_left _ fun a _ => ?_)
  have hmatched := hb.filter (on a)
  cases hbs : bs.filter (on a) with
  | nil =>
      rw [hbs] at hmatched
      rw [List.nil_perm.mp hmatched]
  | cons b matched =>
      cases hbs' : bs'.filter (on a) with
      | nil =>
          rw [hbs, hbs', List.perm_nil] at hmatched
          cases hmatched
      | cons b' matched' =>
          rw [hbs, hbs'] at hmatched
          exact hmatched.map fun c => (a, some c)

/-- Aggregates that do not depend on the order of a group, over the groups of
the same rows. -/
theorem map_groupBy_perm [DecidableEq κ] {key : α → κ} {rows rows' : List α}
    {f : κ × List α → γ} (h : rows.Perm rows')
    (hf : ∀ k as bs, as.Perm bs → f (k, as) = f (k, bs)) :
    ((groupBy key rows).map f).Perm ((groupBy key rows').map f) := by
  rw [groupBy, groupBy, List.map_map, List.map_map]
  have hgroups : (f ∘ fun k => (k, rows.filter fun r => key r = k)) =
      f ∘ fun k => (k, rows'.filter fun r => key r = k) :=
    funext fun k => hf k _ _ (h.filter _)
  rw [hgroups]
  exact ((h.map key).dedup).map _

/-- Without ties the window order is that of the rows, not of the list. -/
theorem lagOver_perm [DecidableEq π] [LinearOrder κ] {part : α → π} {ord : α → κ}
    {rows rows' : List α} (h : rows.Perm rows')
    (hnodup : (rows.map fun r => (part r, ord r)).Nodup) :
    (lagOver part ord rows).Perm (lagOver part ord rows') := by
  have hnodup' := (h.map fun r => (part r, ord r)).nodup_iff.mp hnodup
  have hlag : ∀ {rs : List α}, (rs.map fun r => (part r, ord r)).Nodup →
      (lagOver part ord rs).Nodup := fun hrs =>
    List.Nodup.of_map Prod.fst (map_fst_lagOver_perm.nodup_iff.mpr (List.Nodup.of_map _ hrs))
  refine (List.perm_ext_iff_of_nodup (hlag hnodup) (hlag hnodup')).mpr fun ⟨a, p⟩ => ?_
  rw [mem_lagOver hnodup, mem_lagOver hnodup', h.mem_iff]
  have hpart : ∀ b, b ∈ rows.filter (fun b => part b = part a) ↔
      b ∈ rows'.filter fun b => part b = part a := fun b => (h.filter _).mem_iff
  exact and_congr_right fun _ => ⟨fun hp => hp.congr hpart, fun hp =>
    hp.congr fun b => (hpart b).symm⟩

/-! ## Queries that may fail -/

/-- Two queries give the same rows, or both fail. -/
inductive SameRows {ε : Type*} : Except ε (List α) → Except ε (List α) → Prop
  | ok {as bs : List α} : as.Perm bs → SameRows (.ok as) (.ok bs)
  | error (e e' : ε) : SameRows (.error e) (.error e')

section SameRows

variable {ε : Type*} {x y : Except ε (List α)}

theorem SameRows.symm (h : SameRows x y) : SameRows y x := by
  cases h with
  | ok h => exact .ok h.symm
  | error e e' => exact .error e' e

/-- They succeed together. -/
theorem SameRows.exists_ok_iff (h : SameRows x y) :
    (∃ as, x = .ok as) ↔ ∃ bs, y = .ok bs := by
  cases h with
  | ok h => exact ⟨fun _ => ⟨_, rfl⟩, fun _ => ⟨_, rfl⟩⟩
  | error e e' => simp

/-- It is enough that each gives the rows of the other. -/
theorem sameRows_of_ok (h : ∀ as, x = .ok as → ∃ bs, y = .ok bs ∧ as.Perm bs)
    (h' : ∀ bs, y = .ok bs → ∃ as, x = .ok as) : SameRows x y := by
  cases x with
  | ok as =>
      obtain ⟨bs, rfl, hperm⟩ := h as rfl
      exact .ok hperm
  | error e =>
      cases y with
      | ok bs =>
          obtain ⟨as, has⟩ := h' bs rfl
          cases has
      | error e' => exact .error e e'

/-- A step over the result of the one before. -/
theorem SameRows.bind {δ η : Type u} {x y : Except ε (List δ)}
    {f g : List δ → Except ε (List η)} (h : SameRows x y)
    (hf : ∀ as bs, x = .ok as → y = .ok bs → as.Perm bs → SameRows (f as) (g bs)) :
    SameRows (x >>= f) (y >>= g) := by
  cases h with
  | ok h => exact hf _ _ rfl rfl h
  | error e e' => exact .error e e'

/-- A select list that may fail, over the same rows. -/
theorem sameRows_mapM {f : α → Except ε β} {as as' : List α} (h : as.Perm as') :
    SameRows (as.mapM f) (as'.mapM f) := by
  have hforward : ∀ {as as' : List α}, as.Perm as' → ∀ bs, as.mapM f = .ok bs →
      ∃ bs', as'.mapM f = .ok bs' ∧ bs.Perm bs' := by
    intro as as' h bs hbs
    obtain ⟨bs', hbs', hperm⟩ := List.perm_comp_forall₂ h.symm (mapM_eq_ok_iff.mp hbs)
    exact ⟨bs', mapM_eq_ok_iff.mpr hbs', hperm.symm⟩
  refine sameRows_of_ok (hforward h) fun bs hbs => ?_
  obtain ⟨bs', hbs', -⟩ := hforward h.symm bs hbs
  exact ⟨bs', hbs'⟩

end SameRows

/-! ## Incremental models -/

section Merge

variable [DecidableEq κ] {key : α → κ}

/-- At most one row is found, wherever it stands. -/
private theorem find?_perm {p : α → Bool} {as bs : List α} (h : as.Perm bs)
    (hone : (as.filter p).length ≤ 1) : as.find? p = bs.find? p := by
  have hfilter : as.filter p = bs.filter p := by
    have hperm := h.filter p
    match hm : as.filter p with
    | [] => rw [hm] at hperm; exact (List.nil_perm.mp hperm).symm
    | [a] => rw [hm] at hperm; exact (List.singleton_perm.mp hperm)
    | _ :: _ :: _ => rw [hm] at hone; simp at hone
  rw [← List.head?_filter, ← List.head?_filter, hfilter]

theorem merge_sameRows {target target' source source' : List α} (ht : target.Perm target')
    (hs : source.Perm source') :
    SameRows (merge key target source) (merge key target' source') := by
  have hforward : ∀ {target target' source source' : List α}, target.Perm target' →
      source.Perm source' → ∀ merged, merge key target source = .ok merged →
        ∃ merged', merge key target' source' = .ok merged' ∧ merged.Perm merged' := by
    intro target target' source source' ht hs merged hmerge
    obtain ⟨hone, rfl⟩ := merge_eq_ok_iff.mp hmerge
    refine ⟨_, merge_eq_ok_iff.mpr ⟨fun t htt => ?_, rfl⟩, List.Perm.append ?_ ?_⟩
    · rw [← (hs.filter _).length_eq]
      exact hone t (ht.mem_iff.mpr htt)
    · refine (ht.map _).trans (List.Perm.of_eq (List.map_congr_left fun t htt => ?_))
      rw [find?_perm hs (hone t (ht.mem_iff.mpr htt))]
    · refine (hs.filter _).trans (List.Perm.of_eq (List.filter_congr fun s _ => ?_))
      simp only [ht.mem_iff]
  refine sameRows_of_ok (hforward ht hs) fun bs hbs => ?_
  obtain ⟨as, has, -⟩ := hforward ht.symm hs.symm bs hbs
  exact ⟨as, has⟩

/-- The same table: missing in both cases, or with the same rows. -/
abbrev SameTable (x y : Option (List α)) : Prop := Option.Rel List.Perm x y

variable {target target' : Option (List α)} {fullRefresh : Bool}
  {query query' : Bool → Except QueryError (List α)}

theorem isIncremental_congr (h : SameTable target target') :
    isIncremental target fullRefresh = isIncremental target' fullRefresh := by
  cases h <;> rfl

theorem materialize_sameRows (h : SameTable target target')
    (hquery : ∀ mode, SameRows (query mode) (query' mode)) :
    SameRows (materialize key target fullRefresh query)
      (materialize key target' fullRefresh query') := by
  unfold materialize
  rw [isIncremental_congr h]
  refine (hquery _).bind fun source source' _ _ hsource => ?_
  cases h with
  | none => exact .ok hsource
  | some h =>
      cases fullRefresh with
      | true => exact .ok hsource
      | false => exact merge_sameRows h hsource

/-- The table after a run does not depend on the order of the rows, neither of
the output nor of the table before. -/
theorem tableAfter_perm (h : SameTable target target')
    (hquery : ∀ mode, SameRows (query mode) (query' mode)) :
    SameTable (tableAfter key target fullRefresh query)
      (tableAfter key target' fullRefresh query') := by
  have hrows : SameRows (materialize key target fullRefresh query)
      (materialize key target' fullRefresh query') := materialize_sameRows h hquery
  unfold tableAfter
  generalize materialize key target fullRefresh query = x at hrows
  generalize materialize key target' fullRefresh query' = y at hrows
  cases hrows with
  | ok hperm => exact .some hperm
  | error e e' => exact h

end Merge

end Sql
