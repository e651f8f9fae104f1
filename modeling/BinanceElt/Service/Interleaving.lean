import Mathlib.Data.List.Perm.Basic

/-!
# Interleavings

What several sequences of actions can become when they take place at the same time: each
keeps its order, and nothing is said about the order between two of them.

When actions of different sequences commute, an interleaving has the effect of the
sequences one after the other.  When each sequence has at most one action, it is the
sequences in some order.

## Main results

* `Interleaves.filterMap` — what is looked at of the actions interleaves as well.
* `Interleaves.perm` — an interleaving has the actions of its sequences.
* `Interleaves.foldl_eq` — commuting sequences take effect as if one after the other.
* `Interleaves.exists_perm` — single actions take place in the order of some permutation.
-/

namespace Service

variable {α β ι σ : Type}

/-- `l` is an interleaving of the sequences `ls`: its first element is the next
one of some sequence.  Each sequence keeps its own order, and nothing is said
about how they take turns. -/
inductive Interleaves : List (List α) → List α → Prop
  | nil {ls : List (List α)} : (∀ l ∈ ls, l = []) → Interleaves ls []
  | cons {before after : List (List α)} {a : α} {next l : List α} :
      Interleaves (before ++ next :: after) l →
      Interleaves (before ++ (a :: next) :: after) (a :: l)

namespace Interleaves

variable {ls : List (List α)} {l : List α}

/-- Sequences one after the other are an interleaving. -/
theorem flatten (ls : List (List α)) : Interleaves ls ls.flatten := by
  induction ls with
  | nil => exact .nil (by simp)
  | cons l ls ih =>
      induction l with
      | nil =>
          have hskip : ∀ {ls l}, Interleaves ls l → Interleaves ([] :: ls : List (List α)) l := by
            intro ls l h
            induction h with
            | nil hnil => exact .nil (by simpa using hnil)
            | @cons before after a next l _ ih =>
                rw [← List.cons_append] at ih ⊢
                exact .cons ih
          exact hskip ih
      | cons a l ihl =>
          rw [← List.nil_append (l :: ls)] at ihl
          rw [← List.nil_append ((a :: l) :: ls)]
          exact .cons ihl

/-- A sequence takes place between two parts of another one. -/
theorem nested (first rest other : List α) :
    Interleaves [other, first ++ rest] (first ++ (other ++ rest)) := by
  induction first with
  | nil =>
      have hflat := flatten [other, rest]
      rwa [List.flatten_cons, List.flatten_singleton] at hflat
  | cons a first ih =>
      rw [← List.singleton_append (x := other)] at ih ⊢
      exact .cons ih

/-- What is looked at of the actions interleaves as well. -/
theorem filterMap (f : α → Option β) (h : Interleaves ls l) :
    Interleaves (ls.map fun l => l.filterMap f) (l.filterMap f) := by
  induction h with
  | nil hnil =>
      refine .nil fun l hl => ?_
      obtain ⟨l', hl', rfl⟩ := List.mem_map.mp hl
      rw [hnil l' hl']
      rfl
  | @cons before after a next l _ ih =>
      rw [List.map_append, List.map_cons] at ih ⊢
      cases ha : f a with
      | none => rwa [List.filterMap_cons_none ha, List.filterMap_cons_none ha]
      | some b =>
          rw [List.filterMap_cons_some ha, List.filterMap_cons_some ha]
          exact .cons ih

/-- An interleaving has the actions of its sequences. -/
theorem perm (h : Interleaves ls l) : l.Perm ls.flatten := by
  induction h with
  | nil hnil => rw [List.flatten_eq_nil_iff.mpr hnil]
  | @cons before after a next l _ ih =>
      rw [List.flatten_append, List.flatten_cons, List.cons_append] at *
      exact (ih.cons a).trans List.perm_middle.symm

/-! ## Commuting sequences -/

/-- An action moves to the front of those it commutes with. -/
private theorem foldl_comm {step : σ → α → σ} {a : α} {as : List α}
    (h : ∀ b ∈ as, ∀ s, step (step s b) a = step (step s a) b) (s : σ) :
    as.foldl step (step s a) = step (as.foldl step s) a := by
  induction as generalizing s with
  | nil => rfl
  | cons b as ih =>
      rw [List.foldl_cons, List.foldl_cons, ← h b List.mem_cons_self,
        ih fun c hc => h c (List.mem_cons_of_mem _ hc)]

/-- Sequences whose actions commute pairwise take effect as if one after the
other. -/
theorem foldl_eq {step : σ → α → σ} (h : Interleaves ls l)
    (hcomm : ls.Pairwise fun l l' => ∀ a ∈ l, ∀ b ∈ l', ∀ s,
      step (step s a) b = step (step s b) a) (s : σ) :
    l.foldl step s = ls.flatten.foldl step s := by
  induction h generalizing s with
  | nil hnil => rw [List.flatten_eq_nil_iff.mpr hnil]
  | @cons before after a next l _ ih =>
      obtain ⟨hbefore, hafter, hacross⟩ := List.pairwise_append.mp hcomm
      have hnext := List.pairwise_cons.mp hafter
      -- `a` commutes with everything that comes before it
      have hfront : ∀ b ∈ before.flatten, ∀ s, step (step s b) a = step (step s a) b := by
        intro b hb s
        obtain ⟨l', hl', hb⟩ := List.mem_flatten.mp hb
        exact hacross l' hl' _ List.mem_cons_self b hb a List.mem_cons_self s
      have hrest : (before ++ next :: after).Pairwise fun l l' => ∀ a ∈ l, ∀ b ∈ l', ∀ s,
          step (step s a) b = step (step s b) a := by
        refine List.pairwise_append.mpr ⟨hbefore, List.pairwise_cons.mpr ⟨?_, hnext.2⟩, ?_⟩
        · exact fun l' hl' c hc => hnext.1 l' hl' c (List.mem_cons_of_mem _ hc)
        · intro l' hl' l'' hl'' b hb c hc
          rcases List.mem_cons.mp hl'' with rfl | hl''
          · exact hacross l' hl' _ List.mem_cons_self b hb c (List.mem_cons_of_mem _ hc)
          · exact hacross l' hl' l'' (List.mem_cons_of_mem _ hl'') b hb c hc
      rw [List.foldl_cons, ih hrest, List.flatten_append, List.flatten_append, List.foldl_append,
        List.foldl_append, foldl_comm hfront]
      rfl

/-! ## Single actions -/

/-- Sequences of at most one action take place in some order. -/
private theorem exists_perm_sequences (h : Interleaves ls l) (hone : ∀ l ∈ ls, l.length ≤ 1) :
    ∃ ls' : List (List α), ls'.Perm ls ∧ l = ls'.flatten := by
  induction h with
  | @nil ls hnil => exact ⟨ls, .refl _, (List.flatten_eq_nil_iff.mpr hnil).symm⟩
  | @cons before after a next l _ ih =>
      have hlength : (a :: next).length ≤ 1 := hone _ (by simp)
      obtain rfl : next = [] := by
        rw [List.length_cons] at hlength
        exact List.eq_nil_of_length_eq_zero (by omega)
      obtain ⟨ls', hperm, rfl⟩ := ih fun l' hl' => by
        rcases List.mem_append.mp hl' with hl' | hl'
        · exact hone l' (by simp [hl'])
        · rcases List.mem_cons.mp hl' with rfl | hl'
          · simp
          · exact hone l' (by simp [hl'])
      -- the action takes the place of the sequence that has none left
      have hmem : [] ∈ ls' := hperm.mem_iff.mpr (by simp)
      obtain ⟨s, t, rfl⟩ := List.append_of_mem hmem
      have hrest : (s ++ t).Perm (before ++ after) :=
        (List.perm_middle.symm.trans (hperm.trans List.perm_middle)).cons_inv
      refine ⟨[a] :: (s ++ t), (hrest.cons _).trans List.perm_middle.symm, ?_⟩
      simp

/-- An interleaving of at most one action for each index is that of the indices
in some order. -/
theorem exists_perm {is : List ι} {f : ι → List α} (h : Interleaves (is.map f) l)
    (hone : ∀ i ∈ is, (f i).length ≤ 1) : ∃ is' : List ι, is'.Perm is ∧ l = is'.flatMap f := by
  obtain ⟨ls', hperm, rfl⟩ := exists_perm_sequences h fun l' hl' => by
    obtain ⟨i, hi, rfl⟩ := List.mem_map.mp hl'
    exact hone i hi
  have hmap := congrFun (congrFun (List.eq_map_comp_perm f) ls') is
  obtain ⟨is', rfl, hperm'⟩ := hmap.mpr hperm
  exact ⟨is', hperm', rfl⟩

end Interleaves

end Service
