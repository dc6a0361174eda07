import Mathlib.Logic.Function.Basic

namespace Echadron.Lib
open List Option

/-! A structure that is derived from a primary map and kept in step with it: `Tracks s f` says that
`s` holds what the entries of `f` give it, and nothing else. -/

variable {S K V : Type} [DecidableEq K]

theorem lookup_cons_of_not_mem
    (h : k ∉ entries.map Prod.fst) (f : K → Option V) (k' : K) :
    (((k, v) :: entries).lookup k').or (f k') = (entries.lookup k').or (Function.update f k (some v) k') := by
  rw [lookup_cons]
  by_cases hk : k' = k
  · subst hk
    have hnone : entries.lookup k' = none := by
      rw [lookup_eq_none_iff]
      intro e he
      apply bne_iff_ne.mpr
      rintro rfl
      exact h (mem_map.mpr ⟨e, he, rfl⟩)
    rw [beq_self_eq_true, hnone, Function.update_self]
    rfl
  · rw [beq_false_of_ne hk, Function.update_of_ne hk]

section

variable {Tracks : S → (K → Option V) → Prop} {add : S → K → V → S}
  (hadd : ∀ s f k v, Tracks s f → f k = none → Tracks (add s k v) (Function.update f k (some v)))
include hadd

theorem tracks_foldl (h : Tracks s f) {entries : List (K × V)}
    (hnodup : (entries.map Prod.fst).Nodup) (hnew : ∀ k ∈ entries.map Prod.fst, f k = none) :
    Tracks (entries.foldl (fun s e => add s e.1 e.2) s) fun k => (entries.lookup k).or (f k) := by
  induction entries generalizing s f with
  | nil => exact h
  | cons e entries ih =>
    obtain ⟨k, v⟩ := e
    rw [map_cons, nodup_cons] at hnodup
    have hfirst := hadd s f k v h (hnew k (mem_cons_self ..))
    have hrest := ih hfirst hnodup.2 (by
      intro k' hk'
      have hne : k' ≠ k := fun he => hnodup.1 (he ▸ hk')
      rw [Function.update_of_ne hne]
      exact hnew k' (mem_cons_of_mem _ hk'))
    simp only [lookup_cons_of_not_mem hnodup.1]
    exact hrest

theorem tracks_rebuild (h : Tracks s fun _ => none) {entries : List (K × V)} (hnodup : (entries.map Prod.fst).Nodup) :
    Tracks (entries.foldl (fun s e => add s e.1 e.2) s) fun k => entries.lookup k := by
  have hall := tracks_foldl hadd h hnodup fun _ _ => rfl
  simpa only [or_none] using hall

end

end Echadron.Lib
