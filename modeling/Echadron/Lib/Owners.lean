import Echadron.Lib.JsMap

namespace Echadron.Lib
open List Option

/-! Values that have at most one owner each. -/

def Exclusive {V A : Type} (owns : V → A → Prop) : Prop := ∀ v a b, owns v a → owns v b → a = b

/-- Some owners get new values at once. Their values must differ from each other and from those of
the owners that keep theirs. -/
theorem Exclusive.overwrite {owns owns' : V → A → Prop} (h : Exclusive owns)
    (touched : A → Prop) (hkept : ∀ v a, ¬ touched a → owns' v a → owns v a)
    (hnew : ∀ v a b, touched a → touched b → owns' v a → owns' v b → a = b)
    (hcross : ∀ v a b, touched a → ¬ touched b → owns' v a → ¬ owns v b) : Exclusive owns' := by
  intro v a b ha hb
  by_cases hta : touched a
  · by_cases htb : touched b
    · exact hnew v a b hta htb ha hb
    · exact absurd (hkept v b htb hb) (hcross v a b hta htb ha)
  · by_cases htb : touched b
    · exact absurd (hkept v a hta ha) (hcross v b a htb hta hb)
    · exact h v a b (hkept v a hta ha) (hkept v b htb hb)

variable {V A ε : Type} [DecidableEq V] [DecidableEq A]

namespace JsMap

def ofOwners (notes : List (V × A)) : JsMap V A := notes.foldl (fun owner n => owner.set n.1 n.2) .empty

section

omit [DecidableEq A]

theorem get_foldl_set (notes : List (V × A)) (owner : JsMap V A) (v : V) (a : A) :
    (notes.foldl (fun owner n => owner.set n.1 n.2) owner).get v = some a →
      (v, a) ∈ notes ∨ owner.get v = some a := by
  induction notes generalizing owner with
  | nil => exact .inr
  | cons n notes ih =>
    intro h
    rcases ih (owner.set n.1 n.2) h with hmem | hget
    · exact .inl (mem_cons_of_mem _ hmem)
    · rw [get_set] at hget
      split at hget
      · rename_i hv
        obtain rfl := some.inj hget
        subst hv
        exact .inl (mem_cons_self ..)
      · exact .inr hget

theorem isSome_foldl_set (notes : List (V × A)) (owner : JsMap V A) (v : V)
    (h : v ∈ notes.map Prod.fst ∨ (owner.get v).isSome = true) :
    ((notes.foldl (fun owner n => owner.set n.1 n.2) owner).get v).isSome = true := by
  induction notes generalizing owner with
  | nil => exact h.resolve_left not_mem_nil
  | cons n notes ih =>
    apply ih
    rw [get_set]
    by_cases hv : v = n.1
    · rw [if_pos hv]
      exact .inr rfl
    · rw [if_neg hv]
      apply h.imp_left
      intro hmem
      exact (mem_cons.mp hmem).resolve_left hv

theorem get_ofOwners {notes : List (V × A)} (h : Exclusive fun v a => (v, a) ∈ notes)
    (hmem : (v, a) ∈ notes) : (ofOwners notes).get v = some a := by
  have hsome := isSome_foldl_set notes .empty v (.inl (mem_map_of_mem hmem))
  obtain ⟨b, hb⟩ := isSome_iff_exists.mp hsome
  have hb' := (get_foldl_set notes .empty v b hb).resolve_right nofun
  rw [ofOwners, hb, h v b a hb' hmem]

end

/-- Take a value, unless another owner has it. -/
def claim (owner : JsMap V A) (a : A) (v : V) (e : ε) : Except ε (JsMap V A) :=
  if (owner.get v).any fun b => decide (b ≠ a) then .error e else .ok (owner.set v a)

/-- No value has changed hands. -/
def Keeps (owner owner' : JsMap V A) : Prop := ∀ v a, owner.get v = some a → owner'.get v = some a

section

omit [DecidableEq A]

theorem Keeps.refl (owner : JsMap V A) : owner.Keeps owner := fun _ _ h => h

theorem Keeps.trans {a b c : JsMap V A} (h : a.Keeps b) (h' : b.Keeps c) : a.Keeps c :=
  fun v x hx => h' v x (h v x hx)

end

theorem claim_ok {owner owner' : JsMap V A} (h : owner.claim a v e = .ok owner') :
    owner.Keeps owner' ∧ owner'.get v = some a := by
  rw [claim] at h
  split at h
  · cases h
  · rename_i hfree
    cases h
    refine ⟨?_, get_set_self ..⟩
    intro w b hb
    rw [get_set]
    split
    · rename_i hw
      subst hw
      rw [hb, any_some, decide_eq_true_iff, not_not] at hfree
      rw [hfree]
    · exact hb

omit [DecidableEq A] in
theorem keeps_foldlM {α : Type} {step : JsMap V A → α → Except ε (JsMap V A)}
    {P : α → JsMap V A → Prop} (hmono : ∀ x owner owner', owner.Keeps owner' → P x owner → P x owner')
    (hstep : ∀ owner x owner', step owner x = .ok owner' → owner.Keeps owner' ∧ P x owner')
    {xs : List α} (h : xs.foldlM step owner = .ok owner') :
    owner.Keeps owner' ∧ ∀ x ∈ xs, P x owner' := by
  induction xs generalizing owner with
  | nil =>
    obtain rfl := Except.ok.inj h
    exact ⟨.refl _, nofun⟩
  | cons x xs ih =>
    rw [foldlM_cons] at h
    cases hx : step owner x with
    | error e =>
      rw [hx] at h
      cases h
    | ok owner₁ =>
      rw [hx] at h
      obtain ⟨hkeeps, hgiven⟩ := hstep owner x owner₁ hx
      obtain ⟨hkeeps', hrest⟩ := ih h
      refine ⟨hkeeps.trans hkeeps', ?_⟩
      intro y hy
      rcases mem_cons.mp hy with rfl | hy
      · exact hmono y owner₁ owner' hkeeps' hgiven
      · exact hrest y hy

end JsMap

theorem forM_ok {check : α → Except ε Unit} {xs : List α} (h : xs.forM check = .ok ()) :
    ∀ x ∈ xs, check x = .ok () := by
  induction xs with
  | nil => exact nofun
  | cons x xs ih =>
    change (check x >>= fun _ => xs.forM check) = .ok () at h
    cases hx : check x with
    | error e =>
      rw [hx] at h
      cases h
    | ok u =>
      rw [hx] at h
      exact forall_mem_cons.mpr ⟨hx, ih h⟩

end Echadron.Lib
