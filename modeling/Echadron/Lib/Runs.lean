import Mathlib.Data.List.Forall2
import Mathlib.Data.Option.Basic

namespace Echadron.Lib

theorem mem_snoc {l : List α} : x ∈ l ++ [a] ↔ x ∈ l ∨ x = a := by
  rw [List.mem_append, List.mem_singleton]

theorem forall_mem_snoc {P : α → Prop} {l : List α} : (∀ x ∈ l ++ [a], P x) ↔ (∀ x ∈ l, P x) ∧ P a := by
  rw [List.forall_mem_append, List.forall_mem_singleton]

theorem getElem?_lt {l : List α} (h : l[i]? = some a) : i < l.length := (List.getElem?_eq_some_iff.mp h).1

variable {State Event : Type} {step : State → Event → Option State}

def AlongRun (step : State → Event → Option State) (P : State → Event → Prop) : State → List Event → Prop
  | _, [] => True
  | s, e :: es => P s e ∧ ∀ s' ∈ step s e, AlongRun step P s' es

instance AlongRun.decidable (step : State → Event → Option State) (P : State → Event → Prop)
    [∀ s e, Decidable (P s e)] (s : State) :
    (events : List Event) → Decidable (AlongRun step P s events)
  | [] => isTrue trivial
  | e :: es =>
    have := fun s' => AlongRun.decidable step P s' es
    inferInstanceAs (Decidable (P s e ∧ ∀ s' ∈ step s e, AlongRun step P s' es))

theorem AlongRun.of_forall
    (h : ∀ e ∈ events, Q e) : AlongRun step (fun _ => Q) s events := by
  induction events generalizing s with
  | nil => trivial
  | cons e events ih =>
    obtain ⟨he, hrest⟩ := List.forall_mem_cons.mp h
    exact ⟨he, fun s' _ => ih hrest⟩

/-- What each step preserves under a condition, a run preserves that meets the condition
throughout. -/
theorem AlongRun.invariant {I : State → Prop} (hstep : ∀ s e s', I s → P s e → step s e = some s' → I s')
    (hs : I s) (halong : AlongRun step P s events) (hrun : events.foldlM step s = some s') : I s' := by
  induction events generalizing s with
  | nil =>
    cases hrun
    exact hs
  | cons e events ih =>
    obtain ⟨s₁, h₁, hrun⟩ := Option.bind_eq_some_iff.mp hrun
    exact ih (hstep s e s₁ hs halong.1 h₁) (halong.2 s₁ h₁) hrun

theorem AlongRun.of_invariant {I : State → Prop} (hstep : ∀ s e s', I s → P s e → step s e = some s' → I s')
    (hq : ∀ s e, I s → P s e → Q s e)
    (hs : I s) (halong : AlongRun step P s events) : AlongRun step Q s events := by
  induction events generalizing s with
  | nil => trivial
  | cons e events ih =>
    refine ⟨hq s e hs halong.1, ?_⟩
    intro s' h'
    exact ih (hstep s e s' hs halong.1 h') (halong.2 s' h')

theorem run_invariant {I : State → Prop} (hstep : ∀ s e s', I s → step s e = some s' → I s')
    {events : List Event} (hs : I s) (hrun : events.foldlM step s = some s') : I s' := by
  have halong : AlongRun step (fun _ _ => True) s events := AlongRun.of_forall fun _ _ => trivial
  exact halong.invariant (fun s e s' h _ => hstep s e s' h) hs hrun

variable {α : Type} {f : State → α → State}

/-- Every element of a fold meets a condition on the state before it. -/
def AlongFold (f : State → α → State) (P : State → α → Prop) : State → List α → Prop
  | _, [] => True
  | s, a :: as => P s a ∧ AlongFold f P (f s a) as

instance AlongFold.decidable (f : State → α → State) (P : State → α → Prop)
    [∀ s a, Decidable (P s a)] (s : State) : (as : List α) → Decidable (AlongFold f P s as)
  | [] => isTrue trivial
  | a :: as =>
    have := AlongFold.decidable f P (f s a) as
    inferInstanceAs (Decidable (P s a ∧ AlongFold f P (f s a) as))

theorem AlongFold.invariant {I : State → Prop} (hstep : ∀ s a, I s → P s a → I (f s a)) (hs : I s)
    (halong : AlongFold f P s as) : I (as.foldl f s) := by
  induction as generalizing s with
  | nil => exact hs
  | cons a as ih => exact ih (hstep s a hs halong.1) halong.2

theorem AlongFold.and_forall {Q : α → Prop}
    (h : AlongFold f P s as) (hq : ∀ a ∈ as, Q a) : AlongFold f (fun s a => P s a ∧ Q a) s as := by
  induction as generalizing s with
  | nil => trivial
  | cons a as ih =>
    obtain ⟨ha, has⟩ := List.forall_mem_cons.mp hq
    exact ⟨⟨h.1, ha⟩, ih h.2 has⟩

theorem fold_invariant_mem {I : State → Prop} {as : List α}
    (hstep : ∀ s, ∀ a ∈ as, I s → I (f s a)) (hs : I s) : I (as.foldl f s) := by
  induction as generalizing s with
  | nil => exact hs
  | cons a as ih =>
    have hfirst := hstep s a (List.mem_cons_self ..) hs
    exact ih (fun s a ha => hstep s a (List.mem_cons_of_mem _ ha)) hfirst

theorem fold_invariant {I : State → Prop} (hstep : ∀ s a, I s → I (f s a)) (hs : I s)
    (as : List α) : I (as.foldl f s) :=
  fold_invariant_mem (fun s a _ => hstep s a) hs

end Echadron.Lib

namespace Echadron.Lib

/-! Properties of each entry of a history, given the history before it. -/

variable {α : Type} {P Q : List α → α → Prop} {history : List α} {x : α}

def Throughout (P : List α → α → Prop) (history : List α) : Prop :=
  ∀ before x after, history = before ++ x :: after → P before x

theorem Throughout.nil : Throughout P [] := by
  intro before x after hsplit
  cases before <;> cases hsplit

theorem Throughout.concat (h : Throughout P history) (hx : P history x) : Throughout P (history ++ [x]) := by
  intro before y after hsplit
  rcases List.eq_nil_or_concat after with rfl | ⟨after', z, rfl⟩
  · obtain ⟨rfl, hyx⟩ := List.append_inj' hsplit rfl
    obtain rfl := List.singleton_inj.mp hyx
    exact hx
  · rw [List.concat_eq_append, ← List.cons_append, ← List.append_assoc] at hsplit
    exact h before y after' (List.append_inj' hsplit rfl).1

end Echadron.Lib

namespace Echadron.Lib
open List

/-- `Interleaving a b c`: `c` is made of the elements of `a` and of `b`, each list in its order. -/
inductive Interleaving {α : Type} : List α → List α → List α → Prop where
  | nil : Interleaving [] [] []
  | left {x : α} {a b c : List α} : Interleaving a b c → Interleaving (x :: a) b (x :: c)
  | right {x : α} {a b c : List α} : Interleaving a b c → Interleaving a (x :: b) (x :: c)

namespace Interleaving

variable {α : Type} {a b c a' b' c' : List α}

theorem append (h : Interleaving a b c) (h' : Interleaving a' b' c') :
    Interleaving (a ++ a') (b ++ b') (c ++ c') := by
  induction h with
  | nil => exact h'
  | left _ ih => exact .left ih
  | right _ ih => exact .right ih

theorem all_left (xs : List α) : Interleaving xs [] xs := by
  induction xs with
  | nil => exact .nil
  | cons x xs ih => exact .left ih

theorem all_right (xs : List α) : Interleaving [] xs xs := by
  induction xs with
  | nil => exact .nil
  | cons x xs ih => exact .right ih

theorem append_left (h : Interleaving a b c) (xs : List α) : Interleaving (a ++ xs) b (c ++ xs) := by
  simpa using h.append (all_left xs)

theorem append_right (h : Interleaving a b c) (xs : List α) : Interleaving a (b ++ xs) (c ++ xs) := by
  simpa using h.append (all_right xs)

theorem mem_iff (h : Interleaving a b c) (x : α) : x ∈ c ↔ x ∈ a ∨ x ∈ b := by
  induction h with
  | nil => simp
  | left _ ih => rw [mem_cons, mem_cons, ih, or_assoc]
  | right _ ih => rw [mem_cons, mem_cons, ih, or_left_comm]

theorem split_right (h : Interleaving a (b₁ ++ x :: b₂) c) : ∃ a₁ a₂ c₁ c₂, a = a₁ ++ a₂ ∧ c = c₁ ++ x :: c₂ ∧
      Interleaving a₁ b₁ c₁ ∧ Interleaving a₂ b₂ c₂ := by
  generalize he : b₁ ++ x :: b₂ = b at h
  induction h generalizing b₁ with
  | nil => simp at he
  | @left y a b c h ih =>
    obtain ⟨a₁, a₂, c₁, c₂, rfl, rfl, h₁, h₂⟩ := ih he
    exact ⟨y :: a₁, a₂, y :: c₁, c₂, rfl, rfl, .left h₁, h₂⟩
  | @right y a b c h ih =>
    cases b₁ with
    | nil =>
      obtain ⟨rfl, rfl⟩ := cons_eq_cons.mp he
      exact ⟨[], a, [], c, rfl, rfl, .nil, h⟩
    | cons z b₁ =>
      obtain ⟨rfl, hb⟩ := cons_eq_cons.mp he
      obtain ⟨a₁, a₂, c₁, c₂, rfl, rfl, h₁, h₂⟩ := ih hb
      exact ⟨a₁, a₂, z :: c₁, c₂, rfl, rfl, .right h₁, h₂⟩

end Interleaving

end Echadron.Lib

namespace Echadron.Lib
open List

/-! What follows from a computation that has not failed. -/

theorem map_ok {x : Except ε α} (h : x.map f = .ok b) : ∃ a, x = .ok a ∧ f a = b := by
  cases x with
  | error e => cases h
  | ok a => exact ⟨a, rfl, Except.ok.inj h⟩

theorem bind_ok {f : α → Except ε β} (h : x >>= f = .ok b) : ∃ a, x = .ok a ∧ f a = .ok b := by
  cases x with
  | error e => cases h
  | ok a => exact ⟨a, rfl, h⟩

/-- Each element of a list that is mapped as a whole is mapped. -/
theorem forall₂_of_mapM {f : α → Except ε β} {ys : List β} (h : xs.mapM f = .ok ys) :
    List.Forall₂ (fun x y => f x = .ok y) xs ys := by
  induction xs generalizing ys with
  | nil =>
    cases h
    exact .nil
  | cons x xs ih =>
    rw [mapM_cons] at h
    obtain ⟨y, hy, h⟩ := bind_ok h
    obtain ⟨ys, hys, h⟩ := bind_ok h
    cases h
    exact .cons hy (ih hys)

theorem foldlM_appends {f : List β → α → Except ε (List β)}
    (hstep : ∀ out x out', f out x = .ok out' → ∃ added, out' = out ++ added ∧ R x added)
    {out out' : List β} (h : xs.foldlM f out = .ok out') :
    ∃ added, out' = out ++ added.flatten ∧ List.Forall₂ R xs added := by
  induction xs generalizing out with
  | nil =>
    cases h
    exact ⟨[], (append_nil _).symm, .nil⟩
  | cons x xs ih =>
    obtain ⟨next, hnext, h⟩ := bind_ok h
    obtain ⟨first, rfl, hfirst⟩ := hstep out x next hnext
    obtain ⟨rest, rfl, hrest⟩ := ih h
    exact ⟨first :: rest, by rw [flatten_cons, append_assoc], .cons hfirst hrest⟩

/-- A fold whose steps never fail does not fail. -/
theorem foldlM_total {f : β → α → Except ε β} (hstep : ∀ acc x, ∃ next, f acc x = .ok next) (xs : List α) (acc : β) :
    ∃ out, xs.foldlM f acc = .ok out := by
  induction xs generalizing acc with
  | nil => exact ⟨acc, rfl⟩
  | cons x xs ih =>
    obtain ⟨next, hnext⟩ := hstep acc x
    obtain ⟨out, hout⟩ := ih next
    refine ⟨out, ?_⟩
    rw [foldlM_cons, hnext]
    exact hout

end Echadron.Lib
