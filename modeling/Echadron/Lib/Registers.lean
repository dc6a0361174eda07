import Mathlib.Data.Option.Basic
import Mathlib.Data.List.Induction

namespace Echadron.Lib
open List Option

/-! Registers whose writes are replayed over what they have written. A value that has the key of the
current one is not written. -/

variable {V K : Type} [DecidableEq K]

inductive Write (V : Type) where
  | put (v : V)
  | clear
  | amend (g : Option V → Option V)

def Write.run (key : V → K) : Write V → Option V → Option V
  | put v, x => if x.map key = some (key v) then x else some v
  | clear, _ => none
  | amend g, x => g x

def Write.skip : Write V := .amend id

def runWrites (key : V → K) (writes : List (Write V)) (x : Option V) : Option V :=
  writes.foldl (fun x w => w.run key x) x

/-- An amendment leaves values alone that their key does not determine. -/
def Write.Settled (exact : V → Prop) : Write V → Prop
  | put _ => True
  | clear => True
  | amend g => ∀ v, ¬exact v → g (some v) = some v

def Write.isAmend : Write V → Prop
  | amend _ => True
  | _ => False

variable {key : V → K} {exact : V → Prop} {writes : List (Write V)}

theorem runWrites_append (writes writes' : List (Write V)) (x : Option V) :
    runWrites key (writes ++ writes') x = runWrites key writes' (runWrites key writes x) :=
  foldl_append

theorem runWrites_none (h : ∀ w ∈ writes, w.run key none = none) : runWrites key writes none = none := by
  induction writes with
  | nil => rfl
  | cons w writes ih =>
    obtain ⟨hw, hwrites⟩ := forall_mem_cons.mp h
    rw [runWrites, foldl_cons, hw]
    exact ih hwrites

theorem Write.run_put_key (v : V) (x : Option V) : ((put v).run key x).map key = some (key v) := by
  rw [run]
  split
  · assumption
  · rfl

/-- A list of writes either forgets where it starts, or stays within the values of one key that does
not determine them, or only amends. -/
inductive Kind (key : V → K) (exact : V → Prop) (writes : List (Write V)) : Prop where
  | const (c : Option V) (h : ∀ x, runWrites key writes x = c)
  | within (v : V) (hv : ¬exact v) (h : ∀ x, (runWrites key writes x).map key = some (key v))
    (hkeep : ∀ x, x.map key = some (key v) → runWrites key writes x = x)
  | amends (h : ∀ w ∈ writes, w.isAmend)

theorem runWrites_of_amends (hsettled : ∀ w ∈ writes, w.Settled exact)
    (hamend : ∀ w ∈ writes, w.isAmend) (hv : ¬exact v) :
    runWrites key writes (some v) = some v := by
  induction writes with
  | nil => rfl
  | cons w writes ih =>
    obtain ⟨hw, hwrites⟩ := forall_mem_cons.mp hsettled
    obtain ⟨hwamend, hamends⟩ := forall_mem_cons.mp hamend
    cases w with
    | put u => exact hwamend.elim
    | clear => exact hwamend.elim
    | amend g =>
      rw [runWrites, foldl_cons, Write.run, hw v hv]
      exact ih hwrites hamends

section

variable (hexact : ∀ v w, exact v → key w = key v → w = v) (hsettled : ∀ w ∈ writes, w.Settled exact)
include hexact hsettled

theorem kind_put (hkind : Kind key exact writes) (v : V) : Kind key exact (writes ++ [.put v]) := by
  have hrun (x : Option V) : runWrites key (writes ++ [.put v]) x =
      (Write.put v).run key (runWrites key writes x) :=
    runWrites_append writes [.put v] x
  by_cases hv : exact v
  · apply Kind.const (some v)
    intro x
    rw [hrun, Write.run]
    split
    · rename_i hkey
      obtain ⟨w, hw, hkey⟩ := map_eq_some_iff.mp hkey
      rw [hw, hexact v w hv hkey]
    · rfl
  · cases hkind with
    | const c h =>
      apply Kind.const ((Write.put v).run key c)
      intro x
      rw [hrun, h]
    | within u hu h hkeep =>
      by_cases hsame : key u = key v
      · apply Kind.within v hv
        · intro x
          rw [hrun]
          exact Write.run_put_key v _
        · intro x hx
          rw [hrun, hkeep x (hx.trans (congrArg some hsame.symm)), Write.run, if_pos hx]
      · apply Kind.const (some v)
        intro x
        rw [hrun, Write.run, h, if_neg]
        exact fun he => hsame (some.inj he)
    | amends h =>
      apply Kind.within v hv
      · intro x
        rw [hrun]
        exact Write.run_put_key v _
      · intro x hx
        obtain ⟨w, rfl, hkey⟩ := map_eq_some_iff.mp hx
        have hw : ¬exact w := fun hw => hv (hexact w v hw hkey.symm ▸ hw)
        rw [hrun, runWrites_of_amends hsettled h hw, Write.run, if_pos hx]

theorem kind : Kind key exact writes := by
  induction writes using reverseRecOn with
  | nil => exact .amends (forall_mem_nil _)
  | append_singleton writes w ih =>
    have hbefore : ∀ w ∈ writes, w.Settled exact :=
      fun w hw => hsettled w (mem_append_left _ hw)
    have hlast := hsettled w (mem_append_right _ (mem_singleton_self w))
    have hrun (x : Option V) : runWrites key (writes ++ [w]) x = w.run key (runWrites key writes x) :=
      runWrites_append writes [w] x
    cases w with
    | put v => exact kind_put hexact hbefore (ih hbefore) v
    | clear => exact .const none hrun
    | amend g =>
      cases ih hbefore with
      | const c h =>
        apply Kind.const (g c)
        intro x
        rw [hrun, h, Write.run]
      | within v hv h hkeep =>
        have hsame (x : Option V) : runWrites key (writes ++ [.amend g]) x = runWrites key writes x := by
          obtain ⟨w, hw, hkey⟩ := map_eq_some_iff.mp (h x)
          rw [hrun, hw]
          exact hlast w fun hw' => hv (hexact w v hw' hkey.symm ▸ hw')
        apply Kind.within v hv
        · exact fun x => (congrArg _ (hsame x)).trans (h x)
        · exact fun x hx => (hsame x).trans (hkeep x hx)
      | amends h =>
        apply Kind.amends
        intro w hw
        rcases mem_append.mp hw with hw | hw
        · exact h w hw
        · obtain rfl := mem_singleton.mp hw
          trivial

theorem runWrites_absorbed (hamends : (∀ w ∈ writes, w.isAmend) →
      runWrites key writes (runWrites key writes x) = runWrites key writes x) :
    runWrites key writes (runWrites key writes x) = runWrites key writes x := by
  cases kind hexact hsettled with
  | const c h => rw [h, h]
  | within v hv h hkeep => exact hkeep _ (h x)
  | amends h => exact hamends h

end

theorem runWrites_absorbed_of_keeping (hexact : ∀ w ∈ writes, w.Settled fun _ => False) (x : Option V) :
    runWrites key writes (runWrites key writes x) = runWrites key writes x := by
  apply runWrites_absorbed (fun _ _ h => h.elim) hexact
  intro hamends
  have hkeep : ∀ v, runWrites key writes (some v) = some v := fun v =>
    runWrites_of_amends hexact hamends not_false
  cases hrun : runWrites key writes x with
  | some v => exact hkeep v
  | none =>
    cases x with
    | none => exact hrun
    | some v =>
      rw [hkeep] at hrun
      cases hrun

theorem exists_last {p : α → Prop} (h : ∃ x ∈ xs, p x) :
    ∃ pre x post, xs = pre ++ x :: post ∧ p x ∧ ∀ y ∈ post, ¬p y := by
  induction xs with
  | nil =>
    obtain ⟨x, hx, _⟩ := h
    cases hx
  | cons a xs ih =>
    by_cases hrest : ∃ x ∈ xs, p x
    · obtain ⟨pre, x, post, rfl, hx, hpost⟩ := ih hrest
      exact ⟨a :: pre, x, post, rfl, hx, hpost⟩
    · have hnone : ∀ y ∈ xs, ¬p y := fun y hy hp => hrest ⟨y, hy, hp⟩
      obtain ⟨x, hx, hp⟩ := h
      rcases mem_cons.mp hx with rfl | hx
      · exact ⟨[], x, xs, rfl, hp, hnone⟩
      · exact absurd hp (hnone x hx)

/-! A value that may be absent, written where it is there. -/

def Write.ofOption : Option V → Write V
  | some v => .put v
  | none => .skip

theorem run_ofOption [DecidableEq V] (o x : Option V) : (Write.ofOption o).run id x = o.or x := by
  cases o with
  | none => rfl
  | some v =>
    rw [Write.ofOption, Write.run]
    split
    · rename_i h
      rwa [Option.map_id] at h
    · rfl

theorem settled_ofOption (o : Option V) : (Write.ofOption o).Settled fun _ => False := by
  cases o with
  | none => exact fun _ _ => rfl
  | some v => trivial

end Echadron.Lib
