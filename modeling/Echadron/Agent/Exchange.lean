import Mathlib.Data.List.Nodup
import Mathlib.Data.List.Chain
import Echadron.Agent.Message

namespace Echadron.Agent
open List

/-- `r` is a tool message holding the result of `c`. -/
def Answers (c : ToolCall) (r : Message) : Prop := r.role = .tool ∧ r.toolCallId = some c.id ∧ r.toolCalls = []

/-- A list of messages in which every message with tool calls is followed by its results. -/
inductive Exchanges : List Message → Prop where
  | nil : Exchanges []
  | cons {m : Message} {rs rest : List Message} : m.role ≠ .tool →
      (m.role ≠ .assistant → m.toolCalls = []) →
      List.Forall₂ Answers m.toolCalls rs → Exchanges rest → Exchanges (m :: (rs ++ rest))

def callIds (calls : List ToolCall) : List String := calls.map ToolCall.id

def declaredIds (out : List Message) : List String := out.flatMap fun m => callIds m.toolCalls

def toolRun (out : List Message) : List Message := out.takeWhile fun m => decide (m.role = .tool)

/-- What a strict provider demands of the messages of a request. -/
structure WellFormedRequest (out : List Message) : Prop where
  answered : ∀ pre m post, out = pre ++ m :: post → m.role = .assistant →
    (toolRun post).map Message.toolCallId = m.toolCalls.map fun c => some c.id
  no_stray : ∀ pre r post, out = pre ++ r :: post → r.role = .tool →
    ∃ pre' a run, pre = pre' ++ a :: run ∧ a.role = .assistant ∧ ∀ x ∈ run, x.role = .tool
  ids_distinct : (declaredIds out).Nodup
  no_adjacent : ∀ pre a b post, out = pre ++ a :: b :: post → ¬ (a.role = .assistant ∧ b.role = .assistant)
  starts_user : ∀ m post, out = m :: post → m.role = .user

theorem Answers.all_tool (h : List.Forall₂ Answers cs rs) : ∀ r ∈ rs, r.role = .tool := by
  induction h with
  | nil => simp
  | cons hr _ ih =>
    intro r hm
    rcases mem_cons.mp hm with rfl | hm
    · exact hr.1
    · exact ih r hm

theorem Answers.ids (h : List.Forall₂ Answers cs rs) : rs.map Message.toolCallId = cs.map fun c => some c.id := by
  induction h with
  | nil => rfl
  | cons hr _ ih => rw [map_cons, map_cons, hr.2.1, ih]

theorem Answers.declared (h : List.Forall₂ Answers cs rs) : declaredIds rs = [] := by
  induction h with
  | nil => rfl
  | cons hr _ ih =>
    rw [declaredIds, flatMap_cons, hr.2.2]
    exact ih

theorem Exchanges.append (ha : Exchanges a) (hb : Exchanges b) : Exchanges (a ++ b) := by
  induction ha with
  | nil => exact hb
  | cons hr hc hrs _ ih =>
    rw [cons_append, append_assoc]
    exact .cons hr hc hrs ih

theorem Exchanges.single (hr : m.role ≠ .tool) (hc : m.toolCalls = []) : Exchanges [m] := by
  have hrs : List.Forall₂ Answers m.toolCalls [] := by rw [hc]; exact .nil
  have he := Exchanges.cons hr (fun _ => hc) hrs .nil
  exact he

theorem Exchanges.split (h : Exchanges (pre ++ m :: post)) (hm : m.role ≠ .tool) :
    Exchanges pre ∧ Exchanges (m :: post) := by
  generalize he : pre ++ m :: post = out at h
  induction h generalizing pre with
  | nil => simp at he
  | @cons m₀ rs rest hr hc hrs hrest ih =>
    cases pre with
    | nil =>
      obtain ⟨rfl, rfl⟩ := cons_eq_cons.mp he
      exact ⟨.nil, .cons hr hc hrs hrest⟩
    | cons a pre =>
      obtain ⟨rfl, ht⟩ := cons_eq_cons.mp he
      rcases append_eq_append_iff.mp ht with ⟨x, hx, hpost⟩ | ⟨y, hy, hrest'⟩
      · -- the cut would fall inside the results of `m₀`
        cases x with
        | nil =>
          subst hx
          have h' := @ih [] hpost
          exact ⟨by simpa using Exchanges.cons hr hc hrs .nil, h'.2⟩
        | cons b x =>
          obtain ⟨rfl, rfl⟩ := cons_eq_cons.mp hpost
          have hb := Answers.all_tool hrs m (by rw [hx]; simp)
          exact absurd hb hm
      · subst hy
        have h' := ih hrest'.symm
        exact ⟨.cons hr hc hrs h'.1, h'.2⟩

theorem toolRun_append (h : ∀ r ∈ rs, r.role = .tool) (hrest : Exchanges rest) : toolRun (rs ++ rest) = rs := by
  induction rs with
  | nil =>
    cases hrest with
    | nil => rfl
    | cons hr _ _ _ => simp [toolRun, hr]
  | cons r rs ih =>
    have hr := h r mem_cons_self
    have ih' := ih fun x hx => h x (mem_cons_of_mem _ hx)
    rw [toolRun] at ih'
    rw [toolRun, cons_append, takeWhile_cons_of_pos (by simpa using hr), ih']

theorem Exchanges.answered (h : Exchanges (m :: post)) :
    (toolRun post).map Message.toolCallId = m.toolCalls.map fun c => some c.id := by
  cases h with
  | cons hr hc hrs hrest =>
    rw [toolRun_append (Answers.all_tool hrs) hrest]
    exact Answers.ids hrs

theorem Exchanges.no_stray (h : Exchanges (pre ++ r :: post)) (hr : r.role = .tool) :
    ∃ pre' a run, pre = pre' ++ a :: run ∧ a.role = .assistant ∧ ∀ x ∈ run, x.role = .tool := by
  generalize he : pre ++ r :: post = out at h
  induction h generalizing pre with
  | nil => simp at he
  | @cons m₀ rs rest hm₀ hc hrs hrest ih =>
    cases pre with
    | nil =>
      obtain ⟨rfl, _⟩ := cons_eq_cons.mp he
      exact absurd hr hm₀
    | cons a pre =>
      obtain ⟨rfl, ht⟩ := cons_eq_cons.mp he
      rcases append_eq_append_iff.mp ht with ⟨x, hx, hpost⟩ | ⟨y, hy, hrest'⟩
      · cases x with
        | nil =>
          obtain ⟨pre', b, run, hnil, _⟩ := @ih [] hpost
          simp at hnil
        | cons b x =>
          have htool := Answers.all_tool hrs
          refine ⟨[], a, pre, rfl, ?_, fun y hy => htool y (by rw [hx]; simp [hy])⟩
          by_contra hrole
          rw [hc hrole] at hrs
          cases hrs
          simp at hx
      · obtain ⟨pre', b, run, rfl, hb, hrun⟩ := ih hrest'.symm
        exact ⟨a :: (rs ++ pre'), b, run, by rw [hy]; simp, hb, hrun⟩

theorem Exchanges.wellFormed (h : Exchanges out) (hn : (declaredIds out).Nodup)
    (hadj : out.IsChain fun a b => ¬ (a.role = .assistant ∧ b.role = .assistant))
    (hu : ∀ m post, out = m :: post → m.role = .user) : WellFormedRequest out where
  answered pre m post he hm := by
    subst he
    exact (h.split (by rw [hm]; decide)).2.answered
  no_stray pre r post he hr := by
    subst he
    exact h.no_stray hr
  ids_distinct := hn
  no_adjacent pre a b post he := by
    subst he
    exact (isChain_append_cons_cons.mp hadj).2.1
  starts_user := hu

/-- Two messages that no exchange can tell apart. -/
def SameShape (a b : Message) : Prop := a.role = b.role ∧ a.toolCallId = b.toolCallId ∧ a.toolCalls = b.toolCalls

theorem SameShape.refl (a : Message) : SameShape a a := ⟨rfl, rfl, rfl⟩

theorem SameShape.trans (h : SameShape a b) (h' : SameShape b c) : SameShape a c :=
  ⟨h.1.trans h'.1, h.2.1.trans h'.2.1, h.2.2.trans h'.2.2⟩

abbrev SameShapes : List Message → List Message → Prop := List.Forall₂ SameShape

theorem SameShapes.refl (out : List Message) : SameShapes out out :=
  forall₂_same.mpr fun a _ => SameShape.refl a

theorem SameShapes.trans (h : SameShapes a b) (h' : SameShapes b c) : SameShapes a c := by
  induction h generalizing c with
  | nil => exact h'
  | cons hh _ ih =>
    cases h' with
    | cons hh' ht => exact .cons (hh.trans hh') (ih ht)

theorem SameShapes.append (h : SameShapes a b) (h' : SameShapes c d) : SameShapes (a ++ c) (b ++ d) :=
  rel_append h h'

theorem SameShapes.set (out : List Message) (hi : out[i]? = some a) (h : SameShape a b) :
    SameShapes out (out.set i b) := by
  induction out generalizing i with
  | nil => simp at hi
  | cons m out ih =>
    cases i with
    | zero =>
      simp only [getElem?_cons_zero, Option.some.injEq] at hi
      subst hi
      exact .cons h (SameShapes.refl out)
    | succ i => exact .cons (SameShape.refl m) (ih hi)

theorem SameShapes.declared (h : SameShapes a b) : declaredIds a = declaredIds b := by
  induction h with
  | nil => rfl
  | cons hh _ ih =>
    rw [declaredIds, flatMap_cons, hh.2.2]
    exact congrArg _ ih

theorem SameShapes.answers (h : SameShapes rs rs') (ha : List.Forall₂ Answers cs rs) :
    List.Forall₂ Answers cs rs' := by
  induction ha generalizing rs' with
  | nil => cases h; exact .nil
  | cons hr _ ih =>
    cases h with
    | cons hh ht => exact .cons ⟨hh.1 ▸ hr.1, hh.2.1 ▸ hr.2.1, hh.2.2 ▸ hr.2.2⟩ (ih ht)

theorem Exchanges.sameShapes (h : Exchanges a) (hs : SameShapes a b) : Exchanges b := by
  induction h generalizing b with
  | nil => cases hs; exact .nil
  | @cons m rs rest hr hc hrs _ ih =>
    cases hs with
    | @cons _ m' _ bs hh ht =>
      have h₁ := forall₂_take rs.length ht
      have h₂ := forall₂_drop rs.length ht
      rw [take_left] at h₁
      rw [drop_left] at h₂
      rw [← take_append_drop rs.length bs]
      refine .cons (hh.1 ▸ hr) ?_ ?_ (ih h₂)
      · rw [← hh.1, ← hh.2.2]; exact hc
      · rw [← hh.2.2]; exact SameShapes.answers h₁ hrs

end Echadron.Agent
