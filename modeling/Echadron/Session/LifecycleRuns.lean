import Echadron.Session.AgentLifecycleService

namespace Echadron.Session
open Lib List Option

/-! What holds of the agents while creations and removals of one id stay apart. -/

namespace AgentScope

/-- The scope is undisposed or its creation has not come back. -/
def present (scope : AgentScope) : Bool := !scope.disposed || scope.awaited

def live (scope : AgentScope) : Bool :=
  !scope.disposed && decide (scope.stage ≠ .sealing) && decide (scope.stage ≠ .registering)

end AgentScope

/-- What the maps and the flags of one scope say about each other. -/
structure Kept (handles creating : JsMap String Nat) (n : Nat) (scope : AgentScope) : Prop where
  registered : handles.get scope.id = some n ↔ scope.disposed = false ∧ scope.removing = false
  creating : creating.get scope.id = some n ↔ scope.awaited = true
  starting : scope.stage.isOver = false → scope.awaited = true ∧ scope.disposed = false ∧ scope.removing = false
  removing : scope.removing = true →
    scope.stage = .done ∧ scope.awaited = false ∧ scope.joined = 0 ∧ scope.disposed = false
  disposed : scope.disposed = true →
    scope.stage = .failed ∨ (scope.stage = .done ∧ scope.awaited = false ∧ scope.joined = 0)
  failed : scope.stage = .failed → scope.disposed = true

/-- What an event does to the binding of an id; `none` where it is bound twice or released unbound. -/
def bindStep (id : String) (bound : Bool) : LifecycleEvent → Option Bool
  | .didCreate i => if i = id then (if bound then none else some true) else some bound
  | .didDispose i => if i = id then (if bound then some false else none) else some bound

/-- Whether an id is bound after its events; `none` where they do not alternate. -/
def bindings (id : String) (fired : List LifecycleEvent) : Option Bool := fired.foldlM (bindStep id) false

theorem bindings_append {id : String} (h : bindings id fired = some bound) (e : LifecycleEvent) :
    bindings id (fired ++ [e]) = bindStep id bound e := by
  unfold bindings at h ⊢
  rw [foldlM_append, h]
  exact bind_fun_some _

namespace AgentLifecycleService

variable {exponential : Nat → String} {s s' : AgentLifecycleService} {n m : Nat} {scope scope' : AgentScope}
  {id : String}

structure Sound (s : AgentLifecycleService) : Prop where
  kept : ∀ n scope, s.scopes[n]? = some scope → Kept s.handles s.creating n scope
  handled : ∀ id n, s.handles.get id = some n → ∃ scope, s.scopes[n]? = some scope ∧ scope.id = id
  created : ∀ id n, s.creating.get id = some n → ∃ scope, s.scopes[n]? = some scope ∧ scope.id = id
  single : ∀ (n m : Nat) (a b : AgentScope), s.scopes[n]? = some a → s.scopes[m]? = some b → a.id = b.id →
    a.present = true → b.present = true → n = m
  bound : ∀ id n, s.interactionBusDisposables.get id = some n ↔
    ∃ scope, s.scopes[n]? = some scope ∧ scope.id = id ∧ scope.live = true
  alternate : ∀ id, bindings id s.fired = some (s.interactionBusDisposables.has id)

namespace Sound

theorem empty (nextAgentId : Nat) : Sound { nextAgentId } := by
  constructor
  · intro n scope hn
    cases hn
  · intro id n hid
    cases hid
  · intro id n hid
    cases hid
  · intro n m a b hn
    cases hn
  · intro id n
    constructor
    · intro hid
      cases hid
    · rintro ⟨scope, hscope, _⟩
      cases hscope
  · intro id
    rfl

theorem update (h : Sound s) (hn : s.scopes[n]? = some scope)
    (hscopes : ∀ m, s'.scopes[m]? = if m = n then some scope' else s.scopes[m]?)
    (hid : scope'.id = scope.id)
    (hhandles : ∀ id m, ¬ (m = n ∧ id = scope.id) → (s'.handles.get id = some m ↔ s.handles.get id = some m))
    (hcreating : ∀ id m, ¬ (m = n ∧ id = scope.id) → (s'.creating.get id = some m ↔ s.creating.get id = some m))
    (hkept : Kept s'.handles s'.creating n scope') (hpresent : scope'.present = true → scope.present = true)
    (hbound : ∀ id m, s'.interactionBusDisposables.get id = some m ↔
      if m = n ∧ id = scope.id then scope'.live = true else s.interactionBusDisposables.get id = some m)
    (halternate : ∀ id, bindings id s'.fired = some (s'.interactionBusDisposables.has id)) : Sound s' := by
  have hself : s'.scopes[n]? = some scope' := by rw [hscopes, if_pos rfl]
  have hother : ∀ m, m ≠ n → s'.scopes[m]? = s.scopes[m]? := fun m hm => by rw [hscopes, if_neg hm]
  -- every scope of the new state stands for one of the old state with the same id
  have hold : ∀ (m : Nat) (a : AgentScope), s'.scopes[m]? = some a → ∃ b, s.scopes[m]? = some b ∧ b.id = a.id ∧
      (a.present = true → b.present = true) := by
    intro m a ha
    by_cases hm : m = n
    · subst hm
      obtain rfl := mem_unique hself ha
      exact ⟨scope, hn, hid.symm, hpresent⟩
    · rw [hother m hm] at ha
      exact ⟨a, ha, rfl, fun hp => hp⟩
  have hnew : ∀ (m : Nat) (a : AgentScope), s.scopes[m]? = some a → ∃ b, s'.scopes[m]? = some b ∧ b.id = a.id := by
    intro m a ha
    by_cases hm : m = n
    · subst hm
      obtain rfl := mem_unique hn ha
      exact ⟨scope', hself, hid⟩
    · exact ⟨a, (hother m hm).trans ha, rfl⟩
  constructor
  · intro m a ha
    by_cases hm : m = n
    · subst hm
      obtain rfl := mem_unique hself ha
      exact hkept
    · rw [hother m hm] at ha
      have hk := h.kept m a ha
      have hne : ¬ (m = n ∧ a.id = scope.id) := fun hm' => hm hm'.1
      exact { hk with registered := (hhandles a.id m hne).trans hk.registered, creating := (hcreating a.id m hne).trans hk.creating }
  · intro id m hm
    by_cases hcase : m = n ∧ id = scope.id
    · obtain ⟨rfl, rfl⟩ := hcase
      exact ⟨scope', hself, hid⟩
    · obtain ⟨a, ha, haid⟩ := h.handled id m ((hhandles id m hcase).mp hm)
      obtain ⟨b, hb, hbid⟩ := hnew m a ha
      exact ⟨b, hb, hbid.trans haid⟩
  · intro id m hm
    by_cases hcase : m = n ∧ id = scope.id
    · obtain ⟨rfl, rfl⟩ := hcase
      exact ⟨scope', hself, hid⟩
    · obtain ⟨a, ha, haid⟩ := h.created id m ((hcreating id m hcase).mp hm)
      obtain ⟨b, hb, hbid⟩ := hnew m a ha
      exact ⟨b, hb, hbid.trans haid⟩
  · intro m k a b ha hb hab hpa hpb
    obtain ⟨a', ha', haid, hpa'⟩ := hold m a ha
    obtain ⟨b', hb', hbid, hpb'⟩ := hold k b hb
    exact h.single m k a' b' ha' hb' (haid.trans (hab.trans hbid.symm)) (hpa' hpa) (hpb' hpb)
  · intro id m
    rw [hbound]
    split
    · rename_i hcase
      obtain ⟨rfl, rfl⟩ := hcase
      constructor
      · intro hlive
        exact ⟨scope', hself, hid, hlive⟩
      · rintro ⟨a, ha, _, hlive⟩
        obtain rfl := mem_unique hself ha
        exact hlive
    · rename_i hcase
      rw [h.bound]
      by_cases hm : m = n
      · subst hm
        have hne : id ≠ scope.id := fun hid => hcase ⟨rfl, hid⟩
        constructor
        · rintro ⟨a, ha, haid, _⟩
          obtain rfl := mem_unique hn ha
          exact absurd haid.symm hne
        · rintro ⟨a, ha, haid, _⟩
          obtain rfl := mem_unique hself ha
          exact absurd (haid.symm.trans hid) hne
      · rw [hother m hm]
  · exact halternate

theorem bound_self (h : Sound s) (hn : s.scopes[n]? = some scope) :
    s.interactionBusDisposables.get scope.id = some n ↔ scope.live = true := by
  rw [h.bound]
  constructor
  · rintro ⟨a, ha, _, hlive⟩
    obtain rfl := mem_unique hn ha
    exact hlive
  · intro hlive
    exact ⟨scope, hn, rfl, hlive⟩

theorem getElem?_setScope (s : AgentLifecycleService) (n m : Nat) (f : AgentScope → AgentScope) :
    (s.setScope n f).scopes[m]? = if m = n then s.scopes[n]?.map f else s.scopes[m]? := by
  unfold setScope
  rw [getElem?_modify]
  by_cases h : m = n
  · subst h
    rw [if_pos rfl]
    cases s.scopes[m]? with
    | none => rfl
    | some a => simp
  · rw [if_neg h]
    cases s.scopes[m]? with
    | none => rfl
    | some a => simp [Ne.symm h]

theorem scopes_setScope (hn : s.scopes[n]? = some scope) (f : AgentScope → AgentScope) (m : Nat) :
    (s.setScope n f).scopes[m]? = if m = n then some (f scope) else s.scopes[m]? := by
  rw [getElem?_setScope, hn]
  rfl

/-- A change of one scope that neither the maps nor the listeners see. -/
theorem quiet (h : Sound s) (hn : s.scopes[n]? = some scope) (f : AgentScope → AgentScope)
    (hid : (f scope).id = scope.id) (hkept : Kept s.handles s.creating n (f scope))
    (hpresent : (f scope).present = true → scope.present = true) (hlive : (f scope).live = scope.live) :
    Sound (s.setScope n f) := by
  apply h.update hn (scopes_setScope hn f) hid
  · intro id m _
    exact Iff.rfl
  · intro id m _
    exact Iff.rfl
  · exact hkept
  · exact hpresent
  · intro id m
    split
    · rename_i hcase
      obtain ⟨rfl, rfl⟩ := hcase
      rw [hlive]
      exact h.bound_self hn
    · exact Iff.rfl
  · exact h.alternate

theorem join (h : Sound s) (hid : s.creating.get id = some n) :
    Sound (s.setScope n fun scope => { scope with joined := scope.joined + 1 }) := by
  obtain ⟨scope, hn, rfl⟩ := h.created id n hid
  have hk := h.kept n scope hn
  have hawaited := hk.creating.mp hid
  apply h.quiet hn
  · rfl
  · refine { hk with removing := ?_, disposed := ?_ }
    · intro hremoving
      rw [(hk.removing hremoving).2.1] at hawaited
      cases hawaited
    · intro hdisposed
      rcases hk.disposed hdisposed with hfailed | ⟨_, hnot, _⟩
      · exact .inl hfailed
      · rw [hnot] at hawaited
        cases hawaited
  · exact fun hp => hp
  · rfl

theorem settleJoined (h : Sound s) (hn : s.scopes[n]? = some scope)
    (hstep : s.settleJoined n scope = some s') : Sound s' := by
  unfold AgentLifecycleService.settleJoined at hstep
  split at hstep
  · cases hstep
    have hk := h.kept n scope hn
    apply h.quiet hn
    · rfl
    · refine { hk with removing := ?_, disposed := ?_ }
      · intro hremoving
        obtain ⟨hdone, hawaited, hjoined, hdisposed⟩ := hk.removing hremoving
        exact ⟨hdone, hawaited, by dsimp only; rw [hjoined], hdisposed⟩
      · intro hdisposed
        rcases hk.disposed hdisposed with hfailed | ⟨hdone, hawaited, hjoined⟩
        · exact .inl hfailed
        · exact .inr ⟨hdone, hawaited, by dsimp only; rw [hjoined]⟩
    · exact fun hp => hp
    · rfl
  · cases hstep

theorem doCreate (h : Sound s) (hnone : ∀ (m : Nat) (a : AgentScope), s.scopes[m]? = some a → a.id = id → a.present = false) :
    Sound (s.doCreate id) := by
  have hlt : ∀ (m : Nat) (a : AgentScope), s.scopes[m]? = some a → m < s.scopes.length := by
    intro m a ha
    exact (getElem?_lt ha)
  have hlast : (s.doCreate id).scopes[s.scopes.length]? = some { id } := getElem?_concat_length
  have hold : ∀ (m : Nat) (a : AgentScope), (s.doCreate id).scopes[m]? = some a →
      s.scopes[m]? = some a ∨ (m = s.scopes.length ∧ a = { id }) := by
    intro m a ha
    rcases lt_trichotomy m s.scopes.length with hm | rfl | hm
    · left
      rw [← ha]
      exact (getElem?_append_left hm).symm
    · obtain rfl := mem_unique hlast ha
      exact .inr ⟨rfl, rfl⟩
    · have hm' := getElem?_lt ha
      unfold AgentLifecycleService.doCreate at hm'
      simp only [length_append, length_cons, length_nil] at hm'
      omega
  have hnew : ∀ (m : Nat) (a : AgentScope), s.scopes[m]? = some a → (s.doCreate id).scopes[m]? = some a := by
    intro m a ha
    rw [← ha]
    exact getElem?_append_left (hlt m a ha)
  constructor
  · intro m a ha
    rcases hold m a ha with ha | ⟨rfl, rfl⟩
    · have hk := h.kept m a ha
      have hm := hlt m a ha
      have hne : s.scopes.length ≠ m := by omega
      refine { hk with registered := ?_, creating := ?_ }
      · unfold AgentLifecycleService.doCreate
        rw [JsMap.get_set]
        split
        · rename_i hid
          have hpresent := hnone m a ha hid
          constructor
          · intro hcontra
            exact absurd (some.inj hcontra) hne
          · rintro ⟨hdisposed, _⟩
            simp [AgentScope.present, hdisposed] at hpresent
        · exact hk.registered
      · unfold AgentLifecycleService.doCreate
        rw [JsMap.get_set]
        split
        · rename_i hid
          have hpresent := hnone m a ha hid
          constructor
          · intro hcontra
            exact absurd (some.inj hcontra) hne
          · intro hawaited
            simp [AgentScope.present, hawaited] at hpresent
        · exact hk.creating
    · constructor
      · simp [AgentLifecycleService.doCreate]
      · simp [AgentLifecycleService.doCreate]
      · intro _
        exact ⟨rfl, rfl, rfl⟩
      · intro hcontra
        cases hcontra
      · intro hcontra
        cases hcontra
      · intro hcontra
        cases hcontra
  · intro i m hm
    have hget : (s.handles.set id s.scopes.length).get i = some m := hm
    rw [JsMap.get_set] at hget
    split at hget
    · rename_i hi
      cases hget
      exact ⟨{ id }, hlast, hi.symm⟩
    · obtain ⟨a, ha, haid⟩ := h.handled i m hget
      exact ⟨a, hnew m a ha, haid⟩
  · intro i m hm
    have hget : (s.creating.set id s.scopes.length).get i = some m := hm
    rw [JsMap.get_set] at hget
    split at hget
    · rename_i hi
      cases hget
      exact ⟨{ id }, hlast, hi.symm⟩
    · obtain ⟨a, ha, haid⟩ := h.created i m hget
      exact ⟨a, hnew m a ha, haid⟩
  · intro m k a b ha hb hab hpa hpb
    rcases hold m a ha with ha | ⟨rfl, rfl⟩
    · rcases hold k b hb with hb | ⟨rfl, rfl⟩
      · exact h.single m k a b ha hb hab hpa hpb
      · rw [hnone m a ha hab] at hpa
        cases hpa
    · rcases hold k b hb with hb | ⟨rfl, rfl⟩
      · rw [hnone k b hb hab.symm] at hpb
        cases hpb
      · rfl
  · intro i m
    apply (h.bound i m).trans
    constructor
    · rintro ⟨a, ha, haid, hlive⟩
      exact ⟨a, hnew m a ha, haid, hlive⟩
    · rintro ⟨a, ha, haid, hlive⟩
      rcases hold m a ha with ha | ⟨rfl, rfl⟩
      · exact ⟨a, ha, haid, hlive⟩
      · cases hlive
  · exact h.alternate

theorem has_eq_isSome (m : JsMap String Nat) (k : String) : m.has k = (m.get k).isSome := by
  unfold JsMap.has
  rw [Bool.eq_iff_iff, decide_eq_true_eq, JsMap.mem_keys_iff, isSome_iff_exists]

theorem get_delete_iff {ids : JsMap String Nat} (hk : ids.get k = some n) (hne : ¬ (m = n ∧ id = k)) :
    (ids.delete k).get id = some m ↔ ids.get id = some m := by
  rw [JsMap.get_delete]
  split
  · rename_i hid
    rw [hid, hk]
    constructor
    · intro hcontra
      cases hcontra
    · intro hm
      exact absurd ⟨(some.inj hm).symm, hid⟩ hne
  · exact Iff.rfl

theorem get_delete_bound {ids : JsMap String Nat} (hk : ids.get k = some n) (hlive : live = false) (id : String)
    (m : Nat) : (ids.delete k).get id = some m ↔ if m = n ∧ id = k then live = true else ids.get id = some m := by
  rw [JsMap.get_delete]
  by_cases hid : id = k
  · subst hid
    by_cases hm : m = n
    · simp [hm, hlive]
    · simp [hm, hk, Ne.symm hm]
  · simp [hid]

theorem alternate_didDispose (h : Sound s) (hbus : s.interactionBusDisposables.get k = some n) (id : String) :
    bindings id (s.fired ++ [.didDispose k]) = some ((s.interactionBusDisposables.delete k).has id) := by
  rw [bindings_append (h.alternate id), has_eq_isSome, has_eq_isSome, JsMap.get_delete]
  unfold bindStep
  by_cases hid : k = id
  · subst hid
    simp [hbus]
  · simp [hid, Ne.symm hid]

section

variable (h : Sound s) (hn : s.scopes[n]? = some scope)
include h hn

theorem unbound (hpresent : scope.present = true)
    (hlive : scope.live = false) : s.interactionBusDisposables.get scope.id = none := by
  cases hget : s.interactionBusDisposables.get scope.id with
  | none => rfl
  | some m =>
    obtain ⟨a, ha, haid, hlive'⟩ := (h.bound scope.id m).mp hget
    have hpresent' : a.present = true := by
      unfold AgentScope.live at hlive'
      unfold AgentScope.present
      simp only [Bool.and_eq_true] at hlive'
      rw [hlive'.1.1, Bool.true_or]
    obtain rfl := h.single m n a scope ha hn haid hpresent' hpresent
    obtain rfl := mem_unique hn ha
    rw [hlive] at hlive'
    cases hlive'

theorem advance (hstep : s.advance n scope = some s') : Sound s' := by
  have hk := h.kept n scope hn
  unfold AgentLifecycleService.advance at hstep
  split at hstep
  · rename_i stage hnext
    have hover : scope.stage.isOver = false := by
      unfold BootStage.isOver
      rw [hnext]
      rfl
    obtain ⟨hawaited, hdisposed, hremoving⟩ := hk.starting hover
    have hpresent : scope.present = true := by
      unfold AgentScope.present
      rw [hawaited, Bool.or_true]
    have hkept : Kept s.handles s.creating n { scope with stage } := by
      refine { hk with starting := ?_, removing := ?_, disposed := ?_, failed := ?_ }
      · intro _
        exact ⟨hawaited, hdisposed, hremoving⟩
      · intro hcontra
        exact absurd (hremoving.symm.trans hcontra) Bool.false_ne_true
      · intro hcontra
        exact absurd (hdisposed.symm.trans hcontra) Bool.false_ne_true
      · intro hfailed
        subst hfailed
        cases hstage : scope.stage <;> rw [hstage] at hnext <;> cases hnext
    split at hstep
    · rename_i hregistering
      cases hstep
      rw [hregistering] at hnext
      cases hnext
      have hnone := h.unbound hn hpresent (by simp [AgentScope.live, hregistering])
      have hhas : s.interactionBusDisposables.has scope.id = false := by
        rw [has_eq_isSome, hnone]
        rfl
      have hbus : ((s.setScope n fun scope => { scope with stage := .restoring }).fireDidCreate n
          scope.id).interactionBusDisposables = s.interactionBusDisposables.set scope.id n :=
        if_neg (by
          intro hcontra
          exact absurd (hhas.symm.trans hcontra) Bool.false_ne_true)
      apply h.update hn
      · exact scopes_setScope hn fun scope => { scope with stage := .restoring }
      · rfl
      · intro id m _
        exact Iff.rfl
      · intro id m _
        exact Iff.rfl
      · exact hkept
      · intro _
        exact hpresent
      · intro id m
        rw [hbus, JsMap.get_set]
        by_cases hid : id = scope.id
        · subst hid
          by_cases hm : m = n
          · subst hm
            simp [AgentScope.live, hdisposed]
          · simp [hm, Ne.symm hm, hnone]
        · simp [hid]
      · intro id
        have hfired : ((s.setScope n fun scope => { scope with stage := .restoring }).fireDidCreate n
            scope.id).fired = s.fired ++ [.didCreate scope.id] := rfl
        rw [hfired, hbus, bindings_append (h.alternate id), has_eq_isSome, has_eq_isSome, JsMap.get_set]
        unfold bindStep
        by_cases hid : scope.id = id
        · subst hid
          simp [hnone]
        · simp [hid, Ne.symm hid]
    · rename_i hregistering
      cases hstep
      apply h.quiet hn
      · rfl
      · exact hkept
      · intro _
        exact hpresent
      · unfold AgentScope.live
        cases hstage : scope.stage <;> rw [hstage] at hnext hregistering <;> cases hnext
        · simp
        · exact absurd rfl hregistering
        · rfl
        · rfl
        · rfl
  · cases hstep

theorem fail (hannounced : scope.stage ≠ .sealing ∧ scope.stage ≠ .registering)
    (hstep : s.fail n scope = some s') : Sound s' := by
  have hk := h.kept n scope hn
  unfold AgentLifecycleService.fail at hstep
  split at hstep
  · cases hstep
  · rename_i hover
    cases hstep
    obtain ⟨hawaited, hdisposed, hremoving⟩ := hk.starting (Bool.eq_false_of_not_eq_true hover)
    have hhandle := hk.registered.mpr ⟨hdisposed, hremoving⟩
    have hlive : scope.live = true := by simp [AgentScope.live, hdisposed, hannounced]
    have hbus := (h.bound_self hn).mpr hlive
    rw [if_pos hhandle]
    apply h.update hn
    · exact scopes_setScope hn fun scope => { scope with stage := .failed, disposed := true }
    · rfl
    · exact fun _ _ => get_delete_iff hhandle
    · intro id m _
      exact Iff.rfl
    · refine ⟨?_, hk.creating, ?_, ?_, ?_, ?_⟩
      · change (s.handles.delete scope.id).get scope.id = some n ↔ _
        rw [JsMap.get_delete_self]
        constructor
        · intro hcontra
          cases hcontra
        · rintro ⟨hcontra, _⟩
          cases hcontra
      · intro hcontra
        cases hcontra
      · intro hcontra
        exact absurd (hremoving.symm.trans hcontra) Bool.false_ne_true
      · intro _
        exact .inl rfl
      · intro _
        rfl
    · intro _
      simp [AgentScope.present, hdisposed]
    · exact get_delete_bound hbus (by simp [AgentScope.live])
    · exact h.alternate_didDispose hbus

theorem settle (hstep : s.settle n scope = some s') : Sound s' := by
  have hk := h.kept n scope hn
  unfold AgentLifecycleService.settle at hstep
  split at hstep
  · rename_i hguard
    obtain ⟨hover, hawaited⟩ := hguard
    cases hstep
    have hcreating := hk.creating.mpr hawaited
    apply h.update hn
    · exact scopes_setScope hn fun scope => { scope with awaited := false }
    · rfl
    · intro id m _
      exact Iff.rfl
    · exact fun _ _ => get_delete_iff hcreating
    · refine ⟨hk.registered, ?_, ?_, ?_, ?_, hk.failed⟩
      · rw [JsMap.get_delete_self]
        constructor
        · intro hcontra
          cases hcontra
        · intro hcontra
          cases hcontra
      · intro hcontra
        exact absurd (hcontra.symm.trans hover) Bool.false_ne_true
      · intro hremoving
        exact absurd ((hk.removing hremoving).2.1.symm.trans hawaited) Bool.false_ne_true
      · intro hdisposed
        rcases hk.disposed hdisposed with hfailed | ⟨_, hnot, _⟩
        · exact .inl hfailed
        · exact absurd (hnot.symm.trans hawaited) Bool.false_ne_true
    · intro _
      simp [AgentScope.present, hawaited]
    · intro id m
      split
      · rename_i hcase
        obtain ⟨rfl, rfl⟩ := hcase
        exact h.bound_self hn
      · exact Iff.rfl
    · exact h.alternate
  · cases hstep

end

theorem remove (h : Sound s) (hready : ∀ n, s.handles.get id = some n → ∀ scope, s.scopes[n]? = some scope →
      scope.awaited = false ∧ scope.joined = 0) : Sound (s.remove id) := by
  unfold AgentLifecycleService.remove
  split
  · exact h
  · rename_i n hhandle
    obtain ⟨scope, hn, rfl⟩ := h.handled id n hhandle
    have hk := h.kept n scope hn
    obtain ⟨hawaited, hjoined⟩ := hready n hhandle scope hn
    obtain ⟨hdisposed, _⟩ := hk.registered.mp hhandle
    have hdone : scope.stage = .done := by
      cases hstage : scope.stage with
      | done => rfl
      | failed => exact absurd (hdisposed.symm.trans (hk.failed hstage)) Bool.false_ne_true
      | _ =>
        have hstarting := hk.starting (by rw [hstage]; rfl)
        exact absurd (hawaited.symm.trans hstarting.1) Bool.false_ne_true
    apply h.update hn
    · exact scopes_setScope hn fun scope => { scope with removing := true }
    · rfl
    · exact fun _ _ => get_delete_iff hhandle
    · intro id m _
      exact Iff.rfl
    · refine ⟨?_, hk.creating, ?_, ?_, hk.disposed, hk.failed⟩
      · rw [JsMap.get_delete_self]
        constructor
        · intro hcontra
          cases hcontra
        · rintro ⟨_, hcontra⟩
          cases hcontra
      · intro hover
        exact absurd (hawaited.symm.trans (hk.starting hover).1) Bool.false_ne_true
      · intro _
        exact ⟨hdone, hawaited, hjoined, hdisposed⟩
    · exact fun hp => hp
    · intro id m
      split
      · rename_i hcase
        obtain ⟨rfl, rfl⟩ := hcase
        exact h.bound_self hn
      · exact Iff.rfl
    · exact h.alternate

theorem drained (h : Sound s) (hn : s.scopes[n]? = some scope) (hstep : s.drained n scope = some s') : Sound s' := by
  have hk := h.kept n scope hn
  unfold AgentLifecycleService.drained at hstep
  split at hstep
  · rename_i hremoving
    cases hstep
    obtain ⟨hdone, hawaited, hjoined, hdisposed⟩ := hk.removing hremoving
    have hbus := (h.bound_self hn).mpr (by simp [AgentScope.live, hdisposed, hdone])
    apply h.update hn
    · exact scopes_setScope hn fun scope => { scope with removing := false, disposed := true }
    · rfl
    · intro id m _
      exact Iff.rfl
    · intro id m _
      exact Iff.rfl
    · refine ⟨?_, hk.creating, ?_, ?_, ?_, ?_⟩
      · constructor
        · intro hhandle
          exact absurd ((hk.registered.mp hhandle).2.symm.trans hremoving) Bool.false_ne_true
        · rintro ⟨hcontra, _⟩
          cases hcontra
      · intro hover
        exact absurd (hawaited.symm.trans (hk.starting hover).1) Bool.false_ne_true
      · intro hcontra
        cases hcontra
      · intro _
        exact .inr ⟨hdone, hawaited, hjoined⟩
      · intro _
        rfl
    · intro _
      simp [AgentScope.present, hdisposed]
    · exact get_delete_bound hbus (by simp [AgentScope.live])
    · exact h.alternate_didDispose hbus
  · cases hstep

end Sound

/-- No agent of this id is under creation, registered or being drained. -/
def Vacant (s : AgentLifecycleService) (id : String) : Prop :=
  s.creating.get id = none ∧ s.handles.get id = none ∧ ∀ scope ∈ s.scopes, scope.id = id → scope.removing = false

/-- The condition on the next event: creations and removals of one id do not overlap, no bootstrap fails
before its agent is announced, and the numbers of minted ids are below `2 ^ 53`. -/
def Apart (exponential : Nat → String) (s : AgentLifecycleService) : Event → Prop
  | .create (some id) => s.creating.get id = none → s.handles.get id = none → s.Vacant id
  | .fork _ (some id) => s.creating.get id = none → s.handles.get id = none → s.Vacant id
  | .mint k persisted => ∀ maxSuffix ∈ s.minting[k]?, s.candidate maxSuffix persisted < 2 ^ 53 ∧
      s.Vacant (mintedId exponential (s.candidate maxSuffix persisted))
  | .fail n => ∀ scope ∈ s.scopes[n]?, scope.stage ≠ .sealing ∧ scope.stage ≠ .registering
  | .remove id => ∀ n ∈ s.handles.get id, ∀ scope ∈ s.scopes[n]?, scope.awaited = false ∧ scope.joined = 0
  | .create none => True
  | .fork _ none => True
  | .mintFailed _ => True
  | .mintedElsewhere _ => True
  | .advance _ => True
  | .settle _ => True
  | .settleJoined _ => True
  | .drained _ => True

namespace Sound

theorem absent_of_vacant (h : Sound s) (hvacant : s.Vacant id) (m : Nat) (a : AgentScope)
    (ha : s.scopes[m]? = some a) (hid : a.id = id) : a.present = false := by
  subst hid
  obtain ⟨hcreating, hhandles, hremoving⟩ := hvacant
  have hk := h.kept m a ha
  have hnot := hremoving a (mem_of_getElem? ha) rfl
  have hawaited : a.awaited = false := by
    apply Bool.eq_false_of_not_eq_true
    intro hawaited
    rw [hk.creating.mpr hawaited] at hcreating
    cases hcreating
  have hdisposed : a.disposed = true := by
    apply eq_true_of_ne_false
    intro hdisposed
    rw [hk.registered.mpr ⟨hdisposed, hnot⟩] at hhandles
    cases hhandles
  unfold AgentScope.present
  rw [hdisposed, hawaited]
  rfl

theorem create (h : Sound s) (hapart : s.creating.get id = none → s.handles.get id = none → s.Vacant id) :
    Sound (s.create (some id)) := by
  unfold AgentLifecycleService.create
  dsimp only
  split
  · rename_i n _ hcreating
    exact h.join hcreating
  · exact h
  · rename_i hcreating hhandles
    exact h.doCreate (h.absent_of_vacant (hapart hcreating hhandles))

theorem of_minting (h : Sound s) (minting : List (Option Nat)) (nextAgentId : Nat) (minted : List String) :
    Sound { s with minting, nextAgentId, minted } :=
  { h with }

theorem step (h : Sound s) (hapart : Apart exponential s event)
    (hstep : step exponential s event = some s') : Sound s' := by
  cases event with
  | create agentId =>
    cases hstep
    cases agentId with
    | none => exact h.of_minting _ _ _
    | some id => exact h.create hapart
  | fork source agentId =>
    cases hstep
    unfold fork
    split
    · cases agentId with
      | none => exact h.of_minting _ _ _
      | some id =>
        dsimp only
        split
        · exact h
        · exact h.create hapart
    · exact h
  | mint k persisted =>
    obtain ⟨maxSuffix, hk, rfl⟩ := map_eq_some_iff.mp hstep
    obtain ⟨_, hvacant⟩ := hapart maxSuffix hk
    exact (h.of_minting _ _ _).doCreate (h.absent_of_vacant hvacant)
  | mintFailed k =>
    obtain ⟨maxSuffix, _, rfl⟩ := map_eq_some_iff.mp hstep
    exact h.of_minting _ _ _
  | mintedElsewhere n =>
    cases hstep
    exact h.of_minting _ _ _
  | advance n =>
    obtain ⟨scope, hn, hstep⟩ := bind_eq_some_iff.mp hstep
    exact h.advance hn hstep
  | fail n =>
    obtain ⟨scope, hn, hstep⟩ := bind_eq_some_iff.mp hstep
    exact h.fail hn (hapart scope hn) hstep
  | settle n =>
    obtain ⟨scope, hn, hstep⟩ := bind_eq_some_iff.mp hstep
    exact h.settle hn hstep
  | settleJoined n =>
    obtain ⟨scope, hn, hstep⟩ := bind_eq_some_iff.mp hstep
    exact h.settleJoined hn hstep
  | remove id =>
    cases hstep
    exact h.remove hapart
  | drained n =>
    obtain ⟨scope, hn, hstep⟩ := bind_eq_some_iff.mp hstep
    exact h.drained hn hstep

end Sound

/-- The ids minted so far are distinct and below the counter. -/
structure Minted (exponential : Nat → String) (s : AgentLifecycleService) : Prop where
  below : ∀ id ∈ s.minted, ∃ k, k < s.nextAgentId ∧ k < 2 ^ 53 ∧ id = mintedId exponential k
  nodup : s.minted.Nodup

theorem mintedId_inj (hj : j < 2 ^ 53) (hk : k < 2 ^ 53)
    (h : mintedId exponential j = mintedId exponential k) : j = k := by
  have hlarge : (2 : Nat) ^ 53 < 10 ^ 21 := by decide
  unfold mintedId numberText at h
  rw [if_pos (hj.trans hlarge), if_pos (hk.trans hlarge)] at h
  have hdigits : j.repr.toList = k.repr.toList := by
    have hlist := congrArg String.toList h
    rw [String.toList_append, String.toList_append] at hlist
    exact append_cancel_left hlist
  rw [Nat.toList_repr, Nat.toList_repr] at hdigits
  calc j = Nat.ofDigitChars 10 (Nat.toDigits 10 j) 0 := Nat.ofDigitChars_ten_toDigits.symm
    _ = Nat.ofDigitChars 10 (Nat.toDigits 10 k) 0 := by rw [hdigits]
    _ = k := Nat.ofDigitChars_ten_toDigits

theorem lt_roundNat_succ (hj : j < 2 ^ 53) (h : j ≤ k) : j < roundNat (k + 1) := by
  by_cases hk : k + 1 < 2 ^ 53
  · rw [roundNat, if_pos hk]
    omega
  · exact Nat.lt_of_lt_of_le hj (le_roundNat_of_le (Nat.le_of_not_lt hk))

theorem nextAgentId_le_candidate (s : AgentLifecycleService) (maxSuffix : Option Nat) (persisted : List String) :
    s.nextAgentId ≤ s.candidate maxSuffix persisted := by
  unfold candidate
  split
  · exact le_max_right _ _
  · exact le_max_right _ _

theorem create_minted (s : AgentLifecycleService) (agentId : Option String) :
    (s.create agentId).minted = s.minted ∧ (s.create agentId).nextAgentId = s.nextAgentId := by
  cases agentId with
  | none => exact ⟨rfl, rfl⟩
  | some id =>
    unfold create
    dsimp only
    split
    · exact ⟨rfl, rfl⟩
    · exact ⟨rfl, rfl⟩
    · exact ⟨rfl, rfl⟩

namespace Minted

section

variable (h : Minted exponential s)
include h

theorem congr (hminted : s'.minted = s.minted) (hnext : s.nextAgentId ≤ s'.nextAgentId) : Minted exponential s' := by
  constructor
  · intro id hid
    rw [hminted] at hid
    obtain ⟨k, hlt, hk, rfl⟩ := h.below id hid
    exact ⟨k, lt_of_lt_of_le hlt hnext, hk, rfl⟩
  · rw [hminted]
    exact h.nodup

theorem mint (k : Nat) (maxSuffix : Option Nat) (persisted : List String)
    (hcandidate : s.candidate maxSuffix persisted < 2 ^ 53) :
    Minted exponential (s.mint exponential k maxSuffix persisted) := by
  have hle := nextAgentId_le_candidate s maxSuffix persisted
  constructor
  · intro id hid
    rcases mem_snoc.mp hid with hold | rfl
    · obtain ⟨j, hlt, hj, rfl⟩ := h.below id hold
      have hle' : j ≤ s.candidate maxSuffix persisted := le_trans (le_of_lt hlt) hle
      exact ⟨j, lt_roundNat_succ hj hle', hj, rfl⟩
    · exact ⟨_, lt_roundNat_succ hcandidate (le_refl _), hcandidate, rfl⟩
  · apply nodup_append.mpr
    refine ⟨h.nodup, nodup_singleton _, ?_⟩
    intro id hold id' hnew heq
    obtain rfl := mem_singleton.mp hnew
    obtain ⟨j, hlt, hj, hid⟩ := h.below id hold
    obtain rfl := mintedId_inj hj hcandidate (hid.symm.trans heq)
    exact absurd hlt (not_lt.mpr hle)

theorem mintedElsewhere (n : Nat) :
    Minted exponential { s with nextAgentId := roundNat (max n s.nextAgentId + 1) } := by
  constructor
  · intro id hid
    obtain ⟨j, hlt, hj, rfl⟩ := h.below id hid
    exact ⟨j, lt_roundNat_succ hj (le_trans (le_of_lt hlt) (le_max_right _ _)), hj, rfl⟩
  · exact h.nodup

theorem step (hapart : Apart exponential s event)
    (hstep : step exponential s event = some s') : Minted exponential s' := by
  cases event with
  | create agentId =>
    obtain rfl := some.inj hstep
    obtain ⟨hminted, hnext⟩ := create_minted s agentId
    exact h.congr hminted (le_of_eq hnext.symm)
  | fork source agentId =>
    obtain rfl := some.inj hstep
    have hfork : s.fork source agentId = s ∨ s.fork source agentId = s.create agentId := by
      unfold fork
      split
      · cases agentId with
        | none => exact .inr rfl
        | some id =>
          dsimp only
          split
          · exact .inl rfl
          · exact .inr rfl
      · exact .inl rfl
    rcases hfork with hfork | hfork <;> rw [hfork]
    · exact h
    · obtain ⟨hminted, hnext⟩ := create_minted s agentId
      exact h.congr hminted (le_of_eq hnext.symm)
  | mint k persisted =>
    obtain ⟨maxSuffix, hk, rfl⟩ := map_eq_some_iff.mp hstep
    exact h.mint k maxSuffix persisted (hapart maxSuffix hk).1
  | mintFailed k =>
    obtain ⟨maxSuffix, _, rfl⟩ := map_eq_some_iff.mp hstep
    exact h.congr rfl (le_refl _)
  | mintedElsewhere n =>
    obtain rfl := some.inj hstep
    exact h.mintedElsewhere n
  | advance n =>
    obtain ⟨scope, _, hstep⟩ := bind_eq_some_iff.mp hstep
    unfold advance at hstep
    split at hstep
    · split at hstep <;> obtain rfl := some.inj hstep <;> exact h.congr rfl (le_refl _)
    · cases hstep
  | fail n =>
    obtain ⟨scope, _, hstep⟩ := bind_eq_some_iff.mp hstep
    unfold fail at hstep
    split at hstep
    · cases hstep
    · obtain rfl := some.inj hstep
      exact h.congr rfl (le_refl _)
  | settle n =>
    obtain ⟨scope, _, hstep⟩ := bind_eq_some_iff.mp hstep
    unfold settle at hstep
    split at hstep
    · cases hstep
      exact h.congr rfl (le_refl _)
    · cases hstep
  | settleJoined n =>
    obtain ⟨scope, _, hstep⟩ := bind_eq_some_iff.mp hstep
    unfold settleJoined at hstep
    split at hstep
    · cases hstep
      exact h.congr rfl (le_refl _)
    · cases hstep
  | remove id =>
    cases hstep
    unfold remove
    split
    · exact h
    · exact h.congr rfl (le_refl _)
  | drained n =>
    obtain ⟨scope, _, hstep⟩ := bind_eq_some_iff.mp hstep
    unfold drained at hstep
    split at hstep
    · cases hstep
      exact h.congr rfl (le_refl _)
    · cases hstep

end

end Minted

/-- An agent that has finished its bootstrap, is registered and is not disposed. -/
def Ready (s : AgentLifecycleService) (n : Nat) : Prop :=
  ∃ scope, s.scopes[n]? = some scope ∧ scope.stage = .done ∧ scope.disposed = false ∧
    s.handles.get scope.id = some n

instance Ready.decidable (s : AgentLifecycleService) (n : Nat) : Decidable (s.Ready n) :=
  decidable_of_iff (∃ scope ∈ s.scopes[n]?, scope.stage = .done ∧ scope.disposed = false ∧
    s.handles.get scope.id = some n) Iff.rfl

/-- Whoever gets the handle of an agent gets a ready one. -/
theorem Sound.resolved (h : Sound s) (hresolves : s.resolvesTo event = some n) : s.Ready n := by
  have hready : ∀ scope, s.scopes[n]? = some scope → scope.stage = .done → scope.disposed = false →
      scope.removing = false → s.Ready n := by
    intro scope hn hdone hdisposed hremoving
    exact ⟨scope, hn, hdone, hdisposed, (h.kept n scope hn).registered.mpr ⟨hdisposed, hremoving⟩⟩
  cases event with
  | create agentId =>
    cases agentId with
    | none => cases hresolves
    | some id =>
      obtain ⟨hcreating, hhandle⟩ := ite_none_right_eq_some.mp hresolves
      obtain ⟨scope, hn, rfl⟩ := h.handled id n hhandle
      have hk := h.kept n scope hn
      obtain ⟨hdisposed, hremoving⟩ := hk.registered.mp hhandle
      cases hstage : scope.stage with
      | done => exact hready scope hn hstage hdisposed hremoving
      | failed => exact absurd (hdisposed.symm.trans (hk.failed hstage)) Bool.false_ne_true
      | _ =>
        have hstarting := hk.starting (by rw [hstage]; rfl)
        rw [hk.creating.mpr hstarting.1] at hcreating
        cases hcreating
  | settle m =>
    obtain ⟨scope, hm, hresolves⟩ := bind_eq_some_iff.mp hresolves
    obtain ⟨⟨hdone, hawaited⟩, hmn⟩ := ite_none_right_eq_some.mp hresolves
    obtain rfl := some.inj hmn
    have hk := h.kept m scope hm
    apply hready scope hm hdone
    · apply Bool.eq_false_of_not_eq_true
      intro hdisposed
      rcases hk.disposed hdisposed with hfailed | ⟨_, hnot, _⟩
      · cases hdone.symm.trans hfailed
      · exact absurd (hnot.symm.trans hawaited) Bool.false_ne_true
    · apply Bool.eq_false_of_not_eq_true
      intro hremoving
      exact absurd ((hk.removing hremoving).2.1.symm.trans hawaited) Bool.false_ne_true
  | settleJoined m =>
    obtain ⟨scope, hm, hresolves⟩ := bind_eq_some_iff.mp hresolves
    obtain ⟨⟨hdone, hjoined⟩, hmn⟩ := ite_none_right_eq_some.mp hresolves
    obtain rfl := some.inj hmn
    have hk := h.kept m scope hm
    apply hready scope hm hdone
    · apply Bool.eq_false_of_not_eq_true
      intro hdisposed
      rcases hk.disposed hdisposed with hfailed | ⟨_, _, hnone⟩
      · cases hdone.symm.trans hfailed
      · exact hjoined hnone
    · apply Bool.eq_false_of_not_eq_true
      intro hremoving
      exact hjoined (hk.removing hremoving).2.2.1
  | _ => cases hresolves

/-- What the creations and removals of a session leave to its callers and listeners. -/
structure Lifecycle (s : AgentLifecycleService) : Prop where
  single : ∀ (n m : Nat) (a b : AgentScope), s.scopes[n]? = some a → s.scopes[m]? = some b → a.id = b.id →
    a.disposed = false → b.disposed = false → n = m
  resolved : ∀ event n, s.resolvesTo event = some n → s.Ready n
  minted : s.minted.Nodup
  alternate : ∀ id, bindings id s.fired = some (s.interactionBusDisposables.has id)
  bound : ∀ id n, s.interactionBusDisposables.get id = some n ↔
    ∃ scope, s.scopes[n]? = some scope ∧ scope.id = id ∧ scope.live = true

/-- A session without agents; the counter is the process's. -/
def begun (first : Nat) : AgentLifecycleService := { nextAgentId := first }

theorem lifecycle_of_run {events : List Event}
    (hapart : AlongRun (step exponential) (Apart exponential) (begun first) events)
    (hrun : events.foldlM (step exponential) (begun first) = some s) : Lifecycle s := by
  have hstart : Sound (begun first) ∧ Minted exponential (begun first) := by
    refine ⟨Sound.empty first, ?_, nodup_nil⟩
    intro id hid
    cases hid
  obtain ⟨hsound, hminted⟩ := hapart.invariant (I := fun s => Sound s ∧ Minted exponential s)
    (fun s e s' hs hapart hstep => ⟨hs.1.step hapart hstep, hs.2.step hapart hstep⟩) hstart hrun
  constructor
  · intro n m a b ha hb hid hlive hlive'
    apply hsound.single n m a b ha hb hid
    · simp [AgentScope.present, hlive]
    · simp [AgentScope.present, hlive']
  · intro event n hresolves
    exact hsound.resolved hresolves
  · exact hminted.nodup
  · exact hsound.alternate
  · exact hsound.bound

instance Vacant.decidable (s : AgentLifecycleService) (id : String) : Decidable (s.Vacant id) :=
  inferInstanceAs (Decidable (s.creating.get id = none ∧ s.handles.get id = none ∧
    ∀ scope ∈ s.scopes, scope.id = id → scope.removing = false))

instance Apart.decidable (exponential : Nat → String) (s : AgentLifecycleService) :
    (event : Event) → Decidable (Apart exponential s event)
  | .create (some id) =>
    inferInstanceAs (Decidable (s.creating.get id = none → s.handles.get id = none → s.Vacant id))
  | .fork _ (some id) =>
    inferInstanceAs (Decidable (s.creating.get id = none → s.handles.get id = none → s.Vacant id))
  | .mint k persisted =>
    inferInstanceAs (Decidable (∀ maxSuffix ∈ s.minting[k]?, s.candidate maxSuffix persisted < 2 ^ 53 ∧
      s.Vacant (mintedId exponential (s.candidate maxSuffix persisted))))
  | .fail n =>
    inferInstanceAs (Decidable (∀ scope ∈ s.scopes[n]?, scope.stage ≠ .sealing ∧ scope.stage ≠ .registering))
  | .remove id =>
    inferInstanceAs (Decidable (∀ n ∈ s.handles.get id, ∀ scope ∈ s.scopes[n]?,
      scope.awaited = false ∧ scope.joined = 0))
  | .create none => isTrue trivial
  | .fork _ none => isTrue trivial
  | .mintFailed _ => isTrue trivial
  | .mintedElsewhere _ => isTrue trivial
  | .advance _ => isTrue trivial
  | .settle _ => isTrue trivial
  | .settleJoined _ => isTrue trivial
  | .drained _ => isTrue trivial

/-- The bootstrap of scope `n`, from its first await to the return of its creation. -/
def bootstrap (n : Nat) : List Event := [.advance n, .advance n, .advance n, .advance n, .advance n, .settle n]

def createdAgain : List Event :=
  [.create (some "main")] ++ bootstrap 0 ++ [.create none, .mint 0 ["agent-2"]] ++ bootstrap 1 ++
    [.remove "main", .drained 0, .create (some "main"), .create (some "main")] ++ bootstrap 2 ++ [.settleJoined 2]

theorem lifecycle_of_createdAgain : ∃ s, createdAgain.foldlM (step fun _ => "") (begun 0) = some s ∧ Lifecycle s := by
  have hsome : (createdAgain.foldlM (step fun _ => "") (begun 0)).isSome = true := by decide +kernel
  obtain ⟨s, hrun⟩ := isSome_iff_exists.mp hsome
  have hapart : AlongRun (step fun _ => "") (Apart fun _ => "") (begun 0) createdAgain := by decide +kernel
  exact ⟨s, hrun, lifecycle_of_run hapart hrun⟩

/-- An agent is created again while its removal drains: two scopes of one id, and the end of the removal
releases what listeners bound for the second. A removal during the bootstrap leaves the creation with a
disposed agent; a bootstrap that fails before its announcement disposes what was never announced. -/
theorem overlapping_removal :
    (∃ s ∈ ([.create (some "main")] ++ bootstrap 0 ++ [.remove "main", .create (some "main")] ++ bootstrap 1 ++
          [.drained 0] : List Event).foldlM (step fun _ => "") (begun 0),
        (∃ scope ∈ s.scopes[1]?, scope.id = "main" ∧ scope.live = true) ∧
          s.interactionBusDisposables.get "main" = none ∧ bindings "main" s.fired = none) ∧
    (∃ s ∈ ([.create (some "main")] ++ bootstrap 0 ++ [.remove "main", .create (some "main")] :
          List Event).foldlM (step fun _ => "") (begun 0),
        ∃ a ∈ s.scopes[0]?, ∃ b ∈ s.scopes[1]?, a.id = b.id ∧ a.disposed = false ∧ b.disposed = false) ∧
    (∃ s ∈ ([.create (some "main"), .advance 0, .advance 0, .advance 0, .advance 0, .advance 0,
          .remove "main", .drained 0] : List Event).foldlM (step fun _ => "") (begun 0),
        s.resolvesTo (.settle 0) = some 0 ∧ ¬ s.Ready 0) ∧
    ∃ s ∈ ([.create (some "main"), .fail 0] : List Event).foldlM (step fun _ => "") (begun 0),
      bindings "main" s.fired = none := by
  decide

end AgentLifecycleService
end Echadron.Session
