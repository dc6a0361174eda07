import Echadron.OAuth.TokenTransaction
import Mathlib.Data.List.Nodup

namespace Echadron.OAuth
open Lib List Option

theorem perm_cons_filter {number : α → Nat} {l : List α} (hnodup : (l.map number).Nodup)
    (ha : a ∈ l) : l.Perm (a :: l.filter fun b => number b ≠ number a) := by
  induction l with
  | nil => cases ha
  | cons b l ih =>
    rw [map_cons, nodup_cons] at hnodup
    obtain ⟨hfresh, hnodup⟩ := hnodup
    rcases mem_cons.mp ha with rfl | ha
    · have hall : l.filter (fun b => number b ≠ number a) = l := by
        apply filter_eq_self.mpr
        intro c hc
        apply decide_eq_true
        intro hsame
        exact hfresh (hsame ▸ mem_map_of_mem hc)
      rw [filter_cons_of_neg (by simp), hall]
    · have hne : number b ≠ number a := by
        intro hsame
        exact hfresh (hsame ▸ mem_map_of_mem ha)
      have hfilter : (b :: l).filter (fun b => number b ≠ number a) =
          b :: l.filter fun b => number b ≠ number a := filter_cons_of_pos (decide_eq_true hne)
      rw [hfilter]
      exact ((ih hnodup ha).cons b).trans (List.Perm.swap ..)

theorem filter_eraseP {p q : α → Bool} (h : ∀ a, p a = true → q a = false) (l : List α) :
    (l.eraseP p).filter q = l.filter q := by
  induction l with
  | nil => rfl
  | cons a l ih =>
    by_cases hp : p a = true
    · rw [eraseP_cons_of_pos hp, filter_cons_of_neg (by simp [h a hp])]
    · rw [eraseP_cons_of_neg hp, filter_cons, filter_cons, ih]

variable {Instance Refresh Fields : Type} [DecidableEq Instance] [DecidableEq Refresh] [DecidableEq Fields]
variable {o : TransactionOptions Refresh Fields}

namespace Transactions

variable {s s' : Transactions Instance Refresh Fields}

def owedSave (i : Instance) (g : TransactionGrant Instance Refresh Fields) : Option (Effect Refresh Fields) :=
  if g.owner = i then g.effect.filter Effect.isSave else none

def owed (s : Transactions Instance Refresh Fields) (i : Instance) : List (Effect Refresh Fields) :=
  s.waiting.filterMap (owedSave i)

/-- Between two steps. Grants have numbers below `grants`, and what is current was made so before step `made`. -/
structure Sound (grants made : Nat) (s : Transactions Instance Refresh Fields) : Prop where
  lawful : Throughout LawfulTransaction s.trace
  saves : ∀ i, ((s.effects i).filter Effect.isSave).Perm (s.owed i)
  numbers : (s.waiting.map TransactionGrant.number).Nodup
  earlier : ∀ g ∈ s.waiting, g.number < grants
  made : s.madeBy < made
  quiet : ∀ i, ∀ effect ∈ s.effects i, effect.isIn .tokens = true →
    ∀ t : Transactions Instance Refresh Fields, t.removesFor effect = false
  reportable : ∀ g ∈ s.waiting, ∀ effect ∈ g.effect,
    effect.isSave = true ∨ effect.isIn .tokens = true ∨ effect.isIn .all = true
  failing : ∀ g ∈ s.waiting, ∀ effect ∈ g.effect, effect.isIn .all = true →
    ∀ tokens, effect.tokensAtFailure = some tokens → s.storage = some tokens → s.madeBy ≤ g.number

variable {grants made : Nat}

section

variable (h : s.Sound grants made)
include h

theorem Sound.put_some (hfresh : s.Fresh tokens) : (s.put (some tokens)).Sound grants (s.clock + 1) :=
  { h with
    made := Nat.lt_succ_self _
    failing := by
      intro g hg effect heffect hin tokens' hfailure hstorage
      cases hstorage
      exact absurd hfailure (hfresh g hg effect heffect hin) }

theorem Sound.put_none : (s.put none).Sound grants (s.clock + 1) :=
  { h with
    made := Nat.lt_succ_self _
    failing := by
      intro g hg effect heffect hin tokens hfailure hstorage
      cases hstorage }

theorem Sound.record {r : TransactionRecord Refresh} (hr : LawfulTransaction s.trace r) :
    (s.record r).Sound grants made := { h with lawful := h.lawful.concat hr }

theorem Sound.later (hgrants : grants ≤ grants') (hmade : made ≤ made') : s.Sound grants' made' :=
  { h with
    earlier := fun g hg => Nat.lt_of_lt_of_le (h.earlier g hg) hgrants
    made := Nat.lt_of_lt_of_le h.made hmade }

end

omit [DecidableEq Refresh] [DecidableEq Fields] in
theorem owed_append (s : Transactions Instance Refresh Fields) (g : TransactionGrant Instance Refresh Fields)
    (i : Instance) : (s.waiting ++ [g]).filterMap (owedSave i) = s.owed i ++ (owedSave i g).toList := by
  rw [filterMap_append, owed]
  cases hsave : owedSave i g <;> simp [hsave]

theorem Sound.numbers_append (h : s.Sound s.clock made) {g : TransactionGrant Instance Refresh Fields}
    (hg : g.number = s.clock) : ((s.waiting ++ [g]).map TransactionGrant.number).Nodup ∧
      ∀ g' ∈ s.waiting ++ [g], g'.number < s.clock + 1 := by
  constructor
  · rw [map_append, map_singleton, ← concat_eq_append]
    apply h.numbers.concat
    intro hmem
    obtain ⟨g', hg', hsame⟩ := mem_map.mp hmem
    exact absurd (hsame.trans hg) (Nat.ne_of_lt (h.earlier g' hg'))
  · intro g' hg'
    rcases mem_snoc.mp hg' with hold | rfl
    · exact Nat.lt_succ_of_lt (h.earlier g' hold)
    · exact hg ▸ Nat.lt_succ_self _

theorem Sound.remember (h : s.Sound s.clock (s.clock + 1)) {owner : Instance} {effect : Effect Refresh Fields}
    (hquiet : effect.isIn .tokens = true → ∀ t : Transactions Instance Refresh Fields, t.removesFor effect = false)
    (hreportable : effect.isSave = true ∨ effect.isIn .tokens = true ∨ effect.isIn .all = true) :
    (s.remember owner effect).Sound (s.clock + 1) (s.clock + 1) := by
  obtain ⟨hnumbers, hearlier⟩ := @Sound.numbers_append _ _ _ _ _ _ s _ h ⟨s.clock, owner, some effect⟩ rfl
  exact
    { lawful := h.lawful
      saves := by
        intro i
        change (filter _ (if i = owner then s.effects i ++ [effect] else s.effects i)).Perm
          ((s.waiting ++ [_]).filterMap (owedSave i))
        rw [owed_append, owedSave]
        by_cases hi : i = owner
        · subst hi
          rw [if_pos rfl, filter_append]
          apply (h.saves i).append
          cases hsave : effect.isSave <;> simp [hsave, Option.filter]
        · rw [if_neg hi, if_neg (Ne.symm hi)]
          exact (append_nil (s.owed i)).symm ▸ h.saves i
      numbers := hnumbers
      earlier := hearlier
      made := h.made
      quiet := by
        intro i effect' hmem
        change effect' ∈ (if i = owner then s.effects i ++ [effect] else s.effects i) at hmem
        split at hmem
        · rcases mem_snoc.mp hmem with hold | rfl
          · exact h.quiet i effect' hold
          · exact hquiet
        · exact h.quiet i effect' hmem
      reportable := by
        intro g hg
        rcases mem_snoc.mp hg with hold | rfl
        · exact h.reportable g hold
        · intro effect' heffect
          cases heffect
          exact hreportable
      failing := by
        intro g hg
        rcases mem_snoc.mp hg with hold | rfl
        · exact h.failing g hold
        · intro _ _ _ _ _ _
          exact Nat.le_of_lt_succ h.made }

theorem Sound.passOn (h : s.Sound s.clock (s.clock + 1)) (owner : Instance) :
    (s.passOn owner).Sound (s.clock + 1) (s.clock + 1) := by
  obtain ⟨hnumbers, hearlier⟩ := @Sound.numbers_append _ _ _ _ _ _ s _ h ⟨s.clock, owner, none⟩ rfl
  exact
    { h with
      saves := by
        intro i
        change List.Perm _ ((s.waiting ++ [_]).filterMap (owedSave i))
        rw [owed_append, owedSave, filter_none, ite_self]
        exact (append_nil (s.owed i)).symm ▸ h.saves i
      numbers := hnumbers
      earlier := hearlier
      reportable := by
        intro g hg
        rcases mem_snoc.mp hg with hold | rfl
        · exact h.reportable g hold
        · intro effect heffect
          cases heffect
      failing := by
        intro g hg
        rcases mem_snoc.mp hg with hold | rfl
        · exact h.failing g hold
        · intro effect heffect
          cases heffect }

section

omit [DecidableEq Instance]

section

variable (t : Transactions Instance Refresh Fields) (grantType : GrantType) (error : GrantError)
  (tokens : Option (OAuthTokens Refresh Fields))
include t grantType error tokens

theorem quiet_removed (preserve : Bool) :
    t.removesFor (.invalidate grantType error tokens true preserve) = false := by
  simp [removesFor]

theorem quiet_preserved (removed : Bool) :
    t.removesFor (.invalidate grantType error tokens removed true) = false := by
  simp [removesFor]

end

theorem quiet_code (t : Transactions Instance Refresh Fields) (tokens : Option (OAuthTokens Refresh Fields))
    (removed preserve : Bool) :
    t.removesFor (.invalidate .authorizationCode .invalidGrant tokens removed preserve) = false := by
  simp [removesFor]

end

omit [DecidableEq Refresh] [DecidableEq Fields] in
theorem failure_reportable (h : error ≠ .other) (grantType : GrantType)
    (tokens : Option (OAuthTokens Refresh Fields)) (removed preserve : Bool) :
    let effect := Effect.invalidate grantType error tokens removed preserve
    effect.isSave = true ∨ effect.isIn .tokens = true ∨ effect.isIn .all = true := by
  cases error with
  | invalidGrant => exact .inr (.inl rfl)
  | invalidClient => exact .inr (.inr rfl)
  | unauthorizedClient => exact .inr (.inr rfl)
  | other => exact absurd rfl h

/-- A refresh that fails with `invalid_grant` was forwarded with the stored refresh token, and has removed it. -/
theorem Sound.failed (h : s.Sound s.clock s.clock)
    (hforwarded : grantType = .refreshToken → refreshToken s.storage = requested) :
    (s.commitResponse o owner grantType requested (.failed error)).Sound (s.clock + 1) (s.clock + 1) := by
  by_cases herror : error = .other
  · subst herror
    exact h.later (Nat.le_succ _) (Nat.le_succ _)
  · rw [commitResponse]
    · split
      · have hput : (s.put none).Sound (s.put none).clock ((s.put none).clock + 1) := h.put_none
        apply hput.remember
        · intro _ t
          exact quiet_removed t ..
        · exact failure_reportable herror ..
      · rename_i hkept
        have hlater : s.Sound s.clock (s.clock + 1) := h.later (Nat.le_refl _) (Nat.le_succ _)
        apply hlater.remember
        · intro hin t
          have hinvalid : error = .invalidGrant := of_decide_eq_true hin
          cases grantType with
          | authorizationCode =>
            subst hinvalid
            exact quiet_code t ..
          | refreshToken => exact absurd ⟨rfl, hinvalid, hforwarded rfl⟩ hkept
        · exact failure_reportable herror ..
    · exact herror

theorem Sound.commitResponse (h : s.Sound s.clock s.clock) {owner : Instance} {grantType : GrantType}
    {requested : Option Refresh} {response : TokenResponse Refresh Fields}
    (hforwarded : grantType = .refreshToken → refreshToken s.storage = requested)
    (hfresh : ∀ payload, response = .ok payload → ∀ tokens ∈ committed o grantType requested payload,
      s.Fresh (o.stored s.clock tokens)) :
    (s.commitResponse o owner grantType requested response).Sound (s.clock + 1) (s.clock + 1) := by
  cases response with
  | failed error => exact h.failed hforwarded
  | ok payload =>
    rw [Transactions.commitResponse]
    split
    · have hlater : s.Sound s.clock (s.clock + 1) := h.later (Nat.le_refl _) (Nat.le_succ _)
      exact hlater.passOn owner
    · rename_i tokens hcommitted
      have hput : (s.put (some (o.stored s.clock tokens))).Sound s.clock (s.clock + 1) :=
        h.put_some (hfresh payload rfl tokens hcommitted)
      apply @Sound.remember _ _ _ _ _ _ (s.put (some (o.stored s.clock tokens))) hput
      · exact Bool.noConfusion
      · exact .inl rfl

theorem Sound.winner (h : s.Sound s.clock s.clock)
    {winner : Effect Refresh Fields} (hwinner : s.resolveRefreshWinner requested = some winner) :
    (s.remember owner winner).Sound (s.clock + 1) (s.clock + 1) := by
  have hlater : s.Sound s.clock (s.clock + 1) := h.later (Nat.le_refl _) (Nat.le_succ _)
  obtain ⟨-, hwinner⟩ := ite_none_left_eq_some.mp hwinner
  split at hwinner
  · cases hwinner
    apply hlater.remember
    · intro _ t
      exact quiet_removed t ..
    · exact .inr (.inl rfl)
  · split at hwinner
    · cases hwinner
      apply hlater.remember
      · intro _ t
        exact quiet_preserved t ..
      · exact .inr (.inl rfl)
    · cases hwinner
      apply hlater.remember
      · exact Bool.noConfusion
      · exact .inl rfl

omit [DecidableEq Instance] [DecidableEq Fields] in
theorem forwarded_stored (h : s.resolveRefreshWinner requested = none) : refreshToken s.storage = requested := by
  by_contra hne
  rw [resolveRefreshWinner, if_neg hne] at h
  split at h
  · cases h
  · split at h <;> cases h

theorem Sound.runTokenRequest (h : s.Sound s.clock s.clock)
    (hfresh : (grantType = .refreshToken → refreshToken s.storage = requested) →
      ∀ payload, response = .ok payload → ∀ tokens ∈ committed o grantType requested payload,
        s.Fresh (o.stored s.clock tokens)) :
    (s.runTokenRequest o owner grantType requested response).Sound (s.clock + 1) (s.clock + 1) := by
  cases grantType with
  | authorizationCode =>
    apply h.commitResponse
    · exact GrantType.noConfusion
    · exact hfresh GrantType.noConfusion
  | refreshToken =>
    rw [Transactions.runTokenRequest]
    split
    · rename_i winner hwinner
      exact h.winner hwinner
    · rename_i hnone
      have hstored := forwarded_stored hnone
      have hrecord : (s.record (.forwarded requested (refreshToken s.storage))).Sound s.clock s.clock :=
        h.record hstored.symm
      dsimp only
      split
      · rename_i winner hwinner
        cases hnone.symm.trans hwinner
      · apply @Sound.commitResponse _ _ _ _ _ _ o (s.record (.forwarded requested (refreshToken s.storage))) hrecord
        · exact fun _ => hstored
        · exact hfresh fun _ => hstored

omit [DecidableEq Instance] [DecidableEq Refresh] [DecidableEq Fields] in
theorem findWaiting_some
    (h : s.findWaiting number = some g) : g ∈ s.waiting ∧ g.number = number := by
  have hnumber := find?_some h
  exact ⟨mem_of_find?_eq_some h, of_decide_eq_true hnumber⟩

theorem Sound.report (h : s.Sound grants made) {g : TransactionGrant Instance Refresh Fields} (hg : g ∈ s.waiting)
    {effects : Instance → List (Effect Refresh Fields)} (hsub : ∀ i, ∀ effect ∈ effects i, effect ∈ s.effects i)
    (hsaves : ∀ i, ((s.effects i).filter Effect.isSave).Perm
      ((owedSave i g).toList ++ (effects i).filter Effect.isSave)) :
    ({ s with effects }.reported g.number).Sound grants made where
  lawful := h.lawful
  saves := by
    intro i
    have howed : (s.owed i).Perm ((owedSave i g).toList ++ (s.reported g.number).owed i) := by
      have hperm := (perm_cons_filter h.numbers hg).filterMap (owedSave i)
      rw [filterMap_cons] at hperm
      cases hown : owedSave i g with
      | none =>
        rw [hown] at hperm
        exact hperm
      | some effect =>
        rw [hown] at hperm
        exact hperm
    have hboth := ((hsaves i).symm.trans (h.saves i)).trans howed
    exact (perm_append_left_iff _).mp hboth
  numbers := h.numbers.sublist (filter_sublist.map _)
  earlier := fun g' hg' => h.earlier g' (mem_of_mem_filter hg')
  made := h.made
  quiet := fun i effect heffect => h.quiet i effect (hsub i effect heffect)
  reportable := fun g' hg' => h.reportable g' (mem_of_mem_filter hg')
  failing := fun g' hg' => h.failing g' (mem_of_mem_filter hg')

omit [DecidableEq Refresh] [DecidableEq Fields] in
theorem forget_sub : ∀ i, ∀ effect ∈ (s.forget owner p).effects i, effect ∈ s.effects i := by
  intro i effect heffect
  change effect ∈ (if i = owner then (s.effects i).eraseP p else s.effects i) at heffect
  split at heffect
  · exact mem_of_mem_eraseP heffect
  · exact heffect

theorem Sound.reportCommitted (h : s.Sound grants made) (hg : g ∈ s.waiting) (hown : g.effect = some (.save own))
    (hcalm : s.SaveUndisturbed o tokens g) :
    ((s.save o g tokens).reported g.number).Sound grants made := by
  obtain ⟨hmatches, honly⟩ := hcalm.1 _ hown
  have howed : Effect.save own ∈ s.owed g.owner := by
    apply mem_filterMap.mpr ⟨g, hg, ?_⟩
    rw [owedSave, if_pos rfl, hown]
    rfl
  have hmem : Effect.save own ∈ s.effects g.owner := mem_of_mem_filter ((h.saves g.owner).mem_iff.mpr howed)
  have hany : (s.effects g.owner).any (Effect.matchesSave o tokens) = true :=
    any_eq_true.mpr ⟨_, hmem, hmatches⟩
  rw [save, if_pos hany]
  apply h.report hg forget_sub
  intro i
  change List.Perm _ (_ ++ filter _ (if i = g.owner then (s.effects i).eraseP _ else s.effects i))
  rw [owedSave]
  by_cases hi : g.owner = i
  · subst hi
    obtain ⟨first, before, after, -, hfirst, hsplit, herased⟩ := exists_of_eraseP hmem hmatches
    obtain rfl : first = .save own := honly first (hsplit ▸ mem_append_right _ (mem_cons_self ..)) hfirst
    rw [if_pos rfl, if_pos rfl, hown, herased, hsplit, filter_append, filter_append]
    exact perm_middle
  · rw [if_neg hi, if_neg (Ne.symm hi)]
    exact List.Perm.refl _

theorem Sound.reportPassedOn (h : s.Sound s.clock s.clock) (hg : g ∈ s.waiting) (hown : g.effect = none)
    (hcalm : s.SaveUndisturbed o tokens g) :
    ((s.save o g tokens).reported g.number).Sound (s.clock + 1) (s.clock + 1) := by
  obtain ⟨hfresh, hnone, hclear⟩ := hcalm.2 hown
  have hcleared : ∀ number, .cleared number ∈ s.trace → number ≤ g.number := by
    intro number hmem
    exact Nat.le_of_not_lt (of_decide_eq_false (hclear _ hmem))
  have hany : (s.effects g.owner).any (Effect.matchesSave o tokens) = false :=
    any_eq_false.mpr fun effect heffect hmatches => Bool.false_ne_true ((hnone effect heffect).symm.trans hmatches)
  rw [save, if_neg (hany ▸ Bool.false_ne_true), hown]
  have hput : (s.put (some (o.stored s.clock tokens))).Sound s.clock (s.clock + 1) := h.put_some hfresh
  have hwrote : ((s.put (some (o.stored s.clock tokens))).record (.wrote g.number s.madeBy false)).Sound s.clock
      (s.clock + 1) := hput.record ⟨fun hcommitted => absurd hcommitted Bool.false_ne_true, hcleared⟩
  have hreported := @Sound.report _ _ _ _ _ _ _ _ _ hwrote g hg s.effects (fun _ _ heffect => heffect) (by
    intro i
    rw [owedSave, hown, filter_none, ite_self]
    exact List.Perm.refl _)
  exact hreported.later (Nat.le_succ _) (Nat.le_refl _)

theorem Sound.forgetFailure (h : s.Sound grants made) (owner : Instance) (scope : InvalidateScope) :
    (s.forget owner (Effect.isIn scope)).Sound grants made :=
  { h with
    saves := by
      intro i
      change (filter _ (if i = owner then (s.effects i).eraseP _ else s.effects i)).Perm (s.owed i)
      split
      · rw [filter_eraseP]
        · exact h.saves i
        · intro effect hin
          cases effect with
          | save tokens => cases hin
          | invalidate => rfl
      · exact h.saves i
    quiet := fun i effect heffect => h.quiet i effect (forget_sub i effect heffect) }

omit [DecidableEq Instance] in
theorem removesFor_storage (h : s.removesFor effect = true) : s.storage = effect.tokensAtFailure := by
  cases effect with
  | save tokens => cases h
  | invalidate grantType error tokens removed preserve =>
    have hstorage := (Bool.and_eq_true_iff.mp h).2
    exact of_decide_eq_true hstorage

section

variable (h : s.Sound s.clock s.clock)
include h

theorem Sound.invalidate (hremoved : ∀ number ∈ grant, ∀ effect, (s.effects owner).find? (Effect.isIn scope) = some effect →
      s.removesFor effect = true → s.storage.isSome = true → s.madeBy ≤ number) :
    (s.invalidateFromSdk owner grant scope).Sound s.clock (s.clock + 1) ∧
      (s.invalidateFromSdk owner grant scope).waiting = s.waiting := by
  have hlater : s.Sound s.clock (s.clock + 1) := h.later (Nat.le_refl _) (Nat.le_succ _)
  have hforgot := h.forgetFailure owner scope
  have hput : ((s.forget owner (Effect.isIn scope)).put none).Sound s.clock (s.clock + 1) := hforgot.put_none
  rw [invalidateFromSdk]
  split
  · exact ⟨hlater, rfl⟩
  · rename_i effect hfound
    split
    · rename_i hremoves
      split
      · rename_i number
        split
        · rename_i hstored
          exact ⟨hput.record (hremoved number rfl effect hfound hremoves hstored), rfl⟩
        · exact ⟨hput, rfl⟩
      · exact ⟨hput, rfl⟩
    · exact ⟨hforgot.later (Nat.le_refl _) (Nat.le_succ _), rfl⟩

theorem Sound.reportFailure (hg : g ∈ s.waiting)
    (hown : g.effect = some (.invalidate grantType error atFailure removed preserve))
    (hcalm : (Effect.invalidate grantType error atFailure removed preserve).isIn .all = true →
      ∀ effect ∈ (s.effects g.owner).find? (Effect.isIn .all), effect.tokensAtFailure = atFailure) :
    ((s.invalidateFromSdk g.owner (some g.number) error.scope).reported g.number).Sound (s.clock + 1)
      (s.clock + 1) := by
  have hfailure : ∀ number ∈ some g.number, ∀ effect,
      (s.effects g.owner).find? (Effect.isIn error.scope) = some effect → s.removesFor effect = true →
        s.storage.isSome = true → s.madeBy ≤ number := by
    intro number hnumber effect hfound hremoves hstored
    cases hnumber
    obtain ⟨tokens, hstorage⟩ := isSome_iff_exists.mp hstored
    cases hscope : error.scope with
    | tokens =>
      rw [hscope] at hfound
      have hquiet := h.quiet g.owner effect (mem_of_find?_eq_some hfound) (find?_some hfound) s
      exact absurd (hquiet.symm.trans hremoves) Bool.false_ne_true
    | all =>
      rw [hscope] at hfound
      have hin : (Effect.invalidate grantType error atFailure removed preserve).isIn .all = true := by
        rcases h.reportable g hg _ hown with hsave | htokens | hall
        · cases hsave
        · have hinvalid : error = .invalidGrant := of_decide_eq_true htokens
          rw [hinvalid] at hscope
          cases hscope
        · exact hall
      have hat : atFailure = some tokens := by
        rw [← hcalm hin effect hfound, ← removesFor_storage hremoves]
        exact hstorage
      exact h.failing g hg _ hown hin tokens hat hstorage
  obtain ⟨hsound, hwaiting⟩ := h.invalidate hfailure
  have hreported := hsound.report (hwaiting.symm ▸ hg) (fun _ _ heffect => heffect) (by
    intro i
    have hnone : owedSave i g = none := by
      rw [owedSave, hown]
      exact ite_self none
    rw [hnone]
    exact List.Perm.refl _)
  exact hreported.later (Nat.le_succ _) (Nat.le_refl _)

theorem Sound.act (hcalm : s.Undisturbed o e) (hact : s.act o e = some s') : s'.Sound (s.clock + 1) (s.clock + 1) := by
  cases e with
  | grant owner grantType requested response =>
    cases hact
    apply h.runTokenRequest
    rintro hforwarded payload rfl
    exact hcalm hforwarded
  | reportSave grant tokens =>
    obtain ⟨g, hfound, hg⟩ := bind_eq_some_iff.mp hact
    have hgrant := hcalm g hfound
    obtain ⟨hmem, rfl⟩ := findWaiting_some hfound
    cases hown : g.effect with
    | none =>
      rw [hown] at hg
      cases hg
      exact h.reportPassedOn hmem hown hgrant
    | some effect =>
      cases effect with
      | save own =>
        rw [hown] at hg
        cases hg
        have hlater : s.Sound (s.clock + 1) (s.clock + 1) := h.later (Nat.le_succ _) (Nat.le_succ _)
        exact hlater.reportCommitted hmem hown hgrant
      | invalidate =>
        rw [hown] at hg
        cases hg
  | reportFailure grant =>
    obtain ⟨g, hfound, hg⟩ := bind_eq_some_iff.mp hact
    have hgrant := hcalm g hfound
    obtain ⟨hmem, rfl⟩ := findWaiting_some hfound
    cases hown : g.effect with
    | none =>
      rw [hown] at hg
      cases hg
    | some effect =>
      cases effect with
      | save own =>
        rw [hown] at hg
        cases hg
      | invalidate grantType error atFailure removed preserve =>
        rw [hown] at hg
        cases hg
        exact h.reportFailure hmem hown (hgrant _ hown)
  | invalidate owner scope =>
    cases hact
    have hnothing : ∀ number ∈ (none : Option Nat), ∀ effect,
        (s.effects owner).find? (Effect.isIn scope) = some effect → s.removesFor effect = true →
          s.storage.isSome = true → s.madeBy ≤ number := by
      intro number hnumber
      cases hnumber
    exact (h.invalidate hnothing).1.later (Nat.le_succ _) (Nat.le_refl _)
  | clear =>
    cases hact
    have hput := h.put_none
    have hcleared : (s.clear).Sound s.clock (s.clock + 1) := hput.record trivial
    exact hcleared.later (Nat.le_succ _) (Nat.le_refl _)

theorem Sound.step (hcalm : s.Undisturbed o e) (hstep : s.step o e = some s') : s'.Sound s'.clock s'.clock := by
  obtain ⟨after, hact, rfl⟩ := map_eq_some_iff.mp hstep
  exact { h.act hcalm hact with }

end

theorem Sound.start : ({} : Transactions Instance Refresh Fields).Sound 1 1 where
  lawful := Throughout.nil
  saves := fun _ => List.Perm.refl _
  numbers := nodup_nil
  earlier := by simp
  made := Nat.zero_lt_one
  quiet := by simp
  reportable := by simp
  failing := by simp

/-- A run in which no callback of the SDK answers to the effect of another grant. -/
theorem transactions_lawful_of_run {storage : Option (OAuthTokens Refresh Fields)}
    {events : List (TransactionEvent Instance Refresh Fields)}
    (hcalm : AlongRun (step o) (Undisturbed o) { storage } events)
    (hrun : events.foldlM (step o) { storage } = some s) : Throughout LawfulTransaction s.trace := by
  have hstart : ({ storage } : Transactions Instance Refresh Fields).Sound 1 1 :=
    { @Sound.start Instance Refresh Fields _ _ _ with failing := by simp }
  have hsound : s.Sound s.clock s.clock := hcalm.invariant (I := fun s => s.Sound s.clock s.clock)
    (fun _ _ _ h hcalm hstep => h.step hcalm hstep) hstart hrun
  exact hsound.lawful

/-- Tokens that are numbers, stored as they are. -/
def plainOptions : TransactionOptions Nat Nat := ⟨some, id, fun _ tokens => tokens⟩

def reportedLate : List (TransactionEvent Bool Nat Nat) :=
  [.grant true .authorizationCode none (.ok (some ⟨some 1, 1⟩)), .grant false .refreshToken (some 1) (.ok (some ⟨none, 2⟩)),
    .clear, .reportSave 2 ⟨none, 2⟩, .reportSave 1 ⟨some 1, 1⟩]

theorem reportedLate_lawful : ∃ s, reportedLate.foldlM (step plainOptions) {} = some s ∧ s.storage = none ∧
    s.waiting = [] ∧ Throughout LawfulTransaction s.trace := by
  refine ⟨_, rfl, rfl, rfl, ?_⟩
  exact @transactions_lawful_of_run _ _ _ _ _ _ plainOptions _ none reportedLate (by decide +kernel) rfl

/-- Two grants with one access token, the first with a refresh token: the callback of the second takes the effect of
the first, whose own callback comes after a clear. -/
def reportedForAnother : List (TransactionEvent Bool Nat Nat) :=
  [.grant true .authorizationCode none (.ok (some ⟨some 1, 1⟩)), .grant true .authorizationCode none (.ok (some ⟨none, 1⟩)),
    .reportSave 2 ⟨none, 1⟩, .clear, .reportSave 1 ⟨some 1, 1⟩]

theorem reportedForAnother_restores : ∃ s, reportedForAnother.foldlM (step plainOptions) {} = some s ∧
    s.storage = some ⟨some 1, 1⟩ ∧ s.trace = [.cleared 4, .wrote 1 4 true] ∧ ¬ Throughout LawfulTransaction s.trace := by
  refine ⟨_, rfl, rfl, rfl, ?_⟩
  intro hlawful
  have hwrote := hlawful [.cleared 4] (.wrote 1 4 true) [] rfl
  exact absurd (hwrote.1 rfl) (by decide)

end Transactions

end Echadron.OAuth
