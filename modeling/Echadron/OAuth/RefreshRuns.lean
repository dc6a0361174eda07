import Echadron.OAuth.OAuthManager

namespace Echadron.OAuth
open Lib List Option

/-! What the refreshes of one token do to the store, in every order of their steps. -/

namespace Phase

def holdsLock : Phase → Bool
  | .locked _ => true
  | .refreshing _ => true
  | .saving _ => true
  | .rejected _ _ => true
  | .tombstoning _ _ => true
  | .releasing _ => true
  | .loading => false
  | .acquiring _ => false
  | .settled _ => false
  | .finished _ => false

/-- The call has read a token and may still write. -/
def underWay : Phase → Bool
  | .acquiring _ => true
  | .locked _ => true
  | .refreshing _ => true
  | .saving _ => true
  | .rejected _ _ => true
  | .tombstoning _ _ => true
  | .loading => false
  | .releasing _ => false
  | .settled _ => false
  | .finished _ => false

/-- The result of an exchange that has not reached the store. -/
def exchanged : Phase → Option TokenInfo
  | .saving refreshed => some refreshed
  | .loading => none
  | .acquiring _ => none
  | .locked _ => none
  | .refreshing _ => none
  | .rejected _ _ => none
  | .tombstoning _ _ => none
  | .releasing _ => none
  | .settled _ => none
  | .finished _ => none

/-- The order of the phases; no call goes back. -/
def rank : Phase → Nat
  | .loading => 0
  | .acquiring _ => 1
  | .locked _ => 2
  | .refreshing _ => 3
  | .saving _ => 4
  | .rejected _ _ => 5
  | .tombstoning _ _ => 6
  | .releasing _ => 7
  | .settled _ => 8
  | .finished _ => 9

end Phase

theorem classifyToken_valid (h : classifyToken stored = .valid token) :
    stored = some token ∧ token.accessToken.length ≠ 0 := by
  cases stored with
  | none => cases h
  | some found =>
    simp only [classifyToken] at h
    split at h
    · cases h
    · rename_i hlength
      cases h
      exact ⟨rfl, hlength⟩

theorem classifyToken_missing (h : classifyToken stored = .missing) : stored = none := by
  cases stored with
  | none => rfl
  | some found =>
    simp only [classifyToken] at h
    split at h <;> cases h

section Reads
variable (options : OAuthManagerOptions)

theorem afterLoad_cases (call : Call) (now : Int) (stored : Option TokenInfo) :
    (∃ token, options.afterLoad call now stored = .acquiring token ∧ stored = some token) ∨
      ∃ outcome, options.afterLoad call now stored = .settled outcome := by
  unfold OAuthManagerOptions.afterLoad
  split
  · exact .inr ⟨_, rfl⟩
  · exact .inr ⟨_, rfl⟩
  · rename_i token hstored
    split
    · exact .inl ⟨token, rfl, (classifyToken_valid hstored).1⟩
    · exact .inr ⟨_, rfl⟩

theorem refresh_cases (token : TokenInfo) :
    options.refresh token = .refreshing token ∨ ∃ outcome, options.refresh token = .releasing outcome := by
  unfold OAuthManagerOptions.refresh
  split
  · exact .inr ⟨_, rfl⟩
  · exact .inl rfl

theorem afterLock_cases (call : Call) (now : Int) (token : TokenInfo) (stored : Option TokenInfo) :
    (∃ active, options.afterLock call now token stored = .refreshing active ∧
      (stored = none ∨ (stored = some active ∧ active.accessToken.length ≠ 0))) ∨
      ∃ outcome, options.afterLock call now token stored = .releasing outcome := by
  unfold OAuthManagerOptions.afterLock
  split
  · exact .inr ⟨_, rfl⟩
  · rename_i hstored
    rcases refresh_cases options token with h | h
    · exact .inl ⟨token, h, .inl (classifyToken_missing hstored)⟩
    · exact .inr h
  · rename_i after hstored
    split
    · exact .inr ⟨_, rfl⟩
    · split
      · exact .inr ⟨_, rfl⟩
      · rcases refresh_cases options after with h | h
        · exact .inl ⟨after, h, .inr (classifyToken_valid hstored)⟩
        · exact .inr h

theorem afterRejection_cases (active : TokenInfo) (message : String) (stored : Option TokenInfo) :
    (afterRejection active message stored = .tombstoning active message ∧
      ∀ token, classifyToken stored = .valid token → token.refreshToken = active.refreshToken) ∨
      ∃ outcome, afterRejection active message stored = .releasing outcome := by
  unfold afterRejection
  split
  · rename_i token hstored
    split
    · exact .inr ⟨_, rfl⟩
    · rename_i hsame
      left
      refine ⟨rfl, ?_⟩
      intro found hfound
      cases hstored.symm.trans hfound
      exact not_not.mp hsame
  · rename_i hstored
    left
    refine ⟨rfl, ?_⟩
    intro found hfound
    cases hstored.symm.trans hfound
  · rename_i hstored
    left
    refine ⟨rfl, ?_⟩
    intro found hfound
    cases hstored.symm.trans hfound

theorem afterResponse_failed_cases (active : TokenInfo) (error : OAuthError) :
    (∃ message, afterResponse active (.failed error) = .rejected active message) ∨
      ∃ outcome, afterResponse active (.failed error) = .releasing outcome := by
  cases error with
  | unauthorized message => exact .inl ⟨message, rfl⟩
  | other message => exact .inr ⟨_, rfl⟩

end Reads

namespace Refreshes

variable {options : OAuthManagerOptions} {s s' : Refreshes} {c d m n : Nat}

theorem phase?_setPhase (s : Refreshes) (c : Nat) (phase : Phase) :
    (s.setPhase c phase).phase? d = if d = c then (s.phase? c).map fun _ => phase else s.phase? d := by
  unfold phase? setPhase
  rw [getElem?_modify]
  split
  · rename_i h
    subst h
    rw [if_pos rfl]
    cases s.calls[c]? <;> rfl
  · rename_i h
    rw [if_neg (Ne.symm h)]
    cases s.calls[d]? <;> rfl

theorem phase?_setPhase_self (h : s.phase? c = some phase) (phase' : Phase) :
    (s.setPhase c phase').phase? c = some phase' := by
  rw [phase?_setPhase, if_pos rfl, h]
  rfl

theorem phase?_setPhase_ne (h : d ≠ c) (phase : Phase) : (s.setPhase c phase).phase? d = s.phase? d := by
  rw [phase?_setPhase, if_neg h]

theorem phase?_start (s : Refreshes) (m : Nat) (force : Bool) :
    (s.start m force).phase? d = if d = s.calls.length then some .loading else s.phase? d := by
  unfold phase? start
  split
  · rename_i h
    subst h
    rw [getElem?_concat_length]
    rfl
  · rcases Nat.lt_or_ge d s.calls.length with hlt | hge
    · rw [getElem?_append_left hlt]
    · rw [getElem?_eq_none hge, getElem?_eq_none]
      simp only [length_append, length_cons, length_nil]
      omega

theorem phase?_length (s : Refreshes) : s.phase? s.calls.length = none := by
  unfold phase?
  rw [getElem?_eq_none (Nat.le_refl _)]
  rfl

/-- Only what the callers of a manager share differs. -/
def SameTokens (s s' : Refreshes) : Prop :=
  s'.store = s.store ∧ s'.lock = s.lock ∧ s'.spent = s.spent ∧ s'.calls = s.calls

/-- A caller that starts a call starts it at its first read. -/
inductive Started (s : Refreshes) : Refreshes → Prop where
  | shared (t : Refreshes) (h : SameTokens s t) : Started s t
  | call (s₁ : Refreshes) (h : SameTokens s s₁) (m : Nat) (force : Bool) : Started s (s₁.start m force)

theorem ensureFresh_started (h : s.ensureFresh m force = some s') : Started s s' := by
  obtain ⟨manager, _, h⟩ := bind_eq_some_iff.mp h
  split at h
  · cases h
    exact .call s ⟨rfl, rfl, rfl, rfl⟩ m force
  · obtain ⟨current, _, h⟩ := bind_eq_some_iff.mp h
    split at h
    · cases h
      exact .shared _ ⟨rfl, rfl, rfl, rfl⟩
    · cases h
      exact .shared _ ⟨rfl, rfl, rfl, rfl⟩

theorem Started.after (hsame : SameTokens s s₁) (h : Started s₁ s') : Started s s' := by
  obtain ⟨hstore, hlock, hspent, hcalls⟩ := hsame
  cases h with
  | shared t h =>
    exact .shared _ ⟨h.1.trans hstore, h.2.1.trans hlock, h.2.2.1.trans hspent, h.2.2.2.trans hcalls⟩
  | call s₂ h m force =>
    exact .call s₂ ⟨h.1.trans hstore, h.2.1.trans hlock, h.2.2.1.trans hspent, h.2.2.2.trans hcalls⟩ m force

theorem resume_started (h : s.resume m n = some s') : Started s s' := by
  obtain ⟨manager, _, h⟩ := bind_eq_some_iff.mp h
  obtain ⟨c, _, h⟩ := bind_eq_some_iff.mp h
  split at h
  · have hsame : ∀ managers : List OAuthManager, SameTokens s { s with managers } :=
      fun _ => ⟨rfl, rfl, rfl, rfl⟩
    exact (ensureFresh_started h).after (hsame _)
  · cases h

def Found (stored : Option TokenInfo) : Phase → Prop
  | .acquiring token => stored = some token
  | .refreshing active => stored = none ∨ (stored = some active ∧ active.accessToken.length ≠ 0)
  | .tombstoning active _ =>
    ∀ token, classifyToken stored = .valid token → token.refreshToken = active.refreshToken
  | .loading => True
  | .locked _ => True
  | .saving _ => True
  | .rejected _ _ => True
  | .releasing _ => True
  | .settled _ => True
  | .finished _ => True

inductive Turn (s : Refreshes) (c : Nat) : CallEvent → Phase → Refreshes → Prop where
  /-- Neither the store nor the lock is touched. -/
  | quiet (event : CallEvent) (p p' : Phase) (t : Refreshes) (ht : SameTokens (s.setPhase c p') t)
      (hlock : p'.holdsLock = p.holdsLock) (hp : p.exchanged = none) (hp' : p'.exchanged = none)
      (hrank : p.rank < p'.rank) (hway : p'.underWay = true → p.underWay = true ∨ s.store ≠ none)
      (hfound : Found s.store p') : Turn s c event p t
  | acquire (token : TokenInfo) (hfree : s.lock = none) :
      Turn s c .acquire (.acquiring token) { s.setPhase c (.locked token) with lock := some c }
  | exchange (active refreshed : TokenInfo) :
      Turn s c (.respond (.refreshed refreshed)) (.refreshing active)
        ((s.exchange active refreshed).setPhase c (.saving refreshed))
  | save (refreshed : TokenInfo) (outcome : Outcome) :
      Turn s c .save (.saving refreshed) (s.save c refreshed outcome)
  | tombstone (active : TokenInfo) (message : String) (outcome : Outcome) :
      Turn s c .tombstone (.tombstoning active message) (s.save c (revokedTombstone active) outcome)
  | release (outcome : Outcome) :
      Turn s c .release (.releasing outcome) { s.setPhase c (.settled outcome) with lock := none }

theorem sameTokens_refl (s : Refreshes) : SameTokens s s := ⟨rfl, rfl, rfl, rfl⟩

theorem Turn.ended (ht : SameTokens (s.setPhase c p') t) (hlock : p'.holdsLock = p.holdsLock)
    (hp : p.exchanged = none) (hrank : p.rank < p'.rank) (hend : p'.underWay = false) :
    Turn s c event p t := by
  apply Turn.quiet event p p' t ht hlock hp
  · cases p' with
    | saving refreshed => cases hend
    | _ => rfl
  · exact hrank
  · intro hway
    rw [hend] at hway
    cases hway
  · cases p' with
    | acquiring token => cases hend
    | refreshing active => cases hend
    | tombstoning active message => cases hend
    | _ => trivial

theorem Turn.goesOn (hlock : p'.holdsLock = p.holdsLock) (hp : p.exchanged = none)
    (hp' : p'.exchanged = none) (hrank : p.rank < p'.rank) (hway : p.underWay = true ∨ s.store ≠ none)
    (hfound : Found s.store p') : Turn s c event p (s.setPhase c p') :=
  .quiet event p p' _ (sameTokens_refl _) hlock hp hp' hrank (fun _ => hway) hfound

theorem load_turn (call : Call) (now : Int) :
    Turn s c (.load now) .loading (s.setPhase c (options.afterLoad call now s.store)) := by
  rcases afterLoad_cases options call now s.store with ⟨token, hafter, hstore⟩ | ⟨outcome, hafter⟩
  · rw [hafter]
    apply Turn.goesOn
    · rfl
    · rfl
    · rfl
    · simp [Phase.rank]
    · exact .inr (by rw [hstore]; exact some_ne_none token)
    · exact hstore
  · rw [hafter]
    apply Turn.ended (sameTokens_refl _)
    · rfl
    · rfl
    · simp [Phase.rank]
    · rfl

theorem reread_turn (call : Call) (now : Int) (token : TokenInfo) :
    Turn s c (.reread now) (.locked token) (s.setPhase c (options.afterLock call now token s.store)) := by
  rcases afterLock_cases options call now token s.store with ⟨active, hafter, hread⟩ | ⟨outcome, hafter⟩
  · rw [hafter]
    apply Turn.goesOn
    · rfl
    · rfl
    · rfl
    · simp [Phase.rank]
    · exact .inl rfl
    · exact hread
  · rw [hafter]
    apply Turn.ended (sameTokens_refl _)
    · rfl
    · rfl
    · simp [Phase.rank]
    · rfl

theorem failed_turn (active : TokenInfo) (error : OAuthError) :
    Turn s c (.respond (.failed error)) (.refreshing active)
      (s.setPhase c (afterResponse active (.failed error))) := by
  rcases afterResponse_failed_cases active error with ⟨message, hafter⟩ | ⟨outcome, hafter⟩
  · rw [hafter]
    apply Turn.goesOn
    · rfl
    · rfl
    · rfl
    · simp [Phase.rank]
    · exact .inl rfl
    · trivial
  · rw [hafter]
    apply Turn.ended (sameTokens_refl _)
    · rfl
    · rfl
    · simp [Phase.rank]
    · rfl

theorem recover_turn (active : TokenInfo) (message : String) :
    Turn s c .recover (.rejected active message) (s.setPhase c (afterRejection active message s.store)) := by
  rcases afterRejection_cases active message s.store with ⟨hafter, hfound⟩ | ⟨outcome, hafter⟩
  · rw [hafter]
    apply Turn.goesOn
    · rfl
    · rfl
    · rfl
    · simp [Phase.rank]
    · exact .inl rfl
    · exact hfound
  · rw [hafter]
    apply Turn.ended (sameTokens_refl _)
    · rfl
    · rfl
    · simp [Phase.rank]
    · rfl

theorem callStep_turn (h : s.callStep options c call event = some s') : Turn s c event call.phase s' := by
  unfold callStep at h
  split at h
  · rename_i now hphase
    cases h
    rw [hphase]
    exact load_turn call now
  · rename_i token hphase
    split at h
    · rename_i hfree
      cases h
      rw [hphase]
      exact .acquire token hfree
    · cases h
  · rename_i token message hphase
    cases h
    rw [hphase]
    apply Turn.ended (sameTokens_refl _)
    · rfl
    · rfl
    · simp [Phase.rank]
    · rfl
  · rename_i token now hphase
    cases h
    rw [hphase]
    exact reread_turn call now token
  · rename_i active refreshed hphase
    cases h
    rw [hphase]
    exact .exchange active refreshed
  · rename_i active error hphase
    cases h
    rw [hphase]
    exact failed_turn active error
  · rename_i refreshed hphase
    cases h
    rw [hphase]
    exact .save refreshed _
  · rename_i active message hphase
    cases h
    rw [hphase]
    exact recover_turn active message
  · rename_i active message hphase
    cases h
    rw [hphase]
    exact .tombstone active message _
  · rename_i outcome hphase
    cases h
    rw [hphase]
    exact .release outcome
  · rename_i outcome hphase
    cases h
    rw [hphase]
    have hsame : SameTokens (s.setPhase c (.finished outcome))
        ((s.clearSlot c call).setPhase c (.finished outcome)) := ⟨rfl, rfl, rfl, rfl⟩
    apply Turn.ended hsame
    · rfl
    · rfl
    · simp [Phase.rank]
    · rfl
  · cases h

theorem step_cases (h : s.step options event = some s') : Started s s' ∨
      (∃ c e p, event = .call c e ∧ s.phase? c = some p ∧ Turn s c e p s') ∨
      (∃ token, (event = .login token ∨ event = .saveToken token) ∧ s' = s.put token) ∨
      (event = .logout ∧ s' = { s with store := none }) := by
  cases event with
  | ensureFresh m force => exact .inl (ensureFresh_started h)
  | resume m n => exact .inl (resume_started h)
  | call c e =>
    obtain ⟨call, hcall, h⟩ := bind_eq_some_iff.mp h
    right
    left
    refine ⟨c, e, call.phase, rfl, ?_, callStep_turn h⟩
    unfold phase?
    rw [hcall]
    rfl
  | login token =>
    cases h
    exact .inr (.inr (.inl ⟨token, .inl rfl, rfl⟩))
  | saveToken token =>
    cases h
    exact .inr (.inr (.inl ⟨token, .inr rfl, rfl⟩))
  | logout =>
    cases h
    exact .inr (.inr (.inr ⟨rfl, rfl⟩))

theorem SameTokens.phase? (h : SameTokens s s') (c : Nat) : s'.phase? c = s.phase? c := by
  unfold Refreshes.phase?
  rw [h.2.2.2]

theorem phase?_setPhase_iff (hp : s.phase? c = some p) :
    (s.setPhase c p').phase? d = some q ↔ (d = c ∧ q = p') ∨ (d ≠ c ∧ s.phase? d = some q) := by
  by_cases h : d = c
  · subst h
    rw [phase?_setPhase_self hp]
    constructor
    · intro hq
      exact .inl ⟨rfl, (some.inj hq).symm⟩
    · rintro (⟨_, rfl⟩ | ⟨hne, _⟩)
      · rfl
      · exact absurd rfl hne
  · rw [phase?_setPhase_ne h]
    constructor
    · intro hq
      exact .inr ⟨h, hq⟩
    · rintro (⟨rfl, _⟩ | ⟨_, hq⟩)
      · exact absurd rfl h
      · exact hq

theorem phase?_start_iff :
    (s.start m force).phase? d = some q ↔ (d = s.calls.length ∧ q = .loading) ∨ s.phase? d = some q := by
  rw [phase?_start]
  split
  · rename_i h
    subst h
    rw [phase?_length]
    constructor
    · intro hq
      exact .inl ⟨rfl, (some.inj hq).symm⟩
    · rintro (⟨_, rfl⟩ | hq)
      · rfl
      · cases hq
  · rename_i h
    constructor
    · exact .inr
    · rintro (⟨hd, _⟩ | hq)
      · exact absurd hd h
      · exact hq

theorem holdsLock_of_exchanged {p : Phase} (h : p.exchanged = some refreshed) : p.holdsLock = true := by
  cases p with
  | saving token => rfl
  | _ => cases h

/-- The lock is held by one call, and no refresh token that is spent is left to be sent. -/
structure Guarded (s : Refreshes) : Prop where
  holder : ∀ c, s.lock = some c ↔ ∃ p, s.phase? c = some p ∧ p.holdsLock = true
  unspent : ∀ c p refreshed, s.phase? c = some p → p.exchanged = some refreshed → refreshed.refreshToken ∉ s.spent
  /-- Only until the result of the exchange is written. -/
  stored : ∀ token, s.store = some token → token.accessToken.length ≠ 0 → token.refreshToken ∈ s.spent →
    ∃ c p refreshed, s.phase? c = some p ∧ p.exchanged = some refreshed

namespace Guarded

section

variable (h : Guarded s)
include h

theorem unique (hc : s.phase? c = some p) (hp : p.holdsLock = true)
    (hd : s.phase? d = some q) (hq : q.holdsLock = true) : c = d := by
  have hlock := (h.holder c).mpr ⟨p, hc, hp⟩
  rw [(h.holder d).mpr ⟨q, hd, hq⟩] at hlock
  exact (some.inj hlock).symm

theorem sameTokens (hsame : SameTokens s t) : Guarded t := by
  obtain ⟨hstore, hlock, hspent, hcalls⟩ := hsame
  have hphase : ∀ c, t.phase? c = s.phase? c := SameTokens.phase? ⟨hstore, hlock, hspent, hcalls⟩
  constructor
  · intro c
    rw [hlock, hphase]
    exact h.holder c
  · intro c p refreshed
    rw [hphase, hspent]
    exact h.unspent c p refreshed
  · intro token
    rw [hstore, hspent]
    simp only [hphase]
    exact h.stored token

theorem start (m : Nat) (force : Bool) : Guarded (s.start m force) := by
  constructor
  · intro c
    apply (h.holder c).trans
    constructor
    · rintro ⟨p, hp, hheld⟩
      exact ⟨p, phase?_start_iff.mpr (.inr hp), hheld⟩
    · rintro ⟨p, hp, hheld⟩
      rcases phase?_start_iff.mp hp with ⟨_, rfl⟩ | hp
      · cases hheld
      · exact ⟨p, hp, hheld⟩
  · intro c p refreshed hp hexchanged
    rcases phase?_start_iff.mp hp with ⟨_, rfl⟩ | hp
    · cases hexchanged
    · exact h.unspent c p refreshed hp hexchanged
  · intro token hstore hvalid hspent
    obtain ⟨c, p, refreshed, hp, hexchanged⟩ := h.stored token hstore hvalid hspent
    exact ⟨c, p, refreshed, phase?_start_iff.mpr (.inr hp), hexchanged⟩

theorem started (hstarted : Started s s') : Guarded s' := by
  cases hstarted with
  | shared t hsame => exact h.sameTokens hsame
  | call s₁ hsame m force => exact (h.sameTokens hsame).start m force

theorem setPhase (hp : s.phase? c = some p) (hlock : p'.holdsLock = p.holdsLock)
    (hx : p.exchanged = none) (hx' : p'.exchanged = none) : Guarded (s.setPhase c p') := by
  constructor
  · intro d
    apply (h.holder d).trans
    constructor
    · rintro ⟨q, hq, hheld⟩
      by_cases hd : d = c
      · subst hd
        obtain rfl := mem_unique hp hq
        exact ⟨p', phase?_setPhase_self hp p', hlock.trans hheld⟩
      · exact ⟨q, (phase?_setPhase_iff hp).mpr (.inr ⟨hd, hq⟩), hheld⟩
    · rintro ⟨q, hq, hheld⟩
      rcases (phase?_setPhase_iff hp).mp hq with ⟨rfl, rfl⟩ | ⟨_, hq⟩
      · exact ⟨p, hp, hlock.symm.trans hheld⟩
      · exact ⟨q, hq, hheld⟩
  · intro d q refreshed hq hexchanged
    rcases (phase?_setPhase_iff hp).mp hq with ⟨_, rfl⟩ | ⟨_, hq⟩
    · rw [hx'] at hexchanged
      cases hexchanged
    · exact h.unspent d q refreshed hq hexchanged
  · intro token hstore hvalid hspent
    obtain ⟨d, q, refreshed, hq, hexchanged⟩ := h.stored token hstore hvalid hspent
    have hd : d ≠ c := by
      rintro rfl
      obtain rfl := mem_unique hp hq
      rw [hx] at hexchanged
      cases hexchanged
    exact ⟨d, q, refreshed, (phase?_setPhase_iff hp).mpr (.inr ⟨hd, hq⟩), hexchanged⟩

theorem acquire (hp : s.phase? c = some (.acquiring token)) (hfree : s.lock = none) :
    Guarded { s.setPhase c (.locked token) with lock := some c } := by
  have hnone : ∀ d q, s.phase? d = some q → q.holdsLock = false := by
    intro d q hq
    by_contra hheld
    have hlock := (h.holder d).mpr ⟨q, hq, eq_true_of_ne_false hheld⟩
    rw [hfree] at hlock
    cases hlock
  constructor
  · intro d
    constructor
    · intro hd
      cases hd
      exact ⟨.locked token, phase?_setPhase_self hp _, rfl⟩
    · rintro ⟨q, hq, hheld⟩
      rcases (phase?_setPhase_iff hp).mp hq with ⟨rfl, _⟩ | ⟨_, hq⟩
      · rfl
      · rw [hnone d q hq] at hheld
        cases hheld
  · intro d q refreshed hq hexchanged
    rcases (phase?_setPhase_iff hp).mp hq with ⟨_, rfl⟩ | ⟨_, hq⟩
    · cases hexchanged
    · exact h.unspent d q refreshed hq hexchanged
  · intro token hstore hvalid hspent
    obtain ⟨d, q, refreshed, hq, hexchanged⟩ := h.stored token hstore hvalid hspent
    have hheld := holdsLock_of_exchanged hexchanged
    rw [hnone d q hq] at hheld
    cases hheld

theorem exchange (hp : s.phase? c = some (.refreshing active)) (refreshed : TokenInfo) :
    Guarded ((s.exchange active refreshed).setPhase c (.saving refreshed)) := by
  have hp' : (s.exchange active refreshed).phase? c = some (.refreshing active) := hp
  constructor
  · intro d
    apply (h.holder d).trans
    constructor
    · rintro ⟨q, hq, hheld⟩
      by_cases hd : d = c
      · subst hd
        exact ⟨.saving refreshed, phase?_setPhase_self hp' _, rfl⟩
      · exact ⟨q, (phase?_setPhase_iff hp').mpr (.inr ⟨hd, hq⟩), hheld⟩
    · rintro ⟨q, hq, hheld⟩
      rcases (phase?_setPhase_iff hp').mp hq with ⟨rfl, _⟩ | ⟨_, hq⟩
      · exact ⟨.refreshing active, hp, rfl⟩
      · exact ⟨q, hq, hheld⟩
  · intro d q result hq hexchanged
    rcases (phase?_setPhase_iff hp').mp hq with ⟨_, rfl⟩ | ⟨hd, hq⟩
    · cases hexchanged
      intro hspent
      exact of_decide_eq_true (mem_filter.mp hspent).2 rfl
    · exact absurd (h.unique hq (holdsLock_of_exchanged hexchanged) hp rfl) hd
  · intro _ _ _ _
    exact ⟨c, .saving refreshed, refreshed, phase?_setPhase_self hp' _, rfl⟩

theorem save (hp : s.phase? c = some p) (hheld : p.holdsLock = true)
    (htoken : token.accessToken.length ≠ 0 → token.refreshToken ∉ s.spent) (outcome : Outcome) :
    Guarded (s.save c token outcome) := by
  constructor
  · intro d
    apply (h.holder d).trans
    constructor
    · rintro ⟨q, hq, hheld'⟩
      obtain rfl := h.unique hp hheld hq hheld'
      exact ⟨.releasing outcome, phase?_setPhase_self hp _, rfl⟩
    · rintro ⟨q, hq, hheld'⟩
      rcases (phase?_setPhase_iff hp).mp hq with ⟨rfl, _⟩ | ⟨_, hq⟩
      · exact ⟨p, hp, hheld⟩
      · exact ⟨q, hq, hheld'⟩
  · intro d q refreshed hq hexchanged
    rcases (phase?_setPhase_iff hp).mp hq with ⟨_, rfl⟩ | ⟨_, hq⟩
    · cases hexchanged
    · exact h.unspent d q refreshed hq hexchanged
  · intro stored hstore hvalid hspent
    cases hstore
    exact absurd hspent (htoken hvalid)

theorem release (hp : s.phase? c = some (.releasing outcome)) :
    Guarded { s.setPhase c (.settled outcome) with lock := none } := by
  have hnone : ∀ d q, d ≠ c → s.phase? d = some q → q.holdsLock = false := by
    intro d q hd hq
    by_contra hheld
    exact hd (h.unique hq (eq_true_of_ne_false hheld) hp rfl)
  constructor
  · intro d
    constructor
    · intro hd
      cases hd
    · rintro ⟨q, hq, hheld⟩
      rcases (phase?_setPhase_iff hp).mp hq with ⟨_, rfl⟩ | ⟨hd, hq⟩
      · cases hheld
      · rw [hnone d q hd hq] at hheld
        cases hheld
  · intro d q refreshed hq hexchanged
    rcases (phase?_setPhase_iff hp).mp hq with ⟨_, rfl⟩ | ⟨_, hq⟩
    · cases hexchanged
    · exact h.unspent d q refreshed hq hexchanged
  · intro token hstore hvalid hspent
    obtain ⟨d, q, refreshed, hq, hexchanged⟩ := h.stored token hstore hvalid hspent
    have hd : d = c := h.unique hq (holdsLock_of_exchanged hexchanged) hp rfl
    subst hd
    obtain rfl := mem_unique hp hq
    cases hexchanged

theorem turn (hp : s.phase? c = some p) (hturn : Turn s c e p s') : Guarded s' := by
  cases hturn with
  | quiet _ _ p' _ ht hlock hx hx' _ _ _ => exact (h.setPhase hp hlock hx hx').sameTokens ht
  | acquire token hfree => exact h.acquire hp hfree
  | exchange active refreshed => exact h.exchange hp refreshed
  | save refreshed outcome => exact h.save hp rfl (fun _ => h.unspent c _ refreshed hp rfl) outcome
  | tombstone active message outcome => exact h.save hp rfl (absurd rfl) outcome
  | release outcome => exact h.release hp

theorem put (token : TokenInfo) : Guarded (s.put token) := by
  constructor
  · exact h.holder
  · intro c p refreshed hp hexchanged hspent
    exact h.unspent c p refreshed hp hexchanged (mem_filter.mp hspent).1
  · intro stored hstore _ hspent
    cases hstore
    exact absurd rfl (of_decide_eq_true (mem_filter.mp hspent).2)

theorem logout : Guarded { s with store := none } := by
  refine { h with stored := ?_ }
  intro token hstore
  cases hstore

theorem step (hstep : s.step options event = some s') : Guarded s' := by
  rcases step_cases hstep with hstarted | ⟨c, e, p, _, hp, hturn⟩ | ⟨token, _, rfl⟩ | ⟨_, rfl⟩
  · exact h.started hstarted
  · exact h.turn hp hturn
  · exact h.put token
  · exact h.logout

theorem run (hrun : s.run options events = some s') : Guarded s' :=
  run_invariant (I := Guarded) (fun _ _ _ h hstep => h.step hstep) h hrun

theorem found_unspent (hp : s.phase? c = some p) (hheld : p.holdsLock = true)
    (hx : p.exchanged = none) (hstore : s.store = some token) (hvalid : token.accessToken.length ≠ 0) :
    token.refreshToken ∉ s.spent := by
  intro hspent
  obtain ⟨d, q, refreshed, hq, hexchanged⟩ := h.stored token hstore hvalid hspent
  obtain rfl := h.unique hp hheld hq (holdsLock_of_exchanged hexchanged)
  obtain rfl := mem_unique hp hq
  rw [hx] at hexchanged
  cases hexchanged

end

end Guarded

/-- The events that write to the store without the lock. -/
def Event.unlocked : Event → Bool
  | .login _ => true
  | .saveToken _ => true
  | .logout => true
  | .ensureFresh _ _ => false
  | .resume _ _ => false
  | .call _ _ => false

theorem Turn.phase (h : Turn s c e p s') (hp : s.phase? c = some p) :
    ∃ p', s'.phase? c = some p' ∧ p.rank < p'.rank ∧ ∀ d, d ≠ c → s'.phase? d = s.phase? d := by
  cases h with
  | quiet _ _ p' _ ht _ _ _ hrank _ _ =>
    refine ⟨p', ?_, hrank, ?_⟩
    · rw [ht.phase?]
      exact phase?_setPhase_self hp p'
    · intro d hd
      rw [ht.phase?]
      exact phase?_setPhase_ne hd p'
  | acquire token _ =>
    exact ⟨_, phase?_setPhase_self hp _, by simp [Phase.rank], fun d hd => phase?_setPhase_ne hd _⟩
  | exchange active refreshed =>
    have hp' : (s.exchange active refreshed).phase? c = some (.refreshing active) := hp
    exact ⟨_, phase?_setPhase_self hp' _, by simp [Phase.rank], fun d hd => phase?_setPhase_ne hd _⟩
  | save refreshed outcome =>
    exact ⟨_, phase?_setPhase_self hp _, by simp [Phase.rank], fun d hd => phase?_setPhase_ne hd _⟩
  | tombstone active message outcome =>
    exact ⟨_, phase?_setPhase_self hp _, by simp [Phase.rank], fun d hd => phase?_setPhase_ne hd _⟩
  | release outcome =>
    exact ⟨_, phase?_setPhase_self hp _, by simp [Phase.rank], fun d hd => phase?_setPhase_ne hd _⟩

theorem Started.phase (h : Started s s') (hp : s.phase? c = some p) : s'.phase? c = some p := by
  cases h with
  | shared t hsame => rw [hsame.phase?, hp]
  | call s₁ hsame m force =>
    rw [← hsame.phase?] at hp
    exact phase?_start_iff.mpr (.inr hp)

theorem step_phase (h : s.step options event = some s') (hp : s.phase? c = some p) :
    ∃ p', s'.phase? c = some p' ∧ (p' = p ∨ p.rank < p'.rank) := by
  rcases step_cases h with hstarted | ⟨d, e, q, _, hq, hturn⟩ | ⟨token, _, rfl⟩ | ⟨_, rfl⟩
  · exact ⟨p, hstarted.phase hp, .inl rfl⟩
  · obtain ⟨q', hq', hrank, hothers⟩ := hturn.phase hq
    by_cases hc : c = d
    · subst hc
      obtain rfl := mem_unique hp hq
      exact ⟨q', hq', .inr hrank⟩
    · rw [← hothers c hc] at hp
      exact ⟨p, hp, .inl rfl⟩
  · exact ⟨p, hp, .inl rfl⟩
  · exact ⟨p, hp, .inl rfl⟩

theorem run_cons_cases (h : s.run options (event :: events) = some s') :
    ∃ s₁, s.step options event = some s₁ ∧ s₁.run options events = some s' := by
  exact bind_eq_some_iff.mp h

theorem run_phase (h : s.run options events = some s') (hp : s.phase? c = some p) :
    ∃ p', s'.phase? c = some p' ∧ (p' = p ∨ p.rank < p'.rank) := by
  induction events generalizing s p with
  | nil =>
    cases h
    exact ⟨p, hp, .inl rfl⟩
  | cons event events ih =>
    obtain ⟨s₁, hstep, hrun⟩ := run_cons_cases h
    obtain ⟨p₁, hp₁, h₁⟩ := step_phase hstep hp
    obtain ⟨p₂, hp₂, h₂⟩ := ih hrun hp₁
    refine ⟨p₂, hp₂, ?_⟩
    rcases h₁ with rfl | h₁
    · exact h₂
    · rcases h₂ with rfl | h₂
      · exact .inr h₁
      · exact .inr (Nat.lt_trans h₁ h₂)

theorem Turn.store (h : Turn s c e p s') :
    s'.store = s.store ∨ (p.holdsLock = true ∧ ∃ outcome, s'.phase? c = (s.phase? c).map fun _ => .releasing outcome) := by
  cases h with
  | quiet _ _ p' _ ht _ _ _ _ _ _ => exact .inl ht.1
  | acquire token _ => exact .inl rfl
  | exchange active refreshed => exact .inl rfl
  | save refreshed outcome =>
    right
    refine ⟨rfl, outcome, ?_⟩
    exact (phase?_setPhase s c _).trans (if_pos rfl)
  | tombstone active message outcome =>
    right
    refine ⟨rfl, outcome, ?_⟩
    exact (phase?_setPhase s c _).trans (if_pos rfl)
  | release outcome => exact .inl rfl

theorem Started.store (h : Started s s') : s'.store = s.store := by
  cases h with
  | shared t hsame => exact hsame.1
  | call s₁ hsame m force => exact hsame.1

theorem step_store (hs : Guarded s) (h : s.step options event = some s') (hevent : event.unlocked = false)
    (hp : s.phase? c = some p) (hheld : p.holdsLock = true)
    (hp' : s'.phase? c = some p') (hrank : p'.rank < 7) : s'.store = s.store := by
  rcases step_cases h with hstarted | ⟨d, e, q, _, hq, hturn⟩ | ⟨token, rfl | rfl, _⟩ | ⟨rfl, _⟩
  · exact hstarted.store
  · rcases hturn.store with hstore | ⟨hheld', outcome, hreleasing⟩
    · exact hstore
    · obtain rfl := hs.unique hp hheld hq hheld'
      rw [hp, hp'] at hreleasing
      cases hreleasing
      exact absurd hrank (by simp [Phase.rank])
  · cases hevent
  · cases hevent
  · cases hevent

theorem holdsLock_iff_rank (p : Phase) : p.holdsLock = true ↔ 2 ≤ p.rank ∧ p.rank ≤ 7 := by
  cases p <;> simp [Phase.holdsLock, Phase.rank]

theorem run_store (hs : Guarded s) (h : s.run options events = some s')
    (hevents : ∀ event ∈ events, event.unlocked = false)
    (hp : s.phase? c = some p) (hheld : p.holdsLock = true)
    (hp' : s'.phase? c = some p') (hrank : p'.rank < 7) : s'.store = s.store := by
  induction events generalizing s p with
  | nil =>
    cases h
    rfl
  | cons event events ih =>
    obtain ⟨hevent, hevents⟩ := forall_mem_cons.mp hevents
    obtain ⟨s₁, hstep, hrun⟩ := run_cons_cases h
    obtain ⟨p₁, hp₁, h₁⟩ := step_phase hstep hp
    obtain ⟨p₂, hp₂, h₂⟩ := run_phase hrun hp₁
    obtain rfl := mem_unique hp' hp₂
    have hrank₁ : p₁.rank < 7 := by
      rcases h₂ with rfl | h₂
      · exact hrank
      · exact Nat.lt_trans h₂ hrank
    have hheld₁ : p₁.holdsLock = true := by
      obtain ⟨hlow, _⟩ := (holdsLock_iff_rank p).mp hheld
      apply (holdsLock_iff_rank p₁).mpr
      rcases h₁ with rfl | h₁
      · exact ⟨hlow, Nat.le_of_lt hrank₁⟩
      · exact ⟨Nat.le_trans hlow (Nat.le_of_lt h₁), Nat.le_of_lt hrank₁⟩
    rw [ih (hs.step hstep) hrun hevents hp₁ hheld₁]
    exact step_store hs hstep hevent hp hheld hp₁ hrank₁

theorem step_store_ne_none (h : s.step options event = some s') (hevent : event ≠ .logout)
    (hstore : s.store ≠ none) : s'.store ≠ none := by
  rcases step_cases h with hstarted | ⟨d, e, q, _, hq, hturn⟩ | ⟨token, _, rfl⟩ | ⟨hlogout, _⟩
  · rw [hstarted.store]
    exact hstore
  · cases hturn with
    | quiet _ _ p' _ ht _ _ _ _ _ _ =>
      rw [ht.1]
      exact hstore
    | acquire token _ => exact hstore
    | exchange active refreshed => exact hstore
    | save refreshed outcome => exact some_ne_none _
    | tombstone active message outcome => exact some_ne_none _
    | release outcome => exact hstore
  · exact some_ne_none _
  · exact absurd hlogout hevent

theorem run_store_ne_none (h : s.run options events = some s')
    (hevents : .logout ∉ events) (hstore : s.store ≠ none) : s'.store ≠ none := by
  induction events generalizing s with
  | nil =>
    cases h
    exact hstore
  | cons event events ih =>
    obtain ⟨hevent, hevents⟩ := not_or.mp (fun hmem => hevents (mem_cons.mpr hmem))
    obtain ⟨s₁, hstep, hrun⟩ := run_cons_cases h
    exact ih hrun hevents (step_store_ne_none hstep (Ne.symm hevent) hstore)

def Emptied (before : Nat → Prop) (s : Refreshes) : Prop :=
  s.store = none ∧ ∀ c p, s.phase? c = some p → p.underWay = true → before c

theorem Turn.emptied (h : Turn s c e p s') (hp : s.phase? c = some p)
    (hs : Emptied before s) (hwrites : before c → e ≠ .save ∧ e ≠ .tombstone) : Emptied before s' := by
  obtain ⟨hstore, hbefore⟩ := hs
  obtain ⟨p', hp', _, hothers⟩ := h.phase hp
  have hphases : (p'.underWay = true → p.underWay = true) →
      ∀ d q, s'.phase? d = some q → q.underWay = true → before d := by
    intro hway d q hq hunderWay
    by_cases hd : d = c
    · subst hd
      obtain rfl := mem_unique hp' hq
      exact hbefore d p hp (hway hunderWay)
    · rw [hothers d hd] at hq
      exact hbefore d q hq hunderWay
  cases h with
  | quiet _ _ r _ ht _ _ _ _ hway _ =>
    rw [ht.phase?, phase?_setPhase_self hp] at hp'
    cases hp'
    refine ⟨ht.1.trans hstore, hphases ?_⟩
    intro hunderWay
    exact (hway hunderWay).resolve_right (not_not.mpr hstore)
  | acquire token _ => exact ⟨hstore, hphases fun _ => rfl⟩
  | exchange active refreshed => exact ⟨hstore, hphases fun _ => rfl⟩
  | save refreshed outcome => exact absurd rfl (hwrites (hbefore c _ hp rfl)).1
  | tombstone active message outcome => exact absurd rfl (hwrites (hbefore c _ hp rfl)).2
  | release outcome =>
    have hsettled := (phase?_setPhase_self hp (.settled outcome)).symm.trans hp'
    cases hsettled
    refine ⟨hstore, hphases ?_⟩
    intro hway
    cases hway

/-- A login or a saved token. -/
def Event.stores : Event → Bool
  | .login _ => true
  | .saveToken _ => true
  | .logout => false
  | .ensureFresh _ _ => false
  | .resume _ _ => false
  | .call _ _ => false

theorem step_emptied (h : s.step options event = some s') (hs : Emptied before s) (hevent : event.stores = false)
    (hwrites : ∀ c, before c → event ≠ .call c .save ∧ event ≠ .call c .tombstone) : Emptied before s' := by
  rcases step_cases h with hstarted | ⟨c, e, p, rfl, hp, hturn⟩ | ⟨token, rfl | rfl, _⟩ | ⟨_, rfl⟩
  · refine ⟨hstarted.store.trans hs.1, ?_⟩
    intro c p hp hway
    cases hstarted with
    | shared t hsame =>
      rw [hsame.phase?] at hp
      exact hs.2 c p hp hway
    | call s₁ hsame m force =>
      rcases phase?_start_iff.mp hp with ⟨_, rfl⟩ | hp
      · cases hway
      · rw [hsame.phase?] at hp
        exact hs.2 c p hp hway
  · apply hturn.emptied hp hs
    intro hc
    obtain ⟨hsave, htombstone⟩ := hwrites c hc
    exact ⟨fun he => hsave (congrArg _ he), fun he => htombstone (congrArg _ he)⟩
  · cases hevent
  · cases hevent
  · exact ⟨rfl, hs.2⟩

theorem run_emptied (h : s.run options events = some s')
    (hs : Emptied before s) (hevents : ∀ event ∈ events, event.stores = false)
    (hwrites : ∀ event ∈ events, ∀ c, before c → event ≠ .call c .save ∧ event ≠ .call c .tombstone) :
    Emptied before s' := by
  induction events generalizing s with
  | nil =>
    cases h
    exact hs
  | cons event events ih =>
    obtain ⟨hevent, hevents⟩ := forall_mem_cons.mp hevents
    obtain ⟨hwrite, hwrites⟩ := forall_mem_cons.mp hwrites
    obtain ⟨s₁, hstep, hrun⟩ := run_cons_cases h
    exact ih hrun (step_emptied hstep hs hevent hwrite) hevents hwrites

theorem callStep_of_step (h : s.step options (.call c e) = some s') : ∃ p, s.phase? c = some p ∧ Turn s c e p s' := by
  obtain ⟨call, hcall, h⟩ := bind_eq_some_iff.mp h
  refine ⟨call.phase, ?_, callStep_turn h⟩
  unfold phase?
  rw [hcall]
  rfl

theorem call_found (h : s.step options (.call c e) = some s') (hp' : s'.phase? c = some p')
    (hread : (∃ now, e = .load now ∨ e = .reread now) ∨ e = .recover) :
    ∃ p, s.phase? c = some p ∧ p.exchanged = none ∧ p.holdsLock = p'.holdsLock ∧
      s'.store = s.store ∧ Found s.store p' := by
  obtain ⟨p, hp, hturn⟩ := callStep_of_step h
  cases hturn with
  | quiet _ _ r _ ht hlock hx _ _ _ hfound =>
    rw [ht.phase?, phase?_setPhase_self hp] at hp'
    cases hp'
    exact ⟨p, hp, hx, hlock.symm, ht.1, hfound⟩
  | acquire token hfree => rcases hread with ⟨now, h | h⟩ | h <;> cases h
  | exchange active refreshed => rcases hread with ⟨now, h | h⟩ | h <;> cases h
  | save refreshed outcome => rcases hread with ⟨now, h | h⟩ | h <;> cases h
  | tombstone active message outcome => rcases hread with ⟨now, h | h⟩ | h <;> cases h
  | release outcome => rcases hread with ⟨now, h | h⟩ | h <;> cases h

/-- No call has been made yet. -/
structure Initial (s : Refreshes) : Prop where
  calls : s.calls = []
  lock : s.lock = none
  spent : s.spent = []
  managers : ∀ manager ∈ s.managers, manager = {}

theorem Initial.guarded (h : Initial s) : Guarded s := by
  have hnone : ∀ c, s.phase? c = none := by
    intro c
    unfold phase?
    rw [h.calls]
    rfl
  constructor
  · intro c
    rw [h.lock, hnone]
    constructor
    · intro hc
      cases hc
    · rintro ⟨p, hp, _⟩
      cases hp
  · intro c p refreshed hp
    rw [hnone] at hp
    cases hp
  · intro token _ _ hspent
    rw [h.spent] at hspent
    cases hspent

/-- What holds of the next steps of a state. -/
structure Serialized (options : OAuthManagerOptions) (s : Refreshes) : Prop where
  /-- A refresh token that is spent is sent only by a call that finds the store empty. -/
  sent : ∀ c now s₁ active, s.step options (.call c (.reread now)) = some s₁ →
    s₁.phase? c = some (.refreshing active) → active.refreshToken ∈ s.spent → s.store = none
  /-- It has been emptied after the call had read a token. -/
  emptied : ∀ c now s₁ token events s₂, s.step options (.call c (.load now)) = some s₁ →
    s₁.phase? c = some (.acquiring token) → s₁.run options events = some s₂ → s₂.store = none →
    .logout ∈ events
  /-- A result replaces the token that was exchanged for it. -/
  replaced : ∀ c now s₁ active events s₂ refreshed,
    s.step options (.call c (.reread now)) = some s₁ → s₁.phase? c = some (.refreshing active) →
    s₁.run options events = some s₂ → s₂.phase? c = some (.saving refreshed) →
    (∀ event ∈ events, event.unlocked = false) →
    s₂.store = s.store ∧ (s.store = none ∨ s.store = some active)
  /-- A tombstone replaces no other token than the rejected one. -/
  tombstoned : ∀ c s₁ active message events s₂ , s.step options (.call c .recover) = some s₁ →
    s₁.phase? c = some (.tombstoning active message) → s₁.run options events = some s₂ →
    s₂.phase? c = some (.tombstoning active message) → (∀ event ∈ events, event.unlocked = false) →
    s₂.store = s.store ∧ ∀ token, classifyToken s.store = .valid token → token.refreshToken = active.refreshToken
  /-- An empty store is filled by a login, a saved token or a call that had read a token before. -/
  stays : ∀ events s₁, s.store = none → s.run options events = some s₁ →
    (∀ event ∈ events, event.stores = false) →
    (∀ event ∈ events, ∀ c p, s.phase? c = some p → p.underWay = true →
      event ≠ .call c .save ∧ event ≠ .call c .tombstone) →
    s₁.store = none

theorem refreshes_serialized {events : List Event} (hinitial : Initial s)
    (hrun : s.run options events = some s') : Serialized options s' := by
  have hs : Guarded s' := hinitial.guarded.run hrun
  constructor
  · intro c now s₁ active hstep hp₁ hspent
    obtain ⟨p, hp, hx, hlock, _, hfound⟩ := call_found hstep hp₁ (.inl ⟨now, .inr rfl⟩)
    rcases hfound with hstore | ⟨hstore, hvalid⟩
    · exact hstore
    · exact absurd hspent (hs.found_unspent hp hlock hx hstore hvalid)
  · intro c now s₁ token events s₂ hstep hp₁ hrun hstore
    obtain ⟨p, _, _, _, hsame, hfound⟩ := call_found hstep hp₁ (.inl ⟨now, .inl rfl⟩)
    have hne : s₁.store ≠ none := by
      rw [hsame, hfound]
      exact some_ne_none token
    by_contra hlogout
    exact run_store_ne_none hrun hlogout hne hstore
  · intro c now s₁ active events s₂ refreshed hstep hp₁ hrun hp₂ hevents
    obtain ⟨p, _, _, _, hsame, hfound⟩ := call_found hstep hp₁ (.inl ⟨now, .inr rfl⟩)
    have hstore := run_store (hs.step hstep) hrun hevents hp₁ rfl hp₂ (by simp [Phase.rank])
    exact ⟨hstore.trans hsame, hfound.imp_right And.left⟩
  · intro c s₁ active message events s₂ hstep hp₁ hrun hp₂ hevents
    obtain ⟨p, _, _, _, hsame, hfound⟩ := call_found hstep hp₁ (.inr rfl)
    have hstore := run_store (hs.step hstep) hrun hevents hp₁ rfl hp₂ (by simp [Phase.rank])
    exact ⟨hstore.trans hsame, hfound⟩
  · intro events s₁ hstore hrun hevents hwrites
    have hemptied : Emptied (fun c => ∃ p, s'.phase? c = some p ∧ p.underWay = true) s' :=
      ⟨hstore, fun c p hp hway => ⟨p, hp, hway⟩⟩
    have hwrites' : ∀ event ∈ events, ∀ c, (∃ p, s'.phase? c = some p ∧ p.underWay = true) →
        event ≠ .call c .save ∧ event ≠ .call c .tombstone := by
      intro event hevent c ⟨p, hp, hway⟩
      exact hwrites event hevent c p hp hway
    exact (run_emptied hrun hemptied hevents hwrites').1

def bearer (accessToken refreshToken : String) : TokenInfo :=
  { accessToken, refreshToken, expiresAt := 3600, scope := "openid", tokenType := "Bearer", expiresIn := 3600 }

def sharedOptions : OAuthManagerOptions := { name := "kimi-code", refreshThreshold := fun _ _ => 300 }

def sharedStore : Refreshes := { store := some (bearer "a0" "r0"), managers := [{}, {}] }

theorem sharedStore_initial : Initial sharedStore := ⟨rfl, rfl, rfl, by decide⟩

/-- Both managers read the token; the second refreshes it and logs out while the first waits. -/
def loggedOutWhileWaiting : List Event :=
  [.ensureFresh 0 true, .ensureFresh 1 true, .call 0 (.load 0), .call 1 (.load 0), .call 1 .acquire,
    .call 1 (.reread 0), .call 1 (.respond (.refreshed (bearer "a1" "r1"))), .call 1 .save, .call 1 .release,
    .call 1 .cleanUp, .logout, .call 0 .acquire]

theorem refreshes_serialized_shared :
    ∃ s, sharedStore.run sharedOptions loggedOutWhileWaiting = some s ∧ Serialized sharedOptions s := by
  have hsome : (sharedStore.run sharedOptions loggedOutWhileWaiting).isSome = true := by decide
  obtain ⟨s, hrun⟩ := isSome_iff_exists.mp hsome
  exact ⟨s, hrun, refreshes_serialized sharedStore_initial hrun⟩

/-- The first manager sends the refresh token that the second has exchanged, and a token is back in the
store that no login has put there. -/
theorem resent_after_logout : (∃ s ∈ sharedStore.run sharedOptions loggedOutWhileWaiting, "r0" ∈ s.spent ∧
      ∃ s₁ ∈ s.step sharedOptions (.call 0 (.reread 0)), s₁.phase? 0 = some (.refreshing (bearer "a0" "r0"))) ∧
    ∃ s ∈ sharedStore.run sharedOptions
        [.ensureFresh 0 true, .call 0 (.load 0), .logout, .call 0 .acquire, .call 0 (.reread 0),
          .call 0 (.respond (.refreshed (bearer "a1" "r1"))), .call 0 .save],
      s.store = some (bearer "a1" "r1") := by
  decide

end Refreshes
end Echadron.OAuth
