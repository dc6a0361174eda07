import Echadron.Task.DeliveryModel

namespace Echadron.Task
open Lib Agent List Option

/-! The books that are kept about each notification. -/

theorem taskKey_notificationMessage (info : NotifiableTask) (text : String) :
    taskKey (notificationMessage info text) = some info.key := rfl

namespace NotificationService

section

variable (s : NotificationService)

/-- The notifications in the conversation, the deferred ones too. -/
def recordedKeys : List NotificationKey := taskKeys s.recorded

def live (n : Nat) (key : NotificationKey) : Prop :=
  ∃ r, s.requests[n]? = some r ∧ r.state = .pending ∧ r.info.key = key

def ready (n : Nat) (key : NotificationKey) : Prop :=
  ∃ b, s.builds[n]? = some b ∧ (∃ text, b.phase = .built text) ∧ b.info.key = key

/-- What a pending request may be: in the loop, or aborted without an answer so far. -/
def Unanswered (key : NotificationKey) (n : Nat) : Prop :=
  ∃ r, s.requests[n]? = some r ∧ r.info.key = key ∧ r.state ≠ .materialized ∧
    (r.state = .aborted → key ∈ s.dropped)

end

/-- The sets and the map agree about every key, save about one that is being handed on. -/
structure Kept (out : Option NotificationKey) (s : NotificationService) : Prop where
  distinct : s.recordedKeys.Nodup
  deferred : ∀ m ∈ s.deferred, ∀ key ∈ taskKey m, key ∈ s.deliveredNotificationKeys
  recorded : s.undoing ≠ some .cut → ∀ key ∈ s.deliveredNotificationKeys, key ∈ s.recordedKeys
  fresh : ∀ key ∈ s.scheduledNotificationKeys, key ∉ s.deliveredNotificationKeys ∧ key ∉ s.recordedKeys
  live : ∀ n key, s.live n key → s.pendingNotificationRequests.get key = some n
  ready : ∀ n key, s.ready n key →
    key ∈ s.scheduledNotificationKeys ∧ s.pendingNotificationRequests.get key = none
  readyOnce : ∀ n n' key, s.ready n key → s.ready n' key → n = n'
  pending : ∀ key n, some key ≠ out → s.pendingNotificationRequests.get key = some n →
    key ∈ s.scheduledNotificationKeys ∧ s.Unanswered key n
  explained : ∀ key ∈ s.scheduledNotificationKeys, some key ≠ out →
    (∃ n, s.ready n key) ∨ ∃ n, s.pendingNotificationRequests.get key = some n

/-- The key is scheduled, and neither a request nor a build stands for it. -/
structure InHand (s : NotificationService) (key : NotificationKey) : Prop where
  scheduled : key ∈ s.scheduledNotificationKeys
  notLive : ∀ n, ¬s.live n key
  notReady : ∀ n, ¬s.ready n key

theorem not_hasDelivered {s : NotificationService} (h : key ∉ s.recordedKeys) :
    s.hasDeliveredNotification key = false := by
  apply Bool.eq_false_iff.mpr
  intro hdelivered
  obtain ⟨m, hm, hkey⟩ := any_eq_true.mp hdelivered
  apply h
  exact mem_filterMap.mpr ⟨m, mem_append_left _ hm, of_decide_eq_true hkey⟩

theorem Kept.not_recorded (h : Kept out s) (hdelivered : key ∉ s.deliveredNotificationKeys)
    (hhas : ¬s.hasDeliveredNotification key = true) : key ∉ s.recordedKeys := by
  intro hin
  obtain ⟨m, hm, hkey⟩ := mem_filterMap.mp hin
  rcases mem_append.mp hm with hm | hm
  · exact hhas (any_eq_true.mpr ⟨m, hm, decide_eq_true hkey⟩)
  · exact hdelivered (h.deferred m hm key hkey)

theorem ready_append {s : NotificationService} (hb : ∀ text, b.phase ≠ .built text)
    (h : ready { s with builds := s.builds ++ [b] } n key) : s.ready n key := by
  obtain ⟨b', hb', ⟨text, htext⟩, hkey⟩ := h
  rw [getElem?_append] at hb'
  split_ifs at hb' with hn
  · exact ⟨b', hb', ⟨text, htext⟩, hkey⟩
  · have hmem := mem_of_getElem? hb'
    rw [mem_singleton.mp hmem] at htext
    exact absurd htext (hb text)

theorem Kept.startBuild (h : Kept out s) (info : NotifiableTask) (kind : BuildKind) :
    Kept out (s.startBuild info kind) := by
  unfold NotificationService.startBuild
  split_ifs
  · exact h
  · have hnew : ∀ text, (({ info := info, kind := kind } : Build)).phase ≠ .built text :=
      fun _ hbuilt => by cases hbuilt
    refine { h with ready := ?_, readyOnce := ?_, explained := ?_ }
    · intro n key hready
      exact h.ready n key (ready_append hnew hready)
    · intro n n' key hready hready'
      exact h.readyOnce n n' key (ready_append hnew hready) (ready_append hnew hready')
    · intro key hkey hout
      rcases h.explained key hkey hout with ⟨n, b, hb, hbuilt⟩ | hpending
      · left
        have hlt : n < s.builds.length := getElem?_lt hb
        exact ⟨n, b, (getElem?_append_left hlt).trans hb, hbuilt⟩
      · exact .inr hpending

theorem ready_setBuild {s : NotificationService} (h : (s.setBuild n b).ready m key) (hne : m ≠ n) :
    s.ready m key := by
  obtain ⟨b', hb', hrest⟩ := h
  change (s.builds.set n b)[m]? = some b' at hb'
  rw [getElem?_set_ne (Ne.symm hne)] at hb'
  exact ⟨b', hb', hrest⟩

theorem ready_setBuild_self {s : NotificationService} (h : (s.setBuild n b).ready n key) :
    (∃ text, b.phase = .built text) ∧ b.info.key = key := by
  obtain ⟨b', hb', hrest⟩ := h
  change (s.builds.set n b)[n]? = some b' at hb'
  rw [getElem?_set, if_pos rfl] at hb'
  split_ifs at hb'
  cases hb'
  exact hrest

theorem ready.setBuild {s : NotificationService} (h : s.ready m key) (hne : m ≠ n) (b : Build) :
    (s.setBuild n b).ready m key := by
  obtain ⟨b', hb', hrest⟩ := h
  exact ⟨b', (getElem?_set_ne (Ne.symm hne)).trans hb', hrest⟩

theorem Kept.spoil (h : Kept out s) (hb : s.builds[n]? = some b) (hreading : b.phase = .reading) :
    Kept out (s.setBuild n { b with phase := .gone }) := by
  have hold : ∀ m key, (s.setBuild n { b with phase := .gone }).ready m key → s.ready m key := by
    intro m key hready
    by_cases hm : m = n
    · subst hm
      obtain ⟨⟨text, htext⟩, _⟩ := ready_setBuild_self hready
      cases htext
    · exact ready_setBuild hready hm
  refine { h with ready := ?_, readyOnce := ?_, explained := ?_ }
  · exact fun m key hready => h.ready m key (hold m key hready)
  · exact fun m m' key hready hready' => h.readyOnce m m' key (hold m key hready) (hold m' key hready')
  · intro key hkey hout
    rcases h.explained key hkey hout with ⟨m, hready⟩ | hpending
    · left
      refine ⟨m, hready.setBuild ?_ _⟩
      rintro rfl
      obtain ⟨b', hb', ⟨text, htext⟩, _⟩ := hready
      obtain rfl := mem_unique hb hb'
      rw [hreading] at htext
      cases htext
    · exact .inr hpending

theorem Kept.finishBuild (h : Kept none s) (hb : s.builds[n]? = some b) (hreading : b.phase = .reading)
    (text : String) : Kept none (s.finishBuild n b text) := by
  unfold NotificationService.finishBuild
  split_ifs with hskip
  · exact h.spoil hb hreading
  · obtain ⟨_, hskip⟩ := not_or.mp hskip
    obtain ⟨hscheduled, hskip⟩ := not_or.mp hskip
    obtain ⟨hdelivered, hhas⟩ := not_or.mp hskip
    have hrecorded := h.not_recorded hdelivered hhas
    have hnone : s.pendingNotificationRequests.get b.info.key = none := by
      cases hpending : s.pendingNotificationRequests.get b.info.key with
      | none => rfl
      | some m => exact absurd (h.pending b.info.key m (some_ne_none _) hpending).1 hscheduled
    have hold : ∀ m key, (s.setBuild n { b with phase := .built text }).ready m key →
        m = n ∧ b.info.key = key ∨ m ≠ n ∧ s.ready m key := by
      intro m key hready
      by_cases hm : m = n
      · subst hm
        exact .inl ⟨rfl, (ready_setBuild_self hready).2⟩
      · exact .inr ⟨hm, ready_setBuild hready hm⟩
    have hother : ∀ m, ¬s.ready m b.info.key := fun m hready => hscheduled (h.ready m _ hready).1
    refine { h with fresh := ?_, ready := ?_, readyOnce := ?_, pending := ?_, explained := ?_ }
    · intro key hkey
      rcases Finset.mem_insert.mp hkey with rfl | hkey
      · exact ⟨hdelivered, hrecorded⟩
      · exact h.fresh key hkey
    · intro m key hready
      rcases hold m key hready with ⟨_, rfl⟩ | ⟨_, hready⟩
      · exact ⟨Finset.mem_insert_self _ _, hnone⟩
      · exact ⟨Finset.mem_insert_of_mem (h.ready m key hready).1, (h.ready m key hready).2⟩
    · intro m m' key hready hready'
      rcases hold m key hready with ⟨hm, hkey⟩ | ⟨_, hbefore⟩
      · rcases hold m' key hready' with ⟨hm', _⟩ | ⟨_, hbefore'⟩
        · exact hm.trans hm'.symm
        · exact absurd (hkey ▸ hbefore') (hother m')
      · rcases hold m' key hready' with ⟨_, hkey⟩ | ⟨_, hbefore'⟩
        · exact absurd (hkey ▸ hbefore) (hother m)
        · exact h.readyOnce m m' key hbefore hbefore'
    · intro key m hout hpending
      obtain ⟨hkey, hunanswered⟩ := h.pending key m hout hpending
      exact ⟨Finset.mem_insert_of_mem hkey, hunanswered⟩
    · intro key hkey hout
      rcases Finset.mem_insert.mp hkey with rfl | hkey
      · left
        have hlt : n < s.builds.length := getElem?_lt hb
        exact ⟨n, { b with phase := .built text }, getElem?_set_self hlt, ⟨text, rfl⟩, rfl⟩
      · rcases h.explained key hkey hout with ⟨m, hready⟩ | hpending
        · left
          refine ⟨m, hready.setBuild ?_ _⟩
          rintro rfl
          obtain ⟨b', hb', ⟨_, htext⟩, _⟩ := hready
          obtain rfl := mem_unique hb hb'
          rw [hreading] at htext
          cases htext
        · exact .inr hpending

theorem Kept.takeBuild (h : Kept none s) (hb : s.builds[n]? = some b) (hbuilt : b.phase = .built text) :
    Kept (some b.info.key) (s.setBuild n { b with phase := .gone }) ∧
      InHand (s.setBuild n { b with phase := .gone }) b.info.key := by
  have hthis : s.ready n b.info.key := ⟨b, hb, ⟨text, hbuilt⟩, rfl⟩
  have hold : ∀ m key, (s.setBuild n { b with phase := .gone }).ready m key → m ≠ n ∧ s.ready m key := by
    intro m key hready
    by_cases hm : m = n
    · subst hm
      obtain ⟨⟨text, htext⟩, _⟩ := ready_setBuild_self hready
      cases htext
    · exact ⟨hm, ready_setBuild hready hm⟩
  constructor
  · refine { h with ready := ?_, readyOnce := ?_, pending := ?_, explained := ?_ }
    · exact fun m key hready => h.ready m key (hold m key hready).2
    · exact fun m m' key hready hready' => h.readyOnce m m' key (hold m key hready).2 (hold m' key hready').2
    · exact fun key m _ hpending => h.pending key m (some_ne_none key) hpending
    · intro key hkey hout
      rcases h.explained key hkey (some_ne_none key) with ⟨m, hready⟩ | hpending
      · left
        refine ⟨m, hready.setBuild ?_ _⟩
        rintro rfl
        obtain ⟨b', hb', _, hkey'⟩ := hready
        obtain rfl := mem_unique hb hb'
        exact hout (congrArg some hkey'.symm)
      · exact .inr hpending
  · constructor
    · exact (h.ready n _ hthis).1
    · intro m hlive
      have hsome := h.live m _ hlive
      rw [(h.ready n _ hthis).2] at hsome
      cases hsome
    · intro m hready
      obtain ⟨hm, hready⟩ := hold m _ hready
      exact hm (h.readyOnce m n _ hready hthis)

theorem live_append {s : NotificationService}
    (h : ∃ r', (s.requests ++ [r])[n]? = some r' ∧ r'.state = .pending ∧ r'.info.key = key) :
    s.live n key ∨ n = s.requests.length ∧ r.state = .pending ∧ r.info.key = key := by
  obtain ⟨r', hr', hpending, hkey⟩ := h
  rw [getElem?_append] at hr'
  split_ifs at hr' with hn
  · exact .inl ⟨r', hr', hpending, hkey⟩
  · have hlt := getElem?_lt hr'
    have hmem := mem_singleton.mp (mem_of_getElem? hr')
    rw [hmem] at hpending hkey
    rw [length_singleton] at hlt
    exact .inr ⟨by omega, hpending, hkey⟩

/-- A notification in hand becomes a request, which the loop has taken or refused. -/
theorem Kept.enqueue (h : Kept (some r.info.key) s) (hhand : InHand s r.info.key)
    (hstate : r.state = .pending ∨ r.state = .aborted) {dropped : Finset NotificationKey}
    (hdropped : ∀ key ∈ s.dropped, key ≠ r.info.key → key ∈ dropped)
    (haborted : r.state = .aborted → r.info.key ∈ dropped) :
    Kept none { s with
      requests := s.requests ++ [r]
      pendingNotificationRequests := s.pendingNotificationRequests.set r.info.key s.requests.length
      dropped := dropped } := by
  have hself : (s.requests ++ [r])[s.requests.length]? = some r := getElem?_concat_length
  refine { h with live := ?_, ready := ?_, pending := ?_, explained := ?_ }
  · intro n key hlive
    rcases live_append hlive with hlive | ⟨rfl, _, rfl⟩
    · have hne : key ≠ r.info.key := by
        rintro rfl
        exact hhand.notLive n hlive
      rw [JsMap.get_set_of_ne _ _ hne]
      exact h.live n key hlive
    · exact JsMap.get_set_self _ _ _
  · intro n key hready
    have hne : key ≠ r.info.key := by
      rintro rfl
      exact hhand.notReady n hready
    obtain ⟨hscheduled, hnone⟩ := h.ready n key hready
    exact ⟨hscheduled, (JsMap.get_set_of_ne _ _ hne).trans hnone⟩
  · intro key n _ hpending
    by_cases hkey : key = r.info.key
    · subst hkey
      rw [JsMap.get_set_self] at hpending
      cases hpending
      refine ⟨hhand.scheduled, r, hself, rfl, ?_, haborted⟩
      intro hmaterialized
      rcases hstate with hstate | hstate <;> rw [hmaterialized] at hstate <;> cases hstate
    · rw [JsMap.get_set_of_ne _ _ hkey] at hpending
      have hother : some key ≠ some r.info.key := fun hsame => hkey (some.inj hsame)
      obtain ⟨hscheduled, r', hr', hkey', hstate', habort'⟩ := h.pending key n hother hpending
      have hlt := getElem?_lt hr'
      refine ⟨hscheduled, r', (getElem?_append_left hlt).trans hr', hkey', hstate', ?_⟩
      exact fun haborted => hdropped key (habort' haborted) hkey
  · intro key hscheduled _
    by_cases hkey : key = r.info.key
    · subst hkey
      exact .inr ⟨s.requests.length, JsMap.get_set_self _ _ _⟩
    · have hother : some key ≠ some r.info.key := fun hsame => hkey (some.inj hsame)
      rcases h.explained key hscheduled hother with hready | ⟨n, hpending⟩
      · exact .inl hready
      · exact .inr ⟨n, (JsMap.get_set_of_ne _ _ hkey).trans hpending⟩

theorem live_setRequest {s : NotificationService} (h : (s.setRequest n r).live m key)
    (hr : r.state ≠ .pending) : m ≠ n ∧ s.live m key := by
  obtain ⟨r', hr', hpending, hkey⟩ := h
  change (s.requests.set n r)[m]? = some r' at hr'
  by_cases hm : n = m
  · rw [getElem?_set] at hr'
    split_ifs at hr'
    cases hr'
    exact absurd hpending hr
  · rw [getElem?_set_ne hm] at hr'
    exact ⟨Ne.symm hm, r', hr', hpending, hkey⟩

theorem Unanswered.setRequest {s : NotificationService} (h : s.Unanswered key m) (hne : m ≠ n)
    (r : TaskNotificationStepRequest) : (s.setRequest n r).Unanswered key m := by
  obtain ⟨r', hr', hrest⟩ := h
  exact ⟨r', (getElem?_set_ne (Ne.symm hne)).trans hr', hrest⟩

theorem Kept.takeRequest (h : Kept none s) (hr : s.requests[n]? = some r) (hpending : r.state = .pending) :
    Kept (some r.info.key) (s.setRequest n { r with state := .materialized }) ∧
      InHand (s.setRequest n { r with state := .materialized }) r.info.key := by
  have hlive : s.live n r.info.key := ⟨r, hr, hpending, rfl⟩
  have hthis := h.live n _ hlive
  have hmaterialized : ({ r with state := .materialized } : TaskNotificationStepRequest).state ≠ .pending :=
    fun hstate => by cases hstate
  constructor
  · refine { h with live := ?_, pending := ?_, explained := ?_ }
    · exact fun m key hlive => h.live m key (live_setRequest hlive hmaterialized).2
    · intro key m hout hget
      obtain ⟨hscheduled, hunanswered⟩ := h.pending key m (some_ne_none key) hget
      refine ⟨hscheduled, hunanswered.setRequest ?_ _⟩
      rintro rfl
      obtain ⟨r', hr', hkey', _⟩ := hunanswered
      obtain rfl := mem_unique hr hr'
      exact hout (congrArg some hkey'.symm)
    · exact fun key hkey _ => h.explained key hkey (some_ne_none key)
  · constructor
    · exact (h.pending _ n (some_ne_none _) hthis).1
    · intro m hlive
      obtain ⟨hm, hlive⟩ := live_setRequest hlive hmaterialized
      exact hm (mem_unique (h.live m _ hlive) hthis)
    · intro m hready
      have hnone := (h.ready m _ hready).2
      rw [hthis] at hnone
      cases hnone

theorem Kept.abort (h : Kept none s) (hr : s.requests[n]? = some r) :
    Kept none { s.setRequest n { r with state := .aborted } with dropped := insert r.info.key s.dropped } := by
  have haborted : ({ r with state := .aborted } : TaskNotificationStepRequest).state ≠ .pending :=
    fun hstate => by cases hstate
  refine { h with live := ?_, pending := ?_ }
  · exact fun m key hlive => h.live m key (live_setRequest hlive haborted).2
  · intro key m hout hget
    obtain ⟨hscheduled, r', hr', hkey', hstate', habort'⟩ := h.pending key m hout hget
    refine ⟨hscheduled, ?_⟩
    by_cases hm : m = n
    · subst hm
      obtain rfl := mem_unique hr hr'
      have hlt := getElem?_lt hr
      have hstate : StepRequestState.aborted ≠ .materialized := by decide
      refine ⟨{ r with state := .aborted }, getElem?_set_self hlt, hkey', hstate, ?_⟩
      exact fun _ => hkey' ▸ Finset.mem_insert_self _ _
    · refine ⟨r', (getElem?_set_ne (Ne.symm hm)).trans hr', hkey', hstate', ?_⟩
      exact fun hab => Finset.mem_insert_of_mem (habort' hab)

theorem clearPendingNotification_other {s : NotificationService}
    (h : s.pendingNotificationRequests.get key ≠ some n) : s.clearPendingNotification key n = s := if_pos h

theorem Kept.clearPendingNotification_eq (h : Kept none s) (hget : s.pendingNotificationRequests.get key = some n) :
    s.clearPendingNotification key n =
      { s with
        pendingNotificationRequests := s.pendingNotificationRequests.delete key
        scheduledNotificationKeys := s.scheduledNotificationKeys.erase key } := by
  obtain ⟨hscheduled, _⟩ := h.pending key n (some_ne_none key) hget
  obtain ⟨hdelivered, hrecorded⟩ := h.fresh key hscheduled
  rw [clearPendingNotification, if_neg (not_not_intro hget), if_pos ⟨hdelivered, not_hasDelivered hrecorded⟩]

theorem Kept.clearPending (h : Kept none s) (hr : s.requests[n]? = some r) (hstate : r.state ≠ .pending) :
    Kept none (s.clearPendingNotification key n) := by
  by_cases hthis : s.pendingNotificationRequests.get key = some n
  swap
  · rw [clearPendingNotification_other hthis]
    exact h
  · rw [h.clearPendingNotification_eq hthis]
    have hneLive : ∀ m key', s.live m key' → key' ≠ key := by
      rintro m key' hlive rfl
      obtain rfl := mem_unique (h.live m _ hlive) hthis
      obtain ⟨r', hr', hpending, _⟩ := hlive
      obtain rfl := mem_unique hr hr'
      exact hstate hpending
    have hneReady : ∀ m key', s.ready m key' → key' ≠ key := by
      rintro m key' hready rfl
      have hnone := (h.ready m _ hready).2
      rw [hthis] at hnone
      cases hnone
    refine { h with fresh := ?_, live := ?_, ready := ?_, pending := ?_, explained := ?_ }
    · exact fun key' hkey' => h.fresh key' (Finset.mem_of_mem_erase hkey')
    · intro m key' hlive
      exact (JsMap.get_delete_of_ne _ (hneLive m key' hlive)).trans (h.live m key' hlive)
    · intro m key' hready
      obtain ⟨hkey', hnone⟩ := h.ready m key' hready
      have hne := hneReady m key' hready
      exact ⟨Finset.mem_erase.mpr ⟨hne, hkey'⟩, (JsMap.get_delete_of_ne _ hne).trans hnone⟩
    · intro key' m hout hget
      have hne : key' ≠ key := by
        rintro rfl
        rw [JsMap.get_delete_self] at hget
        cases hget
      rw [JsMap.get_delete_of_ne _ hne] at hget
      obtain ⟨hkey', hunanswered⟩ := h.pending key' m hout hget
      exact ⟨Finset.mem_erase.mpr ⟨hne, hkey'⟩, hunanswered⟩
    · intro key' hkey' hout
      obtain ⟨hne, hkey'⟩ := Finset.mem_erase.mp hkey'
      rcases h.explained key' hkey' hout with hready | ⟨m, hpending⟩
      · exact .inl hready
      · exact .inr ⟨m, (JsMap.get_delete_of_ne _ hne).trans hpending⟩

theorem Kept.clearAborted (h : Kept none s) : Kept none s.clearAborted := by
  have hstep : ∀ (s' : NotificationService) (e : NotificationKey × Nat), Kept none s' →
      Kept none (if (s'.requests[e.2]?.any fun r => r.state = .aborted) then
        s'.clearPendingNotification e.1 e.2 else s') := by
    intro s' e h'
    split_ifs with haborted
    · obtain ⟨r, hr, hstate⟩ := any_eq_true _ _ |>.mp haborted
      have hnotPending : r.state ≠ .pending := by
        rw [of_decide_eq_true hstate]
        exact fun hsame => by cases hsame
      exact h'.clearPending hr hnotPending
    · exact h'
  exact fold_invariant hstep h _

def appended (s : NotificationService) (m : ContextMessage) : NotificationService :=
  { s with
    conversation :=
      { context := foldAppendMessage s.conversation.context m
        model := s.conversation.model.reduce (some onAppendMessage) (.appendMessage m) } }

theorem append_other (h : taskKey m = none) (s : NotificationService) : s.append m = s.appended m := by
  unfold append
  rw [h]
  rfl

theorem append_notification (h : taskKey m = some key) (s : NotificationService) :
    s.append m = (s.appended m).markDeliveredNotification key := by
  unfold append
  rw [h]
  rfl

theorem recordedKeys_appended {s : NotificationService} (hs : InStep s.conversation) (m : ContextMessage) :
    (s.appended m).recordedKeys = s.recordedKeys ++ (taskKey m).toList := by
  change taskKeys (foldAppendMessage s.conversation.context m).recorded = _
  rw [recorded_append hs.behind, taskKeys, filterMap_append]
  rfl

theorem deferred_appended (s : NotificationService) (m : ContextMessage) :
    ∀ x ∈ (s.appended m).deferred, x ∈ s.deferred ∨ x = m := by
  intro x hx
  change x ∈ (foldAppendMessage s.conversation.context m).ctx.deferred at hx
  unfold foldAppendMessage at hx
  split_ifs at hx
  · rcases mem_snoc.mp hx with hx | hx
    · exact .inl hx
    · exact .inr hx
  · exact .inl hx

theorem Kept.append_other (h : Kept out s) (hs : InStep s.conversation)
    (hkey : taskKey m = none) : Kept out (s.append m) := by
  rw [NotificationService.append_other hkey]
  have hrecorded : (s.appended m).recordedKeys = s.recordedKeys := by
    rw [recordedKeys_appended hs, hkey]
    exact append_nil _
  refine { h with distinct := ?_, deferred := ?_, recorded := ?_, fresh := ?_ }
  · rw [hrecorded]
    exact h.distinct
  · intro x hx key hxkey
    rcases deferred_appended s m x hx with hx | rfl
    · exact h.deferred x hx key hxkey
    · rw [hkey] at hxkey
      cases hxkey
  · rw [hrecorded]
    exact h.recorded
  · rw [hrecorded]
    exact h.fresh

theorem Kept.append_notification (h : Kept (some key) s) (hs : InStep s.conversation) (hhand : InHand s key)
    (hkey : taskKey m = some key) : Kept none (s.append m) := by
  rw [NotificationService.append_notification hkey]
  have hrecorded : (s.appended m).recordedKeys = s.recordedKeys ++ [key] := by
    rw [recordedKeys_appended hs, hkey]
    rfl
  have hnew := (h.fresh key hhand.scheduled).2
  have hneLive : ∀ n key', s.live n key' → key' ≠ key := by
    rintro n key' hlive rfl
    exact hhand.notLive n hlive
  have hneReady : ∀ n key', s.ready n key' → key' ≠ key := by
    rintro n key' hready rfl
    exact hhand.notReady n hready
  constructor
  · change (s.appended m).recordedKeys.Nodup
    rw [hrecorded, ← concat_eq_append]
    exact h.distinct.concat hnew
  · intro x hx key' hxkey
    rcases deferred_appended s m x hx with hx | rfl
    · exact Finset.mem_insert_of_mem (h.deferred x hx key' hxkey)
    · obtain rfl := mem_unique hkey hxkey
      exact Finset.mem_insert_self _ _
  · intro hundoing key' hdelivered
    change key' ∈ (s.appended m).recordedKeys
    rw [hrecorded]
    rcases Finset.mem_insert.mp hdelivered with rfl | hdelivered
    · exact mem_concat_self
    · exact mem_append_left _ (h.recorded hundoing key' hdelivered)
  · intro key' hscheduled
    obtain ⟨hne, hscheduled⟩ := Finset.mem_erase.mp hscheduled
    obtain ⟨hdelivered, hold⟩ := h.fresh key' hscheduled
    constructor
    · intro hin
      rcases Finset.mem_insert.mp hin with hin | hin
      · exact hne hin
      · exact hdelivered hin
    · change key' ∉ (s.appended m).recordedKeys
      rw [hrecorded]
      intro hin
      rcases mem_snoc.mp hin with hin | hin
      · exact hold hin
      · exact hne hin
  · intro n key' hlive
    exact (JsMap.get_delete_of_ne _ (hneLive n key' hlive)).trans (h.live n key' hlive)
  · intro n key' hready
    obtain ⟨hscheduled, hnone⟩ := h.ready n key' hready
    have hne := hneReady n key' hready
    exact ⟨Finset.mem_erase.mpr ⟨hne, hscheduled⟩, (JsMap.get_delete_of_ne _ hne).trans hnone⟩
  · exact h.readyOnce
  · intro key' n _ hget
    change (s.pendingNotificationRequests.delete key).get key' = some n at hget
    have hne : key' ≠ key := by
      rintro rfl
      rw [JsMap.get_delete_self] at hget
      cases hget
    rw [JsMap.get_delete_of_ne _ hne] at hget
    have hother : some key' ≠ some key := fun hsame => hne (some.inj hsame)
    obtain ⟨hscheduled, hunanswered⟩ := h.pending key' n hother hget
    exact ⟨Finset.mem_erase.mpr ⟨hne, hscheduled⟩, hunanswered⟩
  · intro key' hscheduled _
    obtain ⟨hne, hscheduled⟩ := Finset.mem_erase.mp hscheduled
    have hother : some key' ≠ some key := fun hsame => hne (some.inj hsame)
    rcases h.explained key' hscheduled hother with hready | ⟨n, hpending⟩
    · exact .inl hready
    · exact .inr ⟨n, (JsMap.get_delete_of_ne _ hne).trans hpending⟩

theorem Kept.converse (h : Kept out s) {undoing : Option UndoPhase}
    (hkeys : (taskKeys c.context.recorded).Sublist s.recordedKeys)
    (hdeferred : ∀ m ∈ c.context.ctx.deferred, m ∈ s.deferred)
    (hrecorded : undoing ≠ some .cut → ∀ key ∈ s.deliveredNotificationKeys, key ∈ taskKeys c.context.recorded) :
    Kept out { s with conversation := c, undoing := undoing } := by
  refine { h with distinct := ?_, deferred := ?_, recorded := hrecorded, fresh := ?_ }
  · exact h.distinct.sublist hkeys
  · exact fun m hm key hkey => h.deferred m (hdeferred m hm) key hkey
  · intro key hscheduled
    obtain ⟨hdelivered, hold⟩ := h.fresh key hscheduled
    exact ⟨hdelivered, fun hin => hold (hkeys.subset hin)⟩

/-- What clearing does not touch. -/
structure SameRecord (s s' : NotificationService) : Prop where
  conversation : s'.conversation = s.conversation
  tasks : s'.tasks = s.tasks
  builds : s'.builds = s.builds
  requests : s'.requests = s.requests
  deliveredNotificationKeys : s'.deliveredNotificationKeys = s.deliveredNotificationKeys
  notificationRestoreQueue : s'.notificationRestoreQueue = s.notificationRestoreQueue
  undoing : s'.undoing = s.undoing
  dropped : s'.dropped = s.dropped

theorem SameRecord.refl (s : NotificationService) : SameRecord s s := ⟨rfl, rfl, rfl, rfl, rfl, rfl, rfl, rfl⟩

theorem SameRecord.trans (h : SameRecord s₁ s₂) (h' : SameRecord s₂ s₃) : SameRecord s₁ s₃ :=
  ⟨h'.conversation.trans h.conversation, h'.tasks.trans h.tasks, h'.builds.trans h.builds,
    h'.requests.trans h.requests, h'.deliveredNotificationKeys.trans h.deliveredNotificationKeys,
    h'.notificationRestoreQueue.trans h.notificationRestoreQueue, h'.undoing.trans h.undoing,
    h'.dropped.trans h.dropped⟩

theorem sameRecord_clearPending (s : NotificationService) (key : NotificationKey) (n : Nat) :
    SameRecord s (s.clearPendingNotification key n) := by
  unfold clearPendingNotification
  split_ifs
  · exact .refl s
  · exact ⟨rfl, rfl, rfl, rfl, rfl, rfl, rfl, rfl⟩
  · exact ⟨rfl, rfl, rfl, rfl, rfl, rfl, rfl, rfl⟩

theorem sameRecord_clearAborted (s : NotificationService) : SameRecord s s.clearAborted := by
  have hstep : ∀ (s' : NotificationService) (e : NotificationKey × Nat), SameRecord s s' →
      SameRecord s (if (s'.requests[e.2]?.any fun r => r.state = .aborted) then
        s'.clearPendingNotification e.1 e.2 else s') := by
    intro s' e h'
    split_ifs
    · exact h'.trans (sameRecord_clearPending s' _ _)
    · exact h'
  exact fold_invariant hstep (.refl s) _

theorem Kept.reconcile (h : Kept none s) (hs : InStep s.conversation) (hready : ∀ n key, ¬s.ready n key) :
    Kept none { s.reconcile with undoing := some .restoring } := by
  have hcleared := h.clearAborted
  have hsame := sameRecord_clearAborted s
  have hkeys : ∀ key, key ∈ s.conversation.model.current ↔ key ∈ s.recordedKeys := by
    intro key
    rw [hs.follows]
    exact mem_replayed _ _
  have hrecorded : ({ s.reconcile with undoing := some .restoring } : NotificationService).recordedKeys =
      s.recordedKeys := by
    change taskKeys s.clearAborted.conversation.context.recorded = _
    rw [hsame.conversation]
    rfl
  have hnotReady : ∀ n key, ¬({ s.reconcile with undoing := some .restoring } : NotificationService).ready n key := by
    rintro n key ⟨b, hb, hbuilt⟩
    change s.clearAborted.builds[n]? = some b at hb
    rw [hsame.builds] at hb
    exact hready n key ⟨b, hb, hbuilt⟩
  have hpendingKeys : ∀ key n, s.clearAborted.pendingNotificationRequests.get key = some n →
      key ∈ s.reconcile.scheduledNotificationKeys := by
    intro key n hget
    obtain ⟨hscheduled, _⟩ := hcleared.pending key n (some_ne_none key) hget
    apply Finset.mem_filter.mpr
    refine ⟨hscheduled, ?_⟩
    rintro (hin | hhas)
    · have hold := (hcleared.fresh key hscheduled).2
      apply hold
      change key ∈ taskKeys s.clearAborted.conversation.context.recorded
      rw [hsame.conversation]
      exact (hkeys key).mp hin
    · have hmem := (JsMap.mem_keys_iff _ _).mpr ⟨n, hget⟩
      rw [(JsMap.has_iff _ _).mpr hmem] at hhas
      cases hhas
  constructor
  · rw [hrecorded]
    exact h.distinct
  · intro m hm key hkey
    change m ∈ s.clearAborted.conversation.context.ctx.deferred at hm
    rw [hsame.conversation] at hm
    apply List.mem_toFinset.mpr
    apply (hkeys key).mpr
    exact mem_filterMap.mpr ⟨m, mem_append_right _ hm, hkey⟩
  · intro _ key hkey
    rw [hrecorded]
    exact (hkeys key).mp (List.mem_toFinset.mp hkey)
  · intro key hscheduled
    obtain ⟨_, hnot⟩ := Finset.mem_filter.mp hscheduled
    obtain ⟨hin, _⟩ := not_or.mp hnot
    rw [hrecorded]
    exact ⟨fun hdelivered => hin (List.mem_toFinset.mp hdelivered), fun hold => hin ((hkeys key).mpr hold)⟩
  · exact hcleared.live
  · exact fun n key hbuilt => absurd hbuilt (hnotReady n key)
  · exact fun n _ key hbuilt => absurd hbuilt (hnotReady n key)
  · intro key n hout hget
    exact ⟨hpendingKeys key n hget, (hcleared.pending key n hout hget).2⟩
  · intro key hscheduled _
    obtain ⟨_, hnot⟩ := Finset.mem_filter.mp hscheduled
    obtain ⟨_, hhas⟩ := not_or.mp hnot
    have hmem := (JsMap.has_iff _ _).mp (Bool.eq_true_of_not_eq_false hhas)
    exact .inr ((JsMap.mem_keys_iff _ _).mp hmem)

end NotificationService

end Echadron.Task
