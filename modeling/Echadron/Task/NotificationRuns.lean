import Echadron.Task.NotificationBooks

namespace Echadron.Task
open Lib Agent List Option

/-! Every finished task is accounted for. -/

def Build.isBuilt (b : Build) : Bool :=
  match b.phase with
  | .built _ => true
  | _ => false

def TaskEntry.due (t : TaskEntry) : Bool :=
  t.fired && isAgentTaskTerminal t.info.status && t.info.detached && !t.info.terminalNotificationSuppressed

theorem TaskEntry.due_iff (t : TaskEntry) :
    t.due = true ↔ t.fired = true ∧ isAgentTaskTerminal t.info.status = true ∧ t.info.detached = true ∧
      t.info.terminalNotificationSuppressed = false := by
  unfold TaskEntry.due
  rw [Bool.and_eq_true, Bool.and_eq_true, Bool.and_eq_true, Bool.not_eq_true', and_assoc, and_assoc]

def RestorePass.awaits (info : NotifiableTask) : RestorePass → Prop
  | .waiting => True
  | .running remaining => info ∈ remaining

namespace NotificationService

/-- What can have become of a notification. -/
inductive Accounted (s : NotificationService) (key : NotificationKey) : Prop where
  | recorded (h : key ∈ s.recordedKeys)
  | live (n : Nat) (h : s.live n key)
  | building (b : Build) (h : b ∈ s.builds) (hphase : b.phase ≠ .gone) (hkey : b.info.key = key)
  | undone (h : s.undoing = some .cut)
  | dropped (h : key ∈ s.dropped)

def Awaited (s : NotificationService) (info : NotifiableTask) : Prop :=
  ∃ pass ∈ s.notificationRestoreQueue, pass.awaits info

/-- The steps that the bookkeeping is made for: no build has ended just before a reconciliation, no prompt
waits behind the exchange that is undone, and the undo is carried through. -/
def orderly (s : NotificationService) : Event → Bool
  | .reconciled => s.builds.all fun b => !b.isBuilt
  | .undo _ => s.deferred.all fun m => !isUndoAnchor m
  | .flushFailed => false
  | _ => true

structure Sound (s : NotificationService) : Prop where
  inStep : InStep s.conversation
  kept : Kept none s
  ids : (s.tasks.map fun t => t.info.taskId).Nodup
  terminal : ∀ t ∈ s.tasks, t.fired = true → isAgentTaskTerminal t.info.status = true
  covered : ∀ t ∈ s.tasks, t.due = true → s.Accounted t.info.key ∨ s.Awaited t.info

theorem Accounted.keep (h : Accounted s key) (hrecorded : key ∈ s.recordedKeys → key ∈ s'.recordedKeys)
    (hlive : ∀ n, s.live n key → Accounted s' key)
    (hbuilding : ∀ b ∈ s.builds, b.phase ≠ .gone → b.info.key = key → Accounted s' key)
    (hundone : s.undoing = some .cut → s'.undoing = some .cut)
    (hdropped : key ∈ s.dropped → Accounted s' key) : Accounted s' key := by
  cases h with
  | recorded h => exact .recorded (hrecorded h)
  | live n h => exact hlive n h
  | building b h hphase hkey => exact hbuilding b h hphase hkey
  | undone h => exact .undone (hundone h)
  | dropped h => exact hdropped h

/-- The messages are kept, and nothing else that an account looks at changes. -/
theorem Accounted.same (h : Accounted s key) (hrecorded : key ∈ s.recordedKeys → key ∈ s'.recordedKeys)
    (hrequests : s'.requests = s.requests) (hbuilds : s'.builds = s.builds) (hundoing : s'.undoing = s.undoing)
    (hdropped : s'.dropped = s.dropped) : Accounted s' key := by
  apply h.keep
  · exact hrecorded
  · intro n hlive
    apply Accounted.live n
    unfold NotificationService.live
    rw [hrequests]
    exact hlive
  · intro b hb hphase hkey
    exact .building b (hbuilds ▸ hb) hphase hkey
  · exact hundoing.trans
  · exact fun hin => .dropped (hdropped ▸ hin)

theorem Accounted.startBuild (h : Accounted s key) (info : NotifiableTask) (kind : BuildKind) :
    Accounted (s.startBuild info kind) key := by
  unfold NotificationService.startBuild
  split_ifs
  · exact h
  · apply h.keep
    · exact id
    · exact fun n hlive => .live n hlive
    · exact fun b hb hphase hkey => .building b (mem_append_left _ hb) hphase hkey
    · exact id
    · exact fun hin => .dropped hin

theorem Kept.accounted (h : Kept none s)
    (hkey : key ∈ s.scheduledNotificationKeys ∨ key ∈ s.deliveredNotificationKeys ∨
      s.hasDeliveredNotification key = true) : Accounted s key := by
  rcases hkey with hscheduled | hdelivered | hhas
  · rcases h.explained key hscheduled (some_ne_none key) with ⟨n, b, hb, ⟨text, hbuilt⟩, hkey⟩ | ⟨n, hget⟩
    · refine .building b (mem_of_getElem? hb) ?_ hkey
      rw [hbuilt]
      exact fun hgone => by cases hgone
    · obtain ⟨_, r, hr, hkey, hstate, haborted⟩ := h.pending key n (some_ne_none key) hget
      cases hr' : r.state with
      | pending => exact .live n ⟨r, hr, hr', hkey⟩
      | materialized => exact absurd hr' hstate
      | aborted => exact .dropped (haborted hr')
  · by_cases hundoing : s.undoing = some .cut
    · exact .undone hundoing
    · exact .recorded (h.recorded hundoing key hdelivered)
  · obtain ⟨m, hm, hkey⟩ := any_eq_true.mp hhas
    exact .recorded (mem_filterMap.mpr ⟨m, mem_append_left _ hm, of_decide_eq_true hkey⟩)

theorem Kept.accounted_startBuild (h : Kept none s) (hdetached : info.detached = true)
    (hsuppressed : info.terminalNotificationSuppressed = false) (kind : BuildKind) :
    Accounted (s.startBuild info kind) info.key := by
  unfold NotificationService.startBuild
  split_ifs with hskip
  · rcases hskip with hskip | hskip | hbuilding | hskip
    · rw [hdetached] at hskip
      cases hskip
    · rw [hsuppressed] at hskip
      cases hskip
    · obtain ⟨b, hb, hkey⟩ := mem_map.mp hbuilding
      obtain ⟨hb, hreading⟩ := mem_filter.mp hb
      refine .building b hb ?_ hkey
      rw [of_decide_eq_true hreading]
      exact fun hgone => by cases hgone
    · exact h.accounted hskip
  · exact .building _ mem_concat_self (fun hgone => by cases hgone) rfl

theorem mem_builds_setBuild {s : NotificationService} (hb : s.builds[n]? = some b) (hb' : b' ∈ s.builds)
    (hne : b'.info.key ≠ b.info.key) (new : Build) : b' ∈ (s.setBuild n new).builds := by
  obtain ⟨m, hm⟩ := mem_iff_getElem?.mp hb'
  have hmn : m ≠ n := by
    rintro rfl
    exact hne (congrArg (fun b : Build => b.info.key) (mem_unique hm hb))
  exact mem_of_getElem? ((getElem?_set_ne (Ne.symm hmn)).trans hm)

theorem Accounted.setBuild (h : Accounted s key) (hb : s.builds[n]? = some b) (hne : key ≠ b.info.key)
    (new : Build) : Accounted (s.setBuild n new) key := by
  apply h.keep
  · exact id
  · exact fun m hlive => .live m hlive
  · intro b' hb' hphase hkey
    refine .building b' (mem_builds_setBuild hb hb' ?_ new) hphase hkey
    rw [hkey]
    exact hne
  · exact id
  · exact fun hin => .dropped hin

theorem Accounted.finishBuild (h : Accounted s key) (hs : Kept none s) (hb : s.builds[n]? = some b)
    (hreading : b.phase = .reading) (text : String)
    (hsuppressed : key = b.info.key → s.isTerminalNotificationSuppressed b.info.taskId = false) :
    Accounted (s.finishBuild n b text) key := by
  have hlt : n < s.builds.length := getElem?_lt hb
  unfold NotificationService.finishBuild
  by_cases hkey : key = b.info.key
  · subst hkey
    split_ifs with hskip
    · rcases hskip with hskip | hskip
      · rw [hsuppressed rfl] at hskip
        cases hskip
      · cases (hs.spoil hb hreading).accounted hskip with
        | recorded h => exact .recorded h
        | live m h => exact .live m h
        | building b' h hphase hkey => exact .building b' h hphase hkey
        | undone h => exact .undone h
        | dropped h => exact .dropped h
    · have hmem : ({ b with phase := .built text } : Build) ∈ (s.setBuild n { b with phase := .built text }).builds :=
        mem_of_getElem? (getElem?_set_self hlt)
      exact .building _ hmem (fun hgone => by cases hgone) rfl
  · split_ifs
    · exact h.setBuild hb hkey _
    · exact (h.setBuild hb hkey { b with phase := .built text }).same id rfl rfl rfl rfl

theorem live_enqueue {s : NotificationService} (h : s.live n key) (r : TaskNotificationStepRequest) :
    ∃ r', (s.requests ++ [r])[n]? = some r' ∧ r'.state = .pending ∧ r'.info.key = key := by
  obtain ⟨r', hr', hrest⟩ := h
  have hlt := getElem?_lt hr'
  exact ⟨r', (getElem?_append_left hlt).trans hr', hrest⟩

theorem Accounted.deliver (h : Accounted s key) (hs : InStep s.conversation) (hb : s.builds[n]? = some b)
    (text : String) : Accounted (s.deliver n b text) key := by
  have hrecorded : ((s.setBuild n { b with phase := .gone }).appended
      (notificationMessage b.info text)).recordedKeys = s.recordedKeys ++ [b.info.key] :=
    recordedKeys_appended hs _
  unfold NotificationService.deliver
  by_cases hkey : key = b.info.key
  · subst hkey
    split
    · exact .live s.requests.length ⟨_, getElem?_concat_length, rfl, rfl⟩
    · apply Accounted.recorded
      change b.info.key ∈ ((s.setBuild n { b with phase := .gone }).appended _).recordedKeys
      rw [hrecorded]
      exact mem_concat_self
  · have hrest := h.setBuild hb hkey { b with phase := .gone }
    have hdropped : key ∈ s.dropped → key ∈ s.dropped.erase b.info.key :=
      fun hin => Finset.mem_erase.mpr ⟨hkey, hin⟩
    split
    · apply hrest.keep
      · exact id
      · exact fun m hlive => .live m (live_enqueue hlive _)
      · exact fun b' hb' hphase hkey' => .building b' hb' hphase hkey'
      · exact id
      · exact fun hin => .dropped (hdropped hin)
    · apply hrest.keep
      · intro hin
        change key ∈ ((s.setBuild n { b with phase := .gone }).appended _).recordedKeys
        rw [hrecorded]
        exact mem_append_left _ hin
      · exact fun m hlive => .live m hlive
      · exact fun b' hb' hphase hkey' => .building b' hb' hphase hkey'
      · exact id
      · exact fun hin => .dropped (hdropped hin)

theorem SameRecord.accounted (h : SameRecord s s') (ha : Accounted s key) : Accounted s' key := by
  apply ha.same _ h.requests h.builds h.undoing h.dropped
  intro hin
  unfold recordedKeys recorded
  rw [h.conversation]
  exact hin

theorem Accounted.refuse (h : Accounted s key) (hb : s.builds[n]? = some b) (text : String) :
    Accounted (s.refuse n b text) key := by
  apply (sameRecord_clearPending _ _ _).accounted
  by_cases hkey : key = b.info.key
  · subst hkey
    exact .dropped (Finset.mem_insert_self _ _)
  · apply (h.setBuild hb hkey { b with phase := .gone }).keep
    · exact id
    · exact fun m hlive => .live m (live_enqueue hlive _)
    · exact fun b' hb' hphase hkey' => .building b' hb' hphase hkey'
    · exact id
    · exact fun hin => .dropped (Finset.mem_insert_of_mem hin)

theorem live_setRequest_of_ne {s : NotificationService} (h : s.live m key) (hr : s.requests[n]? = some r)
    (hne : key ≠ r.info.key) (new : TaskNotificationStepRequest) : (s.setRequest n new).live m key := by
  obtain ⟨r', hr', hpending, hkey⟩ := h
  have hmn : n ≠ m := by
    rintro rfl
    obtain rfl := mem_unique hr hr'
    exact hne hkey.symm
  exact ⟨r', (getElem?_set_ne hmn).trans hr', hpending, hkey⟩

theorem Accounted.materialize (h : Accounted s key) (hs : InStep s.conversation) (hr : s.requests[n]? = some r) :
    Accounted ((s.setRequest n { r with state := .materialized }).append (notificationMessage r.info r.text))
      key := by
  have hrecorded : ((s.setRequest n { r with state := .materialized }).appended
      (notificationMessage r.info r.text)).recordedKeys = s.recordedKeys ++ [r.info.key] :=
    recordedKeys_appended hs _
  by_cases hkey : key = r.info.key
  · subst hkey
    apply Accounted.recorded
    change r.info.key ∈ ((s.setRequest n { r with state := .materialized }).appended _).recordedKeys
    rw [hrecorded]
    exact mem_concat_self
  · apply h.keep
    · intro hin
      change key ∈ ((s.setRequest n { r with state := .materialized }).appended _).recordedKeys
      rw [hrecorded]
      exact mem_append_left _ hin
    · exact fun m hlive => .live m (live_setRequest_of_ne hlive hr hkey _)
    · exact fun b hb hphase hkey => .building b hb hphase hkey
    · exact id
    · exact fun hin => .dropped hin

theorem Accounted.abort (h : Accounted s key) (hr : s.requests[n]? = some r) :
    Accounted { s.setRequest n { r with state := .aborted } with dropped := insert r.info.key s.dropped }
      key := by
  by_cases hkey : key = r.info.key
  · subst hkey
    exact .dropped (Finset.mem_insert_self _ _)
  · apply h.keep
    · exact id
    · exact fun m hlive => .live m (live_setRequest_of_ne hlive hr hkey _)
    · exact fun b hb hphase hkey => .building b hb hphase hkey
    · exact id
    · exact fun hin => .dropped (Finset.mem_insert_of_mem hin)

theorem Accounted.append_other (h : Accounted s key) (hs : InStep s.conversation)
    (hkey : taskKey m = none) : Accounted (s.append m) key := by
  rw [NotificationService.append_other hkey]
  apply h.same
  · intro hin
    rw [recordedKeys_appended hs]
    exact mem_append_left _ hin
  · rfl
  · rfl
  · rfl
  · rfl

theorem ids_updateTask (s : NotificationService) (taskId : String) (hf : ∀ t, (f t).info.taskId = t.info.taskId) :
    ((s.updateTask taskId f).tasks.map fun t => t.info.taskId) = s.tasks.map fun t => t.info.taskId := by
  unfold updateTask
  rw [List.map_map]
  apply map_congr_left
  intro t _
  dsimp only [Function.comp]
  split_ifs
  · exact hf t
  · rfl

theorem Sound.task_unique (h : Sound s) (ht : t ∈ s.tasks) (ht' : t' ∈ s.tasks)
    (hid : t.info.taskId = t'.info.taskId) : t = t' :=
  inj_on_of_nodup_map h.ids ht ht' hid

theorem Sound.withTasks (h : Sound s) (tasks : List TaskEntry) (hids : (tasks.map fun t => t.info.taskId).Nodup)
    (hterminal : ∀ t ∈ tasks, t.fired = true → isAgentTaskTerminal t.info.status = true)
    (hdue : ∀ t ∈ tasks, t.due = true → ∃ t₀ ∈ s.tasks, t₀.due = true ∧ t₀.info = t.info) :
    Sound { s with tasks := tasks } := by
  refine ⟨h.inStep, { h.kept with }, hids, hterminal, ?_⟩
  intro t ht hd
  obtain ⟨t₀, ht₀, hd₀, hinfo⟩ := hdue t ht hd
  rw [← hinfo]
  rcases h.covered t₀ ht₀ hd₀ with haccounted | hawaited
  · exact .inl (haccounted.same id rfl rfl rfl rfl)
  · exact .inr hawaited

theorem Sound.updateTask (h : Sound s) (taskId : String) (hid : ∀ t, (f t).info.taskId = t.info.taskId)
    (hterminal : ∀ t ∈ s.tasks, (f t).fired = true → isAgentTaskTerminal (f t).info.status = true)
    (hdue : ∀ t ∈ s.tasks, (f t).due = true → t.due = true ∧ t.info = (f t).info) :
    Sound (s.updateTask taskId f) := by
  apply h.withTasks
  · have hids := ids_updateTask s taskId hid
    unfold NotificationService.updateTask at hids
    rw [hids]
    exact h.ids
  · intro t ht hfired
    obtain ⟨t₀, ht₀, rfl⟩ := mem_map.mp ht
    split_ifs at hfired ⊢
    · exact hterminal t₀ ht₀ hfired
    · exact h.terminal t₀ ht₀ hfired
  · intro t ht hd
    obtain ⟨t₀, ht₀, rfl⟩ := mem_map.mp ht
    refine ⟨t₀, ht₀, ?_⟩
    split_ifs at hd ⊢
    · exact hdue t₀ ht₀ hd
    · exact ⟨hd, rfl⟩

theorem ordinary_notificationMessage (info : NotifiableTask) (text : String) :
    Ordinary (notificationMessage info text) := fun ho => by cases ho

theorem genuine_notificationMessage (info : NotifiableTask) (text : String) :
    ∀ key ∈ taskKey (notificationMessage info text), ∃ task : NotifiableTask, task.key = key :=
  fun _ hkey => ⟨info, some.inj hkey⟩

section

variable (s : NotificationService) (m : ContextMessage)

theorem append_conversation : (s.append m).conversation = (s.appended m).conversation := by
  unfold append
  split <;> rfl

theorem append_rest :
    (s.append m).tasks = s.tasks ∧ (s.append m).notificationRestoreQueue = s.notificationRestoreQueue := by
  unfold append
  split <;> exact ⟨rfl, rfl⟩

end

theorem Sound.advance (h : Sound s) (hinStep : InStep s'.conversation) (hkept : Kept none s')
    (htasks : s'.tasks = s.tasks) (hqueue : s'.notificationRestoreQueue = s.notificationRestoreQueue)
    (haccounts : ∀ t ∈ s.tasks, t.due = true → Accounted s t.info.key → Accounted s' t.info.key) : Sound s' := by
  refine ⟨hinStep, hkept, htasks ▸ h.ids, htasks ▸ h.terminal, ?_⟩
  intro t ht hd
  rw [htasks] at ht
  unfold Awaited
  rw [hqueue]
  rcases h.covered t ht hd with haccounted | hawaited
  · exact .inl (haccounts t ht hd haccounted)
  · exact .inr hawaited

theorem Kept.undrop (h : Kept none s) (hnone : s.pendingNotificationRequests.get key = none) :
    Kept none { s with dropped := s.dropped.erase key } := by
  refine { h with pending := ?_ }
  intro key' n hout hget
  obtain ⟨hscheduled, r, hr, hkey, hstate, haborted⟩ := h.pending key' n hout hget
  have hne : key' ≠ key := by
    rintro rfl
    rw [show s.pendingNotificationRequests.get key' = some n from hget] at hnone
    cases hnone
  exact ⟨hscheduled, r, hr, hkey, hstate, fun habort => Finset.mem_erase.mpr ⟨hne, haborted habort⟩⟩

theorem deliver_notify (s : NotificationService) (n : Nat) (text : String) (hkind : b.kind = .notify) :
    s.deliver n b text =
      { s.setBuild n { b with phase := .gone } with
        requests := s.requests ++ [({ info := b.info, text := text } : TaskNotificationStepRequest)]
        pendingNotificationRequests := s.pendingNotificationRequests.set b.info.key s.requests.length
        dropped := s.dropped.erase b.info.key } := by
  unfold deliver
  rw [hkind]

theorem deliver_restore (s : NotificationService) (n : Nat) (text : String) (hkind : b.kind = .restore) :
    s.deliver n b text =
      { (s.setBuild n { b with phase := .gone }).append (notificationMessage b.info text) with
        dropped := s.dropped.erase b.info.key } := by
  unfold deliver
  rw [hkind]

section

variable (h : Sound s)
include h

theorem Sound.deliver (hb : s.builds[n]? = some b) (hbuilt : b.phase = .built text) : Sound (s.deliver n b text) := by
  obtain ⟨hkept, hhand⟩ := h.kept.takeBuild hb hbuilt
  have haccounts : ∀ t ∈ s.tasks, t.due = true → Accounted s t.info.key →
      Accounted (s.deliver n b text) t.info.key := fun t _ _ ha => ha.deliver h.inStep hb text
  cases hkind : b.kind with
  | notify =>
    rw [deliver_notify s n text hkind] at haccounts ⊢
    apply h.advance
    · exact h.inStep
    · apply hkept.enqueue hhand (.inl rfl)
      · exact fun key hin hne => Finset.mem_erase.mpr ⟨hne, hin⟩
      · exact fun haborted => by cases haborted
    · rfl
    · rfl
    · exact haccounts
  | restore =>
    rw [deliver_restore s n text hkind] at haccounts ⊢
    obtain ⟨htasks, hqueue⟩ := append_rest (s.setBuild n { b with phase := .gone })
      (notificationMessage b.info text)
    apply h.advance
    · exact h.inStep.append (ordinary_notificationMessage b.info text) (genuine_notificationMessage b.info text)
    · have hnone : ((s.setBuild n { b with phase := .gone }).append
          (notificationMessage b.info text)).pendingNotificationRequests.get b.info.key = none := by
        exact JsMap.get_delete_self _ _
      have happended := hkept.append_notification h.inStep hhand (taskKey_notificationMessage b.info text)
      have hundropped := happended.undrop hnone
      exact hundropped
    · exact htasks
    · exact hqueue
    · exact haccounts

theorem Sound.refuse (hb : s.builds[n]? = some b) (hbuilt : b.phase = .built text) : Sound (s.refuse n b text) := by
  obtain ⟨hkept, hhand⟩ := h.kept.takeBuild hb hbuilt
  have hrefused : Kept none { s.setBuild n { b with phase := .gone } with
      requests := s.requests ++
        [({ info := b.info, text := text, state := .aborted } : TaskNotificationStepRequest)]
      pendingNotificationRequests := s.pendingNotificationRequests.set b.info.key s.requests.length
      dropped := insert b.info.key s.dropped } := by
    apply hkept.enqueue hhand (.inr rfl)
    · exact fun key hin _ => Finset.mem_insert_of_mem hin
    · exact fun _ => Finset.mem_insert_self _ _
  have hsame := sameRecord_clearPending { s.setBuild n { b with phase := .gone } with
    requests := s.requests ++
      [({ info := b.info, text := text, state := .aborted } : TaskNotificationStepRequest)]
    pendingNotificationRequests := s.pendingNotificationRequests.set b.info.key s.requests.length
    dropped := insert b.info.key s.dropped } b.info.key s.requests.length
  have haborted : StepRequestState.aborted ≠ .pending := by decide
  apply h.advance
  · unfold NotificationService.refuse
    rw [hsame.conversation]
    exact h.inStep
  · exact hrefused.clearPending getElem?_concat_length haborted
  · exact hsame.tasks
  · exact hsame.notificationRestoreQueue
  · exact fun t _ _ ha => ha.refuse hb text

theorem Sound.materialize (hr : s.requests[n]? = some r) (hpending : r.state = .pending) :
    Sound ((s.setRequest n { r with state := .materialized }).append (notificationMessage r.info r.text)) := by
  obtain ⟨hkept, hhand⟩ := h.kept.takeRequest hr hpending
  obtain ⟨htasks, hqueue⟩ := append_rest (s.setRequest n { r with state := .materialized })
    (notificationMessage r.info r.text)
  apply h.advance
  · exact h.inStep.append (ordinary_notificationMessage r.info r.text) (genuine_notificationMessage r.info r.text)
  · exact hkept.append_notification h.inStep hhand (taskKey_notificationMessage r.info r.text)
  · exact htasks
  · exact hqueue
  · exact fun t _ _ ha => ha.materialize h.inStep hr

theorem Sound.append (m : OtherMessage) : Sound (s.append m.message) := by
  obtain ⟨htasks, hqueue⟩ := append_rest s m.message
  apply h.advance
  · rw [append_conversation]
    apply h.inStep.append m.ordinary
    intro key hkey
    rw [m.taskKey] at hkey
    cases hkey
  · exact h.kept.append_other h.inStep m.taskKey
  · exact htasks
  · exact hqueue
  · exact fun t _ _ ha => ha.append_other h.inStep m.taskKey

theorem Sound.loopEvent (event : LoopRecordedEvent) :
    Sound { s with
      conversation :=
        { context := foldLoopEvent s.conversation.context event
          model := s.conversation.model.reduce (some onAppendMessage) (.appendLoopEvent event) } } := by
  have hkeys := taskKeys_loopEvent h.inStep event
  apply h.advance
  · exact h.inStep.loopEvent event
  · apply h.kept.converse
    · exact hkeys ▸ List.Sublist.refl _
    · exact foldLoopEvent_deferred h.inStep.behind event
    · intro hundoing key hkey
      rw [hkeys]
      exact h.kept.recorded hundoing key hkey
  · rfl
  · rfl
  · intro t _ _ ha
    refine ha.same ?_ rfl rfl rfl rfl
    intro hin
    change t.info.key ∈ taskKeys (foldLoopEvent s.conversation.context event).recorded
    rw [hkeys]
    exact hin

theorem Sound.undo {count : Nat} (hvalid : isValidUndoCount count = true)
    (hcut : isFullyUndoable (computeUndoCut s.conversation.context.messages count) count = true)
    (hcheckpoints : count ≤ s.conversation.model.checkpoints.length)
    (hdeferred : ∀ m ∈ s.deferred, isUndoAnchor m = false) :
    Sound { s with
      conversation :=
        { context := contextUndo s.conversation.context count
          model := s.conversation.model.reduce (some onAppendMessage) (.undo count) }
      undoing := some .cut } := by
  refine ⟨h.inStep.undo hvalid hcut hcheckpoints hdeferred, ?_, h.ids, h.terminal,
    fun t _ _ => .inl (.undone rfl)⟩
  apply h.kept.converse
  · exact taskKeys_undo hvalid hcut
  · intro m hm
    rw [contextUndo_eq hvalid hcut] at hm
    cases hm
  · exact absurd rfl

theorem Sound.reconcile (hbuilt : ∀ b ∈ s.builds, b.isBuilt = false) :
    Sound { s.reconcile with undoing := some .restoring } := by
  have hsame := sameRecord_clearAborted s
  have hready : ∀ n key, ¬s.ready n key := by
    rintro n key ⟨b, hb, ⟨text, htext⟩, _⟩
    have hnot := hbuilt b (mem_of_getElem? hb)
    unfold Build.isBuilt at hnot
    rw [htext] at hnot
    cases hnot
  refine ⟨?_, h.kept.reconcile h.inStep hready, ?_, ?_, ?_⟩
  · change InStep s.clearAborted.conversation
    rw [hsame.conversation]
    exact h.inStep
  · change (s.clearAborted.tasks.map _).Nodup
    rw [hsame.tasks]
    exact h.ids
  · change ∀ t ∈ s.clearAborted.tasks, _
    rw [hsame.tasks]
    exact h.terminal
  · intro t _ _
    right
    exact ⟨.waiting, mem_concat_self, trivial⟩

end

theorem startBuild_rest (s : NotificationService) (info : NotifiableTask) (kind : BuildKind) :
    (s.startBuild info kind).conversation = s.conversation ∧ (s.startBuild info kind).tasks = s.tasks ∧
      (s.startBuild info kind).notificationRestoreQueue = s.notificationRestoreQueue := by
  unfold startBuild
  split_ifs <;> exact ⟨rfl, rfl, rfl⟩

theorem finishBuild_rest (s : NotificationService) (n : Nat) (b : Build) (text : String) :
    (s.finishBuild n b text).conversation = s.conversation ∧ (s.finishBuild n b text).tasks = s.tasks ∧
      (s.finishBuild n b text).notificationRestoreQueue = s.notificationRestoreQueue := by
  unfold finishBuild
  split_ifs <;> exact ⟨rfl, rfl, rfl⟩

theorem Sound.not_suppressed (h : Sound s) (ht : t ∈ s.tasks) (hd : t.due = true)
    {info : NotifiableTask} (hkey : t.info.key = info.key) : s.isTerminalNotificationSuppressed info.taskId = false := by
  have hid : t.info.taskId = info.taskId := congrArg NotificationKey.taskId hkey
  apply Bool.eq_false_iff.mpr
  intro hsuppressed
  obtain ⟨t', ht', hboth⟩ := any_eq_true.mp hsuppressed
  obtain ⟨hid', hsuppressed⟩ := of_decide_eq_true hboth
  obtain rfl := h.task_unique ht ht' (hid.trans hid'.symm)
  obtain ⟨_, _, _, hnot⟩ := t.due_iff.mp hd
  rw [hnot] at hsuppressed
  cases hsuppressed

theorem Sound.finishBuild (h : Sound s) (hb : s.builds[n]? = some b) (hreading : b.phase = .reading)
    (text : String) : Sound (s.finishBuild n b text) := by
  obtain ⟨hconversation, htasks, hqueue⟩ := finishBuild_rest s n b text
  apply h.advance
  · rw [hconversation]
    exact h.inStep
  · exact h.kept.finishBuild hb hreading text
  · exact htasks
  · exact hqueue
  · exact fun t ht hd ha => ha.finishBuild h.kept hb hreading text fun hkey => h.not_suppressed ht hd hkey

theorem Sound.fire (h : Sound s) (hfind : (s.tasks.find? fun t => t.info.taskId = taskId) = some t)
    (hterminal : isAgentTaskTerminal t.info.status = true) :
    Sound ((s.updateTask taskId fun t => { t with fired := true }).startBuild t.info .notify) := by
  have hid : t.info.taskId = taskId := by simpa using find?_some hfind
  have hmem := mem_of_find?_eq_some hfind
  have hids := ids_updateTask s taskId (f := fun t => { t with fired := true }) fun _ => rfl
  have hkept : Kept none (s.updateTask taskId fun t => { t with fired := true }) := { h.kept with }
  obtain ⟨hconversation, htasks, hqueue⟩ :=
    startBuild_rest (s.updateTask taskId fun t => { t with fired := true }) t.info .notify
  refine ⟨?_, hkept.startBuild t.info .notify, ?_, ?_, ?_⟩
  · rw [hconversation]
    exact h.inStep
  · rw [htasks, hids]
    exact h.ids
  · intro t' ht' hfired
    rw [htasks] at ht'
    obtain ⟨t₀, ht₀, rfl⟩ := mem_map.mp ht'
    split_ifs at hfired ⊢ with hsame
    · obtain rfl := h.task_unique ht₀ hmem (hsame.trans hid.symm)
      exact hterminal
    · exact h.terminal t₀ ht₀ hfired
  · intro t' ht' hd
    rw [htasks] at ht'
    unfold Awaited
    rw [hqueue]
    obtain ⟨t₀, ht₀, rfl⟩ := mem_map.mp ht'
    split_ifs at hd ⊢ with hsame
    · obtain rfl := h.task_unique ht₀ hmem (hsame.trans hid.symm)
      obtain ⟨_, _, hdetached, hsuppressed⟩ := (TaskEntry.due_iff _).mp hd
      exact .inl (hkept.accounted_startBuild hdetached hsuppressed .notify)
    · rcases h.covered t₀ ht₀ hd with haccounted | hawaited
      · left
        apply Accounted.startBuild
        exact haccounted.same id rfl rfl rfl rfl
      · exact .inr hawaited

theorem mem_finished {s : NotificationService} (ht : t ∈ s.tasks) (hd : t.due = true) : t.info ∈ s.finished := by
  obtain ⟨_, hterminal, hdetached, _⟩ := t.due_iff.mp hd
  apply mem_filter.mpr
  refine ⟨mem_map.mpr ⟨t, ?_, rfl⟩, decide_eq_true ⟨hterminal, hdetached⟩⟩
  apply mem_append.mpr
  cases hghost : t.ghost with
  | true => exact .inr (mem_filter.mpr ⟨ht, hghost⟩)
  | false => exact .inl (mem_filter.mpr ⟨ht, by rw [hghost]; rfl⟩)

section

variable (h : Sound s)
include h

theorem Sound.startPass (hqueue : s.notificationRestoreQueue = .waiting :: passes) :
    Sound { s with notificationRestoreQueue := .running s.finished :: passes } := by
  refine ⟨h.inStep, { h.kept with }, h.ids, h.terminal, ?_⟩
  intro t ht hd
  rcases h.covered t ht hd with haccounted | ⟨pass, hpass, hawaits⟩
  · exact .inl (haccounted.same id rfl rfl rfl rfl)
  · right
    rw [hqueue] at hpass
    rcases mem_cons.mp hpass with _ | hpass
    · exact ⟨.running s.finished, mem_cons_self, mem_finished ht hd⟩
    · exact ⟨pass, mem_cons_of_mem _ hpass, hawaits⟩

theorem Sound.nextInPass (hqueue : s.notificationRestoreQueue = .running (info :: remaining) :: passes) :
    Sound ({ s with
      notificationRestoreQueue := .running remaining :: passes }.startBuild info .restore) := by
  have hkept : Kept none { s with notificationRestoreQueue := .running remaining :: passes } := { h.kept with }
  obtain ⟨hconversation, htasks, hrest⟩ :=
    startBuild_rest { s with notificationRestoreQueue := .running remaining :: passes } info .restore
  refine ⟨?_, hkept.startBuild info .restore, ?_, ?_, ?_⟩
  · rw [hconversation]
    exact h.inStep
  · rw [htasks]
    exact h.ids
  · rw [htasks]
    exact h.terminal
  · intro t ht hd
    rw [htasks] at ht
    unfold Awaited
    rw [hrest]
    rcases h.covered t ht hd with haccounted | ⟨pass, hpass, hawaits⟩
    · left
      apply Accounted.startBuild
      exact haccounted.same id rfl rfl rfl rfl
    · rw [hqueue] at hpass
      rcases mem_cons.mp hpass with rfl | hpass
      · rcases mem_cons.mp hawaits with hinfo | hin
        · obtain ⟨_, _, hdetached, hsuppressed⟩ := t.due_iff.mp hd
          rw [hinfo] at hdetached hsuppressed ⊢
          exact .inl (hkept.accounted_startBuild hdetached hsuppressed .restore)
        · exact .inr ⟨.running remaining, mem_cons_self, hin⟩
      · exact .inr ⟨pass, mem_cons_of_mem _ hpass, hawaits⟩

theorem Sound.endPass (hqueue : s.notificationRestoreQueue = .running [] :: passes) :
    Sound { s with notificationRestoreQueue := passes } := by
  refine ⟨h.inStep, { h.kept with }, h.ids, h.terminal, ?_⟩
  intro t ht hd
  rcases h.covered t ht hd with haccounted | ⟨pass, hpass, hawaits⟩
  · exact .inl (haccounted.same id rfl rfl rfl rfl)
  · right
    rw [hqueue] at hpass
    rcases mem_cons.mp hpass with rfl | hpass
    · cases hawaits
    · exact ⟨pass, hpass, hawaits⟩

theorem Sound.restart {ghosts : List NotifiableTask} (hids : (ghosts.map NotifiableTask.taskId).Nodup)
    (hterminal : ∀ info ∈ ghosts, isAgentTaskTerminal info.status = true) :
    Sound {
      conversation := s.conversation
      tasks := ghosts.map fun info => { info := info, fired := true, ghost := true }
      deliveredNotificationKeys := s.conversation.model.current.toFinset
      notificationRestoreQueue := [.waiting] } := by
  have hkeys : ∀ key, key ∈ s.conversation.model.current ↔ key ∈ s.recordedKeys := by
    intro key
    rw [h.inStep.follows]
    exact mem_replayed _ _
  refine ⟨h.inStep, ?_, ?_, ?_, fun t _ _ => .inr ⟨.waiting, mem_cons_self, trivial⟩⟩
  · constructor
    · exact h.kept.distinct
    · intro m hm key hkey
      apply List.mem_toFinset.mpr
      apply (hkeys key).mpr
      exact mem_filterMap.mpr ⟨m, mem_append_right _ hm, hkey⟩
    · exact fun _ key hkey => (hkeys key).mp (List.mem_toFinset.mp hkey)
    · exact fun key hkey => absurd hkey (Finset.notMem_empty key)
    · rintro n key ⟨r, hr, _⟩
      cases hr
    · rintro n key ⟨b, hb, _⟩
      cases hb
    · rintro n n' key ⟨b, hb, _⟩
      cases hb
    · intro key n _ hget
      cases hget
    · exact fun key hkey => absurd hkey (Finset.notMem_empty key)
  · rw [List.map_map]
    exact hids
  · intro t ht _
    obtain ⟨info, hinfo, rfl⟩ := mem_map.mp ht
    exact hterminal info hinfo

theorem Sound.register (hnew : taskId ∉ s.tasks.map (fun t => t.info.taskId)) (detached : Bool) :
    Sound { s with
      tasks := s.tasks ++ [({ info := { taskId := taskId, detached := detached } } : TaskEntry)] } := by
  apply h.withTasks
  · rw [map_append, map_singleton, ← concat_eq_append]
    exact h.ids.concat hnew
  · intro t ht hfired
    rcases mem_snoc.mp ht with ht | ht
    · exact h.terminal t ht hfired
    · rw [ht] at hfired
      cases hfired
  · intro t ht hd
    rcases mem_snoc.mp ht with ht | ht
    · exact ⟨t, ht, hd, rfl⟩
    · rw [ht] at hd
      cases hd

theorem Sound.changeRunning (taskId : String) (update : NotifiableTask → NotifiableTask)
    (hid : ∀ info, (update info).taskId = info.taskId) :
    Sound (s.updateTask taskId fun t =>
      if isAgentTaskTerminal t.info.status then t else { t with info := update t.info }) := by
  have hfired : ∀ t ∈ s.tasks, isAgentTaskTerminal t.info.status = false → t.fired = false := by
    intro t ht hrunning
    apply Bool.eq_false_iff.mpr
    intro hfired
    rw [h.terminal t ht hfired] at hrunning
    cases hrunning
  apply h.updateTask
  · intro t
    split_ifs
    · rfl
    · exact hid t.info
  · intro t ht hf
    split_ifs at hf ⊢ with hterminal
    · exact hterminal
    · rw [hfired t ht (Bool.eq_false_iff.mpr hterminal)] at hf
      cases hf
  · intro t ht hd
    split_ifs at hd ⊢ with hterminal
    · exact ⟨hd, rfl⟩
    · obtain ⟨hf, _⟩ := (TaskEntry.due_iff _).mp hd
      rw [hfired t ht (Bool.eq_false_iff.mpr hterminal)] at hf
      cases hf

theorem Sound.suppress (taskId : String) : Sound (s.updateTask taskId fun t =>
      if t.ghost then t else { t with info := { t.info with terminalNotificationSuppressed := true } }) := by
  apply h.updateTask
  · intro t
    split_ifs <;> rfl
  · intro t ht hfired
    split_ifs at hfired ⊢ <;> exact h.terminal t ht hfired
  · intro t ht hd
    split_ifs at hd ⊢
    · exact ⟨hd, rfl⟩
    · obtain ⟨_, _, _, hnot⟩ := (TaskEntry.due_iff _).mp hd
      cases hnot

end

theorem sound_empty : Sound {} := by
  have hkept : Kept none ({} : NotificationService) := by
    constructor
    · exact nodup_nil
    · exact fun m hm => absurd hm not_mem_nil
    · exact fun _ key hkey => absurd hkey (Finset.notMem_empty key)
    · exact fun key hkey => absurd hkey (Finset.notMem_empty key)
    · rintro n key ⟨r, hr, _⟩
      cases hr
    · rintro n key ⟨b, hb, _⟩
      cases hb
    · rintro n n' key ⟨b, hb, _⟩
      cases hb
    · intro key n _ hget
      cases hget
    · exact fun key hkey => absurd hkey (Finset.notMem_empty key)
  refine ⟨⟨rfl, ?_, fun _ => rfl, ?_⟩, hkept, nodup_nil, ?_, ?_⟩
  · exact fun m hm => absurd hm not_mem_nil
  · exact fun key hkey => absurd hkey not_mem_nil
  · exact fun t ht => absurd ht not_mem_nil
  · exact fun t ht => absurd ht not_mem_nil

theorem Sound.step (h : Sound s) {event : Event} (horderly : s.orderly event = true)
    (hstep : s.step event = some s') : Sound s' := by
  cases event with
  | registered taskId detached =>
    obtain ⟨hnew, hstep⟩ := ite_none_left_eq_some.mp hstep
    cases hstep
    exact h.register hnew detached
  | detached taskId =>
    cases hstep
    exact h.changeRunning taskId (fun info => { info with detached := true }) fun _ => rfl
  | suppressed taskId =>
    cases hstep
    exact h.suppress taskId
  | settled taskId status =>
    cases hstep
    exact h.changeRunning taskId (fun info => { info with status := status.toStatus }) fun _ => rfl
  | fired taskId =>
    obtain ⟨t, hfind, hstep⟩ := bind_eq_some_iff.mp hstep
    obtain ⟨hready, hstep⟩ := ite_none_left_eq_some.mp hstep
    cases hstep
    obtain ⟨hterminal, _⟩ := not_or.mp hready
    exact h.fire hfind (Bool.eq_true_of_not_eq_false hterminal)
  | output n text =>
    obtain ⟨b, hb, hstep⟩ := bind_eq_some_iff.mp hstep
    obtain ⟨hreading, hstep⟩ := ite_none_right_eq_some.mp hstep
    cases hstep
    exact h.finishBuild hb hreading text
  | delivered n =>
    obtain ⟨b, hb, hstep⟩ := bind_eq_some_iff.mp hstep
    split at hstep
    · rename_i text hbuilt
      cases hstep
      exact h.deliver hb hbuilt
    · cases hstep
  | refused n =>
    obtain ⟨b, hb, hstep⟩ := bind_eq_some_iff.mp hstep
    split at hstep
    · rename_i text hbuilt
      obtain ⟨_, hstep⟩ := ite_none_right_eq_some.mp hstep
      cases hstep
      exact h.refuse hb hbuilt
    · cases hstep
  | materialized n =>
    obtain ⟨r, hr, hstep⟩ := bind_eq_some_iff.mp hstep
    obtain ⟨⟨hpending, _⟩, hstep⟩ := ite_none_right_eq_some.mp hstep
    cases hstep
    exact h.materialize hr hpending
  | aborted n =>
    obtain ⟨r, hr, hstep⟩ := bind_eq_some_iff.mp hstep
    obtain ⟨_, hstep⟩ := ite_none_right_eq_some.mp hstep
    cases hstep
    exact h.advance h.inStep (h.kept.abort hr) rfl rfl fun t _ _ ha => ha.abort hr
  | answered n rejected =>
    obtain ⟨r, hr, hstep⟩ := bind_eq_some_iff.mp hstep
    obtain ⟨hanswered, hstep⟩ := ite_none_left_eq_some.mp hstep
    split_ifs at hstep
    · cases hstep
      have hsame := sameRecord_clearPending s r.info.key n
      apply h.advance
      · rw [hsame.conversation]
        exact h.inStep
      · exact h.kept.clearPending hr hanswered
      · exact hsame.tasks
      · exact hsame.notificationRestoreQueue
      · exact fun t _ _ ha => hsame.accounted ha
    · cases hstep
      exact h
  | appended message =>
    cases hstep
    exact h.append message
  | loopEvent event =>
    obtain ⟨_, hstep⟩ := ite_none_right_eq_some.mp hstep
    cases hstep
    exact h.loopEvent event
  | undo count =>
    obtain ⟨⟨_, _, hvalid, hcut, hcheckpoints⟩, hstep⟩ := ite_none_right_eq_some.mp hstep
    cases hstep
    apply h.undo hvalid hcut hcheckpoints
    intro m hm
    have hnot := all_eq_true.mp horderly m hm
    rw [Bool.not_eq_true'] at hnot
    exact hnot
  | flushFailed => cases horderly
  | reconciled =>
    obtain ⟨_, hstep⟩ := ite_none_right_eq_some.mp hstep
    cases hstep
    apply h.reconcile
    intro b hb
    have hnot := all_eq_true.mp horderly b hb
    rw [Bool.not_eq_true'] at hnot
    exact hnot
  | undone =>
    obtain ⟨⟨hundoing, _⟩, hstep⟩ := ite_none_right_eq_some.mp hstep
    cases hstep
    have hnotCut : s.undoing ≠ some .cut := by
      rw [hundoing]
      decide
    apply h.advance
    · exact h.inStep
    · exact { h.kept with recorded := fun _ => h.kept.recorded hnotCut }
    · rfl
    · rfl
    · intro t _ _ ha
      apply ha.keep
      · exact id
      · exact fun n hlive => .live n hlive
      · exact fun b hb hphase hkey => .building b hb hphase hkey
      · exact fun hcut => absurd hcut hnotCut
      · exact fun hin => .dropped hin
  | passStarted =>
    dsimp only [NotificationService.step] at hstep
    split at hstep
    · rename_i passes hqueue
      cases hstep
      exact h.startPass hqueue
    · cases hstep
  | passNext =>
    dsimp only [NotificationService.step] at hstep
    split at hstep
    · rename_i info remaining passes hqueue
      obtain ⟨_, hstep⟩ := ite_none_left_eq_some.mp hstep
      cases hstep
      exact h.nextInPass hqueue
    · cases hstep
  | passEnded =>
    dsimp only [NotificationService.step] at hstep
    split at hstep
    · rename_i passes hqueue
      obtain ⟨_, hstep⟩ := ite_none_left_eq_some.mp hstep
      cases hstep
      exact h.endPass hqueue
    · cases hstep
  | restart ghosts =>
    obtain ⟨⟨hids, hterminal⟩, hstep⟩ := ite_none_right_eq_some.mp hstep
    cases hstep
    exact h.restart hids hterminal

theorem Sound.run {s s' : NotificationService} {events : List Event} (h : Sound s)
    (horderly : AlongRun NotificationService.step (fun s event => s.orderly event = true) s events)
    (hrun : s.run events = some s') : Sound s' :=
  horderly.invariant (fun _ _ _ h horderly hstep => h.step horderly hstep) h hrun

def subjects (s : NotificationService) : List (String × String) :=
  s.recordedKeys.map fun key => (key.taskId, key.status)

theorem Sound.subjects_nodup (h : Sound s) : s.subjects.Nodup := by
  apply List.Nodup.map_on _ h.kept.distinct
  intro key hkey key' hkey' hsame
  obtain ⟨info, rfl⟩ := h.inStep.genuine key hkey
  obtain ⟨info', rfl⟩ := h.inStep.genuine key' hkey'
  obtain ⟨hid, hstatus⟩ := Prod.mk.inj hsame
  change info.taskId = info'.taskId at hid
  change info.status.text = info'.status.text at hstatus
  unfold NotifiableTask.key NotifiableTask.notificationId
  rw [hid, hstatus]

/-- Among the tasks that have ended, those that are to be notified are: in the conversation, in the loop, or
let go with the request; or a pass or the reconciliation of an undo is still to come. -/
theorem notified_of_run {s : NotificationService} {events : List Event} (hrun : run {} events = some s)
    (horderly : AlongRun step (fun s event => s.orderly event = true) {} events) :
    s.subjects.Nodup ∧ ((∀ b ∈ s.builds, b.phase = .gone) → ∀ t ∈ s.tasks, t.due = true →
        t.info.key ∈ s.recordedKeys ∨ (∃ n, s.live n t.info.key) ∨ t.info.key ∈ s.dropped ∨
          s.Awaited t.info ∨ s.undoing = some .cut) := by
  have hsound := sound_empty.run horderly hrun
  refine ⟨hsound.subjects_nodup, ?_⟩
  intro hgone t ht hd
  rcases hsound.covered t ht hd with haccounted | hawaited
  · cases haccounted with
    | recorded h => exact .inl h
    | live n h => exact .inr (.inl ⟨n, h⟩)
    | building b hb hphase _ => exact absurd (hgone b hb) hphase
    | undone h => exact .inr (.inr (.inr (.inr h)))
    | dropped h => exact .inr (.inr (.inl h))
  · exact .inr (.inr (.inr (.inl hawaited)))

def goPrompt : OtherMessage where
  message := { role := .user, content := [.text "go"] }
  taskKey := rfl
  ordinary := of_decide_eq_true rfl
  summary := rfl

def restoredRun : List Event :=
  [.appended goPrompt,
    .registered "a" true, .settled "a" .completed, .fired "a", .output 0 "done", .delivered 0, .materialized 0,
    .undo 1, .reconciled, .passStarted, .passNext, .output 1 "done", .delivered 1, .passEnded, .undone]

theorem notified_of_restoredRun : ∃ s, run {} restoredRun = some s ∧ s.subjects.Nodup ∧
      ((∀ b ∈ s.builds, b.phase = .gone) → ∀ t ∈ s.tasks, t.due = true →
        t.info.key ∈ s.recordedKeys ∨ (∃ n, s.live n t.info.key) ∨ t.info.key ∈ s.dropped ∨
          s.Awaited t.info ∨ s.undoing = some .cut) := by
  have hsome : (run {} restoredRun).isSome = true := by decide +kernel
  have horderly : AlongRun step (fun s event => s.orderly event = true) {} restoredRun := by decide +kernel
  obtain ⟨s, hrun⟩ := isSome_iff_exists.mp hsome
  exact ⟨s, hrun, notified_of_run hrun horderly⟩

/-- Two tasks: the notification of one is in the conversation, the request for the other is aborted. -/
def abortedRun : List Event :=
  [.registered "a" true, .registered "b" true, .settled "a" .completed, .settled "b" .failed, .fired "a",
    .fired "b", .output 0 "done", .output 1 "failed", .delivered 0, .delivered 1, .materialized 0, .aborted 1,
    .answered 1 true]

/-- Nothing is under way, and the notification of a task is neither in the conversation nor in the loop. -/
theorem not_notified_of_abortedRun :
    ∃ s, run {} abortedRun = some s ∧ (∀ b ∈ s.builds, b.phase = .gone) ∧ s.undoing = none ∧
      s.notificationRestoreQueue = [] ∧
      ∃ t ∈ s.tasks, t.due = true ∧ t.info.key ∉ s.recordedKeys ∧ ∀ n, ¬s.live n t.info.key := by
  have hany : ∃ s ∈ run {} abortedRun, (∀ b ∈ s.builds, b.phase = .gone) ∧ s.undoing = none ∧
      s.notificationRestoreQueue = [] ∧
      ∃ t ∈ s.tasks, t.due = true ∧ t.info.key ∉ s.recordedKeys ∧
        ∀ r ∈ s.requests, ¬(r.state = .pending ∧ r.info.key = t.info.key) := by decide +kernel
  obtain ⟨s, hrun, hgone, hundoing, hqueue, t, ht, hd, hrecorded, hrequests⟩ := hany
  refine ⟨s, hrun, hgone, hundoing, hqueue, t, ht, hd, hrecorded, ?_⟩
  rintro n ⟨r, hr, hlive⟩
  exact hrequests r (mem_of_getElem? hr) hlive

end NotificationService

end Echadron.Task
