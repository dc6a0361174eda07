import Echadron.Persistence.FlushDurability

namespace Echadron.Persistence
open Lib List Option

variable {R : Type} {stringify : R → Bytes} {s s' : LogState R} {file' : Bytes}
  {pre post : List (LogState R)} {log log' : OwnedLog R} {call : FlushCall R} {owed : List R}

/-! What the flushes of a store promise. -/

def FlushCall.Resolved (log : OwnedLog R) (call : FlushCall R) : Prop :=
  match call.promise with
  | none => True
  | some (buffer, promise) => ∃ p ∈ promise, ∃ s ∈ log.states[buffer]?, (p, true) ∈ s.outcomes

instance FlushCall.Resolved.decidable (log : OwnedLog R) (call : FlushCall R) : Decidable (call.Resolved log) :=
  match hpromise : call.promise with
  | none => isTrue (by rw [FlushCall.Resolved, hpromise]; trivial)
  | some (buffer, promise) =>
    decidable_of_iff (∃ p ∈ promise, ∃ s ∈ log.states[buffer]?, (p, true) ∈ s.outcomes)
      (by rw [FlushCall.Resolved, hpromise])

/-- A rewrite finds no records in buffers that have retired, and no failure is outstanding in a buffer
that gives way to the next. -/
def LogEvent.Undisturbed (log : OwnedLog R) : LogEvent R → Prop
  | .rewrite _ => ∀ s ∈ log.states, s.retired = true → s.pending = []
  | .retire buffer => ∀ s ∈ log.states[buffer]?, s.storageFailure = false
  | _ => True

instance LogEvent.Undisturbed.decidable [DecidableEq R] (log : OwnedLog R) :
    (event : LogEvent R) → Decidable (event.Undisturbed log)
  | .rewrite _ => inferInstanceAs (Decidable (∀ s ∈ log.states, s.retired = true → s.pending = []))
  | .retire buffer => inferInstanceAs (Decidable (∀ s ∈ log.states[buffer]?, s.storageFailure = false))
  | .append _ | .acquire | .release _ | .scheduled _ | .resume .. | .complete .. => isTrue trivial

def FlushCall.Known (stringify : R → Bytes) (log : OwnedLog R) (call : FlushCall R) : Prop :=
  match call.promise with
  | none => Safe stringify log call.owed
  | some (_, none) => True
  | some (buffer, some p) => ∃ pre s post, pre.length = buffer ∧ Kept stringify log call.owed pre s post p

structure OwnedLog.Flushed (stringify : R → Bytes) (log : OwnedLog R) : Prop where
  inv : OwnedLog.Inv stringify log
  numbered : ∀ s ∈ log.states, Numbered s
  calls : ∀ call ∈ log.calls, call.overtaken = false → call.Known stringify log

/-- What is fulfilled is on disk. -/
theorem FlushCall.Known.inFile (h : call.Known stringify log) (hresolved : call.Resolved log) :
    ∃ before after, log.file = before ++ encodeBatch stringify call.owed ++ after := by
  rw [FlushCall.Known] at h
  rw [FlushCall.Resolved] at hresolved
  cases hpromise : call.promise with
  | none =>
    rw [hpromise] at h
    exact h.inFile
  | some promise =>
    obtain ⟨buffer, promise⟩ := promise
    rw [hpromise] at h hresolved
    obtain ⟨p, hp, s, hs, hfulfilled⟩ := hresolved
    obtain rfl := hp
    obtain ⟨pre, s', post, rfl, hkept⟩ := h
    have hthis : log.states[pre.length]? = some s' := by
      rw [hkept.states]
      simp
    obtain rfl := mem_unique hs hthis
    exact (hkept.fulfilled hfulfilled).inFile

theorem FlushCall.Known.act (h : call.Known stringify log) (hinv : OwnedLog.Inv stringify log)
    (hstates : log.states = pre ++ s :: post)
    (hact : Act stringify (log.isReady pre.length) log.file s s' file') :
    call.Known stringify { log with states := pre ++ s' :: post, file := file' } := by
  have hs : Sound s := hinv.sound s (hstates ▸ mem_append_right _ mem_cons_self)
  rw [FlushCall.Known] at h ⊢
  cases hpromise : call.promise with
  | none =>
    rw [hpromise] at h
    exact Safe.act h hstates hs.ordered hact
  | some promise =>
    obtain ⟨buffer, promise⟩ := promise
    rw [hpromise] at h
    cases promise with
    | none => trivial
    | some p =>
      obtain ⟨front, t, rest, rfl, hkept⟩ := h
      rcases locate (hkept.states.symm.trans hstates) with
        ⟨mid, rfl, rfl⟩ | ⟨rfl, hcons⟩ | ⟨x, mid, rfl, hcons⟩
      · have hnext := hkept.act_left hinv rfl hact
        rw [append_assoc] at hnext
        refine ⟨pre ++ s' :: mid, t, rest, ?_, hnext⟩
        simp
      · obtain ⟨rfl, rfl⟩ := cons_eq_cons.mp hcons
        exact ⟨front, s', rest, rfl, hkept.act hinv hact⟩
      · obtain ⟨rfl, rfl⟩ := cons_eq_cons.mp hcons
        have hnext := hkept.act_right hinv rfl hact
        refine ⟨front, t, mid ++ s' :: post, rfl, ?_⟩
        rwa [append_assoc, cons_append]

namespace OwnedLog.Flushed

variable (h : Flushed stringify log)

include h

theorem act (hstates : log.states = pre ++ s :: post)
    (hact : Act stringify (log.isReady pre.length) log.file s s' file') :
    Flushed stringify { log with states := pre ++ s' :: post, file := file' } where
  inv := h.inv.act hstates hact
  numbered := by
    have hs : Sound s := h.inv.sound s (hstates ▸ mem_append_right _ mem_cons_self)
    have hnumbered := h.numbered
    rw [hstates, forall_mem_append, forall_mem_cons] at hnumbered
    rw [forall_mem_append, forall_mem_cons]
    exact ⟨hnumbered.1, hnumbered.2.1.act hs.ordered hact, hnumbered.2.2⟩
  calls call hcall hnot := (h.calls call hcall hnot).act h.inv hstates hact

theorem act_at (hs : log.states[buffer]? = some s) (hact : Act stringify (log.isReady buffer) log.file s s' file') :
    Flushed stringify { log with states := log.states.set buffer s', file := file' } := by
  obtain ⟨hlt, rfl⟩ := List.getElem?_eq_some_iff.mp hs
  have hstates : log.states = log.states.take buffer ++ log.states[buffer] :: log.states.drop (buffer + 1) := by
    rw [← drop_eq_getElem_cons hlt, take_append_drop]
  have hlength : (log.states.take buffer).length = buffer := by
    rw [length_take]
    omega
  rw [set_eq_take_append_cons_drop, if_pos hlt]
  apply h.act hstates
  rwa [hlength]

end OwnedLog.Flushed

/-! Appends, rewrites and flushes, which go to the newest buffer. -/

theorem not_rewriting_empty : ¬({} : LogState R).Rewriting := by
  rintro ⟨flush, hflush, _⟩
  cases hflush

theorem Safe.add (h : Safe stringify log owed) : Safe stringify { log with states := log.states ++ [{}] } owed := by
  refine ⟨h.inFile, ?_⟩
  rw [forall_mem_snoc]
  exact ⟨h.quiet, not_rewriting_empty⟩

theorem Kept.add (h : Kept stringify log owed pre s post p) :
    Kept stringify { log with states := log.states ++ [{}] } owed pre s
      (post ++ [({} : LogState R)]) p := by
  refine ⟨?_, h.fresh, fun hfulfilled => (h.fulfilled hfulfilled).add, ?_⟩
  · rw [h.states, append_assoc, cons_append]
  · intro hlive
    rcases h.live hlive with ⟨hpast, hsafe⟩ | hruns
    · exact .inl ⟨hpast, hsafe.add⟩
    · right
      refine ⟨hruns.unsettled, hruns.promise, ?_, ?_⟩
      · simpa using hruns.before
      · rw [forall_mem_snoc]
        exact ⟨hruns.quiet, not_rewriting_empty⟩

theorem FlushCall.Known.add (h : call.Known stringify log) :
    call.Known stringify { log with states := log.states ++ [{}] } := by
  rw [FlushCall.Known] at h ⊢
  cases hpromise : call.promise with
  | none =>
    rw [hpromise] at h
    exact Safe.add h
  | some promise =>
    obtain ⟨buffer, promise⟩ := promise
    rw [hpromise] at h
    cases promise with
    | none => trivial
    | some p =>
      obtain ⟨pre, s, post, hlength, hkept⟩ := h
      exact ⟨pre, s, post ++ [({} : LogState R)], hlength, hkept.add⟩

theorem append_promises (s : LogState R) (record : R) :
    (s.append record).flushPromise = s.flushPromise ∧ (s.append record).outcomes = s.outcomes := by
  rw [LogState.append, LogState.scheduleFlush]
  split <;> exact ⟨rfl, rfl⟩

theorem Safe.append (h : Safe stringify log owed) (hstates : log.states = pre ++ [s]) (record : R) :
    Safe stringify { log with states := pre ++ [s.append record], owed := log.owed ++ [record] } owed := by
  have hquiet := h.quiet
  rw [hstates, forall_mem_snoc] at hquiet
  refine ⟨h.inFile, ?_⟩
  rw [forall_mem_snoc, rewriting_append]
  exact hquiet

theorem FlushRuns.owed_append (h : FlushRuns log owed s post p) (record : R) :
    ∃ more, log.owed ++ [record] = owed ++ more ∧ post.flatMap LogState.pending ++ [record] <:+ more := by
  obtain ⟨more, howed, skipped, hmore⟩ := h.before
  refine ⟨more ++ [record], ?_, skipped, ?_⟩
  · rw [howed, append_assoc]
  · rw [← hmore, append_assoc]

theorem Kept.append (h : Kept stringify log owed pre s [] p) (hs : Sound s)
    (hactive : s.retired = false) (record : R) :
    Kept stringify { log with states := pre ++ [s.append record], owed := log.owed ++ [record] } owed pre
      (s.append record) [] p := by
  obtain ⟨_, hretirement⟩ := append_retired s record
  obtain ⟨hpromise, houtcomes⟩ := append_promises s record
  obtain ⟨hflushes, hnext, _⟩ := append_fields s record
  refine ⟨rfl, ?_, ?_, ?_⟩
  · rw [hnext]
    exact h.fresh
  · intro hfulfilled
    rw [houtcomes] at hfulfilled
    exact (h.fulfilled hfulfilled).append h.states record
  · intro hlive
    rw [hflushes] at hlive
    rcases h.live hlive with ⟨hpast, _⟩ | hruns
    · have hretires := hs.retires
      rw [hactive, hpast.settled] at hretires
      cases hretires
    · right
      refine ⟨?_, hpromise.trans hruns.promise, ?_, forall_mem_nil _⟩
      · rw [hretirement]
        exact hruns.unsettled
      · obtain ⟨more, howed, _⟩ := hruns.owed_append record
        exact ⟨more, howed, nil_suffix⟩

theorem Kept.append_newer
    (h : Kept stringify log owed pre s (mid ++ [t]) p) (record : R) :
    Kept stringify
      { log with states := pre ++ s :: (mid ++ [t.append record]), owed := log.owed ++ [record] } owed pre s
      (mid ++ [t.append record]) p := by
  have hstates : log.states = (pre ++ s :: mid) ++ [t] := by
    rw [h.states]
    simp
  have hsafe (hthis : Safe stringify log owed) : Safe stringify
      { log with states := pre ++ s :: (mid ++ [t.append record]), owed := log.owed ++ [record] } owed := by
    have hnext := hthis.append hstates record
    rwa [append_assoc, cons_append] at hnext
  refine ⟨rfl, h.fresh, fun hfulfilled => hsafe (h.fulfilled hfulfilled), ?_⟩
  intro hlive
  rcases h.live hlive with ⟨hpast, hthis⟩ | hruns
  · exact .inl ⟨hpast, hsafe hthis⟩
  · right
    have hquiet := hruns.quiet
    rw [forall_mem_snoc] at hquiet
    refine ⟨hruns.unsettled, hruns.promise, ?_, ?_⟩
    · have hbefore := hruns.owed_append record
      rw [flatMap_append, flatMap_singleton, append_assoc] at hbefore
      rw [flatMap_append, flatMap_singleton, (append_fields t record).2.2.2]
      exact hbefore
    · rw [forall_mem_snoc, rewriting_append]
      exact hquiet

theorem FlushCall.Known.append (h : call.Known stringify log) (hinv : OwnedLog.Inv stringify log)
    (hstates : log.states = pre ++ [s]) (hactive : s.retired = false) (record : R) :
    call.Known stringify
      { log with states := pre ++ [s.append record], owed := log.owed ++ [record] } := by
  have hs : Sound s := hinv.sound s (hstates ▸ mem_concat_self)
  rw [FlushCall.Known] at h ⊢
  cases hpromise : call.promise with
  | none =>
    rw [hpromise] at h
    exact Safe.append h hstates record
  | some promise =>
    obtain ⟨buffer, promise⟩ := promise
    rw [hpromise] at h
    cases promise with
    | none => trivial
    | some p =>
      obtain ⟨front, t, rest, rfl, hkept⟩ := h
      rcases locate (hkept.states.symm.trans hstates) with
        ⟨mid, _, hnil⟩ | ⟨rfl, hcons⟩ | ⟨x, mid, rfl, hcons⟩
      · simp at hnil
      · obtain ⟨rfl, rfl⟩ := cons_eq_cons.mp hcons
        exact ⟨front, t.append record, [], rfl, hkept.append hs hactive record⟩
      · obtain ⟨rfl, rfl⟩ := cons_eq_cons.mp hcons
        refine ⟨front, t, mid ++ [s.append record], rfl, ?_⟩
        rw [append_assoc]
        exact hkept.append_newer record

namespace OwnedLog.Flushed

variable (h : Flushed stringify log)

include h

theorem ensure : ∃ pre s, log.ensure.states = pre ++ [s] ∧ s.retired = false ∧
    Flushed stringify log.ensure ∧ log.ensure.calls = log.calls := by
  obtain ⟨pre, s, hstates, hactive, hinv, _, _, hcalls, hmem⟩ := h.inv.ensure
  refine ⟨pre, s, hstates, hactive, ⟨hinv, ?_, ?_⟩, hcalls⟩
  · intro x hx
    rcases hmem x hx with hold | rfl
    · exact h.numbered x hold
    · exact forall_mem_nil _
  · intro call hcall hnot
    rw [hcalls] at hcall
    have hknown := h.calls call hcall hnot
    rw [OwnedLog.ensure]
    split
    · exact hknown
    · exact hknown.add

theorem append (record : R) : Flushed stringify (log.append record) := by
  obtain ⟨pre, s, hstates, hactive, hensured, _⟩ := h.ensure
  obtain ⟨hflushes, hnext, _⟩ := append_fields s record
  rw [OwnedLog.append, OwnedLog.onLast_states hstates]
  refine ⟨hensured.inv.append hstates hactive record, ?_, ?_⟩
  · have hnumbered := hensured.numbered
    rw [hstates, forall_mem_snoc] at hnumbered
    rw [forall_mem_snoc]
    refine ⟨hnumbered.1, ?_⟩
    intro outcome houtcome
    rw [(append_promises s record).2] at houtcome
    rw [hflushes, hnext]
    exact hnumbered.2 outcome houtcome
  · exact fun call hcall hnot => (hensured.calls call hcall hnot).append hensured.inv hstates hactive record

theorem rewrite (hcondition : ∀ s ∈ log.states, s.retired = true → s.pending = []) (records : List R) :
    Flushed stringify (log.rewrite records) := by
  obtain ⟨pre, s, hstates, hactive, hinv, _, _, hcalls, hmem⟩ := h.inv.ensure
  obtain ⟨_, _, _, _, hensured, _⟩ := h.ensure
  have hlast : log.ensure.states.getLast? = some s := by
    rw [hstates, getLast?_append_cons]
    rfl
  have hpending : ∀ x ∈ pre, x.pending = [] := by
    intro x hx
    have hpairs := hinv.pairs
    rw [hstates, pairwise_append] at hpairs
    rcases hmem x (hstates ▸ mem_append_left _ hx) with hold | rfl
    · exact hcondition x hold (hpairs.2.2 x hx s (mem_singleton_self s)).1
    · rfl
  rw [OwnedLog.rewrite, OwnedLog.onLast_states hstates, hlast]
  refine ⟨hinv.rewrite hstates hactive hpending records _, ?_, ?_⟩
  · have hnumbered := hensured.numbered
    rw [hstates, forall_mem_snoc] at hnumbered
    rw [forall_mem_snoc]
    refine ⟨hnumbered.1, ?_⟩
    intro outcome houtcome
    obtain ⟨hlt, hnot⟩ := hnumbered.2 outcome houtcome
    refine ⟨Nat.lt_succ_of_lt hlt, ?_⟩
    rw [LogState.rewrite_flushes, map_append, map_singleton, mem_snoc, not_or]
    exact ⟨hnot, hlt.ne⟩
  · intro call hcall hnot
    obtain ⟨old, _, rfl⟩ := mem_map.mp hcall
    cases hnot

end OwnedLog.Flushed

theorem FlushCall.Known.with_calls (h : call.Known stringify log) (calls : List (FlushCall R)) :
    call.Known stringify { log with calls := calls } := by
  have hsafe {owed : List R} (hthis : Safe stringify log owed) :
      Safe stringify { log with calls := calls } owed := ⟨hthis.inFile, hthis.quiet⟩
  rw [FlushCall.Known] at h ⊢
  cases hpromise : call.promise with
  | none =>
    rw [hpromise] at h
    exact hsafe h
  | some promise =>
    obtain ⟨buffer, promise⟩ := promise
    rw [hpromise] at h
    cases promise with
    | none => trivial
    | some p =>
      obtain ⟨pre, s, post, hlength, hkept⟩ := h
      refine ⟨pre, s, post, hlength, hkept.states, hkept.fresh, fun hthis => hsafe (hkept.fulfilled hthis), ?_⟩
      intro hlive
      rcases hkept.live hlive with ⟨hpast, hthis⟩ | hruns
      · exact .inl ⟨hpast, hsafe hthis⟩
      · exact .inr { hruns with }

theorem OwnedLog.Inv.safe_of_none (hinv : OwnedLog.Inv stringify log) (hnone : log.entry = none) :
    Safe stringify log log.owed := by
  obtain ⟨past, current, hsplit, hpast, hrunning⟩ := hinv.running
  have hsettled (x : LogState R) (hlast : log.states.getLast? = some x) : x.retirement = some .settled := by
    by_contra hnot
    have hentry : log.entry = some x := filter_eq_some_iff.mpr ⟨hlast, decide_eq_true hnot⟩
    rw [hnone] at hentry
    cases hentry
  cases current with
  | nil =>
    obtain ⟨base, hfile⟩ := hrunning
    rw [append_nil] at hsplit
    constructor
    · exact ⟨base, [], by rw [hfile, append_nil]⟩
    · rw [hsplit]
      exact fun s hs => (hpast s hs).drained.not_rewriting
  | cons x waiting =>
    have hfront : Front stringify log.file log.owed x waiting := hrunning
    cases waiting using reverseRecOn with
    | nil =>
      apply absurd (hsettled x _) hfront.unsettled
      rw [hsplit, getLast?_append_cons]
      rfl
    | append_singleton waiting y =>
      have hy := hfront.unstarted y (mem_append_right _ (mem_singleton_self y))
      have hlast : log.states = (past ++ x :: waiting) ++ [y] := by
        rw [hsplit, append_assoc, cons_append]
      apply absurd (hsettled y _) hy.unsettled
      rw [hlast, getLast?_concat]

theorem flushState_promise (hpromise : s.flushState.2 = some p) : s.flushState.1.flushPromise = some p := by
  rw [LogState.flushState] at hpromise ⊢
  cases hcurrent : s.flushPromise with
  | some current =>
    rw [hcurrent] at hpromise
    exact hcurrent.trans hpromise
  | none =>
    rw [hcurrent] at hpromise
    dsimp only at hpromise ⊢
    split at hpromise
    · cases hpromise
    · rename_i hnot
      rw [if_neg hnot]
      exact hpromise

theorem OwnedLog.Flushed.flush (h : Flushed stringify log) : Flushed stringify log.flush := by
  rw [OwnedLog.flush]
  cases hentry : log.entry with
  | none =>
    have hsafe := h.inv.safe_of_none hentry
    refine ⟨⟨h.inv.sound, h.inv.pairs, h.inv.running⟩, h.numbered, ?_⟩
    intro call hcall hnot
    rcases mem_snoc.mp hcall with hold | rfl
    · exact (h.calls call hold hnot).with_calls _
    · exact ⟨hsafe.inFile, hsafe.quiet⟩
  | some s =>
    obtain ⟨hlast, hunsettled⟩ := filter_eq_some_iff.mp hentry
    obtain ⟨pre, hstates⟩ := getLast_states hlast
    have hs : Sound s := h.inv.sound s (hstates ▸ mem_concat_self)
    have hact : Act stringify (log.isReady pre.length) log.file s s.flushState.1 log.file := .flush
    have hflushed := h.act hstates hact
    have hnumbered := hflushed.numbered s.flushState.1 mem_concat_self
    rw [OwnedLog.onLast_states hstates]
    refine ⟨⟨hflushed.inv.sound, hflushed.inv.pairs, hflushed.inv.running⟩, hflushed.numbered, ?_⟩
    intro call hcall hnot
    rcases mem_snoc.mp hcall with hold | rfl
    · exact (hflushed.calls call hold hnot).with_calls _
    · cases hthis : s.flushState.2 with
      | none => trivial
      | some p =>
        have hpromise := flushState_promise hthis
        have hlive := promise_mem hs.ordered.flushState hpromise
        obtain ⟨flush, hmem, hid⟩ := mem_map.mp hlive
        refine ⟨pre, s.flushState.1, [], ?_, rfl, ?_, ?_, ?_⟩
        · rw [hstates, length_append, length_singleton, Nat.add_sub_cancel]
        · exact hid ▸ hs.ordered.flushState.fresh flush hmem
        · exact fun hfulfilled => absurd hlive (hnumbered _ hfulfilled).2
        · intro _
          right
          refine ⟨?_, hpromise, ⟨[], (append_nil _).symm, nil_suffix⟩, forall_mem_nil _⟩
          rw [(flushState_fields s).2.2.1]
          exact of_decide_eq_true hunsettled

end Echadron.Persistence

namespace Echadron.Persistence
open Lib List Option

variable {K R : Type} {stringify : R → Bytes} {log log' : OwnedLog R}

theorem OwnedLog.Flushed.step (h : Flushed stringify log)
    (hcondition : event.Undisturbed log) (hstep : log.step stringify event = some log') :
    Flushed stringify log' := by
  cases event with
  | append record =>
    cases hstep
    exact h.append record
  | rewrite records =>
    cases hstep
    exact h.rewrite hcondition records
  | acquire =>
    cases hstep
    obtain ⟨pre, s, hstates, hactive, hensured, _⟩ := h.ensure
    rw [OwnedLog.onLast_states hstates]
    exact hensured.act hstates (.acquire hactive)
  | release buffer =>
    obtain ⟨s, hs, hstep⟩ := bind_eq_some_iff.mp hstep
    split at hstep
    · rename_i hrefs
      cases hstep
      exact h.act_at hs (.release hrefs)
    · cases hstep
  | scheduled buffer =>
    obtain ⟨s, hs, hstep⟩ := bind_eq_some_iff.mp hstep
    obtain ⟨s', hrun, rfl⟩ := map_eq_some_iff.mp hstep
    exact h.act_at hs (.scheduled hrun)
  | resume buffer id =>
    obtain ⟨s, hs, hstep⟩ := bind_eq_some_iff.mp hstep
    obtain ⟨s', hresume, rfl⟩ := map_eq_some_iff.mp hstep
    exact h.act_at hs (.resume id hresume)
  | complete buffer id completion =>
    obtain ⟨s, hs, hstep⟩ := bind_eq_some_iff.mp hstep
    obtain ⟨next, hcomplete, rfl⟩ := map_eq_some_iff.mp hstep
    exact h.act_at hs (.complete id completion hcomplete)
  | retire buffer =>
    obtain ⟨s, hs, hstep⟩ := bind_eq_some_iff.mp hstep
    obtain ⟨s', hretire, rfl⟩ := map_eq_some_iff.mp hstep
    exact h.act_at hs (.retire hretire (hcondition s hs))

namespace AppendLogStore

variable {store store' : AppendLogStore K R} {files : K → Bytes}

def start (files : K → Bytes) : AppendLogStore K R := fun key => { file := files key }

def Resolved (store : AppendLogStore K R) (flush : Nat) : Prop :=
  ∀ key, ∀ call ∈ (store key).calls[flush]?, call.Resolved (store key)

def Undisturbed (store : AppendLogStore K R) : StoreEvent K R → Prop
  | .on key event => event.Undisturbed (store key)
  | .flush => True

instance Undisturbed.decidable [DecidableEq R] (store : AppendLogStore K R) :
    (event : StoreEvent K R) → Decidable (Undisturbed store event)
  | .on key event => inferInstanceAs (Decidable (event.Undisturbed (store key)))
  | .flush => isTrue trivial

theorem flushed_start (key : K) : OwnedLog.Flushed stringify ((start files : AppendLogStore K R) key) where
  inv :=
    { sound := forall_mem_nil _
      pairs := List.Pairwise.nil
      running := ⟨[], [], rfl, forall_mem_nil _, files key, (append_nil _).symm⟩ }
  numbered := forall_mem_nil _
  calls := forall_mem_nil _

theorem flushed_step [DecidableEq K] (h : ∀ key, OwnedLog.Flushed stringify (store key))
    (hcondition : Undisturbed store event) (hstep : store.step stringify event = some store') :
    ∀ key, OwnedLog.Flushed stringify (store' key) := by
  intro key
  cases event with
  | flush =>
    cases hstep
    exact (h key).flush
  | on other event =>
    obtain ⟨log, hlog, rfl⟩ := map_eq_some_iff.mp hstep
    by_cases hkey : key = other
    · subst hkey
      rw [Function.update_self]
      exact (h key).step hcondition hlog
    · rw [Function.update_of_ne hkey]
      exact h key

/-- What a flush that has resolved owes to a log is in its file, where no rewrite of the log has been
called since. -/
theorem inFile_of_resolved [DecidableEq K] {events : List (StoreEvent K R)}
    (hrun : events.foldlM (step stringify) (start files) = some store)
    (halong : AlongRun (step stringify) Undisturbed (start files) events) {flush : Nat}
    (hresolved : store.Resolved flush) {key : K} {call : FlushCall R}
    (hcall : (store key).calls[flush]? = some call) (hkept : call.overtaken = false) :
    ∃ before after, (store key).file = before ++ encodeBatch stringify call.owed ++ after := by
  have hflushed : ∀ key, OwnedLog.Flushed stringify (store key) :=
    halong.invariant (fun _ _ _ hs hp hstep => flushed_step hs hp hstep) flushed_start hrun
  have hknown := (hflushed key).calls call (mem_of_getElem? hcall) hkept
  exact hknown.inFile (hresolved key call hcall)

/-- A flush of a new owner waits for the records that the one before it has released. -/
def handedOff : List (StoreEvent Bool UInt8) :=
  [.on true .acquire, .on true (.append 1), .on true (.release 0), .on true (.append 2), .flush,
    .on true (.resume 0 0), .on true (.complete 0 0 .success), .on true (.resume 0 0),
    .on true (.resume 0 0), .on true (.retire 0), .on true (.resume 1 0),
    .on true (.complete 1 0 .success), .on true (.resume 1 0), .on true (.resume 1 0)]

def handedOffStore : AppendLogStore Bool UInt8 :=
  (handedOff.foldlM (step fun r => [r]) (start fun _ => [])).getD (start fun _ => [])

theorem inFile_of_handedOff : ∃ before after,
    (handedOffStore true).file = before ++ encodeBatch (fun r => [r]) [1, 2] ++ after := by
  have hrun : handedOff.foldlM (step fun r => [r]) (start fun _ => []) = some handedOffStore := rfl
  have hresolved : handedOffStore.Resolved 0 := by
    intro key
    cases key <;> decide +kernel
  have hcall : (handedOffStore true).calls[0]? = some ⟨some (1, some 0), [1, 2], false⟩ := rfl
  exact inFile_of_resolved hrun (by decide +kernel) hresolved hcall rfl

def overtakenFlush : List (StoreEvent Unit UInt8) :=
  [.on () (.append 1), .flush, .on () (.rewrite [9]), .on () (.resume 0 0), .on () (.resume 0 0)]

def overtakenStore : AppendLogStore Unit UInt8 :=
  (overtakenFlush.foldlM (step fun r => [r]) (start fun _ => [])).getD (start fun _ => [])

/-- The flush resolves with its record not in the file. -/
theorem overtakenFlush_resolves :
    overtakenFlush.foldlM (step fun r => [r]) (start fun _ => []) = some overtakenStore ∧
      overtakenStore.Resolved 0 ∧ ∃ call ∈ (overtakenStore ()).calls[0]?, call.owed = [1] ∧
        ¬∃ before after, (overtakenStore ()).file = before ++ encodeBatch (fun r => [r]) call.owed ++ after := by
  have hfile : (overtakenStore ()).file = [] := rfl
  refine ⟨rfl, ?_, ⟨some (0, some 0), [1], true⟩, rfl, rfl, ?_⟩
  · intro key
    cases key
    decide +kernel
  · rintro ⟨before, after, hthis⟩
    rw [hfile] at hthis
    simp [encodeBatch] at hthis

end AppendLogStore

end Echadron.Persistence
