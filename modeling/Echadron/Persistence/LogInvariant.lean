import Echadron.Persistence.Lineage

namespace Echadron.Persistence
open Lib List Option

variable {R : Type} {stringify : R → Bytes} {s s' w : LogState R} {file file' base : Bytes}
  {isReady : Bool} {owed later tail : List R} {waiting pre post : List (LogState R)} {log : OwnedLog R}

/-- A retired buffer stands before those that wait for it, and has no records where one of these is
about to be rewritten. -/
def Before (x w : LogState R) : Prop := x.retired = true ∧ (w.Rewriting → x.pending = [])

structure OwnedLog.Inv (stringify : R → Bytes) (log : OwnedLog R) : Prop where
  sound : ∀ s ∈ log.states, Sound s
  pairs : log.states.Pairwise Before
  running : ∃ past current, log.states = past ++ current ∧ (∀ s ∈ past, Past s) ∧
    Running stringify log.file log.owed current

theorem locate (h : past ++ current = pre ++ s :: post) :
    (∃ mid, past = pre ++ s :: mid ∧ post = mid ++ current) ∨ (past = pre ∧ current = s :: post) ∨
      ∃ x mid, pre = past ++ x :: mid ∧ current = x :: (mid ++ s :: post) := by
  rcases append_eq_append_iff.mp h with ⟨mid, hpre, hcurrent⟩ | ⟨mid, hpast, hrest⟩
  · cases mid with
    | nil =>
      right
      left
      rw [append_nil] at hpre
      exact ⟨hpre.symm, hcurrent⟩
    | cons x mid => exact .inr (.inr ⟨x, mid, hpre, hcurrent⟩)
  · cases mid with
    | nil =>
      right
      left
      rw [append_nil] at hpast
      exact ⟨hpast, hrest.symm⟩
    | cons x mid =>
      obtain ⟨rfl, rfl⟩ := cons_eq_cons.mp hrest
      exact .inl ⟨mid, hpast, rfl⟩

theorem pairwise_replace
    (h : (pre ++ a :: post).Pairwise r) (hleft : ∀ x, r x a → r x b) (hright : ∀ y, r a y → r b y) :
    (pre ++ b :: post).Pairwise r := by
  rw [pairwise_append, pairwise_cons] at h ⊢
  obtain ⟨hpre, ⟨ha, hpost⟩, hcross⟩ := h
  refine ⟨hpre, ⟨fun y hy => hright y (ha y hy), hpost⟩, ?_⟩
  intro x hx y hy
  rcases mem_cons.mp hy with rfl | hy
  · exact hleft x (hcross x hx a mem_cons_self)
  · exact hcross x hx y (mem_cons_of_mem _ hy)

theorem Follows.before_left (h : Follows s s') (hbefore : Before x s) : Before x s' :=
  ⟨hbefore.1, fun hrewriting => hbefore.2 (h.rewriting hrewriting)⟩

theorem Follows.before_right (h : Follows s s') (hbefore : Before s y) : Before s' y :=
  ⟨h.retired hbefore.1, fun hrewriting => suffix_nil.mp (hbefore.2 hrewriting ▸ h.pending)⟩

theorem Act.unsettled (hact : Act stringify isReady file s s' file') (ho : Ordered s)
    (h : s.retirement ≠ some .settled) :
    s'.retirement ≠ some .settled ∨ s.retire = some s' ∧ s.storageFailure = false ∧ file' = file := by
  cases hact with
  | retire hretire hfailure => exact .inr ⟨hretire, hfailure, rfl⟩
  | acquire hactive => exact .inl h
  | release hrefs =>
    left
    rw [LogState.release]
    split
    · exact h
    · simp
  | flush =>
    left
    rwa [(flushState_fields s).2.2.1]
  | scheduled hrun =>
    left
    obtain ⟨_, hrun⟩ := ite_none_right_eq_some.mp hrun
    cases hrun
    rwa [(flushState_fields { s with flushScheduled := false }).2.2.1]
  | resume id hresume =>
    left
    obtain ⟨operation, rest, _, hmove⟩ := ho.resume_cases hresume
    cases hmove <;> exact h
  | complete id completion hcomplete =>
    left
    obtain ⟨operation, operation', rest, _, rfl, _⟩ := ho.complete_cases hcomplete
    exact h

theorem Front.replace {mid : List (LogState R)} (h : Front stringify file owed s (mid ++ w :: post))
    {w' : LogState R} (hw : Unstarted w') (hpending : w'.pending = w.pending)
    (hrewriting : w'.Rewriting ↔ w.Rewriting) : Front stringify file owed s (mid ++ w' :: post) where
  unsettled := h.unsettled
  unstarted := by
    have hunstarted := h.unstarted
    rw [forall_mem_append, forall_mem_cons] at hunstarted ⊢
    exact ⟨hunstarted.1, hw, hunstarted.2.2⟩
  queued hsome := by
    have hqueued := h.queued
    simp only [mem_cons, mem_append, flatMap_cons, flatMap_append] at hqueued hsome ⊢
    rw [hpending]
    apply hqueued
    obtain ⟨x, hx, hthis⟩ := hsome
    rcases hx with rfl | hx | rfl | hx
    · exact ⟨x, .inl rfl, hthis⟩
    · exact ⟨x, .inr (.inl hx), hthis⟩
    · exact ⟨w, .inr (.inr (.inl rfl)), hrewriting.mp hthis⟩
    · exact ⟨x, .inr (.inr (.inr hx)), hthis⟩
  content hnone := by
    have hcontent := h.content
    rw [forall_mem_append, forall_mem_cons, flatMap_append] at hcontent
    rw [forall_mem_append, forall_mem_cons] at hnone
    rw [flatMap_append, flatMap_cons, hpending]
    exact hcontent ⟨hnone.1, fun hthis => hnone.2.1 (hrewriting.mpr hthis), hnone.2.2⟩

theorem OwnedLog.isReady_of_unsettled
    (hstates : log.states = pre ++ [x] ++ s :: post) (hx : x.retirement ≠ some .settled) :
    log.isReady (pre ++ [x]).length = false := by
  have hlast : log.states[(pre ++ [x]).length - 1]? = some x := by
    rw [hstates]
    simp
  rw [OwnedLog.isReady, hlast]
  simp [hx]

theorem OwnedLog.isReady_of_waiting
    (hstates : log.states = past ++ x :: mid ++ s :: post)
    (hfront : Front stringify file owed x (mid ++ s :: post)) :
    log.isReady (past ++ x :: mid).length = false := by
  have hunstarted := hfront.unstarted
  rw [forall_mem_append] at hunstarted
  cases mid using reverseRecOn with
  | nil => exact isReady_of_unsettled hstates hfront.unsettled
  | append_singleton mid y =>
    have hy := hunstarted.1 y (mem_append_right _ (mem_singleton_self y))
    have hstates' : log.states = past ++ x :: mid ++ [y] ++ s :: post := by
      rw [hstates]
      simp
    have hthis := isReady_of_unsettled hstates' hy.unsettled
    rwa [append_assoc] at hthis

namespace OwnedLog.Inv

variable (h : Inv stringify log)

include h

theorem act (hstates : log.states = pre ++ s :: post)
    (hact : Act stringify (log.isReady pre.length) log.file s s' file') :
    Inv stringify { log with states := pre ++ s' :: post, file := file' } := by
  have hs : Sound s := h.sound s (hstates ▸ mem_append_right _ mem_cons_self)
  have hfollows := Follows.act hs.ordered hact
  have hpairs := h.pairs
  rw [hstates] at hpairs
  constructor
  · have hsound := h.sound
    rw [hstates, forall_mem_append, forall_mem_cons] at hsound
    rw [forall_mem_append, forall_mem_cons]
    exact ⟨hsound.1, hs.act hact, hsound.2.2⟩
  · exact pairwise_replace hpairs (fun _ hb => hfollows.before_left hb) fun _ hb => hfollows.before_right hb
  · obtain ⟨past, current, hsplit, hpast, hrunning⟩ := h.running
    rcases locate (hsplit.symm.trans hstates) with ⟨mid, rfl, rfl⟩ | ⟨rfl, rfl⟩ | ⟨x, mid, rfl, rfl⟩
    · rw [forall_mem_append, forall_mem_cons] at hpast
      obtain ⟨hpre, hthis, hmid⟩ := hpast
      obtain ⟨hthis', rfl⟩ := hthis.act hs hact
      refine ⟨pre ++ s' :: mid, current, by simp, ?_, hrunning⟩
      rw [forall_mem_append, forall_mem_cons]
      exact ⟨hpre, hthis', hmid⟩
    · have hfront : Front stringify log.file log.owed s post := hrunning
      rcases hact.unsettled hs.ordered hfront.unsettled with hunsettled | ⟨hretire, hfailure, rfl⟩
      · refine ⟨past, s' :: post, rfl, hpast, ?_⟩
        apply hfront.act hs _ hact hunsettled
        intro w hw
        rw [pairwise_append, pairwise_cons] at hpairs
        exact (hpairs.2.1.1 w hw).2
      · obtain ⟨hthis, hnext⟩ := hfront.retire hs hretire hfailure
        refine ⟨past ++ [s'], post, by simp, ?_, hnext⟩
        rw [forall_mem_snoc]
        exact ⟨hpast, hthis⟩
    · have hfront : Front stringify log.file log.owed x (mid ++ s :: post) := hrunning
      have hunstarted := hfront.unstarted
      rw [forall_mem_append, forall_mem_cons] at hunstarted
      have hready := isReady_of_waiting hstates hfront
      rw [hready] at hact
      obtain ⟨hthis, rfl, hpending, hkept⟩ := hunstarted.2.1.act hs hact
      refine ⟨past, x :: (mid ++ s' :: post), by simp, hpast, ?_⟩
      apply hfront.replace hthis hpending
      refine ⟨hfollows.rewriting, ?_⟩
      rintro ⟨flush, hflush, hsome⟩
      exact ⟨flush, hkept flush hflush, hsome⟩

/-- A new buffer waits for those that are there. -/
theorem add (hretired : ∀ x ∈ log.states, x.retired = true) :
    Inv stringify { log with states := log.states ++ [{}] } := by
  constructor
  · rw [forall_mem_snoc]
    exact ⟨h.sound, .empty⟩
  · rw [pairwise_append]
    refine ⟨h.pairs, pairwise_singleton _ _, ?_⟩
    intro x hx y hy
    obtain rfl := mem_singleton.mp hy
    refine ⟨hretired x hx, ?_⟩
    rintro ⟨flush, hflush, _⟩
    cases hflush
  · obtain ⟨past, current, hsplit, hpast, hrunning⟩ := h.running
    refine ⟨past, current ++ [({} : LogState R)], by rw [hsplit, append_assoc], hpast, ?_⟩
    cases current with
    | nil =>
      obtain ⟨base, hfile⟩ := hrunning
      refine ⟨by simp, forall_mem_nil _, ?_, ?_⟩
      · rintro ⟨w, hw, flush, hflush, _⟩
        obtain rfl := mem_singleton.mp hw
        cases hflush
      · intro _
        refine ⟨base, fun _ _ => ⟨log.owed, ?_, ?_⟩, ?_⟩
        · simp
        · rw [append_nil]
          exact hfile
        · intro flush hsingle
          cases hsingle
    | cons x waiting =>
      have hfront : Front stringify log.file log.owed x waiting := hrunning
      rw [cons_append]
      refine ⟨hfront.unsettled, ?_, ?_, ?_⟩
      · rw [forall_mem_snoc]
        exact ⟨hfront.unstarted, .empty⟩
      · rintro ⟨w, hw, hrewriting⟩
        have hold : w ∈ x :: waiting := by
          rw [mem_cons, mem_snoc] at hw
          rcases hw with rfl | hw | rfl
          · exact mem_cons_self
          · exact mem_cons_of_mem _ hw
          · obtain ⟨flush, hflush, _⟩ := hrewriting
            cases hflush
        rw [hfront.queued ⟨w, hold, hrewriting⟩]
        simp
      · intro hnone
        rw [forall_mem_append] at hnone
        obtain ⟨base, hcontent⟩ := hfront.content hnone.1
        refine ⟨base, ?_⟩
        simpa using hcontent

end OwnedLog.Inv

theorem getLast_states (hlast : log.states.getLast? = some x) : ∃ pre, log.states = pre ++ [x] :=
  ⟨_, (dropLast_append_getLast? x hlast).symm⟩

theorem OwnedLog.onLast_states (hstates : log.states = pre ++ [s]) :
    log.onLast f = { log with states := pre ++ [f s] } := by
  rw [OwnedLog.onLast, hstates, modifyLast_concat]

theorem OwnedLog.Inv.ensure (h : Inv stringify log) : ∃ pre s, log.ensure.states = pre ++ [s] ∧
    s.retired = false ∧ Inv stringify log.ensure ∧ log.ensure.file = log.file ∧
    log.ensure.owed = log.owed ∧ log.ensure.calls = log.calls ∧
    ∀ x ∈ log.ensure.states, x ∈ log.states ∨ x = {} := by
  rw [OwnedLog.ensure]
  split
  · rename_i hany
    obtain ⟨s, hentry, hactive⟩ := (Option.any_eq_true ..).mp hany
    obtain ⟨hlast, _⟩ := filter_eq_some_iff.mp hentry
    obtain ⟨pre, hpre⟩ := getLast_states hlast
    exact ⟨pre, s, hpre, of_decide_eq_true hactive, h, rfl, rfl, rfl, fun x hx => .inl hx⟩
  · rename_i hany
    have hretired : ∀ x ∈ log.states, x.retired = true := by
      cases hlast : log.states.getLast? with
      | none =>
        rw [getLast?_eq_none_iff.mp hlast]
        exact forall_mem_nil _
      | some last =>
        obtain ⟨pre, hpre⟩ := getLast_states hlast
        have hpairs := h.pairs
        have hsound := h.sound
        rw [hpre, pairwise_append] at hpairs
        rw [hpre, forall_mem_snoc] at hsound ⊢
        refine ⟨fun x hx => (hpairs.2.2 x hx last (mem_singleton_self last)).1, ?_⟩
        by_contra hactive
        have hactive : last.retired = false := Bool.eq_false_iff.mpr hactive
        apply hany
        apply (Option.any_eq_true ..).mpr
        refine ⟨last, ?_, decide_eq_true hactive⟩
        apply filter_eq_some_iff.mpr
        refine ⟨hlast, decide_eq_true ?_⟩
        rw [hsound.2.retirement_of_active hactive]
        simp
    refine ⟨log.states, {}, rfl, rfl, h.add hretired, rfl, rfl, rfl, ?_⟩
    intro x hx
    exact (mem_append.mp hx).imp_right mem_singleton.mp

/-! Appends and rewrites go to the newest buffer. -/

theorem Content.more (h : Content stringify file base tail later s) (more : List R) :
    Content stringify file base (tail ++ more) (later ++ more) s := by
  have hclean {unacked : List R} (hthis : Clean stringify file base tail later unacked s) :
      Clean stringify file base (tail ++ more) (later ++ more) unacked s := by
    obtain ⟨done, htail, hfile⟩ := hthis
    refine ⟨done, ?_, hfile⟩
    rw [htail]
    simp
  constructor
  · exact fun hnil hfailure => hclean (h.quiet hnil hfailure)
  · intro flush hsingle
    have hholds := h.single flush hsingle
    cases hoperation : flush.operation with
    | ready epoch =>
      rw [hoperation] at hholds
      exact ⟨hholds.1, hclean hholds.2⟩
    | appending epoch batch =>
      rw [hoperation] at hholds
      exact ⟨hholds.1, hclean hholds.2.1, hholds.2.2⟩
    | appended epoch batch ok =>
      rw [hoperation] at hholds
      exact ⟨hholds.1, fun hok => ⟨(hholds.2 hok).1, hclean (hholds.2 hok).2⟩⟩
    | settled ok =>
      rw [hoperation] at hholds
      exact fun hok => ⟨(hholds hok).1, hclean (hholds hok).2⟩
    | written records ok =>
      rw [hoperation] at hholds
      exact hholds
    | behind prior records => trivial
    | writing records => trivial

theorem rewriting_append (s : LogState R) (record : R) : (s.append record).Rewriting ↔ s.Rewriting := by
  rw [LogState.Rewriting, LogState.Rewriting, (append_fields s record).1]

theorem append_retired (s : LogState R) (record : R) : (s.append record).retired = s.retired ∧
    (s.append record).retirement = s.retirement := by
  rw [LogState.append, LogState.scheduleFlush]
  split <;> exact ⟨rfl, rfl⟩

namespace OwnedLog.Inv

variable (h : Inv stringify log)

include h

section

variable (hstates : log.states = pre ++ [s]) (hactive : s.retired = false)
include hstates hactive

theorem newest : ∃ past current, log.states = past ++ current ∧ (∀ s ∈ past, Past s) ∧
      (past = pre ∧ current = [s] ∧ Front stringify log.file log.owed s [] ∨
        ∃ x mid, pre = past ++ x :: mid ∧ current = x :: (mid ++ [s]) ∧
          Front stringify log.file log.owed x (mid ++ [s])) := by
  obtain ⟨past, current, hsplit, hpast, hrunning⟩ := h.running
  refine ⟨past, current, hsplit, hpast, ?_⟩
  rcases locate (hsplit.symm.trans hstates) with ⟨mid, rfl, _⟩ | ⟨rfl, rfl⟩ | ⟨x, mid, rfl, rfl⟩
  · have hthis := hpast s (mem_append_right _ mem_cons_self)
    have hs : Sound s := h.sound s (hstates ▸ mem_concat_self)
    have hretires := hs.retires
    rw [hactive, hthis.settled] at hretires
    cases hretires
  · exact .inl ⟨rfl, rfl, hrunning⟩
  · exact .inr ⟨x, mid, rfl, rfl, hrunning⟩

theorem append (record : R) :
    Inv stringify { log with states := pre ++ [s.append record], owed := log.owed ++ [record] } := by
  have hpairs := h.pairs
  have hsound := h.sound
  obtain ⟨hretired, hretirement⟩ := append_retired s record
  obtain ⟨_, _, hfailure, hpending⟩ := append_fields s record
  rw [hstates, forall_mem_snoc] at hsound
  rw [hstates] at hpairs
  constructor
  · rw [forall_mem_snoc]
    exact ⟨hsound.1, hsound.2.of_active hactive (hsound.2.ordered.append record) hretired hretirement⟩
  · apply pairwise_replace hpairs
    · exact fun x hbefore => ⟨hbefore.1, fun hr => hbefore.2 ((rewriting_append s record).mp hr)⟩
    · intro y hbefore
      rw [hbefore.1] at hactive
      cases hactive
  · obtain ⟨past, current, hsplit, hpast, ⟨rfl, rfl, hfront⟩ | ⟨x, mid, rfl, rfl, hfront⟩⟩ :=
      h.newest hstates hactive
    · refine ⟨past, [s.append record], rfl, hpast, ?_, forall_mem_nil _, ?_, ?_⟩
      · rw [hretirement]
        exact hfront.unsettled
      · rintro ⟨w, hw, hrewriting⟩
        obtain rfl := mem_singleton.mp hw
        have hqueued := hfront.queued ⟨s, mem_cons_self, (rewriting_append s record).mp hrewriting⟩
        rw [hqueued]
        simp [hpending]
      · intro _
        obtain ⟨base, hcontent⟩ := hfront.content (forall_mem_nil _)
        exact ⟨base, hcontent.append record⟩
    · refine ⟨past, x :: (mid ++ [s.append record]), by simp, hpast, hfront.unsettled, ?_, ?_, ?_⟩
      · have hunstarted := hfront.unstarted
        rw [forall_mem_snoc] at hunstarted ⊢
        exact ⟨hunstarted.1, hunstarted.2.append record⟩
      · rintro ⟨w, hw, hrewriting⟩
        have hold : ∃ w ∈ x :: (mid ++ [s]), w.Rewriting := by
          rw [mem_cons, mem_snoc] at hw
          rcases hw with rfl | hw | rfl
          · exact ⟨w, mem_cons_self, hrewriting⟩
          · exact ⟨w, mem_cons_of_mem _ (mem_append_left _ hw), hrewriting⟩
          · exact ⟨s, by simp, (rewriting_append s record).mp hrewriting⟩
        rw [hfront.queued hold]
        simp [hpending]
      · intro hnone
        rw [forall_mem_snoc, rewriting_append] at hnone
        obtain ⟨base, hcontent⟩ := hfront.content (by
          rw [forall_mem_snoc]
          exact hnone)
        have hlater := hcontent.more [record]
        refine ⟨base, ?_⟩
        simpa [hpending] using hlater

theorem rewrite (hpending : ∀ x ∈ pre, x.pending = []) (records : List R) (calls : List (FlushCall R)) :
    Inv stringify { log with states := pre ++ [s.rewrite records], owed := s.pending, calls := calls } := by
  have hpairs := h.pairs
  have hsound := h.sound
  rw [hstates, forall_mem_snoc] at hsound
  rw [hstates] at hpairs
  have hrewriting : (s.rewrite records).Rewriting := by
    refine ⟨⟨s.nextId, .behind s.flushPromise records⟩, ?_, rfl⟩
    exact mem_concat_self
  constructor
  · rw [forall_mem_snoc]
    exact ⟨hsound.1, hsound.2.of_active hactive (hsound.2.ordered.rewrite records) rfl rfl⟩
  · rw [pairwise_append] at hpairs ⊢
    refine ⟨hpairs.1, pairwise_singleton _ _, ?_⟩
    intro x hx y hy
    exact ⟨(hpairs.2.2 x hx s (mem_singleton_self s)).1, fun _ => hpending x hx⟩
  · obtain ⟨past, current, hsplit, hpast, ⟨rfl, rfl, hfront⟩ | ⟨x, mid, rfl, rfl, hfront⟩⟩ :=
      h.newest hstates hactive
    · refine ⟨past, [s.rewrite records], rfl, hpast, hfront.unsettled, forall_mem_nil _, ?_, ?_⟩
      · intro _
        simp [LogState.rewrite, LogState.ownFlush]
      · exact fun _ => ⟨[], Content.rewrite s records⟩
    · refine ⟨past, x :: (mid ++ [s.rewrite records]), by simp, hpast, hfront.unsettled, ?_, ?_, ?_⟩
      · have hunstarted := hfront.unstarted
        rw [forall_mem_snoc] at hunstarted ⊢
        exact ⟨hunstarted.1, hunstarted.2.rewrite hsound.2.ordered records⟩
      · intro _
        rw [forall_mem_append, forall_mem_cons] at hpending
        have hmid : mid.flatMap LogState.pending = [] := flatMap_eq_nil_iff.mpr hpending.2.2
        rw [flatMap_cons, flatMap_append, hpending.2.1, hmid]
        simp [LogState.rewrite, LogState.ownFlush]
      · intro hnone
        exact absurd hrewriting (hnone _ (by simp))

end

end OwnedLog.Inv

end Echadron.Persistence
