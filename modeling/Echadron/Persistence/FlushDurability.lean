import Echadron.Persistence.LogInvariant

namespace Echadron.Persistence
open Lib List

variable {R : Type} {stringify : R → Bytes} {s s' t t' w : LogState R} {file file' base : Bytes}
  {isReady : Bool} {pre mid post : List (LogState R)} {log : OwnedLog R} {call : FlushCall R}

/-! What becomes of the promise of a flush. -/

/-- The numbers of settled promises are not used again. -/
def Numbered (s : LogState R) : Prop :=
  ∀ outcome ∈ s.outcomes, outcome.1 < s.nextId ∧ outcome.1 ∉ s.flushes.map OwnedFlush.id

theorem Act.settles (ho : Ordered s) (hact : Act stringify isReady file s s' file') :
    s'.outcomes = s.outcomes ∨ ∃ id ok rest, s.flushes = ⟨id, .settled ok⟩ :: rest ∧
      s'.outcomes = s.outcomes ++ [(id, ok)] ∧ s'.flushes = rest ∧ file' = file ∧
      (s.flushPromise = some id → ok = true → s.pending = []) := by
  cases hact with
  | acquire hactive => exact .inl rfl
  | release hrefs =>
    left
    rw [LogState.release]
    split
    · rfl
    · exact (flushState_fields { s with refCount := s.refCount - 1, retired := true }).2.2.2.2.2
  | flush => exact .inl (flushState_fields s).2.2.2.2.2
  | scheduled hrun =>
    left
    obtain ⟨_, hrun⟩ := Option.ite_none_right_eq_some.mp hrun
    cases hrun
    exact (flushState_fields { s with flushScheduled := false }).2.2.2.2.2
  | resume id hresume =>
    obtain ⟨operation, rest, hflushes, hmove⟩ := ho.resume_cases hresume
    cases hmove with
    | done ok hpromise hpending =>
      right
      exact ⟨id, ok, rest, hflushes, rfl,
        ho.settle_head (t := { s with flushPromise := none }) rfl hflushes ok, rfl, fun _ => hpending⟩
    | handed ok hpromise =>
      right
      exact ⟨id, ok, rest, hflushes, rfl, ho.settle_head rfl hflushes ok, rfl, fun h => absurd h hpromise⟩
    | _ => exact .inl rfl
  | complete id completion hcomplete =>
    obtain ⟨operation, operation', rest, _, rfl, _⟩ := ho.complete_cases hcomplete
    exact .inl rfl
  | retire hretire hfailure =>
    obtain ⟨promise, _, _, rfl⟩ := retire_cases hretire
    exact .inl rfl

theorem Numbered.act (h : Numbered s) (ho : Ordered s) (hact : Act stringify isReady file s s' file') :
    Numbered s' := by
  have hfollows := Follows.act ho hact
  have hold (outcome : Nat × Bool) (hthis : outcome ∈ s.outcomes) :
      outcome.1 < s'.nextId ∧ outcome.1 ∉ s'.flushes.map OwnedFlush.id := by
    obtain ⟨hlt, hnot⟩ := h outcome hthis
    refine ⟨hlt.trans_le hfollows.nextId, ?_⟩
    intro hmem
    rcases hfollows.ids _ hmem with hthere | hnew
    · exact hnot hthere
    · omega
  intro outcome houtcome
  rcases hact.settles ho with hsame | ⟨id, ok, rest, hflushes, houtcomes, hrest, _⟩
  · rw [hsame] at houtcome
    exact hold outcome houtcome
  · rw [houtcomes] at houtcome
    rcases mem_snoc.mp houtcome with hthis | rfl
    · exact hold outcome hthis
    · have hfresh := ho.fresh _ (hflushes ▸ mem_cons_self)
      have hnodup := ho.nodup
      rw [hflushes, map_cons, nodup_cons] at hnodup
      rw [hrest]
      exact ⟨hfresh.trans_le hfollows.nextId, hnodup.1⟩

theorem Act.promise_kept (ho : Ordered s) (hact : Act stringify isReady file s s' file')
    (hpromise : s.flushPromise = some p) (hlive : p ∈ s'.flushes.map OwnedFlush.id) :
    s'.flushPromise = some p := by
  have hflushState {u : LogState R} (hu : u.flushPromise = some p) : u.flushState.1.flushPromise = some p := by
    rw [LogState.flushState, hu]
    exact hu
  cases hact with
  | acquire hactive => exact hpromise
  | release hrefs =>
    rw [LogState.release]
    split
    · exact hpromise
    · exact hflushState (u := { s with refCount := s.refCount - 1, retired := true }) hpromise
  | flush => exact hflushState hpromise
  | scheduled hrun =>
    obtain ⟨_, hrun⟩ := Option.ite_none_right_eq_some.mp hrun
    cases hrun
    exact hflushState (u := { s with flushScheduled := false }) hpromise
  | resume id hresume =>
    obtain ⟨operation, rest, hflushes, hmove⟩ := ho.resume_cases hresume
    cases hmove with
    | done ok hthis hpending =>
      rw [ho.settle_head (t := { s with flushPromise := none }) rfl hflushes ok,
        (ho.promise_iff hflushes).mp hthis] at hlive
      cases hlive
    | _ => exact hpromise
  | complete id completion hcomplete =>
    obtain ⟨operation, operation', rest, _, rfl, _⟩ := ho.complete_cases hcomplete
    exact hpromise
  | retire hretire hfailure =>
    obtain ⟨promise, _, _, rfl⟩ := retire_cases hretire
    exact hpromise

/-- The file holds the records, and no rewrite is about to replace it. -/
structure Safe (stringify : R → Bytes) (log : OwnedLog R) (owed : List R) : Prop where
  inFile : ∃ before after, log.file = before ++ encodeBatch stringify owed ++ after
  quiet : ∀ s ∈ log.states, ¬s.Rewriting

theorem Drained.not_rewriting (h : Drained s) : ¬s.Rewriting := by
  rintro ⟨flush, hflush, hsome⟩
  have hidle := h.idle flush hflush
  cases hoperation : flush.operation with
  | ready epoch =>
    rw [hoperation] at hsome
    cases hsome
  | settled ok =>
    rw [hoperation] at hsome
    cases hsome
  | _ =>
    rw [hoperation] at hidle
    exact hidle.elim

theorem Act.grows (ho : Ordered s) (hact : Act stringify isReady file s s' file') (hnot : ¬s.Rewriting) :
    ∃ more, file' = file ++ more := by
  cases hact with
  | complete id completion hcomplete =>
    obtain ⟨operation, operation', rest, hflushes, _, hends⟩ := ho.complete_cases hcomplete
    rcases hends with ⟨epoch, batch, _, _, rfl⟩ | ⟨records, rfl, _, _⟩
    · split
      · exact ⟨_, rfl⟩
      · exact ⟨[], (append_nil _).symm⟩
    · exact absurd ⟨_, hflushes ▸ mem_cons_self, rfl⟩ hnot
  | _ => exact ⟨[], (append_nil _).symm⟩

theorem Safe.act (h : Safe stringify log owed) (hstates : log.states = pre ++ s :: post)
    (ho : Ordered s) (hact : Act stringify isReady log.file s s' file') :
    Safe stringify { log with states := pre ++ s' :: post, file := file' } owed := by
  have hquiet := h.quiet
  rw [hstates, forall_mem_append, forall_mem_cons] at hquiet
  constructor
  · obtain ⟨before, after, hfile⟩ := h.inFile
    obtain ⟨more, hmore⟩ := hact.grows ho hquiet.2.1
    refine ⟨before, after ++ more, ?_⟩
    rw [hmore, hfile, append_assoc _ after]
  · rw [forall_mem_append, forall_mem_cons]
    exact ⟨hquiet.1, fun hr => hquiet.2.1 ((Follows.act ho hact).rewriting hr), hquiet.2.2⟩

/-- A flush that runs is the newest of its buffer, and what it owes stands before what waits in later
buffers. -/
structure FlushRuns (log : OwnedLog R) (owed : List R) (s : LogState R) (post : List (LogState R))
    (p : Nat) : Prop where
  unsettled : s.retirement ≠ some .settled
  promise : s.flushPromise = some p
  before : ∃ more, log.owed = owed ++ more ∧ post.flatMap LogState.pending <:+ more
  quiet : ∀ w ∈ post, ¬w.Rewriting

/-- What is known of a flush that no rewrite has overtaken. -/
structure Kept (stringify : R → Bytes) (log : OwnedLog R) (owed : List R) (pre : List (LogState R))
    (s : LogState R) (post : List (LogState R)) (p : Nat) : Prop where
  states : log.states = pre ++ s :: post
  fresh : p < s.nextId
  fulfilled : (p, true) ∈ s.outcomes → Safe stringify log owed
  live : p ∈ s.flushes.map OwnedFlush.id → Past s ∧ Safe stringify log owed ∨ FlushRuns log owed s post p

theorem inFile_of_clean (hclean : Clean stringify file base log.owed later [] s)
    (hpending : s.pending = []) (hbefore : ∃ more, log.owed = owed ++ more ∧ later <:+ more) :
    ∃ before after, file = before ++ encodeBatch stringify owed ++ after := by
  obtain ⟨done, htail, hfile⟩ := hclean
  obtain ⟨more, howed, rest, rfl⟩ := hbefore
  have hdone : done = owed ++ rest := by
    rw [hpending, howed, ← append_assoc] at htail
    exact (append_cancel_right htail).symm
  refine ⟨base, encodeBatch stringify rest, ?_⟩
  rw [hfile, hdone, append_nil, encodeBatch_append, append_assoc]

namespace Kept

variable {owed : List R} {p : Nat} (h : Kept stringify log owed pre s post p)
  (hinv : OwnedLog.Inv stringify log)

include h hinv

theorem sound : Sound s := hinv.sound s (h.states ▸ mem_append_right _ mem_cons_self)

omit h in
theorem front (hstates : log.states = pre ++ s :: post) (hunsettled : s.retirement ≠ some .settled) :
    (∀ x ∈ pre, Past x) ∧ Front stringify log.file log.owed s post ∨
      Unstarted s ∧ log.isReady pre.length = false := by
  obtain ⟨past, current, hsplit, hpast, hrunning⟩ := hinv.running
  rcases locate (hsplit.symm.trans hstates) with ⟨mid, rfl, _⟩ | ⟨rfl, rfl⟩ | ⟨x, mid, rfl, rfl⟩
  · exact absurd (hpast s (mem_append_right _ mem_cons_self)).settled hunsettled
  · exact .inl ⟨hpast, hrunning⟩
  · have hfront : Front stringify log.file log.owed x (mid ++ s :: post) := hrunning
    right
    exact ⟨hfront.unstarted s (mem_append_right _ mem_cons_self), OwnedLog.isReady_of_waiting hstates hfront⟩

omit h hinv in
theorem quiet_of_drained (hpre : ∀ x ∈ pre, Past x) (ht : Drained t)
    (hpost : ∀ w ∈ post, ¬w.Rewriting) : ∀ x ∈ pre ++ t :: post, ¬x.Rewriting := by
  rw [forall_mem_append, forall_mem_cons]
  exact ⟨fun x hx => (hpre x hx).drained.not_rewriting, ht.not_rewriting, hpost⟩

theorem of_settled (hruns : FlushRuns log owed s post p)
    (hflushes : s.flushes = ⟨p, .settled true⟩ :: rest) (hrest : s'.flushes = rest)
    (hpending : s.pending = []) (hpending' : s'.pending = []) :
    Safe stringify { log with states := pre ++ s' :: post } owed := by
  have hs := h.sound hinv
  obtain rfl := (hs.ordered.promise_iff hflushes).mp hruns.promise
  rcases front hinv h.states hruns.unsettled with ⟨hpre, hfront⟩ | ⟨hunstarted, _⟩
  · obtain ⟨base, hcontent⟩ := hfront.content hruns.quiet
    have hclean := (hcontent.single _ hflushes rfl).2
    refine ⟨inFile_of_clean hclean hpending hruns.before, ?_⟩
    apply quiet_of_drained hpre ⟨hpending', ?_⟩ hruns.quiet
    rw [hrest]
    exact forall_mem_nil _
  · have hstart := hunstarted.starts _ (hflushes ▸ mem_cons_self)
    simp at hstart

theorem of_retired (hruns : FlushRuns log owed s post p) (hretire : s.retire = some s')
    (hfailure : s.storageFailure = false) :
    Past s' ∧ Safe stringify { log with states := pre ++ s' :: post } owed := by
  have hs := h.sound hinv
  rcases front hinv h.states hruns.unsettled with ⟨hpre, hfront⟩ | ⟨hunstarted, _⟩
  · obtain ⟨hpast, _⟩ := hfront.retire hs hretire hfailure
    obtain ⟨promise, _, _, rfl⟩ := retire_cases hretire
    have hdrained : Drained s := ⟨hpast.drained.pending, hpast.drained.idle⟩
    obtain ⟨base, hcontent⟩ := hfront.content hruns.quiet
    have hclean := hcontent.clean hs.ordered hdrained hfailure
    exact ⟨hpast, inFile_of_clean hclean hdrained.pending hruns.before,
      quiet_of_drained hpre hpast.drained hruns.quiet⟩
  · obtain ⟨promise, hretirement, hgone, _⟩ := retire_cases hretire
    obtain ⟨q, hq, hmem⟩ := hunstarted.awaits promise hretirement
    exact absurd hmem (hgone q hq)

theorem act (hact : Act stringify (log.isReady pre.length) log.file s s' file') :
    Kept stringify { log with states := pre ++ s' :: post, file := file' } owed pre s' post p := by
  have hs := h.sound hinv
  have hfollows := Follows.act hs.ordered hact
  have hsafe (hthis : Safe stringify log owed) :
      Safe stringify { log with states := pre ++ s' :: post, file := file' } owed :=
    hthis.act h.states hs.ordered hact
  refine ⟨rfl, h.fresh.trans_le hfollows.nextId, ?_, ?_⟩
  · intro hfulfilled
    rcases hact.settles hs.ordered with hsame | ⟨id, ok, rest, hflushes, houtcomes, hrest, rfl, hpending⟩
    · exact hsafe (h.fulfilled (hsame ▸ hfulfilled))
    · rw [houtcomes] at hfulfilled
      rcases mem_snoc.mp hfulfilled with hold | hnew
      · exact hsafe (h.fulfilled hold)
      · obtain ⟨rfl, rfl⟩ := Prod.mk.inj hnew
        have hmem : p ∈ s.flushes.map OwnedFlush.id := by
          rw [hflushes]
          exact mem_cons_self
        rcases h.live hmem with ⟨_, hthis⟩ | hruns
        · exact hsafe hthis
        · have hnil := hpending hruns.promise rfl
          exact h.of_settled hinv hruns hflushes hrest hnil (suffix_nil.mp (hnil ▸ hfollows.pending))
  · intro hlive
    have hold : p ∈ s.flushes.map OwnedFlush.id := by
      rcases hfollows.ids p hlive with hold | hnew
      · exact hold
      · exact absurd h.fresh hnew.not_gt
    rcases h.live hold with ⟨hpast, hthis⟩ | hruns
    · exact .inl ⟨(hpast.act hs hact).1, hsafe hthis⟩
    · rcases hact.unsettled hs.ordered hruns.unsettled with hunsettled | ⟨hretire, hfailure, rfl⟩
      · exact .inr ⟨hunsettled, hact.promise_kept hs.ordered hruns.promise hlive, hruns.before, hruns.quiet⟩
      · exact .inl (h.of_retired hinv hruns hretire hfailure)

theorem act_left (hpre : pre = pre' ++ t :: mid)
    (hact : Act stringify (log.isReady pre'.length) log.file t t' file') :
    Kept stringify { log with states := pre' ++ t' :: mid ++ s :: post, file := file' } owed
      (pre' ++ t' :: mid) s post p := by
  have hstates : log.states = pre' ++ t :: (mid ++ s :: post) := by
    rw [h.states, hpre]
    simp
  have ht : Sound t := hinv.sound t (hstates ▸ mem_append_right _ mem_cons_self)
  have hsafe (hthis : Safe stringify log owed) :
      Safe stringify { log with states := pre' ++ t' :: mid ++ s :: post, file := file' } owed := by
    have hnext := hthis.act hstates ht.ordered hact
    rwa [← cons_append, ← append_assoc] at hnext
  refine ⟨rfl, h.fresh, fun hfulfilled => hsafe (h.fulfilled hfulfilled), ?_⟩
  intro hlive
  rcases h.live hlive with ⟨hpast, hthis⟩ | hruns
  · exact .inl ⟨hpast, hsafe hthis⟩
  · exact .inr { hruns with }

theorem act_right (hpost : post = mid ++ t :: post')
    (hact : Act stringify (log.isReady (pre ++ s :: mid).length) log.file t t' file') :
    Kept stringify { log with states := pre ++ s :: (mid ++ t' :: post'), file := file' } owed
      pre s (mid ++ t' :: post') p := by
  have hstates : log.states = pre ++ s :: mid ++ t :: post' := by
    rw [h.states, hpost]
    simp
  have ht : Sound t := hinv.sound t (hstates ▸ mem_append_right _ mem_cons_self)
  have hfollows := Follows.act ht.ordered hact
  have hsafe (hthis : Safe stringify log owed) :
      Safe stringify { log with states := pre ++ s :: (mid ++ t' :: post'), file := file' } owed := by
    have hnext := hthis.act hstates ht.ordered hact
    rwa [append_assoc, cons_append] at hnext
  refine ⟨rfl, h.fresh, fun hfulfilled => hsafe (h.fulfilled hfulfilled), ?_⟩
  intro hlive
  rcases h.live hlive with ⟨hpast, hthis⟩ | hruns
  · exact .inl ⟨hpast, hsafe hthis⟩
  · right
    have hunstarted : Unstarted t ∧ log.isReady (pre ++ s :: mid).length = false := by
      obtain ⟨past, current, hsplit, hpast, hrunning⟩ := hinv.running
      have hnot : s ∉ past := fun hs => hruns.unsettled (hpast s hs).settled
      rcases locate (hsplit.symm.trans hstates) with ⟨_, rfl, _⟩ | ⟨rfl, _⟩ | ⟨x, mid', hmid, rfl⟩
      · exact absurd (mem_append_left _ (mem_append_right _ mem_cons_self)) hnot
      · exact absurd (mem_append_right _ mem_cons_self) hnot
      · have hfront : Front stringify log.file log.owed x (mid' ++ t :: post') := hrunning
        rw [hmid] at hstates ⊢
        exact ⟨hfront.unstarted t (mem_append_right _ mem_cons_self), OwnedLog.isReady_of_waiting hstates hfront⟩
    rw [hunstarted.2] at hact
    obtain ⟨_, _, hpending, _⟩ := hunstarted.1.act ht hact
    have hquiet := hruns.quiet
    have hbefore := hruns.before
    rw [hpost, flatMap_append] at hbefore
    rw [hpost, forall_mem_append, forall_mem_cons] at hquiet
    refine ⟨hruns.unsettled, hruns.promise, ?_, ?_⟩
    · rw [flatMap_append, flatMap_cons, hpending]
      exact hbefore
    · rw [forall_mem_append, forall_mem_cons]
      exact ⟨hquiet.1, fun hr => hquiet.2.1 (hfollows.rewriting hr), hquiet.2.2⟩

end Kept

end Echadron.Persistence
