import Echadron.Base.Ledger

namespace Echadron.Base
open Lib List Option

theorem startedEntries_append (history more : List LedgerRecord) :
    startedEntries (history ++ more) = startedEntries history ++ startedEntries more := filterMap_append

theorem startedByDrain_append (drain : Nat) (history more : List LedgerRecord) :
    startedByDrain drain (history ++ more) = startedByDrain drain history ++ startedByDrain drain more :=
  filterMap_append

namespace Ledger

/-- A ledger between two events, with at most one drain in progress. -/
structure Sound (s : Ledger) : Prop where
  lawful : Throughout LawfulRecord s.trace
  sorted : s.records.Pairwise (· < ·)
  bounded : ∀ entry ∈ s.records, entry < s.disposers.length
  active_mem : ∀ entry ∈ s.active, entry ∈ s.records
  active_nodup : s.active.Nodup
  registered : ∀ entry count, .registered entry count ∈ s.trace → s.disposers[entry]? = some count
  kept : ∀ entry count, .registered entry count ∈ s.trace →
    entry ∈ s.active ∨ .released entry ∈ s.trace ∨ entry ∈ startedEntries s.trace
  started : ∀ entry ∈ startedEntries s.trace, entry ∉ s.active ∧ entry < s.disposers.length
  single : ∀ (i j : Nat) (d d' : LedgerDrain), s.drains[i]? = some d → d.status = .going → s.drains[j]? = some d' →
    d'.status = .going → i = j
  walked : ∀ d ∈ s.drains, d.status = .going →
    d.index ≤ s.records.length ∧ ∀ entry ∈ s.records.drop d.index, entry ∉ s.active
  below : ∀ (i : Nat) (d : LedgerDrain), s.drains[i]? = some d → d.status = .going →
    ∀ entry ∈ s.active, ∀ earlier ∈ startedByDrain i s.trace, entry < earlier
  unborn : ∀ i, s.drains.length ≤ i → startedByDrain i s.trace = []
  waiting : ∀ (i entry : Nat), entry ∈ startedByDrain i s.trace →
    .finished entry ∈ s.trace ∨ ∃ d, s.drains[i]? = some d ∧ d.running = some entry
  runs_started : ∀ r ∈ s.running, r.entry ∈ startedEntries s.trace ∧ r.left ≤ s.disposers.getD r.entry 0
  runs_nodup : (s.running.map RunningEntry.entry).Nodup
  runs_left : ∀ r ∈ s.running, ∀ disposer, .ran r.entry disposer ∈ s.trace ↔
    r.left ≤ disposer ∧ disposer < s.disposers.getD r.entry 0
  ran_started : ∀ entry disposer, .ran entry disposer ∈ s.trace → entry ∈ startedEntries s.trace

variable {s s' : Ledger}

theorem not_going (h : s.isDraining = false) : ∀ d ∈ s.drains, d.status ≠ .going := by
  intro d hd hgoing
  have hnot := any_eq_false.mp h d hd
  exact hnot (decide_eq_true hgoing)

theorem not_going_at (h : s.isDraining = false) {i : Nat} (hd : s.drains[i]? = some d) :
    d.status ≠ .going := not_going h d (mem_of_getElem? hd)

/-- A record that starts nothing and calls no disposer. -/
structure Silent (r : LedgerRecord) : Prop where
  entry : startedEntry r = none
  drain : ∀ i, startedBy i r = none
  ran : ∀ entry disposer, r ≠ .ran entry disposer

theorem startedEntries_silent (h : Silent r) (history : List LedgerRecord) :
    startedEntries (history ++ [r]) = startedEntries history := by
  simp [startedEntries, h.entry]

theorem startedByDrain_silent (h : Silent r) (i : Nat) (history : List LedgerRecord) :
    startedByDrain i (history ++ [r]) = startedByDrain i history := by
  simp [startedByDrain, h.drain]

theorem mem_ran_silent (h : Silent r) : .ran entry disposer ∈ history ++ [r] ↔ .ran entry disposer ∈ history := by
  rw [mem_append]
  constructor
  · rintro (hmem | hmem)
    · exact hmem
    · exact absurd (mem_singleton.mp hmem).symm (h.ran entry disposer)
  · exact .inl

theorem getD_append {disposers : List Nat} (h : entry < disposers.length) (count : Nat) :
    (disposers ++ [count]).getD entry 0 = disposers.getD entry 0 := by
  simp [getElem?_append_left h]

theorem Sound.note (h : s.Sound) (hsilent : Silent r) (hlawful : LawfulRecord s.trace r)
    (hregistered : ∀ entry count, r = .registered entry count →
      s.disposers[entry]? = some count ∧ entry ∈ s.active) : (record s r).Sound := by
  have hstarted := startedEntries_silent hsilent s.trace
  have hby (i : Nat) := startedByDrain_silent hsilent i s.trace
  exact
    { h with
      lawful := h.lawful.concat hlawful
      registered := by
        intro entry count hmem
        rcases mem_snoc.mp hmem with hold | hnew
        · exact h.registered entry count hold
        · exact (hregistered entry count hnew.symm).1
      kept := by
        intro entry count hmem
        change _ ∨ _ ∨ entry ∈ startedEntries (s.trace ++ [_])
        rw [hstarted]
        rcases mem_snoc.mp hmem with hold | hnew
        · exact (h.kept entry count hold).imp_right (.imp_left (mem_append_left _))
        · exact .inl (hregistered entry count hnew.symm).2
      started := fun a ha => h.started a (hstarted ▸ ha)
      below := fun i d hd hgoing a ha earlier hearlier => h.below i d hd hgoing a ha earlier (hby i ▸ hearlier)
      unborn := fun i hi => (hby i).trans (h.unborn i hi)
      waiting := fun i a ha => (h.waiting i a (hby i ▸ ha)).imp_left (mem_append_left _)
      runs_started := fun r hr => ⟨hstarted.symm ▸ (h.runs_started r hr).1, (h.runs_started r hr).2⟩
      runs_left := fun r hr disposer => (mem_ran_silent hsilent).trans (h.runs_left r hr disposer)
      ran_started := fun a disposer hmem =>
        hstarted.symm ▸ h.ran_started a disposer ((mem_ran_silent hsilent).mp hmem) }

theorem Sound.register (h : s.Sound) {count : Nat} (hquiet : s.isDraining = false) :
    (record { s with
      records := s.records ++ [s.disposers.length]
      active := s.active ++ [s.disposers.length]
      disposers := s.disposers ++ [count] } (.registered s.disposers.length count)).Sound := by
  have hfresh : s.disposers.length ∉ s.active := fun hmem => Nat.lt_irrefl _ (h.bounded _ (h.active_mem _ hmem))
  apply Sound.note
  · exact
      { h with
        sorted := by
          apply pairwise_append.mpr ⟨h.sorted, pairwise_singleton .., ?_⟩
          intro a ha b hb
          obtain rfl := mem_singleton.mp hb
          exact h.bounded a ha
        bounded := by
          intro entry hentry
          rw [length_append]
          rcases mem_snoc.mp hentry with hold | rfl
          · exact Nat.lt_add_right _ (h.bounded entry hold)
          · exact Nat.lt_succ_self _
        active_mem := fun entry hentry => mem_append.mpr ((mem_append.mp hentry).imp_left (h.active_mem entry))
        active_nodup := by
          dsimp only
          rw [← concat_eq_append]
          exact h.active_nodup.concat hfresh
        registered := by
          intro entry count' hmem
          have hget := h.registered entry count' hmem
          exact (getElem?_append_left (getElem?_lt hget)).trans hget
        kept := fun entry count' hmem => (h.kept entry count' hmem).imp_left (mem_append_left _)
        started := by
          intro entry hentry
          obtain ⟨hinactive, hlt⟩ := h.started entry hentry
          refine ⟨?_, ?_⟩
          · intro hmem
            rcases mem_snoc.mp hmem with hold | rfl
            · exact hinactive hold
            · exact Nat.lt_irrefl _ hlt
          · rw [length_append]
            exact Nat.lt_add_right _ hlt
        walked := fun d hd hgoing => absurd hgoing (not_going hquiet d hd)
        below := fun i d hd hgoing => absurd hgoing (not_going_at hquiet hd)
        runs_started := by
          intro r hr
          obtain ⟨hrun, hle⟩ := h.runs_started r hr
          refine ⟨hrun, ?_⟩
          rw [getD_append (h.started _ hrun).2]
          exact hle
        runs_left := by
          intro r hr disposer
          rw [getD_append (h.started _ (h.runs_started r hr).1).2]
          exact h.runs_left r hr disposer }
  · exact ⟨rfl, fun _ => rfl, fun _ _ hran => by cases hran⟩
  · trivial
  · intro entry count' hnew
    obtain ⟨rfl, rfl⟩ := LedgerRecord.registered.inj hnew
    exact ⟨getElem?_concat_length, mem_concat_self⟩

/-- An entry that leaves the array from before the place of a drain leaves behind it only what the drain has walked
over. -/
theorem drop_erase {records : List Nat} (hmem : entry ∈ records.take index) (hlt : index < records.length) :
    index ≤ (records.erase entry).length ∧ ∀ a ∈ (records.erase entry).drop index, a ∈ records.drop index := by
  have hin : entry ∈ records := mem_of_mem_take hmem
  constructor
  · rw [length_erase_of_mem hin]
    exact Nat.le_sub_one_of_lt hlt
  · intro a ha
    have herase : records.erase entry = (records.take index).erase entry ++ records.drop index := by
      conv_lhs => rw [← take_append_drop index records]
      exact erase_append_left _ hmem
    have hlength : ((records.take index).erase entry).length = index - 1 := by
      rw [length_erase_of_mem hmem, length_take_of_le (Nat.le_of_lt hlt)]
    rw [herase, drop_append, drop_eq_nil_of_le (by omega)] at ha
    exact mem_of_mem_drop ha

theorem Sound.mem_take (h : s.Sound) (hd : d ∈ s.drains) (hgoing : d.status = .going)
    (hentry : entry ∈ s.active) : entry ∈ s.records.take d.index := by
  have hmem := h.active_mem entry hentry
  rw [← take_append_drop d.index s.records] at hmem
  rcases mem_append.mp hmem with htake | hdrop
  · exact htake
  · exact absurd hentry ((h.walked d hd hgoing).2 entry hdrop)

theorem Sound.walked_erase (h : s.Sound) (hentry : entry ∈ s.active)
    (hroom : ∀ d ∈ s.drains, d.status = .going → d.index < s.records.length) :
    ∀ d ∈ s.drains, d.status = .going → d.index ≤ (s.records.erase entry).length ∧
      ∀ a ∈ (s.records.erase entry).drop d.index, a ∉ s.active.erase entry := by
  intro d hd hgoing
  obtain ⟨hle, hdrop⟩ := drop_erase (h.mem_take hd hgoing hentry) (hroom d hd hgoing)
  refine ⟨hle, ?_⟩
  intro a ha hactive
  exact (h.walked d hd hgoing).2 a (hdrop a ha) (mem_of_mem_erase hactive)

theorem Sound.mem_erase (h : s.Sound) (ha : a ∈ s.active.erase entry) : a ∈ s.records.erase entry := by
  obtain ⟨hne, hmem⟩ := h.active_nodup.mem_erase_iff.mp ha
  exact (mem_erase_of_ne hne).mpr (h.active_mem a hmem)

theorem Sound.release (h : s.Sound) (hentry : entry ∈ s.active)
    (hroom : ∀ d ∈ s.drains, d.status = .going → d.index < s.records.length) :
    (record { s with active := s.active.erase entry, records := s.records.erase entry } (.released entry)).Sound := by
  have hnoted : (record s (.released entry)).Sound :=
    h.note ⟨rfl, fun _ => rfl, fun _ _ hran => by cases hran⟩ trivial fun _ _ hr => by cases hr
  exact
    { hnoted with
      sorted := h.sorted.sublist erase_sublist
      bounded := fun a ha => h.bounded a (mem_of_mem_erase ha)
      active_mem := fun a ha => h.mem_erase ha
      active_nodup := h.active_nodup.erase entry
      kept := by
        intro a count hmem
        rcases hnoted.kept a count hmem with hactive | hrest
        · by_cases hsame : a = entry
          · subst hsame
            exact .inr (.inl mem_concat_self)
          · exact .inl ((mem_erase_of_ne hsame).mpr hactive)
        · exact .inr hrest
      started := by
        intro a ha
        obtain ⟨hinactive, hlt⟩ := hnoted.started a ha
        exact ⟨fun hmem => hinactive (mem_of_mem_erase hmem), hlt⟩
      walked := h.walked_erase hentry hroom
      below := fun i d hd hgoing a ha => hnoted.below i d hd hgoing a (mem_of_mem_erase ha) }

theorem startedEntries_started (starter : Option Nat) (entry : Nat) (history : List LedgerRecord) :
    startedEntries (history ++ [.started starter entry]) = startedEntries history ++ [entry] :=
  startedEntries_append ..

theorem Sound.runGuarded (h : s.Sound) (hentry : entry ∈ s.active)
    {records : List Nat} {drains : List LedgerDrain} (hsub : records.Sublist s.records)
    (hkeep : ∀ a ∈ s.active.erase entry, a ∈ records)
    (hlawful : ∀ drain, starter = some drain → ∀ earlier ∈ startedByDrain drain s.trace,
      entry < earlier ∧ .finished earlier ∈ s.trace)
    (hsingle : ∀ (i j : Nat) (d d' : LedgerDrain), drains[i]? = some d → d.status = .going → drains[j]? = some d' →
      d'.status = .going → i = j)
    (hwalked : ∀ d ∈ drains, d.status = .going →
      d.index ≤ records.length ∧ ∀ a ∈ records.drop d.index, a ∉ s.active.erase entry)
    (hbelow : ∀ (i : Nat) (d : LedgerDrain), drains[i]? = some d → d.status = .going → ∀ a ∈ s.active.erase entry,
      ∀ earlier ∈ startedByDrain i (s.trace ++ [.started starter entry]), a < earlier)
    (hunborn : ∀ i, drains.length ≤ i → startedByDrain i (s.trace ++ [.started starter entry]) = [])
    (hwaiting : ∀ (i a : Nat), a ∈ startedByDrain i (s.trace ++ [.started starter entry]) →
      .finished a ∈ s.trace ∨ ∃ d, drains[i]? = some d ∧ d.running = some a) :
    (runGuarded { s with records, drains } starter entry).Sound := by
  have hnew : entry ∉ startedEntries s.trace := fun hmem => (h.started entry hmem).1 hentry
  have hlt : entry < s.disposers.length := h.bounded entry (h.active_mem entry hentry)
  have hgrow (a : Nat) (ha : a ∈ startedEntries s.trace) :
      a ∈ startedEntries (s.trace ++ [.started starter entry]) := by
    rw [startedEntries_started]
    exact mem_append_left _ ha
  have hran {a disposer : Nat} : .ran a disposer ∈ s.trace ++ [.started starter entry] ↔ .ran a disposer ∈ s.trace := by
    rw [mem_append]
    constructor
    · rintro (hold | hlast)
      · exact hold
      · cases mem_singleton.mp hlast
    · exact .inl
  exact
    { lawful := h.lawful.concat ⟨hnew, hlawful⟩
      sorted := h.sorted.sublist hsub
      bounded := fun a ha => h.bounded a (hsub.subset ha)
      active_mem := hkeep
      active_nodup := h.active_nodup.erase entry
      registered := by
        intro a count hmem
        rcases mem_snoc.mp hmem with hold | hlast
        · exact h.registered a count hold
        · cases hlast
      kept := by
        intro a count hmem
        change _ ∨ _ ∨ a ∈ startedEntries (s.trace ++ [_])
        rw [startedEntries_started]
        rcases mem_snoc.mp hmem with hold | hlast
        · rcases h.kept a count hold with hactive | hreleased | hrun
          · by_cases hsame : a = entry
            · subst hsame
              exact .inr (.inr mem_concat_self)
            · exact .inl ((mem_erase_of_ne hsame).mpr hactive)
          · exact .inr (.inl (mem_append_left _ hreleased))
          · exact .inr (.inr (mem_append_left _ hrun))
        · cases hlast
      started := by
        intro a ha
        have ha : a ∈ startedEntries s.trace ++ [entry] := startedEntries_started starter entry s.trace ▸ ha
        rcases mem_snoc.mp ha with hold | rfl
        · obtain ⟨hinactive, hbound⟩ := h.started a hold
          exact ⟨fun hmem => hinactive (mem_of_mem_erase hmem), hbound⟩
        · exact ⟨h.active_nodup.not_mem_erase, hlt⟩
      single := hsingle
      walked := hwalked
      below := hbelow
      unborn := hunborn
      waiting := fun i a ha => (hwaiting i a ha).imp_left (mem_append_left _)
      runs_started := by
        intro r hr
        rcases mem_snoc.mp hr with hold | rfl
        · obtain ⟨hrun, hle⟩ := h.runs_started r hold
          exact ⟨hgrow _ hrun, hle⟩
        · refine ⟨?_, Nat.le_refl _⟩
          change entry ∈ startedEntries (s.trace ++ [_])
          rw [startedEntries_started]
          exact mem_concat_self
      runs_nodup := by
        change ((s.running ++ [_]).map RunningEntry.entry).Nodup
        rw [map_append, map_singleton, ← concat_eq_append]
        apply h.runs_nodup.concat
        intro hmem
        obtain ⟨r, hr, hsame⟩ := mem_map.mp hmem
        have hsame : r.entry = entry := hsame
        exact hnew (hsame ▸ (h.runs_started r hr).1)
      runs_left := by
        intro r hr disposer
        refine hran.trans ?_
        rcases mem_snoc.mp hr with hold | rfl
        · exact h.runs_left r hold disposer
        · constructor
          · intro hmem
            exact absurd (h.ran_started _ _ hmem) hnew
          · rintro ⟨hle, hless⟩
            exact absurd hless (Nat.not_lt_of_le hle)
      ran_started := fun a disposer hmem => hgrow a (h.ran_started a disposer (hran.mp hmem)) }

theorem startedByDrain_handle (i entry : Nat) (history : List LedgerRecord) :
    startedByDrain i (history ++ [.started none entry]) = startedByDrain i history := by
  rw [startedByDrain_append]
  exact append_nil _

theorem startedByDrain_other (h : i ≠ drain) (entry : Nat) (history : List LedgerRecord) :
    startedByDrain i (history ++ [.started (some drain) entry]) = startedByDrain i history := by
  simp [startedByDrain, startedBy, Ne.symm h]

theorem startedByDrain_self (drain entry : Nat) (history : List LedgerRecord) :
    startedByDrain drain (history ++ [.started (some drain) entry]) = startedByDrain drain history ++ [entry] := by
  simp [startedByDrain, startedBy]

section

variable (h : s.Sound)
include h

theorem Sound.dispose (hentry : entry ∈ s.active)
    (hroom : ∀ d ∈ s.drains, d.status = .going → d.index < s.records.length) :
    (Ledger.runGuarded { s with records := s.records.erase entry } none entry).Sound := by
  apply h.runGuarded hentry erase_sublist (fun a ha => h.mem_erase ha)
  · intro drain hdrain
    cases hdrain
  · exact h.single
  · exact h.walked_erase hentry hroom
  · intro i d hd hgoing a ha earlier hearlier
    rw [startedByDrain_handle] at hearlier
    exact h.below i d hd hgoing a (mem_of_mem_erase ha) earlier hearlier
  · intro i hi
    rw [startedByDrain_handle]
    exact h.unborn i hi
  · intro i a ha
    rw [startedByDrain_handle] at ha
    exact h.waiting i a ha

theorem Sound.redrain {r : LedgerRecord} (hsilent : Silent r)
    (hregistered : ∀ entry count, r ≠ .registered entry count) (hlawful : LawfulRecord s.trace r)
    {state : LedgerState} {records : List Nat} {drains : List LedgerDrain} (hsub : records.Sublist s.records)
    (hkeep : ∀ a ∈ s.active, a ∈ records)
    (hsingle : ∀ (i j : Nat) (d d' : LedgerDrain), drains[i]? = some d → d.status = .going → drains[j]? = some d' →
      d'.status = .going → i = j)
    (hwalked : ∀ d ∈ drains, d.status = .going →
      d.index ≤ records.length ∧ ∀ a ∈ records.drop d.index, a ∉ s.active)
    (hbelow : ∀ (i : Nat) (d : LedgerDrain), drains[i]? = some d → d.status = .going → ∀ a ∈ s.active,
      ∀ earlier ∈ startedByDrain i s.trace, a < earlier)
    (hunborn : ∀ i, drains.length ≤ i → startedByDrain i s.trace = [])
    (hwaiting : ∀ (i a : Nat), a ∈ startedByDrain i s.trace →
      .finished a ∈ s.trace ++ [r] ∨ ∃ d, drains[i]? = some d ∧ d.running = some a) :
    (record { s with state, records, drains } r).Sound := by
  have hnoted := h.note hsilent hlawful fun entry count hr => absurd hr (hregistered entry count)
  have hby (i : Nat) := startedByDrain_silent hsilent i s.trace
  exact
    { hnoted with
      sorted := h.sorted.sublist hsub
      bounded := fun a ha => h.bounded a (hsub.subset ha)
      active_mem := hkeep
      single := hsingle
      walked := hwalked
      below := fun i d hd hgoing a ha earlier hearlier => hbelow i d hd hgoing a ha earlier (hby i ▸ hearlier)
      unborn := fun i hi => (hby i).trans (hunborn i hi)
      waiting := fun i a ha => hwaiting i a (hby i ▸ ha) }

theorem Sound.beginDrain (hquiet : s.isDraining = false) (state : LedgerState) (isTeardown : Bool) :
    (beginDrain { s with state } isTeardown).Sound := by
  have hlast {i : Nat} {d : LedgerDrain} (hd : (s.drains ++ [⟨s.records.length, isTeardown, none, .going⟩])[i]? = some d)
      (hgoing : d.status = .going) : i = s.drains.length := by
    rcases Nat.lt_trichotomy i s.drains.length with hlt | heq | hgt
    · rw [getElem?_append_left hlt] at hd
      exact absurd hgoing (not_going_at hquiet hd)
    · exact heq
    · rw [getElem?_append_right (Nat.le_of_lt hgt)] at hd
      have hzero : i - s.drains.length ≠ 0 := Nat.sub_ne_zero_of_lt hgt
      obtain ⟨k, hk⟩ := Nat.exists_eq_succ_of_ne_zero hzero
      rw [hk] at hd
      cases hd
  apply @Sound.redrain s h (.began s.drains.length) ⟨rfl, fun _ => rfl, fun _ _ hr => by cases hr⟩
    (fun _ _ hr => by cases hr) trivial state s.records _ (List.Sublist.refl _) h.active_mem
  · intro i j d d' hd hgoing hd' hgoing'
    exact (hlast hd hgoing).trans (hlast hd' hgoing').symm
  · intro d hd hgoing
    rcases mem_snoc.mp hd with hold | rfl
    · exact absurd hgoing (not_going hquiet d hold)
    · refine ⟨Nat.le_refl _, ?_⟩
      intro a ha
      rw [drop_length] at ha
      cases ha
  · intro i d hd hgoing a _ earlier hearlier
    rw [hlast hd hgoing, h.unborn _ (Nat.le_refl _)] at hearlier
    cases hearlier
  · intro i hi
    rw [length_append] at hi
    exact h.unborn i (Nat.le_of_add_right_le hi)
  · intro i a ha
    rcases h.waiting i a ha with hfinished | ⟨d, hd, hruns⟩
    · exact .inl (mem_append_left _ hfinished)
    · have hlt := getElem?_lt hd
      exact .inr ⟨d, (getElem?_append_left hlt).trans hd, hruns⟩

theorem Sound.going_set (hd : s.drains[drain]? = some d)
    (hgoing : d.status = .going) (he : (s.drains.set drain d')[i]? = some e)
    (hstill : e.status = .going) : i = drain ∧ e = d' := by
  have hlt := getElem?_lt hd
  by_cases hi : i = drain
  · subst hi
    rw [getElem?_set_self hlt] at he
    exact ⟨rfl, (some.inj he).symm⟩
  · rw [getElem?_set_ne (Ne.symm hi)] at he
    exact absurd (h.single i drain e d he hstill hd hgoing) hi

theorem Sound.single_set (hd : s.drains[drain]? = some d)
    (hgoing : d.status = .going) (i j : Nat) (e e' : LedgerDrain) (he : (s.drains.set drain d')[i]? = some e)
    (hstill : e.status = .going) (he' : (s.drains.set drain d')[j]? = some e') (hstill' : e'.status = .going) :
    i = j := (h.going_set hd hgoing he hstill).1.trans (h.going_set hd hgoing he' hstill').1.symm

theorem Sound.finished_of_idle (hd : s.drains[drain]? = some d)
    (hidle : d.running = none) (hearlier : earlier ∈ startedByDrain drain s.trace) :
    .finished earlier ∈ s.trace := by
  rcases h.waiting drain earlier hearlier with hfinished | ⟨e, he, hruns⟩
  · exact hfinished
  · rw [hd] at he
    cases he
    cases hidle.symm.trans hruns

theorem Sound.waiting_set (hd : s.drains[drain]? = some d)
    (hidle : d.running = none) (ha : a ∈ startedByDrain i s.trace) :
    .finished a ∈ s.trace ∨ ∃ e, (s.drains.set drain d')[i]? = some e ∧ e.running = some a := by
  by_cases hi : i = drain
  · subst hi
    exact .inl (h.finished_of_idle hd hidle ha)
  · rcases h.waiting i a ha with hfinished | ⟨e, he, hruns⟩
    · exact .inl hfinished
    · exact .inr ⟨e, (getElem?_set_ne (Ne.symm hi)).trans he, hruns⟩

theorem Sound.finishDrain (hd : s.drains[drain]? = some d)
    (hgoing : d.status = .going) (hidle : d.running = none) (hindex : d.index = 0) :
    (s.finishDrain drain d).Sound := by
  have hmem := mem_of_getElem? hd
  have hnone : ∀ a, a ∉ s.active := by
    intro a ha
    have hwalked := (h.walked d hmem hgoing).2 a
    rw [hindex] at hwalked
    exact hwalked (h.active_mem a ha) ha
  have hdone (i : Nat) (e : LedgerDrain)
      (he : (s.drains.set drain { d with status := .done })[i]? = some e) : e.status ≠ .going := by
    intro hstill
    obtain ⟨-, rfl⟩ := h.going_set hd hgoing he hstill
    cases hstill
  apply @Sound.redrain s h (.drained drain) ⟨rfl, fun _ => rfl, fun _ _ hr => by cases hr⟩
    (fun _ _ hr => by cases hr) _ (if d.isTeardown then .disposed else s.state) [] _ (nil_sublist _)
  · intro a ha
    exact absurd ha (hnone a)
  · exact h.single_set hd hgoing
  · intro e he hstill
    obtain ⟨i, hi⟩ := mem_iff_getElem?.mp he
    exact absurd hstill (hdone i e hi)
  · intro i e he hstill
    exact absurd hstill (hdone i e he)
  · intro i hi
    change (s.drains.set _ _).length ≤ i at hi
    rw [length_set] at hi
    exact h.unborn i hi
  · intro i a ha
    exact (h.waiting_set hd hidle ha).imp_left (mem_append_left _)
  · refine ⟨?_, fun entry hentry => h.finished_of_idle hd hidle hentry⟩
    intro entry count hregistered
    rcases h.kept entry count hregistered with hactive | hrest
    · exact absurd hactive (hnone entry)
    · exact hrest

end

theorem drop_cons {records : List Nat} (hentry : records[index]? = some entry) :
    records.drop index = entry :: records.drop (index + 1) := by
  obtain ⟨hlt, hget⟩ := List.getElem?_eq_some_iff.mp hentry
  rw [drop_eq_getElem_cons hlt, hget]

theorem Sound.lt_of_active (h : s.Sound) (hmem : d ∈ s.drains) (hgoing : d.status = .going)
    (hindex : d.index = index + 1) (hentry : s.records[index]? = some entry)
    (ha : a ∈ s.active) (hne : a ≠ entry) : a < entry := by
  obtain ⟨hlt, hget⟩ := List.getElem?_eq_some_iff.mp hentry
  have htake := h.mem_take hmem hgoing ha
  rw [hindex, ← take_append_getElem hlt, hget] at htake
  have hbefore : a ∈ s.records.take index := by
    rcases mem_snoc.mp htake with hbefore | hlast
    · exact hbefore
    · exact absurd hlast hne
  have hsorted := h.sorted
  rw [← take_append_drop index s.records, drop_cons hentry] at hsorted
  exact (pairwise_append.mp hsorted).2.2 a hbefore entry (mem_cons_self ..)

theorem Sound.skips (h : s.Sound) (hd : s.drains[drain]? = some d)
    (hgoing : d.status = .going) (hidle : d.running = none) (hindex : d.index = index + 1)
    (hentry : s.records[index]? = some entry) (hinactive : entry ∉ s.active) :
    (s.setDrain drain { d with index }).Sound := by
  have hmem := mem_of_getElem? hd
  obtain ⟨hle, hdrop⟩ := h.walked d hmem hgoing
  rw [hindex] at hle hdrop
  exact
    { h with
      single := h.single_set hd hgoing
      walked := by
        intro e he hstill
        obtain ⟨i, hi⟩ := mem_iff_getElem?.mp he
        obtain ⟨-, rfl⟩ := h.going_set hd hgoing hi hstill
        refine ⟨Nat.le_of_succ_le hle, ?_⟩
        intro a ha
        change a ∈ s.records.drop index at ha
        rw [drop_cons hentry] at ha
        rcases mem_cons.mp ha with rfl | ha
        · exact hinactive
        · exact hdrop a ha
      below := by
        intro i e he hstill
        obtain ⟨rfl, rfl⟩ := h.going_set hd hgoing he hstill
        exact h.below i d hd hgoing
      unborn := by
        intro i hi
        change (s.drains.set _ _).length ≤ i at hi
        rw [length_set] at hi
        exact h.unborn i hi
      waiting := fun i a ha => h.waiting_set hd hidle ha }

theorem Sound.starts (h : s.Sound) (hd : s.drains[drain]? = some d)
    (hgoing : d.status = .going) (hidle : d.running = none) (hindex : d.index = index + 1)
    (hentry : s.records[index]? = some entry) (hactive : entry ∈ s.active) :
    (Ledger.runGuarded (s.setDrain drain { d with index, running := some entry }) (some drain) entry).Sound := by
  have hmem := mem_of_getElem? hd
  have hlt := getElem?_lt hd
  obtain ⟨hle, hdrop⟩ := h.walked d hmem hgoing
  rw [hindex] at hle hdrop
  apply h.runGuarded hactive (List.Sublist.refl _)
  · intro a ha
    exact h.active_mem a (mem_of_mem_erase ha)
  · intro other hother earlier hearlier
    cases hother
    exact ⟨h.below _ d hd hgoing entry hactive earlier hearlier, h.finished_of_idle hd hidle hearlier⟩
  · exact h.single_set hd hgoing
  · intro e he hstill
    obtain ⟨i, hi⟩ := mem_iff_getElem?.mp he
    obtain ⟨-, rfl⟩ := h.going_set hd hgoing hi hstill
    refine ⟨Nat.le_of_succ_le hle, ?_⟩
    intro a ha
    rw [drop_cons hentry] at ha
    rcases mem_cons.mp ha with rfl | ha
    · exact h.active_nodup.not_mem_erase
    · exact fun herased => hdrop a ha (mem_of_mem_erase herased)
  · intro i e he hstill a ha earlier hearlier
    obtain ⟨rfl, rfl⟩ := h.going_set hd hgoing he hstill
    obtain ⟨hne, hin⟩ := h.active_nodup.mem_erase_iff.mp ha
    rw [startedByDrain_self] at hearlier
    rcases mem_snoc.mp hearlier with hold | rfl
    · exact h.below _ d hd hgoing a hin earlier hold
    · exact h.lt_of_active hmem hgoing hindex hentry hin hne
  · intro i hi
    rw [length_set] at hi
    rw [startedByDrain_other (Nat.ne_of_gt (Nat.lt_of_lt_of_le hlt hi))]
    exact h.unborn i hi
  · intro i a ha
    by_cases hi : i = drain
    · subst hi
      rw [startedByDrain_self] at ha
      rcases mem_snoc.mp ha with hold | rfl
      · exact .inl (h.finished_of_idle hd hidle hold)
      · exact .inr ⟨_, getElem?_set_self hlt, rfl⟩
    · rw [startedByDrain_other hi] at ha
      exact h.waiting_set hd hidle ha

theorem Sound.turn (h : s.Sound) (hd : s.drains[drain]? = some d)
    (hgoing : d.status = .going) (hidle : d.running = none) : (s.turn drain d).Sound := by
  rw [Ledger.turn]
  split
  · rename_i hindex
    exact h.finishDrain hd hgoing hidle hindex
  · rename_i index hindex
    split
    · rename_i hnone
      have hle := (h.walked d (mem_of_getElem? hd) hgoing).1
      rw [getElem?_eq_none_iff] at hnone
      exact absurd (Nat.lt_of_lt_of_le (Nat.lt_succ_self index) (hindex ▸ hle)) (Nat.not_lt_of_le hnone)
    · rename_i entry hentry
      split
      · rename_i hactive
        exact h.starts hd hgoing hidle hindex hentry hactive
      · rename_i hinactive
        exact h.skips hd hgoing hidle hindex hentry hinactive

theorem findRunning_some (h : s.findRunning entry = some r) : r ∈ s.running ∧ r.entry = entry := by
  have hentry := find?_some h
  exact ⟨mem_of_find?_eq_some h, of_decide_eq_true hentry⟩

theorem mem_setRunning (hq : q ∈ (s.setRunning r).running) : q = r ∨ q ∈ s.running ∧ q.entry ≠ r.entry := by
  obtain ⟨p, hp, rfl⟩ := mem_map.mp hq
  by_cases hsame : p.entry = r.entry
  · exact .inl (if_pos hsame)
  · right
    rw [if_neg hsame]
    exact ⟨hp, hsame⟩

theorem setRunning_entries (s : Ledger) (r : RunningEntry) :
    (s.setRunning r).running.map RunningEntry.entry = s.running.map RunningEntry.entry := by
  rw [setRunning, List.map_map]
  apply map_congr_left
  intro q _
  dsimp only [Function.comp]
  split
  · rename_i hsame
    exact hsame.symm
  · rfl

theorem Sound.callDisposer (h : s.Sound) (hr : r ∈ s.running) (hcall : s.callDisposer r = some s') : s'.Sound := by
  rw [Ledger.callDisposer] at hcall
  split at hcall
  · rename_i left hleft hwaits
    cases hcall
    obtain ⟨hstarted, hle⟩ := h.runs_started r hr
    have hiff := h.runs_left r hr
    rw [hleft] at hle hiff
    have hentries (history : List LedgerRecord) : startedEntries (history ++ [.ran r.entry left]) =
        startedEntries history := by
      rw [startedEntries_append]
      exact append_nil _
    have hby (i : Nat) (history : List LedgerRecord) : startedByDrain i (history ++ [.ran r.entry left]) =
        startedByDrain i history := by
      rw [startedByDrain_append]
      exact append_nil _
    have hran {a k : Nat} : .ran a k ∈ s.trace ++ [.ran r.entry left] ↔
        .ran a k ∈ s.trace ∨ a = r.entry ∧ k = left := by
      rw [mem_snoc]
      constructor
      · rintro (hold | hlast)
        · exact .inl hold
        · exact .inr (LedgerRecord.ran.inj hlast)
      · rintro (hold | ⟨rfl, rfl⟩)
        · exact .inl hold
        · exact .inr rfl
    exact
      { h with
        lawful := h.lawful.concat ⟨hstarted, fun later hlater => ((hiff later).mp hlater).1⟩
        registered := by
          intro a count hmem
          rcases mem_snoc.mp hmem with hold | hlast
          · exact h.registered a count hold
          · cases hlast
        kept := by
          intro a count hmem
          change _ ∨ _ ∨ a ∈ startedEntries (s.trace ++ [_])
          rw [hentries]
          rcases mem_snoc.mp hmem with hold | hlast
          · exact (h.kept a count hold).imp_right (.imp_left (mem_append_left _))
          · cases hlast
        started := fun a ha => h.started a (hentries s.trace ▸ ha)
        below := fun i d hd hgoing a ha earlier hearlier => h.below i d hd hgoing a ha earlier (hby i s.trace ▸ hearlier)
        unborn := fun i hi => (hby i s.trace).trans (h.unborn i hi)
        waiting := fun i a ha => (h.waiting i a (hby i s.trace ▸ ha)).imp_left (mem_append_left _)
        runs_started := by
          intro q hq
          change q.entry ∈ startedEntries (s.trace ++ [_]) ∧ _
          rw [hentries]
          rcases mem_setRunning hq with rfl | ⟨hq, -⟩
          · exact ⟨hstarted, Nat.le_of_succ_le hle⟩
          · exact h.runs_started q hq
        runs_nodup := (setRunning_entries s _).symm ▸ h.runs_nodup
        runs_left := by
          intro q hq k
          refine hran.trans ?_
          rcases mem_setRunning hq with rfl | ⟨hq, hne⟩
          · dsimp only
            rw [hiff]
            change _ ↔ left ≤ k ∧ k < s.disposers.getD r.entry 0
            omega
          · rw [h.runs_left q hq]
            constructor
            · rintro (hold | ⟨hsame, -⟩)
              · exact hold
              · exact absurd hsame hne
            · exact .inl
        ran_started := by
          intro a k hmem
          change a ∈ startedEntries (s.trace ++ [_])
          rw [hentries]
          rcases hran.mp hmem with hold | ⟨rfl, rfl⟩
          · exact h.ran_started a k hold
          · exact hstarted }
  · cases hcall

theorem Sound.settles (h : s.Sound) {r : RunningEntry} (hr : r ∈ s.running) :
    (s.setRunning { r with waits := false }).Sound :=
  { h with
    runs_started := by
      intro q hq
      rcases mem_setRunning hq with rfl | ⟨hq, -⟩
      · exact h.runs_started r hr
      · exact h.runs_started q hq
    runs_nodup := (setRunning_entries s _).symm ▸ h.runs_nodup
    runs_left := by
      intro q hq
      rcases mem_setRunning hq with rfl | ⟨hq, -⟩
      · exact h.runs_left r hr
      · exact h.runs_left q hq }

theorem past_status (d : LedgerDrain) (entry : Nat) : (d.past entry).status = d.status := by
  rw [LedgerDrain.past]
  split <;> rfl

theorem past_index (d : LedgerDrain) (entry : Nat) : (d.past entry).index = d.index := by
  rw [LedgerDrain.past]
  split <;> rfl

theorem past_running {d : LedgerDrain} (h : d.running = some a) (hne : a ≠ entry) :
    (d.past entry).running = some a := by
  rw [LedgerDrain.past, if_neg]
  · exact h
  · rw [h]
    exact fun hsame => hne (some.inj hsame)

theorem getElem?_past {i : Nat}
    (h : (s.drains.map fun d => d.past entry)[i]? = some d) : ∃ e, s.drains[i]? = some e ∧ d = e.past entry := by
  rw [getElem?_map] at h
  obtain ⟨e, he, rfl⟩ := map_eq_some_iff.mp h
  exact ⟨e, he, rfl⟩

theorem Sound.finishEntry (h : s.Sound) {r : RunningEntry} (hr : r ∈ s.running) (hleft : r.left = 0) :
    (s.finishEntry r.entry).Sound := by
  have hsilent : Silent (.finished r.entry) := ⟨rfl, fun _ => rfl, fun _ _ hran => by cases hran⟩
  have hdrained : (record { s with drains := s.drains.map fun d => d.past r.entry } (.finished r.entry)).Sound := by
    apply @Sound.redrain s h (.finished r.entry) hsilent (fun _ _ hr => by cases hr) _ s.state s.records _
      (List.Sublist.refl _) h.active_mem
    · intro i j d d' hd hgoing hd' hgoing'
      obtain ⟨e, he, rfl⟩ := getElem?_past hd
      obtain ⟨e', he', rfl⟩ := getElem?_past hd'
      rw [past_status] at hgoing hgoing'
      exact h.single i j e e' he hgoing he' hgoing'
    · intro d hd hgoing
      obtain ⟨e, he, rfl⟩ := mem_map.mp hd
      rw [past_status] at hgoing
      rw [past_index]
      exact h.walked e he hgoing
    · intro i d hd hgoing
      obtain ⟨e, he, rfl⟩ := getElem?_past hd
      rw [past_status] at hgoing
      exact h.below i e he hgoing
    · intro i hi
      rw [length_map] at hi
      exact h.unborn i hi
    · intro i a ha
      rcases h.waiting i a ha with hfinished | ⟨d, hd, hruns⟩
      · exact .inl (mem_append_left _ hfinished)
      · by_cases hsame : a = r.entry
        · subst hsame
          exact .inl mem_concat_self
        · refine .inr ⟨d.past r.entry, ?_, past_running hruns hsame⟩
          rw [getElem?_map, hd]
          rfl
    · intro count hregistered disposer hless
      have hcount := h.registered r.entry count hregistered
      apply (h.runs_left r hr disposer).mpr
      rw [hleft, getD_eq_getElem?_getD, hcount]
      exact ⟨Nat.zero_le _, hless⟩
  exact
    { hdrained with
      runs_started := fun q hq => hdrained.runs_started q (mem_of_mem_filter hq)
      runs_nodup := hdrained.runs_nodup.sublist (filter_sublist.map _)
      runs_left := fun q hq => hdrained.runs_left q (mem_of_mem_filter hq) }

theorem Sound.start : ({} : Ledger).Sound where
  lawful := Throughout.nil
  sorted := List.Pairwise.nil
  bounded := by simp
  active_mem := by simp
  active_nodup := nodup_nil
  registered := by simp
  kept := by simp
  started := by simp [startedEntries]
  single := by simp
  walked := by simp
  below := by simp
  unborn := fun _ _ => rfl
  waiting := by simp [startedByDrain]
  runs_started := by simp
  runs_nodup := nodup_nil
  runs_left := by simp
  ran_started := by simp

theorem Sound.tidy (h : s.Sound) : s.Tidy where
  lawful := h.lawful
  kept := by
    intro entry count hregistered
    rcases h.kept entry count hregistered with hactive | hrest
    · exact .inl (h.active_mem entry hactive)
    · exact .inr hrest

theorem Sound.step (h : s.Sound) (hcalm : s.Undisturbed e) (hstep : s.step e = some s') : s'.Sound := by
  cases e with
  | register disposers =>
    cases hstep
    rw [Ledger.register]
    split
    · rename_i hactive
      exact h.register (hcalm hactive)
    · exact h
  | dispose entry =>
    cases hstep
    rw [Ledger.dispose]
    split
    · rename_i hactive
      exact h.dispose hactive (hcalm hactive)
    · exact h
  | release entry =>
    cases hstep
    rw [Ledger.release]
    split
    · rename_i hactive
      exact h.release hactive (hcalm hactive)
    · exact h
  | clear =>
    cases hstep
    rw [clear]
    split
    · rename_i hactive
      exact h.beginDrain (hcalm hactive) s.state false
    · exact h
  | teardown =>
    cases hstep
    rw [teardown]
    split
    · rename_i hactive
      exact h.beginDrain (hcalm hactive) .disposing true
    · exact h
  | continues drain =>
    obtain ⟨d, hd, hturn⟩ := bind_eq_some_iff.mp hstep
    obtain ⟨⟨hgoing, hidle⟩, hs⟩ := ite_none_right_eq_some.mp hturn
    cases hs
    exact h.turn hd hgoing hidle
  | calls entry =>
    obtain ⟨r, hr, hcall⟩ := bind_eq_some_iff.mp hstep
    exact h.callDisposer (findRunning_some hr).1 hcall
  | settles entry =>
    obtain ⟨r, hr, hsettles⟩ := bind_eq_some_iff.mp hstep
    obtain ⟨-, hs⟩ := ite_none_right_eq_some.mp hsettles
    cases hs
    exact h.settles (findRunning_some hr).1
  | finishes entry =>
    obtain ⟨r, hr, hfinishes⟩ := bind_eq_some_iff.mp hstep
    obtain ⟨⟨hleft, -⟩, hs⟩ := ite_none_right_eq_some.mp hfinishes
    cases hs
    obtain ⟨hmem, rfl⟩ := findRunning_some hr
    exact h.finishEntry hmem hleft

def Closing (s : Ledger) : Prop := s.state = .disposing → ∃ d ∈ s.drains, d.isTeardown = true ∧ d.status = .going

theorem closing_of_drains {drains : List LedgerDrain} (h : s.Closing) (hstate : s'.state = s.state)
    (hdrains : s'.drains = drains)
    (hkeep : ∀ d ∈ s.drains, d.isTeardown = true → d.status = .going →
      ∃ d' ∈ drains, d'.isTeardown = true ∧ d'.status = .going) : s'.Closing := by
  intro hdisposing
  obtain ⟨d, hd, hteardown, hgoing⟩ := h (hstate.symm.trans hdisposing)
  rw [hdrains]
  exact hkeep d hd hteardown hgoing

theorem closing_of_same (h : s.Closing) (hstate : s'.state = s.state) (hdrains : s'.drains = s.drains) : s'.Closing :=
  closing_of_drains h hstate hdrains fun d hd hteardown hgoing => ⟨d, hd, hteardown, hgoing⟩

theorem closing_set (h : s.Closing) (hd : s.drains[drain]? = some d)
    (hstate : s'.state = s.state) (hdrains : s'.drains = s.drains.set drain d')
    (hteardown : d'.isTeardown = d.isTeardown) (hstatus : d'.status = d.status) : s'.Closing := by
  apply closing_of_drains h hstate hdrains
  intro e he hclosing hgoing
  obtain ⟨i, hi⟩ := mem_iff_getElem?.mp he
  by_cases hsame : i = drain
  · subst hsame
    obtain rfl := mem_unique hd hi
    have hlt := getElem?_lt hd
    exact ⟨d', mem_of_getElem? (getElem?_set_self hlt), hteardown.trans hclosing, hstatus.trans hgoing⟩
  · exact ⟨e, mem_of_getElem? ((getElem?_set_ne (Ne.symm hsame)).trans hi), hclosing, hgoing⟩

theorem Sound.closing_finishDrain (h : s.Sound) (hclosing : s.Closing)
    (hd : s.drains[drain]? = some d) (hgoing : d.status = .going) : (s.finishDrain drain d).Closing := by
  intro hdisposing
  change (if d.isTeardown then LedgerState.disposed else s.state) = .disposing at hdisposing
  split at hdisposing
  · cases hdisposing
  · rename_i hclears
    obtain ⟨e, he, hteardown, hstill⟩ := hclosing hdisposing
    obtain ⟨i, hi⟩ := mem_iff_getElem?.mp he
    obtain rfl := h.single i drain e d hi hstill hd hgoing
    obtain rfl := mem_unique hd hi
    exact absurd hteardown hclears

theorem Sound.closing_turn (h : s.Sound) (hclosing : s.Closing)
    (hd : s.drains[drain]? = some d) (hgoing : d.status = .going) : (s.turn drain d).Closing := by
  rw [Ledger.turn]
  split
  · exact h.closing_finishDrain hclosing hd hgoing
  · rename_i index hindex
    split
    · rename_i hnone
      have hle := (h.walked d (mem_of_getElem? hd) hgoing).1
      rw [getElem?_eq_none_iff] at hnone
      exact absurd (Nat.lt_of_lt_of_le (Nat.lt_succ_self index) (hindex ▸ hle)) (Nat.not_lt_of_le hnone)
    · split
      · exact closing_set hclosing hd rfl rfl rfl rfl
      · exact closing_set hclosing hd rfl rfl rfl rfl

theorem closing_callDisposer (h : s.Closing) (hcall : s.callDisposer r = some s') : s'.Closing := by
  rw [callDisposer] at hcall
  split at hcall
  · cases hcall
    exact closing_of_same h rfl rfl
  · cases hcall

theorem closing_finishEntry (h : s.Closing) (entry : Nat) : (s.finishEntry entry).Closing := by
  apply @closing_of_drains s (s.finishEntry entry) _ h rfl rfl
  intro d hd hteardown hgoing
  refine ⟨d.past entry, mem_map_of_mem hd, ?_, (past_status d entry).trans hgoing⟩
  rw [LedgerDrain.past]
  split <;> exact hteardown

theorem Sound.closing_step (h : s.Sound) (hclosing : s.Closing) (hstep : s.step e = some s') : s'.Closing := by
  cases e with
  | register disposers =>
    cases hstep
    rw [Ledger.register]
    split
    · exact closing_of_same hclosing rfl rfl
    · exact hclosing
  | dispose entry =>
    cases hstep
    rw [Ledger.dispose]
    split
    · exact closing_of_same hclosing rfl rfl
    · exact hclosing
  | release entry =>
    cases hstep
    rw [Ledger.release]
    split
    · exact closing_of_same hclosing rfl rfl
    · exact hclosing
  | clear =>
    cases hstep
    rw [clear]
    split
    · apply @closing_of_drains s (s.beginDrain false) _ hclosing rfl rfl
      intro d hd hteardown hgoing
      exact ⟨d, mem_append_left _ hd, hteardown, hgoing⟩
    · exact hclosing
  | teardown =>
    cases hstep
    rw [teardown]
    split
    · intro _
      exact ⟨_, mem_concat_self, rfl, rfl⟩
    · exact hclosing
  | continues drain =>
    obtain ⟨d, hd, hturn⟩ := bind_eq_some_iff.mp hstep
    obtain ⟨⟨hgoing, -⟩, hs⟩ := ite_none_right_eq_some.mp hturn
    cases hs
    exact h.closing_turn hclosing hd hgoing
  | calls entry =>
    obtain ⟨r, -, hcall⟩ := bind_eq_some_iff.mp hstep
    exact closing_callDisposer hclosing hcall
  | settles entry =>
    obtain ⟨r, -, hsettles⟩ := bind_eq_some_iff.mp hstep
    obtain ⟨-, hs⟩ := ite_none_right_eq_some.mp hsettles
    cases hs
    exact closing_of_same hclosing rfl rfl
  | finishes entry =>
    obtain ⟨r, -, hfinishes⟩ := bind_eq_some_iff.mp hstep
    obtain ⟨-, hs⟩ := ite_none_right_eq_some.mp hfinishes
    cases hs
    exact closing_finishEntry hclosing entry

end Ledger

end Echadron.Base
