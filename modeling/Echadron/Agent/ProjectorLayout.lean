import Echadron.Agent.Projector
import Echadron.Agent.Exchange

namespace Echadron.Agent
open Lib List Option

theorem cleanContent_ok (h : ∃ part ∈ content, isBlankText part = false) :
    ∃ r, cleanContent source content = .ok r := by
  obtain ⟨part, hm, hp⟩ := h
  have hf : part ∈ content.filter fun p => !isBlankText p := mem_filter.mpr ⟨hm, by rw [hp]; rfl⟩
  have hne : ¬ (source.role = .tool ∧ (content.filter fun p => !isBlankText p).length = 0) := by
    rintro ⟨_, hl⟩
    rw [length_eq_zero_iff.mp hl] at hf
    exact absurd hf not_mem_nil
  exact ⟨_, if_neg hne⟩

/-- The empty-content error of the projection is unreachable. -/
theorem projectedContent_ok (source : ContextMessage) : ∃ r, projectedContent source = .ok r := by
  by_cases hr : source.role = .tool
  · rw [projectedContent, if_pos hr]
    exact cleanContent_ok (exists_not_blank_render _)
  · exact ⟨_, if_neg fun h => hr h.1⟩

/-- What one position of the projection is meant to hold. -/
inductive Cell where
  | head (m : Message)
  | slot (id : String)

def layout (heads : List Message) : List Cell :=
  heads.flatMap fun m => .head m :: m.toolCalls.map fun c => .slot c.id

def Cell.Fits (openSlots : JsMap String OpenSlot) (i : Nat) (m : Message) : Cell → Prop
  | .head h => m.role = h.role ∧ m.toolCalls = h.toolCalls
  | .slot id => m.role = .tool ∧ m.toolCalls = [] ∧
      (m.toolCallId = some id ∨ ∃ s, openSlots.get id = some s ∧ s.index = i)

structure Laid (cells : List Cell) (st : Projection) : Prop where
  length_eq : st.out.length = cells.length
  fits : ∀ (i : Nat) (c : Cell), cells[i]? = some c → ∃ m, st.out[i]? = some m ∧ c.Fits st.openSlots i m
  slot_open : ∀ (id : String) (s : OpenSlot), st.openSlots.get id = some s → cells[s.index]? = some (.slot id)
  group : ∀ g : MergeGroup, st.merge = some g →
    ∃ h, cells[g.index]? = some (.head h) ∧ h.role = .user ∧ h.toolCalls = []

theorem Laid.report (h : Laid cells st) (a : List ProjectionAnomaly) : Laid cells (st.report a) := { h with }

theorem Laid.mark (h : Laid cells st) : Laid cells st.markForeignBetween := by
  refine ⟨h.length_eq, ?_, ?_, h.group⟩
  · intro i c hc
    obtain ⟨m, hm, hf⟩ := h.fits i c hc
    refine ⟨m, hm, ?_⟩
    cases c with
    | head _ => exact hf
    | slot id =>
      refine ⟨hf.1, hf.2.1, hf.2.2.imp_right ?_⟩
      rintro ⟨s, hs, he⟩
      exact ⟨{ s with foreignBetween := true }, by
        simp [Projection.markForeignBetween, JsMap.get_mapValues, hs], he⟩
  · intro id s hs
    simp only [Projection.markForeignBetween, JsMap.get_mapValues, map_eq_some_iff] at hs
    obtain ⟨s₀, hs₀, rfl⟩ := hs
    exact h.slot_open id s₀ hs₀

theorem getElem?_concat_cases
    (h : (xs ++ [x])[i]? = some a) :
    xs[i]? = some a ∨ i = xs.length ∧ a = x := by
  rcases lt_trichotomy i xs.length with hi | hi | hi
  · rw [getElem?_append_left hi] at h
    exact .inl h
  · subst hi
    rw [getElem?_concat_length, some.injEq] at h
    exact .inr ⟨rfl, h.symm⟩
  · rw [getElem?_eq_none (by simp; omega)] at h
    cases h

theorem getElem?_concat_of_some {xs : List α} {i : Nat} (h : xs[i]? = some a) (x : α) : (xs ++ [x])[i]? = some a := by
  obtain ⟨hi, _⟩ := List.getElem?_eq_some_iff.mp h
  rw [getElem?_append_left hi, h]

theorem Laid.push (h : Laid cells st) (m : Message) : Laid (cells ++ [.head m]) (st.push m) := by
  refine ⟨by simp [Projection.push, h.length_eq], ?_, ?_, ?_⟩
  · intro i c hc
    rcases getElem?_concat_cases hc with hc | ⟨rfl, rfl⟩
    · obtain ⟨m', hm', hf⟩ := h.fits i c hc
      exact ⟨m', getElem?_concat_of_some hm' m, hf⟩
    · refine ⟨m, ?_, rfl, rfl⟩
      rw [Projection.push, ← h.length_eq, getElem?_concat_length]
  · intro id s hs
    exact getElem?_concat_of_some (h.slot_open id s hs) _
  · intro g hg
    obtain ⟨u, hu, hrole⟩ := h.group g hg
    exact ⟨u, getElem?_concat_of_some hu _, hrole⟩

theorem Laid.clearMerge (h : Laid cells st) : Laid cells { st with merge := none } :=
  ⟨h.length_eq, h.fits, h.slot_open, fun _ hg => nomatch hg⟩

theorem getElem?_set_of_some {xs : List α} (h : xs[i]? = some a) (x : α) : (xs.set i x)[i]? = some x := by
  obtain ⟨hi, _⟩ := List.getElem?_eq_some_iff.mp h
  rw [getElem?_set_self hi]

theorem Laid.setOut (h : Laid cells st) (hi : cells[i]? = some c)
    (hm : c.Fits st.openSlots i m) : Laid cells { st with out := st.out.set i m } := by
  refine ⟨by simp [h.length_eq], ?_, h.slot_open, h.group⟩
  intro j d hd
  obtain ⟨m', hm', hf⟩ := h.fits j d hd
  by_cases hij : i = j
  · subst hij
    obtain rfl : c = d := by rw [hi, some.injEq] at hd; exact hd
    exact ⟨m, getElem?_set_of_some hm' m, hm⟩
  · exact ⟨m', by rw [← hm']; exact getElem?_set_ne hij, hf⟩

theorem Laid.flushMerge (h : Laid cells st) : Laid cells st.flushMerge := by
  unfold Projection.flushMerge
  split
  · exact h
  · rename_i group hg
    split
    · exact h.clearMerge
    · obtain ⟨u, hu, hrole, hcalls⟩ := h.group group hg
      exact (h.setOut hu ⟨hrole.symm, hcalls.symm⟩).clearMerge

theorem Laid.mergeUser (h : Laid cells st) (content : List ContentPart)
    (hu : canMergeUserMessage source = true) (hcalls : source.toolCalls = []) :
    ∃ heads, Laid (cells ++ layout heads) (st.mergeUser source content) ∧
      ∀ u ∈ heads, u.role ≠ .tool ∧ (u.role ≠ .assistant → u.toolCalls = []) := by
  have hrole : source.role = .user := (of_decide_eq_true hu).1
  unfold Projection.mergeUser
  split
  · have hp := h.push (toWireMessage source content)
    refine ⟨[toWireMessage source content], ?_, ?_⟩
    · have hl : layout [toWireMessage source content] = [.head (toWireMessage source content)] := by
        simp [layout, toWireMessage, hcalls]
      rw [hl]
      refine ⟨hp.length_eq, hp.fits, hp.slot_open, ?_⟩
      intro g hg
      cases hg
      refine ⟨toWireMessage source content, ?_, hrole, hcalls⟩
      rw [h.length_eq, getElem?_concat_length]
    · intro u hm
      obtain rfl := mem_singleton.mp hm
      exact ⟨by simp [toWireMessage, hrole], fun _ => hcalls⟩
  · rename_i group hg
    refine ⟨[], ?_, by simp⟩
    rw [layout, flatMap_nil, append_nil]
    refine ⟨h.length_eq, h.fits, h.slot_open, ?_⟩
    intro g hg'
    cases hg'
    split <;> exact h.group group hg

theorem Laid.fill {id : String} (h : Laid cells st) (hs : st.openSlots.get id = some s)
    (hm : m.role = .tool ∧ m.toolCalls = [] ∧ m.toolCallId = some id) :
    Laid cells { st with out := st.out.set s.index m } ∧ ∀ i : Nat, cells[i]? = some (.slot id) →
        ∃ m', (st.out.set s.index m)[i]? = some m' ∧ m'.toolCallId = some id := by
  have hcell := h.slot_open id s hs
  refine ⟨h.setOut hcell ⟨hm.1, hm.2.1, .inl hm.2.2⟩, ?_⟩
  intro i hi
  obtain ⟨m', hm', hf⟩ := h.fits i _ hi
  by_cases hij : s.index = i
  · subst hij
    exact ⟨m, getElem?_set_of_some hm' m, hm.2.2⟩
  · refine ⟨m', by rw [← hm']; exact getElem?_set_ne hij, ?_⟩
    rcases hf.2.2 with hid | ⟨s', hs', he⟩
    · exact hid
    · rw [hs, some.injEq] at hs'
      exact absurd (hs' ▸ he) hij

def Filled (cells : List Cell) (st : Projection) (id : String) : Prop :=
  ∀ i : Nat, cells[i]? = some (.slot id) → ∃ m, st.out[i]? = some m ∧ m.toolCallId = some id

theorem Laid.deleteOpen {id : String} (h : Laid cells st) (hf : Filled cells st id) :
    Laid cells { st with openSlots := st.openSlots.delete id } := by
  refine ⟨h.length_eq, ?_, ?_, h.group⟩
  · intro i c hc
    obtain ⟨m, hm, hfit⟩ := h.fits i c hc
    refine ⟨m, hm, ?_⟩
    cases c with
    | head _ => exact hfit
    | slot id' =>
      by_cases hid : id' = id
      · subst hid
        obtain ⟨m', hm', hid'⟩ := hf i hc
        rw [hm, some.injEq] at hm'
        exact ⟨hfit.1, hfit.2.1, .inl (hm' ▸ hid')⟩
      · simp only [Cell.Fits, JsMap.get_delete_of_ne _ hid]
        exact hfit
  · intro id' s hs
    by_cases hid : id' = id
    · subst hid; simp at hs
    · rw [JsMap.get_delete_of_ne _ hid] at hs
      exact h.slot_open id' s hs

theorem Laid.pushSlot {id : String} (h : Laid cells st) (hf : Filled cells st id) (ownerIndex : Nat) :
    Laid (cells ++ [.slot id])
      { st with
        openSlots := st.openSlots.set id ⟨st.out.length, ownerIndex, false⟩
        out := st.out ++ [toolResultSlot] } := by
  refine ⟨by simp [h.length_eq], ?_, ?_, ?_⟩
  · intro i c hc
    rcases getElem?_concat_cases hc with hi | ⟨rfl, rfl⟩
    · obtain ⟨m, hm, hfit⟩ := h.fits i c hi
      refine ⟨m, getElem?_concat_of_some hm _, ?_⟩
      cases c with
      | head _ => exact hfit
      | slot id' =>
        by_cases hid : id' = id
        · subst hid
          obtain ⟨m', hm', hid'⟩ := hf i hi
          rw [hm, some.injEq] at hm'
          exact ⟨hfit.1, hfit.2.1, .inl (hm' ▸ hid')⟩
        · simp only [Cell.Fits, JsMap.get_set_of_ne _ _ hid]
          exact hfit
    · refine ⟨toolResultSlot, ?_, rfl, rfl, .inr ⟨_, JsMap.get_set_self _ _ _, h.length_eq⟩⟩
      rw [← h.length_eq, getElem?_concat_length]
  · intro id' s hs
    by_cases hid : id' = id
    · subst hid
      rw [JsMap.get_set_self, some.injEq] at hs
      subst hs
      rw [h.length_eq, getElem?_concat_length]
    · rw [JsMap.get_set_of_ne _ _ hid] at hs
      exact getElem?_concat_of_some (h.slot_open id' s hs) _
  · intro g hg
    obtain ⟨u, hu, hrole⟩ := h.group g hg
    exact ⟨u, getElem?_concat_of_some hu _, hrole⟩

theorem Laid.openCall (h : Laid cells st) (owner : Nat) (last : Int) (call : ToolCall) :
    Laid (cells ++ [.slot call.id]) (st.openCall owner last call) := by
  unfold Projection.openCall
  cases hs : st.openSlots.get call.id with
  | none =>
    refine h.pushSlot ?_ owner
    intro i hi
    obtain ⟨m, hm, hf⟩ := h.fits i _ hi
    rcases hf.2.2 with hid | ⟨s, hs', _⟩
    · exact ⟨m, hm, hid⟩
    · rw [hs] at hs'; cases hs'
  | some reopened =>
    obtain ⟨hl, hf⟩ := h.fill hs (m := createInterruptedToolResult call.id) ⟨rfl, rfl, rfl⟩
    exact (hl.report _).pushSlot hf owner

theorem Laid.openCalls (h : Laid cells st) (owner : Nat) (last : Int) (calls : List ToolCall) :
    Laid (cells ++ calls.map fun c => .slot c.id)
      (calls.foldl (Projection.openCall owner last) st) := by
  induction calls generalizing cells st with
  | nil => simpa using h
  | cons call calls ih =>
    have h' := ih (h.openCall owner last call)
    simpa using h'

def PlainHeads (heads : List Message) : Prop :=
  ∀ u ∈ heads, u.role ≠ .tool ∧ (u.role ≠ .assistant → u.toolCalls = [])

theorem layout_append (a b : List Message) : layout (a ++ b) = layout a ++ layout b := by
  rw [layout, flatMap_append]
  rfl

/-- The projection so far is a sequence of messages, each followed by the slots of its calls. -/
def Arranged (st : Projection) : Prop := ∃ heads, PlainHeads heads ∧ Laid (layout heads) st

theorem Arranged.extend (hp : PlainHeads heads) (hp' : PlainHeads heads')
    (h : Laid (layout heads ++ layout heads') st) : Arranged st := by
  refine ⟨heads ++ heads', ?_, by rw [layout_append]; exact h⟩
  intro u hu
  rcases mem_append.mp hu with hu | hu
  · exact hp u hu
  · exact hp' u hu

theorem Laid.pushMessage (h : Laid cells st) (message : Message) (owner : Nat) (last : Int) :
    Laid (cells ++ layout [message])
      (message.toolCalls.foldl (Projection.openCall owner last) (st.flushMerge.push message)) := by
  have h' := (h.flushMerge.push message).openCalls owner last message.toolCalls
  simpa [layout] using h'

theorem Arranged.emitKept (hp : PlainHeads heads) (h : Laid (layout heads) st)
    (source : ContextMessage) (hr : source.role ≠ .tool)
    (hc : source.role ≠ .assistant → source.toolCalls = []) (content : List ContentPart)
    (owner : Nat) (last : Int) :
    Arranged (source.toolCalls.foldl (Projection.openCall owner last)
      (if canMergeUserMessage source then st.mergeUser source content
        else st.flushMerge.push (toWireMessage source content))) := by
  by_cases hu : canMergeUserMessage source = true
  · have hrole : source.role = .user := (of_decide_eq_true hu).1
    have hnil := hc (by rw [hrole]; decide)
    obtain ⟨heads', hl, hp'⟩ := h.mergeUser content hu hnil
    rw [if_pos hu, hnil]
    exact Arranged.extend hp hp' hl
  · rw [if_neg hu]
    have hp' : PlainHeads [toWireMessage source content] := by
      intro u hm
      obtain rfl := mem_singleton.mp hm
      exact ⟨hr, hc⟩
    exact Arranged.extend hp hp' (h.pushMessage (toWireMessage source content) owner last)

theorem Arranged.emitCalls (h : Arranged st) (source : ContextMessage) (hr : source.role ≠ .tool)
    (hc : source.role ≠ .assistant → source.toolCalls = []) (owner : Nat) (last : Int) :
    ∃ st', st.emit source = .ok st' ∧ Arranged (source.toolCalls.foldl (Projection.openCall owner last) st') := by
  obtain ⟨heads, hp, h⟩ := h
  obtain ⟨⟨content, anomalies⟩, hcontent⟩ := projectedContent_ok source
  have hreport := h.report anomalies
  have hmark : Laid (layout heads) (if (st.report anomalies).openSlots.size > 0
      then (st.report anomalies).markForeignBetween else st.report anomalies) := by
    split
    · exact hreport.mark
    · exact hreport
  have hkept := Arranged.emitKept hp hmark source hr hc content owner last
  simp only [Projection.emit, hcontent, bind, Except.bind]
  by_cases hdrop : source.toolCalls.length = 0 ∧ hasDeclaredTools source = false
  · -- a message without calls may be dropped altogether
    have hnil : source.toolCalls = [] := length_eq_zero_iff.mp hdrop.1
    by_cases hempty : content.length = 0
    · rw [if_pos ⟨hdrop, hempty⟩]
      exact ⟨_, rfl, by rw [hnil]; exact ⟨heads, hp, hreport⟩⟩
    rw [if_neg fun h => hempty h.2]
    by_cases hvacuous : content.all isVacuousContentPart = true
    · rw [if_pos ⟨hdrop, hvacuous⟩]
      exact ⟨_, rfl, by rw [hnil]; exact ⟨heads, hp, hreport.report _⟩⟩
    rw [if_neg fun h => hvacuous h.2]
    split
    · rename_i hu; rw [if_pos hu] at hkept; exact ⟨_, rfl, hkept⟩
    · rename_i hu; rw [if_neg hu] at hkept; exact ⟨_, rfl, hkept⟩
  · rw [if_neg fun h => hdrop h.1, if_neg fun h => hdrop h.1]
    split
    · rename_i hu; rw [if_pos hu] at hkept; exact ⟨_, rfl, hkept⟩
    · rename_i hu; rw [if_neg hu] at hkept; exact ⟨_, rfl, hkept⟩

theorem Arranged.placeResult (h : Arranged st) (message : ContextMessage) (toolCallId : String)
    (hr : message.role = .tool) (hc : message.toolCalls = [])
    (hid : message.toolCallId = some toolCallId) :
    ∃ st', st.placeResult message toolCallId = .ok st' ∧ Arranged st' := by
  obtain ⟨heads, hp, h⟩ := h
  unfold Projection.placeResult
  cases hs : st.openSlots.get toolCallId with
  | none =>
    refine ⟨_, rfl, heads, hp, Laid.report ?_ _⟩
    split
    · exact h.mark
    · exact h
  | some slot =>
    obtain ⟨⟨content, anomalies⟩, hcontent⟩ := projectedContent_ok message
    simp only [hcontent]
    refine ⟨_, rfl, heads, hp, Laid.report ?_ _⟩
    obtain ⟨hl, hf⟩ := h.fill (m := toWireMessage message content) hs ⟨hr, hc, hid⟩
    have hd := hl.deleteOpen hf
    split
    · exact { hd with }
    · exact hd

def CallsOnAssistants (history : List ContextMessage) : Prop :=
  ∀ m ∈ history, m.role ≠ .assistant → m.toolCalls = []

theorem Arranged.step (h : Arranged st) (entry : ContextMessage × Nat)
    (hc : entry.1.role ≠ .assistant → entry.1.toolCalls = []) (last : Int) :
    ∃ st', st.step true last entry = .ok st' ∧ Arranged st' := by
  obtain ⟨message, index⟩ := entry
  unfold Projection.step
  by_cases hpart : message.isPartial = some true
  · exact ⟨st, by simp only [hpart, ↓reduceIte]; rfl, h⟩
  simp only [hpart]
  by_cases hrole : message.role = .tool
  · simp only [hrole]
    cases hid : message.toolCallId with
    | none => exact ⟨st, rfl, h⟩
    | some toolCallId => exact h.placeResult message toolCallId hrole (hc (by rw [hrole]; decide)) hid
  · simp only [hrole]
    obtain ⟨st', he, h'⟩ := h.emitCalls message hrole hc index last
    exact ⟨_, by rw [he]; rfl, h'⟩

theorem Arranged.run (h : Arranged st) (entries : List (ContextMessage × Nat))
    (hc : ∀ e ∈ entries, e.1.role ≠ .assistant → e.1.toolCalls = []) (last : Int) :
    ∃ st', entries.foldlM (Projection.step true last) st = .ok st' ∧ Arranged st' := by
  induction entries generalizing st with
  | nil => exact ⟨st, rfl, h⟩
  | cons e entries ih =>
    obtain ⟨st₁, he, h₁⟩ := h.step e (hc e mem_cons_self) last
    obtain ⟨st₂, he₂, h₂⟩ := ih h₁ fun e' hm => hc e' (mem_cons_of_mem _ hm)
    exact ⟨st₂, by rw [foldlM_cons, he]; exact he₂, h₂⟩

theorem Arranged.start : Arranged {} := ⟨[], by simp [PlainHeads], ⟨rfl, by simp [layout], by simp, by simp⟩⟩

/-- The slots in `done` hold their result; the layout itself is as before. -/
structure Closing (cells : List Cell) (done : List String) (st : Projection) : Prop where
  laid : Laid cells st
  filled : ∀ id ∈ done, Filled cells st id

theorem Closing.closeSlot (h : Closing cells done st) (last : Int) (id : String) (slot : OpenSlot)
    (hs : st.openSlots.get id = some slot) :
    Closing cells (done ++ [id]) (st.closeSlot last (id, slot)) := by
  obtain ⟨hl, hf⟩ := h.laid.fill (m := createInterruptedToolResult id) hs ⟨rfl, rfl, rfl⟩
  refine ⟨hl.report _, ?_⟩
  intro id' hm i hi
  by_cases hid : id' = id
  · subst hid
    exact hf i hi
  · have hm' : id' ∈ done := by simpa [hid] using hm
    obtain ⟨m, hmi, hmid⟩ := h.filled id' hm' i hi
    refine ⟨m, ?_, hmid⟩
    rw [← hmi]
    refine getElem?_set_ne fun he => ?_
    have hcell := h.laid.slot_open id slot hs
    rw [show slot.index = i from he, hi] at hcell
    exact hid (by simpa using hcell)

theorem Closing.closeSlots (h : Closing cells done st) (last : Int) (entries : List (String × OpenSlot))
    (hs : ∀ e ∈ entries, st.openSlots.get e.1 = some e.2) :
    Closing cells (done ++ entries.map Prod.fst)
        (entries.foldl (Projection.closeSlot last) st) ∧
      (entries.foldl (Projection.closeSlot last) st).openSlots = st.openSlots := by
  induction entries generalizing done st with
  | nil => simpa using h
  | cons e entries ih =>
    have h' := h.closeSlot last e.1 e.2 (hs e mem_cons_self)
    have ho : (st.closeSlot last e).openSlots = st.openSlots := rfl
    obtain ⟨hc, hopen⟩ := ih h' fun e' hm => by
      rw [ho]; exact hs e' (mem_cons_of_mem _ hm)
    refine ⟨by simpa using hc, by rw [foldl_cons, hopen, ho]⟩

theorem exchanges_of_cells (hp : PlainHeads heads) (out : List Message) (hlen : out.length = (layout heads).length)
    (hfit : ∀ (i : Nat) (c : Cell), (layout heads)[i]? = some c → ∃ m, out[i]? = some m ∧
      match c with
      | .head u => m.role = u.role ∧ m.toolCalls = u.toolCalls
      | .slot id => m.role = .tool ∧ m.toolCalls = [] ∧ m.toolCallId = some id) :
    Exchanges out := by
  induction heads generalizing out with
  | nil =>
    rw [length_eq_zero_iff.mp hlen]
    exact .nil
  | cons u heads ih =>
    have hlay : layout (u :: heads) = .head u :: (u.toolCalls.map (fun c => .slot c.id) ++ layout heads) := rfl
    rw [hlay] at hlen hfit
    cases out with
    | nil => simp at hlen
    | cons m out =>
      obtain ⟨m₀, hm₀, hrole, hcalls⟩ := hfit 0 _ rfl
      obtain rfl : m = m₀ := by simpa using hm₀
      have hlen' : out.length = u.toolCalls.length + (layout heads).length := by
        simpa using hlen
      rw [← take_append_drop u.toolCalls.length out]
      refine .cons (hrole ▸ (hp u mem_cons_self).1) ?_ ?_ ?_
      · rw [hrole, hcalls]
        exact (hp u mem_cons_self).2
      · rw [hcalls]
        refine forall₂_iff_get.mpr ⟨by simp; omega, ?_⟩
        intro i hi hi'
        obtain ⟨m', hm', hf⟩ := hfit (i + 1) (.slot (u.toolCalls.get ⟨i, hi⟩).id) (by
          simp [getElem?_append_left, hi])
        have hget : out[i]? = some m' := by simpa using hm'
        have hiout : i < out.length := by omega
        obtain rfl : out[i] = m' := by simpa [hiout] using hget
        simpa [Answers] using ⟨hf.1, hf.2.2, hf.2.1⟩
      · refine ih (fun v hv => hp v (mem_cons_of_mem _ hv)) _ (by simp; omega) ?_
        intro i c hc
        obtain ⟨m', hm', hf⟩ := hfit (u.toolCalls.length + i + 1) c (by
          simp [getElem?_append_right, hc])
        exact ⟨m', by simpa using hm', hf⟩

theorem Filled.flushMerge {id : String} (hf : Filled cells st id) (h : Laid cells st) :
    Filled cells st.flushMerge id := by
  intro i hi
  obtain ⟨m, hm, hid⟩ := hf i hi
  refine ⟨m, ?_, hid⟩
  rw [← hm]
  unfold Projection.flushMerge
  split
  · rfl
  · rename_i group hg
    split
    · rfl
    · refine getElem?_set_ne fun he => ?_
      obtain ⟨u, hu, _⟩ := h.group group hg
      rw [show group.index = i from he, hi] at hu
      cases hu

theorem Arranged.finish (h : Arranged st) (last : Int) : Exchanges (st.finish last).out := by
  obtain ⟨heads, hp, hl⟩ := h
  have hstart : Closing (layout heads) [] st := ⟨hl, by simp⟩
  obtain ⟨hc, hopen⟩ := hstart.closeSlots last st.openSlots.entries fun e hm =>
    (JsMap.mem_entries_iff _ _ _).mp hm
  have hfilled (id : String) : Filled (layout heads)
      (st.openSlots.entries.foldl (Projection.closeSlot last) st) id := by
    intro i hi
    obtain ⟨m, hm, hf⟩ := hc.laid.fits i _ hi
    rcases hf.2.2 with hid | ⟨s, hs, _⟩
    · exact ⟨m, hm, hid⟩
    · have hkey : id ∈ st.openSlots.keys := (JsMap.mem_keys_iff _ _).mpr ⟨s, by rw [← hopen]; exact hs⟩
      exact hc.filled id hkey i hi
  have hflush := hc.laid.flushMerge
  refine exchanges_of_cells hp _ hflush.length_eq ?_
  intro i c hi
  obtain ⟨m, hm, hf⟩ := hflush.fits i c hi
  refine ⟨m, hm, ?_⟩
  cases c with
  | head u => exact hf
  | slot id =>
    obtain ⟨m', hm', hid⟩ := (hfilled id).flushMerge hc.laid i hi
    rw [hm', some.injEq] at hm
    exact ⟨hf.1, hf.2.1, hm ▸ hid⟩

theorem project_exchanges (history : List ContextMessage) (hc : CallsOnAssistants history)
    (ha : hasAssistant history = true) :
    ∃ out anomalies, project history = .ok (out, anomalies) ∧ Exchanges out := by
  obtain ⟨st, he, h⟩ := Arranged.start.run history.zipIdx (fun e hm =>
    hc e.1 (fst_mem_of_mem_zipIdx hm)) (lastNonToolIndex history)
  refine ⟨_, (st.finish (lastNonToolIndex history)).anomalies, ?_, h.finish (lastNonToolIndex history)⟩
  rw [project, ha, he]
  rfl

end Echadron.Agent
