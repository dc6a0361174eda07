import Echadron.Tsugite.StreamedCalls

namespace Echadron.Tsugite
open Lib Agent List Option

/-! The assembled message is what the stream says. -/

variable {I : Type} [DecidableEq I] {randomUUID : Nat → String}

theorem functionAt_self {toolCall : ToolCallDelta I} (h : toolCall.index = some index) :
    toolCall.functionAt index = toolCall.function := if_pos h

theorem spoken_mergeContent (h : mergeContent target source = some merged) :
    spoken merged = spoken target ++ spoken source := by
  unfold mergeContent at h
  split at h
  · cases h
    rw [spoken, spoken, spoken, String.toList_append, map_append]
  · cases h
    rw [spoken, spoken, spoken, String.toList_append, map_append]
  · cases h

def StreamDecoder.bufferAt (d : StreamDecoder I) (index : I) : BufferedToolCall :=
  (d.bufferedByIndex.get index).getD {}

structure Buffers (toolCalls : List (ToolCallDelta I)) (d : StreamDecoder I) : Prop where
  emitted : ∀ index, (d.bufferAt index).emitted = true ↔ index ∈ namedIndices toolCalls
  arguments : ∀ index, index ∉ namedIndices toolCalls → (d.bufferAt index).arguments = fragments index toolCalls
  id : ∀ index, index ∉ namedIndices toolCalls → (d.bufferAt index).id = idOf index toolCalls

theorem not_named {index : I} (h : index ∉ namedIndices toolCalls) : nameOf index toolCalls = none := by
  apply not_isSome_iff_eq_none.mp
  exact fun hsome => h (((namedIndices_spec toolCalls).2 index).mpr hsome)

theorem Buffers.other (h : Buffers toolCalls d) {index : I} (hnone : toolCall.functionAt index = none)
    (hnamed : index ∈ namedIndices (toolCalls ++ [toolCall]) ↔ index ∈ namedIndices toolCalls) :
    ((d.bufferAt index).emitted = true ↔ index ∈ namedIndices (toolCalls ++ [toolCall])) ∧
      (index ∉ namedIndices (toolCalls ++ [toolCall]) →
        (d.bufferAt index).arguments = fragments index (toolCalls ++ [toolCall])) ∧
      (index ∉ namedIndices (toolCalls ++ [toolCall]) →
        (d.bufferAt index).id = idOf index (toolCalls ++ [toolCall])) := by
  have hfragment : toolCall.fragmentAt index = "" := by
    rw [ToolCallDelta.fragmentAt, hnone]
    rfl
  rw [hnamed]
  refine ⟨h.emitted index, fun hnot => ?_, fun hnot => ?_⟩
  · rw [h.arguments index hnot, fragments_concat, hfragment, String.append_empty]
  · rw [h.id index hnot, idOf_concat index toolCall (not_named hnot), hnone]
    rfl

theorem Buffers.silent {d : StreamDecoder I} (h : Buffers toolCalls d)
    (hnone : toolCall.function = none) : Buffers (toolCalls ++ [toolCall]) d := by
  have hfunction : ∀ index, toolCall.functionAt index = none := by
    intro index
    unfold ToolCallDelta.functionAt
    split_ifs
    · exact hnone
    · rfl
  have hsame : namedIndices (toolCalls ++ [toolCall]) = namedIndices toolCalls := by
    apply namedIndices_same
    intro index _
    left
    rw [ToolCallDelta.nameAt, hfunction index]
    rfl
  constructor
  · exact fun index => (h.other (hfunction index) (by rw [hsame])).1
  · exact fun index => (h.other (hfunction index) (by rw [hsame])).2.1
  · exact fun index => (h.other (hfunction index) (by rw [hsame])).2.2

theorem Buffers.put (h : Buffers toolCalls d) {toolCall : ToolCallDelta I} (hindex : toolCall.index = some index)
    (hd : d'.bufferedByIndex = d.bufferedByIndex.set index b)
    (hemitted : b.emitted = true ↔ index ∈ namedIndices (toolCalls ++ [toolCall]))
    (harguments : index ∉ namedIndices (toolCalls ++ [toolCall]) →
      b.arguments = fragments index (toolCalls ++ [toolCall]))
    (hid : index ∉ namedIndices (toolCalls ++ [toolCall]) → b.id = idOf index (toolCalls ++ [toolCall])) :
    Buffers (toolCalls ++ [toolCall]) d' := by
  have hself : d'.bufferAt index = b := by
    rw [StreamDecoder.bufferAt, hd, JsMap.get_set_self]
    rfl
  have hother : ∀ other, other ≠ index → d'.bufferAt other = d.bufferAt other := by
    intro other hne
    rw [StreamDecoder.bufferAt, hd, JsMap.get_set_of_ne _ _ hne]
    rfl
  have hrest : ∀ other, other ≠ index → toolCall.functionAt other = none ∧
      (other ∈ namedIndices (toolCalls ++ [toolCall]) ↔ other ∈ namedIndices toolCalls) := by
    intro other hne
    have hneIndex : toolCall.index ≠ some other := by
      rw [hindex]
      exact fun hsame => hne (some.inj hsame).symm
    refine ⟨functionAt_of_ne hneIndex, ?_⟩
    rw [(namedIndices_spec _).2, (namedIndices_spec _).2, nameOf_concat, nameAt_of_ne hneIndex, or_none]
  constructor
  · intro other
    by_cases hne : other = index
    · subst hne
      rw [hself]
      exact hemitted
    · rw [hother other hne]
      exact (h.other (hrest other hne).1 (hrest other hne).2).1
  · intro other
    by_cases hne : other = index
    · subst hne
      rw [hself]
      exact harguments
    · rw [hother other hne]
      exact (h.other (hrest other hne).1 (hrest other hne).2).2.1
  · intro other
    by_cases hne : other = index
    · subst hne
      rw [hself]
      exact hid
    · rw [hother other hne]
      exact (h.other (hrest other hne).1 (hrest other hne).2).2.2

theorem Buffers.drawn {d : StreamDecoder I} (h : Buffers toolCalls d)
    (id : Option String) : Buffers toolCalls (d.drawn id) := by
  unfold StreamDecoder.drawn
  split_ifs
  · exact h
  · exact ⟨h.emitted, h.arguments, h.id⟩

/-- What was assembled of a stream, where `done` are the indices of the calls that are flushed. -/
structure Assembled (randomUUID : Nat → String) (toolCalls : List (ToolCallDelta I)) (said : List (Bool × Char))
    (s : Assembly I) (done : List I) : Prop where
  length : done.length = s.toolCalls.length
  finished : ∀ (n : Nat) (index : I), done[n]? = some index →
    ∃ call, s.toolCalls[n]? = some call ∧ CallOf randomUUID toolCalls index call
  map : ∀ (index : I) (n : Nat), s.toolCallIndexMap.get index = some n ↔ done[n]? = some index
  pendingCall : ∀ call streamIndex, s.pendingPart = some (.function call streamIndex) →
    ∃ index, streamIndex = some index ∧ namedIndices toolCalls = done ++ [index] ∧
      CallOf randomUUID toolCalls index call
  pendingOther : (∀ call streamIndex, s.pendingPart ≠ some (.function call streamIndex)) →
    namedIndices toolCalls = done
  pendingPart : ∀ argumentsPart index, s.pendingPart ≠ some (.toolCallPart argumentsPart index)
  content : (s.finish.content).flatMap spoken = said

/-- After the pending part is flushed every call is among the finished ones. -/
theorem Assembled.finish {s : Assembly I} (h : Assembled randomUUID toolCalls said s done) :
    s.finish.pendingPart = none ∧ Assembled randomUUID toolCalls said s.finish (namedIndices toolCalls) := by
  have hnone : s.finish.pendingPart = none := by
    cases hpending : s.pendingPart with
    | none => rw [finish_of_none hpending, hpending]
    | some part => rw [finish_of_some hpending]
  have htwice : s.finish.finish = s.finish := finish_of_none hnone
  refine ⟨hnone, ?_⟩
  have hcalls : (namedIndices toolCalls).length = s.finish.toolCalls.length ∧
      (∀ (n : Nat) (index : I), (namedIndices toolCalls)[n]? = some index →
        ∃ call, s.finish.toolCalls[n]? = some call ∧ CallOf randomUUID toolCalls index call) ∧
      ∀ (index : I) (n : Nat), s.finish.toolCallIndexMap.get index = some n ↔ (namedIndices toolCalls)[n]? = some index := by
    cases hpending : s.pendingPart with
    | none =>
      rw [finish_of_none hpending, h.pendingOther (fun _ _ => by rw [hpending]; exact fun hsome => by cases hsome)]
      exact ⟨h.length, h.finished, h.map⟩
    | some part =>
      rw [finish_of_some hpending]
      cases part with
      | content part =>
        rw [h.pendingOther (fun _ _ => by rw [hpending]; exact fun hsome => by cases hsome)]
        exact ⟨h.length, h.finished, h.map⟩
      | toolCallPart argumentsPart index => exact absurd hpending (h.pendingPart argumentsPart index)
      | function call streamIndex =>
        obtain ⟨index, rfl, hnamed, hcall⟩ := h.pendingCall call streamIndex hpending
        have hnew : index ∉ done := by
          have hnodup := (namedIndices_spec toolCalls).1
          rw [hnamed, ← concat_eq_append, nodup_concat] at hnodup
          exact hnodup.1
        rw [hnamed]
        refine ⟨?_, ?_, ?_⟩
        · change (done ++ [index]).length = (s.toolCalls ++ [call]).length
          rw [length_append, length_append, h.length]
          rfl
        · intro n other hn
          change ∃ call', (s.toolCalls ++ [call])[n]? = some call' ∧ _
          by_cases hlt : n < done.length
          · rw [getElem?_append_left hlt] at hn
            rw [getElem?_append_left (h.length ▸ hlt)]
            exact h.finished n other hn
          · have hle := Nat.le_of_not_lt hlt
            rw [getElem?_append_right hle] at hn
            have hlast : n - done.length = 0 := by
              have hbound := getElem?_lt hn
              rw [length_singleton] at hbound
              omega
            rw [hlast] at hn
            cases hn
            refine ⟨call, ?_, hcall⟩
            rw [getElem?_append_right (h.length ▸ hle), ← h.length, hlast]
            rfl
        · intro other n
          change (s.toolCallIndexMap.set index s.toolCalls.length).get other = some n ↔ _
          by_cases hother : other = index
          · subst hother
            rw [JsMap.get_set_self, ← h.length]
            constructor
            · intro hn
              cases hn
              exact getElem?_concat_length
            · intro hn
              by_cases hlt : n < done.length
              · rw [getElem?_append_left hlt] at hn
                exact absurd (mem_of_getElem? hn) hnew
              · have hbound := getElem?_lt hn
                rw [length_append, length_singleton] at hbound
                exact congrArg some (by omega)
          · rw [JsMap.get_set_of_ne _ _ hother, h.map]
            by_cases hlt : n < done.length
            · rw [getElem?_append_left hlt]
            · have hle := Nat.le_of_not_lt hlt
              rw [getElem?_append_right hle, getElem?_eq_none hle]
              constructor
              · intro hn
                cases hn
              · intro hn
                exact absurd (mem_singleton.mp (mem_of_getElem? hn)) hother
  obtain ⟨hlength, hfinished, hmap⟩ := hcalls
  constructor
  · exact hlength
  · exact hfinished
  · exact hmap
  · intro call streamIndex hpending
    rw [hnone] at hpending
    cases hpending
  · exact fun _ => rfl
  · intro argumentsPart index hpending
    rw [hnone] at hpending
    cases hpending
  · rw [htwice]
    exact h.content

theorem finish_content {s s' : Assembly I} (hcontent : s'.content = s.content)
    (hpending : s'.pendingPart = s.pendingPart) : s'.finish.content = s.finish.content := by
  cases hpart : s.pendingPart with
  | none => rw [finish_of_none hpart, finish_of_none (hpending.trans hpart), hcontent]
  | some part =>
    rw [finish_of_some hpart, finish_of_some (hpending.trans hpart)]
    cases part with
    | content part => exact congrArg (· ++ [part]) hcontent
    | toolCallPart part index => exact hcontent
    | function call streamIndex => cases streamIndex <;> exact hcontent

theorem Assembled.keep {done : List I} (h : Assembled randomUUID toolCalls said s done)
    (hnamed : namedIndices (toolCalls ++ [toolCall]) = namedIndices toolCalls)
    (hfragment : ∀ index ∈ namedIndices toolCalls, toolCall.fragmentAt index = "") :
    Assembled randomUUID (toolCalls ++ [toolCall]) said s done := by
  have hdone : ∀ index ∈ done, index ∈ namedIndices toolCalls := by
    intro index hin
    by_cases hcall : ∃ call streamIndex, s.pendingPart = some (.function call streamIndex)
    · obtain ⟨call, streamIndex, hpending⟩ := hcall
      obtain ⟨_, _, heq, _⟩ := h.pendingCall call streamIndex hpending
      rw [heq]
      exact mem_append_left _ hin
    · rw [h.pendingOther fun call streamIndex hpending => hcall ⟨call, streamIndex, hpending⟩]
      exact hin
  refine { h with finished := ?_, pendingCall := ?_, pendingOther := ?_ }
  · intro n index hn
    obtain ⟨call, hget, hcall⟩ := h.finished n index hn
    exact ⟨call, hget, hcall.keep (hfragment index (hdone index (mem_of_getElem? hn)))⟩
  · intro call streamIndex hpending
    obtain ⟨index, hindex, heq, hcall⟩ := h.pendingCall call streamIndex hpending
    have hin : index ∈ namedIndices toolCalls := by
      rw [heq]
      exact mem_append_right _ (mem_singleton_self index)
    exact ⟨index, hindex, hnamed.trans heq, hcall.keep (hfragment index hin)⟩
  · exact fun hother => hnamed.trans (h.pendingOther hother)

theorem Assembled.speak {s : Assembly I} (h : Assembled randomUUID toolCalls said s done) (part : ContentPart) :
    ∃ done', Assembled randomUUID toolCalls (said ++ spoken part) (s.take (.content part)) done' := by
  change ∃ done', Assembled randomUUID toolCalls (said ++ spoken part) (s.place (.content part)) done'
  by_cases hmerge : ∃ pending merged, s.pendingPart = some (.content pending) ∧
      mergeContent pending part = some merged
  · obtain ⟨pending, merged, hpending, hmerged⟩ := hmerge
    have hplace : s.place (.content part) = { s with pendingPart := some (.content merged) } := by
      rw [Assembly.place, hpending]
      dsimp only
      rw [mergeInPlace, hmerged]
      rfl
    have hcontent := h.content
    rw [finish_of_some hpending] at hcontent
    change (s.content ++ [pending]).flatMap spoken = said at hcontent
    refine ⟨done, ?_⟩
    rw [hplace]
    constructor
    · exact h.length
    · exact h.finished
    · exact h.map
    · intro call streamIndex hcall
      cases hcall
    · intro _
      apply h.pendingOther
      intro call streamIndex hcall
      rw [hpending] at hcall
      cases hcall
    · intro argumentsPart index hpart
      cases hpart
    · change (s.content ++ [merged]).flatMap spoken = said ++ spoken part
      rw [← hcontent, flatMap_append, flatMap_append, flatMap_singleton, flatMap_singleton,
        spoken_mergeContent hmerged, append_assoc]
  · have hunmerged : ∀ pending, s.pendingPart = some pending →
        mergeInPlace pending (StreamedMessagePart.content part) = none := by
      intro pending hpending
      cases pending with
      | content pending =>
        rw [mergeInPlace]
        cases hmerged : mergeContent pending part with
        | none => rfl
        | some merged => exact absurd ⟨pending, merged, hpending, hmerged⟩ hmerge
      | function call streamIndex => rfl
      | toolCallPart argumentsPart index => rfl
    obtain ⟨hnone, hflushed⟩ := h.finish
    rw [place_of_unmerged hunmerged]
    refine ⟨namedIndices toolCalls, ?_⟩
    have hcontent := hflushed.content
    rw [finish_of_none hnone] at hcontent
    constructor
    · exact hflushed.length
    · exact hflushed.finished
    · exact hflushed.map
    · intro call streamIndex hcall
      cases hcall
    · exact fun _ => rfl
    · intro argumentsPart index hpart
      cases hpart
    · change (s.finish.content ++ [part]).flatMap spoken = said ++ spoken part
      rw [flatMap_append, hcontent, flatMap_singleton]

theorem Assembled.start {toolCalls : List (ToolCallDelta I)} {s : Assembly I} {done : List I}
    (h : Assembled randomUUID toolCalls said s done) {toolCall : ToolCallDelta I} {index : I} {call : ToolCall}
    (hnamed : namedIndices (toolCalls ++ [toolCall]) = namedIndices toolCalls ++ [index])
    (hfragment : ∀ other ∈ namedIndices toolCalls, toolCall.fragmentAt other = "")
    (hcall : CallOf randomUUID (toolCalls ++ [toolCall]) index call) :
    ∃ done', Assembled randomUUID (toolCalls ++ [toolCall]) said (s.take (.function call (some index))) done' := by
  have hunmerged : ∀ pending, s.pendingPart = some pending →
      mergeInPlace pending (StreamedMessagePart.function call (some index)) = none := by
    intro pending _
    cases pending <;> rfl
  obtain ⟨hnone, hflushed⟩ := h.finish
  have hcontent := hflushed.content
  rw [finish_of_none hnone] at hcontent
  change ∃ done', Assembled randomUUID (toolCalls ++ [toolCall]) said (s.place (.function call (some index))) done'
  rw [place_of_unmerged hunmerged]
  refine ⟨namedIndices toolCalls, ?_⟩
  constructor
  · exact hflushed.length
  · intro n other hn
    obtain ⟨call', hget, hcall'⟩ := hflushed.finished n other hn
    exact ⟨call', hget, hcall'.keep (hfragment other (mem_of_getElem? hn))⟩
  · exact hflushed.map
  · intro call' streamIndex hpending
    injection hpending with hpending
    injection hpending with hsame hindex
    exact ⟨index, hindex.symm, hnamed, hsame ▸ hcall⟩
  · intro hother
    exact absurd rfl (hother call (some index))
  · intro argumentsPart other hpart
    cases hpart
  · exact hcontent

theorem Assembled.extend {toolCalls : List (ToolCallDelta I)} (h : Assembled randomUUID toolCalls said s done)
    (hindex : toolCall.index = some index)
    (hin : index ∈ namedIndices toolCalls) (hpart : argumentsPart.getD "" = toolCall.fragmentAt index) :
    Assembled randomUUID (toolCalls ++ [toolCall]) said (s.take (.toolCallPart argumentsPart (some index))) done := by
  have hnamed : namedIndices (toolCalls ++ [toolCall]) = namedIndices toolCalls := by
    apply namedIndices_same
    intro other hother
    obtain rfl := mem_unique hindex hother
    exact .inr hin
  have hfragment : ∀ other, other ≠ index → toolCall.fragmentAt other = "" := by
    intro other hne
    apply fragmentAt_of_ne
    rw [hindex]
    exact fun hsame => hne (some.inj hsame).symm
  have hnodup := (namedIndices_spec toolCalls).1
  by_cases hpending : ∃ call, s.pendingPart = some (.function call (some index))
  · obtain ⟨call, hpending⟩ := hpending
    have htake : s.take (.toolCallPart argumentsPart (some index)) = { s with
        pendingPart := some (.function
          { call with arguments := addArguments call.arguments argumentsPart } (some index)) } := by
      have hat : Assembly.isPendingToolCallAtIndex s.pendingPart index = true := by
        rw [hpending]
        exact decide_eq_true rfl
      rw [Assembly.take, if_pos hat, Assembly.place, hpending]
      rfl
    obtain ⟨_, hsame, heq, hcall⟩ := h.pendingCall call (some index) hpending
    cases hsame
    have hnew : index ∉ done := by
      rw [heq, ← concat_eq_append, nodup_concat] at hnodup
      exact hnodup.1
    have hcontent := h.content
    rw [finish_of_some hpending] at hcontent
    rw [htake]
    refine { h with finished := ?_, pendingCall := ?_, pendingOther := ?_, pendingPart := ?_, content := ?_ }
    · intro n other hn
      obtain ⟨call', hget, hcall'⟩ := h.finished n other hn
      have hne : other ≠ index := by
        rintro rfl
        exact hnew (mem_of_getElem? hn)
      exact ⟨call', hget, hcall'.keep (hfragment other hne)⟩
    · intro call' streamIndex hsome
      injection hsome with hsome
      injection hsome with hsame hindex'
      exact ⟨index, hindex'.symm, hnamed.trans heq, hsame ▸ hcall.extend hpart⟩
    · exact fun hother => absurd rfl (hother _ (some index))
    · intro _ _ hsome
      cases hsome
    · exact hcontent
  · have hdone : index ∈ done := by
      by_cases hcall : ∃ call streamIndex, s.pendingPart = some (.function call streamIndex)
      · obtain ⟨call, streamIndex, hsome⟩ := hcall
        obtain ⟨other, rfl, heq, _⟩ := h.pendingCall call streamIndex hsome
        rw [heq] at hin
        rcases mem_snoc.mp hin with hin | rfl
        · exact hin
        · exact absurd ⟨call, hsome⟩ hpending
      · rw [h.pendingOther fun call streamIndex hsome => hcall ⟨call, streamIndex, hsome⟩] at hin
        exact hin
    obtain ⟨arrayIdx, harray⟩ := mem_iff_getElem?.mp hdone
    obtain ⟨target, htarget, hcallOf⟩ := h.finished arrayIdx index harray
    have htake : s.take (.toolCallPart argumentsPart (some index)) = { s with
        toolCalls := s.toolCalls.set arrayIdx
          { target with arguments := addArguments target.arguments argumentsPart } } := by
      have hat : Assembly.isPendingToolCallAtIndex s.pendingPart index = false := by
        unfold Assembly.isPendingToolCallAtIndex
        split
        · rename_i call streamIndex hsome
          apply decide_eq_false
          rintro rfl
          exact hpending ⟨call, hsome⟩
        · rfl
      rw [Assembly.take, if_neg (by rw [hat]; exact Bool.false_ne_true), (h.map index arrayIdx).mpr harray]
      dsimp only
      rw [Assembly.extend, htarget]
    have hnodupDone : done.Nodup := by
      by_cases hcall : ∃ call streamIndex, s.pendingPart = some (.function call streamIndex)
      · obtain ⟨call, streamIndex, hsome⟩ := hcall
        obtain ⟨_, _, heq, _⟩ := h.pendingCall call streamIndex hsome
        rw [heq] at hnodup
        exact (nodup_append.mp hnodup).1
      · rw [h.pendingOther fun call streamIndex hsome => hcall ⟨call, streamIndex, hsome⟩] at hnodup
        exact hnodup
    rw [htake]
    refine { h with length := ?_, finished := ?_, pendingCall := ?_, pendingOther := ?_, content := ?_ }
    · rw [length_set]
      exact h.length
    · intro n other hn
      by_cases hsame : n = arrayIdx
      · subst hsame
        obtain rfl := mem_unique harray hn
        have hlt := getElem?_lt htarget
        exact ⟨_, getElem?_set_self hlt, hcallOf.extend hpart⟩
      · obtain ⟨call', hget, hcall'⟩ := h.finished n other hn
        have hne : other ≠ index := by
          rintro rfl
          have hlt := getElem?_lt hn
          exact hsame ((getElem?_inj hlt hnodupDone).mp (hn.trans harray.symm))
        exact ⟨call', (getElem?_set_ne (Ne.symm hsame)).trans hget, hcall'.keep (hfragment other hne)⟩
    · intro call streamIndex hsome
      obtain ⟨other, hother, heq, hcall⟩ := h.pendingCall call streamIndex hsome
      have hne : other ≠ index := by
        rintro rfl
        rw [hother] at hsome
        exact hpending ⟨call, hsome⟩
      exact ⟨other, hother, hnamed.trans heq, hcall.keep (hfragment other hne)⟩
    · exact fun hother => hnamed.trans (h.pendingOther hother)
    · have hsame : ∀ calls : List ToolCall,
          ({ s with toolCalls := calls } : Assembly I).finish.content = s.finish.content :=
        fun _ => finish_content rfl rfl
      rw [hsame]
      exact h.content

theorem Assembled.convert {toolCalls : List (ToolCallDelta I)} {d : StreamDecoder I} {s : Assembly I} {done : List I}
    (h : Assembled randomUUID toolCalls said s done) (hbuffers : Buffers toolCalls d) {toolCall : ToolCallDelta I}
    (hindexed : toolCall.function.isSome = true → toolCall.index.isSome = true) :
    Buffers (toolCalls ++ [toolCall]) (d.convertChatCompletionStreamToolCall randomUUID toolCall).1 ∧
      ∃ done', Assembled randomUUID (toolCalls ++ [toolCall]) said
        ((d.convertChatCompletionStreamToolCall randomUUID toolCall).2.foldl Assembly.take s) done' := by
  cases hfunction : toolCall.function with
  | none =>
    have hconvert : d.convertChatCompletionStreamToolCall randomUUID toolCall = (d, []) := by
      rw [StreamDecoder.convertChatCompletionStreamToolCall, hfunction]
    have hsilent : ∀ index, toolCall.functionAt index = none := by
      intro index
      unfold ToolCallDelta.functionAt
      split_ifs
      · exact hfunction
      · rfl
    rw [hconvert]
    refine ⟨hbuffers.silent hfunction, done, ?_⟩
    apply h.keep
    · apply namedIndices_same
      intro index _
      left
      rw [ToolCallDelta.nameAt, hsilent index]
      rfl
    · intro index _
      rw [ToolCallDelta.fragmentAt, hsilent index]
      rfl
  | some f =>
    rw [hfunction] at hindexed
    obtain ⟨index, hindex⟩ := isSome_iff_exists.mp (hindexed rfl)
    have hconvert : d.convertChatCompletionStreamToolCall randomUUID toolCall =
        d.convertAtIndex randomUUID index toolCall.id f := by
      rw [StreamDecoder.convertChatCompletionStreamToolCall, hfunction, hindex]
    have hat : toolCall.functionAt index = some f := (functionAt_self hindex).trans hfunction
    have hname : toolCall.nameAt index = f.concreteName := by
      rw [ToolCallDelta.nameAt, hat]
      rfl
    have hfragment : toolCall.fragmentAt index = f.arguments.getD "" := by
      rw [ToolCallDelta.fragmentAt, hat]
      rfl
    have hothers : ∀ other, other ≠ index → toolCall.fragmentAt other = "" := by
      intro other hne
      apply fragmentAt_of_ne
      rw [hindex]
      exact fun hsame => hne (some.inj hsame).symm
    have hempty : f.hasArguments = false → f.arguments.getD "" = "" := by
      intro hno
      unfold ToolFunctionDelta.hasArguments at hno
      cases harguments : f.arguments with
      | none => rfl
      | some text =>
        rw [harguments] at hno
        exact Decidable.not_not.mp (of_decide_eq_false hno)
    rw [hconvert]
    by_cases hin : index ∈ namedIndices toolCalls
    · have hemitted := (hbuffers.emitted index).mpr hin
      have hnamed : namedIndices (toolCalls ++ [toolCall]) = namedIndices toolCalls := by
        apply namedIndices_same
        intro other hother
        obtain rfl := mem_unique hindex hother
        exact .inr hin
      have hout : d.convertAtIndex randomUUID index toolCall.id f =
          (d.putBuffer index { d.bufferAt index with id := toolCall.id.or (d.bufferAt index).id },
            if f.hasArguments then [.toolCallPart f.arguments (some index)] else []) := if_pos hemitted
      rw [hout]
      constructor
      · apply hbuffers.put hindex rfl
        · rw [hnamed]
          exact ⟨fun _ => hin, fun _ => hemitted⟩
        · rw [hnamed]
          exact absurd hin
        · rw [hnamed]
          exact absurd hin
      · split_ifs with harguments
        · exact ⟨done, h.extend hindex hin hfragment.symm⟩
        · refine ⟨done, h.keep hnamed ?_⟩
          intro other _
          by_cases hsame : other = index
          · rw [hsame, hfragment]
            exact hempty (Bool.eq_false_iff.mpr harguments)
          · exact hothers other hsame
    · have hnotEmitted : ¬(d.bufferAt index).emitted = true := fun hsome => hin ((hbuffers.emitted index).mp hsome)
      have hwaiting := hbuffers.arguments index hin
      have hid := hbuffers.id index hin
      have hidOf : idOf index (toolCalls ++ [toolCall]) = toolCall.id.or (d.bufferAt index).id := by
        rw [idOf_concat index toolCall (not_named hin), hat, hid]
        rfl
      have hrest : ∀ other ∈ namedIndices toolCalls, toolCall.fragmentAt other = "" := by
        intro other hother
        apply hothers
        rintro rfl
        exact hin hother
      cases hconcrete : f.concreteName with
      | none =>
        have hnamed : namedIndices (toolCalls ++ [toolCall]) = namedIndices toolCalls := by
          apply namedIndices_same
          intro other hother
          obtain rfl := mem_unique hindex hother
          exact .inl (hname.trans hconcrete)
        have hout : d.convertAtIndex randomUUID index toolCall.id f = (d.putBuffer index
              (if f.hasArguments then
                { d.bufferAt index with
                  id := toolCall.id.or (d.bufferAt index).id
                  arguments := (d.bufferAt index).arguments ++ f.arguments.getD "" }
              else { d.bufferAt index with id := toolCall.id.or (d.bufferAt index).id }), []) := by
          unfold StreamDecoder.convertAtIndex
          rw [hconcrete]
          exact if_neg hnotEmitted
        rw [hout]
        refine ⟨?_, done, h.keep hnamed hrest⟩
        apply hbuffers.put hindex rfl
        · rw [hnamed]
          split_ifs
          · exact ⟨fun hsome => absurd hsome hnotEmitted, fun hsome => absurd hsome hin⟩
          · exact ⟨fun hsome => absurd hsome hnotEmitted, fun hsome => absurd hsome hin⟩
        · intro _
          rw [fragments_concat, hfragment]
          split_ifs with harguments
          · rw [hwaiting]
          · rw [hwaiting, hempty (Bool.eq_false_iff.mpr harguments), String.append_empty]
        · intro _
          rw [hidOf]
          split_ifs <;> rfl
      | some name =>
        have hnamed : namedIndices (toolCalls ++ [toolCall]) = namedIndices toolCalls ++ [index] := by
          rw [namedIndices_concat toolCalls hindex]
          apply if_pos
          rw [hname, hconcrete]
          exact ⟨rfl, hin⟩
        have hnew : index ∈ namedIndices (toolCalls ++ [toolCall]) := by
          rw [hnamed]
          exact mem_append_right _ (mem_singleton_self index)
        have hout : d.convertAtIndex randomUUID index toolCall.id f = ((d.putBuffer index
                { d.bufferAt index with
                  id := toolCall.id.or (d.bufferAt index).id
                  emitted := true
                  arguments := "" }).drawn (toolCall.id.or (d.bufferAt index).id),
              [.function
                { id := d.idOr randomUUID (toolCall.id.or (d.bufferAt index).id)
                  name := name
                  arguments :=
                    if (d.bufferAt index).arguments ≠ "" then
                      some ((d.bufferAt index).arguments ++ f.arguments.getD "")
                    else f.arguments }
                (some index)]) := by
          unfold StreamDecoder.convertAtIndex
          rw [hconcrete]
          exact if_neg hnotEmitted
        rw [hout]
        constructor
        · apply Buffers.drawn
          apply hbuffers.put hindex rfl
          · exact ⟨fun _ => hnew, fun _ => rfl⟩
          · exact absurd hnew
          · exact absurd hnew
        · apply h.start hnamed hrest
          constructor
          · rw [nameOf_concat, not_named hin, hname, hconcrete]
            rfl
          · rw [hidOf]
            cases hsome : toolCall.id.or (d.bufferAt index).id with
            | some id => exact .inl rfl
            | none => exact .inr ⟨rfl, d.generated, rfl⟩
          · rw [fragments_concat, hfragment, ← hwaiting]
            split_ifs with hbefore
            · rfl
            · rw [Decidable.not_not.mp hbefore, String.empty_append]
          · rfl

theorem buffers_empty : Buffers [] ({} : StreamDecoder I) := by
  constructor
  · intro index
    exact ⟨Bool.noConfusion, fun h => absurd h not_mem_nil⟩
  · exact fun _ _ => rfl
  · exact fun _ _ => rfl

theorem assembled_empty : Assembled randomUUID [] [] ({} : Assembly I) [] := by
  constructor
  · rfl
  · intro n index hn
    cases hn
  · intro index n
    constructor
    · intro h
      cases h
    · intro h
      cases h
  · intro call streamIndex hpending
    cases hpending
  · exact fun _ => rfl
  · intro argumentsPart index hpending
    cases hpending
  · rfl

theorem Assembled.run {items : List (StreamItem I)} (hindexed : ∀ item ∈ items, ∀ toolCall ∈ item.toolCalls,
      toolCall.function.isSome = true → toolCall.index.isSome = true)
    {toolCalls : List (ToolCallDelta I)} {d : StreamDecoder I} {s : Assembly I} {done : List I}
    (h : Assembled randomUUID toolCalls said s done) (hbuffers : Buffers toolCalls d) :
    ∃ done', Assembled randomUUID (toolCalls ++ items.flatMap StreamItem.toolCalls)
      (said ++ items.flatMap StreamItem.spoken) ((convertItems randomUUID d items).foldl Assembly.take s) done' := by
  induction items generalizing toolCalls said d s done with
  | nil =>
    refine ⟨done, ?_⟩
    rw [flatMap_nil, flatMap_nil, append_nil, append_nil]
    exact h
  | cons item items ih =>
    obtain ⟨hitem, hitems⟩ := forall_mem_cons.mp hindexed
    rw [convertItems, foldl_append, flatMap_cons, flatMap_cons, ← append_assoc, ← append_assoc]
    cases item with
    | think thought =>
      obtain ⟨done', h'⟩ := h.speak (.think thought none)
      rw [StreamItem.toolCalls, append_nil]
      exact ih hitems h' hbuffers
    | text said =>
      obtain ⟨done', h'⟩ := h.speak (.text said)
      rw [StreamItem.toolCalls, append_nil]
      exact ih hitems h' hbuffers
    | toolCall toolCall =>
      obtain ⟨hbuffers', done', h'⟩ := h.convert hbuffers (hitem toolCall (mem_singleton_self toolCall))
      rw [StreamItem.spoken, append_nil]
      exact ih hitems h' hbuffers'

/-- What a delta says and thinks, letter by letter. -/
def CompletionDelta.spoken (delta : CompletionDelta I) : List (Bool × Char) :=
  ((delta.reasoning.getD "").toList.map fun c => (true, c)) ++
    (delta.content.getD "").toList.map fun c => (false, c)

section

omit [DecidableEq I]

theorem toolCalls_items (delta : CompletionDelta I) : delta.items.flatMap StreamItem.toolCalls = delta.toolCalls := by
  have hcalls : ∀ calls : List (ToolCallDelta I),
      (calls.map StreamItem.toolCall).flatMap StreamItem.toolCalls = calls := by
    intro calls
    induction calls with
    | nil => rfl
    | cons call calls ih =>
      rw [map_cons, flatMap_cons, ih]
      rfl
  rw [CompletionDelta.items, flatMap_append, flatMap_append, hcalls]
  cases delta.reasoning <;> cases delta.content.filter _ <;> rfl

theorem spoken_items (delta : CompletionDelta I) : delta.items.flatMap StreamItem.spoken = delta.spoken := by
  have hcalls : ∀ calls : List (ToolCallDelta I),
      (calls.map StreamItem.toolCall).flatMap StreamItem.spoken = [] := by
    intro calls
    induction calls with
    | nil => rfl
    | cons call calls ih =>
      rw [map_cons, flatMap_cons, ih]
      rfl
  have hcontent : ((delta.content.filter fun content => decide (content ≠ "")).toList.map
      (StreamItem.text (I := I))).flatMap StreamItem.spoken =
        (delta.content.getD "").toList.map fun c => (false, c) := by
    cases delta.content with
    | none => rfl
    | some content =>
      by_cases hempty : content = ""
      · subst hempty
        rfl
      · rw [filter_some, if_pos (decide_eq_true hempty)]
        simp [StreamItem.spoken]
  have hreasoning : (delta.reasoning.toList.map (StreamItem.think (I := I))).flatMap StreamItem.spoken =
      (delta.reasoning.getD "").toList.map fun c => (true, c) := by
    cases delta.reasoning with
    | none => rfl
    | some reasoning => simp [StreamItem.spoken]
  rw [CompletionDelta.items, flatMap_append, flatMap_append, hcalls, hcontent, hreasoning,
    append_nil, CompletionDelta.spoken]

end

structure NamedStream (deltas : List (CompletionDelta I)) : Prop where
  indexed : ∀ toolCall ∈ deltas.flatMap CompletionDelta.toolCalls,
    toolCall.function.isSome = true → toolCall.index.isSome = true
  named : ∀ toolCall ∈ deltas.flatMap CompletionDelta.toolCalls, ∀ index, toolCall.index = some index →
    (nameOf index (deltas.flatMap CompletionDelta.toolCalls)).isSome = true

/-- The message of a stream has one call for each index, in the order of the names, each with the id that was
known when its name came and with all its arguments; what is said and thought is kept. -/
theorem streamed_message (randomUUID : Nat → String) {deltas : List (CompletionDelta I)} (h : NamedStream deltas)
    {message : Message} (hmessage : generate (convertStreamResponse randomUUID deltas) = .ok message) :
    (namedIndices (deltas.flatMap CompletionDelta.toolCalls)).Nodup ∧
      (∀ toolCall ∈ deltas.flatMap CompletionDelta.toolCalls, ∀ index, toolCall.index = some index →
        index ∈ namedIndices (deltas.flatMap CompletionDelta.toolCalls)) ∧
      message.toolCalls.length = (namedIndices (deltas.flatMap CompletionDelta.toolCalls)).length ∧
      (∀ (n : Nat) (index : I), (namedIndices (deltas.flatMap CompletionDelta.toolCalls))[n]? = some index →
        ∃ call, message.toolCalls[n]? = some call ∧
          CallOf randomUUID (deltas.flatMap CompletionDelta.toolCalls) index call) ∧
      message.content.flatMap spoken = deltas.flatMap CompletionDelta.spoken := by
  have hcalls : (deltas.flatMap CompletionDelta.items).flatMap StreamItem.toolCalls =
      deltas.flatMap CompletionDelta.toolCalls := by
    rw [flatMap_assoc]
    exact congrArg deltas.flatMap (funext toolCalls_items)
  have hspoken : (deltas.flatMap CompletionDelta.items).flatMap StreamItem.spoken =
      deltas.flatMap CompletionDelta.spoken := by
    rw [flatMap_assoc]
    exact congrArg deltas.flatMap (funext spoken_items)
  have hindexed : ∀ item ∈ deltas.flatMap CompletionDelta.items, ∀ toolCall ∈ item.toolCalls,
      toolCall.function.isSome = true → toolCall.index.isSome = true := by
    intro item hitem toolCall hcall
    apply h.indexed toolCall
    rw [← hcalls]
    exact mem_flatMap.mpr ⟨item, hitem, hcall⟩
  have hempty : Assembled randomUUID [] [] ({} : Assembly I) [] := assembled_empty
  obtain ⟨done, hassembled⟩ := hempty.run hindexed buffers_empty
  rw [hcalls, hspoken] at hassembled
  obtain ⟨hnone, hflushed⟩ := hassembled.finish
  have hcontent := hflushed.content
  rw [finish_of_none hnone] at hcontent
  obtain ⟨hnodup, hmem⟩ := namedIndices_spec (deltas.flatMap CompletionDelta.toolCalls)
  rw [generate_ok hmessage]
  refine ⟨hnodup, ?_, hflushed.length.symm, hflushed.finished, hcontent⟩
  intro toolCall hcall index hindex
  exact (hmem index).mpr (h.named toolCall hcall index hindex)

/-- Two calls whose fragments are mixed with each other and with text. -/
def interleavedStream : List (CompletionDelta Nat) :=
  [{ reasoning := some "hm", content := some "a" },
    { toolCalls := [{ index := some 0, id := some "call_a", function := some { name := some "Read" } },
        { index := some 1, id := some "call_b", function := some { arguments := some "x" } }] },
    { content := some "b", toolCalls := [{ index := some 0, function := some { arguments := some "1" } }] },
    { toolCalls := [{ index := some 1, function := some { name := some "Bash", arguments := some "y" } },
        { index := some 0, function := some { arguments := some "2" } }] }]

theorem interleavedStream_named : NamedStream interleavedStream := by
  constructor
  · decide
  · intro toolCall hcall index hindex
    have hsmall : ∀ c ∈ interleavedStream.flatMap CompletionDelta.toolCalls, ∀ i ∈ c.index, i = 0 ∨ i = 1 := by
      decide
    rcases hsmall toolCall hcall index hindex with rfl | rfl <;> decide

theorem streamed_message_interleaved :
    (∃ message, generate (convertStreamResponse (fun _ => "generated") interleavedStream) = .ok message) ∧
      ∀ message, generate (convertStreamResponse (fun _ => "generated") interleavedStream) = .ok message →
        message.toolCalls.length = 2 := by
  refine ⟨⟨_, rfl⟩, ?_⟩
  intro message hmessage
  obtain ⟨_, _, hlength, _⟩ := streamed_message (fun _ => "generated") interleavedStream_named hmessage
  exact hlength.trans (by decide)

def sentIds (index : I) (toolCalls : List (ToolCallDelta I)) : List String :=
  toolCalls.filterMap fun toolCall => if toolCall.index = some index then toolCall.id else none

def lateIdStream : List (CompletionDelta Nat) :=
  [{ toolCalls := [{ index := some 0, function := some { name := some "Read" } }] },
    { toolCalls := [{ index := some 0, id := some "call_a", function := some { arguments := some "x" } }] }]

/-- A late id is not the id of the call. -/
theorem lateId_lost : NamedStream lateIdStream ∧
      ¬∀ message, generate (convertStreamResponse (fun _ => "generated") lateIdStream) = .ok message →
        ∀ (n : Nat) (index : Nat) (call : ToolCall),
          (namedIndices (lateIdStream.flatMap CompletionDelta.toolCalls))[n]? = some index →
          message.toolCalls[n]? = some call →
          ∀ id ∈ sentIds index (lateIdStream.flatMap CompletionDelta.toolCalls), call.id = id := by
  constructor
  · constructor
    · decide
    · intro toolCall hcall index hindex
      have hsmall : ∀ c ∈ lateIdStream.flatMap CompletionDelta.toolCalls, ∀ i ∈ c.index, i = 0 := by decide
      rw [hsmall toolCall hcall index hindex]
      decide
  · intro hall
    have hid := hall _ rfl 0 0 _ (by decide) rfl "call_a" (by decide)
    exact absurd hid (by decide)

end Echadron.Tsugite
