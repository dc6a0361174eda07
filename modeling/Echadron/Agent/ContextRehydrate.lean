import Echadron.Agent.ContextReplay
import Mathlib.Data.List.InsertIdx

namespace Echadron.Agent
open Lib List Option

/-! Loading the media that a journal keeps as blob references. -/

def blobrefProtocol : String := "blobref:"

def missingMediaPlaceholder : String := "[media missing]"

def isBlobRef (url : String) : Bool := blobrefProtocol.toList.isPrefixOf url.toList

structure BlobRef where
  mimeType : String
  hash : String
deriving DecidableEq

def parseBlobRef (url : String) : Option BlobRef :=
  if isBlobRef url then
    let rest := url.toList.drop blobrefProtocol.length
    let mimeType := rest.takeWhile fun c => c ≠ ';'
    match rest.drop mimeType.length with
    | [] => none
    | _ :: hash =>
      if hash = [] then none
      else some { mimeType := String.ofList mimeType, hash := String.ofList hash }
  else none

def formatDataUri (mimeType payload : String) : String := "data:" ++ mimeType ++ ";base64," ++ payload

/-! The store gives the bytes of a blob, in base64, where it has them. -/

variable (readBlob : String → Option String)

def loadBlobRefUrl (url : String) : Option String :=
  (parseBlobRef url).bind fun ref => (readBlob ref.hash).map (formatDataUri ref.mimeType)

def loadUrl (url : String) : String :=
  if isBlobRef url then (loadBlobRefUrl readBlob url).getD missingMediaPlaceholder else url

def loadContentPart : ContentPart → ContentPart
  | .imageUrl url id => .imageUrl (loadUrl readBlob url) id
  | .audioUrl url id => .audioUrl (loadUrl readBlob url) id
  | .videoUrl url id => .videoUrl (loadUrl readBlob url) id
  | part => part

def loadMessage (message : ContextMessage) : ContextMessage :=
  { message with content := message.content.map (loadContentPart readBlob) }

def hasBlobs (message : ContextMessage) : Bool :=
  message.content.any fun part => decide (loadContentPart readBlob part ≠ part)

/-- `rehydrate`. A history that changes is a new array, to which no fold context is bound. -/
def rehydrate (s : Folded) : Folded :=
  if s.messages.any (hasBlobs readBlob) then { messages := s.messages.map (loadMessage readBlob) }
  else s

/-- The model as `restore` leaves it. -/
def restore (journal : List WireRecord) : Option Folded := (replay journal).map (rehydrate readBlob)

/-- The histories are the same but for references in one that are content in the other. -/
def SameLoaded (ms ms' : List ContextMessage) : Prop :=
  ms.map (loadMessage readBlob) = ms'.map (loadMessage readBlob)

def continuation (now : Nat) (events : List LoopRecordedEvent) : List WireRecord :=
  events.map fun event => opToWireRecord (.appendLoopEvent event) now

/-- Loop events that follow a restored journal give what the whole journal is folded to. -/
def RestoreContinues (journal : List WireRecord) : Prop :=
  ∃ restored, restore readBlob journal = some restored ∧
    ∀ now events, ∃ whole, replay (journal ++ continuation now events) = some whole ∧
      SameLoaded readBlob (events.foldl foldLoopEvent restored).messages whole.messages

theorem not_isBlobRef_of_head (h : url.toList = c :: cs) (hc : c ≠ 'b') : isBlobRef url = false := by
  apply Bool.eq_false_iff.mpr
  intro hprefix
  obtain ⟨rest, hrest⟩ := isPrefixOf_iff_prefix.mp hprefix
  rw [h] at hrest
  exact hc (cons.inj hrest).1.symm

theorem isBlobRef_loadUrl (url : String) : isBlobRef (loadUrl readBlob url) = false := by
  unfold loadUrl
  split_ifs with h
  · cases hload : loadBlobRefUrl readBlob url with
    | none => decide
    | some content =>
      obtain ⟨ref, _, hcontent⟩ := bind_eq_some_iff.mp hload
      obtain ⟨payload, _, rfl⟩ := map_eq_some_iff.mp hcontent
      apply not_isBlobRef_of_head (c := 'd')
      · simp only [formatDataUri, getD_some, String.toList_append]
        rfl
      · decide
  · exact Bool.eq_false_iff.mpr h

theorem loadUrl_loadUrl (url : String) : loadUrl readBlob (loadUrl readBlob url) = loadUrl readBlob url :=
  if_neg (Bool.eq_false_iff.mp (isBlobRef_loadUrl readBlob url))

theorem loadContentPart_loadContentPart (part : ContentPart) :
    loadContentPart readBlob (loadContentPart readBlob part) = loadContentPart readBlob part := by
  cases part <;> simp only [loadContentPart, loadUrl_loadUrl]

theorem loadMessage_loadMessage (message : ContextMessage) :
    loadMessage readBlob (loadMessage readBlob message) = loadMessage readBlob message := by
  have hmap : (message.content.map (loadContentPart readBlob)).map (loadContentPart readBlob) =
      message.content.map (loadContentPart readBlob) := by
    rw [List.map_map]
    exact map_congr_left fun part _ => loadContentPart_loadContentPart readBlob part
  exact congrArg (fun content => { message with content := content }) hmap

theorem sameLoaded_load (ms : List ContextMessage) : SameLoaded readBlob (ms.map (loadMessage readBlob)) ms := by
  rw [SameLoaded, List.map_map]
  exact map_congr_left fun m _ => loadMessage_loadMessage readBlob m

theorem isVacuousStep_load (message : ContextMessage) :
    isVacuousStep (loadMessage readBlob message) = isVacuousStep message := by
  have hpart : ∀ part, isVacuousContentPart (loadContentPart readBlob part) = isVacuousContentPart part := by
    intro part
    cases part <;> rfl
  simp only [isVacuousStep, loadMessage, List.all_map, Function.comp_def, hpart]
  rfl

theorem findOpen_load (ms : List ContextMessage) :
    findOpenAssistantIndex (ms.map (loadMessage readBlob)) = findOpenAssistantIndex ms := by
  induction ms with
  | nil => rfl
  | cons m ms ih =>
    rw [map_cons, findOpenAssistantIndex, ih]
    rfl

theorem map_modify_load
    (h : ∀ m, loadMessage readBlob (update m) = loaded (loadMessage readBlob m))
    (ms : List ContextMessage) (index : Nat) :
    (ms.modify index update).map (loadMessage readBlob) =
      (ms.map (loadMessage readBlob)).modify index loaded := by
  induction ms generalizing index with
  | nil =>
    rw [modify_nil]
    exact (modify_nil _ _).symm
  | cons m ms ih =>
    cases index with
    | zero => simp only [modify_zero_cons, map_cons, h]
    | succ index => simp only [modify_succ_cons, map_cons, ih]

theorem appendToOpen_load
    (h : ∀ m, loadMessage readBlob (update m) = loaded (loadMessage readBlob m))
    (ms : List ContextMessage) :
    (appendToOpenAssistant ms update).map (loadMessage readBlob) =
      appendToOpenAssistant (ms.map (loadMessage readBlob)) loaded := by
  rw [appendToOpenAssistant, appendToOpenAssistant, findOpen_load]
  cases findOpenAssistantIndex ms with
  | none => rfl
  | some index => exact map_modify_load readBlob h ms index

theorem sealOpen_load (ms : List ContextMessage) :
    (Folded.sealOpen ms).map (loadMessage readBlob) = Folded.sealOpen (ms.map (loadMessage readBlob)) := by
  rw [Folded.sealOpen, Folded.sealOpen, findOpen_load]
  cases findOpenAssistantIndex ms with
  | none => rfl
  | some index =>
    dsimp only
    rw [getElem?_map]
    cases ms[index]? with
    | none => rfl
    | some message =>
      dsimp only [map_some]
      rw [isVacuousStep_load]
      split_ifs
      · exact (eraseIdx_map _ ms index).symm
      · apply map_modify_load
        exact fun _ => rfl

/-- Two models that differ in references loaded and in the open step, which nothing reads. -/
structure Alike (s t : Folded) : Prop where
  messages : SameLoaded readBlob s.messages t.messages
  pending : s.ctx.pending.keys = t.ctx.pending.keys
  deferred : SameLoaded readBlob s.ctx.deferred t.ctx.deferred

variable {readBlob : String → Option String}

theorem SameLoaded.append (h : SameLoaded readBlob ms ms') (hrest : SameLoaded readBlob rest rest') :
    SameLoaded readBlob (ms ++ rest) (ms' ++ rest') := by
  rw [SameLoaded, map_append, map_append]
  exact congrArg₂ (· ++ ·) h hrest

theorem SameLoaded.length_eq (h : SameLoaded readBlob ms ms') : ms.length = ms'.length := by
  have hlength := congrArg length h
  rwa [length_map, length_map] at hlength

theorem SameLoaded.appendToOpen {update loaded : ContextMessage → ContextMessage} (h : SameLoaded readBlob ms ms')
    (hload : ∀ m, loadMessage readBlob (update m) = loaded (loadMessage readBlob m)) :
    SameLoaded readBlob (appendToOpenAssistant ms update) (appendToOpenAssistant ms' update) := by
  rw [SameLoaded, appendToOpen_load readBlob hload, appendToOpen_load readBlob hload]
  exact congrArg (fun ms => appendToOpenAssistant ms loaded) h

theorem SameLoaded.sealOpen (h : SameLoaded readBlob ms ms') :
    SameLoaded readBlob (Folded.sealOpen ms) (Folded.sealOpen ms') := by
  rw [SameLoaded, sealOpen_load, sealOpen_load]
  exact congrArg Folded.sealOpen h

theorem size_eq_of_keys {a b : JsSet String} (h : a.keys = b.keys) : a.size = b.size := by
  have hlength := congrArg length h
  rwa [JsMap.keys, JsMap.keys, length_map, length_map] at hlength

namespace Alike

section

variable (h : Alike readBlob s t)
include h

theorem flushDeferred : Alike readBlob s.flushDeferred t.flushDeferred := by
  have hcond : (s.ctx.pending.size > 0 ∨ s.ctx.deferred.length = 0) ↔
      (t.ctx.pending.size > 0 ∨ t.ctx.deferred.length = 0) := by
    rw [size_eq_of_keys h.pending, h.deferred.length_eq]
  unfold Folded.flushDeferred
  by_cases hs : s.ctx.pending.size > 0 ∨ s.ctx.deferred.length = 0
  · rw [if_pos hs, if_pos (hcond.mp hs)]
    exact h
  · rw [if_neg hs, if_neg (mt hcond.mpr hs)]
    exact ⟨h.messages.append h.deferred, h.pending, rfl⟩

theorem closePending : Alike readBlob s.closePending t.closePending := by
  unfold Folded.closePending
  by_cases hs : s.ctx.pending.size = 0
  · rw [if_pos hs, if_pos (size_eq_of_keys h.pending ▸ hs)]
    exact h
  · rw [if_neg hs, if_neg (size_eq_of_keys h.pending ▸ hs)]
    apply flushDeferred
    exact ⟨h.messages.append (congrArg _ (congrArg _ h.pending)), rfl, h.deferred⟩

theorem settleOpenStep : Alike readBlob s.settleOpenStep t.settleOpenStep :=
  ⟨h.closePending.messages.sealOpen, h.closePending.pending, h.closePending.deferred⟩

theorem setOpenStep (uuid : Option String) : Alike readBlob (s.setOpenStep uuid) (t.setOpenStep uuid) :=
  ⟨h.messages, h.pending, h.deferred⟩

/-- No event tells the two apart. -/
theorem foldLoopEvent (event : LoopRecordedEvent) :
    Alike readBlob (foldLoopEvent s event) (foldLoopEvent t event) := by
  cases event with
  | stepBegin uuid =>
    have hsettled := h.settleOpenStep.setOpenStep (some uuid)
    exact ⟨hsettled.messages.append rfl, hsettled.pending, hsettled.deferred⟩
  | stepEnd uuid => exact (h.setOpenStep none).settleOpenStep.flushDeferred
  | contentPart uuid part =>
    have hload : ∀ m, loadMessage readBlob (pushContent part m) =
        pushContent (loadContentPart readBlob part) (loadMessage readBlob m) := by
      intro m
      simp only [loadMessage, pushContent, map_append, map_cons, map_nil]
    exact ⟨h.messages.appendToOpen hload, h.pending, h.deferred⟩
  | toolCall uuid id name args extras =>
    have hload : ∀ m, loadMessage readBlob (pushCall (recordedToolCall id name args extras) m) =
        pushCall (recordedToolCall id name args extras) (loadMessage readBlob m) := fun _ => rfl
    exact ⟨h.messages.appendToOpen hload, JsMap.keys_set_congr h.pending id (), h.deferred⟩
  | toolResult id result =>
    have hhas : s.ctx.pending.has id = t.ctx.pending.has id := by
      rw [JsMap.has, JsMap.has, h.pending]
    rw [Agent.foldLoopEvent, Agent.foldLoopEvent, hhas]
    split_ifs
    · apply flushDeferred
      refine ⟨h.messages.append rfl, ?_, h.deferred⟩
      simp only [JsMap.keys_delete, h.pending]
    · exact h

theorem foldLoopEvents (events : List LoopRecordedEvent) :
    Alike readBlob (events.foldl Agent.foldLoopEvent s) (events.foldl Agent.foldLoopEvent t) := by
  induction events generalizing s t with
  | nil => exact h
  | cons event events ih => exact ih (h.foldLoopEvent event)

end

end Alike

theorem DeferredBehind.replay (hreplay : replay journal = some s) : DeferredBehind s := by
  have hstep : ∀ s record s', DeferredBehind s → replayRecord s record = some s' → DeferredBehind s' := by
    intro s record s' h hrecord
    rw [replayRecord] at hrecord
    split at hrecord
    · cases hrecord
      exact h
    · exact h.applyRecord _ hrecord
  exact run_invariant hstep (fun _ => rfl) hreplay

/-- Without a pending call the context that rehydration drops holds nothing. -/
theorem rehydrate_alike (h : DeferredBehind s)
    (hcut : s.ctx.pending.keys = [] ∨ ∀ m ∈ s.messages, hasBlobs readBlob m = false) :
    Alike readBlob (rehydrate readBlob s) s := by
  unfold rehydrate
  split_ifs with hany
  · cases hcut with
    | inl hkeys => exact ⟨sameLoaded_load readBlob s.messages, hkeys.symm, (h hkeys) ▸ rfl⟩
    | inr hnone =>
      obtain ⟨m, hm, hblobs⟩ := any_eq_true.mp hany
      exact absurd hblobs (Bool.eq_false_iff.mp (hnone m hm))
  · exact ⟨rfl, rfl, rfl⟩

theorem length_flushDeferred (s : Folded) : s.messages.length ≤ s.flushDeferred.messages.length := by
  unfold Folded.flushDeferred
  split_ifs
  · exact le_refl _
  · rw [length_append]
    exact Nat.le_add_right _ _

theorem rehydrate_loses (hpending : toolCallId ∈ s.ctx.pending.keys)
    (hblobs : s.messages.any (hasBlobs readBlob) = true) (result : LoopToolResult) :
    ¬ SameLoaded readBlob (foldLoopEvent (rehydrate readBlob s) (.toolResult toolCallId result)).messages
      (foldLoopEvent s (.toolResult toolCallId result)).messages := by
  intro hsame
  have hlength := hsame.length_eq
  rw [rehydrate, if_pos hblobs, foldLoopEvent, foldLoopEvent, if_neg Bool.noConfusion,
    if_pos ((JsMap.has_iff _ _).mpr hpending), length_map] at hlength
  have hflush := length_flushDeferred
    { messages := s.messages ++ [toolResultMessage toolCallId result]
      ctx := { s.ctx with pending := s.ctx.pending.delete toolCallId } }
  rw [length_append, length_singleton] at hflush
  omega

theorem replay_continuation (hreplay : replay journal = some s) (now : Nat) (events : List LoopRecordedEvent) :
    replay (journal ++ continuation now events) = some (events.foldl foldLoopEvent s) := by
  rw [replay, foldlM_append, show journal.foldlM replayRecord Folded.empty = some s from hreplay]
  clear hreplay
  induction events generalizing s with
  | nil => rfl
  | cons event events ih => exact ih

/-- That holds exactly when no call is pending at the cut or no message there has a reference. -/
theorem restoreContinues_iff (readBlob : String → Option String) (journal : List WireRecord)
    (s : Folded) (hreplay : replay journal = some s) :
    RestoreContinues readBlob journal ↔
      s.ctx.pending.keys = [] ∨ ∀ m ∈ s.messages, hasBlobs readBlob m = false := by
  have hrestore : restore readBlob journal = some (rehydrate readBlob s) := by
    rw [restore, hreplay]
    rfl
  constructor
  · rintro ⟨restored, hrestored, hsame⟩
    obtain rfl := mem_unique hrestore hrestored
    by_contra hcut
    obtain ⟨hpending, hblobs⟩ := not_or.mp hcut
    obtain ⟨toolCallId, hid⟩ := exists_mem_of_ne_nil _ hpending
    push Not at hblobs
    obtain ⟨m, hm, hblob⟩ := hblobs
    have hany : s.messages.any (hasBlobs readBlob) = true :=
      any_eq_true.mpr ⟨m, hm, Bool.of_not_eq_false hblob⟩
    obtain ⟨whole, hwhole, hsame⟩ := hsame 0 [.toolResult toolCallId { output := .inl "" }]
    obtain rfl := mem_unique (replay_continuation hreplay 0 _) hwhole
    exact rehydrate_loses hid hany { output := .inl "" } hsame
  · intro hcut
    refine ⟨_, hrestore, ?_⟩
    intro now events
    refine ⟨_, replay_continuation hreplay now events, ?_⟩
    exact ((rehydrate_alike (DeferredBehind.replay hreplay) hcut).foldLoopEvents events).messages

def storedImage (hash : String) : Option String := if hash = "9f86d0" then some "iVBORw0KGgo=" else none

def imagePrompt : ContextMessage :=
  { role := .user, content := [.text "What is this?", .imageUrl "blobref:image/png;9f86d0" none] }

def steeredPrompt : ContextMessage := { role := .user, content := [.text "And in short?"] }

/-- A prompt with an image, a call, and a prompt that came while the call ran. -/
def interruptedJournal : List WireRecord :=
  ([.appendMessage imagePrompt, .appendLoopEvent (.stepBegin "s1"),
    .appendLoopEvent (.toolCall "s1" "call_1" "Bash" none none),
    .appendMessage steeredPrompt] : List ContextRecord).map fun op => opToWireRecord op 0

/-- The same session, left before its first step. -/
theorem restoreContinues_iff_prompted : (∀ m ∈ [imagePrompt], hasBlobs storedImage m = true) ∧
      RestoreContinues storedImage (interruptedJournal.take 1) := by
  refine ⟨by decide +kernel, ?_⟩
  exact (restoreContinues_iff storedImage (interruptedJournal.take 1) _ rfl).mpr (.inl rfl)

/-- Restored from it, the result of the call is dropped, and with it the prompt that waited. -/
theorem interruptedJournal_loses : ¬ RestoreContinues storedImage interruptedJournal ∧
      (restore storedImage interruptedJournal).map (fun s =>
        (foldLoopEvent s (.toolResult "call_1" { output := .inl "ok" })).messages.length) = some 2 ∧
      (replay interruptedJournal).map (fun s =>
        (foldLoopEvent s (.toolResult "call_1" { output := .inl "ok" })).messages.length) = some 4 := by
  refine ⟨?_, by decide +kernel, by decide +kernel⟩
  rintro ⟨restored, hrestored, hsame⟩
  obtain ⟨whole, hwhole, hsame⟩ := hsame 0 [.toolResult "call_1" { output := .inl "ok" }]
  have hlength := hsame.length_eq
  cases hrestored
  cases hwhole
  revert hlength
  decide +kernel

end Echadron.Agent
