import Echadron.Lib.JsValue

namespace Echadron.Agent
open Lib List Option

/-! What the executor makes of the values that tools, vetoes and result hooks give. Nothing is where the source
throws. -/

inductive ToolOutput where
  | text (s : String)
  | parts (items : List JsValue)

structure ToolResult where
  output : ToolOutput
  isError : Bool := false
  stopTurn : Bool := false

/-- What is thrown: its text, if `String` makes one of it, and what kind of error it is. -/
structure Thrown where
  message : Option String
  isAbort : Bool := false
  isPathSecurity : Bool := false

def ToolOutput.nonempty : ToolOutput → Bool
  | .text s => s ≠ ""
  | .parts items => !items.isEmpty

variable (rt : Runtime)

/-- A property, which `null` and `undefined` throw on. -/
def readProperty (value : JsValue) (key : String) : Option JsValue :=
  if value.isNullish then none else some (value.getProperty rt key)

def hasType (types : List String) (part : JsValue) : Option Bool :=
  (readProperty rt part "type").map fun type => types.any fun t => type.strictEq (.str t)

def isTextContent (part : JsValue) : Option Bool := hasType rt ["text"] part

def isMediaContentPart (part : JsValue) : Option Bool := hasType rt ["image_url", "audio_url", "video_url"] part

def hasLength : JsValue → Option Bool
  | .str s => some (s ≠ "")
  | value => (readProperty rt value "length").map fun length => JsValue.less rt (.num (.finite 0)) length

def isNonEmptyText (part : JsValue) : Option Bool := do
  if ← isTextContent rt part then hasLength rt (← readProperty rt part "text") else some false

/-- `Array.prototype.some`, which stops at the first match. -/
def someItem (p : JsValue → Option Bool) : List JsValue → Option Bool
  | [] => some false
  | item :: items => do if ← p item then some true else someItem p items

/-- `Array.prototype.filter` -/
def filterItems (p : JsValue → Option Bool) : List JsValue → Option (List JsValue)
  | [] => some []
  | item :: items => do
    let keep ← p item
    let rest ← filterItems p items
    some (if keep then item :: rest else rest)

def joinedText (items : List JsValue) : Option String := do
  let texts ← filterItems (isTextContent rt) items
  some (String.join (JsValue.textItems rt (texts.map fun part => part.getProperty rt "text")))

def TOOL_OUTPUT_EMPTY : String := "Tool output is empty."

def TOOL_OUTPUT_NON_TEXT : String := "Tool returned non-text content."

def nonTextPart : JsValue := .obj [("type", .str "text"), ("text", .str TOOL_OUTPUT_NON_TEXT)]

def orEmpty (s : String) : String := if s ≠ "" then s else TOOL_OUTPUT_EMPTY

def normalizeOutput : ToolOutput → Option ToolOutput
  | .text s => some (.text (orEmpty s))
  | .parts [] => some (.text TOOL_OUTPUT_EMPTY)
  | .parts (item :: items) => do
    if ← someItem (isMediaContentPart rt) (item :: items) then
      if ← someItem (isNonEmptyText rt) (item :: items) then some (.parts (item :: items))
      else some (.parts (nonTextPart :: item :: items))
    else (joinedText rt (item :: items)).map fun s => .text (orEmpty s)

def normalizeToolResult (result : ToolResult) : Option ToolResult :=
  (normalizeOutput rt result.output).map fun output => { result with output }

def coerceToolResult (value : JsValue) (toolName : String) : ToolResult :=
  if value.isNullish then { output := .text s!"Tool \"{toolName}\" returned no result.", isError := true }
  else if !value.isObject then
    { output := .text s!"Tool \"{toolName}\" returned a {value.typeOf} instead of a tool result.", isError := true }
  else
    let isError := (value.getProperty rt "isError").strictEq (.bool true)
    let stopTurn := (value.getProperty rt "stopTurn").strictEq (.bool true)
    match value.getProperty rt "output" with
    | .str s => { output := .text s, isError, stopTurn }
    | .arr items => { output := .parts items, isError, stopTurn }
    | _ =>
      { output := .text s!"Tool \"{toolName}\" returned a result with a missing or malformed \"output\" field."
        isError := true }

def toolOutputText : ToolOutput → Option String
  | .text s => some s
  | .parts items => joinedText rt items

def trackToolCall (result : ToolResult) : Bool := !result.isError || (toolOutputText rt result.output).isSome

def makeErrorToolResult (output : String) : ToolResult := { output := .text output, isError := true }

/-- `byUser` is that the abort's reason is a user's cancellation. -/
def abortedToolOutput (toolName : String) (byUser : Bool) : String :=
  if byUser then
    s!"The user manually interrupted \"{toolName}\" (and anything else running at the same time). This was a " ++
      "deliberate user action, not a system error, timeout, or capacity limit. Do not retry automatically or " ++
      "guess at the cause — wait for the user's next instruction."
  else s!"Tool \"{toolName}\" was aborted"

/-- The parts that `some` looks at: those before the first match, and the match. -/
def lookedAt (p : JsValue → Option Bool) : List JsValue → List JsValue
  | [] => []
  | item :: items => if p item = some true then [item] else item :: lookedAt p items

/-- A part that has properties to read. -/
def Present (part : JsValue) : Prop := part.isNullish = false

def Worded (part : JsValue) : Prop :=
  isTextContent rt part = some true → (part.getProperty rt "text").isNullish = false

/-- An output that normalisation can read: no part that it looks at is `null` or `undefined`, and beside media no
text part that it looks at lacks its text. -/
def ToolOutput.Readable : ToolOutput → Prop
  | .text _ => True
  | .parts items =>
    (∀ part ∈ lookedAt (isMediaContentPart rt) items, Present part) ∧
      (someItem (isMediaContentPart rt) items = some true →
        ∀ part ∈ lookedAt (isNonEmptyText rt) items, Present part ∧ Worded rt part)

/-- No part of an output is `null` or `undefined`. -/
def ToolOutput.AllPresent : ToolOutput → Prop
  | .text _ => True
  | .parts items => ∀ part ∈ items, Present part

/-- A result that the executor can read to its end: telemetry looks at every part of an error. -/
structure ToolResult.Readable (result : ToolResult) : Prop where
  output : result.output.Readable rt
  error : result.isError = true → result.output.AllPresent

section Lemmas

variable {rt}

theorem readProperty_of_present (h : Present value) (key : String) :
    readProperty rt value key = some (value.getProperty rt key) := by
  rw [readProperty, h]
  rfl

theorem hasType_of_present {part : JsValue} (h : Present part) (types : List String) :
    ∃ b, hasType rt types part = some b := by
  rw [hasType, readProperty_of_present h]
  exact ⟨_, rfl⟩

theorem isNonEmptyText_of_worded (h : Present part) (hworded : Worded rt part) :
    ∃ b, isNonEmptyText rt part = some b := by
  obtain ⟨b, hb⟩ := @hasType_of_present rt _ h ["text"]
  rw [isNonEmptyText, isTextContent, hb]
  cases b with
  | false => exact ⟨false, rfl⟩
  | true =>
    have htext := hworded hb
    simp only [readProperty_of_present h]
    cases hvalue : part.getProperty rt "text" with
    | str s => exact ⟨_, rfl⟩
    | null => rw [hvalue] at htext; cases htext
    | undefined => rw [hvalue] at htext; cases htext
    | _ => exact ⟨_, rfl⟩

theorem someItem_of_lookedAt
    (h : ∀ item ∈ lookedAt p items, ∃ b, p item = some b) : ∃ b, someItem p items = some b := by
  induction items with
  | nil => exact ⟨false, rfl⟩
  | cons item items ih =>
    rw [lookedAt] at h
    split at h
    · rename_i htrue
      refine ⟨true, ?_⟩
      rw [someItem, htrue]
      rfl
    · rename_i hnot
      obtain ⟨⟨b, hb⟩, hrest⟩ := forall_mem_cons.mp h
      rw [someItem, hb]
      cases b with
      | true => exact absurd hb hnot
      | false => exact ih hrest

theorem lookedAt_of_none (h : someItem p items = some false) : lookedAt p items = items := by
  induction items with
  | nil => rfl
  | cons item items ih =>
    obtain ⟨b, hb, h⟩ := bind_eq_some_iff.mp h
    cases b with
    | true => cases h
    | false => rw [lookedAt, hb, if_neg (by simp), ih h]

theorem filterItems_of_present {items : List JsValue} (h : ∀ part ∈ items, Present part) :
    ∃ texts, filterItems (isTextContent rt) items = some texts := by
  induction items with
  | nil => exact ⟨[], rfl⟩
  | cons item items ih =>
    obtain ⟨hitem, hitems⟩ := forall_mem_cons.mp h
    obtain ⟨b, hb⟩ := @hasType_of_present rt _ hitem ["text"]
    have hkeep : isTextContent rt item = some b := hb
    obtain ⟨texts, htexts⟩ := ih hitems
    rw [filterItems, hkeep, htexts]
    exact ⟨_, rfl⟩

theorem joinedText_of_present {items : List JsValue} (h : ∀ part ∈ items, Present part) :
    ∃ s, joinedText rt items = some s := by
  obtain ⟨texts, htexts⟩ := @filterItems_of_present rt _ h
  rw [joinedText, htexts]
  exact ⟨_, rfl⟩

theorem orEmpty_nonempty (s : String) : ToolOutput.nonempty (.text (orEmpty s)) = true := by
  rw [orEmpty]
  split
  · rename_i hs
    exact decide_eq_true hs
  · rfl

theorem normalizeOutput_of_readable (h : output.Readable rt) :
    ∃ normalized, normalizeOutput rt output = some normalized ∧ normalized.nonempty = true ∧
      (output.AllPresent → normalized.AllPresent) := by
  cases output with
  | text s => exact ⟨.text (orEmpty s), rfl, orEmpty_nonempty s, id⟩
  | parts items =>
    cases items with
    | nil => exact ⟨.text TOOL_OUTPUT_EMPTY, rfl, rfl, fun _ => trivial⟩
    | cons item items =>
      obtain ⟨hlooked, hbeside⟩ := h
      have hmedia : ∃ b, someItem (isMediaContentPart rt) (item :: items) = some b := by
        apply someItem_of_lookedAt
        intro part hpart
        exact hasType_of_present (hlooked part hpart) _
      obtain ⟨b, hb⟩ := hmedia
      rw [normalizeOutput, hb]
      cases b with
      | false =>
        rw [lookedAt_of_none hb] at hlooked
        obtain ⟨s, hs⟩ := @joinedText_of_present rt _ hlooked
        simp only [hs]
        exact ⟨_, rfl, orEmpty_nonempty s, fun _ => trivial⟩
      | true =>
        have htext : ∃ b, someItem (isNonEmptyText rt) (item :: items) = some b := by
          apply someItem_of_lookedAt
          intro part hpart
          obtain ⟨hpresent, hworded⟩ := hbeside hb part hpart
          exact isNonEmptyText_of_worded hpresent hworded
        obtain ⟨b', hb'⟩ := htext
        simp only [hb']
        cases b' with
        | true => exact ⟨_, rfl, rfl, id⟩
        | false =>
          refine ⟨_, rfl, rfl, ?_⟩
          intro hpresent
          exact forall_mem_cons.mpr ⟨rfl, hpresent⟩

theorem normalizeToolResult_of_readable (h : result.output.Readable rt) :
    ∃ normalized, normalizeToolResult rt result = some normalized ∧ normalized.output.nonempty = true ∧
      normalized.isError = result.isError ∧ (result.output.AllPresent → normalized.output.AllPresent) := by
  obtain ⟨output, houtput, hnonempty, hpresent⟩ := normalizeOutput_of_readable h
  rw [normalizeToolResult, houtput]
  exact ⟨_, rfl, hnonempty, rfl, hpresent⟩

theorem trackToolCall_of_present (h : result.isError = true → result.output.AllPresent) :
    trackToolCall rt result = true := by
  rw [trackToolCall]
  cases herror : result.isError with
  | false => rfl
  | true =>
    have hpresent := h herror
    cases houtput : result.output with
    | text s => rfl
    | parts items =>
      rw [houtput] at hpresent
      obtain ⟨s, hs⟩ := @joinedText_of_present rt _ hpresent
      rw [toolOutputText, hs]
      rfl

end Lemmas

end Echadron.Agent
