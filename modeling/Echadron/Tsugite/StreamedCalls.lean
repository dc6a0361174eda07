import Echadron.Tsugite.ChatCompletionsStream

namespace Echadron.Tsugite
open Lib Agent List Option

/-! What a stream says about each of its tool calls. -/

variable {I : Type} [DecidableEq I]

section

variable (toolCall : ToolCallDelta I) (index : I)

def ToolCallDelta.functionAt : Option ToolFunctionDelta :=
  if toolCall.index = some index then toolCall.function else none

def ToolCallDelta.nameAt : Option String := (toolCall.functionAt index).bind ToolFunctionDelta.concreteName

def ToolCallDelta.fragmentAt : String := ((toolCall.functionAt index).bind ToolFunctionDelta.arguments).getD ""

end

def fragments (index : I) (toolCalls : List (ToolCallDelta I)) : String :=
  String.join (toolCalls.map fun toolCall => toolCall.fragmentAt index)

def nameOf (index : I) (toolCalls : List (ToolCallDelta I)) : Option String :=
  toolCalls.findSome? fun toolCall => toolCall.nameAt index

/-- The last id that comes with a function of the index, up to the first name. -/
def idOf (index : I) (toolCalls : List (ToolCallDelta I)) : Option String :=
  match toolCalls with
  | [] => none
  | toolCall :: rest =>
    let here := if (toolCall.functionAt index).isSome then toolCall.id else none
    if (toolCall.nameAt index).isSome then here else (idOf index rest).or here

def namedIndices (toolCalls : List (ToolCallDelta I)) : List I :=
  toolCalls.foldl (fun named toolCall =>
    match toolCall.index with
    | none => named
    | some index => if (toolCall.nameAt index).isSome ∧ index ∉ named then named ++ [index] else named) []

structure CallOf (randomUUID : Nat → String) (toolCalls : List (ToolCallDelta I)) (index : I)
    (call : ToolCall) : Prop where
  name : nameOf index toolCalls = some call.name
  id : (idOf index toolCalls = some call.id) ∨ (idOf index toolCalls = none ∧ ∃ n, call.id = randomUUID n)
  arguments : call.arguments.getD "" = fragments index toolCalls
  extras : call.extras = none

def StreamItem.toolCalls : StreamItem I → List (ToolCallDelta I)
  | .think _ => []
  | .text _ => []
  | .toolCall delta => [delta]

/-- What is said and thought, letter by letter. -/
def spoken : ContentPart → List (Bool × Char)
  | .text text => text.toList.map fun c => (false, c)
  | .think think _ => think.toList.map fun c => (true, c)
  | _ => []

def StreamItem.spoken : StreamItem I → List (Bool × Char)
  | .text said => said.toList.map fun c => (false, c)
  | .think thought => thought.toList.map fun c => (true, c)
  | .toolCall _ => []

section

variable (index : I) (toolCalls : List (ToolCallDelta I)) (toolCall : ToolCallDelta I)

theorem fragments_concat :
    fragments index (toolCalls ++ [toolCall]) = fragments index toolCalls ++ toolCall.fragmentAt index := by
  rw [fragments, fragments]
  simp

theorem nameOf_concat :
    nameOf index (toolCalls ++ [toolCall]) = (nameOf index toolCalls).or (toolCall.nameAt index) := by
  rw [nameOf, findSome?_append, findSome?_cons]
  cases toolCall.nameAt index <;> rfl

end

theorem idOf_concat_named (index : I) (toolCall : ToolCallDelta I) (h : (nameOf index toolCalls).isSome = true) :
    idOf index (toolCalls ++ [toolCall]) = idOf index toolCalls := by
  induction toolCalls with
  | nil => cases h
  | cons first rest ih =>
    rw [cons_append, idOf, idOf]
    cases hfirst : first.nameAt index with
    | some name => rfl
    | none =>
      have hrest : (nameOf index rest).isSome = true := by
        rw [nameOf, findSome?_cons, hfirst] at h
        exact h
      rw [ih hrest]

theorem idOf_concat (index : I) (toolCall : ToolCallDelta I) (h : nameOf index toolCalls = none) :
    idOf index (toolCalls ++ [toolCall]) =
      (if (toolCall.functionAt index).isSome then toolCall.id else none).or (idOf index toolCalls) := by
  induction toolCalls with
  | nil =>
    have hnil : idOf index ([] : List (ToolCallDelta I)) = none := rfl
    rw [hnil, or_none]
    exact ite_self _
  | cons first rest ih =>
    have hfirst : first.nameAt index = none ∧ nameOf index rest = none := by
      rw [nameOf, findSome?_cons] at h
      cases hname : first.nameAt index with
      | none =>
        rw [hname] at h
        exact ⟨rfl, h⟩
      | some name =>
        rw [hname] at h
        cases h
    obtain ⟨hname, hrest⟩ := hfirst
    rw [cons_append, idOf, idOf, hname, ih hrest]
    exact or_assoc

theorem namedIndices_concat (toolCalls : List (ToolCallDelta I)) (h : toolCall.index = some index) :
    namedIndices (toolCalls ++ [toolCall]) =
      if (toolCall.nameAt index).isSome ∧ index ∉ namedIndices toolCalls then
        namedIndices toolCalls ++ [index]
      else namedIndices toolCalls := by
  rw [namedIndices, foldl_append, foldl_cons, h]
  rfl

theorem namedIndices_concat_none (toolCalls : List (ToolCallDelta I))
    (h : toolCall.index = none) : namedIndices (toolCalls ++ [toolCall]) = namedIndices toolCalls := by
  rw [namedIndices, foldl_append, foldl_cons, h]
  rfl

section

variable {toolCall : ToolCallDelta I}

theorem namedIndices_same (h : ∀ index, toolCall.index = some index → toolCall.nameAt index = none ∨ index ∈ namedIndices toolCalls) :
    namedIndices (toolCalls ++ [toolCall]) = namedIndices toolCalls := by
  cases hindex : toolCall.index with
  | none => exact namedIndices_concat_none toolCalls hindex
  | some index =>
    rw [namedIndices_concat toolCalls hindex]
    apply if_neg
    rintro ⟨hname, hnew⟩
    rcases h index hindex with hnone | hold
    · rw [hnone] at hname
      cases hname
    · exact hnew hold

theorem functionAt_of_ne (h : toolCall.index ≠ some index) : toolCall.functionAt index = none := if_neg h

theorem nameAt_of_ne (h : toolCall.index ≠ some index) : toolCall.nameAt index = none := by
  rw [ToolCallDelta.nameAt, functionAt_of_ne h]
  rfl

theorem fragmentAt_of_ne (h : toolCall.index ≠ some index) : toolCall.fragmentAt index = "" := by
  rw [ToolCallDelta.fragmentAt, functionAt_of_ne h]
  rfl

end

theorem namedIndices_spec (toolCalls : List (ToolCallDelta I)) : (namedIndices toolCalls).Nodup ∧
      ∀ index, index ∈ namedIndices toolCalls ↔ (nameOf index toolCalls).isSome = true := by
  induction toolCalls using reverseRecOn with
  | nil =>
    refine ⟨nodup_nil, fun index => ?_⟩
    rw [nameOf]
    simp [namedIndices]
  | append_singleton toolCalls toolCall ih =>
    obtain ⟨hnodup, hmem⟩ := ih
    cases hindex : toolCall.index with
    | none =>
      rw [namedIndices_concat_none toolCalls hindex]
      refine ⟨hnodup, fun index => ?_⟩
      have hne : toolCall.index ≠ some index := by
        rw [hindex]
        exact (some_ne_none index).symm
      rw [hmem index, nameOf_concat, nameAt_of_ne hne, or_none]
    | some index =>
      rw [namedIndices_concat toolCalls hindex]
      split_ifs with hnew
      · obtain ⟨hname, hold⟩ := hnew
        refine ⟨?_, fun other => ?_⟩
        · rw [← concat_eq_append]
          exact hnodup.concat hold
        · rw [mem_snoc, hmem other, nameOf_concat, isSome_or, Bool.or_eq_true]
          by_cases hother : other = index
          · subst hother
            exact ⟨fun _ => .inr hname, fun _ => .inr rfl⟩
          · have hne : toolCall.index ≠ some other := by
              rw [hindex]
              exact fun hsame => hother (some.inj hsame).symm
            rw [nameAt_of_ne hne]
            simp [hother]
      · refine ⟨hnodup, fun other => ?_⟩
        rw [hmem other, nameOf_concat, isSome_or, Bool.or_eq_true]
        refine ⟨.inl, ?_⟩
        rintro (hold | hname)
        · exact hold
        · by_cases hother : toolCall.index = some other
          · obtain rfl := mem_unique hindex hother
            exact (hmem _).mp (Decidable.not_not.mp fun hnot => hnew ⟨hname, hnot⟩)
          · rw [nameAt_of_ne hother] at hname
            cases hname

theorem CallOf.keep {index : I} (h : CallOf randomUUID toolCalls index call)
    (hfragment : toolCall.fragmentAt index = "") : CallOf randomUUID (toolCalls ++ [toolCall]) index call := by
  have hnamed : (nameOf index toolCalls).isSome = true := by
    rw [h.name]
    rfl
  constructor
  · rw [nameOf_concat, h.name]
    rfl
  · rw [idOf_concat_named index toolCall hnamed]
    exact h.id
  · rw [h.arguments, fragments_concat, hfragment, String.append_empty]
  · exact h.extras

theorem CallOf.extend {index : I} (h : CallOf randomUUID toolCalls index call)
    (hpart : argumentsPart.getD "" = toolCall.fragmentAt index) :
    CallOf randomUUID (toolCalls ++ [toolCall]) index
      { call with arguments := addArguments call.arguments argumentsPart } := by
  have hnamed : (nameOf index toolCalls).isSome = true := by
    rw [h.name]
    rfl
  constructor
  · rw [nameOf_concat, h.name]
    rfl
  · rw [idOf_concat_named index toolCall hnamed]
    exact h.id
  · rw [addArguments_getD, h.arguments, hpart, fragments_concat]
  · exact h.extras

end Echadron.Tsugite
