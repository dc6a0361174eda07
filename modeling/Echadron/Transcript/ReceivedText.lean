import Echadron.Transcript.Replay

namespace Echadron.Transcript
open Lib List

/-! A text that is received in chunks. -/

def Placed.after (current : Text) : Placed → Text
  | .text merged => merged
  | _ => current

def piece (T : Text) (chunk : Nat × Nat) : Text := (T.take chunk.2).drop chunk.1

def receive (T current : Text) (chunk : Nat × Nat) : Text :=
  (appendAtOffset current chunk.1 (piece T chunk)).after current

def accept (length : Nat) (chunk : Nat × Nat) : Nat := if chunk.1 ≤ length then max length chunk.2 else length

variable {T : Text} {length : Nat} {chunk : Nat × Nat}

theorem appendAtOffset_ahead (h : current.length < offset) (chunk : Text) :
    appendAtOffset current offset chunk = .gap { expected := current.length, got := offset } := if_pos h

theorem appendAtOffset_piece (hlength : length ≤ T.length) (hstart : chunk.1 ≤ length) (hin : chunk.1 ≤ chunk.2)
    (hend : chunk.2 ≤ T.length) :
    (chunk.2 ≤ length → appendAtOffset (T.take length) chunk.1 (piece T chunk) = .unchanged) ∧
      (length < chunk.2 → appendAtOffset (T.take length) chunk.1 (piece T chunk) = .text (T.take chunk.2)) := by
  have hlocal : (T.take length).length = length := length_take_of_le hlength
  have hpiece : (piece T chunk).length = chunk.2 - chunk.1 := by
    rw [piece, length_drop, length_take_of_le hend]
  have hnotAhead : ¬(T.take length).length < chunk.1 := by omega
  constructor
  · intro hheld
    apply appendAtOffset_of_held
    refine ⟨by omega, ?_⟩
    rw [hpiece, piece, ← drop_take, take_take, min_eq_left hheld]
  · intro hnew
    have hnotHeld : ¬((T.take length).drop chunk.1).take (piece T chunk).length = piece T chunk := by
      intro h
      have hshort := congrArg List.length h
      rw [length_take, length_drop] at hshort
      omega
    have hagrees : (T.take length).drop chunk.1 = (piece T chunk).take ((T.take length).length - chunk.1) := by
      rw [hlocal, piece, ← drop_take, take_take, min_eq_left (le_of_lt hnew)]
    have hnovel : (if 0 < (T.take length).length - chunk.1
        then (piece T chunk).drop ((T.take length).length - chunk.1) else piece T chunk).length ≠ 0 := by
      split_ifs
      · rw [length_drop]
        omega
      · omega
    rw [appendAtOffset, if_neg hnotAhead, if_neg hnotHeld]
    rw [if_neg (not_not.mpr hagrees), if_neg hnovel, take_take, min_eq_left hstart]
    have hbegin : T.take chunk.1 = (T.take chunk.2).take chunk.1 := by
      rw [take_take, min_eq_left hin]
    rw [hbegin, piece, take_append_drop]

theorem receive_piece (hlength : length ≤ T.length) (hin : chunk.1 ≤ chunk.2) (hend : chunk.2 ≤ T.length) :
    receive T (T.take length) chunk = T.take (accept length chunk) := by
  rw [receive, accept]
  split_ifs with hstart
  · obtain ⟨hheld, hnew⟩ := appendAtOffset_piece hlength hstart hin hend
    rcases lt_or_ge length chunk.2 with hlt | hge
    · rw [hnew hlt, max_eq_right (le_of_lt hlt)]
      rfl
    · rw [hheld hge, max_eq_left hge]
      rfl
  · rw [appendAtOffset_ahead]
    · rfl
    · rw [length_take_of_le hlength]
      exact Nat.lt_of_not_le hstart

theorem accept_le (hlength : length ≤ T.length) (hend : chunk.2 ≤ T.length) : accept length chunk ≤ T.length := by
  rw [accept]
  split_ifs
  · exact max_le hlength hend
  · exact hlength

theorem le_accept (length : Nat) (chunk : Nat × Nat) : length ≤ accept length chunk := by
  rw [accept]
  split_ifs
  · exact le_max_left _ _
  · exact le_refl _

theorem gap_iff (hlength : length ≤ T.length) (hin : chunk.1 ≤ chunk.2) (hend : chunk.2 ≤ T.length) :
    (∃ gap, appendAtOffset (T.take length) chunk.1 (piece T chunk) = .gap gap) ↔ (T.take length).length < chunk.1 := by
  rw [length_take_of_le hlength]
  constructor
  · rintro ⟨gap, hgap⟩
    by_contra hstart
    obtain ⟨hheld, hnew⟩ := appendAtOffset_piece hlength (Nat.le_of_not_lt hstart) hin hend
    rcases lt_or_ge length chunk.2 with hlt | hge
    · rw [hnew hlt] at hgap
      cases hgap
    · rw [hheld hge] at hgap
      cases hgap
  · intro hahead
    refine ⟨_, appendAtOffset_ahead ?_ _⟩
    rw [length_take_of_le hlength]
    exact hahead

def Disagrees (current : Text) (offset : Nat) (chunk : Text) : Prop :=
  ∃ i x y, current[offset + i]? = some x ∧ chunk[i]? = some y ∧ x ≠ y

theorem Held.agrees {current merged chunk : Text} (h : Held merged offset chunk)
    (hbegins : current.IsPrefix merged) : ¬Disagrees current offset chunk := by
  rintro ⟨i, x, y, hx, hy, hne⟩
  obtain ⟨rest, rfl⟩ := hbegins
  obtain ⟨hin, _⟩ := List.getElem?_eq_some_iff.mp hx
  have hthere : (current ++ rest)[offset + i]? = some y := by
    rw [← h.2, getElem?_take, getElem?_drop] at hy
    split_ifs at hy
    exact hy
  rw [getElem?_append_left hin, hx] at hthere
  exact hne (Option.some.inj hthere)

theorem appendAtOffset_disagrees {current chunk : Text} (h : Disagrees current offset chunk) :
    (appendAtOffset current offset chunk).after current = current ∧
      ∃ gap, appendAtOffset current offset chunk = .gap gap := by
  have hgap : ∃ gap, appendAtOffset current offset chunk = .gap gap := by
    rcases appendAtOffset_cases current offset chunk with hgap | ⟨_, hheld⟩ | ⟨merged, _, hbegins, hheld⟩
    · exact hgap
    · exact absurd h (hheld.agrees (prefix_refl current))
    · exact absurd h (hheld.agrees hbegins)
  obtain ⟨gap, hgap⟩ := hgap
  rw [hgap]
  exact ⟨rfl, gap, rfl⟩

theorem receive_run (T : Text) (chunks : List (Nat × Nat)) (hlength : length ≤ T.length)
    (hchunks : ∀ chunk ∈ chunks, chunk.1 ≤ chunk.2 ∧ chunk.2 ≤ T.length) :
    chunks.foldl (receive T) (T.take length) = T.take (chunks.foldl accept length) ∧
      length ≤ chunks.foldl accept length ∧ chunks.foldl accept length ≤ T.length := by
  induction chunks generalizing length with
  | nil => exact ⟨rfl, le_refl _, hlength⟩
  | cons chunk chunks ih =>
    obtain ⟨⟨hin, hend⟩, hrest⟩ := forall_mem_cons.mp hchunks
    obtain ⟨htext, hgrown, hbound⟩ := ih (accept_le hlength hend) hrest
    rw [foldl_cons, receive_piece hlength hin hend]
    exact ⟨htext, (le_accept length chunk).trans hgrown, hbound⟩

/-- A text that is received in chunks of one text, in any order. -/
theorem receive_chunks (T : Text) (length : Nat) (chunks : List (Nat × Nat)) (hlength : length ≤ T.length)
    (hchunks : ∀ chunk ∈ chunks, chunk.1 ≤ chunk.2 ∧ chunk.2 ≤ T.length) :
    chunks.foldl (receive T) (T.take length) = T.take (chunks.foldl accept length) ∧
      (∀ before chunk after, chunks = before ++ chunk :: after →
        before.foldl (receive T) (T.take length) <+: (before ++ [chunk]).foldl (receive T) (T.take length) ∧
        (before ++ [chunk]).foldl (receive T) (T.take length) <+: T ∧
        ((∃ gap, appendAtOffset (before.foldl (receive T) (T.take length)) chunk.1 (piece T chunk) = .gap gap) ↔
          (before.foldl (receive T) (T.take length)).length < chunk.1)) ∧
      ∀ current offset chunk, Disagrees current offset chunk →
        (appendAtOffset current offset chunk).after current = current ∧
          ∃ gap, appendAtOffset current offset chunk = .gap gap := by
  refine ⟨(receive_run T chunks hlength hchunks).1, ?_, fun current offset chunk => appendAtOffset_disagrees⟩
  rintro before chunk after rfl
  have hbefore : ∀ chunk ∈ before, chunk.1 ≤ chunk.2 ∧ chunk.2 ≤ T.length :=
    fun chunk hmem => hchunks chunk (mem_append_left _ hmem)
  obtain ⟨hin, hend⟩ := hchunks chunk (mem_append_right _ mem_cons_self)
  obtain ⟨htext, _, hbound⟩ := receive_run T before hlength hbefore
  rw [foldl_append, htext, foldl_cons, receive_piece hbound hin hend]
  exact ⟨take_prefix_take_left (le_accept _ chunk), take_prefix _ _, gap_iff hbound hin hend⟩

/-- Two chunks that overlap, and the first of them again. -/
theorem receive_chunks_overlapping :
    [(0, 2), (1, 3), (0, 2)].foldl (receive [1, 2, 3]) (take 0 [1, 2, 3]) = [1, 2, 3] := by
  have hreceived := (receive_chunks [1, 2, 3] 0 [(0, 2), (1, 3), (0, 2)] (by decide) (by decide)).1
  exact hreceived

end Echadron.Transcript
