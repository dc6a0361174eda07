import Mathlib.Data.List.DropRight

namespace Echadron.Lib
open List

/-- White space and line terminators, the characters that `trim` strips. -/
def isTrimmed (c : Char) : Bool :=
  let n := c.toNat
  (9 ≤ n && n ≤ 13) || n == 0x20 || n == 0xA0 || n == 0x1680 || (0x2000 ≤ n && n ≤ 0x200A) ||
    n == 0x2028 || n == 0x2029 || n == 0x202F || n == 0x205F || n == 0x3000 || n == 0xFEFF

def trim (s : String) : String := String.ofList ((s.toList.dropWhile isTrimmed).rdropWhile isTrimmed)

/-- Text that trims to nothing. -/
def isBlank (s : String) : Bool := decide (trim s = "")

theorem trim_eq_empty (s : String) : trim s = "" ↔ ∀ c ∈ s.toList, isTrimmed c = true := by
  have he : trim s = "" ↔ (s.toList.dropWhile isTrimmed).rdropWhile isTrimmed = [] := by
    rw [trim, ← String.toList_inj, String.toList_ofList]
    rfl
  rw [he, rdropWhile_eq_nil_iff]
  constructor
  · intro h c hc
    rw [← takeWhile_append_dropWhile (p := isTrimmed) (l := s.toList)] at hc
    rcases mem_append.mp hc with hc | hc
    · exact mem_takeWhile_imp hc
    · exact h c hc
  · intro h c hc
    exact h c ((dropWhile_sublist _).subset hc)

@[simp] theorem isBlank_iff (s : String) : isBlank s = true ↔ ∀ c ∈ s.toList, isTrimmed c = true := by
  rw [isBlank, decide_eq_true_iff, trim_eq_empty]

theorem isBlank_append (s t : String) : isBlank (s ++ t) = (isBlank s && isBlank t) := by
  rw [Bool.eq_iff_iff, Bool.and_eq_true]
  simp only [isBlank_iff, String.toList_append, mem_append]
  constructor
  · intro h
    exact ⟨fun c hc => h c (.inl hc), fun c hc => h c (.inr hc)⟩
  · rintro ⟨hs, ht⟩ c (hc | hc)
    · exact hs c hc
    · exact ht c hc

end Echadron.Lib
