import Mathlib.Data.List.Sort
import Mathlib.Data.Prod.Lex

namespace Echadron.Lib
open List

/-- Nodes in the order of their keys, and of their values where keys agree. -/
structure SkipList (K V : Type) [LinearOrder K] [LinearOrder V] where
  nodes : List (K ×ₗ V)
  sorted : nodes.Pairwise (· ≤ ·)

/-- How keys compare with the bounds of a scan; with some bounds nothing compares. -/
class Comparator (K B : Type) [Preorder K] where
  cmp : K → B → Option Ordering
  isLT_of_le : ∀ {a b : K} {x : B}, a ≤ b → (cmp b x).any (·.isLT) → (cmp a x).any (·.isLT)
  isLE_of_le : ∀ {a b : K} {x : B}, a ≤ b → (cmp b x).any (·.isLE) → (cmp a x).any (·.isLE)
  isGT_of_le : ∀ {a b : K} {x : B}, a ≤ b → (cmp a x).any (·.isGT) → (cmp b x).any (·.isGT)
  isGE_of_le : ∀ {a b : K} {x : B}, a ≤ b → (cmp a x).any (·.isGE) → (cmp b x).any (·.isGE)

/-- The bounds of a range scan. -/
structure RangeOptions (B : Type) where
  gte : Option B := none
  gt : Option B := none
  lte : Option B := none
  lt : Option B := none
deriving DecidableEq

namespace RangeOptions

variable {K B : Type} [Preorder K] [Comparator K B]

/-- Whether a key stands before the first node of a range. -/
def isBelow (r : RangeOptions B) (key : K) : Bool :=
  match r.gte <|> r.gt with
  | none => false
  | some bound =>
    if r.gt.isSome then (Comparator.cmp key bound).any (·.isLE)
    else (Comparator.cmp key bound).any (·.isLT)

/-- Whether a key stands behind the last node of a range. -/
def isAbove (r : RangeOptions B) (key : K) : Bool :=
  r.lte.any (fun bound => (Comparator.cmp key bound).any (·.isGT)) ||
    r.lt.any fun bound => (Comparator.cmp key bound).any (·.isGE)

theorem isBelow_mono (r : RangeOptions B) (a b : K) (h : a ≤ b) (hb : r.isBelow b = true) : r.isBelow a = true := by
  rw [isBelow] at hb ⊢
  cases hlow : r.gte <|> r.gt with
  | none => simp only [hlow, Bool.false_eq_true] at hb
  | some bound =>
    simp only [hlow] at hb ⊢
    by_cases hstrict : r.gt.isSome = true
    · rw [if_pos hstrict] at hb ⊢
      exact Comparator.isLE_of_le h hb
    · rw [if_neg hstrict] at hb ⊢
      exact Comparator.isLT_of_le h hb

theorem isAbove_mono (r : RangeOptions B) (a b : K) (h : a ≤ b) (ha : r.isAbove a = true) : r.isAbove b = true := by
  rw [isAbove, Bool.or_eq_true, Option.any_eq_true, Option.any_eq_true] at ha ⊢
  rcases ha with ⟨bound, hbound, ha⟩ | ⟨bound, hbound, ha⟩
  · exact .inl ⟨bound, hbound, Comparator.isGT_of_le h ha⟩
  · exact .inr ⟨bound, hbound, Comparator.isGE_of_le h ha⟩

end RangeOptions

/-! A scan of a sorted list finds what a filter finds. -/

theorem mem_dropWhile_of_sorted [Preorder α]
    (hp : ∀ a b, a ≤ b → p b = true → p a = true) {ns : List α} (h : ns.Pairwise (· ≤ ·)) (n : α) :
    n ∈ ns.dropWhile p ↔ n ∈ ns ∧ p n = false := by
  induction ns with
  | nil => simp
  | cons m ns ih =>
    rw [pairwise_cons] at h
    by_cases hm : p m = true
    · rw [dropWhile_cons_of_pos hm, ih h.2, mem_cons]
      constructor
      · exact fun ⟨hn, hf⟩ => ⟨.inr hn, hf⟩
      · rintro ⟨rfl | hn, hf⟩
        · rw [hm] at hf
          cases hf
        · exact ⟨hn, hf⟩
    · rw [dropWhile_cons_of_neg hm]
      refine ⟨fun hn => ⟨hn, ?_⟩, And.left⟩
      rcases mem_cons.mp hn with rfl | hn
      · exact Bool.eq_false_iff.mpr hm
      · apply Bool.eq_false_iff.mpr
        intro hpn
        exact hm (hp _ _ (h.1 n hn) hpn)

theorem mem_takeWhile_of_sorted [Preorder α] {p : α → Bool}
    (hp : ∀ a b, a ≤ b → p a = true → p b = true) {ns : List α} (h : ns.Pairwise (· ≤ ·)) (n : α) :
    n ∈ ns.takeWhile (fun n => !p n) ↔ n ∈ ns ∧ p n = false := by
  induction ns with
  | nil => simp
  | cons m ns ih =>
    rw [pairwise_cons] at h
    by_cases hm : p m = true
    · rw [takeWhile_cons_of_neg (by simp [hm])]
      refine ⟨fun hn => absurd hn not_mem_nil, ?_⟩
      rintro ⟨hn, hf⟩
      rcases mem_cons.mp hn with rfl | hn
      · rw [hm] at hf
        cases hf
      · rw [hp _ _ (h.1 n hn) hm] at hf
        cases hf
    · have hf := Bool.eq_false_iff.mpr hm
      rw [takeWhile_cons_of_pos (by simp [hf]), mem_cons, mem_cons, ih h.2]
      constructor
      · rintro (rfl | ⟨hn, hn'⟩)
        · exact ⟨.inl rfl, hf⟩
        · exact ⟨.inr hn, hn'⟩
      · rintro ⟨rfl | hn, hn'⟩
        · exact .inl rfl
        · exact .inr ⟨hn, hn'⟩

namespace SkipList

variable {K V : Type} [LinearOrder K] [LinearOrder V]

def empty : SkipList K V := ⟨[], .nil⟩

instance : Inhabited (SkipList K V) := ⟨empty⟩

def insert (l : SkipList K V) (key : K) (val : V) : SkipList K V :=
  ⟨l.nodes.orderedInsert (· ≤ ·) (toLex (key, val)), l.sorted.orderedInsert _ _⟩

def delete (l : SkipList K V) (key : K) (val : V) : SkipList K V :=
  ⟨l.nodes.erase (toLex (key, val)), l.sorted.sublist erase_sublist⟩

def length (l : SkipList K V) : Nat := l.nodes.length

def range [Comparator K B] (l : SkipList K V) (r : RangeOptions B) : List (K × V) :=
  ((l.nodes.dropWhile fun n => r.isBelow (ofLex n).1).takeWhile
    fun n => !r.isAbove (ofLex n).1).map ofLex

def Mem (l : SkipList K V) (key : K) (val : V) : Prop := toLex (key, val) ∈ l.nodes

def Nodup (l : SkipList K V) : Prop := l.nodes.Nodup

@[simp] theorem not_mem_empty (key : K) (val : V) : ¬ (empty : SkipList K V).Mem key val := not_mem_nil

@[simp] theorem nodup_empty : (empty : SkipList K V).Nodup := nodup_nil

theorem mem_insert (l : SkipList K V) (k k' : K) (v v' : V) :
    (l.insert k v).Mem k' v' ↔ (k' = k ∧ v' = v) ∨ l.Mem k' v' := by
  rw [Mem, insert, mem_orderedInsert, toLex_inj, Prod.mk.injEq, Mem]

theorem nodup_insert {l : SkipList K V} (h : l.Nodup) (hn : ¬ l.Mem k v) : (l.insert k v).Nodup :=
  (perm_orderedInsert _ _ _).nodup_iff.mpr (nodup_cons.mpr ⟨hn, h⟩)

theorem nodup_delete {l : SkipList K V} (h : l.Nodup) (k : K) (v : V) : (l.delete k v).Nodup := h.erase _

theorem mem_delete {l : SkipList K V} (h : l.Nodup) (k k' : K) (v v' : V) :
    (l.delete k v).Mem k' v' ↔ ¬ (k' = k ∧ v' = v) ∧ l.Mem k' v' := by
  rw [Mem, delete, h.mem_erase_iff, Ne, toLex_inj, Prod.mk.injEq, Mem]

theorem eq_of_mem_iff {l l' : SkipList K V} (h : l.Nodup) (h' : l'.Nodup)
    (hm : ∀ k v, l.Mem k v ↔ l'.Mem k v) : l = l' := by
  have hp : l.nodes.Perm l'.nodes := (perm_ext_iff_of_nodup h h').mpr fun n => hm (ofLex n).1 (ofLex n).2
  have he : l.nodes = l'.nodes := hp.eq_of_pairwise' l.sorted l'.sorted
  cases l
  cases he
  rfl

theorem mem_range [Comparator K B] (l : SkipList K V) (r : RangeOptions B) (k : K) (v : V) : (k, v) ∈ l.range r ↔
      l.Mem k v ∧ r.isBelow k = false ∧ r.isAbove k = false := by
  have hs := l.sorted.sublist (dropWhile_sublist fun n => r.isBelow (ofLex n).1)
  have hbelow (a b : K ×ₗ V) (h : a ≤ b) := r.isBelow_mono _ _ (Prod.Lex.monotone_fst a b h)
  have habove (a b : K ×ₗ V) (h : a ≤ b) := r.isAbove_mono _ _ (Prod.Lex.monotone_fst a b h)
  have hmem : (k, v) ∈ l.range r ↔ toLex (k, v) ∈
      (l.nodes.dropWhile fun n => r.isBelow (ofLex n).1).takeWhile
        fun n => !r.isAbove (ofLex n).1 := by
    rw [range, mem_map]
    exact ⟨fun ⟨_, hn, he⟩ => he ▸ hn, fun hn => ⟨_, hn, rfl⟩⟩
  rw [hmem, mem_takeWhile_of_sorted habove hs, mem_dropWhile_of_sorted hbelow l.sorted, and_assoc]
  rfl

end SkipList

end Echadron.Lib
