/-
# CobolAtlas.Proofs.Path.Order -- paths in the order of their components

Steps have a place in a linear order, and so have paths, whose order is the lexicographic one (`precedes_iff`).  Paths
of one place are spellings of one path.  The list that `ascending` makes is the list with its paths put in order
(`pairwise_ascending`), each of them kept (`ascending_perm`).
-/
import CobolAtlas.Repository.Sources
import CobolAtlas.Proofs.Path.Components
import Mathlib.Data.Char
import Mathlib.Data.List.Sort
import Mathlib.Data.List.Lex
import Mathlib.Data.Prod.Lex

namespace CobolAtlas

set_option autoImplicit false

/-- The place of a name among the names: by its bytes, and by its characters where these are the same. -/
def Component.nameRank (n : Text) : List ℕ ×ₗ Text := toLex ((Path.bytesOf n).map UInt8.toNat, n)

/-- The place of a step among the steps: names come last. -/
def Component.rank : Component → ℕ ×ₗ List ℕ ×ₗ Text
  | .root => toLex (0, nameRank [])
  | .current => toLex (1, nameRank [])
  | .parent => toLex (2, nameRank [])
  | .name n => toLex (3, nameRank n)

theorem Component.nameRank_injective : Function.Injective Component.nameRank :=
  fun _ _ same => (Prod.mk.inj (toLex.injective same)).2

theorem Component.namePrecedes_iff {a b : Text} : namePrecedes a b = true ↔ nameRank a < nameRank b := by
  rw [namePrecedes, decide_eq_true_iff, nameRank, nameRank, Prod.Lex.toLex_lt_toLex]

theorem Component.rank_injective : Function.Injective Component.rank := by
  intro a b same
  cases a <;> cases b <;> simp_all [rank, nameRank_injective.eq_iff]

theorem Component.precedes_iff {a b : Component} : a.precedes b = true ↔ a.rank < b.rank := by
  cases a <;> cases b <;> simp [precedes, rank, Prod.Lex.toLex_lt_toLex, namePrecedes_iff]

namespace Path

/-- The place of a path among the paths. -/
def rank (p : Path) : List (ℕ ×ₗ List ℕ ×ₗ Text) := p.components.map Component.rank

theorem rank_eq_iff {p q : Path} : p.rank = q.rank ↔ p.same q = true := by
  rw [same_iff, rank, rank]
  exact (List.map_injective_iff.2 Component.rank_injective).eq_iff

theorem componentsPrecede_iff {as bs : List Component} :
    componentsPrecede as bs = true ↔ as.map Component.rank < bs.map Component.rank := by
  induction as generalizing bs with
  | nil => cases bs <;> simp [componentsPrecede]
  | cons a as ih =>
    cases bs with
    | nil => simp [componentsPrecede]
    | cons b bs =>
      rw [componentsPrecede, List.map_cons, List.map_cons, List.cons_lt_cons_iff, Component.rank_injective.eq_iff]
      split
      · rename_i same
        rw [ih, same, or_iff_right (lt_irrefl _), and_iff_right rfl]
      · rename_i differ
        rw [Component.precedes_iff]
        simp [differ]

theorem precedes_iff {p q : Path} : p.precedes q = true ↔ p.rank < q.rank := componentsPrecede_iff

/-! ## Ascending lists -/

/-- A path is put in front of the first that does not come before it. -/
theorem ascending_eq_insertionSort (ps : List Path) : ascending ps = ps.insertionSort (fun p q => p.rank ≤ q.rank) := by
  have inserted (p : Path) (qs : List Path) : insertAscending p qs = qs.orderedInsert (fun p q => p.rank ≤ q.rank) p := by
    induction qs with
    | nil => rfl
    | cons q qs ih =>
      rw [insertAscending, List.orderedInsert_cons, ih]
      by_cases before : q.rank < p.rank
      · rw [if_pos (precedes_iff.2 before), if_neg (not_le.2 before)]
      · rw [if_neg (mt precedes_iff.1 before), if_pos (not_lt.1 before)]
  induction ps with
  | nil => rfl
  | cons p ps ih => rw [List.insertionSort_cons, ← ih, ← inserted, ascending, List.foldr_cons, ← ascending]

theorem ascending_perm (ps : List Path) : (ascending ps).Perm ps := by
  rw [ascending_eq_insertionSort]
  exact List.perm_insertionSort _ ps

/-- Where no path is there twice, each comes before those that follow it. -/
theorem pairwise_ascending {ps : List Path} (apart : ps.Pairwise fun p q => p.same q = false) :
    (ascending ps).Pairwise fun p q => p.rank < q.rank := by
  have total : Std.Total fun p q : Path => p.rank ≤ q.rank := ⟨fun p q => le_total p.rank q.rank⟩
  have trans : IsTrans Path fun p q => p.rank ≤ q.rank := ⟨fun _ _ _ => le_trans⟩
  have ordered : (ascending ps).Pairwise fun p q => p.rank ≤ q.rank := by
    rw [ascending_eq_insertionSort]
    exact List.pairwise_insertionSort _ ps
  have differ : (ascending ps).Pairwise fun p q => p.rank ≠ q.rank := by
    refine ((ascending_perm ps).pairwise_iff Ne.symm).2 (apart.imp fun {p q} apart same => ?_)
    rw [rank_eq_iff.1 same] at apart
    cases apart
  exact (ordered.and differ).imp fun both => lt_of_le_of_ne both.1 both.2

end Path

end CobolAtlas
