import Mathlib.Algebra.Order.Group.Nat
import Mathlib.Data.Finset.Max
import Mathlib.Data.List.FinRange
import Mathlib.Data.Nat.Find
import Mathlib.Order.Interval.Finset.Nat
import VehicleRentals.Sweep

/-!
# Families of half-open intervals

Two facts about how many intervals can be together. Intervals can be shared
out over `n` rooms, no two that overlap in one room, exactly when no instant
lies in more than `n` of them (`exists_rooms_iff`): handing any free room to
each interval in order of start always works. And if every interval of a list
contains one of some points, a bound on the load at each point bounds how many
there are (`length_le_of_stabbed`); intervals at least as long as the spacing
of a grid, overlapping a window the grid covers, contain one of its points
(`stabbed_of_grid`).
-/

namespace Intervals

universe u v

section Rooms

variable {τ : Type u} [LinearOrder τ] {ι : Type v} [DecidableEq ι] (lo hi : ι → τ)

/-- The intervals of a set that contain `t`. -/
def containing (s : Finset ι) (t : τ) : Finset ι := s.filter fun i => lo i ≤ t ∧ t < hi i

/-- A room below `n` for each interval, and different ones for two that overlap. -/
structure Rooms (n : ℕ) (s : Finset ι) (room : ι → ℕ) : Prop where
  below : ∀ i ∈ s, room i < n
  apart : ∀ i ∈ s, ∀ j ∈ s, i ≠ j → lo i < hi j → lo j < hi i → room i ≠ room j

variable {lo hi}

/-- The intervals that contain one instant overlap one another, so they have different rooms. -/
theorem Rooms.card_le {n : ℕ} {s : Finset ι} {room : ι → ℕ} (h : Rooms lo hi n s room) (t : τ) :
    (containing lo hi s t).card ≤ n := by
  have below : ∀ i ∈ containing lo hi s t, room i ∈ Finset.range n := by
    intro i mem
    exact Finset.mem_range.2 (h.below i (Finset.mem_filter.1 mem).1)
  have apart : Set.InjOn room (containing lo hi s t) := by
    intro i memI j memJ same
    obtain ⟨memI, startI, stopI⟩ := Finset.mem_filter.1 memI
    obtain ⟨memJ, startJ, stopJ⟩ := Finset.mem_filter.1 memJ
    by_contra ne
    exact h.apart i memI j memJ ne (startI.trans_lt stopJ) (startJ.trans_lt stopI) same
  have := Finset.card_le_card_of_injOn room below apart
  rwa [Finset.card_range] at this

/-- An interval that starts last finds a room that is free at its start. -/
theorem Rooms.insert {n : ℕ} {s : Finset ι} {room : ι → ℕ} (h : Rooms lo hi n s room) {a : ι} (new : a ∉ s)
    (last : ∀ i ∈ s, lo i ≤ lo a) (free : (containing lo hi s (lo a)).card < n) :
    ∃ r, Rooms lo hi n (insert a s) (Function.update room a r) := by
  have few : ((containing lo hi s (lo a)).image room).card < (Finset.range n).card := by
    have := Finset.card_image_le (s := containing lo hi s (lo a)) (f := room)
    rw [Finset.card_range]
    omega
  obtain ⟨r, below, unused⟩ := Finset.exists_mem_notMem_of_card_lt_card few
  have kept : ∀ i ∈ s, Function.update room a r i = room i := by
    intro i mem
    apply Function.update_of_ne
    rintro rfl
    exact new mem
  -- whoever overlaps the newcomer is in its room at the newcomer's start
  have other : ∀ i ∈ s, lo a < hi i → room i ≠ r := by
    intro i mem later same
    apply unused
    rw [← same]
    exact Finset.mem_image_of_mem room (Finset.mem_filter.2 ⟨mem, last i mem, later⟩)
  constructor
  · constructor
    · intro i mem
      rcases Finset.mem_insert.1 mem with rfl | mem
      · rw [Function.update_self]
        exact Finset.mem_range.1 below
      · rw [kept i mem]
        exact h.below i mem
    · intro i memI j memJ ne before after
      rcases Finset.mem_insert.1 memI with rfl | oldI
      · rcases Finset.mem_insert.1 memJ with rfl | oldJ
        · exact absurd rfl ne
        · rw [Function.update_self, kept j oldJ]
          exact (other j oldJ before).symm
      · rcases Finset.mem_insert.1 memJ with rfl | oldJ
        · rw [Function.update_self, kept i oldI]
          exact other i oldI after
        · rw [kept i oldI, kept j oldJ]
          exact h.apart i oldI j oldJ ne before after

/-- **Interval graphs need as many colours as their largest clique has members.** -/
theorem exists_rooms_iff {s : Finset ι} (proper : ∀ i ∈ s, lo i < hi i) (n : ℕ) :
    (∃ room, Rooms lo hi n s room) ↔ ∀ t, (containing lo hi s t).card ≤ n := by
  constructor
  · rintro ⟨room, h⟩ t
    exact h.card_le t
  intro few
  induction s using Finset.induction_on_max_value lo with
  | empty => exact ⟨fun _ => 0, by simp, by simp⟩
  | insert a s new last ih =>
    have smaller : ∀ t, containing lo hi s t ⊆ containing lo hi (insert a s) t :=
      fun t => Finset.filter_subset_filter _ (Finset.subset_insert a s)
    obtain ⟨room, h⟩ := ih (fun i mem => proper i (Finset.mem_insert_of_mem mem)) fun t =>
      (Finset.card_le_card (smaller t)).trans (few t)
    have properA := proper a (Finset.mem_insert_self a s)
    -- at its own start the newcomer is one of those the bound counts
    have free : (containing lo hi s (lo a)).card < n := by
      have here : containing lo hi (insert a s) (lo a) = insert a (containing lo hi s (lo a)) :=
        (Finset.filter_insert ..).trans (if_pos ⟨le_refl _, properA⟩)
      have absent : a ∉ containing lo hi s (lo a) := fun mem => new (Finset.mem_filter.1 mem).1
      have := few (lo a)
      rw [here, Finset.card_insert_of_notMem absent] at this
      omega
    obtain ⟨r, h'⟩ := h.insert new last free
    exact ⟨_, h'⟩

end Rooms

section Stabbing

variable {α : Type v}

/-- How many of a list's intervals contain `t` is how many of its positions do. -/
theorem card_containing {τ : Type u} [LinearOrder τ] (lo hi : α → τ) (ps : List α) (t : τ) :
    (containing (fun i : Fin ps.length => lo (ps.get i)) (fun i => hi (ps.get i)) Finset.univ t).card =
      Sweep.load lo hi ps t := by
  have positions : ps = (List.finRange ps.length).map ps.get := (List.map_get_finRange ps).symm
  conv_rhs => rw [positions]
  rw [Sweep.load, List.countP_map, List.countP_eq_length_filter]
  rw [← List.toFinset_card_of_nodup ((List.nodup_finRange _).filter _)]
  congr 1
  ext i
  simp [containing]

/-- If every interval contains one of the points, there are at most as many as the
loads at the points allow. -/
theorem length_le_of_stabbed {τ : Type u} [LinearOrder τ] {lo hi : α → τ} {F : ℕ} (points : List τ) {ps : List α}
    (stabbed : ∀ p ∈ ps, ∃ x ∈ points, lo p ≤ x ∧ x < hi p) (few : ∀ x ∈ points, Sweep.load lo hi ps x ≤ F) :
    ps.length ≤ F * points.length := by
  induction points generalizing ps with
  | nil =>
    have none : ps = [] := by
      apply List.eq_nil_iff_forall_not_mem.2
      intro p hp
      obtain ⟨x, hx, -⟩ := stabbed p hp
      cases hx
    rw [none]
    exact Nat.zero_le _
  | cons x points ih =>
    have here : Sweep.load lo hi ps x ≤ F := few x List.mem_cons_self
    have split := List.length_eq_countP_add_countP (l := ps) fun p => decide (lo p ≤ x ∧ x < hi p)
    simp only [decide_eq_true_eq] at split
    rw [List.countP_eq_length_filter (p := fun p => decide ¬ (lo p ≤ x ∧ x < hi p))] at split
    -- those that miss `x` contain a later point
    have rest : (ps.filter fun p => ¬ (lo p ≤ x ∧ x < hi p)).length ≤ F * points.length := by
      apply ih
      · intro p hp
        obtain ⟨mem, misses⟩ := List.mem_filter.1 hp
        obtain ⟨y, hy, inside⟩ := stabbed p mem
        rcases List.mem_cons.1 hy with rfl | hy
        · exact absurd inside (of_decide_eq_true misses)
        · exact ⟨y, hy, inside⟩
      · intro y hy
        exact (List.filter_sublist.countP_le).trans (few y (List.mem_cons_of_mem x hy))
    rw [Sweep.load] at here
    rw [List.length_cons, Nat.mul_succ]
    omega

/-- The points `a`, `a + m`, …, `a + k • m`. -/
def grid {τ : Type u} [AddCommGroup τ] (a m : τ) (k : ℕ) : List τ := (List.range (k + 1)).map fun j => a + j • m

@[simp] theorem length_grid {τ : Type u} [AddCommGroup τ] (a m : τ) (k : ℕ) : (grid a m k).length = k + 1 := by
  rw [grid, List.length_map, List.length_range]

/-- An interval no shorter than the spacing that overlaps the window contains a grid point. -/
theorem stabbed_of_grid {τ : Type u} [AddCommGroup τ] [LinearOrder τ] [IsOrderedAddMonoid τ] {a b m lo hi : τ}
    {k : ℕ} (covers : b ≤ a + k • m) (long : lo + m ≤ hi) (before : lo < b) (after : a < hi) :
    ∃ x ∈ grid a m k, lo ≤ x ∧ x < hi := by
  have reached : ∃ j, lo ≤ a + j • m := ⟨k, before.le.trans covers⟩
  have first := Nat.find_spec reached
  have within : Nat.find reached ≤ k := Nat.find_min' reached (before.le.trans covers)
  refine ⟨a + Nat.find reached • m, ?_, first, ?_⟩
  · exact List.mem_map.2 ⟨_, List.mem_range.2 (Nat.lt_succ_of_le within), rfl⟩
  · cases least : Nat.find reached with
    | zero => simpa using after
    | succ j =>
      have earlier : a + j • m < lo := not_le.1 (Nat.find_min reached (by omega))
      calc a + (j + 1) • m = a + j • m + m := by rw [succ_nsmul, add_assoc]
        _ < lo + m := by gcongr
        _ ≤ hi := long

end Stabbing

end Intervals
