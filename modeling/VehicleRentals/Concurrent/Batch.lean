import VehicleRentals.Concurrent.Linearize

/-!
# Batches of requests that leave each other's outcomes alone

Requests are made one after another. If none of them changes what another, or the
same one made again, is answered, and what a list of them does to the state is
decided by which requests are on it, then the whole batch is known from the state
it starts in (`serial_eq`), and its order does not matter (`effect_perm`).
-/

namespace Concurrent

variable {κ σ ω : Type} {step : κ → σ → ω × σ} {effect : List κ → σ → σ}

/-- No request changes an outcome, and `effect` is what lists of them do. -/
structure Steady (step : κ → σ → ω × σ) (effect : List κ → σ → σ) : Prop where
  outcome : ∀ j k s, (step j (step k s).2).1 = (step j s).1
  nil : ∀ s, effect [] s = s
  cons : ∀ k ks s, effect ks (step k s).2 = effect (k :: ks) s
  congr : ∀ {ks ks'}, (∀ k, k ∈ ks ↔ k ∈ ks') → ∀ s, effect ks s = effect ks' s

namespace Steady

/-- Each request of a batch is answered as if it were the first. -/
theorem serial_eq (h : Steady step effect) (ks : List κ) (s : σ) :
    serial step ks s = (ks.map fun k => (step k s).1, effect ks s) := by
  induction ks generalizing s with
  | nil => rw [serial, List.map_nil, h.nil]
  | cons k ks ih =>
    have rest : (ks.map fun j => (step j (step k s).2).1) = ks.map fun j => (step j s).1 :=
      List.map_congr_left fun j _ => h.outcome j k s
    simp only [serial, ih, rest, h.cons, List.map_cons]

/-- The order does not matter to what the batch does. -/
theorem effect_perm (h : Steady step effect) {ks ks' : List κ} (perm : ks.Perm ks') (s : σ) :
    effect ks s = effect ks' s :=
  h.congr (fun _ => perm.mem_iff) s

end Steady

end Concurrent
