import VehicleRentals.Concurrent.Programs

/-!
# Two programs that do alike

A program on one machine and one on another, each run alone, do alike under a
relation of the states if from related states both end, with related results and
in related states. The rules follow the programs' structure: a step of one is
matched by a whole call of the other, whose steps need not correspond.
-/

namespace Concurrent

variable {E F : Type → Type} {ι κ σ τ α α' β β' ε ε' : Type}

/-- From states related by `J` both programs end, in related states, with results related by `R`. -/
def Alike (M : Machine E ι σ) (N : Machine F κ τ) (i : ι) (j : κ) (J : σ → τ → Prop) (R : α → β → Prop)
    (p : Prog E α) (q : Prog F β) : Prop :=
  ∀ s u, J s u → ∃ a s' b u', M.solo i p s = some (a, s') ∧ N.solo j q u = some (b, u') ∧ J s' u' ∧ R a b

/-- Both returned, or both raised. -/
inductive Ended (X : ε → ε' → Prop) (R : α → β → Prop) : Except ε α → Except ε' β → Prop where
  | ok {a : α} {b : β} : R a b → Ended X R (.ok a) (.ok b)
  | error {e : ε} {e' : ε'} : X e e' → Ended X R (.error e) (.error e')

namespace Alike

variable {M : Machine E ι σ} {N : Machine F κ τ} {i : ι} {j : κ} {J : σ → τ → Prop} {R : α → β → Prop}
  {R' : α' → β' → Prop} {X : ε → ε' → Prop}

theorem ret {a : α} {b : β} (h : R a b) : Alike M N i j J R (.ret a) (.ret b) :=
  fun s u related => ⟨a, s, b, u, rfl, rfl, related, h⟩

theorem mono {S : α → β → Prop} {p : Prog E α} {q : Prog F β} (h : Alike M N i j J R p q) (weaker : ∀ a b, R a b → S a b) :
    Alike M N i j J S p q := by
  intro s u related
  obtain ⟨a, s', b, u', run, run', related', same⟩ := h s u related
  exact ⟨a, s', b, u', run, run', related', weaker a b same⟩

theorem bind {p : Prog E α} {q : Prog F β} {f : α → Prog E α'} {g : β → Prog F β'} (first : Alike M N i j J R p q)
    (rest : ∀ a b, R a b → Alike M N i j J R' (f a) (g b)) : Alike M N i j J R' (p.bind f) (q.bind g) := by
  intro s u related
  obtain ⟨a, s₁, b, u₁, run, run', related₁, same⟩ := first s u related
  obtain ⟨a', s', b', u', then', then'', related', same'⟩ := rest a b same s₁ u₁ related₁
  refine ⟨a', s', b', u', ?_, ?_, related', same'⟩
  · rw [Machine.solo_bind, run]
    exact then'
  · rw [Machine.solo_bind, run']
    exact then''

/-- Two computations that may raise, one after the other. -/
theorem andThen {x : ExceptT ε (Prog E) α} {y : ExceptT ε' (Prog F) β} {f : α → ExceptT ε (Prog E) α'}
    {g : β → ExceptT ε' (Prog F) β'} (first : Alike M N i j J (Ended X R) x.run y.run)
    (rest : ∀ a b, R a b → Alike M N i j J (Ended X R') (f a).run (g b).run) :
    Alike M N i j J (Ended X R') (x >>= f).run (y >>= g).run := by
  refine first.bind fun a b ended => ?_
  cases ended with
  | ok same => exact rest _ _ same
  | error same => exact ret (.error same)

/-- A loop over two lists keeps what every round keeps of the accumulators. -/
theorem foldlM {γ δ : Type} {V : γ → δ → Prop} {f : α → γ → ExceptT ε (Prog E) α} {g : β → δ → ExceptT ε' (Prog F) β}
    {xs : List γ} {ys : List δ} (along : List.Forall₂ V xs ys) {a : α} {b : β} (start : R a b)
    (round : ∀ a b x y, R a b → V x y → Alike M N i j J (Ended X R) (f a x).run (g b y).run) :
    Alike M N i j J (Ended X R) (xs.foldlM f a).run (ys.foldlM g b).run := by
  induction along generalizing a b with
  | nil => exact ret (.ok start)
  | cons related _ ih => exact (round _ _ _ _ start related).andThen fun _ _ same => ih same

/-- Programs run one after another. -/
theorem solos {ps : List (Prog E α)} {qs : List (Prog F β)} (each : List.Forall₂ (Alike M N i j J R) ps qs) {s : σ} {u : τ}
    (related : J s u) :
    ∃ as s' bs u', M.solos i ps s = some (as, s') ∧ N.solos j qs u = some (bs, u') ∧ J s' u' ∧ List.Forall₂ R as bs := by
  induction each generalizing s u with
  | nil => exact ⟨[], s, [], u, rfl, rfl, related, .nil⟩
  | cons first _ ih =>
    obtain ⟨a, s₁, b, u₁, run, run', related₁, same⟩ := first s u related
    obtain ⟨as, s', bs, u', runs, runs', related', all⟩ := ih related₁
    exact ⟨a :: as, s', b :: bs, u', Machine.solos_cons run runs, Machine.solos_cons run' runs', related', .cons same all⟩

end Alike

end Concurrent
