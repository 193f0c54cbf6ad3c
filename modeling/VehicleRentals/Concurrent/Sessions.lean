import VehicleRentals.Concurrent.Programs

/-!
# Clients that make one call after another

A client calls, and what it does next depends on the answers. On a machine where a
connection may be exchanged for a fresh one once its call has returned (`Exchange`), a
pool of clients does what a pool does in which every call has a thread of its own
(`exists_calls`): what holds in all interleavings of single calls holds in all
interleavings of clients. What a client comes to follows from what its calls came to
(`Leads`), and that needs no run.
-/

namespace Concurrent

/-- Done, or a call and what to do with its outcome. -/
inductive Client (C ω α : Type) where
  | done (a : α)
  | ask (call : C) (k : ω → Client C ω α)

namespace Client

variable {E : Type → Type} {C ω α : Type}

/-- The client's program, in which each call runs its own. -/
def code (impl : C → Prog E ω) : Client C ω α → Prog E α
  | .done a => .ret a
  | .ask call k => (impl call).bind fun o => (k o).code impl

/-- What is left of the client after `n` calls, given what they were and how they ended. -/
inductive After (calls : ℕ → C) (outcome : ℕ → Option ω) (client : Client C ω α) : ℕ → Client C ω α → Prop where
  | start : After calls outcome client 0 client
  | next {n : ℕ} {k : ω → Client C ω α} {o : ω} : After calls outcome client n (.ask (calls n) k) → outcome n = some o →
      After calls outcome client (n + 1) (k o)

/-- Only the calls so far matter. -/
theorem After.congr {calls calls' : ℕ → C} {outcome outcome' : ℕ → Option ω} {client rest : Client C ω α} {n : ℕ}
    (h : After calls outcome client n rest) (same : ∀ k < n, calls' k = calls k ∧ outcome' k = outcome k) :
    After calls' outcome' client n rest := by
  induction h with
  | start => exact .start
  | @next n k o _ returned ih =>
    obtain ⟨call, out⟩ := same n n.lt_succ_self
    have asked := ih fun j hj => same j (Nat.lt_succ_of_lt hj)
    rw [← call] at asked
    exact .next asked (out.trans returned)

section

variable {calls : ℕ → C} {outcome : ℕ → Option ω} {client rest rest' : Client C ω α} {n k : ℕ}

theorem After.unique (h : After calls outcome client n rest) (h' : After calls outcome client n rest') : rest = rest' := by
  induction h generalizing rest' with
  | start => cases h'; rfl
  | next _ returned ih =>
    cases h' with
    | next asked' returned' =>
      cases ih asked'
      cases returned.symm.trans returned'
      rfl

/-- An earlier call was asked, and has returned. -/
theorem After.asked (h : After calls outcome client n rest) (lt : k < n) :
    ∃ f o, After calls outcome client k (.ask (calls k) f) ∧ outcome k = some o ∧ After calls outcome client (k + 1) (f o) := by
  induction h with
  | start => cases lt
  | @next n f o asked returned ih =>
    by_cases e : k = n
    · subst e
      exact ⟨f, o, asked, returned, .next asked returned⟩
    · exact ih (by omega)

/-- Every call of the client, with what follows it. -/
def Every (Q : C → (ω → Client C ω α) → Prop) : Client C ω α → Prop
  | .done _ => True
  | .ask call f => Q call f ∧ ∀ o, (f o).Every Q

theorem After.every {Q : C → (ω → Client C ω α) → Prop} (h : After calls outcome client n rest) (all : client.Every Q) :
    rest.Every Q := by
  induction h with
  | start => exact all
  | next _ _ ih => exact ih.2 _

/-- Where each call comes to what may have `Happened`, the client ends as `Q` says. -/
def Leads (Happened : C → ω → Prop) (Q : α → Prop) : Client C ω α → Prop
  | .done a => Q a
  | .ask call f => ∀ o, Happened call o → (f o).Leads Happened Q

theorem Leads.mono {Happened : C → ω → Prop} {Q Q' : α → Prop} {client : Client C ω α} (h : client.Leads Happened Q)
    (sub : ∀ a, Q a → Q' a) : client.Leads Happened Q' := by
  induction client with
  | done a => exact sub a h
  | ask call f ih => exact fun o happened => ih o (h o happened)

theorem After.leads {Happened : C → ω → Prop} {Q : α → Prop} (h : After calls outcome client n rest)
    (happened : ∀ k o, outcome k = some o → Happened (calls k) o) (all : client.Leads Happened Q) : rest.Leads Happened Q := by
  induction h with
  | start => exact all
  | next _ returned ih => exact ih _ (happened _ _ returned)

end

end Client

section

variable {E : Type → Type} {ι σ α : Type} [DecidableEq ι] {M : Machine E ι σ} {code code' : ι → Prog E α} {c c' : Pool E ι σ α}

/-- Whoever has been invoked has been. -/
theorem Step.invoked_stays {l : Label E ι} (h : Step M code c l c') {j : ι} (hj : c.thread j ≠ .idle) :
    c'.thread j ≠ .idle := by
  by_cases e : j = l.thread
  · subst e
    cases h <;> simp
  · rwa [h.frame e]

/-- Whoever moves has been invoked. -/
theorem Step.invoked {l : Label E ι} (h : Step M code c l c') : c'.thread l.thread ≠ .idle := by
  cases h <;> simp

/-- A run does not depend on the code of threads that are not invoked in it. -/
theorem Run.congr_code {P : Pool E ι σ α → Label E ι → Prop} {ls : List (Label E ι)}
    (h : Run (fun c l c' => Step M code c l c' ∧ P c l) c ls c') (same : ∀ i, c'.thread i ≠ .idle → code' i = code i) :
    Run (fun c l c' => Step M code' c l c' ∧ P c l) c ls c' := by
  induction h with
  | nil c => exact .nil c
  | @cons c c₁ c' l ls hs rest ih =>
    obtain ⟨hs, p⟩ := hs
    have stays : ∀ j, c₁.thread j ≠ .idle → c'.thread j ≠ .idle := fun j hj =>
      rest.invariant (I := fun c => c.thread j ≠ .idle) (fun _ _ _ h hs => hs.1.invoked_stays h) hj
    refine .cons ⟨?_, p⟩ (ih same)
    cases hs with
    | @invoke i idle =>
      rw [← same i (stays i (by simp))]
      exact .invoke idle
    | act running hx => exact .act running hx

end

/-- Machine `N` has connections `(i, k)` for each connection `i` of `M`, of which `i` uses
one at a time: `Rel n` relates the states in which these are the `(i, n i)`. Whose call has
not begun or has returned is free, and one may be left for the next. -/
structure Exchange {E : Type → Type} {C ω ι σ τ : Type} [DecidableEq ι] (M : Machine E ι σ) (N : Machine E (ι × ℕ) τ)
    (impl : C → Prog E ω) (u₀ : τ) (Rel : (ι → ℕ) → σ → τ → Prop) (Free : τ → ι × ℕ → Prop) : Prop where
  exec : ∀ {n : ι → ℕ} {β : Type} {i : ι} {e : E β} {r : β} {s s' : σ} {u : τ}, Rel n s u → (r, s') ∈ M.exec i e s →
    ∃ u', (r, u') ∈ N.exec (i, n i) e u ∧ Rel n s' u'
  next : ∀ {n : ι → ℕ} {s : σ} {u : τ} (i : ι), Rel n s u → Free u (i, n i) → Free u (i, n i + 1) →
    Rel (Function.update n i (n i + 1)) s u
  free : ∀ {calls : ι × ℕ → C} {ls : List (Label E (ι × ℕ))} {d : Pool E (ι × ℕ) τ ω},
    Run (Step N fun k => impl (calls k)) (Pool.start u₀) ls d → ∀ k, ¬ d.InProgress k → Free d.shared k

section

variable {E : Type → Type} {C ω α ι σ τ : Type}

/-- Where a client stands whose first `n` calls have returned, in the pool of single calls. -/
inductive Stage (impl : C → Prog E ω) (client : Client C ω α) (calls : ℕ → C) (threads : ℕ → Thread E ω) (n : ℕ) :
    Thread E α → Prop where
  | idle : n = 0 → threads n = .idle → Stage impl client calls threads n .idle
  | done {a : α} : client.After calls (fun k => (threads k).result) n (.done a) → threads n = .idle →
      Stage impl client calls threads n (.running (.ret a))
  | calling {k : ω → Client C ω α} {β : Type} {e : E β} {f : β → Prog E ω} :
      client.After calls (fun k => (threads k).result) n (.ask (calls n) k) → threads n = .running (.step e f) →
      Stage impl client calls threads n (.running ((Prog.step e f).bind fun o => (k o).code impl))

/-- The pool of single calls `d` is where the pool of clients `c` is, but for the stages
of the clients outside `P`. -/
structure Carried (impl : C → Prog E ω) (Rel : (ι → ℕ) → σ → τ → Prop) (clients : ι → Client C ω α) (calls : ι × ℕ → C)
    (n : ι → ℕ) (P : ι → Prop) (c : Pool E ι σ α) (d : Pool E (ι × ℕ) τ ω) : Prop where
  rel : Rel n c.shared d.shared
  later : ∀ i k, n i < k → d.thread (i, k) = .idle
  stage : ∀ i, P i → Stage impl (clients i) (fun k => calls (i, k)) (fun k => d.thread (i, k)) (n i) (c.thread i)

namespace Carried

variable {impl : C → Prog E ω} {Rel : (ι → ℕ) → σ → τ → Prop} {clients : ι → Client C ω α} {calls : ι × ℕ → C} {n : ι → ℕ}
  {c : Pool E ι σ α} {d : Pool E (ι × ℕ) τ ω} {i : ι} {k : ℕ}

/-- A call that was invoked is one the client asks. -/
theorem asked (h : Carried impl Rel clients calls n (fun _ => True) c d) (invoked : d.thread (i, k) ≠ .idle) :
    ∃ f, (clients i).After (fun k => calls (i, k)) (fun k => (d.thread (i, k)).result) k (.ask (calls (i, k)) f) := by
  have stage := h.stage i trivial
  rcases Nat.lt_trichotomy k (n i) with before | rfl | after
  · generalize c.thread i = thread at stage
    cases stage with
    | idle first _ => rw [first] at before; cases before
    | done left _ | calling left _ =>
      obtain ⟨f, -, asked, -⟩ := left.asked before
      exact ⟨f, asked⟩
  · generalize c.thread i = thread at stage
    cases stage with
    | idle _ idle | done _ idle => exact absurd idle invoked
    | calling left _ => exact ⟨_, left⟩
  · exact absurd (h.later i k after) invoked

/-- A call that is under way is its client's current one. -/
theorem current (h : Carried impl Rel clients calls n (fun _ => True) c d) {β : Type} {e : E β} {f : β → Prog E ω}
    (running : d.thread (i, k) = .running (.step e f)) :
    k = n i ∧ ∃ rest : ω → Client C ω α, c.thread i = .running ((Prog.step e f).bind fun o => (rest o).code impl) := by
  have stage := h.stage i trivial
  rcases Nat.lt_trichotomy k (n i) with before | rfl | after
  · generalize c.thread i = thread at stage
    cases stage with
    | idle first _ => rw [first] at before; cases before
    | done left _ | calling left _ =>
      obtain ⟨_, _, -, returned, -⟩ := left.asked before
      rw [running] at returned
      cases returned
  · generalize c.thread i = thread at stage
    cases stage with
    | idle _ idle | done _ idle => cases running.symm.trans idle
    | calling _ there =>
      cases running.symm.trans there
      exact ⟨rfl, _, rfl⟩
  · cases running.symm.trans (h.later i k after)

/-- A client whose call has returned and which is done then has ended. -/
theorem ended (h : Carried impl Rel clients calls n (fun _ => True) c d) {f : ω → Client C ω α} {o : ω} {a : α}
    (asked : (clients i).After (fun k => calls (i, k)) (fun k => (d.thread (i, k)).result) k (.ask (calls (i, k)) f))
    (returned : (d.thread (i, k)).result = some o) (done : f o = .done a) :
    n i = k + 1 ∧ c.thread i = .running (.ret a) := by
  have last := Client.After.next asked returned
  rw [done] at last
  have stage := h.stage i trivial
  have before : k < n i := by
    by_contra le
    rcases Nat.lt_or_eq_of_le (Nat.le_of_not_lt le) with after | rfl
    · rw [h.later i k after] at returned
      cases returned
    · generalize c.thread i = thread at stage
      cases stage with
      | idle _ idle | done _ idle =>
        rw [idle] at returned
        cases returned
      | calling _ running =>
        rw [running] at returned
        cases returned
  have count : n i = k + 1 := by
    by_contra ne
    generalize c.thread i = thread at stage
    cases stage with
    | idle first _ => omega
    | done left _ | calling left _ =>
      obtain ⟨_, _, further, -⟩ := left.asked (show k + 1 < n i by omega)
      cases last.unique further
  refine ⟨count, ?_⟩
  rw [count] at stage
  generalize c.thread i = thread at stage
  cases stage with
  | idle first _ => cases first
  | done left _ =>
    cases last.unique left
    rfl
  | calling left _ => cases last.unique left

/-- What a client comes to, by the outcomes of its calls. -/
theorem leads (h : Carried impl Rel clients calls n (fun _ => True) c d) {a : α} (result : (c.thread i).result = some a)
    {Q : α → Prop} (all : (clients i).Leads (fun call o => ∃ k, calls (i, k) = call ∧ (d.thread (i, k)).result = some o) Q) :
    Q a := by
  have stage := h.stage i trivial
  rw [Thread.result_eq_some result] at stage
  generalize there : Thread.running (Prog.ret a) = thread at stage
  cases stage with
  | idle => cases there
  | calling => cases there
  | done left _ =>
    cases there
    exact left.leads (fun k o returned => ⟨k, rfl, returned⟩) all

end Carried

variable [DecidableEq ι] {M : Machine E ι σ} {N : Machine E (ι × ℕ) τ} {impl : C → Prog E ω} {u₀ : τ}
  {Rel : (ι → ℕ) → σ → τ → Prop} {Free : τ → ι × ℕ → Prop} {clients : ι → Client C ω α} {c : Pool E ι σ α}

/-- A client that was left out is in its stage. -/
theorem Carried.whole {calls : ι × ℕ → C} {n : ι → ℕ} {d : Pool E (ι × ℕ) τ ω} {i : ι} {thread : Thread E α} {s : σ}
    (carried : Carried impl Rel clients calls n (· ≠ i) ⟨s, c.thread⟩ d)
    (stage : Stage impl (clients i) (fun k => calls (i, k)) (fun k => d.thread (i, k)) (n i) thread) :
    Carried impl Rel clients calls n (fun _ => True) ⟨s, Function.update c.thread i thread⟩ d := by
  refine ⟨carried.rel, carried.later, fun j _ => ?_⟩
  by_cases e : j = i
  · subst e
    simpa only [Function.update_self] using stage
  · simpa only [Function.update_of_ne e] using carried.stage j e

omit [DecidableEq ι] in
/-- What happens at a client's current connection leaves the others in their stages. -/
theorem Carried.others {calls calls' : ι × ℕ → C} {n : ι → ℕ} {P : ι → Prop} {d : Pool E (ι × ℕ) τ ω} {i : ι}
    {threads : ι × ℕ → Thread E ω} {s : σ} {u : τ} (carried : Carried impl Rel clients calls n P c d) (hP : ∀ j, j ≠ i → P j)
    (same : ∀ k, k ≠ (i, n i) → calls' k = calls k ∧ threads k = d.thread k) (rel : Rel n s u) :
    Carried impl Rel clients calls' n (· ≠ i) ⟨s, c.thread⟩ ⟨u, threads⟩ := by
  refine ⟨rel, fun j m hm => ?_, fun j hj => ?_⟩
  · have ne : (j, m) ≠ (i, n i) := fun e => by
      cases e
      exact Nat.lt_irrefl _ hm
    exact (same _ ne).2.trans (carried.later j m hm)
  · have own := fun m => same (j, m) fun e => hj (Prod.mk.inj e).1
    simp only [own]
    exact carried.stage j (hP j hj)

/-- The next connection is taken where the call has returned. -/
theorem Carried.next (exchange : Exchange M N impl u₀ Rel Free) {calls : ι × ℕ → C} {n : ι → ℕ} {d : Pool E (ι × ℕ) τ ω}
    {ls : List (Label E (ι × ℕ))} {i : ι} (run : Run (Step N fun k => impl (calls k)) (Pool.start u₀) ls d)
    (carried : Carried impl Rel clients calls n (· ≠ i) c d) {o : ω} (returned : (d.thread (i, n i)).result = some o) :
    Carried impl Rel clients calls (Function.update n i (n i + 1)) (· ≠ i) c d := by
  have idle : d.thread (i, n i + 1) = .idle := carried.later i _ (Nat.lt_succ_self _)
  have free : ¬ d.InProgress (i, n i) := by
    intro h
    cases h.2.symm.trans returned
  refine ⟨exchange.next i carried.rel (exchange.free run _ free) (exchange.free run _ fun h => h.1 idle), ?_, ?_⟩
  · intro j m hm
    refine carried.later j m ?_
    by_cases e : j = i
    · subst e
      rw [Function.update_self] at hm
      exact Nat.lt_of_succ_lt hm
    · rwa [Function.update_of_ne e] at hm
  · intro j hj
    rw [Function.update_of_ne hj]
    exact carried.stage j hj

/-- A pool of single calls is reached, in steps that have `P`, where the pool of clients is at `c`. -/
def Reaches (N : Machine E (ι × ℕ) τ) (impl : C → Prog E ω) (u₀ : τ) (Rel : (ι → ℕ) → σ → τ → Prop)
    (clients : ι → Client C ω α) (P : Pool E (ι × ℕ) τ ω → Label E (ι × ℕ) → Prop) (c : Pool E ι σ α) : Prop :=
  ∃ calls n ls' d, Run (fun d l d' => Step N (fun k : ι × ℕ => impl (calls k)) d l d' ∧ P d l) (Pool.start u₀) ls' d ∧
    Carried impl Rel clients calls n (fun _ => True) c d

theorem Reaches.mono {P Q : Pool E (ι × ℕ) τ ω → Label E (ι × ℕ) → Prop}
    (h : Reaches N impl u₀ Rel clients P c) (sub : ∀ d l, P d l → Q d l) : Reaches N impl u₀ Rel clients Q c := by
  obtain ⟨calls, n, ls', d, run, carried⟩ := h
  exact ⟨calls, n, ls', d, run.mono fun _ _ _ hs => ⟨hs.1, sub _ _ hs.2⟩, carried⟩

/-- The step `l'` from `d` is taken at a step of its client in the run `ls` of clients: a
statement is the one executed there, and a call invoked when that is done. -/
def TakenAt (M : Machine E ι σ) (code : ι → Prog E α) (Rel : (ι → ℕ) → σ → τ → Prop) (c₀ : Pool E ι σ α)
    (ls : List (Label E ι)) (c : Pool E ι σ α) (d : Pool E (ι × ℕ) τ ω) (l' : Label E (ι × ℕ)) : Prop :=
  Run.Takes (Step M code) c₀ ls c fun a l b => l.thread = l'.thread.1 ∧ (l'.event ≠ none → l.event = l'.event) ∧
    ∃ n, Rel n a.shared d.shared ∨ l'.event = none ∧ Rel n b.shared d.shared

namespace Exchange

variable {P : Pool E (ι × ℕ) τ ω → Label E (ι × ℕ) → Prop}

/-- A client between two calls makes those that return at once, up to one that does not
or to its end. -/
theorem settle (exchange : Exchange M N impl u₀ Rel Free) (i : ι) (rest : Client C ω α)
    (own : ∀ n d m, Rel n c.shared d.shared → P d ⟨(i, m), none⟩)
    {calls : ι × ℕ → C} {n : ι → ℕ} {d : Pool E (ι × ℕ) τ ω} {ls' : List (Label E (ι × ℕ))}
    (run : Run (fun d l d' => Step N (fun k => impl (calls k)) d l d' ∧ P d l) (Pool.start u₀) ls' d)
    (carried : Carried impl Rel clients calls n (· ≠ i) c d) (here : d.thread (i, n i) = .idle)
    (after : (clients i).After (fun k => calls (i, k)) (fun k => (d.thread (i, k)).result) (n i) rest) :
    Reaches N impl u₀ Rel clients P ⟨c.shared, Function.update c.thread i (.running (rest.code impl))⟩ := by
  induction rest generalizing calls n d ls' with
  | done a => exact ⟨calls, n, ls', d, run, carried.whole (.done after here)⟩
  | ask call k ih =>
    -- the call has the next thread for itself
    let calls₁ := Function.update calls (i, n i) call
    let d₁ : Pool E (ι × ℕ) τ ω := ⟨d.shared, Function.update d.thread (i, n i) (.running (impl call))⟩
    have run₁ : Run (fun d l d' => Step N (fun k => impl (calls₁ k)) d l d' ∧ P d l) (Pool.start u₀)
        (ls' ++ [⟨(i, n i), none⟩]) d₁ := by
      have invoked : Step N (fun k => impl (calls₁ k)) d ⟨(i, n i), none⟩ d₁ := by
        have own : impl (calls₁ (i, n i)) = impl call := congrArg impl (Function.update_self ..)
        simp only [d₁, ← own]
        exact .invoke here
      refine (run.congr_code fun k hk => ?_).append (.single ⟨invoked, own _ d _ carried.rel⟩)
      have ne : k ≠ (i, n i) := fun e => hk (e ▸ here)
      simp only [calls₁, Function.update_of_ne ne]
    have same : ∀ k, k ≠ (i, n i) → calls₁ k = calls k ∧ d₁.thread k = d.thread k :=
      fun k ne => ⟨Function.update_of_ne ne .., Function.update_of_ne ne ..⟩
    have carried₁ : Carried impl Rel clients calls₁ n (· ≠ i) c d₁ := carried.others (fun _ => id) same carried.rel
    have asked : (clients i).After (fun k => calls₁ (i, k)) (fun k => (d₁.thread (i, k)).result) (n i)
        (.ask (calls₁ (i, n i)) k) := by
      rw [show calls₁ (i, n i) = call from Function.update_self ..]
      refine after.congr fun m hm => ?_
      obtain ⟨call', thread'⟩ := same (i, m) fun e => Nat.ne_of_lt hm (Prod.mk.inj e).2
      exact ⟨call', congrArg Thread.result thread'⟩
    have thread₁ : d₁.thread (i, n i) = .running (impl call) := Function.update_self ..
    rw [Client.code]
    cases program : impl call with
    | step e f =>
      rw [program] at thread₁
      exact ⟨calls₁, n, _, d₁, run₁, carried₁.whole (.calling asked thread₁)⟩
    | ret o =>
      rw [program] at thread₁
      have returned : (d₁.thread (i, n i)).result = some o := by rw [thread₁]; rfl
      refine ih o run₁ (carried₁.next exchange (run₁.mono fun _ _ _ h => h.1) returned) ?_ ?_
      · rw [Function.update_self]
        exact carried₁.later i _ (Nat.lt_succ_self _)
      · rw [Function.update_self]
        exact .next asked returned

/-- A step of a client is one of its call, after which it may be between two calls. -/
theorem step (exchange : Exchange M N impl u₀ Rel Free) {c' : Pool E ι σ α} {l : Label E ι}
    (reached : Reaches N impl u₀ Rel clients P c) (h : Step M (fun i => (clients i).code impl) c l c')
    (own : ∀ n d (l' : Label E (ι × ℕ)), l.thread = l'.thread.1 → (l'.event ≠ none → l.event = l'.event) →
      Rel n c.shared d.shared ∨ l'.event = none ∧ Rel n c'.shared d.shared → P d l') :
    Reaches N impl u₀ Rel clients P c' := by
  obtain ⟨calls, n, ls', d, run, carried⟩ := reached
  cases h with
  | @invoke i idle =>
    have stage := carried.stage i trivial
    rw [idle] at stage
    cases stage with
    | idle first here =>
      refine exchange.settle i (clients i) (fun n d m rel => own n d _ rfl (fun h => absurd rfl h) (.inl rel)) run
        ⟨carried.rel, carried.later, fun j _ => carried.stage j trivial⟩ here ?_
      rw [first]
      exact .start
  | @act i β e k r s' running hx =>
    have stage := carried.stage i trivial
    rw [running] at stage
    generalize there : Thread.running (Prog.step e k) = thread at stage
    cases stage with
    | idle => cases there
    | done => cases there
    | @calling rest β e f asked thread =>
      cases there
      obtain ⟨u', hx', rel⟩ := exchange.exec carried.rel hx
      let d₁ : Pool E (ι × ℕ) τ ω := ⟨u', Function.update d.thread (i, n i) (.running (f r))⟩
      have run₁ : Run (fun d l d' => Step N (fun k => impl (calls k)) d l d' ∧ P d l) (Pool.start u₀) _ d₁ :=
        run.append (.single ⟨.act thread hx', own n d _ rfl (fun _ => rfl) (.inl carried.rel)⟩)
      have same : ∀ k, k ≠ (i, n i) → calls k = calls k ∧ d₁.thread k = d.thread k :=
        fun k ne => ⟨rfl, Function.update_of_ne ne ..⟩
      have carried₁ : Carried impl Rel clients calls n (· ≠ i) ⟨s', c.thread⟩ d₁ :=
        carried.others (fun _ _ => trivial) same rel
      have asked₁ : (clients i).After (fun k => calls (i, k)) (fun k => (d₁.thread (i, k)).result) (n i)
          (.ask (calls (i, n i)) rest) := by
        refine asked.congr fun m hm => ⟨rfl, congrArg Thread.result ?_⟩
        exact (same (i, m) fun e => Nat.ne_of_lt hm (Prod.mk.inj e).2).2
      have thread₁ : d₁.thread (i, n i) = .running (f r) := Function.update_self ..
      show Reaches N impl u₀ Rel clients P
        ⟨s', Function.update c.thread i (.running ((f r).bind fun o => (rest o).code impl))⟩
      cases now : f r with
      | step e' f' =>
        rw [now] at thread₁
        exact ⟨calls, n, _, d₁, run₁, carried₁.whole (.calling asked₁ thread₁)⟩
      | ret o =>
        rw [now] at thread₁
        have returned : (d₁.thread (i, n i)).result = some o := by rw [thread₁]; rfl
        refine exchange.settle (c := ⟨s', c.thread⟩) i (rest o)
          (fun n d m rel => own n d _ rfl (fun h => absurd rfl h) (.inr ⟨rfl, rel⟩)) run₁
          (carried₁.next exchange (run₁.mono fun _ _ _ h => h.1) returned) ?_ ?_
        · rw [Function.update_self]
          exact carried₁.later i _ (Nat.lt_succ_self _)
        · rw [Function.update_self]
          exact .next asked₁ returned

/-- Every run of a pool of clients is one of a pool of single calls, step at step. -/
theorem exists_calls [Nonempty C] (exchange : Exchange M N impl u₀ Rel Free) {s₀ : σ} (start : Rel (fun _ => 0) s₀ u₀)
    {ls : List (Label E ι)} (run : Run (Step M fun i => (clients i).code impl) (Pool.start s₀) ls c) :
    Reaches N impl u₀ Rel clients (TakenAt M (fun i => (clients i).code impl) Rel (Pool.start s₀) ls c) c := by
  obtain ⟨call⟩ := ‹Nonempty C›
  have on : ∀ {ls₀ ls₁ c₀ c₁}, Run (Step M fun i => (clients i).code impl) (Pool.start s₀) ls₀ c₀ →
      Reaches N impl u₀ Rel clients (TakenAt M (fun i => (clients i).code impl) Rel (Pool.start s₀) ls₀ c₀) c₀ →
      Run (Step M fun i => (clients i).code impl) c₀ ls₁ c₁ →
      Reaches N impl u₀ Rel clients (TakenAt M (fun i => (clients i).code impl) Rel (Pool.start s₀) (ls₀ ++ ls₁) c₁) c₁ := by
    intro ls₀ ls₁ c₀ c₁ first reached rest
    induction rest generalizing ls₀ with
    | nil => rwa [List.append_nil]
    | cons hs _ ih =>
      have next := ih (first.append (.single hs)) (exchange.step (reached.mono fun _ _ h => h.append (.single hs)) hs
        fun n d l' thread event rel => Run.takes_last first hs ⟨thread, event, n, rel⟩)
      rwa [List.append_assoc] at next
  exact on (.nil _) ⟨fun _ => call, fun _ => 0, [], Pool.start u₀, .nil _, start, fun _ _ _ => rfl, fun _ _ => .idle rfl rfl⟩ run

end Exchange

end

end Concurrent
