import Workbench.Cancellation

/-!
**Computations that are not stopped.**

A token decides whether a computation ends, but never what it yields: a computation that ends under
some token yields the same under every token that fires later, and so under the one that never fires.
This holds of everything that is put together from readings of the token, also where a part of the
computation makes the token fire.
-/

namespace Workbench

/-- A token that fires no earlier than another. -/
def Cancellation.Outlasts (later earlier : Cancellation) : Prop :=
  ∀ n, later.spared = some n → ∃ m, earlier.spared = some m ∧ m ≤ n

namespace Cancellable

variable {α β : Type}

/-- What a computation yields if nothing stops it. -/
def Yields (m : Cancellable α) (a : α) : Prop :=
  ∃ rest, m .never = .ok (a, rest)

/-- What the computation yields under a token, it yields under all that outlast it. -/
def Steady (m : Cancellable α) : Prop :=
  ∀ earlier later a rest, later.Outlasts earlier → m earlier = .ok (a, rest) →
    ∃ rest', rest'.Outlasts rest ∧ m later = .ok (a, rest')

theorem Yields.unique {m : Cancellable α} {a b : α} (ha : Yields m a) (hb : Yields m b) : a = b := by
  obtain ⟨_, ha⟩ := ha
  obtain ⟨_, hb⟩ := hb
  rw [ha] at hb
  cases hb
  rfl

/-- A computation that ended in spite of its token has yielded what it always does. -/
theorem Steady.yields {m : Cancellable α} (h : Steady m) {token rest : Cancellation} {a : α}
    (ok : m token = .ok (a, rest)) : Yields m a := by
  have outlasts : Cancellation.never.Outlasts token := by
    intro n eq
    cases eq
  obtain ⟨rest', -, ok'⟩ := h token .never a rest outlasts ok
  exact ⟨rest', ok'⟩

/-! ### How computations are put together -/

theorem bind_of_ok {m : Cancellable α} {f : α → Cancellable β} {token between : Cancellation} {a : α}
    (ok : m token = .ok (a, between)) : (m >>= f) token = f a between := by
  change (m token >>= fun (a, t) => f a t) = _
  rw [ok]
  rfl

theorem bind_of_error {m : Cancellable α} {f : α → Cancellable β} {token : Cancellation} {e : Cancelled}
    (stopped : m token = .error e) : (m >>= f) token = .error e := by
  change (m token >>= fun (a, t) => f a t) = _
  rw [stopped]
  rfl

theorem bind_eq_ok {m : Cancellable α} {f : α → Cancellable β} {token rest : Cancellation} {b : β}
    (ok : (m >>= f) token = .ok (b, rest)) :
    ∃ a between, m token = .ok (a, between) ∧ f a between = .ok (b, rest) := by
  cases h : m token with
  | error e =>
    rw [bind_of_error h] at ok
    cases ok
  | ok v =>
    rw [bind_of_ok h] at ok
    exact ⟨v.1, v.2, rfl, ok⟩

theorem steady_pure (a : α) : Steady (pure a) := by
  intro earlier later b rest outlasts ok
  cases ok
  exact ⟨later, outlasts, rfl⟩

theorem steady_checkpoint : Steady checkpoint := by
  intro earlier later _ rest outlasts ok
  obtain ⟨spared⟩ := later
  cases spared with
  | none =>
    refine ⟨⟨none⟩, ?_, rfl⟩
    intro n eq
    cases eq
  | some n =>
    -- the earlier token has fired, or both spare one reading less
    obtain ⟨k, eq, le⟩ := outlasts n rfl
    obtain ⟨spared⟩ := earlier
    cases eq
    cases k with
    | zero => cases ok
    | succ k =>
      cases ok
      cases n with
      | zero => omega
      | succ n =>
        refine ⟨⟨some n⟩, ?_, rfl⟩
        intro i eq
        cases eq
        exact ⟨k, rfl, by omega⟩

theorem steady_fire : Steady fire := by
  intro earlier later _ rest _ ok
  cases ok
  exact ⟨.fired, fun n eq => ⟨n, eq, Nat.le_refl n⟩, rfl⟩

theorem Steady.bind {m : Cancellable α} {f : α → Cancellable β} (hm : Steady m)
    (hf : ∀ a, Steady (f a)) : Steady (m >>= f) := by
  intro earlier later b rest outlasts ok
  obtain ⟨a, between, first, second⟩ := bind_eq_ok ok
  obtain ⟨between', outlasts', first'⟩ := hm earlier later a between outlasts first
  obtain ⟨rest', outlasts'', second'⟩ := hf a between between' b rest outlasts' second
  exact ⟨rest', outlasts'', (bind_of_ok first').trans second'⟩

theorem steady_mapM {f : α → Cancellable β} (hf : ∀ a, Steady (f a)) (l : List α) :
    Steady (l.mapM f) := by
  induction l with
  | nil =>
    rw [List.mapM_nil]
    exact steady_pure _
  | cons a l ih =>
    rw [List.mapM_cons]
    exact (hf a).bind fun b => ih.bind fun bs => steady_pure _

/-! ### Facts about what is yielded -/

/-- Whatever such a computation yields has the property, be it stopped or not. -/
def Ensures (m : Cancellable α) (p : α → Prop) : Prop :=
  ∀ token a rest, m token = .ok (a, rest) → p a

theorem Yields.of_ensures {m : Cancellable α} {p : α → Prop} {a : α} (h : Yields m a)
    (ensures : Ensures m p) : p a := by
  obtain ⟨rest, ok⟩ := h
  exact ensures .never a rest ok

theorem ensures_pure {p : α → Prop} {a : α} (h : p a) : Ensures (pure a) p := by
  intro token b rest ok
  cases ok
  exact h

theorem Ensures.bind {m : Cancellable α} {f : α → Cancellable β} {p : α → Prop} {q : β → Prop}
    (hm : Ensures m p) (hf : ∀ a, p a → Ensures (f a) q) : Ensures (m >>= f) q := by
  intro token b rest ok
  obtain ⟨a, between, first, second⟩ := bind_eq_ok ok
  exact hf a (hm token a between first) between b rest second

theorem ensures_mapM {f : α → Cancellable β} {p : β → Prop} (hf : ∀ a, Ensures (f a) p)
    (l : List α) : Ensures (l.mapM f) fun bs => ∀ b ∈ bs, p b := by
  induction l with
  | nil =>
    rw [List.mapM_nil]
    exact ensures_pure (by simp)
  | cons a l ih =>
    rw [List.mapM_cons]
    refine (hf a).bind fun b hb => ih.bind fun bs hbs => ensures_pure ?_
    intro c mem
    rcases List.mem_cons.1 mem with rfl | mem
    · exact hb
    · exact hbs c mem

/-! ### Computations that end -/

/-- A computation that ends where nothing stops it, and stops nothing itself. -/
def Ends (m : Cancellable α) : Prop := ∃ a, m .never = .ok (a, .never)

theorem ends_pure (a : α) : Ends (pure a) := ⟨a, rfl⟩

theorem ends_checkpoint : Ends checkpoint := ⟨(), rfl⟩

theorem Ends.bind {m : Cancellable α} {f : α → Cancellable β} (hm : Ends m) (hf : ∀ a, Ends (f a)) :
    Ends (m >>= f) := by
  obtain ⟨a, first⟩ := hm
  obtain ⟨b, second⟩ := hf a
  exact ⟨b, (bind_of_ok first).trans second⟩

theorem ends_mapM {f : α → Cancellable β} (hf : ∀ a, Ends (f a)) (l : List α) : Ends (l.mapM f) := by
  induction l with
  | nil =>
    rw [List.mapM_nil]
    exact ends_pure _
  | cons a l ih =>
    rw [List.mapM_cons]
    exact (hf a).bind fun b => ih.bind fun bs => ends_pure _

end Cancellable

end Workbench
