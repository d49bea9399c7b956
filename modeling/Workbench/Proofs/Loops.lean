/-!
**Loops.**

A loop turns as long as there is something left to do. Each turn changes what the loop keeps, or fails and
ends the loop. Whether a loop ends at all is not said by how it is written: `Ends` relates what a loop keeps
to what the loop comes to, if it comes to anything, and it comes to one thing only. `Each` is the loop over a
list that stops at the first failure.
-/

namespace Workbench.Loop

variable {σ ε α : Type} {turn : σ → Except ε (Option σ)} {body : σ → α → Except ε σ → Prop}
  {s t : σ} {a : α} {as : List α} {r r' : Except ε σ}

/-- What a loop comes to: it turns until nothing is left to do, or until a turn fails. -/
inductive Ends (turn : σ → Except ε (Option σ)) : σ → Except ε σ → Prop
  | stop {s : σ} (idle : turn s = .ok none) : Ends turn s (.ok s)
  | fail {s : σ} {e : ε} (failed : turn s = .error e) : Ends turn s (.error e)
  | next {s t : σ} {r : Except ε σ} (turned : turn s = .ok (some t)) (rest : Ends turn t r) :
      Ends turn s r

/-- What it comes to if one thing after the other is dealt with, up to a failure. -/
inductive Each (body : σ → α → Except ε σ → Prop) : List α → σ → Except ε σ → Prop
  | nil {s : σ} : Each body [] s (.ok s)
  | cons {a : α} {as : List α} {s t : σ} {r : Except ε σ} (first : body s a (.ok t))
      (rest : Each body as t r) : Each body (a :: as) s r
  | fail {a : α} {as : List α} {s : σ} {e : ε} (failed : body s a (.error e)) :
      Each body (a :: as) s (.error e)

/-- A loop comes to one thing only. -/
theorem Ends.unique (h : Ends turn s r) (h' : Ends turn s r') : r = r' := by
  induction h with
  | stop idle =>
    cases h' with
    | stop => rfl
    | fail failed =>
      rw [idle] at failed
      cases failed
    | next turned =>
      rw [idle] at turned
      cases turned
  | fail failed =>
    cases h' with
    | stop idle =>
      rw [failed] at idle
      cases idle
    | fail again =>
      rw [failed] at again
      cases again
      rfl
    | next turned =>
      rw [failed] at turned
      cases turned
  | next turned _ ih =>
    cases h' with
    | stop idle =>
      rw [turned] at idle
      cases idle
    | fail failed =>
      rw [turned] at failed
      cases failed
    | next again rest =>
      rw [turned] at again
      cases again
      exact ih rest

theorem Each.unique (once : ∀ s a r r', body s a r → body s a r' → r = r') (h : Each body as s r)
    (h' : Each body as s r') : r = r' := by
  induction h with
  | nil =>
    cases h'
    rfl
  | cons first _ ih =>
    cases h' with
    | cons first' rest =>
      cases once _ _ _ _ first first'
      exact ih rest
    | fail failed => cases once _ _ _ _ first failed
  | fail failed =>
    cases h' with
    | cons first => cases once _ _ _ _ failed first
    | fail failed' => exact once _ _ _ _ failed failed'

end Workbench.Loop
