/-!
# Sessions

A session is asked one command after another, and has a reply to each. What a single command does is
up to the kind of session.

## Main definitions

* `performAll` — a list of commands.
-/

namespace AtomicSet

variable {σ γ ρ : Type}

/-- Performs commands in order, with one reply each. -/
def performAll (perform : σ → γ → σ × ρ) (s : σ) : List γ → σ × List ρ
  | [] => (s, [])
  | c :: cs =>
    let (s, reply) := perform s c
    let (s, replies) := performAll perform s cs
    (s, reply :: replies)

variable (perform : σ → γ → σ × ρ)

/-- Commands are performed one after another. -/
theorem performAll_append (s : σ) (cs cs' : List γ) :
    performAll perform s (cs ++ cs') =
      ((performAll perform (performAll perform s cs).1 cs').1,
        (performAll perform s cs).2 ++ (performAll perform (performAll perform s cs).1 cs').2) := by
  induction cs generalizing s with
  | nil => rfl
  | cons c cs ih => simp only [List.cons_append, performAll, ih]

/-- Every command has a reply. -/
theorem length_performAll (s : σ) (cs : List γ) :
    (performAll perform s cs).2.length = cs.length := by
  induction cs generalizing s with
  | nil => rfl
  | cons c cs ih => simp only [performAll, List.length_cons, ih]

end AtomicSet
