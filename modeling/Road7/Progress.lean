import Road7.Http

namespace Road7

/-- The ways `proxy_request` ends: the reply of the upstream, a cached response, a reply of
its own that no target is asked for, an error reply, a panic. -/
inductive Ending where
  | upstream (resp : Response)
  | cached (resp : Response)
  | ownReply (resp : Response)
  | refused (e : ProxyError)
  | panicked (p : Panic)
deriving DecidableEq, Repr

/-- How far a part of `proxy_request` has come: on to the next part, to an end of the request,
or into a wait for a lock that it holds itself. -/
inductive Progress (α : Type) where
  | going (a : α)
  | ended (e : Ending)
  | blocked
deriving DecidableEq, Repr

namespace Progress

variable {α β : Type}

def bind (x : Progress α) (f : α → Progress β) : Progress β :=
  match x with
  | going a => f a
  | ended e => ended e
  | blocked => blocked

instance : Monad Progress where
  pure := going
  bind := bind

def refuse (e : ProxyError) : Progress α := ended (.refused e)

def orPanic : Except Panic α → Progress α
  | .ok a => going a
  | .error p => ended (.panicked p)

def endWith (toEnding : Response → Ending) (result : Except Panic Response) : Progress α :=
  orPanic result >>= fun resp => ended (toEnding resp)

def isEnded : Progress α → Bool
  | ended _ => true
  | _ => false

theorem isEnded_iff {x : Progress α} : x.isEnded = true ↔ ∃ e, x = ended e := by
  cases x <;> simp [isEnded]

theorem bind_eq_going {x : Progress α} {f : α → Progress β} {b : β} :
    (x >>= f) = going b ↔ ∃ a, x = going a ∧ f a = going b := by
  cases x <;> simp [Bind.bind, bind]

theorem bind_eq_ended {x : Progress α} {f : α → Progress β} {e : Ending} :
    (x >>= f) = ended e ↔ x = ended e ∨ ∃ a, x = going a ∧ f a = ended e := by
  cases x <;> simp [Bind.bind, bind]

@[simp] theorem going_bind (a : α) (f : α → Progress β) : (going a >>= f) = f a := rfl

@[simp] theorem ended_bind (e : Ending) (f : α → Progress β) : (ended e >>= f) = ended e := rfl

@[simp] theorem blocked_bind (f : α → Progress β) : (blocked >>= f) = blocked := rfl

theorem bind_assoc {γ : Type} (x : Progress α) (f : α → Progress β) (g : β → Progress γ) :
    ((x >>= f) >>= g) = x >>= fun a => f a >>= g := by
  cases x <;> rfl

@[simp] theorem orPanic_eq_going {x : Except Panic α} {a : α} :
    orPanic x = going a ↔ x = .ok a := by
  cases x <;> simp [orPanic]

theorem endWith_cases (toEnding : Response → Ending) (result : Except Panic Response) :
    (∃ resp, (endWith toEnding result : Progress α) = ended (toEnding resp)) ∨
      ∃ p, (endWith toEnding result : Progress α) = ended (.panicked p) := by
  cases result with
  | ok resp => exact .inl ⟨resp, rfl⟩
  | error p => exact .inr ⟨p, rfl⟩

theorem endWith_cached {result : Except Panic Response} {resp : Response} :
    (endWith .cached result : Progress α) = ended (.cached resp) ↔ result = .ok resp := by
  cases result <;> simp [endWith, orPanic]

end Progress

end Road7
