import CubeQuery.Error

/-!
Results with notices. A notice tells the reader of an answer that a name could have meant something
else; it changes no result, and notices given before a failure are kept.
-/

namespace CubeQuery

open CubeQuery.Language

inductive Notice
  /-- A shortened name matches in several hierarchies. -/
  | ambiguousName (path : Path)
  deriving DecidableEq

def Notice.message : Notice → String
  | ambiguousName path =>
    "abbreviated name " ++ path.render ++ " is ambiguous; using the first matching hierarchy"

/-- A result, and the notices given on the way to it. -/
structure Noted (α : Type) where
  notices : List Notice
  result : Except Error α

namespace Noted

def ofResult (result : Except Error α) : Noted α :=
  ⟨[], result⟩

def fail (e : Error) : Noted α :=
  ofResult (.error e)

def note (notice : Notice) : Noted Unit :=
  ⟨[notice], .ok ()⟩

def bind (x : Noted α) (f : α → Noted β) : Noted β :=
  match x.result with
  | .error e => ⟨x.notices, .error e⟩
  | .ok a => ⟨x.notices ++ (f a).notices, (f a).result⟩

instance : Monad Noted where
  pure a := ofResult (.ok a)
  bind := bind

instance : LawfulMonad Noted := by
  refine LawfulMonad.mk' Noted (fun x => ?_) (fun a f => ?_) fun x f g => ?_
  · show bind x _ = x
    unfold bind
    obtain ⟨notices, _ | a⟩ := x
    · rfl
    · exact congrArg (Noted.mk · _) (List.append_nil notices)
  · rfl
  · show bind (bind x f) g = bind x fun a => bind (f a) g
    unfold bind
    cases x.result with
    | error e => rfl
    | ok a =>
      dsimp only
      cases (f a).result with
      | error e => rfl
      | ok b => exact congrArg (Noted.mk · _) (List.append_assoc _ _ _)

/-- Takes outcomes in order, up to the first failure. -/
def sequence : List (Noted α) → Noted (List α)
  | [] => pure []
  | x :: xs => do
    let a ← x
    return a :: (← sequence xs)

@[simp] theorem result_pure (a : α) : (pure a : Noted α).result = .ok a := rfl

@[simp] theorem result_ofResult (r : Except Error α) : (ofResult r).result = r := rfl

@[simp] theorem result_fail (e : Error) : (fail e : Noted α).result = .error e := rfl

@[simp] theorem result_bind (x : Noted α) (f : α → Noted β) :
    (x >>= f).result = x.result >>= fun a => (f a).result := by
  show (bind x f).result = _
  unfold bind
  cases x.result <;> rfl

end Noted

end CubeQuery
